import UtilVserver.VectorRefines
import UtilVserver.Lib.Chains

/-!
# Self-organising searches (`src/ensc_vector/list-*.c`, `vector-searchselforg.c`)

* `Items` — a `struct List` with its items.
* `add`, `search`, `searchSelfOrg` — `List_add`, `List_search` and `List_searchSelfOrg`.
* `vectorSearchSelfOrg` — `Vector_searchSelfOrg`, on the memory of the vector.
* `Searched` — what a search finds, and what it makes of the elements.

The comparison function is the one of C with the key applied.

Principal results: `search_chain`, `searchSelfOrg_chain`, `vectorSearchSelfOrg_right` (one search)
and `selfOrg_agree`.
-/

set_option autoImplicit false

namespace ListSelfOrg

open Chains EnscVector VectorMemory

variable {P : Type}

/-- The links of a list; the items have numbers, and `data` is their pointer. -/
structure Items (P : Type) where
  links : Memory Nat
  data : Nat → P

/-- `List_insertInternal` in front of the root, with the address of the new item. -/
def add (list : Items P) (item : Nat) (data : P) : Items P where
  links := (list.links.set (.next item) list.links.root).set .root (some item)
  data := Function.update list.data item data

/-- The loop of `List_search`. -/
def searchLoop (compare : P → Int) (list : Items P) : Nat → Option Nat → Option (Option P)
  | 0, _ => none
  | _ + 1, none => some none
  | fuel + 1, some itm =>
    if compare (list.data itm) ≠ 0 then searchLoop compare list fuel (list.links.next itm)
    else some (some (list.data itm))

/-- `List_search`. -/
def search (compare : P → Int) (fuel : Nat) (list : Items P) : Option (Option P) :=
  searchLoop compare list fuel list.links.root

/-- The end of `List_searchSelfOrg`. -/
def Items.found (list : Items P) (m : Memory Nat) (itm : Place Nat) : Outcome (Items P × Option P) :=
  .ok ({ list with links := m }, (m.get itm).map list.data)

/-- `List_searchSelfOrg`; the method is `none` for a number that is not in the enumeration. -/
def searchSelfOrg (debug : Bool) (compare : P → Int) (fuel : Nat) (list : Items P) :
    Option SelfOrgMethod → Option (Outcome (Items P × Option P))
  | some .MOVE_FRONT =>
    (walk (fun itm => compare (list.data itm) = 0) list.links fuel .root).map fun itm =>
      match list.links.get itm with
      | none => list.found list.links itm
      | some res =>
        if some res ≠ list.links.root then
          let m := list.links.set itm (list.links.next res)
          let m := m.set (.next res) m.root
          let m := m.set .root (some res)
          list.found m .root
        else list.found list.links itm
  | some .SHIFT_ONCE =>
    match list.links.root with
    | none => some (list.found list.links .root)
    | some first =>
      if compare (list.data first) = 0 then some (list.found list.links .root)
      else
        (walkNext (fun itm => compare (list.data itm) = 0) list.links fuel .root).map fun itm =>
          match list.links.get itm with
          | none => .fault
          | some before =>
            match list.links.next before with
            | none => list.found list.links (.next before)
            | some res =>
              let m := list.links.set (.next before) (list.links.next res)
              let m := m.set (.next res) (m.get itm)
              let m := m.set itm (some res)
              list.found m itm
  -- `assert(false); return 0;`
  | none => some (if debug then .ended else .ok (list, none))

/-- `Vector_searchSelfOrg`, with the number of the element that is returned. -/
def vectorSearchSelfOrg (debug : Bool) (compare : Elem → Int) (vec : Vector) :
    Option SelfOrgMethod → Outcome (Vector × Option Nat)
  | some method => VectorMemory.searchSelfOrg compare method vec
  | none =>
    (scan (fun x => compare x = 0) vec vec.count 0).bind fun ptr =>
      if vec.count ≤ ptr then .ok (vec, none)
      else if ptr = 0 then .ok (vec, some 0)
      -- `assert(false)`, or a `memcpy` to the null pointer
      else (vec.element ptr).bind fun _ => if debug then .ended else .fault

/-! ## One search -/

/-- The first element that compares equal is found, and only it has moved. -/
inductive Searched {α : Type} (compare : α → Int) (method : SelfOrgMethod) (xs : List α) :
    Option α → List α → Prop
  | nothing (h : ∀ x ∈ xs, compare x ≠ 0) : Searched compare method xs none xs
  | found {before behind : List α} {x : α} (hxs : xs = before ++ x :: behind)
      (hbefore : ∀ y ∈ before, compare y ≠ 0) (hx : compare x = 0) :
      Searched compare method xs (some x) (moved method before x behind)

theorem searched {α : Type} (compare : α → Int) (method : SelfOrgMethod) (xs : List α) :
    Searched compare method xs (EnscVector.searchSelfOrg compare xs method).1
      (EnscVector.searchSelfOrg compare xs method).2 := by
  rcases searchSelfOrg_cases compare xs method with ⟨hnone, h⟩ | ⟨before, x, behind, hxs, hbefore,
    hx, h⟩
  · rw [h]
    exact .nothing hnone
  · rw [h]
    exact .found hxs hbefore hx

/-- A search among items is one among their data. -/
theorem searchSelfOrg_map {α β : Type} (f : α → β) (compare : β → Int) (method : SelfOrgMethod)
    (xs : List α) :
    EnscVector.searchSelfOrg compare (xs.map f) method =
      ((EnscVector.searchSelfOrg (fun x => compare (f x)) xs method).1.map f,
        (EnscVector.searchSelfOrg (fun x => compare (f x)) xs method).2.map f) := by
  have htake : (xs.map f).takeWhile (fun x => compare x != 0) =
      (xs.takeWhile fun x => compare (f x) != 0).map f := by
    rw [List.takeWhile_map]
    rfl
  have hdrop : (xs.map f).dropWhile (fun x => compare x != 0) =
      (xs.dropWhile fun x => compare (f x) != 0).map f := by
    rw [List.dropWhile_map]
    rfl
  simp only [EnscVector.searchSelfOrg, htake, hdrop]
  cases xs.dropWhile fun x => compare (f x) != 0 with
  | nil => rfl
  | cons x behind =>
    cases method with
    | MOVE_FRONT => simp [moved]
    | SHIFT_ONCE =>
      simp only [moved, List.map_append, List.map_dropLast, List.map_cons, List.getLast?_map]
      cases (xs.takeWhile fun x => compare (f x) != 0).getLast? <;> rfl

variable {list : Items P} {as : List Nat} {compare : P → Int} {fuel : Nat} {debug : Bool}

theorem add_chain (h : Chain list.links as) {item : Nat} (hitem : item ∉ as) (data : P) :
    Chain (add list item data).links (item :: as) ∧
      (item :: as).map (add list item data).data = data :: as.map list.data := by
  refine ⟨h.insert_root hitem, ?_⟩
  rw [List.map_cons]
  congr 1
  · exact Function.update_self item data list.data
  · refine List.map_congr_left fun a ha => ?_
    have hne : a ≠ item := fun heq => hitem (heq ▸ ha)
    exact Function.update_of_ne hne data list.data

/-- **The plain search** finds the first element that compares equal. -/
theorem search_chain (h : Chain list.links as) (hfuel : as.length < fuel) :
    search compare fuel list = some ((as.map list.data).find? fun x => compare x == 0) := by
  obtain ⟨hseg, -⟩ := h
  rw [search]
  generalize list.links.root = p at hseg ⊢
  induction as generalizing p fuel with
  | nil =>
    obtain ⟨n, rfl⟩ := Nat.exists_eq_succ_of_ne_zero (Nat.ne_of_gt hfuel)
    obtain rfl : p = none := hseg
    rfl
  | cons a as ih =>
    obtain ⟨n, rfl⟩ := Nat.exists_eq_succ_of_ne_zero (Nat.ne_of_gt (Nat.zero_lt_of_lt hfuel))
    obtain ⟨rfl, hseg⟩ := hseg
    rw [searchLoop, List.map_cons]
    split
    · rename_i hne
      rw [ih (Nat.lt_of_succ_lt_succ hfuel) _ hseg, List.find?_cons_of_neg (by simpa using hne)]
    · rename_i heq
      rw [List.find?_cons_of_pos (by simpa using heq)]

section Linked

variable {before behind : List Nat} {res : Nat}

theorem takeWhile_found {stop : Nat → Bool} (hbefore : ∀ a ∈ before, stop a = false)
    (hres : stop res = true) :
    (before ++ res :: behind).takeWhile (fun a => !stop a) = before := by
  rw [List.takeWhile_append_of_pos fun a ha => by rw [hbefore a ha]; rfl,
    List.takeWhile_cons_of_neg (by rw [hres]; nofun), List.append_nil]

/-- `listMOVE_FRONT`: the item is taken out and put in at the root. -/
theorem moveFront_chain (h : Chain list.links (before ++ res :: behind))
    (hbefore : ∀ a ∈ before, compare (list.data a) ≠ 0) (hres : compare (list.data res) = 0)
    (hfuel : (before ++ res :: behind).length < fuel) :
    ∃ m, searchSelfOrg debug compare fuel list (some .MOVE_FRONT) =
        some (.ok ({ list with links := m }, some (list.data res))) ∧
      Chain m (res :: (before ++ behind)) := by
  have hwalk := h.walk_root (fun a => compare (list.data a) = 0) hfuel
  rw [takeWhile_found (fun a ha => by simpa using hbefore a ha) (by simpa using hres)] at hwalk
  simp only [searchSelfOrg, hwalk, Option.map_some, h.get, List.head?_cons]
  have hroot := h.split.1
  cases before with
  | nil =>
    have hsame : ¬ some res ≠ list.links.root := fun hne => hne hroot.symm
    refine ⟨list.links, ?_, h⟩
    rw [if_neg hsame, Items.found, h.get]
    rfl
  | cons first before =>
    have hne : some res ≠ list.links.root := by
      rw [hroot.1]
      rintro ⟨⟩
      exact (h.unlink).2 (List.mem_append_left _ List.mem_cons_self)
    obtain ⟨hunlinked, hnot⟩ := h.unlink
    refine ⟨_, ?_, hunlinked.insert_root hnot⟩
    rw [if_pos hne]
    rfl

/-- `listSHIFT_ONCE`: the item is taken out and put in one place earlier. -/
theorem shiftOnce_chain (h : Chain list.links (before ++ res :: behind))
    (hbefore : ∀ a ∈ before, compare (list.data a) ≠ 0) (hres : compare (list.data res) = 0)
    (hfuel : (before ++ res :: behind).length < fuel) :
    ∃ m, searchSelfOrg debug compare fuel list (some .SHIFT_ONCE) =
        some (.ok ({ list with links := m }, some (list.data res))) ∧
      Chain m (before.dropLast ++ res :: (before.getLast?.toList ++ behind)) := by
  have hroot := h.split.1
  cases before with
  | nil =>
    have hfirst : list.links.root = some res := hroot
    refine ⟨list.links, ?_, h⟩
    simp only [searchSelfOrg, hfirst, if_pos hres, Items.found, Memory.get, Option.map_some]
  | cons first before =>
    have hne : compare (list.data first) ≠ 0 := hbefore first List.mem_cons_self
    have hlen : (before ++ res :: behind).length < fuel := Nat.lt_of_succ_lt hfuel
    have hcons : Chain list.links (first :: (before ++ res :: behind)) := h
    have hwalk := hcons.walkNext_root (fun a => compare (list.data a) = 0) hlen
    have hrest : ∀ a ∈ before, compare (list.data a) ≠ 0 :=
      fun a ha => hbefore a (List.mem_cons_of_mem first ha)
    rw [takeWhile_found (fun a ha => by simpa using hrest a ha) (by simpa using hres)] at hwalk
    simp only [searchSelfOrg, hroot.1, if_neg hne, hwalk, Option.map_some]
    obtain ⟨front, p, hsplit⟩ : ∃ front p, first :: before = front ++ [p] :=
      (eq_nil_or_snoc (first :: before)).resolve_left (List.cons_ne_nil first before)
    rw [hsplit] at h ⊢
    rw [List.dropLast_concat, List.getLast?_concat]
    have hget : list.links.get (Chains.behind front) = some p := by
      rw [List.append_assoc] at h
      exact h.get
    have hnext : list.links.next p = some res := by
      rw [List.append_assoc] at h
      exact h.link
    obtain ⟨hunlinked, hnot⟩ := h.unlink
    rw [List.append_assoc] at hunlinked hnot
    have hinserted := hunlinked.insert hnot
    rw [behind_append] at hinserted
    refine ⟨_, ?_, hinserted⟩
    simp only [hget, hnext, Items.found, hinserted.get, List.head?_cons, Option.map_some]

/-- Nothing is changed when no item compares equal. -/
theorem nothing_chain (h : Chain list.links as) (hnone : ∀ a ∈ as, compare (list.data a) ≠ 0)
    (hfuel : as.length < fuel) (method : SelfOrgMethod) :
    searchSelfOrg debug compare fuel list (some method) = some (.ok (list, none)) := by
  have htake : ∀ bs : List Nat, (∀ a ∈ bs, a ∈ as) →
      bs.takeWhile (fun a => !decide (compare (list.data a) = 0)) = bs := by
    intro bs hbs
    rw [List.takeWhile_eq_self_iff]
    intro a ha
    simpa using hnone a (hbs a ha)
  have hend : Chain list.links (as ++ []) := by rwa [List.append_nil]
  cases method with
  | MOVE_FRONT =>
    have hwalk := h.walk_root (fun a => compare (list.data a) = 0) hfuel
    rw [htake as fun _ ha => ha] at hwalk
    simp only [searchSelfOrg, hwalk, Option.map_some, hend.get, List.head?_nil, Items.found,
      Option.map_none]
  | SHIFT_ONCE =>
    cases as with
    | nil =>
      have hroot : list.links.root = none := h.segment
      simp only [searchSelfOrg, hroot, Items.found, Memory.get, Option.map_none]
    | cons first rest =>
      have hne : compare (list.data first) ≠ 0 := hnone first List.mem_cons_self
      have hwalk := h.walkNext_root (fun a => compare (list.data a) = 0) (Nat.lt_of_succ_lt hfuel)
      rw [htake rest fun a ha => List.mem_cons_of_mem first ha] at hwalk
      simp only [searchSelfOrg, h.segment.1, if_neg hne, hwalk, Option.map_some]
      obtain ⟨front, p, hsplit⟩ : ∃ front p, first :: rest = front ++ [p] :=
        (eq_nil_or_snoc (first :: rest)).resolve_left (List.cons_ne_nil first rest)
      rw [hsplit] at h ⊢
      rw [List.dropLast_concat]
      have hget : list.links.get (Chains.behind front) = some p := h.get
      have hnext : list.links.next p = none := h.link
      simp only [hget, hnext]
      simp only [Items.found, Memory.get, hnext, Option.map_none]

end Linked

/-- **The list does what the search in a list of elements does.** -/
theorem searchSelfOrg_chain (h : Chain list.links as) (hfuel : as.length < fuel)
    (method : SelfOrgMethod) :
    ∃ m, searchSelfOrg debug compare fuel list (some method) = some (.ok ({ list with links := m },
        (EnscVector.searchSelfOrg (fun a => compare (list.data a)) as method).1.map list.data)) ∧
      Chain m (EnscVector.searchSelfOrg (fun a => compare (list.data a)) as method).2 := by
  rcases searchSelfOrg_cases (fun a => compare (list.data a)) as method with ⟨hnone, hsearch⟩ |
    ⟨before, res, behind, rfl, hbefore, hres, hsearch⟩
  · rw [hsearch]
    exact ⟨list.links, nothing_chain h hnone hfuel method, h⟩
  · rw [hsearch]
    cases method with
    | MOVE_FRONT => exact moveFront_chain h hbefore hres hfuel
    | SHIFT_ONCE => exact shiftOnce_chain h hbefore hres hfuel

/-- **So does the vector.** -/
theorem vectorSearchSelfOrg_right {vec : Vector} {xs : List Elem} (h : Right vec xs)
    (compare : Elem → Int) (method : SelfOrgMethod) :
    ∃ vec' place, vectorSearchSelfOrg debug compare vec (some method) = .ok (vec', place) ∧
      Right vec' (EnscVector.searchSelfOrg compare xs method).2 ∧
      place.map (fun i => (EnscVector.searchSelfOrg compare xs method).2[i]?) =
        (EnscVector.searchSelfOrg compare xs method).1.map some := by
  have hsafe := @searchSelfOrg_safe vec vec.elem_size xs granting compare h method
  obtain ⟨⟨vec', place⟩, hok⟩ := hsafe.value rfl
  rw [hok] at hsafe
  obtain ⟨ys, rfl, hys, hplace⟩ := hsafe
  exact ⟨vec', place, hok, right_of_inv hys rfl, hplace⟩

/-! ## Sequences of searches -/

/-- The comparison with a key, and what to do with the element found. -/
structure Query where
  compare : Elem → Int
  method : SelfOrgMethod

/-- Searches in the list one after the other; `read` gives the memory behind a pointer. -/
def listSearches (debug : Bool) (read : P → Elem) (fuel : Nat) :
    List Query → Items P → Option (Outcome (Items P))
  | [], list => some (.ok list)
  | query :: queries, list =>
    (searchSelfOrg debug (fun data => query.compare (read data)) fuel list
        (some query.method)).bind fun outcome =>
      match outcome with
      | .ok (list, _) => listSearches debug read fuel queries list
      | .ended => some .ended
      | .fault => some .fault

/-- Searches in the vector one after the other. -/
def vectorSearches (debug : Bool) : List Query → Vector → Outcome Vector
  | [], vec => .ok vec
  | query :: queries, vec =>
    (vectorSearchSelfOrg debug query.compare vec (some query.method)).bind fun (vec, _) =>
      vectorSearches debug queries vec

variable {vec : Vector} {read : P → Elem}

/-- **Equal contents stay equal.** -/
theorem searches_agree (hlist : Chain list.links as) (hfuel : as.length < fuel)
    (hvec : Right vec (as.map fun a => read (list.data a))) (queries : List Query) :
    ∃ list' as' vec', listSearches debug read fuel queries list = some (.ok list') ∧
      vectorSearches debug queries vec = .ok vec' ∧ list'.data = list.data ∧
      Chain list'.links as' ∧ Right vec' (as'.map fun a => read (list.data a)) := by
  induction queries generalizing list as vec with
  | nil => exact ⟨list, as, vec, rfl, rfl, rfl, hlist, hvec⟩
  | cons query queries ih =>
    obtain ⟨m, hsearch, hchain⟩ := @searchSelfOrg_chain P list as
      (fun data => query.compare (read data)) fuel debug hlist hfuel query.method
    obtain ⟨vec', place, hvector, hright, -⟩ :=
      @vectorSearchSelfOrg_right debug vec _ hvec query.compare query.method
    rw [searchSelfOrg_map] at hright
    have hlen := (searchSelfOrg_perm (fun a => query.compare (read (list.data a))) as
      query.method).length_eq
    obtain ⟨list', as', vec'', hlists, hvectors, hdata, hchain', hright'⟩ :=
      @ih { list with links := m } _ vec' hchain (by omega) hright
    refine ⟨list', as', vec'', ?_, ?_, hdata, hchain', hright'⟩
    · rw [listSearches, hsearch]
      exact hlists
    · rw [vectorSearches, hvector]
      exact hvectors

/-- **Searches in lists and in vectors**: each returns what the plain search does and moves only
that, and a list and a vector with equal contents keep them in every sequence of searches.  There
are two methods; with any other number the search in a list ends before it begins. -/
theorem selfOrg_agree (hlist : Chain list.links as) (hfuel : as.length < fuel)
    (hvec : Right vec (as.map fun a => read (list.data a))) :
    (∀ (compare : P → Int) (method : SelfOrgMethod), ∃ list' as' found,
      searchSelfOrg debug compare fuel list (some method) = some (.ok (list', found)) ∧
      search compare fuel list = some found ∧ list'.data = list.data ∧ Chain list'.links as' ∧
      Searched compare method (as.map list.data) found (as'.map list.data)) ∧
    (∀ (compare : Elem → Int) (method : SelfOrgMethod), ∃ vec' place found ys,
      vectorSearchSelfOrg debug compare vec (some method) = .ok (vec', place) ∧
      found = (as.map fun a => read (list.data a)).find? (fun x => compare x == 0) ∧
      place.map (fun i => ys[i]?) = found.map some ∧ Right vec' ys ∧
      Searched compare method (as.map fun a => read (list.data a)) found ys) ∧
    (∀ queries : List Query, ∃ list' as' vec',
      listSearches debug read fuel queries list = some (.ok list') ∧
      vectorSearches debug queries vec = .ok vec' ∧ Chain list'.links as' ∧
      Right vec' (as'.map fun a => read (list'.data a))) ∧
    ∀ compare : P → Int, searchSelfOrg debug compare fuel list none =
      some (if debug then .ended else .ok (list, none)) := by
  refine ⟨fun compare method => ?_, fun compare method => ?_, fun queries => ?_, fun _ => rfl⟩
  · obtain ⟨m, hsearch, hchain⟩ := @searchSelfOrg_chain P list as compare fuel debug hlist hfuel method
    have hsearched := searched compare method (as.map list.data)
    rw [searchSelfOrg_map] at hsearched
    refine ⟨_, _, _, hsearch, ?_, rfl, hchain, hsearched⟩
    have hfind := searchSelfOrg_find? compare (as.map list.data) method
    rw [searchSelfOrg_map] at hfind
    exact (search_chain hlist hfuel).trans (congrArg some hfind.symm)
  · obtain ⟨vec', place, hok, hright, hplace⟩ :=
      @vectorSearchSelfOrg_right debug vec _ hvec compare method
    exact ⟨vec', place, _, _, hok, searchSelfOrg_find? compare _ method, hplace, hright,
      searched compare method _⟩
  · obtain ⟨list', as', vec', hlists, hvectors, hdata, hchain, hright⟩ :=
      @searches_agree P list as fuel debug vec read hlist hfuel hvec queries
    rw [← hdata] at hright
    exact ⟨list', as', vec', hlists, hvectors, hchain, hright⟩

/-- Two items; a pointer to `n` points to the byte `n`. -/
def twoItems : Items Nat := add (add ⟨⟨none, fun _ => none⟩, fun _ => 0⟩ 1 20) 2 10

theorem twoItems_chain : Chain twoItems.links [2, 1] ∧ [2, 1].map twoItems.data = [10, 20] := by
  have hnil : Chain (⟨none, fun _ => none⟩ : Memory Nat) [] := ⟨rfl, List.nodup_nil⟩
  have hone := @add_chain Nat ⟨⟨none, fun _ => none⟩, fun _ => 0⟩ [] hnil 1 nofun 20
  have htwo := @add_chain Nat _ [1] hone.1 2 (by decide) 10
  rw [hone.2] at htwo
  exact htwo

theorem selfOrg_agree_twoItems :
    let bytes : Nat → Elem := fun n => [UInt8.ofNat n]
    let second : Query := ⟨fun x => if x = [20] then 0 else 1, .MOVE_FRONT⟩
    ∃ list' as' vec', listSearches true bytes 3 [second] twoItems = some (.ok list') ∧
      vectorSearches true [second] ⟨some [10, 20], 2, 2, 1⟩ = .ok vec' ∧
      Chain list'.links as' ∧ Right vec' (as'.map fun a => bytes (list'.data a)) := by
  intro bytes second
  have hvec : Right ⟨some [10, 20], 2, 2, 1⟩ ([2, 1].map fun a => bytes (twoItems.data a)) := by
    have hsized : Slots.Sized 1 ([2, 1].map fun a => bytes (twoItems.data a)) := by
      intro x hx
      obtain ⟨a, -, rfl⟩ := List.mem_map.mp hx
      rfl
    exact ⟨rfl, Nat.one_pos, rfl, Nat.le_refl 2, rfl, by decide, hsized, by decide⟩
  exact (@selfOrg_agree Nat twoItems [2, 1] 3 true _ bytes twoItems_chain.1 (by decide) hvec).2.2.1
    [second]

/-- **A third method**: the plain search returns the first item, the other one does not. -/
theorem selfOrg_third :
    let compare : Nat → Int := fun n => if n = 10 then 0 else 1
    search compare 3 twoItems = some (some 10) ∧
      searchSelfOrg true compare 3 twoItems none = some .ended ∧
      searchSelfOrg false compare 3 twoItems none = some (.ok (twoItems, none)) :=
  ⟨rfl, rfl, rfl⟩

end ListSelfOrg
