import Mathlib.Data.List.TakeWhile
import UtilVserver.Lib.BinarySearch

/-!
# Vectors (`src/ensc_vector`)

The elements of a vector are the list of its used slots.  A comparison function has its key
applied: `compare x` is `compare(key, x)` (`compare(x, key)` in `Vector_searchSelfOrg`).

* `pushback` — the new slot holds what the memory behind the last element holds (`fresh`).
* `insert` — the first element the key stands before is doubled by the `memmove`: its slot is
  returned, still with the old content, and everything behind moves by one.
* `search` — `bsearch` over the used slots.
* `searchSelfOrg` — linear search; what is found moves to the front or one slot up.

Principal results: `insert_spec` and `insert_between` (where the slot lies and what it holds),
`searchSelfOrg_find?` / `searchSelfOrg_perm` (the element found is the first that compares
equal, the elements stay the same).
-/

set_option autoImplicit false

namespace EnscVector

open BinarySearch

variable {α : Type} {β : Type}

/-- `Vector_pushback`, with the index of the new slot. -/
def pushback (fresh : α) (vec : List α) : List α × Nat := (vec ++ [fresh], vec.length)

/-- `Vector_insert`, with the index of the slot it returns. -/
def insert (compare : α → Int) (fresh : α) : List α → List α × Nat
  | [] => ([fresh], 0)
  | data :: rest =>
    if compare data < 0 then (data :: data :: rest, 0)
    else
      let r := insert compare fresh rest
      (data :: r.1, r.2 + 1)

/-- `Vector_search`. -/
def search (compare : α → Int) (vec : List α) : Option Nat := bsearch compare vec

inductive SelfOrgMethod where
  | MOVE_FRONT
  | SHIFT_ONCE
  deriving DecidableEq, Repr

/-- The elements with the one found at its new place. -/
def moved (method : SelfOrgMethod) (before : List α) (ptr : α) (behind : List α) : List α :=
  match method with
  | .MOVE_FRONT => ptr :: (before ++ behind)
  | .SHIFT_ONCE => before.dropLast ++ ptr :: (before.getLast?.toList ++ behind)

/-- `Vector_searchSelfOrg`: the element found and the reordered vector. -/
def searchSelfOrg (compare : α → Int) (vec : List α) (method : SelfOrgMethod) :
    Option α × List α :=
  let before := vec.takeWhile (fun x => compare x != 0)
  match vec.dropWhile (fun x => compare x != 0) with
  | [] => (none, vec)
  | ptr :: behind => (some ptr, moved method before ptr behind)

/-! ## Insertion -/

/-- **Where the slot lies and what it holds**: behind elements the key does not stand before,
in front of one it does; the slot holds what was there, or fresh memory at the end. -/
theorem insert_spec (compare : α → Int) (fresh : α) (vec : List α) :
    ∃ pre post, vec = pre ++ post ∧
      insert compare fresh vec = (pre ++ post.headD fresh :: post, pre.length) ∧
      (∀ x ∈ pre, 0 ≤ compare x) ∧ (∀ x ∈ post.head?, compare x < 0) := by
  induction vec with
  | nil => exact ⟨[], [], rfl, rfl, by simp, by simp⟩
  | cons data rest ih =>
    by_cases hc : compare data < 0
    · exact ⟨[], data :: rest, rfl, by simp [insert, hc], by simp, by simpa using hc⟩
    · obtain ⟨pre, post, hvec, hins, hpre, hpost⟩ := ih
      refine ⟨data :: pre, post, by simp [hvec], by simp [insert, hc, hins], ?_, hpost⟩
      intro x hx
      rcases List.mem_cons.mp hx with rfl | hx
      · omega
      · exact hpre x hx

/-- The slot an insertion or a search returned, written by the caller. -/
theorem modify_append (pre post : List α) (x : α) (f : α → α) :
    (pre ++ x :: post).modify pre.length f = pre ++ f x :: post := by
  induction pre with
  | nil => rfl
  | cons y pre ih => simp [ih]

section Sorted

variable [LinearOrder β] {keyOf : α → β} {k : β} {compare : α → Int}

/-- **In a sorted vector the slot of a new key lies where the key belongs.** -/
theorem insert_between {pre post : List α}
    (hs : (pre ++ post).Pairwise (fun a b => keyOf a < keyOf b))
    (ha : Agrees compare keyOf k (pre ++ post)) (hnew : ∀ y ∈ pre ++ post, keyOf y ≠ k)
    (hpre : ∀ y ∈ pre, 0 ≤ compare y) (hpost : ∀ y ∈ post.head?, compare y < 0) :
    (∀ y ∈ pre, keyOf y < k) ∧ ∀ y ∈ post, k < keyOf y := by
  constructor
  · intro y hy
    have hmem : y ∈ pre ++ post := List.mem_append_left _ hy
    have hnlt : ¬ k < keyOf y := fun hlt => by
      have h0 := hpre y hy
      have h1 := (ha y hmem).1.mpr hlt
      omega
    exact lt_of_le_of_ne (not_lt.mp hnlt) (hnew y hmem)
  · cases post with
    | nil => simp
    | cons z post =>
      have hz : k < keyOf z := (ha z (by simp)).1.mp (hpost z (by simp))
      intro y hy
      rcases List.mem_cons.mp hy with rfl | hy
      · exact hz
      · have hpw := (List.pairwise_append.mp hs).2.1
        exact hz.trans ((List.pairwise_cons.mp hpw).1 y hy)

/-- A key in its place keeps the vector sorted. -/
theorem sorted_put {pre post : List α} {x : α}
    (hs : (pre ++ post).Pairwise (fun a b => keyOf a < keyOf b))
    (hbelow : ∀ y ∈ pre, keyOf y < keyOf x) (habove : ∀ y ∈ post, keyOf x < keyOf y) :
    (pre ++ x :: post).Pairwise (fun a b => keyOf a < keyOf b) := by
  obtain ⟨h1, h2, h12⟩ := List.pairwise_append.mp hs
  refine List.pairwise_append.mpr ⟨h1, List.pairwise_cons.mpr ⟨habove, h2⟩, ?_⟩
  intro y hy z hz
  rcases List.mem_cons.mp hz with rfl | hz
  · exact hbelow y hy
  · exact h12 y hy z hz

end Sorted

/-! ## Self-organising search -/

/-- What a search does: nothing when no element compares equal, else the first one that does
is returned and moved. -/
theorem searchSelfOrg_cases (compare : α → Int) (vec : List α) (method : SelfOrgMethod) :
    ((∀ x ∈ vec, compare x ≠ 0) ∧ searchSelfOrg compare vec method = (none, vec)) ∨
    ∃ before ptr behind, vec = before ++ ptr :: behind ∧ (∀ x ∈ before, compare x ≠ 0) ∧
      compare ptr = 0 ∧
      searchSelfOrg compare vec method = (some ptr, moved method before ptr behind) := by
  have hsplit := List.takeWhile_append_dropWhile (p := fun x => compare x != 0) (l := vec)
  have hbefore : ∀ x ∈ vec.takeWhile (fun x => compare x != 0), compare x ≠ 0 := by
    intro x hx
    simpa using List.mem_takeWhile_imp hx
  cases hd : vec.dropWhile (fun x => compare x != 0) with
  | nil =>
    left
    rw [hd, List.append_nil] at hsplit
    refine ⟨fun x hx => hbefore x (by rw [hsplit]; exact hx), ?_⟩
    simp only [searchSelfOrg, hd]
  | cons ptr behind =>
    right
    rw [hd] at hsplit
    have hptr : compare ptr = 0 := by
      have := List.head_dropWhile_not (fun x => compare x != 0) (l := vec) (by simp [hd])
      simpa [hd] using this
    refine ⟨_, ptr, behind, hsplit.symm, hbefore, hptr, ?_⟩
    simp only [searchSelfOrg, hd]

/-- **The first element that compares equal is found.** -/
theorem searchSelfOrg_find? (compare : α → Int) (vec : List α) (method : SelfOrgMethod) :
    (searchSelfOrg compare vec method).1 = vec.find? (fun x => compare x == 0) := by
  rcases searchSelfOrg_cases compare vec method with ⟨hnone, h⟩ | ⟨before, ptr, behind, hvec,
    hbefore, hptr, h⟩
  · rw [h, eq_comm, List.find?_eq_none]
    intro x hx
    simpa using hnone x hx
  · rw [h, hvec, List.find?_append, List.find?_eq_none.mpr (by simpa using hbefore)]
    simp [hptr]

theorem dropLast_append_getLast? (xs : List α) : xs.dropLast ++ xs.getLast?.toList = xs := by
  cases h : xs.getLast? with
  | none => simp [List.getLast?_eq_none_iff.mp h]
  | some a => exact List.dropLast_append_getLast? a h

/-- **No search gains or loses an element.** -/
theorem searchSelfOrg_perm (compare : α → Int) (vec : List α) (method : SelfOrgMethod) :
    (searchSelfOrg compare vec method).2.Perm vec := by
  rcases searchSelfOrg_cases compare vec method with ⟨-, h⟩ | ⟨before, ptr, behind, hvec, -, -, h⟩
  · rw [h]
  rw [h, hvec]
  cases method with
  | MOVE_FRONT => exact List.perm_middle.symm
  | SHIFT_ONCE =>
    calc before.dropLast ++ ptr :: (before.getLast?.toList ++ behind)
        |>.Perm (ptr :: (before.dropLast ++ (before.getLast?.toList ++ behind))) :=
          List.perm_middle
      _ = ptr :: (before ++ behind) := by
          rw [← List.append_assoc, dropLast_append_getLast?]
      _ |>.Perm (before ++ ptr :: behind) := List.perm_middle.symm

/-- **Elements that compare alike keep their order**: what is found passes only elements that
do not compare equal. -/
theorem searchSelfOrg_filter {compare : α → Int} {p : α → Bool}
    (hp : ∀ x y, p x → p y → compare x = 0 → compare y = 0) (vec : List α)
    (method : SelfOrgMethod) :
    (searchSelfOrg compare vec method).2.filter p = vec.filter p := by
  rcases searchSelfOrg_cases compare vec method with ⟨-, h⟩ | ⟨before, ptr, behind, hvec,
    hbefore, hptr, h⟩
  · rw [h]
  · have hpass : p ptr = true → before.filter p = [] := by
      intro hpp
      rw [List.filter_eq_nil_iff]
      exact fun x hx hpx => hbefore x hx (hp ptr x hpp hpx hptr)
    have hboth : (ptr :: (before ++ behind)).filter p = (before ++ ptr :: behind).filter p := by
      cases hpp : p ptr with
      | true => simp [hpp, hpass hpp]
      | false => simp [hpp]
    rw [h, hvec, ← hboth]
    cases method with
    | MOVE_FRONT => rfl
    | SHIFT_ONCE =>
      have hlast : p ptr = true → before.dropLast.filter p = [] := fun hpp =>
        List.filter_eq_nil_iff.mpr fun x hx =>
          List.filter_eq_nil_iff.mp (hpass hpp) x (List.dropLast_subset _ hx)
      calc (before.dropLast ++ ptr :: (before.getLast?.toList ++ behind)).filter p
          = (ptr :: (before.dropLast ++ (before.getLast?.toList ++ behind))).filter p := by
            cases hpp : p ptr with
            | true => simp [hpp, hlast hpp]
            | false => simp [hpp]
        _ = (ptr :: (before ++ behind)).filter p := by
            rw [← List.append_assoc, dropLast_append_getLast?]

end EnscVector
