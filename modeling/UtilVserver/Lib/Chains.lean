import Mathlib.Data.List.Nodup
import Mathlib.Logic.Function.Basic

/-!
# Singly linked chains

Items have an address and a link to the next one; the links of all items and the root are the
memory.  A place is where a link is stored, so that a loop can walk over places.

* `Memory`, `Place` — the links, and where one is.
* `Segment` — the items between two links.
* `Chain` — the items from the root to the end, each of them once.
* `walk`, `walkNext` — loops over places: up to the first item with a property, and up to the item
  in front of it.

Principal results: `Chain.walk` and `Chain.walkNext` (where the loops stop), `Chain.unlink` and
`Chain.insert` (what an item taken out or put in makes of the chain).
-/

set_option autoImplicit false

namespace Chains

variable {A : Type}

/-- The root and the link of each item. -/
structure Memory (A : Type) where
  root : Option A
  next : A → Option A

/-- Where a link is stored. -/
inductive Place (A : Type) where
  | root
  | next (a : A)

def Memory.get (m : Memory A) : Place A → Option A
  | .root => m.root
  | .next a => m.next a

def Memory.set [DecidableEq A] (m : Memory A) (place : Place A) (link : Option A) : Memory A :=
  match place with
  | .root => { m with root := link }
  | .next a => { m with next := Function.update m.next a link }

/-- The items that are met from one link up to another. -/
def Segment (next : A → Option A) : Option A → List A → Option A → Prop
  | p, [], q => p = q
  | p, a :: as, q => p = some a ∧ Segment next (next a) as q

/-- The items from the root on. -/
structure Chain (m : Memory A) (as : List A) : Prop where
  segment : Segment m.next m.root as none
  nodup : as.Nodup

/-- The place of the link behind some items. -/
def behind (pre : List A) : Place A :=
  match pre.getLast? with
  | none => .root
  | some a => .next a

/-- The loop over places, up to an item that `stop` holds for or to the end. -/
def walk (stop : A → Bool) (m : Memory A) : Nat → Place A → Option (Place A)
  | 0, _ => none
  | fuel + 1, place =>
    match m.get place with
    | none => some place
    | some a => if stop a then some place else walk stop m fuel (.next a)

/-- The loop over places, up to an item with one behind it that `stop` holds for, or to the last. -/
def walkNext (stop : A → Bool) (m : Memory A) : Nat → Place A → Option (Place A)
  | 0, _ => none
  | fuel + 1, place =>
    match m.get place with
    -- there is no item to look behind
    | none => none
    | some a =>
      match m.next a with
      | none => some place
      | some b => if stop b then some place else walkNext stop m fuel (.next a)

variable {next : A → Option A} {m : Memory A} {as bs pre post : List A} {a b : A}
  {p q : Option A}

/-! ## Segments -/

theorem segment_append : Segment next p (as ++ bs) q ↔
    ∃ link, Segment next p as link ∧ Segment next link bs q := by
  induction as generalizing p with
  | nil => simp [Segment]
  | cons a as ih =>
    simp only [List.cons_append, Segment, ih]
    constructor
    · rintro ⟨hp, link, has, hbs⟩
      exact ⟨link, ⟨hp, has⟩, hbs⟩
    · rintro ⟨link, ⟨hp, has⟩, hbs⟩
      exact ⟨hp, link, has, hbs⟩

@[simp] theorem behind_append (pre : List A) (a : A) : behind (pre ++ [a]) = .next a := by
  rw [behind, List.getLast?_append]
  rfl

/-- A list of items is empty or has a last one. -/
theorem eq_nil_or_snoc (pre : List A) : pre = [] ∨ ∃ pre' c, pre = pre' ++ [c] := by
  rcases List.eq_nil_or_concat pre with h | ⟨pre', c, h⟩
  · exact .inl h
  · exact .inr ⟨pre', c, by rw [h, List.concat_eq_append]⟩

/-- What is behind the items that are met first. -/
theorem get_behind (h : Segment m.next m.root pre q) : m.get (behind pre) = q := by
  rcases eq_nil_or_snoc pre with rfl | ⟨pre, c, rfl⟩
  · exact h
  · obtain ⟨link, -, -, hq⟩ := segment_append.mp h
    rw [behind_append]
    exact hq

theorem Chain.split (h : Chain m (pre ++ post)) :
    Segment m.next m.root pre post.head? ∧ Segment m.next post.head? post none := by
  obtain ⟨link, hpre, hpost⟩ := segment_append.mp h.segment
  have hlink : link = post.head? := by
    cases post with
    | nil => exact hpost
    | cons a post => exact hpost.1
  rw [← hlink]
  exact ⟨hpre, hpost⟩

/-- The link behind the first items. -/
theorem Chain.get (h : Chain m (pre ++ post)) : m.get (behind pre) = post.head? :=
  get_behind h.split.1

/-- The link behind an item. -/
theorem Chain.link (h : Chain m (pre ++ a :: post)) : m.next a = post.head? := by
  rw [List.append_cons] at h
  have hget := h.get
  rwa [behind_append] at hget

/-! ## Loops -/

/-- **The loop stops at the first item** that it looks for. -/
theorem Chain.walk (stop : A → Bool) (h : Chain m (pre ++ post)) {fuel : Nat}
    (hfuel : post.length < fuel) :
    walk stop m fuel (behind pre) = some (behind (pre ++ post.takeWhile fun a => !stop a)) := by
  induction post generalizing pre fuel with
  | nil =>
    obtain ⟨n, rfl⟩ := Nat.exists_eq_succ_of_ne_zero (Nat.ne_of_gt hfuel)
    rw [Chains.walk, h.get]
    simp
  | cons a post ih =>
    obtain ⟨n, rfl⟩ := Nat.exists_eq_succ_of_ne_zero (Nat.ne_of_gt (Nat.zero_lt_of_lt hfuel))
    rw [Chains.walk, h.get]
    simp only [List.head?_cons]
    cases hstop : stop a with
    | true => simp [hstop]
    | false =>
      have hrest := ih (List.append_cons pre a post ▸ h) (Nat.lt_of_succ_lt_succ hfuel)
      rw [behind_append] at hrest
      simp only [Bool.false_eq_true, if_false, hrest]
      rw [List.takeWhile_cons_of_pos (by rw [hstop]; rfl), List.append_assoc, List.singleton_append]

theorem Chain.walk_root (stop : A → Bool) (h : Chain m as) {fuel : Nat} (hfuel : as.length < fuel) :
    Chains.walk stop m fuel .root = some (behind (as.takeWhile fun a => !stop a)) := by
  have hall : Chain m ([] ++ as) := h
  exact hall.walk stop hfuel

/-- **The loop stops in front of the first item** that it looks for, behind the one it starts at. -/
theorem Chain.walkNext (stop : A → Bool) (h : Chain m (pre ++ a :: post)) {fuel : Nat}
    (hfuel : post.length < fuel) :
    walkNext stop m fuel (behind pre) =
      some (behind (pre ++ a :: post.takeWhile fun a => !stop a).dropLast) := by
  induction post generalizing pre a fuel with
  | nil =>
    obtain ⟨n, rfl⟩ := Nat.exists_eq_succ_of_ne_zero (Nat.ne_of_gt hfuel)
    rw [Chains.walkNext, h.get]
    simp only [List.head?_cons, h.link, List.head?_nil]
    rw [List.takeWhile_nil, List.dropLast_concat]
  | cons b post ih =>
    obtain ⟨n, rfl⟩ := Nat.exists_eq_succ_of_ne_zero (Nat.ne_of_gt (Nat.zero_lt_of_lt hfuel))
    rw [Chains.walkNext, h.get]
    simp only [List.head?_cons, h.link]
    cases hstop : stop b with
    | true =>
      rw [List.takeWhile_cons_of_neg (by rw [hstop]; nofun), List.dropLast_concat]
      rfl
    | false =>
      have hrest := ih (List.append_cons pre a (b :: post) ▸ h) (Nat.lt_of_succ_lt_succ hfuel)
      rw [behind_append] at hrest
      simp only [Bool.false_eq_true, if_false, hrest]
      rw [List.takeWhile_cons_of_pos (by rw [hstop]; rfl), List.append_assoc, List.singleton_append]

theorem Chain.walkNext_root (stop : A → Bool) (h : Chain m (a :: post)) {fuel : Nat}
    (hfuel : post.length < fuel) :
    Chains.walkNext stop m fuel .root =
      some (behind (a :: post.takeWhile fun a => !stop a).dropLast) := by
  have hall : Chain m ([] ++ a :: post) := h
  exact hall.walkNext stop hfuel

/-! ## Changes of links -/

variable [DecidableEq A]

/-- The link of an item that is not met does not matter. -/
theorem segment_update (ha : a ∉ as) (link : Option A) :
    Segment (Function.update next a link) p as q ↔ Segment next p as q := by
  induction as generalizing p with
  | nil => exact Iff.rfl
  | cons b as ih =>
    have hne : b ≠ a := fun h => ha (h ▸ List.mem_cons_self)
    simp only [Segment, Function.update_of_ne hne, ih fun h => ha (List.mem_cons_of_mem b h)]

/-- The items up to a place lead to the link that is put there. -/
theorem segment_relink (h : Segment m.next m.root pre q) (hnodup : pre.Nodup) (link : Option A) :
    Segment (m.set (behind pre) link).next (m.set (behind pre) link).root pre link := by
  rcases eq_nil_or_snoc pre with rfl | ⟨pre, c, rfl⟩
  · rfl
  · obtain ⟨mid, hpre, hc, -⟩ := segment_append.mp h
    have hnot : c ∉ pre := by
      rw [List.nodup_append] at hnodup
      exact fun hmem => hnodup.2.2 c hmem c List.mem_cons_self rfl
    rw [behind_append]
    refine segment_append.mpr ⟨mid, (segment_update hnot link).mpr hpre, hc, ?_⟩
    exact Function.update_self c link m.next

/-- Other items are not concerned. -/
theorem segment_set (hdisj : pre.Disjoint as) (link : Option A) :
    Segment (m.set (behind pre) link).next p as q ↔ Segment m.next p as q := by
  rcases eq_nil_or_snoc pre with rfl | ⟨pre, c, rfl⟩
  · exact Iff.rfl
  · rw [behind_append]
    exact segment_update (fun hmem => hdisj (by simp) hmem) link

/-- **An item is taken out.** -/
theorem Chain.unlink (h : Chain m (pre ++ a :: post)) :
    Chain (m.set (behind pre) (m.next a)) (pre ++ post) ∧ a ∉ pre ++ post := by
  have hnodup := h.nodup
  rw [List.nodup_middle, List.nodup_cons] at hnodup
  obtain ⟨hnot, hnodup⟩ := hnodup
  obtain ⟨hpre, -, hpost⟩ := h.split
  rw [h.link] at hpost
  refine ⟨⟨segment_append.mpr ⟨post.head?, ?_, ?_⟩, hnodup⟩, hnot⟩
  · rw [h.link]
    exact segment_relink hpre hnodup.of_append_left _
  · exact (segment_set (List.disjoint_of_nodup_append hnodup) _).mpr hpost

/-- **An item is put in.** -/
theorem Chain.insert (h : Chain m (pre ++ post)) (ha : a ∉ pre ++ post) :
    Chain ((m.set (.next a) (m.get (behind pre))).set (behind pre) (some a))
      (pre ++ a :: post) := by
  have hnodup : (pre ++ a :: post).Nodup := by
    rw [List.nodup_middle, List.nodup_cons]
    exact ⟨ha, h.nodup⟩
  obtain ⟨hpre, hpost⟩ := h.split
  rw [List.mem_append, not_or] at ha
  have hpre' : Segment (m.set (.next a) (m.get (behind pre))).next
      (m.set (.next a) (m.get (behind pre))).root pre post.head? := (segment_update ha.1 _).mpr hpre
  refine ⟨segment_append.mpr ⟨some a, segment_relink hpre' h.nodup.of_append_left _, ?_⟩, hnodup⟩
  rw [segment_set (List.disjoint_of_nodup_append hnodup), h.get]
  refine ⟨rfl, (segment_update ha.2 _).mpr ?_⟩
  show Segment m.next (Function.update m.next a post.head? a) post none
  rwa [Function.update_self]

theorem Chain.insert_root (h : Chain m as) (ha : a ∉ as) :
    Chain ((m.set (.next a) m.root).set .root (some a)) (a :: as) := by
  have hall : Chain m ([] ++ as) := h
  exact hall.insert ha

end Chains
