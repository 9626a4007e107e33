import Mathlib.Logic.Function.Basic
import Mathlib.Order.Lattice

/-!
# Hash sets with sorted chains

* `insertChain` — an insertion into a sorted chain, which fails when the element is there.
* `insert` — the same for a table of chains.
* `Chains` — the invariant: every chain is strictly sorted, so without duplicates, and its elements
  belong to it.

Principal results: `insert_none_iff` and `insert_some`.
-/

set_option autoImplicit false

namespace HashChains

variable {α ι : Type} [LinearOrder α]

def insertChain (x : α) : List α → Option (List α)
  | [] => some [x]
  | e :: es =>
    if e = x then none
    else if x < e then some (x :: e :: es)
    else (insertChain x es).map (e :: ·)

/-- The chains, by the value of the hash function. -/
abbrev Table (α ι : Type) := ι → List α

def empty : Table α ι := fun _ => []

/-- The new table; none when the element is there. -/
def insert [DecidableEq ι] (hash : α → ι) (t : Table α ι) (x : α) : Option (Table α ι) :=
  (insertChain x (t (hash x))).map (Function.update t (hash x))

structure Chains (hash : α → ι) (t : Table α ι) : Prop where
  sorted : ∀ i, (t i).Pairwise (· < ·)
  home : ∀ i, ∀ x ∈ t i, hash x = i

theorem empty_chains (hash : α → ι) : Chains hash (empty : Table α ι) :=
  ⟨fun _ => List.Pairwise.nil, fun _ _ h => by cases h⟩

/-- The element is in the set. -/
def Has (hash : α → ι) (t : Table α ι) (x : α) : Prop := x ∈ t (hash x)

/-! ## One chain -/

/-- An element is found only when it is there, and in a sorted chain always. -/
theorem insertChain_none_iff {x : α} {l : List α} (h : l.Pairwise (· < ·)) :
    insertChain x l = none ↔ x ∈ l := by
  induction l with
  | nil => simp [insertChain]
  | cons e es ih =>
    obtain ⟨hhead, htail⟩ := List.pairwise_cons.1 h
    unfold insertChain
    by_cases he : e = x
    · simp [he]
    · by_cases hlt : x < e
      · have hmem : x ∉ es := fun hx => lt_asymm hlt (hhead x hx)
        simp [he, Ne.symm he, hlt, hmem]
      · simp [he, Ne.symm he, hlt, ih htail]

theorem mem_insertChain {x : α} {l l' : List α} (h : insertChain x l = some l') (y : α) :
    y ∈ l' ↔ y = x ∨ y ∈ l := by
  induction l generalizing l' with
  | nil =>
    cases h
    simp
  | cons e es ih =>
    unfold insertChain at h
    split at h
    · cases h
    · split at h
      · cases h
        exact List.mem_cons
      · obtain ⟨es', hes, rfl⟩ := Option.map_eq_some_iff.1 h
        rw [List.mem_cons, List.mem_cons, ih hes, or_left_comm]

theorem insertChain_sorted {x : α} {l l' : List α} (hl : l.Pairwise (· < ·))
    (h : insertChain x l = some l') : l'.Pairwise (· < ·) := by
  induction l generalizing l' with
  | nil =>
    cases h
    exact List.pairwise_singleton _ _
  | cons e es ih =>
    obtain ⟨hhead, htail⟩ := List.pairwise_cons.1 hl
    unfold insertChain at h
    split at h
    · cases h
    · rename_i hne
      split at h
      · rename_i hlt
        cases h
        refine List.pairwise_cons.2 ⟨fun y hy => ?_, hl⟩
        rcases List.mem_cons.1 hy with rfl | hy
        · exact hlt
        · exact lt_trans hlt (hhead y hy)
      · rename_i hle
        obtain ⟨es', hes, rfl⟩ := Option.map_eq_some_iff.1 h
        refine List.pairwise_cons.2 ⟨fun y hy => ?_, ih htail hes⟩
        rcases (mem_insertChain hes y).1 hy with rfl | hy
        · exact lt_of_le_of_ne (not_lt.1 hle) hne
        · exact hhead y hy

/-! ## The table -/

variable [DecidableEq ι] {hash : α → ι} {t t' : Table α ι} {x : α}

theorem insert_none_iff (h : Chains hash t) : insert hash t x = none ↔ Has hash t x := by
  rw [insert, Option.map_eq_none_iff, insertChain_none_iff (h.sorted _)]
  rfl

theorem insert_some (h : Chains hash t) (hins : insert hash t x = some t') :
    Chains hash t' ∧ ∀ y, Has hash t' y ↔ y = x ∨ Has hash t y := by
  obtain ⟨l, hl, rfl⟩ := Option.map_eq_some_iff.1 hins
  refine ⟨⟨fun i => ?_, fun i y hy => ?_⟩, fun y => ?_⟩
  · by_cases hi : i = hash x
    · rw [hi, Function.update_self]
      exact insertChain_sorted (h.sorted _) hl
    · rw [Function.update_of_ne hi]
      exact h.sorted i
  · by_cases hi : i = hash x
    · rw [hi, Function.update_self] at hy
      rcases (mem_insertChain hl y).1 hy with rfl | hy
      · exact hi.symm
      · exact (h.home _ y hy).trans hi.symm
    · rw [Function.update_of_ne hi] at hy
      exact h.home i y hy
  · unfold Has
    by_cases hy : hash y = hash x
    · rw [hy, Function.update_self, mem_insertChain hl]
    · rw [Function.update_of_ne hy]
      have hne : y ≠ x := fun he => hy (he ▸ rfl)
      simp [hne]

end HashChains
