import Mathlib.Order.Lattice
import Mathlib.Data.List.Basic

/-!
# Binary search with a comparison function

`bsearch` of the C library, over a list and a comparison `compare` that has the searched key
already applied: negative, zero or positive as the key stands before, at or behind an element.

* `bsearchLoop` / `bsearch` — the loop over the window `[l, u)`.
* `Agrees` — the comparison answers on the list as the order of the keys does.

Principal results: `bsearch_some` (what is found carries the key), `bsearch_none` (in a list that
is sorted by its keys nothing is missed) and `narrowDiff_zero` (when the difference of two keys,
cut down to fewer bits, is zero).
-/

set_option autoImplicit false

namespace BinarySearch

variable {α : Type} {β : Type} [LinearOrder β]

/-- The loop over the window `[l, u)`; `fuel` bounds its length. -/
def bsearchLoop (compare : α → Int) (xs : List α) : Nat → Nat → Nat → Option Nat
  | 0, _, _ => none
  | fuel + 1, l, u =>
    if l < u then
      let idx := (l + u) / 2
      match xs[idx]? with
      | none => none
      | some x =>
        if compare x < 0 then bsearchLoop compare xs fuel l idx
        else if 0 < compare x then bsearchLoop compare xs fuel (idx + 1) u
        else some idx
    else none

/-- The index of an element that compares equal, none when the search ends without one. -/
def bsearch (compare : α → Int) (xs : List α) : Option Nat :=
  bsearchLoop compare xs xs.length 0 xs.length

/-- On `xs` the comparison answers as the order of the keys does for `k`. -/
def Agrees (compare : α → Int) (keyOf : α → β) (k : β) (xs : List α) : Prop :=
  ∀ x ∈ xs, (compare x < 0 ↔ k < keyOf x) ∧ (0 < compare x ↔ keyOf x < k)

theorem Agrees.mono {compare : α → Int} {keyOf : α → β} {k : β} {xs ys : List α}
    (h : Agrees compare keyOf k xs) (hsub : ∀ x ∈ ys, x ∈ xs) : Agrees compare keyOf k ys :=
  fun x hx => h x (hsub x hx)

theorem bsearchLoop_some {compare : α → Int} {xs : List α} {fuel l u i : Nat}
    (h : bsearchLoop compare xs fuel l u = some i) : ∃ x, xs[i]? = some x ∧ compare x = 0 := by
  induction fuel generalizing l u with
  | zero => simp [bsearchLoop] at h
  | succ fuel ih =>
    simp only [bsearchLoop] at h
    split at h
    · split at h
      · cases h
      · rename_i x hx
        split at h
        · exact ih h
        · split at h
          · exact ih h
          · cases h
            exact ⟨x, hx, by omega⟩
    · cases h

/-- **What the search finds compares equal to the key.** -/
theorem bsearch_some {compare : α → Int} {xs : List α} {i : Nat}
    (h : bsearch compare xs = some i) : ∃ x, xs[i]? = some x ∧ compare x = 0 :=
  bsearchLoop_some h

theorem keyOf_mono {keyOf : α → β} {xs : List α}
    (hs : xs.Pairwise (fun a b => keyOf a < keyOf b)) {i j : Nat} (hj : j < xs.length)
    (hij : i ≤ j) : keyOf (xs.get ⟨i, by omega⟩) ≤ keyOf xs[j] := by
  rcases Nat.lt_or_eq_of_le hij with hlt | rfl
  · exact (List.pairwise_iff_getElem.mp hs _ _ (by omega) hj hlt).le
  · exact le_rfl

/-- An element of the window is not missed: the half that is dropped does not hold it. -/
theorem bsearchLoop_none {compare : α → Int} {keyOf : α → β} {k : β} {xs : List α}
    (hs : xs.Pairwise (fun a b => keyOf a < keyOf b)) (ha : Agrees compare keyOf k xs)
    {fuel l u : Nat} (hfuel : u - l ≤ fuel) (hu : u ≤ xs.length)
    (h : bsearchLoop compare xs fuel l u = none) (i : Nat) (hi : i < xs.length) (hl : l ≤ i)
    (hiu : i < u) : keyOf xs[i] ≠ k := by
  induction fuel generalizing l u with
  | zero => omega
  | succ fuel ih =>
    intro hk
    simp only [bsearchLoop, if_pos (show l < u by omega)] at h
    have hidx : (l + u) / 2 < xs.length := by omega
    rw [List.getElem?_eq_getElem hidx] at h
    simp only at h
    obtain ⟨hlt, hgt⟩ := ha _ (List.getElem_mem hidx)
    split at h
    · rename_i hc
      have hbelow : i < (l + u) / 2 := by
        by_contra hge
        have hle := keyOf_mono hs hi (Nat.not_lt.mp hge)
        exact absurd (hlt.mp hc) (not_lt.mpr (hk ▸ hle))
      exact ih (by omega) (by omega) h hl hbelow hk
    · split at h
      · rename_i hc
        have habove : (l + u) / 2 < i := by
          by_contra hge
          have hle := keyOf_mono hs hidx (Nat.not_lt.mp hge)
          exact absurd (hgt.mp hc) (not_lt.mpr (hk ▸ hle))
        exact ih (by omega) hu h (by omega) hiu hk
      · cases h

/-- **In a list sorted by its keys the search misses nothing.** -/
theorem bsearch_none {compare : α → Int} {keyOf : α → β} {k : β} {xs : List α}
    (hs : xs.Pairwise (fun a b => keyOf a < keyOf b)) (ha : Agrees compare keyOf k xs)
    (h : bsearch compare xs = none) : ∀ x ∈ xs, keyOf x ≠ k := by
  intro x hx
  obtain ⟨i, hi, rfl⟩ := List.getElem_of_mem hx
  exact bsearchLoop_none hs ha (by omega) (Nat.le_refl _) h i hi (Nat.zero_le _) hi

/-- A difference that is cut down to `v` bits is zero for keys with the same lower bits. -/
theorem narrowDiff_zero {v w : Nat} (hv : v ≤ w) (x y : BitVec w) :
    ((x - y).setWidth v).toInt = 0 ↔ x.setWidth v = y.setWidth v := by
  have hsub : (x - y).setWidth v = x.setWidth v - y.setWidth v := by
    rw [BitVec.sub_eq_add_neg, BitVec.setWidth_add _ _ hv, BitVec.setWidth_neg_of_le hv,
      ← BitVec.sub_eq_add_neg]
  have hzero : (0#v).toInt = 0 := BitVec.toInt_zero
  rw [hsub, ← hzero, BitVec.toInt_inj, BitVec.sub_eq_iff_eq_add, BitVec.zero_add]

end BinarySearch
