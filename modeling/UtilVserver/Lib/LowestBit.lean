import Mathlib.Data.Nat.Find
import Mathlib.Data.List.Basic

/-!
# The lowest set bit of a word

* `lowest` — its number, and the width when no bit is set.
* `clearBelow` — a word without the bits below a number.

Principal results: `clear_lt` (clearing a set bit makes a word smaller) and `exists_unique_cleared`
(in a descending chain of words that ends at 0 each bit is cleared exactly once).
-/

set_option autoImplicit false

namespace LowestBit

variable {w : Nat}

/-- The number of the lowest set bit. -/
def lowest (val : BitVec w) : Nat := (List.range w).findIdx fun i => val.getLsbD i

/-- The bits from `b` on. -/
def clearBelow (val : BitVec w) (b : Nat) : BitVec w := (val >>> b) <<< b

theorem lowest_le (val : BitVec w) : lowest val ≤ w := by
  have h : lowest val ≤ (List.range w).length := List.findIdx_le_length
  rwa [List.length_range] at h

theorem getLsbD_lowest {val : BitVec w} (h : lowest val < w) :
    val.getLsbD (lowest val) = true := by
  have hlt : (List.range w).findIdx (fun i => val.getLsbD i) < (List.range w).length := by
    rw [List.length_range]
    exact h
  have hget := List.findIdx_getElem (w := hlt)
  rwa [List.getElem_range] at hget

theorem getLsbD_of_lt_lowest {val : BitVec w} {b : Nat} (h : b < lowest val) :
    val.getLsbD b = false := by
  have hb : b < w := Nat.lt_of_lt_of_le h (lowest_le val)
  have hlt : b < (List.range w).findIdx (fun i => val.getLsbD i) := h
  have hnot := List.not_of_lt_findIdx hlt
  rw [List.getElem_range] at hnot
  exact hnot

theorem lowest_lt {val : BitVec w} (h : val ≠ 0#w) : lowest val < w := by
  by_contra hge
  apply h
  apply BitVec.eq_of_getLsbD_eq
  intro b hb
  rw [BitVec.getLsbD_zero]
  exact getLsbD_of_lt_lowest (by omega)

theorem lowest_le_of_getLsbD {val : BitVec w} {b : Nat} (h : val.getLsbD b = true) :
    lowest val ≤ b := by
  by_contra hlt
  rw [getLsbD_of_lt_lowest (by omega)] at h
  cases h

/-- The word with one bit. -/
theorem getLsbD_one_shiftLeft {k : Nat} (hk : k < w) (b : Nat) :
    (1#w <<< k).getLsbD b = decide (b = k) := by
  by_cases hb : b < w
  · simp only [BitVec.getLsbD_shiftLeft, hb, BitVec.getLsbD_one]
    by_cases hlt : b < k
    · have hne : b ≠ k := by omega
      simp [hlt, hne]
    · by_cases he : b = k
      · have hpos : 0 < w := by omega
        simp [he, hpos]
      · have hsub : b - k ≠ 0 := by omega
        simp [he, hsub, hlt]
  · have hne : b ≠ k := by omega
    rw [BitVec.getLsbD_of_ge _ b (by omega), decide_eq_false hne]

theorem getLsbD_clear (val m : BitVec w) (b : Nat) :
    (val &&& ~~~m).getLsbD b = (val.getLsbD b && !m.getLsbD b) := by
  by_cases hb : b < w
  · simp [hb]
  · simp [BitVec.getLsbD_of_ge val b (by omega)]

/-- Clearing bits of which one is set makes the value smaller. -/
theorem clear_lt {val m : BitVec w} {b : Nat} (hv : val.getLsbD b = true)
    (hm : m.getLsbD b = true) : val &&& ~~~m < val := by
  rw [BitVec.lt_def]
  refine Nat.lt_of_le_of_ne ?_ fun heq => ?_
  · rw [BitVec.toNat_and]
    exact Nat.and_le_left
  · have hb := congrArg (fun x => x.getLsbD b) (BitVec.eq_of_toNat_eq heq)
    simp only [getLsbD_clear, hv, hm] at hb
    simp at hb

theorem getLsbD_clearBelow (val : BitVec w) (b i : Nat) :
    (clearBelow val b).getLsbD i = (decide (b ≤ i) && val.getLsbD i) := by
  unfold clearBelow
  rw [BitVec.getLsbD_shiftLeft, BitVec.getLsbD_ushiftRight]
  by_cases hi : i < w
  · by_cases hb : b ≤ i
    · have hlt : ¬ i < b := by omega
      have hadd : b + (i - b) = i := by omega
      simp [hi, hb, hlt, hadd]
    · have hlt : i < b := by omega
      simp [hb, hlt]
  · simp [hi, BitVec.getLsbD_of_ge val i (by omega)]

/-- A word is what it has from its lowest bit on. -/
theorem clearBelow_lowest (val : BitVec w) : clearBelow val (lowest val) = val := by
  apply BitVec.eq_of_getLsbD_eq
  intro i hi
  rw [getLsbD_clearBelow]
  by_cases hlow : lowest val ≤ i
  · simp [hlow]
  · simp [hlow, getLsbD_of_lt_lowest (by omega : i < lowest val)]

/-- Above the lowest bit nothing changes when it is cleared. -/
theorem clearBelow_clear {val m : BitVec w} {b : Nat} (hm : ∀ i, m.getLsbD i = true → i < b) :
    clearBelow (val &&& ~~~m) b = clearBelow val b := by
  apply BitVec.eq_of_getLsbD_eq
  intro i hi
  rw [getLsbD_clearBelow, getLsbD_clearBelow, getLsbD_clear]
  by_cases hb : b ≤ i
  · cases hmi : m.getLsbD i with
    | true => exact absurd (hm i hmi) (by omega)
    | false => simp
  · simp [hb]

/-- **In a descending chain of words that comes to 0 each bit is cleared exactly once.** -/
theorem exists_unique_cleared {vals : Nat → BitVec w} {k b : Nat}
    (hdesc : ∀ n i, (vals (n + 1)).getLsbD i = true → (vals n).getLsbD i = true)
    (hzero : vals k = 0#w) (hb : (vals 0).getLsbD b = true) :
    ∃! n, (vals n).getLsbD b = true ∧ (vals (n + 1)).getLsbD b = false := by
  have hmono : ∀ d n, (vals (n + d)).getLsbD b = true → (vals n).getLsbD b = true := by
    intro d
    induction d with
    | zero => exact fun n h => h
    | succ d ih => exact fun n h => ih n (hdesc _ _ h)
  have hex : ∃ n, (vals n).getLsbD b = false := ⟨k, by rw [hzero, BitVec.getLsbD_zero]⟩
  obtain ⟨n, hn⟩ : ∃ n, Nat.find hex = n + 1 := by
    refine Nat.exists_eq_succ_of_ne_zero fun h0 => ?_
    have := Nat.find_spec hex
    rw [h0, hb] at this
    cases this
  refine ⟨n, ⟨?_, ?_⟩, ?_⟩
  · have := Nat.find_min hex (by omega : n < Nat.find hex)
    rwa [Bool.not_eq_false] at this
  · rw [← hn]
    exact Nat.find_spec hex
  · rintro m ⟨hset, hclear⟩
    have hle : Nat.find hex ≤ m + 1 := Nat.find_le hclear
    have hge : ¬ n + 1 ≤ m := by
      intro hlt
      have := hmono (m - (n + 1)) (n + 1) (by rwa [show n + 1 + (m - (n + 1)) = m by omega])
      rw [← hn, Nat.find_spec hex] at this
      cases this
    omega

end LowestBit
