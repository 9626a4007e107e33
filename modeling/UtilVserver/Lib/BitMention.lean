import Mathlib.Data.List.Basic
import Mathlib.Data.List.Induction

/-!
# Signed mentions of bits

An update of a flag word with its mask is a list of *mentions*: each one sets the bits it
mentions, or clears them when it is negated, and marks them in the mask.  This file says what
such a list does to the two words, bit by bit.

* `foldFlag`, `foldMask` — the left fold of a list of mentions over the start values.
* `lastSign` — the sign of the last mention of a bit.

Principal results: `foldFlag_bit`, `foldMask_bit` (the last mention of a bit decides it, bits
that are not mentioned keep their value) and `sameEffect_iff` (two lists have the same effect
on all start values exactly when every bit has the same last sign in both).
-/

set_option autoImplicit false

namespace BitMention

/-- One update: the mentioned bits and whether they are cleared. -/
structure Mention (w : Nat) where
  neg : Bool
  bits : BitVec w
  deriving DecidableEq, Repr

variable {w : Nat}

def Mention.apply (m : Mention w) (flag : BitVec w) : BitVec w :=
  if m.neg then flag &&& ~~~m.bits else flag ||| m.bits

/-- The flag word after a list of mentions. -/
def foldFlag (ms : List (Mention w)) (flag : BitVec w) : BitVec w :=
  ms.foldl (fun f m => m.apply f) flag

/-- The mask after a list of mentions. -/
def foldMask (ms : List (Mention w)) (mask : BitVec w) : BitVec w :=
  ms.foldl (fun k m => k ||| m.bits) mask

/-- The sign of the last mention of bit `b`, none when it is not mentioned. -/
def lastSign (ms : List (Mention w)) (b : Nat) : Option Bool :=
  ms.foldl (fun acc m => if m.bits.getLsbD b then some m.neg else acc) none

@[simp] theorem foldFlag_nil (flag : BitVec w) : foldFlag [] flag = flag := rfl
@[simp] theorem foldMask_nil : foldMask ([] : List (Mention w)) = id := rfl
@[simp] theorem lastSign_nil (b : Nat) : lastSign ([] : List (Mention w)) b = none := rfl

@[simp] theorem foldFlag_cons (m : Mention w) (ms : List (Mention w)) (flag : BitVec w) :
    foldFlag (m :: ms) flag = foldFlag ms (m.apply flag) := rfl

@[simp] theorem foldMask_cons (m : Mention w) (ms : List (Mention w)) (mask : BitVec w) :
    foldMask (m :: ms) mask = foldMask ms (mask ||| m.bits) := rfl

theorem foldFlag_append (ms ms' : List (Mention w)) (flag : BitVec w) :
    foldFlag (ms ++ ms') flag = foldFlag ms' (foldFlag ms flag) := by
  simp [foldFlag]

theorem foldMask_append (ms ms' : List (Mention w)) (mask : BitVec w) :
    foldMask (ms ++ ms') mask = foldMask ms' (foldMask ms mask) := by
  simp [foldMask]

theorem lastSign_concat (ms : List (Mention w)) (m : Mention w) (b : Nat) :
    lastSign (ms ++ [m]) b = if m.bits.getLsbD b then some m.neg else lastSign ms b := by
  simp [lastSign]

theorem Mention.apply_bit (m : Mention w) (flag : BitVec w) (b : Nat) :
    (m.apply flag).getLsbD b = if m.bits.getLsbD b then !m.neg else flag.getLsbD b := by
  unfold Mention.apply
  cases m.neg with
  | false =>
    simp only [Bool.false_eq_true, if_false, BitVec.getLsbD_or]
    cases m.bits.getLsbD b <;> simp
  | true =>
    simp only [if_true, BitVec.getLsbD_and, BitVec.getLsbD_not]
    cases hm : m.bits.getLsbD b with
    | true => simp
    | false =>
      by_cases hb : b < w
      · simp [hb]
      · simp [BitVec.getLsbD_of_ge flag b (by omega)]

/-- **The last mention of a bit decides its value**; a bit without mention keeps it. -/
theorem foldFlag_bit (ms : List (Mention w)) (flag : BitVec w) (b : Nat) :
    (foldFlag ms flag).getLsbD b =
      match lastSign ms b with
      | some neg => !neg
      | none => flag.getLsbD b := by
  induction ms using List.reverseRecOn with
  | nil => rfl
  | append_singleton ms m ih =>
    rw [foldFlag_append, foldFlag_cons, foldFlag_nil, Mention.apply_bit, lastSign_concat, ih]
    cases m.bits.getLsbD b <;> simp

/-- **The mask gains exactly the mentioned bits.** -/
theorem foldMask_bit (ms : List (Mention w)) (mask : BitVec w) (b : Nat) :
    (foldMask ms mask).getLsbD b = (mask.getLsbD b || (lastSign ms b).isSome) := by
  induction ms using List.reverseRecOn with
  | nil => simp
  | append_singleton ms m ih =>
    rw [foldMask_append, foldMask_cons, foldMask_nil, id, BitVec.getLsbD_or, lastSign_concat, ih]
    cases m.bits.getLsbD b <;> simp

/-- The two lists give every bit the same last sign. -/
def SameSigns (ms ms' : List (Mention w)) : Prop := ∀ b, lastSign ms b = lastSign ms' b

theorem SameSigns.refl (ms : List (Mention w)) : SameSigns ms ms := fun _ => rfl

/-- **Two lists have the same effect on all start values exactly when they agree on the last
sign of every bit.** -/
theorem sameEffect_iff (ms ms' : List (Mention w)) :
    (∀ flag mask, foldFlag ms flag = foldFlag ms' flag ∧ foldMask ms mask = foldMask ms' mask) ↔
      SameSigns ms ms' := by
  constructor
  · intro h b
    obtain ⟨hf, hm⟩ := h 0#w 0#w
    have hmb := congrArg (fun x => x.getLsbD b) hm
    have hfb := congrArg (fun x => x.getLsbD b) hf
    simp only [foldMask_bit, foldFlag_bit, BitVec.getLsbD_zero, Bool.false_or] at hmb hfb
    cases h1 : lastSign ms b <;> cases h2 : lastSign ms' b <;> simp_all
  · intro h flag mask
    constructor
    · apply BitVec.eq_of_getLsbD_eq
      intro b _
      rw [foldFlag_bit, foldFlag_bit, h b]
    · apply BitVec.eq_of_getLsbD_eq
      intro b _
      rw [foldMask_bit, foldMask_bit, h b]

/-- Without negated mentions a bit has no negative sign. -/
theorem lastSign_pos {ms : List (Mention w)} (h : ∀ m ∈ ms, m.neg = false) (b : Nat) :
    lastSign ms b ≠ some true := by
  induction ms using List.reverseRecOn with
  | nil => simp
  | append_singleton ms m ih =>
    rw [lastSign_concat]
    split
    · simp [h m (by simp)]
    · exact ih fun m' hm' => h m' (by simp [hm'])

/-- For lists without negated mentions the flag word alone tells the signs. -/
theorem sameFlag_iff_of_pos {ms ms' : List (Mention w)} (h : ∀ m ∈ ms, m.neg = false)
    (h' : ∀ m ∈ ms', m.neg = false) :
    (∀ flag, foldFlag ms flag = foldFlag ms' flag) ↔ SameSigns ms ms' := by
  constructor
  · intro heq b
    have hb := congrArg (fun x => x.getLsbD b) (heq 0#w)
    simp only [foldFlag_bit, BitVec.getLsbD_zero] at hb
    have h1 := lastSign_pos h b
    have h2 := lastSign_pos h' b
    cases hs : lastSign ms b <;> cases hs' : lastSign ms' b <;> simp_all
  · intro hs flag
    exact ((sameEffect_iff ms ms').2 hs flag 0#w).1

end BitMention
