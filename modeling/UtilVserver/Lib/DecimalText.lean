import Mathlib.Data.List.Basic
import Mathlib.Tactic.Ring
import UtilVserver.Lib.Decimal

/-!
# Decimal texts of numbers

* `decimal` — the digits of a number.
* `padded` — the same with zeros in front, up to a width.
* `readDigits` — the digits at the start of a text, and what follows them.

Principal results: `digitsVal_padded` (the digits stand for the number) and `strtol10_numeral` (the
scanner reads them up to what is no digit).
-/

set_option autoImplicit false

namespace DecimalText

open CString

def decimal (n : Nat) : Text := Nat.toDigits 10 n

/-- The digits with zeros in front, `w` places at least. -/
def padded (w n : Nat) : Text := List.replicate (w - (decimal n).length) '0' ++ decimal n

/-- Digits, at least one, and what follows them. -/
def readDigits (t : Text) : Option (Text × Text) :=
  let ds := t.takeWhile (isDigitIn 10)
  if ds = [] then none else some (ds, t.dropWhile (isDigitIn 10))

/-- The text goes on with something else than a digit. -/
def Ends (r : Text) : Prop := isDigitIn 10 (charAt r 0) = false

theorem ends_nil : Ends [] := rfl

theorem ends_cons {c : Char} (h : isDigitIn 10 c = false) (r : Text) : Ends (c :: r) := h

/-! ## Digits -/

theorem isDigitIn_of_isDigit {c : Char} (h : c.isDigit = true) : isDigitIn 10 c = true := by
  have hrange : 48 ≤ c.toNat ∧ c.toNat ≤ 57 := by
    unfold Char.isDigit at h
    rw [Bool.and_eq_true, decide_eq_true_eq, decide_eq_true_eq] at h
    exact h
  unfold isDigitIn digitVal
  rw [if_pos hrange]
  exact decide_eq_true (by omega)

theorem digitVal_of_isDigitIn {c : Char} (h : isDigitIn 10 c = true) :
    digitVal c = some (c.toNat - 48) := by
  unfold digitVal
  rw [if_pos (isDigitIn_ten h)]

theorem numeral_decimal (n : Nat) : Numeral (decimal n) := by
  refine ⟨Nat.toDigits_ne_nil, List.all_eq_true.2 fun c hc => ?_⟩
  exact isDigitIn_of_isDigit (Nat.isDigit_of_mem_toDigits (by decide) (by decide) hc)

/-- The value of digits, as core computes it. -/
theorem digitsVal_eq {ds : Text} (h : ds.all (isDigitIn 10) = true) :
    digitsVal 10 ds = Nat.ofDigitChars 10 ds 0 := by
  rw [digitsVal, Nat.ofDigitChars_eq_foldl]
  refine List.foldl_ext _ _ _ fun n c hc => ?_
  rw [digitVal_of_isDigitIn (List.all_eq_true.1 h c hc), Nat.mul_comm]
  rfl

theorem digitsVal_decimal (n : Nat) : digitsVal 10 (decimal n) = n := by
  rw [digitsVal_eq (numeral_decimal n).2]
  exact Nat.ofDigitChars_ten_toDigits

/-- The digits of a number other than 0 do not begin with a zero. -/
theorem decimal_cons {n : Nat} (hn : 0 < n) : ∃ c ds, decimal n = c :: ds ∧ c ≠ '0' := by
  induction n using Nat.strongRecOn with
  | _ n ih =>
    have hchar : ∀ d < 10, 0 < d → d.digitChar ≠ '0' := by decide
    rw [decimal, Nat.toDigits_eq_if (by decide)]
    split
    · rename_i hlt
      exact ⟨_, [], rfl, hchar n hlt hn⟩
    · rename_i hge
      obtain ⟨c, ds, hds, hc⟩ := ih (n / 10) (by omega) (by omega)
      rw [decimal] at hds
      rw [hds]
      exact ⟨c, _, rfl, hc⟩

/-- In C the digits are a decimal numeral. -/
theorem decimal_cNumeral (n : Nat) : cNumeral (decimal n) = some n := by
  by_cases hn : n = 0
  · rw [hn]
    rfl
  · obtain ⟨c, ds, hds, hc⟩ := decimal_cons (Nat.pos_of_ne_zero hn)
    have hall : (decimal n).all (isDigitIn 10) = true := (numeral_decimal n).2
    have hval := digitsVal_decimal n
    rw [hds] at hall hval ⊢
    rw [cNumeral_decimal hc, if_pos hall, hval]

theorem digitsVal_zeros (k : Nat) (t : Text) :
    digitsVal 10 (List.replicate k '0' ++ t) = digitsVal 10 t := by
  induction k with
  | zero => rfl
  | succ k ih =>
    rw [List.replicate_succ, List.cons_append, digitsVal_zero_cons, ih]

theorem digitsVal_foldl (ds : Text) (n : Nat) :
    ds.foldl (fun n c => n * 10 + (digitVal c).getD 0) n = n * 10 ^ ds.length + digitsVal 10 ds := by
  induction ds generalizing n with
  | nil => simp [digitsVal]
  | cons c ds ih =>
    rw [digitsVal, List.foldl_cons, List.foldl_cons, ih, ih (0 * 10 + _), List.length_cons]
    ring

theorem digitsVal_append (ds es : Text) :
    digitsVal 10 (ds ++ es) = digitsVal 10 ds * 10 ^ es.length + digitsVal 10 es := by
  rw [digitsVal, List.foldl_append, digitsVal_foldl]
  rfl

/-- Digits stand for a number with as many places. -/
theorem digitsVal_lt {ds : Text} (h : ds.all (isDigitIn 10) = true) :
    digitsVal 10 ds < 10 ^ ds.length := by
  induction ds with
  | nil => decide
  | cons c ds ih =>
    rw [List.all_cons, Bool.and_eq_true] at h
    have hc := (isDigitIn_ten h.1).2
    have hval : digitsVal 10 [c] ≤ 9 := by
      have hone : digitsVal 10 [c] = c.toNat - 48 := by
        simp [digitsVal, digitVal_of_isDigitIn h.1]
      omega
    have hrest := ih h.2
    have hsplit := digitsVal_append [c] ds
    rw [List.singleton_append] at hsplit
    rw [hsplit, List.length_cons, Nat.pow_succ]
    have hmul : digitsVal 10 [c] * 10 ^ ds.length ≤ 9 * 10 ^ ds.length :=
      Nat.mul_le_mul_right _ hval
    omega

/-- A number below `10 ^ w` has `w` digits at most. -/
theorem decimal_length_le {n w : Nat} (hw : 0 < w) (h : n < 10 ^ w) : (decimal n).length ≤ w :=
  (Nat.length_toDigits_le_iff (by decide) hw).2 h

/-! ## Zeros in front -/

theorem numeral_padded (w n : Nat) : Numeral (padded w n) := by
  obtain ⟨hne, hall⟩ := numeral_decimal n
  refine ⟨fun hnil => hne (List.append_eq_nil_iff.1 hnil).2, ?_⟩
  rw [padded, List.all_append, hall, Bool.and_true, List.all_eq_true]
  intro c hc
  rw [List.eq_of_mem_replicate hc]
  decide

/-- **Padded digits stand for the number.** -/
theorem digitsVal_padded (w n : Nat) : digitsVal 10 (padded w n) = n := by
  rw [padded, digitsVal_zeros, digitsVal_decimal]

theorem padded_length {w n : Nat} (hw : 0 < w) (h : n < 10 ^ w) : (padded w n).length = w := by
  have hle := decimal_length_le hw h
  rw [padded, List.length_append, List.length_replicate]
  omega

/-! ## Reading -/

/-- Digits are taken up to what follows them. -/
theorem takeWhile_numeral {ds r : Text} (hd : Numeral ds) (hr : Ends r) :
    (ds ++ r).takeWhile (isDigitIn 10) = ds ∧ (ds ++ r).dropWhile (isDigitIn 10) = r := by
  have hall : ∀ c ∈ ds, isDigitIn 10 c = true := List.all_eq_true.1 hd.2
  rw [List.takeWhile_append_of_pos hall, List.dropWhile_append_of_pos hall]
  cases r with
  | nil => simp
  | cons c r =>
    have hc : isDigitIn 10 c = false := hr
    simp [hc]

theorem readDigits_append {ds r : Text} (hd : Numeral ds) (hr : Ends r) :
    readDigits (ds ++ r) = some (ds, r) := by
  obtain ⟨htake, hdrop⟩ := takeWhile_numeral hd hr
  rw [readDigits, htake, hdrop]
  exact if_neg hd.1

/-- **The scanner reads digits up to what follows them.** -/
theorem scanDecimal_append_ends {ds r : Text} (hd : Numeral ds) (hr : Ends r) :
    scanDecimal (ds ++ r) = some (false, digitsVal 10 ds, r) := by
  obtain ⟨htake, hdrop⟩ := takeWhile_numeral hd hr
  obtain ⟨hne, hall⟩ := hd
  cases ds with
  | nil => exact absurd rfl hne
  | cons c ds =>
    have hc : isDigitIn 10 c = true := List.all_eq_true.1 hall c List.mem_cons_self
    have hspace : ((c :: ds) ++ r).dropWhile isspace = (c :: ds) ++ r := by
      simp [isspace_of_digit hc]
    simp only [scanDecimal, hspace]
    rw [List.cons_append, scanSign_digit hc, ← List.cons_append, htake, hdrop, if_neg hne]

/-- **What a scan stops at keeps out what follows.** -/
theorem scanDecimal_stop {w : Text} {c : Char} (hdigit : isDigitIn 10 c = false) (hm : c ≠ '-')
    (hp : c ≠ '+') (hspace : isspace c = false ∨ w.dropWhile isspace ≠ []) (r : Text) :
    scanDecimal (w ++ c :: r) = (scanDecimal w).map fun n => (n.1, n.2.1, n.2.2 ++ c :: r) := by
  have hskip : (w ++ c :: r).dropWhile isspace = w.dropWhile isspace ++ c :: r := by
    rw [List.dropWhile_append]
    split
    · rename_i hempty
      have hnil := List.isEmpty_iff.1 hempty
      rw [hnil, List.dropWhile_cons, hspace.resolve_right (not_not_intro hnil)]
      rfl
    · rfl
  have hsign : ∀ x : Text, scanSign (x ++ c :: r) = ((scanSign x).1, (scanSign x).2 ++ c :: r) := by
    intro x
    cases x with
    | nil => simp [scanSign, hm, hp]
    | cons y x =>
      by_cases hym : y = '-'
      · subst hym
        rfl
      · by_cases hyp : y = '+'
        · subst hyp
          rfl
        · simp [scanSign, hym, hyp]
  unfold scanDecimal
  rw [hskip, hsign]
  generalize scanSign (w.dropWhile isspace) = sg
  have htake : (sg.2 ++ c :: r).takeWhile (isDigitIn 10) = sg.2.takeWhile (isDigitIn 10) := by
    rw [List.takeWhile_append, List.takeWhile_cons_of_neg (by simp [hdigit]), List.append_nil]
    split
    · rename_i hlen
      exact ((List.takeWhile_prefix _).eq_of_length hlen).symm
    · rfl
  have hdrop : (sg.2 ++ c :: r).dropWhile (isDigitIn 10) =
      sg.2.dropWhile (isDigitIn 10) ++ c :: r := by
    rw [List.dropWhile_append, List.dropWhile_cons_of_neg (by simp [hdigit])]
    split
    · rename_i hempty
      rw [List.isEmpty_iff.1 hempty]
      rfl
    · rfl
  dsimp only
  rw [htake, hdrop]
  split <;> rfl

/-- The value that is scanned does not depend on what follows the stop. -/
theorem strtol10_stop {w : Text} {c : Char} (hdigit : isDigitIn 10 c = false) (hm : c ≠ '-')
    (hp : c ≠ '+') (hspace : isspace c = false ∨ w.dropWhile isspace ≠ []) (bits : Nat)
    (r : Text) : (strtol10 bits (w ++ c :: r)).1 = (strtol10 bits w).1 := by
  rw [strtol10, scanDecimal_stop hdigit hm hp hspace, strtol10]
  cases scanDecimal w <;> rfl

theorem strtol10_numeral {ds r : Text} (hd : Numeral ds) (hr : Ends r) (bits : Nat) :
    strtol10 bits (ds ++ r) = (clamp bits (digitsVal 10 ds), r) := by
  rw [strtol10, scanDecimal_append_ends hd hr]
  rfl

end DecimalText
