import Mathlib.Data.BitVec
import Mathlib.Data.List.DropRight
import UtilVserver.Lib.DecimalText

/-!
# The uptime (`getUptime` of `src/vserver-stat.c`)

The first field of `/proc/uptime` is a number of seconds with a fraction.

* `getUptime` — the code.
* `millis` — the milliseconds of a fraction.
* `Line` — a content of the documented form.

Principal result: `getUptime_exact`.
-/

set_option autoImplicit false

namespace Uptime

open CString DecimalText

/-- The `switch` on the length of what is behind the dot. -/
def mult (len : Nat) : Nat :=
  match len with
  | 0 => 1000
  | 1 => 100
  | 2 => 10
  | 3 => 1
  | _ => 0

/-- `getUptime`; nothing where the program exits.  The product with `mult` fits a `long`, as a text of
three characters at most is read where `mult` is not 0. -/
def getUptime (content : Text) : Option (BitVec 64) :=
  if 64 ≤ content.length then none
  else
    let buffer := cstr (content.rdropWhile (· == '\n'))
    let r := strtol10 64 buffer
    let secs := BitVec.ofInt 64 r.1
    let p : BitVec 32 × Text :=
      if charAt r.2 0 ≠ '.' then (0, buffer)
      else
        let m := strtol10 64 r.2.tail
        (BitVec.ofInt 32 (m.1 * mult r.2.tail.length), m.2)
    -- the two pointers are compared by what is behind them
    if (charAt p.2 0 ≠ '\x00' ∧ charAt p.2 0 ≠ ' ') ∨ p.2.length = buffer.length then none
    else some (secs * 1000 + p.1.setWidth 64)

/-! ## The documented content -/

/-- The first three digits behind the dot. -/
def millis (f : Text) : Nat := digitsVal 10 ((f ++ "000".toList).take 3)

/-- Seconds, a dot, any number of digits, nothing or a blank and any rest of the line, and the ends of
lines. -/
structure Line where
  secs : Text
  fraction : Text
  rest : Text
  ends : Text
  secs_digits : Numeral secs
  fraction_digits : fraction.all (isDigitIn 10) = true
  rest_blank : rest = [] ∨ ∃ r, rest = ' ' :: r
  rest_line : '\n' ∉ rest ∧ '\x00' ∉ rest
  ends_newlines : ∀ c ∈ ends, c = '\n'

def Line.first (l : Line) : Text := l.secs ++ '.' :: (l.fraction ++ l.rest)

def Line.content (l : Line) : Text := l.first ++ l.ends

def Line.uptime (l : Line) : Nat := digitsVal 10 l.secs * 1000 + millis l.fraction

/-- The content and the time fit; and there are no more than three digits and nothing behind them, or
the fraction has no milliseconds.  Without digits, what `strtol` finds behind the blanks must not
count. -/
def Fits (l : Line) : Prop :=
  l.content.length < 64 ∧ l.uptime < 2 ^ 64 ∧
    if l.fraction = [] then
      ((strtol10 64 l.rest).1 = 0 ∨ 4 ≤ l.rest.length) ∧
        (charAt (strtol10 64 l.rest).2 0 = '\x00' ∨ charAt (strtol10 64 l.rest).2 0 = ' ')
    else (l.rest = [] ∧ l.fraction.length ≤ 3) ∨ millis l.fraction = 0

/-! ## The buffer -/

theorem Line.not_mem_first (l : Line) {d : Char} (hd : isDigitIn 10 d = false) (hdot : d ≠ '.')
    (hrest : d ∉ l.rest) : d ∉ l.first := by
  have hsecs : d ∉ l.secs := not_mem_of_digits l.secs_digits.2 hd
  have hfraction : d ∉ l.fraction := not_mem_of_digits l.fraction_digits hd
  simp [first, hsecs, hfraction, hrest, hdot]

/-- What is in the buffer. -/
theorem Line.buffer_eq (l : Line) : cstr (l.content.rdropWhile (· == '\n')) = l.first := by
  have hnewline : '\n' ∉ l.first := l.not_mem_first (by decide) (by decide) l.rest_line.1
  have hnul : '\x00' ∉ l.first := l.not_mem_first (by decide) (by decide) l.rest_line.2
  have hstrip : l.content.rdropWhile (· == '\n') = l.first := by
    have hends : ∀ c ∈ l.ends.reverse, (c == '\n') = true := fun c hc =>
      beq_iff_eq.2 (l.ends_newlines c (List.mem_reverse.1 hc))
    have hkeep : l.first.reverse.dropWhile (· == '\n') = l.first.reverse := by
      cases hrev : l.first.reverse with
      | nil => rfl
      | cons c r =>
        have hc : c ≠ '\n' := by
          rintro rfl
          exact hnewline (List.mem_reverse.1 (hrev ▸ List.mem_cons_self))
        exact List.dropWhile_cons_of_neg (by simp [hc])
    rw [List.rdropWhile, content, List.reverse_append, List.dropWhile_append_of_pos hends, hkeep,
      List.reverse_reverse]
  rw [hstrip, cstr_eq_self hnul]

/-! ## The fraction -/

/-- Up to three digits have the missing places filled with zeros. -/
theorem millis_short {f : Text} (h : f.length ≤ 3) :
    millis f = digitsVal 10 f * 10 ^ (3 - f.length) := by
  have htake : (f ++ "000".toList).take 3 = f ++ "000".toList.take (3 - f.length) := by
    rw [List.take_append, List.take_of_length_le h]
  have hzeros : ∀ k, digitsVal 10 ("000".toList.take k) = 0 ∧
      ("000".toList.take k).length = min k 3 := by
    intro k
    have hreplicate : "000".toList = List.replicate 3 '0' := by decide
    rw [hreplicate, List.take_replicate, List.length_replicate]
    have hz := digitsVal_zeros (min k 3) []
    rw [List.append_nil] at hz
    exact ⟨hz, rfl⟩
  obtain ⟨hz, hlen⟩ := hzeros (3 - f.length)
  rw [millis, htake, digitsVal_append, hz, hlen, Nat.add_zero, Nat.min_eq_left (by omega)]

theorem millis_lt {f : Text} (h : f.all (isDigitIn 10) = true) : millis f < 1000 := by
  have hall : ((f ++ "000".toList).take 3).all (isDigitIn 10) = true := by
    rw [List.all_eq_true]
    intro c hc
    rcases List.mem_append.1 (List.mem_of_mem_take hc) with hc | hc
    · exact List.all_eq_true.1 h c hc
    · have hzeros : "000".toList.all (isDigitIn 10) = true := by decide
      exact List.all_eq_true.1 hzeros c hc
  have hlen : ((f ++ "000".toList).take 3).length = 3 := by simp
  have hlt := digitsVal_lt hall
  rw [hlen] at hlt
  exact hlt

/-- The milliseconds the code makes of digits, with `n` characters behind the dot. -/
def codeMillis (f : Text) (n : Nat) : BitVec 32 :=
  BitVec.ofInt 32 (clamp 64 (digitsVal 10 f) * mult n)

theorem mult_eq (n : Nat) : mult n = if n ≤ 3 then 10 ^ (3 - n) else 0 := by
  match n with
  | 0 | 1 | 2 | 3 => rfl
  | n + 4 => rw [if_neg (by omega)]; rfl

/-- A number of up to three places is below 1000 with the missing ones. -/
theorem scaled_lt {v n : Nat} (h3 : n ≤ 3) (hv : v < 10 ^ n) : v * 10 ^ (3 - n) < 1000 := by
  have hpow : 10 ^ n * 10 ^ (3 - n) = 1000 := by
    rw [← Nat.pow_add, Nat.add_sub_cancel' h3]
  have hpos : 0 < 10 ^ (3 - n) := Nat.pow_pos (by omega)
  exact hpow ▸ Nat.mul_lt_mul_of_pos_right hv hpos

theorem codeMillis_toNat {f : Text} (h : f.all (isDigitIn 10) = true) {n : Nat} (hn : f.length ≤ n) :
    (codeMillis f n).toNat = if n ≤ 3 then digitsVal 10 f * 10 ^ (3 - n) else 0 := by
  unfold codeMillis
  rw [mult_eq]
  split
  · rename_i h3
    have hval : digitsVal 10 f < 10 ^ n :=
      (digitsVal_lt h).trans_le (Nat.pow_le_pow_right (by omega) hn)
    have hproduct := scaled_lt h3 hval
    have hsmall : digitsVal 10 f < 2 ^ (64 - 1) := by
      have hle : 10 ^ n ≤ 10 ^ 3 := Nat.pow_le_pow_right (by omega) h3
      omega
    rw [clamp_of_lt hsmall, ← Int.natCast_mul, BitVec.ofInt_natCast, BitVec.toNat_ofNat,
      Nat.mod_eq_of_lt (by omega)]
  · rw [Nat.cast_zero, mul_zero]
    rfl

/-- **The milliseconds are right when three digits at most are all that is behind the dot, or when
there are none.** -/
theorem codeMillis_right {f : Text} (h : f.all (isDigitIn 10) = true) (rest : Text) :
    (codeMillis f (f.length + rest.length)).toNat = millis f ↔
      (rest = [] ∧ f.length ≤ 3) ∨ millis f = 0 := by
  rw [codeMillis_toNat h (Nat.le_add_right _ _)]
  by_cases hn : f.length + rest.length ≤ 3
  · have hmillis := millis_short (f := f) (by omega)
    rw [if_pos hn, hmillis]
    by_cases hrest : rest = []
    · subst hrest
      exact iff_of_true rfl (Or.inl ⟨rfl, hn⟩)
    · have hlen : 0 < rest.length := List.length_pos_iff.2 hrest
      constructor
      · intro heq
        right
        by_contra hne
        -- the places are counted with what is behind the digits
        have hpos : 0 < digitsVal 10 f := Nat.pos_of_ne_zero fun h0 => hne (by rw [h0, Nat.zero_mul])
        have hpow : 10 ^ (3 - (f.length + rest.length)) < 10 ^ (3 - f.length) :=
          Nat.pow_lt_pow_right (by omega) (by omega)
        have hlt := Nat.mul_lt_mul_of_pos_left hpow hpos
        omega
      · intro hzero
        have hval : digitsVal 10 f = 0 := by
          rcases Nat.mul_eq_zero.1 (hzero.resolve_left fun h => hrest h.1) with h0 | h0
          · exact h0
          · exact absurd h0 (Nat.pow_pos (by omega)).ne'
        rw [hval, Nat.zero_mul, Nat.zero_mul]
  · rw [if_neg hn]
    constructor
    · exact fun h0 => Or.inr h0.symm
    · rintro (⟨rfl, hle⟩ | h0)
      · exact absurd hle (by simpa using hn)
      · exact h0.symm

theorem getUptime_long {content : Text} (h : 64 ≤ content.length) : getUptime content = none :=
  if_pos h

/-- The time as the code adds it up. -/
theorem total_right {S ms : Nat} {m : BitVec 32} (hms : ms < 1000) :
    (BitVec.ofInt 64 (clamp 64 S) * 1000 + m.setWidth 64).toNat = S * 1000 + ms ↔
      S * 1000 + ms < 2 ^ 64 ∧ m.toNat = ms := by
  have hm := m.isLt
  have hsum : S * 1000 + ms < 2 ^ 64 →
      (BitVec.ofInt 64 (clamp 64 S) * 1000 + m.setWidth 64).toNat =
        (S * 1000 + m.toNat) % 2 ^ 64 := by
    intro hlt
    have hsmall : S < 2 ^ (64 - 1) := by omega
    rw [clamp_of_lt hsmall, BitVec.ofInt_natCast, BitVec.toNat_add, BitVec.toNat_mul,
      BitVec.toNat_ofNat, BitVec.toNat_setWidth]
    have h1000 : (1000 : BitVec 64).toNat = 1000 := rfl
    rw [h1000]
    omega
  constructor
  · intro h
    have hlt : S * 1000 + ms < 2 ^ 64 := h ▸ BitVec.isLt _
    rw [hsum hlt] at h
    exact ⟨hlt, by omega⟩
  · rintro ⟨hlt, rfl⟩
    rw [hsum hlt, Nat.mod_eq_of_lt hlt]

/-! ## The uptime -/

theorem strtol10_length_le (bits : Nat) (s : Text) : (strtol10 bits s).2.length ≤ s.length := by
  unfold strtol10
  cases h : scanDecimal s with
  | none => exact Nat.le_refl _
  | some n => exact (scanDecimal_length h).le

/-- What is behind the dot, and whether the program goes on with it. -/
theorem getUptime_content (l : Line) (h : l.content.length < 64) :
    getUptime l.content =
      let m := strtol10 64 (l.fraction ++ l.rest)
      if charAt m.2 0 ≠ '\x00' ∧ charAt m.2 0 ≠ ' ' then none
      else some (BitVec.ofInt 64 (clamp 64 (digitsVal 10 l.secs)) * 1000 +
        (BitVec.ofInt 32 (m.1 * mult (l.fraction.length + l.rest.length))).setWidth 64) := by
  have hdot : Ends ('.' :: (l.fraction ++ l.rest)) := ends_cons (by decide) _
  have hsecs : strtol10 64 l.first = (clamp 64 (digitsVal 10 l.secs), '.' :: (l.fraction ++ l.rest)) :=
    strtol10_numeral l.secs_digits hdot 64
  have hpointer : (strtol10 64 (l.fraction ++ l.rest)).2.length ≠ l.first.length := by
    have hle := strtol10_length_le 64 (l.fraction ++ l.rest)
    have hlen : l.first.length = l.secs.length + (l.fraction ++ l.rest).length + 1 := by
      rw [Line.first, List.length_append, List.length_cons]
      omega
    omega
  unfold getUptime
  rw [if_neg (Nat.not_le.2 h), l.buffer_eq]
  simp only [hsecs, charAt_cons_zero, ne_eq, not_true_eq_false, if_false, List.tail_cons,
    List.length_append, hpointer, or_false]

/-- A number has no more places than its text. -/
theorem strtol10_natAbs_lt (s : Text) : (strtol10 64 s).1.natAbs < 10 ^ s.length := by
  unfold strtol10
  cases h : scanDecimal s with
  | none => exact Nat.pow_pos (by omega)
  | some n =>
    simp only [scanDecimal] at h
    split at h
    · cases h
    · cases h
      have hrun : ((scanSign (s.dropWhile isspace)).2.takeWhile (isDigitIn 10)).length ≤ s.length :=
        ((List.takeWhile_prefix _).length_le.trans (scanSign_suffix _).length_le).trans
          (List.dropWhile_suffix isspace).length_le
      have hlt := (digitsVal_lt (List.all_takeWhile)).trans_le
        (Nat.pow_le_pow_right (by omega : 0 < 10) hrun)
      refine lt_of_le_of_lt ?_ hlt
      unfold clamp signed
      dsimp only
      split <;> omega

theorem ofInt_small_zero {x : Int} (h : x.natAbs < 2 ^ 31) :
    (BitVec.ofInt 32 x).toNat = 0 ↔ x = 0 := by
  rw [BitVec.toNat_ofInt]
  omega

/-- What is found behind the blanks counts unless it is 0, or four characters are there. -/
theorem blankMillis_zero (rest : Text) :
    (BitVec.ofInt 32 ((strtol10 64 rest).1 * mult rest.length)).toNat = 0 ↔
      (strtol10 64 rest).1 = 0 ∨ 4 ≤ rest.length := by
  have hbound := strtol10_natAbs_lt rest
  generalize (strtol10 64 rest).1 = v at hbound ⊢
  rw [mult_eq]
  by_cases h3 : rest.length ≤ 3
  · have hor : v = 0 ∨ 4 ≤ rest.length ↔ v = 0 := or_iff_left (by omega)
    have hproduct : (v * (10 ^ (3 - rest.length) : Nat)).natAbs < 1000 := by
      rw [Int.natAbs_mul, Int.natAbs_natCast]
      exact scaled_lt h3 hbound
    have hfactor : ((10 ^ (3 - rest.length) : Nat) : Int) ≠ 0 :=
      Int.natCast_ne_zero.2 (Nat.pow_pos (by omega)).ne'
    rw [if_pos h3, hor, ofInt_small_zero (by omega), Int.mul_eq_zero, or_iff_left hfactor]
  · rw [if_neg h3, Nat.cast_zero, mul_zero]
    exact iff_of_true rfl (Or.inr (by omega))

theorem Line.rest_ends (l : Line) : Ends l.rest := by
  obtain hnil | ⟨r, hr⟩ := l.rest_blank
  · rw [hnil]
    exact ends_nil
  · rw [hr]
    exact ends_cons (by decide) r

theorem Line.rest_head (l : Line) : charAt l.rest 0 = '\x00' ∨ charAt l.rest 0 = ' ' := by
  obtain hnil | ⟨r, hr⟩ := l.rest_blank
  · rw [hnil]
    exact Or.inl rfl
  · rw [hr]
    exact Or.inr rfl

/-- **For which contents the uptime is right.** -/
theorem getUptime_exact (l : Line) :
    (∃ v, getUptime l.content = some v ∧ v.toNat = l.uptime) ↔ Fits l := by
  unfold Fits
  by_cases hlen : l.content.length < 64
  · have hmillis := millis_lt l.fraction_digits
    rw [getUptime_content l hlen]
    simp only [hlen, true_and]
    by_cases hf : l.fraction = []
    · have hzero : millis ([] : Text) = 0 := by decide
      have htotal : ∀ m : BitVec 32,
          (BitVec.ofInt 64 (clamp 64 (digitsVal 10 l.secs)) * 1000 + m.setWidth 64).toNat =
            l.uptime ↔ l.uptime < 2 ^ 64 ∧ m.toNat = 0 := by
        intro m
        have h := total_right (S := digitsVal 10 l.secs) (m := m) hmillis
        rw [Line.uptime]
        rw [hf, hzero] at h ⊢
        exact h
      rw [if_pos hf]
      simp only [hf, List.nil_append, List.length_nil, Nat.zero_add]
      by_cases hbad : charAt (strtol10 64 l.rest).2 0 ≠ '\x00' ∧ charAt (strtol10 64 l.rest).2 0 ≠ ' '
      · rw [if_pos hbad]
        refine iff_of_false (fun h => ?_) fun h => h.2.2.elim hbad.1 hbad.2
        obtain ⟨v, hv, -⟩ := h
        cases hv
      · have hgood : charAt (strtol10 64 l.rest).2 0 = '\x00' ∨
            charAt (strtol10 64 l.rest).2 0 = ' ' := by
          by_contra hno
          exact hbad (not_or.1 hno)
        rw [if_neg hbad]
        simp only [Option.some.injEq, exists_eq_left', htotal, blankMillis_zero, hgood, and_true]
    · have hnumber := strtol10_numeral ⟨hf, l.fraction_digits⟩ l.rest_ends 64
      have hhead : ¬ (charAt l.rest 0 ≠ '\x00' ∧ charAt l.rest 0 ≠ ' ') := fun h =>
        l.rest_head.elim h.1 h.2
      rw [if_neg hf, hnumber]
      simp only [if_neg hhead, Option.some.injEq, exists_eq_left']
      exact (total_right hmillis).trans (and_congr_right fun _ =>
        codeMillis_right l.fraction_digits l.rest)
  · refine iff_of_false (fun h => ?_) fun h => hlen h.1
    obtain ⟨v, hv, -⟩ := h
    rw [getUptime_long (Nat.not_lt.1 hlen)] at hv
    cases hv

/-- The usual content with two digits: the fraction is lost. -/
def usual : Line where
  secs := "350735".toList
  fraction := "47".toList
  rest := " 234388.90".toList
  ends := "\n".toList
  secs_digits := by decide
  fraction_digits := by decide
  rest_blank := Or.inr ⟨"234388.90".toList, rfl⟩
  rest_line := by decide
  ends_newlines c hc := List.mem_singleton.1 hc

theorem getUptime_wrong : getUptime usual.content = some 350735000 ∧ usual.uptime = 350735470 := by
  decide +kernel

end Uptime
