import UtilVserver.Lib.Decimal

/-!
# `isNumber` (`lib_internal/util-isnumber.hc`)

The number parsers of the tools: `strtol` or `strtoul` with base 0, an optional factor, and a check
of the range.

* `isNumber`, `isNumberUnsigned` — the value, or none where the source returns false and leaves
  `*result` alone.
* `number` — the number that a text denotes, which may have a factor behind it.
* `Reads` — a numeral, a suffix and what follows.

Principal results: `isNumber_strict_iff` (the texts that are accepted strictly),
`isNumber_of_number` (a text whose number has 32 bits is accepted), `scanned_of_reads` and
`reads_of_scanned` (the scanner reads a text as it is made up) and `isNumber_exact` (which numbers
the two functions get right).
-/

set_option autoImplicit false

namespace IsNumber

open CString

/-- The number that `strtol` reads, without saturation, and what follows it. -/
def scan (str : Text) : Option (Int × Text) :=
  let sg := scanSign (str.dropWhile isspace)
  (scanDigits sg.2).map fun r => (if sg.1 then -(r.1 : Int) else r.1, r.2)

/-- `errno == ERANGE` behind `strtol`. -/
def erange (str : Text) : Bool := (scan str).any fun r => clamp 64 r.1 != r.1

/-- The factor, and what follows it. -/
def factor (errptr : Text) : Int × Text :=
  match errptr with
  | 'M' :: t => (1024 * 1024, t)
  | 'K' :: t => (1024, t)
  | 'm' :: t => (1000 * 1000, t)
  | 'k' :: t => (1000, t)
  | t => (1, t)

def LONG_MAX : Int := 2 ^ 63 - 1
def LONG_MIN : Int := -(2 ^ 63)

def checkConstraints (val fac : Int) : Bool :=
  !(decide (0 < val ∧ LONG_MAX.tdiv fac ≤ val) || decide (val < 0 ∧ val ≤ LONG_MIN.tdiv fac))

def isNumber (str : Text) (isStrict : Bool) : Option Int :=
  let r := strtol 64 str
  let moved := r.2.length ≠ str.length
  if erange str then none
  else
    let f := if moved ∧ isStrict = false then factor r.2 else (1, r.2)
    if checkConstraints r.1 f.1 = false then none
    else if f.2 = [] ∧ moved then some (r.1 * f.1)
    else none

/-- A number between the limits of a long. -/
def InLong (v : Int) : Prop := LONG_MIN < v ∧ v < LONG_MAX

theorem clamp_eq_self_iff {v : Int} : clamp 64 v = v ↔ LONG_MIN ≤ v ∧ v ≤ LONG_MAX := by
  unfold clamp LONG_MIN LONG_MAX
  omega

theorem checkConstraints_one {v : Int} (h : LONG_MIN ≤ v ∧ v ≤ LONG_MAX) :
    checkConstraints v 1 = true ↔ InLong v := by
  unfold checkConstraints InLong
  unfold LONG_MIN LONG_MAX at *
  rw [Int.tdiv_one, Int.tdiv_one]
  simp only [Bool.not_eq_true', Bool.or_eq_false_iff, decide_eq_false_iff_not]
  omega

/-- Blanks, a sign and a numeral, as a number. -/
def denotes (str : Text) : Option Int :=
  (signedNumeral str).map fun r => if r.1 then -(r.2 : Int) else r.2

theorem scan_of_denotes {str : Text} {v : Int} (h : denotes str = some v) :
    scan str = some (v, []) ∧ strtol 64 str = (clamp 64 v, []) ∧ str ≠ [] := by
  obtain ⟨⟨neg, n⟩, hs, rfl⟩ := Option.map_eq_some_iff.1 h
  refine ⟨?_, strtol_of_signedNumeral hs 64, ?_⟩
  · simp only [signedNumeral, Option.map_eq_some_iff, Prod.mk.injEq] at hs
    obtain ⟨m, hm, hneg, rfl⟩ := hs
    simp only [scan, (scanDigits_consumes_iff _ m).2 hm, hneg, Option.map_some]
  · rintro rfl
    cases hs

/-- **The texts that are accepted strictly.** -/
theorem isNumber_strict_iff {str : Text} {v : Int} :
    isNumber str true = some v ↔ denotes str = some v ∧ InLong v := by
  constructor
  · intro h
    unfold isNumber at h
    simp only [Bool.true_eq_false, and_false, if_false] at h
    split at h
    · cases h
    rename_i herange
    split at h
    · cases h
    rename_i hcheck
    obtain ⟨⟨hnil, hmoved⟩, h⟩ := (Option.ite_none_right_eq_some ..).1 h
    rw [Int.mul_one, Option.some.injEq] at h
    have hlen : (strtol 64 str).2.length < str.length := by
      rw [hnil] at hmoved ⊢
      have : str.length ≠ 0 := Ne.symm hmoved
      show 0 < str.length
      omega
    obtain ⟨⟨neg, n⟩, hs⟩ :=
      Option.isSome_iff_exists.1 ((strtol_consumes_iff 64 str).1 ⟨hlen, hnil⟩)
    have hd : denotes str = some (if neg then -(n : Int) else n) := by
      rw [denotes, hs]
      rfl
    obtain ⟨hscan, hstrtol, -⟩ := scan_of_denotes hd
    have hclamp : clamp 64 (if neg then -(n : Int) else n) = if neg then -(n : Int) else n := by
      rw [erange, hscan] at herange
      simpa using herange
    rw [hstrtol, hclamp] at h hcheck
    subst h
    refine ⟨hd, ?_⟩
    rw [Bool.not_eq_false] at hcheck
    exact (checkConstraints_one (clamp_eq_self_iff.1 hclamp)).1 hcheck
  · rintro ⟨hd, hin⟩
    obtain ⟨hscan, hstrtol, hne⟩ := scan_of_denotes hd
    have hclamp : clamp 64 v = v := by
      rw [clamp_eq_self_iff]
      exact ⟨Int.le_of_lt hin.1, Int.le_of_lt hin.2⟩
    have herange : erange str = false := by
      rw [erange, hscan]
      simp [hclamp]
    have hlen : (0 : Nat) ≠ str.length := by
      intro h
      exact hne (List.length_eq_zero_iff.1 h.symm)
    have hcheck : checkConstraints v 1 = true :=
      (checkConstraints_one (clamp_eq_self_iff.1 hclamp)).2 hin
    unfold isNumber
    simp [herange, hstrtol, hclamp, hcheck, hlen]

/-- The number that a text denotes, with its factor. -/
def number (str : Text) : Option Int :=
  (scan str).bind fun r => if (factor r.2).2 = [] then some (r.1 * (factor r.2).1) else none

theorem scanDigits_length {t r : Text} {n : Nat} (h : scanDigits t = some (n, r)) :
    r.length < t.length := by
  obtain ⟨hrun, h⟩ := (Option.ite_none_left_eq_some ..).1 h
  have hrest := (Prod.mk.inj (Option.some.inj h)).2
  have hparts := congrArg List.length
    (List.takeWhile_append_dropWhile (p := isDigitIn (detectBase t).1) (l := (detectBase t).2))
  have hpos := List.length_pos_iff.2 hrun
  have hsuffix := (detectBase_suffix t).length_le
  rw [List.length_append, hrest] at hparts
  omega

theorem strtol_of_scan {str rest : Text} {n : Int} (h : scan str = some (n, rest)) :
    strtol 64 str = (clamp 64 n, rest) ∧ rest.length < str.length := by
  obtain ⟨⟨m, r⟩, hdigits, heq⟩ := Option.map_eq_some_iff.1 h
  obtain ⟨rfl, rfl⟩ := Prod.mk.inj heq
  constructor
  · unfold strtol
    dsimp only
    rw [hdigits]
  · show r.length < str.length
    have h1 := scanDigits_length hdigits
    have h2 := (scanSign_suffix (str.dropWhile isspace)).length_le
    have h3 := (List.dropWhile_suffix (l := str) isspace).length_le
    omega

/-! ## Numbers with a suffix -/

/-- The sign and the digits that `strtol` and `strtoul` find, and what follows them. -/
def scanned (str : Text) : Option (Bool × Nat × Text) :=
  let sg := scanSign (str.dropWhile isspace)
  (scanDigits sg.2).map fun r => (sg.1, r.1, r.2)

theorem scan_eq (str : Text) : scan str = (scanned str).map fun r => (signed r.1 r.2.1, r.2.2) := by
  rw [scan, scanned, Option.map_map]
  rfl

/-- A numeral that is scanned to its end. -/
theorem scanned_nil_iff {str : Text} {neg : Bool} {n : Nat} :
    scanned str = some (neg, n, []) ↔ signedNumeral str = some (neg, n) := by
  simp only [scanned, signedNumeral, Option.map_eq_some_iff, Prod.mk.injEq, Prod.exists]
  constructor
  · rintro ⟨m, rest, hm, rfl, rfl, rfl⟩
    exact ⟨m, (scanDigits_consumes_iff _ m).1 hm, rfl, rfl⟩
  · rintro ⟨m, hm, rfl, rfl⟩
    exact ⟨m, [], (scanDigits_consumes_iff _ m).2 hm, rfl, rfl, rfl⟩

/-- A number does not change where something follows that is no part of it. -/
theorem scanned_append {c : Char} (hc : NumberEnd c) {t : Text}
    (hb : isspace c = false ∨ t.dropWhile isspace ≠ []) (r : Text) :
    scanned (t ++ c :: r) = (scanned t).map fun p => (p.1, p.2.1, p.2.2 ++ c :: r) := by
  have hdrop : (t ++ c :: r).dropWhile isspace = t.dropWhile isspace ++ c :: r := by
    rcases hb with hb | hb
    · exact dropWhile_append_stop hb t r
    · exact dropWhile_append_ne_nil hb (c :: r)
  obtain ⟨h1, h2⟩ := scanSign_append hc (t.dropWhile isspace) r
  simp only [scanned, hdrop, h1, h2, scanDigits_append hc, Option.map_map]
  rfl

/-- The suffixes and their factors. -/
def suffixes : List (Text × Int) :=
  [([], 1), (['k'], 1000), (['m'], 1000 * 1000), (['K'], 1024), (['M'], 1024 * 1024)]

/-- The number of a text: a numeral in C notation (behind blanks and a sign, as `strtol` takes it)
with a suffix, and what follows them. -/
def Reads (str : Text) (neg : Bool) (n : Nat) (f : Int) (w : Text) : Prop :=
  ∃ a x, str = a ++ (x ++ w) ∧ signedNumeral a = some (neg, n) ∧ (x, f) ∈ suffixes

/-- The end of the text, or of its first line. -/
def Ending (w : Text) : Prop := w = [] ∨ ∃ t, w = '\n' :: t

theorem factor_append {x w : Text} {f : Int} (hx : (x, f) ∈ suffixes) (hw : Ending w) :
    factor (x ++ w) = (f, w) := by
  simp only [suffixes, List.mem_cons, Prod.mk.injEq, List.not_mem_nil, or_false] at hx
  obtain ⟨rfl, rfl⟩ | ⟨rfl, rfl⟩ | ⟨rfl, rfl⟩ | ⟨rfl, rfl⟩ | ⟨rfl, rfl⟩ := hx
  · obtain rfl | ⟨t, rfl⟩ := hw
    · rfl
    · rfl
  · rfl
  · rfl
  · rfl
  · rfl

/-- What `factor` goes over is a suffix. -/
theorem factor_spec (t : Text) :
    ∃ x, t = x ++ (factor t).2 ∧ (x, (factor t).1) ∈ suffixes := by
  unfold factor
  split
  · exact ⟨['M'], rfl, by simp [suffixes]⟩
  · exact ⟨['K'], rfl, by simp [suffixes]⟩
  · exact ⟨['m'], rfl, by simp [suffixes]⟩
  · exact ⟨['k'], rfl, by simp [suffixes]⟩
  · exact ⟨[], rfl, by simp [suffixes]⟩

/-- What follows a numeral in `Reads` is no part of a number. -/
theorem numberEnd_of_suffix {x w : Text} {f : Int} (hx : (x, f) ∈ suffixes) (hw : Ending w)
    {c : Char} {r : Text} (hc : x ++ w = c :: r) : NumberEnd c := by
  simp only [suffixes, List.mem_cons, Prod.mk.injEq, List.not_mem_nil, or_false] at hx
  have hnl : NumberEnd '\n' := ⟨by decide, by decide, by decide, by decide⟩
  obtain ⟨rfl, rfl⟩ | ⟨rfl, rfl⟩ | ⟨rfl, rfl⟩ | ⟨rfl, rfl⟩ | ⟨rfl, rfl⟩ := hx
  · obtain rfl | ⟨t, rfl⟩ := hw
    · cases hc
    · obtain ⟨rfl, -⟩ := List.cons.inj hc
      exact hnl
  · obtain ⟨rfl, -⟩ := List.cons.inj hc
    exact ⟨by decide, by decide, by decide, by decide⟩
  · obtain ⟨rfl, -⟩ := List.cons.inj hc
    exact ⟨by decide, by decide, by decide, by decide⟩
  · obtain ⟨rfl, -⟩ := List.cons.inj hc
    exact ⟨by decide, by decide, by decide, by decide⟩
  · obtain ⟨rfl, -⟩ := List.cons.inj hc
    exact ⟨by decide, by decide, by decide, by decide⟩

/-- What is left is part of what stands behind the blanks. -/
theorem scanned_suffix {str rest : Text} {neg : Bool} {n : Nat}
    (h : scanned str = some (neg, n, rest)) :
    rest <:+ str.dropWhile isspace ∧ rest.length < (str.dropWhile isspace).length := by
  simp only [scanned, Option.map_eq_some_iff, Prod.mk.injEq, Prod.exists] at h
  obtain ⟨m, r, hdigits, rfl, rfl, rfl⟩ := h
  have hlen := scanDigits_length hdigits
  have hsign := scanSign_suffix (str.dropWhile isspace)
  obtain ⟨-, hrest⟩ := (Option.ite_none_left_eq_some ..).1 hdigits
  have hdrop := (Prod.mk.inj (Option.some.inj hrest)).2
  refine ⟨?_, Nat.lt_of_lt_of_le hlen hsign.length_le⟩
  rw [← hdrop]
  exact (List.dropWhile_suffix _).trans ((detectBase_suffix _).trans hsign)

theorem signedNumeral_ne_blank {a : Text} {neg : Bool} {n : Nat}
    (h : signedNumeral a = some (neg, n)) : a.dropWhile isspace ≠ [] := by
  intro hnil
  simp only [signedNumeral, hnil] at h
  cases h

/-- What is read is scanned. -/
theorem scanned_of_reads {str w : Text} {neg : Bool} {n : Nat} {f : Int} (hw : Ending w)
    (h : Reads str neg n f w) :
    ∃ rest, scanned str = some (neg, n, rest) ∧ factor rest = (f, w) := by
  obtain ⟨a, x, rfl, ha, hx⟩ := h
  refine ⟨x ++ w, ?_, factor_append hx hw⟩
  have hscan := scanned_nil_iff.2 ha
  cases hxw : x ++ w with
  | nil => rw [List.append_nil, hscan]
  | cons c r =>
    rw [scanned_append (numberEnd_of_suffix hx hw hxw) (Or.inr (signedNumeral_ne_blank ha)), hscan]
    rfl

/-- What is scanned is read. -/
theorem reads_of_scanned {str rest w : Text} {neg : Bool} {n : Nat} {f : Int} (hw : Ending w)
    (hs : scanned str = some (neg, n, rest)) (hf : factor rest = (f, w)) : Reads str neg n f w := by
  obtain ⟨x, hrest, hx⟩ := factor_spec rest
  rw [hf] at hrest hx
  obtain ⟨hsuffix, hlen⟩ := scanned_suffix hs
  obtain ⟨a, ha⟩ := hsuffix.trans (List.dropWhile_suffix _)
  subst ha
  refine ⟨a, x, by rw [← hrest], ?_, hx⟩
  rw [← scanned_nil_iff]
  cases hr : rest with
  | nil =>
    rw [hr, List.append_nil] at hs
    exact hs
  | cons c r =>
    rw [hr] at hs hlen
    have hend := numberEnd_of_suffix hx hw (hrest.symm.trans hr)
    -- the blanks end in front of what is left, which is shorter than what stands behind them
    have hblank : a.dropWhile isspace ≠ [] := by
      intro hnil
      have hall : ∀ y ∈ a, isspace y = true := List.dropWhile_eq_nil_iff.1 hnil
      rw [List.dropWhile_append_of_pos hall] at hlen
      have hle := (List.dropWhile_suffix (p := isspace) (l := c :: r)).length_le
      omega
    rw [scanned_append hend (Or.inr hblank)] at hs
    obtain ⟨⟨neg', n', rest'⟩, hs', heq⟩ := Option.map_eq_some_iff.1 hs
    obtain ⟨rfl, h2⟩ := Prod.mk.inj heq
    obtain ⟨rfl, h3⟩ := Prod.mk.inj h2
    have hnil : rest' = [] := List.append_left_eq_self.1 h3
    rw [hs', hnil]

/-- A text is read in one way. -/
theorem Reads.unique {str w w' : Text} {neg neg' : Bool} {n n' : Nat} {f f' : Int}
    (hw : Ending w) (hw' : Ending w') (h : Reads str neg n f w) (h' : Reads str neg' n' f' w') :
    neg = neg' ∧ n = n' ∧ f = f' ∧ w = w' := by
  obtain ⟨rest, hs, hf⟩ := scanned_of_reads hw h
  obtain ⟨rest', hs', hf'⟩ := scanned_of_reads hw' h'
  rw [hs] at hs'
  obtain ⟨rfl, h2⟩ := Prod.mk.inj (Option.some.inj hs')
  obtain ⟨rfl, rfl⟩ := Prod.mk.inj h2
  rw [hf] at hf'
  obtain ⟨rfl, rfl⟩ := Prod.mk.inj hf'
  exact ⟨rfl, rfl, rfl, rfl⟩

theorem Reads.factor_cases {s w : Text} {neg : Bool} {n : Nat} {f : Int} (h : Reads s neg n f w) :
    f = 1 ∨ f = 1000 ∨ f = 1000 * 1000 ∨ f = 1024 ∨ f = 1024 * 1024 := by
  obtain ⟨a, x, -, -, hx⟩ := h
  simp only [suffixes, List.mem_cons, Prod.mk.injEq, List.not_mem_nil, or_false] at hx
  omega

theorem Reads.product_nonneg {s w : Text} {neg : Bool} {n : Nat} {f : Int}
    (h : Reads s neg n f w) : 0 ≤ (n : Int) * f := by
  rcases h.factor_cases with rfl | rfl | rfl | rfl | rfl <;> omega

theorem factor_cases (t : Text) :
    (factor t).1 = 1 ∨ (factor t).1 = 1000 ∨ (factor t).1 = 1024 ∨
      (factor t).1 = 1000 * 1000 ∨ (factor t).1 = 1024 * 1024 := by
  unfold factor
  split <;> simp

/-- **A number of 32 bits is accepted** when factors are allowed. -/
theorem isNumber_of_number {str : Text} {v : Int} (h : number str = some v)
    (hv : -(2 ^ 31) ≤ v ∧ v < 2 ^ 31) : isNumber str false = some v := by
  obtain ⟨⟨n, rest⟩, hscan, h⟩ := Option.bind_eq_some_iff.1 h
  obtain ⟨hnil, h⟩ := (Option.ite_none_right_eq_some ..).1 h
  have heq : n * (factor rest).1 = v := Option.some.inj h
  obtain ⟨hstrtol, hlen⟩ := strtol_of_scan hscan
  have hn : -(2 ^ 31) ≤ n ∧ n < 2 ^ 31 := by
    rcases factor_cases rest with hf | hf | hf | hf | hf <;> rw [hf] at heq <;> omega
  have hclamp : clamp 64 n = n := by
    rw [clamp_eq_self_iff]
    unfold LONG_MIN LONG_MAX
    omega
  have herange : erange str = false := by
    rw [erange, hscan]
    simp [hclamp]
  have hcheck : checkConstraints n (factor rest).1 = true := by
    unfold checkConstraints LONG_MAX LONG_MIN
    simp only [Bool.not_eq_true', Bool.or_eq_false_iff, decide_eq_false_iff_not]
    rcases factor_cases rest with hf | hf | hf | hf | hf <;> rw [hf]
    · rw [Int.tdiv_one, Int.tdiv_one]
      omega
    · have : (2 ^ 63 - 1 : Int).tdiv 1000 = 9223372036854775 ∧
        (-(2 ^ 63) : Int).tdiv 1000 = -9223372036854775 := by decide
      omega
    · have : (2 ^ 63 - 1 : Int).tdiv 1024 = 9007199254740991 ∧
        (-(2 ^ 63) : Int).tdiv 1024 = -9007199254740992 := by decide
      omega
    · have : (2 ^ 63 - 1 : Int).tdiv (1000 * 1000) = 9223372036854 ∧
        (-(2 ^ 63) : Int).tdiv (1000 * 1000) = -9223372036854 := by decide
      omega
    · have : (2 ^ 63 - 1 : Int).tdiv (1024 * 1024) = 8796093022207 ∧
        (-(2 ^ 63) : Int).tdiv (1024 * 1024) = -8796093022208 := by decide
      omega
  have hmoved : rest.length ≠ str.length := by omega
  unfold isNumber
  simp [herange, hstrtol, hclamp, hcheck, hmoved, hnil, heq]

/-! ## The whole range -/

/-- The factor that is looked for, and what follows it. -/
def factorIf (isStrict : Bool) (rest : Text) : Int × Text :=
  if isStrict = false then factor rest else (1, rest)

theorem factorIf_of_moved {str rest : Text} (isStrict : Bool) (h : rest.length ≠ str.length) :
    (if rest.length ≠ str.length ∧ isStrict = false then factor rest else (1, rest)) =
      factorIf isStrict rest := by
  cases isStrict with
  | false => exact if_pos ⟨h, rfl⟩
  | true => exact if_neg fun h => absurd h.2 (by decide)

/-- What ends behind the factor is read, and strictly without a factor. -/
theorem reads_of_factorIf {str rest : Text} {neg : Bool} {n : Nat} {isStrict : Bool}
    (hs : scanned str = some (neg, n, rest)) (hend : (factorIf isStrict rest).2 = []) :
    Reads str neg n (factorIf isStrict rest).1 [] ∧
      (isStrict = true → (factorIf isStrict rest).1 = 1) := by
  cases isStrict with
  | false => exact ⟨reads_of_scanned (Or.inl rfl) hs (Prod.ext rfl hend), fun h => absurd h (by decide)⟩
  | true =>
    have hrest : rest = [] := hend
    subst hrest
    exact ⟨reads_of_scanned (Or.inl rfl) hs rfl, fun _ => rfl⟩

/-- What is read ends behind the factor. -/
theorem factorIf_of_reads {str rest : Text} {neg neg' : Bool} {n n' : Nat} {f : Int}
    {isStrict : Bool} (hs : scanned str = some (neg, n, rest)) (h : Reads str neg' n' f [])
    (hf : isStrict = true → f = 1) : neg' = neg ∧ n' = n ∧ factorIf isStrict rest = (f, []) := by
  obtain ⟨rest', hs', hfac⟩ := scanned_of_reads (Or.inl rfl) h
  rw [hs] at hs'
  obtain ⟨rfl, h2⟩ := Prod.mk.inj (Option.some.inj hs')
  obtain ⟨rfl, rfl⟩ := Prod.mk.inj h2
  refine ⟨rfl, rfl, ?_⟩
  cases isStrict with
  | false => exact hfac
  | true =>
    obtain ⟨x, hx, hmem⟩ := factor_spec rest
    rw [hfac, hf rfl] at hmem
    rw [hfac, List.append_nil] at hx
    have hnil : x = [] := by
      simp only [suffixes, List.mem_cons, Prod.mk.injEq, List.not_mem_nil, or_false] at hmem
      simpa using hmem
    rw [hf rfl, hx, hnil]
    rfl

theorem erange_of_scanned {str rest : Text} {neg : Bool} {n : Nat}
    (hs : scanned str = some (neg, n, rest)) :
    erange str = false ↔ LONG_MIN ≤ signed neg n ∧ signed neg n ≤ LONG_MAX := by
  rw [erange, scan_eq, hs, Option.map_some, Option.any_some, ← clamp_eq_self_iff, bne_eq_false_iff_eq]

/-- A text without a number is refused. -/
theorem not_reads_of_not_scanned {str : Text} (hs : scanned str = none) {neg : Bool} {n : Nat}
    {f : Int} : ¬ Reads str neg n f [] := by
  intro h
  obtain ⟨rest, hs', -⟩ := scanned_of_reads (Or.inl rfl) h
  rw [hs] at hs'
  cases hs'

/-- A number is accepted when it is a long and its product passes the check. -/
theorem isNumber_iff {str : Text} {isStrict : Bool} {v : Int} :
    isNumber str isStrict = some v ↔ ∃ neg n f, Reads str neg n f [] ∧ (isStrict = true → f = 1) ∧
      (LONG_MIN ≤ signed neg n ∧ signed neg n ≤ LONG_MAX) ∧
      checkConstraints (signed neg n) f = true ∧ v = signed neg n * f := by
  unfold isNumber
  cases hs : scanned str with
  | none =>
    have hdigits : scanDigits (scanSign (str.dropWhile isspace)).2 = none :=
      Option.map_eq_none_iff.1 hs
    have hstrtol : strtol 64 str = (0, str) := by
      unfold strtol
      dsimp only
      rw [hdigits]
    rw [hstrtol]
    constructor
    · intro h
      simp at h
    · rintro ⟨neg, n, f, hreads, -⟩
      exact absurd hreads (not_reads_of_not_scanned hs)
  | some r =>
    obtain ⟨neg, n, rest⟩ := r
    have hscan : scan str = some (signed neg n, rest) := by rw [scan_eq, hs]; rfl
    obtain ⟨hstrtol, hlen⟩ := strtol_of_scan hscan
    have hmoved : rest.length ≠ str.length := by omega
    have herange := erange_of_scanned hs
    have hfac := factorIf_of_moved isStrict hmoved
    rw [hstrtol]
    dsimp only
    rw [hfac]
    constructor
    · intro h
      obtain ⟨hno, h⟩ := (Option.ite_none_left_eq_some ..).1 h
      rw [Bool.not_eq_true, herange] at hno
      rw [clamp_eq_self_iff.2 hno] at h
      obtain ⟨hcheck, h⟩ := (Option.ite_none_left_eq_some ..).1 h
      obtain ⟨⟨hend, -⟩, h⟩ := (Option.ite_none_right_eq_some ..).1 h
      obtain ⟨hreads, hstrict⟩ := reads_of_factorIf hs hend
      exact ⟨neg, n, _, hreads, hstrict, hno, by simpa using hcheck, (Option.some.inj h).symm⟩
    · rintro ⟨neg', n', f, hreads, hstrict, hin, hcheck, rfl⟩
      obtain ⟨rfl, rfl, hf⟩ := factorIf_of_reads hs hreads hstrict
      rw [herange.2 hin, hf, clamp_eq_self_iff.2 hin, if_neg Bool.false_ne_true,
        if_neg (by rw [hcheck]; decide), if_pos ⟨rfl, hmoved⟩]

def ULONG_MAX : Int := 2 ^ 64 - 1

/-- `strtoul(str, &errptr, 0)`: the value and `errptr`, none with `ERANGE`.  A number with a minus
sign is negated in the unsigned type. -/
def strtoul (str : Text) : Option (Int × Text) :=
  match scanned str with
  | none => some (0, str)
  | some (neg, n, rest) => if ULONG_MAX < n then none else some (signed neg n % 2 ^ 64, rest)

/-- `checkConstraints` for unsigned numbers. -/
def checkConstraintsUnsigned (val fac : Int) : Bool :=
  !(decide (2 ^ 63 ≤ val) || decide (ULONG_MAX / fac ≤ val))

def isNumberUnsigned (str : Text) (isStrict : Bool) : Option Int :=
  (strtoul str).bind fun r =>
    let moved := r.2.length ≠ str.length
    let f := if moved ∧ isStrict = false then factor r.2 else (1, r.2)
    if checkConstraintsUnsigned r.1 f.1 = false then none
    else if f.2 = [] ∧ moved then some (r.1 * f.1)
    else none

/-- An unsigned number is accepted when it has 64 bits and its product passes the check, a number
with a minus sign as it is negated. -/
theorem isNumberUnsigned_iff {str : Text} {isStrict : Bool} {v : Int} :
    isNumberUnsigned str isStrict = some v ↔ ∃ neg n f, Reads str neg n f [] ∧
      (isStrict = true → f = 1) ∧ (n : Int) ≤ ULONG_MAX ∧
      checkConstraintsUnsigned (signed neg n % 2 ^ 64) f = true ∧
      v = signed neg n % 2 ^ 64 * f := by
  unfold isNumberUnsigned strtoul
  cases hs : scanned str with
  | none =>
    constructor
    · intro h
      simp at h
    · rintro ⟨neg, n, f, hreads, -⟩
      exact absurd hreads (not_reads_of_not_scanned hs)
  | some r =>
    obtain ⟨neg, n, rest⟩ := r
    have hscan : scan str = some (signed neg n, rest) := by rw [scan_eq, hs]; rfl
    have hmoved : rest.length ≠ str.length := by
      have := (strtol_of_scan hscan).2
      omega
    have hfac := factorIf_of_moved isStrict hmoved
    dsimp only
    constructor
    · intro h
      obtain ⟨r, hr, h⟩ := Option.bind_eq_some_iff.1 h
      obtain ⟨hle, hr⟩ := (Option.ite_none_left_eq_some ..).1 hr
      obtain rfl := Option.some.inj hr
      dsimp only at h
      rw [hfac] at h
      obtain ⟨hcheck, h⟩ := (Option.ite_none_left_eq_some ..).1 h
      obtain ⟨⟨hend, -⟩, h⟩ := (Option.ite_none_right_eq_some ..).1 h
      obtain ⟨hreads, hstrict⟩ := reads_of_factorIf hs hend
      exact ⟨neg, n, _, hreads, hstrict, by omega, by simpa using hcheck, (Option.some.inj h).symm⟩
    · rintro ⟨neg', n', f, hreads, hstrict, hle, hcheck, rfl⟩
      obtain ⟨rfl, rfl, hf⟩ := factorIf_of_reads hs hreads hstrict
      rw [if_neg (by omega), Option.bind_some]
      dsimp only
      rw [hfac, hf, if_neg (by rw [hcheck]; decide), if_pos ⟨rfl, hmoved⟩]

/-- The number that a text stands for: a numeral, with a suffix unless that is forbidden, whose
product is a long. -/
def Stands (str : Text) (isStrict : Bool) (v : Int) : Prop :=
  ∃ neg n f, Reads str neg n f [] ∧ (isStrict = true → f = 1) ∧ v = signed neg n * f ∧
    LONG_MIN ≤ v ∧ v ≤ LONG_MAX

/-- The same for an unsigned long, without a minus sign. -/
def StandsUnsigned (str : Text) (isStrict : Bool) (v : Int) : Prop :=
  ∃ n f, Reads str false n f [] ∧ (isStrict = true → f = 1) ∧ v = n * f ∧ v ≤ ULONG_MAX

/-- A number whose product is a long is neither the largest nor the smallest one with that factor. -/
def Inner (str : Text) (isStrict : Bool) : Prop :=
  ∀ neg n f, Reads str neg n f [] → (isStrict = true → f = 1) →
    LONG_MIN ≤ signed neg n * f → signed neg n * f ≤ LONG_MAX →
      signed neg n ≠ LONG_MAX.tdiv f ∧ signed neg n ≠ LONG_MIN.tdiv f

/-- A number without a minus sign whose product is an unsigned long is below `2 ^ 63` and not the
largest one with its factor; one with a minus sign is too long, or what it is negated to has the
upper bit or is too large for its factor. -/
def InnerUnsigned (str : Text) (isStrict : Bool) : Prop :=
  (∀ n f, Reads str false n f [] → (isStrict = true → f = 1) → n * f ≤ ULONG_MAX →
    (n : Int) < 2 ^ 63 ∧ (n : Int) ≠ ULONG_MAX / f) ∧
  ∀ n f, Reads str true n f [] → (isStrict = true → f = 1) →
    ULONG_MAX < n ∨ 2 ^ 63 ≤ -(n : Int) % 2 ^ 64 ∨ ULONG_MAX / f ≤ -(n : Int) % 2 ^ 64

theorem LONG_MIN_tdiv (f : Int) : LONG_MIN.tdiv f = -((2 ^ 63 : Int).tdiv f) :=
  Int.neg_tdiv ..

/-- The check of a product with one factor. -/
theorem checkConstraints_iff {z f : Int} (hpos : 0 < f) (hle : f ≤ LONG_MAX) :
    checkConstraints z f = true ↔ (LONG_MIN ≤ z * f ∧ z * f ≤ LONG_MAX) ∧
      z ≠ LONG_MAX.tdiv f ∧ z ≠ LONG_MIN.tdiv f := by
  have hmin : LONG_MIN = -(2 ^ 63) := rfl
  have hmax : LONG_MAX = 2 ^ 63 - 1 := rfl
  have hq : LONG_MAX.tdiv f = LONG_MAX / f := Int.tdiv_eq_ediv_of_nonneg (by omega)
  have hp : LONG_MIN.tdiv f = -((2 ^ 63 : Int) / f) := by
    rw [LONG_MIN_tdiv, Int.tdiv_eq_ediv_of_nonneg (by omega)]
  have h1 : z ≤ LONG_MAX / f ↔ z * f ≤ LONG_MAX := Int.le_ediv_iff_mul_le hpos
  have h2 : -z ≤ (2 ^ 63 : Int) / f ↔ -z * f ≤ 2 ^ 63 := Int.le_ediv_iff_mul_le hpos
  have hq1 : 1 ≤ LONG_MAX / f := (Int.le_ediv_iff_mul_le hpos).2 (by omega)
  have hp1 : 1 ≤ (2 ^ 63 : Int) / f := (Int.le_ediv_iff_mul_le hpos).2 (by omega)
  rw [Int.neg_mul] at h2
  unfold checkConstraints
  rw [hq, hp]
  simp only [Bool.not_eq_true', Bool.or_eq_false_iff, decide_eq_false_iff_not]
  rw [← h1, hmin]
  constructor
  · rintro ⟨ha, hb⟩
    have hlow := h2.1 (by omega)
    omega
  · rintro ⟨⟨ha, hb⟩, hc, hd⟩
    have hlow := h2.2 (by omega)
    omega

theorem Reads.factor_le {s w : Text} {neg : Bool} {n : Nat} {f : Int} (h : Reads s neg n f w) :
    0 < f ∧ f ≤ LONG_MAX := by
  have hmax : LONG_MAX = 2 ^ 63 - 1 := rfl
  have hcases := h.factor_cases
  omega

/-- A product in a range around zero has its first factor there. -/
theorem Reads.in_range {s w : Text} {neg : Bool} {n : Nat} {f z : Int} (h : Reads s neg n f w)
    (hz : LONG_MIN ≤ z * f ∧ z * f ≤ LONG_MAX) : LONG_MIN ≤ z ∧ z ≤ LONG_MAX := by
  have hmin : LONG_MIN = -(2 ^ 63) := rfl
  have hmax : LONG_MAX = 2 ^ 63 - 1 := rfl
  rcases h.factor_cases with rfl | rfl | rfl | rfl | rfl <;> omega

theorem isNumber_signed (str : Text) (isStrict : Bool) :
    (∀ v, isNumber str isStrict = some v ↔ Stands str isStrict v) ↔ Inner str isStrict := by
  constructor
  · intro h neg n f hreads hstrict hlow hhigh
    obtain ⟨neg', n', f', hreads', -, -, hcheck, -⟩ :=
      isNumber_iff.1 ((h _).2 ⟨neg, n, f, hreads, hstrict, rfl, hlow, hhigh⟩)
    obtain ⟨rfl, rfl, rfl, -⟩ := hreads.unique (Or.inl rfl) (Or.inl rfl) hreads'
    exact ((checkConstraints_iff hreads.factor_le.1 hreads.factor_le.2).1 hcheck).2
  · intro h v
    rw [isNumber_iff]
    constructor
    · rintro ⟨neg, n, f, hreads, hstrict, -, hcheck, rfl⟩
      have hin := ((checkConstraints_iff hreads.factor_le.1 hreads.factor_le.2).1 hcheck).1
      exact ⟨neg, n, f, hreads, hstrict, rfl, hin.1, hin.2⟩
    · rintro ⟨neg, n, f, hreads, hstrict, rfl, hlow, hhigh⟩
      refine ⟨neg, n, f, hreads, hstrict, hreads.in_range ⟨hlow, hhigh⟩, ?_, rfl⟩
      exact (checkConstraints_iff hreads.factor_le.1 hreads.factor_le.2).2
        ⟨⟨hlow, hhigh⟩, h neg n f hreads hstrict hlow hhigh⟩

theorem checkConstraintsUnsigned_iff {val fac : Int} :
    checkConstraintsUnsigned val fac = true ↔ val < 2 ^ 63 ∧ val < ULONG_MAX / fac := by
  unfold checkConstraintsUnsigned
  simp only [Bool.not_eq_true', Bool.or_eq_false_iff, decide_eq_false_iff_not]
  omega

/-- A number of 64 bits is what it is. -/
theorem signed_emod {n : Nat} (h : (n : Int) ≤ ULONG_MAX) : signed false n % 2 ^ 64 = n := by
  have hmax : ULONG_MAX = 2 ^ 64 - 1 := rfl
  show (n : Int) % 2 ^ 64 = n
  exact Int.emod_eq_of_lt (Int.natCast_nonneg n) (by omega)

theorem isNumber_unsigned (str : Text) (isStrict : Bool) :
    (∀ v, isNumberUnsigned str isStrict = some v ↔ StandsUnsigned str isStrict v) ↔
      InnerUnsigned str isStrict := by
  constructor
  · intro h
    constructor
    · intro n f hreads hstrict hle
      obtain ⟨neg', n', f', hreads', -, hn, hcheck, -⟩ :=
        isNumberUnsigned_iff.1 ((h _).2 ⟨n, f, hreads, hstrict, rfl, hle⟩)
      obtain ⟨rfl, rfl, rfl, -⟩ := hreads.unique (Or.inl rfl) (Or.inl rfl) hreads'
      rw [signed_emod hn, checkConstraintsUnsigned_iff] at hcheck
      omega
    · intro n f hreads hstrict
      by_contra hno
      obtain ⟨hn, hrest⟩ := not_or.1 hno
      obtain ⟨h1, h2⟩ := not_or.1 hrest
      have hcode := isNumberUnsigned_iff.2 ⟨true, n, f, hreads, hstrict, by omega,
        checkConstraintsUnsigned_iff.2 ⟨by simpa [signed] using h1, by simpa [signed] using h2⟩, rfl⟩
      obtain ⟨n', f', hreads', -⟩ := (h _).1 hcode
      obtain ⟨hneg, -⟩ := hreads.unique (Or.inl rfl) (Or.inl rfl) hreads'
      cases hneg
  · rintro ⟨hplus, hminus⟩ v
    rw [isNumberUnsigned_iff]
    constructor
    · rintro ⟨neg, n, f, hreads, hstrict, hn, hcheck, rfl⟩
      rw [checkConstraintsUnsigned_iff] at hcheck
      cases neg with
      | false =>
        rw [signed_emod hn] at hcheck ⊢
        exact ⟨n, f, hreads, hstrict, rfl,
          (Int.le_ediv_iff_mul_le hreads.factor_le.1).1 (Int.le_of_lt hcheck.2)⟩
      | true =>
        have hbad := hminus n f hreads hstrict
        have hz : signed true n = -(n : Int) := rfl
        rw [hz] at hcheck
        omega
    · rintro ⟨n, f, hreads, hstrict, rfl, hle⟩
      obtain ⟨h1, h2⟩ := hplus n f hreads hstrict hle
      have hmax : ULONG_MAX = 2 ^ 64 - 1 := rfl
      have hn : (n : Int) ≤ ULONG_MAX := by omega
      have hq := (Int.le_ediv_iff_mul_le hreads.factor_le.1).2 hle
      refine ⟨false, n, f, hreads, hstrict, hn, ?_, by rw [signed_emod hn]⟩
      rw [signed_emod hn, checkConstraintsUnsigned_iff]
      omega

/-- **Which numbers the two functions get right.** -/
theorem isNumber_exact (str : CStr) (isStrict : Bool) :
    ((∀ v, isNumber str.text isStrict = some v ↔ Stands str.text isStrict v) ↔
      Inner str.text isStrict) ∧
    ((∀ v, isNumberUnsigned str.text isStrict = some v ↔ StandsUnsigned str.text isStrict v) ↔
      InnerUnsigned str.text isStrict) :=
  ⟨isNumber_signed str.text isStrict, isNumber_unsigned str.text isStrict⟩

/-- The largest long is refused, and a number with a minus sign is taken for a positive one. -/
theorem isNumber_longMax :
    (¬ ∀ v, isNumber "9223372036854775807".toList true = some v ↔
      Stands "9223372036854775807".toList true v) ∧
    ¬ ∀ v, isNumberUnsigned "-18446744073709551615".toList true = some v ↔
      StandsUnsigned "-18446744073709551615".toList true v := by
  constructor
  · intro h
    have hcode : isNumber "9223372036854775807".toList true = none := by decide +kernel
    have hstands : Stands "9223372036854775807".toList true 9223372036854775807 :=
      ⟨false, 9223372036854775807, 1, ⟨_, [], (List.append_nil _).symm, by decide +kernel, by decide⟩,
        fun _ => rfl, by decide, by decide, by decide⟩
    have := (h _).2 hstands
    rw [hcode] at this
    cases this
  · intro h
    have hcode : isNumberUnsigned "-18446744073709551615".toList true = some 1 := by decide +kernel
    obtain ⟨n, f, hreads, -⟩ := (h _).1 hcode
    have hreads' : Reads "-18446744073709551615".toList true 18446744073709551615 1 [] :=
      ⟨_, [], (List.append_nil _).symm, by decide +kernel, by decide⟩
    obtain ⟨hneg, -⟩ := hreads.unique (Or.inl rfl) (Or.inl rfl) hreads'
    cases hneg

end IsNumber
