import Mathlib.Algebra.Group.Int.Defs
import Mathlib.Algebra.GroupWithZero.Nat
import Mathlib.Data.List.TakeWhile

/-!
# C strings and the number scanner of the C library

A `char const *` is modelled by the text it points at, up to and not including the
terminating NUL: advancing the pointer drops characters, and two pointers into one
string are compared by the lengths of their texts.

* `charAt` — `s[i]`, which reads the NUL at the end of the text.
* `strncasecmp` — equality of the first `n` characters in the C locale.
* `strtol` — base-0 conversion with leading blanks, sign, `0x`/`0` prefixes, clamping to the
  width of the return type, and the end pointer.
* `cNumeral` — an unsigned numeral of the C language (decimal, octal or hexadecimal).

Principal results: `strtol_append` (a character that can not continue a number shields the
scan from what follows) and `strtol_consumes_iff` (the scanner consumes a whole text exactly
when the text is a C numeral behind optional blanks and an optional sign).
-/

set_option autoImplicit false

namespace CString

/-- The text a `char const *` points at. -/
abbrev Text := List Char

instance : LawfulBEq Text := inferInstanceAs (LawfulBEq (List Char))

/-- A NUL-terminated string: its text holds no NUL. -/
structure CStr where
  text : Text
  noNul : '\x00' ∉ text

/-- `s[i]`, where the position just behind the text holds the NUL. -/
def charAt (s : Text) (i : Nat) : Char := s.getD i '\x00'

/-- What can be tested for each character of a text. -/
theorem forall_mem_of_all {p : Char → Prop} [DecidablePred p] {t : Text}
    (h : t.all (fun c => decide (p c)) = true) : ∀ c ∈ t, p c := fun c hc =>
  of_decide_eq_true (List.all_eq_true.1 h c hc)

@[simp] theorem charAt_nil (i : Nat) : charAt [] i = '\x00' := by simp [charAt]

@[simp] theorem charAt_cons_zero (c : Char) (s : Text) : charAt (c :: s) 0 = c := rfl

theorem charAt_append_length (t r : Text) : charAt (t ++ r) t.length = charAt r 0 := by
  simp [charAt, List.getD_eq_getElem?_getD, List.getElem?_append_right]

/-- `isspace` in the C locale. -/
def isspace (c : Char) : Bool := c == ' ' || (9 ≤ c.toNat && c.toNat ≤ 13)

/-- The text in lower case (`tolower` in the C locale). -/
def lower (t : Text) : Text := t.map Char.toLower

@[simp] theorem lower_length (t : Text) : (lower t).length = t.length := by simp [lower]

/-- `strncasecmp(a, b, n) == 0`. -/
def strncasecmp : Text → Text → Nat → Bool
  | _, _, 0 => true
  | [], [], _ + 1 => true
  | x :: a, y :: b, n + 1 => x.toLower == y.toLower && strncasecmp a b n
  | _, _, _ + 1 => false

theorem strncasecmp_iff : ∀ (a b : Text) (n : Nat),
    strncasecmp a b n = true ↔ lower (a.take n) = lower (b.take n)
  | _, _, 0 => by simp [strncasecmp]
  | [], [], _ + 1 => by simp [strncasecmp]
  | [], _ :: _, _ + 1 => by simp [strncasecmp, lower]
  | _ :: _, [], _ + 1 => by simp [strncasecmp, lower]
  | x :: a, y :: b, n + 1 => by
    have ih := strncasecmp_iff a b n
    simp only [strncasecmp, Bool.and_eq_true, beq_iff_eq, ih]
    simp [lower]

/-- The comparison looks at the first `n` characters only. -/
theorem strncasecmp_append (t r b : Text) :
    strncasecmp (t ++ r) b t.length = strncasecmp t b t.length := by
  rw [Bool.eq_iff_iff, strncasecmp_iff, strncasecmp_iff]
  simp

/-- `strncmp(a, b, n) == 0`. -/
def strncmp : Text → Text → Nat → Bool
  | _, _, 0 => true
  | [], [], _ + 1 => true
  | x :: a, y :: b, n + 1 => x == y && strncmp a b n
  | _, _, _ + 1 => false

/-- Compared as far as one of the texts goes, the other starts with it. -/
theorem strncmp_append (a t r : Text) : strncmp a (t ++ r) t.length = t.isPrefixOf a := by
  induction t generalizing a with
  | nil => rw [List.length_nil, strncmp, List.isPrefixOf]
  | cons y t ih =>
    cases a with
    | nil => rfl
    | cons x a =>
      rw [List.cons_append, List.length_cons, strncmp, ih, List.isPrefixOf, Bool.beq_comm]

/-- `strchr(s, c)`: the text from the first `c` on, none when there is no `c`. -/
def strchr (s : Text) (c : Char) : Option Text :=
  match s.dropWhile (· != c) with
  | [] => none
  | p => some p

theorem bne_of_not_mem {c : Char} {t : Text} (h : c ∉ t) : ∀ x ∈ t, (x != c) = true := by
  intro x hx
  rw [bne_iff_ne]
  rintro rfl
  exact h hx

theorem strchr_append {t r : Text} {c : Char} (h : c ∉ t) :
    strchr (t ++ c :: r) c = some (c :: r) := by
  have hd : (t ++ c :: r).dropWhile (· != c) = c :: r := by
    rw [List.dropWhile_append_of_pos (bne_of_not_mem h)]
    simp
  simp [strchr, hd]

theorem strchr_append_not_mem {t r : Text} {c : Char} (h : c ∉ t) :
    strchr (t ++ r) c = strchr r c := by
  unfold strchr
  rw [List.dropWhile_append_of_pos (bne_of_not_mem h)]

/-- What `strchr` finds is a suffix that starts with the character. -/
theorem strchr_some {s p : Text} {c : Char} (h : strchr s c = some p) :
    ∃ t r, c ∉ t ∧ p = c :: r ∧ s = t ++ c :: r := by
  unfold strchr at h
  split at h
  · cases h
  · rename_i hne
    cases h
    have hs := List.takeWhile_append_dropWhile (p := (· != c)) (l := s)
    cases hd : s.dropWhile (· != c) with
    | nil => exact absurd hd hne
    | cons y r =>
      have hy : y = c := by
        have := List.head_dropWhile_not (· != c) (l := s) (by simp [hd])
        simpa [hd] using this
      subst hy
      refine ⟨s.takeWhile (· != y), r, ?_, rfl, by rw [← hd, hs]⟩
      intro hm
      simpa using List.mem_takeWhile_imp hm

theorem strchr_none {s : Text} {c : Char} (h : strchr s c = none) : c ∉ s := by
  unfold strchr at h
  split at h
  · rename_i hd
    intro hm
    simpa using List.dropWhile_eq_nil_iff.1 hd c hm
  · cases h

/-- A text holds no `c`, or splits at its first one. -/
theorem strchr_cases (s : Text) (c : Char) : c ∉ s ∨ ∃ t r, c ∉ t ∧ s = t ++ c :: r := by
  cases h : strchr s c with
  | none => exact Or.inl (strchr_none h)
  | some p =>
    obtain ⟨t, r, ht, -, hs⟩ := strchr_some h
    exact Or.inr ⟨t, r, ht, hs⟩

theorem not_mem_of_mem_splitOn (c : Char) (s : Text) : ∀ l ∈ s.splitOn c, c ∉ l := by
  rcases strchr_cases s c with hs | ⟨t, r, ht, rfl⟩
  · rw [List.splitOn_eq_singleton hs]
    simpa using hs
  · rw [List.splitOn_append_cons_self, List.splitOn_eq_singleton ht]
    intro l hl
    rcases List.mem_append.1 hl with hl | hl
    · rwa [List.mem_singleton.1 hl]
    · exact not_mem_of_mem_splitOn c r l hl
  termination_by s.length

theorem subset_of_mem_splitOn (c : Char) (s : Text) : ∀ l ∈ s.splitOn c, l ⊆ s := by
  rcases strchr_cases s c with hs | ⟨t, r, ht, rfl⟩
  · rw [List.splitOn_eq_singleton hs]
    simp
  · rw [List.splitOn_append_cons_self, List.splitOn_eq_singleton ht]
    intro l hl
    rcases List.mem_append.1 hl with hl | hl
    · rw [List.mem_singleton.1 hl]
      exact List.subset_append_left _ _
    · refine List.Subset.trans (subset_of_mem_splitOn c r l hl) ?_
      exact List.Subset.trans (List.subset_cons_self c r) (List.subset_append_right t _)
  termination_by s.length

/-! ## Digits -/

/-- The value of a digit in any base up to 36. -/
def digitVal (c : Char) : Option Nat :=
  if 48 ≤ c.toNat ∧ c.toNat ≤ 57 then some (c.toNat - 48)
  else if 97 ≤ c.toNat ∧ c.toNat ≤ 122 then some (c.toNat - 87)
  else if 65 ≤ c.toNat ∧ c.toNat ≤ 90 then some (c.toNat - 55)
  else none

/-- `c` is a digit of base `b`. -/
def isDigitIn (b : Nat) (c : Char) : Bool :=
  match digitVal c with
  | some d => d < b
  | none => false

/-- The positional value of a run of digits. -/
def digitsVal (b : Nat) (ds : Text) : Nat :=
  ds.foldl (fun n c => n * b + (digitVal c).getD 0) 0

theorem isDigitIn_of_none {b : Nat} {c : Char} (h : digitVal c = none) : isDigitIn b c = false := by
  simp [isDigitIn, h]

/-- The base that `strtol(…, 0)` reads off the start of the number, and where its digits start. -/
def detectBase : Text → Nat × Text
  | '0' :: x :: c :: s =>
    if (x = 'x' ∨ x = 'X') ∧ isDigitIn 16 c = true then (16, c :: s) else (8, '0' :: x :: c :: s)
  | '0' :: s => (8, '0' :: s)
  | s => (10, s)

/-- The digits at the start of a text: their value and what follows them. -/
def scanDigits (s : Text) : Option (Nat × Text) :=
  let d := detectBase s
  let run := d.2.takeWhile (isDigitIn d.1)
  if run = [] then none else some (digitsVal d.1 run, d.2.dropWhile (isDigitIn d.1))

/-- The optional sign. -/
def scanSign : Text → Bool × Text
  | '-' :: s => (true, s)
  | '+' :: s => (false, s)
  | s => (false, s)

/-- Saturation at the limits of a signed type of `bits` bits (`ERANGE`). -/
def clamp (bits : Nat) (v : Int) : Int :=
  max (-(2 ^ (bits - 1))) (min (2 ^ (bits - 1) - 1) v)

theorem clamp_of_lt {bits : Nat} {n : Nat} (h : n < 2 ^ (bits - 1)) : clamp bits n = n := by
  have : (n : Int) < 2 ^ (bits - 1) := by exact_mod_cast h
  unfold clamp
  omega

/-- `strtol(s, &err_ptr, 0)` for a return type of `bits` bits: the value and `err_ptr`.  Without
a number the value is 0 and `err_ptr` is `s`. -/
def strtol (bits : Nat) (s : Text) : Int × Text :=
  let sg := scanSign (s.dropWhile isspace)
  match scanDigits sg.2 with
  | none => (0, s)
  | some (n, rest) => (clamp bits (if sg.1 then -(n : Int) else n), rest)

/-! ## What follows a number -/

/-- `c` is no part of a number: no digit of the bases that `strtol` finds, no `x` and no sign. -/
structure NumberEnd (c : Char) : Prop where
  digit : isDigitIn 16 c = false
  hex : ¬ (c = 'x' ∨ c = 'X')
  minus : c ≠ '-'
  plus : c ≠ '+'

theorem NumberEnd.isDigitIn {c : Char} (h : NumberEnd c) {b : Nat} (hb : b ≤ 16) :
    isDigitIn b c = false := by
  have hdigit := h.digit
  unfold CString.isDigitIn at hdigit ⊢
  cases hc : digitVal c with
  | none => rfl
  | some d =>
    rw [hc] at hdigit
    simp only [decide_eq_false_iff_not] at hdigit ⊢
    omega

theorem NumberEnd.ne_zero {c : Char} (h : NumberEnd c) : c ≠ '0' := by
  rintro rfl
  exact absurd h.digit (by decide)

theorem detectBase_le (t : Text) : (detectBase t).1 ≤ 16 := by
  unfold detectBase
  split
  · split <;> simp
  · simp
  · simp

theorem numberEnd_comma : NumberEnd ',' := ⟨by decide, by decide, by decide, by decide⟩

theorem takeWhile_append_stop {p : Char → Bool} {c : Char} (hc : p c = false) (t r : Text) :
    (t ++ c :: r).takeWhile p = t.takeWhile p := by
  induction t with
  | nil => simp [hc]
  | cons x t ih => simp only [List.cons_append, List.takeWhile_cons]; split <;> simp [ih]

theorem takeWhile_bne {c : Char} {t : Text} (h : c ∉ t) : t.takeWhile (· != c) = t :=
  List.takeWhile_eq_self_iff.2 (bne_of_not_mem h)

theorem takeWhile_bne_stop {c : Char} {t : Text} (h : c ∉ t) (r : Text) :
    (t ++ c :: r).takeWhile (· != c) = t := by
  rw [takeWhile_append_stop (by simp), takeWhile_bne h]

/-- `strrchr(s, c)`, as a place in `s` -/
def strrchr (s : Text) (c : Char) : Option Nat :=
  if c ∈ s then some (s.length - (s.reverse.takeWhile (· != c)).length - 1) else none

theorem strrchr_none {s : Text} {c : Char} (h : c ∉ s) : strrchr s c = none := if_neg h

theorem strrchr_last (s : Text) {t : Text} {c : Char} (h : c ∉ t) :
    strrchr (s ++ c :: t) c = some s.length := by
  have hback : (s ++ c :: t).reverse = t.reverse ++ c :: s.reverse := by simp
  have htake : (s ++ c :: t).reverse.takeWhile (· != c) = t.reverse := by
    rw [hback, takeWhile_bne_stop (by simpa using h)]
  rw [strrchr, if_pos (by simp), htake, List.length_append, List.length_cons, List.length_reverse]
  congr 1
  omega

/-- What stands before the last such character, and behind it. -/
theorem strrchr_split {s : Text} {c : Char} {i : Nat} (h : strrchr s c = some i) :
    s.take i ++ c :: s.drop (i + 1) = s := by
  have hmem : c ∈ s := by
    by_contra hnot
    rw [strrchr_none hnot] at h
    cases h
  obtain ⟨t, r, hrev, ht⟩ := List.eq_append_cons_of_mem (List.mem_reverse.2 hmem)
  have hs : s = r.reverse ++ c :: t.reverse := by
    rw [← List.reverse_reverse s, hrev]
    simp
  rw [hs, strrchr_last _ (by simpa using ht)] at h
  obtain rfl := Option.some.inj h
  rw [hs, List.take_left, List.drop_length_add_append, List.drop_succ_cons, List.drop_zero]

theorem dropWhile_append_stop {p : Char → Bool} {c : Char} (hc : p c = false) (t r : Text) :
    (t ++ c :: r).dropWhile p = t.dropWhile p ++ c :: r := by
  induction t with
  | nil => simp [hc]
  | cons x t ih => simp only [List.cons_append, List.dropWhile_cons]; split <;> simp [ih]

theorem dropWhile_append_ne_nil {p : Char → Bool} {t : Text} (h : t.dropWhile p ≠ []) (r : Text) :
    (t ++ r).dropWhile p = t.dropWhile p ++ r := by
  induction t with
  | nil => simp at h
  | cons x t ih =>
    simp only [List.dropWhile_cons] at h
    simp only [List.cons_append, List.dropWhile_cons]
    split
    · rename_i hx
      rw [if_pos hx] at h
      exact ih h
    · rfl

theorem detectBase_append {c : Char} (hc : NumberEnd c) (t r : Text) :
    (detectBase (t ++ c :: r)).1 = (detectBase t).1 ∧
      (detectBase (t ++ c :: r)).2 = (detectBase t).2 ++ c :: r := by
  have hx := hc.hex
  have h0 := hc.ne_zero
  have h16 := hc.digit
  match t with
  | [] => simp [detectBase, h0]
  | [x] =>
    by_cases hx0 : x = '0'
    · subst hx0
      cases r with
      | nil => simp [detectBase]
      | cons y r => simp [detectBase, hx]
    · simp [detectBase, hx0]
  | [x, y] =>
    by_cases hx0 : x = '0'
    · subst hx0; simp [detectBase, h16]
    · simp [detectBase, hx0]
  | x :: y :: z :: t =>
    by_cases hx0 : x = '0'
    · subst hx0
      by_cases hy : (y = 'x' ∨ y = 'X') ∧ isDigitIn 16 z = true
      · simp [detectBase, hy]
      · simp [detectBase, hy]
    · simp [detectBase, hx0]

theorem scanDigits_append {c : Char} (hc : NumberEnd c) (t r : Text) :
    scanDigits (t ++ c :: r) = (scanDigits t).map fun p => (p.1, p.2 ++ c :: r) := by
  obtain ⟨hb, hd⟩ := detectBase_append hc t r
  have hs : isDigitIn (detectBase t).1 c = false := hc.isDigitIn (detectBase_le t)
  simp only [scanDigits, hb, hd, takeWhile_append_stop hs, dropWhile_append_stop hs]
  split <;> rfl

theorem scanSign_append {c : Char} (hc : NumberEnd c) (t r : Text) :
    (scanSign (t ++ c :: r)).1 = (scanSign t).1 ∧
      (scanSign (t ++ c :: r)).2 = (scanSign t).2 ++ c :: r := by
  cases t with
  | nil => simp [scanSign, hc.minus, hc.plus]
  | cons x t =>
    by_cases hm : x = '-'
    · subst hm; simp [scanSign]
    · by_cases hp : x = '+'
      · subst hp; simp [scanSign]
      · simp [scanSign, hm, hp]

/-- **Shielding**: the scan of `t` is not affected by a character that can not continue a number,
provided that the leading blanks of the number end inside `t` or at that character. -/
theorem strtol_append {c : Char} (hc : NumberEnd c) {t : Text}
    (hb : isspace c = false ∨ t.dropWhile isspace ≠ []) (bits : Nat) (r : Text) :
    strtol bits (t ++ c :: r) = ((strtol bits t).1, (strtol bits t).2 ++ c :: r) := by
  have hdrop : (t ++ c :: r).dropWhile isspace = t.dropWhile isspace ++ c :: r := by
    rcases hb with hb | hb
    · exact dropWhile_append_stop hb t r
    · exact dropWhile_append_ne_nil hb (c :: r)
  obtain ⟨hs1, hs2⟩ := scanSign_append hc (t.dropWhile isspace) r
  simp only [strtol, hdrop, hs1, hs2, scanDigits_append hc]
  cases scanDigits (scanSign (t.dropWhile isspace)).2 with
  | none => rfl
  | some p => rfl

/-- A character inside `t` that ends every number keeps the scan in `t`. -/
theorem strtol_append_inside {c : Char} (hc : NumberEnd c) {t u v : Text}
    (ht : t.dropWhile isspace = u ++ c :: v) (bits : Nat) (f : Text) :
    strtol bits (t ++ f) = ((strtol bits t).1, (strtol bits t).2 ++ f) := by
  have hdrop : (t ++ f).dropWhile isspace = u ++ c :: (v ++ f) := by
    rw [dropWhile_append_ne_nil (by rw [ht]; simp), ht, List.append_assoc, List.cons_append]
  obtain ⟨hf1, hf2⟩ := scanSign_append hc u (v ++ f)
  obtain ⟨ht1, ht2⟩ := scanSign_append hc u v
  simp only [strtol, hdrop, ht, hf1, hf2, ht1, ht2, scanDigits_append hc]
  cases scanDigits (scanSign u).2 with
  | none => rfl
  | some p => simp

/-- Behind its blanks the text starts with neither a digit nor a sign. -/
def beginsName (t : Text) : Bool :=
  match t.dropWhile isspace with
  | [] => false
  | c :: _ => !isDigitIn 10 c && c != '-' && c != '+'

theorem beginsName_append {t : Text} (h : beginsName t = true) (f : Text) :
    beginsName (t ++ f) = true := by
  have hne : t.dropWhile isspace ≠ [] := by
    intro hnil
    rw [beginsName, hnil] at h
    cases h
  obtain ⟨c, r, hr⟩ := List.exists_cons_of_ne_nil hne
  rw [beginsName, dropWhile_append_ne_nil hne, hr, List.cons_append]
  rwa [beginsName, hr] at h

/-- No number is scanned where a name begins. -/
theorem strtol_beginsName {t : Text} (h : beginsName t = true) (bits : Nat) :
    strtol bits t = (0, t) := by
  unfold beginsName at h
  split at h
  · cases h
  rename_i c r hdrop
  simp only [Bool.and_eq_true, Bool.not_eq_true', bne_iff_ne] at h
  obtain ⟨⟨hdigit, hminus⟩, hplus⟩ := h
  have hzero : c ≠ '0' := by
    rintro rfl
    exact absurd hdigit (by decide)
  have hsign : scanSign (c :: r) = (false, c :: r) := by simp [scanSign, hminus, hplus]
  have hbase : detectBase (c :: r) = (10, c :: r) := by simp [detectBase, hzero]
  have hscan : scanDigits (c :: r) = none := by
    simp [scanDigits, hbase, hdigit]
  simp only [strtol, hdrop, hsign, hscan]

/-! ## Numerals -/

/-- An unsigned numeral of the C language, without suffix. -/
def cNumeral : Text → Option Nat
  | [] => none
  | ['0'] => some 0
  | '0' :: x :: ds =>
    if x = 'x' ∨ x = 'X' then
      if ds ≠ [] ∧ ds.all (isDigitIn 16) = true then some (digitsVal 16 ds) else none
    else if (x :: ds).all (isDigitIn 8) = true then some (digitsVal 8 (x :: ds)) else none
  | c :: ds =>
    if (c :: ds).all (isDigitIn 10) = true then some (digitsVal 10 (c :: ds)) else none

theorem cNumeral_decimal {c : Char} (hc : c ≠ '0') (ds : Text) :
    cNumeral (c :: ds) =
      if (c :: ds).all (isDigitIn 10) = true then some (digitsVal 10 (c :: ds)) else none := by
  unfold cNumeral
  split
  · rename_i h; cases h
  · rename_i h; simp only [List.cons.injEq] at h; exact absurd h.1 hc
  · rename_i h; simp only [List.cons.injEq] at h; exact absurd h.1 hc
  · rename_i h; cases h; rfl

theorem takeWhile_eq_self_of_dropWhile {p : Char → Bool} {t : Text} (h : t.dropWhile p = []) :
    t.takeWhile p = t := by
  have := List.takeWhile_append_dropWhile (p := p) (l := t)
  rwa [h, List.append_nil] at this

/-- A run of digits uses up a text exactly when all its characters are digits. -/
theorem run_consumes_iff (b n : Nat) (t : Text) :
    (if t.takeWhile (isDigitIn b) = [] then none
      else some (digitsVal b (t.takeWhile (isDigitIn b)), t.dropWhile (isDigitIn b))) =
        some (n, ([] : Text)) ↔
      t ≠ [] ∧ t.all (isDigitIn b) = true ∧ digitsVal b t = n := by
  constructor
  · intro h
    split at h
    · cases h
    · rename_i hne
      simp only [Option.some.injEq, Prod.mk.injEq] at h
      have ht := takeWhile_eq_self_of_dropWhile h.2
      rw [ht] at hne h
      refine ⟨hne, ?_, h.1⟩
      rw [List.all_eq_true]
      intro x hx
      rw [← ht] at hx
      exact List.mem_takeWhile_imp hx
  · rintro ⟨hne, hall, hv⟩
    rw [List.all_eq_true] at hall
    rw [List.takeWhile_eq_self_iff.2 hall, List.dropWhile_eq_nil_iff.2 hall, if_neg hne, hv]

theorem digitsVal_zero_cons (b : Nat) (ds : Text) : digitsVal b ('0' :: ds) = digitsVal b ds := by
  have h0 : digitVal '0' = some 0 := by decide
  simp [digitsVal, h0]

theorem scanDigits_octal {b : Nat} (hb : 0 < b) (x : Char) (ds : Text) :
    ('0' :: x :: ds).all (isDigitIn b) = (x :: ds).all (isDigitIn b) := by
  have h0 : isDigitIn b '0' = true := by
    have : digitVal '0' = some 0 := by decide
    simp [isDigitIn, this, hb]
  rw [List.all_cons, h0, Bool.true_and]

/-- The scanner uses up a text exactly when it is a numeral. -/
theorem scanDigits_consumes_iff (t : Text) (n : Nat) :
    scanDigits t = some (n, []) ↔ cNumeral t = some n := by
  match t with
  | [] => simp [scanDigits, detectBase, cNumeral]
  | [c] =>
    by_cases hc : c = '0'
    · subst hc
      have : scanDigits ['0'] = some (0, []) := by decide
      rw [this]
      simp [cNumeral]
    · have hd : detectBase [c] = (10, [c]) := by simp [detectBase, hc]
      simp only [scanDigits, hd, run_consumes_iff, cNumeral_decimal hc,
        Option.ite_none_right_eq_some, Option.some.injEq]
      simp
  | c :: x :: ds =>
    by_cases hc : c = '0'
    · subst hc
      by_cases hx : x = 'x' ∨ x = 'X'
      · cases ds with
        | nil =>
          have hs : scanDigits ('0' :: x :: []) = some (0, [x]) := by
            rcases hx with rfl | rfl <;> decide
          simp [hs, cNumeral, hx]
        | cons y ds =>
          by_cases hy : isDigitIn 16 y = true
          · have hd : detectBase ('0' :: x :: y :: ds) = (16, y :: ds) := by
              simp [detectBase, hx, hy]
            simp only [scanDigits, hd, run_consumes_iff, cNumeral, if_pos hx,
              Option.ite_none_right_eq_some, Option.some.injEq, and_assoc]
          · have hd : detectBase ('0' :: x :: y :: ds) = (8, '0' :: x :: y :: ds) := by
              simp [detectBase, hy]
            have h8 : isDigitIn 8 x = false := by rcases hx with rfl | rfl <;> decide
            simp only [scanDigits, hd, run_consumes_iff, cNumeral, if_pos hx]
            simp [h8, hy]
      · have hd : detectBase ('0' :: x :: ds) = (8, '0' :: x :: ds) := by
          cases ds <;> simp [detectBase, hx]
        simp only [scanDigits, hd, run_consumes_iff, cNumeral, if_neg hx,
          scanDigits_octal (by omega : 0 < 8), digitsVal_zero_cons,
          Option.ite_none_right_eq_some, Option.some.injEq]
        simp
    · have hd : detectBase (c :: x :: ds) = (10, c :: x :: ds) := by
        cases ds <;> simp [detectBase, hc]
      simp only [scanDigits, hd, run_consumes_iff, cNumeral_decimal hc,
        Option.ite_none_right_eq_some, Option.some.injEq]
      simp

/-- Blanks, a sign and a numeral: what the scanner takes as a number. -/
def signedNumeral (t : Text) : Option (Bool × Nat) :=
  let sg := scanSign (t.dropWhile isspace)
  (cNumeral sg.2).map fun n => (sg.1, n)

/-- **The scanner consumes a non-empty text exactly when it is a signed numeral.** -/
theorem strtol_consumes_iff (bits : Nat) (t : Text) :
    ((strtol bits t).2.length < t.length ∧ (strtol bits t).2 = []) ↔
      (signedNumeral t).isSome = true := by
  simp only [strtol, signedNumeral, Option.isSome_map]
  cases hs : scanDigits (scanSign (t.dropWhile isspace)).2 with
  | none =>
    have hn : cNumeral (scanSign (t.dropWhile isspace)).2 = none := by
      cases hc : cNumeral (scanSign (t.dropWhile isspace)).2 with
      | none => rfl
      | some n => rw [(scanDigits_consumes_iff _ n).2 hc] at hs; cases hs
    simp [hn]
  | some p =>
    obtain ⟨n, rest⟩ := p
    constructor
    · rintro ⟨-, hr⟩
      simp only at hr
      subst hr
      rw [(scanDigits_consumes_iff _ n).1 hs]
      rfl
    · intro h
      obtain ⟨m, hm⟩ := Option.isSome_iff_exists.1 h
      rw [(scanDigits_consumes_iff _ m).2 hm] at hs
      cases hs
      refine ⟨?_, rfl⟩
      cases t with
      | nil => simp [scanSign, cNumeral] at hm
      | cons c t => simp

theorem strtol_of_signedNumeral {t : Text} {neg : Bool} {n : Nat}
    (h : signedNumeral t = some (neg, n)) (bits : Nat) :
    strtol bits t = (clamp bits (if neg then -(n : Int) else n), []) := by
  simp only [signedNumeral, Option.map_eq_some_iff, Prod.mk.injEq] at h
  obtain ⟨m, hm, hneg, rfl⟩ := h
  simp only [strtol, (scanDigits_consumes_iff _ m).2 hm, hneg]

/-- The first character is neither a blank nor a sign. -/
def plainStart (t : Text) : Bool :=
  match t with
  | [] => true
  | c :: _ => !isspace c && c != '-' && c != '+'

theorem signedNumeral_of_plainStart {t : Text} (h : plainStart t = true) :
    signedNumeral t = (cNumeral t).map fun n => (false, n) := by
  cases t with
  | nil => rfl
  | cons c t =>
    simp only [plainStart, Bool.and_eq_true, Bool.not_eq_true', bne_iff_ne, ne_eq] at h
    obtain ⟨⟨hs, hm⟩, hp⟩ := h
    simp [signedNumeral, hs, scanSign, hm, hp]

/-- A numeral starts with a digit. -/
theorem plainStart_of_cNumeral {t : Text} {n : Nat} (h : cNumeral t = some n) :
    plainStart t = true := by
  cases t with
  | nil => rfl
  | cons c t =>
    have hd : digitVal c ≠ none := by
      intro hc
      have hc0 : c ≠ '0' := by rintro rfl; exact absurd hc (by decide)
      have h10 : isDigitIn 10 c = false := isDigitIn_of_none hc
      cases t <;> simp [cNumeral, hc0, h10] at h
    have hsp : isspace c = false := by
      by_contra hsp
      simp only [Bool.not_eq_false, isspace, Bool.or_eq_true, beq_iff_eq, Bool.and_eq_true,
        decide_eq_true_eq] at hsp
      rcases hsp with rfl | ⟨h1, h2⟩
      · exact hd (by decide)
      · apply hd
        unfold digitVal
        rw [if_neg (by omega), if_neg (by omega), if_neg (by omega)]
    have hm : c ≠ '-' := by rintro rfl; exact hd (by decide)
    have hp : c ≠ '+' := by rintro rfl; exact hd (by decide)
    simp [plainStart, hsp, hm, hp]

/-- A numeral is scanned to its value, up to saturation. -/
theorem strtol_of_cNumeral {t : Text} {n : Nat} (h : cNumeral t = some n) (bits : Nat) :
    strtol bits t = (clamp bits n, []) := by
  have hs := signedNumeral_of_plainStart (plainStart_of_cNumeral h)
  rw [h] at hs
  simpa using strtol_of_signedNumeral hs bits

/-! ## The end of a number in a buffer -/

theorem detectBase_suffix (t : Text) : (detectBase t).2 <:+ t := by
  unfold detectBase
  split
  · split
    · exact ⟨['0', _], rfl⟩
    · exact List.suffix_refl _
  · exact List.suffix_refl _
  · exact List.suffix_refl _

theorem scanSign_suffix (t : Text) : (scanSign t).2 <:+ t := by
  unfold scanSign
  split
  · exact List.suffix_cons _ _
  · exact List.suffix_cons _ _
  · exact List.suffix_refl _

/-- `err_ptr` points into the string. -/
theorem strtol_suffix (bits : Nat) (t : Text) : (strtol bits t).2 <:+ t := by
  unfold strtol
  simp only
  split
  · exact List.suffix_refl _
  · rename_i n rest h
    simp only [scanDigits] at h
    split at h
    · cases h
    · simp only [Option.some.injEq, Prod.mk.injEq] at h
      rw [← h.2]
      exact (List.dropWhile_suffix _).trans ((detectBase_suffix _).trans
        ((scanSign_suffix _).trans (List.dropWhile_suffix _)))

/-- What follows `t` in the buffer keeps out of a number scanned in `t`, and the character just
behind `t` does not occur in `t`. -/
structure Shields (t f : Text) : Prop where
  stop : f = [] ∨ ∃ c r, f = c :: r ∧ NumberEnd c ∧ (isspace c = false ∨ t.dropWhile isspace ≠ [])
  fresh : charAt f 0 ∉ t

theorem strtol_shielded {t f : Text} (h : Shields t f) (bits : Nat) :
    strtol bits (t ++ f) = ((strtol bits t).1, (strtol bits t).2 ++ f) := by
  rcases h.stop with rfl | ⟨c, r, rfl, hc, hb⟩
  · simp
  · exact strtol_append hc hb bits r

/-- **The end test of a number that is kept in `t`**: the scan moves and stops at the character
behind `t` exactly when the whole of `t` is a signed numeral. -/
theorem endTest_kept {t f : Text} {bits : Nat}
    (hkept : strtol bits (t ++ f) = ((strtol bits t).1, (strtol bits t).2 ++ f))
    (hfresh : charAt f 0 ∉ t) :
    (decide ((strtol bits (t ++ f)).2.length < (t ++ f).length) &&
      charAt (strtol bits (t ++ f)).2 0 == charAt f 0) = (signedNumeral t).isSome := by
  rw [hkept, Bool.eq_iff_iff, ← strtol_consumes_iff bits t]
  simp only [Bool.and_eq_true, decide_eq_true_eq, beq_iff_eq, List.length_append,
    Nat.add_lt_add_iff_right]
  refine and_congr_right fun _ => ?_
  constructor
  · intro hc
    cases hr : (strtol bits t).2 with
    | nil => rfl
    | cons x r =>
      rw [hr] at hc
      simp only [List.cons_append, charAt_cons_zero] at hc
      subst hc
      exact absurd ((strtol_suffix bits t).subset (by simp [hr])) hfresh
  · intro hr
    simp [hr]

theorem endTest_shielded {t f : Text} (h : Shields t f) (bits : Nat) :
    (decide ((strtol bits (t ++ f)).2.length < (t ++ f).length) &&
      charAt (strtol bits (t ++ f)).2 0 == charAt f 0) = (signedNumeral t).isSome :=
  endTest_kept (strtol_shielded h bits) h.fresh

end CString
