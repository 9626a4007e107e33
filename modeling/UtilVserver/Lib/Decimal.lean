import UtilVserver.Lib.CString

/-!
# Decimal numbers and lines in C strings

* `cstr` — the text in front of the first NUL of a buffer.
* `scanDecimal`, `strtol10`, `atoi` — the number scanner with base 10.
* `strstr` — the first occurrence of a text.
* `firstLine`, `Numeral` — a line without its end; a text of digits only.

Principal results: `scanDecimal_numeral` (a line of digits is scanned to its end and its value)
and `strstr_append`.
-/

set_option autoImplicit false

namespace CString

/-- The string in a buffer. -/
def cstr (buf : Text) : Text := buf.takeWhile (· != '\x00')

/-- Blanks, a sign and digits: the sign, the value and what follows. -/
def scanDecimal (s : Text) : Option (Bool × Nat × Text) :=
  let sg := scanSign (s.dropWhile isspace)
  let run := sg.2.takeWhile (isDigitIn 10)
  if run = [] then none
  else some (sg.1, digitsVal 10 run, sg.2.dropWhile (isDigitIn 10))

def signed (neg : Bool) (n : Nat) : Int := if neg then -(n : Int) else n

/-- `strtol(s, &err_ptr, 10)`: the value and `err_ptr`. -/
def strtol10 (bits : Nat) (s : Text) : Int × Text :=
  match scanDecimal s with
  | none => (0, s)
  | some (neg, n, rest) => (clamp bits (signed neg n), rest)

/-- `atoi` is `strtol` and a conversion to `int`. -/
def atoi (s : Text) : BitVec 32 := BitVec.ofInt 32 (strtol10 64 s).1

/-- `strstr(s, key)`: the text from the first occurrence on. -/
def strstr (s key : Text) : Option Text :=
  if key.isPrefixOf s then some s
  else
    match s with
    | [] => none
    | _ :: s => strstr s key

/-- The first line, without its end. -/
def firstLine (s : Text) : Text := s.takeWhile (· != '\n')

/-- Digits, at least one. -/
def Numeral (s : Text) : Prop := s ≠ [] ∧ s.all (isDigitIn 10) = true

instance (s : Text) : Decidable (Numeral s) := inferInstanceAs (Decidable (_ ∧ _))

/-! ## Strings in buffers -/

theorem cstr_append (buf : Text) :
    ∃ r, buf = cstr buf ++ r ∧ (r = [] ∨ ∃ r', r = '\x00' :: r') := by
  have hsplit := List.takeWhile_append_dropWhile (p := (· != '\x00')) (l := buf)
  refine ⟨_, hsplit.symm, ?_⟩
  cases hd : buf.dropWhile (· != '\x00') with
  | nil => exact .inl rfl
  | cons c r =>
    have hc := List.head_dropWhile_not (· != '\x00') (l := buf) (by simp [hd])
    simp only [hd, List.head_cons, bne_eq_false_iff_eq] at hc
    exact .inr ⟨r, by rw [hc]⟩

theorem cstr_noNul (buf : Text) : '\x00' ∉ cstr buf := by
  intro h
  simpa using List.mem_takeWhile_imp h

theorem cstr_eq_self {s : Text} (h : '\x00' ∉ s) : cstr s = s := takeWhile_bne h

theorem cstr_nul {s : Text} (h : '\x00' ∉ s) (r : Text) : cstr (s ++ '\x00' :: r) = s :=
  takeWhile_bne_stop h r

/-- What has no NUL is read up to what follows. -/
theorem cstr_append_of_noNul {s : Text} (h : '\x00' ∉ s) (r : Text) :
    cstr (s ++ r) = s ++ cstr r := by
  unfold cstr
  rw [List.takeWhile_append, takeWhile_bne h, if_pos rfl]

/-- What `strstr` finds is a suffix that starts with the key. -/
theorem strstr_some {s key p : Text} (h : strstr s key = some p) : key <+: p ∧ p <:+ s := by
  induction s with
  | nil =>
    rw [strstr] at h
    split at h
    · rename_i hp
      cases h
      exact ⟨List.isPrefixOf_iff_prefix.mp hp, List.suffix_refl _⟩
    · cases h
  | cons c s ih =>
    rw [strstr] at h
    split at h
    · rename_i hp
      cases h
      exact ⟨List.isPrefixOf_iff_prefix.mp hp, List.suffix_refl _⟩
    · obtain ⟨h1, h2⟩ := ih h
      exact ⟨h1, h2.trans (List.suffix_cons c s)⟩

/-- A text that stands in another one is found. -/
theorem strstr_inside (a key b : Text) : (strstr (a ++ (key ++ b)) key).isSome = true := by
  induction a with
  | nil =>
    have hkey : key.isPrefixOf (key ++ b) = true :=
      List.isPrefixOf_iff_prefix.mpr (List.prefix_append key b)
    rw [List.nil_append, strstr.eq_def, if_pos hkey]
    rfl
  | cons c a ih =>
    rw [List.cons_append, strstr]
    split
    · rfl
    · exact ih

/-- It is found where it stands first. -/
theorem strstr_first {a key b p : Text} (h : strstr (a ++ (key ++ b)) key = some p) :
    (key ++ b).length ≤ p.length := by
  induction a with
  | nil =>
    rw [List.nil_append, strstr.eq_def,
      if_pos (List.isPrefixOf_iff_prefix.mpr (List.prefix_append key b))] at h
    cases h
    exact le_rfl
  | cons c a ih =>
    rw [List.cons_append, strstr] at h
    split at h
    · cases h
      simp only [List.length_cons, List.length_append]
      omega
    · exact ih h

/-- Nothing is found just when the key does not occur. -/
theorem strstr_none_iff {s key : Text} : strstr s key = none ↔ ¬ key <:+: s := by
  constructor
  · rintro h ⟨a, b, rfl⟩
    have hfound := strstr_inside a key b
    rw [← List.append_assoc, h] at hfound
    cases hfound
  · intro h
    cases hs : strstr s key with
    | none => rfl
    | some p =>
      obtain ⟨hkey, hp⟩ := strstr_some hs
      exact absurd (hkey.isInfix.trans hp.isInfix) h

theorem strstr_cons {c : Char} {s key : Text} (h : ¬ key <+: c :: s) :
    strstr (c :: s) key = strstr s key := by
  rw [strstr, if_neg]
  exact fun hp => h (List.isPrefixOf_iff_prefix.1 hp)

/-- What follows a buffer does not change the first occurrence in it. -/
theorem strstr_append {s key p : Text} (h : strstr s key = some p) (r : Text) :
    strstr (s ++ r) key = some (p ++ r) := by
  induction s with
  | nil =>
    rw [strstr] at h
    split at h
    · rename_i hp
      cases h
      have hkey : key = [] := by simpa using hp
      subst hkey
      cases r <;> simp [strstr]
    · cases h
  | cons c s ih =>
    rw [strstr] at h
    rw [List.cons_append, strstr]
    split at h
    · rename_i hp
      cases h
      have hlonger := (List.isPrefixOf_iff_prefix.mp hp).trans (List.prefix_append (c :: s) r)
      exact if_pos (List.isPrefixOf_iff_prefix.mpr hlonger)
    · rename_i hp
      have hlen : key.length ≤ s.length := by
        obtain ⟨h1, h2⟩ := strstr_some h
        exact h1.length_le.trans h2.length_le
      rw [if_neg, ih h]
      intro hlonger
      refine hp (List.isPrefixOf_iff_prefix.mpr ?_)
      refine List.prefix_of_prefix_length_le (List.isPrefixOf_iff_prefix.mp hlonger)
        (List.prefix_append (c :: s) r) ?_
      rw [List.length_cons]
      omega

/-! ## Lines of digits -/

/-- The rest of a number ends its line. -/
def AtEnd (rest : Text) : Prop := charAt rest 0 = '\x00' ∨ charAt rest 0 = '\n'

instance (rest : Text) : Decidable (AtEnd rest) := inferInstanceAs (Decidable (_ ∨ _))

theorem firstLine_append (s : Text) :
    ∃ r, s = firstLine s ++ r ∧ (r = [] ∨ ∃ r', r = '\n' :: r') := by
  have hsplit := List.takeWhile_append_dropWhile (p := (· != '\n')) (l := s)
  refine ⟨_, hsplit.symm, ?_⟩
  cases hd : s.dropWhile (· != '\n') with
  | nil => exact .inl rfl
  | cons c r =>
    have hc := List.head_dropWhile_not (· != '\n') (l := s) (by simp [hd])
    simp only [hd, List.head_cons, bne_eq_false_iff_eq] at hc
    exact .inr ⟨r, by rw [hc]⟩

theorem isDigitIn_ten {c : Char} (h : isDigitIn 10 c = true) : 48 ≤ c.toNat ∧ c.toNat ≤ 57 := by
  unfold isDigitIn digitVal at h
  split_ifs at h with h1 h2 h3
  · exact h1
  · have := of_decide_eq_true h
    omega
  · have := of_decide_eq_true h
    omega

/-- Digits are none of the other characters. -/
theorem not_mem_of_digits {t : Text} (h : t.all (isDigitIn 10) = true) {c : Char}
    (hc : isDigitIn 10 c = false) : c ∉ t := by
  intro hmem
  rw [List.all_eq_true.1 h c hmem] at hc
  cases hc

theorem isspace_of_digit {c : Char} (h : isDigitIn 10 c = true) : isspace c = false := by
  obtain ⟨h1, h2⟩ := isDigitIn_ten h
  have hne : c ≠ ' ' := by
    rintro rfl
    exact absurd h1 (by decide)
  have hbig : ¬ c.toNat ≤ 13 := by omega
  simp [isspace, hne, hbig]

theorem scanSign_digit {c : Char} (h : isDigitIn 10 c = true) (s : Text) :
    scanSign (c :: s) = (false, c :: s) := by
  have hm : c ≠ '-' := by
    rintro rfl
    exact absurd h (by decide)
  have hp : c ≠ '+' := by
    rintro rfl
    exact absurd h (by decide)
  simp [scanSign, hm, hp]

theorem takeWhile_digits {ds r : Text} (hall : ds.all (isDigitIn 10) = true) (hr : AtEnd r) :
    (ds ++ r).takeWhile (isDigitIn 10) = ds ∧ (ds ++ r).dropWhile (isDigitIn 10) = r := by
  have hall : ∀ c ∈ ds, isDigitIn 10 c = true := List.all_eq_true.mp hall
  rw [List.takeWhile_append_of_pos hall, List.dropWhile_append_of_pos hall]
  cases r with
  | nil => simp
  | cons c r =>
    have hc : isDigitIn 10 c = false := by
      rcases hr with hc | hc
      · rw [show c = '\x00' from hc]
        decide
      · rw [show c = '\n' from hc]
        decide
    simp [hc]

/-- **A line of digits is scanned to its end and its value.** -/
theorem scanDecimal_digits {ds r : Text} (hd : Numeral ds) (hr : AtEnd r) :
    scanDecimal (ds ++ r) = some (false, digitsVal 10 ds, r) := by
  obtain ⟨hne, hall⟩ := hd
  obtain ⟨htake, hdrop⟩ := takeWhile_digits hall hr
  cases ds with
  | nil => exact absurd rfl hne
  | cons c ds =>
    have hc : isDigitIn 10 c = true := (Bool.and_eq_true _ _ ▸ hall : _ ∧ _).1
    have hspace : ((c :: ds) ++ r).dropWhile isspace = (c :: ds) ++ r := by
      simp [isspace_of_digit hc]
    simp only [scanDecimal, hspace]
    rw [List.cons_append, scanSign_digit hc, ← List.cons_append, htake, hdrop, if_neg hne]

/-- A number that is found moves the end pointer. -/
theorem scanDecimal_length {s rest : Text} {neg : Bool} {n : Nat}
    (h : scanDecimal s = some (neg, n, rest)) : rest.length < s.length := by
  simp only [scanDecimal] at h
  split at h
  · cases h
  · rename_i hrun
    cases h
    have h1 : (s.dropWhile isspace).length ≤ s.length :=
      (List.dropWhile_suffix isspace).length_le
    have h2 := (scanSign_suffix (s.dropWhile isspace)).length_le
    have hsplit := congrArg List.length (List.takeWhile_append_dropWhile (p := isDigitIn 10)
      (l := (scanSign (s.dropWhile isspace)).2))
    rw [List.length_append] at hsplit
    have hpos := List.length_pos_iff.mpr hrun
    omega

/-- A buffer whose first line is a numeral: the string starts with it. -/
theorem scanDecimal_numeral {buf : Text} (h : Numeral (firstLine buf)) :
    ∃ rest, scanDecimal (cstr buf) = some (false, digitsVal 10 (firstLine buf), rest) ∧
      AtEnd rest := by
  obtain ⟨r, hbuf, hr⟩ := firstLine_append buf
  have hdigit : '\x00' ∉ firstLine buf := not_mem_of_digits h.2 (by decide)
  have hcstr := cstr_append_of_noNul hdigit r
  rw [← hbuf] at hcstr
  have hend : AtEnd (cstr r) := by
    rcases hr with rfl | ⟨r', rfl⟩
    · exact .inl rfl
    · exact .inr rfl
  exact ⟨cstr r, hcstr ▸ scanDecimal_digits h hend, hend⟩

end CString
