import Mathlib.Algebra.Group.Int.Defs
import Mathlib.Algebra.Group.Nat.Defs
import Mathlib.Data.List.Basic

/-!
# Names of generated units (`src/systemd/systemd-vserver-generator.c`)

Texts are lists of bytes.

* `escapeByte`, `systemd_escape` — a name with `/` and special characters replaced, behind a prefix
  and in a buffer with space for a suffix.
* `UnitName`, `generate` — the names that are made of it.
* `readBack` — the literal text of an escape is taken for the byte that it stands for: a backslash
  is itself not escaped.

Principal results: `escape_eq_iff` (which names have one escaped text), `generate_bytes` (what is in
the buffers), `unitNames_exact` and `unitNames_clash`.
-/

set_option autoImplicit false

namespace SystemdEscape

/-- A text of ASCII characters. -/
def ascii (s : String) : List UInt8 := s.toList.map fun c => UInt8.ofNat c.toNat

/-- `HEX_DIGIT`. -/
def hexDigit (n : Nat) : UInt8 := UInt8.ofNat (if n < 10 then 48 + n else 87 + n)

/-- `c == '-' || c < 32 || !isascii(c)`. -/
def special (c : UInt8) : Bool := c = 45 || c < 32 || 128 ≤ c

/-- The text for one byte. -/
def escapeByte (c : UInt8) : List UInt8 :=
  if c = 47 then [45]
  else if special c then [92, 120, hexDigit (c.toNat / 16), hexDigit (c.toNat % 16)]
  else [c]

def escape (data : List UInt8) : List UInt8 := data.flatMap escapeByte

/-- Memory of a known size, and what was written to it. -/
structure Buffer where
  size : Nat
  bytes : List UInt8

/-- The text up to the first NUL. -/
def Buffer.text (b : Buffer) : List UInt8 := b.bytes.takeWhile fun c => c ≠ 0

/-- `systemd_escape`; `Emalloc` gets a `size_t`. -/
def systemd_escape (data pre : List UInt8) (extra_space : Nat) : Buffer where
  size := (data.length * 4 + pre.length + extra_space + 1) % 2 ^ 64
  bytes := pre ++ escape data ++ [0]

/-- `strcat`. -/
def strcat (b : Buffer) (suffix : List UInt8) : Buffer := { b with bytes := b.text ++ suffix ++ [0] }

/-- What is generated for a mark, for a vserver that another one depends on, and for a vserver. -/
inductive UnitName where
  | markTarget
  | markWants
  | dependency
  | service
  | requires

/-- The `mark` of `mark_handler`. -/
def markTarget (data : List UInt8) : Buffer :=
  strcat (systemd_escape data (ascii "vserver-mark@") ((ascii ".target.wants").length + 1))
    (ascii ".target")

/-- The `service_name` of `generate_units_for_vserver`. -/
def serviceName (name : List UInt8) : Buffer :=
  strcat (systemd_escape name (ascii "vserver@") ((ascii ".service.requires").length + 1))
    (ascii ".service")

/-- The names as `mark_handler`, `depends_handler` and `generate_units_for_vserver` build them. -/
def generate (data : List UInt8) : UnitName → Buffer
  | .markTarget => markTarget data
  | .markWants => strcat (markTarget data) (ascii ".wants")
  | .dependency =>
    strcat (systemd_escape data (ascii "vserver@") ((ascii ".service").length + 1))
      (ascii ".service")
  | .service => serviceName data
  | .requires => strcat (serviceName data) (ascii ".requires")

/-! ## Reading names back -/

/-- The value of a hexadecimal digit. -/
def hexVal (h : UInt8) : Option Nat :=
  if 48 ≤ h ∧ h ≤ 57 then some (h.toNat - 48)
  else if 97 ≤ h ∧ h ≤ 102 then some (h.toNat - 87)
  else none

/-- The special byte with these digits. -/
def hexByte (h l : UInt8) : Option UInt8 :=
  match hexVal h, hexVal l with
  | some a, some b =>
    if special (UInt8.ofNat (16 * a + b)) then some (UInt8.ofNat (16 * a + b)) else none
  | _, _ => none

/-- The special byte whose escape, without its backslash, is in front. -/
def literal : List UInt8 → Option UInt8
  | 120 :: h :: l :: _ => hexByte h l
  | _ => none

/-- Literal escapes are replaced by their bytes, and other bytes as given; the number counts bytes
that were already read. -/
def decode (plain : UInt8 → UInt8) : Nat → List UInt8 → List UInt8
  | _, [] => []
  | n + 1, _ :: rest => decode plain n rest
  | 0, c :: rest =>
    if c = 92 then
      match literal rest with
      | some b => b :: decode plain 3 rest
      | none => c :: decode plain 0 rest
    else plain c :: decode plain 0 rest

/-- The name with the literal escapes in it replaced. -/
def readBack (data : List UInt8) : List UInt8 := decode id 0 data

/-- `-` stands for `/` in an escaped text. -/
def slash (c : UInt8) : UInt8 := if c = 45 then 47 else c

theorem hexVal_hexDigit {n : Nat} (hn : n < 16) : hexVal (hexDigit n) = some n := by
  revert n
  decide

theorem hexDigit_hexVal {h : UInt8} {n : Nat} (hn : hexVal h = some n) :
    hexDigit n = h ∧ n < 16 ∧ escapeByte h = [h] ∧ h ≠ 92 := by
  have hplain : ∀ {m : Nat}, m < 16 → escapeByte (hexDigit m) = [hexDigit m] ∧ hexDigit m ≠ 92 := by
    decide
  have hdigit : hexDigit n = h ∧ n < 16 := by
    unfold hexVal at hn
    apply And.imp_left UInt8.toNat_inj.mp
    split at hn
    · rename_i hrange
      obtain ⟨hlo, hhi⟩ := hrange
      obtain rfl := Option.some.inj hn
      rw [UInt8.le_iff_toNat_le] at hlo hhi
      simp only [UInt8.reduceToNat] at hlo hhi
      rw [hexDigit, if_pos (by omega), UInt8.toNat_ofNat']
      omega
    · split at hn
      · rename_i hrange
        obtain ⟨hlo, hhi⟩ := hrange
        obtain rfl := Option.some.inj hn
        rw [UInt8.le_iff_toNat_le] at hlo hhi
        simp only [UInt8.reduceToNat] at hlo hhi
        rw [hexDigit, if_neg (by omega), UInt8.toNat_ofNat']
        omega
      · cases hn
  obtain ⟨rfl, hlt⟩ := hdigit
  exact ⟨rfl, hlt, hplain hlt⟩

/-- The two digits of a special byte. -/
theorem hexByte_special {c : UInt8} (hc : special c = true) :
    hexByte (hexDigit (c.toNat / 16)) (hexDigit (c.toNat % 16)) = some c := by
  have hlt : c.toNat < 256 := c.toNat_lt
  have hsum : UInt8.ofNat (16 * (c.toNat / 16) + c.toNat % 16) = c := by
    rw [Nat.div_add_mod, UInt8.ofNat_toNat]
  simp only [hexByte, hexVal_hexDigit (by omega : c.toNat / 16 < 16),
    hexVal_hexDigit (by omega : c.toNat % 16 < 16), hsum, hc, if_true]

/-- Digits that stand for a special byte are those of its escape. -/
theorem hexByte_some {h l c : UInt8} (hc : hexByte h l = some c) :
    escapeByte c = [92, 120, h, l] ∧ (escapeByte h = [h] ∧ h ≠ 92) ∧
      (escapeByte l = [l] ∧ l ≠ 92) := by
  unfold hexByte at hc
  split at hc
  · rename_i a b ha hb
    obtain ⟨rfl, halt, hah⟩ := hexDigit_hexVal ha
    obtain ⟨rfl, hblt, hbl⟩ := hexDigit_hexVal hb
    split at hc
    · rename_i hspecial
      obtain rfl := Option.some.inj hc
      have hval : (UInt8.ofNat (16 * a + b)).toNat = 16 * a + b := by
        rw [UInt8.toNat_ofNat']
        omega
      have hslash : UInt8.ofNat (16 * a + b) ≠ 47 := by
        intro heq
        rw [heq] at hspecial
        revert hspecial
        decide
      refine ⟨?_, hah, hbl⟩
      rw [escapeByte, if_neg hslash, if_pos hspecial, hval,
        show (16 * a + b) / 16 = a by omega, show (16 * a + b) % 16 = b by omega]
    · cases hc
  · cases hc

theorem escape_cons (c : UInt8) (rest : List UInt8) :
    escape (c :: rest) = escapeByte c ++ escape rest := List.flatMap_cons

/-- A byte that is given as it is was in the name. -/
theorem escape_head {data tail : List UInt8} {c : UInt8} (h : escape data = c :: tail)
    (hplain : escapeByte c = [c]) (hback : c ≠ 92) : ∃ rest, data = c :: rest ∧ tail = escape rest := by
  have hdash : c ≠ 45 := by
    rintro rfl
    revert hplain
    decide
  cases data with
  | nil => cases h
  | cons d rest =>
    rw [escape_cons, escapeByte] at h
    split at h
    · exact absurd (List.cons.inj h).1.symm hdash
    · split at h
      · exact absurd (List.cons.inj h).1.symm hback
      · obtain ⟨rfl, rfl⟩ := List.cons.inj h
        exact ⟨rest, rfl, rfl⟩

theorem literal_eq_some {data : List UInt8} {c : UInt8} :
    literal data = some c ↔ ∃ h l rest, data = 120 :: h :: l :: rest ∧ hexByte h l = some c := by
  constructor
  · intro hlit
    unfold literal at hlit
    split at hlit
    · rename_i h l rest
      exact ⟨h, l, rest, rfl, hlit⟩
    · cases hlit
  · rintro ⟨h, l, rest, rfl, hc⟩
    exact hc

/-- A literal escape is one in the escaped text as well, and no other text becomes one. -/
theorem literal_escape {data : List UInt8} {c : UInt8} :
    literal (escape data) = some c ↔ literal data = some c := by
  rw [literal_eq_some, literal_eq_some]
  constructor
  · rintro ⟨h, l, tail, hesc, hc⟩
    obtain ⟨-, ⟨hh, hhb⟩, hl, hlb⟩ := hexByte_some hc
    obtain ⟨_, rfl, hfirst⟩ := escape_head hesc (by decide) (by decide)
    obtain ⟨_, rfl, hsecond⟩ := escape_head hfirst.symm hh hhb
    obtain ⟨rest, rfl, -⟩ := escape_head hsecond.symm hl hlb
    exact ⟨h, l, rest, rfl, hc⟩
  · rintro ⟨h, l, rest, rfl, hc⟩
    obtain ⟨-, ⟨hh, -⟩, hl, -⟩ := hexByte_some hc
    refine ⟨h, l, escape rest, ?_, hc⟩
    rw [escape_cons, escape_cons, escape_cons, hh, hl]
    rfl

/-- **What can be read from an escaped text** is the name with its literal escapes replaced. -/
theorem decode_escape (data : List UInt8) : decode slash 0 (escape data) = readBack data := by
  unfold readBack
  induction hn : data.length using Nat.strongRecOn generalizing data with
  | ind n ih =>
    cases data with
    | nil => rfl
    | cons c rest =>
      have hrest := ih rest.length (by rw [← hn]; exact Nat.lt_succ_self _) rest rfl
      rw [escape_cons]
      by_cases hback : c = 92
      · subst hback
        show decode slash 0 (92 :: escape rest) = _
        rw [decode, decode, if_pos rfl, if_pos rfl]
        cases hlit : literal rest with
        | some b =>
          rw [literal_escape.mpr hlit]
          obtain ⟨h, l, behind, rfl, hc⟩ := literal_eq_some.mp hlit
          obtain ⟨-, ⟨hh, -⟩, hl, -⟩ := hexByte_some hc
          have hbehind := ih behind.length (by rw [← hn]; simp only [List.length_cons]; omega) behind rfl
          rw [escape_cons, escape_cons, escape_cons, hh, hl]
          show b :: decode slash 0 (escape behind) = b :: decode id 0 behind
          rw [hbehind]
        | none =>
          have hnone : literal (escape rest) = none := by
            cases hesc : literal (escape rest) with
            | none => rfl
            | some b => rw [literal_escape.mp hesc] at hlit; cases hlit
          rw [hnone]
          show 92 :: decode slash 0 (escape rest) = 92 :: decode id 0 rest
          rw [hrest]
      · have hright : decode id 0 (c :: rest) = c :: decode id 0 rest := by
          rw [decode, if_neg hback]
          rfl
        rw [hright, ← hrest, escapeByte]
        split
        · rename_i hslash
          subst hslash
          rfl
        · split
          · rename_i hspecial
            have hlit : literal (120 :: hexDigit (c.toNat / 16) :: hexDigit (c.toNat % 16) ::
                escape rest) = some c := hexByte_special hspecial
            show decode slash 0 (92 :: 120 :: hexDigit (c.toNat / 16) :: hexDigit (c.toNat % 16) ::
              escape rest) = _
            rw [decode, if_pos rfl, hlit]
            rfl
          · rename_i hplain
            have hslash : slash c = c := by
              rw [slash, if_neg]
              rintro rfl
              exact hplain (by decide)
            show decode slash 0 (c :: escape rest) = _
            rw [decode, if_neg hback, hslash]

/-- Replacing literal escapes does not change the escaped text. -/
theorem escape_readBack (data : List UInt8) : escape (readBack data) = escape data := by
  unfold readBack
  induction hn : data.length using Nat.strongRecOn generalizing data with
  | ind n ih =>
    cases data with
    | nil => rfl
    | cons c rest =>
      have hrest := ih rest.length (by rw [← hn]; exact Nat.lt_succ_self _) rest rfl
      rw [decode]
      split
      · rename_i hback
        subst hback
        cases hlit : literal rest with
        | some b =>
          obtain ⟨h, l, behind, rfl, hc⟩ := literal_eq_some.mp hlit
          obtain ⟨hb, ⟨hh, -⟩, hl, -⟩ := hexByte_some hc
          have hbehind := ih behind.length (by rw [← hn]; simp only [List.length_cons]; omega) behind rfl
          show escape (b :: decode id 0 behind) = _
          rw [escape_cons, hb, hbehind]
          simp only [escape_cons, hh, hl]
          rfl
        | none => rw [escape_cons, escape_cons, hrest]
      · rw [escape_cons, escape_cons, hrest]
        rfl

/-- **Two names have one escaped text** exactly if they are the same with the literal escapes
replaced. -/
theorem escape_eq_iff (s t : List UInt8) : escape s = escape t ↔ readBack s = readBack t := by
  constructor
  · intro h
    rw [← decode_escape, h, decode_escape]
  · intro h
    rw [← escape_readBack, h, escape_readBack]

/-! ## Buffers -/

theorem escapeByte_clean (c : UInt8) : 0 ∉ escapeByte c ∧ 47 ∉ escapeByte c ∧
    (escapeByte c).length ≤ 4 := by
  unfold escapeByte
  split
  · decide
  · rename_i hslash
    split
    · have hdigit : ∀ {m : Nat}, m < 16 → hexDigit m ≠ 0 ∧ hexDigit m ≠ 47 := by decide
      have hlt : c.toNat < 256 := c.toNat_lt
      obtain ⟨hhigh, hhigh'⟩ := hdigit (by omega : c.toNat / 16 < 16)
      obtain ⟨hlow, hlow'⟩ := hdigit (by omega : c.toNat % 16 < 16)
      simp [hhigh.symm, hlow.symm, hhigh'.symm, hlow'.symm]
    · rename_i hplain
      have hzero : c ≠ 0 := by
        rintro rfl
        exact hplain (by decide)
      simp [Ne.symm hzero, Ne.symm hslash]

theorem escape_clean (data : List UInt8) : 0 ∉ escape data ∧ 47 ∉ escape data ∧
    (escape data).length ≤ 4 * data.length := by
  induction data with
  | nil => simp [escape]
  | cons c rest ih =>
    obtain ⟨hnul, hslash, hlen⟩ := escapeByte_clean c
    obtain ⟨hnul', hslash', hlen'⟩ := ih
    rw [escape_cons]
    refine ⟨?_, ?_, ?_⟩
    · rw [List.mem_append, not_or]
      exact ⟨hnul, hnul'⟩
    · rw [List.mem_append, not_or]
      exact ⟨hslash, hslash'⟩
    · rw [List.length_append, List.length_cons]
      omega

def prefixOf : UnitName → List UInt8
  | .markTarget | .markWants => ascii "vserver-mark@"
  | .dependency | .service | .requires => ascii "vserver@"

def suffixOf : UnitName → List UInt8
  | .markTarget => ascii ".target"
  | .markWants => ascii ".target.wants"
  | .dependency | .service => ascii ".service"
  | .requires => ascii ".service.requires"

theorem text_of_bytes {b : Buffer} {text : List UInt8} (hb : b.bytes = text ++ [0])
    (hnul : 0 ∉ text) : b.text = text := by
  rw [Buffer.text, hb, List.takeWhile_append_of_pos]
  · simp
  · intro c hc
    have hne : c ≠ 0 := fun h => hnul (h ▸ hc)
    simpa using hne

/-- **What is generated**, and in how much space. -/
theorem generate_bytes (data : List UInt8) (u : UnitName) :
    (generate data u).bytes = prefixOf u ++ escape data ++ suffixOf u ++ [0] ∧
      0 ∉ prefixOf u ++ escape data ++ suffixOf u ∧
      ∃ space, (suffixOf u).length < space ∧ space ≤ 18 ∧
        (generate data u).size = (data.length * 4 + (prefixOf u).length + space + 1) % 2 ^ 64 := by
  have hesc := (escape_clean data).1
  have hstrcat : ∀ (b : Buffer) (text suffix : List UInt8), b.bytes = text ++ [0] → 0 ∉ text →
      (strcat b suffix).bytes = text ++ suffix ++ [0] := by
    intro b text suffix hb hnul
    rw [strcat, text_of_bytes hb hnul]
  have hclean : ∀ v : UnitName, 0 ∉ prefixOf v ++ escape data ++ suffixOf v := by
    intro v hmem
    simp only [List.mem_append] at hmem
    rcases hmem with (hmem | hmem) | hmem
    · revert hmem
      cases v <;> decide
    · exact hesc hmem
    · revert hmem
      cases v <;> decide
  have hstart : ∀ v : UnitName, 0 ∉ prefixOf v ++ escape data := fun v hmem =>
    hclean v (List.mem_append_left _ hmem)
  have hmark := hstrcat (systemd_escape data (ascii "vserver-mark@") 14) _ (ascii ".target") rfl
    (hstart .markTarget)
  have hservice := hstrcat (systemd_escape data (ascii "vserver@") 18) _ (ascii ".service") rfl
    (hstart .service)
  refine ⟨?_, hclean u, ?_⟩
  · cases u with
    | markTarget => exact hmark
    | markWants =>
      have hboth := hstrcat _ _ (ascii ".wants") hmark (hclean .markTarget)
      rw [List.append_assoc _ (ascii ".target")] at hboth
      exact hboth
    | dependency => exact hstrcat _ _ (ascii ".service") rfl (hstart .dependency)
    | service => exact hservice
    | requires =>
      have hboth := hstrcat _ _ (ascii ".requires") hservice (hclean .service)
      rw [List.append_assoc _ (ascii ".service")] at hboth
      exact hboth
  · cases u with
    | markTarget => exact ⟨14, by decide, by decide, rfl⟩
    | markWants => exact ⟨14, by decide, by decide, rfl⟩
    | dependency => exact ⟨9, by decide, by decide, rfl⟩
    | service => exact ⟨18, by decide, by decide, rfl⟩
    | requires => exact ⟨18, by decide, by decide, rfl⟩

theorem generate_text (data : List UInt8) (u : UnitName) :
    (generate data u).text = prefixOf u ++ escape data ++ suffixOf u :=
  text_of_bytes (generate_bytes data u).1 (generate_bytes data u).2.1

/-- The names of marks start differently from those of vservers. -/
theorem prefix_differs (s t : List UInt8) {u u' : UnitName} (hne : prefixOf u ≠ prefixOf u') :
    (generate s u).text ≠ (generate t u').text := by
  rw [generate_text, generate_text]
  intro heq
  have hfirst := congrArg (List.take 8) heq
  have htake : ∀ (v : UnitName) (rest : List UInt8),
      (prefixOf v ++ rest).take 8 = (prefixOf v).take 8 := by
    intro v rest
    refine List.take_append_of_le_length ?_
    cases v <;> decide
  rw [List.append_assoc, List.append_assoc, htake, htake] at hfirst
  revert hfirst hne
  cases u <;> cases u' <;> decide

/-- **Names of units** are the same exactly for names that become the same when the literal escapes
in them are replaced.  They have no `/` and no NUL from a name, and fit into their buffers. -/
theorem unitNames_exact (s t : List UInt8) :
    ((s ≠ t → escape s ≠ escape t) ↔ (s ≠ t → readBack s ≠ readBack t)) ∧
    (∀ u, (generate s u).text = (generate t u).text ↔ readBack s = readBack t) ∧
    (∀ u u', prefixOf u ≠ prefixOf u' → (generate s u).text ≠ (generate t u').text) ∧
    47 ∉ escape s ∧ (∀ u, (generate s u).bytes = (generate s u).text ++ [0] ∧
      0 ∉ (generate s u).text) ∧
    (s.length * 4 + 32 < 2 ^ 64 → ∀ u, (generate s u).bytes.length ≤ (generate s u).size) := by
  refine ⟨?_, fun u => ?_, fun u u' hne => prefix_differs s t hne, (escape_clean s).2.1,
    fun u => ?_, fun hsize u => ?_⟩
  · rw [Ne, Ne, Ne, escape_eq_iff]
  · rw [generate_text, generate_text, List.append_left_inj, List.append_right_inj, escape_eq_iff]
  · rw [generate_text]
    exact ⟨(generate_bytes s u).1, (generate_bytes s u).2.1⟩
  · obtain ⟨hbytes, -, space, hfits, hsmall, hspace⟩ := generate_bytes s u
    have hlen := (escape_clean s).2.2
    have hpre : (prefixOf u).length ≤ 13 := by cases u <;> decide
    rw [hbytes, hspace, Nat.mod_eq_of_lt (by omega)]
    simp only [List.length_append, List.length_cons, List.length_nil]
    omega

/-- **A backslash is not escaped**: the vservers `a-b` and `a\x2db` have one unit. -/
theorem unitNames_clash :
    ascii "a-b" ≠ ascii "a\\x2db" ∧ escape (ascii "a-b") = escape (ascii "a\\x2db") ∧
      (generate (ascii "a-b") .service).text = (generate (ascii "a\\x2db") .service).text := by
  decide

end SystemdEscape
