import Mathlib.Data.Nat.Digits.Lemmas
import UtilVserver.Lib.CString
import UtilVserver.Lib.Slots

/-!
# Formatting of integers (`src/ensc_fmt`)

The template `FMT_FN` makes the digits of a number, the last one first, at the end of a scratch
buffer, and copies them from there; without a pointer it only counts them.

* `Base`, `Width` — the bases from 2 to 36, and the widths the template is used for.
* `countLoop`, `digitLoop`, `fmtFn` — the template.
* `xuint`, `xint`, `uintBase`, `intBase` — the functions made from it.
* `digitsOf` — the digits of a number, in the order in which they are made.

Principal results: `fmtFn_eq` (what the template writes and counts) and `fmt_roundtrip` (it is a
numeral of the value).
-/

set_option autoImplicit false

namespace Fmt

open CString Slots

structure Base where
  val : Nat
  two_le : 2 ≤ val
  le_36 : val ≤ 36

def Base.hex : Base := ⟨16, by decide, by decide⟩

/-- `FMT_BITSIZE` -/
inductive Width where
  | bits32
  | bits64

/-- `sizeof(val)` -/
def Width.sizeof : Width → Nat
  | .bits32 => 4
  | .bits64 => 8

abbrev Val (w : Width) := BitVec (8 * w.sizeof)

def DIGITS : Text := "0123456789abcdefghijklmnopqrstuvwxyz".toList

theorem Base.div_lt (b : Base) {v : Nat} (h : v / b.val ≠ 0) : v / b.val < v := by
  have hb := b.two_le
  have hv : 0 < v := by
    rcases Nat.eq_zero_or_pos v with rfl | hv
    · exact absurd (Nat.zero_div _) h
    · exact hv
  exact Nat.div_lt_self hv hb

/-- The loop of the dry run. -/
def countLoop (b : Base) (v l : Nat) : Nat :=
  if v / b.val ≠ 0 then countLoop b (v / b.val) (l + 1) else l + 1
  termination_by v
  decreasing_by exact b.div_lt ‹_›

/-- The loop over the digits: the buffer and their number, or none when one does not fit. -/
def digitLoop (b : Base) (v l : Nat) (buf : List Char) : Option (List Char × Nat) :=
  match DIGITS[v % b.val]? with
  | none => none
  | some d =>
    -- `buf[sizeof(buf)-l]`
    if buf.length < l + 1 then none
    else
      (poke (buf.length - (l + 1)) [d] buf).bind fun buf =>
        if v / b.val ≠ 0 then digitLoop b (v / b.val) (l + 1) buf else some (buf, l + 1)
  termination_by v
  decreasing_by exact b.div_lt ‹_›

/-- `FMT_FN`: what is written at `ptr`, and the length; `ptr` is false for a null pointer. -/
def fmtFn (b : Base) (sz : Nat) (w : Width) (ptr : Bool) (val : Val w) : Option (Text × Nat) :=
  if ptr then
    (digitLoop b val.toNat 0 (List.replicate (w.sizeof * sz) '\x00')).map fun (buf, l) =>
      (buf.drop (buf.length - l), l)
  else some ([], countLoop b val.toNat 0)

/-- `FMT_P(xuint)` -/
def xuint (w : Width) (ptr : Bool) (val : Val w) : Option (Text × Nat) := fmtFn Base.hex 2 w ptr val

/-- `FMT_P(uint)_base` -/
def uintBase (w : Width) (ptr : Bool) (val : Val w) (b : Base) : Option (Text × Nat) :=
  if b.val = 16 then xuint w ptr val else fmtFn b 8 w ptr val

/-- The sign; `-val` is the two's complement, so that of the minimum is its absolute value when it
is taken for unsigned. -/
def withSign {w : Width} (fmt : Bool → Val w → Option (Text × Nat)) (ptr : Bool) (val : Val w) :
    Option (Text × Nat) :=
  if val.toInt < 0 then
    (fmt ptr (-val)).map fun r => (if ptr then '-' :: r.1 else r.1, r.2 + 1)
  else (fmt ptr val).map fun r => (r.1, r.2 + 0)

/-- `FMT_P(xint)` -/
def xint (w : Width) (ptr : Bool) (val : Val w) : Option (Text × Nat) :=
  withSign (xuint w) ptr val

/-- `FMT_P(int)_base` -/
def intBase (w : Width) (ptr : Bool) (val : Val w) (b : Base) : Option (Text × Nat) :=
  withSign (fun ptr val => uintBase w ptr val b) ptr val

/-! ## The digits -/

/-- The digits of a number, the last one first. -/
def digitsOf (b : Base) (v : Nat) : List Nat := if v = 0 then [0] else Nat.digits b.val v

/-- The character of a digit. -/
def digitChar (d : Nat) : Char := DIGITS.getD d '\x00'

/-- The number a text stands for, position by position. -/
def decode (b : Base) (t : Text) : Nat := Nat.ofDigits b.val (t.reverse.map (DIGITS.idxOf ·))

theorem digitsOf_eq (b : Base) (v : Nat) : digitsOf b v =
    v % b.val :: if v / b.val ≠ 0 then digitsOf b (v / b.val) else [] := by
  unfold digitsOf
  by_cases hv : v = 0
  · simp [hv]
  · rw [if_neg hv, Nat.digits_def' b.two_le (Nat.pos_of_ne_zero hv)]
    by_cases hq : v / b.val = 0
    · simp [hq]
    · simp [hq]

theorem digitsOf_pos (b : Base) (v : Nat) : 0 < (digitsOf b v).length := by
  rw [digitsOf_eq]
  exact Nat.succ_pos _

theorem lt_of_mem_digitsOf {b : Base} {v d : Nat} (h : d ∈ digitsOf b v) : d < b.val := by
  have hb := b.two_le
  unfold digitsOf at h
  split at h
  · rw [List.mem_singleton] at h
    omega
  · exact Nat.digits_lt_base b.two_le h

theorem ofDigits_digitsOf (b : Base) (v : Nat) : Nat.ofDigits b.val (digitsOf b v) = v := by
  unfold digitsOf
  split
  · rename_i h
    rw [h, Nat.ofDigits_singleton]
  · exact Nat.ofDigits_digits _ _

/-- The number of digits. -/
theorem digitsOf_length_le {b : Base} {v m : Nat} (hm : 0 < m) (h : v < b.val ^ m) :
    (digitsOf b v).length ≤ m := by
  unfold digitsOf
  split
  · exact hm
  · exact (Nat.digits_length_le_iff b.two_le v).2 h

theorem idxOf_digitChar : ∀ d < 36, DIGITS.idxOf (digitChar d) = d := by decide

theorem getElem?_digitChar : ∀ d < 36, DIGITS[d]? = some (digitChar d) := by decide

/-! ## The loops -/

theorem countLoop_eq (b : Base) (v l : Nat) : countLoop b v l = l + (digitsOf b v).length := by
  fun_induction countLoop b v l with
  | case1 v l h ih => rw [ih, digitsOf_eq b v, if_pos h, List.length_cons]; omega
  | case2 v l h => rw [digitsOf_eq, if_neg h, List.length_singleton]

/-- The digits are put in front of what is written already. -/
theorem digitLoop_eq (b : Base) (v : Nat) (l : Nat) (free written : List Char)
    (hl : written.length = l) (hroom : (digitsOf b v).length ≤ free.length) :
    digitLoop b v l (free ++ written) =
      some (free.take (free.length - (digitsOf b v).length) ++
        ((digitsOf b v).reverse.map digitChar ++ written), l + (digitsOf b v).length) := by
  induction v using Nat.strongRecOn generalizing l free written with
  | _ v ih =>
    have hd : v % b.val < 36 :=
      (Nat.mod_lt _ (Nat.lt_of_lt_of_le Nat.zero_lt_two b.two_le)).trans_le b.le_36
    have hpos := digitsOf_pos b v
    obtain hnil | ⟨free, x, rfl⟩ := List.eq_nil_or_concat' free
    · rw [hnil, List.length_nil] at hroom
      omega
    have hplace : (free ++ [x] ++ written).length - (l + 1) = free.length := by
      simp only [List.length_append, List.length_singleton]
      omega
    have hpoke : poke free.length [digitChar (v % b.val)] (free ++ [x] ++ written) =
        some (free ++ digitChar (v % b.val) :: written) := by
      have hcell : poke free.length [digitChar (v % b.val)] (free ++ ([x] ++ written)) =
          some (free ++ ([digitChar (v % b.val)] ++ written)) := poke_append rfl
      rw [List.append_assoc, hcell, List.singleton_append]
    have hfits : ¬ (free ++ [x] ++ written).length < l + 1 := by
      simp only [List.length_append, List.length_singleton]
      omega
    rw [digitLoop, getElem?_digitChar _ hd]
    simp only
    rw [if_neg hfits, hplace, hpoke, Option.bind_some]
    rw [List.length_append, List.length_singleton] at hroom ⊢
    by_cases hq : v / b.val ≠ 0
    · rw [digitsOf_eq, if_pos hq, List.length_cons] at hroom
      have hrec := ih (v / b.val) (b.div_lt hq) (l + 1) free
        (digitChar (v % b.val) :: written) (by rw [List.length_cons, hl]) (by omega)
      rw [if_pos hq, hrec, digitsOf_eq b v, if_pos hq, List.length_cons, List.reverse_cons,
        List.map_append, List.append_assoc, Nat.add_sub_add_right,
        List.take_append_of_le_length (by omega), Nat.add_right_comm l, Nat.add_assoc l]
      rfl
    · rw [if_neg hq, digitsOf_eq b v, if_neg hq, List.length_singleton, Nat.add_sub_cancel,
        List.take_left]
      rfl

/-! ## The template -/

/-- The digits as they are written. -/
def numeral (b : Base) (v : Nat) : Text := (digitsOf b v).reverse.map digitChar

@[simp] theorem numeral_length (b : Base) (v : Nat) :
    (numeral b v).length = (digitsOf b v).length := by
  rw [numeral, List.length_map, List.length_reverse]

/-- **What the template writes and counts**: the numeral and its length, when the scratch buffer has
room for it. -/
theorem fmtFn_eq (b : Base) {sz : Nat} {w : Width} (val : Val w)
    (hroom : (digitsOf b val.toNat).length ≤ w.sizeof * sz) (ptr : Bool) :
    fmtFn b sz w ptr val =
      some (if ptr then numeral b val.toNat else [], (numeral b val.toNat).length) := by
  cases ptr with
  | false =>
    rw [numeral_length]
    show some ([], countLoop b val.toNat 0) = _
    rw [countLoop_eq, Nat.zero_add]
    rfl
  | true =>
    have hloop := digitLoop_eq b val.toNat 0
      (List.replicate (w.sizeof * sz) '\x00') [] rfl
      (by rwa [List.length_replicate])
    rw [List.append_nil, List.append_nil, Nat.zero_add, ← numeral] at hloop
    have hlen : (digitsOf b val.toNat).length = (numeral b val.toNat).length :=
      (numeral_length b _).symm
    rw [fmtFn, if_pos rfl, hloop, Option.map_some, hlen]
    simp only [List.length_append, Nat.add_sub_cancel, List.drop_left, if_true]

/-- The buffer of the functions for a base has a place for each bit. -/
theorem room_bits (b : Base) {w : Width} (val : Val w) :
    (digitsOf b val.toNat).length ≤ w.sizeof * 8 := by
  have hw : 0 < w.sizeof := by cases w <;> decide
  apply digitsOf_length_le (by omega)
  calc val.toNat < 2 ^ (8 * w.sizeof) := val.isLt
    _ = 2 ^ (w.sizeof * 8) := by rw [Nat.mul_comm]
    _ ≤ b.val ^ (w.sizeof * 8) := Nat.pow_le_pow_left b.two_le _

/-- The buffer of the hexadecimal functions has two places for each byte. -/
theorem room_hex {w : Width} (val : Val w) :
    (digitsOf Base.hex val.toNat).length ≤ w.sizeof * 2 := by
  have hw : 0 < w.sizeof := by cases w <;> decide
  apply digitsOf_length_le (by omega)
  calc val.toNat < 2 ^ (8 * w.sizeof) := val.isLt
    _ = Base.hex.val ^ (w.sizeof * 2) := by
      rw [show Base.hex.val = 2 ^ 4 from rfl, ← Nat.pow_mul]
      congr 1
      omega

theorem xuint_eq {w : Width} (ptr : Bool) (val : Val w) : xuint w ptr val =
    some (if ptr then numeral Base.hex val.toNat else [], (numeral Base.hex val.toNat).length) :=
  fmtFn_eq Base.hex val (room_hex val) ptr

theorem uintBase_eq {w : Width} (ptr : Bool) (val : Val w) (b : Base) : uintBase w ptr val b =
    some (if ptr then numeral b val.toNat else [], (numeral b val.toNat).length) := by
  unfold uintBase
  split
  · rename_i h
    have hb : b = Base.hex := by
      cases b
      cases h
      rfl
    rw [hb, xuint_eq]
  · exact fmtFn_eq b val (room_bits b val) ptr

/-! ## Numerals -/

theorem decode_numeral (b : Base) (v : Nat) : decode b (numeral b v) = v := by
  have hmap : (digitsOf b v).map (fun d => DIGITS.idxOf (digitChar d)) = digitsOf b v := by
    rw [List.map_congr_left (g := id), List.map_id]
    intro d hd
    exact idxOf_digitChar d ((lt_of_mem_digitsOf hd).trans_le b.le_36)
  rw [decode, numeral, ← List.map_reverse, List.reverse_reverse, List.map_map]
  exact (congrArg _ hmap).trans (ofDigits_digitsOf b v)

/-- Each character is a digit of the base. -/
theorem mem_numeral {b : Base} {v : Nat} {c : Char} (h : c ∈ numeral b v) :
    ∃ d < b.val, DIGITS[d]? = some c := by
  obtain ⟨d, hd, rfl⟩ := List.mem_map.1 h
  have hlt := lt_of_mem_digitsOf (List.mem_reverse.1 hd)
  exact ⟨d, hlt, getElem?_digitChar d (hlt.trans_le b.le_36)⟩

/-- A zero stands in front of nothing. -/
theorem numeral_head {b : Base} {v : Nat} (h : (numeral b v).head? = some '0') :
    numeral b v = ['0'] := by
  by_cases hv : v = 0
  · rw [hv]
    rfl
  · have hne : Nat.digits b.val v ≠ [] := Nat.digits_ne_nil_iff_ne_zero.2 hv
    have hlast := Nat.getLast_digit_ne_zero b.val hv
    have hlt : (Nat.digits b.val v).getLast hne < 36 :=
      (Nat.digits_lt_base b.two_le (List.getLast_mem hne)).trans_le b.le_36
    rw [numeral, digitsOf, if_neg hv, List.head?_map, List.head?_reverse,
      List.getLast?_eq_some_getLast hne, Option.map_some, Option.some.injEq] at h
    have hidx := idxOf_digitChar _ hlt
    rw [h] at hidx
    exact absurd hidx.symm hlast

/-- A numeral of a value: digits of the base, without a superfluous zero, that stand for it. -/
structure IsNumeral (b : Base) (t : Text) (v : Nat) : Prop where
  ne_nil : t ≠ []
  digits : ∀ c ∈ t, ∃ d < b.val, DIGITS[d]? = some c
  noZero : t.head? = some '0' → t = ['0']
  value : decode b t = v

theorem isNumeral_numeral (b : Base) (v : Nat) : IsNumeral b (numeral b v) v where
  ne_nil := by
    rw [← List.length_pos_iff, numeral_length]
    exact digitsOf_pos b v
  digits _ := mem_numeral
  noZero := numeral_head
  value := decode_numeral b v

/-! ## The functions -/

/-- A numeral of a signed value has a sign exactly when it is negative. -/
def IsSigned (b : Base) (t : Text) (v : Int) : Prop :=
  if v < 0 then ∃ u, t = '-' :: u ∧ IsNumeral b u v.natAbs
  else IsNumeral b t v.natAbs ∧ t.head? ≠ some '-'

theorem IsNumeral.head_ne_minus {b : Base} {t : Text} {v : Nat} (h : IsNumeral b t v) :
    t.head? ≠ some '-' := by
  intro hminus
  obtain ⟨d, hd, hget⟩ := h.digits '-' (List.mem_of_mem_head? hminus)
  have hmem : '-' ∈ DIGITS := List.mem_of_getElem? hget
  exact absurd hmem (by decide)

/-- The two's complement of a negative value is its absolute value. -/
theorem toNat_neg {w : Width} {val : Val w} (h : val.toInt < 0) :
    (-val).toNat = val.toInt.natAbs := by
  have hlt := val.isLt
  rw [BitVec.toNat_neg]
  rw [BitVec.toInt_eq_toNat_cond] at h ⊢
  split at h
  · omega
  · rw [Nat.mod_eq_of_lt (by omega)]
    omega

theorem toNat_of_nonneg {w : Width} {val : Val w} (h : ¬ val.toInt < 0) :
    val.toNat = val.toInt.natAbs := by
  have hlt := val.isLt
  rw [BitVec.toInt_eq_toNat_cond] at h ⊢
  split
  · rfl
  · rename_i hbig
    rw [if_neg hbig] at h
    omega

/-- The sign is put in front of what an unsigned function writes. -/
theorem withSign_spec {w : Width} {b : Base} {fmt : Bool → Val w → Option (Text × Nat)}
    (hfmt : ∀ ptr val, fmt ptr val =
      some (if ptr then numeral b val.toNat else [], (numeral b val.toNat).length)) (val : Val w) :
    ∃ t, withSign fmt true val = some (t, t.length) ∧
      withSign fmt false val = some ([], t.length) ∧ IsSigned b t val.toInt := by
  unfold withSign IsSigned
  by_cases hneg : val.toInt < 0
  · refine ⟨'-' :: numeral b (-val).toNat, ?_, ?_, ?_⟩
    · rw [if_pos hneg, hfmt]
      rfl
    · rw [if_pos hneg, hfmt]
      rfl
    · rw [if_pos hneg]
      exact ⟨_, rfl, toNat_neg hneg ▸ isNumeral_numeral b _⟩
  · have hnum := isNumeral_numeral b val.toNat
    refine ⟨numeral b val.toNat, ?_, ?_, ?_⟩
    · rw [if_neg hneg, hfmt]
      rfl
    · rw [if_neg hneg, hfmt]
      rfl
    · rw [if_neg hneg, ← toNat_of_nonneg hneg]
      exact ⟨hnum, hnum.head_ne_minus⟩

/-- **Formatting of integers**: for each width, value and base, and for the hexadecimal functions,
what is written at the pointer is the numeral of the value, with a sign exactly when it is negative,
and its length is what is returned, with and without a pointer. -/
theorem fmt_roundtrip (w : Width) (val : Val w) (b : Base) :
    (∃ t, uintBase w true val b = some (t, t.length) ∧
      uintBase w false val b = some ([], t.length) ∧ IsNumeral b t val.toNat) ∧
    (∃ t, xuint w true val = some (t, t.length) ∧ xuint w false val = some ([], t.length) ∧
      IsNumeral Base.hex t val.toNat) ∧
    (∃ t, intBase w true val b = some (t, t.length) ∧
      intBase w false val b = some ([], t.length) ∧ IsSigned b t val.toInt) ∧
    ∃ t, xint w true val = some (t, t.length) ∧ xint w false val = some ([], t.length) ∧
      IsSigned Base.hex t val.toInt :=
  ⟨⟨_, uintBase_eq true val b, uintBase_eq false val b, isNumeral_numeral b _⟩,
    ⟨_, xuint_eq true val, xuint_eq false val, isNumeral_numeral _ _⟩,
    withSign_spec (fun ptr val => uintBase_eq ptr val b) val, withSign_spec xuint_eq val⟩

end Fmt
