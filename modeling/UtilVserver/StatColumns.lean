import Mathlib.Tactic.Ring
import UtilVserver.Fmt
import UtilVserver.Lib.DecimalText
import UtilVserver.Lib.Slots

/-!
# The columns of `vserver-stat`

Amounts of memory and times are shortened to the width of their columns.

* `fmtUlong`, `fillUintZero` — numbers, and numbers in a fixed number of places.
* `shortenMem` — an amount with one place behind the point, in the unit that it needs.
* `shortenTime` — a time in the three units that it needs; `readTime` reads it back.

Principal results: `shortenMem_spec` (the text of an amount is right within two tenths of its unit)
and `shortenTime_exact` (for which times the text is right within its last unit).
-/

set_option autoImplicit false

namespace StatColumns

open CString DecimalText Slots

/-- `utilvserver_fmt_ulong` -/
def fmtUlong (val : Nat) : Text := decimal val

/-! ## Memory -/

def SUFFIXES : List Text := [[' '], ['K'], ['M'], ['G'], ['T'], ['+']]

/-- The loop over the suffixes, of which `n` remain; `i` of them have been passed. -/
def scaleLoop : Nat → Nat → Nat → Nat → Nat × Nat × Text
  | 0, _, val, mod => (val, mod, ['+'])
  | n + 1, i, val, mod =>
    if val < 1000 then (val, mod, SUFFIXES.getD i [])
    else scaleLoop n (i + 1) (val / 1024) (10 * (val % 1024) / 1024)

/-- `shortenMem`: the text and then the suffix end with the seventh column. -/
def shortenMem (buf : List Char) (val : Nat) : Option (List Char) :=
  let (val, mod, suffix) := scaleLoop 6 0 val 0
  let val := if val > 9999 then 9999 else val
  let mod := if val ≥ 1000 then 0 else mod
  let tmp := fmtUlong val ++ if mod ≠ 0 then '.' :: fmtUlong mod else []
  if tmp.length + suffix.length ≤ 7 then
    let i := 7 - tmp.length - suffix.length
    (poke i tmp buf).bind fun buf => poke (i + tmp.length) suffix buf
  else none

/-! ## Times -/

/-- `fillUintZero`: the places that the number has behind the `cnt`-th one are overwritten or not
used. -/
def fillUintZero (val cnt : Nat) : Text :=
  let buf := fmtUlong val
  if buf.length < cnt then List.replicate (cnt - buf.length) '0' ++ buf else buf.take cnt

/-- What `shortenTime` puts into `tmp`. -/
def timeText (t : Nat) : Text :=
  let ms := t % 1000
  let t := t / 1000
  let ss := t % 60
  let t := t / 60
  let mm := t % 60
  let t := t / 60
  let hh := t % 24
  let t := t / 24
  if t > 999 * 999 then "INVALID".toList
  else if t > 999 then
    fmtUlong (t / 365) ++ 'y' :: (fillUintZero (t % 365) 2 ++ 'd' :: fillUintZero hh 2)
  else if t > 0 then fmtUlong t ++ 'd' :: (fillUintZero hh 2 ++ 'h' :: fillUintZero mm 2)
  else if hh > 0 then fmtUlong hh ++ 'h' :: (fillUintZero mm 2 ++ 'm' :: fillUintZero ss 2)
  else fmtUlong mm ++ 'm' :: (fillUintZero ss 2 ++ 's' :: fillUintZero ms 2)

/-- `shortenTime`: the text ends with the tenth column. -/
def shortenTime (buf : List Char) (t : Nat) : Option (List Char) :=
  let tmp := timeText t
  if tmp.length ≤ 10 then poke (10 - tmp.length) tmp buf else none

/-! ## What the texts should say -/

/-- A text ends with a column, and the other places of the buffer are as before. -/
def column (width : Nat) (text buf : List Char) : List Char :=
  buf.take (width - text.length) ++ text ++ buf.drop width

/-- The text of an amount with `n` units and `m` tenths. -/
def memText (n m : Nat) (suffix : Text) : Text :=
  decimal n ++ (if m ≠ 0 then '.' :: decimal m else []) ++ suffix

/-- The length of a unit in milliseconds. -/
def unit : Char → Option Nat
  | 'y' => some (365 * 86400000)
  | 'd' => some 86400000
  | 'h' => some 3600000
  | 'm' => some 60000
  | 's' => some 1000
  | _ => none

/-- The unit of the last field, which is the one behind that of the field before. -/
def lastUnit : Char → Option Nat
  | 'd' => some 3600000
  | 'h' => some 60000
  | 'm' => some 1000
  | 's' => some 10
  | _ => none

/-- A field behind the first one: two places at least. -/
def readField (t : Text) : Option (Nat × Text) :=
  (readDigits t).bind fun r => if 2 ≤ r.1.length then some (digitsVal 10 r.1, r.2) else none

/-- A time that is read back, and the unit of its last field. -/
def readTime (t : Text) : Option (Nat × Nat) :=
  (readDigits t).bind fun a =>
    (unit (charAt a.2 0)).bind fun ua =>
      (readField a.2.tail).bind fun b =>
        (unit (charAt b.2 0)).bind fun ub =>
          (readField b.2.tail).bind fun c =>
            (lastUnit (charAt b.2 0)).bind fun uc =>
              if c.2 = [] then some (digitsVal 10 a.1 * ua + b.1 * ub + c.1 * uc, uc) else none

/-- The text of a time fits its columns and denotes a time that is at most `t` and less than one
unit of its last field below it. -/
def TimeRight (buf : List Char) (t : Nat) : Prop :=
  (timeText t).length ≤ 10 ∧ shortenTime buf t = some (column 10 (timeText t) buf) ∧
    ∃ v u, readTime (timeText t) = some (v, u) ∧ v ≤ t ∧ t < v + u

/-! ## Numbers -/

/-- The base of the decimal numbers. -/
def ten : Fmt.Base := ⟨10, by decide, by decide⟩

theorem digitChar_eq : ∀ d < 10, Fmt.digitChar d = Nat.digitChar d := by decide

theorem numeral_ten (v : Nat) : Fmt.numeral ten v = decimal v := by
  induction v using Nat.strongRecOn with
  | _ v ih =>
    have hlast : Fmt.digitChar (v % 10) = Nat.digitChar (v % 10) :=
      digitChar_eq _ (Nat.mod_lt _ (by decide))
    rw [Fmt.numeral, Fmt.digitsOf_eq, decimal, Nat.toDigits_eq_if (by decide)]
    show (v % 10 :: if v / 10 ≠ 0 then Fmt.digitsOf ten (v / 10) else []).reverse.map _ = _
    by_cases hsmall : v < 10
    · have hdiv : v / 10 = 0 := Nat.div_eq_of_lt hsmall
      rw [if_pos hsmall, if_neg (not_not.2 hdiv), List.reverse_singleton, List.map_singleton, hlast,
        Nat.mod_eq_of_lt hsmall]
    · have hdiv : v / 10 ≠ 0 := by omega
      rw [if_neg hsmall, if_pos hdiv, List.reverse_cons, List.map_append, List.map_singleton, hlast]
      exact congrArg (· ++ _) (ih (v / 10) (by omega))

/-- `fmtUlong` is the template of `ensc_fmt` with base 10. -/
theorem fmtUlong_eq (val : Fmt.Val .bits64) : Fmt.uintBase .bits64 true val ten =
    some (fmtUlong val.toNat, (fmtUlong val.toNat).length) := by
  rw [Fmt.uintBase_eq, if_pos rfl, numeral_ten]
  rfl

theorem fmtUlong_length_le {n w : Nat} (hw : 0 < w) (h : n < 10 ^ w) : (fmtUlong n).length ≤ w :=
  decimal_length_le hw h

/-- **A number that fits is filled with zeros.** -/
theorem fillUintZero_eq {val cnt : Nat} (hcnt : 0 < cnt) (h : val < 10 ^ cnt) :
    fillUintZero val cnt = padded cnt val := by
  have hle := fmtUlong_length_le hcnt h
  unfold fillUintZero padded
  dsimp only
  split
  · rfl
  · rename_i hlen
    have hfull : (fmtUlong val).length = cnt := by omega
    rw [← hfull, List.take_length, show decimal val = fmtUlong val from rfl, Nat.sub_self]
    rfl

/-! ## Columns -/

/-- What is copied up to the end of a column. -/
theorem poke_column {width : Nat} {text buf : List Char} (htext : text.length ≤ width)
    (hbuf : width ≤ buf.length) :
    poke (width - text.length) text buf = some (column width text buf) := by
  have hend : width - text.length + text.length = width := Nat.sub_add_cancel htext
  rw [poke, hend, if_pos hbuf]
  rfl

/-! ## Amounts of memory -/

/-- The tenths that the loop has found behind `k` shifts. -/
def tenths (val : Nat) : Nat → Nat
  | 0 => 0
  | k + 1 => 10 * (val / 1024 ^ k % 1024) / 1024

theorem tenths_lt (val k : Nat) : tenths val k < 10 := by
  cases k with
  | zero => exact Nat.zero_lt_succ _
  | succ k =>
    have hlt := Nat.mod_lt (val / 1024 ^ k) (show 0 < 1024 by decide)
    rw [tenths]
    omega

/-- **The loop stops with the first unit of which there are less than 1000.** -/
theorem scaleLoop_spec (val n i : Nat) (hpassed : ∀ j < i, 1000 ≤ val / 1024 ^ j)
    (hend : val / 1024 ^ (i + n) < 1000) :
    ∃ k ≤ i + n, (∀ j < k, 1000 ≤ val / 1024 ^ j) ∧ val / 1024 ^ k < 1000 ∧
      scaleLoop (n + 1) i (val / 1024 ^ i) (tenths val i) =
        (val / 1024 ^ k, tenths val k, SUFFIXES.getD k []) := by
  induction n generalizing i with
  | zero => exact ⟨i, Nat.le_refl _, hpassed, hend, if_pos hend⟩
  | succ n ih =>
    by_cases hstop : val / 1024 ^ i < 1000
    · exact ⟨i, Nat.le_add_right _ _, hpassed, hstop, if_pos hstop⟩
    · have hpassed' : ∀ j < i + 1, 1000 ≤ val / 1024 ^ j := by
        intro j hj
        rcases Nat.lt_succ_iff_lt_or_eq.1 hj with hj | rfl
        · exact hpassed j hj
        · exact Nat.le_of_not_lt hstop
      have hshift : i + 1 + n = i + (n + 1) := by omega
      rw [← hshift] at hend ⊢
      obtain ⟨k, hk, hfirst, hlt, heq⟩ := ih (i + 1) hpassed' hend
      refine ⟨k, hk, hfirst, hlt, ?_⟩
      rw [scaleLoop, if_neg hstop, Nat.div_div_eq_div_mul, ← Nat.pow_succ]
      exact heq

/-- **The error of the tenths**: only the bits that were shifted out last are looked at. -/
theorem tenths_bounds (val k : Nat) :
    (10 * (val / 1024 ^ k) + tenths val k) * 1024 ^ k ≤ 10 * val ∧
      10 * val < (10 * (val / 1024 ^ k) + tenths val k + 2) * 1024 ^ k := by
  cases k with
  | zero =>
    simp only [tenths, Nat.pow_zero, Nat.div_one]
    omega
  | succ k =>
    have hpos : 0 < 1024 ^ k := Nat.pow_pos (by decide)
    have hval := Nat.div_add_mod val (1024 ^ k)
    have hrest := Nat.mod_lt val hpos
    have hunits : val / 1024 ^ (k + 1) = val / 1024 ^ k / 1024 := by
      rw [Nat.div_div_eq_div_mul, Nat.pow_succ]
    rw [tenths, hunits, Nat.pow_succ]
    generalize val / 1024 ^ k = q at *
    generalize val % 1024 ^ k = s at *
    generalize 1024 ^ k = p at *
    -- what the tenths leave over, in units of `p`
    have hlow : (10 * (q / 1024) + 10 * (q % 1024) / 1024) * 1024 ≤ 10 * q := by omega
    have hhigh : 10 * q + 10 ≤ (10 * (q / 1024) + 10 * (q % 1024) / 1024 + 2) * 1024 := by omega
    generalize 10 * (q / 1024) + 10 * (q % 1024) / 1024 = a at *
    constructor
    · calc a * (p * 1024) = a * 1024 * p := by ring
        _ ≤ 10 * q * p := Nat.mul_le_mul_right p hlow
        _ = 10 * (p * q) := by ring
        _ ≤ 10 * val := by omega
    · calc 10 * val < 10 * (p * q) + 10 * p := by omega
        _ = (10 * q + 10) * p := by ring
        _ ≤ (a + 2) * 1024 * p := Nat.mul_le_mul_right p hhigh
        _ = (a + 2) * (p * 1024) := by ring

/-- Two texts are copied one behind the other. -/
theorem poke_twice {off : Nat} {a b buf : List Char} (h : off + a.length + b.length ≤ buf.length) :
    ((poke off a buf).bind fun buf => poke (off + a.length) b buf) = poke off (a ++ b) buf := by
  obtain ⟨p, r, hp, rfl⟩ : ∃ p r, p.length = off ∧ buf = p ++ r :=
    ⟨_, _, List.length_take_of_le (by omega), (List.take_append_drop off buf).symm⟩
  rw [List.length_append] at h
  obtain ⟨t, r, ht, rfl⟩ : ∃ t r', t.length = a.length ∧ r = t ++ r' :=
    ⟨_, _, List.length_take_of_le (by omega), (List.take_append_drop a.length r).symm⟩
  rw [List.length_append] at h
  obtain ⟨u, r, hu, rfl⟩ : ∃ u r', u.length = b.length ∧ r = u ++ r' :=
    ⟨_, _, List.length_take_of_le (by omega), (List.take_append_drop b.length r).symm⟩
  have hfirst := poke_append (p := p) (u := u ++ r) ht.symm
  have hsecond := poke_append (p := p ++ a) (u := r) hu.symm
  have hlen : (a ++ b).length = (t ++ u).length := by
    rw [List.length_append, List.length_append, ht, hu]
  have hboth := poke_append (p := p) (u := r) hlen
  rw [List.append_assoc, List.append_assoc, List.length_append] at hsecond
  rw [List.append_assoc, List.append_assoc] at hboth
  rw [← hp, hfirst, Option.bind_some, hsecond, hboth]

/-- **The text of an amount** is that of the smallest unit of which there are less than 1000, with
tenths that are less than two tenths too low, and ends with the seventh column. -/
theorem shortenMem_spec (buf : List Char) (val : Nat) (hval : val < 1000 * 1024 ^ 4)
    (hbuf : 7 ≤ buf.length) :
    ∃ n m k suffix, [[' '], ['K'], ['M'], ['G'], ['T']][k]? = some suffix ∧
      (memText n m suffix).length ≤ 7 ∧
      shortenMem buf val = some (column 7 (memText n m suffix) buf) ∧
      m < 10 ∧ (10 * n + m) * 1024 ^ k ≤ 10 * val ∧ 10 * val < (10 * n + m + 2) * 1024 ^ k ∧
      val / 1024 ^ k < 1000 ∧ ∀ j < k, 1000 ≤ val / 1024 ^ j := by
  have hfour : val / 1024 ^ 4 < 1000 := Nat.div_lt_of_lt_mul (by omega)
  obtain ⟨k, hk, hfirst, hlt, hloop⟩ := scaleLoop_spec val 5 0 (fun j hj => by omega)
    (Nat.div_lt_of_lt_mul (by omega))
  have hk4 : k ≤ 4 := by
    by_contra hmore
    have := hfirst 4 (by omega)
    omega
  rw [Nat.pow_zero, Nat.div_one] at hloop
  change scaleLoop 6 0 val 0 = _ at hloop
  obtain ⟨suffix, hsuffix, hsame, hone⟩ : ∃ suffix,
      [[' '], ['K'], ['M'], ['G'], ['T']][k]? = some suffix ∧ SUFFIXES.getD k [] = suffix ∧
        suffix.length = 1 := by
    match k, hk4 with
    | 0, _ => exact ⟨_, rfl, rfl, rfl⟩
    | 1, _ => exact ⟨_, rfl, rfl, rfl⟩
    | 2, _ => exact ⟨_, rfl, rfl, rfl⟩
    | 3, _ => exact ⟨_, rfl, rfl, rfl⟩
    | 4, _ => exact ⟨_, rfl, rfl, rfl⟩
  have hm := tenths_lt val k
  obtain ⟨hlow, hhigh⟩ := tenths_bounds val k
  have hn : (fmtUlong (val / 1024 ^ k)).length ≤ 3 := fmtUlong_length_le (by decide) hlt
  have hdigit : (fmtUlong (tenths val k)).length ≤ 1 := fmtUlong_length_le (by decide) hm
  -- the text in front of the suffix
  obtain ⟨tmp, htmp⟩ : ∃ tmp, tmp = fmtUlong (val / 1024 ^ k) ++
      if tenths val k ≠ 0 then '.' :: fmtUlong (tenths val k) else [] := ⟨_, rfl⟩
  have htext : memText (val / 1024 ^ k) (tenths val k) suffix = tmp ++ suffix := by
    rw [htmp]
    rfl
  have htmpLen : tmp.length ≤ 5 := by
    rw [htmp, List.length_append]
    split
    · rw [List.length_cons]
      omega
    · rw [List.length_nil]
      omega
  have hlen : (tmp ++ suffix).length ≤ 7 := by
    rw [List.length_append]
    omega
  refine ⟨val / 1024 ^ k, tenths val k, k, suffix, hsuffix, ?_, ?_, hm, hlow, hhigh, hlt, hfirst⟩
  · rw [htext]
    exact hlen
  · have hbig : ¬ val / 1024 ^ k > 9999 := by omega
    have hthousand : ¬ val / 1024 ^ k ≥ 1000 := by omega
    have hplace : 7 - tmp.length - suffix.length = 7 - (tmp ++ suffix).length := by
      rw [List.length_append, Nat.sub_sub]
    unfold shortenMem
    rw [hloop]
    simp only [if_neg hbig, if_neg hthousand]
    rw [← htmp, hsame, if_pos (by omega), poke_twice (by omega), hplace, poke_column hlen hbuf, htext]

/-- One and a half kilobytes. -/
theorem shortenMem_spec_kilobyte :
    (∃ n m k suffix, [[' '], ['K'], ['M'], ['G'], ['T']][k]? = some suffix ∧
      (memText n m suffix).length ≤ 7 ∧
      shortenMem (List.replicate 7 ' ') 1536 = some (column 7 (memText n m suffix)
        (List.replicate 7 ' ')) ∧
      m < 10 ∧ (10 * n + m) * 1024 ^ k ≤ 10 * 1536 ∧ 10 * 1536 < (10 * n + m + 2) * 1024 ^ k ∧
      1536 / 1024 ^ k < 1000 ∧ ∀ j < k, 1000 ≤ 1536 / 1024 ^ j) ∧
    shortenMem (List.replicate 7 ' ') 1536 = some "   1.5K".toList :=
  ⟨shortenMem_spec _ 1536 (by decide) (by decide), by decide⟩

/-! ## Times -/

/-- The number that two places show of a number below 1000. -/
def shown (val : Nat) : Nat := if val < 100 then val else val / 10

theorem shown_lt {val : Nat} (h : val < 1000) : shown val < 100 := by
  unfold shown
  split <;> omega

/-- **Of three digits the last one is cut off.** -/
theorem fillUintZero_two {val : Nat} (h : val < 1000) :
    fillUintZero val 2 = padded 2 (shown val) := by
  by_cases hsmall : val < 100
  · rw [shown, if_pos hsmall]
    exact fillUintZero_eq (by decide) hsmall
  · have hfront : fmtUlong val = decimal (val / 10) ++ [Nat.digitChar (val % 10)] := by
      rw [fmtUlong, decimal, Nat.toDigits_eq_if (by decide), if_neg (by omega)]
      rfl
    have hle := decimal_length_le (n := val / 10) (w := 2) (by decide) (by omega)
    have hge : ¬ (decimal (val / 10)).length ≤ 1 := by
      intro hone
      have := (Nat.length_toDigits_le_iff (b := 10) (by decide) (by decide)).1 hone
      omega
    have hlen : (decimal (val / 10)).length = 2 := by omega
    have hnot : ¬ (decimal (val / 10) ++ [Nat.digitChar (val % 10)]).length < 2 := by
      rw [List.length_append, hlen, List.length_singleton]
      omega
    unfold fillUintZero
    dsimp only
    rw [hfront, if_neg hnot, List.take_left' hlen, shown, if_neg hsmall, padded, hlen]
    rfl

theorem ends_of_unit {x : Char} {u : Nat} (h : unit x = some u) (r : Text) : Ends (x :: r) := by
  refine ends_cons ?_ r
  unfold unit at h
  split at h
  all_goals first | decide | cases h

theorem readField_padded {b : Nat} {r : Text} (hb : b < 100) (hr : Ends r) :
    readField (padded 2 b ++ r) = some (b, r) := by
  have hlen := padded_length (w := 2) (by decide) hb
  rw [readField, readDigits_append (numeral_padded 2 b) hr, Option.bind_some]
  dsimp only
  rw [hlen, if_pos (Nat.le_refl 2), digitsVal_padded]

/-- **Three fields**: the text of them, and what is read back. -/
theorem fields_read {a b c ux uy uc : Nat} {x y : Char} (hx : unit x = some ux)
    (hy : unit y = some uy) (hlast : lastUnit y = some uc) (ha : a < 10 ^ 4) (hb : b < 1000)
    (hc : c < 1000) {text : Text}
    (htext : text = fmtUlong a ++ x :: (fillUintZero b 2 ++ y :: fillUintZero c 2)) :
    text.length ≤ 10 ∧ readTime text = some (a * ux + shown b * uy + shown c * uc, uc) := by
  have hb' := shown_lt hb
  have hc' := shown_lt hc
  have hpad : fillUintZero c 2 = padded 2 (shown c) ++ [] := by
    rw [fillUintZero_two hc, List.append_nil]
  rw [fillUintZero_two hb, hpad] at htext
  constructor
  · have hlen : (fmtUlong a).length ≤ 4 := fmtUlong_length_le (by decide) ha
    have hlenB := padded_length (w := 2) (by decide) hb'
    have hlenC := padded_length (w := 2) (by decide) hc'
    rw [htext]
    simp only [List.length_append, List.length_cons, hlenB, hlenC, List.length_nil]
    omega
  · have hfirst := readDigits_append (numeral_decimal a) (ends_of_unit hx
      (padded 2 (shown b) ++ y :: (padded 2 (shown c) ++ [])))
    have hsecond := readField_padded hb' (ends_of_unit hy (padded 2 (shown c) ++ []))
    have hthird := readField_padded hc' ends_nil
    rw [htext, readTime, fmtUlong, hfirst, Option.bind_some]
    show ((unit x).bind fun ua => (readField (padded 2 (shown b) ++ _)).bind _) = _
    rw [hx, Option.bind_some, hsecond, Option.bind_some]
    show ((unit y).bind fun ub => (readField (padded 2 (shown c) ++ [])).bind _) = _
    rw [hy, Option.bind_some, hthird, Option.bind_some]
    show ((lastUnit y).bind _) = _
    rw [hlast, Option.bind_some, if_pos rfl, digitsVal_decimal]

theorem timeRight_iff {buf : List Char} {t v u : Nat} (hbuf : 10 ≤ buf.length)
    (hlen : (timeText t).length ≤ 10) (hread : readTime (timeText t) = some (v, u)) :
    TimeRight buf t ↔ v ≤ t ∧ t < v + u := by
  have hcopy : shortenTime buf t = some (column 10 (timeText t) buf) := by
    rw [shortenTime, if_pos hlen]
    exact poke_column hlen hbuf
  constructor
  · rintro ⟨-, -, v', u', h, hbounds⟩
    rw [hread] at h
    cases h
    exact hbounds
  · intro hbounds
    exact ⟨hlen, hcopy, v, u, hread, hbounds⟩

/-- **For which times below `999 * 999` days the text is right**: not when more than 99 days follow
the years, and not when an hour has not passed and less than a tenth of a second is shown. -/
theorem shortenTime_exact (buf : List Char) (t : Nat) (ht : t < 999 * 999 * 86400000)
    (hbuf : 10 ≤ buf.length) :
    TimeRight buf t ↔ ¬ (1000 ≤ t / 86400000 ∧ 100 ≤ t / 86400000 % 365) ∧
      ¬ (t < 3600000 ∧ 0 < t % 1000 ∧ t % 1000 < 100) := by
  have hms := Nat.mod_lt t (show 0 < 1000 by decide)
  have hss := Nat.mod_lt (t / 1000) (show 0 < 60 by decide)
  have hmm := Nat.mod_lt (t / 1000 / 60) (show 0 < 60 by decide)
  have hhh := Nat.mod_lt (t / 1000 / 60 / 60) (show 0 < 24 by decide)
  have hdays : t / 1000 / 60 / 60 / 24 = t / 86400000 := by omega
  have hvalid : ¬ t / 86400000 > 999 * 999 := by omega
  have htext := timeText.eq_1 t
  rw [hdays, if_neg hvalid] at htext
  by_cases hyears : t / 86400000 > 999
  · rw [if_pos hyears] at htext
    have hshort := Nat.mod_lt (t / 86400000) (show 0 < 365 by decide)
    obtain ⟨hlen, hread⟩ := fields_read (x := 'y') (y := 'd') rfl rfl rfl (by omega) (by omega)
      (by omega) htext
    have hhours : shown (t / 1000 / 60 / 60 % 24) = t / 1000 / 60 / 60 % 24 := if_pos (by omega)
    rw [timeRight_iff hbuf hlen hread, hhours, shown]
    split <;> omega
  · rw [if_neg hyears] at htext
    by_cases hday : t / 86400000 > 0
    · rw [if_pos hday] at htext
      obtain ⟨hlen, hread⟩ := fields_read (x := 'd') (y := 'h') rfl rfl rfl (by omega) (by omega)
        (by omega) htext
      rw [timeRight_iff hbuf hlen hread, shown, if_pos (by omega), shown, if_pos (by omega)]
      omega
    · rw [if_neg hday] at htext
      by_cases hhour : t / 1000 / 60 / 60 % 24 > 0
      · rw [if_pos hhour] at htext
        obtain ⟨hlen, hread⟩ := fields_read (x := 'h') (y := 'm') rfl rfl rfl (by omega) (by omega)
          (by omega) htext
        rw [timeRight_iff hbuf hlen hread, shown, if_pos (by omega), shown, if_pos (by omega)]
        omega
      · rw [if_neg hhour] at htext
        obtain ⟨hlen, hread⟩ := fields_read (x := 'm') (y := 's') rfl rfl rfl (by omega) (by omega)
          (by omega) htext
        have hseconds : shown (t / 1000 % 60) = t / 1000 % 60 := if_pos (by omega)
        rw [timeRight_iff hbuf hlen hread, hseconds, shown]
        split <;> omega

/-- Two days and some hours, and 1234 days: 3 years and 139 days, of which 13 are shown. -/
theorem shortenTime_exact_days :
    TimeRight (List.replicate 10 ' ') 200000000 ∧ ¬ TimeRight (List.replicate 10 ' ') 106617600000 :=
  ⟨(shortenTime_exact _ 200000000 (by decide) (by decide)).2 (by decide), fun h =>
    absurd ((shortenTime_exact _ 106617600000 (by decide) (by decide)).1 h) (by decide)⟩

/-- Five milliseconds are shown as five hundredths of a second, and of the 139 days of a fourth year
only 13 are. -/
theorem shortenTime_wrong :
    (shortenTime (List.replicate 10 ' ') 5 = some "   0m00s05".toList ∧
      ¬ TimeRight (List.replicate 10 ' ') 5) ∧
    (shortenTime (List.replicate 10 ' ') 106617600000 = some "   3y13d00".toList ∧
      ¬ TimeRight (List.replicate 10 ' ') 106617600000) := by
  refine ⟨⟨by decide +kernel, ?_⟩, by decide +kernel, ?_⟩
  · rintro ⟨-, -, v, u, hread, hle, -⟩
    have hfifty : readTime (timeText 5) = some (50, 10) := by decide +kernel
    rw [hfifty] at hread
    cases hread
    exact absurd hle (by decide)
  · rintro ⟨-, -, v, u, hread, -, hlt⟩
    have hthirteen : readTime (timeText 106617600000) =
        some (3 * (365 * 86400000) + 13 * 86400000, 3600000) := by decide +kernel
    rw [hthirteen] at hread
    cases hread
    exact absurd hlt (by decide)

end StatColumns
