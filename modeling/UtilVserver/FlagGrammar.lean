import UtilVserver.NameTables

/-!
# The documented grammar of flag lists and what the parser accepts

`apidoc/list2xxx.syntax` defines the lists, with `~` (and `!`) for negation:

    LIST   <- ELEM  | ELEM ',' LIST
    ELEM   <- '~' ELEM | MASK | NAME
    MASK   <- NUMBER | '^' NUMBER
    NAME   <- <literal name> | "all" | "any" | "none"

* `docElem`, `docReads` — the grammar: the mention an element stands for, and those of a list.
* `lenientElem` — what the parser accepts for an element of a NUL-terminated list.

Principal results: `readSpan_eq_lenient` (the parser reads every element leniently),
`lenientRead_of_not_slip` (outside the five kinds of `Slip` the lenient reading is the documented
one) and `listparser_meets_grammar_iff` (when exactly the parser does what the grammar says).
-/

set_option autoImplicit false

namespace FlagGrammar

open CString BitMention ListParser NameTables

variable {T : NumType}

/-! ## The grammar -/

/-- `MASK`: a numeral that fits the type, or `^` and a bit number inside its width. -/
def docMask (T : NumType) : Text → Option (BitVec T.bits)
  | '^' :: d => (cNumeral d).bind fun n => if n < T.bits then some (1#T.bits <<< n) else none
  | u => (cNumeral u).bind fun n => if n < 2 ^ T.bits then some (BitVec.ofNat T.bits n) else none

/-- The bits an element stands for, without its prefixes: a keyword, a `MASK` or a name. -/
def docValue (T : NumType) (func : Lookup T.bits) (u : Text) : Option (BitVec T.bits) :=
  if u = [] then none
  else if lower u = "all".toList ∨ lower u = "any".toList then some (BitVec.allOnes T.bits)
  else if lower u = "none".toList then some 0#T.bits
  else (docMask T u).or (func.call u u.length)

/-- `ELEM`. -/
def docElem (T : NumType) (func : Lookup T.bits) (t : Text) : Option (Mention T.bits) :=
  (docValue T func (stripText t false).1).map fun v => ⟨(stripText t false).2, v⟩

/-- `LIST`, or nothing at all: the mentions of the elements in order. -/
def docReads (T : NumType) (func : Lookup T.bits) (s : Text) : Option (List (Mention T.bits)) :=
  if s = [] then some [] else (s.splitOn ',').mapM (docElem T func)

/-- What a caller reads in the documentation: success exactly for the lists of the grammar, and
then the elements folded in order over the start values. -/
structure MeetsGrammar (T : NumType) (func : Lookup T.bits) (s : Text) (flag mask : BitVec T.bits)
    (r : ListResult T.bits) : Prop where
  accepts : r.code = 0 ↔ (docReads T func s).isSome = true
  flag_fold : ∀ ms, docReads T func s = some ms → r.flag = foldFlag ms flag
  mask_fold : ∀ ms, docReads T func s = some ms → r.mask = some (foldMask ms mask)
  flag_bit : ∀ ms, docReads T func s = some ms → ∀ b, r.flag.getLsbD b =
    match lastSign ms b with
    | some neg => !neg
    | none => flag.getLsbD b
  mask_bit : ∀ ms, docReads T func s = some ms → ∃ m, r.mask = some m ∧
    ∀ b, m.getLsbD b = (mask.getLsbD b || (lastSign ms b).isSome)

/-! ## What the parser accepts -/

/-- `u` is a keyword or an abbreviation of it: `strncasecmp(str, kw, cnt)==0`. -/
def abbreviates (u kw : Text) : Bool := (lower u).isPrefixOf kw

/-- What the parser makes of a number or name `u` in front of `f`. -/
def lenientNumber (T : NumType) (func : Lookup T.bits) (u f : Text) : ElemResult T.bits :=
  if charAt u 0 = '^' then
    let n := (strtol T.longBits u.tail).1
    if 0 ≤ n ∧ n < T.bits then
      if (signedNumeral u.tail).isSome then .value (1#T.bits <<< n.toNat)
      else lookupName func.call (u.tail ++ f) u.tail.length
    else .undef
  else if (signedNumeral u).isSome then .value (BitVec.ofInt T.bits (strtol T.longBits u).1)
  else lookupName func.call (u ++ f) u.length

/-- What the parser makes of an element `u` in front of `f`, in the terms of the grammar. -/
def lenientRead (T : NumType) (func : Lookup T.bits) (u f : Text) : ElemResult T.bits :=
  if u = [] then .failed f 0
  else if abbreviates u "all".toList || abbreviates u "any".toList then
    .value (BitVec.allOnes T.bits)
  else if abbreviates u "none".toList then .value 0#T.bits
  else lenientNumber T func u f

/-- The element `t` in front of `f`, with its prefixes. -/
def lenientElem (T : NumType) (func : Lookup T.bits) (t f : Text) : Bool × ElemResult T.bits :=
  ((stripText t false).2, lenientRead T func (stripText t false).1 f)

theorem keyword_eq_abbreviates {kw : Text} (hkw : lower kw = kw) (u f : Text) :
    strncasecmp (u ++ f) kw u.length = abbreviates u kw := by
  have htake : ∀ n, lower (kw.take n) = kw.take n := fun n => by
    rw [lower, List.map_take]; exact congrArg _ hkw
  rw [strncasecmp_append, Bool.eq_iff_iff, strncasecmp_iff, htake, List.take_length, abbreviates,
    List.isPrefixOf_iff_prefix, List.prefix_iff_eq_take, lower_length]

theorem isNumber_caret {d f : Text} (hd : Shields d f) (n : Nat) :
    isNumber T ('^' :: (d ++ f)) n (charAt f 0) =
      if 0 ≤ (strtol T.longBits d).1 ∧ (strtol T.longBits d).1 < T.bits then
        some ⟨(signedNumeral d).isSome, d ++ f, n - 1,
          1#T.bits <<< (strtol T.longBits d).1.toNat⟩
      else none := by
  simp only [isNumber, endTest]
  rw [endTest_shielded hd, strtol_shielded hd]

theorem isNumber_plain {x : Char} {d f : Text} (hu : Shields (x :: d) f) (hx : x ≠ '^') (n : Nat) :
    isNumber T (x :: (d ++ f)) n (charAt f 0) =
      some ⟨(signedNumeral (x :: d)).isSome, x :: (d ++ f), n,
        BitVec.ofInt T.bits (strtol T.longBits (x :: d)).1⟩ := by
  have he := endTest_shielded hu T.longBits
  have hs := strtol_shielded hu T.longBits
  simp only [List.cons_append] at he hs
  unfold isNumber endTest
  split
  · rename_i h; cases h; exact absurd rfl hx
  · simp only
    rw [he, hs]

theorem numberOrName_eq_lenient (func : Lookup T.bits) {u f : Text} (hne : u ≠ [])
    (hu : Shields u f) (hd : ∀ d, u = '^' :: d → Shields d f) :
    numberOrName T func.call (u ++ f) u.length = lenientNumber T func u f := by
  unfold numberOrName lenientNumber
  cases u with
  | nil => exact absurd rfl hne
  | cons x d =>
    simp only [charAt_append_length]
    by_cases hx : x = '^'
    · subst hx
      rw [List.cons_append, isNumber_caret (hd d rfl), charAt_cons_zero, if_pos rfl, List.tail_cons]
      simp only [List.length_cons, Nat.add_sub_cancel]
      by_cases hn : 0 ≤ (strtol T.longBits d).1 ∧ (strtol T.longBits d).1 < T.bits
      · rw [if_pos hn, if_pos hn]
      · rw [if_neg hn, if_neg hn]
    · rw [List.cons_append, isNumber_plain hu hx, charAt_cons_zero, if_neg hx]

/-- **The tests of the parser on one element**, when what follows keeps out of its number. -/
theorem parseElem_eq_lenient (func : Lookup T.bits) {u f : Text}
    (hu : Shields u f) (hd : ∀ d, u = '^' :: d → Shields d f) :
    parseElem T func.call true (u ++ f) u.length = lenientRead T func u f := by
  have hall := keyword_eq_abbreviates (show lower "all".toList = "all".toList by decide) u f
  have hany := keyword_eq_abbreviates (show lower "any".toList = "any".toList by decide) u f
  have hnone := keyword_eq_abbreviates (show lower "none".toList = "none".toList by decide) u f
  unfold parseElem lenientRead
  by_cases hne : u = []
  · subst hne; rfl
  · have hlen : ¬ u.length = 0 := by simp [hne]
    rw [if_neg hlen, if_neg hne, numberOrName_eq_lenient func hne hu hd]
    simp only [Bool.true_and, hall, hany, hnone]

/-! ## Elements of a NUL-terminated list -/

/-- The span is an element `t` with the end of the string or a comma behind it. -/
def Delimited (sp : Span) : Prop :=
  ∃ t f, sp = ⟨t ++ f, t.length⟩ ∧ ',' ∉ t ∧ '\x00' ∉ t ∧ (f = [] ∨ ∃ r, f = ',' :: r)

theorem shields_delimited {t f : Text} (hc : ',' ∉ t) (h0 : '\x00' ∉ t)
    (hf : f = [] ∨ ∃ r, f = ',' :: r) : Shields t f := by
  rcases hf with rfl | ⟨r, rfl⟩
  · exact ⟨Or.inl rfl, by simpa using h0⟩
  · exact ⟨Or.inr ⟨',', r, rfl, numberEnd_comma, Or.inl (by decide)⟩, by simpa using hc⟩

theorem spans_delimited : ∀ s : Text, '\x00' ∉ s → ∀ sp ∈ spans s s.length, Delimited sp := by
  intro s
  induction s using list_induction with
  | nil => intro _ sp hsp; simp [spans_zero] at hsp
  | single t hne hc =>
    intro h0 sp hsp
    have hs := spans_single hne hc []
    rw [List.append_nil] at hs
    rw [hs, List.mem_singleton] at hsp
    exact ⟨t, [], by simpa using hsp, hc, h0, Or.inl rfl⟩
  | cons t r hc ih =>
    intro h0 sp hsp
    simp only [List.mem_append, List.mem_cons, not_or] at h0
    have hs := spans_cons hc r []
    simp only [List.append_nil] at hs
    rw [List.length_append, List.length_cons, hs, List.mem_cons] at hsp
    rcases hsp with rfl | hsp
    · exact ⟨t, ',' :: r, rfl, hc, h0.1, Or.inr ⟨r, rfl⟩⟩
    · exact ih h0.2.2 sp hsp

/-- **The parser reads an element of a NUL-terminated list leniently.** -/
theorem readSpan_eq_lenient (func : Lookup T.bits) {t f : Text} (hc : ',' ∉ t) (h0 : '\x00' ∉ t)
    (hf : f = [] ∨ ∃ r, f = ',' :: r) :
    readSpan T func.call true ⟨t ++ f, t.length⟩ = lenientElem T func t f := by
  have hsp := stripPrefix_append (r := f) (m := 0) (Or.inl rfl) true t
  rw [Nat.add_zero, Nat.add_zero] at hsp
  have hsub := stripText_suffix t false
  have hu : Shields (stripText t false).1 f :=
    shields_delimited (fun h => hc (hsub.subset h)) (fun h => h0 (hsub.subset h)) hf
  have hd : ∀ d, (stripText t false).1 = '^' :: d → Shields d f := fun d hd => by
    have hsuf : d <:+ t := ((List.suffix_cons '^' d).trans (hd ▸ List.suffix_refl _)).trans hsub
    exact shields_delimited (fun h => hc (hsuf.subset h)) (fun h => h0 (hsuf.subset h)) hf
  rw [readSpan, hsp]
  simp only [stripElem, if_true, lenientElem, parseElem_eq_lenient func hu hd]

/-- The readings of a NUL-terminated list, in the terms of the grammar. -/
def lenientReads (T : NumType) (func : Lookup T.bits) (s : Text) :
    List (Bool × ElemResult T.bits) :=
  (spans s s.length).map fun sp => lenientElem T func sp.text (sp.ptr.drop sp.len)

theorem reads_eq_lenient (func : Lookup T.bits) {s : Text} (h0 : '\x00' ∉ s) :
    (spans s s.length).map (readSpan T func.call true) = lenientReads T func s := by
  apply List.map_congr_left
  intro sp hsp
  obtain ⟨t, f, rfl, hc, h0, hf⟩ := spans_delimited s h0 sp hsp
  rw [readSpan_eq_lenient func hc h0 hf]
  simp [Span.text]

/-- **What the parser returns for a NUL-terminated list.** -/
theorem listparser_eq_lenient (func : Lookup T.bits) (s : CStr) (flag mask : BitVec T.bits) :
    listparser T s.text 0 flag (some mask) func.call =
      (verdict (lenientReads T func s.text)).result s.text.length flag (some mask) := by
  rw [listparser_eq_foldSpans, foldSpans_eq_result, Option.isSome_some,
    reads_eq_lenient func s.noNul]

/-! ## The slips -/

/-- The ways in which the parser leaves the grammar on an element `u` in front of `f`. -/
inductive Slip (T : NumType) (func : Lookup T.bits) (u f : Text) : Prop
  /-- Fewer characters of a keyword. -/
  | abbreviation (kw : Text) (hkw : kw ∈ ["all".toList, "any".toList, "none".toList])
      (ha : abbreviates u kw = true) (hne : lower u ≠ kw)
  /-- A numeral behind blanks or a sign. -/
  | loose (hn : (signedNumeral u).isSome = true) (hc : cNumeral u = none)
  /-- A numeral that the conversion saturates or the type cuts off. -/
  | large (n : Nat) (hc : cNumeral u = some n) (hn : 2 ^ (T.longBits - 1) ≤ n ∨ 2 ^ T.bits ≤ n)
  /-- A shift by a count outside the width. -/
  | shift (d : Text) (hu : u = '^' :: d)
      (hn : ¬ (0 ≤ (strtol T.longBits d).1 ∧ (strtol T.longBits d).1 < T.bits))
  /-- A bit number behind blanks or a sign. -/
  | looseBit (d : Text) (hu : u = '^' :: d) (hn : (signedNumeral d).isSome = true)
      (hc : cNumeral d = none)
  /-- A name that is looked up without its `^`. -/
  | caretName (d : Text) (hu : u = '^' :: d)
      (hf : func.call (d ++ f) d.length ≠ func.call u u.length)

/-- The reading of an element the grammar gives a value to, or refuses. -/
def docRead (T : NumType) (func : Lookup T.bits) (u f : Text) : ElemResult T.bits :=
  .ofOption (docValue T func u) (dropCaret u ++ f) (dropCaret u).length

theorem abbreviates_of_lower {u kw : Text} (h : lower u = kw) : abbreviates u kw = true := by
  rw [abbreviates, h]
  exact List.isPrefixOf_iff_prefix.2 (List.prefix_refl _)

/-- An element that does not slip is the keyword it abbreviates. -/
theorem abbreviates_iff_of_not_slip {func : Lookup T.bits} {u f : Text}
    (h : ¬ Slip T func u f) (kw : Text) (hkw : kw ∈ ["all".toList, "any".toList, "none".toList]) :
    abbreviates u kw = true ↔ lower u = kw := by
  refine ⟨fun ha => ?_, abbreviates_of_lower⟩
  by_contra hne
  exact h (.abbreviation kw hkw ha hne)

theorem ofInt_strtol {t : Text} {n : Nat} (hc : cNumeral t = some n)
    (hn : n < 2 ^ (T.longBits - 1)) :
    BitVec.ofInt T.bits (strtol T.longBits t).1 = BitVec.ofNat T.bits n := by
  rw [strtol_of_cNumeral hc, clamp_of_lt hn, BitVec.ofInt_natCast]

/-- A numeral without slip is read as the grammar says, and other texts are names. -/
theorem plain_of_not_slip {func : Lookup T.bits} {u f : Text} (h : ¬ Slip T func u f)
    (hu : u ≠ []) (hx : charAt u 0 ≠ '^') :
    (if (signedNumeral u).isSome then ElemResult.value (BitVec.ofInt T.bits (strtol T.longBits u).1)
      else lookupName func.call (u ++ f) u.length) =
    .ofOption ((docMask T u).or (func.call u u.length)) (u ++ f) u.length := by
  have hmask : docMask T u = (cNumeral u).bind fun n =>
      if n < 2 ^ T.bits then some (BitVec.ofNat T.bits n) else none := by
    unfold docMask
    split
    · exact absurd rfl hx
    · rfl
  cases hc : cNumeral u with
  | some n =>
    have hs := signedNumeral_of_plainStart (plainStart_of_cNumeral hc)
    have hsm : n < 2 ^ (T.longBits - 1) ∧ n < 2 ^ T.bits := by
      constructor <;>
        · by_contra hlt
          exact h (.large n hc (by omega))
    rw [hs, hc, ofInt_strtol hc hsm.1, hmask, hc]
    simp [hsm.2]
  | none =>
    have hs : (signedNumeral u).isSome = false := by
      by_contra hs
      exact h (.loose (Bool.of_not_eq_false hs) hc)
    rw [hs, if_neg Bool.false_ne_true, lookupName, func.bounded u f hu, hmask, hc]
    rfl

/-- The same behind a `^`. -/
theorem caret_of_not_slip {func : Lookup T.bits} {d f : Text} (h : ¬ Slip T func ('^' :: d) f) :
    (if 0 ≤ (strtol T.longBits d).1 ∧ (strtol T.longBits d).1 < T.bits then
      if (signedNumeral d).isSome then
        ElemResult.value (1#T.bits <<< (strtol T.longBits d).1.toNat)
      else lookupName func.call (d ++ f) d.length
    else .undef) =
    .ofOption ((docMask T ('^' :: d)).or (func.call ('^' :: d) ('^' :: d).length)) (d ++ f)
      d.length := by
  have hrange : 0 ≤ (strtol T.longBits d).1 ∧ (strtol T.longBits d).1 < T.bits := by
    by_contra hn
    exact h (.shift d rfl hn)
  rw [if_pos hrange, docMask]
  cases hc : cNumeral d with
  | some n =>
    have hs := signedNumeral_of_plainStart (plainStart_of_cNumeral hc)
    have hv := strtol_of_cNumeral hc T.longBits
    have hlong : n < 2 ^ (T.longBits - 1) := by
      by_contra hge
      have hbig : clamp T.longBits n < T.bits := by simpa [hv] using hrange.2
      have hle : (2 : Int) ^ (T.longBits - 1) ≤ n := by exact_mod_cast Nat.le_of_not_lt hge
      have hbits : (T.bits : Int) < 2 ^ (T.longBits - 1) := by exact_mod_cast T.bits_lt
      unfold clamp at hbig
      omega
    rw [hs, hc, hv, clamp_of_lt hlong]
    rw [hv, clamp_of_lt hlong] at hrange
    have hn : n < T.bits := by simpa using hrange.2
    simp [hn]
  | none =>
    have hs : (signedNumeral d).isSome = false := by
      by_contra hs
      exact h (.looseBit d rfl (Bool.of_not_eq_false hs) hc)
    have hf : func.call (d ++ f) d.length = func.call ('^' :: d) ('^' :: d).length := by
      by_contra hf
      exact h (.caretName d rfl hf)
    rw [hs, if_neg Bool.false_ne_true, lookupName, hf, Option.bind_none, Option.none_or]

/-- **Outside the slips the parser reads an element as the grammar does.** -/
theorem lenientRead_of_not_slip {func : Lookup T.bits} {u f : Text} (h : ¬ Slip T func u f) :
    lenientRead T func u f = docRead T func u f := by
  unfold lenientRead docRead docValue
  by_cases hu : u = []
  · subst hu; rfl
  have hall := abbreviates_iff_of_not_slip h "all".toList (by simp)
  have hany := abbreviates_iff_of_not_slip h "any".toList (by simp)
  have hnone := abbreviates_iff_of_not_slip h "none".toList (by simp)
  simp only [if_neg hu, Bool.or_eq_true, hall, hany, hnone]
  by_cases ha : lower u = "all".toList ∨ lower u = "any".toList
  · rw [if_pos ha, if_pos ha, ElemResult.ofOption_some]
  rw [if_neg ha, if_neg ha]
  by_cases hn : lower u = "none".toList
  · rw [if_pos hn, if_pos hn, ElemResult.ofOption_some]
  rw [if_neg hn, if_neg hn, lenientNumber]
  by_cases hx : charAt u 0 = '^'
  · obtain ⟨d, rfl⟩ : ∃ d, u = '^' :: d := by
      cases u with
      | nil => exact absurd rfl hu
      | cons c d => exact ⟨d, by rw [← hx]; rfl⟩
    rw [if_pos hx, dropCaret, if_pos hx, List.tail_cons]
    exact caret_of_not_slip h
  · rw [if_neg hx, dropCaret, if_neg hx]
    exact plain_of_not_slip h hu hx

/-! ## When the parser follows the grammar -/

/-- **The condition of agreement.**  No `^` element is reached whose number lies outside the
width; and either the parser refuses an element and the grammar some element too (the text behind
a trailing comma counts as one), or the parser refuses none, all belong to the grammar, and the
readings that differ — numerals from `2^(longBits-1)` on, and names that also read as an
abbreviated keyword, a signed numeral or, behind `^`, as another name — leave the last sign of
every bit as it is. -/
def SlipsHarmless (T : NumType) (func : Lookup T.bits) (s : Text) : Prop :=
  match verdict (lenientReads T func s) with
  | .undef => False
  | .refused _ _ _ => docReads T func s = none
  | .all ms => ∃ ds, docReads T func s = some ds ∧ SameSigns ms ds

theorem meetsGrammar_refused (func : Lookup T.bits) (s : Text) (flag mask : BitVec T.bits)
    {r : ListResult T.bits} (hr : r.code = -1) :
    MeetsGrammar T func s flag mask r ↔ docReads T func s = none := by
  constructor
  · intro h
    have ha := h.accepts
    rw [hr] at ha
    simpa using ha
  · intro h
    have hno : ∀ ms, docReads T func s = some ms → False := by
      intro ms hms
      rw [h] at hms
      cases hms
    exact ⟨by simp [hr, h], fun ms hms => (hno ms hms).elim, fun ms hms => (hno ms hms).elim,
      fun ms hms => (hno ms hms).elim, fun ms hms => (hno ms hms).elim⟩

/-- **Exactness**: for every string and every lookup function, the parser meets the grammar on all
start values exactly when the slips in the string are harmless. -/
theorem listparser_meets_grammar_iff (T : NumType) (func : Lookup T.bits) (s : CStr) :
    (∀ flag mask, ∃ r, listparser T s.text 0 flag (some mask) func.call = some r ∧
      MeetsGrammar T func s.text flag mask r) ↔ SlipsHarmless T func s.text := by
  simp only [listparser_eq_lenient, SlipsHarmless]
  cases verdict (lenientReads T func s.text) with
  | undef => simp [Verdict.result]
  | refused ms str cnt =>
    simp only [Verdict.result, Option.some.injEq, exists_eq_left']
    constructor
    · intro h
      exact (meetsGrammar_refused func s.text 0#T.bits 0#T.bits rfl).1 (h _ _)
    · intro h flag mask
      exact (meetsGrammar_refused func s.text flag mask rfl).2 h
  | all ms =>
    simp only [Verdict.result, Option.some.injEq, exists_eq_left', Option.map_some]
    constructor
    · intro h
      obtain ⟨ds, hds⟩ := Option.isSome_iff_exists.1 ((h 0#T.bits 0#T.bits).accepts.1 rfl)
      refine ⟨ds, hds, (sameEffect_iff ms ds).1 fun flag mask => ?_⟩
      exact ⟨(h flag mask).flag_fold ds hds, by simpa using (h flag mask).mask_fold ds hds⟩
    · rintro ⟨ds, hds, hsame⟩ flag mask
      have heff := (sameEffect_iff ms ds).2 hsame
      have hone : ∀ ms', docReads T func s.text = some ms' → ms' = ds := fun ms' h => by
        rw [hds] at h; cases h; rfl
      refine ⟨by simp [hds], ?_, ?_, ?_, ?_⟩
      · intro ms' h; rw [hone ms' h]; exact (heff flag mask).1
      · intro ms' h; rw [hone ms' h, (heff flag mask).2]
      · intro ms' h b
        rw [hone ms' h, (heff flag mask).1]
        exact foldFlag_bit ds flag b
      · intro ms' h
        rw [hone ms' h]
        exact ⟨_, rfl, fun b => by rw [(heff flag mask).2, foldMask_bit]⟩

/-- `a` is neither a name nor a number nor a keyword, and still sets every flag. -/
theorem listparser_accepts_abbreviation :
    ¬ ∀ (T : NumType) (func : Lookup T.bits) (s : CStr) (flag mask : BitVec T.bits),
      ∃ r, listparser T s.text 0 flag (some mask) func.call = some r ∧
        MeetsGrammar T func s.text flag mask r := by
  intro h
  obtain ⟨r, hr, hm⟩ := h uint64 cflags.lookup.toLookup ⟨"a".toList, by decide⟩ 0#64 0#64
  have hrun : listparser uint64 "a".toList 0 0#64 (some 0#64) cflags.lookup.call =
      some ⟨0, none, 0, BitVec.allOnes 64, some (BitVec.allOnes 64)⟩ := by decide
  have hdoc : docReads uint64 cflags.lookup.toLookup "a".toList = none := by decide
  rw [hrun, Option.some.injEq] at hr
  subst hr
  have ha := hm.accepts
  rw [hdoc] at ha
  exact Bool.false_ne_true (ha.1 rfl)

/-! ## Lists without slips -/

/-- No element of the list slips. -/
def NoSlips (T : NumType) (func : Lookup T.bits) (s : Text) : Prop :=
  ∀ sp ∈ spans s s.length, ¬ Slip T func (stripText sp.text false).1 (sp.ptr.drop sp.len)

/-- The verdict is the one the grammar gives. -/
def Documented {w : Nat} (v : Verdict w) (doc : Option (List (Mention w))) : Prop :=
  match v with
  | .undef => False
  | .refused _ _ _ => doc = none
  | .all ms => doc = some ms

theorem lenientElem_of_not_slip {func : Lookup T.bits} {t f : Text}
    (h : ¬ Slip T func (stripText t false).1 f) :
    lenientElem T func t f =
      ((stripText t false).2, docRead T func (stripText t false).1 f) := by
  rw [lenientElem, lenientRead_of_not_slip h]

theorem lenientReads_single {t : Text} (hne : t ≠ []) (hc : ',' ∉ t) (func : Lookup T.bits) :
    lenientReads T func t = [lenientElem T func t []] := by
  have hs := spans_single hne hc []
  rw [List.append_nil] at hs
  simp [lenientReads, hs, Span.text]

theorem lenientReads_cons {t : Text} (hc : ',' ∉ t) (r : Text) (func : Lookup T.bits) :
    lenientReads T func (t ++ ',' :: r) =
      lenientElem T func t (',' :: r) :: lenientReads T func r := by
  have hs := spans_cons hc r []
  simp only [List.append_nil] at hs
  rw [lenientReads, List.length_append, List.length_cons, hs]
  simp [lenientReads, Span.text]

theorem docReads_single {t : Text} (hne : t ≠ []) (hc : ',' ∉ t) (func : Lookup T.bits) :
    docReads T func t = (docElem T func t).map fun m => [m] := by
  rw [docReads, if_neg hne, List.splitOn_eq_singleton hc]
  rw [List.mapM_cons, List.mapM_nil]
  cases docElem T func t <;> rfl

theorem docReads_cons {t r : Text} (hc : ',' ∉ t) (hr : r ≠ []) (func : Lookup T.bits) :
    docReads T func (t ++ ',' :: r) =
      (docElem T func t).bind fun m => (docReads T func r).map fun ms => m :: ms := by
  have hne : t ++ ',' :: r ≠ [] := by simp
  rw [docReads, docReads, if_neg hne, if_neg hr, List.splitOn_append_cons_self_of_not_mem hc,
    List.mapM_cons]
  cases docElem T func t with
  | none => rfl
  | some m => cases (r.splitOn ',').mapM (docElem T func) <;> rfl

/-- The first element of a list that does not slip gives the verdict the grammar gives. -/
theorem documented_cons {func : Lookup T.bits} {t f : Text} {rs : List (Bool × ElemResult T.bits)}
    {doc : Option (List (Mention T.bits))} (h : ¬ Slip T func (stripText t false).1 f)
    (hrs : Documented (verdict rs) doc) :
    Documented (verdict (lenientElem T func t f :: rs))
      ((docElem T func t).bind fun m => doc.map fun ms => m :: ms) := by
  rw [lenientElem_of_not_slip h, docRead, docElem]
  cases docValue T func (stripText t false).1 with
  | none => simp [verdict, Documented]
  | some v =>
    cases hv : verdict rs with
    | undef => rw [hv] at hrs; exact hrs.elim
    | refused ms str cnt =>
      rw [hv] at hrs
      simp only [Documented] at hrs
      simp [verdict, hv, Verdict.cons, Documented, hrs]
    | all ms =>
      rw [hv] at hrs
      simp only [Documented] at hrs
      simp [verdict, hv, Verdict.cons, Documented, hrs]

/-- **Without slips and without a trailing comma the parser gives the verdict of the grammar.** -/
theorem documented_of_noSlips (func : Lookup T.bits) : ∀ s : Text, NoSlips T func s →
    s.getLast? ≠ some ',' → Documented (verdict (lenientReads T func s)) (docReads T func s) := by
  intro s
  induction s using list_induction with
  | nil => intro _ _; simp [lenientReads, spans_zero, verdict, docReads, Documented]
  | single t hne hc =>
    intro hslip _
    have hs := spans_single hne hc []
    rw [List.append_nil] at hs
    have ht : ¬ Slip T func (stripText t false).1 [] := by
      simpa [hs, Span.text] using hslip ⟨t, t.length⟩ (by simp [hs])
    have hnil : Documented (verdict ([] : List (Bool × ElemResult T.bits))) (some []) := rfl
    have h := documented_cons ht hnil
    rw [lenientReads_single hne hc, docReads_single hne hc]
    simpa [Option.map_eq_bind, Function.comp_def] using h
  | cons t r hc ih =>
    intro hslip hlast
    have hr : r ≠ [] := by rintro rfl; exact hlast (by simp)
    have hs := spans_cons hc r []
    simp only [List.append_nil] at hs
    have hlen : (t ++ ',' :: r).length = t.length + (r.length + 1) := by simp
    have ht : ¬ Slip T func (stripText t false).1 (',' :: r) := by
      simpa [Span.text] using hslip ⟨t ++ ',' :: r, t.length⟩ (by rw [hlen, hs]; simp)
    have hrest : NoSlips T func r := fun sp hsp =>
      hslip sp (by rw [hlen, hs]; exact List.mem_cons_of_mem _ hsp)
    rw [lenientReads_cons hc, docReads_cons hc hr]
    refine documented_cons ht (ih hrest fun h => hlast ?_)
    rw [List.getLast?_append, List.getLast?_cons_of_ne_nil hr, h]
    rfl

/-- Such a list meets the condition. -/
theorem slipsHarmless_of_noSlips {func : Lookup T.bits} {s : Text} (h : NoSlips T func s)
    (hlast : s.getLast? ≠ some ',') : SlipsHarmless T func s := by
  have hd := documented_of_noSlips func s h hlast
  unfold SlipsHarmless
  cases hv : verdict (lenientReads T func s) with
  | undef => rw [hv] at hd; exact hd
  | refused ms str cnt => rw [hv] at hd; exact hd
  | all ms => rw [hv] at hd; exact ⟨ms, hd, SameSigns.refl ms⟩

end FlagGrammar
