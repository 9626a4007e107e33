import UtilVserver.NameTables

/-!
# What the flag-list parser reports about an invalid element

A caller that gets -1 finds in `*err_ptr`/`*err_len` the part of the input that was not
understood, and in the flag words what the elements before it did.  The reported text starts
behind the negation prefixes of the element and, when a `^` follows them, behind that too
(the test vectors of `cflags.c` expect the length 0 for the element `^`).

* `valueText` — the reported part of an element.
* `ErrorReport` — the split of the list at the reported element.

Principal result: `listparser_report` — every run that returns reports the first element it does
not understand, or none at all.
-/

set_option autoImplicit false

namespace ErrorSpan

open CString BitMention ListParser NameTables

variable {T : NumType}

/-- The text of an element behind its prefixes and the `^`. -/
def valueText (masked : Bool) (sp : Span) : Text := dropCaret (stripElem masked sp.text).1

/-- Where the element starts in `s`. -/
def Span.offset (s : Text) (sp : Span) : Nat := s.length - sp.ptr.length

/-- `len`, or the length that is detected for 0. -/
def regionLen (s : Text) (len : Nat) : Nat := if len = 0 then s.length else len

/-- How an understood element reads. -/
def reading {w : Nat} (m : Mention w) : Bool × ElemResult w := (m.neg, .value m.bits)

/-- The outcome -1 and where the list splits: the elements `pre` were understood as `ms` and
folded, `bad` was not understood, and the report delimits its value. -/
structure ErrorReport (T : NumType) (func : Lookup T.bits) (s : Text) (len : Nat)
    (flag : BitVec T.bits) (mask : Option (BitVec T.bits)) (r : ListResult T.bits)
    (pre post : List Span) (bad : Span) (ms : List (Mention T.bits)) : Prop where
  code : r.code = -1
  split : spans s (regionLen s len) = pre ++ bad :: post
  before : pre.map (readSpan T func.call mask.isSome) = ms.map reading
  invalid : ∀ v, (readSpan T func.call mask.isSome bad).2 ≠ .value v
  flag_fold : r.flag = foldFlag ms flag
  mask_fold : r.mask = mask.map (foldMask ms)
  err_ptr : r.errPtr =
    some (Span.offset s bad + (bad.len - (valueText mask.isSome bad).length))
  err_len : r.errLen = (valueText mask.isSome bad).length
  delimits : (s.drop (Span.offset s bad + (bad.len - (valueText mask.isSome bad).length))).take
    (valueText mask.isSome bad).length = valueText mask.isSome bad
  inside : Span.offset s bad + bad.len ≤ regionLen s len

/-! ## Where the elements lie -/

/-- A span lies inside the region, and its text is what stands there. -/
structure Lies (s : Text) (len : Nat) (sp : Span) : Prop where
  suffix : sp.ptr <:+ s
  inside : Span.offset s sp + sp.len ≤ len
  fits : sp.len ≤ sp.ptr.length

theorem lies_spansFrom {s : Text} {len : Nat} : ∀ {p : Text} {ts : List Text}, p <:+ s →
    (s.length - p.length) + (ts.map fun t => t.length + 1).sum ≤ len + 1 →
    len ≤ s.length → ∀ sp ∈ spansFrom p ts, Lies s len sp := by
  intro p ts
  induction ts generalizing p with
  | nil => intro _ _ _ sp hsp; simp [spansFrom] at hsp
  | cons t ts ih =>
    intro hp hsum hlen sp hsp
    simp only [List.map_cons, List.sum_cons] at hsum
    simp only [spansFrom, List.mem_cons] at hsp
    have hpl := hp.length_le
    rcases hsp with rfl | hsp
    · exact ⟨hp, by simp only [Span.offset]; omega, by simp only; omega⟩
    · refine ih ((List.drop_suffix _ _).trans hp) ?_ hlen sp hsp
      rw [List.length_drop]
      omega

theorem listElems_sum : ∀ region : Text,
    ((listElems region).map fun t => t.length + 1).sum ≤ region.length + 1 := by
  intro region
  induction region using list_induction with
  | nil => simp [listElems_nil]
  | single t hne hc => simp [listElems_single hne hc]
  | cons t r hc ih =>
    simp only [listElems_cons hc, List.map_cons, List.sum_cons, List.length_append,
      List.length_cons]
    omega

theorem lies_spans {s : Text} {len : Nat} (hle : len ≤ s.length) :
    ∀ sp ∈ spans s len, Lies s len sp := by
  have hsum := listElems_sum (s.take len)
  rw [List.length_take, Nat.min_eq_left hle] at hsum
  exact lies_spansFrom (List.suffix_refl s) (by omega) hle

/-- The value of a span ends where the span ends. -/
theorem valueText_suffix (masked : Bool) (sp : Span) : valueText masked sp <:+ sp.text := by
  have hcaret : ∀ u : Text, dropCaret u <:+ u := by
    intro u
    unfold dropCaret
    split
    · exact List.tail_suffix u
    · exact List.suffix_refl u
  refine (hcaret _).trans ?_
  cases masked with
  | false => exact List.suffix_refl _
  | true => exact stripText_suffix sp.text false

/-- **The reported part of the input is the value of the element.** -/
theorem delimits_value {s : Text} {len : Nat} {sp : Span} (h : Lies s len sp) (masked : Bool) :
    (s.drop (Span.offset s sp + (sp.len - (valueText masked sp).length))).take
      (valueText masked sp).length = valueText masked sp := by
  obtain ⟨pre, hpre⟩ := h.suffix
  obtain ⟨skip, hskip⟩ := valueText_suffix masked sp
  have htext : sp.text.length = sp.len := by
    rw [Span.text, List.length_take, Nat.min_eq_left h.fits]
  have hoff : Span.offset s sp = pre.length := by
    rw [Span.offset, ← hpre, List.length_append, Nat.add_sub_cancel]
  have hlen : sp.len - (valueText masked sp).length = skip.length := by
    rw [← htext, ← hskip, List.length_append, Nat.add_sub_cancel]
  have hs : s = pre ++ (skip ++ (valueText masked sp ++ sp.ptr.drop sp.len)) := by
    rw [← List.append_assoc skip, hskip, Span.text, List.take_append_drop, hpre]
  rw [hoff, hlen]
  conv => lhs; rw [hs]
  rw [← List.append_assoc, ← List.length_append, List.drop_left, List.take_left]

/-! ## Which element fails, and how -/

/-- An element that fails is reported behind its `^`. -/
theorem parseElem_failed {func : Text → Nat → Option (BitVec T.bits)} {masked : Bool}
    {u f str : Text} {cnt : Nat} (h : parseElem T func masked (u ++ f) u.length = .failed str cnt) :
    str = dropCaret u ++ f ∧ cnt = (dropCaret u).length := by
  have hlookup : ∀ {p : Text} {n : Nat},
      lookupName func p n = .failed str cnt → str = p ∧ cnt = n := by
    intro p n hp
    unfold lookupName at hp
    cases hf : func p n with
    | none => rw [hf] at hp; cases hp; exact ⟨rfl, rfl⟩
    | some v => rw [hf] at hp; cases hp
  unfold parseElem at h
  cases u with
  | nil => simp at h; simp [dropCaret, h]
  | cons x d =>
    rw [if_neg (by simp)] at h
    split at h
    · cases h
    split at h
    · cases h
    by_cases hx : x = '^'
    · subst hx
      have hd : dropCaret ('^' :: d) = d := rfl
      rw [hd]
      rw [List.cons_append] at h
      simp only [numberOrName, isNumber] at h
      split at h
      · cases h
      · rename_i n hn
        split at hn
        · cases hn
          simp only at h
          split at h
          · cases h
          · simpa using hlookup h
        · cases hn
    · have hd : dropCaret (x :: d) = x :: d := by simp [dropCaret, hx]
      rw [hd]
      rw [List.cons_append] at h
      have hnum : ∃ n, isNumber T (x :: (d ++ f)) (x :: d).length
          (charAt (x :: (d ++ f)) (x :: d).length) = some n ∧ n.str = x :: (d ++ f) ∧
            n.len = (x :: d).length := by
        unfold isNumber
        split
        · rename_i hc; cases hc; exact absurd rfl hx
        · exact ⟨_, rfl, rfl, rfl⟩
      obtain ⟨n, hn, hstr, hlen⟩ := hnum
      rw [numberOrName, hn] at h
      simp only at h
      split at h
      · cases h
      · have hl := hlookup h
        rw [hstr, hlen] at hl
        exact hl

/-- A span as the text it delimits and what follows it. -/
theorem readSpan_failed {func : Text → Nat → Option (BitVec T.bits)} {masked neg : Bool}
    {sp : Span} {str : Text} {cnt : Nat} (hfit : sp.len ≤ sp.ptr.length)
    (h : readSpan T func masked sp = (neg, .failed str cnt)) :
    str = valueText masked sp ++ sp.ptr.drop sp.len ∧ cnt = (valueText masked sp).length := by
  have hlen : sp.text.length = sp.len := by
    rw [Span.text, List.length_take, Nat.min_eq_left hfit]
  have hptr : sp.ptr = sp.text ++ sp.ptr.drop sp.len := (List.take_append_drop _ _).symm
  have hsp := stripPrefix_append (r := sp.ptr.drop sp.len) (m := 0) (Or.inl rfl) masked sp.text
  rw [Nat.add_zero, Nat.add_zero, ← hptr, hlen] at hsp
  rw [readSpan, hsp] at h
  simp only [Prod.mk.injEq] at h
  exact parseElem_failed h.2

/-- A list is refused at its first failing reading. -/
theorem verdict_refused {w : Nat} : ∀ {rs : List (Bool × ElemResult w)} {ms : List (Mention w)}
    {str : Text} {cnt : Nat}, verdict rs = .refused ms str cnt →
    ∃ neg post, rs = ms.map reading ++ (neg, .failed str cnt) :: post := by
  intro rs
  induction rs with
  | nil => intro ms str cnt h; cases h
  | cons e rs ih =>
    intro ms str cnt h
    obtain ⟨neg, e⟩ := e
    cases e with
    | undef => cases h
    | failed s c => cases h; exact ⟨neg, rs, rfl⟩
    | value v =>
      rw [verdict] at h
      cases hv : verdict rs with
      | undef => rw [hv] at h; cases h
      | all ms' => rw [hv] at h; cases h
      | refused ms' s c =>
        rw [hv] at h
        cases h
        obtain ⟨n, post, rfl⟩ := ih hv
        exact ⟨n, post, rfl⟩

theorem listparser_eq_result (func : Text → Nat → Option (BitVec T.bits)) {s : Text} {len : Nat}
    (hle : len ≤ s.length) (flag : BitVec T.bits) (mask : Option (BitVec T.bits)) :
    listparser T s len flag mask func =
      (verdict ((spans s (regionLen s len)).map (readSpan T func mask.isSome))).result
        s.length flag mask := by
  rw [← foldSpans_eq_result, regionLen]
  by_cases h0 : len = 0
  · subst h0; rw [if_pos rfl]; exact listparser_eq_foldSpans s flag mask
  · rw [if_neg h0]; exact listparser_len_eq_foldSpans h0 hle flag mask

/-- **The error report**: whatever the list and the start values, a run that returns either
understood the whole list and clears the report, or stopped at the first element it does not
understand, with the flag words folded over the elements before it and the report on its value. -/
theorem listparser_report (func : Lookup T.bits) (s : CStr) {len : Nat}
    (hle : len ≤ s.text.length) (flag : BitVec T.bits) (mask : Option (BitVec T.bits))
    {r : ListResult T.bits} (h : listparser T s.text len flag mask func.call = some r) :
    (r.code = 0 ∧ r.errPtr = none ∧ r.errLen = 0) ∨
      ∃ pre post bad ms, ErrorReport T func s.text len flag mask r pre post bad ms := by
  rw [listparser_eq_result func.call hle] at h
  cases hv : verdict ((spans s.text (regionLen s.text len)).map
      (readSpan T func.call mask.isSome)) with
  | undef => rw [hv] at h; cases h
  | all ms => rw [hv] at h; cases h; exact Or.inl ⟨rfl, rfl, rfl⟩
  | refused ms str cnt =>
    rw [hv] at h
    cases h
    right
    obtain ⟨neg, post', hrs⟩ := verdict_refused hv
    obtain ⟨pre, rest, hsplit, hpre, hrest⟩ := List.map_eq_append_iff.1 hrs
    obtain ⟨bad, post, rfl, hbad, -⟩ := List.map_eq_cons_iff.1 hrest
    have hregion : regionLen s.text len ≤ s.text.length := by
      unfold regionLen; split <;> omega
    have hlies := lies_spans hregion bad (by rw [hsplit]; simp)
    obtain ⟨hstr, hcnt⟩ := readSpan_failed hlies.fits hbad
    have hval := (valueText_suffix mask.isSome bad).length_le
    have htext : bad.text.length = bad.len := by
      rw [Span.text, List.length_take, Nat.min_eq_left hlies.fits]
    have hptr := hlies.suffix.length_le
    refine ⟨pre, post, bad, ms, rfl, hsplit, hpre, ?_, rfl, rfl, ?_, hcnt,
      delimits_value hlies _, hlies.inside⟩
    · intro v hv'
      rw [hbad] at hv'
      cases hv'
    · have hfit := hlies.fits
      simp only [hstr, List.length_append, List.length_drop, Span.offset, Option.some.injEq]
      omega

/-- A list whose second element is not understood. -/
theorem listparser_report_second :
    ∃ r, listparser uint64 "lock,~foo,nproc".toList 0 0#64 (some 0#64) cflags.lookup.call =
        some r ∧
      ((r.code = 0 ∧ r.errPtr = none ∧ r.errLen = 0) ∨
        ∃ pre post bad ms, ErrorReport uint64 cflags.lookup.toLookup "lock,~foo,nproc".toList 0 0#64
          (some 0#64) r pre post bad ms) := by
  have hrun : listparser uint64 "lock,~foo,nproc".toList 0 0#64 (some 0#64) cflags.lookup.call =
      some ⟨-1, some 6, 3, 1#64, some 1#64⟩ := by decide
  have hle : 0 ≤ "lock,~foo,nproc".toList.length := Nat.zero_le _
  exact ⟨_, hrun, listparser_report (T := uint64) cflags.lookup.toLookup
    ⟨"lock,~foo,nproc".toList, by decide⟩ hle 0#64 (some 0#64) hrun⟩

/-- The element `^foo` has no negation prefix, and its report does not start at its `^`. -/
theorem report_starts_behind_caret :
    ¬ ∀ (T : NumType) (func : Lookup T.bits) (s : CStr) (len : Nat) (flag : BitVec T.bits)
      (mask : Option (BitVec T.bits)) (r : ListResult T.bits), len ≤ s.text.length →
      listparser T s.text len flag mask func.call = some r → r.code = -1 →
      ∃ pre bad post, spans s.text (regionLen s.text len) = pre ++ bad :: post ∧
        (∀ sp ∈ pre, ∃ v, (readSpan T func.call mask.isSome sp).2 = .value v) ∧
        (∀ v, (readSpan T func.call mask.isSome bad).2 ≠ .value v) ∧
        r.errPtr = some (Span.offset s.text bad +
          (bad.len - (stripElem mask.isSome bad.text).1.length)) ∧
        r.errLen = (stripElem mask.isSome bad.text).1.length := by
  intro h
  obtain ⟨pre, bad, post, hsplit, -, -, -, hlen⟩ := h uint64 cflags.lookup.toLookup
    ⟨"^foo".toList, by decide⟩ 0 0#64 (some 0#64) ⟨-1, some 1, 3, 0#64, some 0#64⟩ (by decide)
    (by decide) rfl
  have hsp : spans "^foo".toList (regionLen "^foo".toList 0) = [⟨"^foo".toList, 4⟩] := by decide
  rw [hsp] at hsplit
  cases pre with
  | nil =>
    simp only [List.nil_append, List.cons.injEq] at hsplit
    rw [← hsplit.1] at hlen
    exact absurd hlen (by decide)
  | cons p pre => simp at hsplit

end ErrorSpan
