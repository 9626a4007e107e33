import UtilVserver.BoundedList

/-!
# Personality flags (`parsePersonalityFlags` of `src/vcontext.c`)

The list behind `--personality-flags` goes through the flag-list parser without a mask, into a
variable that nobody has given a value.

* `Header`, `VALUES` — the names of `lib/personalityflag.c` with the values of the kernel.
* `vc_list2personalityflag`, `parsePersonalityFlags` — the code.
* `expected` — the union of the elements of a list.
* `Reading` — what the parser takes an element for.

Principal results: `parse_eq_run` (the parser reads one element after the other) and
`parsePersonalityFlags_exact`.
-/

set_option autoImplicit false

namespace PersonalityFlags

open CString BitMention ListParser FlagGrammar

/-- The flags that the header of the kernel declares. -/
structure Header where
  value : Text → Option (BitVec 32)
  nonzero : ∀ n v, value n = some v → v ≠ 0

/-- `struct Mapping_uint32`. -/
structure Mapping where
  id : Text
  val : BitVec 32

def NAMES : List Text :=
  ["MMAP_PAGE_ZERO", "ADDR_LIMIT_32BIT", "SHORT_INODE", "WHOLE_SECONDS", "STICKY_TIMEOUTS",
    "ADDR_LIMIT_3GB", "UNAME26"].map String.toList

def Header.VALUES (h : Header) : List Mapping :=
  NAMES.filterMap fun n => (h.value n).map fun v => ⟨n, v⟩

/-- `utilvserver_value2text_uint32`. -/
def value2text (str : Text) (len : Nat) (map : List Mapping) : Option Mapping :=
  let len := if len = 0 then str.length else len
  map.find? fun m => len == m.id.length && strncasecmp m.id str len

def vc_text2personalityflag (h : Header) (str : Text) (len : Nat) : BitVec 32 :=
  match value2text str len h.VALUES with
  | none => 0
  | some m => m.val

/-- `text2personalityflag_err`, without a value where `*failed` is set. -/
def text2personalityflagErr (h : Header) (str : Text) (len : Nat) : Option (BitVec 32) :=
  let res := vc_text2personalityflag h str len
  if res = 0 then none else some res

def vc_list2personalityflag (h : Header) (str : Text) (len : Nat) (personality : BitVec 32) :
    Option (ListResult 32) :=
  listparser uint32 str len personality none (text2personalityflagErr h)

/-- The result; or the exit with the element of the message; or a shift that is not defined. -/
inductive Outcome where
  | undefined
  | exits (bad : Text)
  | flags (res : BitVec 32)
  deriving DecidableEq

/-- `parsePersonalityFlags`; `stale` is what the variable `res` holds at the start. -/
def parsePersonalityFlags (h : Header) (str : CStr) (stale : BitVec 32) : Outcome :=
  match vc_list2personalityflag h str.text 0 stale with
  | none => .undefined
  | some r =>
    if r.code = -1 then .exits ((str.text.drop (r.errPtr.getD 0)).take r.errLen) else .flags r.flag

/-! ## What a list stands for -/

def nameValue (h : Header) (u : Text) : Option (BitVec 32) :=
  (h.VALUES.find? fun m => lower m.id = lower u).map Mapping.val

/-- A number, or `^` and the number of a bit. -/
def numberValue (u : Text) : Option (BitVec 32) :=
  if charAt u 0 = '^' then
    if (signedNumeral u.tail).isSome ∧ 0 ≤ (strtol 64 u.tail).1 ∧ (strtol 64 u.tail).1 < 32 then
      some (1#32 <<< (strtol 64 u.tail).1.toNat)
    else none
  else if (signedNumeral u).isSome then some (BitVec.ofInt 32 (strtol 64 u).1)
  else none

def elemValue (h : Header) (u : Text) : Option (BitVec 32) := (numberValue u).or (nameValue h u)

def elements (s : Text) : List Text := if s = [] then [] else s.splitOn ','

def union (vs : List (BitVec 32)) : BitVec 32 := vs.foldr (· ||| ·) 0#32

/-- The union of the elements, when each is a name or a number. -/
def expected (h : Header) (s : Text) : Option (BitVec 32) :=
  ((elements s).mapM (elemValue h)).map union

/-- The union is returned, or the list is refused. -/
def Right (v : Option (BitVec 32)) (o : Outcome) : Prop :=
  match v with
  | some v => o = .flags v
  | none => ∃ bad, o = .exits bad

/-! ## What the parser takes an element for -/

/-- `^` in front of a name is skipped. -/
def CaretName (h : Header) (u : Text) : Prop :=
  charAt u 0 = '^' ∧ 0 ≤ (strtol 64 u.tail).1 ∧ (strtol 64 u.tail).1 < 32 ∧
    (nameValue h u.tail).isSome

/-- `^` in front of what `strtol` takes for a number outside of the width. -/
def CaretRange (u : Text) : Prop :=
  charAt u 0 = '^' ∧ ¬ (0 ≤ (strtol 64 u.tail).1 ∧ (strtol 64 u.tail).1 < 32)

/-- A number or a name, or a name behind `^`. -/
def Accepted (h : Header) (u : Text) : Prop := (elemValue h u).isSome ∨ CaretName h u

def Refused (h : Header) (u : Text) : Prop :=
  elemValue h u = none ∧ ¬ CaretName h u ∧ ¬ CaretRange u

/-- The bits in memory are among those of a good list; a bad one has an element, not behind a comma
at the end of the list, that the parser refuses before it comes to an undefined shift. -/
def Sound (h : Header) (s : Text) (stale : BitVec 32) : Prop :=
  match expected h s with
  | some v => stale ||| v = v
  | none => ∃ a e b, listElems s = a ++ e :: b ∧ (∀ x ∈ a, Accepted h x) ∧ Refused h e

inductive Reading where
  | undefined
  | refused
  | value (v : BitVec 32)

def Reading.ofOption : Option (BitVec 32) → Reading
  | none => .refused
  | some v => .value v

def reading (h : Header) (u : Text) : Reading :=
  if charAt u 0 = '^' then
    if 0 ≤ (strtol 64 u.tail).1 ∧ (strtol 64 u.tail).1 < 32 then
      if (signedNumeral u.tail).isSome then .value (1#32 <<< (strtol 64 u.tail).1.toNat)
      else .ofOption (nameValue h u.tail)
    else .undefined
  else if (signedNumeral u).isSome then .value (BitVec.ofInt 32 (strtol 64 u).1)
  else .ofOption (nameValue h u)

/-! ## Names -/

variable {h : Header}

theorem strncasecmp_whole {a b : Text} (hlen : a.length = b.length) :
    strncasecmp a b b.length = true ↔ lower a = lower b := by
  rw [strncasecmp_iff, List.take_length, ← hlen, List.take_length]

/-- A whole text is compared with the whole name. -/
theorem value2text_whole (u : Text) (map : List Mapping) :
    value2text u u.length map = map.find? fun m => lower m.id = lower u := by
  unfold value2text
  have hlen : (if u.length = 0 then u.length else u.length) = u.length := by split <;> rfl
  have hsame : (fun m : Mapping => u.length == m.id.length && strncasecmp m.id u u.length) =
      fun m => decide (lower m.id = lower u) := by
    funext m
    rw [Bool.eq_iff_iff, Bool.and_eq_true, beq_iff_eq, decide_eq_true_eq]
    constructor
    · rintro ⟨hl, hc⟩
      exact (strncasecmp_whole hl.symm).1 hc
    · intro hm
      have hl : m.id.length = u.length := by
        have := congrArg List.length hm
        rwa [lower_length, lower_length] at this
      exact ⟨hl.symm, (strncasecmp_whole hl).2 hm⟩
  rw [hlen]
  exact congrArg (map.find? ·) hsame

theorem mem_VALUES {m : Mapping} (hm : m ∈ h.VALUES) : m.id ∈ NAMES ∧ m.val ≠ 0 := by
  obtain ⟨n, hn, hv⟩ := List.mem_filterMap.1 hm
  obtain ⟨v, hvalue, rfl⟩ := Option.map_eq_some_iff.1 hv
  exact ⟨hn, h.nonzero n v hvalue⟩

theorem err_whole (u : Text) : text2personalityflagErr h u u.length = nameValue h u := by
  unfold text2personalityflagErr vc_text2personalityflag nameValue
  rw [value2text_whole]
  cases hfind : h.VALUES.find? fun m => lower m.id = lower u with
  | none => rfl
  | some m => exact if_neg (mem_VALUES (List.mem_of_find?_eq_some hfind)).2

/-- The names are neither empty nor do they begin with a comma or `^`. -/
theorem NAMES_head : ∀ n ∈ NAMES, n ≠ [] ∧ charAt (lower n) 0 ≠ ',' ∧ charAt (lower n) 0 ≠ '^' := by
  decide

theorem charAt_lower (u : Text) : charAt (lower u) 0 = (charAt u 0).toLower := by
  cases u with
  | nil => decide
  | cons c u => rfl

theorem nameValue_none {u : Text} (hu : u = [] ∨ charAt u 0 = ',' ∨ charAt u 0 = '^') :
    nameValue h u = none := by
  unfold nameValue
  rw [Option.map_eq_none_iff, List.find?_eq_none]
  intro m hm hlow
  obtain ⟨hne, hcomma, hcaret⟩ := NAMES_head m.id (mem_VALUES hm).1
  rw [decide_eq_true_eq] at hlow
  rw [hlow] at hcomma hcaret
  rcases hu with rfl | hu | hu
  · exact hne (List.map_eq_nil_iff.1 hlow)
  · rw [charAt_lower, hu] at hcomma
    exact hcomma (by decide)
  · rw [charAt_lower, hu] at hcaret
    exact hcaret (by decide)

/-- Without a length, that of the text is taken. -/
theorem err_zero (u : Text) : text2personalityflagErr h u 0 = nameValue h u := by
  rw [← err_whole]
  unfold text2personalityflagErr vc_text2personalityflag
  have hsame : value2text u 0 h.VALUES = value2text u u.length h.VALUES := by
    unfold value2text
    rw [if_pos rfl]
    split <;> rfl
  rw [hsame]

/-- The comparison looks at the first `len` characters of the text only. -/
theorem value2text_append {t : Text} (ht : t ≠ []) (r : Text) (map : List Mapping) :
    value2text (t ++ r) t.length map = value2text t t.length map := by
  have hlen : ¬ t.length = 0 := fun h0 => ht (List.length_eq_zero_iff.1 h0)
  have hcmp : ∀ m : Mapping, strncasecmp m.id (t ++ r) t.length = strncasecmp m.id t t.length := by
    intro m
    rw [Bool.eq_iff_iff, strncasecmp_iff, strncasecmp_iff, List.take_left, List.take_length]
  simp only [value2text, if_neg hlen, hcmp]

/-- The lookup that the list parser is given. -/
def Header.lookup (h : Header) : NameLookup 32 where
  call := text2personalityflagErr h
  bounded t r ht := by
    unfold text2personalityflagErr vc_text2personalityflag
    rw [value2text_append ht]
  noComma r := by
    rw [err_zero]
    exact nameValue_none (Or.inr (Or.inl rfl))

/-! ## The elements -/

/-- The element without the place of an error. -/
def kind : ElemResult 32 → Reading
  | .undef => .undefined
  | .failed _ _ => .refused
  | .value v => .value v

theorem kind_lookupName {u f : Text} (hf : f = [] ∨ ∃ r, f = ',' :: r) :
    kind (lookupName h.lookup.call (u ++ f) u.length) = .ofOption (nameValue h u) := by
  have hcall : h.lookup.call (u ++ f) u.length = nameValue h u := by
    by_cases hu : u = []
    · subst hu
      rw [nameValue_none (Or.inl rfl)]
      obtain rfl | ⟨r, rfl⟩ := hf
      · exact (err_zero []).trans (nameValue_none (Or.inl rfl))
      · exact h.lookup.noComma r
    · rw [h.lookup.bounded u f hu]
      exact err_whole u
  rw [lookupName, hcall]
  cases nameValue h u <;> rfl

/-- **What the parser takes an element of a list for.** -/
theorem readSpan_reading {t f : Text} (hc : ',' ∉ t) (h0 : '\x00' ∉ t)
    (hf : f = [] ∨ ∃ r, f = ',' :: r) :
    ∃ e, readSpan uint32 h.lookup.call false ⟨t ++ f, t.length⟩ = (false, e) ∧
      kind e = reading h t := by
  refine ⟨_, rfl, ?_⟩
  show kind (parseElem uint32 h.lookup.call false (t ++ f) t.length) = _
  by_cases ht : t = []
  · subst ht
    have hempty : reading h [] = .refused := by
      have hname : nameValue h [] = none := nameValue_none (Or.inl rfl)
      unfold reading
      rw [if_neg (by decide), if_neg (by decide), hname]
      rfl
    rw [hempty]
    rfl
  · have hlen : ¬ t.length = 0 := fun hz => ht (List.length_eq_zero_iff.1 hz)
    have hd : ∀ d, t = '^' :: d → Shields d f := by
      rintro d rfl
      exact shields_delimited (fun hm => hc (List.mem_cons_of_mem _ hm))
        (fun hm => h0 (List.mem_cons_of_mem _ hm)) hf
    have hnumber := numberOrName_eq_lenient (T := uint32) h.lookup.toLookup ht
      (shields_delimited hc h0 hf) hd
    rw [parseElem, if_neg hlen, Bool.false_and, Bool.false_and, if_neg Bool.false_ne_true,
      if_neg Bool.false_ne_true, hnumber]
    unfold lenientNumber reading
    by_cases hcaret : charAt t 0 = '^'
    · rw [if_pos hcaret, if_pos hcaret]
      by_cases hrange : 0 ≤ (strtol 64 t.tail).1 ∧ (strtol 64 t.tail).1 < 32
      · rw [if_pos hrange]
        show kind (if 0 ≤ (strtol 64 t.tail).1 ∧ (strtol 64 t.tail).1 < 32 then _ else _) = _
        rw [if_pos hrange]
        split
        · rfl
        · exact kind_lookupName hf
      · rw [if_neg hrange]
        show kind (if 0 ≤ (strtol 64 t.tail).1 ∧ (strtol 64 t.tail).1 < 32 then _ else _) = _
        rw [if_neg hrange]
        rfl
    · rw [if_neg hcaret, if_neg hcaret]
      split
      · rfl
      · exact kind_lookupName hf

/-! ## The list -/

/-- The readings one after the other: an undefined shift, a refusal, or the flags. -/
def run : List Reading → BitVec 32 → Option (Option (BitVec 32))
  | [], flag => some (some flag)
  | .undefined :: _, _ => none
  | .refused :: _, _ => some none
  | .value v :: rs, flag => run rs (flag ||| v)

/-- What is left behind by the parser, without the place of an error. -/
def verdictOf (r : ListResult 32) : Option (BitVec 32) := if r.code = -1 then none else some r.flag

theorem foldSpans_run (base : Nat) {sps : List Span} (h0 : ∀ sp ∈ sps, Delimited sp)
    (flag : BitVec 32) :
    (foldSpans uint32 h.lookup.call base sps flag none).map verdictOf =
      run (sps.map fun sp => reading h sp.text) flag := by
  induction sps generalizing flag with
  | nil => rfl
  | cons sp sps ih =>
    obtain ⟨t, f, rfl, hc, hnul, hf⟩ := h0 sp List.mem_cons_self
    obtain ⟨e, hread, hkind⟩ := readSpan_reading (h := h) hc hnul hf
    have htext : (⟨t ++ f, t.length⟩ : Span).text = t := List.take_left
    rw [foldSpans, Option.isSome_none, hread, List.map_cons, htext, ← hkind]
    cases e with
    | undef => rfl
    | failed str cnt => rfl
    | value v => exact ih (fun x hx => h0 x (List.mem_cons_of_mem _ hx)) (flag ||| v)

theorem spans_text (s : Text) : (spans s s.length).map Span.text = listElems s := by
  induction s using list_induction with
  | nil => rw [List.length_nil, spans_zero, listElems_nil]; rfl
  | single t hne hc =>
    have hs := spans_single hne hc []
    rw [List.append_nil] at hs
    rw [hs, listElems_single hne hc]
    exact congrArg (· :: []) (List.take_length (l := t))
  | cons t r hc ih =>
    have hs := spans_cons hc r []
    simp only [List.append_nil] at hs
    rw [List.length_append, List.length_cons, hs, List.map_cons, ih, listElems_cons hc]
    exact congrArg (· :: listElems r) List.take_left

def Outcome.verdict : Outcome → Option (Option (BitVec 32))
  | undefined => none
  | exits _ => some none
  | flags res => some (some res)

/-- **The list is read one element after the other.** -/
theorem parse_eq_run (h : Header) (str : CStr) (stale : BitVec 32) :
    (parsePersonalityFlags h str stale).verdict =
      run ((listElems str.text).map (reading h)) stale := by
  have hparse : (vc_list2personalityflag h str.text 0 stale).map verdictOf =
      run ((listElems str.text).map (reading h)) stale := by
    rw [← spans_text, List.map_map]
    unfold vc_list2personalityflag
    rw [listparser_eq_foldSpans]
    exact foldSpans_run _ (spans_delimited str.text str.noNul) stale
  rw [← hparse]
  unfold parsePersonalityFlags
  cases vc_list2personalityflag h str.text 0 stale with
  | none => rfl
  | some r =>
    show _ = some (verdictOf r)
    unfold verdictOf
    dsimp only
    split <;> rfl

/-! ## Which lists are read right -/

theorem reading_of_elemValue {u : Text} {v : BitVec 32} (hv : elemValue h u = some v) :
    reading h u = .value v := by
  unfold elemValue numberValue at hv
  unfold reading
  split at hv
  · rename_i hcaret
    rw [if_pos hcaret]
    have hname : nameValue h u = none := nameValue_none (Or.inr (Or.inr hcaret))
    rw [hname, Option.or_none] at hv
    split at hv
    · rename_i hnum
      rw [if_pos hnum.2, if_pos hnum.1]
      cases hv
      rfl
    · cases hv
  · rename_i hcaret
    rw [if_neg hcaret]
    split at hv
    · rename_i hnum
      rw [if_pos hnum]
      cases hv
      rfl
    · rename_i hnum
      rw [if_neg hnum]
      rw [Option.none_or] at hv
      rw [hv]
      rfl

theorem reading_value_iff {u : Text} : (∃ v, reading h u = .value v) ↔ Accepted h u := by
  constructor
  · rintro ⟨v, hv⟩
    unfold reading at hv
    unfold Accepted elemValue numberValue CaretName
    split at hv
    · rename_i hcaret
      split at hv
      · rename_i hrange
        split at hv
        · rename_i hnum
          left
          rw [if_pos hcaret, if_pos ⟨hnum, hrange⟩]
          rfl
        · right
          refine ⟨hcaret, hrange.1, hrange.2, ?_⟩
          cases hname : nameValue h u.tail with
          | none => rw [hname] at hv; cases hv
          | some w => rfl
      · cases hv
    · rename_i hcaret
      left
      rw [if_neg hcaret]
      split at hv
      · rename_i hnum
        rw [if_pos hnum]
        rfl
      · rename_i hnum
        rw [if_neg hnum, Option.none_or]
        cases hname : nameValue h u with
        | none => rw [hname] at hv; cases hv
        | some w => rfl
  · rintro (hv | ⟨hcaret, hlow, hhigh, hname⟩)
    · obtain ⟨v, hv⟩ := Option.isSome_iff_exists.1 hv
      exact ⟨v, reading_of_elemValue hv⟩
    · obtain ⟨w, hw⟩ := Option.isSome_iff_exists.1 hname
      unfold reading
      rw [if_pos hcaret, if_pos ⟨hlow, hhigh⟩, hw]
      split
      · exact ⟨_, rfl⟩
      · exact ⟨w, rfl⟩

theorem reading_undefined_iff {u : Text} : reading h u = .undefined ↔ CaretRange u := by
  have hname : ∀ o : Option (BitVec 32), Reading.ofOption o ≠ .undefined := by
    intro o ho
    cases o <;> cases ho
  unfold reading CaretRange
  split
  · rename_i hcaret
    split
    · rename_i hrange
      refine iff_of_false ?_ fun hr => hr.2 hrange
      split
      · exact fun hv => by cases hv
      · exact hname _
    · rename_i hrange
      exact iff_of_true rfl ⟨hcaret, hrange⟩
  · rename_i hcaret
    refine iff_of_false ?_ fun hr => hcaret hr.1
    split
    · exact fun hv => by cases hv
    · exact hname _

theorem reading_refused_iff {u : Text} : reading h u = .refused ↔ Refused h u := by
  have hsplit : reading h u = .refused ↔
      ¬ (∃ v, reading h u = .value v) ∧ reading h u ≠ .undefined := by
    cases reading h u with
    | undefined => exact iff_of_false (fun hr => by cases hr) fun hr => hr.2 rfl
    | refused =>
      refine iff_of_true rfl ⟨?_, fun hr => ?_⟩
      · rintro ⟨v, hv⟩
        cases hv
      · cases hr
    | value v => exact iff_of_false (fun hr => by cases hr) fun hr => hr.1 ⟨v, rfl⟩
  rw [hsplit, reading_value_iff, Ne, reading_undefined_iff, Accepted, not_or, Refused,
    Option.not_isSome_iff_eq_none, and_assoc]

theorem run_values (vs : List (BitVec 32)) (flag : BitVec 32) :
    run (vs.map .value) flag = some (some (flag ||| union vs)) := by
  induction vs generalizing flag with
  | nil =>
    rw [union, List.foldr_nil, BitVec.or_zero]
    rfl
  | cons v vs ih =>
    have hunion : union (v :: vs) = v ||| union vs := rfl
    rw [List.map_cons, run, ih, hunion, BitVec.or_assoc]

/-- The run stops at an element just when it is refused behind values. -/
theorem run_refused_iff {rs : List Reading} {flag : BitVec 32} :
    run rs flag = some none ↔ ∃ a b, rs = a ++ .refused :: b ∧ ∀ r ∈ a, ∃ v, r = .value v := by
  induction rs generalizing flag with
  | nil =>
    refine iff_of_false (fun h => by cases h) ?_
    rintro ⟨a, b, h, -⟩
    cases a <;> cases h
  | cons r rs ih =>
    cases r with
    | undefined =>
      refine iff_of_false (fun h => by cases h) ?_
      rintro ⟨a, b, h, hvalues⟩
      cases a with
      | nil => cases h
      | cons r a =>
        cases h
        obtain ⟨v, hv⟩ := hvalues _ List.mem_cons_self
        cases hv
    | refused => exact iff_of_true rfl ⟨[], rs, rfl, List.forall_mem_nil _⟩
    | value v =>
      rw [run, ih]
      constructor
      · rintro ⟨a, b, rfl, hvalues⟩
        refine ⟨.value v :: a, b, rfl, fun r hr => ?_⟩
        rcases List.mem_cons.1 hr with rfl | hr
        · exact ⟨v, rfl⟩
        · exact hvalues r hr
      · rintro ⟨a, b, h, hvalues⟩
        cases a with
        | nil => cases h
        | cons r a =>
          cases h
          exact ⟨a, b, rfl, fun x hx => hvalues x (List.mem_cons_of_mem _ hx)⟩

/-- The readings of good elements are their values. -/
theorem readings_of_good {es : List Text} {vs : List (BitVec 32)}
    (hgood : es.mapM (elemValue h) = some vs) :
    es.map (reading h) = vs.map .value ∧ ∀ e ∈ es, elemValue h e ≠ none := by
  induction es generalizing vs with
  | nil =>
    cases hgood
    exact ⟨rfl, List.forall_mem_nil _⟩
  | cons e es ih =>
    rw [List.mapM_cons] at hgood
    obtain ⟨v, hv, hgood⟩ := Option.bind_eq_some_iff.1 hgood
    obtain ⟨ws, hws, hvs⟩ := Option.bind_eq_some_iff.1 hgood
    cases hvs
    obtain ⟨hreadings, hall⟩ := ih hws
    rw [List.map_cons, hreadings, reading_of_elemValue hv]
    exact ⟨rfl, List.forall_mem_cons.2 ⟨fun hno => Option.some_ne_none v (hv.symm.trans hno), hall⟩⟩

theorem elemValue_nil : elemValue h [] = none := by
  have hnumber : numberValue [] = none := by decide
  rw [elemValue, hnumber, Option.none_or, nameValue_none (Or.inl rfl)]

/-- The parser leaves out an empty element at the end only, which is no good one. -/
theorem listElems_of_good {s : Text} {vs : List (BitVec 32)}
    (hgood : (elements s).mapM (elemValue h) = some vs) : listElems s = elements s := by
  obtain ⟨-, hall⟩ := readings_of_good hgood
  unfold elements at *
  split at hall
  · rename_i hs
    rw [hs, if_pos rfl, listElems_nil]
  · rename_i hs
    rw [if_neg hs]
    unfold listElems dropTrailing
    rw [if_neg]
    intro hlast
    exact hall [] (List.mem_of_getLast? hlast) elemValue_nil

/-- The run stops at an element that is refused behind accepted ones. -/
theorem run_reading_refused (es : List Text) (stale : BitVec 32) :
    run (es.map (reading h)) stale = some none ↔
      ∃ a e b, es = a ++ e :: b ∧ (∀ x ∈ a, Accepted h x) ∧ Refused h e := by
  rw [run_refused_iff]
  constructor
  · rintro ⟨ra, rb, hsplit, hvalues⟩
    obtain ⟨a, rest, rfl, rfl, hrest⟩ := List.map_eq_append_iff.1 hsplit
    obtain ⟨e, b, rfl, he, rfl⟩ := List.map_eq_cons_iff.1 hrest
    refine ⟨a, e, b, rfl, fun x hx => ?_, reading_refused_iff.1 he⟩
    exact reading_value_iff.1 (hvalues _ (List.mem_map_of_mem hx))
  · rintro ⟨a, e, b, rfl, haccepted, hrefused⟩
    refine ⟨a.map (reading h), b.map (reading h), ?_, fun r hr => ?_⟩
    · rw [List.map_append, List.map_cons, reading_refused_iff.2 hrefused]
    · obtain ⟨x, hx, rfl⟩ := List.mem_map.1 hr
      exact reading_value_iff.2 (haccepted x hx)

theorem right_iff (v : Option (BitVec 32)) (o : Outcome) :
    Right v o ↔ o.verdict = some v := by
  cases v with
  | none =>
    cases o with
    | undefined => exact iff_of_false (fun ⟨bad, hb⟩ => by cases hb) (fun hb => by cases hb)
    | exits bad => exact iff_of_true ⟨bad, rfl⟩ rfl
    | flags res => exact iff_of_false (fun ⟨bad, hb⟩ => by cases hb) (fun hb => by cases hb)
  | some v =>
    cases o with
    | undefined => exact iff_of_false (fun hb => by cases hb) (fun hb => by cases hb)
    | exits bad => exact iff_of_false (fun hb => by cases hb) (fun hb => by cases hb)
    | flags res => simp [Right, Outcome.verdict]

/-- **For which lists and which memory the flags are right.** -/
theorem parsePersonalityFlags_exact (h : Header) (str : CStr) (stale : BitVec 32) :
    Right (expected h str.text) (parsePersonalityFlags h str stale) ↔ Sound h str.text stale := by
  rw [right_iff, parse_eq_run, Sound]
  cases hgood : (elements str.text).mapM (elemValue h) with
  | some vs =>
    have hexpected : expected h str.text = some (union vs) := by
      rw [expected, hgood]
      rfl
    rw [hexpected, listElems_of_good hgood, (readings_of_good hgood).1, run_values,
      Option.some_inj, Option.some_inj]
  | none =>
    have hexpected : expected h str.text = none := by
      rw [expected, hgood]
      rfl
    rw [hexpected]
    exact run_reading_refused _ stale

/-- A header with the value that `UNAME26` has there. -/
def uname26 : Header where
  value n := if n = "UNAME26".toList then some 0x20000 else none
  nonzero n v hv := by
    split at hv
    · cases hv
      decide
    · cases hv

/-- One name, and a bit that is left in memory; and the name behind `^`. -/
theorem parsePersonalityFlags_wrong :
    (parsePersonalityFlags uname26 ⟨"UNAME26".toList, by decide⟩ 1 = .flags 0x20001 ∧
      expected uname26 "UNAME26".toList = some 0x20000) ∧
    parsePersonalityFlags uname26 ⟨"^UNAME26".toList, by decide⟩ 0 = .flags 0x20000 ∧
      expected uname26 "^UNAME26".toList = none := by
  decide +kernel

end PersonalityFlags
