import UtilVserver.Lib.CString
import UtilVserver.Lib.BitMention

/-!
# The flag-list parser (`lib/listparser.hc`)

`LISTPARSER(TYPE,SHORT)` is instantiated for two value types; `NumType` holds what differs.
The parser walks over a buffer with a pointer `str` and a remaining length `len`:

* `isNumber` — the numeral and `^` branch, with the shift of the `^` branch left undefined for
  counts outside the width of the type;
* `parseElem` — what one element is taken for, once its prefixes are stripped;
* `listparser` — the loop, which updates `*flag` and `*mask` in place.

Over it stands the list of elements as the parser delimits them (`spans`), and
`foldSpans`, which reads them one after the other.  Principal result: `listparser_eq_foldSpans`
— the loop with its cursor arithmetic is the fold over the spans.
-/

set_option autoImplicit false

namespace ListParser

open CString BitMention

/-- One instance of the parser: the width of `TYPE` and of the type `TONUMBER_##SHORT` returns. -/
structure NumType where
  bits : Nat
  longBits : Nat
  bits_lt : bits < 2 ^ (longBits - 1)

/-- `TONUMBER_uint64` is `strtoll`. -/
abbrev uint64 : NumType := ⟨64, 64, by decide⟩

/-- `TONUMBER_uint32` is `strtol`, whose `long` has 64 bits on LP64 systems. -/
abbrev uint32 : NumType := ⟨32, 64, by decide⟩

/-- The `func` argument: `none` stands for a set `*failed`.  Like `vc_text2bcap` and its siblings
it looks at `len` characters only, unless `len` is 0 and the length is detected. -/
structure Lookup (w : Nat) where
  call : Text → Nat → Option (BitVec w)
  bounded : ∀ t r, t ≠ [] → call (t ++ r) t.length = call t t.length

/-- A lookup in a table whose names do not start with the separator of the list. -/
structure NameLookup (w : Nat) extends Lookup w where
  noComma : ∀ r, call (',' :: r) 0 = none

/-- What `isNumber` leaves behind: its result, the moved `*str`, `*len` and `*res`. -/
structure NumberResult (w : Nat) where
  isNum : Bool
  str : Text
  len : Nat
  res : BitVec w

/-- The test of both branches: `err_ptr>*str && *err_ptr==end_chr`. -/
def endTest (str errPtr : Text) (endChr : Char) : Bool :=
  decide (errPtr.length < str.length) && charAt errPtr 0 == endChr

/-- `isNumber_##SHORT`; `none` when `1 << n` is undefined. -/
def isNumber (T : NumType) (str : Text) (len : Nat) (endChr : Char) :
    Option (NumberResult T.bits) :=
  match str with
  | '^' :: str =>
    let n := strtol T.longBits str
    if 0 ≤ n.1 ∧ n.1 < T.bits then
      some ⟨endTest str n.2 endChr, str, len - 1, 1#T.bits <<< n.1.toNat⟩
    else none
  | str =>
    let n := strtol T.longBits str
    some ⟨endTest str n.2 endChr, str, len, BitVec.ofInt T.bits n.1⟩

/-- The outcome of one element: undefined behaviour, an error at `str`/`cnt`, or its bits. -/
inductive ElemResult (w : Nat) where
  | undef
  | failed (str : Text) (cnt : Nat)
  | value (tmp : BitVec w)
  deriving DecidableEq

/-- A value, or an error at `str`/`cnt` when there is none. -/
def ElemResult.ofOption {w : Nat} (v : Option (BitVec w)) (str : Text) (cnt : Nat) :
    ElemResult w :=
  match v with
  | some v => .value v
  | none => .failed str cnt

@[simp] theorem ElemResult.ofOption_some {w : Nat} (v : BitVec w) (str : Text) (cnt : Nat) :
    ElemResult.ofOption (some v) str cnt = .value v := rfl

@[simp] theorem ElemResult.ofOption_none {w : Nat} (str : Text) (cnt : Nat) :
    ElemResult.ofOption (none : Option (BitVec w)) str cnt = .failed str cnt := rfl

/-- `tmp = (*func)(str,cnt, &failed)`. -/
def lookupName {w : Nat} (func : Text → Nat → Option (BitVec w)) (str : Text) (cnt : Nat) :
    ElemResult w :=
  .ofOption (func str cnt) str cnt

/-- The last two tests on an element: `isNumber_##SHORT(&str, &cnt, &tmp, str[cnt])`, else
`(*func)(str,cnt, &failed)` on the moved `str` and `cnt`. -/
def numberOrName (T : NumType) (func : Text → Nat → Option (BitVec T.bits)) (str : Text)
    (cnt : Nat) : ElemResult T.bits :=
  match isNumber T str cnt (charAt str cnt) with
  | none => .undef
  | some r => if r.isNum then .value r.res else lookupName func r.str r.len

/-- The tests on one element; `masked` is `mask!=0`. -/
def parseElem (T : NumType) (func : Text → Nat → Option (BitVec T.bits)) (masked : Bool)
    (str : Text) (cnt : Nat) : ElemResult T.bits :=
  if cnt = 0 then .failed str cnt
  else if masked && (strncasecmp str "all".toList cnt || strncasecmp str "any".toList cnt) then
    .value (BitVec.allOnes T.bits)
  else if masked && strncasecmp str "none".toList cnt then .value 0#T.bits
  else numberOrName T func str cnt

/-- The negation prefixes: the moved `str`, `len` and `is_neg`. -/
def stripNeg : Text → Nat → Bool → Text × Nat × Bool
  | c :: s, n + 1, neg =>
    if c = '!' ∨ c = '~' then stripNeg s n (!neg) else (c :: s, n + 1, neg)
  | s, n, neg => (s, n, neg)

/-- `while (mask!=0 && …)`: the prefixes count only when there is a mask. -/
def stripPrefix (masked : Bool) (str : Text) (len : Nat) : Text × Nat × Bool :=
  if masked then stripNeg str len false else (str, len, false)

/-- The return code and everything the parser wrote.  `errPtr` is an offset into the string. -/
structure ListResult (w : Nat) where
  code : Int
  errPtr : Option Nat
  errLen : Nat
  flag : BitVec w
  mask : Option (BitVec w)
  deriving DecidableEq

/-- The `for` loop.  `fuel` bounds the number of rounds; every round shortens `len`, and `base`
is the length of the whole string. -/
def loop (T : NumType) (func : Text → Nat → Option (BitVec T.bits)) (base : Nat) :
    Nat → Text → Nat → BitVec T.bits → Option (BitVec T.bits) → Option (ListResult T.bits)
  | 0, _, _, flag, mask => some ⟨0, none, 0, flag, mask⟩
  | fuel + 1, str, len, flag, mask =>
    if len = 0 then some ⟨0, none, 0, flag, mask⟩
    else
      let ptr := strchr str ','
      let (str, len, isNeg) := stripPrefix mask.isSome str len
      let cnt := match ptr with
        | some p => str.length - p.length
        | none => len
      let (cnt, len) := if len ≤ cnt then (len, 0) else (cnt, len - (cnt + 1))
      match parseElem T func mask.isSome str cnt with
      | .undef => none
      | .failed str cnt => some ⟨-1, some (base - str.length), cnt, flag, mask⟩
      | .value tmp =>
        let flag := if isNeg then flag &&& ~~~tmp else flag ||| tmp
        let mask := mask.map (· ||| tmp)
        match ptr with
        | none => some ⟨0, none, 0, flag, mask⟩
        | some p => loop T func base fuel p.tail len flag mask

/-- `utilvserver_listparser_##SHORT`; `none` when an undefined shift is reached. -/
def listparser (T : NumType) (str : Text) (len : Nat) (flag : BitVec T.bits)
    (mask : Option (BitVec T.bits)) (func : Text → Nat → Option (BitVec T.bits)) :
    Option (ListResult T.bits) :=
  let len := if len = 0 then str.length else len
  loop T func str.length len str len flag mask

/-! ## The elements of a list -/

/-- A part of the buffer: where it starts and how long it is. -/
structure Span where
  ptr : Text
  len : Nat
  deriving DecidableEq

def Span.text (sp : Span) : Text := sp.ptr.take sp.len

/-- A trailing comma does not start another element. -/
def dropTrailing (es : List Text) : List Text :=
  if es.getLast? = some [] then es.dropLast else es

/-- The elements of a list as the parser delimits them. -/
def listElems (region : Text) : List Text := dropTrailing (region.splitOn ',')

/-- Where consecutive elements, each with one separator behind it, lie in the buffer. -/
def spansFrom : Text → List Text → List Span
  | _, [] => []
  | s, t :: ts => ⟨s, t.length⟩ :: spansFrom (s.drop (t.length + 1)) ts

/-- The elements in the first `len` characters of the buffer. -/
def spans (str : Text) (len : Nat) : List Span := spansFrom str (listElems (str.take len))

theorem listElems_nil : listElems [] = [] := by simp [listElems, dropTrailing]

theorem listElems_single {t : Text} (hne : t ≠ []) (h : ',' ∉ t) : listElems t = [t] := by
  simp [listElems, dropTrailing, List.splitOn_eq_singleton h, hne]

theorem listElems_cons {t r : Text} (h : ',' ∉ t) :
    listElems (t ++ ',' :: r) = t :: listElems r := by
  have hne : r.splitOn ',' ≠ [] := List.splitOn_ne_nil _ _
  unfold listElems dropTrailing
  rw [List.splitOn_append_cons_self_of_not_mem h, List.getLast?_cons_of_ne_nil hne,
    List.dropLast_cons_of_ne_nil hne]
  split <;> rfl

/-- Induction along the elements of a list. -/
theorem list_induction {P : Text → Prop} (nil : P [])
    (single : ∀ t, t ≠ [] → ',' ∉ t → P t)
    (cons : ∀ t r, ',' ∉ t → P r → P (t ++ ',' :: r)) : ∀ region, P region := by
  intro region
  induction hn : region.length using Nat.strong_induction_on generalizing region with
  | _ n ih =>
    rcases strchr_cases region ',' with h | ⟨t, r, ht, rfl⟩
    · by_cases hne : region = []
      · subst hne; exact nil
      · exact single region hne h
    · refine cons t r ht (ih r.length ?_ r rfl)
      subst hn
      simp only [List.length_append, List.length_cons]
      omega

/-! ## Prefixes -/

/-- The prefixes of a text, without the surrounding buffer. -/
def stripText : Text → Bool → Text × Bool
  | c :: s, neg => if c = '!' ∨ c = '~' then stripText s (!neg) else (c :: s, neg)
  | [], neg => ([], neg)

theorem stripText_suffix : ∀ (t : Text) (neg : Bool), (stripText t neg).1 <:+ t
  | [], _ => List.suffix_refl _
  | c :: t, neg => by
    rw [stripText]
    split
    · exact (stripText_suffix t (!neg)).trans (List.suffix_cons _ _)
    · exact List.suffix_refl _

/-- Stripping stays inside `t` when `t` ends the region or a comma follows it. -/
theorem stripNeg_append {r : Text} {m : Nat} (h : m = 0 ∨ ∃ r', r = ',' :: r') :
    ∀ (t : Text) (neg : Bool), stripNeg (t ++ r) (t.length + m) neg =
      ((stripText t neg).1 ++ r, (stripText t neg).1.length + m, (stripText t neg).2)
  | [], neg => by
    rcases h with rfl | ⟨r', rfl⟩
    · cases r <;> simp [stripNeg, stripText]
    · cases m with
      | zero => simp [stripNeg, stripText]
      | succ m => simp [stripNeg, stripText]
  | c :: t, neg => by
    have hl : (c :: t).length + m = (t.length + m) + 1 := by simp only [List.length_cons]; omega
    rw [List.cons_append, hl, stripNeg, stripText]
    by_cases hc : c = '!' ∨ c = '~'
    · rw [if_pos hc, if_pos hc]
      exact stripNeg_append h t (!neg)
    · rw [if_neg hc, if_neg hc]
      simp only [List.cons_append, List.length_cons, Prod.mk.injEq, true_and, and_true]
      omega

/-- The prefix loop on a whole text. -/
def stripElem (masked : Bool) (t : Text) : Text × Bool :=
  if masked then stripText t false else (t, false)

theorem stripPrefix_append {r : Text} {m : Nat} (h : m = 0 ∨ ∃ r', r = ',' :: r')
    (masked : Bool) (t : Text) : stripPrefix masked (t ++ r) (t.length + m) =
      ((stripElem masked t).1 ++ r, (stripElem masked t).1.length + m, (stripElem masked t).2) := by
  cases masked with
  | false => simp [stripPrefix, stripElem]
  | true => simpa [stripPrefix, stripElem] using stripNeg_append h t false

/-- What the branch for `^` leaves of an element before the name is looked up. -/
def dropCaret (u : Text) : Text := if charAt u 0 = '^' then u.tail else u

/-! ## The loop reads the elements one after the other -/

/-- What the parser takes one element for: whether it is negated, and the outcome. -/
def readSpan (T : NumType) (func : Text → Nat → Option (BitVec T.bits)) (masked : Bool)
    (sp : Span) : Bool × ElemResult T.bits :=
  let s := stripPrefix masked sp.ptr sp.len
  (s.2.2, parseElem T func masked s.1 s.2.1)

/-- Read the elements in order and stop at the first that is not understood. -/
def foldSpans (T : NumType) (func : Text → Nat → Option (BitVec T.bits)) (base : Nat) :
    List Span → BitVec T.bits → Option (BitVec T.bits) → Option (ListResult T.bits)
  | [], flag, mask => some ⟨0, none, 0, flag, mask⟩
  | sp :: sps, flag, mask =>
    match readSpan T func mask.isSome sp with
    | (_, .undef) => none
    | (_, .failed str cnt) => some ⟨-1, some (base - str.length), cnt, flag, mask⟩
    | (neg, .value tmp) =>
      foldSpans T func base sps ((⟨neg, tmp⟩ : Mention T.bits).apply flag) (mask.map (· ||| tmp))

variable {T : NumType} {func : Text → Nat → Option (BitVec T.bits)}

theorem spans_zero (str : Text) : spans str 0 = [] := by simp [spans, listElems_nil, spansFrom]

theorem loop_zero (base fuel : Nat) (str : Text) (flag : BitVec T.bits)
    (mask : Option (BitVec T.bits)) :
    loop T func base fuel str 0 flag mask = some ⟨0, none, 0, flag, mask⟩ := by
  cases fuel <;> simp [loop]

theorem spans_single {t : Text} (hne : t ≠ []) (h : ',' ∉ t) (r : Text) :
    spans (t ++ r) t.length = [⟨t ++ r, t.length⟩] := by
  simp [spans, listElems_single hne h, spansFrom]

theorem spans_cons {t : Text} (h : ',' ∉ t) (r rest : Text) :
    spans (t ++ ',' :: (r ++ rest)) (t.length + (r.length + 1)) =
      ⟨t ++ ',' :: (r ++ rest), t.length⟩ :: spans (r ++ rest) r.length := by
  have htake : (t ++ ',' :: (r ++ rest)).take (t.length + (r.length + 1)) = t ++ ',' :: r := by
    simp [List.take_length_add_append]
  have hdrop : (t ++ ',' :: (r ++ rest)).drop (t.length + 1) = r ++ rest := by
    simp [List.drop_length_add_append]
  simp only [spans, htake, listElems_cons h, spansFrom, hdrop, List.take_left]

/-- A comma found behind the region lies at least `len` characters away. -/
theorem strchr_far {t r p : Text} (h : ',' ∉ t) (hp : strchr (t ++ r) ',' = some p) :
    p.length ≤ r.length := by
  rw [strchr_append_not_mem h] at hp
  obtain ⟨u, v, -, rfl, rfl⟩ := strchr_some hp
  simp

/-- **The loop is the fold over the elements**: the cursor and length arithmetic of the parser
visits exactly the spans of the list, and rounds beyond `len` are never needed. -/
theorem loop_eq_foldSpans (base : Nat) : ∀ (fuel : Nat) (str : Text) (len : Nat)
    (flag : BitVec T.bits) (mask : Option (BitVec T.bits)), len ≤ fuel → len ≤ str.length →
    loop T func base fuel str len flag mask = foldSpans T func base (spans str len) flag mask := by
  intro fuel
  induction fuel with
  | zero =>
    intro str len flag mask hf _
    obtain rfl : len = 0 := by omega
    rw [loop_zero, spans_zero, foldSpans]
  | succ fuel ih =>
    intro str len flag mask hf hle
    by_cases h0 : len = 0
    · subst h0; rw [loop_zero, spans_zero, foldSpans]
    obtain ⟨region, rest, rfl, rfl⟩ : ∃ region rest, str = region ++ rest ∧ len = region.length :=
      ⟨str.take len, str.drop len, (List.take_append_drop _ _).symm, by simp [hle]⟩
    rw [loop, if_neg h0]
    rcases strchr_cases region ',' with hnc | ⟨t, r, ht, rfl⟩
    · -- one element is left; a comma behind the region does not shorten it
      have hne : region ≠ [] := by rintro rfl; exact h0 rfl
      have hsp := stripPrefix_append (r := rest) (m := 0) (Or.inl rfl) mask.isSome region
      rw [Nat.add_zero, Nat.add_zero] at hsp
      rw [spans_single hne hnc, foldSpans, readSpan, hsp]
      cases hptr : strchr (region ++ rest) ',' with
      | none =>
        simp only [Nat.le_refl, if_true]
        cases parseElem T func mask.isSome ((stripElem mask.isSome region).1 ++ rest)
          (stripElem mask.isSome region).1.length <;> simp [foldSpans, Mention.apply]
      | some p =>
        have hfar := strchr_far hnc hptr
        have hcnt : (stripElem mask.isSome region).1.length ≤
            ((stripElem mask.isSome region).1 ++ rest).length - p.length := by
          simp only [List.length_append]; omega
        simp only [if_pos hcnt]
        cases parseElem T func mask.isSome ((stripElem mask.isSome region).1 ++ rest)
          (stripElem mask.isSome region).1.length <;>
            simp [foldSpans, Mention.apply, loop_zero]
    · -- the first comma lies inside the region and ends the element `t`
      have hstr : (t ++ ',' :: r) ++ rest = t ++ ',' :: (r ++ rest) := by simp
      have hlen : (t ++ ',' :: r).length = t.length + (r.length + 1) := by simp
      have hsp := stripPrefix_append (r := ',' :: (r ++ rest)) (m := r.length + 1)
        (Or.inr ⟨_, rfl⟩) mask.isSome t
      have hsp0 := stripPrefix_append (r := ',' :: (r ++ rest)) (m := 0) (Or.inl rfl) mask.isSome t
      rw [Nat.add_zero, Nat.add_zero] at hsp0
      rw [hstr, hlen, strchr_append ht, hsp, spans_cons ht, foldSpans, readSpan, hsp0]
      have hcnt : ((stripElem mask.isSome t).1 ++ ',' :: (r ++ rest)).length -
          (',' :: (r ++ rest)).length = (stripElem mask.isSome t).1.length := by simp
      have hrem : (stripElem mask.isSome t).1.length + (r.length + 1) -
          ((stripElem mask.isSome t).1.length + 1) = r.length := by omega
      have hnle : ¬ (stripElem mask.isSome t).1.length + (r.length + 1) ≤
          (stripElem mask.isSome t).1.length := by omega
      simp only [hcnt, if_neg hnle, hrem, List.tail_cons]
      cases parseElem T func mask.isSome ((stripElem mask.isSome t).1 ++ ',' :: (r ++ rest))
        (stripElem mask.isSome t).1.length with
      | undef => rfl
      | failed s c => rfl
      | value tmp =>
        have hr : r.length ≤ fuel := by rw [hlen] at hf; omega
        simp only [Mention.apply]
        rw [ih (r ++ rest) r.length _ _ hr (by simp)]

theorem listparser_eq_foldSpans (s : Text) (flag : BitVec T.bits) (mask : Option (BitVec T.bits)) :
    listparser T s 0 flag mask func = foldSpans T func s.length (spans s s.length) flag mask := by
  simp only [listparser, if_true]
  exact loop_eq_foldSpans _ _ _ _ _ _ (Nat.le_refl _) (Nat.le_refl _)

theorem listparser_len_eq_foldSpans {s : Text} {len : Nat} (h0 : len ≠ 0) (hle : len ≤ s.length)
    (flag : BitVec T.bits) (mask : Option (BitVec T.bits)) :
    listparser T s len flag mask func = foldSpans T func s.length (spans s len) flag mask := by
  simp only [listparser, if_neg h0]
  exact loop_eq_foldSpans _ _ _ _ _ _ (Nat.le_refl _) hle

/-! ## The verdict on a list -/

/-- What becomes of a list of readings: an undefined shift, an element that is refused after the
mentions `ms`, or a complete list of mentions. -/
inductive Verdict (w : Nat) where
  | undef
  | refused (ms : List (Mention w)) (str : Text) (cnt : Nat)
  | all (ms : List (Mention w))

def Verdict.cons {w : Nat} (m : Mention w) : Verdict w → Verdict w
  | .undef => .undef
  | .refused ms str cnt => .refused (m :: ms) str cnt
  | .all ms => .all (m :: ms)

/-- Go through the readings up to the first that is not a value. -/
def verdict {w : Nat} : List (Bool × ElemResult w) → Verdict w
  | [] => .all []
  | (_, .undef) :: _ => .undef
  | (_, .failed str cnt) :: _ => .refused [] str cnt
  | (neg, .value tmp) :: rs => (verdict rs).cons ⟨neg, tmp⟩

/-- What the parser leaves behind for a verdict. -/
def Verdict.result {w : Nat} (base : Nat) (flag : BitVec w) (mask : Option (BitVec w)) :
    Verdict w → Option (ListResult w)
  | .undef => none
  | .refused ms str cnt =>
    some ⟨-1, some (base - str.length), cnt, foldFlag ms flag, mask.map (foldMask ms)⟩
  | .all ms => some ⟨0, none, 0, foldFlag ms flag, mask.map (foldMask ms)⟩

theorem Verdict.result_cons {w : Nat} (base : Nat) (m : Mention w) (flag : BitVec w)
    (mask : Option (BitVec w)) (v : Verdict w) :
    (v.cons m).result base flag mask = v.result base (m.apply flag) (mask.map (· ||| m.bits)) := by
  cases v <;> cases mask <;> simp [Verdict.cons, Verdict.result]

/-- **The parser returns what the verdict on its readings says**: the fold of the mentions read
before the end or before the element that is refused. -/
theorem foldSpans_eq_result (base : Nat) : ∀ (sps : List Span) (flag : BitVec T.bits)
    (mask : Option (BitVec T.bits)), foldSpans T func base sps flag mask =
      (verdict (sps.map (readSpan T func mask.isSome))).result base flag mask := by
  intro sps
  induction sps with
  | nil => intro flag mask; simp [foldSpans, verdict, Verdict.result]
  | cons sp sps ih =>
    intro flag mask
    rw [foldSpans, List.map_cons]
    obtain ⟨neg, e⟩ := readSpan T func mask.isSome sp
    cases e with
    | undef => rfl
    | failed str cnt => simp [verdict, Verdict.result]
    | value tmp =>
      simp only [verdict, Verdict.result_cons, ih, Option.isSome_map]

end ListParser
