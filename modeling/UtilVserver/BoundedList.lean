import UtilVserver.FlagGrammar
import UtilVserver.ErrorSpan

/-!
# Lists with an explicit length

The configuration reader passes every line of a flag file with its length, and the byte behind
the line is the newline or a blank.  The parser delimits the elements by `len`, but scans a
number with `strtol` and looks at the byte behind the element.

* `extend` — a reading or verdict, with more of the buffer behind it.
* `LastLocal` — the last element of the region reads alike in the buffer and in a copy.
* `Sheltered` — the bytes at the end of the region and behind it can not be mixed up.

Principal results: `listparser_local_iff` (the buffer behind the region leaks in exactly when
the parser gets to the last element and that element does not read alike) and `listparser_local`
(a sheltered region is read like a copy of it).
-/

set_option autoImplicit false

namespace BoundedList

open CString BitMention ListParser NameTables FlagGrammar ErrorSpan

variable {T : NumType}

/-! ## More of the buffer -/

/-- A reading, with `x` at the end of the buffer. -/
def extend {w : Nat} (x : Text) : ElemResult w → ElemResult w
  | .failed str cnt => .failed (str ++ x) cnt
  | e => e

/-- A verdict, with `x` at the end of the buffer. -/
def extendVerdict {w : Nat} (x : Text) : Verdict w → Verdict w
  | .refused ms str cnt => .refused ms (str ++ x) cnt
  | v => v

theorem verdict_extend {w : Nat} (x : Text) (rs : List (Bool × ElemResult w)) :
    verdict (rs.map fun r => (r.1, extend x r.2)) = extendVerdict x (verdict rs) := by
  induction rs with
  | nil => rfl
  | cons r rs ih =>
    obtain ⟨neg, e⟩ := r
    rw [List.map_cons]
    cases e with
    | undef => rfl
    | failed str cnt => rfl
    | value v =>
      change (verdict (rs.map fun r => (r.1, extend x r.2))).cons ⟨neg, v⟩ = _
      rw [ih, verdict]
      cases verdict rs <;> rfl

/-- Offsets into the buffer do not depend on what is behind the region. -/
theorem result_extend {w : Nat} (x : Text) (v : Verdict w) (base : Nat) (flag : BitVec w)
    (mask : Option (BitVec w)) :
    (extendVerdict x v).result (base + x.length) flag mask = v.result base flag mask := by
  cases v with
  | refused ms str cnt =>
    have hoff : base + x.length - (str.length + x.length) = base - str.length := by omega
    simp only [extendVerdict, Verdict.result, List.length_append, hoff]
  | _ => rfl

/-- The verdict on the readings `v` goes on to `v'` when nothing was refused before. -/
def andThen {w : Nat} : Verdict w → Verdict w → Verdict w
  | .all ms, .all ms' => .all (ms ++ ms')
  | .all ms, .refused ms' str cnt => .refused (ms ++ ms') str cnt
  | .all _, .undef => .undef
  | v, _ => v

theorem verdict_append {w : Nat} (rs rs' : List (Bool × ElemResult w)) :
    verdict (rs ++ rs') = andThen (verdict rs) (verdict rs') := by
  induction rs with
  | nil => cases h : verdict rs' <;> simp [verdict, andThen, h]
  | cons r rs ih =>
    obtain ⟨neg, e⟩ := r
    rw [List.cons_append]
    cases e with
    | undef => rfl
    | failed str cnt => rfl
    | value v =>
      simp only [verdict, ih]
      cases verdict rs <;> cases verdict rs' <;> rfl

/-! ## A comma keeps the buffer out -/

theorem shields_comma {u : Text} (hc : ',' ∉ u) (r : Text) : Shields u (',' :: r) :=
  ⟨Or.inr ⟨',', r, rfl, numberEnd_comma, Or.inl (by decide)⟩, hc⟩

theorem lookupName_comma (func : NameLookup T.bits) (u r x : Text) :
    lookupName func.call (u ++ ',' :: (r ++ x)) u.length =
      extend x (lookupName func.call (u ++ ',' :: r) u.length) := by
  by_cases hu : u = []
  · subst hu
    simp [lookupName, func.noComma, extend]
  · simp only [lookupName, func.bounded u _ hu]
    cases func.call u u.length <;> simp [extend]

theorem lenientNumber_comma (func : NameLookup T.bits) (u r x : Text) :
    lenientNumber T func.toLookup u (',' :: (r ++ x)) =
      extend x (lenientNumber T func.toLookup u (',' :: r)) := by
  unfold lenientNumber
  simp only
  split
  · split
    · split
      · rfl
      · exact lookupName_comma func u.tail r x
    · rfl
  · split
    · rfl
    · exact lookupName_comma func u r x

theorem parseElem_comma (func : NameLookup T.bits) (masked : Bool) {u : Text} (hc : ',' ∉ u)
    (r x : Text) :
    parseElem T func.call masked (u ++ ',' :: (r ++ x)) u.length =
      extend x (parseElem T func.call masked (u ++ ',' :: r) u.length) := by
  by_cases hu : u = []
  · subst hu; simp [parseElem, extend]
  have hlen : ¬ u.length = 0 := by simp [hu]
  have hd : ∀ r' d, u = '^' :: d → Shields d (',' :: r') := fun r' d hd =>
    shields_comma (fun h => hc (by rw [hd]; exact List.mem_cons_of_mem _ h)) r'
  have hnum : ∀ r', numberOrName T func.call (u ++ ',' :: r') u.length =
      lenientNumber T func.toLookup u (',' :: r') := fun r' =>
    numberOrName_eq_lenient func.toLookup hu (shields_comma hc r') (hd r')
  simp only [parseElem, if_neg hlen, strncasecmp_append, hnum, lenientNumber_comma]
  split
  · rfl
  split
  · rfl
  · rfl

/-- An element in front of a comma reads alike, whatever is added to the buffer. -/
theorem readSpan_comma (func : NameLookup T.bits) (masked : Bool) {t : Text} (hc : ',' ∉ t)
    (r x : Text) :
    readSpan T func.call masked ⟨t ++ ',' :: (r ++ x), t.length⟩ =
      ((readSpan T func.call masked ⟨t ++ ',' :: r, t.length⟩).1,
        extend x (readSpan T func.call masked ⟨t ++ ',' :: r, t.length⟩).2) := by
  have hsp : ∀ r', stripPrefix masked (t ++ ',' :: r') t.length = _ := fun r' =>
    stripPrefix_append (r := ',' :: r') (m := 0) (Or.inl rfl) masked t
  have hu : ',' ∉ (stripElem masked t).1 := by
    intro h
    cases masked with
    | false => exact hc h
    | true => exact hc ((stripText_suffix t false).subset h)
  simp only [readSpan, hsp, Nat.add_zero, parseElem_comma func masked hu]

/-! ## The last element -/

/-- `front` is empty or ends with a comma. -/
def Closed (front : Text) : Prop := front = [] ∨ ∃ p, front = p ++ [',']

theorem closed_of_cons {t r : Text} (h : Closed (t ++ ',' :: r)) : Closed r := by
  rcases h with h | ⟨p, h⟩
  · simp at h
  · cases r using List.reverseRecOn with
    | nil => exact Or.inl rfl
    | append_singleton r c =>
      right
      have h' : (t ++ ',' :: r) ++ [c] = p ++ [','] := by rw [← h]; simp
      exact ⟨r, by rw [(List.append_inj' h' rfl).2]⟩

theorem not_closed_of_not_mem {t : Text} (hne : t ≠ []) (hc : ',' ∉ t) : ¬ Closed t := by
  rintro (h | ⟨p, rfl⟩)
  · exact hne h
  · simp at hc

/-- Every region is a closed front and a last element, which is empty behind a trailing comma. -/
theorem exists_last : ∀ region : Text,
    ∃ front last, region = front ++ last ∧ Closed front ∧ ',' ∉ last := by
  intro region
  induction region using list_induction with
  | nil => exact ⟨[], [], rfl, Or.inl rfl, by simp⟩
  | single t hne hc => exact ⟨[], t, rfl, Or.inl rfl, hc⟩
  | cons t r hc ih =>
    obtain ⟨front, last, rfl, hfront, hlast⟩ := ih
    refine ⟨t ++ ',' :: front, last, by simp, Or.inr ?_, hlast⟩
    rcases hfront with rfl | ⟨p, rfl⟩
    · exact ⟨t, rfl⟩
    · exact ⟨t ++ ',' :: p, by simp⟩

/-- The elements of the front lie in front of commas and do not see the buffer behind it. -/
theorem reads_front (func : NameLookup T.bits) (masked : Bool) (x : Text) : ∀ front : Text,
    Closed front →
    (spans (front ++ x) front.length).map (readSpan T func.call masked) =
      ((spans front front.length).map (readSpan T func.call masked)).map
        fun r => (r.1, extend x r.2) := by
  intro front
  induction front using list_induction with
  | nil => intro _; simp [spans_zero]
  | single t hne hc => intro h; exact absurd h (not_closed_of_not_mem hne hc)
  | cons t r hc ih =>
    intro h
    have hx := spans_cons hc r x
    have h0 := spans_cons hc r []
    simp only [List.append_nil] at h0
    rw [List.append_assoc, List.cons_append, List.length_append, List.length_cons, hx, h0]
    simp only [List.map_cons, readSpan_comma func masked hc, ih (closed_of_cons h)]

theorem spans_front_last (last rest : Text) : ∀ front : Text,
    Closed front →
    spans (front ++ (last ++ rest)) (front ++ last).length =
      spans (front ++ (last ++ rest)) front.length ++ spans (last ++ rest) last.length := by
  intro front
  induction front using list_induction with
  | nil => intro _; simp [spans_zero]
  | single t hne hc => intro h; exact absurd h (not_closed_of_not_mem hne hc)
  | cons t r hc ih =>
    intro h
    have hall := spans_cons hc (r ++ last) rest
    have hfront := spans_cons hc r (last ++ rest)
    have hlen : (t ++ ',' :: r ++ last).length = t.length + ((r ++ last).length + 1) := by
      simp only [List.length_append, List.length_cons]; omega
    have hlen' : (t ++ ',' :: r).length = t.length + (r.length + 1) := by simp
    rw [List.append_assoc] at hall
    rw [hlen, hlen', List.append_assoc, List.cons_append, hall, hfront, ih (closed_of_cons h),
      List.cons_append]

/-- The outcomes of the last element have the same effect after the mentions `ms`. -/
def SameOutcome {w : Nat} (ms : List (Mention w)) (neg : Bool) :
    ElemResult w → ElemResult w → Prop
  | .undef, .undef => True
  | .failed _ _, .failed _ _ => True
  | .value v, .value v' => SameSigns (ms ++ [⟨neg, v⟩]) (ms ++ [⟨neg, v'⟩])
  | _, _ => False

/-- The element is a keyword or an abbreviation of one. -/
def isKeyword (masked : Bool) (u : Text) : Bool :=
  masked && (abbreviates u "all".toList || abbreviates u "any".toList ||
    abbreviates u "none".toList)

/-- After the mentions `ms`, the last element `last` reads alike in front of `rest` and at the
end of a string: it is empty or a keyword, or its number or name has the same outcome. -/
def LastLocal (T : NumType) (func : NameLookup T.bits) (masked : Bool)
    (ms : List (Mention T.bits)) (last rest : Text) : Prop :=
  let u := (stripElem masked last).1
  u = [] ∨ isKeyword masked u = true ∨
    SameOutcome ms (stripElem masked last).2
      (numberOrName T func.call (u ++ rest) u.length) (numberOrName T func.call u u.length)

/-- What the parser makes of the elements of a closed front. -/
def frontVerdict (T : NumType) (func : NameLookup T.bits) (masked : Bool) (front : Text) :
    Verdict T.bits :=
  verdict ((spans front front.length).map (readSpan T func.call masked))

/-- **The condition of locality**: unless the parser stops before the last element of the
region, that element reads alike in front of `rest` and at the end of a string. -/
def Local (T : NumType) (func : NameLookup T.bits) (masked : Bool) (region rest : Text) : Prop :=
  ∀ front last ms, region = front ++ last → Closed front → ',' ∉ last →
    frontVerdict T func masked front = .all ms → LastLocal T func masked ms last rest

/-! ## When the two runs agree -/

/-- Mentions of a run without mask are never negated. -/
theorem pos_of_verdict {func : Text → Nat → Option (BitVec T.bits)} : ∀ {sps : List Span}
    {ms : List (Mention T.bits)}, verdict (sps.map (readSpan T func false)) = .all ms →
    ∀ m ∈ ms, m.neg = false := by
  intro sps
  induction sps with
  | nil => intro ms h; cases h; simp
  | cons sp sps ih =>
    intro ms h
    have hneg : (readSpan T func false sp).1 = false := rfl
    rw [List.map_cons] at h
    generalize readSpan T func false sp = r at h hneg
    obtain ⟨neg, e⟩ := r
    obtain rfl : neg = false := hneg
    cases e with
    | undef => cases h
    | failed str cnt => cases h
    | value v =>
      rw [verdict] at h
      cases hv : verdict (sps.map (readSpan T func false)) with
      | undef => rw [hv] at h; cases h
      | refused ms' s c => rw [hv] at h; cases h
      | all ms' =>
        rw [hv] at h
        cases h
        intro m hm
        rcases List.mem_cons.1 hm with rfl | hm
        · rfl
        · exact ih hv m hm

/-- The same start mask for every kind of run. -/
theorem exists_mask (w : Nat) (masked : Bool) :
    ∃ mask : Option (BitVec w), mask.isSome = masked := by
  cases masked with
  | true => exact ⟨some 0#w, rfl⟩
  | false => exact ⟨none, rfl⟩

/-- What the run with one more element returns. -/
theorem andThen_last {w : Nat} (ms : List (Mention w)) (neg : Bool) (e : ElemResult w) :
    andThen (.all ms) (verdict [(neg, e)]) =
      match e with
      | .undef => .undef
      | .failed str cnt => .refused ms str cnt
      | .value v => .all (ms ++ [⟨neg, v⟩]) := by
  cases e <;> simp [verdict, Verdict.cons, andThen]

/-- **The last element decides**: two runs that differ in its outcome only return the same for
all start values exactly when the outcomes have the same effect. -/
theorem last_result_iff {w : Nat} {masked : Bool} {ms : List (Mention w)} {neg : Bool}
    (hpos : masked = false → neg = false ∧ ∀ m ∈ ms, m.neg = false) (x : Text) (base : Nat)
    {a b : ElemResult w} (hfail : ∀ str cnt str' cnt', a = .failed str cnt →
      b = .failed str' cnt' → str = str' ++ x ∧ cnt = cnt') :
    (∀ flag mask, mask.isSome = masked →
      (andThen (.all ms) (verdict [(neg, a)])).result (base + x.length) flag mask =
        (andThen (.all ms) (verdict [(neg, b)])).result base flag mask) ↔
      SameOutcome ms neg a b := by
  obtain ⟨mask₀, hmask₀⟩ := exists_mask w masked
  simp only [andThen_last]
  cases a with
  | undef =>
    cases b with
    | undef => simp [SameOutcome, Verdict.result]
    | failed str cnt =>
      exact ⟨fun h => by simpa [Verdict.result] using h 0#w mask₀ hmask₀, False.elim⟩
    | value v => exact ⟨fun h => by simpa [Verdict.result] using h 0#w mask₀ hmask₀, False.elim⟩
  | failed str cnt =>
    cases b with
    | undef => exact ⟨fun h => by simpa [Verdict.result] using h 0#w mask₀ hmask₀, False.elim⟩
    | failed str' cnt' =>
      obtain ⟨rfl, rfl⟩ := hfail str cnt str' cnt' rfl rfl
      exact ⟨fun _ => trivial, fun _ flag mask _ =>
        result_extend x (.refused ms str' cnt) base flag mask⟩
    | value v => exact ⟨fun h => by simpa [Verdict.result] using h 0#w mask₀ hmask₀, False.elim⟩
  | value v =>
    cases b with
    | undef => exact ⟨fun h => by simpa [Verdict.result] using h 0#w mask₀ hmask₀, False.elim⟩
    | failed str cnt =>
      exact ⟨fun h => by simpa [Verdict.result] using h 0#w mask₀ hmask₀, False.elim⟩
    | value v' =>
      simp only [SameOutcome, Verdict.result, Option.some.injEq, ListResult.mk.injEq, true_and]
      cases masked with
      | true =>
        rw [← sameEffect_iff]
        constructor
        · intro h flag mask
          have hm := h flag (some mask) rfl
          exact ⟨hm.1, by simpa using hm.2⟩
        · intro h flag mask hmask
          obtain ⟨m, rfl⟩ := Option.isSome_iff_exists.1 hmask
          exact ⟨(h flag m).1, by simp [(h flag m).2]⟩
      | false =>
        obtain ⟨hneg, hms⟩ := hpos rfl
        have hall : ∀ v : BitVec w, ∀ m ∈ ms ++ [⟨neg, v⟩], m.neg = false := by
          intro v m hm
          rcases List.mem_append.1 hm with hm | hm
          · exact hms m hm
          · rw [List.mem_singleton.1 hm]; exact hneg
        rw [← sameFlag_iff_of_pos (hall v) (hall v')]
        constructor
        · intro h flag
          exact (h flag none rfl).1
        · intro h flag mask hmask
          have hnone : mask = none := by simpa using hmask
          subst hnone
          exact ⟨h flag, rfl⟩

/-- A last element of the region in front of `rest`. -/
theorem readSpan_last (func : Text → Nat → Option (BitVec T.bits)) (masked : Bool)
    (last rest : Text) :
    readSpan T func masked ⟨last ++ rest, last.length⟩ =
      ((stripElem masked last).2, parseElem T func masked ((stripElem masked last).1 ++ rest)
        (stripElem masked last).1.length) := by
  have hsp := stripPrefix_append (r := rest) (m := 0) (Or.inl rfl) masked last
  rw [Nat.add_zero, Nat.add_zero] at hsp
  rw [readSpan, hsp]

theorem parseElem_nil (func : Text → Nat → Option (BitVec T.bits)) (masked : Bool) (rest : Text) :
    parseElem T func masked rest 0 = .failed rest 0 := by
  simp [parseElem]

theorem parseElem_keyword (func : Text → Nat → Option (BitVec T.bits)) {masked : Bool} {u : Text}
    (hu : u ≠ []) (h : isKeyword masked u = true) (rest : Text) :
    ∃ v, parseElem T func masked (u ++ rest) u.length = .value v ∧
      parseElem T func masked u u.length = .value v := by
  have hlen : ¬ u.length = 0 := by simp [hu]
  have hk := fun (kw : Text) (hkw : lower kw = kw) f => keyword_eq_abbreviates hkw u f
  have hself := fun (kw : Text) (hkw : lower kw = kw) => by
    simpa using keyword_eq_abbreviates hkw u []
  simp only [isKeyword, Bool.and_eq_true, Bool.or_eq_true] at h
  obtain ⟨rfl, h⟩ := h
  simp only [parseElem, if_neg hlen, Bool.true_and, hk "all".toList (by decide),
    hk "any".toList (by decide), hk "none".toList (by decide), hself "all".toList (by decide),
    hself "any".toList (by decide), hself "none".toList (by decide), Bool.or_eq_true]
  by_cases ha : abbreviates u "all".toList = true ∨ abbreviates u "any".toList = true
  · exact ⟨BitVec.allOnes T.bits, by rw [if_pos ha], by rw [if_pos ha]⟩
  · have hn : abbreviates u "none".toList = true := h.resolve_left ha
    exact ⟨0#T.bits, by rw [if_neg ha, if_pos hn], by rw [if_neg ha, if_pos hn]⟩

theorem parseElem_other (func : Text → Nat → Option (BitVec T.bits)) {masked : Bool} {u : Text}
    (hu : u ≠ []) (h : isKeyword masked u = false) (rest : Text) :
    parseElem T func masked (u ++ rest) u.length = numberOrName T func (u ++ rest) u.length := by
  have hlen : ¬ u.length = 0 := by simp [hu]
  have hk := fun (kw : Text) (hkw : lower kw = kw) => keyword_eq_abbreviates hkw u rest
  simp only [parseElem, if_neg hlen, hk "all".toList (by decide), hk "any".toList (by decide),
    hk "none".toList (by decide)]
  cases masked with
  | false => simp
  | true =>
    simp only [isKeyword, Bool.true_and, Bool.or_eq_false_iff] at h
    simp only [h.1.1, h.1.2, h.2, Bool.true_and, Bool.or_false, Bool.false_eq_true, if_false]

/-- The condition on the last element, in terms of the whole of its tests. -/
theorem lastLocal_iff (func : NameLookup T.bits) (masked : Bool) (ms : List (Mention T.bits))
    (last rest : Text) :
    LastLocal T func masked ms last rest ↔
      SameOutcome ms (stripElem masked last).2
        (parseElem T func.call masked ((stripElem masked last).1 ++ rest)
          (stripElem masked last).1.length)
        (parseElem T func.call masked (stripElem masked last).1
          (stripElem masked last).1.length) := by
  unfold LastLocal
  generalize (stripElem masked last).1 = u
  by_cases hu : u = []
  · subst hu
    simp [parseElem_nil, SameOutcome]
  · cases hk : isKeyword masked u with
    | true =>
      obtain ⟨v, hv, hv'⟩ := parseElem_keyword func.call hu hk rest
      rw [hv, hv']
      exact ⟨fun _ => SameSigns.refl _, fun _ => Or.inr (Or.inl hk)⟩
    | false =>
      have h0 := parseElem_other func.call hu hk []
      rw [List.append_nil] at h0
      rw [parseElem_other func.call hu hk rest, h0]
      simp [hu, hk]

/-- The failures of the last element point at the same place. -/
theorem parseElem_failed_twice {func : Text → Nat → Option (BitVec T.bits)} {masked : Bool}
    {u rest str str' : Text} {cnt cnt' : Nat}
    (h : parseElem T func masked (u ++ rest) u.length = .failed str cnt)
    (h' : parseElem T func masked u u.length = .failed str' cnt') :
    str = str' ++ rest ∧ cnt = cnt' := by
  obtain ⟨hs, hc⟩ := parseElem_failed h
  have h0 : parseElem T func masked (u ++ []) u.length = .failed str' cnt' := by
    rw [List.append_nil]; exact h'
  obtain ⟨hs', hc'⟩ := parseElem_failed h0
  rw [List.append_nil] at hs'
  exact ⟨by rw [hs, hs'], by rw [hc, hc']⟩

/-- The reading of the last element, if there is one. -/
def lastReads (T : NumType) (func : NameLookup T.bits) (masked : Bool) (last rest : Text) :
    List (Bool × ElemResult T.bits) :=
  if last = [] then [] else [readSpan T func.call masked ⟨last ++ rest, last.length⟩]

/-- The verdict on a region goes through its front and then its last element. -/
theorem verdict_region (func : NameLookup T.bits) (masked : Bool) {front last : Text}
    (hfront : Closed front) (hlast : ',' ∉ last) (rest : Text) :
    verdict ((spans (front ++ (last ++ rest)) (front ++ last).length).map
        (readSpan T func.call masked)) =
      andThen (extendVerdict rest (extendVerdict last (frontVerdict T func masked front)))
        (verdict (lastReads T func masked last rest)) := by
  have hext : ∀ v : Verdict T.bits,
      extendVerdict (last ++ rest) v = extendVerdict rest (extendVerdict last v) := by
    intro v; cases v <;> simp [extendVerdict]
  have hreads : (spans (last ++ rest) last.length).map (readSpan T func.call masked) =
      lastReads T func masked last rest := by
    unfold lastReads
    split
    · rename_i h; subst h; simp [spans_zero]
    · rename_i h; rw [spans_single h hlast]; rfl
  rw [spans_front_last last rest front hfront, List.map_append, reads_front func masked _ _ hfront,
    verdict_append, verdict_extend, hext, hreads, frontVerdict]

/-- **Locality of a region with an explicit front and last element.** -/
theorem region_local_iff (func : NameLookup T.bits) {masked : Bool} {front last : Text}
    (hfront : Closed front) (hlast : ',' ∉ last) (rest : Text) :
    (∀ flag mask, mask.isSome = masked →
      foldSpans T func.call (front ++ last ++ rest).length
          (spans (front ++ (last ++ rest)) (front ++ last).length) flag mask =
        foldSpans T func.call (front ++ last).length
          (spans (front ++ last) (front ++ last).length) flag mask) ↔
      ∀ ms, frontVerdict T func masked front = .all ms →
        LastLocal T func masked ms last rest := by
  have hbuf := verdict_region func masked hfront hlast rest
  have hcopy := verdict_region func masked hfront hlast []
  have hbase : (front ++ last ++ rest).length = (front ++ last).length + rest.length :=
    List.length_append
  have hnil : ∀ v : Verdict T.bits, extendVerdict [] v = v := by
    intro v; cases v <;> simp [extendVerdict]
  rw [List.append_nil, hnil] at hcopy
  have hside : ∀ flag (mask : Option (BitVec T.bits)), mask.isSome = masked →
      ((foldSpans T func.call (front ++ last ++ rest).length
          (spans (front ++ (last ++ rest)) (front ++ last).length) flag mask =
        foldSpans T func.call (front ++ last).length
          (spans (front ++ last) (front ++ last).length) flag mask) ↔
      (andThen (extendVerdict rest (extendVerdict last (frontVerdict T func masked front)))
          (verdict (lastReads T func masked last rest))).result
          ((front ++ last).length + rest.length) flag mask =
        (andThen (extendVerdict last (frontVerdict T func masked front))
          (verdict (lastReads T func masked last []))).result
            (front ++ last).length flag mask) := by
    intro flag mask hm
    rw [foldSpans_eq_result, foldSpans_eq_result, hm, hbuf, hcopy, hbase]
  rw [forall_congr' fun flag => forall_congr' fun mask => forall_congr' fun hm =>
    hside flag mask hm]
  cases hv : frontVerdict T func masked front with
  | undef => simp [extendVerdict, andThen, Verdict.result]
  | refused ms str cnt =>
    simp only [extendVerdict, andThen, reduceCtorEq, false_implies, implies_true, iff_true]
    intro flag mask _
    exact result_extend rest (.refused ms (str ++ last) cnt) _ flag mask
  | all ms =>
    simp only [extendVerdict, Verdict.all.injEq, forall_eq', lastReads]
    by_cases hne : last = []
    · subst hne
      simp only [if_true, verdict, andThen, List.append_nil]
      refine ⟨fun _ => Or.inl (by cases masked <;> rfl), fun _ flag mask _ => ?_⟩
      exact result_extend rest (.all ms) _ flag mask
    · rw [if_neg hne, if_neg hne, readSpan_last, readSpan_last, List.append_nil, lastLocal_iff]
      refine last_result_iff ?_ rest _ fun str cnt str' cnt' ha hb => parseElem_failed_twice ha hb
      intro hm
      subst hm
      exact ⟨rfl, pos_of_verdict hv⟩

/-- **Exactness**: parsing the first `len` bytes of a buffer gives the same outcome as parsing a
copy of them, for all start values, exactly when the last element reads alike in both. -/
theorem listparser_local_iff (func : NameLookup T.bits) (masked : Bool) (s : CStr) {len : Nat}
    (h0 : 0 < len) (hle : len ≤ s.text.length) :
    (∀ flag mask, mask.isSome = masked →
      listparser T s.text len flag mask func.call =
        listparser T (s.text.take len) 0 flag mask func.call) ↔
      Local T func masked (s.text.take len) (s.text.drop len) := by
  have hs : s.text = s.text.take len ++ s.text.drop len := (List.take_append_drop _ _).symm
  have hlen : (s.text.take len).length = len := by rw [List.length_take, Nat.min_eq_left hle]
  have hrun : ∀ flag (mask : Option (BitVec T.bits)),
      (listparser T s.text len flag mask func.call =
        listparser T (s.text.take len) 0 flag mask func.call) ↔
      foldSpans T func.call (s.text.take len ++ s.text.drop len).length
          (spans (s.text.take len ++ s.text.drop len) (s.text.take len).length) flag mask =
        foldSpans T func.call (s.text.take len).length
          (spans (s.text.take len) (s.text.take len).length) flag mask := by
    intro flag mask
    rw [listparser_eq_foldSpans, listparser_len_eq_foldSpans (by omega) hle, ← hs, hlen]
  simp only [hrun]
  generalize s.text.take len = region
  generalize s.text.drop len = rest
  constructor
  · rintro h front last ms rfl hfront hlast hms
    refine (region_local_iff func hfront hlast rest).1 (fun flag mask hm => ?_) ms hms
    rw [← List.append_assoc]
    exact h flag mask hm
  · intro h flag mask hm
    obtain ⟨front, last, rfl, hfront, hlast⟩ := exists_last region
    have hreg := (region_local_iff func hfront hlast rest).2
      (fun ms hms => h front last ms rfl hfront hlast hms) flag mask hm
    rw [← List.append_assoc] at hreg
    exact hreg

/-! ## What keeps the buffer out -/

/-- What a number is scanned from: the element, behind its `^`. -/
def numberText : Text → Text
  | '^' :: d => d
  | u => u

/-- A number that is scanned from `v` does not run into `f`, nor ends in `v` at a character like the
first one of `f`: there is no `f`, or `v` is a name, or the first character of `f` does not occur
in `v` and one that is part of no number stands there or in `v`. -/
def Apart (v f : Text) : Prop :=
  f = [] ∨ beginsName v = true ∨
    v ≠ [] ∧ ∃ c, f.head? = some c ∧ c ∉ v ∧ ∃ d ∈ (v ++ [c]).dropWhile isspace, NumberEnd d

/-- Only the byte behind the region counts. -/
theorem Apart.of_head {v f f' : Text} (h : Apart v f) (hf : f' = [] ∨ f'.head? = f.head?) :
    Apart v f' := by
  rcases hf with rfl | hf
  · exact Or.inl rfl
  · rcases h with rfl | hname | ⟨hne, c, hc, hv⟩
    · exact Or.inl (List.head?_eq_none_iff.1 hf)
    · exact Or.inr (Or.inl hname)
    · exact Or.inr (Or.inr ⟨hne, c, hf.trans hc, hv⟩)

/-- What stands behind the last comma. -/
def lastElem (region : Text) : Text := (region.reverse.takeWhile (· != ',')).reverse

/-- **The condition on the bytes at the end of the region and behind it**: the last element, without
its prefixes, is empty, a keyword, or apart from what follows. -/
def Sheltered (masked : Bool) (region rest : Text) : Prop :=
  (stripElem masked (lastElem region)).1 = [] ∨
    isKeyword masked (stripElem masked (lastElem region)).1 = true ∨
    Apart (numberText (stripElem masked (lastElem region)).1) rest

theorem Sheltered.of_head {masked : Bool} {region rest rest' : Text}
    (h : Sheltered masked region rest) (hrest : rest' = [] ∨ rest'.head? = rest.head?) :
    Sheltered masked region rest' := by
  rcases h with h | h | h
  · exact Or.inl h
  · exact Or.inr (Or.inl h)
  · exact Or.inr (Or.inr (h.of_head hrest))

theorem lastElem_append {front last : Text} (hfront : Closed front) (hlast : ',' ∉ last) :
    lastElem (front ++ last) = last := by
  have hself : last.reverse.takeWhile (· != ',') = last.reverse :=
    takeWhile_bne (by simpa using hlast)
  rcases hfront with rfl | ⟨p, rfl⟩
  · rw [lastElem, List.nil_append, hself, List.reverse_reverse]
  · have hrev : (p ++ [','] ++ last).reverse = last.reverse ++ ',' :: p.reverse := by simp
    rw [lastElem, hrev, takeWhile_append_stop (by simp), hself, List.reverse_reverse]

theorem strtol_apart {v f : Text} (h : Apart v f) (bits : Nat) :
    strtol bits (v ++ f) = ((strtol bits v).1, (strtol bits v).2 ++ f) := by
  rcases h with rfl | hname | ⟨-, c, hc, -, d, hd, hend⟩
  · simp
  · rw [strtol_beginsName hname, strtol_beginsName (beginsName_append hname f)]
  · obtain ⟨r, rfl⟩ := List.head?_eq_some_iff.1 hc
    by_cases hblank : v.dropWhile isspace = []
    · -- only `c` is left that can end the number
      have hc : isspace c = false ∧ d = c := by
        rw [List.dropWhile_append, hblank] at hd
        simp only [List.isEmpty_nil, if_true, List.dropWhile_cons] at hd
        split at hd
        · simp at hd
        · rename_i hne
          exact ⟨by simpa using hne, by simpa using hd⟩
      exact strtol_append (hc.2 ▸ hend) (Or.inl hc.1) bits r
    · rw [dropWhile_append_ne_nil hblank] at hd
      rcases List.mem_append.1 hd with hd | hd
      · obtain ⟨t, u, htu⟩ := List.append_of_mem hd
        exact strtol_append_inside hend htu bits (c :: r)
      · obtain rfl := List.mem_singleton.1 hd
        exact strtol_append hend (Or.inr hblank) bits r

theorem endTest_apart {v f : Text} (h : Apart v f) (h0 : '\x00' ∉ v) (bits : Nat) :
    endTest (v ++ f) (strtol bits (v ++ f)).2 (charAt f 0) = (signedNumeral v).isSome := by
  have hkept := strtol_apart h bits
  rcases h with rfl | hname | ⟨-, c, hf, hc, -⟩
  · exact endTest_kept hkept (by simpa using h0)
  · have hnum := strtol_consumes_iff bits v
    rw [strtol_beginsName hname] at hnum
    have hfalse : (signedNumeral v).isSome = false := by
      rw [← Bool.not_eq_true, ← hnum]
      simp
    rw [endTest, strtol_beginsName (beginsName_append hname f), hfalse]
    simp
  · obtain ⟨r, rfl⟩ := List.head?_eq_some_iff.1 hf
    exact endTest_kept hkept hc

theorem SameOutcome.refl {w : Nat} (ms : List (Mention w)) (neg : Bool) (e : ElemResult w) :
    SameOutcome ms neg e e := by
  cases e with
  | undef => trivial
  | failed str cnt => trivial
  | value v => exact SameSigns.refl _

/-- A name looked up in the buffer is the name alone. -/
theorem sameOutcome_lookupName (func : NameLookup T.bits) (ms : List (Mention T.bits)) (neg : Bool)
    {v : Text} (hv : v ≠ []) (f : Text) :
    SameOutcome ms neg (lookupName func.call (v ++ f) v.length)
      (lookupName func.call v v.length) := by
  simp only [lookupName, func.bounded v f hv]
  cases func.call v v.length with
  | none => trivial
  | some x => exact SameSigns.refl _

theorem isNumber_plain {x : Char} (hx : x ≠ '^') (t : Text) (n : Nat) (c : Char) :
    isNumber T (x :: t) n c =
      some ⟨endTest (x :: t) (strtol T.longBits (x :: t)).2 c, x :: t, n,
        BitVec.ofInt T.bits (strtol T.longBits (x :: t)).1⟩ := by
  unfold isNumber
  split
  · rename_i heq
    cases heq
    exact absurd rfl hx
  · rfl

theorem numberText_plain {x : Char} (hx : x ≠ '^') (t : Text) : numberText (x :: t) = x :: t := by
  unfold numberText
  split
  · rename_i heq
    cases heq
    exact absurd rfl hx
  · rfl

/-- **A number or name that is apart from what follows** has the same outcome without it. -/
theorem sameOutcome_of_apart (func : NameLookup T.bits) (ms : List (Mention T.bits)) (neg : Bool)
    {u f : Text} (hu : u ≠ []) (h0 : '\x00' ∉ u) (h : Apart (numberText u) f) :
    SameOutcome ms neg (numberOrName T func.call (u ++ f) u.length)
      (numberOrName T func.call u u.length) := by
  by_cases hf : f = []
  · subst hf
    rw [List.append_nil]
    exact SameOutcome.refl ms neg _
  have hv : numberText u ≠ [] := by
    intro hnil
    rw [hnil] at h
    rcases h with h | h | ⟨h, -⟩
    · exact hf h
    · cases h
    · exact h rfl
  obtain ⟨x, d, rfl⟩ := List.exists_cons_of_ne_nil hu
  have hself : Apart (numberText (x :: d)) [] := Or.inl rfl
  have hcopy := charAt_append_length (x :: d) []
  rw [List.append_nil] at hcopy
  unfold numberOrName
  rw [charAt_append_length, hcopy]
  by_cases hx : x = '^'
  · subst hx
    have h0 : '\x00' ∉ d := fun hm => h0 (List.mem_cons_of_mem _ hm)
    have hend := endTest_apart (v := d) h h0 T.longBits
    have hend' := endTest_apart (v := d) hself h0 T.longBits
    rw [List.append_nil] at hend'
    have hval := congrArg Prod.fst (strtol_apart (v := d) h T.longBits)
    simp only [List.cons_append, isNumber, hval]
    by_cases hrange : 0 ≤ (strtol T.longBits d).1 ∧ (strtol T.longBits d).1 < T.bits
    · simp only [if_pos hrange, hend, hend']
      split
      · exact SameSigns.refl _
      · exact sameOutcome_lookupName func ms neg hv f
    · simp only [if_neg hrange]
      trivial
  · rw [numberText_plain hx] at h hself hv
    have hend := endTest_apart h h0 T.longBits
    have hend' := endTest_apart hself h0 T.longBits
    rw [List.append_nil] at hend'
    have hval := congrArg Prod.fst (strtol_apart h T.longBits)
    simp only [List.cons_append] at hend hval
    simp only [List.cons_append, isNumber_plain hx, hend, hend', hval]
    split
    · exact SameSigns.refl _
    · exact sameOutcome_lookupName func ms neg hv f

theorem local_of_sheltered (func : NameLookup T.bits) {masked : Bool} {region rest : Text}
    (h0 : '\x00' ∉ region) (h : Sheltered masked region rest) :
    Local T func masked region rest := by
  rintro front last ms rfl hfront hlast -
  rw [Sheltered, lastElem_append hfront hlast] at h
  have hsub : (stripElem masked last).1 <:+ last := by
    cases masked with
    | false => exact List.suffix_refl _
    | true => exact stripText_suffix last false
  by_cases hne : (stripElem masked last).1 = []
  · exact Or.inl hne
  rcases h with h | h | h
  · exact absurd h hne
  · exact Or.inr (Or.inl h)
  · refine Or.inr (Or.inr (sameOutcome_of_apart func ms _ hne (fun hm => h0 ?_) h))
    exact List.mem_append_right front (hsub.subset hm)

/-- **Locality**: when the last element is sheltered, parsing the first `len` bytes of a buffer
gives the same outcome as parsing a copy of them. -/
theorem listparser_local (func : NameLookup T.bits) {masked : Bool} (s : CStr) {len : Nat}
    (h0 : 0 < len) (hle : len ≤ s.text.length)
    (h : Sheltered masked (s.text.take len) (s.text.drop len)) {flag : BitVec T.bits}
    {mask : Option (BitVec T.bits)} (hmask : mask.isSome = masked) :
    listparser T s.text len flag mask func.call =
      listparser T (s.text.take len) 0 flag mask func.call := by
  have hnul : '\x00' ∉ s.text.take len := fun hm => s.noNul (List.mem_of_mem_take hm)
  exact (listparser_local_iff func masked s h0 hle).2 (local_of_sheltered func hnul h) flag mask
    hmask

/-- Two names in front of a number. -/
theorem listparser_local_names :
    listparser uint64 "nproc,lock\n5".toList 10 0#64 (some 0#64) cflags.lookup.call =
      listparser uint64 ("nproc,lock\n5".toList.take 10) 0 0#64 (some 0#64)
        cflags.lookup.call :=
  listparser_local (T := uint64) cflags.lookup ⟨"nproc,lock\n5".toList, by decide⟩ (by decide)
    (show 10 ≤ "nproc,lock\n5".toList.length by decide) (Or.inr (Or.inr (Or.inr (Or.inl rfl)))) rfl

/-- The line `^` of a file with the line `5` behind it sets the flag 5. -/
theorem listparser_reads_next_line :
    ¬ ∀ (T : NumType) (func : NameLookup T.bits) (s : CStr) (len : Nat) (flag : BitVec T.bits)
      (mask : Option (BitVec T.bits)), 0 < len → len ≤ s.text.length →
      listparser T s.text len flag mask func.call =
        listparser T (s.text.take len) 0 flag mask func.call := by
  intro h
  have hrun := h uint64 cflags.lookup ⟨"^\n5\n".toList, by decide⟩ 1 0#64 (some 0#64)
    (by decide) (by decide)
  have hbuf : listparser uint64 "^\n5\n".toList 1 0#64 (some 0#64) cflags.lookup.call =
      some ⟨0, none, 0, 32#64, some 32#64⟩ := by decide
  have hcopy : listparser uint64 ("^\n5\n".toList.take 1) 0 0#64 (some 0#64) cflags.lookup.call =
      some ⟨-1, some 1, 0, 0#64, some 0#64⟩ := by decide
  rw [hbuf, hcopy] at hrun
  exact absurd hrun (by decide)

end BoundedList
