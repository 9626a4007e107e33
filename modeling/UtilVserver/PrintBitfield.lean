import UtilVserver.FlagGrammar
import UtilVserver.Lib.DecimalText
import UtilVserver.Lib.LowestBit

/-!
# Printing bit sets (`src/attribute-util.h`) and parsing them back

`print_bitfield` writes the names the table has for a value and then the remaining bits as `^n`.
Both loops clear at least one bit in every round, so they end.

* `printNames`, `printBits`, `printBitfield` — the two loops and the macro.
* `ReadsAs` — an item of a list that the list parser reads as the given bits.

Principal result: `printBitfield_roundTrip_iff` — the printed list parses back to the value
exactly when bit 0 is clear or has a name of its own.
-/

set_option autoImplicit false

namespace PrintBitfield

open CString BitMention ListParser NameTables FlagGrammar LowestBit

/-- `ffsull`: the number of the lowest set bit, and 0 when there is none. -/
def ffsull (word : BitVec 64) : Nat :=
  let bit := lowestBit word
  if bit = 64 then 0 else bit

/-! ## The lowest set bit -/

theorem getLsbD_lowestBit {val : BitVec 64} (h : lowestBit val < 64) :
    val.getLsbD (lowestBit val) = true := getLsbD_lowest h

theorem getLsbD_of_lt_lowestBit {val : BitVec 64} {b : Nat} (h : b < lowestBit val) :
    val.getLsbD b = false := getLsbD_of_lt_lowest h

theorem lowestBit_lt {val : BitVec 64} (h : val ≠ 0#64) : lowestBit val < 64 := lowest_lt h

/-- Clearing bits of which one is set makes the value smaller. -/
theorem clear_toNat_lt {val m : BitVec 64} {b : Nat} (hv : val.getLsbD b = true)
    (hm : m.getLsbD b = true) : (val &&& ~~~m).toNat < val.toNat :=
  BitVec.lt_def.1 (clear_lt hv hm)

/-- Bits that are taken out of a value and put back. -/
theorem or_clear {val m : BitVec 64} (h : ∀ b, m.getLsbD b = true → val.getLsbD b = true) :
    m ||| (val &&& ~~~m) = val := by
  apply BitVec.eq_of_getLsbD_eq
  intro b hb
  simp only [BitVec.getLsbD_or, BitVec.getLsbD_and, BitVec.getLsbD_not, hb, decide_true,
    Bool.true_and]
  cases hm : m.getLsbD b with
  | true => simp [h b hm]
  | false => simp

/-- What `vc_lo*2text` finds, and that it clears just the bits of the entry. -/
theorem text2value_spec {val rest : BitVec 64} {map : List Mapping} {m : Mapping}
    (h : text2value val map = some (m, rest)) :
    m ∈ map ∧ (∃ b, val.getLsbD b = true ∧ m.val.getLsbD b = true) ∧
      rest = val &&& ~~~m.val ∧ ∀ b, m.val.getLsbD b = true → val.getLsbD b = true := by
  unfold text2value at h
  split at h
  · cases h
  · rename_i hne
    have hlow := lowestBit_lt hne
    have hset := getLsbD_lowestBit hlow
    split at h
    · rename_i e he
      cases h
      have hval : val = m.val := by simpa using List.find?_some he
      rw [← hval]
      exact ⟨List.mem_of_find?_eq_some he, ⟨_, hset, hset⟩, rfl, fun b hb => hb⟩
    · simp only [Option.map_eq_some_iff, Prod.mk.injEq] at h
      obtain ⟨e, he, rfl, rfl⟩ := h
      have hval : 1#64 <<< lowestBit val = e.val := by simpa using List.find?_some he
      have hbit := getLsbD_one_shiftLeft hlow
      rw [hval] at hbit ⊢
      refine ⟨List.mem_of_find?_eq_some he, ⟨_, hset, by simp [hbit]⟩, rfl, fun b hb => ?_⟩
      have hb' : b = lowestBit val := by simpa [hbit] using hb
      rw [hb']
      exact hset

theorem lo2text_toNat_lt {t : NameTable} {val rest : BitVec 64} {i : Text}
    (h : t.lo2text val = some (i, rest)) : rest.toNat < val.toNat := by
  simp only [NameTable.lo2text, Option.map_eq_some_iff, Prod.mk.injEq] at h
  obtain ⟨⟨m, r⟩, hr, rfl, rfl⟩ := h
  obtain ⟨-, ⟨b, hv, hm⟩, hrest, -⟩ := text2value_spec hr
  simp only at hrest ⊢
  rw [hrest]
  exact clear_toNat_lt hv hm

/-! ## The loops -/

/-- `if (!first) WRITE_MSG(fd, ","); else first = 0;` -/
def sep (first : Bool) : Text := if first then [] else [',']

/-- The first loop: what it writes, `first` and what is left of `*var`. -/
def printNames (t : NameTable) (var : BitVec 64) (first : Bool) : Text × Bool × BitVec 64 :=
  match _h : t.lo2text var with
  | none => ([], first, var)
  | some (i, rest) =>
    let r := printNames t rest false
    (sep first ++ i ++ r.1, r.2)
termination_by var.toNat
decreasing_by exact lo2text_toNat_lt _h

/-- The second loop: what it writes. -/
def printBits (var : BitVec 64) (first : Bool) : Text :=
  if var = 0#64 then []
  else
    let bit := ffsull var
    if _hbit : bit = 0 then []
    else sep first ++ '^' :: Nat.toDigits 10 bit ++ printBits (var &&& ~~~(1#64 <<< bit)) false
termination_by var.toNat
decreasing_by
  rename_i hne
  have hlow := lowestBit_lt hne
  have hb : ffsull var = lowestBit var := if_neg (by omega)
  rw [hb]
  exact clear_toNat_lt (getLsbD_lowestBit hlow) (by simp [getLsbD_one_shiftLeft hlow])

/-- The list between the header and the newline. -/
def bitfieldList (t : NameTable) (var : BitVec 64) : Text :=
  let r := printNames t var true
  r.1 ++ printBits r.2.2 r.2.1

/-- `print_bitfield`. -/
def printBitfield (name : Text) (t : NameTable) (var : BitVec 64) : Text :=
  name ++ ":\n".toList ++ bitfieldList t var ++ "\n".toList

/-! ## Items of a printed list -/

/-- An item that the list parser reads as the bits `v`, whatever follows it. -/
structure ReadsAs (func : Lookup 64) (x : Text) (v : BitVec 64) : Prop where
  noComma : ',' ∉ x
  noNul : '\x00' ∉ x
  nonempty : x ≠ []
  read : ∀ f, lenientElem uint64 func x f = (false, .value v)

/-- The items with the separators the loops write between them. -/
def joined : Bool → List Text → Text
  | _, [] => []
  | first, x :: xs => sep first ++ x ++ joined false xs

/-- All bits of a list of items. -/
def orAll : List (BitVec 64) → BitVec 64
  | [] => 0#64
  | v :: vs => v ||| orAll vs

theorem joined_append : ∀ (first : Bool) (xs ys : List Text),
    joined first xs ++ joined (first && xs.isEmpty) ys = joined first (xs ++ ys)
  | first, [], ys => by simp [joined]
  | first, x :: xs, ys => by
    have h := joined_append false xs ys
    rw [Bool.false_and] at h
    simp only [List.cons_append, joined, List.isEmpty_cons, Bool.and_false, List.append_assoc, h]

theorem orAll_append (vs ws : List (BitVec 64)) : orAll (vs ++ ws) = orAll vs ||| orAll ws := by
  induction vs with
  | nil => simp [orAll]
  | cons v vs ih => rw [List.cons_append, orAll, orAll, ih, BitVec.or_assoc]

/-- The printed text `out` is the items `ps` in front of which `first` says whether any stands. -/
structure Items (func : Lookup 64) (first : Bool) (out : Text) (ps : List (Text × BitVec 64)) :
    Prop where
  text : out = joined first (ps.map Prod.fst)
  reads : ∀ p ∈ ps, ReadsAs func p.1 p.2

theorem Items.nil (func : Lookup 64) (first : Bool) : Items func first [] [] :=
  ⟨rfl, by simp⟩

theorem Items.cons {func : Lookup 64} {first : Bool} {x out : Text} {v : BitVec 64}
    {ps : List (Text × BitVec 64)} (hx : ReadsAs func x v) (h : Items func false out ps) :
    Items func first (sep first ++ x ++ out) ((x, v) :: ps) := by
  refine ⟨by rw [h.text]; rfl, fun p hp => ?_⟩
  rcases List.mem_cons.1 hp with rfl | hp
  · exact hx
  · exact h.reads p hp

theorem Items.append {func : Lookup 64} {first : Bool} {out out' : Text}
    {ps qs : List (Text × BitVec 64)} (h : Items func first out ps)
    (h' : Items func (first && ps.isEmpty) out' qs) :
    Items func first (out ++ out') (ps ++ qs) := by
  refine ⟨?_, fun p hp => ?_⟩
  · have he : ps.isEmpty = (ps.map Prod.fst).isEmpty := by cases ps <;> rfl
    rw [h.text, h'.text, he, joined_append, List.map_append]
  · rcases List.mem_append.1 hp with hp | hp
    · exact h.reads p hp
    · exact h'.reads p hp

/-! ## The names of a table parse back -/

/-- The name is read as itself: not as a prefix, a keyword or a number, and the table has it. -/
def readsBack (t : NameTable) (m : Mapping) : Bool :=
  m.id.all (fun c => c != ',' && c != '\x00') &&
  m.id.head?.any (fun c => c != '!' && c != '~' && c != '^') &&
  !abbreviates m.id "all".toList && !abbreviates m.id "any".toList &&
  !abbreviates m.id "none".toList && (signedNumeral m.id).isNone &&
  t.text2valErr m.id m.id.length == some m.val

/-- What the round trip needs of a table: all names are read back, and a table without a name
for bit 0 does not mention it in any entry. -/
structure Faithful (t : NameTable) : Prop where
  names : t.values.all (readsBack t) = true
  bit_zero : searchValue 1#64 t.values = none →
    t.values.all (fun m => !m.val.getLsbD 0) = true

theorem faithful_tables : ∀ t ∈ tables, Faithful t := by
  have h : ∀ t ∈ tables, t.values.all (readsBack t) = true ∧
      ((searchValue 1#64 t.values).isSome = true ∨
        t.values.all (fun m => !m.val.getLsbD 0) = true) := by
    decide +kernel
  intro t ht
  obtain ⟨hn, hz⟩ := h t ht
  refine ⟨hn, fun hnone => hz.resolve_left ?_⟩
  simp [hnone]

theorem abbreviates_nil_or {u kw : Text} (h : abbreviates u kw = false) : u ≠ [] := by
  rintro rfl
  simp [abbreviates, lower] at h

theorem stripText_of_head {u : Text}
    (h : u.head?.any (fun c => c != '!' && c != '~' && c != '^') = true) :
    stripText u false = (u, false) ∧ charAt u 0 ≠ '^' := by
  cases u with
  | nil => simp at h
  | cons c u =>
    simp only [List.head?_cons, Option.any_some, Bool.and_eq_true, bne_iff_ne, ne_eq] at h
    refine ⟨?_, by simpa using h.2⟩
    rw [stripText, if_neg (by simp [h.1.1, h.1.2])]

/-- A name of a faithful table is an item with the bits of its entry. -/
theorem readsAs_name {t : NameTable} {m : Mapping} (h : readsBack t m = true) :
    ReadsAs t.lookup.toLookup m.id m.val := by
  simp only [readsBack, Bool.and_eq_true, Bool.not_eq_true', Option.isNone_iff_eq_none,
    beq_iff_eq] at h
  obtain ⟨⟨⟨⟨⟨⟨hchars, hhead⟩, hall⟩, hany⟩, hnone⟩, hnum⟩, hval⟩ := h
  have hne := abbreviates_nil_or hall
  obtain ⟨hstrip, hcaret⟩ := stripText_of_head hhead
  rw [List.all_eq_true] at hchars
  have hlookup : t.lookup.call m.id m.id.length = some m.val := hval
  refine ⟨fun hc => by simpa using hchars _ hc, fun hc => by simpa using hchars _ hc, hne,
    fun f => ?_⟩
  simp only [lenientElem, hstrip, lenientRead, if_neg hne, hall, hany, hnone, Bool.or_false,
    Bool.false_eq_true, if_false, lenientNumber, if_neg hcaret, hnum, Option.isSome_none, lookupName,
    t.lookup.bounded m.id f hne, hlookup]
  rfl

/-- The numbers `WRITE_INT` writes behind a `^`. -/
theorem toDigits_numeral (n : Nat) : cNumeral (Nat.toDigits 10 n) = some n ∧
    ',' ∉ Nat.toDigits 10 n ∧ '\x00' ∉ Nat.toDigits 10 n := by
  have hdigits : (Nat.toDigits 10 n).all (isDigitIn 10) = true :=
    (DecimalText.numeral_decimal n).2
  exact ⟨DecimalText.decimal_cNumeral n, not_mem_of_digits hdigits (by decide),
    not_mem_of_digits hdigits (by decide)⟩

/-- `^n` is an item with the bit `n`. -/
theorem readsAs_bit (func : Lookup 64) {n : Nat} (hn : n < 64) :
    ReadsAs func ('^' :: Nat.toDigits 10 n) (1#64 <<< n) := by
  obtain ⟨hnum, hc, hz⟩ := toDigits_numeral n
  have hsigned := signedNumeral_of_plainStart (plainStart_of_cNumeral hnum)
  have hlong : n < 2 ^ (uint64.longBits - 1) := Nat.lt_trans hn (by decide)
  have hval : (strtol uint64.longBits (Nat.toDigits 10 n)).1 = n := by
    rw [strtol_of_cNumeral hnum, clamp_of_lt hlong]
  have hrange : (0 : Int) ≤ n ∧ (n : Int) < uint64.bits :=
    ⟨Int.natCast_nonneg n, by exact_mod_cast hn⟩
  have hkw : ∀ c kw, c ≠ '^' → abbreviates ('^' :: Nat.toDigits 10 n) (c :: kw) = false := by
    intro c kw hne
    have hl : Char.toLower '^' = '^' := by decide
    simp [abbreviates, lower, hl, List.isPrefixOf, Ne.symm hne]
  have hall : abbreviates ('^' :: Nat.toDigits 10 n) "all".toList = false :=
    hkw 'a' _ (by decide)
  have hany : abbreviates ('^' :: Nat.toDigits 10 n) "any".toList = false :=
    hkw 'a' _ (by decide)
  have hnone : abbreviates ('^' :: Nat.toDigits 10 n) "none".toList = false :=
    hkw 'n' _ (by decide)
  have hstrip : stripText ('^' :: Nat.toDigits 10 n) false = ('^' :: Nat.toDigits 10 n, false) := by
    rw [stripText, if_neg (by decide)]
  refine ⟨by simpa using hc, by simpa using hz, List.cons_ne_nil _ _, fun f => ?_⟩
  simp only [lenientElem, hstrip, lenientRead, if_neg (List.cons_ne_nil _ _), hall, hany, hnone,
    Bool.or_false, Bool.false_eq_true, if_false, lenientNumber, charAt_cons_zero, if_true, List.tail_cons, hval,
    if_pos hrange, hsigned, hnum, Option.map_some, Option.isSome_some, Int.toNat_natCast]

/-! ## What the loops print -/

/-- **The first loop** prints names of bits it clears, and stops at a value without a name. -/
theorem printNames_items {t : NameTable} (ht : Faithful t) (var : BitVec 64) (first : Bool) :
    ∃ ps, Items t.lookup.toLookup first (printNames t var first).1 ps ∧
      (printNames t var first).2.1 = (first && ps.isEmpty) ∧
      orAll (ps.map Prod.snd) ||| (printNames t var first).2.2 = var ∧
      t.lo2text (printNames t var first).2.2 = none ∧
      (searchValue 1#64 t.values = none → (orAll (ps.map Prod.snd)).getLsbD 0 = false) := by
  induction var, first using printNames.induct t with
  | case1 var first hnone =>
    rw [printNames]
    split
    · exact ⟨[], Items.nil _ _, by simp, by simp [orAll], hnone, fun _ => rfl⟩
    · rename_i i rest h
      rw [hnone] at h; cases h
  | case2 var first i rest hsome ih =>
    obtain ⟨ps, hitems, hfirst, hor, hstop, hzero⟩ := ih
    have hentry := hsome
    simp only [NameTable.lo2text, Option.map_eq_some_iff, Prod.mk.injEq] at hentry
    obtain ⟨⟨m, r⟩, hr, rfl, rfl⟩ := hentry
    obtain ⟨hmem, -, hrest, hsub⟩ := text2value_spec hr
    have hread := readsAs_name (List.all_eq_true.1 ht.names m hmem)
    rw [printNames]
    split
    · rename_i h; rw [hsome] at h; cases h
    · rename_i i' rest' h
      rw [hsome] at h
      cases h
      refine ⟨(m.id, m.val) :: ps, hitems.cons hread, by simp [hfirst], ?_, hstop, fun hn => ?_⟩
      · rw [List.map_cons, orAll, BitVec.or_assoc, hor, hrest]
        exact or_clear hsub
      · have hm : m.val.getLsbD 0 = false := by
          simpa using List.all_eq_true.1 (ht.bit_zero hn) m hmem
        rw [List.map_cons, orAll, BitVec.getLsbD_or, hm, hzero hn, Bool.false_or]

/-- **The second loop** prints all bits, but nothing for a value with bit 0. -/
theorem printBits_items (func : Lookup 64) (var : BitVec 64) (first : Bool) :
    ∃ ps, Items func first (printBits var first) ps ∧
      orAll (ps.map Prod.snd) = if var.getLsbD 0 then 0#64 else var := by
  induction var, first using printBits.induct with
  | case1 first =>
    rw [printBits, if_pos rfl]
    exact ⟨[], Items.nil _ _, by simp [orAll]⟩
  | case2 var first hne bit hbit =>
    rw [printBits, if_neg hne]
    simp only [bit] at hbit
    rw [dif_pos hbit]
    have hlow := lowestBit_lt hne
    have hb : ffsull var = lowestBit var := if_neg (by omega)
    have hset := getLsbD_lowestBit hlow
    rw [← hb, hbit] at hset
    exact ⟨[], Items.nil _ _, by simp [orAll, hset]⟩
  | case3 var first hne bit hbit ih =>
    simp only [bit] at hbit ih
    have hlow := lowestBit_lt hne
    have hb : ffsull var = lowestBit var := if_neg (by omega)
    have hzero : var.getLsbD 0 = false := getLsbD_of_lt_lowestBit (by omega)
    obtain ⟨ps, hitems, hor⟩ := ih
    have hread := readsAs_bit func (n := ffsull var) (by omega)
    rw [printBits, if_neg hne]
    simp only
    rw [dif_neg hbit]
    refine ⟨_, hitems.cons hread, ?_⟩
    have hbit0 := getLsbD_one_shiftLeft (w := 64) (k := ffsull var) (by omega)
    rw [List.map_cons, orAll, hor, hzero]
    simp only [BitVec.getLsbD_and, hzero, Bool.false_and, Bool.false_eq_true, if_false]
    refine or_clear fun b hset => ?_
    have he : b = ffsull var := by simpa [hbit0] using hset
    rw [he, hb]
    exact getLsbD_lowestBit hlow

/-- A value with bit 0 that the table has no name for, has none for bit 0. -/
theorem searchValue_of_stop {t : NameTable} {var : BitVec 64} (h : t.lo2text var = none)
    (hbit : var.getLsbD 0 = true) : searchValue 1#64 t.values = none := by
  have hne : var ≠ 0#64 := by rintro rfl; simp at hbit
  have hlow : lowestBit var = 0 := by
    by_contra hne0
    rw [getLsbD_of_lt_lowestBit (by omega)] at hbit
    cases hbit
  simp only [NameTable.lo2text, text2value, if_neg hne, hlow, Option.map_eq_none_iff] at h
  split at h
  · cases h
  · exact Option.map_eq_none_iff.1 h

/-- **The printed list**: its items are read as bits that make up the value, unless bit 0 is set
and has no name. -/
theorem bitfieldList_items {t : NameTable} (ht : Faithful t) (var : BitVec 64) :
    ∃ ps, Items t.lookup.toLookup true (bitfieldList t var) ps ∧
      (orAll (ps.map Prod.snd) = var ↔
        (searchValue 1#64 t.values).isSome = true ∨ var.getLsbD 0 = false) := by
  obtain ⟨ps, hps, hfirst, hor, hstop, hzero⟩ := printNames_items ht var true
  obtain ⟨qs, hqs, hbits⟩ :=
    printBits_items t.lookup.toLookup (printNames t var true).2.2 (printNames t var true).2.1
  rw [hfirst] at hqs
  refine ⟨ps ++ qs, by rw [bitfieldList, hfirst]; exact hps.append hqs, ?_⟩
  rw [List.map_append, orAll_append, hbits]
  have hvar := congrArg (fun x => x.getLsbD 0) hor
  simp only [BitVec.getLsbD_or] at hvar
  cases hrest : (printNames t var true).2.2.getLsbD 0 with
  | false =>
    rw [if_neg Bool.false_ne_true, hor]
    refine ⟨fun _ => ?_, fun _ => rfl⟩
    cases hn : searchValue 1#64 t.values with
    | some m => exact Or.inl rfl
    | none => right; rw [← hvar, hzero hn, hrest, Bool.false_or]
  | true =>
    have hn := searchValue_of_stop hstop hrest
    rw [if_pos rfl, hn]
    rw [hrest, Bool.or_true] at hvar
    constructor
    · intro h
      have hb := congrArg (fun x => x.getLsbD 0) h
      simp only [BitVec.getLsbD_or, hzero hn, BitVec.getLsbD_zero, Bool.or_false] at hb
      exact Or.inr hb.symm
    · rintro (h | h)
      · cases h
      · rw [h] at hvar; cases hvar

/-! ## Parsing the printed list -/

theorem lenientReads_joined {func : Lookup 64} : ∀ {ps : List (Text × BitVec 64)},
    (∀ p ∈ ps, ReadsAs func p.1 p.2) →
    lenientReads uint64 func (joined true (ps.map Prod.fst)) =
      ps.map fun p => (false, .value p.2)
  | [], _ => by simp [joined, lenientReads, spans_zero]
  | [p], h => by
    have hp := h p (by simp)
    have ht : joined true [p.1] = p.1 := by simp [joined, sep]
    rw [List.map_singleton, ht, lenientReads_single hp.nonempty hp.noComma, hp.read]
    rfl
  | p :: q :: ps, h => by
    have hp := h p (by simp)
    have ht : joined true ((p :: q :: ps).map Prod.fst) =
        p.1 ++ ',' :: joined true ((q :: ps).map Prod.fst) := by
      simp [joined, sep]
    have htail : ∀ r ∈ q :: ps, ReadsAs func r.1 r.2 := fun r hr => h r (List.mem_cons_of_mem p hr)
    have ih := lenientReads_joined htail
    rw [ht, lenientReads_cons hp.noComma, hp.read, ih]
    rfl

theorem verdict_values {w : Nat} (vs : List (BitVec w)) :
    verdict (vs.map fun v => (false, .value v)) = .all (vs.map fun v => ⟨false, v⟩) := by
  induction vs with
  | nil => rfl
  | cons v vs ih => simp only [List.map_cons, verdict, ih, Verdict.cons]

theorem foldFlag_values (vs : List (BitVec 64)) (flag : BitVec 64) :
    foldFlag (vs.map fun v => (⟨false, v⟩ : Mention 64)) flag = flag ||| orAll vs := by
  induction vs generalizing flag with
  | nil => simp [orAll]
  | cons v vs ih => simp [orAll, ih, Mention.apply, BitVec.or_assoc]

theorem foldMask_values (vs : List (BitVec 64)) (mask : BitVec 64) :
    foldMask (vs.map fun v => (⟨false, v⟩ : Mention 64)) mask = mask ||| orAll vs := by
  induction vs generalizing mask with
  | nil => simp [orAll]
  | cons v vs ih => simp [orAll, ih, BitVec.or_assoc]

theorem joined_noNul {func : Lookup 64} : ∀ {ps : List (Text × BitVec 64)} {first : Bool},
    (∀ p ∈ ps, ReadsAs func p.1 p.2) → '\x00' ∉ joined first (ps.map Prod.fst)
  | [], _, _ => by simp [joined]
  | p :: ps, first, h => by
    have hp := (h p (by simp)).noNul
    have ih : '\x00' ∉ joined false (ps.map Prod.fst) :=
      joined_noNul fun r hr => h r (List.mem_cons_of_mem p hr)
    have hsep : '\x00' ∉ sep first := by cases first <;> decide
    simp only [List.map_cons, joined, List.mem_append, not_or]
    exact ⟨⟨hsep, hp⟩, ih⟩

/-- **A list of items parses to all their bits.** -/
theorem list2val_items {t : NameTable} {list : Text} {ps : List (Text × BitVec 64)}
    (h : Items t.lookup.toLookup true list ps) :
    t.list2val list 0 0#64 0#64 =
      some ⟨0, none, 0, orAll (ps.map Prod.snd), some (orAll (ps.map Prod.snd))⟩ := by
  have h0 : '\x00' ∉ list := by rw [h.text]; exact joined_noNul h.reads
  have hreads : lenientReads uint64 t.lookup.toLookup list =
      (ps.map Prod.snd).map fun v => (false, .value v) := by
    rw [h.text, lenientReads_joined h.reads, List.map_map]
    rfl
  have hrun := listparser_eq_lenient (T := uint64) t.lookup.toLookup ⟨list, h0⟩ 0#64 0#64
  rw [NameTable.list2val]
  refine hrun.trans ?_
  rw [hreads, verdict_values]
  simp only [Verdict.result, Option.map_some]
  rw [foldFlag_values, foldMask_values, BitVec.zero_or]

/-- What `print_bitfield` prints for `val` is a list that the parser of the same table accepts
and reads as `val`, in flag and mask. -/
def RoundTrip (name : Text) (t : NameTable) (val : BitVec 64) : Prop :=
  ∃ list, printBitfield name t val = name ++ ":\n".toList ++ list ++ "\n".toList ∧
    ∃ r, t.list2val list 0 0#64 0#64 = some r ∧ r.code = 0 ∧ r.flag = val ∧ r.mask = some val

/-- **Exactness of the round trip**: for every table of the library and every value, printing and
parsing are inverse exactly when bit 0 has a name in the table or is not set. -/
theorem printBitfield_roundTrip_iff {t : NameTable} (ht : t ∈ tables) (name : Text)
    (val : BitVec 64) :
    RoundTrip name t val ↔ (searchValue 1#64 t.values).isSome = true ∨ val.getLsbD 0 = false := by
  obtain ⟨ps, hitems, hiff⟩ := bitfieldList_items (faithful_tables t ht) val
  have hrun := list2val_items hitems
  rw [← hiff]
  constructor
  · rintro ⟨list, hlist, r, hr, -, hflag, -⟩
    have hl : list = bitfieldList t val := by
      rw [printBitfield] at hlist
      exact (List.append_cancel_left (List.append_cancel_right hlist)).symm
    rw [hl, hrun] at hr
    cases hr
    exact hflag
  · intro h
    exact ⟨bitfieldList t val, rfl, _, hrun, rfl, h, by rw [h]⟩

/-- The namespace flags print and parse back for a value without bit 0. -/
theorem printBitfield_umask_newns :
    RoundTrip "umask".toList umasks 0x20200#64 ↔
      (searchValue 1#64 umasks.values).isSome = true ∨ (0x20200#64).getLsbD 0 = false :=
  printBitfield_roundTrip_iff (by simp [tables]) "umask".toList 0x20200#64

/-- The value 1 of a umask is printed as the empty list. -/
theorem printBitfield_drops_bit_zero :
    ¬ ∀ (t : NameTable) (name : Text) (val : BitVec 64), t ∈ tables → RoundTrip name t val := by
  intro h
  have hu : umasks ∈ tables := by simp [tables]
  obtain ⟨list, hlist, r, hr, -, hflag, -⟩ := h umasks "umask".toList 1#64 hu
  have hnames : printNames umasks 1#64 true = ([], true, 1#64) := by
    rw [printNames]
    have hnone : umasks.lo2text 1#64 = none := by decide +kernel
    split
    · rfl
    · rename_i hs; rw [hnone] at hs; cases hs
  have hbits : printBits 1#64 true = [] := by
    rw [printBits, if_neg (by decide)]
    exact dif_pos (by decide +kernel)
  have hempty : list = [] := by
    rw [printBitfield, bitfieldList, hnames] at hlist
    simp only [hbits, List.append_nil] at hlist
    have hl := List.append_cancel_right hlist
    simpa using hl.symm
  rw [hempty] at hr
  have hparse : umasks.list2val [] 0 0#64 0#64 = some ⟨0, none, 0, 0#64, some 0#64⟩ := by decide
  rw [hparse] at hr
  cases hr
  exact absurd hflag (by decide)

end PrintBitfield
