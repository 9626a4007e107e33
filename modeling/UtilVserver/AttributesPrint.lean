import UtilVserver.Attributes

/-!
# The lists that `vattribute --get` and `nattribute --get` print

The lists are in the language of the options, so those of one context can be given to another.

* `visible` — the bits that a printed list stands for.
* `Foreign` — a character that no printed list has.
* `addLists` — the options that add the lists of some words to a context.

Principal result: `get_set`.
-/

set_option autoImplicit false

namespace Attributes

open CString BitMention ListParser NameTables FlagGrammar PrintBitfield
open Reducecap (Features)

/-! ## What is printed -/

theorem table_mem (k : Kind) : k.table ∈ tables := by
  cases k <;> simp [Kind.table, tables]

/-- The bits that a printed list stands for: none, when bit 0 is set and has no name. -/
def visible (t : NameTable) (v : BitVec 64) : BitVec 64 :=
  if (searchValue 1#64 t.values).isNone && v.getLsbD 0 then 0#64 else v

/-- A value whose bit 0 is set and has no name is printed as the empty list. -/
theorem bitfieldList_hidden {t : NameTable} (ht : Faithful t)
    (hname : searchValue 1#64 t.values = none) {v : BitVec 64} (hbit : v.getLsbD 0 = true) :
    bitfieldList t v = [] := by
  have hne : v ≠ 0#64 := by
    rintro rfl
    simp at hbit
  have hlow : lowestBit v = 0 := by
    by_contra hpos
    rw [getLsbD_of_lt_lowestBit (Nat.pos_of_ne_zero hpos)] at hbit
    cases hbit
  have hvalue : searchValue v t.values = none := by
    refine List.find?_eq_none.2 fun m hm heq => ?_
    have hzero := List.all_eq_true.1 (ht.bit_zero hname) m hm
    have hvm : v = m.val := by simpa using heq
    rw [← hvm, hbit] at hzero
    cases hzero
  have hlo : t.lo2text v = none := by
    simp [NameTable.lo2text, text2value, hne, hvalue, hlow, hname]
  have hnames : printNames t v true = ([], true, v) := by
    rw [printNames]
    split
    · rfl
    · rename_i h
      rw [hlo] at h
      cases h
  have hbits : printBits v true = [] := by
    rw [printBits, if_neg hne]
    exact dif_pos (by simp [ffsull, hlow])
  rw [bitfieldList, hnames]
  exact hbits

/-- **A printed list is understood**, as the bits it stands for. -/
theorem readings_printed (k : Kind) (v : BitVec 64) :
    ∃ vs : List (BitVec 64),
      readings k (bitfieldList k.table v) = some (vs.map fun v => ⟨false, v⟩) ∧
        orAll vs = visible k.table v := by
  have ht := faithful_tables k.table (table_mem k)
  by_cases hhide : searchValue 1#64 k.table.values = none ∧ v.getLsbD 0 = true
  · refine ⟨[], ?_, ?_⟩
    · rw [bitfieldList_hidden ht hhide.1 hhide.2]
      simp [readings, lenientReads, spans_zero, verdict]
    · rw [visible, hhide.1, hhide.2]
      rfl
  · obtain ⟨ps, hitems, hiff⟩ := bitfieldList_items ht v
    have hreads : lenientReads uint64 k.table.lookup.toLookup (bitfieldList k.table v) =
        (ps.map Prod.snd).map fun v => (false, .value v) := by
      rw [hitems.text, lenientReads_joined hitems.reads, List.map_map]
      rfl
    refine ⟨ps.map Prod.snd, ?_, ?_⟩
    · rw [readings, hreads, verdict_values]
    · have hall : orAll (ps.map Prod.snd) = v := by
        refine hiff.2 ?_
        cases hname : searchValue 1#64 k.table.values with
        | some m => exact Or.inl rfl
        | none => exact Or.inr (Bool.eq_false_of_not_eq_true fun hbit => hhide ⟨hname, hbit⟩)
      rw [hall, visible, if_neg]
      simpa using hhide

/-- The last mention of a bit in a list without negations. -/
theorem lastSign_values (vs : List (BitVec 64)) (b : Nat) :
    lastSign (vs.map fun v => (⟨false, v⟩ : Mention 64)) b =
      if (orAll vs).getLsbD b then some false else none := by
  have hmask := foldMask_bit (vs.map fun v => (⟨false, v⟩ : Mention 64)) 0#64 b
  have hpos : lastSign (vs.map fun v => (⟨false, v⟩ : Mention 64)) b ≠ some true := by
    refine lastSign_pos (fun m hm => ?_) b
    obtain ⟨v, -, rfl⟩ := List.mem_map.1 hm
    rfl
  rw [foldMask_values, BitVec.zero_or, BitVec.getLsbD_zero, Bool.false_or] at hmask
  rw [hmask]
  cases hsign : lastSign (vs.map fun v => (⟨false, v⟩ : Mention 64)) b with
  | none => rfl
  | some neg =>
    rw [hsign] at hpos
    cases neg with
    | true => exact absurd rfl hpos
    | false => rfl

/-- A character that stands in no name, and that the loops do not write. -/
structure Foreign (x : Char) (t : NameTable) : Prop where
  names : ∀ m ∈ t.values, x ∉ m.id
  loops : x ≠ ',' ∧ x ≠ '^' ∧ isDigitIn 10 x = false

theorem sep_foreign {x : Char} {t : NameTable} (h : Foreign x t) (first : Bool) :
    x ∉ sep first := by
  cases first <;> simp [sep, h.loops.1]

theorem printNames_foreign {x : Char} {t : NameTable} (h : Foreign x t) (v : BitVec 64)
    (first : Bool) : x ∉ (printNames t v first).1 := by
  induction v, first using printNames.induct t with
  | case1 v first hnone =>
    rw [printNames]
    split
    · exact List.not_mem_nil
    · rename_i hsome
      rw [hnone] at hsome
      cases hsome
  | case2 v first i rest hsome ih =>
    have hname : x ∉ i := by
      have hentry := hsome
      simp only [NameTable.lo2text, Option.map_eq_some_iff, Prod.mk.injEq] at hentry
      obtain ⟨⟨m, r⟩, hr, rfl, -⟩ := hentry
      exact h.names m (text2value_spec hr).1
    rw [printNames]
    split
    · rename_i hnone
      rw [hsome] at hnone
      cases hnone
    · rename_i i' rest' hsome'
      rw [hsome] at hsome'
      cases hsome'
      simp only [List.mem_append, not_or]
      exact ⟨⟨sep_foreign h first, hname⟩, ih⟩

theorem printBits_foreign {x : Char} {t : NameTable} (h : Foreign x t) (v : BitVec 64)
    (first : Bool) : x ∉ printBits v first := by
  induction v, first using printBits.induct with
  | case1 first =>
    rw [printBits, if_pos rfl]
    exact List.not_mem_nil
  | case2 v first hne bit hbit =>
    rw [printBits, if_neg hne, dif_pos hbit]
    exact List.not_mem_nil
  | case3 v first hne bit hbit ih =>
    have hdigits : x ∉ Nat.toDigits 10 bit :=
      not_mem_of_digits (DecimalText.numeral_decimal bit).2 h.loops.2.2
    rw [printBits, if_neg hne, dif_neg hbit]
    simp only [List.mem_append, List.mem_cons, not_or]
    exact ⟨⟨sep_foreign h first, h.loops.2.1, hdigits⟩, ih⟩

theorem bitfieldList_foreign {x : Char} {t : NameTable} (h : Foreign x t) (v : BitVec 64) :
    x ∉ bitfieldList t v := by
  rw [bitfieldList, List.mem_append, not_or]
  exact ⟨printNames_foreign h v true, printBits_foreign h _ _⟩

/-- No name of a table has a NUL or a newline. -/
theorem ids_plain : ∀ t ∈ tables,
    (t.values.all fun m => m.id.all fun c => c != '\x00' && c != '\n') = true := by
  decide +kernel

theorem foreign_tables {x : Char} (hx : x = '\x00' ∨ x = '\n') (k : Kind) :
    Foreign x k.table := by
  refine ⟨fun m hm hmem => ?_, by obtain rfl | rfl := hx <;> decide⟩
  have hplain := List.all_eq_true.1 (ids_plain k.table (table_mem k)) m hm
  have hchar := List.all_eq_true.1 hplain x hmem
  obtain rfl | rfl := hx <;> simp at hchar

/-- The list that is printed of a word. -/
def printedList (k : Kind) (v : BitVec 64) : CStr :=
  ⟨bitfieldList k.table v, bitfieldList_foreign (foreign_tables (Or.inl rfl) k) v⟩

theorem header_oneLine (k : Kind) : '\n' ∉ k.header ++ [':'] := by
  cases k <;> decide

/-- **The output in lines**: the header and the list of each word. -/
theorem printAttrs_lines (bits : Kind → BitVec 64) : ∀ ks : List Kind,
    (ks.flatMap fun k => printBitfield k.header k.table (bits k)).splitOn '\n' =
      (ks.flatMap fun k => [k.header ++ [':'], (printedList k (bits k)).text]) ++ [[]]
  | [] => by simp
  | k :: ks => by
    have hlist := bitfieldList_foreign (foreign_tables (Or.inr rfl) k) (bits k)
    have htext : ∀ rest, printBitfield k.header k.table (bits k) ++ rest =
        (k.header ++ [':']) ++ '\n' :: (bitfieldList k.table (bits k) ++ '\n' :: rest) := by
      intro rest
      simp [printBitfield]
    rw [List.flatMap_cons, List.flatMap_cons, htext,
      List.splitOn_append_cons_self_of_not_mem (header_oneLine k),
      List.splitOn_append_cons_self_of_not_mem hlist, printAttrs_lines bits ks]
    rfl

/-! ## The lists of one context for another -/

theorem foldl_modeAfter_lists (lists : Kind → CStr) (get : Bool) : ∀ ks : List Kind,
    (ks.map fun k => Opt.list k (lists k)).foldl modeAfter get = get
  | [] => rfl
  | _ :: ks => foldl_modeAfter_lists lists get ks

theorem foldl_idAfter_lists (sys : System) (lists : Kind → CStr) (id : Option Nat) :
    ∀ ks : List Kind, (ks.map fun k => Opt.list k (lists k)).foldl (idAfter sys) id = id
  | [] => rfl
  | _ :: ks => foldl_idAfter_lists sys lists id ks

/-- Each word is mentioned by its own list alone. -/
theorem foldl_mention_lists (P : Program) (f : Features) (lists : Kind → CStr) (k : Kind) :
    ∀ {ks : List Kind}, ks.Nodup → ∀ ms,
      (ks.map fun k' => Opt.list k' (lists k')).foldl (mention P f k) ms =
        if k ∈ ks then ms ++ (readings k (lists k).text).getD [] else ms
  | [], _, ms => by simp
  | k' :: ks, h, ms => by
    have hnd := List.nodup_cons.1 h
    rw [List.map_cons, List.foldl_cons, foldl_mention_lists P f lists k hnd.2]
    by_cases hk : k' = k
    · subst hk
      simp [mention, hnd.1]
    · simp [mention, hk, Ne.symm hk]

theorem shown_nodup (P : Program) (sys : System) (c : Nat) (s : State) :
    (P.shown sys c s).Nodup := by
  have h : P.printed.Nodup := by cases P <;> decide
  exact h.filter _

theorem mem_order (P : Program) (k : Kind) : k ∈ P.order ↔ k ∈ P.printed := by
  cases P <;> cases k <;> decide

/-- The options that add the lists of the words `ks` to a context. -/
def addLists (y : CStr) (lists : Kind → CStr) (ks : List Kind) : List Opt :=
  .set :: .id y :: ks.map fun k => .list k (lists k)

theorem addLists_asks {P : Program} {sys : System} {y : CStr} {d : Nat} {lists : Kind → CStr}
    {ks : List Kind} (hy : sys.opt2id y.text = some d) (hks : ∀ k ∈ ks, k ∈ P.printed)
    (hlists : ∀ k, (readings k (lists k).text).isSome = true) :
    AsksToSet P sys (addLists y lists ks) d := by
  refine ⟨fun opt hopt => ?_, ?_, ?_⟩
  · simp only [addLists, List.mem_cons, List.mem_map] at hopt
    obtain rfl | rfl | ⟨k, hk, rfl⟩ := hopt
    · trivial
    · exact Option.isSome_iff_exists.2 ⟨d, hy⟩
    · exact ⟨hks k hk, hlists k⟩
  · exact foldl_modeAfter_lists lists false ks
  · have hid : (addLists y lists ks).foldl (idAfter sys) none = sys.opt2id y.text :=
      foldl_idAfter_lists sys lists _ ks
    rw [addressed, hid, hy]
    rfl

/-- The printed lists add the bits they stand for. -/
theorem assigned_addLists (P : Program) (f : Features) (y : CStr) (bits : Kind → BitVec 64)
    {ks : List Kind} (h : ks.Nodup) (k : Kind) (a : Attr) (b : Nat) :
    assigned P f (addLists y (fun k => printedList k (bits k)) ks) k a b =
      (a.bits.getLsbD b ||
        (decide (k ∈ ks) && a.modifiable.getLsbD b &&
          (visible k.table (bits k)).getLsbD b)) := by
  have hment : mentioned P f k (addLists y (fun k => printedList k (bits k)) ks) =
      if k ∈ ks then (readings k (printedList k (bits k)).text).getD [] else [] :=
    foldl_mention_lists P f (fun k => printedList k (bits k)) k h []
  obtain ⟨vs, hvs, hor⟩ := readings_printed k (bits k)
  have hread : readings k (printedList k (bits k)).text = some (vs.map fun v => ⟨false, v⟩) := hvs
  rw [assigned, hment, hread]
  by_cases hk : k ∈ ks
  · rw [if_pos hk, Option.getD_some, lastSign_values, hor]
    cases (visible k.table (bits k)).getLsbD b <;> cases a.modifiable.getLsbD b <;> simp [hk]
  · rw [if_neg hk]
    simp [hk]

/-- **The lists of one context, given to another**: what `--get` prints of the context `c` are
the headers with the lists of its words, and a `--set` with these lists adds to the context `d`
the bits that the words of `c` have, where `d` can be modified, and changes nothing else. -/
theorem get_set (P : Program) {sys : System} (hsets : sys.Sets) {x y : CStr} {c d : Nat} (command : List Text)
    (s : State) (hx : sys.opt2id x.text = some c) (hy : sys.opt2id y.text = some d)
    (hread : ∀ call ∈ P.getCalls, ∀ k ∈ call.kinds, sys.readable k c s = true)
    (haccept : ∀ k w s', (sys.set d k w s').1 = true) :
    ∃ (lists : Kind → CStr) (out : Text), main P sys [.get, .id x] [] s = (.ran out [], s) ∧
      out.splitOn '\n' =
        ((P.shown sys c s).flatMap fun k => [k.header ++ [':'], (lists k).text]) ++ [[]] ∧
      ∃ s', main P sys (addLists y lists (P.shown sys c s)) command s = (.ran [] command, s') ∧
        (∀ c' k, (s' c' k).modifiable = (s c' k).modifiable) ∧
        ∀ c' k b, (s' c' k).bits.getLsbD b = ((s c' k).bits.getLsbD b ||
          (decide (c' = d ∧ k ∈ P.shown sys c s) && (s c' k).modifiable.getLsbD b &&
            (visible k.table (s c k).bits).getLsbD b)) := by
  have hget : main P sys [.get, .id x] [] s =
      (.ran ((P.shown sys c s).flatMap fun k => printBitfield k.header k.table (s c k).bits) [],
        s) := by
    have hunderstood : ∀ opt ∈ [Opt.get, Opt.id x], Understood P sys opt := by
      intro opt hopt
      simp only [List.mem_cons, List.not_mem_nil, or_false] at hopt
      obtain rfl | rfl := hopt
      · trivial
      · exact Option.isSome_iff_exists.2 ⟨c, hx⟩
    have hid : (argsOf P sys [.get, .id x]).id = some c := hx
    have hmode : (argsOf P sys [.get, .id x]).get = true := rfl
    have hfind : (P.getCalls.find? fun call => !call.kinds.all fun k => sys.readable k c s) =
        none := by
      refine List.find?_eq_none.2 fun call hcall => ?_
      simpa using hread call hcall
    simp [main, foldlM_opts hunderstood, hid, hmode, printAttrs, hfind]
  have hks : ∀ k ∈ P.shown sys c s, k ∈ P.printed := fun k hk => (List.mem_filter.1 hk).1
  have hasks : AsksToSet P sys
      (addLists y (fun k => printedList k (s c k).bits) (P.shown sys c s)) d := by
    refine addLists_asks hy hks fun k => ?_
    obtain ⟨vs, hvs, -⟩ := readings_printed k (s c k).bits
    exact Option.isSome_iff_exists.2 ⟨_, hvs⟩
  obtain ⟨ks, hleaves⟩ := main_sets hsets hasks command s
  obtain ⟨hran, rfl⟩ | ⟨call, -, -, k, -, rest, -, hrefused⟩ := hleaves.ending
  · refine ⟨fun k => printedList k (s c k).bits, _, hget,
      printAttrs_lines (fun k => (s c k).bits) _, _, Prod.ext hran rfl, hleaves.modifiable,
      fun c' k b => ?_⟩
    rw [hleaves.bits, assigned_addLists P sys.features y (fun k => (s c k).bits)
      (shown_nodup P sys c s)]
    by_cases hk : k ∈ P.shown sys c s
    · have horder : k ∈ P.order := (mem_order P k).2 (hks k hk)
      by_cases hc : c' = d <;> simp [hc, hk, horder]
    · simp [hk]
  · rw [haccept] at hrefused
    cases hrefused

theorem get_set_raw_icmp :
    ∃ (lists : Kind → CStr) (out : Text),
      main .nattribute bothContexts [.get, .id ⟨"100".toList, by decide⟩] [] twoContexts =
        (.ran out [], twoContexts) ∧
      out.splitOn '\n' =
        ((Program.nattribute.shown bothContexts 100 twoContexts).flatMap fun k =>
          [k.header ++ [':'], (lists k).text]) ++ [[]] ∧
      ∃ s', main .nattribute bothContexts
          (addLists ⟨"200".toList, by decide⟩ lists
            (Program.nattribute.shown bothContexts 100 twoContexts)) [] twoContexts =
          (.ran [] [], s') ∧
        (∀ c' k, (s' c' k).modifiable = (twoContexts c' k).modifiable) ∧
        ∀ c' k b, (s' c' k).bits.getLsbD b = ((twoContexts c' k).bits.getLsbD b ||
          (decide (c' = 200 ∧ k ∈ Program.nattribute.shown bothContexts 100 twoContexts) &&
            (twoContexts c' k).modifiable.getLsbD b &&
            (visible k.table (twoContexts 100 k).bits).getLsbD b)) :=
  get_set .nattribute bothContexts_sets (x := ⟨"100".toList, by decide⟩)
    (y := ⟨"200".toList, by decide⟩) [] twoContexts (by decide) (by decide)
    (fun _ _ _ _ => rfl) (fun _ _ _ => rfl)

end Attributes
