import UtilVserver.Lib.LowestBit
import UtilVserver.NameTables

/-!
# The textual representation of a value, bit by bit (`lib/val2text.hc`)

The macro `TEXT2VAL` is instantiated for 32 and 64 bits.  Its callers go on with what a call
leaves of the value until nothing is left.

* `searchValue`, `text2value` — the macro, for any width and table.
* `afterCalls` — what is left after a number of calls.
* `Contract` — what the documentation says about one call.

Principal results: `contract_iff` (a call does what is documented exactly when the value or its
lowest bit has a name) and `text2value_runs`.
-/

set_option autoImplicit false

namespace Lo2Text

open CString LowestBit

variable {w : Nat}

/-- `struct Mapping_uint32` and `struct Mapping_uint64`. -/
structure Mapping (w : Nat) where
  id : Text
  val : BitVec w

/-- `searchValue`; none for -1. -/
def searchValue (val : BitVec w) (map : List (Mapping w)) : Option Nat :=
  map.findIdx? fun m => val == m.val

/-- `utilvserver_text2value_uint32` and `_uint64`: the index (none for -1) and `*val`. -/
def text2value (val : BitVec w) (map : List (Mapping w)) : Option Nat × BitVec w :=
  if val = 0#w then (none, val)
  else
    match searchValue val map with
    | some idx => (some idx, val &&& ~~~val)
    | none =>
      let delVal := 1#w <<< lowest val
      match searchValue delVal map with
      | some idx => (some idx, val &&& ~~~delVal)
      | none => (none, val)

/-- What is left after `n` calls. -/
def afterCalls (map : List (Mapping w)) (val : BitVec w) : Nat → BitVec w
  | 0 => val
  | n + 1 => (text2value (afterCalls map val n) map).2

/-- What a call has to do: take out the bits of the entry it returns, or the lowest one. -/
def Contract (map : List (Mapping w)) (val : BitVec w) : Prop :=
  match text2value val map with
  | (some idx, rest) => ∃ m, map[idx]? = some m ∧ m.val ≠ 0#w ∧ m.val &&& val = m.val ∧
      rest = val &&& ~~~m.val
  | (none, rest) => rest = val &&& ~~~(1#w <<< lowest val)

/-- The table has an entry with the value. -/
def Named (map : List (Mapping w)) (val : BitVec w) : Prop := ∃ m ∈ map, m.val = val

/-- **What iterating has to do**: each call for a value that is not 0 does what it has to and makes
the value smaller, after as many calls as there are bits nothing is left, and each bit is taken
out exactly once. -/
structure Runs (map : List (Mapping w)) (val : BitVec w) : Prop where
  contract : ∀ n, afterCalls map val n ≠ 0#w → Contract map (afterCalls map val n)
  smaller : ∀ n, afterCalls map val n ≠ 0#w → afterCalls map val (n + 1) < afterCalls map val n
  zero : afterCalls map val w = 0#w
  once : ∀ b, val.getLsbD b = true → ∃! n, (afterCalls map val n).getLsbD b = true ∧
    (afterCalls map val (n + 1)).getLsbD b = false

/-- Every bit has a name, or what is left of the value from there or from a lower bit on. -/
def AllNamed (map : List (Mapping w)) (val : BitVec w) : Prop :=
  ∀ b, val.getLsbD b = true →
    Named map (1#w <<< b) ∨ ∃ b' ≤ b, val.getLsbD b' = true ∧ Named map (clearBelow val b')

/-! ## One call -/

theorem searchValue_some {val : BitVec w} {map : List (Mapping w)} {idx : Nat}
    (h : searchValue val map = some idx) : ∃ m, map[idx]? = some m ∧ m.val = val := by
  obtain ⟨hlt, hm, -⟩ := List.findIdx?_eq_some_iff_getElem.1 h
  exact ⟨map[idx], List.getElem?_eq_getElem hlt, (beq_iff_eq.1 hm).symm⟩

theorem searchValue_none_iff {val : BitVec w} {map : List (Mapping w)} :
    searchValue val map = none ↔ ¬ Named map val := by
  unfold searchValue Named
  rw [List.findIdx?_eq_none_iff]
  constructor
  · rintro h ⟨m, hm, rfl⟩
    simpa using h m hm
  · intro h m hm
    rw [beq_eq_false_iff_ne]
    exact fun he => h ⟨m, hm, he.symm⟩

theorem named_of_searchValue {val : BitVec w} {map : List (Mapping w)} {idx : Nat}
    (h : searchValue val map = some idx) : Named map val := by
  by_contra hn
  rw [searchValue_none_iff.2 hn] at h
  cases h

/-- The three ways of a call. -/
theorem text2value_cases {val : BitVec w} (map : List (Mapping w)) (h : val ≠ 0#w) :
    (∃ idx, searchValue val map = some idx ∧ text2value val map = (some idx, 0#w)) ∨
    (∃ idx, ¬ Named map val ∧ searchValue (1#w <<< lowest val) map = some idx ∧
      text2value val map = (some idx, val &&& ~~~(1#w <<< lowest val))) ∨
    (¬ Named map val ∧ ¬ Named map (1#w <<< lowest val) ∧ text2value val map = (none, val)) := by
  unfold text2value
  rw [if_neg h]
  cases hv : searchValue val map with
  | some idx =>
    refine Or.inl ⟨idx, rfl, ?_⟩
    simp
  | none =>
    cases hl : searchValue (1#w <<< lowest val) map with
    | some idx => exact Or.inr (Or.inl ⟨idx, searchValue_none_iff.1 hv, rfl, by simp [hl]⟩)
    | none =>
      exact Or.inr (Or.inr ⟨searchValue_none_iff.1 hv, searchValue_none_iff.1 hl, by simp [hl]⟩)

theorem getLsbD_lowest_one {val : BitVec w} (h : val ≠ 0#w) :
    (1#w <<< lowest val).getLsbD (lowest val) = true := by
  simp [getLsbD_one_shiftLeft (lowest_lt h)]

/-- The lowest bit is part of the value. -/
theorem lowest_one_and {val : BitVec w} (h : val ≠ 0#w) :
    1#w <<< lowest val &&& val = 1#w <<< lowest val := by
  apply BitVec.eq_of_getLsbD_eq
  intro b hb
  rw [BitVec.getLsbD_and, getLsbD_one_shiftLeft (lowest_lt h)]
  by_cases he : b = lowest val
  · rw [he, getLsbD_lowest (lowest_lt h)]
    simp
  · simp [he]

/-- **A call does what is documented** exactly when the value or its lowest bit has a name. -/
theorem contract_iff (map : List (Mapping w)) {val : BitVec w} (h : val ≠ 0#w) :
    Contract map val ↔ Named map val ∨ Named map (1#w <<< lowest val) := by
  unfold Contract
  rcases text2value_cases map h with ⟨idx, hv, he⟩ | ⟨idx, hv, hl, he⟩ | ⟨hv, hl, he⟩
  · rw [he]
    obtain ⟨m, hm, hval⟩ := searchValue_some hv
    refine iff_of_true ⟨m, hm, by rwa [hval], ?_, ?_⟩ (Or.inl (named_of_searchValue hv))
    · rw [hval, BitVec.and_self]
    · simp [hval]
  · rw [he]
    obtain ⟨m, hm, hval⟩ := searchValue_some hl
    refine iff_of_true ⟨m, hm, ?_, ?_, ?_⟩ (Or.inr (named_of_searchValue hl))
    · rw [hval]
      intro h0
      have := getLsbD_lowest_one h
      rw [h0, BitVec.getLsbD_zero] at this
      cases this
    · rw [hval]
      exact lowest_one_and h
    · rw [hval]
  · rw [he]
    refine iff_of_false ?_ (not_or.2 ⟨hv, hl⟩)
    intro heq
    have hlow := congrArg (fun x => x.getLsbD (lowest val)) heq
    simp only [getLsbD_clear, getLsbD_lowest (lowest_lt h), getLsbD_lowest_one h] at hlow
    simp at hlow

/-- A call only takes bits out. -/
theorem text2value_subset (map : List (Mapping w)) (val : BitVec w) {b : Nat}
    (h : (text2value val map).2.getLsbD b = true) : val.getLsbD b = true := by
  by_cases h0 : val = 0#w
  · rwa [text2value, if_pos h0] at h
  rcases text2value_cases map h0 with ⟨idx, -, he⟩ | ⟨idx, -, -, he⟩ | ⟨-, -, he⟩
  · rw [he] at h
    simp at h
  · rw [he, getLsbD_clear, Bool.and_eq_true] at h
    exact h.1
  · rwa [he] at h

/-! ## Iterating -/

theorem afterCalls_succ (map : List (Mapping w)) (val : BitVec w) : ∀ n,
    afterCalls map val (n + 1) = afterCalls map (text2value val map).2 n
  | 0 => rfl
  | n + 1 => by rw [afterCalls, afterCalls_succ map val n, afterCalls]

/-- What is left from `b` on when the lowest bit, below `b`, is taken out. -/
theorem clearBelow_rest {val : BitVec w} (h : val ≠ 0#w) {b : Nat} (hb : lowest val < b) :
    clearBelow (val &&& ~~~(1#w <<< lowest val)) b = clearBelow val b := by
  apply clearBelow_clear
  intro i hi
  rw [getLsbD_one_shiftLeft (lowest_lt h), decide_eq_true_eq] at hi
  omega

theorem getLsbD_rest {val : BitVec w} (h : val ≠ 0#w) {b : Nat} :
    (val &&& ~~~(1#w <<< lowest val)).getLsbD b = true ↔
      val.getLsbD b = true ∧ lowest val < b := by
  rw [getLsbD_clear, getLsbD_one_shiftLeft (lowest_lt h), Bool.and_eq_true,
    Bool.not_eq_true', decide_eq_false_iff_not]
  constructor
  · rintro ⟨hb, hne⟩
    have := lowest_le_of_getLsbD hb
    exact ⟨hb, by omega⟩
  · rintro ⟨hb, hlt⟩
    exact ⟨hb, by omega⟩

/-- What has to be named of a value without a name of its own: its lowest bit, and the rest. -/
theorem allNamed_iff_rest {map : List (Mapping w)} {val : BitVec w} (h : val ≠ 0#w)
    (hn : ¬ Named map val) : AllNamed map val ↔
      Named map (1#w <<< lowest val) ∧ AllNamed map (val &&& ~~~(1#w <<< lowest val)) := by
  constructor
  · intro hall
    constructor
    · rcases hall _ (getLsbD_lowest (lowest_lt h)) with hl | ⟨b', hle, hb', hnamed⟩
      · exact hl
      · have hlow := lowest_le_of_getLsbD hb'
        obtain rfl : b' = lowest val := by omega
        rw [clearBelow_lowest] at hnamed
        exact absurd hnamed hn
    · intro b hb
      obtain ⟨hb, hlt⟩ := (getLsbD_rest h).1 hb
      rcases hall b hb with hnamed | ⟨b', hle, hb', hnamed⟩
      · exact Or.inl hnamed
      · have hlow := lowest_le_of_getLsbD hb'
        have hne : b' ≠ lowest val := by
          rintro rfl
          rw [clearBelow_lowest] at hnamed
          exact hn hnamed
        refine Or.inr ⟨b', hle, (getLsbD_rest h).2 ⟨hb', by omega⟩, ?_⟩
        rwa [clearBelow_rest h (by omega)]
  · rintro ⟨hlow, hrest⟩ b hb
    by_cases he : b = lowest val
    · rw [he]
      exact Or.inl hlow
    · have hle := lowest_le_of_getLsbD hb
      rcases hrest b ((getLsbD_rest h).2 ⟨hb, by omega⟩) with hnamed | ⟨b', hle', hb', hnamed⟩
      · exact Or.inl hnamed
      · obtain ⟨hb', hlt⟩ := (getLsbD_rest h).1 hb'
        rw [clearBelow_rest h hlt] at hnamed
        exact Or.inr ⟨b', hle', hb', hnamed⟩

theorem allNamed_of_named {map : List (Mapping w)} {val : BitVec w} (hn : Named map val) :
    AllNamed map val := by
  intro b hb
  have h : val ≠ 0#w := by
    rintro rfl
    rw [BitVec.getLsbD_zero] at hb
    cases hb
  refine Or.inr ⟨lowest val, lowest_le_of_getLsbD hb, getLsbD_lowest (lowest_lt h), ?_⟩
  rwa [clearBelow_lowest]

/-- What a call does where everything is named: the step of a run. -/
theorem AllNamed.call {map : List (Mapping w)} {val : BitVec w} (hall : AllNamed map val)
    (h : val ≠ 0#w) : Contract map val ∧ AllNamed map (text2value val map).2 ∧
      (text2value val map).2 < val ∧
      (text2value val map).2.getLsbD (lowest val) = false := by
  have hlow := getLsbD_lowest (lowest_lt h)
  rcases text2value_cases map h with ⟨idx, hv, he⟩ | ⟨idx, hv, hl, he⟩ | ⟨hv, hl, he⟩
  · refine ⟨(contract_iff map h).2 (Or.inl (named_of_searchValue hv)), ?_, ?_, ?_⟩
    · rw [he]
      intro b hb
      simp at hb
    · rw [he]
      have := clear_lt hlow hlow
      simpa using this
    · rw [he]
      simp
  · refine ⟨(contract_iff map h).2 (Or.inr (named_of_searchValue hl)), ?_, ?_, ?_⟩
    · rw [he]
      exact ((allNamed_iff_rest h hv).1 hall).2
    · rw [he]
      exact clear_lt hlow (getLsbD_lowest_one h)
    · rw [he, getLsbD_clear, getLsbD_lowest_one h]
      simp
  · exact absurd ((allNamed_iff_rest h hv).1 hall).1 hl

/-- After `n` calls the bits below `n` are out. -/
theorem AllNamed.afterCalls {map : List (Mapping w)} {val : BitVec w} (hall : AllNamed map val) :
    ∀ n, AllNamed map (afterCalls map val n) ∧
      ∀ b, b < n → (Lo2Text.afterCalls map val n).getLsbD b = false
  | 0 => ⟨hall, fun b hb => absurd hb (by omega)⟩
  | n + 1 => by
    obtain ⟨ih, hbits⟩ := AllNamed.afterCalls hall n
    by_cases h0 : Lo2Text.afterCalls map val n = 0#w
    · have hnext : Lo2Text.afterCalls map val (n + 1) = 0#w := by
        rw [Lo2Text.afterCalls, h0, text2value, if_pos rfl]
      rw [hnext]
      rw [h0] at ih
      exact ⟨ih, fun b _ => BitVec.getLsbD_zero⟩
    · obtain ⟨-, hnext, -, hlow⟩ := ih.call h0
      refine ⟨hnext, fun b hb => ?_⟩
      by_contra hset
      rw [Bool.not_eq_false] at hset
      have hb' := text2value_subset map _ hset
      have hn : b = n := by
        by_contra hne
        rw [hbits b (by omega)] at hb'
        cases hb'
      have hle := lowest_le_of_getLsbD hb'
      have hge : ¬ lowest (Lo2Text.afterCalls map val n) < n := by
        intro hlt
        have := hbits _ hlt
        rw [getLsbD_lowest (lowest_lt h0)] at this
        cases this
      obtain rfl : b = lowest (Lo2Text.afterCalls map val n) := by omega
      rw [Lo2Text.afterCalls, hlow] at hset
      cases hset

/-- A run that does what it has to names everything. -/
theorem Runs.allNamed {map : List (Mapping w)} {val : BitVec w} (h : Runs map val) :
    AllNamed map val := by
  induction hn : val.toNat using Nat.strongRecOn generalizing val with
  | _ n ih =>
    by_cases h0 : val = 0#w
    · intro b hb
      rw [h0, BitVec.getLsbD_zero] at hb
      cases hb
    by_cases hv : Named map val
    · exact allNamed_of_named hv
    have hcontract := (contract_iff map h0).1 (h.contract 0 h0)
    rw [allNamed_iff_rest h0 hv]
    have hlow := hcontract.resolve_left hv
    refine ⟨hlow, ?_⟩
    have hrest : (text2value val map).2 = val &&& ~~~(1#w <<< lowest val) := by
      rcases text2value_cases map h0 with ⟨idx, hv', -⟩ | ⟨idx, -, -, he⟩ | ⟨-, hl, -⟩
      · exact absurd (named_of_searchValue hv') hv
      · rw [he]
      · exact absurd hlow hl
    have hlt : (val &&& ~~~(1#w <<< lowest val)).toNat < n := by
      rw [← hn, ← hrest]
      exact BitVec.lt_def.1 (h.smaller 0 h0)
    have hsucc := afterCalls_succ map val
    rw [hrest] at hsucc
    have hzero : Lo2Text.afterCalls map (val &&& ~~~(1#w <<< lowest val)) w = 0#w := by
      rw [← hsucc, Lo2Text.afterCalls, h.zero, text2value, if_pos rfl]
    refine ih _ hlt ⟨fun k hk => ?_, fun k hk => ?_, hzero, fun b hb => ?_⟩ rfl
    · rw [← hsucc] at hk ⊢
      exact h.contract (k + 1) hk
    · rw [← hsucc] at hk ⊢
      rw [← hsucc]
      exact h.smaller (k + 1) hk
    · exact exists_unique_cleared (fun k i hi => text2value_subset map _ hi) hzero hb

/-- **Iterating over a value does what is documented** exactly when everything of it is named. -/
theorem text2value_runs (map : List (Mapping w)) (val : BitVec w) :
    Runs map val ↔ AllNamed map val := by
  refine ⟨Runs.allNamed, fun hall => ?_⟩
  have hzero : afterCalls map val w = 0#w := by
    apply BitVec.eq_of_getLsbD_eq
    intro b hb
    rw [BitVec.getLsbD_zero]
    exact (hall.afterCalls w).2 b hb
  refine ⟨fun n hn => ?_, fun n hn => ?_, hzero, fun b hb => ?_⟩
  · exact ((hall.afterCalls n).1.call hn).1
  · exact ((hall.afterCalls n).1.call hn).2.2.1
  · exact exists_unique_cleared (fun k i hi => text2value_subset map _ hi) hzero hb

/-- A table of the library. -/
def ofTable (map : List NameTables.Mapping) : List (Mapping 64) :=
  map.map fun m => ⟨m.id, m.val⟩

/-- The last bit is no capability: it is never taken out. -/
theorem text2value_bit63 : ¬ Runs (ofTable NameTables.bcaps.values) (1#64 <<< 63) := by
  intro h
  have hnot : ¬ Contract (ofTable NameTables.bcaps.values) (1#64 <<< 63) := by
    rw [contract_iff _ (by decide)]
    unfold Named
    decide +kernel
  exact hnot (h.contract 0 (by decide))

/-- The function of the library's tables. -/
theorem text2value_ofTable (val : BitVec 64) (map : List NameTables.Mapping) :
    NameTables.text2value val map =
      (text2value val (ofTable map)).1.bind fun idx =>
        map[idx]?.map fun m => (m, (text2value val (ofTable map)).2) := by
  have hsearch : ∀ v : BitVec 64, NameTables.searchValue v map =
      (searchValue v (ofTable map)).bind fun idx => map[idx]? := by
    intro v
    unfold NameTables.searchValue searchValue ofTable
    rw [List.findIdx?_map]
    induction map with
    | nil => rfl
    | cons m map ih =>
      rw [List.find?_cons, List.findIdx?_cons]
      by_cases hm : (v == m.val) = true
      · simp [hm]
      · simp only [Bool.not_eq_true] at hm
        have hcomp : ((fun idx => (m :: map)[idx]?) ∘ fun i => i + 1) = fun idx => map[idx]? := by
          funext idx
          exact List.getElem?_cons_succ
        have hmiss : ¬ ((fun m => v == m.val) ∘ fun m : NameTables.Mapping =>
            ({ id := m.id, val := m.val } : Mapping 64)) m = true := by
          simp [hm]
        rw [hm, if_neg hmiss, Option.bind_map, hcomp]
        exact ih
  have hlow : NameTables.lowestBit val = lowest val := rfl
  unfold NameTables.text2value text2value
  by_cases h0 : val = 0#64
  · simp [h0]
  · simp only [if_neg h0, hsearch, hlow]
    cases hv : searchValue val (ofTable map) with
    | some idx =>
      obtain ⟨m, hm, -⟩ := searchValue_some hv
      have hlt : idx < map.length := by
        have := List.getElem?_eq_some_iff.1 hm
        simpa [ofTable] using this.1
      simp [List.getElem?_eq_getElem hlt]
    | none =>
      cases hl : searchValue (1#64 <<< lowest val) (ofTable map) with
      | some idx => simp
      | none => simp

end Lo2Text
