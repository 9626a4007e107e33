import UtilVserver.BoundedList
import UtilVserver.ShellLines

/-!
# Capability files: `vserver start` and `vserver-start`

Both programs read `bcapabilities` and `ccapabilities` line by line into the two words of a
capability record.

* `readFileToArray`, `vattribute` — the shell function and the helper it builds arguments for.
* `readSomething` — the native reader with `setBCap`/`setCCap`.

The shell splits the file with `read`, which delivers no line without its newline, and passes
every line through `eval`; the native program hands pointers into the whole buffer to the list
parser.  Principal results: `capFiles_agree_iff` (the two agree exactly when the readings of
their lines go together) and `capFiles_agree` (which files are safe).
-/

set_option autoImplicit false

namespace CapFiles

open CString BitMention ListParser NameTables FlagGrammar ErrorSpan BoundedList FileCfg
open ShellLines

/-- `struct vc_ctx_caps`. -/
structure CtxCaps where
  bcaps : BitVec 64
  bmask : BitVec 64
  ccaps : BitVec 64
  cmask : BitVec 64
  deriving DecidableEq

/-- The record `vattribute` starts with. -/
def noCaps : CtxCaps := ⟨0#64, 0#64, 0#64, 0#64⟩

/-- The two files, with the option that takes their lines. -/
inductive CapKind where
  | bcap
  | ccap

def CapKind.table : CapKind → NameTable
  | .bcap => NameTables.bcaps
  | .ccap => NameTables.ccaps

/-- The words of the record that belong to the file. -/
def CapKind.words : CapKind → CtxCaps → BitVec 64 × BitVec 64
  | .bcap, caps => (caps.bcaps, caps.bmask)
  | .ccap, caps => (caps.ccaps, caps.cmask)

def CapKind.setWords : CapKind → CtxCaps → BitVec 64 → BitVec 64 → CtxCaps
  | .bcap, caps, flag, mask => { caps with bcaps := flag, bmask := mask }
  | .ccap, caps, flag, mask => { caps with ccaps := flag, cmask := mask }

/-- `setBCap`/`setCCap`: whether the list was understood, and the changed record. -/
def setCap (k : CapKind) (str : Text) (len : Nat) (caps : CtxCaps) : Option (Bool × CtxCaps) :=
  (k.table.list2val str len (k.words caps).1 (k.words caps).2).map fun r =>
    (r.code != -1, k.setWords caps r.flag (r.mask.getD (k.words caps).2))

/-- The content of a capability file: no NUL, no backslash, and smaller than the native limit. -/
structure CapFile extends CStr where
  noBackslash : '\\' ∉ text
  small : text.length < maxFileSize

/-- How a start ends.  `derailed` stands for a shell start whose argument list is not built of
one argument for each line. -/
inductive Outcome where
  | undef
  | derailed
  | rejected
  | accepted (caps : CtxCaps)
  deriving DecidableEq

/-! ## The shell -/

/-- No character of the text means anything between double quotes. -/
def isLiteral (v : Text) : Bool := v.all fun c => c != '"' && c != '$' && c != '`' && c != '\\'

/-- What `eval` makes of `"v"` in the environment of the script: the one word it stands for, or
nothing when it breaks the command or gives several words. -/
structure Eval where
  dquote : Text → Option Text
  literal : ∀ v, isLiteral v = true → dquote v = some v

/-- `_readFileToArray`: the lines that become arguments. -/
def readFileToArray (text : Text) : List Text := keep (readLines text)

/-- `vattribute` with one `--bcap`/`--ccap` for each line: `parseBCaps`/`parseCCaps` on the
argument, which exits on an error. -/
def vattribute (k : CapKind) (e : Eval) : List Text → CtxCaps → Outcome
  | [], caps => .accepted caps
  | v :: vs, caps =>
    match e.dquote v with
    | none => .derailed
    | some arg =>
      match setCap k arg 0 caps with
      | none => .undef
      | some (false, _) => .rejected
      | some (true, caps) => vattribute k e vs caps

/-- `vserver … start` on one capability file. -/
def shellStart (k : CapKind) (e : Eval) (file : CapFile) (caps : CtxCaps) : Outcome :=
  vattribute k e (readFileToArray file.text) caps

/-! ## The native program -/

/-- `readSomething` on one capability file. -/
def readSomething (k : CapKind) (file : CapFile) (caps : CtxCaps) : Outcome :=
  match readEntryStr file.text with
  | none => .accepted caps
  | some data =>
    match iterateOverMultiLine (setCap k) data caps with
    | none => .undef
    | some (false, _) => .rejected
    | some (true, caps) => .accepted caps

/-- Both reject, or both accept with the same record. -/
def SameOutcome : Outcome → Outcome → Prop
  | .rejected, .rejected => True
  | .accepted caps, .accepted caps' => caps = caps'
  | _, _ => False

/-! ## The readings of the lines -/

/-- How the list parser reads a part of a buffer. -/
def lineVerdict (k : CapKind) (sp : Span) : Verdict 64 :=
  verdict ((spans sp.ptr sp.len).map (readSpan uint64 k.table.lookup.call true))

/-- The readings of the arguments up to the first that is refused; nothing when one of them is
not passed as one word. -/
def shellVerdict (k : CapKind) (e : Eval) : List Text → Option (Verdict 64)
  | [] => some (.all [])
  | v :: vs =>
    match e.dquote v with
    | none => none
    | some arg =>
      match lineVerdict k ⟨arg, arg.length⟩ with
      | .all ms => (shellVerdict k e vs).map (andThen (.all ms))
      | r => some r

/-- The readings of the parts of the native buffer. -/
def nativeVerdict (k : CapKind) : List Span → Verdict 64
  | [] => .all []
  | sp :: sps => andThen (lineVerdict k sp) (nativeVerdict k sps)

/-- The parts of the buffer the native program parses. -/
def nativeSpans (file : CapFile) : List Span :=
  match readEntryStr file.text with
  | none => []
  | some data => keptSpans data

/-- **The condition of agreement**: among the arguments of the shell, each passed as one word, and
among the kept parts of the native buffer, either both have a part that the list parser refuses,
or the list parser understands all of both and every bit has the same last sign. -/
def ReadingsAgree (k : CapKind) (e : Eval) (file : CapFile) : Prop :=
  match shellVerdict k e (readFileToArray file.text), nativeVerdict k (nativeSpans file) with
  | some (.refused _ _ _), .refused _ _ _ => True
  | some (.all ms), .all ms' => SameSigns ms ms'
  | _, _ => False

/-! ## What one part does -/

theorem setWords_words (k : CapKind) (caps : CtxCaps) (flag mask : BitVec 64) :
    k.words (k.setWords caps flag mask) = (flag, mask) := by
  cases k <;> rfl

theorem setWords_setWords (k : CapKind) (caps : CtxCaps) (f m f' m' : BitVec 64) :
    k.setWords (k.setWords caps f m) f' m' = k.setWords caps f' m' := by
  cases k <;> rfl

theorem setWords_self (k : CapKind) (caps : CtxCaps) :
    k.setWords caps (k.words caps).1 (k.words caps).2 = caps := by
  cases k <;> rfl

/-- The record after a list of mentions. -/
def update (k : CapKind) (ms : List (Mention 64)) (caps : CtxCaps) : CtxCaps :=
  k.setWords caps (foldFlag ms (k.words caps).1) (foldMask ms (k.words caps).2)

theorem update_append (k : CapKind) (ms ms' : List (Mention 64)) (caps : CtxCaps) :
    update k (ms ++ ms') caps = update k ms' (update k ms caps) := by
  simp only [update, setWords_words, setWords_setWords, foldFlag_append, foldMask_append]

theorem update_nil (k : CapKind) (caps : CtxCaps) : update k [] caps = caps :=
  setWords_self k caps

/-- The effect of a verdict on the record. -/
def capResult (k : CapKind) (caps : CtxCaps) : Verdict 64 → Option (Bool × CtxCaps)
  | .undef => none
  | .refused ms _ _ => some (false, update k ms caps)
  | .all ms => some (true, update k ms caps)

/-- **The handler does what the verdict on its part says.** -/
theorem setCap_eq_capResult (k : CapKind) {str : Text} {len : Nat} (hle : len ≤ str.length)
    (caps : CtxCaps) :
    setCap k str len caps = capResult k caps (lineVerdict k ⟨str, regionLen str len⟩) := by
  have hrun := listparser_eq_result (T := uint64) k.table.lookup.call hle (k.words caps).1
    (some (k.words caps).2)
  rw [setCap, NameTable.list2val, hrun, lineVerdict, Option.isSome_some]
  cases verdict ((spans str (regionLen str len)).map
      (readSpan uint64 k.table.lookup.call true)) with
  | undef => rfl
  | refused ms s c => rfl
  | all ms => rfl

/-- What a start ends with after a verdict. -/
def startResult (k : CapKind) (caps : CtxCaps) : Verdict 64 → Outcome
  | .undef => .undef
  | .refused _ _ _ => .rejected
  | .all ms => .accepted (update k ms caps)

theorem startResult_andThen (k : CapKind) (caps : CtxCaps) (ms : List (Mention 64))
    (v : Verdict 64) :
    startResult k caps (andThen (.all ms) v) = startResult k (update k ms caps) v := by
  cases v <;> simp [andThen, startResult, update_append]

/-- **The shell start is given by the readings of its arguments.** -/
theorem vattribute_eq (k : CapKind) (e : Eval) : ∀ (vs : List Text) (caps : CtxCaps),
    vattribute k e vs caps = ((shellVerdict k e vs).map (startResult k caps)).getD .derailed
  | [], caps => by
    simp [vattribute, shellVerdict, startResult, update_nil]
  | v :: vs, caps => by
    rw [vattribute, shellVerdict]
    cases e.dquote v with
    | none => rfl
    | some arg =>
      have hlen : regionLen arg 0 = arg.length := if_pos rfl
      have hset := setCap_eq_capResult k (Nat.zero_le arg.length) caps
      rw [hlen] at hset
      simp only [hset]
      cases lineVerdict k ⟨arg, arg.length⟩ with
      | undef => rfl
      | refused ms s c => rfl
      | all ms =>
        simp only [capResult]
        rw [vattribute_eq k e vs, Option.map_map]
        cases shellVerdict k e vs with
        | none => rfl
        | some r => simp [startResult_andThen]

theorem foldSpans_eq_nativeVerdict (k : CapKind) : ∀ (sps : List Span) (caps : CtxCaps),
    (∀ sp ∈ sps, sp.len ≠ 0 ∧ sp.len ≤ sp.ptr.length) →
    (match FileCfg.foldSpans (setCap k) sps caps with
      | none => Outcome.undef
      | some (false, _) => .rejected
      | some (true, caps) => .accepted caps) = startResult k caps (nativeVerdict k sps)
  | [], caps, _ => by simp [FileCfg.foldSpans, nativeVerdict, startResult, update_nil]
  | sp :: sps, caps, h => by
    obtain ⟨hne, hle⟩ := h sp (by simp)
    have hlen : regionLen sp.ptr sp.len = sp.len := if_neg hne
    have hset := setCap_eq_capResult k hle caps
    rw [hlen] at hset
    rw [FileCfg.foldSpans, nativeVerdict, hset]
    cases lineVerdict k sp with
    | undef => rfl
    | refused ms s c => rfl
    | all ms =>
      simp only [capResult]
      rw [foldSpans_eq_nativeVerdict k sps _ fun sp' hsp' => h sp' (List.mem_cons_of_mem _ hsp'),
        startResult_andThen]

theorem keptSpan_len {sp : Span} {t f : Text} (h : KeptSpan sp t f) :
    sp.len ≠ 0 ∧ sp.len ≤ sp.ptr.length := by
  have hne := h.nonempty
  rw [h.eq]
  simp [hne]

/-- **The native start is given by the readings of the kept parts of its buffer.** -/
theorem readSomething_eq (k : CapKind) (file : CapFile) (caps : CtxCaps) :
    readSomething k file caps = startResult k caps (nativeVerdict k (nativeSpans file)) := by
  unfold readSomething nativeSpans
  cases readEntryStr file.text with
  | none => simp [nativeVerdict, startResult, update_nil]
  | some data =>
    simp only [iterateOverMultiLine_eq_foldSpans]
    refine foldSpans_eq_nativeVerdict k _ caps fun sp hsp => ?_
    obtain ⟨t, f, hk⟩ := keptSpans_kept data sp hsp
    exact keptSpan_len hk

/-! ## When the two agree -/

/-- A record with given words. -/
theorem exists_caps (k : CapKind) (flag mask : BitVec 64) :
    ∃ caps, k.words caps = (flag, mask) := by
  cases k
  · exact ⟨⟨flag, mask, 0#64, 0#64⟩, rfl⟩
  · exact ⟨⟨0#64, 0#64, flag, mask⟩, rfl⟩

/-- Two lists of mentions make the same record of every record when they have the same signs. -/
theorem update_eq_iff (k : CapKind) (ms ms' : List (Mention 64)) :
    (∀ caps, update k ms caps = update k ms' caps) ↔ SameSigns ms ms' := by
  rw [← sameEffect_iff]
  constructor
  · intro h flag mask
    obtain ⟨caps, hcaps⟩ := exists_caps k flag mask
    have hw := congrArg k.words (h caps)
    simp only [update, setWords_words, hcaps, Prod.mk.injEq] at hw
    exact hw
  · intro h caps
    obtain ⟨hf, hm⟩ := h (k.words caps).1 (k.words caps).2
    rw [update, update, hf, hm]

/-- **Exactness**: for every capability file and every initial record, the two starts both reject
or both set the same words exactly when the readings of their lines agree. -/
theorem capFiles_agree_iff (k : CapKind) (e : Eval) (file : CapFile) :
    (∀ caps, SameOutcome (shellStart k e file caps) (readSomething k file caps)) ↔
      ReadingsAgree k e file := by
  have hshell : ∀ caps, shellStart k e file caps =
      ((shellVerdict k e (readFileToArray file.text)).map (startResult k caps)).getD .derailed :=
    fun caps => vattribute_eq k e _ caps
  simp only [hshell, readSomething_eq, ReadingsAgree]
  cases shellVerdict k e (readFileToArray file.text) with
  | none => exact ⟨fun h => h noCaps, False.elim⟩
  | some r =>
    cases r with
    | undef => exact ⟨fun h => h noCaps, False.elim⟩
    | refused ms s c =>
      cases nativeVerdict k (nativeSpans file) with
      | refused ms' s' c' => exact ⟨fun _ => trivial, fun _ _ => trivial⟩
      | _ => exact ⟨fun h => h noCaps, False.elim⟩
    | all ms =>
      cases nativeVerdict k (nativeSpans file) with
      | all ms' => exact update_eq_iff k ms ms'
      | _ => exact ⟨fun h => h noCaps, False.elim⟩

/-- An `eval` that knows literal texts only. -/
def literalEval : Eval where
  dquote v := if isLiteral v then some v else none
  literal v h := by rw [if_pos h]

/-- The file `LEASE` without a newline at its end. -/
def leaseFile : CapFile := ⟨⟨"LEASE".toList, by decide⟩, by decide, by decide⟩

/-- The shell drops a last line that has no newline, the native program reads it. -/
theorem capFiles_drop_last_line :
    ¬ ∀ (k : CapKind) (e : Eval) (file : CapFile) (caps : CtxCaps),
      SameOutcome (shellStart k e file caps) (readSomething k file caps) := by
  intro h
  have hsame := h .bcap literalEval leaseFile noCaps
  have hshell : shellStart .bcap literalEval leaseFile noCaps = .accepted noCaps := by decide
  have hnative : readSomething .bcap leaseFile noCaps =
      .accepted { noCaps with bcaps := 1#64 <<< 28, bmask := 1#64 <<< 28 } := by
    have hdata : readEntryStr leaseFile.text = some "LEASE".toList := by decide
    unfold readSomething
    rw [hdata]
    simp only [iterateOverMultiLine_eq_foldSpans]
    rw [keptSpans_last (show '\n' ∉ "LEASE".toList by decide)]
    decide
  rw [hshell, hnative] at hsame
  simp only [SameOutcome] at hsame
  exact absurd hsame (by decide)

/-! ## Safe files -/

/-- A bit number behind a `^` is one of the word. -/
def shiftDefined : Text → Bool
  | '^' :: d => decide (0 ≤ (strtol 64 d).1 ∧ (strtol 64 d).1 < 64)
  | _ => true

/-- A line that both programs read alike: no character that `eval` expands, a last element that
keeps the bytes behind the line out, and shifts inside the words. -/
structure PlainLine (line : Text) : Prop where
  literal : isLiteral (trim line) = true
  sheltered : Sheltered true (trim line) (behind line)
  shifts : ∀ elem ∈ listElems (trim line), shiftDefined (stripElem true elem).1 = true

/-- A file of such lines, with nothing but blanks or a comment behind the last newline. -/
structure PlainFile (file : CapFile) : Prop where
  terminated : ∀ line, (file.text.splitOn '\n').getLast? = some line → keep [trim line] = []
  lines : ∀ line ∈ file.text.splitOn '\n', Kept line → PlainLine line

theorem setCap_local (k : CapKind) {sp : Span} {t f : Text} (hk : KeptSpan sp t f)
    (h0 : '\x00' ∉ sp.ptr) (hs : Sheltered true t f) (caps : CtxCaps) :
    setCap k sp.ptr sp.len caps = setCap k t 0 caps := by
  have hpos : 0 < t.length := List.length_pos_iff.2 hk.nonempty
  rw [hk.eq] at h0
  have hlocal : Local uint64 k.table.lookup true ((t ++ f).take t.length)
      ((t ++ f).drop t.length) := by
    rw [List.take_left, List.drop_left]
    exact local_of_sheltered (T := uint64) k.table.lookup (fun hm => h0 (List.mem_append_left f hm)) hs
  have hrun := (listparser_local_iff (T := uint64) k.table.lookup true ⟨t ++ f, h0⟩ hpos
    (by simp)).2 hlocal (k.words caps).1 (some (k.words caps).2) rfl
  simp only [List.take_left] at hrun
  rw [hk.eq]
  simp only [setCap, NameTable.list2val, hrun]

theorem keptSpan_text {sp : Span} {t f : Text} (hk : KeptSpan sp t f) :
    sp.text = t ∧ sp.ptr.drop sp.len = f := by
  rw [hk.eq]
  simp [Span.text]

/-- Parts that read like their literal texts: the walk does what the helper does. -/
theorem foldSpans_eq_vattribute (k : CapKind) (e : Eval) : ∀ (sps : List Span) (caps : CtxCaps),
    (∀ sp ∈ sps, isLiteral sp.text = true ∧
      ∀ caps, setCap k sp.ptr sp.len caps = setCap k sp.text 0 caps) →
    vattribute k e (sps.map Span.text) caps =
      match FileCfg.foldSpans (setCap k) sps caps with
      | none => .undef
      | some (false, _) => .rejected
      | some (true, caps) => .accepted caps
  | [], caps, _ => rfl
  | sp :: sps, caps, h => by
    obtain ⟨hlit, hset⟩ := h sp (by simp)
    rw [List.map_cons, vattribute, e.literal _ hlit, FileCfg.foldSpans, hset]
    simp only
    cases setCap k sp.text 0 caps with
    | none => rfl
    | some r =>
      obtain ⟨ok, caps'⟩ := r
      cases ok with
      | false => rfl
      | true =>
        exact foldSpans_eq_vattribute k e sps caps' fun sp' hsp' =>
          h sp' (List.mem_cons_of_mem _ hsp')

/-- The texts of the spans are the elements. -/
theorem spans_text (s : Text) : (spans s s.length).map Span.text = listElems s := by
  induction s using list_induction with
  | nil => simp [spans_zero, listElems_nil]
  | single t hne hc =>
    have hs := spans_single hne hc []
    rw [List.append_nil] at hs
    simp [hs, listElems_single hne hc, Span.text]
  | cons t r hc ih =>
    have hs := spans_cons hc r []
    rw [List.append_nil] at hs
    rw [List.length_append, List.length_cons, hs, List.map_cons, ih, listElems_cons hc]
    simp [Span.text]

theorem verdict_ne_undef {w : Nat} {rs : List (Bool × ElemResult w)}
    (h : ∀ r ∈ rs, r.2 ≠ .undef) : verdict rs ≠ .undef := by
  induction rs with
  | nil => rintro ⟨⟩
  | cons r rs ih =>
    obtain ⟨neg, e⟩ := r
    rw [List.forall_mem_cons] at h
    cases e with
    | undef => exact absurd rfl h.1
    | failed str cnt => rintro ⟨⟩
    | value v =>
      rw [verdict]
      cases hv : verdict rs with
      | undef => exact absurd hv (ih h.2)
      | refused ms str cnt => rintro ⟨⟩
      | all ms => rintro ⟨⟩

/-- No shift is undefined in a list whose bit numbers are below the width. -/
theorem lineVerdict_ne_undef (k : CapKind) {t : Text} (h0 : '\x00' ∉ t)
    (hshift : ∀ elem ∈ listElems t, shiftDefined (stripElem true elem).1 = true) :
    lineVerdict k ⟨t, t.length⟩ ≠ .undef := by
  have hreads := reads_eq_lenient (T := uint64) k.table.lookup.toLookup h0
  have hne : ∀ r ∈ lenientReads uint64 k.table.lookup.toLookup t, r.2 ≠ .undef := ?_
  · show verdict _ ≠ _
    rw [show (spans t t.length).map (readSpan uint64 k.table.lookup.call true) = _ from hreads]
    exact verdict_ne_undef hne
  intro r hr
  obtain ⟨sp, hsp, rfl⟩ := List.mem_map.1 hr
  have helem := hshift sp.text (spans_text t ▸ List.mem_map_of_mem hsp)
  rw [lenientElem]
  simp only [stripElem, if_true] at helem
  generalize (stripText sp.text false).1 = u at helem
  unfold lenientRead
  split
  · rintro ⟨⟩
  split
  · rintro ⟨⟩
  split
  · rintro ⟨⟩
  have hname : ∀ str cnt, lookupName k.table.lookup.toLookup.call str cnt ≠ .undef := by
    intro str cnt
    unfold lookupName
    cases k.table.lookup.toLookup.call str cnt <;> rintro ⟨⟩
  unfold lenientNumber
  split
  · rename_i hne _ _ hcaret
    obtain ⟨c, d, rfl⟩ := List.exists_cons_of_ne_nil hne
    obtain rfl : c = '^' := hcaret
    dsimp only
    split
    · split
      · rintro ⟨⟩
      · exact hname _ _
    · rename_i hrange
      exact absurd (of_decide_eq_true helem) hrange
  · split
    · rintro ⟨⟩
    · exact hname _ _

/-- The shell's run over literal lines comes to an end. -/
theorem vattribute_ends (k : CapKind) (e : Eval) : ∀ (vs : List Text) (caps : CtxCaps),
    (∀ v ∈ vs, isLiteral v = true ∧ lineVerdict k ⟨v, v.length⟩ ≠ .undef) →
    vattribute k e vs caps = .rejected ∨ ∃ caps', vattribute k e vs caps = .accepted caps'
  | [], caps, _ => Or.inr ⟨caps, rfl⟩
  | v :: vs, caps, h => by
    rw [List.forall_mem_cons] at h
    have hlen : regionLen v 0 = v.length := if_pos rfl
    have hset := setCap_eq_capResult k (Nat.zero_le v.length) caps
    rw [hlen] at hset
    rw [vattribute, e.literal v h.1.1]
    simp only [hset]
    cases hv : lineVerdict k ⟨v, v.length⟩ with
    | undef => exact absurd hv h.1.2
    | refused ms s c => exact Or.inl rfl
    | all ms => exact vattribute_ends k e vs _ h.2

/-- On a plain file both programs do the same. -/
theorem shellStart_eq_readSomething (k : CapKind) (e : Eval) {file : CapFile} (h : PlainFile file)
    (caps : CtxCaps) : shellStart k e file caps = readSomething k file caps := by
  have hlines := keptLines_eq_dropLast h.terminated
  rw [shellStart, readFileToArray, readLines, ← hlines, readSomething]
  cases hdata : readEntryStr file.text with
  | none =>
    -- an empty file: it has no lines at all
    have hempty : file.text = [] := by
      by_contra hne
      have hpos : 0 < file.text.length := List.length_pos_iff.2 hne
      rw [readEntryStr, if_pos ⟨hpos, file.small⟩] at hdata
      cases hdata
    simp [hempty, keptLines, keep, trim, vattribute]
  | some data =>
    obtain rfl : data = file.text.rdropWhile (· == '\n') := by
      unfold readEntryStr at hdata
      split at hdata
      · cases hdata
        rfl
      · cases hdata
    simp only [iterateOverMultiLine_eq_foldSpans]
    rw [← readEntryStr_lines hdata, ← keptSpans_text]
    refine foldSpans_eq_vattribute k e _ caps fun sp hsp => ?_
    obtain ⟨line, hline, hkept, f, hk, hf⟩ := keptSpans_line_kept _ sp hsp
    have hplain := h.lines line (splitOn_rdropWhile _ line hline) hkept
    have hnul : '\x00' ∉ sp.ptr := fun hm => file.noNul
      ((List.rdropWhile_prefix _ _).subset ((keptSpans_suffix _ sp hsp).subset hm))
    rw [(keptSpan_text hk).1]
    exact ⟨hplain.literal, setCap_local k hk hnul (hplain.sheltered.of_head hf)⟩

/-- **Safe files**: on a plain file both programs reject, or both yield the same words. -/
theorem capFiles_agree (k : CapKind) (e : Eval) {file : CapFile} (h : PlainFile file)
    (caps : CtxCaps) : SameOutcome (shellStart k e file caps) (readSomething k file caps) := by
  rw [← shellStart_eq_readSomething k e h caps]
  have hends := vattribute_ends k e (readFileToArray file.text) caps fun v hv => by
    obtain ⟨hmem, hkept⟩ := List.mem_filter.1 hv
    obtain ⟨line, hline, rfl⟩ := List.mem_map.1 hmem
    have hplain := h.lines line (List.dropLast_subset _ hline) hkept
    have htrim := trim_prefix line
    have hnul : '\x00' ∉ trim line := fun hm => file.noNul
      (subset_of_mem_splitOn '\n' file.text line (List.dropLast_subset _ hline)
        ((List.dropWhile_suffix isBlank).subset (htrim.subset hm)))
    exact ⟨hplain.literal, lineVerdict_ne_undef k hnul hplain.shifts⟩
  rw [shellStart]
  rcases hends with hends | ⟨caps', hends⟩
  · rw [hends]
    trivial
  · rw [hends]
    rfl

/-- A name, a negated bit number with a blank behind it, and a comment. -/
def namesFile : CapFile := ⟨⟨"LEASE\n~^5 \n# all\n".toList, by decide⟩, by decide, by decide⟩

theorem capFiles_agree_names :
    SameOutcome (shellStart .bcap literalEval namesFile noCaps)
        (readSomething .bcap namesFile noCaps) ∧
      shellStart .bcap literalEval namesFile noCaps =
        .accepted { noCaps with bcaps := 1#64 <<< 28, bmask := 1#64 <<< 28 ||| 1#64 <<< 5 } := by
  have hsplit : namesFile.text.splitOn '\n' =
      ["LEASE".toList, "~^5 ".toList, "# all".toList, []] := by decide
  have hplain : PlainFile namesFile := by
    constructor
    · rw [hsplit]
      rintro line ⟨⟩
      decide
    · rw [hsplit]
      intro line hline hkept
      simp only [List.mem_cons, List.not_mem_nil, or_false] at hline
      rcases hline with rfl | rfl | rfl | rfl
      · exact ⟨by decide, Or.inr (Or.inr (Or.inr (Or.inl (by decide)))), by decide⟩
      · exact ⟨by decide, Or.inr (Or.inr (Or.inr (Or.inr ⟨by decide, ' ', by decide, by decide,
          ' ', by decide, ⟨by decide, by decide, by decide, by decide⟩⟩))), by decide⟩
      · exact absurd hkept (by decide)
      · exact absurd hkept (by decide)
  exact ⟨capFiles_agree .bcap literalEval hplain noCaps, by decide⟩

end CapFiles
