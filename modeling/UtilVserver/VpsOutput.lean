import Mathlib.Data.List.Forall2
import UtilVserver.StatColumns

/-!
# The output of `vps` (`src/vps.c`)

`vps` runs `ps` and puts the context of every process behind the column of its id.  The column is
found in the header and then used as an offset into the buffer for every line.

* `processOutput` — the code: the calls of `write` for the header and for every line.
* `PsOutput` — what `ps` prints with a column `PID`; `Standing` — the id in the column of a line.
* `Annotates` — the lines go through with the contexts of the processes standing in them.

Principal results: `processLines_eq_groups` (the walk through the buffer goes over the lines),
`processOutput_exact` and `reads_standing` (which ids are read right).
-/

set_option autoImplicit false

namespace VpsOutput

open CString DecimalText

/-- The kernel and the configuration: the context of a process, and the name of the vserver that
has a context. -/
structure World where
  vc_get_task_xid : BitVec 32 → BitVec 32
  vserverName : BitVec 32 → Option Text

def VC_NOCTX : BitVec 32 := BitVec.allOnes 32

def CTXNR_WIDTH : Nat := 5

def CONTEXT_WIDTH : Nat := 20

def CONTEXT_PLACE : Text := List.replicate 20 ' '

/-- A call of `write`: the length it is given, and what it writes.  Nothing is written when the
length is negative. -/
structure Write where
  len : Int
  bytes : Text
  deriving DecidableEq

/-- `Vwrite(1, mem+at, len)`. -/
def Vwrite (mem : Text) (pos : Nat) (len : Int) : Write := ⟨len, (mem.drop pos).take len.toNat⟩

/-- The writing of a whole text. -/
def writeText (t : Text) : Write := Vwrite t 0 t.length

def written (ws : List Write) : Text := ws.flatMap Write.bytes

/-! ## The code -/

/-- The number in `writeContextInfo`. -/
def writeNumber (ctx : BitVec 32) : List Write :=
  if ctx = VC_NOCTX then [Vwrite CONTEXT_PLACE 0 (CTXNR_WIDTH - 3), writeText "ERR ".toList]
  else
    let buf := StatColumns.fmtUlong ctx.toNat
    (if buf.length < CTXNR_WIDTH then [Vwrite CONTEXT_PLACE 0 (CTXNR_WIDTH - buf.length)] else []) ++
      [writeText buf, writeText [' ']]

/-- `writeContextInfo`: what it writes, and its result. -/
def writeContextInfo (ctx : BitVec 32) (name : Option Text) : List Write × Nat :=
  let l1 := (name.getD []).length
  (writeNumber ctx ++ if l1 ≠ 0 then [writeText (name.getD [])] else [], CTXNR_WIDTH + 1 + l1)

/-- `extractCtx`. -/
def extractCtx (w : World) (pid_str : Text) : BitVec 32 :=
  w.vc_get_task_xid (atoi (pid_str.dropWhile (· == ' ')))

/-- What `resolveCtx` finds out about a new context. -/
def World.id (w : World) (ctx : BitVec 32) : Option Text :=
  if ctx = 0#32 then some "MAIN".toList
  else if ctx = 1#32 then some "ALL_PROC".toList
  else w.vserverName ctx

/-- `resolveCtx`, with the mapping it keeps. -/
def resolveCtx (w : World) (mapping : List (BitVec 32 × Option Text)) (ctx : BitVec 32) :
    Option Text × List (BitVec 32 × Option Text) :=
  match mapping.find? (·.1 = ctx) with
  | some entry => (entry.2, mapping)
  | none => (w.id ctx, mapping ++ [(ctx, w.id ctx)])

/-- The context in a line. -/
def contextField (ctx : BitVec 32) (name : Option Text) : List Write :=
  let (info, l) := writeContextInfo ctx name
  info ++ [if l < CONTEXT_WIDTH then Vwrite CONTEXT_PLACE 0 (CONTEXT_WIDTH - l) else writeText [' ']]

/-- The context of a process in its line. -/
def processField (w : World) (pid : BitVec 32) : List Write :=
  contextField (w.vc_get_task_xid pid) (w.id (w.vc_get_task_xid pid))

/-- What a round writes for the line at `data`, which ends at `eol_pos`. -/
def lineWrites (mem : Text) (pid_end data eol_pos : Nat) (field : List Write) : List Write :=
  Vwrite mem data pid_end :: field ++
    [Vwrite mem (data + pid_end) ((eol_pos : Int) - (data + pid_end)), writeText ['\n']]

/-- `strchr(data, '\n')`, or where the text ends when there is none. -/
def endOfLine (mem : Text) (data len : Nat) : Nat :=
  match strchr (cstr (mem.drop data)) '\n' with
  | some p => data + ((cstr (mem.drop data)).length - p.length)
  | none => data + len

/-- The loop of `processOutput`; the calls of every round. -/
def processLines (w : World) (mem : Text) (pid_end data len : Nat)
    (mapping : List (BitVec 32 × Option Text)) : List (List Write) :=
  if 1 < len then
    let eol_pos := endOfLine mem data (len - 1)
    let ctx := extractCtx w (mem.drop (data + pid_end - 6))
    let r := resolveCtx w mapping ctx
    lineWrites mem pid_end data eol_pos (contextField ctx r.1) ::
      processLines w mem pid_end (eol_pos + 1) (len - 1 - (eol_pos - data)) r.2
  else []
termination_by len
decreasing_by omega

/-- A run: without a column, or the calls for the header and for every line. -/
inductive Run where
  | failed
  | done (header : List Write) (lines : List (List Write))

/-- `processOutput`, for what was read and what the memory behind it holds. -/
def processOutput (w : World) (data junk : Text) : Run :=
  let buf := data ++ '\x00' :: junk
  let eol_pos := endOfLine buf 0 data.length
  let mem := if '\n' ∈ cstr buf then buf.set eol_pos '\x00' else buf
  match strstr (cstr mem) "PID".toList with
  | none => .failed
  | some p =>
    let pid_end := (cstr mem).length - p.length + 4
    .done [Vwrite mem 0 pid_end, Vwrite ("CONTEXT".toList ++ CONTEXT_PLACE) 0 CONTEXT_WIDTH,
        Vwrite mem pid_end ((eol_pos : Int) - pid_end), writeText ['\n']]
      (processLines w mem pid_end (eol_pos + 1) (data.length - eol_pos) [])

/-! ## The output of `ps` -/

def Plain (t : Text) : Prop := '\n' ∉ t ∧ '\x00' ∉ t

/-- A word stands between blanks, or at an end. -/
def Apart (before behind : Text) : Prop :=
  (before = [] ∨ before.getLast? = some ' ') ∧ (behind = [] ∨ behind.head? = some ' ')

instance (t : Text) : Decidable (Plain t) := inferInstanceAs (Decidable (_ ∧ _))

instance (before behind : Text) : Decidable (Apart before behind) :=
  inferInstanceAs (Decidable (_ ∧ _))

/-- What `ps` prints with a column `PID`: the header, the lines that are ended, and what follows
them. -/
structure PsOutput where
  before : Text
  behind : Text
  lines : List Text
  rest : Text
  column_apart : Apart before behind
  before_plain : Plain before
  behind_plain : Plain behind
  lines_plain : ∀ l ∈ lines, Plain l
  rest_plain : Plain rest

namespace PsOutput

def header (o : PsOutput) : Text := o.before ++ ("PID".toList ++ o.behind)

/-- Where the column ends. -/
def column (o : PsOutput) : Nat := o.before.length + 3

/-- The text of ended lines and of an open one. -/
def body : List Text → Text → Text
  | [], rest => rest
  | l :: ls, rest => l ++ '\n' :: body ls rest

def data (o : PsOutput) : Text := o.header ++ '\n' :: body o.lines o.rest

/-- The ended lines, and the open one. -/
def allLines (ls : List Text) (rest : Text) : List Text :=
  ls ++ if rest = [] then [] else [rest]

/-- The lines of the processes. -/
def processes (o : PsOutput) : List Text := allLines o.lines o.rest

/-- Where the text `PID` is met first in the header. -/
def pidPos (o : PsOutput) : Nat :=
  o.header.length - ((strstr o.header "PID".toList).getD []).length

end PsOutput

/-- The id that stands in a column which ends at `column`; a wide one goes on behind it. -/
def Standing (column : Nat) (l : Text) (n : Nat) : Prop :=
  n < 2 ^ 31 ∧ ∃ before behind, l = before ++ (decimal n ++ behind) ∧ Apart before behind ∧
    before.length < column ∧ column ≤ before.length + (decimal n).length

/-- The line is written without a change around a field; that is the one of the process standing in
the line. -/
def LineOk (w : World) (column : Nat) (l : Text) (ws : List Write) : Prop :=
  (∀ wr ∈ ws, 0 ≤ wr.len) ∧ ∃ a field b, l = a ++ b ∧ written ws = a ++ (field ++ (b ++ ['\n'])) ∧
    ∀ n, Standing column l n → field = written (processField w (BitVec.ofNat 32 n))

/-- Whatever the contexts and the memory behind the output are, no length is negative and every
line goes through with its context. -/
def Annotates (o : PsOutput) : Prop :=
  ∀ w junk, ∃ header lines, processOutput w o.data junk = .done header lines ∧
    (∀ wr ∈ header, 0 ≤ wr.len) ∧ List.Forall₂ (LineOk w o.column) o.processes lines

/-- The lines behind `before` go on behind the column, and from the fifth character in front of it
on, `atoi` reads the id standing in the line. -/
def Legible (pos column : Nat) : Text → List Text → Prop
  | _, [] => True
  | before, l :: ls =>
    pos + 4 ≤ l.length ∧
    (∀ n, Standing column l n →
      atoi ((before ++ l).drop (before.length + pos - 2)) = BitVec.ofNat 32 n) ∧
    Legible pos column (l ++ ['\n']) ls

/-- The header goes on behind its first text `PID`, and so do the lines. -/
def Fits (o : PsOutput) : Prop :=
  o.pidPos + 4 ≤ o.header.length ∧
    Legible o.pidPos o.column (o.header ++ ['\x00']) o.processes

/-! ## Fields -/

theorem writeText_bytes (t : Text) : (writeText t).bytes = t := by
  rw [writeText, Vwrite, Int.toNat_natCast, List.drop_zero, List.take_length]

theorem writeText_len (t : Text) : 0 ≤ (writeText t).len := Int.natCast_nonneg _

theorem writeNumber_len (ctx : BitVec 32) : ∀ wr ∈ writeNumber ctx, 0 ≤ wr.len := by
  unfold writeNumber
  split
  · rintro wr (_ | ⟨_, _ | ⟨_, ⟨⟩⟩⟩)
    · decide
    · exact writeText_len _
  · dsimp only
    intro wr hwr
    rcases List.mem_append.1 hwr with hplace | htext
    · split at hplace
      · rename_i hlt
        rw [List.mem_singleton.1 hplace]
        exact Int.sub_nonneg_of_le (Int.ofNat_le.2 hlt.le)
      · cases hplace
    · rcases htext with _ | ⟨_, _ | ⟨_, ⟨⟩⟩⟩
      · exact writeText_len _
      · exact writeText_len _

/-- No length in a field is negative. -/
theorem contextField_len (ctx : BitVec 32) (name : Option Text) :
    ∀ wr ∈ contextField ctx name, 0 ≤ wr.len := by
  intro wr hwr
  rcases List.mem_append.1 hwr with hinfo | hpad
  · rcases List.mem_append.1 hinfo with hnumber | hname
    · exact writeNumber_len ctx wr hnumber
    · split at hname
      · rw [List.mem_singleton.1 hname]
        exact writeText_len _
      · cases hname
  · rw [List.mem_singleton.1 hpad]
    split
    · rename_i hlt
      exact Int.sub_nonneg_of_le (Int.ofNat_le.2 hlt.le)
    · exact writeText_len _

/-- A world in which one process is told from the others by a character of its field. -/
def marking (n : BitVec 32) : World where
  vc_get_task_xid pid := if pid = n then 2#32 else 3#32
  vserverName ctx := if ctx = 2#32 then some ['\x01'] else none

theorem marking_field (n pid : BitVec 32) :
    (written (processField (marking n) pid)).count '\x01' = if pid = n then 1 else 0 := by
  unfold processField
  by_cases h : pid = n
  · have hctx : (marking n).vc_get_task_xid pid = 2#32 := if_pos h
    have hid : (marking n).id 2#32 = some ['\x01'] := rfl
    rw [hctx, hid, if_pos h]
    decide
  · have hctx : (marking n).vc_get_task_xid pid = 3#32 := if_neg h
    have hid : (marking n).id 3#32 = none := rfl
    rw [hctx, hid, if_neg h]
    decide

/-! ## One line -/

theorem written_append (ws ws' : List Write) : written (ws ++ ws') = written ws ++ written ws' :=
  List.flatMap_append

/-- The bytes of a line that goes on behind the column. -/
theorem written_lineWrites {mem l r : Text} {pid_end data : Nat} (hmem : mem.drop data = l ++ r)
    (hl : pid_end ≤ l.length) (field : List Write) :
    written (lineWrites mem pid_end data (data + l.length) field) =
      l.take pid_end ++ (written field ++ (l.drop pid_end ++ ['\n'])) := by
  have hfirst : (Vwrite mem data pid_end).bytes = l.take pid_end := by
    rw [Vwrite, hmem, Int.toNat_natCast, List.take_append_of_le_length hl]
  have hlen : ((data + l.length : Nat) : Int) - (data + pid_end) = (l.length - pid_end : Nat) := by
    omega
  have hlast : (Vwrite mem (data + pid_end)
      (((data + l.length : Nat) : Int) - (data + pid_end))).bytes = l.drop pid_end := by
    rw [Vwrite, hlen, Int.toNat_natCast, ← List.drop_drop, hmem,
      List.drop_append_of_le_length hl, ← List.length_drop, List.take_left]
  rw [lineWrites, written_append, written, List.flatMap_cons, hfirst, written, List.flatMap_cons,
    hlast, List.flatMap_singleton, writeText_bytes, List.append_assoc]
  rfl

/-- A line is written right with the field of the process standing in it. -/
theorem lineOk_of {w : World} {column pid_end data : Nat} {mem l r : Text} {pid : BitVec 32}
    (hmem : mem.drop data = l ++ r) (hl : pid_end ≤ l.length)
    (hpid : ∀ n, Standing column l n → pid = BitVec.ofNat 32 n) :
    LineOk w column l (lineWrites mem pid_end data (data + l.length) (processField w pid)) := by
  constructor
  · intro wr hwr
    rcases List.mem_append.1 hwr with hfront | hback
    · rcases hfront with _ | ⟨_, hfield⟩
      · exact Int.natCast_nonneg _
      · exact contextField_len _ _ wr hfield
    · rcases hback with _ | ⟨_, _ | ⟨_, ⟨⟩⟩⟩
      · exact Int.sub_nonneg_of_le (by omega)
      · exact writeText_len _
  · refine ⟨_, _, _, (List.take_append_drop pid_end l).symm, written_lineWrites hmem hl _, ?_⟩
    intro n hn
    rw [← hpid n hn]

/-- No length is negative only when the line goes on behind the column. -/
theorem le_of_lineOk {w : World} {column pid_end data : Nat} {mem l : Text} {field : List Write}
    (h : LineOk w column l (lineWrites mem pid_end data (data + l.length) field)) :
    pid_end ≤ l.length := by
  have hlen := h.1 (Vwrite mem (data + pid_end) (((data + l.length : Nat) : Int) - (data + pid_end)))
    (List.mem_append_right _ List.mem_cons_self)
  have hle := Int.le_of_sub_nonneg hlen
  omega

/-- When the line is right whatever the contexts are, its field is that of the process in it. -/
theorem pid_of_lineOk {column pid_end data n : Nat} {mem l r : Text} {pid : BitVec 32}
    (hmem : mem.drop data = l ++ r)
    (h : LineOk (marking (BitVec.ofNat 32 n)) column l (lineWrites mem pid_end data
      (data + l.length) (processField (marking (BitVec.ofNat 32 n)) pid)))
    (hn : Standing column l n) : pid = BitVec.ofNat 32 n := by
  have hle := le_of_lineOk h
  obtain ⟨-, a, field, b, hl, hwritten, hfield⟩ := h
  rw [written_lineWrites hmem hle] at hwritten
  have hmine := marking_field (BitVec.ofNat 32 n) (BitVec.ofNat 32 n)
  have hother := marking_field (BitVec.ofNat 32 n) pid
  have hcount := congrArg (List.count '\x01') hwritten
  have hsplit := congrArg (List.count '\x01') (List.take_append_drop pid_end l)
  have hline := congrArg (List.count '\x01') hl
  rw [hfield n hn] at hcount
  simp only [List.count_append, hmine, hother, if_pos] at hcount hsplit hline
  split at hcount
  · assumption
  · omega

/-! ## The id that is read -/

/-- The id that `extractCtx` reads. -/
def readPid (pid_str : Text) : BitVec 32 := atoi (pid_str.dropWhile (· == ' '))

/-- White space in front of a number is passed over. -/
theorem atoi_skip {pre : Text} (h : pre.all isspace = true) (s : Text) :
    atoi (pre ++ s) = atoi s := by
  have hspace : (pre ++ s).dropWhile isspace = s.dropWhile isspace :=
    List.dropWhile_append_of_pos (List.all_eq_true.1 h)
  have hscan : scanDecimal (pre ++ s) = scanDecimal s := by
    rw [scanDecimal, hspace, scanDecimal]
  unfold atoi strtol10
  rw [hscan]
  cases scanDecimal s <;> rfl

theorem readPid_eq (s : Text) : readPid s = atoi s := by
  have hblank : (s.takeWhile (· == ' ')).all isspace = true := by
    refine List.all_eq_true.2 fun c hc => ?_
    have hblank : c = ' ' := by simpa using List.mem_takeWhile_imp hc
    rw [hblank]
    decide
  have hskip := atoi_skip hblank (s.dropWhile (· == ' '))
  rw [List.takeWhile_append_dropWhile] at hskip
  exact hskip.symm

/-- What is read is the same with something else behind it. -/
theorem atoi_stop {s : Text} {c : Char} (hc : isDigitIn 10 c = false ∧ c ≠ '-' ∧ c ≠ '+')
    (hs : ∃ x ∈ s, isspace x = false) (r : Text) : atoi (s ++ c :: r) = atoi s := by
  have hne : s.dropWhile isspace ≠ [] := by
    obtain ⟨x, hx, hspace⟩ := hs
    intro hnil
    rw [List.dropWhile_eq_nil_iff.1 hnil x hx] at hspace
    cases hspace
  unfold atoi
  rw [strtol10_stop hc.1 hc.2.1 hc.2.2 (.inr hne)]

/-- Behind every place in front of the end of the column, a digit of the id follows. -/
theorem Standing.digit {column k n : Nat} {l : Text} (h : Standing column l n) (hk : k < column) :
    ∃ x ∈ l.drop k, isspace x = false := by
  obtain ⟨-, before, behind, rfl, -, hstart, hend⟩ := h
  have hlt : column - 1 - before.length < (decimal n).length := by omega
  refine ⟨(decimal n)[column - 1 - before.length], ?_,
    isspace_of_digit (List.all_eq_true.1 (numeral_decimal n).2 _ (List.getElem_mem hlt))⟩
  refine List.mem_iff_getElem?.2 ⟨column - 1 - k, ?_⟩
  rw [List.getElem?_drop, show k + (column - 1 - k) = before.length + (column - 1 - before.length)
    by omega, List.getElem?_append_right (Nat.le_add_right _ _), Nat.add_sub_cancel_left,
    List.getElem?_append_left hlt, List.getElem?_eq_getElem hlt]

/-- **A line is right, whatever the contexts are, when it goes on behind the column and its id is
read.** -/
theorem lineOk_iff {pos column data : Nat} {mem before l r : Text} {c : Char}
    (hcol : pos + 3 ≤ column) (hbefore : 2 ≤ before.length + pos) (hdata : before.length ≤ data)
    (hc : isDigitIn 10 c = false ∧ c ≠ '-' ∧ c ≠ '+')
    (hmem : mem.drop (data - before.length) = before ++ (l ++ c :: r)) :
    (∀ w, LineOk w column l (lineWrites mem (pos + 4) data (data + l.length)
      (processField w (readPid (mem.drop (data + (pos + 4) - 6)))))) ↔
    pos + 4 ≤ l.length ∧ ∀ n, Standing column l n →
      atoi ((before ++ l).drop (before.length + pos - 2)) = BitVec.ofNat 32 n := by
  have hline : mem.drop data = l ++ c :: r := by
    have hdrop := congrArg (List.drop before.length) hmem
    rw [List.drop_drop, List.drop_left, Nat.sub_add_cancel hdata] at hdrop
    exact hdrop
  have hread : pos + 4 ≤ l.length → ∀ n, Standing column l n →
      readPid (mem.drop (data + (pos + 4) - 6)) =
        atoi ((before ++ l).drop (before.length + pos - 2)) := by
    intro hl n hn
    have hplace : data + (pos + 4) - 6 = data - before.length + (before.length + pos - 2) := by
      omega
    have hdigit : ∃ x ∈ (before ++ l).drop (before.length + pos - 2), isspace x = false := by
      obtain ⟨x, hx, hspace⟩ := hn.digit (k := pos) (by omega)
      have htail : ((before ++ l).drop (before.length + pos - 2)).drop 2 = l.drop pos := by
        rw [List.drop_drop, Nat.sub_add_cancel (by omega), List.drop_length_add_append]
      exact ⟨x, List.mem_of_mem_drop (htail ▸ hx), hspace⟩
    rw [hplace, ← List.drop_drop, hmem, ← List.append_assoc,
      List.drop_append_of_le_length (by rw [List.length_append]; omega), readPid_eq,
      atoi_stop hc hdigit]
  constructor
  · intro h
    have hl := le_of_lineOk (h (marking 0#32))
    refine ⟨hl, fun n hn => ?_⟩
    rw [← hread hl n hn]
    exact pid_of_lineOk hline (h (marking (BitVec.ofNat 32 n))) hn
  · rintro ⟨hl, hid⟩ w
    refine lineOk_of hline hl fun n hn => ?_
    rw [hread hl n hn, hid n hn]

/-! ## The walk over the lines -/

/-- The names that are kept are those that would be found out. -/
def Sound (w : World) (mapping : List (BitVec 32 × Option Text)) : Prop :=
  ∀ entry ∈ mapping, entry.2 = w.id entry.1

theorem resolveCtx_sound {w : World} {mapping : List (BitVec 32 × Option Text)}
    (h : Sound w mapping) (ctx : BitVec 32) :
    (resolveCtx w mapping ctx).1 = w.id ctx ∧ Sound w (resolveCtx w mapping ctx).2 := by
  unfold resolveCtx
  split
  · rename_i entry hfind
    have hctx := List.find?_some hfind
    refine ⟨?_, h⟩
    rw [h entry (List.mem_of_find?_eq_some hfind), of_decide_eq_true hctx]
  · refine ⟨rfl, fun entry hentry => ?_⟩
    rcases List.mem_append.1 hentry with hold | hnew
    · exact h entry hold
    · rw [List.mem_singleton.1 hnew]

/-- What is written for lines that follow each other in the buffer. -/
def groups (w : World) (mem : Text) (pid_end : Nat) : Nat → List Text → List (List Write)
  | _, [] => []
  | data, l :: ls =>
    lineWrites mem pid_end data (data + l.length)
        (processField w (readPid (mem.drop (data + pid_end - 6)))) ::
      groups w mem pid_end (data + l.length + 1) ls

theorem endOfLine_line {mem l r junk : Text} {data : Nat} (len : Nat) (hl : Plain l)
    (hr : '\x00' ∉ r) (hmem : mem.drop data = l ++ '\n' :: (r ++ '\x00' :: junk)) :
    endOfLine mem data len = data + l.length := by
  have hnul : '\x00' ∉ l ++ '\n' :: r := by
    simp [hl.2, hr]
  have hcstr : cstr (mem.drop data) = l ++ '\n' :: r := by
    rw [hmem, ← List.cons_append, ← List.append_assoc, cstr_nul hnul]
  rw [endOfLine, hcstr, strchr_append hl.1]
  dsimp only
  rw [List.length_append, Nat.add_sub_cancel]

theorem endOfLine_open {mem l junk : Text} {data : Nat} (len : Nat) (hl : Plain l)
    (hmem : mem.drop data = l ++ '\x00' :: junk) : endOfLine mem data len = data + len := by
  have hnone : strchr l '\n' = none := by
    cases h : strchr l '\n' with
    | none => rfl
    | some p =>
      obtain ⟨t, r, -, -, hs⟩ := strchr_some h
      exact absurd (hs ▸ List.mem_append_right t List.mem_cons_self) hl.1
  rw [endOfLine, hmem, cstr_nul hl.2, hnone]

theorem body_noNul {ls : List Text} {rest : Text} (hls : ∀ l ∈ ls, Plain l) (hrest : Plain rest) :
    '\x00' ∉ PsOutput.body ls rest := by
  induction ls with
  | nil => exact hrest.2
  | cons l ls ih =>
    have hl := (hls l List.mem_cons_self).2
    have htail := ih fun x hx => hls x (List.mem_cons_of_mem _ hx)
    simp [PsOutput.body, hl, htail]

/-- One round of the loop. -/
theorem processLines_round {w : World} {mem : Text} (pid_end : Nat) {data len eol_pos : Nat}
    {mapping : List (BitVec 32 × Option Text)} (hs : Sound w mapping) (hlen : 1 < len)
    (heol : endOfLine mem data (len - 1) = eol_pos) :
    ∃ mapping', Sound w mapping' ∧ processLines w mem pid_end data len mapping =
      lineWrites mem pid_end data eol_pos
          (processField w (readPid (mem.drop (data + pid_end - 6)))) ::
        processLines w mem pid_end (eol_pos + 1) (len - 1 - (eol_pos - data)) mapping' := by
  have hres := resolveCtx_sound hs (extractCtx w (mem.drop (data + pid_end - 6)))
  refine ⟨_, hres.2, ?_⟩
  rw [processLines, if_pos hlen, heol]
  dsimp only
  rw [hres.1]
  rfl

/-- **The walk goes over the lines of the processes.** -/
theorem processLines_eq_groups {w : World} {mem rest junk : Text} {pid_end data : Nat}
    {ls : List Text} {mapping : List (BitVec 32 × Option Text)} (hs : Sound w mapping)
    (hls : ∀ l ∈ ls, Plain l) (hrest : Plain rest)
    (hmem : mem.drop data = PsOutput.body ls rest ++ '\x00' :: junk) :
    processLines w mem pid_end data ((PsOutput.body ls rest).length + 1) mapping =
      groups w mem pid_end data (PsOutput.allLines ls rest) := by
  induction ls generalizing data mapping with
  | nil =>
    by_cases hnil : rest = []
    · rw [processLines, PsOutput.allLines, if_pos hnil, PsOutput.body, hnil, if_neg (by decide)]
      rfl
    · -- the last line is open
      have hlen : 1 < rest.length + 1 := by
        have := List.length_pos_iff.2 hnil
        omega
      obtain ⟨mapping', -, hround⟩ := processLines_round pid_end hs hlen
        (endOfLine_open rest.length hrest hmem)
      rw [PsOutput.body, hround, PsOutput.allLines, if_neg hnil, List.nil_append, groups, groups,
        processLines, if_neg (by omega)]
  | cons l ls ih =>
    have hl := hls l List.mem_cons_self
    have htail : ∀ x ∈ ls, Plain x := fun x hx => hls x (List.mem_cons_of_mem _ hx)
    have hline : mem.drop data = l ++ '\n' :: (PsOutput.body ls rest ++ '\x00' :: junk) := by
      rw [hmem, PsOutput.body, List.append_assoc]
      rfl
    have hnext : mem.drop (data + l.length + 1) = PsOutput.body ls rest ++ '\x00' :: junk := by
      rw [Nat.add_assoc, ← List.drop_drop, hline, List.drop_length_add_append]
      rfl
    have hlen : (PsOutput.body (l :: ls) rest).length =
        l.length + 1 + (PsOutput.body ls rest).length := by
      rw [PsOutput.body, List.length_append, List.length_cons]
      omega
    have hlong : 1 < (PsOutput.body (l :: ls) rest).length + 1 := by omega
    obtain ⟨mapping', hs', hround⟩ := processLines_round pid_end hs hlong
      (endOfLine_line _ hl (body_noNul htail hrest) hline)
    have hleft : (PsOutput.body (l :: ls) rest).length + 1 - 1 - (data + l.length - data) =
        (PsOutput.body ls rest).length + 1 := by
      omega
    rw [hround, hleft, ih hs' htail hnext]
    rfl

/-- The lines are right, whatever the contexts are, just when they are legible. -/
theorem groups_ok_iff {pos column : Nat} {mem rest junk : Text} (hcol : pos + 3 ≤ column)
    {ls : List Text} {before : Text} {data : Nat} (hbefore : 2 ≤ before.length + pos)
    (hdata : before.length ≤ data)
    (hmem : mem.drop (data - before.length) =
      before ++ (PsOutput.body ls rest ++ '\x00' :: junk)) :
    (∀ w, List.Forall₂ (LineOk w column) (PsOutput.allLines ls rest)
      (groups w mem (pos + 4) data (PsOutput.allLines ls rest))) ↔
    Legible pos column before (PsOutput.allLines ls rest) := by
  induction ls generalizing before data with
  | nil =>
    by_cases hnil : rest = []
    · rw [PsOutput.allLines, if_pos hnil]
      exact iff_of_true (fun w => List.Forall₂.nil) trivial
    · rw [PsOutput.allLines, if_neg hnil, List.nil_append]
      have hone := lineOk_iff hcol hbefore hdata (c := '\x00') (by decide) hmem
      simp only [groups, List.forall₂_cons, List.forall₂_nil_left_iff, and_true, Legible]
      exact hone
  | cons l ls ih =>
    have hone := lineOk_iff hcol hbefore hdata (c := '\n') (by decide) (l := l)
      (r := PsOutput.body ls rest ++ '\x00' :: junk) (by
        rw [hmem, PsOutput.body, List.append_assoc]
        rfl)
    have hline : mem.drop data = l ++ '\n' :: (PsOutput.body ls rest ++ '\x00' :: junk) := by
      have hdrop := congrArg (List.drop before.length) hmem
      rw [List.drop_drop, List.drop_left, Nat.sub_add_cancel hdata, PsOutput.body,
        List.append_assoc] at hdrop
      exact hdrop
    have hnext : mem.drop (data + l.length + 1 - (l ++ ['\n']).length) =
        l ++ ['\n'] ++ (PsOutput.body ls rest ++ '\x00' :: junk) := by
      rw [List.length_append, List.length_singleton, Nat.add_assoc, Nat.add_sub_cancel, hline,
        List.append_assoc]
      rfl
    have hall : PsOutput.allLines (l :: ls) rest = l :: PsOutput.allLines ls rest := rfl
    have hsplit : (∀ w, List.Forall₂ (LineOk w column) (l :: PsOutput.allLines ls rest)
        (groups w mem (pos + 4) data (l :: PsOutput.allLines ls rest))) ↔
        (∀ w, LineOk w column l (lineWrites mem (pos + 4) data (data + l.length)
          (processField w (readPid (mem.drop (data + (pos + 4) - 6)))))) ∧
        ∀ w, List.Forall₂ (LineOk w column) (PsOutput.allLines ls rest)
          (groups w mem (pos + 4) (data + l.length + 1) (PsOutput.allLines ls rest)) := by
      simp only [groups, List.forall₂_cons, forall_and]
    rw [hall, hsplit, hone, Legible, and_assoc]
    refine and_congr_right fun hl => and_congr_right' ?_
    have hlen : (l ++ ['\n']).length = l.length + 1 := List.length_append
    exact ih (by omega) (by omega) hnext

/-! ## The whole output -/

theorem Plain.append {s t : Text} (hs : Plain s) (ht : Plain t) : Plain (s ++ t) :=
  ⟨fun h => (List.mem_append.1 h).elim hs.1 ht.1, fun h => (List.mem_append.1 h).elim hs.2 ht.2⟩

theorem PsOutput.header_plain (o : PsOutput) : Plain o.header :=
  o.before_plain.append (Plain.append ⟨by decide, by decide⟩ o.behind_plain)

/-- The buffer when the header is ended by a NUL. -/
def PsOutput.mem (o : PsOutput) (junk : Text) : Text :=
  o.header ++ '\x00' :: (PsOutput.body o.lines o.rest ++ '\x00' :: junk)

/-- The text `PID` is found in the header, not behind the column. -/
theorem PsOutput.pid_found (o : PsOutput) : ∃ p, strstr o.header "PID".toList = some p ∧
    o.header.length - p.length = o.pidPos ∧ o.pidPos + 3 ≤ o.column := by
  obtain ⟨p, hp⟩ := Option.isSome_iff_exists.1 (strstr_inside o.before "PID".toList o.behind)
  have hpos : o.header.length - p.length = o.pidPos := by
    rw [pidPos, header, hp]
    rfl
  refine ⟨p, hp, hpos, ?_⟩
  have hfirst := strstr_first hp
  rw [← hpos, header, column]
  simp only [List.length_append] at hfirst ⊢
  omega

/-- What is written for the output. -/
theorem processOutput_data (w : World) (o : PsOutput) (junk : Text) :
    processOutput w o.data junk =
      .done [Vwrite (o.mem junk) 0 (o.pidPos + 4 : Nat),
          Vwrite ("CONTEXT".toList ++ CONTEXT_PLACE) 0 CONTEXT_WIDTH,
          Vwrite (o.mem junk) (o.pidPos + 4) ((o.header.length : Int) - (o.pidPos + 4 : Nat)),
          writeText ['\n']]
        (groups w (o.mem junk) (o.pidPos + 4) (o.header.length + 1) o.processes) := by
  obtain ⟨p, hp, hpos, -⟩ := o.pid_found
  have hbody := body_noNul o.lines_plain o.rest_plain
  have hbuf : (o.data ++ '\x00' :: junk).drop 0 =
      o.header ++ '\n' :: (PsOutput.body o.lines o.rest ++ '\x00' :: junk) := by
    rw [List.drop_zero, PsOutput.data, List.append_assoc]
    rfl
  have heol : endOfLine (o.data ++ '\x00' :: junk) 0 o.data.length = o.header.length := by
    rw [endOfLine_line _ o.header_plain hbody hbuf, Nat.zero_add]
  have hdata : '\x00' ∉ o.data := by
    simp [PsOutput.data, o.header_plain.2, hbody]
  have hnewline : '\n' ∈ cstr (o.data ++ '\x00' :: junk) := by
    rw [cstr_nul hdata, PsOutput.data]
    exact List.mem_append_right _ List.mem_cons_self
  have hmem : (o.data ++ '\x00' :: junk).set o.header.length '\x00' = o.mem junk := by
    rw [List.drop_zero] at hbuf
    rw [hbuf, List.set_append_right _ _ le_rfl, Nat.sub_self]
    rfl
  have hcstr : cstr (o.mem junk) = o.header := cstr_nul o.header_plain.2 _
  have hlen : o.data.length - o.header.length = (PsOutput.body o.lines o.rest).length + 1 := by
    rw [PsOutput.data, List.length_append, Nat.add_sub_cancel_left, List.length_cons]
  have hlines : (o.mem junk).drop (o.header.length + 1) =
      PsOutput.body o.lines o.rest ++ '\x00' :: junk := List.drop_length_add_append 1
  rw [processOutput]
  dsimp only
  rw [heol, if_pos hnewline, hmem, hcstr, hp]
  dsimp only
  rw [hpos, hlen, processLines_eq_groups (fun _ h => absurd h List.not_mem_nil) o.lines_plain
    o.rest_plain hlines]
  rfl

/-- The output is annotated just when it fits. -/
theorem annotates_iff (o : PsOutput) : Annotates o ↔ Fits o := by
  obtain ⟨-, -, -, hcol⟩ := o.pid_found
  have hlines : ∀ junk, o.pidPos + 4 ≤ o.header.length →
      ((∀ w, List.Forall₂ (LineOk w o.column) o.processes
        (groups w (o.mem junk) (o.pidPos + 4) (o.header.length + 1) o.processes)) ↔
      Legible o.pidPos o.column (o.header ++ ['\x00']) o.processes) := by
    intro junk hhead
    have hlen : (o.header ++ ['\x00']).length = o.header.length + 1 := List.length_append
    have hmem : (o.mem junk).drop (o.header.length + 1 - (o.header ++ ['\x00']).length) =
        o.header ++ ['\x00'] ++ (PsOutput.body o.lines o.rest ++ '\x00' :: junk) := by
      rw [hlen, Nat.sub_self, List.drop_zero, PsOutput.mem, List.append_assoc]
      rfl
    exact groups_ok_iff hcol (by omega) (by omega) hmem
  constructor
  · intro h
    have hhead : o.pidPos + 4 ≤ o.header.length := by
      obtain ⟨header, lines, hrun, hlen, -⟩ := h (marking 0#32) []
      rw [processOutput_data] at hrun
      cases hrun
      have hlast := hlen (Vwrite (o.mem []) (o.pidPos + 4)
        ((o.header.length : Int) - (o.pidPos + 4 : Nat))) (by simp)
      exact Int.ofNat_le.1 (Int.le_of_sub_nonneg hlast)
    refine ⟨hhead, (hlines [] hhead).1 fun w => ?_⟩
    obtain ⟨header, lines, hrun, -, hok⟩ := h w []
    rw [processOutput_data] at hrun
    cases hrun
    exact hok
  · rintro ⟨hhead, hlegible⟩ w junk
    refine ⟨_, _, processOutput_data w o junk, ?_, (hlines junk hhead).2 hlegible w⟩
    rintro wr (_ | ⟨_, _ | ⟨_, _ | ⟨_, _ | ⟨_, ⟨⟩⟩⟩⟩⟩)
    · exact Int.natCast_nonneg _
    · decide
    · exact Int.sub_nonneg_of_le (Int.ofNat_le.2 hhead)
    · exact writeText_len _

/-- **The output is annotated just when the header and the lines go on behind the first text `PID`
and the ids are read from the fifth character in front of its end on.** -/
theorem processOutput_exact (o : PsOutput) : Annotates o ↔ Fits o := annotates_iff o

/-- A column with ids of seven digits. -/
def wideOutput : PsOutput where
  before := "    ".toList
  behind := " TTY          TIME CMD".toList
  lines := ["1234567 pts/0    00:00:00 bash".toList]
  rest := []
  column_apart := by decide
  before_plain := by decide
  behind_plain := by decide
  lines_plain := by simp; decide
  rest_plain := by decide

/-- The context of the process 34567 is shown for the process 1234567. -/
theorem processOutput_wrong : ¬ ∀ o, Annotates o := by
  intro h
  obtain ⟨-, -, hid, -⟩ := (annotates_iff wideOutput).1 (h wideOutput)
  have hread := hid 1234567 ⟨by decide, [], " pts/0    00:00:00 bash".toList, by decide, by decide,
    by decide, by decide⟩
  exact absurd hread (by decide)

/-! ## Ids in the first text `PID` -/

theorem atoi_numeral {ds r : Text} (hd : Numeral ds) (hr : Ends r) (hlt : digitsVal 10 ds < 2 ^ 31) :
    atoi (ds ++ r) = BitVec.ofNat 32 (digitsVal 10 ds) := by
  have hclamp : clamp 64 (digitsVal 10 ds) = digitsVal 10 ds := by
    unfold clamp
    omega
  rw [atoi, strtol10_numeral hd hr, hclamp, BitVec.ofInt_natCast]

theorem Apart.ends {before behind : Text} (h : Apart before behind) : Ends behind := by
  rcases h.2 with rfl | hhead
  · rfl
  · cases behind with
    | nil => rfl
    | cons c behind =>
      cases hhead
      exact ends_cons (by decide) behind

/-- **In a column of its own, an id is read when it starts at the fifth character in front of the
column's end or later, and white space or the same number stands in front of it.** -/
theorem reads_standing {pos n : Nat} {a b : Text} (hn : n < 2 ^ 31) (hpos : 2 ≤ pos)
    (hapart : Apart a b) (hstart : a.length < pos + 3)
    (hend : pos + 3 ≤ a.length + (decimal n).length) :
    atoi ((a ++ (decimal n ++ b)).drop (pos - 2)) = BitVec.ofNat 32 n ↔
      pos - 2 ≤ a.length ∧
        ((a.drop (pos - 2)).all isspace = true ∨ atoi (a.drop (pos - 2)) = BitVec.ofNat 32 n) := by
  have hnum := numeral_decimal n
  have hval := digitsVal_decimal n
  by_cases hfive : pos - 2 ≤ a.length
  · rw [List.drop_append_of_le_length (by omega)]
    by_cases hspace : (a.drop (pos - 2)).all isspace = true
    · have hread := atoi_numeral hnum hapart.ends (by omega)
      rw [hval] at hread
      rw [atoi_skip hspace, hread]
      exact iff_of_true rfl ⟨hfive, .inl hspace⟩
    · -- the text in front of the id ends with a blank
      have hne : a.drop (pos - 2) ≠ [] := fun hnil => hspace (by rw [hnil]; rfl)
      have hlast : a.getLast? = some ' ' :=
        hapart.1.resolve_left fun hnil => hne (by rw [hnil, List.drop_nil])
      obtain ⟨pre, hpre⟩ : ∃ pre, a.drop (pos - 2) = pre ++ [' '] := by
        refine ⟨_, (List.dropLast_append_getLast? _ ?_).symm⟩
        rw [List.getLast?_drop, if_neg (by have := List.drop_eq_nil_iff.not.1 hne; omega), hlast]
        exact rfl
      have hthere : ∃ x ∈ pre, isspace x = false := by
        by_contra hall
        refine hspace (List.all_eq_true.2 fun x hx => ?_)
        rw [hpre] at hx
        rcases List.mem_append.1 hx with hx | hx
        · by_contra hx'
          exact hall ⟨x, hx, by simpa using hx'⟩
        · rw [List.mem_singleton.1 hx]
          decide
      have hstop := atoi_stop (s := pre) (c := ' ') (by decide) hthere
      rw [hpre, List.append_assoc, List.singleton_append, hstop, hstop []]
      simp only [hfive, true_and, ← hpre, hspace, Bool.false_eq_true, false_or]
  · -- the first digits are left out
    obtain ⟨k, hk⟩ : ∃ k, k = pos - 2 - a.length := ⟨_, rfl⟩
    have hdrop : (a ++ (decimal n ++ b)).drop (pos - 2) = (decimal n).drop k ++ b := by
      rw [List.drop_append, List.drop_eq_nil_of_le (by omega), List.nil_append, ← hk,
        List.drop_append_of_le_length (by omega)]
    have hall : ((decimal n).drop k).all (isDigitIn 10) = true :=
      List.all_eq_true.2 fun c hc => List.all_eq_true.1 hnum.2 c (List.mem_of_mem_drop hc)
    have hnum' : Numeral ((decimal n).drop k) := by
      refine ⟨List.ne_nil_of_length_pos ?_, hall⟩
      rw [List.length_drop]
      omega
    have hshort : 10 ^ ((decimal n).drop k).length ≤ 10 ^ ((decimal n).length - 1) := by
      refine Nat.pow_le_pow_right (by decide) ?_
      rw [List.length_drop]
      omega
    have hbig : 10 ^ ((decimal n).length - 1) ≤ n := by
      by_contra hlt
      have hle := decimal_length_le (n := n) (w := (decimal n).length - 1) (by omega) (by omega)
      omega
    have hlt := digitsVal_lt hall
    rw [hdrop, atoi_numeral hnum' hapart.ends (by omega)]
    refine iff_of_false (fun heq => ?_) fun h => hfive h.1
    have hnat := congrArg BitVec.toNat heq
    rw [BitVec.toNat_ofNat, BitVec.toNat_ofNat, Nat.mod_eq_of_lt (by omega),
      Nat.mod_eq_of_lt (by omega)] at hnat
    omega

end VpsOutput
