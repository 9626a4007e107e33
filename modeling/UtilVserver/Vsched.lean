import UtilVserver.IsNumber

/-!
# `vsched` (`src/vsched.c`)

The settings of the scheduler are given as options, or as the files of a directory.  Each way has
a table of its own.

* `Sched` — `struct vc_set_sched`.
* `option`, `doDirEntry` — the two readers; `doDir` and `main` call them.
* `Setting`, `Given` — the settings, and a number of them given both ways.
* `Refused`, `Exact` — the condition.

Principal result: `vsched_agree`.
-/

set_option autoImplicit false

namespace Vsched

open CString IsNumber

abbrev Mask := BitVec 32
abbrev Xid := BitVec 32

def VC_NOCTX : Xid := ~~~0

def VC_VXSM_FILL_RATE : Mask := 0x0001
def VC_VXSM_INTERVAL : Mask := 0x0002
def VC_VXSM_FILL_RATE2 : Mask := 0x0004
def VC_VXSM_INTERVAL2 : Mask := 0x0008
def VC_VXSM_TOKENS : Mask := 0x0010
def VC_VXSM_TOKENS_MIN : Mask := 0x0020
def VC_VXSM_TOKENS_MAX : Mask := 0x0040
def VC_VXSM_PRIO_BIAS : Mask := 0x0100
def VC_VXSM_CPU_ID : Mask := 0x1000
def VC_VXSM_BUCKET_ID : Mask := 0x2000
def VC_VXSM_IDLE_TIME : Mask := 0x0200
def VC_VXSM_FORCE : Mask := 0x0400

/-- The fields of the record besides its mask. -/
inductive Attr where
  | fill_rate | interval | fill_rate2 | interval2 | tokens | tokens_min | tokens_max
  | priority_bias | cpu_id | bucket_id
  deriving DecidableEq

/-- `struct vc_set_sched`. -/
structure Sched where
  set_mask : Mask
  attr : Attr → BitVec 32

/-- `sched->ATTR = val; sched->set_mask |= MASK`.  The field has 32 bits. -/
def Sched.set (sched : Sched) (attr : Attr) (val : Int) (mask : Mask) : Sched :=
  ⟨sched.set_mask ||| mask, fun a => if a = attr then BitVec.ofInt 32 val else sched.attr a⟩

/-! ## The directory -/

/-- `struct sched_opt`; the offset is none where it is the one of `set_mask`. -/
structure SchedOpt where
  name : String
  mask : Mask
  offset : Option Attr

def FILE_OPTIONS : List SchedOpt :=
  [⟨"fill-rate", VC_VXSM_FILL_RATE, some .fill_rate⟩,
   ⟨"interval", VC_VXSM_INTERVAL, some .interval⟩,
   ⟨"tokens", VC_VXSM_TOKENS, some .tokens⟩,
   ⟨"tokens-min", VC_VXSM_TOKENS_MIN, some .tokens_min⟩,
   ⟨"tokens-max", VC_VXSM_TOKENS_MAX, some .tokens_max⟩,
   ⟨"prio-bias", VC_VXSM_PRIO_BIAS, some .priority_bias⟩,
   ⟨"priority-bias", VC_VXSM_PRIO_BIAS, some .priority_bias⟩,
   ⟨"fill-rate2", VC_VXSM_FILL_RATE2 ||| VC_VXSM_IDLE_TIME, some .fill_rate2⟩,
   ⟨"interval2", VC_VXSM_INTERVAL2 ||| VC_VXSM_IDLE_TIME, some .interval2⟩,
   ⟨"cpu-id", VC_VXSM_CPU_ID, some .cpu_id⟩,
   ⟨"bucket-id", VC_VXSM_BUCKET_ID, some .bucket_id⟩,
   ⟨"idle-time", VC_VXSM_IDLE_TIME, none⟩]

/-- What is in `buf` when the file has been read: the first line in the first 127 bytes. -/
def fileText (content : Text) : Text :=
  ((content.take 127).takeWhile (· ≠ '\x00')).takeWhile (· ≠ '\n')

/-- `do_dir_entry`.  An error is an exit status. -/
def doDirEntry (sched : Sched) (name : String) (content : Text) : Except Nat Sched :=
  match FILE_OPTIONS.find? fun opt => name == opt.name with
  | none => .ok sched
  | some opt =>
    match opt.offset with
    | none => .ok { sched with set_mask := sched.set_mask ||| opt.mask }
    | some attr =>
      match isNumber (fileText content) true with
      | none => .error 1
      | some val => .ok (sched.set attr val opt.mask)

/-- An entry of a directory below the given one: a file with its content, or a directory. -/
abbrev SubEntry := String × Option Text

/-- What a name stands for: a file, or the directory of a cpu. -/
inductive Node where
  | file (content : Text)
  | dir (entries : List SubEntry)

def Node.content : Node → Option Text
  | .file content => some content
  | .dir _ => none

def isDot (name : String) : Bool := name == "." || name == ".."

/-- The body of the first loop of `do_dir`. -/
def entry (sched : Sched) (e : SubEntry) : Except Nat Sched :=
  if isDot e.1 then .ok sched
  else
    match e.2 with
    | none => .ok sched
    | some content => doDirEntry sched e.1 content

/-- What a run does: the records passed to `vc_set_sched`, and the exit status; none when it goes
on with the command. -/
structure Run where
  calls : List (Xid × Sched)
  exit : Option Nat

/-- The system: the name of a context, the own context, directories, the kernel, and what an
uninitialised record holds. -/
structure System where
  xidopt2xid : Text → Option Xid
  getTaskXid : Option Xid
  directory : Text → Option (List (String × Node))
  vcSetSched : Xid → Sched → Bool
  stack : Attr → BitVec 32

variable (sys : System)

/-- The directories of the cpus, one after the other.  Their record keeps its fields. -/
def perCpu (xid : Xid) (mask : Mask) : (Attr → BitVec 32) → List (List SubEntry) → Run
  | _, [] => ⟨[], none⟩
  | fields, sub :: subs =>
    match sub.foldlM entry ⟨mask, fields⟩ with
    | .error code => ⟨[], some code⟩
    | .ok r =>
      if sys.vcSetSched xid r = false then ⟨[(xid, r)], some 1⟩
      else
        let rest := perCpu xid mask r.attr subs
        ⟨(xid, r) :: rest.calls, rest.exit⟩

/-- The directories among the entries. -/
def subDir (e : String × Node) : Option (List SubEntry) :=
  match e.2 with
  | .file _ => none
  | .dir entries => if isDot e.1 then none else some entries

/-- `do_dir` for the given directory. -/
def doDir (xid : Xid) (sched : Sched) (entries : List (String × Node)) : Run :=
  match (entries.map fun e => (e.1, e.2.content)).foldlM entry sched with
  | .error code => ⟨[], some code⟩
  | .ok r =>
    if sys.vcSetSched xid r = false then ⟨[(xid, r)], some 1⟩
    else
      let rest := perCpu sys xid (r.set_mask &&& (VC_VXSM_IDLE_TIME ||| VC_VXSM_FORCE)) sys.stack
        (entries.filterMap subDir)
      ⟨(xid, r) :: rest.calls, rest.exit⟩

/-! ## The options -/

inductive Cmd where
  | help | version | xid | frate | interval | tokens | tokMin | tokMax | cpuMask | prioBias
  | frate2 | interval2 | cpuid | bucketid | force | idleTime | dir | missing
  deriving DecidableEq

def CMDLINE_OPTIONS : List (String × Cmd) :=
  [("help", .help), ("version", .version), ("ctx", .xid), ("xid", .xid), ("fill-rate", .frate),
   ("interval", .interval), ("tokens", .tokens), ("tokens_min", .tokMin), ("tokens-min", .tokMin),
   ("tokens_max", .tokMax), ("tokens-max", .tokMax), ("prio_bias", .prioBias),
   ("prio-bias", .prioBias), ("priority_bias", .prioBias), ("priority-bias", .prioBias),
   ("cpu_mask", .cpuMask), ("fill-rate2", .frate2), ("interval2", .interval2), ("cpu-id", .cpuid),
   ("bucket-id", .bucketid), ("force", .force), ("idle-time", .idleTime), ("dir", .dir),
   ("missingok", .missing)]

/-- The variables of `main`. -/
structure State where
  xid : Xid
  sched : Sched
  dir : Option Text
  missing_ok : Bool

def wrapper_exit_code : Nat := 255

/-- `SETVAL`. -/
def setval (st : State) (attr : Attr) (mask : Mask) (optarg : Text) : Except Nat State :=
  match isNumber optarg false with
  | none => .error wrapper_exit_code
  | some tmp => .ok { st with sched := st.sched.set attr tmp mask }

/-- An option of the command line, with its name written out. -/
def option (st : State) (opt : String × Text) : Except Nat State :=
  match CMDLINE_OPTIONS.lookup opt.1 with
  | some .help => .error 0
  | some .version => .error 0
  | some .xid =>
    match sys.xidopt2xid opt.2 with
    | none => .error wrapper_exit_code
    | some xid => .ok { st with xid := xid }
  | some .frate => setval st .fill_rate VC_VXSM_FILL_RATE opt.2
  | some .interval => setval st .interval VC_VXSM_INTERVAL opt.2
  | some .tokens => setval st .tokens VC_VXSM_TOKENS opt.2
  | some .tokMin => setval st .tokens_min VC_VXSM_TOKENS_MIN opt.2
  | some .tokMax => setval st .tokens_max VC_VXSM_TOKENS_MAX opt.2
  | some .prioBias => setval st .priority_bias VC_VXSM_PRIO_BIAS opt.2
  | some .cpuMask => .ok st
  | some .frate2 => setval st .fill_rate2 VC_VXSM_FILL_RATE2 opt.2
  | some .interval2 => setval st .interval2 VC_VXSM_INTERVAL2 opt.2
  | some .cpuid => setval st .cpu_id VC_VXSM_CPU_ID opt.2
  | some .bucketid => setval st .bucket_id VC_VXSM_BUCKET_ID opt.2
  | some .dir => .ok { st with dir := some opt.2 }
  | some .missing => .ok { st with missing_ok := true }
  | some .force =>
    .ok { st with sched := { st.sched with set_mask := st.sched.set_mask ||| VC_VXSM_FORCE } }
  | some .idleTime =>
    .ok { st with sched := { st.sched with set_mask := st.sched.set_mask ||| VC_VXSM_IDLE_TIME } }
  | none => .error 1

def start : State := ⟨VC_NOCTX, ⟨0, fun _ => 0⟩, none, false⟩

def main (options : List (String × Text)) (command : List Text) : Run :=
  match options.foldlM (option sys) start with
  | .error code => ⟨[], some code⟩
  | .ok st =>
    if st.xid = VC_NOCTX ∧ command = [] then ⟨[], some wrapper_exit_code⟩
    else if st.sched.set_mask = 0 ∧ st.dir = none ∧ command = [] then ⟨[], some wrapper_exit_code⟩
    else
      match if st.xid = VC_NOCTX then sys.getTaskXid else some st.xid with
      | none => ⟨[], some wrapper_exit_code⟩
      | some xid =>
        match st.dir with
        | some dir =>
          match sys.directory dir with
          | some entries => doDir sys xid st.sched entries
          | none => ⟨[], if st.missing_ok then none else some wrapper_exit_code⟩
        | none =>
          if st.sched.set_mask ≠ 0 ∧ st.sched.set_mask ≠ VC_VXSM_FORCE then
            ⟨[(xid, st.sched)], if sys.vcSetSched xid st.sched then none else some 255⟩
          else ⟨[], none⟩

/-! ## Settings -/

inductive Setting where
  | fill_rate | interval | tokens | tokens_min | tokens_max | prio_bias | fill_rate2 | interval2
  | cpu_id | bucket_id | idle_time
  deriving DecidableEq

namespace Setting

/-- The name of the option and of the file. -/
def name : Setting → String
  | fill_rate => "fill-rate"
  | interval => "interval"
  | tokens => "tokens"
  | tokens_min => "tokens-min"
  | tokens_max => "tokens-max"
  | prio_bias => "prio-bias"
  | fill_rate2 => "fill-rate2"
  | interval2 => "interval2"
  | cpu_id => "cpu-id"
  | bucket_id => "bucket-id"
  | idle_time => "idle-time"

/-- The field of a setting that has a value. -/
def attr : Setting → Option Attr
  | fill_rate => some .fill_rate
  | interval => some .interval
  | tokens => some .tokens
  | tokens_min => some .tokens_min
  | tokens_max => some .tokens_max
  | prio_bias => some .priority_bias
  | fill_rate2 => some .fill_rate2
  | interval2 => some .interval2
  | cpu_id => some .cpu_id
  | bucket_id => some .bucket_id
  | idle_time => none

/-- The bit of a setting. -/
def mask : Setting → Mask
  | fill_rate => VC_VXSM_FILL_RATE
  | interval => VC_VXSM_INTERVAL
  | tokens => VC_VXSM_TOKENS
  | tokens_min => VC_VXSM_TOKENS_MIN
  | tokens_max => VC_VXSM_TOKENS_MAX
  | prio_bias => VC_VXSM_PRIO_BIAS
  | fill_rate2 => VC_VXSM_FILL_RATE2
  | interval2 => VC_VXSM_INTERVAL2
  | cpu_id => VC_VXSM_CPU_ID
  | bucket_id => VC_VXSM_BUCKET_ID
  | idle_time => VC_VXSM_IDLE_TIME

/-- The bits that its file sets. -/
def fileMask (s : Setting) : Mask :=
  if s = fill_rate2 ∨ s = interval2 then s.mask ||| VC_VXSM_IDLE_TIME else s.mask

def all : List Setting :=
  [fill_rate, interval, tokens, tokens_min, tokens_max, prio_bias, fill_rate2, interval2, cpu_id,
    bucket_id, idle_time]

def ofName (name : String) : Option Setting := all.find? fun s => name == s.name

end Setting

/-- Settings that are given both ways: as options behind or in front of `--xid`, and as the files
of a directory, whose content goes on behind the first line or ends there. -/
structure Given where
  settings : List Setting
  nodup : settings.Nodup
  value : Setting → Text
  noNul : ∀ s, '\x00' ∉ value s
  xid : Text
  ctx : Xid
  xid_ok : sys.xidopt2xid xid = some ctx ∧ ctx ≠ VC_NOCTX
  command : List Text
  options : List (String × Text)
  options_perm : options.Perm (("xid", xid) :: settings.map fun s => (s.name, value s))
  dir : Text
  rest : Setting → Text
  rest_line : ∀ s, rest s = [] ∨ (rest s).head? = some '\n'
  entries : List (String × Node)
  entries_perm : entries.Perm
    ((".", .dir []) :: ("..", .dir []) ::
      settings.map fun s => (s.name, .file (value s ++ rest s)))
  directory_ok : sys.directory dir = some entries

variable {sys}

namespace Given

def byOptions (g : Given sys) : Run := main sys g.options g.command

def byDirectory (g : Given sys) : Run := main sys [("xid", g.xid), ("dir", g.dir)] g.command

end Given

/-- The program ends with an error and without a call. -/
def Run.Rejects (r : Run) : Prop := r.calls = [] ∧ ∃ code, r.exit = some code ∧ code ≠ 0

/-- The bit that selects a field. -/
def Attr.mask : Attr → Mask
  | .fill_rate => VC_VXSM_FILL_RATE
  | .interval => VC_VXSM_INTERVAL
  | .fill_rate2 => VC_VXSM_FILL_RATE2
  | .interval2 => VC_VXSM_INTERVAL2
  | .tokens => VC_VXSM_TOKENS
  | .tokens_min => VC_VXSM_TOKENS_MIN
  | .tokens_max => VC_VXSM_TOKENS_MAX
  | .priority_bias => VC_VXSM_PRIO_BIAS
  | .cpu_id => VC_VXSM_CPU_ID
  | .bucket_id => VC_VXSM_BUCKET_ID

/-- Both ways are rejected, or lead to the same record with the numbers that the values denote. -/
def Agree (g : Given sys) : Prop :=
  (g.byOptions.Rejects ∧ g.byDirectory.Rejects) ∨
  ∃ a b : Sched,
    g.byOptions.calls = [(g.ctx, a)] ∧ g.byDirectory.calls = [(g.ctx, b)] ∧
    a.set_mask = b.set_mask ∧
    (∀ f, a.set_mask &&& f.mask ≠ 0 → a.attr f = b.attr f) ∧
    ∀ s ∈ g.settings, ∀ f, s.attr = some f →
      ∃ v, number (g.value s) = some v ∧ (a.attr f).toInt = v ∧ (b.attr f).toInt = v

/-- Each way has a value that it does not accept. -/
def Refused (g : Given sys) : Prop :=
  (∃ s ∈ g.settings, s.attr ≠ none ∧ isNumber (g.value s) false = none) ∧
  ∃ s ∈ g.settings, s.attr ≠ none ∧ isNumber (fileText (g.value s)) true = none

/-- There are settings.  Each value is a number of 32 bits, and what is read of it from a file is
the same number up to the bits that are kept, without a factor.  And who sets a second rate or a
second interval sets the idle time too. -/
def Exact (g : Given sys) : Prop :=
  g.settings ≠ [] ∧
  (∀ s ∈ g.settings, s.attr ≠ none → ∃ v, number (g.value s) = some v ∧
    (-(2 ^ 31) ≤ v ∧ v < 2 ^ 31) ∧
    ∃ w, isNumber (fileText (g.value s)) true = some w ∧ BitVec.ofInt 32 w = BitVec.ofInt 32 v) ∧
  (.fill_rate2 ∈ g.settings ∨ .interval2 ∈ g.settings → .idle_time ∈ g.settings)

/-! ## Both readers as one -/

/-- What a setting does to the record, for a reader with its bits and its numbers. -/
def assign (code : Nat) (read : Setting → Option Int) (mask : Setting → Mask) (sched : Sched)
    (s : Setting) : Except Nat Sched :=
  match s.attr with
  | none => .ok { sched with set_mask := sched.set_mask ||| mask s }
  | some attr =>
    match read s with
    | none => .error code
    | some val => .ok (sched.set attr val (mask s))

/-- The options read a value. -/
def Given.optionRead (g : Given sys) (s : Setting) : Option Int := isNumber (g.value s) false

/-- The files read a value. -/
def Given.fileRead (g : Given sys) (s : Setting) : Option Int :=
  isNumber (fileText (g.value s)) true

theorem takeWhile_take_append {t r : Text} {n : Nat} {p : Char → Bool}
    (hr : r = [] ∨ ∃ c, r.head? = some c ∧ p c = false) :
    ((t ++ r).take n).takeWhile p = (t.take n).takeWhile p := by
  induction t generalizing n with
  | nil =>
    rcases hr with rfl | ⟨c, hc, hp⟩
    · rfl
    · obtain ⟨r, rfl⟩ := List.head?_eq_some_iff.1 hc
      cases n with
      | zero => rfl
      | succ n => simp [hp]
  | cons c t ih =>
    cases n with
    | zero => rfl
    | succ n =>
      rw [List.cons_append, List.take_succ_cons, List.take_succ_cons, List.takeWhile_cons,
        List.takeWhile_cons, ih]

theorem takeWhile_takeWhile (p q : Char → Bool) (t : Text) :
    (t.takeWhile p).takeWhile q = t.takeWhile fun c => p c && q c := by
  induction t with
  | nil => rfl
  | cons c t ih =>
    rw [List.takeWhile_cons, List.takeWhile_cons]
    cases hp : p c with
    | false => simp
    | true =>
      rw [if_pos rfl, List.takeWhile_cons, ih]
      simp

/-- What follows the first line is not read. -/
theorem fileText_append (t : Text) {r : Text} (hr : r = [] ∨ r.head? = some '\n') :
    fileText (t ++ r) = fileText t := by
  unfold fileText
  rw [takeWhile_takeWhile, takeWhile_takeWhile]
  refine takeWhile_take_append (hr.imp_right fun h => ⟨'\n', h, by simp⟩)

theorem lookup_name (s : Setting) : FILE_OPTIONS.find? (fun opt => s.name == opt.name) =
    some ⟨s.name, s.fileMask, s.attr⟩ := by
  cases s <;> rfl

theorem isDot_name (s : Setting) : isDot s.name = false := by
  cases s <;> rfl

/-- **A file of the directory.** -/
theorem entry_setting (g : Given sys) (s : Setting) (sched : Sched) :
    entry sched (s.name, some (g.value s ++ g.rest s)) =
      assign 1 g.fileRead Setting.fileMask sched s := by
  unfold entry doDirEntry assign Given.fileRead
  rw [isDot_name, if_neg (by decide)]
  dsimp only
  rw [lookup_name, fileText_append _ (g.rest_line s)]

/-- **An option of the command line.** -/
theorem option_setting (g : Given sys) (s : Setting) (st : State) :
    option sys st (s.name, g.value s) =
      (assign 255 g.optionRead Setting.mask st.sched s).map fun sched =>
        { st with sched := sched } := by
  have hval : ∀ (attr : Attr) (mask : Mask), setval st attr mask (g.value s) =
      (match isNumber (g.value s) false with
        | none => Except.error 255
        | some val => Except.ok (st.sched.set attr val mask)).map fun sched =>
          { st with sched := sched } := by
    intro attr mask
    unfold setval
    cases isNumber (g.value s) false <;> rfl
  cases s
  case idle_time => rfl
  all_goals exact hval _ _

/-! ## All settings -/

/-- The values that have to be numbers are. -/
def Accepts (read : Setting → Option Int) (l : List Setting) : Prop :=
  ∀ s ∈ l, s.attr ≠ none → read s ≠ none

/-- The record when the settings of a list have been done. -/
structure Filled (read : Setting → Option Int) (mask : Setting → Mask) (l : List Setting)
    (sched r : Sched) : Prop where
  bits : ∀ i, r.set_mask.getLsbD i =
    (sched.set_mask.getLsbD i || l.any fun s => (mask s).getLsbD i)
  value : ∀ s ∈ l, ∀ f, s.attr = some f → ∃ v, read s = some v ∧ r.attr f = BitVec.ofInt 32 v
  other : ∀ f, (∀ s ∈ l, s.attr ≠ some f) → r.attr f = sched.attr f

theorem Setting.attr_injective {s t : Setting} {f : Attr} (hs : s.attr = some f)
    (ht : t.attr = some f) : s = t := by
  cases s <;> cases t <;> first | rfl | (simp only [attr] at hs ht; rw [← hs] at ht; cases ht)

/-- One setting. -/
theorem assign_ok (code : Nat) {read : Setting → Option Int} (mask : Setting → Mask)
    {s : Setting} (h : s.attr ≠ none → read s ≠ none) (sched : Sched) :
    ∃ r, assign code read mask sched s = .ok r ∧ Filled read mask [s] sched r := by
  unfold assign
  cases hattr : s.attr with
  | none =>
    refine ⟨_, rfl, ⟨fun i => by simp, fun t ht f hf => ?_, fun f _ => rfl⟩⟩
    rw [List.mem_singleton.1 ht, hattr] at hf
    cases hf
  | some a =>
    obtain ⟨v, hv⟩ := Option.ne_none_iff_exists'.1 (h (by rw [hattr]; exact Option.some_ne_none a))
    rw [hv]
    refine ⟨_, rfl, ⟨fun i => by simp [Sched.set], fun t ht f hf => ?_, fun f hf => ?_⟩⟩
    · rw [List.mem_singleton.1 ht] at hf ⊢
      rw [hattr] at hf
      exact ⟨v, hv, if_pos (Option.some.inj hf).symm⟩
    · refine if_neg fun h => hf s (List.mem_singleton.2 rfl) ?_
      rw [hattr, h]

/-- **The settings one after the other**: all are done when the values are accepted. -/
theorem foldlM_assign (code : Nat) {read : Setting → Option Int} (mask : Setting → Mask) :
    ∀ {l : List Setting} (sched : Sched), l.Nodup → Accepts read l →
      ∃ r, l.foldlM (assign code read mask) sched = .ok r ∧ Filled read mask l sched r
  | [], sched, _, _ => ⟨sched, rfl, ⟨fun i => by simp, fun s hs => absurd hs List.not_mem_nil,
      fun _ _ => rfl⟩⟩
  | s :: l, sched, hnodup, h => by
    obtain ⟨hs, hl⟩ := List.nodup_cons.1 hnodup
    obtain ⟨r₁, hstep, h₁⟩ := assign_ok code mask
      (h s List.mem_cons_self) sched
    obtain ⟨r, hrest, h₂⟩ := foldlM_assign code mask r₁ hl
      fun t ht => h t (List.mem_cons_of_mem s ht)
    refine ⟨r, ?_, ⟨fun i => ?_, fun t ht f hf => ?_, fun f hf => ?_⟩⟩
    · rw [List.foldlM_cons, hstep]
      exact hrest
    · rw [h₂.bits, h₁.bits]
      simp [Bool.or_assoc]
    · rcases List.mem_cons.1 ht with rfl | ht
      · obtain ⟨v, hv, hr⟩ := h₁.value t (List.mem_singleton.2 rfl) f hf
        refine ⟨v, hv, ?_⟩
        rw [← hr]
        refine h₂.other f fun u hu hfu => hs ?_
        rw [Setting.attr_injective hf hfu]
        exact hu
      · exact h₂.value t ht f hf
    · rw [h₂.other f fun t ht => hf t (List.mem_cons_of_mem s ht)]
      refine h₁.other f fun t ht => ?_
      rw [List.mem_singleton.1 ht]
      exact hf s List.mem_cons_self

theorem foldlM_assign_error {code : Nat} {read : Setting → Option Int} {mask : Setting → Mask} :
    ∀ {l : List Setting} (sched : Sched), ¬ Accepts read l →
      l.foldlM (assign code read mask) sched = .error code
  | [], _, h => absurd (fun s hs => absurd hs List.not_mem_nil) h
  | s :: l, sched, h => by
    rw [List.foldlM_cons]
    by_cases hs : s.attr ≠ none → read s ≠ none
    · obtain ⟨r₁, hstep, -⟩ := assign_ok code mask hs sched
      rw [hstep]
      refine foldlM_assign_error r₁ fun hl => h fun t ht => ?_
      rcases List.mem_cons.1 ht with rfl | ht
      · exact hs
      · exact hl t ht
    · obtain ⟨hattr, hread⟩ := Classical.not_imp.1 hs
      obtain ⟨a, ha⟩ := Option.ne_none_iff_exists'.1 hattr
      have hstep : assign code read mask sched s = .error code := by
        unfold assign
        rw [ha, not_ne_iff.1 hread]
      rw [hstep]
      rfl

theorem Accepts.perm {read : Setting → Option Int} {l l' : List Setting} (hp : l.Perm l') :
    Accepts read l ↔ Accepts read l' := by
  unfold Accepts
  simp only [hp.mem_iff]

theorem Filled.perm {read : Setting → Option Int} {mask : Setting → Mask} {l l' : List Setting}
    {sched r : Sched} (hp : l.Perm l') (h : Filled read mask l sched r) :
    Filled read mask l' sched r := by
  refine ⟨fun i => ?_, fun s hs => h.value s (hp.mem_iff.2 hs),
    fun f hf => h.other f fun s hs => hf s (hp.mem_iff.1 hs)⟩
  rw [h.bits, hp.any_eq]

/-! ## The two runs -/

theorem ofName_name (s : Setting) : Setting.ofName s.name = some s := by
  cases s <;> rfl

theorem filterMap_cons_setting {α : Type} (s : Setting) (x : α) (l : List (String × α)) :
    ((s.name, x) :: l).filterMap (fun e => Setting.ofName e.1) =
      s :: l.filterMap fun e => Setting.ofName e.1 :=
  List.filterMap_cons_some (ofName_name s)

theorem filterMap_ofName {α : Type} (l : List Setting) (f : Setting → α) :
    (l.map fun s => (s.name, f s)).filterMap (fun e => Setting.ofName e.1) = l := by
  induction l with
  | nil => rfl
  | cons s l ih => rw [List.map_cons, filterMap_cons_setting, ih]

/-- The settings in the order of the directory. -/
def Given.fileOrder (g : Given sys) : List Setting :=
  g.entries.filterMap fun e => Setting.ofName e.1

/-- The settings in the order of the options. -/
def Given.optionOrder (g : Given sys) : List Setting :=
  g.options.filterMap fun o => Setting.ofName o.1

theorem fileOrder_perm (g : Given sys) : g.fileOrder.Perm g.settings := by
  have h := g.entries_perm.filterMap fun e => Setting.ofName e.1
  rw [List.filterMap_cons_none rfl, List.filterMap_cons_none rfl, filterMap_ofName] at h
  exact h

theorem optionOrder_perm (g : Given sys) : g.optionOrder.Perm g.settings := by
  have h := g.options_perm.filterMap fun o => Setting.ofName o.1
  rw [List.filterMap_cons_none rfl, filterMap_ofName] at h
  exact h

theorem mem_entries (g : Given sys) {e : String × Node} (he : e ∈ g.entries) :
    e = (".", .dir []) ∨ e = ("..", .dir []) ∨
      ∃ s, e = (s.name, .file (g.value s ++ g.rest s)) := by
  rcases List.mem_cons.1 (g.entries_perm.mem_iff.1 he) with rfl | he
  · exact Or.inl rfl
  rcases List.mem_cons.1 he with rfl | he
  · exact Or.inr (Or.inl rfl)
  · obtain ⟨s, -, rfl⟩ := List.mem_map.1 he
    exact Or.inr (Or.inr ⟨s, rfl⟩)

theorem mem_options (g : Given sys) {o : String × Text} (ho : o ∈ g.options) :
    o = ("xid", g.xid) ∨ ∃ s, o = (s.name, g.value s) := by
  rcases List.mem_cons.1 (g.options_perm.mem_iff.1 ho) with rfl | ho
  · exact Or.inl rfl
  · obtain ⟨s, -, rfl⟩ := List.mem_map.1 ho
    exact Or.inr ⟨s, rfl⟩

theorem subDir_entries (g : Given sys) : g.entries.filterMap subDir = [] := by
  rw [List.filterMap_eq_nil_iff]
  intro e he
  rcases mem_entries g he with rfl | rfl | ⟨s, rfl⟩ <;> rfl

theorem foldlM_entry (g : Given sys) (sched : Sched) :
    (g.entries.map fun e => (e.1, e.2.content)).foldlM entry sched =
      g.fileOrder.foldlM (assign 1 g.fileRead Setting.fileMask) sched := by
  have hall : ∀ (l : List (String × Node)) (sched : Sched), (∀ e ∈ l, e ∈ g.entries) →
      (l.map fun e => (e.1, e.2.content)).foldlM entry sched =
        (l.filterMap fun e => Setting.ofName e.1).foldlM
          (assign 1 g.fileRead Setting.fileMask) sched := by
    intro l
    induction l with
    | nil => intro _ _; rfl
    | cons e l ih =>
      intro sched hl
      have ih := fun sched => ih sched fun x hx => hl x (List.mem_cons_of_mem e hx)
      rcases mem_entries g (hl e List.mem_cons_self) with rfl | rfl | ⟨s, rfl⟩
      · exact ih sched
      · exact ih sched
      · rw [filterMap_cons_setting, List.map_cons, List.foldlM_cons,
          List.foldlM_cons]
        dsimp only [Node.content]
        rw [entry_setting g s sched]
        exact congrArg _ (funext ih)
  exact hall g.entries sched fun e he => he

theorem foldlM_option (g : Given sys) (st : State) :
    g.options.foldlM (option sys) st =
      (g.optionOrder.foldlM (assign 255 g.optionRead Setting.mask) st.sched).map fun sched =>
        { st with xid := g.ctx, sched := sched } := by
  have hall : ∀ (l : List (String × Text)) (st : State), (∀ o ∈ l, o ∈ g.options) →
      l.foldlM (option sys) st =
        ((l.filterMap fun o => Setting.ofName o.1).foldlM
          (assign 255 g.optionRead Setting.mask) st.sched).map fun sched =>
            { st with
              xid := if ("xid", g.xid) ∈ l then g.ctx else st.xid
              sched := sched } := by
    intro l
    induction l with
    | nil => intro _ _; rfl
    | cons o l ih =>
      intro st hl
      have ih := fun st => ih st fun x hx => hl x (List.mem_cons_of_mem o hx)
      rw [List.foldlM_cons]
      rcases mem_options g (hl o List.mem_cons_self) with rfl | ⟨s, rfl⟩
      · have hxid : option sys st ("xid", g.xid) = .ok { st with xid := g.ctx } := by
          show (match sys.xidopt2xid g.xid with
            | none => Except.error wrapper_exit_code
            | some xid => Except.ok { st with xid := xid }) = _
          rw [g.xid_ok.1]
        rw [hxid, if_pos List.mem_cons_self]
        refine (ih _).trans ?_
        dsimp only
        rw [ite_self]
        rfl
      · have hmem : ("xid", g.xid) ∈ (s.name, g.value s) :: l ↔ ("xid", g.xid) ∈ l := by
          rw [List.mem_cons]
          refine or_iff_right fun h => ?_
          have h := (Prod.mk.inj h).1
          cases s <;> exact absurd h (by decide)
        rw [filterMap_cons_setting, List.foldlM_cons, option_setting g s st,
          if_congr hmem rfl rfl]
        cases assign 255 g.optionRead Setting.mask st.sched s with
        | error code => rfl
        | ok sched => exact ih _
  have hxid : ("xid", g.xid) ∈ g.options := g.options_perm.mem_iff.2 List.mem_cons_self
  have h := hall g.options st fun o ho => ho
  rw [if_pos hxid] at h
  exact h

theorem byOptions_rejects {g : Given sys} (h : ¬ Accepts g.optionRead g.settings) :
    g.byOptions.Rejects := by
  rw [← Accepts.perm (optionOrder_perm g)] at h
  have hrun : g.byOptions = ⟨[], some 255⟩ := by
    unfold Given.byOptions main
    rw [foldlM_option, foldlM_assign_error _ h]
    rfl
  rw [hrun]
  exact ⟨rfl, 255, rfl, by decide⟩

theorem Setting.mask_bit (s : Setting) : ∃ i, s.mask.getLsbD i = true := by
  cases s
  case fill_rate => exact ⟨0, rfl⟩
  case interval => exact ⟨1, rfl⟩
  case fill_rate2 => exact ⟨2, rfl⟩
  case interval2 => exact ⟨3, rfl⟩
  case tokens => exact ⟨4, rfl⟩
  case tokens_min => exact ⟨5, rfl⟩
  case tokens_max => exact ⟨6, rfl⟩
  case prio_bias => exact ⟨8, rfl⟩
  case idle_time => exact ⟨9, rfl⟩
  case cpu_id => exact ⟨12, rfl⟩
  case bucket_id => exact ⟨13, rfl⟩

theorem Setting.mask_force (s : Setting) : s.mask.getLsbD 10 = false := by
  cases s <;> rfl

/-- The record before the first setting. -/
abbrev blank : Sched := ⟨0, fun _ => 0⟩

theorem byOptions_accepts {g : Given sys} (h : Accepts g.optionRead g.settings) :
    (g.settings = [] → g.byOptions.calls = []) ∧
    (g.settings ≠ [] → ∃ a, g.byOptions.calls = [(g.ctx, a)] ∧
      Filled g.optionRead Setting.mask g.settings blank a) := by
  have hperm := optionOrder_perm g
  obtain ⟨a, hfold, hfilled⟩ := foldlM_assign 255 Setting.mask blank
    (hperm.nodup_iff.2 g.nodup) ((Accepts.perm hperm).2 h)
  replace hfilled := hfilled.perm hperm
  have hoptions : g.options.foldlM (option sys) start =
      .ok ⟨g.ctx, a, none, false⟩ := by
    rw [foldlM_option]
    exact congrArg _ hfold
  have hctx := g.xid_ok.2
  unfold Given.byOptions main
  rw [hoptions]
  dsimp only
  rw [if_neg fun h => hctx h.1, if_neg hctx]
  constructor
  · intro hnil
    have hmask : a.set_mask = 0 := by
      refine BitVec.eq_of_getLsbD_eq fun i _ => ?_
      rw [hfilled.bits, hnil]
      simp
    rw [hmask]
    split
    · rfl
    · exact congrArg Run.calls (if_neg fun h => h.1 rfl)
  · intro hne
    obtain ⟨s, hs⟩ := List.exists_mem_of_ne_nil _ hne
    obtain ⟨i, hi⟩ := s.mask_bit
    have hmask : a.set_mask ≠ 0 := by
      intro h0
      have hbit := hfilled.bits i
      rw [List.any_eq_true.2 ⟨s, hs, hi⟩, h0] at hbit
      simp at hbit
    have hforce : a.set_mask ≠ VC_VXSM_FORCE := by
      intro h0
      have hbit := hfilled.bits 10
      have hany : (g.settings.any fun s => s.mask.getLsbD 10) = false := by
        rw [List.any_eq_false]
        intro s _
        rw [s.mask_force]
        decide
      rw [hany, h0] at hbit
      exact absurd hbit (by decide)
    rw [if_neg fun h => hmask h.1]
    dsimp only
    rw [if_pos ⟨hmask, hforce⟩]
    exact ⟨a, rfl, hfilled⟩

theorem byDirectory_run (g : Given sys) :
    g.byDirectory = doDir sys g.ctx blank g.entries := by
  have hctx := g.xid_ok.2
  have hoptions : [("xid", g.xid), ("dir", g.dir)].foldlM (option sys) start =
      .ok ⟨g.ctx, blank, some g.dir, false⟩ := by
    have hxid : option sys start ("xid", g.xid) = .ok { start with xid := g.ctx } := by
      show (match sys.xidopt2xid g.xid with
        | none => Except.error wrapper_exit_code
        | some xid => Except.ok { start with xid := xid }) = _
      rw [g.xid_ok.1]
    rw [List.foldlM_cons, hxid]
    rfl
  unfold Given.byDirectory main
  rw [hoptions]
  dsimp only
  rw [if_neg fun h => hctx h.1, if_neg (fun h => by cases h.2.1), if_neg hctx, g.directory_ok]

theorem byDirectory_rejects {g : Given sys} (h : ¬ Accepts g.fileRead g.settings) :
    g.byDirectory.Rejects := by
  rw [← Accepts.perm (fileOrder_perm g)] at h
  have hrun : g.byDirectory = ⟨[], some 1⟩ := by
    rw [byDirectory_run]
    unfold doDir
    rw [foldlM_entry, foldlM_assign_error _ h]
  rw [hrun]
  exact ⟨rfl, 1, rfl, by decide⟩

theorem byDirectory_accepts {g : Given sys} (h : Accepts g.fileRead g.settings) :
    ∃ b, g.byDirectory.calls = [(g.ctx, b)] ∧
      Filled g.fileRead Setting.fileMask g.settings blank b := by
  have hperm := fileOrder_perm g
  obtain ⟨b, hfold, hfilled⟩ := foldlM_assign 1 Setting.fileMask blank
    (hperm.nodup_iff.2 g.nodup) ((Accepts.perm hperm).2 h)
  refine ⟨b, ?_, hfilled.perm hperm⟩
  rw [byDirectory_run]
  unfold doDir
  rw [foldlM_entry]
  change Run.calls (match List.foldlM (assign 1 g.fileRead Setting.fileMask) blank
    g.fileOrder with | .error code => _ | .ok r => _) = _
  rw [hfold]
  dsimp only
  rw [subDir_entries]
  split <;> rfl

/-! ## The masks -/

theorem Setting.fileMask_bit (s : Setting) (i : Nat) : s.fileMask.getLsbD i = true ↔
    s.mask.getLsbD i = true ∨
      ((s = fill_rate2 ∨ s = interval2) ∧ idle_time.mask.getLsbD i = true) := by
  unfold fileMask
  split
  · rename_i h
    rw [BitVec.getLsbD_or, Bool.or_eq_true]
    simp [h, mask]
  · rename_i h
    simp [h]

theorem Setting.mask_idle {s : Setting} (h : s.mask.getLsbD 9 = true) : s = idle_time := by
  cases s <;> first | rfl | exact absurd h (by decide)

/-- **The tables agree** where a second rate or interval comes with the idle time. -/
theorem masks_agree_iff (l : List Setting) :
    (∀ i, (l.any fun s => s.mask.getLsbD i) = l.any fun s => s.fileMask.getLsbD i) ↔
      (.fill_rate2 ∈ l ∨ .interval2 ∈ l → .idle_time ∈ l) := by
  constructor
  · intro h hsecond
    have hbit : (l.any fun s => s.fileMask.getLsbD 9) = true := by
      rw [List.any_eq_true]
      rcases hsecond with hs | hs
      · exact ⟨_, hs, rfl⟩
      · exact ⟨_, hs, rfl⟩
    rw [← h 9, List.any_eq_true] at hbit
    obtain ⟨s, hs, hbit⟩ := hbit
    rw [← Setting.mask_idle hbit]
    exact hs
  · intro h i
    rw [Bool.eq_iff_iff, List.any_eq_true, List.any_eq_true]
    constructor
    · rintro ⟨s, hs, hbit⟩
      exact ⟨s, hs, (s.fileMask_bit i).2 (Or.inl hbit)⟩
    · rintro ⟨s, hs, hbit⟩
      rcases (s.fileMask_bit i).1 hbit with hown | ⟨rfl | rfl, hidle⟩
      · exact ⟨s, hs, hown⟩
      · exact ⟨_, h (Or.inl hs), hidle⟩
      · exact ⟨_, h (Or.inr hs), hidle⟩

/-! ## The agreement -/

theorem not_accepts_iff {read : Setting → Option Int} {l : List Setting} :
    ¬ Accepts read l ↔ ∃ s ∈ l, s.attr ≠ none ∧ read s = none := by
  simp only [Accepts, not_forall, exists_prop, not_not]

theorem refused_iff (g : Given sys) :
    Refused g ↔ ¬ Accepts g.optionRead g.settings ∧ ¬ Accepts g.fileRead g.settings := by
  rw [not_accepts_iff, not_accepts_iff]
  rfl

theorem Exact.accepts {g : Given sys} (h : Exact g) :
    Accepts g.optionRead g.settings ∧ Accepts g.fileRead g.settings := by
  constructor
  · intro s hs hattr
    obtain ⟨v, hv, hrange, -⟩ := h.2.1 s hs hattr
    rw [Given.optionRead, isNumber_of_number hv hrange]
    exact Option.some_ne_none v
  · intro s hs hattr
    obtain ⟨v, -, -, w, hw, -⟩ := h.2.1 s hs hattr
    rw [Given.fileRead, hw]
    exact Option.some_ne_none w

theorem toInt_ofInt_32 {v : Int} (h : -(2 ^ 31) ≤ v ∧ v < 2 ^ 31) :
    (BitVec.ofInt 32 v).toInt = v := by
  rw [BitVec.toInt_ofInt, Int.bmod_eq_of_le] <;> omega

theorem set_mask_eq_iff {g : Given sys} {a b : Sched}
    (ha : Filled g.optionRead Setting.mask g.settings blank a)
    (hb : Filled g.fileRead Setting.fileMask g.settings blank b) :
    a.set_mask = b.set_mask ↔
      (.fill_rate2 ∈ g.settings ∨ .interval2 ∈ g.settings → .idle_time ∈ g.settings) := by
  rw [← masks_agree_iff]
  constructor
  · intro h i
    have hbit := ha.bits i
    rw [h, hb.bits i] at hbit
    simpa using hbit.symm
  · intro h
    refine BitVec.eq_of_getLsbD_eq fun i _ => ?_
    rw [ha.bits, hb.bits, h i]

/-- **When options and files agree**: both are refused, or the values are exact and the idle time
comes with a second rate or interval. -/
theorem vsched_agree (g : Given sys) : Agree g ↔ Refused g ∨ Exact g := by
  constructor
  · rintro (⟨ho, hd⟩ | ⟨a, b, ho, hd, hmask, -, hexact⟩)
    · left
      have hfile : ¬ Accepts g.fileRead g.settings := by
        intro h
        obtain ⟨b, hcalls, -⟩ := byDirectory_accepts h
        rw [hd.1] at hcalls
        cases hcalls
      refine (refused_iff g).2 ⟨fun h => ?_, hfile⟩
      have hne : g.settings ≠ [] := by
        intro hnil
        refine hfile fun s hs => ?_
        rw [hnil] at hs
        cases hs
      obtain ⟨a, hcalls, -⟩ := (byOptions_accepts h).2 hne
      rw [ho.1] at hcalls
      cases hcalls
    · right
      have hopt : Accepts g.optionRead g.settings := by
        by_contra h
        rw [(byOptions_rejects h).1] at ho
        cases ho
      have hfile : Accepts g.fileRead g.settings := by
        by_contra h
        rw [(byDirectory_rejects h).1] at hd
        cases hd
      have hne : g.settings ≠ [] := by
        intro hnil
        rw [(byOptions_accepts hopt).1 hnil] at ho
        cases ho
      obtain ⟨a', ho', ha⟩ := (byOptions_accepts hopt).2 hne
      obtain ⟨b', hd', hb⟩ := byDirectory_accepts hfile
      rw [ho] at ho'
      rw [hd] at hd'
      cases ho'
      cases hd'
      refine ⟨hne, fun s hs hattr => ?_, (set_mask_eq_iff ha hb).1 hmask⟩
      obtain ⟨f, hf⟩ := Option.ne_none_iff_exists'.1 hattr
      obtain ⟨v, hv, -, hbv⟩ := hexact s hs f hf
      obtain ⟨w, hw, hbw⟩ := hb.value s hs f hf
      refine ⟨v, hv, ?_, w, hw, ?_⟩
      · rw [← hbv]
        exact ⟨BitVec.le_toInt _, BitVec.toInt_lt⟩
      · rw [← hbw, ← hbv, BitVec.ofInt_toInt]
  · rintro (h | h)
    · obtain ⟨hopt, hfile⟩ := (refused_iff g).1 h
      exact Or.inl ⟨byOptions_rejects hopt, byDirectory_rejects hfile⟩
    · obtain ⟨hopt, hfile⟩ := h.accepts
      obtain ⟨a, ho, ha⟩ := (byOptions_accepts hopt).2 h.1
      obtain ⟨b, hd, hb⟩ := byDirectory_accepts hfile
      have hvalue : ∀ s ∈ g.settings, ∀ f, s.attr = some f → ∃ v, number (g.value s) = some v ∧
          (a.attr f).toInt = v ∧ (b.attr f).toInt = v := by
        intro s hs f hf
        obtain ⟨v, hv, hrange, w, hw, hwv⟩ :=
          h.2.1 s hs (by rw [hf]; exact Option.some_ne_none f)
        obtain ⟨v', hv', hav⟩ := ha.value s hs f hf
        obtain ⟨w', hw', hbw⟩ := hb.value s hs f hf
        rw [Given.optionRead, isNumber_of_number hv hrange] at hv'
        rw [Given.fileRead, hw] at hw'
        cases hv'
        cases hw'
        refine ⟨v, hv, ?_, ?_⟩
        · rw [hav, toInt_ofInt_32 hrange]
        · rw [hbw, hwv, toInt_ofInt_32 hrange]
      refine Or.inr ⟨a, b, ho, hd, (set_mask_eq_iff ha hb).2 h.2.2, fun f _ => ?_, hvalue⟩
      by_cases hf : ∃ s ∈ g.settings, s.attr = some f
      · obtain ⟨s, hs, hf⟩ := hf
        obtain ⟨v, -, hav, hbv⟩ := hvalue s hs f hf
        exact BitVec.eq_of_toInt_eq (hav.trans hbv.symm)
      · rw [ha.other f fun s hs h => hf ⟨s, hs, h⟩, hb.other f fun s hs h => hf ⟨s, hs, h⟩]

/-- A system with one directory, which holds a second fill rate. -/
def plainSystem : System where
  xidopt2xid _ := some 100
  getTaskXid := none
  directory _ := some [(".", .dir []), ("..", .dir []), ("fill-rate2", .file ['5', '\n'])]
  vcSetSched _ _ := true
  stack _ := 0

def secondRate : Given plainSystem where
  settings := [.fill_rate2]
  nodup := by decide
  value _ := ['5']
  noNul _ := by decide
  xid := ['1', '0', '0']
  ctx := 100
  xid_ok := ⟨rfl, by decide⟩
  command := []
  options := [("xid", ['1', '0', '0']), ("fill-rate2", ['5'])]
  options_perm := List.Perm.refl _
  dir := ['d']
  rest _ := ['\n']
  rest_line _ := Or.inr rfl
  entries := [(".", .dir []), ("..", .dir []), ("fill-rate2", .file ['5', '\n'])]
  entries_perm := List.Perm.refl _
  directory_ok := rfl

/-- The second fill rate as a file sets the bit of the idle time, as an option it does not. -/
theorem vsched_secondRate : ¬ Agree secondRate := by
  have hopt : secondRate.byOptions.calls.map (·.2.set_mask) = [VC_VXSM_FILL_RATE2] := by
    decide +kernel
  have hfile : secondRate.byDirectory.calls.map (·.2.set_mask) =
      [VC_VXSM_FILL_RATE2 ||| VC_VXSM_IDLE_TIME] := by
    decide +kernel
  rintro (⟨⟨ho, -⟩, -⟩ | ⟨a, b, ho, hd, hmask, -⟩)
  · rw [ho] at hopt
    cases hopt
  · rw [ho] at hopt
    rw [hd] at hfile
    have ha : a.set_mask = VC_VXSM_FILL_RATE2 := List.singleton_inj.1 hopt
    have hb : b.set_mask = VC_VXSM_FILL_RATE2 ||| VC_VXSM_IDLE_TIME := List.singleton_inj.1 hfile
    rw [ha, hb] at hmask
    exact absurd hmask (by decide)

end Vsched
