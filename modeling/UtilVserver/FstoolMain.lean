import UtilVserver.Fstool
import UtilVserver.IsNumber

/-!
# The program around the walk (`src/fstool.c`)

`main` of `lsxid`, `chxid`, `showattr` and `setattr`: the options, the files of the command line, and
the count of errors.  One inode may have several names, and the files may overlap.

* `option` — the options, with the cases that fall through.
* `Handler`, `fstool` — a handler on every file that the walk finds; it has a state of its own.
* `answers` — what the handler does on the calls, one after the other.
* `Reaches` — the inodes that the command line asks for, behind calls that work.
* `Sound` — no call around the handler fails for a file of the command line.

Principal results: `options_masks` (the order of the options makes no difference), `mem_calls`,
`fstool_state` and `fstool_code`.
-/

set_option autoImplicit false

namespace FstoolMain

open CString PathInfo
open Fstool (Call Intact Start Stat)

def VC_IATTR_XID : BitVec 32 := 0x01000000
def VC_IATTR_ADMIN : BitVec 32 := 0x00000001
def VC_IATTR_WATCH : BitVec 32 := 0x00000002
def VC_IATTR_HIDE : BitVec 32 := 0x00000004
def VC_IATTR_WRITE : BitVec 32 := 0x00000008
def VC_IATTR_BARRIER : BitVec 32 := 0x00010000
def VC_IATTR_IUNLINK : BitVec 32 := 0x00020000
def VC_IATTR_IMMUTABLE : BitVec 32 := 0x00040000
def VC_IATTR_COW : BitVec 32 := 0x00080000

/-! ## Options -/

structure Arguments where
  do_recurse : Bool
  do_display_dot : Bool
  do_display_dir : Bool
  do_mapping : Bool
  local_fs : Bool
  set_mask : BitVec 32
  del_mask : BitVec 32
  no_unified : Bool

def Arguments.default : Arguments := ⟨false, false, false, true, false, 0, 0, false⟩

/-- The options of the programs but those that end them, and `-c`. -/
inductive Opt where
  | CMD_IMMU | CMD_IMMUX | CMD_IMMUTABLE | CMD_ADMIN | CMD_WATCH | CMD_HIDE | CMD_BARRIER
  | CMD_WRITE | CMD_COW
  | CMD_UNSET_IMMU | CMD_UNSET_IMMUX | CMD_UNSET_IMMUTABLE | CMD_UNSET_ADMIN | CMD_UNSET_WATCH
  | CMD_UNSET_HIDE | CMD_UNSET_BARRIER | CMD_UNSET_WRITE | CMD_UNSET_COW
  /-- With the argument, and whether `errno` was not 0 before. -/
  | CMD_FLAGS (optarg : Text) (errno : Bool)
  | CMD_UNSET_FLAGS (optarg : Text) (errno : Bool)
  | R | a | d | n | x | U

/-- The argument of `--flags`. -/
def parseFlags (optarg : Text) (errno : Bool) : Option (BitVec 32) :=
  match IsNumber.scanned optarg with
  | none => if errno || optarg != [] then none else some 0
  | some (neg, n, rest) =>
    let flags := if IsNumber.ULONG_MAX < n then IsNumber.ULONG_MAX else signed neg n % 2 ^ 64
    if (flags = 0 ∧ errno = true) ∨ rest ≠ [] then none else some (BitVec.ofInt 32 flags)

/-- A case of the `switch`; `CMD_IMMU` falls through. -/
def option (args : Arguments) : Opt → Option Arguments
  | .CMD_IMMU =>
    some { args with set_mask := args.set_mask ||| VC_IATTR_IMMUTABLE ||| VC_IATTR_IUNLINK }
  | .CMD_IMMUX => some { args with set_mask := args.set_mask ||| VC_IATTR_IUNLINK }
  | .CMD_IMMUTABLE => some { args with set_mask := args.set_mask ||| VC_IATTR_IMMUTABLE }
  | .CMD_ADMIN => some { args with set_mask := args.set_mask ||| VC_IATTR_ADMIN }
  | .CMD_WATCH => some { args with set_mask := args.set_mask ||| VC_IATTR_WATCH }
  | .CMD_HIDE => some { args with set_mask := args.set_mask ||| VC_IATTR_HIDE }
  | .CMD_BARRIER => some { args with set_mask := args.set_mask ||| VC_IATTR_BARRIER }
  | .CMD_WRITE => some { args with set_mask := args.set_mask ||| VC_IATTR_WRITE }
  | .CMD_COW => some { args with set_mask := args.set_mask ||| VC_IATTR_COW }
  | .CMD_UNSET_IMMU =>
    some { args with del_mask := args.del_mask ||| VC_IATTR_IMMUTABLE ||| VC_IATTR_IUNLINK }
  | .CMD_UNSET_IMMUX => some { args with del_mask := args.del_mask ||| VC_IATTR_IUNLINK }
  | .CMD_UNSET_IMMUTABLE => some { args with del_mask := args.del_mask ||| VC_IATTR_IMMUTABLE }
  | .CMD_UNSET_ADMIN => some { args with del_mask := args.del_mask ||| VC_IATTR_ADMIN }
  | .CMD_UNSET_WATCH => some { args with del_mask := args.del_mask ||| VC_IATTR_WATCH }
  | .CMD_UNSET_HIDE => some { args with del_mask := args.del_mask ||| VC_IATTR_HIDE }
  | .CMD_UNSET_BARRIER => some { args with del_mask := args.del_mask ||| VC_IATTR_BARRIER }
  | .CMD_UNSET_WRITE => some { args with del_mask := args.del_mask ||| VC_IATTR_WRITE }
  | .CMD_UNSET_COW => some { args with del_mask := args.del_mask ||| VC_IATTR_COW }
  | .CMD_FLAGS optarg errno =>
    (parseFlags optarg errno).map fun flags => { args with set_mask := args.set_mask ||| flags }
  | .CMD_UNSET_FLAGS optarg errno =>
    (parseFlags optarg errno).map fun flags => { args with del_mask := args.del_mask ||| flags }
  | .R => some { args with do_recurse := true }
  | .a => some { args with do_display_dot := true }
  | .d => some { args with do_display_dir := true }
  | .n => some { args with do_mapping := false }
  | .x => some { args with local_fs := true }
  | .U => some { args with no_unified := true }

/-- The loop around `getopt_long`. -/
def options (opts : List Opt) : Option Arguments := opts.foldlM option .default

/-! ## The walk with a handler -/

/-- A file of the command line, as `lstat` finds it; it is missing when `lstat` fails. -/
inductive Root where
  | missing
  | file (path : Text) (st : Stat)
  | dir (path : Text) (src : Start)

/-- `global_args` for the walk. -/
def walkArgs (args : Arguments) : Fstool.Args :=
  ⟨args.do_recurse, args.do_display_dot, args.local_fs, fun _ => true⟩

/-- The walk of `processFile`, which has gone to the directory. -/
def rootWalk (args : Arguments) (path : Text) (src : Start) : Fstool.State :=
  Fstool.iterateFilesystem (walkArgs args) src.cur src.tree path ⟨[], 0#64⟩

/-- The calls of `processFile`. -/
def rootCalls (args : Arguments) : Root → List Call
  | .missing => []
  | .file path st => [⟨st, path⟩]
  | .dir path src =>
    if args.do_display_dir then [⟨src.cur.st, path⟩] else (rootWalk args path src).calls

/-- The errors of `processFile` but those of the handler. -/
def rootErr (args : Arguments) : Root → BitVec 64
  | .missing => 1#64
  | .file _ _ => 0#64
  | .dir path src => if args.do_display_dir then 0#64 else (rootWalk args path src).err

/-- `Eopen(".")` or `Echdir(path)` fails, and ends the program. -/
def ends (args : Arguments) : Root → Bool
  | .dir _ src => !args.do_display_dir && !src.cur.chdir
  | _ => false

/-- The files up to the one that ends the program. -/
def visited (args : Arguments) (roots : List Root) : List Root :=
  roots.takeWhile fun root => !ends args root

/-- The calls for all files. -/
def calls (args : Arguments) (roots : List Root) : List Call :=
  (visited args roots).flatMap (rootCalls args)

/-- `handleFile`, with the state that it changes. -/
abbrev Handler (σ : Type) := Call → σ → Bool × σ

variable {σ : Type}

/-- One call after the other, with the errors. -/
def handleAll (h : Handler σ) (cs : List Call) (s : BitVec 64 × σ) : BitVec 64 × σ :=
  cs.foldl (fun s c => (s.1 + if (h c s.2).1 then 0#64 else 1#64, (h c s.2).2)) s

def processFile (h : Handler σ) (args : Arguments) (s : BitVec 64 × σ) (root : Root) :
    BitVec 64 × σ :=
  handleAll h (rootCalls args root) (s.1 + rootErr args root, s.2)

/-- The loop over the files, with the exit code: that of the wrappers, which have `exit` in them, or
that of `main`. -/
def processFiles (h : Handler σ) (args : Arguments) : List Root → BitVec 64 × σ → Nat × σ
  | [], s => (if 0#64 < s.1 then 1 else 0, s.2)
  | root :: roots, s =>
    if ends args root then (1, s.2) else processFiles h args roots (processFile h args s root)

/-- `main` behind its options: the exit code and the state. -/
def fstool (h : Handler σ) (args : Arguments) (roots : List Root) (s : σ) : Nat × σ :=
  processFiles h args roots (0#64, s)

/-! ## Options in any order -/

/-- The masks and the switches of both. -/
def Arguments.join (a b : Arguments) : Arguments where
  do_recurse := a.do_recurse || b.do_recurse
  do_display_dot := a.do_display_dot || b.do_display_dot
  do_display_dir := a.do_display_dir || b.do_display_dir
  do_mapping := a.do_mapping && b.do_mapping
  local_fs := a.local_fs || b.local_fs
  set_mask := a.set_mask ||| b.set_mask
  del_mask := a.del_mask ||| b.del_mask
  no_unified := a.no_unified || b.no_unified

/-- What an option asks for by itself. -/
def Opt.alone (o : Opt) : Arguments := (option .default o).getD .default

theorem option_join {args r : Arguments} {o : Opt} (h : option args o = some r) :
    r = args.join o.alone := by
  cases o with
  | CMD_FLAGS optarg errno =>
    obtain ⟨flags, hflags, rfl⟩ := Option.map_eq_some_iff.1 h
    simp [Opt.alone, option, hflags, Arguments.join, Arguments.default]
  | CMD_UNSET_FLAGS optarg errno =>
    obtain ⟨flags, hflags, rfl⟩ := Option.map_eq_some_iff.1 h
    simp [Opt.alone, option, hflags, Arguments.join, Arguments.default]
  | _ =>
    obtain rfl := Option.some.inj h
    simp [Opt.alone, option, Arguments.join, Arguments.default, BitVec.or_assoc]

theorem foldlM_join {opts : List Opt} {args r : Arguments} (h : opts.foldlM option args = some r) :
    r = opts.foldl (fun args o => args.join o.alone) args := by
  induction opts generalizing args with
  | nil => exact (Option.some.inj h).symm
  | cons o opts ih =>
    obtain ⟨args', hargs', hrest⟩ := Option.bind_eq_some_iff.1 h
    rw [List.foldl_cons, ← option_join hargs']
    exact ih hrest

/-- A flag that is to be set, and one that is to be cleared. -/
def asked (opts : List Opt) (i : Nat) : Bool := opts.any fun o => o.alone.set_mask.getLsbD i
def unasked (opts : List Opt) (i : Nat) : Bool := opts.any fun o => o.alone.del_mask.getLsbD i

/-- **The order of the options makes no difference.** -/
theorem options_masks {opts : List Opt} {args : Arguments} (h : options opts = some args) (i : Nat) :
    args.set_mask.getLsbD i = asked opts i ∧ args.del_mask.getLsbD i = unasked opts i := by
  rw [foldlM_join h]
  have hfold : ∀ args : Arguments,
      (opts.foldl (fun args o => args.join o.alone) args).set_mask.getLsbD i =
        (args.set_mask.getLsbD i || asked opts i) ∧
      (opts.foldl (fun args o => args.join o.alone) args).del_mask.getLsbD i =
        (args.del_mask.getLsbD i || unasked opts i) := by
    clear h
    induction opts with
    | nil => exact fun _ => ⟨(Bool.or_false _).symm, (Bool.or_false _).symm⟩
    | cons o opts ih =>
      intro args
      obtain ⟨hset, hdel⟩ := ih (args.join o.alone)
      rw [List.foldl_cons, hset, hdel]
      simp [asked, unasked, Arguments.join, Bool.or_assoc]
  obtain ⟨hset, hdel⟩ := hfold .default
  rw [hset, hdel]
  simp [Arguments.default]

/-! ## The files -/

/-- The inodes that the command line asks for. -/
inductive Reaches (args : Arguments) (roots : List Root) : Stat → Prop
  | file {path : Text} {st : Stat} (h : Root.file path st ∈ visited args roots) :
      Reaches args roots st
  | dir {path : Text} {src : Start} (h : Root.dir path src ∈ visited args roots)
      (hopen : args.do_display_dir = true ∨ src.cur.opendir = true) : Reaches args roots src.cur.st
  | below {path : Text} {src : Start} {e : Fstool.Entry} (h : Root.dir path src ∈ visited args roots)
      (hdir : args.do_display_dir = false) (hopen : src.cur.opendir = true)
      (he : Fstool.Handled (walkArgs args) src.cur.st.dev src.tree [] e) : Reaches args roots e.2.st

/-- The calls for a directory that is entered. -/
theorem mem_rootCalls {args : Arguments} (hdir : args.do_display_dir = false) {path : Text}
    {src : Start} {c : Call} : c ∈ rootCalls args (.dir path src) ↔
      (src.cur.opendir = true ∧ c = ⟨src.cur.st, path⟩) ∨ ∃ e, (src.cur.opendir = true ∧
        Fstool.Handled (walkArgs args) src.cur.st.dev src.tree [] e) ∧ c = Fstool.callOf path e := by
  unfold rootCalls
  dsimp only
  rw [if_neg (by rw [hdir]; decide)]
  exact (Fstool.walk_calls (walkArgs args) src path).2 c

theorem rootCalls_displayDir {args : Arguments} (hdir : args.do_display_dir = true) (path : Text)
    (src : Start) : rootCalls args (.dir path src) = [⟨src.cur.st, path⟩] := if_pos hdir

/-- **The calls are made for the files that are asked for.** -/
theorem mem_calls {args : Arguments} {roots : List Root} {st : Stat} :
    (∃ c ∈ calls args roots, c.target = st) ↔ Reaches args roots st := by
  unfold calls
  constructor
  · rintro ⟨c, hc, rfl⟩
    obtain ⟨root, hroot, hc⟩ := List.mem_flatMap.1 hc
    cases root with
    | missing => exact absurd hc List.not_mem_nil
    | file path st =>
      obtain rfl := List.mem_singleton.1 hc
      exact .file hroot
    | dir path src =>
      cases hdir : args.do_display_dir with
      | true =>
        rw [rootCalls_displayDir hdir] at hc
        obtain rfl := List.mem_singleton.1 hc
        exact .dir hroot (Or.inl hdir)
      | false =>
        obtain ⟨hopen, rfl⟩ | ⟨e, ⟨hopen, he⟩, rfl⟩ := (mem_rootCalls hdir).1 hc
        · exact .dir hroot (Or.inr hopen)
        · exact .below hroot hdir hopen he
  · intro h
    cases h with
    | @file path st hroot =>
      exact ⟨⟨st, path⟩, List.mem_flatMap.2 ⟨_, hroot, List.mem_singleton_self _⟩, rfl⟩
    | @dir path src hroot hopen =>
      refine ⟨⟨src.cur.st, path⟩, List.mem_flatMap.2 ⟨_, hroot, ?_⟩, rfl⟩
      cases hdir : args.do_display_dir with
      | true =>
        rw [rootCalls_displayDir hdir]
        exact List.mem_singleton_self _
      | false =>
        have hopened := hopen.resolve_left (by rw [hdir]; exact Bool.false_ne_true)
        exact (mem_rootCalls hdir).2 (Or.inl ⟨hopened, rfl⟩)
    | @below path src e hroot hdir hopen he =>
      exact ⟨Fstool.callOf path e,
        List.mem_flatMap.2 ⟨_, hroot, (mem_rootCalls hdir).2 (Or.inr ⟨e, ⟨hopen, he⟩, rfl⟩)⟩, rfl⟩

/-! ## The handler on all files -/

/-- What the handler answers, and the state at the end. -/
def answers (h : Handler σ) : List Call → σ → List Bool × σ
  | [], s => ([], s)
  | c :: cs, s => ((h c s).1 :: (answers h cs (h c s).2).1, (answers h cs (h c s).2).2)

@[simp] theorem answers_nil (h : Handler σ) (s : σ) : answers h [] s = ([], s) := rfl

@[simp] theorem answers_cons (h : Handler σ) (c : Call) (cs : List Call) (s : σ) :
    answers h (c :: cs) s =
      ((h c s).1 :: (answers h cs (h c s).2).1, (answers h cs (h c s).2).2) := rfl

theorem answers_append (h : Handler σ) (cs cs' : List Call) (s : σ) :
    answers h (cs ++ cs') s = ((answers h cs s).1 ++ (answers h cs' (answers h cs s).2).1,
      (answers h cs' (answers h cs s).2).2) := by
  induction cs generalizing s with
  | nil => rfl
  | cons c cs ih => rw [List.cons_append, answers_cons, ih, answers_cons, List.cons_append]

theorem answers_length (h : Handler σ) (cs : List Call) (s : σ) :
    (answers h cs s).1.length = cs.length := by
  induction cs generalizing s with
  | nil => rfl
  | cons c cs ih => rw [answers_cons, List.length_cons, List.length_cons, ih]

theorem handleAll_answers (h : Handler σ) (cs : List Call) (s : BitVec 64 × σ) :
    handleAll h cs s = (s.1 + BitVec.ofNat 64 ((answers h cs s.2).1.count false),
      (answers h cs s.2).2) := by
  induction cs generalizing s with
  | nil => exact Prod.ext (BitVec.add_zero _).symm rfl
  | cons c cs ih =>
    rw [handleAll, List.foldl_cons, ← handleAll, ih, answers_cons]
    refine Prod.ext ?_ rfl
    dsimp only
    rw [List.count_cons, BitVec.ofNat_add]
    cases (h c s.2).1 with
    | true => simp
    | false =>
      simp only [Bool.false_eq_true, if_false, beq_self_eq_true, if_true]
      rw [BitVec.add_assoc, BitVec.add_comm 1#64]

/-- The calls around the handler that fail for a file of the command line. -/
def rootFaults (args : Arguments) : Root → Nat
  | .missing => 1
  | .file _ _ => 0
  | .dir _ src =>
    if args.do_display_dir then 0 else Fstool.faults (walkArgs args) src.cur src.tree

theorem rootErr_eq (args : Arguments) (root : Root) :
    rootErr args root = BitVec.ofNat 64 (rootFaults args root) := by
  cases root with
  | missing => rfl
  | file path st => rfl
  | dir path src =>
    unfold rootErr rootFaults rootWalk
    dsimp only
    split
    · rfl
    · rw [Fstool.iterateFilesystem_err (fun _ => rfl)]
      exact BitVec.zero_add _

/-- Those of all files. -/
def allFaults (args : Arguments) (roots : List Root) : Nat :=
  ((visited args roots).map (rootFaults args)).sum

/-- The errors at the end, those of the handler among them. -/
def errors (h : Handler σ) (args : Arguments) (roots : List Root) (s : σ) : Nat :=
  allFaults args roots + (answers h (calls args roots) s).1.count false

section

variable {h : Handler σ} {args : Arguments}

theorem processFile_answers (s : BitVec 64 × σ) (root : Root) : processFile h args s root =
    (s.1 + BitVec.ofNat 64 (rootFaults args root +
        (answers h (rootCalls args root) s.2).1.count false),
      (answers h (rootCalls args root) s.2).2) := by
  rw [processFile, handleAll_answers, rootErr_eq, BitVec.ofNat_add, BitVec.add_assoc]

/-- **The files of the command line**, one after the other. -/
theorem processFiles_answers (roots : List Root) (s : BitVec 64 × σ) :
    processFiles h args roots s =
      (if roots.any (ends args) = true ∨ 0#64 < s.1 + BitVec.ofNat 64 (errors h args roots s.2) then 1
        else 0, (answers h (calls args roots) s.2).2) := by
  induction roots generalizing s with
  | nil => simp [processFiles, errors, allFaults, calls, visited]
  | cons root roots ih =>
    rw [processFiles]
    cases hends : ends args root with
    | true => simp [calls, visited, hends]
    | false =>
      have hvisited : visited args (root :: roots) = root :: visited args roots := by
        simp [visited, hends]
      have herrors : errors h args (root :: roots) s.2 = (rootFaults args root +
          (answers h (rootCalls args root) s.2).1.count false) +
          errors h args roots (answers h (rootCalls args root) s.2).2 := by
        unfold errors allFaults calls
        rw [hvisited, List.map_cons, List.sum_cons, List.flatMap_cons, answers_append,
          List.count_append]
        omega
      rw [if_neg Bool.false_ne_true, ih, processFile_answers, herrors, List.any_cons, hends,
        Bool.false_or, BitVec.ofNat_add _ (errors _ _ _ _), ← BitVec.add_assoc]
      unfold calls
      rw [hvisited, List.flatMap_cons, answers_append]

theorem fstool_state (roots : List Root) (s : σ) :
    (fstool h args roots s).2 = (answers h (calls args roots) s).2 := by
  unfold fstool
  rw [processFiles_answers]

/-- The errors can be counted. -/
def ErrorsFit (args : Arguments) (roots : List Root) : Prop :=
  allFaults args roots + (calls args roots).length < 2 ^ 64

/-- No call around the handler fails: the file is there, and a directory that is walked through can
be entered and read, with all that is asked for below it. -/
def Sound (args : Arguments) : Root → Prop
  | .missing => False
  | .file _ _ => True
  | .dir _ src =>
    args.do_display_dir = true ∨ src.cur.chdir = true ∧ Intact (walkArgs args) src

theorem sound_iff (root : Root) :
    Sound args root ↔ ends args root = false ∧ rootFaults args root = 0 := by
  cases root with
  | missing => simp [Sound, rootFaults]
  | file path st => simp [Sound, ends, rootFaults]
  | dir path src =>
    simp only [Sound, ends, rootFaults, ← Fstool.faults_eq_zero]
    cases args.do_display_dir <;> cases src.cur.chdir <;> simp

theorem visited_eq {roots : List Root} (hends : roots.any (ends args) = false) :
    visited args roots = roots := by
  unfold visited
  rw [List.takeWhile_eq_self_iff]
  intro root hroot
  rw [List.any_eq_false] at hends
  simpa using hends root hroot

theorem sound_all_iff (roots : List Root) : (∀ root ∈ roots, Sound args root) ↔
    roots.any (ends args) = false ∧ allFaults args roots = 0 := by
  simp only [sound_iff, List.any_eq_false, Bool.not_eq_true]
  constructor
  · intro hall
    have hends : ∀ root ∈ roots, ends args root = false := fun root hroot => (hall root hroot).1
    refine ⟨hends, ?_⟩
    unfold allFaults
    rw [visited_eq (by simpa using hends), List.sum_eq_zero_iff_forall_eq_nat]
    intro n hn
    obtain ⟨root, hroot, rfl⟩ := List.mem_map.1 hn
    exact (hall root hroot).2
  · rintro ⟨hends, hzero⟩ root hroot
    unfold allFaults at hzero
    rw [visited_eq (by simpa using hends), List.sum_eq_zero_iff_forall_eq_nat] at hzero
    exact ⟨hends root hroot, hzero _ (List.mem_map_of_mem hroot)⟩

/-- **The exit code** says whether all calls around the handler and all of its own have worked. -/
theorem fstool_code {roots : List Root} {s : σ} (hlen : ErrorsFit args roots) :
    (fstool h args roots s).1 = 0 ↔ (∀ root ∈ roots, Sound args root) ∧
      ∀ ok ∈ (answers h (calls args roots) s).1, ok = true := by
  have hcount : (answers h (calls args roots) s).1.count false ≤ (calls args roots).length := by
    rw [← answers_length h (calls args roots) s]
    exact List.count_le_length
  have hall : (answers h (calls args roots) s).1.count false = 0 ↔
      ∀ ok ∈ (answers h (calls args roots) s).1, ok = true := by
    rw [List.count_eq_zero]
    constructor
    · intro hnot ok hok
      cases ok with
      | true => rfl
      | false => exact absurd hok hnot
    · intro hall hmem
      exact Bool.false_ne_true (hall _ hmem)
  have hlt : errors h args roots s < 2 ^ 64 := by
    unfold ErrorsFit at hlen
    unfold errors
    omega
  have hpos : 0#64 < 0#64 + BitVec.ofNat 64 (errors h args roots s) ↔
      0 < errors h args roots s := by
    rw [BitVec.zero_add, BitVec.lt_def, BitVec.toNat_ofNat, BitVec.toNat_ofNat,
      Nat.mod_eq_of_lt hlt, Nat.zero_mod]
  unfold fstool
  rw [processFiles_answers, sound_all_iff, ← hall]
  simp only [hpos]
  unfold errors
  cases roots.any (ends args) with
  | true => simp
  | false =>
    simp only [Bool.false_eq_true, false_or, true_and]
    split
    · omega
    · omega

end

end FstoolMain
