import Mathlib.Data.List.Induction
import Mathlib.Logic.Function.Basic
import UtilVserver.ParseLimit

/-!
# `vlimit` (`src/vlimit.c`)

Resource limits come from options and from the files of a directory; what the options name is not
looked up in the directory.

* `cliStep`, `readFromDir`, `setLimits`, `main` — the program, with the records that it passes to
  `vc_set_rlimit`; none where it exits before.
* `settings` — the limit options with the parts they are for.
* `record` — the record that belongs to a resource.

Principal result: `main_iff`.
-/

set_option autoImplicit false

namespace Vlimit

open CString ParseLimit

/-- `struct vc_rlimit`. -/
structure Rlimit where
  min : Limit
  soft : Limit
  hard : Limit
  deriving DecidableEq

def keep : Rlimit := ⟨VC_LIM_KEEP, VC_LIM_KEEP, VC_LIM_KEEP⟩

/-- The names of the resources. -/
def LIMIT_STR : List (Option Text) :=
  ["CPU", "FSIZE", "DATA", "STACK", "CORE", "RSS", "NPROC", "NOFILE", "MEMLOCK", "AS",
    "LOCKS"].map (fun s => some s.toList) ++ [none, some "MSGQUEUE".toList, none, none, none] ++
  ["NSOCK", "OPENFD", "ANON", "SHMEM", "SEMARY", "NSEMS", "DENTRY"].map fun s => some s.toList

inductive Stat where
  | found | missing | fails
  deriving DecidableEq

/-- What `stat` says of a path, and the files that can be opened; none for what can be opened but
not read. -/
structure World where
  stat : Text → Stat
  files : Text → Option (Option Text)

/-- An option; `leave` is what ends the program. -/
inductive Opt where
  | limit (id : Fin 32) (optarg : Text)
  | M | S | H
  | dir (pathname : Text)
  | missingok
  | other
  | leave
  deriving DecidableEq

structure Cli where
  limits : Nat → Rlimit
  lim_mask : BitVec 32
  set_mask : BitVec 3
  dir : Option Text
  missing_ok : Bool

/-- `1 << i`. -/
def bit (i : Nat) : BitVec 32 := BitVec.twoPow 32 i

def setParts (set_mask : BitVec 3) (val : Limit) (l : Rlimit) : Rlimit where
  min := if set_mask.getLsbD 0 then val else l.min
  soft := if set_mask.getLsbD 1 then val else l.soft
  hard := if set_mask.getLsbD 2 then val else l.hard

def cliStep (st : Cli) : Opt → Option Cli
  | .limit id optarg =>
    (vc_parseLimit optarg).map fun val =>
      let set_mask := if st.set_mask = 0 then 4 else st.set_mask
      { st with
        limits := Function.update st.limits id (setParts set_mask val (st.limits id))
        lim_mask := st.lim_mask ||| bit id
        set_mask := 0 }
  | .M => some { st with set_mask := st.set_mask ||| 1 }
  | .S => some { st with set_mask := st.set_mask ||| 2 }
  | .H => some { st with set_mask := st.set_mask ||| 4 }
  | .dir pathname => some { st with dir := some pathname }
  | .missingok => some { st with missing_ok := true }
  | .other => some st
  | .leave => none

/-- `readValue`: what the buffer of 128 bytes takes of a file. -/
def readValue (content : Text) : Option Limit := vc_parseLimit (cstr (content.take 127))

/-- `readFile`, and what is done with a value; none where the program exits. -/
def readFile (w : World) (file : Text) (set : Limit → Rlimit → Rlimit) (st : Rlimit × Bool) :
    Option (Rlimit × Bool) :=
  match w.files file with
  | none => some st
  | some none => none
  | some (some content) => (readValue content).map fun val => (set val st.1, true)

/-- The four files of a resource. -/
def readResource (w : World) (base : Text) (l : Rlimit) : Option (Rlimit × Bool) :=
  (readFile w base (fun val _ => ⟨val, val, val⟩) (l, false)).bind fun st =>
  (readFile w (base ++ ".min".toList) (fun val l => { l with min := val }) st).bind fun st =>
  (readFile w (base ++ ".soft".toList) (fun val l => { l with soft := val }) st).bind fun st =>
  readFile w (base ++ ".hard".toList) (fun val l => { l with hard := val }) st

/-- The path of the directory with a slash behind it. -/
def slashed (pathname : Text) : Text :=
  if pathname.getLast?.all (· == '/') then pathname else pathname ++ ['/']

def dirStep (w : World) (dir : Text) (st : (Nat → Rlimit) × BitVec 32) (i : Nat) :
    Option ((Nat → Rlimit) × BitVec 32) :=
  match LIMIT_STR.getD i none with
  | none => some st
  | some res =>
    if st.2.getLsbD i then some st
    else
      (readResource w (dir ++ lower res) (st.1 i)).map fun r =>
        (Function.update st.1 i r.1, if r.2 then st.2 ||| bit i else st.2)

def readFromDir (w : World) (pathname : Text) (missing_ok : Bool)
    (st : (Nat → Rlimit) × BitVec 32) : Option ((Nat → Rlimit) × BitVec 32) :=
  match w.stat pathname with
  | .found => (List.range LIMIT_STR.length).foldlM (dirStep w (slashed pathname)) st
  | .missing => if missing_ok then some st else none
  | .fails => none

/-- The calls of `vc_set_rlimit`. -/
def setLimits (limits : Nat → Rlimit) (mask : BitVec 32) : List (Nat × Rlimit) :=
  ((List.range 32).filter fun i => mask.getLsbD i).map fun i => (i, limits i)

def Cli.init : Cli := ⟨fun _ => keep, 0, 0, none, false⟩

/-- What is left to do behind the options. -/
def finish (w : World) (st : Cli) : Option ((Nat → Rlimit) × BitVec 32) :=
  match st.dir with
  | none => some (st.limits, st.lim_mask)
  | some dir => readFromDir w dir st.missing_ok (st.limits, st.lim_mask)

def main (w : World) (opts : List Opt) : Option (List (Nat × Rlimit)) :=
  (opts.foldlM cliStep Cli.init).bind fun st => (finish w st).map fun r => setLimits r.1 r.2

/-! ## The records -/

inductive Part where
  | min | soft | hard
  deriving DecidableEq

def Rlimit.get (l : Rlimit) : Part → Limit
  | .min => l.min
  | .soft => l.soft
  | .hard => l.hard

/-- The record with these parts. -/
def Rlimit.of (f : Part → Limit) : Rlimit := ⟨f .min, f .soft, f .hard⟩

/-- A limit option. -/
structure Setting where
  id : Fin 32
  parts : List Part
  value : Text

/-- The limit options, each for the parts that are named since the one before it, and for the hard
limit where none is. -/
def settings (parts : List Part) : List Opt → List Setting
  | [] => []
  | .limit id optarg :: opts =>
    ⟨id, if parts = [] then [.hard] else parts, optarg⟩ :: settings [] opts
  | .M :: opts => settings (.min :: parts) opts
  | .S :: opts => settings (.soft :: parts) opts
  | .H :: opts => settings (.hard :: parts) opts
  | _ :: opts => settings parts opts

def Setting.limit (s : Setting) : Limit := (vc_parseLimit s.value).getD VC_LIM_KEEP

/-- The last value that the options give to a part of a resource. -/
def cliValue (ss : List Setting) (i : Nat) (p : Part) : Option Limit :=
  ((ss.filter fun s => s.id.val = i ∧ p ∈ s.parts).getLast?).map Setting.limit

/-- The value of a file, if it could be read. -/
def fileValue (w : World) (file : Text) : Option Limit :=
  (w.files file).bind fun content => content.bind readValue

def Part.suffix : Part → Text
  | .min => ".min".toList
  | .soft => ".soft".toList
  | .hard => ".hard".toList

theorem suffix_min : Part.min.suffix = ".min".toList := by
  delta Part.suffix
  dsimp only

theorem suffix_soft : Part.soft.suffix = ".soft".toList := by
  delta Part.suffix
  dsimp only

theorem suffix_hard : Part.hard.suffix = ".hard".toList := by
  delta Part.suffix
  dsimp only

/-- The files of a resource. -/
def filesOf (base : Text) : List Text :=
  [base, base ++ ".min".toList, base ++ ".soft".toList, base ++ ".hard".toList]

/-- The record of the files: each part has the value of its own file, else of the base file. -/
def fileRecord (w : World) (base : Text) : Rlimit :=
  Rlimit.of fun p =>
    ((fileValue w (base ++ p.suffix)).or (fileValue w base)).getD VC_LIM_KEEP

/-- The last directory that is named. -/
def lastDir : Option Text → List Opt → Option Text
  | dir, [] => dir
  | _, .dir pathname :: opts => lastDir (some pathname) opts
  | dir, _ :: opts => lastDir dir opts

/-- The directory that is read. -/
def directory (w : World) (opts : List Opt) : Option Text :=
  (lastDir none opts).bind fun dir => if w.stat dir = .found then some (slashed dir) else none

/-- The resource is named by an option. -/
def Given (opts : List Opt) (i : Nat) : Prop := ∃ s ∈ settings [] opts, s.id.val = i

instance (opts : List Opt) (i : Nat) : Decidable (Given opts i) :=
  inferInstanceAs (Decidable (∃ s ∈ _, _))

/-- **The record of a resource**: what the options say, else what the directory says if one of the
files of the resource could be read. -/
def record (w : World) (opts : List Opt) (i : Nat) : Option Rlimit :=
  if Given opts i then
    some (Rlimit.of fun p => (cliValue (settings [] opts) i p).getD VC_LIM_KEEP)
  else
    (directory w opts).bind fun dir => (LIMIT_STR.getD i none).bind fun res =>
      if (filesOf (dir ++ lower res)).any fun file => (fileValue w file).isSome then
        some (fileRecord w (dir ++ lower res))
      else none

/-- What can be opened is read and has a limit in it. -/
def Readable (w : World) (file : Text) : Prop := w.files file = none ∨ (fileValue w file).isSome

/-- **When the program gets to its end**: no option ends it, all values are limits, the directory
is there or may be missing, and the files of the resources that no option names are readable. -/
structure Valid (w : World) (opts : List Opt) : Prop where
  leave : Opt.leave ∉ opts
  values : ∀ s ∈ settings [] opts, (vc_parseLimit s.value).isSome
  dir : ∀ dir, lastDir none opts = some dir →
    w.stat dir = .found ∨ w.stat dir = .missing ∧ Opt.missingok ∈ opts
  files : ∀ dir, directory w opts = some dir → ∀ i res, LIMIT_STR.getD i none = some res →
    ¬ Given opts i → ∀ file ∈ filesOf (dir ++ lower res), Readable w file

/-! ## The files of a resource -/

theorem readFile_of_readable {w : World} {file : Text} (h : Readable w file)
    (set : Limit → Rlimit → Rlimit) (st : Rlimit × Bool) :
    readFile w file set st =
      some (match fileValue w file with
        | none => st
        | some val => (set val st.1, true)) := by
  unfold readFile
  unfold Readable fileValue at h
  unfold fileValue
  cases hf : w.files file with
  | none => rfl
  | some c =>
    rw [hf] at h
    obtain h | h := h
    · cases h
    · cases c with
      | none => cases h
      | some content =>
        obtain ⟨val, hval⟩ := Option.isSome_iff_exists.1 h
        have hval : readValue content = some val := hval
        simp only [Option.bind_some, hval, Option.map_some]

theorem readFile_of_not_readable {w : World} {file : Text} (h : ¬ Readable w file)
    (set : Limit → Rlimit → Rlimit) (st : Rlimit × Bool) : readFile w file set st = none := by
  unfold readFile
  unfold Readable fileValue at h
  cases hf : w.files file with
  | none => exact absurd (Or.inl hf) h
  | some c =>
    cases c with
    | none => rfl
    | some content =>
      rw [hf] at h
      have hval : ¬ (readValue content).isSome = true := fun hs => h (Or.inr hs)
      simp only [Option.not_isSome_iff_eq_none] at hval
      simp only [hval, Option.map_none]

theorem readFile_isSome {w : World} {file : Text} {set : Limit → Rlimit → Rlimit}
    {st r : Rlimit × Bool} (h : readFile w file set st = some r) : Readable w file := by
  by_contra hno
  rw [readFile_of_not_readable hno] at h
  cases h

/-- **The files of a resource**, read over a record. -/
theorem readResource_eq {w : World} {base : Text} (h : ∀ file ∈ filesOf base, Readable w file) :
    readResource w base keep =
      some (fileRecord w base, (filesOf base).any fun file => (fileValue w file).isSome) := by
  have h1 := h base (by simp [filesOf])
  have h2 := h (base ++ ".min".toList) (by simp [filesOf])
  have h3 := h (base ++ ".soft".toList) (by simp [filesOf])
  have h4 := h (base ++ ".hard".toList) (by simp [filesOf])
  unfold readResource
  simp only [readFile_of_readable h1, readFile_of_readable h2, readFile_of_readable h3,
    readFile_of_readable h4, Option.bind_some, fileRecord, Rlimit.of, suffix_min, suffix_soft,
    suffix_hard, filesOf, List.any_cons, List.any_nil]
  cases fileValue w base <;> cases fileValue w (base ++ ".min".toList) <;>
    cases fileValue w (base ++ ".soft".toList) <;> cases fileValue w (base ++ ".hard".toList) <;> rfl

theorem readable_of_readResource {w : World} {base : Text} {l : Rlimit} {r : Rlimit × Bool}
    (h : readResource w base l = some r) : ∀ file ∈ filesOf base, Readable w file := by
  unfold readResource at h
  obtain ⟨st1, h1, h⟩ := Option.bind_eq_some_iff.1 h
  obtain ⟨st2, h2, h⟩ := Option.bind_eq_some_iff.1 h
  obtain ⟨st3, h3, h4⟩ := Option.bind_eq_some_iff.1 h
  intro file hfile
  simp only [filesOf, List.mem_cons, List.not_mem_nil, or_false] at hfile
  obtain rfl | rfl | rfl | rfl := hfile
  · exact readFile_isSome h1
  · exact readFile_isSome h2
  · exact readFile_isSome h3
  · exact readFile_isSome h4

/-! ## The options -/

/-- The parts that a mask stands for. -/
def Matches (parts : List Part) (set_mask : BitVec 3) : Prop :=
  (set_mask.getLsbD 0 = true ↔ .min ∈ parts) ∧ (set_mask.getLsbD 1 = true ↔ .soft ∈ parts) ∧
    (set_mask.getLsbD 2 = true ↔ .hard ∈ parts)

/-- A setting takes effect. -/
def apply (limits : Nat → Rlimit) (s : Setting) : Nat → Rlimit :=
  Function.update limits s.id
    (Rlimit.of fun p => if p ∈ s.parts then s.limit else (limits s.id).get p)

theorem matches_or (parts : List Part) : ∀ m : BitVec 3, Matches parts m →
    Matches (.min :: parts) (m ||| 1) ∧ Matches (.soft :: parts) (m ||| 2) ∧
      Matches (.hard :: parts) (m ||| 4) := by
  intro m h
  obtain ⟨h0, h1, h2⟩ := h
  simp [Matches, ← h0, ← h1, ← h2]

theorem matches_zero {parts : List Part} : ∀ {m : BitVec 3}, Matches parts m →
    (m = 0 ↔ parts = []) := by
  intro m h
  obtain ⟨h0, h1, h2⟩ := h
  constructor
  · rintro rfl
    apply List.eq_nil_iff_forall_not_mem.2
    intro p hp
    cases p with
    | min => exact absurd (h0.2 hp) (by decide)
    | soft => exact absurd (h1.2 hp) (by decide)
    | hard => exact absurd (h2.2 hp) (by decide)
  · rintro rfl
    simp only [List.not_mem_nil, iff_false, Bool.not_eq_true] at h0 h1 h2
    revert h0 h1 h2
    revert m
    decide

theorem setParts_eq {parts : List Part} {m : BitVec 3} (h : Matches parts m) (val : Limit)
    (l : Rlimit) : setParts m val l = Rlimit.of fun p => if p ∈ parts then val else l.get p := by
  obtain ⟨h0, h1, h2⟩ := h
  simp only [setParts, Rlimit.of, Rlimit.get, h0, h1, h2]

/-- The mask that a limit option works with. -/
theorem matches_default {parts : List Part} {m : BitVec 3} (h : Matches parts m) :
    Matches (if parts = [] then [.hard] else parts) (if m = 0 then 4 else m) := by
  by_cases hp : parts = []
  · rw [if_pos hp, if_pos ((matches_zero h).2 hp)]
    exact ⟨by decide, by decide, by decide⟩
  · rw [if_neg hp, if_neg fun hm => hp ((matches_zero h).1 hm)]
    exact h

/-- The options are gone through. -/
def Accepted (parts : List Part) (opts : List Opt) : Prop :=
  Opt.leave ∉ opts ∧ ∀ s ∈ settings parts opts, (vc_parseLimit s.value).isSome = true

/-- What the options leave. -/
structure Left (st st' : Cli) (parts : List Part) (opts : List Opt) : Prop where
  limits : st'.limits = (settings parts opts).foldl apply st.limits
  lim_mask : st'.lim_mask = (settings parts opts).foldl (fun k s => k ||| bit s.id) st.lim_mask
  dir : st'.dir = lastDir st.dir opts
  missing_ok : st'.missing_ok = true ↔ st.missing_ok = true ∨ Opt.missingok ∈ opts

theorem matches_nil : Matches [] 0 := ⟨by decide, by decide, by decide⟩

/-- A limit option does what its setting says. -/
theorem cliStep_limit {st st' : Cli} {parts : List Part} {id : Fin 32} {optarg : Text}
    (hm : Matches parts st.set_mask) (h : cliStep st (.limit id optarg) = some st') :
    (vc_parseLimit optarg).isSome = true ∧
      st' = { st with
        limits := apply st.limits ⟨id, if parts = [] then [.hard] else parts, optarg⟩
        lim_mask := st.lim_mask ||| bit id
        set_mask := 0 } := by
  obtain ⟨val, hval, rfl⟩ := Option.map_eq_some_iff.1 h
  refine ⟨Option.isSome_of_eq_some hval, ?_⟩
  have hlimit : ∀ ps, Setting.limit ⟨id, ps, optarg⟩ = val := fun ps => by
    rw [Setting.limit, hval, Option.getD_some]
  rw [apply, hlimit]
  dsimp only
  rw [setParts_eq (matches_default hm)]

/-- **A run over the options.** -/
theorem foldlM_cliStep {opts : List Opt} {st st' : Cli} {parts : List Part}
    (hm : Matches parts st.set_mask) (h : opts.foldlM cliStep st = some st') :
    Accepted parts opts ∧ Left st st' parts opts := by
  induction opts generalizing st parts with
  | nil =>
    obtain rfl := Option.some.inj h
    exact ⟨⟨by simp, by simp [settings]⟩, ⟨rfl, rfl, rfl, by simp⟩⟩
  | cons o opts ih =>
    rw [List.foldlM_cons] at h
    obtain ⟨st1, h1, h⟩ := Option.bind_eq_some_iff.1 h
    obtain ⟨hmin, hsoft, hhard⟩ := matches_or parts st.set_mask hm
    cases o with
    | limit id optarg =>
      obtain ⟨hval, rfl⟩ := cliStep_limit hm h1
      obtain ⟨⟨hleave, hvals⟩, hlimits, hmask, hdir, hmissing⟩ := ih matches_nil h
      refine ⟨⟨by simpa using hleave, ?_⟩, hlimits, hmask, hdir, by simpa using hmissing⟩
      intro s hs
      obtain rfl | hs := List.mem_cons.1 hs
      · exact hval
      · exact hvals s hs
    | M =>
      obtain rfl := Option.some.inj h1
      obtain ⟨⟨hleave, hvals⟩, hlimits, hmask, hdir, hmissing⟩ := ih hmin h
      exact ⟨⟨by simpa using hleave, hvals⟩, hlimits, hmask, hdir, by simpa using hmissing⟩
    | S =>
      obtain rfl := Option.some.inj h1
      obtain ⟨⟨hleave, hvals⟩, hlimits, hmask, hdir, hmissing⟩ := ih hsoft h
      exact ⟨⟨by simpa using hleave, hvals⟩, hlimits, hmask, hdir, by simpa using hmissing⟩
    | H =>
      obtain rfl := Option.some.inj h1
      obtain ⟨⟨hleave, hvals⟩, hlimits, hmask, hdir, hmissing⟩ := ih hhard h
      exact ⟨⟨by simpa using hleave, hvals⟩, hlimits, hmask, hdir, by simpa using hmissing⟩
    | dir pathname =>
      obtain rfl := Option.some.inj h1
      obtain ⟨⟨hleave, hvals⟩, hlimits, hmask, hdir, hmissing⟩ :=
        @ih { st with dir := some pathname } parts hm h
      exact ⟨⟨by simpa using hleave, hvals⟩, hlimits, hmask, hdir, by simpa using hmissing⟩
    | missingok =>
      obtain rfl := Option.some.inj h1
      obtain ⟨⟨hleave, hvals⟩, hlimits, hmask, hdir, hmissing⟩ :=
        @ih { st with missing_ok := true } parts hm h
      exact ⟨⟨by simpa using hleave, hvals⟩, hlimits, hmask, hdir, by simpa using hmissing⟩
    | other =>
      obtain rfl := Option.some.inj h1
      obtain ⟨⟨hleave, hvals⟩, hlimits, hmask, hdir, hmissing⟩ := ih hm h
      exact ⟨⟨by simpa using hleave, hvals⟩, hlimits, hmask, hdir, by simpa using hmissing⟩
    | leave => cases h1

/-- Options that are accepted are gone through. -/
theorem exists_foldlM_cliStep {opts : List Opt} (st : Cli) {parts : List Part}
    (h : Accepted parts opts) : ∃ st', opts.foldlM cliStep st = some st' := by
  induction opts generalizing st parts with
  | nil => exact ⟨st, rfl⟩
  | cons o opts ih =>
    obtain ⟨hleave, hvals⟩ := h
    have hleave' : Opt.leave ∉ opts := fun hm => hleave (List.mem_cons_of_mem _ hm)
    cases o with
    | limit id optarg =>
      obtain ⟨val, hval⟩ := Option.isSome_iff_exists.1 (hvals _ List.mem_cons_self)
      have hval : vc_parseLimit optarg = some val := hval
      rw [List.foldlM_cons, cliStep, hval]
      exact ih _ ⟨hleave', fun s hs => hvals s (List.mem_cons_of_mem _ hs)⟩
    | M => exact ih _ ⟨hleave', hvals⟩
    | S => exact ih _ ⟨hleave', hvals⟩
    | H => exact ih _ ⟨hleave', hvals⟩
    | dir pathname => exact ih _ ⟨hleave', hvals⟩
    | missingok => exact ih _ ⟨hleave', hvals⟩
    | other => exact ih _ ⟨hleave', hvals⟩
    | leave => exact absurd List.mem_cons_self hleave

/-! ## The settings -/

@[simp] theorem get_of (f : Part → Limit) (p : Part) : (Rlimit.of f).get p = f p := by
  cases p <;> rfl

theorem of_get (l : Rlimit) : Rlimit.of l.get = l := rfl

/-- **The last setting of a part stands.** -/
theorem foldl_apply (ss : List Setting) (limits : Nat → Rlimit) (i : Nat) (p : Part) :
    ((ss.foldl apply limits) i).get p = (cliValue ss i p).getD ((limits i).get p) := by
  induction ss using List.reverseRecOn with
  | nil => rfl
  | append_singleton ss s ih =>
    rw [List.foldl_append, List.foldl_cons, List.foldl_nil]
    by_cases hi : s.id.val = i
    · subst hi
      rw [apply, Function.update_self, get_of]
      by_cases hp : p ∈ s.parts
      · simp [cliValue, List.filter_append, hp]
      · rw [if_neg hp, ih]
        simp [cliValue, List.filter_append, hp]
    · rw [apply, Function.update_of_ne (fun h => hi h.symm), ih]
      simp [cliValue, List.filter_append, hi]

theorem getLsbD_bit {i j : Nat} (hj : j < 32) : (bit i).getLsbD j = decide (i = j) := by
  rw [bit, BitVec.getLsbD_twoPow]
  simp only [Bool.and_eq_right_iff_imp, decide_eq_true_eq]
  omega

theorem getLsbD_or_bit (m : BitVec 32) {i j : Nat} (h : j ≠ i) :
    (m ||| bit i).getLsbD j = m.getLsbD j := by
  rw [BitVec.getLsbD_or, bit, BitVec.getLsbD_twoPow]
  simp [Ne.symm h]

/-- The mask holds the resources of the settings. -/
theorem foldl_mask (ss : List Setting) (m : BitVec 32) {i : Nat} (hi : i < 32) :
    (ss.foldl (fun k s => k ||| bit s.id) m).getLsbD i = true ↔
      m.getLsbD i = true ∨ ∃ s ∈ ss, s.id.val = i := by
  induction ss generalizing m with
  | nil => simp
  | cons s ss ih =>
    rw [List.foldl_cons, ih, BitVec.getLsbD_or, Bool.or_eq_true, getLsbD_bit hi, decide_eq_true_eq,
      or_assoc]
    simp only [List.mem_cons, exists_eq_or_imp]

/-! ## The directory -/

/-- A resource of the directory is readable. -/
def ReadableAt (w : World) (dir : Text) (i : Nat) : Prop :=
  ∀ res, LIMIT_STR.getD i none = some res → ∀ file ∈ filesOf (dir ++ lower res), Readable w file

/-- The record that the directory has for a resource. -/
def dirRecord (w : World) (dir : Text) (i : Nat) : Option Rlimit :=
  (LIMIT_STR.getD i none).bind fun res =>
    if (filesOf (dir ++ lower res)).any fun file => (fileValue w file).isSome then
      some (fileRecord w (dir ++ lower res))
    else none

/-- Without a value the record is the one from before. -/
theorem fileRecord_of_none {w : World} {base : Text}
    (h : ((filesOf base).any fun file => (fileValue w file).isSome) = false) :
    fileRecord w base = keep := by
  simp only [filesOf, List.any_cons, List.any_nil, Bool.or_false, Bool.or_eq_false_iff,
    Option.isSome_eq_false_iff, Option.isNone_iff_eq_none] at h
  obtain ⟨h1, h2, h3, h4⟩ := h
  simp only [fileRecord, Rlimit.of, suffix_min, suffix_soft, suffix_hard, h1, h2, h3, h4]
  rfl

theorem dirStep_masked {w : World} {dir : Text} {st : (Nat → Rlimit) × BitVec 32} {i : Nat}
    (hm : st.2.getLsbD i = true) : dirStep w dir st i = some st := by
  unfold dirStep
  split
  · rfl
  · rw [if_pos hm]

/-- **One resource of the directory.** -/
theorem dirStep_readable {w : World} {dir : Text} {limits : Nat → Rlimit} {m : BitVec 32} {i : Nat}
    (hm : m.getLsbD i = false) (hkeep : limits i = keep) (h : ReadableAt w dir i) :
    dirStep w dir (limits, m) i =
      some (Function.update limits i ((dirRecord w dir i).getD keep),
        if (dirRecord w dir i).isSome then m ||| bit i else m) := by
  unfold dirStep dirRecord
  cases hname : LIMIT_STR.getD i none with
  | none =>
    rw [Option.bind_none, Option.getD_none, ← hkeep, Function.update_eq_self]
    rfl
  | some res =>
    dsimp only
    rw [if_neg (by rw [hm]; decide), hkeep, readResource_eq (h res hname), Option.map_some,
      Option.bind_some]
    dsimp only
    cases hany : (filesOf (dir ++ lower res)).any fun file => (fileValue w file).isSome with
    | true => rfl
    | false =>
      rw [fileRecord_of_none hany]
      rfl

theorem readableAt_of_dirStep {w : World} {dir : Text} {limits : Nat → Rlimit} {m : BitVec 32}
    {i : Nat} {r : (Nat → Rlimit) × BitVec 32} (hm : m.getLsbD i = false)
    (h : dirStep w dir (limits, m) i = some r) : ReadableAt w dir i := by
  intro res hres
  unfold dirStep at h
  rw [hres] at h
  dsimp only at h
  rw [if_neg (by rw [hm]; decide)] at h
  obtain ⟨l, hl, -⟩ := Option.map_eq_some_iff.1 h
  exact readable_of_readResource hl

/-- What a pass over resources of the directory leaves. -/
structure Merged (w : World) (dir : Text) (is : List Nat) (limits : Nat → Rlimit) (m : BitVec 32)
    (r : (Nat → Rlimit) × BitVec 32) : Prop where
  limits : ∀ j, r.1 j =
    if j ∈ is ∧ m.getLsbD j = false then (dirRecord w dir j).getD keep else limits j
  mask : ∀ j < 32, r.2.getLsbD j = true ↔
    m.getLsbD j = true ∨ j ∈ is ∧ (dirRecord w dir j).isSome = true

/-- **A pass over the directory.** -/
theorem foldlM_dirStep {w : World} {dir : Text} {is : List Nat} (hnodup : is.Nodup)
    {limits : Nat → Rlimit} {m : BitVec 32}
    (hkeep : ∀ i ∈ is, m.getLsbD i = false → limits i = keep)
    (h : ∀ i ∈ is, m.getLsbD i = false → ReadableAt w dir i) :
    ∃ r, is.foldlM (dirStep w dir) (limits, m) = some r ∧ Merged w dir is limits m r := by
  induction is generalizing limits m with
  | nil => exact ⟨(limits, m), rfl, ⟨fun j => by simp, fun j _ => by simp⟩⟩
  | cons i is ih =>
    obtain ⟨hi, hnodup⟩ := List.nodup_cons.1 hnodup
    have hne : ∀ j ∈ is, j ≠ i := fun j hj hji => hi (hji ▸ hj)
    cases hm : m.getLsbD i with
    | true =>
      obtain ⟨r, hr, hlimits, hmask⟩ := ih hnodup
        (fun j hj => hkeep j (List.mem_cons_of_mem _ hj))
        (fun j hj => h j (List.mem_cons_of_mem _ hj))
      refine ⟨r, ?_, ⟨fun j => ?_, fun j hj => ?_⟩⟩
      · rw [List.foldlM_cons, dirStep_masked hm]
        exact hr
      · rw [hlimits j]
        by_cases hji : j = i
        · subst hji
          simp [hm]
        · simp [hji]
      · rw [hmask j hj]
        by_cases hji : j = i
        · subst hji
          simp [hm]
        · simp [hji]
    | false =>
      have hstep := dirStep_readable hm (hkeep i List.mem_cons_self hm)
        (h i List.mem_cons_self hm)
      obtain ⟨m', hm'⟩ : ∃ m', m' = if (dirRecord w dir i).isSome then m ||| bit i else m := ⟨_, rfl⟩
      rw [← hm'] at hstep
      have hother : ∀ j, j ≠ i → m'.getLsbD j = m.getLsbD j := by
        intro j hj
        rw [hm']
        split
        · exact getLsbD_or_bit m hj
        · rfl
      have hkeep' : ∀ j ∈ is, m'.getLsbD j = false →
          Function.update limits i ((dirRecord w dir i).getD keep) j = keep := by
        intro j hj hmj
        rw [Function.update_of_ne (hne j hj)]
        exact hkeep j (List.mem_cons_of_mem _ hj) (hother j (hne j hj) ▸ hmj)
      obtain ⟨r, hr, hlimits, hmask⟩ := ih hnodup hkeep'
        (fun j hj hmj => h j (List.mem_cons_of_mem _ hj) (hother j (hne j hj) ▸ hmj))
      refine ⟨r, ?_, ⟨fun j => ?_, fun j hj => ?_⟩⟩
      · rw [List.foldlM_cons, hstep]
        exact hr
      · rw [hlimits j]
        by_cases hji : j = i
        · subst hji
          simp [hm, hi]
        · rw [Function.update_of_ne hji, hother j hji]
          simp [hji]
      · rw [hmask j hj]
        by_cases hji : j = i
        · subst hji
          have hself : m'.getLsbD j = true ↔ (dirRecord w dir j).isSome = true := by
            rw [hm']
            split
            · rename_i hsome
              simp [BitVec.getLsbD_or, getLsbD_bit hj, hsome]
            · rename_i hnone
              simp [hm, hnone]
          rw [hself]
          simp [hm, hi]
        · rw [hother j hji]
          simp [hji]

/-- A pass that ends has read everything. -/
theorem readable_of_foldlM {w : World} {dir : Text} {is : List Nat} (hnodup : is.Nodup)
    {limits : Nat → Rlimit} {m : BitVec 32} {r : (Nat → Rlimit) × BitVec 32}
    (hr : is.foldlM (dirStep w dir) (limits, m) = some r) :
    ∀ i ∈ is, m.getLsbD i = false → ReadableAt w dir i := by
  induction is generalizing limits m with
  | nil => simp
  | cons i is ih =>
    obtain ⟨hi, hnodup⟩ := List.nodup_cons.1 hnodup
    rw [List.foldlM_cons] at hr
    obtain ⟨⟨limits', m'⟩, hstep, hr⟩ := Option.bind_eq_some_iff.1 hr
    have hother : ∀ j, j ≠ i → m'.getLsbD j = m.getLsbD j := by
      intro j hj
      unfold dirStep at hstep
      split at hstep
      · obtain ⟨-, rfl⟩ := Prod.mk.inj (Option.some.inj hstep)
        rfl
      · split at hstep
        · obtain ⟨-, rfl⟩ := Prod.mk.inj (Option.some.inj hstep)
          rfl
        · obtain ⟨l, -, hl⟩ := Option.map_eq_some_iff.1 hstep
          obtain ⟨-, rfl⟩ := Prod.mk.inj hl
          split
          · exact getLsbD_or_bit m hj
          · rfl
    intro j hj hmj
    obtain rfl | hj := List.mem_cons.1 hj
    · exact readableAt_of_dirStep hmj hstep
    · have hne : j ≠ i := fun hji => hi (hji ▸ hj)
      exact ih hnodup hr j hj (hother j hne ▸ hmj)

/-! ## The program -/

/-- The calls for a mask and records. -/
theorem setLimits_eq {limits : Nat → Rlimit} {mask : BitVec 32} {rec : Nat → Option Rlimit}
    (h : ∀ i < 32, (mask.getLsbD i = true ↔ (rec i).isSome = true) ∧
      ∀ l, rec i = some l → limits i = l) :
    setLimits limits mask = (List.range 32).filterMap fun i => (rec i).map fun l => (i, l) := by
  unfold setLimits
  have hlt : ∀ i ∈ List.range 32, i < 32 := fun i hi => List.mem_range.1 hi
  generalize List.range 32 = is at hlt ⊢
  induction is with
  | nil => rfl
  | cons i is ih =>
    have ih := ih fun j hj => hlt j (List.mem_cons_of_mem _ hj)
    obtain ⟨hmask, hrec⟩ := h i (hlt i List.mem_cons_self)
    rw [List.filter_cons, List.filterMap_cons]
    cases hr : rec i with
    | none =>
      rw [hr] at hmask
      rw [if_neg fun hm => absurd (hmask.1 hm) (by decide), ih]
      rfl
    | some l =>
      rw [hr] at hmask
      rw [if_pos (hmask.2 rfl), List.map_cons, ih, hrec l hr]
      rfl

/-- The options alone. -/
theorem record_given {w : World} {opts : List Opt} {i : Nat} (h : Given opts i) :
    record w opts i =
      some (((settings [] opts).foldl apply Cli.init.limits) i) := by
  rw [record, if_pos h]
  congr 1
  rw [← of_get (((settings [] opts).foldl apply Cli.init.limits) i)]
  congr 1
  funext p
  rw [foldl_apply]
  cases p <;> rfl

/-- A resource that no option names keeps its record. -/
theorem foldl_apply_of_not_given {opts : List Opt} {i : Nat} (h : ¬ Given opts i) :
    ((settings [] opts).foldl apply Cli.init.limits) i = keep := by
  rw [← of_get (((settings [] opts).foldl apply Cli.init.limits) i), ← of_get keep]
  congr 1
  funext p
  rw [foldl_apply]
  have hnone : (settings [] opts).filter (fun s => s.id.val = i ∧ p ∈ s.parts) = [] := by
    rw [List.filter_eq_nil_iff]
    intro s hs hc
    exact h ⟨s, hs, (of_decide_eq_true hc).1⟩
  rw [cliValue, hnone]
  cases p <;> rfl

/-- Without an option the directory decides. -/
theorem record_not_given {w : World} {opts : List Opt} {i : Nat} (h : ¬ Given opts i) :
    record w opts i = (directory w opts).bind fun dir => dirRecord w dir i := by
  rw [record, if_neg h]
  rfl

theorem mask_iff {opts : List Opt} {st : Cli} (h : Left Cli.init st [] opts) {i : Nat}
    (hi : i < 32) : st.lim_mask.getLsbD i = true ↔ Given opts i := by
  rw [h.lim_mask, foldl_mask _ _ hi]
  simp [Cli.init, Given]

/-- Records that the directory has nothing to say about. -/
theorem setLimits_cli {w : World} {opts : List Opt} {st : Cli} (h : Left Cli.init st [] opts)
    (hdir : directory w opts = none) : setLimits st.limits st.lim_mask =
      (List.range 32).filterMap fun i => (record w opts i).map fun l => (i, l) := by
  apply setLimits_eq
  intro i hi
  rw [mask_iff h hi, h.limits]
  by_cases hg : Given opts i
  · rw [record_given hg]
    exact ⟨by simp [hg], fun l hl => Option.some.inj hl⟩
  · rw [record_not_given hg, hdir]
    exact ⟨by simp [hg], fun l hl => by cases hl⟩

theorem name_of_le {i : Nat} (h : LIMIT_STR.length ≤ i) : LIMIT_STR.getD i none = none := by
  rw [List.getD_eq_getElem?_getD, List.getElem?_eq_none h]
  rfl

theorem dirRecord_of_le {w : World} {dir : Text} {i : Nat} (h : LIMIT_STR.length ≤ i) :
    dirRecord w dir i = none := by
  rw [dirRecord, name_of_le h]
  rfl

/-- Where the mask has no bit the record is still the one from the start. -/
theorem keep_of_mask {opts : List Opt} {st : Cli} (h : Left Cli.init st [] opts) {i : Nat}
    (hi : i < 32) (hm : st.lim_mask.getLsbD i = false) : ¬ Given opts i ∧ st.limits i = keep := by
  have hg : ¬ Given opts i := by
    rw [← mask_iff h hi, hm]
    exact Bool.false_ne_true
  rw [h.limits]
  exact ⟨hg, foldl_apply_of_not_given hg⟩

/-- Records with the directory merged in. -/
theorem setLimits_dir {w : World} {opts : List Opt} {st : Cli} {dir : Text}
    {r : (Nat → Rlimit) × BitVec 32} (h : Left Cli.init st [] opts)
    (hdir : directory w opts = some dir)
    (hr : Merged w dir (List.range LIMIT_STR.length) st.limits st.lim_mask r) :
    setLimits r.1 r.2 =
      (List.range 32).filterMap fun i => (record w opts i).map fun l => (i, l) := by
  apply setLimits_eq
  intro i hi
  rw [hr.mask i hi, hr.limits i]
  have hm := mask_iff h hi
  by_cases hg : Given opts i
  · rw [record_given hg, if_neg (by simp [hm.2 hg]), h.limits, hm]
    exact ⟨by simp [hg], fun l hl => Option.some.inj hl⟩
  · have hfalse : st.lim_mask.getLsbD i = false := by
      rw [← Bool.not_eq_true, hm]
      exact hg
    rw [record_not_given hg, hdir, Option.bind_some, hfalse]
    by_cases hlt : i < LIMIT_STR.length
    · have hmem : i ∈ List.range LIMIT_STR.length := List.mem_range.2 hlt
      rw [if_pos ⟨hmem, rfl⟩]
      refine ⟨by simp [hmem], fun l hl => ?_⟩
      rw [hl]
      rfl
    · rw [dirRecord_of_le (Nat.le_of_not_lt hlt)]
      exact ⟨by simp, fun l hl => by cases hl⟩

theorem readableAt_iff {w : World} {opts : List Opt} {dir : Text} (hdir : directory w opts = some dir)
    (hlt : ∀ i < LIMIT_STR.length, ¬ Given opts i → ReadableAt w dir i) :
    ∀ dir, directory w opts = some dir → ∀ i res, LIMIT_STR.getD i none = some res →
      ¬ Given opts i → ∀ file ∈ filesOf (dir ++ lower res), Readable w file := by
  intro dir' hdir' i res hres hg file hfile
  rw [hdir] at hdir'
  obtain rfl := Option.some.inj hdir'
  have hi : i < LIMIT_STR.length := by
    by_contra hge
    rw [name_of_le (Nat.le_of_not_lt hge)] at hres
    cases hres
  exact hlt i hi hg res hres file hfile

/-- **The options are done**: what the directory needs, and what comes out. -/
theorem finish_some {w : World} {opts : List Opt} {st : Cli} {r : (Nat → Rlimit) × BitVec 32}
    (hacc : Accepted [] opts) (h : Left Cli.init st [] opts) (hr : finish w st = some r) :
    Valid w opts ∧ setLimits r.1 r.2 =
      (List.range 32).filterMap fun i => (record w opts i).map fun l => (i, l) := by
  have hlt32 : LIMIT_STR.length ≤ 32 := by decide
  have hstdir : st.dir = lastDir none opts := h.dir
  unfold finish at hr
  cases hd : lastDir none opts with
  | none =>
    have hdir : directory w opts = none := by rw [directory, hd]; rfl
    rw [hstdir, hd] at hr
    obtain rfl := Option.some.inj hr
    refine ⟨⟨hacc.1, hacc.2, fun d hd' => ?_, fun d hd' => ?_⟩, setLimits_cli h hdir⟩
    · rw [hd] at hd'
      cases hd'
    · rw [hdir] at hd'
      cases hd'
  | some d =>
    rw [hstdir, hd] at hr
    have hr : readFromDir w d st.missing_ok (st.limits, st.lim_mask) = some r := hr
    unfold readFromDir at hr
    cases hs : w.stat d with
    | found =>
      have hdir : directory w opts = some (slashed d) := by
        rw [directory, hd, Option.bind_some, if_pos hs]
      rw [hs] at hr
      dsimp only at hr
      have hreadable : ∀ i ∈ List.range LIMIT_STR.length, st.lim_mask.getLsbD i = false →
          ReadableAt w (slashed d) i := readable_of_foldlM List.nodup_range hr
      have hnot : ∀ i < LIMIT_STR.length, ¬ Given opts i → st.lim_mask.getLsbD i = false := by
        intro i hi hg
        rw [← Bool.not_eq_true, mask_iff h (by omega)]
        exact hg
      have hkeep : ∀ i ∈ List.range LIMIT_STR.length, st.lim_mask.getLsbD i = false →
          st.limits i = keep := fun i hi hm =>
        (keep_of_mask h (Nat.lt_of_lt_of_le (List.mem_range.1 hi) hlt32) hm).2
      obtain ⟨r', hr', hmerged⟩ := foldlM_dirStep List.nodup_range hkeep hreadable
      rw [hr] at hr'
      obtain rfl := Option.some.inj hr'
      refine ⟨⟨hacc.1, hacc.2, fun d' hd' => ?_, ?_⟩, setLimits_dir h hdir hmerged⟩
      · rw [hd] at hd'
        obtain rfl := Option.some.inj hd'
        exact Or.inl hs
      · exact readableAt_iff hdir fun i hi hg =>
          hreadable i (List.mem_range.2 hi) (hnot i hi hg)
    | missing =>
      have hdir : directory w opts = none := by
        rw [directory, hd, Option.bind_some, if_neg (by rw [hs]; decide)]
      rw [hs] at hr
      obtain ⟨hok, hr⟩ := (Option.ite_none_right_eq_some ..).1 hr
      obtain rfl := Option.some.inj hr
      refine ⟨⟨hacc.1, hacc.2, fun d' hd' => ?_, fun d' hd' => ?_⟩, setLimits_cli h hdir⟩
      · rw [hd] at hd'
        obtain rfl := Option.some.inj hd'
        exact Or.inr ⟨hs, (h.missing_ok.1 hok).resolve_left (by decide)⟩
      · rw [hdir] at hd'
        cases hd'
    | fails =>
      rw [hs] at hr
      cases hr

/-- With valid options and a directory that can be read the end is reached. -/
theorem exists_finish {w : World} {opts : List Opt} {st : Cli} (hv : Valid w opts)
    (h : Left Cli.init st [] opts) : ∃ r, finish w st = some r := by
  have hlt32 : LIMIT_STR.length ≤ 32 := by decide
  have hstdir : st.dir = lastDir none opts := h.dir
  unfold finish
  rw [hstdir]
  cases hd : lastDir none opts with
  | none => exact ⟨_, rfl⟩
  | some d =>
    show ∃ r, readFromDir w d st.missing_ok (st.limits, st.lim_mask) = some r
    unfold readFromDir
    obtain hs | ⟨hs, hok⟩ := hv.dir d hd
    · rw [hs]
      have hdir : directory w opts = some (slashed d) := by
        rw [directory, hd, Option.bind_some, if_pos hs]
      have hkeep : ∀ i ∈ List.range LIMIT_STR.length, st.lim_mask.getLsbD i = false →
          ¬ Given opts i ∧ st.limits i = keep := fun i hi hm =>
        keep_of_mask h (Nat.lt_of_lt_of_le (List.mem_range.1 hi) hlt32) hm
      have hreadable : ∀ i ∈ List.range LIMIT_STR.length, st.lim_mask.getLsbD i = false →
          ReadableAt w (slashed d) i := fun i hi hm res hres =>
        hv.files _ hdir i res hres (hkeep i hi hm).1
      obtain ⟨r, hr, -⟩ := foldlM_dirStep List.nodup_range (fun i hi hm => (hkeep i hi hm).2)
        hreadable
      exact ⟨r, hr⟩
    · rw [hs]
      exact ⟨_, if_pos (h.missing_ok.2 (Or.inr hok))⟩

/-- **What `vlimit` sets**: it gets to its end exactly when it should, and then it sets the records
that belong to the resources. -/
theorem main_iff (w : World) (opts : List Opt) (calls : List (Nat × Rlimit)) :
    main w opts = some calls ↔ Valid w opts ∧
      calls = (List.range 32).filterMap fun i => (record w opts i).map fun l => (i, l) := by
  unfold main
  constructor
  · intro hmain
    obtain ⟨st, hst, hmain⟩ := Option.bind_eq_some_iff.1 hmain
    obtain ⟨r, hr, rfl⟩ := Option.map_eq_some_iff.1 hmain
    obtain ⟨hacc, hleft⟩ := foldlM_cliStep matches_nil hst
    exact finish_some hacc hleft hr
  · rintro ⟨hv, rfl⟩
    have hacc : Accepted [] opts := ⟨hv.leave, hv.values⟩
    obtain ⟨st, hst⟩ := exists_foldlM_cliStep Cli.init hacc
    obtain ⟨-, hleft⟩ := foldlM_cliStep matches_nil hst
    obtain ⟨r, hr⟩ := exists_finish hv hleft
    rw [hst, Option.bind_some, hr, Option.map_some, (finish_some hacc hleft hr).2]

/-- A hard limit from the options, and a soft limit of a file over its base file. -/
example : main ⟨fun _ => .found, fun file =>
      if file = "d/nofile".toList then some (some "10".toList)
      else if file = "d/nofile.soft".toList then some (some "5\n".toList)
      else if file = "d/cpu".toList then some (some "7".toList) else none⟩
    [.M, .limit 0 "3".toList, .dir "d".toList] =
      some [(0, ⟨3, VC_LIM_KEEP, VC_LIM_KEEP⟩), (7, ⟨10, 5, 10⟩)] := by
  decide +kernel

end Vlimit
