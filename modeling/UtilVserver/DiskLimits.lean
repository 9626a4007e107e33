import Mathlib.Data.List.Infix
import Mathlib.Logic.Function.Basic
import UtilVserver.Vdlimit

/-!
# Disk limits over a stop and a start (`scripts/vserver.functions`)

When a vserver is stopped, `saveDiskLimits` asks the kernel for the usage of each of its `dlimits`
directories, writes it to a cache file and removes the limit; `setDiskLimits` sets the limits
again, with the usage from the cache.  The stop goes on behind a command that fails, the start ends
there.

* `vdlimitSet`, `vdlimitGet`, `vdlimitRemove` — the calls of `vdlimit`.
* `Dlimit`, `Config`, `World` — the configuration, and what is outside of the scripts.
* `saveDiskLimits`, `setDiskLimits` — the two functions.
* `Outcome` — what one directory of the start does.

Principal results: `source_usedLines` (the cache file gives back the usage), `save_file` (what a file
has at the end of the stop) and `setSingle_outcome`.
-/

set_option autoImplicit false

namespace DiskLimits

open CString DecimalText Vdlimit

/-- The limits of the context, by directory. -/
abbrev Dlimits := Text → Option Limits

/-! ## The tool -/

/-- The lines of `printDlimit`. -/
def printDlimit (filename : Text) (xid : Word) (limit : Limits) : List Text :=
  (writeInt xid ++ ' ' :: filename) :: members.map fun m => option m (writeInt (limit.get m))

def isHigherLimit (lhs rhs : Word) : Bool :=
  if lhs = VC_CDLIM_KEEP ∨ rhs = VC_CDLIM_KEEP then false else decide (rhs < lhs)

/-- What is outside of the scripts: the counting of `vdu`, the success of a line that is run as a
command, a limit that has just been added, and the directories that the kernel takes. -/
structure World where
  vdu : Text → Option (BitVec 64 × BitVec 64)
  command : Text → Bool
  fresh : Limits
  accepts : Text → Bool
  fresh_keep : ∀ m, fresh.get m ≠ VC_CDLIM_KEEP
  accepts_nil : accepts [] = false

/-- The kernel takes the directories that it has limits for. -/
def World.Knows (w : World) (lims : Dlimits) : Prop := ∀ d, lims d ≠ none → w.accepts d = true

/-- A member that is not kept is replaced. -/
def replaceWord (old new : Word) : Word := if new = VC_CDLIM_KEEP then old else new

/-- `vc_set_dlimit`. -/
def replaceLimits (old new : Limits) : Limits where
  space_used := replaceWord old.space_used new.space_used
  space_total := replaceWord old.space_total new.space_total
  inodes_used := replaceWord old.inodes_used new.inodes_used
  inodes_total := replaceWord old.inodes_total new.inodes_total
  reserved := replaceWord old.reserved new.reserved

/-- `setDlimit`; a limit that is added for nothing is removed again. -/
def setDlimit (w : World) (filename : Text) (limit : Limits) (lims : Dlimits) : Option Dlimits :=
  if w.accepts filename then
    some (Function.update lims filename (some (replaceLimits ((lims filename).getD w.fresh) limit)))
  else none

/-- What `getopt_long` takes for an option. -/
def isOption (arg : Text) : Bool := arg.head? = some '-' && arg ≠ ['-']

/-- An option, perhaps abbreviated, that ends the tool with success. -/
def isHelp (arg : Text) : Bool :=
  decide (3 ≤ arg.length) && (arg.isPrefixOf "--help".toList || arg.isPrefixOf "--version".toList)

/-- `vdlimit --xid <xid> --set <opt>... <filename>`; none when it fails. -/
def vdlimitSet (w : World) (opts : List Text) (filename : Text) (lims : Dlimits) :
    Option Dlimits :=
  match setAll keepAll opts with
  | .error _ => none
  | .ok limit =>
    if isOption filename then if isHelp filename then some lims else none
    else if isHigherLimit limit.space_used limit.space_total then none
    else if isHigherLimit limit.inodes_used limit.inodes_total then none
    else setDlimit w filename limit lims

/-- The output of `vdlimit --xid <xid> <filename>`; the texts for help are left out. -/
def vdlimitGet (xid : Word) (filename : Text) (lims : Dlimits) : List Text :=
  if isOption filename then []
  else
    match lims filename with
    | none => []
    | some limit => printDlimit filename xid limit

/-- `vdlimit --xid <xid> --remove <filename>`. -/
def vdlimitRemove (filename : Text) (lims : Dlimits) : Dlimits :=
  if isOption filename then lims else Function.update lims filename none

/-! ## The scripts -/

/-- What `read` takes from a file: a line. -/
structure Line where
  text : Text
  noNewline : '\n' ∉ text

/-- The same without blanks and pattern characters, so that it stays one word. -/
structure Value where
  text : Text
  oneWord : (text.all fun c => !" \t\n*?[".toList.contains c) = true

/-- A file of the configuration: it may be missing, or its first line may have no end. -/
inductive File (α : Type) where
  | absent
  | unended
  | line (v : α)

/-- `getFileValue`: a variable stays empty without the file, and that counts as success; `read`
fails when the line has no end. -/
def getFileValue {α : Type} (text : α → Text) : File α → Option Text
  | .absent => some []
  | .unended => none
  | .line v => some (text v)

/-- A `dlimits` directory. -/
structure Dlimit where
  disabled : Bool
  directory : File Line
  space_total : File Value
  inodes_total : File Value
  reserved : File Value

/-- The variables that `_setSingleDiskLimit` reads. -/
structure Vars where
  directory : Text
  space_total : Text
  inodes_total : Text
  reserved : Text

/-- `space_used` and `inodes_used`. -/
structure Usage where
  space_used : Text
  inodes_used : Text

/-- The variables; none when the function returns before it does anything. -/
def Dlimit.vars (e : Dlimit) : Option Vars :=
  (getFileValue Line.text e.directory).bind fun directory =>
    (getFileValue Value.text e.space_total).bind fun space_total =>
      (getFileValue Value.text e.inodes_total).bind fun inodes_total =>
        (getFileValue Value.text e.reserved).map fun reserved =>
          ⟨directory, space_total, inodes_total, reserved⟩

/-- `${cachename//\//_}`. -/
def cachename (ctx directory : Text) : Text :=
  (ctx ++ directory).map fun c => if c = '/' then '_' else c

/-- A line that `grep '_used='` keeps. -/
def hasUsed (line : Text) : Bool := decide ("_used=".toList <:+: line)

/-- All files are there, and the directory can be read. -/
def Dlimit.Configured (e : Dlimit) : Prop :=
  (∃ directory, e.directory = .line directory) ∧ e.space_total ≠ .absent ∧
    e.inodes_total ≠ .absent ∧ e.reserved ≠ .absent

/-- Each file has a line. -/
def Dlimit.Complete (e : Dlimit) : Prop :=
  ∃ directory space_total inodes_total reserved,
    e.directory = .line directory ∧ e.space_total = .line space_total ∧
      e.inodes_total = .line inodes_total ∧ e.reserved = .line reserved

/-- The directory that is configured. -/
def Dlimit.path (e : Dlimit) : Text := (getFileValue Line.text e.directory).getD []

/-- A vserver with a static context: the context as its file gives it and as a number, a place for
the cache, the names that a cache file can have, and the `dlimits` directories. -/
structure Config where
  ctx : Text
  xid : Word
  place : Bool
  fits : Text → Bool
  dlimits : List Dlimit

/-- The directories both functions run over. -/
def Config.active (c : Config) : List Dlimit := c.dlimits.filter fun e => !e.disabled

def Config.name (c : Config) (directory : Text) : Text := cachename c.ctx directory

/-- The kernel's limits and the cache files. -/
structure State where
  lims : Dlimits
  cache : Text → Option (List Text)

/-- The cache file of this name. -/
def State.file (c : Config) (st : State) (name : Text) : Option (List Text) :=
  if c.place && c.fits name then st.cache name else none

/-- `_saveSingleDiskLimit` with its directory. -/
def saveDirectory (c : Config) (st : State) (directory : Text) : State :=
  if c.place then
    let name := c.name directory
    let out := (vdlimitGet c.xid directory st.lims).filter hasUsed
    { lims := vdlimitRemove directory st.lims
      cache := if c.fits name then Function.update st.cache name (some out) else st.cache }
  else st

def saveSingle (c : Config) (st : State) (e : Dlimit) : State :=
  match getFileValue Line.text e.directory with
  | none => st
  | some directory => saveDirectory c st directory

def saveDiskLimits (c : Config) (st : State) : State := c.active.foldl (saveSingle c) st

/-- A line of a cache file. -/
def sourceLine (command : Text → Bool) (used : Usage) (line : Text) : Option Usage :=
  if "space_used=".toList.isPrefixOf line then
    some { used with space_used := line.drop 11 }
  else if "inodes_used=".toList.isPrefixOf line then
    some { used with inodes_used := line.drop 12 }
  else if command line then some used
  else none

/-- `test -e <file> && . <file>` -/
def source (command : Text → Bool) (file : Option (List Text)) : Option Usage :=
  (file.getD []).foldlM (sourceLine command) ⟨[], []⟩

/-- The usage is counted when the cache did not give it. -/
def countUsage (vdu : Text → Option (BitVec 64 × BitVec 64)) (directory : Text) (used : Usage) :
    Option Usage :=
  if used.inodes_used = [] ∨ used.space_used = [] then
    (vdu directory).map fun r => ⟨decimal r.1.toNat, decimal r.2.toNat⟩
  else some used

def options (vars : Vars) (used : Usage) : List Text :=
  [option .space_used used.space_used, option .space_total vars.space_total,
    option .inodes_used used.inodes_used, option .inodes_total vars.inodes_total,
    option .reserved vars.reserved]

/-- The usage that `_setSingleDiskLimit` gives to `vdlimit`. -/
def usage (c : Config) (w : World) (st : State) (vars : Vars) : Option Usage :=
  (source w.command (st.file c (c.name vars.directory))).bind (countUsage w.vdu vars.directory)

/-- `_setSingleDiskLimit`; false when the script ends. -/
def setSingle (c : Config) (w : World) (st : State) (e : Dlimit) : State × Bool :=
  match e.vars with
  | none => (st, true)
  | some vars =>
    match source w.command (st.file c (c.name vars.directory)) with
    | none => (st, false)
    | some used =>
      let cache := Function.update st.cache (c.name vars.directory) none
      match countUsage w.vdu vars.directory used with
      | none => (⟨st.lims, cache⟩, false)
      | some used =>
        match vdlimitSet w (options vars used) vars.directory st.lims with
        | none => (⟨st.lims, cache⟩, false)
        | some lims => (⟨lims, cache⟩, true)

/-- The directories one by one, up to a failure. -/
def setEach (c : Config) (w : World) : State → List Dlimit → State × Bool
  | st, [] => (st, true)
  | st, e :: es =>
    let r := setSingle c w st e
    if r.2 then setEach c w r.1 es else r

def setDiskLimits (c : Config) (w : World) (st : State) : State × Bool := setEach c w st c.active

/-! ## Numbers and options -/

/-- The limit that a text stands for. -/
def limit (t : Text) : Option Word := (denotes t).bind limitOf

/-- The word that a field gets for a text. -/
def stored (t : Text) : Option Word := (denotes t).map fun v => BitVec.ofInt 32 (clamp 64 v)

theorem stored_nil : stored [] = none := rfl

theorem stored_of_limit {t : Text} {w : Word} (h : limit t = some w) :
    stored t = some w ∧ w ≠ VC_CDLIM_KEEP := by
  obtain ⟨v, hv, hw⟩ := Option.bind_eq_some_iff.1 h
  obtain ⟨hword, hkeep⟩ := limitOf_spec hw
  refine ⟨?_, hkeep⟩
  rw [stored, hv, Option.map_some, hword]

theorem setDLimitField_stored (dst : Limits) (m : Member) (t : Text) (limit : Limits) :
    setDLimitField dst (option m t) = .ok limit ↔
      dst.get m = VC_CDLIM_KEEP ∧ ∃ w, stored t = some w ∧ limit = dst.set m w := by
  rw [setDLimitField_option]
  unfold stored
  cases denotes t <;> simp

/-- A number that is printed is stored again. -/
theorem stored_writeInt (w : Word) : stored (writeInt w) = some w := by
  have hset : setDLimitField keepAll (option .reserved (writeInt w)) = .ok (keepAll.set .reserved w) :=
    set_writeInt rfl w
  obtain ⟨-, w', hw', heq⟩ := (setDLimitField_stored _ _ _ _).1 hset
  rw [hw', show w = w' from congrArg Limits.reserved heq]

theorem setAll_cons {limit limit' : Limits} {opt : Text} {opts : List Text} :
    setAll limit (opt :: opts) = .ok limit' ↔
      ∃ l, setDLimitField limit opt = .ok l ∧ setAll l opts = .ok limit' := by
  rw [setAll]
  cases setDLimitField limit opt with
  | error e => simp [bind, Except.bind]
  | ok l => simp [bind, Except.bind]

/-- The numbers of the options. -/
structure Parsed (vars : Vars) (used : Usage) (l : Limits) : Prop where
  space_used : stored used.space_used = some l.space_used
  space_total : stored vars.space_total = some l.space_total
  inodes_used : stored used.inodes_used = some l.inodes_used
  inodes_total : stored vars.inodes_total = some l.inodes_total
  reserved : stored vars.reserved = some l.reserved

/-- The options are read when each of the numbers is. -/
theorem setAll_options {vars : Vars} {used : Usage} {l : Limits} :
    setAll keepAll (options vars used) = .ok l ↔ Parsed vars used l := by
  constructor
  · intro h
    obtain ⟨_, h1, h⟩ := setAll_cons.1 h
    obtain ⟨-, a, ha, rfl⟩ := (setDLimitField_stored _ _ _ _).1 h1
    obtain ⟨_, h2, h⟩ := setAll_cons.1 h
    obtain ⟨-, b, hb, rfl⟩ := (setDLimitField_stored _ _ _ _).1 h2
    obtain ⟨_, h3, h⟩ := setAll_cons.1 h
    obtain ⟨-, c, hc, rfl⟩ := (setDLimitField_stored _ _ _ _).1 h3
    obtain ⟨_, h4, h⟩ := setAll_cons.1 h
    obtain ⟨-, d, hd, rfl⟩ := (setDLimitField_stored _ _ _ _).1 h4
    obtain ⟨_, h5, h⟩ := setAll_cons.1 h
    obtain ⟨-, e, he, rfl⟩ := (setDLimitField_stored _ _ _ _).1 h5
    cases h
    exact ⟨ha, hb, hc, hd, he⟩
  · rintro ⟨ha, hb, hc, hd, he⟩
    refine setAll_cons.2 ⟨_, (setDLimitField_stored _ _ _ _).2 ⟨rfl, _, ha, rfl⟩, ?_⟩
    refine setAll_cons.2 ⟨_, (setDLimitField_stored _ _ _ _).2 ⟨rfl, _, hb, rfl⟩, ?_⟩
    refine setAll_cons.2 ⟨_, (setDLimitField_stored _ _ _ _).2 ⟨rfl, _, hc, rfl⟩, ?_⟩
    refine setAll_cons.2 ⟨_, (setDLimitField_stored _ _ _ _).2 ⟨rfl, _, hd, rfl⟩, ?_⟩
    exact setAll_cons.2 ⟨_, (setDLimitField_stored _ _ _ _).2 ⟨rfl, _, he, rfl⟩, rfl⟩

/-- What `vdlimit` needs to set a limit. -/
structure Settable (w : World) (d : Text) (limit : Limits) : Prop where
  plain : isOption d = false
  space : isHigherLimit limit.space_used limit.space_total = false
  inodes : isHigherLimit limit.inodes_used limit.inodes_total = false
  accepts : w.accepts d = true

section Tool

variable {w : World} {vars : Vars} {used : Usage} {d : Text} {lims lims' : Dlimits} {limit : Limits}

theorem vdlimitSet_of_settable (hparsed : Parsed vars used limit) (hset : Settable w d limit) :
    vdlimitSet w (options vars used) d lims =
      some (Function.update lims d (some (replaceLimits ((lims d).getD w.fresh) limit))) := by
  simp [vdlimitSet, setAll_options.2 hparsed, setDlimit, hset.plain, hset.space, hset.inodes,
    hset.accepts]

/-- **What a successful `vdlimit` has done.** -/
theorem vdlimitSet_cases (h : vdlimitSet w (options vars used) d lims = some lims') :
    ∃ limit, Parsed vars used limit ∧ (isOption d = true ∧ isHelp d = true ∧ lims' = lims ∨
      Settable w d limit ∧
        lims' = Function.update lims d (some (replaceLimits ((lims d).getD w.fresh) limit))) := by
  unfold vdlimitSet at h
  cases hall : setAll keepAll (options vars used) with
  | error e =>
    rw [hall] at h
    cases h
  | ok limit =>
    rw [hall] at h
    refine ⟨limit, setAll_options.1 hall, ?_⟩
    dsimp only at h
    split at h
    · rename_i hoption
      split at h
      · rename_i hhelp
        exact Or.inl ⟨hoption, hhelp, (Option.some.inj h).symm⟩
      · cases h
    · rename_i hoption
      split at h
      · cases h
      · rename_i hspace
        split at h
        · cases h
        · rename_i hinodes
          unfold setDlimit at h
          split at h
          · rename_i haccepts
            exact Or.inr ⟨⟨eq_false_of_ne_true hoption, eq_false_of_ne_true hspace,
              eq_false_of_ne_true hinodes, haccepts⟩, (Option.some.inj h).symm⟩
          · cases h

end Tool

/-! ## The cache file -/

theorem writeInt_ne_nil (w : Word) : writeInt w ≠ [] := by
  intro h
  have hstored := stored_writeInt w
  rw [h, stored_nil] at hstored
  cases hstored

theorem mem_writeInt {w : Word} {c : Char} (hc : c ∈ writeInt w) :
    isDigitIn 10 c = true ∨ c = '-' := by
  unfold writeInt at hc
  split at hc
  · have hminus : "-1".toList = ['-', '1'] := by decide
    rw [hminus] at hc
    rcases List.mem_cons.1 hc with rfl | hc
    · exact Or.inr rfl
    · rw [List.mem_singleton.1 hc]
      exact Or.inl (by decide)
  · exact Or.inl (List.all_eq_true.1 (numeral_decimal w.toNat).2 c hc)

theorem notMem_writeInt {c : Char} (hdigit : isDigitIn 10 c = false) (hminus : c ≠ '-') (w : Word) :
    c ∉ writeInt w := by
  intro hmem
  rcases mem_writeInt hmem with h | h
  · rw [h] at hdigit
    cases hdigit
  · exact hminus h

/-- The members of the usage. -/
def isUsed : Member → Bool
  | .space_used | .inodes_used => true
  | .space_total | .inodes_total | .reserved => false

/-- The line of a member names a usage if it is one. -/
theorem hasUsed_option (m : Member) (w : Word) : hasUsed (option m (writeInt w)) = isUsed m := by
  have hyes : ∀ pre, hasUsed (pre ++ ("_used=".toList ++ writeInt w)) = true := fun pre =>
    decide_eq_true ⟨pre, writeInt w, by rw [List.append_assoc]⟩
  have hno : ∀ m : Member, 'u' ∉ m.name → hasUsed (option m (writeInt w)) = false := by
    intro m hm
    refine decide_eq_false fun hin => ?_
    have hmem : 'u' ∈ option m (writeInt w) := hin.subset (by decide)
    rcases List.mem_append.1 hmem with h | h
    · exact hm h
    · rcases List.mem_cons.1 h with h | h
      · exact absurd h (by decide)
      · exact notMem_writeInt (by decide) (by decide) w h
  cases m with
  | space_used => exact hyes "space".toList
  | inodes_used => exact hyes "inodes".toList
  | space_total => exact hno .space_total (by decide)
  | inodes_total => exact hno .inodes_total (by decide)
  | reserved => exact hno .reserved (by decide)

/-- The first line names a usage if the path does. -/
theorem hasUsed_head (xid : Word) (d : Text) : hasUsed (writeInt xid ++ ' ' :: d) = hasUsed d := by
  have hw : '_' ∉ writeInt xid := notMem_writeInt (by decide) (by decide) xid
  unfold hasUsed
  rw [decide_eq_decide]
  constructor
  · rintro ⟨s, t, hst⟩
    have hkey : "_used=".toList = '_' :: "used=".toList := rfl
    rw [hkey, List.append_assoc, List.cons_append, List.append_eq_append_iff] at hst
    obtain ⟨a, ha, hd⟩ | ⟨a, ha, hd⟩ := hst
    · cases a with
      | nil => cases hd
      | cons c a =>
        injection hd with hc _
        exact absurd (by rw [ha, hc]; simp) hw
    · cases a with
      | nil => cases hd
      | cons c a =>
        injection hd with _ hd
        exact ⟨a, t, by rw [hkey, List.append_assoc]; exact hd.symm⟩
  · intro h
    exact h.trans ⟨writeInt xid ++ [' '], [], by simp⟩

/-- The lines of the usage. -/
def usedLines (l : Limits) : List Text :=
  [option .space_used (writeInt l.space_used), option .inodes_used (writeInt l.inodes_used)]

/-- **Of the lines that are printed, the two of the usage are kept**, and the first one if the path
names a usage. -/
theorem filter_printDlimit (xid : Word) (d : Text) (l : Limits) :
    (printDlimit d xid l).filter hasUsed =
      if hasUsed d then (writeInt xid ++ ' ' :: d) :: usedLines l else usedLines l := by
  rw [printDlimit, List.filter_cons, hasUsed_head]
  have hmembers : (members.map fun m => option m (writeInt (l.get m))).filter hasUsed =
      usedLines l := by
    simp [members, hasUsed_option, isUsed, usedLines, Limits.get]
  rw [hmembers]

/-- **The cache file gives back the usage.** -/
theorem source_usedLines (command : Text → Bool) (l : Limits) :
    source command (some (usedLines l)) =
      some ⟨writeInt l.space_used, writeInt l.inodes_used⟩ := rfl

/-- The first line is run as a command. -/
theorem sourceLine_head {command : Text → Bool} (hfail : ∀ line, command line = false)
    (used : Usage) (xid : Word) (d : Text) :
    sourceLine command used (writeInt xid ++ ' ' :: d) = none := by
  have hstart : ∀ (c : Char) (key : Text), c ∉ writeInt xid →
      (c :: key).isPrefixOf (writeInt xid ++ ' ' :: d) = false := by
    intro c key hc
    cases hw : writeInt xid with
    | nil => exact absurd hw (writeInt_ne_nil xid)
    | cons c' t =>
      have hne : c ≠ c' := fun h => hc (by rw [hw, h]; exact List.mem_cons_self)
      rw [List.cons_append, List.isPrefixOf_cons_cons, beq_false_of_ne hne, Bool.false_and]
  have hspace : "space_used=".toList.isPrefixOf (writeInt xid ++ ' ' :: d) = false :=
    hstart 's' "pace_used=".toList (notMem_writeInt (by decide) (by decide) xid)
  have hinodes : "inodes_used=".toList.isPrefixOf (writeInt xid ++ ' ' :: d) = false :=
    hstart 'i' "nodes_used=".toList (notMem_writeInt (by decide) (by decide) xid)
  unfold sourceLine
  rw [if_neg (ne_true_of_eq_false hspace), if_neg (ne_true_of_eq_false hinodes), hfail]
  rfl

/-! ## The stop -/

/-- The state at the stop: limits are those of directories that `vdlimit` can be called with. -/
structure Running where
  state : State
  nameable : ∀ d, state.lims d ≠ none → d ≠ [] ∧ isOption d = false

/-- The directories that are saved, in their order. -/
def Config.paths (c : Config) : List Text :=
  c.active.filterMap fun e => getFileValue Line.text e.directory

section Stop

variable {c : Config} {r : Running}

theorem saveDiskLimits_eq (c : Config) (st : State) :
    saveDiskLimits c st = c.paths.foldl (saveDirectory c) st := by
  rw [saveDiskLimits, Config.paths, List.foldl_filterMap]
  congr 1
  funext st e
  unfold saveSingle
  cases getFileValue Line.text e.directory with
  | none => rfl
  | some directory => rfl

theorem saveDirectory_lims (hplace : c.place = true) {st : State} {d : Text}
    (hd : isOption d = true → st.lims d = none) (x : Text) :
    (saveDirectory c st x).lims d = if d = x then none else st.lims d := by
  simp only [saveDirectory, hplace, if_true, vdlimitRemove]
  by_cases hdx : d = x
  · rw [if_pos hdx, ← hdx]
    split
    · rename_i hoption
      exact hd hoption
    · exact Function.update_self ..
  · rw [if_neg hdx]
    split
    · rfl
    · exact Function.update_of_ne hdx ..

/-- **What is saved has no limit afterwards**; the other limits are as before. -/
theorem saveAll_lims (hplace : c.place = true) {d : Text} : ∀ (ds : List Text) (st : State),
    (isOption d = true → st.lims d = none) →
    (ds.foldl (saveDirectory c) st).lims d = if d ∈ ds then none else st.lims d
  | [], _, _ => by simp
  | x :: ds, st, hd => by
    have hstep := saveDirectory_lims hplace hd x
    have hnext : isOption d = true → (saveDirectory c st x).lims d = none := by
      intro hoption
      rw [hstep, hd hoption, ite_self]
    rw [List.foldl_cons, saveAll_lims hplace ds _ hnext, hstep]
    by_cases hdx : d = x
    · simp [hdx]
    · simp [hdx]

theorem Running.unnameable (r : Running) {d : Text} (hd : isOption d = true) :
    r.state.lims d = none := by
  by_contra hne
  rw [(r.nameable d hne).2] at hd
  cases hd

theorem saveDirectory_cache {st : State} {x n : Text} (hn : c.name x ≠ n) :
    (saveDirectory c st x).cache n = st.cache n := by
  unfold saveDirectory
  split
  · dsimp only
    split
    · exact Function.update_of_ne (Ne.symm hn) ..
    · rfl
  · rfl

theorem saveAll_cache {n : Text} : ∀ (ds : List Text) (st : State), (∀ z ∈ ds, c.name z ≠ n) →
    (ds.foldl (saveDirectory c) st).cache n = st.cache n
  | [], _, _ => rfl
  | x :: ds, st, h => by
    rw [List.foldl_cons, saveAll_cache ds _ fun z hz => h z (List.mem_cons_of_mem x hz),
      saveDirectory_cache (h x List.mem_cons_self)]

/-- **The last directory that is saved under a name decides what its file has**: the usage, if this
directory has a limit and was not saved before. -/
theorem save_file (hplace : c.place = true) {n : Text} (hfits : c.fits n = true)
    {front back : List Text} {y : Text} (hpaths : c.paths = front ++ y :: back)
    (hy : c.name y = n) (hback : ∀ z ∈ back, c.name z ≠ n) :
    (saveDiskLimits c r.state).cache n =
      some ((if y ∈ front then none else r.state.lims y).elim [] fun ly =>
        (printDlimit y c.xid ly).filter hasUsed) := by
  have hlims := saveAll_lims hplace front r.state fun hoption => r.unnameable (d := y) hoption
  rw [saveDiskLimits_eq, hpaths, List.foldl_append, List.foldl_cons, saveAll_cache back _ hback,
    ← hy]
  rw [← hy] at hfits
  simp only [saveDirectory, hplace, hfits, if_true, Function.update_self, vdlimitGet, hlims]
  cases hoption : isOption y with
  | true => simp [r.unnameable hoption]
  | false =>
    rw [if_neg Bool.false_ne_true]
    cases (if y ∈ front then none else r.state.lims y) with
    | none => rfl
    | some ly => rfl

/-- The last element that has a property. -/
theorem exists_last_of_mem {α : Type} {p : α → Prop} {x : α} (hx : p x) : ∀ {l : List α}, x ∈ l →
    ∃ front y back, l = front ++ y :: back ∧ p y ∧ ∀ z ∈ back, ¬ p z
  | a :: l, h => by
    by_cases hl : ∃ z ∈ l, p z
    · obtain ⟨z, hz, hpz⟩ := hl
      obtain ⟨front, y, back, rfl, hy, hback⟩ := exists_last_of_mem hpz hz
      exact ⟨a :: front, y, back, rfl, hy, hback⟩
    · have hno : ∀ z ∈ l, ¬ p z := fun z hz hpz => hl ⟨z, hz, hpz⟩
      rcases List.mem_cons.1 h with rfl | h
      · exact ⟨[], x, l, rfl, hx, hno⟩
      · exact absurd hx (hno x h)

/-- A file with lines comes from a directory that was saved once. -/
theorem saver_of_file (hplace : c.place = true) {d : Text} (hfits : c.fits (c.name d) = true)
    (hd : d ∈ c.paths) {lines : List Text} (hlines : lines ≠ [])
    (hfile : (saveDiskLimits c r.state).cache (c.name d) = some lines) :
    ∃ front y back ly, c.paths = front ++ y :: back ∧ c.name y = c.name d ∧
      (∀ z ∈ back, c.name z ≠ c.name d) ∧ y ∉ front ∧ r.state.lims y = some ly ∧
      lines = (printDlimit y c.xid ly).filter hasUsed := by
  obtain ⟨front, y, back, hpaths, hy, hback⟩ :=
    exists_last_of_mem (p := fun z => c.name z = c.name d) rfl hd
  rw [save_file hplace hfits hpaths hy hback] at hfile
  have hfile := Option.some.inj hfile
  by_cases hfront : y ∈ front
  · rw [if_pos hfront] at hfile
    exact absurd hfile.symm hlines
  · rw [if_neg hfront] at hfile
    cases hly : r.state.lims y with
    | none =>
      rw [hly] at hfile
      exact absurd hfile.symm hlines
    | some ly =>
      rw [hly] at hfile
      exact ⟨front, y, back, ly, hpaths, hy, hback, hfront, hly, hfile.symm⟩

end Stop

/-! ## One directory of the start -/

/-- The text of a number. -/
def number (f : File Value) : Text := (getFileValue Value.text f).getD []

/-- The values of the files. -/
def Dlimit.values (e : Dlimit) : Vars :=
  ⟨e.path, number e.space_total, number e.inodes_total, number e.reserved⟩

theorem vars_eq {e : Dlimit} {vars : Vars} (h : e.vars = some vars) : vars = e.values := by
  obtain ⟨directory, hdirectory, h⟩ := Option.bind_eq_some_iff.1 h
  obtain ⟨space_total, hspace, h⟩ := Option.bind_eq_some_iff.1 h
  obtain ⟨inodes_total, hinodes, h⟩ := Option.bind_eq_some_iff.1 h
  obtain ⟨reserved, hreserved, rfl⟩ := Option.map_eq_some_iff.1 h
  simp [Dlimit.values, Dlimit.path, number, hdirectory, hspace, hinodes, hreserved]

theorem Dlimit.Complete.vars {e : Dlimit} (h : e.Complete) : e.vars = some e.values := by
  obtain ⟨directory, space_total, inodes_total, reserved, h1, h2, h3, h4⟩ := h
  simp [Dlimit.vars, Dlimit.values, Dlimit.path, number, h1, h2, h3, h4, getFileValue]

theorem Dlimit.Complete.configured {e : Dlimit} (h : e.Complete) : e.Configured := by
  obtain ⟨directory, space_total, inodes_total, reserved, h1, h2, h3, h4⟩ := h
  exact ⟨⟨directory, h1⟩, by simp [h2], by simp [h3], by simp [h4]⟩

/-- Only a file with a line has a text. -/
theorem line_of_text {α : Type} {text : α → Text} {f : File α}
    (h : (getFileValue text f).getD [] ≠ []) : ∃ v, f = .line v := by
  cases f with
  | absent => exact absurd rfl h
  | unended => exact absurd rfl h
  | line v => exact ⟨v, rfl⟩

/-- A directory for which `vdlimit` can be called with success is complete. -/
theorem complete_of_parsed {e : Dlimit} {used : Usage} {limit : Limits}
    (hparsed : Parsed e.values used limit) (hpath : e.path ≠ []) : e.Complete := by
  have hne : ∀ {t : Text} {w : Word}, stored t = some w → t ≠ [] := by
    rintro t w h rfl
    cases h
  obtain ⟨directory, h1⟩ := line_of_text hpath
  obtain ⟨space_total, h2⟩ := line_of_text (hne hparsed.space_total)
  obtain ⟨inodes_total, h3⟩ := line_of_text (hne hparsed.inodes_total)
  obtain ⟨reserved, h4⟩ := line_of_text (hne hparsed.reserved)
  exact ⟨directory, space_total, inodes_total, reserved, h1, h2, h3, h4⟩

/-- **What one directory does.** -/
inductive Outcome (c : Config) (w : World) (st : State) (e : Dlimit) : State × Bool → Prop where
  | skipped (hvars : e.vars = none) : Outcome c w st e (st, true)
  | failed (hvars : e.vars ≠ none) (cache : Text → Option (List Text))
      (hcache : ∀ n, n ≠ c.name e.path → cache n = st.cache n) :
      Outcome c w st e (⟨st.lims, cache⟩, false)
  | help (hcomplete : e.Complete) (used : Usage) (husage : usage c w st e.values = some used)
      (hoption : isOption e.path = true) (hhelp : isHelp e.path = true) :
      Outcome c w st e (⟨st.lims, Function.update st.cache (c.name e.path) none⟩, true)
  | set (hcomplete : e.Complete) (used : Usage) (husage : usage c w st e.values = some used)
      (limit : Limits) (hparsed : Parsed e.values used limit) (hset : Settable w e.path limit) :
      Outcome c w st e (⟨Function.update st.lims e.path
          (some (replaceLimits ((st.lims e.path).getD w.fresh) limit)),
        Function.update st.cache (c.name e.path) none⟩, true)

theorem setSingle_outcome (c : Config) (w : World) (st : State) (e : Dlimit) :
    Outcome c w st e (setSingle c w st e) := by
  unfold setSingle
  cases hvars : e.vars with
  | none => exact .skipped hvars
  | some vars =>
    have hne : e.vars ≠ none := by rw [hvars]; exact Option.some_ne_none vars
    have hother : ∀ n, n ≠ c.name e.path →
        Function.update st.cache (c.name e.path) none n = st.cache n := fun n hn =>
      Function.update_of_ne hn ..
    cases vars_eq hvars
    dsimp only
    cases hsource : source w.command (st.file c (c.name e.values.directory)) with
    | none => exact .failed hne _ fun n _ => rfl
    | some used =>
      dsimp only
      cases hcount : countUsage w.vdu e.values.directory used with
      | none => exact .failed hne _ hother
      | some used' =>
        have husage : usage c w st e.values = some used' := by
          rw [usage, hsource, Option.bind_some, hcount]
        dsimp only
        cases hset : vdlimitSet w (options e.values used') e.values.directory st.lims with
        | none => exact .failed hne _ hother
        | some lims =>
          dsimp only
          obtain ⟨limit, hparsed, ⟨hoption, hhelp, rfl⟩ | ⟨hsettable, rfl⟩⟩ := vdlimitSet_cases hset
          · have hpath : e.path ≠ [] := by
              intro h
              have hnil : isOption e.path = true := hoption
              rw [h] at hnil
              cases hnil
            exact .help (complete_of_parsed hparsed hpath) used' husage hoption hhelp
          · have hpath : e.path ≠ [] := by
              intro h
              have hnil : w.accepts e.path = true := hsettable.accepts
              rw [h, w.accepts_nil] at hnil
              cases hnil
            exact .set (complete_of_parsed hparsed hpath) used' husage limit hparsed hsettable

section Start

variable {c : Config} {w : World} {st : State} {e : Dlimit}

/-- A limit changes for a complete directory only. -/
theorem setSingle_lims {d : Text} (hd : e.Complete → e.path ≠ d) :
    (setSingle c w st e).1.lims d = st.lims d := by
  have h := setSingle_outcome c w st e
  generalize setSingle c w st e = result at h
  cases h with
  | skipped hvars => rfl
  | failed hvars cache hcache => rfl
  | help hcomplete used husage hoption hhelp => rfl
  | set hcomplete used husage limit hparsed hset =>
    exact Function.update_of_ne (Ne.symm (hd hcomplete)) ..

/-- A cache file changes under the name of the directory only. -/
theorem setSingle_cache {n : Text} (hn : e.vars ≠ none → c.name e.path ≠ n) :
    (setSingle c w st e).1.cache n = st.cache n := by
  have h := setSingle_outcome c w st e
  generalize setSingle c w st e = result at h
  cases h with
  | skipped hvars => rfl
  | failed hvars cache hcache => exact hcache n (Ne.symm (hn hvars))
  | help hcomplete used husage hoption hhelp =>
    have hvars : e.vars ≠ none := by rw [hcomplete.vars]; exact Option.some_ne_none _
    exact Function.update_of_ne (Ne.symm (hn hvars)) ..
  | set hcomplete used husage limit hparsed hset =>
    have hvars : e.vars ≠ none := by rw [hcomplete.vars]; exact Option.some_ne_none _
    exact Function.update_of_ne (Ne.symm (hn hvars)) ..

/-! ## The start -/

/-- What each directory preserves is preserved by the start. -/
theorem setEach_preserves {P : State → Prop} : ∀ (es : List Dlimit) (st : State),
    (∀ x ∈ es, ∀ st, P st → P (setSingle c w st x).1) → P st → P (setEach c w st es).1
  | [], _, _, h => h
  | x :: es, st, hstep, h => by
    have hx : P (setSingle c w st x).1 := hstep x List.mem_cons_self st h
    simp only [setEach]
    split
    · exact setEach_preserves es _ (fun z hz => hstep z (List.mem_cons_of_mem x hz)) hx
    · exact hx

theorem setEach_lims {es : List Dlimit} {d : Text} (hd : ∀ x ∈ es, x.Complete → x.path ≠ d) :
    (setEach c w st es).1.lims d = st.lims d :=
  setEach_preserves (P := fun s => s.lims d = st.lims d) es st
    (fun x hx _ h => (setSingle_lims (hd x hx)).trans h) rfl

theorem setEach_cache {es : List Dlimit} {n : Text}
    (hn : ∀ x ∈ es, x.vars ≠ none → c.name x.path ≠ n) :
    (setEach c w st es).1.cache n = st.cache n :=
  setEach_preserves (P := fun s => s.cache n = st.cache n) es st
    (fun x hx _ h => (setSingle_cache (hn x hx)).trans h) rfl

theorem setEach_append (a b : List Dlimit) : ∀ st : State, setEach c w st (a ++ b) =
    if (setEach c w st a).2 then setEach c w (setEach c w st a).1 b else setEach c w st a := by
  induction a with
  | nil => exact fun st => rfl
  | cons x a ih =>
    intro st
    simp only [List.cons_append, setEach]
    by_cases hx : (setSingle c w st x).2 = true
    · simp only [hx, if_true]
      exact ih _
    · simp [hx]

end Start

end DiskLimits
