import Mathlib.Logic.Function.Basic
import UtilVserver.Lib.Transition

/-!
# The startup lock of `vserver … start` and `vserver … stop`

A `lock` call starts a `lockfile` helper in the background and waits for its answer; `unlock` kills
helpers from the stack `_VS_LOCKS`.  Nobody looks at the status of `lock`.

* `Prog` — what the two scripts do to their locks; the outcome of tests and steps is open.
* `Event`, `RunState.act` — the steps of a script and of the helper it waits for.
* `next` — any number of runs for one vserver, and the ends of their helpers.

* `Inside`, `RunState.Matched` — what exclusion and matching speak about.
* `Allowed` — the condition on a step: a run that holds the startup lock gets the other one.
-/

set_option autoImplicit false

namespace StartupLock

open Transition

/-! ## The scripts -/

/-- `vserver.<name>.startup` and `vserver.interfaces`. -/
inductive LockFile where
  | startup
  | interfaces
  deriving DecidableEq

/-- The steps of the scripts between their lock calls. -/
inductive Work where
  | sanityCheck
  | execScriptlets
  | fsckAllFS
  | mountRootFS
  | generateOptions
  | setDiskLimits
  | interfaceCmds
  | mountVserver
  | prepareInit
  | addtoCPUSET
  | attachToCgroup
  | setupNetNS
  | handleDeviceMap
  | setDefaultTTY
  | initCommand
  | vshelper
  | initSync
  | prepareStop
  | enterNetNS
  | initWait
  | waitForSync
  | sendKillSequence
  | umountVserver
  | saveDiskLimits
  | removeCPUSET
  | destroyCgroup
  | destroyNetNS

/-- The rest of a script. -/
inductive Prog where
  | exit
  | work (w : Work) (k : Prog)
  /-- The outcome of a test, or of a step that may end the script. -/
  | choice (k k' : Prog)
  | lock (f : LockFile) (k : Prog)
  | unlock (num : Option Nat) (k : Prog)

def Prog.isExit : Prog → Bool
  | .exit => true
  | _ => false

/-- Steps that leave for `fail` when the script ends within them. -/
def attempts : List Work → Prog → Prog → Prog
  | [], _, k => k
  | w :: ws, fail, k => .work w (.choice fail (attempts ws fail k))

def enableInterfaces (k : Prog) : Prog :=
  .lock .interfaces <| .work .interfaceCmds <| .unlock (some 1) k

def disableInterfaces (k : Prog) : Prog :=
  .lock .interfaces <| .work .interfaceCmds <| .unlock (some 1) k

/-- `cleanup` of `vserver.start` before the vserver is started. -/
def startCleanup (haveInterfaces : Bool) : Prog :=
  .work .umountVserver <|
    (if haveInterfaces then disableInterfaces else id) <|
    .work .destroyCgroup <| .unlock none .exit

/-- `vserver.start`. -/
def start : Prog :=
  .lock .startup <|
  -- already running, or an unknown option: the trap is not set yet
  .choice .exit <|
  attempts [.sanityCheck, .execScriptlets, .fsckAllFS, .mountRootFS, .generateOptions,
    .execScriptlets, .setDiskLimits] (startCleanup false) <|
  enableInterfaces <|
  attempts [.mountVserver, .prepareInit, .addtoCPUSET, .attachToCgroup, .setupNetNS,
    .handleDeviceMap, .execScriptlets, .setDefaultTTY, .initCommand, .execScriptlets, .vshelper]
    (startCleanup true) <|
  .unlock none .exit

/-- `vserver.stop`. -/
def stop : Prog :=
  .lock .startup <|
  .choice (.work .umountVserver <| disableInterfaces <| .unlock none .exit) <|
  .choice (.unlock none .exit) <|
  attempts [.generateOptions, .vshelper, .initSync, .prepareStop, .enterNetNS, .execScriptlets,
    .setDefaultTTY, .initWait, .initCommand, .waitForSync, .vshelper, .sendKillSequence,
    .execScriptlets, .handleDeviceMap, .umountVserver] (.unlock none .exit) <|
  disableInterfaces <|
  attempts [.saveDiskLimits, .execScriptlets, .removeCPUSET, .destroyCgroup, .destroyNetNS]
    (.unlock none .exit) <|
  .unlock none .exit

inductive Command where
  | start
  | stop

def Command.prog : Command → Prog
  | .start => StartupLock.start
  | .stop => StartupLock.stop

/-- `unlock [<num>]` on `_VS_LOCKS`: the helpers it kills, and those that stay. -/
def unlock (num : Option Nat) : List Nat → List Nat × List Nat
  | [] => ([], [])
  | pid :: pids =>
    if num = some 1 then ([pid], pids)
    else
      let r := unlock (num.map (· - 1)) pids
      (pid :: r.1, r.2)

/-! ## Scripts and helpers -/

inductive Phase where
  | starting
  /-- In `lockf`. -/
  | waiting
  /-- It holds the lock and has answered `true`. -/
  | granted
  /-- It has answered `false` and exited. -/
  | refused
  deriving DecidableEq

/-- The `lockfile` process that `lock` waits for. -/
structure Helper where
  pid : Nat
  phase : Phase

/-- Why a helper gives up. -/
inductive Refusal where
  | openError
  | timeout
  | lockError
  deriving DecidableEq

/-- When it can happen. -/
def Refusal.phase : Refusal → Phase
  | .openError => .starting
  | .timeout => .waiting
  | .lockError => .waiting

structure RunState where
  prog : Prog
  pending : Option Helper
  /-- `_VS_LOCKS`. -/
  locks : List Nat
  /-- The number of helpers so far; pids are not used again. -/
  spawned : Nat
  killed : List Nat
  /-- The helper of the last `lock` call, if it was granted. -/
  last : Option Nat
  /-- Between the startup lock call and its `unlock`, and whether the lock was granted. -/
  region : Option Bool

inductive Event where
  | spawn
  | opened
  | refuse (f : LockFile) (why : Refusal)
  | grant (f : LockFile)
  /-- `lock` reads the answer of its helper. -/
  | answer
  | work
  | choose (b : Bool)
  | unlock
  deriving DecidableEq

def LockFile.enter : LockFile → Bool → Option Bool → Option Bool
  | .startup, granted, _ => some granted
  | .interfaces, _, region => region

/-- The effect of an event on its run. -/
def RunState.act (r : RunState) : Event → Option RunState
  | .spawn =>
    match r.prog, r.pending with
    | .lock _ _, none =>
      some { r with pending := some ⟨r.spawned, .starting⟩, spawned := r.spawned + 1 }
    | _, _ => none
  | .opened =>
    match r.pending with
    | some ⟨pid, .starting⟩ => some { r with pending := some ⟨pid, .waiting⟩ }
    | _ => none
  | .refuse f why =>
    match r.prog, r.pending with
    | .lock f' _, some ⟨pid, phase⟩ =>
      if f = f' ∧ why.phase = phase then some { r with pending := some ⟨pid, .refused⟩ } else none
    | _, _ => none
  | .grant f =>
    match r.prog, r.pending with
    | .lock f' _, some ⟨pid, .waiting⟩ =>
      if f = f' then some { r with pending := some ⟨pid, .granted⟩ } else none
    | _, _ => none
  | .answer =>
    match r.prog, r.pending with
    | .lock f k, some ⟨pid, .granted⟩ =>
      some { r with prog := k, pending := none, locks := pid :: r.locks, last := some pid,
                    region := f.enter true r.region }
    | .lock f k, some ⟨_, .refused⟩ =>
      some { r with prog := k, pending := none, last := none, region := f.enter false r.region }
    | _, _ => none
  | .work =>
    match r.prog with
    | .work _ k => some { r with prog := k }
    | _ => none
  | .choose b =>
    match r.prog with
    | .choice k k' => some { r with prog := if b then k else k' }
    | _ => none
  | .unlock =>
    match r.prog with
    | .unlock num k =>
      some { r with prog := k, locks := (StartupLock.unlock num r.locks).2,
                    killed := (StartupLock.unlock num r.locks).1 ++ r.killed,
                    region := if num = none then none else r.region }
    | _ => none

/-! ## Any number of runs -/

section System

variable {ι : Type*}

structure State (ι : Type*) where
  runs : ι → RunState
  /-- The run and the helper that hold a lock. -/
  owner : LockFile → Option (ι × Nat)

inductive Label (ι : Type*) where
  | run (i : ι) (e : Event)
  /-- The helper that holds the lock was killed, or finds that its script has ended. -/
  | died (f : LockFile)

/-- One step of the system. -/
def next [DecidableEq ι] (s : State ι) : Label ι → Option (State ι)
  | .run i e =>
    match (s.runs i).act e, e with
    | none, _ => none
    | some r, .grant f =>
      if s.owner f = none then
        some ⟨Function.update s.runs i r,
          Function.update s.owner f (r.pending.map fun h => (i, h.pid))⟩
      else none
    | some r, _ => some { s with runs := Function.update s.runs i r }
  | .died f =>
    match s.owner f with
    | none => none
    | some (i, pid) =>
      if pid ∈ (s.runs i).killed ∨ (s.runs i).prog.isExit = true then
        some { s with owner := Function.update s.owner f none }
      else none

def Step [DecidableEq ι] (s : State ι) (l : Label ι) (s' : State ι) : Prop := next s l = some s'

def initial (cmds : ι → Command) : State ι :=
  ⟨fun i => ⟨(cmds i).prog, none, [], 0, [], none, none⟩, fun _ => none⟩

/-- The run is between its startup lock call and the matching `unlock`; `granted` tells whether it
got the lock. -/
def Inside (s : State ι) (i : ι) (granted : Bool) : Prop :=
  (s.runs i).region = some granted ∧ (s.runs i).prog.isExit = false

/-- The next `unlock 1` of the run kills the helper of the `lock` call before it, and nothing when
that call was refused. -/
def RunState.Matched (r : RunState) : Prop :=
  ∀ k, r.prog = .unlock (some 1) k → (StartupLock.unlock (some 1) r.locks).1 = r.last.toList

/-- The condition on a step: a run that holds the startup lock is not refused the other one. -/
def Allowed (s : State ι) : Label ι → Prop
  | .run i (.refuse .interfaces _) => (s.runs i).region ≠ some true
  | _ => True

/-- A step that meets the condition. -/
def AllowedStep [DecidableEq ι] (s : State ι) (l : Label ι) (s' : State ι) : Prop :=
  Step s l s' ∧ Allowed s l

/-- A startup lock is refused. -/
def Label.RefusesStartup : Label ι → Prop
  | .run _ (.refuse .startup _) => True
  | _ => False

end System

end StartupLock
