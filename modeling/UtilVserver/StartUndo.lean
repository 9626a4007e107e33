import UtilVserver.Lib.CString
import UtilVserver.Lib.Transition
import UtilVserver.EnscVector

/-!
# The undo list of the native start

`vserver-start` clones a process that adds the interfaces; each interface added puts a task on a
list that a handler works off when this process calls `exit`.  The process forks helpers, which
inherit its memory and its handlers.

* `Undo`, `atexitHandler` — `undo.c`.
* `Cmd`, `startProg` — the steps of the cloned process, and of the processes it forks.
* `Proc`, `next` — any number of processes; which way out each step leaves.
* `RollsBack` — what is expected of one process.
* `Covered` — the ways out that pass by the handler are not open once an interface was added.
-/

set_option autoImplicit false

namespace StartUndo

open CString Transition

/-! ## `undo.c` -/

inductive ExitFunction where
  | Iface_removeWrapper
  deriving DecidableEq

/-- A task; its argument is the number of an interface. -/
structure FuncData where
  fn : ExitFunction
  args : Nat
  deriving DecidableEq

/-- `undo_data`; there is no `pid_` when it is -1. -/
structure Undo where
  pid_ : Option Nat
  funcs : List FuncData

/-- The interface that a task hands to `Iface_remove`. -/
def FuncData.call (task : FuncData) : Nat :=
  match task.fn with
  | .Iface_removeWrapper => task.args

/-- The loop of `atexitHandler`, from `ptr` down to the begin of the vector. -/
def callDown (funcs : List FuncData) : Nat → List Nat
  | 0 => []
  | ptr + 1 => (funcs[ptr]?).toList.map FuncData.call ++ callDown funcs ptr

/-- `atexitHandler` of the process `getpid`: the interfaces that it removes. -/
def atexitHandler (undo : Undo) (getpid : Nat) : List Nat :=
  -- skip 'exit()' from forked processes
  if undo.pid_ ≠ some getpid then []
  else callDown undo.funcs undo.funcs.length

/-- `Undo_addTask(Iface_removeWrapper, iface)`; the new slot is written at once. -/
def addTask (undo : Undo) (iface : Nat) : Undo :=
  { undo with funcs := (EnscVector.pushback ⟨.Iface_removeWrapper, iface⟩ undo.funcs).1 }

/-! ## The steps of the start -/

structure Interface where
  nodev : Bool
  dev : Option Text
  direct : Bool

/-- `Iface_add` comes back: for other interfaces it reads a `dev` that is not there, or it calls
`abort()` in `addVLAN` or `addIndirect`. -/
def ifaceAddReturns (iface : Interface) : Bool :=
  if iface.nodev then true
  else
    match iface.dev with
    | none => false
    | some dev => if dev.contains '.' then false else iface.direct

structure Config where
  interfaces : List Interface
  /-- The `read` calls on the `mtab` file succeed. -/
  mtabReads : Bool

inductive Work where
  | ctxCreate
  | setCFlag
  | send
  | recv
  | nice
  | defaultTTY
  | chdir
  deriving DecidableEq

inductive Cmd where
  | undoInit
  | execScriptlets
  /-- `Iface_add` for one interface. -/
  | ifaceAdd (i : Nat)
  | undoAddTask (i : Nat)
  /-- A step that ends with `exit` when it fails. -/
  | work (w : Work)
  | initMtab
  | mountVserverInternal
  | undoDetach
  /-- The process that `initMtab` forks. -/
  | copyMtab
  /-- `execv`; a forked process calls `_exit` after a failure, else it goes on. -/
  | execv (forked : Bool)
  deriving DecidableEq

/-- `activateInterfaces`, from the interface `i` on. -/
def activateInterfaces (i : Nat) : Nat → List Cmd
  | 0 => []
  | m + 1 => .ifaceAdd i :: .undoAddTask i :: activateInterfaces (i + 1) m

/-- The steps of `main` after `activateInterfaces`. -/
def laterProg : List Cmd :=
  [.work .ctxCreate, .work .setCFlag, .initMtab, .mountVserverInternal, .mountVserverInternal,
    .work .send, .work .recv, .execScriptlets, .work .nice, .work .defaultTTY, .undoDetach]

/-- The cloned process. -/
def startProg (n : Nat) : List Cmd :=
  .undoInit :: .execScriptlets :: (activateInterfaces 0 n ++ laterProg)

/-- The process that has cloned it. -/
def parentProg : List Cmd := [.work .recv, .execScriptlets, .work .send]

/-! ## Processes -/

/-- How a process ends. -/
inductive Ending where
  | exit
  /-- `_exit`. -/
  | quickExit
  /-- `abort()`, or a signal for what the process does. -/
  | abort
  /-- Another program replaces it. -/
  | exec
  /-- A signal from elsewhere. -/
  | killed
  deriving DecidableEq

structure Proc where
  pid : Nat
  undo : Undo
  /-- `atexitHandler` is registered. -/
  registered : Bool
  prog : List Cmd
  /-- The process itself has called `Undo_init`. -/
  initialised : Bool
  /-- The interfaces that this process has added, and those that it has removed. -/
  added : List Nat
  removed : List Nat
  /-- How it has ended, and in which step. -/
  ended : Option (Ending × Option Cmd)

inductive Event where
  /-- The step succeeds. -/
  | ok
  /-- The process ends in this way. -/
  | ends (e : Ending)
  | fork (pid : Nat)

/-- The step can succeed. -/
def mayOk (cfg : Config) (undo : Undo) : Cmd → Bool
  | .undoInit => undo.pid_.isNone
  | .ifaceAdd i => cfg.interfaces[i]?.any ifaceAddReturns
  | .copyMtab => false
  | .execv forked => !forked
  | _ => true

/-- The ways out of a step. -/
def mayEnd (cfg : Config) (undo : Undo) : Ending → Cmd → Bool
  | .exit, .execScriptlets => true
  | .exit, .ifaceAdd i => cfg.interfaces[i]?.any fun iface =>
      ifaceAddReturns iface && !iface.nodev
  | .exit, .work _ => true
  | .exit, .initMtab => true
  | .exit, .mountVserverInternal => true
  | .exit, .copyMtab => true
  -- "Undo already initialized; internal error..."
  | .quickExit, .undoInit => undo.pid_.isSome
  -- "vserver-start: initMtab/read():"
  | .quickExit, .initMtab => !cfg.mtabReads
  | .quickExit, .copyMtab => true
  | .quickExit, .execv forked => forked
  -- `visitFile` does not initialise its command
  | .abort, .execScriptlets => true
  | .abort, .ifaceAdd i => !cfg.interfaces[i]?.any ifaceAddReturns
  -- the vector is freed twice
  | .abort, .undoDetach => undo.pid_.isNone
  | .exec, .execv _ => true
  | .killed, _ => true
  | _, _ => false

/-- What a process does that the step forks; `rest` is what follows the step. -/
def child (cfg : Config) (rest : List Cmd) : Cmd → Option (List Cmd)
  | .execScriptlets => some [.execv true]
  | .ifaceAdd i =>
    if cfg.interfaces[i]?.any fun iface => ifaceAddReturns iface && !iface.nodev then
      some [.execv true]
    else none
  | .initMtab => some [.undoDetach, .copyMtab]
  | .mountVserverInternal => some (.undoDetach :: .work .chdir :: .execv false :: rest)
  | _ => none

/-- What a step changes in its process. -/
def Proc.effect (p : Proc) : Cmd → Proc
  | .undoInit => { p with undo := ⟨some p.pid, []⟩, registered := true, initialised := true }
  | .ifaceAdd i => { p with added := p.added ++ [i] }
  | .undoAddTask i => { p with undo := addTask p.undo i }
  | .undoDetach => { p with undo := ⟨none, []⟩ }
  | _ => p

/-- The process ends; `exit` calls the handler. -/
def Proc.finish (p : Proc) (e : Ending) : Proc :=
  { p with
    removed := if e = .exit ∧ p.registered = true then p.removed ++ atexitHandler p.undo p.pid
      else p.removed,
    ended := some (e, p.prog.head?) }

/-- What an event makes of its process; `main` returns when no step is left. -/
def Proc.act (cfg : Config) (p : Proc) : Event → Option Proc
  | .ok =>
    match p.prog with
    | [] => none
    | c :: rest => if mayOk cfg p.undo c then some { p.effect c with prog := rest } else none
  | .ends e =>
    match p.prog with
    | [] => if e = .exit ∨ e = .killed then some (p.finish e) else none
    | c :: _ => if mayEnd cfg p.undo e c then some (p.finish e) else none
  | .fork _ => some p

/-- The process that an event adds. -/
def Proc.forked (cfg : Config) (p : Proc) : Event → Option Proc
  | .fork pid =>
    match p.prog with
    | [] => none
    | c :: rest => (child cfg rest c).map fun prog =>
        ⟨pid, p.undo, p.registered, prog, false, [], [], none⟩
  | _ => none

/-- The processes in the order of their creation, also those that have ended. -/
abbrev State := List Proc

/-- No running process has this pid. -/
def freshPid (s : State) (pid : Nat) : Prop := ∀ p ∈ s, p.ended = none → p.pid ≠ pid

instance (s : State) (pid : Nat) : Decidable (freshPid s pid) :=
  inferInstanceAs (Decidable (∀ p ∈ s, p.ended = none → p.pid ≠ pid))

/-- One event of process `i`. -/
def next (cfg : Config) (s : State) : Nat × Event → Option State
  | (i, e) =>
    match s[i]? with
    | none => none
    | some p =>
      if p.ended.isSome then none
      else
        match e with
        | .fork pid =>
          if freshPid s pid then (p.forked cfg (.fork pid)).map fun q => s ++ [q] else none
        | e => (p.act cfg e).map (s.set i)

def Step (cfg : Config) (s : State) (l : Nat × Event) (s' : State) : Prop :=
  next cfg s l = some s'

/-- The state after `sys_clone`. -/
def initial (cfg : Config) (parent cloned : Nat) : State :=
  [⟨parent, ⟨none, []⟩, false, parentProg, false, [], [], none⟩,
    ⟨cloned, ⟨none, []⟩, false, startProg cfg.interfaces.length, false, [], [], none⟩]

/-! ## What is expected -/

/-- A step of the start fails: it ends with `exit` or `_exit`, or it does not come back from adding
an interface. -/
def Failed : Ending × Option Cmd → Prop
  | (.exit, some _) => True
  | (.quickExit, some _) => True
  | (.abort, some (.ifaceAdd _)) => True
  | _ => False

/-- A process removes interfaces only when it has called `Undo_init` and not yet `Undo_detach`, and
only at its end; when a step has failed then, it has removed what it had added, in reverse order. -/
structure RollsBack (n : Nat) (p : Proc) : Prop where
  own : p.removed ≠ [] → p.initialised = true
  running : p.ended = none → p.removed = []
  detached : p.initialised = true → p.undo.pid_ = none → p.removed = []
  failed : ∀ e, p.ended = some e → p.initialised = true → Failed e →
    ∃ k ≤ n, p.added = List.range k ∧ p.removed = (List.range k).reverse

def Rollback (cfg : Config) (s : State) : Prop := ∀ p ∈ s, RollsBack cfg.interfaces.length p

/-- Once the first interface is added, `Iface_add` comes back for all others, and the `mtab` file
can be read. -/
def Covered (cfg : Config) : Prop :=
  ∀ first rest, cfg.interfaces = first :: rest → ifaceAddReturns first = true →
    (∀ iface ∈ rest, ifaceAddReturns iface = true) ∧ cfg.mtabReads = true

end StartUndo
