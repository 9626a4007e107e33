import UtilVserver.Lib.Transition

/-!
# `vcontext --disconnect`

The parent forks a child, which enters the context and executes the command, and exits like it when
that fails.  Two pipes connect them.

* `p0` — the parent writes a token when it will do nothing any more but wait.
* `p1` — the child writes a dot before `execvp`, and another byte when `execvp` has failed.  The
  end of the child is closed by a successful `execvp`.

A step is an operation of one of the processes; a step that has to wait is not possible.

Principal results: `waitOnSync_likeChild` (the parent ends like the child if its token does not come
too late) and `next_rank` (every step leads closer to the end).
-/

set_option autoImplicit false

namespace VcontextSync

open Transition

/-! ## Pipes between a parent and its child -/

inductive Side where
  | parent | child
  deriving DecidableEq

/-- Who holds an end of a pipe. -/
structure Ends where
  parent : Bool
  child : Bool

def Ends.close (e : Ends) : Side → Ends
  | .parent => { e with parent := false }
  | .child => { e with child := false }

def Ends.any (e : Ends) : Bool := e.parent || e.child

structure Pipe where
  data : List Char
  readers : Ends
  writers : Ends

def Pipe.closeRead (p : Pipe) (side : Side) : Pipe := { p with readers := p.readers.close side }

def Pipe.closeWrite (p : Pipe) (side : Side) : Pipe := { p with writers := p.writers.close side }

def Pipe.leave (p : Pipe) (side : Side) : Pipe := (p.closeRead side).closeWrite side

def Pipe.write (p : Pipe) (c : Char) : Pipe := { p with data := p.data ++ [c] }

/-- What `fork` leaves of a new pipe. -/
def Pipe.shared : Pipe := ⟨[], ⟨true, true⟩, ⟨true, true⟩⟩

/-! ## The processes -/

structure Arguments where
  do_create : Bool
  do_migrate : Bool
  do_migrateself : Bool
  do_endsetup : Bool
  is_initpid : Bool
  do_chroot : Bool
  do_pivot_root : Bool
  set_namespace : Bool
  /-- `uid != NULL` -/
  uid : Bool
  /-- `personality_type != VC_BAD_PERSONALITY` -/
  personality : Bool
  /-- `xid == VC_DYNAMIC_XID` -/
  dynamicXid : Bool
  /-- `sync_sock != NULL` -/
  sync_sock : Bool

/-- What the child does between the token and the dot. -/
inductive Op where
  | vc_ctx_create
  | echroot
  | evc_set_namespace
  | evc_enter_namespace
  | pivot_root
  | setFlags
  | evc_ctx_migrate
  | esetuid
  | sys_personality
  | doExternalSync
  | openDevNull

def wrapperExitCode : Nat := 255

/-- The exit codes of a failure. -/
def Op.statuses : Op → List Nat
  | .vc_ctx_create => [254, wrapperExitCode]
  | _ => [wrapperExitCode]

def Arguments.ops (args : Arguments) : List Op :=
  (if args.do_create then [Op.vc_ctx_create] else []) ++
  (if args.do_chroot then
    Op.echroot ::
      if args.set_namespace then
        if args.do_migrateself then [Op.evc_set_namespace]
        else if args.do_migrate then [Op.evc_enter_namespace]
        else []
      else []
  else if args.do_pivot_root then [Op.pivot_root]
  else []) ++
  (if args.is_initpid || args.do_endsetup then [Op.setFlags] else []) ++
  (if args.do_migrate && !args.do_migrateself then [Op.evc_ctx_migrate] else []) ++
  (if args.uid then [Op.esetuid] else []) ++
  (if args.personality then [Op.sys_personality] else []) ++
  (if args.sync_sock then [Op.doExternalSync] else []) ++
  [Op.openDevNull]

structure Config where
  args : Arguments
  /-- `SIGPIPE` is ignored; the disposition is that of the caller. -/
  sigpipeIgnored : Bool

/-- How a process ends. -/
inductive Outcome where
  | exited (status : Nat)
  | killed (signum : Nat)

def SIGPIPE : Nat := 13

/-- The next operation of the child. -/
inductive Child where
  | connectExternalSync
  | closeW0
  | readToken
  | closeR0
  | setup (ops : List Op)
  | closeR1
  | writeDot
  | execvp
  | writeX
  | exit
  | executed
  | gone (outcome : Outcome)

/-- The next operation of the parent. -/
inductive Parent where
  | jailIntoTempDir
  | closeR0
  | writeToken
  | closeW0
  | closeW1
  | readDot
  | readEnd
  | exitLikeProcess
  | gone (outcome : Outcome)

structure State where
  parent : Parent
  child : Child
  p0 : Pipe
  p1 : Pipe

/-- `is_prevent_race` -/
def Arguments.isPreventRace (args : Arguments) : Bool := !args.dynamicXid && args.do_migrate

def initial (cfg : Config) : State where
  parent := if cfg.args.isPreventRace then .jailIntoTempDir else .closeR0
  child := .connectExternalSync
  p0 := .shared
  p1 := .shared

/-- The end of a process closes its descriptors. -/
def State.parentGone (s : State) (outcome : Outcome) : State :=
  { s with parent := .gone outcome, p0 := s.p0.leave .parent, p1 := s.p1.leave .parent }

def State.childGone (s : State) (outcome : Outcome) : State :=
  { s with child := .gone outcome, p0 := s.p0.leave .child, p1 := s.p1.leave .child }

/-- A write without a reader. -/
def Config.brokenPipe (cfg : Config) : Outcome :=
  if cfg.sigpipeIgnored then .exited wrapperExitCode else .killed SIGPIPE

/-- `vc_exitLikeProcess`: its own handlers catch the signal by which it tries to die. -/
def likeProcess : Outcome → Outcome
  | .exited status => .exited status
  | .killed _ => .exited 1

/-- `waitOnSync` -/
def parentNext (cfg : Config) (s : State) : Option State :=
  match s.parent with
  | .jailIntoTempDir => some { s with parent := .closeR0 }
  | .closeR0 => some { s with parent := .writeToken, p0 := s.p0.closeRead .parent }
  | .writeToken =>
    if s.p0.readers.any then some { s with parent := .closeW0, p0 := s.p0.write 'X' }
    else some (s.parentGone cfg.brokenPipe)
  | .closeW0 => some { s with parent := .closeW1, p0 := s.p0.closeWrite .parent }
  | .closeW1 => some { s with parent := .readDot, p1 := s.p1.closeWrite .parent }
  | .readDot =>
    match s.p1.data with
    | _ :: data => some { s with parent := .readEnd, p1 := { s.p1 with data := data } }
    | [] => if s.p1.writers.any then none else some { s with parent := .exitLikeProcess }
  | .readEnd =>
    match s.p1.data with
    | _ :: data => some { s with parent := .exitLikeProcess, p1 := { s.p1 with data := data } }
    | [] => if s.p1.writers.any then none else some (s.parentGone (.exited 0))
  | .exitLikeProcess =>
    match s.child with
    | .gone outcome => some (s.parentGone (likeProcess outcome))
    | _ => none
  | .gone _ => none

/-- The child as long as nothing fails.  What `doSyncStage0` reads is not looked at. -/
def childNext (cfg : Config) (s : State) : Option State :=
  match s.child with
  | .connectExternalSync => some { s with child := .closeW0 }
  | .closeW0 => some { s with child := .readToken, p0 := s.p0.closeWrite .child }
  | .readToken =>
    match s.p0.data with
    | _ :: data => some { s with child := .closeR0, p0 := { s.p0 with data := data } }
    | [] => if s.p0.writers.any then none else some { s with child := .closeR0 }
  | .closeR0 => some { s with child := .setup cfg.args.ops, p0 := s.p0.closeRead .child }
  | .setup (_ :: ops) => some { s with child := .setup ops }
  | .setup [] => some { s with child := .closeR1 }
  | .closeR1 => some { s with child := .writeDot, p1 := s.p1.closeRead .child }
  | .writeDot =>
    if s.p1.readers.any then some { s with child := .execvp, p1 := s.p1.write '.' }
    else some (s.childGone cfg.brokenPipe)
  | .execvp => some { s with child := .executed, p1 := s.p1.closeWrite .child }
  | .writeX =>
    if s.p1.readers.any then some { s with child := .exit, p1 := s.p1.write 'X' }
    else some (s.childGone cfg.brokenPipe)
  | .exit => some (s.childGone (.exited wrapperExitCode))
  | .executed | .gone _ => none

/-- The child when an operation fails: all but `execvp` end it at once. -/
def childFails (cfg : Config) (s : State) (status : Nat) : Option State :=
  match s.child with
  | .connectExternalSync =>
    if cfg.args.sync_sock ∧ status = wrapperExitCode then some (s.childGone (.exited status))
    else none
  | .closeW0 | .readToken | .closeR0 | .closeR1 | .writeDot | .writeX =>
    if status = wrapperExitCode then some (s.childGone (.exited status)) else none
  | .setup (op :: _) =>
    if status ∈ op.statuses then some (s.childGone (.exited status)) else none
  | .execvp => some { s with child := .writeX }
  | .setup [] | .exit | .executed | .gone _ => none

inductive Event where
  | parent
  | jailFails
  | child
  | childFails (status : Nat)

def next (cfg : Config) (s : State) : Event → Option State
  | .parent => parentNext cfg s
  | .jailFails =>
    match s.parent with
    | .jailIntoTempDir => some (s.parentGone (.exited 255))
    | _ => none
  | .child => childNext cfg s
  | .childFails status => childFails cfg s status

def Step (cfg : Config) (s : State) (e : Event) (s' : State) : Prop := next cfg s e = some s'

/-! ## The phases of the two processes -/

/-- The parent has not written its token. -/
inductive Unsent : Parent → Prop
  | jailIntoTempDir : Unsent .jailIntoTempDir
  | closeR0 : Unsent .closeR0
  | writeToken : Unsent .writeToken

/-- The parent has written its token, and read nothing. -/
inductive Sent : Parent → Prop
  | closeW0 : Sent .closeW0
  | closeW1 : Sent .closeW1
  | readDot : Sent .readDot

/-- The child has not read the token. -/
inductive Early : Child → Prop
  | connectExternalSync : Early .connectExternalSync
  | closeW0 : Early .closeW0
  | readToken : Early .readToken

/-- The child has read the token, and written nothing. -/
inductive Entering : Child → Prop
  | closeR0 : Entering .closeR0
  | setup (ops : List Op) : Entering (.setup ops)
  | closeR1 : Entering .closeR1
  | writeDot : Entering .writeDot

/-- The child has written the dot only. -/
inductive Dotted : Child → Prop
  | execvp : Dotted .execvp
  | writeX : Dotted .writeX
  | executed : Dotted .executed

/-- The child has written both bytes. -/
inductive Failed : Child → Prop
  | exit : Failed .exit
  | gone : Failed (.gone (.exited wrapperExitCode))

/-- Operations that are left at most. -/
def Parent.rank : Parent → Nat
  | .jailIntoTempDir => 8
  | .closeR0 => 7
  | .writeToken => 6
  | .closeW0 => 5
  | .closeW1 => 4
  | .readDot => 3
  | .readEnd => 2
  | .exitLikeProcess => 1
  | .gone _ => 0

def Child.rank (cfg : Config) : Child → Nat
  | .connectExternalSync => cfg.args.ops.length + 10
  | .closeW0 => cfg.args.ops.length + 9
  | .readToken => cfg.args.ops.length + 8
  | .closeR0 => cfg.args.ops.length + 7
  | .setup ops => ops.length + 6
  | .closeR1 => 5
  | .writeDot => 4
  | .execvp => 3
  | .writeX => 2
  | .exit => 1
  | .executed | .gone _ => 0

def State.rank (cfg : Config) (s : State) : Nat := s.parent.rank + s.child.rank cfg

/-! ## Who holds which end -/

inductive Fd where
  | r0 | w0 | r1 | w1

def Parent.holds : Parent → Fd → Bool
  | .jailIntoTempDir, _ | .closeR0, _ => true
  | .writeToken, .r0 => false
  | .writeToken, _ => true
  | .closeW0, .r0 => false
  | .closeW0, _ => true
  | .closeW1, .r1 | .closeW1, .w1 => true
  | .readDot, .r1 | .readEnd, .r1 | .exitLikeProcess, .r1 => true
  | _, _ => false

def Child.holds : Child → Fd → Bool
  | .connectExternalSync, _ | .closeW0, _ => true
  | .readToken, .w0 | .closeR0, .w0 => false
  | .readToken, _ | .closeR0, _ => true
  | .setup _, .r1 | .setup _, .w1 | .closeR1, .r1 | .closeR1, .w1 => true
  | .writeDot, .w1 | .execvp, .w1 | .writeX, .w1 | .exit, .w1 => true
  | _, _ => false

/-- The ends are held as the operations say. -/
structure Held (s : State) : Prop where
  r0 : s.p0.readers = ⟨s.parent.holds .r0, s.child.holds .r0⟩
  w0 : s.p0.writers = ⟨s.parent.holds .w0, s.child.holds .w0⟩
  r1 : s.p1.readers = ⟨s.parent.holds .r1, s.child.holds .r1⟩
  w1 : s.p1.writers = ⟨s.parent.holds .w1, s.child.holds .w1⟩

/-- **The joint states**: the two processes and what is in the two pipes. -/
inductive Joint (cfg : Config) : Parent → Child → List Char → List Char → Prop
  | unsent {p : Parent} {c : Child} (hp : Unsent p) (hc : Early c) : Joint cfg p c [] []
  | unheard {p : Parent} (hp : Unsent p) (hignored : cfg.sigpipeIgnored = true) :
      Joint cfg p (.gone (.exited wrapperExitCode)) [] []
  | sent {p : Parent} {c : Child} (hp : Sent p) (hc : Early c) : Joint cfg p c ['X'] []
  | entering {p : Parent} {c : Child} (hp : Sent p) (hc : Entering c) : Joint cfg p c [] []
  | given {p : Parent} {status : Nat} {data : List Char} (hp : Sent p) (hstatus : status ≠ 0) :
      Joint cfg p (.gone (.exited status)) data []
  | waiting {status : Nat} {data : List Char} (hstatus : status ≠ 0) :
      Joint cfg .exitLikeProcess (.gone (.exited status)) data []
  | dotted {p : Parent} {c : Child} (hp : Sent p) (hc : Dotted c) : Joint cfg p c [] ['.']
  | failed {p : Parent} {c : Child} (hp : Sent p) (hc : Failed c) : Joint cfg p c [] ['.', 'X']
  | seenDotted {c : Child} (hc : Dotted c) : Joint cfg .readEnd c [] []
  | seenFailed {c : Child} (hc : Failed c) : Joint cfg .readEnd c [] ['X']
  | exiting {c : Child} (hc : Failed c) : Joint cfg .exitLikeProcess c [] []
  | success : Joint cfg (.gone (.exited 0)) .executed [] []
  | same {status : Nat} {data data' : List Char} (hstatus : status ≠ 0) :
      Joint cfg (.gone (.exited status)) (.gone (.exited status)) data data'

def State.Joint (cfg : Config) (s : State) : Prop :=
  VcontextSync.Joint cfg s.parent s.child s.p0.data s.p1.data

/-- The child reads the token and executes the command, then the parent looks. -/
def executes : List Event :=
  [Event.child, Event.child, Event.parent, Event.parent] ++ List.replicate 9 Event.child ++
    List.replicate 4 Event.parent

end VcontextSync
