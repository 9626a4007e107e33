import UtilVserver.IsNumber

/-!
# `vkill` (`src/vkill.c`)

Each argument is the text of a pid.  Where the text is no number `kill_wrapper` says so and goes on
with what its uninitialised variable holds.

* `killWrapper`, `killAll` — the source.
* `pidOf`, `signalNamed` — what an argument names, and the handling of named processes only.
* `Refused` — the condition.

Principal result: `main_named`.
-/

set_option autoImplicit false

namespace Vkill

open CString IsNumber

abbrev Pid := BitVec 32
abbrev Xid := BitVec 32

def VC_NOCTX : Xid := ~~~0

/-- The system calls: `vc_get_task_xid`, and `vc_ctx_kill`, which is none for -1. -/
structure Kernel (K : Type) where
  taskXid : K → Pid → Xid
  ctxKill : K → Xid → Pid → Int → Option K

variable {K : Type} (sys : Kernel K)

/-- The options of a call. -/
structure Arguments where
  xid : Xid
  sig : Int

/-- An argument of the command, with what the uninitialised `tmp` holds when it is handled. -/
structure Arg where
  pid_s : Text
  tmp : Int

/-- What becomes of an argument: the process that a signal is sent to, and the state. -/
structure Outcome (K : Type) where
  sent : Option (Xid × Pid)
  state : K

/-- `vc_ctx_kill(xid, pid, sig)` for a pid. -/
def send (args : Arguments) (pid : Pid) (k : K) : Outcome K :=
  let xid := if args.xid = VC_NOCTX then sys.taskXid k pid else args.xid
  match sys.ctxKill k xid pid args.sig with
  | some k' => ⟨some (xid, pid), k'⟩
  | none => ⟨none, k⟩

/-- `(pid_t) tmp`. -/
def killPid (arg : Arg) : Pid := BitVec.ofInt 32 ((isNumber arg.pid_s true).getD arg.tmp)

/-- `kill_wrapper`.  It returns 1 when nothing is sent. -/
def killWrapper (args : Arguments) (arg : Arg) (k : K) : Outcome K := send sys args (killPid arg) k

/-- What becomes of the arguments, and the final state. -/
def killAll (args : Arguments) : List Arg → K → List (Option (Xid × Pid)) × K
  | [], k => ([], k)
  | arg :: rest, k =>
    let r := killWrapper sys args arg k
    let all := killAll args rest r.state
    (r.sent :: all.1, all.2)

/-- `fail == 0`. -/
def succeeded (results : List (Option (Xid × Pid))) : Bool := results.all Option.isSome

/-- `main` behind its options: without a pid the number 0 stands for all processes of the context;
none when that has not been named. -/
def argList (args : Arguments) (argv : List Arg) : Option (List Arg) :=
  if argv = [] then if args.xid = VC_NOCTX then none else some [⟨['0'], 0⟩]
  else some argv

/-- What becomes of the arguments, the final state, and whether the exit status is a success; none
for the usage error. -/
def main (args : Arguments) (argv : List Arg) (k : K) :
    Option ((List (Option (Xid × Pid)) × K) × Bool) :=
  (argList args argv).map fun l => (killAll sys args l k, succeeded (killAll sys args l k).1)

/-! ## Named processes -/

/-- The pid that a text names: all of it is a number in C notation, and representable. -/
def pidOf (s : Text) : Option Pid :=
  if s.head?.any isspace then none
  else (denotes s).bind fun v => if -2 ^ 31 ≤ v ∧ v < 2 ^ 31 then some (BitVec.ofInt 32 v) else none

/-- **The handling of named processes**: what names none sends nothing, and counts as a failure. -/
def signalNamed (args : Arguments) : List Arg → K → List (Option (Xid × Pid)) × K
  | [], k => ([], k)
  | arg :: rest, k =>
    let r := match pidOf arg.pid_s with
      | some pid => send sys args pid k
      | none => ⟨none, k⟩
    let all := signalNamed args rest r.state
    (r.sent :: all.1, all.2)

/-- `main` for named processes only. -/
def mainNamed (args : Arguments) (argv : List Arg) (k : K) :
    Option ((List (Option (Xid × Pid)) × K) × Bool) :=
  (argList args argv).map fun l => (signalNamed sys args l k, succeeded (signalNamed sys args l k).1)

/-- For each argument that names no process the kernel refuses the call that is made for it. -/
def Refused (args : Arguments) : List Arg → K → Prop
  | [], _ => True
  | arg :: rest, k =>
    match pidOf arg.pid_s with
    | some pid => Refused args rest (send sys args pid k).state
    | none => (send sys args (killPid arg) k).sent = none ∧ Refused args rest k

theorem killPid_of_pidOf {arg : Arg} {pid : Pid} (h : pidOf arg.pid_s = some pid) :
    killPid arg = pid := by
  unfold pidOf at h
  split at h
  · cases h
  obtain ⟨v, hd, hv⟩ := Option.bind_eq_some_iff.1 h
  obtain ⟨hrange, hval⟩ := (Option.ite_none_right_eq_some ..).1 hv
  obtain rfl := Option.some.inj hval
  have hlong : InLong v := by
    unfold InLong LONG_MIN LONG_MAX
    omega
  rw [killPid, isNumber_strict_iff.2 ⟨hd, hlong⟩, Option.getD_some]

theorem send_none {args : Arguments} {pid : Pid} {k : K} (h : (send sys args pid k).sent = none) :
    (send sys args pid k).state = k := by
  unfold send at h ⊢
  simp only at h ⊢
  split at h
  · cases h
  · rfl

/-- One argument after the other. -/
theorem killAll_eq_iff (args : Arguments) (argv : List Arg) (k : K) :
    killAll sys args argv k = signalNamed sys args argv k ↔ Refused sys args argv k := by
  induction argv generalizing k with
  | nil => exact iff_of_true rfl trivial
  | cons arg rest ih =>
    rw [killAll, signalNamed, Refused, killWrapper]
    cases hpid : pidOf arg.pid_s with
    | some pid =>
      simp only [killPid_of_pidOf hpid, ← ih, Prod.ext_iff, List.cons.injEq, true_and]
    | none =>
      simp only [Prod.ext_iff, List.cons.injEq]
      constructor
      · rintro ⟨⟨hsent, hrest⟩, hstate⟩
        rw [send_none sys hsent] at hrest hstate
        exact ⟨hsent, (ih k).1 (Prod.ext hrest hstate)⟩
      · rintro ⟨hsent, hrest⟩
        rw [send_none sys hsent, (ih k).2 hrest]
        exact ⟨⟨hsent, rfl⟩, rfl⟩

/-- **Exactly the named processes get the signal**, and what names none is a failure without
influence, exactly when the kernel refuses the calls for the arguments that name none. -/
theorem main_named (args : Arguments) (argv : List Arg) (k : K) :
    main sys args argv k = mainNamed sys args argv k ↔
      ∀ l, argList args argv = some l → Refused sys args l k := by
  unfold main mainNamed
  cases hl : argList args argv with
  | none => simp
  | some l =>
    simp only [Option.map_some, Option.some.injEq, forall_eq']
    rw [← killAll_eq_iff]
    constructor
    · intro h
      exact (Prod.ext_iff.1 h).1
    · intro h
      rw [h]

/-- A kernel that remembers the signals it has sent. -/
def recording : Kernel (List Pid) where
  taskXid _ _ := 49152
  ctxKill k _ pid _ := some (pid :: k)

/-- `vkill 5 x`: the second argument kills the process that the first one has named once more. -/
theorem main_noNumber :
    main recording ⟨VC_NOCTX, 15⟩ [⟨['5'], 0⟩, ⟨['x'], 5⟩] [] ≠
      mainNamed recording ⟨VC_NOCTX, 15⟩ [⟨['5'], 0⟩, ⟨['x'], 5⟩] [] := by
  rw [ne_eq, main_named]
  intro h
  have hrefused := h _ rfl
  have hfive : pidOf ['5'] = some 5 := by decide
  have hx : pidOf ['x'] = none := by decide
  simp only [Refused, hfive, hx] at hrefused
  exact absurd hrefused.1 (by decide)

end Vkill
