import UtilVserver.VcontextSync

/-!
# Ending like the child (`lib/exitlikeprocess.c`)

`vc_exitLikeProcess` forwards signals to the child, waits for its end, and then ends as the child
has done.

* `Caller` — the process that calls: its signal dispositions and its mask.
* `signalHandler`, `installed`, `waitChild`, `exitLikeProcess` — the source.
* `Mirrors` — what it has to do.

Principal result: `exitLikeProcess_mirrors`.
-/

set_option autoImplicit false

namespace ExitLikeProcess

/-- The number of a signal. -/
abbrev Signal := { n : Nat // 1 ≤ n ∧ n ≤ 64 }

def SIGKILL : Nat := 9
def SIGSTOP : Nat := 19

/-- The signals that end a process by default: all but `SIGCHLD`, `SIGCONT`, the four that stop it,
`SIGURG` and `SIGWINCH`. -/
def terminates (signum : Nat) : Bool := !([17, 18, 19, 20, 21, 22, 23, 28].contains signum)

inductive Disposition where
  | default
  | ignored
  /-- A handler that is not the one of this function. -/
  | caught
  | signalHandler
  deriving DecidableEq

/-- The process before the call. -/
structure Caller where
  disposition : Nat → Disposition
  blocked : Nat → Bool
  fresh : ∀ signum, disposition signum ≠ .signalHandler
  kill_default : disposition SIGKILL = .default
  stop_default : disposition SIGSTOP = .default
  kill_open : blocked SIGKILL = false

/-- How a process has ended. -/
inductive Ending where
  | exited (code : Fin 256)
  | signaled (signum : Signal) (h : terminates signum.1 = true)

/-- A signal that is sent to the child, perhaps into its context. -/
inductive Call where
  | ctxKill (xid : BitVec 32) (signum : Nat)
  | kill (signum : Nat)

def Call.signum : Call → Nat
  | .ctxKill _ signum => signum
  | .kill signum => signum

/-- `signalHandler`, for the context of the child. -/
def signalHandler (xid : BitVec 32) (signum : Nat) : Call :=
  if xid ≠ 0 then .ctxKill xid signum else .kill signum

/-- `signal(signum, signalHandler)`, which fails for 0, `SIGKILL` and `SIGSTOP`. -/
def setHandler (disposition : Nat → Disposition) (signum : Nat) : Nat → Disposition :=
  if signum = 0 ∨ signum = SIGKILL ∨ signum = SIGSTOP then disposition
  else Function.update disposition signum .signalHandler

/-- `for (i = 0; i < 32; i++) signal(i, signalHandler)`. -/
def installed (c : Caller) : Nat → Disposition := (List.range 32).foldl setHandler c.disposition

/-- A signal that is delivered to the caller, and the context of the child at that time. -/
structure Delivery where
  signum : Signal
  xid : BitVec 32

/-- `wait4`, again after each interruption: the calls of the handler, and the end of the caller when
a signal ends it.  A stopped caller is taken to be continued. -/
def waitChild (disposition : Nat → Disposition) : List Delivery → List Call × Option Nat
  | [] => ([], none)
  | d :: rest =>
    match disposition d.signum.1 with
    | .signalHandler =>
      let r := waitChild disposition rest
      (signalHandler d.xid d.signum.1 :: r.1, r.2)
    | .default =>
      if terminates d.signum.1 = true then ([], some d.signum.1) else waitChild disposition rest
    | _ => waitChild disposition rest

/-- The end of the caller. -/
abbrev Outcome := VcontextSync.Outcome

/-- `kill(getpid(), WTERMSIG(status)); exit(1);` -/
def raise (c : Caller) (disposition : Nat → Disposition) (signum : Nat) : Outcome :=
  if disposition signum = .default ∧ c.blocked signum = false ∧ terminates signum = true then
    .killed signum
  else .exited 1

/-- `vc_exitLikeProcess`. -/
def exitLikeProcess (c : Caller) (received : List Delivery) (status : Ending) :
    List Call × Outcome :=
  let disposition := installed c
  let r := waitChild disposition received
  match r.2 with
  | some signum => (r.1, .killed signum)
  | none =>
    match status with
    | .exited code => (r.1, .exited code)
    | .signaled signum _ => (r.1, raise c disposition signum.1)

def Ending.outcome : Ending → Outcome
  | .exited code => .exited code
  | .signaled signum _ => .killed signum.1

/-- **What it has to do**: every signal is forwarded, and the caller ends like the child. -/
def Mirrors (c : Caller) (received : List Delivery) (status : Ending) : Prop :=
  (exitLikeProcess c received status).1.map Call.signum = received.map (·.signum.1) ∧
    (exitLikeProcess c received status).2 = status.outcome

/-! ## The handlers -/

/-- The signals that get the handler. -/
def Handled (signum : Nat) : Prop :=
  1 ≤ signum ∧ signum < 32 ∧ signum ≠ SIGKILL ∧ signum ≠ SIGSTOP

theorem foldl_setHandler (disposition : Nat → Disposition) (n signum : Nat) :
    (List.range n).foldl setHandler disposition signum =
      if 1 ≤ signum ∧ signum < n ∧ signum ≠ SIGKILL ∧ signum ≠ SIGSTOP then .signalHandler
      else disposition signum := by
  induction n with
  | zero => simp
  | succ n ih =>
    rw [List.range_succ, List.foldl_append, List.foldl_cons, List.foldl_nil]
    unfold setHandler
    by_cases hn : n = 0 ∨ n = SIGKILL ∨ n = SIGSTOP
    · rw [if_pos hn]
      change (List.range n).foldl setHandler disposition signum = _
      rw [ih]
      congr 1
      rw [eq_iff_iff]
      omega
    · rw [if_neg hn]
      by_cases he : signum = n
      · subst he
        rw [Function.update_self, if_pos (by omega)]
      · rw [Function.update_of_ne he]
        change (List.range n).foldl setHandler disposition signum = _
        rw [ih]
        congr 1
        rw [eq_iff_iff]
        omega

theorem installed_eq (c : Caller) (signum : Nat) [Decidable (Handled signum)] :
    installed c signum = if Handled signum then .signalHandler else c.disposition signum := by
  rw [installed, foldl_setHandler]
  unfold Handled
  congr

theorem installed_handler_iff (c : Caller) (signum : Nat) :
    installed c signum = .signalHandler ↔ Handled signum := by
  classical
  rw [installed_eq]
  by_cases h : Handled signum
  · simp [h]
  · simp [h, c.fresh signum]

theorem Call.signum_signalHandler (xid : BitVec 32) (signum : Nat) :
    (signalHandler xid signum).signum = signum := by
  unfold signalHandler
  split <;> rfl

/-! ## Waiting -/

/-- No more is forwarded than is received. -/
theorem waitChild_length (disposition : Nat → Disposition) : ∀ received : List Delivery,
    (waitChild disposition received).1.length ≤ received.length
  | [] => Nat.le_refl _
  | d :: rest => by
    have ih := waitChild_length disposition rest
    rw [waitChild, List.length_cons]
    split
    · rw [List.length_cons]
      omega
    · split
      · exact Nat.zero_le _
      · omega
    · omega

/-- **Everything is forwarded** exactly when every signal has the handler, and then the caller
survives. -/
theorem waitChild_forwards (disposition : Nat → Disposition) : ∀ received : List Delivery,
    ((waitChild disposition received).1.map Call.signum = received.map (·.signum.1) ↔
      ∀ d ∈ received, disposition d.signum.1 = .signalHandler) ∧
    ((∀ d ∈ received, disposition d.signum.1 = .signalHandler) →
      (waitChild disposition received).2 = none)
  | [] => ⟨by simp [waitChild], fun _ => rfl⟩
  | d :: rest => by
    obtain ⟨hiff, hnone⟩ := waitChild_forwards disposition rest
    rw [waitChild, List.forall_mem_cons]
    cases hd : disposition d.signum.1 with
    | signalHandler =>
      simp only [List.map_cons, List.cons.injEq, Call.signum_signalHandler, true_and]
      exact ⟨hiff, hnone⟩
    | default | ignored | caught =>
      -- what is not forwarded is missing from the list
      refine ⟨iff_of_false (fun h => ?_) (by simp), fun h => by simp at h⟩
      have hlen := congrArg List.length h
      have hle := waitChild_length disposition rest
      simp only [List.length_map, List.length_cons] at hlen
      first
        | omega
        | split at hlen
          · simp at hlen
          · omega

/-- The child's end can be mirrored: it has exited, or its signal is not caught by the handler and
would end the caller. -/
def Mirrorable (c : Caller) : Ending → Prop
  | .exited _ => True
  | .signaled signum _ => signum.1 = SIGKILL ∨
      32 ≤ signum.1 ∧ c.disposition signum.1 = .default ∧ c.blocked signum.1 = false

theorem raise_iff (c : Caller) {signum : Signal} (h : terminates signum.1 = true) :
    raise c (installed c) signum.1 = .killed signum.1 ↔ Mirrorable c (.signaled signum h) := by
  classical
  have hinstalled := installed_eq c signum.1
  unfold raise Mirrorable
  have hstop : signum.1 ≠ SIGSTOP := by
    intro he
    rw [he] at h
    cases h
  obtain ⟨hpos, -⟩ := signum.2
  by_cases hh : Handled signum.1
  · rw [if_pos hh] at hinstalled
    obtain ⟨-, hlt, hkill, -⟩ := hh
    rw [hinstalled, if_neg (by simp)]
    refine iff_of_false (by simp) ?_
    rintro (he | ⟨hge, -⟩)
    · exact hkill he
    · omega
  · rw [if_neg hh] at hinstalled
    rw [hinstalled]
    by_cases hkill : signum.1 = SIGKILL
    · rw [if_pos ⟨by rw [hkill]; exact c.kill_default, by rw [hkill]; exact c.kill_open, h⟩]
      exact iff_of_true rfl (Or.inl hkill)
    · have hge : 32 ≤ signum.1 := by
        by_contra hlt
        exact hh ⟨hpos, by omega, hkill, hstop⟩
      by_cases hd : c.disposition signum.1 = .default ∧ c.blocked signum.1 = false
      · rw [if_pos ⟨hd.1, hd.2, h⟩]
        exact iff_of_true rfl (Or.inr ⟨hge, hd⟩)
      · rw [if_neg fun he => hd ⟨he.1, he.2.1⟩]
        refine iff_of_false (by simp) ?_
        rintro (he | ⟨-, he⟩)
        · exact hkill he
        · exact hd he

/-- **The caller mirrors the child** exactly when each signal that it receives has the handler and
the child has exited or been ended by a signal that the handler does not catch. -/
theorem exitLikeProcess_mirrors (c : Caller) (received : List Delivery) (status : Ending) :
    Mirrors c received status ↔
      (∀ d ∈ received, Handled d.signum.1) ∧ Mirrorable c status := by
  obtain ⟨hiff, hnone⟩ := waitChild_forwards (installed c) received
  simp only [installed_handler_iff] at hiff hnone
  unfold Mirrors
  constructor
  · rintro ⟨hcalls, hend⟩
    have hall : ∀ d ∈ received, Handled d.signum.1 := by
      rw [← hiff, ← hcalls]
      unfold exitLikeProcess
      simp only
      split
      · rfl
      · split <;> rfl
    refine ⟨hall, ?_⟩
    cases status with
    | exited code => trivial
    | signaled signum h =>
      rw [← raise_iff c h]
      simp only [exitLikeProcess, hnone hall] at hend
      exact hend
  · rintro ⟨hall, hend⟩
    cases status with
    | exited code =>
      simp only [exitLikeProcess, hnone hall]
      exact ⟨hiff.2 hall, rfl⟩
    | signaled signum h =>
      simp only [exitLikeProcess, hnone hall]
      exact ⟨hiff.2 hall, (raise_iff c h).2 hend⟩

/-- A caller with the default dispositions. -/
def plain : Caller where
  disposition _ := .default
  blocked _ := false
  fresh _ := by simp
  kill_default := rfl
  stop_default := rfl
  kill_open := rfl

/-- A child that is ended by `SIGTERM`: the caller exits with 1. -/
theorem exitLikeProcess_sigterm :
    ¬ Mirrors plain [] (.signaled ⟨15, by decide⟩ rfl) ∧
      (exitLikeProcess plain [] (.signaled ⟨15, by decide⟩ rfl)).2 = .exited 1 := by
  constructor
  · rw [exitLikeProcess_mirrors]
    rintro ⟨-, h⟩
    rcases h with h | ⟨h, -⟩
    · exact absurd h (by decide)
    · exact absurd h (by decide)
  · rfl

end ExitLikeProcess
