import UtilVserver.Lib.DecimalText
import UtilVserver.Lib.Transition

/-!
# Waiting for the end of a guest (`src/vwait.c`, `scripts/vserver.functions`)

`vwait` waits until a context has gone, with an alarm against waiting for too long.  Signals may
interrupt the wait at any time; then the clock is read, and the alarm is set again.

* `State`, `next` — the program with its alarm, the clock, and what the kernel answers.
* `StatusType`, `report` — how it ends, and what it tells of it.
* `initWait`, `waitForVWait` — what the stop of a vserver makes of that.
* `Inv` — where the alarm stands, as long as none has been missed.

Principal results: `run_right` and `missed_waits` (why no alarm may be missed).
-/

set_option autoImplicit false

namespace Vwait

open CString DecimalText Transition

inductive StatusType where
  | stERROR (errno : Nat)
  | stFINISHED (rc : Int)
  | stKILLED
  | stTIMEOUT
  deriving DecidableEq

structure Arguments where
  timeout : Int
  do_terminate : Bool

/-- Where the program is: in front of the first reading of the clock, of `alarm` with its argument,
of `vc_wait_exit`; in it; behind an `EAGAIN` or `EINTR` from it; behind the loop. -/
inductive Pc where
  | begin
  | arming (seconds : Nat)
  | calling
  | waiting
  | interrupted
  | ended (status : StatusType)
  deriving DecidableEq

/-- The clock counts thousandths of a second. -/
structure State where
  pc : Pc
  now : Nat
  end_time : Nat
  /-- When the pending alarm expires. -/
  alarm : Option Nat
  /-- The calls of `vc_ctx_kill`: process and signal. -/
  kills : List (Nat × Nat)
  /-- How much time has passed outside of `vc_wait_exit`. -/
  delay : Nat
  deriving DecidableEq

def State.init (start : Nat) : State := ⟨.begin, start, 0, none, [], 0⟩

def EINTR : Nat := 4
def EAGAIN : Nat := 11

inductive Label where
  /-- The next operation of the program. -/
  | run
  /-- Time passes in the call. -/
  | tick (n : Nat)
  /-- Time passes elsewhere. -/
  | late (n : Nat)
  | alarm
  /-- The alarm expires between `alarm` and the call. -/
  | missed
  /-- Another signal, or `EAGAIN`. -/
  | signal
  | exit (rc : Int)
  | fail (errno : Nat)
  deriving DecidableEq

/-- No alarm expires before `t`. -/
def State.quiet (s : State) (t : Nat) : Bool := s.alarm.all fun dl => decide (t ≤ dl)

/-- The alarm expires now. -/
def State.due (s : State) : Bool := s.alarm.any fun dl => decide (dl ≤ s.now)

/-- `time(0)` -/
def State.time (s : State) : Nat := s.now / 1000

def Pc.over : Pc → Bool
  | .ended _ => true
  | _ => false

/-- `alarm(0)` behind the loop. -/
def State.finish (s : State) (status : StatusType) : State :=
  { s with pc := .ended status, alarm := none }

/-- An operation of `doit`. -/
def operation (args : Arguments) (s : State) : Option State :=
  match s.pc with
  | .begin =>
    if 0 < args.timeout then
      some { s with end_time := s.time + args.timeout.toNat, pc := .arming args.timeout.toNat }
    else some { s with pc := .calling }
  | .arming seconds =>
    some { s with
      alarm := if seconds = 0 then none else some (s.now + 1000 * seconds)
      pc := .calling }
  | .calling => some { s with pc := .waiting }
  | .interrupted =>
    if 0 < args.timeout ∧ s.end_time ≤ s.time then
      if args.do_terminate then some ({ s with kills := [(1, 9), (0, 9)] }.finish .stKILLED)
      else some (s.finish .stTIMEOUT)
    else if 0 < args.timeout then some { s with pc := .arming (s.end_time - s.time) }
    else some { s with pc := .calling }
  | _ => none

def next (args : Arguments) (s : State) : Label → Option State
  | .run => operation args s
  | .tick n =>
    if s.pc = .waiting ∧ s.quiet (s.now + n) then some { s with now := s.now + n } else none
  | .late n =>
    if s.pc ≠ .waiting ∧ ¬ s.pc.over ∧ s.quiet (s.now + n) then
      some { s with now := s.now + n, delay := s.delay + n }
    else none
  | .alarm =>
    if s.due ∧ s.pc ≠ .calling then
      some { s with alarm := none, pc := if s.pc = .waiting then .interrupted else s.pc }
    else none
  | .missed => if s.due ∧ s.pc = .calling then some { s with alarm := none } else none
  | .signal => if s.pc = .waiting then some { s with pc := .interrupted } else none
  | .exit rc => if s.pc = .waiting ∧ rc ≠ -1 then some (s.finish (.stFINISHED rc)) else none
  | .fail errno =>
    if s.pc = .waiting ∧ errno ≠ EAGAIN ∧ errno ≠ EINTR then some (s.finish (.stERROR errno))
    else none

def Step (args : Arguments) (s : State) (l : Label) (s' : State) : Prop := next args s l = some s'

/-! ## What is told of the end -/

def fmtLong (n : Int) : Text := if n < 0 then '-' :: decimal n.natAbs else decimal n.natAbs

/-- `writeStatus`, on the descriptor. -/
def writeStatus (str : Text) (rc : Option Int) : Text :=
  str ++ (rc.elim [] fun n => ' ' :: fmtLong n) ++ ['\n']

/-- The `switch` of `main`: the line, and the exit code. -/
def report : StatusType → Text × Nat
  | .stERROR errno => (writeStatus "ERROR".toList (some errno), 127)
  | .stFINISHED rc => (writeStatus "FINISHED".toList (some rc), 0)
  | .stKILLED => (writeStatus "KILLED".toList none, 1)
  | .stTIMEOUT => (writeStatus "TIMEOUT".toList none, 2)

/-- `initWait` behind `vwait`: whether the guest is killed. -/
def initWait (rc : Nat) : Bool := rc != 0 && rc != 1

/-- The warnings of `_waitForVWait`. -/
inductive Warning where
  | error
  | killed
  | timeout
  | internal
  deriving DecidableEq

def inWord (c : Char) : Bool := c != ' ' && c != '\n'

/-- `set -- ${status[0]}` and the `case` on `$1`. -/
def waitForVWait (content : Text) : Option Warning :=
  let word := content.takeWhile inWord
  if word = "ERROR".toList then some .error
  else if word = "FINISHED".toList then none
  else if word = "KILLED".toList then some .killed
  else if word = "TIMEOUT".toList then some .timeout
  else some .internal

/-! ## The steps -/

/-- The cases of `next`. -/
inductive Moves (args : Arguments) (s : State) : Label → State → Prop
  | start (h : s.pc = .begin) (ht : 0 < args.timeout) : Moves args s .run
      { s with end_time := s.time + args.timeout.toNat, pc := .arming args.timeout.toNat }
  | forever (h : s.pc = .begin) (ht : ¬ 0 < args.timeout) :
      Moves args s .run { s with pc := .calling }
  | arm (n : Nat) (h : s.pc = .arming n) : Moves args s .run
      { s with alarm := if n = 0 then none else some (s.now + 1000 * n), pc := .calling }
  | call (h : s.pc = .calling) : Moves args s .run { s with pc := .waiting }
  | kill (h : s.pc = .interrupted) (ht : 0 < args.timeout) (hend : s.end_time ≤ s.time)
      (hterm : args.do_terminate = true) :
      Moves args s .run ({ s with kills := [(1, 9), (0, 9)] }.finish .stKILLED)
  | expire (h : s.pc = .interrupted) (ht : 0 < args.timeout) (hend : s.end_time ≤ s.time)
      (hterm : args.do_terminate = false) : Moves args s .run (s.finish .stTIMEOUT)
  | again (h : s.pc = .interrupted) (ht : 0 < args.timeout) (hend : s.time < s.end_time) :
      Moves args s .run { s with pc := .arming (s.end_time - s.time) }
  | retry (h : s.pc = .interrupted) (ht : ¬ 0 < args.timeout) :
      Moves args s .run { s with pc := .calling }
  | tick (n : Nat) (h : s.pc = .waiting) (hquiet : s.quiet (s.now + n)) :
      Moves args s (.tick n) { s with now := s.now + n }
  | late (n : Nat) (h : s.pc ≠ .waiting) (hover : s.pc.over = false) (hquiet : s.quiet (s.now + n)) :
      Moves args s (.late n) { s with now := s.now + n, delay := s.delay + n }
  | wake (h : s.pc = .waiting) (hdue : s.due) :
      Moves args s .alarm { s with alarm := none, pc := .interrupted }
  | alarm (hw : s.pc ≠ .waiting) (hc : s.pc ≠ .calling) (hdue : s.due) :
      Moves args s .alarm { s with alarm := none }
  | missed (h : s.pc = .calling) (hdue : s.due) : Moves args s .missed { s with alarm := none }
  | signal (h : s.pc = .waiting) : Moves args s .signal { s with pc := .interrupted }
  | exit (rc : Int) (h : s.pc = .waiting) (hrc : rc ≠ -1) :
      Moves args s (.exit rc) (s.finish (.stFINISHED rc))
  | fail (errno : Nat) (h : s.pc = .waiting) (hagain : errno ≠ EAGAIN) (hintr : errno ≠ EINTR) :
      Moves args s (.fail errno) (s.finish (.stERROR errno))

theorem operation_moves {args : Arguments} {s s' : State} (h : operation args s = some s') :
    Moves args s .run s' := by
  unfold operation at h
  split at h
  · rename_i hpc
    split at h
    · exact Option.some.inj h ▸ .start hpc ‹_›
    · exact Option.some.inj h ▸ .forever hpc ‹_›
  · rename_i n hpc
    exact Option.some.inj h ▸ .arm n hpc
  · rename_i hpc
    exact Option.some.inj h ▸ .call hpc
  · rename_i hpc
    split at h
    · rename_i hend
      split at h
      · exact Option.some.inj h ▸ .kill hpc hend.1 hend.2 ‹_›
      · exact Option.some.inj h ▸ .expire hpc hend.1 hend.2 (Bool.eq_false_iff.2 ‹_›)
    · rename_i hend
      split at h
      · rename_i ht
        exact Option.some.inj h ▸ .again hpc ht (Nat.lt_of_not_le fun hle => hend ⟨ht, hle⟩)
      · exact Option.some.inj h ▸ .retry hpc ‹_›
  · cases h

theorem step_moves {args : Arguments} {s s' : State} {l : Label} (h : Step args s l s') :
    Moves args s l s' := by
  unfold Step next at h
  split at h
  · exact operation_moves h
  · obtain ⟨⟨hpc, hquiet⟩, h⟩ := Option.ite_none_right_eq_some.1 h
    exact Option.some.inj h ▸ .tick _ hpc hquiet
  · obtain ⟨⟨hpc, hover, hquiet⟩, h⟩ := Option.ite_none_right_eq_some.1 h
    exact Option.some.inj h ▸ .late _ hpc (Bool.eq_false_iff.2 hover) hquiet
  · obtain ⟨⟨hdue, hc⟩, h⟩ := Option.ite_none_right_eq_some.1 h
    split at h
    · exact Option.some.inj h ▸ .wake ‹_› hdue
    · exact Option.some.inj h ▸ .alarm ‹_› hc hdue
  · obtain ⟨⟨hdue, hc⟩, h⟩ := Option.ite_none_right_eq_some.1 h
    exact Option.some.inj h ▸ .missed hc hdue
  · obtain ⟨hpc, h⟩ := Option.ite_none_right_eq_some.1 h
    exact Option.some.inj h ▸ .signal hpc
  · obtain ⟨⟨hpc, hrc⟩, h⟩ := Option.ite_none_right_eq_some.1 h
    exact Option.some.inj h ▸ .exit _ hpc hrc
  · obtain ⟨⟨hpc, hagain, hintr⟩, h⟩ := Option.ite_none_right_eq_some.1 h
    exact Option.some.inj h ▸ .fail _ hpc hagain hintr

/-! ## Why the program ends -/

/-- The timeout has passed since the start, in full seconds of the clock. -/
def Expired (args : Arguments) (start now : Nat) : Prop :=
  0 < args.timeout ∧ start / 1000 + args.timeout.toNat ≤ now / 1000

/-- The reason of a status, and what has been killed. -/
def Reason (args : Arguments) (start : Nat) (s : State) : Prop :=
  match s.pc with
  | .ended .stTIMEOUT => args.do_terminate = false ∧ Expired args start s.now ∧ s.kills = []
  | .ended .stKILLED =>
    args.do_terminate = true ∧ Expired args start s.now ∧ s.kills = [(1, 9), (0, 9)]
  | _ => s.kills = []

/-- The end of the time is at least the timeout behind the start. -/
structure Sound (args : Arguments) (start : Nat) (s : State) : Prop where
  clock : start ≤ s.now
  end_time : s.pc ≠ .begin → 0 < args.timeout → start / 1000 + args.timeout.toNat ≤ s.end_time
  reason : Reason args start s

/-- Nothing is killed before the end. -/
theorem reason_running {args : Arguments} {start : Nat} {s : State} (hover : s.pc.over = false) :
    Reason args start s ↔ s.kills = [] := by
  unfold Reason
  split
  · rename_i hpc
    rw [hpc] at hover
    cases hover
  · rename_i hpc
    rw [hpc] at hover
    cases hover
  · exact Iff.rfl

theorem Sound.kills {args : Arguments} {start : Nat} {s : State} (h : Sound args start s)
    (hover : s.pc.over = false) : s.kills = [] :=
  (reason_running hover).1 h.reason

theorem sound_step {args : Arguments} {start : Nat} {s s' : State} {l : Label}
    (h : Sound args start s) (hstep : Step args s l s') : Sound args start s' := by
  have hend : s.pc = .interrupted → 0 < args.timeout → s.end_time ≤ s.time →
      Expired args start s.now := by
    intro hpc ht hle
    exact ⟨ht, Nat.le_trans (h.end_time (by rw [hpc]; decide) ht) hle⟩
  cases step_moves hstep with
  | start hpc ht =>
    refine ⟨h.clock, fun _ _ => ?_, h.kills (by rw [hpc]; rfl)⟩
    exact Nat.add_le_add_right (Nat.div_le_div_right h.clock) _
  | forever hpc ht => exact ⟨h.clock, fun _ hpos => absurd hpos ht, h.kills (by rw [hpc]; rfl)⟩
  | arm n hpc =>
    exact ⟨h.clock, fun _ => h.end_time (by rw [hpc]; simp), h.kills (by rw [hpc]; rfl)⟩
  | call hpc =>
    exact ⟨h.clock, fun _ => h.end_time (by rw [hpc]; simp), h.kills (by rw [hpc]; rfl)⟩
  | kill hpc ht hle hterm =>
    exact ⟨h.clock, fun _ => h.end_time (by rw [hpc]; simp), hterm, hend hpc ht hle, rfl⟩
  | expire hpc ht hle hterm =>
    exact ⟨h.clock, fun _ => h.end_time (by rw [hpc]; simp), hterm, hend hpc ht hle,
      h.kills (by rw [hpc]; rfl)⟩
  | again hpc ht hlt =>
    exact ⟨h.clock, fun _ => h.end_time (by rw [hpc]; simp), h.kills (by rw [hpc]; rfl)⟩
  | retry hpc ht => exact ⟨h.clock, fun _ hpos => absurd hpos ht, h.kills (by rw [hpc]; rfl)⟩
  | tick n hpc hquiet =>
    have hover : s.pc.over = false := by rw [hpc]; rfl
    refine ⟨Nat.le_add_right_of_le h.clock, h.end_time, (reason_running ?_).2 ?_⟩
    · exact hover
    · exact h.kills hover
  | late n hpc hover hquiet =>
    refine ⟨Nat.le_add_right_of_le h.clock, h.end_time, (reason_running ?_).2 ?_⟩
    · exact hover
    · exact h.kills hover
  | wake hpc hdue =>
    exact ⟨h.clock, fun _ => h.end_time (by rw [hpc]; simp), h.kills (by rw [hpc]; rfl)⟩
  | alarm hw hc hdue => exact ⟨h.clock, h.end_time, h.reason⟩
  | missed hpc hdue => exact ⟨h.clock, h.end_time, h.reason⟩
  | signal hpc =>
    exact ⟨h.clock, fun _ => h.end_time (by rw [hpc]; simp), h.kills (by rw [hpc]; rfl)⟩
  | exit rc hpc hrc =>
    exact ⟨h.clock, fun _ => h.end_time (by rw [hpc]; simp), h.kills (by rw [hpc]; rfl)⟩
  | fail errno hpc hagain hintr =>
    exact ⟨h.clock, fun _ => h.end_time (by rw [hpc]; simp), h.kills (by rw [hpc]; rfl)⟩

/-- A status of the kernel has been answered by it. -/
def Answered (ls : List Label) : Pc → Prop
  | .ended (.stFINISHED rc) => .exit rc ∈ ls
  | .ended (.stERROR errno) => .fail errno ∈ ls ∧ errno ≠ EAGAIN ∧ errno ≠ EINTR
  | _ => True

theorem Answered.mono {ls ls' : List Label} {p : Pc} (h : Answered ls p) :
    Answered (ls ++ ls') p := by
  unfold Answered at h ⊢
  split at h
  · exact List.mem_append_left _ h
  · exact ⟨List.mem_append_left _ h.1, h.2⟩
  · trivial

/-! ## Where the alarm stands -/

/-- What the program has at most, with the time that has passed outside of the call. -/
def limit (args : Arguments) (start : Nat) (s : State) : Nat :=
  start + 1000 * args.timeout.toNat + 999 + s.delay

/-- An alarm is pending that neither comes too early nor too late. -/
def Pending (args : Arguments) (start : Nat) (s : State) : Prop :=
  ∃ dl, s.alarm = some dl ∧ s.now ≤ dl ∧ 1000 * s.end_time ≤ dl ∧ dl ≤ limit args start s

/-- As long as no alarm has been missed. -/
structure Timed (args : Arguments) (start : Nat) (s : State) : Prop where
  begun : s.pc = .begin → s.now = start + s.delay ∧ s.alarm = none
  end_time : s.pc ≠ .begin → 1000 * s.end_time ≤ start + 1000 * args.timeout.toNat + s.delay
  arming : ∀ n, s.pc = .arming n →
    0 < n ∧ 1000 * s.end_time ≤ s.now + 1000 * n ∧ s.now + 1000 * n ≤ limit args start s
  pending : s.pc = .calling ∨ s.pc = .waiting → Pending args start s
  interrupted : s.pc = .interrupted →
    Pending args start s ∨ 1000 * s.end_time ≤ s.now ∧ s.now ≤ limit args start s

theorem quiet_iff {s : State} {t : Nat} : s.quiet t = true ↔ ∀ dl, s.alarm = some dl → t ≤ dl := by
  unfold State.quiet
  cases s.alarm with
  | none => simp
  | some dl => simp

theorem due_iff {s : State} : s.due = true ↔ ∃ dl, s.alarm = some dl ∧ dl ≤ s.now := by
  unfold State.due
  cases s.alarm with
  | none => simp
  | some dl => simp

/-- The alarm that is pending expires when the time is over. -/
theorem Pending.expires {args : Arguments} {start : Nat} {s : State} (h : Pending args start s)
    (hdue : s.due) : 1000 * s.end_time ≤ s.now ∧ s.now ≤ limit args start s := by
  obtain ⟨dl, hdl, hnow, hend, hlimit⟩ := h
  obtain ⟨dl', hdl', hle⟩ := due_iff.1 hdue
  rw [hdl] at hdl'
  obtain rfl := Option.some.inj hdl'
  exact ⟨Nat.le_trans hend hle, Nat.le_trans hnow hlimit⟩

theorem Timed.finish {args : Arguments} {start : Nat} {s : State} (h : Timed args start s)
    (hpc : s.pc ≠ .begin) (kills : List (Nat × Nat)) (status : StatusType) :
    Timed args start ({ s with kills := kills }.finish status) where
  begun hb := by cases hb
  end_time _ := h.end_time hpc
  arming n hn := by cases hn
  pending hp := by obtain hp | hp := hp <;> cases hp
  interrupted hi := by cases hi

theorem timed_step {args : Arguments} {start : Nat} {s s' : State} {l : Label}
    (ht : 0 < args.timeout) (h : Timed args start s) (hl : l ≠ .missed) (hstep : Step args s l s') :
    Timed args start s' := by
  cases step_moves hstep with
  | start hpc _ =>
    obtain ⟨hnow, -⟩ := h.begun hpc
    refine ⟨by simp, fun _ => ?_, ?_, by simp, by simp⟩
    · dsimp only [State.time]
      omega
    · intro n hn
      obtain rfl := Pc.arming.inj hn
      dsimp only [State.time, limit]
      omega
  | forever hpc hnot => exact absurd ht hnot
  | arm n hpc =>
    obtain ⟨hpos, hlow, hhigh⟩ := h.arming n hpc
    refine ⟨by simp, fun _ => h.end_time (by rw [hpc]; simp), by simp, fun _ => ?_, by simp⟩
    refine ⟨s.now + 1000 * n, if_neg (Nat.ne_of_gt hpos), Nat.le_add_right _ _, hlow, hhigh⟩
  | call hpc =>
    exact ⟨by simp, fun _ => h.end_time (by rw [hpc]; simp), by simp,
      fun _ => h.pending (Or.inl hpc), by simp⟩
  | kill hpc _ hle hterm => exact h.finish (by rw [hpc]; decide) _ _
  | expire hpc _ hle hterm => exact h.finish (by rw [hpc]; decide) _ _
  | again hpc _ hlt =>
    have hend := h.end_time (by rw [hpc]; simp)
    refine ⟨by simp, fun _ => hend, ?_, by simp, by simp⟩
    intro n hn
    obtain rfl := Pc.arming.inj hn
    dsimp only [State.time, limit] at hlt ⊢
    omega
  | retry hpc hnot => exact absurd ht hnot
  | tick n hpc hquiet =>
    have hend := h.end_time (by rw [hpc]; simp)
    refine ⟨by simp [hpc], fun _ => hend, by simp [hpc], fun _ => ?_, by simp [hpc]⟩
    obtain ⟨dl, hdl, hnow, hlow, hhigh⟩ := h.pending (Or.inr hpc)
    exact ⟨dl, hdl, quiet_iff.1 hquiet dl hdl, hlow, hhigh⟩
  | late n hpc hover hquiet =>
    have hpending : Pending args start s →
        Pending args start { s with now := s.now + n, delay := s.delay + n } := by
      rintro ⟨dl, hdl, hnow, hlow, hhigh⟩
      refine ⟨dl, hdl, quiet_iff.1 hquiet dl hdl, hlow, Nat.le_trans hhigh ?_⟩
      exact Nat.add_le_add_left (Nat.le_add_right _ _) _
    refine ⟨fun hb => ?_, fun hb => ?_, fun m hm => ?_, fun hc => hpending (h.pending hc),
      fun hi => ?_⟩
    · obtain ⟨hnow, hnone⟩ := h.begun hb
      exact ⟨by dsimp only; omega, hnone⟩
    · have hend := h.end_time hb
      dsimp only
      omega
    · obtain ⟨hpos, hlow, hhigh⟩ := h.arming m hm
      dsimp only [limit] at hhigh ⊢
      omega
    · obtain hp | ⟨hlow, hhigh⟩ := h.interrupted hi
      · exact Or.inl (hpending hp)
      · refine Or.inr ?_
        dsimp only [limit] at hhigh ⊢
        omega
  | wake hpc hdue =>
    have hend := h.end_time (by rw [hpc]; simp)
    exact ⟨by simp, fun _ => hend, by simp, by simp,
      fun _ => Or.inr ((h.pending (Or.inr hpc)).expires hdue)⟩
  | alarm hw hc hdue =>
    refine ⟨fun hb => ⟨(h.begun hb).1, rfl⟩, h.end_time, h.arming, ?_, fun hi => ?_⟩
    · rintro (hp | hp)
      · exact absurd hp hc
      · exact absurd hp hw
    · obtain hp | hp := h.interrupted hi
      · exact Or.inr (hp.expires hdue)
      · exact Or.inr hp
  | missed hpc hdue => exact absurd rfl hl
  | signal hpc =>
    have hend := h.end_time (by rw [hpc]; simp)
    exact ⟨by simp, fun _ => hend, by simp, by simp, fun _ => Or.inl (h.pending (Or.inr hpc))⟩
  | exit rc hpc hrc => exact h.finish (by rw [hpc]; decide) _ _
  | fail errno hpc hagain hintr => exact h.finish (by rw [hpc]; decide) _ _

/-- Nothing lasts longer than the limit. -/
theorem Timed.limited {args : Arguments} {start : Nat} {s : State} (h : Timed args start s)
    (hover : s.pc.over = false) : s.now ≤ limit args start s := by
  have hpending : Pending args start s → s.now ≤ limit args start s := by
    rintro ⟨dl, -, hnow, -, hlimit⟩
    exact Nat.le_trans hnow hlimit
  cases hpc : s.pc with
  | begin =>
    obtain ⟨hnow, -⟩ := h.begun hpc
    unfold limit
    omega
  | arming n => exact Nat.le_trans (Nat.le_add_right _ _) (h.arming n hpc).2.2
  | calling => exact hpending (h.pending (Or.inl hpc))
  | waiting => exact hpending (h.pending (Or.inr hpc))
  | interrupted =>
    obtain hp | hp := h.interrupted hpc
    · exact hpending hp
    · exact hp.2
  | ended status =>
    rw [hpc] at hover
    cases hover

/-! ## Whole runs -/

theorem answered_step {args : Arguments} {s s' : State} {ls : List Label} {l : Label}
    (h : Answered ls s.pc) (hstep : Step args s l s') : Answered (ls ++ [l]) s'.pc := by
  cases step_moves hstep with
  | exit rc hpc hrc => exact List.mem_append_right _ (List.mem_singleton_self _)
  | fail errno hpc hagain hintr =>
    exact ⟨List.mem_append_right _ (List.mem_singleton_self _), hagain, hintr⟩
  | kill => trivial
  | expire => trivial
  | tick => exact h.mono
  | late => exact h.mono
  | alarm => exact h.mono
  | missed => exact h.mono
  | _ => trivial

theorem run_answered {args : Arguments} {start : Nat} {s : State} {ls : List Label}
    (hrun : Run (Step args) (State.init start) ls s) : Answered ls s.pc := by
  induction hrun with
  | nil => trivial
  | snoc _ hstep ih => exact answered_step ih hstep

theorem sound_init (args : Arguments) (start : Nat) : Sound args start (State.init start) :=
  ⟨Nat.le_refl _, fun h => absurd rfl h, rfl⟩

theorem timed_init (args : Arguments) (start : Nat) : Timed args start (State.init start) :=
  ⟨fun _ => ⟨rfl, rfl⟩, fun h => absurd rfl h, by simp [State.init], by simp [State.init],
    by simp [State.init]⟩

/-- The warning for a status. -/
def StatusType.warning : StatusType → Option Warning
  | .stERROR _ => some .error
  | .stFINISHED _ => none
  | .stKILLED => some .killed
  | .stTIMEOUT => some .timeout

theorem takeWhile_writeStatus {str : Text} (hstr : str.all inWord) (rc : Option Int) :
    (writeStatus str rc).takeWhile inWord = str := by
  have hall : ∀ c ∈ str, inWord c = true := List.all_eq_true.1 hstr
  unfold writeStatus
  rw [List.append_assoc, List.takeWhile_append_of_pos hall]
  cases rc with
  | none => simp [inWord]
  | some n => simp [inWord]

theorem waitForVWait_report (status : StatusType) :
    waitForVWait (report status).1 = status.warning := by
  unfold waitForVWait
  cases status with
  | stERROR errno =>
    dsimp only [report]
    rw [takeWhile_writeStatus (by decide)]
    rfl
  | stFINISHED rc =>
    dsimp only [report]
    rw [takeWhile_writeStatus (by decide)]
    rfl
  | stKILLED =>
    dsimp only [report]
    rw [takeWhile_writeStatus (by decide)]
    rfl
  | stTIMEOUT =>
    dsimp only [report]
    rw [takeWhile_writeStatus (by decide)]
    rfl

theorem run_sound {args : Arguments} {start : Nat} {s : State} {ls : List Label}
    (hrun : Run (Step args) (State.init start) ls s) : Sound args start s :=
  hrun.invariant (fun _ _ _ h hstep => sound_step h hstep) (sound_init args start)

theorem run_timed {args : Arguments} {start : Nat} {s : State} {ls : List Label}
    (hrun : Run (Step args) (State.init start) ls s) (ht : 0 < args.timeout)
    (hls : ∀ l ∈ ls, l ≠ .missed) : Timed args start s :=
  hrun.invariant_of (P := fun l => l ≠ .missed)
    (fun _ _ _ h hl hstep => timed_step ht h hl hstep) hls (timed_init args start)

/-- Somebody kills the guest: `vwait`, or the script behind it. -/
def Killed (s : State) (status : StatusType) : Prop :=
  s.kills ≠ [] ∨ initWait (report status).2 = true

/-- **The runs of `vwait`**, whatever interrupts it: it ends with what the kernel has answered, or
because of the timeout, and then not before that has passed; the guest is killed exactly when the
stop of the vserver gives a warning.  If no alarm is missed, the program ends within a second
behind the timeout, apart from the time that it spends outside of the call. -/
theorem run_right {args : Arguments} {start : Nat} {s : State} {ls : List Label}
    (hrun : Run (Step args) (State.init start) ls s) :
    Reason args start s ∧ Answered ls s.pc ∧
    (∀ status, s.pc = .ended status →
      (Killed s status ↔ waitForVWait (report status).1 ≠ none)) ∧
    ((∀ l ∈ ls, l ≠ .missed) → 0 < args.timeout → s.pc.over = false →
      s.now ≤ start + 1000 * args.timeout.toNat + 999 + s.delay) := by
  have hsound := run_sound hrun
  refine ⟨hsound.reason, run_answered hrun, fun status hpc => ?_, fun hls ht hover => ?_⟩
  · have hreason := hsound.reason
    rw [waitForVWait_report]
    unfold Reason at hreason
    rw [hpc] at hreason
    unfold Killed
    cases status with
    | stERROR errno => exact iff_of_true (Or.inr rfl) (Option.some_ne_none _)
    | stFINISHED rc =>
      refine iff_of_false ?_ (fun hne => hne rfl)
      rintro (hkills | hinit)
      · exact hkills hreason
      · cases hinit
    | stKILLED =>
      refine iff_of_true (Or.inl ?_) (Option.some_ne_none _)
      rw [hreason.2.2]
      exact List.cons_ne_nil _ _
    | stTIMEOUT => exact iff_of_true (Or.inr rfl) (Option.some_ne_none _)
  · exact (run_timed hrun ht hls).limited hover

/-- A signal in the call, and then the alarm. -/
theorem run_right_timeout : ∃ ls s, Run (Step ⟨1, false⟩) (State.init 500) ls s ∧
    s.pc = .ended .stTIMEOUT ∧ Expired ⟨1, false⟩ 500 s.now ∧ Killed s .stTIMEOUT := by
  have hcomputed : runLabels (next ⟨1, false⟩) [.run, .run, .run, .tick 300, .signal, .run, .run,
      .run, .tick 1000, .alarm, .run] (State.init 500) =
        some ⟨.ended .stTIMEOUT, 1800, 1, none, [], 0⟩ := by decide
  have hrun := run_of_runLabels hcomputed
  obtain ⟨hreason, -, hkilled, -⟩ := run_right hrun
  exact ⟨_, _, hrun, rfl, hreason.2.1, (hkilled _ rfl).2 (by decide)⟩

/-- Without its alarm, the program may wait for any time. -/
theorem missed_waits {args : Arguments} (ht : 0 < args.timeout) (start t : Nat) :
    ∃ ls s, Run (Step args) (State.init start) ls s ∧ s.pc = .waiting ∧ s.alarm = none ∧
      start + t ≤ s.now := by
  have hne : args.timeout.toNat ≠ 0 := by omega
  have hcomputed : runLabels (next args) [.run, .run, .late (1000 * args.timeout.toNat), .missed,
      .run, .tick t] (State.init start) =
        some ⟨.waiting, start + 1000 * args.timeout.toNat + t, start / 1000 + args.timeout.toNat,
          none, [], 1000 * args.timeout.toNat⟩ := by
    simp [runLabels, next, operation, State.init, State.time, State.quiet, State.due, Pc.over, ht,
      hne]
  exact ⟨_, _, run_of_runLabels hcomputed, rfl, rfl, by dsimp only; omega⟩

end Vwait
