import Mathlib.Algebra.Group.Int.Defs
import Mathlib.Algebra.Group.Nat.Defs
import Mathlib.Data.Option.Basic
import Mathlib.Logic.Function.Basic

/-!
# `lockfile` (`lib_internal/util-lockfile.c`)

A file is opened and locked; with a timeout an alarm interrupts the waiting.

* `Proc` — what is left in the process between calls: the disposition of `SIGALRM`, the static flag,
  the pending alarm and the open descriptors.
* `Call` — the arguments of a call and everything that happens to it.
* `lockfile` — the source.
* `Clean`, `Disarmed` — what a call has to leave behind, and when it does.

Principal result: `lockfile_clean`.
-/

set_option autoImplicit false

namespace Lockfile

inductive Handler where
  | SIG_DFL
  | SIG_IGN
  | alarmFunc
  | other (n : Nat)
  deriving DecidableEq

/-- What is left in the process between calls.  The pending alarm, and those that have expired, are
named by the number of the call that has set them. -/
structure Proc where
  handler : Handler
  alarm_flag : Bool
  pending : Option Nat
  expired : List Nat
  isOpen : Nat → Bool

inductive Lockf where
  | success
  | eintr
  | error
  deriving DecidableEq

/-- A call: its timeout, the results of the system calls, and before which of them the pending alarm
expires.  In `attempts` this is said for each call of `lockf`. -/
structure Call where
  timeout : Int
  open_ : Option Nat
  siginterrupt : Bool
  signal : Bool
  fcntl : Bool
  attempts : List (Lockf × Bool)
  gapStart : Bool
  gapSetup : Bool
  gapAlarm : Bool
  gapRestore : Bool
  gapFcntl : Bool
  gapEnd : Bool

/-- What is returned: the result, `err->pos`, and, for an interrupted `lockf`, whether the alarm of
the call had expired by then. -/
structure Return where
  result : Bool
  pos : Option String
  interrupted : Bool
  ownExpired : Bool
  proc : Proc

/-- The pending alarm expires here, if there is one; none when this ends the process. -/
def tick (b : Bool) (p : Proc) : Option Proc :=
  if b = false then some p
  else
    match p.pending with
    | none => some p
    | some owner =>
      let p' := { p with pending := none, expired := owner :: p.expired }
      match p.handler with
      | .SIG_DFL => none
      -- `alarmFunc` sets the flag, and itself once more
      | .alarmFunc => some { p' with alarm_flag := true }
      | _ => some p'

/-- `signal(SIGALRM, handler)`, which fails for `SIG_ERR`. -/
def setSignal (handler : Option Handler) (p : Proc) : Proc :=
  match handler with
  | none => p
  | some h => { p with handler := h }

/-- `if (timeout!=-1 && old_sighandler!=0) signal(SIGALRM, old_sighandler);` where none stands for
`SIG_ERR`.  `SIG_DFL` is 0. -/
def restore (c : Call) (old : Option Handler) (p : Proc) : Proc :=
  if c.timeout ≠ -1 ∧ old ≠ some .SIG_DFL then setSignal old p else p

/-- `if (*fd!=-1) close(*fd);` -/
def close (fd : Option Nat) (p : Proc) : Proc :=
  match fd with
  | none => p
  | some fd => { p with isOpen := Function.update p.isOpen fd false }

/-- Behind the label `err`. -/
def errPath (c : Call) (old : Option Handler) (fd : Option Nat) (pos : String)
    (interrupted ownExpired : Bool) (p : Proc) : Option Return :=
  (tick c.gapFcntl p).bind fun p =>
    (tick c.gapEnd (restore c old p)).bind fun p =>
      some ⟨false, some pos, interrupted, ownExpired, close fd p⟩

inductive LoopEnd where
  | locked
  | failed (interrupted : Bool)

/-- `while (lockf(*fd, op, 0)==-1) …`; none when the attempts are not those that are made. -/
def lockLoop (p : Proc) : List (Lockf × Bool) → Option (Proc × LoopEnd)
  | [] => none
  | (res, b) :: rest =>
    (tick b p).bind fun p =>
      match res with
      | .success => if rest = [] then some (p, .locked) else none
      | .error => if rest = [] then some (p, .failed false) else none
      | .eintr =>
        if p.alarm_flag = true then if rest = [] then some (p, .failed true) else none
        else lockLoop p rest

/-- From the loop on. -/
def locking (id : Nat) (c : Call) (old : Option Handler) (fd : Option Nat) (p : Proc) :
    Option Return :=
  (lockLoop p c.attempts).bind fun r =>
    (tick c.gapRestore r.1).bind fun p =>
      match r.2 with
      | .failed interrupted =>
        errPath c old fd "lockf()" interrupted (decide (id ∈ r.1.expired)) p
      | .locked =>
        let p := restore c old p
        if c.fcntl = true then
          (tick c.gapFcntl p).bind fun p =>
            (tick c.gapEnd p).bind fun p => some ⟨true, none, false, false, p⟩
        else errPath c old fd "fcntl()" false false p

/-- `lockfile`, as the call with the number `id`; none when it does not return.  An open file gets a
descriptor that is not in use. -/
def lockfile (id : Nat) (p : Proc) (c : Call) : Option Return :=
  (tick c.gapStart p).bind fun p =>
    match c.open_ with
    | none => errPath c (some .SIG_DFL) none "open()" false false p
    | some fd =>
      if p.isOpen fd = true then none
      else
        (tick c.gapSetup { p with isOpen := Function.update p.isOpen fd true }).bind fun p =>
          if c.timeout = -1 then locking id c (some .SIG_DFL) (some fd) p
          else if c.siginterrupt = false then
            errPath c (some .SIG_DFL) (some fd) "siginterrupt()" false false p
          else if c.signal = false then errPath c none (some fd) "signal()" false false p
          else
            -- `alarm` takes an unsigned number; 0 only cancels
            let pending := if c.timeout % 2 ^ 32 = 0 then none else some id
            (tick c.gapAlarm { p with handler := .alarmFunc, pending := pending }).bind fun q =>
              locking id c (some p.handler) (some fd) q

/-- **What a call has to leave behind**: no alarm of its own, the disposition from before, no
descriptor when it has failed; and an interrupted `lockf` ends it only when its own alarm has
expired. -/
structure Clean (id : Nat) (p : Proc) (c : Call) (r : Return) : Prop where
  pending : r.proc.pending ≠ some id
  handler : r.proc.handler = p.handler
  closed : r.result = false → ∀ fd, c.open_ = some fd → r.proc.isOpen fd = false
  own : r.interrupted = true → r.ownExpired = true

/-- The call sets up the handler and the alarm. -/
def Armed (c : Call) : Prop :=
  c.timeout ≠ -1 ∧ c.open_.isSome = true ∧ c.siginterrupt = true ∧ c.signal = true

/-- The call sets an alarm. -/
def Timed (c : Call) : Prop := Armed c ∧ c.timeout % 2 ^ 32 ≠ 0

/-- The alarm of the call expires before the call returns. -/
def Expires (c : Call) : Bool :=
  c.gapAlarm || c.attempts.any (·.2) || c.gapRestore || c.gapFcntl || c.gapEnd

/-- **When a call leaves nothing behind**: the disposition is not the default one when the handler
is set up, an alarm expires before the call returns, and where an alarm has expired before, no
`lockf` is interrupted without an expired alarm of the call. -/
structure Disarmed (p : Proc) (c : Call) : Prop where
  handler : Armed c → p.handler ≠ .SIG_DFL
  expires : Timed c → Expires c = true
  flag : p.alarm_flag = true → c.open_.isSome = true → c.timeout = -1 ∨ Armed c →
    ∀ b, c.attempts = [(.eintr, b)] → Timed c ∧ (c.gapAlarm || b) = true

/-! ## The alarm -/

/-- The only alarm that can be pending is that of the call; `fired` says whether it has expired. -/
structure Watch (id : Nat) (timed fired : Bool) (p : Proc) : Prop where
  pending : p.pending = if timed && !fired then some id else none
  mem : id ∈ p.expired ↔ (timed && fired) = true
  others : ∀ o ∈ p.expired, o ≤ id

/-- **A place where the alarm may expire.** -/
theorem Watch.tick {id : Nat} {timed fired : Bool} {p : Proc} (h : Watch id timed fired p)
    (hdfl : timed = true → p.handler ≠ .SIG_DFL) (b : Bool) :
    ∃ p', tick b p = some p' ∧ Watch id timed (fired || b) p' ∧ p'.handler = p.handler ∧
      p'.isOpen = p.isOpen ∧ ((timed = true → p.handler = .alarmFunc) →
        p'.alarm_flag = (p.alarm_flag || (timed && !fired && b))) := by
  obtain ⟨hpending, hmem, hothers⟩ := h
  unfold Lockfile.tick
  cases b with
  | false =>
    rw [if_pos rfl, Bool.or_false]
    exact ⟨p, rfl, ⟨hpending, hmem, hothers⟩, rfl, rfl, fun _ => by simp⟩
  | true =>
    rw [if_neg (by decide), hpending, Bool.or_true]
    by_cases hlive : (timed && !fired) = true
    · obtain ⟨ht, hf⟩ := (Bool.and_eq_true ..).mp hlive
      rw [Bool.not_eq_true'] at hf
      subst ht hf
      have hw : ∀ q : Proc, q.pending = none → q.expired = id :: p.expired →
          Watch id true true q := by
        intro q hq hexp
        refine ⟨hq, ?_, ?_⟩
        · rw [hexp]
          simp
        · rw [hexp]
          rintro o ho
          rcases List.mem_cons.1 ho with rfl | ho
          · exact Nat.le_refl _
          · exact hothers o ho
      rw [if_pos hlive]
      cases hh : p.handler with
      | SIG_DFL => exact absurd hh (hdfl rfl)
      | alarmFunc => exact ⟨_, rfl, hw _ rfl rfl, rfl, rfl, fun _ => by simp⟩
      | SIG_IGN => exact ⟨_, rfl, hw _ rfl rfl, rfl, rfl, fun h => by simp at h⟩
      | other n => exact ⟨_, rfl, hw _ rfl rfl, rfl, rfl, fun h => by simp at h⟩
    · rw [Bool.not_eq_true] at hlive
      rw [hlive] at hpending ⊢
      refine ⟨p, rfl, ⟨?_, ?_, hothers⟩, rfl, rfl, fun _ => by simp⟩
      · rw [hpending]
        simp
      · rw [hmem]
        cases timed with
        | false => simp
        | true =>
          simp only [Bool.true_and, Bool.not_eq_false'] at hlive
          rw [hlive]

/-- **The loop**: an interrupted `lockf` ends it without an expired alarm of the call exactly when
the flag has been set before and the first `lockf` is interrupted. -/
theorem lockLoop_spec {id : Nat} {timed f : Bool} : ∀ {attempts : List (Lockf × Bool)}
    {fired : Bool} {p p' : Proc} {e : LoopEnd}, Watch id timed fired p →
    (timed = true → p.handler = .alarmFunc) → p.alarm_flag = (f || (timed && fired)) →
    lockLoop p attempts = some (p', e) →
    Watch id timed (fired || attempts.any (·.2)) p' ∧ p'.handler = p.handler ∧
      p'.isOpen = p.isOpen ∧
      ((e = .failed true ∧ id ∉ p'.expired) ↔
        f = true ∧ ∃ b, attempts = [(.eintr, b)] ∧ (timed && (fired || b)) = false)
  | [], _, _, _, _, _, _, _, h => by cases h
  | (res, b) :: rest, fired, p, p', e, hw, halarm, hflag, h => by
    obtain ⟨q, htick, hwq, hhandler, hopen, hq⟩ :=
      hw.tick (fun ht => by rw [halarm ht]; simp) b
    have hqflag : q.alarm_flag = (f || (timed && (fired || b))) := by
      rw [hq halarm, hflag]
      cases f <;> cases timed <;> cases fired <;> cases b <;> rfl
    rw [lockLoop, htick, Option.bind_some] at h
    have hone : ∀ r : Lockf, r ≠ .eintr → ∀ rest', (¬ ∃ b', (r, b) :: rest' = [(.eintr, b')]) := by
      rintro r hr rest' ⟨b', hb'⟩
      simp only [List.cons.injEq, Prod.mk.injEq] at hb'
      exact hr hb'.1.1
    rw [List.any_cons, ← Bool.or_assoc]
    cases res with
    | success | error =>
      obtain ⟨hrest, heq⟩ := (Option.ite_none_right_eq_some ..).1 h
      simp only [Option.some.injEq, Prod.mk.injEq] at heq
      obtain ⟨rfl, rfl⟩ := heq
      subst hrest
      refine ⟨by simpa using hwq, hhandler, hopen, iff_of_false (by simp) ?_⟩
      rintro ⟨-, b', hb', -⟩
      simp at hb'
    | eintr =>
      by_cases hset : q.alarm_flag = true
      · rw [if_pos hset] at h
        obtain ⟨hrest, heq⟩ := (Option.ite_none_right_eq_some ..).1 h
        simp only [Option.some.injEq, Prod.mk.injEq] at heq
        obtain ⟨rfl, rfl⟩ := heq
        subst hrest
        refine ⟨by simpa using hwq, hhandler, hopen, ?_⟩
        rw [hqflag] at hset
        rw [hwq.mem]
        simp only [true_and, Bool.not_eq_true, List.cons.injEq, Prod.mk.injEq, and_true,
          exists_eq_left']
        constructor
        · intro hnot
          rw [hnot, Bool.or_false] at hset
          exact ⟨hset, hnot⟩
        · exact fun hnot => hnot.2
      · rw [if_neg hset] at h
        rw [Bool.not_eq_true, hqflag, Bool.or_eq_false_iff] at hset
        obtain ⟨hw', hh', ho', hiff⟩ :=
          lockLoop_spec hwq (fun ht => by rw [hhandler]; exact halarm ht) hqflag h
        refine ⟨hw', hh'.trans hhandler, ho'.trans hopen, ?_⟩
        rw [hiff]
        refine iff_of_false ?_ ?_
        · rw [hset.1]
          simp
        · rw [hset.1]
          simp

/-! ## The way out -/

/-- The disposition behind `restore`. -/
def restored (c : Call) (old : Option Handler) (h : Handler) : Handler :=
  if c.timeout ≠ -1 ∧ old ≠ some .SIG_DFL then old.getD h else h

theorem restore_eq (c : Call) (old : Option Handler) (p : Proc) :
    restore c old p = { p with handler := restored c old p.handler } := by
  unfold restore restored setSignal
  split
  · cases old <;> rfl
  · rfl

theorem restored_idem (c : Call) (old : Option Handler) (h : Handler) :
    restored c old (restored c old h) = restored c old h := by
  unfold restored
  split
  · cases old <;> rfl
  · rfl

theorem Watch.setHandler {id : Nat} {timed fired : Bool} {p : Proc} (h : Watch id timed fired p)
    (hd : Handler) : Watch id timed fired { p with handler := hd } := ⟨h.pending, h.mem, h.others⟩

theorem Watch.close {id : Nat} {timed fired : Bool} {p : Proc} (h : Watch id timed fired p)
    (fd : Option Nat) : Watch id timed fired (close fd p) := by
  cases fd with
  | none => exact h
  | some fd => exact ⟨h.pending, h.mem, h.others⟩

theorem errPath_spec {id : Nat} {timed fired : Bool} {c : Call} {old : Option Handler}
    {fd : Option Nat} {pos : String} {i o : Bool} {p : Proc} {r : Return}
    (hw : Watch id timed fired p) (hdfl : timed = true → p.handler ≠ .SIG_DFL)
    (hold : timed = true → restored c old p.handler ≠ .SIG_DFL)
    (h : errPath c old fd pos i o p = some r) :
    Watch id timed (fired || c.gapFcntl || c.gapEnd) r.proc ∧
      r.proc.handler = restored c old p.handler ∧ r.interrupted = i ∧ r.ownExpired = o ∧
      ∀ n, fd = some n → r.proc.isOpen n = false := by
  unfold errPath at h
  obtain ⟨q, htick, hwq, hhandler, -, -⟩ := hw.tick hdfl c.gapFcntl
  rw [htick, Option.bind_some, restore_eq, hhandler] at h
  obtain ⟨q', htick', hwq', hhandler', -, -⟩ :=
    (hwq.setHandler (restored c old p.handler)).tick hold c.gapEnd
  rw [htick', Option.bind_some, Option.some.injEq] at h
  subst h
  refine ⟨hwq'.close fd, ?_, rfl, rfl, ?_⟩
  · cases fd <;> exact hhandler'
  · rintro n rfl
    exact Function.update_self ..

/-- **From the loop on.** -/
theorem locking_spec {id n : Nat} {timed fired f : Bool} {c : Call} {old : Option Handler}
    {p : Proc} {r : Return} (hw : Watch id timed fired p)
    (halarm : timed = true → p.handler = .alarmFunc) (hflag : p.alarm_flag = (f || (timed && fired)))
    (hold : timed = true → restored c old p.handler ≠ .SIG_DFL)
    (h : locking id c old (some n) p = some r) :
    Watch id timed
        (fired || c.attempts.any (·.2) || c.gapRestore || c.gapFcntl || c.gapEnd) r.proc ∧
      r.proc.handler = restored c old p.handler ∧ (r.result = false → r.proc.isOpen n = false) ∧
      ((r.interrupted = true ∧ r.ownExpired = false) ↔
        f = true ∧ ∃ b, c.attempts = [(.eintr, b)] ∧ (timed && (fired || b)) = false) := by
  unfold locking at h
  obtain ⟨⟨q, e⟩, hloop, h⟩ := Option.bind_eq_some_iff.1 h
  obtain ⟨hwq, hhandler, hopen, hiff⟩ := lockLoop_spec hw halarm hflag hloop
  have hdfl : timed = true → q.handler ≠ .SIG_DFL := by
    intro ht
    rw [hhandler, halarm ht]
    simp
  obtain ⟨q', htick, hwq', hhandler', -, -⟩ := hwq.tick hdfl c.gapRestore
  rw [htick, Option.bind_some] at h
  have hsame : q'.handler = p.handler := hhandler'.trans hhandler
  cases e with
  | failed interrupted =>
    obtain ⟨hwr, hhr, hi, ho, hclosed⟩ := errPath_spec hwq'
      (fun ht => by rw [hhandler']; exact hdfl ht) (fun ht => by rw [hsame]; exact hold ht) h
    refine ⟨hwr, by rw [hhr, hsame], fun _ => hclosed n rfl, ?_⟩
    rw [hi, ho, ← hiff]
    simp
  | locked =>
    simp only at h
    rw [restore_eq, hsame] at h
    have hnot : ¬ (f = true ∧ ∃ b, c.attempts = [(.eintr, b)] ∧
        (timed && (fired || b)) = false) := by
      rw [← hiff]
      simp
    by_cases hfcntl : c.fcntl = true
    · rw [if_pos hfcntl] at h
      obtain ⟨q₂, htick₂, hwq₂, hhandler₂, -, -⟩ :=
        (hwq'.setHandler (restored c old p.handler)).tick hold c.gapFcntl
      rw [htick₂, Option.bind_some] at h
      obtain ⟨q₃, htick₃, hwq₃, hhandler₃, -, -⟩ :=
        hwq₂.tick (fun ht => by rw [hhandler₂]; exact hold ht) c.gapEnd
      rw [htick₃, Option.bind_some, Option.some.injEq] at h
      subst h
      refine ⟨hwq₃, hhandler₃.trans hhandler₂, ?_, iff_of_false (by simp) hnot⟩
      intro hfalse
      cases hfalse
    · rw [if_neg hfcntl] at h
      obtain ⟨hwr, hhr, hi, ho, hclosed⟩ :=
        errPath_spec (hwq'.setHandler (restored c old p.handler)) hold
          (fun ht => by rw [restored_idem]; exact hold ht) h
      refine ⟨hwr, by rw [hhr, restored_idem], fun _ => hclosed n rfl, ?_⟩
      rw [hi]
      exact iff_of_false (by simp) hnot

/-! ## Calls -/

/-- Between calls no alarm is pending. -/
structure Between (id : Nat) (p : Proc) : Prop where
  pending : p.pending = none
  others : ∀ o ∈ p.expired, o < id

theorem tick_of_pending {p : Proc} (h : p.pending = none) (b : Bool) : tick b p = some p := by
  unfold tick
  rw [h]
  split <;> rfl

theorem Between.watch {id : Nat} {p : Proc} (h : Between id p) (fired : Bool) :
    Watch id false fired p := by
  refine ⟨h.pending, ?_, fun o ho => Nat.le_of_lt (h.others o ho)⟩
  simp only [Bool.false_and, Bool.false_eq_true, iff_false]
  intro hmem
  exact absurd (h.others id hmem) (Nat.lt_irrefl _)

section

variable {id : Nat} {p : Proc} {c : Call} {r : Return}

/-- Behind a clean call no alarm is pending. -/
theorem between_of_clean {timed fired : Bool} (hw : Watch id timed fired r.proc)
    (hclean : Clean id p c r) : Between (id + 1) r.proc := by
  refine ⟨?_, fun o ho => Nat.lt_succ_of_le (hw.others o ho)⟩
  have hp := hw.pending
  split at hp
  · exact absurd hp hclean.pending
  · exact hp

/-- What is left behind by a call that sets no handler and no alarm. -/
structure Unarmed (id : Nat) (p : Proc) (c : Call) (r : Return) : Prop where
  watch : ∃ fired, Watch id false fired r.proc
  handler : r.proc.handler = p.handler
  closed : r.result = false → ∀ fd, c.open_ = some fd → r.proc.isOpen fd = false
  own : (r.interrupted = true ∧ r.ownExpired = false) ↔ c.open_.isSome = true ∧ c.timeout = -1 ∧
    p.alarm_flag = true ∧ ∃ b, c.attempts = [(.eintr, b)]

/-- The call ends in front of the loop. -/
theorem unarmed_of_errPath {fd : Option Nat} {pos : String} {q : Proc} (hw : Watch id false false q)
    (hhandler : q.handler = p.handler) (hfd : c.open_ = fd) (htimeout : fd.isSome → c.timeout ≠ -1)
    {old : Option Handler} (hold : old = some .SIG_DFL ∨ old = none)
    (h : errPath c old fd pos false false q = some r) : Unarmed id p c r := by
  obtain ⟨hwr, hhr, hi, -, hclosed⟩ := errPath_spec hw (by simp) (by simp) h
  refine ⟨⟨_, hwr⟩, ?_, fun _ n hn => hclosed n (hfd ▸ hn), ?_⟩
  · rw [hhr, ← hhandler]
    rcases hold with rfl | rfl <;> simp [restored]
  · rw [hi, hfd]
    refine iff_of_false (by simp) ?_
    rintro ⟨hopen, hminus, -⟩
    exact htimeout hopen hminus

/-- **A call that does not get to set the alarm.** -/
theorem lockfile_unarmed (hb : Between id p) (harmed : ¬ Armed c) (h : lockfile id p c = some r) :
    Unarmed id p c r := by
  unfold lockfile at h
  rw [tick_of_pending hb.pending, Option.bind_some] at h
  cases hopen : c.open_ with
  | none =>
    rw [hopen] at h
    exact unarmed_of_errPath (hb.watch false) rfl hopen (by simp) (Or.inl rfl) h
  | some fd =>
    rw [hopen] at h
    obtain ⟨-, h⟩ := (Option.ite_none_left_eq_some ..).1 h
    have hb' : Between id { p with isOpen := Function.update p.isOpen fd true } :=
      ⟨hb.pending, hb.others⟩
    rw [tick_of_pending hb'.pending, Option.bind_some] at h
    split at h
    · -- without a timeout the lock is waited for
      rename_i htimeout
      obtain ⟨hw, hhandler, hclosed, hiff⟩ := locking_spec (f := p.alarm_flag)
        (hb'.watch false) (by simp) (by simp) (by simp) h
      refine ⟨⟨_, hw⟩, by rw [hhandler]; simp [restored], fun hr n hn => ?_, ?_⟩
      · rw [hopen, Option.some.injEq] at hn
        exact hn ▸ hclosed hr
      · rw [hiff]
        simp [hopen, htimeout]
    rename_i htimeout
    split at h
    · exact unarmed_of_errPath (hb'.watch false) rfl hopen (fun _ => htimeout) (Or.inl rfl) h
    rename_i hsiginterrupt
    split at h
    · exact unarmed_of_errPath (hb'.watch false) rfl hopen (fun _ => htimeout) (Or.inr rfl) h
    rename_i hsignal
    rw [Bool.not_eq_false] at hsiginterrupt hsignal
    exact absurd ⟨htimeout, by rw [hopen]; rfl, hsiginterrupt, hsignal⟩ harmed

theorem Unarmed.clean_iff (hu : Unarmed id p c r) (harmed : ¬ Armed c) :
    Clean id p c r ↔ Disarmed p c := by
  constructor
  · refine fun hclean => ⟨fun ha => absurd ha harmed, fun ht => absurd ht.1 harmed, ?_⟩
    intro hflag hopen hor b hattempts
    obtain ⟨hi, ho⟩ := hu.own.2 ⟨hopen, hor.resolve_right harmed, hflag, b, hattempts⟩
    rw [hclean.own hi] at ho
    cases ho
  · intro hdis
    obtain ⟨fired, hw⟩ := hu.watch
    refine ⟨by rw [hw.pending]; simp, hu.handler, hu.closed, fun hi => ?_⟩
    by_contra ho
    rw [Bool.not_eq_true] at ho
    obtain ⟨hopen, htimeout, hflag, b, hattempts⟩ := hu.own.1 ⟨hi, ho⟩
    exact harmed (hdis.flag hflag hopen (Or.inl htimeout) b hattempts).1.1

/-- What is left behind by a call that has set the handler; `timed` when it has set an alarm too. -/
structure Rearmed (id : Nat) (timed : Bool) (p : Proc) (c : Call) (r : Return) : Prop where
  timed_iff : timed = true ↔ Timed c
  watch : Watch id timed (Expires c) r.proc
  handler : r.proc.handler = if p.handler = .SIG_DFL then .alarmFunc else p.handler
  closed : r.result = false → ∀ fd, c.open_ = some fd → r.proc.isOpen fd = false
  own : (r.interrupted = true ∧ r.ownExpired = false) ↔ p.alarm_flag = true ∧
    ∃ b, c.attempts = [(.eintr, b)] ∧ (timed && (c.gapAlarm || b)) = false

/-- The handler and the alarm are set, then the lock is waited for. -/
theorem rearmed_of_locking {fd : Nat} {q q' : Proc} (hb : Between id q) (harmed : Armed c)
    (hopen : c.open_ = some fd) (hflag : q.alarm_flag = p.alarm_flag)
    (htick : tick c.gapAlarm { q with
      handler := .alarmFunc
      pending := if c.timeout % 2 ^ 32 = 0 then none else some id } = some q')
    (h : locking id c (some p.handler) (some fd) q' = some r) :
    ∃ timed, Rearmed id timed p c r := by
  obtain ⟨timed, htimed⟩ : ∃ timed : Bool, timed = true ↔ Timed c :=
    ⟨decide (c.timeout % 2 ^ 32 ≠ 0), by
      rw [decide_eq_true_eq]
      exact ⟨fun h => ⟨harmed, h⟩, fun h => h.2⟩⟩
  have hw : Watch id timed false { q with
      handler := .alarmFunc
      pending := if c.timeout % 2 ^ 32 = 0 then none else some id } := by
    have hplain := hb.watch false
    refine ⟨?_, hplain.mem.trans (by simp), hplain.others⟩
    by_cases h0 : c.timeout % 2 ^ 32 = 0
    · have hnot : timed = false := by
        rw [← Bool.not_eq_true, htimed]
        exact fun ht => ht.2 h0
      rw [if_pos h0, hnot]
      rfl
    · rw [if_neg h0, htimed.2 ⟨harmed, h0⟩]
      rfl
  obtain ⟨q₂, htick₂, hwq, halarm, -, hset⟩ := hw.tick (by simp) c.gapAlarm
  obtain rfl : q₂ = q' := Option.some.inj (htick₂.symm.trans htick)
  have halarm : q₂.handler = .alarmFunc := halarm
  have hrestored : restored c (some p.handler) q₂.handler =
      if p.handler = .SIG_DFL then .alarmFunc else p.handler := by
    rw [halarm]
    by_cases hd : p.handler = .SIG_DFL <;> simp [restored, harmed.1, hd]
  rw [Bool.false_or] at hwq
  obtain ⟨hwr, hhr, hclosed, hiff⟩ := locking_spec (f := p.alarm_flag) hwq (fun _ => halarm)
    (by rw [hset fun _ => rfl, ← hflag]; simp) (by rw [hrestored]; intro _; split <;> simp_all) h
  refine ⟨timed, htimed, hwr, by rw [hhr, hrestored], fun hr n hn => ?_, hiff⟩
  rw [hopen, Option.some.injEq] at hn
  exact hn ▸ hclosed hr

/-- **A call that sets the alarm.** -/
theorem lockfile_armed (hb : Between id p) (harmed : Armed c) (h : lockfile id p c = some r) :
    ∃ timed, Rearmed id timed p c r := by
  obtain ⟨htimeout, hopened, hsiginterrupt, hsignal⟩ := harmed
  obtain ⟨fd, hopen⟩ := Option.isSome_iff_exists.1 hopened
  unfold lockfile at h
  rw [tick_of_pending hb.pending, Option.bind_some, hopen] at h
  obtain ⟨-, h⟩ := (Option.ite_none_left_eq_some ..).1 h
  have hb' : Between id { p with isOpen := Function.update p.isOpen fd true } :=
    ⟨hb.pending, hb.others⟩
  rw [tick_of_pending hb'.pending, Option.bind_some, if_neg htimeout, hsiginterrupt, hsignal,
    if_neg (by decide), if_neg (by decide)] at h
  obtain ⟨q, htick, hlock⟩ := Option.bind_eq_some_iff.1 h
  exact rearmed_of_locking hb' ⟨htimeout, hopened, hsiginterrupt, hsignal⟩ hopen rfl htick hlock

theorem Rearmed.clean_iff {timed : Bool} (hr : Rearmed id timed p c r) (harmed : Armed c) :
    Clean id p c r ↔ Disarmed p c := by
  constructor
  · intro hclean
    refine ⟨fun _ hd => ?_, fun ht => ?_, fun hf _ _ b hattempts => ?_⟩
    · have hhandler := hclean.handler
      rw [hr.handler, if_pos hd, hd] at hhandler
      cases hhandler
    · by_contra hnot
      rw [Bool.not_eq_true] at hnot
      apply hclean.pending
      rw [hr.watch.pending, hr.timed_iff.2 ht, hnot]
      rfl
    · by_contra hnot
      obtain ⟨hi, ho⟩ := hr.own.2 ⟨hf, b, hattempts, by
        rw [← Bool.not_eq_true, Bool.and_eq_true]
        exact fun hand => hnot ⟨hr.timed_iff.1 hand.1, hand.2⟩⟩
      rw [hclean.own hi] at ho
      cases ho
  · intro hdis
    refine ⟨?_, by rw [hr.handler, if_neg (hdis.handler harmed)], hr.closed, fun hi => ?_⟩
    · rw [hr.watch.pending]
      by_cases ht : timed = true
      · rw [ht, hdis.expires (hr.timed_iff.1 ht)]
        simp
      · simp [ht]
    · by_contra ho
      rw [Bool.not_eq_true] at ho
      obtain ⟨hf, b, hattempts, hand⟩ := hr.own.1 ⟨hi, ho⟩
      obtain ⟨ht, hfired⟩ := hdis.flag hf harmed.2.1 (Or.inr harmed) b hattempts
      rw [hr.timed_iff.2 ht, hfired] at hand
      cases hand

/-- **One call**: it leaves nothing behind exactly when it is disarmed, and then no alarm is pending
for the next one. -/
theorem lockfile_clean_iff (hb : Between id p) (h : lockfile id p c = some r) :
    (Clean id p c r ↔ Disarmed p c) ∧ (Clean id p c r → Between (id + 1) r.proc) := by
  by_cases harmed : Armed c
  · obtain ⟨timed, hr⟩ := lockfile_armed hb harmed h
    exact ⟨hr.clean_iff harmed, between_of_clean hr.watch⟩
  · have hu := lockfile_unarmed hb harmed h
    obtain ⟨fired, hw⟩ := hu.watch
    exact ⟨hu.clean_iff harmed, between_of_clean hw⟩

end

/-! ## Sequences of calls -/

/-- Every call that returns leaves nothing behind. -/
def AllClean : Nat → Proc → List Call → Prop
  | _, _, [] => True
  | id, p, c :: calls =>
    ∀ r, lockfile id p c = some r → Clean id p c r ∧ AllClean (id + 1) r.proc calls

/-- Every call that returns is disarmed. -/
def AllDisarmed : Nat → Proc → List Call → Prop
  | _, _, [] => True
  | id, p, c :: calls =>
    ∀ r, lockfile id p c = some r → Disarmed p c ∧ AllDisarmed (id + 1) r.proc calls

theorem allClean_iff {id : Nat} {p : Proc} (hb : Between id p) (calls : List Call) :
    AllClean id p calls ↔ AllDisarmed id p calls := by
  induction calls generalizing id p with
  | nil => exact Iff.rfl
  | cons c calls ih =>
    unfold AllClean AllDisarmed
    refine forall_congr' fun r => forall_congr' fun hr => ?_
    obtain ⟨hiff, hnext⟩ := lockfile_clean_iff hb hr
    constructor
    · rintro ⟨hclean, hall⟩
      exact ⟨hiff.1 hclean, (ih (hnext hclean)).1 hall⟩
    · rintro ⟨hdis, hall⟩
      have hclean := hiff.2 hdis
      exact ⟨hclean, (ih (hnext hclean)).2 hall⟩

/-- A process that has not called the function. -/
def fresh (handler : Handler) (isOpen : Nat → Bool) : Proc := ⟨handler, false, none, [], isOpen⟩

/-- **No call of a sequence leaves anything behind** exactly when all of them are disarmed. -/
theorem lockfile_clean (handler : Handler) (isOpen : Nat → Bool) (calls : List Call) :
    AllClean 0 (fresh handler isOpen) calls ↔ AllDisarmed 0 (fresh handler isOpen) calls :=
  allClean_iff ⟨rfl, fun o ho => by cases ho⟩ calls

/-- The call of `initLock`.  The file is open for reading only, so that `lockf` refuses to lock it. -/
def initLock : Call where
  timeout := 30
  open_ := some 3
  siginterrupt := true
  signal := true
  fcntl := true
  attempts := [(.error, false)]
  gapStart := false
  gapSetup := false
  gapAlarm := false
  gapRestore := false
  gapFcntl := false
  gapEnd := false

/-- The call of `initLock` leaves its alarm and its handler. -/
theorem lockfile_initLock : ¬ AllClean 0 (fresh .SIG_DFL fun _ => false) [initLock] := by
  intro h
  obtain ⟨hclean, -⟩ := h _ rfl
  exact hclean.pending rfl

end Lockfile
