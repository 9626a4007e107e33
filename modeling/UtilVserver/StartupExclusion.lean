import Mathlib.Data.List.Forall2
import UtilVserver.StartupLock

/-!
# Exclusion of start and stop

* `balanced` — the locks on the stack at every point of a script.
* `RunInv`, `SysInv` — every lock on the stack of a run is owned by the run.

Principal result: `startup_exclusive` (as long as no run that holds the startup lock is refused the
lock on the interfaces, at most one run holds it, and each `unlock 1` releases what the `lock`
before it took; if no startup lock is refused either, at most one run executes steps).  Without that
a run gives its startup lock away, or never had it: `startup_lock_lost`.
-/

set_option autoImplicit false

namespace StartupLock

open Transition

section System

variable {ι : Type*}

/-! ## What an event does to its run -/

/-- The cases of `RunState.act`. -/
inductive Acts (r : RunState) : Event → RunState → Prop
  | spawn {f : LockFile} {k : Prog} (hprog : r.prog = .lock f k) (hpend : r.pending = none) :
      Acts r .spawn { r with pending := some ⟨r.spawned, .starting⟩, spawned := r.spawned + 1 }
  | opened {pid : Nat} (hpend : r.pending = some ⟨pid, .starting⟩) :
      Acts r .opened { r with pending := some ⟨pid, .waiting⟩ }
  | refuse {f : LockFile} {k : Prog} {pid : Nat} {why : Refusal} (hprog : r.prog = .lock f k)
      (hpend : r.pending = some ⟨pid, why.phase⟩) :
      Acts r (.refuse f why) { r with pending := some ⟨pid, .refused⟩ }
  | grant {f : LockFile} {k : Prog} {pid : Nat} (hprog : r.prog = .lock f k)
      (hpend : r.pending = some ⟨pid, .waiting⟩) :
      Acts r (.grant f) { r with pending := some ⟨pid, .granted⟩ }
  | granted {f : LockFile} {k : Prog} {pid : Nat} (hprog : r.prog = .lock f k)
      (hpend : r.pending = some ⟨pid, .granted⟩) :
      Acts r .answer { r with
        prog := k, pending := none, locks := pid :: r.locks, last := some pid,
        region := f.enter true r.region }
  | refused {f : LockFile} {k : Prog} {pid : Nat} (hprog : r.prog = .lock f k)
      (hpend : r.pending = some ⟨pid, .refused⟩) :
      Acts r .answer { r with
        prog := k, pending := none, last := none, region := f.enter false r.region }
  | work {w : Work} {k : Prog} (hprog : r.prog = .work w k) : Acts r .work { r with prog := k }
  | choose {k k' : Prog} {b : Bool} (hprog : r.prog = .choice k k') :
      Acts r (.choose b) { r with prog := if b then k else k' }
  | unlock {num : Option Nat} {k : Prog} (hprog : r.prog = .unlock num k) :
      Acts r .unlock { r with
        prog := k, locks := (StartupLock.unlock num r.locks).2,
        killed := (StartupLock.unlock num r.locks).1 ++ r.killed,
        region := if num = none then none else r.region }

theorem acts_of_act {r r' : RunState} {e : Event} (h : r.act e = some r') : Acts r e r' := by
  cases e with
  | spawn =>
    simp only [RunState.act] at h
    split at h
    · rename_i hprog hpend; cases h; exact .spawn hprog hpend
    · cases h
  | opened =>
    simp only [RunState.act] at h
    split at h
    · rename_i hpend; cases h; exact .opened hpend
    · cases h
  | refuse f why =>
    simp only [RunState.act] at h
    split at h
    · rename_i hprog hpend
      split at h
      · rename_i hf
        obtain ⟨rfl, rfl⟩ := hf
        cases h
        exact .refuse hprog hpend
      · cases h
    · cases h
  | grant f =>
    simp only [RunState.act] at h
    split at h
    · rename_i hprog hpend
      split at h
      · rename_i hf
        subst hf
        cases h
        exact .grant hprog hpend
      · cases h
    · cases h
  | answer =>
    simp only [RunState.act] at h
    split at h
    · rename_i hprog hpend; cases h; exact .granted hprog hpend
    · rename_i hprog hpend; cases h; exact .refused hprog hpend
    · cases h
  | work =>
    simp only [RunState.act] at h
    split at h
    · rename_i hprog; cases h; exact .work hprog
    · cases h
  | choose b =>
    simp only [RunState.act] at h
    split at h
    · rename_i hprog; cases h; exact .choose hprog
    · cases h
  | unlock =>
    simp only [RunState.act] at h
    split at h
    · rename_i hprog; cases h; exact .unlock hprog
    · cases h

/-! ## The locks a run holds -/

/-- The locks on the stack at each point of a script, as far as requests that may be refused are;
`fresh` says that the last `lock` call is the one on top. -/
def balanced : Prog → List LockFile → Bool → Bool
  | .exit, _, _ => true
  | .work _ k, fs, fresh => balanced k fs fresh
  | .choice k k', fs, fresh => balanced k fs fresh && balanced k' fs fresh
  | .lock .startup k, fs, _ => fs == [] && balanced k [.startup] true && balanced k [] true
  | .lock .interfaces k, fs, _ =>
    (fs == [.startup] && balanced k [.interfaces, .startup] true) ||
      (fs == [] && balanced k [.interfaces] true && balanced k [] true)
  | .unlock none k, _, _ => balanced k [] false
  | .unlock (some 1) k, fs, fresh => fresh && fs.head? != some .startup && balanced k fs.tail false
  | .unlock (some _) _, _, _ => false

theorem balanced_prog (cmd : Command) : balanced cmd.prog [] false = true := by
  cases cmd <;> decide

/-- What a run that has not ended holds. -/
structure Held (owner : LockFile → Option (ι × Nat)) (i : ι) (r : RunState) (fs : List LockFile)
    (fresh : Bool) : Prop where
  balanced : balanced r.prog fs fresh = true
  stack : List.Forall₂ (fun pid f => owner f = some (i, pid)) r.locks fs
  alive : ∀ pid ∈ r.locks, pid ∉ r.killed ∧ pid < r.spawned
  nodup : r.locks.Nodup
  fresh : fresh = true → r.last = r.locks.head?
  region : r.region = some true ↔ .startup ∈ fs
  pending : ∀ h, r.pending = some h → h.pid ∉ r.locks
  granted : ∀ f k h, r.prog = .lock f k → r.pending = some h → h.phase = .granted →
    owner f = some (i, h.pid)
  refused : ∀ k h, r.prog = .lock .interfaces k → r.pending = some h → h.phase = .refused → fs = []

/-- The invariant of one run. -/
structure RunInv (owner : LockFile → Option (ι × Nat)) (i : ι) (r : RunState) : Prop where
  killed : ∀ pid ∈ r.killed, pid < r.spawned
  pending : ∀ h, r.pending = some h → h.pid < r.spawned ∧ h.pid ∉ r.killed
  waits : ∀ h, r.pending = some h → ∃ f k, r.prog = .lock f k
  held : r.prog.isExit = false → ∃ fs fresh, Held owner i r fs fresh

theorem runInv_initial (owner : LockFile → Option (ι × Nat)) (i : ι) (cmd : Command) :
    RunInv owner i ⟨cmd.prog, none, [], 0, [], none, none⟩ := by
  refine ⟨by simp, by simp, by simp, fun _ => ⟨[], false, ?_⟩⟩
  exact ⟨balanced_prog cmd, .nil, by simp, .nil, by simp, by simp, by simp, by simp, by simp⟩

/-- A run does not notice changes to locks that it does not hold. -/
theorem RunInv.frame {owner owner' : LockFile → Option (ι × Nat)} {i : ι} {r : RunState}
    (h : RunInv owner i r)
    (hframe : r.prog.isExit = false → ∀ f pid, owner f = some (i, pid) → pid ∉ r.killed →
      owner' f = some (i, pid)) : RunInv owner' i r := by
  refine ⟨h.killed, h.pending, h.waits, fun hexit => ?_⟩
  obtain ⟨fs, fresh, hh⟩ := h.held hexit
  have hkeep := hframe hexit
  refine ⟨fs, fresh, { hh with stack := ?_, granted := ?_ }⟩
  · have hboth := (List.forall₂_and_left (p := fun pid => pid ∉ r.killed) _ _).2
      ⟨fun pid hpid => (hh.alive pid hpid).1, hh.stack⟩
    exact hboth.imp fun pid f h => hkeep f pid h.2 h.1
  · intro f k p hprog hp hph
    exact hkeep f p.pid (hh.granted f k p hprog hp hph) (h.pending p hp).2

variable {owner : LockFile → Option (ι × Nat)} {i : ι} {r r' : RunState}

theorem balanced_granted {f : LockFile} {k : Prog} {fs : List LockFile} {fresh : Bool}
    (h : balanced (.lock f k) fs fresh = true) : balanced k (f :: fs) true = true := by
  cases f with
  | startup =>
    simp only [balanced, Bool.and_eq_true, beq_iff_eq] at h
    rw [h.1.1]
    exact h.1.2
  | interfaces =>
    simp only [balanced, Bool.or_eq_true, Bool.and_eq_true, beq_iff_eq] at h
    rcases h with ⟨rfl, h⟩ | ⟨⟨rfl, h⟩, -⟩
    · exact h
    · exact h

theorem balanced_refused {f : LockFile} {k : Prog} {fresh : Bool}
    (h : balanced (.lock f k) [] fresh = true) : balanced k [] true = true := by
  cases f with
  | startup =>
    simp only [balanced, Bool.and_eq_true] at h
    exact h.2
  | interfaces =>
    simp only [balanced, Bool.or_eq_true, Bool.and_eq_true, beq_iff_eq, reduceCtorEq, false_and,
      false_or] at h
    exact h.2

/-- What a run holds when it asks for a lock. -/
theorem Held.of_lock {fs : List LockFile} {fresh : Bool} {f : LockFile} {k : Prog}
    (h : Held owner i r fs fresh) (hprog : r.prog = .lock f k) :
    fs = [] ∨ f = .interfaces ∧ fs = [.startup] := by
  have hb := h.balanced
  rw [hprog] at hb
  cases f with
  | startup =>
    simp only [StartupLock.balanced, Bool.and_eq_true, beq_iff_eq] at hb
    exact .inl hb.1.1
  | interfaces =>
    simp only [StartupLock.balanced, Bool.or_eq_true, Bool.and_eq_true, beq_iff_eq] at hb
    rcases hb with ⟨hfs, -⟩ | ⟨⟨hfs, -⟩, -⟩
    · exact .inr ⟨rfl, hfs⟩
    · exact .inl hfs

theorem balanced_unlock_some {n : Nat} {k : Prog} {fs : List LockFile} {fresh : Bool}
    (h : balanced (.unlock (some n) k) fs fresh = true) :
    n = 1 ∧ fresh = true ∧ fs.head? ≠ some .startup ∧ balanced k fs.tail false = true := by
  unfold balanced at h
  split at h
  all_goals simp_all

theorem unlock_none : ∀ pids : List Nat, StartupLock.unlock none pids = (pids, [])
  | [] => rfl
  | pid :: pids => by
    rw [StartupLock.unlock, if_neg (by simp)]
    simp only [Option.map_none, unlock_none pids]

theorem unlock_one (pids : List Nat) :
    StartupLock.unlock (some 1) pids = (pids.head?.toList, pids.tail) := by
  cases pids <;> rfl

/-- Moving on without touching the locks. -/
theorem Held.move {fs : List LockFile} {fresh : Bool} {k : Prog} (h : Held owner i r fs fresh)
    (hk : StartupLock.balanced k fs fresh = true) (hp : r.pending = none) :
    Held owner i { r with prog := k } fs fresh where
  balanced := hk
  stack := h.stack
  alive := h.alive
  nodup := h.nodup
  fresh := h.fresh
  region := h.region
  pending := h.pending
  granted := fun f k p _ hpend _ => by rw [hp] at hpend; cases hpend
  refused := fun k p _ hpend _ => by rw [hp] at hpend; cases hpend

/-- Giving up the lock on top of the stack. -/
theorem Held.unlockOne {fs : List LockFile} {fresh : Bool} {k : Prog}
    (h : Held owner i r fs fresh) (hk : StartupLock.balanced k fs.tail false = true)
    (hhead : fs.head? ≠ some .startup) (hp : r.pending = none) :
    Held owner i { r with prog := k, locks := r.locks.tail,
                          killed := r.locks.head?.toList ++ r.killed } fs.tail false where
  balanced := hk
  stack := by
    have hdrop := List.forall₂_drop 1 h.stack
    rwa [List.drop_one, List.drop_one] at hdrop
  alive := by
    intro pid hpid
    obtain ⟨hkill, hlt⟩ := h.alive pid (List.mem_of_mem_tail hpid)
    refine ⟨fun hmem => ?_, hlt⟩
    rcases List.mem_append.1 hmem with htop | hmem
    · have hnodup := h.nodup
      cases hlocks : r.locks with
      | nil => simp [hlocks] at htop
      | cons top rest =>
        rw [hlocks] at htop hnodup hpid
        obtain rfl : pid = top := by simpa using htop
        exact (List.nodup_cons.1 hnodup).1 hpid
    · exact hkill hmem
  nodup := h.nodup.tail
  fresh := by simp
  region := by
    rw [h.region]
    cases fs with
    | nil => simp
    | cons f fs =>
      have hne : LockFile.startup ≠ f := fun he => hhead (by rw [he]; rfl)
      simp [hne]
  pending := fun p hpend => by simp [hp] at hpend
  granted := fun _ _ p _ hpend => by simp [hp] at hpend
  refused := fun _ p _ hpend => by simp [hp] at hpend

/-- A helper of a run that is in a `lock` call. -/
theorem RunInv.not_pending (h : RunInv owner i r) (hprog : ∀ f k, r.prog ≠ .lock f k) :
    r.pending = none := by
  cases hp : r.pending with
  | none => rfl
  | some p =>
    obtain ⟨f, k, hlock⟩ := h.waits p hp
    exact absurd hlock (hprog f k)

theorem runInv_spawn (h : RunInv owner i r) {f : LockFile} {k : Prog} (hprog : r.prog = .lock f k) :
    RunInv owner i
      { r with pending := some ⟨r.spawned, .starting⟩, spawned := r.spawned + 1 } := by
  refine ⟨fun pid hpid => Nat.lt_succ_of_lt (h.killed pid hpid), ?_, fun _ _ => ⟨f, k, hprog⟩,
    fun hexit => ?_⟩
  · rintro p hp
    cases hp
    exact ⟨Nat.lt_succ_self _, fun hk => Nat.lt_irrefl _ (h.killed _ hk)⟩
  · obtain ⟨fs, fresh, hh⟩ := h.held hexit
    refine ⟨fs, fresh, { hh with alive := ?_, pending := ?_, granted := ?_, refused := ?_ }⟩
    · intro pid hpid
      exact ⟨(hh.alive pid hpid).1, Nat.lt_succ_of_lt (hh.alive pid hpid).2⟩
    · rintro p hp
      cases hp
      exact fun hl => Nat.lt_irrefl _ (hh.alive _ hl).2
    · rintro f k p - hp hph
      cases hp
      cases hph
    · rintro k p - hp hph
      cases hp
      cases hph

/-- The helper of the run changes its phase. -/
theorem RunInv.setPhase (h : RunInv owner i r) {pid : Nat} {ph ph' : Phase}
    (hpend : r.pending = some ⟨pid, ph⟩)
    (hgranted : ∀ f k, r.prog = .lock f k → ph' = .granted → owner f = some (i, pid))
    (hrefused : ∀ fs fresh k, Held owner i r fs fresh → r.prog = .lock .interfaces k →
      ph' = .refused → fs = []) :
    RunInv owner i { r with pending := some ⟨pid, ph'⟩ } := by
  refine ⟨h.killed, ?_, fun _ _ => h.waits _ hpend, fun hexit => ?_⟩
  · rintro p hp
    cases hp
    exact h.pending ⟨pid, ph⟩ hpend
  · obtain ⟨fs, fresh, hh⟩ := h.held hexit
    refine ⟨fs, fresh, { hh with pending := ?_, granted := ?_, refused := ?_ }⟩
    · rintro p hp
      cases hp
      exact hh.pending ⟨pid, ph⟩ hpend
    · rintro f k p hprog hp hph
      cases hp
      exact hgranted f k hprog hph
    · rintro k p hprog hp hph
      cases hp
      exact hrefused fs fresh k hh hprog hph

theorem runInv_opened (h : RunInv owner i r) {pid : Nat}
    (hpend : r.pending = some ⟨pid, .starting⟩) :
    RunInv owner i { r with pending := some ⟨pid, .waiting⟩ } := by
  refine h.setPhase hpend ?_ ?_
  · rintro f k - hph
    cases hph
  · rintro fs fresh k - - hph
    cases hph

theorem runInv_refuse (h : RunInv owner i r) {f : LockFile} {k : Prog} {pid : Nat} {ph : Phase}
    (hprog : r.prog = .lock f k) (hpend : r.pending = some ⟨pid, ph⟩)
    (hallowed : f = .interfaces → r.region ≠ some true) :
    RunInv owner i { r with pending := some ⟨pid, .refused⟩ } := by
  refine h.setPhase hpend ?_ ?_
  · rintro f k - hph
    cases hph
  · rintro fs fresh k' hh hprog' -
    have hlock := hprog.symm.trans hprog'
    injection hlock with hf _
    rcases hh.of_lock hprog' with hfs | ⟨-, hfs⟩
    · exact hfs
    · exact absurd (hh.region.2 (by rw [hfs]; simp)) (hallowed hf)

theorem runInv_granted (h : RunInv owner i r) {f : LockFile} {k : Prog} {pid : Nat}
    (hprog : r.prog = .lock f k) (hpend : r.pending = some ⟨pid, .granted⟩) :
    RunInv owner i { r with
      prog := k, pending := none, locks := pid :: r.locks, last := some pid,
      region := f.enter true r.region } := by
  obtain ⟨fs, fresh, hh⟩ := h.held (by rw [hprog]; rfl)
  have hb := hh.balanced
  rw [hprog] at hb
  refine ⟨h.killed, by simp, by simp, fun _ => ⟨f :: fs, true, ?_⟩⟩
  refine ⟨balanced_granted hb, .cons (hh.granted f k _ hprog hpend rfl) hh.stack, ?_, ?_,
    fun _ => rfl, ?_, by simp, by simp, by simp⟩
  · intro q hq
    rcases List.mem_cons.1 hq with rfl | hq
    · exact ⟨(h.pending _ hpend).2, (h.pending _ hpend).1⟩
    · exact hh.alive q hq
  · exact List.nodup_cons.2 ⟨hh.pending _ hpend, hh.nodup⟩
  · cases f with
    | startup => simp [LockFile.enter]
    | interfaces => simpa [LockFile.enter] using hh.region

theorem runInv_refused (h : RunInv owner i r) {f : LockFile} {k : Prog} {pid : Nat}
    (hprog : r.prog = .lock f k) (hpend : r.pending = some ⟨pid, .refused⟩) :
    RunInv owner i { r with
      prog := k, pending := none, last := none, region := f.enter false r.region } := by
  obtain ⟨fs, fresh, hh⟩ := h.held (by rw [hprog]; rfl)
  have hb := hh.balanced
  rw [hprog] at hb
  have hfs : fs = [] := by
    rcases hh.of_lock hprog with hfs | ⟨rfl, -⟩
    · exact hfs
    · exact hh.refused k _ hprog hpend rfl
  subst hfs
  have hlocks : r.locks = [] := List.forall₂_nil_right_iff.1 hh.stack
  refine ⟨h.killed, by simp, by simp, fun _ => ⟨[], true, ?_⟩⟩
  refine ⟨balanced_refused hb, hh.stack, hh.alive, hh.nodup, fun _ => by rw [hlocks]; rfl, ?_,
    by simp, by simp, by simp⟩
  cases f with
  | startup => simp [LockFile.enter]
  | interfaces => simpa [LockFile.enter] using hh.region

/-- The run goes on without touching its locks. -/
theorem RunInv.move (h : RunInv owner i r) {k : Prog} (hlock : ∀ f k', r.prog ≠ .lock f k')
    (hexit : r.prog.isExit = false)
    (hk : ∀ fs fresh, balanced r.prog fs fresh = true → balanced k fs fresh = true) :
    RunInv owner i { r with prog := k } := by
  have hnone := h.not_pending hlock
  refine ⟨h.killed, h.pending, fun p hp => by simp [hnone] at hp, fun _ => ?_⟩
  obtain ⟨fs, fresh, hh⟩ := h.held hexit
  exact ⟨fs, fresh, Held.move hh (hk fs fresh hh.balanced) hnone⟩

theorem runInv_unlock (h : RunInv owner i r) {num : Option Nat} {k : Prog}
    (hprog : r.prog = .unlock num k) :
    RunInv owner i { r with
      prog := k, locks := (StartupLock.unlock num r.locks).2,
      killed := (StartupLock.unlock num r.locks).1 ++ r.killed,
      region := if num = none then none else r.region } := by
  have hnone := h.not_pending (by rw [hprog]; simp)
  obtain ⟨fs, fresh, hh⟩ := h.held (by rw [hprog]; rfl)
  have hb := hh.balanced
  rw [hprog] at hb
  cases num with
  | none =>
    simp only [unlock_none, if_true]
    refine ⟨?_, fun p hp => by simp [hnone] at hp, fun p hp => by simp [hnone] at hp,
      fun _ => ⟨[], false, ?_⟩⟩
    · intro pid hpid
      rcases List.mem_append.1 hpid with hl | hk
      · exact (hh.alive pid hl).2
      · exact h.killed pid hk
    · exact ⟨hb, .nil, by simp, .nil, by simp, by simp, fun p hp => by simp [hnone] at hp,
        fun _ _ p _ hp => by simp [hnone] at hp, fun _ p _ hp => by simp [hnone] at hp⟩
  | some n =>
    obtain ⟨rfl, -, hhead, hk⟩ := balanced_unlock_some hb
    simp only [unlock_one, reduceCtorEq, if_false]
    refine ⟨?_, fun p hp => by simp [hnone] at hp, fun p hp => by simp [hnone] at hp,
      fun _ => ⟨fs.tail, false, ?_⟩⟩
    · intro pid hpid
      rcases List.mem_append.1 hpid with hl | hk
      · exact (hh.alive pid (List.mem_of_mem_head? (by simpa using hl))).2
      · exact h.killed pid hk
    · exact hh.unlockOne hk hhead hnone

/-- The events of a run that leave the owners alone. -/
theorem runInv_act {e : Event} (h : RunInv owner i r) (hgrant : ∀ f, e ≠ .grant f)
    (hallowed : ∀ why, e = .refuse .interfaces why → r.region ≠ some true)
    (hact : Acts r e r') : RunInv owner i r' := by
  cases hact with
  | spawn hprog hpend => exact runInv_spawn h hprog
  | opened hpend => exact runInv_opened h hpend
  | @refuse f k pid why hprog hpend =>
    refine runInv_refuse h hprog hpend ?_
    rintro rfl
    exact hallowed why rfl
  | grant hprog hpend => exact absurd rfl (hgrant _)
  | granted hprog hpend => exact runInv_granted h hprog hpend
  | refused hprog hpend => exact runInv_refused h hprog hpend
  | work hprog =>
    refine h.move (by rw [hprog]; simp) (by rw [hprog]; rfl) fun fs fresh hb => ?_
    rwa [hprog, balanced] at hb
  | @choose k k' b hprog =>
    refine h.move (by rw [hprog]; simp) (by rw [hprog]; rfl) fun fs fresh hb => ?_
    rw [hprog, balanced, Bool.and_eq_true] at hb
    cases b with
    | true => exact hb.1
    | false => exact hb.2
  | unlock hprog => exact runInv_unlock h hprog

section Runs

variable [DecidableEq ι] {s s' : State ι}

/-- What an event of a run does to the system. -/
theorem next_run {i : ι} {e : Event} (h : next s (.run i e) = some s') :
    ∃ r, Acts (s.runs i) e r ∧ s'.runs = Function.update s.runs i r ∧
      ((∀ f, e ≠ .grant f) ∧ s'.owner = s.owner ∨
        ∃ f, e = .grant f ∧ s.owner f = none ∧
          s'.owner = Function.update s.owner f (r.pending.map fun p => (i, p.pid))) := by
  simp only [next] at h
  split at h
  · cases h
  · rename_i r f hact
    split at h
    · rename_i hfree
      cases h
      exact ⟨r, acts_of_act hact, rfl, .inr ⟨f, rfl, hfree, rfl⟩⟩
    · cases h
  · rename_i e r hgrant hact
    cases h
    exact ⟨r, acts_of_act hact, rfl, .inl ⟨fun f he => hgrant f he, rfl⟩⟩

theorem next_died {f : LockFile} (h : next s (.died f) = some s') :
    ∃ i pid, s.owner f = some (i, pid) ∧
      (pid ∈ (s.runs i).killed ∨ (s.runs i).prog.isExit = true) ∧
      s' = { s with owner := Function.update s.owner f none } := by
  simp only [next] at h
  split at h
  · cases h
  · rename_i i pid howner
    split at h
    · rename_i hdead
      cases h
      exact ⟨i, pid, howner, hdead, rfl⟩
    · cases h

/-- **The invariant** of the system. -/
def SysInv (s : State ι) : Prop := ∀ i, RunInv s.owner i (s.runs i)

theorem sysInv_step {l : Label ι} (h : SysInv s) (hs : AllowedStep s l s') : SysInv s' := by
  obtain ⟨hstep, hallowed⟩ := hs
  cases l with
  | run i e =>
    obtain ⟨r, hact, hruns, ⟨hgrant, howner⟩ | ⟨f, rfl, hfree, howner⟩⟩ := next_run hstep
    · have hi : RunInv s.owner i r := by
        refine runInv_act (h i) hgrant ?_ hact
        rintro why rfl
        exact hallowed
      intro j
      rw [hruns, howner]
      rcases eq_or_ne j i with rfl | hne
      · rwa [Function.update_self]
      · rw [Function.update_of_ne hne]
        exact h j
    · cases hact with
      | grant hprog hpend =>
        -- the owners of the other lock stay, and nobody owned this one
        have hframe (j : ι) : RunInv s'.owner j (s.runs j) := by
          refine (h j).frame fun _ g q hg _ => ?_
          rw [howner, Function.update_of_ne, hg]
          rintro rfl
          rw [hfree] at hg
          cases hg
        intro j
        rw [hruns]
        rcases eq_or_ne j i with rfl | hne
        · rw [Function.update_self]
          refine (hframe j).setPhase hpend ?_ ?_
          · intro g k' hprog' _
            rw [hprog] at hprog'
            cases hprog'
            rw [howner, Function.update_self]
            rfl
          · rintro fs fresh k' - - hph
            cases hph
        · rw [Function.update_of_ne hne]
          exact hframe j
  | died f =>
    obtain ⟨i, pid, howner, hdead, rfl⟩ := next_died hstep
    intro j
    refine (h j).frame fun hexit g q hg hq => ?_
    show Function.update s.owner f none g = some (j, q)
    rw [Function.update_of_ne, hg]
    rintro rfl
    rw [howner] at hg
    cases hg
    rcases hdead with hk | he
    · exact hq hk
    · rw [hexit] at he
      cases he

theorem sysInv_run {cmds : ι → Command} {ls : List (Label ι)}
    (hrun : Run AllowedStep (initial cmds) ls s) : SysInv s :=
  hrun.invariant (fun _ _ _ hi hs => sysInv_step hi hs)
    fun i => runInv_initial _ i (cmds i)

/-! ## Exclusion -/

omit [DecidableEq ι] in
theorem Held.owner_of_mem {fs : List LockFile} {fresh : Bool} (h : Held owner i r fs fresh)
    {f : LockFile} (hf : f ∈ fs) : ∃ pid, owner f = some (i, pid) := by
  have hstack := h.stack
  clear h
  generalize r.locks = pids at hstack
  induction hstack with
  | nil => cases hf
  | @cons pid g pids gs howner _ ih =>
    rcases List.mem_cons.1 hf with rfl | hf
    · exact ⟨pid, howner⟩
    · exact ih hf

omit [DecidableEq ι] in
theorem SysInv.exclusive (h : SysInv s) {i j : ι} (hi : Inside s i true) (hj : Inside s j true) :
    i = j := by
  obtain ⟨fs, fresh, hh⟩ := (h i).held hi.2
  obtain ⟨gs, fresh', hh'⟩ := (h j).held hj.2
  obtain ⟨pid, hpid⟩ := hh.owner_of_mem (hh.region.1 hi.1)
  obtain ⟨pid', hpid'⟩ := hh'.owner_of_mem (hh'.region.1 hj.1)
  rw [hpid] at hpid'
  cases hpid'
  rfl

omit [DecidableEq ι] in
theorem SysInv.matched (h : SysInv s) (i : ι) : (s.runs i).Matched := by
  intro k hprog
  obtain ⟨fs, fresh, hh⟩ := (h i).held (by rw [hprog]; rfl)
  have hb := hh.balanced
  rw [hprog] at hb
  obtain ⟨-, hfresh, -, -⟩ := balanced_unlock_some hb
  rw [unlock_one, hh.fresh hfresh]

/-- No startup lock was refused to the run. -/
def Clean (r : RunState) : Prop :=
  r.region ≠ some false ∧
    ∀ k p, r.prog = .lock .startup k → r.pending = some p → p.phase ≠ .refused

omit [DecidableEq ι] in
theorem Clean.act {e : Event} (hclean : Clean r) (hinv : RunInv owner i r)
    (hlabel : ¬ (Label.run i e).RefusesStartup) (hact : Acts r e r') : Clean r' := by
  obtain ⟨hregion, hpending⟩ := hclean
  -- outside a `lock` call no helper can be refused
  have hidle (hprog : ∀ f k', r.prog ≠ .lock f k') (p : Helper) (hp : r.pending = some p) :
      p.phase ≠ .refused := by
    rw [hinv.not_pending hprog] at hp
    cases hp
  cases hact with
  | refuse hprog hpend =>
    refine ⟨hregion, ?_⟩
    rintro k' p hprog' -
    have hlock := hprog.symm.trans hprog'
    injection hlock with hf _
    rw [hf] at hlabel
    exact absurd trivial hlabel
  | @granted f k pid hprog hpend =>
    refine ⟨?_, by simp⟩
    cases f with
    | startup => simp [LockFile.enter]
    | interfaces => exact hregion
  | @refused f k pid hprog hpend =>
    refine ⟨?_, by simp⟩
    cases f with
    | startup => exact absurd rfl (hpending k _ hprog hpend)
    | interfaces => exact hregion
  | work hprog => exact ⟨hregion, fun _ p _ => hidle (by rw [hprog]; simp) p⟩
  | choose hprog => exact ⟨hregion, fun _ p _ => hidle (by rw [hprog]; simp) p⟩
  | @unlock num k hprog =>
    refine ⟨?_, fun _ p _ => hidle (by rw [hprog]; simp) p⟩
    show (if num = none then none else r.region) ≠ some false
    split
    · simp
    · exact hregion
  | _ =>
    refine ⟨hregion, ?_⟩
    rintro k p - hp
    cases hp
    simp

theorem clean_step {l : Label ι} (hinv : SysInv s) (hclean : ∀ i, Clean (s.runs i))
    (hlabel : ¬ l.RefusesStartup) (hs : Step s l s') (i : ι) : Clean (s'.runs i) := by
  cases l with
  | run j e =>
    obtain ⟨r, hact, hruns, -⟩ := next_run hs
    rw [hruns]
    rcases eq_or_ne i j with rfl | hne
    · rw [Function.update_self]
      exact (hclean i).act (hinv i) hlabel hact
    · rw [Function.update_of_ne hne]
      exact hclean i
  | died f =>
    obtain ⟨j, pid, -, -, rfl⟩ := next_died hs
    exact hclean i

/-- **Exclusion of start and stop**, in runs of the system whose steps are all allowed: at most one
run holds the startup lock, every `unlock 1` releases what the `lock` before it took, and if no
startup lock was refused at most one run executes steps. -/
theorem startup_exclusive {cmds : ι → Command} {ls : List (Label ι)}
    (hrun : Run AllowedStep (initial cmds) ls s) :
    (∀ i j, Inside s i true → Inside s j true → i = j) ∧ (∀ i, (s.runs i).Matched) ∧
      ((∀ l ∈ ls, ¬ l.RefusesStartup) →
        ∀ i j g g', Inside s i g → Inside s j g' → i = j) := by
  have hinv := sysInv_run hrun
  refine ⟨fun i j hi hj => hinv.exclusive hi hj, hinv.matched, fun hlabels i j g g' hi hj => ?_⟩
  obtain ⟨-, hclean⟩ : SysInv s ∧ ∀ i, Clean (s.runs i) := by
    refine hrun.invariant_of (I := fun s => SysInv s ∧ ∀ i, Clean (s.runs i)) ?_ hlabels ?_
    · rintro s l s' ⟨hs, hc⟩ hl hstep
      exact ⟨sysInv_step hs hstep, clean_step hs hc hl hstep.1⟩
    · exact ⟨fun i => runInv_initial _ i (cmds i), fun i => ⟨by simp [initial], by simp [initial]⟩⟩
  have hgranted (i : ι) (g : Bool) (h : Inside s i g) : Inside s i true := by
    cases g with
    | true => exact h
    | false => exact absurd h.1 (hclean i).1
  exact hinv.exclusive (hgranted i g hi) (hgranted j g' hj)

end Runs

def Label.isRefusal : Label ι → Bool
  | .run _ (.refuse _ _) => true
  | _ => false

theorem allowed_of_not_refusal {l : Label ι} (h : l.isRefusal = false) (s : State ι) :
    Allowed s l := by
  unfold Allowed
  split
  · cases h
  · trivial

theorem not_refusesStartup {l : Label ι} (h : l.isRefusal = false) : ¬ l.RefusesStartup := by
  intro hr
  unfold Label.RefusesStartup at hr
  split at hr
  · cases h
  · exact hr

end System

/-! ## Two runs -/

/-- The lock call of a run is granted. -/
def granted (i : Fin 2) (f : LockFile) : List (Label (Fin 2)) :=
  [.run i .spawn, .run i .opened, .run i (.grant f), .run i .answer]

/-- The helper of a run waits for too long. -/
def timedOut (i : Fin 2) (f : LockFile) : List (Label (Fin 2)) :=
  [.run i .spawn, .run i .opened, .run i (.refuse f .timeout), .run i .answer]

/-- Two runs of `vserver … start`. -/
def bothStart : Fin 2 → Command := fun _ => .start

/-- The first run has done the steps in front of `enableInterfaces`. -/
def upToInterfaces : List (Label (Fin 2)) :=
  granted 0 .startup ++ .run 0 (.choose false) ::
    (List.replicate 7 [Label.run 0 .work, .run 0 (.choose false)]).flatten

/-- The first run is about to release the lock on the interfaces while the second one waits. -/
def twoStarts : List (Label (Fin 2)) :=
  upToInterfaces ++ [Label.run 1 .spawn, Label.run 1 .opened] ++ granted 0 .interfaces ++
    [Label.run 0 .work]

theorem startup_exclusive_two :
    ∃ s, Run AllowedStep (initial bothStart) twoStarts s ∧ Inside s 0 true ∧
      (∀ i j g g', Inside s i g → Inside s j g' → i = j) := by
  have hregion : (runLabels next twoStarts (initial bothStart)).map
      (fun s => ((s.runs 0).region, (s.runs 0).prog.isExit)) = some (some true, false) := by
    decide +kernel
  obtain ⟨s, hs, hregion⟩ := Option.map_eq_some_iff.1 hregion
  obtain ⟨hregion, hexit⟩ := Prod.mk.inj hregion
  have hnone : ∀ l ∈ twoStarts, l.isRefusal = false := by decide
  have hrun := (run_of_runLabels hs).restrict fun l hl => allowed_of_not_refusal (hnone l hl)
  exact ⟨s, hrun, ⟨hregion, hexit⟩, (startup_exclusive hrun).2.2 fun l hl =>
    not_refusesStartup (hnone l hl)⟩

/-- The request for the interfaces times out, and `unlock 1` releases the startup lock. -/
def innerTimeout : List (Label (Fin 2)) :=
  upToInterfaces ++ timedOut 0 .interfaces ++
    [Label.run 0 .work, Label.run 0 .unlock, Label.died .startup] ++ granted 1 .startup

/-- The second run does not get the startup lock. -/
def outerTimeout : List (Label (Fin 2)) := granted 0 .startup ++ timedOut 1 .startup

theorem startup_lock_lost :
    (∃ s, Run Step (initial bothStart) innerTimeout s ∧ Inside s 0 true ∧ Inside s 1 true) ∧
      ∃ s, Run Step (initial bothStart) outerTimeout s ∧ Inside s 0 true ∧ Inside s 1 false := by
  have hinner : (runLabels next innerTimeout (initial bothStart)).map
      (fun s => (((s.runs 0).region, (s.runs 0).prog.isExit),
        ((s.runs 1).region, (s.runs 1).prog.isExit))) =
        some ((some true, false), (some true, false)) := by decide +kernel
  have houter : (runLabels next outerTimeout (initial bothStart)).map
      (fun s => (((s.runs 0).region, (s.runs 0).prog.isExit),
        ((s.runs 1).region, (s.runs 1).prog.isExit))) =
        some ((some true, false), (some false, false)) := by decide +kernel
  obtain ⟨s, hs, hinner⟩ := Option.map_eq_some_iff.1 hinner
  obtain ⟨s', hs', houter⟩ := Option.map_eq_some_iff.1 houter
  simp only [Prod.mk.injEq] at hinner houter
  exact ⟨⟨s, run_of_runLabels hs, hinner.1, hinner.2⟩,
    ⟨s', run_of_runLabels hs', houter.1, houter.2⟩⟩

end StartupLock
