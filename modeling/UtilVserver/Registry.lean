import Mathlib.Logic.Function.Basic
import UtilVserver.Lib.Transition

/-!
# Which vservers run (`src/save_ctxinfo.c`, `scripts/functions`, `scripts/vserver.start`)

A vserver that is started leaves the id of its context in its file `run`, and a link back in the
reverse directory.  Everybody may ask whether a vserver runs, without a lock; who finds that it does
not, removes the file.

* `Context`, `State` — the contexts of the kernel, the files, the starts and the questions.
* `Step` — the start of a vserver, a question (`getVserverStatus`) and the kernel, in any order.
* `Live`, `Saving` — a context with processes that has the name of the vserver; a start that has not
  saved its context yet.
* `Inv` — what holds as long as no question comes upon a start that is saving its context.

Principal results: `step_inv`, `registry_right` and `overlap_loses` (what else comes of it).
-/

set_option autoImplicit false

namespace Registry

open Transition

variable {D : Type}

/-! ## The state -/

/-- A context: its name, which is the directory of a vserver, and its processes. -/
structure Context (D : Type) where
  name : Option D
  tasks : Nat

/-- How far `vserver start` has come behind the lock; the program in the context is `x`. -/
inductive Phase where
  | idle
  | locked
  | checked
  | created (x : Nat)
  | named (x : Nat)
  | opened (x : Nat)
  | written (x : Nat)
  | linked
  /-- The context is gone. -/
  | dead
  deriving DecidableEq

/-- The context that the start is working in. -/
def Phase.context : Phase → Option Nat
  | .created x => some x
  | .named x => some x
  | .opened x => some x
  | .written x => some x
  | _ => none

/-- How far `getVserverStatus` has come: with the content of the file, when the name of the context
is the right one, and when the vserver does not run. -/
inductive Query where
  | read (content : Option Nat)
  | counting (x : Nat)
  | removing

structure State (D : Type) where
  context : Nat → Option (Context D)
  /-- The file `run`; it may be without a number. -/
  run : D → Option (Option Nat)
  rev : Nat → Option D
  phase : D → Phase
  query : Nat → Option (D × Query)

/-- Nothing has been started. -/
def State.empty : State D :=
  ⟨fun _ => none, fun _ => none, fun _ => none, fun _ => .idle, fun _ => none⟩

def State.tasks (s : State D) (x : Nat) : Nat := (s.context x).elim 0 Context.tasks

def State.name (s : State D) (x : Nat) : Option D := (s.context x).bind Context.name

/-- The context has the name of the vserver, and processes. -/
def Live (s : State D) (d : D) (x : Nat) : Prop := s.name x = some d ∧ 0 < s.tasks x

/-- What `isVserverRunning` finds. -/
def status [DecidableEq D] (s : State D) (d : D) : Option Nat :=
  match s.run d with
  | some (some x) => if s.name x = some d ∧ 0 < s.tasks x then some x else none
  | _ => none

/-- The start has made its context and has not written the file. -/
def Saving (s : State D) (d : D) (x : Nat) : Prop := s.phase d = .named x ∨ s.phase d = .opened x

/-- Somebody asks for the vserver. -/
def Asked (s : State D) (d : D) : Prop := ∃ q k, s.query q = some (d, k)

/-! ## The steps -/

inductive Label where
  | plain
  /-- A question and a start that has its file open. -/
  | overlap
  deriving DecidableEq

/-- What the kernel does with a context: a process more, a process less, another program's one. -/
inductive Tick : Option (Context D) → Option (Context D) → Prop
  | fork (c : Context D) (h : 0 < c.tasks) : Tick (some c) (some ⟨c.name, c.tasks + 1⟩)
  | die (c : Context D) : Tick (some c) (some ⟨c.name, c.tasks - 1⟩)
  | other : Tick none (some ⟨none, 1⟩)

def State.setContext (s : State D) (x : Nat) (c : Option (Context D)) : State D :=
  { s with context := Function.update s.context x c }

variable [DecidableEq D]

def State.setPhase (s : State D) (d : D) (p : Phase) : State D :=
  { s with phase := Function.update s.phase d p }

def State.setRun (s : State D) (d : D) (content : Option (Option Nat)) : State D :=
  { s with run := Function.update s.run d content }

def State.setQuery (s : State D) (q : Nat) (k : Option (D × Query)) : State D :=
  { s with query := Function.update s.query q k }

inductive Step : State D → Label → State D → Prop
  -- the kernel
  | tick (s : State D) (x : Nat) (c : Option (Context D)) (h : Tick (s.context x) c) :
      Step s .plain (s.setContext x c)
  | dispose (s : State D) (x : Nat) (h : s.tasks x = 0) :
      Step s .plain { s.setContext x none with
        phase := fun d => if (s.phase d).context = some x then .dead else s.phase d }
  -- `getVserverStatus`
  | read (s : State D) (q : Nat) (d : D) (content : Option Nat) (hq : s.query q = none)
      (h : s.run d = some content) (hquiet : ∀ x, s.phase d ≠ .opened x) :
      Step s .plain (s.setQuery q (some (d, .read content)))
  | readOpened (s : State D) (q : Nat) (d : D) (content : Option Nat) (x : Nat)
      (hq : s.query q = none) (h : s.run d = some content) (hopened : s.phase d = .opened x) :
      Step s .overlap (s.setQuery q (some (d, .read content)))
  | rightName (s : State D) (q : Nat) (d : D) (x : Nat) (hq : s.query q = some (d, .read (some x)))
      (h : s.name x = some d) : Step s .plain (s.setQuery q (some (d, .counting x)))
  | wrongName (s : State D) (q : Nat) (d : D) (content : Option Nat)
      (hq : s.query q = some (d, .read content)) (h : ∀ x, content = some x → s.name x ≠ some d) :
      Step s .plain (s.setQuery q (some (d, .removing)))
  | noTasks (s : State D) (q : Nat) (d : D) (x : Nat) (hq : s.query q = some (d, .counting x))
      (h : s.tasks x = 0) : Step s .plain (s.setQuery q (some (d, .removing)))
  | remove (s : State D) (q : Nat) (d : D) (hq : s.query q = some (d, .removing)) :
      Step s .plain ((s.setRun d none).setQuery q none)
  | finish (s : State D) (q : Nat) : Step s .plain (s.setQuery q none)
  -- `vserver start`
  | lock (s : State D) (d : D) (h : s.phase d = .idle) : Step s .plain (s.setPhase d .locked)
  /-- Nobody else writes the file while the lock is held. -/
  | check (s : State D) (d : D) (h : s.phase d = .locked) (hstatus : status s d = none) :
      Step s .plain ((s.setRun d none).setPhase d .checked)
  | create (s : State D) (d : D) (x : Nat) (h : s.phase d = .checked) (hx : s.context x = none) :
      Step s .plain ((s.setContext x (some ⟨none, 1⟩)).setPhase d (.created x))
  | setName (s : State D) (d : D) (x : Nat) (h : s.phase d = .created x) (hx : 0 < s.tasks x) :
      Step s .plain ((s.setContext x (some ⟨some d, s.tasks x⟩)).setPhase d (.named x))
  -- `save_ctxinfo`
  | open (s : State D) (d : D) (x : Nat) (h : s.phase d = .named x) (hx : 0 < s.tasks x)
      (hsmall : 0 < x ∧ x ≤ 99999) (hexcl : s.run d = none) (hquiet : ¬ Asked s d) :
      Step s .plain ((s.setRun d (some none)).setPhase d (.opened x))
  | openAsked (s : State D) (d : D) (x : Nat) (h : s.phase d = .named x) (hx : 0 < s.tasks x)
      (hsmall : 0 < x ∧ x ≤ 99999) (hexcl : s.run d = none) (hasked : Asked s d) :
      Step s .overlap ((s.setRun d (some none)).setPhase d (.opened x))
  /-- The file may have been removed in the meantime. -/
  | write (s : State D) (d : D) (x : Nat) (h : s.phase d = .opened x) (hx : 0 < s.tasks x) :
      Step s .plain ((s.setRun d ((s.run d).map fun _ => some x)).setPhase d (.written x))
  | link (s : State D) (d : D) (x : Nat) (h : s.phase d = .written x) (hx : 0 < s.tasks x) :
      Step s .plain ({ s with rev := Function.update s.rev x (some d) }.setPhase d .linked)
  -- the end of the start
  | unlock (s : State D) (d : D) (h : (s.phase d).context = none) :
      Step s .plain (s.setPhase d .idle)
  | fail (s : State D) (d : D) (x : Nat) (h : (s.phase d).context = some x) :
      Step s .plain ((s.setContext x ((s.context x).map fun c => ⟨c.name, 0⟩)).setPhase d .idle)

/-! ## What the steps do to the contexts -/

section Contexts

omit [DecidableEq D]

variable {s : State D} {x y : Nat} {d d' : D} {c : Option (Context D)}

theorem name_setContext : (s.setContext x c).name y =
    if y = x then c.bind Context.name else s.name y := by
  unfold State.name State.setContext
  by_cases hy : y = x
  · subst hy
    simp
  · simp [hy]

theorem tasks_setContext : (s.setContext x c).tasks y =
    if y = x then c.elim 0 Context.tasks else s.tasks y := by
  unfold State.tasks State.setContext
  by_cases hy : y = x
  · subst hy
    simp
  · simp [hy]

/-- A context with another one in its place. -/
theorem live_setContext : Live (s.setContext x c) d y ↔
    if y = x then c.bind Context.name = some d ∧ 0 < c.elim 0 Context.tasks else Live s d y := by
  unfold Live
  rw [name_setContext, tasks_setContext]
  split <;> rfl

/-- The kernel brings no context to life that has a name. -/
theorem live_tick (h : Tick (s.context x) c) (hlive : Live (s.setContext x c) d y) :
    Live s d y := by
  rw [live_setContext] at hlive
  split at hlive
  · rename_i hy
    subst hy
    unfold Live State.name State.tasks
    generalize s.context y = c₀ at h
    cases h with
    | fork c h => exact ⟨hlive.1, h⟩
    | die c => exact ⟨hlive.1, Nat.lt_of_lt_of_le hlive.2 (Nat.sub_le _ _)⟩
    | other => cases hlive.1
  · exact hlive

end Contexts

/-! ## The invariant -/

/-- The name of the context that a start works in. -/
def Phase.name (d : D) : Phase → Option D
  | .created _ => none
  | _ => some d

/-- What becomes of a live context of the vserver `d`. -/
def Belongs (s : State D) (d : D) (x : Nat) : Phase → Prop
  | .checked => False
  | .created _ => False
  | .named y => x = y
  | .opened y => x = y
  | .written y => x = y ∧ s.run d = some (some x)
  | _ => s.run d = some (some x) ∧ s.rev x = some d

/-- An id with which `save_ctxinfo` goes on. -/
def Small (x : Nat) : Prop := 0 < x ∧ x ≤ 99999

instance (x : Nat) : Decidable (Small x) := inferInstanceAs (Decidable (_ ∧ _))

/-- What is in the file while the start works on it. -/
def FileOf (s : State D) (d : D) : Phase → Prop
  | .checked => s.run d = none
  | .created _ => s.run d = none
  | .named _ => s.run d = none
  | .opened x => s.run d = some none ∧ ¬ Asked s d ∧ Small x
  | _ => True

/-- What a question knows. -/
def Knows (s : State D) (d : D) : Query → Prop
  | .read content => s.run d = none ∨ s.run d = some content
  | .counting x => s.run d = none ∨ s.run d = some (some x)
  | .removing => ∀ x, s.run d = some (some x) → ¬ Live s d x

/-- The invariant of one vserver. -/
structure Local (s : State D) (d : D) : Prop where
  live : ∀ x, Live s d x → Belongs s d x (s.phase d)
  held : ∀ x, (s.phase d).context = some x → s.context x ≠ none ∧ s.name x = (s.phase d).name d
  file : FileOf s d (s.phase d)
  knows : ∀ q k, s.query q = some (d, k) → Knows s d k
  small : ∀ x, s.run d = some (some x) → Small x

structure Inv (s : State D) : Prop where
  each : ∀ d, Local s d
  apart : ∀ d d' x, (s.phase d).context = some x → (s.phase d').context = some x → d = d'

theorem phase_setPhase (s : State D) (d : D) (p : Phase) (d' : D) :
    (s.setPhase d p).phase d' = if d' = d then p else s.phase d' := by
  unfold State.setPhase
  by_cases hd : d' = d
  · subst hd
    simp
  · simp [hd]

theorem run_setRun (s : State D) (d : D) (content : Option (Option Nat)) (d' : D) :
    (s.setRun d content).run d' = if d' = d then content else s.run d' := by
  unfold State.setRun
  by_cases hd : d' = d
  · subst hd
    simp
  · simp [hd]

section Frames

omit [DecidableEq D]

variable {s s' : State D} {d : D}

theorem inv_empty : Inv (State.empty : State D) where
  each d := {
    live := fun x hx => by cases hx.1
    held := fun x hx => by cases hx
    file := trivial
    knows := fun q k hk => by cases hk
    small := fun x hx => by cases hx }
  apart d d' x hx := by cases hx

theorem belongs_congr {x : Nat} (hrun : s'.run d = s.run d) (hrev : s'.rev x = s.rev x) (p : Phase) :
    Belongs s' d x p ↔ Belongs s d x p := by
  cases p <;> simp only [Belongs, hrun, hrev]

/-- No question about the vserver is new. -/
def Asks (s s' : State D) (d : D) : Prop :=
  ∀ q k, s'.query q = some (d, k) → s.query q = some (d, k)

theorem fileOf_congr (hrun : s'.run d = s.run d) (hquery : Asks s s' d) {p : Phase}
    (h : FileOf s d p) : FileOf s' d p := by
  cases p with
  | opened x =>
    obtain ⟨hempty, hasked, hsmall⟩ := h
    refine ⟨hrun.trans hempty, ?_, hsmall⟩
    rintro ⟨q, k, hk⟩
    exact hasked ⟨q, k, hquery q k hk⟩
  | checked => exact hrun.trans h
  | created x => exact hrun.trans h
  | named x => exact hrun.trans h
  | _ => trivial

/-- What a question knows stays true, also when the file is removed. -/
theorem knows_congr (hrun : s'.run d = s.run d ∨ s'.run d = none)
    (hlive : ∀ x, Live s' d x → Live s d x) {k : Query} (h : Knows s d k) : Knows s' d k := by
  obtain hrun | hrun := hrun
  · cases k with
    | read content => exact h.imp hrun.trans hrun.trans
    | counting x => exact h.imp hrun.trans hrun.trans
    | removing => exact fun x hx hl => h x (hrun.symm.trans hx) (hlive x hl)
  · cases k with
    | read content => exact Or.inl hrun
    | counting x => exact Or.inl hrun
    | removing => exact fun x hx => by rw [hrun] at hx; cases hx

/-- **What a step leaves alone.** -/
theorem Local.frame (h : Local s d) (hphase : s'.phase d = s.phase d) (hrun : s'.run d = s.run d)
    (hquery : Asks s s' d) (hlive : ∀ x, Live s' d x → Live s d x ∧ s'.rev x = s.rev x)
    (hheld : ∀ x, (s.phase d).context = some x → s.context x ≠ none →
      s'.context x ≠ none ∧ s'.name x = s.name x) : Local s' d where
  live x hx := by
    obtain ⟨hx, hrev⟩ := hlive x hx
    rw [hphase]
    exact (belongs_congr hrun hrev _).2 (h.live x hx)
  held x hx := by
    rw [hphase] at hx ⊢
    obtain ⟨hsome, hname⟩ := h.held x hx
    obtain ⟨hsome', hname'⟩ := hheld x hx hsome
    exact ⟨hsome', hname'.trans hname⟩
  file := by
    rw [hphase]
    exact fileOf_congr hrun hquery h.file
  knows q k hk := knows_congr (Or.inl hrun) (fun x hx => (hlive x hx).1) (h.knows q k (hquery q k hk))
  small x hx := h.small x (hrun ▸ hx)

/-- The start works in no context, and has not just found that the vserver does not run. -/
def Rests (p : Phase) : Prop := p = .idle ∨ p = .locked ∨ p = .linked ∨ p = .dead

/-- The start comes to rest; all live contexts have been saved. -/
theorem Local.rest (h : Local s d) (hphase : Rests (s'.phase d)) (hrun : s'.run d = s.run d)
    (hquery : Asks s s' d) (hlive : ∀ x, Live s' d x → Live s d x ∧ s.run d = some (some x) ∧
      s'.rev x = some d) : Local s' d where
  live x hx := by
    obtain ⟨-, hsaved, hrev⟩ := hlive x hx
    obtain hp | hp | hp | hp := hphase <;> rw [hp] <;> exact ⟨hrun.trans hsaved, hrev⟩
  held x hx := by
    obtain hp | hp | hp | hp := hphase <;> rw [hp] at hx <;> cases hx
  file := by
    obtain hp | hp | hp | hp := hphase <;> rw [hp] <;> trivial
  knows q k hk := knows_congr (Or.inl hrun) (fun x hx => (hlive x hx).1) (h.knows q k (hquery q k hk))
  small x hx := h.small x (hrun ▸ hx)

/-- While the start works in no context, all live contexts have been saved. -/
theorem Local.saved (h : Local s d) (hphase : (s.phase d).context = none) {x : Nat}
    (hx : Live s d x) : s.run d = some (some x) ∧ s.rev x = some d := by
  have hbelongs := h.live x hx
  generalize s.phase d = p at hbelongs hphase
  cases p with
  | checked => exact hbelongs.elim
  | created y => cases hphase
  | named y => cases hphase
  | opened y => cases hphase
  | written y => cases hphase
  | _ => exact hbelongs

/-- In the context of a start no other context of the vserver is live. -/
theorem Local.own (h : Local s d) {x y : Nat} (hx : Live s d x) (hy : (s.phase d).context = some y) :
    x = y := by
  have hbelongs := h.live x hx
  generalize s.phase d = p at hbelongs hy
  cases p with
  | created z => exact hbelongs.elim
  | named z => exact hbelongs.trans (Option.some.inj hy)
  | opened z => exact hbelongs.trans (Option.some.inj hy)
  | written z => exact hbelongs.1.trans (Option.some.inj hy)
  | _ => cases hy

end Frames

/-! ## The kernel and the questions -/

section Steps

variable {s : State D} {d d' : D} {x y q : Nat}

omit [DecidableEq D] in
theorem tick_inv (h : Inv s) {c : Option (Context D)} (hc : Tick (s.context x) c) :
    Inv (s.setContext x c) where
  each d := by
    refine (h.each d).frame rfl rfl (fun _ _ hk => hk) (fun y hy => ⟨live_tick hc hy, rfl⟩) ?_
    intro y _ hsome
    rw [name_setContext]
    unfold State.name State.setContext
    by_cases hyx : y = x
    · subst hyx
      simp only [Function.update_self, if_true]
      generalize s.context y = c₀ at hc hsome
      cases hc with
      | fork c _ => exact ⟨Option.some_ne_none _, rfl⟩
      | die c => exact ⟨Option.some_ne_none _, rfl⟩
      | other => exact absurd rfl hsome
    · simpa [hyx] using hsome
  apart := h.apart

omit [DecidableEq D] in
/-- The processes of a context are gone: its start is dead, and the others do not know it. -/
theorem dispose_inv (h : Inv s) (x : Nat) :
    Inv { s.setContext x none with
      phase := fun d => if (s.phase d).context = some x then .dead else s.phase d } where
  each d := by
    have hlive : ∀ y, Live (s.setContext x none) d y → y ≠ x ∧ Live s d y := by
      intro y hy
      rw [live_setContext] at hy
      split at hy
      · cases hy.1
      · exact ⟨‹_›, hy⟩
    by_cases hd : (s.phase d).context = some x
    · refine (h.each d).rest (Or.inr (Or.inr (Or.inr (if_pos hd)))) rfl (fun _ _ hk => hk) ?_
      intro y hy
      obtain ⟨hne, hy⟩ := hlive y hy
      exact absurd ((h.each d).own hy hd) hne
    · refine (h.each d).frame (if_neg hd) rfl (fun _ _ hk => hk)
        (fun y hy => ⟨(hlive y hy).2, rfl⟩) ?_
      intro y hy hsome
      have hne : y ≠ x := by
        rintro rfl
        exact hd hy
      refine ⟨?_, ?_⟩
      · unfold State.setContext
        simpa [hne] using hsome
      · exact (name_setContext (s := s) (c := none)).trans (if_neg hne)
  apart d d' y hy hy' := by
    dsimp only at hy hy'
    split at hy
    · cases hy
    split at hy'
    · cases hy'
    exact h.apart d d' y hy hy'

omit [DecidableEq D] in
theorem query_setQuery (s : State D) (q : Nat) (k : Option (D × Query)) (q' : Nat) :
    (s.setQuery q k).query q' = if q' = q then k else s.query q' := by
  unfold State.setQuery
  by_cases hq : q' = q
  · subst hq
    simp
  · simp [hq]

omit [DecidableEq D] in
/-- A question goes on. -/
theorem setQuery_inv (h : Inv s) (k : Option (D × Query)) (q : Nat)
    (hknows : ∀ d k', k = some (d, k') → Knows s d k' ∧ (Asked s d ∨ ∀ x, s.phase d ≠ .opened x)) :
    Inv (s.setQuery q k) where
  each d := {
    live := (h.each d).live
    held := (h.each d).held
    file := by
      have hfile := (h.each d).file
      have hphase : (s.setQuery q k).phase d = s.phase d := rfl
      rw [hphase]
      generalize hp : s.phase d = p at hfile
      cases p with
      | opened x =>
        obtain ⟨hempty, hasked, hsmall⟩ := hfile
        refine ⟨hempty, ?_, hsmall⟩
        rintro ⟨q', k', hk⟩
        rw [query_setQuery] at hk
        split at hk
        · obtain ha | hn := (hknows d k' hk).2
          · exact hasked ha
          · exact hn x hp
        · exact hasked ⟨q', k', hk⟩
      | _ => exact hfile
    knows := fun q' k' hk => by
      rw [query_setQuery] at hk
      split at hk
      · exact (hknows d k' hk).1
      · exact (h.each d).knows q' k' hk
    small := (h.each d).small }
  apart := h.apart

/-- The file of a vserver that does not run is removed. -/
theorem remove_inv (h : Inv s) (hq : s.query q = some (d, .removing)) :
    Inv ((s.setRun d none).setQuery q none) := by
  have hdead := (h.each d).knows q .removing hq
  have hasks : ∀ d', Asks s ((s.setRun d none).setQuery q none) d' := by
    intro d' q' k hk
    rw [query_setQuery] at hk
    split at hk
    · cases hk
    · exact hk
  have hrun := run_setRun s d none
  refine ⟨fun d' => ?_, h.apart⟩
  by_cases hd : d' = d
  · subst hd
    have hnone : ((s.setRun d' none).setQuery q none).run d' = none := (hrun d').trans (if_pos rfl)
    exact {
      live := fun y hy => by
        have hbelongs := (h.each d').live y hy
        have hnot : s.run d' ≠ some (some y) := fun hr => hdead y hr hy
        have hphase : ((s.setRun d' none).setQuery q none).phase d' = s.phase d' := rfl
        rw [hphase]
        generalize s.phase d' = p at hbelongs
        cases p with
        | checked => exact hbelongs
        | created z => exact hbelongs
        | named z => exact hbelongs
        | opened z => exact hbelongs
        | written z => exact absurd hbelongs.2 hnot
        | _ => exact absurd hbelongs.1 hnot
      held := (h.each d').held
      file := by
        have hfile := (h.each d').file
        have hphase : ((s.setRun d' none).setQuery q none).phase d' = s.phase d' := rfl
        rw [hphase]
        generalize s.phase d' = p at hfile
        cases p with
        | checked => exact hnone
        | created z => exact hnone
        | named z => exact hnone
        | opened z => exact absurd ⟨q, _, hq⟩ hfile.2.1
        | _ => trivial
      knows := fun q' k hk =>
        knows_congr (s := s) (Or.inr hnone) (fun _ hx => hx)
          ((h.each d').knows q' k (hasks d' q' k hk))
      small := fun y hy => by rw [hnone] at hy; cases hy }
  · exact (h.each d').frame rfl ((hrun d').trans (if_neg hd)) (hasks d') (fun _ hx => ⟨hx, rfl⟩)
      fun _ _ hsome => ⟨hsome, rfl⟩

/-! ## The start -/

theorem apart_setPhase (h : Inv s) {p : Phase}
    (hp : ∀ x, p.context = some x → ∀ d', (s.phase d').context = some x → d' = d) (d₁ d₂ : D)
    (x : Nat) (h₁ : ((s.setPhase d p).phase d₁).context = some x)
    (h₂ : ((s.setPhase d p).phase d₂).context = some x) : d₁ = d₂ := by
  rw [phase_setPhase] at h₁ h₂
  split at h₁
  · rename_i hd₁
    split at h₂
    · rename_i hd₂
      rw [hd₁, hd₂]
    · rw [hd₁, hp x h₁ d₂ h₂]
  · split at h₂
    · rename_i hd₂
      rw [hd₂, hp x h₂ d₁ h₁]
    · exact h.apart d₁ d₂ x h₁ h₂

/-- The start takes the lock, or it gives it back. -/
theorem rest_inv (h : Inv s) (hold : (s.phase d).context = none) {p : Phase} (hp : Rests p) :
    Inv (s.setPhase d p) where
  each d' := by
    by_cases hd : d' = d
    · subst hd
      refine (h.each d').rest (by rw [phase_setPhase, if_pos rfl]; exact hp) rfl
        (fun _ _ hk => hk) fun x hx => ⟨hx, (h.each d').saved hold hx⟩
    · exact (h.each d').frame (by rw [phase_setPhase, if_neg hd]) rfl (fun _ _ hk => hk)
        (fun _ hx => ⟨hx, rfl⟩) fun _ _ hsome => ⟨hsome, rfl⟩
  apart := apart_setPhase h fun x hx => by
    obtain rfl | rfl | rfl | rfl := hp <;> cases hx

/-- The check finds no live context. -/
theorem check_inv (h : Inv s) (hp : s.phase d = .locked) (hstatus : status s d = none) :
    Inv ((s.setRun d none).setPhase d .checked) := by
  have hdead : ∀ x, ¬ Live s d x := by
    intro x hx
    have hsaved := ((h.each d).saved (by rw [hp]; rfl) hx).1
    unfold status at hstatus
    have hlive : s.name x = some d ∧ 0 < s.tasks x := hx
    rw [hsaved] at hstatus
    dsimp only at hstatus
    rw [if_pos hlive] at hstatus
    cases hstatus
  have hrun := run_setRun s d none
  have hphase := phase_setPhase (s.setRun d none) d .checked
  refine ⟨fun d' => ?_, ?_⟩
  · by_cases hd : d' = d
    · subst hd
      have hnone : ((s.setRun d' none).setPhase d' .checked).run d' = none :=
        (hrun d').trans (if_pos rfl)
      have hchecked := (hphase d').trans (if_pos rfl)
      exact {
        live := fun x hx => absurd hx (hdead x)
        held := fun x hx => by rw [hchecked] at hx; cases hx
        file := by
          rw [hchecked]
          exact hnone
        knows := fun q k hk =>
          knows_congr (s := s) (Or.inr hnone) (fun _ hx => hx) ((h.each d').knows q k hk)
        small := fun x hx => by rw [hnone] at hx; cases hx }
    · exact (h.each d').frame ((hphase d').trans (if_neg hd)) ((hrun d').trans (if_neg hd))
        (fun _ _ hk => hk) (fun _ hx => ⟨hx, rfl⟩) fun _ _ hsome => ⟨hsome, rfl⟩
  · exact fun d₁ d₂ x h₁ h₂ =>
      apart_setPhase h (p := .checked) (fun x hx => by cases hx) d₁ d₂ x h₁ h₂

/-- A context is made. -/
theorem create_inv (h : Inv s) (hp : s.phase d = .checked) (hx : s.context x = none) :
    Inv ((s.setContext x (some ⟨none, 1⟩)).setPhase d (.created x)) := by
  have hphase := phase_setPhase (s.setContext x (some ⟨none, 1⟩)) d (.created x)
  have hlive : ∀ d' y, Live ((s.setContext x (some ⟨none, 1⟩)).setPhase d (.created x)) d' y →
      Live s d' y := by
    intro d' y hy
    have hy : Live (s.setContext x (some ⟨none, 1⟩)) d' y := hy
    rw [live_setContext] at hy
    split at hy
    · cases hy.1
    · exact hy
  have hheld : ∀ d', (s.phase d').context ≠ some x := fun d' hd' => ((h.each d').held x hd').1 hx
  refine ⟨fun d' => ?_, ?_⟩
  · by_cases hd : d' = d
    · subst hd
      have hcreated := (hphase d').trans (if_pos rfl)
      have hdead : ∀ y, ¬ Live s d' y := fun y hy => by
        have hbelongs := (h.each d').live y hy
        rw [hp] at hbelongs
        exact hbelongs
      have hfile := (h.each d').file
      rw [hp] at hfile
      exact {
        live := fun y hy => absurd (hlive d' y hy) (hdead y)
        held := fun y hy => by
          rw [hcreated] at hy ⊢
          obtain rfl := Option.some.inj hy
          refine ⟨?_, ?_⟩
          · show Function.update s.context x (some ⟨none, 1⟩) x ≠ none
            rw [Function.update_self]
            exact Option.some_ne_none _
          · exact (name_setContext (s := s) (c := some ⟨none, 1⟩)).trans (if_pos rfl)
        file := by
          rw [hcreated]
          exact hfile
        knows := fun q k hk => by
          refine knows_congr ?_ (hlive d') ((h.each d').knows q k hk)
          exact Or.inl rfl
        small := (h.each d').small }
    · refine (h.each d').frame ((hphase d').trans (if_neg hd)) rfl (fun _ _ hk => hk)
        (fun y hy => ⟨hlive d' y hy, rfl⟩) fun y hy hsome => ?_
      have hne : y ≠ x := by
        rintro rfl
        exact hheld d' hy
      refine ⟨?_, ?_⟩
      · show Function.update s.context x (some ⟨none, 1⟩) y ≠ none
        rwa [Function.update_of_ne hne]
      · exact (name_setContext (s := s) (c := some ⟨none, 1⟩)).trans (if_neg hne)
  · refine fun d₁ d₂ y h₁ h₂ =>
      apart_setPhase h (p := .created x) (fun y hy d' hd' => ?_) d₁ d₂ y h₁ h₂
    obtain rfl := Option.some.inj hy
    exact absurd hd' (hheld d')

/-- The start goes on in its context `x`. -/
theorem apart_goes (h : Inv s) {p : Phase} (hp : (s.phase d).context = some x)
    (hp' : p.context = some x ∨ p.context = none) (d₁ d₂ : D) (y : Nat)
    (h₁ : ((s.setPhase d p).phase d₁).context = some y)
    (h₂ : ((s.setPhase d p).phase d₂).context = some y) : d₁ = d₂ := by
  refine apart_setPhase h (fun z hz d' hd' => ?_) d₁ d₂ y h₁ h₂
  obtain hp' | hp' := hp'
  · rw [hp'] at hz
    obtain rfl := Option.some.inj hz
    exact h.apart d' d x hd' hp
  · rw [hp'] at hz
    cases hz

/-- The context gets the name of the vserver. -/
theorem setName_inv (h : Inv s) (hp : s.phase d = .created x) :
    Inv ((s.setContext x (some ⟨some d, s.tasks x⟩)).setPhase d (.named x)) := by
  have hcontext : (s.phase d).context = some x := by rw [hp]; rfl
  have hphase := phase_setPhase (s.setContext x (some ⟨some d, s.tasks x⟩)) d (.named x)
  have hlive : ∀ d' y,
      Live ((s.setContext x (some ⟨some d, s.tasks x⟩)).setPhase d (.named x)) d' y →
      d' = d ∧ y = x ∨ y ≠ x ∧ Live s d' y := by
    intro d' y hy
    have hy : Live (s.setContext x (some ⟨some d, s.tasks x⟩)) d' y := hy
    rw [live_setContext] at hy
    split at hy
    · exact Or.inl ⟨(Option.some.inj hy.1).symm, ‹_›⟩
    · exact Or.inr ⟨‹_›, hy⟩
  have hdead : ∀ y, ¬ Live s d y := fun y hy => by
    have hbelongs := (h.each d).live y hy
    rw [hp] at hbelongs
    exact hbelongs
  have hfile := (h.each d).file
  rw [hp] at hfile
  have hname := fun y => name_setContext (s := s) (x := x) (y := y) (c := some ⟨some d, s.tasks x⟩)
  refine ⟨fun d' => ?_, apart_goes (s := s) h hcontext (Or.inl rfl)⟩
  by_cases hd : d' = d
  · subst hd
    have hnamed := (hphase d').trans (if_pos rfl)
    exact {
      live := fun y hy => by
        rw [hnamed]
        obtain ⟨-, rfl⟩ | ⟨-, hy⟩ := hlive d' y hy
        · exact rfl
        · exact absurd hy (hdead y)
      held := fun y hy => by
        rw [hnamed] at hy ⊢
        obtain rfl := Option.some.inj hy
        refine ⟨?_, (hname x).trans (if_pos rfl)⟩
        show Function.update s.context x (some ⟨some d', s.tasks x⟩) x ≠ none
        rw [Function.update_self]
        exact Option.some_ne_none _
      file := by
        rw [hnamed]
        exact hfile
      knows := fun q k hk => by
        have hknows := (h.each d').knows q k hk
        cases k with
        | removing =>
          intro y hy
          have hy : s.run d' = some (some y) := hy
          have hnone : s.run d' = none := hfile
          rw [hnone] at hy
          cases hy
        | read content => exact hknows
        | counting y => exact hknows
      small := (h.each d').small }
  · refine (h.each d').frame ((hphase d').trans (if_neg hd)) rfl (fun _ _ hk => hk) ?_ ?_
    · intro y hy
      obtain ⟨heq, -⟩ | ⟨-, hy⟩ := hlive d' y hy
      · exact absurd heq hd
      · exact ⟨hy, rfl⟩
    · intro y hy hsome
      have hne : y ≠ x := by
        rintro rfl
        exact hd (h.apart d' d y hy hcontext)
      refine ⟨?_, (hname y).trans (if_neg hne)⟩
      show Function.update s.context x (some ⟨some d, s.tasks x⟩) y ≠ none
      rwa [Function.update_of_ne hne]

/-- The start writes into its file. -/
theorem file_inv (h : Inv s) (hcontext : (s.phase d).context = some x) {p : Phase}
    {content : Option (Option Nat)} (hasked : ¬ Asked s d)
    (hp : p = .opened x ∧ content = some none ∨ p = .written x ∧ content = some (some x))
    (hnamed : s.name x = some d) (hsmall : Small x) : Inv ((s.setRun d content).setPhase d p) := by
  have hrun := run_setRun s d content
  have hphase := phase_setPhase (s.setRun d content) d p
  have hp' : p.context = some x := by
    obtain ⟨rfl, -⟩ | ⟨rfl, -⟩ := hp <;> rfl
  refine ⟨fun d' => ?_, apart_goes (s := s) h hcontext (Or.inl hp')⟩
  by_cases hd : d' = d
  · subst hd
    have hp₁ := (hphase d').trans (if_pos rfl)
    have hrun₁ : ((s.setRun d' content).setPhase d' p).run d' = content :=
      (hrun d').trans (if_pos rfl)
    exact {
      live := fun y hy => by
        obtain rfl := (h.each d').own hy hcontext
        rw [hp₁]
        obtain ⟨rfl, rfl⟩ | ⟨rfl, rfl⟩ := hp
        · exact rfl
        · exact ⟨rfl, hrun₁⟩
      held := fun y hy => by
        rw [hp₁] at hy ⊢
        obtain rfl := Option.some.inj (hp'.symm.trans hy)
        refine ⟨((h.each d').held x hcontext).1, hnamed.trans ?_⟩
        obtain ⟨rfl, -⟩ | ⟨rfl, -⟩ := hp <;> rfl
      file := by
        rw [hp₁]
        obtain ⟨rfl, rfl⟩ | ⟨rfl, rfl⟩ := hp
        · exact ⟨hrun₁, hasked, hsmall⟩
        · trivial
      knows := fun q k hk => absurd ⟨q, k, hk⟩ hasked
      small := fun y hy => by
        rw [hrun₁] at hy
        obtain ⟨-, rfl⟩ | ⟨-, rfl⟩ := hp
        · cases hy
        · cases hy
          exact hsmall }
  · exact (h.each d').frame ((hphase d').trans (if_neg hd)) ((hrun d').trans (if_neg hd))
      (fun _ _ hk => hk) (fun _ hx => ⟨hx, rfl⟩) fun _ _ hsome => ⟨hsome, rfl⟩

/-- The link back; the program of the guest is executed. -/
theorem link_inv (h : Inv s) (hp : s.phase d = .written x) :
    Inv ({ s with rev := Function.update s.rev x (some d) }.setPhase d .linked) := by
  have hcontext : (s.phase d).context = some x := by rw [hp]; rfl
  have hphase := phase_setPhase { s with rev := Function.update s.rev x (some d) } d .linked
  have hname := ((h.each d).held x hcontext).2
  rw [hp] at hname
  refine ⟨fun d' => ?_, apart_goes (s := s) h hcontext (Or.inr rfl)⟩
  by_cases hd : d' = d
  · subst hd
    refine (h.each d').rest
      (by rw [(hphase d').trans (if_pos rfl)]; exact Or.inr (Or.inr (Or.inl rfl))) rfl
      (fun _ _ hk => hk) fun y hy => ?_
    have hy : Live s d' y := hy
    have hbelongs := (h.each d').live y hy
    rw [hp] at hbelongs
    obtain ⟨rfl, hsaved⟩ := hbelongs
    exact ⟨hy, hsaved, Function.update_self _ _ _⟩
  · refine (h.each d').frame ((hphase d').trans (if_neg hd)) rfl (fun _ _ hk => hk) ?_
      fun _ _ hsome => ⟨hsome, rfl⟩
    intro y hy
    have hy : Live s d' y := hy
    have hne : y ≠ x := by
      rintro rfl
      exact hd (Option.some.inj (hy.1.symm.trans hname))
    exact ⟨hy, Function.update_of_ne hne _ _⟩

/-- The start fails in its context. -/
theorem fail_inv (h : Inv s) (hcontext : (s.phase d).context = some x) :
    Inv ((s.setContext x ((s.context x).map fun c => ⟨c.name, 0⟩)).setPhase d .idle) := by
  have hphase :=
    phase_setPhase (s.setContext x ((s.context x).map fun c => ⟨c.name, 0⟩)) d .idle
  have hlive : ∀ d' y, Live ((s.setContext x ((s.context x).map fun c => ⟨c.name, 0⟩)).setPhase d
      .idle) d' y → y ≠ x ∧ Live s d' y := by
    intro d' y hy
    have hy : Live (s.setContext x ((s.context x).map fun c => ⟨c.name, 0⟩)) d' y := hy
    rw [live_setContext] at hy
    split at hy
    · obtain ⟨-, htasks⟩ := hy
      cases hc : s.context x with
      | none => simp [hc] at htasks
      | some c => simp [hc] at htasks
    · exact ⟨‹_›, hy⟩
  refine ⟨fun d' => ?_, apart_goes (s := s) h hcontext (Or.inr rfl)⟩
  by_cases hd : d' = d
  · subst hd
    refine (h.each d').rest (by rw [(hphase d').trans (if_pos rfl)]; exact Or.inl rfl) rfl
      (fun _ _ hk => hk) fun y hy => ?_
    obtain ⟨hne, hy⟩ := hlive d' y hy
    exact absurd ((h.each d').own hy hcontext) hne
  · refine (h.each d').frame ((hphase d').trans (if_neg hd)) rfl (fun _ _ hk => hk)
      (fun y hy => ⟨(hlive d' y hy).2, rfl⟩) fun y hy hsome => ?_
    have hne : y ≠ x := by
      rintro rfl
      exact hd (h.apart d' d y hy hcontext)
    refine ⟨?_, ?_⟩
    · show Function.update s.context x _ y ≠ none
      rwa [Function.update_of_ne hne]
    · exact (name_setContext (s := s)).trans (if_neg hne)

/-- **A step without an overlap keeps the invariant.** -/
theorem step_inv {s' : State D} (hstep : Step s .plain s') (h : Inv s) : Inv s' := by
  cases hstep with
  | tick x c hc => exact tick_inv h hc
  | dispose x hx => exact dispose_inv h x
  | read q d content hq hrun hquiet =>
    refine setQuery_inv h _ q fun d' k' hk => ?_
    obtain ⟨rfl, rfl⟩ := Prod.mk.inj (Option.some.inj hk)
    exact ⟨Or.inr hrun, Or.inr hquiet⟩
  | rightName q d x hq hname =>
    refine setQuery_inv h _ q fun d' k' hk => ?_
    obtain ⟨rfl, rfl⟩ := Prod.mk.inj (Option.some.inj hk)
    have hknows : Knows s d (.read (some x)) := (h.each d).knows q _ hq
    exact ⟨hknows, Or.inl ⟨q, _, hq⟩⟩
  | wrongName q d content hq hname =>
    refine setQuery_inv h _ q fun d' k' hk => ?_
    obtain ⟨rfl, rfl⟩ := Prod.mk.inj (Option.some.inj hk)
    refine ⟨fun x hx hlive => ?_, Or.inl ⟨q, _, hq⟩⟩
    obtain hnone | hcontent := (h.each d).knows q _ hq
    · rw [hnone] at hx
      cases hx
    · rw [hcontent] at hx
      exact hname x (Option.some.inj hx) hlive.1
  | noTasks q d x hq htasks =>
    refine setQuery_inv h _ q fun d' k' hk => ?_
    obtain ⟨rfl, rfl⟩ := Prod.mk.inj (Option.some.inj hk)
    refine ⟨fun y hy hlive => ?_, Or.inl ⟨q, _, hq⟩⟩
    obtain hnone | hcontent := (h.each d).knows q _ hq
    · rw [hnone] at hy
      cases hy
    · rw [hcontent] at hy
      obtain rfl := Option.some.inj (Option.some.inj hy)
      exact absurd hlive.2 (by rw [htasks]; exact Nat.lt_irrefl 0)
  | remove q d hq => exact remove_inv h hq
  | finish q => exact setQuery_inv h _ q fun d' k' hk => by cases hk
  | lock d hp => exact rest_inv h (by rw [hp]; rfl) (Or.inr (Or.inl rfl))
  | check d hp hstatus => exact check_inv h hp hstatus
  | create d x hp hx => exact create_inv h hp hx
  | setName d x hp hx => exact setName_inv h hp
  | «open» d x hp hx hsmall hexcl hquiet =>
    have hcontext : (s.phase d).context = some x := by rw [hp]; rfl
    have hname := ((h.each d).held x hcontext).2
    rw [hp] at hname
    exact file_inv h hcontext hquiet (Or.inl ⟨rfl, rfl⟩) hname hsmall
  | write d x hp hx =>
    have hcontext : (s.phase d).context = some x := by rw [hp]; rfl
    have hname := ((h.each d).held x hcontext).2
    have hfile := (h.each d).file
    rw [hp] at hname hfile
    obtain ⟨hempty, hasked, hsmall⟩ := hfile
    rw [hempty]
    exact file_inv h hcontext hasked (Or.inr ⟨rfl, rfl⟩) hname hsmall
  | link d x hp hx => exact link_inv h hp
  | unlock d hp => exact rest_inv h hp (Or.inl rfl)
  | fail d x hp => exact fail_inv h hp

end Steps

/-! ## Whole runs -/

theorem run_inv {ls : List Label} {s : State D} (hrun : Run Step State.empty ls s)
    (hquiet : ∀ l ∈ ls, l = .plain) : Inv s := by
  refine Run.invariant_of (P := fun l => l = .plain) ?_ hrun hquiet inv_empty
  rintro s l s' h rfl hstep
  exact step_inv hstep h

omit [DecidableEq D] in
/-- At most one context of a vserver is live. -/
theorem Local.unique {s : State D} {d : D} (h : Local s d) {x y : Nat} (hx : Live s d x)
    (hy : Live s d y) : x = y := by
  have hbx := h.live x hx
  have hby := h.live y hy
  generalize s.phase d = p at hbx hby
  cases p with
  | checked => exact hbx.elim
  | created z => exact hbx.elim
  | named z => exact hbx.trans hby.symm
  | opened z => exact hbx.trans hby.symm
  | written z => exact hbx.1.trans hby.1.symm
  | _ => exact Option.some.inj (Option.some.inj (hbx.1.symm.trans hby.1))

theorem status_some {s : State D} {d : D} {x : Nat} :
    status s d = some x ↔ s.run d = some (some x) ∧ Live s d x := by
  unfold status Live
  split
  · rename_i y hy
    split
    · rename_i hlive
      rw [hy]
      constructor
      · intro h
        obtain rfl := Option.some.inj h
        exact ⟨rfl, hlive⟩
      · rintro ⟨h, -⟩
        exact Option.some.inj h
    · rename_i hdead
      rw [hy]
      refine ⟨fun h => (by cases h), ?_⟩
      rintro ⟨h, hlive⟩
      obtain rfl := Option.some.inj (Option.some.inj h)
      exact absurd hlive hdead
  · rename_i hnone
    exact ⟨fun h => (by cases h), fun h => absurd h.1 (hnone x)⟩

/-- Unless its start is saving it, a live context is in the file. -/
theorem Local.found {s : State D} {d : D} (h : Local s d) (hsaving : ∀ x, ¬ Saving s d x)
    (x : Nat) : status s d = some x ↔ Live s d x := by
  rw [status_some]
  refine ⟨And.right, fun hx => ⟨?_, hx⟩⟩
  have hbelongs := h.live x hx
  unfold Saving at hsaving
  generalize s.phase d = p at hbelongs hsaving
  cases p with
  | checked => exact hbelongs.elim
  | created z => exact hbelongs.elim
  | named z => exact absurd (Or.inl rfl) (hsaving z)
  | opened z => exact absurd (Or.inr rfl) (hsaving z)
  | written z => exact hbelongs.2
  | _ => exact hbelongs.1

/-- **Which vservers run**: in every run in which no question comes upon a start that has its file
open, a vserver has one live context at most; between the starts, and as soon as the start has
written its file, `isVserverRunning` finds exactly that one; and when the start works in no
context, the link back from its id leads to the vserver. -/
theorem registry_right {ls : List Label} {s : State D} (hrun : Run Step State.empty ls s)
    (hquiet : ∀ l ∈ ls, l = .plain) :
    (∀ d x y, Live s d x → Live s d y → x = y) ∧
    (∀ d, (∀ x, ¬ Saving s d x) → ∀ x, status s d = some x ↔ Live s d x) ∧
    (∀ d x, (s.phase d).context = none → Live s d x → s.rev x = some d) ∧
    ∀ d x, s.run d = some (some x) → 0 < x ∧ x ≤ 99999 := by
  have h := run_inv hrun hquiet
  refine ⟨fun d x y hx hy => (h.each d).unique hx hy,
    fun d hsaving => (h.each d).found hsaving, ?_, ?_⟩
  · exact fun d x hphase hx => ((h.each d).saved hphase hx).2
  · exact fun d x hx => (h.each d).small x hx

/-! ## A start by itself, and a start with a question -/

section Starts

variable {s : State D} {d : D} {x : Nat}

/-- What the start does up to the file, in an unused context. -/
def State.prepared (s : State D) (d : D) (x : Nat) : State D :=
  ((s.setRun d none).setContext x (some ⟨some d, 1⟩)).setPhase d (.named x)

/-- What the start does from then on, with the file as it is left. -/
def State.started (s : State D) (d : D) (x : Nat) (content : Option (Option Nat)) : State D :=
  { s.setRun d content with rev := Function.update s.rev x (some d) }.setPhase d .idle

theorem prepare_run (hidle : s.phase d = .idle) (hstatus : status s d = none)
    (hx : s.context x = none) :
    Run Step s [.plain, .plain, .plain, .plain] (s.prepared d x) := by
  have hlock := Run.single (Step.lock s d hidle)
  have hcheck := Step.check (s.setPhase d .locked) d (by simp [State.setPhase]) hstatus
  have hcreate := Step.create (((s.setPhase d .locked).setRun d none).setPhase d .checked) d x
    (by simp [State.setPhase]) hx
  have hname := Step.setName (((((s.setPhase d .locked).setRun d none).setPhase d .checked).setContext
    x (some ⟨none, 1⟩)).setPhase d (.created x)) d x (by simp [State.setPhase])
    (by simp [State.setPhase, State.setContext, State.tasks])
  have hrun := ((hlock.snoc hcheck).snoc hcreate).snoc hname
  simpa [State.prepared, State.setPhase, State.setRun, State.setContext, State.tasks] using hrun

/-- The number gets into the file only if it is still there. -/
theorem save_run (hopened : s.phase d = .opened x) (hx : 0 < s.tasks x) :
    Run Step s [.plain, .plain, .plain] (s.started d x ((s.run d).map fun _ => some x)) := by
  have hwrite := Run.single (Step.write s d x hopened hx)
  have hlink := Step.link ((s.setRun d ((s.run d).map fun _ => some x)).setPhase d (.written x)) d x
    (by simp [State.setPhase]) hx
  have hunlock := Step.unlock ({ (s.setRun d ((s.run d).map fun _ => some x)).setPhase d
    (.written x) with rev := Function.update s.rev x (some d) }.setPhase d .linked) d
    (by simp [State.setPhase, Phase.context])
  have hrun := (hwrite.snoc hlink).snoc hunlock
  simpa [State.started, State.setPhase, State.setRun] using hrun

theorem tasks_prepared : 0 < (s.prepared d x).tasks x := by
  simp [State.prepared, State.setPhase, State.setContext, State.tasks]

theorem live_prepared : Live (s.prepared d x) d x := by
  simp [Live, State.prepared, State.setPhase, State.setContext, State.tasks, State.name]

/-- What a start by itself comes to. -/
def State.running (s : State D) (d : D) (x : Nat) : State D :=
  (((s.prepared d x).setRun d (some none)).setPhase d (.opened x)).started d x (some (some x))

/-- **A start by itself** saves its context. -/
theorem start_run (hidle : s.phase d = .idle) (hstatus : status s d = none)
    (hx : s.context x = none) (hsmall : Small x) (hquiet : ¬ Asked s d) :
    ∃ ls, Run Step s ls (s.running d x) ∧ ∀ l ∈ ls, l = .plain := by
  have hprep := prepare_run hidle hstatus hx
  have hopen := Step.open (s.prepared d x) d x (by simp [State.prepared, State.setPhase])
    tasks_prepared hsmall
    (by simp [State.prepared, State.setPhase, State.setContext, State.setRun]) hquiet
  have hsave := @save_run D _ (((s.prepared d x).setRun d (some none)).setPhase d (.opened x)) d x
    (by simp [State.setPhase]) (@tasks_prepared D _ s d x)
  have hfile : ((((s.prepared d x).setRun d (some none)).setPhase d (.opened x)).run d).map
      (fun _ => some x) = some (some x) := by
    simp [State.setPhase, State.setRun]
  rw [hfile] at hsave
  exact ⟨_, (hprep.snoc hopen).trans hsave, by simp⟩

/-- A question about a vserver that does not run comes to the point where it removes the file. -/
theorem ask_run (hidle : s.phase d = .idle) {content : Option Nat} (hrun : s.run d = some content)
    (hstatus : status s d = none) {q : Nat} (hq : s.query q = none) :
    ∃ ls, Run Step s ls (s.setQuery q (some (d, .removing))) := by
  have hread := Run.single (Step.read s q d content hq hrun (by simp [hidle]))
  by_cases hname : ∃ x, content = some x ∧ s.name x = some d
  · obtain ⟨x, rfl, hname⟩ := hname
    have htasks : s.tasks x = 0 := by
      by_contra hpos
      have hlive := status_some.2 ⟨hrun, hname, Nat.pos_of_ne_zero hpos⟩
      rw [hstatus] at hlive
      cases hlive
    have hright := Step.rightName (s.setQuery q (some (d, .read (some x)))) q d x
      (by simp [State.setQuery]) hname
    have hnone := Step.noTasks ((s.setQuery q (some (d, .read (some x)))).setQuery q
      (some (d, .counting x))) q d x (by simp [State.setQuery]) htasks
    have hrun := (hread.snoc hright).snoc hnone
    exact ⟨_, by simpa [State.setQuery] using hrun⟩
  · have hwrong := Step.wrongName (s.setQuery q (some (d, .read content))) q d content
      (by simp [State.setQuery]) fun x hx hname' => hname ⟨x, hx, hname'⟩
    have hrun := hread.snoc hwrong
    exact ⟨_, by simpa [State.setQuery] using hrun⟩

/-- A start with a question about the vserver as it was: the file of the vserver that runs now is
removed. -/
theorem overlap_loses (hidle : s.phase d = .idle) {content : Option Nat}
    (hrun : s.run d = some content) (hstatus : status s d = none)
    (hx : s.context x = none) (hsmall : Small x) {q : Nat} (hq : s.query q = none) :
    ∃ ls s', Run Step s ls s' ∧ s'.phase d = .idle ∧ Live s' d x ∧ status s' d = none := by
  obtain ⟨ls, hask⟩ := ask_run hidle hrun hstatus hq
  generalize ht : s.setQuery q (some (d, .removing)) = t at hask
  have hquery : t.query q = some (d, .removing) := by
    rw [← ht, query_setQuery, if_pos rfl]
  have hprep := prepare_run (s := t) (d := d) (x := x) (by rw [← ht]; exact hidle)
    (by rw [← ht]; exact hstatus) (by rw [← ht]; exact hx)
  have hopen := Step.openAsked (t.prepared d x) d x (by simp [State.prepared, State.setPhase])
    tasks_prepared hsmall
    (by simp [State.prepared, State.setPhase, State.setContext, State.setRun]) ⟨q, _, hquery⟩
  have hremove :=
    Step.remove (((t.prepared d x).setRun d (some none)).setPhase d (.opened x)) q d hquery
  have hsave := @save_run D _ (((((t.prepared d x).setRun d (some none)).setPhase d
    (.opened x)).setRun d none).setQuery q none) d x
    (by simp [State.setPhase, State.setQuery, State.setRun])
    (@tasks_prepared D _ t d x)
  refine ⟨_, _, hask.trans (((hprep.snoc hopen).snoc hremove).trans hsave), ?_,
    @live_prepared D _ t d x, ?_⟩
  · simp [State.started, State.setPhase]
  · simp [status, State.started, State.setPhase, State.setRun, State.setQuery]

end Starts

/-- One vserver has been started, and somebody asks for it. -/
def oneAsked : State Bool := ((State.empty.running true 9).setQuery 0 (some (true, .read (some 9))))

/-- Two starts; the second one while somebody asks for the first vserver. -/
theorem registry_right_started : ∃ ls, Run Step State.empty ls (oneAsked.running false 10) ∧
    (∀ l ∈ ls, l = .plain) ∧
    status (oneAsked.running false 10) true = some 9 ∧
    status (oneAsked.running false 10) false = some 10 ∧
    (oneAsked.running false 10).rev 9 = some true ∧
    (oneAsked.running false 10).rev 10 = some false ∧
    ∀ d x y, Live (oneAsked.running false 10) d x → Live (oneAsked.running false 10) d y → x = y := by
  have hquiet : ¬ Asked (State.empty : State Bool) true := by
    rintro ⟨q, k, hk⟩
    cases hk
  have hother : ¬ Asked oneAsked false := by
    rintro ⟨q, k, hk⟩
    unfold oneAsked at hk
    rw [query_setQuery] at hk
    split at hk <;> cases hk
  obtain ⟨ls, hfirst, hplain⟩ :=
    @start_run Bool _ State.empty true 9 rfl rfl rfl (by decide) hquiet
  have hask : Step (State.empty.running true 9) .plain oneAsked :=
    Step.read _ 0 true (some 9) rfl rfl fun x hx => (by cases hx)
  obtain ⟨ls', hsecond, hplain'⟩ :=
    @start_run Bool _ oneAsked false 10 rfl rfl rfl (by decide) hother
  have hrun := (hfirst.snoc hask).trans hsecond
  have hall : ∀ l ∈ ls ++ [.plain] ++ ls', l = .plain := by
    intro l hl
    simp only [List.mem_append, List.mem_singleton] at hl
    obtain (hl | hl) | hl := hl
    · exact hplain l hl
    · exact hl
    · exact hplain' l hl
  obtain ⟨hunique, hfound, hrev, -⟩ := registry_right hrun hall
  have htrue : Live (oneAsked.running false 10) true 9 := ⟨rfl, by decide⟩
  have hfalse : Live (oneAsked.running false 10) false 10 := ⟨rfl, by decide⟩
  have hidle : ∀ d, (oneAsked.running false 10).phase d = .idle := by decide
  have hsaving : ∀ d x, ¬ Saving (oneAsked.running false 10) d x := by
    intro d x hx
    unfold Saving at hx
    rw [hidle d] at hx
    obtain hx | hx := hx <;> cases hx
  have hcontext : ∀ d, ((oneAsked.running false 10).phase d).context = none := fun d => by
    rw [hidle d]
    rfl
  exact ⟨_, hrun, hall, (hfound true (hsaving true) 9).2 htrue,
    (hfound false (hsaving false) 10).2 hfalse, hrev true 9 (hcontext true) htrue,
    hrev false 10 (hcontext false) hfalse, hunique⟩

end Registry
