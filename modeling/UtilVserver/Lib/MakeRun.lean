import Mathlib.Logic.Relation
import Mathlib.Logic.Function.Basic
import Mathlib.Order.WellFoundedSet
import UtilVserver.Lib.Transition

/-!
# Runs of `make`

A set of rules names the goals and the prerequisites of every target; all targets share one recipe,
which first tests whether there is anything to do.  Any number of recipes may be under way, but a
recipe begins only when the recipes of all prerequisites have succeeded.

* `Rules.Target` — what is to be made.
* `Rules.Step` — one event of a run.

Principal results: `finished_of_exec` (a recipe is executed after the recipes of everything that
its target transitively rests on) and `exists_exec` (nothing else needs to have happened).
-/

set_option autoImplicit false

namespace MakeRun

open Transition Relation

variable {α : Type*}

structure Rules (α : Type*) where
  goals : List α
  prereqs : α → List α

/-- `p` is a prerequisite of `t`. -/
def Rules.Pre (m : Rules α) (t p : α) : Prop := p ∈ m.prereqs t

/-- The goals and what they rest on. -/
inductive Rules.Target (m : Rules α) : α → Prop
  | goal {t : α} (h : t ∈ m.goals) : Rules.Target m t
  | prereq {t p : α} (ht : Rules.Target m t) (h : m.Pre t p) : Rules.Target m p

/-- Where the recipe of a target stands. -/
inductive Phase where
  | waiting
  | testing
  | executing
  | done
  | failed
  deriving DecidableEq

/-- The phase a recipe ends in. -/
def ended (ok : Bool) : Phase := if ok then .done else .failed

inductive Event (α : Type*) where
  | start (t : α)
  /-- The test says that there is nothing to do; `ok` is the status of the recipe. -/
  | found (t : α) (ok : Bool)
  /-- The command of the recipe is executed. -/
  | exec (t : α)
  /-- The command ends; `ok` is the status of the recipe. -/
  | exit (t : α) (ok : Bool)

abbrev State (α : Type*) := α → Phase

/-- Nothing has been made. -/
def init : State α := fun _ => .waiting

/-- The recipe of `t` succeeded. -/
def Finished (t : α) (es : List (Event α)) : Prop := .found t true ∈ es ∨ .exit t true ∈ es

variable [DecidableEq α]

open Function in
inductive Rules.Step (m : Rules α) : State α → Event α → State α → Prop
  | start {s : State α} {t : α} (ht : m.Target t) (hw : s t = .waiting)
      (hp : ∀ p, m.Pre t p → s p = .done) : Rules.Step m s (.start t) (update s t .testing)
  | found {s : State α} {t : α} (ok : Bool) (h : s t = .testing) :
      Rules.Step m s (.found t ok) (update s t (ended ok))
  | exec {s : State α} {t : α} (h : s t = .testing) :
      Rules.Step m s (.exec t) (update s t .executing)
  | exit {s : State α} {t : α} (ok : Bool) (h : s t = .executing) :
      Rules.Step m s (.exit t ok) (update s t (ended ok))

/-! ## What has begun rests on what is done -/

section Order

variable {m : Rules α}

/-- A recipe that has begun belongs to a target, and its prerequisites are done. -/
structure Rules.Ordered (m : Rules α) (s : State α) : Prop where
  target : ∀ t, s t ≠ .waiting → m.Target t
  prereqs : ∀ t, s t ≠ .waiting → ∀ p, m.Pre t p → s p = .done

/-- A step changes one target, which was not done. -/
theorem Rules.Step.update_cases {s s' : State α} {e : Event α} (h : m.Step s e s') :
    ∃ t ph, s' = Function.update s t ph ∧ s t ≠ .done ∧ ph ≠ .waiting ∧
      (s t ≠ .waiting ∨ m.Target t ∧ ∀ p, m.Pre t p → s p = .done) := by
  cases h with
  | @start t ht hw hp => exact ⟨t, .testing, rfl, by simp [hw], by simp, .inr ⟨ht, hp⟩⟩
  | @found t ok h =>
    exact ⟨t, ended ok, rfl, by simp [h], by cases ok <;> simp [ended], .inl (by simp [h])⟩
  | @exec t h => exact ⟨t, .executing, rfl, by simp [h], by simp, .inl (by simp [h])⟩
  | @exit t ok h =>
    exact ⟨t, ended ok, rfl, by simp [h], by cases ok <;> simp [ended], .inl (by simp [h])⟩

theorem Rules.Ordered.step {s s' : State α} {e : Event α} (h : m.Ordered s) (hs : m.Step s e s') :
    m.Ordered s' := by
  obtain ⟨t, ph, rfl, hnd, hph, hready⟩ := hs.update_cases
  have hkeep (p : α) (hp : s p = .done) : Function.update s t ph p = .done := by
    rw [Function.update_of_ne (by rintro rfl; exact hnd hp), hp]
  have hbegun (u : α) (hu : Function.update s t ph u ≠ .waiting) :
      m.Target u ∧ ∀ p, m.Pre u p → s p = .done := by
    rcases eq_or_ne u t with rfl | hne
    · rcases hready with hw | hready
      · exact ⟨h.target u hw, h.prereqs u hw⟩
      · exact hready
    · rw [Function.update_of_ne hne] at hu
      exact ⟨h.target u hu, h.prereqs u hu⟩
  exact ⟨fun u hu => (hbegun u hu).1, fun u hu p hp => hkeep p ((hbegun u hu).2 p hp)⟩

theorem Rules.Ordered.run {s : State α} {es : List (Event α)} (h : Run m.Step init es s) :
    m.Ordered s :=
  h.invariant (fun _ _ _ hi hs => hi.step hs)
    ⟨fun _ hw => absurd rfl hw, fun _ hw => absurd rfl hw⟩

omit [DecidableEq α] in
/-- Everything that a begun target transitively rests on is done. -/
theorem Rules.Ordered.done_of_transGen {s : State α} (h : m.Ordered s) {t u : α}
    (ht : s t ≠ .waiting) (htu : TransGen m.Pre t u) : s u = .done := by
  induction htu with
  | single hp => exact h.prereqs t ht _ hp
  | tail _ hp ih => exact h.prereqs _ (by rw [ih]; simp) _ hp

/-- The state remembers which recipes succeeded. -/
theorem done_iff_finished {s : State α} {es : List (Event α)} (h : Run m.Step init es s) (u : α) :
    s u = .done ↔ Finished u es := by
  induction h with
  | nil => simp [init, Finished]
  | @snoc s s' es e _ hs ih =>
    have hmem (e' : Event α) : e' ∈ es ++ [e] ↔ e' ∈ es ∨ e' = e := by simp
    rw [Finished, hmem, hmem, or_or_or_comm, ← Finished, ← ih]
    cases hs with
    | @start t ht hw hp =>
      rcases eq_or_ne u t with rfl | hne
      · simp [hw]
      · simp [Function.update_of_ne hne]
    | @found t ok h =>
      rcases eq_or_ne u t with rfl | hne
      · cases ok <;> simp [h, ended]
      · simp [hne]
    | @exec t h =>
      rcases eq_or_ne u t with rfl | hne
      · simp [h]
      · simp [Function.update_of_ne hne]
    | @exit t ok h =>
      rcases eq_or_ne u t with rfl | hne
      · cases ok <;> simp [h, ended]
      · simp [hne]

/-- **A command is executed after the recipes of everything its target rests on.** -/
theorem finished_of_exec {s : State α} {es : List (Event α)} {t u : α}
    (h : Run m.Step init (es ++ [.exec t]) s) (htu : TransGen m.Pre t u) : Finished u es := by
  obtain ⟨s', hrun, hstep⟩ := h.last
  cases hstep with
  | exec hph =>
    rw [← done_iff_finished hrun]
    exact (Rules.Ordered.run hrun).done_of_transGen (by rw [hph]; simp) htu

theorem target_of_exec {s : State α} {es : List (Event α)} {t : α}
    (h : Run m.Step init (es ++ [.exec t]) s) : m.Target t := by
  obtain ⟨s', hrun, hstep⟩ := h.last
  cases hstep with
  | exec hph => exact (Rules.Ordered.run hrun).target t (by rw [hph]; simp)

end Order

/-! ## A command needs nothing else -/

section Minimal

variable {m : Rules α}

/-- A run from `s` to `s'` that completes recipes of targets in `R` only. -/
structure Rules.Completes (m : Rules α) (R : α → Prop) (s s' : State α) : Prop where
  run : ∃ es, Run m.Step s es s'
  settled : ∀ n, s' n = .waiting ∨ s' n = .done
  keeps : ∀ n, s n = .done → s' n = .done
  frame : ∀ n, ¬ R n → s' n = s n

theorem Rules.Completes.trans {R R' R'' : α → Prop} {s s' s'' : State α}
    (h : m.Completes R s s') (h' : m.Completes R' s' s'') (hR : ∀ n, R n → R'' n)
    (hR' : ∀ n, R' n → R'' n) : m.Completes R'' s s'' := by
  obtain ⟨es, hrun⟩ := h.run
  obtain ⟨es', hrun'⟩ := h'.run
  refine ⟨⟨es ++ es', hrun.trans hrun'⟩, h'.settled, fun n hn => h'.keeps n (h.keeps n hn), ?_⟩
  intro n hn
  rw [h'.frame n fun hr => hn (hR' n hr), h.frame n fun hr => hn (hR n hr)]

/-- The recipe of `t` when its prerequisites are done. -/
theorem completes_one {s : State α} (hs : ∀ n, s n = .waiting ∨ s n = .done) {t : α}
    (ht : m.Target t) (hp : ∀ p, m.Pre t p → s p = .done) :
    ∃ s', m.Completes (fun n => n = t) s s' ∧ s' t = .done := by
  rcases hs t with hw | hd
  · have hstart := Rules.Step.start ht hw hp
    have hfound : m.Step (Function.update s t .testing) (.found t true)
        (Function.update (Function.update s t .testing) t .done) :=
      Rules.Step.found true (Function.update_self t _ s)
    rw [Function.update_idem] at hfound
    refine ⟨Function.update s t .done,
      ⟨⟨_, (Run.single hstart).trans (Run.single hfound)⟩, ?_, ?_, ?_⟩,
      Function.update_self t _ s⟩
    · intro n
      rcases eq_or_ne n t with rfl | hne
      · exact .inr (Function.update_self n _ s)
      · rw [Function.update_of_ne hne]; exact hs n
    · intro n hn
      rcases eq_or_ne n t with rfl | hne
      · exact Function.update_self n _ s
      · rw [Function.update_of_ne hne]; exact hn
    · intro n hne
      exact Function.update_of_ne hne _ s
  · exact ⟨s, ⟨⟨[], Run.nil s⟩, hs, fun _ h => h, fun _ _ => rfl⟩, hd⟩

/-- The prerequisites of `t` in a list, given how to complete each of them. -/
theorem completes_list {t : α} (ht : m.Target t)
    (ih : ∀ p, m.Pre t p → m.Target p → ∀ s : State α, (∀ n, s n = .waiting ∨ s n = .done) →
      ∃ s', m.Completes (ReflTransGen m.Pre p) s s' ∧ s' p = .done) :
    ∀ (ps : List α), (∀ p ∈ ps, m.Pre t p) → ∀ s : State α, (∀ n, s n = .waiting ∨ s n = .done) →
      ∃ s', m.Completes (TransGen m.Pre t) s s' ∧ ∀ p ∈ ps, s' p = .done
  | [], _, s, hs => ⟨s, ⟨⟨[], Run.nil s⟩, hs, fun _ h => h, fun _ _ => rfl⟩, by simp⟩
  | p :: ps, hps, s, hs => by
    have hp := hps p List.mem_cons_self
    obtain ⟨s₁, h₁, hd₁⟩ := ih p hp (ht.prereq hp) s hs
    obtain ⟨s₂, h₂, hd₂⟩ := completes_list ht ih ps
      (fun q hq => hps q (List.mem_cons_of_mem p hq)) s₁ h₁.settled
    refine ⟨s₂, h₁.trans h₂ (fun n hn => TransGen.head' hp hn) (fun _ h => h), ?_⟩
    intro q hq
    rcases List.mem_cons.1 hq with rfl | hq
    · exact h₂.keeps q hd₁
    · exact hd₂ q hq

/-- A target is completed together with what it rests on, and nothing else. -/
theorem completes_target (hwf : WellFounded fun p t => m.Pre t p) (t : α) :
    m.Target t → ∀ s : State α, (∀ n, s n = .waiting ∨ s n = .done) →
      ∃ s', m.Completes (ReflTransGen m.Pre t) s s' ∧ s' t = .done := by
  induction t using hwf.induction with
  | _ t ih =>
    intro ht s hs
    obtain ⟨s₁, h₁, hd₁⟩ := completes_list ht ih (m.prereqs t) (fun _ h => h) s hs
    obtain ⟨s₂, h₂, hd₂⟩ := completes_one h₁.settled ht hd₁
    exact ⟨s₂, h₁.trans h₂ (fun _ h => h.to_reflTransGen) (fun n hn => hn ▸ ReflTransGen.refl), hd₂⟩

/-- **A command can be executed before everything its target does not rest on.** -/
theorem exists_exec (hwf : WellFounded fun p t => m.Pre t p) {t : α} (ht : m.Target t) :
    ∃ es s, Run m.Step init (es ++ [.exec t]) s ∧
      ∀ u, ¬ TransGen m.Pre t u → ¬ Finished u es := by
  obtain ⟨s, hs, hdone⟩ := completes_list ht (fun p _ hp => completes_target hwf p hp)
    (m.prereqs t) (fun _ h => h) init (fun _ => .inl rfl)
  have hself : ¬ TransGen m.Pre t t := by
    intro hcycle
    exact hwf.transGen.irrefl.irrefl t (transGen_swap.2 hcycle)
  have hwait : s t = .waiting := hs.frame t hself
  obtain ⟨es, hrun⟩ := hs.run
  have hbegin := hrun.snoc (Rules.Step.start ht hwait hdone)
  refine ⟨_, _, hbegin.snoc (Rules.Step.exec (Function.update_self t _ s)), ?_⟩
  intro u hu
  rw [← done_iff_finished hbegin]
  rcases eq_or_ne u t with rfl | hne
  · simp
  · rw [Function.update_of_ne hne, hs.frame u hu]
    simp [init]

omit [DecidableEq α] in
/-- Prerequisites without a cycle among finitely many targets are well-founded. -/
theorem wellFounded_of_acyclic {r : α → α → Prop} {S : Set α} (hfin : S.Finite)
    (hmem : ∀ a b, r a b → a ∈ S ∧ b ∈ S) (hacyc : ∀ a, ¬ TransGen r a a) : WellFounded r := by
  have hirr : Std.Irrefl (TransGen r) := ⟨hacyc⟩
  have htrans : IsTrans α (TransGen r) := ⟨fun _ _ _ => TransGen.trans⟩
  have horder : IsStrictOrder α (TransGen r) := { }
  have hwf := Set.wellFoundedOn_iff.1 (hfin.wellFoundedOn (r := TransGen r))
  exact Subrelation.wf (fun h => ⟨TransGen.single h, hmem _ _ h⟩) hwf

end Minimal

end MakeRun
