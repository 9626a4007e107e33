import Mathlib.Data.List.Basic

/-!
# Runs of labelled transition systems

A system is a step relation `S → L → S → Prop`; the label says who moves or what happens, so that
an assumption about a run is a predicate on its labels.

* `Run step s ls s'` — the labels `ls` in order lead from `s` to `s'`.
* `Stuck` — no step leaves the state.

* `runLabels` — the run of a system that is given by a function.

Principal result: `Run.invariant_of` — what holds at the start and is kept by every step with an
allowed label holds at the end of every run with allowed labels.
-/

set_option autoImplicit false

namespace Transition

variable {S L : Type*} {step : S → L → S → Prop}

/-- A finite run with the list of its labels. -/
inductive Run (step : S → L → S → Prop) : S → List L → S → Prop
  | nil (s : S) : Run step s [] s
  | snoc {s s' s'' : S} {ls : List L} {l : L} (hrun : Run step s ls s') (hstep : step s' l s'') :
      Run step s (ls ++ [l]) s''

/-- No step leaves the state. -/
def Stuck (step : S → L → S → Prop) (s : S) : Prop := ∀ l s', ¬ step s l s'

theorem Run.single {s s' : S} {l : L} (h : step s l s') : Run step s [l] s' :=
  Run.snoc (Run.nil s) h

theorem Run.trans {s s' s'' : S} {ls ls' : List L} (h : Run step s ls s')
    (h' : Run step s' ls' s'') : Run step s (ls ++ ls') s'' := by
  induction h' with
  | nil => rwa [List.append_nil]
  | snoc _ hstep ih => rw [← List.append_assoc]; exact ih.snoc hstep

/-- The last step of a run. -/
theorem Run.last {s s'' : S} {ls : List L} {l : L} (h : Run step s (ls ++ [l]) s'') :
    ∃ s', Run step s ls s' ∧ step s' l s'' := by
  generalize hls : ls ++ [l] = ls' at h
  cases h with
  | nil => simp at hls
  | snoc hrun hstep =>
    obtain ⟨rfl, hl⟩ := List.append_inj' hls rfl
    obtain rfl := List.singleton_inj.1 hl
    exact ⟨_, hrun, hstep⟩

/-- **The rule of invariants**, for runs whose labels all satisfy `P`. -/
theorem Run.invariant_of {I : S → Prop} {P : L → Prop}
    (hstep : ∀ s l s', I s → P l → step s l s' → I s') {s s' : S} {ls : List L}
    (hrun : Run step s ls s') (hlabels : ∀ l ∈ ls, P l) (h0 : I s) : I s' := by
  induction hrun with
  | nil => exact h0
  | snoc _ hs ih =>
    refine hstep _ _ _ (ih fun l hl => hlabels l (List.mem_append_left _ hl)) ?_ hs
    exact hlabels _ (List.mem_append_right _ (List.mem_singleton_self _))

/-- The rule of invariants without an assumption on the labels. -/
theorem Run.invariant {I : S → Prop} (hstep : ∀ s l s', I s → step s l s' → I s') {s s' : S}
    {ls : List L} (hrun : Run step s ls s') (h0 : I s) : I s' :=
  Run.invariant_of (P := fun _ => True) (fun s l s' hi _ hs => hstep s l s' hi hs) hrun
    (fun _ _ => trivial) h0

/-- A run whose labels meet a condition in every state. -/
theorem Run.restrict {P : S → L → Prop} {s s' : S} {ls : List L} (h : Run step s ls s')
    (hP : ∀ l ∈ ls, ∀ s, P s l) : Run (fun s l s' => step s l s' ∧ P s l) s ls s' := by
  induction h with
  | nil => exact Run.nil s
  | snoc _ hstep ih =>
    refine (ih fun l hl => hP l (List.mem_append_left _ hl)).snoc ⟨hstep, ?_⟩
    exact hP _ (List.mem_append_right _ (List.mem_singleton_self _)) _

/-- Take the steps with the given labels, in a system where a label leaves no choice. -/
def runLabels (next : S → L → Option S) : List L → S → Option S
  | [], s => some s
  | l :: ls, s => (next s l).bind (runLabels next ls)

theorem run_of_runLabels {next : S → L → Option S} : ∀ {ls : List L} {s s' : S},
    runLabels next ls s = some s' → Run (fun s l s' => next s l = some s') s ls s'
  | [], s, s', h => by
    cases h
    exact Run.nil s
  | l :: ls, s, s', h => by
    simp only [runLabels, Option.bind_eq_some_iff] at h
    obtain ⟨t, ht, hrun⟩ := h
    have hone : Run (fun s l s' => next s l = some s') s [l] t := Run.single ht
    exact hone.trans (run_of_runLabels hrun)

/-- Every label of a computed run meets a condition in its state. -/
def LabelsMeet (next : S → L → Option S) (P : S → L → Prop) : List L → S → Prop
  | [], _ => True
  | l :: ls, s => P s l ∧ ∀ s', next s l = some s' → LabelsMeet next P ls s'

theorem run_of_labelsMeet {next : S → L → Option S} {P : S → L → Prop} :
    ∀ {ls : List L} {s s' : S}, runLabels next ls s = some s' → LabelsMeet next P ls s →
      Run (fun s l s' => next s l = some s' ∧ P s l) s ls s'
  | [], s, s', h, _ => by
    cases h
    exact Run.nil s
  | l :: ls, s, s', h, hmeet => by
    simp only [runLabels, Option.bind_eq_some_iff] at h
    obtain ⟨t, ht, hrun⟩ := h
    have hone : Run (fun s l s' => next s l = some s' ∧ P s l) s [l] t :=
      Run.single ⟨ht, hmeet.1⟩
    exact hone.trans (run_of_labelsMeet hrun (hmeet.2 t ht))

end Transition
