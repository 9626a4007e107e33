import Mathlib.Order.Basic

/-!
# Loops

A `while` loop is given by what one pass through it does: it goes round again with another state,
or it is left with a result.

* `loop` — a number of passes; none when the loop has not been left by then.
* `Ends` — the loop is left at some time.
* `Reaches` — the states in front of the passes.

Principal results: `ends_of_measure` (a loop ends when each pass makes a measure smaller) and
`not_ends_of_invariant` (it does not when each pass leads back to where it goes round again).
-/

set_option autoImplicit false

namespace Loops

variable {σ ρ : Type*}

/-- What one pass through the body of a loop does. -/
inductive Pass (σ ρ : Type*) where
  | again (s : σ)
  | leave (r : ρ)

/-- At most `fuel` passes. -/
def loop (body : σ → Pass σ ρ) : Nat → σ → Option ρ
  | 0, _ => none
  | fuel + 1, s =>
    match body s with
    | .again s' => loop body fuel s'
    | .leave r => some r

/-- The loop is left with a result. -/
def Leaves (body : σ → Pass σ ρ) (s : σ) (r : ρ) : Prop := ∃ fuel, loop body fuel s = some r

/-- The loop ends. -/
def Ends (body : σ → Pass σ ρ) (s : σ) : Prop := ∃ r, Leaves body s r

variable {body : σ → Pass σ ρ} {s s' : σ} {r r' : ρ}

theorem leaves_of_leave (h : body s = .leave r) : Leaves body s r :=
  ⟨1, by rw [loop, h]⟩

theorem leaves_again_iff (h : body s = .again s') : Leaves body s r ↔ Leaves body s' r := by
  constructor
  · rintro ⟨fuel, hfuel⟩
    cases fuel with
    | zero => cases hfuel
    | succ fuel =>
      rw [loop, h] at hfuel
      exact ⟨fuel, hfuel⟩
  · rintro ⟨fuel, hfuel⟩
    exact ⟨fuel + 1, by rw [loop, h]; exact hfuel⟩

theorem ends_of_leave (h : body s = .leave r) : Ends body s := ⟨r, leaves_of_leave h⟩

theorem ends_again_iff (h : body s = .again s') : Ends body s ↔ Ends body s' :=
  exists_congr fun _ => leaves_again_iff h

/-- A loop is left with one result only. -/
theorem Leaves.unique (h : Leaves body s r) (h' : Leaves body s r') : r = r' := by
  obtain ⟨fuel, h⟩ := h
  induction fuel generalizing s with
  | zero => cases h
  | succ fuel ih =>
    rw [loop] at h
    cases hb : body s with
    | again s' =>
      rw [hb] at h
      exact ih ((leaves_again_iff hb).1 h') h
    | leave r₀ =>
      obtain ⟨fuel', h'⟩ := h'
      cases fuel' with
      | zero => cases h'
      | succ fuel' =>
        rw [loop, hb] at h'
        rw [hb] at h
        rw [← Option.some.inj h, ← Option.some.inj h']

/-- The loop comes to a state in front of a pass. -/
inductive Reaches (body : σ → Pass σ ρ) (s : σ) : σ → Prop
  | start : Reaches body s s
  | again {t u : σ} (h : Reaches body s t) (hb : body t = .again u) : Reaches body s u

/-- A pass in front of others. -/
theorem Reaches.head {t u : σ} (hb : body s = .again t) (h : Reaches body t u) : Reaches body s u := by
  induction h with
  | start => exact .again .start hb
  | again _ hb' ih => exact .again ih hb'

/-- The loop is left with the result that it is left with from there. -/
theorem Reaches.leaves_iff {t : σ} (h : Reaches body s t) : Leaves body s r ↔ Leaves body t r := by
  induction h with
  | start => rfl
  | again _ hb ih => rw [ih, leaves_again_iff hb]

/-- **The measure rule**: where an invariant holds each pass keeps it and makes the measure
smaller, so the loop ends. -/
theorem ends_of_measure {I : σ → Prop} (m : σ → Nat)
    (hstep : ∀ s s', I s → body s = .again s' → I s' ∧ m s' < m s) (h0 : I s) :
    Ends body s := by
  induction hm : m s using Nat.strongRecOn generalizing s with
  | _ n ih =>
    cases hb : body s with
    | leave r => exact ends_of_leave hb
    | again s' =>
      obtain ⟨h1, hlt⟩ := hstep s s' h0 hb
      rw [ends_again_iff hb]
      exact ih (m s') (by omega) h1 rfl

/-- **The rule of loops that go on for ever**: from a state with the invariant each pass leads to
such a state again. -/
theorem not_ends_of_invariant {I : σ → Prop}
    (hstep : ∀ s, I s → ∃ s', body s = .again s' ∧ I s') (h0 : I s) : ¬ Ends body s := by
  rintro ⟨r, fuel, h⟩
  induction fuel generalizing s with
  | zero => cases h
  | succ fuel ih =>
    obtain ⟨s', hb, h1⟩ := hstep s h0
    rw [loop, hb] at h
    exact ih h1 h

/-- A pass that changes nothing is repeated for ever. -/
theorem not_ends_of_fixed (h : body s = .again s) : ¬ Ends body s :=
  not_ends_of_invariant (I := (· = s)) (fun t ht => ⟨s, by rw [ht]; exact h, rfl⟩) rfl

/-- **The rule of invariants**: what each pass keeps holds of the result. -/
theorem Leaves.invariant {I : σ → Prop} {Q : ρ → Prop}
    (hagain : ∀ s s', I s → body s = .again s' → I s')
    (hleave : ∀ s r, I s → body s = .leave r → Q r) (h : Leaves body s r) (h0 : I s) : Q r := by
  obtain ⟨fuel, h⟩ := h
  induction fuel generalizing s with
  | zero => cases h
  | succ fuel ih =>
    rw [loop] at h
    cases hb : body s with
    | again s' =>
      rw [hb] at h
      exact ih (hagain s s' h0 hb) h
    | leave r₀ =>
      rw [hb] at h
      exact Option.some.inj h ▸ hleave s r₀ h0 hb

end Loops
