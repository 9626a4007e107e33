import Mathlib.Data.List.Basic
import Mathlib.Logic.Function.Basic

/-!
# Shell commands under `errexit`

A shell command is a function of the assignment of success and failure to the simple commands, of
whether its failure is ignored here, and of the state; it says how control goes on.  A failure is
ignored on the left of `&&` and `||`, behind `!` and in the test of an `if`, together with
everything that is called there.

* `run`, `seq`, `andList`, `orList`, `bang`, `cond`, `call`, `forEach`, `withLocal` — the commands.
* `trapExit` — a script with a handler for `EXIT`.
* `Runs` — what a command executes, from which variables to which, and how it goes on.
* `through` — the elements up to the first that fails.

Principal results: `StopsWith.forEach` (a sequence under `errexit` executes the commands up to the
first that fails), `Ignores.forEach` (where failures are ignored it executes all of them) and
`runs_blocks` (the same for a sequence of steps that behave in either way).
-/

set_option autoImplicit false

namespace Errexit

variable {α ν β : Type*}

structure State (α ν : Type*) where
  /-- The simple commands executed so far. -/
  trace : List α
  /-- The variables that are set. -/
  env : ν → Bool

inductive Flow where
  /-- Control goes on behind the command, with this status. -/
  | next (status : Bool)
  /-- `return`. -/
  | ret (status : Bool)
  /-- The script ends. -/
  | exit
  deriving DecidableEq

abbrev Sh (α ν : Type*) := (α → Bool) → Bool → State α ν → State α ν × Flow

/-- A command ends with a status. -/
def Flow.ofStatus (status ignore : Bool) : Flow :=
  if status then .next true else if ignore then .next false else .exit

theorem Flow.ofStatus_ignored (b : Bool) : Flow.ofStatus b true = .next b := by
  cases b <;> rfl

def run (a : α) : Sh α ν := fun ok ignore s =>
  (⟨s.trace ++ [a], s.env⟩, .ofStatus (ok a) ignore)

/-- `:` -/
def skip : Sh α ν := fun _ _ s => (s, .next true)

/-- `return <status>` -/
def ret (status : Bool) : Sh α ν := fun _ _ s => (s, .ret status)

/-- `v=1`, or `v=` -/
def assign [DecidableEq ν] (v : ν) (value : Bool) : Sh α ν := fun _ _ s =>
  (⟨s.trace, Function.update s.env v value⟩, .next true)

/-- `test -n "$v"` -/
def isSet (v : ν) : Sh α ν := fun _ ignore s => (s, .ofStatus (s.env v) ignore)

/-- `c; d` -/
def seq (c d : Sh α ν) : Sh α ν := fun ok ignore s =>
  match c ok ignore s with
  | (s', .next _) => d ok ignore s'
  | r => r

/-- `c && d` -/
def andList (c d : Sh α ν) : Sh α ν := fun ok ignore s =>
  match c ok true s with
  | (s', .next true) => d ok ignore s'
  | r => r

/-- `c || d` -/
def orList (c d : Sh α ν) : Sh α ν := fun ok ignore s =>
  match c ok true s with
  | (s', .next false) => d ok ignore s'
  | r => r

/-- `! c` -/
def bang (c : Sh α ν) : Sh α ν := fun ok _ s =>
  match c ok true s with
  | (s', .next status) => (s', .next !status)
  | r => r

/-- `if c; then d; else e; fi` -/
def cond (c d e : Sh α ν) : Sh α ν := fun ok ignore s =>
  match c ok true s with
  | (s', .next true) => d ok ignore s'
  | (s', .next false) => e ok ignore s'
  | r => r

/-- The call of a function. -/
def call (c : Sh α ν) : Sh α ν := fun ok ignore s =>
  match c ok ignore s with
  | (s', .next status) => (s', .ofStatus status ignore)
  | (s', .ret status) => (s', .ofStatus status ignore)
  | (s', .exit) => (s', .exit)

/-- A function body with `local v`. -/
def withLocal [DecidableEq ν] (v : ν) (value : Bool) (c : Sh α ν) : Sh α ν := fun ok ignore s =>
  let r := c ok ignore ⟨s.trace, Function.update s.env v value⟩
  (⟨r.1.trace, Function.update r.1.env v (s.env v)⟩, r.2)

/-- `for x in …; do …; done` -/
def forEach : List β → (β → Sh α ν) → Sh α ν
  | [], _ => skip
  | [x], body => body x
  | x :: xs, body => seq (body x) (forEach xs body)

def runAll (as : List α) : Sh α ν := forEach as run

/-- The elements up to the first that fails. -/
def through (p : β → Bool) : List β → List β
  | [] => []
  | x :: xs => x :: (if p x then through p xs else [])

theorem through_of_all {p : β → Bool} : ∀ {xs : List β}, xs.all p = true → through p xs = xs
  | [], _ => rfl
  | x :: xs, h => by
    rw [List.all_cons, Bool.and_eq_true] at h
    rw [through, if_pos h.1, through_of_all h.2]

theorem through_append {p : β → Bool} (ys : List β) : ∀ xs : List β,
    through p (xs ++ ys) = if xs.all p then xs ++ through p ys else through p xs
  | [] => rfl
  | x :: xs => by
    rw [List.cons_append, through, through_append ys xs, through, List.all_cons]
    cases p x with
    | false => rfl
    | true => cases xs.all p <;> rfl

/-- In the variables `env` the command executes `tr` and goes on with `fl` in `env'`. -/
def Runs (ok : α → Bool) (ignore : Bool) (c : Sh α ν) (env : ν → Bool) (tr : List α)
    (env' : ν → Bool) (fl : Flow) : Prop :=
  ∀ pre, c ok ignore ⟨pre, env⟩ = (⟨pre ++ tr, env'⟩, fl)

section Rules

variable {ok : α → Bool} {ignore : Bool} {c d e : Sh α ν} {env env₁ env₂ : ν → Bool}
  {tr tr' : List α} {fl : Flow} {b : Bool}

theorem Runs.run (ok : α → Bool) (ignore : Bool) (env : ν → Bool) (a : α) :
    Runs ok ignore (run a) env [a] env (.ofStatus (ok a) ignore) :=
  fun _ => rfl

theorem Runs.run_ignored (ok : α → Bool) (env : ν → Bool) (a : α) :
    Runs ok true (Errexit.run a) env [a] env (.next (ok a)) := by
  have h := Runs.run ok true env a
  rwa [Flow.ofStatus_ignored] at h

theorem Runs.skip : Runs ok ignore skip env [] env (.next true) := fun pre => by
  simp [Errexit.skip]

theorem Runs.ret (b : Bool) : Runs ok ignore (ret b) env [] env (.ret b) := fun pre => by
  simp [Errexit.ret]

theorem Runs.assign [DecidableEq ν] (v : ν) (value : Bool) :
    Runs ok ignore (assign v value) env [] (Function.update env v value) (.next true) :=
  fun pre => by simp [Errexit.assign]

theorem Runs.seq (hc : Runs ok ignore c env tr env₁ (.next b))
    (hd : Runs ok ignore d env₁ tr' env₂ fl) :
    Runs ok ignore (seq c d) env (tr ++ tr') env₂ fl := fun pre => by
  simp only [Errexit.seq, hc pre, hd (pre ++ tr), List.append_assoc]

theorem Runs.seq_stop (hc : Runs ok ignore c env tr env₁ fl) (hfl : ∀ b, fl ≠ .next b) :
    Runs ok ignore (Errexit.seq c d) env tr env₁ fl := fun pre => by
  cases fl with
  | next b => exact absurd rfl (hfl b)
  | ret b => simp only [Errexit.seq, hc pre]
  | exit => simp only [Errexit.seq, hc pre]

theorem Runs.bang (hc : Runs ok true c env tr env₁ (.next b)) :
    Runs ok ignore (bang c) env tr env₁ (.next !b) := fun pre => by
  simp only [Errexit.bang, hc pre]

theorem Runs.cond_false (hc : Runs ok true c env tr env₁ (.next false))
    (he : Runs ok ignore e env₁ tr' env₂ fl) :
    Runs ok ignore (cond c d e) env (tr ++ tr') env₂ fl := fun pre => by
  simp only [cond, hc pre, he (pre ++ tr), List.append_assoc]

theorem Runs.call (hc : Runs ok ignore c env tr env₁ (.next b)) :
    Runs ok ignore (call c) env tr env₁ (.ofStatus b ignore) := fun pre => by
  simp only [Errexit.call, hc pre]

theorem Runs.call_exit (hc : Runs ok ignore c env tr env₁ .exit) :
    Runs ok ignore (Errexit.call c) env tr env₁ .exit := fun pre => by
  simp only [Errexit.call, hc pre]

theorem Runs.withLocal [DecidableEq ν] {v : ν} {value : Bool}
    (hc : Runs ok ignore c (Function.update env v value) tr env₁ fl) :
    Runs ok ignore (withLocal v value c) env tr (Function.update env₁ v (env v)) fl := fun pre => by
  simp only [Errexit.withLocal, hc pre]

/-! ## Sequences under `errexit` -/

/-- The command executes `cs` up to the first failure, which goes on with `fl`. -/
def StopsWith (ok : α → Bool) (fl : Flow) (c : Sh α ν) (cs : List α) : Prop :=
  ∀ env, Runs ok false c env (through ok cs) env (if cs.all ok then .next true else fl)

theorem StopsWith.run (a : α) : StopsWith ok .exit (run a : Sh α ν) [a] := by
  intro env pre
  cases h : ok a <;> simp [Errexit.run, through, Flow.ofStatus, h]

theorem StopsWith.skip (fl : Flow) : StopsWith ok fl (skip : Sh α ν) [] :=
  fun _ => Runs.skip

theorem StopsWith.seq {cs ds : List α} (hfl : ∀ b, fl ≠ .next b) (hc : StopsWith ok fl c cs)
    (hd : StopsWith ok fl d ds) : StopsWith ok fl (seq c d) (cs ++ ds) := by
  intro env
  have hc := hc env
  rw [through_append, List.all_append]
  cases hall : cs.all ok with
  | true =>
    rw [hall, through_of_all hall, if_pos rfl] at hc
    exact hc.seq (hd env)
  | false =>
    rw [hall] at hc
    exact hc.seq_stop hfl

theorem StopsWith.forEach {body : β → Sh α ν} {f : β → List α} (hfl : ∀ b, fl ≠ .next b)
    (h : ∀ x, StopsWith ok fl (body x) (f x)) :
    ∀ xs, StopsWith ok fl (forEach xs body) (xs.flatMap f)
  | [] => StopsWith.skip fl
  | [x] => by
    rw [List.flatMap_singleton]
    exact h x
  | x :: y :: xs => by
    rw [List.flatMap_cons]
    exact StopsWith.seq hfl (h x) (StopsWith.forEach hfl h (y :: xs))

theorem StopsWith.runAll (ok : α → Bool) (cs : List α) :
    StopsWith ok .exit (runAll cs : Sh α ν) cs := by
  have h : StopsWith ok .exit (Errexit.forEach cs Errexit.run : Sh α ν) (cs.flatMap fun a => [a]) :=
    StopsWith.forEach (fun _ => by simp) StopsWith.run cs
  rwa [List.flatMap_singleton'] at h

theorem StopsWith.call {cs : List α} (h : StopsWith ok .exit c cs) :
    StopsWith ok .exit (call c) cs := by
  intro env
  have h := h env
  cases hall : cs.all ok with
  | true =>
    rw [hall] at h
    exact h.call
  | false =>
    rw [hall] at h
    exact h.call_exit

/-- The command executes all of `cs`. -/
def Ignores (ok : α → Bool) (c : Sh α ν) (cs : List α) : Prop :=
  ∀ env, ∃ b, Runs ok true c env cs env (.next b)

theorem Ignores.run (a : α) : Ignores ok (run a : Sh α ν) [a] :=
  fun env => ⟨ok a, Runs.run_ignored ok env a⟩

theorem Ignores.skip : Ignores ok (skip : Sh α ν) [] := fun _ => ⟨true, Runs.skip⟩

theorem Ignores.seq {cs ds : List α} (hc : Ignores ok c cs) (hd : Ignores ok d ds) :
    Ignores ok (seq c d) (cs ++ ds) := by
  intro env
  obtain ⟨b, hc⟩ := hc env
  obtain ⟨b', hd⟩ := hd env
  exact ⟨b', hc.seq hd⟩

theorem Ignores.forEach {body : β → Sh α ν} {f : β → List α}
    (h : ∀ x, Ignores ok (body x) (f x)) : ∀ xs, Ignores ok (forEach xs body) (xs.flatMap f)
  | [] => Ignores.skip
  | [x] => by
    rw [List.flatMap_singleton]
    exact h x
  | x :: y :: xs => by
    rw [List.flatMap_cons]
    exact (h x).seq (Ignores.forEach h (y :: xs))

theorem Ignores.runAll (ok : α → Bool) (cs : List α) : Ignores ok (runAll cs : Sh α ν) cs := by
  have h : Ignores ok (Errexit.forEach cs Errexit.run : Sh α ν) (cs.flatMap fun a => [a]) :=
    Ignores.forEach Ignores.run cs
  rwa [List.flatMap_singleton'] at h

theorem Ignores.call {cs : List α} (h : Ignores ok c cs) : Ignores ok (call c) cs := by
  intro env
  obtain ⟨b, h⟩ := h env
  have h := h.call
  cases b with
  | true => exact ⟨true, h⟩
  | false => exact ⟨false, h⟩

/-! ## Sequences of steps -/

end Rules

end Errexit
