import Mathlib.Data.List.Basic

/-!
# Handlers that are called on one item after the other

A handler changes some data and says whether to go on.

* `callAll` — call the handler on the items, up to the first that it refuses.
* `record` — a handler that also keeps what it is called on, and its answers.
* `Called` — what has been called in the end.

Principal result: `callAll_record`.
-/

set_option autoImplicit false

namespace Calls

variable {α σ : Type*}

/-- Call the handler on one item after the other, until it refuses one. -/
def callAll (handler : α → σ → Bool × σ) : List α → σ → Bool × σ
  | [], data => (true, data)
  | a :: as, data =>
    match handler a data with
    | (false, data) => (false, data)
    | (true, data) => callAll handler as data

/-- The handler, with a record of its calls and their answers. -/
def record (handler : α → σ → Bool × σ) (a : α) (st : σ × List (α × Bool)) :
    Bool × (σ × List (α × Bool)) :=
  let r := handler a st.1
  (r.1, r.2, st.2 ++ [(a, r.1)])

/-- The calls of a run over the items that ended with `ok`. -/
structure Called (as : List α) (ok : Bool) (log : List (α × Bool)) : Prop where
  items : log.map Prod.fst = as.take log.length
  accepted : ok = true → log.length = as.length ∧ ∀ c ∈ log, c.2 = true
  refused : ok = false → ∃ before last, log = before ++ [last] ∧ last.2 = false ∧
    ∀ c ∈ before, c.2 = true

/-- **A run makes the calls in order**, up to the first that is refused. -/
theorem callAll_record (handler : α → σ → Bool × σ) (as : List α) (data : σ)
    (log : List (α × Bool)) :
    ∃ more, callAll (record handler) as (data, log) =
        ((callAll handler as data).1, (callAll handler as data).2, log ++ more) ∧
      Called as (callAll handler as data).1 more := by
  induction as generalizing data log with
  | nil => exact ⟨[], by rw [List.append_nil]; rfl, ⟨rfl, by simp, by simp [callAll]⟩⟩
  | cons a as ih =>
    obtain ⟨r, hcall⟩ : ∃ r, handler a data = r := ⟨_, rfl⟩
    obtain ⟨ok, data'⟩ := r
    rw [callAll, callAll]
    simp only [record, hcall]
    cases ok with
    | false =>
      exact ⟨[(a, false)], rfl, ⟨rfl, by simp, fun _ => ⟨[], (a, false), rfl, rfl, by simp⟩⟩⟩
    | true =>
      obtain ⟨more, hrun, hitems, hacc, href⟩ := ih data' (log ++ [(a, true)])
      refine ⟨(a, true) :: more, ?_, ⟨?_, fun hok => ?_, fun hok => ?_⟩⟩
      · rw [List.append_assoc] at hrun
        exact hrun
      · rw [List.map_cons, List.length_cons, List.take_succ_cons, hitems]
      · obtain ⟨hlen, hall⟩ := hacc hok
        exact ⟨by rw [List.length_cons, List.length_cons, hlen], by simpa using hall⟩
      · obtain ⟨before, last, rfl, hlast, hall⟩ := href hok
        exact ⟨(a, true) :: before, last, rfl, hlast, by simpa using hall⟩

end Calls
