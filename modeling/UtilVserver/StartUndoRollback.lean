import UtilVserver.StartUndo
import Mathlib.Data.Nat.Find

/-!
# The rollback of the native start

* `At` — what is left to do when `a` interfaces were added and `r` tasks are on the list.
* `Live`, `Dead` — the cloned process before and after its end.
* `Other` — the processes that are forked: none of them gets the pid of the undo list.
* `Defect` — the interface at which the start can end without the handler.

Principal results: `inv_run`, and `rollback_exact` — every run rolls back exactly when the
configuration leaves no way out that passes by the handler.
-/

set_option autoImplicit false

namespace StartUndo

open Transition

/-! ## The handler -/

/-- The tasks of the first `r` interfaces. -/
def tasks (r : Nat) : List FuncData := (List.range r).map fun i => ⟨.Iface_removeWrapper, i⟩

theorem callDown_eq (funcs : List FuncData) (ptr : Nat) :
    callDown funcs ptr = ((funcs.take ptr).map FuncData.call).reverse := by
  induction ptr with
  | zero => rfl
  | succ ptr ih =>
    rw [callDown, ih, List.take_add_one, List.map_append, List.reverse_append]
    cases funcs[ptr]? <;> rfl

theorem tasks_call (r : Nat) : (tasks r).map FuncData.call = List.range r := by
  rw [tasks, List.map_map]
  exact List.map_id' _

/-- **The handler works the list off backwards.** -/
theorem atexitHandler_tasks (pid r : Nat) :
    atexitHandler ⟨some pid, tasks r⟩ pid = (List.range r).reverse := by
  rw [atexitHandler, if_neg (not_not_intro rfl), callDown_eq, List.take_length, tasks_call]

theorem atexitHandler_other {undo : Undo} {pid : Nat} (h : undo.pid_ ≠ some pid) :
    atexitHandler undo pid = [] := if_pos h

theorem addTask_tasks (pid : Option Nat) (r : Nat) :
    addTask ⟨pid, tasks r⟩ r = ⟨pid, tasks (r + 1)⟩ := by
  simp [addTask, EnscVector.pushback, tasks, List.range_succ]

/-! ## The program of the cloned process -/

/-- The program is at a place where `a` interfaces are added and `r` tasks registered. -/
inductive At (n : Nat) : List Cmd → Nat → Nat → Prop
  | scriptlets : At n (.execScriptlets :: (activateInterfaces 0 n ++ laterProg)) 0 0
  | add {k : Nat} (hk : k ≤ n) : At n (activateInterfaces k (n - k) ++ laterProg) k k
  | task {k : Nat} (hk : k < n) :
      At n (.undoAddTask k :: (activateInterfaces (k + 1) (n - (k + 1)) ++ laterProg)) (k + 1) k
  | later {prog : List Cmd} (h : prog <:+ laterProg) (hne : prog ≠ []) : At n prog n n

/-- Steps that leave the list of tasks alone. -/
def Cmd.passive : Cmd → Bool
  | .execScriptlets => true
  | .work _ => true
  | .initMtab => true
  | .mountVserverInternal => true
  | _ => false

/-- What the next step can be. -/
inductive Head (n : Nat) : Cmd → List Cmd → Nat → Nat → Prop
  | add {rest : List Cmd} {k : Nat} (hk : k < n) (h : At n rest (k + 1) k) :
      Head n (.ifaceAdd k) rest k k
  | task {rest : List Cmd} {k : Nat} (hk : k < n) (h : At n rest (k + 1) (k + 1)) :
      Head n (.undoAddTask k) rest (k + 1) k
  | detach : Head n .undoDetach [] n n
  | passive {c : Cmd} {rest : List Cmd} {k : Nat} (hk : k ≤ n) (hc : c.passive = true)
      (hmtab : c = .initMtab → k = n) (h : At n rest k k) : Head n c rest k k

theorem activate_succ {k n : Nat} (hk : k < n) : activateInterfaces k (n - k) =
    .ifaceAdd k :: .undoAddTask k :: activateInterfaces (k + 1) (n - (k + 1)) := by
  obtain ⟨m, hm⟩ : ∃ m, n - k = m + 1 := ⟨n - k - 1, by omega⟩
  have hm' : n - (k + 1) = m := by omega
  rw [hm, hm', activateInterfaces]

theorem undoInit_activate (i m : Nat) : .undoInit ∉ activateInterfaces i m := by
  induction m generalizing i with
  | zero => simp [activateInterfaces]
  | succ m ih => simp [activateInterfaces, ih]

/-- The steps after `activateInterfaces`. -/
theorem head_later {n : Nat} {c : Cmd} {rest : List Cmd} (h : c :: rest <:+ laterProg) :
    Head n c rest n n := by
  have hrest : rest <:+ laterProg := (List.suffix_cons c rest).trans h
  obtain ⟨pre, hpre⟩ := h
  by_cases hnil : rest = []
  · subst hnil
    have hlast := congrArg List.getLast? hpre
    rw [List.getLast?_append] at hlast
    obtain rfl : c = .undoDetach := by simpa [laterProg] using hlast
    exact .detach
  · have hpassive : ∀ d ∈ laterProg.dropLast, d.passive = true := by decide
    have hmem : c ∈ laterProg.dropLast := by
      rw [← hpre, List.dropLast_append_cons, List.dropLast_cons_of_ne_nil hnil]
      exact List.mem_append_right pre List.mem_cons_self
    exact .passive (Nat.le_refl n) (hpassive c hmem) (fun _ => rfl) (.later hrest hnil)

theorem At.head {n : Nat} {c : Cmd} {rest : List Cmd} {a r : Nat} (h : At n (c :: rest) a r) :
    Head n c rest a r := by
  generalize hp : c :: rest = prog at h
  cases h with
  | scriptlets =>
    obtain ⟨rfl, rfl⟩ := List.cons.inj hp
    exact .passive (Nat.zero_le n) rfl nofun (.add (Nat.zero_le n))
  | add hk =>
    by_cases hlt : a < n
    · rw [activate_succ hlt] at hp
      obtain ⟨rfl, rfl⟩ := List.cons.inj hp
      exact .add hlt (.task hlt)
    · obtain rfl : a = n := by omega
      rw [Nat.sub_self, activateInterfaces, List.nil_append] at hp
      exact head_later (hp ▸ List.suffix_refl _)
  | task hk =>
    obtain ⟨rfl, rfl⟩ := List.cons.inj hp
    exact .task hk (.add hk)
  | later h =>
    subst hp
    exact head_later h

/-- `Undo_init` is called once. -/
theorem At.undoInit {n : Nat} {prog : List Cmd} {a r : Nat} (h : At n prog a r) :
    .undoInit ∉ prog := by
  have hlater : .undoInit ∉ laterProg := by decide
  have hloop : ∀ i m, .undoInit ∉ activateInterfaces i m ++ laterProg := fun i m => by
    rw [List.mem_append, not_or]
    exact ⟨undoInit_activate i m, hlater⟩
  cases h with
  | scriptlets => simpa using hloop 0 n
  | add _ => exact hloop _ _
  | task _ => simpa using hloop _ _
  | later hsuffix _ => exact fun hmem => hlater (hsuffix.subset hmem)

theorem At.ne_nil {n a r : Nat} (h : At n [] a r) : False := by
  generalize hp : ([] : List Cmd) = prog at h
  cases h with
  | scriptlets => cases hp
  | add hk => simp [laterProg] at hp
  | task hk => cases hp
  | later _ hne => exact hne hp.symm

/-! ## The cloned process -/

variable {cfg : Config} {p p' : Proc} {cloned : Nat}

/-- `Iface_add` comes back for interface `j`. -/
def ReturnsAt (cfg : Config) (j : Nat) : Prop := cfg.interfaces[j]?.any ifaceAddReturns = true

/-- With `k` interfaces added, the start can end without the handler. -/
def Defect (cfg : Config) (k : Nat) : Prop :=
  (∀ j < k, ReturnsAt cfg j) ∧
    ((k < cfg.interfaces.length ∧ ¬ ReturnsAt cfg k) ∨
      (k = cfg.interfaces.length ∧ cfg.mtabReads = false))

inductive Live (cfg : Config) (p : Proc) : Prop
  | before (hprog : p.prog = startProg cfg.interfaces.length) (hundo : p.undo = ⟨none, []⟩)
      (hinit : p.initialised = false) (hadded : p.added = [])
  | started {a r : Nat} (hat : At cfg.interfaces.length p.prog a r)
      (hundo : p.undo = ⟨some p.pid, tasks r⟩) (hinit : p.initialised = true)
      (hreg : p.registered = true) (hadded : p.added = List.range a)
      (hret : ∀ j < a, ReturnsAt cfg j)
  | detached (hprog : p.prog = []) (hundo : p.undo.pid_ = none)

/-- The process after its end. -/
structure Dead (cfg : Config) (p : Proc) (e : Ending × Option Cmd) : Prop where
  own : p.removed ≠ [] → p.initialised = true ∧ p.undo.pid_ ≠ none
  failed : p.initialised = true → Failed e → ∃ k ≤ cfg.interfaces.length,
    p.added = List.range k ∧
      (p.removed = (List.range k).reverse ∨ (p.removed = [] ∧ Defect cfg k))

structure Cloned (cfg : Config) (p : Proc) : Prop where
  live : p.ended = none → p.removed = [] ∧ Live cfg p
  dead : ∀ e, p.ended = some e → Dead cfg p e

theorem effect_passive {c : Cmd} (h : c.passive = true) (p : Proc) : p.effect c = p := by
  cases c <;> first | rfl | cases h

theorem effect_ended (c : Cmd) (p : Proc) :
    (p.effect c).ended = p.ended ∧ (p.effect c).pid = p.pid ∧ (p.effect c).removed = p.removed := by
  cases c <;> exact ⟨rfl, rfl, rfl⟩

/-- A step of the cloned process succeeds. -/
theorem Live.ok {c : Cmd} {rest : List Cmd} (h : Live cfg p) (hprog : p.prog = c :: rest)
    (hok : mayOk cfg p.undo c = true) : Live cfg { p.effect c with prog := rest } := by
  cases h with
  | before hp hundo hinit hadded =>
    rw [hp, startProg] at hprog
    obtain ⟨rfl, rfl⟩ := List.cons.inj hprog
    refine .started .scriptlets rfl rfl rfl hadded fun j hj => ?_
    omega
  | started hat hundo hinit hreg hadded hret =>
    rw [hprog] at hat
    cases hat.head with
    | add hk hrest =>
      refine .started hrest hundo hinit hreg ?_ fun j hj => ?_
      · simp only [Proc.effect, hadded, List.range_succ]
      · rcases Nat.lt_succ_iff_lt_or_eq.mp hj with hj | rfl
        · exact hret j hj
        · exact hok
    | task hk hrest =>
      refine .started hrest ?_ hinit hreg hadded hret
      simp only [Proc.effect, hundo, addTask_tasks]
    | detach => exact .detached rfl rfl
    | passive hk hc _ hrest =>
      rw [effect_passive hc]
      exact .started hrest hundo hinit hreg hadded hret
  | detached hp hundo =>
    rw [hp] at hprog
    cases hprog

theorem finish_removed {e : Ending} (h : e ≠ .exit) (p : Proc) :
    (p.finish e).removed = p.removed := if_neg fun he => h he.1

/-- An end that passes by the handler, and is no failure of a step. -/
theorem dead_silent {e : Ending × Option Cmd} (hrem : p.removed = [])
    (hfail : ¬ (p.initialised = true ∧ Failed e)) : Dead cfg p e :=
  ⟨fun hne => absurd hrem hne, fun hinit he => absurd ⟨hinit, he⟩ hfail⟩

/-- Only `initMtab` calls `_exit` in the cloned process. -/
theorem quickExit_passive {c : Cmd} {undo : Undo} (hc : c.passive = true)
    (hend : mayEnd cfg undo .quickExit c = true) : c = .initMtab := by
  cases c <;> first | rfl | (cases hc; done) | cases hend

/-- A step of the cloned process ends it. -/
theorem Live.ends {c : Cmd} {rest : List Cmd} {e : Ending} (h : Live cfg p) (hrem : p.removed = [])
    (hprog : p.prog = c :: rest) (hend : mayEnd cfg p.undo e c = true) :
    Dead cfg (p.finish e) (e, some c) := by
  cases h with
  | before hp hundo hinit hadded =>
    have hne : e ≠ .exit := by
      rintro rfl
      rw [hp, startProg] at hprog
      obtain ⟨rfl, -⟩ := List.cons.inj hprog
      cases hend
    refine dead_silent ((finish_removed hne p).trans hrem) fun hf => ?_
    have hinit' : p.initialised = true := hf.1
    rw [hinit] at hinit'
    cases hinit'
  | @started a r hat hundo hinit hreg hadded hret =>
    rw [hprog] at hat
    have hhead := hat.head
    cases e with
    | exit =>
      have hremoved : (p.finish .exit).removed = (List.range r).reverse := by
        simp only [Proc.finish, hreg, and_self, if_true, hrem, hundo, List.nil_append]
        exact atexitHandler_tasks p.pid _
      have hpid : (p.finish .exit).undo.pid_ ≠ none := by simp [Proc.finish, hundo]
      refine ⟨fun _ => ⟨hinit, hpid⟩, fun _ _ => ?_⟩
      cases hhead with
      | add hk _ => exact ⟨_, hk.le, hadded, .inl hremoved⟩
      | task _ _ => cases hend
      | detach => cases hend
      | passive hk _ _ _ => exact ⟨_, hk, hadded, .inl hremoved⟩
    | quickExit =>
      have hremoved := (finish_removed (e := .quickExit) nofun p).trans hrem
      refine ⟨fun hne => absurd hremoved hne, fun _ _ => ?_⟩
      cases hhead with
      | add _ _ => cases hend
      | task _ _ => cases hend
      | detach => cases hend
      | passive hk hc hmtab _ =>
        obtain rfl := quickExit_passive hc hend
        refine ⟨_, hk, hadded, .inr ⟨hremoved, hret, .inr ⟨hmtab rfl, ?_⟩⟩⟩
        simpa [mayEnd] using hend
    | abort =>
      have hremoved := (finish_removed (e := .abort) nofun p).trans hrem
      refine ⟨fun hne => absurd hremoved hne, fun _ hf => ?_⟩
      cases hhead with
      | add hk _ =>
        refine ⟨_, hk.le, hadded, .inr ⟨hremoved, hret, .inl ⟨hk, ?_⟩⟩⟩
        simpa [mayEnd, ReturnsAt] using hend
      | task _ _ => exact hf.elim
      | detach => exact hf.elim
      | passive _ hc _ _ =>
        cases c with
        | ifaceAdd i => cases hc
        | _ => exact hf.elim
    | exec =>
      have hremoved := (finish_removed (e := .exec) nofun p).trans hrem
      exact dead_silent hremoved fun hf => hf.2
    | killed =>
      have hremoved := (finish_removed (e := .killed) nofun p).trans hrem
      exact dead_silent hremoved fun hf => hf.2
  | detached hp hundo =>
    rw [hp] at hprog
    cases hprog

/-- `main` returns. -/
theorem Live.returns {e : Ending} (h : Live cfg p) (hrem : p.removed = []) (hprog : p.prog = []) :
    Dead cfg (p.finish e) (e, none) := by
  have hundo : p.undo.pid_ = none := by
    cases h with
    | before hp =>
      rw [hprog] at hp
      cases hp
    | started hat =>
      rw [hprog] at hat
      exact hat.ne_nil.elim
    | detached _ hundo => exact hundo
  have hremoved : (p.finish e).removed = [] := by
    simp only [Proc.finish, hrem, List.nil_append]
    split
    · exact atexitHandler_other (by rw [hundo]; nofun)
    · rfl
  refine dead_silent hremoved fun hf => ?_
  cases e <;> exact hf.2

theorem Cloned.act {ev : Event} (h : Cloned cfg p) (halive : p.ended = none)
    (hact : p.act cfg ev = some p') : Cloned cfg p' ∧ p'.pid = p.pid := by
  obtain ⟨hrem, hlive⟩ := h.live halive
  cases ev with
  | ok =>
    simp only [Proc.act] at hact
    split at hact
    · cases hact
    · rename_i c rest hprog
      split at hact <;> cases hact
      rename_i hok
      obtain ⟨hend, hpid, hremEq⟩ := effect_ended c p
      refine ⟨⟨fun _ => ⟨hremEq.trans hrem, hlive.ok hprog hok⟩, fun e he => ?_⟩, hpid⟩
      rw [hend.trans halive] at he
      cases he
  | ends e =>
    simp only [Proc.act] at hact
    split at hact
    · rename_i hprog
      split at hact <;> cases hact
      refine ⟨⟨nofun, fun e' he' => ?_⟩, rfl⟩
      obtain rfl := Option.some.inj he'
      rw [hprog]
      exact hlive.returns hrem hprog
    · rename_i c rest hprog
      split at hact <;> cases hact
      rename_i hend
      refine ⟨⟨nofun, fun e' he' => ?_⟩, rfl⟩
      obtain rfl := Option.some.inj he'
      rw [hprog]
      exact hlive.ends hrem hprog hend
  | fork pid =>
    cases hact
    exact ⟨h, rfl⟩

/-! ## The forked processes -/

/-- The first step of a process that still has the undo list of the cloned one. -/
def Cmd.leavesList : Cmd → Bool
  | .undoDetach => true
  | .execv forked => forked
  | _ => false

/-- A process that has not called `Undo_init`: the undo list is not its own. -/
structure Other (cloned : Nat) (p : Proc) : Prop where
  removed : p.removed = []
  initialised : p.initialised = false
  noInit : p.ended = none → .undoInit ∉ p.prog
  list : p.ended = none → p.undo.pid_ = none ∨
    (p.undo.pid_ = some cloned ∧ p.pid ≠ cloned ∧
      ∃ c rest, p.prog = c :: rest ∧ c.leavesList = true)

theorem effect_initialised {c : Cmd} (h : c ≠ .undoInit) (p : Proc) :
    (p.effect c).initialised = p.initialised := by
  cases c <;> first | rfl | exact absurd rfl h

theorem effect_pid_ {c : Cmd} (h : c ≠ .undoInit) {p : Proc} (hp : p.undo.pid_ = none) :
    (p.effect c).undo.pid_ = none := by
  cases c <;> first | exact hp | rfl | exact absurd rfl h

/-- The handler does nothing in a forked process. -/
theorem Other.handler (h : Other cloned p) (halive : p.ended = none) :
    atexitHandler p.undo p.pid = [] := by
  refine atexitHandler_other ?_
  rcases h.list halive with hnone | ⟨hsome, hne, -⟩
  · rw [hnone]
    nofun
  · rw [hsome]
    intro heq
    exact hne (Option.some.inj heq).symm

theorem Other.finish (h : Other cloned p) (halive : p.ended = none) (e : Ending) :
    Other cloned (p.finish e) := by
  refine ⟨?_, h.initialised, nofun, nofun⟩
  simp only [Proc.finish, h.removed, List.nil_append, h.handler halive, ite_self]

theorem Other.act {ev : Event} (h : Other cloned p) (halive : p.ended = none)
    (hact : p.act cfg ev = some p') : Other cloned p' := by
  cases ev with
  | ok =>
    simp only [Proc.act] at hact
    split at hact
    · cases hact
    · rename_i c rest hprog
      split at hact <;> cases hact
      rename_i hok
      have hinit := h.noInit halive
      rw [hprog, List.mem_cons, not_or] at hinit
      have hc : c ≠ .undoInit := fun heq => hinit.1 heq.symm
      obtain ⟨hend, hpid, hremEq⟩ := effect_ended c p
      refine ⟨hremEq.trans h.removed, (effect_initialised hc p).trans h.initialised,
        fun _ => hinit.2, fun _ => .inl ?_⟩
      rcases h.list halive with hnone | ⟨-, -, c', rest', hprog', hleaves⟩
      · exact effect_pid_ hc hnone
      · -- of the two steps, `execv` does not come back, and the other drops the list
        rw [hprog] at hprog'
        obtain ⟨rfl, -⟩ := List.cons.inj hprog'
        cases c with
        | undoDetach => rfl
        | execv forked =>
          rw [mayOk, show forked = true from hleaves] at hok
          cases hok
        | _ => cases hleaves
  | ends e =>
    simp only [Proc.act] at hact
    split at hact
    · split at hact <;> cases hact
      exact h.finish halive e
    · split at hact <;> cases hact
      exact h.finish halive e
  | fork pid =>
    cases hact
    exact h

/-- What a step forks does not initialise the list, and leaves it first. -/
theorem child_spec {c : Cmd} {rest prog : List Cmd} (h : child cfg rest c = some prog)
    (hrest : .undoInit ∉ rest) :
    .undoInit ∉ prog ∧ (∃ d tail, prog = d :: tail ∧ d.leavesList = true) ∧
      c.leavesList = false ∧ c ≠ .undoInit := by
  cases c with
  | execScriptlets =>
    cases h
    exact ⟨by decide, ⟨_, _, rfl, rfl⟩, rfl, nofun⟩
  | ifaceAdd i =>
    simp only [child] at h
    split at h <;> cases h
    exact ⟨by decide, ⟨_, _, rfl, rfl⟩, rfl, nofun⟩
  | initMtab =>
    cases h
    exact ⟨by decide, ⟨_, _, rfl, rfl⟩, rfl, nofun⟩
  | mountVserverInternal =>
    cases h
    refine ⟨?_, ⟨_, _, rfl, rfl⟩, rfl, nofun⟩
    simpa using hrest
  | _ => cases h

/-- The cloned process forks another one. -/
theorem Live.fork {pid : Nat} {q : Proc} (h : Live cfg p) (hpid : p.pid ≠ pid)
    (hfork : p.forked cfg (.fork pid) = some q) : Other p.pid q := by
  simp only [Proc.forked] at hfork
  split at hfork
  · cases hfork
  · rename_i c rest hprog
    obtain ⟨prog, hchild, rfl⟩ := Option.map_eq_some_iff.mp hfork
    cases h with
    | before hp =>
      rw [hp, startProg] at hprog
      obtain ⟨rfl, -⟩ := List.cons.inj hprog
      cases hchild
    | started hat hundo =>
      rw [hprog] at hat
      have hrest : .undoInit ∉ rest := by
        cases hat.head with
        | add _ hrest => exact hrest.undoInit
        | task _ hrest => exact hrest.undoInit
        | detach => exact List.not_mem_nil
        | passive _ _ _ hrest => exact hrest.undoInit
      obtain ⟨hinit, hleaves, -⟩ := child_spec hchild hrest
      exact ⟨rfl, rfl, fun _ => hinit, fun _ => .inr ⟨by rw [hundo], Ne.symm hpid, hleaves⟩⟩
    | detached hp =>
      rw [hp] at hprog
      cases hprog

/-- A forked process forks another one: the list is no longer there. -/
theorem Other.fork {pid : Nat} {q : Proc} (h : Other cloned p) (halive : p.ended = none)
    (hfork : p.forked cfg (.fork pid) = some q) : Other cloned q := by
  simp only [Proc.forked] at hfork
  split at hfork
  · cases hfork
  · rename_i c rest hprog
    obtain ⟨prog, hchild, rfl⟩ := Option.map_eq_some_iff.mp hfork
    have hnoInit := h.noInit halive
    rw [hprog, List.mem_cons, not_or] at hnoInit
    obtain ⟨hinit, -, hstays, -⟩ := child_spec hchild hnoInit.2
    refine ⟨rfl, rfl, fun _ => hinit, fun _ => .inl ?_⟩
    rcases h.list halive with hnone | ⟨-, -, c', rest', hprog', hleaves⟩
    · exact hnone
    · rw [hprog] at hprog'
      obtain ⟨rfl, -⟩ := List.cons.inj hprog'
      rw [hstays] at hleaves
      cases hleaves

/-! ## All processes -/

/-- The cloned process is the second one. -/
structure Inv (cfg : Config) (cloned : Nat) (s : State) : Prop where
  two : 2 ≤ s.length
  own : ∀ p, s[1]? = some p → p.pid = cloned ∧ Cloned cfg p
  others : ∀ i p, i ≠ 1 → s[i]? = some p → Other cloned p

theorem Inv.step {s s' : State} {l : Nat × Event} (h : Inv cfg cloned s)
    (hstep : Step cfg s l s') : Inv cfg cloned s' := by
  obtain ⟨i, ev⟩ := l
  simp only [Step, next] at hstep
  split at hstep
  · cases hstep
  · rename_i p hp
    split at hstep
    · cases hstep
    · rename_i hended
      have halive : p.ended = none := by simpa using hended
      split at hstep
      · rename_i pid
        split at hstep
        · rename_i hfresh
          obtain ⟨q, hq, rfl⟩ := Option.map_eq_some_iff.mp hstep
          have hother : Other cloned q := by
            by_cases hi : i = 1
            · subst hi
              obtain ⟨hpid, hown⟩ := h.own p hp
              have hne := hfresh p (List.mem_of_getElem? hp) halive
              rw [← hpid]
              exact (hown.live halive).2.fork hne hq
            · exact (h.others i p hi hp).fork halive hq
          have htwo := h.two
          refine ⟨by rw [List.length_append]; omega, fun p' hp' => ?_, fun j p' hj hp' => ?_⟩
          · rw [List.getElem?_append_left (by omega)] at hp'
            exact h.own p' hp'
          · rw [List.getElem?_append] at hp'
            split at hp'
            · exact h.others j p' hj hp'
            · obtain rfl := List.mem_singleton.mp (List.mem_of_getElem? hp')
              exact hother
        · cases hstep
      · obtain ⟨p', hact, rfl⟩ := Option.map_eq_some_iff.mp hstep
        have hlt : i < s.length := (List.getElem?_eq_some_iff.mp hp).1
        refine ⟨by rw [List.length_set]; exact h.two, fun r hr => ?_, fun j r hj hr => ?_⟩
        · by_cases hi : i = 1
          · subst hi
            rw [List.getElem?_set_self hlt] at hr
            obtain rfl := Option.some.inj hr
            obtain ⟨hpid, hown⟩ := h.own p hp
            obtain ⟨hcl, heq⟩ := hown.act halive hact
            exact ⟨heq.trans hpid, hcl⟩
          · rw [List.getElem?_set_ne hi] at hr
            exact h.own r hr
        · by_cases hi : i = j
          · subst hi
            rw [List.getElem?_set_self hlt] at hr
            obtain rfl := Option.some.inj hr
            exact (h.others i p hj hp).act halive hact
          · rw [List.getElem?_set_ne hi] at hr
            exact h.others j r hj hr

theorem inv_initial (cfg : Config) (parent cloned : Nat) :
    Inv cfg cloned (initial cfg parent cloned) := by
  refine ⟨Nat.le_refl 2, ?_, ?_⟩
  · intro p hp
    cases hp
    exact ⟨rfl, fun _ => ⟨rfl, .before rfl rfl rfl rfl⟩, nofun⟩
  · intro i p hi hp
    match i, hp with
    | 0, hp =>
      cases hp
      have hinit : .undoInit ∉ parentProg := by decide
      exact ⟨rfl, rfl, fun _ => hinit, fun _ => .inl rfl⟩
    | 1, _ => exact absurd rfl hi
    | i + 2, hp => cases hp

/-- The invariant holds in every state of every run. -/
theorem inv_run {parent : Nat} {s : State} {ls : List (Nat × Event)}
    (hrun : Run (Step cfg) (initial cfg parent cloned) ls s) : Inv cfg cloned s :=
  Run.invariant (fun _ _ _ hi hstep => hi.step hstep) hrun (inv_initial cfg parent cloned)

/-! ## Rollback -/

theorem Other.rollsBack {n : Nat} (h : Other cloned p) : RollsBack n p := by
  refine ⟨fun hne => absurd h.removed hne, fun _ => h.removed, fun _ _ => h.removed, ?_⟩
  intro e _ hinit
  rw [h.initialised] at hinit
  cases hinit

/-- The configuration leaves a way out only when nothing was added. -/
theorem Covered.defect {k : Nat} (h : Covered cfg) (hd : Defect cfg k) : k = 0 := by
  obtain ⟨hret, hend⟩ := hd
  by_contra hk
  have h0 : ReturnsAt cfg 0 := hret 0 (by omega)
  cases hi : cfg.interfaces with
  | nil =>
    rw [ReturnsAt, hi] at h0
    cases h0
  | cons first rest =>
    rw [ReturnsAt, hi] at h0
    obtain ⟨hrest, hmtab⟩ := h first rest hi h0
    rcases hend with ⟨hlt, hnot⟩ | ⟨-, hbad⟩
    · obtain ⟨j, rfl⟩ : ∃ j, k = j + 1 := ⟨k - 1, by omega⟩
      rw [hi, List.length_cons, Nat.add_lt_add_iff_right] at hlt
      refine hnot ?_
      rw [ReturnsAt, hi, List.getElem?_cons_succ, List.getElem?_eq_getElem hlt]
      exact hrest _ (List.getElem_mem hlt)
    · rw [hmtab] at hbad
      cases hbad

theorem exists_defect (h : ¬ Covered cfg) :
    ∃ k, 0 < k ∧ k ≤ cfg.interfaces.length ∧ Defect cfg k := by
  simp only [Covered, not_forall] at h
  obtain ⟨first, rest, hi, hfirst, hbad⟩ := h
  have h0 : ReturnsAt cfg 0 := by
    rw [ReturnsAt, hi]
    exact hfirst
  by_cases hall : ∀ j < cfg.interfaces.length, ReturnsAt cfg j
  · refine ⟨cfg.interfaces.length, by rw [hi]; exact Nat.succ_pos _, Nat.le_refl _, hall,
      .inr ⟨rfl, ?_⟩⟩
    rw [← Bool.not_eq_true]
    refine fun hmtab => hbad ⟨fun iface hmem => ?_, hmtab⟩
    obtain ⟨j, hj, rfl⟩ := List.mem_iff_getElem.mp hmem
    have hret := hall (j + 1) (by rw [hi, List.length_cons]; omega)
    rwa [ReturnsAt, hi, List.getElem?_cons_succ, List.getElem?_eq_getElem hj] at hret
  · have hex : ∃ j, j < cfg.interfaces.length ∧ ¬ ReturnsAt cfg j := by
      simpa only [not_forall, exists_prop] using hall
    classical
    obtain ⟨hlt, hnot⟩ := Nat.find_spec hex
    refine ⟨Nat.find hex, Nat.pos_of_ne_zero fun hz => ?_, hlt.le, fun j hj => ?_,
      .inl ⟨hlt, hnot⟩⟩
    · rw [hz] at hnot
      exact hnot h0
    · by_contra hj'
      exact Nat.find_min hex hj ⟨hj.trans hlt, hj'⟩

theorem Cloned.rollsBack (h : Cloned cfg p) (hcov : Covered cfg) :
    RollsBack cfg.interfaces.length p := by
  have hdead : p.removed ≠ [] → p.initialised = true ∧ p.undo.pid_ ≠ none := by
    intro hne
    cases hend : p.ended with
    | none => exact absurd (h.live hend).1 hne
    | some e => exact (h.dead e hend).own hne
  refine ⟨fun hne => (hdead hne).1, fun hend => (h.live hend).1, fun _ hnone => ?_, ?_⟩
  · by_contra hne
    exact (hdead hne).2 hnone
  · intro e hend hinit hfail
    obtain ⟨k, hk, hadded, hrem⟩ := (h.dead e hend).failed hinit hfail
    refine ⟨k, hk, hadded, ?_⟩
    rcases hrem with hrem | ⟨hrem, hd⟩
    · exact hrem
    · rw [hrem, hcov.defect hd]
      rfl

/-- Every run of a covered configuration rolls back. -/
theorem rollback_of_covered {parent : Nat} (hcov : Covered cfg) {s : State}
    {ls : List (Nat × Event)} (hrun : Run (Step cfg) (initial cfg parent cloned) ls s) :
    Rollback cfg s := by
  have hi := inv_run hrun
  intro p hp
  obtain ⟨i, hlt, rfl⟩ := List.mem_iff_getElem.mp hp
  have hget : s[i]? = some s[i] := List.getElem?_eq_getElem hlt
  by_cases h1 : i = 1
  · subst h1
    exact (hi.own _ hget).2.rollsBack hcov
  · exact (hi.others i _ h1 hget).rollsBack

/-! ## Ways out -/

/-- The cloned process with `a` interfaces added and `r` tasks registered. -/
def placed (cloned : Nat) (prog : List Cmd) (a r : Nat) : Proc :=
  ⟨cloned, ⟨some cloned, tasks r⟩, true, prog, true, List.range a, [], none⟩

def parentProc (parent : Nat) : Proc :=
  ⟨parent, ⟨none, []⟩, false, parentProg, false, [], [], none⟩

section Steps

variable {x : Proc} {c : Cmd} {rest : List Cmd} {a r k : Nat}

theorem step_add (hok : ReturnsAt cfg k) :
    Step cfg [x, placed cloned (.ifaceAdd k :: rest) k k] (1, .ok)
      [x, placed cloned rest (k + 1) k] := by
  have hmay : mayOk cfg ⟨some cloned, tasks k⟩ (.ifaceAdd k) = true := hok
  simp [Step, next, Proc.act, placed, hmay, Proc.effect, List.range_succ]

theorem step_task : Step cfg [x, placed cloned (.undoAddTask k :: rest) (k + 1) k] (1, .ok)
    [x, placed cloned rest (k + 1) (k + 1)] := by
  simp [Step, next, Proc.act, placed, mayOk, Proc.effect, addTask_tasks]

theorem step_passive (hc : c.passive = true) :
    Step cfg [x, placed cloned (c :: rest) a r] (1, .ok) [x, placed cloned rest a r] := by
  have hmay : mayOk cfg ⟨some cloned, tasks r⟩ c = true := by
    cases c <;> first | rfl | cases hc
  simp [Step, next, Proc.act, placed, hmay, effect_passive hc]

theorem step_ends {e : Ending} (hend : mayEnd cfg ⟨some cloned, tasks r⟩ e c = true) :
    Step cfg [x, placed cloned (c :: rest) a r] (1, .ends e)
      [x, (placed cloned (c :: rest) a r).finish e] := by
  simp [Step, next, Proc.act, placed, hend]

end Steps

/-- Every number of interfaces that `Iface_add` comes back for can be added. -/
theorem reach_added (cfg : Config) (parent cloned : Nat) : ∀ k ≤ cfg.interfaces.length,
    (∀ j < k, ReturnsAt cfg j) → ∃ ls, Run (Step cfg) (initial cfg parent cloned) ls
      [parentProc parent, placed cloned
        (activateInterfaces k (cfg.interfaces.length - k) ++ laterProg) k k] := by
  intro k
  induction k with
  | zero =>
    intro _ _
    have hinit : Step cfg (initial cfg parent cloned) (1, .ok) [parentProc parent, placed cloned
        (.execScriptlets :: (activateInterfaces 0 cfg.interfaces.length ++ laterProg)) 0 0] := rfl
    exact ⟨_, (Run.single hinit).snoc (step_passive rfl)⟩
  | succ k ih =>
    intro hk hret
    obtain ⟨ls, hrun⟩ := ih (by omega) fun j hj => hret j (by omega)
    rw [activate_succ (by omega)] at hrun
    exact ⟨_, (hrun.snoc (step_add (hret k (by omega)))).snoc step_task⟩

/-- The cloned process ends without the handler, and something was added. -/
theorem not_rollback {parent k : Nat} {c : Cmd} {rest : List Cmd} {e : Ending} (hk : 0 < k)
    (he : e ≠ .exit) (hfail : Failed (e, some c)) :
    ¬ Rollback cfg [parentProc parent, (placed cloned (c :: rest) k k).finish e] := by
  intro h
  obtain ⟨k', -, hadded, hrem⟩ :=
    (h _ (List.mem_cons_of_mem _ (List.mem_singleton_self _))).failed (e, some c) rfl rfl hfail
  rw [finish_removed he] at hrem
  have hlen := congrArg List.length hadded
  have hlen' := congrArg List.length hrem
  simp only [Proc.finish, placed, List.length_range, List.length_reverse,
    List.length_nil] at hlen hlen'
  omega

/-- A way out that passes by the handler can be taken. -/
theorem not_rollback_of_defect (parent cloned : Nat) {k : Nat} (hk : 0 < k)
    (hle : k ≤ cfg.interfaces.length) (hd : Defect cfg k) :
    ∃ ls s, Run (Step cfg) (initial cfg parent cloned) ls s ∧ ¬ Rollback cfg s := by
  obtain ⟨hret, hend⟩ := hd
  obtain ⟨ls, hrun⟩ := reach_added cfg parent cloned k hle hret
  rcases hend with ⟨hlt, hnot⟩ | ⟨rfl, hmtab⟩
  · rw [activate_succ hlt] at hrun
    have hmay : mayEnd cfg ⟨some cloned, tasks k⟩ .abort (.ifaceAdd k) = true := by
      simpa [mayEnd, ReturnsAt] using hnot
    exact ⟨_, _, hrun.snoc (step_ends hmay), not_rollback hk nofun trivial⟩
  · rw [Nat.sub_self, activateInterfaces, List.nil_append, laterProg] at hrun
    have hmay : mayEnd cfg ⟨some cloned, tasks cfg.interfaces.length⟩ .quickExit .initMtab =
        true := by simp [mayEnd, hmtab]
    have hcreated := (hrun.snoc (step_passive rfl)).snoc (step_passive rfl)
    exact ⟨_, _, hcreated.snoc (step_ends hmay), not_rollback hk nofun trivial⟩

/-- **The start rolls back in every run** exactly when no way out passes by the handler once an
interface was added. -/
theorem rollback_exact (cfg : Config) (parent cloned : Nat) :
    (∀ ls s, Run (Step cfg) (initial cfg parent cloned) ls s → Rollback cfg s) ↔ Covered cfg := by
  constructor
  · intro h
    by_contra hcov
    obtain ⟨k, hk, hle, hd⟩ := exists_defect hcov
    obtain ⟨ls, s, hrun, hbad⟩ := not_rollback_of_defect parent cloned hk hle hd
    exact hbad (h ls s hrun)
  · intro hcov ls s hrun
    exact rollback_of_covered hcov hrun

def eth0 : Interface := ⟨false, some ['e', 't', 'h', '0'], true⟩

/-- A VLAN device is the second interface. -/
def vlanConfig : Config := ⟨[eth0, ⟨false, some ['e', 't', 'h', '0', '.', '5'], true⟩], true⟩

/-- Both steps in front of the interfaces, one interface, and `abort()`. -/
def vlanRun : List (Nat × Event) := [(1, .ok), (1, .ok), (1, .ok), (1, .ok), (1, .ends .abort)]

/-- The `mtab` file cannot be read. -/
def mtabConfig : Config := ⟨[eth0], false⟩

/-- One interface, the context, its flag, and `_exit` in `initMtab`. -/
def mtabRun : List (Nat × Event) :=
  [(1, .ok), (1, .ok), (1, .ok), (1, .ok), (1, .ok), (1, .ok), (1, .ends .quickExit)]

theorem rollback_skipped :
    (∃ s, Run (Step vlanConfig) (initial vlanConfig 1 2) vlanRun s ∧ ¬ Rollback vlanConfig s) ∧
      ∃ s, Run (Step mtabConfig) (initial mtabConfig 1 2) mtabRun s ∧ ¬ Rollback mtabConfig s := by
  have hvlan : runLabels (next vlanConfig) vlanRun (initial vlanConfig 1 2) =
      some [parentProc 1,
        (placed 2 (.ifaceAdd 1 :: .undoAddTask 1 :: laterProg) 1 1).finish .abort] := rfl
  have hmtab : runLabels (next mtabConfig) mtabRun (initial mtabConfig 1 2) =
      some [parentProc 1, (placed 2 (laterProg.drop 2) 1 1).finish .quickExit] := rfl
  exact ⟨⟨_, run_of_runLabels hvlan, not_rollback Nat.one_pos nofun trivial⟩,
    ⟨_, run_of_runLabels hmtab, not_rollback Nat.one_pos nofun trivial⟩⟩

end StartUndo
