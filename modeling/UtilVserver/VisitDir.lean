import UtilVserver.PathInfo

/-!
# `visitDir` (`src/vserver-visitdir.hc` and `lib_internal/util-safechdir.c`)

The tools include the function and define the callback `visitDirEntry`, which calls `visitDir`
again.  A wrapper that fails ends the program.

* `Kernel` — what the calls find.
* `safeChdir`, `visitDir` — the code, for any callback.
* `Entry`, `callback` — a callback that moves only through `visitDir`, and the recursion.
* `calls` — the calls of the callback, with what it finds.

Principal results: `visitDir_restores` and `visitDir_disciplined`.
-/

set_option autoImplicit false

namespace VisitDir

open CString PathInfo

/-- `st_dev` and `st_ino`. -/
structure Ident where
  dev : Nat
  ino : Nat
  deriving DecidableEq

/-- The calls, for a directory that is open; the callbacks may change what they depend on. -/
structure Kernel (σ D : Type) where
  ident : D → Ident
  /-- `open(".", O_RDONLY)` works. -/
  «open» : σ → D → Bool
  /-- The directory that a name leads to, through a symlink, too. -/
  chdir : σ → D → Text → Option D
  /-- `stat(".")` works. -/
  stat : σ → D → Bool
  /-- The names that `readdir` gives after `opendir(".")`, and whether no error follows. -/
  opendir : σ → D → Option (List Text × Bool)
  fchdir : σ → D → Bool

/-- `global_info.state`, the working directory, and all else. -/
structure World (σ D : Type) where
  state : Text
  cwd : D
  rest : σ

/-- What a function of the walk returns, or what is left when the program ends. -/
inductive Visit (σ D : Type) where
  | returned (res : BitVec 64) (w : World σ D)
  | exited (rest : σ)

abbrev Callback (σ D : Type) := Text → World σ D → Visit σ D

variable {σ D : Type}

/-- `safeChdir`: the new directory; none for its result -1. -/
def safeChdir (k : Kernel σ D) (w : World σ D) (path : Text) (expStat : Ident) : Option D :=
  if '/' ∈ path then none
  else
    match k.chdir w.rest w.cwd path with
    | none => none
    | some dir =>
      if k.stat w.rest dir then if expStat = k.ident dir then some dir else none
      else none

/-- The loop over the entries. -/
def loop (visitDirEntry : Callback σ D) : List Text → BitVec 64 → World σ D → Visit σ D
  | [], res, w => .returned res w
  | ent :: ents, res, w =>
    match visitDirEntry ent w with
    | .exited rest => .exited rest
    | .returned r w => loop visitDirEntry ents (res + r) w

/-- The directory that is read, when it is entered. -/
def enter (k : Kernel σ D) (name : Text) (expectedStat : Option Ident) (w : World σ D) :
    Option D :=
  match expectedStat with
  | some st => safeChdir k w name st
  | none => some w.cwd

/-- `visitDir`. -/
def visitDir (k : Kernel σ D) (visitDirEntry : Callback σ D) (name : Text)
    (expectedStat : Option Ident) (w : World σ D) : Visit σ D :=
  if k.open w.rest w.cwd then
    let fd := w.cwd
    let oldState := w.state
    match enter k name expectedStat w with
    | none => .exited w.rest
    | some cwd =>
      match k.opendir w.rest cwd with
      | none => .exited w.rest
      | some (ents, ok) =>
        match loop visitDirEntry ents 0#64 ⟨append w.state name, cwd, w.rest⟩ with
        | .exited rest => .exited rest
        | .returned res w =>
          if ok && k.fchdir w.rest fd then .returned res ⟨oldState, fd, w.rest⟩
          else .exited w.rest
  else .exited w.rest

/-! ## Callbacks -/

/-- On return, the path and the working directory are those at the call. -/
def Restores (f : World σ D → Visit σ D) : Prop :=
  ∀ w res w', f w = .returned res w' → w'.state = w.state ∧ w'.cwd = w.cwd

/-- A callback that changes the path and the working directory only through `visitDir`, its
argument. -/
structure Entry (σ D : Type) where
  call : (Text → Option Ident → World σ D → Visit σ D) → Callback σ D
  restores : ∀ visit, (∀ name st, Restores (visit name st)) → ∀ ent, Restores (call visit ent)

/-- The callback with `visitDir` for its argument; the stack holds `depth` calls. -/
def callback (k : Kernel σ D) (e : Entry σ D) : Nat → Callback σ D
  | 0 => fun _ w => .exited w.rest
  | depth + 1 => e.call (visitDir k (callback k e depth))

/-- The calls of the callback in the loop: the entry, and what it finds. -/
def calls (visitDirEntry : Callback σ D) : List Text → World σ D → List (Text × World σ D)
  | [], _ => []
  | ent :: ents, w =>
    (ent, w) :: match visitDirEntry ent w with
      | .exited _ => []
      | .returned _ w => calls visitDirEntry ents w

/-- The calls of the callback in `visitDir`. -/
def callsIn (k : Kernel σ D) (visitDirEntry : Callback σ D) (name : Text)
    (expectedStat : Option Ident) (w : World σ D) : List (Text × World σ D) :=
  if k.open w.rest w.cwd then
    match enter k name expectedStat w with
    | none => []
    | some cwd =>
      match k.opendir w.rest cwd with
      | none => []
      | some (ents, _) => calls visitDirEntry ents ⟨append w.state name, cwd, w.rest⟩
  else []

/-- A walk through one directory:

* whatever the callback does, the path and the working directory are restored on return;
* then the callback has been called for the entries of the directory one after the other;
* one that restores finds the directory's path at each call, and its own entry is not in it;
* a directory other than the expected one is not read. -/
structure Disciplined (k : Kernel σ D) (visitDirEntry : Callback σ D) (name : Text)
    (expectedStat : Option Ident) (w : World σ D) : Prop where
  restored : ∀ res w', visitDir k visitDirEntry name expectedStat w = .returned res w' →
    w'.state = w.state ∧ w'.cwd = w.cwd
  called : ∀ res w', visitDir k visitDirEntry name expectedStat w = .returned res w' →
    ∃ cwd, enter k name expectedStat w = some cwd ∧
      k.opendir w.rest cwd =
        some ((callsIn k visitDirEntry name expectedStat w).map Prod.fst, true)
  path : (∀ ent, Restores (visitDirEntry ent)) →
    ∀ c ∈ callsIn k visitDirEntry name expectedStat w,
      c.2.state = append w.state name ∧ enter k name expectedStat w = some c.2.cwd
  refused : ∀ st cwd, expectedStat = some st → k.chdir w.rest w.cwd name = some cwd →
    k.ident cwd ≠ st → visitDir k visitDirEntry name expectedStat w = .exited w.rest

/-- The entries other than `.` and `..` find their own path. -/
def ExtendsPath (k : Kernel σ D) (visitDirEntry : Callback σ D) (name : Text)
    (expectedStat : Option Ident) (w : World σ D) : Prop :=
  ∀ c ∈ callsIn k visitDirEntry name expectedStat w, isDotfile c.1 = false →
    c.2.state = append (append w.state name) c.1

/-! ## The walk -/

/-- How a call of `visitDir` returns. -/
theorem visitDir_returned {k : Kernel σ D} {f : Callback σ D} {name : Text} {st : Option Ident}
    {w w' : World σ D} {res : BitVec 64} (h : visitDir k f name st w = .returned res w') :
    k.open w.rest w.cwd = true ∧ ∃ cwd ents w₁, enter k name st w = some cwd ∧
      k.opendir w.rest cwd = some (ents, true) ∧
      loop f ents 0#64 ⟨append w.state name, cwd, w.rest⟩ = .returned res w₁ ∧
      w' = ⟨w.state, w.cwd, w₁.rest⟩ := by
  unfold visitDir at h
  split at h
  · rename_i hopen
    refine ⟨hopen, ?_⟩
    cases henter : enter k name st w with
    | none => simp only [henter] at h; cases h
    | some cwd =>
      cases hlist : k.opendir w.rest cwd with
      | none => simp only [henter, hlist] at h; cases h
      | some l =>
        obtain ⟨ents, ok⟩ := l
        simp only [henter, hlist] at h
        cases hloop : loop f ents 0#64 ⟨append w.state name, cwd, w.rest⟩ with
        | exited rest => simp only [hloop] at h; cases h
        | returned r w₁ =>
          simp only [hloop] at h
          split at h
          · rename_i hok
            rw [Bool.and_eq_true] at hok
            cases h
            rw [hok.1] at hlist
            exact ⟨cwd, ents, w₁, rfl, hlist, hloop, rfl⟩
          · cases h
  · cases h

/-- **Whatever the callback does, the path and the working directory are restored.** -/
theorem visitDir_restores (k : Kernel σ D) (f : Callback σ D) (name : Text) (st : Option Ident) :
    Restores (visitDir k f name st) := by
  intro w res w' h
  obtain ⟨-, cwd, ents, w₁, -, -, -, rfl⟩ := visitDir_returned h
  exact ⟨rfl, rfl⟩

theorem callback_restores (k : Kernel σ D) (e : Entry σ D) (depth : Nat) :
    ∀ ent, Restores (callback k e depth ent) := by
  cases depth with
  | zero => exact fun ent w res w' h => by cases h
  | succ depth => exact e.restores _ (visitDir_restores k (callback k e depth))

/-! ## The calls -/

theorem calls_of_returned {f : Callback σ D} {ents : List Text} {res res' : BitVec 64}
    {w w' : World σ D} (h : loop f ents res w = .returned res' w') :
    (calls f ents w).map Prod.fst = ents := by
  induction ents generalizing res w with
  | nil => rfl
  | cons ent ents ih =>
    unfold loop at h
    unfold calls
    cases hcall : f ent w with
    | exited rest => simp only [hcall] at h; cases h
    | returned r w₁ =>
      simp only [hcall] at h
      rw [List.map_cons, ih h]

theorem calls_state {f : Callback σ D} (hf : ∀ ent, Restores (f ent)) (ents : List Text)
    (w : World σ D) : ∀ c ∈ calls f ents w, c.2.state = w.state ∧ c.2.cwd = w.cwd := by
  induction ents generalizing w with
  | nil => intro c hc; cases hc
  | cons ent ents ih =>
    intro c hc
    rcases List.mem_cons.1 hc with rfl | hc
    · exact ⟨rfl, rfl⟩
    · cases hcall : f ent w with
      | exited rest => rw [hcall] at hc; cases hc
      | returned r w₁ =>
        rw [hcall] at hc
        obtain ⟨hstate, hcwd⟩ := hf ent w r w₁ hcall
        obtain ⟨hs, hd⟩ := ih w₁ c hc
        exact ⟨hs.trans hstate, hd.trans hcwd⟩

theorem enter_refused {k : Kernel σ D} {name : Text} {w : World σ D} {st : Ident}
    {cwd : D} (hchdir : k.chdir w.rest w.cwd name = some cwd) (hne : k.ident cwd ≠ st) :
    enter k name (some st) w = none := by
  simp only [enter, safeChdir, hchdir, if_neg (Ne.symm hne), ite_self]

/-- **The walk through one directory, for every callback; those of the recursion restore what
they find.** -/
theorem visitDir_disciplined (k : Kernel σ D) (visitDirEntry : Callback σ D) (name : Text)
    (expectedStat : Option Ident) (w : World σ D) :
    Disciplined k visitDirEntry name expectedStat w ∧
      ∀ (e : Entry σ D) (depth : Nat) (ent : Text), Restores (callback k e depth ent) := by
  refine ⟨⟨visitDir_restores k visitDirEntry name expectedStat w, ?_, ?_, ?_⟩,
    callback_restores k⟩
  · intro res w' h
    obtain ⟨hopen, cwd, ents, w₁, henter, hlist, hloop, -⟩ := visitDir_returned h
    refine ⟨cwd, henter, ?_⟩
    simp only [callsIn, hopen, if_true, henter, hlist, calls_of_returned hloop]
  · intro hrestores c hc
    unfold callsIn at hc
    split at hc
    · cases henter : enter k name expectedStat w with
      | none => simp only [henter] at hc; cases hc
      | some cwd =>
        cases hlist : k.opendir w.rest cwd with
        | none => simp only [henter, hlist] at hc; cases hc
        | some l =>
          simp only [henter, hlist] at hc
          obtain ⟨hstate, hcwd⟩ := calls_state hrestores l.1 _ c hc
          exact ⟨hstate, by rw [hcwd]⟩
    · cases hc
  · rintro st cwd rfl hchdir hne
    simp only [visitDir, enter_refused hchdir hne, ite_self]

/-- A directory with the entry `etc` under the path `/`: the callback finds `/`, not `/etc`. -/
theorem visitDir_path :
    ¬ ∀ (k : Kernel Unit Ident) (f : Callback Unit Ident) (name : Text) (st : Option Ident)
      (w : World Unit Ident), ExtendsPath k f name st w := by
  intro h
  have hcall := h ⟨id, fun _ _ => true, fun _ _ _ => none, fun _ _ => true,
    fun _ _ => some (["etc".toList], true), fun _ _ => true⟩ (fun _ w => .returned 0#64 w)
    "/".toList none ⟨[], ⟨1, 2⟩, ()⟩
    ("etc".toList, ⟨append [] "/".toList, ⟨1, 2⟩, ()⟩) List.mem_cons_self (by decide)
  have hroot : append [] "/".toList = "/".toList := by simp [append, dropSlashes]
  have hetc : append "/".toList "etc".toList = "/etc".toList := by simp [append, dropSlashes]
  simp only [hroot, hetc] at hcall
  revert hcall
  decide

end VisitDir
