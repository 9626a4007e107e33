import UtilVserver.Lib.FileSystem

/-!
# `mkdirRecursive`

Creates the directories in front of the last slash of a path: upwards until one of them is there
or can be created, and downwards again from it.

* `slashPrefixes` — the parts of the path in front of its slashes.
* `mkdirSingle`, `climb`, `descend`, `mkdirRecursiveWith` — the function, for any `mkdir`.
* `mkdir`, `mkdirRecursive` — the function on directory entries and inodes.

Principal results: `mkdirRecursiveWith_rel` (what every `mkdir` does to the state, the whole run
does) and `mkdirRecursive_grows` (nothing but new directories).
-/

set_option autoImplicit false

namespace Mkdir

open CString FileSystem FS

/-- What `mkdir(2)` answers. -/
inductive Answer where
  | made | EEXIST | ENOENT | other
  deriving DecidableEq

inductive Result where
  | success | skip | fail
  deriving DecidableEq

/-- What stands in front of each slash, the longest first. -/
def slashPrefixes (path : Text) : List Text :=
  ((List.range path.length).filter fun i => path[i]? = some '/').reverse.map path.take

section Run

variable {σ : Type} (mkdir : Text → σ → Answer × σ)

/-- `mkdirSingle`; `skipMissing` says that `good_err` is `ENOENT`. -/
def mkdirSingle (path : Text) (skipMissing : Bool) (s : σ) : Result × σ :=
  match mkdir path s with
  | (.made, s) => (.success, s)
  | (.EEXIST, s) => (.success, s)
  | (.ENOENT, s) => (if skipMissing then .skip else .fail, s)
  | (.other, s) => (.fail, s)

/-- The second loop: every directory has to be there or to be created. -/
def descend : List Text → σ → Bool × σ
  | [], s => (true, s)
  | p :: ps, s =>
    match mkdirSingle mkdir p false s with
    | (.success, s) => descend ps s
    | (_, s) => (false, s)

/-- The first loop; `skipped` are the directories that wait for their parents.  It ends when `ptr`
is not behind the start of the buffer. -/
def climb : List Text → List Text → σ → Bool × σ
  | [], skipped, s => descend mkdir skipped s
  | p :: ps, skipped, s =>
    match mkdirSingle mkdir p true s with
    | (.success, s) => descend mkdir skipped s
    | (.skip, s) =>
      if p.length ≤ 1 then descend mkdir (p :: skipped) s else climb ps (p :: skipped) s
    | (.fail, s) => (false, s)

/-- Only absolute paths are accepted.  In the path of a single slash the first loop is not
entered. -/
def mkdirRecursiveWith (path : Text) (s : σ) : Bool × σ :=
  if path.head? ≠ some '/' then (false, s)
  else if path.length ≤ 1 then (true, s)
  else climb mkdir (slashPrefixes path) [] s

/-! ## What a run does to the state -/

theorem mkdirSingle_snd (path : Text) (skipMissing : Bool) (s : σ) :
    (mkdirSingle mkdir path skipMissing s).2 = (mkdir path s).2 := by
  unfold mkdirSingle
  split <;> rename_i h <;> rw [h]

variable {R : σ → σ → Prop}

theorem descend_rel (hrefl : ∀ s, R s s) (htrans : ∀ {s s₁ s₂}, R s s₁ → R s₁ s₂ → R s s₂)
    (hstep : ∀ p s, R s (mkdir p s).2) (ps : List Text) (s : σ) :
    R s (descend mkdir ps s).2 := by
  induction ps generalizing s with
  | nil => exact hrefl s
  | cons p ps ih =>
    have hp := hstep p s
    rw [← mkdirSingle_snd mkdir p false s] at hp
    unfold descend
    split
    · rename_i s₁ hrun
      rw [hrun] at hp
      exact htrans hp (ih s₁)
    · rename_i s₁ _ hrun
      rw [hrun] at hp
      exact hp

theorem climb_rel (hrefl : ∀ s, R s s) (htrans : ∀ {s s₁ s₂}, R s s₁ → R s₁ s₂ → R s s₂)
    (hstep : ∀ p s, R s (mkdir p s).2) (ps skipped : List Text) (s : σ) :
    R s (climb mkdir ps skipped s).2 := by
  have hdescend := descend_rel mkdir hrefl htrans hstep
  induction ps generalizing skipped s with
  | nil => exact hdescend skipped s
  | cons p ps ih =>
    have hp := hstep p s
    rw [← mkdirSingle_snd mkdir p true s] at hp
    unfold climb
    split
    · rename_i s₁ hrun
      rw [hrun] at hp
      exact htrans hp (hdescend skipped s₁)
    · rename_i s₁ hrun
      rw [hrun] at hp
      split
      · exact htrans hp (hdescend _ s₁)
      · exact htrans hp (ih _ s₁)
    · rename_i s₁ hrun
      rw [hrun] at hp
      exact hp

/-- **What every `mkdir` does to the state, the whole run does.** -/
theorem mkdirRecursiveWith_rel (hrefl : ∀ s, R s s)
    (htrans : ∀ {s s₁ s₂}, R s s₁ → R s₁ s₂ → R s s₂) (hstep : ∀ p s, R s (mkdir p s).2)
    (path : Text) (s : σ) : R s (mkdirRecursiveWith mkdir path s).2 := by
  unfold mkdirRecursiveWith
  split
  · exact hrefl s
  · split
    · exact hrefl s
    · exact climb_rel mkdir hrefl htrans hstep _ [] s

end Run

/-! ## On entries and inodes -/

variable {E : Type} [DecidableEq E]

/-- Which `mkdir` works where the state lets it, and who calls it. -/
structure Calls where
  mkdir : Text → Bool
  creator : Creator

/-- The inode of a new directory. -/
def newDir (o : Creator) (perm : BitVec 12) : Inode := { o.file 0 with mode := ⟨.dir, perm⟩ }

/-- `mkdir(path, 0700)`. -/
def mkdir (c : Calls) (path : Text) (fs : FS E) : Answer × FS E :=
  if (fs.lookup path).isSome then (.EEXIST, fs)
  else if (fs.names (fs.dirOf (fs.entry path))).isNone then (.ENOENT, fs)
  else
    match attempt (c.mkdir path) (fs.create path (newDir c.creator 0o700)) with
    | none => (.other, fs)
    | some fs => (.made, fs)

/-- `mkdirRecursive`. -/
def mkdirRecursive (c : Calls) (path : Text) (fs : FS E) : Bool × FS E :=
  mkdirRecursiveWith (mkdir c) path fs

theorem mkdir_grows (c : Calls) (path : Text) (fs : FS E) : Grows fs (mkdir c path fs).2 := by
  unfold mkdir
  split
  · exact Grows.refl fs
  · split
    · exact Grows.refl fs
    · split
      · exact Grows.refl fs
      · rename_i hcreate
        exact Grows.of_created (Created.of_create (attempt_eq_some.1 hcreate).2)

/-- **`mkdirRecursive` adds names and changes nothing else.** -/
theorem mkdirRecursive_grows (c : Calls) (path : Text) (fs : FS E) :
    Grows fs (mkdirRecursive c path fs).2 :=
  mkdirRecursiveWith_rel (mkdir c) Grows.refl (fun h h' => h.trans h') (mkdir_grows c) path fs

end Mkdir
