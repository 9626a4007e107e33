import Mathlib.Data.List.Basic

/-!
# Directory trees

A file system as its directories and the entries in them.  A path is the list of its names, from
the directory at which it starts.

* `Dirs` — the entries; directories that are still to be made have none.
* `walk` — the directory that names lead to, with links followed as long as there are `links`.
* `Denotes` — the names lead to the directory, over any number of links.
* `make` — a new directory under a free name.
* `mkdir`, `openDirectory`, `openNoFollow` — the calls.

Principal results: `walk_append`, `Grows.walk` (a walk that succeeds is not changed by new
entries), `walk_make` and `mkdir_concat`.
-/

set_option autoImplicit false

namespace DirTree

/-- What an entry of a directory is.  The target of a link is a path from the root or from the
directory with the link. -/
inductive Node (N : Type) where
  | dir (ino : Nat)
  | link (absolute : Bool) (target : List N)
  | other

/-- The errors; `refused` are those that the entries do not explain. -/
inductive Errno where
  | ENOENT | ENOTDIR | ELOOP | EEXIST | refused
  deriving DecidableEq

structure Dirs (N : Type) where
  root : Nat
  entries : Nat → N → Option (Node N)
  /-- The next directory to be made. -/
  next : Nat
  /-- The two entries of an empty directory. -/
  dot : N
  dotdot : N
  fresh : ∀ d name, next ≤ d → entries d name = none
  named : ∀ d name e, entries d name = some (.dir e) → e < next

namespace Dirs

variable {N : Type}

/-- Where a path starts. -/
def start (t : Dirs N) (absolute : Bool) (d : Nat) : Nat := if absolute then t.root else d

/-- The directory that the names lead to from `d`, and how many links may still be followed. -/
def walk (t : Dirs N) (links d : Nat) : List N → Except Errno (Nat × Nat)
  | [] => .ok (links, d)
  | name :: rest =>
    match t.entries d name with
    | none => .error .ENOENT
    | some .other => .error .ENOTDIR
    | some (.dir e) => walk t links e rest
    | some (.link absolute target) =>
      match links with
      | 0 => .error .ELOOP
      | links + 1 => walk t links (t.start absolute d) (target ++ rest)
termination_by names => (links, names.length)

/-- The names lead to the directory, over any number of links. -/
def Denotes (t : Dirs N) (d : Nat) (names : List N) (e : Nat) : Prop :=
  ∃ links left, t.walk links d names = .ok (left, e)

/-- Entries have been added, none has gone or changed. -/
structure Grows (t t' : Dirs N) : Prop where
  root : t'.root = t.root
  kept : ∀ d name node, t.entries d name = some node → t'.entries d name = some node

section

variable [DecidableEq N]

/-- The entries with a new directory. -/
def withDir (t : Dirs N) (d : Nat) (name : N) : Nat → N → Option (Node N) := fun e n =>
  if e = d ∧ n = name then some (.dir t.next)
  else if e = t.next then
    if n = t.dot then some (.dir t.next) else if n = t.dotdot then some (.dir d) else none
  else t.entries e n

/-- A new directory in `d`. -/
def make (t : Dirs N) (d : Nat) (name : N) : Dirs N :=
  { t with
    entries := t.withDir d name
    next := max t.next d + 1
    fresh := by
      intro e n h
      have hd : e ≠ d := by omega
      have hnext : e ≠ t.next := by omega
      rw [withDir, if_neg fun heq => hd heq.1, if_neg hnext]
      exact t.fresh e n (by omega)
    named := by
      intro e n e' h
      unfold withDir at h
      split at h
      · cases h
        omega
      · split at h
        · split at h
          · cases h
            omega
          · split at h
            · cases h
              omega
            · cases h
        · have := t.named e n e' h
          omega }

/-- The root without any other directory. -/
def bare (dot dotdot : N) : Dirs N where
  root := 0
  entries d name := if d = 0 ∧ (name = dot ∨ name = dotdot) then some (.dir 0) else none
  next := 1
  dot := dot
  dotdot := dotdot
  fresh d name h := if_neg fun heq => by omega
  named d name e h := by
    split at h
    · cases h
      omega
    · cases h

/-! ## The calls -/

/-- How many links the kernel follows in one path. -/
def maxLinks : Nat := 40

/-- `mkdir`: a path without names is the start itself.  `allowed` says where a directory may be
made. -/
def mkdir (t : Dirs N) (allowed : Nat → N → Bool) (d : Nat) (names : List N) :
    Except Errno (Dirs N) :=
  match names.getLast? with
  | none => .error .EEXIST
  | some name =>
    match t.walk maxLinks d names.dropLast with
    | .error e => .error e
    | .ok (_, e) =>
      if (t.entries e name).isSome then .error .EEXIST
      else if allowed e name then .ok (t.make e name)
      else .error .refused

/-- `open` with `O_DIRECTORY`. -/
def openDirectory (t : Dirs N) (d : Nat) (names : List N) : Except Errno Nat :=
  match t.walk maxLinks d names with
  | .error e => .error e
  | .ok (_, e) => .ok e

/-- `open` with `O_DIRECTORY` and `O_NOFOLLOW`: the last name is that of the directory. -/
def openNoFollow (t : Dirs N) (d : Nat) (names : List N) : Except Errno Nat :=
  match names.getLast? with
  | none => .ok d
  | some name =>
    match t.walk maxLinks d names.dropLast with
    | .error e => .error e
    | .ok (_, e) =>
      match t.entries e name with
      | none => .error .ENOENT
      | some .other => .error .ENOTDIR
      | some (.dir f) => .ok f
      | some (.link _ _) => .error .ELOOP

end

/-! ## Walks -/

variable {t t' : Dirs N}

@[simp] theorem walk_nil (links d : Nat) : t.walk links d [] = .ok (links, d) := by
  rw [walk]

theorem walk_missing {links d : Nat} {name : N} {rest : List N} (h : t.entries d name = none) :
    t.walk links d (name :: rest) = .error .ENOENT := by
  rw [walk, h]

theorem walk_dir {links d e : Nat} {name : N} {rest : List N}
    (h : t.entries d name = some (.dir e)) :
    t.walk links d (name :: rest) = t.walk links e rest := by
  rw [walk, h]

theorem walk_other {links d : Nat} {name : N} {rest : List N}
    (h : t.entries d name = some .other) :
    t.walk links d (name :: rest) = .error .ENOTDIR := by
  rw [walk, h]

theorem walk_loop {d : Nat} {name : N} {absolute : Bool} {target rest : List N}
    (h : t.entries d name = some (.link absolute target)) :
    t.walk 0 d (name :: rest) = .error .ELOOP := by
  rw [walk, h]

theorem walk_link {links d : Nat} {name : N} {absolute : Bool} {target rest : List N}
    (h : t.entries d name = some (.link absolute target)) :
    t.walk (links + 1) d (name :: rest) = t.walk links (t.start absolute d) (target ++ rest) := by
  rw [walk, h]

/-- **A walk in two parts.** -/
theorem walk_append (t : Dirs N) (links d : Nat) (xs ys : List N) :
    t.walk links d (xs ++ ys) =
      match t.walk links d xs with
      | .error e => .error e
      | .ok (links, e) => t.walk links e ys := by
  induction links, d, xs using walk.induct t with
  | case1 links d => rw [walk_nil, List.nil_append]
  | case2 links d name rest hnone =>
    rw [List.cons_append, walk_missing hnone, walk_missing hnone]
  | case3 links d name rest hother =>
    rw [List.cons_append, walk_other hother, walk_other hother]
  | case4 links d name rest e hdir ih =>
    rw [List.cons_append, walk_dir hdir, walk_dir hdir, ih]
  | case5 d name rest absolute target hlink =>
    rw [List.cons_append, walk_loop hlink, walk_loop hlink]
  | case6 d name rest absolute target hlink links ih =>
    rw [List.cons_append, walk_link hlink, walk_link hlink, ← List.append_assoc, ih]

/-- A walk makes nothing, so nothing is in its way. -/
theorem walk_ne_EEXIST (t : Dirs N) (links d : Nat) (names : List N) :
    t.walk links d names ≠ .error .EEXIST := by
  induction links, d, names using walk.induct t with
  | case1 links d =>
    rw [walk_nil]
    intro h
    cases h
  | case2 links d name rest hnone =>
    rw [walk_missing hnone]
    intro h
    cases h
  | case3 links d name rest hother =>
    rw [walk_other hother]
    intro h
    cases h
  | case4 links d name rest e hdir ih =>
    rw [walk_dir hdir]
    exact ih
  | case5 d name rest absolute target hlink =>
    rw [walk_loop hlink]
    intro h
    cases h
  | case6 d name rest absolute target hlink links ih =>
    rw [walk_link hlink]
    exact ih

/-- More links do no harm. -/
theorem walk_add {links d left e : Nat} {names : List N}
    (h : t.walk links d names = .ok (left, e)) (k : Nat) :
    t.walk (links + k) d names = .ok (left + k, e) := by
  induction links, d, names using walk.induct t with
  | case1 links d =>
    rw [walk_nil] at h
    cases h
    rw [walk_nil]
  | case2 links d name rest hnone =>
    rw [walk_missing hnone] at h
    cases h
  | case3 links d name rest hother =>
    rw [walk_other hother] at h
    cases h
  | case4 links d name rest e hdir ih =>
    rw [walk_dir hdir] at h
    rw [walk_dir hdir]
    exact ih h
  | case5 d name rest absolute target hlink =>
    rw [walk_loop hlink] at h
    cases h
  | case6 d name rest absolute target hlink links ih =>
    have hlinks : links + 1 + k = links + k + 1 := by omega
    rw [walk_link hlink] at h
    rw [hlinks, walk_link hlink]
    exact ih h

theorem Denotes.refl (d : Nat) : t.Denotes d [] d := ⟨0, 0, walk_nil 0 d⟩

theorem Denotes.append {d e f : Nat} {xs ys : List N} (hx : t.Denotes d xs e)
    (hy : t.Denotes e ys f) : t.Denotes d (xs ++ ys) f := by
  obtain ⟨links, left, hx⟩ := hx
  obtain ⟨links', left', hy⟩ := hy
  refine ⟨links + links', left' + left, ?_⟩
  rw [walk_append, walk_add hx links']
  show t.walk (left + links') e ys = _
  rw [Nat.add_comm left links']
  exact walk_add hy left

/-- What is opened is what the names lead to. -/
theorem Denotes.of_openDirectory {d e : Nat} {names : List N}
    (h : t.openDirectory d names = .ok e) : t.Denotes d names e := by
  unfold openDirectory at h
  split at h
  · cases h
  · rename_i left f hw
    cases h
    exact ⟨maxLinks, left, hw⟩

theorem Denotes.of_openNoFollow {d e : Nat} {names : List N}
    (h : t.openNoFollow d names = .ok e) : t.Denotes d names e := by
  unfold openNoFollow at h
  split at h
  · rename_i hlast
    cases h
    rw [List.getLast?_eq_none_iff.1 hlast]
    exact Denotes.refl d
  · rename_i name hlast
    obtain ⟨before, rfl⟩ := List.getLast?_eq_some_iff.1 hlast
    rw [List.dropLast_concat] at h
    split at h
    · cases h
    · rename_i left f hw
      split at h
      · cases h
      · cases h
      · rename_i g hdir
        cases h
        refine ⟨maxLinks, left, ?_⟩
        rw [walk_append, hw]
        show t.walk left f [name] = _
        rw [walk_dir hdir, walk_nil]
      · cases h

/-! ## New entries -/

theorem Grows.refl (t : Dirs N) : Grows t t := ⟨rfl, fun _ _ _ h => h⟩

theorem Grows.trans {t₁ t₂ : Dirs N} (h : Grows t t₁) (h' : Grows t₁ t₂) : Grows t t₂ :=
  ⟨h'.root.trans h.root, fun d name node hn => h'.kept d name node (h.kept d name node hn)⟩

/-- **A walk that succeeds** is not changed by new entries. -/
theorem Grows.walk (h : Grows t t') {links d left e : Nat} {names : List N}
    (hw : t.walk links d names = .ok (left, e)) : t'.walk links d names = .ok (left, e) := by
  induction links, d, names using walk.induct t with
  | case1 links d =>
    rw [walk_nil] at hw
    rw [walk_nil, hw]
  | case2 links d name rest hnone =>
    rw [walk_missing hnone] at hw
    cases hw
  | case3 links d name rest hother =>
    rw [walk_other hother] at hw
    cases hw
  | case4 links d name rest e hdir ih =>
    rw [walk_dir hdir] at hw
    rw [walk_dir (h.kept d name _ hdir)]
    exact ih hw
  | case5 d name rest absolute target hlink =>
    rw [walk_loop hlink] at hw
    cases hw
  | case6 d name rest absolute target hlink links ih =>
    rw [walk_link hlink] at hw
    rw [walk_link (h.kept d name _ hlink), start, h.root]
    exact ih hw

theorem Grows.denotes (h : Grows t t') {d e : Nat} {names : List N} (hd : t.Denotes d names e) :
    t'.Denotes d names e := by
  obtain ⟨links, left, hw⟩ := hd
  exact ⟨links, left, h.walk hw⟩

variable [DecidableEq N]

theorem make_entry (t : Dirs N) (d : Nat) (name : N) :
    (t.make d name).entries d name = some (.dir t.next) := by
  show t.withDir d name d name = _
  rw [withDir, if_pos ⟨rfl, rfl⟩]

/-- **A new directory under a free name** changes no entry. -/
theorem make_grows {d : Nat} {name : N} (h : t.entries d name = none) :
    Grows t (t.make d name) := by
  refine ⟨rfl, fun e n node hn => ?_⟩
  show t.withDir d name e n = some node
  have hfree : ¬ (e = d ∧ n = name) := by
    rintro ⟨rfl, rfl⟩
    rw [h] at hn
    cases hn
  have hold : e ≠ t.next := by
    rintro rfl
    rw [t.fresh t.next n (Nat.le_refl _)] at hn
    cases hn
  rw [withDir, if_neg hfree, if_neg hold, hn]

/-- The walk to the new directory. -/
theorem walk_make {links d left e : Nat} {names : List N} {name : N}
    (hw : t.walk links d names = .ok (left, e)) (h : t.entries e name = none) :
    (t.make e name).walk links d (names ++ [name]) = .ok (left, t.next) := by
  rw [walk_append, (make_grows h).walk hw]
  show (t.make e name).walk left e [name] = _
  rw [walk_dir (make_entry t e name), walk_nil]

/-! ## What the calls do -/

theorem mkdir_concat (allowed : Nat → N → Bool) (d : Nat) (names : List N) (name : N) :
    t.mkdir allowed d (names ++ [name]) =
      match t.walk maxLinks d names with
      | .error e => .error e
      | .ok (_, e) =>
        if (t.entries e name).isSome then .error .EEXIST
        else if allowed e name then .ok (t.make e name)
        else .error .refused := by
  rw [mkdir, List.getLast?_concat, List.dropLast_concat]

theorem mkdir_grows {allowed : Nat → N → Bool} {d : Nat} {names : List N}
    (h : t.mkdir allowed d names = .ok t') : Grows t t' := by
  unfold mkdir at h
  split at h
  · cases h
  · split at h
    · cases h
    · split at h
      · cases h
      · rename_i hfree
        split at h
        · cases h
          exact make_grows (Option.not_isSome_iff_eq_none.1 hfree)
        · cases h

end Dirs

end DirTree
