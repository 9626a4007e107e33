import Mathlib.Data.List.Chain
import UtilVserver.Lib.DirTree
import UtilVserver.Mkdir
import UtilVserver.PathInfo

/-!
# The directories that `mkdirRecursive` makes

The function on a tree of directories, where every `mkdir` is written down with its answer.

* `mkdir` — the call on the tree.
* `ancestors` — the names that lead to the proper ancestors of a path, from the root on.
* `provide` — the missing ones are made, one after the other.
* `Hindered` — a call that failed for another reason than `EEXIST` or a missing parent.

Principal result: `mkdirRecursive_provides_iff`.
-/

set_option autoImplicit false

namespace MkdirAncestors

open CString DirTree Mkdir PathInfo

/-- A call with the tree that it found. -/
structure Call where
  tree : Dirs Text
  path : Text
  answer : Answer

structure State where
  tree : Dirs Text
  log : List Call

/-- The answer of the kernel, and the tree that it leaves. -/
def answerOf (t : Dirs Text) : Except Errno (Dirs Text) → Answer × Dirs Text
  | .ok t' => (.made, t')
  | .error .EEXIST => (.EEXIST, t)
  | .error .ENOENT => (.ENOENT, t)
  | .error _ => (.other, t)

/-- `mkdir` of an absolute path or of the empty one. -/
def mkdirTree (allowed : Nat → Text → Bool) (path : Text) (t : Dirs Text) : Answer × Dirs Text :=
  if path = [] then (.ENOENT, t)
  else answerOf t (t.mkdir allowed t.root (components path))

def mkdir (allowed : Nat → Text → Bool) (path : Text) (s : State) : Answer × State :=
  let r := mkdirTree allowed path s.tree
  (r.1, ⟨r.2, s.log ++ [⟨s.tree, path, r.1⟩]⟩)

/-- `mkdirRecursive` on a tree. -/
def run (allowed : Nat → Text → Bool) (path : Text) (t : Dirs Text) : Bool × State :=
  mkdirRecursiveWith (mkdir allowed) path ⟨t, []⟩

/-! ## What it is for -/

/-- What stands in front of each slash, the shortest first. -/
def upwards (path : Text) : List Text :=
  ((List.range path.length).filter fun i => path[i]? = some '/').map path.take

/-- The names that lead to the proper ancestors, from the root on.  Behind a slash at the end stands
the directory itself. -/
def ancestors (path : Text) : List (List Text) := (upwards path).map components

/-- The names lead to a directory. -/
def IsDir (t : Dirs Text) (names : List Text) : Prop :=
  ∃ left d, t.walk Dirs.maxLinks t.root names = .ok (left, d)

/-- The missing directories are made, one after the other; none when one of them can not be made. -/
def provide (allowed : Nat → Text → Bool) : List (List Text) → Dirs Text → Option (Dirs Text)
  | [], t => some t
  | names :: rest, t =>
    match t.openDirectory t.root names with
    | .ok _ => provide allowed rest t
    | .error _ =>
      match t.mkdir allowed t.root names with
      | .ok t => provide allowed rest t
      | .error _ => none

/-- A directory on the way to the last name is not there. -/
def ParentMissing (t : Dirs Text) (names : List Text) : Prop :=
  ∃ before name after left d, names = before ++ name :: after ∧ after ≠ [] ∧
    t.walk Dirs.maxLinks t.root before = .ok (left, d) ∧ t.entries d name = none

/-- A call that failed for another reason than `EEXIST` or a missing parent. -/
def Hindered (c : Call) : Prop :=
  c.path ≠ [] ∧
    (c.answer = .other ∨ c.answer = .ENOENT ∧ ¬ ParentMissing c.tree (components c.path))

/-- When the missing ancestors can be made, the function succeeds and makes them and nothing else;
when it fails, a call was hindered. -/
structure Provides (allowed : Nat → Text → Bool) (path : Text) (t : Dirs Text) : Prop where
  made : ∀ t', provide allowed (ancestors path) t = some t' →
    (run allowed path t).1 = true ∧ (run allowed path t).2.tree = t' ∧
      ∀ names ∈ ancestors path, IsDir t' names
  hindered : (run allowed path t).1 = false → ∃ c ∈ (run allowed path t).2.log, Hindered c

/-! ## The parts of a path -/

/-- One directory further, or the same once more. -/
def Next (p p' : Text) : Prop := ∃ x, '/' ∉ x ∧ p' = p ++ '/' :: x

theorem components_of_not_mem {x : Text} (h : '/' ∉ x) :
    components x = [] ∨ components x = [x] := by
  by_cases hne : x = []
  · rw [hne]
    exact Or.inl components_nil
  · exact Or.inr (components_one hne h)

theorem Next.names {p p' : Text} (h : Next p p') :
    components p' = components p ∨ ∃ name, components p' = components p ++ [name] := by
  obtain ⟨x, hx, rfl⟩ := h
  rw [components_slash]
  obtain hnil | hone := components_of_not_mem hx
  · rw [hnil, List.append_nil]
    exact Or.inl rfl
  · rw [hone]
    exact Or.inr ⟨x, rfl⟩

theorem Next.ne_nil {p p' : Text} (h : Next p p') : p' ≠ [] := by
  obtain ⟨x, -, rfl⟩ := h
  exact List.append_ne_nil_of_right_ne_nil p (List.cons_ne_nil _ x)

theorem upwards_concat (path : Text) (c : Char) :
    upwards (path ++ [c]) = upwards path ++ if c = '/' then [path] else [] := by
  have hold : ∀ i ∈ List.range path.length, (path ++ [c])[i]? = path[i]? := fun i hi =>
    List.getElem?_append_left (List.mem_range.1 hi)
  have htake : ∀ i ∈ List.range path.length, (path ++ [c]).take i = path.take i := fun i hi =>
    List.take_append_of_le_length (Nat.le_of_lt (List.mem_range.1 hi))
  have hfilter : ((List.range path.length).filter fun i => (path ++ [c])[i]? = some '/') =
      (List.range path.length).filter fun i => path[i]? = some '/' := by
    refine List.filter_congr fun i hi => ?_
    rw [hold i hi]
  have hmap : ((List.range path.length).filter fun i => path[i]? = some '/').map
      (path ++ [c]).take = upwards path :=
    List.map_congr_left fun i hi => htake i (List.mem_filter.1 hi).1
  rw [upwards, List.length_append, List.length_singleton, List.range_succ, List.filter_append,
    List.map_append, hfilter, hmap, List.filter_singleton, List.getElem?_concat_length]
  by_cases hc : c = '/'
  · simp [hc]
  · simp [hc]

theorem upwards_append {x : Text} (h : '/' ∉ x) (path : Text) :
    upwards (path ++ x) = upwards path := by
  induction x using List.reverseRecOn with
  | nil => rw [List.append_nil]
  | append_singleton x c ih =>
    have hc : c ≠ '/' := fun hc => h (hc ▸ List.mem_append_right x (List.mem_singleton_self c))
    rw [← List.append_assoc, upwards_concat, if_neg hc, List.append_nil]
    exact ih fun hm => h (List.mem_append_left _ hm)

/-- **The parts of a path follow each other.** -/
theorem upwards_chain (path : Text) :
    List.IsChain Next (upwards path) ∧ ∀ p ∈ (upwards path).getLast?, Next p path := by
  induction path using List.reverseRecOn with
  | nil =>
    refine ⟨List.IsChain.nil, fun p hp => ?_⟩
    cases hp
  | append_singleton path c ih =>
    obtain ⟨hchain, hlast⟩ := ih
    rw [upwards_concat]
    by_cases hc : c = '/'
    · rw [if_pos hc]
      refine ⟨List.isChain_append.2 ⟨hchain, List.isChain_singleton path, ?_⟩, ?_⟩
      · intro p hp q hq
        cases hq
        exact hlast p hp
      · intro p hp
        rw [List.getLast?_concat] at hp
        cases hp
        exact ⟨[], List.not_mem_nil, by rw [hc]⟩
    · rw [if_neg hc, List.append_nil]
      refine ⟨hchain, fun p hp => ?_⟩
      obtain ⟨x, hx, heq⟩ := hlast p hp
      refine ⟨x ++ [c], ?_, by rw [heq]; simp⟩
      intro hm
      obtain hm | hm := List.mem_append.1 hm
      · exact hx hm
      · exact hc (List.mem_singleton.1 hm).symm

theorem upwards_slash (rest : Text) : ∃ ps, upwards ('/' :: rest) = [] :: ps := by
  rw [upwards, List.length_cons, List.range_succ_eq_map, List.filter_cons, if_pos]
  · exact ⟨_, rfl⟩
  · rfl

theorem upwards_slash_nil : upwards ['/'] = [[]] := by decide +kernel

/-- A second slash gives a second part. -/
theorem mem_upwards (p r : Text) : p ∈ upwards (p ++ '/' :: r) := by
  rw [upwards, List.mem_map]
  refine ⟨p.length, List.mem_filter.2 ⟨?_, ?_⟩, List.take_left⟩
  · rw [List.mem_range, List.length_append, List.length_cons]
    omega
  · rw [List.getElem?_append_right (Nat.le_refl _), Nat.sub_self]
    rfl

theorem slashPrefixes_eq (path : Text) : slashPrefixes path = (upwards path).reverse := by
  rw [slashPrefixes, upwards, List.map_reverse]

/-! ## Directories -/

section Directories

variable {allowed : Nat → Text → Bool} {t t' : Dirs Text}

theorem isDir_nil (t : Dirs Text) : IsDir t [] := ⟨_, _, Dirs.walk_nil _ _⟩

theorem IsDir.of_append {xs ys : List Text} (h : IsDir t (xs ++ ys)) : IsDir t xs := by
  obtain ⟨left, d, h⟩ := h
  rw [Dirs.walk_append] at h
  cases hx : t.walk Dirs.maxLinks t.root xs with
  | error e =>
    rw [hx] at h
    cases h
  | ok r => exact ⟨r.1, r.2, hx⟩

theorem IsDir.grows {names : List Text} (h : IsDir t names) (hg : Dirs.Grows t t') :
    IsDir t' names := by
  obtain ⟨left, d, h⟩ := h
  refine ⟨left, d, ?_⟩
  rw [hg.root]
  exact hg.walk h

theorem openDirectory_cases (t : Dirs Text) (names : List Text) :
    (IsDir t names ∧ ∃ d, t.openDirectory t.root names = .ok d) ∨
      (¬ IsDir t names ∧ ∃ e, t.openDirectory t.root names = .error e) := by
  unfold Dirs.openDirectory IsDir
  cases t.walk Dirs.maxLinks t.root names with
  | error e =>
    refine Or.inr ⟨?_, e, rfl⟩
    rintro ⟨left, d, h⟩
    cases h
  | ok r => exact Or.inl ⟨⟨r.1, r.2, rfl⟩, r.2, rfl⟩

/-- A directory is not made once more. -/
theorem mkdir_of_isDir {names : List Text} (h : IsDir t names) :
    t.mkdir allowed t.root names = .error .EEXIST := by
  induction names using List.reverseRecOn with
  | nil => rfl
  | append_singleton names name ih =>
    obtain ⟨r, hw⟩ : ∃ r, t.walk Dirs.maxLinks t.root names = .ok r := by
      obtain ⟨left, d, hw⟩ := h.of_append
      exact ⟨_, hw⟩
    have hsome : (t.entries r.2 name).isSome = true := by
      obtain ⟨left, d, h⟩ := h
      rw [Dirs.walk_append, hw] at h
      cases hn : t.entries r.2 name with
      | some node => rfl
      | none =>
        have hmiss : t.walk r.1 r.2 [name] = .ok (left, d) := h
        rw [Dirs.walk_missing hn] at hmiss
        cases hmiss
    rw [Dirs.mkdir_concat, hw]
    simp only [hsome, if_true]

/-- A directory is made in one that is there, under a free name. -/
theorem mkdir_ok {names : List Text} (h : t.mkdir allowed t.root names = .ok t') :
    ∃ before name left d, names = before ++ [name] ∧
      t.walk Dirs.maxLinks t.root before = .ok (left, d) ∧ t.entries d name = none ∧
      t' = t.make d name := by
  induction names using List.reverseRecOn with
  | nil => cases h
  | append_singleton names name ih =>
    rw [Dirs.mkdir_concat] at h
    split at h
    · cases h
    · rename_i left d hw
      split at h
      · cases h
      · rename_i hfree
        split at h
        · cases h
          exact ⟨names, name, left, d, rfl, hw, Option.not_isSome_iff_eq_none.1 hfree, rfl⟩
        · cases h

theorem isDir_of_mkdir {names : List Text} (h : t.mkdir allowed t.root names = .ok t') :
    IsDir t' names := by
  obtain ⟨before, name, left, d, rfl, hw, hfree, rfl⟩ := mkdir_ok h
  exact ⟨left, t.next, Dirs.walk_make hw hfree⟩

/-- What is below a directory that could be made is missing with it. -/
theorem mkdir_below {names rest : List Text} {name : Text}
    (h : t.mkdir allowed t.root names = .ok t') :
    t.mkdir allowed t.root (names ++ rest ++ [name]) = .error .ENOENT := by
  obtain ⟨before, last, left, d, rfl, hw, hfree, -⟩ := mkdir_ok h
  have hmiss : t.walk Dirs.maxLinks t.root (before ++ [last] ++ rest) = .error .ENOENT := by
    rw [List.append_assoc, Dirs.walk_append, hw, List.singleton_append]
    exact Dirs.walk_missing hfree
  rw [Dirs.mkdir_concat, hmiss]

theorem mkdir_one_ne_ENOENT {names : List Text} (h : names.length ≤ 1) :
    t.mkdir allowed t.root names ≠ .error .ENOENT := by
  intro hmk
  match names, h with
  | [], _ => cases hmk
  | [name], _ =>
    have heq := Dirs.mkdir_concat (t := t) allowed t.root [] name
    rw [List.nil_append] at heq
    rw [heq, Dirs.walk_nil] at hmk
    simp only at hmk
    split at hmk
    · cases hmk
    · split at hmk <;> cases hmk

/-! ## Making what is missing -/

theorem provide_cons_of_isDir {names : List Text} (h : IsDir t names) (rest : List (List Text)) :
    provide allowed (names :: rest) t = provide allowed rest t := by
  obtain ⟨-, d, hopen⟩ | ⟨hno, -⟩ := openDirectory_cases t names
  · rw [provide, hopen]
  · exact absurd h hno

/-- The first step of the making. -/
theorem provide_cons {names : List Text} {rest : List (List Text)}
    (h : provide allowed (names :: rest) t = some t') :
    (IsDir t names ∧ provide allowed rest t = some t') ∨
      ∃ t₁, t.mkdir allowed t.root names = .ok t₁ ∧ provide allowed rest t₁ = some t' := by
  obtain ⟨hdir, d, hopen⟩ | ⟨-, e, hopen⟩ := openDirectory_cases t names
  · rw [provide_cons_of_isDir hdir] at h
    exact Or.inl ⟨hdir, h⟩
  · rw [provide, hopen] at h
    simp only at h
    split at h
    · rename_i t₁ hmk
      exact Or.inr ⟨t₁, hmk, h⟩
    · cases h

theorem provide_grows {as : List (List Text)} (h : provide allowed as t = some t') :
    Dirs.Grows t t' ∧ ∀ names ∈ as, IsDir t' names := by
  induction as generalizing t with
  | nil =>
    cases h
    exact ⟨Dirs.Grows.refl _, fun names hn => absurd hn List.not_mem_nil⟩
  | cons names rest ih =>
    obtain ⟨hdir, hrest⟩ | ⟨t₁, hmk, hrest⟩ := provide_cons h
    · obtain ⟨hg, hall⟩ := ih hrest
      refine ⟨hg, fun x hx => ?_⟩
      obtain rfl | hx := List.mem_cons.1 hx
      · exact hdir.grows hg
      · exact hall x hx
    · obtain ⟨hg, hall⟩ := ih hrest
      refine ⟨(Dirs.mkdir_grows hmk).trans hg, fun x hx => ?_⟩
      obtain rfl | hx := List.mem_cons.1 hx
      · exact (isDir_of_mkdir hmk).grows hg
      · exact hall x hx

/-- **All is there, or there is a first directory to be made.** -/
theorem provide_split {ps : List Text} (h : provide allowed (ps.map components) t = some t') :
    (t' = t ∧ ∀ p ∈ ps, IsDir t (components p)) ∨
      ∃ es p rs t₁, ps = es ++ p :: rs ∧ t.mkdir allowed t.root (components p) = .ok t₁ ∧
        provide allowed (rs.map components) t₁ = some t' := by
  induction ps with
  | nil =>
    cases h
    exact Or.inl ⟨rfl, fun p hp => absurd hp List.not_mem_nil⟩
  | cons p ps ih =>
    rw [List.map_cons] at h
    obtain ⟨hdir, hrest⟩ | ⟨t₁, hmk, hrest⟩ := provide_cons h
    · obtain ⟨rfl, hall⟩ | ⟨es, q, rs, t₁, rfl, hmk, hrs⟩ := ih hrest
      · refine Or.inl ⟨rfl, fun q hq => ?_⟩
        obtain rfl | hq := List.mem_cons.1 hq
        · exact hdir
        · exact hall q hq
      · exact Or.inr ⟨p :: es, q, rs, t₁, rfl, hmk, hrs⟩
    · exact Or.inr ⟨[], p, ps, t₁, rfl, hmk, hrest⟩

theorem provide_append_isDir {as bs : List (List Text)} (h : ∀ names ∈ as, IsDir t names) :
    provide allowed (as ++ bs) t = provide allowed bs t := by
  induction as with
  | nil => rfl
  | cons names as ih =>
    rw [List.cons_append, provide_cons_of_isDir (h names List.mem_cons_self)]
    exact ih fun x hx => h x (List.mem_cons_of_mem names hx)

/-! ## One call -/

section Call

variable {s : State} {p : Text}

/-- What the function makes of an answer. -/
def resultOf (skipMissing : Bool) : Answer → Result
  | .made => .success
  | .EEXIST => .success
  | .ENOENT => if skipMissing then .skip else .fail
  | .other => .fail

theorem single_eq (hp : p ≠ []) (skipMissing : Bool) {a : Answer} {t₁ : Dirs Text}
    (h : answerOf s.tree (s.tree.mkdir allowed s.tree.root (components p)) = (a, t₁)) :
    mkdirSingle (mkdir allowed) p skipMissing s =
      (resultOf skipMissing a, ⟨t₁, s.log ++ [⟨s.tree, p, a⟩]⟩) := by
  unfold mkdirSingle mkdir mkdirTree
  rw [if_neg hp, h]
  cases a <;> rfl

variable (allowed) in
theorem single_of_isDir (hp : p ≠ []) (h : IsDir s.tree (components p)) (skipMissing : Bool) :
    ∃ log, mkdirSingle (mkdir allowed) p skipMissing s = (.success, ⟨s.tree, log⟩) :=
  ⟨_, single_eq hp skipMissing (a := .EEXIST) (by rw [mkdir_of_isDir h]; rfl)⟩

theorem single_of_ok (hp : p ≠ []) {t₁ : Dirs Text}
    (h : s.tree.mkdir allowed s.tree.root (components p) = .ok t₁) (skipMissing : Bool) :
    ∃ log, mkdirSingle (mkdir allowed) p skipMissing s = (.success, ⟨t₁, log⟩) :=
  ⟨_, single_eq hp skipMissing (a := .made) (by rw [h]; rfl)⟩

theorem single_of_ENOENT (hp : p ≠ [])
    (h : s.tree.mkdir allowed s.tree.root (components p) = .error .ENOENT) (skipMissing : Bool) :
    mkdirSingle (mkdir allowed) p skipMissing s =
      (if skipMissing then .skip else .fail, ⟨s.tree, s.log ++ [⟨s.tree, p, .ENOENT⟩]⟩) :=
  single_eq hp skipMissing (a := .ENOENT) (by rw [h]; rfl)

/-- The directory that the last name is in is there, and the name as well. -/
def Settled (t : Dirs Text) (names : List Text) : Prop :=
  names = [] ∨ ∃ before name left d, names = before ++ [name] ∧
    t.walk Dirs.maxLinks t.root before = .ok (left, d) ∧ (t.entries d name).isSome = true

theorem settled_of_EEXIST {t : Dirs Text} {names : List Text}
    (h : t.mkdir allowed t.root names = .error .EEXIST) : Settled t names := by
  induction names using List.reverseRecOn with
  | nil => exact Or.inl rfl
  | append_singleton before name ih =>
    rw [Dirs.mkdir_concat] at h
    split at h
    · rename_i e hw
      cases h
      exact absurd hw (Dirs.walk_ne_EEXIST t _ _ _)
    · rename_i left d hw
      split at h
      · rename_i hsome
        exact Or.inr ⟨before, name, left, d, rfl, hw, hsome⟩
      · split at h <;> cases h

/-- A settled name is not what the next one misses. -/
theorem Settled.not_parentMissing {t : Dirs Text} {names names' : List Text}
    (h : Settled t names) (hnext : names' = names ∨ ∃ name, names' = names ++ [name]) :
    ¬ ParentMissing t names' := by
  rintro ⟨before, name, after, left, d, hsplit, hafter, hw, hnone⟩
  obtain ⟨rest, hnames⟩ : ∃ rest, names = before ++ name :: rest := by
    obtain rfl | ⟨n, rfl⟩ := hnext
    · exact ⟨after, hsplit⟩
    · obtain ⟨after, last, rfl⟩ := (List.eq_nil_or_concat' after).resolve_left hafter
      rw [← List.cons_append, ← List.append_assoc] at hsplit
      exact ⟨after, (List.append_inj' hsplit rfl).1⟩
  obtain hnil | ⟨before', name', left', d', hnames', hw', hsome⟩ := h
  · rw [hnil] at hnames
    exact absurd hnames.symm (List.append_ne_nil_of_right_ne_nil before (List.cons_ne_nil name rest))
  · rw [hnames'] at hnames
    obtain rfl | ⟨rest, last, rfl⟩ := List.eq_nil_or_concat' rest
    · obtain ⟨rfl, heq⟩ := List.append_inj' hnames rfl
      cases heq
      rw [hw] at hw'
      cases hw'
      rw [hnone] at hsome
      cases hsome
    · rw [← List.cons_append, ← List.append_assoc] at hnames
      rw [(List.append_inj' hnames rfl).1, Dirs.walk_append, hw] at hw'
      have hmiss : t.walk left d (name :: rest) = .ok (left', d') := hw'
      rw [Dirs.walk_missing hnone] at hmiss
      cases hmiss

variable (allowed) in
/-- **What one call can do.** -/
theorem single_cases (hp : p ≠ []) (skipMissing : Bool) (s : State) :
    (∃ s', mkdirSingle (mkdir allowed) p skipMissing s = (.success, s') ∧
      Settled s'.tree (components p)) ∨
    s.tree.mkdir allowed s.tree.root (components p) = .error .ENOENT ∨
    ∃ s', mkdirSingle (mkdir allowed) p skipMissing s = (.fail, s') ∧ ∃ c ∈ s'.log, Hindered c := by
  have hother : ∀ e, s.tree.mkdir allowed s.tree.root (components p) = .error e →
      answerOf s.tree (.error e) = (.other, s.tree) →
      ∃ s', mkdirSingle (mkdir allowed) p skipMissing s = (.fail, s') ∧ ∃ c ∈ s'.log, Hindered c := by
    intro e he hanswer
    refine ⟨_, single_eq hp skipMissing (by rw [he, hanswer]), ⟨s.tree, p, .other⟩, ?_, hp, Or.inl rfl⟩
    exact List.mem_append_right _ (List.mem_singleton_self _)
  cases hmk : s.tree.mkdir allowed s.tree.root (components p) with
  | ok t₁ =>
    obtain ⟨log, hrun⟩ := single_of_ok hp hmk skipMissing
    obtain ⟨before, name, left, d, hnames, hw, hfree, rfl⟩ := mkdir_ok hmk
    refine Or.inl ⟨_, hrun, Or.inr ⟨before, name, left, d, hnames, ?_, ?_⟩⟩
    · exact (Dirs.make_grows hfree).walk hw
    · show ((s.tree.make d name).entries d name).isSome = true
      rw [Dirs.make_entry]
      rfl
  | error e =>
    cases e with
    | ENOENT => exact Or.inr (Or.inl rfl)
    | ENOTDIR => exact Or.inr (Or.inr (hother _ hmk rfl))
    | ELOOP => exact Or.inr (Or.inr (hother _ hmk rfl))
    | refused => exact Or.inr (Or.inr (hother _ hmk rfl))
    | EEXIST =>
      refine Or.inl ⟨_, single_eq hp skipMissing (a := .EEXIST) (by rw [hmk]; rfl), ?_⟩
      exact settled_of_EEXIST hmk

end Call

/-! ## When all can be made -/

theorem descend_provides {ps : List Text} (hne : ∀ p ∈ ps, p ≠ []) {s : State}
    (h : provide allowed (ps.map components) s.tree = some t') :
    ∃ log, descend (mkdir allowed) ps s = (true, ⟨t', log⟩) := by
  induction ps generalizing s with
  | nil =>
    cases h
    exact ⟨s.log, rfl⟩
  | cons p ps ih =>
    have hp := hne p List.mem_cons_self
    have hps : ∀ q ∈ ps, q ≠ [] := fun q hq => hne q (List.mem_cons_of_mem p hq)
    rw [List.map_cons] at h
    obtain ⟨hdir, hrest⟩ | ⟨t₁, hmk, hrest⟩ := provide_cons h
    · obtain ⟨log, hrun⟩ := single_of_isDir allowed hp hdir false
      rw [descend, hrun]
      exact ih hps hrest
    · obtain ⟨log, hrun⟩ := single_of_ok hp hmk false
      rw [descend, hrun]
      exact ih hps hrest

theorem one_lt_length {p : Text} (h : 2 ≤ (components p).length) : ¬ p.length ≤ 1 ∧ p ≠ [] := by
  have hlen : ¬ p.length ≤ 1 := by
    intro hle
    match p, hle with
    | [], _ => exact absurd h (by decide)
    | [c], _ =>
      by_cases hc : '/' ∈ [c]
      · rw [← List.mem_singleton.1 hc] at h
        exact absurd h (by decide)
      · obtain hnil | hone := components_of_not_mem hc
        · rw [hnil] at h
          exact absurd h (by decide)
        · rw [hone, List.length_singleton] at h
          omega
  refine ⟨hlen, ?_⟩
  rintro rfl
  exact hlen (Nat.zero_le 1)

/-- The first loop goes over what is missing. -/
theorem climb_skips {ys : List Text} (zs skipped : List Text) {s : State}
    (h : ∀ p ∈ ys, 2 ≤ (components p).length ∧
      s.tree.mkdir allowed s.tree.root (components p) = .error .ENOENT) :
    ∃ log, climb (mkdir allowed) (ys.reverse ++ zs) skipped s =
      climb (mkdir allowed) zs (ys ++ skipped) ⟨s.tree, log⟩ := by
  induction ys using List.reverseRecOn generalizing skipped s with
  | nil => exact ⟨s.log, rfl⟩
  | append_singleton ys p ih =>
    obtain ⟨hlen, hmiss⟩ := h p (List.mem_append_right ys (List.mem_singleton_self p))
    obtain ⟨hlong, hp⟩ := one_lt_length hlen
    have hrun := single_of_ENOENT hp hmiss true
    rw [List.reverse_append, List.reverse_singleton, List.singleton_append, List.cons_append, climb,
      hrun]
    simp only [if_true, if_neg hlong]
    obtain ⟨log, hrest⟩ := @ih (p :: skipped) ⟨s.tree, s.log ++ [⟨s.tree, p, .ENOENT⟩]⟩ fun q hq =>
      h q (List.mem_append_left _ hq)
    refine ⟨log, ?_⟩
    rw [hrest, List.append_assoc, List.singleton_append]

/-- The first loop ends where a directory is there or is made. -/
theorem climb_success {p : Text} (zs skipped : List Text) {s s' : State}
    (h : mkdirSingle (mkdir allowed) p true s = (.success, s')) :
    climb (mkdir allowed) (p :: zs) skipped s = descend (mkdir allowed) skipped s' := by
  rw [climb, h]

/-- Behind a part stand longer ones and, in front of these, the same once more. -/
theorem chain_split {p : Text} {rs : List Text} (h : List.IsChain Next (p :: rs)) :
    ∃ same below, rs = same ++ below ∧ (∀ q ∈ same, components q = components p) ∧
      ∀ q ∈ below, ∃ rest name, components q = components p ++ rest ++ [name] := by
  induction rs generalizing p with
  | nil => exact ⟨[], [], rfl, fun q hq => absurd hq List.not_mem_nil,
      fun q hq => absurd hq List.not_mem_nil⟩
  | cons r rs ih =>
    obtain ⟨hnext, hchain⟩ := List.isChain_cons_cons.1 h
    obtain ⟨same, below, rfl, hsame, hbelow⟩ := ih hchain
    obtain heq | ⟨name, heq⟩ := hnext.names
    · refine ⟨r :: same, below, rfl, fun q hq => ?_, fun q hq => ?_⟩
      · obtain rfl | hq := List.mem_cons.1 hq
        · exact heq
        · rw [hsame q hq, heq]
      · rw [← heq]
        exact hbelow q hq
    · refine ⟨[], r :: (same ++ below), rfl, fun q hq => absurd hq List.not_mem_nil, fun q hq => ?_⟩
      have hrest : ∀ q ∈ r :: same, ∃ rest name, components q = components p ++ rest ++ [name] := by
        intro q hq
        refine ⟨[], name, ?_⟩
        rw [List.append_nil]
        obtain rfl | hq := List.mem_cons.1 hq
        · exact heq
        · rw [hsame q hq, heq]
      rw [← List.cons_append] at hq
      obtain hq | hq := List.mem_append.1 hq
      · exact hrest q hq
      · obtain ⟨rest, last, hq⟩ := hbelow q hq
        refine ⟨name :: rest, last, ?_⟩
        rw [hq, heq, List.append_assoc (components p), List.singleton_append]

/-- **When all missing directories can be made, they are.** -/
theorem climb_provides {ps : List Text} (hchain : List.IsChain Next ([] :: ps)) (hps : ps ≠ [])
    (h : provide allowed (([] :: ps).map components) t = some t') :
    ∃ log, climb (mkdir allowed) ([] :: ps).reverse [] ⟨t, []⟩ = (true, ⟨t', log⟩) := by
  have hne : ∀ p ∈ ps, p ≠ [] := by
    intro p hp
    obtain ⟨before, after, rfl⟩ := List.append_of_mem hp
    rw [← List.cons_append] at hchain
    obtain ⟨q, hq⟩ : ∃ q, ([] :: before).getLast? = some q := by
      rw [List.getLast?_cons]
      exact ⟨_, rfl⟩
    exact ((List.isChain_append.1 hchain).2.2 q hq p rfl).ne_nil
  obtain ⟨rfl, hall⟩ | ⟨es, p, rs, t₁, hsplit, hmk, hrs⟩ := provide_split h
  · obtain ⟨front, last, rfl⟩ := (List.eq_nil_or_concat' ps).resolve_left hps
    have hlast := hne last (List.mem_append_right front (List.mem_singleton_self last))
    have hdir := hall last (List.mem_cons_of_mem [] (List.mem_append_right front
      (List.mem_singleton_self last)))
    obtain ⟨log, hrun⟩ := @single_of_isDir allowed ⟨t', []⟩ last hlast hdir true
    refine ⟨log, ?_⟩
    rw [← List.cons_append, List.reverse_append, List.reverse_singleton, List.singleton_append,
      climb_success _ _ hrun]
    rfl
  · rw [hsplit] at hchain
    obtain ⟨same, below, rfl, hsame, hbelow⟩ := chain_split (List.isChain_append.1 hchain).2.1
    have hpnames : components p ≠ [] := by
      intro hnil
      rw [hnil] at hmk
      cases hmk
    have hskip : ∀ q ∈ below, 2 ≤ (components q).length ∧
        t.mkdir allowed t.root (components q) = .error .ENOENT := by
      intro q hq
      obtain ⟨rest, name, hnames⟩ := hbelow q hq
      rw [hnames]
      refine ⟨?_, mkdir_below hmk⟩
      have hpos := List.length_pos_iff.2 hpnames
      rw [List.length_append, List.length_append, List.length_singleton]
      omega
    obtain ⟨front, q, hfront, hq⟩ : ∃ front q, p :: same = front ++ [q] ∧
        components q = components p := by
      obtain ⟨front, q, hfront⟩ := (List.eq_nil_or_concat' (p :: same)).resolve_left
        (List.cons_ne_nil p same)
      refine ⟨front, q, hfront, ?_⟩
      have hmem : q ∈ p :: same := hfront ▸ List.mem_append_right front (List.mem_singleton_self q)
      obtain rfl | hmem := List.mem_cons.1 hmem
      · rfl
      · exact hsame q hmem
    have hqne : q ≠ [] := by
      rintro rfl
      exact hpnames (hq.symm.trans components_nil)
    have hwhole : ([] :: ps).reverse = below.reverse ++ q :: (front.reverse ++ es.reverse) := by
      rw [hsplit, ← List.cons_append, hfront]
      simp
    obtain ⟨log, hclimb⟩ := climb_skips (s := ⟨t, []⟩) (q :: (front.reverse ++ es.reverse)) [] hskip
    obtain ⟨log', hrun⟩ := @single_of_ok allowed ⟨t, log⟩ q hqne t₁ (by rw [hq]; exact hmk) true
    have hbelow' : provide allowed (below.map components) t₁ = some t' := by
      rw [List.map_append, provide_append_isDir] at hrs
      · exact hrs
      · intro names hnames
        obtain ⟨r, hr, rfl⟩ := List.mem_map.1 hnames
        rw [hsame r hr]
        exact isDir_of_mkdir hmk
    rw [hwhole, hclimb, climb_success _ _ hrun, List.append_nil]
    exact descend_provides (fun r hr => (one_lt_length (hskip r hr).1).2) hbelow'

/-! ## When it fails -/

theorem descend_hindered {p : Text} {ps : List Text} (hchain : List.IsChain Next (p :: ps))
    {s : State} (hsettled : Settled s.tree (components p))
    (h : (descend (mkdir allowed) ps s).1 = false) :
    ∃ c ∈ (descend (mkdir allowed) ps s).2.log, Hindered c := by
  induction ps generalizing p s with
  | nil => cases h
  | cons q qs ih =>
    obtain ⟨hnext, hchain⟩ := List.isChain_cons_cons.1 hchain
    have hq := hnext.ne_nil
    rw [descend] at h ⊢
    obtain ⟨s', hrun, hset⟩ | hmiss | ⟨s', hrun, hlog⟩ := single_cases allowed hq false s
    · rw [hrun] at h ⊢
      exact ih hchain hset h
    · rw [single_of_ENOENT hq hmiss]
      refine ⟨_, List.mem_append_right _ (List.mem_singleton_self _), hq, Or.inr ⟨rfl, ?_⟩⟩
      exact hsettled.not_parentMissing hnext.names
    · rw [hrun]
      exact hlog

/-- **When the run fails, a call was hindered.** -/
theorem climb_hindered {ps skipped : List Text} (hne : ps ≠ [])
    (hchain : List.IsChain Next ([] :: ps ++ skipped)) {s : State}
    (h : (climb (mkdir allowed) ([] :: ps).reverse skipped s).1 = false) :
    ∃ c ∈ (climb (mkdir allowed) ([] :: ps).reverse skipped s).2.log, Hindered c := by
  induction ps using List.reverseRecOn generalizing skipped s with
  | nil => exact absurd rfl hne
  | append_singleton ps p ih =>
    have hrev : ([] :: (ps ++ [p])).reverse = p :: ([] :: ps).reverse := by simp
    have hsplit : [] :: (ps ++ [p]) ++ skipped = [] :: ps ++ p :: skipped := by simp
    rw [hsplit] at hchain
    obtain ⟨q, hq⟩ : ∃ q, ([] :: ps).getLast? = some q := by
      rw [List.getLast?_cons]
      exact ⟨_, rfl⟩
    have hnext := (List.isChain_append.1 hchain).2.2 q hq p rfl
    have hp := hnext.ne_nil
    rw [hrev] at h ⊢
    rw [climb] at h ⊢
    obtain ⟨s', hrun, hset⟩ | hmiss | ⟨s', hrun, hlog⟩ := single_cases allowed hp true s
    · rw [hrun] at h ⊢
      exact descend_hindered (List.isChain_append.1 hchain).2.1 hset h
    · have hlen : 2 ≤ (components p).length := by
        by_contra hlt
        exact mkdir_one_ne_ENOENT (by omega) hmiss
      have hps : ps ≠ [] := by
        rintro rfl
        cases hq
        obtain hnil | ⟨name, hone⟩ := hnext.names
        · rw [hnil] at hlen
          exact absurd hlen (by decide)
        · rw [hone] at hlen
          exact absurd hlen (by simp)
      rw [single_of_ENOENT hp hmiss] at h ⊢
      simp only [if_true, if_neg (one_lt_length hlen).1] at h ⊢
      exact ih hps hchain h
    · rw [hrun]
      exact hlog

end Directories

/-! ## The whole function -/

theorem slash_cases (rest : Text) :
    rest = [] ∨ (rest ≠ [] ∧ '/' ∉ rest) ∨
      '/' ∈ rest ∧ ∃ ps, ps ≠ [] ∧ upwards ('/' :: rest) = [] :: ps := by
  by_cases hnil : rest = []
  · exact Or.inl hnil
  · by_cases hslash : '/' ∈ rest
    · obtain ⟨ps, hps⟩ := upwards_slash rest
      refine Or.inr (Or.inr ⟨hslash, ps, ?_, hps⟩)
      rintro rfl
      obtain ⟨x, r, rfl⟩ := List.append_of_mem hslash
      have hmem := mem_upwards ('/' :: x) r
      rw [List.cons_append, hps] at hmem
      exact absurd (List.mem_singleton.1 hmem) (List.cons_ne_nil '/' x)
    · exact Or.inr (Or.inl ⟨hnil, hslash⟩)

/-- **Which absolute paths get their ancestors**: the root, and every path with a second slash. -/
theorem mkdirRecursive_provides_iff (allowed : Nat → Text → Bool) (rest : Text) (t : Dirs Text) :
    Provides allowed ('/' :: rest) t ↔ rest = [] ∨ '/' ∈ rest := by
  have hrun : rest ≠ [] → run allowed ('/' :: rest) t =
      climb (mkdir allowed) (upwards ('/' :: rest)).reverse [] ⟨t, []⟩ := by
    intro hne
    have hlen : ¬ ('/' :: rest).length ≤ 1 := by
      have := List.length_pos_iff.2 hne
      rw [List.length_cons]
      omega
    have hhead : ¬ ('/' :: rest).head? ≠ some '/' := not_not_intro rfl
    rw [run, mkdirRecursiveWith, if_neg hhead, if_neg hlen, slashPrefixes_eq]
  obtain hnil | ⟨hne, hslash⟩ | ⟨hslash, ps, hps, hup⟩ := slash_cases rest
  · subst hnil
    refine iff_of_true ⟨fun t' h => ?_, fun h => ?_⟩ (Or.inl rfl)
    · obtain ⟨-, hall⟩ := provide_grows h
      rw [ancestors, upwards_slash_nil, List.map_singleton, components_nil,
        provide_cons_of_isDir (isDir_nil t)] at h
      cases h
      exact ⟨rfl, rfl, hall⟩
    · cases h
  · refine iff_of_false (fun h => ?_) ?_
    · have hone : upwards ('/' :: rest) = [[]] := upwards_append hslash ['/']
      have hprov : provide allowed (ancestors ('/' :: rest)) t = some t := by
        rw [ancestors, hone, List.map_singleton, components_nil,
          provide_cons_of_isDir (isDir_nil t)]
        rfl
      obtain ⟨htrue, -⟩ := h.made t hprov
      rw [hrun hne, hone] at htrue
      cases htrue
    · rintro (hnil | hmem)
      · exact hne hnil
      · exact hslash hmem
  · have hne : rest ≠ [] := by
      rintro rfl
      exact absurd hslash List.not_mem_nil
    have hchain := (upwards_chain ('/' :: rest)).1
    rw [hup] at hchain
    refine iff_of_true ⟨fun t' h => ?_, fun h => ?_⟩ (Or.inr hslash)
    · obtain ⟨-, hall⟩ := provide_grows h
      rw [ancestors, hup] at h
      obtain ⟨log, hclimb⟩ := climb_provides hchain hps h
      rw [hrun hne, hup, hclimb]
      exact ⟨rfl, rfl, hall⟩
    · rw [hrun hne, hup] at h ⊢
      refine climb_hindered hps ?_ h
      rw [List.append_nil]
      exact hchain

/-- A name in the root is refused, although nothing is missing. -/
theorem mkdirRecursive_name :
    ¬ ∀ (allowed : Nat → Text → Bool) (t : Dirs Text), Provides allowed "/name".toList t := by
  intro h
  have hrun : (run (fun _ _ => true) "/name".toList (Dirs.bare ['.'] ['.', '.'])).1 = false := by
    decide +kernel
  have hprov : provide (fun _ _ => true) (ancestors "/name".toList) (Dirs.bare ['.'] ['.', '.']) =
      some (Dirs.bare ['.'] ['.', '.']) := by
    have hone : ancestors "/name".toList = [[]] := by decide +kernel
    rw [hone, provide_cons_of_isDir (isDir_nil _)]
    rfl
  obtain ⟨htrue, -⟩ := (h (fun _ _ => true) (Dirs.bare ['.'] ['.', '.'])).made _ hprov
  rw [hrun] at htrue
  cases htrue

end MkdirAncestors
