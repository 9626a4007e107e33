import UtilVserver.MatchList
import UtilVserver.Mkdir
import UtilVserver.UnifyCopy

/-!
# `vclone`

The walk through a guest that copies it into another directory, or links the files that are
unified.

* `handleDirEntry`, `visitDirEntry`, `visitDir`, `vclone` — the program.
* `Selected`, `Wanted`, `Exact` — what shall be in the copy.
* `Consistent` — the trees and match lists for which it is.

The source is a tree of inodes.  `skip_depth` is raised by the result of `handleDirEntry`, which is
true for an excluded directory, so it stays 0 until something has failed.

Principal results: `visitDir_works`, `visitDir_sound` and `vclone_exact_iff`.
-/

set_option autoImplicit false

namespace Vclone

open CString FileSystem FS PathInfo MatchLists
open Unify (Outcome ILI)
open UnifyCopy (CopyOf)

variable {E : Type} [DecidableEq E]

/-- Which calls work, by the path in the source or in the destination. -/
structure World where
  lstat : Text → Bool
  getIattr : Text → Bool
  link : Text → Bool
  mkdir : Mkdir.Calls
  copy : UnifyCopy.Calls

/-- No call fails. -/
structure World.Works (w : World) : Prop where
  lstat : ∀ path, w.lstat path = true
  link : ∀ path, w.link path = true
  mkdir : ∀ path, w.mkdir.mkdir path = true
  copy : w.copy.Work

/-- `global_info`. -/
structure State (E : Type) where
  excludes : MatchList
  fs : FS E

def State.setSkipDepth (s : State E) (n : Nat) : State E :=
  { s with excludes := { s.excludes with skipDepth := n } }

/-- `Unify_isIUnlinkable` gives `unifyBUSY`. -/
def isBusy (w : World) (fs : FS E) (path : Text) (ino : Nat) : Bool :=
  w.getIattr path && (fs.inode ino).flags &&& ILI = ILI

/-- `handleDirEntry` for the inode `ino` at `path`. -/
def handleDirEntry (w : World) (dst : Text) (excludes : MatchList) (path : Text) (ino : Nat)
    (fs : FS E) : Outcome E :=
  if !w.lstat path then .returned false fs
  else if MatchLists.compare excludes path ≠ .stINCLUDE then .returned true fs
  else
    let dstPath := PathInfo.append dst path
    if (fs.lookup dstPath).isSome then .returned true fs
    else
      -- the result of `mkdirRecursive` is compared with -1, which it never is
      let fs := if 0 < excludes.skipDepth then (Mkdir.mkdirRecursive w.mkdir dstPath fs).2 else fs
      if fs.isReg ino && isBusy w fs path ino then
        match attempt (w.link dstPath) (fs.linkIno ino dstPath) with
        | none => .exited fs
        | some fs => .returned true fs
      else
        let r := UnifyCopy.copy w.copy (some ino) (fs.stat ino) dstPath fs
        .returned r.1 r.2

/-- A function of the walk returns the number of failures, or `Elink` exits. -/
inductive Visit (E : Type) where
  | returned (res : Nat) (s : State E)
  | exited (fs : FS E)

/-- Go on, and add the failures. -/
def Visit.andThen : Visit E → (State E → Visit E) → Visit E
  | .exited fs, _ => .exited fs
  | .returned res s, next =>
    match next s with
    | .exited fs => .exited fs
    | .returned res' s' => .returned (res + res') s'

/-- `visitDirEntry`; `visitSub` is `visitDir` for the entry. -/
def visitDirEntry (w : World) (dst : Text) (visitSub : Text → State E → Visit E) (dir : Text)
    (name : FileName) (ino : Nat) (s : State E) : Visit E :=
  if isDotfile name.text then .returned 0 s
  else
    let path := PathInfo.append dir name.text
    match handleDirEntry w dst s.excludes path ino s.fs with
    | .exited fs => .exited fs
    | .returned handled fs =>
      let res := if handled then 0 else 1
      let s' := { s with fs := fs }
      if w.lstat path && s.fs.isDir ino then
        let depth := s.excludes.skipDepth
        let s' := if res ≠ 0 ∨ 0 < depth then s'.setSkipDepth (depth + 1) else s'
        ((Visit.returned res s').andThen (visitSub path)).andThen fun s =>
          let depth := s.excludes.skipDepth
          .returned 0 (if 0 < depth then s.setSkipDepth (depth - 1) else s)
      else .returned res s'

/-- `visitDir`. -/
def visitDir (w : World) (dst : Text) : Dir Nat → Text → State E → Visit E
  | .nil, _, s => .returned 0 s
  | .entry name ino sub rest, dir, s =>
    (visitDirEntry w dst (visitDir w dst sub) dir name ino s).andThen (visitDir w dst rest dir)

/-- `main`, behind the reading of the list: the exit code, and what there is at the end. -/
def vclone (w : World) (root : Text) (data : List MatchItem) (tree : Dir Nat) (dst : Text)
    (fs : FS E) : Nat × FS E :=
  if dst.head? ≠ some '/' then (1, fs)
  else
    match visitDir w dst tree rootPath ⟨MatchLists.init root data, fs⟩ with
    | .exited fs => (1, fs)
    | .returned res s => (if 0 < res then 1 else 0, s.fs)

/-! ## What shall be in the copy -/

/-- The first item that matches includes the entry, or none does and no directory above it, the
start among them, is excluded by the list. -/
def Selected (data : List MatchItem) (k : List FileName) : Prop :=
  firstMatch data (pathOf k) = some .stINCLUDE ∨
    firstMatch data (pathOf k) = none ∧
      ∀ up, up <+: k → up ≠ k → verdict data (pathOf up) = .stINCLUDE

def isSock (fs : FS E) (i : Nat) : Bool := (fs.inode i).mode.kind = .sock

/-- The entry is selected and no socket, or it is above a selected entry. -/
def Wanted (fs : FS E) (data : List MatchItem) (tree : Dir Nat) (e : List FileName × Nat) : Prop :=
  Selected data e.1 ∧ isSock fs e.2 = false ∨
    ∃ e' ∈ tree.entries [], e.1 <+: e'.1 ∧ e.1 ≠ e'.1 ∧ Selected data e'.1

/-- The place of an entry in the destination. -/
def place (fs : FS E) (dst : Text) (k : List FileName) : E :=
  fs.entry (PathInfo.append dst (pathOf k))

/-- **The copy is exact**: success, a copy of everything that is wanted, and nothing else. -/
structure Exact (data : List MatchItem) (tree : Dir Nat) (dst : Text) (fs : FS E)
    (r : Nat × FS E) : Prop where
  success : r.1 = 0
  present : ∀ e ∈ tree.entries [], Wanted fs data tree e →
    ∃ j, r.2.names (place fs dst e.1) = some j ∧ CopyOf (fs.inode e.2) (r.2.inode j)
  only : ∀ x, (∀ e ∈ tree.entries [], Wanted fs data tree e → x ≠ place fs dst e.1) →
    r.2.names x = fs.names x

/-- The tree is one of inodes that exist. -/
structure Source (fs : FS E) (tree : Dir Nat) : Prop where
  valid : tree.Valid fs.isDir
  inodes : ∀ e ∈ tree.entries [], e.2 < fs.next

/-- An empty directory with an absolute path.  Different names lead to different places. -/
structure EmptyDir (fs : FS E) (dst : Text) : Prop where
  absolute : dst.head? = some '/'
  isDir : (fs.names (place fs dst [])).any fs.isDir = true
  empty : ∀ k, Plain k → k ≠ [] → fs.names (place fs dst k) = none
  dirOf : ∀ k name, Plain (k ++ [name]) →
    fs.dirOf (place fs dst (k ++ [name])) = place fs dst k
  inj : ∀ k k', Plain k → Plain k' → place fs dst k = place fs dst k' → k = k'

/-- The list itself includes the entry. -/
def Included (data : List MatchItem) (k : List FileName) : Prop :=
  verdict data (pathOf k) = .stINCLUDE

instance (data : List MatchItem) (k : List FileName) : Decidable (Included data k) :=
  inferInstanceAs (Decidable (verdict data (pathOf k) = .stINCLUDE))

/-- The directory of the entry is the start or included. -/
def ParentIncluded (data : List MatchItem) (k : List FileName) : Prop :=
  k.dropLast = [] ∨ Included data k.dropLast

/-- **The inputs `vclone` is made for.** -/
structure Consistent (data : List MatchItem) (tree : Dir Nat) (fs : FS E) : Prop where
  /-- What is in a directory that the list excludes is excluded as well, by an item of its own, or
  a socket that no item matches. -/
  parents : ∀ e ∈ tree.entries [], ParentIncluded data e.1 ∨ ¬ Included data e.1 ∨
    isSock fs e.2 = true ∧ firstMatch data (pathOf e.1) = none
  /-- The list includes the start, or an item includes something below every entry that no item
  matches, if it is no socket. -/
  start : Included data [] ∨ ∀ e ∈ tree.entries [],
    firstMatch data (pathOf e.1) ≠ none ∨ isSock fs e.2 = true ∨
      ∃ e' ∈ tree.entries [], e.1 <+: e'.1 ∧ e.1 ≠ e'.1 ∧
        firstMatch data (pathOf e'.1) = some .stINCLUDE

/-! ## One entry -/

/-- What the program copies while `skip_depth` is 0. -/
def Copied (data : List MatchItem) (fs : FS E) (e : List FileName × Nat) : Prop :=
  Included data e.1 ∧ isSock fs e.2 = false

/-- From `fs` to `fs'`, exactly what is to be copied among `es` has been copied. -/
structure Wrote (data : List MatchItem) (dst : Text) (fs₀ : FS E)
    (es : List (List FileName × Nat)) (fs fs' : FS E) : Prop where
  extends_ : Extends fs fs'
  copied : ∀ e ∈ es, Copied data fs₀ e →
    ∃ j, fs'.names (place fs₀ dst e.1) = some j ∧ CopyOf (fs₀.inode e.2) (fs'.inode j)
  kept : ∀ x, (∀ e ∈ es, Copied data fs₀ e → x ≠ place fs₀ dst e.1) → fs'.names x = fs.names x

variable {w : World} {dst : Text} {data : List MatchItem} {fs₀ fs fs₁ fs₂ : FS E}

omit [DecidableEq E] in
theorem Wrote.nothing (es : List (List FileName × Nat)) (h : ∀ e ∈ es, ¬ Copied data fs₀ e)
    (fs : FS E) : Wrote data dst fs₀ es fs fs :=
  ⟨Extends.refl fs, fun e he hcopied => absurd hcopied (h e he), fun _ _ => rfl⟩

omit [DecidableEq E] in
theorem Wrote.append {es es' : List (List FileName × Nat)} (h : Wrote data dst fs₀ es fs fs₁)
    (h' : Wrote data dst fs₀ es' fs₁ fs₂)
    (hne : ∀ e ∈ es, ∀ e' ∈ es', place fs₀ dst e.1 ≠ place fs₀ dst e'.1) :
    Wrote data dst fs₀ (es ++ es') fs fs₂ where
  extends_ := h.extends_.trans h'.extends_
  copied e he hcopied := by
    rcases List.mem_append.1 he with he | he
    · obtain ⟨j, hj, hcopy⟩ := h.copied e he hcopied
      have hsame := h'.extends_.same (fs₁.named _ _ hj)
      refine ⟨j, ?_, hcopy.trans (by rw [hsame.mode]) hsame.data⟩
      rw [h'.kept _ fun e' he' _ => hne e he e' he', hj]
    · exact h'.copied e he hcopied
  kept x hx := by
    rw [h'.kept x fun e he => hx e (List.mem_append_right _ he),
      h.kept x fun e he => hx e (List.mem_append_left _ he)]

omit [DecidableEq E] in
theorem kind_of_extends (h : Extends fs₀ fs) {i : Nat} (hi : i < fs₀.next) :
    (fs.inode i).mode.kind = (fs₀.inode i).mode.kind := by
  rw [(h.same hi).mode]

/-- A new name in the destination. -/
theorem Wrote.of_names {e : List FileName × Nat} {i : Nat} (hext : Extends fs fs₁)
    (hnames : fs₁.names = Function.update fs.names (place fs₀ dst e.1) (some i))
    (hcopied : Copied data fs₀ e) (hcopy : CopyOf (fs₀.inode e.2) (fs₁.inode i)) :
    Wrote data dst fs₀ [e] fs fs₁ where
  extends_ := hext
  copied e' he' _ := by
    rw [List.mem_singleton.1 he', hnames, Function.update_self]
    exact ⟨i, rfl, hcopy⟩
  kept x hx := by
    rw [hnames, Function.update_of_ne (hx e List.mem_cons_self hcopied)]

/-- `handleDirEntry` where nothing is skipped and the place in the destination is free. -/
theorem handleDirEntry_eq (hw : w.Works) {excludes : MatchList} (hskip : excludes.skipDepth = 0)
    {path : Text} (hfree : fs.lookup (PathInfo.append dst path) = none) (ino : Nat) :
    handleDirEntry w dst excludes path ino fs =
      if verdict excludes.data path = .stINCLUDE then
        if fs.isReg ino && isBusy w fs path ino then
          match fs.linkIno ino (PathInfo.append dst path) with
          | none => .exited fs
          | some fs => .returned true fs
        else
          let r := UnifyCopy.copy w.copy (some ino) (fs.stat ino) (PathInfo.append dst path) fs
          .returned r.1 r.2
      else .returned true fs := by
  simp only [handleDirEntry, hw.lstat, hw.link, attempt, compare_of_not_skipping hskip, hfree,
    hskip]
  by_cases hincl : verdict excludes.data path = .stINCLUDE
  · simp [hincl]
  · simp [hincl]

/-- Where an entry goes is free, and its directory is there if it is included. -/
structure Room (data : List MatchItem) (dst : Text) (fs₀ fs : FS E) (k : List FileName)
    (name : FileName) : Prop where
  extends_ : Extends fs₀ fs
  plain : Plain (k ++ [name])
  free : fs.names (place fs₀ dst (k ++ [name])) = none
  dir : (fs.names (place fs₀ dst k)).any fs.isDir = true ↔ ParentIncluded data (k ++ [name])

omit [DecidableEq E] in
theorem Room.lookup {k : List FileName} {name : FileName} (h : Room data dst fs₀ fs k name) :
    fs.lookup (PathInfo.append dst (pathOf (k ++ [name]))) = none := by
  rw [FS.lookup, h.extends_.entry]
  exact h.free

omit [DecidableEq E] in
theorem Room.hasDir {k : List FileName} {name : FileName} (h : Room data dst fs₀ fs k name)
    (hd : EmptyDir fs₀ dst) :
    fs.hasDir (fs.entry (PathInfo.append dst (pathOf (k ++ [name])))) = true ↔
      ParentIncluded data (k ++ [name]) := by
  rw [FS.hasDir, h.extends_.dirOf, h.extends_.entry, ← h.dir, ← hd.dirOf k name h.plain]
  rfl

/-- **What `handleDirEntry` copies** if the directory is included. -/
theorem handleDirEntry_works (hw : w.Works) (hd : EmptyDir fs₀ dst) {excludes : MatchList}
    (hskip : excludes.skipDepth = 0) {k : List FileName} {name : FileName} {ino : Nat}
    (hroom : Room excludes.data dst fs₀ fs k name) (hino : ino < fs₀.next)
    (hparent : Copied excludes.data fs₀ (k ++ [name], ino) →
      ParentIncluded excludes.data (k ++ [name])) :
    ∃ fs', handleDirEntry w dst excludes (pathOf (k ++ [name])) ino fs = .returned true fs' ∧
      Wrote excludes.data dst fs₀ [(k ++ [name], ino)] fs fs' := by
  have hkind := kind_of_extends hroom.extends_ hino
  have hlt : ino < fs.next := Nat.lt_of_lt_of_le hino hroom.extends_.next_le
  have hsame : CopyOf (fs₀.inode ino) (fs.inode ino) :=
    ⟨hkind, fun _ => (hroom.extends_.same hino).data⟩
  have hplace : fs.entry (PathInfo.append dst (pathOf (k ++ [name]))) =
      place fs₀ dst (k ++ [name]) := by
    rw [hroom.extends_.entry]
    rfl
  rw [handleDirEntry_eq hw hskip hroom.lookup]
  by_cases hincl : verdict excludes.data (pathOf (k ++ [name])) = .stINCLUDE
  · rw [if_pos hincl]
    by_cases hsock : isSock fs₀ ino = true
    · -- nothing is done for a socket
      have hkind' : (fs.inode ino).mode.kind = .sock := by
        rw [hkind]
        simpa [isSock] using hsock
      refine ⟨fs, ?_, Wrote.nothing _ ?_ fs⟩
      · simp [FS.isReg, hkind', UnifyCopy.copy, FS.stat]
      · intro e he hcopied
        rw [List.mem_singleton.1 he] at hcopied
        rw [hcopied.2] at hsock
        cases hsock
    · rw [Bool.not_eq_true] at hsock
      have hcopied : Copied excludes.data fs₀ (k ++ [name], ino) := ⟨hincl, hsock⟩
      have hdir := (hroom.hasDir hd).2 (hparent hcopied)
      split
      · rename_i hreg
        simp only [Bool.and_eq_true] at hreg
        have hfile : fs.isDir ino = false := by
          have hreg : (fs.inode ino).mode.kind = .reg := by simpa [FS.isReg] using hreg.1
          simp [FS.isDir, hreg]
        have hlink : fs.linkIno ino (PathInfo.append dst (pathOf (k ++ [name]))) =
            some (fs.setName (place fs₀ dst (k ++ [name])) ino) := by
          rw [FS.linkIno, if_neg (by simp [hfile, hroom.lookup, hdir]), hplace]
        rw [hlink]
        exact ⟨_, rfl, Wrote.of_names ((Extends.refl fs).setName _ _) rfl hcopied hsame⟩
      · have hsock' : (fs.inode ino).mode.kind ≠ .sock := by
          rw [hkind]
          simpa [isSock] using hsock
        obtain ⟨fs', hcopy, hnew, hof⟩ :=
          UnifyCopy.copy_works hw.copy hlt hroom.lookup hdir hsock'
        simp only [hcopy]
        refine ⟨fs', rfl, Wrote.of_names (i := fs.next) hnew.extends_ ?_ hcopied ?_⟩
        · rw [hnew.names, hplace]
        · exact ⟨hof.kind.trans hkind, fun h => (hof.data (by rwa [hkind])).trans (hsame.data h)⟩
  · rw [if_neg hincl]
    refine ⟨fs, rfl, Wrote.nothing _ ?_ fs⟩
    intro e he hcopied
    rw [List.mem_singleton.1 he] at hcopied
    exact hincl hcopied.1

/-- **Nothing can be copied into a directory that is not there.** -/
theorem handleDirEntry_fails (hw : w.Works) (hd : EmptyDir fs₀ dst) {excludes : MatchList}
    (hskip : excludes.skipDepth = 0) {k : List FileName} {name : FileName} {ino : Nat}
    (hroom : Room excludes.data dst fs₀ fs k name) (hino : ino < fs₀.next)
    (hcopied : Copied excludes.data fs₀ (k ++ [name], ino))
    (hparent : ¬ ParentIncluded excludes.data (k ++ [name])) (fs' : FS E) :
    handleDirEntry w dst excludes (pathOf (k ++ [name])) ino fs ≠ .returned true fs' := by
  have hdir : fs.hasDir (fs.entry (PathInfo.append dst (pathOf (k ++ [name])))) = false := by
    rw [← Bool.not_eq_true, hroom.hasDir hd]
    exact hparent
  have hsock : (fs.inode ino).mode.kind ≠ .sock := by
    rw [kind_of_extends hroom.extends_ hino]
    simpa [isSock] using hcopied.2
  have hincl : verdict excludes.data (pathOf (k ++ [name])) = .stINCLUDE := hcopied.1
  rw [handleDirEntry_eq hw hskip hroom.lookup, if_pos hincl]
  intro hrun
  split at hrun
  · have hlink : fs.linkIno ino (PathInfo.append dst (pathOf (k ++ [name]))) = none := by
      simp [FS.linkIno, hdir]
    rw [hlink] at hrun
    cases hrun
  · have hcopy := UnifyCopy.copy_fails w.copy hdir hsock
    simp only [Outcome.returned.injEq] at hrun
    rw [hcopy] at hrun
    cases hrun.1

/-! ## The walk -/

omit [DecidableEq E] in
theorem returned_zero_andThen (s : State E) (next : State E → Visit E) :
    (Visit.returned 0 s).andThen next = next s := by
  cases h : next s with
  | returned res s' => simp [Visit.andThen, h]
  | exited fs => simp [Visit.andThen, h]

omit [DecidableEq E] in
/-- No failure in the whole is none in the parts. -/
theorem andThen_eq_zero {v : Visit E} {next : State E → Visit E} {s' : State E}
    (h : v.andThen next = .returned 0 s') :
    ∃ s, v = .returned 0 s ∧ next s = .returned 0 s' := by
  cases v with
  | exited fs => cases h
  | returned res s =>
    unfold Visit.andThen at h
    simp only at h
    cases hnext : next s with
    | exited fs =>
      rw [hnext] at h
      cases h
    | returned res' s₁ =>
      rw [hnext, Visit.returned.injEq] at h
      obtain ⟨hres, rfl⟩ := h
      obtain ⟨rfl, rfl⟩ : res = 0 ∧ res' = 0 := by omega
      exact ⟨s, rfl, hnext⟩

/-- **Before a directory**: the places of its entries are free. -/
structure Ready (data : List MatchItem) (dst : Text) (fs₀ : FS E) (d : Dir Nat)
    (k : List FileName) (fs : FS E) : Prop where
  extends_ : Extends fs₀ fs
  plain : Plain k
  free : ∀ e ∈ d.entries k, fs.names (place fs₀ dst e.1) = none
  dir : (fs.names (place fs₀ dst k)).any fs.isDir = true ↔ k = [] ∨ Included data k

variable {name : FileName} {ino : Nat} {sub rest : Dir Nat} {k : List FileName}

omit [DecidableEq E] in
theorem Ready.room (h : Ready data dst fs₀ (.entry name ino sub rest) k fs)
    (hdot : isDotfile name.text = false) : Room data dst fs₀ fs k name where
  extends_ := h.extends_
  plain := h.plain.snoc hdot
  free := h.free _ (Dir.entries_head hdot)
  dir := by
    rw [h.dir]
    simp [ParentIncluded]

omit [DecidableEq E] in
/-- Behind `handleDirEntry`, the directory is ready to be entered. -/
theorem Ready.enter (h : Ready data dst fs₀ (.entry name ino sub rest) k fs)
    (hd : EmptyDir fs₀ dst) (hdot : isDotfile name.text = false)
    (hdir : fs₀.isDir ino = true)
    (hwrote : Wrote data dst fs₀ [(k ++ [name], ino)] fs fs₁) :
    Ready data dst fs₀ sub (k ++ [name]) fs₁ where
  extends_ := h.extends_.trans hwrote.extends_
  plain := h.plain.snoc hdot
  free e he := by
    rw [hwrote.kept _ ?_, h.free e (Dir.entries_sub hdot he)]
    intro e' he' _ heq
    rw [List.mem_singleton.1 he'] at heq
    obtain ⟨name', -, t, ht, -⟩ := Dir.entries_key he
    have hplain := Dir.entries_plain (h.plain.snoc hdot) he
    have hkey := hd.inj _ _ hplain (h.plain.snoc hdot) heq
    rw [ht] at hkey
    simp at hkey
  dir := by
    have hkind : (fs₀.inode ino).mode.kind = .dir := by simpa [FS.isDir] using hdir
    have hsock : isSock fs₀ ino = false := by simp [isSock, hkind]
    constructor
    · intro hplace
      refine Or.inr ?_
      by_contra hincl
      rw [hwrote.kept _ ?_, h.free _ (Dir.entries_head hdot)] at hplace
      · cases hplace
      · intro e he hcopied
        rw [List.mem_singleton.1 he] at hcopied
        exact absurd hcopied.1 hincl
    · rintro (hnil | hincl)
      · simp at hnil
      · obtain ⟨j, hj, hcopy⟩ := hwrote.copied _ List.mem_cons_self ⟨hincl, hsock⟩
        simp only at hj hcopy
        rw [hj]
        simp [FS.isDir, hcopy.kind, hkind]

omit [DecidableEq E] in
/-- Behind an entry, the directory is ready for the next one. -/
theorem Ready.behind (h : Ready data dst fs₀ (.entry name ino sub rest) k fs)
    (hd : EmptyDir fs₀ dst) (hdot : isDotfile name.text = false)
    (hvalid : (Dir.entry name ino sub rest).Valid fs₀.isDir)
    (hwrote : Wrote data dst fs₀ ((k ++ [name], ino) :: sub.entries (k ++ [name])) fs fs₁) :
    Ready data dst fs₀ rest k fs₁ where
  extends_ := h.extends_.trans hwrote.extends_
  plain := h.plain
  free e he := by
    rw [hwrote.kept _ ?_, h.free e (Dir.entries_rest he)]
    intro e' he' _ heq
    have hplain : Plain e'.1 := by
      rcases List.mem_cons.1 he' with rfl | he'
      · exact h.plain.snoc hdot
      · exact Dir.entries_plain (h.plain.snoc hdot) he'
    have hkey := hd.inj _ _ (Dir.entries_plain h.plain he) hplain heq
    exact (Dir.entries_disjoint hvalid he' he).2 (hkey ▸ List.prefix_rfl)
  dir := by
    rw [← h.dir, hwrote.kept _ ?_]
    · cases hk : fs.names (place fs₀ dst k) with
      | none => rfl
      | some j =>
        simp [FS.isDir, kind_of_extends hwrote.extends_ (fs.named _ _ hk)]
    · intro e he _ heq
      have hkey : e.1 ≠ k ∧ Plain e.1 := by
        rcases List.mem_cons.1 he with rfl | he
        · exact ⟨by simp, h.plain.snoc hdot⟩
        · obtain ⟨name', -, t, ht, -⟩ := Dir.entries_key he
          exact ⟨by simp [ht], Dir.entries_plain (h.plain.snoc hdot) he⟩
      exact hkey.1 (hd.inj _ _ h.plain hkey.2 heq).symm

/-- Everything that is to be copied has a directory to go to. -/
def Closed (data : List MatchItem) (fs₀ : FS E) (es : List (List FileName × Nat)) : Prop :=
  ∀ e ∈ es, Copied data fs₀ e → ParentIncluded data e.1

omit [DecidableEq E] in
theorem closed_entry (hdot : isDotfile name.text = false) :
    Closed data fs₀ ((Dir.entry name ino sub rest).entries k) ↔
      (Copied data fs₀ (k ++ [name], ino) → ParentIncluded data (k ++ [name])) ∧
        Closed data fs₀ (sub.entries (k ++ [name])) ∧ Closed data fs₀ (rest.entries k) := by
  simp [Closed, Dir.entries, hdot, or_imp, forall_and]

/-- `visitDirEntry` for an entry that `handleDirEntry` has handled. -/
theorem visitDirEntry_eq (hw : w.Works) {visitSub : Text → State E → Visit E} {dir : Text}
    (hdot : isDotfile name.text = false) {s : State E} (hskip : s.excludes.skipDepth = 0)
    (hrun : handleDirEntry w dst s.excludes (PathInfo.append dir name.text) ino s.fs =
      .returned true fs₁) :
    visitDirEntry w dst visitSub dir name ino s =
      if s.fs.isDir ino then
        (visitSub (PathInfo.append dir name.text) { s with fs := fs₁ }).andThen fun s =>
          let depth := s.excludes.skipDepth
          .returned 0 (if 0 < depth then s.setSkipDepth (depth - 1) else s)
      else .returned 0 { s with fs := fs₁ } := by
  unfold visitDirEntry
  rw [if_neg (by simp [hdot])]
  simp only [hrun, hw.lstat, Bool.true_and, if_true, hskip, lt_irrefl, ne_eq, not_true_eq_false,
    or_self, if_false, returned_zero_andThen]

/-- **One entry**: it is copied, and what is below it. -/
theorem visitDirEntry_works (hw : w.Works) (hd : EmptyDir fs₀ dst)
    (hdot : isDotfile name.text = false) {s : State E} (hskip : s.excludes.skipDepth = 0)
    (hready : Ready s.excludes.data dst fs₀ (.entry name ino sub rest) k s.fs)
    (hvalid : (Dir.entry name ino sub rest).Valid fs₀.isDir) (hino : ino < fs₀.next)
    (hhere : Copied s.excludes.data fs₀ (k ++ [name], ino) →
      ParentIncluded s.excludes.data (k ++ [name]))
    (hsub : ∀ fs₁, Ready s.excludes.data dst fs₀ sub (k ++ [name]) fs₁ →
      ∃ fs₂, visitDir w dst sub (pathOf (k ++ [name])) ⟨s.excludes, fs₁⟩ =
          .returned 0 ⟨s.excludes, fs₂⟩ ∧
        Wrote s.excludes.data dst fs₀ (sub.entries (k ++ [name])) fs₁ fs₂) :
    ∃ fs₂, visitDirEntry w dst (visitDir w dst sub) (pathOf k) name ino s =
        .returned 0 ⟨s.excludes, fs₂⟩ ∧
      Wrote s.excludes.data dst fs₀ ((k ++ [name], ino) :: sub.entries (k ++ [name])) s.fs fs₂ := by
  obtain ⟨fs₁, hrun, hwrote⟩ :=
    handleDirEntry_works hw hd hskip (hready.room hdot) hino hhere
  rw [pathOf_snoc] at hrun hsub
  rw [visitDirEntry_eq hw hdot hskip hrun]
  have hkind : s.fs.isDir ino = fs₀.isDir ino := by
    simp [FS.isDir, kind_of_extends hready.extends_ hino]
  rw [hkind]
  split
  · rename_i hdir
    obtain ⟨fs₂, hsubrun, hsubwrote⟩ := hsub fs₁ (hready.enter hd hdot hdir hwrote)
    have hne : ∀ e ∈ [(k ++ [name], ino)], ∀ e' ∈ sub.entries (k ++ [name]),
        place fs₀ dst e.1 ≠ place fs₀ dst e'.1 := by
      intro e he e' he' heq
      rw [List.mem_singleton.1 he] at heq
      obtain ⟨name', -, t, ht, -⟩ := Dir.entries_key he'
      have hplain := hready.plain.snoc hdot
      have hkey := hd.inj _ _ hplain (Dir.entries_plain hplain he') heq
      rw [ht] at hkey
      simp at hkey
    refine ⟨fs₂, ?_, hwrote.append hsubwrote hne⟩
    rw [hsubrun, returned_zero_andThen]
    simp [hskip]
  · rename_i hfile
    have hnil : sub = .nil := hvalid.2.1 (by simpa using hfile)
    rw [hnil]
    exact ⟨fs₁, rfl, hwrote⟩

/-- **The walk copies all it has to** if there is a directory for everything. -/
theorem visitDir_works (hw : w.Works) (hd : EmptyDir fs₀ dst) (excludes : MatchList)
    (hskip : excludes.skipDepth = 0) (d : Dir Nat) (hvalid : d.Valid fs₀.isDir)
    (hino : ∀ e ∈ d.entries k, e.2 < fs₀.next)
    (hready : Ready excludes.data dst fs₀ d k fs)
    (hclosed : Closed excludes.data fs₀ (d.entries k)) :
    ∃ fs', visitDir w dst d (pathOf k) ⟨excludes, fs⟩ = .returned 0 ⟨excludes, fs'⟩ ∧
      Wrote excludes.data dst fs₀ (d.entries k) fs fs' := by
  induction d generalizing k fs with
  | nil => exact ⟨fs, rfl, Wrote.nothing _ (fun e he => by cases he) fs⟩
  | entry name ino sub rest ihsub ihrest =>
    unfold visitDir
    by_cases hdot : isDotfile name.text = true
    · -- `.` and `..`
      have hentries : (Dir.entry name ino sub rest).entries k = rest.entries k := by
        simp [Dir.entries, hdot]
      rw [hentries] at hino hclosed ⊢
      have hskipped : visitDirEntry w dst (visitDir w dst sub) (pathOf k) name ino
          ⟨excludes, fs⟩ = .returned 0 ⟨excludes, fs⟩ := by
        simp [visitDirEntry, hdot]
      rw [hskipped, returned_zero_andThen]
      refine ihrest hvalid.2.2.2 hino ⟨hready.extends_, hready.plain, ?_, hready.dir⟩ hclosed
      rw [← hentries]
      exact hready.free
    · rw [Bool.not_eq_true] at hdot
      obtain ⟨hhere, hsubclosed, hrestclosed⟩ := (closed_entry hdot).1 hclosed
      obtain ⟨fs₁, hrun, hwrote⟩ := visitDirEntry_works (s := ⟨excludes, fs⟩) hw hd hdot hskip
        hready hvalid (hino _ (Dir.entries_head hdot)) hhere fun fs₁ hready₁ =>
          ihsub hvalid.2.2.1 (fun e he => hino e (Dir.entries_sub hdot he)) hready₁ hsubclosed
      obtain ⟨fs₂, hrest, hrestwrote⟩ := ihrest hvalid.2.2.2
        (fun e he => hino e (Dir.entries_rest he)) (hready.behind hd hdot hvalid hwrote) hrestclosed
      rw [hrun, returned_zero_andThen, hrest]
      refine ⟨fs₂, rfl, ?_⟩
      have hentries : (Dir.entry name ino sub rest).entries k =
          ((k ++ [name], ino) :: sub.entries (k ++ [name])) ++ rest.entries k := by
        simp [Dir.entries, hdot]
      rw [hentries]
      refine hwrote.append hrestwrote fun e he e' he' heq => ?_
      have hplain : Plain e.1 := by
        rcases List.mem_cons.1 he with rfl | he
        · exact hready.plain.snoc hdot
        · exact Dir.entries_plain (hready.plain.snoc hdot) he
      have hkey := hd.inj _ _ hplain (Dir.entries_plain hready.plain he') heq
      exact (Dir.entries_disjoint hvalid he he').1 (hkey ▸ List.prefix_rfl)

/-- An entry that was visited without a failure had been handled. -/
theorem handled_of_visitDirEntry (hw : w.Works) {visitSub : Text → State E → Visit E} {dir : Text}
    (hdot : isDotfile name.text = false) {s s' : State E}
    (h : visitDirEntry w dst visitSub dir name ino s = .returned 0 s') :
    ∃ fs₁, handleDirEntry w dst s.excludes (PathInfo.append dir name.text) ino s.fs =
      .returned true fs₁ := by
  unfold visitDirEntry at h
  rw [if_neg (by simp [hdot])] at h
  simp only [hw.lstat, Bool.true_and] at h
  cases hrun : handleDirEntry w dst s.excludes (PathInfo.append dir name.text) ino s.fs with
  | exited fs =>
    rw [hrun] at h
    cases h
  | returned handled fs =>
    cases handled with
    | true => exact ⟨fs, rfl⟩
    | false =>
      simp only [hrun] at h
      split at h
      · obtain ⟨s₁, h, -⟩ := andThen_eq_zero h
        obtain ⟨s₂, h, -⟩ := andThen_eq_zero h
        cases h
      · cases h

/-- **A walk without failures** had a directory for everything it copied. -/
theorem visitDir_sound (hw : w.Works) (hd : EmptyDir fs₀ dst) (excludes : MatchList)
    (hskip : excludes.skipDepth = 0) (d : Dir Nat) (hvalid : d.Valid fs₀.isDir)
    (hino : ∀ e ∈ d.entries k, e.2 < fs₀.next)
    (hready : Ready excludes.data dst fs₀ d k fs) {s' : State E}
    (hrun : visitDir w dst d (pathOf k) ⟨excludes, fs⟩ = .returned 0 s') :
    Closed excludes.data fs₀ (d.entries k) := by
  induction d generalizing k fs s' with
  | nil => exact fun e he => by cases he
  | entry name ino sub rest ihsub ihrest =>
    unfold visitDir at hrun
    obtain ⟨s₁, hentry, hrest⟩ := andThen_eq_zero hrun
    by_cases hdot : isDotfile name.text = true
    · have hentries : (Dir.entry name ino sub rest).entries k = rest.entries k := by
        simp [Dir.entries, hdot]
      have hskipped : visitDirEntry w dst (visitDir w dst sub) (pathOf k) name ino
          ⟨excludes, fs⟩ = .returned 0 ⟨excludes, fs⟩ := by
        simp [visitDirEntry, hdot]
      rw [hskipped] at hentry
      cases hentry
      rw [hentries] at hino ⊢
      refine ihrest hvalid.2.2.2 hino ⟨hready.extends_, hready.plain, ?_, hready.dir⟩ hrest
      rw [← hentries]
      exact hready.free
    · rw [Bool.not_eq_true] at hdot
      have hroom := hready.room hdot
      have hlt := hino _ (Dir.entries_head hdot)
      have hsubino : ∀ e ∈ sub.entries (k ++ [name]), e.2 < fs₀.next :=
        fun e he => hino e (Dir.entries_sub hdot he)
      obtain ⟨fs₁, hhandled⟩ := handled_of_visitDirEntry hw hdot hentry
      rw [← pathOf_snoc] at hhandled
      have hhere : Copied excludes.data fs₀ (k ++ [name], ino) →
          ParentIncluded excludes.data (k ++ [name]) := by
        intro hcopied
        by_contra hparent
        exact handleDirEntry_fails hw hd hskip hroom hlt hcopied hparent fs₁ hhandled
      have hsubclosed : Closed excludes.data fs₀ (sub.entries (k ++ [name])) := by
        cases hdir : fs₀.isDir ino with
        | false =>
          rw [hvalid.2.1 hdir]
          exact fun e he => by cases he
        | true =>
          obtain ⟨fs₁', hhandled', hwrote⟩ := handleDirEntry_works hw hd hskip hroom hlt hhere
          have hkind : fs.isDir ino = true := by
            rw [← hdir]
            simp [FS.isDir, kind_of_extends hready.extends_ hlt]
          rw [pathOf_snoc] at hhandled'
          rw [visitDirEntry_eq (s := ⟨excludes, fs⟩) hw hdot hskip hhandled', if_pos hkind]
            at hentry
          obtain ⟨s₂, hsub, -⟩ := andThen_eq_zero hentry
          rw [← pathOf_snoc] at hsub
          exact ihsub hvalid.2.2.1 hsubino (hready.enter hd hdot hdir hwrote) hsub
      obtain ⟨fs₂, hentry', hwrote⟩ := visitDirEntry_works (s := ⟨excludes, fs⟩) hw hd hdot hskip
        hready hvalid hlt hhere fun fs₁ hready₁ =>
          visitDir_works hw hd excludes hskip sub hvalid.2.2.1 hsubino hready₁ hsubclosed
      rw [hentry'] at hentry
      cases hentry
      exact (closed_entry hdot).2 ⟨hhere, hsubclosed, ihrest hvalid.2.2.2
        (fun e he => hino e (Dir.entries_rest he)) (hready.behind hd hdot hvalid hwrote) hrest⟩

/-! ## The whole program -/

variable {tree : Dir Nat}

omit [DecidableEq E] in
theorem EmptyDir.ready (hd : EmptyDir fs dst) (data : List MatchItem) (tree : Dir Nat) :
    Ready data dst fs tree [] fs where
  extends_ := Extends.refl fs
  plain := plain_nil
  free e he := hd.empty e.1 (Dir.entries_plain plain_nil he) (Dir.entries_ne_nil he)
  dir := ⟨fun _ => Or.inl rfl, fun _ => hd.isDir⟩

/-- **`vclone` succeeds** exactly if there is a directory for everything it copies. -/
theorem vclone_success (hw : w.Works) (hs : Source fs tree) (hd : EmptyDir fs dst) (root : Text) :
    (vclone w root data tree dst fs).1 = 0 ↔ Closed data fs (tree.entries []) := by
  have hready := hd.ready data tree
  unfold vclone
  rw [if_neg (by simp [hd.absolute])]
  constructor
  · intro hzero
    cases hrun : visitDir w dst tree rootPath ⟨MatchLists.init root data, fs⟩ with
    | exited fs' =>
      rw [hrun] at hzero
      cases hzero
    | returned res s =>
      obtain rfl : res = 0 := by
        rw [hrun] at hzero
        by_contra hres
        simp [Nat.pos_of_ne_zero hres] at hzero
      exact visitDir_sound (k := []) hw hd (MatchLists.init root data) rfl tree
        hs.valid hs.inodes hready hrun
  · intro hclosed
    obtain ⟨fs', hrun, -⟩ := visitDir_works (k := []) hw hd (MatchLists.init root data)
      rfl tree hs.valid hs.inodes hready hclosed
    have hrun : visitDir w dst tree rootPath ⟨MatchLists.init root data, fs⟩ = _ := hrun
    rw [hrun]
    rfl

/-- **What `vclone` copies** when it succeeds. -/
theorem vclone_wrote (hw : w.Works) (hs : Source fs tree) (hd : EmptyDir fs dst) (root : Text)
    (hclosed : Closed data fs (tree.entries [])) :
    Wrote data dst fs (tree.entries []) fs (vclone w root data tree dst fs).2 := by
  obtain ⟨fs', hrun, hwrote⟩ := visitDir_works (k := []) hw hd
    (MatchLists.init root data) rfl tree hs.valid hs.inodes (hd.ready data tree) hclosed
  have hrun : visitDir w dst tree rootPath ⟨MatchLists.init root data, fs⟩ = _ := hrun
  unfold vclone
  rw [if_neg (by simp [hd.absolute]), hrun]
  exact hwrote

/-! ## What is wanted and what is copied -/

omit [DecidableEq E] in
theorem not_isSock_of_isDir {i : Nat} (h : fs.isDir i = true) : isSock fs i = false := by
  have hkind : (fs.inode i).mode.kind = .dir := by simpa [FS.isDir] using h
  simp [isSock, hkind]

theorem included_of_firstMatch {k : List FileName}
    (h : firstMatch data (pathOf k) = some .stINCLUDE) : Included data k := by
  simp [Included, verdict, h]

theorem included_of_none {k : List FileName} (h : firstMatch data (pathOf k) = none) :
    Included data k := by
  simp [Included, verdict, h]

theorem Selected.included {k : List FileName} (h : Selected data k) : Included data k := by
  rcases h with h | ⟨h, -⟩
  · exact included_of_firstMatch h
  · exact included_of_none h

omit [DecidableEq E] in
/-- **Everything above what is copied is included.** -/
theorem included_above (hs : Source fs tree) (hclosed : Closed data fs (tree.entries []))
    {e : List FileName × Nat} (he : e ∈ tree.entries []) (hcopied : Copied data fs e)
    {up : List FileName} (hup : up <+: e.1) (hnil : up ≠ []) : Included data up := by
  obtain ⟨k, i⟩ := e
  induction k using List.reverseRecOn generalizing i with
  | nil => exact absurd (List.prefix_nil.1 hup) hnil
  | append_singleton k name ih =>
    rcases List.prefix_concat_iff.1 hup with rfl | hup
    · exact hcopied.1
    · have hparent := hclosed _ he hcopied
      have hk : k ≠ [] := by
        rintro rfl
        exact hnil (List.prefix_nil.1 hup)
      simp only [ParentIncluded, List.dropLast_concat, hk, false_or] at hparent
      rcases Dir.entries_parent hs.valid he with hstart | ⟨j, hj, hdir⟩
      · simp only [List.dropLast_concat] at hstart
        exact absurd hstart hk
      · simp only [List.dropLast_concat] at hj
        exact ih j hj ⟨hparent, not_isSock_of_isDir hdir⟩ hup

theorem firstMatch_of_included {k : List FileName} (h : Included data k) :
    firstMatch data (pathOf k) = none ∨ firstMatch data (pathOf k) = some .stINCLUDE := by
  cases hmatch : firstMatch data (pathOf k) with
  | none => exact Or.inl rfl
  | some type =>
    simp only [Included, verdict, hmatch, Option.getD_some] at h
    rw [h]
    exact Or.inr rfl

omit [DecidableEq E] in
theorem Consistent.closed (h : Consistent data tree fs) :
    Closed data fs (tree.entries []) := by
  intro e he hcopied
  rcases h.parents e he with hparent | hexcluded | ⟨hsock, -⟩
  · exact hparent
  · exact absurd hcopied.1 hexcluded
  · rw [hcopied.2] at hsock
    cases hsock

omit [DecidableEq E] in
/-- What is above a selected entry is copied. -/
theorem Consistent.copied_above (h : Consistent data tree fs) (hs : Source fs tree)
    {e e' : List FileName × Nat} (he : e ∈ tree.entries []) (he' : e' ∈ tree.entries [])
    (hbelow : e.1 <+: e'.1) (hne : e.1 ≠ e'.1) (hselected : Selected data e'.1) :
    Copied data fs e := by
  have hnil : e.1 ≠ [] := Dir.entries_ne_nil he
  have hsock := not_isSock_of_isDir (Dir.isDir_of_prefix hs.valid he he' hbelow hne)
  refine ⟨?_, hsock⟩
  obtain ⟨k', i'⟩ := e'
  have hk' : k' ≠ [] := Dir.entries_ne_nil he'
  obtain ⟨k, name, rfl⟩ : ∃ k name, k' = k ++ [name] :=
    ⟨_, _, (List.dropLast_concat_getLast hk').symm⟩
  have hup : e.1 <+: k := (List.prefix_concat_iff.1 hbelow).resolve_left hne
  have hk : k ≠ [] := by
    rintro rfl
    exact hnil (List.prefix_nil.1 hup)
  have hparent : Included data k := by
    rcases h.parents _ he' with hparent | hexcluded | ⟨-, hnone⟩
    · simpa [ParentIncluded, hk] using hparent
    · exact absurd hselected.included hexcluded
    · rcases hselected with hmatch | ⟨-, hups⟩
      · simp only at hmatch hnone
        rw [hnone] at hmatch
        cases hmatch
      · exact hups k (List.prefix_append k [name]) (by simp)
  rcases Dir.entries_parent hs.valid he' with hstart | ⟨j, hj, hdir⟩
  · simp only [List.dropLast_concat] at hstart
    exact absurd hstart hk
  · simp only [List.dropLast_concat] at hj
    exact included_above hs h.closed hj ⟨hparent, not_isSock_of_isDir hdir⟩ hup hnil

omit [DecidableEq E] in
/-- **Wanted is what is copied.** -/
theorem Consistent.wanted_iff (h : Consistent data tree fs) (hs : Source fs tree)
    {e : List FileName × Nat} (he : e ∈ tree.entries []) :
    Wanted fs data tree e ↔ Copied data fs e := by
  constructor
  · rintro (⟨hselected, hsock⟩ | ⟨e', he', hbelow, hne, hselected⟩)
    · exact ⟨hselected.included, hsock⟩
    · exact h.copied_above hs he he' hbelow hne hselected
  · intro hcopied
    rcases firstMatch_of_included hcopied.1 with hnone | hmatch
    · rcases h.start with hstart | hstart
      · refine Or.inl ⟨Or.inr ⟨hnone, fun up hup _ => ?_⟩, hcopied.2⟩
        by_cases hnil : up = []
        · rw [hnil]
          exact hstart
        · exact included_above hs h.closed he hcopied hup hnil
      · rcases hstart e he with hmatch | hsock | ⟨e', he', hbelow, hne, hmatch⟩
        · exact absurd hnone hmatch
        · rw [hcopied.2] at hsock
          cases hsock
        · exact Or.inr ⟨e', he', hbelow, hne, Or.inl hmatch⟩
    · exact Or.inl ⟨Or.inl hmatch, hcopied.2⟩

theorem exact_of_consistent (hw : w.Works) (hs : Source fs tree) (hd : EmptyDir fs dst)
    (root : Text) (h : Consistent data tree fs) :
    Exact data tree dst fs (vclone w root data tree dst fs) := by
  have hwrote := vclone_wrote hw hs hd root h.closed
  refine ⟨(vclone_success hw hs hd root).2 h.closed, fun e he hwanted => ?_, fun x hx => ?_⟩
  · exact hwrote.copied e he ((h.wanted_iff hs he).1 hwanted)
  · exact hwrote.kept x fun e he hcopied => hx e he ((h.wanted_iff hs he).2 hcopied)

/-- In an exact copy, what an item includes has its directory. -/
theorem parents_of_exact (hw : w.Works) (hs : Source fs tree) (hd : EmptyDir fs dst)
    (root : Text) (h : Exact data tree dst fs (vclone w root data tree dst fs))
    {e : List FileName × Nat} (he : e ∈ tree.entries [])
    (hmatch : firstMatch data (pathOf e.1) = some .stINCLUDE) : ParentIncluded data e.1 := by
  have hwrote := vclone_wrote hw hs hd root ((vclone_success hw hs hd root).1 h.success)
  by_contra hparent
  simp only [ParentIncluded, not_or] at hparent
  obtain ⟨j, hj, -⟩ := (Dir.entries_parent hs.valid he).resolve_left hparent.1
  have hlen : e.1.dropLast ≠ e.1 := by
    intro heq
    have hlen := congrArg List.length heq
    rw [List.length_dropLast] at hlen
    have hpos := List.length_pos_iff.2 (Dir.entries_ne_nil he)
    omega
  obtain ⟨i, hi, -⟩ :=
    h.present _ hj (Or.inr ⟨e, he, List.dropLast_prefix _, hlen, Or.inl hmatch⟩)
  have hplain := Dir.entries_plain plain_nil hj
  have hnone : (vclone w root data tree dst fs).2.names (place fs dst e.1.dropLast) = none := by
    rw [hwrote.kept _ fun e' he' hcopied heq => ?_]
    · exact hd.empty _ hplain (Dir.entries_ne_nil hj)
    · have hkey : e.1.dropLast = e'.1 :=
        hd.inj _ _ hplain (Dir.entries_plain plain_nil he') heq
      exact hparent.2 (hkey ▸ hcopied.1)
  rw [hnone] at hi
  cases hi

theorem consistent_of_exact (hw : w.Works) (hs : Source fs tree) (hd : EmptyDir fs dst)
    (root : Text) (h : Exact data tree dst fs (vclone w root data tree dst fs)) :
    Consistent data tree fs := by
  have hclosed := (vclone_success hw hs hd root).1 h.success
  have hwrote := vclone_wrote hw hs hd root hclosed
  refine ⟨fun e he => ?_, ?_⟩
  · by_cases hincl : Included data e.1
    · cases hsock : isSock fs e.2 with
      | false => exact Or.inl (hclosed e he ⟨hincl, hsock⟩)
      | true =>
        rcases firstMatch_of_included hincl with hnone | hmatch
        · exact Or.inr (Or.inr ⟨rfl, hnone⟩)
        · exact Or.inl (parents_of_exact hw hs hd root h he hmatch)
    · exact Or.inr (Or.inl hincl)
  · by_contra hneither
    simp only [not_or, not_forall] at hneither
    obtain ⟨hstart, e, he, hnone, hsock, hbelow⟩ := hneither
    rw [not_not] at hnone
    have hplain := Dir.entries_plain plain_nil he
    obtain ⟨j, hj, -⟩ :=
      hwrote.copied e he ⟨included_of_none hnone, by simpa using hsock⟩
    -- without an item and without the start nothing can select the entry
    have hselected : ∀ k, Selected data k → k ≠ [] →
        firstMatch data (pathOf k) = some .stINCLUDE := by
      rintro k (hmatch | ⟨-, hups⟩) hk
      · exact hmatch
      · exact absurd (hups [] (List.nil_prefix) hk.symm) hstart
    have hfree : (vclone w root data tree dst fs).2.names (place fs dst e.1) = none := by
      rw [h.only _ fun e' he' hwanted heq => ?_]
      · exact hd.empty _ hplain (Dir.entries_ne_nil he)
      · have hkey := hd.inj _ _ hplain (Dir.entries_plain plain_nil he') heq
        rcases hwanted with ⟨hsel, -⟩ | ⟨e'', he'', habove, hne, hsel⟩
        · have hmatch := hselected _ hsel (Dir.entries_ne_nil he')
          rw [← hkey, hnone] at hmatch
          cases hmatch
        · refine hbelow ⟨e'', he'', ?_, ?_, hselected _ hsel (Dir.entries_ne_nil he'')⟩
          · rw [hkey]
            exact habove
          · rw [hkey]
            exact hne
    rw [hfree] at hj
    cases hj

/-! ## Resolved paths -/

theorem place_components {fs : FS (List Text)} (h : fs.entry = components) (dst : Text)
    (k : List FileName) : place fs dst k = components dst ++ k.map FileName.text := by
  rw [place, h, components_append, components_pathOf]

/-- Where the entry of a path is the list of its names, an empty directory is one. -/
theorem EmptyDir.of_components {fs : FS (List Text)} {dst : Text} (hentry : fs.entry = components)
    (hdirOf : fs.dirOf = List.dropLast) (habsolute : dst.head? = some '/')
    (hisDir : (fs.names (components dst)).any fs.isDir = true)
    (hempty : ∀ t, t ≠ [] → fs.names (components dst ++ t) = none) : EmptyDir fs dst where
  absolute := habsolute
  isDir := by
    rw [place_components hentry]
    simpa using hisDir
  empty k _ hk := by
    rw [place_components hentry]
    exact hempty _ (by simpa using hk)
  dirOf k name _ := by
    rw [place_components hentry, place_components hentry, hdirOf, List.map_append,
      ← List.append_assoc]
    exact List.dropLast_concat
  inj k k' _ _ h := by
    rw [place_components hentry, place_components hentry] at h
    have htext : ∀ name name' : FileName, name.text = name'.text → name = name' := by
      rintro ⟨text, _⟩ ⟨text', _⟩ heq
      cases heq
      rfl
    exact (List.map_inj_right htext).1 (List.append_cancel_left h)

/-- Where everything works. -/
def working : World where
  lstat _ := true
  getIattr _ := true
  link _ := true
  mkdir := ⟨fun _ => true, ⟨0, 0, 0, 0⟩⟩
  copy :=
    { readlink := true, symlink := true, openSrc := true, openDst := true, fstat := true,
      lseek := true, ftruncate := true, block := fun _ => .copied, closeOut := true,
      closeIn := true, mkdir := true, mknod := true, lchown := true, chmod := true, utime := true,
      creator := ⟨0, 0, 0, 0⟩ }

theorem working_works : working.Works :=
  ⟨fun _ => rfl, fun _ => rfl, fun _ => rfl,
    ⟨rfl, rfl, rfl, rfl, rfl, rfl, rfl, fun _ => rfl, rfl, rfl, rfl, rfl, rfl, rfl, rfl⟩⟩

/-- The empty directory `/d`, and two inodes: the directory 1 and the file 2. -/
def sample : FS (List Text) where
  entry := components
  dirOf := List.dropLast
  names e := if e = ["d".toList] then some 0 else none
  inode i :=
    if i = 2 then Creator.file ⟨0, 0, 0, 0⟩ 0o644
    else { Creator.file ⟨0, 0, 0, 0⟩ 0 with mode := ⟨.dir, 0o755⟩ }
  next := 3
  named e i h := by
    split at h
    · cases h
      decide
    · cases h

def bin : FileName := ⟨"bin".toList, by decide⟩
def x : FileName := ⟨"x".toList, by decide⟩

/-- The file `/bin/x`. -/
def sampleTree : Dir Nat := .entry bin 1 (.entry x 2 .nil .nil) .nil

theorem sampleTree_entries : sampleTree.entries [] = [([bin], 1), ([bin, x], 2)] := rfl

theorem sample_source : Source sample sampleTree := by
  refine ⟨?_, ?_⟩
  · simp [sampleTree, Dir.Valid, Dir.names, FS.isDir, sample]
  · simp [sampleTree_entries, sample]

theorem sample_emptyDir : EmptyDir sample "/d".toList := by
  have hd : components "/d".toList = ["d".toList] := by decide
  refine EmptyDir.of_components rfl rfl rfl ?_ fun t ht => ?_
  · rw [hd]
    rfl
  · rw [hd]
    simp [sample, ht]

theorem pathOf_bin : pathOf [bin] = "/bin".toList := by
  show PathInfo.append rootPath bin.text = "/bin".toList
  rw [append_name, stem, dropSlashes_eq (by decide)]
  decide

theorem pathOf_bin_x : pathOf [bin, x] = "/bin/x".toList := by
  show PathInfo.append (pathOf [bin]) x.text = "/bin/x".toList
  rw [pathOf_bin, append_name, stem, dropSlashes_eq (by decide)]
  decide

/-- **`vclone` makes an exact copy if and only if the list is consistent with the tree.** -/
theorem vclone_exact_iff (w : World) (root : Text) (data : List MatchItem) (tree : Dir Nat)
    (dst : Text) (fs : FS E) (hw : w.Works) (hs : Source fs tree) (hd : EmptyDir fs dst) :
    Exact data tree dst fs (vclone w root data tree dst fs) ↔ Consistent data tree fs :=
  ⟨consistent_of_exact hw hs hd root, exact_of_consistent hw hs hd root⟩

/-- With the file excluded, the directory alone is copied. -/
theorem vclone_exact_excludedFile :
    Exact [⟨.stEXCLUDE, "/bin/x".toList, none⟩] sampleTree "/d".toList sample
      (vclone working "/s".toList [⟨.stEXCLUDE, "/bin/x".toList, none⟩] sampleTree "/d".toList
        sample) := by
  refine (vclone_exact_iff working "/s".toList _ sampleTree "/d".toList sample working_works
    sample_source sample_emptyDir).2 ⟨?_, Or.inl (by decide)⟩
  rw [sampleTree_entries]
  intro e he
  simp only [List.mem_cons, List.not_mem_nil, or_false] at he
  rcases he with rfl | rfl
  · exact Or.inl (Or.inl rfl)
  · refine Or.inl (Or.inr ?_)
    show verdict _ (pathOf [bin]) = .stINCLUDE
    rw [pathOf_bin]
    decide

/-- With the directory excluded, the copy fails at the file in it. -/
theorem vclone_excludedDir :
    working.Works ∧ Source sample sampleTree ∧ EmptyDir sample "/d".toList ∧
      ¬ Exact [⟨.stEXCLUDE, "/bin".toList, none⟩] sampleTree "/d".toList sample
        (vclone working "/s".toList [⟨.stEXCLUDE, "/bin".toList, none⟩] sampleTree "/d".toList
          sample) := by
  refine ⟨working_works, sample_source, sample_emptyDir, fun h => ?_⟩
  have hcons := consistent_of_exact working_works sample_source sample_emptyDir "/s".toList h
  have hmem : ([bin, x], 2) ∈ sampleTree.entries [] := by simp [sampleTree_entries]
  rcases hcons.parents _ hmem with (hnil | hincl) | hexcl | ⟨hsock, -⟩
  · cases hnil
  · have hincl : verdict _ (pathOf [bin]) = .stINCLUDE := hincl
    rw [pathOf_bin] at hincl
    revert hincl
    decide
  · refine hexcl ?_
    show verdict _ (pathOf [bin, x]) = .stINCLUDE
    rw [pathOf_bin_x]
    decide
  · revert hsock
    decide

end Vclone
