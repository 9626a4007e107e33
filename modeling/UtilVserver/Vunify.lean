import UtilVserver.MatchList
import UtilVserver.Unify

/-!
# `vunify`

The walk through a guest that links its files to those of the reference guests.

* `checkFstat`, `checkDirEntry` — which reference a path is unified with.
* `updateSkipDepth` — the counters of the directories that a reference does not have.
* `visitDirEntry`, `visitDir`, `vunify` — the walk, with a log of what it does.
* `Safe` — a reference that a path may be unified with.

The trees do not change during the walk; what `lstat` gives below a root is a parameter.

Principal results: `unify_safe` and `skipDepth_invariant`.
-/

set_option autoImplicit false

namespace Vunify

open CString FileSystem PathInfo MatchLists
open Unify (isUnified isUnifyable isUnifyable_iff)

structure Args where
  doRevert : Bool
  doDryRun : Bool

/-- What the walk asks the system. -/
structure World where
  lstat : Text → Option Stat
  /-- What is in a directory cannot be there without it. -/
  closed : ∀ (root dir : Text) (name : FileName),
    (lstat (PathInfo.append root (PathInfo.append dir name.text))).isSome →
      (lstat (PathInfo.append root dir)).isSome
  /-- `Unify_unify` for a destination. -/
  unifies : Text → Bool
  /-- `Unify_deUnify`. -/
  deUnifies : Text → Bool

/-- What is written down about the walk. -/
inductive Event where
  /-- An entry of the directory is about to be visited; the counters of all references. -/
  | visiting (dir : Text) (depths : List Nat)
  /-- The result of `updateSkipDepth(path, true)` for a directory that matched a reference. -/
  | descended (path : Text) (result : Bool)
  /-- A directory has been visited; the counters before and afterwards. -/
  | left (path : Text) (before after : List Nat)
  /-- `Unify_unify(src, dst)` for the reference with this index. -/
  | unify (index : Nat) (src dst : Text)
  | deUnify (dst : Text)

structure State where
  lists : List MatchList
  log : List Event
  /-- The files that could not be handled. -/
  res : Nat

def State.depths (s : State) : List Nat := s.lists.map MatchList.skipDepth

def State.note (s : State) (e : Event) : State := { s with log := s.log ++ [e] }

/-! ## The decision about one path -/

inductive Check where
  | same (src : Stat)
  | noexists
  | different (src : Stat)

/-- `checkFstat`, with the attributes of the destination. -/
def checkFstat (a : Args) (w : World) (mlist : MatchList) (path : Text) (dst : Stat) : Check :=
  match w.lstat (PathInfo.append mlist.root path) with
  | none => .noexists
  | some src =>
    if dst.mode.kind = .dir ∧ src.mode.kind = .dir then .same src
    else if (!a.doRevert && !isUnifyable false dst src) || (a.doRevert && !isUnified dst src) then
      .different src
    else .same src

/-- The loop of `checkDirEntry` over the references. -/
def searchLists (a : Args) (w : World) (path : Text) (dst : Stat) :
    List MatchList → Nat → Option (Nat × MatchList)
  | [], _ => none
  | mlist :: rest, i =>
    if MatchLists.compare mlist path = .stINCLUDE then
      match checkFstat a w mlist path dst with
      | .same _ =>
        if dst.mode.kind = .lnk then none
        else if dst.mode.kind ≠ .reg ∧ dst.mode.kind ≠ .dir then none
        else some (i, mlist)
      | .noexists => searchLists a w path dst rest (i + 1)
      | .different src =>
        if !a.doRevert && isUnified dst src then none
        else searchLists a w path dst rest (i + 1)
    else searchLists a w path dst rest (i + 1)

/-- `checkDirEntry`. -/
def checkDirEntry (a : Args) (w : World) (dstList : MatchList) (lists : List MatchList)
    (path : Text) (dst : Stat) : Option (Nat × MatchList) :=
  if MatchLists.compare dstList path ≠ .stINCLUDE then none
  else searchLists a w path dst lists 0

/-! ## The counters -/

/-- `updateSkipDepth(path, true)` for one list. -/
def walkDown (w : World) (path : Text) (mlist : MatchList) : Bool × MatchList :=
  if 0 < mlist.skipDepth then (false, { mlist with skipDepth := mlist.skipDepth + 1 })
  else if (w.lstat (PathInfo.append mlist.root path)).isSome then (true, mlist)
  else (false, { mlist with skipDepth := mlist.skipDepth + 1 })

/-- `updateSkipDepth(path, false)` for one list. -/
def walkUp (mlist : MatchList) : MatchList :=
  if 0 < mlist.skipDepth then { mlist with skipDepth := mlist.skipDepth - 1 } else mlist

def updateSkipDepth (w : World) (path : Text) (down : Bool) (lists : List MatchList) :
    Bool × List MatchList :=
  if down then
    (lists.any fun m => (walkDown w path m).1, lists.map fun m => (walkDown w path m).2)
  else (false, lists.map walkUp)

/-! ## The walk -/

/-- `doit`: the result, and what is done. -/
def doit (a : Args) (w : World) (i : Nat) (mlist : MatchList) (path : Text) (s : State) :
    Bool × State :=
  if a.doDryRun then (true, s)
  else if !a.doRevert then
    (w.unifies path, s.note (.unify i (PathInfo.append mlist.root path) path))
  else (w.deUnifies path, s.note (.deUnify path))

/-- `visitDirEntry`; `visitSub` is `visitDir` for the entry. -/
def visitDirEntry (a : Args) (w : World) (dstList : MatchList) (visitSub : Text → State → State)
    (dir : Text) (name : FileName) (dst : Stat) (s : State) : State :=
  let path := PathInfo.append dir name.text
  if isDotfile name.text then s
  else
    match checkDirEntry a w dstList s.lists path dst with
    | none => s
    | some (i, mlist) =>
      if dst.mode.kind = .dir then
        let r := updateSkipDepth w path true s.lists
        let s₁ := { s with lists := r.2 }.note (.descended path r.1)
        if r.1 then
          let s₂ := visitSub path s₁
          let s₃ := { s₂ with lists := (updateSkipDepth w path false s₂.lists).2 }
          s₃.note (.left path s.depths s₃.depths)
        else s₁
      else
        match doit a w i mlist path s with
        | (true, s) => s
        | (false, s) => { s with res := s.res + 1 }

/-- `visitDir`. -/
def visitDir (a : Args) (w : World) (dstList : MatchList) : Dir Stat → Text → State → State
  | .nil, _, s => s
  | .entry name dst sub rest, dir, s =>
    visitDir a w dstList rest dir
      (visitDirEntry a w dstList (visitDir a w dstList sub) dir name dst
        (s.note (.visiting dir s.depths)))

/-- A guest with its exclude list. -/
structure Guest where
  root : Text
  items : List MatchItem

/-- The path of the start, `PathInfo_append("", "/")`. -/
def rootPath : Text := "/".toList

/-- `main`, behind the reading of the lists. -/
def vunify (a : Args) (w : World) (dst : Guest) (refs : List Guest) (tree : Dir Stat) : State :=
  visitDir a w (MatchLists.init dst.root dst.items) tree rootPath
    ⟨refs.map fun r => MatchLists.init r.root r.items, [], 0⟩

/-! ## Missing directories -/

/-- Below the root, the directory or one above it is missing in the reference. -/
def Missing (w : World) (root dir : Text) : Prop :=
  dir ≠ rootPath ∧ ∃ up, Reaches up dir ∧ w.lstat (PathInfo.append root up) = none

/-- Nothing is below what is missing. -/
theorem lstat_none_of_reaches {w : World} {root up path : Text} (h : Reaches up path)
    (hup : w.lstat (PathInfo.append root up) = none) :
    w.lstat (PathInfo.append root path) = none := by
  induction h with
  | refl => exact hup
  | step name _ ih =>
    rename_i dir _
    cases hpath : w.lstat (PathInfo.append root (PathInfo.append dir name.text)) with
    | none => rfl
    | some st =>
      have hdir := w.closed root dir name (by rw [hpath]; rfl)
      rw [ih] at hdir
      cases hdir

theorem missing_append {w : World} {root dir : Text} {name : FileName} :
    Missing w root (PathInfo.append dir name.text) ↔
      w.lstat (PathInfo.append root (PathInfo.append dir name.text)) = none := by
  constructor
  · rintro ⟨-, up, hup, hnone⟩
    exact lstat_none_of_reaches hup hnone
  · intro hnone
    exact ⟨append_ne_root dir name, _, Reaches.refl, hnone⟩

theorem not_missing_root (w : World) (root : Text) : ¬ Missing w root rootPath :=
  fun h => h.1 rfl

/-- What is missing stays missing further down. -/
theorem Missing.append {w : World} {root dir : Text} (h : Missing w root dir) (name : FileName) :
    Missing w root (PathInfo.append dir name.text) := by
  obtain ⟨-, up, hup, hnone⟩ := h
  exact ⟨append_ne_root dir name, up, Reaches.step name hup, hnone⟩

/-- **The invariant**: the counters that are positive belong to the references without `dir`. -/
def Counts (w : World) (dir : Text) (lists : List MatchList) : Prop :=
  ∀ m ∈ lists, 0 < m.skipDepth ↔ Missing w m.root dir

/-- A reference that has the path is not skipped. -/
theorem Counts.zero {w : World} {dir : Text} {name : FileName} {lists : List MatchList}
    (h : Counts w dir lists) {m : MatchList} (hm : m ∈ lists)
    (hpath : (w.lstat (PathInfo.append m.root (PathInfo.append dir name.text))).isSome) :
    m.skipDepth = 0 := by
  by_contra hpos
  have hmissing := missing_append.1 (((h m hm).1 (by omega)).append name)
  rw [hmissing] at hpath
  cases hpath

theorem walkDown_counts {w : World} {dir : Text} {name : FileName} {lists : List MatchList}
    (h : Counts w dir lists) :
    Counts w (PathInfo.append dir name.text)
      (updateSkipDepth w (PathInfo.append dir name.text) true lists).2 := by
  intro m hm
  simp only [updateSkipDepth, if_true, List.mem_map] at hm
  obtain ⟨m₀, hm₀, rfl⟩ := hm
  unfold walkDown
  split
  · rename_i hpos
    exact ⟨fun _ => ((h m₀ hm₀).1 hpos).append name, fun _ => Nat.succ_pos _⟩
  · rename_i hzero
    split
    · rename_i hsome
      refine ⟨fun hpos => absurd hpos hzero, fun hmissing => ?_⟩
      have hmissing : Missing w m₀.root _ := hmissing
      rw [missing_append.1 hmissing] at hsome
      cases hsome
    · rename_i hnone
      refine ⟨fun _ => missing_append.2 ?_, fun _ => Nat.succ_pos _⟩
      simpa using hnone

/-- **Down and up again** leaves the counters as they were. -/
theorem walkUp_walkDown {w : World} (path : Text) (lists : List MatchList) :
    (updateSkipDepth w path false (updateSkipDepth w path true lists).2).2 = lists := by
  simp only [updateSkipDepth, if_true, Bool.false_eq_true, if_false, List.map_map]
  refine List.map_id'' (fun m => ?_) lists
  simp only [Function.comp, walkDown]
  split
  · simp [walkUp]
  · rename_i hzero
    split
    · simp [walkUp, hzero]
    · simp [walkUp]

/-! ## The choice of the reference -/

/-- The file at the path may be linked to the one of the reference. -/
structure Safe (w : World) (ref : Guest) (path : Text) (dst : Stat) : Prop where
  included : verdict ref.items path = .stINCLUDE
  exists_ : ∃ src, w.lstat (PathInfo.append ref.root path) = some src ∧
    dst.mode.kind = .reg ∧ src.mode.kind = .reg ∧ dst.dev = src.dev ∧ dst.ino ≠ src.ino ∧
    dst.mode = src.mode ∧ dst.uid = src.uid ∧ dst.gid = src.gid ∧ dst.size = src.size ∧
    dst.mtime = src.mtime
  /-- No directory above the path is missing. -/
  ancestors : ∀ up, Reaches up path → (w.lstat (PathInfo.append ref.root up)).isSome

/-- What the loop of `checkDirEntry` stops at. -/
def Matches (a : Args) (w : World) (path : Text) (dst : Stat) (mlist : MatchList) : Prop :=
  MatchLists.compare mlist path = .stINCLUDE ∧ ∃ src, checkFstat a w mlist path dst = .same src

/-- **The first reference that matches is chosen.** -/
theorem searchLists_spec {a : Args} {w : World} {path : Text} {dst : Stat}
    {lists : List MatchList} {i k : Nat} {mlist : MatchList}
    (h : searchLists a w path dst lists i = some (k, mlist)) :
    ∃ j, k = i + j ∧ lists[j]? = some mlist ∧ Matches a w path dst mlist ∧
      (dst.mode.kind = .reg ∨ dst.mode.kind = .dir) ∧
      ∀ j' < j, ∀ m, lists[j']? = some m → ¬ Matches a w path dst m := by
  induction lists generalizing i with
  | nil => cases h
  | cons m rest ih =>
    -- the search goes on behind a list that does not match
    have hnext : ¬ Matches a w path dst m →
        searchLists a w path dst rest (i + 1) = some (k, mlist) →
        ∃ j, k = i + j ∧ (m :: rest)[j]? = some mlist ∧ Matches a w path dst mlist ∧
          (dst.mode.kind = .reg ∨ dst.mode.kind = .dir) ∧
          ∀ j' < j, ∀ m', (m :: rest)[j']? = some m' → ¬ Matches a w path dst m' := by
      intro hno hrest
      obtain ⟨j, hk, hj, hmatch, hkind, hfirst⟩ := ih hrest
      refine ⟨j + 1, by omega, hj, hmatch, hkind, fun j' hj' m' hm' => ?_⟩
      cases j' with
      | zero =>
        cases hm'
        exact hno
      | succ j' => exact hfirst j' (by omega) m' hm'
    unfold searchLists at h
    split at h
    · rename_i hincluded
      split at h
      · rename_i src hsame
        split at h
        · cases h
        · split at h
          · cases h
          · rename_i hkind
            cases h
            refine ⟨0, rfl, rfl, ⟨hincluded, src, hsame⟩, ?_, fun j' hj' => by omega⟩
            by_contra hneither
            exact hkind (not_or.1 hneither)
      · rename_i hnoexists
        refine hnext ?_ h
        rintro ⟨-, src, hsame⟩
        rw [hnoexists] at hsame
        cases hsame
      · rename_i src hdifferent
        split at h
        · cases h
        · refine hnext ?_ h
          rintro ⟨-, src', hsame⟩
          rw [hdifferent] at hsame
          cases hsame
    · rename_i hexcluded
      exact hnext (fun hmatch => hexcluded hmatch.1) h

/-- The same guests, whatever the counters are. -/
def SameLists (refs : List Guest) (lists : List MatchList) : Prop :=
  lists.map (fun m => (⟨m.root, m.data⟩ : Guest)) = refs

theorem SameLists.get {refs : List Guest} {lists : List MatchList} (h : SameLists refs lists)
    {j : Nat} {r : Guest} (hr : refs[j]? = some r) :
    ∃ m ∈ lists, lists[j]? = some m ∧ r = ⟨m.root, m.data⟩ := by
  rw [← h, List.getElem?_map, Option.map_eq_some_iff] at hr
  obtain ⟨m, hm, rfl⟩ := hr
  exact ⟨m, List.mem_of_getElem? hm, hm, rfl⟩

/-- A reference that matches has the path. -/
theorem Matches.isSome {a : Args} {w : World} {path : Text} {dst : Stat} {m : MatchList}
    (h : Matches a w path dst m) : (w.lstat (PathInfo.append m.root path)).isSome := by
  obtain ⟨-, src, hsame⟩ := h
  unfold checkFstat at hsame
  split at hsame
  · cases hsame
  · rename_i st hst
    rw [hst]
    rfl

/-- For a file and without `-R`, a match is a reference that is safe. -/
theorem safe_of_matches {a : Args} {w : World} {dir : Text} {name : FileName} {dst : Stat}
    {lists : List MatchList} {m : MatchList} (hrevert : a.doRevert = false)
    (hcounts : Counts w dir lists) (hm : m ∈ lists) (hreg : dst.mode.kind = .reg)
    (h : Matches a w (PathInfo.append dir name.text) dst m) :
    Safe w ⟨m.root, m.data⟩ (PathInfo.append dir name.text) dst := by
  have hsome := h.isSome
  have hzero := hcounts.zero hm hsome
  refine ⟨?_, ?_, fun up hup => ?_⟩
  · rw [← h.1, compare_of_not_skipping hzero]
  · obtain ⟨-, src', hsame⟩ := h
    unfold checkFstat at hsame
    split at hsame
    · cases hsame
    · rename_i src hsrc
      rw [if_neg (by simp [hreg]), hrevert] at hsame
      split at hsame
      · cases hsame
      · rename_i hsafe
        have hsafe : isUnifyable false dst src = true := by simpa using hsafe
        obtain ⟨hdev, hino, hmode, huid, hgid, hsize, hmtime⟩ := isUnifyable_iff.1 hsafe
        exact ⟨src, hsrc, hreg, by rw [← hmode, hreg], hdev, hino, hmode, huid, hgid, hsize,
          hmtime rfl⟩
  · cases hnone : w.lstat (PathInfo.append m.root up) with
    | some st => rfl
    | none =>
      rw [lstat_none_of_reaches hup hnone] at hsome
      cases hsome

/-- And a reference that is safe is a match. -/
theorem matches_of_safe {a : Args} {w : World} {dir : Text} {name : FileName} {dst : Stat}
    {lists : List MatchList} {m : MatchList} (hrevert : a.doRevert = false)
    (hcounts : Counts w dir lists) (hm : m ∈ lists)
    (h : Safe w ⟨m.root, m.data⟩ (PathInfo.append dir name.text) dst) :
    Matches a w (PathInfo.append dir name.text) dst m := by
  obtain ⟨src, hsrc, hreg, hsrcreg, hdev, hino, hmode, huid, hgid, hsize, hmtime⟩ := h.exists_
  have hsrc : w.lstat (PathInfo.append m.root (PathInfo.append dir name.text)) = some src := hsrc
  have hzero := hcounts.zero hm (by rw [hsrc]; rfl)
  refine ⟨?_, src, ?_⟩
  · rw [compare_of_not_skipping hzero]
    exact h.included
  · have hsafe : isUnifyable false dst src = true :=
      isUnifyable_iff.2 ⟨hdev, hino, hmode, huid, hgid, hsize, fun _ => hmtime⟩
    simp [checkFstat, hsrc, hreg, hrevert, hsafe]

/-! ## The walk -/

section Walk

variable (a : Args) (w : World) (dst : Guest) (refs : List Guest) (all : List (Text × Stat))

/-- What may stand in the log. -/
def EventOk : Event → Prop
  | .visiting dir depths =>
    depths.length = refs.length ∧
      ∀ (i : Nat) (r : Guest) (d : Nat), refs[i]? = some r → depths[i]? = some d →
        (0 < d ↔ Missing w r.root dir)
  | .descended _ result => result = true
  | .left _ before after => after = before
  | .unify i src path =>
    a.doRevert = false ∧ a.doDryRun = false ∧ verdict dst.items path = .stINCLUDE ∧
      ∃ st r, (path, st) ∈ all ∧ refs[i]? = some r ∧ src = PathInfo.append r.root path ∧
        Safe w r path st ∧ ∀ (j : Nat), j < i → ∀ r', refs[j]? = some r' → ¬ Safe w r' path st
  | .deUnify _ => a.doRevert = true

/-- The invariant of the walk in the directory `dir`. -/
structure Inv (dir : Text) (s : State) : Prop where
  lists : SameLists refs s.lists
  counts : Counts w dir s.lists
  log : ∀ e ∈ s.log, EventOk a w dst refs all e

variable {a w dst refs all}

theorem Inv.note {dir : Text} {s : State} (h : Inv a w dst refs all dir s) {e : Event}
    (he : EventOk a w dst refs all e) : Inv a w dst refs all dir (s.note e) := by
  refine ⟨h.lists, h.counts, fun e' he' => ?_⟩
  obtain he' | he' := List.mem_append.1 he'
  · exact h.log e' he'
  · rw [List.mem_singleton.1 he']
    exact he

/-- The lists of another directory. -/
theorem Inv.move {dir dir' : Text} {s : State} {lists : List MatchList}
    (h : Inv a w dst refs all dir s) (hlists : SameLists refs lists)
    (hcounts : Counts w dir' lists) : Inv a w dst refs all dir' { s with lists := lists } :=
  ⟨hlists, hcounts, h.log⟩

theorem Inv.visiting {dir : Text} {s : State} (h : Inv a w dst refs all dir s) :
    EventOk a w dst refs all (.visiting dir s.depths) := by
  unfold EventOk
  constructor
  · rw [← h.lists]
    simp [State.depths]
  · intro i r d hr hd
    obtain ⟨m, hm, hget, rfl⟩ := h.lists.get hr
    rw [State.depths, List.getElem?_map, hget] at hd
    cases hd
    exact h.counts m hm

theorem doit_inv {dir : Text} {name : FileName} {st : Stat} {s : State} {k : Nat} {m : MatchList}
    (h : Inv a w dst refs all dir s) (hall : (PathInfo.append dir name.text, st) ∈ all)
    (hdst : verdict dst.items (PathInfo.append dir name.text) = .stINCLUDE)
    (hsearch : searchLists a w (PathInfo.append dir name.text) st s.lists 0 = some (k, m))
    (hfile : st.mode.kind ≠ .dir) :
    Inv a w dst refs all dir (doit a w k m (PathInfo.append dir name.text) s).2 ∧
      (doit a w k m (PathInfo.append dir name.text) s).2.lists = s.lists := by
  obtain ⟨j, hk, hj, hmatch, hkind, hfirst⟩ := searchLists_spec hsearch
  obtain rfl : j = k := by omega
  have hm := List.mem_of_getElem? hj
  unfold doit
  split
  · exact ⟨h, rfl⟩
  rename_i hdry
  split
  · rename_i hrevert
    have hrevert : a.doRevert = false := by simpa using hrevert
    have hreg : st.mode.kind = .reg := hkind.resolve_right hfile
    have href : refs[j]? = some ⟨m.root, m.data⟩ := by
      rw [← h.lists, List.getElem?_map, hj]
      rfl
    refine ⟨h.note ⟨hrevert, by simpa using hdry, hdst, st, ⟨m.root, m.data⟩, hall, href, rfl,
      safe_of_matches hrevert h.counts hm hreg hmatch, ?_⟩, rfl⟩
    intro i hi r hr hsafe
    obtain ⟨m', hm', hget, rfl⟩ := h.lists.get hr
    exact hfirst i hi m' hget (matches_of_safe hrevert h.counts hm' hsafe)
  · rename_i hrevert
    have hrevert : a.doRevert = true := by simpa using hrevert
    exact ⟨h.note hrevert, rfl⟩

theorem SameLists.update {lists : List MatchList} (h : SameLists refs lists) (path : Text)
    (down : Bool) : SameLists refs (updateSkipDepth w path down lists).2 := by
  unfold SameLists updateSkipDepth at *
  cases down with
  | true =>
    rw [if_pos rfl, ← h, List.map_map]
    refine List.map_congr_left fun m _ => ?_
    simp only [Function.comp, walkDown]
    split
    · rfl
    · split <;> rfl
  | false =>
    rw [if_neg (by decide), ← h, List.map_map]
    refine List.map_congr_left fun m _ => ?_
    simp only [Function.comp, walkUp]
    split <;> rfl

/-- A directory that matched a reference is there in this reference. -/
theorem descends {dir : Text} {name : FileName} {st : Stat} {lists : List MatchList} {k : Nat}
    {m : MatchList} (hcounts : Counts w dir lists)
    (hsearch : searchLists a w (PathInfo.append dir name.text) st lists 0 = some (k, m)) :
    (updateSkipDepth w (PathInfo.append dir name.text) true lists).1 = true := by
  obtain ⟨j, -, hj, hmatch, -, -⟩ := searchLists_spec hsearch
  have hm := List.mem_of_getElem? hj
  have hzero := hcounts.zero hm hmatch.isSome
  simp only [updateSkipDepth, if_true, List.any_eq_true]
  refine ⟨m, hm, ?_⟩
  unfold walkDown
  rw [if_neg (by omega), if_pos hmatch.isSome]

/-- **One entry**, if the walk below it keeps the lists. -/
theorem visitDirEntry_inv (visitSub : Text → State → State) {dir : Text} (name : FileName)
    (st : Stat) {s : State} (h : Inv a w dst refs all dir s)
    (hall : isDotfile name.text = false → (PathInfo.append dir name.text, st) ∈ all)
    (hsub : ∀ s, isDotfile name.text = false →
      Inv a w dst refs all (PathInfo.append dir name.text) s →
      Inv a w dst refs all (PathInfo.append dir name.text)
          (visitSub (PathInfo.append dir name.text) s) ∧
        (visitSub (PathInfo.append dir name.text) s).lists = s.lists) :
    Inv a w dst refs all dir
        (visitDirEntry a w (MatchLists.init dst.root dst.items) visitSub dir name st s) ∧
      (visitDirEntry a w (MatchLists.init dst.root dst.items) visitSub dir name st s).lists =
        s.lists := by
  unfold visitDirEntry
  dsimp only
  split
  · exact ⟨h, rfl⟩
  rename_i hdot
  have hdot : isDotfile name.text = false := by simpa using hdot
  split
  · exact ⟨h, rfl⟩
  rename_i k m hcheck
  have hcheck : verdict dst.items (PathInfo.append dir name.text) = .stINCLUDE ∧
      searchLists a w (PathInfo.append dir name.text) st s.lists 0 = some (k, m) := by
    unfold checkDirEntry at hcheck
    split at hcheck
    · cases hcheck
    · rename_i hincluded
      refine ⟨?_, hcheck⟩
      rw [ne_eq, not_not] at hincluded
      have hzero : (MatchLists.init dst.root dst.items).skipDepth = 0 := rfl
      exact (compare_of_not_skipping hzero _).symm.trans hincluded
  obtain ⟨hdst, hsearch⟩ := hcheck
  split
  · rename_i hdir
    have hdown := descends h.counts hsearch
    have hnoted : Inv a w dst refs all (PathInfo.append dir name.text)
        (State.note { s with lists := (updateSkipDepth w (PathInfo.append dir name.text) true
          s.lists).2 } (.descended (PathInfo.append dir name.text)
            (updateSkipDepth w (PathInfo.append dir name.text) true s.lists).1)) :=
      (h.move (h.lists.update _ true) (walkDown_counts h.counts)).note hdown
    rw [if_pos hdown]
    obtain ⟨hinv, hlists⟩ := hsub _ hdot hnoted
    generalize hs₂ : visitSub (PathInfo.append dir name.text) _ = s₂ at hinv hlists ⊢
    have hback : (updateSkipDepth w (PathInfo.append dir name.text) false s₂.lists).2 =
        s.lists := by
      rw [hlists]
      exact walkUp_walkDown _ s.lists
    rw [hback]
    exact ⟨(hinv.move h.lists h.counts).note rfl, rfl⟩
  · rename_i hfile
    obtain ⟨hinv, hlists⟩ := doit_inv h (hall hdot) hdst hsearch hfile
    split
    · rename_i s₁ hrun
      rw [hrun] at hinv hlists
      exact ⟨hinv, hlists⟩
    · rename_i s₁ hrun
      rw [hrun] at hinv hlists
      exact ⟨⟨hinv.lists, hinv.counts, hinv.log⟩, hlists⟩

/-- **The whole walk below `dir`.** -/
theorem visitDir_inv (sub : Dir Stat) {dir : Text} {s : State} (h : Inv a w dst refs all dir s)
    (hall : ∀ x ∈ sub.paths dir, x ∈ all) :
    Inv a w dst refs all dir (visitDir a w (MatchLists.init dst.root dst.items) sub dir s) ∧
      (visitDir a w (MatchLists.init dst.root dst.items) sub dir s).lists = s.lists := by
  induction sub generalizing dir s with
  | nil => exact ⟨h, rfl⟩
  | entry name st sub rest ihsub ihrest =>
    have hstart : Inv a w dst refs all dir (s.note (.visiting dir s.depths)) := h.note h.visiting
    have hpaths : ∀ x ∈ (Dir.entry name st sub rest).paths dir, x ∈ all := hall
    simp only [Dir.paths, List.mem_append] at hpaths
    have hentry := visitDirEntry_inv (visitDir a w (MatchLists.init dst.root dst.items) sub)
      name st hstart (fun hdot => hpaths _ (Or.inl (by simp [hdot])))
      (fun s hdot hs => ihsub hs fun x hx => hpaths x (Or.inl (by simp [hdot, hx])))
    obtain ⟨hinv, hlists⟩ := hentry
    obtain ⟨hinv', hlists'⟩ := ihrest hinv fun x hx => hpaths x (Or.inr hx)
    exact ⟨hinv', hlists'.trans hlists⟩

end Walk

theorem vunify_inv (a : Args) (w : World) (dst : Guest) (refs : List Guest) (tree : Dir Stat) :
    Inv a w dst refs (tree.paths rootPath) rootPath (vunify a w dst refs tree) := by
  refine (visitDir_inv tree ⟨?_, ?_, fun e he => (by cases he)⟩ fun x hx => hx).1
  · simp [SameLists, Function.comp_def, MatchLists.init]
  · intro m hm
    obtain ⟨r, -, rfl⟩ := List.mem_map.1 hm
    exact ⟨fun hpos => absurd hpos (Nat.lt_irrefl 0), fun h => absurd h (not_missing_root w _)⟩

/-- **Only safe files are linked.**  When `Unify_unify` is called for a path, the destination's list
and the reference's list include it, both are regular files with the same device, mode, owner, size
and time but different inodes, and the reference is the first one that qualifies and has all the
directories above the path. -/
theorem unify_safe {a : Args} {w : World} {dst : Guest} {refs : List Guest} {tree : Dir Stat}
    {i : Nat} {src path : Text} (h : Event.unify i src path ∈ (vunify a w dst refs tree).log) :
    a.doRevert = false ∧ a.doDryRun = false ∧ verdict dst.items path = .stINCLUDE ∧
      ∃ st r, (path, st) ∈ tree.paths rootPath ∧ refs[i]? = some r ∧
        src = PathInfo.append r.root path ∧ Safe w r path st ∧
        ∀ j < i, ∀ r', refs[j]? = some r' → ¬ Safe w r' path st :=
  (vunify_inv a w dst refs tree).log _ h

/-- A file with sixteen bytes. -/
def fileStat (ino : Nat) : Stat :=
  { dev := 0, ino := ino, mode := ⟨.reg, 0o644⟩, uid := 0, gid := 0, rdev := 0, size := 16,
    atime := 0, mtime := 0 }

/-- Every path leads to the file with inode 1. -/
def everywhere : World :=
  ⟨fun _ => some (fileStat 1), fun _ _ _ _ => rfl, fun _ => true, fun _ => true⟩

/-- A guest with the file `a`. -/
def oneFile : Dir Stat := .entry ⟨['a'], rfl⟩ (fileStat 2) .nil .nil

theorem unify_safe_oneFile :
    Safe everywhere ⟨"/r".toList, []⟩ (PathInfo.append rootPath ['a']) (fileStat 2) := by
  have h : Event.unify 0 (PathInfo.append "/r".toList (PathInfo.append rootPath ['a']))
      (PathInfo.append rootPath ['a']) ∈ (vunify ⟨false, false⟩ everywhere ⟨"/g".toList, []⟩
        [⟨"/r".toList, []⟩] oneFile).log := List.mem_cons_of_mem _ (List.mem_singleton_self _)
  obtain ⟨-, -, -, st, r, hst, hr, -, hsafe, -⟩ := unify_safe h
  cases hr
  have hst : (_, st) ∈ [(PathInfo.append rootPath ['a'], fileStat 2)] := hst
  cases List.mem_singleton.1 hst
  exact hsafe

/-- **The counters.**  While the entries of a directory below the root are visited, the counter of a
reference is positive exactly if the reference lacks the directory or one above it; in the root all
counters are zero.  Behind a directory the counters are as before, and a directory that matched some
reference is always descended into. -/
theorem skipDepth_invariant (a : Args) (w : World) (dst : Guest) (refs : List Guest)
    (tree : Dir Stat) :
    (∀ dir depths, Event.visiting dir depths ∈ (vunify a w dst refs tree).log →
      depths.length = refs.length ∧
      ∀ (i : Nat) (r : Guest) (d : Nat), refs[i]? = some r → depths[i]? = some d →
        (0 < d ↔ dir ≠ rootPath ∧
          ∃ up, Reaches up dir ∧ w.lstat (PathInfo.append r.root up) = none)) ∧
    (∀ path before after, Event.left path before after ∈ (vunify a w dst refs tree).log →
      after = before) ∧
    ∀ path result, Event.descended path result ∈ (vunify a w dst refs tree).log →
      result = true := by
  have hlog := (vunify_inv a w dst refs tree).log
  exact ⟨fun _ _ h => hlog _ h, fun _ _ _ h => hlog _ h, fun _ _ h => hlog _ h⟩

/-- Nothing exists. -/
def nowhere : World :=
  ⟨fun _ => none, fun _ _ _ h => h, fun _ => true, fun _ => true⟩

/-- **A reference without a root directory** has the counter zero while the root is visited. -/
theorem skipDepth_without_reference :
    Event.visiting rootPath [0] ∈ (vunify ⟨false, false⟩ nowhere ⟨"/g".toList, []⟩
        [⟨"/r".toList, []⟩] oneFile).log ∧
      nowhere.lstat (PathInfo.append "/r".toList rootPath) = none :=
  ⟨List.mem_singleton_self _, rfl⟩

end Vunify
