import Mathlib.Data.List.DropRight
import Mathlib.Data.List.Nodup
import Mathlib.Data.List.Perm.Subperm
import UtilVserver.PathInfo

/-!
# The walk of `lsxid`, `chxid`, `showattr` and `setattr` (`src/fstool.c`)

`iterateFilesystem` reads each directory twice: the first time for its files, the second time for
its directories.

* `firstPass`, `secondPass`, `iterateFilesystem` — the code, with the calls that fail: they are
  counted, and the walk goes on.  An error wrapper that fails ends the program; there is no such run
  here.
* `Selected` — the entries that the options ask for, behind calls that work.
* `first`, `second` — what the two passes hand to the handler.
* `faults` — the calls that fail; `Intact` is a tree without them.

Principal results: `iterateFilesystem_calls`, `iterateFilesystem_exact`, `iterateFilesystem_err` and
`faults_eq_zero`.
-/

set_option autoImplicit false

namespace Fstool

open CString PathInfo

structure Stat where
  dev : Nat
  ino : Nat
  isDir : Bool
  deriving DecidableEq

/-- A file, and which calls work for it: `lstat` in both loops, going there, and `opendir`.
`lstat(".")` is none of them: `safeChdir` has done a `stat` of the same directory.  The tree stays as
it is during the walk, so a `safeChdir` that fails has not left the directory. -/
structure Node where
  st : Stat
  lstat : Bool
  chdir : Bool
  opendir : Bool

/-- All of them work. -/
def Node.enters (n : Node) : Bool := n.lstat && n.chdir && n.opendir

/-- A call of `handleFile`: what its first argument denotes in the working directory, and the name
that is displayed. -/
structure Call where
  target : Stat
  fullName : Text
  deriving DecidableEq

/-- `global_args`, and the results of the handler. -/
structure Args where
  doRecurse : Bool
  doDisplayDot : Bool
  localFs : Bool
  handleFile : Call → Bool

structure State where
  calls : List Call
  err : BitVec 64

/-- `err += handleFile(…) ? 0 : 1`. -/
def handle (w : Args) (c : Call) (s : State) : State :=
  ⟨s.calls ++ [c], s.err + if w.handleFile c then 0#64 else 1#64⟩

/-- `++err` behind a message. -/
def State.fail (s : State) : State := ⟨s.calls, s.err + 1#64⟩

def isSpecialDir (w : Args) (d : Text) : Bool :=
  (d.head? == some '.' && !w.doDisplayDot) || isDotfile d

/-- The path without the slashes at its end. -/
def strip (path : Text) : Text := path.rdropWhile (· == '/')

/-- `CONCAT_PATHS`, with a path that is stripped. -/
def concatPaths (lhs rhs : Text) : Text := lhs ++ '/' :: rhs

/-- The first loop; `path` is stripped. -/
def firstPass (w : Args) (path : Text) : Dir Node → State → State
  | .nil, s => s
  | .entry name n _ rest, s =>
    let s :=
      if isSpecialDir w name.text then s
      else if !n.lstat then s.fail
      else if n.st.isDir && w.doRecurse then s
      else handle w ⟨n.st, concatPaths path name.text⟩ s
    firstPass w path rest s

/-- `do_again` behind the first loop. -/
def doAgain (w : Args) (d : Dir Node) : Bool :=
  d.items.any fun i => !isSpecialDir w i.1.text && i.2.1.lstat && (i.2.1.st.isDir && w.doRecurse)

/-- The body of `iterateFilesystem`; `again` is the second loop for the directory. -/
def iterateBody (w : Args) (again : Node → Text → State → State) (cur : Node) (d : Dir Node)
    (path : Text) (s : State) : State :=
  if !cur.opendir then s.fail
  else
    let s := handle w ⟨cur.st, path⟩ s
    let s := firstPass w (strip path) d s
    if doAgain w d then again cur (strip path) s else s

/-- On another file system than the directory that is read. -/
def foreign (w : Args) (cur n : Node) : Bool := w.localFs && n.st.dev != cur.st.dev

/-- The second loop. -/
def secondPass (w : Args) : Dir Node → Node → Text → State → State
  | .nil, _, _, s => s
  | .entry name n sub rest, cur, path, s =>
    let s :=
      if isSpecialDir w name.text then s
      else if !n.lstat then s.fail
      else if !n.st.isDir || foreign w cur n then s
      else if !n.chdir then s.fail
      else iterateBody w (secondPass w sub) n sub (concatPaths path name.text) s
    secondPass w rest cur path s

/-- `iterateFilesystem(path)` in a directory. -/
def iterateFilesystem (w : Args) (cur : Node) (d : Dir Node) (path : Text) (s : State) : State :=
  iterateBody w (secondPass w d) cur d path s

/-! ## The entries that are asked for -/

def isDir (n : Node) : Bool := n.st.isDir

/-- A start: in no directory a name is used twice, and only directories have entries. -/
structure Start where
  cur : Node
  tree : Dir Node
  valid : tree.Valid isDir

abbrev Entry := List FileName × Node

/-- The path of an entry. -/
def joined (path : Text) (k : List FileName) : Text :=
  k.foldl (fun path name => concatPaths (strip path) name.text) path

/-- The calls for an entry itself work; a directory behind `-R` is entered too. -/
def Node.Usable (w : Args) (n : Node) : Prop :=
  n.lstat = true ∧ ((n.st.isDir && w.doRecurse) = true → n.enters = true)

/-- The entry is in a directory that is read: at any depth with `-R`, behind no hidden name without
`-a`, and with `-x` below no directory of another file system; and no call on the way has failed. -/
structure Reached (w : Args) (src : Start) (e : Entry) : Prop where
  entry : e ∈ src.tree.entries []
  depth : w.doRecurse = true ∨ e.1.length = 1
  visible : ∀ name ∈ e.1, isSpecialDir w name.text = false
  device : w.localFs = true → ∀ a ∈ src.tree.entries [], a.1 <+: e.1 → a.1 ≠ e.1 →
    a.2.st.dev = src.cur.st.dev
  opened : src.cur.opendir = true
  entered : ∀ a ∈ src.tree.entries [], a.1 <+: e.1 → a.1 ≠ e.1 → a.2.enters = true
  usable : e.2.Usable w

/-- It is asked for: with `-x`, it is on the file system of the start itself. -/
def Selected (w : Args) (src : Start) (e : Entry) : Prop :=
  Reached w src e ∧ (w.localFs = true → e.2.st.dev = src.cur.st.dev)

/-- The handler is called once for the start and for each entry that is asked for, with the path and
what is there. -/
structure Covers (w : Args) (src : Start) (path : Text) : Prop where
  once : ((iterateFilesystem w src.cur src.tree path ⟨[], 0#64⟩).calls.map Call.fullName).Nodup
  exact : ∀ c, c ∈ (iterateFilesystem w src.cur src.tree path ⟨[], 0#64⟩).calls ↔
    (src.cur.opendir = true ∧ c = ⟨src.cur.st, path⟩) ∨
      ∃ e, Selected w src e ∧ c = ⟨e.2.st, joined path e.1⟩

/-- With `-x`, what is handled in the first pass is on the file system of the start. -/
def Local (w : Args) (src : Start) : Prop :=
  w.localFs = true → ∀ e, Reached w src e → (e.2.st.isDir && w.doRecurse) = false →
    e.2.st.dev = src.cur.st.dev

/-! ## The calls of the two passes -/

/-- The entries of the first pass. -/
def first (w : Args) : Dir Node → List FileName → List Entry
  | .nil, _ => []
  | .entry name n _ rest, k =>
    (if isSpecialDir w name.text || !n.lstat || (n.st.isDir && w.doRecurse) then []
      else [(k ++ [name], n)]) ++ first w rest k

/-- A directory that the second pass goes to. -/
def visits (w : Args) (cur n : Node) : Bool :=
  (n.st.isDir && w.doRecurse) && !foreign w cur n && n.enters

/-- The entries of the second pass. -/
def second (w : Args) : Dir Node → Node → List FileName → List Entry
  | .nil, _, _ => []
  | .entry name n sub rest, cur, k =>
    (if isSpecialDir w name.text || !visits w cur n then []
      else (k ++ [name], n) :: (first w sub (k ++ [name]) ++ second w sub n (k ++ [name]))) ++
      second w rest cur k

/-- The call for an entry. -/
def callOf (path : Text) (e : Entry) : Call := ⟨e.2.st, joined path e.1⟩

theorem joined_snoc (path : Text) (k : List FileName) (name : FileName) :
    joined path (k ++ [name]) = concatPaths (strip (joined path k)) name.text := by
  rw [joined, List.foldl_append]
  rfl

theorem firstPass_calls (w : Args) (path : Text) (d : Dir Node) (k : List FileName) (s : State) :
    (firstPass w (strip (joined path k)) d s).calls =
      s.calls ++ (first w d k).map (callOf path) := by
  induction d generalizing s with
  | nil => exact (List.append_nil _).symm
  | entry name n sub rest _ ihrest =>
    rw [firstPass, first, ihrest, List.map_append, ← List.append_assoc]
    congr 1
    cases isSpecialDir w name.text <;> cases n.lstat <;> cases n.st.isDir && w.doRecurse <;>
      simp [handle, State.fail, callOf, joined_snoc]

/-- Without a directory to be read, the second pass finds none. -/
theorem second_of_not_again {w : Args} {d : Dir Node} (h : doAgain w d = false) (cur : Node)
    (k : List FileName) : second w d cur k = [] := by
  induction d with
  | nil => rfl
  | entry name n sub rest _ ihrest =>
    simp only [doAgain, Dir.items, List.any_cons, Bool.or_eq_false_iff] at h
    have hskip : (isSpecialDir w name.text || !visits w cur n) = true := by
      have hhead := h.1
      unfold visits Node.enters
      revert hhead
      cases isSpecialDir w name.text <;> cases n.st.isDir && w.doRecurse <;> cases n.lstat <;> simp
    rw [second, ihrest h.2, hskip, if_pos rfl, List.nil_append]

theorem iterateBody_calls {w : Args} {again : Node → Text → State → State} {d : Dir Node}
    {path : Text} {k : List FileName} {n : Node}
    (hagain : ∀ s, (again n (strip (joined path k)) s).calls =
      s.calls ++ (second w d n k).map (callOf path)) (s : State) :
    (iterateBody w again n d (joined path k) s).calls = s.calls ++
      if n.opendir then
        callOf path (k, n) :: (first w d k ++ second w d n k).map (callOf path)
      else [] := by
  unfold iterateBody
  cases n.opendir with
  | false => exact (List.append_nil _).symm
  | true =>
    simp only [Bool.not_true, Bool.false_eq_true, if_false, if_true, List.map_append]
    cases hd : doAgain w d with
    | true =>
      rw [if_pos rfl, hagain, firstPass_calls]
      simp [handle, callOf]
    | false =>
      rw [if_neg Bool.false_ne_true, second_of_not_again hd, firstPass_calls]
      simp [handle, callOf]

/-- Behind `-R`, which the first loop has found. -/
theorem secondPass_calls (w : Args) (hrec : w.doRecurse = true) (path : Text) (d : Dir Node)
    (cur : Node) (k : List FileName) (s : State) :
    (secondPass w d cur (strip (joined path k)) s).calls =
      s.calls ++ (second w d cur k).map (callOf path) := by
  induction d generalizing cur k s with
  | nil => exact (List.append_nil _).symm
  | entry name n sub rest ihsub ihrest =>
    have hbody := @iterateBody_calls w (secondPass w sub) sub path (k ++ [name]) n
      (ihsub n (k ++ [name])) s
    rw [joined_snoc] at hbody
    rw [secondPass, second, ihrest, List.map_append, ← List.append_assoc]
    congr 1
    unfold visits Node.enters
    cases isSpecialDir w name.text <;> cases n.lstat <;> cases n.st.isDir <;>
      cases foreign w cur n <;> cases n.chdir <;>
      simp only [hrec, hbody, State.fail, Bool.not_true, Bool.not_false, Bool.true_or, Bool.false_or,
        Bool.or_true, Bool.or_false, Bool.and_true, Bool.true_and, Bool.and_false, Bool.false_and,
        if_true, if_false, Bool.false_eq_true, List.map_nil, List.append_nil]
    cases n.opendir <;>
      simp only [Bool.not_true, Bool.not_false, Bool.false_eq_true, if_true, if_false, List.map_nil,
        List.map_cons]

theorem doRecurse_of_again {w : Args} {d : Dir Node} (h : doAgain w d = true) :
    w.doRecurse = true := by
  obtain ⟨i, -, hi⟩ := List.any_eq_true.1 h
  rw [Bool.and_eq_true, Bool.and_eq_true _ w.doRecurse] at hi
  exact hi.2.2

/-- **The calls of the handler: the directory, its files, and what is in its directories.** -/
theorem iterateFilesystem_calls (w : Args) (cur : Node) (d : Dir Node) (path : Text) (s : State) :
    (iterateFilesystem w cur d path s).calls = s.calls ++
      if cur.opendir then
        ⟨cur.st, path⟩ :: (first w d [] ++ second w d cur []).map (callOf path)
      else [] := by
  cases hd : doAgain w d with
  | true =>
    exact @iterateBody_calls w (secondPass w d) d path [] cur
      (secondPass_calls w (doRecurse_of_again hd) path d cur []) s
  | false =>
    -- without the second loop, any other one will do
    have hbody := @iterateBody_calls w (fun _ _ s => s) d path [] cur
      (fun s => by rw [second_of_not_again hd]; exact (List.append_nil _).symm) s
    refine Eq.trans ?_ hbody
    unfold iterateFilesystem iterateBody
    rw [hd]
    rfl

/-! ## The entries of the two passes -/

/-- An entry below the directory with the names `k`: the options ask for it, and all directories
above it are like `P`. -/
structure Under (w : Args) (P : Node → Prop) (d : Dir Node) (k : List FileName) (e : Entry) :
    Prop where
  entry : e ∈ d.entries k
  depth : w.doRecurse = true ∨ e.1.length = k.length + 1
  visible : ∀ name ∈ e.1.drop k.length, isSpecialDir w name.text = false
  above : ∀ a ∈ d.entries k, a.1 <+: e.1 → a.1 ≠ e.1 → P a.2

theorem not_dotfile {w : Args} {t : Text} (h : isSpecialDir w t = false) : isDotfile t = false := by
  unfold isSpecialDir at h
  exact (Bool.or_eq_false_iff.1 h).2

section

variable {w : Args} {P : Node → Prop} {name : FileName} {n : Node} {sub rest : Dir Node}
  {k : List FileName} {e : Entry}

theorem drop_own (t : List FileName) : (k ++ name :: t).drop k.length = name :: t := by simp

/-- The entry itself. -/
theorem under_head : Under w P (.entry name n sub rest) k (k ++ [name], n) ↔
    isSpecialDir w name.text = false := by
  constructor
  · intro h
    refine h.visible name ?_
    rw [drop_own]
    exact List.mem_cons_self
  · intro hvisible
    refine ⟨Dir.entries_head (not_dotfile hvisible), Or.inr (by simp), fun name' h => ?_,
      fun a ha hpre hne => absurd (Dir.entries_top ha hpre) hne⟩
    rw [drop_own, List.mem_singleton] at h
    exact h ▸ hvisible

/-- What is below the entry. -/
theorem under_sub (hd : (Dir.entry name n sub rest).Valid isDir)
    (he : e ∈ sub.entries (k ++ [name])) : Under w P (.entry name n sub rest) k e ↔
      isSpecialDir w name.text = false ∧ (n.st.isDir && w.doRecurse) = true ∧ P n ∧
        Under w P sub (k ++ [name]) e := by
  obtain ⟨name', -, t, ht, -⟩ := Dir.entries_key he
  have htail : e.1 = k ++ name :: name' :: t := by rw [ht]; simp
  have hdrop : e.1.drop (k ++ [name]).length = name' :: t := by rw [ht]; simp
  have hlen : e.1.length = k.length + t.length + 2 := by
    rw [htail]
    simp only [List.length_append, List.length_cons]
    omega
  constructor
  · intro h
    have hvisible := h.visible
    rw [htail, drop_own] at hvisible
    have hspecial := hvisible name List.mem_cons_self
    have hhead : (k ++ [name], n) ∈ (Dir.entry name n sub rest).entries k :=
      Dir.entries_head (not_dotfile hspecial)
    have hrec : w.doRecurse = true := by
      rcases h.depth with hrec | hlen'
      · exact hrec
      · omega
    have hdir : n.st.isDir = true := by
      by_contra hfile
      rw [hd.2.1 (by simpa [isDir] using hfile)] at he
      cases he
    refine ⟨hspecial, by rw [hdir, hrec]; rfl,
      h.above _ hhead (Dir.entries_below he).1 (Dir.entries_below he).2, he, Or.inl hrec, ?_,
      fun a ha hpre hne => h.above a (Dir.entries_sub (not_dotfile hspecial) ha) hpre hne⟩
    rw [hdrop]
    exact fun x hx => hvisible x (List.mem_cons_of_mem name hx)
  · rintro ⟨hspecial, hdirrec, hn, h⟩
    rw [Bool.and_eq_true] at hdirrec
    have hvisible := h.visible
    rw [hdrop] at hvisible
    refine ⟨Dir.entries_sub (not_dotfile hspecial) he, Or.inl hdirrec.2, ?_, ?_⟩
    · rw [htail, drop_own]
      intro x hx
      rcases List.mem_cons.1 hx with rfl | hx
      · exact hspecial
      · exact hvisible x hx
    · intro a ha hpre hne
      rcases Dir.entries_cases ha with ⟨-, hown⟩ | ha
      · rcases List.mem_cons.1 hown with rfl | ha
        · exact hn
        · exact h.above a ha hpre hne
      · exact absurd hpre (Dir.entries_disjoint hd (List.mem_cons_of_mem _ he) ha).2

/-- What comes after the entry. -/
theorem under_rest (hd : (Dir.entry name n sub rest).Valid isDir) (he : e ∈ rest.entries k) :
    Under w P (.entry name n sub rest) k e ↔ Under w P rest k e := by
  constructor
  · intro h
    exact ⟨he, h.depth, h.visible, fun a ha => h.above a (Dir.entries_rest ha)⟩
  · intro h
    refine ⟨Dir.entries_rest he, h.depth, h.visible, fun a ha hpre hne => ?_⟩
    rcases Dir.entries_cases ha with ⟨-, hown⟩ | ha
    · exact absurd hpre (Dir.entries_disjoint hd hown he).1
    · exact h.above a ha hpre hne

/-- An entry, what is below it, or what comes after it. -/
theorem under_cases (hd : (Dir.entry name n sub rest).Valid isDir) :
    Under w P (.entry name n sub rest) k e ↔
      (isSpecialDir w name.text = false ∧ (e = (k ++ [name], n) ∨
        (n.st.isDir && w.doRecurse) = true ∧ P n ∧ Under w P sub (k ++ [name]) e)) ∨
      Under w P rest k e := by
  constructor
  · intro h
    rcases Dir.entries_cases h.entry with ⟨-, hown⟩ | he
    · rcases List.mem_cons.1 hown with rfl | he
      · exact Or.inl ⟨under_head.1 h, Or.inl rfl⟩
      · obtain ⟨hspecial, hbelow⟩ := (under_sub hd he).1 h
        exact Or.inl ⟨hspecial, Or.inr hbelow⟩
    · exact Or.inr ((under_rest hd he).1 h)
  · rintro (⟨hspecial, rfl | hbelow⟩ | h)
    · exact under_head.2 hspecial
    · exact (under_sub hd hbelow.2.2.entry).2 ⟨hspecial, hbelow⟩
    · exact (under_rest hd h.entry).2 h

end

/-- With `-x`, on the device `dev`. -/
def Node.Near (w : Args) (dev : Nat) (n : Node) : Prop := w.localFs = true → n.st.dev = dev

/-- A directory that the second pass goes to, when it has come from the device `dev`. -/
def Through (w : Args) (dev : Nat) (n : Node) : Prop := n.Near w dev ∧ n.enters = true

/-- An entry that is handled. -/
def Handled (w : Args) (dev : Nat) (d : Dir Node) (k : List FileName) (e : Entry) : Prop :=
  Under w (Through w dev) d k e ∧ e.2.lstat = true ∧
    ((e.2.st.isDir && w.doRecurse) = true → Through w dev e.2)

/-- What both passes hand over for an entry and what is below it. -/
def own (w : Args) (name : FileName) (n : Node) (sub : Dir Node) (cur : Node)
    (k : List FileName) : List Entry :=
  if isSpecialDir w name.text || !n.lstat then []
  else if n.st.isDir && w.doRecurse then
    if !visits w cur n then []
    else (k ++ [name], n) :: (first w sub (k ++ [name]) ++ second w sub n (k ++ [name]))
  else [(k ++ [name], n)]

/-- The two passes, sorted by the entries of the directory. -/
theorem passes_perm (w : Args) (name : FileName) (n : Node) (sub rest : Dir Node) (cur : Node)
    (k : List FileName) :
    (first w (.entry name n sub rest) k ++ second w (.entry name n sub rest) cur k).Perm
      (own w name n sub cur k ++ (first w rest k ++ second w rest cur k)) := by
  have hown : own w name n sub cur k =
      (if isSpecialDir w name.text || !n.lstat || (n.st.isDir && w.doRecurse) then []
        else [(k ++ [name], n)]) ++
      if isSpecialDir w name.text || !visits w cur n then []
      else (k ++ [name], n) :: (first w sub (k ++ [name]) ++ second w sub n (k ++ [name])) := by
    rw [own, visits, Node.enters]
    cases isSpecialDir w name.text <;> cases n.lstat <;> cases n.st.isDir && w.doRecurse <;> simp
  rw [first, second, hown]
  simp only [List.append_assoc]
  exact (List.perm_append_comm_assoc _ _ _).append_left _

theorem foreign_iff {w : Args} {cur n : Node} {dev : Nat}
    (hcur : w.localFs = true → cur.st.dev = dev) : foreign w cur n = false ↔ n.Near w dev := by
  unfold foreign Node.Near
  cases hlocal : w.localFs with
  | false => simp
  | true => simp [hcur hlocal]

theorem visits_iff {w : Args} {cur n : Node} {dev : Nat}
    (hcur : w.localFs = true → cur.st.dev = dev)
    (hdirrec : (n.st.isDir && w.doRecurse) = true) : visits w cur n = true ↔ Through w dev n := by
  unfold visits Through
  rw [hdirrec, Bool.true_and, Bool.and_eq_true, Bool.not_eq_true', foreign_iff hcur]

theorem mem_own {w : Args} {cur n : Node} {dev : Nat} (hcur : w.localFs = true → cur.st.dev = dev)
    {name : FileName} {sub : Dir Node} {k : List FileName} {e : Entry} :
    e ∈ own w name n sub cur k ↔ isSpecialDir w name.text = false ∧ n.lstat = true ∧
      if n.st.isDir && w.doRecurse then Through w dev n ∧ (e = (k ++ [name], n) ∨
        e ∈ first w sub (k ++ [name]) ++ second w sub n (k ++ [name]))
      else e = (k ++ [name], n) := by
  unfold own
  cases isSpecialDir w name.text with
  | true => simp
  | false =>
    cases n.lstat with
    | false => simp
    | true =>
      cases hdirrec : n.st.isDir && w.doRecurse with
      | false => simp
      | true =>
        have hvisits := visits_iff hcur hdirrec
        cases hv : visits w cur n with
        | true => simp [hvisits.1 hv]
        | false =>
          have hnot : ¬ Through w dev n := fun h => by rw [hvisits.2 h] at hv; cases hv
          simp [hnot]

/-- What is handed over is what is to be handled; `dev` is the device of the start. -/
theorem mem_passes (w : Args) {d : Dir Node} (hd : d.Valid isDir) {cur : Node} {dev : Nat}
    (hcur : w.localFs = true → cur.st.dev = dev) (k : List FileName) (e : Entry) :
    e ∈ first w d k ++ second w d cur k ↔ Handled w dev d k e := by
  induction d generalizing cur k with
  | nil => exact ⟨(fun h => by cases h), fun h => by cases h.1.entry⟩
  | entry name n sub rest ihsub ihrest =>
    rw [(passes_perm w name n sub rest cur k).mem_iff, List.mem_append, ihrest hd.2.2.2 hcur,
      mem_own hcur]
    unfold Handled
    rw [under_cases hd, or_and_right]
    refine or_congr ?_ Iff.rfl
    rw [and_assoc]
    refine and_congr_right fun _ => ?_
    cases hdirrec : n.st.isDir && w.doRecurse with
    | false =>
      -- no directory that is gone through: the entry itself
      simp only [Bool.false_eq_true, if_false, false_and, or_false]
      constructor
      · rintro ⟨hlstat, rfl⟩
        exact ⟨rfl, hlstat, fun h => by rw [hdirrec] at h; cases h⟩
      · rintro ⟨rfl, hlstat, -⟩
        exact ⟨hlstat, rfl⟩
    | true =>
      simp only [if_true, true_and]
      constructor
      · rintro ⟨hlstat, hthrough, rfl | h⟩
        · exact ⟨Or.inl rfl, hlstat, fun _ => hthrough⟩
        · obtain ⟨hunder, hown⟩ := (ihsub hd.2.2.1 hthrough.1 (k ++ [name])).1 h
          exact ⟨Or.inr ⟨hthrough, hunder⟩, hown⟩
      · rintro ⟨rfl | ⟨hthrough, hunder⟩, hown⟩
        · exact ⟨hown.1, hown.2 hdirrec, Or.inl rfl⟩
        · have henters := hthrough.2
          rw [Node.enters, Bool.and_eq_true, Bool.and_eq_true] at henters
          exact ⟨henters.1.1, hthrough,
            Or.inr ((ihsub hd.2.2.1 hthrough.1 (k ++ [name])).2 ⟨hunder, hown⟩)⟩

/-- Nothing is handed over twice. -/
theorem passes_subperm (w : Args) (d : Dir Node) (cur : Node) (k : List FileName) :
    (first w d k ++ second w d cur k).Subperm (d.entries k) := by
  induction d generalizing cur k with
  | nil => exact List.Subperm.refl _
  | entry name n sub rest ihsub ihrest =>
    refine (passes_perm w name n sub rest cur k).subperm.trans ?_
    rw [Dir.entries]
    refine List.Subperm.append ?_ (ihrest cur k)
    unfold own
    split
    · exact List.nil_subperm
    · rename_i hskip
      rw [Bool.not_eq_true, Bool.or_eq_false_iff] at hskip
      rw [not_dotfile hskip.1, if_neg Bool.false_ne_true]
      split
      · split
        · exact List.nil_subperm
        · exact (List.subperm_cons _).2 (ihsub n (k ++ [name]))
      · exact (List.subperm_cons _).2 List.nil_subperm

/-! ## The paths -/

theorem components_strip (path : Text) : components (strip path) = components path := by
  induction path using List.reverseRecOn with
  | nil => rfl
  | append_singleton path c ih =>
    rw [strip, List.rdropWhile_concat]
    split
    · rename_i hc
      rw [beq_iff_eq] at hc
      rw [hc, components_slash, components_nil, List.append_nil]
      exact ih
    · rfl

theorem components_joined (path : Text) (k : List FileName) :
    components (joined path k) = components path ++ k.map FileName.text := by
  induction k using List.reverseRecOn with
  | nil => exact (List.append_nil _).symm
  | append_singleton k name ih =>
    rw [joined_snoc, concatPaths, components_slash, components_strip, ih, components_name,
      List.map_append, List.append_assoc]
    rfl

theorem joined_inj {path : Text} {k k' : List FileName} (h : joined path k = joined path k') :
    k = k' := by
  have hnames := congrArg components h
  rw [components_joined, components_joined, List.append_cancel_left_eq] at hnames
  exact (List.map_inj_right fun _ _ => FileName.eq_of_text).1 hnames

/-! ## The walk -/

theorem handled_iff (w : Args) (src : Start) (e : Entry) :
    src.cur.opendir = true ∧ Handled w src.cur.st.dev src.tree [] e ↔
      Reached w src e ∧ (w.localFs = true → (e.2.st.isDir && w.doRecurse) = true →
        e.2.st.dev = src.cur.st.dev) := by
  constructor
  · rintro ⟨hopen, hunder, hlstat, hown⟩
    exact ⟨⟨hunder.entry, hunder.depth, hunder.visible,
      fun hlocal a ha hpre hne => (hunder.above a ha hpre hne).1 hlocal, hopen,
      fun a ha hpre hne => (hunder.above a ha hpre hne).2, hlstat, fun hdir => (hown hdir).2⟩,
      fun hlocal hdir => (hown hdir).1 hlocal⟩
  · rintro ⟨h, hown⟩
    exact ⟨h.opened, ⟨h.entry, h.depth, h.visible,
      fun a ha hpre hne => ⟨fun hlocal => h.device hlocal a ha hpre hne, h.entered a ha hpre hne⟩⟩,
      h.usable.1, fun hdir => ⟨fun hlocal => hown hlocal hdir, h.usable.2 hdir⟩⟩

/-- The calls of a walk, each of them once. -/
theorem walk_calls (w : Args) (src : Start) (path : Text) :
    ((iterateFilesystem w src.cur src.tree path ⟨[], 0#64⟩).calls.map Call.fullName).Nodup ∧
      ∀ c, c ∈ (iterateFilesystem w src.cur src.tree path ⟨[], 0#64⟩).calls ↔
        (src.cur.opendir = true ∧ c = ⟨src.cur.st, path⟩) ∨
          ∃ e, (src.cur.opendir = true ∧ Handled w src.cur.st.dev src.tree [] e) ∧
            c = callOf path e := by
  have hmem : ∀ e, e ∈ first w src.tree [] ++ second w src.tree src.cur [] ↔
      Handled w src.cur.st.dev src.tree [] e :=
    mem_passes w src.valid (fun _ => rfl) []
  rw [iterateFilesystem_calls, List.nil_append]
  cases src.cur.opendir with
  | false => simp
  | true =>
    rw [if_pos rfl]
    constructor
    · rw [List.map_cons, List.map_map, List.nodup_cons]
      constructor
      · intro h
        obtain ⟨e, he, heq⟩ := List.mem_map.1 h
        have hjoined : joined path e.1 = joined path [] := heq
        have hkey := joined_inj hjoined
        exact Dir.entries_ne_nil ((hmem e).1 he).1.entry hkey
      · have hkeys : (first w src.tree [] ++ second w src.tree src.cur []).map
            (Call.fullName ∘ callOf path) =
            ((first w src.tree [] ++ second w src.tree src.cur []).map Prod.fst).map
              (joined path) := by
          rw [List.map_map]
          rfl
        rw [hkeys]
        obtain ⟨l, hperm, hsub⟩ := passes_subperm w src.tree src.cur []
        refine List.Nodup.map (fun _ _ h => joined_inj h) ?_
        exact (hperm.map Prod.fst).nodup_iff.1
          ((hsub.map Prod.fst).nodup (Dir.entries_nodup src.valid []))
    · intro c
      simp only [List.mem_cons, List.mem_map, hmem, eq_comm, true_and]

/-- **The handler is called once for each entry that is asked for, and for no other unless, with
`-x`, a file, or without `-R` a directory, is on another file system.** -/
theorem iterateFilesystem_exact (w : Args) (src : Start) (path : Text) :
    Covers w src path ↔ Local w src := by
  obtain ⟨honce, hcalls⟩ := walk_calls w src path
  constructor
  · rintro ⟨-, hexact⟩ hlocal e hreached hfile
    have hhandled := (handled_iff w src e).2
      ⟨hreached, fun _ hdir => by rw [hfile] at hdir; cases hdir⟩
    have hmem := (hcalls (callOf path e)).2 (Or.inr ⟨e, hhandled, rfl⟩)
    rcases (hexact _).1 hmem with ⟨-, h⟩ | ⟨e', hselected, h⟩
    · have hkey : e.1 = [] := joined_inj (congrArg Call.fullName h)
      exact absurd hkey (Dir.entries_ne_nil hhandled.2.1.entry)
    · have htarget : e.2.st = e'.2.st := congrArg Call.target h
      rw [htarget]
      exact hselected.2 hlocal
  · intro h
    refine ⟨honce, fun c => (hcalls c).trans (or_congr Iff.rfl (exists_congr fun e => ?_))⟩
    refine and_congr_left fun _ => (handled_iff w src e).trans (and_congr_right fun hreached => ?_)
    constructor
    · intro hown hlocal
      cases hfile : e.2.st.isDir && w.doRecurse with
      | true => exact hown hlocal hfile
      | false => exact h hlocal e hreached hfile
    · exact fun hdev hlocal _ => hdev hlocal

/-- A file of another file system, mounted over the entry `hosts`. -/
def mounted : Start where
  cur := ⟨⟨1, 2, true⟩, true, true, true⟩
  tree := .entry ⟨"hosts".toList, by decide⟩ ⟨⟨2, 7, false⟩, true, true, true⟩ .nil .nil
  valid := ⟨List.not_mem_nil, fun _ => rfl, trivial, trivial⟩

/-- It is handled in spite of `-R -x`. -/
theorem iterateFilesystem_wrong :
    ¬ Covers ⟨true, false, true, fun _ => true⟩ mounted "/etc".toList := by
  rintro ⟨-, hexact⟩
  have hmem : (⟨⟨2, 7, false⟩, "/etc/hosts".toList⟩ : Call) ∈
      (iterateFilesystem ⟨true, false, true, fun _ => true⟩ mounted.cur mounted.tree
        "/etc".toList ⟨[], 0#64⟩).calls := by decide
  rcases (hexact _).1 hmem with ⟨-, h⟩ | ⟨e, hselected, h⟩
  · have hdev := congrArg (fun c : Call => c.target.dev) h
    revert hdev
    decide
  · have htarget : (⟨2, 7, false⟩ : Stat) = e.2.st := congrArg Call.target h
    have hdev := hselected.2 rfl
    rw [← htarget] at hdev
    revert hdev
    decide

/-! ## The calls that fail -/

/-- Those of the first pass. -/
def firstFaults (w : Args) : Dir Node → Nat
  | .nil => 0
  | .entry name n _ rest =>
    (if isSpecialDir w name.text || n.lstat then 0 else 1) + firstFaults w rest

/-- Those of a directory; `again` are those of the second loop. -/
def bodyFaults (w : Args) (again : Nat) (n : Node) (d : Dir Node) : Nat :=
  if !n.opendir then 1 else firstFaults w d + if doAgain w d then again else 0

/-- Those of the second pass. -/
def secondFaults (w : Args) : Dir Node → Node → Nat
  | .nil, _ => 0
  | .entry name n sub rest, cur =>
    (if isSpecialDir w name.text then 0
      else if !n.lstat then 1
      else if !n.st.isDir || foreign w cur n then 0
      else if !n.chdir then 1
      else bodyFaults w (secondFaults w sub n) n sub) + secondFaults w rest cur

/-- Those of a walk. -/
def faults (w : Args) (cur : Node) (d : Dir Node) : Nat := bodyFaults w (secondFaults w d cur) cur d

section

variable {w : Args} (hw : ∀ c, w.handleFile c = true)

include hw

theorem handle_err (c : Call) (s : State) : (handle w c s).err = s.err := by
  rw [handle, hw, if_pos rfl]
  exact BitVec.add_zero _

theorem firstPass_err (path : Text) (d : Dir Node) (s : State) :
    (firstPass w path d s).err = s.err + BitVec.ofNat 64 (firstFaults w d) := by
  induction d generalizing s with
  | nil => exact (BitVec.add_zero _).symm
  | entry name n sub rest _ ihrest =>
    rw [firstPass, firstFaults, ihrest, BitVec.ofNat_add, ← BitVec.add_assoc]
    congr 1
    cases isSpecialDir w name.text <;> cases n.lstat <;> cases n.st.isDir && w.doRecurse <;>
      simp [handle_err hw, State.fail]

theorem iterateBody_err {again : Node → Text → State → State} {count : Nat} {n : Node}
    (hagain : ∀ path s, (again n path s).err = s.err + BitVec.ofNat 64 count) (d : Dir Node)
    (path : Text) (s : State) : (iterateBody w again n d path s).err =
      s.err + BitVec.ofNat 64 (bodyFaults w count n d) := by
  unfold iterateBody bodyFaults
  cases n.opendir with
  | false => rfl
  | true =>
    cases doAgain w d with
    | true =>
      simp only [Bool.not_true, Bool.false_eq_true, if_false, if_true]
      rw [hagain, firstPass_err hw, handle_err hw, BitVec.ofNat_add, BitVec.add_assoc]
    | false =>
      simp only [Bool.not_true, Bool.false_eq_true, if_false, Nat.add_zero]
      rw [firstPass_err hw, handle_err hw]

theorem secondPass_err (d : Dir Node) (cur : Node) (path : Text) (s : State) :
    (secondPass w d cur path s).err = s.err + BitVec.ofNat 64 (secondFaults w d cur) := by
  induction d generalizing cur path s with
  | nil => exact (BitVec.add_zero _).symm
  | entry name n sub rest ihsub ihrest =>
    have hbody := @iterateBody_err w hw (secondPass w sub) (secondFaults w sub n) n
      (ihsub n) sub (concatPaths path name.text) s
    rw [secondPass, secondFaults, ihrest, BitVec.ofNat_add, ← BitVec.add_assoc]
    congr 1
    cases isSpecialDir w name.text <;> cases n.lstat <;> cases !n.st.isDir || foreign w cur n <;>
      cases n.chdir <;> simp [hbody, State.fail]

/-- **Each call that fails is counted**, beside those of the handler. -/
theorem iterateFilesystem_err (cur : Node) (d : Dir Node) (path : Text) (s : State) :
    (iterateFilesystem w cur d path s).err = s.err + BitVec.ofNat 64 (faults w cur d) :=
  iterateBody_err hw (secondPass_err hw d cur) d path s

end

/-- The calls for an entry work: `lstat`, and for a directory that is to be read those that lead
there. -/
def Works (w : Args) (dev : Nat) (n : Node) : Prop :=
  n.lstat = true ∧ ((n.st.isDir && w.doRecurse) = true → n.Near w dev → n.enters = true)

/-- No call of a walk fails. -/
def Intact (w : Args) (src : Start) : Prop :=
  src.cur.opendir = true ∧
    ∀ e, Under w (Node.Near w src.cur.st.dev) src.tree [] e → Works w src.cur.st.dev e.2

/-- What is to work below an entry and behind it. -/
theorem forall_under {w : Args} {P Q : Node → Prop} {name : FileName} {n : Node}
    {sub rest : Dir Node} {k : List FileName} (hd : (Dir.entry name n sub rest).Valid isDir) :
    (∀ e, Under w P (.entry name n sub rest) k e → Q e.2) ↔
      (isSpecialDir w name.text = false → Q n ∧ ((n.st.isDir && w.doRecurse) = true → P n →
        ∀ e, Under w P sub (k ++ [name]) e → Q e.2)) ∧
      ∀ e, Under w P rest k e → Q e.2 := by
  constructor
  · intro h
    refine ⟨fun hspecial => ⟨h (k ++ [name], n) (under_head.2 hspecial),
      fun hdirrec hn e he => h e ?_⟩, fun e he => h e ?_⟩
    · exact (under_cases hd).2 (Or.inl ⟨hspecial, Or.inr ⟨hdirrec, hn, he⟩⟩)
    · exact (under_cases hd).2 (Or.inr he)
  · rintro ⟨hown, hrest⟩ e he
    rcases (under_cases hd).1 he with ⟨hspecial, rfl | ⟨hdirrec, hn, hbelow⟩⟩ | he
    · exact (hown hspecial).1
    · exact (hown hspecial).2 hdirrec hn e hbelow
    · exact hrest e he

/-- Where the first pass finds no directory and no error, the second one would find none. -/
theorem secondFaults_of_not_again {w : Args} (hrec : w.doRecurse = true) {d : Dir Node}
    (hfirst : firstFaults w d = 0) (h : doAgain w d = false) (cur : Node) :
    secondFaults w d cur = 0 := by
  induction d with
  | nil => rfl
  | entry name n sub rest _ ihrest =>
    rw [firstFaults, Nat.add_eq_zero_iff] at hfirst
    simp only [doAgain, Dir.items, List.any_cons, Bool.or_eq_false_iff, hrec, Bool.and_true] at h
    have hrest := ihrest hfirst.2 (by unfold doAgain; rw [hrec]; simpa using h.2)
    obtain ⟨hown, -⟩ := hfirst
    obtain ⟨hhead, -⟩ := h
    rw [secondFaults, hrest, Nat.add_zero]
    revert hown hhead
    cases isSpecialDir w name.text <;> cases n.lstat <;> cases n.st.isDir <;> simp

theorem bodyFaults_eq_zero {w : Args} {n : Node} {d : Dir Node} :
    bodyFaults w (secondFaults w d n) n d = 0 ↔ n.opendir = true ∧ firstFaults w d = 0 ∧
      (w.doRecurse = true → secondFaults w d n = 0) := by
  unfold bodyFaults
  cases n.opendir with
  | false => simp
  | true =>
    simp only [Bool.not_true, Bool.false_eq_true, if_false, Nat.add_eq_zero_iff, true_and]
    refine and_congr_right fun hfirst => ?_
    cases hd : doAgain w d with
    | true => simp [doRecurse_of_again hd]
    | false =>
      simp only [Bool.false_eq_true, if_false, true_iff]
      exact fun hrec => secondFaults_of_not_again hrec hfirst hd n

/-- An entry adds no error when its calls work, and for a directory that is read those below it;
these are `B`. -/
theorem ownFaults_eq_zero {w : Args} {name : FileName} {n cur : Node} {sub : Dir Node} {dev : Nat}
    {B : Prop} (hcur : w.localFs = true → cur.st.dev = dev)
    (hsub : n.Near w dev → (firstFaults w sub = 0 ∧
      (w.doRecurse = true → secondFaults w sub n = 0) ↔ B)) :
    ((isSpecialDir w name.text || n.lstat) = true ∧ (w.doRecurse = true →
      (if isSpecialDir w name.text then 0
        else if !n.lstat then 1
        else if !n.st.isDir || foreign w cur n then 0
        else if !n.chdir then 1
        else bodyFaults w (secondFaults w sub n) n sub) = 0)) ↔
      (isSpecialDir w name.text = false → Works w dev n ∧
        ((n.st.isDir && w.doRecurse) = true → n.Near w dev → B)) := by
  unfold Works Node.enters
  cases isSpecialDir w name.text with
  | true => simp
  | false =>
    cases hlstat : n.lstat with
    | false => simp
    | true =>
      cases hdirrec : n.st.isDir && w.doRecurse with
      | false =>
        -- it is no directory, or there is no second pass
        rw [Bool.and_eq_false_iff] at hdirrec
        rcases hdirrec with hfile | hrec
        · simp [hfile]
        · simp [hrec]
      | true =>
        rw [Bool.and_eq_true] at hdirrec
        cases hforeign : foreign w cur n with
        | true =>
          have hnot : ¬ n.Near w dev := fun hn => by
            rw [(foreign_iff hcur).2 hn] at hforeign
            cases hforeign
          simp [hnot]
        | false =>
          have hn := (foreign_iff hcur).1 hforeign
          cases n.chdir with
          | false => simp [hn, hdirrec]
          | true => simp [hn, hdirrec, bodyFaults_eq_zero, ← hsub hn]

theorem passFaults_eq_zero {w : Args} {d : Dir Node} (hd : d.Valid isDir) {cur : Node} {dev : Nat}
    (hcur : w.localFs = true → cur.st.dev = dev) (k : List FileName) :
    (firstFaults w d = 0 ∧ (w.doRecurse = true → secondFaults w d cur = 0)) ↔
      ∀ e, Under w (Node.Near w dev) d k e → Works w dev e.2 := by
  induction d generalizing cur k with
  | nil =>
    constructor
    · intro _ e he
      cases he.entry
    · exact fun _ => ⟨rfl, fun _ => rfl⟩
  | entry name n sub rest ihsub ihrest =>
    rw [forall_under hd, ← ihrest hd.2.2.2 hcur k,
      ← ownFaults_eq_zero hcur (fun hn => ihsub hd.2.2.1 hn (k ++ [name])), firstFaults,
      secondFaults]
    cases isSpecialDir w name.text || n.lstat with
    | false => simp
    | true =>
      simp only [if_true, Nat.zero_add, Nat.add_eq_zero_iff, true_and]
      tauto

/-- **No error is counted exactly if no call that is made fails.** -/
theorem faults_eq_zero (w : Args) (src : Start) :
    faults w src.cur src.tree = 0 ↔ Intact w src := by
  unfold faults Intact
  rw [bodyFaults_eq_zero, passFaults_eq_zero src.valid (fun _ => rfl) []]

end Fstool
