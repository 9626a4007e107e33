import UtilVserver.Unify

/-!
# `Unify_copy`

Copies one object of any type and gives the copy the attributes of the original.

* `copyMem`, `copyMMap` — the content of a file, in blocks; words that are zero are not written.
* `copyLnk`, `copyReg`, `copyDir`, `copyNode` — one function for each type.
* `setModes`, `setTime`, `copy`.

The source is given by the inode its path leads to.

Principal results: `copyMMap_spec` (a copy that succeeds is complete), `copy_reg` (the copy of a
file), `copy_tried` (what a copy leaves alone) and `copy_works` (without failing calls it needs
nothing but the directory).
-/

set_option autoImplicit false

namespace UnifyCopy

open CString FileSystem FS

variable {E : Type} [DecidableEq E]

/-- What happens to one block. -/
inductive Block where
  | copied
  /-- `mmap` fails. -/
  | unmapped
  /-- `SIGBUS` behind so many bytes. -/
  | bus (bytes : Nat)

/-- Which calls work. -/
structure Calls where
  readlink : Bool
  symlink : Bool
  openSrc : Bool
  openDst : Bool
  fstat : Bool
  lseek : Bool
  ftruncate : Bool
  block : Nat → Block
  closeOut : Bool
  closeIn : Bool
  mkdir : Bool
  mknod : Bool
  lchown : Bool
  chmod : Bool
  utime : Bool
  creator : Creator

/-- `verifySource`. -/
def verifySource (st expStat : Stat) : Bool := st.dev = expStat.dev && st.ino = expStat.ino

/-- `copyMem`: whole words first, then the bytes of the rest; zeros stay unwritten. -/
def copyMem : List UInt8 → List UInt8 → List UInt8
  | d₀ :: d₁ :: d₂ :: d₃ :: dst, s₀ :: s₁ :: s₂ :: s₃ :: src =>
    (if [s₀, s₁, s₂, s₃] ≠ [0, 0, 0, 0] then [s₀, s₁, s₂, s₃] else [d₀, d₁, d₂, d₃]) ++
      copyMem dst src
  | d :: dst, s :: src => (if s ≠ 0 then s else d) :: copyMem dst src
  | dst, _ => dst

/-- `MMAP_BLOCKSIZE`. -/
def mmapBlocksize : Nat := 16 * 1024 * 1024

/-- The loop of `copyMMap` from block `n` on, with what is left of both files. -/
def copyBlocks (c : Calls) (src dst : List UInt8) (n : Nat) : Bool × List UInt8 :=
  match src with
  | [] => (true, dst)
  | s :: src =>
    let bufSize := min (src.length + 1) mmapBlocksize
    match c.block n with
    | .unmapped => (false, dst)
    | .bus k => (false, copyMem dst ((s :: src).take (min k bufSize)))
    | .copied =>
      let block := copyMem (dst.take bufSize) ((s :: src).take bufSize)
      let (res, rest) := copyBlocks c ((s :: src).drop bufSize) (dst.drop bufSize) (n + 1)
      (res, block ++ rest)
  termination_by src.length
  decreasing_by
    have hsize : 0 < mmapBlocksize := by decide
    rw [List.length_drop, List.length_cons]
    omega

/-- `copyMMap`: the result and the content of the new file. -/
def copyMMap (c : Calls) (src : List UInt8) : Bool × List UInt8 :=
  if !c.lseek then (false, [])
  else if src.length > 0 && !c.ftruncate then (false, [])
  else copyBlocks c src (List.replicate src.length 0) 0

/-- Whether a call that creates something works, and the state behind it. -/
def creating (works : Bool) (dst : Text) (n : Inode) (fs : FS E) : Bool × FS E :=
  match attempt works (fs.create dst n) with
  | none => (false, fs)
  | some fs => (true, fs)

/-- `copyLnk`; the buffer grows until the target fits. -/
def copyLnk (c : Calls) (src : Option Nat) (dst : Text) (fs : FS E) : Bool × FS E :=
  match attempt c.readlink src with
  | none => (false, fs)
  | some i =>
    creating c.symlink dst
      { c.creator.file 0 with mode := ⟨.lnk, 0o777⟩, data := (fs.inode i).data } fs

def copyReg (c : Calls) (src : Option Nat) (srcStat : Stat) (dst : Text) (fs : FS E) :
    Bool × FS E :=
  match attempt c.openSrc src with
  | none => (false, fs)
  | some inFd =>
    match attempt c.openDst (fs.create dst (c.creator.file 0o200)) with
    | none => (false, fs)
    | some fs₁ =>
      if !(c.fstat && verifySource (fs₁.stat inFd) srcStat) then (false, fs₁)
      else
        let r := copyMMap c (fs₁.inode inFd).data
        (r.1 && c.closeOut && c.closeIn, fs₁.append fs.next r.2)

def copyNode (c : Calls) (srcStat : Stat) (dst : Text) (fs : FS E) : Bool × FS E :=
  creating c.mknod dst { c.creator.file 0 with
    mode := ⟨srcStat.mode.kind, srcStat.mode.perm &&& 0o200⟩, rdev := srcStat.rdev } fs

def copyDir (c : Calls) (dst : Text) (fs : FS E) : Bool × FS E :=
  creating c.mkdir dst { c.creator.file 0 with mode := ⟨.dir, 0o700⟩ } fs

/-- A call on a path. -/
def onPath (works : Bool) (p : Text) (f : FS E → Nat → FS E) (fs : FS E) : Bool × FS E :=
  match attempt works (fs.lookup p) with
  | none => (false, fs)
  | some i => (true, f fs i)

def setModes (c : Calls) (path : Text) (st : Stat) (fs : FS E) : Bool × FS E :=
  match onPath c.lchown path (fun fs i => fs.chown i st.uid st.gid) fs with
  | (false, fs) => (false, fs)
  | (true, fs) =>
    if st.mode.kind = .lnk then (true, fs)
    else onPath c.chmod path (fun fs i => fs.chmod i st.mode.perm) fs

/-- `Unify_setTime`. -/
def setTime (c : Calls) (dst : Text) (st : Stat) (fs : FS E) : Bool × FS E :=
  if st.mode.kind = .lnk then (true, fs)
  else onPath c.utime dst (fun fs i => fs.utime i st.atime st.mtime) fs

/-- The copy without its attributes. -/
def copyObject (c : Calls) (src : Option Nat) (srcStat : Stat) (dst : Text) (fs : FS E) :
    Bool × FS E :=
  match srcStat.mode.kind with
  | .lnk => copyLnk c src dst fs
  | .reg => copyReg c src srcStat dst fs
  | .dir => copyDir c dst fs
  | .blk | .chr | .fifo => copyNode c srcStat dst fs
  | .sock => (false, fs)

/-- `Unify_copy`; sockets are skipped. -/
def copy (c : Calls) (src : Option Nat) (srcStat : Stat) (dst : Text) (fs : FS E) : Bool × FS E :=
  if srcStat.mode.kind = .sock then (true, fs)
  else
    match copyObject c src srcStat dst fs with
    | (false, fs) => (false, fs)
    | (true, fs) =>
      match setModes c dst srcStat fs with
      | (false, fs) => (false, fs)
      | (true, fs) => setTime c dst srcStat fs

/-! ## The content -/

/-- Onto zeros, leaving out the zeros makes no difference. -/
theorem copyMem_zeros (dst src : List UInt8) (h : dst = List.replicate src.length 0) :
    copyMem dst src = src := by
  fun_induction copyMem dst src with
  | case1 d₀ d₁ d₂ d₃ dst s₀ s₁ s₂ s₃ src ih =>
    simp only [List.length_cons, List.replicate_succ, List.cons.injEq] at h
    obtain ⟨rfl, rfl, rfl, rfl, hrest⟩ := h
    rw [ih hrest]
    split
    · rfl
    · rename_i hzero
      rw [ne_eq, not_not] at hzero
      rw [← hzero]
      rfl
  | case2 d dst s src hlong ih =>
    simp only [List.length_cons, List.replicate_succ, List.cons.injEq] at h
    obtain ⟨rfl, hrest⟩ := h
    rw [ih hrest]
    split
    · rfl
    · rename_i hzero
      rw [ne_eq, not_not] at hzero
      rw [hzero]
  | case3 dst src hlong hshort =>
    cases src with
    | nil => exact h
    | cons s src =>
      rw [List.length_cons, List.replicate_succ] at h
      exact absurd rfl (hshort 0 (List.replicate src.length 0) s src h)

theorem copyBlocks_spec (c : Calls) (src dst : List UInt8) (n : Nat)
    (h : dst = List.replicate src.length 0) (hres : (copyBlocks c src dst n).1 = true) :
    (copyBlocks c src dst n).2 = src := by
  fun_induction copyBlocks c src dst n with
  | case1 dst n => exact h
  | case2 => cases hres
  | case3 => cases hres
  | case4 dst n s src bufSize hcopied block res rest hrec ih =>
    have hdrop : dst.drop bufSize = List.replicate ((s :: src).drop bufSize).length 0 := by
      rw [h, List.drop_replicate, List.length_drop]
    have htake : dst.take bufSize = List.replicate ((s :: src).take bufSize).length 0 := by
      rw [h, List.take_replicate, List.length_take]
    rw [hrec] at ih
    have hblock : block = (s :: src).take bufSize := copyMem_zeros _ _ htake
    have hrest : rest = (s :: src).drop bufSize := ih hdrop hres
    rw [hblock, hrest, List.take_append_drop]

/-- **A copy of the content that succeeds is complete.** -/
theorem copyMMap_spec (c : Calls) (src : List UInt8) (h : (copyMMap c src).1 = true) :
    (copyMMap c src).2 = src := by
  unfold copyMMap at h ⊢
  split at h
  · cases h
  rename_i hlseek
  rw [if_neg hlseek]
  split at h
  · cases h
  rename_i htrunc
  rw [if_neg htrunc]
  exact copyBlocks_spec c src _ 0 rfl h

/-! ## The copy -/

theorem onPath_created {fs fs₁ : FS E} {p : Text} {works : Bool} {f : FS E → Nat → FS E}
    (h : Created fs fs₁ p) (hf : Created fs (f fs₁ fs.next) p) :
    Created fs (onPath works p f fs₁).2 p := by
  unfold onPath
  rw [h.lookup]
  cases works with
  | false => exact h
  | true => exact hf

theorem onPath_eq {fs fs₁ fs₂ : FS E} {p : Text} {works : Bool} {f : FS E → Nat → FS E}
    (h : Created fs fs₁ p) (hrun : onPath works p f fs₁ = (true, fs₂)) :
    fs₂ = f fs₁ fs.next := by
  unfold onPath at hrun
  rw [h.lookup] at hrun
  cases works with
  | false => cases hrun
  | true =>
    cases hrun
    rfl

theorem setModes_created {c : Calls} {fs fs₁ : FS E} {p : Text} {s : Stat}
    (h : Created fs fs₁ p) : Created fs (setModes c p s fs₁).2 p := by
  have hchown : Created fs (onPath c.lchown p (fun fs i => fs.chown i s.uid s.gid) fs₁).2 p :=
    onPath_created h (h.modify _)
  unfold setModes
  split
  · rename_i fs₂ hrun
    rw [hrun] at hchown
    exact hchown
  · rename_i fs₂ hrun
    rw [hrun] at hchown
    split
    · exact hchown
    · exact onPath_created hchown (hchown.modify _)

theorem setTime_created {c : Calls} {fs fs₁ : FS E} {p : Text} {st : Stat}
    (h : Created fs fs₁ p) : Created fs (setTime c p st fs₁).2 p := by
  unfold setTime
  split
  · exact h
  · exact onPath_created h (h.modify _)

/-- Nothing has happened, or the object is there. -/
def Tried (fs : FS E) (p : Text) (r : Bool × FS E) : Prop :=
  r.1 = false ∧ r.2 = fs ∨ Created fs r.2 p

theorem creating_tried (works : Bool) (dst : Text) (n : Inode) (fs : FS E) :
    Tried fs dst (creating works dst n fs) := by
  unfold creating
  split
  · exact Or.inl ⟨rfl, rfl⟩
  · rename_i hcreate
    exact Or.inr (Created.of_create (attempt_eq_some.1 hcreate).2)

theorem copyReg_tried (c : Calls) (src : Option Nat) (st : Stat) (dst : Text) (fs : FS E) :
    Tried fs dst (copyReg c src st dst fs) := by
  unfold copyReg
  split
  · exact Or.inl ⟨rfl, rfl⟩
  · split
    · exact Or.inl ⟨rfl, rfl⟩
    · rename_i hcreate
      have hnew := Created.of_create (attempt_eq_some.1 hcreate).2
      split
      · exact Or.inr hnew
      · exact Or.inr (hnew.modify fun n => { n with data := n.data ++ (copyMMap c _).2 })

theorem copyObject_tried (c : Calls) (src : Option Nat) (st : Stat) (dst : Text) (fs : FS E) :
    Tried fs dst (copyObject c src st dst fs) := by
  unfold copyObject
  cases st.mode.kind with
  | reg => exact copyReg_tried c src st dst fs
  | dir => exact creating_tried ..
  | lnk =>
    show Tried fs dst (copyLnk c src dst fs)
    unfold copyLnk
    split
    · exact Or.inl ⟨rfl, rfl⟩
    · exact creating_tried ..
  | chr => exact creating_tried ..
  | blk => exact creating_tried ..
  | fifo => exact creating_tried ..
  | sock => exact Or.inl ⟨rfl, rfl⟩

/-- **What a copy leaves alone**: everything but its destination. -/
theorem copy_tried (c : Calls) (src : Option Nat) (st : Stat) (dst : Text) (fs : FS E)
    (hsock : st.mode.kind ≠ .sock) : Tried fs dst (copy c src st dst fs) := by
  have hobj := copyObject_tried c src st dst fs
  unfold copy
  rw [if_neg hsock]
  split
  · rename_i fs₁ hrun
    rw [hrun] at hobj
    exact hobj
  · rename_i fs₁ hrun
    rw [hrun] at hobj
    obtain ⟨hfalse, -⟩ | hnew := hobj
    · cases hfalse
    · have hmodes := setModes_created (c := c) (s := st) hnew
      split
      · rename_i fs₂ hset
        rw [hset] at hmodes
        exact Or.inr hmodes
      · rename_i fs₂ hset
        rw [hset] at hmodes
        exact Or.inr (setTime_created hmodes)

theorem copyReg_data {c : Calls} {i : Nat} {st : Stat} {dst : Text} {fs fs₁ : FS E}
    (hi : i < fs.next) (h : copyReg c (some i) st dst fs = (true, fs₁)) :
    (fs₁.inode fs.next).data = (fs.inode i).data ∧
      (fs₁.inode fs.next).mode.kind = .reg := by
  unfold copyReg at h
  split at h
  · cases h
  rename_i inFd hopen
  obtain rfl : i = inFd := Option.some.inj (attempt_eq_some.1 hopen).2
  split at h
  · cases h
  rename_i fs₂ hcreate
  obtain ⟨-, rfl⟩ := create_eq_some (attempt_eq_some.1 hcreate).2
  split at h
  · cases h
  rw [inode_alloc, Function.update_of_ne (by omega)] at h
  simp only [Prod.mk.injEq, Bool.and_eq_true] at h
  obtain ⟨⟨⟨hres, -⟩, -⟩, rfl⟩ := h
  have hdata := copyMMap_spec c _ hres
  simp [FS.append, hdata, Creator.file]

/-- **The copy of a file** is a file with the content of the original and the given attributes. -/
theorem copy_reg {c : Calls} {i : Nat} {st : Stat} {dst : Text} {fs fs' : FS E}
    (hi : i < fs.next) (hkind : st.mode.kind = .reg)
    (h : copy c (some i) st dst fs = (true, fs')) :
    Created fs fs' dst ∧ (fs'.inode fs.next).data = (fs.inode i).data ∧
      (fs'.inode fs.next).mode = st.mode ∧ (fs'.inode fs.next).uid = st.uid ∧
      (fs'.inode fs.next).gid = st.gid ∧ (fs'.inode fs.next).mtime = st.mtime := by
  have htried := copy_tried c (some i) st dst fs (by rw [hkind]; decide)
  rw [h] at htried
  obtain ⟨hfalse, -⟩ | hcreated := htried
  · cases hfalse
  refine ⟨hcreated, ?_⟩
  unfold copy at h
  rw [if_neg (by rw [hkind]; decide)] at h
  split at h
  · cases h
  rename_i fs₁ hobj
  have hobj : copyReg c (some i) st dst fs = (true, fs₁) := by
    simpa [copyObject, hkind] using hobj
  have hnew : Created fs fs₁ dst := by
    have hreg := copyReg_tried c (some i) st dst fs
    rw [hobj] at hreg
    obtain ⟨hfalse, -⟩ | hnew := hreg
    · cases hfalse
    · exact hnew
  obtain ⟨hdata, hreg⟩ := copyReg_data hi hobj
  split at h
  · cases h
  rename_i fs₂ hmodes
  have hlnk : ¬ st.mode.kind = .lnk := by
    rw [hkind]
    decide
  have hset : Created fs fs₂ dst := by
    have hset := setModes_created (c := c) (s := st) hnew
    rwa [hmodes] at hset
  obtain rfl := onPath_eq (p := dst) hset (by simpa [setTime, hlnk] using h)
  unfold setModes at hmodes
  split at hmodes
  · cases hmodes
  rename_i fs₃ hchown
  obtain rfl := onPath_eq hnew hchown
  rw [if_neg hlnk] at hmodes
  obtain rfl := onPath_eq (hnew.modify _) hmodes
  simp [FS.utime, FS.chmod, hdata, hreg, ← hkind]

/-! ## Without failing calls -/

/-- No call fails. -/
structure Calls.Work (c : Calls) : Prop where
  readlink : c.readlink = true
  symlink : c.symlink = true
  openSrc : c.openSrc = true
  openDst : c.openDst = true
  fstat : c.fstat = true
  lseek : c.lseek = true
  ftruncate : c.ftruncate = true
  block : ∀ n, c.block n = .copied
  closeOut : c.closeOut = true
  closeIn : c.closeIn = true
  mkdir : c.mkdir = true
  mknod : c.mknod = true
  lchown : c.lchown = true
  chmod : c.chmod = true
  utime : c.utime = true

/-- An object of the same type, with the same content if it is a file or a link. -/
structure CopyOf (n n' : Inode) : Prop where
  kind : n'.mode.kind = n.mode.kind
  data : n.mode.kind = .reg ∨ n.mode.kind = .lnk → n'.data = n.data

theorem CopyOf.trans {n n' n'' : Inode} (h : CopyOf n n') (hkind : n''.mode.kind = n'.mode.kind)
    (hdata : n''.data = n'.data) : CopyOf n n'' :=
  ⟨hkind.trans h.kind, fun hn => hdata.trans (h.data hn)⟩

theorem copyBlocks_works {c : Calls} (hc : c.Work) (src dst : List UInt8) (n : Nat) :
    (copyBlocks c src dst n).1 = true := by
  fun_induction copyBlocks c src dst n with
  | case1 => rfl
  | case2 dst n s src hblock =>
    rw [hc.block] at hblock
    cases hblock
  | case3 dst n s src bufSize k hblock =>
    rw [hc.block] at hblock
    cases hblock
  | case4 dst n s src bufSize hcopied block res rest hrec ih =>
    rw [hrec] at ih
    exact ih

theorem copyMMap_works {c : Calls} (hc : c.Work) (src : List UInt8) :
    copyMMap c src = (true, src) := by
  have hres : (copyMMap c src).1 = true := by
    simp [copyMMap, hc.lseek, hc.ftruncate, copyBlocks_works hc]
  exact Prod.ext hres (copyMMap_spec c src hres)

theorem create_of_free {fs : FS E} {p : Text} (hfree : fs.lookup p = none)
    (hdir : fs.hasDir (fs.entry p) = true) (n : Inode) :
    fs.create p n = some (fs.alloc (fs.entry p) n) := by
  simp [FS.create, hfree, hdir]

/-- The new object and its inode, before it gets its attributes. -/
theorem copyObject_works {c : Calls} (hc : c.Work) {fs : FS E} {i : Nat} {p : Text}
    (hi : i < fs.next) (hfree : fs.lookup p = none) (hdir : fs.hasDir (fs.entry p) = true)
    (hsock : (fs.inode i).mode.kind ≠ .sock) :
    ∃ fs₁, copyObject c (some i) (fs.stat i) p fs = (true, fs₁) ∧ Created fs fs₁ p ∧
      CopyOf (fs.inode i) (fs₁.inode fs.next) := by
  have hcreate := create_of_free hfree hdir
  have hnew (n : Inode) : Created fs (fs.alloc (fs.entry p) n) p := Created.of_create (hcreate n)
  have hmade (n : Inode) (h : CopyOf (fs.inode i) n) :
      ∃ fs₁, creating true p n fs = (true, fs₁) ∧ Created fs fs₁ p ∧
        CopyOf (fs.inode i) (fs₁.inode fs.next) :=
    ⟨_, by simp [creating, attempt, hcreate], hnew n, by simpa using h⟩
  unfold copyObject
  show ∃ fs₁, (match (fs.inode i).mode.kind with
    | .lnk => copyLnk c (some i) p fs
    | .reg => copyReg c (some i) (fs.stat i) p fs
    | .dir => copyDir c p fs
    | .blk | .chr | .fifo => copyNode c (fs.stat i) p fs
    | .sock => (false, fs)) = (true, fs₁) ∧ _
  cases hkind : (fs.inode i).mode.kind with
  | reg =>
    refine ⟨_, ?_, (hnew (c.creator.file 0o200)).modify fun n =>
      { n with data := n.data ++ (fs.inode i).data }, ?_⟩
    · have hne : i ≠ fs.next := by omega
      simp [copyReg, attempt, hc.openSrc, hcreate, hc.openDst, hc.fstat, verifySource, FS.stat,
        hne, copyMMap_works hc, hc.closeOut, hc.closeIn, FS.append]
    · exact ⟨by simp [Creator.file, hkind], fun _ => by simp [Creator.file]⟩
  | lnk =>
    simp only [copyLnk, attempt, hc.readlink, hc.symlink, if_true]
    exact hmade _ ⟨by simp [hkind], fun _ => rfl⟩
  | dir =>
    simp only [copyDir, hc.mkdir]
    exact hmade _ ⟨by simp [hkind], by simp [hkind]⟩
  | chr =>
    simp only [copyNode, hc.mknod]
    exact hmade _ ⟨rfl, by simp [hkind]⟩
  | blk =>
    simp only [copyNode, hc.mknod]
    exact hmade _ ⟨rfl, by simp [hkind]⟩
  | fifo =>
    simp only [copyNode, hc.mknod]
    exact hmade _ ⟨rfl, by simp [hkind]⟩
  | sock => exact absurd hkind hsock

theorem onPath_works {fs fs₁ : FS E} {p : Text} {works : Bool} {f : FS E → Nat → FS E}
    (h : Created fs fs₁ p) (hworks : works = true) :
    onPath works p f fs₁ = (true, f fs₁ fs.next) := by
  simp [onPath, attempt, hworks, h.lookup]

/-- **A copy works** where the directory is there and the name is free. -/
theorem copy_works {c : Calls} (hc : c.Work) {fs : FS E} {i : Nat} {p : Text}
    (hi : i < fs.next) (hfree : fs.lookup p = none) (hdir : fs.hasDir (fs.entry p) = true)
    (hsock : (fs.inode i).mode.kind ≠ .sock) :
    ∃ fs', copy c (some i) (fs.stat i) p fs = (true, fs') ∧ Created fs fs' p ∧
      CopyOf (fs.inode i) (fs'.inode fs.next) := by
  obtain ⟨fs₁, hobj, hnew, hcopy⟩ := copyObject_works hc hi hfree hdir hsock
  have hchown : Created fs (fs₁.chown fs.next (fs.stat i).uid (fs.stat i).gid) p := hnew.modify _
  have hsock : ¬ (fs.stat i).mode.kind = .sock := hsock
  unfold copy setModes setTime
  rw [if_neg hsock, hobj]
  simp only [onPath_works hnew hc.lchown]
  by_cases hlnk : (fs.stat i).mode.kind = .lnk
  · simp only [if_pos hlnk]
    exact ⟨_, rfl, hchown, hcopy.trans (by simp [FS.chown]) (by simp [FS.chown])⟩
  · have hchmod : Created fs ((fs₁.chown fs.next (fs.stat i).uid (fs.stat i).gid).chmod fs.next
        (fs.stat i).mode.perm) p := hchown.modify _
    simp only [if_neg hlnk, onPath_works hchown hc.chmod, onPath_works hchmod hc.utime]
    refine ⟨_, rfl, hchmod.modify _, hcopy.trans ?_ ?_⟩
    · simp [FS.utime, FS.chown, FS.chmod]
    · simp [FS.utime, FS.chown, FS.chmod]

/-- Without its directory nothing can be copied. -/
theorem copy_fails (c : Calls) {fs : FS E} {i : Nat} {p : Text}
    (hdir : fs.hasDir (fs.entry p) = false) (hsock : (fs.inode i).mode.kind ≠ .sock) :
    (copy c (some i) (fs.stat i) p fs).1 = false := by
  have hcreate (n : Inode) : fs.create p n = none := by simp [FS.create, hdir]
  have hattempt (works : Bool) (n : Inode) : attempt works (fs.create p n) = none := by
    rw [hcreate]
    cases works <;> rfl
  have hmade (works : Bool) (n : Inode) : creating works p n fs = (false, fs) := by
    simp [creating, hattempt]
  have hobj : (copyObject c (some i) (fs.stat i) p fs).1 = false := by
    unfold copyObject
    split
    · unfold copyLnk
      split
      · rfl
      · rw [hmade]
    · unfold copyReg
      split
      · rfl
      · rw [hattempt]
    · rw [copyDir, hmade]
    · rw [copyNode, hmade]
    · rw [copyNode, hmade]
    · rw [copyNode, hmade]
    · rfl
  have hsock : ¬ (fs.stat i).mode.kind = .sock := hsock
  unfold copy
  rw [if_neg hsock]
  split
  · rfl
  · rename_i hrun
    rw [hrun] at hobj
    cases hobj

end UnifyCopy
