import UtilVserver.Lib.CString
import Mathlib.Logic.Function.Basic

/-!
# Directory entries and inodes

A file system is a map from directory entries to inodes.  Several path strings may lead to one
entry, several entries may name one inode.

* `FS` — the state; no entry names an inode that is still to be allocated.
* `lstat`, `unlink`, `link`, `rename`, `create`, `mkstemp` — the calls.  They give none when the
  state makes them fail, and then they have no effect.
* `attempt` — a call that may also fail for reasons outside the state.

Directories are created but neither moved nor removed, so the entry of a path is fixed.

Principal results: `unlink_eq_some`, `link_eq_some`, `rename_eq_some`, `mkstemp_eq_some` (what a
call that succeeds has done to the entries).
-/

set_option autoImplicit false

namespace FileSystem

open CString

inductive Kind where
  | reg | dir | lnk | chr | blk | fifo | sock
  deriving DecidableEq, Repr

/-- `st_mode`: the type and the twelve permission bits. -/
structure Mode where
  kind : Kind
  perm : BitVec 12
  deriving DecidableEq, Repr

/-- What an inode number stands for. -/
structure Inode where
  dev : Nat
  mode : Mode
  uid : Nat
  gid : Nat
  rdev : Nat
  /-- Times in whole seconds. -/
  atime : Int
  mtime : Int
  /-- The content, or the target of a symbolic link. -/
  data : List UInt8
  /-- The size of what is neither a file nor a link. -/
  extent : Nat
  flags : BitVec 32
  deriving DecidableEq

def Inode.size (n : Inode) : Nat :=
  match n.mode.kind with
  | .reg | .lnk => n.data.length
  | _ => n.extent

/-- The inode without its flags and its access time. -/
def Inode.plain (n : Inode) : Inode := { n with flags := 0, atime := 0 }

/-- The same mode, owner, modification time and content. -/
structure Inode.Same (n n' : Inode) : Prop where
  mode : n.mode = n'.mode
  uid : n.uid = n'.uid
  gid : n.gid = n'.gid
  mtime : n.mtime = n'.mtime
  data : n.data = n'.data

/-- Who creates a file, where and when. -/
structure Creator where
  dev : Nat
  uid : Nat
  gid : Nat
  now : Int

/-- The inode of a new file. -/
def Creator.file (c : Creator) (perm : BitVec 12) : Inode :=
  { dev := c.dev, mode := ⟨.reg, perm⟩, uid := c.uid, gid := c.gid, rdev := 0, atime := c.now,
    mtime := c.now, data := [], extent := 0, flags := 0 }

/-- `struct stat`. -/
structure Stat where
  dev : Nat
  ino : Nat
  mode : Mode
  uid : Nat
  gid : Nat
  rdev : Nat
  size : Nat
  atime : Int
  mtime : Int
  deriving DecidableEq

structure FS (E : Type) where
  /-- The entry a path leads to. -/
  entry : Text → E
  /-- The directory an entry is in. -/
  dirOf : E → E
  names : E → Option Nat
  inode : Nat → Inode
  /-- The next inode to allocate. -/
  next : Nat
  named : ∀ e i, names e = some i → i < next

namespace FS

variable {E : Type}

def lookup (fs : FS E) (p : Text) : Option Nat := fs.names (fs.entry p)

def stat (fs : FS E) (i : Nat) : Stat :=
  let n := fs.inode i
  { dev := n.dev, ino := i, mode := n.mode, uid := n.uid, gid := n.gid, rdev := n.rdev,
    size := n.size, atime := n.atime, mtime := n.mtime }

def isDir (fs : FS E) (i : Nat) : Bool := (fs.inode i).mode.kind = .dir

/-- The directory of the entry exists. -/
def hasDir (fs : FS E) (e : E) : Bool := (fs.names (fs.dirOf e)).any fs.isDir

/-- A file that can be read and written. -/
def isReg (fs : FS E) (i : Nat) : Bool := (fs.inode i).mode.kind = .reg

/-- An inode that is still to be allocated has no name. -/
theorem names_ne_of_le {fs : FS E} {i : Nat} (h : fs.next ≤ i) (e : E) : fs.names e ≠ some i := by
  intro he
  have := fs.named e i he
  omega

/-! ## Changes of the state -/

/-- Change the inode. -/
def modify (fs : FS E) (i : Nat) (f : Inode → Inode) : FS E :=
  { fs with inode := Function.update fs.inode i (f (fs.inode i)) }

section

variable (fs : FS E)

@[simp] theorem inode_modify (i : Nat) (f : Inode → Inode) :
    (fs.modify i f).inode = Function.update fs.inode i (f (fs.inode i)) := rfl

end

/-- Write at the end of the file. -/
def append (fs : FS E) (i : Nat) (bs : List UInt8) : FS E :=
  fs.modify i fun n => { n with data := n.data ++ bs }

def chown (fs : FS E) (i uid gid : Nat) : FS E :=
  fs.modify i fun n => { n with uid := uid, gid := gid }

def chmod (fs : FS E) (i : Nat) (perm : BitVec 12) : FS E :=
  fs.modify i fun n => { n with mode := { n.mode with perm := perm } }

def utime (fs : FS E) (i : Nat) (atime mtime : Int) : FS E :=
  fs.modify i fun n => { n with atime := atime, mtime := mtime }

theorem append_nil (fs : FS E) (i : Nat) : fs.append i [] = fs := by
  simp [append, modify]

theorem append_append (fs : FS E) (i : Nat) (bs bs' : List UInt8) :
    (fs.append i bs).append i bs' = fs.append i (bs ++ bs') := by
  simp [append, modify, List.append_assoc]

/-! ## What is kept -/

/-- Later state: old inodes are as they were, up to flags and access times. -/
structure Extends (fs fs' : FS E) : Prop where
  entry : fs'.entry = fs.entry
  dirOf : fs'.dirOf = fs.dirOf
  next_le : fs.next ≤ fs'.next
  inode : ∀ i < fs.next, (fs'.inode i).plain = (fs.inode i).plain

namespace Extends

variable {fs fs₁ fs₂ : FS E}

theorem refl (fs : FS E) : Extends fs fs := ⟨rfl, rfl, Nat.le_refl _, fun _ _ => rfl⟩

theorem size (h : Extends fs fs₁) {i : Nat} (hi : i < fs.next) :
    (fs₁.inode i).size = (fs.inode i).size := by
  have hplain : (fs₁.inode i).plain.size = (fs.inode i).plain.size := by rw [h.inode i hi]
  exact hplain

theorem same (h : Extends fs fs₁) {i : Nat} (hi : i < fs.next) :
    (fs₁.inode i).Same (fs.inode i) := by
  have hplain := h.inode i hi
  simp only [Inode.plain, Inode.mk.injEq] at hplain
  obtain ⟨-, hmode, huid, hgid, -, -, hmtime, hdata, -⟩ := hplain
  exact ⟨hmode, huid, hgid, hmtime, hdata⟩

theorem trans (h : Extends fs fs₁) (h' : Extends fs₁ fs₂) : Extends fs fs₂ where
  entry := h'.entry.trans h.entry
  dirOf := h'.dirOf.trans h.dirOf
  next_le := Nat.le_trans h.next_le h'.next_le
  inode i hi := (h'.inode i (Nat.lt_of_lt_of_le hi h.next_le)).trans (h.inode i hi)

/-- New inodes may change. -/
theorem modify_new (h : Extends fs fs₁) {i : Nat} (hi : fs.next ≤ i) (f : Inode → Inode) :
    Extends fs (fs₁.modify i f) := by
  refine ⟨h.entry, h.dirOf, h.next_le, fun j hj => ?_⟩
  rw [inode_modify, Function.update_of_ne (by omega)]
  exact h.inode j hj

/-- Flags and access times may change. -/
theorem modify_plain (h : Extends fs fs₁) (i : Nat) {f : Inode → Inode}
    (hf : ∀ n, (f n).plain = n.plain) : Extends fs (fs₁.modify i f) := by
  refine ⟨h.entry, h.dirOf, h.next_le, fun j hj => ?_⟩
  rw [inode_modify]
  by_cases hji : j = i
  · subst hji
    rw [Function.update_self, hf]
    exact h.inode j hj
  · rw [Function.update_of_ne hji]
    exact h.inode j hj

end Extends

variable [DecidableEq E]

/-- Remove the entry. -/
def clear (fs : FS E) (e : E) : FS E :=
  { fs with
    names := Function.update fs.names e none
    named := by
      intro e' i h
      by_cases he : e' = e
      · simp [he] at h
      · rw [Function.update_of_ne he] at h
        exact fs.named e' i h }

/-- Let the entry name the inode. -/
def setName (fs : FS E) (e : E) (i : Nat) : FS E :=
  { fs with
    names := Function.update fs.names e (some i)
    next := max fs.next (i + 1)
    named := by
      intro e' j h
      by_cases he : e' = e
      · simp only [he, Function.update_self, Option.some.injEq] at h
        show j < max fs.next (i + 1)
        omega
      · rw [Function.update_of_ne he] at h
        have hj := fs.named e' j h
        show j < max fs.next (i + 1)
        omega }

/-- Let the entry name a new inode. -/
def alloc (fs : FS E) (e : E) (n : Inode) : FS E :=
  (fs.modify fs.next fun _ => n).setName e fs.next

/-! ## The calls -/

/-- A call that may fail for reasons outside the state. -/
def attempt {α : Type} (works : Bool) (r : Option α) : Option α := if works then r else none

def lstat (fs : FS E) (p : Text) : Option Stat := (fs.lookup p).map fs.stat

def unlink (fs : FS E) (p : Text) : Option (FS E) :=
  (fs.lookup p).bind fun i => if fs.isDir i then none else some (fs.clear (fs.entry p))

/-- `unlink` whose result nobody looks at. -/
def tryUnlink (works : Bool) (p : Text) (fs : FS E) : FS E :=
  (attempt works (fs.unlink p)).getD fs

/-- `link` to the inode `i`. -/
def linkIno (fs : FS E) (i : Nat) (p : Text) : Option (FS E) :=
  if fs.isDir i || (fs.lookup p).isSome || !fs.hasDir (fs.entry p) then none
  else some (fs.setName (fs.entry p) i)

def link (fs : FS E) (old new : Text) : Option (FS E) :=
  (fs.lookup old).bind fun i => fs.linkIno i new

/-- `rename` of what is no directory; two names of one inode are left alone. -/
def rename (fs : FS E) (old new : Text) : Option (FS E) :=
  (fs.lookup old).bind fun i =>
    if fs.isDir i || !fs.hasDir (fs.entry new) then none
    else if fs.lookup new = some i then some fs
    else if (fs.lookup new).any fs.isDir then none
    else some ((fs.clear (fs.entry old)).setName (fs.entry new) i)

/-- Create `p`, which must not exist. -/
def create (fs : FS E) (p : Text) (n : Inode) : Option (FS E) :=
  if (fs.lookup p).isSome || !fs.hasDir (fs.entry p) then none
  else some (fs.alloc (fs.entry p) n)

/-- `mkstemp`: the template with the letters found for its `XXXXXX`. -/
def mkstemp (fs : FS E) (template : Text) (letters : Option Text) (n : Inode) :
    Option (Text × FS E) :=
  letters.bind fun xs => (fs.create (template ++ xs) n).map fun fs' => (template ++ xs, fs')

/-! ## What they do to the entries -/

section Lemmas

variable (fs : FS E)

@[simp] theorem names_clear (e : E) : (fs.clear e).names = Function.update fs.names e none := rfl
@[simp] theorem entry_clear (e : E) : (fs.clear e).entry = fs.entry := rfl

@[simp] theorem names_setName (e : E) (i : Nat) :
    (fs.setName e i).names = Function.update fs.names e (some i) := rfl
@[simp] theorem entry_setName (e : E) (i : Nat) : (fs.setName e i).entry = fs.entry := rfl

@[simp] theorem names_alloc (e : E) (n : Inode) :
    (fs.alloc e n).names = Function.update fs.names e (some fs.next) := rfl
@[simp] theorem entry_alloc (e : E) (n : Inode) : (fs.alloc e n).entry = fs.entry := rfl
@[simp] theorem inode_alloc (e : E) (n : Inode) :
    (fs.alloc e n).inode = Function.update fs.inode fs.next n := rfl

end Lemmas

variable {fs fs' : FS E}

theorem attempt_eq_some {α : Type} {works : Bool} {r : Option α} {a : α} :
    attempt works r = some a ↔ works = true ∧ r = some a := by
  cases works <;> simp [attempt]

theorem unlink_eq_some {p : Text} (h : fs.unlink p = some fs') :
    fs' = fs.clear (fs.entry p) ∧ ∃ i, fs.lookup p = some i ∧ fs.isDir i = false := by
  unfold unlink at h
  obtain ⟨i, hi, h⟩ := Option.bind_eq_some_iff.1 h
  split at h
  · cases h
  · rename_i hdir
    cases h
    exact ⟨rfl, i, hi, Bool.eq_false_iff.2 hdir⟩

/-- A path that names nothing cannot be unlinked. -/
theorem unlink_of_lookup_none {p : Text} (h : fs.lookup p = none) : fs.unlink p = none := by
  simp [unlink, h]

/-- What is no directory can be unlinked. -/
theorem unlink_of_lookup {p : Text} {i : Nat} (h : fs.lookup p = some i)
    (hdir : fs.isDir i = false) : fs.unlink p = some (fs.clear (fs.entry p)) := by
  simp [unlink, h, hdir]

theorem tryUnlink_of_none {works : Bool} {p : Text} (h : fs.lookup p = none) :
    tryUnlink works p fs = fs := by
  unfold tryUnlink
  rw [unlink_of_lookup_none h]
  cases works <;> rfl

theorem tryUnlink_of_some {p : Text} {i : Nat} (h : fs.lookup p = some i)
    (hdir : fs.isDir i = false) : tryUnlink true p fs = fs.clear (fs.entry p) := by
  unfold tryUnlink
  rw [unlink_of_lookup h hdir]
  rfl

theorem tryUnlink_cases (works : Bool) (p : Text) (fs : FS E) :
    tryUnlink works p fs = fs ∨ tryUnlink works p fs = fs.clear (fs.entry p) := by
  unfold tryUnlink
  cases h : attempt works (fs.unlink p) with
  | none => exact Or.inl rfl
  | some fs' => exact Or.inr (unlink_eq_some (attempt_eq_some.1 h).2).1

/-- Other entries do not notice. -/
theorem lookup_tryUnlink_of_ne {works : Bool} {p q : Text} (h : fs.entry q ≠ fs.entry p) :
    (tryUnlink works p fs).lookup q = fs.lookup q := by
  obtain heq | heq := tryUnlink_cases works p fs
  · rw [heq]
  · rw [heq]
    show (fs.clear (fs.entry p)).names (fs.entry q) = fs.names (fs.entry q)
    rw [names_clear, Function.update_of_ne h]

theorem linkIno_eq_some {i : Nat} {p : Text} (h : fs.linkIno i p = some fs') :
    fs' = fs.setName (fs.entry p) i ∧ fs.isDir i = false ∧ fs.lookup p = none ∧
      fs.hasDir (fs.entry p) = true := by
  unfold linkIno at h
  split at h
  · cases h
  · rename_i hcond
    cases h
    simp only [Bool.or_eq_true, Bool.not_eq_true', not_or, Bool.not_eq_true,
      Option.isSome_eq_false_iff, Option.isNone_iff_eq_none, Bool.not_eq_false] at hcond
    exact ⟨rfl, hcond.1.1, hcond.1.2, hcond.2⟩

theorem link_eq_some {old new : Text} (h : fs.link old new = some fs') :
    ∃ i, fs.lookup old = some i ∧ fs.lookup new = none ∧
      fs' = fs.setName (fs.entry new) i := by
  unfold link at h
  obtain ⟨i, hi, h⟩ := Option.bind_eq_some_iff.1 h
  obtain ⟨rfl, -, hnew, -⟩ := linkIno_eq_some h
  exact ⟨i, hi, hnew, rfl⟩

/-- **A rename that succeeds moves the name**, unless both paths name one inode already. -/
theorem rename_eq_some {old new : Text} (h : fs.rename old new = some fs') :
    ∃ i, fs.lookup old = some i ∧ fs.isDir i = false ∧
      (fs.lookup new = some i ∧ fs' = fs ∨
        fs.lookup new ≠ some i ∧
          fs' = (fs.clear (fs.entry old)).setName (fs.entry new) i) := by
  unfold rename at h
  obtain ⟨i, hi, h⟩ := Option.bind_eq_some_iff.1 h
  split at h
  · cases h
  · rename_i hcond
    simp only [Bool.or_eq_true, not_or, Bool.not_eq_true] at hcond
    refine ⟨i, hi, hcond.1, ?_⟩
    split at h
    · rename_i hsame
      cases h
      exact Or.inl ⟨hsame, rfl⟩
    · rename_i hsame
      split at h
      · cases h
      · cases h
        exact Or.inr ⟨hsame, rfl⟩

theorem create_eq_some {p : Text} {n : Inode} (h : fs.create p n = some fs') :
    fs.lookup p = none ∧ fs' = fs.alloc (fs.entry p) n := by
  unfold create at h
  split at h
  · cases h
  · rename_i hcond
    simp only [Bool.or_eq_true, not_or, Bool.not_eq_true, Option.isSome_eq_false_iff,
      Option.isNone_iff_eq_none] at hcond
    cases h
    exact ⟨hcond.1, rfl⟩

/-- **`mkstemp` creates a name that was not there.** -/
theorem mkstemp_eq_some {template tmp : Text} {letters : Option Text} {n : Inode}
    (h : fs.mkstemp template letters n = some (tmp, fs')) :
    (∃ xs, tmp = template ++ xs) ∧ fs.lookup tmp = none ∧ fs' = fs.alloc (fs.entry tmp) n := by
  unfold mkstemp at h
  obtain ⟨xs, -, h⟩ := Option.bind_eq_some_iff.1 h
  obtain ⟨fs₁, hcreate, h⟩ := Option.map_eq_some_iff.1 h
  cases h
  obtain ⟨hfree, rfl⟩ := create_eq_some hcreate
  exact ⟨⟨xs, rfl⟩, hfree, rfl⟩

namespace Extends

variable {fs₁ : FS E}

theorem clear (h : Extends fs fs₁) (e : E) : Extends fs (fs₁.clear e) :=
  ⟨h.entry, h.dirOf, h.next_le, h.inode⟩

theorem setName (h : Extends fs fs₁) (e : E) (i : Nat) : Extends fs (fs₁.setName e i) :=
  ⟨h.entry, h.dirOf, Nat.le_trans h.next_le (Nat.le_max_left _ _), h.inode⟩

theorem alloc (h : Extends fs fs₁) (e : E) (n : Inode) : Extends fs (fs₁.alloc e n) :=
  (h.modify_new h.next_le _).setName e fs₁.next

theorem tryUnlink (h : Extends fs fs₁) (works : Bool) (p : Text) :
    Extends fs (tryUnlink works p fs₁) := by
  obtain heq | heq := tryUnlink_cases works p fs₁
  · rw [heq]
    exact h
  · rw [heq]
    exact h.clear _

end Extends

/-! ## A new object -/

/-- The path was free and names the new inode now; nothing else has changed. -/
structure Created (fs fs₁ : FS E) (p : Text) : Prop where
  free : fs.lookup p = none
  extends_ : Extends fs fs₁
  names : fs₁.names = Function.update fs.names (fs.entry p) (some fs.next)

namespace Created

variable {fs₁ : FS E} {p : Text}

theorem of_create {n : Inode} (h : fs.create p n = some fs₁) : Created fs fs₁ p := by
  obtain ⟨hfree, rfl⟩ := create_eq_some h
  exact ⟨hfree, (Extends.refl fs).alloc _ _, rfl⟩

theorem modify (h : Created fs fs₁ p) (f : Inode → Inode) :
    Created fs (fs₁.modify fs.next f) p :=
  ⟨h.free, h.extends_.modify_new (Nat.le_refl _) f, h.names⟩

theorem lookup (h : Created fs fs₁ p) : fs₁.lookup p = some fs.next := by
  show fs₁.names (fs₁.entry p) = some fs.next
  rw [h.extends_.entry, h.names, Function.update_self]

theorem names_of_ne (h : Created fs fs₁ p) {e : E} (he : e ≠ fs.entry p) :
    fs₁.names e = fs.names e := by
  rw [h.names, Function.update_of_ne he]

/-- A path that existed does not lead to the new object. -/
theorem entry_ne (h : Created fs fs₁ p) {q : Text} {i : Nat} (hq : fs.lookup q = some i) :
    fs.entry q ≠ fs.entry p := by
  intro heq
  have hq : fs.names (fs.entry q) = some i := hq
  have hfree : fs.names (fs.entry p) = none := h.free
  rw [heq, hfree] at hq
  cases hq

end Created

/-- Names have been added, none has gone or changed. -/
structure Grows (fs fs' : FS E) : Prop where
  extends_ : Extends fs fs'
  kept : ∀ e i, fs.names e = some i → fs'.names e = some i

namespace Grows

variable {fs₁ fs₂ : FS E}

omit [DecidableEq E] in
theorem refl (fs : FS E) : Grows fs fs := ⟨Extends.refl fs, fun _ _ h => h⟩

omit [DecidableEq E] in
theorem trans (h : Grows fs fs₁) (h' : Grows fs₁ fs₂) : Grows fs fs₂ :=
  ⟨h.extends_.trans h'.extends_, fun e i hi => h'.kept e i (h.kept e i hi)⟩

theorem of_created {p : Text} (h : Created fs fs₁ p) : Grows fs fs₁ := by
  refine ⟨h.extends_, fun e i hi => ?_⟩
  rw [h.names_of_ne, hi]
  rintro rfl
  have hfree : fs.names (fs.entry p) = none := h.free
  rw [hfree] at hi
  cases hi

omit [DecidableEq E] in
theorem lookup (h : Grows fs fs₁) {p : Text} {i : Nat} (hp : fs.lookup p = some i) :
    fs₁.lookup p = some i := by
  show fs₁.names (fs₁.entry p) = some i
  rw [h.extends_.entry]
  exact h.kept _ _ hp

end Grows

end FS

end FileSystem
