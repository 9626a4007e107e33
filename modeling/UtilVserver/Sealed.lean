import UtilVserver.DeUnify
import UtilVserver.UnifyCopy
import UtilVserver.Mkdir

/-!
# Sealed files

A file with both flags that `Unify_unify` sets can be unlinked but not written.

* `Sealed`, `Seals` — such a file, and a change of the state that unseals none.
* `Made` — a new regular file, with all old inodes as they were.
* `Adds` — new directories, each with one name.

Principal results: `unify_seals`, `copy_made`, `deUnify_seals` and `mkdirRecursive_adds`.
-/

set_option autoImplicit false

namespace Sealing

open CString FileSystem FS
open Unify (Outcome ILI)

variable {E : Type}

/-- Immutable, but it can be unlinked. -/
def Sealed (fs : FS E) (i : Nat) : Prop := (fs.inode i).flags &&& ILI = ILI

/-- No file is unsealed. -/
structure Seals (fs fs' : FS E) : Prop where
  next_le : fs.next ≤ fs'.next
  kept : ∀ i < fs.next, Sealed fs i → Sealed fs' i

namespace Seals

variable {fs fs₁ fs₂ : FS E}

theorem refl (fs : FS E) : Seals fs fs := ⟨Nat.le_refl _, fun _ _ h => h⟩

theorem trans (h : Seals fs fs₁) (h' : Seals fs₁ fs₂) : Seals fs fs₂ :=
  ⟨Nat.le_trans h.next_le h'.next_le,
    fun i hi hs => h'.kept i (Nat.lt_of_lt_of_le hi h.next_le) (h.kept i hi hs)⟩

/-- Changes of an inode that leave it sealed. -/
theorem modify (h : Seals fs fs₁) (i : Nat) {f : Inode → Inode}
    (hf : ∀ n : Inode, n.flags &&& ILI = ILI → (f n).flags &&& ILI = ILI) :
    Seals fs (fs₁.modify i f) := by
  refine ⟨h.next_le, fun j hj hs => ?_⟩
  have hs := h.kept j hj hs
  unfold Sealed at hs ⊢
  rw [inode_modify, Function.update_apply]
  split
  · rename_i heq
    exact hf _ (by rwa [heq] at hs)
  · exact hs

/-- Changes of a new inode. -/
theorem modify_new (h : Seals fs fs₁) {i : Nat} (hi : fs.next ≤ i) (f : Inode → Inode) :
    Seals fs (fs₁.modify i f) := by
  refine ⟨h.next_le, fun j hj hs => ?_⟩
  have hs := h.kept j hj hs
  unfold Sealed at hs ⊢
  rwa [inode_modify, Function.update_of_ne (by omega)]

variable [DecidableEq E]

theorem clear (h : Seals fs fs₁) (e : E) : Seals fs (fs₁.clear e) := ⟨h.next_le, h.kept⟩

theorem setName (h : Seals fs fs₁) (e : E) (i : Nat) : Seals fs (fs₁.setName e i) :=
  ⟨Nat.le_trans h.next_le (Nat.le_max_left _ _), h.kept⟩

theorem alloc (h : Seals fs fs₁) (e : E) (n : Inode) : Seals fs (fs₁.alloc e n) :=
  (h.modify_new h.next_le _).setName e fs₁.next

theorem tryUnlink (h : Seals fs fs₁) (works : Bool) (p : Text) :
    Seals fs (tryUnlink works p fs₁) := by
  obtain heq | heq := tryUnlink_cases works p fs₁
  · rw [heq]
    exact h
  · rw [heq]
    exact h.clear _

end Seals

variable [DecidableEq E]

/-! ## `Unify_unify` -/

theorem or_ILI (flags : BitVec 32) : (flags ||| ILI) &&& ILI = ILI := by
  apply BitVec.eq_of_getLsbD_eq
  intro b _
  rw [BitVec.getLsbD_and, BitVec.getLsbD_or]
  cases ILI.getLsbD b <;> simp

omit [DecidableEq E] in
/-- The flags are set, and no flag is cleared. -/
theorem setILI_seals {fs fs₁ : FS E} {src : Text} (h : Unify.setILI fs src = some fs₁) :
    Seals fs fs₁ ∧ ∀ i, fs.lookup src = some i → Sealed fs₁ i := by
  obtain ⟨i, hi, rfl⟩ := Option.map_eq_some_iff.1 h
  refine ⟨(Seals.refl fs).modify i fun n hn => ?_, fun j hj => ?_⟩
  · show (n.flags ||| ILI) &&& ILI = ILI
    exact or_ILI n.flags
  · obtain rfl : i = j := Option.some.inj (hi.symm.trans hj)
    show ((fs.modify i _).inode i).flags &&& ILI = ILI
    rw [inode_modify, Function.update_self]
    show ((fs.inode i).flags ||| ILI) &&& ILI = ILI
    exact or_ILI (fs.inode i).flags

theorem finish_seals {c : Unify.Calls} {tmpfile : Text} {res res' : Bool} {fs fs₁ fs' : FS E}
    (hseals : Seals fs fs₁) (h : Unify.finish c tmpfile res fs₁ = .returned res' fs') :
    Seals fs fs' := by
  unfold Unify.finish at h
  split at h
  · cases h
    exact hseals.tryUnlink _ _
  · cases h
    exact hseals

theorem linkSource_seals {c : Unify.Calls} {src dst tmpfile : Text} {res : Bool}
    {fs fs₁ fs' : FS E} (hseals : Seals fs fs₁)
    (h : Unify.linkSource c src dst tmpfile fs₁ = .returned res fs') : Seals fs fs' := by
  unfold Unify.linkSource at h
  split at h
  · rename_i fs₂ hlink
    obtain ⟨k, -, -, rfl⟩ := link_eq_some (attempt_eq_some.1 hlink).2
    exact finish_seals (hseals.setName _ _) h
  dsimp only at h
  have hseals := hseals.tryUnlink c.unlinkDst dst
  split at h
  · split at h
    · rename_i fs₂ hback
      obtain ⟨j, -, -, ⟨-, rfl⟩ | ⟨-, rfl⟩⟩ := rename_eq_some (attempt_eq_some.1 hback).2
      · exact finish_seals hseals h
      · exact finish_seals ((hseals.clear _).setName _ _) h
    · cases h
  · exact finish_seals hseals h

/-- **`Unify_unify` seals its source**, and unseals nothing. -/
theorem unify_seals {c : Unify.Calls} {src dst : Text} {ignoreZero res : Bool} {fs fs' : FS E}
    (h : Unify.unify c src dst ignoreZero fs = .returned res fs') :
    Seals fs fs' ∧ (res = true → ∀ i, fs.lookup src = some i → Sealed fs' i) := by
  unfold Unify.unify at h
  split at h
  · cases h
    exact ⟨Seals.refl fs, fun h => (by cases h)⟩
  rename_i fs₁ hset
  obtain ⟨hseals, hsealed⟩ := setILI_seals (attempt_eq_some.1 hset).2
  have hnext : ∀ i, fs.lookup src = some i → i < fs₁.next := fun i hi =>
    Nat.lt_of_lt_of_le (fs.named _ i hi) hseals.next_le
  suffices hrest : Seals fs₁ fs' from
    ⟨hseals.trans hrest, fun _ i hi => hrest.kept i (hnext i hi) (hsealed i hi)⟩
  have hself := Seals.refl fs₁
  split at h
  · cases h
    exact hself
  split at h
  · exact linkSource_seals hself h
  split at h
  · split at h
    · exact finish_seals hself h
    · rename_i tmpfile fs₂ hmk
      obtain ⟨-, -, rfl⟩ := mkstemp_eq_some hmk
      have halloc := hself.alloc (fs₁.entry tmpfile) (c.creator.file 0o600)
      split at h
      · exact finish_seals halloc h
      · rename_i fs₃ hmoved
        obtain ⟨j, -, -, ⟨-, rfl⟩ | ⟨-, rfl⟩⟩ := rename_eq_some (attempt_eq_some.1 hmoved).2
        · exact linkSource_seals halloc h
        · exact linkSource_seals ((halloc.clear _).setName _ _) h
  · exact linkSource_seals (hself.tryUnlink _ _) h

/-! ## `Unify_copy` -/

/-- A new regular file; all inodes that were there are as they were. -/
structure Made (fs fs₁ : FS E) (p : Text) : Prop extends Created fs fs₁ p where
  regular : (fs₁.inode fs.next).mode.kind = .reg
  same : ∀ i < fs.next, fs₁.inode i = fs.inode i

namespace Made

variable {fs fs₁ : FS E} {p : Text}

theorem of_create {o : Creator} {perm : BitVec 12} (h : fs.create p (o.file perm) = some fs₁) :
    Made fs fs₁ p where
  toCreated := Created.of_create h
  regular := by
    obtain ⟨-, rfl⟩ := create_eq_some h
    rw [inode_alloc, Function.update_self]
    rfl
  same i hi := by
    obtain ⟨-, rfl⟩ := create_eq_some h
    rw [inode_alloc, Function.update_of_ne (by omega)]

theorem modify (h : Made fs fs₁ p) {f : Inode → Inode} (hf : ∀ n, (f n).mode.kind = n.mode.kind) :
    Made fs (fs₁.modify fs.next f) p where
  toCreated := h.toCreated.modify f
  regular := by
    rw [inode_modify, Function.update_self, hf]
    exact h.regular
  same i hi := by
    rw [inode_modify, Function.update_of_ne (by omega)]
    exact h.same i hi

theorem seals (h : Made fs fs₁ p) : Seals fs fs₁ := by
  refine ⟨h.extends_.next_le, fun i hi hs => ?_⟩
  unfold Sealed
  rwa [h.same i hi]

theorem nodir (h : Made fs fs₁ p) : fs₁.isDir fs.next = false := by
  simp [FS.isDir, h.regular]

end Made

theorem onPath_made {fs fs₁ : FS E} {p : Text} {works : Bool} {f : FS E → Nat → FS E}
    (h : Made fs fs₁ p) (hf : Made fs (f fs₁ fs.next) p) :
    Made fs (UnifyCopy.onPath works p f fs₁).2 p := by
  unfold UnifyCopy.onPath
  rw [h.lookup]
  cases works with
  | false => exact h
  | true => exact hf

theorem setModes_made {c : UnifyCopy.Calls} {fs fs₁ : FS E} {p : Text} {st : Stat}
    (h : Made fs fs₁ p) : Made fs (UnifyCopy.setModes c p st fs₁).2 p := by
  have hchown :
      Made fs (UnifyCopy.onPath c.lchown p (fun fs i => fs.chown i st.uid st.gid) fs₁).2 p :=
    onPath_made h (h.modify fun _ => rfl)
  unfold UnifyCopy.setModes
  split <;> rename_i fs₂ hrun <;> rw [hrun] at hchown
  · exact hchown
  · split
    · exact hchown
    · exact onPath_made hchown (hchown.modify fun _ => rfl)

theorem setTime_made {c : UnifyCopy.Calls} {fs fs₁ : FS E} {p : Text} {st : Stat}
    (h : Made fs fs₁ p) : Made fs (UnifyCopy.setTime c p st fs₁).2 p := by
  unfold UnifyCopy.setTime
  split
  · exact h
  · exact onPath_made h (h.modify fun _ => rfl)

theorem copyReg_made (c : UnifyCopy.Calls) (src : Option Nat) (st : Stat) (dst : Text)
    (fs : FS E) : (UnifyCopy.copyReg c src st dst fs).2 = fs ∨
      Made fs (UnifyCopy.copyReg c src st dst fs).2 dst := by
  unfold UnifyCopy.copyReg
  split
  · exact Or.inl rfl
  · split
    · exact Or.inl rfl
    · rename_i hcreate
      have hnew := Made.of_create (attempt_eq_some.1 hcreate).2
      split
      · exact Or.inr hnew
      · exact Or.inr (hnew.modify (f := fun n => { n with data := n.data ++ _ }) fun _ => rfl)

/-- **A copy of a file touches no inode but its own.** -/
theorem copy_made (c : UnifyCopy.Calls) (src : Option Nat) {st : Stat} (dst : Text) (fs : FS E)
    (hkind : st.mode.kind = .reg) : (UnifyCopy.copy c src st dst fs).2 = fs ∨
      Made fs (UnifyCopy.copy c src st dst fs).2 dst := by
  have hreg : UnifyCopy.copyObject c src st dst fs = UnifyCopy.copyReg c src st dst fs := by
    simp only [UnifyCopy.copyObject, hkind]
  have htried := UnifyCopy.copyReg_tried c src st dst fs
  have hmade := copyReg_made c src st dst fs
  rw [← hreg] at htried hmade
  unfold UnifyCopy.copy
  rw [if_neg (by rw [hkind]; decide)]
  split <;> rename_i fs₁ hrun <;> rw [hrun] at htried hmade
  · exact hmade
  have hmade : Made fs fs₁ dst := by
    obtain ⟨hfalse, -⟩ | hnew := htried
    · cases hfalse
    · obtain hsame | hmade := hmade
      · obtain rfl : fs₁ = fs := hsame
        have hnone : fs₁.lookup dst = none := hnew.free
        rw [hnew.lookup] at hnone
        cases hnone
      · exact hmade
  have hmodes : Made fs (UnifyCopy.setModes c dst st fs₁).2 dst := setModes_made hmade
  split <;> rename_i fs₂ hset <;> rw [hset] at hmodes
  · exact Or.inr hmodes
  · exact Or.inr (setTime_made hmodes)

/-! ## `Unify_deUnify` -/

theorem err1_seals {c : DeUnify.Calls} {tmpfile : Text} {res : Bool} {fs fs₁ fs' : FS E}
    (hseals : Seals fs fs₁) (h : DeUnify.err1 c tmpfile fs₁ = .returned res fs') :
    Seals fs fs' := by
  unfold DeUnify.err1 at h
  cases h
  exact hseals.tryUnlink _ _

theorem replace_seals {c : DeUnify.Calls} {dst tmpfile : Text} {res : Bool} {fs fs₁ fs' : FS E}
    (hseals : Seals fs fs₁) (h : DeUnify.replace c dst tmpfile fs₁ = .returned res fs') :
    Seals fs fs' := by
  unfold DeUnify.replace at h
  split at h
  · exact err1_seals hseals h
  rename_i fs₂ hunlink
  obtain ⟨rfl, -⟩ := unlink_eq_some (attempt_eq_some.1 hunlink).2
  split at h
  · cases h
  rename_i fs₃ hrename
  cases h
  obtain ⟨j, -, -, ⟨-, rfl⟩ | ⟨-, rfl⟩⟩ := rename_eq_some (attempt_eq_some.1 hrename).2
  · exact hseals.clear _
  · exact ((hseals.clear _).clear _).setName _ _

theorem complete_seals {c : DeUnify.Calls} {st : Stat} {dst tmpfile : Text} {ok res : Bool}
    {fs fs₁ fs' : FS E} (hseals : Seals fs fs₁)
    (h : DeUnify.complete c st fs.next dst tmpfile (ok, fs₁) = .returned res fs') :
    Seals fs fs' := by
  unfold DeUnify.complete at h
  cases ok with
  | false => exact err1_seals hseals h
  | true =>
    dsimp only at h
    split at h
    · exact err1_seals hseals h
    · exact replace_seals (hseals.modify_new (Nat.le_refl _) _) h

omit [DecidableEq E] in
theorem touch_seals {c : DeUnify.Calls} {fd : Nat} {fs fs₁ : FS E} (hseals : Seals fs fs₁) :
    Seals fs (DeUnify.touch c fd fs₁) := by
  unfold DeUnify.touch
  split
  · exact hseals
  · exact hseals.modify fd fun _ h => h

/-- **`Unify_deUnify` unseals nothing**: the path gets a file of its own. -/
theorem deUnify_seals {c : DeUnify.Calls} {dst : Text} {res : Bool} {fs fs' : FS E}
    (h : DeUnify.deUnify c dst fs = .returned res fs') : Seals fs fs' := by
  have hself := Seals.refl fs
  unfold DeUnify.deUnify at h
  split at h
  · cases h
    exact hself
  rename_i fdSrc _
  split at h
  · cases h
    exact hself
  split at h
  · cases h
    exact hself
  rename_i tmpfile fs₁ hmk
  obtain ⟨-, -, rfl⟩ := mkstemp_eq_some hmk
  have halloc := hself.alloc (fs.entry tmpfile) (c.creator.file 0o600)
  unfold DeUnify.fill at h
  split at h
  · exact err1_seals halloc h
  have hchown := halloc.modify_new (Nat.le_refl _)
    fun n => { n with uid := (fs.stat fdSrc).uid, gid := (fs.stat fdSrc).gid }
  dsimp only at h
  split at h
  · exact err1_seals hchown h
  have hchmod := hchown.modify_new (Nat.le_refl _)
    fun n => { n with mode := { n.mode with perm := (fs.stat fdSrc).mode.perm } }
  have htouch := @touch_seals _ c fdSrc _ _ hchmod
  refine complete_seals ?_ h
  obtain ⟨out, hout, -⟩ := DeUnify.copyLoop_spec c fs.next
    ((((fs.alloc (fs.entry tmpfile) (c.creator.file 0o600)).chown fs.next (fs.stat fdSrc).uid
      (fs.stat fdSrc).gid).chmod fs.next (fs.stat fdSrc).mode.perm).inode fdSrc).data 0 0
    (DeUnify.touch c fdSrc (((fs.alloc (fs.entry tmpfile) (c.creator.file 0o600)).chown fs.next
      (fs.stat fdSrc).uid (fs.stat fdSrc).gid).chmod fs.next (fs.stat fdSrc).mode.perm))
  rw [hout]
  exact htouch.modify_new (Nat.le_refl _) _

/-! ## `mkdirRecursive` -/

/-- New directories, each with one name; nothing else has changed. -/
structure Adds (fs fs' : FS E) : Prop extends Grows fs fs' where
  fresh : ∀ e j, fs'.names e = some j →
    fs.names e = some j ∨ fs.next ≤ j ∧ fs'.isDir j = true
  once : ∀ e e' j, fs.next ≤ j → fs'.names e = some j → fs'.names e' = some j → e = e'
  seals : Seals fs fs'

omit [DecidableEq E] in
theorem isDir_of_extends {fs fs' : FS E} (h : Extends fs fs') {i : Nat} (hi : i < fs.next) :
    fs'.isDir i = fs.isDir i := by
  unfold FS.isDir
  rw [(h.same hi).mode]

namespace Adds

variable {fs fs₁ fs₂ : FS E}

omit [DecidableEq E] in
theorem refl (fs : FS E) : Adds fs fs where
  toGrows := Grows.refl fs
  fresh _ _ h := Or.inl h
  once e _ _ hj he _ := absurd he (names_ne_of_le hj e)
  seals := Seals.refl fs

omit [DecidableEq E] in
theorem trans (h : Adds fs fs₁) (h' : Adds fs₁ fs₂) : Adds fs fs₂ where
  toGrows := h.toGrows.trans h'.toGrows
  fresh e j hj := by
    obtain hold | ⟨hle, hdir⟩ := h'.fresh e j hj
    · obtain hold' | ⟨hle, hdir⟩ := h.fresh e j hold
      · exact Or.inl hold'
      · refine Or.inr ⟨hle, ?_⟩
        rw [isDir_of_extends h'.extends_ (fs₁.named e j hold), hdir]
    · exact Or.inr ⟨Nat.le_trans h.extends_.next_le hle, hdir⟩
  once e e' j hj he he' := by
    -- both names are older than the second change, or neither is
    obtain hold | ⟨hle, -⟩ := h'.fresh e j he
    · obtain hold' | ⟨hle', -⟩ := h'.fresh e' j he'
      · exact h.once e e' j hj hold hold'
      · exact absurd hold (names_ne_of_le hle' e)
    · exact h'.once e e' j hle he he'
  seals := h.seals.trans h'.seals

omit [DecidableEq E] in
/-- Nothing but flags and access times has changed since. -/
theorem of_names (h : Adds fs fs₁) (hext : Extends fs₁ fs₂) (hseals : Seals fs₁ fs₂)
    (hnames : fs₂.names = fs₁.names) : Adds fs fs₂ :=
  h.trans
    { toGrows := ⟨hext, fun e i hi => by rw [hnames, hi]⟩
      fresh := fun e j hj => Or.inl (by rwa [hnames] at hj)
      once := fun e _ j hj he _ => absurd (hnames ▸ he) (names_ne_of_le hj e)
      seals := hseals }

theorem of_create {p : Text} {n : Inode} (hn : n.mode.kind = .dir)
    (h : fs.create p n = some fs₁) : Adds fs fs₁ := by
  have hnew := Created.of_create h
  obtain ⟨-, rfl⟩ := create_eq_some h
  have hname : ∀ e j, (fs.alloc (fs.entry p) n).names e = some j →
      fs.names e = some j ∨ e = fs.entry p ∧ j = fs.next := by
    intro e j hj
    rw [names_alloc, Function.update_apply] at hj
    split at hj
    · rename_i he
      exact Or.inr ⟨he, (Option.some.inj hj).symm⟩
    · exact Or.inl hj
  refine ⟨Grows.of_created hnew, fun e j hj => ?_, fun e e' j hle he he' => ?_,
    (Seals.refl fs).alloc _ _⟩
  · obtain hold | ⟨-, rfl⟩ := hname e j hj
    · exact Or.inl hold
    · refine Or.inr ⟨Nat.le_refl _, ?_⟩
      simp [FS.isDir, hn]
  · obtain hold | ⟨rfl, -⟩ := hname e j he
    · exact absurd hold (names_ne_of_le hle e)
    · obtain hold' | ⟨rfl, -⟩ := hname e' j he'
      · exact absurd hold' (names_ne_of_le hle e')
      · rfl

end Adds

/-- **`mkdirRecursive` adds directories**, each under one name. -/
theorem mkdirRecursive_adds (c : Mkdir.Calls) (path : Text) (fs : FS E) :
    Adds fs (Mkdir.mkdirRecursive c path fs).2 := by
  refine Mkdir.mkdirRecursiveWith_rel (Mkdir.mkdir c) Adds.refl (fun h h' => h.trans h')
    (fun p fs => ?_) path fs
  unfold Mkdir.mkdir
  split
  · exact Adds.refl fs
  · split
    · exact Adds.refl fs
    · split
      · exact Adds.refl fs
      · rename_i hcreate
        exact Adds.of_create rfl (attempt_eq_some.1 hcreate).2

end Sealing
