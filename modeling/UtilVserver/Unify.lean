import UtilVserver.Lib.FileSystem

/-!
# `Unify_unify`

The destination is replaced by a hard link to the source; a backup under a temporary name is moved
back when the link fails.

* `isUnified`, `isUnifyable` — the predicates of `unify.h` on two files.
* `Calls` — which of the calls work, as far as the state lets them.
* `Outcome` — the function returns, or ends the process when the backup cannot be moved back.
* `unify`, with `linkSource` and `finish` for the code at the labels.

Principal result: `unify_atomic`.
-/

set_option autoImplicit false

namespace Unify

open CString FileSystem FS

variable {E : Type}

/-- `Unify_isUnified`. -/
def isUnified (lhs rhs : Stat) : Bool := lhs.dev = rhs.dev && lhs.ino = rhs.ino

/-- `Unify_isUnifyable`; some programs let the user ignore the time. -/
def isUnifyable (ignoreMtime : Bool) (lhs rhs : Stat) : Bool :=
  lhs.dev = rhs.dev && lhs.ino ≠ rhs.ino && lhs.mode = rhs.mode && lhs.uid = rhs.uid &&
    lhs.gid = rhs.gid && lhs.size = rhs.size && (ignoreMtime || lhs.mtime = rhs.mtime)

theorem isUnifyable_iff {ignoreMtime : Bool} {lhs rhs : Stat} :
    isUnifyable ignoreMtime lhs rhs = true ↔ lhs.dev = rhs.dev ∧ lhs.ino ≠ rhs.ino ∧
      lhs.mode = rhs.mode ∧ lhs.uid = rhs.uid ∧ lhs.gid = rhs.gid ∧ lhs.size = rhs.size ∧
      (ignoreMtime = false → lhs.mtime = rhs.mtime) := by
  cases ignoreMtime <;> simp [isUnifyable, and_assoc]

/-- Which calls work; `mkstemp` is given by the letters it finds. -/
structure Calls where
  vcSetIattr : Bool
  sigprocmask : Bool
  mkstemp : Option Text
  creator : Creator
  renameAway : Bool
  unlinkEmpty : Bool
  link : Bool
  unlinkDst : Bool
  renameBack : Bool
  unlinkTmp : Bool

inductive Outcome (E : Type) where
  | returned (res : Bool) (fs : FS E)
  /-- `_exit(1)`. -/
  | exited (fs : FS E)

/-- `VC_IATTR_IUNLINK|VC_IATTR_IMMUTABLE`. -/
def ILI : BitVec 32 := 0x00020000#32 ||| 0x00040000#32

/-- `vc_set_iattr(src, 0, ILI, ILI)`. -/
def setILI (fs : FS E) (src : Text) : Option (FS E) :=
  (fs.lookup src).map fun i => fs.modify i fun n => { n with flags := n.flags ||| ILI }

theorem setILI_eq_some {fs fs₁ : FS E} {src : Text} (h : setILI fs src = some fs₁) :
    fs₁.names = fs.names ∧ Extends fs fs₁ ∧ ∃ i, fs.lookup src = some i := by
  obtain ⟨i, hi, rfl⟩ := Option.map_eq_some_iff.1 h
  exact ⟨rfl, (Extends.refl fs).modify_plain i fun _ => rfl, i, hi⟩

variable [DecidableEq E]

/-- The code at the label `err`; an empty name stands for no temporary file. -/
def finish (c : Calls) (tmpfile : Text) (res : Bool) (fs : FS E) : Outcome E :=
  if tmpfile ≠ [] then .returned res (tryUnlink c.unlinkTmp tmpfile fs)
  else .returned res fs

/-- From `link(src, dst)` on. -/
def linkSource (c : Calls) (src dst tmpfile : Text) (fs : FS E) : Outcome E :=
  match attempt c.link (fs.link src dst) with
  | some fs => finish c tmpfile true fs
  | none =>
    let fs := tryUnlink c.unlinkDst dst fs
    if tmpfile ≠ [] then
      match attempt c.renameBack (fs.rename tmpfile dst) with
      | some fs => finish c tmpfile false fs
      | none => .exited fs
    else finish c tmpfile false fs

/-- The template of the temporary name, without its `XXXXXX`. -/
def template (dst : Text) : Text := dst ++ [';']

/-- `Unify_unify`. -/
def unify (c : Calls) (src dst : Text) (ignoreZero : Bool) (fs : FS E) : Outcome E :=
  match attempt c.vcSetIattr (setILI fs src) with
  | none => .returned false fs
  | some fs =>
    if !c.sigprocmask then .returned false fs
    else
      match fs.lstat dst with
      | none => linkSource c src dst [] fs
      | some st =>
        if 0 < st.size ∨ ignoreZero = false then
          match fs.mkstemp (template dst) c.mkstemp (c.creator.file 0o600) with
          | none => finish c [] false fs
          | some (tmpfile, fs) =>
            match attempt c.renameAway (fs.rename dst tmpfile) with
            | none => finish c tmpfile false fs
            | some fs => linkSource c src dst tmpfile fs
        else linkSource c src dst [] (tryUnlink c.unlinkEmpty dst fs)

/-! ## What a call leaves behind -/

/-- An empty file, as `lstat` sees it. -/
def EmptyAt (fs : FS E) (p : Text) : Prop := ∃ st, fs.lstat p = some st ∧ st.size = 0

/-- What holds when the function returns `res` in `fs'`. -/
structure Post (c : Calls) (src dst : Text) (ignoreZero : Bool) (fs : FS E) (res : Bool)
    (fs' : FS E) : Prop where
  extends_ : Extends fs fs'
  failed : res = false → fs'.lookup dst = fs.lookup dst ∨
    ignoreZero = true ∧ EmptyAt fs dst ∧ fs'.lookup dst = none
  linked : res = true →
    ∃ i, fs.lookup src = some i ∧ fs'.lookup src = some i ∧ fs'.lookup dst = some i
  /-- Other names stay. -/
  kept : ∀ e i, e ≠ fs.entry dst → fs.names e = some i → fs'.names e = some i
  /-- No other name appears. -/
  clean : c.unlinkTmp = true → ∀ e, e ≠ fs.entry dst → fs'.names e = fs.names e

/-- The destination has been moved to the temporary name. -/
structure Backed (fs fs₁ : FS E) (dst tmpfile : Text) (i : Nat) : Prop where
  extends_ : Extends fs fs₁
  old : fs.lookup dst = some i
  nodir : fs₁.isDir i = false
  free : fs.lookup tmpfile = none
  names : fs₁.names =
    Function.update (Function.update fs.names (fs.entry dst) none) (fs.entry tmpfile) (some i)


namespace Backed

variable {fs fs₁ : FS E} {dst tmpfile : Text} {i : Nat}

theorem names_apply (hb : Backed fs fs₁ dst tmpfile i) (e : E) :
    fs₁.names e = if e = fs.entry tmpfile then some i else
      if e = fs.entry dst then none else fs.names e := by
  rw [hb.names, Function.update_apply, Function.update_apply]

theorem ne (hb : Backed fs fs₁ dst tmpfile i) : fs.entry dst ≠ fs.entry tmpfile := by
  intro heq
  have hold : fs.names (fs.entry dst) = some i := hb.old
  rw [heq] at hold
  have hfree : fs.names (fs.entry tmpfile) = none := hb.free
  rw [hfree] at hold
  cases hold

theorem lookup_dst (hb : Backed fs fs₁ dst tmpfile i) : fs₁.lookup dst = none := by
  show fs₁.names (fs₁.entry dst) = none
  rw [hb.extends_.entry, hb.names_apply, if_neg hb.ne, if_pos rfl]

theorem lookup_tmp (hb : Backed fs fs₁ dst tmpfile i) : fs₁.lookup tmpfile = some i := by
  show fs₁.names (fs₁.entry tmpfile) = some i
  rw [hb.extends_.entry, hb.names_apply, if_pos rfl]

end Backed

/-- With the backup made, a link that works is the result. -/
theorem post_of_linked {c : Calls} {src dst tmpfile : Text} {ignoreZero : Bool} {fs fs₁ : FS E}
    {i k : Nat} (hb : Backed fs fs₁ dst tmpfile i) (hsrc : ∃ j, fs.lookup src = some j)
    (hk : fs₁.lookup src = some k) :
    Post c src dst ignoreZero fs true
      (tryUnlink c.unlinkTmp tmpfile (fs₁.setName (fs₁.entry dst) k)) := by
  have hentry := hb.extends_.entry
  have hfree : fs.names (fs.entry tmpfile) = none := hb.free
  have hsrctmp : fs.entry src ≠ fs.entry tmpfile := by
    intro heq
    obtain ⟨j, hj⟩ := hsrc
    have hj : fs.names (fs.entry src) = some j := hj
    rw [heq, hfree] at hj
    cases hj
  have hsrcdst : fs.entry src ≠ fs.entry dst := by
    intro heq
    have hnone : fs₁.names (fs₁.entry dst) = none := hb.lookup_dst
    have hk : fs₁.names (fs₁.entry src) = some k := hk
    rw [hentry, heq, ← hentry, hnone] at hk
    cases hk
  have hk₀ : fs.names (fs.entry src) = some k := by
    have hk : fs₁.names (fs₁.entry src) = some k := hk
    rwa [hentry, hb.names_apply, if_neg hsrctmp, if_neg hsrcdst] at hk
  have hnames : ∀ e, (fs₁.setName (fs₁.entry dst) k).names e =
      if e = fs.entry dst then some k else
        if e = fs.entry tmpfile then some i else fs.names e := by
    intro e
    rw [names_setName, Function.update_apply, hentry, hb.names_apply]
    by_cases hd : e = fs.entry dst
    · rw [if_pos hd, if_pos hd]
    · rw [if_neg hd, if_neg hd, if_neg hd]
  -- what holds with and without the temporary name
  have hboth : ∀ e, e ≠ fs.entry tmpfile →
      (tryUnlink c.unlinkTmp tmpfile (fs₁.setName (fs₁.entry dst) k)).names e =
        (fs₁.setName (fs₁.entry dst) k).names e := by
    intro e he
    obtain heq | heq := tryUnlink_cases c.unlinkTmp tmpfile (fs₁.setName (fs₁.entry dst) k)
    · rw [heq]
    · rw [heq, names_clear, Function.update_of_ne]
      rw [entry_setName, hentry]
      exact he
  have hext : Extends fs (tryUnlink c.unlinkTmp tmpfile (fs₁.setName (fs₁.entry dst) k)) :=
    (hb.extends_.setName _ _).tryUnlink _ _
  refine ⟨hext, fun h => (by cases h), fun _ => ⟨k, hk₀, ?_, ?_⟩, ?_, ?_⟩
  · show FS.names _ (FS.entry _ src) = some k
    rw [hext.entry, hboth _ hsrctmp, hnames, if_neg hsrcdst, if_neg hsrctmp]
    exact hk₀
  · show FS.names _ (FS.entry _ dst) = some k
    rw [hext.entry, hboth _ hb.ne, hnames, if_pos rfl]
  · intro e j he hj
    have hetmp : e ≠ fs.entry tmpfile := by
      rintro rfl
      rw [hfree] at hj
      cases hj
    rw [hboth e hetmp, hnames, if_neg he, if_neg hetmp]
    exact hj
  · intro hw e he
    by_cases hetmp : e = fs.entry tmpfile
    · have hlook : (fs₁.setName (fs₁.entry dst) k).lookup tmpfile = some i := by
        show (fs₁.setName (fs₁.entry dst) k).names (fs₁.entry tmpfile) = some i
        rw [hnames, hentry, if_neg hb.ne.symm, if_pos rfl]
      rw [hw, tryUnlink_of_some hlook hb.nodir, names_clear, entry_setName, hentry, hetmp,
        Function.update_self, hfree]
    · rw [hboth e hetmp, hnames, if_neg he, if_neg hetmp]

/-- With the backup made, a link that fails leads back to the old names. -/
theorem post_of_moved_back {c : Calls} {src dst tmpfile : Text} {ignoreZero : Bool}
    {fs fs₁ : FS E} {i : Nat} (hb : Backed fs fs₁ dst tmpfile i) :
    Post c src dst ignoreZero fs false (tryUnlink c.unlinkTmp tmpfile
      ((fs₁.clear (fs₁.entry tmpfile)).setName (fs₁.entry dst) i)) := by
  have hentry := hb.extends_.entry
  have hfree : fs.names (fs.entry tmpfile) = none := hb.free
  have hold : fs.names (fs.entry dst) = some i := hb.old
  have hext : Extends fs ((fs₁.clear (fs₁.entry tmpfile)).setName (fs₁.entry dst) i) :=
    (hb.extends_.clear _).setName _ _
  have hnames : ∀ e, ((fs₁.clear (fs₁.entry tmpfile)).setName (fs₁.entry dst) i).names e =
      fs.names e := by
    intro e
    rw [names_setName, names_clear, Function.update_apply, Function.update_apply, hentry,
      hb.names_apply]
    by_cases hd : e = fs.entry dst
    · rw [if_pos hd, hd, hold]
    · by_cases ht : e = fs.entry tmpfile
      · rw [if_neg hd, if_pos ht, ht, hfree]
      · rw [if_neg hd, if_neg ht, if_neg ht, if_neg hd]
  have hgone : ((fs₁.clear (fs₁.entry tmpfile)).setName (fs₁.entry dst) i).lookup tmpfile =
      none := by
    show FS.names _ (FS.entry _ tmpfile) = none
    rw [hext.entry, hnames, hfree]
  rw [tryUnlink_of_none hgone]
  refine ⟨hext, fun _ => Or.inl ?_, fun h => (by cases h), fun e j _ hj => ?_, fun _ e _ => ?_⟩
  · show FS.names _ (FS.entry _ dst) = fs.names (fs.entry dst)
    rw [hext.entry, hnames]
  · rw [hnames, hj]
  · rw [hnames]

theorem linkSource_backed {c : Calls} {src dst tmpfile : Text} {ignoreZero res : Bool}
    {fs fs₁ fs' : FS E} {i : Nat} (hb : Backed fs fs₁ dst tmpfile i) (htmp : tmpfile ≠ [])
    (hsrc : ∃ j, fs.lookup src = some j)
    (h : linkSource c src dst tmpfile fs₁ = .returned res fs') :
    Post c src dst ignoreZero fs res fs' := by
  unfold linkSource at h
  split at h
  · rename_i fs₂ hlink
    obtain ⟨k, hk, -, rfl⟩ := link_eq_some (attempt_eq_some.1 hlink).2
    simp only [finish, if_pos htmp] at h
    cases h
    exact post_of_linked hb hsrc hk
  · rw [tryUnlink_of_none hb.lookup_dst] at h
    simp only [if_pos htmp] at h
    split at h
    · rename_i fs₂ hback
      obtain ⟨j, hj, -, hsame | ⟨-, rfl⟩⟩ := rename_eq_some (attempt_eq_some.1 hback).2
      · rw [hb.lookup_dst] at hsame
        cases hsame.1
      · rw [hb.lookup_tmp] at hj
        cases hj
        simp only [finish, if_pos htmp] at h
        cases h
        exact post_of_moved_back hb
    · cases h

/-- Without a backup: the destination is missing, or it is empty and may go missing. -/
theorem linkSource_plain {c : Calls} {src dst : Text} {ignoreZero res : Bool}
    {fs fs₁ fs' : FS E} (hext : Extends fs fs₁)
    (hothers : ∀ e, e ≠ fs.entry dst → fs₁.names e = fs.names e)
    (hgoes : fs.lookup dst = none ∨ ignoreZero = true ∧ EmptyAt fs dst)
    (hdst : fs₁.lookup dst = fs.lookup dst ∨ fs₁.lookup dst = none)
    (h : linkSource c src dst [] fs₁ = .returned res fs') :
    Post c src dst ignoreZero fs res fs' := by
  unfold linkSource at h
  split at h
  · rename_i fs₂ hlink
    obtain ⟨k, hk, hfree, rfl⟩ := link_eq_some (attempt_eq_some.1 hlink).2
    simp only [finish, ne_eq, not_true_eq_false, if_false] at h
    cases h
    have hsrcdst : fs.entry src ≠ fs.entry dst := by
      intro heq
      have hk : fs₁.names (fs₁.entry src) = some k := hk
      rw [hext.entry, heq, ← hext.entry] at hk
      have hfree : fs₁.names (fs₁.entry dst) = none := hfree
      rw [hfree] at hk
      cases hk
    have hk₁ : fs₁.names (fs.entry src) = some k := by
      rw [← hext.entry]
      exact hk
    have hnames : ∀ e, e ≠ fs.entry dst →
        (fs₁.setName (fs₁.entry dst) k).names e = fs.names e := by
      intro e he
      rw [names_setName, hext.entry, Function.update_of_ne he, hothers e he]
    refine ⟨hext.setName _ _, fun h => (by cases h), fun _ => ⟨k, ?_, ?_, ?_⟩, ?_, ?_⟩
    · show fs.names (fs.entry src) = some k
      rw [← hothers _ hsrcdst, hk₁]
    · show FS.names _ (FS.entry _ src) = some k
      rw [entry_setName, hext.entry, names_setName, Function.update_of_ne hsrcdst, hk₁]
    · show FS.names _ (FS.entry _ dst) = some k
      rw [entry_setName, names_setName, Function.update_self]
    · intro e j he hj
      rw [hnames e he, hj]
    · intro _ e he
      exact hnames e he
  · simp only [finish, ne_eq, not_true_eq_false, if_false] at h
    cases h
    have hnames : ∀ e, e ≠ fs.entry dst →
        (tryUnlink c.unlinkDst dst fs₁).names e = fs.names e := by
      intro e he
      obtain heq | heq := tryUnlink_cases c.unlinkDst dst fs₁
      · rw [heq, hothers e he]
      · rw [heq, names_clear, hext.entry, Function.update_of_ne he, hothers e he]
    have hends : (tryUnlink c.unlinkDst dst fs₁).lookup dst = fs.lookup dst ∨
        (tryUnlink c.unlinkDst dst fs₁).lookup dst = none := by
      obtain heq | heq := tryUnlink_cases c.unlinkDst dst fs₁
      · rw [heq]
        exact hdst
      · rw [heq]
        refine Or.inr ?_
        show FS.names _ (FS.entry _ dst) = none
        rw [entry_clear, names_clear, Function.update_self]
    refine ⟨hext.tryUnlink _ _, fun _ => ?_, fun h => (by cases h), ?_, ?_⟩
    · obtain hsame | hnone := hends
      · exact Or.inl hsame
      · obtain hmissing | hempty := hgoes
        · exact Or.inl (hnone.trans hmissing.symm)
        · exact Or.inr ⟨hempty.1, hempty.2, hnone⟩
    · intro e j he hj
      rw [hnames e he, hj]
    · intro _ e he
      exact hnames e he

omit [DecidableEq E] in
/-- A call that gives up before it has touched a name. -/
theorem post_of_same {c : Calls} {src dst : Text} {ignoreZero : Bool} {fs fs' : FS E}
    (hext : Extends fs fs') (hnames : fs'.names = fs.names) :
    Post c src dst ignoreZero fs false fs' := by
  refine ⟨hext, fun _ => Or.inl ?_, fun h => (by cases h), fun e i _ h => ?_, fun _ e _ => ?_⟩
  · show fs'.names (fs'.entry dst) = fs.names (fs.entry dst)
    rw [hext.entry, hnames]
  · rw [hnames, h]
  · rw [hnames]

omit [DecidableEq E] in
/-- The flags of the source do not matter. -/
theorem Post.of_setILI {c : Calls} {src dst : Text} {ignoreZero res : Bool} {fs fs₁ fs' : FS E}
    (hnames : fs₁.names = fs.names) (hext : Extends fs fs₁)
    (h : Post c src dst ignoreZero fs₁ res fs') : Post c src dst ignoreZero fs res fs' := by
  have hentry := hext.entry
  have hlook : ∀ p, fs₁.lookup p = fs.lookup p := by
    intro p
    show fs₁.names (fs₁.entry p) = fs.names (fs.entry p)
    rw [hentry, hnames]
  have hempty : EmptyAt fs₁ dst → EmptyAt fs dst := by
    rintro ⟨st, hst, hsize⟩
    obtain ⟨i, hi, rfl⟩ := Option.map_eq_some_iff.1 hst
    rw [hlook] at hi
    refine ⟨fs.stat i, by simp [FS.lstat, hi], ?_⟩
    exact (hext.size (fs.named _ i hi)).symm.trans hsize
  refine ⟨hext.trans h.extends_, fun hr => ?_, fun hr => ?_, fun e i he hi => ?_, fun hw e he => ?_⟩
  · obtain hsame | ⟨hz, hzero, hnone⟩ := h.failed hr
    · exact Or.inl (hsame.trans (hlook dst))
    · exact Or.inr ⟨hz, hempty hzero, hnone⟩
  · obtain ⟨i, hi, hsrc, hdst⟩ := h.linked hr
    exact ⟨i, (hlook src).symm.trans hi, hsrc, hdst⟩
  · refine h.kept e i ?_ ?_
    · rwa [hentry]
    · rwa [hnames]
  · rw [h.clean hw e (by rwa [hentry]), hnames]

/-- A backup that cannot be made. -/
theorem post_of_not_moved {c : Calls} {src dst tmpfile : Text} {ignoreZero : Bool} {fs : FS E}
    {o : Creator} {perm : BitVec 12} {st : Stat} (hst : fs.lstat dst = some st)
    (hfree : fs.lookup tmpfile = none) :
    Post c src dst ignoreZero fs false
      (tryUnlink c.unlinkTmp tmpfile (fs.alloc (fs.entry tmpfile) (o.file perm))) := by
  have hext : Extends fs (fs.alloc (fs.entry tmpfile) (o.file perm)) := (Extends.refl fs).alloc _ _
  have hfree : fs.names (fs.entry tmpfile) = none := hfree
  have hnames : ∀ e, e ≠ fs.entry tmpfile →
      (tryUnlink c.unlinkTmp tmpfile (fs.alloc (fs.entry tmpfile) (o.file perm))).names e =
        fs.names e := by
    intro e he
    obtain heq | heq :=
      tryUnlink_cases c.unlinkTmp tmpfile (fs.alloc (fs.entry tmpfile) (o.file perm))
    · rw [heq, names_alloc, Function.update_of_ne he]
    · rw [heq, names_clear, entry_alloc, Function.update_of_ne he, names_alloc,
        Function.update_of_ne he]
  have hne : fs.entry dst ≠ fs.entry tmpfile := by
    intro heq
    obtain ⟨i, hi, -⟩ := Option.map_eq_some_iff.1 hst
    have hi : fs.names (fs.entry dst) = some i := hi
    rw [heq, hfree] at hi
    cases hi
  refine ⟨hext.tryUnlink _ _, fun _ => Or.inl ?_, fun h => (by cases h), fun e i _ hi => ?_,
    fun hw e _ => ?_⟩
  · show FS.names _ (FS.entry _ dst) = fs.names (fs.entry dst)
    rw [(hext.tryUnlink _ _).entry, hnames _ hne]
  · rw [hnames e (by rintro rfl; rw [hfree] at hi; cases hi), hi]
  · by_cases he : e = fs.entry tmpfile
    · have hlook : (fs.alloc (fs.entry tmpfile) (o.file perm)).lookup tmpfile = some fs.next := by
        show (fs.alloc _ _).names (fs.entry tmpfile) = some fs.next
        rw [names_alloc, Function.update_self]
      have hdir : (fs.alloc (fs.entry tmpfile) (o.file perm)).isDir fs.next = false := by
        simp [FS.isDir, Creator.file]
      rw [hw, tryUnlink_of_some hlook hdir, names_clear, entry_alloc, he, Function.update_self,
        hfree]
    · exact hnames e he

/-- A backup that is made. -/
theorem backed_of_moved {dst tmpfile : Text} {fs fs₂ : FS E} {n : Inode} {st : Stat}
    (hst : fs.lstat dst = some st) (hfree : fs.lookup tmpfile = none)
    (h : (fs.alloc (fs.entry tmpfile) n).rename dst tmpfile = some fs₂) :
    ∃ i, Backed fs fs₂ dst tmpfile i := by
  have hfree' : fs.names (fs.entry tmpfile) = none := hfree
  obtain ⟨i, hi, -⟩ := Option.map_eq_some_iff.1 hst
  have hi : fs.names (fs.entry dst) = some i := hi
  have hne : fs.entry dst ≠ fs.entry tmpfile := by
    intro heq
    rw [heq, hfree'] at hi
    cases hi
  obtain ⟨j, hj, hdir, hmoved⟩ := rename_eq_some h
  have hj : (fs.alloc (fs.entry tmpfile) n).names (fs.entry dst) = some j := hj
  rw [names_alloc, Function.update_of_ne hne, hi] at hj
  cases hj
  obtain ⟨hsame, -⟩ | ⟨-, rfl⟩ := hmoved
  · have hsame : (fs.alloc (fs.entry tmpfile) n).names (fs.entry tmpfile) = some i := hsame
    rw [names_alloc, Function.update_self] at hsame
    cases hsame
    exact absurd hi (names_ne_of_le (Nat.le_refl _) _)
  · refine ⟨i, (((Extends.refl fs).alloc _ _).clear _).setName _ _, hi, hdir, hfree, ?_⟩
    rw [names_setName, names_clear, entry_alloc, names_alloc]
    funext e
    simp only [Function.update_apply]
    by_cases ht : e = fs.entry tmpfile
    · rw [if_pos ht, if_pos ht]
    · rw [if_neg ht, if_neg ht, if_neg ht]

/-- The specification of `unify`. -/
theorem unify_post {c : Calls} {src dst : Text} {ignoreZero res : Bool} {fs fs' : FS E}
    (h : unify c src dst ignoreZero fs = .returned res fs') :
    Post c src dst ignoreZero fs res fs' := by
  unfold unify at h
  split at h
  · cases h
    exact post_of_same (Extends.refl fs) rfl
  rename_i fs₁ hset
  obtain ⟨hnames, hext, hsrc⟩ := setILI_eq_some (attempt_eq_some.1 hset).2
  split at h
  · cases h
    exact post_of_same hext hnames
  have hsrc₁ : ∃ j, fs₁.lookup src = some j := by
    obtain ⟨j, hj⟩ := hsrc
    refine ⟨j, ?_⟩
    show fs₁.names (fs₁.entry src) = some j
    rw [hext.entry, hnames]
    exact hj
  refine Post.of_setILI hnames hext ?_
  split at h
  · rename_i hmissing
    have hmissing : fs₁.lookup dst = none := Option.map_eq_none_iff.1 hmissing
    exact linkSource_plain (Extends.refl fs₁) (fun _ _ => rfl) (Or.inl hmissing) (Or.inl rfl) h
  · rename_i st hst
    split at h
    · split at h
      · simp only [finish, ne_eq, not_true_eq_false, if_false] at h
        cases h
        exact post_of_same (Extends.refl _) rfl
      · rename_i tmpfile fs₂ hmk
        obtain ⟨⟨xs, hxs⟩, hfree, rfl⟩ := mkstemp_eq_some hmk
        have htmp : tmpfile ≠ [] := by
          rw [hxs]
          simp [template]
        split at h
        · simp only [finish, if_pos htmp] at h
          cases h
          exact post_of_not_moved hst hfree
        · rename_i fs₃ hmoved
          obtain ⟨i, hb⟩ := backed_of_moved hst hfree (attempt_eq_some.1 hmoved).2
          exact linkSource_backed hb htmp hsrc₁ h
    · rename_i hcond
      simp only [not_or, Nat.not_lt, Nat.le_zero_eq, Bool.not_eq_false] at hcond
      have hgoes : ignoreZero = true ∧ EmptyAt fs₁ dst := ⟨hcond.2, st, hst, hcond.1⟩
      obtain heq | heq := tryUnlink_cases c.unlinkEmpty dst fs₁
      · rw [heq] at h
        exact linkSource_plain (Extends.refl fs₁) (fun _ _ => rfl) (Or.inr hgoes) (Or.inl rfl) h
      · rw [heq] at h
        refine linkSource_plain ((Extends.refl _).clear _) (fun e he => ?_) (Or.inr hgoes)
          (Or.inr ?_) h
        · rw [names_clear, Function.update_of_ne he]
        · show FS.names _ (FS.entry _ dst) = none
          rw [entry_clear, names_clear, Function.update_self]

/-- **`Unify_unify` is atomic.**  When it returns false, the destination names what it named
before; an empty destination may be missing if it was to be ignored.  When it returns true, source
and destination name what the source named.  Old inodes are as they were, and if the temporary
name can be removed, no other entry has changed. -/
theorem unify_atomic {c : Calls} {src dst : Text} {ignoreZero res : Bool} {fs fs' : FS E}
    (h : unify c src dst ignoreZero fs = .returned res fs') :
    Extends fs fs' ∧
      (res = false → fs'.lookup dst = fs.lookup dst ∨
        ignoreZero = true ∧ EmptyAt fs dst ∧ fs'.lookup dst = none) ∧
      (res = true →
        ∃ i, fs.lookup src = some i ∧ fs'.lookup src = some i ∧ fs'.lookup dst = some i) ∧
      (c.unlinkTmp = true → ∀ e, e ≠ fs.entry dst → fs'.names e = fs.names e) := by
  have hpost := unify_post h
  exact ⟨hpost.extends_, hpost.failed, hpost.linked, hpost.clean⟩

/-- A directory with the files `a` and `b`. -/
def twoFiles : FS Text where
  entry := id
  dirOf _ := []
  names e := if e = [] then some 0 else if e = ['a'] then some 1 else if e = ['b'] then some 2
    else none
  inode i :=
    { dev := 0, mode := ⟨if i = 0 then .dir else .reg, 0o644⟩, uid := 0, gid := 0, rdev := 0,
      atime := 0, mtime := 0, data := [1, 2, 3], extent := 4096, flags := 0 }
  next := 3
  named e i h := by
    split at h
    · cases h
      decide
    · split at h
      · cases h
        decide
      · split at h
        · cases h
          decide
        · cases h

/-- The link fails, everything else works. -/
def linkFails : Calls where
  vcSetIattr := true
  sigprocmask := true
  mkstemp := some ['x']
  creator := ⟨0, 0, 0, 1⟩
  renameAway := true
  unlinkEmpty := true
  link := false
  unlinkDst := true
  renameBack := true
  unlinkTmp := true

theorem unify_atomic_linkFails :
    ∃ fs', unify linkFails ['a'] ['b'] false twoFiles = .returned false fs' ∧
      (fs'.lookup ['b'] = twoFiles.lookup ['b'] ∨
        false = true ∧ EmptyAt twoFiles ['b'] ∧ fs'.lookup ['b'] = none) := by
  obtain ⟨fs', h⟩ : ∃ fs', unify linkFails ['a'] ['b'] false twoFiles = .returned false fs' :=
    ⟨_, rfl⟩
  exact ⟨fs', h, (unify_atomic h).2.1 rfl⟩

end Unify
