import UtilVserver.Unify

/-!
# `Unify_deUnify`

A file is copied to a temporary name, gets the attributes of the original and takes its place.

* `Calls` — which calls work, and how many bytes each `read` and `write` moves.
* `wwriteAll` — `WwriteAll`.
* `copyLoop` — the loop that fills the temporary file.
* `deUnify`, with `fill`, `complete` and `replace` for the code behind `mkstemp`.

The loops end, because a `read` before the end of a file gives at least one byte and a `write`
that gives nothing is a failure.  The program runs as root, so a write leaves the mode alone.

Principal result: `deUnify_atomic`.
-/

set_option autoImplicit false

namespace DeUnify

open CString FileSystem FS
open Unify (Outcome template)

variable {E : Type} [DecidableEq E]

/-- Which calls work; what the `n`-th `read` and `write` give, none for an error. -/
structure Calls where
  opens : Bool
  fstat : Bool
  mkstemp : Option Text
  creator : Creator
  fchown : Bool
  fchmod : Bool
  /-- Bytes behind the first one. -/
  read : Nat → Option Nat
  write : Nat → Option Nat
  /-- The time a `read` leaves at the source. -/
  accessed : Option Int
  closeSrc : Bool
  closeTmp : Bool
  utime : Bool
  unlinkDst : Bool
  rename : Bool
  unlinkTmp : Bool

/-- `WwriteAll`, from the `m`-th `write` on. -/
def wwriteAll (write : Nat → Option Nat) (fd : Nat) (bs : List UInt8) (m : Nat) (fs : FS E) :
    Bool × Nat × FS E :=
  match bs with
  | [] => (true, m, fs)
  | b :: bs =>
    match write m with
    | none | some 0 => (false, m + 1, fs)
    | some (k + 1) =>
      wwriteAll write fd (bs.drop k) (m + 1) (fs.append fd (b :: bs.take k))
  termination_by bs.length

/-- The loop around `read`, with what is left of the source; `n` and `m` count the calls. -/
def copyLoop (c : Calls) (fd : Nat) (rest : List UInt8) (n m : Nat) (fs : FS E) : Bool × FS E :=
  match c.read n with
  | none => (false, fs)
  | some len =>
    match rest with
    | [] => (true, fs)
    | b :: rest =>
      let len := min len (0x4000 - 1)
      match wwriteAll c.write fd (b :: rest.take len) m fs with
      | (false, _, fs) => (false, fs)
      | (true, m, fs) => copyLoop c fd (rest.drop len) (n + 1) m fs
  termination_by rest.length

/-- The code at the label `err1`. -/
def err1 (c : Calls) (tmpfile : Text) (fs : FS E) : Outcome E :=
  .returned false (tryUnlink c.unlinkTmp tmpfile fs)

/-- From `unlink(dst)` on. -/
def replace (c : Calls) (dst tmpfile : Text) (fs : FS E) : Outcome E :=
  match attempt c.unlinkDst (fs.unlink dst) with
  | none => err1 c tmpfile fs
  | some fs =>
    match attempt c.rename (fs.rename tmpfile dst) with
    | none => .exited fs
    | some fs => .returned true fs

/-- Where the access time of the source is updated. -/
def touch (c : Calls) (fd : Nat) (fs : FS E) : FS E :=
  match c.accessed with
  | none => fs
  | some t => fs.modify fd fun n => { n with atime := t }

/-- Behind the loop. -/
def complete (c : Calls) (st : Stat) (fdTmp : Nat) (dst tmpfile : Text) :
    Bool × FS E → Outcome E
  | (false, fs) => err1 c tmpfile fs
  | (true, fs) =>
    if !c.closeSrc || !c.closeTmp || !c.utime then err1 c tmpfile fs
    else replace c dst tmpfile (fs.utime fdTmp st.atime st.mtime)

/-- From `fchown` on: `fdSrc` and `fdTmp` are the inodes behind the descriptors. -/
def fill (c : Calls) (st : Stat) (fdSrc fdTmp : Nat) (dst tmpfile : Text) (fs : FS E) :
    Outcome E :=
  if !c.fchown then err1 c tmpfile fs
  else
    let fs := fs.chown fdTmp st.uid st.gid
    if !c.fchmod then err1 c tmpfile fs
    else
      let fs := fs.chmod fdTmp st.mode.perm
      complete c st fdTmp dst tmpfile
        (copyLoop c fdTmp (fs.inode fdSrc).data 0 0 (touch c fdSrc fs))

/-- `Unify_deUnify`. -/
def deUnify (c : Calls) (dst : Text) (fs : FS E) : Outcome E :=
  match attempt c.opens (fs.lookup dst) with
  | none => .returned false fs
  | some fdSrc =>
    if !c.fstat then .returned false fs
    else
      match fs.mkstemp (template dst) c.mkstemp (c.creator.file 0o600) with
      | none => .returned false fs
      | some (tmpfile, fs₁) => fill c (fs.stat fdSrc) fdSrc fs.next dst tmpfile fs₁

/-! ## The loops -/

omit [DecidableEq E] in
/-- `WwriteAll` writes a part; when it succeeds, it has written everything. -/
theorem wwriteAll_spec (write : Nat → Option Nat) (fd : Nat) (bs : List UInt8) (m : Nat)
    (fs : FS E) : ∃ out, (wwriteAll write fd bs m fs).2.2 = fs.append fd out ∧
      ((wwriteAll write fd bs m fs).1 = true → out = bs) := by
  fun_induction wwriteAll write fd bs m fs with
  | case1 => exact ⟨[], (append_nil _ _).symm, fun _ => rfl⟩
  | case2 => exact ⟨[], (append_nil _ _).symm, fun h => (by cases h)⟩
  | case3 => exact ⟨[], (append_nil _ _).symm, fun h => (by cases h)⟩
  | case4 m fs b bs k hk ih =>
    obtain ⟨out, hout, hall⟩ := ih
    refine ⟨b :: bs.take k ++ out, ?_, fun h => ?_⟩
    · rw [hout, append_append]
    · rw [hall h, List.cons_append, List.take_append_drop]

omit [DecidableEq E] in
/-- **The copy loop**: when it succeeds, the whole source has been written. -/
theorem copyLoop_spec (c : Calls) (fd : Nat) (rest : List UInt8) (n m : Nat) (fs : FS E) :
    ∃ out, (copyLoop c fd rest n m fs).2 = fs.append fd out ∧
      ((copyLoop c fd rest n m fs).1 = true → out = rest) := by
  fun_induction copyLoop c fd rest n m fs with
  | case1 => exact ⟨[], (append_nil _ _).symm, fun h => (by cases h)⟩
  | case2 => exact ⟨[], (append_nil _ _).symm, fun _ => rfl⟩
  | case3 n m fs k hk b rest len m' fs' hw =>
    obtain ⟨out, hout, -⟩ := wwriteAll_spec c.write fd (b :: rest.take len) m fs
    rw [hw] at hout
    exact ⟨out, hout, fun h => (by cases h)⟩
  | case4 n m fs k hk b rest len m' fs' hw ih =>
    obtain ⟨out, hout, hall⟩ := wwriteAll_spec c.write fd (b :: rest.take len) m fs
    rw [hw] at hout hall
    obtain ⟨out', hout', hall'⟩ := ih
    refine ⟨out ++ out', ?_, fun h => ?_⟩
    · rw [hout', ← append_append, ← hout]
    · rw [hall rfl, hall' h, List.cons_append, List.take_append_drop]

/-! ## The temporary file -/

/-- The temporary file is new, and a regular file. -/
structure Tmp (fs fs₁ : FS E) (tmpfile : Text) : Prop extends Created fs fs₁ tmpfile where
  regular : (fs₁.inode fs.next).mode.kind = .reg

namespace Tmp

variable {fs fs₁ : FS E} {tmpfile : Text}

theorem of_alloc (hfree : fs.lookup tmpfile = none) (o : Creator) (perm : BitVec 12) :
    Tmp fs (fs.alloc (fs.entry tmpfile) (o.file perm)) tmpfile where
  toCreated := ⟨hfree, (Extends.refl fs).alloc _ _, rfl⟩
  regular := by
    rw [inode_alloc, Function.update_self]
    rfl

/-- Changes of the temporary file that leave it a file. -/
theorem modify (h : Tmp fs fs₁ tmpfile) {f : Inode → Inode}
    (hf : ∀ n, (f n).mode.kind = n.mode.kind) : Tmp fs (fs₁.modify fs.next f) tmpfile where
  toCreated := h.toCreated.modify f
  regular := by
    rw [inode_modify, Function.update_self, hf]
    exact h.regular

theorem touch (h : Tmp fs fs₁ tmpfile) (c : Calls) {fd : Nat} (hfd : fd < fs.next) :
    Tmp fs (touch c fd fs₁) tmpfile := by
  unfold DeUnify.touch
  split
  · exact h
  · refine ⟨⟨h.free, h.extends_.modify_plain fd fun _ => rfl, h.names⟩, ?_⟩
    rw [inode_modify, Function.update_of_ne (by omega)]
    exact h.regular

theorem chown (h : Tmp fs fs₁ tmpfile) (uid gid : Nat) :
    Tmp fs (fs₁.chown fs.next uid gid) tmpfile := h.modify fun _ => rfl

theorem chmod (h : Tmp fs fs₁ tmpfile) (perm : BitVec 12) :
    Tmp fs (fs₁.chmod fs.next perm) tmpfile := h.modify fun _ => rfl

theorem append (h : Tmp fs fs₁ tmpfile) (bs : List UInt8) :
    Tmp fs (fs₁.append fs.next bs) tmpfile := h.modify fun _ => rfl

theorem utime (h : Tmp fs fs₁ tmpfile) (atime mtime : Int) :
    Tmp fs (fs₁.utime fs.next atime mtime) tmpfile := h.modify fun _ => rfl

theorem nodir (h : Tmp fs fs₁ tmpfile) : fs₁.isDir fs.next = false := by
  simp [FS.isDir, h.regular]

/-- The way out through `err1` leaves the names as they were. -/
theorem names_err1 (h : Tmp fs fs₁ tmpfile) :
    (tryUnlink true tmpfile fs₁).names = fs.names := by
  have hfree : fs.names (fs.entry tmpfile) = none := h.free
  rw [tryUnlink_of_some h.lookup h.nodir, names_clear, h.extends_.entry, h.names,
    Function.update_idem, ← hfree, Function.update_eq_self]

end Tmp

omit [DecidableEq E] in
theorem inode_touch_of_ne (c : Calls) {fd j : Nat} (h : j ≠ fd) (fs : FS E) :
    (touch c fd fs).inode j = fs.inode j := by
  unfold touch
  split
  · rfl
  · rw [inode_modify, Function.update_of_ne h]

/-- What holds when `deUnify` returns. -/
structure Post (dst : Text) (i : Nat) (fs : FS E) (res : Bool) (fs' : FS E) : Prop where
  extends_ : Extends fs fs'
  failed : res = false → fs'.names = fs.names
  replaced : res = true →
    fs'.names = Function.update fs.names (fs.entry dst) (some fs.next) ∧
      (fs'.inode fs.next).Same (fs.inode i) ∧ (fs'.inode fs.next).atime = (fs.inode i).atime

theorem post_of_err1 {c : Calls} {dst tmpfile : Text} {i : Nat} {fs fs₁ fs' : FS E} {res : Bool}
    (htmp : Tmp fs fs₁ tmpfile) (hclean : c.unlinkTmp = true)
    (h : err1 c tmpfile fs₁ = .returned res fs') : Post dst i fs res fs' := by
  unfold err1 at h
  rw [hclean] at h
  cases h
  exact ⟨htmp.extends_.tryUnlink _ _, fun _ => htmp.names_err1, fun h => (by cases h)⟩

theorem replace_post {c : Calls} {dst tmpfile : Text} {i : Nat} {fs fs₁ fs' : FS E} {res : Bool}
    (htmp : Tmp fs fs₁ tmpfile) (hdst : fs.lookup dst = some i) (hclean : c.unlinkTmp = true)
    (hattrs : (fs₁.inode fs.next).Same (fs.inode i) ∧
      (fs₁.inode fs.next).atime = (fs.inode i).atime)
    (h : replace c dst tmpfile fs₁ = .returned res fs') : Post dst i fs res fs' := by
  unfold replace at h
  split at h
  · exact post_of_err1 htmp hclean h
  rename_i fs₂ hunlink
  obtain ⟨rfl, -⟩ := unlink_eq_some (attempt_eq_some.1 hunlink).2
  split at h
  · cases h
  rename_i fs₃ hrename
  cases h
  have hne := htmp.entry_ne hdst
  have hfree : fs.names (fs.entry tmpfile) = none := htmp.free
  obtain ⟨j, hj, -, ⟨hsame, -⟩ | ⟨-, rfl⟩⟩ := rename_eq_some (attempt_eq_some.1 hrename).2
  · have hsame : (fs₁.clear (fs₁.entry dst)).names (fs₁.entry dst) = some j := hsame
    rw [names_clear, Function.update_self] at hsame
    cases hsame
  · have hj : (fs₁.clear (fs₁.entry dst)).names (fs₁.entry tmpfile) = some j := hj
    rw [names_clear, htmp.extends_.entry, Function.update_of_ne hne.symm, htmp.names,
      Function.update_self] at hj
    cases hj
    refine ⟨((htmp.extends_.clear _).clear _).setName _ _, fun h => (by cases h), fun _ => ⟨?_, ?_⟩⟩
    · rw [names_setName, names_clear, names_clear, entry_clear, htmp.extends_.entry, htmp.names]
      funext e
      simp only [Function.update_apply]
      by_cases hd : e = fs.entry dst
      · rw [if_pos hd, if_pos hd]
      · rw [if_neg hd, if_neg hd, if_neg hd]
        by_cases ht : e = fs.entry tmpfile
        · rw [if_pos ht, ht, hfree]
        · rw [if_neg ht, if_neg ht]
    · exact hattrs

/-- The temporary file when `utime` is done. -/
def filled (c : Calls) (i : Nat) (e : E) (fs : FS E) : FS E :=
  let fs₁ := (fs.alloc e (c.creator.file 0o600)).chown fs.next (fs.stat i).uid (fs.stat i).gid
  let fs₂ := touch c i (fs₁.chmod fs.next (fs.stat i).mode.perm)
  (fs₂.append fs.next (fs.inode i).data).utime fs.next (fs.stat i).atime (fs.stat i).mtime

theorem same_of_filled (c : Calls) {fs : FS E} {i : Nat} (e : E) (hi : i < fs.next)
    (hreg : (fs.inode i).mode.kind = .reg) :
    ((filled c i e fs).inode fs.next).Same (fs.inode i) ∧
      ((filled c i e fs).inode fs.next).atime = (fs.inode i).atime := by
  have hne : fs.next ≠ i := by omega
  refine ⟨⟨?_, ?_, ?_, ?_, ?_⟩, ?_⟩ <;>
    simp only [filled, FS.utime, FS.append, FS.chown, FS.chmod, inode_modify, Function.update_self,
      inode_touch_of_ne c hne, inode_alloc, FS.stat, Creator.file, List.nil_append]
  rw [← hreg]

theorem complete_post {c : Calls} {st : Stat} {dst tmpfile : Text} {i : Nat} {fs fs₁ fs' : FS E}
    {ok res : Bool} (htmp : Tmp fs fs₁ tmpfile) (hdst : fs.lookup dst = some i)
    (hclean : c.unlinkTmp = true)
    (hattrs : ok = true →
      ((fs₁.utime fs.next st.atime st.mtime).inode fs.next).Same (fs.inode i) ∧
        ((fs₁.utime fs.next st.atime st.mtime).inode fs.next).atime = (fs.inode i).atime)
    (h : complete c st fs.next dst tmpfile (ok, fs₁) = .returned res fs') :
    Post dst i fs res fs' := by
  unfold complete at h
  cases ok with
  | false => exact post_of_err1 htmp hclean h
  | true =>
    dsimp only at h
    split at h
    · exact post_of_err1 htmp hclean h
    · exact replace_post (htmp.utime _ _) hdst hclean (hattrs rfl) h

theorem fill_post {c : Calls} {dst tmpfile : Text} {i : Nat} {fs fs' : FS E} {res : Bool}
    (hfree : fs.lookup tmpfile = none) (hdst : fs.lookup dst = some i)
    (hreg : fs.isReg i = true) (hclean : c.unlinkTmp = true)
    (h : fill c (fs.stat i) i fs.next dst tmpfile
      (fs.alloc (fs.entry tmpfile) (c.creator.file 0o600)) = .returned res fs') :
    Post dst i fs res fs' := by
  have hi : i < fs.next := fs.named _ i hdst
  have hreg : (fs.inode i).mode.kind = .reg := by simpa [FS.isReg] using hreg
  have h₀ : Tmp fs _ tmpfile := Tmp.of_alloc hfree c.creator 0o600
  unfold fill at h
  split at h
  · exact post_of_err1 h₀ hclean h
  have h₁ := h₀.chown (fs.stat i).uid (fs.stat i).gid
  split at h
  · exact post_of_err1 h₁ hclean h
  have h₂ := h₁.chmod (fs.stat i).mode.perm
  dsimp only at h
  generalize hfs₂ : ((fs.alloc (fs.entry tmpfile) (c.creator.file 0o600)).chown fs.next
    (fs.stat i).uid (fs.stat i).gid).chmod fs.next (fs.stat i).mode.perm = fs₂ at h h₂
  have hdata : (fs₂.inode i).data = (fs.inode i).data := by
    rw [← hfs₂, FS.chmod, FS.chown, inode_modify, Function.update_of_ne (by omega), inode_modify,
      Function.update_of_ne (by omega), inode_alloc, Function.update_of_ne (by omega)]
  obtain ⟨out, hout, hall⟩ := copyLoop_spec c fs.next (fs₂.inode i).data 0 0 (touch c i fs₂)
  cases hcopy : copyLoop c fs.next (fs₂.inode i).data 0 0 (touch c i fs₂) with
  | mk ok fs₃ =>
    rw [hcopy] at hout hall
    obtain rfl : fs₃ = (touch c i fs₂).append fs.next out := hout
    simp only [hcopy] at h
    have h₃ := (h₂.touch c hi).append out
    refine complete_post h₃ hdst hclean (fun hok => ?_) h
    have hall : out = (fs.inode i).data := (hall hok).trans hdata
    subst hall hfs₂
    exact same_of_filled c _ hi hreg

/-- The specification of `deUnify`. -/
theorem deUnify_post {c : Calls} {dst : Text} {i : Nat} {fs fs' : FS E} {res : Bool}
    (hdst : fs.lookup dst = some i) (hreg : fs.isReg i = true) (hclean : c.unlinkTmp = true)
    (h : deUnify c dst fs = .returned res fs') : Post dst i fs res fs' := by
  have hsame : Post dst i fs false fs :=
    ⟨Extends.refl fs, fun _ => rfl, fun h => (by cases h)⟩
  unfold deUnify at h
  split at h
  · cases h
    exact hsame
  rename_i fdSrc hopen
  have hfd := (attempt_eq_some.1 hopen).2
  rw [hdst] at hfd
  cases hfd
  split at h
  · cases h
    exact hsame
  split at h
  · cases h
    exact hsame
  · rename_i tmpfile fs₁ hmk
    obtain ⟨-, hfree, rfl⟩ := mkstemp_eq_some hmk
    exact fill_post hfree hdst hreg hclean h

/-- **`Unify_deUnify` is atomic**, if the temporary name can be removed.  When it returns false,
every entry names what it named before, and the path the same content.  When it returns true, the
path is the only name of a new file, which has the content, the mode, the owner and the times of the
old one. -/
theorem deUnify_atomic {c : Calls} {dst : Text} {i : Nat} {fs fs' : FS E} {res : Bool}
    (hdst : fs.lookup dst = some i) (hreg : fs.isReg i = true) (hclean : c.unlinkTmp = true)
    (h : deUnify c dst fs = .returned res fs') :
    (res = false → fs'.names = fs.names ∧ fs'.lookup dst = some i ∧
      (fs'.inode i).data = (fs.inode i).data) ∧
    (res = true → ∃ j, fs.next ≤ j ∧ (∀ e, fs'.names e = some j ↔ e = fs.entry dst) ∧
      (∀ e, e ≠ fs.entry dst → fs'.names e = fs.names e) ∧ fs'.isReg j = true ∧
      (fs'.inode j).Same (fs.inode i) ∧ (fs'.inode j).atime = (fs.inode i).atime) := by
  have hpost := deUnify_post hdst hreg hclean h
  have hi : i < fs.next := fs.named _ i hdst
  refine ⟨fun hres => ⟨hpost.failed hres, ?_, ?_⟩, fun hres => ⟨fs.next, Nat.le_refl _, ?_⟩⟩
  · show fs'.names (fs'.entry dst) = some i
    rw [hpost.failed hres, hpost.extends_.entry]
    exact hdst
  · have hplain : (fs'.inode i).plain.data = (fs.inode i).plain.data := by
      rw [hpost.extends_.inode i hi]
    exact hplain
  · obtain ⟨hnames, hsame, hatime⟩ := hpost.replaced hres
    refine ⟨fun e => ?_, fun e he => ?_, ?_, hsame, hatime⟩
    · rw [hnames, Function.update_apply]
      by_cases he : e = fs.entry dst
      · simp [he]
      · rw [if_neg he]
        exact ⟨fun hn => absurd hn (names_ne_of_le (Nat.le_refl _) e), fun hn => absurd hn he⟩
    · rw [hnames, Function.update_of_ne he]
    · rw [FS.isReg, hsame.mode]
      exact hreg

/-- Everything works; `read` and `write` move two bytes at a time. -/
def twoBytes : Calls where
  opens := true
  fstat := true
  mkstemp := some ['x']
  creator := ⟨0, 0, 0, 1⟩
  fchown := true
  fchmod := true
  read _ := some 1
  write _ := some 2
  accessed := some 5
  closeSrc := true
  closeTmp := true
  utime := true
  unlinkDst := true
  rename := true
  unlinkTmp := true

theorem copyLoop_twoBytes (fs : FS Text) :
    copyLoop twoBytes 3 [1, 2, 3] 0 0 fs = (true, (fs.append 3 [1, 2]).append 3 [3]) := by
  simp [copyLoop, wwriteAll, twoBytes]

theorem deUnify_atomic_twoBytes : ∃ fs',
    deUnify twoBytes ['a'] Unify.twoFiles = .returned true fs' ∧
      ∃ j, fs'.isReg j = true ∧ (fs'.inode j).Same (Unify.twoFiles.inode 1) := by
  obtain ⟨fs', h⟩ : ∃ fs', deUnify twoBytes ['a'] Unify.twoFiles = .returned true fs' :=
    ⟨_, Eq.trans (congrArg (complete twoBytes _ 3 ['a'] _) (copyLoop_twoBytes _)) rfl⟩
  obtain ⟨j, -, -, -, hreg, hsame, -⟩ := (deUnify_atomic rfl rfl rfl h).2 rfl
  exact ⟨fs', h, j, hreg, hsame⟩

end DeUnify
