import UtilVserver.UnifyCopy
import UtilVserver.HashDirs
import UtilVserver.Mkdir

/-!
# `vhashify`

What happens to one file: it is found or put into the store of files named after their digests, and
its path becomes a link to the file there.

* `convertDigest`, `slotName` — the names in the store.
* `checkFstat`, `calculateHash`, `resolveCollisions` — which file of the store to use.
* `doit`, `visitFile` — the processing of one file.
* `Store` — the files in the store have the digests they are named after.

Principal result: `visitFile_keeps`.
-/

set_option autoImplicit false

namespace Vhashify

open CString FileSystem FS HashDirs
open Unify (Outcome isUnified isUnifyable isUnifyable_iff)

variable {E : Type} [DecidableEq E]

structure Args where
  insecure : Nat
  dryRun : Bool
  doRefresh : Bool
  ignoreMtime : Bool

/-- `Global_isVserverRunning`. -/
def isVserverRunning (a : Args) : Bool := a.insecure < 2

/-- What goes into a digest: the attributes of `addStatHash` and the content. -/
structure HashInput where
  mode : Mode
  uid : Nat
  gid : Nat
  rdev : Nat
  size : Nat
  mtime : Int
  data : List UInt8

/-- The digest function, the exclude list's verdict on the file, and which calls work. -/
structure Env where
  digest : HashInput → List UInt8
  included : Bool
  getIattr : Bool
  nlink : Nat
  openFile : Bool
  hash : Bool
  mkdir : Mkdir.Calls
  openSlot : Bool
  unlinkSlot : Bool
  copy : UnifyCopy.Calls
  unify : Unify.Calls
  unlinkCleanup : Bool

/-! ## Names in the store -/

/-- `sizeof(HashPath)`. -/
def hashPathSize : Nat := 256 / 4 + 256 / 4 / 2 + 4 * 2 + 3

def hexDigit (n : Nat) : Char := ("0123456789abcdef".toList).getD n '0'

/-- The loop of `convertDigest`, with the positions in both buffers. -/
def convertFrom (inp out : Nat) : List UInt8 → Text
  | [] => []
  | b :: digest =>
    if out + 1 < hashPathSize - (4 * 2 + 2) then
      let slash := if (inp + 254) % (if inp ≤ 2 then 1 else 256) = 0 ∧ 0 < inp then ['/'] else []
      slash ++ hexDigit (b.toNat / 16) :: hexDigit (b.toNat % 16) ::
        convertFrom (inp + 1) (out + slash.length + 2) digest
    else []

/-- `convertDigest`. -/
def convertDigest (digest : List UInt8) : Text := convertFrom 0 0 digest

/-- The number of a slot, with eight digits. -/
def slotNumber (idx : BitVec 32) : Text :=
  (List.range 8).reverse.map fun k => hexDigit (idx.toNat / 16 ^ k % 16)

def slotName (base : Text) (idx : BitVec 32) : Text := base ++ '-' :: slotNumber idx

/-! ## Which file of the store -/

inductive UnifyStatus where
  | unsupported | uinlinkable | busy
  deriving DecidableEq

/-- `Unify_isIUnlinkable`. -/
def isIUnlinkable (works : Bool) (fs : FS E) (name : Text) : UnifyStatus :=
  match attempt works (fs.lookup name) with
  | none => .unsupported
  | some i =>
    if (fs.inode i).flags &&& Unify.ILI = Unify.ILI then .busy else .uinlinkable

/-- `HASH_MINSIZE`. -/
def hashMinSize : Nat := 0x10

/-- `checkFstat`: the attributes of a file that may be unified. -/
def checkFstat (a : Args) (e : Env) (name : Text) (fs : FS E) : Option Stat :=
  match fs.lstat name with
  | none => none
  | some st =>
    if st.mode.kind = .dir then some st
    else if st.mode.kind ≠ .reg then none
    else if st.size < hashMinSize then none
    else
      match isIUnlinkable e.getIattr fs name with
      | .unsupported => none
      | .busy => if 1 < e.nlink ∧ a.doRefresh = false then none else some st
      | .uinlinkable => some st

/-- `addStatHash` and the content. -/
def hashInput (a : Args) (st : Stat) (data : List UInt8) : HashInput :=
  { mode := st.mode, uid := st.uid, gid := st.gid, rdev := st.rdev, size := st.size,
    mtime := if a.ignoreMtime then 0 else st.mtime, data := data }

/-- `calculateHash`. -/
def calculateHash (a : Args) (e : Env) (name : Text) (st : Stat) (fs : FS E) : Option Text :=
  match attempt e.openFile (fs.lookup name) with
  | none => none
  | some i =>
    if !isUnified (fs.stat i) st then none
    else if !e.hash then none
    else some (convertDigest (e.digest (hashInput a st (fs.inode i).data)))

inductive Resolved where
  | skip
  | slot (name : Text) (size : Nat)

/-- `resolveCollisions` from slot `idx` on; none stands for a loop that has not ended yet. -/
def resolveCollisions (a : Args) (e : Env) (base : Text) (st : Stat) (fs : FS E) :
    Nat → BitVec 32 → Option (Resolved × FS E)
  | 0, _ => none
  | fuel + 1, idx =>
    let result := slotName base idx
    match fs.lstat result with
    | some hashSt =>
      if isUnified st hashSt then some (.skip, fs)
      else if !isUnifyable a.ignoreMtime st hashSt then
        resolveCollisions a e base st fs fuel (idx + 1)
      else some (.slot result hashSt.size, fs)
    | none =>
      if a.dryRun then some (.slot result 0, fs)
      else
        match Mkdir.mkdirRecursive e.mkdir base fs with
        | (false, fs) => some (.skip, fs)
        | (true, fs) =>
          match attempt e.openSlot (fs.create result (e.mkdir.creator.file 0o200)) with
          | none => some (.skip, fs)
          | some fs => some (.slot result 0, fs)

/-! ## The processing -/

/-- The code behind a failure of `doit` with a new file in the store. -/
def cleanup (e : Env) (dst : Text) : Outcome E → Outcome E
  | .returned true fs => .returned true fs
  | .returned false fs => .returned false (tryUnlink e.unlinkCleanup dst fs)
  | .exited fs => .exited fs

/-- `doit`. -/
def doit (a : Args) (e : Env) (src dst : Text) (srcSt : Stat) (dstSize : Nat) (fs : FS E) :
    Outcome E :=
  if a.dryRun then .returned true fs
  else if dstSize = 0 then
    cleanup e dst
      (if isVserverRunning a then
        let fs := tryUnlink e.unlinkSlot dst fs
        match UnifyCopy.copy e.copy (fs.lookup src) srcSt dst fs with
        | (false, fs) => .returned false fs
        | (true, fs) => Unify.unify e.unify dst src false fs
      else Unify.unify e.unify src dst true fs)
  else Unify.unify e.unify dst src false fs

/-- `checkDirEntry` and `doit` for what is no directory.  Each lookup reorders the vector of the hash
directories; the next one finds the same (`HashDirs.lookups_found`). -/
def visitFile (a : Args) (e : Env) (hashDirs : List HashDirInfo) (fuel : Nat) (name : Text)
    (fs : FS E) : Option (Outcome E) :=
  if !e.included then some (.returned false fs)
  else
    match checkFstat a e name fs with
    | none => some (.returned false fs)
    | some st =>
      if st.mode.kind = .dir then some (.returned false fs)
      else
        match (findDevice hashDirs (BitVec.ofNat 64 st.dev)).1 with
        | none => some (.returned false fs)
        | some root =>
          match calculateHash a e name st fs with
          | none => some (.returned false fs)
          | some dPath =>
            match resolveCollisions a e (root ++ dPath) st fs fuel 0 with
            | none => none
            | some (.skip, fs) => some (.returned false fs)
            | some (.slot dst size, fs) => some (doit a e name dst st size fs)

/-! ## What the path names afterwards -/

/-- The files in the store have a content with the digest they are named after. -/
def Store (e : Env) (hashDirs : List HashDirInfo) (fs : FS E) : Prop :=
  ∀ d ∈ hashDirs, ∀ x idx j, fs.lookup (slotName (d.path ++ convertDigest (e.digest x)) idx) = some j →
    fs.isReg j = true → (fs.inode j).size ≠ 0 →
    ∃ y, e.digest y = e.digest x ∧ y.data = (fs.inode j).data

/-- The content, the mode, the owner and the time of `n`. -/
structure AsBefore (ignoreMtime : Bool) (n' n : Inode) : Prop where
  data : n'.data = n.data
  mode : n'.mode = n.mode
  uid : n'.uid = n.uid
  gid : n'.gid = n.gid
  mtime : ignoreMtime = false → n'.mtime = n.mtime

theorem AsBefore.of_same {ignoreMtime : Bool} {n n' n'' : Inode} (h : AsBefore ignoreMtime n' n)
    (hsame : n''.Same n') : AsBefore ignoreMtime n'' n :=
  ⟨hsame.data.trans h.data, hsame.mode.trans h.mode, hsame.uid.trans h.uid,
    hsame.gid.trans h.gid, fun hm => hsame.mtime.trans (h.mtime hm)⟩

theorem AsBefore.refl (ignoreMtime : Bool) (n : Inode) : AsBefore ignoreMtime n n :=
  ⟨rfl, rfl, rfl, rfl, fun _ => rfl⟩

/-- The path names such a file. -/
def Keeps (ignoreMtime : Bool) (name : Text) (n : Inode) (fs : FS E) : Prop :=
  ∃ j, fs.lookup name = some j ∧ AsBefore ignoreMtime (fs.inode j) n

section Keeps

variable {ignoreMtime : Bool} {name : Text} {n : Inode} {fs fs' : FS E}

omit [DecidableEq E] in
/-- An inode that was good is good later. -/
theorem keeps_of_extends {j : Nat} (hj : j < fs.next) (hgood : AsBefore ignoreMtime (fs.inode j) n)
    (hext : Extends fs fs') (hnamed : fs'.lookup name = some j) :
    Keeps ignoreMtime name n fs' :=
  ⟨j, hnamed, hgood.of_same (hext.same hj)⟩

/-- **The path becomes a link to a good file**, or nothing happens to it. -/
theorem keeps_of_unify {c : Unify.Calls} {slot : Text} {res : Bool}
    (hname : Keeps ignoreMtime name n fs)
    (hslot : ∀ k, fs.lookup slot = some k → AsBefore ignoreMtime (fs.inode k) n)
    (h : Unify.unify c slot name false fs = .returned res fs') :
    Keeps ignoreMtime name n fs' := by
  have hpost := Unify.unify_post h
  cases res with
  | false =>
    obtain ⟨i, hi, hgood⟩ := hname
    obtain hsame | ⟨hfalse, -⟩ := hpost.failed rfl
    · exact keeps_of_extends (fs.named _ i hi) hgood hpost.extends_ (hsame.trans hi)
    · cases hfalse
  | true =>
    obtain ⟨k, hk, -, hnamed⟩ := hpost.linked rfl
    exact keeps_of_extends (fs.named _ k hk) (hslot k hk) hpost.extends_ hnamed

theorem keeps_of_tryUnlink {works : Bool} {slot : Text} (hne : fs.entry name ≠ fs.entry slot)
    (hname : Keeps ignoreMtime name n fs) :
    Keeps ignoreMtime name n (tryUnlink works slot fs) := by
  obtain ⟨i, hi, hgood⟩ := hname
  refine keeps_of_extends (fs.named _ i hi) hgood ((Extends.refl fs).tryUnlink _ _) ?_
  rw [lookup_tryUnlink_of_ne hne, hi]

theorem keeps_of_created {p : Text} (hname : Keeps ignoreMtime name n fs)
    (hnew : Created fs fs' p) : Keeps ignoreMtime name n fs' := by
  obtain ⟨i, hi, hgood⟩ := hname
  exact keeps_of_extends (fs.named _ i hi) hgood hnew.extends_ ((Grows.of_created hnew).lookup hi)

end Keeps

/-! ## The cases of `doit` -/

/-- The attributes that `lstat` has given. -/
structure StatOf (st : Stat) (n : Inode) : Prop where
  mode : st.mode = n.mode
  uid : st.uid = n.uid
  gid : st.gid = n.gid
  mtime : st.mtime = n.mtime

/-- A new file in the store, by copying. -/
theorem copied_keeps {a : Args} {e : Env} {src dst : Text} {st : Stat} {n : Inode} {i : Nat}
    {fs fs' : FS E} {res : Bool} (hst : StatOf st n) (hkind : n.mode.kind = .reg)
    (hname : fs.lookup src = some i) (hgood : AsBefore a.ignoreMtime (fs.inode i) n)
    (h : (match UnifyCopy.copy e.copy (fs.lookup src) st dst fs with
      | (false, fs) => .returned false fs
      | (true, fs) => Unify.unify e.unify dst src false fs) = Outcome.returned res fs') :
    Keeps a.ignoreMtime src n fs' ∧ Extends fs fs' := by
  have hi := fs.named _ i hname
  have hkeep : Keeps a.ignoreMtime src n fs := ⟨i, hname, hgood⟩
  have hkind' : st.mode.kind = .reg := by rw [hst.mode, hkind]
  rw [hname] at h
  split at h
  · rename_i fs₁ hcopy
    cases h
    have htried := UnifyCopy.copy_tried e.copy (some i) st dst fs (by rw [hkind']; decide)
    rw [hcopy] at htried
    obtain ⟨-, hsame⟩ | hnew := htried
    · obtain rfl : _ = fs := hsame
      exact ⟨hkeep, Extends.refl _⟩
    · exact ⟨keeps_of_created hkeep hnew, hnew.extends_⟩
  · rename_i fs₁ hcopy
    obtain ⟨hnew, hdata, hmode, huid, hgid, hmtime⟩ := UnifyCopy.copy_reg hi hkind' hcopy
    refine ⟨keeps_of_unify (keeps_of_created hkeep hnew) (fun k hk => ?_) h,
      hnew.extends_.trans (Unify.unify_post h).extends_⟩
    rw [hnew.lookup] at hk
    cases hk
    exact ⟨hdata.trans hgood.data, hmode.trans hst.mode, huid.trans hst.uid,
      hgid.trans hst.gid, fun _ => hmtime.trans hst.mtime⟩

theorem cleanup_keeps {a : Args} {e : Env} {src dst : Text} {n : Inode} {fs : FS E} {res : Bool}
    {out : Outcome E} (hne : fs.entry src ≠ fs.entry dst)
    (hout : ∀ res₁ fs₁, out = .returned res₁ fs₁ → Keeps a.ignoreMtime src n fs₁ ∧ Extends fs fs₁)
    {fs' : FS E} (h : cleanup e dst out = .returned res fs') : Keeps a.ignoreMtime src n fs' := by
  cases out with
  | exited fs₁ => cases h
  | returned res₁ fs₁ =>
    obtain ⟨hkeep, hext⟩ := hout res₁ fs₁ rfl
    cases res₁ with
    | true =>
      cases h
      exact hkeep
    | false =>
      cases h
      refine keeps_of_tryUnlink ?_ hkeep
      rwa [hext.entry]

/-- With a slot that is empty. -/
theorem doit_new_keeps {a : Args} {e : Env} {src dst : Text} {st : Stat} {n : Inode} {i : Nat}
    {fs fs' : FS E} {res : Bool} (hst : StatOf st n) (hkind : n.mode.kind = .reg)
    (hname : fs.lookup src = some i) (hgood : AsBefore a.ignoreMtime (fs.inode i) n)
    (hne : fs.entry src ≠ fs.entry dst) (h : doit a e src dst st 0 fs = .returned res fs') :
    Keeps a.ignoreMtime src n fs' := by
  unfold doit at h
  split at h
  · cases h
    exact ⟨i, hname, hgood⟩
  rw [if_pos rfl] at h
  refine cleanup_keeps hne (fun res₁ fs₁ hout => ?_) h
  split at hout
  · have hext : Extends fs (tryUnlink e.unlinkSlot dst fs) := (Extends.refl fs).tryUnlink _ _
    have hname₁ : (tryUnlink e.unlinkSlot dst fs).lookup src = some i := by
      rw [lookup_tryUnlink_of_ne hne, hname]
    have hgood₁ := hgood.of_same (hext.same (fs.named _ i hname))
    obtain ⟨hkeep, hext₁⟩ := copied_keeps hst hkind hname₁ hgood₁ hout
    exact ⟨hkeep, hext.trans hext₁⟩
  · have hpost := Unify.unify_post hout
    refine ⟨keeps_of_extends (fs.named _ i hname) hgood hpost.extends_ ?_, hpost.extends_⟩
    show fs₁.names (fs₁.entry src) = some i
    rw [hpost.extends_.entry]
    exact hpost.kept _ i hne hname

/-- With a file of the store that is good. -/
theorem doit_found_keeps {a : Args} {e : Env} {src dst : Text} {st : Stat} {n : Inode}
    {size : Nat} {fs fs' : FS E} {res : Bool} (hsize : size ≠ 0)
    (hname : Keeps a.ignoreMtime src n fs)
    (hslot : ∀ k, fs.lookup dst = some k → AsBefore a.ignoreMtime (fs.inode k) n)
    (h : doit a e src dst st size fs = .returned res fs') : Keeps a.ignoreMtime src n fs' := by
  unfold doit at h
  split at h
  · cases h
    exact hname
  exact keeps_of_unify hname hslot h

/-! ## The choice of the slot -/

/-- What `resolveCollisions` can find. -/
inductive Resolves (a : Args) (base : Text) (st : Stat) (fs : FS E) : Resolved → FS E → Prop
  | skip {fs' : FS E} (hgrows : Grows fs fs') : Resolves a base st fs .skip fs'
  | found {idx : BitVec 32} {k : Nat} (hk : fs.lookup (slotName base idx) = some k)
      (hsame : isUnifyable a.ignoreMtime st (fs.stat k) = true) :
      Resolves a base st fs (.slot (slotName base idx) (fs.inode k).size) fs
  | fresh {idx : BitVec 32} {fs' : FS E} (hgrows : Grows fs fs')
      (hfree : fs.lookup (slotName base idx) = none) :
      Resolves a base st fs (.slot (slotName base idx) 0) fs'

theorem resolveCollisions_spec {a : Args} {e : Env} {base : Text} {st : Stat} {fs fs' : FS E}
    {fuel : Nat} {idx : BitVec 32} {r : Resolved}
    (h : resolveCollisions a e base st fs fuel idx = some (r, fs')) :
    Resolves a base st fs r fs' := by
  induction fuel generalizing idx with
  | zero => cases h
  | succ fuel ih =>
    unfold resolveCollisions at h
    dsimp only at h
    split at h
    · rename_i hashSt hlstat
      obtain ⟨k, hk, rfl⟩ := Option.map_eq_some_iff.1 hlstat
      split at h
      · cases h
        exact .skip (Grows.refl _)
      · split at h
        · exact ih h
        · rename_i hsame
          cases h
          exact .found hk (by simpa using hsame)
    · rename_i hmissing
      have hmissing : fs.lookup (slotName base idx) = none := Option.map_eq_none_iff.1 hmissing
      split at h
      · cases h
        exact .fresh (Grows.refl _) hmissing
      · have hgrows := Mkdir.mkdirRecursive_grows e.mkdir base fs
        split at h
        · rename_i fs₁ hmk
          rw [hmk] at hgrows
          cases h
          exact .skip hgrows
        · rename_i fs₁ hmk
          rw [hmk] at hgrows
          split at h
          · cases h
            exact .skip hgrows
          · rename_i fs₂ hcreate
            cases h
            have hnew := Created.of_create (attempt_eq_some.1 hcreate).2
            exact .fresh (hgrows.trans (Grows.of_created hnew)) hmissing

omit [DecidableEq E] in
theorem checkFstat_eq_some {a : Args} {e : Env} {name : Text} {fs : FS E} {i : Nat} {st : Stat}
    (hname : fs.lookup name = some i) (hreg : (fs.inode i).mode.kind = .reg)
    (h : checkFstat a e name fs = some st) : st = fs.stat i ∧ hashMinSize ≤ st.size := by
  have hlstat : fs.lstat name = some (fs.stat i) := by simp [FS.lstat, hname]
  have hkind : (fs.stat i).mode.kind = .reg := hreg
  unfold checkFstat at h
  rw [hlstat] at h
  dsimp only at h
  rw [if_neg (by rw [hkind]; decide), if_neg (by rw [hkind]; decide)] at h
  split at h
  · cases h
  · rename_i hsize
    have hsize : hashMinSize ≤ (fs.stat i).size := Nat.le_of_not_lt hsize
    split at h
    · cases h
    · split at h
      · cases h
      · cases h
        exact ⟨rfl, hsize⟩
    · cases h
      exact ⟨rfl, hsize⟩

omit [DecidableEq E] in
theorem calculateHash_eq_some {a : Args} {e : Env} {name : Text} {fs : FS E} {i : Nat} {st : Stat}
    {dPath : Text} (hname : fs.lookup name = some i)
    (h : calculateHash a e name st fs = some dPath) :
    dPath = convertDigest (e.digest (hashInput a st (fs.inode i).data)) := by
  unfold calculateHash at h
  split at h
  · cases h
  rename_i j hopen
  obtain rfl : i = j := Option.some.inj (hname.symm.trans (attempt_eq_some.1 hopen).2)
  split at h
  · cases h
  split at h
  · cases h
  cases h
  rfl

omit [DecidableEq E] in
/-- A slot with the digest and the attributes of the file is a good file. -/
theorem asBefore_of_slot {a : Args} {e : Env} {hashDirs : List HashDirInfo} {root : Text}
    {fs : FS E} {i k : Nat} {idx : BitVec 32} (hstore : Store e hashDirs fs)
    (hdigest : ∀ x y, e.digest x = e.digest y → x.data = y.data)
    (hroot : ∃ d ∈ hashDirs, d.path = root) (hreg : (fs.inode i).mode.kind = .reg)
    (hk : fs.lookup (slotName (root ++ convertDigest
      (e.digest (hashInput a (fs.stat i) (fs.inode i).data))) idx) = some k)
    (hsame : isUnifyable a.ignoreMtime (fs.stat i) (fs.stat k) = true)
    (hsize : (fs.inode k).size ≠ 0) : AsBefore a.ignoreMtime (fs.inode k) (fs.inode i) := by
  obtain ⟨d, hd, rfl⟩ := hroot
  obtain ⟨-, -, hmode, huid, hgid, -, hmtime⟩ := isUnifyable_iff.1 hsame
  have hmode : (fs.inode i).mode = (fs.inode k).mode := hmode
  have hkreg : fs.isReg k = true := by
    rw [FS.isReg, ← hmode, hreg]
    decide
  obtain ⟨y, hy, hdata⟩ := hstore d hd _ idx k hk hkreg hsize
  refine ⟨hdata.symm.trans (hdigest _ _ hy), hmode.symm, huid.symm, hgid.symm, fun hm => ?_⟩
  exact (hmtime hm).symm

/-- The specification of `visitFile`. -/
theorem visitFile_spec {a : Args} {e : Env} {hashDirs : List HashDirInfo} {fuel : Nat}
    {name : Text} {fs fs' : FS E} {i : Nat} {res : Bool}
    (hdigest : ∀ x y, e.digest x = e.digest y → x.data = y.data) (hstore : Store e hashDirs fs)
    (hname : fs.lookup name = some i) (hreg : (fs.inode i).mode.kind = .reg)
    (h : visitFile a e hashDirs fuel name fs = some (.returned res fs')) :
    Keeps a.ignoreMtime name (fs.inode i) fs' := by
  have hi := fs.named _ i hname
  have hself : Keeps a.ignoreMtime name (fs.inode i) fs := ⟨i, hname, AsBefore.refl _ _⟩
  unfold visitFile at h
  split at h
  · cases h
    exact hself
  split at h
  · cases h
    exact hself
  rename_i st hcheck
  obtain ⟨rfl, hmin⟩ := checkFstat_eq_some hname hreg hcheck
  split at h
  · cases h
    exact hself
  split at h
  · cases h
    exact hself
  rename_i root hroot
  have hroot : ∃ d ∈ hashDirs, d.path = root := findDevice_mem hroot
  split at h
  · cases h
    exact hself
  rename_i dPath hhash
  obtain rfl := calculateHash_eq_some hname hhash
  have hst : StatOf (fs.stat i) (fs.inode i) := ⟨rfl, rfl, rfl, rfl⟩
  split at h
  · cases h
  · rename_i fs₁ hres
    cases h
    obtain ⟨hgrows⟩ := resolveCollisions_spec hres
    exact keeps_of_extends hi (AsBefore.refl _ _) hgrows.extends_ (hgrows.lookup hname)
  · rename_i dst size fs₁ hres
    have h : doit a e name dst (fs.stat i) size fs₁ = .returned res fs' := Option.some.inj h
    cases resolveCollisions_spec hres with
    | @found idx k hk hsame =>
      have hsize : (fs.inode k).size ≠ 0 := by
        obtain ⟨-, -, -, -, -, heq, -⟩ := isUnifyable_iff.1 hsame
        have hmin : 0x10 ≤ (fs.stat i).size := hmin
        have hk : (fs.stat k).size = (fs.inode k).size := rfl
        omega
      have hgood := asBefore_of_slot hstore hdigest hroot hreg hk hsame hsize
      refine doit_found_keeps hsize hself (fun k' hk' => ?_) h
      rw [hk] at hk'
      cases hk'
      exact hgood
    | fresh hgrows hfree =>
      have hgood := (AsBefore.refl a.ignoreMtime (fs.inode i)).of_same (hgrows.extends_.same hi)
      refine doit_new_keeps hst hreg (hgrows.lookup hname) hgood ?_ h
      rw [hgrows.extends_.entry]
      intro heq
      have hname : fs.names (fs.entry name) = some i := hname
      have hfree : fs.names (fs.entry _) = none := hfree
      rw [heq, hfree] at hname
      cases hname

/-- **No data is lost**, as long as the files in the store have the digests they are named after:
when the processing of a file returns, its path names a file with the content, the mode, the owner
and, unless it is ignored, the time it had before. -/
theorem visitFile_keeps {a : Args} {e : Env} {hashDirs : List HashDirInfo} {fuel : Nat}
    {name : Text} {fs fs' : FS E} {i : Nat} {res : Bool}
    (hdigest : ∀ x y, e.digest x = e.digest y → x.data = y.data) (hstore : Store e hashDirs fs)
    (hname : fs.lookup name = some i) (hreg : fs.isReg i = true)
    (h : visitFile a e hashDirs fuel name fs = some (.returned res fs')) :
    ∃ j, fs'.lookup name = some j ∧ fs'.isReg j = true ∧
      AsBefore a.ignoreMtime (fs'.inode j) (fs.inode i) := by
  have hkind : (fs.inode i).mode.kind = .reg := by simpa [FS.isReg] using hreg
  obtain ⟨j, hj, hgood⟩ := visitFile_spec hdigest hstore hname hkind h
  refine ⟨j, hj, ?_, hgood⟩
  rw [FS.isReg, hgood.mode, hkind]
  decide

/-- Every call works; the digest is the content itself. -/
def allWork : Env where
  digest x := x.data
  included := true
  getIattr := true
  nlink := 1
  openFile := true
  hash := true
  mkdir := ⟨fun _ => true, ⟨0, 0, 0, 1⟩⟩
  openSlot := true
  unlinkSlot := true
  copy :=
    { readlink := true, symlink := true, openSrc := true, openDst := true, fstat := true,
      lseek := true, ftruncate := true, block := fun _ => .copied, closeOut := true,
      closeIn := true, mkdir := true, mknod := true, lchown := true, chmod := true, utime := true,
      creator := ⟨0, 0, 0, 1⟩ }
  unify := { Unify.linkFails with link := true }
  unlinkCleanup := true

def sledgehammer : Args := ⟨2, false, false, false⟩

/-- The file `a` has sixteen zeros; the store is empty. -/
def zerosFile : FS Text :=
  Unify.twoFiles.modify 1 fun n => { n with data := List.replicate 16 0 }

theorem zerosFile_store : Store allWork [⟨0, "/h/".toList⟩] zerosFile := by
  intro d _ x idx j hj _ _
  exfalso
  have hlen : 9 ≤ (slotName (d.path ++ convertDigest (allWork.digest x)) idx).length := by
    simp [slotName, slotNumber]
    omega
  have hj : Unify.twoFiles.names (slotName _ idx) = some j := hj
  generalize slotName (d.path ++ convertDigest (allWork.digest x)) idx = t at hlen hj
  simp only [Unify.twoFiles] at hj
  split at hj
  · rename_i ht
    simp [ht] at hlen
  · split at hj
    · rename_i ht
      simp [ht] at hlen
    · split at hj
      · rename_i ht
        simp [ht] at hlen
      · cases hj

theorem visitFile_keeps_zerosFile : ∃ fs',
    visitFile sledgehammer allWork [⟨0, "/h/".toList⟩] 1 ['a'] zerosFile =
        some (.returned true fs') ∧
      ∃ j, fs'.lookup ['a'] = some j ∧ fs'.isReg j = true ∧
        AsBefore false (fs'.inode j) (zerosFile.inode 1) := by
  obtain ⟨fs', h⟩ : ∃ fs', visitFile sledgehammer allWork [⟨0, "/h/".toList⟩] 1 ['a'] zerosFile =
      some (.returned true fs') := ⟨_, rfl⟩
  exact ⟨fs', h, visitFile_keeps (fun x y hxy => hxy) zerosFile_store rfl rfl h⟩

/-- The store has the content of `b` under the digest of `a`. -/
def corruptStore : FS Text :=
  (zerosFile.modify 2 fun n => { n with data := List.replicate 16 1 }).setName
    (slotName ("/h/".toList ++ convertDigest (List.replicate 16 0)) 0) 2

/-- **The names in the store are believed**: a file is replaced by another content. -/
theorem visitFile_corruptStore :
    (∀ x y, allWork.digest x = allWork.digest y → x.data = y.data) ∧
      corruptStore.lookup ['a'] = some 1 ∧ corruptStore.isReg 1 = true ∧
      ∃ fs' j, visitFile sledgehammer allWork [⟨0, "/h/".toList⟩] 1 ['a'] corruptStore =
          some (.returned true fs') ∧
        fs'.lookup ['a'] = some j ∧ (fs'.inode j).data ≠ (corruptStore.inode 1).data := by
  refine ⟨fun x y hxy => hxy, rfl, rfl, _, 2, rfl, rfl, ?_⟩
  decide

end Vhashify
