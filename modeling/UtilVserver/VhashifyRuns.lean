import UtilVserver.Vhashify
import UtilVserver.Sealed
import UtilVserver.Lib.Transition

/-!
# Guests that share files

A host whose tools link the files of its guests to each other, while the guests go on working.

* `Site` — the store, and which entry belongs to whom.
* `Guest` — what a guest can do: it reaches what its own entries name, and sealed files can only be
  unlinked.
* `Step` — `vhashify` on one file, `Unify_unify`, `Unify_deUnify` or a guest.
* `Sound` — files with more than one owner are sealed; the store has the contents that it is asked
  for.

Principal result: `run_sharing`.
-/

set_option autoImplicit false

namespace VhashifyRuns

open CString FileSystem FS Transition Sealing Vhashify
open Unify (Outcome isUnifyable isUnifyable_iff)

variable {E O : Type}

/-! ## One file -/

theorem asBefore_mono {m m' : Bool} {n n' : Inode} (h : AsBefore m n' n)
    (hm : m = true → m' = true) : AsBefore m' n' n := by
  refine ⟨h.data, h.mode, h.uid, h.gid, fun hm' => h.mtime ?_⟩
  cases m with
  | false => rfl
  | true => exact absurd (hm rfl) (by rw [hm']; decide)

theorem asBefore_trans {m : Bool} {n n' n'' : Inode} (h : AsBefore m n' n)
    (h' : AsBefore m n'' n') : AsBefore m n'' n :=
  ⟨h'.data.trans h.data, h'.mode.trans h.mode, h'.uid.trans h.uid, h'.gid.trans h.gid,
    fun hm => (h'.mtime hm).trans (h.mtime hm)⟩

theorem asBefore_of_extends (m : Bool) {fs fs' : FS E} (h : Extends fs fs') {i : Nat}
    (hi : i < fs.next) : AsBefore m (fs'.inode i) (fs.inode i) :=
  (AsBefore.refl m _).of_same (h.same hi)

variable [DecidableEq E]

/-- The path and the slot name one sealed file, which is as the file `n` was. -/
structure Unified (m : Bool) (name slot : Text) (n : Inode) (k : Nat) (fs fs' : FS E) : Prop where
  extends_ : Extends fs fs'
  seals : Seals fs fs'
  isSealed : Sealed fs' k
  good : AsBefore m (fs'.inode k) n
  name_eq : fs'.lookup name = some k
  slot_eq : fs'.lookup slot = some k
  others : ∀ e, e ≠ fs.entry name → e ≠ fs.entry slot → fs'.names e = fs.names e
  was : fs.lookup slot = none ∨ fs.lookup slot = some k

/-- What stands in the way of the old names is at most a file under the slot. -/
structure Undone (slot : Text) (fs fs' : FS E) : Prop where
  extends_ : Extends fs fs'
  seals : Seals fs fs'
  others : ∀ e, e ≠ fs.entry slot → fs'.names e = fs.names e
  nodir : ∀ j, fs'.lookup slot = some j → fs'.isDir j = false

theorem Undone.names_cleanup {slot : Text} {fs fs' : FS E} (h : Undone slot fs fs')
    (hfree : fs.lookup slot = none) : (tryUnlink true slot fs').names = fs.names := by
  have hfree : fs.names (fs.entry slot) = none := hfree
  funext e
  by_cases he : e = fs.entry slot
  · subst he
    cases hslot : fs'.lookup slot with
    | none =>
      rw [tryUnlink_of_none hslot, hfree, ← h.extends_.entry]
      exact hslot
    | some j =>
      rw [tryUnlink_of_some hslot (h.nodir j hslot), names_clear, h.extends_.entry,
        Function.update_self, hfree]
  · obtain heq | heq := tryUnlink_cases true slot fs'
    · rw [heq, h.others e he]
    · rw [heq, names_clear, h.extends_.entry, Function.update_of_ne he, h.others e he]

theorem undone_of_made {slot : Text} {fs fs' : FS E} (h : Made fs fs' slot) :
    Undone slot fs fs' where
  extends_ := h.extends_
  seals := h.seals
  others _ he := h.names_of_ne he
  nodir j hj := by
    rw [h.lookup] at hj
    cases hj
    exact h.nodir

/-- A failure of `Unify_unify` behind the new file. -/
theorem undone_of_unify {c : Unify.Calls} {src dst slot : Text} {ignoreZero : Bool}
    {fs fs₁ fs' : FS E} (hmade : Made fs fs₁ slot) (hclean : c.unlinkTmp = true)
    (h : Unify.unify c src dst ignoreZero fs₁ = .returned false fs')
    (hdst : fs.entry dst ≠ fs.entry slot → fs'.lookup dst = fs₁.lookup dst) :
    Undone slot fs fs' := by
  have hpost := Unify.unify_post h
  have hext := hmade.extends_.trans hpost.extends_
  have hslot : fs'.lookup slot = some fs.next ∨ fs'.lookup slot = none := by
    by_cases he : fs₁.entry slot = fs₁.entry dst
    · have hcopy : ∀ fs₂ : FS E, fs₂.entry = fs₁.entry → fs₂.lookup slot = fs₂.lookup dst := by
        intro fs₂ heq
        show fs₂.names (fs₂.entry slot) = fs₂.names (fs₂.entry dst)
        rw [heq, he]
      rw [hcopy fs' hpost.extends_.entry]
      obtain hsame | ⟨-, -, hnone⟩ := hpost.failed rfl
      · exact Or.inl (by rw [hsame, ← hcopy fs₁ rfl, hmade.lookup])
      · exact Or.inr hnone
    · refine Or.inl ?_
      show fs'.names (fs'.entry slot) = _
      rw [hpost.extends_.entry]
      exact hpost.kept _ _ he hmade.lookup
  refine ⟨hext, hmade.seals.trans (unify_seals h).1, fun e he => ?_, fun j hj => ?_⟩
  · rw [← hmade.names_of_ne he]
    by_cases hed : e = fs₁.entry dst
    · have heq : fs₁.entry dst = fs.entry dst := by rw [hmade.extends_.entry]
      have hsame := hdst (by rwa [← heq, ← hed])
      have hsame : fs'.names (fs'.entry dst) = fs₁.names (fs₁.entry dst) := hsame
      rwa [hpost.extends_.entry, ← hed] at hsame
    · exact hpost.clean hclean e hed
  · obtain hsome | hnone := hslot
    · rw [hsome] at hj
      cases hj
      have hnew : fs.next < fs₁.next := fs₁.named _ _ hmade.lookup
      rw [isDir_of_extends hpost.extends_ hnew]
      exact hmade.nodir
    · rw [hnone] at hj
      cases hj

/-- What `doit` leaves behind when the slot is new: the old names, or the shared file. -/
def Done (m : Bool) (name slot : Text) (n : Inode) (fs fs' : FS E) : Prop :=
  (Extends fs fs' ∧ Seals fs fs' ∧ fs'.names = fs.names) ∨ ∃ k, Unified m name slot n k fs fs'

theorem done_of_undone {m : Bool} {name slot : Text} {n : Inode} {fs fs' : FS E}
    (h : Undone slot fs fs') (hfree : fs.lookup slot = none) :
    Done m name slot n fs (tryUnlink true slot fs') :=
  Or.inl ⟨h.extends_.tryUnlink _ _, h.seals.tryUnlink _ _, h.names_cleanup hfree⟩

omit [DecidableEq E] in
theorem Undone.trans {slot : Text} {fs fs₁ fs₂ : FS E} (h : Undone slot fs fs₁)
    (h' : Undone slot fs₁ fs₂) : Undone slot fs fs₂ where
  extends_ := h.extends_.trans h'.extends_
  seals := h.seals.trans h'.seals
  others e he := by rw [h'.others e (by rwa [h.extends_.entry]), h.others e he]
  nodir := h'.nodir

/-- The new file is a copy. -/
theorem done_of_copy {a : Args} {e : Env} {src dst : Text} {st : Stat} {n : Inode} {i : Nat}
    {fs fs₁ fs' : FS E} {res : Bool} (hclean : e.unify.unlinkTmp = true)
    (hcleanup : e.unlinkCleanup = true) (hst : StatOf st n) (hkind : n.mode.kind = .reg)
    (hfree : fs.lookup dst = none) (hundone : Undone dst fs fs₁)
    (hname : fs₁.lookup src = some i) (hdata : (fs₁.inode i).data = n.data)
    (h : cleanup e dst (match UnifyCopy.copy e.copy (fs₁.lookup src) st dst fs₁ with
      | (false, fs) => .returned false fs
      | (true, fs) => Unify.unify e.unify dst src false fs) = Outcome.returned res fs') :
    Done a.ignoreMtime src dst n fs fs' := by
  have hi := fs₁.named _ i hname
  have hkind' : st.mode.kind = .reg := by rw [hst.mode, hkind]
  rw [hname] at h
  have hmade := copy_made e.copy (some i) dst fs₁ hkind'
  cases hcopy : UnifyCopy.copy e.copy (some i) st dst fs₁ with
  | mk ok fs₂ =>
  rw [hcopy] at h hmade
  cases ok with
  | false =>
    obtain rfl : tryUnlink e.unlinkCleanup dst fs₂ = fs' := by
      cases h
      rfl
    rw [hcleanup]
    obtain rfl | hmade := hmade
    · exact done_of_undone hundone hfree
    · exact done_of_undone (hundone.trans (undone_of_made hmade)) hfree
  | true =>
    obtain ⟨hnew, hdata', hmode, huid, hgid, hmtime⟩ := UnifyCopy.copy_reg hi hkind' hcopy
    have hmade : Made fs₁ fs₂ dst := by
      obtain hsame | hmade := hmade
      · obtain rfl : fs₂ = fs₁ := hsame
        have hnone : fs₂.lookup dst = none := hnew.free
        rw [hnew.lookup] at hnone
        cases hnone
      · exact hmade
    have hne : fs₁.entry src ≠ fs₁.entry dst := hnew.entry_ne hname
    have h : cleanup e dst (Unify.unify e.unify dst src false fs₂) = .returned res fs' := h
    cases hunify : Unify.unify e.unify dst src false fs₂ with
    | exited fs₃ =>
      rw [hunify] at h
      cases h
    | returned res₁ fs₃ =>
    rw [hunify] at h
    have hpost := Unify.unify_post hunify
    cases res₁ with
    | false =>
      obtain rfl : tryUnlink e.unlinkCleanup dst fs₃ = fs' := by
        cases h
        rfl
      rw [hcleanup]
      refine done_of_undone (hundone.trans (undone_of_unify hmade hclean hunify fun _ => ?_)) hfree
      obtain hsame | ⟨hfalse, -⟩ := hpost.failed rfl
      · exact hsame
      · cases hfalse
    | true =>
      obtain rfl : fs₃ = fs' := by
        cases h
        rfl
      obtain ⟨k, hk, hdst, hsrc⟩ := hpost.linked rfl
      rw [hnew.lookup] at hk
      cases hk
      have hgood : AsBefore a.ignoreMtime (fs₂.inode fs₁.next) n :=
        ⟨hdata'.trans hdata, hmode.trans hst.mode, huid.trans hst.uid, hgid.trans hst.gid,
          fun _ => hmtime.trans hst.mtime⟩
      refine Or.inr ⟨fs₁.next, ?_⟩
      exact
        { extends_ := (hundone.extends_.trans hmade.extends_).trans hpost.extends_
          seals := (hundone.seals.trans hmade.seals).trans (unify_seals hunify).1
          isSealed := (unify_seals hunify).2 rfl _ hnew.lookup
          good := hgood.of_same (hpost.extends_.same (fs₂.named _ _ hnew.lookup))
          name_eq := hsrc
          slot_eq := hdst
          others := fun x hsx hdx => by
            have hsx : x ≠ fs₂.entry src := by rwa [hnew.extends_.entry, hundone.extends_.entry]
            rw [hpost.clean hclean x hsx, hnew.names_of_ne (by rwa [hundone.extends_.entry]),
              hundone.others x hdx]
          was := Or.inl hfree }

/-- The new file is the file itself. -/
theorem done_of_link {a : Args} {e : Env} {src dst : Text} {n : Inode} {i : Nat}
    {fs fs₁ fs' : FS E} {res : Bool} (hclean : e.unify.unlinkTmp = true)
    (hcleanup : e.unlinkCleanup = true) (hmade : Made fs fs₁ dst)
    (hname : fs.lookup src = some i) (hgood : AsBefore a.ignoreMtime (fs.inode i) n)
    (h : cleanup e dst (Unify.unify e.unify src dst true fs₁) = Outcome.returned res fs') :
    Done a.ignoreMtime src dst n fs fs' := by
  have hi := fs.named _ i hname
  cases hunify : Unify.unify e.unify src dst true fs₁ with
  | exited fs₃ =>
    rw [hunify] at h
    cases h
  | returned res₁ fs₃ =>
  rw [hunify] at h
  have hpost := Unify.unify_post hunify
  cases res₁ with
  | false =>
    obtain rfl : tryUnlink e.unlinkCleanup dst fs₃ = fs' := by
      cases h
      rfl
    rw [hcleanup]
    exact done_of_undone (undone_of_unify hmade hclean hunify fun hne => absurd rfl hne)
      hmade.free
  | true =>
    obtain rfl : fs₃ = fs' := by
      cases h
      rfl
    have hsame : fs₁.lookup src = some i := (Grows.of_created hmade.toCreated).lookup hname
    obtain ⟨k, hk, hsrc, hdst⟩ := hpost.linked rfl
    rw [hsame] at hk
    cases hk
    have hext := hmade.extends_.trans hpost.extends_
    refine Or.inr ⟨i, ?_⟩
    exact
      { extends_ := hext
        seals := hmade.seals.trans (unify_seals hunify).1
        isSealed := (unify_seals hunify).2 rfl i hsame
        good := hgood.of_same (hext.same hi)
        name_eq := hsrc
        slot_eq := hdst
        others := fun x _ hdx => by
          rw [hpost.clean hclean x (by rwa [hmade.extends_.entry]), hmade.names_of_ne hdx]
        was := Or.inl hmade.free }

/-- `doit` with a slot that has just been created. -/
theorem doit_new {a : Args} {e : Env} {src dst : Text} {st : Stat} {n : Inode} {i : Nat}
    {fs fs₁ fs' : FS E} {res : Bool} (hdry : a.dryRun = false)
    (hclean : e.unify.unlinkTmp = true) (hcleanup : e.unlinkCleanup = true) (hst : StatOf st n)
    (hkind : n.mode.kind = .reg) (hmade : Made fs fs₁ dst) (hname : fs.lookup src = some i)
    (hgood : AsBefore a.ignoreMtime (fs.inode i) n)
    (h : doit a e src dst st 0 fs₁ = .returned res fs') :
    Done a.ignoreMtime src dst n fs fs' := by
  have hi := fs.named _ i hname
  have hne := hmade.entry_ne hname
  unfold doit at h
  rw [if_neg (by rw [hdry]; decide), if_pos rfl] at h
  split at h
  · dsimp only at h
    have hundone := undone_of_made hmade
    have hundone : Undone dst fs (tryUnlink e.unlinkSlot dst fs₁) := by
      obtain heq | heq := tryUnlink_cases e.unlinkSlot dst fs₁
      · rwa [heq]
      · rw [heq]
        refine ⟨hundone.extends_.clear _, hundone.seals.clear _, fun x hx => ?_, fun j hj => ?_⟩
        · rw [names_clear, hundone.extends_.entry, Function.update_of_ne hx, hundone.others x hx]
        · have hj : (fs₁.clear (fs₁.entry dst)).names (fs₁.entry dst) = some j := hj
          rw [names_clear, Function.update_self] at hj
          cases hj
    refine done_of_copy (i := i) hclean hcleanup hst hkind hmade.free hundone ?_ ?_ h
    · show FS.names _ (FS.entry _ src) = some i
      rw [hundone.extends_.entry, hundone.others _ hne]
      exact hname
    · rw [(hundone.extends_.same hi).data, hgood.data]
  · exact done_of_link hclean hcleanup hmade hname hgood h

/-- `doit` with a file of the store. -/
theorem doit_found {a : Args} {e : Env} {src dst : Text} {st : Stat} {n : Inode} {k size : Nat}
    {fs fs' : FS E} {res : Bool} (hdry : a.dryRun = false) (hclean : e.unify.unlinkTmp = true)
    (hsize : size ≠ 0) (hk : fs.lookup dst = some k)
    (hgood : AsBefore a.ignoreMtime (fs.inode k) n)
    (h : doit a e src dst st size fs = .returned res fs') :
    Done a.ignoreMtime src dst n fs fs' := by
  unfold doit at h
  rw [if_neg (by rw [hdry]; decide), if_neg hsize] at h
  have hpost := Unify.unify_post h
  have hseals := unify_seals h
  cases res with
  | false =>
    refine Or.inl ⟨hpost.extends_, hseals.1, funext fun x => ?_⟩
    by_cases hx : x = fs.entry src
    · obtain hsame | ⟨hfalse, -⟩ := hpost.failed rfl
      · have hsame : fs'.names (fs'.entry src) = fs.names (fs.entry src) := hsame
        rwa [hpost.extends_.entry, ← hx] at hsame
      · cases hfalse
    · exact hpost.clean hclean x hx
  | true =>
    obtain ⟨j, hj, hdst, hsrc⟩ := hpost.linked rfl
    rw [hk] at hj
    cases hj
    refine Or.inr ⟨k, ?_⟩
    exact
      { extends_ := hpost.extends_
        seals := hseals.1
        isSealed := hseals.2 rfl k hk
        good := hgood.of_same (hpost.extends_.same (fs.named _ k hk))
        name_eq := hsrc
        slot_eq := hdst
        others := fun x hx _ => hpost.clean hclean x hx
        was := Or.inr hk }

/-- What `resolveCollisions` has added. -/
inductive Chosen (a : Args) (base : Text) (st : Stat) (fs : FS E) : Resolved → FS E → Prop
  | skip {fs' : FS E} (hadds : Adds fs fs') : Chosen a base st fs .skip fs'
  | found {idx : BitVec 32} {k : Nat} (hk : fs.lookup (slotName base idx) = some k)
      (hsame : isUnifyable a.ignoreMtime st (fs.stat k) = true) :
      Chosen a base st fs (.slot (slotName base idx) (fs.inode k).size) fs
  | dry {idx : BitVec 32} (hdry : a.dryRun = true) :
      Chosen a base st fs (.slot (slotName base idx) 0) fs
  | new {idx : BitVec 32} {fs₁ fs' : FS E} (hadds : Adds fs fs₁)
      (hdry : a.dryRun = false) (hmade : Made fs₁ fs' (slotName base idx)) :
      Chosen a base st fs (.slot (slotName base idx) 0) fs'

theorem resolveCollisions_chosen {a : Args} {e : Env} {base : Text} {st : Stat} {fs fs' : FS E}
    {fuel : Nat} {idx : BitVec 32} {r : Resolved}
    (h : resolveCollisions a e base st fs fuel idx = some (r, fs')) :
    Chosen a base st fs r fs' := by
  induction fuel generalizing idx with
  | zero => cases h
  | succ fuel ih =>
    unfold resolveCollisions at h
    dsimp only at h
    split at h
    · rename_i hashSt hlstat
      obtain ⟨k, hk, rfl⟩ := Option.map_eq_some_iff.1 hlstat
      split at h
      · cases h
        exact .skip (Adds.refl _)
      · split at h
        · exact ih h
        · rename_i hsame
          cases h
          exact .found hk (by simpa using hsame)
    · split at h
      · rename_i hdry
        cases h
        exact .dry hdry
      · rename_i hdry
        have hadds := mkdirRecursive_adds e.mkdir base fs
        split at h <;> rename_i fs₁ hmk <;> rw [hmk] at hadds
        · cases h
          exact .skip hadds
        · split at h
          · cases h
            exact .skip hadds
          · rename_i fs₂ hcreate
            cases h
            exact .new hadds (by simpa using hdry)
              (Made.of_create (attempt_eq_some.1 hcreate).2)

omit [DecidableEq E] in
/-- What passes `checkFstat` is a directory or a regular file. -/
theorem checkFstat_file {a : Args} {e : Env} {name : Text} {fs : FS E} {st : Stat}
    (h : checkFstat a e name fs = some st) (hdir : st.mode.kind ≠ .dir) :
    ∃ i, fs.lookup name = some i ∧ (fs.inode i).mode.kind = .reg ∧ st = fs.stat i ∧
      hashMinSize ≤ st.size := by
  have hcheck := h
  unfold checkFstat at h
  split at h
  · cases h
  rename_i st₁ hlstat
  obtain ⟨i, hi, rfl⟩ := Option.map_eq_some_iff.1 hlstat
  split at h
  · cases h
    contradiction
  split at h
  · cases h
  rename_i hreg
  have hreg : (fs.inode i).mode.kind = .reg := not_not.1 hreg
  obtain ⟨rfl, hmin⟩ := checkFstat_eq_some hi hreg hcheck
  exact ⟨i, hi, hreg, rfl, hmin⟩

/-! ## The system -/

/-- The store of a host, and to whom the entries belong. -/
structure Site (E O : Type) where
  entry : Text → E
  hashDirs : List HashDirs.HashDirInfo
  digest : HashInput → List UInt8
  /-- What has been hashed. -/
  hashed : HashInput → Prop
  ignoreMtime : Bool
  owner : E → O
  host : O
  owned : ∀ d ∈ hashDirs, ∀ x idx,
    owner (entry (slotName (d.path ++ convertDigest (digest x)) idx)) = host
  /-- Different contents get different slots. -/
  apart : ∀ d ∈ hashDirs, ∀ d' ∈ hashDirs, ∀ x y idx idx', hashed x → hashed y →
    entry (slotName (d.path ++ convertDigest (digest x)) idx) =
      entry (slotName (d'.path ++ convertDigest (digest y)) idx') → x.data = y.data

/-- The entry is a slot for the input. -/
def Site.Slot (s : Site E O) (x : HashInput) (e : E) : Prop :=
  ∃ d ∈ s.hashDirs, ∃ idx, e = s.entry (slotName (d.path ++ convertDigest (s.digest x)) idx)

/-- What the guest `g` can do.  Sealed files, and files that it has no name for, stay as they are;
a new name is for a new file or for one that it has a name for. -/
structure Guest (s : Site E O) (g : O) (fs fs' : FS E) : Prop where
  entry : fs'.entry = fs.entry
  next_le : fs.next ≤ fs'.next
  names : ∀ e, s.owner e ≠ g → fs'.names e = fs.names e
  links : ∀ e j, s.owner e = g → fs'.names e = some j →
    fs.next ≤ j ∨ ∃ e', s.owner e' = g ∧ fs.names e' = some j
  inodes : ∀ i < fs.next, Sealed fs i ∨ (∀ e, s.owner e = g → fs.names e ≠ some i) →
    (fs'.inode i).plain = (fs.inode i).plain ∧ (Sealed fs i → Sealed fs' i)

inductive Label (E O : Type) where
  | visit
  | unify (dst : E)
  | deUnify
  | guest (g : O)

/-- One program on one file, with any failing calls but those of the clean-up; or a guest.  A program
has returned before the next step: no guest acts between a hash and the link. -/
inductive Step (s : Site E O) : FS E → Label E O → FS E → Prop
  | visit {a : Args} {e : Env} {fuel : Nat} {name : Text} {res : Bool} {fs fs' : FS E}
      (hdigest : e.digest = s.digest) (hm : a.ignoreMtime = true → s.ignoreMtime = true)
      (hclean : e.unify.unlinkTmp = true) (hcleanup : e.unlinkCleanup = true)
      (hhashed : ∀ i, fs.lookup name = some i →
        s.hashed (hashInput a (fs.stat i) (fs.inode i).data))
      (h : visitFile a e s.hashDirs fuel name fs = some (.returned res fs')) : Step s fs .visit fs'
  | unify {c : Unify.Calls} {src dst : Text} {res : Bool} {fs fs' : FS E}
      (howner : s.owner (s.entry dst) ≠ s.host) (hclean : c.unlinkTmp = true)
      (h : Unify.unify c src dst false fs = .returned res fs') :
      Step s fs (.unify (s.entry dst)) fs'
  | deUnify {c : DeUnify.Calls} {dst : Text} {i : Nat} {res : Bool} {fs fs' : FS E}
      (howner : s.owner (s.entry dst) ≠ s.host) (hdst : fs.lookup dst = some i)
      (hreg : fs.isReg i = true) (hclean : c.unlinkTmp = true)
      (h : DeUnify.deUnify c dst fs = .returned res fs') : Step s fs .deUnify fs'
  | guest {g : O} {fs fs' : FS E} (hg : g ≠ s.host) (h : Guest s g fs fs') :
      Step s fs (.guest g) fs'

/-- The store keeps what it is asked for, and what has two owners is sealed. -/
structure Sound (s : Site E O) (fs : FS E) : Prop where
  entry : fs.entry = s.entry
  stored : ∀ x e j, s.hashed x → s.Slot x e → fs.names e = some j → fs.isReg j = true →
    (fs.inode j).data = x.data ∧ Sealed fs j
  isolated : ∀ e e' i, fs.names e = some i → fs.names e' = some i → s.owner e ≠ s.owner e' →
    Sealed fs i

/-- The file behind the entry is as before. -/
def Shows (s : Site E O) (fs fs' : FS E) (e : E) : Prop :=
  ∀ i, fs.names e = some i →
    ∃ j, fs'.names e = some j ∧ AsBefore s.ignoreMtime (fs'.inode j) (fs.inode i)

section Steps

variable {s : Site E O} {fs fs₁ fs' : FS E}

omit [DecidableEq E] in
theorem Site.Slot.owner {x : HashInput} {e : E} (h : s.Slot x e) : s.owner e = s.host := by
  obtain ⟨d, hd, idx, rfl⟩ := h
  exact s.owned d hd x idx

omit [DecidableEq E] in
theorem Site.Slot.data_eq {x y : HashInput} {e : E} (hx : s.Slot x e) (hy : s.Slot y e)
    (hhx : s.hashed x) (hhy : s.hashed y) : x.data = y.data := by
  obtain ⟨d, hd, idx, rfl⟩ := hx
  obtain ⟨d', hd', idx', heq⟩ := hy
  exact s.apart d hd d' hd' x y idx idx' hhx hhy heq

omit [DecidableEq E] in
theorem isReg_of_extends (h : Extends fs fs') {i : Nat} (hi : i < fs.next) :
    fs'.isReg i = fs.isReg i := by
  unfold FS.isReg
  rw [(h.same hi).mode]

omit [DecidableEq E] in
theorem shows_of_grows (h : Grows fs fs') (e : E) : Shows s fs fs' e :=
  fun i hi => ⟨i, h.kept e i hi, asBefore_of_extends _ h.extends_ (fs.named e i hi)⟩

omit [DecidableEq E] in
/-- A name that is not new is for a file that was stored. -/
theorem stored_of_old (hsound : Sound s fs) (hext : Extends fs fs') (hseals : Seals fs fs')
    {x : HashInput} {e : E} {j : Nat} (hx : s.hashed x) (hslot : s.Slot x e)
    (hold : fs.names e = some j) (hreg : fs'.isReg j = true) :
    (fs'.inode j).data = x.data ∧ Sealed fs' j := by
  have hj := fs.named e j hold
  rw [isReg_of_extends hext hj] at hreg
  obtain ⟨hdata, hsealed⟩ := hsound.stored x e j hx hslot hold hreg
  exact ⟨(hext.same hj).data.trans hdata, hseals.kept j hj hsealed⟩

omit [DecidableEq E] in
theorem not_reg_of_dir {i : Nat} (h : fs.isDir i = true) : fs.isReg i = false := by
  unfold FS.isDir FS.isReg at *
  simp only [decide_eq_true_eq] at h
  rw [h]
  rfl

omit [DecidableEq E] in
theorem sound_of_adds (hsound : Sound s fs) (h : Adds fs fs') : Sound s fs' where
  entry := h.extends_.entry.trans hsound.entry
  stored x e j hx hslot hj hreg := by
    obtain hold | ⟨-, hdir⟩ := h.fresh e j hj
    · exact stored_of_old hsound h.extends_ h.seals hx hslot hold hreg
    · rw [not_reg_of_dir hdir] at hreg
      cases hreg
  isolated e e' i he he' howner := by
    obtain hold | ⟨hle, -⟩ := h.fresh e i he
    · obtain hold' | ⟨hle, -⟩ := h.fresh e' i he'
      · exact h.seals.kept i (fs.named e i hold) (hsound.isolated e e' i hold hold' howner)
      · exact absurd hold (names_ne_of_le hle e)
    · exact absurd (congrArg s.owner (h.once e e' i hle he he')) howner

/-! ### One shared file more -/

omit [DecidableEq E] in
theorem names_unified {m : Bool} {name slot : Text} {n : Inode} {k : Nat}
    (h : Unified m name slot n k fs fs') {e : E} {j : Nat} (hj : fs'.names e = some j)
    (hne : j ≠ k) : e ≠ fs.entry name ∧ e ≠ fs.entry slot ∧ fs.names e = some j := by
  have hname : e ≠ fs.entry name := by
    rintro rfl
    rw [← h.extends_.entry] at hj
    exact hne (Option.some.inj (hj.symm.trans h.name_eq))
  have hslot : e ≠ fs.entry slot := by
    rintro rfl
    rw [← h.extends_.entry] at hj
    exact hne (Option.some.inj (hj.symm.trans h.slot_eq))
  exact ⟨hname, hslot, by rwa [h.others e hname hslot] at hj⟩

theorem shows_of_unified {name slot : Text} {i k : Nat} (hname : fs.lookup name = some i)
    (hadds : Adds fs fs₁) (h : Unified s.ignoreMtime name slot (fs.inode i) k fs₁ fs') (e : E) :
    Shows s fs fs' e := by
  intro j hj
  have hext := hadds.extends_.trans h.extends_
  have hj₁ := hadds.kept e j hj
  by_cases hen : e = fs₁.entry name
  · refine ⟨k, ?_, ?_⟩
    · rw [hen, ← h.extends_.entry]
      exact h.name_eq
    · have hname : fs.names (fs.entry name) = some i := hname
      rw [← hadds.extends_.entry, ← hen, hj] at hname
      cases hname
      exact h.good
  by_cases hes : e = fs₁.entry slot
  · -- a slot that was taken has kept its file
    have hslot : fs₁.lookup slot = some j := by
      show fs₁.names (fs₁.entry slot) = some j
      rw [← hes, hj₁]
    have hwas := h.was
    rw [hslot] at hwas
    obtain hnone | hsome := hwas
    · cases hnone
    · cases hsome
      refine ⟨k, ?_, asBefore_of_extends _ hext (fs.named e k hj)⟩
      rw [hes, ← h.extends_.entry]
      exact h.slot_eq
  · refine ⟨j, ?_, asBefore_of_extends _ hext (fs.named e j hj)⟩
    rw [h.others e hen hes, hj₁]

theorem sound_of_unified {name slot : Text} {i k : Nat} {x : HashInput} (hsound : Sound s fs)
    (hname : fs.lookup name = some i) (hx : s.hashed x) (hdata : x.data = (fs.inode i).data)
    (hslot : s.Slot x (s.entry slot)) (hadds : Adds fs fs₁)
    (h : Unified s.ignoreMtime name slot (fs.inode i) k fs₁ fs') : Sound s fs' := by
  have hentry := hadds.extends_.entry.trans hsound.entry
  have hsound₁ := sound_of_adds hsound hadds
  refine ⟨h.extends_.entry.trans hentry, fun y e j hy hyslot hj hreg => ?_,
    fun e e' j hj hj' howner => ?_⟩
  · by_cases hjk : j = k
    · subst hjk
      refine ⟨?_, h.isSealed⟩
      rw [h.good.data, ← hdata]
      by_cases hes : e = s.entry slot
      · exact Site.Slot.data_eq hslot (hes ▸ hyslot) hx hy
      by_cases hen : e = s.entry name
      · -- the path is a slot itself, and its file was stored
        have hi : fs.names e = some i := by
          rw [hen, ← hsound.entry]
          exact hname
        have hireg : fs.isReg i = true := by
          rw [← hreg]
          unfold FS.isReg
          rw [h.good.mode]
        rw [hdata, (hsound.stored y e i hy hyslot hi hireg).1]
      · rw [← hentry] at hes hen
        rw [h.others e hen hes] at hj
        obtain ⟨hdata', -⟩ := stored_of_old hsound₁ h.extends_ h.seals hy hyslot hj hreg
        rw [← hdata', h.good.data, hdata]
    · obtain ⟨-, -, hold⟩ := names_unified h hj hjk
      exact stored_of_old hsound₁ h.extends_ h.seals hy hyslot hold hreg
  · by_cases hjk : j = k
    · exact hjk ▸ h.isSealed
    · obtain ⟨-, -, hold⟩ := names_unified h hj hjk
      obtain ⟨-, -, hold'⟩ := names_unified h hj' hjk
      exact h.seals.kept j (fs₁.named e j hold) (hsound₁.isolated e e' j hold hold' howner)

/-! ### `vhashify` -/

/-- The specification of `visitFile`. -/
theorem visitFile_effect {a : Args} {e : Env} {fuel : Nat} {name : Text} {res : Bool}
    (hsound : Sound s fs) (hdigest : e.digest = s.digest)
    (hm : a.ignoreMtime = true → s.ignoreMtime = true) (hclean : e.unify.unlinkTmp = true)
    (hcleanup : e.unlinkCleanup = true)
    (hhashed : ∀ i, fs.lookup name = some i →
      s.hashed (hashInput a (fs.stat i) (fs.inode i).data))
    (h : visitFile a e s.hashDirs fuel name fs = some (.returned res fs')) :
    Adds fs fs' ∨ ∃ i x slot k fs₁, fs.lookup name = some i ∧ s.hashed x ∧
      x.data = (fs.inode i).data ∧ s.Slot x (s.entry slot) ∧ Adds fs fs₁ ∧
      Unified s.ignoreMtime name slot (fs.inode i) k fs₁ fs' := by
  have hself : Adds fs fs := Adds.refl fs
  unfold visitFile at h
  split at h
  · cases h
    exact Or.inl hself
  split at h
  · cases h
    exact Or.inl hself
  rename_i st hcheck
  split at h
  · cases h
    exact Or.inl hself
  rename_i hdir
  obtain ⟨i, hname, hreg, rfl, hmin⟩ := checkFstat_file hcheck hdir
  have hi := fs.named _ i hname
  split at h
  · cases h
    exact Or.inl hself
  rename_i root hroot
  obtain ⟨d, hd, rfl⟩ := HashDirs.findDevice_mem hroot
  split at h
  · cases h
    exact Or.inl hself
  rename_i dPath hhash
  obtain rfl := calculateHash_eq_some hname hhash
  have hx := hhashed i hname
  have hslot : ∀ idx, s.Slot (hashInput a (fs.stat i) (fs.inode i).data) (s.entry (slotName (d.path ++
      convertDigest (e.digest (hashInput a (fs.stat i) (fs.inode i).data))) idx)) := by
    intro idx
    exact ⟨d, hd, idx, by rw [hdigest]⟩
  have hst : StatOf (fs.stat i) (fs.inode i) := ⟨rfl, rfl, rfl, rfl⟩
  -- what `doit` leaves behind, in terms of the system
  have hdone : ∀ {slot : Text} {fs₁ : FS E}, s.Slot (hashInput a (fs.stat i) (fs.inode i).data)
      (s.entry slot) → Adds fs fs₁ → Done a.ignoreMtime name slot (fs.inode i) fs₁ fs' →
      Adds fs fs' ∨ ∃ i x slot k fs₁, fs.lookup name = some i ∧ s.hashed x ∧
        x.data = (fs.inode i).data ∧ s.Slot x (s.entry slot) ∧ Adds fs fs₁ ∧
        Unified s.ignoreMtime name slot (fs.inode i) k fs₁ fs' := by
    rintro slot fs₁ hslot hadds (⟨hext, hseals, hnames⟩ | ⟨k, hk⟩)
    · exact Or.inl (hadds.of_names hext hseals hnames)
    · exact Or.inr ⟨i, _, slot, k, fs₁, hname, hx, rfl, hslot, hadds,
        { hk with good := asBefore_mono hk.good hm }⟩
  split at h
  · cases h
  · rename_i fs₁ hres
    cases h
    obtain ⟨hadds⟩ := resolveCollisions_chosen hres
    exact Or.inl hadds
  · rename_i dst size fs₁ hres
    have h : doit a e name dst (fs.stat i) size fs₁ = .returned res fs' := Option.some.inj h
    by_cases hdry : a.dryRun = true
    · unfold doit at h
      rw [if_pos hdry] at h
      cases h
      cases resolveCollisions_chosen hres with
      | found hk hsame => exact Or.inl hself
      | dry _ => exact Or.inl hself
      | new _ hndry _ =>
        rw [hdry] at hndry
        cases hndry
    have hdry : a.dryRun = false := by simpa using hdry
    cases resolveCollisions_chosen hres with
    | @found idx k hk hsame =>
      obtain ⟨-, -, hmode, huid, hgid, hsize, hmtime⟩ := isUnifyable_iff.1 hsame
      have hsize₀ : (fs.inode k).size ≠ 0 := by
        have hmin : 0x10 ≤ (fs.stat i).size := hmin
        have hk : (fs.stat k).size = (fs.inode k).size := rfl
        omega
      have hkreg : fs.isReg k = true := by
        have hmode : (fs.inode i).mode = (fs.inode k).mode := hmode
        rw [FS.isReg, ← hmode, hreg]
        decide
      obtain ⟨hdata, -⟩ := hsound.stored _ _ k hx (hslot idx)
        (by rw [← hsound.entry]; exact hk) hkreg
      have hgood : AsBefore a.ignoreMtime (fs.inode k) (fs.inode i) :=
        ⟨hdata, hmode.symm, huid.symm, hgid.symm, fun hm => (hmtime hm).symm⟩
      exact hdone (hslot idx) hself (doit_found hdry hclean hsize₀ hk hgood h)
    | dry hd =>
      rw [hdry] at hd
      cases hd
    | @new idx fs₂ _ hadds _ hmade =>
      have hgood := asBefore_of_extends a.ignoreMtime hadds.extends_ hi
      exact hdone (hslot idx) hadds (doit_new hdry hclean hcleanup hst hreg hmade
        (hadds.toGrows.lookup hname) hgood h)

/-! ### The others -/

omit [DecidableEq E] in
/-- A step of a guest, for what belongs to others. -/
theorem plain_of_guest {g : O} (hsound : Sound s fs) (h : Guest s g fs fs') {e : E} {i : Nat}
    (howner : s.owner e ≠ g) (hi : fs.names e = some i) :
    fs'.names e = some i ∧ (fs'.inode i).plain = (fs.inode i).plain ∧
      (Sealed fs i → Sealed fs' i) := by
  refine ⟨(h.names e howner).trans hi, h.inodes i (fs.named e i hi) ?_⟩
  by_cases hreach : ∃ e', s.owner e' = g ∧ fs.names e' = some i
  · obtain ⟨e', he', hi'⟩ := hreach
    exact Or.inl (hsound.isolated e e' i hi hi' (by rwa [he']))
  · exact Or.inr fun e' he' hi' => hreach ⟨e', he', hi'⟩

omit [DecidableEq E] in
theorem asBefore_of_plain {m : Bool} {n n' : Inode} (h : n'.plain = n.plain) :
    AsBefore m n' n := by
  simp only [Inode.plain, Inode.mk.injEq] at h
  obtain ⟨-, hmode, huid, hgid, -, -, hmtime, hdata, -⟩ := h
  exact ⟨hdata, hmode, huid, hgid, fun _ => hmtime⟩

omit [DecidableEq E] in
theorem sound_of_guest {g : O} (hsound : Sound s fs) (hg : g ≠ s.host)
    (h : Guest s g fs fs') : Sound s fs' := by
  have hother {e : E} {i : Nat} (howner : s.owner e ≠ g) (hi : fs'.names e = some i) :
      fs.names e = some i := (h.names e howner).symm.trans hi
  have hshared : ∀ e e' i, s.owner e ≠ s.owner e' → s.owner e' ≠ g → fs'.names e = some i →
      fs'.names e' = some i → Sealed fs' i := by
    intro e e' i howner he' hi hi'
    have hold' := hother he' hi'
    obtain ⟨-, -, hseal⟩ := plain_of_guest hsound h he' hold'
    refine hseal ?_
    by_cases he : s.owner e = g
    · obtain hle | ⟨e₀, he₀, hi₀⟩ := h.links e i he hi
      · exact absurd hold' (names_ne_of_le hle e')
      · exact hsound.isolated e₀ e' i hi₀ hold' (by rwa [he₀, ← he])
    · exact hsound.isolated e e' i (hother he hi) hold' howner
  refine ⟨h.entry.trans hsound.entry, fun x e j hx hslot hj hreg => ?_,
    fun e e' i hi hi' howner => ?_⟩
  · have he : s.owner e ≠ g := by
      rw [hslot.owner]
      exact hg.symm
    have hold := hother he hj
    obtain ⟨-, hplain, hseal⟩ := plain_of_guest hsound h he hold
    have hgood : AsBefore true (fs'.inode j) (fs.inode j) := asBefore_of_plain hplain
    have hreg : fs.isReg j = true := by
      rw [← hreg]
      unfold FS.isReg
      rw [hgood.mode]
    obtain ⟨hdata, hsealed⟩ := hsound.stored x e j hx hslot hold hreg
    exact ⟨hgood.data.trans hdata, hseal hsealed⟩
  · by_cases he' : s.owner e' = g
    · exact hshared e' e i howner.symm (by rwa [← he']) hi' hi
    · exact hshared e e' i howner he' hi hi'

omit [DecidableEq E] in
/-- One name of a guest has gone over to a sealed file. -/
theorem sound_of_moved {dst : Text} {k : Nat} (hsound : Sound s fs) (hext : Extends fs fs')
    (hseals : Seals fs fs') (howner : s.owner (s.entry dst) ≠ s.host)
    (hothers : ∀ e, e ≠ s.entry dst → fs'.names e = fs.names e)
    (hdst : fs'.names (s.entry dst) = some k)
    (halone : Sealed fs' k ∨ ∀ e, fs'.names e = some k → e = s.entry dst) : Sound s fs' := by
  refine ⟨hext.entry.trans hsound.entry, fun x e j hx hslot hj hreg => ?_,
    fun e e' j hj hj' hne => ?_⟩
  · have he : e ≠ s.entry dst := by
      rintro rfl
      exact howner hslot.owner
    rw [hothers e he] at hj
    exact stored_of_old hsound hext hseals hx hslot hj hreg
  · by_cases hjk : j = k
    · subst hjk
      obtain hsealed | halone := halone
      · exact hsealed
      · rw [halone e hj, halone e' hj'] at hne
        exact absurd rfl hne
    · have hold {e : E} (hj : fs'.names e = some j) : fs.names e = some j := by
        have he : e ≠ s.entry dst := by
          rintro rfl
          exact hjk (Option.some.inj (hj.symm.trans hdst))
        rwa [hothers e he] at hj
      exact hseals.kept j (fs.named e j (hold hj))
        (hsound.isolated e e' j (hold hj) (hold hj') hne)

theorem sound_of_unify {c : Unify.Calls} {src dst : Text} {res : Bool} (hsound : Sound s fs)
    (howner : s.owner (s.entry dst) ≠ s.host) (hclean : c.unlinkTmp = true)
    (h : Unify.unify c src dst false fs = .returned res fs') : Sound s fs' := by
  have hpost := Unify.unify_post h
  obtain ⟨hseals, hsealed⟩ := unify_seals h
  have hclean := hpost.clean hclean
  rw [hsound.entry] at hclean
  have hdst : fs'.lookup dst = fs'.names (s.entry dst) := by
    show fs'.names (fs'.entry dst) = _
    rw [hpost.extends_.entry, hsound.entry]
  cases res with
  | false =>
    refine sound_of_adds hsound
      ((Adds.refl fs).of_names hpost.extends_ hseals (funext fun e => ?_))
    by_cases he : e = s.entry dst
    · obtain hsame | ⟨hfalse, -⟩ := hpost.failed rfl
      · rw [hdst] at hsame
        rw [he, hsame, ← hsound.entry]
        rfl
      · cases hfalse
    · exact hclean e he
  | true =>
    obtain ⟨k, hk, -, hnamed⟩ := hpost.linked rfl
    exact sound_of_moved hsound hpost.extends_ hseals howner hclean (hdst ▸ hnamed)
      (Or.inl (hsealed rfl k hk))

theorem shows_of_unify {c : Unify.Calls} {src dst : Text} {res : Bool} (hsound : Sound s fs)
    (h : Unify.unify c src dst false fs = .returned res fs') {e : E} (he : e ≠ s.entry dst) :
    Shows s fs fs' e := by
  have hpost := Unify.unify_post h
  rw [← hsound.entry] at he
  exact fun i hi => ⟨i, hpost.kept e i he hi, asBefore_of_extends _ hpost.extends_ (fs.named e i hi)⟩

/-- The file of a path is replaced by a copy that nothing else names. -/
theorem effect_of_deUnify {c : DeUnify.Calls} {dst : Text} {i : Nat} {res : Bool}
    (hsound : Sound s fs) (howner : s.owner (s.entry dst) ≠ s.host)
    (hdst : fs.lookup dst = some i) (hreg : fs.isReg i = true) (hclean : c.unlinkTmp = true)
    (h : DeUnify.deUnify c dst fs = .returned res fs') :
    Sound s fs' ∧ ∀ e, Shows s fs fs' e := by
  have hpost := DeUnify.deUnify_post hdst hreg hclean h
  have hseals := deUnify_seals h
  cases res with
  | false =>
    have hadds := (Adds.refl fs).of_names hpost.extends_ hseals (hpost.failed rfl)
    exact ⟨sound_of_adds hsound hadds, shows_of_grows hadds.toGrows⟩
  | true =>
    obtain ⟨hnames, hsame, -⟩ := hpost.replaced rfl
    rw [hsound.entry] at hnames
    have hothers : ∀ e, e ≠ s.entry dst → fs'.names e = fs.names e := by
      intro e he
      rw [hnames, Function.update_of_ne he]
    have hnew : fs'.names (s.entry dst) = some fs.next := by
      rw [hnames, Function.update_self]
    refine ⟨sound_of_moved hsound hpost.extends_ hseals howner hothers hnew
      (Or.inr fun e he => ?_), fun e j hj => ?_⟩
    · by_contra hne
      rw [hothers e hne] at he
      exact names_ne_of_le (Nat.le_refl _) e he
    · by_cases he : e = s.entry dst
      · have hdst : fs.names (fs.entry dst) = some i := hdst
        rw [hsound.entry, ← he, hj] at hdst
        cases hdst
        exact ⟨fs.next, he ▸ hnew, (AsBefore.refl _ _).of_same hsame⟩
      · exact ⟨j, (hothers e he).trans hj,
          asBefore_of_extends _ hpost.extends_ (fs.named e j hj)⟩

/-! ### Runs -/

theorem step_sound {l : Label E O} (h : Step s fs l fs') (hsound : Sound s fs) : Sound s fs' := by
  cases h with
  | visit hdigest hm hclean hcleanup hhashed h =>
    obtain hadds | ⟨i, x, slot, k, fs₁, hname, hx, hdata, hslot, hadds, hk⟩ :=
      visitFile_effect hsound hdigest hm hclean hcleanup hhashed h
    · exact sound_of_adds hsound hadds
    · exact sound_of_unified hsound hname hx hdata hslot hadds hk
  | unify howner hclean h => exact sound_of_unify hsound howner hclean h
  | deUnify howner hdst hreg hclean h =>
    exact (effect_of_deUnify hsound howner hdst hreg hclean h).1
  | guest hg h => exact sound_of_guest hsound hg h

/-- What a step shows to those that it is not about. -/
theorem step_shows {l : Label E O} {e : E} (h : Step s fs l fs') (hsound : Sound s fs)
    (hguest : l ≠ .guest (s.owner e)) (hunify : l ≠ .unify e) : Shows s fs fs' e := by
  cases h with
  | visit hdigest hm hclean hcleanup hhashed h =>
    obtain hadds | ⟨i, x, slot, k, fs₁, hname, -, -, -, hadds, hk⟩ :=
      visitFile_effect hsound hdigest hm hclean hcleanup hhashed h
    · exact shows_of_grows hadds.toGrows e
    · exact shows_of_unified hname hadds hk e
  | @unify c src dst res _ _ howner hclean h =>
    refine shows_of_unify hsound h ?_
    rintro rfl
    exact hunify rfl
  | deUnify howner hdst hreg hclean h =>
    exact (effect_of_deUnify hsound howner hdst hreg hclean h).2 e
  | @guest g _ _ hg h =>
    intro i hi
    have hne : s.owner e ≠ g := by
      rintro rfl
      exact hguest rfl
    obtain ⟨hnamed, hplain, -⟩ := plain_of_guest hsound h hne hi
    exact ⟨i, hnamed, asBefore_of_plain hplain⟩

/-- **Shared files stay apart.**  In every run, the store stays sound and what is shared stays
sealed; and a path whose owner does nothing and that is not linked to another reference shows the
content, the mode, the owner and the time that it has shown at the start, whatever the programs
link behind it and whatever the other guests do. -/
theorem run_sharing {ls : List (Label E O)} (hrun : Run (Step s) fs ls fs')
    (hsound : Sound s fs) : Sound s fs' ∧
      ∀ e, .guest (s.owner e) ∉ ls → .unify e ∉ ls → Shows s fs fs' e := by
  induction hrun with
  | nil => exact ⟨hsound, fun e _ _ => shows_of_grows (Grows.refl fs) e⟩
  | @snoc fs₁ fs₂ ls l hrun hstep ih =>
    obtain ⟨hsound₁, hshows⟩ := ih
    refine ⟨step_sound hstep hsound₁, fun e hguest hunify i hi => ?_⟩
    simp only [List.mem_append, List.mem_singleton, not_or] at hguest hunify
    obtain ⟨j, hj, hgood⟩ := hshows e hguest.1 hunify.1 i hi
    obtain ⟨k, hk, hgood'⟩ := step_shows hstep hsound₁ (Ne.symm hguest.2) (Ne.symm hunify.2) j hj
    exact ⟨k, hk, asBefore_trans hgood hgood'⟩

end Steps

/-! ### Two guests -/

/-- The guests have one file each. -/
def guestOf (p : Text) : Nat := if p = ['a'] then 1 else if p = ['b'] then 2 else 0

theorem nine_le_slotName (path : Text) (idx : BitVec 32) : 9 ≤ (slotName path idx).length := by
  simp [slotName, slotNumber]

theorem guestOf_slotName (path : Text) (idx : BitVec 32) : guestOf (slotName path idx) = 0 := by
  have hlen := nine_le_slotName path idx
  have ha : slotName path idx ≠ ['a'] := by
    intro h
    rw [h] at hlen
    exact absurd hlen (by decide)
  have hb : slotName path idx ≠ ['b'] := by
    intro h
    rw [h] at hlen
    exact absurd hlen (by decide)
  unfold guestOf
  rw [if_neg ha, if_neg hb]

/-- Only the sixteen zeros have been hashed. -/
def twoGuests : Site Text Nat where
  entry := id
  hashDirs := [⟨0, "/h/".toList⟩]
  digest x := x.data
  hashed x := x.data = List.replicate 16 0
  ignoreMtime := false
  owner := guestOf
  host := 0
  owned _ _ _ idx := guestOf_slotName _ idx
  apart _ _ _ _ _ _ _ _ hx hy _ := hx.trans hy.symm

theorem names_zerosFile {e : Text} {i : Nat} (h : zerosFile.names e = some i) :
    e.length ≤ 1 ∧ (∀ e', zerosFile.names e' = some i → e' = e) := by
  have hcases : ∀ {e : Text} {i : Nat}, zerosFile.names e = some i →
      e = [] ∧ i = 0 ∨ e = ['a'] ∧ i = 1 ∨ e = ['b'] ∧ i = 2 := by
    intro e i h
    have h : Unify.twoFiles.names e = some i := h
    simp only [Unify.twoFiles] at h
    split at h
    · exact Or.inl ⟨‹_›, (Option.some.inj h).symm⟩
    split at h
    · exact Or.inr (Or.inl ⟨‹_›, (Option.some.inj h).symm⟩)
    split at h
    · exact Or.inr (Or.inr ⟨‹_›, (Option.some.inj h).symm⟩)
    · cases h
  refine ⟨?_, fun e' h' => ?_⟩
  · obtain ⟨rfl, -⟩ | ⟨rfl, -⟩ | ⟨rfl, -⟩ := hcases h <;> decide
  · obtain ⟨rfl, hi⟩ | ⟨rfl, hi⟩ | ⟨rfl, hi⟩ := hcases h <;>
      obtain ⟨rfl, hi'⟩ | ⟨rfl, hi'⟩ | ⟨rfl, hi'⟩ := hcases h' <;>
      first | rfl | omega

theorem sound_zerosFile : Sound twoGuests zerosFile where
  entry := rfl
  stored x e j _ hslot hj _ := by
    obtain ⟨d, -, idx, rfl⟩ := hslot
    have hlen := (names_zerosFile hj).1
    have hlong := nine_le_slotName (d.path ++ convertDigest x.data) idx
    exact absurd (Nat.le_trans hlong hlen) (by decide)
  isolated e e' i hi hi' hne := by
    rw [(names_zerosFile hi).2 e' hi'] at hne
    exact absurd rfl hne

/-- One file is put into the store, and the other guest writes to its own. -/
theorem run_sharing_twoGuests : ∃ fs', Run (Step twoGuests) zerosFile [.visit, .guest 2] fs' ∧
    Sound twoGuests fs' ∧ Shows twoGuests zerosFile fs' ['a'] := by
  obtain ⟨fs₁, h, hb, hflags⟩ : ∃ fs₁ : FS Text,
      visitFile sledgehammer allWork [⟨0, "/h/".toList⟩] 1 ['a'] zerosFile =
        some (.returned true fs₁) ∧
      fs₁.names ['b'] = some 2 ∧ (fs₁.inode 2).flags = 0 := ⟨_, rfl, rfl, rfl⟩
  have hvisit : Step twoGuests zerosFile .visit fs₁ :=
    .visit rfl (fun h => h) rfl rfl (fun i hi => by cases hi; rfl) h
  have hguest : Step twoGuests fs₁ (.guest 2) (fs₁.append 2 [1]) := by
    refine .guest (by decide) ⟨rfl, Nat.le_refl _, fun _ _ => rfl,
      fun e j he hj => Or.inr ⟨e, he, hj⟩, fun i _ hi => ?_⟩
    have hne : i ≠ 2 := by
      rintro rfl
      obtain hsealed | hunnamed := hi
      · unfold Sealed at hsealed
        rw [hflags] at hsealed
        exact absurd hsealed (by decide)
      · exact hunnamed ['b'] rfl hb
    have hsame : (fs₁.append 2 [1]).inode i = fs₁.inode i := by
      rw [FS.append, inode_modify, Function.update_of_ne hne]
    refine ⟨by rw [hsame], fun hsealed => ?_⟩
    unfold Sealed
    rwa [hsame]
  have hrun := (Run.single hvisit).snoc hguest
  obtain ⟨hsound, hshows⟩ := run_sharing hrun sound_zerosFile
  exact ⟨_, hrun, hsound, hshows ['a'] (by simp [twoGuests, guestOf]) (by simp)⟩

end VhashifyRuns
