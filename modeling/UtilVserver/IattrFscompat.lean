import Mathlib.Data.Bool.Basic

/-!
# File attributes with old kernels (`syscall_setiattr-fscompat.hc`, `syscall_getiattr-fscompat.hc`)

The attributes are kept in the flags of the filesystem, in flags of their own and in the
permissions.

* `Inode`, `Call` — what the kernel keeps of a file, and the system calls, each of which may fail.
* `vc_set_iattr`, `vc_get_iattr` — the two functions.
* `Attr`, `isSet` — the attributes, and how each is kept.  `IUNLINK` and `BARRIER` share a flag.
* `RoundTrip` — attributes that are set are read again, and no other has changed.

Principal results: `setIattr_getIattr`, and `setIattr_barrier`.
-/

set_option autoImplicit false

namespace IattrFscompat

/-! ## Constants -/

def VC_IATTR_XID : BitVec 32 := 0x01000000#32
def VC_IATTR_WATCH : BitVec 32 := 0x00000002#32
def VC_IATTR_HIDE : BitVec 32 := 0x00000004#32
def VC_IATTR_BARRIER : BitVec 32 := 0x00010000#32
def VC_IATTR_IUNLINK : BitVec 32 := 0x00020000#32

def VC_IMMUTABLE_FILE_FL : BitVec 64 := 0x00000010#64
def VC_IMMUTABLE_LINK_FL : BitVec 64 := 0x00008000#64
def EXT2_IMMUTABLE_FILE_FL : BitVec 64 := 0x00000010#64
def EXT2_IMMUTABLE_LINK_FL : BitVec 64 := 0x00008000#64

def VC_NOCTX : BitVec 32 := 0xffffffff#32

/-- A word as a condition of C: some of the bits are set. -/
def tests {w : Nat} (x bits : BitVec w) : Bool := x &&& bits ≠ 0

/-! ## The kernel -/

inductive Kind where
  | REG
  | DIR
  | other
  deriving DecidableEq

structure Inode where
  kind : Kind
  /-- The permissions `st_mode & 07777`. -/
  mode : BitVec 12
  ext2 : BitVec 64
  xflg : BitVec 64
  context : BitVec 32

/-- The system calls; those on the flags are made for more than one attribute. -/
inductive Call where
  | lstat
  | open
  | fstat
  | getFlags (attr : BitVec 32)
  | setFlags (attr : BitVec 32)
  | fchmod
  | getContext
  | setContext
  | getXflg
  | setXflg

/-- `EXT2FLAGS_USER2KERNEL`. -/
def EXT2FLAGS_USER2KERNEL (x : BitVec 64) : BitVec 64 :=
  x &&& ~~~(VC_IMMUTABLE_FILE_FL ||| VC_IMMUTABLE_LINK_FL) |||
    (if tests x VC_IMMUTABLE_FILE_FL then EXT2_IMMUTABLE_FILE_FL else 0) |||
    (if tests x VC_IMMUTABLE_LINK_FL then EXT2_IMMUTABLE_LINK_FL else 0)

/-- `EXT2FLAGS_KERNEL2USER`. -/
def EXT2FLAGS_KERNEL2USER (x : BitVec 64) : BitVec 64 :=
  x &&& ~~~(EXT2_IMMUTABLE_FILE_FL ||| EXT2_IMMUTABLE_LINK_FL) |||
    (if tests x EXT2_IMMUTABLE_FILE_FL then VC_IMMUTABLE_FILE_FL else 0) |||
    (if tests x EXT2_IMMUTABLE_LINK_FL then VC_IMMUTABLE_LINK_FL else 0)

section Functions

variable (fails : Call → Bool)

/-- A part of a function: what it makes of the file, and whether there is no error. -/
abbrev Part := Inode → Inode × Bool

/-- The second part is left out after an error. -/
def Part.andThen (f g : Part) : Part := fun i =>
  let r := f i
  if r.2 then g r.1 else r

/-- A system call that changes the file. -/
def call (c : Call) (change : Inode → Inode) : Part := fun i =>
  if fails c then (i, false) else (change i, true)

/-- A part that is only for some masks. -/
def onlyIf (selected : Bool) (f : Part) : Part := fun i => if selected then f i else (i, true)

/-- `vc_X_set_ext2flags`. -/
def setExt2flags (attr : BitVec 32) (set_flags del_flags : BitVec 64) : Part :=
  (call fails (.getFlags attr) id).andThen (call fails (.setFlags attr) fun i => { i with
    ext2 := i.ext2 &&& ~~~EXT2FLAGS_USER2KERNEL del_flags ||| EXT2FLAGS_USER2KERNEL set_flags })

/-- The part of `vc_set_iattr_fscompat` for `VC_IATTR_IUNLINK`. -/
def setIunlink (flags : BitVec 32) : Part :=
  let tmp := VC_IMMUTABLE_FILE_FL ||| VC_IMMUTABLE_LINK_FL
  if tests flags VC_IATTR_IUNLINK then setExt2flags fails VC_IATTR_IUNLINK tmp 0
  else setExt2flags fails VC_IATTR_IUNLINK 0 tmp

/-- The part for `VC_IATTR_BARRIER`. -/
def setBarrier (flags : BitVec 32) : Part :=
  if tests flags VC_IATTR_BARRIER then
    (setExt2flags fails VC_IATTR_BARRIER VC_IMMUTABLE_LINK_FL 0).andThen
      (call fails .fchmod fun i => { i with mode := 0#12 })
  else
    (setExt2flags fails VC_IATTR_BARRIER 0 VC_IMMUTABLE_LINK_FL).andThen
      (call fails .fchmod fun i => { i with mode := 0o500#12 })

/-- The new value of the flags for `VC_IATTR_HIDE` and `VC_IATTR_WATCH`. -/
def newXflg (flags mask : BitVec 32) (tmp : BitVec 64) : BitVec 64 :=
  let tmp := tmp &&& ~~~((if tests mask VC_IATTR_HIDE then 1#64 else 0#64) |||
    (if tests mask VC_IATTR_WATCH then 2#64 else 0#64))
  tmp ||| ((if tests flags VC_IATTR_HIDE then 1#64 else 0#64) |||
    (if tests flags VC_IATTR_WATCH then 2#64 else 0#64))

/-- The part for these two. -/
def setXflg (flags mask : BitVec 32) : Part :=
  (call fails .getXflg id).andThen
    (call fails .setXflg fun i => { i with xflg := newXflg flags mask i.xflg })

/-- `vc_set_iattr_fscompat`. -/
def vc_set_iattr (xid flags mask : BitVec 32) : Part :=
  (call fails .open id).andThen <|
  (call fails .fstat id).andThen <|
  (onlyIf (tests mask VC_IATTR_IUNLINK) (setIunlink fails flags)).andThen <|
  (onlyIf (tests mask VC_IATTR_BARRIER) (setBarrier fails flags)).andThen <|
  (onlyIf (tests mask VC_IATTR_XID)
    (call fails .setContext fun i => { i with context := xid })).andThen <|
  onlyIf (tests mask (VC_IATTR_HIDE ||| VC_IATTR_WATCH)) (setXflg fails flags mask)

/-- What `vc_get_iattr_fscompat` returns; the context is not always written. -/
structure Info where
  ok : Bool
  xid : Option (BitVec 32)
  flags : BitVec 32
  mask : BitVec 32

section Get

variable (i : Inode) (old_mask : BitVec 32) (out : Info)

/-- The part of `vc_get_iattr_fscompat` for the context. -/
def getXid : Info :=
  if tests old_mask VC_IATTR_XID then
    let xid := if fails .getContext then VC_NOCTX else i.context
    { out with
      xid := some xid
      mask := if xid ≠ VC_NOCTX then out.mask ||| VC_IATTR_XID else out.mask }
  else out

/-- The part for `VC_IATTR_IUNLINK`. -/
def getIunlink : Info :=
  if tests old_mask VC_IATTR_IUNLINK && !fails (.getFlags VC_IATTR_IUNLINK) then
    let tmp := EXT2FLAGS_KERNEL2USER i.ext2
    { out with
      mask := out.mask ||| VC_IATTR_IUNLINK
      flags := if tests tmp (VC_IMMUTABLE_FILE_FL ||| VC_IMMUTABLE_LINK_FL) then
        out.flags ||| VC_IATTR_IUNLINK else out.flags }
  else out

/-- The part for `VC_IATTR_BARRIER`. -/
def getBarrier : Info :=
  if tests old_mask VC_IATTR_BARRIER && i.kind = .DIR then
    let ext2_flags := EXT2FLAGS_KERNEL2USER i.ext2
    { out with
      mask := out.mask ||| VC_IATTR_BARRIER
      flags :=
        if decide (i.mode &&& 0o777#12 = 0) && !fails (.getFlags VC_IATTR_BARRIER) &&
            tests ext2_flags VC_IMMUTABLE_LINK_FL then
          out.flags ||| VC_IATTR_BARRIER else out.flags }
  else out

/-- The part for `VC_IATTR_WATCH` and `VC_IATTR_HIDE`. -/
def getXflg : Info :=
  if tests old_mask (VC_IATTR_WATCH ||| VC_IATTR_HIDE) && !fails .getXflg then
    let hide := if tests i.xflg 1#64 then out.flags ||| VC_IATTR_HIDE else out.flags
    { out with
      mask := out.mask ||| (VC_IATTR_WATCH ||| VC_IATTR_HIDE)
      flags := if tests i.xflg 2#64 then hide ||| VC_IATTR_WATCH else hide }
  else out

end Get

/-- `vc_get_iattr_fscompat`, with `*flags` and `*mask` as they are before. -/
def vc_get_iattr (i : Inode) (flags old_mask : BitVec 32) : Info :=
  if fails .lstat then ⟨false, none, flags, 0⟩
  else if i.kind ≠ .REG ∧ i.kind ≠ .DIR then ⟨true, none, flags, 0⟩
  else if fails .open || fails .fstat then ⟨false, none, flags, 0⟩
  else
    getXflg fails i old_mask <| getBarrier fails i old_mask <| getIunlink fails i old_mask <|
      getXid fails i old_mask ⟨true, none, flags, 0⟩

end Functions

/-! ## Attributes -/

inductive Attr where
  | WATCH
  | HIDE
  | BARRIER
  | IUNLINK
  deriving DecidableEq

def Attr.bit : Attr → BitVec 32
  | .WATCH => VC_IATTR_WATCH
  | .HIDE => VC_IATTR_HIDE
  | .BARRIER => VC_IATTR_BARRIER
  | .IUNLINK => VC_IATTR_IUNLINK

/-- The attributes that a word has. -/
def chosen (word : BitVec 32) (a : Attr) : Bool := tests word a.bit

/-- What the attributes of a file depend on. -/
structure View where
  kind : Kind
  closed : Bool
  file : Bool
  link : Bool
  hide : Bool
  watch : Bool
  context : BitVec 32

def View.dir (v : View) : Bool := v.kind = .DIR

def view (i : Inode) : View where
  kind := i.kind
  closed := i.mode &&& 0o777#12 = 0
  file := tests i.ext2 VC_IMMUTABLE_FILE_FL
  link := tests i.ext2 VC_IMMUTABLE_LINK_FL
  hide := tests i.xflg 1#64
  watch := tests i.xflg 2#64
  context := i.context

/-- How an attribute is kept. -/
def View.isSet (v : View) : Attr → Bool
  | .WATCH => v.watch
  | .HIDE => v.hide
  | .BARRIER => v.dir && v.closed && v.link
  | .IUNLINK => v.file || v.link

/-! ## Bits -/

section Bits

variable {w : Nat}

/-- A word with one bit tests that bit. -/
theorem tests_single {bit : BitVec w} {n : Nat} (hbit : bit = BitVec.twoPow w n) (hn : n < w)
    (x : BitVec w) : tests x bit = x.getLsbD n := by
  subst hbit
  have hpos : BitVec.twoPow w n ≠ 0#w := by
    intro hzero
    have hone : (BitVec.twoPow w n).getLsbD n = false := by rw [hzero, BitVec.getLsbD_zero]
    simp [hn] at hone
  unfold tests
  rw [BitVec.and_twoPow]
  cases x.getLsbD n <;> simp [hpos]

theorem tests_file (x : BitVec 64) : tests x VC_IMMUTABLE_FILE_FL = x.getLsbD 4 :=
  tests_single (n := 4) rfl (by decide) x

theorem tests_link (x : BitVec 64) : tests x VC_IMMUTABLE_LINK_FL = x.getLsbD 15 :=
  tests_single (n := 15) rfl (by decide) x

theorem tests_one (x : BitVec 64) : tests x 1#64 = x.getLsbD 0 :=
  tests_single (n := 0) rfl (by decide) x

theorem tests_two (x : BitVec 64) : tests x 2#64 = x.getLsbD 1 :=
  tests_single (n := 1) rfl (by decide) x

theorem tests_or (x a b : BitVec w) : tests x (a ||| b) = (tests x a || tests x b) := by
  unfold tests
  rw [BitVec.and_or_distrib_left]
  by_cases ha : x &&& a = 0 <;> by_cases hb : x &&& b = 0 <;> simp [ha, hb]

theorem tests_zero (bits : BitVec w) : tests 0 bits = false := by simp [tests]

/-- The masks used below. -/
theorem tests_masks :
    tests (VC_IMMUTABLE_FILE_FL ||| VC_IMMUTABLE_LINK_FL) VC_IMMUTABLE_FILE_FL = true ∧
    tests (VC_IMMUTABLE_FILE_FL ||| VC_IMMUTABLE_LINK_FL) VC_IMMUTABLE_LINK_FL = true ∧
    tests VC_IMMUTABLE_LINK_FL VC_IMMUTABLE_FILE_FL = false ∧
    tests VC_IMMUTABLE_LINK_FL VC_IMMUTABLE_LINK_FL = true := by
  decide

/-- One bit of a word, as a word. -/
theorem single_eq_and {bit : BitVec w} {n : Nat} (hbit : bit = BitVec.twoPow w n) (hn : n < w)
    (x : BitVec w) : (if tests x bit then bit else 0) = x &&& bit := by
  rw [tests_single hbit hn, hbit, BitVec.and_twoPow]
  rfl

/-- The flags have the same places for the user and in the kernel. -/
theorem user2kernel (x : BitVec 64) : EXT2FLAGS_USER2KERNEL x = x := by
  have hfile : (if tests x VC_IMMUTABLE_FILE_FL then EXT2_IMMUTABLE_FILE_FL else 0) =
      x &&& VC_IMMUTABLE_FILE_FL := single_eq_and (n := 4) rfl (by decide) x
  have hlink : (if tests x VC_IMMUTABLE_LINK_FL then EXT2_IMMUTABLE_LINK_FL else 0) =
      x &&& VC_IMMUTABLE_LINK_FL := single_eq_and (n := 15) rfl (by decide) x
  rw [EXT2FLAGS_USER2KERNEL, hfile, hlink]
  apply BitVec.eq_of_getLsbD_eq
  intro n hn
  simp only [BitVec.getLsbD_or, BitVec.getLsbD_and, BitVec.getLsbD_not, hn, decide_true,
    Bool.true_and]
  cases x.getLsbD n <;> cases VC_IMMUTABLE_FILE_FL.getLsbD n <;>
    cases VC_IMMUTABLE_LINK_FL.getLsbD n <;> rfl

theorem kernel2user (x : BitVec 64) : EXT2FLAGS_KERNEL2USER x = x := user2kernel x

end Bits

/-! ## Setting -/

variable {fails : Call → Bool} {i : Inode} {xid flags mask request : BitVec 32}

/-- A part that ends without an error does this. -/
def Part.Does (f : Part) (change : View → View) : Prop :=
  ∀ i, (f i).2 = true → view (f i).1 = change (view i)

theorem Part.Does.andThen {f g : Part} {change change' : View → View} (hf : f.Does change)
    (hg : g.Does change') : (f.andThen g).Does fun v => change' (change v) := by
  intro i hok
  unfold Part.andThen at hok ⊢
  cases hfi : (f i).2 with
  | true =>
    simp only [hfi, if_true] at hok ⊢
    rw [hg _ hok, hf i hfi]
  | false =>
    simp only [hfi, Bool.false_eq_true, if_false] at hok

theorem does_call {c : Call} {f : Inode → Inode} {change : View → View}
    (h : ∀ i, view (f i) = change (view i)) : Part.Does (call fails c f) change := by
  intro i hok
  unfold call at hok ⊢
  split
  · rename_i hfail
    rw [if_pos hfail] at hok
    cases hok
  · exact h i

/-- A call that only asks. -/
theorem does_ask (c : Call) : Part.Does (call fails c id) fun v => v :=
  does_call fun _ => rfl

theorem Part.Does.onlyIf {f : Part} {change : View → View} (hf : f.Does change) (selected : Bool) :
    Part.Does (onlyIf selected f) fun v => if selected then change v else v := by
  intro i hok
  cases selected with
  | true => exact hf i hok
  | false => rfl

theorem view_setFlags (i : Inode) (s d : BitVec 64) :
    view { i with ext2 := i.ext2 &&& ~~~EXT2FLAGS_USER2KERNEL d ||| EXT2FLAGS_USER2KERNEL s } =
      { view i with
        file := (view i).file && !tests d VC_IMMUTABLE_FILE_FL || tests s VC_IMMUTABLE_FILE_FL
        link := (view i).link && !tests d VC_IMMUTABLE_LINK_FL || tests s VC_IMMUTABLE_LINK_FL } := by
  simp only [view, user2kernel, tests_file, tests_link, BitVec.getLsbD_or, BitVec.getLsbD_and,
    BitVec.getLsbD_not]
  rfl

theorem view_setXflg (i : Inode) (flags mask : BitVec 32) :
    view { i with xflg := newXflg flags mask i.xflg } = { view i with
      hide := (view i).hide && !chosen mask .HIDE || chosen flags .HIDE
      watch := (view i).watch && !chosen mask .WATCH || chosen flags .WATCH } := by
  unfold chosen Attr.bit
  simp only [view, newXflg, tests_one, tests_two, BitVec.getLsbD_or, BitVec.getLsbD_and,
    BitVec.getLsbD_not]
  cases tests mask VC_IATTR_HIDE <;> cases tests mask VC_IATTR_WATCH <;>
    cases tests flags VC_IATTR_HIDE <;> cases tests flags VC_IATTR_WATCH <;> rfl

theorem view_fchmod (i : Inode) : view { i with mode := 0#12 } = { view i with closed := true } ∧
    view { i with mode := 0o500#12 } = { view i with closed := false } := by
  simp [view]

theorem does_setExt2flags (attr : BitVec 32) (s d : BitVec 64) :
    Part.Does (setExt2flags fails attr s d) fun v => { v with
      file := v.file && !tests d VC_IMMUTABLE_FILE_FL || tests s VC_IMMUTABLE_FILE_FL
      link := v.link && !tests d VC_IMMUTABLE_LINK_FL || tests s VC_IMMUTABLE_LINK_FL } :=
  (does_ask _).andThen (does_call fun i => view_setFlags i s d)

theorem does_setIunlink (flags : BitVec 32) :
    Part.Does (setIunlink fails flags) fun v => { v with
      file := chosen flags .IUNLINK, link := chosen flags .IUNLINK } := by
  obtain ⟨hfile, hlink, -⟩ := tests_masks
  unfold setIunlink chosen Attr.bit
  cases tests flags VC_IATTR_IUNLINK with
  | true =>
    intro i hok
    rw [if_pos rfl] at hok ⊢
    rw [does_setExt2flags _ _ _ i hok]
    simp only [hfile, hlink, Bool.or_true]
  | false =>
    intro i hok
    rw [if_neg Bool.false_ne_true] at hok ⊢
    rw [does_setExt2flags _ _ _ i hok]
    simp only [hfile, hlink, tests_zero, Bool.not_true, Bool.and_false, Bool.or_false]

theorem does_setBarrier (flags : BitVec 32) :
    Part.Does (setBarrier fails flags) fun v => { v with
      link := chosen flags .BARRIER, closed := chosen flags .BARRIER } := by
  obtain ⟨-, -, hfile, hlink⟩ := tests_masks
  unfold setBarrier chosen Attr.bit
  cases tests flags VC_IATTR_BARRIER with
  | true =>
    intro i hok
    have hchmod := @does_call fails .fchmod (fun i => { i with mode := 0#12 })
      (fun v => { v with closed := true }) fun i => (view_fchmod i).1
    rw [if_pos rfl] at hok ⊢
    rw [((does_setExt2flags _ _ _).andThen hchmod) i hok]
    simp only [hfile, hlink, tests_zero, Bool.not_false, Bool.and_true, Bool.or_true, Bool.or_false]
  | false =>
    intro i hok
    have hchmod := @does_call fails .fchmod (fun i => { i with mode := 0o500#12 })
      (fun v => { v with closed := false }) fun i => (view_fchmod i).2
    rw [if_neg Bool.false_ne_true] at hok ⊢
    rw [((does_setExt2flags _ _ _).andThen hchmod) i hok]
    simp only [hfile, hlink, tests_zero, Bool.not_true, Bool.not_false, Bool.and_true,
      Bool.and_false, Bool.or_false]

theorem does_setXflg (flags mask : BitVec 32) :
    Part.Does (setXflg fails flags mask) fun v => { v with
      hide := v.hide && !chosen mask .HIDE || chosen flags .HIDE
      watch := v.watch && !chosen mask .WATCH || chosen flags .WATCH } :=
  (does_ask _).andThen (does_call fun i => view_setXflg i flags mask)

/-- **What the call does**, on the bits that the attributes depend on. -/
def View.set (xid : BitVec 32) (flags mask : Attr → Bool) (setsXid : Bool) (v : View) : View :=
  let v := if mask .IUNLINK then { v with file := flags .IUNLINK, link := flags .IUNLINK } else v
  let v := if mask .BARRIER then { v with link := flags .BARRIER, closed := flags .BARRIER } else v
  let v := if setsXid then { v with context := xid } else v
  if mask .HIDE || mask .WATCH then { v with
    hide := v.hide && !mask .HIDE || flags .HIDE
    watch := v.watch && !mask .WATCH || flags .WATCH }
  else v

theorem does_set (xid flags mask : BitVec 32) :
    Part.Does (vc_set_iattr fails xid flags mask)
      (View.set xid (chosen flags) (chosen mask) (tests mask VC_IATTR_XID)) := by
  have hcontext := @does_call fails .setContext (fun i => { i with context := xid })
    (fun v => { v with context := xid }) fun i => rfl
  have hiunlink := (@does_setIunlink fails flags).onlyIf (tests mask VC_IATTR_IUNLINK)
  have hbarrier := (@does_setBarrier fails flags).onlyIf (tests mask VC_IATTR_BARRIER)
  have hxid := hcontext.onlyIf (tests mask VC_IATTR_XID)
  have hxflg := (@does_setXflg fails flags mask).onlyIf (tests mask (VC_IATTR_HIDE ||| VC_IATTR_WATCH))
  rw [tests_or] at hxflg
  have hall := (@does_ask fails .open).andThen ((@does_ask fails .fstat).andThen
    (hiunlink.andThen (hbarrier.andThen (hxid.andThen hxflg))))
  intro i hok
  have hor := tests_or mask VC_IATTR_HIDE VC_IATTR_WATCH
  unfold vc_set_iattr at hok ⊢
  rw [hor] at hok ⊢
  exact hall i hok

/-! ## Errors -/

/-- What the attributes depend on after some of the parts, the last of them maybe not complete. -/
structure Touches (flags mask : Attr → Bool) (setsXid : Bool) (v v' : View) : Prop where
  kind : v'.kind = v.kind
  closed : v'.closed = v.closed ∨ mask .BARRIER = true
  file : v'.file = v.file ∨ mask .IUNLINK = true
  link : v'.link = v.link ∨ (mask .IUNLINK = true ∧ v'.link = flags .IUNLINK) ∨
    (mask .BARRIER = true ∧ v'.link = flags .BARRIER)
  hide : v'.hide = v.hide ∨
    ((mask .HIDE = true ∨ mask .WATCH = true) ∧ v'.hide = (v.hide && !mask .HIDE || flags .HIDE))
  watch : v'.watch = v.watch ∨
    ((mask .HIDE = true ∨ mask .WATCH = true) ∧
      v'.watch = (v.watch && !mask .WATCH || flags .WATCH))
  context : v'.context = v.context ∨ setsXid = true

section Errors

variable {f m : Attr → Bool} {x : Bool} {v v' v'' : View}

theorem Touches.refl (v : View) : Touches f m x v v :=
  ⟨rfl, .inl rfl, .inl rfl, .inl rfl, .inl rfl, .inl rfl, .inl rfl⟩

theorem Touches.trans (h : Touches f m x v v') (h' : Touches f m x v' v'') :
    Touches f m x v v'' := by
  refine ⟨h'.kind.trans h.kind, ?_, ?_, ?_, ?_, ?_, ?_⟩
  · rcases h'.closed with heq | hmask
    · rw [heq]
      exact h.closed
    · exact .inr hmask
  · rcases h'.file with heq | hmask
    · rw [heq]
      exact h.file
    · exact .inr hmask
  · rcases h'.link with heq | hmask
    · rw [heq]
      exact h.link
    · exact .inr hmask
  · rcases h'.hide with heq | ⟨hmask, heq⟩
    · rw [heq]
      exact h.hide
    · refine .inr ⟨hmask, ?_⟩
      rcases h.hide with hsame | ⟨-, hsame⟩
      · rw [heq, hsame]
      · rw [heq, hsame]
        cases v.hide <;> cases m .HIDE <;> cases f .HIDE <;> rfl
  · rcases h'.watch with heq | ⟨hmask, heq⟩
    · rw [heq]
      exact h.watch
    · refine .inr ⟨hmask, ?_⟩
      rcases h.watch with hsame | ⟨-, hsame⟩
      · rw [heq, hsame]
      · rw [heq, hsame]
        cases v.watch <;> cases m .WATCH <;> cases f .WATCH <;> rfl
  · rcases h'.context with heq | hmask
    · rw [heq]
      exact h.context
    · exact .inr hmask

/-- **No other attribute changes**, when the kept bits are not needed by one. -/
theorem Touches.keeps (h : Touches f m x v v')
    (hiunlink : m .IUNLINK = false → m .BARRIER = true → v.file = true ∨ f .BARRIER = v.link)
    (hbarrier : m .BARRIER = false → m .IUNLINK = true → v.dir = true → v.closed = true →
      f .IUNLINK = v.link)
    (hhide : m .HIDE = false → m .WATCH = true → f .HIDE = true → v.hide = true)
    (hwatch : m .WATCH = false → m .HIDE = true → f .WATCH = true → v.watch = true)
    {a : Attr} (ha : m a = false) : v'.isSet a = v.isSet a := by
  have hno : ∀ {b : Bool}, b = false → ¬ b = true := fun hb => by rw [hb]; nofun
  cases a with
  | WATCH =>
    rcases h.watch with heq | ⟨hmask, heq⟩
    · exact heq
    · have hother := hwatch ha (hmask.resolve_right (hno ha))
      show v'.watch = v.watch
      rw [heq, ha, Bool.not_false, Bool.and_true]
      cases hf : f .WATCH with
      | true => rw [hother hf]; rfl
      | false => exact Bool.or_false _
  | HIDE =>
    rcases h.hide with heq | ⟨hmask, heq⟩
    · exact heq
    · have hother := hhide ha (hmask.resolve_left (hno ha))
      show v'.hide = v.hide
      rw [heq, ha, Bool.not_false, Bool.and_true]
      cases hf : f .HIDE with
      | true => rw [hother hf]; rfl
      | false => exact Bool.or_false _
  | BARRIER =>
    have hclosed := h.closed.resolve_right (hno ha)
    show (v'.dir && v'.closed && v'.link) = (v.dir && v.closed && v.link)
    have hdir : v'.dir = v.dir := by rw [View.dir, h.kind, View.dir]
    rw [hdir, hclosed]
    rcases h.link with heq | ⟨hmask, heq⟩ | ⟨hmask, -⟩
    · rw [heq]
    · cases hd : v.dir with
      | false => rfl
      | true =>
        cases hc : v.closed with
        | false => rfl
        | true => rw [heq, hbarrier ha hmask hd hc]
    · exact absurd hmask (hno ha)
  | IUNLINK =>
    have hfile := h.file.resolve_right (hno ha)
    show (v'.file || v'.link) = (v.file || v.link)
    rw [hfile]
    rcases h.link with heq | ⟨hmask, -⟩ | ⟨hmask, heq⟩
    · rw [heq]
    · exact absurd hmask (hno ha)
    · rcases hiunlink ha hmask with hset | hsame
      · rw [hset]; rfl
      · rw [heq, hsame]

variable (f m x) in
/-- Whatever fails, a part leaves this. -/
def Part.Touching (part : Part) : Prop := ∀ i, Touches f m x (view i) (view (part i).1)

theorem Part.Touching.andThen {p q : Part} (hp : p.Touching f m x) (hq : q.Touching f m x) :
    (p.andThen q).Touching f m x := by
  intro i
  unfold Part.andThen
  cases hok : (p i).2 with
  | true =>
    simp only [hok, if_true]
    exact (hp i).trans (hq _)
  | false =>
    simp only [hok, Bool.false_eq_true, if_false]
    exact hp i

theorem touching_call {c : Call} {change : Inode → Inode}
    (h : ∀ i, Touches f m x (view i) (view (change i))) :
    Part.Touching f m x (call fails c change) := by
  intro i
  unfold call
  split
  · exact Touches.refl _
  · exact h i

theorem touching_ask (c : Call) : Part.Touching f m x (call fails c id) :=
  touching_call fun i => Touches.refl (view i)

theorem Part.Touching.onlyIf {p : Part} {selected : Bool}
    (hp : selected = true → p.Touching f m x) : Part.Touching f m x (onlyIf selected p) := by
  intro i
  unfold IattrFscompat.onlyIf
  split
  · rename_i hsel
    exact hp hsel i
  · exact Touches.refl _

theorem touching_setExt2flags {attr : BitVec 32} {s d : BitVec 64}
    (h : ∀ v : View, Touches f m x v { v with
      file := v.file && !tests d VC_IMMUTABLE_FILE_FL || tests s VC_IMMUTABLE_FILE_FL
      link := v.link && !tests d VC_IMMUTABLE_LINK_FL || tests s VC_IMMUTABLE_LINK_FL }) :
    Part.Touching f m x (setExt2flags fails attr s d) := by
  refine (touching_ask _).andThen (touching_call fun i => ?_)
  rw [view_setFlags]
  exact h (view i)

end Errors

theorem touching_setIunlink {x : Bool} (hmask : chosen mask .IUNLINK = true) :
    Part.Touching (chosen flags) (chosen mask) x (setIunlink fails flags) := by
  obtain ⟨hfile, hlink, -⟩ := tests_masks
  unfold setIunlink
  split
  · rename_i hflag
    refine touching_setExt2flags fun v => ⟨rfl, .inl rfl, .inr hmask, .inr (.inl ⟨hmask, ?_⟩),
      .inl rfl, .inl rfl, .inl rfl⟩
    rw [hlink, Bool.or_true]
    exact hflag.symm
  · rename_i hflag
    refine touching_setExt2flags fun v => ⟨rfl, .inl rfl, .inr hmask, .inr (.inl ⟨hmask, ?_⟩),
      .inl rfl, .inl rfl, .inl rfl⟩
    rw [hlink, tests_zero, Bool.not_true, Bool.and_false, Bool.or_false]
    exact (Bool.eq_false_of_not_eq_true hflag).symm

theorem touching_setBarrier {x : Bool} (hmask : chosen mask .BARRIER = true) :
    Part.Touching (chosen flags) (chosen mask) x (setBarrier fails flags) := by
  obtain ⟨-, -, hfile, hlink⟩ := tests_masks
  have hclosed : ∀ (v : View) (b : Bool),
      Touches (chosen flags) (chosen mask) x v { v with closed := b } := fun v b =>
    ⟨rfl, .inr hmask, .inl rfl, .inl rfl, .inl rfl, .inl rfl, .inl rfl⟩
  unfold setBarrier
  split
  · rename_i hflag
    refine (touching_setExt2flags fun v => ⟨rfl, .inl rfl, .inl ?_, .inr (.inr ⟨hmask, ?_⟩),
      .inl rfl, .inl rfl, .inl rfl⟩).andThen (touching_call fun i => ?_)
    · rw [hfile, tests_zero, Bool.not_false, Bool.and_true, Bool.or_false]
    · rw [hlink, Bool.or_true]
      exact hflag.symm
    · rw [(view_fchmod i).1]
      exact hclosed (view i) true
  · rename_i hflag
    refine (touching_setExt2flags fun v => ⟨rfl, .inl rfl, .inl ?_, .inr (.inr ⟨hmask, ?_⟩),
      .inl rfl, .inl rfl, .inl rfl⟩).andThen (touching_call fun i => ?_)
    · rw [hfile, tests_zero, Bool.not_false, Bool.and_true, Bool.or_false]
    · rw [hlink, tests_zero, Bool.not_true, Bool.and_false, Bool.or_false]
      exact (Bool.eq_false_of_not_eq_true hflag).symm
    · rw [(view_fchmod i).2]
      exact hclosed (view i) false

/-- **Whatever fails**, the call leaves this. -/
theorem touching_set (xid flags mask : BitVec 32) :
    Part.Touching (chosen flags) (chosen mask) (tests mask VC_IATTR_XID)
      (vc_set_iattr fails xid flags mask) := by
  refine (touching_ask _).andThen ((touching_ask _).andThen ?_)
  refine (Part.Touching.onlyIf touching_setIunlink).andThen ?_
  refine (Part.Touching.onlyIf touching_setBarrier).andThen ?_
  refine (Part.Touching.onlyIf fun hmask => touching_call fun i => ?_).andThen ?_
  · exact ⟨rfl, .inl rfl, .inl rfl, .inl rfl, .inl rfl, .inl rfl, .inr hmask⟩
  · refine Part.Touching.onlyIf fun hmask => (touching_ask _).andThen (touching_call fun i => ?_)
    rw [tests_or, Bool.or_eq_true] at hmask
    rw [view_setXflg]
    exact ⟨rfl, .inl rfl, .inl rfl, .inl rfl, .inr ⟨hmask, rfl⟩, .inr ⟨hmask, rfl⟩, .inl rfl⟩

/-! ## Reading -/

/-- The word with the attributes. -/
def word (s : Attr → Bool) : BitVec 32 :=
  (if s .IUNLINK then VC_IATTR_IUNLINK else 0) ||| (if s .BARRIER then VC_IATTR_BARRIER else 0) |||
    (if s .HIDE then VC_IATTR_HIDE else 0) ||| (if s .WATCH then VC_IATTR_WATCH else 0)

theorem chosen_word (s : Attr → Bool) : chosen (word s) = s := by
  funext a
  have hbits : ∀ b c d e : Bool, chosen ((if b then VC_IATTR_IUNLINK else 0) |||
      (if c then VC_IATTR_BARRIER else 0) ||| (if d then VC_IATTR_HIDE else 0) |||
      (if e then VC_IATTR_WATCH else 0)) a =
        match a with | .IUNLINK => b | .BARRIER => c | .HIDE => d | .WATCH => e := by
    cases a <;> decide
  rw [word, hbits]
  cases a <;> rfl

/-- A flag that is set under a condition. -/
theorem or_if (flags bit : BitVec 32) (p : Prop) [Decidable p] :
    (if p then flags ||| bit else flags) = flags ||| if p then bit else 0 := by
  split <;> simp

/-- The attributes that a call reads: `HIDE` and `WATCH` always together. -/
def reads (request : BitVec 32) : Attr → Bool
  | .HIDE => chosen request .HIDE || chosen request .WATCH
  | .WATCH => chosen request .HIDE || chosen request .WATCH
  | a => chosen request a

/-- **What is read**, when no system call fails. -/
theorem get_word (hkind : i.kind ≠ .other) (request : BitVec 32) :
    (vc_get_iattr (fun _ => false) i 0 request).flags =
        word (fun a => reads request a && (view i).isSet a) ∧
      (vc_get_iattr (fun _ => false) i 0 request).xid =
        if tests request VC_IATTR_XID then some i.context else none := by
  have hguard : ¬ (i.kind ≠ .REG ∧ i.kind ≠ .DIR) := by
    rintro ⟨hreg, hdir⟩
    cases hk : i.kind with
    | REG => exact hreg hk
    | DIR => exact hdir hk
    | other => exact hkind hk
  have hxid : ∀ out, (getXid (fun _ => false) i request out).flags = out.flags := by
    intro out
    unfold getXid
    split <;> rfl
  have hiunlink : ∀ out, (getIunlink (fun _ => false) i request out).flags = out.flags |||
      (if chosen request .IUNLINK && (view i).isSet .IUNLINK then VC_IATTR_IUNLINK else 0) := by
    intro out
    unfold getIunlink chosen Attr.bit
    cases tests request VC_IATTR_IUNLINK with
    | true => simp [kernel2user, tests_or, or_if, View.isSet, view]
    | false => simp
  have hbarrier : ∀ out, (getBarrier (fun _ => false) i request out).flags = out.flags |||
      (if chosen request .BARRIER && (view i).isSet .BARRIER then VC_IATTR_BARRIER else 0) := by
    intro out
    unfold getBarrier chosen Attr.bit
    cases tests request VC_IATTR_BARRIER with
    | true =>
      by_cases hdir : i.kind = .DIR
      · simp [kernel2user, or_if, View.isSet, View.dir, view, hdir]
      · simp [View.isSet, View.dir, view, hdir]
    | false => simp
  have hxflg : ∀ out, (getXflg (fun _ => false) i request out).flags = out.flags |||
      (if reads request .HIDE && (view i).isSet .HIDE then VC_IATTR_HIDE else 0) |||
      (if reads request .WATCH && (view i).isSet .WATCH then VC_IATTR_WATCH else 0) := by
    intro out
    unfold getXflg reads chosen Attr.bit
    rw [tests_or, Bool.or_comm]
    cases tests request VC_IATTR_HIDE || tests request VC_IATTR_WATCH with
    | true => simp [or_if, View.isSet, view]
    | false => simp
  have hkeep : ∀ out, (getXflg (fun _ => false) i request out).xid = out.xid ∧
      (getBarrier (fun _ => false) i request out).xid = out.xid ∧
      (getIunlink (fun _ => false) i request out).xid = out.xid := by
    intro out
    unfold getXflg getBarrier getIunlink
    refine ⟨?_, ?_, ?_⟩ <;> split <;> rfl
  simp only [vc_get_iattr, Bool.false_eq_true, if_false, if_neg hguard, Bool.or_self]
  constructor
  · have hzero : ∀ bits : BitVec 32, 0 ||| bits = bits := fun bits => BitVec.zero_or
    rw [hxflg, hbarrier, hiunlink, hxid, hzero]
    rfl
  · rw [(hkeep _).1, (hkeep _).2.1, (hkeep _).2.2]
    unfold getXid
    split <;> rfl

/-! ## Round trip -/

section RoundTrip

variable (v : View) (f m q : Attr → Bool)

/-- The attribute after it was set, or not. -/
def wanted (a : Attr) : Bool := if m a then f a else v.isSet a

/-- The attributes read are those asked for that are set, and no other attribute has changed. -/
structure RoundTrip (v' : View) (out : Info) (xid : BitVec 32) (setsXid getsXid : Bool) :
    Prop where
  frame : ∀ a, m a = false → v'.isSet a = v.isSet a
  frame_xid : setsXid = false → v'.context = v.context
  flags : out.flags = word fun a => q a && wanted v f m a
  xid : getsXid = true → out.xid = some (if setsXid then xid else v.context)

/-- Neither of `HIDE` and `WATCH` is set by the flags when only the other is selected, nor is one that
is set read when only the other is asked for. -/
structure Together : Prop where
  hide : m .HIDE = false → m .WATCH = true → f .HIDE = true → v.hide = true
  watch : m .WATCH = false → m .HIDE = true → f .WATCH = true → v.watch = true
  hide_asked : q .WATCH = true → q .HIDE = false → wanted v f m .HIDE = false
  watch_asked : q .HIDE = true → q .WATCH = false → wanted v f m .WATCH = false

/-- The shared flag `VC_IMMUTABLE_LINK_FL` is the same for both attributes that need it, and no
barrier is made of a regular file. -/
structure Compatible : Prop where
  iunlink : m .IUNLINK = false → m .BARRIER = true → v.file = true ∨ f .BARRIER = v.link
  barrier : m .BARRIER = false → m .IUNLINK = true → v.dir = true → v.closed = true →
    f .IUNLINK = v.link
  iunlink_asked : q .IUNLINK = true → m .IUNLINK = true → m .BARRIER = true →
    f .BARRIER = true → f .IUNLINK = true
  barrier_asked : q .BARRIER = true → m .BARRIER = true → f .BARRIER = true → v.dir = true

end RoundTrip

theorem word_inj {s t : Attr → Bool} : word s = word t ↔ ∀ a, s a = t a := by
  constructor
  · intro h a
    rw [← chosen_word s, ← chosen_word t, h]
  · intro h
    rw [funext h]

section Set

variable (v : View) (f m q : Attr → Bool) (x : Bool)

theorem set_iunlink : (View.set xid f m x v).isSet .IUNLINK =
    if m .BARRIER then (if m .IUNLINK then f .IUNLINK else v.file) || f .BARRIER
    else if m .IUNLINK then f .IUNLINK else v.file || v.link := by
  unfold View.set View.isSet
  cases m .IUNLINK <;> cases m .BARRIER <;> cases x <;> cases m .HIDE || m .WATCH <;> simp

theorem set_barrier : (View.set xid f m x v).isSet .BARRIER =
    if m .BARRIER then v.dir && f .BARRIER
    else v.dir && v.closed && (if m .IUNLINK then f .IUNLINK else v.link) := by
  unfold View.set View.isSet View.dir
  cases m .IUNLINK <;> cases m .BARRIER <;> cases x <;> cases m .HIDE || m .WATCH <;>
    simp [Bool.and_assoc]

theorem set_hide : (View.set xid f m x v).isSet .HIDE =
    if m .HIDE || m .WATCH then v.hide && !m .HIDE || f .HIDE else v.hide := by
  unfold View.set View.isSet
  cases m .IUNLINK <;> cases m .BARRIER <;> cases x <;> cases m .HIDE || m .WATCH <;> simp

theorem set_watch : (View.set xid f m x v).isSet .WATCH =
    if m .HIDE || m .WATCH then v.watch && !m .WATCH || f .WATCH else v.watch := by
  unfold View.set View.isSet
  cases m .IUNLINK <;> cases m .BARRIER <;> cases x <;> cases m .HIDE || m .WATCH <;> simp

theorem set_context : (View.set xid f m x v).context = if x then xid else v.context := by
  unfold View.set
  cases m .IUNLINK <;> cases m .BARRIER <;> cases x <;> cases m .HIDE || m .WATCH <;> simp

/-- `IUNLINK` is read as wanted. -/
theorem iunlink_iff : ((m .IUNLINK = false → (View.set xid f m x v).isSet .IUNLINK = v.isSet .IUNLINK) ∧
    (q .IUNLINK && (View.set xid f m x v).isSet .IUNLINK) = (q .IUNLINK && wanted v f m .IUNLINK)) ↔
    (m .IUNLINK = false → m .BARRIER = true → v.file = true ∨ f .BARRIER = v.link) ∧
    (q .IUNLINK = true → m .IUNLINK = true → m .BARRIER = true → f .BARRIER = true →
      f .IUNLINK = true) := by
  rw [set_iunlink]
  simp only [wanted, View.isSet]
  generalize m .IUNLINK = mi
  generalize m .BARRIER = mb
  generalize f .IUNLINK = fi
  generalize f .BARRIER = fb
  generalize q .IUNLINK = qi
  generalize v.file = file
  generalize v.link = link
  cases mi <;> cases mb <;> grind

/-- So is `BARRIER`. -/
theorem barrier_iff : ((m .BARRIER = false → (View.set xid f m x v).isSet .BARRIER = v.isSet .BARRIER) ∧
    (q .BARRIER && (View.set xid f m x v).isSet .BARRIER) = (q .BARRIER && wanted v f m .BARRIER)) ↔
    (m .BARRIER = false → m .IUNLINK = true → v.dir = true → v.closed = true →
      f .IUNLINK = v.link) ∧
    (q .BARRIER = true → m .BARRIER = true → f .BARRIER = true → v.dir = true) := by
  rw [set_barrier]
  simp only [wanted, View.isSet]
  generalize m .IUNLINK = mi
  generalize m .BARRIER = mb
  generalize f .IUNLINK = fi
  generalize f .BARRIER = fb
  generalize q .BARRIER = qb
  generalize v.dir = dir
  generalize v.closed = closed
  generalize v.link = link
  cases mi <;> cases mb <;> grind

/-- `HIDE` and `WATCH` are read as wanted when they are set and asked for together. -/
theorem xflg_wanted {v : View} {f m q : Attr → Bool} (h : Together v f m q) (x : Bool) :
    (∀ a, a = .HIDE ∨ a = .WATCH → (View.set xid f m x v).isSet a = wanted v f m a) ∧
      ((q .HIDE || q .WATCH) && wanted v f m .HIDE) = (q .HIDE && wanted v f m .HIDE) ∧
      ((q .HIDE || q .WATCH) && wanted v f m .WATCH) = (q .WATCH && wanted v f m .WATCH) := by
  obtain ⟨hhide, hwatch, hhide', hwatch'⟩ := h
  refine ⟨?_, ?_, ?_⟩
  · rintro a (rfl | rfl)
    · rw [set_hide]
      simp only [wanted, View.isSet]
      clear hhide' hwatch' hwatch
      generalize m .HIDE = mh at *
      generalize m .WATCH = mw at *
      generalize f .HIDE = fh at *
      generalize v.hide = hide at *
      revert mh mw fh hide
      decide
    · rw [set_watch]
      simp only [wanted, View.isSet]
      clear hhide' hwatch' hhide
      generalize m .HIDE = mh at *
      generalize m .WATCH = mw at *
      generalize f .WATCH = fw at *
      generalize v.watch = watch at *
      revert mh mw fw watch
      decide
  · cases hq : q .HIDE with
    | true => rfl
    | false =>
      cases hq' : q .WATCH with
      | true => rw [hhide' hq' hq]; rfl
      | false => rfl
  · cases hq : q .WATCH with
    | true => rw [Bool.or_true]
    | false =>
      cases hq' : q .HIDE with
      | true => rw [hwatch' hq' hq]; rfl
      | false => rfl

end Set

/-- **Setting attributes and reading them again**, for files and directories, when `HIDE` and
`WATCH` are treated together: what is read is what was set, and no other attribute has changed, for
exactly those attributes that do not compete for the shared flag.  For these nothing else changes
either when the call fails. -/
theorem setIattr_getIattr (hkind : i.kind ≠ .other)
    (htogether : Together (view i) (chosen flags) (chosen mask) (chosen request)) :
    ((vc_set_iattr fails xid flags mask i).2 = true →
      (RoundTrip (view i) (chosen flags) (chosen mask) (chosen request)
          (view (vc_set_iattr fails xid flags mask i).1)
          (vc_get_iattr (fun _ => false) (vc_set_iattr fails xid flags mask i).1 0 request) xid
          (tests mask VC_IATTR_XID) (tests request VC_IATTR_XID) ↔
        Compatible (view i) (chosen flags) (chosen mask) (chosen request))) ∧
    (Compatible (view i) (chosen flags) (chosen mask) (chosen request) →
      ∀ a, chosen mask a = false →
        (view (vc_set_iattr fails xid flags mask i).1).isSet a = (view i).isSet a) := by
  have htouch := @touching_set fails xid flags mask i
  refine ⟨fun hok => ?_, fun hcompat a ha => htouch.keeps hcompat.iunlink hcompat.barrier
    htogether.hide htogether.watch ha⟩
  have hview := does_set xid flags mask i hok
  have hkind' : (vc_set_iattr fails xid flags mask i).1.kind ≠ .other := by
    have hsame : (vc_set_iattr fails xid flags mask i).1.kind = i.kind := htouch.kind
    rwa [hsame]
  obtain ⟨hflags, hxid⟩ := get_word hkind' request
  obtain ⟨hxflg, hhide, hwatch⟩ :=
    @xflg_wanted xid _ _ _ _ htogether (tests mask VC_IATTR_XID)
  have hiunlink := @iunlink_iff xid (view i) (chosen flags) (chosen mask) (chosen request)
    (tests mask VC_IATTR_XID)
  have hbarrier := @barrier_iff xid (view i) (chosen flags) (chosen mask) (chosen request)
    (tests mask VC_IATTR_XID)
  have hcontext := @set_context xid (view i) (chosen flags) (chosen mask) (tests mask VC_IATTR_XID)
  rw [← hview] at hiunlink hbarrier hxflg hcontext
  constructor
  · rintro ⟨hframe, -, hword, -⟩
    rw [hflags, word_inj] at hword
    obtain ⟨h1, h2⟩ := hiunlink.mp ⟨hframe .IUNLINK, hword .IUNLINK⟩
    obtain ⟨h3, h4⟩ := hbarrier.mp ⟨hframe .BARRIER, hword .BARRIER⟩
    exact ⟨h1, h3, h2, h4⟩
  · rintro ⟨h1, h3, h2, h4⟩
    obtain ⟨hframe1, hword1⟩ := hiunlink.mpr ⟨h1, h2⟩
    obtain ⟨hframe2, hword2⟩ := hbarrier.mpr ⟨h3, h4⟩
    have hwanted : ∀ a, chosen mask a = false →
        wanted (view i) (chosen flags) (chosen mask) a = (view i).isSet a := by
      intro a ha
      rw [wanted, ha]
      rfl
    refine ⟨fun a ha => ?_, fun hx => ?_, ?_, fun hx => ?_⟩
    · cases a with
      | IUNLINK => exact hframe1 ha
      | BARRIER => exact hframe2 ha
      | HIDE => rw [hxflg .HIDE (.inl rfl), hwanted .HIDE ha]
      | WATCH => rw [hxflg .WATCH (.inr rfl), hwanted .WATCH ha]
    · rw [hcontext, hx]
      rfl
    · rw [hflags, word_inj]
      intro a
      cases a with
      | IUNLINK => exact hword1
      | BARRIER => exact hword2
      | HIDE =>
        rw [hxflg .HIDE (.inl rfl)]
        exact hhide
      | WATCH =>
        rw [hxflg .WATCH (.inr rfl)]
        exact hwatch
    · rw [hxid, if_pos hx, ← hcontext]
      rfl

/-- A directory without attributes. -/
def directory : Inode := ⟨.DIR, 0o755#12, 0, 0, 0⟩

theorem setIattr_getIattr_hide :
    (vc_get_iattr (fun _ => false)
      (vc_set_iattr (fun _ => false) 0 VC_IATTR_HIDE VC_IATTR_HIDE directory).1 0
      (VC_IATTR_HIDE ||| VC_IATTR_WATCH)).flags = VC_IATTR_HIDE := by
  have hround := (@setIattr_getIattr (fun _ => false) directory 0 VC_IATTR_HIDE VC_IATTR_HIDE
    (VC_IATTR_HIDE ||| VC_IATTR_WATCH) (by decide)
    ⟨by decide, by decide, by decide, by decide⟩).1 (by decide)
  have hcompat : Compatible (view directory) (chosen VC_IATTR_HIDE) (chosen VC_IATTR_HIDE)
      (chosen (VC_IATTR_HIDE ||| VC_IATTR_WATCH)) := ⟨by decide, by decide, by decide, by decide⟩
  rw [(hround.mpr hcompat).flags]
  decide

/-- **A barrier is read as `IUNLINK` as well**, which was not selected. -/
theorem setIattr_barrier :
    (view directory).isSet .IUNLINK = false ∧ chosen VC_IATTR_BARRIER .IUNLINK = false ∧
      (vc_get_iattr (fun _ => false)
        (vc_set_iattr (fun _ => false) 0 VC_IATTR_BARRIER VC_IATTR_BARRIER directory).1 0
        VC_IATTR_IUNLINK).flags = VC_IATTR_IUNLINK := by
  decide

end IattrFscompat
