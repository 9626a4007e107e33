import Mathlib.Logic.Function.Iterate
import UtilVserver.FstoolMain

/-!
# `setattr` and `chxid` (`src/setattr.c`, `src/chxid.c`)

What the two programs do to the attributes of inodes.

* `Attr`, `Kernel` — the attributes of an inode, and what the calls do about them.
* `Replaces` — what `vc_set_iattr` does where it works.
* `setattr`, `chxid` — the programs.
* `Pointwise` — a handler that looks at its own inode, and does nothing more the second time.

Principal results: `setattr_exact` and `chxid_exact`.
-/

set_option autoImplicit false

namespace FstoolAttr

open CString FstoolMain
open Fstool (Call Stat)

/-! ## Attributes -/

@[ext]
structure Attr where
  flags : BitVec 32
  xid : Nat
  deriving DecidableEq

/-- The device and the number of an inode. -/
abbrev Key := Nat × Nat

def key (st : Stat) : Key := (st.dev, st.ino)

abbrev Attrs := Key → Attr

/-- The kernel: whether `vc_get_iattr` works and which flags it shows, which flags an inode takes, and
what `vc_set_iattr` answers and leaves there for a context, flags and mask. -/
structure Kernel where
  gets : Key → Bool
  known : Key → BitVec 32
  takes : Key → BitVec 32
  set : Key → Nat → BitVec 32 → BitVec 32 → Attr → Bool × Attr

/-- The bit of the context in a mask. -/
def XID_BIT : Nat := 24

/-- Where `vc_set_iattr` works, the flags of the mask that the inode takes are replaced, and the
context with the bit for it; the rest is as before, and the same call works again.  A barrier is
taken on directories only.  With the flags of ext2, where it shares one with another flag, this is
not so. -/
structure Kernel.Replaces (kn : Kernel) : Prop where
  flags : ∀ {k xid flags mask a}, (kn.set k xid flags mask a).1 = true → ∀ i, i < 32 → i ≠ XID_BIT →
    (kn.set k xid flags mask a).2.flags.getLsbD i =
      if mask.getLsbD i && (kn.takes k).getLsbD i then flags.getLsbD i else a.flags.getLsbD i
  bit : ∀ {k xid flags mask a}, (kn.set k xid flags mask a).1 = true →
    (kn.set k xid flags mask a).2.flags.getLsbD XID_BIT = a.flags.getLsbD XID_BIT
  xid : ∀ {k xid flags mask a}, (kn.set k xid flags mask a).1 = true →
    (kn.set k xid flags mask a).2.xid = if mask.getLsbD XID_BIT then xid else a.xid
  again : ∀ {k xid flags mask a}, (kn.set k xid flags mask a).1 = true →
    (kn.set k xid flags mask (kn.set k xid flags mask a).2).1 = true

/-- `vc_set_iattr`. -/
def vc_set_iattr (kn : Kernel) (k : Key) (xid : Nat) (flags mask : BitVec 32) (s : Attrs) :
    Bool × Attrs :=
  let r := kn.set k xid flags mask (s k)
  (r.1, Function.update s k r.2)

/-! ## The programs -/

/-- `fixupParams` of both, behind its checks. -/
def fixupParams (args : Arguments) : Arguments :=
  { args with do_display_dir := !args.do_recurse, do_display_dot := true }

/-- `handleFile` of `setattr`. -/
def setattrFile (kn : Kernel) (args : Arguments) : Handler Attrs := fun c s =>
  vc_set_iattr kn (key c.target) 0 (args.set_mask &&& ~~~args.del_mask)
    (args.set_mask ||| args.del_mask) s

/-- `isUnified` of `chxid`. -/
def isUnified (kn : Kernel) (k : Key) (a : Attr) : Bool :=
  let V := VC_IATTR_IUNLINK ||| VC_IATTR_IMMUTABLE
  if !kn.gets k || kn.known k &&& V != V then false else a.flags &&& V == V

/-- `handleFile` of `chxid`. -/
def chxidFile (kn : Kernel) (args : Arguments) (ctx : Nat) : Handler Attrs := fun c s =>
  if !args.no_unified || !isUnified kn (key c.target) (s (key c.target)) then
    vc_set_iattr kn (key c.target) ctx 0 VC_IATTR_XID s
  else (true, s)

/-- `setattr`; 1 is `EXIT_FAILURE`. -/
def setattr (kn : Kernel) (opts : List Opt) (roots : List Root) (s : Attrs) : Nat × Attrs :=
  match options opts with
  | none => (1, s)
  | some args =>
    if roots = [] then (1, s)
    else fstool (setattrFile kn (fixupParams args)) (fixupParams args) roots s

/-- `chxid`; `ctx` is what `vc_tagopt2tag` makes of the argument of `-c`, if that is given. -/
def chxid (kn : Kernel) (ctx : Option Nat) (opts : List Opt) (roots : List Root) (s : Attrs) :
    Nat × Attrs :=
  match options opts with
  | none => (1, s)
  | some args =>
    match roots, ctx with
    | [], _ => (1, s)
    | _, none => (1, s)
    | roots, some ctx =>
      fstool (chxidFile kn (fixupParams args) ctx) (fixupParams args) roots s

/-- The inodes that the command line asks for. -/
def ReachesKey (args : Arguments) (roots : List Root) (k : Key) : Prop :=
  ∃ st, Reaches (fixupParams args) roots st ∧ key st = k

/-! ## Handlers that look at one inode -/

/-- The handler makes `f` of its inode and answers `ok`; where that is yes, another call would do
nothing more. -/
structure Pointwise (h : Handler Attrs) (f : Key → Attr → Attr) (ok : Key → Attr → Bool) : Prop where
  eq : ∀ c s, h c s = (ok (key c.target) (s (key c.target)),
    Function.update s (key c.target) (f (key c.target) (s (key c.target))))
  idem : ∀ {k a}, ok k a = true → f k (f k a) = f k a
  ok_idem : ∀ {k a}, ok k a = true → ok k (f k a) = true

namespace Pointwise

variable {h : Handler Attrs} {f : Key → Attr → Attr} {ok : Key → Attr → Bool}

/-- How often an inode is handled. -/
def times (cs : List Call) (k : Key) : Nat := cs.countP fun c => key c.target = k

theorem answers_attrs (hp : Pointwise h f ok) (cs : List Call) (s : Attrs) (k : Key) :
    (answers h cs s).2 k = (f k)^[times cs k] (s k) := by
  induction cs generalizing s with
  | nil => rfl
  | cons c cs ih =>
    rw [answers_cons, ih, hp.eq, times, times, List.countP_cons]
    by_cases hk : key c.target = k
    · subst hk
      simp [Function.iterate_add_apply]
    · dsimp only
      rw [Function.update_of_ne (Ne.symm hk)]
      simp [hk]

theorem times_eq_zero {cs : List Call} {k : Key} (hk : k ∉ cs.map fun c => key c.target) :
    times cs k = 0 := by
  rw [times, List.countP_eq_zero]
  intro c hc heq
  exact hk (List.mem_map.2 ⟨c, hc, of_decide_eq_true heq⟩)

theorem times_pos {cs : List Call} {k : Key} (hk : k ∈ cs.map fun c => key c.target) :
    0 < times cs k := by
  obtain ⟨c, hc, rfl⟩ := List.mem_map.1 hk
  exact List.countP_pos_iff.2 ⟨c, hc, decide_eq_true rfl⟩

/-- Where the first call works, the others do nothing more. -/
theorem iterate_ok (hp : Pointwise h f ok) {k : Key} {a : Attr} (hok : ok k a = true) {n : Nat}
    (hn : 0 < n) : (f k)^[n] a = f k a := by
  obtain ⟨m, rfl⟩ := Nat.exists_eq_add_of_lt hn
  rw [Nat.zero_add, Function.iterate_succ_apply, Function.iterate_fixed (hp.idem hok)]

/-- All calls work if the first one for each inode does. -/
theorem answers_ok (hp : Pointwise h f ok) (cs : List Call) (s : Attrs) :
    (∀ b ∈ (answers h cs s).1, b = true) ↔
      ∀ k ∈ cs.map (fun c => key c.target), ok k (s k) = true := by
  induction cs generalizing s with
  | nil => simp
  | cons c cs ih =>
    rw [answers_cons, List.forall_mem_cons, List.map_cons, List.forall_mem_cons, ih, hp.eq]
    refine and_congr_right fun hok => forall₂_congr fun k _ => ?_
    dsimp only at hok ⊢
    by_cases hk : k = key c.target
    · subst hk
      rw [Function.update_self]
      exact ⟨fun _ => hok, fun _ => hp.ok_idem hok⟩
    · rw [Function.update_of_ne hk]

/-- The inodes of the calls. -/
theorem mem_keys {args : Arguments} {roots : List Root} {k : Key} :
    k ∈ (calls (fixupParams args) roots).map (fun c => key c.target) ↔
      ReachesKey args roots k := by
  unfold ReachesKey
  rw [List.mem_map]
  constructor
  · rintro ⟨c, hc, rfl⟩
    exact ⟨c.target, mem_calls.1 ⟨c, hc, rfl⟩, rfl⟩
  · rintro ⟨st, hst, rfl⟩
    obtain ⟨c, hc, rfl⟩ := mem_calls.2 hst
    exact ⟨c, hc, rfl⟩

/-- An inode that is reached, where the call works. -/
theorem fstool_reached (hp : Pointwise h f ok) {args : Arguments} {roots : List Root} {s : Attrs}
    {k : Key} (hk : ReachesKey args roots k) (hok : ok k (s k) = true) :
    (fstool h (fixupParams args) roots s).2 k = f k (s k) := by
  rw [fstool_state, hp.answers_attrs]
  exact hp.iterate_ok hok (times_pos (mem_keys.2 hk))

/-- An inode that is not reached, or for which there is nothing to be done. -/
theorem fstool_other (hp : Pointwise h f ok) {args : Arguments} {roots : List Root} {s : Attrs}
    {k : Key} (hk : ¬ ReachesKey args roots k ∨ f k (s k) = s k) :
    (fstool h (fixupParams args) roots s).2 k = s k := by
  rw [fstool_state, hp.answers_attrs]
  rcases hk with hreach | hfixed
  · rw [times_eq_zero fun hmem => hreach (mem_keys.1 hmem)]
    rfl
  · exact Function.iterate_fixed hfixed _

theorem fstool_code (hp : Pointwise h f ok) {args : Arguments} {roots : List Root} (s : Attrs)
    (hlen : ErrorsFit (fixupParams args) roots) :
    (fstool h (fixupParams args) roots s).1 = 0 ↔
      (∀ root ∈ roots, Sound (fixupParams args) root) ∧
        ∀ k, ReachesKey args roots k → ok k (s k) = true := by
  rw [FstoolMain.fstool_code hlen, hp.answers_ok]
  simp only [mem_keys]

end Pointwise

/-! ## The two handlers -/

/-- What a call that works leaves, it leaves again. -/
theorem Kernel.Replaces.idem {kn : Kernel} (hkn : kn.Replaces) {k : Key} {xid : Nat}
    {flags mask : BitVec 32} {a : Attr} (hset : (kn.set k xid flags mask a).1 = true) :
    (kn.set k xid flags mask (kn.set k xid flags mask a).2).2 = (kn.set k xid flags mask a).2 := by
  have hagain := hkn.again hset
  have hflags : (kn.set k xid flags mask (kn.set k xid flags mask a).2).2.flags =
      (kn.set k xid flags mask a).2.flags := by
    refine BitVec.eq_of_getLsbD_eq fun i hi => ?_
    by_cases hxid : i = XID_BIT
    · rw [hxid, hkn.bit hagain]
    · rw [hkn.flags hagain i hi hxid, hkn.flags hset i hi hxid]
      split <;> rfl
  have hxid : (kn.set k xid flags mask (kn.set k xid flags mask a).2).2.xid =
      (kn.set k xid flags mask a).2.xid := by
    rw [hkn.xid hagain, hkn.xid hset]
    split <;> rfl
  exact Attr.ext hflags hxid

/-- The mask of the call of `setattr`. -/
def maskOf (args : Arguments) : BitVec 32 := args.set_mask ||| args.del_mask

/-- The call of `setattr` for an inode. -/
def setCall (kn : Kernel) (args : Arguments) (k : Key) (a : Attr) : Bool × Attr :=
  kn.set k 0 (args.set_mask &&& ~~~args.del_mask) (maskOf args) a

theorem setattrFile_pointwise {kn : Kernel} (hkn : kn.Replaces) (args : Arguments) :
    Pointwise (setattrFile kn args) (fun k a => (setCall kn args k a).2)
      (fun k a => (setCall kn args k a).1) where
  eq := fun _ _ => rfl
  idem := hkn.idem
  ok_idem := hkn.again

/-- `-U` leaves the file alone. -/
def skipped (kn : Kernel) (args : Arguments) (k : Key) (a : Attr) : Bool :=
  args.no_unified && isUnified kn k a

/-- The call of `chxid` for an inode. -/
def tagCall (kn : Kernel) (ctx : Nat) (k : Key) (a : Attr) : Bool × Attr :=
  kn.set k ctx 0 VC_IATTR_XID a

/-- What `chxid` makes of a file. -/
def chxidOf (kn : Kernel) (args : Arguments) (ctx : Nat) (k : Key) (a : Attr) : Attr :=
  if skipped kn args k a then a else (tagCall kn ctx k a).2

/-- The flags are left alone. -/
theorem tagCall_eq {kn : Kernel} (hkn : kn.Replaces) {ctx : Nat} {k : Key} {a : Attr}
    (htag : (tagCall kn ctx k a).1 = true) : (tagCall kn ctx k a).2 = ⟨a.flags, ctx⟩ := by
  have hbit : ∀ i : Fin 32, i.val ≠ XID_BIT → VC_IATTR_XID.getLsbD i = false := by decide
  refine Attr.ext (BitVec.eq_of_getLsbD_eq fun i hi => ?_) ?_
  · by_cases hxid : i = XID_BIT
    · rw [hxid]
      exact hkn.bit htag
    · refine (hkn.flags htag i hi hxid).trans ?_
      rw [hbit ⟨i, hi⟩ hxid]
      rfl
  · exact (hkn.xid htag).trans (if_pos (by decide))

theorem skipped_xid (kn : Kernel) (args : Arguments) (k : Key) (a : Attr) (ctx : Nat) :
    skipped kn args k ⟨a.flags, ctx⟩ = skipped kn args k a := rfl

theorem chxidFile_pointwise {kn : Kernel} (hkn : kn.Replaces) (args : Arguments) (ctx : Nat) :
    Pointwise (chxidFile kn args ctx) (chxidOf kn args ctx)
      (fun k a => skipped kn args k a || (tagCall kn ctx k a).1) where
  eq := by
    intro c s
    have hcond : (!args.no_unified || !isUnified kn (key c.target) (s (key c.target))) =
        !skipped kn args (key c.target) (s (key c.target)) := (Bool.not_and _ _).symm
    unfold chxidFile chxidOf
    rw [hcond]
    cases skipped kn args (key c.target) (s (key c.target)) with
    | true =>
      simp only [Bool.not_true, Bool.false_eq_true, if_false, if_true, Bool.true_or]
      rw [Function.update_eq_self]
    | false => rfl
  idem := by
    intro k a hok
    cases hskip : skipped kn args k a with
    | true => simp [chxidOf, hskip]
    | false =>
      rw [hskip, Bool.false_or] at hok
      have hfirst : chxidOf kn args ctx k a = (tagCall kn ctx k a).2 := by
        rw [chxidOf, hskip, if_neg Bool.false_ne_true]
      rw [hfirst, chxidOf, tagCall_eq hkn hok, skipped_xid, hskip, if_neg Bool.false_ne_true,
        ← tagCall_eq hkn hok]
      exact hkn.idem hok
  ok_idem := by
    intro k a hok
    cases hskip : skipped kn args k a with
    | true => simp [chxidOf, hskip]
    | false =>
      rw [hskip, Bool.false_or] at hok
      rw [chxidOf, hskip, if_neg Bool.false_ne_true]
      have hagain : (tagCall kn ctx k (tagCall kn ctx k a).2).1 = true := hkn.again hok
      rw [hagain, Bool.or_true]

/-! ## Main results -/

/-- What the flags of an inode are behind `setattr`; `takes` are those that it takes. -/
structure Flagged (takes : BitVec 32) (opts : List Opt) (old new : Attr) : Prop where
  flags : ∀ i, i < 32 → i ≠ XID_BIT → new.flags.getLsbD i =
    if takes.getLsbD i then (old.flags.getLsbD i || asked opts i) && !unasked opts i
    else old.flags.getLsbD i
  bit : new.flags.getLsbD XID_BIT = old.flags.getLsbD XID_BIT
  xid : new.xid = if asked opts XID_BIT || unasked opts XID_BIT then 0 else old.xid

theorem setCall_flagged {kn : Kernel} (hkn : kn.Replaces) {opts : List Opt} {args : Arguments}
    {k : Key} {a : Attr} (hopts : options opts = some args) (hset : (setCall kn args k a).1 = true) :
    Flagged (kn.takes k) opts a (setCall kn args k a).2 := by
  have hmask : ∀ i, (maskOf args).getLsbD i = (asked opts i || unasked opts i) := by
    intro i
    rw [maskOf, BitVec.getLsbD_or, (options_masks hopts i).1, (options_masks hopts i).2]
  constructor
  · intro i hi hxid
    refine (hkn.flags hset i hi hxid).trans ?_
    rw [hmask, BitVec.getLsbD_and, BitVec.getLsbD_not, (options_masks hopts i).1,
      (options_masks hopts i).2]
    cases (kn.takes k).getLsbD i <;> cases asked opts i <;> cases unasked opts i <;> simp [hi]
  · exact hkn.bit hset
  · refine (hkn.xid hset).trans ?_
    rw [hmask]

section Setattr

variable {kn : Kernel} {opts : List Opt} {args : Arguments} {roots : List Root}

theorem setattr_run (hopts : options opts = some args) (hroots : roots ≠ []) (s : Attrs) :
    setattr kn opts roots s =
      fstool (setattrFile kn (fixupParams args)) (fixupParams args) roots s := by
  unfold setattr
  rw [hopts]
  exact if_neg hroots

variable (hkn : kn.Replaces)

include hkn

theorem setattr_flagged (hopts : options opts = some args) (hroots : roots ≠ []) {s : Attrs} {k : Key}
    (hreach : ReachesKey args roots k) (hset : (setCall kn args k (s k)).1 = true) :
    Flagged (kn.takes k) opts (s k) ((setattr kn opts roots s).2 k) := by
  have hp := setattrFile_pointwise hkn (fixupParams args)
  rw [setattr_run hopts hroots, hp.fstool_reached hreach hset]
  have hflagged := setCall_flagged hkn hopts hset
  exact hflagged

theorem setattr_other (hopts : options opts = some args) (hroots : roots ≠ []) (s : Attrs) {k : Key}
    (hreach : ¬ ReachesKey args roots k) : (setattr kn opts roots s).2 k = s k := by
  rw [setattr_run hopts hroots]
  exact (setattrFile_pointwise hkn (fixupParams args)).fstool_other (Or.inl hreach)

/-- **`setattr` sets and clears what is asked for, on each inode that is reached and lets it be done,
however often and in whatever order, and touches no inode that is not reached.** -/
theorem setattr_exact (hopts : options opts = some args) (hroots : roots ≠ []) (s : Attrs) :
    (∀ k, ReachesKey args roots k → (setCall kn args k (s k)).1 = true →
      Flagged (kn.takes k) opts (s k) ((setattr kn opts roots s).2 k)) ∧
    (∀ k, ¬ ReachesKey args roots k → (setattr kn opts roots s).2 k = s k) ∧
    (ErrorsFit (fixupParams args) roots →
      ((setattr kn opts roots s).1 = 0 ↔ (∀ root ∈ roots, Sound (fixupParams args) root) ∧
        ∀ k, ReachesKey args roots k → (setCall kn args k (s k)).1 = true)) := by
  refine ⟨fun k => setattr_flagged hkn hopts hroots, fun k => setattr_other hkn hopts hroots s, ?_⟩
  rw [setattr_run hopts hroots]
  exact (setattrFile_pointwise hkn (fixupParams args)).fstool_code s

end Setattr

/-- Two names of one inode, one of them below a directory that is read. -/
def links : List Root :=
  [.file "/a".toList ⟨1, 7, false⟩,
    .dir "/d".toList ⟨⟨⟨1, 2, true⟩, true, true, true⟩,
      .entry ⟨"b".toList, by decide⟩ ⟨⟨1, 7, false⟩, true, true, true⟩ .nil .nil,
      ⟨List.not_mem_nil, fun _ => rfl, trivial, trivial⟩⟩]

def fileFlags : BitVec 32 := VC_IATTR_IUNLINK ||| VC_IATTR_IMMUTABLE ||| VC_IATTR_COW
def dirFlags : BitVec 32 := VC_IATTR_IUNLINK ||| VC_IATTR_IMMUTABLE ||| VC_IATTR_BARRIER

/-- The inode 2 is a directory, the others are files. -/
def taken (k : Key) : BitVec 32 := if k.2 = 2 then dirFlags else fileFlags

/-- A kernel that lets everything be done. -/
def able : Kernel where
  gets := fun _ => true
  known := fun k => taken k ||| VC_IATTR_XID
  takes := taken
  set := fun k xid flags mask a =>
    (true, ⟨(a.flags &&& ~~~(mask &&& taken k)) ||| (flags &&& (mask &&& taken k)),
      if mask.getLsbD XID_BIT then xid else a.xid⟩)

theorem able_replaces : able.Replaces where
  flags := by
    intro k xid flags mask a _ i hi _
    have hbits : ∀ old m t new : Bool,
        (old && !(m && t) || new && (m && t)) = if m && t then new else old := by decide
    simp only [able, BitVec.getLsbD_or, BitVec.getLsbD_and, BitVec.getLsbD_not, hi, decide_true,
      Bool.true_and]
    exact hbits _ _ _ _
  bit := by
    intro k xid flags mask a _
    have htaken : (taken k).getLsbD XID_BIT = false := by
      unfold taken
      split <;> decide
    have hlt : XID_BIT < 32 := by decide
    simp only [able, BitVec.getLsbD_or, BitVec.getLsbD_and, BitVec.getLsbD_not, htaken, hlt,
      decide_true, Bool.and_false, Bool.not_false, Bool.and_true, Bool.or_false]
  xid := fun _ => rfl
  again := fun _ => rfl

def immutable : Attrs := fun _ => ⟨VC_IATTR_IMMUTABLE ||| VC_IATTR_XID, 5⟩

/-- The options of a run on these files. -/
def tried : List Opt := [.R, .CMD_UNSET_IMMU, .CMD_BARRIER, .CMD_COW, .CMD_IMMUTABLE]
def triedArgs : Arguments := ⟨true, false, false, true, false, 0xd0000, 0x60000, false⟩

theorem links_sound {args : Arguments}
    (hfaults : links.any (ends args) = false ∧ allFaults args links = 0) :
    ∀ root ∈ links, Sound args root := (sound_all_iff links).2 hfaults

/-- The flag that is set and cleared is cleared, and the barrier is for the directory only. -/
theorem setattr_links :
    Flagged fileFlags tried (immutable (1, 7)) ((setattr able tried links immutable).2 (1, 7)) ∧
      (setattr able tried links immutable).2 (1, 9) = immutable (1, 9) ∧
      (setattr able tried links immutable).1 = 0 := by
  have hopts : options tried = some triedArgs := rfl
  obtain ⟨hset, hother, hcode⟩ :=
    setattr_exact able_replaces hopts (List.cons_ne_nil _ _ : links ≠ []) immutable
  refine ⟨hset (1, 7) (Pointwise.mem_keys.1 (by decide)) rfl,
    hother (1, 9) fun hreach => absurd (Pointwise.mem_keys.2 hreach) (by decide),
    (hcode (by unfold ErrorsFit; decide)).2 ⟨links_sound (by decide), fun _ _ => rfl⟩⟩

/-- The inodes that `chxid` gives the context: with `-U`, not those that are unified. -/
def Tagged (kn : Kernel) (args : Arguments) (ctx : Nat) (roots : List Root) (s : Attrs) (k : Key) :
    Prop :=
  ReachesKey args roots k ∧ (tagCall kn ctx k (s k)).1 = true ∧
    ¬ (args.no_unified = true ∧ isUnified kn k (s k) = true)

/-- **`chxid` gives the context to each inode that is reached and lets it be done, but with `-U` to
none that was unified, leaves the flags alone, and touches no inode that is not reached.** -/
theorem chxid_exact {kn : Kernel} (hkn : kn.Replaces) {ctx : Nat} {opts : List Opt}
    {args : Arguments} {roots : List Root} (hopts : options opts = some args) (hroots : roots ≠ [])
    (s : Attrs) :
    (∀ k, Tagged kn args ctx roots s k →
      (chxid kn (some ctx) opts roots s).2 k = ⟨(s k).flags, ctx⟩) ∧
    (∀ k, ¬ ReachesKey args roots k ∨ (args.no_unified = true ∧ isUnified kn k (s k) = true) →
      (chxid kn (some ctx) opts roots s).2 k = s k) ∧
    (ErrorsFit (fixupParams args) roots →
      ((chxid kn (some ctx) opts roots s).1 = 0 ↔
        (∀ root ∈ roots, Sound (fixupParams args) root) ∧
          ∀ k, ReachesKey args roots k → (tagCall kn ctx k (s k)).1 = true ∨
            args.no_unified = true ∧ isUnified kn k (s k) = true)) := by
  have hp := chxidFile_pointwise hkn (fixupParams args) ctx
  have hrun : chxid kn (some ctx) opts roots s =
      fstool (chxidFile kn (fixupParams args) ctx) (fixupParams args) roots s := by
    unfold chxid
    rw [hopts]
    cases roots with
    | nil => exact absurd rfl hroots
    | cons root roots => rfl
  have hskip : ∀ k, skipped kn (fixupParams args) k (s k) = true ↔
      args.no_unified = true ∧ isUnified kn k (s k) = true := fun k => Bool.and_eq_true_iff
  rw [hrun]
  refine ⟨fun k ⟨hreach, htag, hplain⟩ => ?_, fun k hk => ?_, fun hlen => ?_⟩
  · rw [← hskip, Bool.not_eq_true] at hplain
    rw [hp.fstool_reached hreach (by rw [hplain, htag]; rfl), chxidOf, hplain,
      if_neg Bool.false_ne_true, tagCall_eq hkn htag]
  · refine hp.fstool_other (hk.imp_right fun hunified => ?_)
    rw [chxidOf, (hskip k).2 hunified, if_pos rfl]
  · rw [hp.fstool_code s hlen]
    simp only [Bool.or_eq_true, hskip, or_comm]

/-- The file with two names is not unified, and a file that is stays as it is. -/
theorem chxid_links :
    (chxid able (some 49) [.R, .U] links immutable).2 (1, 7) =
        ⟨VC_IATTR_IMMUTABLE ||| VC_IATTR_XID, 49⟩ ∧
      (chxid able (some 49) [.R, .U] links fun _ => ⟨fileFlags, 5⟩).2 (1, 7) = ⟨fileFlags, 5⟩ ∧
      (chxid able (some 49) [.R, .U] links immutable).1 = 0 := by
  have hopts : options [.R, .U] =
      some ⟨true, false, false, true, false, 0, 0, true⟩ := rfl
  have hroots : links ≠ [] := List.cons_ne_nil _ _
  obtain ⟨htag, -, hcode⟩ := @chxid_exact able able_replaces 49 _ _ links hopts hroots immutable
  obtain ⟨-, hother, -⟩ :=
    @chxid_exact able able_replaces 49 _ _ links hopts hroots fun _ => ⟨fileFlags, 5⟩
  refine ⟨htag (1, 7) ⟨Pointwise.mem_keys.1 (by decide), rfl, fun h => absurd h.2 (by decide)⟩,
    hother (1, 7) (Or.inr ⟨rfl, by decide⟩),
    (hcode (by unfold ErrorsFit; decide)).2 ⟨links_sound (by decide), fun _ _ => Or.inl rfl⟩⟩

end FstoolAttr
