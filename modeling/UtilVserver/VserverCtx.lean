import UtilVserver.CompareVserver
import UtilVserver.CtxFiles

/-!
# The context of a vserver

* `CtxWorld` — the files, and what the kernel tells of its contexts.
* `getVserverByCtx` — the directory of the vserver a context belongs to.
* `getVserverCtx` — the context of a vserver, from its file `run` as long as that is confirmed,
  else from its file `context`.
* `Running`, `Contract` — the context is there and belongs to the vserver; what the caller may
  expect.

Principal results: `confirmed_iff`, `getVserverCtx_exact` (when the contract is kept) and
`compareVserverById_exact`.
-/

set_option autoImplicit false

namespace VserverCtx

open CString CtxFiles CompareVserver

inductive CtxType where
  | XID
  | NID
  | TAG
  deriving DecidableEq, Repr

/-- The outcomes of `vc_get_vx_info` that are told apart. -/
inductive VxInfo where
  | found
  | ESRCH
  | failed
  deriving DecidableEq, Repr

/-- The kernel's answers are right: it finds only contexts in use, and `ESRCH` is for the others. -/
structure CtxWorld extends World where
  DEFAULT_PKGSTATEDIR : Text
  DEFAULT_PKGSTATEREVDIR : Text
  file : Text → Option Text
  inUse : Xid → Bool
  vxInfo : Xid → VxInfo
  found_inUse : ∀ x, vxInfo x = .found → inUse x = true
  esrch_unused : ∀ x, vxInfo x = .ESRCH → inUse x = false
  /-- `vcFEATURE_MIGRATE`. -/
  migrate : Bool
  /-- `vc_get_vhi_name` with `vcVHI_CONTEXT`. -/
  vhiName : Xid → Option Text

/-- `vc_getVserverByCtx_Internal` for the vservers that are not legacy ones, without validation:
the name the kernel has, or else the link in the reverse directory. -/
def getVserverByCtx (w : CtxWorld) (ctx : Xid) : Option Text :=
  let link := slash w.DEFAULT_PKGSTATEREVDIR (Nat.toDigits 10 ctx.toNat)
  if w.migrate then (w.vhiName ctx).or (some link) else some link

def staticFile : CtxType → Text
  | .XID => "context".toList
  | .NID => "ncontext".toList
  | .TAG => "tag".toList

/-- The part behind `check_static`. -/
def staticCtx (w : CtxWorld) (dir : Text) (type : CtxType) : Xid :=
  let res := getCtxFromFile (w.file (slash dir (staticFile type)))
  if res = VC_NOCTX ∧ type ≠ .XID then getCtxFromFile (w.file (slash dir (staticFile .XID)))
  else res

/-- The id in the file `run`. -/
def runCtx (w : CtxWorld) (dir : Text) : Xid := getCtxFromFile (w.file (slash dir "run".toList))

/-- The check that a context belongs to a running vserver. -/
def confirmed (w : CtxWorld) (dir : Text) (ctx : Xid) : Bool :=
  match if w.vxInfo ctx ≠ .ESRCH then getVserverByCtx w ctx else none with
  | none => false
  | some curName => compareVserverById w.toWorld dir .RECENT_FULL curName .RECENT_FULL == 0

/-- `vc_getVserverCtx` for a vserver with a directory. -/
def recentCtx (w : CtxWorld) (dir : Text) (honorStatic : Bool) (type : CtxType) : Xid × Bool :=
  let run := runCtx w dir
  let r : Xid × Bool :=
    if run ≠ VC_NOCTX ∧ type = .XID then
      (if confirmed w dir run then run else VC_NOCTX, confirmed w dir run)
    else (run, false)
  (if r.1 = VC_NOCTX ∧ honorStatic then staticCtx w dir type else r.1, r.2)

/-- `vc_getVserverCtx`, with `*is_running`; a legacy file may be followed into nowhere. -/
def getVserverCtx (w : CtxWorld) (id : Text) (style : CfgStyle) (honorStatic : Bool)
    (type : CtxType) : Option Xid × Bool :=
  match resolveStyle w.toWorld id style with
  | .LEGACY =>
    (extractLegacyXID (w.file (slash w.DEFAULT_PKGSTATEDIR id ++ ".ctx".toList)), false)
  | .RECENT_SHORT =>
    let r := recentCtx w (slash w.CONFDIR id) honorStatic type
    (some r.1, r.2)
  | .RECENT_FULL =>
    let r := recentCtx w id honorStatic type
    (some r.1, r.2)
  | _ => (some VC_NOCTX, false)

/-! ## What the result means -/

/-- Two paths of one directory. -/
def SameDir (w : World) (p q : Text) : Prop :=
  p = q ∨ ∃ a, (w.stat p).map Prod.snd = some a ∧ (w.stat q).map Prod.snd = some a

/-- The context is in use, and its vserver is the one in `dir`. -/
def Running (w : CtxWorld) (dir : Text) (ctx : Xid) : Prop :=
  w.inUse ctx = true ∧ ∃ name, getVserverByCtx w ctx = some name ∧ SameDir w.toWorld dir name

/-- The static id, if the caller wants it. -/
def fallback (w : CtxWorld) (dir : Text) (honorStatic : Bool) (type : CtxType) : Xid :=
  if honorStatic then staticCtx w dir type else VC_NOCTX

/-- The id in the file `run` is used, and the vserver counts as running, only if it runs with that
id. -/
def Contract (w : CtxWorld) (dir : Text) (honorStatic : Bool) (type : CtxType)
    (r : Option Xid × Bool) : Prop :=
  (¬ (runCtx w dir ≠ VC_NOCTX ∧ Running w dir (runCtx w dir)) →
    r.1 = some (fallback w dir honorStatic type)) ∧
  (r.2 = true → runCtx w dir ≠ VC_NOCTX ∧ Running w dir (runCtx w dir))

/-- The directories count as the same: by the sums of device and inode, or by their names when
there is nothing to be found of one of them. -/
def Alike (w : World) (p q : Text) : Prop :=
  match (w.stat p).map Prod.snd, (w.stat q).map Prod.snd with
  | some a, some b => a.sum = b.sum
  | _, _ => p = q

theorem SameDir.alike {w : World} {p q : Text} (h : SameDir w p q) : Alike w p q := by
  unfold Alike
  rcases h with rfl | ⟨a, hp, hq⟩
  · cases (w.stat p).map Prod.snd <;> rfl
  · rw [hp, hq]

theorem compare_full (w : World) (p q : Text) :
    compareVserverById w p .RECENT_FULL q .RECENT_FULL = 0 ↔ Alike w p q := by
  have hres : ∀ id, resolveStyle w id .RECENT_FULL = .RECENT_FULL := fun _ => rfl
  simp only [compareVserverById, hres, completePath, Alike]
  cases w.stat p with
  | none => exact strcmp_zero p q
  | some a =>
    cases w.stat q with
    | none => exact strcmp_zero p q
    | some b => exact diffIdent_zero a.2 b.2

/-- **What confirms a context**: it is not known to be unused, and the directory it names counts as
the same. -/
theorem confirmed_iff (w : CtxWorld) (dir : Text) (ctx : Xid) :
    confirmed w dir ctx = true ↔
      w.vxInfo ctx ≠ .ESRCH ∧ ∃ name, getVserverByCtx w ctx = some name ∧
        Alike w.toWorld dir name := by
  unfold confirmed
  by_cases he : w.vxInfo ctx = .ESRCH
  · simp [he]
  · rw [if_pos he]
    cases getVserverByCtx w ctx with
    | none => simp
    | some name => simp [he, compare_full]

theorem Running.confirmed {w : CtxWorld} {dir : Text} {ctx : Xid} (h : Running w dir ctx) :
    confirmed w dir ctx = true := by
  obtain ⟨huse, name, hname, hsame⟩ := h
  refine (confirmed_iff w dir ctx).mpr ⟨fun he => ?_, name, hname, hsame.alike⟩
  rw [w.esrch_unused ctx he] at huse
  cases huse

theorem getVserverCtx_recent {w : CtxWorld} {id dir : Text} {style : CfgStyle}
    (hdir : completePath w.toWorld id (resolveStyle w.toWorld id style) = some dir)
    (honorStatic : Bool) (type : CtxType) :
    getVserverCtx w id style honorStatic type =
      (some (recentCtx w dir honorStatic type).1, (recentCtx w dir honorStatic type).2) := by
  unfold getVserverCtx
  cases hs : resolveStyle w.toWorld id style with
  | RECENT_SHORT =>
    rw [hs] at hdir
    cases hdir
    rfl
  | RECENT_FULL =>
    rw [hs] at hdir
    cases hdir
    rfl
  | NONE =>
    rw [hs] at hdir
    cases hdir
  | AUTO =>
    rw [hs] at hdir
    cases hdir
  | LEGACY =>
    rw [hs] at hdir
    cases hdir

/-- Without an id in `run`, or with one that is not confirmed, the static id is used. -/
theorem recentCtx_fallback {w : CtxWorld} {dir : Text} {type : CtxType} (honorStatic : Bool)
    (h : runCtx w dir = VC_NOCTX ∨ type = .XID ∧ confirmed w dir (runCtx w dir) = false) :
    recentCtx w dir honorStatic type = (fallback w dir honorStatic type, false) := by
  rcases h with hrun | ⟨rfl, hconf⟩
  · cases honorStatic <;> simp [recentCtx, fallback, hrun]
  · by_cases hrun : runCtx w dir = VC_NOCTX
    · cases honorStatic <;> simp [recentCtx, fallback, hrun]
    · cases honorStatic <;> simp [recentCtx, fallback, hrun, hconf]

/-- An id in `run` that is confirmed, or need not be. -/
theorem recentCtx_run {w : CtxWorld} {dir : Text} {type : CtxType} (honorStatic : Bool)
    (hrun : runCtx w dir ≠ VC_NOCTX)
    (h : type = .XID → confirmed w dir (runCtx w dir) = true) :
    recentCtx w dir honorStatic type = (runCtx w dir, decide (type = .XID)) := by
  cases type with
  | XID => simp [recentCtx, hrun, h rfl]
  | NID => simp [recentCtx, hrun]
  | TAG => simp [recentCtx, hrun]

/-- **The contract is kept exactly if** the file `run` holds no id, or the vserver runs with it, or
(for network contexts and tags) it is the static id anyway, or (for xids) it is known to be
unused or names a directory that does not count as the same. -/
theorem getVserverCtx_exact {w : CtxWorld} {id dir : Text} {style : CfgStyle}
    (hdir : completePath w.toWorld id (resolveStyle w.toWorld id style) = some dir)
    (honorStatic : Bool) (type : CtxType) :
    Contract w dir honorStatic type (getVserverCtx w id style honorStatic type) ↔
      runCtx w dir = VC_NOCTX ∨ Running w dir (runCtx w dir) ∨
      (type ≠ .XID ∧ runCtx w dir = fallback w dir honorStatic type) ∨
      (type = .XID ∧ (w.vxInfo (runCtx w dir) = .ESRCH ∨
        ∀ name, getVserverByCtx w (runCtx w dir) = some name → ¬ Alike w.toWorld dir name)) := by
  have hrefuted : (w.vxInfo (runCtx w dir) = .ESRCH ∨
      ∀ name, getVserverByCtx w (runCtx w dir) = some name → ¬ Alike w.toWorld dir name) ↔
      confirmed w dir (runCtx w dir) = false := by
    rw [← Bool.not_eq_true, confirmed_iff]
    simp only [ne_eq, not_and, not_exists]
    tauto
  rw [getVserverCtx_recent hdir, hrefuted]
  by_cases hfall : runCtx w dir = VC_NOCTX ∨
      type = .XID ∧ confirmed w dir (runCtx w dir) = false
  · rw [recentCtx_fallback honorStatic hfall]
    refine iff_of_true ⟨fun _ => rfl, fun h => by cases h⟩ ?_
    tauto
  · obtain ⟨hrun, hconf⟩ := not_or.mp hfall
    have hconf : type = .XID → confirmed w dir (runCtx w dir) = true := fun ht =>
      Bool.not_eq_false _ ▸ fun hc => hconf ⟨ht, hc⟩
    rw [recentCtx_run honorStatic hrun hconf]
    by_cases hruns : Running w dir (runCtx w dir)
    · exact iff_of_true ⟨fun hn => absurd ⟨hrun, hruns⟩ hn, fun _ => ⟨hrun, hruns⟩⟩
        (.inr (.inl hruns))
    · simp only [Contract, hrun, hruns, ne_eq, not_false_eq_true, and_false, forall_const,
        Option.some.injEq, decide_eq_true_eq, imp_false, false_or]
      constructor
      · rintro ⟨heq, ht⟩
        exact .inl ⟨ht, heq⟩
      · rintro (⟨ht, heq⟩ | ⟨ht, hc⟩)
        · exact ⟨heq, ht⟩
        · rw [hconf ht] at hc
          cases hc

/-- The vserver in `/v` has crashed and left its file `run`. -/
def staleWorld : CtxWorld where
  CONFDIR := "/c".toList
  DEFAULT_VSERVERDIR := "/d".toList
  stat p := if p = "/v".toList then some (.dir, ⟨1, 20⟩) else none
  lstat _ := none
  DEFAULT_PKGSTATEDIR := "/s".toList
  DEFAULT_PKGSTATEREVDIR := "/r".toList
  file p := if p = "/v/run".toList then some "100\n".toList else none
  inUse _ := false
  vxInfo _ := .ESRCH
  found_inUse _ h := by cases h
  esrch_unused _ _ := rfl
  migrate := true
  vhiName _ := none

theorem getVserverCtx_exact_stale :
    Contract staleWorld "/v".toList false .XID
      (getVserverCtx staleWorld "/v".toList .RECENT_FULL false .XID) :=
  (getVserverCtx_exact rfl false .XID).mpr (.inr (.inr (.inr ⟨rfl, .inl rfl⟩)))

/-- Asked for the network context the stale id is returned. -/
theorem getVserverCtx_stale_nid :
    getVserverCtx staleWorld "/v".toList .RECENT_FULL false .NID = (some 100, false) ∧
    ¬ Contract staleWorld "/v".toList false .NID
      (getVserverCtx staleWorld "/v".toList .RECENT_FULL false .NID) := by
  have hres : getVserverCtx staleWorld "/v".toList .RECENT_FULL false .NID = (some 100, false) := by
    decide +kernel
  refine ⟨hres, fun h => ?_⟩
  rw [hres] at h
  have hnoctx := h.1 fun hr => by cases hr.2.1
  exact absurd hnoctx (by decide)

/-! ## Directories that count as the same -/

theorem alike_of_dirs {w : World} {dir name : Text} {a c : Ident}
    (ha : (w.stat dir).map Prod.snd = some a) (hc : w.dirOf name .RECENT_FULL = some c) :
    Alike w dir name ↔ a.sum = c.sum := by
  have hname : (w.stat name).map Prod.snd = some c := hc
  simp only [Alike, ha, hname]

/-- **Two directories are told apart exactly if** their sums of device and inode differ in the low
32 bits.  The comparison is an equivalence all the same, and a context that names another
directory is confirmed in the same cases. -/
theorem compareVserverById_exact {w : CtxWorld} {lhs rhs : Text} {ls rs : CfgStyle} {a b : Ident}
    (hl : w.dirOf lhs ls = some a) (hr : w.dirOf rhs rs = some b) :
    ((compareVserverById w.toWorld lhs ls rhs rs = 0 ↔ a = b) ↔ (a = b ∨ a.sum ≠ b.sum)) ∧
    Equivalence (fun u v : w.Located =>
      compareVserverById w.toWorld u.1.1 u.1.2 v.1.1 v.1.2 = 0) ∧
    ∀ (dir name : Text) (c : Ident) (honorStatic : Bool),
      completePath w.toWorld lhs (resolveStyle w.toWorld lhs ls) = some dir →
      runCtx w dir ≠ VC_NOCTX → w.vxInfo (runCtx w dir) ≠ .ESRCH →
      getVserverByCtx w (runCtx w dir) = some name → w.dirOf name .RECENT_FULL = some c →
      (((getVserverCtx w lhs ls honorStatic .XID).2 = true → a = c) ↔
        (a = c ∨ a.sum ≠ c.sum)) := by
  have hsums : ∀ c : Ident, (a.sum = c.sum → a = c) ↔ (a = c ∨ a.sum ≠ c.sum) := fun c => by
    tauto
  refine ⟨?_, compare_equivalence w.toWorld, ?_⟩
  · rw [compare_alike hl hr, ← hsums b]
    exact ⟨Iff.mp, fun h => ⟨h, fun hab => by rw [hab]⟩⟩
  · intro dir name c honorStatic hdir hrun hinfo hname hc
    have hstat : (w.stat dir).map Prod.snd = some a := by
      rw [← hl, World.dirOf, hdir]
      rfl
    have hconf : confirmed w dir (runCtx w dir) = true ↔ a.sum = c.sum := by
      rw [confirmed_iff, ← alike_of_dirs hstat hc]
      simp [hinfo, hname]
    rw [getVserverCtx_recent hdir, ← hsums c, ← hconf]
    cases hv : confirmed w dir (runCtx w dir) with
    | true =>
      rw [recentCtx_run honorStatic hrun fun _ => hv]
      simp
    | false =>
      rw [recentCtx_fallback honorStatic (.inr ⟨rfl, hv⟩)]

/-- Two vservers, `/a` and `/b`, on neighbouring devices, and a third one; the file `run` of `/a` is
stale, and its id is now that of `/b`. -/
def neighbours : CtxWorld where
  CONFDIR := "/c".toList
  DEFAULT_VSERVERDIR := "/d".toList
  stat p := if p = "/a".toList then some (.dir, ⟨1, 20⟩)
    else if p = "/b".toList then some (.dir, ⟨2, 19⟩)
    else if p = "/e".toList then some (.dir, ⟨1, 19⟩) else none
  lstat _ := none
  DEFAULT_PKGSTATEDIR := "/s".toList
  DEFAULT_PKGSTATEREVDIR := "/r".toList
  file p := if p = "/a/run".toList then some "100\n".toList else none
  inUse x := x == 100
  vxInfo x := if x = 100 then .found else .ESRCH
  found_inUse x h := by
    split at h
    · rename_i hx
      rw [hx]
      rfl
    · cases h
  esrch_unused x h := by
    split at h
    · cases h
    · rename_i hx
      simpa using hx
  migrate := true
  vhiName x := if x = 100 then some "/b".toList else none

/-- The third vserver is told apart from `/a`; `/b` is not, and its context is confirmed. -/
theorem compareVserverById_exact_neighbours :
    compareVserverById neighbours.toWorld "/a".toList .RECENT_FULL "/e".toList .RECENT_FULL ≠ 0 ∧
      (getVserverCtx neighbours "/a".toList .RECENT_FULL false .XID).2 = true := by
  have ha : neighbours.dirOf "/a".toList .RECENT_FULL = some ⟨1, 20⟩ := by decide
  have he : neighbours.dirOf "/e".toList .RECENT_FULL = some ⟨1, 19⟩ := by decide
  obtain ⟨hcompare, -, hconfirm⟩ := compareVserverById_exact ha he
  have hwrong := hconfirm "/a".toList "/b".toList ⟨2, 19⟩ false (by decide) (by decide) (by decide)
    (by decide) (by decide)
  refine ⟨fun hzero => absurd ((hcompare.mpr (.inr (by decide))).mp hzero) (by decide), ?_⟩
  by_contra hnot
  exact absurd (hwrong.mp fun h => absurd h hnot) (by decide)

/-- The context of `/b` is taken for that of `/a`. -/
theorem compareVserverById_neighbours :
    compareVserverById neighbours.toWorld "/a".toList .RECENT_FULL "/b".toList .RECENT_FULL = 0 ∧
    neighbours.dirOf "/a".toList .RECENT_FULL = some ⟨1, 20⟩ ∧
    neighbours.dirOf "/b".toList .RECENT_FULL = some ⟨2, 19⟩ ∧
    getVserverCtx neighbours "/a".toList .RECENT_FULL false .XID = (some 100, true) := by
  decide +kernel

end VserverCtx
