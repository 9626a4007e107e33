import Mathlib.Data.BitVec
import Mathlib.Tactic.Abel
import UtilVserver.Lib.BinarySearch
import UtilVserver.Lib.CString

/-!
# Identity of vservers

* `World` — what the configuration directories look like.
* `getVserverCfgStyle` — where the configuration of an id is.
* `completePath`, `compareVserverById` — two ids name the same vserver when their directories are
  the same; the difference of devices and inodes is added up in an `int`.
* `World.dirOf` — the directory an id resolves to.

Principal results: `compareVserverById_dirs` (the comparison of two directories), `compare_alike`
and `compare_equivalence`.
-/

set_option autoImplicit false

namespace CompareVserver

open CString

inductive CfgStyle where
  | NONE
  | AUTO
  | LEGACY
  | RECENT_SHORT
  | RECENT_FULL
  deriving DecidableEq, Repr

def CfgStyle.toInt : CfgStyle → Int
  | .NONE => 0
  | .AUTO => 1
  | .LEGACY => 2
  | .RECENT_SHORT => 3
  | .RECENT_FULL => 4

inductive Kind where
  | dir
  | reg
  | lnk
  | other
  deriving DecidableEq, Repr

/-- `st_dev` and `st_ino`. -/
structure Ident where
  dev : BitVec 64
  ino : BitVec 64
  deriving DecidableEq, Repr

/-- The paths of the installation, and what `stat` and `lstat` tell of each path. -/
structure World where
  CONFDIR : Text
  DEFAULT_VSERVERDIR : Text
  stat : Text → Option (Kind × Ident)
  lstat : Text → Option (Kind × Ident)

namespace World

def isDirectory (w : World) (path : Text) : Bool := (w.stat path).any (·.1 == .dir)
def isFile (w : World) (path : Text) : Bool := (w.stat path).any (·.1 == .reg)
def isLink (w : World) (path : Text) : Bool := (w.lstat path).any (·.1 == .lnk)

/-- `access(path, F_OK)`. -/
def access (w : World) (path : Text) : Bool := (w.stat path).isSome

end World

def isRelPath (p : Text) : Bool :=
  charAt p 0 == '.' && (charAt p 1 == '/' || (charAt p 1 == '.' && charAt p 2 == '/'))

def isAbsPath (p : Text) : Bool := charAt p 0 == '/'

def slash (dir name : Text) : Text := dir ++ '/' :: name

/-- `vc_getVserverCfgStyle`. -/
def getVserverCfgStyle (w : World) (id : Text) : CfgStyle :=
  let vdir := slash id "vdir".toList
  let conf := slash w.CONFDIR id
  -- A vserver with the file `legacy` beside its `vdir` is one, wherever it is configured.
  let recent (style : CfgStyle) (dir : Text) : CfgStyle :=
    if w.access (slash dir "legacy".toList) then .LEGACY else style
  if isAbsPath vdir || isRelPath vdir then
    if w.isDirectory vdir || w.isLink vdir then recent .RECENT_FULL id else .NONE
  else if w.isDirectory (slash conf "vdir".toList) then recent .RECENT_SHORT conf
  else if w.isDirectory (slash w.DEFAULT_VSERVERDIR id) && w.isFile (conf ++ ".conf".toList) then
    .LEGACY
  else .NONE

/-- The style a function works with when it is given `style`. -/
def resolveStyle (w : World) (id : Text) (style : CfgStyle) : CfgStyle :=
  if style = .NONE ∨ style = .AUTO then getVserverCfgStyle w id else style

def completePath (w : World) (id : Text) (style : CfgStyle) : Option Text :=
  match style with
  | .RECENT_FULL => some id
  | .RECENT_SHORT => some (slash w.CONFDIR id)
  | _ => none

/-- `strcmp`, of which the callers look at the sign only. -/
def strcmp (lhs rhs : Text) : Int := if lhs = rhs then 0 else if lhs < rhs then -1 else 1

/-- `(st_lhs.st_dev - st_rhs.st_dev) + (st_lhs.st_ino - st_rhs.st_ino)` as an `int`. -/
def diffIdent (lhs rhs : Ident) : Int :=
  (((lhs.dev - rhs.dev) + (lhs.ino - rhs.ino)).setWidth 32).toInt

/-- `vc_compareVserverById`. -/
def compareVserverById (w : World) (lhs : Text) (lhsStyle : CfgStyle) (rhs : Text)
    (rhsStyle : CfgStyle) : Int :=
  let lhsStyle := resolveStyle w lhs lhsStyle
  let rhsStyle := resolveStyle w rhs rhsStyle
  if lhsStyle = .LEGACY ∨ rhsStyle = .LEGACY then
    if lhsStyle ≠ rhsStyle then lhsStyle.toInt - rhsStyle.toInt else strcmp lhs rhs
  else
    -- Without a path on the left the right one is not looked at.
    match completePath w lhs lhsStyle with
    | none => strcmp lhs rhs
    | some pathLhs =>
      match completePath w rhs rhsStyle with
      | none => 1
      | some pathRhs =>
        match w.stat pathLhs, w.stat pathRhs with
        | some stLhs, some stRhs => diffIdent stLhs.2 stRhs.2
        | _, _ => strcmp lhs rhs

/-! ## The comparison -/

/-- What is left of device and inode after they are added up. -/
def Ident.sum (i : Ident) : BitVec 32 := (i.dev + i.ino).setWidth 32

theorem diffIdent_zero (a b : Ident) : diffIdent a b = 0 ↔ a.sum = b.sum := by
  have hsum : (a.dev - b.dev) + (a.ino - b.ino) = (a.dev + a.ino) - (b.dev + b.ino) := by abel
  rw [diffIdent, hsum]
  exact BinarySearch.narrowDiff_zero (by omega) (a.dev + a.ino) (b.dev + b.ino)

theorem strcmp_zero (a b : Text) : strcmp a b = 0 ↔ a = b := by
  unfold strcmp
  split_ifs with h1 h2
  · exact iff_of_true rfl h1
  · exact iff_of_false (by decide) h1
  · exact iff_of_false (by decide) h1

/-- The directory of a vserver that is not a legacy one, if it can be stat'ed. -/
def World.dirOf (w : World) (id : Text) (style : CfgStyle) : Option Ident :=
  ((completePath w id (resolveStyle w id style)).bind w.stat).map Prod.snd

theorem dirOf_some {w : World} {id : Text} {style : CfgStyle} {a : Ident}
    (h : w.dirOf id style = some a) : resolveStyle w id style ≠ .LEGACY ∧
      ∃ path k, completePath w id (resolveStyle w id style) = some path ∧
        w.stat path = some (k, a) := by
  obtain ⟨⟨k, b⟩, hbind, rfl⟩ := Option.map_eq_some_iff.mp h
  obtain ⟨path, hpath, hstat⟩ := Option.bind_eq_some_iff.mp hbind
  refine ⟨fun hl => ?_, path, k, hpath, hstat⟩
  rw [hl] at hpath
  cases hpath

/-- **The comparison of two vservers with directories.** -/
theorem compareVserverById_dirs {w : World} {lhs rhs : Text} {ls rs : CfgStyle} {a b : Ident}
    (hl : w.dirOf lhs ls = some a) (hr : w.dirOf rhs rs = some b) :
    compareVserverById w lhs ls rhs rs = diffIdent a b := by
  obtain ⟨hls, p, k, hp, hps⟩ := dirOf_some hl
  obtain ⟨hrs, q, m, hq, hqs⟩ := dirOf_some hr
  simp only [compareVserverById, hls, hrs, or_self, if_false, hp, hq, hps, hqs]

/-- Two vservers whose directories count as the same. -/
theorem compare_alike {w : World} {lhs rhs : Text} {ls rs : CfgStyle} {a b : Ident}
    (hl : w.dirOf lhs ls = some a) (hr : w.dirOf rhs rs = some b) :
    compareVserverById w lhs ls rhs rs = 0 ↔ a.sum = b.sum := by
  rw [compareVserverById_dirs hl hr, diffIdent_zero]

/-- The vservers with directories, as ids with their styles. -/
def World.Located (w : World) : Type := { v : Text × CfgStyle // (w.dirOf v.1 v.2).isSome }

/-- **"Returns 0" is an equivalence on the vservers with directories.** -/
theorem compare_equivalence (w : World) :
    Equivalence fun u v : w.Located =>
      compareVserverById w u.1.1 u.1.2 v.1.1 v.1.2 = 0 := by
  have hsum : ∀ u v : w.Located, compareVserverById w u.1.1 u.1.2 v.1.1 v.1.2 = 0 ↔
      ((w.dirOf u.1.1 u.1.2).get u.2).sum = ((w.dirOf v.1.1 v.1.2).get v.2).sum :=
    fun u v => compare_alike (Option.some_get u.2).symm (Option.some_get v.2).symm
  refine ⟨fun u => (hsum u u).mpr rfl, fun {u v} h => ?_, fun {u v x} h1 h2 => ?_⟩
  · exact (hsum v u).mpr ((hsum u v).mp h).symm
  · exact (hsum u x).mpr (((hsum u v).mp h1).trans ((hsum v x).mp h2))

end CompareVserver
