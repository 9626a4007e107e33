import Mathlib.Data.List.DropRight
import UtilVserver.CompareVserver
import UtilVserver.Lib.Decimal

/-!
# The name of a vserver (`vc_getVserverName` of `lib/getvservername.c`)

The name is in the file `name` of the configuration directory; without one it is the base name of
the directory.

* `NameFile`, `Files` — what the calls find.
* `getRecentName`, `vc_getVserverName` — the code.
* `expectedName` — the name that is documented.

Principal result: `vc_getVserverName_exact`.
-/

set_option autoImplicit false

namespace VserverName

open CString CompareVserver

def VC_LIMIT_VSERVER_NAME_LEN : Nat := 1024

/-- A file that can be opened: its content, and which calls work. -/
structure NameFile where
  data : Text
  lseek : Bool
  read : Bool

/-- What `open` and `realpath` find at a path. -/
structure Files extends World where
  «open» : Text → Option NameFile
  realpath : Text → Option Text

/-- A result, or a call of `strdup` with a null pointer. -/
inductive Outcome where
  | returned (name : Option Text)
  | copiesNull
  deriving DecidableEq

/-- `strdup(res)`, where `res` points at the bytes of a buffer or nowhere. -/
def strdup : Option Text → Outcome
  | none => .copiesNull
  | some buf => .returned (some (cstr buf))

/-- `basename` of `libgen.h`. -/
def basename (path : Text) : Text :=
  if path = [] then ".".toList
  else
    let p := path.rdropWhile (· == '/')
    if p = [] then "/".toList else p.rtakeWhile (· != '/')

/-- `while (len>0 && buf[len-1]=='\n') --len`. -/
def dropNewlines (buf : Text) : Text := buf.rdropWhile (· == '\n')

/-- The end of the function, where there is no `res` yet. -/
def dirName (fs : Files) (start : Text) : Outcome :=
  let res := match fs.realpath start with | none => start | some buf => buf
  .returned (some (basename res))

def getRecentName (fs : Files) (start : Text) : Outcome :=
  match fs.open (start ++ "/name".toList) with
  | none => dirName fs start
  | some file =>
    if file.lseek ∧ file.data.length < VC_LIMIT_VSERVER_NAME_LEN then
      if file.read then
        let buf := dropNewlines file.data
        strdup (if 0 < buf.length then some buf else none)
      else strdup none
    else dirName fs start

def vc_getVserverName (fs : Files) (id : Text) (style : CfgStyle) : Outcome :=
  match resolveStyle fs.toWorld id style with
  | .LEGACY => .returned (some id)
  | .RECENT_SHORT => getRecentName fs (slash fs.CONFDIR id)
  | .RECENT_FULL => getRecentName fs id
  | _ => .returned none

/-! ## The documented name -/

/-- The text of the file, if it can be read. -/
def nameText (fs : Files) (dir : Text) : Option Text :=
  (fs.open (dir ++ "/name".toList)).bind fun file =>
    if file.lseek ∧ file.read then some (dropNewlines file.data) else none

/-- The base name of the directory, behind all links when that can be told. -/
def baseName (fs : Files) (dir : Text) : Text := basename ((fs.realpath dir).getD dir)

def expectedName (fs : Files) (dir : Text) : Text :=
  match nameText fs dir with
  | none => baseName fs dir
  | some t => if t ≠ [] ∧ t.length < VC_LIMIT_VSERVER_NAME_LEN then t else baseName fs dir

/-- There is no file, or it can not be looked at; or the whole file is too long for a name, and so is
its text, or that is empty, or it is the base name; or the file has a text without a NUL. -/
def NameRight (fs : Files) (dir : Text) : Prop :=
  match fs.open (dir ++ "/name".toList) with
  | none => True
  | some file =>
    let t := dropNewlines file.data
    if file.lseek then
      if file.data.length < VC_LIMIT_VSERVER_NAME_LEN then file.read = true ∧ t ≠ [] ∧ '\x00' ∉ t
      else file.read = false ∨ t = [] ∨ VC_LIMIT_VSERVER_NAME_LEN ≤ t.length ∨ t = baseName fs dir
    else True

theorem getRecentName_dir {fs : Files} {id dir : Text} {style : CfgStyle}
    (h : completePath fs.toWorld id (resolveStyle fs.toWorld id style) = some dir) :
    vc_getVserverName fs id style = getRecentName fs dir := by
  unfold vc_getVserverName
  generalize resolveStyle fs.toWorld id style = resolved at h
  cases resolved <;> cases h <;> rfl

theorem dirName_eq (fs : Files) (start : Text) :
    dirName fs start = .returned (some (baseName fs start)) := by
  unfold dirName baseName
  cases fs.realpath start <;> rfl

theorem returned_inj {s t : Text} : Outcome.returned (some s) = .returned (some t) ↔ s = t := by
  simp

theorem cstr_eq_iff {s : Text} : cstr s = s ↔ '\x00' ∉ s :=
  ⟨fun h => h ▸ cstr_noNul s, cstr_eq_self⟩

/-- **For which directories the name is the documented one.** -/
theorem vc_getVserverName_exact (fs : Files) (id dir : Text) (style : CfgStyle)
    (hdir : completePath fs.toWorld id (resolveStyle fs.toWorld id style) = some dir) :
    vc_getVserverName fs id style = .returned (some (expectedName fs dir)) ↔ NameRight fs dir := by
  rw [getRecentName_dir hdir, getRecentName, expectedName, nameText, NameRight]
  cases hfile : fs.open (dir ++ "/name".toList) with
  | none => exact iff_of_true (dirName_eq fs dir) trivial
  | some file =>
    obtain ⟨data, lseek, read⟩ := file
    have hshorter : (dropNewlines data).length ≤ data.length :=
      (List.rdropWhile_prefix (· == '\n') data).length_le
    simp only [Option.bind_some]
    cases lseek with
    | false =>
      simp only [Bool.false_eq_true, false_and, if_false, iff_true]
      exact dirName_eq fs dir
    | true =>
      by_cases hlen : data.length < VC_LIMIT_VSERVER_NAME_LEN
      · simp only [true_and, if_true, hlen]
        cases read with
        | false => exact iff_of_false (fun h => by cases h) (fun h => by cases h.1)
        | true =>
          by_cases hempty : dropNewlines data = []
          · -- newlines only
            rw [hempty]
            exact iff_of_false (fun h => by cases h) (fun h => h.2.1 rfl)
          · have hpos : 0 < (dropNewlines data).length := List.length_pos_iff.2 hempty
            have hshort : (dropNewlines data).length < VC_LIMIT_VSERVER_NAME_LEN :=
              Nat.lt_of_le_of_lt hshorter hlen
            simp only [if_true, hpos, hempty, hshort, ne_eq, not_false_eq_true, and_self, true_and,
              strdup, returned_inj, cstr_eq_iff]
      · simp only [true_and, if_true, hlen, if_false, dirName_eq]
        cases read with
        | false => exact iff_of_true rfl (Or.inl rfl)
        | true =>
          simp only [if_true, returned_inj, Bool.true_eq_false, false_or]
          by_cases hempty : dropNewlines data = []
          · rw [if_neg fun h => h.1 hempty]
            exact iff_of_true rfl (Or.inl hempty)
          · by_cases hshort : (dropNewlines data).length < VC_LIMIT_VSERVER_NAME_LEN
            · rw [if_pos ⟨hempty, hshort⟩]
              exact ⟨fun h => Or.inr (Or.inr h.symm),
                fun h => ((h.resolve_left hempty).resolve_left (Nat.not_le.2 hshort)).symm⟩
            · rw [if_neg fun h => hshort h.2]
              exact iff_of_true rfl (Or.inr (Or.inl (Nat.not_lt.1 hshort)))

/-- A directory `/v` with this file `name`. -/
def filesWith (data : Text) : Files where
  CONFDIR := "/etc/vservers".toList
  DEFAULT_VSERVERDIR := "/vservers".toList
  stat _ := none
  lstat _ := none
  «open» path := if path = "/v/name".toList then some ⟨data, true, true⟩ else none
  realpath path := some path

theorem vc_getVserverName_exact_newline :
    vc_getVserverName (filesWith "web\n".toList) "/v".toList .RECENT_FULL =
      .returned (some (expectedName (filesWith "web\n".toList) "/v".toList)) ↔
    NameRight (filesWith "web\n".toList) "/v".toList :=
  vc_getVserverName_exact _ _ _ _ rfl

/-- An empty file: the name should be that of the directory. -/
theorem vc_getVserverName_wrong :
    vc_getVserverName (filesWith []) "/v".toList .RECENT_FULL = .copiesNull ∧
      expectedName (filesWith []) "/v".toList = "v".toList := by
  decide +kernel

end VserverName
