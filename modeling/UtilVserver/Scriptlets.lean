import UtilVserver.Lib.Decimal
import UtilVserver.PathInfo

/-!
# Scriptlets, in the native start and in the shell

Both `execScriptlets` look at the file `<flavor>` and at the entries of `<flavor>.d`, in the
`scripts` directory of the vserver and then in that of the defaults.

* `World` — files, directories and what their execution gives.
* `Native` — `visitFile`, `visitDirentry`, `visitPath` and `execScriptlets` of `vserver-start`.
* `Shell` — `isRegularFile` and `execScriptlets` of `vserver.functions`.
* `expected`, `Agree` — the scriptlets that are to run, and that both programs run them.
* `AllRunnable` — the candidates can be executed.
* `OnlyFile` — the condition on a directory: the file `<flavor>` is its only scriptlet.
-/

set_option autoImplicit false

namespace Scriptlets

open CString PathInfo

/-! ## Files -/

structure Stat where
  /-- `S_ISREG`, `test -f`. -/
  regular : Bool
  /-- `st_mode & 0111`. -/
  mode0111 : Bool
  /-- `test -r`. -/
  readable : Bool
  /-- `test -x`. -/
  executable : Bool
  deriving DecidableEq

/-- What is executed: the file with this path, or that whose name is at a stray address. -/
inductive Program where
  | file (path : Text)
  | stray (address : Nat)
  deriving DecidableEq

/-- `struct Command`; `params_style_` is the number of the constant, `filename` an address. -/
structure Command where
  filename : Nat
  rc : Int
  params_style_ : Nat

/-- The file system, and the execution of its files. -/
structure World where
  stat : Text → Option Stat
  /-- The names in a directory; the path ends with a slash. -/
  readdir : Text → Option (List FileName)
  nodup : ∀ dir names, readdir dir = some names → names.Nodup
  directory : ∀ dir names, readdir dir = some names → ∃ st, stat dir = some st ∧ st.regular = false
  listed : ∀ dir (name : FileName) st, stat (dir ++ '/' :: name.text) = some st →
    ∃ names, readdir (dir ++ ['/']) = some names ∧ name ∈ names
  /-- Whether the program exits with 0, when it can be executed. -/
  exec : Program → Option Bool
  /-- The `cmd` that `visitFile` finds on its stack, as it does not call `Command_init`. -/
  stack : Text → Command
  /-- Whether the file sets `DONT_SKIP_DEFAULTS` when it is sourced. -/
  source : Text → Bool
  /-- The order of names in the locale. -/
  collate : Text → Text → Bool

/-- A flavor of scriptlets, such as `pre-start`. -/
structure Flavor where
  name : FileName
  noNul : '\x00' ∉ name.text

variable (w : World)

/-! ## The native start -/

namespace Native

/-- What was run, and the result; there is none after `exit(1)` or `abort()`. -/
structure Visit where
  ran : List Program
  result : Option Bool

/-- `did_something = next || did_something`. -/
def Visit.andThen (v next : Visit) : Visit :=
  match v.result with
  | none => v
  | some did => ⟨v.ran ++ next.ran, next.result.map (· || did)⟩

def parNONE : Nat := 0

def parDATA : Nat := 2

/-- `Command_setParams`; other styles make it `abort()`. -/
def setParams (cmd : Command) : Option Command :=
  if cmd.params_style_ = parNONE ∨ cmd.params_style_ = parDATA then
    some { cmd with params_style_ := parDATA }
  else none

/-- `cmd->filename ? cmd->filename : argv[0]`. -/
def programOf (fname : Text) (cmd : Command) : Program :=
  if cmd.filename = 0 then .file fname else .stray cmd.filename

/-- `visitFile`; the name is what is in front of the first NUL. -/
def visitFile (buf : Text) : Visit :=
  let fname := cstr buf
  match w.stat fname with
  | none => ⟨[], some false⟩
  | some st =>
    if st.regular = false then ⟨[], some false⟩
    -- "!!!LEGACY ALERT!!!"
    else if st.mode0111 = false then ⟨[], some false⟩
    else
      match setParams (w.stack fname) with
      | none => ⟨[], none⟩
      | some cmd =>
        match w.exec (programOf fname cmd) with
        | none => ⟨[], none⟩
        | some ok =>
          -- `Command_wait` waits only when `rc` is -1
          let rc := if cmd.rc = -1 then (if ok then 0 else 1) else cmd.rc
          ⟨[programOf fname cmd], if rc = 0 then some true else none⟩

/-- `HAS_SUFFIX(STR, LEN, SUF)`; `sizeof` counts the NUL of the literal. -/
def hasSuffix (str suf : Text) : Bool :=
  suf.length + 1 < str.length && str.drop (str.length - (suf.length + 1)) == suf

def suffixes : List Text :=
  [".rpmnew".toList, ".rpmsave".toList, ".rpmorig".toList, ".cfsaved".toList]

def visitDirentry (basepath : Text) (d_name : FileName) : Visit :=
  if isDotfile d_name.text || suffixes.any (hasSuffix d_name.text) then ⟨[], some false⟩
  else visitFile w (basepath ++ d_name.text ++ ['\x00'])

/-- `visitPath`. -/
def visitPath (basepath : Text) (style : Flavor) : Visit :=
  let tmp := basepath ++ style.name.text
  let first := visitFile w (tmp ++ ['\x00'])
  -- the length of `path` counts the NUL that `sizeof(".d/")` copies
  let path := tmp ++ ".d/".toList ++ ['\x00']
  match w.readdir (cstr path) with
  | none => first
  | some names => names.foldl (fun v name => v.andThen (visitDirentry w path name)) first

/-- `execScriptlets`; `CONFDIR` is fixed when the program is built. -/
def execScriptlets (CONFDIR cfgdir : CStr) (style : Flavor) : Visit :=
  let first := visitPath w (cfgdir.text ++ "/scripts/".toList) style
  match first.result with
  | some false => first.andThen (visitPath w (CONFDIR.text ++ "/.defaults/scripts/".toList) style)
  | _ => first

end Native

/-! ## The shell functions -/

namespace Shell

/-- The patterns of `isRegularFile`, for the whole path. -/
def backup (path : Text) : Bool :=
  ".rpmsave".toList.isSuffixOf path || ".rpmnew".toList.isSuffixOf path ||
    ".rpmorig".toList.isSuffixOf path || (strstr path ".cfsaved".toList).isSome ||
    (strstr path ".~".toList).any (fun rest => "~".toList.isSuffixOf (rest.drop 2)) ||
    "~".toList.isSuffixOf path

/-- `isRegularFile`. -/
def isRegularFile (path : Text) : Bool := (w.stat path).any Stat.regular && !backup path

/-- `"$dir"/*`: without a match, the pattern itself. -/
def glob (dir : Text) : List Text :=
  let names := ((w.readdir (dir ++ ['/'])).getD []).filter fun name =>
    name.text.head? != some '.'
  if names = [] then [dir ++ "/*".toList]
  else (names.map fun name => dir ++ '/' :: name.text).mergeSort w.collate

/-- The state of the inner loop. -/
structure Loop where
  ran : List Text
  already_handled : Bool
  DONT_SKIP_DEFAULTS : Bool
  /-- A scriptlet failed under `set -e`. -/
  failed : Bool

/-- The body of the inner loop. -/
def visit (s : Loop) (i : Text) : Loop :=
  if s.failed then s
  else if isRegularFile w i = false then s
  else if (w.stat i).any Stat.readable = false then s
  else if (w.stat i).any Stat.executable then
    { s with ran := s.ran ++ [i], already_handled := true, failed := w.exec (.file i) != some true }
  else
    { s with ran := s.ran ++ [i], already_handled := true,
             DONT_SKIP_DEFAULTS := s.DONT_SKIP_DEFAULTS || w.source i }

def candidates (base : Text) (flavor : Flavor) : List Text :=
  (base ++ '/' :: flavor.name.text) :: glob w (base ++ '/' :: flavor.name.text ++ ".d".toList)

def visitBase (base : Text) (flavor : Flavor) : Loop :=
  (candidates w base flavor).foldl (visit w) ⟨[], false, false, false⟩

/-- `execScriptlets`: the files that were run. -/
def execScriptlets (confdir vdir : CStr) (flavor : Flavor) : List Text :=
  let own := visitBase w (vdir.text ++ "/scripts".toList) flavor
  if own.failed ∨ (own.already_handled ∧ own.DONT_SKIP_DEFAULTS = false) then own.ran
  else own.ran ++ (visitBase w (confdir.text ++ "/.defaults/scripts".toList) flavor).ran

end Shell

/-! ## What is to run -/

/-- A dot file, or a leftover of a package manager. -/
def skipped (name : Text) : Bool :=
  name.head? == some '.' || Native.suffixes.any fun suf => suf.isSuffixOf name

def filePath (base : Text) (flavor : Flavor) : Text := base ++ '/' :: flavor.name.text

def dirPath (base : Text) (flavor : Flavor) : Text := filePath base flavor ++ ".d".toList

/-- The names in `<flavor>.d`. -/
def names (base : Text) (flavor : Flavor) : List FileName :=
  (w.readdir (dirPath base flavor ++ ['/'])).getD []

/-- The entries of `<flavor>.d` that are to run. -/
def entries (base : Text) (flavor : Flavor) : List FileName :=
  (names w base flavor).filter fun name => !skipped name.text

def file (base : Text) (flavor : Flavor) : List Text :=
  if (w.stat (filePath base flavor)).isSome then [filePath base flavor] else []

def scriptletsIn (base : Text) (flavor : Flavor) : List Text :=
  file w base flavor ++
    (entries w base flavor).map fun name => dirPath base flavor ++ '/' :: name.text

def ownBase (cfgdir : CStr) : Text := cfgdir.text ++ "/scripts".toList

def defaultBase (confdir : CStr) : Text := confdir.text ++ "/.defaults/scripts".toList

/-- The scriptlets of the vserver, or else those of the defaults. -/
def expected (confdir cfgdir : CStr) (flavor : Flavor) : List Text :=
  if scriptletsIn w (ownBase cfgdir) flavor = [] then scriptletsIn w (defaultBase confdir) flavor
  else scriptletsIn w (ownBase cfgdir) flavor

/-- An executable readable regular file that exits with 0. -/
def Runnable (path : Text) : Prop :=
  (∃ st, w.stat path = some st ∧ st.regular = true ∧ st.mode0111 = true ∧ st.readable = true ∧
    st.executable = true) ∧ w.exec (.file path) = some true

/-- All candidates below `base` can be run. -/
def AllRunnable (base : Text) (flavor : Flavor) : Prop :=
  (∀ path ∈ scriptletsIn w base flavor, Runnable w path)

/-- Both programs run what is to run, each file once. -/
def Agree (confdir cfgdir : CStr) (flavor : Flavor) : Prop :=
  (Native.execScriptlets w confdir cfgdir flavor).ran.Perm
      ((expected w confdir cfgdir flavor).map Program.file) ∧
    (Shell.execScriptlets w confdir cfgdir flavor).Perm (expected w confdir cfgdir flavor) ∧
    (expected w confdir cfgdir flavor).Nodup

/-- The stack holds a command that `Command_setParams` accepts, and that has no `filename`. -/
def CommandOk (path : Text) : Prop :=
  (Native.setParams (w.stack path)).isSome = true ∧ (w.stack path).filename = 0

/-- The condition on one directory: `<flavor>.d` has no scriptlets, the shell does not take the
path of `<flavor>` for a backup, and the native program finds a command for it. -/
def OnlyFile (base : Text) (flavor : Flavor) : Prop :=
  entries w base flavor = [] ∧
    ((w.stat (filePath base flavor)).isSome = true →
      Shell.backup (filePath base flavor) = false ∧ CommandOk w (filePath base flavor))

end Scriptlets
