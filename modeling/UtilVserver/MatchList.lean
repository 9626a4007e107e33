import UtilVserver.PathInfo

/-!
# Match lists

* `MatchList`, with `init` and `itemOfFile`.
* `compare` — `MatchList_compare`: the first item that matches decides, and without one the depth of
  the skipped directories.
-/

set_option autoImplicit false

namespace MatchLists

open CString

inductive MatchType where
  | stINCLUDE | stEXCLUDE | stSKIP
  deriving DecidableEq, Repr

/-- An item; without a function of its own it is compared with `strcmp`. -/
structure MatchItem where
  type : MatchType
  name : Text
  cmp : Option (Text → Text → Int)

structure MatchList where
  skipDepth : Nat
  root : Text
  data : List MatchItem

/-- `MatchList_init`, with the items that are filled in later. -/
def init (root : Text) (data : List MatchItem) : MatchList := ⟨0, root, data⟩

/-- `MatchList_appendFiles` for one line; `fnmatch` is the comparison of `fnmatchWrap`. -/
def itemOfFile (fnmatch : Text → Text → Int) (autoType : Bool) (file : Text) : MatchItem :=
  if autoType then
    match file with
    | '+' :: file => ⟨.stINCLUDE, file, some fnmatch⟩
    | '~' :: file => ⟨.stSKIP, file, some fnmatch⟩
    | '-' :: file => ⟨.stEXCLUDE, file, some fnmatch⟩
    | file => ⟨.stEXCLUDE, file, some fnmatch⟩
  else ⟨.stEXCLUDE, file, none⟩

def MatchItem.hits (item : MatchItem) (path : Text) : Bool :=
  match item.cmp with
  | none => item.name = path
  | some cmp => cmp item.name path = 0

/-- The type of the first item that matches. -/
def firstMatch (data : List MatchItem) (path : Text) : Option MatchType :=
  (data.find? (MatchItem.hits · path)).map MatchItem.type

/-- `MatchList_compare`. -/
def compare (list : MatchList) (path : Text) : MatchType :=
  (firstMatch list.data path).getD (if 0 < list.skipDepth then .stEXCLUDE else .stINCLUDE)

/-- The verdict of the list itself, with nothing skipped. -/
def verdict (data : List MatchItem) (path : Text) : MatchType :=
  (firstMatch data path).getD .stINCLUDE

theorem compare_of_not_skipping {list : MatchList} (h : list.skipDepth = 0) (path : Text) :
    compare list path = verdict list.data path := by
  simp [compare, verdict, h]

end MatchLists
