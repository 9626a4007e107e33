import Mathlib.Data.List.Nodup
import UtilVserver.MatchList
import UtilVserver.VisitDir

/-!
# `vcopy`

The walk of `visitDir` over a source, with the callback that copies, links or skips each entry.

* `checkDirEntry`, `doit`, `entry`, `vcopy` — the program; the calls of `Unify_unify` and
  `Unify_copy` are recorded, and any of them may fail.
* `Wanted` — the calls that the match lists ask for.

Principal results: `checkDirEntry_decided`, `visitDir_adds` (the calls of a walk) and `vcopy_copies`.
-/

set_option autoImplicit false

namespace Vcopy

open CString PathInfo MatchLists VisitDir

inductive FileType where
  | reg | dir | lnk | other
  deriving DecidableEq

structure Stat where
  ident : Ident
  type : FileType

def Stat.isDir (st : Stat) : Bool := st.type = .dir

inductive Operation where
  | opUNIFY | opCOPY | opDIR | opSKIP
  deriving DecidableEq

/-- The call for an operation, with the path in the destination. -/
structure Call where
  op : Operation
  dst : Text
  deriving DecidableEq

/-- A directory of the source: what `stat` says about it, and its entries. -/
structure Here where
  ident : Ident
  tree : Dir Stat

/-- Which calls work. -/
structure Calls where
  «open» : Here → Bool
  chdir : Here → Bool
  stat : Here → Bool
  readdir : Here → Bool
  fchdir : Here → Bool
  lstat : Text → Bool
  operation : Call → Bool

structure Calls.Work (c : Calls) : Prop where
  «open» : ∀ h, c.open h = true
  chdir : ∀ h, c.chdir h = true
  stat : ∀ h, c.stat h = true
  readdir : ∀ h, c.readdir h = true
  fchdir : ∀ h, c.fchdir h = true
  lstat : ∀ path, c.lstat path = true
  operation : ∀ call, c.operation call = true

/-- `global_info` and `global_args`. -/
structure Setup where
  dstList : MatchList
  srcList : MatchList
  doDryRun : Bool
  verbosity : Nat
  calls : Calls

/-- What the program has written and called. -/
structure Trace where
  out : List Text
  calls : List Call
  setTime : List Text

/-- The kernel for a tree that does not change. -/
def kernel (c : Calls) : Kernel Trace Here where
  ident := Here.ident
  «open» _ h := c.open h
  chdir _ h name :=
    if c.chdir h then
      match h.tree.find name with
      | some (st, sub) => if st.isDir then some ⟨st.ident, sub⟩ else none
      | none => none
    else none
  stat _ h := c.stat h
  opendir _ h := if c.readdir h then some (h.tree.items.map (fun i => i.1.text), true) else none
  fchdir _ h := c.fchdir h

/-- The order of the enumeration, for `MAX`. -/
def rank : MatchType → Nat
  | .stINCLUDE => 0
  | .stEXCLUDE => 1
  | .stSKIP => 2

/-- `MAX(res,tmp)`. -/
def maxType (res tmp : MatchType) : MatchType := if rank tmp < rank res then res else tmp

/-- `checkDirEntry`. -/
def checkDirEntry (w : Setup) (path : Text) (st : Stat) : Operation :=
  let res := MatchLists.compare w.dstList path
  let res := if res ≠ .stSKIP then maxType res (MatchLists.compare w.srcList path) else res
  if res ≠ .stSKIP ∧ st.type = .dir then .opDIR
  else if res ≠ .stSKIP ∧ st.type = .lnk then .opCOPY
  else if res = .stSKIP ∨ st.type ≠ .reg then .opSKIP
  else
    match res with
    | .stINCLUDE => .opUNIFY
    | .stEXCLUDE => .opCOPY
    | .stSKIP => .opSKIP

/-- The message of `doit`. -/
def message (op : Operation) (path : Text) : Text :=
  (match op with
    | .opUNIFY => "linking  '".toList
    | .opCOPY => "copying  '".toList
    | .opDIR => "creating '".toList
    | .opSKIP => "skipping '".toList) ++ path ++ "'\n".toList

/-- The output of `doit`. -/
def announce (w : Setup) (op : Operation) (showPath : Text) (tr : Trace) : Trace :=
  if w.doDryRun || 1 < w.verbosity then { tr with out := tr.out ++ [message op showPath] } else tr

/-- `doit`. -/
def doit (w : Setup) (call : Call) (showPath : Text) (tr : Trace) : Bool × Trace :=
  let tr := announce w call.op showPath tr
  if w.doDryRun then (true, tr)
  else if call.op = .opSKIP then (true, tr)
  else (w.calls.operation call, { tr with calls := tr.calls ++ [call] })

/-- `Unify_setTime` behind the walk through a directory. -/
def setTime (w : Setup) (dstPath : Text) : Visit Trace Here → Visit Trace Here
  | .exited tr => .exited tr
  | .returned res wd =>
    if w.doDryRun then .returned res wd
    else .returned res
      { wd with rest := { wd.rest with setTime := wd.rest.setTime ++ [dstPath] } }

/-- The part of `visitDirEntry` behind `lstat`; `visit` is `visitDir`. -/
def visitFound (w : Setup) (visit : Text → Option Ident → World Trace Here → Visit Trace Here)
    (dirname : Text) (st : Stat) (wd : World Trace Here) : Visit Trace Here :=
  let srcPath := append wd.state dirname
  let op := checkDirEntry w srcPath st
  let dstPath := append w.dstList.root srcPath
  let r := doit w ⟨op, dstPath⟩ srcPath wd.rest
  if r.1 = false then .returned 1#64 { wd with rest := r.2 }
  else if op = .opDIR then
    setTime w dstPath (visit dirname (some st.ident) { wd with rest := r.2 })
  else .returned 0#64 { wd with rest := r.2 }

/-- `visitDirEntry`. -/
def visitDirEntry (w : Setup) (visit : Text → Option Ident → World Trace Here → Visit Trace Here)
    (dirname : Text) (wd : World Trace Here) : Visit Trace Here :=
  if isDotfile dirname then .returned 0#64 wd
  else
    match if w.calls.lstat (append wd.state dirname) then wd.cwd.tree.find dirname else none with
    | none => .returned 1#64 wd
    | some (st, _) => visitFound w visit dirname st wd

theorem setTime_restores {w : Setup} {dst : Text} {v : Visit Trace Here} {wd wd' : World Trace Here}
    {res : BitVec 64}
    (hv : ∀ res wd', v = .returned res wd' → wd'.state = wd.state ∧ wd'.cwd = wd.cwd)
    (h : setTime w dst v = .returned res wd') : wd'.state = wd.state ∧ wd'.cwd = wd.cwd := by
  cases v with
  | exited tr => cases h
  | returned r wd₁ =>
    obtain ⟨hstate, hcwd⟩ := hv r wd₁ rfl
    rw [setTime] at h
    split at h
    · cases h
      exact ⟨hstate, hcwd⟩
    · cases h
      exact ⟨hstate, hcwd⟩

/-- The callback moves only through `visitDir`. -/
theorem visitDirEntry_restores (w : Setup)
    (visit : Text → Option Ident → World Trace Here → Visit Trace Here)
    (hvisit : ∀ name st, Restores (visit name st)) (ent : Text) :
    Restores (visitDirEntry w visit ent) := by
  intro wd res wd' h
  unfold visitDirEntry at h
  by_cases hdot : isDotfile ent = true
  · rw [if_pos hdot] at h
    cases h
    exact ⟨rfl, rfl⟩
  · rw [if_neg hdot] at h
    split at h
    · cases h
      exact ⟨rfl, rfl⟩
    · unfold visitFound at h
      simp only at h
      split at h
      · cases h
        exact ⟨rfl, rfl⟩
      · split at h
        · refine setTime_restores (fun r wd₁ hv => ?_) h
          have hsame := hvisit _ _ _ r wd₁ hv
          exact hsame
        · cases h
          exact ⟨rfl, rfl⟩

def entry (w : Setup) : Entry Trace Here := ⟨visitDirEntry w, visitDirEntry_restores w⟩

/-- A source: in no directory a name is used twice, and only directories have entries. -/
structure Source where
  root : Here
  valid : root.tree.Valid Stat.isDir

/-- The walk of `main`, with a stack for the depth of the source. -/
def vcopy (w : Setup) (src : Source) : Visit Trace Here :=
  visitDir (kernel w.calls) (callback (kernel w.calls) (entry w) src.root.tree.depth)
    "/".toList none ⟨[], src.root, ⟨[], [], []⟩⟩

/-- What the program has done when it returns or exits. -/
def trace : Visit Trace Here → Trace
  | .returned _ wd => wd.rest
  | .exited tr => tr

/-! ## What the lists ask for -/

/-- Neither list has the path skipped. -/
def Kept (w : Setup) (path : Text) : Prop :=
  MatchLists.compare w.dstList path ≠ .stSKIP ∧ MatchLists.compare w.srcList path ≠ .stSKIP

/-- The operation for a path: the stricter list decides. -/
structure Decided (w : Setup) (path : Text) (st : Stat) : Prop where
  linked : checkDirEntry w path st = .opUNIFY ↔ st.type = .reg ∧
    MatchLists.compare w.dstList path = .stINCLUDE ∧ MatchLists.compare w.srcList path = .stINCLUDE
  copied : checkDirEntry w path st = .opCOPY ↔ Kept w path ∧ (st.type = .lnk ∨ st.type = .reg ∧
    (MatchLists.compare w.dstList path = .stEXCLUDE ∨
      MatchLists.compare w.srcList path = .stEXCLUDE))
  created : checkDirEntry w path st = .opDIR ↔ Kept w path ∧ st.type = .dir
  skipped : checkDirEntry w path st = .opSKIP ↔ ¬ Kept w path ∨ st.type = .other

/-- The operation and the call for an entry. -/
def opOf (w : Setup) (e : List FileName × Stat) : Operation := checkDirEntry w (pathOf e.1) e.2

def callOf (w : Setup) (e : List FileName × Stat) : Call :=
  ⟨opOf w e, append w.dstList.root (pathOf e.1)⟩

/-- The call is for an entry that is not skipped, in directories that are created. -/
def Wanted (w : Setup) (src : Source) (c : Call) : Prop :=
  ∃ e ∈ src.root.tree.entries [], c = callOf w e ∧ opOf w e ≠ .opSKIP ∧
    ∀ a ∈ src.root.tree.entries [], a.1 <+: e.1 → a.1 ≠ e.1 → opOf w a = .opDIR

/-- The operations are those of the stricter list; whichever calls fail, only wanted ones are made,
each once; if none fails and nothing is a test run, they are all made; and every directory is left
again. -/
structure Copies (w : Setup) (src : Source) : Prop where
  decided : ∀ path st, Decided w path st
  made : ∀ c ∈ (trace (vcopy w src)).calls, Wanted w src c
  once : ((trace (vcopy w src)).calls.map Call.dst).Nodup
  all : w.calls.Work → w.doDryRun = false → ∀ c, Wanted w src c → c ∈ (trace (vcopy w src)).calls
  left : ∀ res wd, vcopy w src = .returned res wd → wd.state = [] ∧ wd.cwd = src.root

/-! ## One entry -/

theorem checkDirEntry_decided (w : Setup) (path : Text) (st : Stat) : Decided w path st := by
  constructor <;> simp only [checkDirEntry, Kept] <;>
    cases MatchLists.compare w.dstList path <;> cases MatchLists.compare w.srcList path <;>
    cases st.type <;> simp [maxType, rank]

/-! ## The calls of a walk -/

/-- The call for one entry, if any. -/
def planOwn (w : Setup) (path : Text) (st : Stat) : List Call :=
  let op := checkDirEntry w path st
  if op = .opSKIP then [] else [⟨op, append w.dstList.root path⟩]

/-- The calls for the tree below a directory. -/
def plan (w : Setup) : Dir Stat → Text → List Call
  | .nil, _ => []
  | .entry name st sub rest, dir =>
    (if isDotfile name.text then [] else
      planOwn w (append dir name.text) st ++
        if checkDirEntry w (append dir name.text) st = .opDIR then plan w sub (append dir name.text)
        else []) ++ plan w rest dir

/-- The calls for an entry and what is below it. -/
def planItem (w : Setup) (dir : Text) (i : FileName × Stat × Dir Stat) : List Call :=
  if isDotfile i.1.text then [] else
    planOwn w (append dir i.1.text) i.2.1 ++
      if checkDirEntry w (append dir i.1.text) i.2.1 = .opDIR then
        plan w i.2.2 (append dir i.1.text)
      else []

theorem plan_eq (w : Setup) (d : Dir Stat) (dir : Text) :
    plan w d dir = d.items.flatMap (planItem w dir) := by
  induction d with
  | nil => rfl
  | entry name st sub rest _ ihrest =>
    rw [plan, ihrest, Dir.items, List.flatMap_cons]
    rfl

/-- The walk adds some of the calls in `l`, in their order; all of them when nothing fails and the
stack is deep enough. -/
structure Adds (w : Setup) (enough : Prop) (v : Visit Trace Here) (wd : World Trace Here)
    (l : List Call) : Prop where
  some : ∃ l', (trace v).calls = wd.rest.calls ++ l' ∧ l'.Sublist l
  all : w.calls.Work → w.doDryRun = false → enough →
    ∃ res tr, v = .returned res ⟨wd.state, wd.cwd, tr⟩ ∧ tr.calls = wd.rest.calls ++ l

/-- Nothing is added by what fails. -/
theorem Adds.failed {w : Setup} {enough : Prop} {v : Visit Trace Here} {wd : World Trace Here}
    {l : List Call} (hcalls : (trace v).calls = wd.rest.calls)
    (hwork : w.calls.Work → enough → False) : Adds w enough v wd l :=
  ⟨⟨[], by rw [hcalls, List.append_nil], List.nil_sublist l⟩,
    fun h _ he => (hwork h he).elim⟩

@[simp] theorem announce_calls (w : Setup) (op : Operation) (path : Text) (tr : Trace) :
    (announce w op path tr).calls = tr.calls := by
  unfold announce
  split <;> rfl

theorem doit_calls (w : Setup) (call : Call) (path : Text) (tr : Trace) :
    ∃ l, (doit w call path tr).2.calls = tr.calls ++ l ∧
      l.Sublist (if call.op = .opSKIP then [] else [call]) ∧
      (w.calls.Work → w.doDryRun = false → (doit w call path tr).1 = true ∧
        l = if call.op = .opSKIP then [] else [call]) := by
  unfold doit
  cases hdry : w.doDryRun with
  | true => exact ⟨[], by simp, List.nil_sublist _, fun _ h => by cases h⟩
  | false =>
    by_cases hskip : call.op = .opSKIP
    · exact ⟨[], by simp [hskip], List.nil_sublist _, fun _ _ => by simp [hskip]⟩
    · refine ⟨[call], by simp [hskip], by simp [hskip], fun hw _ => ?_⟩
      simp [hskip, hw.operation call]

/-- The loop over entries, from the calls for each of them. -/
theorem loop_adds {w : Setup} {n : Nat} {f : Callback Trace Here} {here : Here}
    (hrestores : ∀ ent, Restores (f ent))
    (hf : ∀ i ∈ here.tree.items, ∀ wd : World Trace Here, wd.cwd = here →
      Adds w (i.2.2.depth < n) (f i.1.text wd) wd (planItem w wd.state i))
    (is : List (FileName × Stat × Dir Stat)) (his : ∀ i ∈ is, i ∈ here.tree.items)
    (res : BitVec 64) (wd : World Trace Here) (hcwd : wd.cwd = here) :
    Adds w (∀ i ∈ is, i.2.2.depth < n) (loop f (is.map fun i => i.1.text) res wd) wd
      (is.flatMap (planItem w wd.state)) := by
  induction is generalizing res wd with
  | nil =>
    refine ⟨⟨[], (List.append_nil _).symm, List.Sublist.refl _⟩, fun _ _ _ => ?_⟩
    exact ⟨res, wd.rest, rfl, (List.append_nil _).symm⟩
  | cons i is ih =>
    have hi := hf i (his i List.mem_cons_self) wd hcwd
    obtain ⟨l₁, hl₁, hsub₁⟩ := hi.some
    rw [List.map_cons, List.flatMap_cons]
    unfold loop
    cases hcall : f i.1.text wd with
    | exited tr =>
      rw [hcall] at hl₁
      refine ⟨⟨l₁, hl₁, hsub₁.trans (List.sublist_append_left _ _)⟩, fun hw hd he => ?_⟩
      obtain ⟨r, tr', hv, -⟩ := hi.all hw hd (he i List.mem_cons_self)
      rw [hcall] at hv
      cases hv
    | returned r wd₁ =>
      rw [hcall] at hl₁
      obtain ⟨hstate, hcwd₁⟩ := hrestores _ _ _ _ hcall
      have hrest := ih (fun j hj => his j (List.mem_cons_of_mem i hj)) (res + r) wd₁
        (hcwd₁.trans hcwd)
      rw [hstate] at hrest
      obtain ⟨l₂, hl₂, hsub₂⟩ := hrest.some
      refine ⟨⟨l₁ ++ l₂, ?_, hsub₁.append hsub₂⟩, fun hw hd he => ?_⟩
      · rw [hl₂, ← List.append_assoc, ← hl₁]
        rfl
      · obtain ⟨r', tr', hv, htr⟩ := hi.all hw hd (he i List.mem_cons_self)
        rw [hcall] at hv
        cases hv
        obtain ⟨r'', tr'', hv', htr'⟩ :=
          hrest.all hw hd fun j hj => he j (List.mem_cons_of_mem i hj)
        exact ⟨r'', tr'', hv', by rw [htr', htr, List.append_assoc]⟩

/-- `visitDir`, from the calls for each entry of the directory. -/
theorem visitDir_adds {w : Setup} {n : Nat} {f : Callback Trace Here} {here : Here}
    (hrestores : ∀ ent, Restores (f ent))
    (hf : ∀ i ∈ here.tree.items, ∀ wd : World Trace Here, wd.cwd = here →
      Adds w (i.2.2.depth < n) (f i.1.text wd) wd (planItem w wd.state i))
    {name : Text} {st : Option Ident} {wd : World Trace Here}
    (henter : ∀ cwd, enter (kernel w.calls) name st wd = some cwd → cwd = here)
    (hwork : w.calls.Work → enter (kernel w.calls) name st wd = some here) :
    Adds w (here.tree.depth ≤ n) (visitDir (kernel w.calls) f name st wd) wd
      (plan w here.tree (append wd.state name)) := by
  have hdeep : here.tree.depth ≤ n → ∀ i ∈ here.tree.items, i.2.2.depth < n := fun h i hi =>
    lt_of_lt_of_le (Dir.depth_item hi) h
  unfold visitDir
  by_cases hopen : (kernel w.calls).open wd.rest wd.cwd = true
  · rw [if_pos hopen]
    cases he : enter (kernel w.calls) name st wd with
    | none => exact Adds.failed rfl fun hw _ => by rw [hwork hw] at he; cases he
    | some cwd =>
      cases henter cwd he
      by_cases hread : w.calls.readdir here = true
      · have hloop := loop_adds hrestores hf here.tree.items (fun i hi => hi) 0#64
          ⟨append wd.state name, here, wd.rest⟩ rfl
        rw [← plan_eq] at hloop
        obtain ⟨l, hl, hsub⟩ := hloop.some
        simp only [kernel, if_pos hread]
        cases hv : loop f (here.tree.items.map fun i => i.1.text) 0#64
            ⟨append wd.state name, here, wd.rest⟩ with
        | exited tr =>
          rw [hv] at hl
          refine ⟨⟨l, hl, hsub⟩, fun hw hd h => ?_⟩
          obtain ⟨r, tr', hret, -⟩ := hloop.all hw hd (hdeep h)
          rw [hv] at hret
          cases hret
        | returned r wd₁ =>
          rw [hv] at hl
          by_cases hret : w.calls.fchdir wd.cwd = true
          · simp only [hret, Bool.and_self, if_true]
            refine ⟨⟨l, hl, hsub⟩, fun hw hd h => ?_⟩
            obtain ⟨r', tr', hret, htr⟩ := hloop.all hw hd (hdeep h)
            rw [hv] at hret
            cases hret
            exact ⟨r, tr', rfl, htr⟩
          · simp only [hret, Bool.and_false, Bool.false_eq_true, if_false]
            exact ⟨⟨l, hl, hsub⟩, fun hw _ _ => absurd (hw.fchdir wd.cwd) hret⟩
      · simp only [kernel, if_neg hread]
        exact Adds.failed rfl fun hw _ => hread (hw.readdir here)
  · rw [if_neg hopen]
    exact Adds.failed rfl fun hw _ => hopen (hw.open wd.cwd)

/-- What `visitDir` enters for a directory that `lstat` has found. -/
theorem enter_found {w : Setup} {wd : World Trace Here} {name : FileName} {st : Stat}
    {sub : Dir Stat} (hfind : wd.cwd.tree.find name.text = some (st, sub))
    (hdir : st.isDir = true) :
    (∀ cwd, enter (kernel w.calls) name.text (some st.ident) wd = some cwd →
        cwd = ⟨st.ident, sub⟩) ∧
      (w.calls.Work →
        enter (kernel w.calls) name.text (some st.ident) wd = some ⟨st.ident, sub⟩) := by
  simp only [enter, safeChdir, if_neg name.no_slash, kernel, hfind, if_pos hdir]
  constructor
  · intro cwd h
    by_cases hchdir : w.calls.chdir wd.cwd = true
    · rw [if_pos hchdir] at h
      simp only at h
      split at h
      · exact (Option.some.inj h).symm
      · cases h
    · rw [if_neg hchdir] at h
      cases h
  · intro hw
    simp only [hw.chdir, hw.stat, if_true]

theorem setTime_trace (w : Setup) (dst : Text) (v : Visit Trace Here) :
    (trace (setTime w dst v)).calls = (trace v).calls := by
  cases v with
  | exited tr => rfl
  | returned res wd =>
    rw [setTime]
    split <;> rfl

theorem setTime_returned (w : Setup) (dst : Text) (res : BitVec 64) (wd : World Trace Here) :
    ∃ tr, setTime w dst (.returned res wd) = .returned res ⟨wd.state, wd.cwd, tr⟩ ∧
      tr.calls = wd.rest.calls := by
  rw [setTime]
  split
  · exact ⟨wd.rest, rfl, rfl⟩
  · exact ⟨_, rfl, rfl⟩

/-- **The calls for an entry, at any depth of the stack.** -/
theorem callback_adds (w : Setup) (n : Nat) {here : Here} (hvalid : here.tree.Valid Stat.isDir)
    {i : FileName × Stat × Dir Stat} (hi : i ∈ here.tree.items) {wd : World Trace Here}
    (hcwd : wd.cwd = here) :
    Adds w (i.2.2.depth < n) (callback (kernel w.calls) (entry w) n i.1.text wd) wd
      (planItem w wd.state i) := by
  induction n generalizing here i wd with
  | zero => exact Adds.failed rfl fun _ h => absurd h (Nat.not_lt_zero _)
  | succ n ih =>
    obtain ⟨name, st, sub⟩ := i
    have hfind : wd.cwd.tree.find name.text = some (st, sub) := by
      rw [hcwd]
      exact Dir.find_of_mem hvalid hi
    have hsub : sub.Valid Stat.isDir := Dir.valid_item hvalid hi
    change Adds w _ (visitDirEntry w
      (visitDir (kernel w.calls) (callback (kernel w.calls) (entry w) n)) name.text wd) wd _
    simp only [visitDirEntry, planItem]
    by_cases hdot : isDotfile name.text = true
    · rw [if_pos hdot, if_pos hdot]
      exact ⟨⟨[], (List.append_nil _).symm, List.Sublist.refl _⟩, fun _ _ _ =>
        ⟨0#64, wd.rest, rfl, (List.append_nil _).symm⟩⟩
    · rw [if_neg hdot, if_neg hdot]
      by_cases hstat : w.calls.lstat (append wd.state name.text) = true
      · simp only [if_pos hstat, hfind]
        simp only [visitFound, planOwn]
        generalize hop : checkDirEntry w (append wd.state name.text) st = op
        obtain ⟨l₁, hl₁, hsub₁, hall₁⟩ := doit_calls w
          ⟨op, append w.dstList.root (append wd.state name.text)⟩ (append wd.state name.text) wd.rest
        by_cases hdone : (doit w ⟨op, append w.dstList.root (append wd.state name.text)⟩
            (append wd.state name.text) wd.rest).1 = false
        · rw [if_pos hdone]
          refine ⟨⟨l₁, hl₁, hsub₁.trans (List.sublist_append_left _ _)⟩, fun hw hd _ => ?_⟩
          rw [(hall₁ hw hd).1] at hdone
          cases hdone
        · rw [if_neg hdone]
          by_cases hdir : op = .opDIR
          · have hisDir : st.isDir = true := by
              rw [hdir, (checkDirEntry_decided w _ st).created] at hop
              simpa [Stat.isDir] using hop.2
            rw [if_pos hdir, if_pos hdir]
            generalize hr : (doit w ⟨op, append w.dstList.root (append wd.state name.text)⟩
              (append wd.state name.text) wd.rest).2 = tr at hl₁
            have hfound : (⟨wd.state, wd.cwd, tr⟩ : World Trace Here).cwd.tree.find name.text =
              some (st, sub) := hfind
            obtain ⟨henter, hwork⟩ := enter_found (w := w) hfound hisDir
            have hvisit := visitDir_adds (callback_restores (kernel w.calls) (entry w) n)
              (fun j hj wd' hcwd' => @ih ⟨st.ident, sub⟩ hsub j hj wd' hcwd') henter hwork
            obtain ⟨l₂, hl₂, hsub₂⟩ := hvisit.some
            refine ⟨⟨l₁ ++ l₂, ?_, hsub₁.append hsub₂⟩, fun hw hd hlt => ?_⟩
            · rw [setTime_trace, hl₂, ← List.append_assoc, ← hl₁]
            · obtain ⟨res, tr', hv, htr'⟩ := hvisit.all hw hd (Nat.lt_succ_iff.1 hlt)
              obtain ⟨tr'', hset, htr''⟩ := setTime_returned w
                (append w.dstList.root (append wd.state name.text)) res ⟨wd.state, wd.cwd, tr'⟩
              refine ⟨res, tr'', by rw [hv, hset], ?_⟩
              rw [htr'', htr', hl₁, (hall₁ hw hd).2, List.append_assoc]
          · rw [if_neg hdir, if_neg hdir, List.append_nil]
            refine ⟨⟨l₁, hl₁, hsub₁⟩, fun hw hd _ => ⟨0#64, _, rfl, ?_⟩⟩
            rw [hl₁, (hall₁ hw hd).2]
      · simp only [if_neg hstat]
        exact Adds.failed rfl fun hw _ => hstat (hw.lstat _)

/-! ## The calls that are wanted -/

theorem opOf_snoc (w : Setup) (k : List FileName) (name : FileName) (st : Stat) :
    opOf w (k ++ [name], st) = checkDirEntry w (append (pathOf k) name.text) st := by
  rw [opOf, pathOf_snoc]

theorem planOwn_snoc (w : Setup) (k : List FileName) (name : FileName) (st : Stat) :
    planOwn w (append (pathOf k) name.text) st =
      if opOf w (k ++ [name], st) = .opSKIP then [] else [callOf w (k ++ [name], st)] := by
  simp only [planOwn, callOf, opOf, pathOf_snoc]

theorem mem_plan (w : Setup) {d : Dir Stat} (hd : d.Valid Stat.isDir) (k : List FileName)
    (c : Call) : c ∈ plan w d (pathOf k) ↔ ∃ e ∈ d.entries k, c = callOf w e ∧
      opOf w e ≠ .opSKIP ∧ ∀ a ∈ d.entries k, a.1 <+: e.1 → a.1 ≠ e.1 → opOf w a = .opDIR := by
  induction d generalizing k with
  | nil => simp [plan, Dir.entries]
  | entry name st sub rest ihsub ihrest =>
    have hsub := ihsub hd.2.2.1 (k ++ [name])
    rw [pathOf_snoc] at hsub
    rw [plan, List.mem_append, ihrest hd.2.2.2, planOwn_snoc, ← opOf_snoc]
    constructor
    · rintro (h | ⟨e, he, hc, hskip, hdirs⟩)
      · by_cases hdot : isDotfile name.text = true
        · rw [if_pos hdot] at h
          cases h
        · rw [if_neg hdot, List.mem_append] at h
          rw [Bool.not_eq_true] at hdot
          rcases h with h | h
          · by_cases hskip : opOf w (k ++ [name], st) = .opSKIP
            · rw [if_pos hskip] at h
              cases h
            · rw [if_neg hskip, List.mem_singleton] at h
              exact ⟨_, Dir.entries_head hdot, h, hskip, fun a ha hpre hne =>
                absurd (Dir.entries_top ha hpre) hne⟩
          · split at h
            · rename_i hop
              obtain ⟨e, he, hc, hskip, hdirs⟩ := hsub.1 h
              refine ⟨e, Dir.entries_sub hdot he, hc, hskip, fun a ha hpre hne => ?_⟩
              rcases Dir.entries_cases ha with ⟨-, hown⟩ | ha
              · rcases List.mem_cons.1 hown with rfl | ha
                · exact hop
                · exact hdirs a ha hpre hne
              · exact absurd hpre
                  (Dir.entries_disjoint hd (List.mem_cons_of_mem _ he) ha).2
            · cases h
      · refine ⟨e, Dir.entries_rest he, hc, hskip, fun a ha hpre hne => ?_⟩
        rcases Dir.entries_cases ha with ⟨-, hown⟩ | ha
        · exact absurd hpre (Dir.entries_disjoint hd hown he).1
        · exact hdirs a ha hpre hne
    · rintro ⟨e, he, hc, hskip, hdirs⟩
      rcases Dir.entries_cases he with ⟨hdot, hown⟩ | he
      · left
        rw [hdot, if_neg Bool.false_ne_true, List.mem_append]
        rcases List.mem_cons.1 hown with rfl | he
        · exact Or.inl (by rw [if_neg hskip, hc]; exact List.mem_cons_self)
        · obtain ⟨hpre, hne⟩ := Dir.entries_below he
          have hop : opOf w (k ++ [name], st) = .opDIR :=
            hdirs _ (Dir.entries_head hdot) hpre hne
          rw [if_pos hop]
          refine Or.inr (hsub.2 ⟨e, he, hc, hskip, fun a ha => ?_⟩)
          exact hdirs a (Dir.entries_sub hdot ha)
      · exact Or.inr ⟨e, he, hc, hskip, fun a ha => hdirs a (Dir.entries_rest ha)⟩

theorem plan_sublist (w : Setup) (d : Dir Stat) (k : List FileName) :
    (plan w d (pathOf k)).Sublist ((d.entries k).map (callOf w)) := by
  induction d generalizing k with
  | nil => exact List.Sublist.refl _
  | entry name st sub rest ihsub ihrest =>
    rw [plan, Dir.entries, List.map_append, planOwn_snoc]
    refine List.Sublist.append ?_ (ihrest k)
    split
    · exact List.Sublist.refl _
    · have hsub := ihsub (k ++ [name])
      rw [pathOf_snoc] at hsub
      change List.Sublist _ ([callOf w (k ++ [name], st)] ++ _)
      refine List.Sublist.append ?_ ?_
      · split
        · exact List.nil_sublist _
        · exact List.Sublist.refl _
      · split
        · exact hsub
        · exact List.nil_sublist _

theorem callOf_nodup (w : Setup) (src : Source) :
    (((src.root.tree.entries []).map (callOf w)).map Call.dst).Nodup := by
  have hmap : ((src.root.tree.entries []).map (callOf w)).map Call.dst =
      ((src.root.tree.entries []).map Prod.fst).map fun k =>
        append w.dstList.root (pathOf k) := by
    simp only [List.map_map]
    rfl
  rw [hmap]
  exact List.Nodup.map (fun _ _ h => append_pathOf_inj h) (Dir.entries_nodup src.valid [])

/-- **The walk does what the two lists say, whichever calls fail.** -/
theorem vcopy_copies (w : Setup) (src : Source) : Copies w src := by
  have hroot : append [] "/".toList = "/".toList := by simp [append, dropSlashes]
  have hadds : Adds w (src.root.tree.depth ≤ src.root.tree.depth)
      (visitDir (kernel w.calls) (callback (kernel w.calls) (entry w) src.root.tree.depth)
        "/".toList none ⟨[], src.root, ⟨[], [], []⟩⟩) ⟨[], src.root, ⟨[], [], []⟩⟩
      (plan w src.root.tree (append [] "/".toList)) := visitDir_adds
    (callback_restores (kernel w.calls) (entry w) src.root.tree.depth)
    (fun i hi wd hcwd => callback_adds w _ src.valid hi hcwd)
    (fun cwd h => (Option.some.inj h).symm) (fun _ => rfl)
  rw [hroot] at hadds
  obtain ⟨l, hl, hsub⟩ := hadds.some
  have hplan : plan w src.root.tree "/".toList = plan w src.root.tree (pathOf []) := rfl
  rw [hplan] at hsub
  have hcalls : (trace (vcopy w src)).calls = l := hl
  refine ⟨checkDirEntry_decided w, fun c hc => ?_, ?_, fun hw hd c hc => ?_, fun res wd h => ?_⟩
  · rw [hcalls] at hc
    exact (mem_plan w src.valid [] c).1 (hsub.subset hc)
  · rw [hcalls]
    exact ((hsub.trans (plan_sublist w _ [])).map Call.dst).nodup (callOf_nodup w src)
  · obtain ⟨res, tr, hv, htr⟩ := hadds.all hw hd (Nat.le_refl _)
    have hv' : vcopy w src = .returned res ⟨[], src.root, tr⟩ := hv
    rw [hv']
    exact htr ▸ (mem_plan w src.valid [] c).2 hc
  · exact visitDir_restores _ _ _ _ _ _ _ h

end Vcopy
