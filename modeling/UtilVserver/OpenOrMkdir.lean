import UtilVserver.Lib.DirTree
import UtilVserver.PathInfo

/-!
# `open_or_mkdir_rec` (`systemd/systemd-vserver-generator.c`)

Opens a directory, one name of its path after the other, and makes the ones that are missing.

* `openat`, `mkdirat`, `close` — the calls.  A descriptor is named by the `openat` that gave it, so
  a number that the kernel uses again is another descriptor.
* `openOrMkdir`, `open_or_mkdir`, `cut`, `steps`, `open_or_mkdir_rec` — the functions.
* `Made` — the missing directories have been made, and nothing else.
* `Granted` — the calls that are needed succeed.

Principal result: `open_or_mkdir_rec_spec`.
-/

set_option autoImplicit false

namespace OpenOrMkdir

open CString DirTree PathInfo

/-- The flags of `openat`. -/
structure Flags where
  O_PATH : Bool
  O_RDWR : Bool
  O_DIRECTORY : Bool
  O_NOFOLLOW : Bool
  deriving DecidableEq

inductive Fd where
  | AT_FDCWD
  | fd (n : Nat)
  deriving DecidableEq

structure State where
  tree : Dirs Text
  /-- The directories of the descriptors. -/
  opened : List Nat
  /-- The descriptors in the order in which they were closed. -/
  closed : List Nat
  /-- The calls so far that may fail. -/
  calls : Nat

/-- The working directory, and which call succeeds where the tree lets it. -/
structure Env where
  cwd : Nat
  works : Nat → Bool

/-! ## The calls -/

/-- The directory of a descriptor that is open. -/
def dirOf (e : Env) (s : State) : Fd → Option Nat
  | .AT_FDCWD => some e.cwd
  | .fd n => if n ∈ s.closed then none else s.opened[n]?

/-- Where a name starts. -/
def startOf (e : Env) (s : State) (dirfd : Fd) (name : Text) : Option Nat :=
  if name.head? = some '/' then some s.tree.root else dirOf e s dirfd

/-- The directory that is opened.  With a slash at the end a link is followed anyway. -/
def find (t : Dirs Text) (nofollow : Bool) (d : Nat) (name : Text) : Except Errno Nat :=
  if nofollow && name.getLast? ≠ some '/' then t.openNoFollow d (components name)
  else t.openDirectory d (components name)

/-- `openat` of a directory. -/
def openat (e : Env) (dirfd : Fd) (name : Text) (flags : Flags) (s : State) : Option Nat × State :=
  let failed := { s with calls := s.calls + 1 }
  match startOf e s dirfd name with
  | none => (none, failed)
  | some d =>
    if name = [] then (none, failed)
    else
      match find s.tree flags.O_NOFOLLOW d name with
      | .error _ => (none, failed)
      | .ok f =>
        if e.works s.calls then
          (some s.opened.length, { failed with opened := s.opened ++ [f] })
        else (none, failed)

/-- `mkdirat`; none as the error of a call that failed for its descriptor. -/
def mkdirat (e : Env) (dirfd : Fd) (name : Text) (s : State) : Except (Option Errno) Unit × State :=
  let failed := { s with calls := s.calls + 1 }
  match startOf e s dirfd name with
  | none => (.error none, failed)
  | some d =>
    if name = [] then (.error (some .ENOENT), failed)
    else
      match s.tree.mkdir (fun _ _ => e.works s.calls) d (components name) with
      | .error errno => (.error (some errno), failed)
      | .ok tree => (.ok (), { failed with tree := tree })

/-- `if (cur_fd != AT_FDCWD) close(cur_fd)`. -/
def close (cur_fd : Fd) (s : State) : State :=
  match cur_fd with
  | .AT_FDCWD => s
  | .fd n => { s with closed := s.closed ++ [n] }

/-! ## The functions -/

/-- `open_or_mkdir` over the calls for its name: what has been made can not be a symbolic link. -/
def openOrMkdir {σ φ : Type} (openat : Flags → σ → Option φ × σ)
    (mkdirat : σ → Except (Option Errno) Unit × σ) (flags : Flags) (s : σ) : Option φ × σ :=
  match openat { flags with O_DIRECTORY := true } s with
  | (some fd, s) => (some fd, s)
  | (none, s) =>
    match mkdirat s with
    | (.error errno, s) =>
      if errno ≠ some .EEXIST then (none, s)
      else openat { flags with O_DIRECTORY := true, O_NOFOLLOW := true } s
    | (.ok _, s) => openat { flags with O_DIRECTORY := true, O_NOFOLLOW := true } s

def open_or_mkdir (e : Env) (dirfd : Fd) (name : Text) (flags : Flags) (s : State) :
    Option Nat × State :=
  openOrMkdir (openat e dirfd name) (mkdirat e dirfd name) flags s

/-- The name at `ptr`, with the slashes in front of it, and `eod` behind the slashes that end it; none
at the end of the path. -/
def cut (ptr : Text) : Text × Option Text :=
  match strchr (ptr.dropWhile (· = '/')) '/' with
  | none => (ptr, none)
  | some eod =>
    let rest := eod.dropWhile (· = '/')
    (ptr.take (ptr.length - eod.length), if rest = [] then none else some rest)

theorem cut_lt {ptr name eod : Text} (h : cut ptr = (name, some eod)) : eod.length < ptr.length := by
  unfold cut at h
  split at h
  · cases h
  · rename_i e he
    obtain ⟨t, r, -, rfl, hptr⟩ := strchr_some he
    have hlen := (List.dropWhile_suffix (· = '/') (l := ptr)).length_le
    have hrest := (List.dropWhile_suffix (· = '/') (l := r)).length_le
    rw [hptr, List.length_append, List.length_cons] at hlen
    simp only [Prod.mk.injEq] at h
    obtain ⟨-, h⟩ := h
    split at h
    · cases h
    · cases h
      rw [List.dropWhile_cons, if_pos (decide_eq_true rfl)]
      omega

/-- The flags for a directory on the way. -/
def wayFlags : Flags := ⟨true, true, false, false⟩

/-- The loop of `open_or_mkdir_rec`; none stands for a descriptor below 0. -/
def steps (e : Env) (flags : Flags) (cur_fd : Fd) (ptr : Text) (s : State) : Option Fd × State :=
  if ptr = [] then (some cur_fd, s)
  else
    match _h : cut ptr with
    | (name, none) =>
      match open_or_mkdir e cur_fd name flags s with
      | (new_fd, s) => (new_fd.map Fd.fd, close cur_fd s)
    | (name, some eod) =>
      match open_or_mkdir e cur_fd name wayFlags s with
      | (none, s) => (none, close cur_fd s)
      | (some new_fd, s) => steps e flags (.fd new_fd) eod (close cur_fd s)
termination_by ptr.length
decreasing_by exact cut_lt _h

/-- `open_or_mkdir_rec`; a path without a step is invalid. -/
def open_or_mkdir_rec (e : Env) (name : Text) (flags : Flags) (t : Dirs Text) :
    Option Nat × State :=
  match steps e flags .AT_FDCWD name ⟨t, [], [], 0⟩ with
  | (some (.fd n), s) => (some n, s)
  | (some .AT_FDCWD, s) => (none, s)
  | (none, s) => (none, s)

/-! ## What it is for -/

/-- Every missing directory has been made, and nothing else. -/
inductive Made : Dirs Text → Nat → List Text → Dirs Text → Nat → Prop
  | here (t : Dirs Text) (d : Nat) : Made t d [] t d
  | there {t t' : Dirs Text} {d f e : Nat} {name : Text} {rest : List Text}
      (h : t.Denotes d [name] f) (hrest : Made t f rest t' e) : Made t d (name :: rest) t' e
  | missing {t t' : Dirs Text} {d e : Nat} {name : Text} {rest : List Text}
      (h : t.entries d name = none) (hrest : Made (t.make d name) t.next rest t' e) :
      Made t d (name :: rest) t' e

/-- The calls that are needed succeed, from call `k` on: a directory that is there is opened; one
that is missing is made, behind an attempt to open it, and opened then. -/
def Granted (works : Nat → Bool) (nofollow : Bool) :
    Dirs Text → Nat → Nat → List Text → Prop
  | _, _, _, [] => True
  | t, d, k, name :: rest =>
    (∃ f, (if nofollow && rest = [] then t.openNoFollow d [name]
        else t.openDirectory d [name]) = .ok f ∧
      works k = true ∧ Granted works nofollow t f (k + 1) rest) ∨
    (t.entries d name = none ∧ works (k + 1) = true ∧ works (k + 2) = true ∧
      Granted works nofollow (t.make d name) t.next (k + 3) rest)

/-- Where a path starts. -/
def root (e : Env) (t : Dirs Text) (path : Text) : Nat :=
  if path.head? = some '/' then t.root else e.cwd

/-- The needed calls for a path; the one of slashes only is opened at once. -/
def Needed (e : Env) (path : Text) (flags : Flags) (t : Dirs Text) : Prop :=
  if components path = [] then e.works 0 = true
  else Granted e.works flags.O_NOFOLLOW t (root e t path) 0 (components path)

/-- All descriptors but the one that is returned have been closed, in the order in which they were
opened. -/
def Closed (r : Option Nat × State) : Prop :=
  match r.1 with
  | none => r.2.closed = List.range r.2.opened.length
  | some n => r.2.opened.length = n + 1 ∧ r.2.closed = List.range n

/-! ## The descriptors -/

section Descriptors

variable {e : Env} {s s' : State}

/-- A call has given a new descriptor or none, and closed nothing. -/
def OneMore (s : State) (r : Option Nat × State) : Prop :=
  (r.1 = none ∧ r.2.opened = s.opened ∨
    r.1 = some s.opened.length ∧ ∃ f, r.2.opened = s.opened ++ [f]) ∧ r.2.closed = s.closed

theorem openat_oneMore (e : Env) (dirfd : Fd) (name : Text) (flags : Flags) (s : State) :
    OneMore s (openat e dirfd name flags s) := by
  unfold openat
  simp only
  split
  · exact ⟨Or.inl ⟨rfl, rfl⟩, rfl⟩
  · split
    · exact ⟨Or.inl ⟨rfl, rfl⟩, rfl⟩
    · split
      · exact ⟨Or.inl ⟨rfl, rfl⟩, rfl⟩
      · split
        · exact ⟨Or.inr ⟨rfl, _, rfl⟩, rfl⟩
        · exact ⟨Or.inl ⟨rfl, rfl⟩, rfl⟩

/-- `mkdirat` has nothing to do with descriptors. -/
theorem mkdirat_descriptors (e : Env) (dirfd : Fd) (name : Text) (s : State) :
    (mkdirat e dirfd name s).2.opened = s.opened ∧ (mkdirat e dirfd name s).2.closed = s.closed := by
  unfold mkdirat
  simp only
  split
  · exact ⟨rfl, rfl⟩
  · split
    · exact ⟨rfl, rfl⟩
    · split <;> exact ⟨rfl, rfl⟩

/-- **One level** gives one new descriptor or none. -/
theorem open_or_mkdir_oneMore (e : Env) (dirfd : Fd) (name : Text) (flags : Flags) (s : State) :
    OneMore s (open_or_mkdir e dirfd name flags s) := by
  have hagain : ∀ flags' s₂, s₂.opened = s.opened → s₂.closed = s.closed →
      OneMore s (openat e dirfd name flags' s₂) := by
    intro flags' s₂ hopened hclosed
    unfold OneMore
    rw [← hopened, ← hclosed]
    exact openat_oneMore e dirfd name flags' s₂
  have hfirst := openat_oneMore e dirfd name { flags with O_DIRECTORY := true } s
  unfold open_or_mkdir openOrMkdir
  split
  · rename_i fd s₁ hrun
    rw [hrun] at hfirst
    exact hfirst
  · rename_i s₁ hrun
    rw [hrun] at hfirst
    obtain ⟨hopen | hopen, hclosed⟩ := hfirst
    · have hmk := mkdirat_descriptors e dirfd name s₁
      split
      · rename_i errno s₂ hmkdir
        rw [hmkdir] at hmk
        split
        · exact ⟨Or.inl ⟨rfl, hmk.1.trans hopen.2⟩, hmk.2.trans hclosed⟩
        · exact hagain _ s₂ (hmk.1.trans hopen.2) (hmk.2.trans hclosed)
      · rename_i s₂ hmkdir
        rw [hmkdir] at hmk
        exact hagain _ s₂ (hmk.1.trans hopen.2) (hmk.2.trans hclosed)
    · cases hopen.1

@[simp] theorem close_tree (cur_fd : Fd) (s : State) : (close cur_fd s).tree = s.tree := by
  cases cur_fd <;> rfl

@[simp] theorem close_opened (cur_fd : Fd) (s : State) : (close cur_fd s).opened = s.opened := by
  cases cur_fd <;> rfl

@[simp] theorem close_calls (cur_fd : Fd) (s : State) : (close cur_fd s).calls = s.calls := by
  cases cur_fd <;> rfl

/-- The current descriptor is the last one, and all others are closed. -/
def Current (cur_fd : Fd) (s : State) : Prop :=
  match cur_fd with
  | .AT_FDCWD => s.opened = [] ∧ s.closed = []
  | .fd n => s.opened.length = n + 1 ∧ s.closed = List.range n

/-- With the current descriptor all that were opened are closed. -/
theorem Current.close {cur_fd : Fd} (h : Current cur_fd s) (hs : s'.closed = s.closed) :
    (close cur_fd s').closed = List.range s.opened.length := by
  cases cur_fd with
  | AT_FDCWD =>
    obtain ⟨hopened, hclosed⟩ := h
    show s'.closed = _
    rw [hs, hclosed, hopened]
    rfl
  | fd n =>
    obtain ⟨hopened, hclosed⟩ := h
    show s'.closed ++ [n] = _
    rw [hs, hclosed, hopened, List.range_succ]

/-- **Another level** closes the descriptor of the one before. -/
theorem Current.level {cur_fd : Fd} (h : Current cur_fd s) (e : Env) (name : Text) (flags : Flags) :
    (open_or_mkdir e cur_fd name flags s).1 = none ∧
        Closed (none, OpenOrMkdir.close cur_fd (open_or_mkdir e cur_fd name flags s).2) ∨
      ∃ n, (open_or_mkdir e cur_fd name flags s).1 = some n ∧
        Current (.fd n) (OpenOrMkdir.close cur_fd (open_or_mkdir e cur_fd name flags s).2) := by
  obtain ⟨hcases, hclosed⟩ := open_or_mkdir_oneMore e cur_fd name flags s
  have hafter := h.close hclosed
  obtain ⟨hnone, hopened⟩ | ⟨hsome, f, hopened⟩ := hcases
  · refine Or.inl ⟨hnone, ?_⟩
    show (OpenOrMkdir.close cur_fd _).closed = List.range (OpenOrMkdir.close cur_fd _).opened.length
    rw [hafter, close_opened, hopened]
  · refine Or.inr ⟨_, hsome, ?_, hafter⟩
    rw [close_opened, hopened, List.length_append, List.length_singleton]

/-- **Every run** ends with the last descriptor and all others closed, or with all of them closed. -/
theorem steps_current (e : Env) (flags : Flags) {cur_fd : Fd} (ptr : Text) (h : Current cur_fd s) :
    ((steps e flags cur_fd ptr s).1 = none ∧ Closed (none, (steps e flags cur_fd ptr s).2)) ∨
      ∃ fd, (steps e flags cur_fd ptr s).1 = some fd ∧ Current fd (steps e flags cur_fd ptr s).2 := by
  induction hn : ptr.length using Nat.strong_induction_on generalizing ptr cur_fd s with
  | _ n ih =>
    subst hn
    rw [steps]
    split
    · exact Or.inr ⟨cur_fd, rfl, h⟩
    · split
      · rename_i name hcut
        have hlevel := h.level e name flags
        split
        rename_i new_fd s₁ hrun
        rw [hrun] at hlevel
        obtain ⟨hnone, hclosed⟩ | ⟨n, hsome, hcur⟩ := hlevel
        · cases hnone
          exact Or.inl ⟨rfl, hclosed⟩
        · cases hsome
          exact Or.inr ⟨.fd n, rfl, hcur⟩
      · rename_i name eod hcut
        have hlevel := h.level e name wayFlags
        split
        · rename_i s₁ hrun
          rw [hrun] at hlevel
          obtain ⟨-, hclosed⟩ | ⟨n, hsome, -⟩ := hlevel
          · exact Or.inl ⟨rfl, hclosed⟩
          · cases hsome
        · rename_i new_fd s₁ hrun
          rw [hrun] at hlevel
          obtain ⟨hnone, -⟩ | ⟨n, hsome, hcur⟩ := hlevel
          · cases hnone
          · cases hsome
            exact ih eod.length (cut_lt hcut) eod hcur rfl

end Descriptors

/-! ## The names -/

/-- Something else than slashes is a name. -/
theorem components_ne_nil {t : Text} (hne : t ≠ []) (h : t.head? ≠ some '/') : components t ≠ [] := by
  obtain hno | ⟨x, r, hx, rfl⟩ := strchr_cases t '/'
  · rw [components_one hne hno]
    exact List.cons_ne_nil t []
  · have hxne : x ≠ [] := by
      rintro rfl
      exact h rfl
    rw [components_slash, components_one hxne hx]
    exact List.cons_ne_nil x _

theorem head_dropWhile_ne (t : Text) : (t.dropWhile (· = '/')).head? ≠ some '/' := by
  cases h : t.dropWhile (· = '/') with
  | nil =>
    intro h
    cases h
  | cons c r =>
    have hc := List.head_dropWhile_not (fun c => decide (c = '/')) (l := t) (by simp [h])
    simp only [h, List.head_cons, decide_eq_false_iff_not] at hc
    rw [List.head?_cons, ne_eq, Option.some.injEq]
    exact hc

theorem getLast_ne {lead x : Text} (hne : x ≠ []) (h : '/' ∉ x) :
    (lead ++ x).getLast? ≠ some '/' := by
  rw [List.getLast?_append_of_ne_nil lead hne]
  exact fun hlast => h (List.mem_of_getLast? hlast)

/-- **One cut of a path**: slashes only, or a name, with nothing behind it or with the rest of the
path. -/
theorem cut_cases {ptr : Text} (hne : ptr ≠ []) :
    (components ptr = [] ∧ ptr.head? = some '/' ∧ ptr.getLast? = some '/' ∧ cut ptr = (ptr, none)) ∨
      ∃ name x, components name = [x] ∧ name.head? = ptr.head? ∧ name.getLast? ≠ some '/' ∧
        name ≠ [] ∧
        ((cut ptr = (name, none) ∧ components ptr = [x]) ∨
          ∃ eod, cut ptr = (name, some eod) ∧ eod ≠ [] ∧ eod.head? ≠ some '/' ∧
            components ptr = x :: components eod ∧ components eod ≠ []) := by
  have hsplit := List.takeWhile_append_dropWhile (p := fun c => decide (c = '/')) (l := ptr)
  have hlead : ∀ c ∈ ptr.takeWhile (· = '/'), c = '/' := by
    intro c hc
    simpa using List.mem_takeWhile_imp hc
  have hbody := head_dropWhile_ne ptr
  have hcomp := components_dropWhile ptr
  generalize hl : ptr.takeWhile (· = '/') = lead at hsplit hlead
  generalize hb : ptr.dropWhile (· = '/') = body at hsplit hbody hcomp
  by_cases hnil : body = []
  · subst hnil
    rw [List.append_nil] at hsplit
    subst hsplit
    refine Or.inl ⟨hcomp.symm, ?_, ?_, ?_⟩
    · rw [List.head?_eq_some_head hne, hlead _ (List.head_mem hne)]
    · rw [List.getLast?_eq_some_getLast hne, hlead _ (List.getLast_mem hne)]
    · rw [cut, hb]
      rfl
  · right
    obtain hno | ⟨x, r, hx, rfl⟩ := strchr_cases body '/'
    · refine ⟨ptr, body, ?_, rfl, ?_, hne, Or.inl ⟨?_, ?_⟩⟩
      · rw [← hcomp, components_one hnil hno]
      · rw [← hsplit]
        exact getLast_ne hnil hno
      · rw [cut, hb]
        split
        · rfl
        · rename_i e he
          obtain ⟨t, r, -, -, hbody⟩ := strchr_some he
          exact absurd (hbody ▸ List.mem_append_right t List.mem_cons_self) hno
      · rw [← hcomp, components_one hnil hno]
    · have hxne : x ≠ [] := by
        rintro rfl
        exact hbody rfl
      have hname : components (lead ++ x) = [x] := by
        have hdrop : (lead ++ x).dropWhile (· = '/') = x := by
          rw [List.dropWhile_append_of_pos fun c hc => decide_eq_true (hlead c hc)]
          cases x with
          | nil => rfl
          | cons c x =>
            have hc : c ≠ '/' := fun hc => hx (hc ▸ List.mem_cons_self)
            rw [List.dropWhile_cons, if_neg (by rw [decide_eq_true_iff]; exact hc)]
        rw [← components_dropWhile, hdrop, components_one hxne hx]
      have htake : ptr.take (ptr.length - ('/' :: r).length) = lead ++ x := by
        rw [← hsplit, ← List.append_assoc, List.length_append, Nat.add_sub_cancel, List.take_left]
      have hrest : ('/' :: r).dropWhile (· = '/') = r.dropWhile (· = '/') := by
        rw [List.dropWhile_cons, if_pos (decide_eq_true rfl)]
      have hcut : cut ptr = (lead ++ x, if r.dropWhile (· = '/') = [] then none
          else some (r.dropWhile (· = '/'))) := by
        rw [cut, hb, strchr_append hx]
        simp only [htake, hrest]
      have hptr : components ptr = x :: components (r.dropWhile (· = '/')) := by
        rw [← hcomp, components_slash, components_one hxne hx, components_dropWhile]
        rfl
      refine ⟨lead ++ x, x, hname, ?_, getLast_ne hxne hx,
        List.append_ne_nil_of_right_ne_nil lead hxne, ?_⟩
      · rw [← hsplit, ← List.append_assoc, List.head?_append_of_ne_nil (lead ++ x)]
        exact List.append_ne_nil_of_right_ne_nil lead hxne
      · by_cases hend : r.dropWhile (· = '/') = []
        · rw [if_pos hend] at hcut
          rw [hend, components_nil] at hptr
          exact Or.inl ⟨hcut, hptr⟩
        · rw [if_neg hend] at hcut
          exact Or.inr ⟨_, hcut, hend, head_dropWhile_ne r, hptr,
            components_ne_nil hend (head_dropWhile_ne r)⟩

/-! ## One level -/

section Level

variable {e : Env} {s : State} {cur_fd : Fd} {name x : Text} {d f : Nat} {flags : Flags}

theorem find_one (hx : components name = [x]) (hlast : name.getLast? ≠ some '/') (t : Dirs Text)
    (nofollow : Bool) :
    find t nofollow d name = if nofollow then t.openNoFollow d [x] else t.openDirectory d [x] := by
  rw [find, hx]
  cases nofollow with
  | false => rfl
  | true => rw [decide_eq_true hlast]; rfl

theorem openat_ok (hstart : startOf e s cur_fd name = some d) (hne : name ≠ [])
    (hfind : find s.tree flags.O_NOFOLLOW d name = .ok f) (hworks : e.works s.calls = true) :
    openat e cur_fd name flags s =
      (some s.opened.length, ⟨s.tree, s.opened ++ [f], s.closed, s.calls + 1⟩) := by
  unfold openat
  simp only [hstart, hfind, hworks, if_neg hne, if_true]

theorem openat_missing (hstart : startOf e s cur_fd name = some d) {errno : Errno}
    (hfind : find s.tree flags.O_NOFOLLOW d name = .error errno) :
    openat e cur_fd name flags s = (none, ⟨s.tree, s.opened, s.closed, s.calls + 1⟩) := by
  unfold openat
  simp only [hstart, hfind, ite_self]

/-- A directory that is there is opened. -/
theorem open_there (hstart : startOf e s cur_fd name = some d) (hx : components name = [x])
    (hlast : name.getLast? ≠ some '/') (hne : name ≠ [])
    (hopen : (if flags.O_NOFOLLOW then s.tree.openNoFollow d [x] else s.tree.openDirectory d [x]) =
      .ok f) (hworks : e.works s.calls = true) :
    open_or_mkdir e cur_fd name flags s =
      (some s.opened.length, ⟨s.tree, s.opened ++ [f], s.closed, s.calls + 1⟩) := by
  rw [← find_one hx hlast] at hopen
  rw [open_or_mkdir, openOrMkdir, @openat_ok e s cur_fd name d f { flags with O_DIRECTORY := true } hstart hne hopen
    hworks]

theorem find_missing {t : Dirs Text} (h : t.entries d x = none) (nofollow : Bool) :
    (if nofollow then t.openNoFollow d [x] else t.openDirectory d [x]) = .error .ENOENT := by
  cases nofollow with
  | false =>
    show t.openDirectory d [x] = _
    rw [Dirs.openDirectory, Dirs.walk_missing h]
  | true =>
    show t.openNoFollow d ([] ++ [x]) = _
    rw [Dirs.openNoFollow, List.getLast?_concat, List.dropLast_concat, Dirs.walk_nil]
    simp only [h]

theorem openNoFollow_make (t : Dirs Text) (d : Nat) (x : Text) :
    (t.make d x).openNoFollow d [x] = .ok t.next := by
  show (t.make d x).openNoFollow d ([] ++ [x]) = _
  rw [Dirs.openNoFollow, List.getLast?_concat, List.dropLast_concat, Dirs.walk_nil]
  simp only [Dirs.make_entry]

/-- Where a name starts does not change with the calls that fail or make a directory. -/
theorem startOf_congr {s' : State} (hroot : s'.tree.root = s.tree.root)
    (hopened : s'.opened = s.opened) (hclosed : s'.closed = s.closed) :
    startOf e s' cur_fd name = startOf e s cur_fd name := by
  unfold startOf dirOf
  rw [hroot, hopened, hclosed]

/-- **A directory that is missing** is made and opened. -/
theorem open_missing (hstart : startOf e s cur_fd name = some d) (hx : components name = [x])
    (hlast : name.getLast? ≠ some '/') (hne : name ≠ []) (hfree : s.tree.entries d x = none)
    (hmake : e.works (s.calls + 1) = true) (hopen : e.works (s.calls + 2) = true) :
    open_or_mkdir e cur_fd name flags s =
      (some s.opened.length,
        ⟨s.tree.make d x, s.opened ++ [s.tree.next], s.closed, s.calls + 3⟩) := by
  have hfirst : find s.tree flags.O_NOFOLLOW d name = .error .ENOENT := by
    rw [find_one hx hlast, find_missing hfree]
  have hmkdir : mkdirat e cur_fd name ⟨s.tree, s.opened, s.closed, s.calls + 1⟩ =
      (.ok (), ⟨s.tree.make d x, s.opened, s.closed, s.calls + 2⟩) := by
    have hs : startOf e ⟨s.tree, s.opened, s.closed, s.calls + 1⟩ cur_fd name = some d :=
      (startOf_congr rfl rfl rfl).trans hstart
    have hmk : s.tree.mkdir (fun _ _ => e.works (s.calls + 1)) d [x] = .ok (s.tree.make d x) := by
      have hone := Dirs.mkdir_concat (t := s.tree) (fun _ _ => e.works (s.calls + 1)) d [] x
      rw [List.nil_append, Dirs.walk_nil] at hone
      rw [hone]
      simp only [hfree, hmake, Option.isSome_none, Bool.false_eq_true, if_false, if_true]
    unfold mkdirat
    simp only [hs, if_neg hne, hx, hmk]
  have hsecond : openat e cur_fd name { flags with O_DIRECTORY := true, O_NOFOLLOW := true }
      ⟨s.tree.make d x, s.opened, s.closed, s.calls + 2⟩ =
        (some s.opened.length,
          ⟨s.tree.make d x, s.opened ++ [s.tree.next], s.closed, s.calls + 3⟩) := by
    refine @openat_ok e ⟨s.tree.make d x, s.opened, s.closed, s.calls + 2⟩ cur_fd name d s.tree.next
      { flags with O_DIRECTORY := true, O_NOFOLLOW := true } ?_ hne ?_ hopen
    · exact (startOf_congr rfl rfl rfl).trans hstart
    · rw [find_one hx hlast]
      exact openNoFollow_make s.tree d x
  rw [open_or_mkdir, openOrMkdir, @openat_missing e s cur_fd name d { flags with O_DIRECTORY := true } hstart
    .ENOENT hfirst]
  simp only [hmkdir, hsecond]

/-- What a granted name leads to. -/
theorem open_granted (hstart : startOf e s cur_fd name = some d) (hx : components name = [x])
    (hlast : name.getLast? ≠ some '/') (hne : name ≠ []) {nofollow : Bool} {rest : List Text}
    (hflags : flags.O_NOFOLLOW = (nofollow && rest = []))
    (h : Granted e.works nofollow s.tree d s.calls (x :: rest)) :
    ∃ s₁ f, open_or_mkdir e cur_fd name flags s = (some s.opened.length, s₁) ∧
      s₁.opened = s.opened ++ [f] ∧ s₁.closed = s.closed ∧ s₁.tree.root = s.tree.root ∧
      Granted e.works nofollow s₁.tree f s₁.calls rest ∧
      ∀ t' g, Made s₁.tree f rest t' g → Made s.tree d (x :: rest) t' g := by
  obtain ⟨f, hopen, hworks, hrest⟩ | ⟨hfree, hmake, hopen, hrest⟩ := h
  · rw [← hflags] at hopen
    refine ⟨_, f, open_there hstart hx hlast hne hopen hworks, rfl, rfl, rfl, hrest, ?_⟩
    intro t' g hmade
    refine Made.there ?_ hmade
    split at hopen
    · exact Dirs.Denotes.of_openNoFollow hopen
    · exact Dirs.Denotes.of_openDirectory hopen
  · refine ⟨_, s.tree.next, open_missing hstart hx hlast hne hfree hmake hopen, rfl, rfl, rfl,
      hrest, ?_⟩
    intro t' g hmade
    exact Made.missing hfree hmade

end Level

/-! ## The whole path -/

/-- What has been made is where the path leads to. -/
theorem Made.denotes {t t' : Dirs Text} {d e : Nat} {names : List Text} (h : Made t d names t' e) :
    Dirs.Grows t t' ∧ t'.Denotes d names e := by
  induction h with
  | here t d => exact ⟨Dirs.Grows.refl t, Dirs.Denotes.refl d⟩
  | there hname hrest ih => exact ⟨ih.1, (ih.1.denotes hname).append ih.2⟩
  | @missing t t' d e name rest hfree hrest ih =>
    refine ⟨(Dirs.make_grows hfree).trans ih.1, ?_⟩
    have hnew : (t.make d name).Denotes d [name] t.next :=
      ⟨0, 0, by rw [Dirs.walk_dir (Dirs.make_entry t d name), Dirs.walk_nil]⟩
    exact (ih.1.denotes hnew).append ih.2

/-- **When the needed calls succeed**, the loop ends with the directory of the path. -/
theorem steps_granted {e : Env} {s : State} {cur_fd : Fd} (flags : Flags) {ptr : Text} {d : Nat}
    (hne : ptr ≠ []) (hnames : components ptr ≠ []) (hcur : Current cur_fd s)
    (hstart : startOf e s cur_fd ptr = some d)
    (h : Granted e.works flags.O_NOFOLLOW s.tree d s.calls (components ptr)) :
    ∃ n f s', steps e flags cur_fd ptr s = (some (.fd n), s') ∧ s'.opened[n]? = some f ∧
      Made s.tree d (components ptr) s'.tree f := by
  induction hn : ptr.length using Nat.strong_induction_on generalizing ptr cur_fd s d with
  | _ n ih =>
    subst hn
    obtain ⟨hnil, -⟩ | ⟨name, x, hx, hhead, hlast, hname, hcases⟩ := cut_cases hne
    · exact absurd hnil hnames
    · have hstart' : startOf e s cur_fd name = some d := by
        rw [← hstart, startOf, startOf, hhead]
      have hnew : ∀ f : Nat, (s.opened ++ [f])[s.opened.length]? = some f := fun f =>
        List.getElem?_concat_length
      rw [steps, if_neg hne]
      obtain ⟨hcut, hptr⟩ | ⟨eod, hcut, heod, hslash, hptr, hmore⟩ := hcases
      · rw [hptr] at h ⊢
        obtain ⟨s₁, f, hrun, hopened, -, -, -, hmade⟩ := @open_granted e s cur_fd name x d flags hstart'
          hx hlast hname flags.O_NOFOLLOW [] (Bool.and_true _).symm h
        split
        · rename_i name' hcut'
          rw [hcut] at hcut'
          cases hcut'
          rw [hrun]
          refine ⟨s.opened.length, f, _, rfl, ?_, ?_⟩
          · rw [close_opened, hopened]
            exact hnew f
          · rw [close_tree]
            exact hmade s₁.tree f (Made.here s₁.tree f)
        · rename_i name' eod' hcut'
          rw [hcut] at hcut'
          cases hcut'
      · rw [hptr] at h ⊢
        have hway : wayFlags.O_NOFOLLOW = (flags.O_NOFOLLOW && decide (components eod = [])) := by
          rw [decide_eq_false hmore, Bool.and_false]
          rfl
        obtain ⟨s₁, f, hrun, hopened, -, -, hrest, hmade⟩ := open_granted hstart' hx hlast hname hway h
        split
        · rename_i name' hcut'
          rw [hcut] at hcut'
          cases hcut'
        · rename_i name' eod' hcut'
          rw [hcut] at hcut'
          cases hcut'
          have hlevel := hcur.level e name wayFlags
          rw [hrun] at hlevel
          obtain ⟨hnone, -⟩ | ⟨m, hm, hcur'⟩ := hlevel
          · cases hnone
          · cases hm
            have hdir : startOf e (close cur_fd s₁) (.fd s.opened.length) eod = some f := by
              have hopen : s.opened.length ∉ (close cur_fd s₁).closed := by
                rw [hcur'.2, List.mem_range]
                exact Nat.lt_irrefl _
              rw [startOf, if_neg hslash, dirOf, if_neg hopen, close_opened, hopened]
              exact hnew f
            have hgranted : Granted e.works flags.O_NOFOLLOW (close cur_fd s₁).tree f
                (close cur_fd s₁).calls (components eod) := by
              rw [close_tree, close_calls]
              exact hrest
            obtain ⟨n, g, s', hsteps, hlast, hmade'⟩ := ih eod.length (cut_lt hcut) heod hmore hcur'
              hdir hgranted rfl
            rw [close_tree] at hmade'
            rw [hrun]
            exact ⟨n, g, s', hsteps, hlast, hmade s'.tree g hmade'⟩

/-- The path of slashes only is the root. -/
theorem steps_slashes {e : Env} {t : Dirs Text} (flags : Flags) {path : Text} (hne : path ≠ [])
    (hnil : components path = []) (hworks : e.works 0 = true) :
    ∃ n s', steps e flags .AT_FDCWD path ⟨t, [], [], 0⟩ = (some (.fd n), s') ∧
      s'.opened[n]? = some t.root ∧ s'.tree = t := by
  obtain ⟨-, hhead, hlast, hcut⟩ | ⟨name, x, -, -, -, -, ⟨-, hptr⟩ | ⟨eod, -, -, -, hptr, -⟩⟩ :=
    cut_cases hne
  · have hstart : startOf e ⟨t, [], [], 0⟩ .AT_FDCWD path = some t.root := by
      rw [startOf, if_pos hhead]
    have hfind : find t flags.O_NOFOLLOW t.root path = .ok t.root := by
      rw [find, hlast, hnil, Dirs.openDirectory, Dirs.walk_nil]
      simp
    have hrun : open_or_mkdir e .AT_FDCWD path flags ⟨t, [], [], 0⟩ =
        (some 0, ⟨t, [t.root], [], 1⟩) := by
      rw [open_or_mkdir, openOrMkdir, @openat_ok e ⟨t, [], [], 0⟩ .AT_FDCWD path t.root t.root
        { flags with O_DIRECTORY := true } hstart hne hfind hworks]
      rfl
    refine ⟨0, ⟨t, [t.root], [], 1⟩, ?_, rfl, rfl⟩
    rw [steps, if_neg hne]
    split
    · rename_i name hcut'
      rw [hcut] at hcut'
      cases hcut'
      rw [hrun]
      rfl
    · rename_i name eod hcut'
      rw [hcut] at hcut'
      cases hcut'
  · rw [hptr] at hnil
    cases hnil
  · rw [hptr] at hnil
    cases hnil

/-- **`open_or_mkdir_rec`**: when the calls that are needed succeed, a descriptor of the directory of
the path is returned, every missing directory has been made and nothing else; all other descriptors
have been closed once, also when it fails. -/
theorem open_or_mkdir_rec_spec (e : Env) (flags : Flags) (t : Dirs Text) {path : Text}
    (hne : path ≠ []) :
    (Needed e path flags t → ∃ n d, (open_or_mkdir_rec e path flags t).1 = some n ∧
      (open_or_mkdir_rec e path flags t).2.opened[n]? = some d ∧
      Made t (root e t path) (components path) (open_or_mkdir_rec e path flags t).2.tree d ∧
      (open_or_mkdir_rec e path flags t).2.tree.Denotes (root e t path) (components path) d) ∧
    Closed (open_or_mkdir_rec e path flags t) := by
  have hcur : Current .AT_FDCWD (⟨t, [], [], 0⟩ : State) := ⟨rfl, rfl⟩
  constructor
  · intro hneeded
    obtain ⟨n, d, s', hsteps, hopened, hmade⟩ : ∃ n d s',
        steps e flags .AT_FDCWD path ⟨t, [], [], 0⟩ = (some (.fd n), s') ∧ s'.opened[n]? = some d ∧
          Made t (root e t path) (components path) s'.tree d := by
      have hstart : startOf e ⟨t, [], [], 0⟩ .AT_FDCWD path = some (root e t path) := by
        unfold startOf root
        split <;> rfl
      unfold Needed at hneeded
      split at hneeded
      · rename_i hnil
        obtain ⟨n, s', hsteps, hopened, htree⟩ := steps_slashes flags hne hnil hneeded
        refine ⟨n, t.root, s', hsteps, hopened, ?_⟩
        obtain ⟨-, hhead, -⟩ | ⟨name, x, -, -, -, -, ⟨-, hptr⟩ | ⟨eod, -, -, -, hptr, -⟩⟩ :=
          cut_cases hne
        · rw [htree, hnil, root, if_pos hhead]
          exact Made.here t t.root
        · rw [hptr] at hnil
          cases hnil
        · rw [hptr] at hnil
          cases hnil
      · rename_i hnames
        exact steps_granted flags hne hnames hcur hstart hneeded
    have hrun : open_or_mkdir_rec e path flags t = (some n, s') := by
      rw [open_or_mkdir_rec, hsteps]
    rw [hrun]
    exact ⟨n, d, rfl, hopened, hmade, hmade.denotes.2⟩
  · obtain ⟨hnone, hclosed⟩ | ⟨fd, hsome, hcur'⟩ := steps_current e flags path hcur
    · have hrun : steps e flags .AT_FDCWD path ⟨t, [], [], 0⟩ = (none, _) := Prod.ext hnone rfl
      rw [open_or_mkdir_rec, hrun]
      exact hclosed
    · have hrun : steps e flags .AT_FDCWD path ⟨t, [], [], 0⟩ = (some fd, _) := Prod.ext hsome rfl
      rw [open_or_mkdir_rec, hrun]
      cases fd with
      | AT_FDCWD =>
        obtain ⟨hopened, hclosed⟩ := hcur'
        show (steps e flags .AT_FDCWD path ⟨t, [], [], 0⟩).2.closed = _
        rw [hclosed, hopened]
        rfl
      | fd n => exact hcur'

/-- Two directories are missing; the slashes at the end make no third one. -/
theorem open_or_mkdir_rec_missing :
    ∃ n d, (open_or_mkdir_rec ⟨0, fun _ => true⟩ "/run//systemd//".toList wayFlags
        (Dirs.bare ['.'] ['.', '.'])).1 = some n ∧
      (open_or_mkdir_rec ⟨0, fun _ => true⟩ "/run//systemd//".toList wayFlags
        (Dirs.bare ['.'] ['.', '.'])).2.tree.Denotes 0 ["run".toList, "systemd".toList] d ∧
      (open_or_mkdir_rec ⟨0, fun _ => true⟩ "/run//systemd//".toList wayFlags
        (Dirs.bare ['.'] ['.', '.'])).2.closed = List.range n := by
  have hnames : components "/run//systemd//".toList = ["run".toList, "systemd".toList] := by
    decide +kernel
  have hneeded : Needed ⟨0, fun _ => true⟩ "/run//systemd//".toList wayFlags
      (Dirs.bare ['.'] ['.', '.']) := by
    rw [Needed, hnames, if_neg (List.cons_ne_nil _ _)]
    have hrun : (Dirs.bare ['.'] ['.', '.']).entries 0 "run".toList = none := by decide +kernel
    have hsystemd : ((Dirs.bare ['.'] ['.', '.']).make 0 "run".toList).entries
        (Dirs.bare ['.'] ['.', '.']).next "systemd".toList = none := by decide +kernel
    exact Or.inr ⟨hrun, rfl, rfl, Or.inr ⟨hsystemd, rfl, rfl, trivial⟩⟩
  have hne : "/run//systemd//".toList ≠ [] := by decide +kernel
  obtain ⟨hgranted, hclosed⟩ := open_or_mkdir_rec_spec ⟨0, fun _ => true⟩ wayFlags
    (Dirs.bare ['.'] ['.', '.']) hne
  obtain ⟨n, d, hn, -, -, hd⟩ := hgranted hneeded
  rw [hnames] at hd
  unfold Closed at hclosed
  rw [hn] at hclosed
  exact ⟨n, d, hn, hd, hclosed.2⟩

end OpenOrMkdir
