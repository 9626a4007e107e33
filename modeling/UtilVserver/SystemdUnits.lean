import Mathlib.Logic.Function.Basic
import UtilVserver.GeneratorLines
import UtilVserver.OpenOrMkdir
import UtilVserver.SystemdEscape

/-!
# The links of the systemd generator (`systemd/systemd-vserver-generator.c`)

Marks and dependencies of the vservers become links in the directories of units.

* `Units` — the directory of the units, with the directories and links in it.
* `xsymlinkat`, `open_or_mkdir` — the operations on it; any call may fail.
* `walk`, `read_file` — a mapped file.  Behind its end there are NULs up to the end of the page.
* `mark_handler`, `depends_handler`, `generate_units_for_vserver`, `generate_units`.
* `Described` — the links that the configuration asks for.

Principal results: `generate_units_exact` and `generate_units_order`.
-/

set_option autoImplicit false

namespace SystemdUnits

open CString Calls GeneratorLines SystemdEscape
open DirTree (Errno)
open OpenOrMkdir (openOrMkdir wayFlags)

abbrev Name := List UInt8

/-- What a name in a directory of units stands for. -/
inductive Slot where
  | absent
  | link (target : Name)
  /-- Something else that can be unlinked. -/
  | file
  | dir

inductive Entry where
  | absent
  | dir (slots : Name → Slot)
  | other

structure Units where
  entry : Name → Entry
  /-- The calls so far. -/
  calls : Nat

/-- Which call succeeds where the directories let it. -/
structure Env where
  works : Nat → Bool

namespace Units

def slot (u : Units) (d n : Name) : Slot :=
  match u.entry d with
  | .dir slots => slots n
  | _ => .absent

def next (u : Units) : Units := { u with calls := u.calls + 1 }

def setSlot (u : Units) (d n : Name) (x : Slot) : Units :=
  match u.entry d with
  | .dir slots =>
    { u with entry := Function.update u.entry d (.dir (Function.update slots n x)) }
  | _ => u

def isDir (u : Units) (d : Name) : Bool :=
  match u.entry d with
  | .dir _ => true
  | _ => false

end Units

/-! ## The operations -/

/-- `unlinkat`; no descriptor stands for one that is not open. -/
def unlinkat (e : Env) (fd : Option Name) (name : Name) (u : Units) : Units :=
  match fd with
  | none => u.next
  | some d =>
    if e.works u.calls then
      match u.slot d name with
      | .link _ | .file => (u.setSlot d name .absent).next
      | _ => u.next
    else u.next

def symlinkat (e : Env) (target : Name) (fd : Option Name) (name : Name) (u : Units) :
    Bool × Units :=
  match fd with
  | none => (false, u.next)
  | some d =>
    if e.works u.calls && u.isDir d then
      match u.slot d name with
      | .absent => (true, (u.setSlot d name (.link target)).next)
      | _ => (false, u.next)
    else (false, u.next)

def xsymlinkat (e : Env) (target : Name) (fd : Option Name) (name : Name) (u : Units) :
    Bool × Units :=
  symlinkat e target fd name (unlinkat e fd name u)

/-- `openat` of a directory of units; there are no links among them, so the flags do not matter. -/
def openat (e : Env) (name : Name) (u : Units) : Option Name × Units :=
  (if e.works u.calls && u.isDir name then some name else none, u.next)

def mkdirat (e : Env) (name : Name) (u : Units) : Except (Option Errno) Unit × Units :=
  if e.works u.calls then
    match u.entry name with
    | .absent =>
      (.ok (), { u with entry := Function.update u.entry name (.dir fun _ => .absent) }.next)
    | _ => (.error (some .EEXIST), u.next)
  else (.error none, u.next)

/-- `open_or_mkdir` in the directory of the units. -/
def open_or_mkdir (e : Env) (name : Name) (u : Units) : Option Name × Units :=
  openOrMkdir (fun _ => openat e name) (mkdirat e name) wayFlags u

/-! ## Reading a file -/

/-- The loop over the lines. -/
def walk {σ : Type} (padded : Bool) (handler : Text → σ → Bool × σ) (ptr : Text) (data : σ) :
    Option (Bool × σ) :=
  if ptr = [] then some (true, data)
  else
    let p := ptr.dropWhile isspace
    if _h : p = [] then if padded then some (handler [] data) else none
    else if charAt p 0 = '#' then walk padded handler (endOfLine p) data
    else
      match handler (trimmed p) data with
      | (false, data) => some (false, data)
      | (true, data) => walk padded handler (endOfLine p) data
termination_by ptr.length
decreasing_by
  · exact endOfLine_length_lt rfl _h
  · exact endOfLine_length_lt rfl _h

def pageSize : Nat := 4096

/-- `read_file`. -/
def read_file {σ : Type} (file : File) (handler : Text → σ → Bool × σ) (data : σ) :
    Option (Bool × σ) :=
  match file with
  | .missing => some (true, data)
  | .special => some (false, data)
  | .unreadable => some (false, data)
  | .regular [] => some (false, data)
  | .regular content => walk (content.length % pageSize != 0) handler content data

/-! ## The handlers -/

/-- The bytes of a line. -/
def bytes (t : Text) : Name := t.map fun c => UInt8.ofNat c.toNat

def targetWants : Name := ascii "vserver.target.wants"

def markUnit : Name := ascii "../vserver-mark@.target"

def serviceUnit : Name := ascii "../vserver@.service"

def mark_handler (e : Env) (targetdir_fd : Option Name) (service_name : Name) (data : Text)
    (u : Units) : Bool × Units :=
  if data.length = 0 then (true, u)
  else
    let (linked, u) :=
      xsymlinkat e markUnit targetdir_fd (generate (bytes data) .markTarget).text u
    match open_or_mkdir e (generate (bytes data) .markWants).text u with
    | (none, u) => (false, u)
    | (some markdir_fd, u) =>
      let (linked', u) := xsymlinkat e serviceUnit (some markdir_fd) service_name u
      (linked && linked', u)

/-- The data is `depdir_fd`, which stays open for the next line, and the units. -/
def depends_handler (e : Env) (service_name : Name) (data : Text) (s : Option Name × Units) :
    Bool × (Option Name × Units) :=
  if data.length = 0 then (true, s)
  else
    let (depdir_fd, u) :=
      match s with
      | (some fd, u) => (some fd, u)
      | (none, u) => open_or_mkdir e service_name u
    match depdir_fd with
    | none => (false, none, u)
    | some fd =>
      let (linked, u) :=
        xsymlinkat e serviceUnit (some fd) (generate (bytes data) .dependency).text u
      (linked, some fd, u)

/-! ## The vservers -/

/-- `fnmatch` without flags, for patterns whose only special character is `*`. -/
def fnmatch : List UInt8 → Name → Bool
  | [], name => name.isEmpty
  | p :: ps, name =>
    if p = 42 then name.tails.any fun rest => fnmatch ps rest
    else
      match name with
      | [] => false
      | c :: rest => c = p && fnmatch ps rest

/-- `IGNORE_PATTERN`. -/
def ignorePattern : List (List UInt8) :=
  ["*.rpmnew", "*.rpmsave", "*.rpmorig", "*.cfsaved*", "*.~*~"].map ascii

inductive DType where
  | DT_DIR
  | DT_UNKNOWN
  | other
  deriving DecidableEq

/-- An entry of the directory of vservers, and what is in it. -/
structure Dirent where
  d_name : Name
  d_type : DType
  /-- What `S_ISDIR` gives.  The check of `fstatat` is `!fstatat(..) < 0`, which never holds: after
  a failure it is asked about memory that nobody has written. -/
  s_isdir : Bool
  opens : Bool
  /-- `disabled` exists. -/
  disabled : Bool
  /-- `vdir` is a directory or a link. -/
  vdir : Bool
  mark : File
  depends : File

/-- The type of the entry, which `readdir` may leave open. -/
def Dirent.isDir (ent : Dirent) : Bool :=
  if ent.d_type = .DT_UNKNOWN then ent.s_isdir else ent.d_type = .DT_DIR

def generate_units_for_vserver (e : Env) (targetdir_fd : Option Name) (ent : Dirent) (u : Units) :
    Option (Bool × Units) :=
  if ignorePattern.any fun p => fnmatch p ent.d_name then some (true, u)
  else if ent.disabled then some (true, u)
  else if !ent.vdir then some (true, u)
  else
    match read_file ent.mark
        (mark_handler e targetdir_fd (generate ent.d_name .service).text) u with
    | none => none
    | some (res, u) =>
      match read_file ent.depends
          (depends_handler e (generate ent.d_name .requires).text) (none, u) with
      | none => none
      | some (res', _, u) => some (res && res', u)

/-- The loop of `generate_units`; `readdir` may fail at the end. -/
def visit (e : Env) (targetdir_fd : Option Name) (readdirFails : Bool) :
    List Dirent → Bool → Units → Option (Bool × Units)
  | [], rc, u => some (if readdirFails then false else rc, u)
  | ent :: ents, rc, u =>
    if ent.d_name.head? = some 46 then visit e targetdir_fd readdirFails ents rc u
    else if !ent.isDir then
      visit e targetdir_fd readdirFails ents rc u
    else if !ent.opens then visit e targetdir_fd readdirFails ents rc u
    else
      match generate_units_for_vserver e targetdir_fd ent u with
      | none => none
      | some (res, u) => visit e targetdir_fd readdirFails ents (rc && res) u

def generate_units (e : Env) (readdirFails : Bool) (ents : List Dirent) (u : Units) :
    Option (Bool × Units) :=
  let (targetdir_fd, u) := open_or_mkdir e targetWants u
  visit e targetdir_fd readdirFails ents true u

/-! ## What the configuration asks for -/

/-- The vserver is looked at. -/
def Dirent.used (ent : Dirent) : Prop :=
  ent.d_name.head? ≠ some 46 ∧ ent.isDir = true ∧ ent.opens = true ∧
    (∀ p ∈ ignorePattern, fnmatch p ent.d_name = false) ∧ ent.disabled = false ∧ ent.vdir = true

/-- The lines of a file that count. -/
def linesOf : File → List Text
  | .regular content => keptLines content
  | _ => []

/-- The link `n` to `t` in the directory `d` of units. -/
inductive Described (ents : List Dirent) : Name → Name → Name → Prop
  | target {ent : Dirent} {m : Text} (hent : ent ∈ ents) (hused : ent.used)
      (hm : m ∈ linesOf ent.mark) :
      Described ents targetWants (generate (bytes m) .markTarget).text markUnit
  | wants {ent : Dirent} {m : Text} (hent : ent ∈ ents) (hused : ent.used)
      (hm : m ∈ linesOf ent.mark) :
      Described ents (generate (bytes m) .markWants).text (generate ent.d_name .service).text
        serviceUnit
  | requires {ent : Dirent} {m : Text} (hent : ent ∈ ents) (hused : ent.used)
      (hm : m ∈ linesOf ent.depends) :
      Described ents (generate ent.d_name .requires).text (generate (bytes m) .dependency).text
        serviceUnit

/-! ## What the operations do -/

namespace Units

@[simp] theorem slot_next (u : Units) (d n : Name) : u.next.slot d n = u.slot d n := rfl
@[simp] theorem entry_next (u : Units) : u.next.entry = u.entry := rfl
@[simp] theorem isDir_next (u : Units) (d : Name) : u.next.isDir d = u.isDir d := rfl

theorem slot_setSlot {u : Units} {d : Name} (hd : u.isDir d = true) (n : Name) (x : Slot)
    (d' n' : Name) :
    (u.setSlot d n x).slot d' n' = if d' = d ∧ n' = n then x else u.slot d' n' := by
  unfold isDir at hd
  unfold setSlot
  cases hentry : u.entry d with
  | dir slots =>
    by_cases hdd : d' = d
    · subst hdd
      by_cases hnn : n' = n
      · subst hnn
        simp [slot]
      · simp [slot, hentry, hnn]
    · simp [slot, hdd]
  | absent => simp [hentry] at hd
  | other => simp [hentry] at hd

theorem entry_setSlot (u : Units) (d n : Name) (x : Slot) {d' : Name} (hne : d' ≠ d) :
    (u.setSlot d n x).entry d' = u.entry d' := by
  unfold setSlot
  cases u.entry d with
  | dir slots => exact Function.update_of_ne hne _ _
  | absent => rfl
  | other => rfl

theorem isDir_of_slot {u : Units} {d n : Name} (h : u.slot d n ≠ .absent) : u.isDir d = true := by
  unfold slot at h
  unfold isDir
  cases hentry : u.entry d with
  | dir slots => rfl
  | absent => simp [hentry] at h
  | other => simp [hentry] at h

end Units

/-- A set of links that the run is allowed to make. -/
abbrev Links := Name → Name → Name → Prop

/-- What is done within the links of `A`, and which links `N` are made when it succeeds. -/
structure Does (A N : Links) (res : Bool) (u u' : Units) : Prop where
  within : ∀ d n, u'.slot d n = u.slot d n ∨
    ∃ t, A d n t ∧ (u'.slot d n = .link t ∨ u'.slot d n = .absent)
  sets : res = true → ∀ d n, u'.slot d n = u.slot d n ∨ ∃ t, A d n t ∧ u'.slot d n = .link t
  made : res = true → ∀ d n t, N d n t → u'.slot d n = .link t
  entries : ∀ d, d ≠ targetWants → (∀ n t, ¬ A d n t) → u'.entry d = u.entry d

section Does

variable {A N N' : Links} {res res' : Bool} {u u₁ u₂ : Units}

theorem Does.same (hslot : ∀ d n, u₁.slot d n = u.slot d n)
    (hentry : ∀ d, d ≠ targetWants → (∀ n t, ¬ A d n t) → u₁.entry d = u.entry d) :
    Does A (fun _ _ _ => False) res u u₁ :=
  ⟨fun d n => Or.inl (hslot d n), fun _ d n => Or.inl (hslot d n), fun _ _ _ _ h => h.elim, hentry⟩

theorem Does.refl (A : Links) (res : Bool) (u : Units) :
    Does A (fun _ _ _ => False) res u u := .same (fun _ _ => rfl) fun _ _ _ => rfl

theorem Does.fail (h : Does A N res u u₁) : Does A N' false u u₁ :=
  ⟨h.within, fun h => (by cases h), fun h => (by cases h), h.entries⟩

theorem Does.mono (h : Does A N res u u₁) (hN : ∀ d n t, N' d n t → N d n t) :
    Does A N' res u u₁ :=
  ⟨h.within, h.sets, fun hres d n t hn => h.made hres d n t (hN d n t hn), h.entries⟩

/-- One after the other. -/
theorem Does.trans (hA : ∀ d n t t', A d n t → A d n t' → t = t')
    (hN : ∀ d n t, N d n t → A d n t) (h : Does A N res u u₁) (h' : Does A N' res' u₁ u₂) :
    Does A (fun d n t => N d n t ∨ N' d n t) (res && res') u u₂ where
  within d n := by
    obtain heq | hset := h'.within d n
    · rw [heq]
      exact h.within d n
    · exact Or.inr hset
  sets hres d n := by
    rw [Bool.and_eq_true] at hres
    obtain heq | hset := h'.sets hres.2 d n
    · rw [heq]
      exact h.sets hres.1 d n
    · exact Or.inr hset
  made hres d n t hn := by
    rw [Bool.and_eq_true] at hres
    obtain hn | hn := hn
    · -- a link that was made stays, or is made again
      have hlink := h.made hres.1 d n t hn
      obtain heq | ⟨t', ht', hset⟩ := h'.sets hres.2 d n
      · rw [heq, hlink]
      · rw [hset, hA d n t' t ht' (hN d n t hn)]
    · exact h'.made hres.2 d n t hn
  entries d hd hfree := (h'.entries d hd hfree).trans (h.entries d hd hfree)

theorem unlinkat_spec (e : Env) (fd : Option Name) (name : Name) (u : Units) :
    (∀ d n, (unlinkat e fd name u).slot d n = u.slot d n ∨
      fd = some d ∧ n = name ∧ (unlinkat e fd name u).slot d n = .absent) ∧
    (∀ d, fd ≠ some d → (unlinkat e fd name u).entry d = u.entry d) := by
  have hremove : ∀ d, u.slot d name ≠ .absent →
      (∀ d' n', (u.setSlot d name .absent).next.slot d' n' = u.slot d' n' ∨
        some d = some d' ∧ n' = name ∧ (u.setSlot d name .absent).next.slot d' n' = .absent) ∧
      (∀ d', some d ≠ some d' → (u.setSlot d name .absent).next.entry d' = u.entry d') := by
    intro d hslot
    have hd := Units.isDir_of_slot hslot
    refine ⟨fun d' n' => ?_, fun d' hne => ?_⟩
    · rw [Units.slot_next, Units.slot_setSlot hd]
      by_cases hboth : d' = d ∧ n' = name
      · rw [if_pos hboth]
        exact Or.inr ⟨congrArg some hboth.1.symm, hboth.2, rfl⟩
      · rw [if_neg hboth]
        exact Or.inl rfl
    · exact Units.entry_setSlot u d name _ fun heq => hne (congrArg some heq.symm)
  have hself : (∀ d n, u.next.slot d n = u.slot d n ∨
      fd = some d ∧ n = name ∧ u.next.slot d n = .absent) ∧
      (∀ d, fd ≠ some d → u.next.entry d = u.entry d) :=
    ⟨fun _ _ => Or.inl rfl, fun _ _ => rfl⟩
  unfold unlinkat
  cases fd with
  | none => exact hself
  | some d =>
    dsimp only
    split
    · split
      · rename_i target hslot
        exact hremove d (by rw [hslot]; simp)
      · rename_i hslot
        exact hremove d (by rw [hslot]; simp)
      · exact hself
    · exact hself

theorem symlinkat_spec (e : Env) (target : Name) (fd : Option Name) (name : Name) (u : Units) :
    ((symlinkat e target fd name u).1 = false ∧ (symlinkat e target fd name u).2 = u.next) ∨
    ∃ d, fd = some d ∧ (symlinkat e target fd name u).1 = true ∧
      (∀ d' n', (symlinkat e target fd name u).2.slot d' n' =
        if d' = d ∧ n' = name then .link target else u.slot d' n') ∧
      ∀ d', d' ≠ d → (symlinkat e target fd name u).2.entry d' = u.entry d' := by
  unfold symlinkat
  cases fd with
  | none => exact Or.inl ⟨rfl, rfl⟩
  | some d =>
    dsimp only
    split
    · rename_i hworks
      rw [Bool.and_eq_true] at hworks
      split
      · refine Or.inr ⟨d, rfl, rfl, fun d' n' => ?_, fun d' hne => ?_⟩
        · rw [Units.slot_next, Units.slot_setSlot hworks.2]
        · exact Units.entry_setSlot u d name _ hne
      · exact Or.inl ⟨rfl, rfl⟩
    · exact Or.inl ⟨rfl, rfl⟩

/-- **A link is replaced.** -/
theorem xsymlinkat_does (e : Env) {target name : Name} {fd : Option Name} (u : Units)
    (hA : ∀ d, fd = some d → A d name target) :
    Does A (fun d n t => fd = some d ∧ n = name ∧ t = target)
      (xsymlinkat e target fd name u).1 u (xsymlinkat e target fd name u).2 := by
  obtain ⟨hslots, hentries⟩ := unlinkat_spec e fd name u
  have hunlink : ∀ d n, (unlinkat e fd name u).slot d n = u.slot d n ∨ ∃ t, A d n t ∧
      ((unlinkat e fd name u).slot d n = .link t ∨ (unlinkat e fd name u).slot d n = .absent) := by
    intro d n
    obtain heq | ⟨hfd, rfl, hgone⟩ := hslots d n
    · exact Or.inl heq
    · exact Or.inr ⟨target, hA d hfd, Or.inr hgone⟩
  have hfree : ∀ d, (∀ n t, ¬ A d n t) → fd ≠ some d := fun d hd hfd =>
    hd name target (hA d hfd)
  unfold xsymlinkat
  obtain ⟨hres, hsame⟩ | ⟨d, rfl, hres, hset, hentry⟩ :=
    symlinkat_spec e target fd name (unlinkat e fd name u)
  · rw [hres, hsame]
    exact ⟨hunlink, fun h => (by cases h), fun h => (by cases h),
      fun d _ hd => hentries d (hfree d hd)⟩
  · rw [hres]
    have hlink : ∀ d' n', (symlinkat e target (some d) name (unlinkat e (some d) name u)).2.slot
        d' n' = u.slot d' n' ∨ ∃ t, A d' n' t ∧
          (symlinkat e target (some d) name (unlinkat e (some d) name u)).2.slot d' n' =
            .link t := by
      intro d' n'
      rw [hset]
      by_cases hboth : d' = d ∧ n' = name
      · rw [if_pos hboth, hboth.1, hboth.2]
        exact Or.inr ⟨target, hA d rfl, rfl⟩
      · rw [if_neg hboth]
        obtain heq | ⟨hfd, hn, -⟩ := hslots d' n'
        · exact Or.inl heq
        · exact absurd ⟨(Option.some.inj hfd).symm, hn⟩ hboth
    refine ⟨fun d' n' => ?_, fun _ => hlink, ?_, fun d' _ hd' => ?_⟩
    · obtain heq | ⟨t, ht, hlink⟩ := hlink d' n'
      · exact Or.inl heq
      · exact Or.inr ⟨t, ht, Or.inl hlink⟩
    · rintro - d' n' t ⟨hd, rfl, rfl⟩
      cases hd
      rw [hset, if_pos ⟨rfl, rfl⟩]
    · have hne := hfree d' hd'
      rw [hentry d' fun heq => hne (congrArg some heq.symm)]
      exact hentries d' hne

/-- **A directory is opened**, if need be after it is made; no link changes. -/
theorem open_or_mkdir_does (e : Env) (name : Name) (u : Units)
    (hname : name = targetWants ∨ ∃ n t, A name n t) (res : Bool) :
    Does A (fun _ _ _ => False) res u (open_or_mkdir e name u).2 ∧
      ∀ d, (open_or_mkdir e name u).1 = some d → d = name := by
  have hopen : ∀ u₁ d, (openat e name u₁).1 = some d → d = name := by
    intro u₁ d h
    unfold openat at h
    split at h
    · exact (Option.some.inj h).symm
    · cases h
  have hmkdir : (∀ d n, (mkdirat e name u.next).2.slot d n = u.slot d n) ∧
      ∀ d, d ≠ name → (mkdirat e name u.next).2.entry d = u.entry d := by
    unfold mkdirat
    split
    · split
      · rename_i habsent
        refine ⟨fun d n => ?_, fun d hne => Function.update_of_ne hne _ _⟩
        have habsent : u.entry name = .absent := habsent
        by_cases hd : d = name
        · subst hd
          simp [Units.slot, habsent]
        · simp [Units.slot, Function.update_of_ne hd]
      · exact ⟨fun _ _ => rfl, fun _ _ => rfl⟩
    · exact ⟨fun _ _ => rfl, fun _ _ => rfl⟩
  have hmade : Does A (fun _ _ _ => False) res u (mkdirat e name u.next).2 := by
    refine .same hmkdir.1 fun d hd hfree => hmkdir.2 d ?_
    rintro rfl
    obtain htarget | ⟨n, t, ht⟩ := hname
    · exact hd htarget
    · exact hfree n t ht
  unfold open_or_mkdir openOrMkdir
  split
  · rename_i fd u₁ hrun
    have hu : u₁ = u.next := (congrArg Prod.snd hrun).symm
    subst hu
    refine ⟨.same (fun _ _ => rfl) fun _ _ _ => rfl, fun d hd => ?_⟩
    cases hd
    exact hopen u fd (congrArg Prod.fst hrun)
  · rename_i u₁ hrun
    have hu : u₁ = u.next := (congrArg Prod.snd hrun).symm
    subst hu
    split
    · rename_i errno u₂ hmk
      rw [hmk] at hmade
      split
      · exact ⟨hmade, fun d hd => (by cases hd)⟩
      · exact ⟨⟨hmade.within, hmade.sets, hmade.made, hmade.entries⟩, hopen u₂⟩
    · rename_i u₂ hmk
      rw [hmk] at hmade
      exact ⟨⟨hmade.within, hmade.sets, hmade.made, hmade.entries⟩, hopen u₂⟩

/-! ## The files -/

/-- **The lines of a mapped file** reach the handler, unless the walk leaves the mapping. -/
theorem walk_spec {σ : Type} (padded : Bool) {handler : Text → σ → Bool × σ}
    (hempty : ∀ d, handler [] d = (true, d)) (ptr : Text) (data : σ) :
    walk padded handler ptr data = some (callAll handler (keptLines ptr) data) ∨
      padded = false ∧ walk padded handler ptr data = none := by
  induction hn : ptr.length using Nat.strong_induction_on generalizing ptr data with
  | _ n ih =>
    subst hn
    rw [walk, ← (blank_dropWhile ptr).1]
    by_cases hptr : ptr = []
    · subst hptr
      exact Or.inl rfl
    rw [if_neg hptr]
    obtain hnil | ⟨c, t, hp, hc⟩ := dropWhile_cases ptr
    · simp only [hnil]
      cases padded with
      | true => exact Or.inl (congrArg some (hempty data))
      | false => exact Or.inr ⟨rfl, rfl⟩
    · have hlt := endOfLine_length_lt hp.symm (List.cons_ne_nil c t)
      have hnext := fun data => ih _ hlt (endOfLine (c :: t)) data rfl
      simp only [hp, (line_spec hc).1]
      rw [dif_neg (List.cons_ne_nil c t), charAt_cons_zero]
      by_cases hhash : c = '#'
      · rw [if_pos hhash, if_pos hhash, List.nil_append]
        exact hnext data
      · rw [if_neg hhash, if_neg hhash, List.singleton_append, callAll]
        cases hcall : handler (trimmed (c :: t)) data with
        | mk ok data' =>
          cases ok with
          | false => exact Or.inl rfl
          | true => exact hnext data'

/-- The handler is called on the lines that count, or the file is refused. -/
theorem read_file_spec {σ : Type} {file : File} {handler : Text → σ → Bool × σ} {data : σ}
    {r : Bool × σ} (hempty : ∀ d, handler [] d = (true, d))
    (h : read_file file handler data = some r) :
    r = (false, data) ∨ r = callAll handler (linesOf file) data := by
  unfold read_file at h
  split at h
  · cases h
    exact Or.inr rfl
  · cases h
    exact Or.inl rfl
  · cases h
    exact Or.inl rfl
  · cases h
    exact Or.inl rfl
  · rename_i content hne
    obtain hrun | ⟨-, hnone⟩ := walk_spec (content.length % pageSize != 0) hempty content data
    · rw [hrun] at h
      cases h
      exact Or.inr rfl
    · rw [hnone] at h
      cases h

/-- The effects of the lines come together. -/
theorem callAll_does {σ : Type} {handler : Text → σ → Bool × σ} (units : σ → Units)
    {Good : σ → Prop} {M : Text → Links} (hA : ∀ d n t t', A d n t → A d n t' → t = t')
    {lines : List Text} (hM : ∀ m ∈ lines, ∀ d n t, M m d n t → A d n t)
    (hstep : ∀ m ∈ lines, ∀ data, Good data → Good (handler m data).2 ∧
      Does A (M m) (handler m data).1 (units data) (units (handler m data).2))
    {data : σ} (hgood : Good data) :
    Does A (fun d n t => ∃ m ∈ lines, M m d n t) (callAll handler lines data).1 (units data)
      (units (callAll handler lines data).2) := by
  induction lines generalizing data with
  | nil =>
    refine (Does.refl A true _).mono fun d n t h => ?_
    obtain ⟨m, hm, -⟩ := h
    exact absurd hm List.not_mem_nil
  | cons m lines ih =>
    obtain ⟨hgood', hdoes⟩ := hstep m List.mem_cons_self data hgood
    have hrest := @ih (fun m' hm' => hM m' (List.mem_cons_of_mem _ hm'))
      (fun m' hm' => hstep m' (List.mem_cons_of_mem _ hm')) (handler m data).2 hgood'
    rw [callAll]
    cases hcall : handler m data with
    | mk ok data' =>
      rw [hcall] at hdoes hrest
      cases ok with
      | false => exact hdoes.fail
      | true =>
        have hboth := hdoes.trans hA (hM m List.mem_cons_self) hrest
        rw [Bool.true_and] at hboth
        refine hboth.mono fun d n t h => ?_
        obtain ⟨m', hm', hlink⟩ := h
        obtain rfl | hm' := List.mem_cons.1 hm'
        · exact Or.inl hlink
        · exact Or.inr ⟨m', hm', hlink⟩

/-- The links of one line of `mark`. -/
def MarkLinks (service_name : Name) (m : Text) : Links := fun d n t =>
  (d = targetWants ∧ n = (generate (bytes m) .markTarget).text ∧ t = markUnit) ∨
    (d = (generate (bytes m) .markWants).text ∧ n = service_name ∧ t = serviceUnit)

/-- A link in the directory behind the descriptor, if that is open. -/
theorem link_does (e : Env) {target name dir : Name} {fd : Option Name}
    (hfd : ∀ d, fd = some d → d = dir) (hA : A dir name target) (u : Units) :
    Does A (fun d n t => d = dir ∧ n = name ∧ t = target) (xsymlinkat e target fd name u).1 u
      (xsymlinkat e target fd name u).2 := by
  have hdoes : Does A (fun d n t => fd = some d ∧ n = name ∧ t = target)
      (xsymlinkat e target fd name u).1 u (xsymlinkat e target fd name u).2 :=
    xsymlinkat_does e u fun d hd => hfd d hd ▸ hA
  cases fd with
  | none => exact hdoes.fail
  | some d =>
    obtain rfl := hfd d rfl
    exact hdoes.mono fun d' n t ⟨hd, hn, ht⟩ => ⟨congrArg some hd.symm, hn, ht⟩

theorem mark_handler_does (hA : ∀ d n t t', A d n t → A d n t' → t = t') (e : Env)
    {fd : Option Name} (hfd : ∀ d, fd = some d → d = targetWants) {service_name : Name} {m : Text}
    (hm : ∀ d n t, MarkLinks service_name m d n t → A d n t) (hne : m ≠ []) (u : Units) :
    Does A (MarkLinks service_name m) (mark_handler e fd service_name m u).1 u
      (mark_handler e fd service_name m u).2 := by
  have hlen : ¬ m.length = 0 := fun h => hne (List.length_eq_zero_iff.1 h)
  have htarget : A targetWants (generate (bytes m) .markTarget).text markUnit :=
    hm _ _ _ (Or.inl ⟨rfl, rfl, rfl⟩)
  have hwants : A (generate (bytes m) .markWants).text service_name serviceUnit :=
    hm _ _ _ (Or.inr ⟨rfl, rfl, rfl⟩)
  unfold mark_handler
  rw [if_neg hlen]
  have hfirst := link_does e hfd htarget u
  cases hlinked : xsymlinkat e markUnit fd (generate (bytes m) .markTarget).text u with
  | mk linked u₁ =>
  rw [hlinked] at hfirst
  obtain ⟨hdir, hname⟩ := open_or_mkdir_does (A := A) e (generate (bytes m) .markWants).text u₁
    (Or.inr ⟨_, _, hwants⟩) true
  have hfirst := hfirst.trans hA (fun d n t ⟨hd, hn, ht⟩ => by subst hd hn ht; exact htarget) hdir
  dsimp only
  cases hopened : open_or_mkdir e (generate (bytes m) .markWants).text u₁ with
  | mk markdir u₂ =>
  rw [hopened] at hfirst hname
  cases markdir with
  | none => exact hfirst.fail
  | some markdir =>
    obtain rfl := hname markdir rfl
    have hsecond := link_does e
      (fun d (hd : some (generate (bytes m) .markWants).text = some d) =>
        (Option.some.inj hd).symm) hwants u₂
    have hboth := hfirst.trans hA (fun d n t hn => ?_) hsecond
    · rw [Bool.and_true] at hboth
      exact hboth.mono fun d n t h => h.imp Or.inl id
    · obtain ⟨rfl, rfl, rfl⟩ | hfalse := hn
      · exact htarget
      · exact hfalse.elim

/-- The link of one line of `depends`. -/
def DependsLinks (service_name : Name) (m : Text) : Links := fun d n t =>
  d = service_name ∧ n = (generate (bytes m) .dependency).text ∧ t = serviceUnit

theorem depends_handler_does (hA : ∀ d n t t', A d n t → A d n t' → t = t') (e : Env)
    {service_name : Name} {m : Text} (hm : ∀ d n t, DependsLinks service_name m d n t → A d n t)
    (hne : m ≠ []) {s : Option Name × Units} (hs : ∀ d, s.1 = some d → d = service_name) :
    (∀ d, (depends_handler e service_name m s).2.1 = some d → d = service_name) ∧
      Does A (DependsLinks service_name m) (depends_handler e service_name m s).1 s.2
        (depends_handler e service_name m s).2.2 := by
  have hlen : ¬ m.length = 0 := fun h => hne (List.length_eq_zero_iff.1 h)
  have hlink : A service_name (generate (bytes m) .dependency).text serviceUnit :=
    hm _ _ _ ⟨rfl, rfl, rfl⟩
  have hthen : ∀ u, Does A (DependsLinks service_name m) _ u _ := fun u =>
    link_does e (fun d (hd : some service_name = some d) => (Option.some.inj hd).symm) hlink u
  unfold depends_handler
  rw [if_neg hlen]
  obtain ⟨fd, u⟩ := s
  cases fd with
  | some fd =>
    obtain rfl := hs fd rfl
    exact ⟨fun d hd => (Option.some.inj hd).symm, hthen u⟩
  | none =>
    obtain ⟨hdir, hname⟩ := open_or_mkdir_does (A := A) e service_name u (Or.inr ⟨_, _, hlink⟩) true
    dsimp only
    cases hopened : open_or_mkdir e service_name u with
    | mk fd u₁ =>
    rw [hopened] at hdir hname
    cases fd with
    | none => exact ⟨fun d hd => (by cases hd), hdir.fail⟩
    | some fd =>
      obtain rfl := hname fd rfl
      have hboth := hdir.trans hA (fun d n t h => h.elim) (hthen u₁)
      rw [Bool.true_and] at hboth
      exact ⟨fun d hd => (Option.some.inj hd).symm, hboth.mono fun d n t h => Or.inr h⟩

end Does

/-! ## The whole run -/

/-- The links that are described for one vserver. -/
def LinksOf (ent : Dirent) : Links := fun d n t =>
  (∃ m ∈ linesOf ent.mark, MarkLinks (generate ent.d_name .service).text m d n t) ∨
    ∃ m ∈ linesOf ent.depends, DependsLinks (generate ent.d_name .requires).text m d n t

theorem described_iff {ents : List Dirent} {d n t : Name} :
    Described ents d n t ↔ ∃ ent ∈ ents, ent.used ∧ LinksOf ent d n t := by
  constructor
  · intro h
    cases h with
    | target hent hused hm => exact ⟨_, hent, hused, Or.inl ⟨_, hm, Or.inl ⟨rfl, rfl, rfl⟩⟩⟩
    | wants hent hused hm => exact ⟨_, hent, hused, Or.inl ⟨_, hm, Or.inr ⟨rfl, rfl, rfl⟩⟩⟩
    | requires hent hused hm => exact ⟨_, hent, hused, Or.inr ⟨_, hm, rfl, rfl, rfl⟩⟩
  · rintro ⟨ent, hent, hused, ⟨m, hm, ⟨rfl, rfl, rfl⟩ | ⟨rfl, rfl, rfl⟩⟩ | ⟨m, hm, rfl, rfl, rfl⟩⟩
    · exact .target hent hused hm
    · exact .wants hent hused hm
    · exact .requires hent hused hm

/-- The directory decides what a link leads to. -/
theorem described_target {ents : List Dirent} {d n t : Name} (h : Described ents d n t) :
    t = if d = targetWants then markUnit else serviceUnit := by
  have hne : ∀ (data : Name) {u : UnitName}, (prefixOf u).take 8 ≠ targetWants.take 8 →
      (prefixOf u).length ≥ 8 → (generate data u).text ≠ targetWants := by
    intro data u hpre hlen heq
    rw [generate_text, List.append_assoc] at heq
    have htake := congrArg (List.take 8) heq
    rw [List.take_append_of_le_length hlen] at htake
    exact hpre htake
  cases h with
  | target => rw [if_pos rfl]
  | wants => rw [if_neg (hne _ (by decide) (by decide))]
  | requires => rw [if_neg (hne _ (by decide) (by decide))]

theorem keptLines_ne_nil {content m : Text} (h : m ∈ keptLines content) : m ≠ [] := by
  rw [keptLines, List.mem_filter, Bool.and_eq_true, bne_iff_ne] at h
  exact h.2.1

theorem linesOf_ne_nil {file : File} {m : Text} (h : m ∈ linesOf file) : m ≠ [] := by
  cases file with
  | regular content => exact keptLines_ne_nil h
  | _ => exact absurd h List.not_mem_nil

section Run

variable {A : Links}

theorem generate_units_for_vserver_does (hA : ∀ d n t t', A d n t → A d n t' → t = t') {e : Env}
    {fd : Option Name} (hfd : ∀ d, fd = some d → d = targetWants) {ent : Dirent}
    (hin : ent.used → ∀ d n t, LinksOf ent d n t → A d n t)
    (hhead : ent.d_name.head? ≠ some 46)
    (hdir : ent.isDir = true) (hopens : ent.opens = true) {u u' : Units} {res : Bool}
    (h : generate_units_for_vserver e fd ent u = some (res, u')) :
    Does A (fun d n t => ent.used ∧ LinksOf ent d n t) res u u' := by
  have hskip : ¬ ent.used → Does A (fun d n t => ent.used ∧ LinksOf ent d n t) true u u :=
    fun hunused => (Does.refl A true u).mono fun d n t hlink => hunused hlink.1
  unfold generate_units_for_vserver at h
  split at h
  · rename_i hignored
    cases h
    refine hskip fun hused => ?_
    obtain ⟨p, hp, hmatch⟩ := List.any_eq_true.1 hignored
    rw [hused.2.2.2.1 p hp] at hmatch
    cases hmatch
  rename_i hignored
  split at h
  · rename_i hdisabled
    cases h
    refine hskip fun hused => ?_
    rw [hused.2.2.2.2.1] at hdisabled
    cases hdisabled
  rename_i hdisabled
  split at h
  · rename_i hvdir
    cases h
    refine hskip fun hused => ?_
    rw [hused.2.2.2.2.2] at hvdir
    cases hvdir
  rename_i hvdir
  have hused : ent.used := by
    refine ⟨hhead, hdir, hopens, fun p hp => ?_, by simpa using hdisabled, by simpa using hvdir⟩
    rw [← Bool.not_eq_true]
    exact fun hmatch => hignored (List.any_eq_true.2 ⟨p, hp, hmatch⟩)
  have hlinks := hin hused
  split at h
  · cases h
  rename_i res₁ u₁ hmark
  have hfirst : Does A (fun d n t => ∃ m ∈ linesOf ent.mark,
      MarkLinks (generate ent.d_name .service).text m d n t) res₁ u u₁ := by
    obtain hr | hr := read_file_spec (fun _ => rfl) hmark
    · cases hr
      exact (Does.refl A false u).fail
    · have hall := @callAll_does A _ (mark_handler e fd (generate ent.d_name .service).text) id
        (fun _ => True) (MarkLinks (generate ent.d_name .service).text) hA (linesOf ent.mark)
        (fun m hm d n t hlink => hlinks d n t (Or.inl ⟨m, hm, hlink⟩))
        (fun m hm u _ => ⟨trivial, mark_handler_does hA e hfd
          (fun d n t hlink => hlinks d n t (Or.inl ⟨m, hm, hlink⟩)) (linesOf_ne_nil hm) u⟩) u trivial
      rw [← hr] at hall
      exact hall
  split at h
  · cases h
  rename_i res₂ fd₂ u₂ hdepends
  cases h
  have hsecond : Does A (fun d n t => ∃ m ∈ linesOf ent.depends,
      DependsLinks (generate ent.d_name .requires).text m d n t) res₂ u₁ u' := by
    obtain hr | hr := read_file_spec (fun _ => rfl) hdepends
    · cases hr
      exact (Does.refl A false _).fail
    · have hall := @callAll_does A _ (depends_handler e (generate ent.d_name .requires).text)
        Prod.snd (fun s => ∀ d, s.1 = some d → d = (generate ent.d_name .requires).text)
        (DependsLinks (generate ent.d_name .requires).text) hA (linesOf ent.depends)
        (fun m hm d n t hlink => hlinks d n t (Or.inr ⟨m, hm, hlink⟩))
        (fun m hm s hs => depends_handler_does hA e
          (fun d n t hlink => hlinks d n t (Or.inr ⟨m, hm, hlink⟩)) (linesOf_ne_nil hm) hs)
        (none, u₁) (fun d hd => (by cases hd))
      rw [← hr] at hall
      exact hall
  have hboth := hfirst.trans hA (fun d n t hlink => hlinks d n t (Or.inl hlink)) hsecond
  exact hboth.mono fun d n t hlink => hlink.2

theorem visit_does (hA : ∀ d n t t', A d n t → A d n t' → t = t') {e : Env} {fd : Option Name}
    (hfd : ∀ d, fd = some d → d = targetWants) {readdirFails : Bool} {ents : List Dirent}
    (hin : ∀ d n t, Described ents d n t → A d n t) {rc res : Bool} {u u' : Units}
    (h : visit e fd readdirFails ents rc u = some (res, u')) :
    ∃ ok, Does A (Described ents) ok u u' ∧ (res = true → rc = true ∧ ok = true) := by
  have hnone : ∀ {ents : List Dirent}, ents = [] → ∀ d n t, ¬ Described ents d n t := by
    rintro ents rfl d n t hlink
    obtain ⟨ent, hent, -⟩ := described_iff.1 hlink
    exact absurd hent List.not_mem_nil
  induction ents generalizing rc u with
  | nil =>
    cases h
    refine ⟨true, (Does.refl A true _).mono fun d n t hlink => hnone rfl d n t hlink, fun hres => ?_⟩
    cases readdirFails with
    | true => cases hres
    | false => exact ⟨hres, rfl⟩
  | cons ent ents ih =>
    have htail : ∀ d n t, Described ents d n t → A d n t := fun d n t hlink => hin d n t (by
      obtain ⟨ent', hent', hrest⟩ := described_iff.1 hlink
      exact described_iff.2 ⟨ent', List.mem_cons_of_mem _ hent', hrest⟩)
    have hskip : ¬ ent.used → ∀ {ok : Bool} {u₁ u₂ : Units}, Does A (Described ents) ok u₁ u₂ →
        Does A (Described (ent :: ents)) ok u₁ u₂ := fun hunused ok u₁ u₂ hdoes =>
      hdoes.mono fun d n t hlink => by
        obtain ⟨ent', hent', hused, hrest⟩ := described_iff.1 hlink
        obtain rfl | hent' := List.mem_cons.1 hent'
        · exact absurd hused hunused
        · exact described_iff.2 ⟨ent', hent', hused, hrest⟩
    unfold visit at h
    split at h
    · rename_i hhead
      obtain ⟨ok, hdoes, hok⟩ := ih htail h
      exact ⟨ok, hskip (fun hused => hused.1 hhead) hdoes, hok⟩
    rename_i hhead
    split at h
    · rename_i hdir
      obtain ⟨ok, hdoes, hok⟩ := ih htail h
      exact ⟨ok, hskip (fun hused => by rw [hused.2.1] at hdir; cases hdir) hdoes, hok⟩
    rename_i hdir
    split at h
    · rename_i hopens
      obtain ⟨ok, hdoes, hok⟩ := ih htail h
      exact ⟨ok, hskip (fun hused => by rw [hused.2.2.1] at hopens; cases hopens) hdoes, hok⟩
    rename_i hopens
    split at h
    · cases h
    rename_i res₁ u₁ hvserver
    have hfirst := generate_units_for_vserver_does hA hfd
      (fun (hused : ent.used) d n t hlink => hin d n t (described_iff.2 ⟨ent, List.mem_cons_self, hused, hlink⟩))
      hhead (by simpa using hdir) (by simpa using hopens) hvserver
    obtain ⟨ok, hdoes, hok⟩ := ih htail h
    refine ⟨res₁ && ok, ?_, fun hres => ?_⟩
    · refine (hfirst.trans hA (fun d n t hlink => hin d n t (described_iff.2
        ⟨ent, List.mem_cons_self, hlink⟩)) hdoes).mono fun d n t hlink => ?_
      obtain ⟨ent', hent', hused, hrest⟩ := described_iff.1 hlink
      obtain rfl | hent' := List.mem_cons.1 hent'
      · exact Or.inl ⟨hused, hrest⟩
      · exact Or.inr (described_iff.2 ⟨ent', hent', hused, hrest⟩)
    · obtain ⟨hboth, htrue⟩ := hok hres
      rw [Bool.and_eq_true] at hboth
      exact ⟨hboth.1, by rw [hboth.2, htrue]; rfl⟩

end Run

/-- The last page of the file has room for a NUL. -/
def Padded (file : File) : Prop := ∀ content, file = .regular content → content.length % pageSize ≠ 0

theorem read_file_returns {σ : Type} {file : File} (hfile : Padded file)
    {handler : Text → σ → Bool × σ} (hempty : ∀ d, handler [] d = (true, d)) (data : σ) :
    ∃ r, read_file file handler data = some r := by
  cases file with
  | regular content =>
    cases content with
    | nil => exact ⟨_, rfl⟩
    | cons c t =>
      obtain hrun | ⟨hpad, -⟩ :=
        walk_spec ((c :: t).length % pageSize != 0) hempty (c :: t) data
      · exact ⟨_, hrun⟩
      · exact absurd (by simpa using hpad) (hfile _ rfl)
  | _ => exact ⟨_, rfl⟩

theorem generate_units_for_vserver_returns (e : Env) (fd : Option Name) {ent : Dirent}
    (hmark : Padded ent.mark) (hdepends : Padded ent.depends) (u : Units) :
    ∃ r, generate_units_for_vserver e fd ent u = some r := by
  unfold generate_units_for_vserver
  split
  · exact ⟨_, rfl⟩
  split
  · exact ⟨_, rfl⟩
  split
  · exact ⟨_, rfl⟩
  obtain ⟨r, hr⟩ := @read_file_returns _ _ hmark
    (mark_handler e fd (generate ent.d_name .service).text) (fun _ => rfl) u
  rw [hr]
  dsimp only
  obtain ⟨r', hr'⟩ := @read_file_returns _ _ hdepends
    (depends_handler e (generate ent.d_name .requires).text) (fun _ => rfl) (none, r.2)
  rw [hr']
  exact ⟨_, rfl⟩

theorem visit_returns (e : Env) (fd : Option Name) (readdirFails : Bool) {ents : List Dirent}
    (hents : ∀ ent ∈ ents, Padded ent.mark ∧ Padded ent.depends) (rc : Bool) (u : Units) :
    ∃ r, visit e fd readdirFails ents rc u = some r := by
  induction ents generalizing rc u with
  | nil => exact ⟨_, rfl⟩
  | cons ent ents ih =>
    have hrest := ih fun ent' h => hents ent' (List.mem_cons_of_mem _ h)
    obtain ⟨hmark, hdepends⟩ := hents ent List.mem_cons_self
    obtain ⟨r, hr⟩ := generate_units_for_vserver_returns e fd hmark hdepends u
    unfold visit
    split
    · exact hrest rc u
    split
    · exact hrest rc u
    split
    · exact hrest rc u
    rw [hr]
    exact hrest _ _

/-- The specification of `generate_units`. -/
theorem generate_units_spec {e : Env} {readdirFails : Bool} {ents : List Dirent} {u u' : Units}
    {res : Bool} (h : generate_units e readdirFails ents u = some (res, u')) :
    (∀ d n, (∀ t, ¬ Described ents d n t) → u'.slot d n = u.slot d n) ∧
    (∀ d, d ≠ targetWants → (∀ n t, ¬ Described ents d n t) → u'.entry d = u.entry d) ∧
    ∀ d n t, Described ents d n t → u'.slot d n = .link t ∨
      res = false ∧ (u'.slot d n = u.slot d n ∨ u'.slot d n = .absent) := by
  have hA : ∀ d n t t', Described ents d n t → Described ents d n t' → t = t' :=
    fun d n t t' ht ht' => (described_target ht).trans (described_target ht').symm
  unfold generate_units at h
  obtain ⟨hdir, hname⟩ := open_or_mkdir_does (A := Described ents) e targetWants u (Or.inl rfl) true
  cases hopened : open_or_mkdir e targetWants u with
  | mk fd u₁ =>
  rw [hopened] at h hdir hname
  obtain ⟨ok, hdoes, hok⟩ := visit_does hA hname (fun _ _ _ hlink => hlink) h
  have hall := hdir.trans hA (fun _ _ _ hlink => hlink.elim) hdoes
  refine ⟨fun d n hfree => ?_, hall.entries, fun d n t ht => ?_⟩
  · obtain heq | ⟨t, ht, -⟩ := hall.within d n
    · exact heq
    · exact absurd ht (hfree t)
  · cases res with
    | true =>
      refine Or.inl (hall.made ?_ d n t (Or.inr ht))
      rw [(hok rfl).2]
      rfl
    | false =>
      obtain heq | ⟨t', ht', hlink | hgone⟩ := hall.within d n
      · exact Or.inr ⟨rfl, Or.inl heq⟩
      · exact Or.inl (by rw [hlink, hA d n t' t ht' ht])
      · exact Or.inr ⟨rfl, Or.inr hgone⟩

/-- **The units are the described ones.**  The run returns if no file fills its last page.  Whatever
calls fail, names that are not described stay as they are, and so do directories without described
links; what is described is linked, or, when the run says that it has failed, left alone or
missing. -/
theorem generate_units_exact (e : Env) (readdirFails : Bool) (ents : List Dirent) (u : Units) :
    ((∀ ent ∈ ents, Padded ent.mark ∧ Padded ent.depends) →
      ∃ r, generate_units e readdirFails ents u = some r) ∧
    ∀ res u', generate_units e readdirFails ents u = some (res, u') →
      (∀ d n, (∀ t, ¬ Described ents d n t) → u'.slot d n = u.slot d n) ∧
      (∀ d, d ≠ targetWants → (∀ n t, ¬ Described ents d n t) → u'.entry d = u.entry d) ∧
      ∀ d n t, Described ents d n t → u'.slot d n = .link t ∨
        res = false ∧ (u'.slot d n = u.slot d n ∨ u'.slot d n = .absent) := by
  refine ⟨fun hents => ?_, fun res u' h => generate_units_spec h⟩
  unfold generate_units
  exact visit_returns e _ readdirFails hents true _

/-- A vserver with one mark. -/
def marked (name : Name) : Dirent where
  d_name := name
  d_type := .DT_DIR
  s_isdir := true
  opens := true
  disabled := false
  vdir := true
  mark := .regular ['m']
  depends := .missing

def noUnits : Units := ⟨fun _ => .absent, 0⟩

/-- Every call succeeds. -/
def allWork : Env := ⟨fun _ => true⟩

theorem linesOf_marked (name : Name) : linesOf (marked name).mark = [['m']] := by
  show keptLines ['m'] = [['m']]
  decide

/-- The mark of each vserver is linked, one vserver after the other. -/
def markAll (fd : Option Name) : List Name → Bool → Units → Bool × Units
  | [], rc, u => (rc, u)
  | name :: names, rc, u =>
    match callAll (mark_handler allWork fd (generate name .service).text) [['m']] u with
    | (res, u) => markAll fd names (rc && res) u

theorem generate_units_for_vserver_marked (fd : Option Name) {name : Name}
    (hname : ∀ p ∈ ignorePattern, fnmatch p name = false) (u : Units) :
    generate_units_for_vserver allWork fd (marked name) u =
      some (callAll (mark_handler allWork fd (generate name .service).text) [['m']] u) := by
  have hread : read_file (marked name).mark
      (mark_handler allWork fd (generate name .service).text) u =
        some (callAll (mark_handler allWork fd (generate name .service).text) [['m']] u) := by
    obtain hrun | ⟨hfalse, -⟩ := @walk_spec _ (['m'].length % pageSize != 0)
      (mark_handler allWork fd (generate name .service).text) (fun _ => rfl) ['m'] u
    · exact hrun
    · exact absurd hfalse (by decide)
  have hdepends : ∀ (handler : Text → Option Name × Units → Bool × (Option Name × Units)) s,
      read_file (marked name).depends handler s = some (true, s) := fun _ _ => rfl
  have hkept : (ignorePattern.any fun p => fnmatch p name) = false :=
    List.any_eq_false.2 fun p hp => Bool.not_eq_true _ ▸ hname p hp
  unfold generate_units_for_vserver
  rw [show (marked name).d_name = name from rfl, hkept, hread]
  simp only [hdepends, Bool.and_true]
  rfl

theorem visit_marked (fd : Option Name) {names : List Name}
    (hnames : ∀ name ∈ names,
      name.head? ≠ some 46 ∧ ∀ p ∈ ignorePattern, fnmatch p name = false) (rc : Bool) (u : Units) :
    visit allWork fd false (names.map marked) rc u = some (markAll fd names rc u) := by
  induction names generalizing rc u with
  | nil => rfl
  | cons name names ih =>
    obtain ⟨hdot, hkept⟩ := hnames name List.mem_cons_self
    have hrest := ih fun name' h => hnames name' (List.mem_cons_of_mem _ h)
    have hdot' : (marked name).d_name.head? ≠ some 46 := hdot
    rw [List.map_cons, visit, if_neg hdot', if_neg (by simp [marked, Dirent.isDir]),
      if_neg (by simp [marked]), generate_units_for_vserver_marked fd hkept]
    exact hrest _ _

theorem generate_units_marked {names : List Name}
    (hnames : ∀ name ∈ names,
      name.head? ≠ some 46 ∧ ∀ p ∈ ignorePattern, fnmatch p name = false) (u : Units) :
    generate_units allWork false (names.map marked) u =
      some (markAll (open_or_mkdir allWork targetWants u).1 names true
        (open_or_mkdir allWork targetWants u).2) :=
  visit_marked _ hnames true _

theorem generate_units_exact_marked : ∃ u',
    generate_units allWork false [marked (ascii "a")] noUnits = some (true, u') ∧
      u'.slot targetWants (generate (ascii "m") .markTarget).text = .link markUnit := by
  obtain ⟨⟨res, u'⟩, h⟩ := (generate_units_exact allWork false [marked (ascii "a")] noUnits).1
    (by
      intro ent hent
      obtain rfl := List.mem_singleton.1 hent
      refine ⟨fun content hcontent => ?_, fun content hcontent => by cases hcontent⟩
      cases hcontent
      decide)
  have hres : (generate_units allWork false [marked (ascii "a")] noUnits).map Prod.fst =
      some true := by
    rw [show [marked (ascii "a")] = [ascii "a"].map marked from rfl,
      generate_units_marked (by decide)]
    rfl
  rw [h] at hres
  obtain rfl : res = true := Option.some.inj hres
  refine ⟨u', h, ?_⟩
  have hused : (marked (ascii "a")).used := by
    refine ⟨by decide, rfl, rfl, by decide, rfl, rfl⟩
  have hlink := ((generate_units_exact _ _ _ _).2 _ _ h).2.2 _ _ _
    (.target (m := ['m']) List.mem_cons_self hused (by rw [linesOf_marked]; decide))
  exact hlink.resolve_right fun hfalse => (by cases hfalse.1)

/-- **Neither the order of the directory nor an earlier run matters.**  Two runs that succeed over
the same vservers lead to the same links, the second one also from where the first one has ended. -/
theorem generate_units_order {e e' : Env} {ents ents' : List Dirent} {u u₁ u₂ u₃ : Units}
    (hsame : ∀ ent, ent ∈ ents ↔ ent ∈ ents')
    (h₁ : generate_units e false ents u = some (true, u₁))
    (h₂ : generate_units e' false ents' u = some (true, u₂))
    (h₃ : generate_units e' false ents' u₁ = some (true, u₃)) (d n : Name) :
    u₂.slot d n = u₁.slot d n ∧ u₃.slot d n = u₁.slot d n := by
  have hiff : ∀ t, Described ents' d n t ↔ Described ents d n t := fun t => by
    rw [described_iff, described_iff]
    simp only [hsame]
  obtain ⟨hout₁, -, hin₁⟩ := generate_units_spec h₁
  obtain ⟨hout₂, -, hin₂⟩ := generate_units_spec h₂
  obtain ⟨hout₃, -, hin₃⟩ := generate_units_spec h₃
  by_cases hdesc : ∃ t, Described ents d n t
  · obtain ⟨t, ht⟩ := hdesc
    have hlink₁ := (hin₁ d n t ht).resolve_right fun h => (by cases h.1)
    have hlink₂ := (hin₂ d n t ((hiff t).2 ht)).resolve_right fun h => (by cases h.1)
    have hlink₃ := (hin₃ d n t ((hiff t).2 ht)).resolve_right fun h => (by cases h.1)
    exact ⟨by rw [hlink₂, hlink₁], by rw [hlink₃, hlink₁]⟩
  · have hfree : ∀ t, ¬ Described ents d n t := fun t ht => hdesc ⟨t, ht⟩
    have hfree' : ∀ t, ¬ Described ents' d n t := fun t ht => hfree t ((hiff t).1 ht)
    exact ⟨by rw [hout₂ d n hfree', hout₁ d n hfree], hout₃ d n hfree'⟩

/-- Two vservers with the same mark, in both orders; the last run finds the links of the first
one. -/
theorem generate_units_order_marked : ∃ u₁ u₂ u₃,
    generate_units allWork false [marked (ascii "a"), marked (ascii "b")] noUnits =
        some (true, u₁) ∧
      generate_units allWork false [marked (ascii "b"), marked (ascii "a")] noUnits =
        some (true, u₂) ∧
      generate_units allWork false [marked (ascii "b"), marked (ascii "a")] u₁ =
        some (true, u₃) ∧
      ∀ d n, u₂.slot d n = u₁.slot d n ∧ u₃.slot d n = u₁.slot d n := by
  have h₁ := @generate_units_marked [ascii "a", ascii "b"] (by decide) noUnits
  have h₂ := @generate_units_marked [ascii "b", ascii "a"] (by decide) noUnits
  have h₃ := @generate_units_marked [ascii "b", ascii "a"] (by decide)
    (markAll (open_or_mkdir allWork targetWants noUnits).1 [ascii "a", ascii "b"] true
      (open_or_mkdir allWork targetWants noUnits).2).2
  have hsame : ∀ ent, ent ∈ [marked (ascii "a"), marked (ascii "b")] ↔
      ent ∈ [marked (ascii "b"), marked (ascii "a")] := by
    intro ent
    simp only [List.mem_cons, List.not_mem_nil, or_false]
    exact or_comm
  exact ⟨_, _, _, h₁, h₂, h₃, fun d n => generate_units_order hsame h₁ h₂ h₃ d n⟩

end SystemdUnits
