import UtilVserver.Lib.CString
import Mathlib.Data.List.Induction

/-!
# Paths and directory trees

* `append` — `PathInfo_append`.
* `FileName`, `isDotfile` — the names `readdir` gives.
* `Dir` — the entries of a directory with all that is below them, in the order of `readdir`.
* `entries` — the same with the names that lead there, `pathOf` their path.
* `items`, `find` — one directory.
* `Reaches` — a directory is above a path, or is the path itself.
* `components` — the names in a path.

Principal results: `append_ne_root`, `entries_parent` and `components_append`.
-/

set_option autoImplicit false

namespace PathInfo

open CString

/-- Drop slashes at the end, but not the first character. -/
def dropSlashes (t : Text) : Text :=
  if 1 < t.length ∧ t.getLast? = some '/' then dropSlashes t.dropLast else t
  termination_by t.length
  decreasing_by simp; omega

/-- `PathInfo_append`. -/
def append (lhs rhs : Text) : Text :=
  let lhs := dropSlashes lhs
  if lhs = [] then rhs
  else (if lhs.getLast? = some '/' then lhs else lhs ++ ['/']) ++ rhs.dropWhile (· = '/')

def isFileName (t : Text) : Bool := t ≠ [] && !t.contains '/'

/-- A name in a directory. -/
structure FileName where
  text : Text
  valid : isFileName text = true

def isDotfile (d : Text) : Bool := d = ".".toList || d = "..".toList

/-- The entries of a directory: a name, what is there, the entries below it, and the rest. -/
inductive Dir (α : Type) where
  | nil
  | entry (name : FileName) (val : α) (sub : Dir α) (rest : Dir α)

/-- All paths below `dir`, with what is there; `.` and `..` are no entries. -/
def Dir.paths {α : Type} : Dir α → Text → List (Text × α)
  | .nil, _ => []
  | .entry name val sub rest, dir =>
    (if isDotfile name.text then [] else
      (append dir name.text, val) :: sub.paths (append dir name.text)) ++ rest.paths dir

/-- The names in a directory. -/
def Dir.names {α : Type} : Dir α → List FileName
  | .nil => []
  | .entry name _ _ rest => name :: rest.names

/-- The entries of a directory itself, with what is below each. -/
def Dir.items {α : Type} : Dir α → List (FileName × α × Dir α)
  | .nil => []
  | .entry name val sub rest => (name, val, sub) :: rest.items

/-- The entry of a name. -/
def Dir.find {α : Type} : Dir α → Text → Option (α × Dir α)
  | .nil, _ => none
  | .entry name val sub rest, t => if name.text = t then some (val, sub) else rest.find t

/-- How many directories are inside each other. -/
def Dir.depth {α : Type} : Dir α → Nat
  | .nil => 0
  | .entry _ _ sub rest => max (sub.depth + 1) rest.depth

/-- All that is below the directory with the names `k`. -/
def Dir.entries {α : Type} : Dir α → List FileName → List (List FileName × α)
  | .nil, _ => []
  | .entry name val sub rest, k =>
    (if isDotfile name.text then [] else
      (k ++ [name], val) :: sub.entries (k ++ [name])) ++ rest.entries k

/-- No name is used twice, and only directories have entries. -/
def Dir.Valid {α : Type} (isDir : α → Bool) : Dir α → Prop
  | .nil => True
  | .entry name val sub rest =>
    name ∉ rest.names ∧ (isDir val = false → sub = .nil) ∧ sub.Valid isDir ∧ rest.Valid isDir

/-- The path of the start, `PathInfo_append("", "/")`. -/
def rootPath : Text := "/".toList

def pathOf (k : List FileName) : Text := k.foldl (fun path name => append path name.text) rootPath

/-- Neither `.` nor `..` is among the names. -/
def Plain (k : List FileName) : Prop := ∀ name ∈ k, isDotfile name.text = false

def components (t : Text) : List Text := (t.splitOn '/').filter (· ≠ [])

/-- `dir` is `path` or a directory above it. -/
inductive Reaches (dir : Text) : Text → Prop
  | refl : Reaches dir dir
  | step {path : Text} (name : FileName) (h : Reaches dir path) :
      Reaches dir (append path name.text)

/-! ## Appending a name -/

theorem FileName.ne_nil (name : FileName) : name.text ≠ [] := by
  have h := name.valid
  simp only [isFileName, Bool.and_eq_true, decide_eq_true_eq] at h
  exact h.1

theorem FileName.no_slash (name : FileName) : '/' ∉ name.text := by
  have h := name.valid
  simp only [isFileName, Bool.and_eq_true, Bool.not_eq_true'] at h
  simpa using h.2

theorem FileName.dropWhile_slash (name : FileName) :
    name.text.dropWhile (· = '/') = name.text := by
  rw [List.dropWhile_eq_self_iff]
  intro hlen hhead
  have hmem := List.getElem_mem hlen
  simp only [decide_eq_true_eq] at hhead
  rw [hhead] at hmem
  exact name.no_slash hmem

/-- What `append` puts in front of a name. -/
def stem (dir : Text) : Text :=
  let dir := dropSlashes dir
  if dir = [] then [] else if dir.getLast? = some '/' then dir else dir ++ ['/']

theorem dropSlashes_eq {t : Text} (h : ¬ (1 < t.length ∧ t.getLast? = some '/')) :
    dropSlashes t = t := by
  rw [dropSlashes, if_neg h]

theorem append_name (dir : Text) (name : FileName) :
    append dir name.text = stem dir ++ name.text := by
  unfold append stem
  simp only [name.dropWhile_slash]
  split <;> simp

/-- A path that ends with a name is not the root. -/
theorem append_ne_root (dir : Text) (name : FileName) : append dir name.text ≠ ['/'] := by
  rw [append_name]
  intro h
  have hmem : ∃ c ∈ name.text, c ≠ '/' := by
    obtain ⟨c, hc⟩ := List.exists_mem_of_ne_nil _ name.ne_nil
    exact ⟨c, hc, fun he => name.no_slash (he ▸ hc)⟩
  obtain ⟨c, hc, hne⟩ := hmem
  have hin : c ∈ stem dir ++ name.text := List.mem_append_right _ hc
  rw [h, List.mem_singleton] at hin
  exact hne hin

theorem pathOf_snoc (k : List FileName) (name : FileName) :
    pathOf (k ++ [name]) = append (pathOf k) name.text := by
  simp [pathOf]

/-! ## The entries of a tree -/

section

variable {α : Type}

@[simp] theorem plain_nil : Plain [] := by simp [Plain]

theorem Plain.snoc {k : List FileName} {name : FileName} (hk : Plain k)
    (hname : isDotfile name.text = false) : Plain (k ++ [name]) := by
  intro name' hmem
  rcases List.mem_append.1 hmem with hmem | hmem
  · exact hk name' hmem
  · rwa [List.mem_singleton.1 hmem]

/-- The names of an entry start with those of the directory and one of its own. -/
theorem Dir.entries_key {d : Dir α} {k : List FileName} {e : List FileName × α}
    (h : e ∈ d.entries k) : ∃ name ∈ d.names, ∃ t, e.1 = k ++ name :: t ∧ Plain (name :: t) := by
  induction d generalizing k with
  | nil => cases h
  | entry name val sub rest ihsub ihrest =>
    rcases List.mem_append.1 h with h | h
    · by_cases hdot : isDotfile name.text = true
      · rw [if_pos hdot] at h
        cases h
      · rw [if_neg hdot] at h
        rw [Bool.not_eq_true] at hdot
        rcases List.mem_cons.1 h with rfl | h
        · exact ⟨name, List.mem_cons_self, [], rfl, plain_nil.snoc hdot⟩
        · obtain ⟨name', -, t, ht, hplain⟩ := ihsub h
          refine ⟨name, List.mem_cons_self, name' :: t, by simp [ht], ?_⟩
          intro x hx
          rcases List.mem_cons.1 hx with rfl | hx
          · exact hdot
          · exact hplain x hx
    · obtain ⟨name', hname, t, ht, hplain⟩ := ihrest h
      exact ⟨name', List.mem_cons_of_mem _ hname, t, ht, hplain⟩

theorem Dir.entries_plain {d : Dir α} {k : List FileName} (hk : Plain k)
    {e : List FileName × α} (h : e ∈ d.entries k) : Plain e.1 := by
  obtain ⟨name, -, t, ht, hplain⟩ := entries_key h
  rw [ht]
  intro x hx
  rcases List.mem_append.1 hx with hx | hx
  · exact hk x hx
  · exact hplain x hx

theorem Dir.entries_ne_nil {d : Dir α} {k : List FileName} {e : List FileName × α}
    (h : e ∈ d.entries k) : e.1 ≠ [] := by
  obtain ⟨name, -, t, ht, -⟩ := entries_key h
  simp [ht]

variable {name : FileName} {val : α} {sub rest : Dir α} {k : List FileName}

theorem Dir.entries_head (hdot : isDotfile name.text = false) :
    (k ++ [name], val) ∈ (Dir.entry name val sub rest).entries k := by
  simp [Dir.entries, hdot]

theorem Dir.entries_sub (hdot : isDotfile name.text = false) {e : List FileName × α}
    (he : e ∈ sub.entries (k ++ [name])) : e ∈ (Dir.entry name val sub rest).entries k := by
  simp [Dir.entries, hdot, he]

theorem Dir.entries_rest {e : List FileName × α} (he : e ∈ rest.entries k) :
    e ∈ (Dir.entry name val sub rest).entries k := by
  simp [Dir.entries, he]

theorem Dir.entries_cases {e : List FileName × α}
    (h : e ∈ (Dir.entry name val sub rest).entries k) :
    isDotfile name.text = false ∧ e ∈ (k ++ [name], val) :: sub.entries (k ++ [name]) ∨
      e ∈ rest.entries k := by
  rcases List.mem_append.1 h with h | h
  · split at h
    · cases h
    · rename_i hdot
      exact Or.inl ⟨by simpa using hdot, h⟩
  · exact Or.inr h

/-- What comes with an entry has its name. -/
theorem Dir.entries_own {e : List FileName × α}
    (h : e ∈ (k ++ [name], val) :: sub.entries (k ++ [name])) : ∃ t, e.1 = k ++ name :: t := by
  rcases List.mem_cons.1 h with rfl | h
  · exact ⟨[], rfl⟩
  · obtain ⟨name', -, t, ht, -⟩ := Dir.entries_key h
    exact ⟨name' :: t, by simp [ht]⟩

/-- Nothing is above an entry of the directory itself. -/
theorem Dir.entries_top {d : Dir α} {e : List FileName × α} (h : e ∈ d.entries k)
    (hpre : e.1 <+: k ++ [name]) : e.1 = k ++ [name] := by
  obtain ⟨name', -, t, ht, -⟩ := Dir.entries_key h
  refine hpre.eq_of_length_le ?_
  rw [ht]
  simp

/-- What is in an entry is below it. -/
theorem Dir.entries_below {d : Dir α} {e : List FileName × α} (h : e ∈ d.entries (k ++ [name])) :
    k ++ [name] <+: e.1 ∧ k ++ [name] ≠ e.1 := by
  obtain ⟨name', -, t, ht, -⟩ := Dir.entries_key h
  rw [ht]
  refine ⟨List.prefix_append _ _, fun heq => ?_⟩
  have hlen := congrArg List.length heq
  simp at hlen

/-- What comes with an entry and what comes after it have different names. -/
theorem Dir.entries_disjoint {isDir : α → Bool}
    (hvalid : (Dir.entry name val sub rest).Valid isDir) {e e' : List FileName × α}
    (he : e ∈ (k ++ [name], val) :: sub.entries (k ++ [name])) (he' : e' ∈ rest.entries k) :
    ¬ e.1 <+: e'.1 ∧ ¬ e'.1 <+: e.1 := by
  obtain ⟨t, ht⟩ := Dir.entries_own he
  obtain ⟨name', hname', t', ht', -⟩ := Dir.entries_key he'
  have hne : name ≠ name' := fun heq => hvalid.1 (heq ▸ hname')
  rw [ht, ht', List.prefix_append_right_inj, List.prefix_append_right_inj]
  refine ⟨fun h => hne (List.cons_prefix_cons.1 h).1, fun h => ?_⟩
  exact hne (List.cons_prefix_cons.1 h).1.symm

/-- **An entry is in the start, or in another entry that is a directory.** -/
theorem Dir.entries_parent {isDir : α → Bool} {d : Dir α} (hd : d.Valid isDir)
    {k : List FileName} {e : List FileName × α} (h : e ∈ d.entries k) :
    e.1.dropLast = k ∨ ∃ val, (e.1.dropLast, val) ∈ d.entries k ∧ isDir val = true := by
  induction d generalizing k with
  | nil => cases h
  | entry name val sub rest ihsub ihrest =>
    obtain ⟨-, hleaf, hsub, hrest⟩ := hd
    rcases List.mem_append.1 h with h | h
    · by_cases hdot : isDotfile name.text = true
      · rw [if_pos hdot] at h
        cases h
      · have hmem {x : List FileName × α}
            (hx : x ∈ (k ++ [name], val) :: sub.entries (k ++ [name])) :
            x ∈ (Dir.entry name val sub rest).entries k := by
          refine List.mem_append_left _ ?_
          rwa [if_neg hdot]
        rw [if_neg hdot] at h
        rcases List.mem_cons.1 h with rfl | h
        · exact Or.inl (by simp)
        · refine Or.inr ?_
          rcases ihsub hsub h with heq | ⟨val', hval', hdir⟩
          · refine ⟨val, hmem ?_, ?_⟩
            · rw [heq]
              exact List.mem_cons_self
            · by_contra hfile
              rw [Bool.not_eq_true] at hfile
              rw [hleaf hfile] at h
              cases h
          · exact ⟨val', hmem (List.mem_cons_of_mem _ hval'), hdir⟩
    · rcases ihrest hrest h with heq | ⟨val', hval', hdir⟩
      · exact Or.inl heq
      · exact Or.inr ⟨val', List.mem_append_right _ hval', hdir⟩

/-- **What has an entry below it is a directory.** -/
theorem Dir.isDir_of_prefix {isDir : α → Bool} {d : Dir α} (hd : d.Valid isDir)
    {e e' : List FileName × α} (he : e ∈ d.entries k) (he' : e' ∈ d.entries k)
    (hbelow : e.1 <+: e'.1) (hne : e.1 ≠ e'.1) : isDir e.2 = true := by
  induction d generalizing k with
  | nil => cases he
  | entry name val sub rest ihsub ihrest =>
    rcases Dir.entries_cases he with ⟨-, hown⟩ | hrest
    · rcases Dir.entries_cases he' with ⟨-, hown'⟩ | hrest'
      · rcases List.mem_cons.1 hown with rfl | hsub
        · rcases List.mem_cons.1 hown' with rfl | hsub'
          · exact absurd rfl hne
          · by_contra hfile
            rw [hd.2.1 (by simpa using hfile)] at hsub'
            cases hsub'
        · rcases List.mem_cons.1 hown' with rfl | hsub'
          · obtain ⟨name', -, t, ht, -⟩ := Dir.entries_key hsub
            have hlen := hbelow.length_le
            rw [ht] at hlen
            simp at hlen
          · exact ihsub hd.2.2.1 hsub hsub'
      · exact absurd hbelow (Dir.entries_disjoint hd hown hrest').1
    · rcases Dir.entries_cases he' with ⟨-, hown'⟩ | hrest'
      · exact absurd hbelow (Dir.entries_disjoint hd hown' hrest).2
      · exact ihrest hd.2.2.2 hrest hrest'

/-! ## One directory -/

theorem FileName.eq_of_text {a b : FileName} (h : a.text = b.text) : a = b := by
  cases a
  cases b
  cases h
  rfl

theorem Dir.items_names (d : Dir α) : d.items.map (fun i => i.1) = d.names := by
  induction d with
  | nil => rfl
  | entry name val sub rest _ ihrest => rw [items, names, List.map_cons, ihrest]

/-- A name that is used once leads to its entry. -/
theorem Dir.find_of_mem {isDir : α → Bool} {d : Dir α} (hd : d.Valid isDir)
    {i : FileName × α × Dir α} (h : i ∈ d.items) : d.find i.1.text = some i.2 := by
  induction d with
  | nil => cases h
  | entry name val sub rest _ ihrest =>
    rcases List.mem_cons.1 h with rfl | h
    · rw [find, if_pos rfl]
    · have hne : name.text ≠ i.1.text := fun heq => hd.1 (by
        rw [FileName.eq_of_text heq, ← items_names]
        exact List.mem_map_of_mem h)
      rw [find, if_neg hne]
      exact ihrest hd.2.2.2 h

theorem Dir.valid_item {isDir : α → Bool} {d : Dir α} (hd : d.Valid isDir)
    {i : FileName × α × Dir α} (h : i ∈ d.items) : i.2.2.Valid isDir := by
  induction d with
  | nil => cases h
  | entry name val sub rest _ ihrest =>
    rcases List.mem_cons.1 h with rfl | h
    · exact hd.2.2.1
    · exact ihrest hd.2.2.2 h

theorem Dir.depth_item {d : Dir α} {i : FileName × α × Dir α} (h : i ∈ d.items) :
    i.2.2.depth < d.depth := by
  induction d with
  | nil => cases h
  | entry name val sub rest _ ihrest =>
    rw [depth]
    rcases List.mem_cons.1 h with rfl | h
    · exact lt_of_lt_of_le (Nat.lt_succ_self _) (le_max_left _ _)
    · exact lt_of_lt_of_le (ihrest h) (le_max_right _ _)

/-- Each entry of a tree has names of its own. -/
theorem Dir.entries_nodup {isDir : α → Bool} {d : Dir α} (hd : d.Valid isDir)
    (k : List FileName) : ((d.entries k).map Prod.fst).Nodup := by
  induction d generalizing k with
  | nil => exact List.nodup_nil
  | entry name val sub rest ihsub ihrest =>
    rw [entries, List.map_append, List.nodup_append]
    refine ⟨?_, ihrest hd.2.2.2 k, ?_⟩
    · split
      · exact List.nodup_nil
      · rw [List.map_cons, List.nodup_cons]
        refine ⟨fun hmem => ?_, ihsub hd.2.2.1 _⟩
        obtain ⟨e, he, heq⟩ := List.mem_map.1 hmem
        obtain ⟨name', -, t, ht, -⟩ := Dir.entries_key he
        have hlen := congrArg List.length (ht.symm.trans heq)
        simp at hlen
    · intro a ha b hb heq
      obtain ⟨e, he, rfl⟩ := List.mem_map.1 ha
      obtain ⟨e', he', rfl⟩ := List.mem_map.1 hb
      split at he
      · cases he
      · exact (Dir.entries_disjoint hd he he').1 (heq ▸ List.prefix_refl _)

end

/-! ## The names in a path -/

@[simp] theorem components_nil : components [] = [] := by simp [components]

theorem components_slash (a b : Text) :
    components (a ++ '/' :: b) = components a ++ components b := by
  simp [components, List.splitOn_append_cons_self]

theorem components_one {x : Text} (hne : x ≠ []) (h : '/' ∉ x) : components x = [x] := by
  rw [components, List.splitOn_eq_singleton h, List.filter_cons, if_pos (decide_eq_true hne)]
  rfl

theorem components_name (name : FileName) : components name.text = [name.text] :=
  components_one name.ne_nil name.no_slash

theorem components_dropSlashes (t : Text) : components (dropSlashes t) = components t := by
  fun_induction dropSlashes t with
  | case1 t hslash ih =>
    obtain ⟨u, hu⟩ := List.getLast?_eq_some_iff.1 hslash.2
    rw [ih, hu, List.dropLast_concat, components_slash, components_nil, List.append_nil]
  | case2 t hslash => rfl

theorem components_dropWhile (t : Text) :
    components (t.dropWhile (· = '/')) = components t := by
  induction t with
  | nil => rfl
  | cons c t ih =>
    rw [List.dropWhile_cons]
    split
    · rename_i hc
      rw [decide_eq_true_eq] at hc
      rw [ih, hc]
      exact (components_slash [] t).symm
    · rfl

/-- **The names in a path that is put together.** -/
theorem components_append (lhs rhs : Text) :
    components (append lhs rhs) = components lhs ++ components rhs := by
  rw [← components_dropSlashes lhs]
  unfold append
  simp only
  generalize dropSlashes lhs = l
  split
  · rename_i hnil
    rw [hnil]
    rfl
  · split
    · rename_i hlast
      obtain ⟨u, rfl⟩ := List.getLast?_eq_some_iff.1 hlast
      rw [List.append_assoc, List.singleton_append, components_slash, components_slash,
        components_dropWhile, components_nil, List.append_nil]
    · rw [List.append_assoc, List.singleton_append, components_slash, components_dropWhile]

theorem components_pathOf (k : List FileName) :
    components (pathOf k) = k.map FileName.text := by
  induction k using List.reverseRecOn with
  | nil => rfl
  | append_singleton k name ih =>
    rw [pathOf_snoc, components_append, ih, components_name, List.map_append]
    rfl

/-- Different names make different paths below a directory. -/
theorem append_pathOf_inj {root : Text} {k k' : List FileName}
    (h : append root (pathOf k) = append root (pathOf k')) : k = k' := by
  have hnames := congrArg components h
  rw [components_append, components_append, components_pathOf, components_pathOf,
    List.append_cancel_left_eq] at hnames
  exact (List.map_inj_right fun _ _ => FileName.eq_of_text).1 hnames

end PathInfo
