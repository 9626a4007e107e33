import UtilVserver.Lib.ShellRead
import UtilVserver.Lib.SlashPath
import UtilVserver.Lib.CString

/-!
# Cleaning up a namespace (`scripts/vserver.functions`)

`_namespaceCleanup` unmounts what a guest does not need.  It collects the directories that have to
stay with all their ancestors, and compares them with the lines of `/proc/mounts`.

* `Shell` — what the shell makes of patterns, and of `cd`.
* `Config`, `Input` — the directories of the installation and of the guest, and the mounts.
* `namespaceCleanup` — the mount points `umount` is called for; none when the loop does not end.
* `kept` — the mounts that the guest needs.
* `Undeceived` — the condition on a mount: the tests of the loop see through its name.
* `PlainNames` — what names and entries have to be like for that.

Principal results: `namespaceCleanup_iff` and `namespaceCleanup_plain`.
-/

set_option autoImplicit false

namespace NamespaceCleanup

open CString ShellRead SlashPath

/-- No character has a meaning in a pattern. -/
def Plain (t : Text) : Prop := ∀ c ∈ t, c ∉ ['*', '?', '[', '\\']

instance (t : Text) : Decidable (Plain t) :=
  List.decidableBAll (fun c => c ∉ ['*', '?', '[', '\\']) t

/-- The shell and the directories it runs in. -/
structure Shell where
  /-- A pattern matches a text. -/
  matchesPattern : Text → Text → Bool
  matchesPattern_plain : ∀ p t, Plain p → (matchesPattern p t = true ↔ p = t)
  /-- Pathname expansion of a word. -/
  expand : Text → List Text
  expand_plain : ∀ w, Plain w → expand w = [w]
  /-- `getPhysicalDir`: what `cd` and `pwd` print; nothing when there is no such directory. -/
  getPhysicalDir : Text → Text
  getPhysicalDir_absolute : ∀ d, getPhysicalDir d = [] ∨ (getPhysicalDir d).head? = some '/'

/-- The variables of the installation and of the control groups. -/
structure Config where
  SBINDIR : Text
  PKGLIBDIR : Text
  PKGSTATEDIR : Text
  LOCKDIR : Text
  PKGDATADIR : Text
  PKGLIBEXECDIR : Text
  CGROUP_MNT : Text
  CGROUP_MNT_PER_SS : Bool
  CGROUP_SUBSYS : List Text

/-- A mount: its line of `/proc/mounts` has the source, the point and the rest. -/
structure Mount where
  dev : Text
  point : Path
  opts : Text
  dev_ne : dev ≠ []
  dev_word : ∀ c ∈ dev, c ∉ [' ', '\t', '\n', '\x00']
  opts_head : ∃ c t, opts = c :: t ∧ c ∉ [' ', '\t', '\n']
  opts_line : '\n' ∉ opts ∧ '\x00' ∉ opts
  noNul : '\x00' ∉ point.text

/-- The guest: its configuration, its root as `vserver-info` tells it, and the content of the file
`namespace-cleanup-skip`; and the mounts of the namespace. -/
structure Input where
  vdir : Text
  root : Path
  skipFile : Text
  mounts : List Mount

/-! ## The script -/

/-- A character of a name in `/proc/mounts`. -/
def encodeChar (c : Char) : Text :=
  if c = ' ' then "\\040".toList
  else if c = '\t' then "\\011".toList
  else if c = '\n' then "\\012".toList
  else if c = '\\' then "\\134".toList
  else [c]

def encode (t : Text) : Text := t.flatMap encodeChar

/-- A line of `/proc/mounts`. -/
def Mount.line (m : Mount) : Text := m.dev ++ (' ' :: (encode m.point.text ++ ' ' :: m.opts))

def procMounts (mounts : List Mount) : Text := mounts.flatMap fun m => m.line ++ ['\n']

/-- The lines of the file, as they are written. -/
def skipLines (content : Text) : List Text :=
  ((content.filter (· ≠ '\x00')).splitOn '\n').filter (· ≠ [])

/-- `getFileArray`: the words of the file. -/
def getFileArray (sh : Shell) (content : Text) : List Text := (skipLines content).flatMap sh.expand

/-- The directories the first loop runs over. -/
def dirs (cfg : Config) (inp : Input) (skip : List Text) : List Text :=
  [inp.root.text, cfg.SBINDIR, cfg.PKGLIBDIR, inp.vdir, cfg.PKGSTATEDIR, cfg.LOCKDIR,
    cfg.PKGDATADIR, cfg.PKGLIBEXECDIR, "/usr/local".toList, "/tmp".toList] ++ skip

/-- `${j%/*}`: what stands before the last slash, and all without one. -/
def stripLast (j : Text) : Text :=
  match j.reverse.dropWhile (· ≠ '/') with
  | [] => j
  | _ :: r => r.reverse

/-- The loop over `j`, for at most so many turns. -/
def strips : Nat → Text → Option (List Text)
  | 0, _ => none
  | fuel + 1, j => if j = [] then some [] else (strips fuel (stripLast j)).map (j :: ·)

/-- One turn of the loop over `i`: the directory and, if it differs, the resolved one. -/
def collect (sh : Shell) (fuel : Nat) (i : Text) : Option (List Text) :=
  let real := sh.getPhysicalDir i
  let real := if i = real then [] else real
  (strips fuel i).bind fun l => (strips fuel real).map (l ++ ·)

def collectAll (sh : Shell) (fuel : Nat) : List Text → Option (List Text)
  | [] => some []
  | i :: is => (collect sh fuel i).bind fun l => (collectAll sh fuel is).map (l ++ ·)

/-- The mount points of the control groups. -/
def cgroups (cfg : Config) : List Text :=
  cfg.CGROUP_MNT ::
    if cfg.CGROUP_MNT_PER_SS then cfg.CGROUP_SUBSYS.map fun ss => cfg.CGROUP_MNT ++ '/' :: ss else []

/-- The array `list`. -/
def protectedList (sh : Shell) (cfg : Config) (inp : Input) (fuel : Nat) : Option (List Text) :=
  (collectAll sh fuel (dirs cfg inp (getFileArray sh inp.skipFile))).map (· ++ cgroups cfg)

/-- `${t#p}`. -/
def removePrefix (sh : Shell) (p t : Text) : Text :=
  match t.inits.find? (sh.matchesPattern p) with
  | some pre => t.drop pre.length
  | none => t

/-- The directories below which nothing is unmounted. -/
def systemDirs : List Text := ["/dev".toList, "/proc".toList, "/sys".toList]

/-- The body of the loop over `/proc/mounts`: what goes to the list of unmounts. -/
def verdict (sh : Shell) (inp : Input) (list : List Text) (record : List Mark) : Option Text :=
  let path := (readThree record).2.1
  let path_dir := path ++ ['/']
  if path = [] then none
  else if (inp.root.text :: systemDirs).any
      fun i => removePrefix sh (i ++ ['/']) path_dir ≠ path_dir then none
  else if path ∈ list ++ [['/']] then none
  else some path

/-- `_namespaceCleanup`: the calls of `umount` in order. -/
def namespaceCleanup (sh : Shell) (cfg : Config) (inp : Input) (fuel : Nat) : Option (List Text) :=
  (protectedList sh cfg inp fuel).map fun list =>
    ((records true false [] (procMounts inp.mounts)).filterMap (verdict sh inp list)).reverse

/-! ## What has to stay -/

def single (name : String) (h : name.toList ≠ [] ∧ '/' ∉ name.toList) : Path where
  names := [name.toList]
  ne_nil := by simpa using h.1
  slashFree := by
    intro x hx
    rw [List.mem_singleton.1 hx]
    exact h.2

def systemPaths : List Path :=
  [single "dev" (by decide), single "proc" (by decide), single "sys" (by decide)]

/-- `/` and all at or below `/dev`, `/proc` or `/sys`. -/
def isSystem (m : Path) : Bool := m.names = [] || systemPaths.any fun p => p.AtOrBelow m

/-- The directory `d` or an ancestor of it, as it is written. -/
def isAbove (m : Path) (d : Text) : Bool := d.head? = some '/' && decide (m.names <+: pieces d)

/-- The protected directories, with the entries of the file as they are written. -/
def protectedDirs (cfg : Config) (inp : Input) : List Text :=
  dirs cfg inp (skipLines inp.skipFile) ++ cgroups cfg

/-- What is protected for the guest: its root with all below it, and the protected directories, as
given or as resolved, with their ancestors. -/
def isCovered (sh : Shell) (cfg : Config) (inp : Input) (m : Path) : Bool :=
  decide (inp.root.AtOrBelow m) ||
    (protectedDirs cfg inp).any fun d => isAbove m d || isAbove m (sh.getPhysicalDir d)

/-- **The mounts that have to stay.** -/
def kept (sh : Shell) (cfg : Config) (inp : Input) (m : Path) : Bool :=
  isSystem m || isCovered sh cfg inp m

/-! ## The condition -/

/-- The directories the first loop runs over end it. -/
def Absolute (d : Text) : Prop := d = [] ∨ d.head? = some '/'

instance : DecidablePred Absolute := fun d =>
  inferInstanceAs (Decidable (d = [] ∨ d.head? = some '/'))

/-- The texts that the first loop and the control groups put into `list`. -/
def listed (sh : Shell) (cfg : Config) (inp : Input) : List Text :=
  (dirs cfg inp (getFileArray sh inp.skipFile)).flatMap
    (fun d => prefixes d ++ prefixes (sh.getPhysicalDir d)) ++ cgroups cfg

/-- The tests of the second loop on a name: the root as a pattern, and the list. -/
def looksCovered (sh : Shell) (cfg : Config) (inp : Input) (name : Text) : Prop :=
  removePrefix sh (inp.root.text ++ ['/']) (name ++ ['/']) ≠ name ++ ['/'] ∨
    name ∈ listed sh cfg inp

/-- **The condition on a mount**: it is a system mount; or the root taken as a pattern and the list
say about the name in `/proc/mounts` what is true of the mount, and a mount that goes is written
there under its own name. -/
def Undeceived (sh : Shell) (cfg : Config) (inp : Input) (m : Path) : Prop :=
  isSystem m = true ∨
    (looksCovered sh cfg inp (encode m.text) ↔ isCovered sh cfg inp m = true) ∧
      (isCovered sh cfg inp m = true ∨ encode m.text = m.text)

/-! ## The loop over the ancestors -/

theorem stripLast_append {a c : Text} (hc : '/' ∉ c) : stripLast (a ++ '/' :: c) = a := by
  have hdrop : (a ++ '/' :: c).reverse.dropWhile (· ≠ '/') = '/' :: a.reverse := by
    rw [List.reverse_append, List.reverse_cons, List.append_assoc,
      List.dropWhile_append_of_pos]
    · simp
    · intro x hx
      have hne : x ≠ '/' := fun h => hc (h ▸ List.mem_reverse.1 hx)
      simpa using hne
  unfold stripLast
  rw [hdrop]
  exact List.reverse_reverse a

theorem stripLast_of_not_mem {j : Text} (hj : '/' ∉ j) : stripLast j = j := by
  have hdrop : j.reverse.dropWhile (· ≠ '/') = [] := by
    rw [List.dropWhile_eq_nil_iff]
    intro x hx
    have hne : x ≠ '/' := fun h => hj (h ▸ List.mem_reverse.1 hx)
    simpa using hne
  unfold stripLast
  rw [hdrop]

/-- One turn drops the last piece. -/
theorem strips_concat {xs : List Text} {x : Text} (hx : '/' ∉ x) (fuel : Nat) :
    strips (fuel + 1) (body (xs ++ [x])) =
      (strips fuel (body xs)).map (body (xs ++ [x]) :: ·) := by
  have hbody : body (xs ++ [x]) = body xs ++ '/' :: x := by simp
  have hne : body xs ++ '/' :: x ≠ [] := by simp
  rw [hbody, strips, if_neg hne, stripLast_append hx]

/-- The loop collects the leading pieces. -/
theorem mem_strips : ∀ {fuel : Nat} {xs : List Text} {l : List Text}, SlashFree xs →
    strips fuel (body xs) = some l →
    ∀ t, t ∈ l ↔ ∃ ys, ys ≠ [] ∧ ys <+: xs ∧ t = body ys
  | 0, _, _, _, h, _ => by cases h
  | fuel + 1, xs, l, hfree, h, t => by
    rcases List.eq_nil_or_concat xs with rfl | ⟨xs, x, rfl⟩
    · rw [body_nil, strips, if_pos rfl] at h
      cases h
      simp
    · rw [List.concat_eq_append] at hfree h ⊢
      rw [strips_concat (hfree x (by simp)), Option.map_eq_some_iff] at h
      obtain ⟨l, hl, rfl⟩ := h
      have ih := mem_strips (fun y hy => hfree y (by simp [hy])) hl t
      simp only [List.mem_cons, ih, List.prefix_concat_iff]
      constructor
      · rintro (rfl | ⟨ys, hne, hpre, rfl⟩)
        · exact ⟨_, by simp, Or.inl rfl, rfl⟩
        · exact ⟨ys, hne, Or.inr hpre, rfl⟩
      · rintro ⟨ys, hne, rfl | hpre, rfl⟩
        · exact Or.inl rfl
        · exact Or.inr ⟨ys, hne, hpre, rfl⟩

/-- The loop ends for an absolute path. -/
theorem strips_isSome : ∀ {fuel : Nat} {xs : List Text}, SlashFree xs → xs.length < fuel →
    ∃ l, strips fuel (body xs) = some l
  | 0, _, _, h => by cases h
  | fuel + 1, xs, hfree, h => by
    rcases List.eq_nil_or_concat xs with rfl | ⟨xs, x, rfl⟩
    · exact ⟨[], by rw [body_nil, strips, if_pos rfl]⟩
    · rw [List.concat_eq_append] at hfree h ⊢
      rw [List.length_append, List.length_singleton] at h
      obtain ⟨l, hl⟩ := @strips_isSome fuel xs
        (fun y hy => hfree y (by simp [hy])) (by omega)
      exact ⟨_, by rw [strips_concat (hfree x (by simp)), hl]; rfl⟩

/-- **The loop does not end** for a path that is not absolute. -/
theorem strips_relative : ∀ {fuel : Nat} {j : Text}, j ≠ [] → j.head? ≠ some '/' →
    strips fuel j = none
  | 0, _, _, _ => rfl
  | fuel + 1, j, hne, hhead => by
    have hnext : stripLast j ≠ [] ∧ (stripLast j).head? ≠ some '/' := by
      by_cases hj : '/' ∈ j
      · obtain ⟨a, c, hj', hc⟩ : ∃ a c, j = a ++ '/' :: c ∧ '/' ∉ c := by
          obtain ⟨p, q, hrev, hp⟩ := List.eq_append_cons_of_mem (List.mem_reverse.2 hj)
          refine ⟨q.reverse, p.reverse, ?_, fun h => hp (List.mem_reverse.1 h)⟩
          rw [← List.reverse_reverse j, hrev]
          simp
        subst hj'
        rw [stripLast_append hc]
        cases a with
        | nil => exact absurd rfl hhead
        | cons x a => exact ⟨List.cons_ne_nil _ _, hhead⟩
      · rw [stripLast_of_not_mem hj]
        exact ⟨hne, hhead⟩
    rw [strips, if_neg hne, strips_relative hnext.1 hnext.2]
    rfl

theorem Absolute.body {d : Text} (h : Absolute d) : SlashFree (pieces d) ∧ SlashPath.body (pieces d) = d := by
  rcases h with rfl | h
  · exact ⟨fun x hx => absurd hx (by simp [pieces]), rfl⟩
  · exact body_pieces h

theorem absolute_of_strips {fuel : Nat} {d : Text} {l : List Text} (h : strips fuel d = some l) :
    Absolute d := by
  by_contra hnot
  unfold Absolute at hnot
  rw [not_or] at hnot
  rw [strips_relative hnot.1 hnot.2] at h
  cases h

/-- **What one loop collects.** -/
theorem mem_strips_prefixes {fuel : Nat} {d : Text} {l : List Text} (h : strips fuel d = some l)
    (t : Text) : t ∈ l ↔ t ∈ prefixes d := by
  obtain ⟨hfree, hbody⟩ := (absolute_of_strips h).body
  rw [mem_prefixes]
  rw [← hbody] at h
  exact mem_strips hfree h t

theorem strips_of_absolute {fuel : Nat} {d : Text} (h : Absolute d) (hfuel : d.length < fuel) :
    ∃ l, strips fuel d = some l := by
  obtain ⟨hfree, hbody⟩ := h.body
  have hlen := length_le_body (pieces d)
  rw [hbody] at hlen
  have := @strips_isSome fuel _ hfree (by omega)
  rwa [hbody] at this

/-! ## The protected directories -/

theorem prefixes_nil : prefixes [] = [] := by simp [prefixes, pieces]

/-- **What one directory adds.** -/
theorem mem_collect {sh : Shell} {fuel : Nat} {i : Text} {l : List Text}
    (h : collect sh fuel i = some l) :
    Absolute i ∧ ∀ t, t ∈ l ↔ t ∈ prefixes i ++ prefixes (sh.getPhysicalDir i) := by
  unfold collect at h
  simp only [Option.bind_eq_some_iff, Option.map_eq_some_iff] at h
  obtain ⟨l₁, h₁, l₂, h₂, rfl⟩ := h
  refine ⟨absolute_of_strips h₁, fun t => ?_⟩
  rw [List.mem_append, List.mem_append, mem_strips_prefixes h₁, mem_strips_prefixes h₂]
  split
  · rename_i heq
    rw [← heq, prefixes_nil]
    simp
  · rfl

theorem collect_of_absolute {sh : Shell} {fuel : Nat} {i : Text} (h : Absolute i)
    (hfuel : i.length < fuel) (hfuel' : (sh.getPhysicalDir i).length < fuel) :
    ∃ l, collect sh fuel i = some l := by
  obtain ⟨l₁, h₁⟩ := strips_of_absolute h hfuel
  obtain ⟨l₂, h₂⟩ : ∃ l, strips fuel
      (if i = sh.getPhysicalDir i then [] else sh.getPhysicalDir i) = some l := by
    split
    · exact strips_of_absolute (Or.inl rfl) (by simp only [List.length_nil]; omega)
    · exact strips_of_absolute (sh.getPhysicalDir_absolute i) hfuel'
  exact ⟨l₁ ++ l₂, by simp [collect, h₁, h₂]⟩

theorem mem_collectAll {sh : Shell} {fuel : Nat} : ∀ {is l : List Text},
    collectAll sh fuel is = some l →
    (∀ i ∈ is, Absolute i) ∧
      ∀ t, t ∈ l ↔ t ∈ is.flatMap fun d => prefixes d ++ prefixes (sh.getPhysicalDir d)
  | [], l, h => by
    cases h
    simp
  | i :: is, l, h => by
    simp only [collectAll, Option.bind_eq_some_iff, Option.map_eq_some_iff] at h
    obtain ⟨l₁, h₁, l₂, h₂, rfl⟩ := h
    obtain ⟨habs, hmem⟩ := mem_collect h₁
    obtain ⟨habs', hmem'⟩ := mem_collectAll h₂
    refine ⟨List.forall_mem_cons.2 ⟨habs, habs'⟩, fun t => ?_⟩
    rw [List.flatMap_cons, List.mem_append, List.mem_append, hmem, hmem']

theorem collectAll_of_absolute {sh : Shell} : ∀ {is : List Text}, (∀ i ∈ is, Absolute i) →
    ∃ n, ∀ fuel, n ≤ fuel → ∃ l, collectAll sh fuel is = some l
  | [], _ => ⟨0, fun _ _ => ⟨[], rfl⟩⟩
  | i :: is, h => by
    obtain ⟨n, hn⟩ := @collectAll_of_absolute sh is fun j hj => h j (List.mem_cons_of_mem _ hj)
    refine ⟨n + i.length + (sh.getPhysicalDir i).length + 1, fun fuel hfuel => ?_⟩
    obtain ⟨l₁, h₁⟩ := @collect_of_absolute sh fuel i (h i List.mem_cons_self)
      (by omega) (by omega)
    obtain ⟨l₂, h₂⟩ := hn fuel (by omega)
    exact ⟨l₁ ++ l₂, by simp [collectAll, h₁, h₂]⟩

/-- **The first loop ends** exactly when every directory is absolute, and collects `listed`. -/
theorem protectedList_iff {sh : Shell} {cfg : Config} {inp : Input} :
    (∃ fuel list, protectedList sh cfg inp fuel = some list) ↔
      ∀ d ∈ dirs cfg inp (getFileArray sh inp.skipFile), Absolute d := by
  constructor
  · rintro ⟨fuel, list, h⟩
    obtain ⟨l, hl, -⟩ := Option.map_eq_some_iff.1 h
    exact (mem_collectAll hl).1
  · intro h
    obtain ⟨n, hn⟩ := @collectAll_of_absolute sh _ h
    obtain ⟨l, hl⟩ := hn n le_rfl
    exact ⟨n, _, by rw [protectedList, hl]; rfl⟩

theorem mem_protectedList {sh : Shell} {cfg : Config} {inp : Input} {fuel : Nat} {list : List Text}
    (h : protectedList sh cfg inp fuel = some list) (t : Text) :
    t ∈ list ↔ t ∈ listed sh cfg inp := by
  obtain ⟨l, hl, rfl⟩ := Option.map_eq_some_iff.1 h
  rw [listed, List.mem_append, List.mem_append, (mem_collectAll hl).2]

/-! ## Names in `/proc/mounts` -/

/-- A character that is written as it is. -/
def Bare (c : Char) : Prop := c ∉ [' ', '\t', '\n', '\\']

instance : DecidablePred Bare := fun c =>
  inferInstanceAs (Decidable (c ∉ [' ', '\t', '\n', '\\']))

theorem encodeChar_bare {c : Char} (h : Bare c) : encodeChar c = [c] := by
  unfold Bare at h
  unfold encodeChar
  simp only [List.mem_cons, List.not_mem_nil, or_false, not_or] at h
  rw [if_neg h.1, if_neg h.2.1, if_neg h.2.2.1, if_neg h.2.2.2]

/-- The other characters are written behind a backslash. -/
theorem encodeChar_cases (c : Char) :
    Bare c ∧ encodeChar c = [c] ∨ ¬ Bare c ∧ ∃ t, encodeChar c = '\\' :: t ∧
      ∀ x ∈ t, x ∉ [' ', '\t', '\n', '\\', '/', '\x00'] := by
  by_cases h : Bare c
  · exact Or.inl ⟨h, encodeChar_bare h⟩
  · refine Or.inr ⟨h, ?_⟩
    unfold Bare at h
    rw [not_not] at h
    simp only [List.mem_cons, List.not_mem_nil, or_false] at h
    rcases h with rfl | rfl | rfl | rfl
    · exact ⟨"040".toList, rfl, forall_mem_of_all (by decide)⟩
    · exact ⟨"011".toList, rfl, forall_mem_of_all (by decide)⟩
    · exact ⟨"012".toList, rfl, forall_mem_of_all (by decide)⟩
    · exact ⟨"134".toList, rfl, forall_mem_of_all (by decide)⟩

theorem encode_cons (c : Char) (t : Text) : encode (c :: t) = encodeChar c ++ encode t := by
  rw [encode, List.flatMap_cons]
  rfl

theorem encode_append (s t : Text) : encode (s ++ t) = encode s ++ encode t := by
  simp [encode]

theorem encode_bare {t : Text} (h : ∀ c ∈ t, Bare c) : encode t = t := by
  induction t with
  | nil => rfl
  | cons c t ih =>
    rw [encode_cons, encodeChar_bare (h c List.mem_cons_self),
      ih fun x hx => h x (List.mem_cons_of_mem _ hx)]
    rfl

/-- An encoded name has no blanks, and a slash only where the name has one. -/
theorem mem_encode {t : Text} {x : Char} (hx : x ∈ encode t) :
    x ∉ [' ', '\t', '\n'] ∧ (x = '/' ∨ x = '\x00' → x ∈ t) := by
  rw [encode, List.mem_flatMap] at hx
  obtain ⟨c, hc, hx⟩ := hx
  rcases encodeChar_cases c with ⟨hbare, heq⟩ | ⟨-, u, heq, hu⟩
  · rw [heq, List.mem_singleton] at hx
    subst hx
    unfold Bare at hbare
    simp only [List.mem_cons, List.not_mem_nil, or_false, not_or] at hbare ⊢
    exact ⟨⟨hbare.1, hbare.2.1, hbare.2.2.1⟩, fun _ => hc⟩
  · rw [heq, List.mem_cons] at hx
    rcases hx with rfl | hx
    · exact ⟨by decide, fun h => by rcases h with h | h <;> exact absurd h (by decide)⟩
    · have hxu := hu x hx
      simp only [List.mem_cons, List.not_mem_nil, or_false, not_or] at hxu ⊢
      refine ⟨⟨hxu.1, hxu.2.1, hxu.2.2.1⟩, ?_⟩
      rintro (h | h)
      · exact absurd h hxu.2.2.2.2.1
      · exact absurd h hxu.2.2.2.2.2

theorem encode_ne_nil {t : Text} (h : t ≠ []) : encode t ≠ [] := by
  cases t with
  | nil => exact absurd rfl h
  | cons c t =>
    rw [encode_cons]
    rcases encodeChar_cases c with ⟨-, heq⟩ | ⟨-, u, heq, -⟩ <;> simp [heq]

/-- A name without backslash is the encoding of itself only. -/
theorem encode_eq_iff {t w : Text} (hw : ∀ c ∈ w, Bare c) : encode t = w ↔ t = w := by
  constructor
  · intro h
    have hbare : ∀ c ∈ t, Bare c := by
      intro c hc
      rcases encodeChar_cases c with ⟨hbare, -⟩ | ⟨-, u, heq, -⟩
      · exact hbare
      · have hmem : '\\' ∈ encode t := by
          rw [encode, List.mem_flatMap]
          exact ⟨c, hc, by rw [heq]; exact List.mem_cons_self⟩
        rw [h] at hmem
        exact absurd (hw _ hmem) (by unfold Bare; decide)
    rw [← encode_bare hbare, h]
  · rintro rfl
    exact encode_bare hw

/-- The path with encoded names. -/
def encodePath (p : Path) : Path where
  names := p.names.map encode
  ne_nil := by
    intro x hx
    obtain ⟨y, hy, rfl⟩ := List.mem_map.1 hx
    exact encode_ne_nil (p.ne_nil y hy)
  slashFree := by
    intro x hx hslash
    obtain ⟨y, hy, rfl⟩ := List.mem_map.1 hx
    exact p.slashFree y hy ((mem_encode hslash).2 (Or.inl rfl))

theorem encode_body (xs : List Text) : encode (body xs) = body (xs.map encode) := by
  have hslash : encodeChar '/' = ['/'] := rfl
  induction xs with
  | nil => rfl
  | cons x xs ih =>
    rw [body_cons, encode_cons, encode_append, ih, hslash, List.map_cons, body_cons]
    rfl

theorem encode_text (p : Path) : encode p.text = (encodePath p).text := by
  unfold Path.text encodePath
  simp only [List.map_eq_nil_iff]
  split
  · rfl
  · exact encode_body p.names

/-- A one-name path keeps its place. -/
theorem atOrBelow_encodePath {name : Text} {p : Path} (hp : p.names = [name])
    (hbare : ∀ c ∈ name, Bare c) (m : Path) : p.AtOrBelow (encodePath m) ↔ p.AtOrBelow m := by
  unfold Path.AtOrBelow
  rw [hp]
  show [name] <+: m.names.map encode ↔ _
  cases m.names with
  | nil => simp
  | cons x xs =>
    simp only [List.map_cons, List.cons_prefix_cons, List.nil_prefix, and_true]
    rw [eq_comm, encode_eq_iff hbare, eq_comm]

/-! ## The tests of the second loop -/

theorem Plain.append {s t : Text} (hs : Plain s) (ht : Plain t) : Plain (s ++ t) := by
  intro c hc
  rcases List.mem_append.1 hc with h | h
  · exact hs c h
  · exact ht c h

/-- A plain pattern that is not empty is removed where the text starts with it. -/
theorem removePrefix_plain {sh : Shell} {p : Text} (hp : Plain p) (hne : p ≠ []) (t : Text) :
    removePrefix sh p t ≠ t ↔ p <+: t := by
  unfold removePrefix
  cases hfind : t.inits.find? (sh.matchesPattern p) with
  | none =>
    simp only [ne_eq, not_true_eq_false, false_iff]
    intro hpre
    have hmem := List.find?_eq_none.1 hfind p ((List.mem_inits _ _).2 hpre)
    exact hmem ((sh.matchesPattern_plain p p hp).2 rfl)
  | some pre =>
    have hmatch := List.find?_some hfind
    obtain rfl := (sh.matchesPattern_plain p pre hp).1 hmatch
    have hpre : p <+: t := (List.mem_inits _ _).1 (List.mem_of_find?_eq_some hfind)
    simp only [hpre, iff_true]
    intro heq
    have hlen := congrArg List.length heq
    have hle := hpre.length_le
    have hpos := List.length_pos_of_ne_nil hne
    rw [List.length_drop] at hlen
    omega

theorem plain_slash : Plain ['/'] := by decide

/-- The tests for `/dev`, `/proc` and `/sys`. -/
theorem systemDirs_iff {sh : Shell} (m : Path) :
    (systemDirs.any fun i => removePrefix sh (i ++ ['/']) (encode m.text ++ ['/']) ≠
      encode m.text ++ ['/']) = true ↔ systemPaths.any (fun p => p.AtOrBelow m) = true := by
  have hone {p : Path} {name : Text} (hp : p.names = [name]) (hbare : ∀ c ∈ name, Bare c)
      (hplain : Plain p.text) :
      removePrefix sh (p.text ++ ['/']) (encode m.text ++ ['/']) ≠ encode m.text ++ ['/'] ↔
        p.AtOrBelow m := by
    rw [removePrefix_plain (hplain.append plain_slash) (by simp), encode_text,
      Path.isPrefix_text (by rw [hp]; exact List.cons_ne_nil _ _), atOrBelow_encodePath hp hbare]
  have hdev := hone (p := single "dev" (by decide)) rfl (forall_mem_of_all (by decide))
    (by decide)
  have hproc := hone (p := single "proc" (by decide)) rfl (forall_mem_of_all (by decide))
    (by decide)
  have hsys := hone (p := single "sys" (by decide)) rfl (forall_mem_of_all (by decide))
    (by decide)
  simp only [systemDirs, systemPaths, List.any_cons, List.any_nil, Bool.or_false, Bool.or_eq_true,
    decide_eq_true_eq]
  exact or_congr hdev (or_congr hproc hsys)

theorem text_ne_nil (p : Path) : p.text ≠ [] := by
  unfold Path.text
  split
  · exact List.cons_ne_nil _ _
  · rename_i h
    cases hnames : p.names with
    | nil => exact absurd hnames h
    | cons x xs => simp

theorem encode_text_eq_slash (m : Path) : encode m.text = ['/'] ↔ m.names = [] := by
  rw [encode_eq_iff (forall_mem_of_all (by decide))]
  unfold Path.text
  split
  · simp [*]
  · rename_i h
    refine iff_of_false ?_ h
    cases hnames : m.names with
    | nil => exact absurd hnames h
    | cons x xs =>
      have hx : x ≠ [] := m.ne_nil x (hnames ▸ List.mem_cons_self)
      simp [hx]

/-- **The fields of a line.** -/
theorem readThree_line (m : Mount) :
    (readThree (marks true false m.line)).2.1 = encode m.point.text := by
  obtain ⟨c, t, hopts, hc⟩ := m.opts_head
  have hblank : ∀ x ∈ ([' '] : Text).map (·, false), isIfs x = true := by decide
  have hfield {s : Text} (hs : ∀ x ∈ s, x ∉ [' ', '\t', '\n']) :
      ∀ x ∈ s.map (·, false), isIfs x = false := by
    refine isIfs_of_mem_map fun y hy => ?_
    have hy' := hs y hy
    simp only [List.mem_cons, List.not_mem_nil, or_false, not_or] at hy'
    simp [isIfs, hy']
  have hdev : ∀ x ∈ m.dev, x ∉ [' ', '\t', '\n'] := by
    intro x hx
    have hx' := m.dev_word x hx
    simp only [List.mem_cons, List.not_mem_nil, or_false, not_or] at hx' ⊢
    exact ⟨hx'.1, hx'.2.1, hx'.2.2.1⟩
  have hhead : isIfs (c, false) = false := by
    simp only [List.mem_cons, List.not_mem_nil, or_false, not_or] at hc
    simp [isIfs, hc]
  obtain ⟨tmp, -, hread⟩ := readThree_words (w := [])
    (r := [' '].map (·, false) ++ (c, false) :: t.map (·, false)) (by simp)
    (hfield hdev) (by simpa using m.dev_ne) hblank (by simp)
    (hfield fun x hx => (mem_encode hx).1) (by simpa using encode_ne_nil (text_ne_nil m.point))
    (by simp [isIfs]) (List.mem_append_right _ List.mem_cons_self) hhead
  have hline : marks true false m.line = [] ++ (m.dev.map (·, false) ++ ([' '].map (·, false) ++
      ((encode m.point.text).map (·, false) ++ ([' '].map (·, false) ++
        (c, false) :: t.map (·, false))))) := by
    rw [marks_raw, Mount.line, hopts]
    simp
  have hfst : ((encode m.point.text).map (·, false)).map Prod.fst = encode m.point.text := by
    rw [List.map_map]
    exact List.map_id _
  rw [hline, hread]
  exact hfst

/-- **What the second loop does with a mount.** -/
theorem verdict_line {sh : Shell} {cfg : Config} {inp : Input} {fuel : Nat} {list : List Text}
    (h : protectedList sh cfg inp fuel = some list) (m : Mount) :
    (verdict sh inp list (marks true false m.line) = none ∧
        (isSystem m.point = true ∨ looksCovered sh cfg inp (encode m.point.text))) ∨
      (verdict sh inp list (marks true false m.line) = some (encode m.point.text) ∧
        ¬ (isSystem m.point = true ∨ looksCovered sh cfg inp (encode m.point.text))) := by
  have hne := encode_ne_nil (text_ne_nil m.point)
  have hsystem := @systemDirs_iff sh m.point
  have hslash := encode_text_eq_slash m.point
  have hlist := mem_protectedList h (encode m.point.text)
  have hfront : ((inp.root.text :: systemDirs).any fun i =>
      removePrefix sh (i ++ ['/']) (encode m.point.text ++ ['/']) ≠
        encode m.point.text ++ ['/']) = true ↔
      removePrefix sh (inp.root.text ++ ['/']) (encode m.point.text ++ ['/']) ≠
        encode m.point.text ++ ['/'] ∨ systemPaths.any (fun p => p.AtOrBelow m.point) = true := by
    rw [List.any_cons, Bool.or_eq_true, hsystem, decide_eq_true_iff]
  have hmem : encode m.point.text ∈ list ++ [['/']] ↔
      encode m.point.text ∈ listed sh cfg inp ∨ m.point.names = [] := by
    rw [List.mem_append, List.mem_singleton, hlist, hslash]
  unfold verdict isSystem looksCovered
  rw [readThree_line, Bool.or_eq_true, decide_eq_true_iff]
  simp only
  rw [if_neg hne]
  split
  · rename_i hcov
    rcases hfront.1 hcov with hroot | hsys
    · exact Or.inl ⟨rfl, Or.inr (Or.inl hroot)⟩
    · exact Or.inl ⟨rfl, Or.inl (Or.inr hsys)⟩
  · rename_i hcov
    rw [hfront] at hcov
    split
    · rename_i hin
      rcases hmem.1 hin with hlisted | hnames
      · exact Or.inl ⟨rfl, Or.inr (Or.inr hlisted)⟩
      · exact Or.inl ⟨rfl, Or.inl (Or.inl hnames)⟩
    · rename_i hin
      rw [hmem] at hin
      refine Or.inr ⟨rfl, ?_⟩
      rintro ((hnames | hsys) | hroot | hlisted)
      · exact hin (Or.inr hnames)
      · exact hcov (Or.inr hsys)
      · exact hcov (Or.inl hroot)
      · exact hin (Or.inl hlisted)

/-- The lines are read one by one. -/
theorem records_procMounts (mounts : List Mount) :
    records true false [] (procMounts mounts) =
      mounts.map fun m => marks true false m.line := by
  have hline : ∀ m : Mount, '\n' ∉ m.line ∧ '\x00' ∉ m.line := by
    intro m
    unfold Mount.line
    have hdev : '\n' ∉ m.dev ∧ '\x00' ∉ m.dev := by
      refine ⟨fun h => ?_, fun h => ?_⟩
      · exact m.dev_word _ h (by decide)
      · exact m.dev_word _ h (by decide)
    have henc : '\n' ∉ encode m.point.text ∧ '\x00' ∉ encode m.point.text := by
      refine ⟨fun h => ?_, fun h => ?_⟩
      · exact (mem_encode h).1 (by decide)
      · exact m.noNul ((mem_encode h).2 (Or.inr rfl))
    simp [hdev, henc, m.opts_line]
  have hall : ∀ l ∈ mounts.map Mount.line,
      '\n' ∉ l ∧ '\x00' ∉ l ∧ ends true false l = false := by
    intro l hl
    obtain ⟨m, -, rfl⟩ := List.mem_map.1 hl
    exact ⟨(hline m).1, (hline m).2, ends_raw _⟩
  have hflat : procMounts mounts = (mounts.map Mount.line).flatMap fun l => l ++ ['\n'] := by
    rw [procMounts, List.flatMap_map]
  rw [hflat, records_lines hall, List.map_map]
  rfl

/-! ## The whole cleanup -/

/-- **What is promised**: the script ends; every mount that has to stay stays, `umount` is called
once for each other one by its name, and later mounts come first. -/
def CleansUp (sh : Shell) (cfg : Config) (inp : Input) : Prop :=
  ∃ fuel list, protectedList sh cfg inp fuel = some list ∧
    namespaceCleanup sh cfg inp fuel = some
      (((inp.mounts.map Mount.point).filter fun m => !kept sh cfg inp m).reverse.map Path.text) ∧
    ∀ m ∈ inp.mounts, verdict sh inp list (marks true false m.line) =
      if kept sh cfg inp m.point then none else some m.point.text

/-- One mount is treated right exactly when the tests are not deceived. -/
theorem verdict_iff {sh : Shell} {cfg : Config} {inp : Input} {fuel : Nat} {list : List Text}
    (h : protectedList sh cfg inp fuel = some list) (m : Mount) :
    (verdict sh inp list (marks true false m.line) =
      if kept sh cfg inp m.point then none else some m.point.text) ↔
      Undeceived sh cfg inp m.point := by
  unfold Undeceived kept
  have hcases := verdict_line h m
  cases hsys : isSystem m.point <;> cases hcov : isCovered sh cfg inp m.point <;>
    rw [hsys] at hcases <;>
    rcases hcases with ⟨hv, hlook⟩ | ⟨hv, hlook⟩ <;> rw [hv] <;> simp at hlook ⊢ <;> tauto

/-- **The cleanup is right** exactly when no directory is relative and no mount deceives the
tests. -/
theorem namespaceCleanup_iff (sh : Shell) (cfg : Config) (inp : Input) :
    CleansUp sh cfg inp ↔
      (∀ d ∈ dirs cfg inp (getFileArray sh inp.skipFile), Absolute d) ∧
        ∀ m ∈ inp.mounts, Undeceived sh cfg inp m.point := by
  constructor
  · rintro ⟨fuel, list, hlist, -, hall⟩
    refine ⟨protectedList_iff.1 ⟨fuel, list, hlist⟩, fun m hm => ?_⟩
    exact (verdict_iff hlist m).1 (hall m hm)
  · rintro ⟨habs, hund⟩
    obtain ⟨fuel, list, hlist⟩ := protectedList_iff.2 habs
    have hall : ∀ m ∈ inp.mounts, verdict sh inp list (marks true false m.line) =
        if kept sh cfg inp m.point then none else some m.point.text :=
      fun m hm => (verdict_iff hlist m).2 (hund m hm)
    refine ⟨fuel, list, hlist, ?_, hall⟩
    have hfilter : ∀ ms : List Mount, (∀ m ∈ ms, m ∈ inp.mounts) →
        (ms.map fun m => marks true false m.line).filterMap (verdict sh inp list) =
          ((ms.map Mount.point).filter fun m => !kept sh cfg inp m).map Path.text := by
      intro ms
      induction ms with
      | nil => intro _; rfl
      | cons m ms ih =>
        intro hms
        have ih := ih fun x hx => hms x (List.mem_cons_of_mem _ hx)
        rw [List.map_cons, List.filterMap_cons, ih, hall m (hms m List.mem_cons_self),
          List.map_cons, List.filter_cons]
        cases kept sh cfg inp m.point <;> rfl
    rw [namespaceCleanup, hlist, records_procMounts, Option.map_some, hfilter _ fun _ h => h,
      List.map_reverse]

/-- A shell without patterns, where every absolute path is a directory. -/
def literalShell : Shell where
  matchesPattern p t := p == t
  matchesPattern_plain p t _ := by simp
  expand w := [w]
  expand_plain _ _ := rfl
  getPhysicalDir d := if d.head? = some '/' then d else []
  getPhysicalDir_absolute d := by split <;> simp [*]

def usrConfig : Config := ⟨"/usr/sbin".toList, "/usr/lib".toList, "/var/run".toList,
  "/var/lock".toList, "/usr/share".toList, "/usr/libexec".toList, "/dev/cgroup".toList, false, []⟩

def mountAt (point : Path) (h : '\x00' ∉ point.text) : Mount where
  dev := "/dev/sdb1".toList
  point := point
  opts := "ext3 rw 0 0".toList
  dev_ne := by decide
  dev_word := forall_mem_of_all (by decide)
  opts_head := ⟨'e', "xt3 rw 0 0".toList, rfl, by decide⟩
  opts_line := by decide
  noNul := h

def mntMount : Mount :=
  mountAt ⟨["mnt".toList, "a b".toList], by decide, by unfold SlashFree; decide⟩ (by decide)

def guestInput (skipFile : Text) (mounts : List Mount) : Input :=
  ⟨"/etc/vservers/v".toList, single "v" (by decide), skipFile, mounts⟩

/-- A relative entry of the file keeps the script from ending, and a mount point with a blank is
not unmounted by its name. -/
theorem namespaceCleanup_deceived :
    (∀ fuel, namespaceCleanup literalShell usrConfig (guestInput "data".toList []) fuel = none) ∧
      ¬ CleansUp literalShell usrConfig (guestInput [] [mntMount]) := by
  constructor
  · intro fuel
    cases hlist : protectedList literalShell usrConfig (guestInput "data".toList []) fuel with
    | none => rw [namespaceCleanup, hlist]; rfl
    | some list =>
      have habs := protectedList_iff.1 ⟨fuel, list, hlist⟩ "data".toList (by decide)
      rcases habs with h | h <;> exact absurd h (by decide)
  · rintro ⟨fuel, list, hlist, -, hall⟩
    have hund := (verdict_iff hlist mntMount).1 (hall mntMount List.mem_cons_self)
    rcases hund with h | ⟨-, h | h⟩
    · exact absurd h (by decide)
    · exact absurd h (by decide)
    · exact absurd h (by decide)

/-! ## Names without surprises -/

theorem mem_prefixes_isAbove {m : Path} (hm : m.names ≠ []) {d : Text} (hd : Absolute d) :
    m.text ∈ prefixes d ↔ isAbove m d = true := by
  unfold isAbove
  rcases hd with rfl | hd
  · simp [prefixes_nil]
  · rw [mem_prefixes_iff hd hm]
    simp [hd]

/-- A path is above its own text. -/
theorem isAbove_self {m : Path} (hm : m.names ≠ []) : isAbove m m.text = true := by
  unfold isAbove Path.text
  rw [if_neg hm, pieces_body m.slashFree]
  cases hnames : m.names with
  | nil => exact absurd hnames hm
  | cons x xs => simp

theorem getFileArray_plain {sh : Shell} {content : Text}
    (h : ∀ line ∈ skipLines content, Plain line) : getFileArray sh content = skipLines content := by
  have hall : ∀ ls : List Text, (∀ l ∈ ls, Plain l) → ls.flatMap sh.expand = ls := by
    intro ls
    induction ls with
    | nil => intro _; rfl
    | cons l ls ih =>
      intro hls
      rw [List.flatMap_cons, sh.expand_plain l (hls l List.mem_cons_self),
        ih fun x hx => hls x (List.mem_cons_of_mem _ hx)]
      rfl
  exact hall _ h

/-- What is below the root, by its name in `/proc/mounts` too, when the root is written there under
its own name. -/
theorem removePrefix_below {sh : Shell} {root m : Path} (hroot : root.names ≠ [])
    (hplain : Plain root.text) (hbare : ∀ c ∈ root.text, Bare c) (h : root.AtOrBelow m) :
    removePrefix sh (root.text ++ ['/']) (encode m.text ++ ['/']) ≠ encode m.text ++ ['/'] := by
  rw [removePrefix_plain (hplain.append plain_slash) (by simp)]
  obtain ⟨r, hr⟩ := (Path.isPrefix_text hroot m).2 h
  have happend : ∀ s t, encode (s ++ t) = encode s ++ encode t := fun s t => List.flatMap_append
  have hslash : encode ['/'] = ['/'] := by decide
  refine ⟨encode r, ?_⟩
  rw [← encode_bare hbare, ← hslash, ← happend, ← happend, ← happend, hr]

/-- The mount is at or above a directory, as given or as resolved. -/
def IsAbove (sh : Shell) (m : Path) (d : Text) : Prop :=
  isAbove m d = true ∨ isAbove m (sh.getPhysicalDir d) = true

instance (sh : Shell) (m : Path) (d : Text) : Decidable (IsAbove sh m d) :=
  inferInstanceAs (Decidable (isAbove m d = true ∨ isAbove m (sh.getPhysicalDir d) = true))

/-- **Names without surprises**: the root and the entries of the file hold no pattern characters, and
no directory is relative; each mount outside of the system's is below a root without characters that
`/proc/mounts` encodes, or has none itself and, if it is at or above one of the control groups, it is
one of them as given or at or above one of the other directories. -/
structure PlainNames (sh : Shell) (cfg : Config) (inp : Input) : Prop where
  root_ne : inp.root.names ≠ []
  root_plain : Plain inp.root.text
  skip_plain : ∀ line ∈ skipLines inp.skipFile, Plain line
  absolute : ∀ d ∈ dirs cfg inp (skipLines inp.skipFile), Absolute d
  mounts : ∀ m ∈ inp.mounts, isSystem m.point = true ∨
    (∀ c ∈ inp.root.text, Bare c) ∧ inp.root.AtOrBelow m.point ∨
    (∀ c ∈ m.point.text, Bare c) ∧
      ((∃ d ∈ cgroups cfg, IsAbove sh m.point d) → m.point.text ∈ cgroups cfg ∨
        ∃ d ∈ dirs cfg inp (skipLines inp.skipFile), IsAbove sh m.point d)

section Plain

variable {sh : Shell} {cfg : Config} {inp : Input} {m : Path}

/-- The list of the script has the directories with what is above them. -/
theorem PlainNames.mem_listed (h : PlainNames sh cfg inp) (hm : m.names ≠ []) :
    m.text ∈ listed sh cfg inp ↔
      (∃ d ∈ dirs cfg inp (skipLines inp.skipFile), IsAbove sh m d) ∨ m.text ∈ cgroups cfg := by
  have hdirs : ∀ d ∈ dirs cfg inp (skipLines inp.skipFile),
      m.text ∈ prefixes d ++ prefixes (sh.getPhysicalDir d) ↔ IsAbove sh m d := by
    intro d hd
    rw [List.mem_append, IsAbove, mem_prefixes_isAbove hm (h.absolute d hd),
      mem_prefixes_isAbove hm (sh.getPhysicalDir_absolute d)]
  rw [listed, List.mem_append, getFileArray_plain h.skip_plain, List.mem_flatMap]
  exact or_congr (exists_congr fun d => and_congr_right fun hd => hdirs d hd) Iff.rfl

theorem isCovered_iff : isCovered sh cfg inp m = true ↔
    inp.root.AtOrBelow m ∨
      (∃ d ∈ dirs cfg inp (skipLines inp.skipFile), IsAbove sh m d) ∨
        ∃ d ∈ cgroups cfg, IsAbove sh m d := by
  unfold isCovered protectedDirs IsAbove
  simp only [Bool.or_eq_true, decide_eq_true_iff, List.any_append, List.any_eq_true]

/-- **A mount of a plain name does not deceive the tests.** -/
theorem PlainNames.undeceived (h : PlainNames sh cfg inp) {m : Mount} (hmount : m ∈ inp.mounts) :
    Undeceived sh cfg inp m.point := by
  by_cases hsystem : isSystem m.point = true
  · exact Or.inl hsystem
  have hm : m.point.names ≠ [] := fun hnil => hsystem (by simp [isSystem, hnil])
  right
  rcases (h.mounts m hmount).resolve_left hsystem with ⟨hbare, hbelow⟩ | ⟨hbare, hcgroup⟩
  · have hcov : isCovered sh cfg inp m.point = true := isCovered_iff.2 (Or.inl hbelow)
    have hlooks := @removePrefix_below sh _ _ h.root_ne h.root_plain hbare hbelow
    exact ⟨iff_of_true (Or.inl hlooks) hcov, Or.inl hcov⟩
  · refine ⟨?_, Or.inr (encode_bare hbare)⟩
    have hrootTest : removePrefix sh (inp.root.text ++ ['/']) (m.point.text ++ ['/']) ≠
        m.point.text ++ ['/'] ↔ inp.root.AtOrBelow m.point := by
      rw [removePrefix_plain (h.root_plain.append plain_slash) (by simp),
        Path.isPrefix_text h.root_ne]
    rw [encode_bare hbare, looksCovered, hrootTest, h.mem_listed hm, isCovered_iff]
    refine or_congr Iff.rfl ⟨?_, ?_⟩
    · rintro (habove | hgroup)
      · exact Or.inl habove
      · exact Or.inr ⟨_, hgroup, Or.inl (isAbove_self hm)⟩
    · rintro (habove | hgroup)
      · exact Or.inl habove
      · exact (hcgroup hgroup).symm

end Plain

/-- **The cleanup is right for plain names.** -/
theorem namespaceCleanup_plain {sh : Shell} {cfg : Config} {inp : Input}
    (h : PlainNames sh cfg inp) : CleansUp sh cfg inp := by
  refine (namespaceCleanup_iff sh cfg inp).2 ⟨?_, fun m hm => h.undeceived hm⟩
  rw [getFileArray_plain h.skip_plain]
  exact h.absolute

/-- A mount to be unmounted, one below the root with a blank, and one of the skip file. -/
def plainMounts : List Mount :=
  [mountAt (single "mnt" (by decide)) (by decide),
    mountAt ⟨["v".toList, "a b".toList], by decide, by unfold SlashFree; decide⟩ (by decide),
    mountAt (single "srv" (by decide)) (by decide)]

theorem plainMounts_plain :
    PlainNames literalShell usrConfig (guestInput "/srv\n".toList plainMounts) := by
  refine ⟨by decide, by decide, by decide, by decide, ?_⟩
  show ∀ m ∈ plainMounts, _
  rw [plainMounts, List.forall_mem_cons, List.forall_mem_cons, List.forall_mem_singleton]
  refine ⟨Or.inr (Or.inr ⟨forall_mem_of_all (by decide), fun h => absurd h (by decide)⟩), ?_, ?_⟩
  · exact Or.inr (Or.inl ⟨forall_mem_of_all (by decide), by decide⟩)
  · exact Or.inr (Or.inr ⟨forall_mem_of_all (by decide), fun h => absurd h (by decide)⟩)

theorem namespaceCleanup_plain_mnt :
    CleansUp literalShell usrConfig (guestInput "/srv\n".toList plainMounts) ∧
      plainMounts.map (fun m => kept literalShell usrConfig
        (guestInput "/srv\n".toList plainMounts) m.point) = [false, true, true] :=
  ⟨namespaceCleanup_plain plainMounts_plain, by decide +kernel⟩

end NamespaceCleanup
