import UtilVserver.FstabLines
import UtilVserver.Lib.ShellRead

/-!
# Unmounting what an fstab says (`scripts/vserver.functions`)

`_umountVserverInternal` reads the fstab from its end with `tac` and the `read` of the shell, which
knows neither of options nor of types, and calls `umount` through `exec-cd`, which must be able to
go to the destination.

* `umountDestinations` — the destinations that are unmounted, in order.
* `target` — where `mountFstab` mounts; a file is mounted on a name in a directory.
* `ReadAlike` — the lines that both readers take apart in the same way.
* `ReadsAlike` — a content of such lines that ends with a newline.

Principal result: `umountVserver_reverses`.
-/

set_option autoImplicit false

namespace UmountFstab

open CString SecureMount FstabLines ShellRead

/-- `tac`: what stands behind the last newline comes first, and is not ended by one. -/
def tac (content : Text) : Text :=
  (lines content).getLastD [] ++ (lines content).dropLast.reverse.flatMap fun line => line ++ ['\n']

/-- The body of the loop: the destination of a record, if it is taken for an entry. -/
def entryOf (record : List Mark) : Option Text :=
  let (src, dst, tmp) := readThree record
  if tmp = [] then none
  else if src.head? = some '#' then none
  else some dst

/-! ## `exec-cd` -/

/-- A program, and the directory it is called in. -/
structure Run where
  dir : Text
  argv : List Text
  deriving DecidableEq

/-- `exec-cd` (`src/exec-cd.c`) with these arguments; `enters` tells for which directories `chdir`
succeeds in the guest. -/
def execCd (enters : Text → Bool) (args : List Text) : Option Run :=
  if args.head? = some "--help".toList ∨ args.head? = some "--version".toList then none
  else
    match if args.head? = some "--".toList then args.tail else args with
    | dir :: cmd :: rest => if enters dir then some ⟨dir, cmd :: rest⟩ else none
    | _ => none

/-- `exec-cd "$dst" umount -lfn .`: the directory that is unmounted. -/
def umountCall (enters : Text → Bool) (umount dst : Text) : Option Text :=
  match execCd enters [dst, umount, "-lfn".toList, ".".toList] with
  | some run => if run.argv = [umount, "-lfn".toList, ".".toList] then some run.dir else none
  | none => none

/-- `_umountVserverInternal`: the destinations that `umount` is called for.  A failure does not end
the loop. -/
def umountDestinations (enters : Text → Bool) (umount content : Text) : List Text :=
  (records false false [] (tac content)).filterMap fun record =>
    (entryOf record).bind (umountCall enters umount)

/-! ## Where `mountFstab` mounts -/

/-- `dst`, `name` and `XFLAG_FILE` of a `struct MountInfo`. -/
structure Target where
  dst : Text
  name : Option Text
  file : Bool

/-- `adjustFileMount`. -/
def adjustFileMount (mnt : MountInfo) : Target :=
  match strrchr mnt.dst '/' with
  | some i => ⟨mnt.dst.take i, some (mnt.dst.drop (i + 1)), true⟩
  | none => ⟨mnt.dst, none, true⟩

/-- What is mounted on; `isFile` is `utilvserver_isFile` for the sources. -/
def target (isFile : Text → Bool) (mnt : MountInfo) : Target :=
  if isFile mnt.src then adjustFileMount mnt else ⟨mnt.dst, some mnt.name, false⟩

/-- Neither `chdir(2)` nor `mount(2)` gets an empty path. -/
def Target.Usable (t : Target) : Prop := t.dst ≠ [] ∧ t.name ≠ none

/-- The destination as `updateMtab` writes it. -/
def Target.place (t : Target) : Text := if t.file then t.dst ++ '/' :: t.name.getD [] else t.dst

/-! ## Lines that are read alike -/

/-- A character that separates words for the shell. -/
def isBlank (c : Char) : Bool := c == ' ' || c == '\t' || c == '\n'

/-- What stands before the type. -/
def before (w src v dst u : Text) : Text := w ++ (src ++ (v ++ (dst ++ u)))

/-- The parts of an entry; the tail begins with its type. -/
structure Parts (w src v dst u tail : Text) : Prop where
  w_space : ∀ c ∈ w, isspace c = true
  src_field : ∀ c ∈ src, isspace c = false
  src_ne : src ≠ []
  src_head : src.head? ≠ some '#'
  v_space : ∀ c ∈ v, isspace c = true
  v_ne : v ≠ []
  dst_field : ∀ c ∈ dst, isspace c = false
  dst_ne : dst ≠ []
  u_space : ∀ c ∈ u, isspace c = true
  u_ne : u ≠ []
  tail_ne : tail ≠ []
  tail_head : ∀ c ∈ tail.head?, isspace c = false

/-- The first word of the shell: the source, with the other white space around it. -/
def firstWord (w src v : Text) : Text :=
  w.dropWhile isBlank ++ (src ++ v.takeWhile fun c => !isBlank c)

/-- **The shell finds the same destination.**  White space that is no blank stands only where it
goes into the first word, or behind a blank that follows the destination; the first word does not
look like a comment and has no open backslash at its end; the destination has no backslash. -/
structure Alike (w src v dst u : Text) : Prop where
  lead : ∀ c ∈ w.dropWhile isBlank, isBlank c = false
  noHash : ¬ ['\\', '#'] <+: firstWord w src v
  closed : ends false false (firstWord w src v) = false
  sep_ne : v.dropWhile (fun c => !isBlank c) ≠ []
  sep : ∀ c ∈ v.dropWhile (fun c => !isBlank c), isBlank c = true
  dst_plain : '\\' ∉ dst
  behind : ∀ c ∈ u.head?, isBlank c = true

/-- A line whose first character that is no blank is a `#`, or with less than three words for the
shell. -/
def Skipped (line : Text) : Prop :=
  (line.dropWhile isBlank).head? = some '#' ∨ (readThree (marks false false line)).2.2 = []

/-- **A line is read alike**: it has no open backslash at its end, and the shell skips it or finds
the destination of the entry. -/
def ReadAlike (line : Text) : Prop :=
  ends false false line = false ∧
    match readFields line with
    | .entry _ _ _ _ => ∃ w src v dst u tail, line = before w src v dst u ++ tail ∧
        Parts w src v dst u tail ∧ Alike w src v dst u
    | _ => Skipped line

/-- The lines of a content are read alike, and it ends with a newline, up to blanks. -/
structure ReadsAlike (content : Text) : Prop where
  noNul : '\x00' ∉ content
  lines : ∀ line ∈ lines content, ReadAlike line
  last : ∀ line ∈ (FstabLines.lines content).getLast?, ∀ c ∈ line, isBlank c = true

/-- The destination of a line that is an entry. -/
def lineDst (line : Text) : Option Text :=
  match readFields line with
  | .entry _ dst _ _ => some dst
  | _ => none

/-- `exec-cd` goes to a destination. -/
def Reached (enters : Text → Bool) (dst : Text) : Prop :=
  enters dst = true ∧ dst ∉ ["--help", "--version", "--"].map String.toList

/-- **Just the destinations that are mounted can be entered**: no single file is mounted, and an
entry that is passed over (`swap`, excluded by its destination, or `noauto`) names no directory. -/
def EntersMounted (enters : Text → Bool) (opt : Options) (content : Text) : Prop :=
  ∀ line ∈ lines content, ∀ src dst type options, readFields line = .entry src dst type options →
    (Reached enters dst ↔ ¬ Passed opt dst type (elements (field options)))

/-! ## The destinations of one line -/

instance (enters : Text → Bool) (dst : Text) : Decidable (Reached enters dst) :=
  inferInstanceAs (Decidable (_ ∧ _))

/-- `umount` is called in the destinations that are reached. -/
theorem umountCall_eq (enters : Text → Bool) (umount dst : Text) :
    umountCall enters umount dst = if Reached enters dst then some dst else none := by
  unfold umountCall execCd Reached
  simp only [List.head?_cons, List.tail_cons, Option.some.injEq, List.map_cons, List.map_nil,
    List.mem_cons, List.not_mem_nil, or_false]
  generalize "--help".toList = help
  generalize "--version".toList = version
  by_cases hopt : dst = help ∨ dst = version
  · rw [if_pos hopt, if_neg]
    rintro ⟨-, hnot⟩
    exact hnot (hopt.imp_right Or.inl)
  · rw [if_neg hopt]
    by_cases hend : dst = "--".toList
    · rw [if_pos hend, if_neg fun h => h.2 (Or.inr (Or.inr hend))]
      -- the program itself is taken for the directory, so fewer words are left for the call
      simp only
      split
      · rename_i run hrun
        split at hrun
        · obtain rfl := Option.some.inj hrun
          rw [if_neg]
          intro hargv
          simpa using congrArg List.length hargv
        · cases hrun
      · rfl
    · rw [if_neg hend]
      have hnot : ¬ (dst = help ∨ dst = version ∨ dst = "--".toList) := by tauto
      simp only [hnot, not_false_eq_true, and_true]
      cases enters dst <;> simp

/-- **The place of a mount is the destination** that the line names. -/
theorem target_place {isFile : Text → Bool} {mnt : MountInfo}
    (h : (target isFile mnt).Usable) : (target isFile mnt).place = mnt.dst := by
  unfold target at h ⊢
  split at h
  · rename_i hfile
    rw [if_pos hfile]
    unfold adjustFileMount at h ⊢
    cases hslash : strrchr mnt.dst '/' with
    | some i => exact strrchr_split hslash
    | none =>
      rw [hslash] at h
      exact absurd rfl h.2
  · rename_i hfile
    rw [if_neg hfile]
    rfl

/-- Blanks at the start of a text separate nothing. -/
theorem isIfs_blanks (t : Text) :
    ∀ m ∈ (t.takeWhile isBlank).map (·, false), isIfs m = true :=
  isIfs_of_mem_map fun _ hc => (List.mem_takeWhile_imp hc : isBlank _ = true)

theorem isspace_of_isBlank {c : Char} (h : isBlank c = true) : isspace c = true := by
  unfold isBlank at h
  simp only [Bool.or_eq_true, beq_iff_eq] at h
  rcases h with (rfl | rfl) | rfl <;> decide

theorem isBlank_of_not_isspace {c : Char} (h : isspace c = false) : isBlank c = false := by
  rw [← Bool.not_eq_true]
  intro hblank
  rw [isspace_of_isBlank hblank] at h
  cases h

theorem not_mem_of_isspace {t : Text} (h : ∀ c ∈ t, isspace c = true) : '\\' ∉ t := by
  intro hmem
  have := h _ hmem
  revert this
  decide

/-- A line that does not end in an open backslash has a first character that is kept. -/
theorem marks_cons {c : Char} {t : Text} (hc : isspace c = false)
    (hends : ends false false (c :: t) = false) :
    ∃ m r, marks false false (c :: t) = m :: r ∧ isIfs m = false := by
  rw [ends] at hends
  rw [marks]
  split at hends
  · rename_i hesc
    rw [if_pos hesc]
    cases t with
    | nil => cases hends
    | cons d t => exact ⟨(d, true), marks false false t, by rw [marks], rfl⟩
  · rename_i hesc
    rw [if_neg hesc]
    exact ⟨_, _, rfl, isBlank_of_not_isspace hc⟩

theorem ends_append {p : Text} (hp : '\\' ∉ p) (t : Text) :
    ends false false (p ++ t) = ends false false t := by
  induction p with
  | nil => rfl
  | cons c p ih =>
    have hc : ¬ (c = '\\' ∧ false = false) := fun h => hp (h.1 ▸ List.mem_cons_self)
    rw [List.cons_append, ends, if_neg hc, ih fun h => hp (List.mem_cons_of_mem _ h)]

/-- What the shell makes of the first character. -/
theorem head_marks {t : Text} (hhead : t.head? ≠ some '#') (hesc : ¬ ['\\', '#'] <+: t) :
    ((marks false false t).map Prod.fst).head? ≠ some '#' := by
  cases t with
  | nil => simp [marks]
  | cons c t =>
    rw [marks]
    split
    · rename_i hc
      cases t with
      | nil => simp [marks]
      | cons d t =>
        rw [marks, List.map_cons, List.head?_cons]
        rintro ⟨⟩
        exact hesc (hc.1 ▸ ⟨t, rfl⟩)
    · exact hhead

/-- The source stands in the first word. -/
theorem firstWord_spec {w src v dst u tail : Text} (p : Parts w src v dst u tail)
    (ha : Alike w src v dst u) :
    (∀ c ∈ firstWord w src v, isBlank c = false) ∧ (firstWord w src v).head? ≠ some '#' ∧
      marks false false (firstWord w src v) ≠ [] := by
  refine ⟨?_, ?_, ?_⟩
  · intro c hc
    rcases List.mem_append.1 hc with hc | hc
    · exact ha.lead c hc
    · rcases List.mem_append.1 hc with hc | hc
      · exact isBlank_of_not_isspace (p.src_field c hc)
      · simpa using List.mem_takeWhile_imp hc
  · have hspace : ∀ c ∈ w.dropWhile isBlank, isspace c = true :=
      fun c hc => p.w_space c ((List.dropWhile_suffix isBlank).subset hc)
    unfold firstWord
    cases hw : w.dropWhile isBlank with
    | nil =>
      have hsrc := p.src_head
      have hne := p.src_ne
      cases src with
      | nil => exact absurd rfl hne
      | cons c src => exact hsrc
    | cons c o =>
      rw [hw] at hspace
      rintro ⟨⟩
      have hhash := hspace '#' List.mem_cons_self
      revert hhash
      decide
  · have hclosed := ha.closed
    obtain ⟨c, t, hword⟩ : ∃ c t, firstWord w src v = c :: t := by
      refine List.exists_cons_of_ne_nil ?_
      unfold firstWord
      simp [p.src_ne]
    rw [hword] at hclosed ⊢
    rw [ends] at hclosed
    rw [marks]
    split at hclosed
    · rename_i hesc
      rw [if_pos hesc]
      cases t with
      | nil => cases hclosed
      | cons d t =>
        rw [marks]
        exact List.cons_ne_nil _ _
    · rename_i hesc
      rw [if_neg hesc]
      exact List.cons_ne_nil _ _

/-- **An entry that is read alike** is an entry for the shell, with the same destination. -/
theorem entryOf_entry {w src v dst u tail : Text} (p : Parts w src v dst u tail)
    (ha : Alike w src v dst u) (hends : ends false false (before w src v dst u ++ tail) = false) :
    entryOf (marks false false (before w src v dst u ++ tail)) = some dst := by
  have hline : before w src v dst u ++ tail = w.takeWhile isBlank ++ (firstWord w src v ++
      (v.dropWhile (fun c => !isBlank c) ++ (dst ++ (u ++ tail)))) := by
    unfold before firstWord
    conv_lhs => rw [← List.takeWhile_append_dropWhile (p := isBlank) (l := w)]
    conv_lhs => rw [← List.takeWhile_append_dropWhile (p := fun c => !isBlank c) (l := v)]
    simp only [List.append_assoc]
  have hw : '\\' ∉ w.takeWhile isBlank :=
    not_mem_of_isspace fun c hc => isspace_of_isBlank (List.mem_takeWhile_imp hc)
  have hv : '\\' ∉ v.dropWhile fun c => !isBlank c :=
    not_mem_of_isspace fun c hc => isspace_of_isBlank (ha.sep c hc)
  have hu : '\\' ∉ u := not_mem_of_isspace p.u_space
  rw [hline, ends_append hw, (marks_append_closed _ ha.closed).2, ends_append hv,
    ends_append ha.dst_plain, ends_append hu] at hends
  obtain ⟨m, r, hmarks, hm⟩ : ∃ m r, marks false false tail = m :: r ∧ isIfs m = false := by
    have htail := p.tail_ne
    have hhead := p.tail_head
    cases tail with
    | nil => exact absurd rfl htail
    | cons c t => exact marks_cons (hhead c rfl) hends
  have hrest : marks false false (u ++ tail) = u.map (·, false) ++ m :: r := by
    rw [marks_append hu, hmarks]
  obtain ⟨hword, hhash, hwordne⟩ := firstWord_spec p ha
  have hmap {t : Text} (ht : t ≠ []) : t.map (·, false) ≠ ([] : List Mark) := by
    simpa using ht
  obtain ⟨tmp, htmp, hread⟩ := @readThree_words ((w.takeWhile isBlank).map (·, false))
    (marks false false (firstWord w src v)) ((v.dropWhile fun c => !isBlank c).map (·, false))
    (dst.map (·, false)) (marks false false (u ++ tail)) m
    (isIfs_blanks w)
    (isIfs_of_mem_marks hword) hwordne (isIfs_of_mem_map ha.sep) (hmap ha.sep_ne)
    (isIfs_of_mem_map fun c hc => isBlank_of_not_isspace (p.dst_field c hc)) (hmap p.dst_ne)
    (by
      have hne := p.u_ne
      have hbehind := ha.behind
      rw [hrest]
      cases u with
      | nil => exact absurd rfl hne
      | cons c u =>
        rintro _ ⟨⟩
        exact hbehind c rfl)
    (by rw [hrest]; simp) hm
  have hdst : (dst.map (·, false)).map Prod.fst = dst := by
    rw [List.map_map]
    exact List.map_id dst
  rw [hline, marks_append hw, (marks_append_closed _ ha.closed).1, marks_append hv,
    marks_append ha.dst_plain]
  unfold entryOf
  rw [hread]
  simp only
  rw [if_neg htmp, if_neg (head_marks hhash ha.noHash), hdst]

/-- **A line that is skipped** is no entry for the shell. -/
theorem entryOf_skipped {line : Text} (h : Skipped line) :
    entryOf (marks false false line) = none := by
  rcases h with h | h
  · obtain ⟨t, ht⟩ : ∃ t, line.dropWhile isBlank = '#' :: t := by
      cases hline : line.dropWhile isBlank with
      | nil => rw [hline] at h; cases h
      | cons c t =>
        rw [hline] at h
        exact ⟨t, by rw [Option.some.inj h]⟩
    have hw : '\\' ∉ line.takeWhile isBlank :=
      not_mem_of_isspace fun c hc => isspace_of_isBlank (List.mem_takeWhile_imp hc)
    have hmarks : marks false false ('#' :: t) = ('#', false) :: marks false false t := by
      rw [marks, if_neg (by decide)]
    have hsrc : (readThree (('#', false) :: marks false false t)).1.head? = some '#' := by
      have hhash : isIfs ('#', false) = false := rfl
      simp [readThree, word, hhash]
    conv_lhs => rw [← List.takeWhile_append_dropWhile (p := isBlank) (l := line)]
    rw [marks_append hw, ht, hmarks]
    unfold entryOf
    rw [readThree_blanks (isIfs_blanks line)]
    simp [hsrc]
  · unfold entryOf
    exact if_pos h

/-- The destination of an entry that is made of these parts. -/
theorem entry_dst {w src v dst u tail s d type options : Text} (p : Parts w src v dst u tail)
    (h : readFields (before w src v dst u ++ tail) = .entry s d type options) : d = dst := by
  have hstop {t r : Text} (ht : ∀ c ∈ t, isspace c = false) (hne : t ≠ []) :
      (t ++ r).dropWhile isspace = t ++ r := by
    cases t with
    | nil => exact absurd rfl hne
    | cons c t =>
      rw [List.cons_append, List.dropWhile_cons_of_neg]
      rw [ht c List.mem_cons_self]
      exact Bool.false_ne_true
  have hmove {t sep r : Text} (ht : ∀ c ∈ t, isspace c = false)
      (hsep : ∀ c ∈ sep, isspace c = true) (hne : sep ≠ []) :
      moveToNextField false (t ++ (sep ++ r)) = some (t, r.dropWhile isspace) := by
    cases sep with
    | nil => exact absurd rfl hne
    | cons c sep =>
      rw [List.cons_append, moveToNextField_append ht (hsep c List.mem_cons_self),
        List.dropWhile_append_of_pos fun x hx => hsep x (List.mem_cons_of_mem _ hx)]
  have hstart : (before w src v dst u ++ tail).dropWhile isspace =
      src ++ (v ++ (dst ++ (u ++ tail))) := by
    unfold before
    simp only [List.append_assoc]
    rw [List.dropWhile_append_of_pos p.w_space, hstop p.src_field p.src_ne]
  unfold readFields at h
  rw [hstart] at h
  simp only at h
  split at h
  · cases h
  · unfold entryFields at h
    rw [hmove p.src_field p.v_space p.v_ne, hstop p.dst_field p.dst_ne] at h
    simp only at h
    rw [hmove p.dst_field p.u_space p.u_ne] at h
    simp only at h
    split at h
    · cases h
    · cases h
      rfl

/-- The shell reads a line as `parseFstabLine` does. -/
theorem entryOf_alike {line : Text} (halike : ReadAlike line) :
    entryOf (marks false false line) = lineDst line := by
  obtain ⟨hends, halike⟩ := halike
  unfold lineDst
  cases h : readFields line with
  | comment =>
    rw [h] at halike
    exact entryOf_skipped halike
  | incomplete =>
    rw [h] at halike
    exact entryOf_skipped halike
  | entry src dst type options =>
    rw [h] at halike
    obtain ⟨w, src', v, dst', u, tail, rfl, hparts, hread⟩ := halike
    rw [entryOf_entry hparts hread hends, entry_dst hparts h]

/-! ## The whole file -/

theorem lines_ne_nil (content : Text) : lines content ≠ [] := List.splitOn_ne_nil _ _

/-- A content and its lines but the last one, and the last one. -/
theorem lines_eq (content : Text) :
    lines content = (lines content).dropLast ++ [(lines content).getLastD []] := by
  conv_lhs => rw [← List.dropLast_append_getLast (lines_ne_nil content)]
  rw [List.getLastD_eq_getLast?, List.getLast?_eq_some_getLast (lines_ne_nil content)]
  rfl

theorem lineDst_blank {line : Text} (h : ∀ c ∈ line, isBlank c = true) : lineDst line = none := by
  have hdrop : line.dropWhile isspace = [] :=
    List.dropWhile_eq_nil_iff.2 fun c hc => isspace_of_isBlank (h c hc)
  unfold lineDst readFields
  simp [hdrop]

/-- **The entries of the shell** are those of the lines, from the end on. -/
theorem entries_eq {content : Text} (halike : ReadsAlike content) :
    (records false false [] (tac content)).filterMap entryOf =
      ((lines content).filterMap lineDst).reverse := by
  have hlines := lines_eq content
  generalize hinit : (lines content).dropLast = init at hlines
  generalize hlast : (lines content).getLastD [] = last at hlines
  have hblank : ∀ c ∈ last, isBlank c = true := by
    refine halike.last last ?_
    rw [hlines]
    simp
  have hmem : ∀ l ∈ init, l ∈ lines content := fun l hl => hlines ▸ List.mem_append_left _ hl
  have hclosed : ∀ l ∈ lines content, '\n' ∉ l ∧ '\x00' ∉ l ∧ ends false false l = false :=
    fun l hl => ⟨not_mem_of_mem_splitOn _ _ l hl,
      fun h => halike.noNul (subset_of_mem_splitOn _ _ l hl h), (halike.lines l hl).1⟩
  have hbs : '\\' ∉ last := not_mem_of_isspace fun c hc => isspace_of_isBlank (hblank c hc)
  have hmarks : ∀ m ∈ last.map (·, false), isIfs m = true := isIfs_of_mem_map hblank
  have hrecords : (records false false [] (last ++ init.reverse.flatMap fun l => l ++ ['\n'])
      ).filterMap entryOf = init.reverse.filterMap fun l => entryOf (marks false false l) := by
    have hlastnl : '\n' ∉ last := (hclosed last (by rw [hlines]; simp)).1
    have hlastnul : '\x00' ∉ last := (hclosed last (by rw [hlines]; simp)).2.1
    cases hrev : init.reverse with
    | nil => rw [List.flatMap_nil, List.append_nil, records_of_not_mem _ _ hlastnl]; rfl
    | cons l ls =>
      have hin : ∀ x ∈ l :: ls, x ∈ lines content := by
        intro x hx
        exact hmem x (List.mem_reverse.1 (hrev ▸ hx))
      obtain ⟨hnl, hnul, hends⟩ := hclosed l (hin l List.mem_cons_self)
      rw [List.flatMap_cons, List.append_assoc, List.singleton_append, ← List.append_assoc,
        records_line false [] _ (by simp [hlastnl, hnl]) (by simp [hlastnul, hnul])
          (by rw [ends_append hbs]; exact hends),
        records_lines fun x hx => hclosed x (hin x (List.mem_cons_of_mem _ hx)), List.nil_append,
        marks_append hbs]
      have hfirst : entryOf (last.map (·, false) ++ marks false false l) =
          entryOf (marks false false l) := by
        unfold entryOf
        rw [readThree_blanks hmarks]
      rw [List.filterMap_cons, hfirst, List.filterMap_cons, List.filterMap_map]
      rfl
  have hsame : init.reverse.filterMap (fun l => entryOf (marks false false l)) =
      init.reverse.filterMap lineDst := by
    refine List.filterMap_congr fun l hl => ?_
    have hl' := hmem l (List.mem_reverse.1 hl)
    exact entryOf_alike (halike.lines l hl')
  unfold tac
  rw [hinit, hlast, hrecords, hsame, hlines, List.filterMap_append, List.filterMap_reverse]
  simp [lineDst_blank hblank]

/-- The destination of a line, if `umount` is called for it. -/
def umountedDst (enters : Text → Bool) (umount line : Text) : Option Text :=
  (lineDst line).bind (umountCall enters umount)

/-- **The destinations that are unmounted** are those of the lines, from the end on. -/
theorem umountDestinations_eq {enters : Text → Bool} {umount content : Text}
    (halike : ReadsAlike content) :
    umountDestinations enters umount content =
      ((lines content).filterMap (umountedDst enters umount)).reverse := by
  have hsplit : umountDestinations enters umount content =
      ((records false false [] (tac content)).filterMap entryOf).filterMap
        (umountCall enters umount) := by
    rw [List.filterMap_filterMap]
    rfl
  rw [hsplit, entries_eq halike, List.filterMap_reverse, List.filterMap_filterMap]
  rfl

/-! ## Mounting and unmounting -/

/-- The destination that a line is mounted at. -/
def mountedDst (opt : Options) (line : Text) : Option Text :=
  (asked opt line).head?.map MountInfo.dst

/-- Two selections of which one is a part of the other are the same only line by line. -/
theorem filterMap_eq_iff {α β : Type*} {f g : α → Option β} : ∀ {l : List α},
    (∀ x ∈ l, g x = f x ∨ g x = none) →
    (l.filterMap f = l.filterMap g ↔ ∀ x ∈ l, f x = g x) := by
  have hlen : ∀ {l : List α}, (∀ x ∈ l, g x = f x ∨ g x = none) →
      (l.filterMap g).length ≤ (l.filterMap f).length := by
    intro l
    induction l with
    | nil => simp
    | cons x l ih =>
      intro h
      have ih := ih fun y hy => h y (List.mem_cons_of_mem _ hy)
      rw [List.filterMap_cons, List.filterMap_cons]
      rcases h x List.mem_cons_self with hx | hx
      · rw [hx]
        cases f x with
        | none => exact ih
        | some y =>
          simp only [List.length_cons]
          omega
      · rw [hx]
        cases f x with
        | none => exact ih
        | some y =>
          simp only [List.length_cons]
          omega
  intro l
  induction l with
  | nil => simp
  | cons x l ih =>
    intro h
    have h' : ∀ y ∈ l, g y = f y ∨ g y = none := fun y hy => h y (List.mem_cons_of_mem _ hy)
    have ih := ih h'
    have hlen := hlen h'
    rw [List.filterMap_cons, List.filterMap_cons, List.forall_mem_cons, ← ih]
    rcases h x List.mem_cons_self with hx | hx
    · rw [hx]
      cases f x with
      | none => simp
      | some y => simp
    · rw [hx]
      cases f x with
      | none => simp
      | some y =>
        refine iff_of_false ?_ (by simp)
        intro heq
        have hcount := congrArg List.length heq
        simp only [List.length_cons] at hcount
        omega

theorem mountedDst_comment {opt : Options} {line : Text} (h : readFields (cstring line) = .comment) :
    mountedDst opt line = none := by
  rw [mountedDst, asked_of_comment h]
  rfl

/-- An entry is mounted at its destination unless it is passed. -/
theorem mountedDst_entry {opt : Options} {line src dst type options : Text}
    (h : readFields (cstring line) = .entry src dst type options) :
    (Passed opt dst type (elements (field options)) → mountedDst opt line = none) ∧
      (¬ Passed opt dst type (elements (field options)) → mountedDst opt line = some dst) := by
  obtain ⟨hpassed, hasked⟩ := asked_entry h
  unfold mountedDst
  refine ⟨fun hp => ?_, fun hp => ?_⟩
  · rw [hpassed hp]
    rfl
  · rw [hasked hp, List.head?_cons, Option.map_some, seen_dst]
    rfl

theorem requestsOf_dst (malloc : Nat → List Char) {opt : Options} {line : Text}
    (h : Accepted opt line) :
    (requestsOf malloc opt line).map MountInfo.dst = (mountedDst opt line).toList := by
  rw [accepted_iff] at h
  cases hread : readFields (cstring line) with
  | comment => rw [requestsOf_of_comment hread, mountedDst_comment hread]; rfl
  | incomplete => exact absurd hread h
  | entry src dst type options =>
    obtain ⟨hpassed, hasked⟩ := @requestsOf_entry malloc opt _ _ _ _ _ hread
    obtain ⟨hnone, hsome⟩ := @mountedDst_entry opt _ _ _ _ _ hread
    by_cases hp : Passed opt dst type (elements (field options))
    · rw [hpassed hp, hnone hp]
      rfl
    · rw [hasked hp, hsome hp]
      rfl

/-- The destinations of the requests are those of the lines. -/
theorem requestsFrom_dst (mallocs : Nat → Nat → List Char) {opt : Options} :
    ∀ {ls : List Text} (line_nr : Nat), (∀ l ∈ ls, Accepted opt l) →
      (requestsFrom mallocs opt line_nr ls).map MountInfo.dst = ls.filterMap (mountedDst opt)
  | [], _, _ => rfl
  | l :: ls, line_nr, h => by
    rw [requestsFrom, List.map_append, requestsOf_dst _ (h l List.mem_cons_self),
      requestsFrom_dst mallocs _ fun x hx => h x (List.mem_cons_of_mem _ hx), List.filterMap_cons]
    cases mountedDst opt l <;> rfl

/-- A line is unmounted as it was mounted exactly when its destination is entered as it should. -/
theorem umountedDst_iff {enters : Text → Bool} {umount : Text} {opt : Options} {line : Text}
    (hnul : '\x00' ∉ line) (h : Accepted opt line) :
    umountedDst enters umount line = mountedDst opt line ↔
      ∀ src dst type options, readFields line = .entry src dst type options →
        (Reached enters dst ↔ ¬ Passed opt dst type (elements (field options))) := by
  rw [accepted_iff] at h
  have hsame := cstring_of_not_mem hnul
  rw [hsame] at h
  unfold umountedDst lineDst
  cases hread : readFields line with
  | comment =>
    rw [mountedDst_comment (by rw [hsame, hread])]
    simp
  | incomplete => exact absurd hread h
  | entry src dst type options =>
    obtain ⟨hnone, hsome⟩ := @mountedDst_entry opt _ _ _ _ _ (by rw [hsame, hread])
    rw [Option.bind_some, umountCall_eq]
    have hforall : (∀ s d t o, Line.entry src dst type options = .entry s d t o →
        (Reached enters d ↔ ¬ Passed opt d t (elements (field o)))) ↔
        (Reached enters dst ↔ ¬ Passed opt dst type (elements (field options))) := by
      constructor
      · exact fun h => h _ _ _ _ rfl
      · rintro h _ _ _ _ ⟨⟩
        exact h
    rw [hforall]
    by_cases hp : Passed opt dst type (elements (field options))
    · rw [hnone hp]
      split <;> simp [*]
    · rw [hsome hp]
      split <;> simp [*]

/-- Both sequences are the same exactly when they are the same line by line: what is mounted can be
entered, so it is unmounted at its own line. -/
theorem sequences_iff {enters : Text → Bool} {umount : Text} {opt : Options} {content : Text}
    (hnul : '\x00' ∉ content) (hfail : ∀ line ∈ lines content, Accepted opt line) :
    (lines content).filterMap (umountedDst enters umount) =
        (lines content).filterMap (mountedDst opt) ↔
      ∀ line ∈ lines content, umountedDst enters umount line = mountedDst opt line := by
  constructor
  · intro heq
    refine (filterMap_eq_iff fun line hline => ?_).1 heq
    cases hmounted : mountedDst opt line with
    | none => exact Or.inr rfl
    | some dst =>
      left
      have hmem : dst ∈ (lines content).filterMap (umountedDst enters umount) := by
        rw [heq]
        exact List.mem_filterMap.2 ⟨line, hline, hmounted⟩
      have hreached : Reached enters dst := by
        obtain ⟨other, -, hother⟩ := List.mem_filterMap.1 hmem
        obtain ⟨d, -, hd⟩ := Option.bind_eq_some_iff.1 hother
        rw [umountCall_eq] at hd
        split at hd
        · rename_i hr
          rwa [← Option.some.inj hd]
        · cases hd
      have hnul' : '\x00' ∉ line := fun h => hnul (subset_of_mem_splitOn _ _ line hline h)
      have hsame := cstring_of_not_mem hnul'
      have haccepted := accepted_iff.1 (hfail line hline)
      cases hread : readFields (cstring line) with
      | comment => rw [mountedDst_comment hread] at hmounted; cases hmounted
      | incomplete => exact absurd hread haccepted
      | entry src d type options =>
        obtain ⟨hnone, hsome⟩ := @mountedDst_entry opt _ _ _ _ _ hread
        by_cases hp : Passed opt d type (elements (field options))
        · rw [hnone hp] at hmounted
          cases hmounted
        · rw [hsome hp] at hmounted
          obtain rfl := Option.some.inj hmounted
          rw [hsame] at hread
          unfold umountedDst lineDst
          rw [hread, Option.bind_some, umountCall_eq, if_pos hreached]
  · exact List.filterMap_congr

/-- **Unmounting reverses mounting**: for a content that both readers take apart alike, no line is an
entry for one of them only, and when no mount fails for want of a path, the destinations of the
unmounts are those of the mounts in reverse order exactly when just the mounted destinations can be
entered. -/
theorem umountVserver_reverses (mallocs : Nat → Nat → List Char) (isFile enters : Text → Bool)
    (umount : Text) (opt : Options) (content : Text)
    (hfail : ∀ line ∈ lines content, Accepted opt line) (halike : ReadsAlike content) :
    (∀ line ∈ lines content, entryOf (marks false false line) = lineDst line) ∧
      ∃ requests, mountFstab mallocs opt content = .done requests ∧
        ((∀ mnt ∈ requests, (target isFile mnt).Usable) →
          (umountDestinations enters umount content =
              (requests.map fun mnt => (target isFile mnt).place).reverse ↔
            EntersMounted enters opt content)) := by
  refine ⟨fun line hline => entryOf_alike (halike.lines line hline), ?_⟩
  have hended : ∀ line ∈ (lines content).getLast?, Ended opt line := by
    intro line hline
    have hnone := lineDst_blank (halike.last line hline)
    unfold lineDst at hnone
    unfold Ended
    cases h : readFields line with
    | entry src dst type options => rw [h] at hnone; cases hnone
    | _ => trivial
  obtain ⟨init, last, hlines, hhash, -⟩ := lines_hash halike.noNul
  obtain ⟨hnul', haccepted⟩ := accepted_hash halike.noNul hlines hfail
  refine ⟨_, mountFstab_done hhash haccepted, fun husable => ?_⟩
  have hlast : mountedDst opt (last ++ ['#']) = mountedDst opt last := by
    unfold mountedDst
    rw [(asked_hash hnul' (hfail last (by simp [hlines]))).2.2 (hended last (by simp [hlines]))]
  have hplaces : (requestsFrom mallocs opt 1 (init ++ [last ++ ['#']])).map
      (fun mnt => (target isFile mnt).place) = (lines content).filterMap (mountedDst opt) := by
    have hdst := requestsFrom_dst mallocs 1 haccepted
    rw [List.filterMap_append, List.filterMap_cons, List.filterMap_nil, hlast] at hdst
    rw [hlines, List.filterMap_append, List.filterMap_cons, List.filterMap_nil, ← hdst]
    exact List.map_congr_left fun mnt hmnt => target_place (husable mnt hmnt)
  rw [umountDestinations_eq halike, hplaces, List.reverse_inj, sequences_iff halike.noNul hfail]
  refine forall₂_congr fun line hline => umountedDst_iff ?_ (hfail line hline)
  exact fun h => halike.noNul (subset_of_mem_splitOn _ _ line hline h)

/-- The call of `mountVserver`. -/
def fstabOptions : Options := ⟨.rfsNO, false⟩

def umountProg : Text := "/bin/umount".toList

theorem oneEntry_parts :
    Parts [] "a\\040b".toList [' '] ['/', 'b'] [' '] "c d".toList where
  w_space := fun _ hc => absurd hc List.not_mem_nil
  src_field := forall_mem_of_all (by decide)
  src_ne := by decide
  src_head := by decide
  v_space := forall_mem_of_all (by decide)
  v_ne := by decide
  dst_field := forall_mem_of_all (by decide)
  dst_ne := by decide
  u_space := forall_mem_of_all (by decide)
  u_ne := by decide
  tail_ne := by decide
  tail_head := by
    rintro _ ⟨⟩
    decide

theorem oneEntry_alike : Alike [] "a\\040b".toList [' '] ['/', 'b'] [' '] where
  lead := fun _ hc => absurd hc List.not_mem_nil
  noHash := by decide
  closed := by decide
  sep_ne := by decide
  sep := forall_mem_of_all (by decide)
  dst_plain := by decide
  behind := by
    rintro _ ⟨⟩
    decide

/-- An entry whose source has a backslash. -/
def oneEntry : Text := "a\\040b /b c d\n".toList

theorem oneEntry_lines : lines oneEntry = ["a\\040b /b c d".toList, []] := by decide

theorem oneEntry_read : readFields "a\\040b /b c d".toList =
    .entry "a\\040b".toList ['/', 'b'] ['c'] ['d'] := by decide

theorem oneEntry_accepted : ∀ line ∈ lines oneEntry, Accepted fstabOptions line := by
  intro line hline
  rw [accepted_iff]
  revert line
  decide

theorem oneEntry_readsAlike : ReadsAlike oneEntry := by
  refine ⟨by decide, ?_, ?_⟩
  · rw [oneEntry_lines]
    intro line hline
    rcases List.mem_cons.1 hline with rfl | hline
    · refine ⟨by decide, ?_⟩
      rw [oneEntry_read]
      exact ⟨[], "a\\040b".toList, [' '], ['/', 'b'], [' '], "c d".toList, rfl, oneEntry_parts,
        oneEntry_alike⟩
    · obtain rfl := List.mem_singleton.1 hline
      exact ⟨rfl, Or.inr rfl⟩
  · rw [oneEntry_lines]
    rintro _ ⟨⟩
    exact forall_mem_of_all (by decide)

theorem oneEntry_mounted :
    ¬ Passed fstabOptions ['/', 'b'] ['c'] (elements (field ['d'])) := by
  rintro (h | h | ⟨-, e, he, hno⟩)
  · exact absurd h (by decide)
  · exact absurd h (by decide)
  · revert e
    decide

/-- The one request that is made. -/
theorem oneEntry_requests : mountFstab (fun _ => zeros) fstabOptions oneEntry =
    .done [transformOptionList zeros (fieldsInfo "a\\040b".toList ['/', 'b'] ['c'] ['d'])] := by
  have hls : lines (cstring (oneEntry ++ ['#'])) = ["a\\040b /b c d".toList, ['#']] := by decide
  have hfail : ∀ l ∈ ["a\\040b /b c d".toList, ['#']], Accepted fstabOptions l := by
    rintro l (_ | ⟨_, hl⟩)
    · exact oneEntry_accepted _ (oneEntry_lines ▸ List.mem_cons_self)
    · rw [List.mem_singleton.1 hl]
      exact accepted_hash_only _
  have hone := (@requestsOf_entry zeros fstabOptions "a\\040b /b c d".toList "a\\040b".toList
    ['/', 'b'] ['c'] ['d'] (by decide)).2 oneEntry_mounted
  have hhash : requestsOf zeros fstabOptions ['#'] = [] :=
    requestsOf_of_comment readFields_hash_only
  rw [mountFstab_done hls hfail, requestsFrom, requestsFrom, requestsFrom, hone, hhash]
  rfl

/-- Only the destination is a directory. -/
theorem umountVserver_reverses_oneEntry :
    ∃ requests, mountFstab (fun _ => zeros) fstabOptions oneEntry = .done requests ∧
      umountDestinations (· == "/b".toList) umountProg oneEntry =
        (requests.map fun mnt => (target (· == "/file".toList) mnt).place).reverse := by
  obtain ⟨-, requests, hdone, hiff⟩ := umountVserver_reverses (fun _ => zeros)
    (· == "/file".toList) (· == "/b".toList) umountProg fstabOptions oneEntry oneEntry_accepted
    oneEntry_readsAlike
  refine ⟨requests, hdone, (hiff fun mnt hmnt => ?_).2 ?_⟩
  · rw [oneEntry_requests] at hdone
    cases hdone
    obtain rfl := List.mem_singleton.1 hmnt
    exact ⟨by decide, by decide⟩
  · rw [EntersMounted, oneEntry_lines]
    intro line hline src dst type options h
    rcases List.mem_cons.1 hline with rfl | hline
    · rw [oneEntry_read] at h
      cases h
      exact iff_of_true ⟨rfl, by decide⟩ oneEntry_mounted
    · obtain rfl := List.mem_singleton.1 hline
      cases h

/-- An entry with `noauto` is not mounted, but unmounted. -/
theorem umountDestinations_noauto :
    (∀ line ∈ lines "a /b c noauto\n".toList, Accepted fstabOptions line) ∧
      mountFstab (fun _ => zeros) fstabOptions "a /b c noauto\n".toList = .done [] ∧
      umountDestinations (fun _ => true) umountProg "a /b c noauto\n".toList = ["/b".toList] := by
  have hlines : lines (cstring ("a /b c noauto\n".toList ++ ['#'])) =
      ["a /b c noauto".toList, ['#']] := by decide
  have hread : readFields (cstring "a /b c noauto".toList) =
      .entry ['a'] ['/', 'b'] ['c'] "noauto".toList := by decide
  have hnone : requestsOf zeros fstabOptions "a /b c noauto".toList = [] :=
    (requestsOf_entry hread).1 (Or.inr (Or.inr ⟨rfl, "noauto".toList, by decide⟩))
  have hhash : requestsOf zeros fstabOptions ['#'] = [] := requestsOf_of_comment readFields_hash_only
  refine ⟨?_, ?_, by decide⟩
  · intro line hline
    rw [accepted_iff]
    revert line
    decide
  · rw [mountFstab_done hlines]
    · simp only [requestsFrom, hnone, hhash, List.append_nil]
    · intro line hline
      rw [accepted_iff]
      revert line
      decide

end UmountFstab
