import UtilVserver.Scriptlets
import Mathlib.Data.List.Nodup

/-!
# Which scriptlets the native start and the shell run

* `visitPath_eq` — the native program puts a NUL in front of the names in `<flavor>.d`, and so runs
  none of them.
* `shell_ran` — the shell runs the file and the entries, but no backups.

Principal result: `execScriptlets_agree` — both run what is to run exactly when that is at most the
file `<flavor>`.
-/

set_option autoImplicit false

namespace Scriptlets

open CString PathInfo

/-! ## Names and paths -/

/-- The shell takes every leftover for a backup, in any directory. -/
theorem backup_of_suffix {name : Text}
    (h : (Native.suffixes.any fun suf => suf.isSuffixOf name) = true) (dir : Text) :
    Shell.backup (dir ++ '/' :: name) = true := by
  have hpath : ∀ suf : Text, suf <:+ name → suf <:+ dir ++ '/' :: name := fun suf hsuf =>
    (hsuf.trans (List.suffix_cons '/' name)).trans (List.suffix_append dir _)
  simp only [Native.suffixes, List.any_cons, List.any_nil, Bool.or_false, Bool.or_eq_true,
    List.isSuffixOf_iff_suffix] at h
  simp only [Shell.backup, Bool.or_eq_true, List.isSuffixOf_iff_suffix]
  rcases h with h | h | h | h
  · exact .inl (.inl (.inl (.inl (.inr (hpath _ h)))))
  · exact .inl (.inl (.inl (.inl (.inl (hpath _ h)))))
  · exact .inl (.inl (.inl (.inr (hpath _ h))))
  · refine .inl (.inl (.inr ?_))
    obtain ⟨a, ha⟩ := hpath _ h
    have hfound := strstr_inside a ".cfsaved".toList []
    rwa [List.append_nil, ha] at hfound

/-- A path leaves no choice for its last name. -/
theorem slash_inj {a b n m : Text} (hn : '/' ∉ n) (hm : '/' ∉ m)
    (h : a ++ '/' :: n = b ++ '/' :: m) : a = b ∧ n = m := by
  rcases List.append_eq_append_iff.mp h with ⟨l, rfl, hl⟩ | ⟨l, rfl, hl⟩
  · cases l with
    | nil => exact ⟨(List.append_nil a).symm, (List.cons.inj hl).2⟩
    | cons c l =>
      rw [(List.cons.inj hl).2] at hn
      exact absurd (List.mem_append_right l List.mem_cons_self) hn
  · cases l with
    | nil => exact ⟨List.append_nil b, (List.cons.inj hl).2.symm⟩
    | cons c l =>
      rw [(List.cons.inj hl).2] at hm
      exact absurd (List.mem_append_right l List.mem_cons_self) hm

/-- No `scripts` directory is a `<flavor>.d`, so no entry of one is a `<flavor>` file. -/
theorem entry_ne_file (x y : Text) (flavor : Flavor) (name : FileName) :
    dirPath y flavor ++ '/' :: name.text ≠ filePath (x ++ "/scripts".toList) flavor := by
  intro h
  have hdir := (slash_inj name.no_slash flavor.name.no_slash h).1
  have hlast : (dirPath y flavor).getLast? = (x ++ "/scripts".toList).getLast? := by rw [hdir]
  have hd : ".d".toList.getLast? = some 'd' := by decide
  have hs : "/scripts".toList.getLast? = some 's' := by decide
  rw [dirPath, List.getLast?_append, List.getLast?_append, hd, hs] at hlast
  simp at hlast

theorem entry_ne_own (base : Text) (flavor : Flavor) (name : Text) :
    dirPath base flavor ++ '/' :: name ≠ filePath base flavor := by
  simp [dirPath]

theorem defaultBase_eq (confdir : CStr) :
    defaultBase confdir = (confdir.text ++ "/.defaults".toList) ++ "/scripts".toList := by
  rw [List.append_assoc]
  rfl

/-! ## The native scriptlets -/

variable {w : World} {base : Text} {flavor : Flavor}

theorem filePath_noNul (hbase : '\x00' ∉ base) : '\x00' ∉ filePath base flavor := by
  simp only [filePath, List.mem_append, List.mem_cons, not_or]
  exact ⟨hbase, by decide, flavor.noNul⟩

theorem dirPath_noNul (hbase : '\x00' ∉ base) : '\x00' ∉ dirPath base flavor := by
  rw [dirPath, List.mem_append, not_or]
  exact ⟨filePath_noNul hbase, by decide⟩

theorem visitFile_missing {buf : Text} (h : w.stat (cstr buf) = none) :
    Native.visitFile w buf = ⟨[], some false⟩ := by
  simp only [Native.visitFile, h]

theorem visitFile_directory {buf : Text} {st : Stat} (h : w.stat (cstr buf) = some st)
    (hdir : st.regular = false) : Native.visitFile w buf = ⟨[], some false⟩ := by
  simp only [Native.visitFile, h, hdir, if_true]

/-- What the native program runs for a file that can be run. -/
def started (w : World) (path : Text) : List Program :=
  match Native.setParams (w.stack path) with
  | none => []
  | some cmd =>
    if (w.exec (Native.programOf path cmd)).isSome then [Native.programOf path cmd] else []

theorem setParams_filename {cmd cmd' : Command} (h : Native.setParams cmd = some cmd') :
    cmd'.filename = cmd.filename := by
  unfold Native.setParams at h
  split at h <;> cases h
  rfl

theorem visitFile_runnable {buf : Text} (h : Runnable w (cstr buf)) :
    (Native.visitFile w buf).ran = started w (cstr buf) ∧
      (Native.visitFile w buf).result ≠ some false := by
  obtain ⟨⟨st, hst, hreg, hmode, -⟩, -⟩ := h
  simp only [Native.visitFile, started, hst, hreg, hmode, Bool.true_eq_false, if_false]
  cases Native.setParams (w.stack (cstr buf)) with
  | none => simp
  | some cmd =>
    simp only
    cases w.exec (Native.programOf (cstr buf) cmd) with
    | none => simp
    | some ok =>
      refine ⟨rfl, ?_⟩
      simp only
      split <;> simp

theorem started_cases (w : World) (path : Text) :
    started w path = [] ∨ ∃ cmd, Native.setParams (w.stack path) = some cmd ∧
      started w path = [Native.programOf path cmd] := by
  unfold started
  cases hset : Native.setParams (w.stack path) with
  | none => exact .inl rfl
  | some cmd =>
    simp only
    split
    · exact .inr ⟨cmd, rfl, rfl⟩
    · exact .inl rfl

theorem programOf_file {path path' : Text} {cmd : Command}
    (h : Native.programOf path cmd = .file path') : path = path' ∧ cmd.filename = 0 := by
  unfold Native.programOf at h
  split at h
  · rename_i h0
    exact ⟨Program.file.inj h, h0⟩
  · cases h

/-- The file itself is started exactly when the stack holds a usable command. -/
theorem started_self {path : Text} (hexec : w.exec (.file path) = some true) :
    started w path = [.file path] ↔ CommandOk w path := by
  constructor
  · intro h
    rcases started_cases w path with hnil | ⟨cmd, hset, hone⟩
    · rw [hnil] at h
      cases h
    · rw [hone] at h
      have h0 := (programOf_file (List.singleton_inj.mp h)).2
      rw [setParams_filename hset] at h0
      exact ⟨Option.isSome_iff_exists.mpr ⟨cmd, hset⟩, h0⟩
  · rintro ⟨hsome, h0⟩
    obtain ⟨cmd, hset⟩ := Option.isSome_iff_exists.mp hsome
    have hprog : Native.programOf path cmd = .file path :=
      if_pos ((setParams_filename hset).trans h0)
    simp [started, hset, hprog, hexec]

/-- The names are behind the NUL: what is looked at is the directory. -/
theorem visitDirentry_nothing {ns : List FileName} (hbase : '\x00' ∉ base)
    (hread : w.readdir (dirPath base flavor ++ ['/']) = some ns) (name : FileName) :
    Native.visitDirentry w (dirPath base flavor ++ ['/'] ++ ['\x00']) name =
      ⟨[], some false⟩ := by
  unfold Native.visitDirentry
  split
  · rfl
  · obtain ⟨st, hst, hdir⟩ := w.directory _ ns hread
    have hnul : '\x00' ∉ dirPath base flavor ++ ['/'] := by
      rw [List.mem_append, not_or]
      exact ⟨dirPath_noNul hbase, by decide⟩
    have hbuf : dirPath base flavor ++ ['/'] ++ ['\x00'] ++ name.text ++ ['\x00'] =
        (dirPath base flavor ++ ['/']) ++ '\x00' :: (name.text ++ ['\x00']) := by simp
    exact visitFile_directory (by rw [hbuf, cstr_nul hnul, hst]) hdir

theorem foldl_nothing {path : Text} (h : ∀ name, Native.visitDirentry w path name =
    ⟨[], some false⟩) : ∀ (ns : List FileName) (v : Native.Visit),
    ns.foldl (fun v name => v.andThen (Native.visitDirentry w path name)) v = v
  | [], _ => rfl
  | name :: ns, v => by
    have hone : v.andThen (Native.visitDirentry w path name) = v := by
      rw [h name]
      obtain ⟨ran, result⟩ := v
      cases result <;> simp [Native.Visit.andThen]
    rw [List.foldl_cons, hone]
    exact foldl_nothing h ns v

theorem file_eq_nil : file w base flavor = [] ↔ w.stat (filePath base flavor) = none := by
  unfold file
  cases w.stat (filePath base flavor) <;> simp

/-- **The native start runs no entry of a directory.** -/
theorem visitPath_eq (hbase : '\x00' ∉ base) :
    Native.visitPath w (base ++ ['/']) flavor =
      Native.visitFile w (filePath base flavor ++ ['\x00']) := by
  have hfile : base ++ ['/'] ++ flavor.name.text = filePath base flavor := by
    rw [List.append_assoc]
    rfl
  have hpath : filePath base flavor ++ ".d/".toList ++ ['\x00'] =
      dirPath base flavor ++ ['/'] ++ ['\x00'] := by
    rw [dirPath, List.append_assoc _ ".d".toList ['/']]
    rfl
  unfold Native.visitPath
  simp only [hfile, hpath]
  split
  · rfl
  · rename_i ns hread
    have hnul : '\x00' ∉ dirPath base flavor ++ ['/'] := by
      rw [List.mem_append, not_or]
      exact ⟨dirPath_noNul hbase, by decide⟩
    rw [cstr_nul hnul] at hread
    exact foldl_nothing (visitDirentry_nothing hbase hread) ns _

/-- A file of the flavor can be run. -/
theorem file_runnable (hall : AllRunnable w base flavor)
    (hst : w.stat (filePath base flavor) ≠ none) : Runnable w (filePath base flavor) := by
  refine hall _ (List.mem_append_left _ ?_)
  rw [file, if_pos (Option.isSome_iff_ne_none.mpr hst)]
  exact List.mem_singleton_self _

/-- What the native program runs below one directory. -/
def nativeFile (w : World) (base : Text) (flavor : Flavor) : List Program :=
  if w.stat (filePath base flavor) = none then [] else started w (filePath base flavor)

theorem visitFile_eq (hbase : '\x00' ∉ base) (hall : AllRunnable w base flavor) :
    (Native.visitFile w (filePath base flavor ++ ['\x00'])).ran = nativeFile w base flavor ∧
      ((Native.visitFile w (filePath base flavor ++ ['\x00'])).result = some false ↔
        w.stat (filePath base flavor) = none) := by
  have hcstr := cstr_nul (@filePath_noNul _ flavor hbase) []
  by_cases hst : w.stat (filePath base flavor) = none
  · rw [visitFile_missing (by rw [hcstr, hst]), nativeFile, if_pos hst]
    exact ⟨rfl, iff_of_true rfl hst⟩
  · have hrun : Runnable w (cstr (filePath base flavor ++ ['\x00'])) := by
      rw [hcstr]
      exact file_runnable hall hst
    obtain ⟨hran, hres⟩ := visitFile_runnable hrun
    rw [hran, hcstr, nativeFile, if_neg hst]
    exact ⟨rfl, iff_of_false hres hst⟩

theorem native_ran {confdir cfgdir : CStr} (hown : AllRunnable w (ownBase cfgdir) flavor)
    (hdefault : AllRunnable w (defaultBase confdir) flavor) :
    (Native.execScriptlets w confdir cfgdir flavor).ran =
      if w.stat (filePath (ownBase cfgdir) flavor) = none then
        nativeFile w (defaultBase confdir) flavor
      else nativeFile w (ownBase cfgdir) flavor := by
  have hownNul : '\x00' ∉ ownBase cfgdir := by
    rw [ownBase, List.mem_append, not_or]
    exact ⟨cfgdir.noNul, by decide⟩
  have hdefaultNul : '\x00' ∉ defaultBase confdir := by
    rw [defaultBase, List.mem_append, not_or]
    exact ⟨confdir.noNul, by decide⟩
  have hownPath : cfgdir.text ++ "/scripts/".toList = ownBase cfgdir ++ ['/'] := by
    rw [ownBase, List.append_assoc]
    rfl
  have hdefaultPath : confdir.text ++ "/.defaults/scripts/".toList =
      defaultBase confdir ++ ['/'] := by
    rw [defaultBase, List.append_assoc]
    rfl
  obtain ⟨hoRan, hoRes⟩ := visitFile_eq hownNul hown
  obtain ⟨hdRan, -⟩ := visitFile_eq hdefaultNul hdefault
  unfold Native.execScriptlets
  rw [hownPath, hdefaultPath, visitPath_eq hownNul, visitPath_eq hdefaultNul]
  by_cases hst : w.stat (filePath (ownBase cfgdir) flavor) = none
  · have hnothing : nativeFile w (ownBase cfgdir) flavor = [] := if_pos hst
    simp only [hoRes.mpr hst, Native.Visit.andThen, hoRan, hdRan, hnothing, List.nil_append,
      if_pos hst]
  · simp only [if_neg hst]
    split
    · rename_i hres
      exact absurd (hoRes.mp hres) hst
    · exact hoRan

/-! ## The shell scriptlets -/

/-- The entries that the shell runs. -/
def shellEntries (w : World) (base : Text) (flavor : Flavor) : List FileName :=
  (names w base flavor).filter fun name =>
    name.text.head? != some '.' && !Shell.backup (dirPath base flavor ++ '/' :: name.text)

def shellScriptlets (w : World) (base : Text) (flavor : Flavor) : List Text :=
  (file w base flavor).filter (!Shell.backup ·) ++
    (shellEntries w base flavor).map fun name => dirPath base flavor ++ '/' :: name.text

/-- The shell skips at least what is to be skipped. -/
theorem shellEntries_subset {name : FileName} (h : name ∈ shellEntries w base flavor) :
    name ∈ entries w base flavor := by
  obtain ⟨hmem, hok⟩ := List.mem_filter.mp h
  simp only [Bool.and_eq_true, bne_iff_ne, ne_eq, Bool.not_eq_true'] at hok
  refine List.mem_filter.mpr ⟨hmem, ?_⟩
  simp only [skipped, Bool.not_eq_true', Bool.or_eq_false_iff, beq_eq_false_iff_ne, ne_eq]
  refine ⟨hok.1, Bool.eq_false_iff.mpr fun hsuf => ?_⟩
  rw [backup_of_suffix hsuf] at hok
  exact absurd hok.2 (by decide)

theorem shellEntries_runnable (hall : AllRunnable w base flavor) {name : FileName}
    (h : name ∈ shellEntries w base flavor) :
    Runnable w (dirPath base flavor ++ '/' :: name.text) :=
  hall _ (List.mem_append_right _ (List.mem_map_of_mem (shellEntries_subset h)))

/-- The loop runs the regular files among its words, when these can be run. -/
theorem foldl_visit : ∀ (is : List Text),
    (∀ i ∈ is, Shell.isRegularFile w i = true → Runnable w i) →
    ∀ (ran : List Text) (handled : Bool), is.foldl (Shell.visit w) ⟨ran, handled, false, false⟩ =
      ⟨ran ++ is.filter (Shell.isRegularFile w),
        handled || !(is.filter (Shell.isRegularFile w)).isEmpty, false, false⟩
  | [], _, ran, handled => by simp
  | i :: is, h, ran, handled => by
    have hrest := foldl_visit is fun j hj => h j (List.mem_cons_of_mem i hj)
    rw [List.foldl_cons]
    cases hreg : Shell.isRegularFile w i with
    | false =>
      have hskip : Shell.visit w ⟨ran, handled, false, false⟩ i = ⟨ran, handled, false, false⟩ := by
        simp [Shell.visit, hreg]
      rw [hskip, hrest, List.filter_cons_of_neg (by simp [hreg])]
    | true =>
      obtain ⟨⟨st, hst, -, -, hr, hx⟩, hexec⟩ := h i List.mem_cons_self hreg
      have hrun : Shell.visit w ⟨ran, handled, false, false⟩ i =
          ⟨ran ++ [i], true, false, false⟩ := by
        simp [Shell.visit, hreg, hst, hr, hx, hexec]
      rw [hrun, hrest, List.filter_cons_of_pos hreg]
      simp

/-- A pattern without a match names no file. -/
theorem glob_pattern (h : ((names w base flavor).filter fun name =>
    name.text.head? != some '.') = []) :
    Shell.isRegularFile w (dirPath base flavor ++ "/*".toList) = false := by
  cases hst : w.stat (dirPath base flavor ++ "/*".toList) with
  | none =>
    rw [Shell.isRegularFile, hst]
    rfl
  | some st =>
    obtain ⟨ns, hread, hmem⟩ := w.listed (dirPath base flavor) ⟨['*'], by decide⟩ st hst
    have hstar : (⟨['*'], by decide⟩ : FileName) ∈ (names w base flavor).filter fun name =>
        name.text.head? != some '.' := by
      refine List.mem_filter.mpr ⟨?_, by decide⟩
      rw [names, hread]
      exact hmem
    rw [h] at hstar
    cases hstar

/-- An entry that can be run is a regular file for the shell, unless it is a backup. -/
theorem isRegularFile_entry (hall : AllRunnable w base flavor) {name : FileName}
    (hmem : name ∈ names w base flavor) (hdot : name.text.head? != some '.') :
    Shell.isRegularFile w (dirPath base flavor ++ '/' :: name.text) =
      !Shell.backup (dirPath base flavor ++ '/' :: name.text) := by
  cases hb : Shell.backup (dirPath base flavor ++ '/' :: name.text) with
  | true => simp [Shell.isRegularFile, hb]
  | false =>
    have hentry : name ∈ shellEntries w base flavor :=
      List.mem_filter.mpr ⟨hmem, by rw [hdot, hb]; rfl⟩
    obtain ⟨⟨st, hst, hreg, -⟩, -⟩ := shellEntries_runnable hall hentry
    simp [Shell.isRegularFile, hb, hst, hreg]

theorem glob_perm (hall : AllRunnable w base flavor) :
    ((Shell.glob w (dirPath base flavor)).filter (Shell.isRegularFile w)).Perm
      ((shellEntries w base flavor).map fun name => dirPath base flavor ++ '/' :: name.text) := by
  have hglob : Shell.glob w (dirPath base flavor) =
      if ((names w base flavor).filter fun name => name.text.head? != some '.') = [] then
        [dirPath base flavor ++ "/*".toList]
      else (((names w base flavor).filter fun name => name.text.head? != some '.').map
        fun name => dirPath base flavor ++ '/' :: name.text).mergeSort w.collate := rfl
  have hfilter : shellEntries w base flavor =
      ((names w base flavor).filter fun name => name.text.head? != some '.').filter fun name =>
        !Shell.backup (dirPath base flavor ++ '/' :: name.text) := by
    rw [List.filter_filter]
    exact List.filter_congr fun name _ => Bool.and_comm _ _
  rw [hglob]
  split
  · rename_i hnone
    rw [hfilter, hnone, List.filter_cons_of_neg (Bool.eq_false_iff.mp (glob_pattern hnone))]
    exact List.Perm.refl _
  · refine ((List.mergeSort_perm _ w.collate).filter _).trans ?_
    rw [List.filter_map, hfilter]
    refine List.Perm.of_eq (congrArg _ (List.filter_congr fun name hname => ?_))
    obtain ⟨hmem, hdot⟩ := List.mem_filter.mp hname
    exact isRegularFile_entry hall hmem hdot

theorem file_filter (hall : AllRunnable w base flavor) :
    ([filePath base flavor].filter (Shell.isRegularFile w)) =
      (file w base flavor).filter (!Shell.backup ·) := by
  cases hst : w.stat (filePath base flavor) with
  | none => simp [file, hst, Shell.isRegularFile]
  | some st =>
    have hfile : file w base flavor = [filePath base flavor] := by simp [file, hst]
    have hmem : filePath base flavor ∈ scriptletsIn w base flavor := by
      refine List.mem_append_left _ ?_
      rw [hfile]
      exact List.mem_singleton_self _
    obtain ⟨⟨st', hst', hreg, -⟩, -⟩ := hall _ hmem
    rw [hfile]
    refine List.filter_congr fun path hpath => ?_
    obtain rfl := List.mem_singleton.mp hpath
    simp [Shell.isRegularFile, hst', hreg]

theorem candidates_perm (hall : AllRunnable w base flavor) :
    ((Shell.candidates w base flavor).filter (Shell.isRegularFile w)).Perm
      (shellScriptlets w base flavor) := by
  have hcand : Shell.candidates w base flavor =
      [filePath base flavor] ++ Shell.glob w (dirPath base flavor) := rfl
  rw [hcand, List.filter_append, file_filter hall]
  exact (glob_perm hall).append_left _

theorem shellScriptlets_subset {path : Text} (h : path ∈ shellScriptlets w base flavor) :
    path ∈ scriptletsIn w base flavor := by
  rcases List.mem_append.mp h with h | h
  · exact List.mem_append_left _ (List.mem_filter.mp h).1
  · obtain ⟨name, hname, rfl⟩ := List.mem_map.mp h
    exact List.mem_append_right _ (List.mem_map_of_mem (shellEntries_subset hname))

theorem visitBase_eq (hall : AllRunnable w base flavor) :
    Shell.visitBase w base flavor =
      ⟨(Shell.candidates w base flavor).filter (Shell.isRegularFile w),
        !((Shell.candidates w base flavor).filter (Shell.isRegularFile w)).isEmpty,
        false, false⟩ := by
  have hrun : ∀ i ∈ Shell.candidates w base flavor, Shell.isRegularFile w i = true →
      Runnable w i := fun i hi hreg =>
    hall i (shellScriptlets_subset ((candidates_perm hall).subset
      (List.mem_filter.mpr ⟨hi, hreg⟩)))
  rw [Shell.visitBase, foldl_visit _ hrun]
  simp

theorem shell_ran {confdir cfgdir : CStr} (hown : AllRunnable w (ownBase cfgdir) flavor)
    (hdefault : AllRunnable w (defaultBase confdir) flavor) :
    (Shell.execScriptlets w confdir cfgdir flavor).Perm
      (if shellScriptlets w (ownBase cfgdir) flavor = [] then
        shellScriptlets w (defaultBase confdir) flavor
      else shellScriptlets w (ownBase cfgdir) flavor) := by
  have hperm := candidates_perm hown
  have hexec : Shell.execScriptlets w confdir cfgdir flavor =
      if (Shell.visitBase w (ownBase cfgdir) flavor).failed ∨
          ((Shell.visitBase w (ownBase cfgdir) flavor).already_handled ∧
            (Shell.visitBase w (ownBase cfgdir) flavor).DONT_SKIP_DEFAULTS = false) then
        (Shell.visitBase w (ownBase cfgdir) flavor).ran
      else (Shell.visitBase w (ownBase cfgdir) flavor).ran ++
        (Shell.visitBase w (defaultBase confdir) flavor).ran := rfl
  rw [hexec, visitBase_eq hown, visitBase_eq hdefault]
  by_cases hnil : shellScriptlets w (ownBase cfgdir) flavor = []
  · rw [hnil] at hperm
    rw [hperm.eq_nil, if_pos hnil, if_neg (by simp)]
    exact candidates_perm hdefault
  · have hne :
        (Shell.candidates w (ownBase cfgdir) flavor).filter (Shell.isRegularFile w) ≠ [] := by
      intro hn
      rw [hn] at hperm
      exact hnil hperm.symm.eq_nil
    rw [if_neg hnil, if_pos (.inr ⟨by simpa using hne, rfl⟩)]
    exact hperm

/-! ## Agreement -/

theorem file_self {path : Text} (h : path ∈ file w base flavor) : path = filePath base flavor := by
  unfold file at h
  split at h
  · exact List.mem_singleton.mp h
  · cases h

theorem scriptletsIn_nodup (w : World) (base : Text) (flavor : Flavor) :
    (scriptletsIn w base flavor).Nodup := by
  refine List.Nodup.append ?_ ?_ ?_
  · unfold file
    split
    · exact List.nodup_singleton _
    · exact List.nodup_nil
  · refine List.Nodup.map_on ?_ (List.Nodup.filter _ ?_)
    · intro name _ name' _ h
      obtain ⟨-, htext⟩ := slash_inj name.no_slash name'.no_slash h
      cases name
      cases name'
      cases htext
      rfl
    · unfold names
      cases hread : w.readdir (dirPath base flavor ++ ['/']) with
      | none => exact List.nodup_nil
      | some ns => exact w.nodup _ ns hread
  · intro path hfile hentry
    obtain ⟨name, -, rfl⟩ := List.mem_map.mp hentry
    exact entry_ne_own base flavor name.text (file_self hfile)

theorem file_some (hst : (w.stat (filePath base flavor)).isSome = true) :
    file w base flavor = [filePath base flavor] := if_pos hst

/-- The scriptlets of a directory that meets the condition. -/
theorem onlyFile_eq (hall : AllRunnable w base flavor) (h : OnlyFile w base flavor) :
    scriptletsIn w base flavor = file w base flavor ∧
      shellScriptlets w base flavor = file w base flavor ∧
      nativeFile w base flavor = (file w base flavor).map Program.file := by
  have hshell : shellEntries w base flavor = [] := by
    refine List.eq_nil_iff_forall_not_mem.mpr fun name hname => ?_
    have hentry := shellEntries_subset hname
    rw [h.1] at hentry
    cases hentry
  refine ⟨by rw [scriptletsIn, h.1, List.map_nil, List.append_nil], ?_, ?_⟩
  · rw [shellScriptlets, hshell, List.map_nil, List.append_nil, List.filter_eq_self]
    intro path hpath
    obtain rfl := file_self hpath
    have hst : (w.stat (filePath base flavor)).isSome = true := by
      unfold file at hpath
      split at hpath
      · assumption
      · cases hpath
    rw [(h.2 hst).1]
    rfl
  · by_cases hst : w.stat (filePath base flavor) = none
    · rw [nativeFile, if_pos hst, file_eq_nil.mpr hst]
      rfl
    · have hsome := Option.isSome_iff_ne_none.mpr hst
      rw [nativeFile, if_neg hst, file_some hsome]
      exact (started_self (file_runnable hall hst).2).mpr (h.2 hsome).2

theorem nativeFile_length (w : World) (base : Text) (flavor : Flavor) :
    (nativeFile w base flavor).length ≤ (file w base flavor).length := by
  by_cases hst : w.stat (filePath base flavor) = none
  · rw [nativeFile, if_pos hst]
    exact Nat.zero_le _
  · rw [nativeFile, if_neg hst, file_some (Option.isSome_iff_ne_none.mpr hst)]
    rcases started_cases w (filePath base flavor) with h | ⟨cmd, -, h⟩
    · rw [h]
      exact Nat.zero_le 1
    · rw [h]
      exact Nat.le_refl 1

/-- When both programs run the scriptlets of a directory, it meets the condition. -/
theorem onlyFile_of_perm (hall : AllRunnable w base flavor)
    (hnative : (nativeFile w base flavor).Perm ((scriptletsIn w base flavor).map Program.file))
    (hshell : (w.stat (filePath base flavor)).isSome = true →
      filePath base flavor ∈ shellScriptlets w base flavor) : OnlyFile w base flavor := by
  have hlen := hnative.length_eq
  have hle := nativeFile_length w base flavor
  simp only [scriptletsIn, List.length_map, List.length_append] at hlen
  have hentries : entries w base flavor = [] := List.eq_nil_of_length_eq_zero (by omega)
  refine ⟨hentries, fun hst => ⟨?_, ?_⟩⟩
  · rcases List.mem_append.mp (hshell hst) with h | h
    · simpa using (List.mem_filter.mp h).2
    · obtain ⟨name, -, heq⟩ := List.mem_map.mp h
      exact absurd heq (entry_ne_own base flavor name.text)
  · have hne := Option.isSome_iff_ne_none.mp hst
    rw [scriptletsIn, hentries, List.map_nil, List.append_nil, file_some hst, nativeFile,
      if_neg hne] at hnative
    exact (started_self (file_runnable hall hne).2).mp (List.perm_singleton.mp hnative)

/-- What the native program runs by its path, below either directory, is the file of the flavor. -/
theorem nativeFile_self {path : Text} (h : Program.file path ∈ nativeFile w base flavor) :
    path = filePath base flavor := by
  unfold nativeFile at h
  split at h
  · cases h
  · rcases started_cases w (filePath base flavor) with hnil | ⟨cmd, -, hone⟩
    · rw [hnil] at h
      cases h
    · rw [hone] at h
      exact (programOf_file (List.mem_singleton.mp h).symm).1.symm

theorem shellScriptlets_nil (h : scriptletsIn w base flavor = []) :
    shellScriptlets w base flavor = [] := by
  refine List.eq_nil_iff_forall_not_mem.mpr fun path hpath => ?_
  have hmem := shellScriptlets_subset hpath
  rw [h] at hmem
  cases hmem

/-- The condition, when the vserver has no file of the flavor. -/
theorem onlyFile_of_none {confdir cfgdir : CStr} (hown : AllRunnable w (ownBase cfgdir) flavor)
    (hdefault : AllRunnable w (defaultBase confdir) flavor)
    (hst : w.stat (filePath (ownBase cfgdir) flavor) = none)
    (hagree : Agree w confdir cfgdir flavor) :
    OnlyFile w (ownBase cfgdir) flavor ∧ OnlyFile w (defaultBase confdir) flavor := by
  obtain ⟨hn, hs, -⟩ := hagree
  rw [native_ran hown hdefault, if_pos hst] at hn
  by_cases hnil : scriptletsIn w (ownBase cfgdir) flavor = []
  · have hexp : expected w confdir cfgdir flavor = scriptletsIn w (defaultBase confdir) flavor :=
      if_pos hnil
    rw [hexp] at hn hs
    have hshell := (shell_ran hown hdefault).symm.trans hs
    rw [if_pos (shellScriptlets_nil hnil)] at hshell
    refine ⟨⟨?_, fun hsome => ?_⟩, onlyFile_of_perm hdefault hn fun hsome => ?_⟩
    · exact List.map_eq_nil_iff.mp (List.append_eq_nil_iff.mp hnil).2
    · rw [hst] at hsome
      cases hsome
    · refine hshell.symm.subset (List.mem_append_left _ ?_)
      rw [file_some hsome]
      exact List.mem_singleton_self _
  · -- an entry of the vserver is to run, which the native program does not
    have hexp : expected w confdir cfgdir flavor = scriptletsIn w (ownBase cfgdir) flavor :=
      if_neg hnil
    obtain ⟨path, hpath⟩ := List.exists_mem_of_ne_nil _ hnil
    rw [hexp] at hn
    have hrun := nativeFile_self (hn.symm.subset (List.mem_map_of_mem hpath))
    rw [scriptletsIn, file_eq_nil.mpr hst, List.nil_append] at hpath
    obtain ⟨name, -, rfl⟩ := List.mem_map.mp hpath
    rw [defaultBase_eq] at hrun
    exact absurd hrun (entry_ne_file _ _ flavor name)

/-- The condition, when the vserver has the file of the flavor. -/
theorem onlyFile_of_some {confdir cfgdir : CStr} (hown : AllRunnable w (ownBase cfgdir) flavor)
    (hdefault : AllRunnable w (defaultBase confdir) flavor)
    (hst : w.stat (filePath (ownBase cfgdir) flavor) ≠ none)
    (hagree : Agree w confdir cfgdir flavor) : OnlyFile w (ownBase cfgdir) flavor := by
  obtain ⟨hn, hs, -⟩ := hagree
  have hfile : filePath (ownBase cfgdir) flavor ∈ file w (ownBase cfgdir) flavor := by
    rw [file_some (Option.isSome_iff_ne_none.mpr hst)]
    exact List.mem_singleton_self _
  have hin : filePath (ownBase cfgdir) flavor ∈ scriptletsIn w (ownBase cfgdir) flavor :=
    List.mem_append_left _ hfile
  have hexp : expected w confdir cfgdir flavor = scriptletsIn w (ownBase cfgdir) flavor := by
    refine if_neg fun hnil => ?_
    rw [hnil] at hin
    cases hin
  rw [hexp] at hn hs
  rw [native_ran hown hdefault, if_neg hst] at hn
  refine onlyFile_of_perm hown hn fun _ => ?_
  have hrun := (shell_ran hown hdefault).subset (hs.symm.subset hin)
  split at hrun
  · rename_i hnil
    -- nothing of the vserver was run: the same path is among the defaults
    rcases List.mem_append.mp hrun with h | h
    · obtain ⟨-, hback⟩ := List.mem_filter.mp h
      have hkept : filePath (ownBase cfgdir) flavor ∈ shellScriptlets w (ownBase cfgdir) flavor :=
        List.mem_append_left _ (List.mem_filter.mpr ⟨hfile, hback⟩)
      rw [hnil] at hkept
      cases hkept
    · obtain ⟨name, -, heq⟩ := List.mem_map.mp h
      exact absurd heq (entry_ne_file _ _ flavor name)
  · exact hrun

/-- **The two programs agree** exactly when no scriptlet is in the `<flavor>.d` directories that
count, the shell does not take the path of `<flavor>` for a backup, and the command that the native
program does not initialise is usable. -/
theorem execScriptlets_agree (w : World) (confdir cfgdir : CStr) (flavor : Flavor)
    (hown : AllRunnable w (ownBase cfgdir) flavor)
    (hdefault : AllRunnable w (defaultBase confdir) flavor) :
    Agree w confdir cfgdir flavor ↔
      OnlyFile w (ownBase cfgdir) flavor ∧
        (w.stat (filePath (ownBase cfgdir) flavor) = none →
          OnlyFile w (defaultBase confdir) flavor) := by
  constructor
  · intro hagree
    by_cases hst : w.stat (filePath (ownBase cfgdir) flavor) = none
    · obtain ⟨ho, hd⟩ := onlyFile_of_none hown hdefault hst hagree
      exact ⟨ho, fun _ => hd⟩
    · exact ⟨onlyFile_of_some hown hdefault hst hagree, fun hnone => absurd hnone hst⟩
  · rintro ⟨ho, hd⟩
    obtain ⟨hoEq, hoShell, hoNative⟩ := onlyFile_eq hown ho
    have hnodup : (expected w confdir cfgdir flavor).Nodup := by
      unfold expected
      split
      · exact scriptletsIn_nodup w _ flavor
      · exact scriptletsIn_nodup w _ flavor
    refine ⟨?_, (shell_ran hown hdefault).trans ?_, hnodup⟩
    · rw [native_ran hown hdefault, expected, hoEq]
      by_cases hst : w.stat (filePath (ownBase cfgdir) flavor) = none
      · obtain ⟨hdEq, -, hdNative⟩ := onlyFile_eq hdefault (hd hst)
        rw [if_pos hst, if_pos (file_eq_nil.mpr hst), hdEq, hdNative]
      · rw [if_neg hst, if_neg fun hnil => hst (file_eq_nil.mp hnil), hoNative]
    · rw [expected, hoEq, hoShell]
      by_cases hst : w.stat (filePath (ownBase cfgdir) flavor) = none
      · obtain ⟨hdEq, hdShell, -⟩ := onlyFile_eq hdefault (hd hst)
        rw [if_pos (file_eq_nil.mpr hst), if_pos (file_eq_nil.mpr hst), hdEq, hdShell]
      · rw [if_neg fun hnil => hst (file_eq_nil.mp hnil),
          if_neg fun hnil => hst (file_eq_nil.mp hnil)]

/-! ## Worlds of one file -/

/-- One directory with one file, which can be run. -/
def oneFile (dir : Text) (name : FileName) : World where
  stat path :=
    if path = dir ++ ['/'] then some ⟨false, true, true, true⟩
    else if path = dir ++ '/' :: name.text then some ⟨true, true, true, true⟩ else none
  readdir path := if path = dir ++ ['/'] then some [name] else none
  nodup path ns h := by
    split at h
    · cases h
      exact List.nodup_singleton name
    · cases h
  directory path ns h := by
    split at h
    · rename_i hpath
      exact ⟨_, if_pos hpath, rfl⟩
    · cases h
  listed path name' st h := by
    split at h
    · rename_i hpath
      exact absurd (slash_inj name'.no_slash (by simp) hpath).2 name'.ne_nil
    · split at h
      · rename_i hpath
        obtain ⟨rfl, hname⟩ := slash_inj name'.no_slash name.no_slash hpath
        refine ⟨[name], if_pos rfl, List.mem_singleton.mpr ?_⟩
        cases name
        cases name'
        cases hname
        rfl
      · cases h
  exec
    | .file _ => some true
    | .stray _ => none
  -- zeros, but for the `rc` of a command that is not yet waited for
  stack _ := ⟨0, -1, 0⟩
  source _ := false
  collate _ _ := true

/-- `/c`, the configuration of a vserver. -/
def someCfgdir : CStr := ⟨['/', 'c'], by decide⟩

def someConfdir : CStr := ⟨['/', 'e'], by decide⟩

def preStart : Flavor := ⟨⟨"pre-start".toList, by decide⟩, by decide⟩

/-- A world with the file `pre-start`. -/
def fileWorld : World := oneFile "/c/scripts".toList preStart.name

/-- A world with a file in `pre-start.d`. -/
def directoryWorld : World := oneFile "/c/scripts/pre-start.d".toList ⟨['f', 'o', 'o'], by decide⟩

theorem allRunnable_of (paths : List Text) (h : scriptletsIn w base flavor = paths)
    (hrun : ∀ path ∈ paths, w.stat path = some ⟨true, true, true, true⟩ ∧
      w.exec (.file path) = some true) : AllRunnable w base flavor := by
  intro path hpath
  rw [h] at hpath
  exact ⟨⟨_, (hrun path hpath).1, rfl, rfl, rfl, rfl⟩, (hrun path hpath).2⟩

theorem execScriptlets_agree_file : Agree fileWorld someConfdir someCfgdir preStart := by
  have hown : AllRunnable fileWorld (ownBase someCfgdir) preStart :=
    allRunnable_of ["/c/scripts/pre-start".toList] (by decide +kernel)
      (by decide +kernel)
  have hdefault : AllRunnable fileWorld (defaultBase someConfdir) preStart :=
    allRunnable_of [] (by decide +kernel) nofun
  refine (execScriptlets_agree fileWorld someConfdir someCfgdir preStart hown hdefault).mpr ?_
  refine ⟨⟨by decide +kernel, fun _ => ⟨by decide +kernel, rfl, rfl⟩⟩, fun hnone => ?_⟩
  exact absurd hnone (by decide +kernel)

theorem execScriptlets_directory :
    AllRunnable directoryWorld (ownBase someCfgdir) preStart ∧
    AllRunnable directoryWorld (defaultBase someConfdir) preStart ∧
    (Native.execScriptlets directoryWorld someConfdir someCfgdir preStart).ran = [] ∧
    Shell.execScriptlets directoryWorld someConfdir someCfgdir preStart =
      ["/c/scripts/pre-start.d/foo".toList] ∧
    ¬ Agree directoryWorld someConfdir someCfgdir preStart := by
  have hnative :
      (Native.execScriptlets directoryWorld someConfdir someCfgdir preStart).ran = [] := by
    decide +kernel
  refine ⟨allRunnable_of ["/c/scripts/pre-start.d/foo".toList] (by decide +kernel)
    (by decide +kernel), allRunnable_of [] (by decide +kernel) nofun, hnative,
    by decide +kernel, fun hagree => ?_⟩
  have hexp := hagree.1
  rw [hnative] at hexp
  have hlen :
      ((expected directoryWorld someConfdir someCfgdir preStart).map Program.file).length = 1 := by
    decide +kernel
  rw [← hexp.length_eq] at hlen
  cases hlen

end Scriptlets
