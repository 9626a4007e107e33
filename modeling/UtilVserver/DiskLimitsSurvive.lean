import Mathlib.Data.List.Induction
import UtilVserver.DiskLimits

/-!
# Disk limits survive a stop and a start

The kernel has the usage of a directory again that was saved at the stop, with the configured totals,
if no other directory has the same cache file, and nothing in front ends the start.

* `Survives` — what `saveDiskLimits` and `setDiskLimits` are for.
* `Fits` — when they work.
* `spoiling` — a world in which nothing works by chance.

Principal results: `setSingle_sound`, `front_of_reached` and `diskLimits_exact`.
-/

set_option autoImplicit false

namespace DiskLimits

open CString DecimalText Vdlimit

/-! ## What the functions are for -/

/-- The kernel has the usage that was saved, and the configured totals. -/
def Restored (e : Dlimit) (saved : Limits) (lims : Dlimits) : Prop :=
  ∃ l, lims e.path = some l ∧ l.space_used = saved.space_used ∧ l.inodes_used = saved.inodes_used ∧
    limit (number e.space_total) = some l.space_total ∧
    limit (number e.inodes_total) = some l.inodes_total

/-- The state behind a stop and a start. -/
def restarted (c : Config) (w : World) (st : State) : State :=
  (setDiskLimits c w (saveDiskLimits c st)).1

/-- A configured directory with a limit is restored; for one that lacks a file no limit is set. -/
structure Survives (c : Config) (r : Running) (w : World) : Prop where
  restored : ∀ e ∈ c.active, e.Configured → ∀ l, r.state.lims e.path = some l →
    Restored e l (restarted c w r.state).lims
  skipped : ∀ e ∈ c.active, ¬ e.Configured → (∀ x ∈ c.active, x.Configured → x.path ≠ e.path) →
    (restarted c w r.state).lims e.path = none

/-- This holds whatever is outside of the scripts. -/
def AlwaysSurvives (c : Config) (r : Running) : Prop :=
  ∀ w : World, w.Knows r.state.lims → Survives c r w

/-- The totals of a directory are configured once. -/
def Config.Unambiguous (c : Config) : Prop :=
  c.active.Pairwise fun x y => x.Configured → y.Configured → x.path ≠ y.path

/-! ## When they work -/

/-- The last directory that is saved under the name of `d` has this usage; it was not saved before,
and its path has no text `_used=`. -/
def Kept (c : Config) (lims : Dlimits) (d : Text) (l : Limits) : Prop :=
  ∃ front y back, c.paths = front ++ y :: back ∧ c.name y = c.name d ∧
    (∀ z ∈ back, c.name z ≠ c.name d) ∧ y ∉ front ∧ hasUsed y = false ∧
    ∃ ly, lims y = some ly ∧ ly.space_used = l.space_used ∧ ly.inodes_used = l.inodes_used

/-- What a configured directory needs: each of its files has a line; those in front of it are
read in vain, or they are complete, have a limit, too, and other cache files; its own cache file can
be written and keeps its usage; and its numbers are limits that are not below the usage. -/
structure Sound (c : Config) (lims : Dlimits) (front : List Dlimit) (e : Dlimit) (l : Limits) :
    Prop where
  complete : e.Complete
  front : ∀ x ∈ front, x.vars ≠ none →
    x.Complete ∧ lims x.path ≠ none ∧ c.name x.path ≠ c.name e.path
  fits : c.fits (c.name e.path) = true
  kept : Kept c lims e.path l
  used : l.space_used ≠ VC_CDLIM_KEEP ∧ l.inodes_used ≠ VC_CDLIM_KEEP
  space : ∃ w, limit (number e.space_total) = some w ∧ isHigherLimit l.space_used w = false
  inodes : ∃ w, limit (number e.inodes_total) = some w ∧ isHigherLimit l.inodes_used w = false
  reserved : denotes (number e.reserved) ≠ none

/-- There is a place for the cache, and each configured directory with a limit has what it needs. -/
structure Fits (c : Config) (r : Running) : Prop where
  place : c.place = true
  sound : ∀ front e back l, c.active = front ++ e :: back → e.Configured →
    r.state.lims e.path = some l → Sound c r.state.lims front e l

/-! ## What fits survives -/

theorem replaceWord_of_ne {old new : Word} (h : new ≠ VC_CDLIM_KEEP) : replaceWord old new = new :=
  if_neg h

/-- What is kept is read back. -/
theorem Kept.source {c : Config} {r : Running} (hplace : c.place = true) {d : Text} {l : Limits}
    (hfits : c.fits (c.name d) = true) (hkept : Kept c r.state.lims d l) (command : Text → Bool) :
    source command ((saveDiskLimits c r.state).file c (c.name d)) =
      some ⟨writeInt l.space_used, writeInt l.inodes_used⟩ := by
  obtain ⟨front, y, back, hpaths, hy, hback, hfront, hused, ly, hly, hspace, hinodes⟩ := hkept
  have hfile := save_file (r := r) hplace hfits hpaths hy hback
  rw [if_neg hfront, hly, Option.elim_some, filter_printDlimit, hused,
    if_neg Bool.false_ne_true] at hfile
  simp only [State.file, hplace, hfits, Bool.and_self, if_true]
  rw [hfile, source_usedLines, hspace, hinodes]

section Sufficiency

variable {c : Config} {r : Running} {w : World}

/-- A directory that has what it needs is set as it was. -/
theorem setSingle_sound (hfits : Fits c r) (hknows : w.Knows r.state.lims)
    {front back : List Dlimit} {e : Dlimit} {l : Limits} (hactive : c.active = front ++ e :: back)
    (hconf : e.Configured) (hl : r.state.lims e.path = some l) {st : State}
    (hst : st = (setEach c w (saveDiskLimits c r.state) front).1) :
    (setSingle c w st e).2 = true ∧ Restored e l (setSingle c w st e).1.lims := by
  have hsound := hfits.sound front e back l hactive hconf hl
  obtain ⟨ws, hws, hspace⟩ := hsound.space
  obtain ⟨wi, hwi, hinodes⟩ := hsound.inodes
  obtain ⟨hws', hwskeep⟩ := stored_of_limit hws
  obtain ⟨hwi', hwikeep⟩ := stored_of_limit hwi
  obtain ⟨v, hv⟩ := Option.ne_none_iff_exists'.1 hsound.reserved
  have hlne : r.state.lims e.path ≠ none := by rw [hl]; exact Option.some_ne_none l
  -- the directories in front have not touched the cache file
  have hcache : st.cache (c.name e.path) = (saveDiskLimits c r.state).cache (c.name e.path) := by
    rw [hst]
    exact setEach_cache fun x hx hvars => (hsound.front x hx hvars).2.2
  have hfile : st.file c (c.name e.path) = (saveDiskLimits c r.state).file c (c.name e.path) := by
    unfold State.file
    rw [hcache]
  have hsource : source w.command (st.file c (c.name e.path)) =
      some ⟨writeInt l.space_used, writeInt l.inodes_used⟩ := by
    rw [hfile]
    exact hsound.kept.source hfits.place hsound.fits w.command
  have hcount : countUsage w.vdu e.path ⟨writeInt l.space_used, writeInt l.inodes_used⟩ =
      some ⟨writeInt l.space_used, writeInt l.inodes_used⟩ :=
    if_neg (not_or.2 ⟨writeInt_ne_nil _, writeInt_ne_nil _⟩)
  let limit : Limits := ⟨l.space_used, ws, l.inodes_used, wi, BitVec.ofInt 32 (clamp 64 v)⟩
  have hparsed : Parsed e.values ⟨writeInt l.space_used, writeInt l.inodes_used⟩ limit :=
    ⟨stored_writeInt _, hws', stored_writeInt _, hwi', by
      simp only [stored, Dlimit.values, hv, Option.map_some, limit]⟩
  have hset : Settable w e.path limit :=
    ⟨(r.nameable e.path hlne).2, hspace, hinodes, hknows e.path hlne⟩
  have hrun : setSingle c w st e = (⟨Function.update st.lims e.path
        (some (replaceLimits ((st.lims e.path).getD w.fresh) limit)),
      Function.update st.cache (c.name e.path) none⟩, true) := by
    unfold setSingle
    rw [hsound.complete.vars]
    simp only [Dlimit.values, hsource, hcount]
    rw [← Dlimit.values, vdlimitSet_of_settable hparsed hset]
  rw [hrun]
  refine ⟨rfl, _, Function.update_self .., ?_, ?_, ?_, ?_⟩
  · exact replaceWord_of_ne hsound.used.1
  · exact replaceWord_of_ne hsound.used.2
  · rw [hws]
    exact congrArg some (replaceWord_of_ne hwskeep).symm
  · rw [hwi]
    exact congrArg some (replaceWord_of_ne hwikeep).symm

/-- The start comes behind directories that have what they need. -/
theorem setEach_reaches (hfits : Fits c r) (hknows : w.Knows r.state.lims) {front : List Dlimit}
    (hinitial : front <+: c.active)
    (hfront : ∀ x ∈ front, x.vars ≠ none → x.Complete ∧ r.state.lims x.path ≠ none) :
    (setEach c w (saveDiskLimits c r.state) front).2 = true := by
  induction front using List.reverseRecOn with
  | nil => rfl
  | append_singleton front x ih =>
    obtain ⟨back, hactive⟩ := hinitial
    have hactive : c.active = front ++ x :: back := by rw [← hactive]; simp
    have hreach := ih ⟨x :: back, hactive.symm⟩ fun z hz =>
      hfront z (List.mem_append_left [x] hz)
    have hx : (setSingle c w (setEach c w (saveDiskLimits c r.state) front).1 x).2 = true := by
      by_cases hvars : x.vars = none
      · unfold setSingle
        rw [hvars]
      · obtain ⟨hcomplete, hne⟩ := hfront x (List.mem_append_right front List.mem_cons_self) hvars
        obtain ⟨l, hl⟩ := Option.ne_none_iff_exists'.1 hne
        exact (setSingle_sound hfits hknows hactive hcomplete.configured hl rfl).1
    rw [setEach_append, if_pos hreach]
    simp only [setEach]
    rw [if_pos hx]

theorem restored_of_fits (hfits : Fits c r) (hknows : w.Knows r.state.lims) {e : Dlimit}
    (he : e ∈ c.active) (hconf : e.Configured) {l : Limits} (hl : r.state.lims e.path = some l) :
    Restored e l (restarted c w r.state).lims := by
  obtain ⟨front, back, hactive⟩ := List.append_of_mem he
  have hsound := hfits.sound front e back l hactive hconf hl
  have hreach := setEach_reaches hfits hknows ⟨e :: back, hactive.symm⟩ fun x hx hvars =>
    ⟨(hsound.front x hx hvars).1, (hsound.front x hx hvars).2.1⟩
  obtain ⟨hset, hrestored⟩ := setSingle_sound hfits hknows hactive hconf hl rfl
  -- a complete directory behind this one has another path, since it has another cache file
  have hback : ∀ x ∈ back, x.Complete → x.path ≠ e.path := by
    intro x hx hcomplete hpath
    obtain ⟨back₁, back₂, hsplit⟩ := List.append_of_mem hx
    have hactive' : c.active = (front ++ e :: back₁) ++ x :: back₂ := by
      rw [hactive, hsplit]
      simp
    have hsound' := hfits.sound _ x _ l hactive' hcomplete.configured (hpath ▸ hl)
    have hvars : e.vars ≠ none := by rw [hsound.complete.vars]; exact Option.some_ne_none _
    have hmem : e ∈ front ++ e :: back₁ := List.mem_append_right front List.mem_cons_self
    exact (hsound'.front e hmem hvars).2.2 (by rw [hpath])
  have hlims : (restarted c w r.state).lims e.path =
      (setSingle c w (setEach c w (saveDiskLimits c r.state) front).1 e).1.lims e.path := by
    rw [restarted, setDiskLimits, hactive, setEach_append, if_pos hreach]
    simp only [setEach]
    rw [if_pos hset]
    exact setEach_lims hback
  obtain ⟨l', hl', hrest⟩ := hrestored
  exact ⟨l', hlims.trans hl', hrest⟩

/-- For a directory that lacks a file no limit is set, if there is a place for the cache. -/
theorem skipped_of_place (hplace : c.place = true) {e : Dlimit} (he : e ∈ c.active)
    (hother : ∀ x ∈ c.active, x.Configured → x.path ≠ e.path) :
    (restarted c w r.state).lims e.path = none := by
  have hlims : (restarted c w r.state).lims e.path = (saveDiskLimits c r.state).lims e.path :=
    setEach_lims fun x hx hcomplete => hother x hx hcomplete.configured
  rw [hlims, saveDiskLimits_eq, saveAll_lims hplace _ _ fun hoption => r.unnameable hoption]
  split
  · rfl
  · rename_i hpaths
    -- the path is empty when it is not saved
    have hnil : e.path = [] := by
      cases hdirectory : getFileValue Line.text e.directory with
      | none => rw [Dlimit.path, hdirectory, Option.getD_none]
      | some directory =>
        have hpath : e.path = directory := by rw [Dlimit.path, hdirectory, Option.getD_some]
        exact absurd (List.mem_filterMap.2 ⟨e, he, by rw [hdirectory, hpath]⟩) hpaths
    by_contra hne
    exact (r.nameable e.path hne).1 hnil

end Sufficiency

/-! ## What survives always fits -/

/-- A word that is another one, and not kept. -/
def other (w : Word) : Word := if w = 0 then 1 else 0

theorem other_ne (w : Word) : other w ≠ w := by
  unfold other
  split
  · rename_i hw
    rw [hw]
    decide
  · rename_i hw
    exact Ne.symm hw

theorem other_keep (w : Word) : other w ≠ VC_CDLIM_KEEP := by
  unfold other
  split <;> decide

theorem stored_other (w : Word) :
    stored (decimal ((other w).setWidth 64 : BitVec 64).toNat) = some (other w) := by
  unfold other
  split <;> decide

/-- Everything outside of the scripts is against a directory with this limit: what is counted and
what is added is something else, no command succeeds, and the kernel takes no directory but those it
has limits for. -/
def spoiling (r : Running) (l : Limits) : World where
  vdu d := if isOption d then none else some ((other l.space_used).setWidth 64, 0)
  command _ := false
  fresh := ⟨other l.space_used, 0, other l.inodes_used, 0, 0⟩
  accepts d := (r.state.lims d).isSome
  fresh_keep m := by
    cases m with
    | space_used => exact other_keep _
    | space_total => exact (by decide : (0 : Word) ≠ VC_CDLIM_KEEP)
    | inodes_used => exact other_keep _
    | inodes_total => exact (by decide : (0 : Word) ≠ VC_CDLIM_KEEP)
    | reserved => exact (by decide : (0 : Word) ≠ VC_CDLIM_KEEP)
  accepts_nil := by
    cases hnil : r.state.lims [] with
    | none => rfl
    | some l' =>
      have hne : r.state.lims [] ≠ none := by rw [hnil]; exact Option.some_ne_none l'
      exact absurd rfl (r.nameable [] hne).1

theorem spoiling_knows (r : Running) (l : Limits) : (spoiling r l).Knows r.state.lims :=
  fun _ hd => Option.isSome_iff_ne_none.2 hd

/-- A limit that is replaced in the fresh one is there. -/
theorem eq_of_replaceWord {new w : Word} (h : replaceWord (other w) new = w) :
    new = w ∧ w ≠ VC_CDLIM_KEEP := by
  unfold replaceWord at h
  split at h
  · exact absurd h (other_ne w)
  · rename_i hkeep
    exact ⟨h, by rw [← h]; exact hkeep⟩

/-- The cache files that a part of the start leaves were there before, and under another name. -/
theorem setEach_cache_some {c : Config} {w : World} {n : Text} {lines : List Text} :
    ∀ (es : List Dlimit) (st : State), (setEach c w st es).2 = true →
    (setEach c w st es).1.cache n = some lines →
    st.cache n = some lines ∧ ∀ x ∈ es, x.vars ≠ none → c.name x.path ≠ n
  | [], st, _, h => ⟨h, by simp⟩
  | x :: es, st, hok, h => by
    have hx := setSingle_outcome c w st x
    simp only [setEach] at hok h
    generalize setSingle c w st x = result at hok h hx
    have hgone : ∀ {cache : Text → Option (List Text)},
        Function.update cache (c.name x.path) none n = some lines →
        cache n = some lines ∧ c.name x.path ≠ n := by
      intro cache hcache
      have hn : n ≠ c.name x.path := by
        intro hn
        rw [hn, Function.update_self] at hcache
        cases hcache
      rw [Function.update_of_ne hn] at hcache
      exact ⟨hcache, Ne.symm hn⟩
    cases hx with
    | skipped hvars =>
      obtain ⟨hst, hrest⟩ := setEach_cache_some es st hok h
      refine ⟨hst, fun z hz hzvars => ?_⟩
      rcases List.mem_cons.1 hz with rfl | hz
      · exact absurd hvars hzvars
      · exact hrest z hz hzvars
    | failed hvars cache hcache => cases hok
    | help hcomplete used husage hoption hhelp =>
      obtain ⟨hst, hrest⟩ := setEach_cache_some es _ hok h
      obtain ⟨hst, hname⟩ := hgone hst
      exact ⟨hst, List.forall_mem_cons.2 ⟨fun _ => hname, hrest⟩⟩
    | set hcomplete used husage limit hparsed hset =>
      obtain ⟨hst, hrest⟩ := setEach_cache_some es _ hok h
      obtain ⟨hst, hname⟩ := hgone hst
      exact ⟨hst, List.forall_mem_cons.2 ⟨fun _ => hname, hrest⟩⟩

/-- The usage was in the cache, behind a part of the start. -/
structure Cached (c : Config) (r : Running) (front : List Dlimit) (d : Text) (used : Usage) :
    Prop where
  fits : c.fits (c.name d) = true
  front : ∀ x ∈ front, x.vars ≠ none → c.name x.path ≠ c.name d
  saved : ∃ before y back ly, c.paths = before ++ y :: back ∧ c.name y = c.name d ∧
    (∀ z ∈ back, c.name z ≠ c.name d) ∧ y ∉ before ∧ hasUsed y = false ∧
    r.state.lims y = some ly ∧ used = ⟨writeInt ly.space_used, writeInt ly.inodes_used⟩

section Necessity

variable {c : Config} {r : Running} {l : Limits}

/-- The usage is counted wrongly, or it comes from the cache. -/
theorem usage_spoiling {st : State} {vars : Vars} {used : Usage}
    (h : usage c (spoiling r l) st vars = some used) :
    (isOption vars.directory = false ∧ stored used.space_used = some (other l.space_used)) ∨
      ∃ lines, st.file c (c.name vars.directory) = some lines ∧ lines ≠ [] ∧
        source (fun _ => false) (some lines) = some used := by
  obtain ⟨u, hsource, hcount⟩ := Option.bind_eq_some_iff.1 h
  unfold countUsage at hcount
  split at hcount
  · obtain ⟨v, hv, rfl⟩ := Option.map_eq_some_iff.1 hcount
    simp only [spoiling] at hv
    split at hv
    · cases hv
    · rename_i hoption
      cases hv
      exact Or.inl ⟨eq_false_of_ne_true hoption, stored_other _⟩
  · rename_i hne
    cases hcount
    cases hfile : st.file c (c.name vars.directory) with
    | none =>
      rw [hfile] at hsource
      cases hsource
      exact absurd (Or.inl rfl) hne
    | some lines =>
      rw [hfile] at hsource
      refine Or.inr ⟨lines, rfl, ?_, hsource⟩
      rintro rfl
      cases hsource
      exact absurd (Or.inl rfl) hne

theorem cached_of_source (hplace : c.place = true) {w : World} {front : List Dlimit}
    (hok : (setEach c w (saveDiskLimits c r.state) front).2 = true) {d : Text} (hd : d ∈ c.paths)
    {lines : List Text} {used : Usage}
    (hfile : (setEach c w (saveDiskLimits c r.state) front).1.file c (c.name d) = some lines)
    (hlines : lines ≠ []) (hsource : source (fun _ => false) (some lines) = some used) :
    Cached c r front d used := by
  unfold State.file at hfile
  split at hfile
  · rename_i hfits
    have hfits : c.fits (c.name d) = true := (Bool.and_eq_true_iff.1 hfits).2
    obtain ⟨hcache, hfront⟩ := setEach_cache_some front _ hok hfile
    obtain ⟨before, y, back, ly, hpaths, hy, hback, hbefore, hly, rfl⟩ :=
      saver_of_file hplace hfits hd hlines hcache
    rw [filter_printDlimit] at hsource
    split at hsource
    · -- the first line is in the file, and fails
      rw [source, Option.getD_some, List.foldlM_cons, sourceLine_head (fun _ => rfl)] at hsource
      cases hsource
    · rename_i hused
      rw [source_usedLines] at hsource
      exact ⟨hfits, hfront, before, y, back, ly, hpaths, hy, hback, hbefore,
        eq_false_of_ne_true hused, hly, (Option.some.inj hsource).symm⟩
  · cases hfile

theorem Cached.kept {front : List Dlimit} {d : Text} {used : Usage} (h : Cached c r front d used)
    (hspace : stored used.space_used = some l.space_used)
    (hinodes : stored used.inodes_used = some l.inodes_used) : Kept c r.state.lims d l := by
  obtain ⟨before, y, back, ly, hpaths, hy, hback, hbefore, hused, hly, rfl⟩ := h.saved
  rw [stored_writeInt] at hspace hinodes
  exact ⟨before, y, back, hpaths, hy, hback, hbefore, hused, ly, hly, Option.some.inj hspace,
    Option.some.inj hinodes⟩

/-- A path for which `vdlimit` shows its help has a cache file of its own. -/
theorem eq_of_name {y d : Text} (hhelp : isHelp d = true) (h : c.name y = c.name d) : y = d := by
  have hplain : '/' ∉ d ∧ '_' ∉ d := by
    simp only [isHelp, Bool.and_eq_true, Bool.or_eq_true] at hhelp
    obtain ⟨-, hfront | hfront⟩ := hhelp
    · have hsub := (List.isPrefixOf_iff_prefix.1 hfront).subset
      exact ⟨fun hc => absurd (hsub hc) (by decide), fun hc => absurd (hsub hc) (by decide)⟩
    · have hsub := (List.isPrefixOf_iff_prefix.1 hfront).subset
      exact ⟨fun hc => absurd (hsub hc) (by decide), fun hc => absurd (hsub hc) (by decide)⟩
  unfold Config.name cachename at h
  rw [List.map_append, List.map_append] at h
  replace h := List.append_cancel_left h
  clear hhelp
  induction d generalizing y with
  | nil => exact List.map_eq_nil_iff.1 h
  | cons x d ih =>
    cases y with
    | nil => cases h
    | cons x' y =>
      simp only [List.mem_cons, not_or] at hplain
      obtain ⟨⟨hslash, hslash'⟩, hunder, hunder'⟩ := hplain
      rw [List.map_cons, List.map_cons, if_neg (Ne.symm hslash)] at h
      injection h with hx htail
      rw [ih ⟨hslash', hunder'⟩ htail]
      split at hx
      · exact absurd hx hunder
      · rw [hx]

theorem mem_paths {e : Dlimit} (he : e ∈ c.active) (hconf : e.Configured) : e.path ∈ c.paths := by
  obtain ⟨⟨directory, hdirectory⟩, -⟩ := hconf
  refine List.mem_filterMap.2 ⟨e, he, ?_⟩
  rw [Dlimit.path, hdirectory]
  rfl

/-- The directories that the start comes through are complete and have limits. -/
theorem front_of_reached (hplace : c.place = true) {front : List Dlimit} (hactive : front <+: c.active)
    (hok : (setEach c (spoiling r l) (saveDiskLimits c r.state) front).2 = true) :
    ∀ x ∈ front, x.vars ≠ none → x.Complete ∧ r.state.lims x.path ≠ none := by
  intro x hx hvars
  obtain ⟨a, b, rfl⟩ := List.append_of_mem hx
  rw [setEach_append] at hok
  have hreach : (setEach c (spoiling r l) (saveDiskLimits c r.state) a).2 = true := by
    by_contra hno
    rw [if_neg hno] at hok
    exact hno hok
  rw [if_pos hreach] at hok
  have houtcome := setSingle_outcome c (spoiling r l)
    (setEach c (spoiling r l) (saveDiskLimits c r.state) a).1 x
  simp only [setEach] at hok
  generalize setSingle c (spoiling r l)
    (setEach c (spoiling r l) (saveDiskLimits c r.state) a).1 x = result at hok houtcome
  cases houtcome with
  | skipped hnone => exact absurd hnone hvars
  | failed hne cache hcache => cases hok
  | help hcomplete used husage hoption hhelp =>
    -- there is nothing in the cache, and `vdu` fails
    have hpath : x.path ∈ c.paths := mem_paths (hactive.subset hx) hcomplete.configured
    rcases usage_spoiling husage with ⟨hno, -⟩ | ⟨lines, hfile, hlines, hsource⟩
    · exact absurd hoption (ne_true_of_eq_false hno)
    · obtain ⟨-, -, before, y, back, ly, -, hy, -, -, -, hly, -⟩ :=
        cached_of_source hplace hreach hpath hfile hlines hsource
      rw [eq_of_name hhelp hy, r.unnameable hoption] at hly
      cases hly
  | set hcomplete used husage limit hparsed hset =>
    exact ⟨hcomplete, Option.isSome_iff_ne_none.1 hset.accepts⟩

/-- A limit behind the start of a directory whose totals are configured once has been set there. -/
theorem set_of_restarted {w : World} (hplace : c.place = true) (hsingle : c.Unambiguous)
    {front back : List Dlimit} {e : Dlimit} (hactive : c.active = front ++ e :: back)
    (hconf : e.Configured) {l' : Limits} (hl' : (restarted c w r.state).lims e.path = some l') :
    (setEach c w (saveDiskLimits c r.state) front).2 = true ∧ e.Complete ∧ ∃ used limit,
      usage c w (setEach c w (saveDiskLimits c r.state) front).1 e.values = some used ∧
      Parsed e.values used limit ∧ Settable w e.path limit ∧ l' = replaceLimits w.fresh limit := by
  have he : e ∈ c.active := by rw [hactive]; exact List.mem_append_right front List.mem_cons_self
  rw [Config.Unambiguous, hactive, List.pairwise_append, List.pairwise_cons] at hsingle
  obtain ⟨-, ⟨hafter, -⟩, hbefore⟩ := hsingle
  have hfront : ∀ x ∈ front, x.Complete → x.path ≠ e.path := fun x hx hcomplete =>
    hbefore x hx e List.mem_cons_self hcomplete.configured hconf
  have hback : ∀ x ∈ back, x.Complete → x.path ≠ e.path := fun x hx hcomplete =>
    (hafter x hx hconf hcomplete.configured).symm
  -- the stop removes the limit, and the directories in front set no other one
  have hgone : (setEach c w (saveDiskLimits c r.state) front).1.lims e.path = none := by
    rw [setEach_lims hfront, saveDiskLimits_eq,
      saveAll_lims hplace _ _ fun hoption => r.unnameable hoption, if_pos (mem_paths he hconf)]
  rw [restarted, setDiskLimits, hactive, setEach_append] at hl'
  by_cases hreach : (setEach c w (saveDiskLimits c r.state) front).2 = true
  · rw [if_pos hreach] at hl'
    refine ⟨hreach, ?_⟩
    generalize (setEach c w (saveDiskLimits c r.state) front).1 = st at hl' hgone
    have houtcome := setSingle_outcome c w st e
    have hlims : (setSingle c w st e).1.lims e.path = some l' := by
      simp only [setEach] at hl'
      split at hl'
      · rw [setEach_lims hback] at hl'
        exact hl'
      · exact hl'
    generalize setSingle c w st e = result at houtcome hlims
    cases houtcome with
    | skipped hvars =>
      rw [hgone] at hlims
      cases hlims
    | failed hvars cache hcache =>
      rw [hgone] at hlims
      cases hlims
    | help hcomplete used husage hoption hhelp =>
      rw [hgone] at hlims
      cases hlims
    | set hcomplete used husage limit hparsed hset =>
      dsimp only at hlims
      rw [Function.update_self, hgone, Option.getD_none] at hlims
      exact ⟨hcomplete, used, limit, husage, hparsed, hset, (Option.some.inj hlims).symm⟩
  · rw [if_neg hreach, hgone] at hl'
    cases hl'

theorem sound_of_survives (hplace : c.place = true) (hsingle : c.Unambiguous)
    (h : AlwaysSurvives c r) {front back : List Dlimit} {e : Dlimit}
    (hactive : c.active = front ++ e :: back) (hconf : e.Configured)
    (hl : r.state.lims e.path = some l) : Sound c r.state.lims front e l := by
  have he : e ∈ c.active := by rw [hactive]; exact List.mem_append_right front List.mem_cons_self
  obtain ⟨l', hl', hspace, hinodes, htotal, htotal'⟩ :=
    (h (spoiling r l) (spoiling_knows r l)).restored e he hconf l hl
  obtain ⟨hreach, hcomplete, used, limit, husage, hparsed, hset, rfl⟩ :=
    set_of_restarted hplace hsingle hactive hconf hl'
  obtain ⟨hspace, hspacekeep⟩ := eq_of_replaceWord hspace
  obtain ⟨hinodes, hinodeskeep⟩ := eq_of_replaceWord hinodes
  have hcached : Cached c r front e.path used := by
    rcases usage_spoiling husage with ⟨-, hcount⟩ | ⟨lines, hfile, hlines, hsource⟩
    · rw [hparsed.space_used, hspace] at hcount
      exact absurd (Option.some.inj hcount).symm (other_ne l.space_used)
    · exact cached_of_source hplace hreach (mem_paths he hconf) hfile hlines hsource
  have hspaceused : stored used.space_used = some l.space_used := by rw [hparsed.space_used, hspace]
  have hinodesused : stored used.inodes_used = some l.inodes_used := by
    rw [hparsed.inodes_used, hinodes]
  have hws : (replaceLimits (spoiling r l).fresh limit).space_total = limit.space_total :=
    Option.some.inj ((stored_of_limit htotal).1.symm.trans hparsed.space_total)
  have hwi : (replaceLimits (spoiling r l).fresh limit).inodes_total = limit.inodes_total :=
    Option.some.inj ((stored_of_limit htotal').1.symm.trans hparsed.inodes_total)
  have hready := front_of_reached hplace ⟨e :: back, hactive.symm⟩ hreach
  exact {
    complete := hcomplete
    front := fun x hx hvars =>
      ⟨(hready x hx hvars).1, (hready x hx hvars).2, hcached.front x hx hvars⟩
    fits := hcached.fits
    kept := hcached.kept hspaceused hinodesused
    used := ⟨hspacekeep, hinodeskeep⟩
    space := ⟨_, htotal, by rw [hws, ← hspace]; exact hset.space⟩
    inodes := ⟨_, htotal', by rw [hwi, ← hinodes]; exact hset.inodes⟩
    reserved := by
      intro hnone
      have hreserved := hparsed.reserved
      rw [stored, Dlimit.values, hnone] at hreserved
      cases hreserved }

end Necessity

/-- **The usage and the totals survive a stop and a start when the configuration fits**, whatever is
outside of the scripts.  With a place for the cache and totals that are configured once, they do so
only then. -/
theorem diskLimits_exact (c : Config) (r : Running) :
    (Fits c r → AlwaysSurvives c r) ∧
      (c.place = true → c.Unambiguous → AlwaysSurvives c r → Fits c r) := by
  constructor
  · intro hfits w hknows
    exact {
      restored := fun e he hconf l hl => restored_of_fits hfits hknows he hconf hl
      skipped := fun e he _ hother => skipped_of_place hfits.place he hother }
  · intro hplace hsingle h
    exact ⟨hplace, fun front e back l hactive hconf hl =>
      sound_of_survives hplace hsingle h hactive hconf hl⟩

/-- A directory with a total of 1000 blocks and 100 inodes. -/
def thousand (path : Text) (h : '\n' ∉ path) : Dlimit where
  disabled := false
  directory := .line ⟨path, h⟩
  space_total := .line ⟨"1000".toList, by decide⟩
  inodes_total := .line ⟨"100".toList, by decide⟩
  reserved := .line ⟨"5".toList, by decide⟩

/-- The directories `/a/b` and `/a_b`. -/
def first : Dlimit := thousand "/a/b".toList (by decide)

def second : Dlimit := thousand "/a_b".toList (by decide)

/-- Directories of the context 49. -/
def context49 (dlimits : List Dlimit) : Config where
  ctx := "49".toList
  xid := 49
  place := true
  fits _ := true
  dlimits := dlimits

/-- What is used below `/a/b` and below `/a_b`. -/
def firstLimits : Limits := ⟨10, 1000, 1, 100, 5⟩

def secondLimits : Limits := ⟨30, 1000, 3, 100, 5⟩

def limits49 : Dlimits := fun d =>
  if d = "/a/b".toList then some firstLimits
  else if d = "/a_b".toList then some secondLimits
  else none

def running : Running where
  state := ⟨limits49, fun _ => none⟩
  nameable := by
    intro d hd
    simp only [limits49] at hd
    split at hd
    · rename_i h
      rw [h]
      decide
    · split at hd
      · rename_i h
        rw [h]
        decide
      · exact absurd rfl hd

theorem first_complete : first.Complete := ⟨_, _, _, _, rfl, rfl, rfl, rfl⟩

/-- The two directories have the cache file `49_a_b`, and `/a/b` gets the usage of `/a_b`. -/
theorem diskLimits_wrong : (context49 [first, second]).place = true ∧
    (context49 [first, second]).Unambiguous ∧ ¬ AlwaysSurvives (context49 [first, second]) running := by
  refine ⟨rfl, ?_, fun h => ?_⟩
  · refine List.pairwise_cons.2 ⟨fun x hx _ _ => ?_, List.pairwise_singleton ..⟩
    rw [List.mem_singleton.1 hx]
    exact (by decide : "/a/b".toList ≠ "/a_b".toList)
  · have hactive : first ∈ (context49 [first, second]).active := List.mem_cons_self
    have hsaved : running.state.lims first.path = some firstLimits := by decide
    obtain ⟨l, hl, hspace, -⟩ :=
      (h (spoiling running firstLimits) (spoiling_knows running firstLimits)).restored first hactive
        first_complete.configured firstLimits hsaved
    have hrun : ((restarted (context49 [first, second]) (spoiling running firstLimits)
        running.state).lims first.path).map Limits.space_used = some 30 := by
      decide +kernel
    rw [hl, Option.map_some, hspace] at hrun
    exact absurd hrun (by decide)

/-- Without `/a_b` the limit of `/a/b` survives. -/
theorem diskLimits_first : AlwaysSurvives (context49 [first]) running := by
  refine (diskLimits_exact _ running).1 ⟨rfl, fun front e back l hactive _ hl => ?_⟩
  have hactive : [first] = front ++ e :: back := hactive
  obtain ⟨rfl, rfl⟩ : front = [] ∧ first = e := by
    cases front with
    | nil =>
      injection hactive with he
      exact ⟨rfl, he⟩
    | cons x front => simp at hactive
  have hsaved : running.state.lims first.path = some firstLimits := by decide
  obtain rfl : firstLimits = l := Option.some.inj (hsaved.symm.trans hl)
  exact {
    complete := first_complete
    front := fun x hx => absurd hx List.not_mem_nil
    fits := rfl
    kept := ⟨[], first.path, [], rfl, rfl, fun z hz => absurd hz List.not_mem_nil,
      List.not_mem_nil, by decide, firstLimits, hsaved, rfl, rfl⟩
    used := by decide
    space := ⟨1000, by decide, by decide⟩
    inodes := ⟨100, by decide, by decide⟩
    reserved := by decide }

end DiskLimits
