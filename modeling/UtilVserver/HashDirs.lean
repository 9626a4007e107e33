import Mathlib.Data.List.Nodup
import UtilVserver.EnscVector
import UtilVserver.PathInfo

/-!
# The hash directories of `vhashify`

One directory for every device, in a vector that reorders itself with every lookup.

* `compareDevice`, `findDevice` — a lookup; the difference of two 64-bit devices becomes an
  `int`.
* `initHashList` — the vector is filled with the subdirectories of the hash directory, a lookup
  each to find duplicates.
* `lookups` — the vector after a history of lookups.
* `LinuxDevice` — the device numbers that `stat` gives.

Principal results: `findDevice_perm`, `lookups_found` (a lookup does not depend on the history)
and `findDevice_configured` (it gives the directory of the device asked for).
-/

set_option autoImplicit false

namespace HashDirs

open CString EnscVector PathInfo

abbrev Dev := BitVec 64

/-- The major number of a device has twelve bits and the minor number twenty: Linux has no other
numbers, and `stat` gives no others. -/
def LinuxDevice (dev : Dev) : Prop := dev.toNat < 2 ^ 32

instance : DecidablePred LinuxDevice := fun dev => inferInstanceAs (Decidable (dev.toNat < 2 ^ 32))

structure HashDirInfo where
  device : Dev
  path : Text
  deriving DecidableEq, Repr

/-- `HashDirInfo_compareDevice`. -/
def compareDevice (dev : Dev) (lhs : HashDirInfo) : Int := ((lhs.device - dev).setWidth 32).toInt

/-- `HashDirInfo_findDevice`, with the vector it leaves behind. -/
def findDevice (coll : List HashDirInfo) (dev : Dev) : Option Text × List HashDirInfo :=
  let res := searchSelfOrg (compareDevice dev) coll .SHIFT_ONCE
  (res.1.map HashDirInfo.path, res.2)

/-- A name in the hash directory, with the kind and the device `stat` tells of it. -/
structure Entry where
  name : Text
  stat : Option (Bool × Dev)
  deriving DecidableEq, Repr

/-- The path of an entry: the slashes at the end of `hashdir` are replaced by one. -/
def fullPath (hashdir name : Text) : Text :=
  hashdir.reverse.dropWhile (· == '/') |>.reverse |>.append ('/' :: name ++ ['/'])

/-- The hash directory an entry configures, if it is a directory. -/
def Entry.config (hashdir : Text) (e : Entry) : Option HashDirInfo :=
  if isDotfile e.name then none
  else
    match e.stat with
    | some (true, dev) => some ⟨dev, fullPath hashdir e.name⟩
    | _ => none

/-- One round of the loop of `initHashList`. -/
def addEntry (hashdir : Text) (vec : List HashDirInfo) (e : Entry) : List HashDirInfo :=
  match e.config hashdir with
  | none => vec
  | some info =>
    let found := findDevice vec info.device
    if found.1.isSome then found.2 else (pushback info found.2).1

/-- `initHashList`: the vector and the length of the longest path; without a directory the
program ends. -/
def initHashList (hashdir : Text) (entries : List Entry) : Option (List HashDirInfo × Nat) :=
  let vec := entries.foldl (addEntry hashdir) []
  if vec = [] then none else some (vec, (vec.map fun i => i.path.length).foldl max 0)

/-- The vector after the lookups of `devs`. -/
def lookups (coll : List HashDirInfo) (devs : List Dev) : List HashDirInfo :=
  devs.foldl (fun coll dev => (findDevice coll dev).2) coll

/-- The directories the entries configure. -/
def configured (hashdir : Text) (entries : List Entry) : List HashDirInfo :=
  entries.filterMap (Entry.config hashdir)

/-! ## One lookup -/

/-- Devices that differ by a multiple of `2^32` compare equal. -/
def alike (dev : Dev) (info : HashDirInfo) : Bool :=
  info.device.setWidth 32 == dev.setWidth 32

theorem compareDevice_zero (dev : Dev) (info : HashDirInfo) :
    compareDevice dev info = 0 ↔ alike dev info = true := by
  rw [compareDevice, alike, beq_iff_eq]
  exact BinarySearch.narrowDiff_zero (by omega) info.device dev

theorem findDevice_found (coll : List HashDirInfo) (dev : Dev) :
    (findDevice coll dev).1 = (coll.filter (alike dev)).head?.map HashDirInfo.path := by
  have hpred : (fun info => compareDevice dev info == 0) = alike dev := by
    funext info
    rw [Bool.eq_iff_iff, beq_iff_eq]
    exact compareDevice_zero dev info
  show Option.map _ _ = _
  rw [searchSelfOrg_find?, hpred, List.head?_filter]

/-- **A lookup keeps the entries.** -/
theorem findDevice_perm (coll : List HashDirInfo) (dev : Dev) :
    (findDevice coll dev).2.Perm coll :=
  searchSelfOrg_perm (compareDevice dev) coll .SHIFT_ONCE

/-- A lookup keeps the order of entries whose devices are alike. -/
theorem findDevice_alike (coll : List HashDirInfo) (dev dev' : Dev) :
    (findDevice coll dev).2.filter (alike dev') = coll.filter (alike dev') := by
  refine searchSelfOrg_filter (fun x y hx hy hzero => ?_) coll .SHIFT_ONCE
  rw [compareDevice_zero] at hzero ⊢
  unfold alike at hx hy hzero ⊢
  rw [beq_iff_eq] at hx hy hzero ⊢
  rw [hy, ← hx, hzero]

theorem findDevice_mem {coll : List HashDirInfo} {dev : Dev} {root : Text}
    (h : (findDevice coll dev).1 = some root) : ∃ d ∈ coll, d.path = root := by
  rw [findDevice_found] at h
  obtain ⟨d, hd, hpath⟩ := Option.map_eq_some_iff.mp h
  exact ⟨d, List.mem_of_mem_filter (List.mem_of_mem_head? hd), hpath⟩

/-- Among the devices of Linux only a device is like itself. -/
theorem eq_of_alike {dev : Dev} {info : HashDirInfo} (hdev : LinuxDevice dev)
    (hinfo : LinuxDevice info.device) (h : alike dev info = true) : info.device = dev := by
  rw [alike, beq_iff_eq] at h
  unfold LinuxDevice at hdev hinfo
  bv_omega

/-! ## Any history -/

theorem lookups_snoc (coll : List HashDirInfo) (devs : List Dev) (dev : Dev) :
    lookups coll (devs ++ [dev]) = (findDevice (lookups coll devs) dev).2 := by
  simp [lookups]

theorem lookups_perm (coll : List HashDirInfo) (devs : List Dev) :
    (lookups coll devs).Perm coll := by
  induction devs using List.reverseRecOn with
  | nil => exact List.Perm.refl _
  | append_singleton devs dev ih =>
    rw [lookups_snoc]
    exact (findDevice_perm _ _).trans ih

theorem lookups_alike (coll : List HashDirInfo) (devs : List Dev) (dev : Dev) :
    (lookups coll devs).filter (alike dev) = coll.filter (alike dev) := by
  induction devs using List.reverseRecOn with
  | nil => rfl
  | append_singleton devs d ih => rw [lookups_snoc, findDevice_alike, ih]

/-- **A lookup gives the same after every history.** -/
theorem lookups_found (coll : List HashDirInfo) (devs : List Dev) (dev : Dev) :
    (findDevice (lookups coll devs) dev).1 = (findDevice coll dev).1 := by
  rw [findDevice_found, findDevice_found, lookups_alike]

/-! ## The vector `initHashList` makes -/

/-- Of the directories whose devices are alike the first one is kept. -/
theorem addEntry_alike {hashdir : Text} {vec : List HashDirInfo} {es : List Entry} (e : Entry)
    (h : ∀ dev, vec.filter (alike dev) =
      ((configured hashdir es).find? (alike dev)).toList) (dev : Dev) :
    (addEntry hashdir vec e).filter (alike dev) =
      ((configured hashdir (es ++ [e])).find? (alike dev)).toList := by
  have hconf : configured hashdir (es ++ [e]) =
      configured hashdir es ++ (e.config hashdir).toList := by
    cases hc : e.config hashdir <;> simp [configured, hc]
  rw [hconf, List.find?_append]
  cases hc : e.config hashdir with
  | none => simp [addEntry, hc, h]
  | some info =>
    have hfound : (findDevice vec info.device).1.isSome =
        ((configured hashdir es).find? (alike info.device)).isSome := by
      rw [findDevice_found, h]
      cases (configured hashdir es).find? (alike info.device) <;> rfl
    have hadd : addEntry hashdir vec e =
        if ((configured hashdir es).find? (alike info.device)).isSome then
          (findDevice vec info.device).2
        else (findDevice vec info.device).2 ++ [info] := by
      simp [addEntry, hc, hfound, pushback]
    rw [hadd]
    by_cases ha : alike dev info = true
    · have hsame : alike info.device = alike dev := by
        funext x
        unfold alike at ha ⊢
        rw [beq_iff_eq.mp ha]
      rw [hsame]
      cases hfirst : (configured hashdir es).find? (alike dev) with
      | some first => simp [findDevice_alike, h, hfirst]
      | none => simp [findDevice_alike, h, hfirst, ha]
    · have hlast : [info].find? (alike dev) = none := by simpa using ha
      rw [Option.toList_some, hlast, Option.or_none, ← h]
      split_ifs
      · exact findDevice_alike vec info.device dev
      · simp [findDevice_alike, ha]

theorem initLoop_alike (hashdir : Text) (es : List Entry) (dev : Dev) :
    (es.foldl (addEntry hashdir) []).filter (alike dev) =
      ((configured hashdir es).find? (alike dev)).toList := by
  induction es using List.reverseRecOn generalizing dev with
  | nil => rfl
  | append_singleton es e ih =>
    rw [List.foldl_append]
    exact addEntry_alike e ih dev

theorem find?_device (infos : List HashDirInfo) (dev : Dev) :
    infos.find? (fun i => i.device == dev) =
      (infos.filter (alike dev)).find? (fun i => i.device == dev) := by
  rw [List.find?_filter]
  congr 1
  funext i
  cases h : (i.device == dev) with
  | false => simp
  | true => simp [alike, beq_iff_eq.mp h]

/-- The path configured for exactly the device `dev`. -/
def pathFor (infos : List HashDirInfo) (dev : Dev) : Option Text :=
  (infos.find? (fun i => i.device == dev)).map HashDirInfo.path

theorem pathFor_of_first {infos : List HashDirInfo} {dev : Dev}
    (h : ∀ info, infos.find? (alike dev) = some info → info.device = dev) :
    pathFor infos dev = (infos.find? (alike dev)).map HashDirInfo.path := by
  have hhead := List.head?_filter (p := alike dev) (l := infos)
  rw [pathFor, find?_device, ← hhead]
  rw [← hhead] at h
  cases hf : infos.filter (alike dev) with
  | nil => rfl
  | cons first rest =>
    have hdev : first.device = dev := h first (by simp [hf])
    simp [hdev]

theorem configured_stat {hashdir : Text} {es : List Entry} {info : HashDirInfo}
    (h : info ∈ configured hashdir es) : ∃ e ∈ es, e.stat = some (true, info.device) := by
  obtain ⟨e, he, hinfo⟩ := List.mem_filterMap.mp h
  refine ⟨e, he, ?_⟩
  simp only [Entry.config] at hinfo
  split at hinfo
  · cases hinfo
  · split at hinfo
    · rename_i dev hstat
      cases hinfo
      exact hstat
    · cases hinfo

/-- No path is longer than `initHashList` says. -/
theorem findDevice_max {hashdir : Text} {es : List Entry} {coll : List HashDirInfo} {l : Nat}
    (hinit : initHashList hashdir es = some (coll, l)) (devs : List Dev) {dev : Dev} {root : Text}
    (hroot : (findDevice (lookups coll devs) dev).1 = some root) : root.length ≤ l := by
  have hmax : ∀ (ls : List Nat) (k : Nat), k ≤ ls.foldl max k ∧ ∀ x ∈ ls, x ≤ ls.foldl max k := by
    intro ls
    induction ls with
    | nil => simp
    | cons y ls ih =>
      intro k
      obtain ⟨h1, h2⟩ := ih (max k y)
      refine ⟨le_trans (le_max_left k y) h1, fun x hx => ?_⟩
      rcases List.mem_cons.mp hx with rfl | hx
      · exact le_trans (le_max_right k x) h1
      · exact h2 x hx
  simp only [initHashList] at hinit
  split at hinit
  · cases hinit
  · obtain ⟨rfl, rfl⟩ := Prod.mk.inj (Option.some.inj hinit)
    rw [lookups_found, findDevice_found] at hroot
    obtain ⟨info, hinfo, rfl⟩ := Option.map_eq_some_iff.mp hroot
    have hmem := List.mem_of_mem_filter (List.mem_of_mem_head? hinfo)
    exact (hmax _ 0).2 _ (List.mem_map.mpr ⟨info, hmem, rfl⟩)

theorem initHashList_vec {hashdir : Text} {es : List Entry} {coll : List HashDirInfo} {l : Nat}
    (hinit : initHashList hashdir es = some (coll, l)) :
    es.foldl (addEntry hashdir) [] = coll := by
  simp only [initHashList] at hinit
  split at hinit
  · cases hinit
  · exact congrArg Prod.fst (Option.some.inj hinit)

/-- No directory is left out when they are on different devices. -/
theorem initLoop_perm {hashdir : Text} {es : List Entry}
    (hlinux : ∀ info ∈ configured hashdir es, LinuxDevice info.device)
    (hdifferent : ((configured hashdir es).map HashDirInfo.device).Nodup) :
    (es.foldl (addEntry hashdir) []).Perm (configured hashdir es) := by
  have hone : ∀ dev, (configured hashdir es).filter (alike dev) =
      ((configured hashdir es).find? (alike dev)).toList := by
    intro dev
    rw [← List.head?_filter]
    have hnodup := (hdifferent.of_map _).filter (alike dev)
    cases hf : (configured hashdir es).filter (alike dev) with
    | nil => rfl
    | cons first rest =>
      cases rest with
      | nil => rfl
      | cons second rest =>
        exfalso
        have hfirst : first ∈ (configured hashdir es).filter (alike dev) := by simp [hf]
        have hsecond : second ∈ (configured hashdir es).filter (alike dev) := by simp [hf]
        rw [List.mem_filter] at hfirst hsecond
        have hlike : alike first.device second = true := by
          have h1 := hfirst.2
          have h2 := hsecond.2
          unfold alike at h1 h2 ⊢
          rw [beq_iff_eq] at h1 h2 ⊢
          rw [h1, h2]
        have hdev := eq_of_alike (hlinux first hfirst.1) (hlinux second hsecond.1) hlike
        have hsame := List.inj_on_of_nodup_map hdifferent hsecond.1 hfirst.1 hdev
        rw [hf, hsame] at hnodup
        exact (List.nodup_cons.mp hnodup).1 List.mem_cons_self
  rw [List.perm_iff_count]
  intro info
  have hself : alike info.device info = true := by simp [alike]
  rw [← List.count_filter hself, initLoop_alike, ← hone, List.count_filter hself]

/-- **After every history a lookup gives the path configured for exactly the device**, or nothing
if none is, and the vector has the directories of before. -/
theorem findDevice_configured {hashdir : Text} {es : List Entry} {coll : List HashDirInfo}
    {l : Nat} (hstat : ∀ e ∈ es, ∀ dir dev, e.stat = some (dir, dev) → LinuxDevice dev)
    (hinit : initHashList hashdir es = some (coll, l)) (devs : List Dev) {dev : Dev}
    (hdev : LinuxDevice dev) :
    (findDevice (lookups coll devs) dev).1 = pathFor (configured hashdir es) dev ∧
    (findDevice (lookups coll devs) dev).1 = (findDevice coll dev).1 ∧
    (lookups coll devs).Perm coll ∧
    (((configured hashdir es).map HashDirInfo.device).Nodup →
      coll.Perm (configured hashdir es)) := by
  have hcoll := initHashList_vec hinit
  have hlinux : ∀ info ∈ configured hashdir es, LinuxDevice info.device := by
    intro info hinfo
    obtain ⟨e, he, hst⟩ := configured_stat hinfo
    exact hstat e he true _ hst
  refine ⟨?_, lookups_found coll devs dev, lookups_perm coll devs, fun hdifferent => ?_⟩
  · have hfirst : ∀ info, (configured hashdir es).find? (alike dev) = some info →
        info.device = dev := by
      intro info hinfo
      exact eq_of_alike hdev (hlinux info (List.mem_of_find?_eq_some hinfo))
        (by simpa using List.find?_some hinfo)
    rw [pathFor_of_first hfirst, lookups_found, findDevice_found, ← hcoll, initLoop_alike]
    cases (configured hashdir es).find? (alike dev) <;> rfl
  · rw [← hcoll]
    exact initLoop_perm hlinux hdifferent

/-- A hash directory with one subdirectory on each of two devices. -/
def twoDevices : List Entry :=
  [⟨"a".toList, some (true, 0x10)⟩, ⟨"b".toList, some (true, 0x20)⟩]

theorem findDevice_configured_twoDevices :
    (findDevice (lookups [⟨0x10, "/h/a/".toList⟩, ⟨0x20, "/h/b/".toList⟩] [0x20, 0x10]) 0x20).1 =
      pathFor (configured "/h".toList twoDevices) 0x20 ∧
    pathFor (configured "/h".toList twoDevices) 0x20 = some "/h/b/".toList := by
  have hstat : ∀ e ∈ twoDevices, ∀ dir dev, e.stat = some (dir, dev) → LinuxDevice dev := by
    intro e he dir dev hst
    simp only [twoDevices, List.mem_cons, List.not_mem_nil, or_false] at he
    obtain rfl | rfl := he <;> cases hst <;> decide
  exact ⟨(findDevice_configured (l := 5) hstat (show initHashList "/h".toList twoDevices = _ by
    decide) [0x20, 0x10] (show LinuxDevice 0x20 by decide)).1, by decide⟩

end HashDirs
