import UtilVserver.SecureMount

/-!
# The data argument of `secure-mount`

`transformOptionList` copies the elements that are no options into a block with as many bytes as the
option list has characters, and `mountSingle` passes the block to `mount(2)`.

* `Block` — the memory of the copy (`SecureMount`); `copied` — the elements that are copied.
* `singleMount` — how an option list reaches `mount(2)`.
* `DataSafe` — the writes stay in the block, and what `mount(2)` gets is a string that does not
  depend on what was in the memory before.

Principal results: `copied_length` (how long the copy is) and `transformOptionList_exact`.
-/

set_option autoImplicit false

namespace MountData

open CString SecureMount

/-- What `malloc` gives has the size it was asked for. -/
def Lawful (malloc : Nat → List Char) : Prop := ∀ n, (malloc n).length = n

/-- The block of `transformOptionList`; none after a write outside of it. -/
def copyBlock (malloc : Nat → List Char) (info : MountInfo) : Option Block :=
  (transformFrom info.data ⟨info.words, some ⟨malloc info.data.length, 0⟩⟩).block

/-- The call of `mountSingle` for an option list, which for a line of the fstab may be ignored. -/
def singleMount (malloc : Nat → List Char) (mountProg : Text) (honorNoauto : Bool)
    (info : MountInfo) : Option MountCall :=
  let info := transformOptionList malloc info
  if honorNoauto && info.words.xflag &&& XFLAG_NOAUTO ≠ 0 then none
  else some (mountCall mountProg info)

/-- **The memory for an option list is safe**: it is large enough for what is written into it, and
where `mount(2)` gets it, it holds a string, whatever it held before. -/
structure DataSafe (honorNoauto : Bool) (info : MountInfo) : Prop where
  large : ∀ malloc, Lawful malloc → (copyBlock malloc info).isSome
  string : ∃ s, ∀ malloc mountProg flags data, Lawful malloc →
    singleMount malloc mountProg honorNoauto info = some (.internal flags data) → data = some s

/-! ## Which lists are safe -/

/-- The element is an option, or the start of one. -/
def Known (e : Text) : Prop := ∃ opt ∈ fstabOptions, e <+: opt.opt

/-- Some element is taken for an option with one of these flags. -/
def Gives (flag : FstabOption → Word) (mask : Word) (data : Text) : Prop :=
  ∃ e ∈ elements data, ∃ opt, lookup e = some opt ∧ flag opt &&& mask ≠ 0

/-- The flags that `mount(2)` is called for whatever the type is. -/
def handledFlags : Word :=
  MS_BIND ||| MS_MOVE ||| (MS_SHARED ||| MS_SLAVE ||| MS_PRIVATE ||| MS_UNBINDABLE)

/-- The types that `mount(2)` is called for. -/
def handledTypes : List Text :=
  ["tmpfs", "sysfs", "proc", "sockfs", "pipefs", "futexfs", "inotifyfs", "devpts", "ext3", "ext2",
    "ramfs", "hugetlbfs", "usbfs", "binfmt_misc"].map String.toList

/-- `secure-mount` itself mounts: the type or a flag asks for it, and the line is not left out. -/
def Handled (honorNoauto : Bool) (info : MountInfo) : Prop :=
  (info.words.flag &&& handledFlags ≠ 0 ∨ Gives FstabOption.flag handledFlags info.data ∨
    ∃ type ∈ handledTypes, info.type = some type) ∧
  ¬ (honorNoauto = true ∧
    (info.words.xflag &&& XFLAG_NOAUTO ≠ 0 ∨ Gives FstabOption.xflag XFLAG_NOAUTO info.data))

/-- Some element is an option or the list ends with a comma; and where `secure-mount` mounts, some
element is no option. -/
def Roomy (honorNoauto : Bool) (info : MountInfo) : Prop :=
  ((∃ e ∈ elements info.data, Known e) ∨ info.data.getLast? = some ',') ∧
  (Handled honorNoauto info → ∃ e ∈ elements info.data, ¬ Known e)

/-! ## The length of the copy -/

/-- The elements that are copied. -/
def copied (data : Text) : List Text := (elements data).filter fun e => (lookup e).isNone

theorem isNone_lookup (e : Text) : (lookup e).isNone = true ↔ ¬ Known e := by
  rw [Known, ← isSome_lookup, Option.isNone_iff_eq_none, Option.isSome_iff_ne_none, not_not]

theorem mem_copied {data e : Text} : e ∈ copied data ↔ e ∈ elements data ∧ ¬ Known e := by
  rw [copied, List.mem_filter, isNone_lookup]

theorem nil_not_mem_copied (data : Text) : [] ∉ copied data := by
  intro h
  exact (mem_copied.1 h).2 ⟨⟨"dev".toList, 0, MS_NODEV, 0⟩, by decide, List.nil_prefix⟩

theorem intercalate_length {es : List Text} (h : es ≠ []) :
    (List.intercalate [','] es).length + 1 = (es.map fun e => e.length + 1).sum := by
  induction es using List.reverseRecOn with
  | nil => exact absurd rfl h
  | append_singleton es e ih =>
    by_cases hes : es = []
    · subst hes
      simp [List.intercalate]
    · rw [intercalate_concat es e hes, List.map_append, List.sum_append, ← ih hes]
      simp only [List.length_append, List.map_cons, List.map_nil, List.sum_cons, List.sum_nil,
        List.length_singleton]
      omega

/-- Every element left out makes the sum smaller. -/
theorem sum_filter_le (p : Text → Bool) (es : List Text) :
    ((es.filter p).map fun e => e.length + 1).sum ≤ (es.map fun e => e.length + 1).sum ∧
    ((∃ e ∈ es, p e = false) →
      ((es.filter p).map fun e => e.length + 1).sum < (es.map fun e => e.length + 1).sum) := by
  induction es with
  | nil => simp
  | cons e es ih =>
    obtain ⟨hle, hlt⟩ := ih
    cases hp : p e with
    | true =>
      rw [List.filter_cons_of_pos hp, List.map_cons, List.sum_cons, List.map_cons, List.sum_cons]
      refine ⟨by omega, ?_⟩
      rintro ⟨x, hx, hpx⟩
      rcases List.mem_cons.1 hx with rfl | hx
      · rw [hp] at hpx
        cases hpx
      · have hless := hlt ⟨x, hx, hpx⟩
        omega
    | false =>
      rw [List.filter_cons_of_neg (by simp [hp]), List.map_cons, List.sum_cons]
      exact ⟨by omega, fun _ => by omega⟩

theorem elements_ne_nil (data : Text) : elements data ≠ [] := List.splitOn_ne_nil _ _

/-- The list is its elements with commas, and perhaps one more. -/
theorem data_length (data : Text) :
    data.length = (List.intercalate [','] (elements data)).length +
      if data.getLast? = some ',' then 1 else 0 := by
  rw [elements, List.intercalate_splitOn, chomp]
  split
  · rename_i hlast
    obtain ⟨t, rfl⟩ := List.getLast?_eq_some_iff.1 hlast
    rw [List.dropLast_concat, List.length_append, List.length_singleton]
  · rfl

/-- **The copy leaves room for a NUL** when an element is left out or the list ends with a comma. -/
theorem copied_length {data : Text} (h : copied data ≠ []) :
    (List.intercalate [','] (copied data)).length < data.length ↔
      (∃ e ∈ elements data, Known e) ∨ data.getLast? = some ',' := by
  have hcopy := intercalate_length h
  have hall := intercalate_length (elements_ne_nil data)
  have hdata := data_length data
  obtain ⟨hle, hlt⟩ := sum_filter_le (fun e => (lookup e).isNone) (elements data)
  rw [← copied] at hle hlt
  constructor
  · intro hshort
    by_cases hlast : data.getLast? = some ','
    · exact .inr hlast
    · left
      by_contra hnone
      have hsame : copied data = elements data := by
        refine List.filter_eq_self.2 fun e he => (isNone_lookup e).2 fun hknown => ?_
        exact hnone ⟨e, he, hknown⟩
      rw [hsame, hdata, if_neg hlast] at hshort
      omega
  · rintro (⟨e, he, hknown⟩ | hlast)
    · have hless := hlt ⟨e, he, by
        rw [← Bool.not_eq_true, isNone_lookup]
        exact not_not_intro hknown⟩
      split at hdata <;> omega
    · rw [if_pos hlast] at hdata
      omega

/-! ## What is written -/

theorem copyBlock_eq (malloc : Nat → List Char) (info : MountInfo) :
    copyBlock malloc info = putAll (copied info.data) (some ⟨malloc info.data.length, 0⟩) :=
  transformFrom_block _ _

/-- A copy stays in its block when it leaves room for a NUL. -/
theorem copyBlock_isSome {malloc : Nat → List Char} (hm : Lawful malloc) (info : MountInfo) :
    (copyBlock malloc info).isSome = true ↔
      (∃ e ∈ elements info.data, Known e) ∨ info.data.getLast? = some ',' := by
  rw [copyBlock_eq]
  by_cases hnil : copied info.data = []
  · rw [hnil]
    refine iff_of_true rfl (.inl ?_)
    obtain ⟨e, he⟩ := List.exists_mem_of_ne_nil _ (elements_ne_nil info.data)
    refine ⟨e, he, ?_⟩
    by_contra hknown
    exact List.ne_nil_of_mem (mem_copied.2 ⟨he, hknown⟩) hnil
  · obtain ⟨hfits, hfails⟩ := putAll_spec (malloc info.data.length) hnil (nil_not_mem_copied _)
    rw [← copied_length hnil]
    rw [hm info.data.length] at hfits hfails
    constructor
    · intro hsome
      by_contra hle
      rw [hfails (by omega)] at hsome
      cases hsome
    · intro hlt
      obtain ⟨b, hb, -⟩ := hfits hlt
      rw [hb]
      rfl

/-- With an element to copy, the block holds a string that does not depend on the memory. -/
theorem dataParsed_copied {malloc : Nat → List Char} (hm : Lawful malloc) {info : MountInfo}
    (hsome : (copyBlock malloc info).isSome) (hcopied : copied info.data ≠ []) :
    (transformOptionList malloc info).dataParsed =
      some ((List.intercalate [','] (copied info.data)).takeWhile (· ≠ '\x00')) := by
  have hroom := (copied_length hcopied).2 ((copyBlock_isSome hm info).1 hsome)
  obtain ⟨hfits, -⟩ := putAll_spec (malloc info.data.length) hcopied (nil_not_mem_copied _)
  obtain ⟨b, hb, hholds⟩ := hfits (by rw [hm]; exact hroom)
  obtain ⟨tail, htail⟩ := hholds.text
  rw [transformOptionList_block, ← copied, hb, Option.bind_some, htail, readString_nul]

/-- Without one, the block is as it was. -/
theorem dataParsed_nothing (malloc : Nat → List Char) {info : MountInfo}
    (hcopied : copied info.data = []) :
    (transformOptionList malloc info).dataParsed = readString (malloc info.data.length) := by
  rw [transformOptionList_block, ← copied, hcopied]
  rfl

/-! ## What is mounted -/

theorem or_ne_zero (x y : Word) : x ||| y ≠ 0 ↔ x ≠ 0 ∨ y ≠ 0 := by
  rw [← not_and_or]
  exact not_congr BitVec.or_eq_zero_iff

/-- A word that every option adds something to. -/
theorem wordsBy_or (word : Words → Word) (adds : FstabOption → Word)
    (happly : ∀ opt ∈ fstabOptions, ∀ s : Words, word (s.apply opt) = word s ||| adds opt)
    (es : List Text) (s : Words) :
    word (wordsBy lookup es s) ≠ 0 ↔
      word s ≠ 0 ∨ ∃ e ∈ es, ∃ opt, lookup e = some opt ∧ adds opt ≠ 0 := by
  induction es generalizing s with
  | nil => simp [wordsBy]
  | cons e es ih =>
    cases hlookup : lookup e with
    | none =>
      have hskip : wordsBy lookup (e :: es) s = wordsBy lookup es s := by simp [wordsBy, hlookup]
      rw [hskip, ih]
      simp [hlookup]
    | some opt =>
      have htake : wordsBy lookup (e :: es) s = wordsBy lookup es (s.apply opt) := by
        simp [wordsBy, hlookup]
      rw [htake, ih, happly opt (reads_lookup e opt hlookup), or_ne_zero]
      simp [hlookup, or_assoc]

/-- Flags that no option only clears are those of the start and of the options. -/
theorem wordsBy_flags (mask : Word)
    (hmask : ∀ opt ∈ fstabOptions, opt.mask &&& mask = opt.flag &&& mask) (data : Text)
    (s : Words) :
    (wordsBy lookup (elements data) s).flag &&& mask ≠ 0 ↔
      s.flag &&& mask ≠ 0 ∨ Gives FstabOption.flag mask data := by
  refine wordsBy_or (fun s => s.flag &&& mask) (fun opt => opt.flag &&& mask)
    (fun opt hopt s => ?_) _ _
  refine BitVec.eq_of_getLsbD_eq fun b hb => ?_
  have hbit := congrArg (fun x : Word => x.getLsbD b) (hmask opt hopt)
  simp only [BitVec.getLsbD_and] at hbit
  simp only [Words.apply, BitVec.getLsbD_and, BitVec.getLsbD_or, BitVec.getLsbD_not, hb,
    decide_true, Bool.true_and]
  revert hbit
  cases s.flag.getLsbD b <;> cases opt.mask.getLsbD b <;> cases opt.flag.getLsbD b <;>
    cases mask.getLsbD b <;> decide

theorem wordsBy_xflags (mask : Word) (data : Text) (s : Words) :
    (wordsBy lookup (elements data) s).xflag &&& mask ≠ 0 ↔
      s.xflag &&& mask ≠ 0 ∨ Gives FstabOption.xflag mask data :=
  wordsBy_or (fun s => s.xflag &&& mask) (fun opt => opt.xflag &&& mask)
    (fun _ _ _ => BitVec.and_or_distrib_right) _ _

theorem canHandleInternal_iff (mnt : MountInfo) :
    canHandleInternal mnt = true ↔
      mnt.words.flag &&& handledFlags ≠ 0 ∨ ∃ type ∈ handledTypes, mnt.type = some type := by
  have hflags : mnt.words.flag &&& handledFlags ≠ 0 ↔
      mnt.words.flag &&& (MS_BIND ||| MS_MOVE) ≠ 0 ∨
        mnt.words.flag &&& (MS_SHARED ||| MS_SLAVE ||| MS_PRIVATE ||| MS_UNBINDABLE) ≠ 0 := by
    rw [handledFlags, BitVec.and_or_distrib_left, or_ne_zero]
  rw [hflags, canHandleInternal]
  split
  · rename_i hbind
    exact iff_of_true rfl (.inl (.inl hbind))
  · rename_i hbind
    split
    · rename_i hshared
      exact iff_of_true rfl (.inl (.inr hshared))
    · rename_i hshared
      simp only [hbind, hshared, false_or]
      cases mnt.type with
      | none => simp
      | some type =>
        simp only [decide_eq_true_eq, Option.some.injEq, exists_eq_right', handledTypes]

/-- **When `mount(2)` gets the block.** -/
theorem singleMount_internal (malloc : Nat → List Char) (mountProg : Text) (honorNoauto : Bool)
    (info : MountInfo) :
    (∃ flags, singleMount malloc mountProg honorNoauto info =
      some (.internal flags (transformOptionList malloc info).dataParsed)) ↔
      Handled honorNoauto info := by
  have hwords := transformOptionList_words malloc info
  have hflag := wordsBy_flags handledFlags (by decide) info.data info.words
  have hxflag := wordsBy_xflags XFLAG_NOAUTO info.data info.words
  have hinternal : canHandleInternal (transformOptionList malloc info) = true ↔
      (transformOptionList malloc info).words.flag &&& handledFlags ≠ 0 ∨
        ∃ type ∈ handledTypes, info.type = some type := canHandleInternal_iff _
  rw [← hwords] at hflag hxflag
  rw [hflag, or_assoc] at hinternal
  unfold singleMount Handled
  rw [← hxflag, ← hinternal]
  dsimp only
  by_cases hnoauto :
      honorNoauto = true ∧ (transformOptionList malloc info).words.xflag &&& XFLAG_NOAUTO ≠ 0
  · rw [if_pos (by simpa using hnoauto)]
    exact iff_of_false (by rintro ⟨_, ⟨⟩⟩) fun h => h.2 hnoauto
  · rw [if_neg (by simpa using hnoauto), mountCall]
    split
    · rename_i hcan
      exact iff_of_true ⟨_, rfl⟩ ⟨hcan, hnoauto⟩
    · rename_i hcan
      exact iff_of_false (by rintro ⟨_, ⟨⟩⟩) fun h => hcan h.1

theorem singleMount_data {malloc : Nat → List Char} {mountProg : Text} {honorNoauto : Bool}
    {info : MountInfo} {flags : Word} {data : Option Text}
    (h : singleMount malloc mountProg honorNoauto info = some (.internal flags data)) :
    data = (transformOptionList malloc info).dataParsed := by
  unfold singleMount mountCall at h
  dsimp only at h
  split at h
  · cases h
  · split at h
    · cases h
      rfl
    · cases h

/-! ## Safe lists -/

theorem lawful_zeros : Lawful zeros := fun _ => List.length_replicate

/-- Memory without a NUL. -/
def ones (n : Nat) : List Char := List.replicate n '\x01'

theorem lawful_ones : Lawful ones := fun _ => List.length_replicate

theorem readString_ones (n : Nat) : readString (ones n) = none := by
  rw [readString]
  cases h : strchr (ones n) '\x00' with
  | none => rfl
  | some p =>
    obtain ⟨t, r, -, -, hs⟩ := strchr_some h
    have hmem : '\x00' ∈ ones n := hs ▸ List.mem_append_right t List.mem_cons_self
    exact absurd (List.eq_of_mem_replicate hmem) (by decide)

/-- **The memory for an option list is safe just when some element is an option or the list ends
with a comma, and, where `secure-mount` mounts, some element is no option.** -/
theorem transformOptionList_exact (honorNoauto : Bool) (info : MountInfo) :
    DataSafe honorNoauto info ↔ Roomy honorNoauto info := by
  constructor
  · rintro ⟨hlarge, s, hs⟩
    refine ⟨(copyBlock_isSome lawful_zeros info).1 (hlarge zeros lawful_zeros), fun hhandled => ?_⟩
    by_contra hnone
    have hcopied : copied info.data = [] := by
      refine List.eq_nil_iff_forall_not_mem.2 fun e he => ?_
      exact hnone ⟨e, (mem_copied.1 he).1, (mem_copied.1 he).2⟩
    obtain ⟨flags, hmount⟩ := (singleMount_internal ones [] honorNoauto info).2 hhandled
    have hdata := hs ones [] flags _ lawful_ones hmount
    rw [dataParsed_nothing ones hcopied, readString_ones] at hdata
    cases hdata
  · rintro ⟨hroom, hcopy⟩
    have hlarge : ∀ malloc, Lawful malloc → (copyBlock malloc info).isSome :=
      fun malloc hm => (copyBlock_isSome hm info).2 hroom
    refine ⟨hlarge, (List.intercalate [','] (copied info.data)).takeWhile (· ≠ '\x00'),
      fun malloc mountProg flags data hm hmount => ?_⟩
    have hdata := singleMount_data hmount
    subst hdata
    obtain ⟨e, he, hunknown⟩ := hcopy ((singleMount_internal malloc mountProg honorNoauto info).1
      ⟨flags, hmount⟩)
    exact dataParsed_copied hm (hlarge malloc hm) (List.ne_nil_of_mem (mem_copied.2 ⟨he, hunknown⟩))

/-- Nine bytes are written into eight. -/
theorem transformOptionList_overrun : ¬ ∀ honorNoauto info, DataSafe honorNoauto info := by
  intro h
  have hsome := (copyBlock_isSome lawful_zeros _).1
    ((h true (tmpfsInfo "size=10m".toList)).large zeros lawful_zeros)
  have helements : elements "size=10m".toList = ["size=10m".toList] :=
    elements_of_not_mem (by decide)
  have hunknown : ¬ Known "size=10m".toList := by
    unfold Known
    decide
  rcases hsome with ⟨e, he, hknown⟩ | hlast
  · rw [show (tmpfsInfo "size=10m".toList).data = "size=10m".toList from rfl, helements] at he
    rw [List.mem_singleton.1 he] at hknown
    exact hunknown hknown
  · exact absurd hlast (by decide)

end MountData
