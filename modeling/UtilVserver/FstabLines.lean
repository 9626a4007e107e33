import UtilVserver.MountData

/-!
# The lines of an fstab (`src/secure-mount.c`)

`mountFstab` reads the whole file into one buffer, puts a `#` behind it and takes it apart with
`strsep`; `parseFstabLine` makes a request of a line, ignores it or ends the program.

* `mountFstab` — the requests that are made, in order.  Each call of `malloc` gives a block with a
  content of its own.
* `requestsOf`, `requestsFrom` — the requests of a line that is parsed alone, and of several ones.
* `seen` — a request as far as the program sets it: where nothing is copied, `data_parsed` points
  to the memory as it was.
* `readFields` — the fields of a line, as `parseFstabLine` finds them.
* `LineLocal` — the condition on the content: the `#` is not read as a part of the last line's
  options, and nothing is asked for behind a NUL.

Principal result: `mountFstab_lineLocal`.
-/

set_option autoImplicit false

namespace FstabLines

open CString SecureMount MountData

/-! ## The loop over the buffer -/

inductive RootFsOption where
  | rfsYES
  | rfsNO
  | rfsONLY
  deriving DecidableEq

structure Options where
  rootfs : RootFsOption
  trigger_automount : Bool

/-- An entry that is not for this call, by its destination. -/
def Options.excludes (opt : Options) (dst : Text) : Bool :=
  let is_rootfs := dst == ['/']
  (is_rootfs && opt.rootfs == .rfsNO) || (!is_rootfs && opt.rootfs == .rfsONLY)

/-- How `mountFstab` ends, with the requests that it has made.  What is done with a request
(`adjustFileMount`, `mountSingle`, `triggerAutomount`) has no influence on the following ones. -/
inductive Result where
  | done (requests : List MountInfo)
  | syntaxError (line_nr : Nat) (requests : List MountInfo)

/-- The string in a buffer. -/
def cstring (buf : Text) : Text := buf.takeWhile fun c => c ≠ '\x00'

/-- The lines `strsep` gives. -/
def lines (buf : Text) : List Text := buf.splitOn '\n'

/-- The loop of `mountFstab`; `mallocs` gives the blocks that each line gets. -/
def mountLines (mallocs : Nat → Nat → List Char) (opt : Options) :
    Nat → List Text → List MountInfo → Result
  | _, [], requests => .done requests
  | line_nr, line :: rest, requests =>
    match parseFstabLine (mallocs line_nr) line (!opt.trigger_automount) with
    | .fail => .syntaxError line_nr requests
    | .ignore => mountLines mallocs opt (line_nr + 1) rest requests
    | .doit mnt =>
      mountLines mallocs opt (line_nr + 1) rest
        (if opt.excludes mnt.dst then requests else requests ++ [mnt])

/-- `mountFstab` for a file with this content. -/
def mountFstab (mallocs : Nat → Nat → List Char) (opt : Options) (content : Text) : Result :=
  mountLines mallocs opt 1 (lines (cstring (content ++ ['#']))) []

/-- A line parsed alone. -/
def parseAlone (malloc : Nat → List Char) (opt : Options) (line : Text) : ParseResult :=
  parseFstabLine malloc (cstring line) (!opt.trigger_automount)

def requestsOf (malloc : Nat → List Char) (opt : Options) (line : Text) : List MountInfo :=
  match parseAlone malloc opt line with
  | .doit mnt => if opt.excludes mnt.dst then [] else [mnt]
  | _ => []

/-- The requests of lines that are parsed alone, the first of them with this number. -/
def requestsFrom (mallocs : Nat → Nat → List Char) (opt : Options) : Nat → List Text → List MountInfo
  | _, [] => []
  | line_nr, line :: rest =>
    requestsOf (mallocs line_nr) opt line ++ requestsFrom mallocs opt (line_nr + 1) rest

/-- A request as far as the program sets it. -/
def seen (mnt : MountInfo) : MountInfo :=
  if copied mnt.data = [] then { mnt with dataParsed := none } else mnt

def Result.seen : Result → Result
  | .done requests => .done (requests.map FstabLines.seen)
  | .syntaxError line_nr requests => .syntaxError line_nr (requests.map FstabLines.seen)

/-- A line is no syntax error. -/
def Accepted (opt : Options) (line : Text) : Prop := ∀ malloc, parseAlone malloc opt line ≠ .fail

/-- What a line asks for when it is parsed alone. -/
def asked (opt : Options) (line : Text) : List MountInfo := (requestsOf zeros opt line).map seen

/-! ## The fields of a line -/

/-- A line before its options are looked at; `options` is all from the fourth field on. -/
inductive Line where
  | comment
  | incomplete
  | entry (src dst type options : Text)
  deriving DecidableEq

/-- The field at the start of a text. -/
def field (t : Text) : Text := t.takeWhile fun c => !isspace c

/-- The fields from the first one on. -/
def entryFields (buf : Text) : Line :=
  match moveToNextField false buf with
  | none => .incomplete
  | some (src, buf) =>
    match moveToNextField false buf with
    | none => .incomplete
    | some (dst, buf) =>
      match moveToNextField false buf with
      | none => .incomplete
      | some (type, buf) => .entry src dst type buf

def readFields (buf : Text) : Line :=
  let start := buf.dropWhile isspace
  if start = [] ∨ start.head? = some '#' then .comment else entryFields start

/-- An element that is taken for `noauto`. -/
def saysNoauto (e : Text) : Bool := (lookup e).any fun o => o.xflag &&& XFLAG_NOAUTO ≠ 0

/-- An entry for which no request is made, with these elements of its options. -/
def Passed (opt : Options) (dst type : Text) (es : List Text) : Prop :=
  type = "swap".toList ∨ opt.excludes dst = true ∨
    (opt.trigger_automount = false ∧ ∃ e ∈ es, saysNoauto e = true)

/-- No request is made for a line. -/
def Silent (opt : Options) (line : Text) : Prop :=
  match readFields (cstring line) with
  | .entry _ dst type options => Passed opt dst type (elements (field options))
  | _ => True

/-- A `#` behind the line is no part of what is asked for: the options end before it, or the line is
passed for another reason than its last option. -/
def Ended (opt : Options) (line : Text) : Prop :=
  match readFields line with
  | .entry _ dst type options => (∃ c ∈ options, isspace c = true) ∨
      Passed opt dst type ((field options).splitOn ',').dropLast
  | _ => True

/-- **The condition**: without a NUL the last line is ended; with one, no line behind it asks for a
mount. -/
def LineLocal (opt : Options) (content : Text) : Prop :=
  if '\x00' ∈ content then
    ∀ line ∈ ((lines content).dropWhile fun l => '\x00' ∉ l).tail, Silent opt line
  else ∀ line ∈ (lines content).getLast?, Ended opt line

theorem parseFstabLine_eq (malloc : Nat → List Char) (buf : Text) (honorNoauto : Bool) :
    parseFstabLine malloc buf honorNoauto =
      match readFields buf with
      | .comment => .ignore
      | .incomplete => .fail
      | .entry src dst type options =>
        parseFields malloc honorNoauto src dst type (field options) := by
  unfold parseFstabLine readFields
  generalize buf.dropWhile isspace = start
  split
  · simp
  · simp
  · rename_i hnil hcomment
    have hentry : ¬ (start = [] ∨ start.head? = some '#') := by
      rintro (h | h)
      · exact hnil h
      · cases start with
        | nil => exact hnil rfl
        | cons c t => exact hcomment t (by rw [Option.some.inj h])
    simp only [if_neg hentry, entryFields]
    cases hsrc : moveToNextField false start with
    | none => rfl
    | some p =>
      cases hdst : moveToNextField false p.2 with
      | none => simp only [hdst]
      | some p' =>
        cases htype : moveToNextField false p'.2 with
        | none => simp only [hdst, htype]
        | some p'' =>
          simp only [hdst, htype]
          rfl

/-- A field that is not the last one ends with a blank. -/
theorem moveToNextField_some {buf f rest : Text} (h : moveToNextField false buf = some (f, rest)) :
    ∃ c r, buf = f ++ c :: r ∧ (∀ x ∈ f, isspace x = false) ∧ isspace c = true ∧
      rest = r.dropWhile isspace := by
  unfold moveToNextField at h
  simp only [Bool.not_false, Bool.true_and, List.isEmpty_iff] at h
  split at h
  · cases h
  · obtain ⟨rfl, rfl⟩ := Prod.mk.inj (Option.some.inj h)
    cases hdrop : buf.dropWhile fun c => !isspace c with
    | nil => contradiction
    | cons c r =>
      have hbuf : buf = buf.takeWhile (fun c => !isspace c) ++ c :: r := by
        rw [← hdrop, List.takeWhile_append_dropWhile]
      have hc : (!isspace c) = false := by
        have hhead := List.head?_dropWhile_not (fun c => !isspace c) buf
        rw [hdrop] at hhead
        simpa using hhead
      refine ⟨c, r, hbuf, ?_, by simpa using hc, rfl⟩
      intro x hx
      simpa using List.mem_takeWhile_imp hx

theorem moveToNextField_append {f r : Text} {c : Char} (hf : ∀ x ∈ f, isspace x = false)
    (hc : isspace c = true) :
    moveToNextField false (f ++ c :: r) = some (f, r.dropWhile isspace) := by
  have hdrop : (f ++ c :: r).dropWhile (fun c => !isspace c) = c :: r := by
    rw [List.dropWhile_append_of_pos (fun x hx => by simp [hf x hx])]
    simp [hc]
  have htake : (f ++ c :: r).takeWhile (fun c => !isspace c) = f := by
    rw [List.takeWhile_append_of_pos (fun x hx => by simp [hf x hx])]
    simp [hc]
  unfold moveToNextField
  rw [hdrop, htake]
  rfl

/-! ### With a `#` behind the line -/

theorem isspace_hash : isspace '#' = false := by decide

theorem dropWhile_isspace_hash (t : Text) :
    (t ++ ['#']).dropWhile isspace = t.dropWhile isspace ++ ['#'] :=
  dropWhile_append_stop isspace_hash t []

/-- A field that is not the last one ends before the `#`. -/
theorem moveToNextField_hash {buf f rest : Text}
    (h : moveToNextField false buf = some (f, rest)) :
    moveToNextField false (buf ++ ['#']) = some (f, rest ++ ['#']) := by
  obtain ⟨c, r, rfl, hf, hc, rfl⟩ := moveToNextField_some h
  rw [List.append_assoc, List.cons_append, moveToNextField_append hf hc, dropWhile_isspace_hash]

theorem readFields_hash (line : Text) (h : readFields line ≠ .incomplete) :
    readFields (line ++ ['#']) =
      match readFields line with
      | .entry src dst type options => .entry src dst type (options ++ ['#'])
      | read => read := by
  unfold readFields at h ⊢
  rw [dropWhile_isspace_hash]
  generalize line.dropWhile isspace = start at h ⊢
  cases start with
  | nil => simp
  | cons c t =>
    by_cases hc : c = '#'
    · simp [hc]
    · have hentry : ¬ ((c :: t) = [] ∨ (c :: t).head? = some '#') := by simp [hc]
      have hentry' : ¬ ((c :: t) ++ ['#'] = [] ∨ ((c :: t) ++ ['#']).head? = some '#') := by
        simp [hc]
      simp only [if_neg hentry] at h ⊢
      simp only [if_neg hentry']
      generalize c :: t = start at h ⊢
      unfold entryFields at h ⊢
      cases hsrc : moveToNextField false start with
      | none => simp [hsrc] at h
      | some p =>
        cases hdst : moveToNextField false p.2 with
        | none => simp [hsrc, hdst] at h
        | some p' =>
          cases htype : moveToNextField false p'.2 with
          | none => simp [hsrc, hdst, htype] at h
          | some p'' =>
            simp only [moveToNextField_hash hsrc, moveToNextField_hash hdst,
              moveToNextField_hash htype, hdst, htype]

/-- The `#` is not read where something ends the options field before it. -/
theorem field_hash_of_space {options : Text} (h : ∃ c ∈ options, isspace c = true) :
    field (options ++ ['#']) = field options := by
  unfold field
  rw [List.takeWhile_append, if_neg]
  intro hlen
  have hall : options.takeWhile (fun c => !isspace c) = options :=
    (List.takeWhile_prefix _).eq_of_length hlen
  obtain ⟨c, hc, hspace⟩ := h
  rw [← hall] at hc
  have := List.mem_takeWhile_imp hc
  simp [hspace] at this

/-- The `#` is a part of the options field when nothing ends the field. -/
theorem field_hash {options : Text} (h : ¬ ∃ c ∈ options, isspace c = true) :
    field (options ++ ['#']) = field options ++ ['#'] := by
  have hall : options.takeWhile (fun c => !isspace c) = options := by
    rw [List.takeWhile_eq_self_iff]
    intro c hc
    have : isspace c ≠ true := fun hspace => h ⟨c, hc, hspace⟩
    simpa using this
  unfold field
  rw [List.takeWhile_append, if_pos (congrArg List.length hall), hall]
  rfl

/-! ### The last piece of a list -/

/-- What follows a text is split together with its last piece. -/
theorem splitOn_last (c : Char) (s : Text) :
    ∃ init last, c ∉ last ∧ ∀ t, (s ++ t).splitOn c = init ++ (last ++ t).splitOn c := by
  rcases strchr_cases s c with hs | ⟨t, r, ht, rfl⟩
  · exact ⟨[], s, hs, fun _ => rfl⟩
  · obtain ⟨init, last, hlast, hsplit⟩ := splitOn_last c r
    refine ⟨t :: init, last, hlast, fun u => ?_⟩
    rw [List.append_assoc, List.cons_append, List.splitOn_append_cons_self, hsplit,
      List.splitOn_eq_singleton ht]
    rfl
  termination_by s.length

theorem splitOn_concat {c : Char} {s : Text} {init : List Text} {last t : Text}
    (h : ∀ t, (s ++ t).splitOn c = init ++ (last ++ t).splitOn c) (hlast : c ∉ last) (ht : c ∉ t) :
    (s ++ t).splitOn c = init ++ [last ++ t] := by
  rw [h, List.splitOn_eq_singleton (by simp [hlast, ht])]

theorem lookup_hash (e : Text) : lookup (e ++ ['#']) = none := by
  have hopts : ∀ o ∈ fstabOptions, '#' ∉ o.opt := by decide
  unfold lookup
  rw [List.find?_eq_none]
  intro o ho hprefix
  have hmem : '#' ∈ e ++ ['#'] := by simp
  exact hopts o ho ((List.isPrefixOf_iff_prefix.1 hprefix).subset hmem)

/-- With the `#` all options but the last one are read as before. -/
theorem elements_hash {data : Text} {init : List Text} {last : Text}
    (h : ∀ t, (data ++ t).splitOn ',' = init ++ (last ++ t).splitOn ',') (hlast : ',' ∉ last) :
    elements (data ++ ['#']) = init ++ [last ++ ['#']] := by
  unfold elements chomp
  rw [if_neg (by simp), splitOn_concat h hlast (by decide)]

theorem subset_elements (data : Text) : (data.splitOn ',').dropLast ⊆ elements data := by
  rcases splitOn_cases data with h | h
  · rw [h]
    exact List.dropLast_subset _
  · rw [h, List.dropLast_concat]
    exact List.Subset.refl _

/-- A flag that is only set stays set. -/
theorem foldl_apply_xflag (opts : List FstabOption) (s : Words) (m : Word) :
    (opts.foldl Words.apply s).xflag &&& m ≠ 0 ↔
      s.xflag &&& m ≠ 0 ∨ ∃ o ∈ opts, o.xflag &&& m ≠ 0 := by
  induction opts generalizing s with
  | nil => simp
  | cons o opts ih =>
    have hor : (s.xflag ||| o.xflag) &&& m ≠ 0 ↔ s.xflag &&& m ≠ 0 ∨ o.xflag &&& m ≠ 0 := by
      rw [BitVec.and_or_distrib_right, ne_eq, ← not_and_or]
      exact not_congr BitVec.or_eq_zero_iff
    rw [List.foldl_cons, ih, Words.apply, hor, List.exists_mem_cons_iff, or_assoc]

/-- `noauto` stays set. -/
theorem wordsBy_noauto (es : List Text) (type : Text) :
    (wordsBy lookup es (startWords type)).xflag &&& XFLAG_NOAUTO ≠ 0 ↔
      ∃ e ∈ es, saysNoauto e = true := by
  have hstart : (startWords type).xflag = 0 := by
    unfold startWords
    split <;> rfl
  rw [wordsBy, foldl_apply_xflag, hstart]
  simp only [saysNoauto, Option.any_eq_true, List.mem_filterMap, decide_eq_true_eq]
  constructor
  · rintro (h | ⟨o, ⟨e, he, ho⟩, hflag⟩)
    · exact absurd (BitVec.zero_and) h
    · exact ⟨e, he, o, ho, hflag⟩
  · rintro ⟨e, he, o, ho, hflag⟩
    exact Or.inr ⟨o, ⟨e, he, ho⟩, hflag⟩

/-! ## The requests of a line -/

/-- An entry asks for what its fields say unless it is passed. -/
theorem requestsOf_entry {malloc : Nat → List Char} {opt : Options} {line src dst type options : Text}
    (h : readFields (cstring line) = .entry src dst type options) :
    (Passed opt dst type (elements (field options)) → requestsOf malloc opt line = []) ∧
    (¬ Passed opt dst type (elements (field options)) → requestsOf malloc opt line =
      [transformOptionList malloc (fieldsInfo src dst type (field options))]) := by
  have hwords : decide ((transformOptionList malloc
      (fieldsInfo src dst type (field options))).words.xflag &&& XFLAG_NOAUTO ≠ 0) = true ↔
        ∃ e ∈ elements (field options), saysNoauto e = true := by
    rw [decide_eq_true_iff, transformOptionList_words]
    exact wordsBy_noauto _ _
  have hdst : (transformOptionList malloc (fieldsInfo src dst type (field options))).dst = dst :=
    rfl
  unfold requestsOf parseAlone Passed
  rw [parseFstabLine_eq, h]
  simp only [parseFields]
  generalize transformOptionList malloc (fieldsInfo src dst type (field options)) = info at *
  subst hdst
  rw [← hwords]
  generalize decide (info.words.xflag &&& XFLAG_NOAUTO ≠ 0) = noauto
  generalize "swap".toList = swap
  by_cases hswap : type = swap
  · simp [hswap]
  · cases htrigger : opt.trigger_automount <;> cases hexcl : opt.excludes info.dst <;>
      cases noauto <;> simp [hswap, hexcl]

theorem requestsOf_of_comment {malloc : Nat → List Char} {opt : Options} {line : Text}
    (h : readFields (cstring line) = .comment) : requestsOf malloc opt line = [] := by
  unfold requestsOf parseAlone
  rw [parseFstabLine_eq, h]

theorem parseAlone_fail_iff {malloc : Nat → List Char} {opt : Options} {line : Text} :
    parseAlone malloc opt line = .fail ↔ readFields (cstring line) = .incomplete := by
  unfold parseAlone
  rw [parseFstabLine_eq]
  cases readFields (cstring line) with
  | comment => simp
  | incomplete => simp
  | entry src dst type options =>
    simp only [parseFields, reduceCtorEq, iff_false]
    split
    · simp
    · split <;> simp

/-- A line is accepted by its fields alone. -/
theorem accepted_iff {opt : Options} {line : Text} :
    Accepted opt line ↔ readFields (cstring line) ≠ .incomplete :=
  ⟨fun h hread => h zeros (parseAlone_fail_iff.2 hread),
    fun h _ hfail => h (parseAlone_fail_iff.1 hfail)⟩

/-! ### What the program sets -/

theorem seen_dst (mnt : MountInfo) : (seen mnt).dst = mnt.dst := by
  unfold seen
  split <;> rfl

theorem seen_data (mnt : MountInfo) : (seen mnt).data = mnt.data := by
  unfold seen
  split <;> rfl

/-- **What the program sets does not depend on the memory.** -/
theorem seen_transformOptionList {malloc malloc' : Nat → List Char} (hm : Lawful malloc)
    (hm' : Lawful malloc') (info : MountInfo) :
    seen (transformOptionList malloc info) = seen (transformOptionList malloc' info) := by
  have hwords : (transformOptionList malloc info).words = (transformOptionList malloc' info).words := by
    rw [transformOptionList_words, transformOptionList_words]
  by_cases hcopied : copied info.data = []
  · have hset : ∀ malloc, seen (transformOptionList malloc info) =
        { info with words := (transformOptionList malloc info).words, dataParsed := none } :=
      fun _ => if_pos hcopied
    rw [hset, hset, hwords]
  · have hdata : (transformOptionList malloc info).dataParsed =
        (transformOptionList malloc' info).dataParsed := by
      by_cases hfits : (∃ e ∈ elements info.data, Known e) ∨ info.data.getLast? = some ','
      · rw [dataParsed_copied hm ((copyBlock_isSome hm info).2 hfits) hcopied,
          dataParsed_copied hm' ((copyBlock_isSome hm' info).2 hfits) hcopied]
      · have hnone : ∀ malloc, Lawful malloc → (transformOptionList malloc info).dataParsed = none := by
          intro malloc hm
          have hover : copyBlock malloc info = none := by
            rw [← Option.not_isSome_iff_eq_none, copyBlock_isSome hm]
            exact hfits
          rw [copyBlock_eq] at hover
          rw [transformOptionList_block, ← copied, hover]
          rfl
        rw [hnone malloc hm, hnone malloc' hm']
    have hset : ∀ malloc, seen (transformOptionList malloc info) =
        { info with
          words := (transformOptionList malloc info).words
          dataParsed := (transformOptionList malloc info).dataParsed } :=
      fun _ => if_neg hcopied
    rw [hset, hset, hwords, hdata]

/-- A line asks for the same whatever its blocks hold. -/
theorem requestsOf_seen {malloc : Nat → List Char} (hm : Lawful malloc) (opt : Options)
    (line : Text) : (requestsOf malloc opt line).map seen = asked opt line := by
  unfold asked
  cases hread : readFields (cstring line) with
  | comment => rw [requestsOf_of_comment hread, requestsOf_of_comment hread]
  | incomplete =>
    unfold requestsOf
    rw [parseAlone_fail_iff.2 hread, parseAlone_fail_iff.2 hread]
  | entry src dst type options =>
    obtain ⟨hpassed, hasked⟩ := @requestsOf_entry malloc opt _ _ _ _ _ hread
    obtain ⟨hpassed', hasked'⟩ := @requestsOf_entry zeros opt _ _ _ _ _ hread
    by_cases hp : Passed opt dst type (elements (field options))
    · rw [hpassed hp, hpassed' hp]
    · rw [hasked hp, hasked' hp, List.map_singleton, List.map_singleton,
        seen_transformOptionList hm lawful_zeros]

theorem requestsFrom_seen {mallocs : Nat → Nat → List Char} (hm : ∀ k, Lawful (mallocs k))
    (opt : Options) : ∀ (ls : List Text) (line_nr : Nat),
      (requestsFrom mallocs opt line_nr ls).map seen = ls.flatMap (asked opt)
  | [], _ => rfl
  | l :: ls, line_nr => by
    rw [requestsFrom, List.map_append, requestsOf_seen (hm line_nr), requestsFrom_seen hm opt ls,
      List.flatMap_cons]

theorem asked_of_comment {opt : Options} {line : Text} (h : readFields (cstring line) = .comment) :
    asked opt line = [] := by
  rw [asked, requestsOf_of_comment h, List.map_nil]

theorem asked_entry {opt : Options} {line src dst type options : Text}
    (h : readFields (cstring line) = .entry src dst type options) :
    (Passed opt dst type (elements (field options)) → asked opt line = []) ∧
    (¬ Passed opt dst type (elements (field options)) → asked opt line =
      [seen (transformOptionList zeros (fieldsInfo src dst type (field options)))]) := by
  obtain ⟨hpassed, hasked⟩ := @requestsOf_entry zeros opt _ _ _ _ _ h
  unfold asked
  refine ⟨fun hp => ?_, fun hp => ?_⟩
  · rw [hpassed hp, List.map_nil]
  · rw [hasked hp, List.map_singleton]

/-- **A line asks for nothing** exactly when it is silent. -/
theorem asked_eq_nil {opt : Options} {line : Text} (h : Accepted opt line) :
    asked opt line = [] ↔ Silent opt line := by
  rw [accepted_iff] at h
  unfold Silent
  cases hread : readFields (cstring line) with
  | comment => simp [asked_of_comment hread]
  | incomplete => exact absurd hread h
  | entry src dst type options =>
    obtain ⟨hpassed, hasked⟩ := @asked_entry opt _ _ _ _ _ hread
    constructor
    · intro hnil
      by_contra hnot
      rw [hasked hnot] at hnil
      cases hnil
    · exact hpassed

theorem cstring_of_not_mem {buf : Text} (h : '\x00' ∉ buf) : cstring buf = buf := by
  unfold cstring
  rw [List.takeWhile_eq_self_iff]
  intro c hc
  have hne : c ≠ '\x00' := fun heq => h (heq ▸ hc)
  simpa using hne

theorem cstring_append {buf : Text} (h : '\x00' ∉ buf) (rest : Text) :
    cstring (buf ++ '\x00' :: rest) = buf := by
  unfold cstring
  rw [List.takeWhile_append_of_pos]
  · simp
  · intro c hc
    have hne : c ≠ '\x00' := fun heq => h (heq ▸ hc)
    simpa using hne

/-- Without its last option an entry is passed as well with all of them. -/
theorem Passed.mono {opt : Options} {dst type : Text} {es es' : List Text} (hsub : es ⊆ es')
    (h : Passed opt dst type es) : Passed opt dst type es' := by
  rcases h with h | h | ⟨ht, e, he, hno⟩
  · exact Or.inl h
  · exact Or.inr (Or.inl h)
  · exact Or.inr (Or.inr ⟨ht, e, hsub he, hno⟩)

/-- An option with a `#` is never `noauto`. -/
theorem passed_hash {opt : Options} {dst type e : Text} {es : List Text} :
    Passed opt dst type (es ++ [e ++ ['#']]) ↔ Passed opt dst type es := by
  constructor
  · rintro (h | h | ⟨ht, e', he', hno⟩)
    · exact Or.inl h
    · exact Or.inr (Or.inl h)
    · rcases List.mem_append.1 he' with he' | he'
      · exact Or.inr (Or.inr ⟨ht, e', he', hno⟩)
      · rw [List.mem_singleton.1 he', saysNoauto, lookup_hash] at hno
        cases hno
  · exact Passed.mono (List.subset_append_left _ _)

/-- **The `#` behind a line changes nothing** exactly when the line is ended. -/
theorem asked_hash {opt : Options} {line : Text} (hnul : '\x00' ∉ line) (h : Accepted opt line) :
    Accepted opt (line ++ ['#']) ∧
      (asked opt (line ++ ['#']) = asked opt line ↔ Ended opt line) := by
  have hnul' : '\x00' ∉ line ++ ['#'] := by simpa using hnul
  rw [accepted_iff, cstring_of_not_mem hnul] at h
  have hhash := readFields_hash line h
  rw [accepted_iff, cstring_of_not_mem hnul', hhash]
  unfold Ended
  cases hread : readFields line with
  | comment =>
    rw [hread] at hhash
    have hnone : asked opt line = [] :=
      asked_of_comment (by rw [cstring_of_not_mem hnul, hread])
    have hnone' : asked opt (line ++ ['#']) = [] :=
      asked_of_comment (by rw [cstring_of_not_mem hnul', hhash])
    simp [hnone, hnone']
  | incomplete => exact absurd hread h
  | entry src dst type options =>
    rw [hread] at hhash
    refine ⟨by simp, ?_⟩
    obtain ⟨hpassed, hasked⟩ := @asked_entry opt _ _ _ _ _
      (by rw [cstring_of_not_mem hnul, hread])
    obtain ⟨hpassed', hasked'⟩ := @asked_entry opt _ _ _ _ _
      (by rw [cstring_of_not_mem hnul', hhash])
    show _ ↔ (∃ c ∈ options, isspace c = true) ∨
      Passed opt dst type ((field options).splitOn ',').dropLast
    by_cases hspace : ∃ c ∈ options, isspace c = true
    · rw [field_hash_of_space hspace] at hpassed' hasked'
      have hsame : asked opt (line ++ ['#']) = asked opt line := by
        by_cases hp : Passed opt dst type (elements (field options))
        · rw [hpassed hp, hpassed' hp]
        · rw [hasked hp, hasked' hp]
      exact iff_of_true hsame (Or.inl hspace)
    · rw [field_hash hspace] at hpassed' hasked'
      obtain ⟨init, last, hlast, hsplit⟩ := splitOn_last ',' (field options)
      have hinit : ((field options).splitOn ',').dropLast = init := by
        have hnil := splitOn_concat hsplit hlast (List.not_mem_nil (a := ','))
        rw [List.append_nil, List.append_nil] at hnil
        rw [hnil, List.dropLast_concat]
      rw [elements_hash hsplit hlast, passed_hash, ← hinit] at hpassed' hasked'
      rw [or_iff_right hspace]
      constructor
      · intro hsame
        by_contra hnot
        rw [hasked' hnot] at hsame
        by_cases hp : Passed opt dst type (elements (field options))
        · rw [hpassed hp] at hsame
          cases hsame
        · rw [hasked hp] at hsame
          have hdata := congrArg MountInfo.data (List.singleton_inj.1 hsame)
          rw [seen_data, seen_data] at hdata
          have hlen : (field options ++ ['#']).length = (field options).length :=
            congrArg List.length hdata
          simp at hlen
      · intro hp
        rw [hpassed' hp, hpassed (hp.mono (subset_elements _))]

/-! ## The requests of a content -/

/-- The loop makes the requests of the lines it reads. -/
theorem mountLines_done {mallocs : Nat → Nat → List Char} {opt : Options} :
    ∀ {ls : List Text} (line_nr : Nat) (requests : List MountInfo),
      (∀ l ∈ ls, '\x00' ∉ l) → (∀ l ∈ ls, Accepted opt l) →
      mountLines mallocs opt line_nr ls requests =
        .done (requests ++ requestsFrom mallocs opt line_nr ls)
  | [], _, _, _, _ => by simp [mountLines, requestsFrom]
  | l :: ls, line_nr, requests, hnul, hfail => by
    have ih := fun requests => @mountLines_done mallocs opt ls (line_nr + 1) requests
      (fun x hx => hnul x (List.mem_cons_of_mem _ hx))
      (fun x hx => hfail x (List.mem_cons_of_mem _ hx))
    have hl := hfail l List.mem_cons_self (mallocs line_nr)
    rw [requestsFrom]
    unfold mountLines requestsOf
    unfold parseAlone at hl ⊢
    rw [cstring_of_not_mem (hnul l List.mem_cons_self)] at hl ⊢
    cases hread : parseFstabLine (mallocs line_nr) l (!opt.trigger_automount) with
    | fail => exact absurd hread hl
    | ignore =>
      simp only
      rw [ih]
      rfl
    | doit mnt =>
      simp only
      rw [ih]
      split
      · rfl
      · rw [List.append_assoc]

/-- What is read up to the end of a string. -/
theorem mountFstab_done {mallocs : Nat → Nat → List Char} {opt : Options} {content : Text}
    {ls : List Text} (hls : lines (cstring (content ++ ['#'])) = ls)
    (hfail : ∀ l ∈ ls, Accepted opt l) :
    mountFstab mallocs opt content = .done (requestsFrom mallocs opt 1 ls) := by
  have hnul : ∀ l ∈ ls, '\x00' ∉ l := by
    subst hls
    intro l hl hmem
    have hmem' := subset_of_mem_splitOn _ _ l hl hmem
    have := List.mem_takeWhile_imp hmem'
    simp at this
  unfold mountFstab
  rw [hls, mountLines_done _ _ hnul hfail, List.nil_append]

/-- What is asked for up to the end of a string. -/
theorem mountFstab_seen {mallocs : Nat → Nat → List Char} (hm : ∀ k, Lawful (mallocs k))
    {opt : Options} {content : Text} {ls : List Text}
    (hls : lines (cstring (content ++ ['#'])) = ls) (hfail : ∀ l ∈ ls, Accepted opt l) :
    (mountFstab mallocs opt content).seen = .done (ls.flatMap (asked opt)) := by
  rw [mountFstab_done hls hfail, Result.seen, requestsFrom_seen hm]

theorem done_append_inj {p q r : List MountInfo} :
    Result.done (p ++ q) = Result.done (p ++ r) ↔ q = r := by
  simp

theorem readFields_hash_only : readFields (cstring ['#']) = .comment := rfl

theorem accepted_hash_only (opt : Options) : Accepted opt ['#'] := by
  rw [accepted_iff, readFields_hash_only]
  simp

/-! ### Without a NUL -/

/-- The lines that are read when there is no NUL: the `#` stands behind the last one. -/
theorem lines_hash {content : Text} (hnul : '\x00' ∉ content) :
    ∃ init last, lines content = init ++ [last] ∧
      lines (cstring (content ++ ['#'])) = init ++ [last ++ ['#']] ∧
      lines (cstring (content ++ ['\n'] ++ ['#'])) = init ++ [last, ['#']] := by
  obtain ⟨init, last, hlast, hsplit⟩ := splitOn_last '\n' content
  refine ⟨init, last, ?_, ?_, ?_⟩
  · have := splitOn_concat hsplit hlast (List.not_mem_nil (a := '\n'))
    rwa [List.append_nil, List.append_nil] at this
  · rw [cstring_of_not_mem (by simpa using hnul)]
    exact splitOn_concat hsplit hlast (by decide)
  · rw [cstring_of_not_mem (by simpa using hnul), lines, List.append_assoc, hsplit]
    show init ++ (last ++ '\n' :: ['#']).splitOn '\n' = _
    rw [List.splitOn_append_cons_self, List.splitOn_eq_singleton hlast]
    rfl

/-- An ended last line is accepted with the `#`, and so are the others. -/
theorem accepted_hash {opt : Options} {content : Text} {init : List Text} {last : Text}
    (hnul : '\x00' ∉ content) (hlines : lines content = init ++ [last])
    (hfail : ∀ line ∈ lines content, Accepted opt line) :
    '\x00' ∉ last ∧ ∀ l ∈ init ++ [last ++ ['#']], Accepted opt l := by
  have hnul' : '\x00' ∉ last := fun hmem => hnul (subset_of_mem_splitOn '\n' content last
    (by rw [show content.splitOn '\n' = init ++ [last] from hlines]; simp) hmem)
  rw [hlines] at hfail
  refine ⟨hnul', fun l hl => ?_⟩
  rcases List.mem_append.1 hl with hl | hl
  · exact hfail l (List.mem_append_left _ hl)
  · rw [List.mem_singleton.1 hl]
    exact (asked_hash hnul' (hfail last (by simp))).1

variable {mallocs mallocs' : Nat → Nat → List Char}

/-- Without a NUL the last line is read with the `#`. -/
theorem mountFstab_of_not_mem (hm : ∀ k, Lawful (mallocs k)) (hm' : ∀ k, Lawful (mallocs' k))
    {opt : Options} {content : Text} (hnul : '\x00' ∉ content)
    (hfail : ∀ line ∈ lines content, Accepted opt line) :
    ((mountFstab mallocs opt content).seen = .done ((lines content).flatMap (asked opt)) ∧
      (mountFstab mallocs opt content).seen = (mountFstab mallocs' opt (content ++ ['\n'])).seen) ↔
      ∀ line ∈ (lines content).getLast?, Ended opt line := by
  obtain ⟨init, last, hlines, hhash, hnewline⟩ := lines_hash hnul
  obtain ⟨hnul', haccepted⟩ := accepted_hash hnul hlines hfail
  rw [hlines] at hfail ⊢
  obtain ⟨-, hended⟩ := asked_hash hnul' (hfail last (by simp))
  have hread := mountFstab_seen hm hhash haccepted
  have hread' := mountFstab_seen hm' hnewline (by
    intro l hl
    rcases List.mem_append.1 hl with hl | hl
    · exact hfail l (List.mem_append_left _ hl)
    · rcases List.mem_cons.1 hl with rfl | hl
      · exact hfail l (by simp)
      · rw [List.mem_singleton.1 hl]
        exact accepted_hash_only opt)
  have htwo : [last, ['#']].flatMap (asked opt) = asked opt last := by
    simp [asked_of_comment readFields_hash_only]
  rw [hread, hread', List.flatMap_append, List.flatMap_append, List.flatMap_append, htwo,
    List.flatMap_singleton, List.flatMap_singleton, done_append_inj, and_self, hended]
  simp

/-! ### With a NUL -/

/-- With a NUL the lines behind it are not read. -/
theorem mountFstab_of_mem (hm : ∀ k, Lawful (mallocs k)) (hm' : ∀ k, Lawful (mallocs' k))
    {opt : Options} {content : Text} (hnul : '\x00' ∈ content)
    (hfail : ∀ line ∈ lines content, Accepted opt line) :
    ((mountFstab mallocs opt content).seen = .done ((lines content).flatMap (asked opt)) ∧
      (mountFstab mallocs opt content).seen = (mountFstab mallocs' opt (content ++ ['\n'])).seen) ↔
      ∀ line ∈ ((lines content).dropWhile fun l => '\x00' ∉ l).tail, Silent opt line := by
  obtain ⟨pre, post, rfl, hpre⟩ := List.eq_append_cons_of_mem hnul
  obtain ⟨init, last, hlast, hsplit⟩ := splitOn_last '\n' pre
  have hlines : lines pre = init ++ [last] := by
    have := splitOn_concat hsplit hlast (List.not_mem_nil (a := '\n'))
    rwa [List.append_nil, List.append_nil] at this
  have hpieces : ∀ l ∈ init ++ [last], '\x00' ∉ l := fun l hl hmem =>
    hpre (subset_of_mem_splitOn '\n' pre l (hlines.symm ▸ hl : l ∈ lines pre) hmem)
  obtain ⟨q, later, hlater⟩ : ∃ q later, lines (pre ++ '\x00' :: post) =
      init ++ (last ++ '\x00' :: q) :: later := by
    rw [lines, hsplit]
    rcases strchr_cases post '\n' with hpost | ⟨q, r, hq, rfl⟩
    · refine ⟨post, [], ?_⟩
      rw [List.splitOn_eq_singleton (by simp [hlast, hpost])]
    · refine ⟨q, r.splitOn '\n', ?_⟩
      rw [← List.cons_append, ← List.append_assoc, List.splitOn_append_cons_self,
        List.splitOn_eq_singleton (by simp [hlast, hq])]
      rfl
  have hcut : cstring (last ++ '\x00' :: q) = cstring last := by
    rw [cstring_append (hpieces last (by simp)), cstring_of_not_mem (hpieces last (by simp))]
  have hcut' : asked opt (last ++ '\x00' :: q) = asked opt last := by
    simp only [asked, requestsOf, parseAlone, hcut]
  have hdrop : (((lines (pre ++ '\x00' :: post)).dropWhile fun l => '\x00' ∉ l).tail) = later := by
    rw [hlater, List.dropWhile_append_of_pos]
    · simp
    · intro l hl
      simpa using hpieces l (List.mem_append_left _ hl)
  have hread : ∀ mallocs : Nat → Nat → List Char, (∀ k, Lawful (mallocs k)) → ∀ rest,
      (mountFstab mallocs opt (pre ++ '\x00' :: post ++ rest)).seen =
        .done (init.flatMap (asked opt) ++ asked opt last) := by
    intro mallocs hm rest
    have hcstring : lines (cstring (pre ++ '\x00' :: post ++ rest ++ ['#'])) = init ++ [last] := by
      rw [List.append_assoc, List.append_assoc, List.cons_append, cstring_append hpre, hlines]
    rw [mountFstab_seen hm hcstring, List.flatMap_append, List.flatMap_singleton]
    intro l hl
    rcases List.mem_append.1 hl with hl | hl
    · exact hfail l (hlater ▸ List.mem_append_left _ hl)
    · rw [List.mem_singleton.1 hl, accepted_iff, ← hcut]
      exact accepted_iff.1 (hfail _ (hlater ▸ by simp))
  have hread' := hread mallocs hm []
  rw [List.append_nil] at hread'
  rw [hdrop, hread', hread mallocs' hm', hlater, List.flatMap_append, List.flatMap_cons, hcut',
    and_iff_left rfl, done_append_inj, List.self_eq_append_right, List.flatMap_eq_nil_iff]
  refine forall₂_congr fun l hl => asked_eq_nil (hfail l ?_)
  rw [hlater]
  exact List.mem_append_right _ (List.mem_cons_of_mem _ hl)

/-- **Reading an fstab line by line**: the requests are those of the lines parsed alone, and the
newline at the end makes no difference, exactly when the content is line-local.  The run over the
file, the one over the file with the newline and the lines parsed alone get blocks of their own;
`data_parsed` is compared where the program sets it. -/
theorem mountFstab_lineLocal {own : Nat → Nat → List Char} (hm : ∀ k, Lawful (mallocs k))
    (hm' : ∀ k, Lawful (mallocs' k)) (hown : ∀ k, Lawful (own k)) (opt : Options) (content : Text)
    (hfail : ∀ line ∈ lines content, Accepted opt line) :
    ((mountFstab mallocs opt content).seen =
        .done ((requestsFrom own opt 1 (lines content)).map seen) ∧
      (mountFstab mallocs opt content).seen = (mountFstab mallocs' opt (content ++ ['\n'])).seen) ↔
      LineLocal opt content := by
  rw [requestsFrom_seen hown]
  unfold LineLocal
  split
  · exact mountFstab_of_mem hm hm' ‹_› hfail
  · exact mountFstab_of_not_mem hm hm' ‹_› hfail

def allFS : Options := ⟨.rfsYES, false⟩

/-- The blocks hold zeros for the file and ones for the line alone; `noexec` copies nothing. -/
theorem mountFstab_lineLocal_newline :
    (mountFstab (fun _ => zeros) allFS "a /b c noexec\n".toList).seen =
        .done ((requestsFrom (fun _ => ones) allFS 1 (lines "a /b c noexec\n".toList)).map seen) ∧
      (mountFstab (fun _ => zeros) allFS "a /b c noexec\n".toList).seen =
        (mountFstab (fun _ => ones) allFS ("a /b c noexec\n".toList ++ ['\n'])).seen := by
  refine (mountFstab_lineLocal (fun _ => lawful_zeros) (fun _ => lawful_ones)
    (fun _ => lawful_ones) allFS "a /b c noexec\n".toList ?_).2 ?_
  · intro line hline
    rw [accepted_iff]
    revert line
    decide
  · intro line hline
    have hempty : line = [] := by
      have hlast : (lines "a /b c noexec\n".toList).getLast? = some [] := by decide
      rw [hlast] at hline
      exact (Option.some.inj hline).symm
    subst hempty
    exact trivial

/-- Without a newline the last option becomes `noauto#`, and the file system is mounted. -/
theorem mountFstab_noauto :
    (∀ line ∈ lines "a /b c noauto".toList, Accepted allFS line) ∧
      (requestsFrom (fun _ => zeros) allFS 1 (lines "a /b c noauto".toList)).map seen = [] ∧
      (mountFstab (fun _ => zeros) allFS "a /b c noauto".toList).seen =
        .done [seen (transformOptionList zeros
          (fieldsInfo ['a'] ['/', 'b'] ['c'] "noauto#".toList))] := by
  have hfail : ∀ line ∈ lines "a /b c noauto".toList, Accepted allFS line := by
    intro line hline
    rw [accepted_iff]
    revert line
    decide
  have hread : readFields (cstring "a /b c noauto".toList) =
      .entry ['a'] ['/', 'b'] ['c'] "noauto".toList := by decide
  have hread' : readFields (cstring "a /b c noauto#".toList) =
      .entry ['a'] ['/', 'b'] ['c'] "noauto#".toList := by decide
  have hlines : lines "a /b c noauto".toList = ["a /b c noauto".toList] := by decide
  have hlines' : lines (cstring ("a /b c noauto".toList ++ ['#'])) =
      ["a /b c noauto#".toList] := by decide
  have hfail' : Accepted allFS "a /b c noauto#".toList := by
    rw [accepted_iff, hread']
    simp
  refine ⟨hfail, ?_, ?_⟩
  · rw [requestsFrom_seen fun _ => lawful_zeros, hlines, List.flatMap_singleton]
    refine (asked_entry hread).1 (Or.inr (Or.inr ⟨rfl, "noauto".toList, ?_⟩))
    decide
  · rw [mountFstab_seen (fun _ => lawful_zeros) hlines' (by simpa using hfail'),
      List.flatMap_singleton, (asked_entry hread').2]
    · rfl
    · rintro (h | h | ⟨-, e, he, hno⟩)
      · exact absurd h (by decide)
      · exact absurd h (by decide)
      · revert e
        decide

end FstabLines
