import UtilVserver.Lib.DecimalText
import UtilVserver.Lib.Loops

/-!
# Entries of a process's status (`lib/getprocentry-legacy.c`)

A status file is read in one piece into a buffer; when it does not fit, the size that is advertised
for the buffer grows, and the caller tries again.

* `StatusFile`, `Bufsize` — what can be read, and the size that is advertised.
* `utilvserver_getProcEntry` — the place behind a key in the buffer.
* `getInitPid` — its caller `getInitPid_internal` of `src/vserver-info.c`, one pass of the loop.

Principal results: `getProcEntry_exact` (for which calls the result is what it should be, and that
trying again comes to an end) and `getInitPid_exact` (for which files the loop is left).
-/

set_option autoImplicit false

namespace ProcEntry

open CString Loops

/-- `errno`; the calls on a status file fail with others than the first two. -/
inductive Errno where
  | EAGAIN
  | EBADR
  | file (code : Nat)
  deriving DecidableEq

inductive StatusFile where
  | openFails (code : Nat)
  | readFails (code : Nat)
  | content (c : Text)

/-- `proc_bufsize`, which is only ever made larger. -/
structure Bufsize where
  size : Nat
  large : 4097 ≤ size

/-- The value at the start. -/
def Bufsize.initial : Bufsize := ⟨4097, Nat.le_refl 4097⟩

/-- `proc_bufsize = bufsize * 2 - 1`, when that is what `proc_bufsize` was. -/
def Bufsize.grow (b : Bufsize) : Bufsize := ⟨b.size * 2 - 1, by have := b.large; omega⟩

/-- A place in the buffer, no place, or one that is in no buffer. -/
inductive Pointer where
  | null
  | place (pos : Nat)
  | wild
  deriving DecidableEq

/-- What is left behind by a call; the string in `buf` matters behind a success only. -/
structure Returned where
  res : Pointer
  errno : Errno
  proc_bufsize : Bufsize
  buf : Text

/-- The pids that are looked at. -/
def InRange (pid : Int) : Prop := 0 ≤ pid ∧ pid ≤ 99999

instance (pid : Int) : Decidable (InRange pid) := inferInstanceAs (Decidable (_ ∧ _))

/-- `utilvserver_getProcEntry`; the files are those of the pids, that of 0 being the own one. -/
def utilvserver_getProcEntry (files : Int → StatusFile) (pid : Int) (str : Option CStr)
    (bufsize : Nat) (proc_bufsize : Bufsize) (errno : Errno) : Returned :=
  if pid < 0 ∨ pid > 99999 then ⟨.null, .EBADR, proc_bufsize, []⟩
  else
    match files pid with
    | .openFails code => ⟨.null, .file code, proc_bufsize, []⟩
    -- `len` is `(size_t)-1`
    | .readFails code => ⟨.null, .file code, proc_bufsize, []⟩
    | .content c =>
      if c.length < bufsize then
        let buf := cstr c
        let res : Pointer :=
          match str with
          | none => .place 0
          | some str =>
            match strstr buf str.text with
            | none => .wild
            | some p => .place (buf.length - p.length + str.text.length)
        ⟨res, errno, proc_bufsize, buf⟩
      else
        ⟨.null, .EAGAIN, if proc_bufsize.size = bufsize then proc_bufsize.grow else proc_bufsize, []⟩

/-! ## What a call should do -/

/-- What is looked for; without a key, the start of the buffer. -/
def keyOf (str : Option CStr) : Text := (str.map CStr.text).getD []

/-- The first place where a key occurs. -/
structure IsFirst (c key : Text) (i : Nat) : Prop where
  occurs : key <+: c.drop i
  inside : i ≤ c.length
  first : ∀ j < i, ¬ key <+: c.drop j

/-- The result of a call on a file. -/
structure Meets (f : StatusFile) (str : Option CStr) (bufsize : Nat) (proc_bufsize : Bufsize)
    (r : Returned) : Prop where
  found : ∀ pos, r.res = .place pos →
    ∃ c i, f = .content c ∧ IsFirst c (keyOf str) i ∧ pos = i + (keyOf str).length
  inBuffer : r.res ≠ .wild
  again : r.res = .null → r.errno = .EAGAIN →
    (∃ c, f = .content c ∧ bufsize ≤ c.length) ∧ proc_bufsize.size < r.proc_bufsize.size
  otherwise : r.res = .null → r.errno ≠ .EAGAIN → ∀ c, f = .content c → ¬ keyOf str <:+: c

/-- The file can not be read; or it fits and the string in it has the key, or it does not fit and the
buffer has the advertised size; or the pid is none of those that are looked at, and there is no key
to be found. -/
def Delivers (f : StatusFile) (pid : Int) (str : Option CStr) (bufsize : Nat)
    (proc_bufsize : Bufsize) : Prop :=
  ∀ c, f = .content c →
    if InRange pid then
      if c.length < bufsize then keyOf str <:+: cstr c else bufsize = proc_bufsize.size
    else ¬ keyOf str <:+: c

/-- A caller that tries again with the advertised size. -/
def retry (files : Int → StatusFile) (pid : Int) (str : Option CStr) :
    Bufsize × Errno → Pass (Bufsize × Errno) Returned := fun s =>
  let r := utilvserver_getProcEntry files pid str s.1.size s.1 s.2
  if r.res = .null ∧ r.errno = .EAGAIN then .again (r.proc_bufsize, r.errno) else .leave r

/-! ## The first occurrence -/

theorem strstr_first {s key p : Text} (h : strstr s key = some p) :
    ∃ i, IsFirst s key i ∧ p = s.drop i := by
  induction s with
  | nil =>
    obtain ⟨hkey, hp⟩ := strstr_some h
    obtain rfl := List.suffix_nil.1 hp
    exact ⟨0, ⟨hkey, Nat.le_refl 0, fun j hj => absurd hj (Nat.not_lt_zero j)⟩, rfl⟩
  | cons c s ih =>
    rw [strstr] at h
    split at h
    · rename_i hkey
      cases h
      exact ⟨0, ⟨List.isPrefixOf_iff_prefix.1 hkey, Nat.zero_le _,
        fun j hj => absurd hj (Nat.not_lt_zero j)⟩, rfl⟩
    · rename_i hkey
      obtain ⟨i, ⟨hoccurs, hinside, hfirst⟩, hp⟩ := ih h
      refine ⟨i + 1, ⟨hoccurs, Nat.succ_le_succ hinside, fun j hj => ?_⟩, hp⟩
      cases j with
      | zero => exact fun hp => hkey (List.isPrefixOf_iff_prefix.2 hp)
      | succ j => exact hfirst j (Nat.lt_of_succ_lt_succ hj)

/-- The place is told from the length of what is behind it. -/
theorem IsFirst.place {s key : Text} {i : Nat} (h : IsFirst s key i) :
    s.length - (s.drop i).length = i := by
  have := h.inside
  rw [List.length_drop]
  omega

/-- The first occurrence in the string is that in the whole content. -/
theorem IsFirst.of_cstr {c key : Text} {i : Nat} (h : IsFirst (cstr c) key i) : IsFirst c key i := by
  obtain ⟨r, hc, -⟩ := cstr_append c
  have hdrop : ∀ j ≤ (cstr c).length, c.drop j = (cstr c).drop j ++ r := by
    intro j hj
    exact (congrArg (List.drop j) hc).trans (List.drop_append_of_le_length hj)
  have hlen : (cstr c).length ≤ c.length := (List.takeWhile_prefix _).length_le
  refine ⟨?_, h.inside.trans hlen, fun j hj hkey => ?_⟩
  · rw [hdrop i h.inside]
    exact h.occurs.trans (List.prefix_append _ r)
  · rw [hdrop j (by have := h.inside; omega)] at hkey
    refine h.first j hj (List.prefix_of_prefix_length_le hkey (List.prefix_append _ r) ?_)
    have hi := h.occurs.length_le
    simp only [List.length_drop] at hi ⊢
    omega

/-! ## One call -/

variable {files : Int → StatusFile} {pid : Int} {str : Option CStr} {bufsize : Nat}
  {proc_bufsize : Bufsize} {errno : Errno} {c : Text}

theorem getProcEntry_outside (h : ¬ InRange pid) :
    utilvserver_getProcEntry files pid str bufsize proc_bufsize errno =
      ⟨.null, .EBADR, proc_bufsize, []⟩ := by
  unfold InRange at h
  exact if_pos (by omega)

theorem getProcEntry_inside (h : InRange pid) :
    ¬ (pid < 0 ∨ pid > 99999) := by
  unfold InRange at h
  omega

theorem getProcEntry_unreadable (h : InRange pid) (hf : ∀ c, files pid ≠ .content c)
    (str : Option CStr) (bufsize : Nat) (proc_bufsize : Bufsize) (errno : Errno) :
    ∃ code, utilvserver_getProcEntry files pid str bufsize proc_bufsize errno =
      ⟨.null, .file code, proc_bufsize, []⟩ := by
  unfold utilvserver_getProcEntry
  rw [if_neg (getProcEntry_inside h)]
  cases hfile : files pid with
  | openFails code => exact ⟨code, rfl⟩
  | readFails code => exact ⟨code, rfl⟩
  | content c => exact absurd hfile (hf c)

theorem getProcEntry_again (h : InRange pid) (hf : files pid = .content c)
    (hlen : bufsize ≤ c.length) :
    utilvserver_getProcEntry files pid str bufsize proc_bufsize errno =
      ⟨.null, .EAGAIN, if proc_bufsize.size = bufsize then proc_bufsize.grow else proc_bufsize,
        []⟩ := by
  unfold utilvserver_getProcEntry
  rw [if_neg (getProcEntry_inside h), hf]
  exact if_neg (Nat.not_lt.2 hlen)

/-- What is found of a content that fits. -/
def search (c : Text) : Option CStr → Pointer
  | none => .place 0
  | some str =>
    match strstr (cstr c) str.text with
    | none => .wild
    | some p => .place ((cstr c).length - p.length + str.text.length)

theorem getProcEntry_fits (h : InRange pid) (hf : files pid = .content c)
    (hlen : c.length < bufsize) :
    utilvserver_getProcEntry files pid str bufsize proc_bufsize errno =
      ⟨search c str, errno, proc_bufsize, cstr c⟩ := by
  unfold utilvserver_getProcEntry
  rw [if_neg (getProcEntry_inside h), hf]
  exact if_pos hlen

/-- **The key is found where it occurs first**, and without it the result is no place. -/
theorem search_cases (c : Text) (str : Option CStr) :
    (keyOf str <:+: cstr c ∧ ∃ i, IsFirst c (keyOf str) i ∧
      search c str = .place (i + (keyOf str).length)) ∨
    (¬ keyOf str <:+: cstr c ∧ search c str = .wild) := by
  cases str with
  | none =>
    refine Or.inl ⟨List.nil_infix, 0, ⟨List.nil_prefix, Nat.zero_le _, ?_⟩, rfl⟩
    exact fun j hj => absurd hj (Nat.not_lt_zero j)
  | some key =>
    cases hfound : strstr (cstr c) key.text with
    | none =>
      refine Or.inr ⟨strstr_none_iff.1 hfound, ?_⟩
      rw [search, hfound]
    | some p =>
      obtain ⟨i, hi, rfl⟩ := strstr_first hfound
      refine Or.inl ⟨?_, i, hi.of_cstr, ?_⟩
      · by_contra hno
        exact Option.some_ne_none _ (hfound.symm.trans (strstr_none_iff.2 hno))
      · rw [search, hfound]
        exact congrArg (fun n => Pointer.place (n + key.text.length)) hi.place

theorem Bufsize.lt_grow (b : Bufsize) : b.size < b.grow.size := by
  have := b.large
  show b.size < b.size * 2 - 1
  omega

/-- A null result for another reason than the size. -/
theorem meets_null {f : StatusFile} {e : Errno} {buf : Text} (he : e ≠ .EAGAIN) :
    Meets f str bufsize proc_bufsize ⟨.null, e, proc_bufsize, buf⟩ ↔
      ∀ c, f = .content c → ¬ keyOf str <:+: c := by
  refine ⟨fun h => h.otherwise rfl he, fun h => ⟨fun pos hpos => ?_, fun hwild => ?_, ?_, ?_⟩⟩
  · cases hpos
  · cases hwild
  · exact fun _ hagain => absurd hagain he
  · exact fun _ _ => h

/-- A result other than a null pointer. -/
theorem meets_fits :
    Meets (.content c) str bufsize proc_bufsize ⟨search c str, errno, proc_bufsize, cstr c⟩ ↔
      keyOf str <:+: cstr c := by
  obtain ⟨hkey, i, hi, hres⟩ | ⟨hkey, hres⟩ := search_cases c str
  · rw [hres]
    refine iff_of_true ⟨fun pos hpos => ?_, fun h => ?_, fun h => ?_, fun h => ?_⟩ hkey
    · cases hpos
      exact ⟨c, i, rfl, hi, rfl⟩
    · cases h
    · cases h
    · cases h
  · rw [hres]
    exact iff_of_false (fun h => h.inBuffer rfl) hkey

theorem meets_again (hlen : bufsize ≤ c.length) :
    Meets (.content c) str bufsize proc_bufsize
      ⟨.null, .EAGAIN, if proc_bufsize.size = bufsize then proc_bufsize.grow else proc_bufsize,
        []⟩ ↔ bufsize = proc_bufsize.size := by
  constructor
  · intro h
    have hgrown := (h.again rfl rfl).2
    by_contra hne
    rw [if_neg (Ne.symm hne)] at hgrown
    exact Nat.lt_irrefl _ hgrown
  · intro heq
    rw [if_pos heq.symm]
    refine ⟨fun pos hpos => ?_, fun hwild => ?_, fun _ _ => ?_, fun _ h => absurd rfl h⟩
    · cases hpos
    · cases hwild
    · exact ⟨⟨c, rfl, hlen⟩, proc_bufsize.lt_grow⟩

/-- **Which calls give what they should.** -/
theorem meets_iff : Meets (files pid) str bufsize proc_bufsize
      (utilvserver_getProcEntry files pid str bufsize proc_bufsize errno) ↔
    Delivers (files pid) pid str bufsize proc_bufsize := by
  unfold Delivers
  by_cases hpid : InRange pid
  · simp only [hpid, if_true]
    by_cases hfile : ∃ c, files pid = .content c
    · obtain ⟨c, hc⟩ := hfile
      rw [hc]
      simp only [StatusFile.content.injEq, forall_eq']
      by_cases hlen : c.length < bufsize
      · rw [getProcEntry_fits hpid hc hlen, if_pos hlen]
        exact meets_fits
      · rw [getProcEntry_again hpid hc (Nat.not_lt.1 hlen), if_neg hlen]
        exact meets_again (Nat.not_lt.1 hlen)
    · have hnone : ∀ c, files pid ≠ .content c := fun c hc => hfile ⟨c, hc⟩
      obtain ⟨code, hcall⟩ := getProcEntry_unreadable hpid hnone str bufsize proc_bufsize errno
      have he : Errno.file code ≠ .EAGAIN := fun h => by cases h
      rw [hcall, meets_null he]
      exact iff_of_true (fun c hc => absurd hc (hnone c)) (fun c hc => absurd hc (hnone c))
  · have he : Errno.EBADR ≠ .EAGAIN := by decide
    rw [getProcEntry_outside hpid, meets_null he]
    simp only [hpid, if_false]

/-! ## Trying again -/

theorem retry_again (h : InRange pid) (hf : files pid = .content c) {s : Bufsize × Errno}
    (hlen : s.1.size ≤ c.length) : retry files pid str s = .again (s.1.grow, .EAGAIN) := by
  unfold retry
  rw [getProcEntry_again h hf hlen, if_pos rfl]
  exact if_pos ⟨rfl, rfl⟩

/-- **Trying again comes to an end.** -/
theorem retry_ends (files : Int → StatusFile) (pid : Int) (str : Option CStr) (s : Bufsize × Errno) :
    Ends (retry files pid str) s := by
  by_cases hpid : InRange pid
  · by_cases hfile : ∃ c, files pid = .content c
    · obtain ⟨c, hc⟩ := hfile
      refine ends_of_measure (I := fun _ => True) (fun s => c.length + 1 - s.1.size) ?_ trivial
      intro s s' _ hagain
      by_cases hlen : c.length < s.1.size
      · rw [retry, getProcEntry_fits hpid hc hlen] at hagain
        have hres : search c str ≠ .null := by
          obtain ⟨-, i, -, hres⟩ | ⟨-, hres⟩ := search_cases c str
          · rw [hres]
            exact fun h => by cases h
          · rw [hres]
            exact fun h => by cases h
        rw [if_neg fun h => hres h.1] at hagain
        cases hagain
      · rw [retry_again hpid hc (Nat.not_lt.1 hlen)] at hagain
        cases hagain
        have hgrow := s.1.lt_grow
        exact ⟨trivial, by dsimp only; omega⟩
    · have hnone : ∀ c, files pid ≠ .content c := fun c hc => hfile ⟨c, hc⟩
      obtain ⟨code, hcall⟩ := getProcEntry_unreadable hpid hnone str s.1.size s.1 s.2
      refine ends_of_leave (r := ⟨.null, .file code, s.1, []⟩) ?_
      rw [retry, hcall]
      exact if_neg fun h => by cases h.2
  · refine ends_of_leave (r := ⟨.null, .EBADR, s.1, []⟩) ?_
    rw [retry, getProcEntry_outside hpid]
    exact if_neg fun h => by cases h.2

/-- **The results of the calls, and that trying again comes to an end.** -/
theorem getProcEntry_exact (files : Int → StatusFile) (pid : Int) (str : Option CStr)
    (bufsize : Nat) (proc_bufsize : Bufsize) (errno : Errno) :
    (Meets (files pid) str bufsize proc_bufsize
        (utilvserver_getProcEntry files pid str bufsize proc_bufsize errno) ↔
      Delivers (files pid) pid str bufsize proc_bufsize) ∧
    Ends (retry files pid str) (proc_bufsize, errno) :=
  ⟨meets_iff, retry_ends files pid str (proc_bufsize, errno)⟩

def S_CONTEXT : CStr := ⟨"\ns_context: ".toList, by decide⟩
def INITPID : Text := "\ninitpid: ".toList

/-- A status without a context. -/
theorem getProcEntry_absent :
    ¬ Meets (.content "Name:\tinit\nPid:\t1\n".toList) (some S_CONTEXT) 4097 .initial
      (utilvserver_getProcEntry (fun _ => .content "Name:\tinit\nPid:\t1\n".toList) 1
        (some S_CONTEXT) 4097 .initial (.file 0)) :=
  fun h => h.inBuffer (by decide +kernel)

/-! ## The initpid of a context -/

/-- The result of `getInitPid_internal`, with `*res`; or a place that is in no buffer is read. -/
inductive Answer where
  | returned (ok : Bool) (res : BitVec 32)
  | undefined
  deriving DecidableEq

/-- One pass of the loop of `getInitPid_internal`; `xid_t` is unsigned. -/
def getInitPid (files : Int → StatusFile) (pid : Int) (xid : BitVec 32) :
    Bufsize × Errno → Pass (Bufsize × Errno) Answer := fun s =>
  let r := utilvserver_getProcEntry files pid (some S_CONTEXT) s.1.size s.1 s.2
  match r.res with
  | .null =>
    if r.errno = .EAGAIN then .again (r.proc_bufsize, r.errno) else .leave (.returned false (-1))
  | .wild => .leave .undefined
  | .place pos =>
    if atoi (r.buf.drop pos) ≠ xid then .leave (.returned false (-1))
    else
      let res : BitVec 32 :=
        match strstr r.buf INITPID with
        | none => -1
        | some p =>
          let pos := p.drop INITPID.length
          if strncmp pos "none".toList 4 then -1 else atoi pos
      -- `for (;*res==-1;)`
      if res = -1 then .again (r.proc_bufsize, r.errno) else .leave (.returned true res)

/-- What is behind a key, to the end of its line. -/
def valueOf (c key : Text) : Option Text :=
  (strstr (cstr c) key).map fun p => firstLine (p.drop key.length)

/-- The number at the start of a line. -/
def stated (line : Text) : Option Int := (scanDecimal line).map fun n => signed n.1 n.2.1

/-- The status has a line with the number of the context. -/
def Belongs (c : Text) (xid : BitVec 32) : Prop :=
  ∃ line v, valueOf c S_CONTEXT.text = some line ∧ stated line = some v ∧
    -2 ^ 31 ≤ v ∧ v < 2 ^ 32 ∧ BitVec.ofInt 32 v = xid

/-- The status has a line with this initpid, which is not negative. -/
def StatesInit (c : Text) (res : BitVec 32) : Prop :=
  ∃ line v, valueOf c INITPID = some line ∧ stated line = some v ∧ 0 ≤ v ∧ v < 2 ^ 31 ∧
    BitVec.ofInt 32 v = res

/-- The loop is left with a result, which is true for a process of the context and its initpid
only. -/
def Terminates (files : Int → StatusFile) (pid : Int) (xid : BitVec 32) (s : Bufsize × Errno) :
    Prop :=
  ∃ ok res, Leaves (getInitPid files pid xid) s (.returned ok res) ∧
    (ok = true → ∃ c, files pid = .content c ∧ Belongs c xid ∧ StatesInit c res)

/-- When the status can be read, it has a context, and that is another one; or it is the given one
and the status states an initpid. -/
def Settled (files : Int → StatusFile) (pid : Int) (xid : BitVec 32) : Prop :=
  InRange pid → ∀ c, files pid = .content c →
    ∃ p, strstr (cstr c) S_CONTEXT.text = some p ∧
      (atoi (p.drop S_CONTEXT.text.length) ≠ xid ∨ Belongs c xid ∧ ∃ res, StatesInit c res)

/-! ### Numbers of lines -/

/-- **A number of a line is read whatever follows the line.** -/
theorem scanDecimal_line {line : Text} {neg : Bool} {n : Nat} {r : Text}
    (h : scanDecimal line = some (neg, n, r)) {t : Text} (ht : t = [] ∨ ∃ t', t = '\n' :: t') :
    scanDecimal (line ++ t) = some (neg, n, r ++ t) := by
  obtain rfl | ⟨t', rfl⟩ := ht
  · rw [List.append_nil, List.append_nil, h]
  · have hnonblank : line.dropWhile isspace ≠ [] := by
      intro hblank
      rw [scanDecimal, hblank] at h
      cases h
    rw [DecimalText.scanDecimal_stop (by decide) (by decide) (by decide) (Or.inr hnonblank), h]
    rfl

/-- The number of a line, as `atoi` gives it. -/
theorem atoi_of_stated {t : Text} {v : Int} (h : stated (firstLine t) = some v) (hlow : -2 ^ 31 ≤ v)
    (hhigh : v < 2 ^ 32) : atoi t = BitVec.ofInt 32 v := by
  obtain ⟨⟨neg, n, r⟩, hscan, rfl⟩ := Option.map_eq_some_iff.1 h
  obtain ⟨rest, hline, hrest⟩ := firstLine_append t
  have hwhole := scanDecimal_line hscan hrest
  rw [← hline] at hwhole
  rw [atoi, strtol10, hwhole]
  have hclamp : clamp 64 (signed neg n) = signed neg n := by
    unfold clamp
    dsimp only at hlow hhigh
    omega
  exact congrArg (BitVec.ofInt 32) hclamp

/-! ### The passes -/

variable {xid : BitVec 32} {s : Bufsize × Errno}

/-- What the loop takes for the initpid. -/
def initValue (c : Text) : BitVec 32 :=
  match strstr (cstr c) INITPID with
  | none => -1
  | some p =>
    let pos := p.drop INITPID.length
    if strncmp pos "none".toList 4 then -1 else atoi pos

/-- A pass where the content fits and has a context. -/
theorem getInitPid_fits (xid : BitVec 32) (h : InRange pid) (hf : files pid = .content c)
    (hlen : c.length < s.1.size) {p : Text} (hp : strstr (cstr c) S_CONTEXT.text = some p) :
    getInitPid files pid xid s =
      if atoi (p.drop S_CONTEXT.text.length) ≠ xid then .leave (.returned false (-1))
      else if initValue c = -1 then .again s else .leave (.returned true (initValue c)) := by
  have hsearch : search c (some S_CONTEXT) =
      .place ((cstr c).length - p.length + S_CONTEXT.text.length) := by
    rw [search, hp]
  have hrest : (cstr c).drop ((cstr c).length - p.length + S_CONTEXT.text.length) =
      p.drop S_CONTEXT.text.length := by
    obtain ⟨i, hi, rfl⟩ := strstr_first hp
    rw [hi.place, List.drop_drop]
  unfold getInitPid
  rw [getProcEntry_fits h hf hlen, hsearch]
  dsimp only
  rw [hrest]
  rfl

theorem getInitPid_absent (xid : BitVec 32) (h : InRange pid) (hf : files pid = .content c)
    (hlen : c.length < s.1.size) (hp : strstr (cstr c) S_CONTEXT.text = none) :
    getInitPid files pid xid s = .leave .undefined := by
  have hsearch : search c (some S_CONTEXT) = .wild := by
    rw [search, hp]
  unfold getInitPid
  rw [getProcEntry_fits h hf hlen, hsearch]

/-- Every file fits at some time. -/
theorem reaches_fits (h : InRange pid) (hf : files pid = .content c) (xid : BitVec 32)
    (s : Bufsize × Errno) :
    ∃ s', Reaches (getInitPid files pid xid) s s' ∧ c.length < s'.1.size := by
  induction hm : c.length + 1 - s.1.size using Nat.strongRecOn generalizing s with
  | ind m ih =>
    by_cases hlen : c.length < s.1.size
    · exact ⟨s, .start, hlen⟩
    · have hpass : getInitPid files pid xid s = .again (s.1.grow, .EAGAIN) := by
        unfold getInitPid
        rw [getProcEntry_again h hf (Nat.not_lt.1 hlen), if_pos rfl]
        rfl
      have hgrow := s.1.lt_grow
      obtain ⟨s', hreach, hfits⟩ := ih (c.length + 1 - s.1.grow.size) (by omega)
        (s.1.grow, .EAGAIN) rfl
      exact ⟨s', hreach.head hpass, hfits⟩

/-- A line that states a number is not `none`. -/
theorem not_none_of_stated {t : Text} {v : Int} (h : stated (firstLine t) = some v) :
    strncmp t "none".toList 4 = false := by
  by_contra hno
  rw [Bool.not_eq_false] at hno
  have hcmp := strncmp_append t "none".toList []
  rw [List.append_nil] at hcmp
  obtain ⟨r, rfl⟩ := List.isPrefixOf_iff_prefix.1 (hcmp.symm.trans hno)
  have hline : firstLine ("none".toList ++ r) = 'n' :: firstLine ("one".toList ++ r) := rfl
  rw [hline] at h
  have hscan : scanDecimal ('n' :: firstLine ("one".toList ++ r)) = none := rfl
  rw [stated, hscan] at h
  cases h

/-- A status that states an initpid is read right. -/
theorem initValue_of_states {res : BitVec 32} (h : StatesInit c res) :
    initValue c = res ∧ res ≠ -1 := by
  obtain ⟨line, v, hline, hstated, hlow, hhigh, rfl⟩ := h
  obtain ⟨p, hp, rfl⟩ := Option.map_eq_some_iff.1 hline
  have hvalue := atoi_of_stated hstated (by omega) (by omega)
  refine ⟨?_, ?_⟩
  · unfold initValue
    rw [hp]
    dsimp only
    rw [not_none_of_stated hstated]
    exact hvalue
  · intro h
    have hint := congrArg BitVec.toInt h
    rw [BitVec.toInt_ofInt_eq_self (by decide) (by omega) (by omega)] at hint
    have hneg : (-1 : BitVec 32).toInt = -1 := by decide
    omega

/-- The process of a file that is not looked at. -/
theorem terminates_of_null {r : Returned} (hcall : utilvserver_getProcEntry files pid
    (some S_CONTEXT) s.1.size s.1 s.2 = r) (hres : r.res = .null) (herr : r.errno ≠ .EAGAIN) :
    Terminates files pid xid s := by
  refine ⟨false, -1, leaves_of_leave ?_, fun h => by cases h⟩
  unfold getInitPid
  rw [hcall]
  dsimp only
  rw [hres]
  exact if_neg herr

/-- **The loop is left just when the status settles the question.** -/
theorem terminates_iff : Terminates files pid xid s ↔ Settled files pid xid := by
  by_cases hpid : InRange pid
  · by_cases hfile : ∃ c, files pid = .content c
    · obtain ⟨c, hc⟩ := hfile
      obtain ⟨s', hreach, hlen⟩ := reaches_fits hpid hc xid s
      unfold Terminates Settled
      simp only [hreach.leaves_iff, hpid, hc, StatusFile.content.injEq, forall_eq', true_imp_iff,
        exists_eq_left']
      cases hp : strstr (cstr c) S_CONTEXT.text with
      | none =>
        refine iff_of_false (fun h => ?_) (fun h => ?_)
        · obtain ⟨ok, res, hleaves, -⟩ := h
          have hother := leaves_of_leave (getInitPid_absent xid hpid hc hlen hp)
          cases hleaves.unique hother
        · obtain ⟨p, hp', -⟩ := h
          cases hp'
      | some p =>
        have hpass := getInitPid_fits xid hpid hc hlen hp
        simp only [Option.some.injEq, exists_eq_left']
        by_cases hxid : atoi (p.drop S_CONTEXT.text.length) ≠ xid
        · rw [if_pos hxid] at hpass
          exact iff_of_true ⟨false, -1, leaves_of_leave hpass, fun h => by cases h⟩ (Or.inl hxid)
        · rw [if_neg hxid] at hpass
          constructor
          · rintro ⟨ok, res, hleaves, htrue⟩
            by_cases hinit : initValue c = -1
            · rw [if_pos hinit] at hpass
              exact absurd ⟨_, hleaves⟩ (not_ends_of_fixed hpass)
            · rw [if_neg hinit] at hpass
              cases hleaves.unique (leaves_of_leave hpass)
              obtain ⟨hbelongs, hstates⟩ := htrue rfl
              exact Or.inr ⟨hbelongs, _, hstates⟩
          · intro h
            obtain ⟨hbelongs, res, hstates⟩ := h.resolve_left hxid
            obtain ⟨hvalue, hne⟩ := initValue_of_states hstates
            rw [hvalue, if_neg hne] at hpass
            exact ⟨true, res, leaves_of_leave hpass, fun _ => ⟨hbelongs, hstates⟩⟩
    · have hnone : ∀ c, files pid ≠ .content c := fun c hc => hfile ⟨c, hc⟩
      obtain ⟨code, hcall⟩ := getProcEntry_unreadable hpid hnone (some S_CONTEXT) s.1.size s.1 s.2
      exact iff_of_true (terminates_of_null hcall rfl fun h => by cases h)
        fun _ c hc => absurd hc (hnone c)
  · have he : Errno.EBADR ≠ .EAGAIN := by decide
    exact iff_of_true (terminates_of_null (getProcEntry_outside hpid) rfl he)
      fun h => absurd h hpid

/-- **For which files the loop is left with the right result.** -/
theorem getInitPid_exact (files : Int → StatusFile) (pid : Int) (xid : BitVec 32)
    (proc_bufsize : Bufsize) (errno : Errno) :
    Terminates files pid xid (proc_bufsize, errno) ↔ Settled files pid xid := terminates_iff

/-- The status of a process of the context 5 that states no initpid. -/
def withoutInit : Text := "Name:\tsh\ns_context: 5\ninitpid: none\n".toList

theorem getInitPid_wrong :
    ¬ Terminates (fun _ => .content withoutInit) 1 5 (.initial, .file 0) := by
  have hfixed : getInitPid (fun _ => .content withoutInit) 1 5 (.initial, .file 0) =
      .again (.initial, .file 0) := by
    rw [getInitPid_fits 5 (c := withoutInit) (p := "\ns_context: 5\ninitpid: none\n".toList)
        (by decide) rfl (by decide) (by decide +kernel),
      if_neg (by decide +kernel), if_pos (by decide +kernel)]
  rintro ⟨ok, res, hleaves, -⟩
  exact not_ends_of_fixed hfixed ⟨_, hleaves⟩

end ProcEntry
