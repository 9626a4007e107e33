import UtilVserver.Vlimit

/-!
# `exec-ulimit` (`src/exec-ulimit.c`)

Sets the limits of a process from the files of a directory before it runs a program.

* `readValue` — the value of a file, which is parsed by hand.
* `readSingleLimit`, `limitOf`, `calls` — the pairs that are passed to `setrlimit`, resource by
  resource.
* `Configured` — a pair that has what the files say, with the soft limit below the hard one.

Principal results: `readValue_eq` (the values are those of `vlimit`) and `configured_iff` (which
pairs are as they should be).
-/

set_option autoImplicit false

namespace ExecUlimit

open CString ParseLimit IsNumber

/-- `rlim_t`. -/
abbrev Rlim := BitVec 64

def RLIM_INFINITY : Rlim := ~~~0
def OLD_RLIM_INFINITY : Rlim := RLIM_INFINITY >>> 1

/-- The suffix: the multiplications in a `long` of 64 bits, and what follows it. -/
def scale (res : BitVec 64) (errptr : Text) : BitVec 64 × Text :=
  match errptr with
  | 'M' :: t => (res * 1024 * 1024, t)
  | 'K' :: t => (res * 1024, t)
  | 'm' :: t => (res * 1000 * 1000, t)
  | 'k' :: t => (res * 1000, t)
  | t => (res, t)

/-- `readValue` for a file with this content; none where the program exits. -/
def readValue (content : Text) : Option Rlim :=
  let buf := cstr (content.take 127)
  if strncmp buf inf 3 then some RLIM_INFINITY
  else
    let r := strtol 64 buf
    let moved := r.2.length ≠ buf.length
    let f := if moved then scale (BitVec.ofInt 64 r.1) r.2 else (BitVec.ofInt 64 r.1, r.2)
    if ¬ moved ∨ charAt f.2 0 ≠ '\x00' ∧ charAt f.2 0 ≠ '\n' then none else some f.1

theorem scale_eq (res : BitVec 64) (t : Text) :
    scale res t = (res * BitVec.ofInt 64 (factor t).1, (factor t).2) := by
  have hone : res * BitVec.ofInt 64 1 = res := BitVec.mul_one res
  unfold scale
  split
  · rw [BitVec.mul_assoc]
    rfl
  · rfl
  · rw [BitVec.mul_assoc]
    rfl
  · rfl
  · rename_i hM hK hm hk
    unfold factor
    split
    · exact absurd rfl (hM _)
    · exact absurd rfl (hK _)
    · exact absurd rfl (hm _)
    · exact absurd rfl (hk _)
    · rw [hone]

/-- **The two parsers agree**: the same files are accepted, with the same values. -/
theorem readValue_eq (content : Text) : readValue content = Vlimit.readValue content := by
  unfold readValue Vlimit.readValue vc_parseLimit
  dsimp only
  split
  · rfl
  · rw [scale_eq]
    by_cases hmoved :
        (strtol 64 (cstr (content.take 127))).2.length ≠ (cstr (content.take 127)).length
    · rw [if_pos hmoved, if_pos hmoved]
      dsimp only
      split
      · rename_i hno
        obtain hno | hno := hno
        · exact absurd hmoved hno
        · rw [if_neg]
          rintro ⟨-, hend⟩
          exact hend.elim hno.1 hno.2
      · rename_i hyes
        rw [if_pos]
        obtain ⟨-, hend⟩ := not_or.1 hyes
        refine ⟨hmoved, ?_⟩
        by_cases h0 : charAt (factor (strtol 64 (cstr (content.take 127))).2).2 0 = '\x00'
        · exact Or.inl h0
        · exact Or.inr (by_contra fun hnl => hend ⟨h0, hnl⟩)
    · rw [if_neg hmoved, if_neg hmoved, if_pos (Or.inl hmoved), if_neg fun h => hmoved h.1]

/-! ## The limits -/

structure Rlimit where
  rlim_cur : Rlim
  rlim_max : Rlim
  deriving DecidableEq

structure Resource where
  fname : Text
  code : Nat
  deriving DecidableEq

def RLIMIT_NOFILE : Nat := 7

def LIMITS : List Resource :=
  [⟨"core".toList, 4⟩, ⟨"cpu".toList, 0⟩, ⟨"data".toList, 2⟩, ⟨"fsize".toList, 1⟩,
    ⟨"locks".toList, 10⟩, ⟨"memlock".toList, 8⟩, ⟨"nofile".toList, RLIMIT_NOFILE⟩,
    ⟨"nproc".toList, 6⟩, ⟨"rss".toList, 5⟩, ⟨"stack".toList, 3⟩]

/-- The directory, if it could be entered, with the files that can be opened (none for what can not
be read), and the answers of the kernel. -/
structure World where
  in_dir : Bool
  files : Text → Option (Option Text)
  getrlimit : Nat → Option Rlimit
  setrlimit : Nat → Rlimit → Bool

/-- A file, if it is there, and what is done with its value. -/
def readFile (w : World) (file : Text) (set : Rlim → Rlimit → Rlimit) (st : Rlimit × Bool) :
    Option (Rlimit × Bool) :=
  match w.files file with
  | none => some st
  | some none => none
  | some (some content) => (readValue content).map fun tmp => (set tmp st.1, true)

/-- The soft limit is brought down to the hard one. -/
def lower (lim : Rlimit) : Rlimit :=
  if lim.rlim_max ≠ RLIM_INFINITY ∧
      (lim.rlim_cur = RLIM_INFINITY ∨ lim.rlim_max < lim.rlim_cur) then
    { lim with rlim_cur := lim.rlim_max }
  else lim

/-- `readSingleLimit`: the limit and whether it is modified. -/
def readSingleLimit (w : World) (lim : Rlimit) (fname_base : Text) : Option (Rlimit × Bool) :=
  (readFile w fname_base (fun tmp _ => ⟨tmp, tmp⟩) (lim, false)).bind fun st =>
  (readFile w (fname_base ++ ".hard".toList) (fun tmp l => { l with rlim_max := tmp }) st).bind
    fun st =>
  (readFile w (fname_base ++ ".soft".toList) (fun tmp l => { l with rlim_cur := tmp }) st).map
    fun st => if st.2 then (lower st.1, true) else st

/-- The soft limit of the kernel, which may stand for infinity in the old way. -/
def current (cur : Rlim) : Rlim := if cur = OLD_RLIM_INFINITY then RLIM_INFINITY else cur

/-- What is passed to `setrlimit`, and whether the program exits when that fails. -/
def limitOf (w : World) (r : Resource) : Option (Rlimit × Bool) :=
  (w.getrlimit r.code).bind fun limit =>
    let limit := { limit with rlim_cur := current limit.rlim_cur }
    (if w.in_dir then readSingleLimit w limit r.fname else some (limit, false)).map fun st =>
      if st.2 then (st.1, true)
      else if r.code ≠ RLIMIT_NOFILE then ({ st.1 with rlim_max := RLIM_INFINITY }, true)
      else ({ st.1 with rlim_max := 1024 * 1024 }, false)

/-- The calls of `setrlimit`. -/
def calls (w : World) : List Resource → List (Nat × Rlimit)
  | [] => []
  | r :: rs =>
    match limitOf w r with
    | none => []
    | some (limit, strict) =>
      (r.code, limit) :: if strict && !w.setrlimit r.code limit then [] else calls w rs

/-! ## What is configured -/

/-- The value of a file. -/
def fileValue (w : World) (file : Text) : Option Rlim :=
  if w.in_dir then (w.files file).bind fun content => content.bind readValue else none

def softOf (w : World) (r : Resource) : Option Rlim :=
  (fileValue w (r.fname ++ ".soft".toList)).or (fileValue w r.fname)

def hardOf (w : World) (r : Resource) : Option Rlim :=
  (fileValue w (r.fname ++ ".hard".toList)).or (fileValue w r.fname)

/-- The pair is in order and has what is configured: the hard limit, and the soft limit, or else
the one that there was, unless it has to be brought down to the hard one. -/
structure Configured (w : World) (r : Resource) (old lim : Rlimit) : Prop where
  ordered : lim.rlim_cur ≤ lim.rlim_max
  hard : ∀ v, hardOf w r = some v → lim.rlim_max = v
  soft : (softOf w r).getD (current old.rlim_cur) ≤ lim.rlim_max →
    lim.rlim_cur = (softOf w r).getD (current old.rlim_cur)
  lowered : lim.rlim_max < (softOf w r).getD (current old.rlim_cur) → lim.rlim_cur = lim.rlim_max

/-- The number of files, without a file for it, and more of them than the limit that is put in. -/
def Unlowered (w : World) (r : Resource) (old : Rlimit) : Prop :=
  r.code = RLIMIT_NOFILE ∧ softOf w r = none ∧ hardOf w r = none ∧
    (1024 * 1024 : Rlim) < current old.rlim_cur

theorem le_infinity (v : Rlim) : v ≤ RLIM_INFINITY := by
  have hinf : RLIM_INFINITY.toNat = 2 ^ 64 - 1 := by decide
  rw [BitVec.le_def, hinf]
  omega

/-- The soft limit is the smaller of the two. -/
theorem lower_spec (lim : Rlimit) : (lower lim).rlim_max = lim.rlim_max ∧
    (lower lim).rlim_cur ≤ lim.rlim_max ∧
    (lim.rlim_cur ≤ lim.rlim_max → (lower lim).rlim_cur = lim.rlim_cur) ∧
    (lim.rlim_max < lim.rlim_cur → (lower lim).rlim_cur = lim.rlim_max) := by
  unfold lower
  split
  · rename_i hlow
    refine ⟨rfl, BitVec.le_refl _, fun hle => ?_, fun _ => rfl⟩
    obtain ⟨hmax, hcur | hlt⟩ := hlow
    · exact absurd (BitVec.le_antisymm (le_infinity _) (hcur ▸ hle)) hmax
    · exact absurd hlt (BitVec.not_lt.2 hle)
  · rename_i hno
    have hle : lim.rlim_cur ≤ lim.rlim_max := by
      by_cases hmax : lim.rlim_max = RLIM_INFINITY
      · rw [hmax]
        exact le_infinity _
      · exact BitVec.not_lt.1 fun hlt => hno ⟨hmax, Or.inr hlt⟩
    exact ⟨rfl, hle, fun _ => rfl, fun hlt => absurd hlt (BitVec.not_lt.2 hle)⟩

theorem readFile_some {w : World} {file : Text} {set : Rlim → Rlimit → Rlimit}
    {st st' : Rlimit × Bool} (hdir : w.in_dir = true) (h : readFile w file set st = some st') :
    fileValue w file = none ∧ st' = st ∨
      ∃ v, fileValue w file = some v ∧ st' = (set v st.1, true) := by
  unfold readFile at h
  unfold fileValue
  rw [if_pos hdir]
  cases hf : w.files file with
  | none =>
    rw [hf] at h
    exact Or.inl ⟨rfl, (Option.some.inj h).symm⟩
  | some c =>
    rw [hf] at h
    cases c with
    | none => cases h
    | some content =>
      obtain ⟨v, hv, rfl⟩ := Option.map_eq_some_iff.1 h
      exact Or.inr ⟨v, hv, rfl⟩

/-- **One resource of the directory**: the pair before it is brought in order. -/
theorem readSingleLimit_some {w : World} {r : Resource} {lim : Rlimit} {st : Rlimit × Bool}
    (hdir : w.in_dir = true) (h : readSingleLimit w lim r.fname = some st) :
    st.2 = false ∧ softOf w r = none ∧ hardOf w r = none ∧ st.1 = lim ∨
      st.2 = true ∧ ¬ (softOf w r = none ∧ hardOf w r = none) ∧
        st.1 = lower ⟨(softOf w r).getD lim.rlim_cur, (hardOf w r).getD lim.rlim_max⟩ := by
  unfold readSingleLimit at h
  obtain ⟨st1, h1, h⟩ := Option.bind_eq_some_iff.1 h
  obtain ⟨st2, h2, h⟩ := Option.bind_eq_some_iff.1 h
  obtain ⟨st3, h3, rfl⟩ := Option.map_eq_some_iff.1 h
  unfold softOf hardOf
  obtain ⟨hv1, rfl⟩ | ⟨v1, hv1, rfl⟩ := readFile_some hdir h1 <;>
    obtain ⟨hv2, rfl⟩ | ⟨v2, hv2, rfl⟩ := readFile_some hdir h2 <;>
      obtain ⟨hv3, rfl⟩ | ⟨v3, hv3, rfl⟩ := readFile_some hdir h3 <;>
        rw [hv1, hv2, hv3]
  · exact Or.inl ⟨rfl, rfl, rfl, rfl⟩
  all_goals exact Or.inr ⟨rfl, by simp, rfl⟩

theorem fileValue_of_not_in_dir {w : World} (h : w.in_dir = false) (file : Text) :
    fileValue w file = none := by
  rw [fileValue, h]
  rfl

/-- **What is passed to `setrlimit`**: the configured pair in order, or without a file the soft limit
that there was and a fixed hard one. -/
theorem limitOf_some {w : World} {r : Resource} {old lim : Rlimit} {strict : Bool}
    (hold : w.getrlimit r.code = some old) (h : limitOf w r = some (lim, strict)) :
    ¬ (softOf w r = none ∧ hardOf w r = none) ∧
        lim = lower ⟨(softOf w r).getD (current old.rlim_cur), (hardOf w r).getD old.rlim_max⟩ ∨
      softOf w r = none ∧ hardOf w r = none ∧ lim.rlim_cur = current old.rlim_cur ∧
        lim.rlim_max = if r.code ≠ RLIMIT_NOFILE then RLIM_INFINITY else 1024 * 1024 := by
  unfold limitOf at h
  rw [hold, Option.bind_some] at h
  obtain ⟨st, hst, h⟩ := Option.map_eq_some_iff.1 h
  have hcases : st.2 = false ∧ softOf w r = none ∧ hardOf w r = none ∧
      st.1 = { old with rlim_cur := current old.rlim_cur } ∨ st.2 = true ∧
        ¬ (softOf w r = none ∧ hardOf w r = none) ∧
        st.1 = lower ⟨(softOf w r).getD (current old.rlim_cur), (hardOf w r).getD old.rlim_max⟩ := by
    cases hdir : w.in_dir with
    | true =>
      rw [hdir] at hst
      exact readSingleLimit_some hdir hst
    | false =>
      rw [hdir] at hst
      obtain rfl := Option.some.inj hst
      refine Or.inl ⟨rfl, ?_, ?_, rfl⟩
      · rw [softOf, fileValue_of_not_in_dir hdir, fileValue_of_not_in_dir hdir]
        rfl
      · rw [hardOf, fileValue_of_not_in_dir hdir, fileValue_of_not_in_dir hdir]
        rfl
  obtain ⟨hmod, hsoft, hhard, hlim⟩ | ⟨hmod, hfiles, hlim⟩ := hcases
  · rw [hmod, if_neg Bool.false_ne_true] at h
    refine Or.inr ⟨hsoft, hhard, ?_⟩
    split at h
    · rename_i hcode
      obtain ⟨rfl, -⟩ := Prod.mk.inj h
      rw [if_pos hcode, hlim]
      exact ⟨rfl, rfl⟩
    · rename_i hcode
      obtain ⟨rfl, -⟩ := Prod.mk.inj h
      rw [if_neg hcode, hlim]
      exact ⟨rfl, rfl⟩
  · rw [hmod, if_pos rfl] at h
    obtain ⟨rfl, -⟩ := Prod.mk.inj h
    exact Or.inl ⟨hfiles, hlim⟩

theorem code_mem_of_calls {w : World} {rs : List Resource} {c : Nat} {lim : Rlimit}
    (h : (c, lim) ∈ calls w rs) : c ∈ rs.map (·.code) := by
  induction rs with
  | nil => cases h
  | cons q rs ih =>
    unfold calls at h
    split at h
    · cases h
    · obtain h | h := List.mem_cons.1 h
      · exact (Prod.mk.inj h).1 ▸ List.mem_cons_self
      · split at h
        · cases h
        · exact List.mem_cons_of_mem _ (ih h)

/-- A call is about the pair of its resource. -/
theorem limitOf_of_mem_calls {w : World} {rs : List Resource} (hcodes : (rs.map (·.code)).Nodup)
    {r : Resource} (hr : r ∈ rs) {lim : Rlimit} (h : (r.code, lim) ∈ calls w rs) :
    ∃ strict, limitOf w r = some (lim, strict) := by
  induction rs with
  | nil => cases hr
  | cons q rs ih =>
    rw [List.map_cons, List.nodup_cons] at hcodes
    unfold calls at h
    split at h
    · cases h
    · rename_i limit strict hlimit
      obtain rfl | hr := List.mem_cons.1 hr
      · obtain h | h := List.mem_cons.1 h
        · exact ⟨strict, (Prod.mk.inj h).2 ▸ hlimit⟩
        · split at h
          · cases h
          · exact absurd (code_mem_of_calls h) hcodes.1
      · have hne : r.code ≠ q.code := fun heq =>
          hcodes.1 (heq ▸ List.mem_map_of_mem (f := (·.code)) hr)
        obtain h | h := List.mem_cons.1 h
        · exact absurd (Prod.mk.inj h).1 hne
        · split at h
          · cases h
          · exact ih hcodes.2 hr h

/-- **Which pairs are as they should be**: all that are passed to `setrlimit`, but for the number of
files where that is not configured and above the limit that is put in. -/
theorem configured_iff (w : World) {r : Resource} (hr : r ∈ LIMITS) {old lim : Rlimit}
    (hold : w.getrlimit r.code = some old) (h : (r.code, lim) ∈ calls w LIMITS) :
    Configured w r old lim ↔ ¬ Unlowered w r old := by
  obtain ⟨strict, hlim⟩ := limitOf_of_mem_calls (by decide) hr h
  obtain ⟨hfiles, rfl⟩ | ⟨hsoft, hhard, hcur, hmax⟩ := limitOf_some hold hlim
  · obtain ⟨h1, h2, h3, h4⟩ :=
      lower_spec ⟨(softOf w r).getD (current old.rlim_cur), (hardOf w r).getD old.rlim_max⟩
    refine iff_of_true ⟨h1 ▸ h2, fun v hv => ?_, fun hle => h3 (h1 ▸ hle), fun hlt => ?_⟩
      fun hno => hfiles ⟨hno.2.1, hno.2.2.1⟩
    · rw [h1, hv, Option.getD_some]
    · rw [h1] at hlt ⊢
      exact h4 hlt
  · have hwanted : (softOf w r).getD (current old.rlim_cur) = lim.rlim_cur := by
      rw [hsoft, hcur, Option.getD_none]
    have hhard' : ∀ v, hardOf w r = some v → lim.rlim_max = v := by
      intro v hv
      rw [hhard] at hv
      cases hv
    constructor
    · rintro hconf ⟨hcode, -, -, hlt⟩
      have hle := hconf.ordered
      rw [hmax, if_neg (not_not.2 hcode), hcur] at hle
      exact absurd hlt (BitVec.not_lt.2 hle)
    · intro hno
      have hle : lim.rlim_cur ≤ lim.rlim_max := by
        rw [hmax]
        split
        · exact le_infinity _
        · rename_i hcode
          rw [hcur]
          exact BitVec.not_lt.1 fun hlt => hno ⟨not_not.1 hcode, hsoft, hhard, hlt⟩
      refine ⟨hle, hhard', fun _ => hwanted.symm, fun hlt => ?_⟩
      rw [hwanted] at hlt
      exact absurd hle (BitVec.not_le.2 hlt)

/-- A directory with two files for the resource `core`. -/
def smallCores : World where
  in_dir := true
  files f :=
    if f = "core".toList then some (some "100K\n".toList)
    else if f = "core.hard".toList then some (some "50K\n".toList)
    else none
  getrlimit _ := some ⟨0, 2 * 1024 * 1024⟩
  setrlimit _ _ := true

/-- The soft limit of the first file is lowered to the hard one of the second. -/
theorem configured_iff_core :
    Configured smallCores ⟨"core".toList, 4⟩ ⟨0, 2 * 1024 * 1024⟩ ⟨50 * 1024, 50 * 1024⟩ := by
  refine (@configured_iff smallCores ⟨"core".toList, 4⟩ (by decide) ⟨0, 2 * 1024 * 1024⟩
    ⟨50 * 1024, 50 * 1024⟩ rfl (by decide +kernel)).2 ?_
  rintro ⟨hcode, -⟩
  exact absurd hcode (by decide)

/-- A process that may open no more than two million files, without a directory. -/
def manyFiles : World where
  in_dir := false
  files _ := none
  getrlimit _ := some ⟨2 * 1024 * 1024, 2 * 1024 * 1024⟩
  setrlimit _ _ := true

/-- The soft limit is left above the hard one. -/
theorem nofile_above : (RLIMIT_NOFILE, ⟨2 * 1024 * 1024, 1024 * 1024⟩) ∈ calls manyFiles LIMITS ∧
    ¬ Configured manyFiles ⟨"nofile".toList, RLIMIT_NOFILE⟩ ⟨2 * 1024 * 1024, 2 * 1024 * 1024⟩
      ⟨2 * 1024 * 1024, 1024 * 1024⟩ := by
  refine ⟨by decide +kernel, fun h => ?_⟩
  exact absurd h.ordered (by decide)

end ExecUlimit
