import Mathlib.Data.List.Induction
import Mathlib.Logic.Function.Basic
import UtilVserver.Lib.DecimalText

/-!
# The fields of a disk limit (`setDLimitField` of `src/vdlimit.c`)

Each `--set` assigns one field of a record whose fields all start with the value "keep".

* `writeInt`, `setDLimitField`, `setAll` — the code.
* `denotes`, `limitOf` — the number of a text, and the limit it stands for.
* `assign` — an assignment as it is meant, on fields that are set or not.

Principal results: `set_writeInt` (a number that is printed can be assigned again) and
`setDLimitField_exact`.
-/

set_option autoImplicit false

namespace Vdlimit

open CString DecimalText

abbrev Word := BitVec 32

def VC_CDLIM_INFINITY : Word := ~~~0#32
def VC_CDLIM_KEEP : Word := ~~~1#32

/-- `struct vc_ctx_dlimit`. -/
structure Limits where
  space_used : Word
  space_total : Word
  inodes_used : Word
  inodes_total : Word
  reserved : Word
  deriving DecidableEq

/-- The members that `GET_VAL_PTR` looks for. -/
inductive Member where
  | space_used
  | space_total
  | inodes_used
  | inodes_total
  | reserved
  deriving DecidableEq

/-- In the order of the tests. -/
def members : List Member := [.space_used, .space_total, .inodes_used, .inodes_total, .reserved]

/-- The text of `CMP`. -/
def Member.name : Member → Text
  | .space_used => "space_used".toList
  | .space_total => "space_total".toList
  | .inodes_used => "inodes_used".toList
  | .inodes_total => "inodes_total".toList
  | .reserved => "reserved".toList

/-- `*ptr`. -/
def Limits.get (l : Limits) : Member → Word
  | .space_used => l.space_used
  | .space_total => l.space_total
  | .inodes_used => l.inodes_used
  | .inodes_total => l.inodes_total
  | .reserved => l.reserved

/-- `*ptr = val`. -/
def Limits.set (l : Limits) (m : Member) (val : Word) : Limits :=
  match m with
  | .space_used => { l with space_used := val }
  | .space_total => { l with space_total := val }
  | .inodes_used => { l with inodes_used := val }
  | .inodes_total => { l with inodes_total := val }
  | .reserved => { l with reserved := val }

/-- The number of `writeInt`. -/
def writeInt (val : Word) : Text :=
  if val = VC_CDLIM_INFINITY then "-1".toList else decimal val.toNat

/-- A message of the tool. -/
def message (what opt : Text) : Text :=
  "vdlimit: ".toList ++ what ++ " in '".toList ++ opt ++ "'\n".toList

/-- The member whose name and `=` the option begins with, and the moved `opt`. -/
def target (opt : Text) : Option (Member × Text) :=
  (members.find? fun m => strncmp opt (m.name ++ ['=']) (m.name.length + 1)).map fun m =>
    (m, opt.drop (m.name.length + 1))

/-- `setDLimitField`: the record, or the message when it returns false. -/
def setDLimitField (dst : Limits) (origOpt : Text) : Except Text Limits :=
  match target origOpt with
  | some (ptr, opt) =>
    if dst.get ptr = VC_CDLIM_KEEP then
      let (val, endptr) := strtol 64 opt
      if opt = [] ∨ endptr ≠ [] then .error (message "can not parse number".toList origOpt)
      else .ok (dst.set ptr (BitVec.ofInt 32 val))
    else .error (message "value already set".toList origOpt)
  | none => .error (message "unknown limit".toList origOpt)

/-- The record that `main` starts with. -/
def keepAll : Limits :=
  ⟨VC_CDLIM_KEEP, VC_CDLIM_KEEP, VC_CDLIM_KEEP, VC_CDLIM_KEEP, VC_CDLIM_KEEP⟩

/-- The `--set` options of a command line, up to the first that is refused. -/
def setAll : Limits → List Text → Except Text Limits
  | limit, [] => .ok limit
  | limit, opt :: opts => do
    let limit ← setDLimitField limit opt
    setAll limit opts

/-! ## What is assigned -/

/-- The number of a text: blanks, a sign and a decimal, octal or hexadecimal numeral. -/
def denotes (t : Text) : Option Int :=
  (signedNumeral t).map fun v => if v.1 then -(v.2 : Int) else v.2

/-- The limit that a number stands for, if a field can hold it. -/
def limitOf (v : Int) : Option Word :=
  if v = -1 then some VC_CDLIM_INFINITY
  else if 0 ≤ v ∧ v < 2 ^ 32 ∧ v ≠ VC_CDLIM_KEEP.toNat then some (BitVec.ofInt 32 v)
  else none

/-- The fields that are set. -/
abbrev Fields := Member → Option Word

def unset : Fields := fun _ => none

/-- The record has the fields that are set, and "keep" in the others. -/
def Fields.record (fs : Fields) : Limits where
  space_used := (fs .space_used).getD VC_CDLIM_KEEP
  space_total := (fs .space_total).getD VC_CDLIM_KEEP
  inodes_used := (fs .inodes_used).getD VC_CDLIM_KEEP
  inodes_total := (fs .inodes_total).getD VC_CDLIM_KEEP
  reserved := (fs .reserved).getD VC_CDLIM_KEEP

/-- An assignment `name=text`, written out. -/
def option (m : Member) (t : Text) : Text := m.name ++ '=' :: t

/-- What an option does to the fields: the limit of its number is stored in a field that is not
set yet; any other option is refused. -/
inductive Assigns (fs : Fields) : Text → Fields → Prop where
  | intro (m : Member) (t : Text) (v : Int) (w : Word) (hnumber : denotes t = some v)
      (hlimit : limitOf v = some w) (hunset : fs m = none) :
      Assigns fs (option m t) (Function.update fs m (some w))

/-- The options one after the other. -/
inductive AssignsAll : Fields → List Text → Fields → Prop where
  | nil (fs : Fields) : AssignsAll fs [] fs
  | cons {fs fs' fs'' : Fields} {opt : Text} {opts : List Text} (h : Assigns fs opt fs')
      (hs : AssignsAll fs' opts fs'') : AssignsAll fs (opt :: opts) fs''

/-- As far as the options go, the code accepts those that are assignments, with their result. -/
def SetsAsMeant (opts : List Text) : Prop :=
  ∀ os, os <+: opts → ∀ limit, setAll keepAll os = .ok limit ↔
    ∃ fs, AssignsAll unset os fs ∧ limit = fs.record

/-- A number that no field can hold, or that stands for "keep". -/
def Unstorable (t : Text) : Prop := ∃ v, denotes t = some v ∧ limitOf v = none

/-- Behind options that are all assignments, no field that is not set yet is given a number that
can not be stored. -/
def AllStorable (opts : List Text) : Prop :=
  ∀ os m t rest, opts = os ++ option m t :: rest → (∃ fs, AssignsAll unset os fs ∧ fs m = none) →
    ¬ Unstorable t

/-! ## Options and numbers -/

theorem strncmp_member (opt : Text) (m : Member) :
    strncmp opt (m.name ++ ['=']) (m.name.length + 1) = (m.name ++ ['=']).isPrefixOf opt := by
  have h := strncmp_append opt (m.name ++ ['=']) []
  rw [List.append_nil, List.length_append, List.length_singleton] at h
  exact h

theorem target_option (m : Member) (t : Text) : target (option m t) = some (m, t) := by
  simp only [target, strncmp_member]
  cases m <;> rfl

theorem option_of_target {opt t : Text} {m : Member} (h : target opt = some (m, t)) :
    opt = option m t := by
  obtain ⟨m', hfind, heq⟩ := Option.map_eq_some_iff.1 h
  cases heq
  have hcmp : strncmp opt (m.name ++ ['=']) (m.name.length + 1) = true := by
    have := List.find?_some hfind
    exact this
  rw [strncmp_member] at hcmp
  obtain ⟨t, rfl⟩ := List.isPrefixOf_iff_prefix.1 hcmp
  have hlen : m.name.length + 1 = (m.name ++ ['=']).length := by simp
  rw [hlen, List.drop_left, option, List.append_assoc, List.singleton_append]

theorem option_inj {m m' : Member} {t t' : Text} (h : option m t = option m' t') :
    m = m' ∧ t = t' := by
  have htarget := target_option m t
  rw [h, target_option] at htarget
  cases htarget
  exact ⟨rfl, rfl⟩

/-- The scanner reads a number to its end, and saturates it at the limits of `long`. -/
theorem strtol_of_denotes {t : Text} {v : Int} (h : denotes t = some v) :
    t ≠ [] ∧ strtol 64 t = (clamp 64 v, []) := by
  obtain ⟨⟨neg, n⟩, hn, hv⟩ := Option.map_eq_some_iff.1 h
  refine ⟨?_, by rw [strtol_of_signedNumeral hn, ← hv]⟩
  rintro rfl
  cases hn

theorem strtol_of_not_denotes {t : Text} (h : denotes t = none) :
    t = [] ∨ (strtol 64 t).2 ≠ [] := by
  by_contra hno
  obtain ⟨hne, hend⟩ := not_or.1 hno
  have hlen : 0 < t.length := List.length_pos_of_ne_nil hne
  have hsome := (strtol_consumes_iff 64 t).1
    ⟨by rw [not_not.1 hend]; exact hlen, not_not.1 hend⟩
  rw [Option.map_eq_none_iff.1 h] at hsome
  cases hsome

/-- What the code does with an option that names a field. -/
theorem setDLimitField_option (dst : Limits) (m : Member) (t : Text) (limit : Limits) :
    setDLimitField dst (option m t) = .ok limit ↔ dst.get m = VC_CDLIM_KEEP ∧
      ∃ v, denotes t = some v ∧ limit = dst.set m (BitVec.ofInt 32 (clamp 64 v)) := by
  unfold setDLimitField
  rw [target_option]
  by_cases hkeep : dst.get m = VC_CDLIM_KEEP
  · cases hd : denotes t with
    | none =>
      have hbad := strtol_of_not_denotes hd
      simp only [hkeep, if_true, if_pos hbad]
      simp
    | some v =>
      obtain ⟨hne, hscan⟩ := strtol_of_denotes hd
      simp only [hkeep, if_true, hscan, hne, ne_eq, not_true_eq_false, or_self, if_false]
      simp [eq_comm]
  · simp [hkeep]

theorem limitOf_spec {v : Int} {w : Word} (h : limitOf v = some w) :
    BitVec.ofInt 32 (clamp 64 v) = w ∧ w ≠ VC_CDLIM_KEEP := by
  unfold limitOf at h
  split at h
  · rename_i hv
    cases h
    rw [hv]
    exact ⟨by decide, by decide⟩
  · split at h
    · rename_i hv
      obtain ⟨h0, hlt, hkeep⟩ := hv
      cases h
      obtain ⟨n, rfl⟩ := Int.eq_ofNat_of_zero_le h0
      have hn : n < 2 ^ 32 := by exact_mod_cast hlt
      rw [clamp_of_lt (by omega)]
      refine ⟨rfl, fun he => hkeep ?_⟩
      have hnat := congrArg BitVec.toNat he
      rw [BitVec.ofInt_natCast, BitVec.toNat_ofNat, Nat.mod_eq_of_lt hn] at hnat
      exact_mod_cast hnat
    · cases h

/-! ## Records and fields -/

@[simp] theorem record_get (fs : Fields) (m : Member) :
    fs.record.get m = (fs m).getD VC_CDLIM_KEEP := by
  cases m <;> rfl

@[simp] theorem record_update (fs : Fields) (m : Member) (w : Word) :
    Fields.record (Function.update fs m (some w)) = fs.record.set m w := by
  cases m <;> rfl

/-- No field is set to the value that stands for "keep". -/
def NoKeep (fs : Fields) : Prop := ∀ m, fs m ≠ some VC_CDLIM_KEEP

theorem Assigns.noKeep {fs fs' : Fields} {opt : Text} (h : Assigns fs opt fs') (hk : NoKeep fs) :
    NoKeep fs' := by
  obtain ⟨m, t, v, w, hnumber, hlimit, hunset⟩ := h
  intro m'
  by_cases hm : m' = m
  · rw [hm, Function.update_self]
    exact fun hw => (limitOf_spec hlimit).2 (Option.some.inj hw)
  · rw [Function.update_of_ne hm]
    exact hk m'

theorem AssignsAll.noKeep {fs fs' : Fields} {opts : List Text} (h : AssignsAll fs opts fs')
    (hk : NoKeep fs) : NoKeep fs' := by
  induction h with
  | nil => exact hk
  | cons h _ ih => exact ih (h.noKeep hk)

theorem get_eq_keep_iff {fs : Fields} (hk : NoKeep fs) (m : Member) :
    fs.record.get m = VC_CDLIM_KEEP ↔ fs m = none := by
  rw [record_get]
  cases hm : fs m with
  | none => simp
  | some w =>
    have hw : w ≠ VC_CDLIM_KEEP := fun hw => hk m (by rw [hm, hw])
    simp [hw]

theorem Assigns.unique {fs fs' fs'' : Fields} {opt : Text} (h : Assigns fs opt fs')
    (h' : Assigns fs opt fs'') : fs' = fs'' := by
  obtain ⟨m, t, v, w, hnumber, hlimit, hunset⟩ := h
  generalize hopt : option m t = opt at h'
  obtain ⟨m', t', v', w', hnumber', hlimit', hunset'⟩ := h'
  obtain ⟨rfl, rfl⟩ := option_inj hopt
  rw [hnumber] at hnumber'
  cases hnumber'
  rw [hlimit] at hlimit'
  cases hlimit'
  rfl

theorem AssignsAll.unique {fs fs' fs'' : Fields} {opts : List Text} (h : AssignsAll fs opts fs')
    (h' : AssignsAll fs opts fs'') : fs' = fs'' := by
  induction h with
  | nil => cases h'; rfl
  | cons h _ ih =>
    cases h' with
    | cons g gs =>
      cases h.unique g
      exact ih gs

/-! ## One assignment -/

/-- A storable number, or one for a field that is set, is treated as it is meant. -/
theorem setDLimitField_iff {fs : Fields} (hk : NoKeep fs) {opt : Text}
    (hgood : ∀ m t, opt = option m t → fs m = none → ¬ Unstorable t) (limit : Limits) :
    setDLimitField fs.record opt = .ok limit ↔ ∃ fs', Assigns fs opt fs' ∧ limit = fs'.record := by
  constructor
  · intro h
    cases ht : target opt with
    | none => simp [setDLimitField, ht] at h
    | some p =>
      obtain ⟨m, t⟩ := p
      cases option_of_target ht
      obtain ⟨hkeep, v, hv, rfl⟩ := (setDLimitField_option _ m t limit).1 h
      have hunset := (get_eq_keep_iff hk m).1 hkeep
      cases hw : limitOf v with
      | none => exact absurd ⟨v, hv, hw⟩ (hgood m t rfl hunset)
      | some w =>
        exact ⟨_, ⟨m, t, v, w, hv, hw, hunset⟩, by rw [record_update, (limitOf_spec hw).1]⟩
  · rintro ⟨fs', ⟨m, t, v, w, hv, hw, hunset⟩, rfl⟩
    rw [setDLimitField_option, record_update, ← (limitOf_spec hw).1]
    exact ⟨(get_eq_keep_iff hk m).2 hunset, v, hv, rfl⟩

/-- Another number is stored, too. -/
theorem setDLimitField_unstorable {fs : Fields} (hk : NoKeep fs) {m : Member} {t : Text}
    (hunset : fs m = none) (hbad : Unstorable t) :
    (∃ limit, setDLimitField fs.record (option m t) = .ok limit) ∧
      ¬ ∃ fs', Assigns fs (option m t) fs' := by
  obtain ⟨v, hv, hw⟩ := hbad
  constructor
  · exact ⟨_, (setDLimitField_option _ m t _).2 ⟨(get_eq_keep_iff hk m).2 hunset, v, hv, rfl⟩⟩
  · rintro ⟨fs', h⟩
    generalize hopt : option m t = opt at h
    obtain ⟨m', t', v', w', hv', hw', hunset'⟩ := h
    obtain ⟨rfl, rfl⟩ := option_inj hopt
    rw [hv] at hv'
    cases hv'
    rw [hw] at hw'
    cases hw'

/-! ## The command line -/

theorem setAll_concat (limit : Limits) (os : List Text) (o : Text) (l : Limits) :
    setAll limit (os ++ [o]) = .ok l ↔
      ∃ l', setAll limit os = .ok l' ∧ setDLimitField l' o = .ok l := by
  induction os generalizing limit with
  | nil =>
    simp only [List.nil_append, setAll]
    cases h : setDLimitField limit o with
    | error e => simp [bind, Except.bind, h]
    | ok l' => simp [bind, Except.bind, h]
  | cons p os ih =>
    simp only [List.cons_append, setAll]
    cases setDLimitField limit p with
    | error e => simp [bind, Except.bind]
    | ok l' => exact ih l'

theorem assignsAll_concat {fs fs'' : Fields} {os : List Text} {o : Text} :
    AssignsAll fs (os ++ [o]) fs'' ↔ ∃ fs', AssignsAll fs os fs' ∧ Assigns fs' o fs'' := by
  induction os generalizing fs with
  | nil =>
    constructor
    · rintro (_ | ⟨h, _ | _⟩)
      exact ⟨fs, .nil fs, h⟩
    · rintro ⟨fs', _ | _, h⟩
      exact .cons h (.nil fs'')
  | cons p os ih =>
    constructor
    · rintro (_ | ⟨hp, hs⟩)
      obtain ⟨fs', hos, ho⟩ := ih.1 hs
      exact ⟨fs', .cons hp hos, ho⟩
    · rintro ⟨fs', _ | ⟨hp, hos⟩, ho⟩
      exact .cons hp (ih.2 ⟨fs', hos, ho⟩)

theorem noKeep_unset : NoKeep unset := fun _ h => by cases h

/-- **The assignments are done as they are meant unless a field that is not set yet is given a
number that can not be stored.** -/
theorem setDLimitField_exact (opts : List Text) : SetsAsMeant opts ↔ AllStorable opts := by
  constructor
  · rintro h os m t rest rfl ⟨fs, hos, hunset⟩ hbad
    have hk : NoKeep fs := hos.noKeep noKeep_unset
    obtain ⟨⟨limit, hset⟩, hno⟩ := setDLimitField_unstorable hk hunset hbad
    have hfront : setAll keepAll os = .ok fs.record :=
      (h os (List.prefix_append _ _) _).2 ⟨fs, hos, rfl⟩
    have hpre : os ++ [option m t] <+: os ++ option m t :: rest := ⟨rest, by simp⟩
    have hrun := (setAll_concat keepAll os (option m t) limit).2 ⟨_, hfront, hset⟩
    obtain ⟨fs'', hall, -⟩ := (h _ hpre limit).1 hrun
    obtain ⟨fs', hos', hlast⟩ := assignsAll_concat.1 hall
    cases hos.unique hos'
    exact hno ⟨fs'', hlast⟩
  · intro h os
    -- the fields behind the prefix are those of the record, and none of them is "keep"
    induction os using List.reverseRecOn with
    | nil =>
      intro _ limit
      constructor
      · intro hrun
        cases hrun
        exact ⟨unset, .nil unset, rfl⟩
      · rintro ⟨fs, _ | _, rfl⟩
        rfl
    | append_singleton os o ih =>
      rintro ⟨rest, rfl⟩ limit
      have hih := ih ⟨[o] ++ rest, by simp⟩
      rw [setAll_concat]
      have hgood : ∀ fs, AssignsAll unset os fs → ∀ m t, o = option m t → fs m = none →
          ¬ Unstorable t := by
        rintro fs hos m t rfl hunset
        exact h os m t rest (by simp) ⟨fs, hos, hunset⟩
      constructor
      · rintro ⟨l', hrun, hset⟩
        obtain ⟨fs, hos, rfl⟩ := (hih l').1 hrun
        obtain ⟨fs', ho, rfl⟩ :=
          (setDLimitField_iff (hos.noKeep noKeep_unset) (hgood fs hos) limit).1 hset
        exact ⟨fs', assignsAll_concat.2 ⟨fs, hos, ho⟩, rfl⟩
      · rintro ⟨fs', hall, rfl⟩
        obtain ⟨fs, hos, ho⟩ := assignsAll_concat.1 hall
        refine ⟨fs.record, (hih _).2 ⟨fs, hos, rfl⟩, ?_⟩
        exact (setDLimitField_iff (hos.noKeep noKeep_unset) (hgood fs hos) _).2 ⟨fs', ho, rfl⟩

/-- `--set space_used=4294967296` stores 0. -/
theorem setDLimitField_wrong : ¬ SetsAsMeant ["space_used=4294967296".toList] := by
  intro h
  have hrun : setAll keepAll ["space_used=4294967296".toList] =
      .ok { keepAll with space_used := 0#32 } := by rfl
  obtain ⟨fs, hall, -⟩ := (h _ (List.prefix_refl _) _).1 hrun
  have hone : ["space_used=4294967296".toList] = [] ++ ["space_used=4294967296".toList] := rfl
  rw [hone] at hall
  obtain ⟨fs', _ | _, ho⟩ := assignsAll_concat.1 hall
  have hbad : Unstorable "4294967296".toList := ⟨4294967296, by decide, by decide⟩
  exact (setDLimitField_unstorable noKeep_unset (m := .space_used) rfl hbad).2 ⟨fs, ho⟩

/-! ## Printed limits -/

theorem denotes_writeInt (w : Word) :
    denotes (writeInt w) = some (if w = VC_CDLIM_INFINITY then -1 else (w.toNat : Int)) := by
  unfold writeInt denotes
  split
  · decide
  · have hnum := decimal_cNumeral w.toNat
    rw [signedNumeral_of_plainStart (plainStart_of_cNumeral hnum), hnum]
    rfl

/-- **A number that is printed can be assigned again.** -/
theorem set_writeInt {dst : Limits} {m : Member} (hkeep : dst.get m = VC_CDLIM_KEEP) (w : Word) :
    setDLimitField dst (option m (writeInt w)) = .ok (dst.set m w) := by
  refine (setDLimitField_option dst m _ _).2 ⟨hkeep, _, denotes_writeInt w, ?_⟩
  split
  · rename_i hinf
    rw [hinf]
    rfl
  · have hlt : w.toNat < 2 ^ (64 - 1) := by omega
    rw [clamp_of_lt hlt, BitVec.ofInt_natCast, BitVec.ofNat_toNat, BitVec.setWidth_eq]

end Vdlimit
