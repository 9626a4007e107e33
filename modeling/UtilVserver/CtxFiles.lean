import Mathlib.Data.BitVec
import UtilVserver.Lib.Decimal

/-!
# Context ids in texts

* `getCtxFromFile` — the files `run`, `context`, ... of a vserver.
* `extractLegacyXID` — the `.ctx` file of a legacy vserver.
* `xidoptNumber` — the argument of a `--xid` option, as far as it is a number.
* `Denotes`, `ReadsRight` — a line is the numeral of an id; a reader returns no id a line does
  not denote.

Principal results: `getCtxFromFile_exact`, `extractLegacyXID_exact` and `xidoptNumber_exact`, the
exact conditions under which each of the readers is right.
-/

set_option autoImplicit false

namespace CtxFiles

open CString

abbrev Xid := BitVec 32

/-- `VC_NOCTX`, which is also `VC_NOXID`. -/
def VC_NOCTX : Xid := 0xFFFFFFFF

/-- The result of `strtol` as an xid. -/
def toXid (v : Int) : Xid := BitVec.ofInt 32 v

/-- `getCtxFromFile`; `none` is a file that can not be opened. -/
def getCtxFromFile : Option Text → Xid
  | none => VC_NOCTX
  | some content =>
    if 50 < content.length then VC_NOCTX
    else
      let n := strtol10 64 (cstr content)
      if charAt n.2 0 ≠ '\x00' ∧ charAt n.2 0 ≠ '\n' then VC_NOCTX else toXid n.1

def contextKey : Text := ['\n', 'S', '_', 'C', 'O', 'N', 'T', 'E', 'X', 'T', '=']

/-- `extractLegacyXID`; without the key a null pointer is followed, which is `none`. -/
def extractLegacyXID : Option Text → Option Xid
  | none => some VC_NOCTX
  | some content =>
    match strstr (cstr ('\n' :: content)) contextKey with
    | none => none
    | some p =>
      let pos := p.drop 11
      if '1' ≤ charAt pos 0 ∧ charAt pos 0 ≤ '9' then some (atoi pos) else some VC_NOCTX

/-- The number `vc_xidopt2xid` takes its argument for, none when it is a name. -/
def xidoptNumber (str : CStr) : Option Xid :=
  let n := strtol10 64 str.text
  if n.2.length ≠ str.text.length ∧ (charAt n.2 0 = '\x00' ∨ charAt n.2 0 = '\n') then
    some (toXid n.1)
  else none

/-- `vc_xidopt2xid`: the id and what to blame when there is none.  `task` is the context of the
process and `vserver` what is found for a name. -/
def xidopt2xid (task : Xid) (vserver : Text → Xid) (str : CStr) : Xid × String :=
  if str.text = "self".toList then (task, "vc_get_task_xid()")
  else if charAt str.text 0 = ':' then (vserver (str.text.drop 1), "vc_getVserverCtx")
  else
    match xidoptNumber str with
    | some xid => (xid, "vc_get_task_xid()")
    | none => (vserver str.text, "vc_getVserverCtx")

/-! ## What the texts mean -/

/-- The line is a decimal numeral, and `xid` is its value. -/
def Denotes (line : Text) (xid : Xid) : Prop := Numeral line ∧ digitsVal 10 line = xid.toNat

/-- An id that is returned is the one the line denotes. -/
def ReadsRight (line : Text) (xid : Xid) : Prop := xid ≠ VC_NOCTX → Denotes line xid

/-- The number scanned at the start of a line is read right: it is all of the line and small
enough, or its value happens to stand for "no context". -/
def NumberRight (line : Text) (neg : Bool) (n : Nat) : Prop :=
  Numeral line ∧ n < 2 ^ 32 ∨ clamp 64 (signed neg n) % 2 ^ 32 = 2 ^ 32 - 1

theorem toXid_noctx (v : Int) : toXid v = VC_NOCTX ↔ v % 2 ^ 32 = 2 ^ 32 - 1 := by
  rw [toXid, ← BitVec.toNat_inj, BitVec.toNat_ofInt]
  show (v % 2 ^ 32).toNat = 4294967295 ↔ _
  omega

theorem toXid_toNat (n : Nat) : (toXid (clamp 64 n)).toNat = n ↔ n < 2 ^ 32 := by
  rw [toXid, BitVec.toNat_ofInt]
  unfold clamp
  omega

/-- When a line of digits can only have been scanned as a whole. -/
theorem readsRight_iff {line : Text} {neg : Bool} {n : Nat}
    (hnumeral : Numeral line → neg = false ∧ n = digitsVal 10 line) :
    ReadsRight line (toXid (clamp 64 (signed neg n))) ↔ NumberRight line neg n := by
  have hvalue : Numeral line →
      (digitsVal 10 line = (toXid (clamp 64 (signed neg n))).toNat ↔ n < 2 ^ 32) := by
    intro hp
    obtain ⟨rfl, rfl⟩ := hnumeral hp
    rw [eq_comm]
    exact toXid_toNat _
  rw [ReadsRight, NumberRight, ne_eq, toXid_noctx, Denotes]
  constructor
  · intro h
    by_cases hw : clamp 64 (signed neg n) % 2 ^ 32 = 2 ^ 32 - 1
    · exact .inr hw
    · obtain ⟨hp, hv⟩ := h hw
      exact .inl ⟨hp, (hvalue hp).mp hv⟩
  · rintro (⟨hp, hn⟩ | hw) hne
    · exact ⟨hp, (hvalue hp).mpr hn⟩
    · exact absurd hw hne

theorem not_numeral_nil : ¬ Numeral [] := fun h => h.1 rfl

/-! ## Files -/

/-- When `getCtxFromFile` is right: the file is too long; no number is found, and the file does not
start with the end of its text or of its line either; something follows the number; or the number
is read right. -/
def FileTextRight (content : Text) : Prop :=
  50 < content.length ∨
  match scanDecimal (cstr content) with
  | none => ¬ AtEnd (cstr content)
  | some (neg, n, rest) => ¬ AtEnd rest ∨ NumberRight (firstLine content) neg n

theorem getCtxFromFile_eq (content : Text) (h : ¬ 50 < content.length) :
    getCtxFromFile (some content) =
      match scanDecimal (cstr content) with
      | none => if AtEnd (cstr content) then 0 else VC_NOCTX
      | some (neg, n, rest) =>
        if AtEnd rest then toXid (clamp 64 (signed neg n)) else VC_NOCTX := by
  have hflip : ∀ (rest : Text) (x y : Xid),
      (if charAt rest 0 ≠ '\x00' ∧ charAt rest 0 ≠ '\n' then x else y) =
        if AtEnd rest then y else x := by
    intro rest x y
    by_cases hend : AtEnd rest
    · rw [if_pos hend, if_neg]
      rintro ⟨h1, h2⟩
      exact hend.elim h1 h2
    · rw [if_neg hend, if_pos]
      exact not_or.mp hend
  rw [getCtxFromFile, if_neg h]
  simp only [hflip]
  cases hscan : scanDecimal (cstr content) with
  | none =>
    simp only [strtol10, hscan]
    rfl
  | some p => simp only [strtol10, hscan]

/-- A file with a line of digits. -/
theorem numeral_scanned {buf rest : Text} {neg : Bool} {n : Nat}
    (h : scanDecimal (cstr buf) = some (neg, n, rest)) (hp : Numeral (firstLine buf)) :
    neg = false ∧ n = digitsVal 10 (firstLine buf) := by
  obtain ⟨rest', hscan, -⟩ := scanDecimal_numeral hp
  rw [h] at hscan
  cases hscan
  exact ⟨rfl, rfl⟩

/-- **`getCtxFromFile` returns no id but the one in the file exactly if** `FileTextRight`. -/
theorem getCtxFromFile_exact (content : Text) :
    ReadsRight (firstLine content) (getCtxFromFile (some content)) ↔ FileTextRight content := by
  by_cases hlong : 50 < content.length
  · have hno : getCtxFromFile (some content) = VC_NOCTX := if_pos hlong
    rw [hno]
    exact iff_of_true (fun h => absurd rfl h) (.inl hlong)
  · rw [getCtxFromFile_eq content hlong, FileTextRight, or_iff_right hlong]
    cases hscan : scanDecimal (cstr content) with
    | none =>
      have hno : ¬ Numeral (firstLine content) := fun hp => by
        obtain ⟨rest, hs, -⟩ := scanDecimal_numeral hp
        rw [hscan] at hs
        cases hs
      by_cases hend : AtEnd (cstr content)
      · simp only [if_pos hend]
        exact iff_of_false (fun h => hno (h (by decide)).1) (not_not.mpr hend)
      · simp only [if_neg hend]
        exact iff_of_true (fun h => absurd rfl h) hend
    | some p =>
      obtain ⟨neg, n, rest⟩ := p
      by_cases hend : AtEnd rest
      · simp only [hend, not_true_eq_false, false_or, if_true]
        exact readsRight_iff (numeral_scanned hscan)
      · simp only [if_neg hend]
        exact iff_of_true (fun h => absurd rfl h) (.inl hend)

/-! ## Legacy files -/

/-- What stands behind the key in its line. -/
def legacyLine (content : Text) : Option Text :=
  (strstr ('\n' :: content) contextKey).map fun p => firstLine (p.drop 11)

/-- When `extractLegacyXID` is right: the key is there, and it is followed by something else than a
number, or by one that is read right. -/
def LegacyTextRight (content : Text) : Prop :=
  match strstr (cstr ('\n' :: content)) contextKey, legacyLine content with
  | some p, some line =>
    ¬ ('1' ≤ charAt (p.drop 11) 0 ∧ charAt (p.drop 11) 0 ≤ '9') ∨
    match scanDecimal (p.drop 11) with
    | none => False
    | some (neg, n, _) => NumberRight line neg n
  | _, _ => False

/-- The line of the key, in the string and in the file. -/
theorem legacyLine_of_found {content p : Text}
    (h : strstr (cstr ('\n' :: content)) contextKey = some p) :
    ∃ buf, legacyLine content = some (firstLine buf) ∧ cstr buf = p.drop 11 := by
  obtain ⟨r, hbuf, hr⟩ := cstr_append ('\n' :: content)
  have hfull := strstr_append h r
  rw [← hbuf] at hfull
  obtain ⟨⟨q, rfl⟩, hsuffix⟩ := strstr_some h
  refine ⟨q ++ r, ?_, ?_⟩
  · rw [legacyLine, hfull]
    rfl
  · have hq : '\x00' ∉ q := fun hmem =>
      cstr_noNul _ (hsuffix.subset (List.mem_append_right _ hmem))
    have hnil : cstr r = [] := by
      rcases hr with rfl | ⟨r', rfl⟩ <;> rfl
    rw [cstr_append_of_noNul hq, hnil, List.append_nil]
    rfl

/-- **`extractLegacyXID` follows no null pointer and returns no id but the one in the file exactly
if** `LegacyTextRight`. -/
theorem extractLegacyXID_exact (content : Text) :
    (∃ xid, extractLegacyXID (some content) = some xid ∧
      (xid ≠ VC_NOCTX → ∃ line, legacyLine content = some line ∧ Denotes line xid)) ↔
    LegacyTextRight content := by
  cases hfound : strstr (cstr ('\n' :: content)) contextKey with
  | none =>
    have hnull : extractLegacyXID (some content) = none := by
      simp only [extractLegacyXID, hfound]
    refine iff_of_false ?_ ?_
    · rintro ⟨xid, h, -⟩
      rw [hnull] at h
      cases h
    · simp only [LegacyTextRight, hfound, not_false_eq_true]
  | some p =>
    obtain ⟨buf, hline, hcstr⟩ := legacyLine_of_found hfound
    have hright : LegacyTextRight content ↔
        ¬ ('1' ≤ charAt (cstr buf) 0 ∧ charAt (cstr buf) 0 ≤ '9') ∨
        match scanDecimal (cstr buf) with
        | none => False
        | some (neg, n, _) => NumberRight (firstLine buf) neg n := by
      simp only [LegacyTextRight, hfound, hline, hcstr]
    have hresult : extractLegacyXID (some content) =
        if '1' ≤ charAt (cstr buf) 0 ∧ charAt (cstr buf) 0 ≤ '9' then some (atoi (cstr buf))
        else some VC_NOCTX := by
      simp only [extractLegacyXID, hfound, hcstr]
    rw [hright, hresult]
    by_cases hdigit : '1' ≤ charAt (cstr buf) 0 ∧ charAt (cstr buf) 0 ≤ '9'
    · rw [if_pos hdigit, or_iff_right (not_not.mpr hdigit)]
      have hreads : (∃ xid, some (atoi (cstr buf)) = some xid ∧ (xid ≠ VC_NOCTX →
          ∃ line, legacyLine content = some line ∧ Denotes line xid)) ↔
          ReadsRight (firstLine buf) (atoi (cstr buf)) := by
        simp [hline, ReadsRight]
      rw [hreads, atoi, strtol10]
      cases hscan : scanDecimal (cstr buf) with
      | none =>
        refine iff_of_false (fun h => ?_) id
        obtain ⟨rest, hs, -⟩ := scanDecimal_numeral (h (show (0 : Xid) ≠ VC_NOCTX by decide)).1
        rw [hscan] at hs
        cases hs
      | some q =>
        obtain ⟨neg, n, rest⟩ := q
        exact readsRight_iff (numeral_scanned hscan)
    · rw [if_neg hdigit]
      exact iff_of_true ⟨VC_NOCTX, rfl, fun h => absurd rfl h⟩ (.inl hdigit)

/-! ## Options -/

/-- When the number in an option is read right. -/
def OptionTextRight (str : CStr) : Prop :=
  match scanDecimal str.text with
  | none => True
  | some (neg, n, rest) => ¬ AtEnd rest ∨ NumberRight (firstLine str.text) neg n

theorem xidoptNumber_eq (str : CStr) :
    xidoptNumber str =
      match scanDecimal str.text with
      | none => none
      | some (neg, n, rest) =>
        if AtEnd rest then some (toXid (clamp 64 (signed neg n))) else none := by
  cases hscan : scanDecimal str.text with
  | none => simp [xidoptNumber, strtol10, hscan]
  | some p =>
    obtain ⟨neg, n, rest⟩ := p
    have hlt := scanDecimal_length hscan
    have hne : rest.length ≠ str.text.length := by omega
    simp only [xidoptNumber, strtol10, hscan, hne, ne_eq, not_false_eq_true, true_and]
    rfl

/-- A number is never taken for a name. -/
theorem xidopt2xid_number (task : Xid) (vserver : Text → Xid) {str : CStr} {xid : Xid}
    (h : xidoptNumber str = some xid) : (xidopt2xid task vserver str).1 = xid := by
  have hname : ∀ name, scanDecimal name = none → str.text ≠ name := by
    intro name hnone heq
    rw [xidoptNumber_eq, heq, hnone] at h
    cases h
  have hself : str.text ≠ "self".toList := hname _ (by decide)
  have hcolon : charAt str.text 0 ≠ ':' := by
    intro hc
    cases htext : str.text with
    | nil =>
      rw [htext] at hc
      exact absurd hc (by decide)
    | cons c r =>
      rw [htext, charAt_cons_zero] at hc
      subst hc
      exact hname (':' :: r) rfl htext
  rw [xidopt2xid, if_neg hself, if_neg hcolon, h]

/-- **The numeric path of `vc_xidopt2xid` returns no id but the one in the option exactly if**
`OptionTextRight`. -/
theorem xidoptNumber_exact (str : CStr) :
    (∀ xid, xidoptNumber str = some xid → ReadsRight (firstLine str.text) xid) ↔
      OptionTextRight str := by
  have hself := cstr_eq_self str.noNul
  rw [xidoptNumber_eq, OptionTextRight]
  cases hscan : scanDecimal str.text with
  | none => simp
  | some p =>
    obtain ⟨neg, n, rest⟩ := p
    by_cases hend : AtEnd rest
    · simp only [hend, if_true, Option.some.injEq, forall_eq', not_true_eq_false, false_or]
      exact readsRight_iff (numeral_scanned (hself.symm ▸ hscan))
    · simp [hend]

/-- **All three readers**, each with the condition under which it never misreads a text. -/
theorem readers_exact (content : Text) (task : Xid) (vserver : Text → Xid) (str : CStr) :
    (ReadsRight (firstLine content) (getCtxFromFile (some content)) ↔ FileTextRight content) ∧
    ((∃ xid, extractLegacyXID (some content) = some xid ∧
      (xid ≠ VC_NOCTX → ∃ line, legacyLine content = some line ∧ Denotes line xid)) ↔
      LegacyTextRight content) ∧
    (((xidoptNumber str).isSome →
      ReadsRight (firstLine str.text) (xidopt2xid task vserver str).1) ↔ OptionTextRight str) := by
  refine ⟨getCtxFromFile_exact content, extractLegacyXID_exact content, ?_⟩
  rw [← xidoptNumber_exact]
  constructor
  · intro h xid hxid
    have hread := h (by rw [hxid]; rfl)
    rwa [xidopt2xid_number task vserver hxid] at hread
  · intro h hsome
    obtain ⟨xid, hxid⟩ := Option.isSome_iff_exists.mp hsome
    rw [xidopt2xid_number task vserver hxid]
    exact h xid hxid

/-- `2^32` and a very small number are the host context, a file without the key is a fault. -/
theorem readers_wrong :
    (xidopt2xid 0 (fun _ => VC_NOCTX) ⟨"4294967296".toList, by decide⟩).1 = 0 ∧
    getCtxFromFile (some []) = 0 ∧
    getCtxFromFile (some "-9223372036854775808".toList) = 0 ∧
    extractLegacyXID (some "ONBOOT=yes\n".toList) = none ∧
    ¬ ∀ content, ReadsRight (firstLine content) (getCtxFromFile (some content)) := by
  refine ⟨by decide +kernel, by decide +kernel, by decide +kernel, by decide +kernel, fun h => ?_⟩
  exact not_numeral_nil (h [] (by decide)).1

end CtxFiles
