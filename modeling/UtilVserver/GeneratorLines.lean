import Mathlib.Data.List.DropRight
import UtilVserver.Lib.Calls
import UtilVserver.Lib.CString

/-!
# `read_file` of the systemd generator (`systemd/systemd-vserver-generator.c`)

The marks and the dependencies of a vserver are read out of mapped files, which have no terminator.

* `lines` — the walk over the mapped content; none when it looks at what is not mapped.
* `read_file` — the file with its checks.
* `keptLines` — the trimmed lines that are neither empty nor a comment.

Principal result: `read_file_delivers`.
-/

set_option autoImplicit false

namespace GeneratorLines

open CString Calls

/-- What stands from the end of the line on. -/
def endOfLine (ptr : Text) : Text := ptr.dropWhile (· != '\n')

/-- The line without the blanks at its end. -/
def trimmed (ptr : Text) : Text := (ptr.takeWhile (· != '\n')).rdropWhile isspace

theorem endOfLine_length_lt {p ptr : Text} (hp : p = ptr.dropWhile isspace) (hne : p ≠ []) :
    (endOfLine p).length < ptr.length := by
  have hle := (List.dropWhile_suffix (p := isspace) (l := ptr)).length_le
  cases p with
  | nil => exact absurd rfl hne
  | cons c t =>
    have hc := List.head_dropWhile_not isspace (l := ptr) (by simp [← hp])
    simp only [← hp, List.head_cons] at hc
    have hnl : (c != '\n') = true := by
      rw [bne_iff_ne]
      rintro rfl
      exact absurd hc (by decide)
    have ht := (List.dropWhile_suffix (p := (· != '\n')) (l := t)).length_le
    rw [endOfLine, List.dropWhile_cons, if_pos hnl]
    rw [← hp, List.length_cons] at hle
    omega

/-- The loop over the lines of what is mapped.  Behind the blanks it looks at a byte, which there
may not be. -/
def lines {σ : Type} (handler : Text → σ → Bool × σ) (ptr : Text) (data : σ) : Option (Bool × σ) :=
  if ptr = [] then some (true, data)
  else
    let p := ptr.dropWhile isspace
    if _h : p = [] then none
    else if charAt p 0 = '#' then lines handler (endOfLine p) data
    else
      match handler (trimmed p) data with
      | (false, data) => some (false, data)
      | (true, data) => lines handler (endOfLine p) data
termination_by ptr.length
decreasing_by
  · exact endOfLine_length_lt rfl _h
  · exact endOfLine_length_lt rfl _h

/-- What `read_file` finds under the name. -/
inductive File where
  | missing
  | special
  | unreadable
  | regular (content : Text)

/-- `read_file`.  An empty file can not be mapped. -/
def read_file {σ : Type} (file : File) (handler : Text → σ → Bool × σ) (data : σ) :
    Option (Bool × σ) :=
  match file with
  | .missing => some (true, data)
  | .special => some (false, data)
  | .unreadable => some (false, data)
  | .regular [] => some (false, data)
  | .regular content => lines handler content data

/-! ## The lines -/

/-- A line without the blanks around it. -/
def trim (line : Text) : Text := (line.dropWhile isspace).rdropWhile isspace

/-- The trimmed lines that are neither empty nor a comment. -/
def keptLines (content : Text) : List Text :=
  ((content.splitOn '\n').map trim).filter fun l => l != [] && charAt l 0 != '#'

/-- What stands behind the last newline. -/
def lastLine (content : Text) : Text := ((content.splitOn '\n').getLast?).getD []

/-- The last line is not blank. -/
def Solid (content : Text) : Prop := ∃ c ∈ lastLine content, isspace c = false

theorem keptLines_line {line : Text} (h : '\n' ∉ line) (r : Text) :
    keptLines (line ++ '\n' :: r) =
      (if trim line != [] && charAt (trim line) 0 != '#' then [trim line] else []) ++
        keptLines r := by
  rw [keptLines, List.splitOn_append_cons_self_of_not_mem h, List.map_cons, List.filter_cons]
  split
  · rfl
  · rfl

theorem keptLines_last {line : Text} (h : '\n' ∉ line) :
    keptLines line = if trim line != [] && charAt (trim line) 0 != '#' then [trim line] else [] := by
  rw [keptLines, List.splitOn_eq_singleton h, List.map_singleton, List.filter_cons]
  rfl

theorem lastLine_line {line : Text} (h : '\n' ∉ line) (r : Text) :
    lastLine (line ++ '\n' :: r) = lastLine r := by
  rw [lastLine, List.splitOn_append_cons_self_of_not_mem h, lastLine]
  obtain ⟨x, xs, hx⟩ := List.exists_cons_of_ne_nil (List.splitOn_ne_nil '\n' r)
  rw [hx, List.getLast?_cons_cons]

theorem lastLine_last {line : Text} (h : '\n' ∉ line) : lastLine line = line := by
  rw [lastLine, List.splitOn_eq_singleton h]
  rfl

theorem trim_cons {c : Char} (hc : isspace c = true) (line : Text) : trim (c :: line) = trim line := by
  rw [trim, List.dropWhile_cons, if_pos hc, trim]

/-- Blanks in front of a text, newlines among them, change nothing. -/
theorem blank_cons {c : Char} (hc : isspace c = true) (t : Text) :
    keptLines (c :: t) = keptLines t ∧ (Solid (c :: t) ↔ Solid t) := by
  by_cases hnl : c = '\n'
  · subst hnl
    have hline := @keptLines_line [] List.not_mem_nil t
    have hlast := @lastLine_line [] List.not_mem_nil t
    rw [List.nil_append] at hline hlast
    refine ⟨?_, by rw [Solid, hlast, Solid]⟩
    rw [hline]
    rfl
  · have hne : ∀ {line : Text}, '\n' ∉ line → '\n' ∉ c :: line := fun h hm =>
      (List.mem_cons.1 hm).elim (fun heq => hnl heq.symm) h
    rcases strchr_cases t '\n' with h | ⟨line, r, h, rfl⟩
    · rw [keptLines_last (hne h), keptLines_last h, trim_cons hc, Solid, lastLine_last (hne h), Solid,
        lastLine_last h]
      simp [hc]
    · rw [← List.cons_append, keptLines_line (hne h), keptLines_line h, trim_cons hc, Solid,
        lastLine_line (hne h), Solid, lastLine_line h]
      simp

theorem blank_dropWhile (t : Text) :
    keptLines (t.dropWhile isspace) = keptLines t ∧ (Solid (t.dropWhile isspace) ↔ Solid t) := by
  induction t with
  | nil => exact ⟨rfl, Iff.rfl⟩
  | cons c t ih =>
    rw [List.dropWhile_cons]
    split
    · rename_i hc
      obtain ⟨h1, h2⟩ := blank_cons hc t
      exact ⟨ih.1.trans h1.symm, ih.2.trans h2.symm⟩
    · exact ⟨rfl, Iff.rfl⟩

theorem not_solid_nil : ¬ Solid [] := by
  rintro ⟨c, hc, -⟩
  exact absurd hc List.not_mem_nil

theorem keptLines_nil : keptLines [] = [] := rfl

/-! ## The walk -/

/-- A line that begins with no blank, as it is trimmed. -/
theorem trim_ne_nil {c : Char} {line : Text} (hc : isspace c = false) :
    trim (c :: line) = (c :: line).rdropWhile isspace ∧ trim (c :: line) ≠ [] ∧
      charAt (trim (c :: line)) 0 = c := by
  have htrim : trim (c :: line) = (c :: line).rdropWhile isspace := by
    rw [trim, List.dropWhile_cons, if_neg (by rw [hc]; decide)]
  have hne : (c :: line).rdropWhile isspace ≠ [] := by
    rw [ne_eq, List.rdropWhile_eq_nil_iff]
    intro h
    have := h c List.mem_cons_self
    rw [hc] at this
    cases this
  refine ⟨htrim, htrim ▸ hne, ?_⟩
  rw [htrim]
  obtain ⟨u, hu⟩ := List.rdropWhile_prefix isspace (l := c :: line)
  cases hr : (c :: line).rdropWhile isspace with
  | nil => exact absurd hr hne
  | cons d t =>
    rw [hr, List.cons_append] at hu
    exact (List.cons.inj hu).1

/-- **One line of the walk.** -/
theorem line_spec {c : Char} {t : Text} (hc : isspace c = false) :
    keptLines (c :: t) = (if c = '#' then [] else [trimmed (c :: t)]) ++
        keptLines (endOfLine (c :: t)) ∧
      (Solid (c :: t) ↔ endOfLine (c :: t) = [] ∨ Solid (endOfLine (c :: t))) := by
  have hnl : c ≠ '\n' := by
    rintro rfl
    exact absurd hc (by decide)
  have hkeep : ∀ line : Text, (trim (c :: line) != [] && charAt (trim (c :: line)) 0 != '#') =
      !decide (c = '#') := by
    intro line
    obtain ⟨-, hne, hhead⟩ := @trim_ne_nil c line hc
    rw [bne_iff_ne.2 hne, hhead, Bool.true_and]
    by_cases hhash : c = '#' <;> simp [hhash]
  have hif : ∀ x : Text, (if (!decide (c = '#')) = true then [x] else []) =
      if c = '#' then [] else [x] := by
    intro x
    by_cases hhash : c = '#' <;> simp [hhash]
  have hne : ∀ {line : Text}, '\n' ∉ line → '\n' ∉ c :: line := fun h hm =>
    (List.mem_cons.1 hm).elim (fun heq => hnl heq.symm) h
  rcases strchr_cases t '\n' with h | ⟨line, r, h, rfl⟩
  · have hend : endOfLine (c :: t) = [] := List.dropWhile_eq_nil_iff.2 (bne_of_not_mem (hne h))
    have htrim : trimmed (c :: t) = trim (c :: t) := by
      rw [trimmed, takeWhile_bne (hne h), (trim_ne_nil hc).1]
    refine ⟨?_, iff_of_true ?_ (Or.inl hend)⟩
    · rw [keptLines_last (hne h), hkeep, hif, hend, keptLines_nil, List.append_nil, htrim]
    · rw [Solid, lastLine_last (hne h)]
      exact ⟨c, List.mem_cons_self, hc⟩
  · rw [← List.cons_append]
    have hend : endOfLine ((c :: line) ++ '\n' :: r) = '\n' :: r := by
      rw [endOfLine, List.dropWhile_append_of_pos (bne_of_not_mem (hne h))]
      rfl
    have htrim : trimmed ((c :: line) ++ '\n' :: r) = trim (c :: line) := by
      rw [trimmed, takeWhile_bne_stop (hne h), (trim_ne_nil hc).1]
    obtain ⟨hkept, hsolid⟩ := blank_cons (c := '\n') (by decide) r
    refine ⟨?_, ?_⟩
    · rw [keptLines_line (hne h), hkeep, hif, hend, htrim, hkept]
    · rw [hend, hsolid, Solid, lastLine_line (hne h), Solid]
      simp

theorem lines_nil {σ : Type} (handler : Text → σ → Bool × σ) (data : σ) :
    lines handler [] data = some (true, data) := by
  rw [lines, if_pos rfl]

/-- A text behind its blanks. -/
theorem dropWhile_cases (ptr : Text) :
    ptr.dropWhile isspace = [] ∨ ∃ c t, ptr.dropWhile isspace = c :: t ∧ isspace c = false := by
  cases h : ptr.dropWhile isspace with
  | nil => exact Or.inl rfl
  | cons c t =>
    have hc := List.head_dropWhile_not isspace (l := ptr) (by simp [h])
    simp only [h, List.head_cons] at hc
    exact Or.inr ⟨c, t, rfl, hc⟩

/-- **A content whose last line is not blank** is walked through line by line. -/
theorem lines_of_solid {σ : Type} (handler : Text → σ → Bool × σ) (ptr : Text) (data : σ)
    (h : Solid ptr) : lines handler ptr data = some (callAll handler (keptLines ptr) data) := by
  induction hn : ptr.length using Nat.strong_induction_on generalizing ptr data with
  | _ n ih =>
    subst hn
    obtain ⟨hkept, hsolid⟩ := blank_dropWhile ptr
    have hptr : ptr ≠ [] := fun hnil => not_solid_nil (hnil ▸ h)
    rw [lines, if_neg hptr, ← hkept]
    obtain hnil | ⟨c, t, hp, hc⟩ := dropWhile_cases ptr
    · rw [← hsolid, hnil] at h
      exact absurd h not_solid_nil
    · have hlt := endOfLine_length_lt hp.symm (List.cons_ne_nil c t)
      rw [← hsolid, hp] at h
      obtain ⟨hline, hrest⟩ := @line_spec c t hc
      have hnext : ∀ data, lines handler (endOfLine (c :: t)) data =
          some (callAll handler (keptLines (endOfLine (c :: t))) data) := by
        intro data
        obtain hend | hend := hrest.1 h
        · rw [hend, lines_nil]
          rfl
        · exact ih _ hlt _ data hend rfl
      simp only [hp, hnext, hline]
      rw [dif_neg (List.cons_ne_nil c t), charAt_cons_zero]
      by_cases hhash : c = '#'
      · rw [if_pos hhash, if_pos hhash, List.nil_append]
      · rw [if_neg hhash, if_neg hhash, List.singleton_append, callAll]
        split
        · rename_i hcall
          rw [hcall]
        · rename_i hcall
          rw [hcall]

/-- **A blank last line** leads behind the end. -/
theorem lines_of_not_solid (ptr : Text) (hne : ptr ≠ []) (h : ¬ Solid ptr) :
    lines (fun _ (_ : Unit) => (true, ())) ptr () = none := by
  induction hn : ptr.length using Nat.strong_induction_on generalizing ptr with
  | _ n ih =>
    subst hn
    obtain ⟨-, hsolid⟩ := blank_dropWhile ptr
    rw [lines, if_neg hne]
    obtain hnil | ⟨c, t, hp, hc⟩ := dropWhile_cases ptr
    · rw [hnil]
      rfl
    · have hlt := endOfLine_length_lt hp.symm (List.cons_ne_nil c t)
      rw [← hsolid, hp] at h
      obtain ⟨hend, hrest⟩ := not_or.1 (mt (line_spec hc).2.2 h)
      have hnext := ih _ hlt _ hend hrest rfl
      simp only [hp, hnext]
      rw [dif_neg (List.cons_ne_nil c t)]
      split <;> rfl

/-- The file is read through without a look behind its end, and a handler that takes no notice of
empty lines is called on the trimmed lines that are neither empty nor a comment, in order, as long
as it accepts them. -/
def Delivers (content : Text) : Prop :=
  ∀ (σ : Type) (handler : Text → σ → Bool × σ) (data : σ), (∀ d, handler [] d = (true, d)) →
    read_file (.regular content) handler data = some (callAll handler (keptLines content) data)

/-- **Which files are read as they should be**: those whose last line is not blank. -/
theorem read_file_delivers (content : Text) : Delivers content ↔ Solid content := by
  constructor
  · intro h
    have hrun := h Unit (fun _ _ => (true, ())) () fun _ => rfl
    by_contra hno
    cases content with
    | nil => cases hrun
    | cons c t =>
      have hcode : read_file (.regular (c :: t)) (fun _ (_ : Unit) => (true, ())) () =
          lines (fun _ (_ : Unit) => (true, ())) (c :: t) () := rfl
      rw [hcode, lines_of_not_solid (c :: t) (List.cons_ne_nil c t) hno] at hrun
      cases hrun
  · intro h σ handler data _
    cases content with
    | nil => exact absurd h not_solid_nil
    | cons c t => exact lines_of_solid handler (c :: t) data h

/-- A newline at the end is enough. -/
theorem read_file_newline : ¬ Delivers "mark\n".toList := by
  intro h
  have hrun := h Unit (fun _ _ => (true, ())) () fun _ => rfl
  have hnone : lines (fun _ (_ : Unit) => (true, ())) "mark\n".toList () = none := by
    apply lines_of_not_solid
    · decide +kernel
    · have hlast : lastLine "mark\n".toList = [] := by decide +kernel
      rintro ⟨c, hc, -⟩
      rw [hlast] at hc
      exact absurd hc List.not_mem_nil
  have hcode : read_file (.regular "mark\n".toList) (fun _ (_ : Unit) => (true, ())) () =
      lines (fun _ (_ : Unit) => (true, ())) "mark\n".toList () := rfl
  rw [hcode, hnone] at hrun
  cases hrun

end GeneratorLines
