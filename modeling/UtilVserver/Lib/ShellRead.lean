import Mathlib.Data.List.TakeWhile

/-!
# The `read` of a shell

`read` takes a record up to a newline and splits it into words at blanks, the last variable getting
all that is left.  Without `-r` a backslash takes the next character as it is and a backslash
before a newline goes on with the next line.

* `records` — the records of a text; what stands behind the last newline is no record.
* `marks` — the characters of a record, each with whether a backslash stood before it.
* `readThree` — the values of three variables.

Principal results: `records_line` (a closed line is a record) and `readThree_words` (the variables
for a record with two words and something behind them).
-/

set_option autoImplicit false

namespace ShellRead

/-- A character, and whether it was behind a backslash. -/
abbrev Mark := Char × Bool

/-- The records of a text, behind the characters `acc` of the first one and perhaps a backslash; NUL
characters are dropped. -/
def records (raw : Bool) : Bool → List Mark → List Char → List (List Mark)
  | _, _, [] => []
  | true, acc, c :: t =>
    if c = '\n' then records raw false acc t else records raw false (acc ++ [(c, true)]) t
  | false, acc, c :: t =>
    if c = '\n' then acc :: records raw false [] t
    else if c = '\\' ∧ raw = false then records raw true acc t
    else if c = '\x00' then records raw false acc t
    else records raw false (acc ++ [(c, false)]) t

/-- The characters of a line, perhaps behind a backslash. -/
def marks (raw : Bool) : Bool → List Char → List Mark
  | _, [] => []
  | true, c :: t => (c, true) :: marks raw false t
  | false, c :: t =>
    if c = '\\' ∧ raw = false then marks raw true t else (c, false) :: marks raw false t

/-- Whether a backslash is open at the end of a line. -/
def ends (raw : Bool) : Bool → List Char → Bool
  | esc, [] => esc
  | true, _ :: t => ends raw false t
  | false, c :: t => if c = '\\' ∧ raw = false then ends raw true t else ends raw false t

/-- A blank that separates words. -/
def isIfs (m : Mark) : Bool := !m.2 && (m.1 == ' ' || m.1 == '\t' || m.1 == '\n')

/-- The separators among the characters of a text that stand for themselves. -/
theorem isIfs_of_mem_map {t : List Char} {b : Bool} (h : ∀ c ∈ t, isIfs (c, false) = b) :
    ∀ m ∈ t.map (·, false), isIfs m = b := by
  intro m hm
  obtain ⟨c, hc, rfl⟩ := List.mem_map.1 hm
  exact h c hc

/-- The first word, and what follows it. -/
def word (r : List Mark) : List Mark × List Mark :=
  let r := r.dropWhile isIfs
  (r.takeWhile fun m => !isIfs m, r.dropWhile fun m => !isIfs m)

/-- What is left for the last variable. -/
def remainder (r : List Mark) : List Mark := ((r.dropWhile isIfs).reverse.dropWhile isIfs).reverse

/-- `read a b c`. -/
def readThree (r : List Mark) : List Char × List Char × List Char :=
  let a := word r
  let b := word a.2
  (a.1.map Prod.fst, b.1.map Prod.fst, (remainder b.2).map Prod.fst)

/-! ## Records -/

/-- **A closed line is a record.** -/
theorem records_line {raw : Bool} : ∀ {line : List Char} (esc : Bool) (acc : List Mark)
    (t : List Char), '\n' ∉ line → '\x00' ∉ line → ends raw esc line = false →
    records raw esc acc (line ++ '\n' :: t) = (acc ++ marks raw esc line) :: records raw false [] t
  | [], esc, acc, t, _, _, hends => by
    cases esc with
    | false => simp [records, marks]
    | true => cases hends
  | c :: line, esc, acc, t, hnl, hnul, hends => by
    have hc : c ≠ '\n' := fun h => hnl (h ▸ List.mem_cons_self)
    have hc' : c ≠ '\x00' := fun h => hnul (h ▸ List.mem_cons_self)
    have ih := fun esc acc => @records_line raw line esc acc t
      (fun h => hnl (List.mem_cons_of_mem _ h)) (fun h => hnul (List.mem_cons_of_mem _ h))
    rw [List.cons_append]
    cases esc with
    | true =>
      rw [records, if_neg hc, ih false _ hends, marks, List.append_assoc, List.singleton_append]
    | false =>
      rw [records, if_neg hc, marks]
      rw [ends] at hends
      by_cases hesc : c = '\\' ∧ raw = false
      · rw [if_pos hesc] at hends ⊢
        rw [if_pos hesc, ih true acc hends]
      · rw [if_neg hesc] at hends ⊢
        rw [if_neg hc', if_neg hesc, ih false _ hends, List.append_assoc, List.singleton_append]

/-- Without a newline nothing is read. -/
theorem records_of_not_mem {raw : Bool} : ∀ {line : List Char} (esc : Bool) (acc : List Mark),
    '\n' ∉ line → records raw esc acc line = []
  | [], esc, acc, _ => by cases esc <;> rfl
  | c :: line, esc, acc, hnl => by
    have hc : c ≠ '\n' := fun h => hnl (h ▸ List.mem_cons_self)
    have ih := fun esc acc => @records_of_not_mem raw line esc acc
      (fun h => hnl (List.mem_cons_of_mem _ h))
    cases esc with
    | true => rw [records, if_neg hc, ih]
    | false =>
      rw [records, if_neg hc]
      split
      · exact ih _ _
      · split
        · exact ih _ _
        · exact ih _ _

/-- Closed lines are read one by one. -/
theorem records_lines {raw : Bool} : ∀ {ls : List (List Char)},
    (∀ l ∈ ls, '\n' ∉ l ∧ '\x00' ∉ l ∧ ends raw false l = false) →
    records raw false [] (ls.flatMap fun l => l ++ ['\n']) = ls.map (marks raw false)
  | [], _ => rfl
  | l :: ls, h => by
    obtain ⟨hnl, hnul, hends⟩ := h l List.mem_cons_self
    rw [List.flatMap_cons, List.append_assoc, List.singleton_append,
      records_line false [] _ hnl hnul hends,
      records_lines fun x hx => h x (List.mem_cons_of_mem _ hx), List.nil_append, List.map_cons]

/-- Characters that are no backslash stand for themselves. -/
theorem marks_append {raw : Bool} {p : List Char} (hp : '\\' ∉ p) (t : List Char) :
    marks raw false (p ++ t) = p.map (·, false) ++ marks raw false t := by
  induction p with
  | nil => rfl
  | cons c p ih =>
    have hc : ¬ (c = '\\' ∧ raw = false) := fun h => hp (h.1 ▸ List.mem_cons_self)
    rw [List.cons_append, marks, if_neg hc, ih fun h => hp (List.mem_cons_of_mem _ h)]
    rfl

/-- A closed text is read before what follows it. -/
theorem marks_append_closed {raw : Bool} : ∀ {p : List Char} {esc : Bool} (t : List Char),
    ends raw esc p = false →
      marks raw esc (p ++ t) = marks raw esc p ++ marks raw false t ∧
        ends raw esc (p ++ t) = ends raw false t
  | [], esc, t, h => by
    obtain rfl : esc = false := h
    exact ⟨rfl, rfl⟩
  | c :: p, true, t, h => by
    rw [ends] at h
    obtain ⟨hmarks, hends⟩ := marks_append_closed t h
    rw [List.cons_append, marks, marks, ends, hmarks, hends]
    exact ⟨rfl, rfl⟩
  | c :: p, false, t, h => by
    rw [ends] at h
    rw [List.cons_append, marks, marks, ends]
    split at h
    · rename_i hesc
      simp only [if_pos hesc]
      exact marks_append_closed t h
    · rename_i hesc
      obtain ⟨hmarks, hends⟩ := marks_append_closed t h
      simp only [if_neg hesc, hmarks, hends]
      exact ⟨rfl, trivial⟩

/-- The characters of a text that separate no words make no separators. -/
theorem isIfs_of_mem_marks {raw : Bool} {p : List Char} (h : ∀ c ∈ p, isIfs (c, false) = false) :
    ∀ {esc : Bool}, ∀ m ∈ marks raw esc p, isIfs m = false := by
  induction p with
  | nil => simp [marks]
  | cons c p ih =>
    have ih := fun {esc} => @ih (fun d hd => h d (List.mem_cons_of_mem _ hd)) esc
    intro esc m hm
    cases esc with
    | true =>
      rw [marks] at hm
      rcases List.mem_cons.1 hm with rfl | hm
      · rfl
      · exact ih m hm
    | false =>
      rw [marks] at hm
      split at hm
      · exact ih m hm
      · rcases List.mem_cons.1 hm with rfl | hm
        · exact h c List.mem_cons_self
        · exact ih m hm

/-- With `-r` all characters stand for themselves. -/
theorem marks_raw (t : List Char) : marks true false t = t.map (·, false) := by
  induction t with
  | nil => rfl
  | cons c t ih => rw [marks, if_neg (by simp), ih, List.map_cons]

theorem ends_raw (t : List Char) : ends true false t = false := by
  induction t with
  | nil => rfl
  | cons c t ih => rw [ends, if_neg (by simp), ih]

/-! ## Words -/

theorem word_append {w a r : List Mark} (hw : ∀ m ∈ w, isIfs m = true)
    (ha : ∀ m ∈ a, isIfs m = false) (hne : a ≠ []) (hr : ∀ m ∈ r.head?, isIfs m = true) :
    word (w ++ (a ++ r)) = (a, r) := by
  have hdrop : (w ++ (a ++ r)).dropWhile isIfs = a ++ r := by
    rw [List.dropWhile_append_of_pos hw]
    cases a with
    | nil => exact absurd rfl hne
    | cons m a =>
      rw [List.cons_append, List.dropWhile_cons_of_neg]
      rw [ha m List.mem_cons_self]
      exact Bool.false_ne_true
  have hnot : ∀ m ∈ a, (!isIfs m) = true := fun m hm => by rw [ha m hm]; rfl
  unfold word
  simp only
  rw [hdrop, List.takeWhile_append_of_pos hnot, List.dropWhile_append_of_pos hnot]
  cases r with
  | nil => simp
  | cons m r =>
    have hm : isIfs m = true := hr m rfl
    simp [hm]

/-- Blanks in front of a word do not matter. -/
theorem word_blanks {w : List Mark} (hw : ∀ m ∈ w, isIfs m = true) (r : List Mark) :
    word (w ++ r) = word r := by
  unfold word
  rw [List.dropWhile_append_of_pos hw]

theorem readThree_blanks {w : List Mark} (hw : ∀ m ∈ w, isIfs m = true) (r : List Mark) :
    readThree (w ++ r) = readThree r := by
  unfold readThree
  rw [word_blanks hw]

theorem mem_dropWhile_isIfs {r : List Mark} {m : Mark} (hmem : m ∈ r) (hm : isIfs m = false) :
    m ∈ r.dropWhile isIfs := by
  induction r with
  | nil => cases hmem
  | cons x r ih =>
    rw [List.dropWhile_cons]
    split
    · rename_i hx
      rcases List.mem_cons.1 hmem with rfl | hmem
      · rw [hm] at hx
        cases hx
      · exact ih hmem
    · exact hmem

/-- A character that is no blank is kept. -/
theorem mem_remainder {r : List Mark} {m : Mark} (hmem : m ∈ r) (hm : isIfs m = false) :
    m ∈ remainder r := by
  unfold remainder
  rw [List.mem_reverse]
  refine mem_dropWhile_isIfs ?_ hm
  rw [List.mem_reverse]
  exact mem_dropWhile_isIfs hmem hm

/-- **Two words and something behind them.** -/
theorem readThree_words {w a v b r : List Mark} {m : Mark}
    (hw : ∀ m ∈ w, isIfs m = true) (ha : ∀ m ∈ a, isIfs m = false) (hane : a ≠ [])
    (hv : ∀ m ∈ v, isIfs m = true) (hvne : v ≠ []) (hb : ∀ m ∈ b, isIfs m = false) (hbne : b ≠ [])
    (hr : ∀ m ∈ r.head?, isIfs m = true) (hmem : m ∈ r) (hm : isIfs m = false) :
    ∃ tmp, tmp ≠ [] ∧ readThree (w ++ (a ++ (v ++ (b ++ r)))) =
      (a.map Prod.fst, b.map Prod.fst, tmp) := by
  have hhead : ∀ m ∈ (v ++ (b ++ r)).head?, isIfs m = true := by
    intro m hm
    cases v with
    | nil => exact absurd rfl hvne
    | cons z v =>
      rw [List.cons_append, List.head?_cons, Option.mem_some_iff] at hm
      exact hv m (hm ▸ List.mem_cons_self)
  refine ⟨(remainder r).map Prod.fst, ?_, ?_⟩
  · rw [ne_eq, List.map_eq_nil_iff]
    exact List.ne_nil_of_mem (mem_remainder hmem hm)
  · unfold readThree
    rw [word_append hw ha hane hhead]
    simp only
    rw [word_append hv hb hbne hr]

end ShellRead
