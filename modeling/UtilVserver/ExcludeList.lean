import Mathlib.Data.List.DropRight
import UtilVserver.Lib.Decimal
import UtilVserver.MatchList

/-!
# Exclude lists (`lib_internal/matchlist-initmanually.c`)

The lines of an exclude file become the items of a match list.  The file is read into a buffer, in
which the ends of the lines are overwritten.

* `readExcludeListFD` — the texts that are kept.
* `readItems` — the items that are made of them.
* `lineItems` — an item for each line that is neither empty nor a comment.

Principal result: `readItems_lossless`.
-/

set_option autoImplicit false

namespace ExcludeList

open CString MatchLists

/-- The inner loop: `tmp` goes back over blanks, but not over the first character. -/
def back (ptr : Text) : Nat → Nat
  | 0 => 0
  | tmp + 1 => if charAt ptr (tmp + 1) = ' ' then back ptr tmp else tmp + 1

/-- The text that is left of a line, which ends behind `len` characters.  It is dropped when `tmp`
does not stay behind its first character. -/
def file (ptr : Text) (len : Nat) : List Text :=
  if charAt ptr 0 = '#' then []
  else
    match len with
    | 0 => []
    | end_ptr + 1 => if 0 < back ptr end_ptr then [ptr.take (back ptr end_ptr + 1)] else []

theorem strchr_tail_length {ptr e : Text} (h : strchr ptr '\n' = some e) :
    e.tail.length < ptr.length := by
  obtain ⟨t, r, -, rfl, rfl⟩ := strchr_some h
  simp only [List.tail_cons, List.length_append, List.length_cons]
  omega

/-- The loop over the lines.  It ends at a line without a newline. -/
def walk (ptr : Text) : List Text :=
  if ptr = [] then []
  else
    match _h : strchr ptr '\n' with
    | none => []
    | some end_ptr => file ptr (ptr.length - end_ptr.length) ++ walk end_ptr.tail
termination_by ptr.length
decreasing_by exact strchr_tail_length _h

/-- `readExcludeListFD` for a file with this content. -/
def readExcludeListFD (content : Text) : List Text := walk (cstr content)

/-- The items of an exclude file. -/
def readItems (fnmatch : Text → Text → Int) (content : Text) : List MatchItem :=
  (readExcludeListFD content).map (itemOfFile fnmatch true)

/-! ## The lines -/

/-- A line without the blanks at its end. -/
def trimEnd (line : Text) : Text := line.rdropWhile (· == ' ')

/-- The line counts: it is neither empty nor a comment. -/
def Counts (line : Text) : Prop := line ≠ [] ∧ charAt line 0 ≠ '#'

instance (line : Text) : Decidable (Counts line) := inferInstanceAs (Decidable (_ ∧ _))

/-- The type that a prefix stands for. -/
def typeOf (line : Text) : MatchType :=
  match line.head? with
  | some '+' => .stINCLUDE
  | some '~' => .stSKIP
  | _ => .stEXCLUDE

/-- The line without its prefix. -/
def patternOf (line : Text) : Text :=
  match line with
  | '+' :: pattern => pattern
  | '-' :: pattern => pattern
  | '~' :: pattern => pattern
  | pattern => pattern

/-- The lines that count, without the blanks at their ends. -/
def keptLines (lines : List Text) : List Text := (lines.filter fun l => Counts l).map trimEnd

/-- **An item for each line that counts**. -/
def lineItems (fnmatch : Text → Text → Int) (content : Text) : List MatchItem :=
  (keptLines (content.splitOn '\n')).map fun line => ⟨typeOf line, patternOf line, some fnmatch⟩

theorem itemOfFile_eq (fnmatch : Text → Text → Int) (line : Text) :
    itemOfFile fnmatch true line = ⟨typeOf line, patternOf line, some fnmatch⟩ := by
  unfold itemOfFile typeOf patternOf
  rw [if_pos rfl]
  cases line with
  | nil => rfl
  | cons c t =>
    by_cases hp : c = '+'
    · subst hp; rfl
    · by_cases hs : c = '~'
      · subst hs; rfl
      · by_cases hm : c = '-'
        · subst hm; rfl
        · simp [hp, hs, hm]

/-- The walk keeps a line: it counts and has more than one character in front of its last blanks. -/
def Kept (line : Text) : Prop := Counts line ∧ 2 ≤ (trimEnd line).length

instance (line : Text) : Decidable (Kept line) := inferInstanceAs (Decidable (_ ∧ _))

/-- What the walk keeps of a list of lines. -/
def walkedLines : List Text → List Text
  | [] => []
  | [_] => []
  | line :: next :: lines =>
    if '\x00' ∈ line then []
    else (if Kept line then [trimEnd line] else []) ++ walkedLines (next :: lines)

/-- Every line that counts has more than one character in front of its last blanks, ends with a
newline, and no NUL stands in front of that. -/
def LosslessLines (lines : List Text) : Prop :=
  ∀ before line after, lines = before ++ line :: after → Counts line →
    2 ≤ (trimEnd line).length ∧ after ≠ [] ∧ ∀ l ∈ before ++ [line], '\x00' ∉ l

/-- The walk keeps every line that counts. -/
def Lossless (content : Text) : Prop := LosslessLines (content.splitOn '\n')

/-! ## One line -/

theorem trimEnd_concat (line : Text) (c : Char) :
    trimEnd (line ++ [c]) = if c = ' ' then trimEnd line else line ++ [c] := by
  unfold trimEnd
  rw [List.rdropWhile_concat]
  by_cases hc : c = ' ' <;> simp [hc]

/-- The inner loop finds the last character that is no blank. -/
theorem back_eq (c : Char) (line r : Text) :
    back (c :: line ++ r) line.length = (trimEnd line).length := by
  induction line using List.reverseRecOn generalizing r with
  | nil => rfl
  | append_singleton line d ih =>
    have hd : charAt (c :: (line ++ [d]) ++ r) (line.length + 1) = d := by
      have := charAt_append_length (c :: line) (d :: r)
      simpa using this
    rw [List.length_append, List.length_singleton, back, hd, trimEnd_concat]
    by_cases hb : d = ' '
    · rw [if_pos hb, if_pos hb]
      have := ih (d :: r)
      simpa using this
    · rw [if_neg hb, if_neg hb, List.length_append, List.length_singleton]

/-- The blanks behind the first character of a line. -/
theorem trimEnd_cons (c : Char) (line : Text) :
    trimEnd (c :: line) = if c = ' ' ∧ trimEnd line = [] then [] else c :: trimEnd line := by
  induction line using List.reverseRecOn with
  | nil =>
    have := trimEnd_concat [] c
    rw [List.nil_append] at this
    rw [this]
    by_cases hc : c = ' '
    · rw [if_pos hc, if_pos ⟨hc, rfl⟩]
      rfl
    · rw [if_neg hc, if_neg fun h => hc h.1]
      rfl
  | append_singleton line d ih =>
    rw [← List.cons_append, trimEnd_concat, trimEnd_concat]
    by_cases hb : d = ' '
    · rw [if_pos hb, if_pos hb, ih]
    · rw [if_neg hb, if_neg hb, if_neg fun h => by simp at h]
      rfl

/-- **One line.** -/
theorem file_line (line r : Text) :
    file (line ++ '\n' :: r) line.length = if Kept line then [trimEnd line] else [] := by
  cases line with
  | nil =>
    rw [if_neg fun h => h.1.1 rfl]
    rfl
  | cons c line =>
    have htake : (c :: line ++ '\n' :: r).take ((trimEnd line).length + 1) = c :: trimEnd line := by
      obtain ⟨u, hu⟩ := List.rdropWhile_prefix (· == ' ') (l := line)
      have hline : line = trimEnd line ++ u := hu.symm
      rw [List.cons_append, List.take_succ_cons, List.cons.injEq]
      refine ⟨rfl, ?_⟩
      conv_lhs => arg 2; rw [hline]
      rw [List.append_assoc, List.take_left]
    have hkept : Kept (c :: line) ↔ c ≠ '#' ∧ 0 < (trimEnd line).length := by
      rw [Kept, Counts, charAt_cons_zero, trimEnd_cons]
      split
      · rename_i h
        rw [h.2]
        simp
      · simp only [List.length_cons]
        constructor
        · rintro ⟨⟨-, h⟩, hl⟩
          exact ⟨h, by omega⟩
        · rintro ⟨h, hl⟩
          exact ⟨⟨List.cons_ne_nil _ _, h⟩, by omega⟩
    have hhead : charAt (c :: line ++ '\n' :: r) 0 = c := rfl
    unfold file
    simp only [List.length_cons, hhead, back_eq, htake, hkept]
    by_cases hhash : c = '#'
    · rw [if_pos hhash, if_neg fun h => h.1 hhash]
    · rw [if_neg hhash]
      by_cases hl : 0 < (trimEnd line).length
      · rw [if_pos hl, if_pos ⟨hhash, hl⟩, trimEnd_cons, if_neg]
        rintro ⟨-, hnil⟩
        rw [hnil] at hl
        exact absurd hl (Nat.lt_irrefl 0)
      · rw [if_neg hl, if_neg fun h => hl h.2]

/-! ## The file -/

theorem walk_none {ptr : Text} (h : '\n' ∉ ptr) : walk ptr = [] := by
  rw [walk]
  split
  · rfl
  · split
    · rfl
    · rename_i e he
      obtain ⟨t, r, -, -, rfl⟩ := strchr_some he
      exact absurd (List.mem_append_right t List.mem_cons_self) h

theorem walk_line {line : Text} (h : '\n' ∉ line) (r : Text) :
    walk (line ++ '\n' :: r) = (if Kept line then [trimEnd line] else []) ++ walk r := by
  have hne : line ++ '\n' :: r ≠ [] := List.append_ne_nil_of_right_ne_nil line (List.cons_ne_nil _ r)
  have hlen : (line ++ '\n' :: r).length - ('\n' :: r).length = line.length := by
    rw [List.length_append]
    omega
  rw [walk, if_neg hne]
  split
  · rename_i he
    rw [strchr_append h] at he
    cases he
  · rename_i e he
    rw [strchr_append h, Option.some.injEq] at he
    rw [← he, hlen, file_line, List.tail_cons]

/-- **The walk goes over the lines.** -/
theorem walk_eq (content : Text) : walk (cstr content) = walkedLines (content.splitOn '\n') := by
  induction hn : content.length using Nat.strong_induction_on generalizing content with
  | _ n ih =>
    subst hn
    have hsub : '\n' ∉ content → '\n' ∉ cstr content := fun h hm =>
      h (List.takeWhile_subset _ hm)
    rcases strchr_cases content '\n' with h | ⟨line, r, h, rfl⟩
    · rw [walk_none (hsub h), List.splitOn_eq_singleton h, walkedLines]
    · obtain ⟨x, xs, hx⟩ := List.exists_cons_of_ne_nil (List.splitOn_ne_nil '\n' r)
      rw [List.splitOn_append_cons_self_of_not_mem h, hx, walkedLines, ← hx]
      by_cases hnul : '\x00' ∈ line
      · obtain ⟨t, u, ht, rfl⟩ := (strchr_cases line '\x00').resolve_left (not_not_intro hnul)
        rw [if_pos hnul, List.append_assoc, List.cons_append, cstr_nul ht, walk_none]
        exact fun hm => h (List.mem_append_left _ hm)
      · have hcstr : cstr (line ++ '\n' :: r) = line ++ '\n' :: cstr r :=
          cstr_append_of_noNul hnul ('\n' :: r)
        have hlt : r.length < (line ++ '\n' :: r).length := by
          rw [List.length_append, List.length_cons]
          omega
        rw [if_neg hnul, hcstr, walk_line h, ih _ hlt r rfl]

theorem keptLines_cons (line : Text) (lines : List Text) :
    keptLines (line :: lines) = (if Counts line then [trimEnd line] else []) ++ keptLines lines := by
  rw [keptLines, List.filter_cons]
  by_cases h : Counts line
  · rw [if_pos (decide_eq_true h), if_pos h]
    rfl
  · rw [if_neg (by rw [decide_eq_true_iff]; exact h), if_neg h]
    rfl

theorem keptLines_eq_nil {lines : List Text} :
    keptLines lines = [] ↔ ∀ line ∈ lines, ¬ Counts line := by
  rw [keptLines, List.map_eq_nil_iff, List.filter_eq_nil_iff]
  simp only [decide_eq_true_iff]

/-- The walk keeps no more than it should. -/
theorem walkedLines_sublist (lines : List Text) : (walkedLines lines).Sublist (keptLines lines) := by
  induction lines using walkedLines.induct with
  | case1 => exact List.Sublist.refl _
  | case2 line => exact List.nil_sublist _
  | case3 line next lines hnul =>
    rw [walkedLines, if_pos hnul]
    exact List.nil_sublist _
  | case4 line next lines hnul ih =>
    rw [walkedLines, if_neg hnul, keptLines_cons]
    refine List.Sublist.append ?_ ih
    by_cases hkept : Kept line
    · rw [if_pos hkept, if_pos hkept.1]
    · rw [if_neg hkept]
      exact List.nil_sublist _

theorem losslessLines_cons (line : Text) (lines : List Text) :
    LosslessLines (line :: lines) ↔
      (Counts line → 2 ≤ (trimEnd line).length ∧ lines ≠ [] ∧ '\x00' ∉ line) ∧
        ('\x00' ∈ line → ∀ l ∈ lines, ¬ Counts l) ∧ LosslessLines lines := by
  constructor
  · intro h
    refine ⟨fun hc => ?_, fun hnul l hl hc => ?_, fun before l after heq hc => ?_⟩
    · obtain ⟨hlen, hne, hall⟩ := h [] line lines rfl hc
      exact ⟨hlen, hne, hall line (List.mem_singleton_self line)⟩
    · obtain ⟨before, after, rfl⟩ := List.append_of_mem hl
      obtain ⟨-, -, hall⟩ := h (line :: before) l after rfl hc
      exact hall line List.mem_cons_self hnul
    · subst heq
      obtain ⟨hlen, hne, hall⟩ := h (line :: before) l after rfl hc
      exact ⟨hlen, hne, fun x hx => hall x (List.mem_cons_of_mem line hx)⟩
  · rintro ⟨hline, hnul, hrest⟩ before l after heq hc
    cases before with
    | nil =>
      obtain ⟨rfl, rfl⟩ := List.cons.inj heq
      obtain ⟨hlen, hne, hno⟩ := hline hc
      refine ⟨hlen, hne, fun x hx => ?_⟩
      rw [List.mem_singleton.1 hx]
      exact hno
    | cons b before =>
      obtain ⟨rfl, rfl⟩ := List.cons.inj heq
      obtain ⟨hlen, hne, hall⟩ := hrest before l after rfl hc
      refine ⟨hlen, hne, fun x hx => ?_⟩
      obtain rfl | hx := List.mem_cons.1 hx
      · exact fun hm => hnul hm l (List.mem_append_right _ List.mem_cons_self) hc
      · exact hall x hx

/-- **Which lines the walk keeps all of.** -/
theorem walkedLines_eq_iff (lines : List Text) :
    walkedLines lines = keptLines lines ↔ LosslessLines lines := by
  have hnil : LosslessLines [] := fun before line after heq _ => by
    cases before <;> cases heq
  induction lines using walkedLines.induct with
  | case1 => exact iff_of_true rfl hnil
  | case2 line =>
    rw [walkedLines, eq_comm, keptLines_eq_nil, losslessLines_cons]
    constructor
    · intro h
      exact ⟨fun hc => absurd hc (h line List.mem_cons_self), fun _ l hl => absurd hl List.not_mem_nil,
        hnil⟩
    · rintro ⟨hline, -, -⟩ l hl hc
      rw [List.mem_singleton.1 hl] at hc
      exact (hline hc).2.1 rfl
  | case3 line next lines hnul =>
    rw [walkedLines, if_pos hnul, eq_comm, keptLines_eq_nil, losslessLines_cons]
    constructor
    · intro h
      refine ⟨fun hc => absurd hc (h line List.mem_cons_self),
        fun _ l hl => h l (List.mem_cons_of_mem line hl), fun before l after heq hc => ?_⟩
      rw [heq] at h
      exact absurd hc (h l (List.mem_cons_of_mem line (List.mem_append_right _ List.mem_cons_self)))
    · rintro ⟨hline, hrest, -⟩ l hl
      obtain rfl | hl := List.mem_cons.1 hl
      · exact fun hc => (hline hc).2.2 hnul
      · exact hrest hnul l hl
  | case4 line next lines hnul ih =>
    have hrest : walkedLines (next :: lines) = keptLines (next :: lines) ↔
        LosslessLines (next :: lines) := ih
    rw [walkedLines, if_neg hnul, keptLines_cons, losslessLines_cons, ← hrest]
    by_cases hkept : Kept line
    · rw [if_pos hkept, if_pos hkept.1, List.append_cancel_left_eq]
      constructor
      · intro h
        exact ⟨fun _ => ⟨hkept.2, List.cons_ne_nil _ _, hnul⟩, fun hm => absurd hm hnul, h⟩
      · rintro ⟨-, -, h⟩
        exact h
    · by_cases hc : Counts line
      · have hle := (walkedLines_sublist (next :: lines)).length_le
        rw [if_neg hkept, if_pos hc]
        constructor
        · intro h
          have hlen := congrArg List.length h
          simp only [List.length_append, List.length_singleton, List.length_nil] at hlen
          omega
        · rintro ⟨hline, -, -⟩
          exact absurd ⟨hc, (hline hc).1⟩ hkept
      · rw [if_neg hkept, if_neg hc, List.append_cancel_left_eq]
        constructor
        · intro h
          exact ⟨fun h => absurd h hc, fun hm => absurd hm hnul, h⟩
        · rintro ⟨-, -, h⟩
          exact h

/-- **Which exclude files are read without a loss**: those in which every line that counts has more
than one character in front of its last blanks and ends with a newline, in front of every NUL. -/
theorem readItems_lossless (fnmatch : Text → Text → Int) (content : Text) :
    readItems fnmatch content = lineItems fnmatch content ↔ Lossless content := by
  have hitem : itemOfFile fnmatch true = fun line => ⟨typeOf line, patternOf line, some fnmatch⟩ :=
    funext (itemOfFile_eq fnmatch)
  rw [readItems, lineItems, readExcludeListFD, walk_eq, hitem, Lossless, ← walkedLines_eq_iff]
  constructor
  · intro h
    have hlen := congrArg List.length h
    rw [List.length_map, List.length_map] at hlen
    exact (walkedLines_sublist _).eq_of_length hlen
  · intro h
    rw [h]

/-- A line of one character is lost. -/
theorem readItems_short :
    ¬ ∀ fnmatch : Text → Text → Int,
      readItems fnmatch "a\n".toList = lineItems fnmatch "a\n".toList := by
  intro h
  have hread : readExcludeListFD "a\n".toList = [] := by
    rw [readExcludeListFD, walk_eq]
    decide +kernel
  have hline : keptLines ("a\n".toList.splitOn '\n') = ["a".toList] := by decide +kernel
  have hlen := congrArg List.length (h fun _ _ => 0)
  rw [readItems, lineItems, hread, hline] at hlen
  cases hlen

end ExcludeList
