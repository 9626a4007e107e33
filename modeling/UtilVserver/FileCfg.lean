import Mathlib.Data.List.DropRight
import UtilVserver.Lib.Calls
import UtilVserver.ListParser

/-!
# Reading configuration files (`lib_internal/filecfg-*.c`)

* `readEntryStr` — the content of a multi-line entry, without the newlines at its end.
* `iterateOverMultiLine` — the pointer walk that hands every trimmed line to a handler.

The handler gets a pointer into the buffer and a length, so it can look at what follows the line;
`keptSpans` are the parts of the buffer it is called on.  Principal results:
`iterateOverMultiLine_eq_foldSpans` (the walk is the fold over these parts),
`keptSpans_text` (they are the trimmed lines that are neither empty nor a comment) and
`iterateOverMultiLine_calls` (which calls are made).
-/

set_option autoImplicit false

namespace FileCfg

open CString ListParser Calls

/-- `FILECFG_MAX_FILESIZE`. -/
def maxFileSize : Nat := 0x100000

/-- The blanks around a line. -/
def isBlank (c : Char) : Bool := c == ' ' || c == '\t'

/-- `FileCfg_readEntryStr(base, file, true, 0)` for a file with this content. -/
def readEntryStr (content : Text) : Option Text :=
  if 0 < content.length ∧ content.length < maxFileSize then
    some (content.rdropWhile (· == '\n'))
  else none

/-- `while (len>0 && (ptr[len-1]==' ' || ptr[len-1]=='\t')) --len;` -/
def trimRight (ptr : Text) : Nat → Nat
  | 0 => 0
  | len + 1 => if isBlank (charAt ptr len) then trimRight ptr len else len + 1

/-- Where the line behind the left blanks ends. -/
def endOfLine (ptr : Text) : Text := (strchr ptr '\n').getD []

theorem endOfLine_suffix (ptr : Text) : endOfLine ptr <:+ ptr := by
  unfold endOfLine
  cases h : strchr ptr '\n' with
  | none => exact List.nil_suffix
  | some p =>
    obtain ⟨t, r, -, rfl, hs⟩ := strchr_some h
    exact ⟨t, hs.symm⟩

/-- Every round leaves a shorter rest. -/
theorem next_length_lt {ptr : Text} (h : ptr ≠ []) :
    (endOfLine (ptr.dropWhile isBlank)).tail.length < ptr.length := by
  have hpos : 0 < ptr.length := List.length_pos_iff.2 h
  have h1 := (endOfLine_suffix (ptr.dropWhile isBlank)).length_le
  have h2 := (List.dropWhile_suffix (p := isBlank) (l := ptr)).length_le
  rw [List.length_tail]
  omega

/-- `FileCfg_iterateOverMultiLine`.  The handler returns its result and the changed data, or
nothing when it runs into undefined behaviour. -/
def iterateOverMultiLine {σ : Type} (handler : Text → Nat → σ → Option (Bool × σ)) (ptr : Text)
    (data : σ) : Option (Bool × σ) :=
  if _h : ptr = [] then some (true, data)
  else
    let p := ptr.dropWhile isBlank
    let eol := endOfLine p
    let len := trimRight p (p.length - eol.length)
    if charAt p 0 ≠ '#' ∧ 0 < len then
      match handler p len data with
      | none => none
      | some (false, data) => some (false, data)
      | some (true, data) => iterateOverMultiLine handler eol.tail data
    else iterateOverMultiLine handler eol.tail data
termination_by ptr.length
decreasing_by
  · exact next_length_lt _h
  · exact next_length_lt _h

/-- The parts of the buffer the handler is called on. -/
def keptSpans (ptr : Text) : List Span :=
  if _h : ptr = [] then []
  else
    let p := ptr.dropWhile isBlank
    let eol := endOfLine p
    let len := trimRight p (p.length - eol.length)
    if charAt p 0 ≠ '#' ∧ 0 < len then ⟨p, len⟩ :: keptSpans eol.tail else keptSpans eol.tail
termination_by ptr.length
decreasing_by
  · exact next_length_lt _h
  · exact next_length_lt _h

/-- Call the handler on one part after the other, until it fails. -/
def foldSpans {σ : Type} (handler : Text → Nat → σ → Option (Bool × σ)) :
    List Span → σ → Option (Bool × σ)
  | [], data => some (true, data)
  | sp :: sps, data =>
    match handler sp.ptr sp.len data with
    | none => none
    | some (false, data) => some (false, data)
    | some (true, data) => foldSpans handler sps data

/-- **The walk is the fold over the kept parts of the buffer.** -/
theorem iterateOverMultiLine_eq_foldSpans {σ : Type}
    (handler : Text → Nat → σ → Option (Bool × σ)) (ptr : Text) (data : σ) :
    iterateOverMultiLine handler ptr data = foldSpans handler (keptSpans ptr) data := by
  induction hn : ptr.length using Nat.strong_induction_on generalizing ptr data with
  | _ n ih =>
    subst hn
    rw [iterateOverMultiLine, keptSpans]
    by_cases h : ptr = []
    · rw [dif_pos h, dif_pos h, foldSpans]
    · have hrest := fun data => ih _ (next_length_lt h) _ data rfl
      rw [dif_neg h, dif_neg h]
      simp only [hrest]
      split
      · rw [foldSpans]
      · rfl

/-! ## The kept parts are the trimmed lines -/

/-- A line without the blanks around it. -/
def trim (line : Text) : Text := (line.dropWhile isBlank).rdropWhile isBlank

/-- The lines that are neither empty nor a comment. -/
def keep (lines : List Text) : List Text :=
  lines.filter fun l => l != [] && charAt l 0 != '#'

/-- The trimmed lines of a text that are kept. -/
def keptLines (text : Text) : List Text := keep ((text.splitOn '\n').map trim)

theorem trimRight_eq (line r : Text) :
    trimRight (line ++ r) line.length = (line.rdropWhile isBlank).length := by
  induction line using List.reverseRecOn generalizing r with
  | nil => simp [trimRight]
  | append_singleton line c ih =>
    have hc : charAt (line ++ [c] ++ r) line.length = c := by
      rw [List.append_assoc, charAt_append_length]; rfl
    rw [List.length_append, List.length_singleton, trimRight, hc, List.rdropWhile_concat]
    split
    · rw [List.append_assoc]
      exact ih _
    · simp

/-- A line, its newline and the rest of the buffer. -/
theorem endOfLine_append {line r : Text} (h : '\n' ∉ line) :
    endOfLine (line ++ '\n' :: r) = '\n' :: r := by
  rw [endOfLine, strchr_append h, Option.getD_some]

theorem endOfLine_of_not_mem {line : Text} (h : '\n' ∉ line) : endOfLine line = [] := by
  rw [endOfLine]
  cases hs : strchr line '\n' with
  | none => rfl
  | some p =>
    obtain ⟨t, r, -, -, rfl⟩ := strchr_some hs
    exact absurd (by simp) h

/-- The trimmed line is a prefix of what stands behind the left blanks. -/
theorem trim_prefix (line : Text) : trim line <+: line.dropWhile isBlank :=
  List.rdropWhile_prefix _ _

theorem charAt_trim {line : Text} (h : trim line ≠ []) :
    charAt (trim line) 0 = charAt (line.dropWhile isBlank) 0 := by
  obtain ⟨r, hr⟩ := trim_prefix line
  rw [← hr]
  cases ht : trim line with
  | nil => exact absurd ht h
  | cons c t => rfl

/-- The part of the buffer that is kept of one line. -/
theorem span_of_line (line r : Text) :
    let p := line.dropWhile isBlank ++ r
    trimRight p (line.dropWhile isBlank).length = (trim line).length ∧
      Span.text ⟨p, (trim line).length⟩ = trim line := by
  obtain ⟨u, hu⟩ := trim_prefix line
  refine ⟨trimRight_eq _ _, ?_⟩
  simp only [Span.text]
  rw [← hu, List.append_assoc, List.take_left]

/-- A blank that is followed by a line end. -/
theorem dropWhile_line {line r : Text} : (line ++ '\n' :: r).dropWhile isBlank =
    line.dropWhile isBlank ++ '\n' :: r :=
  dropWhile_append_stop (by decide) line r

theorem not_mem_dropWhile {line : Text} (h : '\n' ∉ line) : '\n' ∉ line.dropWhile isBlank :=
  fun hm => h ((List.dropWhile_suffix isBlank).subset hm)

theorem keep_condition (line : Text) {p : Text}
    (hp : charAt p 0 = charAt (line.dropWhile isBlank) 0 ∨ trim line = []) :
    (charAt p 0 ≠ '#' ∧ 0 < (trim line).length) ↔
      (trim line != [] && charAt (trim line) 0 != '#') = true := by
  by_cases h : trim line = []
  · simp [h]
  · have hpos : 0 < (trim line).length := List.length_pos_iff.2 h
    rw [hp.resolve_right h, ← charAt_trim h]
    simp [h, hpos]

theorem charAt_line (line r : Text) :
    charAt (line.dropWhile isBlank ++ r) 0 = charAt (line.dropWhile isBlank) 0 ∨
      trim line = [] := by
  cases hl : line.dropWhile isBlank with
  | nil => right; simp [trim, hl]
  | cons c t => exact Or.inl rfl

/-- The first kept part of a buffer that holds a whole line. -/
theorem keptSpans_line {line : Text} (h : '\n' ∉ line) (r : Text) :
    keptSpans (line ++ '\n' :: r) =
      (if trim line != [] && charAt (trim line) 0 != '#' then
        [⟨line.dropWhile isBlank ++ '\n' :: r, (trim line).length⟩] else []) ++ keptSpans r := by
  obtain ⟨hlen, -⟩ := span_of_line line ('\n' :: r)
  have hsub : (line.dropWhile isBlank ++ '\n' :: r).length - ('\n' :: r).length =
      (line.dropWhile isBlank).length := by simp
  rw [keptSpans, dif_neg (by simp)]
  simp only [dropWhile_line, endOfLine_append (not_mem_dropWhile h), List.tail_cons, hsub, hlen,
    keep_condition line (charAt_line line ('\n' :: r))]
  split <;> rfl

theorem keptSpans_last {line : Text} (h : '\n' ∉ line) :
    keptSpans line =
      if trim line != [] && charAt (trim line) 0 != '#' then
        [⟨line.dropWhile isBlank, (trim line).length⟩] else [] := by
  by_cases hne : line = []
  · subst hne; simp [keptSpans, trim]
  · have hlen := (span_of_line line []).1
    have hcond := keep_condition line (charAt_line line [])
    have hnil : keptSpans [] = [] := by rw [keptSpans, dif_pos rfl]
    simp only [List.append_nil] at hlen hcond
    rw [keptSpans, dif_neg hne]
    simp only [endOfLine_of_not_mem (not_mem_dropWhile h), List.tail_nil, List.length_nil,
      Nat.sub_zero, hlen, hcond, hnil]

/-- **The kept parts are the trimmed lines that are neither empty nor a comment.** -/
theorem keptSpans_text (text : Text) : (keptSpans text).map Span.text = keptLines text := by
  induction hn : text.length using Nat.strong_induction_on generalizing text with
  | _ n ih =>
    subst hn
    rcases strchr_cases text '\n' with h | ⟨line, r, h, rfl⟩
    · have hspan := (span_of_line text []).2
      rw [List.append_nil] at hspan
      rw [keptSpans_last h, keptLines, List.splitOn_eq_singleton h, List.map_singleton, keep,
        List.filter_cons, List.filter_nil]
      split
      · rw [List.map_singleton, hspan]
      · rfl
    · have hspan := (span_of_line line ('\n' :: r)).2
      have hrest := ih r.length (by simp only [List.length_append, List.length_cons]; omega) r rfl
      rw [keptSpans_line h, keptLines, List.splitOn_append_cons_self_of_not_mem h, List.map_cons,
        keep, List.filter_cons, List.map_append, hrest]
      split
      · rw [List.map_singleton, hspan]; rfl
      · rfl

/-- A kept part: a trimmed, non-empty line with its end, a blank or a newline behind it. -/
structure KeptSpan (sp : Span) (t f : Text) : Prop where
  eq : sp = ⟨t ++ f, t.length⟩
  nonempty : t ≠ []
  noNewline : '\n' ∉ t
  first : isBlank (charAt t 0) = false
  behind : f = [] ∨ ∃ c r, f = c :: r ∧ (isBlank c = true ∨ c = '\n')

/-- What stands behind the trimmed line in a file: the right blanks and the newline. -/
def behind (line : Text) : Text := (line.dropWhile isBlank).rtakeWhile isBlank ++ ['\n']

/-- The line is neither empty nor a comment. -/
def Kept (line : Text) : Prop := (trim line != [] && charAt (trim line) 0 != '#') = true

instance : DecidablePred Kept := fun line =>
  inferInstanceAs (Decidable ((trim line != [] && charAt (trim line) 0 != '#') = true))

theorem Kept.nonempty {line : Text} (h : Kept line) : trim line ≠ [] := by
  rintro he
  simp [Kept, he] at h

/-- The kept part of a line, with what stands behind it. -/
theorem keptSpan_of_line {line : Text} (h : '\n' ∉ line) (hne : trim line ≠ []) {r : Text}
    (hr : r = [] ∨ ∃ r', r = '\n' :: r') :
    ∃ f, KeptSpan ⟨line.dropWhile isBlank ++ r, (trim line).length⟩ (trim line) f ∧
      (f = [] ∨ f.head? = (behind line).head?) := by
  have hsplit : trim line ++ (line.dropWhile isBlank).rtakeWhile isBlank =
      line.dropWhile isBlank := List.rdropWhile_append_rtakeWhile
  obtain ⟨u, hu⟩ : ∃ u, (line.dropWhile isBlank).rtakeWhile isBlank = u := ⟨_, rfl⟩
  have hblank : ∀ c ∈ u, isBlank c = true := fun c hc =>
    List.mem_rtakeWhile_imp (hu ▸ hc)
  rw [hu] at hsplit
  refine ⟨u ++ r, ⟨by rw [← List.append_assoc, hsplit], hne, fun hm => ?_, ?_, ?_⟩, ?_⟩
  · exact not_mem_dropWhile h (hsplit ▸ List.mem_append_left u hm)
  · rw [charAt_trim hne]
    cases hd : line.dropWhile isBlank with
    | nil => exact absurd (by simp [trim, hd]) hne
    | cons c t =>
      have hc := List.head_dropWhile_not isBlank (l := line) (by simp [hd])
      simpa [hd] using hc
  · cases u with
    | nil => rcases hr with rfl | ⟨r', rfl⟩ <;> simp
    | cons c u => exact Or.inr ⟨c, u ++ r, rfl, Or.inl (hblank c List.mem_cons_self)⟩
  · rw [behind, hu]
    cases u with
    | nil => rcases hr with rfl | ⟨r', rfl⟩ <;> simp
    | cons c u => exact Or.inr rfl

/-- Every kept part is a line of the text. -/
theorem keptSpans_line_kept (text : Text) : ∀ sp ∈ keptSpans text,
    ∃ line ∈ text.splitOn '\n', Kept line ∧
      ∃ f, KeptSpan sp (trim line) f ∧ (f = [] ∨ f.head? = (behind line).head?) := by
  induction hn : text.length using Nat.strong_induction_on generalizing text with
  | _ n ih =>
    subst hn
    intro sp hsp
    rcases strchr_cases text '\n' with h | ⟨line, r, h, rfl⟩
    · rw [keptSpans_last h] at hsp
      split at hsp
      · rename_i hk
        have hk : Kept text := hk
        obtain ⟨f, hf⟩ := keptSpan_of_line h hk.nonempty (Or.inl rfl)
        rw [List.append_nil] at hf
        rw [List.mem_singleton] at hsp
        exact ⟨text, by simp [List.splitOn_eq_singleton h], hk, f, hsp ▸ hf⟩
      · simp at hsp
    · rw [keptSpans_line h, List.mem_append] at hsp
      rw [List.splitOn_append_cons_self_of_not_mem h]
      rcases hsp with hsp | hsp
      · split at hsp
        · rename_i hk
          have hk : Kept line := hk
          obtain ⟨f, hf⟩ := keptSpan_of_line h hk.nonempty (Or.inr ⟨r, rfl⟩)
          rw [List.mem_singleton] at hsp
          exact ⟨line, List.mem_cons_self, hk, f, hsp ▸ hf⟩
        · simp at hsp
      · obtain ⟨line', hline', hrest⟩ :=
          ih r.length (by simp only [List.length_append, List.length_cons]; omega) r rfl sp hsp
        exact ⟨line', List.mem_cons_of_mem _ hline', hrest⟩

theorem keptSpans_kept (text : Text) : ∀ sp ∈ keptSpans text, ∃ t f, KeptSpan sp t f := by
  intro sp hsp
  obtain ⟨line, -, -, f, hf, -⟩ := keptSpans_line_kept text sp hsp
  exact ⟨trim line, f, hf⟩

/-- The handler gets pointers into the buffer. -/
theorem keptSpans_suffix (text : Text) : ∀ sp ∈ keptSpans text, sp.ptr <:+ text := by
  induction hn : text.length using Nat.strong_induction_on generalizing text with
  | _ n ih =>
    subst hn
    intro sp hsp
    rcases strchr_cases text '\n' with h | ⟨line, r, h, rfl⟩
    · rw [keptSpans_last h] at hsp
      split at hsp
      · rw [List.mem_singleton] at hsp
        rw [hsp]
        exact List.dropWhile_suffix _
      · simp at hsp
    · rw [keptSpans_line h, List.mem_append] at hsp
      rcases hsp with hsp | hsp
      · split at hsp
        · rw [List.mem_singleton] at hsp
          rw [hsp]
          simp only [← dropWhile_line]
          exact List.dropWhile_suffix _
        · simp at hsp
      · have hr := ih r.length (by simp only [List.length_append, List.length_cons]; omega) r rfl
          sp hsp
        exact hr.trans ((List.suffix_cons _ _).trans (List.suffix_append _ _))

/-- A newline at the end adds no line that is kept. -/
theorem keptLines_append_newline (text : Text) : keptLines (text ++ ['\n']) = keptLines text := by
  induction hn : text.length using Nat.strong_induction_on generalizing text with
  | _ n ih =>
    subst hn
    have hempty : trim [] = [] := by simp [trim]
    rcases strchr_cases text '\n' with h | ⟨line, r, h, rfl⟩
    · rw [keptLines, List.splitOn_append_cons_self_of_not_mem h, keptLines,
        List.splitOn_eq_singleton h]
      simp [keep, List.filter_cons, hempty]
    · have hrest := ih r.length (by simp only [List.length_append, List.length_cons]; omega) r rfl
      rw [List.append_assoc, List.cons_append, keptLines,
        List.splitOn_append_cons_self_of_not_mem h, keptLines,
        List.splitOn_append_cons_self_of_not_mem h]
      simp only [List.map_cons, keep, List.filter_cons]
      simp only [keptLines, keep] at hrest
      rw [hrest]

/-- The newlines at the end are empty lines. -/
theorem splitOn_rdropWhile (text : Text) :
    ∀ line ∈ (text.rdropWhile (· == '\n')).splitOn '\n', line ∈ text.splitOn '\n' := by
  induction text using List.reverseRecOn with
  | nil => simp
  | append_singleton text c ih =>
    rw [List.rdropWhile_concat]
    split
    · rename_i hc
      obtain rfl : c = '\n' := by simpa using hc
      intro line hline
      rw [List.splitOn_append_cons_self]
      exact List.mem_append_left _ (ih line hline)
    · exact fun line hline => hline

theorem keptLines_rdropWhile (text : Text) :
    keptLines (text.rdropWhile (· == '\n')) = keptLines text := by
  induction text using List.reverseRecOn with
  | nil => simp
  | append_singleton text c ih =>
    rw [List.rdropWhile_concat]
    split
    · rename_i hc
      obtain rfl : c = '\n' := by simpa using hc
      rw [ih, keptLines_append_newline]
    · rfl

/-- What the entry hands to the walk holds the kept lines of the file. -/
theorem readEntryStr_lines {content data : Text} (h : readEntryStr content = some data) :
    keptLines data = keptLines content := by
  unfold readEntryStr at h
  split at h
  · cases h; exact keptLines_rdropWhile content
  · cases h

/-- The kept lines without the one behind the last newline, if that is blank or a comment. -/
theorem keptLines_eq_dropLast {text : Text}
    (h : ∀ line, (text.splitOn '\n').getLast? = some line → keep [trim line] = []) :
    keptLines text = keep ((text.splitOn '\n').dropLast.map trim) := by
  have hne : text.splitOn '\n' ≠ [] := List.splitOn_ne_nil _ _
  have hsplit := List.dropLast_append_getLast hne
  have hlast := h _ (List.getLast?_eq_some_getLast hne)
  have hfilter : ∀ a b : List Text, keep (a ++ b) = keep a ++ keep b :=
    fun a b => List.filter_append a b
  conv => lhs; rw [keptLines, ← hsplit]
  rw [List.map_append, List.map_singleton, hfilter, hlast, List.append_nil]

/-! ## The calls of the handler -/

/-- The handler, with a record of its calls and their answers. -/
def recorded {σ : Type} (handler : Text → Nat → σ → Bool × σ) (ptr : Text) (len : Nat)
    (st : σ × List (Span × Bool)) : Option (Bool × (σ × List (Span × Bool))) :=
  some (record (fun sp => handler sp.ptr sp.len) ⟨ptr, len⟩ st)

/-- Where the kept lines of a text start, and how long they are. -/
def spansFrom (start : Nat) : List Text → List (Nat × Nat)
  | [] => []
  | line :: lines =>
    (if trim line != [] && charAt (trim line) 0 != '#' then
      [(start + (line.takeWhile isBlank).length, (trim line).length)] else []) ++
      spansFrom (start + line.length + 1) lines

/-- **The kept parts stand where the trimmed lines do.** -/
theorem keptSpans_positions (text : Text) {size start : Nat} (h : size = start + text.length) :
    (keptSpans text).map (fun sp => (size - sp.ptr.length, sp.len)) =
      spansFrom start (text.splitOn '\n') := by
  induction hn : text.length using Nat.strong_induction_on generalizing text start with
  | _ n ih =>
    subst hn
    have hblank : ∀ line : Text, (line.takeWhile isBlank).length +
        (line.dropWhile isBlank).length = line.length := fun line => by
      rw [← List.length_append, List.takeWhile_append_dropWhile]
    rcases strchr_cases text '\n' with hline | ⟨line, r, hline, rfl⟩
    · have hlen := hblank text
      rw [keptSpans_last hline, List.splitOn_eq_singleton hline, spansFrom, spansFrom,
        List.append_nil]
      split
      · rw [List.map_singleton]
        congr 2
        show size - (text.dropWhile isBlank).length = _
        omega
      · rfl
    · have hlen := hblank line
      rw [List.length_append, List.length_cons] at h
      have hshort : r.length < (line ++ '\n' :: r).length := by
        rw [List.length_append, List.length_cons]
        omega
      have hrest : (keptSpans r).map (fun sp => (size - sp.ptr.length, sp.len)) =
          spansFrom (start + line.length + 1) (r.splitOn '\n') :=
        ih r.length hshort r (by omega) rfl
      rw [keptSpans_line hline, List.splitOn_append_cons_self_of_not_mem hline, List.map_append,
        hrest, spansFrom]
      split
      · rw [List.map_singleton]
        congr 3
        rw [List.length_append, List.length_cons]
        omega
      · rfl

/-- A handler that always answers. -/
theorem foldSpans_total {σ : Type} (handler : Span → σ → Bool × σ) (sps : List Span) (data : σ) :
    foldSpans (fun ptr len data => some (handler ⟨ptr, len⟩ data)) sps data =
      some (callAll handler sps data) := by
  induction sps generalizing data with
  | nil => rfl
  | cons sp sps ih =>
    obtain ⟨r, hcall⟩ : ∃ r, handler sp data = r := ⟨_, rfl⟩
    obtain ⟨ok, data'⟩ := r
    rw [foldSpans, callAll]
    simp only [hcall]
    cases ok with
    | false => rfl
    | true => exact ih data'

/-- **Which calls are made**: one for each trimmed line that is neither empty nor a comment, in
their order and up to the first that is refused, with the place and the length of the line. -/
theorem iterateOverMultiLine_calls {σ : Type} (handler : Text → Nat → σ → Bool × σ) (str : CStr)
    (data : σ) :
    ∃ ok data' log,
      iterateOverMultiLine (recorded handler) str.text (data, []) = some (ok, data', log) ∧
      iterateOverMultiLine (fun ptr len data => some (handler ptr len data)) str.text data =
        some (ok, data') ∧
      log.map (fun c => c.1.text) = (keptLines str.text).take log.length ∧
      (∀ c ∈ log, c.1.ptr <:+ str.text) ∧
      log.map (fun c => (str.text.length - c.1.ptr.length, c.1.len)) =
        (spansFrom 0 (str.text.splitOn '\n')).take log.length ∧
      (ok = true → log.length = (keptLines str.text).length ∧ ∀ c ∈ log, c.2 = true) ∧
      (ok = false → ∃ before last, log = before ++ [last] ∧ last.2 = false ∧
        ∀ c ∈ before, c.2 = true) := by
  obtain ⟨log, hrun, hspans, hacc, href⟩ :=
    callAll_record (fun sp => handler sp.ptr sp.len) (keptSpans str.text) data []
  rw [List.nil_append] at hrun
  refine ⟨_, (callAll (fun sp => handler sp.ptr sp.len) (keptSpans str.text) data).2, log, ?_, ?_,
    ?_, ?_, ?_, fun hok => ?_, href⟩
  · rw [iterateOverMultiLine_eq_foldSpans, ← hrun]
    exact foldSpans_total (record fun sp => handler sp.ptr sp.len) _ _
  · rw [iterateOverMultiLine_eq_foldSpans]
    exact foldSpans_total (fun sp => handler sp.ptr sp.len) _ _
  · rw [← keptSpans_text, ← List.map_take, ← hspans, List.map_map]
    rfl
  · intro c hc
    have hmem : c.1 ∈ log.map Prod.fst := List.mem_map_of_mem hc
    rw [hspans] at hmem
    exact keptSpans_suffix _ _ (List.mem_of_mem_take hmem)
  · rw [← keptSpans_positions str.text (Nat.zero_add _).symm, ← List.map_take, ← hspans,
      List.map_map]
    rfl
  · obtain ⟨hlen, hall⟩ := hacc hok
    refine ⟨?_, hall⟩
    rw [hlen, ← keptSpans_text, List.length_map]

end FileCfg
