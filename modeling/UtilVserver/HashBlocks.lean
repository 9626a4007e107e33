import Mathlib.Data.List.Induction
import UtilVserver.Lib.Decimal

/-!
# The blocks of a hash directory (`initHashBlocks` of `src/vhashify-init.hc`)

Which parts of a file are hashed is kept in a file of the hash directory.  `vhashify --initialize`
writes it, and each later run reads it back.

* `strsep`, `blocksLoop`, `initHashBlocks` — the code.
* `tokens`, `accepted` — what the content of the file says.
* `readings` — what the loop takes as its words: the words of the lines, whole lines, and what is
  behind the first word of a comment.

Principal results: `blocksLoop_eq` (the loop in terms of the readings) and `initHashBlocks_exact`
(for which contents the configuration is right, and that what is written is read back).
-/

set_option autoImplicit false

namespace HashBlocks

open CString

def hshALL : BitVec 32 := 0
def hshSTART : BitVec 32 := 1
def hshMIDDLE : BitVec 32 := 2
def hshEND : BitVec 32 := 4
def hshINVALID : BitVec 32 := -1

/-- `strcasecmp(a, b) == 0`. -/
def strcasecmp (a b : Text) : Bool := lower a == lower b

/-- `strsep(&tok, sep)`: the token, and what is behind its separator. -/
def strsep (tok sep : Text) : Text × Option Text :=
  match tok.dropWhile (· ∉ sep) with
  | [] => (tok, none)
  | _ :: r => (tok.takeWhile (· ∉ sep), some r)

theorem strsep_end {tok sep : Text} (h : ∀ c ∈ tok, c ∉ sep) : strsep tok sep = (tok, none) := by
  have hdrop : tok.dropWhile (· ∉ sep) = [] :=
    List.dropWhile_eq_nil_iff.2 fun c hc => decide_eq_true (h c hc)
  rw [strsep, hdrop]

theorem strsep_append {t sep : Text} {c : Char} (h : ∀ c ∈ t, c ∉ sep) (hc : c ∈ sep) (r : Text) :
    strsep (t ++ c :: r) sep = (t, some r) := by
  have hall : ∀ x ∈ t, decide (x ∉ sep) = true := fun x hx => decide_eq_true (h x hx)
  have hstop : decide (c ∉ sep) = false := decide_eq_false (not_not_intro hc)
  have hdrop : (t ++ c :: r).dropWhile (· ∉ sep) = c :: r := by
    rw [List.dropWhile_append_of_pos hall, List.dropWhile_cons, hstop]
    rfl
  have htake : (t ++ c :: r).takeWhile (· ∉ sep) = t := by
    rw [List.takeWhile_append_of_pos hall, List.takeWhile_cons, hstop]
    exact List.append_nil t
  rw [strsep, hdrop, htake]

/-- A token is the whole text, or ends at the first separator. -/
theorem strsep_cases (tok sep : Text) : (∀ c ∈ tok, c ∉ sep) ∨
    ∃ t c r, (∀ c ∈ t, c ∉ sep) ∧ c ∈ sep ∧ tok = t ++ c :: r := by
  have hsplit := List.takeWhile_append_dropWhile (p := fun c => decide (c ∉ sep)) (l := tok)
  cases hd : tok.dropWhile (· ∉ sep) with
  | nil =>
    exact Or.inl fun c hc => of_decide_eq_true (List.dropWhile_eq_nil_iff.1 hd c hc)
  | cons c r =>
    have hc := List.head_dropWhile_not (fun c => decide (c ∉ sep)) (l := tok)
      (by rw [hd]; exact List.cons_ne_nil c r)
    simp only [hd, List.head_cons, decide_eq_false_iff_not, not_not] at hc
    rw [hd] at hsplit
    refine Or.inr ⟨_, c, r, fun x hx => ?_, hc, hsplit.symm⟩
    simpa using List.mem_takeWhile_imp hx

theorem strsep_shorter {tok sep r : Text} (h : (strsep tok sep).2 = some r) :
    r.length < tok.length := by
  obtain hall | ⟨t, c, u, ht, hc, rfl⟩ := strsep_cases tok sep
  · rw [strsep_end hall] at h
    cases h
  · rw [strsep_append ht hc] at h
    cases h
    simp only [List.length_append, List.length_cons]
    omega

def SEP : Text := "\n,\t ".toList

/-- What becomes of `conf->blocks` with one token; nothing when it is invalid. -/
def addBlock (blocks : BitVec 32) (ptr : Text) : Option (BitVec 32) :=
  if strcasecmp ptr "all".toList then some hshALL
  else if blocks = hshINVALID then some 0
  else if strcasecmp ptr "start".toList then some (blocks ||| hshSTART)
  else if strcasecmp ptr "middle".toList then some (blocks ||| hshMIDDLE)
  else if strcasecmp ptr "end".toList then some (blocks ||| hshEND)
  else none

/-- The loop, with the separators for the next token. -/
def blocksLoop (tok sep : Text) (blocks : BitVec 32) : BitVec 32 :=
  let ptr := (strsep tok sep).1
  if charAt ptr 0 = '#' then
    match _h : (strsep tok sep).2 with
    | none => blocks
    | some r => blocksLoop r "\n".toList blocks
  else
    match if ptr = [] then some blocks else addBlock blocks ptr with
    | none => hshINVALID
    | some blocks =>
      match _h : (strsep tok sep).2 with
      | none => blocks
      | some r => blocksLoop r SEP blocks
  termination_by tok.length
  decreasing_by
    · exact strsep_shorter _h
    · exact strsep_shorter _h

/-- What the program returns, `conf->blocks`, and the content of the file that is created. -/
structure Result where
  ok : Bool
  blocks : BitVec 32
  created : Option Text

/-- The `strcat` calls. -/
def written (blocks : BitVec 32) : Text :=
  (if blocks = hshALL then "all\n".toList else []) ++
  (if blocks &&& hshSTART ≠ 0 then "start\n".toList else []) ++
  (if blocks &&& hshMIDDLE ≠ 0 then "middle\n".toList else []) ++
  (if blocks &&& hshEND ≠ 0 then "end\n".toList else [])

def initHashBlocks (dry_run : Bool) (blocks : BitVec 32) (file : Option Text) : Result :=
  match file with
  | none =>
    if dry_run then ⟨true, blocks, none⟩
    else ⟨blocks != hshINVALID, blocks, some (written blocks)⟩
  | some content =>
    -- an empty file counts as one that can not be read
    let blocks := if 0 < content.length then blocksLoop (cstr content) SEP hshALL else hshINVALID
    ⟨blocks != hshINVALID, blocks, none⟩

/-! ## What the content says -/

def isSep (c : Char) : Bool := c == ',' || c == '\t' || c == ' '

/-- The lines, each cut at its separators. -/
def pieces (content : Text) : List (List Text) := (content.splitOn '\n').map (·.splitOnP isSep)

def isComment (p : Text) : Bool := charAt p 0 == '#'

def nonblank (ps : List Text) : List Text := ps.filter (· ≠ [])

/-- The words of a line: what is in front of a comment. -/
def lineTokens (ps : List Text) : List Text := nonblank (ps.takeWhile fun p => !isComment p)

def tokens (content : Text) : List Text := (pieces content).flatMap lineTokens

def isAll (w : Text) : Bool := strcasecmp w "all".toList

/-- The bit of a block. -/
def bit (w : Text) : Option (BitVec 32) :=
  if strcasecmp w "start".toList then some hshSTART
  else if strcasecmp w "middle".toList then some hshMIDDLE
  else if strcasecmp w "end".toList then some hshEND
  else none

def IsBlock (w : Text) : Prop := isAll w = true ∨ bit w ≠ none

instance (w : Text) : Decidable (IsBlock w) := inferInstanceAs (Decidable (_ ∨ _))

/-- The union of the blocks behind the last `all`. -/
def chosen (ws : List Text) : BitVec 32 :=
  ((ws.reverse.takeWhile fun w => !isAll w).filterMap bit).foldr (· ||| ·) 0

/-- The configuration, when each word is a block. -/
def accepted (content : Text) : Option (BitVec 32) :=
  if ∀ w ∈ tokens content, IsBlock w then some (chosen (tokens content)) else none

/-! ## What the loop takes as its words -/

inductive Reading where
  /-- the words of a line up to a comment -/
  | words (ws : List Text)
  /-- the line behind a comment, as one word -/
  | line (ps : List Text)
  /-- what is behind the first word of a comment, as one word -/
  | comment (ps : List Text)

/-- The readings of the lines, where the first one is taken as one word or not. -/
def readings : Bool → List (List Text) → List Reading
  | _, [] => []
  | true, ps :: ls =>
    if isComment (ps.headD []) then readings true ls else .line ps :: readings false ls
  | false, ps :: ls =>
    .words (lineTokens ps) ::
      match ps.dropWhile fun p => !isComment p with
      | [] => readings false ls
      | [_] => readings true ls
      | _ :: q :: qs =>
        if isComment q then readings true ls else .comment (q :: qs) :: readings false ls

/-- The word is none of the file: a line of several pieces, or what is in a comment and no block. -/
def Reading.Wrong : Reading → Prop
  | words _ => False
  | line ps => ps.length ≠ 1
  | comment ps => ps.length ≠ 1 ∨ ∃ w ∈ nonblank ps, ¬ IsBlock w

/-- The words the loop looks at, where none is wrong. -/
def Reading.taken : Reading → List Text
  | words ws => ws
  | line ps => nonblank ps
  | comment ps => nonblank ps

def taken (content : Text) : List Text := (readings false (pieces content)).flatMap Reading.taken

/-- The loop refuses what is in front of the first NUL. -/
def Refused (content : Text) : Prop :=
  (∃ r ∈ readings false (pieces content), r.Wrong) ∨ ∃ w ∈ tokens content, ¬ IsBlock w

/-- Nothing that a comment changes is wrong. -/
def ReadsRight (content : Text) : Prop :=
  content ≠ [] ∧
    if ∀ w ∈ tokens content, IsBlock w then
      ¬ Refused (cstr content) ∧ chosen (taken (cstr content)) = chosen (tokens content)
    else Refused (cstr content)

/-! ## The words -/

/-- A value of the three bits, which the loop does not leave. -/
def Fits (b : BitVec 32) : Prop := b &&& 7 = b

instance (b : BitVec 32) : Decidable (Fits b) := inferInstanceAs (Decidable (_ = _))

theorem Fits.ne_invalid {b : BitVec 32} (h : Fits b) : b ≠ hshINVALID := by
  rintro rfl
  exact absurd h (by decide)

theorem Fits.or {b c : BitVec 32} (hb : Fits b) (hc : Fits c) : Fits (b ||| c) := by
  unfold Fits at *
  rw [BitVec.and_comm, BitVec.and_or_distrib_left, BitVec.and_comm, hb, BitVec.and_comm, hc]

theorem bit_fits {w : Text} {c : BitVec 32} (h : bit w = some c) : Fits c := by
  unfold bit at h
  split at h
  · cases h; decide
  · split at h
    · cases h; decide
    · split at h
      · cases h; decide
      · cases h

theorem addBlock_eq {b : BitVec 32} (hb : Fits b) (w : Text) :
    addBlock b w = if isAll w then some hshALL else (bit w).map (b ||| ·) := by
  unfold addBlock isAll bit
  rw [if_neg hb.ne_invalid]
  split
  · rfl
  · split
    · rfl
    · split
      · rfl
      · split <;> rfl

theorem addBlock_fits {b b' : BitVec 32} {w : Text} (hb : Fits b) (h : addBlock b w = some b') :
    Fits b' := by
  rw [addBlock_eq hb] at h
  split at h
  · cases h
    decide
  · obtain ⟨c, hc, rfl⟩ := Option.map_eq_some_iff.1 h
    exact hb.or (bit_fits hc)

theorem addBlock_none {b : BitVec 32} (hb : Fits b) {w : Text} :
    addBlock b w = none ↔ ¬ IsBlock w := by
  rw [addBlock_eq hb, IsBlock]
  split
  · rename_i h
    simp [h]
  · rename_i h
    simp [h]

/-- A block has no separator. -/
theorem not_isBlock {w : Text} {c : Char} (hc : c ∈ w) (hsep : isSep c = true) : ¬ IsBlock w := by
  have hlow : c.toLower ∈ lower w := List.mem_map_of_mem hc
  have hstays : c.toLower = ',' ∨ c.toLower = '\t' ∨ c.toLower = ' ' := by
    unfold isSep at hsep
    simp only [Bool.or_eq_true, beq_iff_eq] at hsep
    rcases hsep with (rfl | rfl) | rfl <;> decide
  have hother : ∀ v : Text, ',' ∉ lower v → '\t' ∉ lower v → ' ' ∉ lower v →
      strcasecmp w v = false := by
    intro v h1 h2 h3
    rw [strcasecmp, beq_eq_false_iff_ne]
    intro heq
    rw [heq] at hlow
    rcases hstays with h | h | h
    · exact h1 (h ▸ hlow)
    · exact h2 (h ▸ hlow)
    · exact h3 (h ▸ hlow)
  rw [IsBlock, isAll, bit, hother _ (by decide) (by decide) (by decide),
    hother _ (by decide) (by decide) (by decide), hother _ (by decide) (by decide) (by decide),
    hother _ (by decide) (by decide) (by decide)]
  simp

theorem chosen_append (ws : List Text) (w : Text) :
    chosen (ws ++ [w]) = if isAll w then 0 else chosen ws ||| (bit w).getD 0 := by
  unfold chosen
  rw [List.reverse_append, List.reverse_singleton, List.singleton_append, List.takeWhile_cons]
  cases hall : isAll w with
  | true => rfl
  | false =>
    cases hbit : bit w with
    | none => simp [hbit]
    | some c =>
      simp only [Bool.not_false, if_true, List.filterMap_cons_some hbit, List.foldr_cons]
      exact BitVec.or_comm _ _

theorem chosen_fits (ws : List Text) : Fits (chosen ws) := by
  induction ws using List.reverseRecOn with
  | nil => decide
  | append_singleton ws w ih =>
    rw [chosen_append]
    split
    · decide
    · cases hbit : bit w with
      | none => exact ih.or (by decide)
      | some c => exact ih.or (bit_fits hbit)

/-- **The words of a list make the blocks behind the last `all`.** -/
theorem foldlM_addBlock (ws : List Text) : ws.foldlM addBlock hshALL =
    if ∀ w ∈ ws, IsBlock w then some (chosen ws) else none := by
  induction ws using List.reverseRecOn with
  | nil => rfl
  | append_singleton ws w ih =>
    rw [List.foldlM_append, ih]
    by_cases hws : ∀ w ∈ ws, IsBlock w
    · have hlast : (∀ x ∈ ws ++ [w], IsBlock x) ↔ IsBlock w := by
        constructor
        · exact fun h => h w (List.mem_append_right _ (List.mem_singleton_self w))
        · intro h x hx
          rcases List.mem_append.1 hx with hx | hx
          · exact hws x hx
          · exact List.mem_singleton.1 hx ▸ h
      rw [if_pos hws]
      simp only [hlast]
      show (addBlock (chosen ws) w >>= pure) = _
      rw [bind_pure, chosen_append, addBlock_eq (chosen_fits ws)]
      by_cases hall : isAll w = true
      · have hblock : IsBlock w := Or.inl hall
        rw [if_pos hall, if_pos hall, if_pos hblock]
        rfl
      · rw [if_neg hall, if_neg hall]
        cases hbit : bit w with
        | none =>
          rw [if_neg (by simp [IsBlock, hall, hbit])]
          rfl
        | some c =>
          have hblock : IsBlock w := Or.inr (hbit ▸ Option.some_ne_none c)
          rw [if_pos hblock]
          rfl
    · rw [if_neg hws, if_neg fun h => hws fun x hx => h x (List.mem_append_left _ hx)]
      rfl

/-! ## The pieces of a text -/

theorem mem_SEP {c : Char} : c ∈ SEP ↔ c = '\n' ∨ isSep c = true := by
  have hsep : SEP = ['\n', ',', '\t', ' '] := by decide
  rw [hsep, isSep]
  simp [or_assoc]

theorem not_mem_SEP {c : Char} : c ∉ SEP ↔ c ≠ '\n' ∧ isSep c = false := by
  rw [mem_SEP, not_or, Bool.not_eq_true]

theorem pieces_ne_nil (s : Text) : pieces s ≠ [] := by
  rw [pieces, Ne, List.map_eq_nil_iff]
  exact List.splitOn_ne_nil _ _

theorem ne_nil_of_mem_pieces {s : Text} {ps : List Text} (h : ps ∈ pieces s) : ps ≠ [] := by
  obtain ⟨line, -, rfl⟩ := List.mem_map.1 h
  exact List.splitOnP_ne_nil isSep line

theorem pieces_line {s : Text} (h : '\n' ∉ s) : pieces s = [s.splitOnP isSep] := by
  rw [pieces, List.splitOn_eq_singleton h]
  rfl

theorem pieces_newline {t : Text} (h : '\n' ∉ t) (r : Text) :
    pieces (t ++ '\n' :: r) = t.splitOnP isSep :: pieces r := by
  rw [pieces, List.splitOn_append_cons_self_of_not_mem h]
  rfl

theorem pieces_sep {t : Text} (h : ∀ c ∈ t, c ∉ SEP) {c : Char} (hc : isSep c = true) (r : Text) :
    pieces (t ++ c :: r) = (pieces r).modifyHead (t :: ·) := by
  have hnl : ∀ x ∈ t ++ [c], x ≠ '\n' := by
    intro x hx
    rcases List.mem_append.1 hx with hx | hx
    · exact (not_mem_SEP.1 (h x hx)).1
    · rintro rfl
      rw [← List.mem_singleton.1 hx] at hc
      exact absurd hc (by decide)
  have hcut : ∀ line : Text, (t ++ c :: line).splitOnP isSep = t :: line.splitOnP isSep := fun line =>
    List.splitOnP_append_cons_of_forall_mem (fun x hx => (not_mem_SEP.1 (h x hx)).2) c hc line
  have hassoc : ∀ line : Text, t ++ c :: line = t ++ [c] ++ line := fun line => by simp
  obtain hr | ⟨line, rest, hline, rfl⟩ := strchr_cases r '\n'
  · have hs : '\n' ∉ t ++ c :: r := by
      rw [hassoc, List.mem_append, not_or]
      exact ⟨fun hm => hnl _ hm rfl, hr⟩
    rw [pieces_line hs, pieces_line hr, hcut]
    rfl
  · have hs : '\n' ∉ t ++ c :: line := by
      rw [hassoc, List.mem_append, not_or]
      exact ⟨fun hm => hnl _ hm rfl, hline⟩
    have hsplit : t ++ c :: (line ++ '\n' :: rest) = (t ++ c :: line) ++ '\n' :: rest := by simp
    rw [hsplit, pieces_newline hs, pieces_newline hline, hcut]
    rfl

/-- A line is a comment just when its first piece is. -/
theorem isComment_splitOnP (s : Text) : isComment ((s.splitOnP isSep).headD []) = isComment s := by
  cases s with
  | nil => rfl
  | cons c s =>
    rw [List.splitOnP_cons_eq_if_modifyHead]
    split
    · rename_i hc
      have hne : c ≠ '#' := by
        rintro rfl
        exact absurd hc (by decide)
      have hcomment : isComment (c :: s) = false := by simpa [isComment] using hne
      rw [hcomment]
      rfl
    · obtain ⟨p, ps, hps⟩ := List.exists_cons_of_ne_nil (List.splitOnP_ne_nil isSep s)
      rw [hps]
      rfl

/-- A text that is not one piece has a separator. -/
theorem splitOnP_cases (s : Text) : s.splitOnP isSep = [s] ∨
    (s.splitOnP isSep).length ≠ 1 ∧ ∃ c ∈ s, isSep c = true := by
  by_cases h : ∀ c ∈ s, isSep c = false
  · exact Or.inl (List.splitOnP_eq_singleton h)
  · simp only [not_forall, Bool.not_eq_false] at h
    obtain ⟨c, hc, hsep⟩ := h
    obtain ⟨t, r, rfl⟩ := List.append_of_mem hc
    refine Or.inr ⟨?_, c, hc, hsep⟩
    rw [List.splitOnP_append_cons t r hsep, List.length_append]
    have h1 := List.length_pos_iff.2 (List.splitOnP_ne_nil isSep t)
    have h2 := List.length_pos_iff.2 (List.splitOnP_ne_nil isSep r)
    omega

/-! ## The loop -/

/-- One token: nothing becomes of an empty one. -/
def look (b : BitVec 32) (ptr : Text) : Option (BitVec 32) :=
  if ptr = [] then some b else addBlock b ptr

theorem look_eq (b : BitVec 32) (ptr : Text) : look b ptr = (nonblank [ptr]).foldlM addBlock b := by
  unfold look
  by_cases h : ptr = []
  · rw [if_pos h, h]
    rfl
  · have hkeep : nonblank [ptr] = [ptr] := List.filter_cons_of_pos (decide_eq_true h)
    rw [if_neg h, hkeep]
    exact (bind_pure _).symm

theorem look_fits {b b' : BitVec 32} {w : Text} (hb : Fits b) (h : look b w = some b') : Fits b' := by
  unfold look at h
  split at h
  · cases h
    exact hb
  · exact addBlock_fits hb h

theorem blocksLoop_step (tok sep : Text) (b : BitVec 32) : blocksLoop tok sep b =
    if isComment (strsep tok sep).1 then
      ((strsep tok sep).2.map (blocksLoop · "\n".toList b)).getD b
    else
      ((look b (strsep tok sep).1).map fun b =>
        ((strsep tok sep).2.map (blocksLoop · SEP b)).getD b).getD hshINVALID := by
  have hnext : ∀ (sep' : Text) (b : BitVec 32), (match _h : (strsep tok sep).2 with
      | none => b
      | some r => blocksLoop r sep' b) = ((strsep tok sep).2.map (blocksLoop · sep' b)).getD b := by
    intro sep' b
    split
    · rename_i h
      rw [h]
      rfl
    · rename_i h
      rw [h]
      rfl
  rw [blocksLoop]
  simp only [hnext, isComment, beq_iff_eq]
  congr 1
  show (match look b (strsep tok sep).1 with | none => _ | some b => _) = _
  cases look b (strsep tok sep).1 <;> rfl

theorem blocksLoop_end {tok sep : Text} (h : ∀ c ∈ tok, c ∉ sep) (b : BitVec 32) :
    blocksLoop tok sep b = if isComment tok then b else (look b tok).getD hshINVALID := by
  rw [blocksLoop_step, strsep_end h]
  cases look b tok <;> rfl

theorem blocksLoop_append {t sep : Text} {c : Char} (h : ∀ c ∈ t, c ∉ sep) (hc : c ∈ sep) (r : Text)
    (b : BitVec 32) : blocksLoop (t ++ c :: r) sep b =
      if isComment t then blocksLoop r "\n".toList b
      else ((look b t).map fun b => blocksLoop r SEP b).getD hshINVALID := by
  rw [blocksLoop_step, strsep_append h hc]
  rfl

/-- What becomes of the blocks with the words of a reading. -/
def Reading.verdict (b : BitVec 32) : Reading → Option (BitVec 32)
  | words ws => ws.foldlM addBlock b
  | line ps => if ps.length = 1 then (nonblank ps).foldlM addBlock b else none
  | comment ps => if ps.length = 1 then (nonblank ps).foldlM addBlock b else none

def verdict (b : BitVec 32) (rs : List Reading) : Option (BitVec 32) :=
  rs.foldlM Reading.verdict b

theorem verdict_cons (b : BitVec 32) (r : Reading) (rs : List Reading) :
    verdict b (r :: rs) = (r.verdict b).bind (verdict · rs) := rfl

/-- A text that is taken as one word. -/
theorem verdict_whole {b : BitVec 32} (hb : Fits b) (s : Text) :
    (if (s.splitOnP isSep).length = 1 then (nonblank (s.splitOnP isSep)).foldlM addBlock b
      else none) = look b s := by
  obtain h | ⟨hlen, c, hc, hsep⟩ := splitOnP_cases s
  · rw [h, look_eq]
    rfl
  · have hne : s ≠ [] := List.ne_nil_of_mem hc
    rw [if_neg hlen, look, if_neg hne, (addBlock_none hb).2 (not_isBlock hc hsep)]

/-- The readings behind the first piece of a line. -/
theorem readings_word {t : Text} (h : isComment t = false) {ps : List Text} (ls : List (List Text)) :
    readings false ((t :: ps) :: ls) = .words (nonblank [t] ++ lineTokens ps) ::
      (readings false (ps :: ls)).tail := by
  have htake : (t :: ps).takeWhile (fun p => !isComment p) =
      t :: ps.takeWhile fun p => !isComment p := List.takeWhile_cons_of_pos (by simp [h])
  have hdrop : (t :: ps).dropWhile (fun p => !isComment p) =
      ps.dropWhile fun p => !isComment p := List.dropWhile_cons_of_pos (by simp [h])
  have hwords : lineTokens (t :: ps) = nonblank [t] ++ lineTokens ps := by
    rw [lineTokens, htake, lineTokens, nonblank, nonblank, nonblank, ← List.filter_append]
    rfl
  rw [readings, hwords, hdrop]
  rfl

/-- The readings behind a comment. -/
theorem readings_comment {t : Text} (h : isComment t = true) (ps : List Text)
    (ls : List (List Text)) : readings false ((t :: ps) :: ls) = .words [] ::
      match ps with
      | [] => readings true ls
      | q :: qs =>
        if isComment q then readings true ls else .comment (q :: qs) :: readings false ls := by
  have htake : (t :: ps).takeWhile (fun p => !isComment p) = [] :=
    List.takeWhile_cons_of_neg (by simp [h])
  have hdrop : (t :: ps).dropWhile (fun p => !isComment p) = t :: ps :=
    List.dropWhile_cons_of_neg (by simp [h])
  rw [readings, lineTokens, htake, hdrop]
  cases ps <;> rfl

theorem verdict_comment {t : Text} (h : isComment t = true) (b : BitVec 32) (ps : List Text)
    (ls : List (List Text)) : verdict b (readings false ((t :: ps) :: ls)) =
      verdict b (if ps = [] then readings true ls else readings true (ps :: ls)) := by
  rw [readings_comment h]
  cases ps with
  | nil => rfl
  | cons q qs =>
    rw [if_neg (List.cons_ne_nil q qs), readings, List.headD_cons]
    show verdict b (.words [] ::
      (if isComment q then readings true ls else .comment (q :: qs) :: readings false ls)) = _
    cases isComment q <;> rfl

theorem verdict_word {t : Text} (h : isComment t = false) (b : BitVec 32) (ps : List Text)
    (ls : List (List Text)) : verdict b (readings false ((t :: ps) :: ls)) =
      (look b t).bind (verdict · (readings false (ps :: ls))) := by
  have hrest : readings false (ps :: ls) =
      .words (lineTokens ps) :: (readings false (ps :: ls)).tail := rfl
  rw [readings_word h, verdict_cons, Reading.verdict, List.foldlM_append, ← look_eq, hrest]
  exact Option.bind_assoc _ _ _

theorem verdict_line {b : BitVec 32} (hb : Fits b) (s : Text) (ls : List (List Text)) :
    verdict b (readings true (s.splitOnP isSep :: ls)) =
      if isComment s then verdict b (readings true ls)
      else (look b s).bind (verdict · (readings false ls)) := by
  rw [readings, isComment_splitOnP]
  split
  · rfl
  · rw [verdict_cons, Reading.verdict, verdict_whole hb]

theorem not_mem_newline {t : Text} (h : '\n' ∉ t) : ∀ c ∈ t, c ∉ "\n".toList := by
  intro c hc hmem
  rw [List.mem_singleton.1 hmem] at hc
  exact h hc

/-- **The loop in terms of the readings**, with either set of separators. -/
theorem blocksLoop_eq (tok : Text) {b : BitVec 32} (hb : Fits b) :
    blocksLoop tok SEP b = (verdict b (readings false (pieces tok))).getD hshINVALID ∧
    blocksLoop tok "\n".toList b = (verdict b (readings true (pieces tok))).getD hshINVALID := by
  induction hlen : tok.length using Nat.strongRecOn generalizing tok b with
  | ind n ih =>
    have hnext : ∀ {t r : Text} {c : Char}, tok = t ++ c :: r → ∀ {b}, Fits b →
        blocksLoop r SEP b = (verdict b (readings false (pieces r))).getD hshINVALID ∧
        blocksLoop r "\n".toList b = (verdict b (readings true (pieces r))).getD hshINVALID := by
      rintro t r c rfl b hb
      refine ih r.length ?_ r hb rfl
      rw [← hlen, List.length_append, List.length_cons]
      omega
    -- what follows a word
    have hword : ∀ {t r : Text} {c : Char}, tok = t ++ c :: r → ∀ {b}, Fits b →
        ((look b t).map fun b => blocksLoop r SEP b).getD hshINVALID =
          ((look b t).bind (verdict · (readings false (pieces r)))).getD hshINVALID := by
      intro t r c htok b hb
      cases hlook : look b t with
      | none => rfl
      | some b' => exact (hnext htok (look_fits hb hlook)).1
    constructor
    · obtain hall | ⟨t, c, r, ht, hc, htok⟩ := strsep_cases tok SEP
      · have hline : '\n' ∉ tok := fun hm => hall _ hm (mem_SEP.2 (Or.inl rfl))
        have hone : tok.splitOnP isSep = [tok] :=
          List.splitOnP_eq_singleton fun x hx => (not_mem_SEP.1 (hall x hx)).2
        rw [blocksLoop_end hall, pieces_line hline, hone]
        cases hcomment : isComment tok with
        | true =>
          rw [verdict_comment hcomment]
          rfl
        | false =>
          rw [verdict_word hcomment]
          exact congrArg (·.getD hshINVALID) (bind_pure (look b tok)).symm
      · rw [htok, blocksLoop_append ht hc, (hnext htok hb).2, hword htok hb]
        rcases mem_SEP.1 hc with rfl | hsep
        · -- the token ends the line
          have hline : '\n' ∉ t := fun hm => ht _ hm hc
          have hone : t.splitOnP isSep = [t] :=
            List.splitOnP_eq_singleton fun x hx => (not_mem_SEP.1 (ht x hx)).2
          rw [pieces_newline hline, hone]
          cases hcomment : isComment t with
          | true =>
            rw [verdict_comment hcomment]
            rfl
          | false =>
            rw [verdict_word hcomment]
            rfl
        · -- there is more on the line
          obtain ⟨ps, ls, hr⟩ := List.exists_cons_of_ne_nil (pieces_ne_nil r)
          rw [pieces_sep ht hsep, hr, List.modifyHead_cons]
          cases hcomment : isComment t with
          | true =>
            have hps : ps ≠ [] := ne_nil_of_mem_pieces (hr ▸ List.mem_cons_self)
            rw [verdict_comment hcomment, if_neg hps]
            rfl
          | false =>
            rw [verdict_word hcomment]
            rfl
    · obtain hno | ⟨t, r, ht, htok⟩ := strchr_cases tok '\n'
      · rw [blocksLoop_end (not_mem_newline hno), pieces_line hno, verdict_line hb]
        cases isComment tok with
        | true => rfl
        | false => exact congrArg (·.getD hshINVALID) (bind_pure (look b tok)).symm
      · rw [htok, blocksLoop_append (not_mem_newline ht) (by decide), (hnext htok hb).2, hword htok hb,
          pieces_newline ht, verdict_line hb]
        cases isComment t <;> rfl

/-! ## Which contents are read right -/

/-- The words of the file in a reading. -/
def Reading.tokens : Reading → List Text
  | words ws => ws
  | line ps => lineTokens ps
  | comment _ => []

/-- **The readings have all words of the file.** -/
theorem tokens_readings (whole : Bool) (ls : List (List Text)) (h : ∀ ps ∈ ls, ps ≠ []) :
    (readings whole ls).flatMap Reading.tokens = ls.flatMap lineTokens := by
  induction ls generalizing whole with
  | nil => cases whole <;> rfl
  | cons ps ls ih =>
    have hls : ∀ qs ∈ ls, qs ≠ [] := fun qs hqs => h qs (List.mem_cons_of_mem ps hqs)
    rw [List.flatMap_cons]
    cases whole with
    | true =>
      rw [readings]
      split
      · rename_i hcomment
        obtain ⟨p, rest, rfl⟩ := List.exists_cons_of_ne_nil (h ps List.mem_cons_self)
        have hnone : lineTokens (p :: rest) = [] := by
          rw [List.headD_cons] at hcomment
          rw [lineTokens, List.takeWhile_cons_of_neg (by simp [hcomment])]
          rfl
        rw [hnone, ih true hls]
        rfl
      · rw [List.flatMap_cons, ih false hls]
        rfl
    | false =>
      rw [readings, List.flatMap_cons]
      congr 1
      split
      · exact ih false hls
      · exact ih true hls
      · split
        · exact ih true hls
        · rw [List.flatMap_cons, ih false hls]
          rfl

/-- A line that is taken as one word does not begin with a comment. -/
theorem isComment_of_line {whole : Bool} {ls : List (List Text)} {ps : List Text}
    (h : .line ps ∈ readings whole ls) : isComment (ps.headD []) = false := by
  induction ls generalizing whole with
  | nil => cases whole <;> cases h
  | cons qs ls ih =>
    cases whole with
    | true =>
      rw [readings] at h
      split at h
      · exact ih h
      · rename_i hno
        rcases List.mem_cons.1 h with heq | h
        · cases heq
          exact Bool.eq_false_iff.2 hno
        · exact ih h
    | false =>
      rw [readings] at h
      rcases List.mem_cons.1 h with heq | h
      · cases heq
      · split at h
        · exact ih h
        · exact ih h
        · split at h
          · exact ih h
          · rcases List.mem_cons.1 h with heq | h
            · cases heq
            · exact ih h

/-- The words of a reading are as good as those of the file, unless it is wrong. -/
theorem Reading.forall_taken {whole : Bool} {ls : List (List Text)} {r : Reading}
    (hmem : r ∈ readings whole ls) (h : ¬ r.Wrong) :
    (∀ w ∈ r.taken, IsBlock w) ↔ ∀ w ∈ r.tokens, IsBlock w := by
  cases r with
  | words ws => exact Iff.rfl
  | line ps =>
    obtain ⟨p, rfl⟩ := List.length_eq_one_iff.1 (not_not.1 h)
    have hcomment : isComment p = false := isComment_of_line hmem
    have hsame : lineTokens [p] = nonblank [p] := by
      rw [lineTokens, List.takeWhile_cons_of_pos (by simp [hcomment])]
      rfl
    rw [tokens, hsame]
    exact Iff.rfl
  | comment ps =>
    refine ⟨fun _ => List.forall_mem_nil _, fun _ w hw => ?_⟩
    by_contra hbad
    exact h (Or.inr ⟨w, hw, hbad⟩)

theorem Reading.verdict_of_not_wrong {r : Reading} (h : ¬ r.Wrong) (b : BitVec 32) :
    r.verdict b = r.taken.foldlM addBlock b := by
  cases r with
  | words ws => rfl
  | line ps => exact if_pos (not_not.1 h)
  | comment ps => exact if_pos (not_not.1 fun hlen => h (Or.inl hlen))

theorem foldlM_fits {ws : List Text} {b b' : BitVec 32} (hb : Fits b)
    (h : ws.foldlM addBlock b = some b') : Fits b' := by
  induction ws generalizing b with
  | nil =>
    cases h
    exact hb
  | cons w ws ih =>
    obtain ⟨c, hc, h⟩ := Option.bind_eq_some_iff.1 h
    exact ih (addBlock_fits hb hc) h

theorem foldlM_none {ws : List Text} {b : BitVec 32} (hb : Fits b) :
    ws.foldlM addBlock b = none ↔ ∃ w ∈ ws, ¬ IsBlock w := by
  induction ws generalizing b with
  | nil => simp
  | cons w ws ih =>
    rw [List.foldlM_cons]
    simp only [List.mem_cons, exists_eq_or_imp]
    cases hw : addBlock b w with
    | none => exact ⟨fun _ => Or.inl ((addBlock_none hb).1 hw), fun _ => rfl⟩
    | some c =>
      have hgood : ¬ ¬ IsBlock w := fun hbad => by
        rw [(addBlock_none hb).2 hbad] at hw
        cases hw
      exact (ih (addBlock_fits hb hw)).trans ⟨Or.inr, fun h => h.resolve_left hgood⟩

theorem Reading.verdict_of_wrong {r : Reading} (h : r.Wrong) {b : BitVec 32} (hb : Fits b) :
    r.verdict b = none := by
  cases r with
  | words ws => cases h
  | line ps => exact if_neg h
  | comment ps =>
    rw [Reading.verdict]
    split
    · rename_i hlen
      exact (foldlM_none hb).2 (h.resolve_left (not_not_intro hlen))
    · rfl

theorem verdict_wrong {rs : List Reading} (h : ∃ r ∈ rs, r.Wrong) {b : BitVec 32} (hb : Fits b) :
    verdict b rs = none := by
  induction rs generalizing b with
  | nil => simp at h
  | cons r rs ih =>
    rw [verdict_cons]
    by_cases hr : r.Wrong
    · rw [Reading.verdict_of_wrong hr hb]
      rfl
    · obtain ⟨x, hx, hwrong⟩ := h
      have hrest : ∃ r ∈ rs, r.Wrong := by
        rcases List.mem_cons.1 hx with rfl | hx
        · exact absurd hwrong hr
        · exact ⟨x, hx, hwrong⟩
      cases hv : r.verdict b with
      | none => rfl
      | some c =>
        rw [Reading.verdict_of_not_wrong hr] at hv
        exact ih hrest (foldlM_fits hb hv)

theorem verdict_right {rs : List Reading} (h : ∀ r ∈ rs, ¬ r.Wrong) (b : BitVec 32) :
    verdict b rs = (rs.flatMap Reading.taken).foldlM addBlock b := by
  induction rs generalizing b with
  | nil => rfl
  | cons r rs ih =>
    rw [verdict_cons, List.flatMap_cons, List.foldlM_append,
      Reading.verdict_of_not_wrong (h r List.mem_cons_self)]
    exact congrArg (Option.bind _) (funext fun c => ih (fun x hx => h x (List.mem_cons_of_mem r hx)) c)

theorem blocksLoop_refused {s : Text} (h : Refused s) : blocksLoop s SEP hshALL = hshINVALID := by
  have hfits : Fits hshALL := by decide
  rw [(blocksLoop_eq s hfits).1]
  by_cases hwrong : ∃ r ∈ readings false (pieces s), r.Wrong
  · rw [verdict_wrong hwrong hfits]
    rfl
  · have hright : ∀ r ∈ readings false (pieces s), ¬ r.Wrong := fun r hr hw => hwrong ⟨r, hr, hw⟩
    obtain ⟨w, hw, hbad⟩ := h.resolve_left hwrong
    rw [tokens, ← tokens_readings false _ fun _ => ne_nil_of_mem_pieces] at hw
    obtain ⟨r, hr, hw⟩ := List.mem_flatMap.1 hw
    have htaken : ∃ w ∈ r.taken, ¬ IsBlock w := by
      by_contra hno
      refine hbad ((Reading.forall_taken hr (hright r hr)).1 (fun x hx => ?_) w hw)
      by_contra hx'
      exact hno ⟨x, hx, hx'⟩
    obtain ⟨x, hx, hx'⟩ := htaken
    rw [verdict_right hright, (foldlM_none hfits).2 ⟨x, List.mem_flatMap.2 ⟨r, hr, hx⟩, hx'⟩]
    rfl

theorem blocksLoop_accepted {s : Text} (h : ¬ Refused s) :
    blocksLoop s SEP hshALL = chosen (taken s) := by
  have hfits : Fits hshALL := by decide
  have hright : ∀ r ∈ readings false (pieces s), ¬ r.Wrong := fun r hr hw =>
    h (Or.inl ⟨r, hr, hw⟩)
  have hblocks : ∀ w ∈ taken s, IsBlock w := by
    intro w hw
    obtain ⟨r, hr, hw⟩ := List.mem_flatMap.1 hw
    refine (Reading.forall_taken hr (hright r hr)).2 (fun x hx => ?_) w hw
    by_contra hbad
    refine h (Or.inr ⟨x, ?_, hbad⟩)
    rw [tokens, ← tokens_readings false _ fun _ => ne_nil_of_mem_pieces]
    exact List.mem_flatMap.2 ⟨r, hr, hx⟩
  have hfold := foldlM_addBlock (taken s)
  rw [if_pos hblocks] at hfold
  rw [(blocksLoop_eq s hfits).1, verdict_right hright, ← taken, hfold]
  rfl

/-- The configuration, where one is accepted. -/
def Result.configuration (r : Result) : Option (BitVec 32) := if r.ok then some r.blocks else none

theorem configuration_some (dry_run : Bool) (blocks : BitVec 32) {content : Text}
    (hne : content ≠ []) : (initHashBlocks dry_run blocks (some content)).configuration =
      if blocksLoop (cstr content) SEP hshALL = hshINVALID then none
      else some (blocksLoop (cstr content) SEP hshALL) := by
  unfold initHashBlocks Result.configuration
  simp only [List.length_pos_iff, ne_eq, hne, not_false_eq_true, if_true, bne_iff_ne]
  split <;> simp_all

/-- The configuration with these blocks. -/
def union (start middle «end» : Bool) : BitVec 32 :=
  (if start then hshSTART else 0) ||| (if middle then hshMIDDLE else 0) |||
    if «end» then hshEND else 0

theorem blocksLoop_written : ∀ start middle «end» : Bool,
    union start middle «end» ≠ hshINVALID ∧ 0 < (written (union start middle «end»)).length ∧
      blocksLoop (cstr (written (union start middle «end»))) SEP hshALL =
        union start middle «end» := by
  decide +kernel

/-- **A file is read right under the condition on its comments, and what is written is read
back.** -/
theorem initHashBlocks_exact (dry_run : Bool) (blocks : BitVec 32) (content : Text)
    (start middle «end» : Bool) :
    ((initHashBlocks dry_run blocks (some content)).configuration = accepted content ↔
      ReadsRight content) ∧
    ∃ str, initHashBlocks false (union start middle «end») none =
        ⟨true, union start middle «end», some str⟩ ∧
      initHashBlocks dry_run blocks (some str) = ⟨true, union start middle «end», none⟩ := by
  constructor
  · unfold ReadsRight
    by_cases hne : content = []
    · subst hne
      refine iff_of_false (fun h => ?_) (fun h => h.1 rfl)
      have haccepted : accepted [] = some hshALL := by decide
      rw [haccepted] at h
      cases h
    · rw [configuration_some dry_run blocks hne, accepted]
      simp only [ne_eq, hne, not_false_eq_true, true_and]
      by_cases hrefused : Refused (cstr content)
      · rw [blocksLoop_refused hrefused, if_pos rfl]
        split
        · exact iff_of_false (fun h => Option.some_ne_none _ h.symm) (fun h => h.1 hrefused)
        · exact iff_of_true rfl hrefused
      · rw [blocksLoop_accepted hrefused, if_neg (chosen_fits _).ne_invalid]
        split
        · rw [Option.some_inj]
          exact ⟨fun h => ⟨hrefused, h⟩, fun h => h.2⟩
        · exact iff_of_false (Option.some_ne_none _) hrefused
  · obtain ⟨hvalid, hnonempty, hread⟩ := blocksLoop_written start middle «end»
    refine ⟨written (union start middle «end»), ?_, ?_⟩
    · simp [initHashBlocks, hvalid]
    · simp [initHashBlocks, hvalid, hnonempty, hread]

/-- A comment of several words, words behind a comment of one word, and a block in a comment. -/
theorem initHashBlocks_comment :
    ((initHashBlocks false 0 (some "# the blocks\nstart\n".toList)).configuration = none ∧
      accepted "# the blocks\nstart\n".toList = some hshSTART) ∧
    ((initHashBlocks false 0 (some "#blocks\nstart,end\n".toList)).configuration = none ∧
      accepted "#blocks\nstart,end\n".toList = some (hshSTART ||| hshEND)) ∧
    (initHashBlocks false 0 (some "# end\nstart\n".toList)).configuration =
        some (hshSTART ||| hshEND) ∧
      accepted "# end\nstart\n".toList = some hshSTART := by
  decide +kernel

end HashBlocks
