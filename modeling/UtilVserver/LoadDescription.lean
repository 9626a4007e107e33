import UtilVserver.H2ext
import UtilVserver.Lib.Decimal
import UtilVserver.Lib.Loops

/-!
# Loading of file formats (`src/h2ext.c`)

`load_description` reads a file into a buffer of 512 bytes, takes one line after the other from its
front and cuts the fields out of the buffer in place.

* `unescape`, `storedValue` — the value of a description.
* `parseFields` — the fields of a line, over any cursor that cuts out the next one.
* `getField` — the cursor of the source, which works in the buffer; `nextField` — the same within a
  line.
* `Loader`, `body` — the variables of the function and one round of its loop.
* `wellFormed`, `expected` — what a line, and a file, is to contribute.
* `Sound` — a state in front of a round that goes well.

Principal results: `load_exact` (when the well-formed lines of a file are loaded) and `loaded_eq` (no
other list is ever loaded).
-/

set_option autoImplicit false

namespace LoadDescription

open CString ByteBits H2ext Loops

/-! ## Values -/

/-- `strtol(s, &endptr, 8)` -/
def strtol8 (s : Text) : Int × Text :=
  let sg := scanSign (s.dropWhile isspace)
  let run := sg.2.takeWhile (isDigitIn 8)
  if run = [] then (0, s)
  else (clamp 64 (signed sg.1 (digitsVal 8 run)), sg.2.dropWhile (isDigitIn 8))

/-- The loop over the characters of a string; each round takes at least one of them. -/
def unescapeFrom : Nat → Text → List Byte
  | 0, _ => []
  | _ + 1, [] => []
  | n + 1, c :: s =>
    if c = '\\' then
      -- `c = endptr - 1`, and the loop goes on behind it
      BitVec.ofInt 8 (strtol8 s).1 :: unescapeFrom n (strtol8 s).2
    else BitVec.ofNat 8 c.toNat :: unescapeFrom n s

def unescape (field : Text) : List Byte := unescapeFrom field.length field

/-- A 16-bit number as it is stored, on a machine of the order `m`. -/
def storedShort (m : Endian) (order : Order) (field : Text) : Value :=
  let x := BitVec.ofInt 16 (strtol 64 field).1
  .sh order (if order.swaps m then m.swap16 x else x)

def storedLong (m : Endian) (order : Order) (field : Text) : Value :=
  let x := BitVec.ofInt 32 (strtol 64 field).1
  .lo order (if order.swaps m then m.swap32 x else x)

/-- What the field behind a type is turned into; none for an unknown type. -/
def storedValue (m : Endian) (type : Text) : Option (Text → Value) :=
  if type = "string".toList then some fun field => .st (unescape field)
  else if type = "short".toList then some (storedShort m .none)
  else if type = "long".toList then some (storedLong m .none)
  else if type = "leshort".toList then some (storedShort m .le)
  else if type = "beshort".toList then some (storedShort m .be)
  else if type = "lelong".toList then some (storedLong m .le)
  else if type = "belong".toList then some (storedLong m .be)
  else none

/-! ## Fields -/

/-- What `get_field` finds. -/
inductive Next (σ : Type) where
  /-- No field: the macro jumps to `new_line_and_free`. -/
  | missing
  /-- The cursor is at the end of the line, and a field behind the line would be taken. -/
  | across
  | field (t : Text) (s : σ)

/-- What becomes of a line, and where the cursor is then. -/
inductive Parsed (σ : Type) where
  | record (i : FileFormat) (s : σ)
  | malformed (s : σ)
  | across

section Parse

variable {σ : Type}

/-- `get_field()` and what follows. -/
def withField (next : σ → Next σ) (s : σ) (k : Text → σ → Parsed σ) : Parsed σ :=
  match next s with
  | .missing => .malformed s
  | .across => .across
  | .field t s => k t s

/-- The sanity check of an entry. -/
def checkEntry (i : FileFormat) (s : σ) : Parsed σ :=
  if i.offset < 0 then .malformed s
  else if (MAX_PEEK_SIZE : Int) < i.offset + i.len then .malformed s
  else .record i s

/-- The fields of a line, of which the first one has been cut out. -/
def parseFields (m : Endian) (next : σ → Next σ) (field : Text) (s : σ) : Parsed σ :=
  if field = [] then .malformed s
  else
    withField next s fun type s =>
      match storedValue m type with
      | none => .malformed s
      | some value =>
        withField next s fun v s =>
          withField next s fun extractor s =>
            withField next s fun peekInside s =>
              checkEntry ⟨(strtol 64 field).1, value v, (value v).width, extractor,
                BitVec.ofInt 32 (strtol 64 peekInside).1⟩ s

end Parse

/-! ## The buffer -/

/-- A character of a field. -/
def inField (c : Char) : Bool := c != '\t' && c != '\x00'

/-- The buffer and `ptr`. -/
structure Cursor where
  buf : Text
  ptr : Nat

/-- The first place from `ptr` on that does not pass. -/
def skip (p : Char → Bool) (buf : Text) (ptr : Nat) : Nat := ptr + ((buf.drop ptr).takeWhile p).length

/-- The field from `ptr` on, which is ended by a NUL. -/
def cutField (buf : Text) (ptr : Nat) : Text × Cursor :=
  let stop := skip inField buf ptr
  ((buf.drop ptr).takeWhile inField, ⟨buf.set stop '\x00', stop⟩)

/-- `get_field`, in a line that ends at `eol`. -/
def getField (eol : Nat) (c : Cursor) : Next Cursor :=
  if charAt c.buf (c.ptr + 1) = '\x00' then .missing
  else if c.ptr = eol then .across
  else
    let r := cutField c.buf (skip (· == '\t') c.buf (c.ptr + 1))
    .field r.1 r.2

/-- The variables of `load_description`, and what remains of the file.  `i` is the last entry of
the list. -/
structure Loader where
  buf : Text
  /-- `end - buf` -/
  fin : Nat
  rest : Text
  /-- The most that each of the reads returns. -/
  sizes : List Nat
  lineNo : Nat
  /-- The entries and their blocks. -/
  head : List (Nat × FileFormat)
  /-- The block that `prev` points at. -/
  prev : Option Nat
  /-- The number of blocks that have been allocated. -/
  blocks : Nat
  released : List Nat

inductive Outcome where
  | loaded (entries : List FileFormat)
  | longLine
  | across
  | doubleFree
  | outside
  deriving DecidableEq

/-- `sizeof(buf) - 1` -/
def CAPACITY : Nat := 511

/-- `strchr(buf, '\n')` -/
def newline (buf : Text) : Option Nat :=
  if '\n' ∈ cstr buf then some ((cstr buf).takeWhile (· != '\n')).length else none

/-- `Eread(fd, end, sizeof(buf) - 1 - (end - buf))` and what follows. -/
def Loader.read (s : Loader) : Pass Loader Outcome :=
  let n := min s.rest.length (min (CAPACITY - s.fin) (max 1 (s.sizes.headD CAPACITY)))
  if n = 0 then
    if s.fin = 0 then .leave (.loaded (s.head.map Prod.snd))
    else
      .again { s with
        buf := (s.buf.set s.fin '\n').set (s.fin + 1) '\x00', fin := s.fin + 1,
        sizes := s.sizes.tail }
  else
    .again { s with
      buf := (s.buf.take s.fin ++ s.rest.take n ++ s.buf.drop (s.fin + n)).set (s.fin + n) '\x00'
      fin := s.fin + n
      rest := s.rest.drop n
      sizes := s.sizes.tail }

/-- `new_line`: a count that is negative is far too large for `memmove`. -/
def Loader.newLine (s : Loader) (eol : Nat) : Pass Loader Outcome :=
  if eol < s.fin then
    let n := s.fin - (eol + 1)
    .again { s with buf := (s.buf.drop (eol + 1)).take n ++ s.buf.drop n, fin := n }
  else .leave .outside

/-- The block behind a block of the list. -/
def successor (p : Nat) : List Nat → Option Nat
  | a :: b :: l => if a = p then some b else successor p (b :: l)
  | _ => none

/-- The list when the link of a block is cut off. -/
def upTo (p : Nat) : List (Nat × FileFormat) → List (Nat × FileFormat)
  | [] => []
  | a :: l => if a.1 = p then [a] else a :: upTo p l

/-- `new_line_and_free`, for the block of the line; none when a block is released again. -/
def Loader.discard (s : Loader) (block : Nat) : Option Loader :=
  let released := block :: s.released
  match s.prev with
  | none => some { s with head := [], released := released }
  | some p =>
    match successor p (s.head.map Prod.fst ++ [block]) with
    | none => some { s with head := upTo p s.head, released := released }
    | some b =>
      if b ∈ released then none
      else some { s with head := upTo p s.head, released := b :: released }

/-- A line that is neither blank nor a comment. -/
def Loader.entry (m : Endian) (s : Loader) (eol : Nat) : Pass Loader Outcome :=
  let block := s.blocks
  let s := { s with
    blocks := s.blocks + 1
    prev := if s.head = [] then s.prev else s.head.getLast?.map Prod.fst }
  let first := cutField s.buf 0
  match parseFields m (getField eol) first.1 first.2 with
  | .record i c => { s with buf := c.buf, head := s.head ++ [(block, i)] }.newLine eol
  | .malformed c =>
    match { s with buf := c.buf }.discard block with
    | none => .leave .doubleFree
    | some s => s.newLine eol
  | .across => .leave .across

/-- A round of the loop. -/
def body (m : Endian) (s : Loader) : Pass Loader Outcome :=
  if '\x00' ∉ s.buf then .leave .outside
  else
    match newline s.buf with
    | none => if s.fin < CAPACITY then s.read else .leave .longLine
    | some eol =>
      let s := { s with buf := s.buf.set eol '\x00', lineNo := s.lineNo + 1 }
      if charAt s.buf 0 = '#' ∨ charAt s.buf 0 = '\x00' then s.newLine eol
      else s.entry m eol

/-- The start; only the first byte of the buffer is set. -/
def start (buf : Fin CAPACITY → Char) (file : Text) (sizes : List Nat) : Loader where
  buf := '\x00' :: List.ofFn buf
  fin := 0
  rest := file
  sizes := sizes
  lineNo := 0
  head := []
  prev := none
  blocks := 0
  released := []

/-- How a file is loaded, when the buffer held `buf` and the reads return at most `sizes`. -/
def Loads (m : Endian) (buf : Fin CAPACITY → Char) (file : Text) (sizes : List Nat) :
    Outcome → Prop := Leaves (body m) (start buf file sizes)

/-! ## What is to be loaded -/

/-- The field behind the cursor, within a line; `across` stands for the end of the line. -/
def nextField : Text → Next Text
  | [] => .across
  | _ :: r =>
    if r = [] then .missing
    else
      let field := r.dropWhile (· == '\t')
      .field (field.takeWhile (· != '\t')) (field.dropWhile (· != '\t'))

def parseLine (m : Endian) (line : Text) : Parsed Text :=
  parseFields m nextField (line.takeWhile (· != '\t')) (line.dropWhile (· != '\t'))

/-- The entry of a line; blank lines, comments and malformed lines have none. -/
def wellFormed (m : Endian) (line : Text) : Option FileFormat :=
  if line = [] ∨ charAt line 0 = '#' then none
  else
    match parseLine m line with
    | .record i _ => some i
    | _ => none

def expected (m : Endian) (file : Text) : List FileFormat :=
  (file.splitOn '\n').filterMap (wellFormed m)

/-- A line from which the loop goes on with what it is to contribute: a malformed one is in front of
all entries, and where it ends without a further field the character `behind` it is a NUL. -/
def SoundLine (m : Endian) (line : Text) (first : Prop) (behind : Char) : Prop :=
  line = [] ∨ charAt line 0 = '#' ∨
    match parseLine m line with
    | .record _ _ => True
    | .malformed _ => first
    | .across => first ∧ behind = '\x00'

/-- A newline that is found is in front of `end`, and its line is sound; and the buffer is not full
when none is found. -/
def Sound (m : Endian) (s : Loader) : Prop :=
  match newline s.buf with
  | none => s.fin < CAPACITY
  | some eol =>
    eol < s.fin ∧ SoundLine m (s.buf.take eol) (s.head = []) (charAt s.buf (eol + 1))

/-! ## The cursor in the buffer -/

theorem drop_behind (t u : Text) (c : Char) : (t ++ c :: u).drop (t.length + 1) = u := by
  rw [List.append_cons, ← List.length_singleton (a := c), ← List.length_append, List.drop_left]

theorem charAt_behind (t u : Text) (c : Char) :
    charAt (t ++ c :: u) (t.length + 1) = charAt u 0 := by
  have hnext := charAt_append_length (t ++ [c]) u
  rwa [List.length_append, List.length_singleton, List.append_assoc, List.singleton_append] at hnext

/-- What is behind the cursor's NUL: the rest of the line, its NUL and the text behind. -/
def behind : Text → Text → Text
  | [], tail => tail
  | _ :: r, tail => r ++ '\x00' :: tail

/-- The cursor is in front of `rest` in its line, which ends at `eol`; behind that is `tail`. -/
structure At (eol : Nat) (tail : Text) (c : Cursor) (rest : Text) : Prop where
  memory : ∃ pre, c.buf = pre ++ '\x00' :: behind rest tail ∧ c.ptr = pre.length ∧
    eol = pre.length + rest.length
  noNul : '\x00' ∉ rest
  tab : rest = [] ∨ ∃ r, rest = '\t' :: r

theorem At.drop {eol : Nat} {tail rest : Text} {c : Cursor} (h : At eol tail c rest) :
    c.buf.drop (eol + 1) = tail ∧ c.buf.length = eol + 1 + tail.length := by
  obtain ⟨pre, hbuf, -, heol⟩ := h.memory
  cases rest with
  | nil =>
    rw [List.length_nil, Nat.add_zero] at heol
    rw [hbuf, heol, behind]
    constructor
    · exact drop_behind pre tail '\x00'
    · simp only [List.length_append, List.length_cons]
      omega
  | cons x r =>
    have hsplit : pre ++ '\x00' :: (r ++ '\x00' :: tail) =
        (pre ++ '\x00' :: (r ++ ['\x00'])) ++ tail := by simp
    have hlen : (pre ++ '\x00' :: (r ++ ['\x00'])).length = eol + 1 := by
      rw [heol]
      simp only [List.length_append, List.length_cons, List.length_nil]
      omega
    rw [hbuf, behind, hsplit]
    constructor
    · rw [← hlen, List.drop_left]
    · rw [List.length_append, hlen]

/-- The cuts within a line leave the length of the buffer. -/
theorem At.length_eq {line tail rest : Text} {c : Cursor} (h : At line.length tail c rest) :
    c.buf.length = (line ++ '\x00' :: tail).length := by
  rw [h.drop.2, List.length_append, List.length_cons]
  omega

/-- The end of a field in front of what ends it. -/
theorem takeWhile_field {t u : Text} (hnul : '\x00' ∉ t) (htab : '\t' ∉ t)
    (hu : u.head?.any inField = false) :
    (t ++ u).takeWhile inField = t := by
  have hall : ∀ c ∈ t, inField c = true := by
    intro c hc
    simp only [inField, Bool.and_eq_true, bne_iff_ne, ne_eq]
    exact ⟨fun h => htab (h ▸ hc), fun h => hnul (h ▸ hc)⟩
  rw [List.takeWhile_append_of_pos hall]
  cases u with
  | nil => simp
  | cons c u =>
    have hc : inField c = false := by simpa using hu
    simp [hc]

/-- **A field is cut out of the buffer as it is cut out of its line.** -/
theorem cutField_at (pre tail : Text) {line : Text} (h : '\x00' ∉ line) :
    (cutField (pre ++ (line ++ '\x00' :: tail)) pre.length).1 = line.takeWhile (· != '\t') ∧
      At (pre.length + line.length) tail (cutField (pre ++ (line ++ '\x00' :: tail)) pre.length).2
        (line.dropWhile (· != '\t')) := by
  have hsplit := List.takeWhile_append_dropWhile (p := (· != '\t')) (l := line)
  generalize htd : line.takeWhile (· != '\t') = t at hsplit ⊢
  generalize hrd : line.dropWhile (· != '\t') = rest at hsplit ⊢
  have htab : '\t' ∉ t := by
    intro hmem
    rw [← htd] at hmem
    simpa using List.mem_takeWhile_imp hmem
  have hrest : rest = [] ∨ ∃ r, rest = '\t' :: r := by
    cases rest with
    | nil => exact Or.inl rfl
    | cons c r =>
      have hc := List.head_dropWhile_not (· != '\t') (l := line) (by simp [hrd])
      simp only [hrd, List.head_cons, bne_eq_false_iff_eq] at hc
      exact Or.inr ⟨r, by rw [hc]⟩
  rw [← hsplit, List.mem_append, not_or] at h
  have hdrop : (pre ++ (line ++ '\x00' :: tail)).drop pre.length = t ++ (rest ++ '\x00' :: tail) := by
    rw [List.drop_left, ← hsplit, List.append_assoc]
  have hstop : (rest ++ '\x00' :: tail).head?.any inField = false := by
    obtain rfl | ⟨r, rfl⟩ := hrest
    · rfl
    · rfl
  have htake := takeWhile_field h.1 htab hstop
  have hskip : skip inField (pre ++ (line ++ '\x00' :: tail)) pre.length = pre.length + t.length := by
    rw [skip, hdrop, htake]
  refine ⟨by rw [cutField, hdrop, htake], ⟨pre ++ t, ?_, ?_, ?_⟩, h.2, hrest⟩
  · show (pre ++ (line ++ '\x00' :: tail)).set (skip inField _ pre.length) '\x00' = _
    rw [hskip, ← hsplit, List.append_assoc, ← List.append_assoc pre, ← List.length_append,
      List.set_append_right _ _ (Nat.le_refl _), Nat.sub_self]
    obtain rfl | ⟨r, rfl⟩ := hrest
    · rfl
    · rfl
  · show skip inField _ pre.length = _
    rw [hskip, List.length_append]
  · rw [← hsplit, List.length_append, List.length_append, Nat.add_assoc]

/-- **The cursor of the buffer follows that of the line**: at the end of the line it depends on the
character behind. -/
theorem getField_at {eol : Nat} {tail rest : Text} {c : Cursor} (h : At eol tail c rest) :
    match nextField rest with
    | .missing => getField eol c = .missing
    | .across => getField eol c = if charAt tail 0 = '\x00' then .missing else .across
    | .field t rest' => ∃ c', getField eol c = .field t c' ∧ At eol tail c' rest' := by
  obtain ⟨⟨pre, hbuf, hptr, heol⟩, hnul, htab⟩ := h
  have hchar : charAt c.buf (c.ptr + 1) = charAt (behind rest tail) 0 := by
    rw [hbuf, hptr, charAt_behind]
  unfold getField
  rw [hchar]
  obtain rfl | ⟨r, rfl⟩ := htab
  · have hend : c.ptr = eol := by
      rw [hptr, heol]
      rfl
    rw [if_pos hend]
    rfl
  · rw [List.mem_cons, not_or] at hnul
    rw [nextField]
    by_cases hr : r = []
    · subst hr
      rfl
    · have hhead : charAt (behind ('\t' :: r) tail) 0 ≠ '\x00' := by
        obtain ⟨x, r', rfl⟩ := List.exists_cons_of_ne_nil hr
        intro hx
        exact hnul.2 (List.mem_cons.2 (Or.inl (Eq.symm hx)))
      have hlt : c.ptr ≠ eol := by
        rw [hptr, heol, List.length_cons]
        omega
      have hsplit := List.takeWhile_append_dropWhile (p := (· == '\t')) (l := r)
      generalize htabs : r.takeWhile (· == '\t') = tabs at hsplit
      have hline : '\x00' ∉ r.dropWhile (· == '\t') := fun hmem =>
        hnul.2 ((List.dropWhile_suffix _).subset hmem)
      -- the tabs in front of the field, and the place where it starts
      have hall : ∀ x ∈ tabs, (x == '\t') = true := by
        intro x hx
        rw [← htabs] at hx
        exact List.mem_takeWhile_imp (p := (· == '\t')) hx
      have hbehind : c.buf = (pre ++ '\x00' :: tabs) ++
          (r.dropWhile (· == '\t') ++ '\x00' :: tail) := by
        rw [hbuf, behind]
        conv_lhs => rw [← hsplit]
        simp
      have hdrop : c.buf.drop (c.ptr + 1) = tabs ++
          (r.dropWhile (· == '\t') ++ '\x00' :: tail) := by
        have hcons : (pre ++ '\x00' :: tabs) ++ (r.dropWhile (· == '\t') ++ '\x00' :: tail) =
            (pre ++ ['\x00']) ++ (tabs ++ (r.dropWhile (· == '\t') ++ '\x00' :: tail)) := by simp
        rw [hbehind, hcons, hptr, ← List.length_singleton (a := '\x00'), ← List.length_append,
          List.drop_left]
      have hstart : skip (· == '\t') c.buf (c.ptr + 1) = (pre ++ '\x00' :: tabs).length := by
        have htake : (tabs ++ (r.dropWhile (· == '\t') ++ '\x00' :: tail)).takeWhile (· == '\t') =
            tabs := by
          rw [List.takeWhile_append_of_pos hall]
          cases hd : r.dropWhile (· == '\t') with
          | nil => simp
          | cons x u =>
            have hx := List.head_dropWhile_not (· == '\t') (l := r) (by simp [hd])
            simp only [hd, List.head_cons] at hx
            simp [hx]
        rw [skip, hdrop, htake, hptr, List.length_append, List.length_cons]
        omega
      have heol' : eol = (pre ++ '\x00' :: tabs).length + (r.dropWhile (· == '\t')).length := by
        have hlen := congrArg List.length hsplit
        rw [List.length_append] at hlen
        rw [heol, List.length_cons, List.length_append, List.length_cons]
        omega
      obtain ⟨hfield, hat⟩ := cutField_at (pre ++ '\x00' :: tabs) tail hline
      rw [← hbehind, ← hstart] at hfield
      rw [← heol', ← hbehind, ← hstart] at hat
      rw [if_neg hr, if_neg hhead, if_neg hlt]
      exact ⟨_, by dsimp only; rw [hfield], hat⟩

/-! ## The fields of a line -/

/-- What becomes of a line in the buffer, when `p` becomes of it alone. -/
def Follows (eol : Nat) (tail : Text) (p : Parsed Text) (q : Parsed Cursor) : Prop :=
  match p with
  | .record i rest => ∃ c, q = .record i c ∧ At eol tail c rest
  | .malformed _ => ∃ c rest, q = .malformed c ∧ At eol tail c rest
  | .across =>
    if charAt tail 0 = '\x00' then ∃ c rest, q = .malformed c ∧ At eol tail c rest
    else q = .across

theorem withField_follows {eol : Nat} {tail rest : Text} {c : Cursor} {k : Text → Text → Parsed Text}
    {k' : Text → Cursor → Parsed Cursor} (h : At eol tail c rest)
    (hk : ∀ t c' rest', At eol tail c' rest' → Follows eol tail (k t rest') (k' t c')) :
    Follows eol tail (withField nextField rest k) (withField (getField eol) c k') := by
  have hnext := getField_at h
  unfold withField
  cases hn : nextField rest with
  | missing =>
    rw [hn] at hnext
    rw [show getField eol c = .missing from hnext]
    exact ⟨c, rest, rfl, h⟩
  | across =>
    rw [hn] at hnext
    dsimp only at hnext ⊢
    rw [hnext]
    unfold Follows
    dsimp only
    split
    · exact ⟨c, rest, rfl, h⟩
    · rfl
  | field t rest' =>
    rw [hn] at hnext
    obtain ⟨c', hc, hat⟩ := hnext
    rw [hc]
    exact hk t c' rest' hat

/-- **The line is parsed in the buffer as it is alone**, up to the character behind it. -/
theorem parseFields_follows (m : Endian) (field : Text) {eol : Nat} {tail rest : Text} {c : Cursor}
    (h : At eol tail c rest) :
    Follows eol tail (parseFields m nextField field rest) (parseFields m (getField eol) field c) := by
  unfold parseFields
  split
  · exact ⟨c, rest, rfl, h⟩
  · refine withField_follows h fun type c1 r1 h1 => ?_
    cases storedValue m type with
    | none => exact ⟨c1, r1, rfl, h1⟩
    | some value =>
      refine withField_follows h1 fun v c2 r2 h2 => ?_
      refine withField_follows h2 fun extractor c3 r3 h3 => ?_
      refine withField_follows h3 fun peekInside c4 r4 h4 => ?_
      unfold checkEntry
      split
      · exact ⟨c4, r4, rfl, h4⟩
      · split
        · exact ⟨c4, r4, rfl, h4⟩
        · exact ⟨c4, rfl, h4⟩

/-- The line at the front of the buffer. -/
theorem parse_follows (m : Endian) {line : Text} (tail : Text) (h : '\x00' ∉ line) :
    Follows line.length tail (parseLine m line)
      (parseFields m (getField line.length) (cutField (line ++ '\x00' :: tail) 0).1
        (cutField (line ++ '\x00' :: tail) 0).2) := by
  obtain ⟨hfield, hat⟩ := cutField_at [] tail h
  rw [List.nil_append, List.length_nil, Nat.zero_add] at hat
  rw [List.nil_append, List.length_nil] at hfield
  rw [hfield]
  exact parseFields_follows m _ hat

/-! ## A line of the buffer -/

/-- The first newline of a string: the line in front of it holds no newline and no NUL. -/
theorem newline_some {buf : Text} {eol : Nat} (h : newline buf = some eol) :
    ∃ line tail, buf = line ++ '\n' :: tail ∧ eol = line.length ∧ '\n' ∉ line ∧ '\x00' ∉ line := by
  unfold newline at h
  obtain ⟨hmem, heol⟩ := (Option.ite_none_right_eq_some ..).1 h
  obtain ⟨r, hbuf, -⟩ := cstr_append buf
  obtain hnot | ⟨line, t, hline, hs⟩ := strchr_cases (cstr buf) '\n'
  · exact absurd hmem hnot
  · have hnul := cstr_noNul buf
    rw [hs, List.mem_append, not_or] at hnul
    have htake : (cstr buf).takeWhile (· != '\n') = line := by rw [hs, takeWhile_bne_stop hline]
    refine ⟨line, t ++ r, ?_, ?_, hline, hnul.1⟩
    · conv_lhs => rw [hbuf, hs]
      simp
    · rw [← Option.some.inj heol, htake]

theorem newline_eq {line tail : Text} (hline : '\n' ∉ line) (hnul : '\x00' ∉ line) :
    newline (line ++ '\n' :: tail) = some line.length := by
  have hcstr : cstr (line ++ '\n' :: tail) = line ++ '\n' :: cstr tail :=
    cstr_append_of_noNul hnul ('\n' :: tail)
  rw [newline, hcstr, if_pos (by simp), takeWhile_bne_stop hline]

theorem newline_none {buf : Text} (h : newline buf = none) : '\n' ∉ cstr buf := by
  intro hmem
  rw [newline, if_pos hmem] at h
  cases h

/-- `eol` and the buffer when its newline has been overwritten. -/
theorem set_newline (line tail : Text) :
    (line ++ '\n' :: tail).set line.length '\x00' = line ++ '\x00' :: tail := by
  rw [List.set_append_right _ _ (Nat.le_refl _), Nat.sub_self]
  rfl

/-! ## Rounds of the loop -/

/-- What is in the buffer and has not been taken. -/
def Loader.content (s : Loader) : Text := s.buf.take s.fin

/-- What holds of the variables in front of each round. -/
structure Shape (s : Loader) : Prop where
  size : s.buf.length = CAPACITY + 1
  fits : s.fin ≤ CAPACITY
  nul : ∃ j, s.fin ≤ j ∧ s.buf[j]? = some '\x00'
  first : s.head = [] → s.prev = none
  distinct : (s.head.map Prod.fst).Nodup
  fresh : ∀ b ∈ s.head.map Prod.fst, b < s.blocks

theorem Shape.content_length {s : Loader} (h : Shape s) : s.content.length = s.fin := by
  have := h.size
  have := h.fits
  rw [Loader.content, List.length_take]
  omega

theorem Shape.mem_nul {s : Loader} (h : Shape s) : '\x00' ∈ s.buf := by
  obtain ⟨j, -, hj⟩ := h.nul
  exact List.mem_of_getElem? hj

theorem shape_start (buf : Fin CAPACITY → Char) (file : Text) (sizes : List Nat) :
    Shape (start buf file sizes) where
  size := by
    show ('\x00' :: List.ofFn buf).length = _
    rw [List.length_cons, List.length_ofFn]
  fits := Nat.zero_le _
  nul := ⟨0, Nat.le_refl _, rfl⟩
  first := fun _ => rfl
  distinct := List.nodup_nil
  fresh := fun b hb => by cases hb

/-- The block of the line is the one behind the last entry. -/
theorem successor_last {p b : Nat} {l : List Nat} (h : p ∉ l) :
    successor p (l ++ [p] ++ [b]) = some b := by
  induction l with
  | nil => simp [successor]
  | cons a l ih =>
    rw [List.mem_cons, not_or] at h
    cases l with
    | nil =>
      show successor p (a :: p :: [b]) = some b
      rw [successor, if_neg (Ne.symm h.1)]
      exact ih h.2
    | cons a' l =>
      show successor p (a :: a' :: (l ++ [p] ++ [b])) = some b
      rw [successor, if_neg (Ne.symm h.1)]
      exact ih h.2

/-- **A malformed line behind an entry releases its block twice**, and one in front of all entries
leaves the list empty. -/
theorem discard_eq {s : Loader} {c : Text} (h : Shape s) :
    ({ s with
        blocks := s.blocks + 1
        prev := if s.head = [] then s.prev else s.head.getLast?.map Prod.fst
        buf := c } : Loader).discard s.blocks =
      if s.head = [] then
        some { s with blocks := s.blocks + 1, buf := c, released := s.blocks :: s.released }
      else none := by
  unfold Loader.discard
  dsimp only
  by_cases hnil : s.head = []
  · rw [if_pos hnil, if_pos hnil, h.first hnil]
    dsimp only
    rw [hnil]
  · obtain ⟨l, a, hl⟩ := List.eq_nil_or_concat s.head |>.resolve_left hnil
    have hlast : s.head.getLast?.map Prod.fst = some a.1 := by
      rw [hl]
      simp
    have hmap : s.head.map Prod.fst = l.map Prod.fst ++ [a.1] := by
      rw [hl]
      simp
    have hnot : a.1 ∉ l.map Prod.fst := by
      have hd := h.distinct
      rw [hmap, List.nodup_append] at hd
      intro hmem
      exact hd.2.2 _ hmem _ (List.mem_singleton_self _) rfl
    rw [if_neg hnil, if_neg hnil, hlast]
    dsimp only
    rw [hmap, successor_last hnot]
    dsimp only
    rw [if_pos List.mem_cons_self]

/-- The move of what is behind the line to the front of the buffer. -/
theorem newLine_spec {s : Loader} {eol : Nat} {tail : Text} (hdrop : s.buf.drop (eol + 1) = tail)
    (hsize : s.buf.length = CAPACITY + 1) (hfits : s.fin ≤ CAPACITY) (hlt : eol < s.fin) :
    ∃ s', s.newLine eol = .again s' ∧ s'.content = tail.take (s.fin - (eol + 1)) ∧
      s'.buf.length = CAPACITY + 1 ∧ s'.fin = s.fin - (eol + 1) ∧
      (∀ j, s.fin ≤ j → s'.buf[j]? = s.buf[j]?) ∧
      s' = { s with buf := s'.buf, fin := s.fin - (eol + 1) } := by
  have htail : tail.length = CAPACITY + 1 - (eol + 1) := by
    rw [← hdrop, List.length_drop, hsize]
  have hlen : (tail.take (s.fin - (eol + 1))).length = s.fin - (eol + 1) := by
    rw [List.length_take]
    omega
  refine ⟨_, if_pos hlt, ?_, ?_, rfl, fun j hj => ?_, rfl⟩
  · show ((s.buf.drop (eol + 1)).take _ ++ s.buf.drop _).take _ = _
    rw [hdrop, List.take_left' hlen]
  · show ((s.buf.drop (eol + 1)).take _ ++ s.buf.drop _).length = _
    rw [hdrop, List.length_append, hlen, List.length_drop, hsize]
    omega
  · show ((s.buf.drop (eol + 1)).take _ ++ s.buf.drop _)[j]? = _
    rw [hdrop, List.getElem?_append_right (by omega), hlen, List.getElem?_drop]
    congr 1
    omega

/-- What a round does in a sound state. -/
inductive Turn (m : Endian) (s : Loader) : Pass Loader Outcome → Prop where
  | done (hfin : s.fin = 0) (hrest : s.rest = []) : Turn m s (.leave (.loaded (s.head.map Prod.snd)))
  | eof {s' : Loader} (hnone : newline s.buf = none) (hfin : s.fin ≠ 0) (hfull : s.fin < CAPACITY)
      (hrest : s.rest = []) (hrest' : s'.rest = []) (hcontent : s'.content = s.content ++ ['\n'])
      (hfin' : s'.fin = s.fin + 1) (hhead : s'.head = s.head) : Turn m s (.again s')
  | more {s' : Loader} {t : Text} (ht : t ≠ []) (hrest : s.rest = t ++ s'.rest)
      (hcontent : s'.content = s.content ++ t) (hhead : s'.head = s.head) : Turn m s (.again s')
  | line {s' : Loader} {line : Text} (hline : '\n' ∉ line) (hnul : '\x00' ∉ line)
      (hcontent : s.content = line ++ '\n' :: s'.content) (hrest : s'.rest = s.rest)
      (hfin : s'.fin ≤ s.fin)
      (hhead : s'.head.map Prod.snd = s.head.map Prod.snd ++ (wellFormed m line).toList) :
      Turn m s (.again s')

theorem set_append_left' {a b : Text} {x : Char} {i : Nat} (h : i = a.length) :
    (a ++ b).set i x = a ++ b.set 0 x := by
  rw [h, List.set_append_right _ _ (Nat.le_refl _), Nat.sub_self]

/-- The state when the data has been ended by a NUL. -/
theorem shape_ended_data {s : Loader} {c r : Text} (hbuf : s.buf = c ++ '\x00' :: r)
    (hlen : c.length = s.fin) (hsize : s.buf.length = CAPACITY + 1)
    (hfirst : s.head = [] → s.prev = none) (hdistinct : (s.head.map Prod.fst).Nodup)
    (hfresh : ∀ b ∈ s.head.map Prod.fst, b < s.blocks) : s.content = c ∧ Shape s := by
  have hfits : s.fin ≤ CAPACITY := by
    rw [hbuf, List.length_append, List.length_cons] at hsize
    omega
  constructor
  · rw [Loader.content, hbuf, List.take_left' hlen]
  · refine ⟨hsize, hfits, ⟨s.fin, Nat.le_refl _, ?_⟩, hfirst, hdistinct, hfresh⟩
    rw [hbuf, ← hlen, List.getElem?_append_right (Nat.le_refl _), Nat.sub_self]
    rfl

/-- The end of the file behind a line without a newline. -/
theorem eof_turn {m : Endian} {s s' : Loader} (h : Shape s) (hnone : newline s.buf = none)
    (hfull : s.fin < CAPACITY) (hfin : s.fin ≠ 0) (hrest : s.rest = [])
    (hs' : s' = { s with
      buf := (s.buf.set s.fin '\n').set (s.fin + 1) '\x00', fin := s.fin + 1,
      sizes := s.sizes.tail }) : Turn m s (.again s') ∧ Shape s' := by
  have hsize := h.size
  have hcontent := h.content_length
  -- the buffer up to `end`, the two places that are set, and the others
  obtain ⟨x, y, r, hr⟩ : ∃ x y r, s.buf.drop s.fin = x :: y :: r := by
    have hlen : (s.buf.drop s.fin).length = CAPACITY + 1 - s.fin := by
      rw [List.length_drop, hsize]
    match hd : s.buf.drop s.fin with
    | [] =>
      rw [hd, List.length_nil] at hlen
      omega
    | [x] =>
      rw [hd, List.length_singleton] at hlen
      omega
    | x :: y :: r => exact ⟨x, y, r, rfl⟩
  have hbuf : s.buf = s.content ++ x :: y :: r := by
    rw [← hr, Loader.content, List.take_append_drop]
  have hlen : (s.content ++ ['\n']).length = s.fin + 1 := by
    rw [List.length_append, hcontent]
    rfl
  have hset : (s.buf.set s.fin '\n').set (s.fin + 1) '\x00' =
      (s.content ++ ['\n']) ++ '\x00' :: r := by
    rw [hbuf, set_append_left' hcontent.symm]
    show (s.content ++ '\n' :: y :: r).set (s.fin + 1) '\x00' = _
    rw [List.append_cons, set_append_left' hlen.symm]
    rfl
  have hsize' : ((s.buf.set s.fin '\n').set (s.fin + 1) '\x00').length = CAPACITY + 1 := by
    rw [List.length_set, List.length_set, hsize]
  have hend : s'.content = s.content ++ ['\n'] ∧ Shape s' := by
    subst hs'
    exact shape_ended_data hset hlen hsize' h.first h.distinct h.fresh
  subst hs'
  exact ⟨.eof hnone hfin hfull hrest hrest hend.1 rfl rfl, hend.2⟩

/-- A read of `n` characters. -/
theorem more_turn {m : Endian} {s s' : Loader} {n : Nat} (h : Shape s) (hn : n ≠ 0)
    (hrest : n ≤ s.rest.length) (hfits : s.fin + n ≤ CAPACITY)
    (hs' : s' = { s with
      buf := (s.buf.take s.fin ++ s.rest.take n ++ s.buf.drop (s.fin + n)).set (s.fin + n) '\x00'
      fin := s.fin + n
      rest := s.rest.drop n
      sizes := s.sizes.tail }) : Turn m s (.again s') ∧ Shape s' := by
  have hsize := h.size
  have hcontent := h.content_length
  have htake : (s.rest.take n).length = n := List.length_take_of_le hrest
  obtain ⟨x, r, hr⟩ : ∃ x r, s.buf.drop (s.fin + n) = x :: r := by
    have hlen : (s.buf.drop (s.fin + n)).length = CAPACITY + 1 - (s.fin + n) := by
      rw [List.length_drop, hsize]
    cases hd : s.buf.drop (s.fin + n) with
    | nil =>
      rw [hd, List.length_nil] at hlen
      omega
    | cons x r => exact ⟨x, r, rfl⟩
  have hlen : (s.content ++ s.rest.take n).length = s.fin + n := by
    rw [List.length_append, hcontent, htake]
  have hset : (s.buf.take s.fin ++ s.rest.take n ++ s.buf.drop (s.fin + n)).set (s.fin + n) '\x00' =
      (s.content ++ s.rest.take n) ++ '\x00' :: r := by
    rw [hr]
    exact set_append_left' hlen.symm
  have hsize' : ((s.buf.take s.fin ++ s.rest.take n ++ s.buf.drop (s.fin + n)).set (s.fin + n)
      '\x00').length = CAPACITY + 1 := by
    rw [List.length_set, List.length_append, List.length_append, List.length_take, htake,
      List.length_drop, hsize]
    omega
  have hne : s.rest.take n ≠ [] := by
    intro hnil
    rw [hnil, List.length_nil] at htake
    exact hn htake.symm
  have hend : s'.content = s.content ++ s.rest.take n ∧ Shape s' := by
    subst hs'
    exact shape_ended_data hset hlen hsize' h.first h.distinct h.fresh
  subst hs'
  exact ⟨.more hne (List.take_append_drop n s.rest).symm hend.1 rfl, hend.2⟩

/-- A read, or the end of the file. -/
theorem read_turn (m : Endian) {s : Loader} (h : Shape s) (hnone : newline s.buf = none)
    (hfull : s.fin < CAPACITY) :
    Turn m s s.read ∧ ∀ s', s.read = .again s' → Shape s' := by
  unfold Loader.read
  dsimp only
  split
  · rename_i hn
    have hrest : s.rest = [] := by
      rw [← List.length_eq_zero_iff]
      omega
    split
    · rename_i hfin
      exact ⟨.done hfin hrest, fun s' h' => by cases h'⟩
    · rename_i hfin
      obtain ⟨hturn, hshape⟩ := eof_turn (m := m) h hnone hfull hfin hrest rfl
      refine ⟨hturn, fun s' h' => ?_⟩
      cases h'
      exact hshape
  · rename_i hn
    obtain ⟨hturn, hshape⟩ := more_turn (m := m) h hn (Nat.min_le_left _ _) (by omega) rfl
    refine ⟨hturn, fun s' h' => ?_⟩
    cases h'
    exact hshape

/-- The entries when the one of the line has been put behind them. -/
theorem Shape.concat {s : Loader} (h : Shape s) (i : FileFormat) :
    ((s.head ++ [(s.blocks, i)]).map Prod.fst).Nodup ∧
      ∀ b ∈ (s.head ++ [(s.blocks, i)]).map Prod.fst, b < s.blocks + 1 := by
  rw [List.map_append, List.nodup_append]
  refine ⟨⟨h.distinct, by simp, ?_⟩, ?_⟩
  · intro b hb b' hb'
    rw [List.mem_singleton.1 hb']
    exact Nat.ne_of_lt (h.fresh b hb)
  · intro b hb
    rcases List.mem_append.1 hb with hb | hb
    · exact Nat.lt_succ_of_lt (h.fresh b hb)
    · rw [List.mem_singleton.1 hb]
      exact Nat.lt_succ_self _

/-- A character that is no longer part of the line. -/
theorem getElem?_behind {a b tail : Text} {eol j : Nat} (ha : a.drop (eol + 1) = tail)
    (hb : b.drop (eol + 1) = tail) (hj : eol < j) : a[j]? = b[j]? := by
  have hsplit : j = eol + 1 + (j - (eol + 1)) := by omega
  rw [hsplit, ← List.getElem?_drop, ← List.getElem?_drop, ha, hb]

/-- The end of a line that contributes what it is to contribute. -/
theorem newLine_turn (m : Endian) {s s2 : Loader} {line tail : Text} (h : Shape s)
    (hbuf : s.buf = line ++ '\n' :: tail) (hline : '\n' ∉ line) (hnul : '\x00' ∉ line)
    (hlt : line.length < s.fin) (hfin : s2.fin = s.fin) (hrest : s2.rest = s.rest)
    (hsize : s2.buf.length = CAPACITY + 1) (hdrop : s2.buf.drop (line.length + 1) = tail)
    (hhead : s2.head.map Prod.snd = s.head.map Prod.snd ++ (wellFormed m line).toList)
    (hfirst : s2.head = [] → s2.prev = none) (hdistinct : (s2.head.map Prod.fst).Nodup)
    (hfresh : ∀ b ∈ s2.head.map Prod.fst, b < s2.blocks) :
    Turn m s (s2.newLine line.length) ∧ ∀ s', s2.newLine line.length = .again s' → Shape s' := by
  have hfits : s2.fin ≤ CAPACITY := hfin ▸ h.fits
  have hlt2 : line.length < s2.fin := hfin ▸ hlt
  obtain ⟨s', hs', hcontent, hsize', hfin', hother, heq⟩ := newLine_spec hdrop hsize hfits hlt2
  have hdropS : s.buf.drop (line.length + 1) = tail := by rw [hbuf, drop_behind]
  have hsplit : s.content = line ++ '\n' :: s'.content := by
    obtain ⟨k, hk⟩ : ∃ k, s.fin = line.length + (k + 1) := ⟨s.fin - line.length - 1, by omega⟩
    have hk' : s2.fin - (line.length + 1) = k := by omega
    rw [Loader.content, hbuf, hk, List.take_length_add_append, List.take_succ_cons, hcontent, hk']
  have hrest' : s'.rest = s.rest := by rw [heq, hrest]
  have hhead' : s'.head = s2.head := by rw [heq]
  rw [hs']
  refine ⟨.line hline hnul hsplit hrest' ?_ ?_, fun t ht => ?_⟩
  · rw [hfin', hfin]
    exact Nat.sub_le _ _
  · rw [hhead', hhead]
  · cases ht
    obtain ⟨j, hj, hget⟩ := h.nul
    refine ⟨hsize', ?_, ⟨j, ?_, ?_⟩, ?_, ?_, ?_⟩
    · rw [hfin']
      exact (Nat.sub_le _ _).trans hfits
    · rw [hfin', hfin]
      omega
    · rw [hother j (by omega), getElem?_behind hdrop hdropS (by omega), hget]
    · rw [heq]
      exact hfirst
    · rw [heq]
      exact hdistinct
    · rw [heq]
      exact hfresh

/-- What becomes of a line that is neither blank nor a comment. -/
theorem entry_cases (m : Endian) {s : Loader} {line tail : Text} (h : Shape s)
    (hbuf : s.buf = line ++ '\x00' :: tail) (hnul : '\x00' ∉ line) :
    (∃ i rest c, parseLine m line = .record i rest ∧ At line.length tail c rest ∧
      s.entry m line.length = ({ s with
        blocks := s.blocks + 1
        prev := if s.head = [] then s.prev else s.head.getLast?.map Prod.fst
        buf := c.buf
        head := s.head ++ [(s.blocks, i)] } : Loader).newLine line.length) ∨
    (((∃ rest, parseLine m line = .malformed rest) ∨
        (parseLine m line = .across ∧ charAt tail 0 = '\x00')) ∧
      ∃ c rest, At line.length tail c rest ∧ s.entry m line.length =
        if s.head = [] then ({ s with
          blocks := s.blocks + 1
          buf := c.buf
          released := s.blocks :: s.released } : Loader).newLine line.length
        else .leave .doubleFree) ∨
    (parseLine m line = .across ∧ charAt tail 0 ≠ '\x00' ∧
      s.entry m line.length = .leave .across) := by
  have hfollows := parse_follows m tail hnul
  rw [← hbuf] at hfollows
  -- a block that is released
  have hdiscard : ∀ c : Cursor,
      (match ({ s with
          blocks := s.blocks + 1
          prev := if s.head = [] then s.prev else s.head.getLast?.map Prod.fst
          buf := c.buf } : Loader).discard s.blocks with
        | none => Pass.leave Outcome.doubleFree
        | some s => s.newLine line.length) =
      if s.head = [] then ({ s with
          blocks := s.blocks + 1
          buf := c.buf
          released := s.blocks :: s.released } : Loader).newLine line.length
        else .leave .doubleFree := by
    intro c
    rw [discard_eq h]
    by_cases hnil : s.head = []
    · rw [if_pos hnil, if_pos hnil]
    · rw [if_neg hnil, if_neg hnil]
  unfold Loader.entry
  dsimp only
  cases hp : parseLine m line with
  | record i rest =>
    rw [hp] at hfollows
    obtain ⟨c, hq, hat⟩ := hfollows
    rw [hq]
    exact Or.inl ⟨i, rest, c, rfl, hat, rfl⟩
  | malformed rest =>
    rw [hp] at hfollows
    obtain ⟨c, rest', hq, hat⟩ := hfollows
    rw [hq]
    exact Or.inr (Or.inl ⟨Or.inl ⟨rest, rfl⟩, c, rest', hat, hdiscard c⟩)
  | across =>
    rw [hp] at hfollows
    unfold Follows at hfollows
    dsimp only at hfollows
    split at hfollows
    · rename_i hbehind
      obtain ⟨c, rest', hq, hat⟩ := hfollows
      rw [hq]
      exact Or.inr (Or.inl ⟨Or.inr ⟨rfl, hbehind⟩, c, rest', hat, hdiscard c⟩)
    · rename_i hbehind
      rw [hfollows]
      exact Or.inr (Or.inr ⟨rfl, hbehind, rfl⟩)

/-- The variables when the newline has been overwritten. -/
def Loader.ended (s : Loader) (line tail : Text) : Loader :=
  { s with buf := line ++ '\x00' :: tail, lineNo := s.lineNo + 1 }

/-- The round of a line. -/
theorem body_line (m : Endian) {s : Loader} {line tail : Text} (h : Shape s)
    (hbuf : s.buf = line ++ '\n' :: tail) (hline : '\n' ∉ line) (hnul : '\x00' ∉ line) :
    body m s = if line = [] ∨ charAt line 0 = '#' then (s.ended line tail).newLine line.length
      else (s.ended line tail).entry m line.length := by
  have hmem := h.mem_nul
  have hset : s.buf.set line.length '\x00' = line ++ '\x00' :: tail := by rw [hbuf, set_newline]
  have hnewline : newline s.buf = some line.length := by rw [hbuf, newline_eq hline hnul]
  have hchar : (charAt (line ++ '\x00' :: tail) 0 = '#' ∨ charAt (line ++ '\x00' :: tail) 0 = '\x00')
      ↔ (line = [] ∨ charAt line 0 = '#') := by
    cases line with
    | nil => exact ⟨fun _ => Or.inl rfl, fun _ => Or.inr rfl⟩
    | cons c line =>
      constructor
      · rintro (hc | hc)
        · exact Or.inr hc
        · exact absurd (List.mem_cons.2 (Or.inl hc.symm)) hnul
      · rintro (hc | hc)
        · cases hc
        · exact Or.inl hc
  unfold body
  rw [if_neg (not_not.2 hmem), hnewline]
  dsimp only
  rw [hset]
  by_cases hskip : line = [] ∨ charAt line 0 = '#'
  · rw [if_pos (hchar.2 hskip), if_pos hskip]
    rfl
  · rw [if_neg (fun hc => hskip (hchar.1 hc)), if_neg hskip]
    rfl

theorem shape_ended {s : Loader} {line tail : Text} (h : Shape s)
    (hbuf : s.buf = line ++ '\n' :: tail) : Shape (s.ended line tail) := by
  have hsize := h.size
  obtain ⟨j, hj, hget⟩ := h.nul
  refine ⟨?_, h.fits, ⟨j, hj, ?_⟩, h.first, h.distinct, h.fresh⟩
  · rw [hbuf] at hsize
    show (line ++ '\x00' :: tail).length = _
    rw [← hsize]
    simp
  · show (line ++ '\x00' :: tail)[j]? = _
    rw [← set_newline, ← hbuf, List.getElem?_set]
    split
    · have hin : line.length < s.buf.length := by
        rw [hbuf, List.length_append, List.length_cons]
        omega
      rw [if_pos hin]
    · exact hget

/-- **What a round does in a sound state**, and that it leads to a state of the same shape. -/
theorem body_turn (m : Endian) {s : Loader} (h : Shape s) (hsound : Sound m s) :
    Turn m s (body m s) ∧ ∀ s', body m s = .again s' → Shape s' := by
  unfold Sound at hsound
  cases hn : newline s.buf with
  | none =>
    rw [hn] at hsound
    have hfull : s.fin < CAPACITY := hsound
    have hbody : body m s = s.read := by
      unfold body
      rw [if_neg (not_not.2 h.mem_nul), hn]
      dsimp only
      rw [if_pos hfull]
    rw [hbody]
    exact read_turn m h hn hfull
  | some eol =>
    rw [hn] at hsound
    obtain ⟨line, tail, hbuf, rfl, hline, hnul⟩ := newline_some hn
    obtain ⟨hlt, hsoundLine⟩ := hsound
    have htake : s.buf.take line.length = line := by rw [hbuf, List.take_left]
    have hbehind : charAt s.buf (line.length + 1) = charAt tail 0 := by rw [hbuf, charAt_behind]
    have hended := shape_ended h hbuf
    have hsize : (s.ended line tail).buf.length = CAPACITY + 1 := hended.size
    rw [htake, hbehind] at hsoundLine
    rw [body_line m h hbuf hline hnul]
    by_cases hskip : line = [] ∨ charAt line 0 = '#'
    · have hnothing : wellFormed m line = none := by rw [wellFormed, if_pos hskip]
      have hdrop : (s.ended line tail).buf.drop (line.length + 1) = tail := drop_behind line tail _
      rw [if_pos hskip]
      refine newLine_turn m h hbuf hline hnul hlt rfl rfl hsize hdrop ?_ h.first h.distinct h.fresh
      rw [hnothing]
      exact (List.append_nil _).symm
    · rw [if_neg hskip]
      have hentry : wellFormed m line = match parseLine m line with
          | .record i _ => some i
          | _ => none := by rw [wellFormed, if_neg hskip]
      have hparsed := hsoundLine.resolve_left fun h => hskip (Or.inl h)
      have hparsed := hparsed.resolve_left fun h => hskip (Or.inr h)
      obtain ⟨i, rest, c, hp, hat, heq⟩ | ⟨hp, c, rest, hat, heq⟩ | ⟨hp, hnot, -⟩ :=
        entry_cases m hended rfl hnul
      · rw [hp] at hentry
        rw [heq]
        obtain ⟨hdrop, -⟩ := hat.drop
        obtain ⟨hdistinct, hfreshBlock⟩ := h.concat i
        refine newLine_turn m h hbuf hline hnul hlt rfl rfl ?_ hdrop ?_ ?_ hdistinct hfreshBlock
        · exact hat.length_eq.trans hsize
        · show (s.head ++ [(s.blocks, i)]).map Prod.snd = _
          rw [hentry, List.map_append]
          rfl
        · intro hnil
          simp at hnil
      · have hnil : s.head = [] := by
          rcases hp with ⟨r, hp⟩ | ⟨hp, -⟩
          · rw [hp] at hparsed
            exact hparsed
          · rw [hp] at hparsed
            exact hparsed.1
        have hnothing : wellFormed m line = none := by
          rcases hp with ⟨r, hp⟩ | ⟨hp, -⟩
          · rw [hentry, hp]
          · rw [hentry, hp]
        have hnil' : (s.ended line tail).head = [] := hnil
        rw [heq, if_pos hnil']
        obtain ⟨hdrop, -⟩ := hat.drop
        refine newLine_turn m h hbuf hline hnul hlt rfl rfl ?_ hdrop ?_ h.first h.distinct ?_
        · exact hat.length_eq.trans hsize
        · rw [hnothing]
          exact (List.append_nil _).symm
        · intro b hb
          exact Nat.lt_succ_of_lt (h.fresh b hb)
      · rw [hp] at hparsed
        exact absurd hparsed.2 hnot

/-! ## The end of the loop -/

/-- The lines that can be seen, where the end of the file ends the last one. -/
def closed (content : Text) : Text :=
  if '\x00' ∈ content then cstr content
  else if content = [] ∨ content.getLast? = some '\n' then content
  else content ++ ['\n']

theorem closed_length (content : Text) : (closed content).length ≤ content.length + 1 := by
  unfold closed
  split
  · exact (List.takeWhile_prefix _).length_le.trans (Nat.le_succ _)
  · split
    · exact Nat.le_succ _
    · rw [List.length_append]
      rfl

/-- The line at the front of the content. -/
theorem closed_line {line r : Text} (hnul : '\x00' ∉ line) :
    closed (line ++ '\n' :: r) = line ++ '\n' :: closed r := by
  have hmem : '\x00' ∈ line ++ '\n' :: r ↔ '\x00' ∈ r := by
    rw [List.mem_append, List.mem_cons]
    exact ⟨fun h => (h.resolve_left hnul).resolve_left (by decide), fun h => Or.inr (Or.inr h)⟩
  unfold closed
  by_cases hr : '\x00' ∈ r
  · have hcstr : cstr (line ++ '\n' :: r) = line ++ '\n' :: cstr r :=
      cstr_append_of_noNul hnul ('\n' :: r)
    rw [if_pos (hmem.2 hr), if_pos hr, hcstr]
  · rw [if_neg (fun h => hr (hmem.1 h)), if_neg hr]
    cases r with
    | nil => simp
    | cons c r =>
      have hlast : (line ++ '\n' :: c :: r).getLast? = (c :: r).getLast? := by
        rw [List.append_cons, List.getLast?_append_of_ne_nil _ (List.cons_ne_nil c r)]
      have hne : line ++ '\n' :: c :: r ≠ [] := by simp
      have hne' : c :: r ≠ [] := by simp
      rw [hlast]
      by_cases hnl : (c :: r).getLast? = some '\n'
      · rw [if_pos (Or.inr hnl), if_pos (Or.inr hnl)]
      · rw [if_neg (fun h => h.elim hne hnl), if_neg (fun h => h.elim hne' hnl)]
        simp

/-- The newline that the end of the file adds. -/
theorem closed_eof {content : Text} (hnone : '\n' ∉ cstr content) (hne : content ≠ []) :
    closed (content ++ ['\n']) = closed content := by
  unfold closed
  by_cases hnul : '\x00' ∈ content
  · rw [if_pos hnul, if_pos (List.mem_append_left _ hnul)]
    obtain ⟨t, r, ht, hs⟩ := (strchr_cases content '\x00').resolve_left (fun h => h hnul)
    rw [hs, List.append_assoc, List.cons_append, cstr_nul ht, cstr_nul ht]
  · have hall : cstr content = content := cstr_eq_self hnul
    rw [hall] at hnone
    have hlast : content.getLast? ≠ some '\n' := fun h => hnone (List.mem_of_getLast? h)
    have hmem : '\x00' ∉ content ++ ['\n'] := by
      rw [List.mem_append, List.mem_singleton, not_or]
      exact ⟨hnul, by decide⟩
    rw [if_neg hmem, if_neg hnul, if_pos (Or.inr (by simp)),
      if_neg (fun h => h.elim hne hlast)]

/-- What is left to be done: the rest of the file, then the lines that can be seen, and the space
that the end of the file still fills. -/
def Loader.measure (s : Loader) : Nat :=
  s.rest.length * 2 ^ 20 + ((closed s.content).count '\n' * 1024 + (CAPACITY - s.fin))

theorem measure_lt (m : Endian) {s s' : Loader} (h : Shape s) (h' : Shape s')
    (ht : Turn m s (.again s')) : s'.measure < s.measure := by
  have hcap : CAPACITY = 511 := rfl
  have hfits := h.fits
  have hfits' := h'.fits
  have hcontent := h.content_length
  have hcontent' := h'.content_length
  unfold Loader.measure
  cases ht with
  | eof hnone hfin hfull hrest hrest' hc hfin' hhead =>
    have hne : s.content ≠ [] := by
      intro hnil
      rw [hnil] at hcontent
      exact hfin hcontent.symm
    -- what is visible of the content is visible in the buffer
    have hvisible : '\n' ∉ cstr s.content := by
      intro hmem
      have hseen : cstr s.content <+: cstr s.buf := by
        have hbuf : s.buf = s.content ++ s.buf.drop s.fin := (List.take_append_drop _ _).symm
        rw [hbuf]
        unfold cstr
        rw [List.takeWhile_append]
        split
        · exact (List.takeWhile_prefix _).trans (List.prefix_append _ _)
        · exact List.prefix_refl _
      exact newline_none hnone (hseen.subset hmem)
    rw [hrest, hrest', hc, closed_eof hvisible hne, hfin']
    omega
  | @more _ t ht hrest hc hhead =>
    have hpos : 0 < t.length := List.length_pos_iff.2 ht
    have hcount : (closed s'.content).count '\n' ≤ s'.content.length + 1 :=
      List.count_le_length.trans (closed_length _)
    have hlen : s.rest.length = t.length + s'.rest.length := by rw [hrest, List.length_append]
    omega
  | line hline hnul hc hrest hfin hhead =>
    rw [hrest, hc, closed_line hnul, List.count_append, List.count_cons_self,
      List.count_eq_zero_of_not_mem hline]
    omega

/-! ## Sound runs -/

theorem expected_line (m : Endian) {line : Text} (r : Text) (h : '\n' ∉ line) :
    expected m (line ++ '\n' :: r) = (wellFormed m line).toList ++ expected m r := by
  rw [expected, expected, List.splitOn_append_cons_self_of_not_mem h, List.filterMap_cons]
  cases wellFormed m line <;> rfl

theorem expected_nil (m : Endian) : expected m [] = [] := by
  rw [expected, List.splitOn_nil, List.filterMap_cons]
  rfl

/-- The newline at the end of a file makes no difference. -/
theorem expected_eof (m : Endian) (content : Text) :
    expected m (content ++ ['\n']) = expected m content := by
  rw [expected, expected, List.splitOn_append_cons_self, List.filterMap_append, List.splitOn_nil,
    List.filterMap_cons]
  exact List.append_nil _

/-- The entries and what is still expected are what is expected of the file. -/
def Keeps (m : Endian) (file : Text) (s : Loader) : Prop :=
  s.head.map Prod.snd ++ expected m (s.content ++ s.rest) = expected m file

theorem keeps_again {m : Endian} {file : Text} {s s' : Loader} (h : Keeps m file s)
    (ht : Turn m s (.again s')) : Keeps m file s' := by
  unfold Keeps at h ⊢
  cases ht with
  | eof hnone hfin hfull hrest hrest' hc hfin' hhead =>
    rw [hrest, List.append_nil] at h
    rw [hrest', hhead, hc, List.append_nil, expected_eof, h]
  | more ht hrest hc hhead =>
    rw [hrest, ← List.append_assoc] at h
    rw [hhead, hc, h]
  | line hline hnul hc hrest hfin hhead =>
    rw [hc, List.append_assoc, List.cons_append, expected_line m _ hline] at h
    rw [hhead, hrest, List.append_assoc, h]

/-- **A run through sound states loads the file.** -/
theorem loads_of_sound {m : Endian} {buf : Fin CAPACITY → Char} {file : Text} {sizes : List Nat}
    (h : ∀ s, Reaches (body m) (start buf file sizes) s → Sound m s) :
    Loads m buf file sizes (.loaded (expected m file)) := by
  let Reached : Loader → Prop := fun s => Reaches (body m) (start buf file sizes) s ∧ Shape s
  have hturn : ∀ s, Reached s → Turn m s (body m s) ∧ ∀ s', body m s = .again s' → Shape s' :=
    fun s hs => body_turn m hs.2 (h s hs.1)
  have hagain : ∀ s s', Reached s → body m s = .again s' → Reached s' ∧ Turn m s (.again s') := by
    intro s s' hs hb
    obtain ⟨ht, hshape⟩ := hturn s hs
    rw [hb] at ht
    exact ⟨⟨hs.1.again hb, hshape s' hb⟩, ht⟩
  have hstart : Reached (start buf file sizes) := ⟨Reaches.start, shape_start buf file sizes⟩
  have hstep : ∀ s s', Reached s → body m s = .again s' → Reached s' ∧ s'.measure < s.measure := by
    intro s s' hs hb
    obtain ⟨hs', ht⟩ := hagain s s' hs hb
    exact ⟨hs', measure_lt m hs.2 hs'.2 ht⟩
  obtain ⟨r, hr⟩ := ends_of_measure Loader.measure hstep hstart
  have hkeep : ∀ s s', Reached s ∧ Keeps m file s → body m s = .again s' →
      Reached s' ∧ Keeps m file s' := by
    rintro s s' ⟨hs, hkeeps⟩ hb
    obtain ⟨hs', ht⟩ := hagain s s' hs hb
    exact ⟨hs', keeps_again hkeeps ht⟩
  have hleave : ∀ s r, Reached s ∧ Keeps m file s → body m s = .leave r →
      r = .loaded (expected m file) := by
    rintro s r ⟨hs, hkeeps⟩ hb
    obtain ⟨ht, -⟩ := hturn s hs
    rw [hb] at ht
    cases ht with
    | done hfin hrest =>
      have hnil : s.content = [] := by rw [Loader.content, hfin, List.take_zero]
      unfold Keeps at hkeeps
      rw [hnil, hrest, List.append_nil, expected_nil, List.append_nil] at hkeeps
      rw [hkeeps]
  have hfirst : Keeps m file (start buf file sizes) := rfl
  have hresult : r = .loaded (expected m file) :=
    Leaves.invariant (Q := fun r => r = .loaded (expected m file)) hkeep hleave hr ⟨hstart, hfirst⟩
  rw [hresult] at hr
  exact hr

/-! ## Unsound states -/

/-- The result of a run that goes wrong. -/
def Bad (p : Pass Loader Outcome) : Prop := ∃ r, p = .leave r ∧ ∀ entries, r ≠ .loaded entries

theorem newLine_bad {s : Loader} {eol : Nat} (h : ¬ eol < s.fin) : Bad (s.newLine eol) :=
  ⟨.outside, if_neg h, fun _ => nofun⟩

/-- **In a state that is not sound the loop is left with another result.** -/
theorem body_bad (m : Endian) {s : Loader} (h : Shape s) (hunsound : ¬ Sound m s) :
    Bad (body m s) := by
  unfold Sound at hunsound
  cases hn : newline s.buf with
  | none =>
    rw [hn] at hunsound
    refine ⟨.longLine, ?_, fun _ => nofun⟩
    unfold body
    rw [if_neg (not_not.2 h.mem_nul), hn]
    dsimp only
    exact if_neg hunsound
  | some eol =>
    rw [hn] at hunsound
    obtain ⟨line, tail, hbuf, rfl, hline, hnul⟩ := newline_some hn
    have htake : s.buf.take line.length = line := by rw [hbuf, List.take_left]
    have hbehind : charAt s.buf (line.length + 1) = charAt tail 0 := by rw [hbuf, charAt_behind]
    dsimp only at hunsound
    rw [htake, hbehind] at hunsound
    have hended := shape_ended h hbuf
    rw [body_line m h hbuf hline hnul]
    by_cases hskip : line = [] ∨ charAt line 0 = '#'
    · rw [if_pos hskip]
      refine newLine_bad fun hlt => hunsound ⟨hlt, ?_⟩
      exact hskip.elim Or.inl fun hc => Or.inr (Or.inl hc)
    · rw [if_neg hskip]
      obtain ⟨i, rest, c, hp, -, heq⟩ | ⟨hp, c, rest, -, heq⟩ | ⟨-, -, heq⟩ :=
        entry_cases m hended rfl hnul
      · rw [heq]
        refine newLine_bad fun hlt => hunsound ⟨hlt, Or.inr (Or.inr ?_)⟩
        rw [hp]
        trivial
      · rw [heq]
        split
        · rename_i hnil
          refine newLine_bad fun hlt => hunsound ⟨hlt, Or.inr (Or.inr ?_)⟩
          rcases hp with ⟨r, hp⟩ | ⟨hp, hzero⟩
          · rw [hp]
            exact hnil
          · rw [hp]
            exact ⟨hnil, hzero⟩
        · exact ⟨.doubleFree, rfl, fun _ => nofun⟩
      · exact ⟨.across, heq, fun _ => nofun⟩

theorem shape_of_reaches {m : Endian} {buf : Fin CAPACITY → Char} {file : Text} {sizes : List Nat}
    {s : Loader} (h : Reaches (body m) (start buf file sizes) s) : Shape s := by
  induction h with
  | start => exact shape_start buf file sizes
  | @again t u _ hb ih =>
    by_cases hsound : Sound m t
    · exact (body_turn m ih hsound).2 u hb
    · obtain ⟨r, hleave, -⟩ := body_bad m ih hsound
      rw [hb] at hleave
      cases hleave

/-- A run that loads a list goes through sound states only. -/
theorem sound_of_loads {m : Endian} {buf : Fin CAPACITY → Char} {file : Text} {sizes : List Nat}
    {entries : List FileFormat} (h : Loads m buf file sizes (.loaded entries)) :
    ∀ s, Reaches (body m) (start buf file sizes) s → Sound m s := by
  intro s hs
  by_contra hunsound
  obtain ⟨r, hleave, hother⟩ := body_bad m (shape_of_reaches hs) hunsound
  have hr : Loads m buf file sizes r := hs.leaves_iff.2 (leaves_of_leave hleave)
  exact hother entries (hr.unique h)

/-- **No other list is ever loaded.** -/
theorem loaded_eq {m : Endian} {buf : Fin CAPACITY → Char} {file : Text} {sizes : List Nat}
    {entries : List FileFormat} (h : Loads m buf file sizes (.loaded entries)) :
    entries = expected m file :=
  Outcome.loaded.inj (h.unique (loads_of_sound (sound_of_loads h)))

/-- The loop, in terms of the states in front of its rounds. -/
theorem loads_iff_sound (m : Endian) (buf : Fin CAPACITY → Char) (file : Text) (sizes : List Nat) :
    Loads m buf file sizes (.loaded (expected m file)) ↔
      ∀ s, Reaches (body m) (start buf file sizes) s → Sound m s :=
  ⟨sound_of_loads, loads_of_sound⟩

/-! ## The entries -/

theorem withField_record {σ : Type} {next : σ → Next σ} {s t : σ} {k : Text → σ → Parsed σ}
    {i : FileFormat} (h : withField next s k = .record i t) :
    ∃ field s', next s = .field field s' ∧ k field s' = .record i t := by
  unfold withField at h
  split at h
  · cases h
  · cases h
  · rename_i field s' hn
    exact ⟨field, s', hn, h⟩

/-- **An entry has passed the check**, and its value is that of its field. -/
theorem loaded_of_parseFields {σ : Type} {m : Endian} {next : σ → Next σ} {field : Text} {s t : σ}
    {i : FileFormat} (h : parseFields m next field s = .record i t) : Loaded i := by
  unfold parseFields at h
  split at h
  · cases h
  · obtain ⟨type, s1, -, h⟩ := withField_record h
    split at h
    · cases h
    · obtain ⟨v, s2, -, h⟩ := withField_record h
      obtain ⟨extractor, s3, -, h⟩ := withField_record h
      obtain ⟨peekInside, s4, -, h⟩ := withField_record h
      unfold checkEntry at h
      dsimp only at h
      split at h
      · cases h
      · split at h
        · cases h
        · rename_i hoffset hinside
          cases h
          exact ⟨Int.not_lt.1 hoffset, Int.not_lt.1 hinside, rfl⟩

/-- **What is loaded is a list that can be compared.** -/
theorem loaded_of_loads {m : Endian} {buf : Fin CAPACITY → Char} {file : Text} {sizes : List Nat}
    {entries : List FileFormat} (h : Loads m buf file sizes (.loaded entries)) :
    ∀ i ∈ entries, Loaded i := by
  intro i hi
  rw [loaded_eq h] at hi
  obtain ⟨line, -, hline⟩ := List.mem_filterMap.1 hi
  unfold wellFormed at hline
  split at hline
  · cases hline
  · split at hline
    · rename_i j rest hp
      cases hline
      exact loaded_of_parseFields hp
    · cases hline

/-- **A stored number is the number of its field, in the stated order.** -/
theorem storedShort_denotes (m : Endian) (order : Order) (field : Text) (b : List Byte) :
    (storedShort m order field).denotes m b =
      ((order.on m).read16 b == BitVec.ofInt 16 (strtol 64 field).1) := by
  unfold storedShort Value.denotes
  dsimp only
  cases order.swaps m with
  | false => rfl
  | true => rw [if_pos rfl, if_pos rfl, swap16_swap16]

theorem storedLong_denotes (m : Endian) (order : Order) (field : Text) (b : List Byte) :
    (storedLong m order field).denotes m b =
      ((order.on m).read32 b == BitVec.ofInt 32 (strtol 64 field).1) := by
  unfold storedLong Value.denotes
  dsimp only
  cases order.swaps m with
  | false => rfl
  | true => rw [if_pos rfl, if_pos rfl, swap32_swap32]

/-! ## The lines of the file -/

/-- A line that is neither blank nor a comment and has no entry. -/
def Malformed (m : Endian) (line : Text) : Prop :=
  line ≠ [] ∧ charAt line 0 ≠ '#' ∧ wellFormed m line = none

/-- The malformed lines are in front of the first well-formed one. -/
def MalformedFirst (m : Endian) (lines : List Text) : Prop :=
  ∀ a line b, lines = a ++ line :: b → Malformed m line → ∀ l ∈ a, wellFormed m l = none

/-- A line fits into the buffer together with its newline, and holds no NUL. -/
def Fits (line : Text) : Prop := line.length < CAPACITY ∧ '\x00' ∉ line

/-- The newline that is found in the buffer is in front of `end`, and where its line ends without a
further field there is a NUL behind it. -/
def BufferSound (m : Endian) (s : Loader) : Prop :=
  ∀ eol, newline s.buf = some eol → eol < s.fin ∧
    (s.buf.take eol = [] ∨ charAt (s.buf.take eol) 0 = '#' ∨
      (parseLine m (s.buf.take eol) = .across → charAt s.buf (eol + 1) = '\x00'))

/-- The lines that have been taken, and those that remain; the end of the file may have added a
blank one. -/
structure Taken (m : Endian) (file : Text) (s : Loader) (ls : List Text) : Prop where
  rows : ∃ k, file.splitOn '\n' ++ List.replicate k [] = ls ++ (s.content ++ s.rest).splitOn '\n'
  entries : s.head.map Prod.snd = ls.filterMap (wellFormed m)

theorem taken_start (m : Endian) (buf : Fin CAPACITY → Char) (file : Text) (sizes : List Nat) :
    Taken m file (start buf file sizes) [] where
  rows := ⟨0, List.append_nil _⟩
  entries := rfl

/-- A round takes a line or none. -/
theorem taken_again {m : Endian} {file : Text} {s s' : Loader} {ls : List Text}
    (h : Taken m file s ls) (ht : Turn m s (.again s')) :
    Taken m file s' ls ∨ ∃ line, '\n' ∉ line ∧ '\x00' ∉ line ∧
      s.content = line ++ '\n' :: s'.content ∧ Taken m file s' (ls ++ [line]) := by
  obtain ⟨⟨k, hrows⟩, hentries⟩ := h
  cases ht with
  | eof hnone hfin hfull hrest hrest' hc hfin' hhead =>
    refine Or.inl ⟨⟨k + 1, ?_⟩, by rw [hhead, hentries]⟩
    rw [List.replicate_succ', ← List.append_assoc, hrows, hc, hrest, hrest', List.append_nil,
      List.append_nil, List.splitOn_append_cons_self, List.splitOn_nil, List.append_assoc]
  | more ht hrest hc hhead =>
    refine Or.inl ⟨⟨k, ?_⟩, by rw [hhead, hentries]⟩
    rw [hrows, hc, hrest, List.append_assoc]
  | line hline hnul hc hrest hfin hhead =>
    refine Or.inr ⟨_, hline, hnul, hc, ⟨k, ?_⟩, ?_⟩
    · rw [hrows, hc, hrest, List.append_assoc, List.cons_append,
        List.splitOn_append_cons_self_of_not_mem hline, List.append_assoc, List.singleton_append]
    · rw [hhead, hentries, List.filterMap_append, List.filterMap_cons]
      cases wellFormed m _ <;> rfl

/-- Blank lines behind the lines make no difference. -/
theorem malformedFirst_blank {m : Endian} {lines : List Text} (k : Nat) :
    MalformedFirst m (lines ++ List.replicate k []) ↔ MalformedFirst m lines := by
  constructor
  · intro h a line b hsplit
    refine h a line (b ++ List.replicate k []) ?_
    rw [hsplit, List.append_assoc, List.cons_append]
  · intro h a line b hsplit hmal
    obtain ⟨d, ha, hb⟩ | ⟨d, ha, hb⟩ := List.append_eq_append_iff.1 hsplit
    · have hmem : line ∈ List.replicate k ([] : Text) := by
        rw [hb]
        simp
      exact absurd (List.eq_of_mem_replicate hmem) hmal.1
    · cases d with
      | nil =>
        have hmem : line ∈ List.replicate k ([] : Text) := by
          rw [List.nil_append] at hb
          rw [← hb]
          exact List.mem_cons_self
        exact absurd (List.eq_of_mem_replicate hmem) hmal.1
      | cons x d =>
        obtain ⟨rfl, -⟩ := List.cons.inj hb
        exact h a line d ha hmal

/-- The line in front of the newline that is found. -/
theorem newline_of_content {s : Loader} {line r : Text} (hc : s.content = line ++ '\n' :: r)
    (hline : '\n' ∉ line) (hnul : '\x00' ∉ line) :
    newline s.buf = some line.length ∧ s.buf.take line.length = line := by
  have hbuf : s.buf = line ++ '\n' :: (r ++ s.buf.drop s.fin) := by
    conv_lhs => rw [← List.take_append_drop s.fin s.buf]
    rw [show s.buf.take s.fin = line ++ '\n' :: r from hc, List.append_assoc, List.cons_append]
  constructor
  · rw [hbuf, newline_eq hline hnul]
  · rw [hbuf, List.take_left]

/-- The entries of lines that have none. -/
theorem head_nil_iff {m : Endian} {file : Text} {s : Loader} {ls : List Text}
    (h : Taken m file s ls) : s.head = [] ↔ ∀ l ∈ ls, wellFormed m l = none := by
  rw [← List.map_eq_nil_iff (f := Prod.snd), h.entries, List.filterMap_eq_nil_iff]

theorem malformedFirst_concat {m : Endian} {ls : List Text} {line : Text} :
    MalformedFirst m (ls ++ [line]) ↔
      MalformedFirst m ls ∧ (Malformed m line → ∀ l ∈ ls, wellFormed m l = none) := by
  constructor
  · intro h
    refine ⟨fun a l b hsplit => h a l (b ++ [line]) ?_, h ls line [] rfl⟩
    rw [hsplit, List.append_assoc, List.cons_append]
  · rintro ⟨h, hlast⟩ a l b hsplit hmal
    obtain rfl | ⟨b', x, rfl⟩ := List.eq_nil_or_concat b
    · obtain ⟨rfl, hl⟩ := List.append_inj' hsplit rfl
      rw [List.singleton_inj] at hl
      rw [hl] at hlast
      exact hlast hmal
    · rw [List.concat_eq_append, ← List.cons_append, ← List.append_assoc] at hsplit
      exact h a l b' (List.append_inj' hsplit rfl).1 hmal

/-- A malformed line is sound in front of all entries only. -/
theorem SoundLine.first {m : Endian} {line : Text} {first : Prop} {behind : Char}
    (h : SoundLine m line first behind) (hmal : Malformed m line) : first := by
  obtain ⟨hne, hhash, hnone⟩ := hmal
  rcases h with h | h | h
  · exact absurd h hne
  · exact absurd h hhash
  · rw [wellFormed, if_neg (fun hskip => hskip.elim hne hhash)] at hnone
    cases hp : parseLine m line with
    | record i rest =>
      rw [hp] at hnone
      cases hnone
    | malformed rest =>
      rw [hp] at h
      exact h
    | across =>
      rw [hp] at h
      exact h.1

/-- What a sound run has taken so far. -/
structure TakenSound (m : Endian) (file : Text) (s : Loader) (ls : List Text) : Prop where
  taken : Taken m file s ls
  order : MalformedFirst m ls
  fits : ∀ line ∈ ls, Fits line

theorem takenSound_again {m : Endian} {file : Text} {s s' : Loader} {ls : List Text} (h : Shape s)
    (hsound : Sound m s) (htaken : TakenSound m file s ls) (ht : Turn m s (.again s')) :
    ∃ ls', TakenSound m file s' ls' := by
  obtain htaken' | ⟨line, hline, hnul, hc, htaken'⟩ := taken_again htaken.taken ht
  · exact ⟨ls, htaken', htaken.order, htaken.fits⟩
  · obtain ⟨hnewline, htake⟩ := newline_of_content hc hline hnul
    unfold Sound at hsound
    rw [hnewline] at hsound
    obtain ⟨hlt, hsoundLine⟩ := hsound
    rw [htake] at hsoundLine
    refine ⟨ls ++ [line], htaken', malformedFirst_concat.2 ⟨htaken.order, fun hmal => ?_⟩, ?_⟩
    · exact (head_nil_iff htaken.taken).1 (hsoundLine.first hmal)
    · intro l hl
      rcases List.mem_append.1 hl with hl | hl
      · exact htaken.fits l hl
      · rw [List.mem_singleton.1 hl]
        exact ⟨Nat.lt_of_lt_of_le hlt h.fits, hnul⟩

/-- **A sound run has taken lines that fit, the malformed ones first.** -/
theorem lines_of_sound {m : Endian} {buf : Fin CAPACITY → Char} {file : Text} {sizes : List Nat}
    (h : ∀ s, Reaches (body m) (start buf file sizes) s → Sound m s) :
    MalformedFirst m (file.splitOn '\n') ∧ ∀ line ∈ file.splitOn '\n', Fits line := by
  let I : Loader → Prop := fun s =>
    Reaches (body m) (start buf file sizes) s ∧ ∃ ls, TakenSound m file s ls
  let Q : Outcome → Prop := fun _ =>
    MalformedFirst m (file.splitOn '\n') ∧ ∀ line ∈ file.splitOn '\n', Fits line
  have hturn : ∀ s, I s → Turn m s (body m s) :=
    fun s hs => (body_turn m (shape_of_reaches hs.1) (h s hs.1)).1
  have hagain : ∀ s s', I s → body m s = .again s' → I s' := by
    rintro s s' ⟨hs, ls, hls⟩ hb
    have ht := hturn s ⟨hs, ls, hls⟩
    rw [hb] at ht
    exact ⟨hs.again hb, takenSound_again (shape_of_reaches hs) (h s hs) hls ht⟩
  have hleave : ∀ s r, I s → body m s = .leave r → Q r := by
    rintro s r ⟨hs, ls, hls⟩ hb
    have ht := hturn s ⟨hs, ls, hls⟩
    rw [hb] at ht
    cases ht with
    | done hfin hrest =>
      -- nothing remains but the blank line behind the last newline
      obtain ⟨k, hrows⟩ := hls.taken.rows
      have hnil : s.content = [] := by rw [Loader.content, hfin, List.take_zero]
      rw [hnil, hrest, List.append_nil, List.splitOn_nil] at hrows
      have hblank : ¬ Malformed m [] := fun hmal => hmal.1 rfl
      constructor
      · rw [← malformedFirst_blank k, hrows, malformedFirst_concat]
        exact ⟨hls.order, fun hmal => absurd hmal hblank⟩
      · intro line hline
        have hmem : line ∈ ls ++ [[]] := by
          rw [← hrows]
          exact List.mem_append_left _ hline
        rcases List.mem_append.1 hmem with hmem | hmem
        · exact hls.fits line hmem
        · rw [List.mem_singleton.1 hmem]
          exact ⟨Nat.zero_lt_succ _, List.not_mem_nil⟩
  have hstart : I (start buf file sizes) := by
    refine ⟨Reaches.start, [], taken_start m buf file sizes, ?_, fun _ hl => by cases hl⟩
    intro a line b hsplit
    simp at hsplit
  exact Leaves.invariant (Q := Q) hagain hleave (loads_of_sound h) hstart

/-! ## The condition -/

/-- A text without newlines is at the front of the first row. -/
theorem exists_row {a : Text} (h : '\n' ∉ a) (b : Text) :
    ∃ r ls, (a ++ b).splitOn '\n' = (a ++ r) :: ls := by
  obtain hb | ⟨t, u, ht, rfl⟩ := strchr_cases b '\n'
  · exact ⟨b, [], List.splitOn_eq_singleton (by simp [h, hb])⟩
  · refine ⟨t, u.splitOn '\n', ?_⟩
    rw [← List.append_assoc, List.splitOn_append_cons_self_of_not_mem (by simp [h, ht])]

/-- What remains of a file whose lines fit. -/
theorem fits_of_taken {m : Endian} {file : Text} {s : Loader} {ls : List Text}
    (h : Taken m file s ls) (hfits : ∀ line ∈ file.splitOn '\n', Fits line) :
    ∀ line ∈ (s.content ++ s.rest).splitOn '\n', Fits line := by
  obtain ⟨k, hrows⟩ := h.rows
  intro line hline
  have hmem : line ∈ file.splitOn '\n' ++ List.replicate k [] := by
    rw [hrows]
    exact List.mem_append_right _ hline
  rcases List.mem_append.1 hmem with hmem | hmem
  · exact hfits line hmem
  · rw [List.eq_of_mem_replicate hmem]
    exact ⟨Nat.zero_lt_succ _, List.not_mem_nil⟩

/-- The buffer is not full while no newline is found. -/
theorem not_full {s : Loader} (h : Shape s) (hnone : newline s.buf = none)
    (hfits : ∀ line ∈ (s.content ++ s.rest).splitOn '\n', Fits line) : s.fin < CAPACITY := by
  have hbuf : s.buf = s.content ++ s.buf.drop s.fin := (List.take_append_drop _ _).symm
  have hvisible := newline_none hnone
  obtain hnul | ⟨t, r, ht, hs⟩ := strchr_cases s.content '\x00'
  · have hcontent : '\n' ∉ s.content := by
      intro hmem
      refine hvisible ?_
      rw [hbuf, cstr_append_of_noNul hnul]
      exact List.mem_append_left _ hmem
    obtain ⟨r, ls, hrow⟩ := exists_row hcontent s.rest
    have hlt := (hfits _ (hrow ▸ List.mem_cons_self)).1
    rw [List.length_append, h.content_length] at hlt
    omega
  · -- the row of the NUL
    have htext : '\n' ∉ t := by
      intro hmem
      refine hvisible ?_
      rw [hbuf, hs, List.append_assoc, List.cons_append, cstr_nul ht]
      exact hmem
    have hrow : '\n' ∉ t ++ ['\x00'] := by simp [htext]
    obtain ⟨u, ls, hrows⟩ := exists_row hrow (r ++ s.rest)
    rw [hs, List.append_assoc, List.cons_append, List.append_cons, hrows] at hfits
    have hnul := (hfits _ List.mem_cons_self).2
    simp at hnul

/-- **A state is sound when the lines of the file are in order and the buffer is sound.** -/
theorem sound_of_taken {m : Endian} {file : Text} {s : Loader} {ls : List Text} (h : Shape s)
    (htaken : Taken m file s ls) (hfirst : MalformedFirst m (file.splitOn '\n'))
    (hfits : ∀ line ∈ file.splitOn '\n', Fits line) (hbuffer : BufferSound m s) : Sound m s := by
  unfold Sound
  cases hn : newline s.buf with
  | none => exact not_full h hn (fits_of_taken htaken hfits)
  | some eol =>
    obtain ⟨line, tail, hbuf, rfl, hline, hnul⟩ := newline_some hn
    obtain ⟨hlt, hbehind⟩ := hbuffer _ hn
    refine ⟨hlt, ?_⟩
    have htake : s.buf.take line.length = line := by rw [hbuf, List.take_left]
    rw [htake] at hbehind ⊢
    -- a malformed line comes before all entries
    have hempty : Malformed m line → s.head = [] := by
      intro hmal
      obtain ⟨k, hrows⟩ := htaken.rows
      obtain ⟨j, hj⟩ : ∃ j, s.fin = line.length + (j + 1) := ⟨s.fin - line.length - 1, by omega⟩
      have hcontent : s.content = line ++ '\n' :: tail.take j := by
        rw [Loader.content, hbuf, hj, List.take_length_add_append, List.take_succ_cons]
      rw [hcontent, List.append_assoc, List.cons_append,
        List.splitOn_append_cons_self_of_not_mem hline] at hrows
      exact (head_nil_iff htaken).2 ((malformedFirst_blank k).2 hfirst ls line _ hrows hmal)
    by_cases hskip : line = [] ∨ charAt line 0 = '#'
    · exact hskip.elim Or.inl fun hc => Or.inr (Or.inl hc)
    · have hmal : (∀ i rest, parseLine m line ≠ .record i rest) → Malformed m line := by
        intro hrecord
        refine ⟨fun hc => hskip (Or.inl hc), fun hc => hskip (Or.inr hc), ?_⟩
        rw [wellFormed, if_neg hskip]
        cases hp : parseLine m line with
        | record i rest => exact absurd hp (hrecord i rest)
        | malformed _ => rfl
        | across => rfl
      refine Or.inr (Or.inr ?_)
      cases hp : parseLine m line with
      | record i rest => trivial
      | malformed rest => exact hempty (hmal (by simp [hp]))
      | across =>
        rcases hbehind with hc | hc | hc
        · exact absurd (Or.inl hc) hskip
        · exact absurd (Or.inr hc) hskip
        · exact ⟨hempty (hmal (by simp [hp])), hc hp⟩

/-- **`load_description` loads the well-formed lines of a file exactly when** its malformed lines are
in front of them, each line fits into the buffer and holds no NUL, and in front of each round the
buffer is sound. -/
theorem load_exact (m : Endian) (buf : Fin CAPACITY → Char) (file : Text) (sizes : List Nat) :
    Loads m buf file sizes (.loaded (expected m file)) ↔
      MalformedFirst m (file.splitOn '\n') ∧ (∀ line ∈ file.splitOn '\n', Fits line) ∧
        ∀ s, Reaches (body m) (start buf file sizes) s → BufferSound m s := by
  rw [loads_iff_sound]
  constructor
  · intro h
    obtain ⟨hfirst, hfits⟩ := lines_of_sound h
    refine ⟨hfirst, hfits, fun s hs eol hn => ?_⟩
    have hsound := h s hs
    unfold Sound at hsound
    rw [hn] at hsound
    obtain ⟨hlt, hline⟩ := hsound
    refine ⟨hlt, ?_⟩
    rcases hline with hline | hline | hline
    · exact Or.inl hline
    · exact Or.inr (Or.inl hline)
    · refine Or.inr (Or.inr fun hp => ?_)
      rw [hp] at hline
      exact hline.2
  · rintro ⟨hfirst, hfits, hbuffer⟩
    have htaken : ∀ s, Reaches (body m) (start buf file sizes) s → ∃ ls, Taken m file s ls := by
      intro s hs
      induction hs with
      | start => exact ⟨[], taken_start m buf file sizes⟩
      | @again t u ht hb ih =>
        obtain ⟨ls, hls⟩ := ih
        have hshape := shape_of_reaches ht
        have hturn := (body_turn m hshape
          (sound_of_taken hshape hls hfirst hfits (hbuffer t ht))).1
        rw [hb] at hturn
        obtain h | ⟨line, -, -, -, h⟩ := taken_again hls hturn
        · exact ⟨ls, h⟩
        · exact ⟨ls ++ [line], h⟩
    intro s hs
    obtain ⟨ls, hls⟩ := htaken s hs
    exact sound_of_taken (shape_of_reaches hs) hls hfirst hfits (hbuffer s hs)

/-- An unknown type behind an entry, a field that is missing at the end of a line, and a newline of
an earlier line behind the last one. -/
theorem load_wrong :
    (Loads .little (fun _ => '\x00') "0\tshort\t1\tx\t0\n0\tbyte\t1\n".toList [] .doubleFree ∧
      Loads .little (fun _ => '\x00') "0\n0\tshort\t1\tx\t0\n".toList [] .across ∧
      Loads .little (fun _ => '\x00') "#aaa\n#\n#ccc".toList [] .outside) ∧
    ¬ ∀ file, Loads .little (fun _ => '\x00') file [] (.loaded (expected .little file)) := by
  have hdouble : Loads .little (fun _ => '\x00') "0\tshort\t1\tx\t0\n0\tbyte\t1\n".toList []
      .doubleFree := ⟨4, by decide +kernel⟩
  refine ⟨⟨hdouble, ⟨4, by decide +kernel⟩, ⟨6, by decide +kernel⟩⟩, fun h => ?_⟩
  cases hdouble.unique (h _)

end LoadDescription
