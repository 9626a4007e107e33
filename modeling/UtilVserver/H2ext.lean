import UtilVserver.Lib.ByteBits
import UtilVserver.Lib.CString
import UtilVserver.Lib.Slots

/-!
# Matching of file formats (`src/h2ext.c`)

`find_format` compares the values of the loaded descriptions with the peeked head of a file.

* `Endian` — the order of the machine, and its loads and stores.
* `FileFormat` — a loaded description; the type says which member of the union is used.
* `findFormat` — the comparison, which scales the offset of a number by its width.
* `FileFormat.present` — the stated value at the byte offset.

Principal result: `findFormat_exact` — on which descriptions and data the comparison stays inside of
the data and selects the first description whose value is present.
-/

set_option autoImplicit false

namespace H2ext

open CString ByteBits Slots

def MAX_PEEK_SIZE : Nat := 4096

/-! ## Numbers in memory -/

/-- `BYTE_ORDER`. -/
inductive Endian where
  | little
  | big
  deriving DecidableEq

/-- The 16-bit number in the given bytes. -/
def Endian.read16 (e : Endian) (b : List Byte) : BitVec 16 :=
  match e with
  | .little => b.getD 1 0 ++ b.getD 0 0
  | .big => b.getD 0 0 ++ b.getD 1 0

/-- The 32-bit number in the given bytes. -/
def Endian.read32 (e : Endian) (b : List Byte) : BitVec 32 :=
  match e with
  | .little => b.getD 3 0 ++ b.getD 2 0 ++ b.getD 1 0 ++ b.getD 0 0
  | .big => b.getD 0 0 ++ b.getD 1 0 ++ b.getD 2 0 ++ b.getD 3 0

/-- The loop of `byteswap`, with the rounds that remain. -/
def swapFrom : Nat → Nat → List Byte → List Byte
  | 0, _, buf => buf
  | n + 1, i, buf =>
    let tmp := buf.getD (buf.length - i - 1) 0
    swapFrom n (i + 1) ((buf.set (buf.length - i - 1) (buf.getD i 0)).set i tmp)

def byteswap (buf : List Byte) : List Byte := swapFrom (buf.length / 2) 0 buf

/-- The bytes of a 16-bit number in the machine's memory. -/
def Endian.write16 (e : Endian) (x : BitVec 16) : List Byte :=
  match e with
  | .little => [x.extractLsb' 0 8, x.extractLsb' 8 8]
  | .big => [x.extractLsb' 8 8, x.extractLsb' 0 8]

/-- The bytes of a 32-bit number in the machine's memory. -/
def Endian.write32 (e : Endian) (x : BitVec 32) : List Byte :=
  match e with
  | .little => (bigEndian x).reverse
  | .big => bigEndian x

/-- `byteswap` of the bytes of a number. -/
def Endian.swap16 (e : Endian) (x : BitVec 16) : BitVec 16 := e.read16 (byteswap (e.write16 x))

def Endian.swap32 (e : Endian) (x : BitVec 32) : BitVec 32 := e.read32 (byteswap (e.write32 x))

/-! ## Descriptions -/

/-- `FFT_LE`, `FFT_BE` or none of them. -/
inductive Order where
  | none
  | le
  | be
  deriving DecidableEq

/-- The type and the member of the union that goes with it. -/
inductive Value where
  | st (bytes : List Byte)
  | sh (order : Order) (x : BitVec 16)
  | lo (order : Order) (x : BitVec 32)
  deriving DecidableEq

/-- `struct file_format`, without the link to the next one. -/
structure FileFormat where
  offset : Int
  value : Value
  len : Nat
  extractor : Text
  peekInside : BitVec 32
  deriving DecidableEq

/-- The comparison of one description, where `m` is the order of the machine; none when it reads
outside of the data. -/
def FileFormat.compare (m : Endian) (data : List Byte) (i : FileFormat) : Option Bool :=
  match i.value with
  | .st bytes => (peek i.offset.toNat i.len data).map fun b => b == bytes
  | .sh _ x => (peek (2 * i.offset.toNat) 2 data).map fun b => x == m.read16 b
  | .lo _ x => (peek (4 * i.offset.toNat) 4 data).map fun b => x == m.read32 b

def findFormat (m : Endian) (data : List Byte) : List FileFormat → Option (Option FileFormat)
  | [] => some none
  | i :: next =>
    match i.compare m data with
    | none => none
    | some true => some (some i)
    | some false => findFormat m data next

/-! ## The stated values -/

/-- The order that a type states, which is the machine's when it states none. -/
def Order.on (m : Endian) : Order → Endian
  | .none => m
  | .le => .little
  | .be => .big

/-- The loading of a number swaps its bytes when the stated order is not the machine's. -/
def Order.swaps (m : Endian) (order : Order) : Bool := order.on m != m

/-- The width of a value. -/
def Value.width : Value → Nat
  | .st bytes => bytes.length
  | .sh _ _ => 2
  | .lo _ _ => 4

/-- What `load_description` has checked of a description. -/
structure Loaded (i : FileFormat) : Prop where
  offset : 0 ≤ i.offset
  inside : i.offset + i.len ≤ MAX_PEEK_SIZE
  len : i.len = i.value.width

/-- Bytes hold the stated value, a number in its stated order; a stored number is swapped back. -/
def Value.denotes (m : Endian) (value : Value) (b : List Byte) : Bool :=
  match value with
  | .st bytes => b == bytes
  | .sh order x => (order.on m).read16 b == if order.swaps m then m.swap16 x else x
  | .lo order x => (order.on m).read32 b == if order.swaps m then m.swap32 x else x

/-- The value is present at a place of the data. -/
def Value.presentAt (m : Endian) (data : List Byte) (value : Value) (k : Nat) : Bool :=
  (peek k value.width data).any fun b => value.denotes m b

/-- The value is present at the byte offset. -/
def FileFormat.present (m : Endian) (data : List Byte) (i : FileFormat) : Bool :=
  i.value.presentAt m data i.offset.toNat

/-! ## Swapped numbers -/

theorem byteswap_two (a b : Byte) : byteswap [a, b] = [b, a] := by
  simp [byteswap, swapFrom]

theorem byteswap_four (a b c d : Byte) : byteswap [a, b, c, d] = [d, c, b, a] := by
  simp [byteswap, swapFrom]

theorem write16_read16 (m : Endian) (a b : Byte) : m.write16 (m.read16 [a, b]) = [a, b] := by
  have hbytes : ∀ p q : Byte, (p ++ q : BitVec 16).extractLsb' 0 8 = q ∧
      (p ++ q : BitVec 16).extractLsb' 8 8 = p := by
    intro p q
    constructor
    all_goals
      apply BitVec.eq_of_getLsbD_eq
      intro i hi
      simp only [BitVec.getLsbD_extractLsb', BitVec.getLsbD_append]
      grind
  cases m with
  | little =>
    obtain ⟨h0, h8⟩ := hbytes b a
    show [(b ++ a : BitVec 16).extractLsb' 0 8, (b ++ a : BitVec 16).extractLsb' 8 8] = [a, b]
    rw [h0, h8]
  | big =>
    obtain ⟨h0, h8⟩ := hbytes a b
    show [(a ++ b : BitVec 16).extractLsb' 8 8, (a ++ b : BitVec 16).extractLsb' 0 8] = [a, b]
    rw [h0, h8]

theorem exists_read16 (m : Endian) (x : BitVec 16) : ∃ a b, x = m.read16 [a, b] := by
  have hx : (x.extractLsb' 8 8 ++ x.extractLsb' 0 8 : BitVec 16) = x := by
    apply BitVec.eq_of_getLsbD_eq
    intro i hi
    simp only [BitVec.getLsbD_extractLsb', BitVec.getLsbD_append]
    grind
  cases m with
  | little => exact ⟨x.extractLsb' 0 8, x.extractLsb' 8 8, hx.symm⟩
  | big => exact ⟨x.extractLsb' 8 8, x.extractLsb' 0 8, hx.symm⟩

theorem write32_read32 (m : Endian) (a b c d : Byte) :
    m.write32 (m.read32 [a, b, c, d]) = [a, b, c, d] := by
  cases m with
  | little =>
    show (bigEndian (d ++ c ++ b ++ a : BitVec 32)).reverse = [a, b, c, d]
    rw [bigEndian_append]
    rfl
  | big => exact bigEndian_append a b c d

theorem exists_read32 (m : Endian) (x : BitVec 32) : ∃ a b c d, x = m.read32 [a, b, c, d] := by
  obtain ⟨a, b, c, d, -, hx⟩ := append_bigEndian x
  cases m with
  | little => exact ⟨d, c, b, a, hx⟩
  | big => exact ⟨a, b, c, d, hx⟩

/-- The other order. -/
def Endian.other : Endian → Endian
  | .little => .big
  | .big => .little

/-- Swapping the bytes of a number that has been read is reading it in the other order. -/
theorem swap16_read16 (m : Endian) (a b : Byte) :
    m.swap16 (m.read16 [a, b]) = m.other.read16 [a, b] := by
  rw [Endian.swap16, write16_read16, byteswap_two]
  cases m <;> rfl

theorem swap32_read32 (m : Endian) (a b c d : Byte) :
    m.swap32 (m.read32 [a, b, c, d]) = m.other.read32 [a, b, c, d] := by
  rw [Endian.swap32, write32_read32, byteswap_four]
  cases m <;> rfl

theorem swap16_swap16 (m : Endian) (x : BitVec 16) : m.swap16 (m.swap16 x) = x := by
  obtain ⟨a, b, rfl⟩ := exists_read16 m x
  have hback : m.swap16 (m.read16 [a, b]) = m.read16 [b, a] := by
    rw [Endian.swap16, write16_read16, byteswap_two]
  rw [hback, Endian.swap16, write16_read16, byteswap_two]

theorem swap32_swap32 (m : Endian) (x : BitVec 32) : m.swap32 (m.swap32 x) = x := by
  obtain ⟨a, b, c, d, rfl⟩ := exists_read32 m x
  have hback : m.swap32 (m.read32 [a, b, c, d]) = m.read32 [d, c, b, a] := by
    rw [Endian.swap32, write32_read32, byteswap_four]
  rw [hback, Endian.swap32, write32_read32, byteswap_four]

theorem on_eq_of_swaps {m : Endian} {order : Order} (h : order.swaps m = true) :
    order.on m = m.other := by
  revert h
  cases m <;> cases order <;> decide

theorem on_eq_of_not_swaps {m : Endian} {order : Order} (h : order.swaps m = false) :
    order.on m = m := by
  revert h
  cases m <;> cases order <;> decide

/-- **A stored number agrees with the machine's number in the bytes when the stated number agrees
with the number in the stated order.** -/
theorem denotes_sh (m : Endian) (order : Order) (x : BitVec 16) (a b : Byte) :
    (Value.sh order x).denotes m [a, b] = (x == m.read16 [a, b]) := by
  rw [Value.denotes, Bool.eq_iff_iff, beq_iff_eq, beq_iff_eq]
  cases h : order.swaps m with
  | false =>
    rw [on_eq_of_not_swaps h, if_neg Bool.false_ne_true]
    exact eq_comm
  | true =>
    rw [on_eq_of_swaps h, if_pos rfl, ← swap16_read16]
    constructor
    · intro heq
      rw [← swap16_swap16 m x, ← heq, swap16_swap16]
    · intro heq
      rw [heq]

theorem denotes_lo (m : Endian) (order : Order) (x : BitVec 32) (a b c d : Byte) :
    (Value.lo order x).denotes m [a, b, c, d] = (x == m.read32 [a, b, c, d]) := by
  rw [Value.denotes, Bool.eq_iff_iff, beq_iff_eq, beq_iff_eq]
  cases h : order.swaps m with
  | false =>
    rw [on_eq_of_not_swaps h, if_neg Bool.false_ne_true]
    exact eq_comm
  | true =>
    rw [on_eq_of_swaps h, if_pos rfl, ← swap32_read32]
    constructor
    · intro heq
      rw [← swap32_swap32 m x, ← heq, swap32_swap32]
    · intro heq
      rw [heq]

/-! ## The comparison -/

/-- The distance that the offset is multiplied by. -/
def Value.scale : Value → Nat
  | .st _ => 1
  | .sh _ _ => 2
  | .lo _ _ => 4

/-- The place that is compared. -/
def FileFormat.place (i : FileFormat) : Nat := i.value.scale * i.offset.toNat

theorem peek_length {off n : Nat} {block cells : List Byte} (h : peek off n block = some cells) :
    cells.length = n := by
  unfold peek at h
  split at h
  · cases h
    rw [List.length_take, List.length_drop]
    omega
  · cases h

/-- **What the comparison of a loaded description does**: it reads the bytes at its place and says
whether they hold the value. -/
theorem compare_eq {m : Endian} {data : List Byte} {i : FileFormat} (h : Loaded i) :
    i.compare m data = (peek i.place i.value.width data).map fun b => i.value.denotes m b := by
  have hlen := h.len
  unfold FileFormat.compare FileFormat.place
  cases hv : i.value with
  | st bytes =>
    rw [hv] at hlen
    show (peek i.offset.toNat i.len data).map _ = (peek (1 * i.offset.toNat) bytes.length data).map _
    rw [hlen, Nat.one_mul]
    rfl
  | sh order x =>
    show (peek (2 * i.offset.toNat) 2 data).map _ = (peek (2 * i.offset.toNat) 2 data).map _
    cases hp : peek (2 * i.offset.toNat) 2 data with
    | none => rfl
    | some b =>
      match b, peek_length hp with
      | [b0, b1], _ => rw [Option.map_some, Option.map_some, denotes_sh]
  | lo order x =>
    show (peek (4 * i.offset.toNat) 4 data).map _ = (peek (4 * i.offset.toNat) 4 data).map _
    cases hp : peek (4 * i.offset.toNat) 4 data with
    | none => rfl
    | some b =>
      match b, peek_length hp with
      | [b0, b1, b2, b3], _ => rw [Option.map_some, Option.map_some, denotes_lo]

/-- Where the place is inside of the data, the comparison says whether the value is there. -/
theorem compare_inside {m : Endian} {data : List Byte} {i : FileFormat} (h : Loaded i)
    (hin : i.place + i.value.width ≤ data.length) :
    i.compare m data = some (i.value.presentAt m data i.place) := by
  rw [compare_eq h, Value.presentAt, peek, if_pos hin]
  rfl

theorem compare_outside {m : Endian} {data : List Byte} {i : FileFormat} (h : Loaded i)
    (hout : ¬ i.place + i.value.width ≤ data.length) : i.compare m data = none := by
  rw [compare_eq h, peek, if_neg hout]
  rfl

/-- A description that the scaled offset does not spoil: its place is inside of the data, and holds
the value just when the byte offset does. -/
def Unspoiled (m : Endian) (data : List Byte) (i : FileFormat) : Prop :=
  i.place + i.value.width ≤ data.length ∧
    i.value.presentAt m data i.place = i.value.presentAt m data i.offset.toNat

/-- A description is compared rightly just when the scaled offset does not spoil it. -/
theorem compare_right_iff {m : Endian} {data : List Byte} {i : FileFormat} (h : Loaded i) :
    i.compare m data = some (i.present m data) ↔ Unspoiled m data i := by
  constructor
  · intro hright
    by_cases hin : i.place + i.value.width ≤ data.length
    · rw [compare_inside h hin] at hright
      exact ⟨hin, Option.some.inj hright⟩
    · rw [compare_outside h hin] at hright
      cases hright
  · rintro ⟨hin, heq⟩
    rw [compare_inside h hin, heq]
    rfl

/-- In a full head, the strings and the numbers at its front are not spoiled. -/
theorem unspoiled_of_unscaled {m : Endian} {data : List Byte} {i : FileFormat} (h : Loaded i)
    (hdata : data.length = MAX_PEEK_SIZE) (hscale : i.value.scale = 1 ∨ i.offset = 0) :
    Unspoiled m data i := by
  have hoffset := h.offset
  have hinside := h.inside
  have hlen := h.len
  have hplace : i.place = i.offset.toNat := by
    rcases hscale with hscale | hzero
    · rw [FileFormat.place, hscale, Nat.one_mul]
    · rw [FileFormat.place, hzero]
      exact Nat.mul_zero _
  refine ⟨?_, by rw [hplace]⟩
  rw [hplace]
  omega

/-- What is selected has been compared with success. -/
theorem compare_of_findFormat {m : Endian} {data : List Byte} {entries : List FileFormat}
    {i : FileFormat} (h : findFormat m data entries = some (some i)) :
    i.compare m data = some true := by
  induction entries with
  | nil => cases h
  | cons j next ih =>
    rw [findFormat] at h
    split at h
    · cases h
    · rename_i hj
      cases h
      exact hj
    · exact ih h

/-- The reads stay inside of the data, and the first description whose value is present is
selected. -/
def Selects (m : Endian) (data : List Byte) (entries : List FileFormat) : Prop :=
  findFormat m data entries = some (entries.find? fun i => i.present m data)

/-- The descriptions up to the first whose value is present. -/
def upToFirst (m : Endian) (data : List Byte) : List FileFormat → List FileFormat
  | [] => []
  | i :: next => if i.present m data then [i] else i :: upToFirst m data next

/-- The first description is compared rightly when the right one is selected. -/
theorem compare_of_selects {m : Endian} {data : List Byte} {i : FileFormat}
    {next : List FileFormat} (h : Selects m data (i :: next)) :
    i.compare m data = some (i.present m data) := by
  unfold Selects at h
  rw [findFormat, List.find?_cons] at h
  cases hc : i.compare m data with
  | none =>
    rw [hc] at h
    cases h
  | some b =>
    rw [hc] at h
    cases b with
    | true =>
      cases hp : i.present m data with
      | true => rfl
      | false =>
        rw [hp] at h
        -- the selected description would be present, which this one is not
        have hfound := (Option.some.inj h).symm
        have hpresent := List.find?_some hfound
        rw [hp] at hpresent
        cases hpresent
    | false =>
      cases hp : i.present m data with
      | true =>
        rw [hp] at h
        have htrue := compare_of_findFormat h
        rw [hc] at htrue
        cases htrue
      | false => rfl

/-- **When the first description whose value is present is selected.** -/
theorem findFormat_exact {m : Endian} {data : List Byte} {entries : List FileFormat}
    (hloaded : ∀ i ∈ entries, Loaded i) :
    Selects m data entries ↔ ∀ i ∈ upToFirst m data entries, Unspoiled m data i := by
  induction entries with
  | nil =>
    constructor
    · intro _ i hi
      cases hi
    · intro _
      rfl
  | cons i next ih =>
    have hright : i.compare m data = some (i.present m data) ↔ Unspoiled m data i :=
      compare_right_iff (hloaded i List.mem_cons_self)
    have ih := ih fun j hj => hloaded j (List.mem_cons_of_mem _ hj)
    have hstep : i.compare m data = some (i.present m data) →
        (Selects m data (i :: next) ↔ i.present m data = true ∨ Selects m data next) := by
      intro hc
      unfold Selects
      rw [findFormat, hc, List.find?_cons]
      cases i.present m data <;> simp
    rw [upToFirst]
    constructor
    · intro hsel
      have hc := compare_of_selects hsel
      have hrest := (hstep hc).1 hsel
      split
      · intro j hj
        rw [List.mem_singleton.1 hj]
        exact hright.1 hc
      · rename_i hp
        intro j hj
        rcases List.mem_cons.1 hj with rfl | hj
        · exact hright.1 hc
        · exact ih.1 (hrest.resolve_left hp) j hj
    · intro hall
      have hi : Unspoiled m data i := by
        apply hall
        split <;> exact List.mem_cons_self
      rw [hstep (hright.2 hi)]
      by_cases hp : i.present m data = true
      · exact Or.inl hp
      · rw [if_neg hp] at hall
        exact Or.inr (ih.2 fun j hj => hall j (List.mem_cons_of_mem _ hj))

/-- A string that is absent, and then a number at the offset 24 whose value is also at 96. -/
theorem findFormat_exact_scaled :
    Selects .little
      (List.replicate 24 0 ++ [0x2c, 0xea, 0, 0] ++ List.replicate 68 0 ++ [0x2c, 0xea, 0, 0])
      [⟨0, .st [0x1f, 0x8b], 2, "gz".toList, 0⟩, ⟨24, .lo .le 60012, 4, [], 0⟩] := by
  refine (findFormat_exact ?_).2 ?_
  · intro i hi
    rcases List.mem_cons.1 hi with rfl | hi
    · exact ⟨by decide, by decide, rfl⟩
    · rw [List.mem_singleton.1 hi]
      exact ⟨by decide, by decide, rfl⟩
  · unfold Unspoiled
    decide +kernel

/-- A number at the offset 2000 is read at the place 8000, and one at the offset 1 is found at the
place 2. -/
theorem findFormat_wrong :
    (Loaded ⟨2000, .lo .none 1, 4, [], 0⟩ ∧
      findFormat .little (List.replicate 4096 0) [⟨2000, .lo .none 1, 4, [], 0⟩] = none) ∧
    (Loaded ⟨1, .sh .none 1, 2, [], 0⟩ ∧
      ¬ Selects .little ([0, 0, 1] ++ List.replicate 4093 0) [⟨1, .sh .none 1, 2, [], 0⟩]) := by
  refine ⟨⟨⟨by decide, by decide, rfl⟩, by decide +kernel⟩, ⟨by decide, by decide, rfl⟩, ?_⟩
  unfold Selects
  decide +kernel

end H2ext
