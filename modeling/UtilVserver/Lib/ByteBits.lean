import Mathlib.Data.List.Basic

/-!
# The bits of an array of bytes

* `msbBit`, `lsbBit` — a bit of the array, counted in each byte from its high end or from its low
  end.
* `leading` — how many tests in a row succeed, from the first one on.
* `HasPrefix` — the first bits are set and no others.
* `bigEndian` — the bytes of a 32-bit word in network order.
* `lowMask` — `~((1 << k) - 1)` of a 32-bit word.

Principal results: `leading_lsb_eq_msb_iff` (when both orders count the same number of leading
ones), `HasPrefix.leading_lsb` (what the wrong order counts in a prefix) and `getLsbD_lowMask`.
-/

set_option autoImplicit false

namespace ByteBits

abbrev Byte := BitVec 8

/-- Bit `i`, where the first bit of a byte is its most significant one (network order). -/
def msbBit (bytes : List Byte) (i : Nat) : Bool := (bytes.getD (i / 8) 0).getMsbD (i % 8)

/-- Bit `i`, where the first bit of a byte is its least significant one. -/
def lsbBit (bytes : List Byte) (i : Nat) : Bool := (bytes.getD (i / 8) 0).getLsbD (i % 8)

/-- How many of the first `n` tests succeed before one fails. -/
def leading (f : Nat → Bool) : Nat → Nat
  | 0 => 0
  | n + 1 => if f 0 then leading (fun i => f (i + 1)) n + 1 else 0

/-- Of the first `n` bits the first `p` are set and no others. -/
def HasPrefix (bytes : List Byte) (p n : Nat) : Prop :=
  ∀ i, i < n → msbBit bytes i = decide (i < p)

/-! ## Leading tests -/

theorem leading_le (f : Nat → Bool) (n : Nat) : leading f n ≤ n := by
  induction n generalizing f with
  | zero => exact Nat.le_refl _
  | succ n ih =>
    have := ih fun i => f (i + 1)
    unfold leading
    split <;> omega

/-- The tests in front of a failing one. -/
theorem leading_eq {f : Nat → Bool} {n k : Nat} (hk : k ≤ n) (hset : ∀ i, i < k → f i = true)
    (hstop : k < n → f k = false) : leading f n = k := by
  induction n generalizing f k with
  | zero =>
    have : k = 0 := by omega
    exact this.symm
  | succ n ih =>
    unfold leading
    cases k with
    | zero => rw [hstop (by omega), if_neg (by decide)]
    | succ k =>
      rw [hset 0 (by omega), if_pos rfl,
        ih (by omega) (fun i hi => hset (i + 1) (by omega)) fun h => hstop (by omega)]

theorem leading_congr {f g : Nat → Bool} {n : Nat} (h : ∀ i, i < n → f i = g i) :
    leading f n = leading g n := by
  induction n generalizing f g with
  | zero => rfl
  | succ n ih =>
    unfold leading
    rw [h 0 (by omega), ih fun i hi => h (i + 1) (by omega)]

/-- Tests that all succeed are followed by the count of the others. -/
theorem leading_add {f : Nat → Bool} {m : Nat} (n : Nat) (h : leading f m = m) :
    leading f (m + n) = m + leading (fun i => f (m + i)) n := by
  induction m generalizing f with
  | zero => simp
  | succ m ih =>
    rw [leading] at h
    split at h
    · rename_i hf
      have hrest := ih (f := fun i => f (i + 1)) (by omega)
      rw [Nat.add_right_comm, leading, if_pos hf, hrest]
      have hshift : (fun i => f (m + i + 1)) = fun i => f (m + 1 + i) := by
        funext i
        rw [Nat.add_right_comm]
      rw [hshift]
      omega
    · cases h

/-- A test that fails ends the count, however many follow. -/
theorem leading_stop {f : Nat → Bool} {m : Nat} (n : Nat) (h : leading f m < m) :
    leading f (m + n) = leading f m := by
  induction m generalizing f with
  | zero => omega
  | succ m ih =>
    rw [leading] at h
    rw [Nat.add_right_comm, leading, leading]
    split
    · rename_i hf
      rw [if_pos hf] at h
      rw [ih (by omega)]
    · rfl

/-! ## Bytes -/

theorem msbBit_cons_head (b : Byte) (bytes : List Byte) {i : Nat} (h : i < 8) :
    msbBit (b :: bytes) i = b.getMsbD i := by
  rw [msbBit, Nat.div_eq_of_lt h, Nat.mod_eq_of_lt h, List.getD_cons_zero]

theorem msbBit_cons_tail (b : Byte) (bytes : List Byte) (i : Nat) :
    msbBit (b :: bytes) (8 + i) = msbBit bytes i := by
  rw [msbBit, Nat.add_div_left i (by decide), Nat.add_mod_left, List.getD_cons_succ, msbBit]

theorem lsbBit_cons_head (b : Byte) (bytes : List Byte) {i : Nat} (h : i < 8) :
    lsbBit (b :: bytes) i = b.getLsbD i := by
  rw [lsbBit, Nat.div_eq_of_lt h, Nat.mod_eq_of_lt h, List.getD_cons_zero]

theorem lsbBit_cons_tail (b : Byte) (bytes : List Byte) (i : Nat) :
    lsbBit (b :: bytes) (8 + i) = lsbBit bytes i := by
  rw [lsbBit, Nat.add_div_left i (by decide), Nat.add_mod_left, List.getD_cons_succ, lsbBit]

theorem lsbBit_eq_msbBit (bytes : List Byte) (i : Nat) :
    lsbBit bytes i = msbBit bytes (8 * (i / 8) + (7 - i % 8)) := by
  have hmod : i % 8 < 8 := Nat.mod_lt i (by decide)
  have hdiv : (8 * (i / 8) + (7 - i % 8)) / 8 = i / 8 := by omega
  have hrem : (8 * (i / 8) + (7 - i % 8)) % 8 = 7 - i % 8 := by omega
  rw [lsbBit, msbBit, hdiv, hrem, BitVec.getMsbD_eq_getLsbD, decide_eq_true (by omega),
    Bool.true_and]
  congr 1
  omega

/-- A byte with eight leading ones has no other bits. -/
theorem eq_of_leading {b : Byte} (h : leading b.getMsbD 8 = 8 ∨ leading b.getLsbD 8 = 8) :
    b = 0xff#8 := by
  revert h b
  decide

theorem leading_full {n : Nat} (h : n ≤ 8) :
    leading (0xff#8).getMsbD n = n ∧ leading (0xff#8).getLsbD n = n := by
  have hbits : ∀ i, i < 8 → (0xff#8).getMsbD i = true ∧ (0xff#8).getLsbD i = true := by decide
  exact ⟨leading_eq (Nat.le_refl n) (fun i hi => (hbits i (by omega)).1) (by omega),
    leading_eq (Nat.le_refl n) (fun i hi => (hbits i (by omega)).2) (by omega)⟩

/-- As many bits of the byte `k` as lie in front of `limit`. -/
def within (limit k : Nat) : Nat := min 8 (limit - 8 * k)

/-- The first byte that is not full has as many leading ones in both orders. -/
def FirstPartialEven (bytes : List Byte) (limit : Nat) : Prop :=
  ∀ k b, bytes[k]? = some b → (∀ j, j < k → bytes[j]? = some 0xff#8) →
    leading b.getLsbD (within limit k) = leading b.getMsbD (within limit k)

theorem firstPartialEven_full {bytes : List Byte} {limit : Nat} :
    FirstPartialEven (0xff#8 :: bytes) limit ↔ FirstPartialEven bytes (limit - 8) := by
  have hwithin : ∀ k, within limit (k + 1) = within (limit - 8) k := by
    intro k
    unfold within
    omega
  constructor
  · intro h k b hb hfull
    rw [← hwithin]
    refine h (k + 1) b hb fun j hj => ?_
    cases j with
    | zero => rfl
    | succ j => exact hfull j (by omega)
  · intro h k b hb hfull
    cases k with
    | zero =>
      obtain rfl : 0xff#8 = b := Option.some.inj hb
      have hle : within limit 0 ≤ 8 := Nat.min_le_left _ _
      rw [(leading_full hle).1, (leading_full hle).2]
    | succ k =>
      rw [hwithin]
      exact h k b hb fun j hj => hfull (j + 1) (by omega)

theorem firstPartialEven_partial {b : Byte} {bytes : List Byte} {limit : Nat} (h : b ≠ 0xff#8) :
    FirstPartialEven (b :: bytes) limit ↔
      leading b.getLsbD (within limit 0) = leading b.getMsbD (within limit 0) := by
  constructor
  · intro hall
    exact hall 0 b rfl fun j hj => absurd hj (Nat.not_lt_zero j)
  · intro heq k c hc hfull
    cases k with
    | zero =>
      obtain rfl : b = c := Option.some.inj hc
      exact heq
    | succ k => exact absurd (Option.some.inj (hfull 0 (by omega))) h

/-- The count of an array is that of its first byte, unless that one is full. -/
theorem leading_cons {f : Nat → Bool} {g : Nat → Bool} (limit : Nat)
    (hhead : ∀ i, i < 8 → f i = g i) :
    (leading g 8 < 8 → leading f limit = leading g (within limit 0)) ∧
    (leading g 8 = 8 → leading f limit =
      within limit 0 + leading (fun i => f (8 + i)) (limit - 8)) := by
  have hwithin : within limit 0 = min 8 limit := by unfold within; omega
  have hcongr : ∀ n, n ≤ 8 → leading f n = leading g n := fun n hn =>
    leading_congr fun i hi => hhead i (by omega)
  rw [hwithin]
  constructor
  · intro hlt
    by_cases hle : limit ≤ 8
    · rw [Nat.min_eq_right hle, hcongr limit hle]
    · have hsplit : limit = 8 + (limit - 8) := by omega
      rw [Nat.min_eq_left (by omega), hsplit, leading_stop _ (by rw [hcongr 8 (by omega)]; exact hlt),
        hcongr 8 (by omega)]
  · intro hfull
    have hset : leading f 8 = 8 := by rw [hcongr 8 (by omega), hfull]
    by_cases hle : limit ≤ 8
    · have hzero : limit - 8 = 0 := by omega
      have hsplit : 8 = limit + (8 - limit) := by omega
      have hall : leading f limit = limit := by
        by_contra hne
        have hlt : leading f limit < limit := by
          have := leading_le f limit
          omega
        have := leading_stop (8 - limit) hlt
        rw [← hsplit, hset] at this
        omega
      rw [hzero, hall, Nat.min_eq_right hle]
      rfl
    · have hsplit : limit = 8 + (limit - 8) := by omega
      rw [Nat.min_eq_left (by omega)]
      conv_lhs => rw [hsplit]
      exact leading_add _ hset

/-- **When the two orders count the same number of leading ones.** -/
theorem leading_lsb_eq_msb_iff {bytes : List Byte} {limit : Nat} (h : limit ≤ 8 * bytes.length) :
    leading (lsbBit bytes) limit = leading (msbBit bytes) limit ↔ FirstPartialEven bytes limit := by
  induction bytes generalizing limit with
  | nil =>
    have hzero : limit = 0 := by simpa using h
    subst hzero
    exact ⟨fun _ k b hb => by simp at hb, fun _ => rfl⟩
  | cons b bytes ih =>
    rw [List.length_cons] at h
    obtain ⟨hlsb, hlsbFull⟩ := leading_cons limit fun i hi => lsbBit_cons_head b bytes hi
    obtain ⟨hmsb, hmsbFull⟩ := leading_cons limit fun i hi => msbBit_cons_head b bytes hi
    by_cases hfull : b = 0xff#8
    · subst hfull
      rw [hlsbFull (leading_full (Nat.le_refl 8)).2, hmsbFull (leading_full (Nat.le_refl 8)).1,
        firstPartialEven_full, ← ih (by omega)]
      simp only [lsbBit_cons_tail, msbBit_cons_tail]
      exact ⟨fun h => Nat.add_left_cancel h, fun h => by rw [h]⟩
    · have hlt : leading b.getLsbD 8 < 8 := by
        refine Nat.lt_of_le_of_ne (leading_le _ _) fun h8 => hfull (eq_of_leading (Or.inr h8))
      have hlt' : leading b.getMsbD 8 < 8 := by
        refine Nat.lt_of_le_of_ne (leading_le _ _) fun h8 => hfull (eq_of_leading (Or.inl h8))
      rw [hlsb hlt, hmsb hlt', firstPartialEven_partial hfull]

/-! ## Prefixes -/

theorem HasPrefix.unique {bytes : List Byte} {p q n : Nat} (hp : HasPrefix bytes p n)
    (hq : HasPrefix bytes q n) (hpn : p ≤ n) (hqn : q ≤ n) : p = q := by
  by_contra hne
  -- the lower of the two bounds is set by the one and not by the other
  have hlt : min p q < n := by omega
  have hsame : decide (min p q < p) = decide (min p q < q) := by
    rw [← hp _ hlt, ← hq _ hlt]
  rw [decide_eq_decide] at hsame
  omega

/-- Arrays of one length with the same bits are equal. -/
theorem ext_msbBit {a b : List Byte} (hlen : a.length = b.length)
    (h : ∀ i, i < 8 * a.length → msbBit a i = msbBit b i) : a = b := by
  apply List.ext_getElem hlen
  intro k hka hkb
  apply BitVec.eq_of_getMsbD_eq
  intro j hj
  have hbit := h (8 * k + j) (by omega)
  have hdiv : (8 * k + j) / 8 = k := by omega
  have hmod : (8 * k + j) % 8 = j := by omega
  rw [msbBit, msbBit, hdiv, hmod, List.getD_eq_getElem?_getD, List.getD_eq_getElem?_getD,
    List.getElem?_eq_getElem hka, List.getElem?_eq_getElem hkb] at hbit
  exact hbit

theorem HasPrefix.ext {a b : List Byte} {p : Nat} (hlen : a.length = b.length)
    (ha : HasPrefix a p (8 * a.length)) (hb : HasPrefix b p (8 * a.length)) : a = b :=
  ext_msbBit hlen fun i hi => by rw [ha i hi, hb i hi]

/-- **Of a prefix the low-end order counts the full bytes.** -/
theorem HasPrefix.leading_lsb {bytes : List Byte} {p k : Nat} (h : HasPrefix bytes p (8 * k))
    (hp : p ≤ 8 * k) : leading (lsbBit bytes) (8 * k) = 8 * (p / 8) := by
  have hbit : ∀ i, i < 8 * k → lsbBit bytes i = decide (8 * (i / 8) + (7 - i % 8) < p) := by
    intro i hi
    rw [lsbBit_eq_msbBit]
    exact h _ (by omega)
  apply leading_eq (by omega)
  · intro i hi
    rw [hbit i (by omega), decide_eq_true_eq]
    omega
  · intro hlt
    rw [hbit _ hlt, decide_eq_false_iff_not]
    omega

/-! ## Words -/

/-- The bytes of a word, the most significant one first. -/
def bigEndian (x : BitVec 32) : List Byte :=
  [x.extractLsb' 24 8, x.extractLsb' 16 8, x.extractLsb' 8 8, x.extractLsb' 0 8]

/-- Four bytes that are shifted to their places. -/
def joinBytes (a b c d : BitVec 32) : BitVec 32 := (a <<< 24) ||| (b <<< 16) ||| (c <<< 8) ||| d

/-- **The bytes of a joined word are the ones that have been joined.** -/
theorem bigEndian_joinBytes (a b c d : Byte) :
    bigEndian (joinBytes (a.setWidth 32) (b.setWidth 32) (c.setWidth 32) (d.setWidth 32)) =
      [a, b, c, d] := by
  simp only [bigEndian, joinBytes, List.cons.injEq, and_true]
  refine ⟨?_, ?_, ?_, ?_⟩
  all_goals
    apply BitVec.eq_of_getLsbD_eq
    intro i hi
    have hlt : i < 8 := hi
    simp only [BitVec.getLsbD_extractLsb', BitVec.getLsbD_or, BitVec.getLsbD_shiftLeft,
      BitVec.getLsbD_setWidth]
    grind

theorem bigEndian_append (a b c d : Byte) :
    bigEndian (a ++ b ++ c ++ d : BitVec 32) = [a, b, c, d] := by
  simp only [bigEndian, List.cons.injEq, and_true]
  refine ⟨?_, ?_, ?_, ?_⟩
  all_goals
    apply BitVec.eq_of_getLsbD_eq
    intro i hi
    simp only [BitVec.getLsbD_extractLsb', BitVec.getLsbD_append]
    grind

/-- A word is made of its bytes. -/
theorem append_bigEndian (x : BitVec 32) :
    ∃ a b c d : Byte, bigEndian x = [a, b, c, d] ∧ x = (a ++ b ++ c ++ d : BitVec 32) := by
  refine ⟨_, _, _, _, rfl, ?_⟩
  apply BitVec.eq_of_getLsbD_eq
  intro i hi
  simp only [BitVec.getLsbD_extractLsb', BitVec.getLsbD_append]
  grind

theorem msbBit_bigEndian (x : BitVec 32) {i : Nat} (hi : i < 32) :
    msbBit (bigEndian x) i = x.getLsbD (31 - i) := by
  have hbyte : ∀ q, q < 4 → (bigEndian x).getD q 0 = x.extractLsb' (24 - 8 * q) 8 := by
    intro q hq
    match q, hq with
    | 0, _ => rfl
    | 1, _ => rfl
    | 2, _ => rfl
    | 3, _ => rfl
  have hmod : i % 8 < 8 := Nat.mod_lt i (by decide)
  have hpos : 24 - 8 * (i / 8) + (8 - 1 - i % 8) = 31 - i := by omega
  rw [msbBit, hbyte _ (by omega), BitVec.getMsbD_eq_getLsbD, BitVec.getLsbD_extractLsb', hpos,
    decide_eq_true hmod, decide_eq_true (by omega), Bool.true_and, Bool.true_and]

/-- `~((1 << k) - 1)`. -/
def lowMask (k : Nat) : BitVec 32 := ~~~((1#32 <<< k) - 1#32)

/-- **The bits below `k` are cleared.** -/
theorem getLsbD_lowMask {k j : Nat} (hk : k < 32) (hj : j < 32) :
    (lowMask k).getLsbD j = decide (k ≤ j) := by
  have hpow : 2 ^ k < 2 ^ 32 := Nat.pow_lt_pow_right (by decide) hk
  have hone : (1#32 <<< k).toNat = 2 ^ k := by
    rw [BitVec.toNat_shiftLeft, BitVec.toNat_ofNat, Nat.mod_eq_of_lt (a := 1) (by decide),
      Nat.shiftLeft_eq, Nat.one_mul, Nat.mod_eq_of_lt hpow]
  have hsub : ((1#32 <<< k) - 1#32).toNat = 2 ^ k - 1 := by
    rw [BitVec.toNat_sub_of_le, hone]
    · rfl
    · rw [BitVec.le_def, hone]
      exact Nat.one_le_two_pow
  rw [lowMask, BitVec.getLsbD_not, decide_eq_true hj, Bool.true_and, BitVec.getLsbD, hsub,
    Nat.testBit_two_pow_sub_one, ← decide_not, decide_eq_decide]
  omega

end ByteBits
