import UtilVserver.Interfaces
import UtilVserver.Lib.DottedQuad

/-!
# Prefix lengths of netmasks (`src/mask2prefix.c`, `_transformMask2Prefix`)

The program reads up to four fields of its argument and ends with the number of leading ones as its
exit status; the shell function takes the status of a failing program for the prefix length.

* `countOnes`, `scanMask`, `main` — the program; what is read behind the NUL has no result.
* `fieldValue`, `readPieces` — a field, and what the program makes of the pieces of its argument.
* `Netmask` — the dotted quads of contiguous leading ones.

Principal result: `mask2prefix_exact` — on which arguments the exit status is right, on which of
them the shell function is right, and on which both are.
-/

set_option autoImplicit false

namespace Mask2Prefix

open CString ByteBits DottedQuad

/-- `while (val&0x80) { ++len; val <<= 1; }`, with as many rounds as `val` has bits. -/
def countOnes : Nat → Nat → BitVec 32 → Nat × BitVec 32
  | 0, len, val => (len, val)
  | n + 1, len, val =>
    if val &&& 0x80#32 ≠ 0#32 then countOnes n (len + 1) (val <<< 1) else (len, val)

/-- The loop over the fields.  `ptr` is none when it points behind the NUL; nothing is read there
only if no round is left. -/
def scanMask : Nat → Option Text → Nat → Option Nat
  | 0, _, len => some len
  | _ + 1, none, _ => none
  | n + 1, some ptr, len =>
    let r := strtol10 64 ptr
    let val := BitVec.ofInt 32 r.1
    if charAt r.2 0 ≠ '.' ∧ charAt r.2 0 ≠ '\x00' then some 255
    else if 0x100 ≤ val.toNat then some 255
    else
      let c := countOnes 32 len val
      if c.2 ≠ 0xff00#32 then some c.1
      else
        match r.2 with
        | [] => scanMask n none c.1
        | _ :: ptr => scanMask n (some ptr) c.1

/-- The exit status for one argument. -/
def main (arg : CStr) : Option Nat := scanMask 4 (some arg.text) 0

/-! ## Fields -/

/-- The value of a field: blanks, a sign and digits, or nothing at all. -/
def fieldValue (t : Text) : Option (BitVec 32) :=
  if t = [] then some 0#32
  else
    match scanDecimal t with
    | some (neg, n, []) => some (BitVec.ofInt 32 (clamp 64 (signed neg n)))
    | _ => none

/-- What the program makes of the pieces of its argument. -/
def readPieces : Nat → List Text → Nat → Option Nat
  | 0, _, len => some len
  | _ + 1, [], _ => none
  | n + 1, t :: ts, len =>
    match fieldValue t with
    | none => some 255
    | some v =>
      if 0x100 ≤ v.toNat then some 255
      else if v = 0xff#32 then readPieces n ts (len + 8)
      else some (len + leading (v.setWidth 8).getMsbD 8)

theorem countOnes_add (n len : Nat) (val : BitVec 32) :
    countOnes n len val = (len + (countOnes n 0 val).1, (countOnes n 0 val).2) := by
  induction n generalizing len val with
  | zero => rfl
  | succ n ih =>
    rw [countOnes, countOnes]
    split
    · rw [ih (len + 1), ih (0 + 1)]
      simp only [Prod.mk.injEq, and_true]
      omega
    · rfl

theorem countOnes_byte (b : Byte) :
    (countOnes 32 0 (b.setWidth 32)).1 = leading b.getMsbD 8 ∧
      ((countOnes 32 0 (b.setWidth 32)).2 = 0xff00#32 ↔ b = 0xff#8) := by
  revert b
  decide +kernel

/-- The leading ones of a value that fits into a byte. -/
theorem countOnes_eq {val : BitVec 32} (len : Nat) (h : val.toNat < 0x100) :
    (countOnes 32 len val).1 = len + leading (val.setWidth 8).getMsbD 8 ∧
      ((countOnes 32 len val).2 = 0xff00#32 ↔ val = 0xff#32) := by
  have hback : (val.setWidth 8).setWidth 32 = val := by
    apply BitVec.eq_of_toNat_eq
    rw [BitVec.toNat_setWidth, BitVec.toNat_setWidth]
    omega
  obtain ⟨hones, hfull⟩ := countOnes_byte (val.setWidth 8)
  rw [hback] at hones hfull
  rw [countOnes_add]
  refine ⟨by rw [hones], ?_⟩
  dsimp only
  rw [hfull]
  constructor
  · intro hval
    rw [← hback, hval]
    rfl
  · rintro rfl
    rfl

/-- **What `strtol` reads of a piece**, of which nothing may be left over. -/
theorem strtol10_piece {t tail : Text} (hdot : '.' ∉ t) (hnul : '\x00' ∉ t)
    (htail : tail = [] ∨ ∃ r, tail = '.' :: r) :
    (∀ v, fieldValue t = some v → (strtol10 64 (t ++ tail)).2 = tail ∧
      BitVec.ofInt 32 (strtol10 64 (t ++ tail)).1 = v) ∧
    (fieldValue t = none → charAt (strtol10 64 (t ++ tail)).2 0 ≠ '.' ∧
      charAt (strtol10 64 (t ++ tail)).2 0 ≠ '\x00') := by
  have hscan : scanDecimal (t ++ tail) =
      (scanDecimal t).map fun p => (p.1, p.2.1, p.2.2 ++ tail) := by
    rcases htail with rfl | ⟨r, rfl⟩
    · simp
    · exact scanDecimal_append numberEnd_dot (by decide) t r
  have hstart : ∀ x u, x ∈ t → charAt (x :: u ++ tail) 0 ≠ '.' ∧
      charAt (x :: u ++ tail) 0 ≠ '\x00' := by
    intro x u hx
    exact ⟨fun h => hdot (h ▸ hx), fun h => hnul (h ▸ hx)⟩
  unfold fieldValue strtol10
  rw [hscan]
  cases hd : scanDecimal t with
  | none =>
    split
    · rename_i hnil
      subst hnil
      exact ⟨fun v hv => ⟨rfl, Option.some.inj hv⟩, fun h => by cases h⟩
    · rename_i hne
      refine ⟨fun v hv => (by cases hv), fun _ => ?_⟩
      obtain ⟨x, u, rfl⟩ := List.exists_cons_of_ne_nil hne
      exact hstart x u List.mem_cons_self
  | some p =>
    obtain ⟨neg, n, rest⟩ := p
    have hne : t ≠ [] := by
      rintro rfl
      cases hd
    rw [if_neg hne]
    cases rest with
    | nil => exact ⟨fun v hv => ⟨rfl, Option.some.inj hv⟩, fun h => by cases h⟩
    | cons x u =>
      refine ⟨fun v hv => (by cases hv), fun _ => ?_⟩
      exact hstart x u ((scanDecimal_suffix hd).subset List.mem_cons_self)

/-- **The program reads the pieces of its argument.** -/
theorem scanMask_eq (n : Nat) {s : Text} (len : Nat) (hnul : '\x00' ∉ s) :
    scanMask n (some s) len = readPieces n (pieces s) len := by
  induction n generalizing s len with
  | zero => rfl
  | succ n ih =>
    -- the first piece, what follows it, and the pieces behind
    obtain ⟨t, tail, ts, hs, hps, hdot, hnul', htail, hnext⟩ : ∃ t tail ts, s = t ++ tail ∧
        pieces s = t :: ts ∧ '.' ∉ t ∧ '\x00' ∉ t ∧ (tail = [] ∨ ∃ r, tail = '.' :: r) ∧
        ∀ k, (match tail with
          | [] => scanMask n none k
          | _ :: ptr => scanMask n (some ptr) k) = readPieces n ts k := by
      obtain ⟨hnot, hps⟩ | ⟨t, r, ht, hs, hps⟩ := pieces_cases s
      · refine ⟨s, [], [], (List.append_nil s).symm, hps, hnot, hnul, Or.inl rfl, fun k => ?_⟩
        cases n <;> rfl
      · rw [hs, List.mem_append, List.mem_cons, not_or, not_or] at hnul
        exact ⟨t, '.' :: r, pieces r, hs, hps, ht, hnul.1, Or.inr ⟨r, rfl⟩,
          fun k => ih k hnul.2.2⟩
    obtain ⟨hvalue, hbad⟩ := strtol10_piece hdot hnul' htail
    rw [scanMask, hps, readPieces]
    dsimp only
    rw [hs]
    cases hv : fieldValue t with
    | none => exact if_pos (hbad hv)
    | some v =>
      obtain ⟨hrest, hval⟩ := hvalue v hv
      have hend : ¬ (charAt tail 0 ≠ '.' ∧ charAt tail 0 ≠ '\x00') := by
        rcases htail with rfl | ⟨r, rfl⟩
        · exact fun h => h.2 rfl
        · exact fun h => h.1 rfl
      rw [hrest, hval, if_neg hend]
      dsimp only
      split
      · rfl
      · rename_i hlt
        obtain ⟨hones, hfull⟩ := countOnes_eq len (Nat.not_le.1 hlt)
        by_cases hff : v = 0xff#32
        · rw [if_neg (not_not.2 (hfull.2 hff)), if_pos hff, hones, hff, hnext]
          have height : leading ((0xff#32).setWidth 8).getMsbD 8 = 8 := by decide
          rw [height]
        · rw [if_pos (fun h => hff (hfull.1 h)), if_neg hff, hones]

/-! ## Netmasks -/

/-- A dotted quad of `p` leading ones and no others. -/
def Netmask (s : Text) (p : Nat) : Prop := p ≤ 32 ∧ ∃ a, Quad s a ∧ HasPrefix a p 32

theorem fieldValue_octet {g : Text} {b : Byte} (h : Octet g b) :
    fieldValue g = some (b.setWidth 32) := by
  obtain ⟨hnum, hval⟩ := h
  have hscan : scanDecimal g = some (false, digitsVal 10 g, []) := by
    have hall := scanDecimal_digits (r := []) hnum (Or.inl rfl)
    rwa [List.append_nil] at hall
  have hlt : b.toNat < 2 ^ 8 := b.isLt
  have hclamp : clamp 64 (signed false (digitsVal 10 g)) = ((b.toNat : Nat) : Int) := by
    rw [← hval]
    exact clamp_of_lt (by omega)
  rw [fieldValue, if_neg hnum.1, hscan]
  dsimp only
  rw [hclamp, Option.some.injEq]
  apply BitVec.eq_of_toNat_eq
  rw [BitVec.ofInt_natCast, BitVec.toNat_ofNat, BitVec.toNat_setWidth]

theorem byte_setWidth (b : Byte) : (b.setWidth 32).setWidth 8 = b := by
  rw [BitVec.setWidth_setWidth_of_le _ (by decide), BitVec.setWidth_eq]

theorem byte_full_iff (b : Byte) : b.setWidth 32 = 0xff#32 ↔ b = 0xff#8 := by
  revert b
  decide +kernel

/-- **The octets of a prefix are counted to its end.** -/
theorem readPieces_prefix {ps : List Text} {a : List Byte} {p : Nat} (len : Nat)
    (h : List.Forall₂ Octet ps a) (hp : HasPrefix a p (8 * a.length)) (hle : p ≤ 8 * a.length) :
    readPieces a.length ps len = some (len + p) := by
  induction h generalizing p len with
  | nil =>
    have : p = 0 := by simpa using hle
    rw [this]
    rfl
  | @cons g b ps a hg hrest ih =>
    have hlt : (b.setWidth 32).toNat < 0x100 := by
      rw [BitVec.toNat_setWidth]
      have : b.toNat < 2 ^ 8 := b.isLt
      omega
    rw [List.length_cons] at hp hle
    have hlead : leading (msbBit (b :: a)) (8 * (a.length + 1)) = p :=
      leading_eq hle (fun i hi => by rw [hp i (by omega), decide_eq_true hi])
        fun hlt => by rw [hp p hlt, decide_eq_false (Nat.lt_irrefl p)]
    obtain ⟨hpart, hfull⟩ := leading_cons (8 * (a.length + 1)) fun i hi => msbBit_cons_head b a hi
    have hwithin : within (8 * (a.length + 1)) 0 = 8 := by
      unfold within
      omega
    have hwidth : 8 * (a.length + 1) - 8 = 8 * a.length := by omega
    rw [hwithin] at hpart hfull
    rw [List.length_cons, readPieces, fieldValue_octet hg]
    dsimp only
    rw [if_neg (Nat.not_le.2 hlt), byte_setWidth]
    split
    · rename_i hff
      rw [byte_full_iff] at hff
      have h8 : leading b.getMsbD 8 = 8 := by
        rw [hff]
        exact (leading_full (Nat.le_refl 8)).1
      have hcount := hfull h8
      rw [hlead, hwidth] at hcount
      have hrest : HasPrefix a (p - 8) (8 * a.length) := by
        intro i hi
        have hbit := hp (8 + i) (by omega)
        rw [msbBit_cons_tail] at hbit
        rw [hbit, decide_eq_decide]
        omega
      rw [ih (len + 8) hrest (by omega), Option.some.injEq]
      omega
    · rename_i hff
      rw [byte_full_iff] at hff
      have h8 : leading b.getMsbD 8 < 8 := by
        refine Nat.lt_of_le_of_ne (leading_le _ _) fun h8 => hff (eq_of_leading (Or.inl h8))
      rw [← hpart h8, hlead]

/-- The exit status of a netmask. -/
theorem main_netmask {arg : CStr} {p : Nat} (h : Netmask arg.text p) : main arg = some p := by
  obtain ⟨hle, a, hquad, hpfx⟩ := h
  have hfour := hquad.four
  have hread := readPieces_prefix 0 hquad.octets (p := p) (by rw [hfour]; exact hpfx)
    (by rw [hfour]; exact hle)
  rw [hfour, Nat.zero_add] at hread
  rw [main, scanMask_eq 4 0 arg.noNul, hread]

theorem Netmask.unique {s : Text} {p q : Nat} (hp : Netmask s p) (hq : Netmask s q) : p = q := by
  obtain ⟨hple, a, ha, hpa⟩ := hp
  obtain ⟨hqle, b, hb, hqb⟩ := hq
  obtain rfl := ha.unique hb
  exact hpa.unique hqb hple hqle

/-! ## The exit status -/

/-- A field that is reported: no number, or a value that does not fit into a byte. -/
def Bad (t : Text) : Prop := ∀ v, fieldValue t = some v → 0x100 ≤ v.toNat

/-- Behind fields of eight ones, fewer than `n`, there is one that is reported. -/
def Refused (n : Nat) (ps : List Text) : Prop :=
  ∃ fs t ts, ps = fs ++ t :: ts ∧ fs.length < n ∧ (∀ f ∈ fs, fieldValue f = some 0xff#32) ∧ Bad t

theorem le_of_readPieces {n len k : Nat} {ps : List Text} (h : readPieces n ps len = some k)
    (hk : k ≠ 255) : len ≤ k := by
  induction n generalizing ps len with
  | zero =>
    cases h
    exact Nat.le_refl _
  | succ n ih =>
    cases ps with
    | nil => cases h
    | cons t ts =>
      rw [readPieces] at h
      split at h
      · cases h
        exact absurd rfl hk
      · split at h
        · cases h
          exact absurd rfl hk
        · split at h
          · have := ih h
            omega
          · cases h
            exact Nat.le_add_right _ _

/-- **The arguments that are reported.** -/
theorem readPieces_refused_iff {n len : Nat} {ps : List Text} (hlen : len + 8 * n < 255) :
    readPieces n ps len = some 255 ↔ Refused n ps := by
  induction n generalizing ps len with
  | zero =>
    constructor
    · intro h
      cases h
      omega
    · rintro ⟨fs, t, ts, -, hlt, -⟩
      omega
  | succ n ih =>
    cases ps with
    | nil =>
      constructor
      · intro h
        cases h
      · rintro ⟨fs, t, ts, hps, -⟩
        simp at hps
    | cons t ts =>
      have hfirst : Refused (n + 1) (t :: ts) ↔
          Bad t ∨ (fieldValue t = some 0xff#32 ∧ Refused n ts) := by
        constructor
        · rintro ⟨fs, u, us, hps, hlt, hfull, hbad⟩
          cases fs with
          | nil =>
            obtain ⟨rfl, -⟩ := List.cons.inj hps
            exact Or.inl hbad
          | cons f fs =>
            obtain ⟨rfl, hts⟩ := List.cons.inj hps
            refine Or.inr ⟨hfull t List.mem_cons_self, fs, u, us, hts, ?_, ?_, hbad⟩
            · exact Nat.lt_of_succ_lt_succ hlt
            · exact fun f hf => hfull f (List.mem_cons_of_mem _ hf)
        · rintro (hbad | ⟨hfull, fs, u, us, hts, hlt, hfulls, hbad⟩)
          · exact ⟨[], t, ts, rfl, Nat.succ_pos n, by simp, hbad⟩
          · refine ⟨t :: fs, u, us, by rw [hts]; rfl, Nat.succ_lt_succ hlt, ?_, hbad⟩
            intro f hf
            rcases List.mem_cons.1 hf with rfl | hf
            · exact hfull
            · exact hfulls f hf
      rw [hfirst, readPieces]
      cases hv : fieldValue t with
      | none =>
        refine ⟨fun _ => Or.inl fun v hv' => ?_, fun _ => rfl⟩
        rw [hv] at hv'
        cases hv'
      | some v =>
        have hbad : Bad t ↔ 0x100 ≤ v.toNat := by
          unfold Bad
          rw [hv]
          exact ⟨fun h => h v rfl, fun h w hw => Option.some.inj hw ▸ h⟩
        dsimp only
        rw [hbad]
        split
        · rename_i hbig
          exact ⟨fun _ => Or.inl hbig, fun _ => rfl⟩
        · rename_i hsmall
          split
          · rename_i hff
            rw [ih (by omega), hff]
            simp
          · rename_i hff
            have hle : leading (v.setWidth 8).getMsbD 8 ≤ 8 := leading_le _ _
            constructor
            · intro h
              have := Option.some.inj h
              omega
            · rintro (hbig | ⟨h, -⟩)
              · exact absurd hbig hsmall
              · exact absurd (Option.some.inj h) hff

/-- The program ends with the prefix length of a netmask, and with 255 for all other arguments. -/
def StatusRight (arg : CStr) : Prop :=
  (∀ p, Netmask arg.text p → main arg = some p) ∧
    ((¬ ∃ p, Netmask arg.text p) → main arg = some 255)

/-- **On which arguments the exit status is right.** -/
theorem statusRight_iff (arg : CStr) :
    StatusRight arg ↔ (∃ p, Netmask arg.text p) ∨ Refused 4 (pieces arg.text) := by
  have hmain : main arg = some 255 ↔ Refused 4 (pieces arg.text) := by
    rw [main, scanMask_eq 4 0 arg.noNul, readPieces_refused_iff (by decide)]
  constructor
  · rintro ⟨-, hother⟩
    by_cases hmask : ∃ p, Netmask arg.text p
    · exact Or.inl hmask
    · exact Or.inr (hmain.1 (hother hmask))
  · intro h
    refine ⟨fun p hp => main_netmask hp, fun hnot => ?_⟩
    rcases h with hmask | hrefused
    · exact absurd hmask hnot
    · exact hmain.2 hrefused

/-! ## The shell function -/

/-- Without an explicit prefix, the result is the prefix length of a netmask and empty for all
other arguments. -/
def TransformRight (env : Interfaces.Env) (arg : CStr) : Prop :=
  ∃ status, main arg = some status ∧
    (∀ p, Netmask arg.text p →
      Interfaces.transformMask2Prefix { env with mask2prefix := fun _ => status } [] arg.text =
        Nat.toDigits 10 p) ∧
    ((¬ ∃ p, Netmask arg.text p) →
      Interfaces.transformMask2Prefix { env with mask2prefix := fun _ => status } [] arg.text = [])

/-- The first field is a number without a leading one. -/
def Low (ps : List Text) : Prop :=
  ∃ t ts v, ps = t :: ts ∧ fieldValue t = some v ∧ v.toNat < 0x80

theorem leading_eq_zero_iff {b : Byte} : leading b.getMsbD 8 = 0 ↔ b.toNat < 0x80 := by
  revert b
  decide +kernel

/-- The arguments without a leading one. -/
theorem readPieces_zero_iff {n : Nat} {ps : List Text} :
    readPieces (n + 1) ps 0 = some 0 ↔ Low ps := by
  cases ps with
  | nil =>
    constructor
    · intro h
      cases h
    · rintro ⟨t, ts, v, hps, -⟩
      cases hps
  | cons t ts =>
    have hlow : Low (t :: ts) ↔ ∃ v, fieldValue t = some v ∧ v.toNat < 0x80 := by
      constructor
      · rintro ⟨u, us, v, hps, hv, hlt⟩
        obtain ⟨rfl, -⟩ := List.cons.inj hps
        exact ⟨v, hv, hlt⟩
      · rintro ⟨v, hv, hlt⟩
        exact ⟨t, ts, v, rfl, hv, hlt⟩
    rw [hlow, readPieces]
    cases hv : fieldValue t with
    | none => simp
    | some v =>
      simp only [Option.some.injEq, exists_eq_left']
      split
      · rename_i hbig
        constructor
        · intro h
          cases h
        · intro h
          omega
      · rename_i hsmall
        split
        · rename_i hff
          constructor
          · intro h
            have := le_of_readPieces h (by decide)
            omega
          · intro h
            rw [hff] at h
            exact absurd h (by decide)
        · rw [Option.some.injEq, Nat.zero_add, leading_eq_zero_iff, BitVec.toNat_setWidth,
            Nat.mod_eq_of_lt (by omega)]

theorem transform_eq_nil_iff (env : Interfaces.Env) (status : Nat) (mask : Text) :
    Interfaces.transformMask2Prefix { env with mask2prefix := fun _ => status } [] mask = [] ↔
      status = 0 := by
  unfold Interfaces.transformMask2Prefix
  rw [if_neg (not_not.2 rfl)]
  dsimp only
  split
  · rename_i h
    exact ⟨fun _ => h, fun _ => rfl⟩
  · rename_i h
    exact ⟨fun hnil => absurd hnil Nat.toDigits_ne_nil, fun h0 => absurd h0 h⟩

/-- **On which arguments the shell function is right.** -/
theorem transformRight_iff (env : Interfaces.Env) (arg : CStr) :
    TransformRight env arg ↔ (∃ p, p ≠ 0 ∧ Netmask arg.text p) ∨
      ((¬ ∃ p, Netmask arg.text p) ∧ Low (pieces arg.text)) := by
  have hmain : main arg = some 0 ↔ Low (pieces arg.text) := by
    rw [main, scanMask_eq 4 0 arg.noNul, readPieces_zero_iff]
  constructor
  · rintro ⟨status, hstatus, hmask, hother⟩
    by_cases hnet : ∃ p, Netmask arg.text p
    · obtain ⟨p, hp⟩ := hnet
      refine Or.inl ⟨p, ?_, hp⟩
      obtain rfl : status = p := Option.some.inj (hstatus.symm.trans (main_netmask hp))
      have hne : Interfaces.transformMask2Prefix { env with mask2prefix := fun _ => status } []
          arg.text ≠ [] := by
        rw [hmask status hp]
        exact Nat.toDigits_ne_nil
      rwa [Ne, transform_eq_nil_iff] at hne
    · have hzero := (transform_eq_nil_iff env status arg.text).1 (hother hnet)
      rw [hzero] at hstatus
      exact Or.inr ⟨hnet, hmain.1 hstatus⟩
  · rintro (⟨p, hpos, hp⟩ | ⟨hnet, hlow⟩)
    · refine ⟨p, main_netmask hp, fun q hq => ?_, fun hnot => absurd ⟨p, hp⟩ hnot⟩
      obtain rfl := hp.unique hq
      unfold Interfaces.transformMask2Prefix
      rw [if_neg (not_not.2 rfl), if_neg hpos]
    · refine ⟨0, hmain.2 hlow, fun p hp => absurd ⟨p, hp⟩ hnet, fun _ => ?_⟩
      exact (transform_eq_nil_iff env 0 arg.text).2 rfl

/-- **On which arguments the exit status and the result of the shell function are both right**:
the netmasks with a leading one.  The other two parts say when each of them is right. -/
theorem mask2prefix_exact (env : Interfaces.Env) (arg : CStr) :
    ((StatusRight arg ∧ TransformRight env arg) ↔ ∃ p, p ≠ 0 ∧ Netmask arg.text p) ∧
    (StatusRight arg ↔ (∃ p, Netmask arg.text p) ∨ Refused 4 (pieces arg.text)) ∧
    (TransformRight env arg ↔ (∃ p, p ≠ 0 ∧ Netmask arg.text p) ∨
      ((¬ ∃ p, Netmask arg.text p) ∧ Low (pieces arg.text))) := by
  refine ⟨⟨?_, ?_⟩, statusRight_iff arg, transformRight_iff env arg⟩
  · rintro ⟨⟨-, hother⟩, htransform⟩
    rcases (transformRight_iff env arg).1 htransform with hmask | ⟨hnet, hlow⟩
    · exact hmask
    · have h255 := hother hnet
      have h0 : readPieces 4 (pieces arg.text) 0 = some 0 := readPieces_zero_iff.2 hlow
      rw [main, scanMask_eq 4 0 arg.noNul, h0] at h255
      cases h255
  · rintro ⟨p, hpos, hp⟩
    exact ⟨(statusRight_iff arg).2 (Or.inl ⟨p, hp⟩),
      (transformRight_iff env arg).2 (Or.inl ⟨p, hpos, hp⟩)⟩

/-- Behind a single field of eight ones the program reads on behind the NUL; zeros in front of
further ones, and the empty text, are taken for netmasks. -/
theorem mask2prefix_wrong :
    ¬ StatusRight ⟨"255".toList, by decide⟩ ∧ main ⟨"255".toList, by decide⟩ = none ∧
      main ⟨"255.0.255.0".toList, by decide⟩ = some 8 ∧ main ⟨[], by decide⟩ = some 0 := by
  have hnone : main ⟨"255".toList, by decide⟩ = none := by decide +kernel
  refine ⟨?_, hnone, by decide +kernel, by decide +kernel⟩
  rintro ⟨hmask, hother⟩
  rw [hnone] at hmask hother
  by_cases hnet : ∃ p, Netmask "255".toList p
  · obtain ⟨p, hp⟩ := hnet
    cases hmask p hp
  · cases hother hnet

end Mask2Prefix
