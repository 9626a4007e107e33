import UtilVserver.Lib.DottedQuad

/-!
# Addresses of `ifspec` (`src/ifspec.c`)

`ip_cnv` reads up to four groups of digits and the dots between them.

* `Scan`, `scanGroups` — the loop, with the rounds that the four places of `tb` leave.
* `ipCnv` — the address, and whether the text has been reported as invalid.
* `asInt` — a group as `atoi` gives it.

Principal results: `ipCnv_accepts_iff` (the texts that are accepted) and `ipCnv_exact` (those on
which it agrees with the addresses of four octets).
-/

set_option autoImplicit false

namespace Ifspec

open CString ByteBits DottedQuad

/-- `isdigit` in the C locale. -/
def isdigit (c : Char) : Bool := isDigitIn 10 c

/-- `str` and the part of `tb` that has been filled. -/
structure Scan where
  str : Text
  tb : List (BitVec 32)
  deriving DecidableEq

def scanGroups : Nat → Scan → Scan
  | 0, s => s
  | n + 1, s =>
    if isdigit (charAt s.str 0) then
      let val := atoi s.str
      if 255 < val.toInt then s
      else
        let str := s.str.dropWhile isdigit
        let tb := s.tb ++ [val]
        if charAt str 0 = '.' then scanGroups n ⟨str.drop 1, tb⟩ else ⟨str, tb⟩
    else s

structure Converted where
  ret : BitVec 64
  /-- The text has been reported as invalid. -/
  invalid : Bool
  deriving DecidableEq

def ipCnv (str : CStr) : Converted :=
  let s := scanGroups 4 ⟨str.text, []⟩
  -- the places of `tb` that are not filled hold -1
  let tb := fun i => s.tb.getD i (-1)
  if s.tb.length ≠ 4 ∨ s.str ≠ [] then ⟨0xffffffff, true⟩
  else ⟨((tb 0 <<< 24) ||| (tb 1 <<< 16) ||| (tb 2 <<< 8) ||| tb 3).setWidth 64, false⟩

/-! ## Groups of digits -/

/-- A group of digits as `atoi` gives it: saturated as a long and cut off to an int. -/
def asInt (g : Text) : BitVec 32 := BitVec.ofInt 32 (clamp 64 (digitsVal 10 g))

/-- A number that the comparison with 255 lets pass. -/
def Passes (n : Nat) : Prop :=
  min n (2 ^ 63 - 1) % 2 ^ 32 ≤ 255 ∨ 2 ^ 31 ≤ min n (2 ^ 63 - 1) % 2 ^ 32

instance (n : Nat) : Decidable (Passes n) := inferInstanceAs (Decidable (_ ∨ _))

theorem asInt_toNat (g : Text) :
    (asInt g).toNat = min (digitsVal 10 g) (2 ^ 63 - 1) % 2 ^ 32 := by
  have hclamp : clamp 64 (digitsVal 10 g) = ((min (digitsVal 10 g) (2 ^ 63 - 1) : Nat) : Int) := by
    unfold clamp
    omega
  rw [asInt, hclamp, BitVec.ofInt_natCast, BitVec.toNat_ofNat]

theorem passes_iff (g : Text) : (asInt g).toInt ≤ 255 ↔ Passes (digitsVal 10 g) := by
  have hnat := asInt_toNat g
  have hlt : (asInt g).toNat < 2 ^ 32 := (asInt g).isLt
  unfold Passes
  rw [← hnat, BitVec.toInt_eq_toNat_cond]
  split <;> omega

theorem asInt_of_le {g : Text} (h : digitsVal 10 g ≤ 255) : (asInt g).toNat = digitsVal 10 g := by
  rw [asInt_toNat]
  omega

theorem passes_of_le {n : Nat} (h : n ≤ 255) : Passes n := by
  unfold Passes
  omega

/-- A text starts with a group of digits, or with no digit. -/
theorem digits_cases (s : Text) :
    isdigit (charAt s 0) = false ∨
      ∃ g r, Numeral g ∧ s = g ++ r ∧ s.dropWhile isdigit = r ∧ isdigit (charAt r 0) = false := by
  cases hs : s with
  | nil => exact Or.inl rfl
  | cons c s' =>
    cases hc : isdigit c with
    | false => exact Or.inl hc
    | true =>
      have hsplit := List.takeWhile_append_dropWhile (p := isdigit) (l := c :: s')
      refine Or.inr ⟨(c :: s').takeWhile isdigit, (c :: s').dropWhile isdigit, ⟨?_, ?_⟩,
        hsplit.symm, rfl, ?_⟩
      · simp [hc]
      · rw [List.all_eq_true]
        intro x hx
        exact List.mem_takeWhile_imp hx
      · cases hd : (c :: s').dropWhile isdigit with
        | nil => rfl
        | cons x r =>
          have hx := List.head_dropWhile_not isdigit (l := c :: s') (by simp [hd])
          simp only [hd, List.head_cons] at hx
          exact hx

theorem isdigit_head {g : Text} (r : Text) (h : Numeral g) : isdigit (charAt (g ++ r) 0) = true := by
  obtain ⟨hne, hall⟩ := h
  cases g with
  | nil => exact absurd rfl hne
  | cons c g =>
    have hc : isDigitIn 10 c = true := List.all_eq_true.1 hall c List.mem_cons_self
    exact hc

/-- `atoi` reads the group. -/
theorem atoi_group {g r : Text} (h : Numeral g) (hr : isdigit (charAt r 0) = false) :
    atoi (g ++ r) = asInt g := by
  obtain ⟨hne, hall⟩ := h
  have hdigits : ∀ c ∈ g, isDigitIn 10 c = true := List.all_eq_true.1 hall
  have htake : (g ++ r).takeWhile (isDigitIn 10) = g := by
    rw [List.takeWhile_append_of_pos hdigits]
    cases r with
    | nil => simp
    | cons c r =>
      have hc : isDigitIn 10 c = false := hr
      simp [hc]
  cases g with
  | nil => exact absurd rfl hne
  | cons c g =>
    have hc : isDigitIn 10 c = true := hdigits c List.mem_cons_self
    have hspace : ((c :: g) ++ r).dropWhile isspace = (c :: g) ++ r := by
      simp [isspace_of_digit hc]
    have hscan : scanDecimal ((c :: g) ++ r) =
        some (false, digitsVal 10 (c :: g), ((c :: g) ++ r).dropWhile (isDigitIn 10)) := by
      simp only [scanDecimal, hspace]
      rw [List.cons_append, scanSign_digit hc, ← List.cons_append, htake, if_neg hne]
    rw [atoi, strtol10, hscan]
    rfl

theorem numeral_no_dot {g : Text} (h : Numeral g) : '.' ∉ g := not_mem_of_digits h.2 (by decide)

/-! ## The loop -/

/-- A group that the loop takes. -/
def Taken (g : Text) : Prop := Numeral g ∧ Passes (digitsVal 10 g)

instance (g : Text) : Decidable (Taken g) := inferInstanceAs (Decidable (_ ∧ _))

/-- The pieces are groups that the loop takes; a dot may follow the last one. -/
def Groups (s : Text) (gs : List Text) : Prop :=
  (∀ g ∈ gs, Taken g) ∧ (pieces s = gs ∨ pieces s = gs ++ [[]])

/-- A text whose first piece is not taken has no groups. -/
theorem not_groups {s t : Text} {ps gs : List Text} (hs : pieces s = t :: ps) (ht : ¬ Taken t)
    (hne : gs ≠ []) : ¬ Groups s gs := by
  rintro ⟨htaken, hgs⟩
  cases gs with
  | nil => exact hne rfl
  | cons g gs =>
    have hg : t = g := by
      rcases hgs with hgs | hgs
      · exact (List.cons.inj (hs.symm.trans hgs)).1
      · exact (List.cons.inj (hs.symm.trans hgs)).1
    exact ht (hg ▸ htaken g List.mem_cons_self)

/-- What a round does: it refuses the first piece, it takes the only one, or it takes the first one
and goes on behind the dot. -/
theorem round_cases (str : Text) :
    (∃ t ps, pieces str = t :: ps ∧ ¬ Taken t ∧ ∀ n tb,
      (scanGroups (n + 1) ⟨str, tb⟩).str ≠ [] ∨ (scanGroups (n + 1) ⟨str, tb⟩).tb = tb) ∨
    (Taken str ∧ pieces str = [str] ∧
      ∀ n tb, scanGroups (n + 1) ⟨str, tb⟩ = ⟨[], tb ++ [asInt str]⟩) ∨
    ∃ g r, Taken g ∧ pieces str = g :: pieces r ∧
      ∀ n tb, scanGroups (n + 1) ⟨str, tb⟩ = scanGroups n ⟨r, tb ++ [asInt g]⟩ := by
  obtain hdigit | ⟨g, r, hg, hs, hdrop, hr⟩ := digits_cases str
  · refine Or.inl ?_
    have hstop : ∀ n tb, scanGroups (n + 1) ⟨str, tb⟩ = ⟨str, tb⟩ := by
      intro n tb
      rw [scanGroups, if_neg (by rw [hdigit]; decide)]
    have hnumeral : ∃ t ps, pieces str = t :: ps ∧ ¬ Numeral t := by
      cases str with
      | nil => exact ⟨[], [], pieces_last (by simp), fun h => h.1 rfl⟩
      | cons c r =>
        by_cases hc : c = '.'
        · subst hc
          exact ⟨[], pieces r, pieces_dot (t := []) r (by simp), fun h => h.1 rfl⟩
        · obtain ⟨p, ps, hps⟩ := pieces_inside (g := []) r (by simp) hc
          refine ⟨c :: p, ps, hps, fun h => ?_⟩
          have : isDigitIn 10 c = true := List.all_eq_true.1 h.2 c List.mem_cons_self
          rw [show isDigitIn 10 c = false from hdigit] at this
          cases this
    obtain ⟨t, ps, hps, hnot⟩ := hnumeral
    refine ⟨t, ps, hps, fun h => hnot h.1, fun n tb => Or.inr ?_⟩
    rw [hstop]
  have hdot := numeral_no_dot hg
  have hval : atoi str = asInt g := by rw [hs, atoi_group hg hr]
  have hstart : isdigit (charAt str 0) = true := by rw [hs, isdigit_head r hg]
  by_cases hpass : Passes (digitsVal 10 g)
  · have hround : ∀ n tb, scanGroups (n + 1) ⟨str, tb⟩ =
        if charAt r 0 = '.' then scanGroups n ⟨r.drop 1, tb ++ [asInt g]⟩
        else ⟨r, tb ++ [asInt g]⟩ := by
      intro n tb
      have hle : ¬ 255 < (asInt g).toInt := Int.not_lt.2 ((passes_iff g).2 hpass)
      rw [scanGroups, if_pos hstart]
      simp only [hval, hle, if_false, hdrop]
    cases r with
    | nil =>
      rw [List.append_nil] at hs
      rw [hs] at hround ⊢
      exact Or.inr (Or.inl ⟨⟨hg, hpass⟩, pieces_last hdot, hround⟩)
    | cons c r =>
      by_cases hc : c = '.'
      · subst hc
        rw [hs, pieces_dot r hdot]
        rw [hs] at hround
        exact Or.inr (Or.inr ⟨g, r, ⟨hg, hpass⟩, rfl, hround⟩)
      · obtain ⟨p, ps, hps⟩ := pieces_inside r hdot hc
        refine Or.inl ⟨g ++ c :: p, ps, by rw [hs, hps], fun h => ?_, fun n tb => Or.inl ?_⟩
        · have hmem : c ∈ g ++ c :: p := by simp
          have : isDigitIn 10 c = true := List.all_eq_true.1 h.1.2 c hmem
          rw [show isDigitIn 10 c = false from hr] at this
          cases this
        · have hstop : charAt (c :: r) 0 ≠ '.' := hc
          rw [hround, if_neg hstop]
          exact List.cons_ne_nil c r
  · refine Or.inl ?_
    have hstop : ∀ n tb, scanGroups (n + 1) ⟨str, tb⟩ = ⟨str, tb⟩ := by
      intro n tb
      have hlt : 255 < (asInt g).toInt := by
        rw [← Int.not_le, passes_iff]
        exact hpass
      rw [scanGroups, if_pos hstart]
      simp only [hval, hlt, if_true]
    have hfirst : ∃ t ps, pieces str = t :: ps ∧ ¬ Taken t := by
      cases r with
      | nil =>
        rw [List.append_nil] at hs
        exact ⟨g, [], by rw [hs, pieces_last hdot], fun h => hpass h.2⟩
      | cons c r =>
        by_cases hc : c = '.'
        · subst hc
          exact ⟨g, pieces r, by rw [hs, pieces_dot r hdot], fun h => hpass h.2⟩
        · obtain ⟨p, ps, hps⟩ := pieces_inside r hdot hc
          refine ⟨g ++ c :: p, ps, by rw [hs, hps], fun h => ?_⟩
          have : isDigitIn 10 c = true := List.all_eq_true.1 h.1.2 c (by simp)
          rw [show isDigitIn 10 c = false from hr] at this
          cases this
    obtain ⟨t, ps, hps, hnot⟩ := hfirst
    refine ⟨t, ps, hps, hnot, fun n tb => Or.inr ?_⟩
    rw [hstop]

/-- **What the loop makes of groups.** -/
theorem scanGroups_groups {n : Nat} {str : Text} {gs : List Text} (tb : List (BitVec 32))
    (hlen : gs.length = n + 1) (h : Groups str gs) :
    scanGroups (n + 1) ⟨str, tb⟩ = ⟨[], tb ++ gs.map asInt⟩ := by
  induction n generalizing str gs tb with
  | zero =>
    obtain ⟨g, rfl⟩ := List.length_eq_one_iff.1 hlen
    obtain ⟨t, ps, hps, hnot, -⟩ | ⟨-, hps, hround⟩ | ⟨g', r, -, hps, hround⟩ := round_cases str
    · exact absurd h (not_groups hps hnot (by simp))
    · rcases h.2 with hgs | hgs
      · obtain rfl : str = g := (List.cons.inj (hps.symm.trans hgs)).1
        exact hround 0 tb
      · simp [hps] at hgs
    · rcases h.2 with hgs | hgs
      · exact absurd (List.cons.inj (hps.symm.trans hgs)).2 (pieces_ne_nil r)
      · obtain ⟨rfl, hr⟩ := List.cons.inj (hps.symm.trans hgs)
        rw [hround, pieces_eq_nil_iff.1 hr]
        rfl
  | succ n ih =>
    obtain ⟨g, gs, rfl⟩ := List.exists_cons_of_length_eq_add_one hlen
    rw [List.length_cons, Nat.add_right_cancel_iff] at hlen
    obtain ⟨t, ps, hps, hnot, -⟩ | ⟨-, hps, -⟩ | ⟨g', r, -, hps, hround⟩ := round_cases str
    · exact absurd h (not_groups hps hnot (by simp))
    · have hone : (pieces str).length = 1 := by rw [hps]; rfl
      rcases h.2 with hgs | hgs
      · rw [hgs, List.length_cons, hlen] at hone
        omega
      · rw [hgs, List.length_append, List.length_cons, hlen] at hone
        omega
    · have hrest : Groups r gs ∧ g' = g := by
        rcases h.2 with hgs | hgs
        · obtain ⟨hg, hr⟩ := List.cons.inj (hps.symm.trans hgs)
          exact ⟨⟨fun x hx => h.1 x (List.mem_cons_of_mem _ hx), Or.inl hr⟩, hg⟩
        · obtain ⟨hg, hr⟩ := List.cons.inj (hps.symm.trans hgs)
          exact ⟨⟨fun x hx => h.1 x (List.mem_cons_of_mem _ hx), Or.inr hr⟩, hg⟩
      obtain ⟨hgroups, rfl⟩ := hrest
      rw [hround, ih _ hlen hgroups, List.map_cons, List.append_assoc, List.singleton_append]

/-- **Where the loop fills its places and leaves nothing over, the text is made of groups.** -/
theorem groups_of_scanGroups {n : Nat} {str : Text} {tb : List (BitVec 32)}
    (hlen : (scanGroups (n + 1) ⟨str, tb⟩).tb.length = tb.length + (n + 1))
    (hend : (scanGroups (n + 1) ⟨str, tb⟩).str = []) : ∃ gs, gs.length = n + 1 ∧ Groups str gs := by
  induction n generalizing str tb with
  | zero =>
    obtain ⟨-, -, -, -, hround⟩ | ⟨htaken, hps, -⟩ | ⟨g, r, htaken, hps, hround⟩ := round_cases str
    · rcases hround 0 tb with hround | hround
      · exact absurd hend hround
      · rw [hround] at hlen
        omega
    · exact ⟨[str], rfl, by simpa using htaken, Or.inl hps⟩
    · rw [hround] at hend
      obtain rfl : r = [] := hend
      exact ⟨[g], rfl, by simpa using htaken, Or.inr hps⟩
  | succ n ih =>
    obtain ⟨-, -, -, -, hround⟩ | ⟨-, -, hround⟩ | ⟨g, r, htaken, hps, hround⟩ := round_cases str
    · rcases hround (n + 1) tb with hround | hround
      · exact absurd hend hround
      · rw [hround] at hlen
        omega
    · rw [hround, List.length_append, List.length_singleton] at hlen
      omega
    · rw [hround] at hlen hend
      have hlen' : (scanGroups (n + 1) ⟨r, tb ++ [asInt g]⟩).tb.length =
          (tb ++ [asInt g]).length + (n + 1) := by
        rw [hlen, List.length_append, List.length_singleton]
        omega
      obtain ⟨gs, hgs, htakens, hpieces⟩ := ih hlen' hend
      refine ⟨g :: gs, by rw [List.length_cons, hgs], ?_, ?_⟩
      · intro x hx
        rcases List.mem_cons.1 hx with rfl | hx
        · exact htaken
        · exact htakens x hx
      · rw [hps]
        exact hpieces.imp (fun h => by rw [h]) fun h => by rw [h, List.cons_append]

/-! ## Addresses -/

theorem ipCnv_invalid_iff (str : CStr) :
    (ipCnv str).invalid = true ↔
      (scanGroups 4 ⟨str.text, []⟩).tb.length ≠ 4 ∨ (scanGroups 4 ⟨str.text, []⟩).str ≠ [] := by
  unfold ipCnv
  dsimp only
  split
  · rename_i h
    exact ⟨fun _ => h, fun _ => rfl⟩
  · rename_i h
    exact ⟨fun hf => absurd hf Bool.false_ne_true, fun hf => absurd hf h⟩

/-- **The texts that are accepted**: four groups of digits with dots between them, and a fifth dot
may follow. -/
theorem ipCnv_accepts_iff (str : CStr) :
    (ipCnv str).invalid = false ↔ ∃ gs, gs.length = 4 ∧ Groups str.text gs := by
  rw [← Bool.not_eq_true, ipCnv_invalid_iff, not_or, not_not, not_not]
  constructor
  · rintro ⟨hlen, hend⟩
    have hlen' : (scanGroups (3 + 1) ⟨str.text, []⟩).tb.length = ([] : List (BitVec 32)).length + 4 :=
      hlen
    exact groups_of_scanGroups hlen' hend
  · rintro ⟨gs, hgs, hgroups⟩
    have hscan := scanGroups_groups (n := 3) [] hgs hgroups
    rw [hscan]
    exact ⟨by simpa using hgs, rfl⟩

/-- The pieces of four octets. -/
theorem exists_quad_iff {s : Text} :
    (∃ a, Quad s a) ↔
      (pieces s).length = 4 ∧ ∀ g ∈ pieces s, Numeral g ∧ digitsVal 10 g ≤ 255 := by
  constructor
  · rintro ⟨a, hfour, hoctets⟩
    refine ⟨hoctets.length_eq.trans hfour, fun g hg => ?_⟩
    obtain ⟨i, hi, rfl⟩ := List.getElem_of_mem hg
    have hi' : i < a.length := by
      rw [← hoctets.length_eq]
      exact hi
    obtain ⟨hnum, hval⟩ : Octet (pieces s)[i] a[i] := hoctets.get hi hi'
    have hlt : (a[i]).toNat < 2 ^ 8 := (a[i]).isLt
    exact ⟨hnum, by omega⟩
  · rintro ⟨hlen, hall⟩
    refine ⟨(pieces s).map fun g => BitVec.ofNat 8 (digitsVal 10 g), by simpa using hlen, ?_⟩
    rw [List.forall₂_map_right_iff, List.forall₂_same]
    intro g hg
    obtain ⟨hnum, hle⟩ := hall g hg
    refine ⟨hnum, ?_⟩
    rw [BitVec.toNat_ofNat, Nat.mod_eq_of_lt (by omega)]

theorem groups_of_quad {s : Text} {a : List Byte} (h : Quad s a) : Groups s (pieces s) := by
  obtain ⟨-, hall⟩ := exists_quad_iff.1 ⟨a, h⟩
  exact ⟨fun g hg => ⟨(hall g hg).1, passes_of_le (hall g hg).2⟩, Or.inl rfl⟩

/-- A group of an octet, as the bits that are shifted. -/
theorem asInt_octet {g : Text} {b : Byte} (h : Octet g b) : asInt g = b.setWidth 32 := by
  have hlt : b.toNat < 2 ^ 8 := b.isLt
  have hle : digitsVal 10 g ≤ 255 := by
    rw [h.2]
    omega
  apply BitVec.eq_of_toNat_eq
  rw [asInt_of_le hle, h.2, BitVec.toNat_setWidth, Nat.mod_eq_of_lt (by omega)]

/-- **Four octets are stored in their order.** -/
theorem ipCnv_quad {str : CStr} {a : List Byte} (h : Quad str.text a) :
    (ipCnv str).ret.toNat < 2 ^ 32 ∧ bigEndian ((ipCnv str).ret.setWidth 32) = a := by
  have hlen : (pieces str.text).length = 4 := (exists_quad_iff.1 ⟨a, h⟩).1
  have hscan := scanGroups_groups (n := 3) [] hlen (groups_of_quad h)
  obtain ⟨g0, g1, g2, g3, a0, a1, a2, a3, hp, rfl, h0, h1, h2, h3⟩ := h.parts
  rw [hp] at hscan
  have hret : (ipCnv str).ret = (joinBytes (a0.setWidth 32) (a1.setWidth 32) (a2.setWidth 32)
      (a3.setWidth 32)).setWidth 64 := by
    rw [← asInt_octet h0, ← asInt_octet h1, ← asInt_octet h2, ← asInt_octet h3]
    unfold ipCnv
    rw [hscan]
    rfl
  rw [hret]
  constructor
  · rw [BitVec.toNat_setWidth]
    have := (joinBytes (a0.setWidth 32) (a1.setWidth 32) (a2.setWidth 32) (a3.setWidth 32)).isLt
    omega
  · rw [BitVec.setWidth_setWidth_of_le _ (by decide), BitVec.setWidth_eq, bigEndian_joinBytes]

/-- A dot behind the last group, or a number that does not fit into a byte and passes as the int
that `atoi` makes of it. -/
def Wrong (s : Text) : Prop :=
  ∃ gs, gs.length = 4 ∧ (∀ g ∈ gs, Numeral g ∧ Passes (digitsVal 10 g)) ∧
    (pieces s = gs ++ [[]] ∨ (pieces s = gs ∧ ∃ g ∈ gs, 255 < digitsVal 10 g))

/-- Four octets are accepted and stored in their order, and nothing else is accepted. -/
def Exact (str : CStr) : Prop :=
  ((ipCnv str).invalid = false ↔ ∃ a, Quad str.text a) ∧
    ∀ a, Quad str.text a →
      (ipCnv str).ret.toNat < 2 ^ 32 ∧ bigEndian ((ipCnv str).ret.setWidth 32) = a

/-- **The texts on which `ip_cnv` agrees with the addresses of four octets.** -/
theorem ipCnv_exact (str : CStr) : Exact str ↔ ¬ Wrong str.text := by
  constructor
  · rintro ⟨haccepts, -⟩ ⟨gs, hlen, htaken, hwrong⟩
    have haccepted : (ipCnv str).invalid = false := by
      rw [ipCnv_accepts_iff]
      exact ⟨gs, hlen, htaken, hwrong.symm.imp And.left id⟩
    obtain ⟨hfour, hall⟩ := exists_quad_iff.1 (haccepts.1 haccepted)
    rcases hwrong with hpieces | ⟨hpieces, g, hg, hbig⟩
    · rw [hpieces, List.length_append, hlen] at hfour
      cases hfour
    · have := (hall g (hpieces ▸ hg)).2
      omega
  · intro hwrong
    refine ⟨⟨fun haccepted => ?_, fun ⟨a, ha⟩ => ?_⟩, fun a ha => ipCnv_quad ha⟩
    · obtain ⟨gs, hlen, htaken, hpieces⟩ := (ipCnv_accepts_iff str).1 haccepted
      rcases hpieces with hpieces | hpieces
      · refine exists_quad_iff.2 ⟨by rw [hpieces, hlen], fun g hg => ?_⟩
        rw [hpieces] at hg
        refine ⟨(htaken g hg).1, ?_⟩
        by_contra hbig
        exact hwrong ⟨gs, hlen, htaken, Or.inr ⟨hpieces, g, hg, by omega⟩⟩
      · exact absurd ⟨gs, hlen, htaken, Or.inl hpieces⟩ hwrong
    · rw [ipCnv_accepts_iff]
      exact ⟨pieces str.text, (exists_quad_iff.1 ⟨a, ha⟩).1, groups_of_quad ha⟩

/-- A dot at the end is accepted. -/
theorem ipCnv_trailing_dot : ¬ Exact ⟨"1.2.3.4.".toList, by decide⟩ := by
  rintro ⟨haccepts, -⟩
  have haccepted : (ipCnv ⟨"1.2.3.4.".toList, by decide⟩).invalid = false := by decide +kernel
  obtain ⟨hfour, -⟩ := exists_quad_iff.1 (haccepts.1 haccepted)
  exact absurd hfour (by decide)

end Ifspec
