import UtilVserver.Lib.ByteBits
import UtilVserver.Lib.Decimal
import Mathlib.Data.List.Forall2

/-!
# Dotted decimal numbers

* `pieces` — the texts between the dots.
* `Octet`, `Quad` — a text of digits and its byte; four of them.

Principal results: `scanDecimal_append` (the number scanner does not look behind a character that
ends a number) and `Quad.unique`.
-/

set_option autoImplicit false

namespace DottedQuad

open CString ByteBits

/-- The texts between the dots. -/
def pieces (s : Text) : List Text := s.splitOn '.'

/-- Digits that denote a byte. -/
def Octet (g : Text) (b : Byte) : Prop := Numeral g ∧ digitsVal 10 g = b.toNat

/-- Four octets with dots between them. -/
structure Quad (s : Text) (a : List Byte) : Prop where
  four : a.length = 4
  octets : List.Forall₂ Octet (pieces s) a

theorem pieces_dot {t : Text} (r : Text) (h : '.' ∉ t) : pieces (t ++ '.' :: r) = t :: pieces r :=
  List.splitOn_append_cons_self_of_not_mem h r

theorem pieces_last {t : Text} (h : '.' ∉ t) : pieces t = [t] :=
  List.splitOn_eq_singleton h

theorem pieces_ne_nil (s : Text) : pieces s ≠ [] := List.splitOn_ne_nil _ _

/-- A text is one piece, or its first piece is followed by a dot. -/
theorem pieces_cases (s : Text) :
    ('.' ∉ s ∧ pieces s = [s]) ∨
      ∃ t r, '.' ∉ t ∧ s = t ++ '.' :: r ∧ pieces s = t :: pieces r := by
  obtain hnot | ⟨t, r, ht, hs⟩ := strchr_cases s '.'
  · exact Or.inl ⟨hnot, pieces_last hnot⟩
  · exact Or.inr ⟨t, r, ht, hs, by rw [hs, pieces_dot r ht]⟩

theorem pieces_eq_nil_iff {s : Text} : pieces s = [[]] ↔ s = [] := by
  constructor
  · intro h
    obtain ⟨-, hs⟩ | ⟨t, r, -, -, hs⟩ := pieces_cases s
    · rw [hs] at h
      exact (List.cons.inj h).1
    · rw [hs] at h
      exact absurd (List.cons.inj h).2 (pieces_ne_nil r)
  · rintro rfl
    exact pieces_last (by simp)

/-- A character that is no dot belongs to the first piece, together with what is in front of it. -/
theorem pieces_inside {g : Text} {c : Char} (r : Text) (hg : '.' ∉ g) (hc : c ≠ '.') :
    ∃ p ps, pieces (g ++ c :: r) = (g ++ c :: p) :: ps := by
  have hfront : '.' ∉ g ++ [c] := by
    rw [List.mem_append, List.mem_singleton, not_or]
    exact ⟨hg, Ne.symm hc⟩
  have hsplit : ∀ x, g ++ c :: x = (g ++ [c]) ++ x := fun x => List.append_cons g c x
  obtain ⟨hnot, -⟩ | ⟨t, r', ht, rfl, -⟩ := pieces_cases r
  · refine ⟨r, [], pieces_last ?_⟩
    rw [hsplit, List.mem_append, not_or]
    exact ⟨hfront, hnot⟩
  · refine ⟨t, pieces r', ?_⟩
    have hwhole : '.' ∉ g ++ c :: t := by
      rw [hsplit, List.mem_append, not_or]
      exact ⟨hfront, ht⟩
    rw [← List.cons_append, ← List.append_assoc, pieces_dot r' hwhole]

/-- The byte of an octet is determined by its text. -/
theorem Octet.unique {g : Text} {a b : Byte} (ha : Octet g a) (hb : Octet g b) : a = b := by
  apply BitVec.eq_of_toNat_eq
  rw [← ha.2, ← hb.2]

theorem Quad.unique {s : Text} {a b : List Byte} (ha : Quad s a) (hb : Quad s b) : a = b :=
  List.right_unique_forall₂' (fun _ _ _ h h' => h.unique h') ha.octets hb.octets

/-- The four pieces of a quad and their bytes. -/
theorem Quad.parts {s : Text} {a : List Byte} (h : Quad s a) :
    ∃ g0 g1 g2 g3 a0 a1 a2 a3, pieces s = [g0, g1, g2, g3] ∧ a = [a0, a1, a2, a3] ∧
      Octet g0 a0 ∧ Octet g1 a1 ∧ Octet g2 a2 ∧ Octet g3 a3 := by
  obtain ⟨hfour, hoctets⟩ := h
  match a, hfour with
  | [a0, a1, a2, a3], _ =>
    obtain ⟨g0, ps0, h0, hoctets, hp0⟩ := List.forall₂_cons_right_iff.1 hoctets
    obtain ⟨g1, ps1, h1, hoctets, hp1⟩ := List.forall₂_cons_right_iff.1 hoctets
    obtain ⟨g2, ps2, h2, hoctets, hp2⟩ := List.forall₂_cons_right_iff.1 hoctets
    obtain ⟨g3, ps3, h3, hoctets, hp3⟩ := List.forall₂_cons_right_iff.1 hoctets
    have hnil : ps3 = [] := List.forall₂_nil_right_iff.1 hoctets
    refine ⟨g0, g1, g2, g3, a0, a1, a2, a3, ?_, rfl, h0, h1, h2, h3⟩
    rw [hp0, hp1, hp2, hp3, hnil]

theorem numberEnd_dot : NumberEnd '.' := ⟨by decide, by decide, by decide, by decide⟩

/-- **The scanner does not look behind a character that ends a number.** -/
theorem scanDecimal_append {c : Char} (hc : NumberEnd c) (hblank : isspace c = false) (t r : Text) :
    scanDecimal (t ++ c :: r) = (scanDecimal t).map fun p => (p.1, p.2.1, p.2.2 ++ c :: r) := by
  have hdigit : isDigitIn 10 c = false := hc.isDigitIn (by decide)
  obtain ⟨hsign, hrest⟩ := scanSign_append hc (t.dropWhile isspace) r
  simp only [scanDecimal, dropWhile_append_stop hblank, hsign, hrest,
    takeWhile_append_stop hdigit, dropWhile_append_stop hdigit]
  split <;> rfl

/-- What the scanner leaves over is the end of the text. -/
theorem scanDecimal_suffix {s rest : Text} {neg : Bool} {n : Nat}
    (h : scanDecimal s = some (neg, n, rest)) : rest <:+ s := by
  simp only [scanDecimal] at h
  obtain ⟨-, h⟩ := (Option.ite_none_left_eq_some ..).1 h
  obtain ⟨-, -, rfl⟩ : _ ∧ _ ∧ _ = rest := by simpa using h
  exact ((List.dropWhile_suffix _).trans (scanSign_suffix _)).trans (List.dropWhile_suffix _)

end DottedQuad
