import UtilVserver.IsNumber

/-!
# `vc_parseLimit` (`lib/parselimit.c`)

The text of a resource limit: `inf`, or a number that may have a suffix.

* `vc_parseLimit` — the limit, or none where the source returns false.
* `Spells` — the limit that a text stands for.
* `Exact` — the texts whose numbers go through unchanged.

Principal result: `vc_parseLimit_exact`.
-/

set_option autoImplicit false

namespace ParseLimit

open CString IsNumber

/-- `vc_limit_t`. -/
abbrev Limit := BitVec 64

def VC_LIM_INFINITY : Limit := ~~~0
def VC_LIM_KEEP : Limit := ~~~1

def inf : Text := "inf".toList

/-- `vc_parseLimit`.  The product is not checked, and `strtoll` saturates. -/
def vc_parseLimit (buf : Text) : Option Limit :=
  if strncmp buf inf 3 then some VC_LIM_INFINITY
  else
    let r := strtol 64 buf
    let moved := r.2.length ≠ buf.length
    let f := if moved then factor r.2 else (1, r.2)
    if moved ∧ (charAt f.2 0 = '\x00' ∨ charAt f.2 0 = '\n') then
      some (BitVec.ofInt 64 r.1 * BitVec.ofInt 64 f.1)
    else none

theorem strncmp_inf (buf : Text) : strncmp buf inf 3 = inf.isPrefixOf buf := by
  have h := strncmp_append buf inf []
  rw [List.append_nil] at h
  exact h

/-! ## What is accepted -/

theorem strtol_of_scanned {str rest : Text} {neg : Bool} {n : Nat}
    (h : scanned str = some (neg, n, rest)) :
    strtol 64 str = (clamp 64 (signed neg n), rest) ∧ rest.length ≠ str.length := by
  have hscan : scan str = some (signed neg n, rest) := by rw [scan_eq, h]; rfl
  obtain ⟨hstrtol, hlen⟩ := strtol_of_scan hscan
  exact ⟨hstrtol, by omega⟩

theorem strtol_of_not_scanned {str : Text} (h : scanned str = none) : strtol 64 str = (0, str) := by
  have hdigits : scanDigits (scanSign (str.dropWhile isspace)).2 = none := Option.map_eq_none_iff.1 h
  unfold strtol
  dsimp only
  rw [hdigits]

theorem ending_iff {w : Text} (h : '\x00' ∉ w) :
    (charAt w 0 = '\x00' ∨ charAt w 0 = '\n') ↔ Ending w := by
  cases w with
  | nil => simp [Ending]
  | cons c t =>
    have hc : c ≠ '\x00' := fun heq => h (heq ▸ List.mem_cons_self)
    simp [Ending, hc]

theorem factor_suffix (t : Text) : (factor t).2 <:+ t := by
  obtain ⟨x, hx, -⟩ := factor_spec t
  exact ⟨x, hx.symm⟩

/-- **What is accepted**, apart from `inf`: a number up to the end of the text or of a line. -/
theorem vc_parseLimit_iff {buf : Text} {v : Limit} (hnul : '\x00' ∉ buf)
    (hinf : inf.isPrefixOf buf = false) :
    vc_parseLimit buf = some v ↔ ∃ neg n f w, Reads buf neg n f w ∧ Ending w ∧
      v = BitVec.ofInt 64 (clamp 64 (signed neg n)) * BitVec.ofInt 64 f := by
  unfold vc_parseLimit
  rw [strncmp_inf, hinf]
  cases hs : scanned buf with
  | none =>
    rw [strtol_of_not_scanned hs]
    constructor
    · intro h
      simp at h
    · rintro ⟨neg, n, f, w, hreads, hw, -⟩
      obtain ⟨rest, hs', -⟩ := scanned_of_reads hw hreads
      rw [hs] at hs'
      cases hs'
  | some r =>
    obtain ⟨neg, n, rest⟩ := r
    obtain ⟨hstrtol, hmoved⟩ := strtol_of_scanned hs
    have hsuffix : rest <:+ buf := (scanned_suffix hs).1.trans (List.dropWhile_suffix _)
    have hnul' : '\x00' ∉ (factor rest).2 := fun h =>
      hnul (hsuffix.subset ((factor_suffix rest).subset h))
    rw [if_neg Bool.false_ne_true, hstrtol]
    dsimp only
    rw [if_pos hmoved, Option.ite_none_right_eq_some, ending_iff hnul']
    constructor
    · rintro ⟨⟨-, hend⟩, h⟩
      exact ⟨neg, n, _, _, reads_of_scanned hend hs rfl, hend, (Option.some.inj h).symm⟩
    · rintro ⟨neg', n', f, w, hreads, hw, rfl⟩
      obtain ⟨rest', hs', hf⟩ := scanned_of_reads hw hreads
      rw [hs] at hs'
      obtain ⟨rfl, h2⟩ := Prod.mk.inj (Option.some.inj hs')
      obtain ⟨rfl, rfl⟩ := Prod.mk.inj h2
      rw [hf]
      exact ⟨⟨hmoved, hw⟩, rfl⟩

/-- No number starts like `inf`. -/
theorem not_reads_inf {buf w : Text} {neg : Bool} {n : Nat} {f : Int} (hw : Ending w)
    (hinf : inf.isPrefixOf buf = true) : ¬ Reads buf neg n f w := by
  intro hreads
  obtain ⟨rest, hs, -⟩ := scanned_of_reads hw hreads
  obtain ⟨t, rfl⟩ := List.isPrefixOf_iff_prefix.1 hinf
  have hnone : scanned (inf ++ t) = none := rfl
  rw [hnone] at hs
  cases hs

/-! ## Exactness -/

/-- The limit that a text stands for: the whole text, up to a newline at its end, is `inf`, or a
number with a suffix, whose product is a limit. -/
def Spells (s : Text) (v : Limit) : Prop :=
  (s = inf ∨ s = inf ++ ['\n']) ∧ v = VC_LIM_INFINITY ∨
    ∃ neg n f w, Reads s neg n f w ∧ (w = [] ∨ w = ['\n']) ∧ 0 ≤ signed neg n ∧
      signed neg n * f < VC_LIM_KEEP.toNat ∧ (v.toNat : Int) = signed neg n * f

/-- Where the text starts with `inf` there is nothing more to it, and where it starts with a number
that ends with the text or with a line, nothing follows the line, the number is not negative and
below `2 ^ 63`, and its product is a limit. -/
def Exact (s : Text) : Prop :=
  (inf <+: s → s = inf ∨ s = inf ++ ['\n']) ∧
    ∀ neg n f w, Reads s neg n f w → Ending w → (w = [] ∨ w = ['\n']) ∧ 0 ≤ signed neg n ∧
      n < 2 ^ 63 ∧ signed neg n * f < VC_LIM_KEEP.toNat

theorem ending_of_final {w : Text} (h : w = [] ∨ w = ['\n']) : Ending w := by
  obtain rfl | rfl := h
  · exact Or.inl rfl
  · exact Or.inr ⟨[], rfl⟩

theorem toNat_product {z f : Int} (h0 : 0 ≤ z * f) (hlt : z * f < 2 ^ 64) :
    ((BitVec.ofInt 64 z * BitVec.ofInt 64 f).toNat : Int) = z * f := by
  rw [← BitVec.ofInt_mul, BitVec.toNat_ofInt]
  omega

theorem signed_of_nonneg {neg : Bool} {n : Nat} (h : 0 ≤ signed neg n) : signed neg n = n := by
  cases neg with
  | false => rfl
  | true =>
    have h' : (0 : Int) ≤ -n := h
    show (-n : Int) = n
    omega

/-- **Which texts are read exactly.** -/
theorem vc_parseLimit_exact (s : CStr) :
    (∀ v, vc_parseLimit s.text = some v ↔ Spells s.text v) ↔ Exact s.text := by
  obtain ⟨s, hnul⟩ := s
  have hkeep : (VC_LIM_KEEP.toNat : Int) = 2 ^ 64 - 2 := by decide
  show (∀ v, vc_parseLimit s = some v ↔ Spells s v) ↔ Exact s
  cases hinf : inf.isPrefixOf s with
  | true =>
    have hcode : vc_parseLimit s = some VC_LIM_INFINITY := by
      rw [vc_parseLimit, strncmp_inf, hinf, if_pos rfl]
    constructor
    · intro h
      refine ⟨fun _ => ?_, fun neg n f w hreads hw => absurd hreads (not_reads_inf hw hinf)⟩
      obtain ⟨hs, -⟩ | ⟨neg, n, f, w, hreads, hw, -⟩ := (h _).1 hcode
      · exact hs
      · exact absurd hreads (not_reads_inf (ending_of_final hw) hinf)
    · rintro ⟨hs, -⟩ v
      rw [hcode, Option.some.injEq]
      constructor
      · rintro rfl
        exact Or.inl ⟨hs (List.isPrefixOf_iff_prefix.1 hinf), rfl⟩
      · rintro (⟨-, rfl⟩ | ⟨neg, n, f, w, hreads, hw, -⟩)
        · rfl
        · exact absurd hreads (not_reads_inf (ending_of_final hw) hinf)
  | false =>
    have hns : ¬ (s = inf ∨ s = inf ++ ['\n']) := by
      rintro (rfl | rfl) <;> exact absurd hinf (by decide)
    have hnp : ¬ inf <+: s := by
      rw [← List.isPrefixOf_iff_prefix, hinf]
      exact Bool.false_ne_true
    constructor
    · intro h
      refine ⟨fun hp => absurd hp hnp, fun neg n f w hreads hw => ?_⟩
      have hcode := (vc_parseLimit_iff hnul hinf).2 ⟨neg, n, f, w, hreads, hw, rfl⟩
      obtain ⟨hs, -⟩ | ⟨neg', n', f', w', hreads', hw', h0, hlt, heq⟩ := (h _).1 hcode
      · exact absurd hs hns
      · obtain ⟨rfl, rfl, rfl, rfl⟩ := hreads.unique hw (ending_of_final hw') hreads'
        refine ⟨hw', h0, ?_, hlt⟩
        -- a larger number is saturated, and it has no factor
        rw [signed_of_nonneg h0] at heq hlt
        by_contra hge
        obtain rfl : f = 1 := by
          rcases hreads.factor_cases with rfl | rfl | rfl | rfl | rfl <;> omega
        have hclamp : clamp 64 (n : Int) = 2 ^ 63 - 1 := by
          unfold clamp
          omega
        rw [hclamp, toNat_product (by omega) (by omega)] at heq
        omega
    · rintro ⟨-, h⟩ v
      rw [vc_parseLimit_iff hnul hinf]
      constructor
      · rintro ⟨neg, n, f, w, hreads, hw, rfl⟩
        obtain ⟨hw', h0, hn, hlt⟩ := h neg n f w hreads hw
        refine Or.inr ⟨neg, n, f, w, hreads, hw', h0, hlt, ?_⟩
        rw [signed_of_nonneg h0] at hlt ⊢
        rw [clamp_of_lt hn]
        exact toNat_product hreads.product_nonneg (by omega)
      · rintro (⟨hs, -⟩ | ⟨neg, n, f, w, hreads, hw, -, -, heq⟩)
        · exact absurd hs hns
        · have hw' := ending_of_final hw
          obtain ⟨-, h0, hn, hlt⟩ := h neg n f w hreads hw'
          refine ⟨neg, n, f, w, hreads, hw', ?_⟩
          rw [signed_of_nonneg h0] at heq hlt ⊢
          rw [clamp_of_lt hn]
          have hprod := toNat_product hreads.product_nonneg (by omega)
          apply BitVec.eq_of_toNat_eq
          omega

/-- A product above the largest limit wraps around to a small one. -/
theorem vc_parseLimit_wraps :
    ¬ ∀ v, vc_parseLimit "18014398509481985K".toList = some v ↔
      Spells "18014398509481985K".toList v := by
  intro h
  have hcode : vc_parseLimit "18014398509481985K".toList = some 1024 := by decide +kernel
  obtain ⟨hs, -⟩ | ⟨neg, n, f, w, hreads, hw, h0, hlt, heq⟩ := (h _).1 hcode
  · exact absurd hs (by decide +kernel)
  · have hreads' : Reads "18014398509481985K".toList false 18014398509481985 1024 [] :=
      ⟨"18014398509481985".toList, ['K'], by decide +kernel, by decide +kernel, by decide⟩
    obtain ⟨rfl, rfl, rfl, -⟩ := hreads.unique (ending_of_final hw) (Or.inl rfl) hreads'
    exact absurd heq (by decide)

end ParseLimit
