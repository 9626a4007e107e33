import Mathlib.Data.List.SplitBy
import UtilVserver.VectorRefines

/-!
# Sorted vectors

What `Vector_insert` and `Vector_unique` make of the order of a vector.

* `TotalPreorder` — a comparison function that orders the elements.
* `Ordered` — the elements of a vector are in this order.
* `runs`, `firsts` — the maximal runs of adjacent equal elements, and the first element of each.

Principal results: `insert_ordered`, `unique_firsts`, `firsts_ordered`, and `sorted_vector`, which
says all this of the memory.
-/

set_option autoImplicit false

namespace VectorSorted

open EnscVector VectorMemory

/-- The comparison is a total preorder, and the sign of its result says which. -/
structure TotalPreorder (compare : Elem → Elem → Int) : Prop where
  swap : ∀ x y, compare x y < 0 ↔ 0 < compare y x
  trans : ∀ x y z, compare x y ≤ 0 → compare y z ≤ 0 → compare x z ≤ 0

def Ordered (compare : Elem → Elem → Int) (xs : List Elem) : Prop :=
  xs.Pairwise fun x y => compare x y ≤ 0

/-- The maximal runs of adjacent equal elements. -/
def runs (compare : Elem → Elem → Int) (xs : List Elem) : List (List Elem) :=
  xs.splitBy fun x y => decide (compare x y = 0)

/-- The first element of each run. -/
def firsts (compare : Elem → Elem → Int) (xs : List Elem) : List Elem :=
  (runs compare xs).filterMap List.head?

variable {compare : Elem → Elem → Int} {x y z : Elem} {xs : List Elem}

/-! ## The order -/

theorem TotalPreorder.not_lt (hc : TotalPreorder compare) : ¬ compare x y < 0 ↔ compare y x ≤ 0 := by
  rw [hc.swap x y]
  omega

theorem TotalPreorder.refl (hc : TotalPreorder compare) (x : Elem) : compare x x = 0 := by
  have h := hc.swap x x
  omega

theorem TotalPreorder.symm (hc : TotalPreorder compare) (h : compare x y = 0) :
    compare y x = 0 := by
  have h₁ := hc.swap x y
  have h₂ := hc.swap y x
  omega

theorem TotalPreorder.eq_trans (hc : TotalPreorder compare) (h : compare x y = 0)
    (h' : compare y z = 0) : compare x z = 0 := by
  have hle := hc.trans x y z (by omega) (by omega)
  have hge := hc.trans z y x (by have := hc.symm h'; omega) (by have := hc.symm h; omega)
  have hswap := hc.swap x z
  omega

/-- Strictly before an element, and that before another one. -/
theorem TotalPreorder.lt_of_lt_of_le (hc : TotalPreorder compare) (h : compare x y < 0)
    (h' : compare y z ≤ 0) : compare x z < 0 := by
  by_contra hlt
  have hzx := hc.not_lt.1 hlt
  have hyx := hc.trans y z x h' hzx
  have hswap := hc.swap x y
  omega

/-! ## Insertion -/

/-- **Where the slot is**: behind the elements that are not after the key, before all that are; an
element that is equal to the key may be written there. -/
theorem insert_ordered (hc : TotalPreorder compare) (hxs : Ordered compare xs) (key fresh : Elem) :
    ∃ pre post, xs = pre ++ post ∧
      EnscVector.insert (compare key) fresh xs = (pre ++ post.headD fresh :: post, pre.length) ∧
      (∀ y ∈ pre, compare y key ≤ 0) ∧ (∀ y ∈ post, compare key y < 0) ∧
      ∀ x, compare x key = 0 → Ordered compare (pre ++ x :: post) := by
  obtain ⟨pre, post, rfl, hins, hpre, hpost⟩ := insert_spec (compare key) fresh xs
  have hbefore : ∀ y ∈ pre, compare y key ≤ 0 := fun y hy => hc.not_lt.1 (by
    have := hpre y hy
    omega)
  have hafter : ∀ y ∈ post, compare key y < 0 := by
    cases post with
    | nil => nofun
    | cons z post =>
      have hz := hpost z rfl
      have hrest := (List.pairwise_cons.1 (List.pairwise_append.1 hxs).2.1).1
      intro y hy
      obtain rfl | hy := List.mem_cons.1 hy
      · exact hz
      · exact hc.lt_of_lt_of_le hz (hrest y hy)
  refine ⟨pre, post, rfl, hins, hbefore, hafter, fun x hx => ?_⟩
  obtain ⟨h₁, h₂, h₁₂⟩ := List.pairwise_append.1 hxs
  refine List.pairwise_append.2 ⟨h₁, List.pairwise_cons.2 ⟨fun y hy => ?_, h₂⟩, fun y hy w hw => ?_⟩
  · have hkey := hafter y hy
    exact hc.trans x key y (by omega) (by omega)
  · obtain rfl | hw := List.mem_cons.1 hw
    · have hsame := hc.symm hx
      exact hc.trans y key w (hbefore y hy) (by omega)
    · exact h₁₂ y hy w hw

/-! ## Runs -/

/-- All elements of a run are equal to its first one. -/
theorem run_equal (hc : TotalPreorder compare) {dups : List Elem}
    (h : (x :: dups).IsChain fun x y => decide (compare x y = 0) = true) :
    ∀ y ∈ dups, compare x y = 0 := by
  induction dups generalizing x with
  | nil => nofun
  | cons z dups ih =>
    rw [List.isChain_cons_cons, decide_eq_true_eq] at h
    intro y hy
    obtain rfl | hy := List.mem_cons.1 hy
    · exact h.1
    · exact hc.eq_trans h.1 (ih h.2 y hy)

/-- Of runs that follow one another the first elements are left. -/
theorem destutter_flatten (hc : TotalPreorder compare) (rs : List (List Elem)) (hne : [] ∉ rs)
    (hrun : ∀ m ∈ rs, m.IsChain fun x y => decide (compare x y = 0) = true)
    (hnext : rs.IsChain fun a b =>
      ∃ ha hb, decide (compare (a.getLast ha) (b.head hb) = 0) = false) :
    rs.flatten.destutter (fun x y => compare x y ≠ 0) = rs.filterMap List.head? := by
  induction rs with
  | nil => rfl
  | cons m rs ih =>
    rw [List.mem_cons, not_or] at hne
    cases m with
    | nil => exact absurd rfl hne.1
    | cons x dups =>
      have hdups := run_equal hc (hrun _ List.mem_cons_self)
      have hrec := ih hne.2 (fun m hm => hrun m (List.mem_cons_of_mem _ hm)) hnext.tail
      rw [List.flatten_cons, List.cons_append, List.destutter_cons', destutter'_equal _ hdups,
        List.filterMap_cons_some List.head?_cons, ← hrec]
      cases rs with
      | nil => rfl
      | cons m' rs =>
        obtain ⟨ha, hb, hdiff⟩ := (List.isChain_cons_cons.1 hnext).1
        rw [decide_eq_false_iff_not] at hdiff
        have hlast : compare x ((x :: dups).getLast ha) = 0 := by
          obtain h | h := List.mem_cons.1 (List.getLast_mem ha)
          · rw [h]
            exact hc.refl x
          · exact hdups _ h
        cases m' with
        | nil => exact absurd rfl hb
        | cons z t =>
          have hxz : compare x z ≠ 0 := fun h => hdiff (hc.eq_trans (hc.symm hlast) h)
          rw [List.flatten_cons, List.cons_append,
            List.destutter'_cons_pos (R := fun x y => compare x y ≠ 0) _ hxz, List.destutter_cons']

/-- **What is unique** is the first element of each run. -/
theorem unique_firsts (hc : TotalPreorder compare) (xs : List Elem) :
    xs.destutter (fun x y => compare x y ≠ 0) = firsts compare xs := by
  have h := destutter_flatten hc (runs compare xs) (List.nil_notMem_splitBy _ xs)
    (fun m hm => List.isChain_of_mem_splitBy hm)
    (List.isChain_getLast_head_splitBy (fun x y => decide (compare x y = 0)) xs)
  rwa [runs, List.flatten_splitBy] at h

/-- Every element is equal to the first one of its run. -/
theorem exists_first (hc : TotalPreorder compare) (h : x ∈ xs) :
    ∃ y ∈ firsts compare xs, compare y x = 0 := by
  rw [← List.flatten_splitBy (fun x y => decide (compare x y = 0)) xs] at h
  obtain ⟨m, hm, hx⟩ := List.mem_flatten.1 h
  cases m with
  | nil => cases hx
  | cons y dups =>
    refine ⟨y, List.mem_filterMap.2 ⟨_, hm, rfl⟩, ?_⟩
    obtain rfl | hx := List.mem_cons.1 hx
    · exact hc.refl _
    · exact run_equal hc (List.isChain_of_mem_splitBy hm) x hx

/-- In an ordered list without equal neighbours each element is before all that follow. -/
theorem pairwise_lt (hc : TotalPreorder compare) (hxs : Ordered compare xs)
    (h : xs.IsChain fun x y => compare x y ≠ 0) : xs.Pairwise fun x y => compare x y < 0 := by
  induction xs with
  | nil => exact List.Pairwise.nil
  | cons x xs ih =>
    obtain ⟨hx, hxs⟩ := List.pairwise_cons.1 hxs
    refine List.pairwise_cons.2 ⟨?_, ih hxs h.tail⟩
    cases xs with
    | nil => nofun
    | cons y xs =>
      have hlt : compare x y < 0 :=
        lt_of_le_of_ne (hx y List.mem_cons_self) (List.isChain_cons_cons.1 h).1
      intro z hz
      obtain rfl | hz := List.mem_cons.1 hz
      · exact hlt
      · exact hc.lt_of_lt_of_le hlt ((List.pairwise_cons.1 hxs).1 z hz)

theorem firsts_sublist (hc : TotalPreorder compare) (xs : List Elem) :
    (firsts compare xs).Sublist xs :=
  unique_firsts hc xs ▸ List.destutter_sublist _ xs

/-- **On a sorted vector** no key is left twice. -/
theorem firsts_ordered (hc : TotalPreorder compare) (hxs : Ordered compare xs) :
    (firsts compare xs).Pairwise fun x y => compare x y < 0 := by
  exact pairwise_lt hc (hxs.sublist (firsts_sublist hc xs))
    (unique_firsts hc xs ▸ List.isChain_destutter _ xs)

/-- **Sorted vectors in memory.** -/
theorem sorted_vector (hc : TotalPreorder compare) (xs : List Elem) :
    (Ordered compare xs → ∀ key fresh, ∃ pre post, xs = pre ++ post ∧
      EnscVector.insert (compare key) fresh xs = (pre ++ post.headD fresh :: post, pre.length) ∧
      (∀ y ∈ pre, compare y key ≤ 0) ∧ (∀ y ∈ post, compare key y < 0) ∧
      (∀ x, compare x key = 0 → Ordered compare (pre ++ x :: post)) ∧
      ∀ (debug : Bool) (r : Realloc) (vec : Vector) (x : Elem), Right vec xs →
        Proper vec (.insert (compare key) x) → Fits vec (.insert (compare key) x) →
        ((VectorMemory.insert debug r (compare key) vec).bind fun (vec, slot) =>
          write vec slot x).Safe r fun vec' => Right vec' (pre ++ x :: post)) ∧
    (∀ (r : Realloc) (vec : Vector), Right vec xs →
      (VectorMemory.unique compare vec).Safe r fun vec' => Right vec' (firsts compare xs)) ∧
    (firsts compare xs).Sublist xs ∧
    (∀ x ∈ xs, ∃ y ∈ firsts compare xs, compare y x = 0) ∧
    (Ordered compare xs → (firsts compare xs).Pairwise fun x y => compare x y < 0) := by
  refine ⟨fun hxs key fresh => ?_, fun r vec h => ?_, firsts_sublist hc xs,
    fun x => exists_first hc, firsts_ordered hc⟩
  · obtain ⟨pre, post, hsplit, hins, hpre, hpost, hkey⟩ := insert_ordered hc hxs key fresh
    refine ⟨pre, post, hsplit, hins, hpre, hpost, hkey, fun debug r vec x h hproper hfits => ?_⟩
    have hwrap : vec.allocated < vec.count + 1 → NoWrap vec.elem_size (vec.count + 1) :=
      fun hgrow => hfits _ (by rw [growsTo, if_pos hgrow]; rfl)
    have hidx : (xs.findIdx fun y => compare key y < 0) = pre.length := by
      rw [hsplit]
      refine findIdx_split (fun y hy => ?_) fun y hy => hpost y (List.mem_of_mem_head? hy)
      have hle := hc.not_lt.2 (hpre y hy)
      omega
    refine (insert_write_safe h hproper (compare key) hwrap).mono fun vec' h' => ?_
    rw [hidx, hsplit, List.take_left, List.drop_left] at h'
    exact right_of_inv h' (by simp only [List.length_append, List.length_cons]; omega)
  · refine (unique_safe compare h).mono fun vec' h' => ?_
    obtain ⟨ys, hys, hinv⟩ := h'
    rw [unique_firsts hc] at hys
    subst hys
    exact right_of_inv hinv rfl

/-- Bytes are compared by their difference. -/
def compareByte (x y : Elem) : Int := (x.headD 0).toNat - (y.headD 0).toNat

theorem totalPreorder_compareByte : TotalPreorder compareByte where
  swap x y := by
    unfold compareByte
    omega
  trans x y z := by
    unfold compareByte
    omega

/-- Three elements of a byte in a block without room for another one. -/
def threeBytes : Vector := ⟨some [1, 1, 3], 3, 3, 1⟩

theorem right_threeBytes : Right threeBytes [[1], [1], [3]] :=
  ⟨rfl, by decide, rfl, by decide, rfl, by decide, by unfold Slots.Sized; decide, by decide⟩

/-- The 2 comes between, and a 1 is dropped. -/
theorem sorted_vector_bytes :
    (∀ r, ((VectorMemory.insert true r (compareByte [2]) threeBytes).bind fun (vec, slot) =>
      write vec slot [2]).Safe r fun vec' => Right vec' [[1], [1], [2], [3]]) ∧
    (∀ r, (VectorMemory.unique compareByte threeBytes).Safe r fun vec' => Right vec' [[1], [3]]) ∧
    (firsts compareByte [[1], [1], [3]]).Pairwise fun x y => compareByte x y < 0 := by
  have hordered : Ordered compareByte [[1], [1], [3]] := by
    unfold Ordered
    decide
  obtain ⟨hinsert, hunique, -, -, hfirsts⟩ :=
    sorted_vector totalPreorder_compareByte [[1], [1], [3]]
  obtain ⟨pre, post, hsplit, hins, -, -, -, hmemory⟩ := hinsert hordered [2] [0]
  have hlen : 2 = pre.length := congrArg Prod.snd hins
  have hsplit : [[1], [1]] ++ [[3]] = pre ++ post := hsplit
  obtain ⟨rfl, rfl⟩ := List.append_inj hsplit hlen
  exact ⟨fun r => hmemory true r threeBytes [2] right_threeBytes rfl
    (by intro n hn; cases hn; decide), fun r => hunique r threeBytes right_threeBytes,
    hfirsts hordered⟩

end VectorSorted
