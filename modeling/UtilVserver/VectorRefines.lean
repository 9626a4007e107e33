import UtilVserver.VectorMemory
import Mathlib.Data.List.TakeWhile

/-!
# The memory of a vector holds its list

* `Outcome.Safe` — a call makes no access outside of the block, ends only for want of memory, and
  what it returns is right.
* `Inv` — the block has room for all allocated slots, and the first ones hold the elements.
* `resizeInternal_safe`, `pushback_safe`, `insert_write_safe`, `uniqueLoop_safe` and others — one for each
  function.

Principal results: `apply_safe` (one call), `vector_refines` (every run) and, without the condition
on the sizes, `vector_overflow`.
-/

set_option autoImplicit false

namespace VectorMemory

open Slots EnscVector Transition

/-! ## Outcomes -/

/-- There is no fault, the program ends only for want of memory, and the value satisfies `P`. -/
def Outcome.Safe {α : Type} (o : Outcome α) (r : Realloc) (P : α → Prop) : Prop :=
  match o with
  | .ok value => P value
  | .ended => r.grants = false
  | .fault => False

theorem Outcome.Safe.bind {α β : Type} {o : Outcome α} {r : Realloc} {f : α → Outcome β}
    {P : α → Prop} {Q : β → Prop} (h : o.Safe r P)
    (hf : ∀ value, P value → (f value).Safe r Q) : (o.bind f).Safe r Q := by
  cases o with
  | ok value => exact hf value h
  | ended => exact h
  | fault => exact h

theorem Outcome.Safe.mono {α : Type} {o : Outcome α} {r : Realloc} {P Q : α → Prop}
    (h : o.Safe r P) (hpq : ∀ value, P value → Q value) : o.Safe r Q := by
  cases o with
  | ok value => exact hpq value h
  | ended => exact h
  | fault => exact h

/-- With enough memory there is a value. -/
theorem Outcome.Safe.value {α : Type} {o : Outcome α} {r : Realloc} {P : α → Prop}
    (h : o.Safe r P) (hgrants : r.grants = true) : ∃ value, o = .ok value := by
  cases o with
  | ok value => exact ⟨value, rfl⟩
  | ended => exact absurd hgrants (by rw [show r.grants = false from h]; nofun)
  | fault => exact h.elim

/-! ## The invariant -/

/-- `n` elements are counted, and the first ones are those of `xs`. -/
structure Inv (vec : Vector) (es n : Nat) (xs : List Elem) : Prop where
  size : vec.elem_size = es
  size_pos : 0 < es
  count : vec.count = n
  bound : n ≤ vec.allocated
  room : vec.block.length = vec.allocated * es
  fits : vec.allocated * es < size_t
  holds : Holds es xs vec.block

variable {vec : Vector} {es n : Nat} {xs ys : List Elem} {debug : Bool} {r : Realloc}

theorem inv_init (hpos : 0 < es) : Inv (init es) es 0 [] := by
  refine ⟨rfl, hpos, rfl, Nat.le_refl 0, ?_, ?_, ⟨fun _ => nofun, List.nil_prefix⟩⟩
  · simp [init, Vector.block]
  · simp [init, size_t]

/-- All slots that are counted lie in the block. -/
theorem Inv.slots_le (h : Inv vec es n xs) : n * es ≤ vec.block.length := by
  rw [h.room]
  exact Nat.mul_le_mul_right es h.bound

/-- Only `k` of the elements are counted. -/
theorem Inv.shrink (h : Inv vec es n xs) {k : Nat} (hk : k ≤ n) :
    Inv { vec with count := k } es k (xs.take k) :=
  ⟨h.size, h.size_pos, rfl, hk.trans h.bound, h.room, h.fits, h.holds.take k⟩

/-- Another block of the same size. -/
theorem Inv.setBlock (h : Inv vec es n xs) {block : List UInt8}
    (hlen : block.length = vec.block.length) (hholds : Holds es ys block) :
    Inv { vec with data := some block } es n ys :=
  ⟨h.size, h.size_pos, h.count, h.bound, hlen.trans h.room, h.fits, hholds⟩

/-! ## Access -/

theorem Inv.element (h : Inv vec es n xs) {i : Nat} {x : Elem} (hx : xs[i]? = some x) :
    vec.element i = .ok x := by
  rw [Vector.element, h.size, h.holds.peek hx]
  rfl

/-- Slots of the list, or directly behind it, are written. -/
theorem Inv.write_many (h : Inv vec es n xs) (hys : Sized es ys) {k : Nat} (hk : k ≤ xs.length)
    (hn : k + ys.length ≤ n) :
    (write vec (k * es) ys.flatten).Safe r fun vec' =>
      Inv vec' es n (xs.take k ++ ys ++ xs.drop (k + ys.length)) := by
  have hin : (k + ys.length) * es ≤ vec.block.length :=
    (Nat.mul_le_mul_right es hn).trans h.slots_le
  obtain ⟨block, hpoke, hlen, hholds⟩ := h.holds.poke hys hk hin
  rw [write, hpoke]
  exact h.setBlock hlen hholds

theorem Inv.write (h : Inv vec es n xs) {x : Elem} (hx : x.length = es) {k : Nat}
    (hk : k ≤ xs.length) (hn : k < n) :
    (write vec (k * es) x).Safe r fun vec' => Inv vec' es n (xs.take k ++ x :: xs.drop (k + 1)) := by
  have hsized : Sized es [x] := fun y hy => by rw [List.mem_singleton.mp hy, hx]
  have hmany := h.write_many (r := r) hsized hk hn
  simpa using hmany

theorem Inv.moveElements (h : Inv vec es n xs) {d s m : Nat} (hs : s + m ≤ xs.length)
    (hd : d ≤ xs.length) (hn : d + m ≤ n) :
    (moveElements vec d s m).Safe r fun vec' =>
      Inv vec' es n (xs.take d ++ (xs.drop s).take m ++ xs.drop (d + m)) := by
  have hin : (d + m) * es ≤ vec.block.length := (Nat.mul_le_mul_right es hn).trans h.slots_le
  obtain ⟨block, hmove, hlen, hholds⟩ := h.holds.memmove hs hd hin
  rw [← h.size] at hmove
  rw [VectorMemory.moveElements, hmove]
  exact h.setBlock hlen hholds

theorem Inv.scan (h : Inv vec es n xs) (stop : Elem → Bool) {m i : Nat} (hm : i + m ≤ xs.length) :
    scan stop vec m i = .ok (i + ((xs.drop i).take m).findIdx stop) := by
  induction m generalizing i with
  | zero => simp [VectorMemory.scan]
  | succ m ih =>
    have hi : i < xs.length := by omega
    have hdrop : xs.drop i = xs[i] :: xs.drop (i + 1) := List.drop_eq_getElem_cons hi
    rw [VectorMemory.scan, h.element (List.getElem?_eq_getElem hi), hdrop, List.take_succ_cons,
      List.findIdx_cons]
    simp only [Outcome.bind]
    cases hstop : stop xs[i] with
    | true => simp
    | false =>
      simp only [Bool.false_eq_true, if_false, cond_false]
      rw [ih (by omega)]
      congr 1
      omega

theorem Inv.scan_all (h : Inv vec es n xs) (stop : Elem → Bool) :
    VectorMemory.scan stop vec xs.length 0 = .ok (xs.findIdx stop) := by
  rw [h.scan stop (by omega), List.drop_zero, List.take_length, Nat.zero_add]

theorem Inv.readElements (h : Inv vec es n xs) {m i : Nat} (hm : i + m = xs.length) :
    readElements vec m i = .ok (xs.drop i) := by
  induction m generalizing i with
  | zero => rw [VectorMemory.readElements, List.drop_of_length_le (by omega)]
  | succ m ih =>
    have hi : i < xs.length := by omega
    rw [VectorMemory.readElements, h.element (List.getElem?_eq_getElem hi)]
    simp only [Outcome.bind]
    rw [ih (by omega), List.drop_eq_getElem_cons hi]

/-! ## Growth -/

/-- The block asked for holds what the old one held. -/
theorem Holds.realloc {block : List UInt8} {size : Nat} (h : Holds es xs block)
    (hsize : xs.length * es ≤ size) : Holds es xs (r.block block size) := by
  refine ⟨h.sized, List.IsPrefix.trans ?_ (List.prefix_append _ _)⟩
  rw [List.prefix_take_iff, h.sized.length_flatten]
  exact ⟨h.stored, hsize⟩

theorem realloc_length (block : List UInt8) (size : Nat) :
    (r.block block size).length = size := by
  simp only [Realloc.block, List.length_append, List.length_take, List.length_map,
    List.length_range']
  omega

/-- **The memory is made large enough** when the sizes do not wrap around. -/
theorem resizeInternal_safe (hsize : vec.elem_size = es) (hpos : 0 < es)
    (hholds : Holds es xs vec.block) (hle : xs.length ≤ vec.count) (hwrap : NoWrap es vec.count) :
    (resizeInternal debug r vec).Safe r fun vec' => Inv vec' es vec.count xs := by
  obtain ⟨hcount, hbytes⟩ := hwrap
  have hmul : (vec.count * 20 / 16 + 1) * 1 ≤ (vec.count * 20 / 16 + 1) * es :=
    Nat.mul_le_mul_left _ hpos
  have hallocated : (vec.count * 20 % size_t / 16 + 1) % size_t = vec.count * 20 / 16 + 1 := by
    rw [Nat.mod_eq_of_lt hcount, Nat.mod_eq_of_lt (by omega)]
  have hnew : (vec.count * 20 / 16 + 1) * es % size_t = (vec.count * 20 / 16 + 1) * es :=
    Nat.mod_eq_of_lt hbytes
  have hmore : ¬ (debug = true ∧ vec.count * 20 / 16 + 1 < vec.count) := by omega
  simp only [resizeInternal, hallocated, hsize, hnew, if_neg hmore]
  split
  · refine ⟨rfl, hpos, rfl, ?_, realloc_length _ _, hbytes, Holds.realloc hholds ?_⟩
    · show vec.count ≤ vec.count * 20 / 16 + 1
      omega
    · exact Nat.mul_le_mul_right es (by omega)
  · rename_i hgrants
    have hsome : debug = true ∨ (vec.count * 20 / 16 + 1) * es ≠ 0 := .inr (by omega)
    rw [if_pos hsome]
    exact Bool.eq_false_of_not_eq_true hgrants

/-- **A new slot behind the elements.** -/
theorem pushback_safe (h : Inv vec es xs.length xs)
    (hwrap : vec.allocated < vec.count + 1 → NoWrap es (vec.count + 1)) :
    (pushback debug r vec).Safe r fun p =>
      Inv p.1 es (xs.length + 1) xs ∧ p.2 = xs.length * es := by
  have hcount := h.count
  have hbound := h.bound
  have hlt : vec.count + 1 < size_t := by
    by_cases hgrow : vec.allocated < vec.count + 1
    · have hwide := (hwrap hgrow).1
      omega
    · have hmul : vec.allocated * 1 ≤ vec.allocated * es := Nat.mul_le_mul_left _ h.size_pos
      have hfits := h.fits
      omega
  have hslot : ∀ vec' : Vector, Inv vec' es (vec.count + 1) xs →
      (vec'.count + (size_t - 1)) % size_t * vec'.elem_size % size_t = xs.length * es := by
    intro vec' h'
    have hone : (vec'.count + (size_t - 1)) % size_t = xs.length := by
      rw [h'.count]
      have hadd : vec.count + 1 + (size_t - 1) = xs.length + size_t := by omega
      rw [hadd, Nat.add_mod_right, Nat.mod_eq_of_lt (by omega)]
    have hfits := h'.fits
    have hmul : xs.length * es ≤ vec'.allocated * es :=
      Nat.mul_le_mul_right es ((by omega : xs.length ≤ vec.count + 1).trans h'.bound)
    rw [hone, h'.size, Nat.mod_eq_of_lt (by omega)]
  simp only [pushback, Nat.mod_eq_of_lt hlt]
  refine Outcome.Safe.bind (P := fun vec' => Inv vec' es (vec.count + 1) xs) ?_ fun vec' h' => ?_
  · split
    · rename_i hgrow
      exact resizeInternal_safe h.size h.size_pos h.holds (by show xs.length ≤ vec.count + 1; omega)
        (hwrap hgrow)
    · rename_i hroom
      exact ⟨h.size, h.size_pos, rfl, by show vec.count + 1 ≤ vec.allocated; omega, h.room, h.fits,
        h.holds⟩
  · refine ⟨?_, hslot vec' h'⟩
    rwa [hcount] at h'

/-! ## The calls -/

/-- The first element that the key stands before. -/
theorem findIdx_split {compare : Elem → Int} {pre post : List Elem} (hpre : ∀ y ∈ pre, 0 ≤ compare y)
    (hpost : ∀ y ∈ post.head?, compare y < 0) :
    ((pre ++ post).findIdx fun y => compare y < 0) = pre.length := by
  have hnone : pre.findIdx (fun y => compare y < 0) = pre.length := by
    rw [List.findIdx_eq_length]
    intro y hy
    have hnonneg := hpre y hy
    simpa using hnonneg
  rw [List.findIdx_append, if_neg (by omega)]
  cases post with
  | nil => simp
  | cons z post =>
    have hz : compare z < 0 := hpost z rfl
    simp [List.findIdx_cons, hz]

/-- Where the list-level insertion puts the element. -/
theorem insert_set (compare : Elem → Int) (x : Elem) (xs : List Elem) :
    (EnscVector.insert compare x xs).1.set (EnscVector.insert compare x xs).2 x =
      xs.take (xs.findIdx fun y => compare y < 0) ++
        x :: xs.drop (xs.findIdx fun y => compare y < 0) := by
  obtain ⟨pre, post, rfl, hins, hpre, hpost⟩ := insert_spec compare x xs
  have hidx := findIdx_split hpre hpost
  rw [hins, hidx, List.take_left, List.drop_left]
  simp only [List.set_append, Nat.lt_irrefl, if_false, Nat.sub_self, List.set_cons_zero]

/-- The slot made by moving what is behind it, and written by the caller. -/
theorem insert_write_safe (h : Inv vec es xs.length xs) {x : Elem} (hx : x.length = es)
    (compare : Elem → Int)
    (hwrap : vec.allocated < vec.count + 1 → NoWrap es (vec.count + 1)) :
    ((insert debug r compare vec).bind fun (vec, slot) => write vec slot x).Safe r fun vec' =>
      Inv vec' es (xs.length + 1) (xs.take (xs.findIdx fun y => compare y < 0) ++
        x :: xs.drop (xs.findIdx fun y => compare y < 0)) := by
  set data := xs.findIdx fun y => compare y < 0 with hdata
  have hdatale : data ≤ xs.length := List.findIdx_le_length
  refine Outcome.Safe.bind (P := fun p => ∃ ys, Inv p.1 es (xs.length + 1) ys ∧
    p.2 = data * es ∧ data ≤ ys.length ∧ ys.take data = xs.take data ∧
    ys.drop (data + 1) = xs.drop data) ?_ fun p hp => ?_
  · refine Outcome.Safe.bind (pushback_safe h hwrap) fun p hp => ?_
    obtain ⟨vec', end_ptr⟩ := p
    obtain ⟨h', rfl⟩ := hp
    have hn : vec'.count - 1 = xs.length := by rw [h'.count]; omega
    simp only [hn, h'.scan_all, Outcome.bind]
    split
    · rename_i hlt
      have hmove := h'.moveElements (r := r) (d := data + 1) (s := data) (m := xs.length - data) (by omega)
        (by omega) (by omega)
      refine Outcome.Safe.bind hmove fun moved hmoved => ?_
      refine ⟨_, hmoved, by rw [hmoved.size], ?_, ?_, ?_⟩
      · simp only [List.length_append, List.length_take]
        omega
      · rw [List.append_assoc, List.take_append_of_le_length (by rw [List.length_take]; omega),
          List.take_take, Nat.min_eq_left (by omega)]
      · have hfront : (xs.take (data + 1)).length = data + 1 := by rw [List.length_take]; omega
        have hall : (xs.drop data).take (xs.length - data) = xs.drop data :=
          List.take_of_length_le (by rw [List.length_drop])
        have hend : xs.drop (data + 1 + (xs.length - data)) = [] :=
          List.drop_of_length_le (by omega)
        rw [hall, hend, List.append_nil, List.drop_left' hfront]
    · have heq : data = xs.length := by omega
      refine ⟨xs, h', by rw [heq], hdatale, rfl, ?_⟩
      rw [List.drop_of_length_le (by omega), List.drop_of_length_le (by omega)]
  · obtain ⟨vec', slot⟩ := p
    obtain ⟨ys, h', rfl, hle, htake, hdrop⟩ := hp
    have hwrite := h'.write (r := r) hx hle (by omega)
    rwa [htake, hdrop] at hwrite

theorem sort_safe (h : Inv vec es xs.length xs) (q : Qsort) (compare : Comparison) :
    (sort q compare vec).Safe r fun vec' =>
      Inv vec' es (q.sort compare xs).length (q.sort compare xs) := by
  have hperm := q.perm compare xs
  rw [sort]
  split
  · rename_i hzero
    have hnil : xs = [] := List.length_eq_zero_iff.mp (h.count.symm.trans hzero)
    subst hnil
    rw [List.perm_nil.mp hperm]
    exact h
  · rw [h.count, h.readElements (by omega), List.drop_zero]
    have hsized : Sized es (q.sort compare xs) := h.holds.sized.sub fun y hy => hperm.mem_iff.mp hy
    have hmany := h.write_many (r := r) hsized (Nat.zero_le _) (by rw [hperm.length_eq]; omega)
    rw [Nat.zero_mul, List.take_zero, List.nil_append, Nat.zero_add,
      List.drop_of_length_le (by rw [hperm.length_eq]), List.append_nil] at hmany
    rwa [hperm.length_eq]

section Unique

variable (compare : Elem → Elem → Int)

/-- Equal elements behind the first of them are dropped. -/
theorem destutter'_equal {x : Elem} {dups : List Elem} (h : ∀ y ∈ dups, compare x y = 0)
    (rest : List Elem) :
    (dups ++ rest).destutter' (fun x y => compare x y ≠ 0) x =
      rest.destutter' (fun x y => compare x y ≠ 0) x := by
  induction dups with
  | nil => rfl
  | cons y dups ih =>
    have hy : compare x y = 0 := h y List.mem_cons_self
    have hdropped : (y :: (dups ++ rest)).destutter' (fun x y => compare x y ≠ 0) x =
        (dups ++ rest).destutter' (fun x y => compare x y ≠ 0) x :=
      List.destutter'_cons_neg _ (not_not_intro hy)
    rw [List.cons_append, hdropped]
    exact ih fun z hz => h z (List.mem_cons_of_mem y hz)

/-- The loop has come to `x`: what is in front stays. -/
theorem uniqueLoop_safe {fuel : Nat} {done rest : List Elem} {x : Elem}
    (h : Inv vec es (done.length + (rest.length + 1)) (done ++ x :: rest))
    (hfuel : rest.length < fuel) :
    (uniqueLoop compare fuel done.length vec).Safe r fun vec' => ∃ ys,
      ys = done ++ rest.destutter' (fun x y => compare x y ≠ 0) x ∧ Inv vec' es ys.length ys := by
  induction fuel generalizing vec done rest x with
  | zero => omega
  | succ fuel ih =>
    have hlen : (done ++ x :: rest).length = done.length + (rest.length + 1) := by simp
    rw [uniqueLoop, h.count]
    split
    case isFalse hlast =>
      have hnil : rest = [] := List.length_eq_zero_iff.mp (by omega)
      subst hnil
      exact ⟨done ++ [x], rfl, by simpa using h⟩
    case isTrue hmore =>
      have hx : (done ++ x :: rest)[done.length]? = some x := by simp
      have hrest : (done ++ x :: rest).drop (done.length + 1) = rest := by
        rw [← List.drop_drop, List.drop_left, List.drop_one, List.tail_cons]
      set dups := rest.findIdx fun y => compare x y ≠ 0 with hdups
      have hscan : scan (fun y => compare x y ≠ 0) vec
          (done.length + (rest.length + 1) - (done.length + 1)) (done.length + 1) =
          .ok (done.length + 1 + dups) := by
        rw [h.scan _ (by omega), hrest, List.take_of_length_le (by omega)]
      have hle : dups ≤ rest.length := List.findIdx_le_length
      have hequal : ∀ y ∈ rest.take dups, compare x y = 0 := by
        intro y hy
        obtain ⟨i, hi, rfl⟩ := List.mem_iff_getElem.mp hy
        rw [List.length_take] at hi
        have hi' : i < rest.findIdx fun y => compare x y ≠ 0 := by omega
        have hnot := List.not_of_lt_findIdx hi'
        simpa using hnot
      have hskip : rest.destutter' (fun x y => compare x y ≠ 0) x =
          (rest.drop dups).destutter' (fun x y => compare x y ≠ 0) x := by
        rw [← destutter'_equal compare hequal (rest.drop dups), List.take_append_drop]
      have hfront : (done ++ x :: rest).take (done.length + 1) = done ++ [x] := by
        rw [List.take_append, List.take_of_length_le (by omega)]
        simp
      simp only [h.element hx, Outcome.bind, hscan]
      -- the next different element, when there is one
      have hnext : ∀ {vec' : Vector} {y : Elem} {behind : List Elem},
          rest.drop dups = y :: behind →
          Inv vec' es (done.length + 1 + (behind.length + 1)) (done ++ [x] ++ y :: behind) →
          (uniqueLoop compare fuel (done.length + 1) vec').Safe r fun vec' => ∃ ys,
            ys = done ++ rest.destutter' (fun x y => compare x y ≠ 0) x ∧
              Inv vec' es ys.length ys := by
        intro vec' y behind hdrop h'
        have hlt : dups < rest.length := by
          by_contra hge
          rw [List.drop_of_length_le (by omega)] at hdrop
          cases hdrop
        have hy : compare x y ≠ 0 := by
          have hget : decide (compare x rest[dups] ≠ 0) = true :=
            @List.findIdx_getElem _ (fun y => decide (compare x y ≠ 0)) rest hlt
          rw [List.drop_eq_getElem_cons hlt] at hdrop
          obtain ⟨rfl, -⟩ := List.cons.inj hdrop
          exact of_decide_eq_true hget
        have hlenb : behind.length < fuel := by
          have hd := congrArg List.length hdrop
          rw [List.length_drop, List.length_cons] at hd
          omega
        have hloop := @ih vec' (done ++ [x]) behind y (by simpa using h') hlenb
        have hkept : (y :: behind).destutter' (fun x y => compare x y ≠ 0) x =
            x :: behind.destutter' (fun x y => compare x y ≠ 0) y :=
          List.destutter'_cons_pos behind hy
        rw [hskip, hdrop, hkept]
        simpa using hloop
      split
      case isTrue hend =>
        have hall : rest.drop dups = [] := List.drop_of_length_le (by omega)
        have hcut := h.shrink (k := done.length + 1) (by omega)
        rw [hfront] at hcut
        rw [hskip, hall]
        cases fuel with
        | zero => omega
        | succ fuel =>
          rw [uniqueLoop, if_neg (by show ¬ done.length + 1 + 1 < done.length + 1; omega)]
          exact ⟨done ++ [x], rfl, by simpa using hcut⟩
      case isFalse hend =>
        have hlt : dups < rest.length := by omega
        have hdrop := List.drop_eq_getElem_cons hlt
        have hbehind : (rest.drop (dups + 1)).length = rest.length - dups - 1 := by
          rw [List.length_drop]
          omega
        split
        · have hmove := h.moveElements (r := r) (d := done.length + 1) (s := done.length + 1 + dups)
            (m := done.length + (rest.length + 1) - (done.length + 1 + dups)) (by omega) (by omega)
            (by omega)
          refine Outcome.Safe.bind hmove fun moved hmoved => hnext hdrop ?_
          have hsrc : ((done ++ x :: rest).drop (done.length + 1 + dups)).take
              (done.length + (rest.length + 1) - (done.length + 1 + dups)) = rest.drop dups := by
            rw [← List.drop_drop, hrest, List.take_of_length_le (by rw [List.length_drop]; omega)]
          rw [hfront, hsrc] at hmoved
          have hcut := hmoved.shrink
            (k := done.length + (rest.length + 1) - (done.length + 1 + dups - done.length - 1))
            (by omega)
          rw [List.take_append_of_le_length (by simp; omega),
            List.take_of_length_le (by simp; omega), hdrop] at hcut
          have hk : done.length + (rest.length + 1) - (done.length + 1 + dups - done.length - 1) =
              done.length + 1 + ((rest.drop (dups + 1)).length + 1) := by omega
          rw [hk] at hcut ⊢
          exact hcut
        · refine hnext hdrop ?_
          have hzero : dups = 0 := by omega
          rw [← hdrop, hzero, List.drop_zero, List.append_assoc]
          have hn : done.length + 1 + ((rest.drop (0 + 1)).length + 1) =
              done.length + (rest.length + 1) := by
            rw [← hzero]
            omega
          rw [hn]
          exact h

theorem unique_safe (h : Inv vec es xs.length xs) :
    (unique compare vec).Safe r fun vec' => ∃ ys,
      ys = xs.destutter (fun x y => compare x y ≠ 0) ∧ Inv vec' es ys.length ys := by
  rw [unique, h.count]
  cases xs with
  | nil => exact ⟨[], rfl, h⟩
  | cons x rest =>
    split
    · rename_i hshort
      rw [List.length_cons] at hshort
      have hnil : rest = [] := List.length_eq_zero_iff.mp (by omega)
      subst hnil
      exact ⟨[x], rfl, h⟩
    · have hloop := @uniqueLoop_safe vec es r compare (x :: rest).length [] rest x
        (by simpa using h) (by simp)
      simpa [List.destutter_cons'] using hloop

end Unique

section SelfOrg

variable (compare : Elem → Int)

theorem findIdx_stop :
    (xs.findIdx fun x => !(compare x != 0)) = xs.findIdx fun x => compare x = 0 := by
  congr 1
  funext x
  by_cases hx : compare x = 0 <;> simp [hx]

/-- The list-level search, in terms of the place of what it finds. -/
theorem searchSelfOrg_none (method : SelfOrgMethod)
    (h : xs.length ≤ xs.findIdx fun x => compare x = 0) :
    EnscVector.searchSelfOrg compare xs method = (none, xs) := by
  have hdrop : xs.dropWhile (fun x => compare x != 0) = [] := by
    rw [List.dropWhile_eq_drop_findIdx_not, findIdx_stop, List.drop_of_length_le h]
  simp only [EnscVector.searchSelfOrg, hdrop]

theorem searchSelfOrg_some (method : SelfOrgMethod) {k : Nat} {x : Elem}
    (hk : (xs.findIdx fun x => compare x = 0) = k) (hx : xs[k]? = some x) :
    EnscVector.searchSelfOrg compare xs method =
      (some x, moved method (xs.take k) x (xs.drop (k + 1))) := by
  obtain ⟨hlt, rfl⟩ := List.getElem?_eq_some_iff.mp hx
  have hidx : (xs.findIdx fun x => !(compare x != 0)) = k := by rw [findIdx_stop, hk]
  have htake : xs.takeWhile (fun x => compare x != 0) = xs.take k := by
    rw [List.takeWhile_eq_take_findIdx_not, hidx]
  have hdrop : xs.dropWhile (fun x => compare x != 0) = xs[k] :: xs.drop (k + 1) := by
    rw [List.dropWhile_eq_drop_findIdx_not, hidx, List.drop_eq_getElem_cons hlt]
  simp only [EnscVector.searchSelfOrg, hdrop, htake]

theorem searchSelfOrg_safe (h : Inv vec es xs.length xs) (method : SelfOrgMethod) :
    (searchSelfOrg compare method vec).Safe r fun p => ∃ ys,
      ys = (EnscVector.searchSelfOrg compare xs method).2 ∧ Inv p.1 es ys.length ys ∧
        p.2.map (fun i => ys[i]?) = (EnscVector.searchSelfOrg compare xs method).1.map some := by
  rw [searchSelfOrg, h.count, h.scan_all]
  simp only [Outcome.bind]
  obtain ⟨k, hk⟩ : ∃ k, (xs.findIdx fun x => compare x = 0) = k := ⟨_, rfl⟩
  rw [hk]
  split
  · rename_i hnone
    rw [searchSelfOrg_none compare method (by omega)]
    exact ⟨xs, rfl, h, rfl⟩
  · have hlt : k < xs.length := by omega
    have hx : xs[k]? = some xs[k] := List.getElem?_eq_getElem hlt
    rw [searchSelfOrg_some compare method hk hx]
    split
    · rename_i hzero
      subst hzero
      have hsplit : xs[0] :: xs.drop (0 + 1) = xs := by
        rw [← List.drop_eq_getElem_cons hlt, List.drop_zero]
      refine ⟨xs, ?_, h, congrArg some hx⟩
      cases method <;>
        simp only [moved, List.take_zero, List.dropLast_nil, List.getLast?_nil, Option.toList_none,
          List.nil_append, hsplit]
    · rename_i hpos
      rw [h.element hx]
      cases method with
      | MOVE_FRONT =>
        have hmove := h.moveElements (r := r) (d := 1) (s := 0) (m := k) (by omega) (by omega) (by omega)
        refine Outcome.Safe.bind hmove fun moved hmoved => ?_
        have hfront : (xs.take 1).length = 1 := by rw [List.length_take]; omega
        have hwrite := hmoved.write (r := r) (x := xs[k]) (h.holds.sized _ (List.getElem_mem hlt)) (k := 0)
          (Nat.zero_le _) (by omega)
        rw [Nat.zero_mul] at hwrite
        refine Outcome.Safe.bind hwrite fun vec' h' => ⟨_, rfl, ?_, rfl⟩
        rw [List.take_zero, List.nil_append, List.append_assoc, Nat.zero_add, List.drop_left' hfront,
          List.drop_zero, Nat.add_comm 1 k] at h'
        have hlen : (xs[k] :: (xs.take k ++ xs.drop (k + 1))).length = xs.length := by
          simp only [List.length_cons, List.length_append, List.length_take, List.length_drop]
          omega
        show Inv vec' es (xs[k] :: (xs.take k ++ xs.drop (k + 1))).length _
        rwa [hlen]
      | SHIFT_ONCE =>
        have hmove := h.moveElements (r := r) (d := k) (s := k - 1) (m := 1) (by omega) (by omega) (by omega)
        refine Outcome.Safe.bind hmove fun moved hmoved => ?_
        have hprev : k - 1 < xs.length := by omega
        have hone : (xs.drop (k - 1)).take 1 = [xs[k - 1]] := by
          rw [List.drop_eq_getElem_cons hprev, List.take_succ_cons, List.take_zero]
        have hinit : (xs.take k).dropLast = xs.take (k - 1) := by
          rw [List.dropLast_take (by omega)]
        have hlast : (xs.take k).getLast?.toList = [xs[k - 1]] := by
          rw [List.getLast?_take, if_neg (by omega), List.getElem?_eq_getElem hprev]
          rfl
        have hlen : (xs.take k).length = k := by rw [List.length_take]; omega
        have hwrite := hmoved.write (r := r) (x := xs[k]) (h.holds.sized _ (List.getElem_mem hlt))
          (k := k - 1) (by simp only [List.length_append, hlen]; omega) (by omega)
        rw [← hmoved.size] at hwrite
        have hfound : ((xs.take k).dropLast ++ xs[k] :: ((xs.take k).getLast?.toList ++
            xs.drop (k + 1)))[k - 1]? = some xs[k] := by
          have hfirst : (xs.take k).dropLast.length = k - 1 := by rw [List.length_dropLast, hlen]
          rw [List.getElem?_append_right (by omega), hfirst, Nat.sub_self]
          rfl
        refine Outcome.Safe.bind hwrite fun vec' h' => ⟨_, rfl, ?_, congrArg some hfound⟩
        rw [hmoved.size, hone, List.append_assoc, List.take_append_of_le_length (by omega),
          List.take_take, Nat.min_eq_left (by omega), Nat.sub_add_cancel (by omega),
          List.drop_left' hlen] at h'
        have hall : (xs.take (k - 1) ++ xs[k] :: ([xs[k - 1]] ++ xs.drop (k + 1))).length =
            xs.length := by
          simp only [List.length_cons, List.length_append, List.length_take, List.length_drop,
            List.length_nil]
          omega
        show Inv vec' es ((xs.take k).dropLast ++
            xs[k] :: ((xs.take k).getLast?.toList ++ xs.drop (k + 1))).length
          ((xs.take k).dropLast ++ xs[k] :: ((xs.take k).getLast?.toList ++ xs.drop (k + 1)))
        rw [hinit, hlast, hall]
        exact h'

end SelfOrg

/-- A slot behind the elements is written; it is not counted. -/
theorem write_behind (h : Inv vec es xs.length xs) (hroom : xs.length < vec.allocated) {x : Elem}
    (hx : x.length = es) :
    (write vec (xs.length * es) x).Safe r fun vec' => Inv vec' es xs.length xs ∧
      vec'.count = xs.length ∧ peek (xs.length * es) es vec'.block = some x := by
  have hsized : Sized es [x] := fun y hy => by rw [List.mem_singleton.mp hy, hx]
  have hin : (xs.length + [x].length) * es ≤ vec.block.length := by
    rw [h.room]
    exact Nat.mul_le_mul_right es hroom
  obtain ⟨block, hpoke, hlen, hholds⟩ := h.holds.poke hsized (Nat.le_refl _) hin
  rw [List.take_length, List.drop_of_length_le (by omega), List.append_nil] at hholds
  rw [List.flatten_cons, List.flatten_nil, List.append_nil] at hpoke
  have hfirst := hholds.take xs.length
  rw [List.take_left] at hfirst
  rw [VectorMemory.write, hpoke]
  exact ⟨h.setBlock hlen hfirst, h.count, hholds.peek (by simp)⟩

/-- The zero slot is written where the next element would be; nothing else changes. -/
theorem zeroEnd_safe (h : Inv vec es xs.length xs)
    (hwrap : vec.allocated ≤ vec.count → NoWrap es (vec.count + 1)) :
    (zeroEnd debug r vec).Safe r fun vec' => Inv vec' es xs.length xs ∧ vec'.count = xs.length ∧
      peek (xs.length * es) es vec'.block = some (List.replicate es 0) := by
  have hzeros : (List.replicate es (0 : UInt8)).length = es := List.length_replicate
  rw [zeroEnd]
  split
  · rename_i hfull
    refine Outcome.Safe.bind (pushback_safe h fun _ => hwrap hfull) fun p hp => ?_
    obtain ⟨vec', tmp⟩ := p
    obtain ⟨h', rfl⟩ := hp
    have hcount : vec'.count = xs.length + 1 := h'.count
    have hsize : vec'.elem_size = es := h'.size
    have hback := h'.shrink (k := xs.length) (by omega)
    rw [List.take_length] at hback
    have hwrite := write_behind (r := r) hback h'.bound hzeros
    simp only [popback, hcount, Nat.succ_pos, if_true, Outcome.bind, hsize, Nat.add_sub_cancel]
    simpa only [hsize] using hwrite
  · rename_i hroom
    have hoff : vec.count * vec.elem_size % size_t = xs.length * es := by
      have hmul : xs.length * es ≤ vec.allocated * es := Nat.mul_le_mul_right es h.bound
      have hfits := h.fits
      rw [h.count, h.size, Nat.mod_eq_of_lt (by omega)]
    rw [hoff, h.size]
    exact write_behind h (by have hcount := h.count; omega) hzeros

theorem resize_safe (h : Inv vec es xs.length xs)
    (hwrap : (vec.count + 1) % size_t < vec.allocated * 24 % size_t / 16 → NoWrap es vec.count) :
    (resize debug r vec).Safe r fun vec' => Inv vec' es xs.length xs := by
  rw [resize]
  split
  · rename_i hmuch
    have hcount := h.count
    have hsafe := @resizeInternal_safe vec es xs debug r h.size h.size_pos h.holds (by omega)
      (hwrap hmuch)
    rwa [h.count] at hsafe
  · exact h

/-! ## Runs -/

/-- The block has room for all allocated slots, and the counted ones hold the elements. -/
def Right (vec : Vector) (xs : List Elem) : Prop := Inv vec vec.elem_size xs.length xs

/-- The sizes of the memory that a call asks for are those meant. -/
def Fits (vec : Vector) (op : Op) : Prop := ∀ n ∈ growsTo vec op, NoWrap vec.elem_size n

theorem right_of_inv (h : Inv vec es n xs) (hn : n = xs.length) : Right vec xs := by
  rwa [← h.size, hn] at h

/-- **One call.** -/
theorem apply_safe (q : Qsort) (h : Right vec xs) {op : Op} (hproper : Proper vec op)
    (hfits : Fits vec op) :
    (apply q debug vec r op).Safe r fun vec' => Right vec' (elements q xs op) := by
  have hcount : vec.count = xs.length := h.count
  cases op with
  | init elem_size => exact right_of_inv (inv_init hproper.1) rfl
  | pushback x =>
    have hwrap : vec.allocated < vec.count + 1 → NoWrap vec.elem_size (vec.count + 1) :=
      fun hgrow => hfits _ (by rw [growsTo, if_pos hgrow]; rfl)
    refine Outcome.Safe.bind (pushback_safe h hwrap) fun p hp => ?_
    obtain ⟨vec', slot⟩ := p
    obtain ⟨h', rfl⟩ := hp
    have hwrite := h'.write (r := r) hproper (Nat.le_refl _) (by omega)
    rw [List.take_length, List.drop_of_length_le (by omega)] at hwrite
    exact hwrite.mono fun vec'' h'' => right_of_inv h'' (by simp [elements, EnscVector.pushback])
  | popback =>
    have hpos : 0 < vec.count := hproper
    have hcut := h.shrink (k := xs.length - 1) (by omega)
    rw [← List.dropLast_eq_take] at hcut
    have hpos' : 0 < xs.length := by omega
    simp only [apply, popback, hcount, if_pos hpos']
    exact right_of_inv hcut List.length_dropLast.symm
  | insert compare x =>
    have hwrap : vec.allocated < vec.count + 1 → NoWrap vec.elem_size (vec.count + 1) :=
      fun hgrow => hfits _ (by rw [growsTo, if_pos hgrow]; rfl)
    refine (insert_write_safe h hproper compare hwrap).mono fun vec' h' => ?_
    have hle : (xs.findIdx fun y => compare y < 0) ≤ xs.length := List.findIdx_le_length
    rw [elements, insert_set]
    refine right_of_inv h' ?_
    simp only [List.length_append, List.length_cons, List.length_take, List.length_drop]
    omega
  | clear => exact right_of_inv (h.shrink (Nat.zero_le _)) rfl
  | resize =>
    have hwrap : (vec.count + 1) % size_t < vec.allocated * 24 % size_t / 16 →
        NoWrap vec.elem_size vec.count := fun hmuch => hfits _ (by rw [growsTo, if_pos hmuch]; rfl)
    exact (resize_safe h hwrap).mono fun vec' h' => right_of_inv h' rfl
  | sort compare => exact (sort_safe h q compare).mono fun vec' h' => right_of_inv h' rfl
  | unique compare =>
    refine (unique_safe compare h).mono fun vec' h' => ?_
    obtain ⟨ys, rfl, hys⟩ := h'
    exact right_of_inv hys rfl
  | zeroEnd =>
    have hwrap : vec.allocated ≤ vec.count → NoWrap vec.elem_size (vec.count + 1) :=
      fun hfull => hfits _ (by rw [growsTo, if_pos hfull]; rfl)
    exact (zeroEnd_safe h hwrap).mono fun vec' h' => right_of_inv h'.1 rfl
  | searchSelfOrg compare method =>
    refine Outcome.Safe.bind (searchSelfOrg_safe compare h method) fun p hp => ?_
    obtain ⟨ys, rfl, hys, -⟩ := hp
    exact right_of_inv hys rfl

/-- A call whose sizes are right, with what it makes of the list. -/
def Step (q : Qsort) (debug : Bool) (s : Vector × List Elem) (l : Op × Realloc)
    (s' : Vector × List Elem) : Prop :=
  Proper s.1 l.1 ∧ Fits s.1 l.1 ∧ apply q debug s.1 l.2 l.1 = .ok s'.1 ∧
    s'.2 = elements q s.2 l.1

/-- **In every run of calls the memory holds the list**, as long as no call asks for more memory
than a `size_t` can tell: all slots lie in the block, no access is outside of it, and `Vector_zeroEnd`
writes its zeros there and leaves the elements. -/
theorem vector_refines (q : Qsort) (debug : Bool) {elem_size : Nat} (hpos : 0 < elem_size)
    {ls : List (Op × Realloc)} {vec : Vector} {xs : List Elem}
    (hrun : Run (Step q debug) (init elem_size, []) ls (vec, xs)) :
    vec.count = xs.length ∧ vec.count ≤ vec.allocated ∧
    vec.block.length = vec.allocated * vec.elem_size ∧ Holds vec.elem_size xs vec.block ∧
    (∀ op r, Proper vec op → Fits vec op → apply q debug vec r op ≠ .fault ∧
      (r.grants = true → ∃ vec', apply q debug vec r op = .ok vec')) ∧
    ∀ r vec', Fits vec .zeroEnd → zeroEnd debug r vec = .ok vec' →
      vec'.count = vec.count ∧ Holds vec.elem_size xs vec'.block ∧
        peek (vec.count * vec.elem_size) vec.elem_size vec'.block =
          some (List.replicate vec.elem_size 0) := by
  have hinv : Right vec xs := by
    refine Run.invariant (I := fun s => Right s.1 s.2) (fun s l s' hs hstep => ?_) hrun
      (right_of_inv (inv_init hpos) rfl)
    obtain ⟨hproper, hfits, hok, hlist⟩ := hstep
    have hsafe := @apply_safe s.1 s.2 debug l.2 q hs l.1 hproper hfits
    rw [hok] at hsafe
    show Right s'.1 s'.2
    rw [hlist]
    exact hsafe
  refine ⟨hinv.count, by rw [hinv.count]; exact hinv.bound, hinv.room, hinv.holds, ?_, ?_⟩
  · intro op r hproper hfits
    have hsafe := @apply_safe vec xs debug r q hinv op hproper hfits
    refine ⟨fun hfault => ?_, hsafe.value⟩
    rw [hfault] at hsafe
    exact hsafe
  · intro r vec' hfits hok
    have hwrap : vec.allocated ≤ vec.count → NoWrap vec.elem_size (vec.count + 1) :=
      fun hfull => hfits _ (by rw [growsTo, if_pos hfull]; rfl)
    have hsafe := @zeroEnd_safe vec vec.elem_size xs debug r hinv hwrap
    rw [hok] at hsafe
    obtain ⟨hholds, hcount, hpeek⟩ := hsafe
    rw [hinv.count]
    exact ⟨hcount, hholds.holds, hpeek⟩

/-- A `qsort` that keeps the order of equal elements. -/
def stableSort : Qsort where
  sort c xs := xs.mergeSort fun x y => c.cmp x y ≤ 0
  perm _ xs := List.mergeSort_perm xs _
  sorted c xs := by
    have hsorted := @List.pairwise_mergeSort _ (fun x y => decide (c.cmp x y ≤ 0))
      (fun x y z hxy hyz => by
        rw [decide_eq_true_eq] at *
        exact c.trans x y z hxy hyz)
      (fun x y => by simpa using c.total x y) xs
    simpa using hsorted

/-- The memory that `realloc` returns is filled with `0xaa`. -/
def granting : Realloc := ⟨true, fun _ => 0xaa⟩

theorem vector_refines_pair :
    let vec : Vector := ⟨some [1, 2, 3, 4, 0, 0, 0xaa, 0xaa], 2, 4, 2⟩
    vec.count = 2 ∧ Holds 2 [[1, 2], [3, 4]] vec.block ∧
      ∀ r, r.grants = true → ∃ vec', apply stableSort true vec r .zeroEnd = .ok vec' := by
  have hfits : ∀ n : Nat, n < 4 → NoWrap 2 n := by decide
  have hfirst : Step stableSort true (init 2, []) (.pushback [1, 2], granting)
      (⟨some [1, 2, 0xaa, 0xaa], 1, 2, 2⟩, [[1, 2]]) := by
    refine ⟨rfl, fun n hn => ?_, ?_, rfl⟩
    · obtain rfl : 1 = n := Option.some.inj hn
      exact hfits 1 (by decide)
    · simp [apply, pushback, init, resizeInternal, size_t, Outcome.bind, write, Vector.block,
        granting, Realloc.block, poke, access, List.range']
  have hsecond : Step stableSort true (⟨some [1, 2, 0xaa, 0xaa], 1, 2, 2⟩, [[1, 2]])
      (.pushback [3, 4], granting) (⟨some [1, 2, 3, 4], 2, 2, 2⟩, [[1, 2], [3, 4]]) := by
    refine ⟨rfl, (fun _ h => by cases h), ?_, rfl⟩
    simp [apply, pushback, size_t, Outcome.bind, write, Vector.block, poke, access]
  have hthird : Step stableSort true (⟨some [1, 2, 3, 4], 2, 2, 2⟩, [[1, 2], [3, 4]])
      (.zeroEnd, granting)
      (⟨some [1, 2, 3, 4, 0, 0, 0xaa, 0xaa], 2, 4, 2⟩, [[1, 2], [3, 4]]) := by
    refine ⟨trivial, fun n hn => ?_, ?_, rfl⟩
    · obtain rfl : 3 = n := Option.some.inj hn
      exact hfits 3 (by decide)
    · simp [apply, zeroEnd, pushback, popback, resizeInternal, size_t, Outcome.bind, write,
        Vector.block, granting, Realloc.block, poke, access, List.range']
  obtain ⟨hcount, _, _, hholds, hcall, _⟩ := vector_refines stableSort true Nat.two_pos
    (((Run.single hfirst).snoc hsecond).snoc hthird)
  exact ⟨hcount, hholds, fun r => (hcall .zeroEnd r trivial fun _ h => by cases h).2⟩

/-- Two slots of `2^63` bytes: memory for zero bytes is asked for. -/
theorem pushback_huge : pushback true granting (init (2 ^ 63)) = .ok (⟨some [], 1, 2, 2 ^ 63⟩, 0) := by
  have hsize : (1 * 20 % size_t / 16 + 1) % size_t * 2 ^ 63 % size_t = 0 := by decide
  have hgrow : resizeInternal true granting ⟨none, 1, 0, 2 ^ 63⟩ = .ok ⟨some [], 1, 2, 2 ^ 63⟩ := by
    simp only [resizeInternal, hsize]
    rfl
  have hcount : (0 + 1) % size_t = 1 := by decide
  have hfirst : (1 + (size_t - 1)) % size_t = 0 := by decide
  simp only [pushback, init, hcount, Nat.zero_lt_one, if_true, hgrow, Outcome.bind, hfirst,
    Nat.zero_mul, Nat.zero_mod]

/-- **A size that wraps around**: the first slot is outside of the block. -/
theorem vector_overflow : ∃ x : Elem, Proper (init (2 ^ 63)) (.pushback x) ∧
    apply stableSort true (init (2 ^ 63)) granting (.pushback x) = .fault := by
  obtain ⟨x, hx⟩ : ∃ x : Elem, x.length = 2 ^ 63 :=
    ⟨List.replicate (2 ^ 63) 0, List.length_replicate⟩
  have hout : poke 0 x [] = none := by
    rw [poke, if_neg]
    rw [List.length_nil]
    omega
  refine ⟨x, hx, ?_⟩
  simp only [apply, pushback_huge, Outcome.bind, write, Vector.block, Option.getD_some, hout, access]

end VectorMemory
