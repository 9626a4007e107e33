import Mathlib.Data.List.Basic

/-!
# Memory blocks divided into slots

A block of memory is the list of its cells.  An access that is not inside the block has no result.

* `peek`, `poke`, `memmove` — reading and writing some cells, and moving them.
* `Sized` — elements that fill a slot each.
* `Holds` — the first slots of a block hold the elements of a list.

Principal results: `Holds.peek`, `Holds.poke` and `Holds.memmove` — what a list becomes when slots
are read, written or moved.
-/

set_option autoImplicit false

namespace Slots

variable {β : Type}

/-! ## Cells -/

/-- The `n` cells from `off` on. -/
def peek (off n : Nat) (block : List β) : Option (List β) :=
  if off + n ≤ block.length then some ((block.drop off).take n) else none

/-- The block with the given cells from `off` on. -/
def poke (off : Nat) (cells block : List β) : Option (List β) :=
  if off + cells.length ≤ block.length then
    some (block.take off ++ cells ++ block.drop (off + cells.length))
  else none

/-- `n` cells move from `src` to `dst`; the two ranges may overlap. -/
def memmove (dst src n : Nat) (block : List β) : Option (List β) :=
  (peek src n block).bind fun cells => poke dst cells block

theorem poke_length {off : Nat} {cells block block' : List β}
    (h : poke off cells block = some block') : block'.length = block.length := by
  simp only [poke] at h
  split at h
  · rename_i hin
    cases h
    simp only [List.length_append, List.length_take, List.length_drop]
    omega
  · cases h

/-- The cells behind `p` are read. -/
theorem peek_append {p t : List β} (u : List β) :
    peek p.length t.length (p ++ (t ++ u)) = some t := by
  rw [peek, if_pos (by simp), List.drop_left, List.take_left]

/-- The cells behind `p` are replaced. -/
theorem poke_append {p t t' u : List β} (h : t'.length = t.length) :
    poke p.length t' (p ++ (t ++ u)) = some (p ++ (t' ++ u)) := by
  rw [poke, if_pos (by simp [h]), List.take_left, h, ← List.append_assoc p t u,
    ← List.length_append, List.drop_left, List.append_assoc]

/-- Cells can be written together with those behind them, as they are. -/
theorem poke_extend {off k : Nat} {cells block : List β} (h : off + cells.length + k ≤ block.length) :
    poke off (cells ++ (block.drop (off + cells.length)).take k) block = poke off cells block := by
  have hk : ((block.drop (off + cells.length)).take k).length = k := by
    rw [List.length_take, List.length_drop]
    omega
  have hrest : (block.drop (off + cells.length)).take k ++ block.drop (off + (cells.length + k)) =
      block.drop (off + cells.length) := by
    have hdrop : block.drop (off + (cells.length + k)) = (block.drop (off + cells.length)).drop k := by
      rw [List.drop_drop, Nat.add_assoc]
    rw [hdrop, List.take_append_drop]
  rw [poke, poke, List.length_append, hk, if_pos (by omega), if_pos (by omega), ← List.append_assoc,
    List.append_assoc, hrest]

/-! ## Slots -/

/-- Each element fills a slot. -/
def Sized (size : Nat) (xs : List (List β)) : Prop := ∀ x ∈ xs, x.length = size

/-- The first slots of the block hold the elements of `xs`. -/
structure Holds (size : Nat) (xs : List (List β)) (block : List β) : Prop where
  sized : Sized size xs
  stored : xs.flatten <+: block

variable {size : Nat} {xs ys : List (List β)} {block block' : List β}

theorem Sized.sub (h : Sized size xs) (hsub : ∀ y ∈ ys, y ∈ xs) : Sized size ys :=
  fun y hy => h y (hsub y hy)

theorem Sized.take (h : Sized size xs) (k : Nat) : Sized size (xs.take k) :=
  h.sub fun _ hy => List.mem_of_mem_take hy

theorem Sized.drop (h : Sized size xs) (k : Nat) : Sized size (xs.drop k) :=
  h.sub fun _ hy => List.mem_of_mem_drop hy

theorem Sized.append (h : Sized size xs) (h' : Sized size ys) : Sized size (xs ++ ys) := by
  intro y hy
  rcases List.mem_append.mp hy with hy | hy
  · exact h y hy
  · exact h' y hy

theorem Sized.length_flatten (h : Sized size xs) : xs.flatten.length = xs.length * size := by
  induction xs with
  | nil => simp
  | cons x xs ih =>
    have hx : x.length = size := h x List.mem_cons_self
    have hxs : xs.flatten.length = xs.length * size := ih fun y hy => h y (List.mem_cons_of_mem x hy)
    rw [List.flatten_cons, List.length_append, hx, hxs, List.length_cons, Nat.succ_mul]
    omega

theorem Sized.take_flatten (h : Sized size xs) {k : Nat} (hk : k ≤ xs.length) :
    xs.flatten.take (k * size) = (xs.take k).flatten := by
  have hlen : (xs.take k).flatten.length = k * size := by
    rw [(h.take k).length_flatten, List.length_take, Nat.min_eq_left hk]
  calc xs.flatten.take (k * size)
      = ((xs.take k).flatten ++ (xs.drop k).flatten).take (k * size) := by
        rw [← List.flatten_append, List.take_append_drop]
    _ = (xs.take k).flatten := by rw [List.take_append_of_le_length (by omega),
        List.take_of_length_le (by omega)]

theorem Sized.drop_flatten (h : Sized size xs) {k : Nat} (hk : k ≤ xs.length) :
    xs.flatten.drop (k * size) = (xs.drop k).flatten := by
  have hlen : (xs.take k).flatten.length = k * size := by
    rw [(h.take k).length_flatten, List.length_take, Nat.min_eq_left hk]
  calc xs.flatten.drop (k * size)
      = ((xs.take k).flatten ++ (xs.drop k).flatten).drop (k * size) := by
        rw [← List.flatten_append, List.take_append_drop]
    _ = (xs.drop k).flatten := by rw [← hlen, List.drop_left]

theorem Holds.length_le (h : Holds size xs block) : xs.length * size ≤ block.length := by
  rw [← h.sized.length_flatten]
  exact h.stored.length_le

/-- Fewer elements are held as well. -/
theorem Holds.take (h : Holds size xs block) (k : Nat) : Holds size (xs.take k) block := by
  refine ⟨h.sized.take k, List.IsPrefix.trans ?_ h.stored⟩
  refine ⟨(xs.drop k).flatten, ?_⟩
  rw [← List.flatten_append, List.take_append_drop]

/-- **Some slots are read at once.** -/
theorem Holds.peek_many (h : Holds size xs block) {k m : Nat} (hkm : k + m ≤ xs.length) :
    peek (k * size) (m * size) block = some ((xs.drop k).take m).flatten := by
  have hlen := h.length_le
  have hle : (k + m) * size ≤ xs.length * size := Nat.mul_le_mul_right size hkm
  rw [Nat.add_mul] at hle
  obtain ⟨rest, rfl⟩ := h.stored
  have hdrop : (xs.drop k).flatten.length = (xs.length - k) * size := by
    rw [(h.sized.drop k).length_flatten, List.length_drop]
  have hm : m * size ≤ (xs.length - k) * size := Nat.mul_le_mul_right size (by omega)
  have hks : k * size ≤ xs.flatten.length := by
    rw [h.sized.length_flatten]
    omega
  rw [peek, if_pos (by omega), List.drop_append_of_le_length hks,
    h.sized.drop_flatten (by omega), List.take_append_of_le_length (by omega),
    (h.sized.drop k).take_flatten (by rw [List.length_drop]; omega)]

/-- **A slot is read.** -/
theorem Holds.peek (h : Holds size xs block) {k : Nat} {x : List β} (hx : xs[k]? = some x) :
    peek (k * size) size block = some x := by
  obtain ⟨hk, rfl⟩ := List.getElem?_eq_some_iff.mp hx
  have hone := h.peek_many (k := k) (m := 1) (by omega)
  rw [Nat.one_mul, List.drop_eq_getElem_cons hk, List.take_succ_cons, List.take_zero,
    List.flatten_cons, List.flatten_nil, List.append_nil] at hone
  exact hone

/-- **Some slots are written at once**, those of the list or directly behind it. -/
theorem Holds.poke (h : Holds size xs block) (hys : Sized size ys) {k : Nat} (hk : k ≤ xs.length)
    (hin : (k + ys.length) * size ≤ block.length) :
    ∃ block', poke (k * size) ys.flatten block = some block' ∧ block'.length = block.length ∧
      Holds size (xs.take k ++ ys ++ xs.drop (k + ys.length)) block' := by
  have hlen := hys.length_flatten
  have hsplit : (k + ys.length) * size = k * size + ys.length * size := Nat.add_mul _ _ _
  have hpoke : Slots.poke (k * size) ys.flatten block = some (block.take (k * size) ++ ys.flatten ++
      block.drop (k * size + ys.flatten.length)) := if_pos (by omega)
  refine ⟨_, hpoke, poke_length hpoke, ((h.sized.take k).append hys).append (h.sized.drop _), ?_⟩
  obtain ⟨rest, rfl⟩ := h.stored
  have hks : k * size ≤ xs.flatten.length := by
    rw [h.sized.length_flatten]
    exact Nat.mul_le_mul_right size hk
  have hfront : (xs.flatten ++ rest).take (k * size) = (xs.take k).flatten := by
    rw [List.take_append_of_le_length hks, h.sized.take_flatten hk]
  rw [hfront, List.flatten_append, List.flatten_append]
  refine (List.prefix_append_right_inj _).mpr ?_
  by_cases hbehind : k + ys.length ≤ xs.length
  · have hle : (k + ys.length) * size ≤ xs.flatten.length := by
      rw [h.sized.length_flatten]
      exact Nat.mul_le_mul_right size hbehind
    rw [hlen, ← hsplit, List.drop_append_of_le_length hle, h.sized.drop_flatten hbehind]
    exact List.prefix_append _ _
  · rw [List.drop_of_length_le (by omega)]
    exact List.nil_prefix

/-- **Slots of the list are moved**, within it or to directly behind it. -/
theorem Holds.memmove (h : Holds size xs block) {d s m : Nat} (hs : s + m ≤ xs.length)
    (hd : d ≤ xs.length) (hin : (d + m) * size ≤ block.length) :
    ∃ block', memmove (d * size) (s * size) (m * size) block = some block' ∧
      block'.length = block.length ∧
      Holds size (xs.take d ++ (xs.drop s).take m ++ xs.drop (d + m)) block' := by
  have hsized : Sized size ((xs.drop s).take m) := (h.sized.drop s).take m
  have hlen : ((xs.drop s).take m).length = m := by
    rw [List.length_take, List.length_drop]
    omega
  obtain ⟨block', hpoke, hblock, hholds⟩ := h.poke hsized hd (by rwa [hlen])
  rw [hlen] at hholds
  refine ⟨block', ?_, hblock, hholds⟩
  rw [Slots.memmove, h.peek_many hs]
  exact hpoke

end Slots
