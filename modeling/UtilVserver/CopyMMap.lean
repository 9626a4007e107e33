import UtilVserver.Lib.Slots
import UtilVserver.UnifyCopy

/-!
# The blocks of `copyMMap` (`src/lib_internal/unify-copy.c`)

The copy with its pointers and offsets: an access outside of a mapped block or of the files has no
result.

* `copyUnits`, `copyMem` — the loop over the words and the one over the rest.
* `copyBlocks`, `copyMMap` — the loop over the blocks, with the blocks it visits.

Principal results: `copyMem_eq` and `copyMMap_refines` (the pointers do what `UnifyCopy` says), and
`copyMMap_exact` (which blocks are visited, and what is in the new file).
-/

set_option autoImplicit false

namespace CopyMMap

open Slots UnifyCopy

/-- `n` units from `off` on; units that are zero are not written. -/
def copyUnits (size : Nat) (src : List UInt8) : Nat → Nat → List UInt8 → Option (List UInt8)
  | 0, _, dst => some dst
  | n + 1, off, dst =>
    (peek off size src).bind fun unit =>
      (if unit ≠ List.replicate size 0 then poke off unit dst else some dst).bind fun dst =>
        copyUnits size src n (off + size) dst

/-- `sizeof(int)` -/
def sizeofInt : Nat := 4

def copyMem (dst src : List UInt8) (len_v : Nat) : Option (List UInt8) :=
  let len := len_v / sizeofInt
  let rest := len_v - sizeofInt * len
  (copyUnits sizeofInt src len 0 dst).bind fun dst => copyUnits 1 src rest (sizeofInt * len) dst

/-- The result, the content of the new file, and the offsets and sizes of the blocks. -/
structure Run where
  res : Bool
  out : List UInt8
  visited : List (Nat × Nat)

/-- The bytes of both files are mapped, and `len` of them copied. -/
def copyBlock (src out : List UInt8) (offset buf_size len : Nat) : Option (List UInt8) :=
  (peek offset buf_size src).bind fun in_buf =>
    (peek offset buf_size out).bind fun out_buf =>
      (copyMem out_buf in_buf len).bind fun out_buf => poke offset out_buf out

/-- The loop of `copyMMap`; `n` counts the blocks. -/
def copyBlocks (c : Calls) (src : List UInt8) (n offset : Nat) (out : List UInt8) : Option Run :=
  if offset < src.length then
    let buf_size := min (src.length - offset) mmapBlocksize
    match c.block n with
    | .unmapped => some ⟨false, out, []⟩
    | .bus k =>
      (copyBlock src out offset buf_size (min k buf_size)).map fun out =>
        ⟨false, out, [(offset, buf_size)]⟩
    | .copied =>
      (copyBlock src out offset buf_size buf_size).bind fun out =>
        (copyBlocks c src (n + 1) (offset + buf_size) out).map fun run =>
          { run with visited := (offset, buf_size) :: run.visited }
  else some ⟨true, out, []⟩
  termination_by src.length - offset
  decreasing_by
    have hsize : 0 < mmapBlocksize := by decide
    omega

/-- `copyMMap` into a file that has just been created; `ftruncate` makes a hole. -/
def copyMMap (c : Calls) (src : List UInt8) : Option Run :=
  let in_len := src.length
  if !c.lseek then some ⟨false, [], []⟩
  else if in_len > 0 && !c.ftruncate then some ⟨false, [], []⟩
  else copyBlocks c src 0 0 (List.replicate in_len 0)

/-! ## One block -/

/-- One unit is copied, and the loop goes on behind it. -/
theorem copyUnits_step {p q u d : List UInt8} (hp : p.length = q.length) (hd : d.length = u.length)
    (n : Nat) (src dst : List UInt8) :
    copyUnits u.length (p ++ (u ++ src)) (n + 1) p.length (q ++ (d ++ dst)) =
      copyUnits u.length (p ++ (u ++ src)) n (p ++ u).length
        (q ++ ((if u ≠ List.replicate u.length 0 then u else d) ++ dst)) := by
  rw [copyUnits, peek_append, Option.bind_some, List.length_append]
  split
  · rw [hp, poke_append hd.symm, Option.bind_some]
  · rw [Option.bind_some]

theorem exists_three {t : List UInt8} (h : 3 ≤ t.length) :
    ∃ a b c u, t = a :: b :: c :: u := by
  match t, h with
  | a :: b :: c :: u, _ => exact ⟨a, b, c, u, rfl⟩

/-- The bytes are reached when there is no word left. -/
theorem length_lt_three {dst src : List UInt8} (hle : src.length ≤ dst.length)
    (hlong : ∀ d₁ d₂ d₃ dst' s₁ s₂ s₃ src',
      dst = d₁ :: d₂ :: d₃ :: dst' → src = s₁ :: s₂ :: s₃ :: src' → False) : src.length < 3 := by
  by_contra h
  obtain ⟨s₁, s₂, s₃, src', rfl⟩ := exists_three (Nat.le_of_not_lt h)
  obtain ⟨d₁, d₂, d₃, dst', rfl⟩ := exists_three ((Nat.le_of_not_lt h).trans hle)
  exact hlong d₁ d₂ d₃ dst' s₁ s₂ s₃ src' rfl rfl

theorem eq_nil_of_end {dst src : List UInt8} (hle : src.length ≤ dst.length)
    (hshort : ∀ d dst' s src', dst = d :: dst' → src = s :: src' → False) : src = [] := by
  cases src with
  | nil => rfl
  | cons s src =>
    cases dst with
    | nil => exact absurd hle (by simp)
    | cons d dst => exact (hshort d dst s src rfl rfl).elim

/-- Behind the same number of bytes of both; `r` is what follows in the source. -/
theorem copyMem_loops {dst src : List UInt8} (r : List UInt8) (hlen : src.length ≤ dst.length) :
    ∀ {p q : List UInt8}, p.length = q.length →
    ((copyUnits 4 (p ++ (src ++ r)) (src.length / 4) p.length (q ++ dst)).bind fun dst =>
        copyUnits 1 (p ++ (src ++ r)) (src.length - 4 * (src.length / 4))
          (p.length + 4 * (src.length / 4)) dst) =
      some (q ++ UnifyCopy.copyMem dst src) := by
  fun_induction UnifyCopy.copyMem dst src with
  | case1 d₀ d₁ d₂ d₃ dst s₀ s₁ s₂ s₃ src ih =>
    intro p q hp
    have hn : (s₀ :: s₁ :: s₂ :: s₃ :: src).length / 4 = src.length / 4 + 1 := by
      simp only [List.length_cons]
      omega
    have hrest : (s₀ :: s₁ :: s₂ :: s₃ :: src).length - 4 * (src.length / 4 + 1) =
        src.length - 4 * (src.length / 4) := by
      simp only [List.length_cons]
      omega
    have hle : src.length ≤ dst.length := by
      simp only [List.length_cons] at hlen
      omega
    have hoff : p.length + 4 * (src.length / 4 + 1) =
        p.length + [s₀, s₁, s₂, s₃].length + 4 * (src.length / 4) := by
      rw [Nat.mul_add, Nat.add_comm _ (4 * 1), ← Nat.add_assoc]
      rfl
    have hstep := copyUnits_step (u := [s₀, s₁, s₂, s₃]) (d := [d₀, d₁, d₂, d₃]) hp rfl
      (src.length / 4) (src ++ r) dst
    have hih := ih hle (p := p ++ [s₀, s₁, s₂, s₃])
      (q := q ++ if [s₀, s₁, s₂, s₃] ≠ [0, 0, 0, 0] then [s₀, s₁, s₂, s₃] else [d₀, d₁, d₂, d₃])
      (by split <;> simp [hp])
    rw [List.append_assoc, List.append_assoc, List.append_assoc, List.length_append] at hih
    rw [hn, hrest, hoff]
    refine Eq.trans (congrArg (Option.bind · _) hstep) ?_
    rw [List.length_append]
    exact hih
  | case2 d dst s src hlong ih =>
    intro p q hp
    have hle : src.length ≤ dst.length := by
      simp only [List.length_cons] at hlen
      omega
    have hshort := length_lt_three hle hlong
    have hzero : src.length / 4 = 0 := by omega
    have hzero' : (s :: src).length / 4 = 0 := by
      rw [List.length_cons]
      omega
    have hunit : (if [s] ≠ List.replicate [s].length 0 then [s] else [d]) =
        [if s ≠ 0 then s else d] := by
      by_cases hs : s = 0
      · simp [hs]
      · simp [hs]
    have hstep := copyUnits_step (u := [s]) (d := [d]) hp rfl src.length (src ++ r) dst
    have hih := ih hle (p := p ++ [s]) (q := q ++ [if s ≠ 0 then s else d]) (by simp [hp])
    rw [hunit] at hstep
    rw [hzero, List.append_assoc, List.append_assoc, List.append_assoc] at hih
    rw [hzero']
    exact hstep.trans hih
  | case3 dst src hlong hshort =>
    intro p q hp
    have hnil := eq_nil_of_end hlen hshort
    subst hnil
    rfl

/-- **The loops over words and bytes** copy as many bytes as they are told. -/
theorem copyMem_eq (dst src : List UInt8) (r : List UInt8) (hlen : src.length ≤ dst.length) :
    copyMem dst (src ++ r) src.length = some (UnifyCopy.copyMem dst src) := by
  have h := copyMem_loops r hlen (p := []) (q := []) rfl
  rw [List.length_nil, Nat.zero_add] at h
  exact h

theorem copyMem_length (dst src : List UInt8) :
    (UnifyCopy.copyMem dst src).length = dst.length := by
  fun_induction UnifyCopy.copyMem dst src with
  | case1 d₀ d₁ d₂ d₃ dst s₀ s₁ s₂ s₃ src ih =>
    rw [List.length_append, ih]
    split <;> simp only [List.length_cons, List.length_nil] <;> omega
  | case2 d dst s src hlong ih => rw [List.length_cons, ih, List.length_cons]
  | case3 => rfl

theorem copyMem_nil : ∀ dst : List UInt8, UnifyCopy.copyMem dst [] = dst
  | [] => rfl
  | [_] => rfl
  | [_, _] => rfl
  | [_, _, _] => rfl
  | _ :: _ :: _ :: _ :: _ => rfl

/-- What lies behind the copied bytes stays. -/
theorem copyMem_behind (dst src : List UInt8) (e : List UInt8) (hlen : src.length ≤ dst.length) :
    UnifyCopy.copyMem (dst ++ e) src = UnifyCopy.copyMem dst src ++ e := by
  fun_induction UnifyCopy.copyMem dst src with
  | case1 d₀ d₁ d₂ d₃ dst s₀ s₁ s₂ s₃ src ih =>
    have hle : src.length ≤ dst.length := by
      simp only [List.length_cons] at hlen
      omega
    simp only [List.cons_append]
    rw [UnifyCopy.copyMem, ih hle, List.append_assoc]
  | case2 d dst s src hlong ih =>
    have hle : src.length ≤ dst.length := by
      simp only [List.length_cons] at hlen
      omega
    have hshort := length_lt_three hle hlong
    rw [List.cons_append, UnifyCopy.copyMem, ih hle, List.cons_append]
    intro d₁ d₂ d₃ dst' s₁ s₂ s₃ src' _ hsrc
    rw [hsrc] at hshort
    simp only [List.length_cons] at hshort
    omega
  | case3 dst src hlong hshort =>
    have hnil := eq_nil_of_end hlen hshort
    subst hnil
    rw [copyMem_nil]

/-! ## The blocks -/

variable {c : Calls} {p q rest dst : List UInt8} {b len : Nat}

theorem copyBlock_eq (hp : p.length = q.length) (hdst : dst.length = rest.length)
    (hb : b ≤ rest.length) (hlen : len ≤ b) :
    copyBlock (p ++ rest) (q ++ dst) p.length b len =
      some (q ++ UnifyCopy.copyMem dst (rest.take len)) := by
  have hsrc : (rest.take b).length = b := List.length_take_of_le hb
  have hout : (dst.take b).length = b := List.length_take_of_le (hdst ▸ hb)
  have htake : (rest.take len).length = len := List.length_take_of_le (hlen.trans hb)
  have hpeek : peek p.length b (p ++ rest) = some (rest.take b) := by
    have h := peek_append (p := p) (t := rest.take b) (rest.drop b)
    rwa [List.take_append_drop, hsrc] at h
  have hpeek' : peek p.length b (q ++ dst) = some (dst.take b) := by
    have h := peek_append (p := q) (t := dst.take b) (dst.drop b)
    rwa [List.take_append_drop, hout, ← hp] at h
  have hcopy : copyMem (dst.take b) (rest.take b) len =
      some (UnifyCopy.copyMem (dst.take b) (rest.take len)) := by
    have h := copyMem_eq (dst.take b) (rest.take len) ((rest.take b).drop len)
      (by rw [htake, hout]; exact hlen)
    have hsplit : rest.take len ++ (rest.take b).drop len = rest.take b := by
      have h := List.take_append_drop len (rest.take b)
      rwa [List.take_take, Nat.min_eq_left hlen] at h
    rwa [hsplit, htake] at h
  have hpoke := poke_append (p := q) (t := dst.take b) (u := dst.drop b)
    (copyMem_length (dst.take b) (rest.take len))
  rw [List.take_append_drop, ← copyMem_behind _ _ _ (by rw [htake, hout]; exact hlen),
    List.take_append_drop, ← hp] at hpoke
  rw [copyBlock, hpeek, Option.bind_some, hpeek', Option.bind_some, hcopy, Option.bind_some, hpoke]

/-- The blocks are the first `k` bytes from `off` on, in their order. -/
structure Covers (visited : List (Nat × Nat)) (off k : Nat) : Prop where
  bytes : visited.flatMap (fun b => List.range' b.1 b.2) = List.range' off k
  aligned : ∀ b ∈ visited, b.1 % mmapBlocksize = 0 ∧ 0 < b.2 ∧ b.2 ≤ mmapBlocksize

theorem covers_nil (off : Nat) : Covers [] off 0 := ⟨rfl, nofun⟩

theorem Covers.cons {visited : List (Nat × Nat)} {off k b : Nat} (h : Covers visited (off + b) k)
    (hoff : off % mmapBlocksize = 0) (hpos : 0 < b) (hb : b ≤ mmapBlocksize) :
    Covers ((off, b) :: visited) off (b + k) := by
  refine ⟨?_, ?_⟩
  · rw [List.flatMap_cons, h.bytes, ← List.range'_append_1]
  · intro x hx
    obtain rfl | hx := List.mem_cons.1 hx
    · exact ⟨hoff, hpos, hb⟩
    · exact h.aligned x hx

/-- **The loop over the offsets** does what is said of the rest of both files. -/
theorem copyBlocks_refines (n : Nat) (hp : p.length = q.length) (hdst : dst.length = rest.length)
    (hoff : rest ≠ [] → p.length % mmapBlocksize = 0) :
    ∃ visited k, copyBlocks c (p ++ rest) n p.length (q ++ dst) =
        some ⟨(UnifyCopy.copyBlocks c rest dst n).1, q ++ (UnifyCopy.copyBlocks c rest dst n).2,
          visited⟩ ∧
      Covers visited p.length k ∧ k ≤ rest.length ∧
      ((UnifyCopy.copyBlocks c rest dst n).1 = true → k = rest.length) := by
  have hsize : 0 < mmapBlocksize := by decide
  fun_induction UnifyCopy.copyBlocks c rest dst n generalizing p q with
  | case1 dst n =>
    refine ⟨[], 0, ?_, covers_nil _, Nat.le_refl 0, fun _ => rfl⟩
    rw [copyBlocks, if_neg (by simp)]
  | case2 dst n s src hblock =>
    refine ⟨[], 0, ?_, covers_nil _, Nat.zero_le _, fun h => absurd h Bool.false_ne_true⟩
    rw [copyBlocks, if_pos (by simp), hblock]
  | case3 dst n s src bufSize k =>
    rename_i hblock
    have hb : bufSize = min ((p ++ s :: src).length - p.length) mmapBlocksize := by
      rw [List.length_append, Nat.add_sub_cancel_left, List.length_cons]
    have hle : bufSize ≤ (s :: src).length := Nat.min_le_left _ _
    have hpos : 0 < bufSize := Nat.lt_min.2 ⟨by omega, hsize⟩
    have hbig : bufSize ≤ mmapBlocksize := Nat.min_le_right _ _
    have hcopy := copyBlock_eq hp hdst hle (Nat.min_le_right k bufSize)
    refine ⟨[(p.length, bufSize)], bufSize, ?_, ?_, hle, fun h => absurd h Bool.false_ne_true⟩
    · rw [copyBlocks, if_pos (by simp), hblock, ← hb]
      simp only [hcopy]
      rfl
    · exact (covers_nil _).cons (hoff (List.cons_ne_nil _ _)) hpos hbig
  | case4 dst n s src bufSize hblock block res rest =>
    rename_i hrec ih
    have hb : bufSize = min ((p ++ s :: src).length - p.length) mmapBlocksize := by
      rw [List.length_append, Nat.add_sub_cancel_left, List.length_cons]
    have hle : bufSize ≤ (s :: src).length := Nat.min_le_left _ _
    have hpos : 0 < bufSize := Nat.lt_min.2 ⟨by omega, hsize⟩
    have hbig : bufSize ≤ mmapBlocksize := Nat.min_le_right _ _
    have hcopy := copyBlock_eq hp hdst hle (Nat.le_refl bufSize)
    have hsplit : UnifyCopy.copyMem dst ((s :: src).take bufSize) = block ++ dst.drop bufSize := by
      have htake : ((s :: src).take bufSize).length = bufSize := List.length_take_of_le hle
      have h := copyMem_behind (dst.take bufSize) ((s :: src).take bufSize)
        (dst.drop bufSize) (by rw [htake, List.length_take_of_le (hdst ▸ hle)])
      rwa [List.take_append_drop] at h
    have hlen : block.length = bufSize := by
      rw [copyMem_length, List.length_take_of_le (hdst ▸ hle)]
    have hnext : (p ++ (s :: src).take bufSize).length = p.length + bufSize := by
      rw [List.length_append, List.length_take_of_le hle]
    have hlast : (s :: src).drop bufSize ≠ [] →
        (p ++ (s :: src).take bufSize).length % mmapBlocksize = 0 := by
      intro hne
      have hmore : bufSize < (s :: src).length := by
        by_contra h
        exact hne (List.drop_of_length_le (by omega))
      have hfull : bufSize = mmapBlocksize := by
        simp only [List.length_cons] at hmore
        omega
      rw [hnext, hfull, Nat.add_mod_right]
      exact hoff (List.cons_ne_nil _ _)
    obtain ⟨visited, k, hrun, hcovers, hk, hdone⟩ := ih
      (p := p ++ (s :: src).take bufSize) (q := q ++ block)
      (by rw [hnext, List.length_append, hlen, hp])
      (by rw [List.length_drop, List.length_drop, hdst]) hlast
    rw [hrec, List.append_assoc, List.append_assoc, List.append_assoc, List.take_append_drop,
      hnext] at hrun
    rw [hnext] at hcovers
    rw [hrec] at hdone
    rw [List.length_drop] at hk hdone
    refine ⟨(p.length, bufSize) :: visited, bufSize + k, ?_,
      hcovers.cons (hoff (List.cons_ne_nil _ _)) hpos hbig, by omega, fun h => ?_⟩
    · rw [copyBlocks, if_pos (by simp), hblock, ← hb]
      simp only [hcopy, Option.bind_some]
      rw [hsplit, hrun]
      rfl
    · have := hdone h
      omega

/-! ## The file -/

/-- **The copy** has the result and the content that are said of it, and visits the blocks in
order. -/
theorem copyMMap_refines (c : Calls) (src : List UInt8) :
    ∃ visited k, copyMMap c src = some ⟨(UnifyCopy.copyMMap c src).1,
        (UnifyCopy.copyMMap c src).2, visited⟩ ∧
      Covers visited 0 k ∧ k ≤ src.length ∧
      ((UnifyCopy.copyMMap c src).1 = true → k = src.length) := by
  unfold copyMMap UnifyCopy.copyMMap
  dsimp only
  by_cases hlseek : (!c.lseek) = true
  · rw [if_pos hlseek, if_pos hlseek]
    exact ⟨[], 0, rfl, covers_nil 0, Nat.zero_le _, fun h => absurd h Bool.false_ne_true⟩
  · rw [if_neg hlseek, if_neg hlseek]
    by_cases htrunc : (decide (src.length > 0) && !c.ftruncate) = true
    · rw [if_pos htrunc, if_pos htrunc]
      exact ⟨[], 0, rfl, covers_nil 0, Nat.zero_le _, fun h => absurd h Bool.false_ne_true⟩
    · rw [if_neg htrunc, if_neg htrunc]
      exact copyBlocks_refines (p := []) (q := []) 0 rfl List.length_replicate fun _ => rfl

/-- Without failing calls all blocks are copied. -/
theorem copyBlocks_works (h : ∀ n, c.block n = .copied) (n : Nat) :
    (UnifyCopy.copyBlocks c rest dst n).1 = true := by
  fun_induction UnifyCopy.copyBlocks c rest dst n with
  | case1 => rfl
  | case2 dst n s src hblock => rw [h n] at hblock; cases hblock
  | case3 dst n s src bufSize k => rename_i hblock; rw [h n] at hblock; cases hblock
  | case4 dst n s src bufSize hblock block res rest => rename_i hrec ih; rwa [hrec] at ih

/-- **The copy is exact**: it makes no access outside of the files and its blocks and comes to an
end; a copy that succeeds has the bytes of the source and has visited each of them once, in order,
in blocks that can be mapped; and it succeeds when no call fails. -/
theorem copyMMap_exact (c : Calls) (src : List UInt8) :
    ∃ run, copyMMap c src = some run ∧
      (run.res = true → run.out = src ∧
        run.visited.flatMap (fun b => List.range' b.1 b.2) = List.range src.length) ∧
      (∀ b ∈ run.visited, b.1 % mmapBlocksize = 0 ∧ 0 < b.2 ∧ b.2 ≤ mmapBlocksize) ∧
      (c.lseek = true → c.ftruncate = true → (∀ n, c.block n = .copied) → run.res = true) := by
  obtain ⟨visited, k, hrun, hcovers, -, hk⟩ := copyMMap_refines c src
  refine ⟨_, hrun, fun hres => ⟨copyMMap_spec c src hres, ?_⟩, hcovers.aligned, ?_⟩
  · rw [hcovers.bytes, hk hres, List.range_eq_range']
  · intro hlseek htrunc hblock
    show (UnifyCopy.copyMMap c src).1 = true
    rw [UnifyCopy.copyMMap, hlseek, htrunc]
    simp only [Bool.not_true, Bool.and_false, Bool.false_eq_true, if_false]
    exact copyBlocks_works hblock 0

end CopyMMap
