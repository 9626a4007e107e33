import Mathlib.Data.List.DropRight
import UtilVserver.Lib.Slots
import UtilVserver.PathInfo

/-!
# `PathInfo_append` in memory (`src/lib_internal/pathinfo-append.c`)

The function with its pointers: a read behind the memory of a path, or a write behind the buffer,
has no result.

* `Path`, `ENSC_PI_APPSZ` — the structure and the size of the buffer.
* `trim`, `skip`, `append` — the two loops and the function.
* `joined` — what the result should be.

Principal results: `joined_eq` (it is the path that `PathInfo.append` gives) and `append_spec` (it
is what stands in the buffer).
-/

set_option autoImplicit false

namespace PathAppend

open CString Slots

/-- `PathInfo`: the memory from `d` on, and the stored length. -/
structure Path where
  d : List Char
  l : Nat

/-- The size of `"/"` counts its NUL. -/
def ENSC_PI_APPSZ (p₁ p₂ : Path) : Nat := p₁.l + 2 + p₂.l

/-- The slashes at the end of `lhs` are cut off, up to its first character. -/
def trim (d : List Char) : Nat → Option Nat
  | l + 2 => (d[l + 1]?).bind fun c => if c = '/' then trim d (l + 1) else some (l + 2)
  | l => some l

/-- The slashes at the start of `rhs`: `rhs_ptr` and `rhs_len` behind them. -/
def skip : List Char → Nat → Option (List Char × Nat)
  | [], _ => none
  | c :: t, len => if c = '/' then skip t (len - 1) else some (c :: t, len)

/-- `Xmemcpy`, with the place behind what was copied. -/
def Xmemcpy (buf : List Char) (ptr : Nat) (src : List Char) (n : Nat) :
    Option (List Char × Nat) :=
  (peek 0 n src).bind fun cells => (poke ptr cells buf).map fun buf => (buf, ptr + n)

/-- The part before `rhs`. -/
def copyLeft (lhs : Path) (l : Nat) (buf : List Char) : Option (List Char × Nat) :=
  (Xmemcpy buf 0 lhs.d l).bind fun (buf, ptr) =>
    (buf[ptr - 1]?).bind fun c =>
      if c ≠ '/' then Xmemcpy buf ptr ['/', '\x00'] 1 else some (buf, ptr)

def append (lhs rhs : Path) (buf : List Char) : Option Path :=
  (trim lhs.d lhs.l).bind fun l =>
    (if 0 < l then
      (if 0 < rhs.l then skip rhs.d rhs.l else some (rhs.d, rhs.l)).bind fun right =>
        (copyLeft lhs l buf).map fun left => (right, left)
    else some ((rhs.d, rhs.l), (buf, 0))).bind fun (right, left) =>
      (Xmemcpy left.1 left.2 right.1 (right.2 + 1)).map fun (buf, ptr) => ⟨buf, ptr - 1⟩

/-- A NUL-terminated path with the memory behind it. -/
def path (t : CStr) (behind : List Char) : Path := ⟨t.text ++ '\x00' :: behind, t.text.length⟩

/-- The left part without the slashes at its end, one slash, and the right part without the slashes
at its start. -/
def joined (left right : Text) : Text :=
  if left = [] then right
  else left.rdropWhile (· = '/') ++ '/' :: right.dropWhile (· = '/')

/-! ## The joined path -/

theorem dropSlashes_append_slash {t : Text} (h : t ≠ []) :
    PathInfo.dropSlashes (t ++ ['/']) = PathInfo.dropSlashes t := by
  have hlen : 1 < (t ++ ['/']).length := by
    have := List.length_pos_iff.2 h
    rw [List.length_append, List.length_singleton]
    omega
  rw [PathInfo.dropSlashes, if_pos ⟨hlen, List.getLast?_concat⟩, List.dropLast_concat]

theorem dropSlashes_append_of_ne {t : Text} {c : Char} (h : c ≠ '/') :
    PathInfo.dropSlashes (t ++ [c]) = t ++ [c] := by
  apply PathInfo.dropSlashes_eq
  rintro ⟨-, hlast⟩
  rw [List.getLast?_concat, Option.some.injEq] at hlast
  exact h hlast

/-- What stands before the right part. -/
theorem stem_eq {t : Text} (h : t ≠ []) : PathInfo.stem t = t.rdropWhile (· = '/') ++ ['/'] := by
  induction t using List.reverseRecOn with
  | nil => exact absurd rfl h
  | append_singleton t c ih =>
    by_cases hc : c = '/'
    · subst hc
      rw [List.rdropWhile_concat_pos _ _ _ (by simp)]
      by_cases ht : t = []
      · rw [ht, List.nil_append, PathInfo.stem, PathInfo.dropSlashes_eq (by simp)]
        rfl
      · rw [← ih ht, PathInfo.stem, PathInfo.stem, dropSlashes_append_slash ht]
    · rw [List.rdropWhile_concat_neg _ _ _ (by simpa using hc), PathInfo.stem,
        dropSlashes_append_of_ne hc]
      simp [hc]

theorem dropSlashes_ne_nil {t : Text} (h : t ≠ []) : PathInfo.dropSlashes t ≠ [] := by
  intro hnil
  have hstem := stem_eq h
  rw [PathInfo.stem, hnil] at hstem
  simp at hstem

/-- **The joined path is the one that the callers' model has.** -/
theorem joined_eq (left right : Text) : joined left right = PathInfo.append left right := by
  unfold joined PathInfo.append
  by_cases hl : left = []
  · subst hl
    rw [if_pos rfl, PathInfo.dropSlashes_eq (by simp)]
    rfl
  · have hstem := stem_eq hl
    have hne := dropSlashes_ne_nil hl
    rw [PathInfo.stem] at hstem
    simp only [hne, if_false] at hstem ⊢
    rw [if_neg hl, hstem, List.append_assoc, List.singleton_append]

/-- The joined path is no longer than its parts and a slash. -/
theorem joined_length (left right : Text) :
    (joined left right).length ≤ left.length + 1 + right.length := by
  unfold joined
  split
  · omega
  · have hl := (List.rdropWhile_prefix (· = '/') left).length_le
    have hr := (List.dropWhile_suffix (l := right) (· = '/')).length_le
    rw [List.length_append, List.length_cons]
    omega

theorem joined_noNul {left right : CStr} : '\x00' ∉ joined left.text right.text := by
  unfold joined
  split
  · exact right.noNul
  · intro h
    rw [List.mem_append, List.mem_cons] at h
    obtain h | h | h := h
    · exact left.noNul ((List.rdropWhile_prefix _ _).subset h)
    · exact absurd h (by decide)
    · exact right.noNul ((List.dropWhile_suffix _).subset h)

/-! ## The loops -/

theorem trim_spec (t r : List Char) :
    trim (t ++ r) t.length = some (PathInfo.dropSlashes t).length := by
  induction t using List.reverseRecOn generalizing r with
  | nil => rw [PathInfo.dropSlashes_eq (by simp)]; rfl
  | append_singleton t c ih =>
    rw [List.length_append, List.length_singleton]
    cases t with
    | nil => rw [PathInfo.dropSlashes_eq (by simp)]; rfl
    | cons x t =>
      have hget : (x :: t ++ [c] ++ r)[(x :: t).length]? = some c := by
        rw [List.append_assoc, List.getElem?_append_right (Nat.le_refl _), Nat.sub_self]
        rfl
      show ((x :: t ++ [c] ++ r)[(x :: t).length]?).bind _ = _
      rw [hget, Option.bind_some]
      by_cases hc : c = '/'
      · subst hc
        rw [if_pos rfl, dropSlashes_append_slash (List.cons_ne_nil x t), List.append_assoc]
        exact ih (['/'] ++ r)
      · rw [if_neg hc, dropSlashes_append_of_ne hc]
        simp

theorem skip_spec {t : Text} (r : List Char) :
    skip (t ++ '\x00' :: r) t.length =
      some (t.dropWhile (· = '/') ++ '\x00' :: r, (t.dropWhile (· = '/')).length) := by
  induction t with
  | nil => rfl
  | cons c t ih =>
    rw [List.cons_append, skip, List.length_cons, Nat.add_sub_cancel]
    by_cases hc : c = '/'
    · rw [if_pos hc, ih, List.dropWhile_cons_of_pos (by simpa using hc)]
    · rw [if_neg hc, List.dropWhile_cons_of_neg (by simpa using hc)]
      rfl

/-! ## The buffer -/

/-- What is copied follows what is there. -/
theorem Xmemcpy_spec (written src buf : List Char) (r : List Char) (h : src.length ≤ buf.length) :
    Xmemcpy (written ++ buf) written.length (src ++ r) src.length =
      some (written ++ src ++ buf.drop src.length, written.length + src.length) := by
  have hpeek : peek 0 src.length (src ++ r) = some src := by
    rw [peek, if_pos (by rw [List.length_append]; omega), List.drop_zero, List.take_left]
  have hpoke : poke written.length src (written ++ buf) =
      some (written ++ src ++ buf.drop src.length) := by
    rw [poke, if_pos (by rw [List.length_append]; omega), List.take_left, List.drop_append,
      List.drop_of_length_le (by omega), List.nil_append, Nat.add_sub_cancel_left]
  rw [Xmemcpy, hpeek, Option.bind_some, hpoke]
  rfl

theorem dropSlashes_prefix (t : Text) : PathInfo.dropSlashes t <+: t := by
  fun_induction PathInfo.dropSlashes t with
  | case1 t h ih => exact ih.trans (List.dropLast_prefix t)
  | case2 t h => exact List.prefix_rfl

theorem copyLeft_spec {t : Text} (ht : t ≠ []) (r buf : List Char)
    (hbuf : (PathInfo.stem t).length ≤ buf.length) :
    copyLeft ⟨t ++ r, t.length⟩ (PathInfo.dropSlashes t).length buf =
      some (PathInfo.stem t ++ buf.drop (PathInfo.stem t).length, (PathInfo.stem t).length) := by
  obtain ⟨cut, hcut⟩ := dropSlashes_prefix t
  have hne := dropSlashes_ne_nil ht
  generalize hd : PathInfo.dropSlashes t = d at *
  have hstem : PathInfo.stem t = if d.getLast hne ≠ '/' then d ++ ['/'] else d := by
    unfold PathInfo.stem
    simp only [hd, hne, if_false, List.getLast?_eq_some_getLast hne, Option.some.injEq, ite_not]
  have hle : d.length ≤ buf.length := by
    rw [hstem] at hbuf
    split at hbuf
    · rw [List.length_append] at hbuf
      omega
    · exact hbuf
  have hcopy := Xmemcpy_spec [] d buf (cut ++ r) hle
  rw [List.nil_append, List.nil_append, List.length_nil, Nat.zero_add, ← List.append_assoc,
    hcut] at hcopy
  have hlast : (d ++ buf.drop d.length)[d.length - 1]? = some (d.getLast hne) := by
    have hpos := List.length_pos_iff.2 hne
    rw [List.getElem?_append_left (by omega), ← List.getLast?_eq_getElem?,
      List.getLast?_eq_some_getLast hne]
  rw [copyLeft, hcopy, Option.bind_some]
  simp only [hlast, Option.bind_some]
  by_cases hslash : d.getLast hne ≠ '/'
  · rw [if_pos hslash] at hstem ⊢
    have hroom : ['/'].length ≤ (buf.drop d.length).length := by
      rw [hstem, List.length_append] at hbuf
      rw [List.length_drop]
      omega
    have hone := Xmemcpy_spec d ['/'] _ ['\x00'] hroom
    rw [List.drop_drop] at hone
    rw [hstem, List.length_append]
    exact hone
  · rw [if_neg hslash] at hstem ⊢
    rw [hstem]

/-- **What stands in the buffer**: the joined path and its NUL, and behind them what was there; the
stored length is that of the path, and the buffer needs no more than the size computed for it. -/
theorem append_spec (left right : CStr) (r₁ r₂ buf : List Char)
    (hbuf : buf.length = ENSC_PI_APPSZ (path left r₁) (path right r₂)) :
    append (path left r₁) (path right r₂) buf =
        some ⟨joined left.text right.text ++ '\x00' ::
          buf.drop ((joined left.text right.text).length + 1),
          (joined left.text right.text).length⟩ ∧
      '\x00' ∉ joined left.text right.text ∧
      (joined left.text right.text).length + 1 ≤ ENSC_PI_APPSZ (path left r₁) (path right r₂) := by
  have hlen := joined_length left.text right.text
  have hsize : ENSC_PI_APPSZ (path left r₁) (path right r₂) =
      left.text.length + 2 + right.text.length := rfl
  refine ⟨?_, joined_noNul, by omega⟩
  obtain ⟨l, hl⟩ := left
  obtain ⟨t, ht⟩ := right
  simp only at hlen hsize ⊢
  have htrim : trim (path ⟨l, hl⟩ r₁).d l.length = some (PathInfo.dropSlashes l).length :=
    trim_spec l ('\x00' :: r₁)
  rw [append, show (path ⟨l, hl⟩ r₁).l = l.length from rfl, htrim, Option.bind_some]
  by_cases hnil : l = []
  · subst hnil
    have hcopy := Xmemcpy_spec [] (t ++ ['\x00']) buf r₂ (by
      rw [List.length_append, List.length_singleton]
      omega)
    rw [PathInfo.dropSlashes_eq (by simp), List.length_nil, if_neg (Nat.lt_irrefl 0),
      Option.bind_some]
    rw [List.append_assoc, List.nil_append, List.nil_append, List.length_append] at hcopy
    rw [show joined [] t = t from if_pos rfl]
    show (Xmemcpy buf 0 (t ++ (['\x00'] ++ r₂)) (t.length + 1)).map _ = _
    rw [show Xmemcpy buf 0 (t ++ (['\x00'] ++ r₂)) (t.length + 1) = _ from hcopy, Option.map_some]
    simp
  · have hpos : 0 < (PathInfo.dropSlashes l).length :=
      List.length_pos_iff.2 (dropSlashes_ne_nil hnil)
    have hright : (if 0 < t.length then skip (path ⟨t, ht⟩ r₂).d t.length
        else some ((path ⟨t, ht⟩ r₂).d, t.length)) =
          some (t.dropWhile (· = '/') ++ '\x00' :: r₂, (t.dropWhile (· = '/')).length) := by
      cases t with
      | nil => rfl
      | cons c t => exact skip_spec r₂
    have hstem := stem_eq hnil
    have hjoined : joined l t = PathInfo.stem l ++ t.dropWhile (· = '/') := by
      rw [joined, if_neg hnil, hstem, List.append_assoc, List.singleton_append]
    rw [hjoined, List.length_append] at hlen ⊢
    have hleft := copyLeft_spec hnil ('\x00' :: r₁) buf (by omega)
    generalize t.dropWhile (· = '/') = right at *
    generalize PathInfo.stem l = stem at *
    have hcopy := Xmemcpy_spec stem (right ++ ['\x00']) (buf.drop stem.length) r₂ (by
        rw [List.length_append, List.length_singleton, List.length_drop]
        omega)
    rw [List.append_assoc, List.length_append, List.length_singleton, List.drop_drop] at hcopy
    rw [if_pos hpos, show (path ⟨t, ht⟩ r₂).l = t.length from rfl, hright, Option.bind_some,
      show copyLeft (path ⟨l, hl⟩ r₁) _ buf = _ from hleft, Option.map_some, Option.bind_some]
    show (Xmemcpy (stem ++ buf.drop stem.length) stem.length (right ++ (['\x00'] ++ r₂))
      (right.length + 1)).map _ = _
    rw [hcopy, Option.map_some, ← Nat.add_assoc]
    simp

theorem append_spec_slashes :
    append (path ⟨"/usr//".toList, by decide⟩ []) (path ⟨"/bin".toList, by decide⟩ [])
        (List.replicate 12 '-') =
      some ⟨"/usr/bin".toList ++ '\x00' :: "---".toList, 8⟩ :=
  (append_spec ⟨"/usr//".toList, by decide⟩ ⟨"/bin".toList, by decide⟩ [] []
    (List.replicate 12 '-') rfl).1

end PathAppend
