import UtilVserver.Vhashify

/-!
# The slots of a digest

Files with the same digest get the slots `<digest>-00000000`, `<digest>-00000001`, ... of the
store; `resolveCollisions` looks for the one a file belongs to.

* `Passed`, `Reached` — the slots in front of the one where the search ends.
* `Stops` — how it ends at a slot.
* `Returns` — it ends after finitely many rounds.

Principal results: `returns_iff` (the search ends at the first slot it does not pass),
`convertFrom_inj`, `slotName_inj` and `resolveCollisions_slot`.
-/

set_option autoImplicit false

namespace Vhashify

open CString FileSystem FS
open Unify (isUnified isUnifyable)

/-! ## The names -/

theorem hexDigit_inj : ∀ n < 16, ∀ m < 16, hexDigit n = hexDigit m → n = m := by
  decide

theorem hexDigit_byte_inj {b c : UInt8} (h1 : hexDigit (b.toNat / 16) = hexDigit (c.toNat / 16))
    (h2 : hexDigit (b.toNat % 16) = hexDigit (c.toNat % 16)) : b = c := by
  have hb := b.toNat_lt
  have hc := c.toNat_lt
  have hhigh := hexDigit_inj _ (by omega) _ (by omega) h1
  have hlow := hexDigit_inj _ (by omega) _ (by omega) h2
  exact UInt8.toNat_inj.mp (by omega)

theorem convertFrom_length (inp out : Nat) (digest : List UInt8) (h : out ≤ 98) :
    out + (convertFrom inp out digest).length ≤ 98 := by
  induction digest generalizing inp out with
  | nil => simpa [convertFrom] using h
  | cons b digest ih =>
    simp only [convertFrom]
    split
    · rename_i hroom
      generalize hs : (if (inp + 254) % (if inp ≤ 2 then 1 else 256) = 0 ∧ 0 < inp then ['/']
        else []) = slash
      have hslash : slash.length ≤ 1 := by
        rw [← hs]
        split_ifs <;> simp
      have hroom : out + 1 < 107 - 10 := hroom
      have := ih (inp + 1) (out + slash.length + 2) (by omega)
      simp only [List.length_append, List.length_cons]
      omega
    · simpa using h

/-- **The text of a digest, with its end, fits into a `HashPath`.** -/
theorem convertDigest_length (digest : List UInt8) :
    (convertDigest digest).length + 1 ≤ hashPathSize := by
  have := convertFrom_length 0 0 digest (by omega)
  show (convertFrom 0 0 digest).length + 1 ≤ 107
  omega

/-- Digests of at most `HASH_MAXBITS` are not cut off. -/
theorem convertFrom_inj {inp out : Nat} {d d' : List UInt8} (hlen : d.length = d'.length)
    (hmax : inp + d.length ≤ 32) (hout : out ≤ 2 * inp + min (inp - 1) 2)
    (h : convertFrom inp out d = convertFrom inp out d') : d = d' := by
  induction d generalizing d' inp out with
  | nil => exact (List.length_eq_zero_iff.mp hlen.symm).symm
  | cons b d ih =>
    cases d' with
    | nil => cases hlen
    | cons c d' =>
      have hlen : d.length = d'.length := by simpa using hlen
      have hmax : inp + (d.length + 1) ≤ 32 := by simpa using hmax
      have hroom : out + 1 < hashPathSize - (4 * 2 + 2) := by
        show out + 1 < 97
        omega
      simp only [convertFrom, if_pos hroom] at h
      generalize hs : (if (inp + 254) % (if inp ≤ 2 then 1 else 256) = 0 ∧ 0 < inp then ['/']
        else []) = slash at h
      have hslash : slash.length = 0 ∨ slash.length = 1 ∧ 0 < inp ∧ inp ≤ 2 := by
        rw [← hs]
        by_cases hpos : (inp + 254) % (if inp ≤ 2 then 1 else 256) = 0 ∧ 0 < inp
        · rw [if_pos hpos]
          refine .inr ⟨rfl, hpos.2, ?_⟩
          by_contra hbig
          have hmod := hpos.1
          rw [if_neg hbig] at hmod
          omega
        · rw [if_neg hpos]
          exact .inl rfl
      obtain ⟨hhigh, h⟩ := List.cons.inj (List.append_cancel_left h)
      obtain ⟨hlow, h⟩ := List.cons.inj h
      rw [hexDigit_byte_inj hhigh hlow, ih hlen (by omega) (by omega) h]

theorem convertFrom_sameLength {inp out : Nat} {d d' : List UInt8} (hlen : d.length = d'.length) :
    (convertFrom inp out d).length = (convertFrom inp out d').length := by
  induction d generalizing d' inp out with
  | nil => rw [List.length_eq_zero_iff.mp hlen.symm]
  | cons b d ih =>
    cases d' with
    | nil => cases hlen
    | cons c d' =>
      have hlen : d.length = d'.length := by simpa using hlen
      simp only [convertFrom]
      split
      · simp only [List.length_append, List.length_cons, ih hlen]
      · rfl

theorem slotNumber_length (idx : BitVec 32) : (slotNumber idx).length = 8 := by
  simp [slotNumber]

theorem slotName_length (base : Text) (idx : BitVec 32) :
    (slotName base idx).length = base.length + 9 := by
  simp [slotName, slotNumber_length]

/-- Eight hexadecimal digits tell all numbers apart. -/
theorem slotNumber_inj {i j : BitVec 32} (h : slotNumber i = slotNumber j) : i = j := by
  have hdigit : ∀ k, k < 8 → i.toNat / 16 ^ k % 16 = j.toNat / 16 ^ k % 16 := by
    intro k hk
    have hmem := List.map_inj_left.mp h k (by simp [hk])
    exact hexDigit_inj _ (by omega) _ (by omega) hmem
  have hmod : ∀ k ≤ 8, i.toNat % 16 ^ k = j.toNat % 16 ^ k := by
    intro k hk
    induction k with
    | zero => simp [Nat.mod_one]
    | succ k ih => rw [Nat.mod_pow_succ, Nat.mod_pow_succ, ih (by omega), hdigit k (by omega)]
  have h8 := hmod 8 (Nat.le_refl 8)
  rw [Nat.mod_eq_of_lt (show i.toNat < 16 ^ 8 from i.isLt),
    Nat.mod_eq_of_lt (show j.toNat < 16 ^ 8 from j.isLt)] at h8
  exact BitVec.eq_of_toNat_eq h8

/-- **A slot tells its directory, its digest and its number**, among digests of one size. -/
theorem slotName_inj {root root' : Text} {d d' : List UInt8} {i j : BitVec 32}
    (hlen : d.length = d'.length) (hmax : d.length * 8 ≤ 256)
    (h : slotName (root ++ convertDigest d) i = slotName (root' ++ convertDigest d') j) :
    root = root' ∧ d = d' ∧ i = j := by
  obtain ⟨hbase, hnum⟩ := List.append_inj' h (by simp [slotNumber_length])
  obtain ⟨hroot, hconv⟩ := List.append_inj' hbase (convertFrom_sameLength hlen)
  refine ⟨hroot, convertFrom_inj hlen (by omega) (by omega) hconv, ?_⟩
  exact slotNumber_inj (List.cons.inj hnum).2

/-! ## The search -/

variable {E : Type} [DecidableEq E]

section Search

variable (a : Args) (e : Env) (base : Text) (st : Stat) (fs : FS E)

omit [DecidableEq E] in
/-- A file is in the slot that is neither the same nor one like it. -/
def Passed (idx : BitVec 32) : Prop :=
  ∃ s, fs.lstat (slotName base idx) = some s ∧ isUnified st s = false ∧
    isUnifyable a.ignoreMtime st s = false

/-- All slots in front of `idx` are passed. -/
def Reached (idx : BitVec 32) : Prop := ∀ j : BitVec 32, j.toNat < idx.toNat → Passed a base st fs j

/-- The directories are made, and after that the exclusive creation of a free slot works. -/
def CallsWork : Prop :=
  ∃ fs₁, Mkdir.mkdirRecursive e.mkdir base fs = (true, fs₁) ∧
    ∀ idx, fs.lookup (slotName base idx) = none →
      ∃ fs₂, attempt e.openSlot (fs₁.create (slotName base idx) (e.mkdir.creator.file 0o200)) =
        some fs₂

/-- How the search ends at slot `idx`: the file itself is there, a file like it, or nothing, and
the slot is made. -/
inductive Stops (idx : BitVec 32) : Resolved → FS E → Prop
  | own {s : Stat} (hs : fs.lstat (slotName base idx) = some s)
      (hown : isUnified st s = true) : Stops idx .skip fs
  | like {s : Stat} (hs : fs.lstat (slotName base idx) = some s)
      (hown : isUnified st s = false) (hlike : isUnifyable a.ignoreMtime st s = true) :
      Stops idx (.slot (slotName base idx) s.size) fs
  | fresh {fs₁ fs₂ : FS E} (hfree : fs.lookup (slotName base idx) = none)
      (hmk : Mkdir.mkdirRecursive e.mkdir base fs = (true, fs₁))
      (hcreate : attempt e.openSlot (fs₁.create (slotName base idx)
        (e.mkdir.creator.file 0o200)) = some fs₂) :
      Stops idx (.slot (slotName base idx) 0) fs₂

/-- The search ends with `r`. -/
def Returns (r : Resolved) (fs' : FS E) : Prop :=
  ∃ fuel, resolveCollisions a e base st fs fuel 0 = some (r, fs')

end Search

section Search

variable {a : Args} {e : Env} {base : Text} {st : Stat} {fs fs' : FS E}

theorem resolve_passed {idx : BitVec 32} (h : Passed a base st fs idx) (fuel : Nat) :
    resolveCollisions a e base st fs (fuel + 1) idx =
      resolveCollisions a e base st fs fuel (idx + 1) := by
  obtain ⟨s, hs, hown, hlike⟩ := h
  rw [resolveCollisions]
  simp [hs, hown, hlike]

theorem Stops.resolve (hdry : a.dryRun = false) {idx : BitVec 32} {r : Resolved}
    (h : Stops a e base st fs idx r fs') (fuel : Nat) :
    resolveCollisions a e base st fs (fuel + 1) idx = some (r, fs') := by
  rw [resolveCollisions]
  cases h with
  | own hs hown => simp [hs, hown]
  | like hs hown hlike => simp [hs, hown, hlike]
  | fresh hfree hmk hcreate =>
    have hs : fs.lstat (slotName base idx) = none := Option.map_eq_none_iff.mpr hfree
    simp only [hs, hdry, hmk, hcreate, Bool.false_eq_true, if_false]

/-- A slot is passed, or the search ends there. -/
theorem passed_or_stops (hworks : CallsWork e base fs) (idx : BitVec 32) :
    Passed a base st fs idx ∨ ∃ r fs', Stops a e base st fs idx r fs' := by
  cases hs : fs.lstat (slotName base idx) with
  | some s =>
    cases hown : isUnified st s with
    | true => exact .inr ⟨_, _, .own hs hown⟩
    | false =>
      cases hlike : isUnifyable a.ignoreMtime st s with
      | true => exact .inr ⟨_, _, .like hs hown hlike⟩
      | false => exact .inl ⟨s, hs, hown, hlike⟩
  | none =>
    have hfree : fs.lookup (slotName base idx) = none := Option.map_eq_none_iff.mp hs
    obtain ⟨fs₁, hmk, hopen⟩ := hworks
    obtain ⟨fs₂, hcreate⟩ := hopen idx hfree
    exact .inr ⟨_, _, .fresh hfree hmk hcreate⟩

/-- The rounds that pass the slots in front of `n`. -/
theorem resolve_reached {n : Nat} (hn : n < 2 ^ 32)
    (h : ∀ j : BitVec 32, j.toNat < n → Passed a base st fs j) (fuel : Nat) :
    resolveCollisions a e base st fs (fuel + n) 0 =
      resolveCollisions a e base st fs fuel (BitVec.ofNat 32 n) := by
  induction n generalizing fuel with
  | zero => rfl
  | succ n ih =>
    have hpass : Passed a base st fs (BitVec.ofNat 32 n) := h _ (by
      rw [BitVec.toNat_ofNat]
      omega)
    have hstep := ih (by omega) (fun j hj => h j (by omega)) (fuel + 1)
    have hnext : BitVec.ofNat 32 n + 1 = BitVec.ofNat 32 (n + 1) := (BitVec.ofNat_add n 1).symm
    rw [resolve_passed hpass, hnext] at hstep
    rw [← hstep]
    congr 1
    omega

/-- A search that ends has passed the slots in front: when the number wraps around, all slots
have been passed. -/
theorem resolve_ends (hdry : a.dryRun = false) (hworks : CallsWork e base fs) {fuel : Nat}
    {idx : BitVec 32} {r : Resolved} (hreached : Reached a base st fs idx)
    (h : resolveCollisions a e base st fs fuel idx = some (r, fs')) :
    ∃ k, Reached a base st fs k ∧ Stops a e base st fs k r fs' := by
  induction fuel generalizing idx with
  | zero => cases h
  | succ fuel ih =>
    rcases passed_or_stops hworks idx with hpass | ⟨r', fs₁, hstops⟩
    · rw [resolve_passed hpass] at h
      refine ih (fun j hj => ?_) h
      rcases Nat.lt_or_ge j.toNat idx.toNat with hlt | hge
      · exact hreached j hlt
      · have hji : j = idx := by bv_omega
        rw [hji]
        exact hpass
    · rw [hstops.resolve hdry] at h
      cases h
      exact ⟨idx, hreached, hstops⟩

/-- **The search ends at the first slot it does not pass**, and only if there is one. -/
theorem returns_iff (hdry : a.dryRun = false) (hworks : CallsWork e base fs) (r : Resolved)
    (fs' : FS E) :
    Returns a e base st fs r fs' ↔
      ∃ idx, Reached a base st fs idx ∧ Stops a e base st fs idx r fs' := by
  constructor
  · rintro ⟨fuel, h⟩
    exact resolve_ends hdry hworks (fun j hj => absurd hj (Nat.not_lt_zero _)) h
  · rintro ⟨idx, hreached, hstops⟩
    refine ⟨1 + idx.toNat, ?_⟩
    rw [resolve_reached idx.isLt hreached, BitVec.ofNat_toNat, BitVec.setWidth_eq]
    exact hstops.resolve hdry 0

/-- The new slot is an empty file. -/
theorem fresh_empty {fs₁ fs₂ : FS E} {name : Text}
    (hcreate : attempt e.openSlot (fs₁.create name (e.mkdir.creator.file 0o200)) = some fs₂) :
    ∃ i, fs₂.lookup name = some i ∧ fs₂.isReg i = true ∧ (fs₂.inode i).data = [] := by
  have hmade := (attempt_eq_some.1 hcreate).2
  have hnew := Created.of_create hmade
  obtain ⟨-, rfl⟩ := create_eq_some hmade
  refine ⟨fs₁.next, hnew.lookup, ?_, ?_⟩
  · simp [isReg, Creator.file]
  · simp [Creator.file]

end Search

/-- **The slot of a file**: the first one that is free and is made, or holds a file like it; the
file counts as unified exactly if the search meets it before.  No other digest of the same size
has a slot of this name, and both buffers are large enough. -/
theorem resolveCollisions_slot {a : Args} {e : Env} {st : Stat} {fs : FS E} {digest : List UInt8}
    {hashdir root : Text} {es : List HashDirs.Entry} {coll : List HashDirs.HashDirInfo}
    {maxSize : Nat} {devs : List HashDirs.Dev} {dev : HashDirs.Dev} (hdry : a.dryRun = false)
    (hinit : HashDirs.initHashList hashdir es = some (coll, maxSize))
    (hroot : (HashDirs.findDevice (HashDirs.lookups coll devs) dev).1 = some root)
    (hworks : CallsWork e (root ++ convertDigest digest) fs) (hbits : digest.length * 8 ≤ 256) :
    (∀ name size fs', Returns a e (root ++ convertDigest digest) st fs (.slot name size) fs' →
      ∃ idx, name = slotName (root ++ convertDigest digest) idx ∧
        Reached a (root ++ convertDigest digest) st fs idx ∧
        ((∃ s, fs.lstat name = some s ∧ isUnifyable a.ignoreMtime st s = true ∧ size = s.size ∧
            fs' = fs) ∨
          fs.lookup name = none ∧ size = 0 ∧
            ∃ i, fs'.lookup name = some i ∧ fs'.isReg i = true ∧ (fs'.inode i).data = [])) ∧
    ((∃ fs', Returns a e (root ++ convertDigest digest) st fs .skip fs') ↔
      ∃ idx s, Reached a (root ++ convertDigest digest) st fs idx ∧
        fs.lstat (slotName (root ++ convertDigest digest) idx) = some s ∧
        isUnified st s = true) ∧
    (∀ (root' : Text) (digest' : List UInt8) (i j : BitVec 32), digest.length = digest'.length →
      slotName (root ++ convertDigest digest) i = slotName (root' ++ convertDigest digest') j →
      digest = digest') ∧
    (convertDigest digest).length + 1 ≤ hashPathSize ∧
    ∀ idx, (slotName (root ++ convertDigest digest) idx).length + 1 ≤
      maxSize + hashPathSize + 2 := by
  refine ⟨fun name size fs' h => ?_, ?_, fun root' digest' i j hlen h => ?_,
    convertDigest_length digest, fun idx => ?_⟩
  · obtain ⟨idx, hreached, hstops⟩ := (returns_iff hdry hworks _ _).mp h
    cases hstops with
    | like hs hown hlike => exact ⟨idx, rfl, hreached, .inl ⟨_, hs, hlike, rfl, rfl⟩⟩
    | fresh hfree hmk hcreate =>
      exact ⟨idx, rfl, hreached, .inr ⟨hfree, rfl, fresh_empty hcreate⟩⟩
  · constructor
    · rintro ⟨fs', h⟩
      obtain ⟨idx, hreached, hstops⟩ := (returns_iff hdry hworks _ _).mp h
      cases hstops with
      | own hs hown => exact ⟨idx, _, hreached, hs, hown⟩
    · rintro ⟨idx, s, hreached, hs, hown⟩
      exact ⟨fs, (returns_iff hdry hworks _ _).mpr ⟨idx, hreached, .own hs hown⟩⟩
  · exact (slotName_inj hlen hbits h).2.1
  · have hmax := HashDirs.findDevice_max hinit devs hroot
    have hdigest := convertDigest_length digest
    have hsize : hashPathSize = 107 := rfl
    have hconv := convertFrom_length 0 0 digest (by omega)
    have hconv : (convertDigest digest).length ≤ 98 := by
      show (convertFrom 0 0 digest).length ≤ 98
      omega
    rw [slotName_length, List.length_append]
    omega

/-- In the first slot of the digest is a file of another size. -/
def collidingStore : FS Text :=
  zerosFile.setName (slotName ("/h/a/".toList ++ convertDigest [0xab]) 0) 2

theorem callsWork_collidingStore :
    CallsWork allWork ("/h/a/".toList ++ convertDigest [0xab]) collidingStore := by
  refine ⟨collidingStore.alloc "/h/a".toList (Mkdir.newDir allWork.mkdir.creator 0o700), rfl,
    fun idx hfree => ⟨_, attempt_eq_some.2 ⟨rfl, if_neg ?_⟩⟩⟩
  have hne : slotName ("/h/a/".toList ++ convertDigest [0xab]) idx ≠ "/h/a".toList := fun h => by
    have hlen := congrArg List.length h
    rw [slotName_length] at hlen
    exact absurd hlen (by decide)
  have hnone : (collidingStore.alloc "/h/a".toList
      (Mkdir.newDir allWork.mkdir.creator 0o700)).lookup
        (slotName ("/h/a/".toList ++ convertDigest [0xab]) idx) = none := by
    rw [← hfree]
    exact Function.update_of_ne hne (some collidingStore.next) collidingStore.names
  rw [hnone]
  exact Bool.false_ne_true

/-- The file is given the second slot. -/
theorem resolveCollisions_slot_collidingStore :
    ∃ idx, slotName ("/h/a/".toList ++ convertDigest [0xab]) 1 =
        slotName ("/h/a/".toList ++ convertDigest [0xab]) idx ∧
      Reached sledgehammer ("/h/a/".toList ++ convertDigest [0xab]) (collidingStore.stat 1)
        collidingStore idx ∧
      Passed sledgehammer ("/h/a/".toList ++ convertDigest [0xab]) (collidingStore.stat 1)
        collidingStore 0 := by
  have hfirst : Passed sledgehammer ("/h/a/".toList ++ convertDigest [0xab])
      (collidingStore.stat 1) collidingStore 0 := ⟨collidingStore.stat 2, rfl, rfl, rfl⟩
  obtain ⟨fs', h⟩ : ∃ fs', Returns sledgehammer allWork ("/h/a/".toList ++ convertDigest [0xab])
      (collidingStore.stat 1) collidingStore
      (.slot (slotName ("/h/a/".toList ++ convertDigest [0xab]) 1) 0) fs' := ⟨_, 2, rfl⟩
  obtain ⟨idx, hname, hreached, -⟩ := (@resolveCollisions_slot _ _ _ _ _ _ _
    "/h".toList _ [⟨"a".toList, some (true, 0)⟩] _ _ [] 0 rfl rfl rfl callsWork_collidingStore
    (by decide)).1 _ _ _ h
  exact ⟨idx, hname, hreached, hfirst⟩

end Vhashify
