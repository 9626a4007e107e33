import Mathlib.Algebra.BigOperators.Group.Finset.Basic
import UtilVserver.Lib.HashChains
import UtilVserver.PathInfo

/-!
# `vdu`

The walk below a directory that adds up the blocks and the inodes of a context.  An inode with
several links is entered into a hash table by its number, and counted when it was not there.

* `visitDirEntry`, `visitDir`, `visitDirStart` — the program, for a tree in which no call fails.
* `visited` — the entries that the walk comes to, in their order.
* `counted` — those of them that are added.

Principal results: `visitDirStart_eq` (the walk adds up what it visits, one entry after the other)
and `vdu_exact`.
-/

set_option autoImplicit false

namespace Vdu

open PathInfo HashChains

/-- `st_dev` and `st_ino`. -/
structure Id where
  dev : Nat
  ino : Nat
  deriving DecidableEq

/-- What `lstat` and `vc_getfilecontext` say about an inode. -/
structure Inode where
  nlink : Nat
  blocks : Nat
  isDir : Bool
  xid : Nat

def HASH_SIZE : Nat := 103

/-- `inode % HASH_SIZE`. -/
def hashval (ino : Nat) : Fin HASH_SIZE := ⟨ino % HASH_SIZE, Nat.mod_lt _ (by decide)⟩

/-- `hash_insert`; none for its result -1. -/
def hash_insert (ht : Table Nat (Fin HASH_SIZE)) (ino : Nat) : Option (Table Nat (Fin HASH_SIZE)) :=
  HashChains.insert hashval ht ino

/-- The hash table and `struct Result`. -/
structure State where
  ht : Table Nat (Fin HASH_SIZE)
  blocks : BitVec 64
  inodes : BitVec 64

/-- The state after `hash_init`. -/
def State.init : State := ⟨empty, 0#64, 0#64⟩

/-- The inodes of the file systems, and the context that is asked for. -/
structure World where
  inode : Id → Inode
  xid : Nat

/-- The inode carries the context. -/
def World.carries (w : World) (i : Id) : Bool := (w.inode i).xid == w.xid

/-- The test in front of the additions: the hash table behind it, or none when nothing is added. -/
def admits (w : World) (ht : Table Nat (Fin HASH_SIZE)) (i : Id) :
    Option (Table Nat (Fin HASH_SIZE)) :=
  if w.carries i then
    if (w.inode i).nlink = 1 then some ht else hash_insert ht i.ino
  else none

/-- The additions of `visitDirEntry`. -/
def account (w : World) (s : State) (i : Id) : State :=
  match admits w s.ht i with
  | none => s
  | some ht => ⟨ht, s.blocks + BitVec.ofNat 64 (w.inode i).blocks, s.inodes + 1#64⟩

/-- `visitDirEntry` for what `lstat` finds; `visitSub` is `visitDir` for the entry. -/
def visitDirEntry (w : World) (visitSub : State → State) (dirDev : Nat) (i : Id) (s : State) :
    State :=
  let s := account w s i
  if (w.inode i).isDir && dirDev == i.dev then visitSub s else s

/-- `visitDir`: `dirDev` is the device of the directory.  For a mount point, `lstat` finds the root
of what is mounted. -/
def visitDir (w : World) : Dir Id → Nat → State → State
  | .nil, _, s => s
  | .entry name i sub rest, dirDev, s =>
    let s := if isDotfile name.text then s
      else visitDirEntry w (visitDir w sub i.dev) dirDev i s
    visitDir w rest dirDev s

/-- `visitDirStart` for the directory `start` with the entries `tree`. -/
def visitDirStart (w : World) (start : Id) (tree : Dir Id) : State :=
  visitDirEntry w (visitDir w tree start.dev) start.dev start .init

/-! ## What the walk comes to -/

/-- The entries below a directory, without those behind a mount point. -/
def visitedBelow (w : World) : Dir Id → Nat → List Id
  | .nil, _ => []
  | .entry name i sub rest, dirDev =>
    (if isDotfile name.text then [] else
      i :: if (w.inode i).isDir && dirDev == i.dev then visitedBelow w sub i.dev else []) ++
      visitedBelow w rest dirDev

/-- The directory itself, and the entries below it. -/
def visited (w : World) (start : Id) (tree : Dir Id) : List Id :=
  start :: if (w.inode start).isDir then visitedBelow w tree start.dev else []

/-- The entries that are added, one after the other. -/
def counted (w : World) : Table Nat (Fin HASH_SIZE) → List Id → List Id
  | _, [] => []
  | ht, i :: is =>
    match admits w ht i with
    | none => counted w ht is
    | some ht' => i :: counted w ht' is

/-- The visited entries with the context. -/
def carrying (w : World) (start : Id) (tree : Dir Id) : List Id :=
  (visited w start tree).filter w.carries

/-- Each inode with the context is counted once, the totals are those of these inodes, and the
chains of the hash table are sorted all the time. -/
structure CountsOnce (w : World) (start : Id) (tree : Dir Id) : Prop where
  once : ∀ i ∈ carrying w start tree, (counted w empty (visited w start tree)).count i = 1
  inodes : (visitDirStart w start tree).inodes =
    BitVec.ofNat 64 (carrying w start tree).toFinset.card
  blocks : (visitDirStart w start tree).blocks =
    BitVec.ofNat 64 (∑ i ∈ (carrying w start tree).toFinset, (w.inode i).blocks)
  chains : ∀ is, is <+: visited w start tree → Chains hashval (is.foldl (account w) .init).ht

/-- Among the visited entries with the context, one with a single link is met once, and two with
several links and the same inode number are on the same device. -/
structure Distinct (w : World) (start : Id) (tree : Dir Id) : Prop where
  single : ∀ i ∈ carrying w start tree, (w.inode i).nlink = 1 →
    (carrying w start tree).count i = 1
  device : ∀ i ∈ carrying w start tree, ∀ j ∈ carrying w start tree,
    (w.inode i).nlink ≠ 1 → (w.inode j).nlink ≠ 1 → i.ino = j.ino → i.dev = j.dev

/-! ## The walk -/

theorem visitDir_eq (w : World) (d : Dir Id) (dev : Nat) (s : State) :
    visitDir w d dev s = (visitedBelow w d dev).foldl (account w) s := by
  induction d generalizing dev s with
  | nil => rfl
  | entry name i sub rest ihsub ihrest =>
    simp only [visitDir, visitedBelow, List.foldl_append, ihrest]
    congr 1
    split
    · rfl
    · unfold visitDirEntry
      split
      · rw [List.foldl_cons, ihsub]
      · rfl

/-- **The walk adds up what it comes to, one entry after the other.** -/
theorem visitDirStart_eq (w : World) (start : Id) (tree : Dir Id) :
    visitDirStart w start tree = (visited w start tree).foldl (account w) .init := by
  unfold visitDirStart visitDirEntry visited
  rw [beq_self_eq_true, Bool.and_true, List.foldl_cons]
  split
  · exact visitDir_eq w tree start.dev _
  · rfl

/-! ## The totals -/

theorem foldl_account (w : World) (is : List Id) (s : State) :
    (is.foldl (account w) s).inodes =
        s.inodes + BitVec.ofNat 64 (counted w s.ht is).length ∧
      (is.foldl (account w) s).blocks =
        s.blocks + BitVec.ofNat 64 ((counted w s.ht is).map fun i => (w.inode i).blocks).sum := by
  induction is generalizing s with
  | nil => simp [counted]
  | cons i is ih =>
    rw [List.foldl_cons, counted]
    cases ha : admits w s.ht i with
    | none =>
      have hs : account w s i = s := by rw [account, ha]
      rw [hs]
      exact ih s
    | some ht =>
      have hs : account w s i =
          ⟨ht, s.blocks + BitVec.ofNat 64 (w.inode i).blocks, s.inodes + 1#64⟩ := by
        rw [account, ha]
      rw [hs]
      obtain ⟨hinodes, hblocks⟩ := ih ⟨ht, _, _⟩
      refine ⟨hinodes.trans ?_, hblocks.trans ?_⟩
      · simp only [List.length_cons]
        rw [BitVec.add_assoc, ← BitVec.ofNat_add, Nat.add_comm]
      · simp only [List.map_cons, List.sum_cons]
        rw [BitVec.add_assoc, ← BitVec.ofNat_add]

/-! ## What is added -/

theorem admits_chains {w : World} {ht ht' : Table Nat (Fin HASH_SIZE)} {i : Id}
    (h : Chains hashval ht) (ha : admits w ht i = some ht') : Chains hashval ht' := by
  unfold admits at ha
  split at ha
  · split at ha
    · cases ha
      exact h
    · exact (insert_some h ha).1
  · cases ha

theorem foldl_chains (w : World) (is : List Id) {s : State} (h : Chains hashval s.ht) :
    Chains hashval (is.foldl (account w) s).ht := by
  induction is generalizing s with
  | nil => exact h
  | cons i is ih =>
    refine ih ?_
    unfold account
    split
    · exact h
    · rename_i ht ha
      exact admits_chains h ha

theorem admits_carries {w : World} {ht ht' : Table Nat (Fin HASH_SIZE)} {i : Id}
    (ha : admits w ht i = some ht') : w.carries i = true := by
  by_contra hc
  rw [admits, if_neg hc] at ha
  cases ha

theorem mem_counted {w : World} {ht : Table Nat (Fin HASH_SIZE)} {is : List Id} {i : Id}
    (h : i ∈ counted w ht is) : i ∈ is ∧ w.carries i = true := by
  induction is generalizing ht with
  | nil => cases h
  | cons j is ih =>
    unfold counted at h
    cases ha : admits w ht j with
    | none =>
      rw [ha] at h
      exact ⟨List.mem_cons_of_mem j (ih h).1, (ih h).2⟩
    | some ht' =>
      rw [ha] at h
      rcases List.mem_cons.1 h with rfl | h
      · exact ⟨List.mem_cons_self, admits_carries ha⟩
      · exact ⟨List.mem_cons_of_mem j (ih h).1, (ih h).2⟩

/-- An inode with a single link is added at each visit. -/
theorem count_single {w : World} {i : Id} (hc : w.carries i = true) (h1 : (w.inode i).nlink = 1)
    (ht : Table Nat (Fin HASH_SIZE)) (is : List Id) : (counted w ht is).count i = is.count i := by
  induction is generalizing ht with
  | nil => rfl
  | cons j is ih =>
    unfold counted
    by_cases hj : j = i
    · subst hj
      simp only [admits, if_pos hc, if_pos h1, List.count_cons_self, ih]
    · rw [List.count_cons_of_ne hj]
      cases admits w ht j with
      | none => exact ih ht
      | some ht' => exact (List.count_cons_of_ne hj).trans (ih ht')

/-- `j` takes part in the search for the inode number of `i`. -/
def World.rival (w : World) (i j : Id) : Bool :=
  w.carries j && (w.inode j).nlink != 1 && j.ino == i.ino

theorem rival_iff {w : World} {i j : Id} :
    w.rival i j = true ↔ w.carries j = true ∧ (w.inode j).nlink ≠ 1 ∧ j.ino = i.ino := by
  simp [World.rival, and_assoc]

/-- Of those with several links and one number, the first is added. -/
theorem count_linked {w : World} {i : Id} (hc : w.carries i = true)
    (hn : (w.inode i).nlink ≠ 1) {ht : Table Nat (Fin HASH_SIZE)} (h : Chains hashval ht)
    (is : List Id) [Decidable (Has hashval ht i.ino)] : (counted w ht is).count i =
      if ¬ Has hashval ht i.ino ∧ (is.filter (w.rival i)).head? = some i then 1 else 0 := by
  classical
  induction is generalizing ht with
  | nil => simp [counted]
  | cons j is ih =>
    unfold counted
    by_cases hj : w.rival i j = true
    · obtain ⟨hjc, hjn, hino⟩ := rival_iff.1 hj
      rw [List.filter_cons_of_pos hj, List.head?_cons]
      simp only [admits, if_pos hjc, if_neg hjn, hash_insert]
      cases hins : HashChains.insert hashval ht j.ino with
      | none =>
        have hhas := (insert_none_iff h).1 hins
        rw [hino] at hhas
        simp only [ih h, hhas, not_true_eq_false, false_and, if_false]
      | some ht' =>
        obtain ⟨h', hhas'⟩ := insert_some h hins
        have hnot : ¬ Has hashval ht i.ino := fun hhas => by
          rw [← hino, ← insert_none_iff h, hins] at hhas
          cases hhas
        have hnew : Has hashval ht' i.ino := (hhas' _).2 (Or.inl hino.symm)
        rw [List.count_cons, ih h', if_neg fun hno => hno.1 hnew, Nat.zero_add]
        simp only [hnot, not_false_eq_true, true_and, Option.some.injEq, beq_iff_eq]
    · rw [List.filter_cons_of_neg hj]
      have hne : j ≠ i := by
        rintro rfl
        exact hj (rival_iff.2 ⟨hc, hn, rfl⟩)
      cases ha : admits w ht j with
      | none => exact ih h
      | some ht' =>
        have hsame : Has hashval ht' i.ino ↔ Has hashval ht i.ino := by
          have hjc := admits_carries ha
          by_cases hjn : (w.inode j).nlink = 1
          · rw [admits, if_pos hjc, if_pos hjn] at ha
            cases ha
            rfl
          · rw [admits, if_pos hjc, if_neg hjn] at ha
            have hino : i.ino ≠ j.ino := fun he => hj (rival_iff.2 ⟨hjc, hjn, he.symm⟩)
            rw [(insert_some h ha).2]
            simp only [hino, false_or]
        rw [List.count_cons_of_ne hne, ih (admits_chains h ha)]
        simp only [hsame]

/-! ## Once each -/

variable {w : World} {start : Id} {tree : Dir Id}

theorem mem_carrying {i : Id} :
    i ∈ carrying w start tree ↔ i ∈ visited w start tree ∧ w.carries i = true := by
  rw [carrying, List.mem_filter]

/-- The first with its number is `i` for each `i` when no two devices share a number. -/
theorem heads_iff : (∀ i ∈ carrying w start tree, (w.inode i).nlink ≠ 1 →
      ((visited w start tree).filter (w.rival i)).head? = some i) ↔
    ∀ i ∈ carrying w start tree, ∀ j ∈ carrying w start tree,
      (w.inode i).nlink ≠ 1 → (w.inode j).nlink ≠ 1 → i.ino = j.ino → i.dev = j.dev := by
  constructor
  · intro h i hi j hj hni hnj hino
    have hsame : w.rival i = w.rival j := by
      funext k
      simp only [World.rival, hino]
    have hhead := (h i hi hni).symm.trans ((congrArg _ (by rw [hsame])).trans (h j hj hnj))
    rw [Option.some.inj hhead]
  · intro h i hi hni
    obtain ⟨hvisited, hcarries⟩ := mem_carrying.1 hi
    cases hf : (visited w start tree).filter (w.rival i) with
    | nil =>
      have hmem : i ∈ (visited w start tree).filter (w.rival i) :=
        List.mem_filter.2 ⟨hvisited, rival_iff.2 ⟨hcarries, hni, rfl⟩⟩
      rw [hf] at hmem
      cases hmem
    | cons j js =>
      have hmem : j ∈ (visited w start tree).filter (w.rival i) := by
        rw [hf]
        exact List.mem_cons_self
      obtain ⟨hj, hrival⟩ := List.mem_filter.1 hmem
      obtain ⟨hjc, hjn, hino⟩ := rival_iff.1 hrival
      have hdev := h j (mem_carrying.2 ⟨hj, hjc⟩) i hi hjn hni hino
      rw [List.head?_cons, Option.some.injEq]
      cases i
      cases j
      simp_all

theorem once_iff : (∀ i ∈ carrying w start tree,
      (counted w empty (visited w start tree)).count i = 1) ↔ Distinct w start tree := by
  have hempty : ∀ ino, ¬ Has hashval (empty : Table Nat (Fin HASH_SIZE)) ino := fun _ h => by
    cases h
  have hlinked : ∀ i ∈ carrying w start tree, (w.inode i).nlink ≠ 1 →
      ((counted w empty (visited w start tree)).count i = 1 ↔
        ((visited w start tree).filter (w.rival i)).head? = some i) := by
    classical
    intro i hi hn
    rw [count_linked (mem_carrying.1 hi).2 hn (empty_chains hashval)]
    simp [hempty]
  have hsingle : ∀ i ∈ carrying w start tree, (w.inode i).nlink = 1 →
      (counted w empty (visited w start tree)).count i = (carrying w start tree).count i := by
    intro i hi h1
    have hc := (mem_carrying.1 hi).2
    rw [count_single hc h1, carrying, List.count_filter hc]
  constructor
  · intro h
    refine ⟨fun i hi h1 => (hsingle i hi h1).symm.trans (h i hi), heads_iff.1 fun i hi hn => ?_⟩
    exact (hlinked i hi hn).1 (h i hi)
  · intro h i hi
    by_cases h1 : (w.inode i).nlink = 1
    · exact (hsingle i hi h1).trans (h.single i hi h1)
    · exact (hlinked i hi h1).2 (heads_iff.2 h.device i hi h1)

/-- **Each inode is counted once unless one with a single link is met again, or two with several
links share their number on different devices.** -/
theorem vdu_exact (w : World) (start : Id) (tree : Dir Id) :
    CountsOnce w start tree ↔ Distinct w start tree := by
  rw [← once_iff]
  refine ⟨CountsOnce.once, fun honce => ?_⟩
  have hmem : ∀ i, i ∈ counted w empty (visited w start tree) ↔ i ∈ carrying w start tree := by
    intro i
    refine ⟨fun h => mem_carrying.2 (mem_counted h), fun h => ?_⟩
    exact List.count_pos_iff.1 (by rw [honce i h]; exact Nat.one_pos)
  have hnodup : (counted w empty (visited w start tree)).Nodup :=
    List.nodup_iff_count_eq_one.2 fun i hi => honce i ((hmem i).1 hi)
  have hset : (counted w empty (visited w start tree)).toFinset =
      (carrying w start tree).toFinset := by
    ext i
    rw [List.mem_toFinset, List.mem_toFinset, hmem]
  obtain ⟨hinodes, hblocks⟩ := foldl_account w (visited w start tree) .init
  refine ⟨honce, ?_, ?_, fun is _ => foldl_chains w is (empty_chains hashval)⟩
  · rw [visitDirStart_eq, hinodes, ← hset, List.toFinset_card_of_nodup hnodup]
    exact BitVec.zero_add _
  · rw [visitDirStart_eq, hblocks, ← hset, List.sum_toFinset _ hnodup]
    exact BitVec.zero_add _

/-- The root of a file system, with another one mounted on `mnt`: both roots have the number 2, and
the second is not counted. -/
theorem vdu_wrong :
    ¬ CountsOnce ⟨fun _ => ⟨3, 8, true, 100⟩, 100⟩ ⟨1, 2⟩
      (.entry ⟨"mnt".toList, by decide⟩ ⟨2, 2⟩ .nil .nil) := by
  intro h
  have hcount := h.once ⟨2, 2⟩ (by decide)
  revert hcount
  decide

end Vdu
