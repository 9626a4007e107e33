import Mathlib.Algebra.BigOperators.Group.List.Basic
import Mathlib.Data.BitVec
import Mathlib.Data.List.Sort
import UtilVserver.EnscVector

/-!
# `vserver-stat`

The table of contexts: one `XidData` for every xid, kept sorted in a vector.

* `cmpData` — the comparison, an `int` made of the difference of two 32-bit xids.
* `registerXid` — one process record is added to the totals of its context.
* `registerXids` — the records of a whole run.
* `Totals` — what the table should say.

Principal results: `registerXid_cases`, `registerXid_step` (one record keeps the table right as
long as no two xids are `2^31` apart) and `registerXids_totals` (exactly then it is right).
-/

set_option autoImplicit false

namespace VserverStat

open EnscVector BinarySearch

abbrev Xid := BitVec 32

structure XidData where
  xid : Xid
  process_count : BitVec 32
  VmSize_total : BitVec 64
  VmRSS_total : BitVec 64
  start_time_oldest : BitVec 64
  stime_total : BitVec 64
  utime_total : BitVec 64
  deriving DecidableEq, Repr

/-- `struct process_info`. -/
structure ProcessInfo where
  VmSize : BitVec 64
  VmRSS : BitVec 64
  start_time : BitVec 64
  stime : BitVec 64
  utime : BitVec 64
  cstime : BitVec 64
  cutime : BitVec 64
  s_context : Xid
  deriving DecidableEq, Repr

def cmpData (xid : Xid) (map : XidData) : Int := (xid - map.xid).toInt

/-- What `registerXid` writes into the slot of a new context. -/
def XidData.reset (process : ProcessInfo) (res : XidData) : XidData :=
  { res with
    xid := process.s_context
    process_count := 0
    VmSize_total := 0
    VmRSS_total := 0
    utime_total := 0
    stime_total := 0
    start_time_oldest := process.start_time }

/-- What `registerXid` adds to the entry of a context. -/
def XidData.add (process : ProcessInfo) (res : XidData) : XidData :=
  { res with
    process_count := res.process_count + 1
    VmSize_total := res.VmSize_total + process.VmSize
    VmRSS_total := res.VmRSS_total + process.VmRSS
    utime_total := res.utime_total + (process.utime + process.cutime)
    stime_total := res.stime_total + (process.stime + process.cstime)
    start_time_oldest :=
      if res.start_time_oldest < process.start_time then res.start_time_oldest
      else process.start_time }

@[simp] theorem XidData.reset_xid (p : ProcessInfo) (res : XidData) :
    (XidData.reset p res).xid = p.s_context := rfl
@[simp] theorem XidData.add_xid (p : ProcessInfo) (res : XidData) : (res.add p).xid = res.xid := rfl

/-- `memory i` is what the memory of slot `i` holds before the slot is used. -/
def registerXid (memory : Nat → XidData) (vec : List XidData) (process : ProcessInfo) :
    List XidData :=
  match search (cmpData process.s_context) vec with
  | some res => vec.modify res (XidData.add process)
  | none =>
    let r := insert (cmpData process.s_context) (memory vec.length) vec
    (r.1.modify r.2 (XidData.reset process)).modify r.2 (XidData.add process)

def registerXids (memory : Nat → XidData) (ps : List ProcessInfo) : List XidData :=
  ps.foldl (registerXid memory) []

/-! ## The comparison -/

/-- Two xids that are less than `2^31` apart. -/
def Near (x y : Xid) : Prop := x.toNat - y.toNat < 2 ^ 31 ∧ y.toNat - x.toNat < 2 ^ 31

theorem cmpData_eq (x : Xid) (e : XidData) :
    cmpData x e = Int.bmod ((x.toNat : Int) - e.xid.toNat) (2 ^ 32) := by
  rw [cmpData, BitVec.toInt_sub, BitVec.toInt_eq_toNat_bmod, BitVec.toInt_eq_toNat_bmod]
  simp

theorem cmpData_zero {x : Xid} {e : XidData} (h : cmpData x e = 0) : e.xid = x := by
  have h0 : (x - e.xid).toInt = (0 : BitVec 32).toInt := by simpa [cmpData] using h
  have := BitVec.eq_of_toInt_eq h0
  exact (sub_eq_zero.mp this).symm

theorem cmpData_near {x : Xid} {e : XidData} (h : Near x e.xid) :
    cmpData x e = (x.toNat : Int) - e.xid.toNat := by
  obtain ⟨h1, h2⟩ := h
  rw [cmpData_eq, Int.bmod_eq_of_le] <;> omega

theorem cmpData_far {x : Xid} {e : XidData} (h : 2 ^ 31 ≤ x.toNat - e.xid.toNat) :
    cmpData x e < 0 := by
  rw [cmpData_eq]
  have := x.isLt
  have := e.xid.isLt
  rw [Int.bmod_def]
  omega

theorem cmpData_agrees {x : Xid} {vec : List XidData} (h : ∀ e ∈ vec, Near x e.xid) :
    Agrees (cmpData x) (fun e => e.xid.toNat) x.toNat vec := by
  intro e he
  show (cmpData x e < 0 ↔ x.toNat < e.xid.toNat) ∧ (0 < cmpData x e ↔ e.xid.toNat < x.toNat)
  rw [cmpData_near (h e he)]
  constructor <;> omega

/-! ## One record -/

/-- What one record does: the entry of its context grows by it, or a context the search did
not find gets a slot.  Whatever the slot held is overwritten. -/
theorem registerXid_cases (memory : Nat → XidData) (vec : List XidData) (p : ProcessInfo) :
    (∃ pre e post, vec = pre ++ e :: post ∧ e.xid = p.s_context ∧
      registerXid memory vec p = pre ++ e.add p :: post) ∨
    (search (cmpData p.s_context) vec = none ∧
      ∃ pre post slot, vec = pre ++ post ∧ (∀ e ∈ pre, 0 ≤ cmpData p.s_context e) ∧
        (∀ e ∈ post.head?, cmpData p.s_context e < 0) ∧
        registerXid memory vec p = pre ++ (XidData.reset p slot).add p :: post) := by
  cases h : search (cmpData p.s_context) vec with
  | some i =>
    left
    obtain ⟨e, he, hc⟩ := bsearch_some h
    obtain ⟨hi, rfl⟩ := List.getElem?_eq_some_iff.mp he
    refine ⟨vec.take i, vec[i], vec.drop (i + 1), by simp, cmpData_zero hc, ?_⟩
    simp only [registerXid, h]
    exact List.modify_eq_take_cons_drop hi
  | none =>
    right
    obtain ⟨pre, post, hvec, hins, hpre, hpost⟩ :=
      insert_spec (cmpData p.s_context) (memory vec.length) vec
    refine ⟨rfl, pre, post, post.headD (memory vec.length), hvec, hpre, hpost, ?_⟩
    simp only [registerXid, h, hins, modify_append]

/-! ## The totals -/

/-- The columns of an entry, taken over the records of its context. -/
structure Sums (recs : List ProcessInfo) (e : XidData) : Prop where
  process_count : e.process_count = BitVec.ofNat 32 recs.length
  VmSize_total : e.VmSize_total = (recs.map ProcessInfo.VmSize).sum
  VmRSS_total : e.VmRSS_total = (recs.map ProcessInfo.VmRSS).sum
  utime_total : e.utime_total = (recs.map fun p => p.utime + p.cutime).sum
  stime_total : e.stime_total = (recs.map fun p => p.stime + p.cstime).sum
  start_time_mem : ∃ p ∈ recs, e.start_time_oldest = p.start_time
  start_time_le : ∀ p ∈ recs, e.start_time_oldest ≤ p.start_time

theorem Sums.single (p : ProcessInfo) (slot : XidData) :
    Sums [p] ((XidData.reset p slot).add p) := by
  constructor <;> simp [XidData.reset, XidData.add]

theorem Sums.snoc {recs : List ProcessInfo} {e : XidData} (h : Sums recs e) (p : ProcessInfo) :
    Sums (recs ++ [p]) (e.add p) := by
  constructor
  · simp [XidData.add, h.process_count, BitVec.ofNat_add]
  · simp [XidData.add, h.VmSize_total]
  · simp [XidData.add, h.VmRSS_total]
  · simp [XidData.add, h.utime_total]
  · simp [XidData.add, h.stime_total]
  · obtain ⟨q, hq, heq⟩ := h.start_time_mem
    simp only [XidData.add]
    split
    · exact ⟨q, by simp [hq], heq⟩
    · exact ⟨p, by simp, rfl⟩
  · intro q hq
    simp only [XidData.add]
    rcases List.mem_append.mp hq with hq | hq
    · have hle := h.start_time_le q hq
      split
      · exact hle
      · rename_i hc
        exact BitVec.le_trans (BitVec.not_lt.mp hc) hle
    · have hqp : q = p := by simpa using hq
      subst hqp
      split
      · rename_i hc
        exact BitVec.le_of_lt hc
      · exact BitVec.le_refl _

/-- The records of one context. -/
def recordsOf (ps : List ProcessInfo) (x : Xid) : List ProcessInfo :=
  ps.filter (fun p => p.s_context == x)

theorem recordsOf_snoc_self (ps : List ProcessInfo) (p : ProcessInfo) :
    recordsOf (ps ++ [p]) p.s_context = recordsOf ps p.s_context ++ [p] := by
  simp [recordsOf]

theorem recordsOf_snoc_ne (ps : List ProcessInfo) {p : ProcessInfo} {x : Xid}
    (h : p.s_context ≠ x) : recordsOf (ps ++ [p]) x = recordsOf ps x := by
  simp [recordsOf, h]

theorem recordsOf_perm {ps qs : List ProcessInfo} (h : ps.Perm qs) (x : Xid) :
    (recordsOf ps x).Perm (recordsOf qs x) := h.filter _

/-- What the table holds after the records `ps`. -/
structure Registered (ps : List ProcessInfo) (vec : List XidData) : Prop where
  sorted : vec.Pairwise (fun a b => a.xid.toNat < b.xid.toNat)
  known : ∀ e ∈ vec, ∃ p ∈ ps, p.s_context = e.xid
  complete : ∀ p ∈ ps, ∃ e ∈ vec, e.xid = p.s_context
  sums : ∀ e ∈ vec, Sums (recordsOf ps e.xid) e

theorem Registered.nil : Registered [] [] := by
  constructor <;> simp

/-- The new or changed entry of a context in its place. -/
theorem Registered.put {ps : List ProcessInfo} {pre mid post : List XidData} {p : ProcessInfo}
    {e : XidData} (h : Registered ps (pre ++ mid ++ post)) (hmid : ∀ d ∈ mid, d.xid = p.s_context)
    (hothers : ∀ d ∈ pre ++ post, d.xid ≠ p.s_context) (hx : e.xid = p.s_context)
    (hsorted : (pre ++ e :: post).Pairwise (fun a b => a.xid.toNat < b.xid.toNat))
    (hsums : Sums (recordsOf ps p.s_context ++ [p]) e) :
    Registered (ps ++ [p]) (pre ++ e :: post) := by
  have hmem : ∀ d, d ∈ pre ++ e :: post ↔ d = e ∨ d ∈ pre ++ post := by
    intro d
    simp only [List.mem_append, List.mem_cons]
    tauto
  constructor
  · exact hsorted
  · intro d hd
    rcases (hmem d).mp hd with rfl | hd
    · exact ⟨p, by simp, hx.symm⟩
    · obtain ⟨q, hq, hqd⟩ := h.known d (by
        simp only [List.mem_append] at hd ⊢
        tauto)
      exact ⟨q, by simp [hq], hqd⟩
  · intro q hq
    rcases List.mem_append.mp hq with hq | hq
    · obtain ⟨d, hd, hdq⟩ := h.complete q hq
      by_cases hqp : q.s_context = p.s_context
      · exact ⟨e, (hmem e).mpr (.inl rfl), by rw [hx, hqp]⟩
      · refine ⟨d, (hmem d).mpr (.inr ?_), hdq⟩
        have hnot : d ∉ mid := fun hdm => hqp (by rw [← hdq, hmid d hdm])
        simp only [List.mem_append] at hd ⊢
        tauto
    · have hqp : q = p := by simpa using hq
      exact ⟨e, (hmem e).mpr (.inl rfl), by rw [hx, hqp]⟩
  · intro d hd
    rcases (hmem d).mp hd with rfl | hd
    · rw [hx, recordsOf_snoc_self]
      exact hsums
    · rw [recordsOf_snoc_ne ps (hothers d hd).symm]
      refine h.sums d ?_
      simp only [List.mem_append] at hd ⊢
      tauto

theorem sorted_others {pre post : List XidData} {e : XidData}
    (hs : (pre ++ e :: post).Pairwise (fun a b => a.xid.toNat < b.xid.toNat)) :
    ∀ d ∈ pre ++ post, d.xid ≠ e.xid := by
  obtain ⟨-, h2, h12⟩ := List.pairwise_append.mp hs
  intro d hd hde
  rcases List.mem_append.mp hd with hd | hd
  · have := h12 d hd e (by simp)
    rw [hde] at this
    omega
  · have := (List.pairwise_cons.mp h2).1 d hd
    rw [hde] at this
    omega

/-- **One record keeps the table right** when its xid is near to all those before it. -/
theorem registerXid_step (memory : Nat → XidData) {ps : List ProcessInfo} {vec : List XidData}
    {p : ProcessInfo} (h : Registered ps vec) (hnear : ∀ q ∈ ps, Near p.s_context q.s_context) :
    Registered (ps ++ [p]) (registerXid memory vec p) := by
  have hagree : Agrees (cmpData p.s_context) (fun e => e.xid.toNat) p.s_context.toNat vec := by
    refine cmpData_agrees fun e he => ?_
    obtain ⟨q, hq, hqe⟩ := h.known e he
    exact hqe ▸ hnear q hq
  rcases registerXid_cases memory vec p with ⟨pre, e, post, rfl, hx, hres⟩ |
    ⟨hnone, pre, post, slot, rfl, hpre, hpost, hres⟩
  · rw [hres]
    have hsplit : pre ++ e :: post = pre ++ [e] ++ post := by simp
    refine @Registered.put _ _ [e] _ _ _ (hsplit ▸ h) (by simpa using hx)
      (hx ▸ sorted_others h.sorted) hx ?_ ?_
    · have hs := List.pairwise_map (f := fun e : XidData => e.xid.toNat).mpr h.sorted
      exact List.pairwise_map.mp (by simpa using hs)
    · exact hx ▸ (h.sums e (by simp)).snoc p
  · rw [hres]
    have hnew := bsearch_none h.sorted hagree hnone
    have hothers : ∀ d ∈ pre ++ post, d.xid ≠ p.s_context := fun d hd hdx =>
      hnew d hd (congrArg BitVec.toNat hdx)
    obtain ⟨hbelow, habove⟩ := insert_between h.sorted hagree hnew hpre hpost
    refine @Registered.put _ _ [] _ _ _ (by simpa using h) (by simp) hothers rfl
      (sorted_put h.sorted hbelow habove) ?_
    have hempty : recordsOf ps p.s_context = [] := by
      rw [recordsOf, List.filter_eq_nil_iff]
      intro q hq hqx
      obtain ⟨d, hd, hdq⟩ := h.complete q hq
      exact hothers d hd (by simpa [hdq] using hqx)
    rw [hempty]
    exact Sums.single p slot

theorem registerXids_snoc (memory : Nat → XidData) (ps : List ProcessInfo) (p : ProcessInfo) :
    registerXids memory (ps ++ [p]) = registerXid memory (registerXids memory ps) p := by
  simp [registerXids]

theorem registerXids_registered (memory : Nat → XidData) (ps : List ProcessInfo)
    (hnear : ∀ p ∈ ps, ∀ q ∈ ps, Near p.s_context q.s_context) :
    Registered ps (registerXids memory ps) := by
  induction ps using List.reverseRecOn with
  | nil => exact Registered.nil
  | append_singleton ps p ih =>
    rw [registerXids_snoc]
    refine registerXid_step memory (ih fun p hp q hq => hnear p ?_ q ?_) fun q hq =>
      hnear p (by simp) q (by simp [hq])
    · simp [hp]
    · simp [hq]

/-! ## Xids that are far apart -/

/-- The xids in the table stay in the order they have. -/
theorem registerXid_sublist (memory : Nat → XidData) (vec : List XidData) (p : ProcessInfo) :
    (vec.map XidData.xid).Sublist ((registerXid memory vec p).map XidData.xid) := by
  rcases registerXid_cases memory vec p with ⟨pre, e, post, rfl, -, hres⟩ |
    ⟨-, pre, post, slot, rfl, -, -, hres⟩
  · rw [hres]
    simp
  · rw [hres]
    simp

theorem registerXids_sublist (memory : Nat → XidData) (ps qs : List ProcessInfo) :
    ((registerXids memory ps).map XidData.xid).Sublist
      ((registerXids memory (ps ++ qs)).map XidData.xid) := by
  induction qs using List.reverseRecOn with
  | nil => simp
  | append_singleton qs q ih =>
    rw [← List.append_assoc, registerXids_snoc]
    exact ih.trans (registerXid_sublist memory _ q)

theorem registerXid_front (memory : Nat → XidData) {e : XidData} {q : ProcessInfo}
    (hlt : cmpData q.s_context e < 0) :
    (registerXid memory [e] q).map XidData.xid = [q.s_context, e.xid] := by
  have hsearch : search (cmpData q.s_context) [e] = none := by
    simp [search, bsearch, bsearchLoop, hlt]
  have hins : EnscVector.insert (cmpData q.s_context) (memory 1) [e] = ([e, e], 0) := by
    simp [EnscVector.insert, hlt]
  simp [registerXid, hsearch, hins]

/-- The larger one of two xids that are more than `2^31` apart goes in front of the smaller. -/
theorem registerXids_far (memory : Nat → XidData) {p q : ProcessInfo}
    (hfar : 2 ^ 31 ≤ q.s_context.toNat - p.s_context.toNat) :
    (registerXids memory [p, q]).map XidData.xid = [q.s_context, p.s_context] := by
  have hfirst : registerXids memory [p] = [(XidData.reset p (memory 0)).add p] := rfl
  rw [show [p, q] = [p] ++ [q] from rfl, registerXids_snoc, hfirst,
    registerXid_front memory (cmpData_far hfar)]
  rfl

/-! ## When the table is right -/

/-- The columns of an entry as the table should show them. -/
structure EntryOf (recs : List ProcessInfo) (e : XidData) : Prop where
  process_count : e.process_count.toNat = recs.length % 2 ^ 64
  VmSize_total : e.VmSize_total = (recs.map ProcessInfo.VmSize).sum
  VmRSS_total : e.VmRSS_total = (recs.map ProcessInfo.VmRSS).sum
  utime_total : e.utime_total = (recs.map fun p => p.utime + p.cutime).sum
  stime_total : e.stime_total = (recs.map fun p => p.stime + p.cstime).sum
  start_time_mem : ∃ p ∈ recs, e.start_time_oldest = p.start_time
  start_time_le : ∀ p ∈ recs, e.start_time_oldest ≤ p.start_time

/-- The table of the records `ps`: one entry for every xid, in the order of the xids. -/
structure Totals (ps : List ProcessInfo) (vec : List XidData) : Prop where
  sorted : vec.Pairwise (fun a b => a.xid < b.xid)
  known : ∀ e ∈ vec, ∃ p ∈ ps, p.s_context = e.xid
  complete : ∀ p ∈ ps, ∃ e ∈ vec, e.xid = p.s_context
  entry : ∀ e ∈ vec, EntryOf (recordsOf ps e.xid) e

/-- The count of a context fits into its column. -/
def CountFits (ps : List ProcessInfo) (x : Xid) : Prop :=
  (recordsOf ps x).length % 2 ^ 64 < 2 ^ 32

theorem Sums.entryOf {recs : List ProcessInfo} {e : XidData} (h : Sums recs e)
    (hfits : recs.length % 2 ^ 64 < 2 ^ 32) : EntryOf recs e := by
  refine ⟨?_, h.VmSize_total, h.VmRSS_total, h.utime_total, h.stime_total, h.start_time_mem,
    h.start_time_le⟩
  rw [h.process_count, BitVec.toNat_ofNat]
  omega

theorem Sums.perm {recs recs' : List ProcessInfo} {e : XidData} (hp : recs.Perm recs')
    (h : Sums recs e) : Sums recs' e := by
  constructor
  · rw [h.process_count, hp.length_eq]
  · rw [h.VmSize_total, (hp.map _).sum_eq]
  · rw [h.VmRSS_total, (hp.map _).sum_eq]
  · rw [h.utime_total, (hp.map _).sum_eq]
  · rw [h.stime_total, (hp.map _).sum_eq]
  · obtain ⟨p, hmem, heq⟩ := h.start_time_mem
    exact ⟨p, hp.mem_iff.mp hmem, heq⟩
  · exact fun p hmem => h.start_time_le p (hp.mem_iff.mpr hmem)

theorem EntryOf.ext {recs : List ProcessInfo} {d e : XidData} (hd : EntryOf recs d)
    (he : EntryOf recs e) (hx : d.xid = e.xid) : d = e := by
  have hstart : d.start_time_oldest = e.start_time_oldest := by
    obtain ⟨p, hp, hdp⟩ := hd.start_time_mem
    obtain ⟨q, hq, heq⟩ := he.start_time_mem
    refine BitVec.le_antisymm ?_ ?_
    · exact heq ▸ hd.start_time_le q hq
    · exact hdp ▸ he.start_time_le p hp
  have hcount : d.process_count = e.process_count :=
    BitVec.eq_of_toNat_eq (hd.process_count.trans he.process_count.symm)
  cases d
  cases e
  simp only [XidData.mk.injEq]
  exact ⟨hx, hcount, hd.VmSize_total.trans he.VmSize_total.symm,
    hd.VmRSS_total.trans he.VmRSS_total.symm, hstart,
    hd.stime_total.trans he.stime_total.symm, hd.utime_total.trans he.utime_total.symm⟩

theorem Totals.mem_of_mem {ps : List ProcessInfo} {v w : List XidData} (hv : Totals ps v)
    (hw : Totals ps w) {e : XidData} (he : e ∈ v) : e ∈ w := by
  obtain ⟨p, hp, hpe⟩ := hv.known e he
  obtain ⟨d, hd, hdp⟩ := hw.complete p hp
  have hx : e.xid = d.xid := hpe.symm.trans hdp.symm
  rw [(hv.entry e he).ext (hx ▸ hw.entry d hd) hx]
  exact hd

/-- The records determine the table. -/
theorem Totals.unique {ps : List ProcessInfo} {v w : List XidData} (hv : Totals ps v)
    (hw : Totals ps w) : v = w := by
  have hirr : Std.Irrefl fun a b : XidData => a.xid < b.xid := ⟨fun a => BitVec.lt_irrefl a.xid⟩
  have hanti : Std.Antisymm fun a b : XidData => a.xid < b.xid :=
    ⟨fun a b h1 h2 => absurd h2 (BitVec.not_lt.mpr (BitVec.le_of_lt h1))⟩
  exact hv.sorted.eq_of_mem_iff hw.sorted fun e => ⟨hv.mem_of_mem hw, hw.mem_of_mem hv⟩

theorem Registered.totals {ps qs : List ProcessInfo} {vec : List XidData} (hp : qs.Perm ps)
    (h : Registered qs vec) (hfits : ∀ x, CountFits ps x) : Totals ps vec := by
  constructor
  · exact h.sorted.imp fun hab => BitVec.lt_def.mpr hab
  · intro e he
    obtain ⟨p, hmem, hpe⟩ := h.known e he
    exact ⟨p, hp.mem_iff.mp hmem, hpe⟩
  · exact fun p hmem => h.complete p (hp.mem_iff.mpr hmem)
  · intro e he
    exact ((h.sums e he).perm (recordsOf_perm hp e.xid)).entryOf (hfits e.xid)

theorem Totals.countFits {ps : List ProcessInfo} {vec : List XidData} (h : Totals ps vec)
    (x : Xid) : CountFits ps x := by
  cases hr : recordsOf ps x with
  | nil => simp [CountFits, hr]
  | cons p rest =>
    have hp : p ∈ recordsOf ps x := by simp [hr]
    obtain ⟨hmem, hpx⟩ := List.mem_filter.mp hp
    obtain ⟨e, he, hex⟩ := h.complete p hmem
    have hx : e.xid = x := hex.trans (by simpa using hpx)
    have hcount := (h.entry e he).process_count
    have hlt := e.process_count.isLt
    rw [hx] at hcount
    unfold CountFits
    omega

/-- Two records whose xids are far apart, the one with the smaller xid first. -/
theorem Totals.near {memory : Nat → XidData} {ps : List ProcessInfo}
    (h : ∀ qs, qs.Perm ps → Totals ps (registerXids memory qs)) {p q : ProcessInfo} (hp : p ∈ ps)
    (hq : q ∈ ps) : q.s_context.toNat - p.s_context.toNat < 2 ^ 31 := by
  by_contra hfar
  have hne : p ≠ q := by
    rintro rfl
    omega
  have hqrest : q ∈ ps.erase p := (List.mem_erase_of_ne hne.symm).mpr hq
  have hperm : ([p, q] ++ (ps.erase p).erase q).Perm ps :=
    ((List.perm_cons_erase hqrest).symm.cons p).trans (List.perm_cons_erase hp).symm
  have hsub := registerXids_sublist memory [p, q] ((ps.erase p).erase q)
  rw [registerXids_far memory (by omega)] at hsub
  have hsorted := List.pairwise_map.mpr (h _ hperm).sorted
  have hlt := (List.pairwise_cons.mp (hsorted.sublist hsub)).1 p.s_context (by simp)
  have := BitVec.lt_def.mp hlt
  omega

/-- **The table shows the totals, whatever the order of the records, exactly if** no two of the
xids are `2^31` or more apart and the number of processes of each context fits into its
column. -/
theorem registerXids_totals (memory : Nat → XidData) (ps : List ProcessInfo) :
    ((∀ qs, qs.Perm ps → Totals ps (registerXids memory qs)) ∧
      ∀ qs qs', qs.Perm ps → qs'.Perm ps →
        registerXids memory qs = registerXids memory qs') ↔
    (∀ p ∈ ps, ∀ q ∈ ps, q.s_context.toNat - p.s_context.toNat < 2 ^ 31) ∧
      ∀ x, CountFits ps x := by
  constructor
  · rintro ⟨h, -⟩
    exact ⟨fun p hp q hq => Totals.near h hp hq, (h ps (List.Perm.refl ps)).countFits⟩
  · rintro ⟨hnear, hfits⟩
    have htotals : ∀ qs, qs.Perm ps → Totals ps (registerXids memory qs) := fun qs hqs =>
      (registerXids_registered memory qs fun p hp q hq =>
        ⟨hnear q (hqs.mem_iff.mp hq) p (hqs.mem_iff.mp hp),
          hnear p (hqs.mem_iff.mp hp) q (hqs.mem_iff.mp hq)⟩).totals hqs hfits
    exact ⟨htotals, fun qs qs' hqs hqs' => (htotals qs hqs).unique (htotals qs' hqs')⟩

/-- A process with one page in context `x`. -/
def onePage (x : Xid) : ProcessInfo := ⟨1, 1, 0, 0, 0, 0, 0, x⟩

/-- The xids `2`, `0x20000002` and `0x80000002` compare in a circle: context `2` is listed
twice. -/
theorem registerXids_twice :
    (registerXids (fun _ => ⟨0, 0, 0, 0, 0, 0, 0⟩)
        [onePage 2, onePage 0x80000002, onePage 0x20000002, onePage 2]).map
        (fun e => (e.xid, e.process_count)) =
      [(2, 1), (0x20000002, 1), (0x80000002, 1), (2, 1)] ∧
    ¬ ∀ memory ps, Totals ps (registerXids memory ps) := by
  refine ⟨by decide, fun h => ?_⟩
  have hsorted := List.pairwise_map.mpr (h (fun _ => ⟨0, 0, 0, 0, 0, 0, 0⟩)
    [onePage 2, onePage 0x80000002, onePage 0x20000002, onePage 2]).sorted
  rw [show (registerXids (fun _ => ⟨0, 0, 0, 0, 0, 0, 0⟩)
    [onePage 2, onePage 0x80000002, onePage 0x20000002, onePage 2]).map XidData.xid =
      [2, 0x20000002, 0x80000002, 2] by decide] at hsorted
  exact absurd hsorted (by decide)

end VserverStat
