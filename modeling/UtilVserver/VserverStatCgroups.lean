import UtilVserver.VserverStat

/-!
# `vserver-stat` with memory cgroups

`registerXidCgroups` takes every column but one of a new entry from the kernel; `VmSize_total` is
not written before the first process is added to it, so that the sum starts from what the slot
held.

* `getXIDType` — `vc_getXIDType`, with its static variable.
* `registerXidCgroups` — one process record.
* `leftover` — what the slot of a new context holds, in terms of the records before.

Principal results: `registerXidCgroups_cases`, `vmSizes_step` (one record) and
`registerXidsCgroups_vmSize` (the sums are right exactly if no new context finds something in
its slot).
-/

set_option autoImplicit false

namespace VserverStat

open EnscVector BinarySearch

inductive XidType where
  | INVALID
  | MAIN
  | WATCH
  | STATIC
  | DYNAMIC
  deriving DecidableEq, Repr

def MAX_S_CONTEXT : Xid := 65535

/-- `vc_getXIDType`: the type of `xid` and the new value of the static variable.  The test for
`0` holds in the first call only, later ones always take the other branch. -/
def getXIDType (noDynamic : Bool) (MIN_D_CONTEXT xid : Xid) : XidType × Xid :=
  let min := if MIN_D_CONTEXT = 0 ∧ noDynamic = false then 49152 else MAX_S_CONTEXT + 1
  (if xid = 0 then .MAIN
    else if xid = 1 then .WATCH
    else if 1 < xid ∧ xid < min then .STATIC
    else if min ≤ xid ∧ xid < MAX_S_CONTEXT then .DYNAMIC
    else .INVALID, min)

/-- What the kernel and the cgroup files tell of a context. -/
structure CgroupStat where
  nproc : BitVec 64
  rss : BitVec 64
  uptime : BitVec 64
  virt_uptime : BitVec 64
  utime_total : BitVec 64
  stime_total : BitVec 64
  deriving DecidableEq, Repr

/-- A process, and what is told of its context when it is asked for; nothing when one of the
calls fails, which ends the function before the entry is made. -/
structure CgroupRecord where
  process : ProcessInfo
  cgroup : Option CgroupStat
  deriving DecidableEq, Repr

def CgroupRecord.xid (r : CgroupRecord) : Xid := r.process.s_context

def toMsec (hertz v : BitVec 64) : BitVec 64 := v * 1000 / hertz

/-- What is written into the slot of a new context. -/
def XidData.ofCgroup (hertz : BitVec 64) (xid : Xid) (c : CgroupStat) (res : XidData) : XidData :=
  { res with
    xid := xid
    process_count := c.nproc.setWidth 32
    VmRSS_total := c.rss / 4096
    start_time_oldest := c.uptime - c.virt_uptime / 1000000
    utime_total := toMsec hertz c.utime_total
    stime_total := toMsec hertz c.stime_total }

def XidData.addVmSize (process : ProcessInfo) (res : XidData) : XidData :=
  { res with VmSize_total := res.VmSize_total + process.VmSize }

/-- The configuration, and what the memory of each slot holds before the slot is used. -/
structure StatEnv where
  noDynamic : Bool
  hertz : BitVec 64
  memory : Nat → XidData

structure StatState where
  MIN_D_CONTEXT : Xid
  vec : List XidData

def registerXidCgroups (env : StatEnv) (st : StatState) (r : CgroupRecord) : StatState :=
  let type := getXIDType env.noDynamic st.MIN_D_CONTEXT r.xid
  { MIN_D_CONTEXT := type.2
    vec :=
      if type.1 = .STATIC ∨ type.1 = .DYNAMIC then
        match search (cmpData r.xid) st.vec with
        | some res => st.vec.modify res (XidData.addVmSize r.process)
        | none =>
          match r.cgroup with
          | none => st.vec
          | some c =>
            let i := EnscVector.insert (cmpData r.xid) (env.memory st.vec.length) st.vec
            (i.1.modify i.2 (XidData.ofCgroup env.hertz r.xid c)).modify i.2
              (XidData.addVmSize r.process)
      else st.vec }

def registerXidsCgroups (env : StatEnv) (rs : List CgroupRecord) : StatState :=
  rs.foldl (registerXidCgroups env) ⟨0, []⟩

@[simp] theorem XidData.ofCgroup_xid (hertz : BitVec 64) (x : Xid) (c : CgroupStat)
    (res : XidData) : (res.ofCgroup hertz x c).xid = x := rfl
@[simp] theorem XidData.ofCgroup_VmSize (hertz : BitVec 64) (x : Xid) (c : CgroupStat)
    (res : XidData) : (res.ofCgroup hertz x c).VmSize_total = res.VmSize_total := rfl
@[simp] theorem XidData.addVmSize_xid (p : ProcessInfo) (res : XidData) :
    (res.addVmSize p).xid = res.xid := rfl
@[simp] theorem XidData.addVmSize_VmSize (p : ProcessInfo) (res : XidData) :
    (res.addVmSize p).VmSize_total = res.VmSize_total + p.VmSize := rfl

/-! ## Which records count -/

/-- The static variable before the call number `n`. -/
def staticAt (noDynamic : Bool) : Nat → Xid
  | 0 => 0
  | n + 1 => (getXIDType noDynamic (staticAt noDynamic n) 0).2

/-- The call number `n` takes `xid` for the context of a vserver. -/
def Accepted (noDynamic : Bool) (n : Nat) (xid : Xid) : Prop :=
  (getXIDType noDynamic (staticAt noDynamic n) xid).1 = .STATIC ∨
    (getXIDType noDynamic (staticAt noDynamic n) xid).1 = .DYNAMIC

instance (noDynamic : Bool) (n : Nat) (xid : Xid) : Decidable (Accepted noDynamic n xid) :=
  inferInstanceAs (Decidable (_ ∨ _))

theorem getXIDType_iff (noDynamic : Bool) (m xid : Xid) :
    (getXIDType noDynamic m xid).1 = .STATIC ∨ (getXIDType noDynamic m xid).1 = .DYNAMIC ↔
      2 ≤ xid.toNat ∧ xid.toNat < if m = 0 ∧ noDynamic = false then 65535 else 65536 := by
  by_cases hm : m = 0 ∧ noDynamic = false
  · simp only [getXIDType, if_pos hm, MAX_S_CONTEXT]
    split_ifs <;> simp <;> bv_omega
  · simp only [getXIDType, if_neg hm, MAX_S_CONTEXT]
    split_ifs <;> simp <;> bv_omega

theorem staticAt_succ_ne (noDynamic : Bool) (n : Nat) : staticAt noDynamic (n + 1) ≠ 0 := by
  simp only [staticAt, getXIDType]
  split_ifs <;> decide

theorem accepted_iff (noDynamic : Bool) (n : Nat) (xid : Xid) :
    Accepted noDynamic n xid ↔
      2 ≤ xid.toNat ∧ xid.toNat < if n = 0 ∧ noDynamic = false then 65535 else 65536 := by
  rw [Accepted, getXIDType_iff]
  cases n with
  | zero => simp [staticAt]
  | succ n =>
    have := staticAt_succ_ne noDynamic n
    simp only [this, false_and, if_false, Nat.succ_ne_zero]

/-- A context that was taken once is taken ever after. -/
theorem Accepted.mono {noDynamic : Bool} {n m : Nat} {xid : Xid} (h : Accepted noDynamic n xid)
    (hnm : n ≤ m) : Accepted noDynamic m xid := by
  rw [accepted_iff] at h ⊢
  refine ⟨h.1, Nat.lt_of_lt_of_le h.2 ?_⟩
  split_ifs with hn hm
  · omega
  · omega
  · rename_i hm
    exact absurd ⟨by omega, hm.2⟩ hn
  · omega

theorem Accepted.near {noDynamic : Bool} {n m : Nat} {x y : Xid} (hx : Accepted noDynamic n x)
    (hy : Accepted noDynamic m y) : Near x y := by
  rw [accepted_iff] at hx hy
  unfold Near
  split_ifs at hx hy <;> omega

/-- The contexts that have an entry after the records `rs`. -/
def listed (noDynamic : Bool) (rs : List CgroupRecord) : List Xid :=
  (rs.zipIdx.filter fun i => decide (Accepted noDynamic i.2 i.1.xid) && i.1.cgroup.isSome).map
    (fun i => i.1.xid)

/-- The sum of the `VmSize` values of a context. -/
def vmSizeOf (rs : List CgroupRecord) (x : Xid) : BitVec 64 :=
  ((recordsOf (rs.map CgroupRecord.process) x).map ProcessInfo.VmSize).sum

/-- What the slot of `x` holds when its entry is made after the records `rs`: the sum of the
next larger context, or else what the memory holds behind the last entry. -/
def leftover (env : StatEnv) (rs : List CgroupRecord) (x : Xid) : BitVec 64 :=
  match (((listed env.noDynamic rs).map BitVec.toNat).filter (x.toNat < ·)).min? with
  | some y => vmSizeOf rs (BitVec.ofNat 32 y)
  | none => (env.memory (listed env.noDynamic rs).dedup.length).VmSize_total

theorem listed_snoc (noDynamic : Bool) (rs : List CgroupRecord) (r : CgroupRecord) :
    listed noDynamic (rs ++ [r]) = listed noDynamic rs ++
      if Accepted noDynamic rs.length r.xid ∧ r.cgroup.isSome then [r.xid] else [] := by
  simp only [listed, List.zipIdx_append, List.filter_append, List.map_append]
  split_ifs with h <;> simp [h]

/-! ## One record -/

/-- What the table holds after the records `rs`, its sums left aside. -/
structure Entered (env : StatEnv) (rs : List CgroupRecord) (st : StatState) : Prop where
  static : st.MIN_D_CONTEXT = staticAt env.noDynamic rs.length
  sorted : st.vec.Pairwise (fun a b => a.xid.toNat < b.xid.toNat)
  entered : ∀ x, (∃ e ∈ st.vec, e.xid = x) ↔ x ∈ listed env.noDynamic rs

theorem listed_accepted {noDynamic : Bool} {rs : List CgroupRecord} {x : Xid}
    (h : x ∈ listed noDynamic rs) : Accepted noDynamic rs.length x := by
  simp only [listed, List.mem_map, List.mem_filter, Bool.and_eq_true, decide_eq_true_eq] at h
  obtain ⟨⟨r, n⟩, ⟨hmem, hacc, -⟩, rfl⟩ := h
  have hlt : n < rs.length := by
    have := List.snd_lt_of_mem_zipIdx hmem
    simpa using this
  exact hacc.mono hlt.le

/-- What one record does to the table: nothing; the entry of its context grows; or a new
context gets a slot and starts from the sum the slot holds. -/
theorem registerXidCgroups_cases {env : StatEnv} {rs : List CgroupRecord} {st : StatState}
    (h : Entered env rs st) (r : CgroupRecord) :
    (¬ Accepted env.noDynamic rs.length r.xid ∧ (registerXidCgroups env st r).vec = st.vec) ∨
    (∃ pre e post, st.vec = pre ++ e :: post ∧ e.xid = r.xid ∧
      (registerXidCgroups env st r).vec = pre ++ e.addVmSize r.process :: post) ∨
    (r.xid ∉ listed env.noDynamic rs ∧ r.cgroup = none ∧
      (registerXidCgroups env st r).vec = st.vec) ∨
    (r.xid ∉ listed env.noDynamic rs ∧ Accepted env.noDynamic rs.length r.xid ∧
      ∃ c pre post, r.cgroup = some c ∧ st.vec = pre ++ post ∧
        (registerXidCgroups env st r).vec =
          pre ++ ((post.headD (env.memory st.vec.length)).ofCgroup env.hertz r.xid c).addVmSize
            r.process :: post ∧
        (∀ d ∈ pre, d.xid.toNat < r.xid.toNat) ∧ (∀ d ∈ post, r.xid.toNat < d.xid.toNat)) := by
  have htype : (getXIDType env.noDynamic st.MIN_D_CONTEXT r.xid).1 = .STATIC ∨
      (getXIDType env.noDynamic st.MIN_D_CONTEXT r.xid).1 = .DYNAMIC ↔
      Accepted env.noDynamic rs.length r.xid := by
    rw [h.static]
    exact Iff.rfl
  by_cases hacc : Accepted env.noDynamic rs.length r.xid
  · right
    have hvec : (registerXidCgroups env st r).vec = _ := if_pos (htype.mpr hacc)
    rw [hvec]
    have hagree : Agrees (cmpData r.xid) (fun e => e.xid.toNat) r.xid.toNat st.vec := by
      refine cmpData_agrees fun e he => ?_
      exact hacc.near (listed_accepted ((h.entered e.xid).mp ⟨e, he, rfl⟩))
    cases hsearch : search (cmpData r.xid) st.vec with
    | some i =>
      left
      obtain ⟨e, he, hc⟩ := bsearch_some hsearch
      obtain ⟨hi, rfl⟩ := List.getElem?_eq_some_iff.mp he
      exact ⟨st.vec.take i, st.vec[i], st.vec.drop (i + 1), by simp, cmpData_zero hc,
        List.modify_eq_take_cons_drop hi⟩
    | none =>
      right
      have hnew := bsearch_none h.sorted hagree hsearch
      have hout : r.xid ∉ listed env.noDynamic rs := by
        intro hin
        obtain ⟨e, he, hex⟩ := (h.entered r.xid).mpr hin
        exact hnew e he (congrArg BitVec.toNat hex)
      cases hcg : r.cgroup with
      | none => exact .inl ⟨hout, rfl, rfl⟩
      | some c =>
        obtain ⟨pre, post, hsplit, hins, hpre, hpost⟩ :=
          insert_spec (cmpData r.xid) (env.memory st.vec.length) st.vec
        obtain ⟨hbelow, habove⟩ := insert_between (hsplit ▸ h.sorted) (hsplit ▸ hagree)
          (hsplit ▸ hnew) hpre hpost
        refine .inr ⟨hout, hacc, c, pre, post, rfl, hsplit, ?_, hbelow, habove⟩
        simp only [hins, modify_append]
  · left
    exact ⟨hacc, if_neg (fun ht => hacc (htype.mp ht))⟩

theorem Entered.nil (env : StatEnv) : Entered env [] ⟨0, []⟩ := by
  constructor <;> simp [staticAt, listed]

/-- One record keeps the table in order, with one entry for every context that was entered. -/
theorem Entered.step {env : StatEnv} {rs : List CgroupRecord} {st : StatState}
    (h : Entered env rs st) (r : CgroupRecord) :
    Entered env (rs ++ [r]) (registerXidCgroups env st r) := by
  have hstatic : (registerXidCgroups env st r).MIN_D_CONTEXT =
      staticAt env.noDynamic (rs ++ [r]).length := by
    rw [List.length_append]
    show (getXIDType env.noDynamic st.MIN_D_CONTEXT r.xid).2 = _
    rw [h.static]
    rfl
  rcases registerXidCgroups_cases h r with ⟨hacc, hvec⟩ | ⟨pre, e, post, hsplit, hx, hvec⟩ |
    ⟨hout, hnone, hvec⟩ | ⟨hout, hacc, c, pre, post, hc, hsplit, hvec, hbelow, habove⟩
  · refine ⟨hstatic, hvec ▸ h.sorted, fun x => ?_⟩
    rw [hvec, h.entered, listed_snoc, if_neg fun hr => hacc hr.1, List.append_nil]
  · refine ⟨hstatic, ?_, fun x => ?_⟩
    · have hs := List.pairwise_map (f := fun e : XidData => e.xid.toNat).mpr h.sorted
      rw [hsplit] at hs
      rw [hvec]
      exact List.pairwise_map.mp (by simpa using hs)
    · have hin : r.xid ∈ listed env.noDynamic rs :=
        (h.entered r.xid).mp ⟨e, by simp [hsplit], hx⟩
      have hentered := h.entered x
      rw [hsplit] at hentered
      have hsame : x ∈ listed env.noDynamic (rs ++ [r]) ↔ x ∈ listed env.noDynamic rs := by
        rw [listed_snoc, List.mem_append]
        refine ⟨fun hx => hx.elim id fun hx => ?_, .inl⟩
        split_ifs at hx
        · rwa [List.mem_singleton.mp hx]
        · simp at hx
      rw [hsame, ← hentered, hvec, ← List.mem_map, ← List.mem_map]
      simp
  · refine ⟨hstatic, hvec ▸ h.sorted, fun x => ?_⟩
    rw [hvec, h.entered, listed_snoc, if_neg fun hr => by simp [hnone] at hr, List.append_nil]
  · refine ⟨hstatic, ?_, fun x => ?_⟩
    · rw [hvec]
      exact sorted_put (hsplit ▸ h.sorted) hbelow habove
    · have hentered := h.entered x
      rw [hsplit] at hentered
      rw [hvec, listed_snoc, if_pos ⟨hacc, by simp [hc]⟩, List.mem_append, ← hentered]
      simp only [List.mem_append, List.mem_cons, List.not_mem_nil, or_false]
      constructor
      · rintro ⟨d, hd | rfl | hd, hdx⟩
        · exact .inl ⟨d, .inl hd, hdx⟩
        · exact .inr hdx.symm
        · exact .inl ⟨d, .inr hd, hdx⟩
      · rintro (⟨d, hd | hd, hdx⟩ | rfl)
        · exact ⟨d, .inl hd, hdx⟩
        · exact ⟨d, .inr (.inr hd), hdx⟩
        · exact ⟨_, .inr (.inl rfl), rfl⟩

theorem registerXidsCgroups_snoc (env : StatEnv) (rs : List CgroupRecord) (r : CgroupRecord) :
    registerXidsCgroups env (rs ++ [r]) =
      registerXidCgroups env (registerXidsCgroups env rs) r := by
  simp [registerXidsCgroups]

theorem registerXidsCgroups_entered (env : StatEnv) (rs : List CgroupRecord) :
    Entered env rs (registerXidsCgroups env rs) := by
  induction rs using List.reverseRecOn with
  | nil => exact Entered.nil env
  | append_singleton rs r ih =>
    rw [registerXidsCgroups_snoc]
    exact ih.step r

/-! ## The sums -/

/-- Every entry shows the sum of its context. -/
def VmSizes (rs : List CgroupRecord) (vec : List XidData) : Prop :=
  ∀ e ∈ vec, e.VmSize_total = vmSizeOf rs e.xid

theorem vmSizes_put {rs : List CgroupRecord} {pre post : List XidData} {e : XidData} :
    VmSizes rs (pre ++ e :: post) ↔
      VmSizes rs (pre ++ post) ∧ e.VmSize_total = vmSizeOf rs e.xid := by
  simp only [VmSizes, List.mem_append, List.mem_cons]
  constructor
  · intro h
    exact ⟨fun d hd => h d (by tauto), h e (by tauto)⟩
  · rintro ⟨h, he⟩ d (hd | rfl | hd)
    · exact h d (.inl hd)
    · exact he
    · exact h d (.inr hd)

theorem vmSizeOf_snoc_self (rs : List CgroupRecord) (r : CgroupRecord) :
    vmSizeOf (rs ++ [r]) r.xid = vmSizeOf rs r.xid + r.process.VmSize := by
  rw [vmSizeOf, List.map_append, List.map_singleton, CgroupRecord.xid, recordsOf_snoc_self]
  simp [vmSizeOf]

theorem vmSizeOf_snoc_ne (rs : List CgroupRecord) {r : CgroupRecord} {x : Xid}
    (h : x ≠ r.xid) : vmSizeOf (rs ++ [r]) x = vmSizeOf rs x := by
  rw [vmSizeOf, List.map_append, List.map_singleton, recordsOf_snoc_ne _ h.symm]
  rfl

theorem vmSizes_others {rs : List CgroupRecord} {r : CgroupRecord} {vec : List XidData}
    (h : ∀ d ∈ vec, d.xid ≠ r.xid) : VmSizes (rs ++ [r]) vec ↔ VmSizes rs vec := by
  constructor
  · intro hv d hd
    rw [hv d hd, vmSizeOf_snoc_ne rs (h d hd)]
  · intro hv d hd
    rw [hv d hd, vmSizeOf_snoc_ne rs (h d hd)]

/-- Memory is read at the slot behind the entries. -/
theorem Entered.length {env : StatEnv} {rs : List CgroupRecord} {st : StatState}
    (h : Entered env rs st) : st.vec.length = (listed env.noDynamic rs).dedup.length := by
  have hnodup : (st.vec.map XidData.xid).Nodup :=
    List.pairwise_map.mpr (h.sorted.imp fun hlt heq => by
      rw [heq] at hlt
      omega)
  have hperm : (st.vec.map XidData.xid).Perm (listed env.noDynamic rs).dedup := by
    rw [List.perm_ext_iff_of_nodup hnodup (List.nodup_dedup _)]
    intro x
    rw [List.mem_dedup, ← h.entered]
    simp
  rw [← hperm.length_eq, List.length_map]

/-- What the slot of a new context holds, in terms of the records. -/
theorem slot_leftover {env : StatEnv} {rs : List CgroupRecord} {st : StatState}
    (h : Entered env rs st) (hv : VmSizes rs st.vec) {x : Xid} {pre post : List XidData}
    (hsplit : st.vec = pre ++ post) (hbelow : ∀ d ∈ pre, d.xid.toNat < x.toNat)
    (habove : ∀ d ∈ post, x.toNat < d.xid.toNat) :
    (post.headD (env.memory st.vec.length)).VmSize_total = leftover env rs x := by
  have hmem : ∀ b, b ∈ ((listed env.noDynamic rs).map BitVec.toNat).filter (x.toNat < ·) ↔
      ∃ d ∈ post, d.xid.toNat = b := by
    intro b
    simp only [List.mem_filter, List.mem_map, ← h.entered, hsplit, List.mem_append,
      decide_eq_true_eq]
    constructor
    · rintro ⟨⟨y, ⟨d, hd | hd, rfl⟩, rfl⟩, hlt⟩
      · exact absurd (hbelow d hd) (by omega)
      · exact ⟨d, hd, rfl⟩
    · rintro ⟨d, hd, rfl⟩
      exact ⟨⟨d.xid, ⟨d, .inr hd, rfl⟩, rfl⟩, habove d hd⟩
  unfold leftover
  cases post with
  | nil =>
    have hnil : ((listed env.noDynamic rs).map BitVec.toNat).filter (x.toNat < ·) = [] := by
      refine List.eq_nil_iff_forall_not_mem.mpr fun b hb => ?_
      simpa using (hmem b).mp hb
    rw [hnil, h.length]
    rfl
  | cons y post =>
    have hmin : (((listed env.noDynamic rs).map BitVec.toNat).filter (x.toNat < ·)).min? =
        some y.xid.toNat := by
      refine List.min?_eq_some_iff.mpr ⟨(hmem _).mpr ⟨y, by simp, rfl⟩, fun b hb => ?_⟩
      obtain ⟨d, hd, rfl⟩ := (hmem b).mp hb
      rcases List.mem_cons.mp hd with rfl | hd
      · exact Nat.le_refl _
      · have hs := h.sorted
        rw [hsplit] at hs
        exact ((List.pairwise_cons.mp (List.pairwise_append.mp hs).2.1).1 d hd).le
    rw [hmin]
    show y.VmSize_total = vmSizeOf rs (BitVec.ofNat 32 y.xid.toNat)
    rw [hv y (by simp [hsplit]), BitVec.ofNat_toNat, BitVec.setWidth_eq]

/-- The record makes an entry whose slot holds the sum of the records before, zero when none of
them was passed over. -/
def StartsRight (env : StatEnv) (rs : List CgroupRecord) (r : CgroupRecord) : Prop :=
  Accepted env.noDynamic rs.length r.xid → r.cgroup.isSome → r.xid ∉ listed env.noDynamic rs →
    leftover env rs r.xid = vmSizeOf rs r.xid

/-- The sums stay right exactly if the new entry, if there is one, starts right: what an entry
is off by never changes. -/
theorem vmSizes_step {env : StatEnv} {rs : List CgroupRecord} {st : StatState}
    (h : Entered env rs st) (r : CgroupRecord) :
    VmSizes (rs ++ [r]) (registerXidCgroups env st r).vec ↔
      VmSizes rs st.vec ∧ StartsRight env rs r := by
  have hothers : r.xid ∉ listed env.noDynamic rs → ∀ d ∈ st.vec, d.xid ≠ r.xid :=
    fun hout d hd hdx => hout ((h.entered r.xid).mp ⟨d, hd, hdx⟩)
  rcases registerXidCgroups_cases h r with ⟨hacc, hvec⟩ | ⟨pre, e, post, hsplit, hx, hvec⟩ |
    ⟨hout, hnone, hvec⟩ | ⟨hout, hacc, c, pre, post, hc, hsplit, hvec, hbelow, habove⟩
  · have hout : r.xid ∉ listed env.noDynamic rs := fun hin => hacc (listed_accepted hin)
    rw [hvec, vmSizes_others (hothers hout)]
    exact (and_iff_left fun ha => absurd ha hacc).symm
  · have hstart : StartsRight env rs r := fun _ _ hout =>
      absurd ((h.entered r.xid).mp ⟨e, by simp [hsplit], hx⟩) hout
    have hne := sorted_others (hsplit ▸ h.sorted)
    rw [hvec, hsplit, vmSizes_put, vmSizes_put, vmSizes_others (hx ▸ hne), and_iff_left hstart]
    refine and_congr_right fun _ => ?_
    rw [XidData.addVmSize_xid, XidData.addVmSize_VmSize, hx, vmSizeOf_snoc_self]
    exact add_left_inj _
  · rw [hvec, vmSizes_others (hothers hout)]
    exact (and_iff_left fun _ hs => by simp [hnone] at hs).symm
  · have hne := hothers hout
    rw [hsplit] at hne
    rw [hvec, vmSizes_put, vmSizes_others hne, ← hsplit]
    refine and_congr_right fun hv => ?_
    rw [XidData.addVmSize_xid, XidData.ofCgroup_xid, XidData.addVmSize_VmSize,
      XidData.ofCgroup_VmSize, vmSizeOf_snoc_self, slot_leftover h hv hsplit hbelow habove,
      add_left_inj]
    constructor
    · exact fun heq _ _ _ => heq
    · exact fun hstart => hstart hacc (by simp [hc]) hout

/-- **Every entry shows the sum over the processes of its context exactly if** each new entry
starts right: what its slot holds, the sum of the next larger context entered before or the
memory behind the last entry, is the sum of its own processes passed over so far. -/
theorem registerXidsCgroups_vmSize (env : StatEnv) (rs : List CgroupRecord) :
    (∀ e ∈ (registerXidsCgroups env rs).vec, e.VmSize_total = vmSizeOf rs e.xid) ↔
      ∀ pre r post, rs = pre ++ r :: post → StartsRight env pre r := by
  show VmSizes rs (registerXidsCgroups env rs).vec ↔ _
  induction rs using List.reverseRecOn with
  | nil => simp [registerXidsCgroups, VmSizes]
  | append_singleton rs r ih =>
    rw [registerXidsCgroups_snoc, vmSizes_step (registerXidsCgroups_entered env rs) r, ih]
    constructor
    · rintro ⟨hbefore, hlast⟩ pre q post hsplit
      rcases List.eq_nil_or_concat post with rfl | ⟨post, z, rfl⟩
      · obtain ⟨rfl, hq⟩ := List.append_inj' hsplit rfl
        cases hq
        exact hlast
      · refine hbefore pre q post ?_
        have hcat : rs ++ [r] = (pre ++ q :: post) ++ [z] := by simpa using hsplit
        exact (List.append_inj' hcat rfl).1
    · intro hall
      exact ⟨fun pre q post hsplit => hall pre q (post ++ [r]) (by simp [hsplit]),
        hall rs r [] rfl⟩

/-- Slots of zeroes, and two processes of different contexts, the larger context first. -/
def leakEnv : StatEnv := ⟨true, 100, fun _ => ⟨0, 0, 0, 0, 0, 0, 0⟩⟩

def leakRecords : List CgroupRecord :=
  [⟨⟨5, 1, 0, 0, 0, 0, 0, 200⟩, some ⟨1, 0, 0, 0, 0, 0⟩⟩,
    ⟨⟨3, 1, 0, 0, 0, 0, 0, 100⟩, some ⟨1, 0, 0, 0, 0, 0⟩⟩]

/-- The smaller context starts from the sum of the larger one: `8` pages instead of `3`. -/
theorem registerXidsCgroups_leak :
    (registerXidsCgroups leakEnv leakRecords).vec.map (fun e => (e.xid, e.VmSize_total)) =
      [(100, 8), (200, 5)] ∧
    ¬ ∀ env rs, ∀ e ∈ (registerXidsCgroups env rs).vec, e.VmSize_total = vmSizeOf rs e.xid := by
  refine ⟨by decide, fun h => ?_⟩
  exact absurd (h leakEnv leakRecords) (by decide)

end VserverStat
