import UtilVserver.FileCfg
import UtilVserver.Lib.Decimal

/-!
# The interfaces of `vserver-start` (`src/vserver-start/interface-read.c` and `interface-add.c`)

An interface is read from a directory with one file per value; some of the values may come from the
defaults.

* `readEntryStr`, `Iface_read`, `Iface_getIPv4Prefix`, `Iface_add` — the code.  In `Iface_read`,
  the condition operator binds less than the sum in front of it.
* `Complete` — an interface that can be added.

Principal results: `Iface_getIPv4Prefix_mask`, `Iface_read_exact` and `Iface_add_of_complete`.
-/

set_option autoImplicit false

namespace IfaceRead

open CString

/-- `struct Interface`, with the addresses in network order. -/
structure Interface where
  ip : BitVec 32
  mask : BitVec 32
  extip : BitVec 32
  bcast : BitVec 32
  name : Option Text
  scope : Option Text
  dev : Option Text
  mac : Option Text
  nodev : Bool
  direct : Bool
  up : Bool
  deriving DecidableEq

/-- `Iface_init`. -/
def Iface_init : Interface := ⟨0#32, 0#32, 0#32, 0#32, none, none, none, none, false, false, true⟩

/-- The path of a directory, and the content of its files. -/
structure CfgDir where
  path : Text
  file : Text → Option Text

/-- The library of C, and the order of the bytes. -/
structure Env where
  inetAddr : Text → BitVec 32
  littleEndian : Bool

/-- `htonl`. -/
def Env.htonl (env : Env) (x : BitVec 32) : BitVec 32 :=
  if env.littleEndian then
    (x <<< 24) ||| ((x <<< 8) &&& 0xff0000#32) ||| ((x >>> 8) &&& 0xff00#32) ||| (x >>> 24)
  else x

/-! ## Reading -/

/-- The value of a file, its first line. -/
def entryValue (content : Text) : Option Text :=
  if 0 < content.length ∧ content.length < FileCfg.maxFileSize then
    some (cstr (content.takeWhile (· != '\n')))
  else none

/-- `FileCfg_readEntryStr(cfgdir, file, false, dflt)`. -/
def readEntryStr (cfgdir : CfgDir) (file : String) (dflt : Option Text) : Option Text :=
  match (cfgdir.file file.toList).bind entryValue with
  | some res => some res
  | none => dflt

/-- `FileCfg_readEntryFlag(cfgdir, file, false)`. -/
def readEntryFlag (cfgdir : CfgDir) (file : String) : Bool := (cfgdir.file file.toList).isSome

/-- `assumeNonNull`: its result, and what it writes. -/
def assumeNonNull (cfgdir : CfgDir) (file : String) (val : Option Text) : Nat × List Text :=
  match val with
  | some _ => (0, [])
  | none => (1, ["vserver-start: no value configured for '".toList ++ cfgdir.path ++
      '/' :: file.toList ++ "'\n".toList])

/-- The result with the interface and what was written, or an undefined shift. -/
inductive Outcome where
  | returned (rc : Bool) (res : Interface) (out : List Text)
  | undefined

/-- The condition for `dflt`, and what it writes. -/
def lacksValue (cfgdir : CfgDir) (dflt : Interface) (ip dev mask pfx : Option Text) :
    Bool × List Text :=
  let a := assumeNonNull cfgdir "ip" ip
  let b := assumeNonNull cfgdir "dev" dev
  let c := if dflt.mask ≠ 0#32 then 1 else 0
  -- `a + b + c ? 0 : (…)`
  if a.1 + b.1 + c ≠ 0 then (false, a.2 ++ b.2)
  else
    let d := if mask.isSome then (0, []) else assumeNonNull cfgdir "prefix" pfx
    let e := if pfx.isSome then (0, []) else assumeNonNull cfgdir "mask" mask
    (d.1 + e.1 ≠ 0, a.2 ++ b.2 ++ d.2 ++ e.2)

/-- `htonl(-1u << (32-p))`; none when the shift is undefined. -/
def prefixMask (env : Env) (p : Int) : Option (BitVec 32) :=
  if 0 ≤ 32 - p ∧ 32 - p < 32 then some (env.htonl (BitVec.allOnes 32 <<< (32 - p).toNat)) else none

/-- The end of `Iface_read`: the addresses and the mask. -/
def readAddr (env : Env) (cfgdir : CfgDir) (res : Interface) (dflt : Option Interface)
    (ip mask pfx extip bcast : Option Text) (out : List Text) : Outcome :=
  let res := { res with
    bcast := match bcast with | some t => env.inetAddr t | none => res.bcast
    ip := match ip with | some t => env.inetAddr t | none => res.ip
    extip := match extip with | some t => env.inetAddr t | none => res.extip }
  match pfx, mask with
  | some t, _ =>
    let p := (atoi t).toInt
    if p = 0 then
      .returned false res (out ++ ["vserver-start: invalid 'prefix' specified in '".toList ++
        cfgdir.path ++ "'\n".toList])
    else
      match prefixMask env p with
      | some m => .returned true { res with mask := m } out
      | none => .undefined
  | none, some t => .returned true { res with mask := env.inetAddr t } out
  | none, none =>
    .returned true { res with mask := match dflt with | some d => d.mask | none => res.mask } out

/-- `Iface_read`. -/
def Iface_read (env : Env) (res : Interface) (cfgdir : CfgDir) (dflt : Option Interface) :
    Outcome :=
  if readEntryFlag cfgdir "disabled" then .returned true res []
  else
    let ip := readEntryStr cfgdir "ip" none
    let mask := readEntryStr cfgdir "mask" none
    let pfx := readEntryStr cfgdir "prefix" none
    let extip := readEntryStr cfgdir "extip" none
    let bcast := readEntryStr cfgdir "bcast" none
    let res := { res with
      mac := readEntryStr cfgdir "mac" none
      name := readEntryStr cfgdir "name" none
      dev := readEntryStr cfgdir "dev" (dflt.bind Interface.dev)
      scope := readEntryStr cfgdir "scope" (dflt.bind Interface.scope)
      nodev := readEntryFlag cfgdir "nodev"
      direct := !readEntryFlag cfgdir "indirect"
      up := !readEntryFlag cfgdir "down" }
    let lacks := match dflt with
      | some d => lacksValue cfgdir d ip res.dev mask pfx
      | none => (false, [])
    if lacks.1 then .returned false res lacks.2
    else if mask.isSome ∧ pfx.isSome then
      .returned false res (lacks.2 ++ ["vserver-start: both 'prefix' and 'mask' specified in '".toList
        ++ cfgdir.path ++ "'\n".toList])
    else readAddr env cfgdir res dflt ip mask pfx extip bcast lacks.2

/-! ## Adding -/

/-- The loop of `Iface_getIPv4Prefix`, which shifts the mask at most 32 times. -/
def countBits : Nat → BitVec 32 → Nat
  | 0, _ => 0
  | n + 1, mask => if mask ≠ 0#32 then (mask &&& 1#32).toNat + countBits n (mask >>> 1) else 0

/-- `Iface_getIPv4Prefix`. -/
def Iface_getIPv4Prefix (iface : Interface) : Nat := countBits 32 iface.mask

/-- `Iface_add`: its result without a device, the command for one, or the end of the program. -/
inductive Added where
  | nothing
  | ipAddr (ip : BitVec 32) (pfx : Nat) (dev : Text)
  | notImplemented
  | readsNull
  deriving DecidableEq

/-- `Iface_add`. -/
def Iface_add (iface : Interface) : Added :=
  if iface.nodev then .nothing
  else
    match iface.dev with
    | none => .readsNull
    | some dev =>
      if '.' ∈ dev then .notImplemented
      else if !iface.direct then .notImplemented
      else .ipAddr iface.ip (Iface_getIPv4Prefix iface) dev

/-! ## Complete interfaces -/

/-- The values of a directory: its own, and those of the defaults where it may inherit them. -/
structure Complete (env : Env) (cfgdir : CfgDir) (dflt iface : Interface) : Prop where
  ip : ∃ t, readEntryStr cfgdir "ip" none = some t ∧ iface.ip = env.inetAddr t
  dev : iface.dev ≠ none
  own_dev : iface.dev = (readEntryStr cfgdir "dev" none).or dflt.dev
  own_scope : iface.scope = (readEntryStr cfgdir "scope" none).or dflt.scope
  own_mask : ∀ t, readEntryStr cfgdir "mask" none = some t →
    readEntryStr cfgdir "prefix" none = none ∧ iface.mask = env.inetAddr t
  own_prefix : ∀ t, readEntryStr cfgdir "prefix" none = some t →
    1 ≤ (atoi t).toInt ∧ (atoi t).toInt ≤ 32 ∧ (Iface_getIPv4Prefix iface : Int) = (atoi t).toInt
  inherited : readEntryStr cfgdir "mask" none = none → readEntryStr cfgdir "prefix" none = none →
    iface.mask = dflt.mask ∧ dflt.mask ≠ 0#32

/-- A directory that is not disabled is read only into a complete interface, and the reading of one
with both kinds of a mask, or with none and without a default, fails. -/
def ReadsComplete (env : Env) (cfgdir : CfgDir) (dflt : Interface) : Prop :=
  readEntryFlag cfgdir "disabled" = false →
    match Iface_read env Iface_init cfgdir (some dflt) with
    | .returned true iface _ => Complete env cfgdir dflt iface
    | .returned false _ _ => True
    | .undefined => False

/-- Both kinds of a mask are given, or a prefix that is read as 0; or an address and a device are
there, and the prefix, if there is one, is between 1 and 32. -/
def Usable (cfgdir : CfgDir) (dflt : Interface) : Prop :=
  readEntryFlag cfgdir "disabled" = false →
    ((readEntryStr cfgdir "mask" none).isSome ∧ (readEntryStr cfgdir "prefix" none).isSome) ∨
    (∃ t, readEntryStr cfgdir "prefix" none = some t ∧ (atoi t).toInt = 0) ∨
    ((readEntryStr cfgdir "ip" none).isSome ∧
      ((readEntryStr cfgdir "dev" none).isSome ∨ dflt.dev.isSome) ∧
      ∀ t, readEntryStr cfgdir "prefix" none = some t →
        1 ≤ (atoi t).toInt ∧ (atoi t).toInt ≤ 32)

/-! ## The mask of a prefix -/

/-- **The mask made of a prefix has that many bits.** -/
theorem Iface_getIPv4Prefix_mask (env : Env) {p : Int} (hp : 1 ≤ p) (hp' : p ≤ 32) :
    ∃ m, prefixMask env p = some m ∧ (countBits 32 m : Int) = p := by
  have htable : ∀ little : Bool, ∀ n : Fin 32,
      countBits 32 (if little then
        (BitVec.allOnes 32 <<< n.val <<< 24) |||
          ((BitVec.allOnes 32 <<< n.val <<< 8) &&& 0xff0000#32) |||
          ((BitVec.allOnes 32 <<< n.val >>> 8) &&& 0xff00#32) |||
          (BitVec.allOnes 32 <<< n.val >>> 24)
        else BitVec.allOnes 32 <<< n.val) = 32 - n.val := by decide +kernel
  have hrange : 0 ≤ 32 - p ∧ 32 - p < 32 := by omega
  have hlt : (32 - p).toNat < 32 := by omega
  refine ⟨env.htonl (BitVec.allOnes 32 <<< (32 - p).toNat), if_pos hrange, ?_⟩
  have hbits := htable env.littleEndian ⟨(32 - p).toNat, hlt⟩
  dsimp only at hbits
  rw [Env.htonl]
  omega

theorem prefixMask_isSome {env : Env} {p : Int} {m : BitVec 32} (h : prefixMask env p = some m) :
    1 ≤ p ∧ p ≤ 32 := by
  unfold prefixMask at h
  split at h
  · omega
  · cases h

/-! ## Which directories are read -/

theorem readEntryStr_dflt (cfgdir : CfgDir) (file : String) (dflt : Option Text) :
    readEntryStr cfgdir file dflt = (readEntryStr cfgdir file none).or dflt := by
  unfold readEntryStr
  cases (cfgdir.file file.toList).bind entryValue <;> rfl

/-- The check looks at the masks only when nothing else is missing and there is no default. -/
theorem lacksValue_iff (cfgdir : CfgDir) (dflt : Interface) (ip dev mask pfx : Option Text) :
    (lacksValue cfgdir dflt ip dev mask pfx).1 = true ↔
      ip.isSome ∧ dev.isSome ∧ dflt.mask = 0#32 ∧ mask = none ∧ pfx = none := by
  by_cases hd : dflt.mask = 0#32
  · cases ip <;> cases dev <;> cases mask <;> cases pfx <;>
      simp [lacksValue, assumeNonNull, hd]
  · simp [lacksValue, hd]

/-- What is read of an enabled directory before the addresses. -/
def readValues (cfgdir : CfgDir) (dflt : Interface) : Interface :=
  { Iface_init with
    mac := readEntryStr cfgdir "mac" none
    name := readEntryStr cfgdir "name" none
    dev := readEntryStr cfgdir "dev" dflt.dev
    scope := readEntryStr cfgdir "scope" dflt.scope
    nodev := readEntryFlag cfgdir "nodev"
    direct := !readEntryFlag cfgdir "indirect"
    up := !readEntryFlag cfgdir "down" }

/-- The reading of an enabled directory with defaults. -/
theorem Iface_read_enabled (env : Env) {cfgdir : CfgDir} (dflt : Interface)
    (hen : readEntryFlag cfgdir "disabled" = false) :
    ∃ out out' : List Text, Iface_read env Iface_init cfgdir (some dflt) =
      if (readEntryStr cfgdir "ip" none).isSome ∧ (readEntryStr cfgdir "dev" dflt.dev).isSome ∧
          dflt.mask = 0#32 ∧ readEntryStr cfgdir "mask" none = none ∧
          readEntryStr cfgdir "prefix" none = none then
        .returned false (readValues cfgdir dflt) out
      else if (readEntryStr cfgdir "mask" none).isSome ∧
          (readEntryStr cfgdir "prefix" none).isSome then
        .returned false (readValues cfgdir dflt) out'
      else readAddr env cfgdir (readValues cfgdir dflt) (some dflt)
        (readEntryStr cfgdir "ip" none) (readEntryStr cfgdir "mask" none)
        (readEntryStr cfgdir "prefix" none) (readEntryStr cfgdir "extip" none)
        (readEntryStr cfgdir "bcast" none) out := by
  have hlacks := lacksValue_iff cfgdir dflt (readEntryStr cfgdir "ip" none)
    (readEntryStr cfgdir "dev" dflt.dev) (readEntryStr cfgdir "mask" none)
    (readEntryStr cfgdir "prefix" none)
  simp only [← hlacks]
  exact ⟨_, _, by rw [Iface_read, hen]; rfl⟩

/-- An interface with the values of the directory is complete when an address and a device are
there and the mask is right. -/
theorem complete_iff {env : Env} {cfgdir : CfgDir} {dflt iface : Interface}
    (hip : ∀ t, readEntryStr cfgdir "ip" none = some t → iface.ip = env.inetAddr t)
    (hdev : iface.dev = readEntryStr cfgdir "dev" dflt.dev)
    (hscope : iface.scope = readEntryStr cfgdir "scope" dflt.scope)
    (hmask : ∀ t, readEntryStr cfgdir "mask" none = some t →
      readEntryStr cfgdir "prefix" none = none ∧ iface.mask = env.inetAddr t)
    (hpfx : ∀ t, readEntryStr cfgdir "prefix" none = some t →
      1 ≤ (atoi t).toInt ∧ (atoi t).toInt ≤ 32 ∧ (Iface_getIPv4Prefix iface : Int) = (atoi t).toInt)
    (hdflt : (readEntryStr cfgdir "ip" none).isSome → iface.dev.isSome →
      readEntryStr cfgdir "mask" none = none → readEntryStr cfgdir "prefix" none = none →
      iface.mask = dflt.mask ∧ dflt.mask ≠ 0#32) :
    Complete env cfgdir dflt iface ↔
      (readEntryStr cfgdir "ip" none).isSome ∧
        ((readEntryStr cfgdir "dev" none).isSome ∨ dflt.dev.isSome) := by
  have hsome : iface.dev ≠ none ↔
      (readEntryStr cfgdir "dev" none).isSome ∨ dflt.dev.isSome := by
    rw [hdev, readEntryStr_dflt, ← Option.isSome_iff_ne_none, Option.isSome_or, Bool.or_eq_true]
  constructor
  · intro h
    obtain ⟨t, ht, -⟩ := h.ip
    exact ⟨by rw [ht]; rfl, hsome.1 h.dev⟩
  · rintro ⟨hthere, hd⟩
    have hdevthere := hsome.2 hd
    obtain ⟨t, ht⟩ := Option.isSome_iff_exists.1 hthere
    exact {
      ip := ⟨t, ht, hip t ht⟩
      dev := hdevthere
      own_dev := by rw [hdev, readEntryStr_dflt]
      own_scope := by rw [hscope, readEntryStr_dflt]
      own_mask := hmask
      own_prefix := hpfx
      inherited := hdflt hthere (Option.isSome_iff_ne_none.2 hdevthere) }

/-- **A directory is read into a complete interface just when it is usable.** -/
theorem Iface_read_exact (env : Env) (cfgdir : CfgDir) (dflt : Interface) :
    ReadsComplete env cfgdir dflt ↔ Usable cfgdir dflt := by
  refine imp_congr_right fun hen => ?_
  obtain ⟨out, out', hread⟩ := Iface_read_enabled env dflt hen
  rw [hread]
  have hdev := readEntryStr_dflt cfgdir "dev" dflt.dev
  have hip : ∀ t, readEntryStr cfgdir "ip" none = some t →
      (match readEntryStr cfgdir "ip" none with
        | some t => env.inetAddr t
        | none => Iface_init.ip) = env.inetAddr t := by
    intro t ht
    rw [ht]
  cases hm : readEntryStr cfgdir "mask" none with
  | some mask =>
    cases hp : readEntryStr cfgdir "prefix" none with
    | some pfx => simp
    | none =>
      -- only a netmask: it is taken as it is
      rw [if_neg (by simp), if_neg (by simp)]
      dsimp only [readAddr]
      refine (complete_iff hip rfl rfl ?_ ?_ ?_).trans ?_
      · intro t ht
        rw [hm] at ht
        cases ht
        exact ⟨hp, rfl⟩
      · intro t ht
        rw [hp] at ht
        cases ht
      · intro _ _ hnone
        rw [hm] at hnone
        cases hnone
      · simp
  | none =>
    cases hp : readEntryStr cfgdir "prefix" none with
    | some pfx =>
      rw [if_neg (by simp), if_neg (by simp)]
      dsimp only [readAddr]
      by_cases hzero : (atoi pfx).toInt = 0
      · simp [hzero]
      · rw [if_neg hzero]
        by_cases hrange : 1 ≤ (atoi pfx).toInt ∧ (atoi pfx).toInt ≤ 32
        · obtain ⟨m, hmask, hbits⟩ := Iface_getIPv4Prefix_mask env hrange.1 hrange.2
          rw [hmask]
          refine (complete_iff hip rfl rfl ?_ ?_ ?_).trans ?_
          · intro t ht
            rw [hm] at ht
            cases ht
          · intro t ht
            rw [hp] at ht
            cases ht
            exact ⟨hrange.1, hrange.2, hbits⟩
          · intro _ _ _ hnone
            rw [hp] at hnone
            cases hnone
          · simp [hzero, hrange]
        · have hnone : prefixMask env (atoi pfx).toInt = none := by
            cases h : prefixMask env (atoi pfx).toInt with
            | none => rfl
            | some m => exact absurd (prefixMask_isSome h) hrange
          rw [hnone]
          simp only [Option.isSome_some, Option.isSome_none, Bool.false_eq_true, false_and, false_or,
            Option.some.injEq, exists_eq_left', forall_eq', hzero, hrange, and_false]
    | none =>
      by_cases hlacks : (readEntryStr cfgdir "ip" none).isSome ∧
          (readEntryStr cfgdir "dev" dflt.dev).isSome ∧ dflt.mask = 0#32
      · -- nothing else is missing: the lack of a mask is found
        rw [if_pos ⟨hlacks.1, hlacks.2.1, hlacks.2.2, rfl, rfl⟩]
        have hthere := hlacks.2.1
        rw [hdev, Option.isSome_or, Bool.or_eq_true] at hthere
        simp [hlacks.1, hthere]
      · rw [if_neg (fun h => hlacks ⟨h.1, h.2.1, h.2.2.1⟩), if_neg (by simp)]
        dsimp only [readAddr]
        refine (complete_iff hip rfl rfl ?_ ?_ ?_).trans ?_
        · intro t ht
          rw [hm] at ht
          cases ht
        · intro t ht
          rw [hp] at ht
          cases ht
        · intro h1 h2 _ _
          exact ⟨rfl, fun h3 => hlacks ⟨h1, h2, h3⟩⟩
        · simp

/-- A directory with a device and a netmask only is read. -/
theorem Iface_read_wrong :
    ¬ ∀ (env : Env) (cfgdir : CfgDir) (dflt : Interface), ReadsComplete env cfgdir dflt := by
  intro h
  have hread := h ⟨fun _ => 0#32, true⟩
    ⟨"/etc/vservers/web/interfaces/0".toList, fun file =>
      if file = "dev".toList then some "eth0\n".toList
      else if file = "mask".toList then some "255.255.255.0\n".toList
      else none⟩ Iface_init rfl
  obtain ⟨t, ht, -⟩ := hread.ip
  cases ht

/-! ## Adding what was read -/

/-- **A complete interface is never added without a device, and a prefix reaches the command.** -/
theorem Iface_add_of_complete {env : Env} {cfgdir : CfgDir} {dflt iface : Interface}
    (h : Complete env cfgdir dflt iface) :
    Iface_add iface ≠ .readsNull ∧ ∀ t ip pfx dev, readEntryStr cfgdir "prefix" none = some t →
      Iface_add iface = .ipAddr ip pfx dev → (pfx : Int) = (atoi t).toInt := by
  obtain ⟨dev, hdev⟩ := Option.ne_none_iff_exists'.1 h.dev
  unfold Iface_add
  rw [hdev]
  constructor
  · dsimp only
    split_ifs <;> simp
  · intro t ip pfx dev' ht hadd
    dsimp only at hadd
    split_ifs at hadd
    cases hadd
    exact (h.own_prefix t ht).2.2

end IfaceRead
