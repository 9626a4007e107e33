import UtilVserver.ListParser

/-!
# The name tables of the library (`lib/val2text.hc` and its users)

Every kind of bit set comes with a table of names.  The source instantiates the same three
functions for each of them; here they take the table as a parameter.

* `value2text`, `text2value` — the two searches of `val2text.hc` (from a text to its entry, and
  from a value to the entry of the whole value or of its lowest bit).
* `NameTable.text2val`, `NameTable.lo2text` — `vc_text2bcap` and `vc_lobcap2text`.
* `NameTable.lookup` — the `_err` wrapper that `vc_list2bcap` passes to the list parser.
* `bcaps`, `ccaps`, `cflags`, `umasks`, `nflags`, `ncaps` — the six tables.
-/

set_option autoImplicit false

namespace NameTables

open CString BitMention ListParser

/-- `struct Mapping_uint64`. -/
structure Mapping where
  id : Text
  val : BitVec 64
  deriving DecidableEq

/-- `sizeof(STR)-1`. -/
def Mapping.len (m : Mapping) : Nat := m.id.length

/-- `utilvserver_value2text_uint64`. -/
def value2text (str : Text) (len : Nat) (map : List Mapping) : Option Mapping :=
  let len := if len = 0 then str.length else len
  map.find? fun m => len == m.len && strncasecmp m.id str len

/-- `searchValue`. -/
def searchValue (val : BitVec 64) (map : List Mapping) : Option Mapping :=
  map.find? fun m => val == m.val

/-- `for (i=0; i<64 && (*val&(1<<i))==0; ++i) {}`, which ends at 64 when no bit is set. -/
def lowestBit (val : BitVec 64) : Nat :=
  (List.range 64).findIdx fun i => val.getLsbD i

/-- `utilvserver_text2value_uint64`: the entry, and what is left of `*val`. -/
def text2value (val : BitVec 64) (map : List Mapping) : Option (Mapping × BitVec 64) :=
  if val = 0#64 then none
  else
    match searchValue val map with
    | some m => some (m, val &&& ~~~val)
    | none =>
      let delVal := 1#64 <<< lowestBit val
      (searchValue delVal map).map fun m => (m, val &&& ~~~delVal)

/-- `removePrefix`: the moved `str` and `*len`. -/
def removePrefix (pfx str : Text) (len : Nat) : Text × Nat :=
  if (len = 0 ∨ 4 < len) ∧ strncasecmp pfx str 4 = true then
    (str.drop 4, if 4 < len then len - 4 else len)
  else (str, len)

/-- A table with the prefix its names may carry.  Neither starts with the separator of lists. -/
structure NameTable where
  pfx : Option Text
  values : List Mapping
  pfx_head : pfx.all (fun p => p.head?.any (· != ',')) = true := by decide
  values_head : values.all (fun m => m.id.head?.any (· != ',')) = true := by decide

/-- `vc_text2bcap` and its siblings; 0 stands for a name that is not in the table. -/
def NameTable.text2val (t : NameTable) (str : Text) (len : Nat) : BitVec 64 :=
  let p := match t.pfx with
    | some pfx => removePrefix pfx str len
    | none => (str, len)
  match value2text p.1 p.2 t.values with
  | some m => m.val
  | none => 0#64

/-- `vc_lobcap2text` and its siblings. -/
def NameTable.lo2text (t : NameTable) (val : BitVec 64) : Option (Text × BitVec 64) :=
  (text2value val t.values).map fun r => (r.1.id, r.2)

/-- `vc_text2bcap_err` and its siblings. -/
def NameTable.text2valErr (t : NameTable) (str : Text) (len : Nat) : Option (BitVec 64) :=
  let res := t.text2val str len
  if res = 0#64 then none else some res

/-! ## The searches look at `len` characters only -/

theorem value2text_append (map : List Mapping) {u : Text} (hu : u ≠ []) (r : Text) :
    value2text (u ++ r) u.length map = value2text u u.length map := by
  have hlen : ¬ u.length = 0 := by simp [hu]
  have hcmp : ∀ m : Mapping, strncasecmp m.id (u ++ r) u.length = strncasecmp m.id u u.length := by
    intro m
    rw [Bool.eq_iff_iff, strncasecmp_iff, strncasecmp_iff]
    simp
  simp only [value2text, if_neg hlen, hcmp]

theorem strncasecmp_four_append (pfx : Text) {u : Text} (hu : 4 < u.length) (r : Text) :
    strncasecmp pfx (u ++ r) 4 = strncasecmp pfx u 4 := by
  rw [Bool.eq_iff_iff, strncasecmp_iff, strncasecmp_iff, List.take_append_of_le_length (by omega)]

/-- Stripping the prefix leaves a non-empty part of the name, whatever follows it. -/
theorem removePrefix_append (pfx : Text) {u : Text} (hu : u ≠ []) (r : Text) :
    ∃ v, v ≠ [] ∧ removePrefix pfx (u ++ r) u.length = (v ++ r, v.length) ∧
      removePrefix pfx u u.length = (v, v.length) := by
  have hlen : ¬ u.length = 0 := by simp [hu]
  by_cases h4 : 4 < u.length
  · have hcmp := strncasecmp_four_append pfx h4 r
    by_cases hp : strncasecmp pfx u 4 = true
    · refine ⟨u.drop 4, by simp [List.drop_eq_nil_iff]; omega, ?_, ?_⟩
      · have hdrop : (u ++ r).drop 4 = u.drop 4 ++ r := List.drop_append_of_le_length (by omega)
        rw [removePrefix, if_pos ⟨Or.inr h4, by rw [hcmp]; exact hp⟩, if_pos h4, hdrop,
          List.length_drop]
      · rw [removePrefix, if_pos ⟨Or.inr h4, hp⟩, if_pos h4, List.length_drop]
    · exact ⟨u, hu, by simp [removePrefix, hcmp, hp], by simp [removePrefix, hp]⟩
  · exact ⟨u, hu, by simp [removePrefix, hu, h4], by simp [removePrefix, hu, h4]⟩

theorem text2val_append (t : NameTable) {u : Text} (hu : u ≠ []) (r : Text) :
    t.text2val (u ++ r) u.length = t.text2val u u.length := by
  unfold NameTable.text2val
  cases t.pfx with
  | none => simp only [value2text_append t.values hu r]
  | some pfx =>
    obtain ⟨v, hv, hvr, hv0⟩ := removePrefix_append pfx hu r
    simp only [hvr, hv0, value2text_append t.values hv r]

theorem toLower_ne_comma {c : Char} (h : c ≠ ',') : c.toLower ≠ ',' := by
  unfold Char.toLower
  split
  · rename_i hc
    intro he
    have hv := congrArg (fun d : Char => d.val.toNat) he
    obtain ⟨hlo, hhi⟩ := hc
    simp only [ge_iff_le, UInt32.le_iff_toNat_le] at hlo hhi
    simp only [UInt32.toNat_add] at hv
    change (c.val.toNat + 32) % 4294967296 = 44 at hv
    change 65 ≤ c.val.toNat at hlo
    change c.val.toNat ≤ 90 at hhi
    omega
  · exact h

/-- A text that does not start with a comma differs from one that does. -/
theorem strncasecmp_comma {p : Text} (hp : p.head?.any (· != ',') = true) (r : Text) (n : Nat) :
    strncasecmp p (',' :: r) (n + 1) = false := by
  cases p with
  | nil => rfl
  | cons c p =>
    have hc : c ≠ ',' := by simpa using hp
    have hl : (c.toLower == ',') = false := by simpa using toLower_ne_comma hc
    have hcomma : Char.toLower ',' = ',' := by decide
    rw [strncasecmp, hcomma, hl, Bool.false_and]

/-- No name is found behind a comma. -/
theorem text2val_comma (t : NameTable) (r : Text) : t.text2val (',' :: r) 0 = 0#64 := by
  have hfind : value2text (',' :: r) 0 t.values = none := by
    simp only [value2text, if_true, List.find?_eq_none, List.length_cons, Bool.and_eq_true,
      not_and, Bool.not_eq_true]
    intro m hm _
    exact strncasecmp_comma (List.all_eq_true.1 t.values_head m hm) r _
  unfold NameTable.text2val
  cases hp : t.pfx with
  | none => simp only [hfind]
  | some pfx =>
    have hpfx : pfx.head?.any (· != ',') = true := by simpa [hp] using t.pfx_head
    simp only [removePrefix, strncasecmp_comma hpfx r 3, and_false, if_false, hfind,
      Bool.false_eq_true]

/-- The lookup function `vc_list2bcap` and its siblings pass to the list parser. -/
def NameTable.lookup (t : NameTable) : NameLookup 64 where
  call := t.text2valErr
  bounded u r hu := by simp only [NameTable.text2valErr, text2val_append t hu r]
  noComma r := by simp only [NameTable.text2valErr, text2val_comma t r, if_true]

/-- `vc_list2bcap` and its siblings, which all hand the two words of a record to the parser. -/
def NameTable.list2val (t : NameTable) (str : Text) (len : Nat) (flag mask : BitVec 64) :
    Option (ListResult 64) :=
  listparser uint64 str len flag (some mask) t.lookup.call

/-! ## The tables -/

/-- `DECL(STR, VAL)`. -/
def decl (str : String) (val : BitVec 64) : Mapping := ⟨str.toList, val⟩

/-- `DECL(VAL)` of `bcaps-v13.c`: `1ULL << VC_CAP_##VAL`. -/
def declCap (str : String) (cap : Nat) : Mapping := ⟨str.toList, 1#64 <<< cap⟩

/-- `bcaps-v13.c`. -/
def bcaps : NameTable where
  pfx := some "cap_".toList
  values := [
    declCap "CHOWN" 0, declCap "DAC_OVERRIDE" 1, declCap "DAC_READ_SEARCH" 2, declCap "FOWNER" 3,
    declCap "FSETID" 4, declCap "KILL" 5, declCap "SETGID" 6, declCap "SETUID" 7,
    declCap "SETPCAP" 8, declCap "LINUX_IMMUTABLE" 9, declCap "NET_BIND_SERVICE" 10,
    declCap "NET_BROADCAST" 11, declCap "NET_ADMIN" 12, declCap "NET_RAW" 13,
    declCap "IPC_LOCK" 14, declCap "IPC_OWNER" 15, declCap "SYS_MODULE" 16,
    declCap "SYS_RAWIO" 17, declCap "SYS_CHROOT" 18, declCap "SYS_PTRACE" 19,
    declCap "SYS_PACCT" 20, declCap "SYS_ADMIN" 21, declCap "SYS_BOOT" 22, declCap "SYS_NICE" 23,
    declCap "SYS_RESOURCE" 24, declCap "SYS_TIME" 25, declCap "SYS_TTY_CONFIG" 26,
    declCap "MKNOD" 27, declCap "LEASE" 28, declCap "AUDIT_WRITE" 29,
    declCap "AUDIT_CONTROL" 30, declCap "SETFCAP" 31, declCap "MAC_OVERRIDE" 32,
    declCap "MAC_ADMIN" 33]

/-- `ccaps-v13.c`. -/
def ccaps : NameTable where
  pfx := some "vxc_".toList
  values := [
    decl "set_utsname" 0x00000001, decl "set_rlimit" 0x00000002, decl "fs_security" 0x00000004,
    decl "fs_trusted" 0x00000008, decl "tiocsti" 0x00000010, decl "raw_icmp" 0x00000100,
    decl "syslog" 0x00001000, decl "oom_adjust" 0x00002000, decl "audit_control" 0x00004000,
    decl "secure_mount" 0x00010000, decl "secure_remount" 0x00020000,
    decl "binary_mount" 0x00040000, decl "dev_mount" 0x00080000, decl "quota_ctl" 0x00100000,
    decl "admin_mapper" 0x00200000, decl "admin_cloop" 0x00400000, decl "kthread" 0x01000000,
    decl "namespace" 0x02000000,
    -- some deprecated values
    decl "mount" 0x00010000, decl "remount" 0x00020000, decl "icmp" 0x00000100,
    decl "ping" 0x00000100, decl "utsname" 0x00000001, decl "rlimit" 0x00000002]

/-- `cflags-v13.c`. -/
def cflags : NameTable where
  pfx := some "vxf_".toList
  values := [
    decl "lock" 0x00000001, decl "nproc" 0x00000004, decl "private" 0x00000008,
    decl "fakeinit" 0x00000010, decl "hideinfo" 0x00000020, decl "ulimit" 0x00000040,
    decl "namespace" 0x00000080, decl "sched_hard" 0x00000100, decl "sched_prio" 0x00000200,
    decl "sched_pause" 0x00000400, decl "virt_mem" 0x00010000, decl "virt_uptime" 0x00020000,
    decl "virt_cpu" 0x00040000, decl "virt_load" 0x00080000, decl "virt_time" 0x00100000,
    decl "hide_mount" 0x01000000, decl "hide_netif" 0x02000000, decl "hide_vinfo" 0x04000000,
    decl "state_setup" (1 <<< 32), decl "state_init" (1 <<< 33), decl "state_admin" (1 <<< 34),
    decl "sc_helper" (1 <<< 36), decl "persistent" (1 <<< 38), decl "reboot_kill" (1 <<< 37),
    decl "fork_rss" (1 <<< 48), decl "prolific" (1 <<< 49), decl "igneg_nice" (1 <<< 52),
    decl "igneg_ionice" (1 <<< 53),
    -- some pseudo flags
    decl "secure" 0x02000000, decl "default" (0x00020000 ||| 1 <<< 36),
    -- aliases for the legacy flags
    decl "info_lock" 0x00000001, decl "info_nproc" 0x00000004, decl "info_private" 0x00000008,
    decl "info_init" 0x00000010, decl "info_hideinfo" 0x00000020, decl "info_ulimit" 0x00000040,
    decl "info_namespace" 0x00000080, decl "info_nspace" 0x00000080]

/-- `umask-v23.c`, with the `CLONE_*` values of the kernel; its names have no prefix. -/
def umasks : NameTable where
  pfx := none
  values := [
    decl "fs" 0x00000200, decl "newns" 0x00020000, decl "newuts" 0x04000000,
    decl "newipc" 0x08000000, decl "newuser" 0x10000000, decl "newpid" 0x20000000,
    decl "newnet" 0x40000000]

/-- `nflags-net.c`. -/
def nflags : NameTable where
  pfx := some "nxf_".toList
  values := [
    decl "lock" 0x00000001, decl "private" 0x00000008, decl "single_ip" 0x00000100,
    decl "lback_remap" 0x00000200, decl "remap_lback" 0x00000200, decl "lback_allow" 0x00000400,
    decl "hide_netif" 0x02000000, decl "hide_lback" 0x04000000, decl "state_setup" (1 <<< 32),
    decl "state_admin" (1 <<< 34), decl "sc_helper" (1 <<< 36), decl "persistent" (1 <<< 38),
    -- aliases for the legacy flags
    decl "info_lock" 0x00000001, decl "info_private" 0x00000008]

/-- `ncaps-net.c`. -/
def ncaps : NameTable where
  pfx := some "nxc_".toList
  values := [decl "tun_create" 0x00000001, decl "raw_icmp" 0x00000100]

/-- The tables that `print_bitfield` and the list parsers share. -/
def tables : List NameTable := [bcaps, ccaps, cflags, umasks, nflags, ncaps]

end NameTables
