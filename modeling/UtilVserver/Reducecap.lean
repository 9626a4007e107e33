import UtilVserver.Lib.Decimal

/-!
# The options of `reducecap` (`src/reducecap.c`)

Model of a build with the compat or the legacy API; the options are what `getopt_long` returns
one after the other.

* `vc_text2cap`, `vc_get_insecurebcaps`, `vc_list2cflag_compat` — the functions of the library.
* `getCap`, `step`, `main` — the code.
* `Denotes`, `Named` — the capability that a name stands for, and those that a command line names.

Principal result: `reducecap_exact`.
-/

set_option autoImplicit false

namespace Reducecap

open CString

/-! ## The library -/

structure Cap where
  id : Text
  bit : Nat
  deriving DecidableEq

def CAP2BIT : List Cap :=
  [⟨"CAP_CHOWN".toList, 0⟩, ⟨"CAP_DAC_OVERRIDE".toList, 1⟩, ⟨"CAP_DAC_READ_SEARCH".toList, 2⟩,
   ⟨"CAP_FOWNER".toList, 3⟩, ⟨"CAP_FSETID".toList, 4⟩, ⟨"CAP_KILL".toList, 5⟩,
   ⟨"CAP_SETGID".toList, 6⟩, ⟨"CAP_SETUID".toList, 7⟩, ⟨"CAP_SETPCAP".toList, 8⟩,
   ⟨"CAP_LINUX_IMMUTABLE".toList, 9⟩, ⟨"CAP_NET_BIND_SERVICE".toList, 10⟩,
   ⟨"CAP_NET_BROADCAST".toList, 11⟩, ⟨"CAP_NET_ADMIN".toList, 12⟩, ⟨"CAP_NET_RAW".toList, 13⟩,
   ⟨"CAP_IPC_LOCK".toList, 14⟩, ⟨"CAP_IPC_OWNER".toList, 15⟩, ⟨"CAP_SYS_MODULE".toList, 16⟩,
   ⟨"CAP_SYS_RAWIO".toList, 17⟩, ⟨"CAP_SYS_CHROOT".toList, 18⟩, ⟨"CAP_SYS_PTRACE".toList, 19⟩,
   ⟨"CAP_SYS_PACCT".toList, 20⟩, ⟨"CAP_SYS_ADMIN".toList, 21⟩, ⟨"CAP_SYS_BOOT".toList, 22⟩,
   ⟨"CAP_SYS_NICE".toList, 23⟩, ⟨"CAP_SYS_RESOURCE".toList, 24⟩, ⟨"CAP_SYS_TIME".toList, 25⟩,
   ⟨"CAP_SYS_TTY_CONFIG".toList, 26⟩, ⟨"CAP_MKNOD".toList, 27⟩, ⟨"CAP_LEASE".toList, 28⟩,
   ⟨"CAP_QUOTACTL".toList, 29⟩]

/-- `str += 4` behind the prefix `CAP_`. -/
def dropCap (str : Text) : Text := if strncmp str "CAP_".toList 4 then str.drop 4 else str

/-- `vc_text2cap`. -/
def vc_text2cap (str : Text) : Int :=
  match CAP2BIT.find? fun c => c.id.drop 4 == dropCap str with
  | some c => c.bit
  | none => -1

/-- What `vc_isSupported` says about the two features that matter here. -/
structure Features where
  vshelper : Bool
  migrate : Bool

/-- The argument of `~` in `vc_get_insecurebcaps`, an `int`. -/
def secureCaps (f : Features) : BitVec 32 :=
  [0, 1, 2, 3, 4, 5, 6, 7, 10, 18, 19, 26, 28, 31].foldl (fun m b => m ||| 1#32 <<< b) 0#32
    ||| (if f.vshelper then 1#32 <<< 22 else 0#32) ||| (if f.migrate then 1#32 <<< 29 else 0#32)

/-- `vc_get_insecurebcaps`: the `int` is widened to `uint_least64_t`. -/
def vc_get_insecurebcaps (f : Features) : BitVec 64 := (~~~ secureCaps f).signExtend 64

def FLAGVALUES : List (Text × BitVec 32) :=
  [("lock".toList, 1#32), ("sched".toList, 2#32), ("nproc".toList, 4#32),
   ("private".toList, 8#32), ("fakeinit".toList, 16#32), ("hideinfo".toList, 32#32),
   ("ulimit".toList, 64#32), ("namespace".toList, 128#32)]

/-- `vc_text2cflag_compat`. -/
def vc_text2cflag_compat (str : Text) (len : Nat) : BitVec 32 :=
  let len := if len = 0 then str.length else len
  match FLAGVALUES.find? fun f => len == f.1.length && strncmp f.1 str len with
  | some f => f.2
  | none => 0#32

/-- The loop of `vc_list2cflag_compat`: the flags, or what `err` delimits.  Every round shortens
`len`, which bounds the number of rounds. -/
def flagLoop : Nat → Text → Nat → BitVec 32 → Except Text (BitVec 32)
  | 0, _, _, res => .ok res
  | fuel + 1, str, len, res =>
    if len = 0 then .ok res
    else
      let ptr := strchr str ','
      let cnt := match ptr with
        | some p => str.length - p.length
        | none => len
      let (cnt, len) := if len ≤ cnt then (len, 0) else (cnt, len - (cnt + 1))
      let tmp := vc_text2cflag_compat str cnt
      if tmp = 0#32 then .error (str.take cnt)
      else
        match ptr with
        | none => .ok (res ||| tmp)
        | some p => flagLoop fuel p.tail len (res ||| tmp)

/-- `vc_list2cflag_compat(str, 0, &err)`. -/
def vc_list2cflag_compat (str : Text) : Except Text (BitVec 32) :=
  flagLoop str.length str str.length 0#32

/-! ## The program -/

def OBSOLETE_MAPPING : List Text :=
  ["CHOWN".toList, "DAC_OVERRIDE".toList, "DAC_READ_SEARCH".toList, "FOWNER".toList,
   "FSETID".toList, "KILL".toList, "SETGID".toList, "SETUID".toList, "SETPCAP".toList,
   "SYS_TTY_CONFIG".toList, "LEASE".toList, "SYS_CHROOT".toList, "LINUX_IMMUTABLE".toList,
   "NET_BIND_SERVICE".toList, "NET_BROADCAST".toList, "NET_ADMIN".toList, "NET_RAW".toList,
   "IPC_LOCK".toList, "IPC_OWNER".toList, "SYS_MODULE".toList, "SYS_RAWIO".toList,
   "SYS_PACCT".toList, "SYS_ADMIN".toList, "SYS_BOOT".toList, "SYS_NICE".toList,
   "SYS_RESOURCE".toList, "SYS_TIME".toList, "MKNOD".toList, "QUOTACTL".toList]

/-- A result of `getopt_long`, with `optarg` where the option has an argument. -/
inductive Opt where
  | help
  | version
  | show
  | pid (optarg : Text)
  | secure
  | cap (optarg : Text)
  | flag (optarg : Text)
  /-- `CMD_OBSOLETE_CHOWN+c`, in a build with the legacy API. -/
  | obsolete (c : Fin OBSOLETE_MAPPING.length)
  /-- `'?'`, for which the switch has no case. -/
  | unknown
  deriving DecidableEq

/-- The options, and `argv+optind`. -/
structure CommandLine where
  opts : List Opt
  command : List Text

/-- How the program goes on behind the options, or how it ends before. -/
inductive Outcome where
  | help
  | version
  | unknownCapability (cap : Text)
  /-- `strlen(optarg)` for an option without an argument. -/
  | writesNull
  | unknownFlag (flag : Text)
  | noCommand
  | pidWithoutShow
  | shows (pid : BitVec 32)
  /-- `Evc_new_s_context(VC_SAMECTX, remove, flags)`, `show` when there is a pid, and the command. -/
  | executes (remove flags : BitVec 32) (shown : Option (BitVec 32)) (command : List Text)
  deriving DecidableEq

/-- `getCap(cap)`, with the `optarg` that it writes. -/
def getCap (cap : Text) (optarg : Option Text) : Except Outcome (BitVec 32) :=
  let bit := vc_text2cap cap
  if bit ≠ 0 then
    match optarg with
    | some arg => .error (.unknownCapability arg)
    | none => .error .writesNull
  else .ok (1#32 <<< bit.toNat)

/-- The variables of `main`. -/
structure State where
  remove : BitVec 32
  doShow : Bool
  flags : BitVec 32
  pid : BitVec 32
  deriving DecidableEq

def State.init : State := ⟨0#32, false, 0#32, 0#32⟩

/-- One round of the loop. -/
def step (f : Features) (st : State) : Opt → Except Outcome State
  | .obsolete c => do
    let remove ← getCap OBSOLETE_MAPPING[c] none
    return { st with remove := remove }
  | .help => .error .help
  | .version => .error .version
  | .show => .ok { st with doShow := true }
  | .pid optarg => .ok { st with pid := atoi optarg }
  | .secure => .ok { st with remove := (vc_get_insecurebcaps f).setWidth 32 }
  | .cap optarg => do
    let remove ← getCap optarg (some optarg)
    return { st with remove := remove }
  | .flag optarg =>
    match vc_list2cflag_compat optarg with
    | .ok flags => .ok { st with flags := flags }
    | .error err => .error (.unknownFlag err)
  | .unknown => .ok st

def loop (f : Features) : List Opt → State → Except Outcome State
  | [], st => .ok st
  | o :: os, st => do
    let st ← step f st o
    loop f os st

/-- What follows the loop. -/
def finish (st : State) (command : List Text) : Outcome :=
  if st.doShow = false ∧ command = [] then .noCommand
  else if st.doShow = false ∧ st.pid ≠ 0#32 then .pidWithoutShow
  else if st.doShow = true ∧ command = [] then .shows st.pid
  else .executes st.remove st.flags (if st.doShow then some st.pid else none) command

def main (f : Features) (c : CommandLine) : Outcome :=
  match loop f c.opts .init with
  | .error e => e
  | .ok st => finish st c.command

/-! ## What the command line says -/

/-- The name stands for the bit, with or without its prefix. -/
def Denotes (s : Text) (b : Nat) : Prop :=
  ∃ c ∈ CAP2BIT, c.bit = b ∧ (s = c.id ∨ "CAP_".toList ++ s = c.id)

def Known (s : Text) : Prop := ∃ b, Denotes s b

/-- The capability name that an option gives. -/
def Opt.name : Opt → Option Text
  | .cap optarg => some optarg
  | .obsolete c => some OBSOLETE_MAPPING[c]
  | _ => none

/-- The capabilities that are named, and those of `--secure`. -/
def Named (f : Features) (opts : List Opt) (b : Nat) : Prop :=
  (∃ o ∈ opts, ∃ s ∈ o.name, Denotes s b) ∨
    (.secure ∈ opts ∧ (vc_get_insecurebcaps f).getLsbD b = true)

/-- A name is refused only when it is unknown, no unknown one is passed over, and the command
loses the capabilities that are named. -/
def DropsNamed (f : Features) (c : CommandLine) : Prop :=
  match main f c with
  | .unknownCapability s => ¬ Known s
  | .writesNull => False
  | .executes remove _ _ _ =>
    (∀ o ∈ c.opts, ∀ s ∈ o.name, Known s) ∧
      ∀ b, remove.getLsbD b = true ↔ Named f c.opts b
  | .shows _ | .noCommand | .pidWithoutShow => ∀ o ∈ c.opts, ∀ s ∈ o.name, Known s
  | .help | .version | .unknownFlag _ => True

/-- An option behind which no other is read. -/
def Opt.exits : Opt → Bool
  | .help | .version => true
  | .flag optarg => match vc_list2cflag_compat optarg with
    | .ok _ => false
    | .error _ => true
  | _ => false

/-- `CHOWN`, which has the bit 0. -/
def isChown (s : Text) : Bool := s == "CHOWN".toList || s == "CAP_CHOWN".toList

/-- The option names a capability other than `CHOWN`. -/
def Opt.other (o : Opt) : Bool := o.name.any fun s => !isChown s

/-- The argument of the last `--pid`. -/
def lastPid (opts : List Opt) : Option Text :=
  (opts.filterMap fun | .pid optarg => some optarg | _ => none).getLast?

/-- The command is executed, if no option prevents it. -/
def Executes (c : CommandLine) : Prop :=
  c.command ≠ [] ∧ (.show ∈ c.opts ∨ ∀ s ∈ lastPid c.opts, atoi s = 0#32)

/-- The first option with a name other than `CHOWN` gives an unknown one to `--cap`, if there is
one; otherwise `--secure` and `CHOWN` are not both given to a command. -/
def SingleChown (c : CommandLine) : Prop :=
  match (c.opts.takeWhile fun o => !o.exits).find? Opt.other with
  | some (.cap s) => ¬ Known s
  | some _ => False
  | none => (∀ o ∈ c.opts, o.exits = false) → Executes c →
      ¬ (.secure ∈ c.opts ∧ ∃ o ∈ c.opts, o.name.isSome)

/-! ## The names -/

theorem dropCap_cases (s : Text) : s = "CAP_".toList ++ dropCap s ∨ s = dropCap s := by
  unfold dropCap
  split
  · rename_i h
    have h' := strncmp_append s "CAP_".toList []
    rw [List.append_nil] at h'
    obtain ⟨t, rfl⟩ := List.isPrefixOf_iff_prefix.1 (h'.symm.trans h)
    exact Or.inl rfl
  · exact Or.inr rfl

theorem isChown_iff (s : Text) :
    isChown s = true ↔ s = "CHOWN".toList ∨ s = "CAP_CHOWN".toList := by
  simp only [isChown, Bool.or_eq_true, beq_iff_eq]

theorem vc_text2cap_eq_zero_iff (s : Text) : vc_text2cap s = 0 ↔ isChown s = true := by
  rw [isChown_iff]
  constructor
  · intro h
    unfold vc_text2cap at h
    split at h
    · rename_i c hc
      have hbit : c.bit = 0 := by omega
      have hfirst : ∀ c ∈ CAP2BIT, c.bit = 0 → c.id.drop 4 = "CHOWN".toList := by decide
      have hdrop : dropCap s = "CHOWN".toList := by
        rw [← hfirst c (List.mem_of_find?_eq_some hc) hbit]
        have hfound : (c.id.drop 4 == dropCap s) = true := by
          have := List.find?_some hc
          exact this
        exact (eq_of_beq hfound).symm
      rcases dropCap_cases s with hs | hs
      · exact Or.inr (by rw [hs, hdrop]; rfl)
      · exact Or.inl (hs.trans hdrop)
    · cases h
  · rintro (rfl | rfl) <;> rfl

theorem denotes_of_isChown {s : Text} (h : isChown s = true) (b : Nat) : Denotes s b ↔ b = 0 := by
  have hbare : ∀ c ∈ CAP2BIT, "CHOWN".toList = c.id ∨ "CAP_".toList ++ "CHOWN".toList = c.id →
      c.bit = 0 := by decide
  have hfull : ∀ c ∈ CAP2BIT, "CAP_CHOWN".toList = c.id ∨
      "CAP_".toList ++ "CAP_CHOWN".toList = c.id → c.bit = 0 := by decide
  constructor
  · rintro ⟨c, hc, rfl, hs⟩
    rcases (isChown_iff s).1 h with rfl | rfl
    · exact hbare c hc hs
    · exact hfull c hc hs
  · rintro rfl
    refine ⟨⟨"CAP_CHOWN".toList, 0⟩, List.mem_cons_self, rfl, ?_⟩
    rcases (isChown_iff s).1 h with rfl | rfl
    · exact Or.inr rfl
    · exact Or.inl rfl

theorem known_of_isChown {s : Text} (h : isChown s = true) : Known s :=
  ⟨0, (denotes_of_isChown h 0).2 rfl⟩

theorem getCap_eq (s : Text) (optarg : Option Text) :
    getCap s optarg = if isChown s then .ok 1#32 else
      .error (match optarg with | some arg => .unknownCapability arg | none => .writesNull) := by
  unfold getCap
  by_cases h : isChown s = true
  · have h0 := (vc_text2cap_eq_zero_iff s).2 h
    simp [h, h0]
  · have h0 : vc_text2cap s ≠ 0 := fun h0 => h ((vc_text2cap_eq_zero_iff s).1 h0)
    rw [if_neg h]
    simp only [ne_eq, h0, not_false_eq_true, if_true]
    cases optarg <;> rfl

/-! ## The loop -/

/-- What the loop says about an option with a name other than `CHOWN`. -/
def Opt.refused : Opt → Outcome
  | .cap optarg => .unknownCapability optarg
  | _ => .writesNull

/-- The value that an option gives to `remove`. -/
def Opt.removes (f : Features) : Opt → Option (BitVec 32)
  | .secure => some ((vc_get_insecurebcaps f).setWidth 32)
  | o => o.name.map fun _ => 1#32

/-- The state behind an option that neither ends the program nor is refused. -/
structure Follows (f : Features) (o : Opt) (st st' : State) : Prop where
  remove : st'.remove = (o.removes f).getD st.remove
  doShow : st'.doShow = (st.doShow || o == .show)
  pid : ∀ s, o = .pid s → st'.pid = atoi s
  samePid : (∀ s, o ≠ .pid s) → st'.pid = st.pid

theorem step_other (f : Features) (st : State) {o : Opt} (h : o.other = true) :
    step f st o = .error o.refused := by
  cases o with
  | cap s =>
    have hs : ¬ isChown s = true := by simpa [Opt.other, Opt.name] using h
    simp only [step, getCap_eq, if_neg hs]
    rfl
  | obsolete c =>
    have hs : ¬ isChown OBSOLETE_MAPPING[c] = true := by simpa [Opt.other, Opt.name] using h
    simp only [step, getCap_eq, if_neg hs]
    rfl
  | _ => cases h

theorem step_exits (f : Features) (st : State) {o : Opt} (h : o.exits = true) :
    ∃ e, step f st o = .error e ∧
      (e = .help ∨ e = .version ∨ ∃ s, e = .unknownFlag s) := by
  cases o with
  | help => exact ⟨.help, rfl, Or.inl rfl⟩
  | version => exact ⟨.version, rfl, Or.inr (Or.inl rfl)⟩
  | flag s =>
    cases hl : vc_list2cflag_compat s with
    | ok flags => simp only [Opt.exits, hl, Bool.false_eq_true] at h
    | error err => exact ⟨.unknownFlag err, by simp only [step, hl], Or.inr (Or.inr ⟨err, rfl⟩)⟩
  | _ => cases h

theorem step_goes (f : Features) (st : State) {o : Opt} (he : o.exits = false)
    (ho : o.other = false) : ∃ st', step f st o = .ok st' ∧ Follows f o st st' := by
  cases o with
  | cap s =>
    have hs : isChown s = true := by simpa [Opt.other, Opt.name] using ho
    simp only [step, getCap_eq, if_pos hs]
    exact ⟨_, rfl, rfl, by simp, (fun _ h => by cases h), fun _ => rfl⟩
  | obsolete c =>
    have hs : isChown OBSOLETE_MAPPING[c] = true := by simpa [Opt.other, Opt.name] using ho
    simp only [step, getCap_eq, if_pos hs]
    exact ⟨_, rfl, rfl, by simp, (fun _ h => by cases h), fun _ => rfl⟩
  | flag s =>
    cases hl : vc_list2cflag_compat s with
    | error err => simp only [Opt.exits, hl, Bool.true_eq_false] at he
    | ok flags =>
      simp only [step, hl]
      exact ⟨_, rfl, rfl, by simp, (fun _ h => by cases h), fun _ => rfl⟩
  | help => cases he
  | version => cases he
  | «show» => exact ⟨_, rfl, rfl, by simp, (fun _ h => by cases h), fun _ => rfl⟩
  | pid s => exact ⟨_, rfl, rfl, by simp, (fun _ h => by cases h; rfl), fun h => absurd rfl (h s)⟩
  | secure => exact ⟨_, rfl, rfl, by simp, (fun _ h => by cases h), fun _ => rfl⟩
  | unknown => exact ⟨_, rfl, rfl, by simp, (fun _ h => by cases h), fun _ => rfl⟩

theorem loop_refused (f : Features) : ∀ (os : List Opt) (st : State) {o : Opt},
    (os.takeWhile fun o => !o.exits).find? Opt.other = some o → loop f os st = .error o.refused
  | [], _, _, h => by simp at h
  | p :: os, st, o, h => by
    cases he : p.exits with
    | true => simp [he] at h
    | false =>
      simp only [List.takeWhile_cons, he, Bool.not_false, if_true, List.find?_cons] at h
      cases ho : p.other with
      | true =>
        rw [ho] at h
        cases h
        simp only [loop, step_other f st ho]
        rfl
      | false =>
        rw [ho] at h
        obtain ⟨st', hst, -⟩ := step_goes f st he ho
        simp only [loop, hst]
        exact loop_refused f os st' h

theorem loop_exits (f : Features) : ∀ (os : List Opt) (st : State),
    (os.takeWhile fun o => !o.exits).find? Opt.other = none → (∃ o ∈ os, o.exits = true) →
    ∃ e, loop f os st = .error e ∧ (e = .help ∨ e = .version ∨ ∃ s, e = .unknownFlag s)
  | [], _, _, h => by simp at h
  | p :: os, st, h, hex => by
    cases he : p.exits with
    | true =>
      obtain ⟨e, hst, hcase⟩ := step_exits f st he
      refine ⟨e, ?_, hcase⟩
      simp only [loop, hst]
      rfl
    | false =>
      simp only [List.takeWhile_cons, he, Bool.not_false, if_true, List.find?_cons] at h
      cases ho : p.other with
      | true => rw [ho] at h; cases h
      | false =>
        rw [ho] at h
        obtain ⟨st', hst, -⟩ := step_goes f st he ho
        have hex' : ∃ o ∈ os, o.exits = true := by simpa [he] using hex
        simp only [loop, hst]
        exact loop_exits f os st' h hex'

/-- The state behind options that neither end the program nor are refused. -/
structure Reads (f : Features) (os : List Opt) (st st' : State) : Prop where
  remove : st'.remove = (os.filterMap (Opt.removes f)).getLast?.getD st.remove
  doShow : st'.doShow = true ↔ st.doShow = true ∨ .show ∈ os
  pid : st'.pid = ((lastPid os).map atoi).getD st.pid

theorem lastPid_cons_pid (s : Text) (os : List Opt) :
    lastPid (.pid s :: os) = some ((lastPid os).getD s) := by
  simp [lastPid, List.getLast?_cons]

theorem lastPid_cons {o : Opt} (h : ∀ s, o ≠ .pid s) (os : List Opt) :
    lastPid (o :: os) = lastPid os := by
  cases o with
  | pid s => exact absurd rfl (h s)
  | _ => rfl

theorem Reads.cons {f : Features} {o : Opt} {os : List Opt} {st st' st'' : State}
    (h : Follows f o st st') (hr : Reads f os st' st'') : Reads f (o :: os) st st'' where
  remove := by
    rw [hr.remove, h.remove, List.filterMap_cons]
    cases Opt.removes f o with
    | none => rfl
    | some r => simp [List.getLast?_cons]
  doShow := by
    rw [hr.doShow, h.doShow]
    rw [Bool.or_eq_true, beq_iff_eq, List.mem_cons, or_assoc, @eq_comm _ o]
  pid := by
    by_cases ho : ∃ s, o = .pid s
    · obtain ⟨s, rfl⟩ := ho
      rw [hr.pid, h.pid s rfl, lastPid_cons_pid]
      cases lastPid os <;> rfl
    · rw [hr.pid, h.samePid fun s hs => ho ⟨s, hs⟩, lastPid_cons fun s hs => ho ⟨s, hs⟩]

theorem loop_reads (f : Features) : ∀ (os : List Opt) (st : State),
    (os.takeWhile fun o => !o.exits).find? Opt.other = none → (∀ o ∈ os, o.exits = false) →
    ∃ st', loop f os st = .ok st' ∧ Reads f os st st'
  | [], st, _, _ => ⟨st, rfl, rfl, by simp, rfl⟩
  | p :: os, st, h, hex => by
    have he : p.exits = false := hex p List.mem_cons_self
    simp only [List.takeWhile_cons, he, Bool.not_false, if_true, List.find?_cons] at h
    cases ho : p.other with
    | true => rw [ho] at h; cases h
    | false =>
      rw [ho] at h
      obtain ⟨st', hst, hfollow⟩ := step_goes f st he ho
      obtain ⟨st'', hloop, hreads⟩ :=
        loop_reads f os st' h fun o ho => hex o (List.mem_cons_of_mem p ho)
      refine ⟨st'', ?_, hreads.cons hfollow⟩
      simp only [loop, hst]
      exact hloop

/-! ## The capabilities that are removed -/

theorem insecure_bits (f : Features) :
    (vc_get_insecurebcaps f).getLsbD 0 = false ∧ (vc_get_insecurebcaps f).getLsbD 16 = true ∧
      ((vc_get_insecurebcaps f).setWidth 32).setWidth 64 = vc_get_insecurebcaps f := by
  obtain ⟨vshelper, migrate⟩ := f
  cases vshelper <;> cases migrate <;> decide

/-- Narrowing the word of `--secure` to 32 bits loses none of them. -/
theorem insecure_narrow (f : Features) (b : Nat) :
    ((vc_get_insecurebcaps f).setWidth 32).getLsbD b = (vc_get_insecurebcaps f).getLsbD b := by
  have h := congrArg (fun v : BitVec 64 => v.getLsbD b) (insecure_bits f).2.2
  simp only [BitVec.getLsbD_setWidth] at h ⊢
  by_cases hb : b < 64
  · simpa [hb] using h
  · have hbig : (vc_get_insecurebcaps f).getLsbD b = false :=
      BitVec.getLsbD_of_ge _ _ (by omega)
    simp [hbig]

theorem one_bit (b : Nat) : (1#32).getLsbD b = true ↔ b = 0 := by
  rw [BitVec.getLsbD_one]
  simp

theorem removes_cases {f : Features} {o : Opt} {r : BitVec 32} (h : o.removes f = some r) :
    (o = .secure ∧ r = (vc_get_insecurebcaps f).setWidth 32) ∨ (o.name.isSome ∧ r = 1#32) := by
  cases o with
  | secure => exact Or.inl ⟨rfl, (Option.some.inj h).symm⟩
  | cap s => exact Or.inr ⟨rfl, (Option.some.inj h).symm⟩
  | obsolete c => exact Or.inr ⟨rfl, (Option.some.inj h).symm⟩
  | _ => cases h

theorem removes_none {f : Features} {o : Opt} (h : o.removes f = none) :
    o ≠ .secure ∧ ¬ o.name.isSome := by
  cases o <;> simp_all [Opt.removes, Opt.name]

/-- The last option that assigns `remove` decides about its value. -/
theorem removed_cases {f : Features} {os : List Opt} {st : State} (hr : Reads f os .init st) :
    (st.remove = 0#32 ∧ .secure ∉ os ∧ ¬ ∃ o ∈ os, o.name.isSome) ∨
      (st.remove = (vc_get_insecurebcaps f).setWidth 32 ∧ .secure ∈ os) ∨
      (st.remove = 1#32 ∧ ∃ o ∈ os, o.name.isSome) := by
  have hremove := hr.remove
  cases hl : (os.filterMap (Opt.removes f)).getLast? with
  | none =>
    rw [hl] at hremove
    rw [List.getLast?_eq_none_iff, List.filterMap_eq_nil_iff] at hl
    refine Or.inl ⟨hremove, fun h => (removes_none (hl _ h)).1 rfl, ?_⟩
    rintro ⟨o, ho, hs⟩
    exact (removes_none (hl o ho)).2 hs
  | some r =>
    rw [hl] at hremove
    obtain ⟨o, ho, hrem⟩ := List.mem_filterMap.1 (List.mem_of_getLast? hl)
    rcases removes_cases hrem with ⟨rfl, rfl⟩ | ⟨hs, rfl⟩
    · exact Or.inr (Or.inl ⟨hremove, ho⟩)
    · exact Or.inr (Or.inr ⟨hremove, o, ho, hs⟩)

theorem name_isChown {os : List Opt} (h : ∀ o ∈ os, o.other = false) :
    ∀ o ∈ os, ∀ s ∈ o.name, isChown s = true := by
  intro o ho s hs
  have h := h o ho
  rw [Opt.other, hs] at h
  simpa using h

theorem named_iff (f : Features) {os : List Opt} (h : ∀ o ∈ os, o.other = false) (b : Nat) :
    Named f os b ↔ (b = 0 ∧ ∃ o ∈ os, o.name.isSome) ∨
      (.secure ∈ os ∧ (vc_get_insecurebcaps f).getLsbD b = true) := by
  refine or_congr ?_ Iff.rfl
  constructor
  · rintro ⟨o, ho, s, hs, hb⟩
    exact ⟨(denotes_of_isChown (name_isChown h o ho s hs) b).1 hb, o, ho, by rw [hs]; rfl⟩
  · rintro ⟨hb, o, ho, hs⟩
    obtain ⟨s, hs⟩ := Option.isSome_iff_exists.1 hs
    exact ⟨o, ho, s, hs, (denotes_of_isChown (name_isChown h o ho s hs) b).2 hb⟩

/-- The value of `remove` behind options that are all read. -/
theorem removed_exact (f : Features) {os : List Opt} {st : State}
    (hchown : ∀ o ∈ os, o.other = false) (hr : Reads f os .init st) :
    (∀ b, st.remove.getLsbD b = true ↔ Named f os b) ↔
      ¬ (.secure ∈ os ∧ ∃ o ∈ os, o.name.isSome) := by
  obtain ⟨hzero, hsixteen, -⟩ := insecure_bits f
  constructor
  · rintro hall ⟨hsecure, hname⟩
    have hzero' := (hall 0).2 ((named_iff f hchown 0).2 (Or.inl ⟨rfl, hname⟩))
    have hsixteen' := (hall 16).2 ((named_iff f hchown 16).2 (Or.inr ⟨hsecure, hsixteen⟩))
    rcases removed_cases hr with ⟨-, hno, -⟩ | ⟨hremove, -⟩ | ⟨hremove, -⟩
    · exact hno hsecure
    · rw [hremove, insecure_narrow, hzero] at hzero'
      cases hzero'
    · rw [hremove] at hsixteen'
      cases hsixteen'
  · intro hnot b
    rw [named_iff f hchown b]
    rcases removed_cases hr with ⟨hremove, hsecure, hname⟩ | ⟨hremove, hsecure⟩ | ⟨hremove, hname⟩
    · simp only [hremove, hsecure, hname, BitVec.getLsbD_zero, Bool.false_eq_true, and_false,
        false_and, or_self]
    · have hname : ¬ ∃ o ∈ os, o.name.isSome := fun h => hnot ⟨hsecure, h⟩
      rw [hremove, insecure_narrow]
      simp only [hsecure, hname, and_false, true_and, false_or]
    · have hsecure : .secure ∉ os := fun h => hnot ⟨h, hname⟩
      rw [hremove, one_bit]
      simp only [hsecure, hname, and_true, false_and, or_false]

/-! ## The program -/

theorem takeWhile_of_reads {os : List Opt} (h : ∀ o ∈ os, o.exits = false) :
    (os.takeWhile fun o => !o.exits) = os :=
  List.takeWhile_eq_self_iff.2 fun o ho => by rw [h o ho]; rfl

theorem finish_cases {f : Features} {c : CommandLine} {st : State}
    (hr : Reads f c.opts .init st) :
    (Executes c ∧ ∃ shown, finish st c.command = .executes st.remove st.flags shown c.command) ∨
      (¬ Executes c ∧ (finish st c.command = .noCommand ∨
        finish st c.command = .pidWithoutShow ∨ finish st c.command = .shows st.pid)) := by
  have hshow : st.doShow = true ↔ .show ∈ c.opts := by
    rw [hr.doShow]
    simp [State.init]
  have hpid : st.pid = 0#32 ↔ ∀ s ∈ lastPid c.opts, atoi s = 0#32 := by
    rw [hr.pid]
    cases lastPid c.opts <;> simp [State.init]
  unfold finish Executes
  rw [← hshow, ← hpid]
  cases st.doShow <;> by_cases hc : c.command = [] <;> by_cases hp : st.pid = 0#32 <;>
    simp [hc, hp]

/-- **Unless every name is `CHOWN` or unknown, a known one is refused; and `--secure` and
`--cap CHOWN` replace each other.** -/
theorem reducecap_exact (f : Features) (c : CommandLine) : DropsNamed f c ↔ SingleChown c := by
  cases hfind : (c.opts.takeWhile fun o => !o.exits).find? Opt.other with
  | some o =>
    have hother : o.other = true := List.find?_some hfind
    simp only [DropsNamed, SingleChown, main, loop_refused f c.opts .init hfind, hfind]
    cases o with
    | cap s => exact Iff.rfl
    | obsolete c => exact Iff.rfl
    | _ => cases hother
  | none =>
    by_cases hex : ∃ o ∈ c.opts, o.exits = true
    · obtain ⟨e, hloop, hcase⟩ := loop_exits f c.opts .init hfind hex
      obtain ⟨o, ho, he⟩ := hex
      have hright : SingleChown c := by
        simp only [SingleChown, hfind]
        intro hall
        rw [hall o ho] at he
        cases he
      simp only [DropsNamed, main, hloop, hright, iff_true]
      rcases hcase with rfl | rfl | ⟨s, rfl⟩ <;> trivial
    · have hall : ∀ o ∈ c.opts, o.exits = false := by simpa using hex
      obtain ⟨st, hloop, hreads⟩ := loop_reads f c.opts .init hfind hall
      have hchown : ∀ o ∈ c.opts, o.other = false := by
        rw [takeWhile_of_reads hall, List.find?_eq_none] at hfind
        intro o ho
        simpa using hfind o ho
      have hknown : ∀ o ∈ c.opts, ∀ s ∈ o.name, Known s := fun o ho s hs =>
        known_of_isChown (name_isChown hchown o ho s hs)
      rcases finish_cases hreads with ⟨hexec, shown, hfin⟩ | ⟨hexec, hfin⟩
      · simp only [DropsNamed, SingleChown, main, hloop, hfin, hfind]
        rw [removed_exact f hchown hreads]
        exact ⟨fun h _ _ => h.2, fun h => ⟨hknown, h hall hexec⟩⟩
      · have hright : SingleChown c := by
          simp only [SingleChown, hfind]
          exact fun _ h => absurd h hexec
        simp only [DropsNamed, main, hloop, hright, iff_true]
        rcases hfin with h | h | h <;> rw [h] <;> exact hknown

/-- `reducecap --cap KILL cmd` refuses a known name; with `--secure --cap CHOWN`, only the last
of both counts. -/
theorem reducecap_wrong :
    ¬ DropsNamed ⟨false, false⟩ ⟨[.cap "KILL".toList], ["cmd".toList]⟩ ∧
      ¬ DropsNamed ⟨false, false⟩ ⟨[.secure, .cap "CHOWN".toList], ["cmd".toList]⟩ := by
  constructor
  · have hend : main ⟨false, false⟩ ⟨[.cap "KILL".toList], ["cmd".toList]⟩ =
        .unknownCapability "KILL".toList := by decide
    rw [DropsNamed, hend]
    exact fun h => h ⟨5, ⟨"CAP_KILL".toList, 5⟩, by decide, rfl, Or.inr rfl⟩
  · have hend : main ⟨false, false⟩ ⟨[.secure, .cap "CHOWN".toList], ["cmd".toList]⟩ =
        .executes 1#32 0#32 none ["cmd".toList] := by decide
    rw [DropsNamed, hend]
    intro h
    have hbit := (h.2 16).2 (Or.inr ⟨List.mem_cons_self, by decide⟩)
    revert hbit
    decide

end Reducecap
