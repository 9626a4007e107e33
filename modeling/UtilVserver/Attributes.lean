import UtilVserver.PrintBitfield
import UtilVserver.Reducecap

/-!
# Attributes of contexts: `vattribute` and `nattribute`

Both programs collect flag words from their options, set the words of one context with a chain of
calls that ends at the first failure, and print the words of a context.  They differ in the words,
in the calls and in what `--secure` means.

* `Kind`, `Program` — the words, and what is particular to each program.
* `step`, `setAttrs`, `printAttrs`, `main` — the code; `System` answers the calls.
* `System.Sets` — what `vserver.h` says about the calls that set a word.
* `mentioned`, `assigned` — what the options say about a bit, and what becomes of it.

Principal result: `set_exact` — a run changes exactly the bits that the options mention last, in
the words it got to.
-/

set_option autoImplicit false

namespace Attributes

open CString BitMention ListParser NameTables FlagGrammar PrintBitfield
open Reducecap (Features vc_get_insecurebcaps)

/-! ## The words -/

/-- The words of a context, each with an option of its own. -/
inductive Kind where
  | ccap
  | bcap
  | cflag
  | umask
  | ncap
  | nflag
  deriving DecidableEq

/-- The table of `vc_list2ccap`, `vc_loccap2text` and their siblings. -/
def Kind.table : Kind → NameTable
  | .ccap => ccaps
  | .bcap => bcaps
  | .cflag => cflags
  | .umask => umasks
  | .ncap => ncaps
  | .nflag => nflags

/-- What the word is called in an error message. -/
def Kind.noun : Kind → Text
  | .ccap => "ccap".toList
  | .bcap => "bcap".toList
  | .cflag => "flag".toList
  | .umask => "namespace".toList
  | .ncap => "ncap".toList
  | .nflag => "flag".toList

/-- The header of its printed list. -/
def Kind.header : Kind → Text
  | .ccap => "ccapabilities".toList
  | .bcap => "bcapabilities".toList
  | .cflag => "flags".toList
  | .umask => "umask".toList
  | .ncap => "ncapabilities".toList
  | .nflag => "nflags".toList

/-- The two members of `struct vc_ctx_flags` and its siblings. -/
structure Word where
  flag : BitVec 64
  mask : BitVec 64
  deriving DecidableEq

abbrev Words := Kind → Word

/-! ## The two programs -/

inductive Program where
  | vattribute
  | nattribute
  deriving DecidableEq

/-- A function of the library: the text of its error, and the words it is about.  Each word takes
a system call. -/
structure LibCall where
  name : Text
  kinds : List Kind

/-- The conditions of the `if` chain.  `vc_set_ccaps` is the one of version 2.1,
`vc_set_ccaps_v21`, which makes two system calls. -/
def Program.setCalls : Program → List LibCall
  | .vattribute =>
    [⟨"vc_set_ccaps()".toList, [.ccap, .bcap]⟩, ⟨"vc_set_flags()".toList, [.cflag]⟩,
     ⟨"vc_set_umask()".toList, [.umask]⟩]
  | .nattribute =>
    [⟨"vc_set_ncaps()".toList, [.ncap]⟩, ⟨"vc_set_nflags()".toList, [.nflag]⟩]

/-- The calls at the start of `printAttrs`. -/
def Program.getCalls : Program → List LibCall
  | .vattribute =>
    [⟨"vc_get_cflags()".toList, [.cflag]⟩, ⟨"vc_get_ccaps()".toList, [.ccap, .bcap]⟩]
  | .nattribute =>
    [⟨"vc_get_nflags()".toList, [.nflag]⟩, ⟨"vc_get_ncaps()".toList, [.ncap]⟩]

/-- The words in the order in which `printAttrs` prints them. -/
def Program.printed : Program → List Kind
  | .vattribute => [.bcap, .ccap, .cflag, .umask]
  | .nattribute => [.ncap, .nflag]

/-- The words in the order in which they are set. -/
def Program.order (P : Program) : List Kind := P.setCalls.flatMap LibCall.kinds

/-- `Evc_xidopt2xid`, `Evc_nidopt2nid`. -/
def Program.opt2id : Program → Text
  | .vattribute => "vc_xidopt2xid".toList
  | .nattribute => "vc_nidopt2nid".toList

/-- `Evc_get_task_xid`, `Evc_get_task_nid`. -/
def Program.taskId : Program → Text
  | .vattribute => "vc_get_task_xid()".toList
  | .nattribute => "vc_get_task_nid()".toList

/-- `~(VC_VXC_SET_UTSNAME|VC_VXC_RAW_ICMP|VC_VXC_AUDIT_CONTROL)`. -/
def vc_get_insecureccaps : BitVec 64 := ~~~(0x00000001#64 ||| 0x00000100#64 ||| 0x00004000#64)

def VC_VXF_HIDE_NETIF : BitVec 64 := 0x02000000#64

def VC_NXF_HIDE_NETIF : BitVec 64 := 0x02000000#64

def VC_NXC_RAW_ICMP : BitVec 64 := 0x00000100#64

/-- `parseSecure`. -/
def Program.parseSecure (f : Features) : Program → Words → Words
  | .vattribute, _, .ccap => ⟨~~~vc_get_insecureccaps, BitVec.allOnes 64⟩
  | .vattribute, _, .bcap => ⟨~~~vc_get_insecurebcaps f, BitVec.allOnes 64⟩
  | .vattribute, _, .cflag => ⟨VC_VXF_HIDE_NETIF, VC_VXF_HIDE_NETIF⟩
  | .nattribute, _, .ncap => ⟨VC_NXC_RAW_ICMP, VC_NXC_RAW_ICMP⟩
  | .nattribute, _, .nflag => ⟨VC_NXF_HIDE_NETIF, VC_NXF_HIDE_NETIF⟩
  | _, words, k => words k

/-! ## The system -/

/-- A word of a context: its bits, and those a set operation can modify. -/
structure Attr where
  bits : BitVec 64
  modifiable : BitVec 64

/-- The word with the bits of `mask` as `flag` has them, where they can be modified. -/
def Attr.set (a : Attr) (w : Word) : Attr :=
  let m := w.mask &&& a.modifiable
  { a with bits := (a.bits &&& ~~~m) ||| (w.flag &&& m) }

/-- The words of all contexts. -/
abbrev State := Nat → Kind → Attr

/-- The word `k` of the context `c` is set. -/
def State.set (s : State) (c : Nat) (k : Kind) (w : Word) : State := fun c' k' =>
  if c' = c ∧ k' = k then (s c' k').set w else s c' k'

/-- The answers of the system. -/
structure System where
  features : Features
  /-- `vc_xidopt2xid(optarg,true)`, or its sibling; none is `VC_NOCTX`. -/
  opt2id : Text → Option Nat
  /-- `vc_get_task_xid(0)`, or its sibling. -/
  taskId : Option Nat
  /-- The system call that sets a word: whether it succeeds, and what it leaves. -/
  set : Nat → Kind → Word → State → Bool × State
  /-- The system call that reads a word does not fail. -/
  readable : Kind → Nat → State → Bool

/-- What `struct vc_ctx_flags` and its siblings say about set operations: `flagword` are the set
bits, `mask` the set and the unset ones.  A call that fails changes nothing. -/
def System.Sets (sys : System) : Prop :=
  ∀ c k w s, (sys.set c k w s).2 = if (sys.set c k w s).1 then s.set c k w else s

/-! ## The programs -/

/-- A result of `getopt_long`.  `id` is `--xid` or `--nid`, `list` the option of a word. -/
inductive Opt where
  | help
  | version
  | set
  | get
  | id (optarg : CStr)
  | list (k : Kind) (optarg : CStr)
  | secure
  /-- `'?'`. -/
  | unknown

/-- How a run ends. -/
inductive Outcome where
  | undef
  | help
  | version
  | tryHelp
  /-- `FatalErrnoError` with the function that failed. -/
  | fatal (call : Text)
  /-- A list that is not understood, with the message. -/
  | unknown (msg : Text)
  /-- `perror`, with the function that failed. -/
  | failed (call : Text)
  /-- The output, and the command that is executed; without one the program returns. -/
  | ran (out : Text) (command : List Text)
  deriving DecidableEq

/-- `struct Arguments`; `get` is the mode, and no `id` stands for `VC_NOCTX`. -/
structure Arguments where
  id : Option Nat
  words : Words
  get : Bool

def noArgs : Arguments := ⟨none, fun _ => ⟨0#64, 0#64⟩, false⟩

/-- `parseFlags`, `parseBCaps`, `parseCCaps`, `parseUMask`, `parseNCaps`. -/
def parseList (k : Kind) (str : Text) (w : Word) : Except Outcome Word :=
  match k.table.list2val str 0 w.flag w.mask with
  | none => .error .undef
  | some r =>
    if r.code = -1 then
      let err := (str.drop (r.errPtr.getD 0)).take r.errLen
      .error (.unknown ("Unknown ".toList ++ k.noun ++ " '".toList ++ err ++ "'\n".toList))
    else .ok ⟨r.flag, r.mask.getD w.mask⟩

/-- The body of the `switch`.  An option the program does not have is `'?'`. -/
def step (P : Program) (sys : System) (args : Arguments) : Opt → Except Outcome Arguments
  | .help => .error .help
  | .version => .error .version
  | .set => .ok { args with get := false }
  | .get => .ok { args with get := true }
  | .id optarg =>
    match sys.opt2id optarg.text with
    | none => .error (.fatal (P.opt2id ++ "(\"".toList ++ optarg.text ++ "\")".toList))
    | some c => .ok { args with id := some c }
  | .list k optarg =>
    if k ∈ P.printed then
      match parseList k optarg.text (args.words k) with
      | .error o => .error o
      | .ok w => .ok { args with words := fun k' => if k' = k then w else args.words k' }
    else .error .tryHelp
  | .secure => .ok { args with words := P.parseSecure sys.features args.words }
  | .unknown => .error .tryHelp

/-- The system calls of one function of the library; it returns at the first failure. -/
def setKinds (sys : System) (c : Nat) (words : Words) : List Kind → State → Bool × State
  | [], s => (true, s)
  | k :: ks, s =>
    match sys.set c k (words k) s with
    | (true, s) => setKinds sys c words ks s
    | (false, s) => (false, s)

/-- The `if` chain of the mode `CMD_SET`: the function that failed. -/
def setAttrs (sys : System) (c : Nat) (words : Words) : List LibCall → State → Option Text × State
  | [], s => (none, s)
  | call :: calls, s =>
    if call.kinds.any fun k => (words k).mask != 0#64 then
      match setKinds sys c words call.kinds s with
      | (false, s) => (some call.name, s)
      | (true, s) => setAttrs sys c words calls s
    else setAttrs sys c words calls s

/-- The words that `printAttrs` prints: `umask` only when `vc_get_umask` succeeds. -/
def Program.shown (P : Program) (sys : System) (c : Nat) (s : State) : List Kind :=
  P.printed.filter fun k => sys.readable k c s

def printAttrs (P : Program) (sys : System) (c : Nat) (s : State) : Except Outcome Text :=
  match P.getCalls.find? fun call => !call.kinds.all fun k => sys.readable k c s with
  | some call => .error (.fatal call.name)
  | none =>
    .ok ((P.shown sys c s).flatMap fun k => printBitfield k.header k.table (s c k).bits)

def main (P : Program) (sys : System) (opts : List Opt) (command : List Text) (s : State) :
    Outcome × State :=
  match opts.foldlM (step P sys) noArgs with
  | .error o => (o, s)
  | .ok args =>
    match args.id.or sys.taskId with
    | none => (.fatal P.taskId, s)
    | some c =>
      if args.get then
        match printAttrs P sys c s with
        | .error o => (o, s)
        | .ok out => (.ran out command, s)
      else
        match setAttrs sys c args.words P.setCalls s with
        | (some call, s) => (.failed call, s)
        | (none, s) => (.ran [] command, s)

def vattribute : System → List Opt → List Text → State → Outcome × State := main .vattribute

def nattribute : System → List Opt → List Text → State → Outcome × State := main .nattribute

/-! ## What the options say -/

/-- The mentions of a list; none when it is not understood. -/
def readings (k : Kind) (str : Text) : Option (List (Mention 64)) :=
  match verdict (lenientReads uint64 k.table.lookup.toLookup str) with
  | .all ms => some ms
  | _ => none

/-- What `--secure` says about a word, instead of all that was said before. -/
def Program.secured (f : Features) : Program → Kind → Option (List (Mention 64))
  | .vattribute, .ccap =>
    some [⟨true, BitVec.allOnes 64⟩, ⟨false, ~~~vc_get_insecureccaps⟩]
  | .vattribute, .bcap =>
    some [⟨true, BitVec.allOnes 64⟩, ⟨false, ~~~vc_get_insecurebcaps f⟩]
  | .vattribute, .cflag => some [⟨false, VC_VXF_HIDE_NETIF⟩]
  | .nattribute, .ncap => some [⟨false, VC_NXC_RAW_ICMP⟩]
  | .nattribute, .nflag => some [⟨false, VC_NXF_HIDE_NETIF⟩]
  | _, _ => none

/-- The mentions of a word after one more option. -/
def mention (P : Program) (f : Features) (k : Kind) (ms : List (Mention 64)) :
    Opt → List (Mention 64)
  | .list k' optarg => if k' = k then ms ++ (readings k optarg.text).getD [] else ms
  | .secure => (P.secured f k).getD ms
  | _ => ms

/-- The mentions of a word on the command line. -/
def mentioned (P : Program) (f : Features) (k : Kind) (opts : List Opt) : List (Mention 64) :=
  opts.foldl (mention P f k) []

/-- The mode after one more option. -/
def modeAfter (get : Bool) : Opt → Bool
  | .set => false
  | .get => true
  | _ => get

/-- The last of `--set` and `--get` counts. -/
def gets (opts : List Opt) : Bool := opts.foldl modeAfter false

/-- The context after one more option. -/
def idAfter (sys : System) (id : Option Nat) : Opt → Option Nat
  | .id optarg => sys.opt2id optarg.text
  | _ => id

/-- The last `--xid` counts; the own context without one. -/
def addressed (sys : System) (opts : List Opt) : Option Nat :=
  (opts.foldl (idAfter sys) none).or sys.taskId

/-- The option does not end the program. -/
def Understood (P : Program) (sys : System) : Opt → Prop
  | .set | .get | .secure => True
  | .id optarg => (sys.opt2id optarg.text).isSome = true
  | .list k optarg => k ∈ P.printed ∧ (readings k optarg.text).isSome = true
  | .help | .version | .unknown => False

/-- A bit of a word after the command line: the last mention decides it, if it can be modified. -/
def assigned (P : Program) (f : Features) (opts : List Opt) (k : Kind) (a : Attr) (b : Nat) :
    Bool :=
  if a.modifiable.getLsbD b then
    match lastSign (mentioned P f k opts) b with
    | some neg => !neg
    | none => a.bits.getLsbD b
  else a.bits.getLsbD b

/-- The word that the program hands to the kernel. -/
def wordOf (ms : List (Mention 64)) : Word := ⟨foldFlag ms 0#64, foldMask ms 0#64⟩

/-! ## One word -/

theorem Attr.set_bit (a : Attr) (w : Word) (b : Nat) :
    (a.set w).bits.getLsbD b =
      if w.mask.getLsbD b && a.modifiable.getLsbD b then w.flag.getLsbD b
      else a.bits.getLsbD b := by
  simp only [Attr.set, BitVec.getLsbD_or, BitVec.getLsbD_and, BitVec.getLsbD_not]
  by_cases hb : b < 64
  · simp only [hb, decide_true, Bool.true_and]
    cases w.mask.getLsbD b <;> cases a.modifiable.getLsbD b <;> simp
  · have hge : 64 ≤ b := Nat.le_of_not_lt hb
    simp [BitVec.getLsbD_of_ge _ b hge]

/-- Setting a word twice does nothing more. -/
theorem Attr.set_set (a : Attr) (w : Word) : (a.set w).set w = a.set w := by
  have hbits : ((a.set w).set w).bits = (a.set w).bits := by
    apply BitVec.eq_of_getLsbD_eq
    intro b _
    rw [Attr.set_bit (a.set w), Attr.set_bit a]
    show (if w.mask.getLsbD b && a.modifiable.getLsbD b then _ else _) = _
    split <;> rfl
  exact congrArg (fun bits => (⟨bits, a.modifiable⟩ : Attr)) hbits

/-- Without a mask nothing is set. -/
theorem Attr.set_of_mask {a : Attr} {w : Word} (h : w.mask = 0#64) : a.set w = a := by
  have hbits : (a.set w).bits = a.bits := by
    apply BitVec.eq_of_getLsbD_eq
    intro b _
    rw [Attr.set_bit, h]
    simp
  exact congrArg (fun bits => (⟨bits, a.modifiable⟩ : Attr)) hbits

/-- The last mention of a bit decides it, where it can be modified. -/
theorem Attr.set_wordOf (a : Attr) (ms : List (Mention 64)) (b : Nat) :
    (a.set (wordOf ms)).bits.getLsbD b =
      if a.modifiable.getLsbD b then
        match lastSign ms b with
        | some neg => !neg
        | none => a.bits.getLsbD b
      else a.bits.getLsbD b := by
  rw [Attr.set_bit, wordOf, foldFlag_bit, foldMask_bit]
  cases lastSign ms b <;> cases a.modifiable.getLsbD b <;> simp

/-! ## What the options leave -/

theorem parseList_of_readings {k : Kind} {arg : CStr} {ms' : List (Mention 64)}
    (h : readings k arg.text = some ms') (ms : List (Mention 64)) :
    parseList k arg.text (wordOf ms) = .ok (wordOf (ms ++ ms')) := by
  have hrun := listparser_eq_lenient (T := uint64) k.table.lookup.toLookup arg (wordOf ms).flag
    (wordOf ms).mask
  unfold readings at h
  rw [parseList, NameTable.list2val, hrun]
  split at h
  · rename_i vs hv
    cases h
    rw [hv]
    simp [Verdict.result, wordOf, foldFlag_append, foldMask_append]
  · cases h

/-- All bits are mentioned: those of `v` last without negation. -/
theorem wordOf_all (v : BitVec 64) :
    wordOf [⟨true, BitVec.allOnes 64⟩, ⟨false, v⟩] = ⟨v, BitVec.allOnes 64⟩ := by
  have hflag : (0#64 &&& ~~~BitVec.allOnes 64) ||| v = v := by
    rw [BitVec.zero_and, BitVec.zero_or]
  have hmask : (0#64 ||| BitVec.allOnes 64) ||| v = BitVec.allOnes 64 := by
    rw [BitVec.zero_or, BitVec.allOnes_or]
  show (⟨(0#64 &&& ~~~BitVec.allOnes 64) ||| v, (0#64 ||| BitVec.allOnes 64) ||| v⟩ : Word) = _
  rw [hflag, hmask]

theorem parseSecure_wordOf (P : Program) (f : Features) {words : Words} {k : Kind}
    {ms : List (Mention 64)} (h : words k = wordOf ms) :
    P.parseSecure f words k = wordOf ((P.secured f k).getD ms) := by
  cases P <;> cases k
  case vattribute.ccap => exact (wordOf_all _).symm
  case vattribute.bcap => exact (wordOf_all _).symm
  all_goals simp [Program.parseSecure, Program.secured, wordOf, Mention.apply, h]

/-- The record of arguments after the options `opts`. -/
def argsOf (P : Program) (sys : System) (opts : List Opt) : Arguments where
  id := opts.foldl (idAfter sys) none
  words k := wordOf (mentioned P sys.features k opts)
  get := gets opts

theorem mentioned_concat (P : Program) (f : Features) (k : Kind) (opts : List Opt) (opt : Opt) :
    mentioned P f k (opts ++ [opt]) = mention P f k (mentioned P f k opts) opt := by
  rw [mentioned, List.foldl_append]
  rfl

/-- The record after one more option. -/
theorem argsOf_concat (P : Program) (sys : System) (opts : List Opt) (opt : Opt) :
    argsOf P sys (opts ++ [opt]) =
      ⟨idAfter sys (argsOf P sys opts).id opt,
       fun k => wordOf (mention P sys.features k (mentioned P sys.features k opts) opt),
       modeAfter (argsOf P sys opts).get opt⟩ := by
  simp only [argsOf, gets, List.foldl_append, List.foldl_cons, List.foldl_nil, mentioned_concat]

/-- **An option that is understood** adds its mentions. -/
theorem step_understood {P : Program} {sys : System} {opt : Opt} (h : Understood P sys opt)
    (opts : List Opt) :
    step P sys (argsOf P sys opts) opt = .ok (argsOf P sys (opts ++ [opt])) := by
  rw [argsOf_concat]
  cases opt with
  | set => rfl
  | get => rfl
  | id optarg =>
    obtain ⟨c, hc⟩ := Option.isSome_iff_exists.1 h
    simp only [step, hc, idAfter]
    rfl
  | list k optarg =>
    obtain ⟨ms, hms⟩ := Option.isSome_iff_exists.1 h.2
    have hparse := parseList_of_readings hms (mentioned P sys.features k opts)
    have hword : (argsOf P sys opts).words k = wordOf (mentioned P sys.features k opts) := rfl
    simp only [step, if_pos h.1, hword, hparse]
    refine congrArg Except.ok ?_
    have hwords : (fun k' => if k' = k then wordOf (mentioned P sys.features k opts ++ ms)
        else (argsOf P sys opts).words k') =
        fun k' => wordOf (mention P sys.features k' (mentioned P sys.features k' opts)
          (.list k optarg)) := by
      funext k'
      by_cases hk : k' = k
      · subst hk
        simp [mention, hms]
      · simp [mention, hk, Ne.symm hk, argsOf]
    rw [hwords]
    rfl
  | secure =>
    have hwords : P.parseSecure sys.features (argsOf P sys opts).words =
        fun k => wordOf (mention P sys.features k (mentioned P sys.features k opts) .secure) := by
      funext k
      exact parseSecure_wordOf P sys.features rfl
    simp only [step, hwords]
    rfl
  | help => exact h.elim
  | version => exact h.elim
  | unknown => exact h.elim

/-- **The options** of a command line that is understood leave what they mention. -/
theorem foldlM_understood {P : Program} {sys : System} : ∀ {opts : List Opt} (done : List Opt),
    (∀ opt ∈ opts, Understood P sys opt) →
    opts.foldlM (step P sys) (argsOf P sys done) = .ok (argsOf P sys (done ++ opts))
  | [], done, _ => by rw [List.append_nil]; rfl
  | opt :: opts, done, h => by
    have ih := foldlM_understood (done ++ [opt]) fun o ho => h o (List.mem_cons_of_mem opt ho)
    rw [List.foldlM_cons, step_understood (h opt (by simp))]
    rw [List.append_assoc, List.singleton_append] at ih
    exact ih

/-- The words `ks` of the context are set. -/
def State.assign (s : State) (c : Nat) (words : Words) (ks : List Kind) : State := fun c' k =>
  if c' = c ∧ k ∈ ks then (s c' k).set (words k) else s c' k

theorem State.assign_nil (s : State) (c : Nat) (words : Words) : s.assign c words [] = s := by
  funext c' k
  simp [State.assign]

theorem State.assign_append (s : State) (c : Nat) (words : Words) (ks ks' : List Kind) :
    (s.assign c words ks).assign c words ks' = s.assign c words (ks ++ ks') := by
  funext c' k
  simp only [State.assign, List.mem_append]
  by_cases hc : c' = c
  · by_cases hk : k ∈ ks <;> by_cases hk' : k ∈ ks' <;> simp [hc, hk, hk', Attr.set_set]
  · simp [hc]

theorem State.set_eq_assign (s : State) (c : Nat) (words : Words) (k : Kind) :
    s.set c k (words k) = s.assign c words [k] := by
  funext c' k'
  simp only [State.set, State.assign, List.mem_singleton]
  by_cases hk : k' = k
  · rw [hk]
  · simp [hk]

/-- Words without a mask need no call. -/
theorem State.assign_of_mask {words : Words} {ks : List Kind} (h : ∀ k ∈ ks, (words k).mask = 0#64)
    (s : State) (c : Nat) : s.assign c words ks = s := by
  funext c' k
  unfold State.assign
  split
  · rename_i hk
    exact Attr.set_of_mask (h k hk.2)
  · rfl

/-- The system calls for `ks` set the words before the first that is refused. -/
theorem setKinds_spec {sys : System} (hsets : sys.Sets) (c : Nat) (words : Words) :
    ∀ (ks : List Kind) (s : State), ∃ done rest, ks = done ++ rest ∧
      ((setKinds sys c words ks s = (true, s.assign c words done) ∧ rest = []) ∨
        (setKinds sys c words ks s = (false, s.assign c words done) ∧
          ∃ k rest', rest = k :: rest' ∧
            (sys.set c k (words k) (s.assign c words done)).1 = false))
  | [], s => ⟨[], [], rfl, Or.inl ⟨by rw [State.assign_nil]; rfl, rfl⟩⟩
  | k :: ks, s => by
    have hk := hsets c k (words k) s
    rw [setKinds]
    cases hset : sys.set c k (words k) s with
    | mk ok s₁ =>
    rw [hset] at hk
    cases ok with
    | true =>
      have hk : s₁ = s.set c k (words k) := hk
      obtain ⟨done, rest, rfl, hrun⟩ := setKinds_spec hsets c words ks s₁
      have hassign : s₁.assign c words done = s.assign c words (k :: done) := by
        rw [hk, State.set_eq_assign, State.assign_append, List.singleton_append]
      rw [hassign] at hrun
      exact ⟨k :: done, rest, rfl, hrun⟩
    | false =>
      have hk : s₁ = s := hk
      refine ⟨[], k :: ks, rfl, Or.inr ⟨by rw [State.assign_nil, hk], k, ks, rfl, ?_⟩⟩
      rw [State.assign_nil, hset]

/-- **The chain of calls** sets the words before the first that is refused. -/
theorem setAttrs_spec {sys : System} (hsets : sys.Sets) (c : Nat) (words : Words) :
    ∀ (calls : List LibCall) (s : State), ∃ done rest,
      calls.flatMap LibCall.kinds = done ++ rest ∧
      ((setAttrs sys c words calls s = (none, s.assign c words done) ∧ rest = []) ∨
        ∃ call ∈ calls, setAttrs sys c words calls s = (some call.name, s.assign c words done) ∧
          ∃ k ∈ call.kinds, ∃ rest', rest = k :: rest' ∧
            (sys.set c k (words k) (s.assign c words done)).1 = false)
  | [], s => ⟨[], [], rfl, Or.inl ⟨by rw [State.assign_nil]; rfl, rfl⟩⟩
  | call :: calls, s => by
    rw [setAttrs, List.flatMap_cons]
    by_cases hany : (call.kinds.any fun k => (words k).mask != 0#64) = true
    · rw [if_pos hany]
      obtain ⟨done, rest, hkinds, ⟨hrun, rfl⟩ | ⟨hrun, k, rest', rfl, hk⟩⟩ :=
        setKinds_spec hsets c words call.kinds s
      · -- the whole call is made, and the chain goes on
        rw [List.append_nil] at hkinds
        obtain ⟨done', rest, hcalls, htail⟩ :=
          setAttrs_spec hsets c words calls (s.assign c words done)
        rw [State.assign_append] at htail
        rw [hrun]
        refine ⟨done ++ done', rest, by rw [hcalls, hkinds, List.append_assoc], ?_⟩
        obtain ⟨hrun, hrest⟩ | ⟨call', hcall', hfail⟩ := htail
        · exact Or.inl ⟨hrun, hrest⟩
        · exact Or.inr ⟨call', List.mem_cons_of_mem call hcall', hfail⟩
      · rw [hrun]
        refine ⟨done, k :: (rest' ++ calls.flatMap LibCall.kinds), by rw [hkinds]; simp, Or.inr ?_⟩
        exact ⟨call, by simp, rfl, k, by rw [hkinds]; simp, _, rfl, hk⟩
    · rw [if_neg hany]
      have hmask : ∀ k ∈ call.kinds, (words k).mask = 0#64 := by simpa using hany
      obtain ⟨done', rest, hcalls, htail⟩ := setAttrs_spec hsets c words calls s
      have hassign : s.assign c words (call.kinds ++ done') = s.assign c words done' := by
        rw [← State.assign_append, State.assign_of_mask hmask]
      refine ⟨call.kinds ++ done', rest, by rw [hcalls, List.append_assoc], ?_⟩
      rw [hassign]
      obtain ⟨hrun, hrest⟩ | ⟨call', hcall', hfail⟩ := htail
      · exact Or.inl ⟨hrun, hrest⟩
      · exact Or.inr ⟨call', List.mem_cons_of_mem call hcall', hfail⟩

/-! ## A run that sets -/

/-- The command line asks to set words of the context `c`. -/
structure AsksToSet (P : Program) (sys : System) (opts : List Opt) (c : Nat) : Prop where
  understood : ∀ opt ∈ opts, Understood P sys opt
  sets : gets opts = false
  context : addressed sys opts = some c

/-- What such a run leaves, with the words `ks` it got to: in these the last mention of each bit
decides it, and nothing else changes.  It got to all words or was refused the next one. -/
structure Leaves (P : Program) (sys : System) (opts : List Opt) (command : List Text) (c : Nat)
    (s : State) (run : Outcome × State) (ks : List Kind) : Prop where
  bits : ∀ c' k b, (run.2 c' k).bits.getLsbD b =
    if c' = c ∧ k ∈ ks then assigned P sys.features opts k (s c' k) b
    else (s c' k).bits.getLsbD b
  modifiable : ∀ c' k, (run.2 c' k).modifiable = (s c' k).modifiable
  ending : (run.1 = .ran [] command ∧ ks = P.order) ∨
    ∃ call ∈ P.setCalls, run.1 = .failed call.name ∧ ∃ k ∈ call.kinds, ∃ rest,
      P.order = ks ++ k :: rest ∧
      (sys.set c k (wordOf (mentioned P sys.features k opts)) run.2).1 = false

theorem foldlM_opts {P : Program} {sys : System} {opts : List Opt}
    (h : ∀ opt ∈ opts, Understood P sys opt) :
    opts.foldlM (step P sys) noArgs = .ok (argsOf P sys opts) := foldlM_understood [] h

/-- **A run that is asked to set** gets to a beginning of the words. -/
theorem main_sets {P : Program} {sys : System} (hsets : sys.Sets) {opts : List Opt} {c : Nat}
    (h : AsksToSet P sys opts c) (command : List Text) (s : State) :
    ∃ ks, Leaves P sys opts command c s (main P sys opts command s) ks := by
  have hid : (argsOf P sys opts).id.or sys.taskId = some c := h.context
  have hget : (argsOf P sys opts).get = false := h.sets
  have hbits : ∀ ks c' k b, (s.assign c (argsOf P sys opts).words ks c' k).bits.getLsbD b =
      if c' = c ∧ k ∈ ks then assigned P sys.features opts k (s c' k) b
      else (s c' k).bits.getLsbD b := by
    intro ks c' k b
    unfold State.assign
    split
    · exact Attr.set_wordOf _ _ b
    · rfl
  have hmod : ∀ ks c' k,
      (s.assign c (argsOf P sys opts).words ks c' k).modifiable = (s c' k).modifiable := by
    intro ks c' k
    unfold State.assign
    split <;> rfl
  obtain ⟨ks, rest, horder, ⟨hrun, rfl⟩ | ⟨call, hcall, hrun, k, hk, rest', rfl, hrefused⟩⟩ :=
    setAttrs_spec hsets c (argsOf P sys opts).words P.setCalls s
  · have hmain : main P sys opts command s =
        (.ran [] command, s.assign c (argsOf P sys opts).words ks) := by
      simp [main, foldlM_opts h.understood, hid, hget, hrun]
    rw [hmain]
    rw [List.append_nil] at horder
    exact ⟨ks, hbits ks, hmod ks, Or.inl ⟨rfl, horder.symm⟩⟩
  · have hmain : main P sys opts command s =
        (.failed call.name, s.assign c (argsOf P sys opts).words ks) := by
      simp [main, foldlM_opts h.understood, hid, hget, hrun]
    rw [hmain]
    exact ⟨ks, hbits ks, hmod ks, Or.inr ⟨call, hcall, rfl, k, hk, rest', horder, hrefused⟩⟩

/-- Two contexts, of which the first has the network capability to send raw packets. -/
def twoContexts : State := fun c k =>
  if c = 100 ∧ k = .ncap then ⟨VC_NXC_RAW_ICMP, BitVec.allOnes 64⟩
  else ⟨0#64, BitVec.allOnes 64⟩

/-- A system with both contexts that lets everything be done. -/
def bothContexts : System where
  features := ⟨true, true⟩
  opt2id id :=
    if id = "100".toList then some 100
    else if id = "200".toList then some 200
    else none
  taskId := some 0
  set c k w s := (true, s.set c k w)
  readable _ _ _ := true

theorem bothContexts_sets : bothContexts.Sets := fun _ _ _ _ => rfl

end Attributes
