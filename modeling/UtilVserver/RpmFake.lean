import Mathlib.Algebra.Group.Nat.Defs
import Mathlib.Data.List.Infix
import UtilVserver.Lib.Transition

/-!
# `rpm-fake` and its resolver

The preloaded client and the resolver talk over a socket pair (requests and answers) and a pipe
that carries one ready token `.` for each command the resolver is going to read.

* `Op` — what the client does with the two channels: `initPwSocket`, `doPwStringRequest`,
  `endpwent`/`endgrent` and `exitRPMFake`.
* `clientStep`, `serverStep` — one system call of either process; writes on the socket proceed
  byte by byte and block when the buffer is full, reads block while it is empty.
* `Step` — an interleaving of the two.

The counters and the two logs of the state are never read by the processes.
-/

set_option autoImplicit false

namespace RpmFake

abbrev Byte := BitVec 8

def byte (c : Char) : Byte := BitVec.ofNat 8 c.toNat

/-- The bytes of a `uint32_t`, which holds `n` modulo `2^32`. -/
def encode32 (n : Nat) : List Byte :=
  [BitVec.ofNat 8 n, BitVec.ofNat 8 (n / 256), BitVec.ofNat 8 (n / 65536),
    BitVec.ofNat 8 (n / 16777216)]

def decode32 : List Byte → Nat
  | [a, b, c, d] => a.toNat + 256 * b.toNat + 65536 * c.toNat + 16777216 * d.toNat
  | _ => 0

theorem decode32_encode32 {n : Nat} (h : n < 2 ^ 32) : decode32 (encode32 n) = n := by
  simp only [encode32, decode32, BitVec.toNat_ofNat]
  omega

theorem encode32_length (n : Nat) : (encode32 n).length = 4 := rfl

/-- `MAX_RQSIZE`. -/
def maxRqSize : Nat := 0x1000

/-- A user or group name: the bytes of a C string. -/
structure Name where
  bytes : List Byte
  noNul : 0#8 ∉ bytes

/-- `uint32_t len = strlen(name)`. -/
def Name.len (name : Name) : Nat := name.bytes.length % 2 ^ 32

/-- The command of a lookup: `getpwnam` or `getgrnam`. -/
inductive Style where
  | pw
  | gr
  deriving DecidableEq

def Style.cmd : Style → Byte
  | .pw => byte 'P'
  | .gr => byte 'G'

/-- The database of the resolver: the uid or gid of a name. -/
abbrev Database := Style → List Byte → Option (BitVec 32)

/-- What `sendResult` sends: the found byte and the id, which is -1 for a name that is not found. -/
structure Answer where
  code : Byte
  id : BitVec 32
  deriving DecidableEq

def sendResult : Option (BitVec 32) → Answer
  | some id => ⟨1#8, id⟩
  | none => ⟨0#8, BitVec.ofInt 32 (-1)⟩

/-! ## The client -/

inductive Op where
  /-- `initPwSocket`, behind the read of the context id. -/
  | ping
  /-- `doPwStringRequest`. -/
  | lookup (style : Style) (name : Name)
  /-- `endpwent` and `endgrent`. -/
  | close (what : Char)
  /-- `exitRPMFake`. -/
  | quit

def getpwnam (name : Name) : Op := .lookup .pw name
def getgrnam (name : Name) : Op := .lookup .gr name
def endpwent : Op := .close 'p'
def endgrent : Op := .close 'g'

/-- `read(sync_sock, &c, 1)` in front of the request. -/
def Op.readsToken : Op → Bool
  | .close _ => false
  | _ => true

/-- Everything the operation writes to `pw_sock`. -/
def Op.request : Op → List Byte
  | .ping => [byte '.']
  | .lookup style name => style.cmd :: (encode32 name.len ++ name.bytes.take name.len)
  | .close what => [byte 'C', byte what]
  | .quit => [byte 'Q']

inductive ClientPc where
  /-- `read(sync_sock, &ctx, sizeof ctx)`. -/
  | start
  | next
  | sending (op : Op) (todo : List Byte)
  /-- The read of the echo, or of the found byte. -/
  | awaitCode (op : Op)
  | awaitId (op : Op) (code : Byte)
  | failed

/-- What the client does when its request is written. -/
def Op.afterSend : Op → ClientPc
  | .ping => .awaitCode .ping
  | .lookup style name => .awaitCode (.lookup style name)
  | .close _ => .next
  | .quit => .next

/-- The client with `todo` left of its request. -/
def Op.sendPc (op : Op) (todo : List Byte) : ClientPc :=
  if todo = [] then op.afterSend else .sending op todo

/-! ## The resolver -/

inductive ServerPc where
  /-- `EwriteAll(3, ".", 1)`. -/
  | announce
  | readCmd
  | readLen (style : Style) (got : List Byte)
  | readName (style : Style) (len : Nat) (got : List Byte)
  | sendCode (res : Answer)
  | sendId (res : Answer)
  /-- `do_closenss`. -/
  | readWhat
  | reply (b : Byte)
  | exited

/-- The `switch` of `run`. -/
def dispatch (c : Byte) : ServerPc :=
  if c = byte 'P' then .readLen .pw []
  else if c = byte 'G' then .readLen .gr []
  else if c = byte 'Q' then .exited
  else if c = byte 'C' then .readWhat
  else if c = byte '.' then .reply (byte '.')
  else .reply (byte '?')

/-! ## The system -/

structure State where
  client : ClientPc
  ops : List Op
  server : ServerPc
  sync : List Byte
  req : List Byte
  ans : List Byte
  /-- What the lookups of the client returned. -/
  results : List (Option Answer)
  /-- The bytes the resolver took as commands. -/
  executed : List Byte
  /-- Tokens the client took, requests it began, tokens the resolver wrote, commands it finished. -/
  taken : Nat
  begun : Nat
  sent : Nat
  handled : Nat

/-- The sizes of the pipe and of the two socket buffers. -/
structure Capacity where
  sync : Nat
  req : Nat
  ans : Nat
  sync_pos : 0 < sync
  req_pos : 0 < req
  ans_pos : 4 ≤ ans

/-- The client process has closed its ends. -/
def State.clientGone (s : State) : Bool :=
  match s.client, s.ops with
  | .failed, _ => true
  | .next, [] => true
  | _, _ => false

def State.serverGone (s : State) : Bool :=
  match s.server with
  | .exited => true
  | _ => false

/-- An operation that finds the other end closed. -/
def State.giveUp (s : State) : Op → State
  | .ping => { s with client := .failed }
  | .lookup _ _ => { s with client := .next, results := s.results ++ [none] }
  | _ => { s with client := .next }

/-- One system call of the client; nothing while it blocks or when it is done. -/
def clientStep (cap : Capacity) (s : State) : Option State :=
  match s.client with
  | .start =>
    if s.sync = [] then none
    else if 4 ≤ s.sync.length then some { s with client := .next, sync := s.sync.drop 4 }
    else some { s with client := .failed, sync := [] }
  | .next =>
    match s.ops with
    | [] => none
    | op :: ops =>
      if op.readsToken then
        match s.sync with
        | [] => if s.serverGone then some ({ s with ops := ops }.giveUp op) else none
        | _ :: sync =>
          some { s with client := op.sendPc op.request, ops := ops, sync := sync,
                        taken := s.taken + 1, begun := s.begun + 1 }
      else some { s with client := op.sendPc op.request, ops := ops, begun := s.begun + 1 }
  | .sending op todo =>
    match todo with
    | [] => some { s with client := op.afterSend }
    | b :: todo =>
      if s.serverGone then some (s.giveUp op)
      else if s.req.length < cap.req then
        some { s with client := op.sendPc todo, req := s.req ++ [b] }
      else none
  | .awaitCode op =>
    match s.ans with
    | [] => if s.serverGone then some (s.giveUp op) else none
    | b :: ans =>
      match op with
      | .ping =>
        if b = byte '.' then some { s with client := .next, ans := ans }
        else some { s with client := .failed, ans := ans }
      | _ => some { s with client := .awaitId op b, ans := ans }
  | .awaitId op code =>
    if s.ans = [] then if s.serverGone then some (s.giveUp op) else none
    else if 4 ≤ s.ans.length then
      let id := BitVec.ofNat 32 (decode32 (s.ans.take 4))
      some { s with
        client := .next, ans := s.ans.drop 4, results := s.results ++ [some ⟨code, id⟩] }
    else some ({ s with ans := [] }.giveUp op)
  | .failed => none

/-- The command is done. -/
def State.finish (s : State) : State := { s with server := .announce, handled := s.handled + 1 }

/-- The name as `getpwnam` sees it. -/
def cstring (buf : List Byte) : List Byte := buf.takeWhile (· != 0#8)

/-- The name is complete. -/
def answerName (db : Database) (style : Style) (buf : List Byte) : ServerPc :=
  .sendCode (sendResult (db style (cstring buf)))

/-- One system call of the resolver. -/
def serverStep (cap : Capacity) (db : Database) (s : State) : Option State :=
  match s.server with
  | .announce =>
    if s.sync.length < cap.sync then
      some { s with server := .readCmd, sync := s.sync ++ [byte '.'], sent := s.sent + 1 }
    else none
  | .readCmd =>
    match s.req with
    | [] => if s.clientGone then some { s with server := .exited } else none
    | c :: req => some { s with server := dispatch c, req := req, executed := s.executed ++ [c] }
  | .readLen style got =>
    match s.req with
    | [] => if s.clientGone then some s.finish else none
    | b :: req =>
      let got := got ++ [b]
      if got.length = 4 then
        let len := decode32 got
        if len < maxRqSize then
          if len = 0 then some { s with server := answerName db style [], req := req }
          else some { s with server := .readName style len [], req := req }
        else some { s with req := req }.finish
      else some { s with server := .readLen style got, req := req }
  | .readName style len got =>
    match s.req with
    | [] =>
      if s.clientGone then some { s with server := .sendCode (sendResult none) } else none
    | b :: req =>
      let got := got ++ [b]
      if got.length = len then some { s with server := answerName db style got, req := req }
      else some { s with server := .readName style len got, req := req }
  | .sendCode res =>
    if s.ans.length < cap.ans then
      some { s with server := .sendId res, ans := s.ans ++ [res.code] }
    else none
  | .sendId res =>
    if s.ans.length + 4 ≤ cap.ans then
      some { s with ans := s.ans ++ encode32 res.id.toNat }.finish
    else none
  | .readWhat =>
    match s.req with
    | [] => if s.clientGone then some s.finish else none
    | _ :: req => some { s with req := req }.finish
  | .reply b =>
    if s.ans.length < cap.ans then some { s with ans := s.ans ++ [b] }.finish else none
  | .exited => none

inductive Party where
  | client
  | server
  deriving DecidableEq

/-- One step of the system: either process makes a system call. -/
def partyStep (cap : Capacity) (db : Database) (s : State) : Party → Option State
  | .client => clientStep cap s
  | .server => serverStep cap db s

def Step (cap : Capacity) (db : Database) (s : State) (p : Party) (s' : State) : Prop :=
  partyStep cap db s p = some s'

/-- The client runs `calls` between its set-up and its exit. -/
def program (calls : List Op) : List Op := .ping :: (calls ++ [.quit])

/-- The four bytes of the context id stand in the pipe before the resolver starts. -/
def initial (ctx : BitVec 32) (calls : List Op) : State :=
  ⟨.start, program calls, .announce, encode32 ctx.toNat, [], [], [], [], 0, 0, 0, 0⟩

/-- The tokens in the pipe that nobody has read. -/
def State.unreadTokens (s : State) : Nat :=
  match s.client with
  | .start => s.sync.length - 4
  | _ => s.sync.length

/-- Both processes are done. -/
def State.Final (s : State) : Prop := s.clientGone = true ∧ s.serverGone = true

end RpmFake
