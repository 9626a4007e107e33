import UtilVserver.Lib.Transition

/-!
# The terminal of `vlogin` (`src/src/vlogin.c`)

The program stands between the terminal of the user and the one of its child.  It copies in both
directions, 64 bytes at a time, and signals come in between: the end of the child even in the middle
of a copy.

* `Stream` — one direction, with all that was ever sent.
* `State` — the streams, the buffer of `terminal_copy` and the buffer of a copy that the handler of
  `SIGCHLD` has interrupted, the mode of the terminal, the sizes, and the signals for the child.
* `Step` — `do_vlogin`, `signal_handler` and the functions that they call, and what the user and the
  child do; the labels tell what went wrong.

Principal results: `run_delivers` and `run_ends`.
-/

set_option autoImplicit false

namespace Vlogin

open Transition

/-- The two descriptors that are copied from. -/
inductive Way where
  | toChild
  | toUser
  deriving DecidableEq

structure Stream where
  sent : List UInt8
  /-- What has not been read yet. -/
  queue : List UInt8
  got : List UInt8

inductive Sig where
  | SIGINT
  | SIGWINCH
  | SIGHUP
  | SIGTERM
  deriving DecidableEq

/-- Where the program is. -/
inductive Pc where
  | start
  | openpty
  | fork
  /-- `signal` for `SIGWINCH` and `SIGINT`. -/
  | signal
  | redraw
  | select
  /-- The ready descriptors that are still to be copied. -/
  | copy (ready : List Way)
  /-- `EwriteAll` in `terminal_copy`. -/
  | write (ready : List Way)
  /-- `fcntl` in `terminal_end`, and its loop. -/
  | nonblock
  | drain
  | drainWrite
  | wait
  /-- The functions of `atexit`. -/
  | exiting (code : Nat)
  | exited (code : Nat)
  /-- Without a terminal the program is run directly. -/
  | execed
  deriving DecidableEq

/-- The state of `struct terminal`. -/
inductive TerminalState where
  | TS_RESET
  | TS_RAW
  deriving DecidableEq

structure State where
  pc : Pc
  /-- What is typed since the last flush. -/
  toChild : Stream
  toUser : Stream
  /-- What `terminal_copy` or `terminal_end` have read and not yet written. -/
  frame : Option (Way × List UInt8)
  /-- The same of a copy that `SIGCHLD` has interrupted. -/
  below : Option (Way × List UInt8)
  /-- The mode of the terminal of the user. -/
  raw : Bool
  state : TerminalState
  userSize : Nat × Nat
  ptySize : Nat × Nat
  /-- A pending `SIGWINCH`. -/
  winch : Bool
  pid : Nat
  /-- The status of a child that has ended. -/
  status : Option Nat
  /-- The signals that were sent, with their process groups. -/
  killed : List (Nat × Sig)

/-- The buffer of a copy in this direction. -/
def held (frame : Option (Way × List UInt8)) (w : Way) : List UInt8 :=
  match frame with
  | some (w', buf) => if w' = w then buf else []
  | none => []

def State.stream (s : State) : Way → Stream
  | .toChild => s.toChild
  | .toUser => s.toUser

def State.update (s : State) (w : Way) (f : Stream → Stream) : State :=
  match w with
  | .toChild => { s with toChild := f s.toChild }
  | .toUser => { s with toUser := f s.toUser }

/-- What `ioctl` and `kill` give in `terminal_kill`. -/
structure KillCalls where
  pgrp : Option Nat
  works : Bool

/-- `terminal_kill`; the last resort is the process group of the child. -/
def terminal_kill (c : KillCalls) (sig : Sig) (s : State) : State :=
  match c.pgrp with
  | some pgrp =>
    if c.works then { s with killed := s.killed ++ [(pgrp, sig)] }
    else { s with killed := s.killed ++ [(s.pid, sig)] }
  | none => { s with killed := s.killed ++ [(s.pid, sig)] }

/-- `terminal_redraw`, with whether the sizes can be read and set. -/
def terminal_redraw (c : KillCalls) (gets sets : Bool) (s : State) : State :=
  if gets then
    terminal_kill c .SIGWINCH (if sets then { s with ptySize := s.userSize } else s)
  else s

/-- `terminal_reset` when `tcsetattr` works: what was typed and not read is discarded. -/
def terminal_reset (s : State) : State :=
  match s.state with
  | .TS_RESET => s
  | .TS_RAW =>
    { s with raw := false, state := .TS_RESET, toChild := { s.toChild with queue := [] } }

/-- `sizeof(buf)`. -/
def bufSize : Nat := 64

/-- `WEXITSTATUS`. -/
def wexitstatus (status : Nat) : Nat := status / 256 % 256

/-- The handlers are installed and the program does not end yet. -/
def Pc.handles : Pc → Bool
  | .redraw | .select | .copy _ | .write _ | .nonblock | .drain | .drainWrite | .wait => true
  | _ => false

/-- What `SIGCHLD` can interrupt. -/
def Pc.loops : Pc → Bool
  | .signal | .redraw | .select | .copy _ | .write _ => true
  | _ => false

def Pc.over : Pc → Bool
  | .exiting _ | .exited _ => true
  | _ => false

inductive Label where
  /-- The child has ended or stopped; what was on its way to the user. -/
  | sigchld (lost : List UInt8)
  | writeFails
  | readFails
  /-- `tcsetattr` in `terminal_reset`. -/
  | resetFails
  /-- Another call whose failure ends the program. -/
  | callFails
  /-- An `ioctl` of `terminal_redraw`. -/
  | sizeFails
  | plain
  deriving DecidableEq

/-- `wec` is `wrapper_exit_code`. -/
inductive Step (wec : Nat) : State → Label → State → Prop
  -- the user, the child, and the kernel
  | type (s : State) (bs : List UInt8) : Step wec s .plain (s.update .toChild fun t =>
      { t with sent := t.sent ++ bs, queue := t.queue ++ bs })
  | print (s : State) (bs : List UInt8) : Step wec s .plain (s.update .toUser fun t =>
      { t with sent := t.sent ++ bs, queue := t.queue ++ bs })
  | resize (s : State) (size : Nat × Nat) :
      -- without a handler the signal is ignored
      Step wec s .plain { s with userSize := size, winch := s.winch || s.pc.handles }
  | die (s : State) (status : Nat) (h : s.status = none) :
      Step wec s .plain { s with status := some status }
  -- in front of the loop
  | exec (s : State) (h : s.pc = .start) : Step wec s .plain { s with pc := .execed }
  | rawFails (s : State) (h : s.pc = .start) : Step wec s .callFails { s with pc := .exited wec }
  | terminal_raw (s : State) (h : s.pc = .start) :
      Step wec s .plain { s with pc := .openpty, raw := true, state := .TS_RAW,
                                 toChild := ⟨[], [], []⟩ }
  | openptyFails (s : State) (h : s.pc = .openpty) :
      Step wec s .callFails { s with pc := .exiting 1 }
  | openpty (s : State) (h : s.pc = .openpty) : Step wec s .plain { s with pc := .fork }
  | forkFails (s : State) (h : s.pc = .fork) :
      Step wec s .callFails { s with pc := .exiting wec }
  | fork (s : State) (pid : Nat) (h : s.pc = .fork) :
      Step wec s .plain { s with pc := .signal, pid := pid }
  | signal (s : State) (h : s.pc = .signal) : Step wec s .plain { s with pc := .redraw }
  | redraw (s : State) (c : KillCalls) (gets sets : Bool) (h : s.pc = .redraw) :
      Step wec s (if gets && sets then .plain else .sizeFails)
        (terminal_redraw c gets sets { s with pc := .select })
  -- the loop; `select` and `read` may be interrupted
  | select (s : State) (ready : List Way) (h : s.pc = .select)
      (hready : ready.Sublist [.toChild, .toUser]) (hne : ready ≠ []) :
      Step wec s .plain { s with pc := .copy ready }
  | selectFails (s : State) (h : s.pc = .select) :
      Step wec s .callFails { s with pc := .exiting wec }
  | copied (s : State) (h : s.pc = .copy []) : Step wec s .plain { s with pc := .select }
  | read (s : State) (w : Way) (ready : List Way) (buf rest : List UInt8)
      (h : s.pc = .copy (w :: ready)) (hne : buf ≠ []) (hlen : buf.length ≤ bufSize)
      (hqueue : (s.stream w).queue = buf ++ rest) :
      Step wec s .plain
        { s.update w (fun t => { t with queue := rest }) with
          pc := .write ready, frame := some (w, buf) }
  | eof (s : State) (w : Way) (ready : List Way) (c : KillCalls) (h : s.pc = .copy (w :: ready))
      (hqueue : (s.stream w).queue = []) :
      Step wec s .plain (terminal_kill c .SIGHUP { s with pc := .exiting 0 })
  | readInterrupted (s : State) (w : Way) (ready : List Way) (h : s.pc = .copy (w :: ready)) :
      Step wec s .plain { s with pc := .copy ready }
  | readFails (s : State) (w : Way) (ready : List Way) (c : KillCalls)
      (h : s.pc = .copy (w :: ready)) :
      Step wec s .readFails (terminal_kill c .SIGTERM { s with pc := .exiting 1 })
  | write (s : State) (w : Way) (ready : List Way) (out rest : List UInt8)
      (h : s.pc = .write ready) (hframe : s.frame = some (w, out ++ rest)) :
      Step wec s .plain
        { s.update w (fun t => { t with got := t.got ++ out }) with frame := some (w, rest) }
  | written (s : State) (w : Way) (ready : List Way) (h : s.pc = .write ready)
      (hframe : s.frame = some (w, [])) :
      Step wec s .plain { s with pc := .copy ready, frame := none }
  | writeFails (s : State) (ready : List Way) (h : s.pc = .write ready) :
      Step wec s .writeFails { s with pc := .exiting wec }
  -- the handlers
  | sigint (s : State) (c : KillCalls) (h : s.pc.handles = true) :
      Step wec s .plain (terminal_kill c .SIGINT s)
  | sigwinch (s : State) (c : KillCalls) (gets sets : Bool) (h : s.pc.handles = true) :
      Step wec s (if gets && sets then .plain else .sizeFails)
        (terminal_redraw c gets sets { s with winch := false })
  | sigchld (s : State) (h : s.pc.loops = true) :
      Step wec s (.sigchld (held s.frame .toUser))
        { s with pc := .nonblock, frame := none, below := s.frame }
  | fcntl (s : State) (h : s.pc = .nonblock) : Step wec s .plain { s with pc := .drain }
  | fcntlFails (s : State) (h : s.pc = .nonblock) :
      Step wec s .callFails { s with pc := .exiting wec }
  | drainRead (s : State) (buf rest : List UInt8) (h : s.pc = .drain) (hne : buf ≠ [])
      (hlen : buf.length ≤ bufSize) (hqueue : s.toUser.queue = buf ++ rest) :
      Step wec s .plain
        { s with pc := .drainWrite, frame := some (.toUser, buf),
                 toUser := { s.toUser with queue := rest } }
  | drainWrite (s : State) (out rest : List UInt8) (h : s.pc = .drainWrite)
      (hframe : s.frame = some (.toUser, out ++ rest)) :
      Step wec s .plain
        { s with frame := some (.toUser, rest),
                 toUser := { s.toUser with got := s.toUser.got ++ out } }
  | drainWritten (s : State) (h : s.pc = .drainWrite) (hframe : s.frame = some (.toUser, [])) :
      Step wec s .plain { s with pc := .drain, frame := none }
  | drainWriteFails (s : State) (h : s.pc = .drainWrite) :
      Step wec s .writeFails { s with pc := .exiting wec }
  | drained (s : State) (h : s.pc = .drain) (hqueue : s.toUser.queue = []) :
      Step wec s .plain { terminal_reset s with pc := .wait }
  | drainedResetFails (s : State) (h : s.pc = .drain) (hqueue : s.toUser.queue = []) :
      Step wec s .resetFails { s with pc := .exiting wec }
  | wait (s : State) (status : Nat) (h : s.pc = .wait) (hstatus : s.status = some status) :
      Step wec s .plain { s with pc := .exiting (wexitstatus status) }
  | exit (s : State) (code : Nat) (h : s.pc = .exiting code) :
      Step wec s .plain { terminal_reset s with pc := .exited code }
  | exitResetFails (s : State) (code : Nat) (h : s.pc = .exiting code) (hraw : s.state = .TS_RAW) :
      Step wec s .resetFails { s with pc := .exited wec }

/-! ## What the functions leave alone -/

section Steps

variable {wec : Nat} {s s' : State} {l : Label}

theorem terminal_kill_eq (c : KillCalls) (sig : Sig) (s : State) :
    ∃ pgrp, terminal_kill c sig s = { s with killed := s.killed ++ [(pgrp, sig)] } := by
  unfold terminal_kill
  split
  · split
    · exact ⟨_, rfl⟩
    · exact ⟨_, rfl⟩
  · exact ⟨_, rfl⟩

theorem terminal_redraw_eq (c : KillCalls) (gets sets : Bool) (s : State) :
    ∃ more, terminal_redraw c gets sets s =
      { s with killed := s.killed ++ more,
               ptySize := if gets && sets then s.userSize else s.ptySize } := by
  unfold terminal_redraw
  cases gets with
  | false => exact ⟨[], by simp⟩
  | true =>
    obtain ⟨pgrp, hkill⟩ :=
      terminal_kill_eq c .SIGWINCH (if sets then { s with ptySize := s.userSize } else s)
    rw [if_pos rfl, hkill]
    cases sets with
    | false => exact ⟨_, rfl⟩
    | true => exact ⟨_, rfl⟩

theorem terminal_reset_eq (s : State) :
    ∃ queue raw, terminal_reset s =
      { s with raw := raw, state := .TS_RESET, toChild := { s.toChild with queue := queue } } ∧
      (s.raw = decide (s.state = .TS_RAW) → raw = false) := by
  unfold terminal_reset
  cases h : s.state with
  | TS_RESET => exact ⟨s.toChild.queue, s.raw, by simp [← h], fun hraw => by simpa using hraw⟩
  | TS_RAW => exact ⟨_, _, rfl, fun _ => rfl⟩

/-! ## The buffers -/

/-- A buffer may be in use. -/
def Pc.buffers : Pc → Bool
  | .write _ | .drainWrite | .exiting _ | .exited _ => true
  | _ => false

/-- `SIGCHLD` has come. -/
def Pc.interrupted : Pc → Bool
  | .nonblock | .drain | .drainWrite | .wait | .exiting _ | .exited _ => true
  | _ => false

theorem held_some (w w' : Way) (buf : List UInt8) :
    held (some (w, buf)) w' = if w = w' then buf else [] := rfl

structure Frames (s : State) : Prop where
  frame : s.pc.buffers = false → s.frame = none
  below : s.pc.interrupted = false → s.below = none
  frame_length : ∀ w, (held s.frame w).length ≤ bufSize
  below_length : ∀ w, (held s.below w).length ≤ bufSize

theorem Frames.move (hs : Frames s) (hframe : s'.frame = s.frame) (hbelow : s'.below = s.below)
    (hbuffers : s'.pc.buffers = false → s.pc.buffers = false)
    (hinterrupted : s'.pc.interrupted = false → s.pc.interrupted = false) : Frames s' where
  frame h := hframe.trans (hs.frame (hbuffers h))
  below h := hbelow.trans (hs.below (hinterrupted h))
  frame_length w := hframe ▸ hs.frame_length w
  below_length w := hbelow ▸ hs.below_length w

/-- A new buffer. -/
theorem Frames.hold (hs : Frames s) {w : Way} {buf : List UInt8} (hframe : s'.frame = some (w, buf))
    (hbelow : s'.below = s.below) (hlen : buf.length ≤ bufSize) (hbuffers : s'.pc.buffers = true)
    (hinterrupted : s'.pc.interrupted = false → s.pc.interrupted = false) : Frames s' where
  frame h := by
    rw [hbuffers] at h
    cases h
  below h := hbelow.trans (hs.below (hinterrupted h))
  frame_length w' := by
    rw [hframe, held_some]
    split
    · exact hlen
    · exact Nat.zero_le _
  below_length w := hbelow ▸ hs.below_length w

/-- No buffer is left. -/
theorem Frames.drop (hs : Frames s) (hframe : s'.frame = none) (hbelow : s'.below = s.below)
    (hinterrupted : s'.pc.interrupted = false → s.pc.interrupted = false) : Frames s' where
  frame _ := hframe
  below h := hbelow.trans (hs.below (hinterrupted h))
  frame_length w := by
    rw [hframe]
    exact Nat.zero_le _
  below_length w := hbelow ▸ hs.below_length w

theorem Frames.rest_le (hs : Frames s) {w : Way} {out rest : List UInt8}
    (hframe : s.frame = some (w, out ++ rest)) : rest.length ≤ bufSize := by
  have hlen := hs.frame_length w
  rw [hframe, held_some, if_pos rfl, List.length_append] at hlen
  omega

theorem step_frames (h : Step wec s l s') (hs : Frames s) : Frames s' := by
  cases h with
  | type | print | resize | die => exact hs.move rfl rfl id id
  | exec h | rawFails h | terminal_raw h | openptyFails h | openpty h | forkFails h | fork _ h
  | signal h | select _ h | selectFails h | copied h | readInterrupted _ _ h | writeFails _ h | fcntl h
  | fcntlFails h | drainWriteFails h | drainedResetFails h | wait _ h | exitResetFails _ h =>
    exact hs.move rfl rfl (by simp [h, Pc.buffers]) (by simp [h, Pc.interrupted])
  | redraw c gets sets h =>
    obtain ⟨killed, heq⟩ := terminal_redraw_eq c gets sets { s with pc := .select }
    rw [heq]
    exact hs.move rfl rfl (by simp [h, Pc.buffers]) (by simp [h, Pc.interrupted])
  | read w ready buf rest h hne hlen hqueue =>
    refine hs.hold rfl ?_ hlen rfl (by simp [h, Pc.interrupted])
    cases w <;> rfl
  | eof w ready c h =>
    obtain ⟨pgrp, heq⟩ := terminal_kill_eq c .SIGHUP { s with pc := .exiting 0 }
    rw [heq]
    exact hs.move rfl rfl (by simp [Pc.buffers]) (by simp [Pc.interrupted])
  | readFails w ready c h =>
    obtain ⟨pgrp, heq⟩ := terminal_kill_eq c .SIGTERM { s with pc := .exiting 1 }
    rw [heq]
    exact hs.move rfl rfl (by simp [Pc.buffers]) (by simp [Pc.interrupted])
  | write w ready out rest h hframe =>
    have hrest := hs.rest_le hframe
    cases w with
    | toChild => exact hs.hold rfl rfl hrest (by simp [h, State.update, Pc.buffers]) id
    | toUser => exact hs.hold rfl rfl hrest (by simp [h, State.update, Pc.buffers]) id
  | written w ready h => exact hs.drop rfl rfl (by simp [h, Pc.interrupted])
  | sigint c h =>
    obtain ⟨pgrp, heq⟩ := terminal_kill_eq c .SIGINT s
    rw [heq]
    exact hs.move rfl rfl id id
  | sigwinch c gets sets h =>
    obtain ⟨killed, heq⟩ := terminal_redraw_eq c gets sets { s with winch := false }
    rw [heq]
    exact hs.move rfl rfl id id
  | sigchld h =>
    refine ⟨fun _ => rfl, fun h => (by cases h), fun _ => Nat.zero_le _, hs.frame_length⟩
  | drainRead buf rest h hne hlen hqueue => exact hs.hold rfl rfl hlen rfl (by simp [Pc.interrupted])
  | drainWrite out rest h hframe =>
    exact hs.hold rfl rfl (hs.rest_le hframe) (by simp [h, Pc.buffers]) id
  | drainWritten h => exact hs.drop rfl rfl (by simp [Pc.interrupted])
  | drained h =>
    obtain ⟨queue, raw, heq, -⟩ := terminal_reset_eq s
    rw [heq]
    exact hs.move rfl rfl (by simp [h, Pc.buffers]) (by simp [Pc.interrupted])
  | exit code h =>
    obtain ⟨queue, raw, heq, -⟩ := terminal_reset_eq s
    rw [heq]
    exact hs.move rfl rfl (by simp [Pc.buffers]) (by simp [Pc.interrupted])

/-! ## The bytes -/

/-- What was typed and not read has not been discarded. -/
def Pc.unflushed : Pc → Bool
  | .wait | .exiting _ | .exited _ | .execed => false
  | _ => true

/-- Every byte is where it was sent to, in a buffer or waiting, in the order of sending. -/
structure Streams (s : State) : Prop where
  toUser : ∃ before after, s.toUser.got = before ++ after ∧ s.toUser.sent =
    before ++ held s.below .toUser ++ after ++ held s.frame .toUser ++ s.toUser.queue
  toChild : ∃ rest, s.toChild.sent =
      s.toChild.got ++ held s.below .toChild ++ held s.frame .toChild ++ rest ∧
    (s.pc.unflushed = true → rest = s.toChild.queue)

theorem Streams.move (hs : Streams s) (huser : s'.toUser = s.toUser)
    (hsent : s'.toChild.sent = s.toChild.sent) (hgot : s'.toChild.got = s.toChild.got)
    (hqueue : s'.pc.unflushed = true → s.pc.unflushed = true ∧ s'.toChild.queue = s.toChild.queue)
    (hframe : s'.frame = s.frame) (hbelow : s'.below = s.below) : Streams s' where
  toUser := by
    rw [huser, hframe, hbelow]
    exact hs.toUser
  toChild := by
    obtain ⟨rest, hrest, hlive⟩ := hs.toChild
    rw [hsent, hgot, hframe, hbelow]
    exact ⟨rest, hrest, fun h => (hlive (hqueue h).1).trans (hqueue h).2.symm⟩

theorem step_streams (h : Step wec s l s') (hf : Frames s) (hs : Streams s) : Streams s' := by
  cases h with
  | type bs =>
    obtain ⟨rest, hrest, hlive⟩ := hs.toChild
    refine ⟨hs.toUser, rest ++ bs, ?_, fun h => ?_⟩
    · show s.toChild.sent ++ bs = _
      rw [hrest, List.append_assoc]
      rfl
    · show rest ++ bs = s.toChild.queue ++ bs
      rw [hlive h]
  | print bs =>
    obtain ⟨before, after, hgot, hsent⟩ := hs.toUser
    refine ⟨⟨before, after, hgot, ?_⟩, hs.toChild⟩
    show s.toUser.sent ++ bs = _
    rw [hsent, List.append_assoc]
    rfl
  | resize | die => exact hs.move rfl rfl rfl (fun h => ⟨h, rfl⟩) rfl rfl
  | exec h | rawFails h | openptyFails h | openpty h | forkFails h | fork _ h | signal h
  | select _ h | selectFails h | copied h | readInterrupted _ _ h | writeFails _ h | fcntl h | fcntlFails h
  | drainWriteFails h | drainedResetFails h | wait _ h | exitResetFails _ h =>
    exact hs.move rfl rfl rfl (fun _ => ⟨by simp_all [Pc.unflushed], rfl⟩) rfl rfl
  | terminal_raw h =>
    have hframe := hf.frame (by rw [h]; rfl)
    have hbelow := hf.below (by rw [h]; rfl)
    refine ⟨hs.toUser, [], ?_, fun _ => rfl⟩
    simp [hframe, hbelow, held]
  | redraw c gets sets h =>
    obtain ⟨killed, heq⟩ := terminal_redraw_eq c gets sets { s with pc := .select }
    rw [heq]
    exact hs.move rfl rfl rfl (fun _ => ⟨by rw [h]; rfl, rfl⟩) rfl rfl
  | read w ready buf rest h hne hlen hqueue =>
    have hframe := hf.frame (by rw [h]; rfl)
    obtain ⟨before, after, hgot, hsent⟩ := hs.toUser
    obtain ⟨rest', hrest, hlive⟩ := hs.toChild
    have hlive := hlive (by rw [h]; rfl)
    rw [hframe] at hsent hrest
    cases w with
    | toChild =>
      have hqueue : s.toChild.queue = buf ++ rest := hqueue
      refine ⟨⟨before, after, hgot, hsent⟩, rest, ?_, fun _ => rfl⟩
      rw [hlive, hqueue] at hrest
      simpa [State.update, held] using hrest
    | toUser =>
      have hqueue : s.toUser.queue = buf ++ rest := hqueue
      refine ⟨⟨before, after, hgot, ?_⟩, rest', hrest, fun _ => hlive⟩
      rw [hqueue] at hsent
      simpa [State.update, held] using hsent
  | eof w ready c h =>
    obtain ⟨pgrp, heq⟩ := terminal_kill_eq c .SIGHUP { s with pc := .exiting 0 }
    rw [heq]
    exact hs.move rfl rfl rfl (fun h => (by cases h)) rfl rfl
  | readFails w ready c h =>
    obtain ⟨pgrp, heq⟩ := terminal_kill_eq c .SIGTERM { s with pc := .exiting 1 }
    rw [heq]
    exact hs.move rfl rfl rfl (fun h => (by cases h)) rfl rfl
  | write w ready out rest h hframe =>
    have hbelow := hf.below (by rw [h]; rfl)
    obtain ⟨before, after, hgot, hsent⟩ := hs.toUser
    obtain ⟨rest', hrest, hlive⟩ := hs.toChild
    rw [hframe] at hsent hrest
    cases w with
    | toChild =>
      refine ⟨⟨before, after, hgot, hsent⟩, rest', ?_, hlive⟩
      rw [hbelow] at hrest
      simpa [State.update, hbelow, held] using hrest
    | toUser =>
      refine ⟨⟨before, after ++ out, ?_, ?_⟩, rest', hrest, hlive⟩
      · simp [State.update, hgot]
      · simpa [State.update, held] using hsent
  | written w ready h hframe =>
    obtain ⟨before, after, hgot, hsent⟩ := hs.toUser
    obtain ⟨rest', hrest, hlive⟩ := hs.toChild
    rw [hframe, held_some, ite_self] at hsent hrest
    exact ⟨⟨before, after, hgot, hsent⟩, rest', hrest, fun _ => hlive (by rw [h]; rfl)⟩
  | sigint c h =>
    obtain ⟨pgrp, heq⟩ := terminal_kill_eq c .SIGINT s
    rw [heq]
    exact hs.move rfl rfl rfl (fun h => ⟨h, rfl⟩) rfl rfl
  | sigwinch c gets sets h =>
    obtain ⟨killed, heq⟩ := terminal_redraw_eq c gets sets { s with winch := false }
    rw [heq]
    exact hs.move rfl rfl rfl (fun h => ⟨h, rfl⟩) rfl rfl
  | sigchld h =>
    -- nothing was lost before, so what was shown is all in front of the gap
    have hbelow := hf.below (by revert h; cases s.pc <;> simp [Pc.loops, Pc.interrupted])
    obtain ⟨before, after, hgot, hsent⟩ := hs.toUser
    obtain ⟨rest', hrest, hlive⟩ := hs.toChild
    rw [hbelow] at hsent hrest
    refine ⟨⟨s.toUser.got, [], (List.append_nil _).symm, ?_⟩, rest', ?_, fun _ => hlive ?_⟩
    · rw [hgot]
      simpa [held] using hsent
    · simpa [held] using hrest
    · revert h
      cases s.pc <;> simp [Pc.loops, Pc.unflushed]
  | drainRead buf rest h hne hlen hqueue =>
    have hframe := hf.frame (by rw [h]; rfl)
    obtain ⟨before, after, hgot, hsent⟩ := hs.toUser
    obtain ⟨rest', hrest, hlive⟩ := hs.toChild
    rw [hframe] at hsent hrest
    refine ⟨⟨before, after, hgot, ?_⟩, rest', hrest, fun _ => hlive (by rw [h]; rfl)⟩
    rw [hqueue] at hsent
    simpa [held] using hsent
  | drainWrite out rest h hframe =>
    obtain ⟨before, after, hgot, hsent⟩ := hs.toUser
    obtain ⟨rest', hrest, hlive⟩ := hs.toChild
    rw [hframe] at hsent hrest
    refine ⟨⟨before, after ++ out, ?_, ?_⟩, rest', hrest, hlive⟩
    · simp [hgot]
    · simpa [held] using hsent
  | drainWritten h hframe =>
    obtain ⟨before, after, hgot, hsent⟩ := hs.toUser
    obtain ⟨rest', hrest, hlive⟩ := hs.toChild
    rw [hframe] at hsent hrest
    exact ⟨⟨before, after, hgot, hsent⟩, rest', hrest, fun _ => hlive (by rw [h]; rfl)⟩
  | drained h =>
    obtain ⟨queue, raw, heq, -⟩ := terminal_reset_eq s
    rw [heq]
    exact hs.move rfl rfl rfl (fun h => (by cases h)) rfl rfl
  | exit code h =>
    obtain ⟨queue, raw, heq, -⟩ := terminal_reset_eq s
    rw [heq]
    exact hs.move rfl rfl rfl (fun h => (by cases h)) rfl rfl

/-! ## The signals, the terminal and the sizes -/

theorem step_killed (h : Step wec s l s') : ∀ k ∈ s.killed, k ∈ s'.killed := by
  have hkill (c : KillCalls) (sig : Sig) (t : State) (ht : t.killed = s.killed) :
      ∀ k ∈ s.killed, k ∈ (terminal_kill c sig t).killed := by
    obtain ⟨pgrp, heq⟩ := terminal_kill_eq c sig t
    rw [heq, ← ht]
    exact fun k hk => List.mem_append_left _ hk
  have hredraw (c : KillCalls) (gets sets : Bool) (t : State) (ht : t.killed = s.killed) :
      ∀ k ∈ s.killed, k ∈ (terminal_redraw c gets sets t).killed := by
    obtain ⟨more, heq⟩ := terminal_redraw_eq c gets sets t
    rw [heq, ← ht]
    exact fun k hk => List.mem_append_left _ hk
  have hreset : (terminal_reset s).killed = s.killed := by
    obtain ⟨_, _, heq, -⟩ := terminal_reset_eq s
    rw [heq]
  cases h with
  | redraw c gets sets => exact hredraw c gets sets _ rfl
  | sigwinch c gets sets => exact hredraw c gets sets _ rfl
  | eof _ _ c => exact hkill c _ _ rfl
  | readFails _ _ c => exact hkill c _ _ rfl
  | sigint c => exact hkill c _ _ rfl
  | drained | exit => exact fun k hk => hreset.symm ▸ hk
  | read w => cases w <;> exact fun k hk => hk
  | write w => cases w <;> exact fun k hk => hk
  | _ => exact fun k hk => hk

theorem step_status {status : Nat} (h : Step wec s l s') (hs : s.status = some status) :
    s'.status = some status := by
  have hreset : (terminal_reset s).status = s.status := by
    obtain ⟨_, _, heq, -⟩ := terminal_reset_eq s
    rw [heq]
  cases h with
  | redraw c gets sets =>
    obtain ⟨_, heq⟩ := terminal_redraw_eq c gets sets { s with pc := .select }
    rw [heq]
    exact hs
  | sigwinch c gets sets =>
    obtain ⟨_, heq⟩ := terminal_redraw_eq c gets sets { s with winch := false }
    rw [heq]
    exact hs
  | eof _ _ c =>
    obtain ⟨_, heq⟩ := terminal_kill_eq c .SIGHUP { s with pc := .exiting 0 }
    rw [heq]
    exact hs
  | readFails _ _ c =>
    obtain ⟨_, heq⟩ := terminal_kill_eq c .SIGTERM { s with pc := .exiting 1 }
    rw [heq]
    exact hs
  | sigint c =>
    obtain ⟨_, heq⟩ := terminal_kill_eq c .SIGINT s
    rw [heq]
    exact hs
  | die status' hnone =>
    rw [hnone] at hs
    cases hs
  | drained | exit => exact hreset.trans hs
  | read w => cases w <;> exact hs
  | write w => cases w <;> exact hs
  | _ => exact hs

/-- The program knows the mode of the terminal. -/
structure Mode (s : State) : Prop where
  raw_eq : s.raw = decide (s.state = .TS_RAW)
  start : s.pc = .start → s.state = .TS_RESET

theorem Mode.move (hs : Mode s) (hraw : s'.raw = s.raw) (hstate : s'.state = s.state)
    (hpc : s'.pc = .start → s.pc = .start) : Mode s' where
  raw_eq := by rw [hraw, hstate, hs.raw_eq]
  start h := hstate.trans (hs.start (hpc h))

/-- A new place in the program that is not its start. -/
theorem Mode.go (hs : Mode s) (hraw : s'.raw = s.raw) (hstate : s'.state = s.state)
    (hpc : s'.pc ≠ .start) : Mode s' := hs.move hraw hstate fun h => absurd h hpc

theorem Mode.reset (hs : Mode s) {pc : Pc} (hpc : pc ≠ .start) :
    Mode { terminal_reset s with pc := pc } ∧ (terminal_reset s).raw = false := by
  obtain ⟨queue, raw, heq, hraw⟩ := terminal_reset_eq s
  rw [heq]
  exact ⟨⟨hraw hs.raw_eq, fun h => absurd h hpc⟩, hraw hs.raw_eq⟩

theorem step_mode (h : Step wec s l s') (hs : Mode s) : Mode s' := by
  cases h with
  | type | print | resize | die => exact hs.move rfl rfl id
  | terminal_raw => exact ⟨rfl, fun h => (by cases h)⟩
  | redraw c gets sets =>
    obtain ⟨_, heq⟩ := terminal_redraw_eq c gets sets { s with pc := .select }
    rw [heq]
    exact hs.go rfl rfl (by simp)
  | sigwinch c gets sets =>
    obtain ⟨_, heq⟩ := terminal_redraw_eq c gets sets { s with winch := false }
    rw [heq]
    exact hs.move rfl rfl id
  | eof _ _ c =>
    obtain ⟨_, heq⟩ := terminal_kill_eq c .SIGHUP { s with pc := .exiting 0 }
    rw [heq]
    exact hs.go rfl rfl (by simp)
  | readFails _ _ c =>
    obtain ⟨_, heq⟩ := terminal_kill_eq c .SIGTERM { s with pc := .exiting 1 }
    rw [heq]
    exact hs.go rfl rfl (by simp)
  | sigint c =>
    obtain ⟨_, heq⟩ := terminal_kill_eq c .SIGINT s
    rw [heq]
    exact hs.move rfl rfl id
  | read w => cases w <;> exact hs.go rfl rfl (by simp)
  | write w => cases w <;> exact hs.move rfl rfl id
  | drainWrite => exact hs.move rfl rfl id
  | drained => exact (hs.reset (by simp)).1
  | exit code => exact (hs.reset (by simp)).1
  | _ => exact hs.go rfl rfl (by simp)

/-- The program is in its loop. -/
def Pc.redrawn : Pc → Bool
  | .select | .copy _ | .write _ => true
  | _ => false

/-- Without a pending signal the sizes agree. -/
def Sized (s : State) : Prop := s.pc.redrawn = true → s.winch = false → s.ptySize = s.userSize

theorem Sized.move (hs : Sized s) (hpc : s'.pc.redrawn = true → s.pc.redrawn = true)
    (hwinch : s'.winch = s.winch) (hpty : s'.ptySize = s.ptySize)
    (huser : s'.userSize = s.userSize) : Sized s' := fun h hw => by
  rw [hpty, huser]
  exact hs (hpc h) (hwinch ▸ hw)

theorem step_sized (h : Step wec s l s') (hl : l ≠ .sizeFails) (hs : Sized s) : Sized s' := by
  have hboth {gets sets : Bool}
      (hl : (if gets && sets then Label.plain else Label.sizeFails) ≠ Label.sizeFails) :
      (gets && sets) = true := by
    cases hgs : gets && sets with
    | true => rfl
    | false =>
      rw [hgs] at hl
      exact absurd rfl hl
  cases h with
  | type | print | die => exact hs.move id rfl rfl rfl
  | resize =>
    intro hpc hw
    have hhandles : s.pc.handles = true := by
      revert hpc
      cases s.pc <;> simp [Pc.redrawn, Pc.handles]
    have hw : (s.winch || s.pc.handles) = false := hw
    rw [hhandles, Bool.or_true] at hw
    cases hw
  | redraw c gets sets =>
    obtain ⟨_, heq⟩ := terminal_redraw_eq c gets sets { s with pc := .select }
    rw [heq, hboth hl]
    exact fun _ _ => rfl
  | sigwinch c gets sets =>
    obtain ⟨_, heq⟩ := terminal_redraw_eq c gets sets { s with winch := false }
    rw [heq, hboth hl]
    exact fun _ _ => rfl
  | eof _ _ c =>
    obtain ⟨_, heq⟩ := terminal_kill_eq c .SIGHUP { s with pc := .exiting 0 }
    rw [heq]
    exact fun h => (by cases h)
  | readFails _ _ c =>
    obtain ⟨_, heq⟩ := terminal_kill_eq c .SIGTERM { s with pc := .exiting 1 }
    rw [heq]
    exact fun h => (by cases h)
  | sigint c =>
    obtain ⟨_, heq⟩ := terminal_kill_eq c .SIGINT s
    rw [heq]
    exact hs.move id rfl rfl rfl
  | read w _ _ _ h =>
    cases w <;> exact hs.move (fun _ => by rw [h]; rfl) rfl rfl rfl
  | write w => cases w <;> exact hs.move id rfl rfl rfl
  | select _ h | copied h | readInterrupted _ _ h | written _ _ h =>
    exact hs.move (fun _ => by rw [h]; rfl) rfl rfl rfl
  | drainWrite _ _ h => exact hs.move id rfl rfl rfl
  | _ => exact fun h => (by cases h)

/-! ## The gap, the rest and the code -/

/-- What was lost to `SIGCHLD`. -/
theorem step_below (h : Step wec s l s') : s'.below = s.below ∨
    l = .sigchld (held s.frame .toUser) ∧ s'.below = s.frame := by
  cases h with
  | sigchld => exact Or.inr ⟨rfl, rfl⟩
  | redraw c gets sets =>
    obtain ⟨_, heq⟩ := terminal_redraw_eq c gets sets { s with pc := .select }
    exact Or.inl (by rw [heq])
  | sigwinch c gets sets =>
    obtain ⟨_, heq⟩ := terminal_redraw_eq c gets sets { s with winch := false }
    exact Or.inl (by rw [heq])
  | eof _ _ c =>
    obtain ⟨_, heq⟩ := terminal_kill_eq c .SIGHUP { s with pc := .exiting 0 }
    exact Or.inl (by rw [heq])
  | readFails _ _ c =>
    obtain ⟨_, heq⟩ := terminal_kill_eq c .SIGTERM { s with pc := .exiting 1 }
    exact Or.inl (by rw [heq])
  | sigint c =>
    obtain ⟨_, heq⟩ := terminal_kill_eq c .SIGINT s
    exact Or.inl (by rw [heq])
  | drained | exit =>
    obtain ⟨_, _, heq, -⟩ := terminal_reset_eq s
    exact Or.inl (by rw [heq])
  | read w => cases w <;> exact Or.inl rfl
  | write w => cases w <;> exact Or.inl rfl
  | _ => exact Or.inl rfl

/-- Nothing is left unwritten at the end. -/
def Emptied (s : State) : Prop := s.pc.over = true → s.frame = none

theorem step_emptied (h : Step wec s l s') (hl : l ≠ .writeFails) (hf : Frames s)
    (hs : Emptied s) : Emptied s' := by
  cases h with
  | type | print | resize | die => exact hs
  | rawFails h | openptyFails h | forkFails h | selectFails h | fcntlFails h
  | drainedResetFails h | wait _ h => exact fun _ => hf.frame (by rw [h]; rfl)
  | redraw c gets sets =>
    obtain ⟨_, heq⟩ := terminal_redraw_eq c gets sets { s with pc := .select }
    rw [heq]
    exact fun h => (by cases h)
  | sigwinch c gets sets =>
    obtain ⟨_, heq⟩ := terminal_redraw_eq c gets sets { s with winch := false }
    rw [heq]
    exact hs
  | eof _ _ c h =>
    obtain ⟨_, heq⟩ := terminal_kill_eq c .SIGHUP { s with pc := .exiting 0 }
    rw [heq]
    exact fun _ => hf.frame (by rw [h]; rfl)
  | readFails _ _ c h =>
    obtain ⟨_, heq⟩ := terminal_kill_eq c .SIGTERM { s with pc := .exiting 1 }
    rw [heq]
    exact fun _ => hf.frame (by rw [h]; rfl)
  | sigint c =>
    obtain ⟨_, heq⟩ := terminal_kill_eq c .SIGINT s
    rw [heq]
    exact hs
  | read w => cases w <;> exact fun h => (by cases h)
  | write w _ _ _ h =>
    refine fun hover => ?_
    cases w <;> (simp only [State.update, h] at hover; cases hover)
  | drainWrite _ _ h =>
    refine fun hover => ?_
    simp only [h] at hover
    cases hover
  | drained => exact fun h => (by cases h)
  | exit code h =>
    obtain ⟨_, _, heq, -⟩ := terminal_reset_eq s
    rw [heq]
    exact fun _ => hs (by rw [h]; rfl)
  | exitResetFails code h => exact fun _ => hs (by rw [h]; rfl)
  | writeFails | drainWriteFails => exact absurd rfl hl
  | _ => exact fun h => (by cases h)

/-- A reason for this code: the user has hung up, the terminal of the child could not be read, or
the child has ended. -/
def Reason (s : State) (code : Nat) : Prop :=
  (code = 0 ∧ ∃ pgrp, (pgrp, .SIGHUP) ∈ s.killed) ∨
  (code = 1 ∧ ∃ pgrp, (pgrp, .SIGTERM) ∈ s.killed) ∨
  ∃ status, s.status = some status ∧ code = wexitstatus status

theorem Reason.step {code : Nat} (hr : Reason s code) (h : Step wec s l s') : Reason s' code := by
  obtain ⟨hcode, pgrp, hk⟩ | ⟨hcode, pgrp, hk⟩ | ⟨status, hstatus, hcode⟩ := hr
  · exact Or.inl ⟨hcode, pgrp, step_killed h _ hk⟩
  · exact Or.inr (Or.inl ⟨hcode, pgrp, step_killed h _ hk⟩)
  · exact Or.inr (Or.inr ⟨status, step_status h hstatus, hcode⟩)

/-- What failed in the program itself. -/
def Label.fatal : Label → Bool
  | .writeFails | .resetFails | .callFails => true
  | _ => false

/-- The end of a run in which no call failed. -/
structure Ended (s : State) : Prop where
  exiting : ∀ code, s.pc = .exiting code → Reason s code
  exited : ∀ code, s.pc = .exited code → Reason s code ∧ s.raw = false

theorem Ended.of_pc (h : s.pc.over = false) : Ended s where
  exiting code hpc := by
    rw [hpc] at h
    cases h
  exited code hpc := by
    rw [hpc] at h
    cases h

theorem step_ended (h : Step wec s l s') (hl : l.fatal = false) (hm : Mode s) (hs : Ended s) :
    Ended s' := by
  have hstep := h
  have hkeep (hpc : s'.pc = s.pc) (hraw : s'.raw = s.raw) : Ended s' := by
    refine ⟨fun code hcode => ?_, fun code hcode => ?_⟩
    · exact (hs.exiting code (hpc ▸ hcode)).step hstep
    · obtain ⟨hr, hfalse⟩ := hs.exited code (hpc ▸ hcode)
      exact ⟨hr.step hstep, hraw.trans hfalse⟩
  cases h with
  | type | print | resize | die => exact hkeep rfl rfl
  | rawFails | openptyFails | forkFails | selectFails | fcntlFails | writeFails | drainWriteFails
  | drainedResetFails | exitResetFails => cases hl
  | redraw c gets sets =>
    obtain ⟨_, heq⟩ := terminal_redraw_eq c gets sets { s with pc := .select }
    rw [heq]
    exact .of_pc rfl
  | sigwinch c gets sets h =>
    obtain ⟨_, heq⟩ := terminal_redraw_eq c gets sets { s with winch := false }
    rw [heq] at hkeep ⊢
    exact hkeep rfl rfl
  | eof _ _ c =>
    obtain ⟨pgrp, heq⟩ := terminal_kill_eq c .SIGHUP { s with pc := .exiting 0 }
    rw [heq]
    refine ⟨fun code hcode => ?_, fun code hcode => (by cases hcode)⟩
    cases hcode
    exact Or.inl ⟨rfl, pgrp, List.mem_append_right _ List.mem_cons_self⟩
  | readFails _ _ c =>
    obtain ⟨pgrp, heq⟩ := terminal_kill_eq c .SIGTERM { s with pc := .exiting 1 }
    rw [heq]
    refine ⟨fun code hcode => ?_, fun code hcode => (by cases hcode)⟩
    cases hcode
    exact Or.inr (Or.inl ⟨rfl, pgrp, List.mem_append_right _ List.mem_cons_self⟩)
  | sigint c h =>
    obtain ⟨_, heq⟩ := terminal_kill_eq c .SIGINT s
    rw [heq] at hkeep ⊢
    exact hkeep rfl rfl
  | read w => cases w <;> exact .of_pc rfl
  | write w => cases w <;> exact hkeep rfl rfl
  | drainWrite => exact hkeep rfl rfl
  | wait status h hstatus =>
    refine ⟨fun code hcode => ?_, fun code hcode => (by cases hcode)⟩
    cases hcode
    exact Or.inr (Or.inr ⟨status, hstatus, rfl⟩)
  | drained => exact .of_pc rfl
  | exit code h =>
    refine ⟨fun code hcode => (by cases hcode), fun code' hcode => ?_⟩
    cases hcode
    exact ⟨(hs.exiting code h).step hstep, (@Mode.reset _ hm (.exited code) (by simp)).2⟩
  | _ => exact .of_pc rfl

end Steps

/-! ## Runs -/

def start (size : Nat × Nat) : State where
  pc := .start
  toChild := ⟨[], [], []⟩
  toUser := ⟨[], [], []⟩
  frame := none
  below := none
  raw := false
  state := .TS_RESET
  userSize := size
  ptySize := (0, 0)
  winch := false
  pid := 0
  status := none
  killed := []

section Runs

variable {wec : Nat} {size : Nat × Nat} {s : State} {ls : List Label}

theorem run_streams (h : Run (Step wec) (start size) ls s) : Frames s ∧ Streams s := by
  refine h.invariant_of (I := fun s => Frames s ∧ Streams s) (P := fun _ => True)
    (fun s l s' hs _ hstep => ⟨step_frames hstep hs.1, step_streams hstep hs.1 hs.2⟩)
    (fun _ _ => trivial) ⟨⟨fun _ => rfl, fun _ => rfl, fun _ => ?_, fun _ => ?_⟩, ?_, ?_⟩
  · exact Nat.zero_le _
  · exact Nat.zero_le _
  · exact ⟨[], [], rfl, rfl⟩
  · exact ⟨[], rfl, fun _ => rfl⟩

/-- **No byte is doubled or overtakes another one.**  What the user has seen is what was printed,
but for one gap, for the bytes that are just being written, and for those that still wait; both
buffers have at most 64 bytes.  The gap is what the end of the child has found on its way, and
without a failing write nothing is left in the other buffer at the end.  What the child has got is
the beginning of what was typed. -/
theorem run_delivers (h : Run (Step wec) (start size) ls s) :
    (∃ before gap after rest, s.toUser.got = before ++ after ∧
      s.toUser.sent = before ++ gap ++ after ++ rest ++ s.toUser.queue ∧
      gap.length ≤ 64 ∧ rest.length ≤ 64 ∧
      ((∀ lost, Label.sigchld lost ∈ ls → lost = []) → gap = []) ∧
      (Label.writeFails ∉ ls → s.pc.over = true → rest = [])) ∧
    s.toChild.got <+: s.toChild.sent := by
  obtain ⟨hf, hs⟩ := run_streams h
  obtain ⟨before, after, hgot, hsent⟩ := hs.toUser
  obtain ⟨rest, hrest, -⟩ := hs.toChild
  refine ⟨⟨before, _, after, _, hgot, hsent, hf.below_length _, hf.frame_length _,
    fun hlost => ?_, fun hw hover => ?_⟩, ?_⟩
  · refine h.invariant_of (I := fun s => held s.below .toUser = [])
      (P := fun l => ∀ lost, l = .sigchld lost → lost = []) (fun s l s' hs hl hstep => ?_)
      (fun l hl lost heq => hlost lost (heq ▸ hl)) rfl
    obtain heq | ⟨hlabel, heq⟩ := step_below hstep
    · rw [heq, hs]
    · rw [heq]
      exact hl _ hlabel
  · have hempty : Frames s ∧ Emptied s :=
      h.invariant_of (I := fun s => Frames s ∧ Emptied s) (P := fun l => l ≠ .writeFails)
        (fun s l s' hs hl hstep => ⟨step_frames hstep hs.1, step_emptied hstep hl hs.1 hs.2⟩)
        (fun l hl heq => hw (heq ▸ hl))
        ⟨⟨fun _ => rfl, fun _ => rfl, fun _ => Nat.zero_le _, fun _ => Nat.zero_le _⟩,
          fun _ => rfl⟩
    rw [hempty.2 hover]
    rfl
  · rw [hrest, List.append_assoc, List.append_assoc]
    exact List.prefix_append _ _

/-- **The terminal is given back.**  A run in which no call fails ends with the terminal in the mode
in which it was at the start, and there is a reason for the exit code; while the program is in its
loop, the terminal of the child has the size of the one of the user, as soon as no signal about it
is pending. -/
theorem run_ends (h : Run (Step wec) (start size) ls s) :
    ((∀ l ∈ ls, l.fatal = false) → ∀ code, s.pc = .exited code →
      s.raw = false ∧ Reason s code) ∧
    (Label.sizeFails ∉ ls → s.pc.redrawn = true → s.winch = false → s.ptySize = s.userSize) := by
  refine ⟨fun hfatal code hcode => ?_, fun hsize => ?_⟩
  · have hended : Mode s ∧ Ended s :=
      h.invariant_of (I := fun s => Mode s ∧ Ended s) (P := fun l => l.fatal = false)
        (fun s l s' hs hl hstep => ⟨step_mode hstep hs.1, step_ended hstep hl hs.1 hs.2⟩) hfatal
        ⟨⟨rfl, fun _ => rfl⟩, .of_pc rfl⟩
    obtain ⟨hr, hraw⟩ := hended.2.exited code hcode
    exact ⟨hraw, hr⟩
  · exact h.invariant_of (I := Sized) (P := fun l => l ≠ .sizeFails)
      (fun s l s' hs hl hstep => step_sized hstep hl hs) (fun l hl heq => hsize (heq ▸ hl))
      (fun h => (by cases h))

end Runs

/-- The child prints two bytes; the second one is in the buffer when `SIGCHLD` comes, and another
byte is shown afterwards. -/
theorem run_interrupted : ∃ ls s, Run (Step 255) (start (80, 24)) ls s ∧
    (∀ l ∈ ls, l.fatal = false) ∧ s.pc = .exited 3 ∧ s.toUser.got = [65, 67] ∧
    s.toUser.sent = [65, 66, 67] := by
  have hraw : Step 255 (start (80, 24)) .plain _ := .terminal_raw _ rfl
  have h := (Run.single hraw).snoc (.openpty _ rfl)
  have h := h.snoc (.fork _ 7 rfl)
  have h := h.snoc (.signal _ rfl)
  have h := h.snoc (.redraw _ ⟨none, true⟩ true true rfl)
  have h := h.snoc (.print _ [65, 66])
  have h := h.snoc (.select _ [.toUser] rfl (by decide) (by decide))
  have h := h.snoc (.read _ .toUser [] [65, 66] [] rfl (by decide) (by decide) rfl)
  have h := h.snoc (.write _ .toUser [] [65] [66] rfl rfl)
  have h := h.snoc (.print _ [67])
  have h := h.snoc (.die _ 768 rfl)
  have h := h.snoc (.sigchld _ rfl)
  have h := h.snoc (.fcntl _ rfl)
  have h := h.snoc (.drainRead _ [67] [] rfl (by decide) (by decide) rfl)
  have h := h.snoc (.drainWrite _ [67] [] rfl rfl)
  have h := h.snoc (.drainWritten _ rfl rfl)
  have h := h.snoc (.drained _ rfl rfl)
  have h := h.snoc (.wait _ 768 rfl rfl)
  have h := h.snoc (.exit _ 3 rfl)
  exact ⟨_, _, h, by decide, rfl, rfl, rfl⟩

theorem run_delivers_interrupted : ∃ ls s, Run (Step 255) (start (80, 24)) ls s ∧
    ∃ before gap after, s.toUser.got = before ++ after ∧
      s.toUser.sent = before ++ gap ++ after ++ s.toUser.queue ∧ gap.length ≤ 64 := by
  obtain ⟨ls, s, h, hfatal, hpc, -, -⟩ := run_interrupted
  obtain ⟨⟨before, gap, after, rest, hgot, hsent, hgap, -, -, hrest⟩, -⟩ := run_delivers h
  have hrest := hrest (fun hmem => absurd (hfatal _ hmem) (by decide)) (by rw [hpc]; rfl)
  rw [hrest, List.append_nil] at hsent
  exact ⟨ls, s, h, before, gap, after, hgot, hsent, hgap⟩

theorem run_ends_interrupted : ∃ ls s, Run (Step 255) (start (80, 24)) ls s ∧ s.pc = .exited 3 ∧
    s.raw = false ∧ Reason s 3 := by
  obtain ⟨ls, s, h, hfatal, hpc, -, -⟩ := run_interrupted
  exact ⟨ls, s, h, hpc, (run_ends h).1 hfatal 3 hpc⟩

end Vlogin
