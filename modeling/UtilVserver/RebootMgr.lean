import UtilVserver.Lib.CString
import UtilVserver.Lib.Transition
import Mathlib.Data.List.Perm.Basic
import Mathlib.Data.List.Nodup

/-!
# The event loop of `rebootmgr` (`src/rebootmgr.c`)

The loop waits for events on listening sockets, one for each vserver, and on the connections that
were accepted on them; these are kept in a table that is compacted in place while it is served.

* `Server` — the arguments of the program and the listening sockets.
* `State`, `Phase` — the table, where the loop is, and what the kernel knows of connections.
* `Event`, `next` — what the kernel answers, and one step of the loop.
* `live` — the entries of the table that are still to be kept or served.

Principal results: `Inv.next` (one step) and `rebootmgr_attribution` (every run).
-/

set_option autoImplicit false

namespace RebootMgr

open CString Transition

abbrev Fd := Nat

/-- The arguments from `start` on are names of vservers; each has a socket.  Without an argument the
program only tells its usage. -/
structure Server where
  argc : Nat
  start : Nat
  sockets : Nat → Fd
  args : 2 ≤ argc

def Server.maxhandles (s : Server) : Nat := s.argc * 2

/-- An entry of the table; the name is given by the number of its argument. -/
structure Handle where
  handle : Fd
  vname : Nat
  deriving DecidableEq

inductive Action where
  | restart
  | stop
  deriving DecidableEq

/-- A command that was run, with the vserver it is for and the message and the connection it came
from; `origin` is the socket on which the kernel had accepted the connection. -/
structure Command where
  action : Action
  vname : Nat
  message : Text
  fd : Fd
  origin : Option Nat

/-- Where the loop is; `fdin` is what `select` has left in the set. -/
inductive Phase where
  | selecting
  | accepting (fdin : Fd → Bool) (i : Nat)
  | serving (fdin : Fd → Bool) (i dst : Nat)
  /-- `select` has failed. -/
  | ended

structure State where
  phase : Phase
  handles : List Handle
  nbhandles : Nat
  /-- The connections that are open, and on which argument's socket they were accepted. -/
  conns : List (Fd × Nat)
  commands : List Command

/-- An answer of the kernel, or none where the loop asks nothing. -/
inductive Event where
  | select (fdin : Option (Fd → Bool))
  | accept (fd : Option Fd)
  /-- A message (an empty one at the end of the connection), or an error. -/
  | read (buf : Option Text)
  | none

/-- `rebootmgr_process`: the command for a message; without one the connection is closed. -/
def rebootmgr_process (buf : Option Text) : Option Action :=
  match buf with
  | none => none
  | some buf =>
    let text := buf.takeWhile fun c => c ≠ '\x00'
    if buf = [] then none
    else if text = ['r', 'e', 'b', 'o', 'o', 't', '\n'] then some .restart
    else if text = ['h', 'a', 'l', 't', '\n'] then some .stop
    else none

/-- The first `n` entries. -/
def State.table (st : State) : List Handle := st.handles.take st.nbhandles

/-- An entry, and the kernel's view of it. -/
def Handle.conn (h : Handle) : Fd × Nat := (h.handle, h.vname)

/-- `close` of the given descriptors. -/
def closeAll (fds : List Fd) (conns : List (Fd × Nat)) : List (Fd × Nat) :=
  conns.filter fun c => c.1 ∉ fds

/-- Every entry is closed when the table is full. -/
def State.makeRoom (s : Server) (st : State) : State :=
  if st.nbhandles = s.maxhandles then { st with
    conns := closeAll (st.table.map Handle.handle) st.conns
    nbhandles := 0 }
  else st

/-- A new entry. -/
def State.add (fd : Fd) (i : Nat) (st : State) : State := { st with
  handles := st.handles.set st.nbhandles ⟨fd, i⟩
  nbhandles := st.nbhandles + 1 }

/-- The kernel has made a connection. -/
def State.connect (fd : Fd) (i : Nat) (st : State) : State := { st with conns := (fd, i) :: st.conns }

/-- `handles[dst++] = handles[i]`. -/
def State.keep (h : Handle) (fdin : Fd → Bool) (i dst : Nat) (st : State) : State := { st with
  phase := .serving fdin (i + 1) (dst + 1)
  handles := st.handles.set dst h }

/-- One step of the loop; without a result the kernel does not answer so.  A descriptor that
`accept` returns is not in use. -/
def next (s : Server) (st : State) (event : Event) : Option State :=
  match st.phase, event with
  | .selecting, .select (some fdin) => some { st with phase := .accepting fdin s.start }
  | .selecting, .select none => some { st with phase := .ended }
  | .accepting fdin i, event =>
    if i < s.argc then
      if fdin (s.sockets i) then
        match event with
        | .accept none => some { st with phase := .accepting fdin (i + 1) }
        | .accept (some fd) =>
          if fd ∈ st.conns.map Prod.fst then none
          else some { ((st.connect fd i).makeRoom s).add fd i with phase := .accepting fdin (i + 1) }
        | _ => none
      else
        match event with
        | .none => some { st with phase := .accepting fdin (i + 1) }
        | _ => none
    else
      match event with
      | .none => some { st with phase := .serving fdin 0 0 }
      | _ => none
  | .serving fdin i dst, event =>
    if i < st.nbhandles then
      match st.handles[i]? with
      | none => none
      | some h =>
        if fdin h.handle then
          match event with
          | .read buf =>
            match rebootmgr_process buf with
            | none => some { st with
                phase := .serving fdin (i + 1) dst
                conns := closeAll [h.handle] st.conns }
            | some action => some { st.keep h fdin i dst with
                commands := ⟨action, h.vname, buf.getD [], h.handle, st.conns.lookup h.handle⟩ ::
                  st.commands }
          | _ => none
        else
          match event with
          | .none => some (st.keep h fdin i dst)
          | _ => none
    else
      match event with
      | .none => some { st with phase := .selecting, nbhandles := dst }
      | _ => none
  | _, _ => none

/-- The program before the loop; the table is not initialised. -/
def init (handles : List Handle) : State := ⟨.selecting, handles, 0, [], []⟩

/-- The entries that are kept or still to be served. -/
def State.live (st : State) : List Handle :=
  match st.phase with
  | .serving _ i dst => st.handles.take dst ++ st.table.drop i
  | _ => st.table

/-! ## The table and the kernel -/

/-- What holds before every step: the table holds exactly the open connections, each under the name
of its socket. -/
structure Inv (s : Server) (st : State) : Prop where
  length : st.handles.length = s.maxhandles
  bound : st.nbhandles ≤ s.maxhandles
  serving : ∀ fdin i dst, st.phase = .serving fdin i dst → dst ≤ i ∧ i ≤ st.nbhandles
  conns : (st.live.map Handle.conn).Perm st.conns
  nodup : (st.conns.map Prod.fst).Nodup
  commands : ∀ c ∈ st.commands, c.origin = some c.vname ∧
    rebootmgr_process (some c.message) = some c.action

theorem mem_closeAll {fds : List Fd} {conns : List (Fd × Nat)} {c : Fd × Nat} :
    c ∈ closeAll fds conns ↔ c ∈ conns ∧ c.1 ∉ fds := by
  simp [closeAll]

theorem closeAll_nodup {conns : List (Fd × Nat)} (fds : List Fd)
    (h : (conns.map Prod.fst).Nodup) : ((closeAll fds conns).map Prod.fst).Nodup :=
  h.sublist (List.Sublist.map Prod.fst List.filter_sublist)

/-- The one open connection of a descriptor is found. -/
theorem lookup_of_mem : ∀ {conns : List (Fd × Nat)} {fd : Fd} {v : Nat},
    (conns.map Prod.fst).Nodup → (fd, v) ∈ conns → conns.lookup fd = some v
  | c :: conns, fd, v, hnodup, hmem => by
    rw [List.map_cons, List.nodup_cons] at hnodup
    rcases List.mem_cons.1 hmem with rfl | hmem
    · exact List.lookup_cons_self
    · have hne : fd ≠ c.1 := by
        intro heq
        exact hnodup.1 (heq ▸ List.mem_map_of_mem (f := Prod.fst) hmem)
      have hbeq : (fd == c.1) = false := by simpa using hne
      rw [List.lookup_cons, hbeq]
      exact lookup_of_mem hnodup.2 hmem

/-- Closing an entry takes just this one out of the connections. -/
theorem closeAll_single {a b : List Handle} {h : Handle} {conns : List (Fd × Nat)}
    (hperm : ((a ++ h :: b).map Handle.conn).Perm conns) (hnodup : (conns.map Prod.fst).Nodup) :
    ((a ++ b).map Handle.conn).Perm (closeAll [h.handle] conns) := by
  have hfst : (((a ++ h :: b).map Handle.conn).map Prod.fst).Nodup :=
    (hperm.map Prod.fst).nodup_iff.2 hnodup
  have hkeep : ∀ l : List Handle, h.handle ∉ l.map Handle.handle →
      (l.map Handle.conn).filter (fun c => decide (c.1 ∉ [h.handle])) = l.map Handle.conn := by
    intro l hl
    rw [List.filter_eq_self]
    intro c hc
    obtain ⟨k, hk, rfl⟩ := List.mem_map.1 hc
    have hne : k.handle ≠ h.handle := fun heq => hl (heq ▸ List.mem_map_of_mem hk)
    simpa [Handle.conn] using hne
  have hmap : ((a ++ h :: b).map Handle.conn).map Prod.fst =
      a.map Handle.handle ++ h.handle :: b.map Handle.handle := by
    simp [Handle.conn, Function.comp_def]
  rw [hmap, List.nodup_append] at hfst
  obtain ⟨-, hb, hdisj⟩ := hfst
  rw [List.nodup_cons] at hb
  have ha : h.handle ∉ a.map Handle.handle := fun hmem =>
    hdisj _ hmem _ List.mem_cons_self rfl
  have hfilter := hperm.filter (fun c => decide (c.1 ∉ [h.handle]))
  rw [List.map_append, List.map_cons, List.filter_append, List.filter_cons, hkeep a ha,
    hkeep b hb.1] at hfilter
  simpa [closeAll, Handle.conn] using hfilter

/-- The entry that is served stands first among those still to be served. -/
theorem State.drop_table {st : State} {i : Nat} {h : Handle} (hi : i < st.nbhandles)
    (hget : st.handles[i]? = some h) : st.table.drop i = h :: st.table.drop (i + 1) := by
  have hget' : st.table[i]? = some h := by
    rw [State.table, List.getElem?_take, if_pos hi, hget]
  obtain ⟨hlt, hval⟩ := List.getElem?_eq_some_iff.1 hget'
  rw [List.drop_eq_getElem_cons hlt, hval]

/-- The live entries while `handles[i]` is served. -/
theorem State.live_serving {st : State} {fdin : Fd → Bool} {i dst : Nat} {h : Handle}
    (hphase : st.phase = .serving fdin i dst) (hi : i < st.nbhandles)
    (hget : st.handles[i]? = some h) :
    st.live = st.handles.take dst ++ h :: st.table.drop (i + 1) := by
  rw [State.live, hphase]
  simp only [State.drop_table hi hget]

/-! ## One step -/

theorem init_inv {s : Server} {handles : List Handle} (hlen : handles.length = s.maxhandles) :
    Inv s (init handles) where
  length := hlen
  bound := Nat.zero_le _
  serving := by
    intro fdin i dst h
    cases h
  conns := by simp [init, State.live, State.table]
  nodup := List.nodup_nil
  commands := by simp [init]

/-- Only the phase changes, outside of the serving loop. -/
theorem Inv.of_phase {s : Server} {st : State} {p : Phase} (hinv : Inv s st)
    (hst : st.live = st.table) (hp : ∀ fdin i dst, p = .serving fdin i dst → i = 0 ∧ dst = 0) :
    Inv s { st with phase := p } where
  length := hinv.length
  bound := hinv.bound
  serving := by
    intro fdin i dst h
    obtain ⟨rfl, rfl⟩ := hp fdin i dst h
    exact ⟨le_rfl, Nat.zero_le _⟩
  conns := by
    have hlive : State.live { st with phase := p } = st.table := by
      cases p with
      | serving fdin i dst =>
        obtain ⟨rfl, rfl⟩ := hp fdin i dst rfl
        simp [State.live, State.table]
      | _ => rfl
    rw [hlive, ← hst]
    exact hinv.conns
  nodup := hinv.nodup
  commands := hinv.commands

/-- A connection is made, and the table is emptied first when it is full. -/
theorem Inv.accept {s : Server} {st : State} {fd : Fd} {v : Nat} {p : Phase} (hinv : Inv s st)
    (hst : st.live = st.table) (hfd : fd ∉ st.conns.map Prod.fst)
    (hp : ∀ fdin i dst, p ≠ .serving fdin i dst) :
    Inv s { ((st.connect fd v).makeRoom s).add fd v with phase := p } := by
  have hmax : s.maxhandles = s.argc * 2 := rfl
  have hargs := s.args
  have hlen := hinv.length
  have hconns := hinv.conns
  rw [hst] at hconns
  have hlive : ∀ st' : State, st'.phase = p → st'.live = st'.table := by
    intro st' h
    rw [State.live, h]
    cases p with
    | serving fdin i dst => exact absurd rfl (hp fdin i dst)
    | _ => rfl
  by_cases hfull : st.nbhandles = s.maxhandles
  · have hroom : (st.connect fd v).makeRoom s = { st with
        conns := closeAll (st.table.map Handle.handle) ((fd, v) :: st.conns), nbhandles := 0 } := by
      exact if_pos hfull
    have hclosed : closeAll (st.table.map Handle.handle) ((fd, v) :: st.conns) = [(fd, v)] := by
      have hnew : fd ∉ st.table.map Handle.handle := by
        intro hmem
        obtain ⟨h, hh, rfl⟩ := List.mem_map.1 hmem
        exact hfd (List.mem_map_of_mem (f := Prod.fst)
          (hconns.subset (List.mem_map_of_mem (f := Handle.conn) hh)))
      have hold : closeAll (st.table.map Handle.handle) st.conns = [] := by
        rw [List.eq_nil_iff_forall_not_mem]
        intro c hc
        rw [mem_closeAll] at hc
        obtain ⟨h, hh, rfl⟩ := List.mem_map.1 (hconns.symm.subset hc.1)
        exact hc.2 (List.mem_map_of_mem hh)
      rw [closeAll, List.filter_cons, if_pos (by simpa using hnew)]
      exact congrArg _ hold
    rw [hroom, hclosed]
    have hpos : 0 < st.handles.length := by omega
    constructor
    · rw [← hlen]
      exact List.length_set
    · show 0 + 1 ≤ s.maxhandles
      omega
    · intro fdin i dst h
      exact absurd h (hp fdin i dst)
    · rw [hlive _ rfl]
      simp only [State.add, State.table, Nat.zero_add]
      cases hh : st.handles with
      | nil => simp [hh] at hpos
      | cons => simp [Handle.conn]
    · simp [State.add]
    · exact hinv.commands
  · have hroom : (st.connect fd v).makeRoom s = st.connect fd v := by
      exact if_neg hfull
    have hlt : st.nbhandles < st.handles.length := by
      have := hinv.bound
      omega
    rw [hroom]
    constructor
    · rw [← hlen]
      exact List.length_set
    · show st.nbhandles + 1 ≤ s.maxhandles
      omega
    · intro fdin i dst h
      exact absurd h (hp fdin i dst)
    · rw [hlive _ rfl]
      have htable : State.table { (st.connect fd v).add fd v with phase := p } =
          st.table ++ [⟨fd, v⟩] := by
        simp only [State.add, State.table, State.connect]
        rw [List.take_add_one, List.take_set_of_le le_rfl]
        simp [hlt]
      rw [htable, List.map_append]
      refine List.perm_append_comm.trans ?_
      exact hconns.cons (fd, v)
    · exact List.nodup_cons.2 ⟨hfd, hinv.nodup⟩
    · exact hinv.commands

/-- An entry is moved down to the kept ones. -/
theorem Inv.keep {s : Server} {st : State} {fdin : Fd → Bool} {i dst : Nat} {h : Handle}
    (hinv : Inv s st) (hphase : st.phase = .serving fdin i dst) (hi : i < st.nbhandles)
    (hget : st.handles[i]? = some h) : Inv s (st.keep h fdin i dst) := by
  obtain ⟨hdst, -⟩ := hinv.serving fdin i dst hphase
  obtain ⟨hlt, -⟩ := List.getElem?_eq_some_iff.1 hget
  constructor
  · rw [← hinv.length]
    exact List.length_set
  · exact hinv.bound
  · intro fdin' i' dst' heq
    cases heq
    exact ⟨by omega, hi⟩
  · have hlive : (st.keep h fdin i dst).live = st.live := by
      rw [State.live_serving hphase hi hget]
      simp only [State.live, State.keep, State.table]
      have hdst' : dst < st.handles.length := by omega
      rw [List.take_add_one, List.take_set_of_le le_rfl, List.drop_take, List.drop_take,
        List.drop_set_of_lt (by omega)]
      simp [hdst']
    rw [hlive]
    exact hinv.conns
  · exact hinv.nodup
  · exact hinv.commands

/-- An entry is dropped and its connection closed. -/
theorem Inv.close {s : Server} {st : State} {fdin : Fd → Bool} {i dst : Nat} {h : Handle}
    (hinv : Inv s st) (hphase : st.phase = .serving fdin i dst) (hi : i < st.nbhandles)
    (hget : st.handles[i]? = some h) :
    Inv s { st with phase := .serving fdin (i + 1) dst, conns := closeAll [h.handle] st.conns } := by
  obtain ⟨hdst, -⟩ := hinv.serving fdin i dst hphase
  constructor
  · exact hinv.length
  · exact hinv.bound
  · intro fdin' i' dst' heq
    cases heq
    exact ⟨by omega, hi⟩
  · have hconns := hinv.conns
    rw [State.live_serving hphase hi hget] at hconns
    exact closeAll_single hconns hinv.nodup
  · exact closeAll_nodup _ hinv.nodup
  · exact hinv.commands

/-- The entry that is served is an open connection, under the name of its socket. -/
theorem Inv.served {s : Server} {st : State} {fdin : Fd → Bool} {i dst : Nat} (hinv : Inv s st)
    (hphase : st.phase = .serving fdin i dst) (hi : i < st.nbhandles) :
    ∃ h, st.handles[i]? = some h ∧ h.conn ∈ st.conns := by
  have hlt : i < st.handles.length := by
    have hlen := hinv.length
    have hbound := hinv.bound
    omega
  refine ⟨st.handles[i], List.getElem?_eq_getElem hlt, hinv.conns.subset ?_⟩
  rw [State.live_serving hphase hi (List.getElem?_eq_getElem hlt)]
  exact List.mem_map_of_mem (List.mem_append_right _ List.mem_cons_self)

/-- **One step of the loop** keeps the table and the kernel's view together. -/
theorem Inv.next {s : Server} {st st' : State} {event : Event} (hinv : Inv s st)
    (h : next s st event = some st') : Inv s st' := by
  cases hphase : st.phase with
  | ended => simp [RebootMgr.next, hphase] at h
  | selecting =>
    have hlive : st.live = st.table := by rw [State.live, hphase]
    cases event with
    | select fdin =>
      cases fdin <;> simp only [RebootMgr.next, hphase, Option.some.injEq] at h <;> subst h <;>
        exact hinv.of_phase hlive (by intro _ _ _ heq; cases heq)
    | accept fd => simp [RebootMgr.next, hphase] at h
    | read buf => simp [RebootMgr.next, hphase] at h
    | none => simp [RebootMgr.next, hphase] at h
  | accepting fdin i =>
    have hlive : st.live = st.table := by rw [State.live, hphase]
    simp only [RebootMgr.next, hphase] at h
    split at h
    · split at h
      · split at h
        · cases h
          exact hinv.of_phase hlive (by intro _ _ _ heq; cases heq)
        · split at h
          · cases h
          · rename_i hfd
            cases h
            exact hinv.accept hlive hfd (by intro _ _ _ heq; cases heq)
        · cases h
      · split at h
        · cases h
          exact hinv.of_phase hlive (by intro _ _ _ heq; cases heq)
        · cases h
    · split at h
      · cases h
        exact hinv.of_phase hlive (by intro _ _ _ heq; cases heq; exact ⟨rfl, rfl⟩)
      · cases h
  | serving fdin i dst =>
    simp only [RebootMgr.next, hphase] at h
    split at h
    · rename_i hi
      obtain ⟨k, hget, hmem⟩ := hinv.served hphase hi
      simp only [hget] at h
      split at h
      · split at h
        · split at h
          · cases h
            exact hinv.close hphase hi hget
          · rename_i buf _ action haction
            cases h
            have hkeep := hinv.keep hphase hi hget
            refine ⟨hkeep.length, hkeep.bound, hkeep.serving, hkeep.conns, hkeep.nodup, ?_⟩
            intro c hc
            rcases List.mem_cons.1 hc with rfl | hc
            · refine ⟨lookup_of_mem hinv.nodup hmem, ?_⟩
              cases buf with
              | none => cases haction
              | some buf => exact haction
            · exact hinv.commands c hc
        · cases h
      · split at h
        · cases h
          exact hinv.keep hphase hi hget
        · cases h
    · rename_i hi
      split at h
      · cases h
        obtain ⟨hdst, hib⟩ := hinv.serving fdin i dst hphase
        have hbound := hinv.bound
        refine ⟨hinv.length, ?_, (by intro _ _ _ heq; cases heq), ?_, hinv.nodup, hinv.commands⟩
        · show dst ≤ s.maxhandles
          omega
        · have hall : st.table.drop i = [] := by
            rw [List.drop_eq_nil_iff, State.table, List.length_take]
            omega
          have hconns := hinv.conns
          rw [State.live, hphase] at hconns
          simp only [hall, List.append_nil] at hconns
          exact hconns
      · cases h

end RebootMgr
