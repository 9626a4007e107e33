import Mathlib.Data.List.TakeWhile
import UtilVserver.RpmFake

/-!
# Synchronisation of `rpm-fake` and its resolver

As long as the client makes lookups only, with names the resolver accepts, the two processes stay
in step, whatever the scheduling and the buffer sizes.

* `Tame` — the lookups the resolver reads completely.
* `Inv` — the joint states of such a run, one case for each phase of a request.

Principal results: `lookups_in_sync` (every answer belongs to its name, and no name byte is taken
as a command) and `tokens_in_sync` (at most one token is unread, requests wait for their token, and
the processes do not block each other).  The resolver skips the name of a request whose length it
rejects, and `endpwent`/`endgrent` write without a token: `long_name_becomes_command` and
`endpwent_takes_no_token`.
-/

set_option autoImplicit false

namespace RpmFake

open Transition

/-- A lookup of a name that is shorter than the limit of the resolver. -/
def Op.Tame : Op → Prop
  | .lookup _ name => name.bytes.length < maxRqSize
  | _ => False

/-- The answer of the resolver to a lookup. -/
def answer (db : Database) (style : Style) (name : Name) : Answer :=
  sendResult (db style name.bytes)

/-- What the lookups among the operations return. -/
def answers (db : Database) (ops : List Op) : List (Option Answer) :=
  ops.filterMap fun op =>
    match op with
    | .lookup style name => some (some (answer db style name))
    | _ => none

/-- The command byte of an operation. -/
def Op.cmd : Op → Byte
  | .ping => byte '.'
  | .lookup style _ => style.cmd
  | .close _ => byte 'C'
  | .quit => byte 'Q'

/-! ## The phases of a request -/

/-- The resolver waits for a command, or is about to announce it: its state, the token pipe, the
commands handled and the tokens sent. -/
inductive Quiet : ServerPc → List Byte → Nat → Nat → Prop
  | announce (n : Nat) : Quiet .announce [] n n
  | ready (n : Nat) : Quiet .readCmd [byte '.'] n (n + 1)

/-- The resolver reads the request of `op`, of which `stream` is still to come; `exec` is the
command it has taken. -/
inductive Reads (op : Op) : List Byte → ServerPc → List Byte → Prop
  | cmd : Reads op op.request .readCmd []
  | len {style : Style} {name : Name} {stream got : List Byte} (hop : op = .lookup style name)
      (hs : got ++ stream = encode32 name.bytes.length ++ name.bytes) (hgot : got.length < 4) :
      Reads op stream (.readLen style got) [style.cmd]
  | name {style : Style} {name : Name} {stream got : List Byte} (hop : op = .lookup style name)
      (hs : got ++ stream = name.bytes) (hgot : got.length < name.bytes.length) :
      Reads op stream (.readName style name.bytes.length got) [style.cmd]

/-- The resolver sends its answer to `op`: the client, the resolver and the bytes in between. -/
inductive Answering (db : Database) : Op → ClientPc → ServerPc → List Byte → Prop
  | ping : Answering db .ping (.awaitCode .ping) (.reply (byte '.')) []
  | code (style : Style) (name : Name) : Answering db (.lookup style name)
      (.awaitCode (.lookup style name)) (.sendCode (answer db style name)) []
  | sent (style : Style) (name : Name) : Answering db (.lookup style name)
      (.awaitCode (.lookup style name)) (.sendId (answer db style name))
      [(answer db style name).code]
  | taken (style : Style) (name : Name) : Answering db (.lookup style name)
      (.awaitId (.lookup style name) (answer db style name).code)
      (.sendId (answer db style name)) []

/-- The answer to `op` is complete and the client reads it. -/
inductive Answered (db : Database) : Op → ClientPc → List Byte → Prop
  | ping : Answered db .ping (.awaitCode .ping) [byte '.']
  | code (style : Style) (name : Name) : Answered db (.lookup style name)
      (.awaitCode (.lookup style name))
      ((answer db style name).code :: encode32 (answer db style name).id.toNat)
  | id (style : Style) (name : Name) : Answered db (.lookup style name)
      (.awaitId (.lookup style name) (answer db style name).code)
      (encode32 (answer db style name).id.toNat)

/-- **The invariant** of a program of operations: `done` are finished, `op` is under way. -/
inductive Inv (db : Database) (prog : List Op) : State → Prop
  | start {ctx sync : List Byte} {server : ServerPc} {sent : Nat} (hctx : ctx.length = 4)
      (hq : Quiet server sync 0 sent) :
      Inv db prog ⟨.start, prog, server, ctx ++ sync, [], [], [], [], 0, 0, sent, 0⟩
  | idle {done ops : List Op} {sync : List Byte} {server : ServerPc} {sent : Nat}
      (hprog : prog = done ++ ops) (hops : ops ≠ []) (hq : Quiet server sync done.length sent) :
      Inv db prog ⟨.next, ops, server, sync, [], [], answers db done, done.map Op.cmd,
        done.length, done.length, sent, done.length⟩
  | request {done ops : List Op} {op : Op} {todo req exec : List Byte} {server : ServerPc}
      (hprog : prog = done ++ op :: ops) (hr : Reads op (req ++ todo) server exec) :
      Inv db prog ⟨op.sendPc todo, ops, server, [], req, [], answers db done,
        done.map Op.cmd ++ exec, done.length + 1, done.length + 1, done.length + 1, done.length⟩
  | answering {done ops : List Op} {op : Op} {pc : ClientPc} {ans : List Byte} {server : ServerPc}
      (hprog : prog = done ++ op :: ops) (ha : Answering db op pc server ans) :
      Inv db prog ⟨pc, ops, server, [], [], ans, answers db done, (done ++ [op]).map Op.cmd,
        done.length + 1, done.length + 1, done.length + 1, done.length⟩
  | answered {done ops : List Op} {op : Op} {pc : ClientPc} {ans sync : List Byte}
      {server : ServerPc} {sent : Nat} (hprog : prog = done ++ op :: ops)
      (ha : Answered db op pc ans) (hq : Quiet server sync (done.length + 1) sent) :
      Inv db prog ⟨pc, ops, server, sync, [], ans, answers db done, (done ++ [op]).map Op.cmd,
        done.length + 1, done.length + 1, sent, done.length + 1⟩
  | exited {done : List Op} (hprog : prog = done ++ [.quit]) :
      Inv db prog ⟨.next, [], .exited, [], [], [], answers db done, prog.map Op.cmd,
        prog.length, prog.length, prog.length, done.length⟩

/-- What the invariant needs of a program. -/
structure Shape (prog : List Op) : Prop where
  nonempty : prog ≠ []
  token : ∀ op ∈ prog, op.readsToken = true
  short : ∀ style name, Op.lookup style name ∈ prog → name.bytes.length < maxRqSize
  last : ∀ done op ops, prog = done ++ op :: ops → (op = .quit ↔ ops = [])

theorem shape_program {calls : List Op} (h : ∀ op ∈ calls, op.Tame) : Shape (program calls) := by
  have hquit : ∀ op ∈ Op.ping :: calls, op ≠ .quit := by
    intro op hop
    rcases List.mem_cons.1 hop with rfl | hop
    · simp
    · rintro rfl; exact h _ hop
  refine ⟨by simp [program], ?_, ?_, ?_⟩
  · intro op hop
    simp only [program, List.mem_cons, List.mem_append, List.not_mem_nil, or_false] at hop
    rcases hop with rfl | hop | rfl
    · rfl
    · cases op with
      | close what => exact (h _ hop).elim
      | _ => rfl
    · rfl
  · intro style name hop
    simp only [program, List.mem_cons, List.mem_append, List.not_mem_nil, or_false, reduceCtorEq,
      false_or] at hop
    exact h _ hop
  · intro done op ops heq
    have hsplit : (Op.ping :: calls) ++ [Op.quit] = done ++ op :: ops := by rw [← heq]; rfl
    constructor
    · rintro rfl
      rcases List.eq_nil_or_concat' ops with rfl | ⟨ops', x, rfl⟩
      · rfl
      · rw [← List.cons_append, ← List.append_assoc] at hsplit
        have hinit := (List.append_inj' hsplit rfl).1
        exact absurd rfl (hquit .quit (by rw [hinit]; simp))
    · rintro rfl
      have hlast := (List.append_inj' hsplit rfl).2
      simpa using hlast.symm

section Steps

variable {cap : Capacity} {db : Database} {prog : List Op}

theorem request_ne_nil (op : Op) : op.request ≠ [] := by
  cases op <;> simp [Op.request]

theorem sendPc_cons (op : Op) (b : Byte) (todo : List Byte) :
    op.sendPc (b :: todo) = .sending op (b :: todo) := rfl

theorem sendPc_nil (op : Op) : op.sendPc [] = op.afterSend := rfl

theorem sendPc_request (op : Op) : op.sendPc op.request = .sending op op.request := by
  cases hr : op.request with
  | nil => exact absurd hr (request_ne_nil op)
  | cons b todo => rfl

theorem answers_concat_lookup (done : List Op) (style : Style) (name : Name) :
    answers db (done ++ [.lookup style name]) =
      answers db done ++ [some (answer db style name)] := by
  simp [answers]

theorem answers_concat_ping (done : List Op) :
    answers db (done ++ [.ping]) = answers db done := by
  simp [answers]

theorem decode_id (id : BitVec 32) :
    BitVec.ofNat 32 (decode32 ((encode32 id.toNat).take 4)) = id := by
  have htake : (encode32 id.toNat).take 4 = encode32 id.toNat := rfl
  rw [htake, decode32_encode32 id.isLt, BitVec.ofNat_toNat, BitVec.setWidth_eq]

/-- While the resolver reads a request it has not exited. -/
theorem Reads.notGone {op : Op} {stream exec : List Byte} {server : ServerPc}
    (h : Reads op stream server exec) (s : State) (hs : s.server = server) :
    s.serverGone = false := by
  cases h <;> simp [State.serverGone, hs]

/-- The steps of the client keep the invariant. -/
theorem inv_client (hsh : Shape prog) {s s' : State} (h : Inv db prog s)
    (hs : clientStep cap s = some s') : Inv db prog s' := by
  cases h with
  | @start ctx sync server sent hctx hq =>
    have hne : ctx ++ sync ≠ [] := by
      intro he
      have := congrArg List.length he
      simp [hctx] at this
    have hlen : 4 ≤ (ctx ++ sync).length := by rw [List.length_append]; omega
    have hdrop : (ctx ++ sync).drop 4 = sync := by rw [← hctx, List.drop_left]
    simp only [clientStep, if_neg hne, if_pos hlen, hdrop, Option.some.injEq] at hs
    subst hs
    exact Inv.idle (List.nil_append prog).symm hsh.nonempty hq
  | @idle done ops sync server sent hprog hops hq =>
    cases ops with
    | nil => exact absurd rfl hops
    | cons op ops =>
      have htok := hsh.token op (by rw [hprog]; simp)
      cases hq with
      | announce => simp [clientStep, htok, State.serverGone] at hs
      | ready =>
        simp only [clientStep, htok, if_true, Option.some.injEq] at hs
        subst hs
        have hreads : Reads op ([] ++ op.request) .readCmd [] := Reads.cmd
        have hnew : Inv db prog _ := Inv.request hprog hreads
        rw [List.append_nil] at hnew
        exact hnew
  | @request done ops op todo req exec server hprog hr =>
    have hgone := hr.notGone
    cases todo with
    | nil =>
      -- everything is written: the client waits for the answer, or it is done
      rw [sendPc_nil] at hs
      cases op with
      | ping => simp [clientStep, Op.afterSend, hgone] at hs
      | lookup style name => simp [clientStep, Op.afterSend, hgone] at hs
      | close what =>
        have htok := hsh.token (.close what) (by rw [hprog]; simp)
        cases htok
      | quit =>
        have hops := (hsh.last done .quit ops hprog).1 rfl
        subst hops
        simp [clientStep, Op.afterSend] at hs
    | cons b todo =>
      simp only [clientStep, sendPc_cons, hgone, Bool.false_eq_true, if_false] at hs
      split at hs
      · cases hs
        have hmove : req ++ b :: todo = (req ++ [b]) ++ todo := by simp
        rw [hmove] at hr
        exact Inv.request hprog hr
      · cases hs
  | @answering done ops op pc ans server hprog ha =>
    cases ha with
    | ping => simp [clientStep, State.serverGone] at hs
    | code style name => simp [clientStep, State.serverGone] at hs
    | sent style name =>
      simp only [clientStep, Option.some.injEq] at hs
      subst hs
      exact Inv.answering hprog (Answering.taken style name)
    | taken style name => simp [clientStep, State.serverGone] at hs
  | @answered done ops op pc ans sync server sent hprog ha hq =>
    have hdone : (done ++ [op]).length = done.length + 1 := by simp
    have hprog' : prog = (done ++ [op]) ++ ops := by rw [hprog]; simp
    cases ha with
    | ping =>
      have hops : ops ≠ [] := fun he => nomatch (hsh.last done .ping ops hprog).2 he
      simp only [clientStep, if_true, Option.some.injEq] at hs
      subst hs
      have hnew : Inv db prog _ := Inv.idle hprog' hops (hdone ▸ hq)
      rw [answers_concat_ping, hdone] at hnew
      exact hnew
    | code style name =>
      simp only [clientStep, Option.some.injEq] at hs
      subst hs
      exact Inv.answered hprog (Answered.id style name) hq
    | id style name =>
      have hops : ops ≠ [] := fun he => nomatch (hsh.last done (.lookup style name) ops hprog).2 he
      have hne : encode32 (answer db style name).id.toNat ≠ [] := by simp [encode32]
      have hlen : 4 ≤ (encode32 (answer db style name).id.toNat).length := by simp [encode32_length]
      have hdrop : (encode32 (answer db style name).id.toNat).drop 4 = [] := rfl
      simp only [clientStep, if_neg hne, if_pos hlen, hdrop, decode_id, Option.some.injEq] at hs
      subst hs
      have hnew : Inv db prog _ := Inv.idle hprog' hops (hdone ▸ hq)
      rw [answers_concat_lookup, hdone] at hnew
      exact hnew
  | exited hprog => simp [clientStep] at hs

theorem dispatch_style (style : Style) : dispatch style.cmd = .readLen style [] := by
  cases style <;> rfl

/-- A client with a request under way keeps the channels open. -/
theorem sending_notGone {op : Op} {todo : List Byte} (h : op.sendPc todo ≠ .next) (s : State)
    (hs : s.client = op.sendPc todo) : s.clientGone = false := by
  cases todo with
  | cons b todo => simp [State.clientGone, hs, sendPc_cons]
  | nil =>
    rw [sendPc_nil] at h hs
    cases op <;> simp_all [Op.afterSend, State.clientGone]

theorem sendPc_lookup_ne_next (style : Style) (name : Name) (todo : List Byte) :
    (Op.lookup style name).sendPc todo ≠ .next := by
  cases todo <;> simp [Op.sendPc, Op.afterSend]

theorem cstring_name (name : Name) : cstring name.bytes = name.bytes := by
  rw [cstring, List.takeWhile_eq_self_iff]
  intro b hb
  have hne : b ≠ 0#8 := fun he => name.noNul (he ▸ hb)
  simpa using hne

theorem answerName_eq (style : Style) (name : Name) :
    answerName db style name.bytes = .sendCode (answer db style name) := by
  rw [answerName, cstring_name, answer]

/-- A name below the limit is sent as it is. -/
theorem request_short {style : Style} {name : Name} (h : name.bytes.length < maxRqSize) :
    (Op.lookup style name).request = style.cmd :: (encode32 name.bytes.length ++ name.bytes) := by
  have hlen : name.len = name.bytes.length := Nat.mod_eq_of_lt (Nat.lt_trans h (by decide))
  rw [Op.request, hlen, List.take_length]

/-- The resolver takes the command of a request. -/
theorem inv_cmd (hsh : Shape prog) {done ops : List Op} {op : Op} {c : Byte}
    {req todo : List Byte} (hprog : prog = done ++ op :: ops)
    (hreq : c :: req ++ todo = op.request) :
    Inv db prog ⟨op.sendPc todo, ops, dispatch c, [], req, [], answers db done,
      done.map Op.cmd ++ [c], done.length + 1, done.length + 1, done.length + 1, done.length⟩ := by
  cases op with
  | ping =>
    obtain ⟨rfl, hrest⟩ := List.cons.inj hreq
    obtain ⟨rfl, rfl⟩ := List.append_eq_nil_iff.1 hrest
    have hnew : Inv db prog _ := Inv.answering hprog Answering.ping
    rwa [List.map_append] at hnew
  | lookup style name =>
    rw [request_short (hsh.short style name (by rw [hprog]; simp))] at hreq
    obtain ⟨rfl, hrest⟩ := List.cons.inj hreq
    rw [dispatch_style]
    exact Inv.request hprog (Reads.len rfl hrest (by simp))
  | close what =>
    have htok := hsh.token (.close what) (by rw [hprog]; simp)
    cases htok
  | quit =>
    obtain ⟨rfl, hrest⟩ := List.cons.inj hreq
    obtain ⟨rfl, rfl⟩ := List.append_eq_nil_iff.1 hrest
    obtain rfl := (hsh.last done .quit ops hprog).1 rfl
    have hnew : Inv db prog _ := Inv.exited hprog
    rw [hprog, List.map_append, List.length_append] at hnew
    rw [hprog]
    exact hnew

/-- The resolver takes a byte of the length. -/
theorem inv_len (hsh : Shape prog) {done ops : List Op} {style : Style} {name : Name} {b : Byte}
    {got req todo : List Byte} (hprog : prog = done ++ .lookup style name :: ops)
    (hs : got ++ (b :: req ++ todo) = encode32 name.bytes.length ++ name.bytes)
    (hgot : got.length < 4) {s s' : State}
    (heq : s = ⟨(Op.lookup style name).sendPc todo, ops, .readLen style got, [], b :: req, [],
      answers db done, done.map Op.cmd ++ [style.cmd], done.length + 1, done.length + 1,
      done.length + 1, done.length⟩)
    (hstep : serverStep cap db s = some s') : Inv db prog s' := by
  have hmove : (got ++ [b]) ++ (req ++ todo) = encode32 name.bytes.length ++ name.bytes := by
    rw [← hs]; simp
  have hshort := hsh.short style name (by rw [hprog]; simp)
  subst heq
  simp only [serverStep] at hstep
  by_cases h4 : (got ++ [b]).length = 4
  · obtain ⟨hlen, hrest⟩ := List.append_inj hmove (by rw [h4, encode32_length])
    have hdec : decode32 (got ++ [b]) = name.bytes.length := by
      rw [hlen, decode32_encode32 (Nat.lt_trans hshort (by decide))]
    simp only [h4, if_true, hdec, if_pos hshort] at hstep
    split at hstep
    · rename_i h0
      have hnil := List.length_eq_zero_iff.1 h0
      rw [hnil, List.append_eq_nil_iff] at hrest
      obtain ⟨rfl, rfl⟩ := hrest
      have hans : answerName db style name.bytes = _ := answerName_eq style name
      rw [hnil] at hans
      rw [hans] at hstep
      cases hstep
      have hnew : Inv db prog _ := Inv.answering hprog (Answering.code style name)
      rwa [List.map_append] at hnew
    · rename_i h0
      cases hstep
      exact Inv.request hprog (Reads.name rfl hrest (by simp; omega))
  · simp only [h4, if_false, Option.some.injEq] at hstep
    subst hstep
    have hlt : (got ++ [b]).length < 4 := by rw [List.length_append] at h4 ⊢; simp at h4 ⊢; omega
    exact Inv.request hprog (Reads.len rfl hmove hlt)

/-- The resolver takes a byte of the name. -/
theorem inv_name {done ops : List Op} {style : Style} {name : Name} {b : Byte}
    {got req todo : List Byte} (hprog : prog = done ++ .lookup style name :: ops)
    (hs : got ++ (b :: req ++ todo) = name.bytes) {s s' : State}
    (heq : s = ⟨(Op.lookup style name).sendPc todo, ops,
      .readName style name.bytes.length got, [], b :: req, [],
      answers db done, done.map Op.cmd ++ [style.cmd], done.length + 1, done.length + 1,
      done.length + 1, done.length⟩)
    (hstep : serverStep cap db s = some s') : Inv db prog s' := by
  have hmove : (got ++ [b]) ++ (req ++ todo) = name.bytes := by rw [← hs]; simp
  have hsum : (got ++ [b]).length + (req ++ todo).length = name.bytes.length := by
    rw [← hmove]
    exact List.length_append.symm
  subst heq
  simp only [serverStep] at hstep
  split at hstep
  · rename_i hall
    have hnil : req ++ todo = [] := List.length_eq_zero_iff.1 (by omega)
    rw [hnil, List.append_nil] at hmove
    obtain ⟨rfl, rfl⟩ := List.append_eq_nil_iff.1 hnil
    rw [hmove, answerName_eq] at hstep
    cases hstep
    have hnew : Inv db prog _ := Inv.answering hprog (Answering.code style name)
    rwa [List.map_append] at hnew
  · rename_i hpart
    cases hstep
    exact Inv.request hprog (Reads.name rfl hmove (by omega))

/-- The steps of the resolver keep the invariant. -/
theorem inv_server (hsh : Shape prog) {s s' : State} (h : Inv db prog s)
    (hs : serverStep cap db s = some s') : Inv db prog s' := by
  cases h with
  | @start ctx sync server sent hctx hq =>
    cases hq with
    | announce =>
      simp only [serverStep] at hs
      split at hs
      · cases hs
        rw [List.append_nil]
        exact Inv.start hctx (Quiet.ready 0)
      · cases hs
    | ready => simp [serverStep, State.clientGone] at hs
  | @idle done ops sync server sent hprog hops hq =>
    cases hq with
    | announce =>
      simp only [serverStep] at hs
      split at hs
      · cases hs
        exact Inv.idle hprog hops (Quiet.ready _)
      · cases hs
    | ready =>
      cases ops with
      | nil => exact absurd rfl hops
      | cons op ops => simp [serverStep, State.clientGone] at hs
  | @request done ops op todo req exec server hprog hr =>
    generalize hstream : req ++ todo = stream at hr
    cases hr with
    | cmd =>
      cases req with
      | nil =>
        obtain rfl : todo = op.request := hstream
        have hsend : op.sendPc op.request ≠ .next := by simp [sendPc_request]
        have hgone := sending_notGone hsend
        simp [serverStep, hgone] at hs
      | cons c req =>
        simp only [serverStep, Option.some.injEq] at hs
        subst hs
        rw [List.append_nil]
        exact inv_cmd hsh hprog hstream
    | @len style name _ got hop hstr hgot =>
      subst hop hstream
      cases req with
      | nil =>
        have hgone := sending_notGone (sendPc_lookup_ne_next style name todo)
        simp [serverStep, hgone] at hs
      | cons b req => exact inv_len hsh hprog hstr hgot rfl hs
    | @name style name _ got hop hstr hgot =>
      subst hop hstream
      cases req with
      | nil =>
        have hgone := sending_notGone (sendPc_lookup_ne_next style name todo)
        simp [serverStep, hgone] at hs
      | cons b req => exact inv_name hprog hstr rfl hs
  | @answering done ops op pc ans server hprog ha =>
    cases ha with
    | ping =>
      simp only [serverStep] at hs
      split at hs
      · cases hs
        exact Inv.answered hprog Answered.ping (Quiet.announce _)
      · cases hs
    | code style name =>
      simp only [serverStep] at hs
      split at hs
      · cases hs
        exact Inv.answering hprog (Answering.sent style name)
      · cases hs
    | sent style name =>
      simp only [serverStep] at hs
      split at hs
      · cases hs
        exact Inv.answered hprog (Answered.code style name) (Quiet.announce _)
      · cases hs
    | taken style name =>
      simp only [serverStep] at hs
      split at hs
      · cases hs
        exact Inv.answered hprog (Answered.id style name) (Quiet.announce _)
      · cases hs
  | @answered done ops op pc ans sync server sent hprog ha hq =>
    cases hq with
    | announce =>
      simp only [serverStep] at hs
      split at hs
      · cases hs
        exact Inv.answered hprog ha (Quiet.ready _)
      · cases hs
    | ready => cases ha <;> simp [serverStep, State.clientGone] at hs
  | exited hprog => simp [serverStep] at hs

/-- Every state of a run satisfies the invariant. -/
theorem inv_run {ctx : BitVec 32} {calls : List Op} (h : ∀ op ∈ calls, op.Tame)
    {ps : List Party} {s : State} (hrun : Run (Step cap db) (initial ctx calls) ps s) :
    Inv db (program calls) s := by
  refine hrun.invariant ?_ ?_
  · intro s p s' hinv hstep
    cases p with
    | client => exact inv_client (shape_program h) hinv hstep
    | server => exact inv_server (shape_program h) hinv hstep
  · exact Inv.start (encode32_length ctx.toNat) (Quiet.announce 0)

end Steps

/-! ## The answers -/

/-- The bytes of its request that the client has not written yet. -/
def ClientPc.unsent : ClientPc → List Byte
  | .sending _ todo => todo
  | _ => []

/-- The lookups return the answers to their names in order, the resolver takes the commands of the
client in order, and what it is about to take a command from is the beginning of a request. -/
structure State.InSync (db : Database) (calls : List Op) (s : State) : Prop where
  results : s.results <+: answers db calls
  executed : s.executed <+: (program calls).map Op.cmd
  boundary : s.server = .readCmd → s.req ≠ [] →
    ∃ op ∈ program calls, s.req ++ s.client.unsent = op.request
  complete : s.Final → s.results = answers db calls

theorem answers_program (db : Database) (calls : List Op) :
    answers db (program calls) = answers db calls := by
  simp [program, answers]

theorem answers_prefix {db : Database} {prog done ops : List Op} (h : prog = done ++ ops) :
    answers db done <+: answers db prog := by
  rw [h, answers, answers, List.filterMap_append]
  exact List.prefix_append _ _

theorem cmds_prefix {prog done ops : List Op} (h : prog = done ++ ops) :
    done.map Op.cmd <+: prog.map Op.cmd := by
  rw [h, List.map_append]
  exact List.prefix_append _ _

theorem sendPc_unsent (op : Op) (todo : List Byte) : (op.sendPc todo).unsent = todo := by
  cases todo with
  | cons b todo => rfl
  | nil => cases op <;> rfl

theorem Quiet.notGone {server : ServerPc} {sync : List Byte} {n m : Nat}
    (h : Quiet server sync n m) (s : State) (hs : s.server = server) : s.serverGone = false := by
  cases h <;> simp [State.serverGone, hs]

theorem Reads.executed {op : Op} {stream exec : List Byte} {server : ServerPc}
    (h : Reads op stream server exec) : exec <+: [op.cmd] := by
  cases h with
  | cmd => exact List.nil_prefix
  | len hop hs hgot => rw [hop]; exact List.prefix_rfl
  | name hop hs hgot => rw [hop]; exact List.prefix_rfl

theorem Reads.boundary {op : Op} {stream exec : List Byte} {server : ServerPc}
    (h : Reads op stream server exec) (hs : server = .readCmd) : stream = op.request := by
  cases h with
  | cmd => rfl
  | len hop hstr hgot => cases hs
  | name hop hstr hgot => cases hs

theorem inSync_of_inv {db : Database} {calls : List Op} {s : State}
    (h : Inv db (program calls) s) : s.InSync db calls := by
  have hans {done ops : List Op} (hprog : program calls = done ++ ops) :
      answers db done <+: answers db calls := answers_program db calls ▸ answers_prefix hprog
  have hstep {done ops : List Op} {op : Op} (hprog : program calls = done ++ op :: ops) :
      program calls = (done ++ [op]) ++ ops := by rw [hprog]; simp
  cases h with
  | start hctx hq =>
    exact ⟨by simp, by simp, by simp, fun hf => nomatch hf.1⟩
  | idle hprog hops hq =>
    refine ⟨hans hprog, cmds_prefix hprog, by simp, ?_⟩
    rintro ⟨-, hgone⟩
    rw [hq.notGone _ rfl] at hgone
    cases hgone
  | @request done ops op todo req exec server hprog hr =>
    refine ⟨hans hprog, ?_, ?_, ?_⟩
    · have hcmds := cmds_prefix (hstep hprog)
      rw [List.map_append] at hcmds
      exact ((List.prefix_append_right_inj _).2 hr.executed).trans hcmds
    · intro hcmd hreq
      refine ⟨op, by rw [hprog]; simp, ?_⟩
      rw [sendPc_unsent]
      exact hr.boundary hcmd
    · rintro ⟨-, hgone⟩
      rw [hr.notGone _ rfl] at hgone
      cases hgone
  | answering hprog ha =>
    refine ⟨hans hprog, cmds_prefix (hstep hprog), by simp, ?_⟩
    rintro ⟨-, hgone⟩
    cases ha <;> cases hgone
  | answered hprog ha hq =>
    refine ⟨hans hprog, cmds_prefix (hstep hprog), by simp, ?_⟩
    rintro ⟨-, hgone⟩
    rw [hq.notGone _ rfl] at hgone
    cases hgone
  | @exited done hprog =>
    have hall : answers db done = answers db calls := by
      rw [← answers_program db calls, hprog]
      simp [answers]
    exact ⟨hall ▸ List.prefix_rfl, List.prefix_rfl, by simp, fun _ => hall⟩

/-- **Lookups of names below the limit of the resolver stay in step.** -/
theorem lookups_in_sync {cap : Capacity} {db : Database} {ctx : BitVec 32} {calls : List Op}
    (htame : ∀ op ∈ calls, op.Tame) {ps : List Party} {s : State}
    (hrun : Run (Step cap db) (initial ctx calls) ps s) : s.InSync db calls :=
  inSync_of_inv (inv_run htame hrun)

/-- Buffers of a few bytes. -/
def smallCap : Capacity := ⟨8, 16, 8, by decide, by decide, by decide⟩

/-- A database with the one user `a`. -/
def oneUser : Database := fun style name =>
  if style = .pw ∧ name = [byte 'a'] then some 7#32 else none

/-- The two processes up to the token that announces the first call. -/
def setUp : List Party :=
  [.client, .server, .client, .client, .server, .server, .client, .server]

/-- A lookup of a name of one byte, and the exit. -/
def oneLookup : List Party :=
  setUp ++ Party.client :: (List.replicate 6 Party.client ++ List.replicate 8 Party.server ++
    [Party.client, Party.client, Party.server, Party.client, Party.client, Party.server])

theorem lookups_in_sync_one :
    ∃ s, runLabels (partyStep smallCap oneUser) oneLookup
        (initial 0 [getpwnam ⟨[byte 'a'], by decide⟩]) = some s ∧
      s.results = [some ⟨1#8, 7#32⟩] ∧ s.InSync oneUser [getpwnam ⟨[byte 'a'], by decide⟩] := by
  have hres : (runLabels (partyStep smallCap oneUser) oneLookup
      (initial 0 [getpwnam ⟨[byte 'a'], by decide⟩])).map State.results =
        some [some ⟨1#8, 7#32⟩] := by decide +kernel
  obtain ⟨s, hs, hres⟩ := Option.map_eq_some_iff.1 hres
  refine ⟨s, hs, hres, lookups_in_sync ?_ (run_of_runLabels hs)⟩
  intro op hop
  rw [List.mem_singleton.1 hop]
  show [byte 'a'].length < maxRqSize
  decide

/-- A name of 4096 letters. -/
def longName : Name := ⟨List.replicate 4096 (byte 'a'), by
  rw [List.mem_replicate]; rintro ⟨-, h⟩; exact absurd h (by decide)⟩

/-- The resolver rejects the length and takes the first letter of the name as a command. -/
def longLookup : List Party :=
  setUp ++ Party.client :: (List.replicate 6 Party.client ++ List.replicate 7 Party.server)

theorem long_name_becomes_command :
    ∃ s, Run (Step smallCap oneUser) (initial 0 [getpwnam longName]) longLookup s ∧
      s.executed = [byte '.', byte 'P', byte 'a'] ∧ ¬ s.InSync oneUser [getpwnam longName] := by
  have hexec : (runLabels (partyStep smallCap oneUser) longLookup
      (initial 0 [getpwnam longName])).map State.executed =
        some [byte '.', byte 'P', byte 'a'] := by decide +kernel
  obtain ⟨s, hs, hexec⟩ := Option.map_eq_some_iff.1 hexec
  refine ⟨s, run_of_runLabels hs, hexec, fun hsync => ?_⟩
  have hpre := hsync.executed
  rw [hexec] at hpre
  exact absurd hpre (by decide)

/-! ## The tokens -/

/-- At most one token is unread, a request waits for its token, the token waits for the end of the
command before it, and some process can move as long as one is left. -/
structure State.TokensInSync (cap : Capacity) (db : Database) (s : State) : Prop where
  unread : s.unreadTokens ≤ 1
  begun : s.begun ≤ s.taken
  taken : s.taken ≤ s.sent
  sent : s.sent ≤ s.handled + 1
  live : s.Final ∨ ¬ Stuck (Step cap db) s

theorem live_of_client {cap : Capacity} {db : Database} {s s' : State}
    (h : clientStep cap s = some s') : ¬ Stuck (Step cap db) s := fun hstuck =>
  hstuck .client s' h

theorem live_of_server {cap : Capacity} {db : Database} {s s' : State}
    (h : serverStep cap db s = some s') : ¬ Stuck (Step cap db) s := fun hstuck =>
  hstuck .server s' h

theorem Reads.stream_ne_nil {op : Op} {stream exec : List Byte} {server : ServerPc}
    (h : Reads op stream server exec) : stream ≠ [] := by
  rintro rfl
  generalize hstream : ([] : List Byte) = stream at h
  cases h with
  | cmd => exact request_ne_nil op hstream.symm
  | @len style name _ got hop hs hgot =>
    have hlen := congrArg List.length hs
    rw [← hstream, List.append_nil, List.length_append, encode32_length] at hlen
    omega
  | @name style name _ got hop hs hgot =>
    rw [← hstream, List.append_nil] at hs
    rw [hs] at hgot
    exact Nat.lt_irrefl _ hgot

/-- The resolver does not block on a request of which a byte has arrived. -/
theorem Reads.server_moves {cap : Capacity} {db : Database} {op : Op} {stream exec : List Byte}
    {server : ServerPc} (h : Reads op stream server exec) (s : State) (hs : s.server = server)
    (hreq : s.req ≠ []) : ¬ Stuck (Step cap db) s := by
  obtain ⟨b, req, hcons⟩ := List.exists_cons_of_ne_nil hreq
  have hmoves : (serverStep cap db s).isSome = true := by
    cases h with
    | cmd => simp [serverStep, hs, hcons]
    | len hop hstr hgot =>
      simp only [serverStep, hs, hcons]
      split <;> [split <;> [split; skip]; skip] <;> rfl
    | name hop hstr hgot =>
      simp only [serverStep, hs, hcons]
      split <;> rfl
  obtain ⟨s', hs'⟩ := Option.isSome_iff_exists.1 hmoves
  exact live_of_server hs'

theorem Quiet.sync_length {server : ServerPc} {sync : List Byte} {n m : Nat}
    (h : Quiet server sync n m) : sync.length ≤ 1 ∧ n ≤ m ∧ m ≤ n + 1 := by
  cases h with
  | announce => exact ⟨by simp, Nat.le_refl _, by omega⟩
  | ready => exact ⟨by simp, by omega, Nat.le_refl _⟩

theorem unreadTokens_le (s : State) : s.unreadTokens ≤ s.sync.length := by
  unfold State.unreadTokens
  split <;> omega

theorem tokensInSync_of_inv {cap : Capacity} {db : Database} {prog : List Op} {s : State}
    (h : Inv db prog s) : s.TokensInSync cap db := by
  cases h with
  | @start ctx sync server sent hctx hq =>
    obtain ⟨hsync, hn, hm⟩ := hq.sync_length
    refine ⟨?_, Nat.le_refl _, hn, hm, .inr ?_⟩
    · simp only [State.unreadTokens, List.length_append]
      omega
    · have hne : ctx ++ sync ≠ [] := by
        intro he
        have hlen := congrArg List.length he
        simp [hctx] at hlen
      have hlen : 4 ≤ (ctx ++ sync).length := by rw [List.length_append]; omega
      exact live_of_client (by simp only [clientStep, if_neg hne, if_pos hlen]; rfl)
  | @idle done ops sync server sent hprog hops hq =>
    obtain ⟨hsync, hn, hm⟩ := hq.sync_length
    refine ⟨(unreadTokens_le _).trans hsync, Nat.le_refl _, hn, hm, .inr ?_⟩
    cases hq with
    | announce =>
      exact live_of_server (by simp only [serverStep, List.length_nil, if_pos cap.sync_pos]; rfl)
    | ready =>
      obtain ⟨op, ops, rfl⟩ := List.exists_cons_of_ne_nil hops
      cases hread : op.readsToken with
      | true => exact live_of_client (by simp only [clientStep, hread, if_true]; rfl)
      | false => exact live_of_client (by simp [clientStep, hread]; rfl)
  | @request done ops op todo req exec server hprog hr =>
    refine ⟨(unreadTokens_le _).trans (Nat.zero_le 1), Nat.le_refl _, Nat.le_refl _,
      Nat.le_refl _, .inr ?_⟩
    -- either a byte of the request has arrived, or the client can write one
    cases req with
    | cons b req => exact hr.server_moves _ rfl (by simp)
    | nil =>
      obtain ⟨b, todo, rfl⟩ := List.exists_cons_of_ne_nil hr.stream_ne_nil
      have hgone := hr.notGone
      exact live_of_client (by
        simp only [clientStep, sendPc_cons, hgone, List.length_nil, if_pos cap.req_pos]; rfl)
  | answering hprog ha =>
    refine ⟨(unreadTokens_le _).trans (Nat.zero_le 1), Nat.le_refl _, Nat.le_refl _,
      Nat.le_refl _, .inr ?_⟩
    have hcap := cap.ans_pos
    cases ha with
    | ping =>
      exact live_of_server (by simp only [serverStep, List.length_nil]; rw [if_pos (by omega)])
    | code style name =>
      exact live_of_server (by simp only [serverStep, List.length_nil]; rw [if_pos (by omega)])
    | sent style name => exact live_of_client rfl
    | taken style name =>
      exact live_of_server (by simp only [serverStep, List.length_nil]; rw [if_pos (by omega)])
  | answered hprog ha hq =>
    obtain ⟨hsync, hn, hm⟩ := hq.sync_length
    refine ⟨(unreadTokens_le _).trans hsync, Nat.le_refl _, hn, hm, .inr ?_⟩
    cases ha with
    | ping => exact live_of_client rfl
    | code style name => exact live_of_client rfl
    | id style name => exact live_of_client rfl
  | exited hprog =>
    exact ⟨Nat.zero_le _, Nat.le_refl _, Nat.le_refl _, by rw [hprog]; simp, .inl ⟨rfl, rfl⟩⟩

/-- **Tokens and requests alternate** in a program of lookups below the limit of the resolver. -/
theorem tokens_in_sync {cap : Capacity} {db : Database} {ctx : BitVec 32} {calls : List Op}
    (htame : ∀ op ∈ calls, op.Tame) {ps : List Party} {s : State}
    (hrun : Run (Step cap db) (initial ctx calls) ps s) : s.TokensInSync cap db :=
  tokensInSync_of_inv (inv_run htame hrun)

theorem tokens_in_sync_one :
    ∃ s, runLabels (partyStep smallCap oneUser) oneLookup
        (initial 0 [getpwnam ⟨[byte 'a'], by decide⟩]) = some s ∧ s.taken = 3 ∧ s.TokensInSync smallCap oneUser := by
  have htaken : (runLabels (partyStep smallCap oneUser) oneLookup
      (initial 0 [getpwnam ⟨[byte 'a'], by decide⟩])).map State.taken = some 3 := by
    decide +kernel
  obtain ⟨s, hs, htaken⟩ := Option.map_eq_some_iff.1 htaken
  refine ⟨s, hs, htaken, tokens_in_sync ?_ (run_of_runLabels hs)⟩
  intro op hop
  rw [List.mem_singleton.1 hop]
  show [byte 'a'].length < maxRqSize
  decide

/-- `endpwent` writes its request while the token of the resolver stays in the pipe. -/
def oneClose : List Party :=
  setUp ++ [Party.client, Party.client, Party.client, Party.server, Party.server, Party.server]

theorem endpwent_takes_no_token :
    ∃ s, Run (Step smallCap oneUser) (initial 0 [endpwent]) oneClose s ∧
      s.unreadTokens = 2 ∧ s.taken = 1 ∧ s.begun = 2 ∧ ¬ s.TokensInSync smallCap oneUser := by
  have hcount : (runLabels (partyStep smallCap oneUser) oneClose (initial 0 [endpwent])).map
      (fun s => (s.unreadTokens, s.taken, s.begun)) = some (2, 1, 2) := by decide +kernel
  obtain ⟨s, hs, hcount⟩ := Option.map_eq_some_iff.1 hcount
  obtain ⟨hunread, htaken, hbegun⟩ : s.unreadTokens = 2 ∧ s.taken = 1 ∧ s.begun = 2 := by
    simpa using hcount
  refine ⟨s, run_of_runLabels hs, hunread, htaken, hbegun, fun hsync => ?_⟩
  have hle := hsync.unread
  omega

end RpmFake
