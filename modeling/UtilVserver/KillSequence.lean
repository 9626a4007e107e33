import Mathlib.Data.List.Forall2
import UtilVserver.Lib.Loops
import UtilVserver.NamespaceCleanup

/-!
# The kill sequence (`scripts/vserver.functions`)

The processes of a stopping vserver get signals with waits between them, as long as there are some.

* `sendKillSequence` — the loop, over the positional parameters of the function.
* `KillSeq` — a configured sequence `signal [wait signal]*`, with one value a line in its file.
* `blocks` — what has to happen for each of its signals.

Principal result: `sendKillSequence_kills`.
-/

set_option autoImplicit false

namespace KillSequence

open CString Loops NamespaceCleanup

/-- What the function does: `isCtxRunning` with its answer, a `sleep` of so many seconds, and
`killContext`, which signals the init process and then all processes of the context. -/
inductive Event where
  | check (running : Bool)
  | sleep (wait : Text)
  | kill (sig : Text)
  deriving DecidableEq

/-- The parameters behind the context, the variable `wait`, and what has been done. -/
structure State where
  params : List Text
  wait : Text
  trace : List Event

/-- `$1` and `$2`. -/
def State.param (st : State) (i : Nat) : Text := st.params.getD (i - 1) []

/-- `sig=${2:-9}` of `killContext`. -/
def killContext (sig : Text) : Event := .kill (if sig = [] then ['9'] else sig)

/-- The body of the loop.  What `isCtxRunning` says depends on what has been done before. -/
def sendKillSequence (isCtxRunning : List Event → Bool) (st : State) :
    Pass State (List Event) :=
  if isCtxRunning st.trace = false then .leave (st.trace ++ [Event.check false])
  else
    let waited := if st.wait = [] then [] else [Event.sleep st.wait]
    let trace := st.trace ++ (Event.check true :: (waited ++ [killContext (st.param 1)]))
    if st.param 2 = [] then .leave trace
    else .again ⟨st.params.drop 2, st.param 2, trace⟩

/-- A value of the sequence. -/
structure Value where
  text : Text
  nonempty : text ≠ []
  plain : Plain text
  line : '\n' ∉ text ∧ '\x00' ∉ text

/-- `signal [wait signal]*`. -/
structure KillSeq where
  first : Value
  rest : List (Value × Value)

/-- The values in their order. -/
def flat (rest : List (Value × Value)) : List Text := rest.flatMap fun r => [r.1.text, r.2.text]

def KillSeq.values (seq : KillSeq) : List Text := seq.first.text :: flat seq.rest

def KillSeq.signals (seq : KillSeq) : List Text := seq.first.text :: seq.rest.map (·.2.text)

/-- The content of `apps/init/killseq` with one value a line, and `k` line ends behind the last. -/
def KillSeq.content (seq : KillSeq) (k : Nat) : Text :=
  ['\n'].intercalate (seq.values ++ List.replicate k [])

/-- For each signal: the context is found running, then comes the wait, then the signal. -/
def block (wait : Text) (sig : Text) : List Event :=
  .check true :: ((if wait = [] then [] else [.sleep wait]) ++ [.kill sig])

def blocksFrom (wait sig : Text) (rest : List (Value × Value)) : List (List Event) :=
  block wait sig :: rest.map fun r => block r.1.text r.2.text

def blocks (seq : KillSeq) : List (List Event) := blocksFrom [] seq.first.text seq.rest

/-- The signals that are sent. -/
def signals (trace : List Event) : List Text :=
  trace.filterMap fun
    | .kill sig => some sig
    | _ => none

/-- Something holds of each element of a list, with what stands before it. -/
def Everywhere {α : Type} (P : List α → α → Prop) (l : List α) : Prop :=
  ∀ pre x post, l = pre ++ x :: post → P pre x

/-- The answers in a trace are those of the context. -/
def Answers (isCtxRunning : List Event → Bool) : List Event → Prop :=
  Everywhere fun pre e => ∀ b, e = .check b → isCtxRunning pre = b

/-- Directly before each signal the context has been found running. -/
def CheckedDirectly : List Event → Prop :=
  Everywhere fun pre e => ∀ sig, e = .kill sig → ∃ pre', pre = pre' ++ [.check true]

/-- Directly before each signal, or the wait that precedes it, the context has been found
running. -/
def CheckedBefore : List Event → Prop :=
  Everywhere fun pre e => ∀ sig, e = .kill sig →
    ∃ pre', pre = pre' ++ [Event.check true] ∨
      ∃ wait, pre = pre' ++ [Event.check true, Event.sleep wait]

/-! ## The file -/

theorem mem_values {seq : KillSeq} {l : Text} (h : l ∈ seq.values) : ∃ v : Value, v.text = l := by
  rcases List.mem_cons.1 h with rfl | h
  · exact ⟨seq.first, rfl⟩
  · obtain ⟨r, -, hr⟩ := List.mem_flatMap.1 h
    simp only [List.mem_cons, List.not_mem_nil, or_false] at hr
    rcases hr with rfl | rfl
    · exact ⟨r.1, rfl⟩
    · exact ⟨r.2, rfl⟩

theorem not_mem_intercalate {x y : Char} (hxy : x ≠ y) :
    ∀ {ls : List Text}, (∀ l ∈ ls, x ∉ l) → x ∉ [y].intercalate ls
  | [], _ => by simp
  | [l], h => by simpa using h l List.mem_cons_self
  | l :: l' :: ls, h => by
    have ih := not_mem_intercalate hxy fun m hm => h m (List.mem_cons_of_mem l hm)
    rw [List.intercalate_cons_cons]
    simp only [List.mem_append, List.mem_singleton, not_or]
    exact ⟨⟨h l List.mem_cons_self, hxy⟩, ih⟩

theorem skipLines_content (seq : KillSeq) (k : Nat) : skipLines (seq.content k) = seq.values := by
  have hline : ∀ l ∈ seq.values ++ List.replicate k [], '\n' ∉ l ∧ '\x00' ∉ l := by
    intro l hl
    rcases List.mem_append.1 hl with hl | hl
    · obtain ⟨v, rfl⟩ := mem_values hl
      exact v.line
    · rw [List.eq_of_mem_replicate hl]
      simp
  have hnul : (seq.content k).filter (· ≠ '\x00') = seq.content k := by
    rw [List.filter_eq_self]
    intro c hc
    have : '\x00' ∉ seq.content k := not_mem_intercalate (by decide) fun l hl => (hline l hl).2
    exact decide_eq_true fun h => this (h ▸ hc)
  have hvalues : seq.values.filter (· ≠ []) = seq.values := by
    rw [List.filter_eq_self]
    intro l hl
    obtain ⟨v, rfl⟩ := mem_values hl
    exact decide_eq_true v.nonempty
  have hends : (List.replicate k ([] : Text)).filter (· ≠ []) = [] := by
    rw [List.filter_eq_nil_iff]
    intro l hl
    rw [List.eq_of_mem_replicate hl]
    simp
  rw [skipLines, hnul, KillSeq.content,
    List.splitOn_intercalate _ (fun l hl => (hline l hl).1) (by simp [KillSeq.values]),
    List.filter_append, hvalues, hends, List.append_nil]

theorem getFileArray_content (sh : Shell) (seq : KillSeq) (k : Nat) :
    getFileArray sh (seq.content k) = seq.values := by
  rw [getFileArray_plain, skipLines_content]
  intro l hl
  rw [skipLines_content] at hl
  obtain ⟨v, rfl⟩ := mem_values hl
  exact v.plain

/-! ## The trace -/

theorem everywhere_nil {α : Type} (P : List α → α → Prop) : Everywhere P [] := by
  intro pre x post h
  simp at h

/-- What holds everywhere in a list holds in its front part and at its last element. -/
theorem everywhere_concat {α : Type} {P : List α → α → Prop} {l : List α} {x : α} :
    Everywhere P (l ++ [x]) ↔ Everywhere P l ∧ P l x := by
  constructor
  · intro h
    refine ⟨fun pre y post heq => h pre y (post ++ [x]) ?_, h l x [] rfl⟩
    rw [heq, List.append_assoc, List.cons_append]
  · rintro ⟨h, hx⟩ pre y post heq
    rcases List.eq_nil_or_concat post with rfl | ⟨post, z, rfl⟩
    · obtain ⟨rfl, hxy⟩ := List.append_inj' heq rfl
      rw [← List.singleton_inj.1 hxy]
      exact hx
    · rw [List.concat_eq_append, ← List.cons_append, ← List.append_assoc] at heq
      exact h pre y post (List.append_inj' heq rfl).1

theorem killContext_value (v : Value) : killContext v.text = .kill v.text := by
  rw [killContext, if_neg v.nonempty]

/-- **One pass through the loop**: the context has been found running, and the block of the signal
is done. -/
theorem sendKillSequence_running {run : List Event → Bool} {sig : Value} {wait : Text}
    {rest : List (Value × Value)} {trace : List Event} (h : run trace = true) :
    sendKillSequence run ⟨sig.text :: flat rest, wait, trace⟩ =
      match rest with
      | [] => .leave (trace ++ block wait sig.text)
      | r :: rest =>
        .again ⟨r.2.text :: flat rest, r.1.text, trace ++ block wait sig.text⟩ := by
  have hkill : killContext (State.param ⟨sig.text :: flat rest, wait, trace⟩ 1) =
      .kill sig.text := killContext_value sig
  rw [sendKillSequence, if_neg (by rw [h]; decide), hkill]
  cases rest with
  | nil => rfl
  | cons r rest => exact if_neg r.1.nonempty

theorem sendKillSequence_stopped {run : List Event → Bool} {params : List Text} {wait : Text}
    {trace : List Event} (h : run trace = false) :
    sendKillSequence run ⟨params, wait, trace⟩ = .leave (trace ++ [.check false]) := by
  rw [sendKillSequence, if_pos h]

/-- The blocks of the first `k` signals, and the check that ends the loop before the next. -/
def traceOf (blocks : List (List Event)) (k : Nat) : List Event :=
  (blocks.take k).flatten ++ if k < blocks.length then [.check false] else []

/-- **The loop does the blocks of its signals**, as many as the context lives for. -/
theorem sendKillSequence_leaves (run : List Event → Bool) (rest : List (Value × Value))
    (sig : Value) (wait : Text) (trace : List Event) :
    ∃ k ≤ rest.length + 1,
      Leaves (sendKillSequence run) ⟨sig.text :: flat rest, wait, trace⟩
        (trace ++ traceOf (blocksFrom wait sig.text rest) k) ∧
      ((∀ t, run t = true) → k = rest.length + 1) := by
  induction rest generalizing sig wait trace with
  | nil =>
    cases h : run trace with
    | false =>
      refine ⟨0, by omega, leaves_of_leave (sendKillSequence_stopped h), fun hall => ?_⟩
      rw [hall] at h
      cases h
    | true =>
      refine ⟨1, by omega, leaves_of_leave ?_, fun _ => rfl⟩
      rw [sendKillSequence_running h]
      simp [traceOf, blocksFrom]
  | cons r rest ih =>
    cases h : run trace with
    | false =>
      refine ⟨0, by omega, leaves_of_leave (sendKillSequence_stopped h), fun hall => ?_⟩
      rw [hall] at h
      cases h
    | true =>
      obtain ⟨k, hk, hleaves, hall⟩ := ih r.2 r.1.text (trace ++ block wait sig.text)
      refine ⟨k + 1, by simp only [List.length_cons]; omega, ?_, fun h => by rw [hall h]; rfl⟩
      rw [leaves_again_iff (sendKillSequence_running h)]
      have hcut : traceOf (blocksFrom wait sig.text (r :: rest)) (k + 1) =
          block wait sig.text ++ traceOf (blocksFrom r.1.text r.2.text rest) k := by
        simp [traceOf, blocksFrom]
      rw [hcut, ← List.append_assoc]
      exact hleaves

/-- What the trace of a run fulfils, fulfilled by each trace on the way. -/
theorem sendKillSequence_checked (run : List Event → Bool) {st : State} {r : List Event}
    (h : Leaves (sendKillSequence run) st r) (h0 : st.trace = []) :
    CheckedBefore r ∧ Answers run r := by
  have hstep : ∀ trace : List Event, CheckedBefore trace ∧ Answers run trace → run trace = true →
      ∀ wait sig : Text,
        CheckedBefore (trace ++ (Event.check true :: ((if wait = [] then [] else [Event.sleep wait]) ++
            [killContext sig]))) ∧
          Answers run (trace ++ (Event.check true :: ((if wait = [] then [] else [Event.sleep wait]) ++
            [killContext sig]))) := by
    rintro trace ⟨hchecked, hanswers⟩ hrun wait sig
    have hc : CheckedBefore (trace ++ [Event.check true]) :=
      everywhere_concat.2 ⟨hchecked, fun _ h => by cases h⟩
    have ha : Answers run (trace ++ [Event.check true]) :=
      everywhere_concat.2 ⟨hanswers, fun b h => by cases h; exact hrun⟩
    by_cases hw : wait = []
    · rw [if_pos hw]
      have hsplit : trace ++ (Event.check true :: ([] ++ [killContext sig])) =
          (trace ++ [Event.check true]) ++ [killContext sig] := by simp
      rw [hsplit]
      exact ⟨everywhere_concat.2 ⟨hc, fun _ _ => ⟨trace, Or.inl rfl⟩⟩,
        everywhere_concat.2 ⟨ha, fun b h => by cases h⟩⟩
    · rw [if_neg hw]
      have hsplit : trace ++ (Event.check true :: ([Event.sleep wait] ++ [killContext sig])) =
          ((trace ++ [Event.check true]) ++ [Event.sleep wait]) ++ [killContext sig] := by simp
      rw [hsplit]
      refine ⟨everywhere_concat.2 ⟨everywhere_concat.2 ⟨hc, fun _ h => by cases h⟩, fun _ _ => ?_⟩,
        everywhere_concat.2 ⟨everywhere_concat.2 ⟨ha, fun _ h => by cases h⟩,
          fun b h => by cases h⟩⟩
      exact ⟨trace, Or.inr ⟨wait, by simp⟩⟩
  have hpass : ∀ st : State, run st.trace = false ∨ run st.trace = true := fun st => by
    cases run st.trace <;> simp
  refine h.invariant (I := fun st => CheckedBefore st.trace ∧ Answers run st.trace)
    (Q := fun r => CheckedBefore r ∧ Answers run r) ?_ ?_ ?_
  · intro st st' hI hst
    rcases hpass st with hrun | hrun
    · rw [sendKillSequence, if_pos hrun] at hst
      cases hst
    · rw [sendKillSequence, if_neg (by rw [hrun]; decide)] at hst
      dsimp only at hst
      split at hst
      · cases hst
      · cases hst
        exact hstep _ hI hrun _ _
  · intro st r hI hst
    rcases hpass st with hrun | hrun
    · rw [sendKillSequence, if_pos hrun] at hst
      cases hst
      exact ⟨everywhere_concat.2 ⟨hI.1, fun _ h => by cases h⟩,
        everywhere_concat.2 ⟨hI.2, fun b h => by cases h; exact hrun⟩⟩
    · rw [sendKillSequence, if_neg (by rw [hrun]; decide)] at hst
      dsimp only at hst
      split at hst
      · cases hst
        exact hstep _ hI hrun _ _
      · cases hst
  · rw [h0]
    exact ⟨everywhere_nil _, everywhere_nil _⟩

/-! ## The signals -/

theorem signals_append (t u : List Event) : signals (t ++ u) = signals t ++ signals u :=
  List.filterMap_append

theorem signals_block (wait sig : Text) : signals (block wait sig) = [sig] := by
  unfold block
  split <;> rfl

theorem signals_traceOf {bs : List (List Event)} {sigs : List Text}
    (h : List.Forall₂ (fun b s => signals b = [s]) bs sigs) (k : Nat) :
    signals (traceOf bs k) = sigs.take k := by
  have hflat : signals (bs.take k).flatten = sigs.take k := by
    induction h generalizing k with
    | nil => simp [signals]
    | cons hb _ ih =>
      cases k with
      | zero => rfl
      | succ k =>
        rw [List.take_succ_cons, List.flatten_cons, signals_append, hb, ih k]
        rfl
  rw [traceOf, signals_append, hflat]
  split <;> simp [signals]

theorem signals_blocks (seq : KillSeq) :
    List.Forall₂ (fun b s => signals b = [s]) (blocks seq) seq.signals := by
  refine List.Forall₂.cons (signals_block _ _) ?_
  rw [List.forall₂_map_left_iff, List.forall₂_map_right_iff]
  exact List.forall₂_same.2 fun r _ => signals_block _ _

/-- **The kill sequence**: whenever the context ends, the loop ends too.  It has sent the first
signals of the configured sequence, each after its wait, and all of them when the context never
stops; the context was running before each signal or the wait that precedes it. -/
theorem sendKillSequence_kills (sh : Shell) (seq : KillSeq) (ends : Nat)
    (isCtxRunning : List Event → Bool) :
    ∃ k ≤ seq.signals.length, ∃ trace,
      Leaves (sendKillSequence isCtxRunning) ⟨getFileArray sh (seq.content ends), [], []⟩ trace ∧
      trace = traceOf (blocks seq) k ∧
      signals trace = seq.signals.take k ∧
      CheckedBefore trace ∧ Answers isCtxRunning trace ∧
      ((∀ t, isCtxRunning t = true) → k = seq.signals.length) := by
  obtain ⟨k, hk, hleaves, hall⟩ :=
    sendKillSequence_leaves isCtxRunning seq.rest seq.first [] []
  have hlength : seq.signals.length = seq.rest.length + 1 := by simp [KillSeq.signals]
  have hchecked := sendKillSequence_checked isCtxRunning hleaves rfl
  rw [getFileArray_content, hlength]
  exact ⟨k, hk, _, hleaves, rfl, signals_traceOf (signals_blocks seq) k, hchecked.1, hchecked.2,
    hall⟩

/-- `INITKILL_SEQ=( 15 5 9 )`, what is used without a configuration. -/
def INITKILL_SEQ : KillSeq where
  first := ⟨['1', '5'], by decide, by decide, by decide⟩
  rest := [(⟨['5'], by decide, by decide, by decide⟩,
    ⟨['9'], by decide, by decide, by decide⟩)]

/-- The signal 9 is sent directly after the wait, not after a check; and written on one line the
sequence is one word, which is sent as the name of a signal. -/
theorem sendKillSequence_unchecked :
    (∃ trace,
      Leaves (sendKillSequence fun _ => true)
        ⟨getFileArray literalShell (INITKILL_SEQ.content 1), [], []⟩ trace ∧
      ¬ CheckedDirectly trace) ∧
    ∃ trace,
      Leaves (sendKillSequence fun _ => true)
        ⟨getFileArray literalShell ['1', '5', ' ', '5', ' ', '9', '\n'], [], []⟩ trace ∧
      signals trace = [['1', '5', ' ', '5', ' ', '9']] := by
  constructor
  · refine ⟨[.check true, .kill ['1', '5'], .check true, .sleep ['5'], .kill ['9']],
      ⟨2, ?_⟩, fun h => ?_⟩
    · rw [getFileArray_content]
      rfl
    · obtain ⟨pre, hpre⟩ := h [.check true, .kill ['1', '5'], .check true, .sleep ['5']]
        (.kill ['9']) [] rfl ['9'] rfl
      have hlast := congrArg List.getLast? hpre
      rw [List.getLast?_concat] at hlast
      cases hlast
  · have hword : getFileArray literalShell ['1', '5', ' ', '5', ' ', '9', '\n'] =
        [['1', '5', ' ', '5', ' ', '9']] := by decide +kernel
    rw [hword]
    exact ⟨[.check true, .kill ['1', '5', ' ', '5', ' ', '9']], ⟨1, rfl⟩, rfl⟩

end KillSequence
