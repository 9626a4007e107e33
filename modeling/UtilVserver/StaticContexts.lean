import UtilVserver.Lib.Transition
import UtilVserver.Lib.DecimalText
import Mathlib.Logic.Function.Basic

/-!
# The static contexts of `vserver … build`

A build takes its context from `--context` or from `.defaults/context.next`, which it reads and
rewrites in separate steps; it writes the context into the configuration of the new vserver.  Any
number of builds run at a time.

* `number`, `exprPlusOne` — what `expr` makes of the text of a context.
* `Phase`, `Build`, `State` — how far a build has come; the files that builds share.
* `advance`, `next` — the next command of a build.
* `UniqueContexts`, `WritesRight` — what is expected of the contexts.
* `Allowed` — the condition: builds use the counter one after the other, and what `--context` asks
  for is free and not among the contexts that the counter will give.

Principal results: `contexts_unique` and, without the condition, `contexts_clash`.
-/

set_option autoImplicit false

namespace StaticContexts

open CString Transition

/-! ## Texts -/

/-- `` `cat <file>` ``: the shell drops NUL characters and the newlines at the end. -/
def substitution (content : Text) : Text :=
  ((content.filter (· != '\x00')).reverse.dropWhile (· == '\n')).reverse

/-- The text is an integer for `expr`. -/
def number : Text → Option Int
  | '-' :: ds => if Numeral ds then some (-(digitsVal 10 ds : Int)) else none
  | ds => if Numeral ds then some (digitsVal 10 ds) else none

/-- An integer as `expr` prints it. -/
def decimal : Int → Text
  | .ofNat n => Nat.toDigits 10 n
  | .negSucc n => '-' :: Nat.toDigits 10 (n + 1)

/-- What does not change during builds. -/
structure Host where
  /-- `.defaults/context.dynamic` exists. -/
  dynamic : Bool
  /-- The output of `expr <text> + 1` for other texts than integers, and whether it succeeds. -/
  expr : Text → Text × Bool

/-- `expr "$SETUP_CONTEXT" + 1`; the status for a sum of 0 is that of a failure. -/
def exprPlusOne (h : Host) (ctx : Text) : Text × Bool :=
  match number ctx with
  | some z => (decimal (z + 1) ++ ['\n'], z + 1 != 0)
  | none => h.expr ctx

/-- `$__PKGLIBDEFAULTDIR/context.start`. -/
def contextStart : Text := ['4', '0', '0', '0', '0', '\n']

/-- `out` is written to the start of a file. -/
def writeAtStart (out content : Text) : Text := out ++ content.drop out.length

/-! ## Builds -/

inductive Phase where
  /-- In front of `base.init`. -/
  | init
  /-- In front of `base.initFilesystem`. -/
  | initFilesystem
  /-- In front of `setup_writeOption`. -/
  | writeOption
  /-- In front of `_setup_generateContext`. -/
  | generateContext
  /-- In front of `test -e "$__CONFDIR/.defaults/context.next"`. -/
  | testNext
  | catNext
  | catStart
  /-- `SETUP_CONTEXT` is read; the redirection of `expr` opens `context.next`. -/
  | redirect (ctx : Text)
  | expr (ctx : Text)
  /-- In front of `_setup_writeSingleOption "$SETUP_CONTEXT" "$cfgdir"/context`. -/
  | writeContext (ctx : Text)
  | finish
  | exited

variable {Conf : Type*}

/-- One run of `vserver-build`. -/
structure Build (Conf : Type*) where
  /-- `SETUP_CONFDIR`. -/
  confdir : Conf
  /-- `--context`, or empty. -/
  context : Text
  /-- `--force`. -/
  force : Bool
  /-- `--keep`. -/
  keep : Bool
  phase : Phase

structure State (Conf : Type*) where
  /-- `.defaults/context.next`, when it exists. -/
  next : Option Text
  /-- The configurations that exist, with their `context` files. -/
  confs : Conf → Option (Option Text)
  builds : Nat → Option (Build Conf)

def State.goto (s : State Conf) (p : Nat) (b : Build Conf) (phase : Phase) : State Conf :=
  { s with builds := Function.update s.builds p (some { b with phase := phase }) }

/-- `_renameVserverCfg`: `mv` puts the configuration into `backup` when that exists. -/
def renameCfg [DecidableEq Conf] (confs : Conf → Option (Option Text))
    (confdir backup : Conf) : Conf → Option (Option Text) :=
  let rest := Function.update confs confdir none
  if confs backup = none then Function.update rest backup (confs confdir) else rest

/-- `base._addGeneratedFile "$SETUP_CONFDIR"` has been called. -/
def Phase.generated : Phase → Bool
  | .init => false
  | .initFilesystem => false
  | .exited => false
  | _ => true

/-- The build exits, and `base.__cleanup` removes the generated files. -/
def State.abort [DecidableEq Conf] (s : State Conf) (p : Nat) (b : Build Conf) : State Conf :=
  if b.phase.generated = true ∧ b.keep = false then
    { s with confs := Function.update s.confs b.confdir none }.goto p b .exited
  else s.goto p b .exited

/-- The next command of a build.  `running` is the answer of `vserver-info`, `backup` the name for
a configuration that is in the way. -/
def advance [DecidableEq Conf] (h : Host) (s : State Conf) (p : Nat) (b : Build Conf)
    (running : Bool) (backup : Conf) : Option (State Conf) :=
  match b.phase with
  | .init =>
    -- "Context … is already in use. Please select another one."
    if b.context ≠ [] ∧ running = true then some (s.abort p b)
    else some (s.goto p b .initFilesystem)
  | .initFilesystem =>
    let confs := if b.force then renameCfg s.confs b.confdir backup else s.confs
    if confs b.confdir = none then
      some ({ s with confs := Function.update confs b.confdir (some none) }.goto p b .writeOption)
    else some ({ s with confs := confs }.abort p b)
  | .writeOption =>
    let conf := (s.confs b.confdir).getD none
    some ({ s with confs := Function.update s.confs b.confdir (some conf) }.goto p b
      .generateContext)
  | .generateContext =>
    if b.context = [] ∧ h.dynamic = false then some (s.goto p b .testNext)
    else some (s.goto p b (.writeContext b.context))
  | .testNext => some (s.goto p b (if s.next.isSome then .catNext else .catStart))
  | .catNext => some (s.goto p b (.redirect (substitution (s.next.getD []))))
  | .catStart => some (s.goto p b (.redirect (substitution contextStart)))
  | .redirect ctx => some ({ s with next := some [] }.goto p b (.expr ctx))
  | .expr ctx =>
    let r := exprPlusOne h ctx
    let s := { s with next := s.next.map (writeAtStart r.1) }
    if r.2 then some (s.goto p b (.writeContext ctx)) else some (s.abort p b)
  | .writeContext ctx =>
    if ctx = [] then some (s.goto p b .finish)
    else if s.confs b.confdir = none then some (s.abort p b)
    else
      some ({ s with confs := Function.update s.confs b.confdir (some (some ctx)) }.goto p b
        .finish)
  | .finish => some (s.goto p b .exited)
  | .exited => none

inductive Act (Conf : Type*) where
  /-- `vserver … build` with these options. -/
  | start (confdir : Conf) (context : Text) (force keep : Bool)
  | advance (running : Bool) (backup : Conf)
  /-- A command of the build fails, or the build is killed. -/
  | fail

/-- One step of build `p`. -/
def next [DecidableEq Conf] (h : Host) (s : State Conf) : Nat × Act Conf → Option (State Conf)
  | (p, .start confdir context force keep) =>
    match s.builds p with
    | none => some (s.goto p ⟨confdir, context, force, keep, .init⟩ .init)
    | some _ => none
  | (p, .advance running backup) => (s.builds p).bind fun b => advance h s p b running backup
  | (p, .fail) => (s.builds p).map fun b => s.abort p b

def Step [DecidableEq Conf] (h : Host) (s : State Conf) (l : Nat × Act Conf)
    (s' : State Conf) : Prop :=
  next h s l = some s'

/-! ## Contexts -/

/-- Vserver `c` is configured with the static context `v`. -/
def Configured (s : State Conf) (c : Conf) (v : Int) : Prop :=
  ∃ t, s.confs c = some (some t) ∧ number t = some v

/-- The configured vservers have distinct static contexts. -/
def UniqueContexts (s : State Conf) : Prop :=
  ∀ c c' v, Configured s c v → Configured s c' v → c = c'

/-- Valid contexts; the range is that of the documentation. -/
def InRange (v : Int) : Prop := 2 ≤ v ∧ v ≤ 49151

/-- A context that is about to be written is valid, and no other vserver has it. -/
def WritesRight (s : State Conf) : Prop :=
  ∀ p b t, s.builds p = some b → b.phase = .writeContext t → t ≠ [] →
    ∃ v, number t = some v ∧ InRange v ∧ ∀ c, c ≠ b.confdir → ¬ Configured s c v

/-! ## The condition -/

/-- What a build reads from the counter file. -/
def counterText (s : State Conf) : Text := substitution (s.next.getD contextStart)

/-- A build reads and rewrites the counter file. -/
def Phase.counts : Phase → Bool
  | .testNext => true
  | .catNext => true
  | .catStart => true
  | .redirect _ => true
  | .expr _ => true
  | _ => false

/-- The next context of the counter: that in the file, or while `expr` rewrites the file the one
that was read. -/
def Next (s : State Conf) (n : Int) : Prop :=
  number (counterText s) = some n ∨
    ∃ p b ctx, s.builds p = some b ∧ b.phase = .expr ctx ∧ number ctx = some n

/-- The contexts that the counter will give, up to a limit. -/
def Reserved (limit : Int) (s : State Conf) (v : Int) : Prop :=
  v < limit ∧ ∃ n, Next s n ∧ n ≤ v

/-- The context that a build has and not yet written: that of its command line behind the check of
`base.init`, or one from the counter that has been rewritten. -/
def Build.pending (b : Build Conf) : Option Text :=
  match b.phase with
  | .initFilesystem => if b.context = [] then none else some b.context
  | .writeOption => if b.context = [] then none else some b.context
  | .generateContext => if b.context = [] then none else some b.context
  | .writeContext ctx => if ctx = [] then none else some ctx
  | _ => none

/-- No vserver is configured with a context, and no build other than `p` is about to. -/
def Vacant (s : State Conf) (p : Nat) (v : Int) : Prop :=
  (∀ c, ¬ Configured s c v) ∧
    ∀ p' b t, p' ≠ p → s.builds p' = some b → b.pending = some t → number t ≠ some v

/-- A context that `--context` may ask for. -/
def Requestable (limit : Int) (s : State Conf) (p : Nat) (t : Text) : Prop :=
  ∃ v, number t = some v ∧ InRange v ∧ Vacant s p v ∧ ¬ Reserved limit s v

/-- The counter may be used: nobody else does, and it stands below the limit, or at a text that
`expr` refuses. -/
def Countable (h : Host) (limit : Int) (s : State Conf) : Prop :=
  (∀ p b, s.builds p = some b → b.phase.counts = false) ∧
    ((∃ n, number (counterText s) = some n ∧ n < limit) ∨
      number (counterText s) = none ∧ h.expr (counterText s) = ([], false))

/-- The condition on a step, as `base.init` lets a build with `--context` pass and as a build without
it comes to the counter. -/
def Allowed (h : Host) (limit : Int) (s : State Conf) : Nat × Act Conf → Prop
  | (p, .advance running _) => ∀ b, s.builds p = some b →
      (b.phase = .init → b.context ≠ [] → running = false → Requestable limit s p b.context) ∧
      (b.phase = .generateContext → b.context = [] → h.dynamic = false → Countable h limit s)
  | _ => True

/-- The counter of the first state is above 1, and no vserver has a context that it will give. -/
def Ahead (limit : Int) (s : State Conf) : Prop :=
  ∀ n, number (counterText s) = some n →
    2 ≤ n ∧ ∀ c v, Configured s c v → ¬ (n ≤ v ∧ v < limit)

def AllowedStep [DecidableEq Conf] (h : Host) (limit : Int) (s : State Conf) (l : Nat × Act Conf)
    (s' : State Conf) : Prop :=
  Step h s l s' ∧ Allowed h limit s l

/-! ## Steps -/

@[simp]
theorem goto_confs (s : State Conf) (p : Nat) (b : Build Conf) (phase : Phase) :
    (s.goto p b phase).confs = s.confs := rfl

@[simp]
theorem goto_builds (s : State Conf) (p : Nat) (b : Build Conf) (phase : Phase) :
    (s.goto p b phase).builds =
      Function.update s.builds p (some { b with phase := phase }) := rfl

/-- The entry of an updated table. -/
theorem update_eq_some {b b' : Build Conf} {builds : Nat → Option (Build Conf)} {p q : Nat}
    (h : Function.update builds p (some b) q = some b') :
    (q = p ∧ b' = b) ∨ (q ≠ p ∧ builds q = some b') := by
  by_cases hqp : q = p
  · subst hqp
    rw [Function.update_self] at h
    exact .inl ⟨rfl, (Option.some.inj h).symm⟩
  · rw [Function.update_of_ne hqp] at h
    exact .inr ⟨hqp, h⟩

/-- The configurations of `s'` are among those of `s`, possibly under other names. -/
def KeepsConfs (s s' : State Conf) : Prop :=
  ∃ f : Conf → Conf, (∀ c v, Configured s' c v → Configured s (f c) v) ∧
    ∀ c c' v, Configured s' c v → Configured s' c' v → f c = f c' → c = c'

theorem KeepsConfs.of_sub {s s' : State Conf}
    (h : ∀ c t, s'.confs c = some (some t) → s.confs c = some (some t)) : KeepsConfs s s' :=
  ⟨id, fun c _ ⟨t, ht, hv⟩ => ⟨t, h c t ht, hv⟩, fun _ _ _ _ _ hf => hf⟩

theorem KeepsConfs.of_eq {s s' : State Conf} (h : s'.confs = s.confs) : KeepsConfs s s' :=
  KeepsConfs.of_sub fun c t ht => by rwa [h] at ht

theorem KeepsConfs.trans {s s' s'' : State Conf} (h : KeepsConfs s s') (h' : KeepsConfs s' s'') :
    KeepsConfs s s'' := by
  obtain ⟨f, hf, hinj⟩ := h
  obtain ⟨f', hf', hinj'⟩ := h'
  refine ⟨f ∘ f', fun c v hc => hf _ v (hf' c v hc), fun c c' v hc hc' heq => ?_⟩
  exact hinj' c c' v hc hc' (hinj _ _ v (hf' c v hc) (hf' c' v hc') heq)

variable [DecidableEq Conf]

/-- The vserver that a configuration belonged to before `_renameVserverCfg`. -/
def origin (confs : Conf → Option (Option Text)) (confdir backup c : Conf) : Conf :=
  if c = backup ∧ confs backup = none then confdir else c

theorem renameCfg_confdir (confs : Conf → Option (Option Text)) (confdir backup : Conf) :
    renameCfg confs confdir backup confdir = none := by
  unfold renameCfg
  by_cases hb : confs backup = none
  · rw [if_pos hb]
    by_cases hc : confdir = backup
    · subst hc
      rw [Function.update_self, hb]
    · rw [Function.update_of_ne hc, Function.update_self]
  · rw [if_neg hb, Function.update_self]

theorem renameCfg_some {confs : Conf → Option (Option Text)} {confdir backup c : Conf}
    {x : Option Text} (h : renameCfg confs confdir backup c = some x) :
    confs (origin confs confdir backup c) = some x := by
  have hne : c ≠ confdir := by
    rintro rfl
    rw [renameCfg_confdir] at h
    cases h
  unfold renameCfg at h
  unfold origin
  by_cases hb : confs backup = none
  · rw [if_pos hb] at h
    by_cases hc : c = backup
    · subst hc
      rwa [if_pos ⟨rfl, hb⟩, Function.update_self] at *
    · rw [Function.update_of_ne hc, Function.update_of_ne hne] at h
      rwa [if_neg fun hcb => hc hcb.1]
  · rw [if_neg hb, Function.update_of_ne hne] at h
    rwa [if_neg fun hcb => hb hcb.2]

theorem origin_inj {confs : Conf → Option (Option Text)} {confdir backup c c' : Conf}
    (hc : c ≠ confdir) (hc' : c' ≠ confdir)
    (h : origin confs confdir backup c = origin confs confdir backup c') : c = c' := by
  unfold origin at h
  split at h <;> split at h
  · rename_i h1 h2
    rw [h1.1, h2.1]
  · exact absurd h.symm hc'
  · exact absurd h hc
  · exact h

theorem keepsConfs_rename (s : State Conf) (confdir backup : Conf) :
    KeepsConfs s { s with confs := renameCfg s.confs confdir backup } := by
  have hne : ∀ c v, Configured { s with confs := renameCfg s.confs confdir backup } c v →
      c ≠ confdir := by
    rintro c v ⟨t, ht, -⟩ rfl
    simp only [renameCfg_confdir] at ht
    cases ht
  refine ⟨origin s.confs confdir backup, ?_, ?_⟩
  · rintro c v ⟨t, ht, hv⟩
    exact ⟨t, renameCfg_some ht, hv⟩
  · intro c c' v hc hc' hf
    exact origin_inj (hne c v hc) (hne c' v hc') hf

/-- A configuration is removed, or made without a context. -/
theorem keepsConfs_update (s : State Conf) (confdir : Conf) (x : Option (Option Text))
    (hx : ∀ t, x = some (some t) → s.confs confdir = some (some t)) :
    KeepsConfs s { s with confs := Function.update s.confs confdir x } := by
  refine KeepsConfs.of_sub fun c t ht => ?_
  by_cases hc : c = confdir
  · subst hc
    simp only [Function.update_self] at ht
    exact hx t ht
  · simpa only [Function.update_of_ne hc] using ht

/-! ## The counter file -/

theorem number_decimal (n : Nat) : number (decimal n) = some (n : Int) := by
  obtain ⟨hne, hall⟩ := DecimalText.numeral_decimal n
  have hval := DecimalText.digitsVal_decimal n
  unfold DecimalText.decimal at hne hall hval
  have hminus : '-' ∉ Nat.toDigits 10 n := not_mem_of_digits hall (by decide)
  change number (Nat.toDigits 10 n) = _
  generalize Nat.toDigits 10 n = ds at *
  unfold number
  split
  · exact absurd List.mem_cons_self hminus
  · rw [if_pos ⟨hne, hall⟩, hval]

/-- The newline at the end is no part of what is read. -/
theorem substitution_decimal (n : Nat) :
    substitution (decimal n ++ ['\n']) = decimal n := by
  obtain ⟨hne, hall⟩ := DecimalText.numeral_decimal n
  change substitution (Nat.toDigits 10 n ++ ['\n']) = Nat.toDigits 10 n
  unfold DecimalText.decimal at hne hall
  generalize Nat.toDigits 10 n = ds at *
  have hnul : ∀ c ∈ ds ++ ['\n'], (c != '\x00') = true := by
    intro c hc
    have hc' : c ≠ '\x00' := by
      rintro rfl
      rcases List.mem_append.1 hc with hc | hc
      · exact not_mem_of_digits hall (by decide) hc
      · revert hc
        decide
    simpa using hc'
  have hlast : ∀ c ∈ ds.reverse, (c == '\n') = false := by
    intro c hc
    have hc' : c ≠ '\n' := by
      rintro rfl
      exact not_mem_of_digits hall (by decide) (List.mem_reverse.1 hc)
    simpa using hc'
  unfold substitution
  rw [List.filter_eq_self.2 hnul, List.reverse_append, List.reverse_singleton,
    List.singleton_append, List.dropWhile_cons_of_pos (by rfl)]
  have hstop : ds.reverse.dropWhile (· == '\n') = ds.reverse := by
    cases hrev : ds.reverse with
    | nil => rfl
    | cons c t =>
      rw [hrev] at hlast
      rw [List.dropWhile_cons_of_neg]
      rw [hlast c List.mem_cons_self]
      exact Bool.false_ne_true
  rw [hstop, List.reverse_reverse]

/-- `expr` counts. -/
theorem exprPlusOne_number {h : Host} {ctx : Text} {n : Int} (hn : number ctx = some n)
    (hpos : 0 ≤ n) : ∃ m : Nat, n + 1 = m ∧ exprPlusOne h ctx = (decimal m ++ ['\n'], true) := by
  obtain ⟨k, rfl⟩ := Int.eq_ofNat_of_zero_le hpos
  refine ⟨k + 1, by omega, ?_⟩
  unfold exprPlusOne
  rw [hn]
  have hne : ((k : Int) + 1 != 0) = true := by
    rw [bne_iff_ne]
    omega
  simp only [hne]
  rfl

theorem number_nil : number (substitution []) = none := by decide

/-! ## The invariant -/

/-- What a build can have read: the counter, below the limit, or a text that `expr` refuses. -/
def Readable (h : Host) (limit c : Int) (t : Text) : Prop :=
  (number t = some c ∧ c < limit) ∨ (number t = none ∧ h.expr t = ([], false))

/-- A build that uses the counter. -/
def Reads (h : Host) (limit : Int) (s : State Conf) (c : Int) : Phase → Prop
  | .testNext => Readable h limit c (counterText s)
  | .catNext => s.next.isSome = true ∧ Readable h limit c (counterText s)
  | .catStart => s.next = none ∧ Readable h limit c (counterText s)
  | .redirect ctx => ctx = counterText s ∧ Readable h limit c ctx
  | .expr ctx => s.next = some [] ∧ Readable h limit c ctx
  | _ => True

/-- A pending context is valid and vacant, and the counter will not give it. -/
def Sure (limit : Int) (s : State Conf) (c : Int) (p : Nat) (t : Text) : Prop :=
  ∃ v, number t = some v ∧ InRange v ∧ Vacant s p v ∧ ¬ (c ≤ v ∧ v < limit)

/-- **The contexts from `c` up to the limit are nobody's**, and the counter stands at `c`. -/
structure InvAt (h : Host) (limit : Int) (s : State Conf) (c : Int) : Prop where
  unique : UniqueContexts s
  low : 2 ≤ c
  counter : ∀ n, Next s n → n = c
  live : Next s c ∨ limit ≤ c
  confs : ∀ conf v, Configured s conf v → ¬ (c ≤ v ∧ v < limit)
  pending : ∀ p b t, s.builds p = some b → b.pending = some t → Sure limit s c p t
  reads : ∀ p b, s.builds p = some b → Reads h limit s c b.phase
  alone : ∀ p p' b b', s.builds p = some b → s.builds p' = some b' → b.phase.counts = true →
    b'.phase.counts = true → p = p'

def Inv (h : Host) (limit : Int) (s : State Conf) : Prop := ∃ c, InvAt h limit s c

/-- Build `p` is about to rewrite the counter, which is not in the file then. -/
def Rewrites (s : State Conf) (p : Nat) : Prop :=
  ∃ b ctx, s.builds p = some b ∧ b.phase = .expr ctx

variable {h : Host} {limit c : Int} {s s' : State Conf} {p : Nat} {b : Build Conf}

omit [DecidableEq Conf] in
/-- What is vacant stays so when configurations are kept and build `p` gets a pending context that
is not the one of another build. -/
theorem Vacant.keep {q : Nat} {v : Int} (hv : Vacant s q v) (hconfs : KeepsConfs s s')
    (hbuilds : s'.builds = Function.update s.builds p (some b))
    (hb : q ≠ p → ∀ t, b.pending = some t → number t ≠ some v) : Vacant s' q v := by
  obtain ⟨f, hf, -⟩ := hconfs
  refine ⟨fun conf hc => hv.1 _ (hf conf v hc), fun p' b' t hne hb' ht => ?_⟩
  rw [hbuilds] at hb'
  rcases update_eq_some hb' with ⟨rfl, rfl⟩ | ⟨-, hb'⟩
  · exact hb (Ne.symm hne) t ht
  · exact hv.2 p' b' t hne hb' ht

omit [DecidableEq Conf] in
/-- **A step of a build that writes neither a context nor the counter.** -/
theorem InvAt.keep (hi : InvAt h limit s c) (hconfs : KeepsConfs s s') (hnext : s'.next = s.next)
    (hbuilds : s'.builds = Function.update s.builds p (some b)) (hold : ¬ Rewrites s p)
    (hpending : ∀ t, b.pending = some t → Sure limit s c p t)
    (hreads : Reads h limit s c b.phase) (hexpr : ∀ ctx, b.phase ≠ .expr ctx)
    (halone : b.phase.counts = true →
      ∀ q bq, q ≠ p → s.builds q = some bq → bq.phase.counts = false) :
    InvAt h limit s' c := by
  have hkept := hconfs
  obtain ⟨f, hf, hinj⟩ := hconfs
  have htext : counterText s' = counterText s := by rw [counterText, hnext, counterText]
  have hsame : ∀ phase, Reads h limit s c phase → Reads h limit s' c phase := by
    intro phase hphase
    cases phase <;> simp only [Reads, htext, hnext] at hphase ⊢ <;> exact hphase
  refine ⟨?_, hi.low, ?_, ?_, fun conf v hc => hi.confs _ v (hf conf v hc), ?_, ?_, ?_⟩
  · intro d d' v hd hd'
    exact hinj d d' v hd hd' (hi.unique _ _ v (hf d v hd) (hf d' v hd'))
  · rintro n (hn | ⟨q, bq, ctx, hbq, hphase, hn⟩)
    · exact hi.counter n (.inl (htext ▸ hn))
    · rw [hbuilds] at hbq
      rcases update_eq_some hbq with ⟨-, rfl⟩ | ⟨-, hq⟩
      · exact absurd hphase (hexpr ctx)
      · exact hi.counter n (.inr ⟨q, bq, ctx, hq, hphase, hn⟩)
  · rcases hi.live with (hfile | ⟨q, bq, ctx, hq, hphase, hn⟩) | hdead
    · exact .inl (.inl (htext ▸ hfile))
    · refine .inl (.inr ⟨q, bq, ctx, ?_, hphase, hn⟩)
      rw [hbuilds, Function.update_of_ne]
      · exact hq
      · rintro rfl
        exact hold ⟨bq, ctx, hq, hphase⟩
    · exact .inr hdead
  · intro q bq t hbq ht
    rw [hbuilds] at hbq
    rcases update_eq_some hbq with ⟨rfl, rfl⟩ | ⟨hqp, hq⟩
    · obtain ⟨v, hv, hr, hvac, hfree⟩ := hpending t ht
      exact ⟨v, hv, hr, hvac.keep hkept hbuilds fun hne => absurd rfl hne, hfree⟩
    · obtain ⟨v, hv, hr, hvac, hfree⟩ := hi.pending q bq t hq ht
      refine ⟨v, hv, hr, hvac.keep hkept hbuilds fun _ t' ht' heq => ?_, hfree⟩
      -- the build that moves: what it has is vacant in `s`, where `q` has `t`
      obtain ⟨v', hv', -, hvac', -⟩ := hpending t' ht'
      obtain rfl := Option.some.inj (hv'.symm.trans heq)
      exact hvac'.2 q bq t hqp hq ht hv
  · intro q bq hbq
    rw [hbuilds] at hbq
    rcases update_eq_some hbq with ⟨-, rfl⟩ | ⟨-, hq⟩
    · exact hsame _ hreads
    · exact hsame _ (hi.reads q bq hq)
  · intro q q' bq bq' hbq hbq' hcount hcount'
    rw [hbuilds] at hbq hbq'
    rcases update_eq_some hbq with ⟨rfl, rfl⟩ | ⟨hqp, hq⟩ <;>
      rcases update_eq_some hbq' with ⟨rfl, rfl⟩ | ⟨hqp', hq'⟩
    · rfl
    · rw [halone hcount q' bq' hqp' hq'] at hcount'
      cases hcount'
    · rw [halone hcount' q bq hqp hq] at hcount
      cases hcount
    · exact hi.alone q q' bq bq' hq hq' hcount hcount'

omit [DecidableEq Conf] in
/-- A build moves on and neither uses the counter nor has anything new. -/
theorem InvAt.goto (hi : InvAt h limit s c) (hconfs : KeepsConfs s s') (hnext : s'.next = s.next)
    (hbuilds : s'.builds = s.builds) (hold : ¬ Rewrites s p) {phase : Phase}
    (hcounts : phase.counts = false)
    (hpending : ∀ t, ({ b with phase := phase } : Build Conf).pending = some t →
      Sure limit s c p t) :
    InvAt h limit (s'.goto p b phase) c := by
  refine hi.keep hconfs hnext (by rw [goto_builds, hbuilds]) hold hpending ?_ ?_ ?_
  · cases phase <;> simp [Phase.counts] at hcounts <;> trivial
  · rintro ctx hphase
    rw [show phase = .expr ctx from hphase] at hcounts
    cases hcounts
  · intro hcount
    rw [show phase.counts = true from hcount] at hcounts
    cases hcounts

theorem InvAt.abort (hi : InvAt h limit s c) (hconfs : KeepsConfs s s') (hnext : s'.next = s.next)
    (hbuilds : s'.builds = s.builds) (hold : ¬ Rewrites s p) :
    InvAt h limit (s'.abort p b) c := by
  unfold State.abort
  split
  · exact hi.goto (hconfs.trans (keepsConfs_update s' b.confdir none fun _ => nofun)) hnext hbuilds
      hold rfl nofun
  · exact hi.goto hconfs hnext hbuilds hold rfl nofun

omit [DecidableEq Conf] in
/-- A build that uses the counter moves on. -/
theorem InvAt.gotoCounting (hi : InvAt h limit s c) (hold : ¬ Rewrites s p) {phase : Phase}
    (hexpr : ∀ ctx, phase ≠ .expr ctx)
    (hpending : ({ b with phase := phase } : Build Conf).pending = none)
    (hreads : Reads h limit s c phase)
    (halone : ∀ q bq, q ≠ p → s.builds q = some bq → bq.phase.counts = false) :
    InvAt h limit (s.goto p b phase) c := by
  refine hi.keep (KeepsConfs.of_eq rfl) rfl rfl hold (fun t ht => ?_) hreads hexpr fun _ => halone
  rw [hpending] at ht
  cases ht

/-- A build writes the context that it has. -/
theorem InvAt.write (hi : InvAt h limit s c) {ctx : Text} (hb : s.builds p = some b)
    (hphase : b.phase = .writeContext ctx) (hne : ctx ≠ []) :
    InvAt h limit ({ s with confs := Function.update s.confs b.confdir (some (some ctx)) }.goto p b
      .finish) c := by
  have hpending : b.pending = some ctx := by
    rw [Build.pending, hphase]
    exact if_neg hne
  obtain ⟨v, hv, -, hvac, hfree⟩ := hi.pending p b ctx hb hpending
  set s' := { s with confs := Function.update s.confs b.confdir (some (some ctx)) }.goto p b
    .finish with hs'
  have hcases : ∀ d w, Configured s' d w →
      (d = b.confdir ∧ w = v) ∨ (d ≠ b.confdir ∧ Configured s d w) := by
    rintro d w ⟨t, ht, hw⟩
    simp only [hs', goto_confs] at ht
    by_cases hd : d = b.confdir
    · subst hd
      rw [Function.update_self] at ht
      obtain rfl := Option.some.inj (Option.some.inj ht)
      exact .inl ⟨rfl, Option.some.inj (hw.symm.trans hv)⟩
    · rw [Function.update_of_ne hd] at ht
      exact .inr ⟨hd, t, ht, hw⟩
  have hold : ∀ q bq, s'.builds q = some bq → bq.phase ≠ .finish → q ≠ p ∧ s.builds q = some bq := by
    intro q bq hbq hfin
    simp only [hs', goto_builds] at hbq
    rcases update_eq_some hbq with ⟨rfl, rfl⟩ | hq
    · exact absurd rfl hfin
    · exact hq
  have hnotFinish : ∀ {bq : Build Conf} {t : Text}, bq.pending = some t → bq.phase ≠ .finish := by
    intro bq t ht hfin
    rw [Build.pending, hfin] at ht
    cases ht
  refine ⟨?_, hi.low, ?_, ?_, ?_, ?_, ?_, ?_⟩
  · intro d d' w hd hd'
    rcases hcases d w hd with ⟨rfl, rfl⟩ | ⟨hdn, hdw⟩ <;>
      rcases hcases d' w hd' with ⟨rfl, hw⟩ | ⟨hdn', hdw'⟩
    · rfl
    · exact absurd hdw' (hvac.1 d')
    · subst hw
      exact absurd hdw (hvac.1 d)
    · exact hi.unique d d' w hdw hdw'
  · rintro n (hn | ⟨q, bq, ctx', hbq, hphase', hn⟩)
    · exact hi.counter n (.inl hn)
    · obtain ⟨-, hq⟩ := hold q bq hbq (by rw [hphase']; nofun)
      exact hi.counter n (.inr ⟨q, bq, ctx', hq, hphase', hn⟩)
  · rcases hi.live with (hfile | ⟨q, bq, ctx', hq, hphase', hn⟩) | hdead
    · exact .inl (.inl hfile)
    · refine .inl (.inr ⟨q, bq, ctx', ?_, hphase', hn⟩)
      rw [hs', goto_builds, Function.update_of_ne]
      · exact hq
      · rintro rfl
        obtain rfl := Option.some.inj (hb.symm.trans hq)
        rw [hphase] at hphase'
        cases hphase'
    · exact .inr hdead
  · intro d w hd
    rcases hcases d w hd with ⟨-, rfl⟩ | ⟨-, hdw⟩
    · exact hfree
    · exact hi.confs d w hdw
  · intro q bq t hbq ht
    obtain ⟨hqp, hq⟩ := hold q bq hbq (hnotFinish ht)
    obtain ⟨w, hw, hr, hvac', hfree'⟩ := hi.pending q bq t hq ht
    refine ⟨w, hw, hr, ⟨fun d hd => ?_, fun q' b' t' hne' hbq' ht' => ?_⟩, hfree'⟩
    · rcases hcases d w hd with ⟨-, rfl⟩ | ⟨-, hdw⟩
      · exact hvac'.2 p b ctx (Ne.symm hqp) hb hpending hv
      · exact hvac'.1 d hdw
    · exact hvac'.2 q' b' t' hne' (hold q' b' hbq' (hnotFinish ht')).2 ht'
  · intro q bq hbq
    by_cases hfin : bq.phase = .finish
    · rw [hfin]
      trivial
    · have hreads := hi.reads q bq (hold q bq hbq hfin).2
      cases hphase' : bq.phase <;> rw [hphase'] at hreads <;> exact hreads
  · intro q q' bq bq' hbq hbq' hcount hcount'
    have hnot : ∀ {bq : Build Conf}, bq.phase.counts = true → bq.phase ≠ .finish := by
      intro bq hcount hfin
      rw [hfin] at hcount
      cases hcount
    exact hi.alone q q' bq bq' (hold q bq hbq (hnot hcount)).2 (hold q' bq' hbq' (hnot hcount')).2
      hcount hcount'

omit [DecidableEq Conf] in
/-- Nobody else uses the counter while a build does. -/
theorem InvAt.others (hi : InvAt h limit s c) (hb : s.builds p = some b)
    (hcounts : b.phase.counts = true) :
    ∀ q bq, q ≠ p → s.builds q = some bq → bq.phase.counts = false := by
  intro q bq hne hq
  rw [← Bool.not_eq_true]
  exact fun hcount => hne (hi.alone q p bq b hq hb hcount hcounts)

omit [DecidableEq Conf] in
/-- **The build that uses the counter rewrites it**, and may take the context that it gives. -/
theorem InvAt.recount {c' : Int} (hlimit : limit ≤ 49152) (hi : InvAt h limit s c)
    (hb : s.builds p = some b) (hcounts : b.phase.counts = true) (hconfs : KeepsConfs s s')
    (hbuilds : s'.builds = s.builds) {phase : Phase} (hle : c ≤ c')
    (hcounter : ∀ n, number (counterText s') = some n → n = c')
    (hexpr : ∀ ctx n, phase = .expr ctx → number ctx = some n → n = c')
    (hlive : number (counterText s') = some c' ∨
      (∃ ctx, phase = .expr ctx ∧ number ctx = some c') ∨ limit ≤ c')
    (hpending : ∀ t, ({ b with phase := phase } : Build Conf).pending = some t →
      number t = some c ∧ c < c' ∧ c < limit)
    (hreads : Reads h limit s' c' phase) : InvAt h limit (s'.goto p b phase) c' := by
  have hothers := hi.others hb hcounts
  have hbuilds' : (s'.goto p b phase).builds =
      Function.update s.builds p (some { b with phase := phase }) := by rw [goto_builds, hbuilds]
  have hkept : KeepsConfs s (s'.goto p b phase) := hconfs
  obtain ⟨f, hf, hinj⟩ := hconfs
  have hlow := hi.low
  refine ⟨?_, by omega, ?_, ?_,
    fun conf v hc hv => hi.confs _ v (hf conf v hc) ⟨by omega, hv.2⟩, ?_, ?_, ?_⟩
  · intro d d' v hd hd'
    exact hinj d d' v hd hd' (hi.unique _ _ v (hf d v hd) (hf d' v hd'))
  · rintro n (hn | ⟨q, bq, ctx, hbq, hphase, hn⟩)
    · exact hcounter n hn
    · rw [hbuilds'] at hbq
      rcases update_eq_some hbq with ⟨-, rfl⟩ | ⟨hqp, hq⟩
      · exact hexpr ctx n hphase hn
      · have hnot := hothers q bq hqp hq
        rw [hphase] at hnot
        cases hnot
  · rcases hlive with hfile | ⟨ctx, hphase, hn⟩ | hdead
    · exact .inl (.inl hfile)
    · refine .inl (.inr ⟨p, { b with phase := phase }, ctx, ?_, hphase, hn⟩)
      rw [hbuilds', Function.update_self]
    · exact .inr hdead
  · intro q bq t hbq ht
    rw [hbuilds'] at hbq
    rcases update_eq_some hbq with ⟨rfl, rfl⟩ | ⟨hqp, hq⟩
    · obtain ⟨hnum, hlt, hbelow⟩ := hpending t ht
      refine ⟨c, hnum, ⟨hlow, by omega⟩, ⟨fun conf hc => ?_, fun q' b' t' hne hq' ht' heq => ?_⟩,
        fun hv => by omega⟩
      · exact hi.confs _ c (hf conf c hc) ⟨le_rfl, hbelow⟩
      · rw [hbuilds', Function.update_of_ne hne] at hq'
        obtain ⟨v, hv, -, -, hfree⟩ := hi.pending q' b' t' hq' ht'
        obtain rfl := Option.some.inj (hv.symm.trans heq)
        exact hfree ⟨le_rfl, hbelow⟩
    · obtain ⟨v, hv, hr, hvac, hfree⟩ := hi.pending q bq t hq ht
      refine ⟨v, hv, hr, hvac.keep hkept hbuilds' fun _ t' ht' heq => ?_, fun hv => ?_⟩
      · obtain ⟨hnum, -, hbelow⟩ := hpending t' ht'
        obtain rfl := Option.some.inj (hnum.symm.trans heq)
        exact hfree ⟨le_rfl, hbelow⟩
      · exact hfree ⟨by omega, hv.2⟩
  · intro q bq hbq
    rw [hbuilds'] at hbq
    rcases update_eq_some hbq with ⟨-, rfl⟩ | ⟨hqp, hq⟩
    · exact hreads
    · have hnot := hothers q bq hqp hq
      cases hphase : bq.phase <;> first | trivial | (rw [hphase] at hnot; cases hnot)
  · intro q q' bq bq' hbq hbq' hcount hcount'
    have hself : ∀ {q : Nat} {bq : Build Conf}, (s'.goto p b phase).builds q = some bq →
        bq.phase.counts = true → q = p := by
      intro q bq hbq hcount
      rw [hbuilds'] at hbq
      rcases update_eq_some hbq with ⟨hqp, -⟩ | ⟨hqp, hq⟩
      · exact hqp
      · rw [hothers q bq hqp hq] at hcount
        cases hcount
    rw [hself hbq hcount, hself hbq' hcount']

/-- A build ends while the counter file is empty: no context is reserved any more. -/
theorem InvAt.abortEmpty (hlimit : limit ≤ 49152) (hi : InvAt h limit s c)
    (hb : s.builds p = some b) (hcounts : b.phase.counts = true)
    (hconfs : s'.confs = s.confs) (hbuilds : s'.builds = s.builds) (hnext : s'.next = some []) :
    Inv h limit (s'.abort p b) := by
  have hempty : ∀ n, number (counterText s') = some n → n = max c limit := by
    intro n hn
    rw [counterText, hnext, Option.getD_some, number_nil] at hn
    cases hn
  have hkeep : KeepsConfs s s' := KeepsConfs.of_eq hconfs
  have hcount : ∀ {s'' : State Conf}, KeepsConfs s s'' → s''.builds = s.builds →
      (∀ n, number (counterText s'') = some n → n = max c limit) →
      InvAt h limit (s''.goto p b .exited) (max c limit) := by
    intro s'' hconfs hbuilds hempty
    exact hi.recount hlimit hb hcounts hconfs hbuilds (le_max_left _ _) hempty
      (fun _ _ hphase => by cases hphase) (.inr (.inr (le_max_right _ _))) nofun trivial
  unfold State.abort
  split
  · exact ⟨_, hcount (hkeep.trans (keepsConfs_update s' b.confdir none fun _ => nofun)) hbuilds
      hempty⟩
  · exact ⟨_, hcount hkeep hbuilds hempty⟩

/-- A build fails or is killed. -/
theorem InvAt.fail (hlimit : limit ≤ 49152) (hi : InvAt h limit s c) (hb : s.builds p = some b) :
    Inv h limit (s.abort p b) := by
  by_cases hold : Rewrites s p
  · obtain ⟨b', ctx, hb', hphase⟩ := hold
    obtain rfl := Option.some.inj (hb.symm.trans hb')
    have hread := hi.reads p b hb
    rw [hphase] at hread
    exact hi.abortEmpty hlimit hb (by rw [hphase]; rfl) rfl rfl hread.1
  · exact ⟨c, hi.abort (KeepsConfs.of_eq rfl) rfl rfl hold⟩

/-- `expr` counts on, or refuses what was read and leaves the file empty. -/
theorem InvAt.expr (hlimit : limit ≤ 49152) (hi : InvAt h limit s c) {ctx : Text}
    (hb : s.builds p = some b) (hphase : b.phase = .expr ctx) {running : Bool} {backup : Conf}
    (hstep : advance h s p b running backup = some s') : Inv h limit s' := by
  have hcounts : b.phase.counts = true := by rw [hphase]; rfl
  have hread := hi.reads p b hb
  rw [hphase] at hread
  obtain ⟨hnext, ⟨hnum, hbelow⟩ | ⟨hnone, hrefused⟩⟩ := hread
  · have hlow := hi.low
    obtain ⟨m, hm, hout⟩ := exprPlusOne_number (h := h) hnum (by omega)
    simp only [StaticContexts.advance, hphase, hout, hnext, if_true] at hstep
    cases hstep
    have hcounter : number (substitution (writeAtStart (decimal m ++ ['\n']) [])) =
        some (c + 1) := by
      rw [writeAtStart, List.drop_nil, List.append_nil, substitution_decimal, number_decimal, hm]
    have hpending : ∀ t, ({ b with phase := .writeContext ctx } : Build Conf).pending = some t →
        number t = some c ∧ c < c + 1 ∧ c < limit := by
      intro t ht
      simp only [Build.pending] at ht
      split at ht
      · cases ht
      · obtain rfl := Option.some.inj ht
        exact ⟨hnum, by omega, hbelow⟩
    have hinv : ∀ {s' : State Conf}, s'.confs = s.confs → s'.builds = s.builds →
        number (counterText s') = some (c + 1) →
        InvAt h limit (s'.goto p b (.writeContext ctx)) (c + 1) := by
      intro s' hconfs hbuilds hcounter
      exact hi.recount hlimit hb hcounts (KeepsConfs.of_eq hconfs) hbuilds (by omega)
        (fun n hn => Option.some.inj (hn.symm.trans hcounter)) (fun _ _ hphase => by cases hphase)
        (.inl hcounter) hpending trivial
    exact ⟨c + 1, hinv rfl rfl hcounter⟩
  · have hout : exprPlusOne h ctx = ([], false) := by
      unfold exprPlusOne
      rw [hnone]
      exact hrefused
    simp only [StaticContexts.advance, hphase, hout, hnext] at hstep
    cases hstep
    exact hi.abortEmpty hlimit hb hcounts rfl rfl rfl

omit [DecidableEq Conf] in
theorem not_rewrites (hb : s.builds p = some b) (hnot : ∀ ctx, b.phase ≠ .expr ctx) :
    ¬ Rewrites s p := by
  rintro ⟨b', ctx, hb', hphase⟩
  obtain rfl := Option.some.inj (hb.symm.trans hb')
  exact hnot ctx hphase

section Advance

variable {running : Bool} {backup : Conf}

/-- The context that is asked for becomes the one of the build. -/
theorem InvAt.init (hi : InvAt h limit s c) (hb : s.builds p = some b)
    (hphase : b.phase = .init) (hallowed : Allowed h limit s (p, .advance running backup))
    (hstep : advance h s p b running backup = some s') : Inv h limit s' := by
  obtain ⟨hrequest, -⟩ := hallowed b hb
  have hold := not_rewrites hb (by rw [hphase]; nofun)
  simp only [StaticContexts.advance, hphase] at hstep
  split at hstep <;> cases hstep
  · exact ⟨c, hi.abort (KeepsConfs.of_eq rfl) rfl rfl hold⟩
  · rename_i hpass
    refine ⟨c, hi.goto (KeepsConfs.of_eq rfl) rfl rfl hold rfl fun t ht => ?_⟩
    simp only [Build.pending] at ht
    split at ht
    · cases ht
    · rename_i hne
      obtain rfl := Option.some.inj ht
      have hidle : running = false := by
        rw [← Bool.not_eq_true]
        exact fun hrunning => hpass ⟨hne, hrunning⟩
      obtain ⟨v, hv, hr, hvac, hres⟩ := hrequest hphase hne hidle
      refine ⟨v, hv, hr, hvac, fun hcv => ?_⟩
      rcases hi.live with hlive | hdead
      · exact hres ⟨hcv.2, c, hlive, hcv.1⟩
      · omega

/-- The configuration directory is made, behind the renaming of the old one. -/
theorem InvAt.initFilesystem (hi : InvAt h limit s c) (hb : s.builds p = some b)
    (hphase : b.phase = .initFilesystem)
    (hstep : advance h s p b running backup = some s') : Inv h limit s' := by
  have hheld := hi.pending p b
  have hold := not_rewrites hb (by rw [hphase]; nofun)
  have hkeep : ∀ t, ({ b with phase := .writeOption } : Build Conf).pending = some t →
      Sure limit s c p t := fun t ht => hheld t hb (by rw [Build.pending, hphase]; exact ht)
  have hconfs : KeepsConfs s { s with
      confs := if b.force then renameCfg s.confs b.confdir backup else s.confs } := by
    split
    · exact keepsConfs_rename s b.confdir backup
    · exact KeepsConfs.of_eq rfl
  simp only [StaticContexts.advance, hphase] at hstep
  generalize (if b.force then renameCfg s.confs b.confdir backup else s.confs) = confs
    at hstep hconfs
  split at hstep <;> cases hstep
  · have hmade := hconfs.trans (keepsConfs_update _ b.confdir (some none) fun _ => nofun)
    exact ⟨c, hi.goto hmade rfl rfl hold rfl hkeep⟩
  · exact ⟨c, hi.abort hconfs rfl rfl hold⟩

/-- Another file is written into the configuration. -/
theorem InvAt.writeOption (hi : InvAt h limit s c) (hb : s.builds p = some b)
    (hphase : b.phase = .writeOption)
    (hstep : advance h s p b running backup = some s') : Inv h limit s' := by
  have hheld := hi.pending p b
  have hold := not_rewrites hb (by rw [hphase]; nofun)
  have hkeep : ∀ t, ({ b with phase := .generateContext } : Build Conf).pending = some t →
      Sure limit s c p t := fun t ht => hheld t hb (by rw [Build.pending, hphase]; exact ht)
  simp only [StaticContexts.advance, hphase] at hstep
  cases hstep
  refine ⟨c, hi.goto (keepsConfs_update s b.confdir _ fun t ht => ?_) rfl rfl hold rfl hkeep⟩
  cases hconf : s.confs b.confdir with
  | none =>
    rw [hconf] at ht
    cases ht
  | some x =>
    rw [hconf] at ht
    exact ht

/-- A build without a context comes to the counter. -/
theorem InvAt.generateContext (hi : InvAt h limit s c) (hb : s.builds p = some b)
    (hphase : b.phase = .generateContext)
    (hallowed : Allowed h limit s (p, .advance running backup))
    (hstep : advance h s p b running backup = some s') : Inv h limit s' := by
  have hheld := hi.pending p b
  obtain ⟨-, hcount⟩ := hallowed b hb
  have hold := not_rewrites hb (by rw [hphase]; nofun)
  have hkeep : ∀ t, ({ b with phase := .writeContext b.context } : Build Conf).pending = some t →
      Sure limit s c p t := fun t ht => hheld t hb (by rw [Build.pending, hphase]; exact ht)
  simp only [StaticContexts.advance, hphase] at hstep
  split at hstep <;> cases hstep
  · rename_i hgen
    obtain ⟨halone, hcounter⟩ := hcount hphase hgen.1 hgen.2
    refine ⟨c, hi.gotoCounting hold nofun rfl ?_ fun q bq _ hq => halone q bq hq⟩
    rcases hcounter with ⟨n, hn, hbelow⟩ | hrefused
    · obtain rfl := hi.counter n (.inl hn)
      exact .inl ⟨hn, hbelow⟩
    · exact .inr hrefused
  · exact ⟨c, hi.goto (KeepsConfs.of_eq rfl) rfl rfl hold rfl hkeep⟩

theorem InvAt.testNext (hi : InvAt h limit s c) (hb : s.builds p = some b)
    (hphase : b.phase = .testNext)
    (hstep : advance h s p b running backup = some s') : Inv h limit s' := by
  have hread := hi.reads p b hb
  have hold := not_rewrites hb (by rw [hphase]; nofun)
  rw [hphase] at hread
  have hothers := hi.others hb (by rw [hphase]; rfl)
  simp only [StaticContexts.advance, hphase] at hstep
  cases hstep
  split
  · rename_i hsome
    exact ⟨c, hi.gotoCounting hold nofun rfl ⟨hsome, hread⟩ hothers⟩
  · rename_i hnone
    exact ⟨c, hi.gotoCounting hold nofun rfl ⟨by simpa using hnone, hread⟩ hothers⟩

theorem InvAt.catNext (hi : InvAt h limit s c) (hb : s.builds p = some b)
    (hphase : b.phase = .catNext)
    (hstep : advance h s p b running backup = some s') : Inv h limit s' := by
  have hread := hi.reads p b hb
  have hold := not_rewrites hb (by rw [hphase]; nofun)
  rw [hphase] at hread
  have hothers := hi.others hb (by rw [hphase]; rfl)
  simp only [StaticContexts.advance, hphase] at hstep
  cases hstep
  refine ⟨c, hi.gotoCounting hold nofun rfl ?_ hothers⟩
  obtain ⟨t, ht⟩ := Option.isSome_iff_exists.mp hread.1
  have htext : counterText s = substitution (s.next.getD []) := by
    rw [counterText, ht]
    rfl
  rw [← htext]
  exact ⟨rfl, hread.2⟩

theorem InvAt.catStart (hi : InvAt h limit s c) (hb : s.builds p = some b)
    (hphase : b.phase = .catStart)
    (hstep : advance h s p b running backup = some s') : Inv h limit s' := by
  have hread := hi.reads p b hb
  have hold := not_rewrites hb (by rw [hphase]; nofun)
  rw [hphase] at hread
  have hothers := hi.others hb (by rw [hphase]; rfl)
  simp only [StaticContexts.advance, hphase] at hstep
  cases hstep
  refine ⟨c, hi.gotoCounting hold nofun rfl ?_ hothers⟩
  have htext : counterText s = substitution contextStart := by
    rw [counterText, hread.1]
    rfl
  rw [← htext]
  exact ⟨rfl, hread.2⟩

/-- The counter file is emptied; what was read of it is still in the build. -/
theorem InvAt.redirect (hlimit : limit ≤ 49152) (hi : InvAt h limit s c) {ctx : Text}
    (hb : s.builds p = some b) (hphase : b.phase = .redirect ctx)
    (hstep : advance h s p b running backup = some s') : Inv h limit s' := by
  have hread := hi.reads p b hb
  rw [hphase] at hread
  simp only [StaticContexts.advance, hphase] at hstep
  cases hstep
  obtain ⟨rfl, hread⟩ := hread
  have hothers := hi.others hb (by rw [hphase]; rfl)
  have hempty : ∀ n, number (substitution []) ≠ some n := fun n => by rw [number_nil]; nofun
  have hinv : ∀ {s' : State Conf}, s'.confs = s.confs → s'.builds = s.builds →
      s'.next = some [] → InvAt h limit (s'.goto p b (.expr (counterText s))) c := by
    intro s' hconfs hbuilds hnext
    have htext : counterText s' = substitution [] := by rw [counterText, hnext]; rfl
    refine hi.recount hlimit hb (by rw [hphase]; rfl) (KeepsConfs.of_eq hconfs) hbuilds le_rfl ?_
      ?_ ?_ (fun _ ht => by cases ht) ⟨hnext, hread⟩
    · intro n hn
      rw [htext] at hn
      exact absurd hn (hempty n)
    · rintro ctx n ⟨⟩ hn
      exact hi.counter n (.inl hn)
    · rcases hi.live with (hfile | ⟨q, bq, ctx, hq, hphase', -⟩) | hdead
      · exact .inr (.inl ⟨_, rfl, hfile⟩)
      · have hnot := hothers q bq (by
          rintro rfl
          obtain rfl := Option.some.inj (hb.symm.trans hq)
          rw [hphase] at hphase'
          cases hphase') hq
        rw [hphase'] at hnot
        cases hnot
      · exact .inr (.inr hdead)
  exact ⟨c, hinv rfl rfl rfl⟩

/-- The context is written, or the build ends. -/
theorem InvAt.writeContext (hi : InvAt h limit s c) {ctx : Text} (hb : s.builds p = some b)
    (hphase : b.phase = .writeContext ctx)
    (hstep : advance h s p b running backup = some s') : Inv h limit s' := by
  have hold := not_rewrites hb (by rw [hphase]; nofun)
  simp only [StaticContexts.advance, hphase] at hstep
  split at hstep
  · cases hstep
    exact ⟨c, hi.goto (KeepsConfs.of_eq rfl) rfl rfl hold rfl nofun⟩
  · rename_i hne
    split at hstep <;> cases hstep
    · exact ⟨c, hi.abort (KeepsConfs.of_eq rfl) rfl rfl hold⟩
    · exact ⟨c, hi.write hb hphase hne⟩

/-- One command of a build. -/
theorem InvAt.advance (hlimit : limit ≤ 49152) (hi : InvAt h limit s c)
    (hb : s.builds p = some b) (hallowed : Allowed h limit s (p, .advance running backup))
    (hstep : advance h s p b running backup = some s') : Inv h limit s' := by
  cases hphase : b.phase with
  | init => exact hi.init hb hphase hallowed hstep
  | initFilesystem => exact hi.initFilesystem hb hphase hstep
  | writeOption => exact hi.writeOption hb hphase hstep
  | generateContext => exact hi.generateContext hb hphase hallowed hstep
  | testNext => exact hi.testNext hb hphase hstep
  | catNext => exact hi.catNext hb hphase hstep
  | catStart => exact hi.catStart hb hphase hstep
  | redirect ctx => exact hi.redirect hlimit hb hphase hstep
  | expr ctx => exact hi.expr hlimit hb hphase hstep
  | writeContext ctx => exact hi.writeContext hb hphase hstep
  | finish =>
    have hold := not_rewrites hb (by rw [hphase]; nofun)
    simp only [StaticContexts.advance, hphase] at hstep
    cases hstep
    exact ⟨c, hi.goto (KeepsConfs.of_eq rfl) rfl rfl hold rfl nofun⟩
  | exited =>
    simp only [StaticContexts.advance, hphase] at hstep
    cases hstep

end Advance

theorem Inv.step {l : Nat × Act Conf} (hlimit : limit ≤ 49152) (hi : Inv h limit s)
    (hallowed : Allowed h limit s l) (hstep : Step h s l s') : Inv h limit s' := by
  obtain ⟨c, hi⟩ := hi
  obtain ⟨p, act⟩ := l
  cases act with
  | start confdir context force keep =>
    simp only [Step, next] at hstep
    split at hstep <;> cases hstep
    rename_i hnone
    refine ⟨c, hi.goto (KeepsConfs.of_eq rfl) rfl rfl ?_ rfl nofun⟩
    rintro ⟨b, ctx, hb, -⟩
    rw [hnone] at hb
    cases hb
  | advance running backup =>
    simp only [Step, next, Option.bind_eq_some_iff] at hstep
    obtain ⟨b, hb, hadv⟩ := hstep
    exact hi.advance hlimit hb hallowed hadv
  | fail =>
    simp only [Step, next, Option.map_eq_some_iff] at hstep
    obtain ⟨b, hb, rfl⟩ := hstep
    exact hi.fail hlimit hb

omit [DecidableEq Conf] in
theorem Inv.writesRight (hi : Inv h limit s) : WritesRight s := by
  obtain ⟨c, hi⟩ := hi
  intro p b t hb hphase hne
  obtain ⟨v, hv, hr, hvac, -⟩ := hi.pending p b t hb (by
    rw [Build.pending, hphase]
    exact if_neg hne)
  exact ⟨v, hv, hr, fun c _ => hvac.1 c⟩

omit [DecidableEq Conf] in
theorem Inv.initial (hidle : ∀ p, s.builds p = none) (hunique : UniqueContexts s)
    (hahead : Ahead limit s) : Inv h limit s := by
  have hnone : ∀ {p : Nat} {b : Build Conf}, ¬ s.builds p = some b := by
    intro p b hb
    rw [hidle p] at hb
    cases hb
  have hread : ∀ c, (∀ n, number (counterText s) = some n → n = c) → ∀ n, Next s n → n = c := by
    rintro c hc n (hn | ⟨p, b, -, hb, -⟩)
    · exact hc n hn
    · exact absurd hb hnone
  cases hnum : number (counterText s) with
  | some n =>
    obtain ⟨hlow, hconfs⟩ := hahead n hnum
    exact ⟨n, hunique, hlow, hread n fun m hm => Option.some.inj (hm.symm.trans hnum),
      .inl (.inl hnum), hconfs,
      fun _ _ _ hb => absurd hb hnone, fun _ _ hb => absurd hb hnone,
      fun _ _ _ _ hb => absurd hb hnone⟩
  | none =>
    -- the counter gives no context, so none is reserved
    refine ⟨max 2 limit, hunique, by omega, hread _ fun m hm => ?_, .inr (le_max_right _ _),
      fun _ v _ hv => by omega,
      fun _ _ _ hb => absurd hb hnone, fun _ _ hb => absurd hb hnone,
      fun _ _ _ _ hb => absurd hb hnone⟩
    rw [hnum] at hm
    cases hm

/-- **Static contexts stay unique** in every run of any number of builds that use the counter one
after the other, when what they ask for is free and not among the contexts that the counter will
give: no two configured vservers have the same context, and what a build is about to write is valid
and not the context of another vserver. -/
theorem contexts_unique (h : Host) {limit : Int} (hlimit : limit ≤ 49152) {s₀ s : State Conf}
    {ls : List (Nat × Act Conf)} (hidle : ∀ p, s₀.builds p = none) (hunique : UniqueContexts s₀)
    (hahead : Ahead limit s₀) (hrun : Run (AllowedStep h limit) s₀ ls s) :
    UniqueContexts s ∧ WritesRight s := by
  have hi : Inv h limit s :=
    Run.invariant (fun _ _ _ hi hstep => hi.step hlimit hstep.2 hstep.1) hrun
      (Inv.initial hidle hunique hahead)
  obtain ⟨c, hat⟩ := hi
  exact ⟨hat.unique, Inv.writesRight ⟨c, hat⟩⟩

/-! ## Runs -/

/-- `expr` fails for texts that are no integers; nothing is configured. -/
def plainHost : Host := ⟨false, fun _ => ([], false)⟩

def fresh : State Nat := ⟨none, fun _ => none, fun _ => none⟩

/-- The first `n` commands of build `p`. -/
def commands (p n : Nat) : List (Nat × Act Nat) := List.replicate n (p, .advance false 9)

theorem fresh_unique : UniqueContexts fresh := by
  rintro c c' v ⟨t, ht, -⟩
  cases ht

/-- A build with `--context 500` and one without, which counts before the first one writes. -/
def twoBuilds : List (Nat × Act Nat) :=
  (0, .start 0 ['5', '0', '0'] false false) :: (1, .start 1 [] false false) :: commands 0 1 ++
    commands 1 9 ++ commands 0 4

theorem fresh_ahead : Ahead 49152 fresh := by
  intro n hn
  have hstart : number (counterText fresh) = some 40000 := by decide +kernel
  obtain rfl := Option.some.inj (hstart.symm.trans hn)
  refine ⟨by omega, ?_⟩
  rintro c v ⟨t, ht, -⟩
  cases ht

theorem contexts_unique_twoBuilds :
    ∃ s, Run (AllowedStep plainHost 49152) fresh twoBuilds s ∧
      s.confs 0 = some (some ['5', '0', '0']) ∧
      s.confs 1 = some (some ['4', '0', '0', '0', '0']) ∧ UniqueContexts s ∧ WritesRight s := by
  have hconfs : (runLabels (next plainHost) twoBuilds fresh).map (fun s => (s.confs 0, s.confs 1)) =
      some (some (some ['5', '0', '0']), some (some ['4', '0', '0', '0', '0'])) := by
    decide +kernel
  rw [Option.map_eq_some_iff] at hconfs
  obtain ⟨s, hs, hwritten⟩ := hconfs
  obtain ⟨hzero, hone⟩ := Prod.mk.inj hwritten
  have hmeet : LabelsMeet (next plainHost) (Allowed plainHost 49152) twoBuilds fresh := by
    refine ⟨trivial, fun s hs => ?_⟩
    cases hs
    refine ⟨trivial, fun s hs => ?_⟩
    cases hs
    -- `--context 500` passes the check
    refine ⟨fun b hb => ?_, fun s hs => ?_⟩
    · cases hb
      refine ⟨fun _ _ _ => ⟨500, by decide +kernel, ⟨by omega, by omega⟩, ⟨?_, ?_⟩, ?_⟩, nofun⟩
      · rintro c ⟨t, hc, -⟩
        cases hc
      · intro q b t hne hb ht
        rcases update_eq_some hb with ⟨-, rfl⟩ | ⟨-, hb⟩
        · cases ht
        · rcases update_eq_some hb with ⟨rfl, -⟩ | ⟨-, hb⟩
          · exact absurd rfl hne
          · cases hb
      · rintro ⟨-, n, hn | ⟨q, b, ctx, hb, hphase, -⟩, hle⟩
        · have hstart : number (substitution contextStart) = some 40000 := by decide +kernel
          obtain rfl := Option.some.inj (hstart.symm.trans hn)
          omega
        · rcases update_eq_some hb with ⟨-, rfl⟩ | ⟨-, hb⟩
          · cases hphase
          · rcases update_eq_some hb with ⟨-, rfl⟩ | ⟨-, hb⟩
            · cases hphase
            · cases hb
    cases hs
    refine ⟨fun b hb => (by cases hb; exact ⟨fun _ hne => absurd rfl hne, nofun⟩), fun s hs => ?_⟩
    cases hs
    iterate 2
      refine ⟨fun b hb => (by cases hb; exact ⟨nofun, nofun⟩), fun s hs => ?_⟩
      cases hs
    -- the other build comes to the counter
    refine ⟨fun b hb => ?_, fun s hs => ?_⟩
    · cases hb
      refine ⟨nofun, fun _ _ _ => ⟨fun q b hb => ?_, .inl ⟨40000, by decide +kernel, by omega⟩⟩⟩
      iterate 6
        rcases update_eq_some hb with ⟨-, rfl⟩ | ⟨-, hb⟩
        · rfl
      cases hb
    cases hs
    iterate 9
      refine ⟨fun b hb => (by cases hb; exact ⟨nofun, nofun⟩), fun s hs => ?_⟩
      cases hs
    trivial
  have hrun := run_of_labelsMeet hs hmeet
  exact ⟨s, hrun, hzero, hone, contexts_unique plainHost (by omega) (fun _ => rfl) fresh_unique
    fresh_ahead hrun⟩

/-- A build with `--context 40000`, and then one without. -/
def sequentialBuilds : List (Nat × Act Nat) :=
  (0, .start 0 ['4', '0', '0', '0', '0'] false false) :: commands 0 6 ++
    (1, .start 1 [] false false) :: commands 1 10

/-- Two builds read the counter before one of them rewrites it. -/
def interleavedBuilds : List (Nat × Act Nat) :=
  (0, .start 0 [] false false) :: (1, .start 1 [] false false) :: commands 0 6 ++
    commands 1 6 ++ commands 0 4 ++ commands 1 4

/-- A build with `--context 60000`, in front of its `context` file. -/
def largeContext : List (Nat × Act Nat) :=
  (0, .start 0 ['6', '0', '0', '0', '0'] false false) :: commands 0 4

theorem clash_of_run {ls : List (Nat × Act Nat)}
    (hrun : (runLabels (next plainHost) ls fresh).map (fun s => (s.confs 0, s.confs 1)) =
      some (some (some ['4', '0', '0', '0', '0']), some (some ['4', '0', '0', '0', '0']))) :
    ∃ s, Run (Step plainHost) fresh ls s ∧ ¬ UniqueContexts s := by
  rw [Option.map_eq_some_iff] at hrun
  obtain ⟨s, hs, hconfs⟩ := hrun
  obtain ⟨h0, h1⟩ := Prod.mk.inj hconfs
  refine ⟨s, run_of_runLabels hs, fun hunique => ?_⟩
  have hnum : number ['4', '0', '0', '0', '0'] = some 40000 := by decide +kernel
  have h01 := hunique 0 1 40000 ⟨_, h0, hnum⟩ ⟨_, h1, hnum⟩
  omega

theorem contexts_clash : (∀ p, fresh.builds p = none) ∧ UniqueContexts fresh ∧
    (∃ s, Run (Step plainHost) fresh sequentialBuilds s ∧ ¬ UniqueContexts s) ∧
    (∃ s, Run (Step plainHost) fresh interleavedBuilds s ∧ ¬ UniqueContexts s) ∧
    ∃ s, Run (Step plainHost) fresh largeContext s ∧ ¬ WritesRight s := by
  refine ⟨fun _ => rfl, fresh_unique, clash_of_run ?_, clash_of_run ?_, ?_⟩
  · decide +kernel
  · decide +kernel
  · have hrun : (runLabels (next plainHost) largeContext fresh).isSome = true := by
      decide +kernel
    obtain ⟨s, hs⟩ := Option.isSome_iff_exists.mp hrun
    refine ⟨s, run_of_runLabels hs, fun hright => ?_⟩
    cases hs
    obtain ⟨v, hv, hr, -⟩ := hright 0 _ ['6', '0', '0', '0', '0'] rfl rfl nofun
    have hnum : number ['6', '0', '0', '0', '0'] = some 60000 := by decide +kernel
    obtain rfl := Option.some.inj (hnum.symm.trans hv)
    exact absurd hr.2 (by omega)

end StaticContexts
