import UtilVserver.PathInfo

/-!
# `initMtab` (`src/vserver-start/mount.c`)

The process reads the template and writes it into a pipe; a forked process changes into the guest,
reads the pipe and writes `/etc/mtab`.  The result of a write is not looked at.

* `findMtab`, `step`, `run` — the code: the two processes take their steps in any order, a read
  returns any part of what is there, and a write takes any part of what it is given.
* `kept` — the bytes that the forked process has written.
* `Inv` — what holds after any steps.

Principal results: `run_inv` and `initMtab_exact`.
-/

set_option autoImplicit false

namespace InitMtab

open CString PathInfo

abbrev Bytes := List UInt8

/-- What `findMtab` looks at. -/
structure Files where
  isFile : Text → Bool
  content : Text → Bytes
  CONFDIR : Text
  PKGLIBDEFAULTDIR : Text

/-- `findMtab`. -/
def findMtab (fs : Files) (vserverMtab : Text) : Option Text :=
  if fs.isFile vserverMtab then some vserverMtab
  else if fs.isFile (fs.CONFDIR ++ "/.defaults/init/mtab".toList) then
    some (fs.CONFDIR ++ "/.defaults/init/mtab".toList)
  else if fs.isFile (fs.PKGLIBDEFAULTDIR ++ "/mtab".toList) then
    some (fs.PKGLIBDEFAULTDIR ++ "/mtab".toList)
  else none

/-- The template for a configuration; without one, nothing is written into the pipe. -/
def template (fs : Files) (cfgdir : Text) : Bytes :=
  match findMtab fs (append cfgdir "apps/init/mtab".toList) with
  | some mtab => fs.content mtab
  | none => []

def BUF_SIZE : Nat := 4096

/-- The process itself; `rest` of the template has not been read. -/
inductive Parent where
  | reading (rest : Bytes)
  | writing (buf rest : Bytes)
  /-- The pipe is closed, and it waits for the other process. -/
  | waiting
  | returned
  | exited
  deriving DecidableEq

/-- The forked process. -/
inductive Child where
  | opening
  | reading
  | writing (buf : Bytes)
  | done
  | failed
  deriving DecidableEq

structure State where
  parent : Parent
  child : Child
  pipe : Bytes
  /-- `/etc/mtab` in the guest, and where the next write goes. -/
  file : Option Bytes
  off : Nat

/-- A write takes `taken` and leaves `left`. -/
inductive Action where
  | parentRead (n : Nat)
  | parentWrite (taken left : Bytes)
  | parentClose
  | parentFail
  | childOpen
  | childRead (n : Nat)
  | childWrite (taken left : Bytes)
  | childEof
  | childFail
  | wait

/-- The content with `bs` written at `off`. -/
def writeAt (content : Bytes) (off : Nat) (bs : Bytes) : Bytes :=
  content.take off ++ bs ++ content.drop (off + bs.length)

/-- The process has the end of the pipe open for writing. -/
def Parent.writes : Parent → Bool
  | .reading _ | .writing _ _ => true
  | .waiting | .returned | .exited => false

def step (s : State) : Action → Option State
  | .parentRead n =>
    match s.parent with
    | .reading rest =>
      if rest ≠ [] ∧ 0 < n ∧ n ≤ BUF_SIZE then
        some { s with parent := .writing (rest.take n) (rest.drop n) }
      else none
    | _ => none
  | .parentWrite taken left =>
    match s.parent with
    | .writing buf rest =>
      -- without a reader, the write is the end of the process
      if buf = taken ++ left ∧ taken ≠ [] ∧ s.child ≠ .failed then
        some { s with parent := .reading rest, pipe := s.pipe ++ taken }
      else none
    | _ => none
  | .parentClose => if s.parent = .reading [] then some { s with parent := .waiting } else none
  | .parentFail => if s.parent.writes then some { s with parent := .exited } else none
  | .childOpen =>
    -- `O_WRONLY|O_CREAT`
    if s.child = .opening then some { s with child := .reading, file := some (s.file.getD []) }
    else none
  | .childRead n =>
    if s.child = .reading ∧ s.pipe ≠ [] ∧ 0 < n ∧ n ≤ BUF_SIZE then
      some { s with child := .writing (s.pipe.take n), pipe := s.pipe.drop n }
    else none
  | .childWrite taken left =>
    match s.child with
    | .writing buf =>
      if buf = taken ++ left ∧ taken ≠ [] then
        some { s with
          child := .reading
          file := s.file.map fun f => writeAt f s.off taken
          off := s.off + taken.length }
      else none
    | _ => none
  | .childEof =>
    if s.child = .reading ∧ s.pipe = [] ∧ s.parent.writes = false then
      some { s with child := .done }
    else none
  | .childFail =>
    if s.child ≠ .done ∧ s.child ≠ .failed then some { s with child := .failed } else none
  | .wait =>
    if s.parent = .waiting then
      match s.child with
      | .done => some { s with parent := .returned }
      | .failed => some { s with parent := .exited }
      | _ => none
    else none

def run (s : State) (as : List Action) : Option State := as.foldlM step s

/-- Behind `fork`. -/
def State.init (template : Bytes) (old : Option Bytes) : State :=
  ⟨.reading template, .opening, [], old, 0⟩

/-- A run of `initMtab` that returns. -/
structure Returns (template : Bytes) (old : Option Bytes) where
  actions : List Action
  state : State
  runs : run (.init template old) actions = some state
  returned : state.parent = .returned

/-! ## What is written -/

/-- A write leaves nothing. -/
def Action.complete : Action → Bool
  | .parentWrite _ left | .childWrite _ left => left = []
  | _ => true

/-- The bytes that the forked process has written. -/
def kept (as : List Action) : Bytes :=
  as.flatMap fun
    | .childWrite taken _ => taken
    | _ => []

/-- What has been read from the template or not, but not been written into the pipe. -/
def Parent.ahead : Parent → Bytes
  | .reading rest => rest
  | .writing buf rest => buf ++ rest
  | .waiting | .returned | .exited => []

def Child.buf : Child → Bytes
  | .writing buf => buf
  | _ => []

/-- The file is the written bytes and what the old file has behind them; if no write was short, the
template is what is written and what is on its way. -/
structure Inv (template : Bytes) (old : Option Bytes) (as : List Action) (s : State) : Prop where
  unopened : s.child = .opening → kept as = [] ∧ s.file = old ∧ s.off = 0
  file : s.child ≠ .opening → s.child ≠ .failed →
    s.file = some (kept as ++ (old.getD []).drop (kept as).length) ∧ s.off = (kept as).length
  flow : s.parent ≠ .exited → s.child ≠ .failed → (∀ a ∈ as, a.complete = true) →
    template = kept as ++ (s.child.buf ++ (s.pipe ++ s.parent.ahead))
  done : s.child = .done → s.pipe = [] ∧ s.parent.writes = false
  returned : s.parent = .returned → s.child = .done

theorem writeAt_end (content taken rest : Bytes) :
    writeAt (content ++ rest) content.length taken =
      content ++ taken ++ rest.drop taken.length := by
  rw [writeAt, List.take_left, ← List.drop_drop, List.drop_left]

/-- An action that writes nothing to the file. -/
def Action.quiet : Action → Bool
  | .childWrite _ _ => false
  | _ => true

theorem kept_quiet (as : List Action) {a : Action} (h : a.quiet = true) :
    kept (as ++ [a]) = kept as := by
  rw [kept, kept, List.flatMap_append]
  cases a with
  | childWrite taken left => cases h
  | _ => simp

theorem kept_write (as : List Action) (taken left : Bytes) :
    kept (as ++ [.childWrite taken left]) = kept as ++ taken := by
  simp [kept]

theorem complete_concat {as : List Action} {a : Action}
    (h : ∀ x ∈ as ++ [a], x.complete = true) :
    (∀ x ∈ as, x.complete = true) ∧ a.complete = true :=
  ⟨fun x hx => h x (List.mem_append_left _ hx), h a (by simp)⟩

variable {tmpl : Bytes} {old : Option Bytes} {as : List Action} {s s' : State}

/-- A step of the process itself, which moves bytes towards the pipe. -/
theorem Inv.parent {a : Action} {p : Parent} {pipe : Bytes} (h : Inv tmpl old as s)
    (hquiet : a.quiet = true) (hs : s.parent.writes = true)
    (hflow : p ≠ .exited → s.child ≠ .failed → a.complete = true →
      pipe ++ p.ahead = s.pipe ++ s.parent.ahead)
    (hret : p ≠ .returned) : Inv tmpl old (as ++ [a]) { s with parent := p, pipe := pipe } := by
  have hchild : s.child ≠ .done := fun hdone => by
    rw [(h.done hdone).2] at hs
    cases hs
  have hparent : s.parent ≠ .exited := fun hexited => by
    rw [hexited] at hs
    cases hs
  refine ⟨?_, ?_, fun hp hf hc => ?_, fun hdone => absurd hdone hchild, fun hr => absurd hr hret⟩
  · rw [kept_quiet as hquiet]
    exact h.unopened
  · rw [kept_quiet as hquiet]
    exact h.file
  · obtain ⟨has, ha⟩ := complete_concat hc
    rw [kept_quiet as hquiet]
    simp only
    rw [hflow hp hf ha]
    exact h.flow hparent hf has

theorem step_inv (h : Inv tmpl old as s) {a : Action} (hstep : step s a = some s') :
    Inv tmpl old (as ++ [a]) s' := by
  obtain ⟨parent, child, pipe, file, off⟩ := s
  cases a with
  | parentRead n =>
    simp only [step] at hstep
    split at hstep
    · rename_i rest
      split at hstep
      · cases hstep
        refine h.parent rfl rfl (fun _ _ _ => ?_) (by simp)
        simp [Parent.ahead]
      · cases hstep
    · cases hstep
  | parentWrite taken left =>
    simp only [step] at hstep
    split at hstep
    · rename_i buf rest
      split at hstep
      · rename_i hbuf
        cases hstep
        refine h.parent rfl rfl (fun _ _ hc => ?_) (by simp)
        have hleft : left = [] := by simpa [Action.complete] using hc
        simp [Parent.ahead, hbuf.1, hleft]
      · cases hstep
    · cases hstep
  | parentClose =>
    simp only [step] at hstep
    split at hstep
    · rename_i hp
      cases hp
      cases hstep
      exact h.parent rfl rfl (fun _ _ _ => rfl) (by simp)
    · cases hstep
  | parentFail =>
    simp only [step] at hstep
    split at hstep
    · rename_i hp
      cases hstep
      exact h.parent rfl hp (fun hne => absurd rfl hne) (by simp)
    · cases hstep
  | childOpen =>
    simp only [step] at hstep
    split at hstep
    · rename_i hc
      cases hc
      cases hstep
      obtain ⟨hkept, hfile, hoff⟩ := h.unopened rfl
      refine ⟨(fun hne => by cases hne), fun _ _ => ?_, fun hp _ hall => ?_, (fun hd => by cases hd),
        fun hr => ?_⟩
      · rw [kept_quiet as rfl, hkept]
        exact ⟨by simp only at hfile; rw [hfile]; rfl, hoff⟩
      · rw [kept_quiet as rfl]
        exact h.flow hp (by simp) (complete_concat hall).1
      · cases h.returned hr
    · cases hstep
  | childRead n =>
    simp only [step] at hstep
    split at hstep
    · rename_i hc
      obtain ⟨hc, -, -, -⟩ := hc
      cases hc
      cases hstep
      refine ⟨(fun hne => by cases hne), fun _ _ => ?_, fun hp _ hall => ?_, (fun hd => by cases hd),
        fun hr => ?_⟩
      · rw [kept_quiet as rfl]
        exact h.file (by simp) (by simp)
      · rw [kept_quiet as rfl]
        have hflow := h.flow hp (by simp) (complete_concat hall).1
        simp only [Child.buf, List.nil_append] at hflow ⊢
        rw [hflow, ← List.append_assoc (pipe.take n), List.take_append_drop]
      · cases h.returned hr
    · cases hstep
  | childWrite taken left =>
    simp only [step] at hstep
    split at hstep
    · rename_i buf
      split at hstep
      · rename_i hbuf
        cases hstep
        obtain ⟨hfile, hoff⟩ := h.file (by simp) (by simp)
        simp only at hfile hoff
        refine ⟨(fun hne => by cases hne), fun _ _ => ?_, fun hp _ hall => ?_,
          (fun hd => by cases hd), fun hr => ?_⟩
        · rw [kept_write]
          refine ⟨?_, by simp [hoff]⟩
          simp only [hfile, hoff, Option.map_some]
          rw [writeAt_end, List.drop_drop, List.length_append]
        · obtain ⟨has, hc⟩ := complete_concat hall
          have hleft : left = [] := by simpa [Action.complete] using hc
          have hflow := h.flow hp (by simp) has
          rw [kept_write]
          simp only [Child.buf, hbuf.1, hleft, List.append_nil, List.nil_append] at hflow ⊢
          rw [hflow, List.append_assoc]
        · cases h.returned hr
      · cases hstep
    · cases hstep
  | childEof =>
    simp only [step] at hstep
    split at hstep
    · rename_i hc
      obtain ⟨hc, hpipe, hwrites⟩ := hc
      cases hc
      cases hstep
      refine ⟨(fun hne => by cases hne), fun _ _ => ?_, fun hp _ hall => ?_,
        fun _ => ⟨hpipe, hwrites⟩, fun _ => rfl⟩
      · rw [kept_quiet as rfl]
        exact h.file (by simp) (by simp)
      · rw [kept_quiet as rfl]
        exact h.flow hp (by simp) (complete_concat hall).1
    · cases hstep
  | childFail =>
    simp only [step] at hstep
    split at hstep
    · rename_i hc
      cases hstep
      refine ⟨(fun hne => by cases hne), fun _ hf => absurd rfl hf, fun _ hf => absurd rfl hf,
        (fun hd => by cases hd), fun hr => absurd (h.returned hr) hc.1⟩
    · cases hstep
  | wait =>
    simp only [step] at hstep
    split at hstep
    · rename_i hp
      cases hp
      split at hstep
      · cases hstep
        refine ⟨(fun hne => by cases hne), fun hne hf => ?_, fun _ hf hall => ?_, h.done, fun _ => rfl⟩
        · rw [kept_quiet as rfl]
          exact h.file hne hf
        · rw [kept_quiet as rfl]
          exact h.flow (by simp) hf (complete_concat hall).1
      · cases hstep
        refine ⟨(fun hne => by cases hne), fun _ hf => absurd rfl hf, fun _ hf => absurd rfl hf,
          (fun hd => by cases hd), fun hr => by cases hr⟩
      · cases hstep
    · cases hstep

/-- **What holds after any steps of the two processes.** -/
theorem run_inv {bs : List Action} (h : Inv tmpl old as s) (hrun : run s bs = some s') :
    Inv tmpl old (as ++ bs) s' := by
  induction bs generalizing as s with
  | nil =>
    cases hrun
    rwa [List.append_nil]
  | cons b bs ih =>
    rw [run, List.foldlM_cons] at hrun
    obtain ⟨s₁, hstep, hrest⟩ := Option.bind_eq_some_iff.1 hrun
    have hnext := ih (step_inv h hstep) hrest
    rwa [List.append_assoc, List.singleton_append] at hnext

theorem init_inv (tmpl : Bytes) (old : Option Bytes) : Inv tmpl old [] (.init tmpl old) where
  unopened _ := ⟨rfl, rfl, rfl⟩
  file h _ := absurd rfl h
  flow _ _ _ := rfl
  done h := by cases h
  returned h := by cases h

/-! ## The file -/

/-- The file when `initMtab` returns. -/
theorem returns_file (r : Returns tmpl old) : r.state.file =
      some (kept r.actions ++ (old.getD []).drop (kept r.actions).length) ∧
    ((∀ a ∈ r.actions, a.complete = true) → kept r.actions = tmpl) := by
  have hinv := run_inv (init_inv tmpl old) r.runs
  rw [List.nil_append] at hinv
  have hdone := hinv.returned r.returned
  obtain ⟨hpipe, -⟩ := hinv.done hdone
  refine ⟨(hinv.file (by simp [hdone]) (by simp [hdone])).1, fun hall => ?_⟩
  have hflow := hinv.flow (by simp [r.returned]) (by simp [hdone]) hall
  rw [hdone, hpipe, r.returned] at hflow
  simpa [Child.buf, Parent.ahead] using hflow.symm

/-- No write was short, and the old file is not longer than the template; or what short writes left
out is no loss, since the old file has it where it belongs. -/
def Fits (r : Returns tmpl old) : Prop :=
  if ∀ a ∈ r.actions, a.complete = true then (old.getD []).length ≤ tmpl.length
  else kept r.actions <+: tmpl ∧
    (old.getD []).drop (kept r.actions).length = tmpl.drop (kept r.actions).length

/-- **The file is the template unless the old one is longer, or a write was short.** -/
theorem initMtab_exact (fs : Files) (cfgdir : Text) (old : Option Bytes)
    (r : Returns (template fs cfgdir) old) :
    r.state.file = some (template fs cfgdir) ↔ Fits r := by
  obtain ⟨hfile, hall⟩ := returns_file r
  rw [hfile, Option.some.injEq]
  unfold Fits
  split
  · rename_i hcomplete
    rw [hall hcomplete, List.append_right_eq_self, List.drop_eq_nil_iff]
  · constructor
    · intro h
      have hpre : kept r.actions <+: template fs cfgdir := ⟨_, h⟩
      refine ⟨hpre, ?_⟩
      have hdrop := congrArg (List.drop (kept r.actions).length) h
      rwa [List.drop_left] at hdrop
    · rintro ⟨hpre, hdrop⟩
      rw [hdrop]
      exact List.prefix_iff_eq_append.1 hpre

/-- An old file with two bytes, and a template with one. -/
def longer : Returns [120] (some [97, 98]) where
  actions := [.parentRead 4096, .parentWrite [120] [], .parentClose, .childOpen, .childRead 4096,
    .childWrite [120] [], .childEof, .wait]
  state := ⟨.returned, .done, [], some [120, 98], 1⟩
  runs := rfl
  returned := rfl

/-- The second byte of the old file stays. -/
theorem initMtab_wrong : ¬ ∀ (fs : Files) (cfgdir : Text) (old : Option Bytes)
    (r : Returns (template fs cfgdir) old), r.state.file = some (template fs cfgdir) := by
  intro h
  have hfile : longer.state.file = some [120] :=
    h ⟨fun _ => true, fun _ => [120], [], []⟩ [] (some [97, 98]) longer
  exact absurd hfile (by decide)

end InitMtab
