import UtilVserver.Lib.MakeRun
import UtilVserver.ShellLines

/-!
# Dependencies in `start-vservers`

The script writes a Makefile with one stamp for each vserver and lets `make` start or stop them.

* `verifyVserver`, `worklist`, `rulesFor`, `makefile` — the generated rules.
* `Needs` — the dependencies that the `depends` files declare.
* `StartOrder`, `StopOrder` — what the order of the recipes is to respect, over all runs of `make`.

Rules are written only for the vservers on the command line and those named in their `depends`
files, and only for the lines of a file that have their newline.  Principal result:
`order_iff_covered` (the order is respected exactly when these rules suffice).
-/

set_option autoImplicit false

namespace StartVservers

open CString FileCfg ShellLines MakeRun Relation Transition

/-! ## The configuration -/

/-- The characters that mean nothing to the shell, to `read` and to `make`. -/
def isNameChar (c : Char) : Bool :=
  c.isAlphanum || c == '.' || c == '_' || c == '-' || c == '+' || c == ','

def isName (t : Text) : Bool := t.all isNameChar && t.head?.any (· != '-')

/-- The name of a vserver. -/
structure Name where
  text : Text
  plain : isName text = true

/-- A directory below `__CONFDIR`. -/
structure Vserver where
  name : Name
  /-- Its `vdir` resolves. -/
  vdir : Bool
  /-- The content of `apps/init/depends`. -/
  depends : Option Text
  noBackslash : ∀ file ∈ depends, '\\' ∉ file

structure Confdir where
  /-- `__CONFDIR`. -/
  path : Text
  vservers : List Vserver

def Confdir.find (cfg : Confdir) (t : Text) : Option Vserver :=
  cfg.vservers.find? fun v => v.name.text = t

/-- `vserver-info -q "$__CONFDIR/$1" VDIR`. -/
def vserverInfo (cfg : Confdir) (t : Text) : Bool := (cfg.find t).any Vserver.vdir

/-- `"$__CONFDIR/$vserver"/apps/init/depends`. -/
def dependsPath (cfg : Confdir) (t : Text) : Text :=
  cfg.path ++ "/".toList ++ t ++ "/apps/init/depends".toList

def dependsFile (cfg : Confdir) (t : Text) : Option Text := (cfg.find t).bind Vserver.depends

/-! ## The script -/

/-- `verifyVserver`: the refusal carries the warning, if there is one.  The subject of the `case`
has an `x` in front. -/
def verifyVserver (cfg : Confdir) (name : Text) (mentioned : Option Text) :
    Except (Option Text) Unit :=
  let xtra := mentioned.elim [] fun file => " mentioned in '".toList ++ file ++ "'".toList
  let subject := 'x' :: name
  if "x#".toList <+: subject ∨ subject = "x".toList then .error none
  else if cfg.path ++ "/".toList <+: subject then
    .error (some ("This version of 'start-vservers' supports only short vserver names; ".toList ++
      "try to remove the '".toList ++ cfg.path ++ "' from '".toList ++ name ++ "'".toList ++ xtra))
  else if "/".toList <+: subject then
    .error (some ("This version of 'start-vservers' supports only short vserver names; '".toList ++
      name ++ "'".toList ++ xtra ++ " is not possible".toList))
  else if vserverInfo cfg name then .ok ()
  else .error (some ("Vserver '".toList ++ name ++ "'".toList ++ xtra ++
    " does not exist; skipping it...".toList))

/-- The names of a list that are accepted. -/
def verified (cfg : Confdir) (mentioned : Option Text) (ts : List Text) : List Text :=
  ts.filter fun t => (verifyVserver cfg t mentioned).toBool

inductive Flavor where
  | start
  | stop

/-- A rule without a recipe; the stamps stand for their vservers. -/
structure Rule where
  target : Text
  prereqs : List Text
  deriving DecidableEq

/-- The Makefile: the prerequisites of `all`, and the rules behind it. -/
structure Makefile where
  all : List Text
  rules : List Rule
  deriving DecidableEq

/-- What the first loop feeds to `sort -u`. -/
def namesStream (cfg : Confdir) (vservers : List Name) : Text :=
  vservers.flatMap fun i => i.text ++ '\n' :: (dependsFile cfg i.text).getD []

/-- The vservers the second loop writes rules for. -/
def worklist (cfg : Confdir) (vservers : List Name) : List Text :=
  verified cfg none ((sortLines (namesStream cfg vservers)).map trim)

/-- The rules of one vserver. -/
def rulesFor (cfg : Confdir) (flavor : Flavor) (vserver : Text) : List Rule :=
  match dependsFile cfg vserver with
  | none => []
  | some file =>
    let deps := verified cfg (some (dependsPath cfg vserver)) (readLines file)
    match flavor with
    | .start => [⟨vserver, deps⟩]
    | .stop => deps.map fun dep => ⟨dep, [vserver]⟩

def makefile (cfg : Confdir) (flavor : Flavor) (vservers : List Name) : Makefile :=
  ⟨verified cfg none (vservers.map Name.text),
    (worklist cfg vservers).flatMap (rulesFor cfg flavor)⟩

/-- What `make` takes from the Makefile; the prerequisites of several rules for one target add
up. -/
def Makefile.toRules (m : Makefile) : Rules Text where
  goals := m.all
  prereqs t := (m.rules.filter fun r => r.target = t).flatMap Rule.prereqs

def rules (cfg : Confdir) (flavor : Flavor) (vservers : List Name) : Rules Text :=
  (makefile cfg flavor vservers).toRules

/-! ## The dependencies -/

/-- The names in the `depends` file of a vserver. -/
def dependsNames (cfg : Confdir) (t : Text) : List Text :=
  (((dependsFile cfg t).getD []).splitOn '\n').map trim

/-- `v` declares that it depends on `w`; both exist. -/
def Needs (cfg : Confdir) (v w : Text) : Prop :=
  vserverInfo cfg v = true ∧ vserverInfo cfg w = true ∧ w ∈ dependsNames cfg v

/-- The requested vservers that exist. -/
def Requested (cfg : Confdir) (vservers : List Name) (t : Text) : Prop :=
  (∃ i ∈ vservers, i.text = t) ∧ vserverInfo cfg t = true

/-- A line of what the first loop writes: the names on the command line, and the `depends` files of
the vservers named there. -/
def Listed (cfg : Confdir) (vservers : List Name) (t : Text) : Prop :=
  t ∈ (textLines (namesStream cfg vservers)).map trim

/-- A dependency of a listed vserver, in a line that has its newline. -/
def RuleNeeds (cfg : Confdir) (vservers : List Name) (v w : Text) : Prop :=
  Listed cfg vservers v ∧ Needs cfg v w ∧ w ∈ readLines ((dependsFile cfg v).getD [])

/-- **Starting**: whatever a requested vserver depends on is made, and no start command is executed
before everything its vserver depends on was started or found running. -/
structure StartOrder (cfg : Confdir) (vservers : List Name) : Prop where
  targets : ∀ r u, Requested cfg vservers r → TransGen (Needs cfg) r u →
    (rules cfg .start vservers).Target u
  order : ∀ es t s, Run (rules cfg .start vservers).Step init (es ++ [.exec t]) s →
    ∀ u, TransGen (Needs cfg) t u → Finished u es

/-- **Stopping**: no stop command is executed before every requested vserver that depends on its
vserver was stopped or found stopped. -/
def StopOrder (cfg : Confdir) (vservers : List Name) : Prop :=
  ∀ es t s, Run (rules cfg .stop vservers).Step init (es ++ [.exec t]) s →
    ∀ r, Requested cfg vservers r → TransGen (Needs cfg) r t → Finished r es

/-- What is made because of a requested vserver reaches everything it depends on over dependencies
that have a rule. -/
def StartCovered (cfg : Confdir) (vservers : List Name) : Prop :=
  ∀ r t u, Requested cfg vservers r → ReflTransGen (RuleNeeds cfg vservers) r t →
    TransGen (Needs cfg) t u → TransGen (RuleNeeds cfg vservers) t u

/-- A requested vserver reaches what it depends on over dependencies that have a rule, whenever that
is requested or reaches a requested vserver in this way. -/
def StopCovered (cfg : Confdir) (vservers : List Name) : Prop :=
  ∀ r t, Requested cfg vservers r → TransGen (Needs cfg) r t →
    (∃ r', Requested cfg vservers r' ∧ ReflTransGen (RuleNeeds cfg vservers) t r') →
    TransGen (RuleNeeds cfg vservers) r t

/-! ## Names -/

theorem not_mem_name {t : Text} (h : isName t = true) {c : Char} (hc : isNameChar c = false) :
    c ∉ t := by
  intro hmem
  simp only [isName, Bool.and_eq_true, List.all_eq_true] at h
  rw [h.1 c hmem] at hc
  cases hc

theorem name_ne_nil {t : Text} (h : isName t = true) : t ≠ [] := by
  rintro rfl
  cases h

theorem trim_name {t : Text} (h : isName t = true) : trim t = t := by
  have hblank : ∀ c ∈ t, isBlank c = false := by
    intro c hc
    cases hb : isBlank c with
    | false => rfl
    | true =>
      refine absurd hc (not_mem_name h ?_)
      simp only [isBlank, Bool.or_eq_true, beq_iff_eq] at hb
      rcases hb with rfl | rfl <;> decide
  rw [trim, List.dropWhile_eq_self_iff.2 fun hl => by simp [hblank _ (List.getElem_mem hl)],
    List.rdropWhile_eq_self_iff]
  intro hne
  simp [hblank _ (List.getLast_mem hne)]

theorem find_some {cfg : Confdir} {t : Text} {v : Vserver} (h : cfg.find t = some v) :
    v ∈ cfg.vservers ∧ v.name.text = t := by
  rw [Confdir.find] at h
  have hname := List.find?_some h
  exact ⟨List.mem_of_find?_eq_some h, of_decide_eq_true hname⟩

/-- Only names belong to a vserver. -/
theorem name_of_vserverInfo {cfg : Confdir} {t : Text} (h : vserverInfo cfg t = true) :
    isName t = true := by
  rw [vserverInfo, Option.any_eq_true] at h
  obtain ⟨v, hv, -⟩ := h
  rw [← (find_some hv).2]
  exact v.name.plain

/-- **What is accepted**: the vservers that exist. -/
theorem verifyVserver_toBool (cfg : Confdir) (t : Text) (mentioned : Option Text) :
    (verifyVserver cfg t mentioned).toBool = vserverInfo cfg t := by
  cases h : vserverInfo cfg t with
  | false =>
    unfold verifyVserver
    simp only [h, Bool.false_eq_true, if_false]
    split_ifs <;> rfl
  | true =>
    have hname := name_of_vserverInfo h
    have hcomment : ¬ ("x#".toList <+: 'x' :: t ∨ 'x' :: t = "x".toList) := by
      rintro (⟨r, hr⟩ | hr)
      · have ht : '#' :: r = t := (List.cons.inj hr).2
        exact not_mem_name hname (c := '#') (by decide) (ht ▸ List.mem_cons_self)
      · exact name_ne_nil hname (List.cons.inj hr).2
    have hslash : '/' ∉ 'x' :: t := by
      rw [List.mem_cons]
      rintro (hx | ht)
      · exact absurd hx (by decide)
      · exact not_mem_name hname (c := '/') (by decide) ht
    have hconf : ¬ cfg.path ++ "/".toList <+: 'x' :: t := fun hp =>
      hslash (hp.subset (List.mem_append_right _ List.mem_cons_self))
    have habs : ¬ "/".toList <+: 'x' :: t := fun hp => hslash (hp.subset List.mem_cons_self)
    unfold verifyVserver
    simp only [if_neg hcomment, if_neg hconf, if_neg habs, h, if_true]
    rfl

theorem mem_verified {cfg : Confdir} {mentioned : Option Text} {ts : List Text} {t : Text} :
    t ∈ verified cfg mentioned ts ↔ t ∈ ts ∧ vserverInfo cfg t = true := by
  rw [verified, List.mem_filter, verifyVserver_toBool]

/-! ## The rules -/

section Rules

variable {cfg : Confdir} {vservers : List Name}

/-- The second loop runs over the listed vservers. -/
theorem mem_worklist {t : Text} :
    t ∈ worklist cfg vservers ↔ Listed cfg vservers t ∧ vserverInfo cfg t = true := by
  simp only [worklist, mem_verified, List.mem_map, mem_sortLines, Listed]

/-- `read` delivers names that stand in the file. -/
theorem dependsNames_of_read {v w : Text} (h : w ∈ readLines ((dependsFile cfg v).getD [])) :
    w ∈ dependsNames cfg v := by
  obtain ⟨line, hline, rfl⟩ := List.mem_map.1 h
  exact List.mem_map_of_mem (List.mem_of_mem_dropLast hline)

/-- What the inner loops write for a listed vserver. -/
theorem ruleNeeds_iff {v w : Text} :
    RuleNeeds cfg vservers v w ↔ v ∈ worklist cfg vservers ∧ ∃ file, dependsFile cfg v = some file ∧
      w ∈ verified cfg (some (dependsPath cfg v)) (readLines file) := by
  simp only [RuleNeeds, mem_worklist, mem_verified, Needs]
  constructor
  · rintro ⟨hl, ⟨hv, hw, -⟩, hread⟩
    cases hfile : dependsFile cfg v with
    | none => rw [hfile] at hread; simp [readLines] at hread
    | some file =>
      rw [hfile] at hread
      exact ⟨⟨hl, hv⟩, file, rfl, hread, hw⟩
  · rintro ⟨⟨hl, hv⟩, file, hfile, hread, hw⟩
    have hread' : w ∈ readLines ((dependsFile cfg v).getD []) := by rwa [hfile]
    exact ⟨hl, ⟨hv, hw, dependsNames_of_read hread'⟩, hread'⟩

theorem mem_prereqs (m : Makefile) (t p : Text) :
    m.toRules.Pre t p ↔ ∃ r ∈ m.rules, r.target = t ∧ p ∈ r.prereqs := by
  simp [Rules.Pre, Makefile.toRules, and_assoc]

theorem pre_start : (rules cfg .start vservers).Pre = RuleNeeds cfg vservers := by
  funext t p
  rw [rules, mem_prereqs, ruleNeeds_iff]
  simp only [makefile, List.mem_flatMap]
  refine propext ⟨?_, ?_⟩
  · rintro ⟨r, ⟨v, hv, hr⟩, rfl, hp⟩
    unfold rulesFor at hr
    split at hr
    · cases hr
    · rename_i file hfile
      obtain rfl := List.mem_singleton.1 hr
      exact ⟨hv, file, hfile, hp⟩
  · rintro ⟨ht, file, hfile, hp⟩
    refine ⟨⟨t, verified cfg (some (dependsPath cfg t)) (readLines file)⟩, ⟨t, ht, ?_⟩, rfl, hp⟩
    rw [rulesFor, hfile]
    exact List.mem_singleton_self _

theorem pre_stop : (rules cfg .stop vservers).Pre = Function.swap (RuleNeeds cfg vservers) := by
  funext t p
  show (rules cfg .stop vservers).Pre t p = RuleNeeds cfg vservers p t
  rw [rules, mem_prereqs, ruleNeeds_iff]
  simp only [makefile, List.mem_flatMap]
  refine propext ⟨?_, ?_⟩
  · rintro ⟨r, ⟨v, hv, hr⟩, rfl, hp⟩
    unfold rulesFor at hr
    split at hr
    · cases hr
    · rename_i file hfile
      obtain ⟨dep, hdep, rfl⟩ := List.mem_map.1 hr
      obtain rfl := List.mem_singleton.1 hp
      exact ⟨hv, file, hfile, hdep⟩
  · rintro ⟨hp, file, hfile, ht⟩
    refine ⟨⟨t, [p]⟩, ⟨p, hp, ?_⟩, rfl, List.mem_singleton_self p⟩
    rw [rulesFor, hfile]
    exact List.mem_map_of_mem ht

theorem mem_goals {flavor : Flavor} {t : Text} :
    t ∈ (rules cfg flavor vservers).goals ↔ Requested cfg vservers t := by
  show t ∈ verified cfg none (vservers.map Name.text) ↔ _
  rw [mem_verified, List.mem_map]
  rfl

/-- What is made hangs on a requested vserver. -/
theorem target_iff {flavor : Flavor} {t : Text} :
    (rules cfg flavor vservers).Target t ↔
      ∃ r, Requested cfg vservers r ∧ ReflTransGen (rules cfg flavor vservers).Pre r t := by
  constructor
  · intro h
    induction h with
    | goal h => exact ⟨_, mem_goals.1 h, ReflTransGen.refl⟩
    | prereq _ hp ih =>
      obtain ⟨r, hr, hpath⟩ := ih
      exact ⟨r, hr, hpath.tail hp⟩
  · rintro ⟨r, hr, hpath⟩
    induction hpath with
    | refl => exact Rules.Target.goal (mem_goals.2 hr)
    | tail _ hp ih => exact ih.prereq hp

/-- The dependencies that have a rule lead nowhere in a circle. -/
theorem ruleNeeds_wellFounded (hacyc : ∀ v, ¬ TransGen (Needs cfg) v v) :
    WellFounded (RuleNeeds cfg vservers) ∧ WellFounded (Function.swap (RuleNeeds cfg vservers)) := by
  have hfin : {t | vserverInfo cfg t = true}.Finite := by
    refine Set.Finite.subset (cfg.vservers.map fun v => v.name.text).finite_toSet ?_
    intro t ht
    rw [Set.mem_ofPred_eq, vserverInfo, Option.any_eq_true] at ht
    obtain ⟨v, hv, -⟩ := ht
    obtain ⟨hmem, hname⟩ := find_some hv
    exact List.mem_map.2 ⟨v, hmem, hname⟩
  have hneeds (v w : Text) (h : RuleNeeds cfg vservers v w) : Needs cfg v w := h.2.1
  have hrules (v : Text) : ¬ TransGen (RuleNeeds cfg vservers) v v := fun h =>
    hacyc v (TransGen.mono hneeds v v h)
  constructor
  · exact wellFounded_of_acyclic hfin (fun v w h => ⟨h.2.1.1, h.2.1.2.1⟩) hrules
  · refine wellFounded_of_acyclic hfin (fun v w h => ⟨h.2.1.2.1, h.2.1.1⟩) fun v h => ?_
    exact hrules v (transGen_swap.1 h)

theorem startOrder_iff (hacyc : ∀ v, ¬ TransGen (Needs cfg) v v) :
    StartOrder cfg vservers ↔ StartCovered cfg vservers := by
  have hwf : WellFounded fun p t => (rules cfg .start vservers).Pre t p := by
    rw [pre_start]
    exact (ruleNeeds_wellFounded hacyc).2
  constructor
  · intro horder r t u hr hrt htu
    by_contra hnot
    have ht : (rules cfg .start vservers).Target t := by
      refine target_iff.2 ⟨r, hr, ?_⟩
      rwa [pre_start]
    -- `t` can be started as soon as its rules allow it
    obtain ⟨es, s, hrun, hleast⟩ := exists_exec hwf ht
    refine hleast u ?_ (horder.order es t s hrun u htu)
    rwa [pre_start]
  · intro hcov
    refine ⟨?_, ?_⟩
    · intro r u hr hru
      refine target_iff.2 ⟨r, hr, ?_⟩
      rw [pre_start]
      exact (hcov r r u hr ReflTransGen.refl hru).to_reflTransGen
    · intro es t s hrun u htu
      obtain ⟨r, hr, hrt⟩ := target_iff.1 (target_of_exec hrun)
      rw [pre_start] at hrt
      refine finished_of_exec hrun ?_
      rw [pre_start]
      exact hcov r t u hr hrt htu

theorem stopOrder_iff (hacyc : ∀ v, ¬ TransGen (Needs cfg) v v) :
    StopOrder cfg vservers ↔ StopCovered cfg vservers := by
  have hwf : WellFounded fun p t => (rules cfg .stop vservers).Pre t p := by
    rw [pre_stop]
    exact (ruleNeeds_wellFounded hacyc).1
  constructor
  · intro horder r t hr hrt htarget
    by_contra hnot
    obtain ⟨r', hr', htr'⟩ := htarget
    have ht : (rules cfg .stop vservers).Target t := by
      refine target_iff.2 ⟨r', hr', ?_⟩
      rw [pre_stop]
      exact htr'.swap
    obtain ⟨es, s, hrun, hleast⟩ := exists_exec hwf ht
    refine hleast r ?_ (horder es t s hrun r hr hrt)
    rw [pre_stop]
    exact fun h => hnot (transGen_swap.1 h)
  · intro hcov es t s hrun r hr hrt
    obtain ⟨r', hr', htr'⟩ := target_iff.1 (target_of_exec hrun)
    rw [pre_stop] at htr'
    have hchain := hcov r t hr hrt ⟨r', hr', htr'.swap⟩
    refine finished_of_exec hrun ?_
    rw [pre_stop]
    exact hchain.swap

/-! ## Files whose lines all have their newline -/

/-- Every `depends` file ends with a newline. -/
def AllTerminated (cfg : Confdir) : Prop :=
  ∀ v ∈ cfg.vservers, ∀ file ∈ v.depends, Terminated file

theorem terminated_dependsFile (hterm : AllTerminated cfg) (t : Text) :
    Terminated ((dependsFile cfg t).getD []) := by
  cases hfile : dependsFile cfg t with
  | none => exact .inl rfl
  | some file =>
    rw [dependsFile, Option.bind_eq_some_iff] at hfile
    obtain ⟨v, hv, hdep⟩ := hfile
    exact hterm v (find_some hv).1 file hdep

/-- The names that `read` delivers are those in the file. -/
theorem mem_dependsNames (hterm : AllTerminated cfg) {v w : Text} (hw : isName w = true) :
    w ∈ dependsNames cfg v ↔ w ∈ readLines ((dependsFile cfg v).getD []) := by
  have hfile := terminated_dependsFile hterm v
  have hsplit := hfile.splitOn []
  rw [List.append_nil, List.splitOn_nil] at hsplit
  rw [dependsNames, hsplit, readLines, List.map_append, List.mem_append]
  refine or_iff_left ?_
  intro hempty
  exact name_ne_nil hw (List.mem_singleton.1 hempty)

/-- The listed names stand on the command line or in the `depends` file of a vserver named there. -/
theorem listed_iff (hterm : AllTerminated cfg) {t : Text} (ht : isName t = true) :
    Listed cfg vservers t ↔ ∃ i ∈ vservers, t = i.text ∨ t ∈ dependsNames cfg i.text := by
  have hline (i : Name) : textLines (i.text ++ '\n' :: (dependsFile cfg i.text).getD []) =
      i.text :: textLines ((dependsFile cfg i.text).getD []) :=
    textLines_line (not_mem_name i.plain (by decide)) _ (terminated_dependsFile hterm i.text)
  have hchunk (i : Name) : Terminated (i.text ++ '\n' :: (dependsFile cfg i.text).getD []) := by
    rw [← List.singleton_append, ← List.append_assoc]
    exact Terminated.append (.inr ⟨i.text, rfl⟩) (terminated_dependsFile hterm i.text)
  obtain ⟨-, hlines⟩ := textLines_flatMap
    (fun i : Name => i.text ++ '\n' :: (dependsFile cfg i.text).getD []) vservers
    (fun i _ => hchunk i)
  have hread (i : Name) := (terminated_dependsFile hterm i.text).readLines
  simp only [Listed, namesStream, hlines, hline, List.mem_map, List.mem_flatMap, List.mem_cons,
    mem_dependsNames hterm ht, hread]
  constructor
  · rintro ⟨line, ⟨i, hi, rfl | hl⟩, rfl⟩
    · exact ⟨i, hi, .inl (trim_name i.plain)⟩
    · exact ⟨i, hi, .inr ⟨line, hl, rfl⟩⟩
  · rintro ⟨i, hi, rfl | ⟨line, hl, rfl⟩⟩
    · exact ⟨i.text, ⟨i, hi, .inl rfl⟩, trim_name i.plain⟩
    · exact ⟨line, ⟨i, hi, .inr hl⟩, rfl⟩

/-- Every dependency of a listed vserver has a rule. -/
theorem ruleNeeds_of_listed (hterm : AllTerminated cfg) {v w : Text}
    (hl : Listed cfg vservers v) (hvw : Needs cfg v w) : RuleNeeds cfg vservers v w :=
  ⟨hl, hvw, (mem_dependsNames hterm (name_of_vserverInfo hvw.2.1)).1 hvw.2.2⟩

theorem Requested.listed (hterm : AllTerminated cfg) {t : Text} (h : Requested cfg vservers t) :
    Listed cfg vservers t := by
  refine (listed_iff hterm (name_of_vserverInfo h.2)).2 ?_
  obtain ⟨⟨i, hi, rfl⟩, -⟩ := h
  exact ⟨i, hi, .inl rfl⟩

/-- Starting is covered when every vserver that a requested one depends on is listed or depends on
nothing itself. -/
theorem startCovered_iff (hterm : AllTerminated cfg) :
    StartCovered cfg vservers ↔ ∀ r v w, Requested cfg vservers r → TransGen (Needs cfg) r v →
      Needs cfg v w → Listed cfg vservers v := by
  constructor
  · intro hcov r v w hr hrv hvw
    have hpath := (hcov r r v hr ReflTransGen.refl hrv).to_reflTransGen
    obtain ⟨x, hvx, -⟩ := TransGen.head'_iff.1 (hcov r v w hr hpath (TransGen.single hvw))
    exact hvx.1
  · intro hlisted r t u hr hrt htu
    have hrule {v w : Text} (hrv : ReflTransGen (Needs cfg) r v) (hvw : Needs cfg v w) :
        RuleNeeds cfg vservers v w := by
      rcases reflTransGen_iff_eq_or_transGen.1 hrv with rfl | hrv
      · exact ruleNeeds_of_listed hterm (hr.listed hterm) hvw
      · exact ruleNeeds_of_listed hterm (hlisted r v w hr hrv hvw) hvw
    have hneeds : ReflTransGen (Needs cfg) r t :=
      ReflTransGen.mono (fun _ _ h => h.2.1) r t hrt
    induction htu with
    | single htu => exact TransGen.single (hrule hneeds htu)
    | tail htv hvw ih => exact ih.tail (hrule (hneeds.trans htv.to_reflTransGen) hvw)

/-- Naming every vserver that has dependencies is enough. -/
theorem covered_of_listed (hterm : AllTerminated cfg)
    (h : ∀ v w, Needs cfg v w → Listed cfg vservers v) :
    StartCovered cfg vservers ∧ StopCovered cfg vservers := by
  have hrule (v w : Text) (hvw : Needs cfg v w) : RuleNeeds cfg vservers v w :=
    ruleNeeds_of_listed hterm (h v w hvw) hvw
  exact ⟨fun _ t u _ _ htu => TransGen.mono hrule t u htu,
    fun r t _ hrt _ => TransGen.mono hrule r t hrt⟩

end Rules

/-- **The exact condition**, for dependencies without cycles. -/
theorem order_iff_covered {cfg : Confdir} (hacyc : ∀ v, ¬ TransGen (Needs cfg) v v)
    (vservers : List Name) :
    StartOrder cfg vservers ∧ StopOrder cfg vservers ↔
      StartCovered cfg vservers ∧ StopCovered cfg vservers :=
  and_congr (startOrder_iff hacyc) (stopOrder_iff hacyc)

/-- A vserver that is there, with at most one dependency. -/
def entry (name : Name) (dep : Option Name) : Vserver where
  name := name
  vdir := true
  depends := dep.map fun d => d.text ++ ['\n']
  noBackslash := by
    intro file hfile
    obtain ⟨d, -, rfl⟩ := Option.map_eq_some_iff.1 hfile
    rw [List.mem_append, not_or]
    exact ⟨not_mem_name d.plain (by decide), by decide⟩

def nameA : Name := ⟨['a'], rfl⟩
def nameB : Name := ⟨['b'], rfl⟩
def nameC : Name := ⟨['c'], rfl⟩
def nameD : Name := ⟨['d'], rfl⟩

def chainEntries : List (Name × Option Name) :=
  [(nameA, some nameB), (nameB, some nameC), (nameC, some nameD), (nameD, none)]

/-- `a` depends on `b`, `b` on `c` and `c` on `d`. -/
def chain : Confdir where
  path := "/etc/vservers".toList
  vservers := chainEntries.map fun p => entry p.1 p.2

theorem chain_terminated : AllTerminated chain := by
  intro v hv file hfile
  obtain ⟨p, -, rfl⟩ := List.mem_map.1 hv
  obtain ⟨d, -, rfl⟩ := Option.map_eq_some_iff.1 hfile
  exact .inr ⟨d.text, rfl⟩

/-- The dependencies of the chain. -/
theorem chain_needs {v w : Text} (h : Needs chain v w) :
    (v, w) ∈ [(['a'], ['b']), (['b'], ['c']), (['c'], ['d'])] := by
  obtain ⟨hv, hw, hmem⟩ := h
  rw [vserverInfo, Option.any_eq_true] at hv
  obtain ⟨x, hx, -⟩ := hv
  obtain ⟨p, hp, rfl⟩ := List.mem_map.1 (find_some hx).1
  obtain rfl := (find_some hx).2
  have hnames : ∀ p ∈ chainEntries, ∀ w ∈ dependsNames chain p.1.text,
      w = [] ∨ (p.1.text, w) ∈ [(['a'], ['b']), (['b'], ['c']), (['c'], ['d'])] := by decide
  exact (hnames p hp w hmem).resolve_left (name_ne_nil (name_of_vserverInfo hw))

theorem chain_acyclic (v : Text) : ¬ TransGen (Needs chain) v v := by
  intro h
  have hlt : ∀ p ∈ [(['a'], ['b']), (['b'], ['c']), (['c'], ['d'])],
      (p.1.headD 'a').toNat < (p.2.headD 'a').toNat := by decide
  have hrank := h.lift (p := fun a b : Nat => a < b) (fun t => (t.headD 'a').toNat)
    fun a b hab => hlt (a, b) (chain_needs hab)
  rw [transGen_eq_self] at hrank
  exact Nat.lt_irrefl _ hrank

/-- With `a` and `c` on the command line all rules of the chain are written. -/
theorem order_of_chain : StartOrder chain [nameA, nameC] ∧ StopOrder chain [nameA, nameC] := by
  refine (order_iff_covered chain_acyclic [nameA, nameC]).2
    (covered_of_listed chain_terminated fun v w h => ?_)
  have hlisted : ∀ p ∈ [(['a'], ['b']), (['b'], ['c']), (['c'], ['d'])],
      p.1 ∈ (textLines (namesStream chain [nameA, nameC])).map trim := by decide
  exact hlisted (v, w) (chain_needs h)

/-- With `a` alone on the command line, `c` is started without `d`; with `a` and `d` there, `d` is
stopped before `a`. -/
theorem chain_loses_dependency :
    ¬ StartOrder chain [nameA] ∧ ¬ StopOrder chain [nameA, nameD] := by
  have hab : Needs chain ['a'] ['b'] := by unfold Needs; decide
  have hbc : Needs chain ['b'] ['c'] := by unfold Needs; decide
  have hcd : Needs chain ['c'] ['d'] := by unfold Needs; decide
  have hchain : TransGen (Needs chain) ['a'] ['c'] := (TransGen.single hab).tail hbc
  rw [startOrder_iff chain_acyclic, stopOrder_iff chain_acyclic, startCovered_iff chain_terminated]
  constructor
  · intro hcov
    have hunlisted : ¬ Listed chain [nameA] ['c'] := by unfold Listed; decide
    exact hunlisted (hcov ['a'] ['c'] ['d'] ⟨⟨nameA, by simp, rfl⟩, by decide⟩ hchain hcd)
  · intro hcov
    have hunlisted : ¬ Listed chain [nameA, nameD] ['c'] := by unfold Listed; decide
    have hlast := hcov ['a'] ['d'] ⟨⟨nameA, by simp, rfl⟩, by decide⟩ (hchain.tail hcd)
      ⟨['d'], ⟨⟨nameD, by simp, rfl⟩, by decide⟩, ReflTransGen.refl⟩
    obtain ⟨c, -, hlisted, hneeds, -⟩ := TransGen.tail'_iff.1 hlast
    have honly := chain_needs hneeds
    simp only [List.mem_cons, Prod.mk.injEq, List.not_mem_nil, or_false] at honly
    obtain rfl : c = ['c'] := by simpa using honly
    exact hunlisted hlisted

end StartVservers
