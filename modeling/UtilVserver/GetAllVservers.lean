import Mathlib.Data.List.Nodup
import UtilVserver.NamespaceCleanup

/-!
# Selecting vservers (`scripts/functions`)

`getAllVserversByArg` goes through its arguments and intersects what `getAllVservers` finds for
each of them.

* `Tools`, `Config` — the shell and its commands, and the directory of the configurations.
* `getAllVservers`, `getAllVserversByArg` — the source.
* `Arg`, `passing` — the selection arguments, and the vservers that satisfy some of them.
* `readArgs` — the arguments with the lists that are used for them.

Principal result: `getAllVserversByArg_intersects`.
-/

set_option autoImplicit false

namespace GetAllVservers

open CString
open NamespaceCleanup (Plain)

/-- The shell and the commands. -/
structure Tools where
  /-- Pathname expansion of a word. -/
  expand : Text → List Text
  expand_plain : ∀ w, Plain w → expand w = [w]
  /-- What `echo` prints of a word. -/
  echo : Text → Text
  /-- `grep -qx`: a line of the file is matched by the pattern. -/
  grep : Text → Text → Bool

/-- An entry of the directory of the configurations; without the file the mark is empty. -/
structure Entry where
  name : Text
  isDir : Bool
  disabled : Bool
  vdir : Bool
  mark : Text
  running : Bool

/-- The directory of the configurations, in its order, as `$__CONFDIR/*` lists it: a name with a dot
in front is no entry. -/
structure Config where
  confdir : Text
  entries : List Entry
  nodup : (entries.map Entry.name).Nodup

inductive Kind where
  | ALL | MARKED | UNMARKED | STOPPED | RUNNING | MARK
  deriving DecidableEq

/-! ## One kind -/

/-- `isRegularFile`: the names that the packaging tools and editors leave behind are excluded. -/
def isRegularFile (path : Text) : Bool :=
  !(".rpmsave".toList.isSuffixOf path || ".rpmnew".toList.isSuffixOf path ||
    ".rpmorig".toList.isSuffixOf path || path.tails.any (".cfsaved".toList.isPrefixOf ·) ||
    ['~'].isSuffixOf path)

/-- The entry is a vserver. -/
def configured (cfg : Config) (e : Entry) : Bool :=
  isRegularFile (cfg.confdir ++ '/' :: e.name) && e.isDir && !e.disabled && e.vdir

/-- `sed 's/^[!~]//'`. -/
def strip : Text → Text
  | '!' :: t => t
  | '~' :: t => t
  | t => t

/-- The fields of a text for `IFS=,`. -/
def commaFields (t : Text) : List Text :=
  let fields := t.splitOn ','
  if fields.getLast? = some [] then fields.dropLast else fields

variable (tools : Tools)

/-- `_ga_marks=( $3 )`. -/
def markList (arg : Text) : List Text := (commaFields arg).flatMap tools.expand

/-- The loop over the marks, with `_ga_f` and `_ga_invert`. -/
def markLoop (content : Text) (st : Bool × Bool) (mark : Text) : Bool × Bool :=
  let name := strip (tools.echo mark)
  (st.1 || (content ≠ [] && tools.grep name content), st.2 || mark ≠ name)

/-- `_ga_doadd`. -/
def doadd (kind : Kind) (arg : Text) (e : Entry) : Bool :=
  match kind with
  | .MARKED => e.mark ≠ []
  | .UNMARKED => e.mark = []
  | .STOPPED => !e.running
  | .RUNNING => e.running
  | .ALL => true
  | .MARK =>
    let r := (markList tools arg).foldl (markLoop tools e.mark) (false, false)
    r.1 != r.2

def getAllVservers (cfg : Config) (kind : Kind) (arg : Text) : List Text :=
  (cfg.entries.filter fun e => configured cfg e && doadd tools kind arg e).map Entry.name

/-! ## The arguments -/

/-- The words of an unquoted text, and the first of them. -/
def words (t : Text) : List Text :=
  ((t.splitOnP fun c => c == ' ' || c == '\t' || c == '\n').filter (· ≠ [])).flatMap tools.expand

def firstWord (t : Text) : Text := (words tools t).headD []

/-- `${t##*=}`. -/
def afterEquals (t : Text) : Text := (t.reverse.takeWhile (· ≠ '=')).reverse

/-- One turn of the inner loop.  What is not there any more is none. -/
def unsetMissing (tmp : List Text) (res : List (Option Text)) (i : Nat) : List (Option Text) :=
  if tmp.any fun j => res.getD i none == some j then res else res.set i none

/-- The inner loop, and the assignment that closes the gaps. -/
def intersect (tmp res : List Text) : List Text :=
  ((List.range res.length).foldl (unsetMissing tmp) (res.map some)).filterMap id

/-- `_gav_first`, `_gav_res` and `_gav_i`. -/
structure State where
  first : Bool
  res : List Text
  gav_i : Text

def start : State := ⟨true, [], []⟩

/-- A number as a text. -/
def decimal (n : Nat) : Text := Nat.toDigits 10 n

/-- The part of the outer loop behind `case`.  The inner loop ends with `_gav_i` equal to
`_gav_n`. -/
def turn (cfg : Config) (kind : Kind) (extra : Text) (st : State) : State :=
  let tmp := getAllVservers tools cfg kind (firstWord tools extra)
  if st.first then ⟨false, tmp, st.gav_i⟩
  else ⟨false, intersect tmp st.res, decimal st.res.length⟩

/-- `_gav_extra` for `--mark`. -/
def extra (st : State) (second : Text) : Text :=
  let extra := afterEquals st.gav_i
  if extra ≠ [] ∧ extra ≠ "--mark".toList then extra else second

/-- What the patterns of the outer `case` make of an argument. -/
inductive Pattern where
  | kind (k : Kind)
  | mark
  | dashes
  | other
  deriving DecidableEq

def pattern (arg : Text) : Pattern :=
  if arg = "--all".toList then .kind .ALL
  else if arg = "--marked".toList then .kind .MARKED
  else if arg = "--unmarked".toList then .kind .UNMARKED
  else if arg = "--stopped".toList then .kind .STOPPED
  else if arg = "--running".toList then .kind .RUNNING
  else if "--mark".toList.isPrefixOf arg then .mark
  else if arg = "--".toList then .dashes
  else .other

/-- `getAllVserversByArg`; none when it returns 1. -/
def getAllVserversByArg (cfg : Config) : List Text → State → Option (List Text)
  | [], st => some st.res
  | arg :: rest, st =>
    match pattern arg with
    | .kind k => getAllVserversByArg cfg rest (turn tools cfg k [] st)
    | .mark =>
      match rest with
      | [] => some (turn tools cfg .MARK (extra st []) st).res
      | second :: rest => getAllVserversByArg cfg rest (turn tools cfg .MARK (extra st second) st)
    | .dashes => some st.res
    | .other => none

/-! ## Selections -/

/-- A selection argument. -/
inductive Arg where
  | all | marked | unmarked | stopped | running
  | mark (list : Text)

def Arg.words : Arg → List Text
  | .all => ["--all".toList]
  | .marked => ["--marked".toList]
  | .unmarked => ["--unmarked".toList]
  | .stopped => ["--stopped".toList]
  | .running => ["--running".toList]
  | .mark list => ["--mark".toList, list]

def Arg.kind : Arg → Kind
  | .all => .ALL
  | .marked => .MARKED
  | .unmarked => .UNMARKED
  | .stopped => .STOPPED
  | .running => .RUNNING
  | .mark _ => .MARK

def Arg.list : Arg → Text
  | .mark list => list
  | _ => []

/-- A vserver has one of the marks of a list. -/
def marked (list : Text) (e : Entry) : Bool :=
  e.mark ≠ [] && (markList tools list).any fun m => tools.grep (strip (tools.echo m)) e.mark

/-- One of the marks of a list is negated. -/
def negated (list : Text) : Bool := (markList tools list).any fun m => m ≠ strip (tools.echo m)

/-- The vserver satisfies the argument; a negated mark in a list asks for those without the marks. -/
def satisfies (e : Entry) : Arg → Bool
  | .all => true
  | .marked => e.mark ≠ []
  | .unmarked => e.mark = []
  | .stopped => !e.running
  | .running => e.running
  | .mark list => if negated tools list then !marked tools list e else marked tools list e

/-- The vservers that satisfy all arguments. -/
def passing (cfg : Config) (args : List Arg) : List Entry :=
  cfg.entries.filter fun e => configured cfg e && args.all (satisfies tools e)

/-- The result is the intersection. -/
def Selects (cfg : Config) (args : List Arg) : Prop :=
  ∃ r, getAllVserversByArg tools cfg (args.flatMap Arg.words) start = some r ∧
    r = (passing tools cfg args).map Entry.name ∧ r.Nodup

/-- An argument with the list that is used for it behind others: for the first two arguments the
first word of its own, and from the third on the number of the vservers that satisfy the arguments
in front of the previous one. -/
def readArg (cfg : Config) (done : List Arg) : Arg → Arg
  | .mark list =>
    .mark (if done.length < 2 then firstWord tools list
      else decimal (passing tools cfg done.dropLast).length)
  | arg => arg

/-- All arguments with the lists that are used for them. -/
def readArgs (cfg : Config) (done : List Arg) : List Arg → List Arg
  | [] => []
  | arg :: args =>
    let arg := readArg tools cfg done arg
    arg :: readArgs cfg (done ++ [arg]) args

variable {tools}

/-! ## The inner loop -/

/-- An element that stays, or the gap. -/
def keep (tmp : List Text) (r : Text) : Option Text := if r ∈ tmp then some r else none

theorem unsetMissing_at (tmp : List Text) (pre : List (Option Text)) (x : Text)
    (post : List (Option Text)) :
    unsetMissing tmp (pre ++ some x :: post) pre.length = pre ++ keep tmp x :: post := by
  have hget : (pre ++ some x :: post).getD pre.length none = some x := by simp
  have hset : (pre ++ some x :: post).set pre.length none = pre ++ none :: post := by simp
  unfold unsetMissing keep
  rw [hget, hset]
  by_cases hx : x ∈ tmp
  · rw [if_pos hx, if_pos]
    rw [List.any_eq_true]
    exact ⟨x, hx, by simp⟩
  · rw [if_neg hx, if_neg]
    rw [List.any_eq_true]
    rintro ⟨j, hj, h⟩
    rw [beq_iff_eq, Option.some.injEq] at h
    exact hx (h ▸ hj)

theorem foldl_unsetMissing (tmp pre post : List Text) :
    (List.range pre.length).foldl (unsetMissing tmp) ((pre ++ post).map some) =
      pre.map (keep tmp) ++ post.map some := by
  induction pre using List.reverseRecOn generalizing post with
  | nil => rfl
  | append_singleton pre x ih =>
    rw [List.length_append, List.length_singleton, List.range_succ, List.foldl_append,
      List.append_assoc, ih]
    have hat := unsetMissing_at tmp (pre.map (keep tmp)) x (post.map some)
    rw [List.length_map] at hat
    rw [List.foldl_cons, List.foldl_nil, List.singleton_append, List.map_cons, hat,
      List.map_append, List.append_assoc]
    rfl

/-- **The inner loop intersects.** -/
theorem intersect_eq (tmp res : List Text) : intersect tmp res = res.filter (· ∈ tmp) := by
  have h := foldl_unsetMissing tmp res []
  rw [List.append_nil, List.map_nil, List.append_nil] at h
  unfold intersect
  rw [h, List.filterMap_map]
  clear h
  induction res with
  | nil => rfl
  | cons r res ih =>
    rw [List.filterMap_cons, List.filter_cons, ih]
    unfold keep
    by_cases hr : r ∈ tmp <;> simp [hr]

/-! ## Names -/

theorem eq_of_name_eq (cfg : Config) {e e' : Entry} (he : e ∈ cfg.entries) (he' : e' ∈ cfg.entries)
    (h : e.name = e'.name) : e = e' :=
  List.inj_on_of_nodup_map cfg.nodup he he' h

/-- Names of selected entries are intersected by their conditions. -/
theorem filter_names (cfg : Config) (p q : Entry → Bool) :
    ((cfg.entries.filter p).map Entry.name).filter
        (· ∈ (cfg.entries.filter q).map Entry.name) =
      (cfg.entries.filter fun e => p e && q e).map Entry.name := by
  rw [List.filter_map, List.filter_filter]
  refine congrArg _ (List.filter_congr fun e he => ?_)
  have hmem : e.name ∈ (cfg.entries.filter q).map Entry.name ↔ q e = true := by
    rw [List.mem_map]
    constructor
    · rintro ⟨e', he', hname⟩
      obtain ⟨hin, hq⟩ := List.mem_filter.1 he'
      rw [← eq_of_name_eq cfg hin he hname]
      exact hq
    · intro hq
      exact ⟨e, List.mem_filter.2 ⟨he, hq⟩, rfl⟩
  rw [Function.comp_apply, Bool.and_comm]
  exact congrArg _ (by rw [Bool.eq_iff_iff, decide_eq_true_iff, hmem])

theorem nodup_passing (cfg : Config) (args : List Arg) :
    ((passing tools cfg args).map Entry.name).Nodup :=
  cfg.nodup.sublist (List.filter_sublist.map Entry.name)

theorem foldl_markLoop (content : Text) (marks : List Text) (st : Bool × Bool) :
    marks.foldl (markLoop tools content) st =
      (st.1 || (content ≠ [] && marks.any fun m => tools.grep (strip (tools.echo m)) content),
        st.2 || marks.any fun m => m ≠ strip (tools.echo m)) := by
  induction marks generalizing st with
  | nil => simp
  | cons m marks ih =>
    rw [List.foldl_cons, ih]
    by_cases hc : content = [] <;> simp [markLoop, hc, Bool.or_assoc]

/-- What `getAllVservers` tests is what the argument asks for. -/
theorem doadd_eq (e : Entry) (arg : Arg) :
    doadd tools arg.kind arg.list e = satisfies tools e arg := by
  cases arg with
  | mark list =>
    have hloop := @foldl_markLoop tools e.mark (markList tools list) (false, false)
    rw [Bool.false_or, Bool.false_or] at hloop
    have hdoadd : doadd tools .MARK list e = (marked tools list e != negated tools list) := by
      simp only [doadd, hloop]
      rfl
    have hsatisfies : satisfies tools e (.mark list) =
        if negated tools list then !marked tools list e else marked tools list e := rfl
    rw [hsatisfies]
    refine hdoadd.trans ?_
    cases negated tools list <;> cases marked tools list e <;> rfl
  | _ => rfl

theorem passing_concat (cfg : Config) (args : List Arg) (arg : Arg) :
    passing tools cfg (args ++ [arg]) = cfg.entries.filter fun e =>
      (configured cfg e && args.all (satisfies tools e)) &&
        (configured cfg e && satisfies tools e arg) := by
  refine List.filter_congr fun e _ => ?_
  rw [List.all_append]
  cases configured cfg e <;> simp

/-! ## A number as a list -/

theorem isDigit_decimal {n : Nat} {c : Char} (h : c ∈ decimal n) : c.isDigit = true :=
  Nat.isDigit_of_mem_toDigits (by decide) (by decide) h

theorem decimal_ne_nil (n : Nat) : decimal n ≠ [] := Nat.toDigits_ne_nil

theorem not_mem_decimal {n : Nat} {c : Char} (hc : c.isDigit = false) : c ∉ decimal n := by
  intro h
  rw [isDigit_decimal h] at hc
  cases hc

theorem afterEquals_decimal (n : Nat) : afterEquals (decimal n) = decimal n := by
  have hall : (decimal n).reverse.takeWhile (· ≠ '=') = (decimal n).reverse := by
    rw [List.takeWhile_eq_self_iff]
    intro c hc
    refine decide_eq_true fun h => ?_
    exact not_mem_decimal (c := c) (by rw [h]; rfl) (List.mem_reverse.1 hc)
  rw [afterEquals, hall, List.reverse_reverse]

theorem decimal_ne_mark (n : Nat) : decimal n ≠ "--mark".toList := by
  intro h
  have hc : '-' ∈ decimal n := by
    rw [h]
    decide +kernel
  exact not_mem_decimal rfl hc

theorem firstWord_decimal (n : Nat) : firstWord tools (decimal n) = decimal n := by
  have hsplit : (decimal n).splitOnP (fun c => c == ' ' || c == '\t' || c == '\n') =
      [decimal n] := by
    refine List.splitOnP_eq_singleton fun c hc => ?_
    have hd := isDigit_decimal hc
    cases hblank : c == ' ' || c == '\t' || c == '\n' with
    | false => rfl
    | true =>
      simp only [Bool.or_eq_true, beq_iff_eq] at hblank
      rcases hblank with (rfl | rfl) | rfl <;> cases hd
  have hplain : Plain (decimal n) := by
    intro c hc hmem
    have hd := isDigit_decimal hc
    simp only [List.mem_cons, List.not_mem_nil, or_false] at hmem
    rcases hmem with rfl | rfl | rfl | rfl <;> cases hd
  have hfilter : [decimal n].filter (· ≠ []) = [decimal n] := by
    rw [List.filter_cons, if_pos (decide_eq_true (decimal_ne_nil n))]
    rfl
  rw [firstWord, words, hsplit, hfilter, List.flatMap_cons, tools.expand_plain _ hplain]
  rfl

/-! ## The outer loop -/

/-- The variables behind some arguments, which have been read as these. -/
structure Inv (tools : Tools) (cfg : Config) (done : List Arg) (st : State) : Prop where
  first : st.first = done.isEmpty
  res : st.res = if done = [] then [] else (passing tools cfg done).map Entry.name
  gav_i : st.gav_i =
    if done.length < 2 then [] else decimal (passing tools cfg done.dropLast).length

theorem inv_start (tools : Tools) (cfg : Config) : Inv tools cfg [] start := ⟨rfl, rfl, rfl⟩

/-- **A turn of the outer loop** adds an argument to those that have been read. -/
theorem inv_turn {cfg : Config} {done : List Arg} {st : State} (h : Inv tools cfg done st)
    (kind : Kind) (extra : Text) (arg : Arg)
    (harg : ∀ e, doadd tools kind (firstWord tools extra) e = satisfies tools e arg) :
    Inv tools cfg (done ++ [arg]) (turn tools cfg kind extra st) := by
  have hne : done ++ [arg] ≠ [] := by simp
  have htmp : getAllVservers tools cfg kind (firstWord tools extra) =
      (cfg.entries.filter fun e => configured cfg e && satisfies tools e arg).map Entry.name := by
    simp only [getAllVservers, harg]
  cases hdone : done with
  | nil =>
    subst hdone
    have hfirst : st.first = true := h.first
    rw [turn, if_pos hfirst]
    refine ⟨rfl, ?_, h.gav_i⟩
    rw [if_neg hne, passing_concat]
    refine htmp.trans (congrArg _ (List.filter_congr fun e _ => ?_))
    cases configured cfg e <;> simp
  | cons a rest =>
    rw [← hdone]
    have hnil : done ≠ [] := by
      rw [hdone]
      exact List.cons_ne_nil a rest
    have hfirst : ¬ st.first = true := by
      rw [h.first, List.isEmpty_iff]
      exact hnil
    have hlen : ¬ (done ++ [arg]).length < 2 := by
      have := List.length_pos_iff.2 hnil
      rw [List.length_append, List.length_singleton]
      omega
    have hres : st.res = (passing tools cfg done).map Entry.name := by
      rw [h.res, if_neg hnil]
    rw [turn, if_neg hfirst]
    refine ⟨by simp, ?_, ?_⟩
    · rw [if_neg hne, passing_concat, ← filter_names]
      show intersect _ st.res = _
      rw [intersect_eq, htmp, hres]
      rfl
    · rw [if_neg hlen, List.dropLast_concat]
      show decimal st.res.length = _
      rw [hres, List.length_map]

theorem getAllVserversByArg_kind {cfg : Config} {arg : Text} {k : Kind} (h : pattern arg = .kind k)
    (rest : List Text) (st : State) :
    getAllVserversByArg tools cfg (arg :: rest) st =
      getAllVserversByArg tools cfg rest (turn tools cfg k [] st) := by
  rw [getAllVserversByArg.eq_def]
  dsimp only
  rw [h]

theorem getAllVserversByArg_mark {cfg : Config} {arg : Text} (h : pattern arg = .mark)
    (second : Text) (rest : List Text) (st : State) :
    getAllVserversByArg tools cfg (arg :: second :: rest) st =
      getAllVserversByArg tools cfg rest (turn tools cfg .MARK (extra st second) st) := by
  rw [getAllVserversByArg.eq_def]
  dsimp only
  rw [h]

/-- The list that a `--mark` is evaluated with. -/
theorem firstWord_extra {cfg : Config} {done : List Arg} {st : State}
    (h : Inv tools cfg done st) (list : Text) :
    readArg tools cfg done (.mark list) = .mark (firstWord tools (extra st list)) := by
  unfold readArg extra
  rw [h.gav_i]
  dsimp only
  by_cases hlen : done.length < 2
  · rw [if_pos hlen, if_pos hlen, if_neg fun h => h.1 rfl]
  · rw [if_neg hlen, if_neg hlen, afterEquals_decimal,
      if_pos ⟨decimal_ne_nil _, decimal_ne_mark _⟩, firstWord_decimal]

/-- **One argument.** -/
theorem getAllVserversByArg_step {cfg : Config} {done : List Arg} {st : State}
    (h : Inv tools cfg done st) (arg : Arg) (rest : List Text) :
    ∃ st', Inv tools cfg (done ++ [readArg tools cfg done arg]) st' ∧
      getAllVserversByArg tools cfg (arg.words ++ rest) st =
        getAllVserversByArg tools cfg rest st' := by
  cases arg with
  | all =>
    exact ⟨_, inv_turn h .ALL [] .all fun _ => rfl,
      getAllVserversByArg_kind (by decide +kernel) rest st⟩
  | marked =>
    exact ⟨_, inv_turn h .MARKED [] .marked fun _ => rfl,
      getAllVserversByArg_kind (by decide +kernel) rest st⟩
  | unmarked =>
    exact ⟨_, inv_turn h .UNMARKED [] .unmarked fun _ => rfl,
      getAllVserversByArg_kind (by decide +kernel) rest st⟩
  | stopped =>
    exact ⟨_, inv_turn h .STOPPED [] .stopped fun _ => rfl,
      getAllVserversByArg_kind (by decide +kernel) rest st⟩
  | running =>
    exact ⟨_, inv_turn h .RUNNING [] .running fun _ => rfl,
      getAllVserversByArg_kind (by decide +kernel) rest st⟩
  | mark list =>
    rw [firstWord_extra h list]
    exact ⟨_, inv_turn h .MARK (extra st list) (.mark (firstWord tools (extra st list)))
      fun e => doadd_eq e (.mark _), getAllVserversByArg_mark (by decide +kernel) list rest st⟩

/-- **All arguments**: the result is the intersection for the arguments as they are read. -/
theorem getAllVserversByArg_run {cfg : Config} (args : List Arg) {done : List Arg} {st : State}
    (h : Inv tools cfg done st) :
    getAllVserversByArg tools cfg (args.flatMap Arg.words) st =
      some (if done ++ readArgs tools cfg done args = [] then []
        else (passing tools cfg (done ++ readArgs tools cfg done args)).map Entry.name) := by
  induction args generalizing done st with
  | nil =>
    rw [List.flatMap_nil, getAllVserversByArg, h.res, readArgs, List.append_nil]
  | cons arg args ih =>
    obtain ⟨st', h', hstep⟩ := getAllVserversByArg_step h arg (args.flatMap Arg.words)
    rw [List.flatMap_cons, hstep, ih h', readArgs, List.append_assoc, List.singleton_append]

/-! ## The intersection -/

theorem satisfies_readArg {cfg : Config} {done : List Arg} {arg : Arg} (h : arg.kind ≠ .MARK) :
    readArg tools cfg done arg = arg := by
  cases arg with
  | mark list => exact absurd rfl h
  | _ => rfl

/-- The arguments other than `--mark` are read as they are. -/
theorem mem_readArgs {cfg : Config} {args : List Arg} {arg : Arg} (h : arg.kind ≠ .MARK) :
    ∀ {done : List Arg}, arg ∈ args → arg ∈ readArgs tools cfg done args := by
  induction args with
  | nil => intro _ harg; cases harg
  | cons a args ih =>
    intro done harg
    rw [readArgs]
    rcases List.mem_cons.1 harg with rfl | harg
    · rw [satisfies_readArg h]
      exact List.mem_cons_self
    · exact List.mem_cons_of_mem _ (ih harg)

theorem passing_names_eq_iff (cfg : Config) (args args' : List Arg) :
    (passing tools cfg args).map Entry.name = (passing tools cfg args').map Entry.name ↔
      ∀ e ∈ cfg.entries, configured cfg e = true →
        ((∀ arg ∈ args, satisfies tools e arg = true) ↔
          ∀ arg ∈ args', satisfies tools e arg = true) := by
  have hmem : ∀ (args : List Arg), ∀ e ∈ cfg.entries, configured cfg e = true →
      (e.name ∈ (passing tools cfg args).map Entry.name ↔
        ∀ arg ∈ args, satisfies tools e arg = true) := by
    intro args e he hc
    rw [List.mem_map]
    constructor
    · rintro ⟨e', he', hname⟩
      obtain ⟨hin, hall⟩ := List.mem_filter.1 he'
      rw [eq_of_name_eq cfg hin he hname, Bool.and_eq_true, List.all_eq_true] at hall
      exact hall.2
    · intro hall
      refine ⟨e, List.mem_filter.2 ⟨he, ?_⟩, rfl⟩
      rw [hc, Bool.true_and, List.all_eq_true]
      exact hall
  constructor
  · intro h e he hc
    rw [← hmem args e he hc, h, hmem args' e he hc]
  · intro h
    refine congrArg _ (List.filter_congr fun e he => ?_)
    cases hc : configured cfg e with
    | false => rfl
    | true =>
      rw [Bool.true_and, Bool.true_and, Bool.eq_iff_iff, List.all_eq_true, List.all_eq_true]
      exact h e he hc

/-- **When the selection is the intersection**: there are arguments, or no vservers; and for a
vserver that satisfies the arguments other than `--mark`, the lists that are used for these select
it when their own lists do. -/
theorem getAllVserversByArg_intersects (tools : Tools) (cfg : Config) (args : List Arg) :
    Selects tools cfg args ↔
      (args = [] → ∀ e ∈ cfg.entries, configured cfg e = false) ∧
      ∀ e ∈ cfg.entries, configured cfg e = true →
        (∀ arg ∈ args, arg.kind ≠ .MARK → satisfies tools e arg = true) →
        ((∀ arg ∈ readArgs tools cfg [] args, satisfies tools e arg = true) ↔
          ∀ arg ∈ args, satisfies tools e arg = true) := by
  have hrun := getAllVserversByArg_run args (inv_start tools cfg)
  rw [List.nil_append] at hrun
  have hselects : Selects tools cfg args ↔
      (if readArgs tools cfg [] args = [] then []
        else (passing tools cfg (readArgs tools cfg [] args)).map Entry.name) =
          (passing tools cfg args).map Entry.name := by
    constructor
    · rintro ⟨r, hr, rfl, -⟩
      rw [hrun] at hr
      exact Option.some.inj hr
    · intro h
      exact ⟨_, hrun.trans (congrArg some h), rfl, nodup_passing cfg args⟩
  rw [hselects]
  cases args with
  | nil =>
    rw [readArgs, if_pos rfl, eq_comm, List.map_eq_nil_iff, passing, List.filter_eq_nil_iff]
    simp
  | cons arg args =>
    have hne : readArgs tools cfg [] (arg :: args) ≠ [] := List.cons_ne_nil _ _
    rw [if_neg hne, passing_names_eq_iff]
    refine ⟨fun h => ⟨fun hnil => (List.cons_ne_nil _ _ hnil).elim, fun e he hc _ => h e he hc⟩,
      fun h e he hc => ?_⟩
    constructor
    · intro hall
      refine (h.2 e he hc fun a ha hkind => ?_).1 hall
      exact hall a (mem_readArgs hkind ha)
    · intro hall
      exact (h.2 e he hc fun a ha _ => hall a ha).2 hall

/-- A shell without patterns, and a `grep` for whole lines. -/
def plainTools : Tools where
  expand := NamespaceCleanup.literalShell.expand
  expand_plain := NamespaceCleanup.literalShell.expand_plain
  echo t := t
  grep p content := (content.splitOn '\n').contains p

/-- One vserver with the mark `x`. -/
def oneVserver : Config where
  confdir := ['/', 'e']
  entries := [⟨['a'], true, false, true, ['x', '\n'], false⟩]
  nodup := by decide

/-- As the third argument a `--mark` is evaluated with the number of the vservers. -/
theorem getAllVserversByArg_thirdMark :
    ¬ Selects plainTools oneVserver [.all, .all, .mark ['x']] := by
  have hrun : getAllVserversByArg plainTools oneVserver
      ([Arg.all, .all, .mark ['x']].flatMap Arg.words) start = some [] := by
    decide +kernel
  have hpassing : (passing plainTools oneVserver [.all, .all, .mark ['x']]).map Entry.name =
      [['a']] := by
    decide +kernel
  rintro ⟨r, hr, heq, -⟩
  rw [hrun] at hr
  rw [hpassing, ← Option.some.inj hr] at heq
  cases heq

end GetAllVservers
