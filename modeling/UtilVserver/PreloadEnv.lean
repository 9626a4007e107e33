import UtilVserver.Lib.Decimal

/-!
# The preload variable (`unsetPreloadEnv` of `src/rpm-fake.c`)

The library takes itself out of `LD_PRELOAD`: it looks for its name in the value of the variable and
edits the value in place.

* `editEnv`, `unsetPreloadEnv` — the edit, and what becomes of the variable.
* `editElements` — what the edit does to the list of the elements.
* `expected` — the variable without the elements that have the name as their file name.

Principal results: `editEnv_join` (the edit in terms of the elements) and `unsetPreloadEnv_exact`
(for which values the variable becomes what it should).
-/

set_option autoImplicit false

namespace PreloadEnv

open CString

def LIBNAME : Text := "rpm-fake.so".toList

/-- What becomes of the value. -/
def editEnv (env : Text) : Text :=
  match strstr env LIBNAME with
  | none => env
  | some p =>
    let pos := env.length - p.length
    let end_pos := pos + (LIBNAME.length + 1)
    let is_end : Bool := charAt env (end_pos - 1) == '\x00'
    -- `end_pos[-1] = '\0'`
    let start_pos :=
      match strrchr (env.take (end_pos - 1)) ':' with
      | none => 0
      | some i => if is_end then i else i + 1
    if is_end then env.take start_pos else env.take start_pos ++ env.drop end_pos

def unsetPreloadEnv (var : Option CStr) : Option Text :=
  let env := editEnv (match var with | none => [] | some env => env.text)
  if env = [] then none else some env

/-! ## What should become of the variable -/

def elements (env : Text) : List Text := env.splitOn ':'

def join (es : List Text) : Text := List.intercalate [':'] es

/-- What is behind the last slash. -/
def fileName (e : Text) : Text := (e.reverse.takeWhile (· != '/')).reverse

/-- The elements with other names. -/
def others (es : List Text) : List Text := es.filter fun e => fileName e ≠ LIBNAME

/-- The elements with other names, or no variable when there is nothing left. -/
def expected (var : Option CStr) : Option Text :=
  let env := join (others (elements (match var with | none => [] | some env => env.text)))
  if env = [] then none else some env

/-- No element contains the name; or the first one that does is a file of that name which contains
it at its end only, and no other element is such a file. -/
def Alone : List Text → Prop
  | [] => True
  | e :: es =>
    if strstr e LIBNAME = none then Alone es
    else strstr e LIBNAME = some LIBNAME ∧ fileName e = LIBNAME ∧ ∀ x ∈ es, fileName x ≠ LIBNAME

/-- What is left of the elements `es` and of one in front of them that has `v` behind the name: the
element is taken out when it ends with the name, and is what follows the next character otherwise. -/
def cutOut : Text → List Text → List Text
  | [], es => es
  | _ :: v, es => v :: es

/-- What the edit does to the elements. -/
def editElements : List Text → List Text
  | [] => []
  | e :: es =>
    match strstr e LIBNAME with
    | none => e :: editElements es
    | some p => cutOut (p.drop LIBNAME.length) es

theorem editElements_none {e : Text} (h : strstr e LIBNAME = none) (es : List Text) :
    editElements (e :: es) = e :: editElements es := by
  rw [editElements, h]

theorem editElements_some {e v : Text} (h : strstr e LIBNAME = some (LIBNAME ++ v))
    (es : List Text) : editElements (e :: es) = cutOut v es := by
  rw [editElements, h]
  exact congrArg (cutOut · es) List.drop_left

/-! ## Joined elements -/

theorem join_singleton (e : Text) : join [e] = e := by simp [join, List.intercalate]

theorem join_cons (e : Text) {es : List Text} (h : es ≠ []) :
    join (e :: es) = e ++ ':' :: join es := by
  cases es with
  | nil => exact absurd rfl h
  | cons x es => simp [join, List.intercalate, List.intersperse]

/-- The elements in front of another one, each with its separator. -/
def front (es : List Text) : Text := es.flatMap (· ++ [':'])

theorem join_append (a : List Text) {b : List Text} (h : b ≠ []) :
    join (a ++ b) = front a ++ join b := by
  induction a with
  | nil => rfl
  | cons e a ih =>
    rw [List.cons_append, join_cons e (by simp [h]), ih, front, front, List.flatMap_cons]
    simp

theorem front_eq {a : List Text} (h : a ≠ []) : front a = join a ++ [':'] := by
  obtain ⟨l, e, rfl⟩ := (List.eq_nil_or_concat a).resolve_left h
  rw [List.concat_eq_append, join_append l (List.cons_ne_nil e []), join_singleton, front,
    List.flatMap_append, List.flatMap_singleton, ← List.append_assoc]
  rfl

/-- The elements behind another one, each with its separator. -/
def back (es : List Text) : Text := if es = [] then [] else ':' :: join es

theorem join_back (e : Text) (es : List Text) : join (e :: es) = e ++ back es := by
  unfold back
  split
  · rename_i h
    rw [h, join_singleton, List.append_nil]
  · rename_i h
    exact join_cons e h

/-! ## The name in joined elements -/

/-- What holds no colon is not a prefix that ends behind one. -/
theorem prefix_colon {key s t : Text} (hkey : ':' ∉ key) (h : key <+: s ++ ':' :: t) : key <+: s := by
  obtain hp | ⟨r, hr⟩ := List.prefix_or_prefix_of_prefix h (List.prefix_append s (':' :: t))
  · exact hp
  · cases r with
    | nil =>
      rw [List.append_nil] at hr
      subst hr
      exact List.prefix_refl s
    | cons c r =>
      rw [← hr, List.prefix_append_right_inj] at h
      obtain ⟨rfl, -⟩ := List.cons_prefix_cons.1 h
      rw [← hr] at hkey
      simp at hkey

/-- **The name is looked for in one element after the other.** -/
theorem strstr_colon {key s : Text} (hkey : ':' ∉ key) (hne : key ≠ []) (h : ¬ key <:+: s)
    (t : Text) : strstr (s ++ ':' :: t) key = strstr t key := by
  induction s with
  | nil =>
    refine strstr_cons fun hp => hne ?_
    have hnil := prefix_colon (s := []) hkey hp
    exact List.prefix_nil.1 hnil
  | cons c s ih =>
    rw [List.infix_cons_iff, not_or] at h
    obtain ⟨hnot, hrest⟩ := h
    have hlonger : ¬ key <+: c :: (s ++ ':' :: t) := fun hp =>
      hnot (prefix_colon (s := c :: s) hkey hp)
    rw [List.cons_append, strstr_cons hlonger, ih hrest]

theorem LIBNAME_noColon : ':' ∉ LIBNAME := by decide

theorem LIBNAME_ne_nil : LIBNAME ≠ [] := by decide

theorem strstr_front {a : List Text} (h : ∀ e ∈ a, strstr e LIBNAME = none) (t : Text) :
    strstr (front a ++ t) LIBNAME = strstr t LIBNAME := by
  induction a with
  | nil => rfl
  | cons e a ih =>
    have hsplit : front (e :: a) ++ t = e ++ ':' :: (front a ++ t) := by simp [front]
    have he := strstr_none_iff.1 (h e List.mem_cons_self)
    rw [hsplit, strstr_colon LIBNAME_noColon LIBNAME_ne_nil he,
      ih fun x hx => h x (List.mem_cons_of_mem _ hx)]

/-- The first element that contains the name, when there is one. -/
theorem elements_cases (es : List Text) :
    (∀ e ∈ es, strstr e LIBNAME = none) ∨ ∃ a e b p, es = a ++ e :: b ∧
      (∀ x ∈ a, strstr x LIBNAME = none) ∧ strstr e LIBNAME = some p := by
  induction es with
  | nil => exact Or.inl fun e he => by cases he
  | cons e es ih =>
    cases he : strstr e LIBNAME with
    | some p => exact Or.inr ⟨[], e, es, p, rfl, List.forall_mem_nil _, he⟩
    | none =>
      obtain h | ⟨a, x, b, p, rfl, ha, hx⟩ := ih
      · refine Or.inl fun x hx => ?_
        rcases List.mem_cons.1 hx with rfl | hx
        · exact he
        · exact h x hx
      · refine Or.inr ⟨e :: a, x, b, p, rfl, fun y hy => ?_, hx⟩
        rcases List.mem_cons.1 hy with rfl | hy
        · exact he
        · exact ha y hy

theorem editElements_append {a : List Text} (h : ∀ e ∈ a, strstr e LIBNAME = none)
    (b : List Text) : editElements (a ++ b) = a ++ editElements b := by
  induction a with
  | nil => rfl
  | cons e a ih =>
    rw [List.cons_append, editElements_none (h e List.mem_cons_self)]
    exact congrArg (e :: ·) (ih fun x hx => h x (List.mem_cons_of_mem _ hx))

/-! ## The edit -/

/-- The place where the edit starts. -/
theorem strrchr_front (a : List Text) {t : Text} (h : ':' ∉ t) :
    strrchr (front a ++ t) ':' = if a = [] then none else some (join a).length := by
  split
  · rename_i ha
    rw [ha]
    exact strrchr_none h
  · rename_i ha
    rw [front_eq ha, List.append_assoc]
    exact strrchr_last (join a) h

/-- **The edit, where the name is in the element behind `a`.** -/
theorem editEnv_at {a b : List Text} {u v : Text} (ha : ∀ e ∈ a, strstr e LIBNAME = none)
    (he : strstr (u ++ (LIBNAME ++ v)) LIBNAME = some (LIBNAME ++ v)) (hcolon : ':' ∉ u)
    (hnul : '\x00' ∉ v ++ back b) :
    editEnv (join (a ++ (u ++ (LIBNAME ++ v)) :: b)) =
      join (a ++ cutOut v b) := by
  have hjoin : join (a ++ (u ++ (LIBNAME ++ v)) :: b) =
      front a ++ ((u ++ (LIBNAME ++ v)) ++ back b) := by
    rw [join_append a (List.cons_ne_nil _ _), join_back]
  have hfound : strstr (join (a ++ (u ++ (LIBNAME ++ v)) :: b)) LIBNAME =
      some ((LIBNAME ++ v) ++ back b) := by
    rw [hjoin, strstr_front ha, strstr_append he]
  have hsplit : join (a ++ (u ++ (LIBNAME ++ v)) :: b) =
      (front a ++ (u ++ LIBNAME)) ++ (v ++ back b) := by
    rw [hjoin]
    simp only [List.append_assoc]
  have hend : (join (a ++ (u ++ (LIBNAME ++ v)) :: b)).length - ((LIBNAME ++ v) ++ back b).length +
      (LIBNAME.length + 1) = (front a ++ (u ++ LIBNAME)).length + 1 := by
    rw [hjoin]
    simp only [List.length_append]
    omega
  have hstart : ':' ∉ u ++ LIBNAME := by
    rw [List.mem_append, not_or]
    exact ⟨hcolon, LIBNAME_noColon⟩
  unfold editEnv
  rw [hfound]
  dsimp only
  rw [hend, Nat.add_sub_cancel, hsplit, charAt_append_length, List.take_left,
    strrchr_front a hstart, List.drop_length_add_append]
  cases hrest : v ++ back b with
  | nil =>
    -- the name is at the end of the value
    obtain ⟨rfl, hback⟩ := List.append_eq_nil_iff.1 hrest
    have hb : b = [] := by
      by_contra hb
      rw [back, if_neg hb] at hback
      cases hback
    subst hb
    have ha' : a ++ cutOut [] [] = a := List.append_nil a
    rw [ha']
    by_cases hnil : a = []
    · rw [if_pos hnil, hnil]
      rfl
    · rw [if_neg hnil, front_eq hnil, List.append_assoc, List.append_assoc]
      exact List.take_left
  | cons c r =>
    have hc : (charAt (c :: r) 0 == '\x00') = false := by
      rw [hrest] at hnul
      rw [beq_eq_false_iff_ne]
      intro h
      exact hnul (h ▸ List.mem_cons_self)
    have htake : ∀ t, (front a ++ t).take (match (if a = [] then none else some (join a).length) with
        | none => 0
        | some i => i + 1) = front a := by
      intro t
      by_cases hnil : a = []
      · rw [if_pos hnil, hnil]
        rfl
      · rw [if_neg hnil]
        have hlen : (join a).length + 1 = (front a).length := by
          rw [front_eq hnil, List.length_append]
          rfl
        show (front a ++ t).take ((join a).length + 1) = _
        rw [hlen, List.take_left]
    simp only [hc, Bool.false_eq_true, if_false]
    rw [List.append_assoc, htake]
    show front a ++ r = _
    cases v with
    | nil =>
      have hb : b ≠ [] := by
        rintro rfl
        cases hrest
      rw [List.nil_append, back, if_neg hb] at hrest
      obtain ⟨-, rfl⟩ := List.cons.inj hrest
      exact (join_append a hb).symm
    | cons d v =>
      rw [List.cons_append] at hrest
      obtain ⟨-, rfl⟩ := List.cons.inj hrest
      rw [cutOut, join_append a (List.cons_ne_nil v b), join_back]

/-- **The edit of the value is that of its elements.** -/
theorem editEnv_join {es : List Text} (hcolon : ∀ e ∈ es, ':' ∉ e) (hnul : '\x00' ∉ join es) :
    editEnv (join es) = join (editElements es) := by
  obtain hnone | ⟨a, e, b, p, rfl, ha, he⟩ := elements_cases es
  · have hvalue : strstr (join es) LIBNAME = none := by
      obtain rfl | ⟨l, e, rfl⟩ := List.eq_nil_or_concat es
      · rfl
      · rw [List.concat_eq_append] at hnone ⊢
        rw [join_append l (List.cons_ne_nil e []), join_singleton,
          strstr_front fun x hx => hnone x (List.mem_append_left _ hx)]
        exact hnone e (List.mem_append_right _ (List.mem_singleton_self e))
    have hsame := editElements_append hnone []
    rw [List.append_nil] at hsame
    rw [hsame, editEnv, hvalue]
    exact congrArg join (List.append_nil es).symm
  · obtain ⟨⟨v, rfl⟩, u, rfl⟩ := strstr_some he
    have hu : ':' ∉ u := fun hmem =>
      hcolon _ (List.mem_append_right _ List.mem_cons_self) (List.mem_append_left _ hmem)
    have hrest : '\x00' ∉ v ++ back b := by
      intro hmem
      refine hnul ?_
      rw [join_append a (List.cons_ne_nil _ b), join_back]
      simp only [List.mem_append] at hmem ⊢
      exact Or.inr (hmem.imp (fun h => Or.inr (Or.inr h)) id)
    rw [editEnv_at ha he hu hrest, editElements_append ha, editElements_some he]

/-! ## Which values become right -/

/-- Joined elements are the same when the elements are, or when there are none. -/
theorem join_eq_join {l l' : List Text} (h : ∀ e ∈ l, ':' ∉ e) (h' : ∀ e ∈ l', ':' ∉ e)
    (heq : join l = join l') : l = l' ∨ (l = [] ∧ l' = [[]]) ∨ (l = [[]] ∧ l' = []) := by
  have hsplit : ∀ {es : List Text}, (∀ e ∈ es, ':' ∉ e) → es ≠ [] → (join es).splitOn ':' = es :=
    fun hes hne => List.splitOn_intercalate ':' hes hne
  by_cases hl : l = []
  · by_cases hl' : l' = []
    · exact Or.inl (hl.trans hl'.symm)
    · refine Or.inr (Or.inl ⟨hl, ?_⟩)
      rw [← hsplit h' hl', ← heq, hl]
      rfl
  · by_cases hl' : l' = []
    · refine Or.inr (Or.inr ⟨?_, hl'⟩)
      rw [← hsplit h hl, heq, hl']
      rfl
    · refine Or.inl ?_
      rw [← hsplit h hl, heq, hsplit h' hl']

theorem fileName_suffix (e : Text) : fileName e <:+ e := by
  have hfront := (List.takeWhile_prefix (· != '/') (l := e.reverse))
  rw [← List.reverse_suffix, List.reverse_reverse] at hfront
  exact hfront

/-- A file of the name contains the name. -/
theorem strstr_of_fileName {e : Text} (h : fileName e = LIBNAME) : strstr e LIBNAME ≠ none := by
  have hinfix : LIBNAME <:+: e := h ▸ (fileName_suffix e).isInfix
  exact fun hnone => strstr_none_iff.1 hnone hinfix

theorem others_of_name {e : Text} (h : fileName e = LIBNAME) (es : List Text) :
    others (e :: es) = others es :=
  List.filter_cons_of_neg (by simp [h])

theorem others_of_ne {e : Text} (h : fileName e ≠ LIBNAME) (es : List Text) :
    others (e :: es) = e :: others es :=
  List.filter_cons_of_pos (decide_eq_true h)

theorem others_subset (es : List Text) : others es ⊆ es := fun _ h => (List.mem_filter.1 h).1

theorem others_eq_self_iff {es : List Text} : es = others es ↔ ∀ x ∈ es, fileName x ≠ LIBNAME := by
  rw [eq_comm, others, List.filter_eq_self]
  simp only [decide_eq_true_eq]

/-- **The edit takes out all elements of the name just when there is at most one of them and
nothing else contains the name in front of it.** -/
theorem editElements_eq_iff (es : List Text) : editElements es = others es ↔ Alone es := by
  induction es with
  | nil => exact ⟨fun _ => trivial, fun _ => rfl⟩
  | cons e es ih =>
    rw [Alone]
    cases he : strstr e LIBNAME with
    | none =>
      have hother : fileName e ≠ LIBNAME := fun h => strstr_of_fileName h he
      rw [if_pos rfl, others_of_ne hother, ← ih, editElements_none he]
      exact List.cons_inj_right e
    | some p =>
      obtain ⟨⟨v, rfl⟩, u, hu⟩ := strstr_some he
      rw [if_neg (Option.some_ne_none _), editElements_some he]
      by_cases hname : fileName e = LIBNAME
      · rw [others_of_name hname]
        cases v with
        | nil =>
          rw [List.append_nil]
          exact others_eq_self_iff.trans ⟨fun h => ⟨rfl, hname, h⟩, fun h => h.2.2⟩
        | cons c v =>
          constructor
          · intro h
            have hlen := congrArg List.length h
            have hle : (others es).length ≤ es.length := List.length_filter_le _ es
            simp only [cutOut, List.length_cons] at hlen
            omega
          · rintro ⟨h, -⟩
            have hlen := congrArg List.length (Option.some.inj h)
            simp at hlen
      · rw [others_of_ne hname]
        refine ⟨fun h => ?_, fun h => absurd h.2.1 hname⟩
        cases v with
        | nil =>
          -- `e` would be once more among the elements that are kept
          have hkept : (others es).count e = es.count e :=
            List.count_filter (p := fun e => decide (fileName e ≠ LIBNAME)) (decide_eq_true hname)
          have hcount := congrArg (List.count e) h
          rw [cutOut, List.count_cons_self, hkept] at hcount
          omega
        | cons c v =>
          -- what replaces `e` is shorter
          have hlen := congrArg List.length hu
          obtain ⟨rfl, -⟩ := List.cons.inj h
          simp only [List.length_append, List.length_cons] at hlen
          omega

/-- A value with one character behind the name does not have the name. -/
theorem fileName_longer (u : Text) (c : Char) : fileName (u ++ (LIBNAME ++ [c])) ≠ LIBNAME := by
  intro h
  obtain ⟨d, hd⟩ := fileName_suffix (u ++ (LIBNAME ++ [c]))
  have hname : LIBNAME = "rpm-fake.".toList ++ ['s'] ++ ['o'] := by decide
  rw [h, ← List.append_assoc, hname, ← List.append_assoc, ← List.append_assoc,
    ← List.append_assoc u, ← List.append_assoc u] at hd
  -- the last but one character of the one side is an `s`, and an `o` of the other
  obtain ⟨hfront, -⟩ := List.append_inj' hd rfl
  obtain ⟨-, hso⟩ := List.append_inj' hfront rfl
  exact absurd hso (by decide)

/-- The edit does not leave an empty element behind of elements that all have the name. -/
theorem editElements_ne_blank {es : List Text} (h : ∀ e ∈ es, fileName e = LIBNAME) :
    editElements es ≠ [[]] := by
  cases es with
  | nil => exact (List.cons_ne_nil [] []).symm
  | cons e es =>
    have he := h e List.mem_cons_self
    obtain ⟨p, hp⟩ := Option.ne_none_iff_exists'.1 (strstr_of_fileName he)
    obtain ⟨⟨v, rfl⟩, u, rfl⟩ := strstr_some hp
    rw [editElements_some hp]
    intro heq
    cases v with
    | nil =>
      rw [cutOut] at heq
      have hblank := h [] (by simp [heq])
      exact absurd hblank (by decide)
    | cons c v =>
      rw [cutOut] at heq
      obtain ⟨rfl, -⟩ := List.cons.inj heq
      exact fileName_longer u c he

/-- An empty element is left. -/
theorem editElements_ne_nil {es : List Text} (h : [] ∈ es) : editElements es ≠ [] := by
  intro hnil
  cases es with
  | nil => cases h
  | cons e es =>
    cases he : strstr e LIBNAME with
    | none =>
      rw [editElements_none he] at hnil
      cases hnil
    | some p =>
      obtain ⟨⟨v, rfl⟩, u, rfl⟩ := strstr_some he
      rw [editElements_some he] at hnil
      cases v with
      | nil =>
        rw [cutOut] at hnil
        rw [hnil, List.mem_singleton] at h
        have hname := (List.append_eq_nil_iff.1 h.symm).2
        exact absurd (List.append_eq_nil_iff.1 hname).1 LIBNAME_ne_nil
      | cons c v => cases hnil

theorem editElements_noColon {es : List Text} (h : ∀ e ∈ es, ':' ∉ e) :
    ∀ e ∈ editElements es, ':' ∉ e := by
  induction es with
  | nil => exact h
  | cons e es ih =>
    have hes : ∀ x ∈ es, ':' ∉ x := fun x hx => h x (List.mem_cons_of_mem e hx)
    cases he : strstr e LIBNAME with
    | none =>
      rw [editElements_none he]
      exact List.forall_mem_cons.2 ⟨h e List.mem_cons_self, ih hes⟩
    | some p =>
      obtain ⟨⟨v, rfl⟩, u, rfl⟩ := strstr_some he
      rw [editElements_some he]
      cases v with
      | nil => exact hes
      | cons c v =>
        refine List.forall_mem_cons.2 ⟨fun hmem => h _ List.mem_cons_self ?_, hes⟩
        simp [hmem]

/-- An empty value and no variable are the same. -/
theorem unset_inj {s t : Text} :
    (if s = [] then none else some s) = (if t = [] then none else some t) ↔ s = t := by
  by_cases hs : s = []
  · by_cases ht : t = []
    · rw [hs, ht, if_pos rfl]
      exact ⟨fun _ => rfl, fun _ => rfl⟩
    · rw [if_pos hs, if_neg ht, hs]
      exact ⟨fun h => (Option.some_ne_none t h.symm).elim, fun h => absurd h.symm ht⟩
  · by_cases ht : t = []
    · rw [if_neg hs, if_pos ht, ht]
      exact ⟨fun h => (Option.some_ne_none s h).elim, fun h => absurd h hs⟩
    · rw [if_neg hs, if_neg ht, Option.some_inj]

/-- **For which values the variable becomes what it should.** -/
theorem unsetPreloadEnv_exact (var : Option CStr) :
    unsetPreloadEnv var = expected var ↔
      Alone (elements (match var with | none => [] | some env => env.text)) := by
  have hnul : '\x00' ∉ (match var with | none => [] | some env => env.text) := by
    cases var with
    | none => exact List.not_mem_nil
    | some env => exact env.noNul
  unfold unsetPreloadEnv expected
  generalize (match var with | none => [] | some env => env.text) = value at hnul ⊢
  have hvalue : join (elements value) = value := List.intercalate_splitOn ':'
  have hcolon : ∀ e ∈ elements value, ':' ∉ e := not_mem_of_mem_splitOn ':' value
  have hedit : editEnv value = join (editElements (elements value)) := by
    rw [← editEnv_join hcolon (hvalue.symm ▸ hnul), hvalue]
  dsimp only
  rw [hedit, unset_inj, ← editElements_eq_iff]
  refine ⟨fun h => ?_, fun h => by rw [h]⟩
  have hothers : ∀ e ∈ others (elements value), ':' ∉ e := fun e he =>
    hcolon e (others_subset _ he)
  obtain heq | ⟨hnil, hblank⟩ | ⟨hblank, hnil⟩ := join_eq_join (editElements_noColon hcolon) hothers h
  · exact heq
  · exact absurd hnil (editElements_ne_nil (others_subset _ (hblank ▸ List.mem_cons_self)))
  · refine absurd hblank (editElements_ne_blank fun e he => ?_)
    by_contra hne
    have hmem : e ∈ others (elements value) := List.mem_filter.2 ⟨he, decide_eq_true hne⟩
    rw [hnil] at hmem
    cases hmem

/-- The name twice, and a name that contains it. -/
theorem unsetPreloadEnv_wrong :
    (unsetPreloadEnv (some ⟨"rpm-fake.so:rpm-fake.so".toList, by decide⟩) =
        some "rpm-fake.so".toList ∧
      expected (some ⟨"rpm-fake.so:rpm-fake.so".toList, by decide⟩) = none) ∧
    unsetPreloadEnv (some ⟨"librpm-fake.so".toList, by decide⟩) = none ∧
      expected (some ⟨"librpm-fake.so".toList, by decide⟩) = some "librpm-fake.so".toList := by
  decide +kernel

end PreloadEnv
