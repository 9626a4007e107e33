import Mathlib.Data.List.Infix

/-!
# Absolute paths and their texts

An absolute path is a list of names; its text puts a slash before each of them.

* `body` — a slash before each piece; pieces may be empty.
* `Path` — names that are not empty and hold no slash, and the text of a path.
* `pieces` — what stands behind the slashes of a text.

Principal results: `Path.isPrefix_text` (a path is at or below another one exactly when its text,
with a slash behind it, continues the text of the other) and `mem_prefixes_iff`.
-/

set_option autoImplicit false

namespace SlashPath

/-- A slash before each piece. -/
def body (xs : List (List Char)) : List Char := xs.flatMap fun x => '/' :: x

@[simp] theorem body_nil : body [] = [] := rfl

@[simp] theorem body_cons (x : List Char) (xs : List (List Char)) :
    body (x :: xs) = '/' :: (x ++ body xs) := by
  rw [body, List.flatMap_cons, List.cons_append]
  rfl

@[simp] theorem body_append (xs ys : List (List Char)) : body (xs ++ ys) = body xs ++ body ys := by
  simp [body]

/-- No piece holds a slash. -/
def SlashFree (xs : List (List Char)) : Prop := ∀ x ∈ xs, '/' ∉ x

theorem SlashFree.tail {x : List Char} {xs : List (List Char)} (h : SlashFree (x :: xs)) :
    SlashFree xs := fun y hy => h y (List.mem_cons_of_mem _ hy)

/-- Two pieces before a slash. -/
theorem prefix_of_pieces {x y s t : List Char} (hx : '/' ∉ x) (hy : '/' ∉ y) :
    x ++ '/' :: s <+: y ++ '/' :: t ↔ x = y ∧ s <+: t := by
  induction x generalizing y with
  | nil =>
    cases y with
    | nil => simp
    | cons d y =>
      have hd : '/' ≠ d := fun h => hy (h ▸ List.mem_cons_self)
      simp [hd]
  | cons c x ih =>
    have hc : c ≠ '/' := fun h => hx (h ▸ List.mem_cons_self)
    cases y with
    | nil => simp [hc]
    | cons d y =>
      have ih := @ih y (fun h => hx (List.mem_cons_of_mem _ h)) (fun h => hy (List.mem_cons_of_mem _ h))
      simp only [List.cons_append, List.cons_prefix_cons, ih, List.cons.injEq]
      tauto

/-- What follows the pieces begins with a slash. -/
theorem body_slash (xs : List (List Char)) (s : List Char) :
    ∃ t, body xs ++ '/' :: s = '/' :: t := by
  cases xs with
  | nil => exact ⟨s, rfl⟩
  | cons x xs => exact ⟨x ++ body xs ++ '/' :: s, by simp⟩

/-- **Pieces are a prefix** as their texts with a slash behind them are. -/
theorem body_prefix : ∀ {xs ys : List (List Char)}, SlashFree xs → SlashFree ys →
    (∀ x ∈ xs, x ≠ []) → (body xs ++ ['/'] <+: body ys ++ ['/'] ↔ xs <+: ys)
  | [], ys, _, _, _ => by
    obtain ⟨t, ht⟩ := body_slash ys []
    rw [ht]
    simp
  | x :: xs, [], hx, _, hne => by
    have hx' := hne x List.mem_cons_self
    simp only [body_cons, body_nil, List.nil_append, List.cons_append, List.cons_prefix_cons,
      true_and, List.prefix_nil, List.append_eq_nil_iff, List.append_assoc]
    simp [hx']
  | x :: xs, y :: ys, hx, hy, hne => by
    have ih := body_prefix hx.tail hy.tail fun z hz => hne z (List.mem_cons_of_mem _ hz)
    obtain ⟨s, hs⟩ := body_slash xs []
    obtain ⟨t, ht⟩ := body_slash ys []
    rw [hs, ht, List.cons_prefix_cons] at ih
    simp only [body_cons, List.cons_append, List.append_assoc, List.cons_prefix_cons, true_and]
    rw [hs, ht, prefix_of_pieces (hx x List.mem_cons_self) (hy y List.mem_cons_self)]
    rw [← ih]
    simp

theorem body_injective : ∀ {xs ys : List (List Char)}, SlashFree xs → SlashFree ys →
    body xs = body ys → xs = ys
  | [], [], _, _, _ => rfl
  | [], y :: ys, _, _, h => by simp at h
  | x :: xs, [], _, _, h => by simp at h
  | x :: xs, y :: ys, hx, hy, h => by
    have h' : x ++ body xs = y ++ body ys := by simpa using h
    have hslash : x ++ (body xs ++ ['/']) = y ++ (body ys ++ ['/']) := by
      rw [← List.append_assoc, ← List.append_assoc, h']
    obtain ⟨s, hs⟩ := body_slash xs []
    obtain ⟨t, ht⟩ := body_slash ys []
    rw [hs, ht] at hslash
    have hpre : x ++ '/' :: s <+: y ++ '/' :: t := hslash ▸ List.prefix_refl _
    obtain ⟨rfl, -⟩ := (prefix_of_pieces (hx x List.mem_cons_self) (hy y List.mem_cons_self)).1 hpre
    rw [body_injective hx.tail hy.tail (List.append_cancel_left h')]

/-! ## Paths -/

/-- An absolute path without empty names. -/
structure Path where
  names : List (List Char)
  ne_nil : ∀ x ∈ names, x ≠ []
  slashFree : SlashFree names

/-- The text of a path. -/
def Path.text (p : Path) : List Char := if p.names = [] then ['/'] else body p.names

/-- At the path or below it. -/
def Path.AtOrBelow (p q : Path) : Prop := p.names <+: q.names

instance (p q : Path) : Decidable (p.AtOrBelow q) := inferInstanceAs (Decidable (_ <+: _))

/-- **A path is at or below another one** as its text with a slash continues that of the other. -/
theorem Path.isPrefix_text {p : Path} (hp : p.names ≠ []) (q : Path) :
    p.text ++ ['/'] <+: q.text ++ ['/'] ↔ p.AtOrBelow q := by
  unfold Path.text Path.AtOrBelow
  rw [if_neg hp]
  split
  · rename_i hq
    rw [hq]
    cases hnames : p.names with
    | nil => exact absurd hnames hp
    | cons x xs =>
      have hx : x ≠ [] := p.ne_nil x (hnames ▸ List.mem_cons_self)
      have hslash : '/' ∉ x := p.slashFree x (hnames ▸ List.mem_cons_self)
      cases x with
      | nil => exact absurd rfl hx
      | cons c x =>
        have hc : c ≠ '/' := fun h => hslash (h ▸ List.mem_cons_self)
        simp [hc]
  · exact body_prefix p.slashFree q.slashFree p.ne_nil

/-! ## Pieces of a text -/

/-- What stands behind the slashes of a text. -/
def pieces (t : List Char) : List (List Char) := (t.splitOn '/').tail

theorem splitOn_body : ∀ {xs : List (List Char)}, SlashFree xs → ∀ {x : List Char}, '/' ∉ x →
    (x ++ body xs).splitOn '/' = x :: xs
  | [], _, x, hx => by rw [body_nil, List.append_nil, List.splitOn_eq_singleton hx]
  | y :: ys, h, x, hx => by
    rw [body_cons, List.splitOn_append_cons_self, List.splitOn_eq_singleton hx,
      splitOn_body h.tail (h y List.mem_cons_self)]
    rfl

theorem pieces_body {xs : List (List Char)} (h : SlashFree xs) : pieces (body xs) = xs := by
  have := splitOn_body h (x := []) (List.not_mem_nil)
  rw [List.nil_append] at this
  rw [pieces, this]
  rfl

/-- A text with a slash at its start is made of its pieces. -/
theorem body_pieces {t : List Char} (h : t.head? = some '/') :
    SlashFree (pieces t) ∧ body (pieces t) = t := by
  have hall : ∀ s : List Char, ∃ x xs, '/' ∉ x ∧ SlashFree xs ∧ s = x ++ body xs := by
    intro s
    induction s with
    | nil => exact ⟨[], [], List.not_mem_nil, fun _ h => absurd h List.not_mem_nil, rfl⟩
    | cons c s ih =>
      obtain ⟨x, xs, hx, hxs, rfl⟩ := ih
      by_cases hc : c = '/'
      · subst hc
        refine ⟨[], x :: xs, List.not_mem_nil, ?_, by simp⟩
        intro y hy
        rcases List.mem_cons.1 hy with rfl | hy
        · exact hx
        · exact hxs y hy
      · refine ⟨c :: x, xs, ?_, hxs, rfl⟩
        intro hmem
        rcases List.mem_cons.1 hmem with heq | hmem
        · exact hc heq.symm
        · exact hx hmem
  obtain ⟨x, xs, hx, hxs, rfl⟩ := hall t
  cases x with
  | nil =>
    rw [List.nil_append, pieces_body hxs]
    exact ⟨hxs, rfl⟩
  | cons c x =>
    obtain rfl : c = '/' := by simpa using h
    exact absurd List.mem_cons_self hx

/-- The texts of the leading pieces. -/
def prefixes (t : List Char) : List (List Char) := ((pieces t).inits.filter (· ≠ [])).map body

/-- **The leading pieces as paths**: a path is among them exactly when its names are. -/
theorem mem_prefixes_iff {t : List Char} (ht : t.head? = some '/') {p : Path} (hp : p.names ≠ []) :
    p.text ∈ prefixes t ↔ p.names <+: pieces t := by
  obtain ⟨hfree, -⟩ := body_pieces ht
  unfold prefixes Path.text
  rw [if_neg hp, List.mem_map]
  constructor
  · rintro ⟨ys, hys, heq⟩
    have hpre : ys <+: pieces t := (List.mem_inits _ _).1 (List.mem_filter.1 hys).1
    have hys' : SlashFree ys := fun y hy => hfree y (hpre.subset hy)
    rw [← body_injective hys' p.slashFree heq]
    exact hpre
  · intro hpre
    exact ⟨p.names, List.mem_filter.2 ⟨(List.mem_inits _ _).2 hpre, by simpa using hp⟩, rfl⟩

theorem mem_prefixes {t s : List Char} :
    s ∈ prefixes t ↔ ∃ ys, ys ≠ [] ∧ ys <+: pieces t ∧ s = body ys := by
  simp only [prefixes, List.mem_map, List.mem_filter, List.mem_inits, ne_eq, decide_not,
    Bool.not_eq_true', decide_eq_false_iff_not]
  constructor
  · rintro ⟨ys, ⟨hpre, hne⟩, rfl⟩
    exact ⟨ys, hne, hpre, rfl⟩
  · rintro ⟨ys, hne, hpre, rfl⟩
    exact ⟨ys, ⟨hpre, hne⟩, rfl⟩

theorem length_le_body (xs : List (List Char)) : xs.length ≤ (body xs).length := by
  induction xs with
  | nil => simp
  | cons x xs ih =>
    simp only [body_cons, List.length_cons, List.length_append]
    omega

end SlashPath
