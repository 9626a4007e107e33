import UtilVserver.NamespaceCleanup

/-!
# The text of an interface (`scripts/vserver-setup.functions`)

`--interface [<name>=][<device>:]<ip>[/<mask|prefixlen>]` is taken apart by `_setup_writeInterface`
and written to the files of the interface.

* `cutFront`, `cutMask`, `setupWriteInterface` — the source.
* `Spec` — a text of the documented form, by its components.
* `Reproduces` — the files hold these components.
* `Separable` — the condition.

Principal result: `setupWriteInterface_reproduces`.
-/

set_option autoImplicit false

namespace SetupInterface

open CString
open NamespaceCleanup (Plain Shell)

/-! ## The script -/

/-- `${t%%c*}` -/
def uptoFirst (c : Char) (t : Text) : Text := t.takeWhile (· ≠ c)

/-- `${t##*c}` -/
def behindLast (c : Char) (t : Text) : Text := (t.reverse.takeWhile (· ≠ c)).reverse

/-- `${t##p}` -/
def removeLongestPrefix (sh : Shell) (p t : Text) : Text :=
  match t.inits.reverse.find? (sh.matchesPattern p) with
  | some pre => t.drop pre.length
  | none => t

/-- `${t%%p}` -/
def removeLongestSuffix (sh : Shell) (p t : Text) : Text :=
  match t.tails.find? (sh.matchesPattern p) with
  | some suf => t.take (t.length - suf.length)
  | none => t

/-- The part of a text in front of a separator, if there is one, and what is left. -/
def cutFront (sh : Shell) (sep : Char) (tmp : Text) : Text × Text :=
  let front := uptoFirst sep tmp
  let front := if front ≠ tmp then front else []
  (front, removeLongestPrefix sh (front ++ [sep]) tmp)

/-- The address, the mask and the length of the prefix. -/
def cutMask (sh : Shell) (tmp : Text) : Text × Text × Text :=
  let mask := behindLast '/' tmp
  let mask := if mask ≠ tmp then mask else []
  let ip := removeLongestSuffix sh ('/' :: mask) tmp
  if uptoFirst '.' mask ≠ mask then (ip, mask, []) else (ip, [], mask)

/-- A word that `echo` takes for options. -/
def isEchoOption (t : Text) : Bool :=
  match t with
  | '-' :: (c :: cs) => (c :: cs).all fun c => c == 'n' || c == 'e' || c == 'E'
  | _ => false

/-- `echo "$1"` -/
def echo (t : Text) : Text :=
  if isEchoOption t then if 'n' ∈ t then [] else ['\n'] else t ++ ['\n']

/-- `_setup_writeSingleOption`: what is in the file; none when it is not written. -/
def writeSingleOption (t : Text) : Option Text := if t = [] then none else some (echo t)

/-- The binary operators of `test`. -/
def binaryOperators : List Text :=
  [['='], ['=', '='], ['!', '='], ['<'], ['>'], ['-', 'n', 't'], ['-', 'o', 't'], ['-', 'e', 'f'],
    ['-', 'e', 'q'], ['-', 'n', 'e'], ['-', 'l', 't'], ['-', 'l', 'e'], ['-', 'g', 't'],
    ['-', 'g', 'e']]

/-- `test -n "$dev" -o -n "$SETUP_NETDEV"`.  In front of three words or more an operator in the
second place makes the first three an expression, and what follows is one argument too many. -/
def testDevice (dev netdev : Text) : Bool :=
  if dev ∈ binaryOperators then false else dev ≠ [] || netdev ≠ []

/-- The files of an interface, and whether the missing device is reported. -/
structure Files where
  name : Option Text
  dev : Option Text
  ip : Option Text
  mask : Option Text
  pfx : Option Text
  nodev : Bool
  reported : Bool
  deriving DecidableEq

def nodevWord : Text := ['n', 'o', 'd', 'e', 'v']

/-- `_setup_writeInterface`, with the device that is given for all interfaces. -/
def setupWriteInterface (sh : Shell) (netdev tmp : Text) : Files :=
  let front := cutFront sh '=' tmp
  let device := cutFront sh ':' front.2
  let nodev := decide (device.1 = nodevWord)
  let dev := if nodev then [] else device.1
  let net := cutMask sh device.2
  { name := writeSingleOption front.1
    dev := writeSingleOption dev
    ip := writeSingleOption net.1
    mask := writeSingleOption net.2.1
    pfx := writeSingleOption net.2.2
    nodev := !testDevice dev netdev
    reported := !testDevice dev netdev && !nodev }

/-! ## Texts of the documented form -/

/-- A character of an address. -/
def isAddressChar (c : Char) : Bool :=
  c.isDigit || c == '.' || c == ':' || ('a' ≤ c && c ≤ 'f') || ('A' ≤ c && c ≤ 'F')

/-- A mask or the length of a prefix. -/
inductive Netmask where
  | mask (t : Text) (dotted : '.' ∈ t ∧ ∀ c ∈ t, c.isDigit = true ∨ c = '.')
  | pfx (t : Text) (decimal : t ≠ [] ∧ ∀ c ∈ t, c.isDigit = true)

def Netmask.text : Netmask → Text
  | .mask t _ => t
  | .pfx t _ => t

/-- A name or a device. -/
structure Word where
  text : Text
  nonempty : text ≠ []
  noSeparator : '=' ∉ text ∧ ':' ∉ text
  plain : Plain text

/-- The components of a text.  An address is known by its characters only, so there are more texts
here than addresses. -/
structure Spec where
  name : Option Word
  dev : Option Word
  ip : Text
  address : ip ≠ [] ∧ ∀ c ∈ ip, isAddressChar c = true
  net : Option Netmask

namespace Spec

def devText (spec : Spec) : Text := (spec.dev.map fun d => d.text ++ [':']).getD []

def netText (spec : Spec) : Text := (spec.net.map fun n => '/' :: n.text).getD []

def text (spec : Spec) : Text :=
  (spec.name.map fun n => n.text ++ ['=']).getD [] ++ (spec.devText ++ (spec.ip ++ spec.netText))

def mask (spec : Spec) : Option Text :=
  match spec.net with
  | some (.mask t _) => some t
  | _ => none

def pfx (spec : Spec) : Option Text :=
  match spec.net with
  | some (.pfx t _) => some t
  | _ => none

/-- The device that the file `dev` has to hold. -/
def fileDev (spec : Spec) : Option Text :=
  (spec.dev.map Word.text).filter (· ≠ nodevWord)

/-- The device of the interface: the given one, none, or the one for all interfaces. -/
def device (spec : Spec) (netdev : Text) : Option Text :=
  match spec.dev with
  | some d => if d.text = nodevWord then none else some d.text
  | none => if netdev = [] then none else some netdev

end Spec

/-- The device of the interface according to its files. -/
def Files.device (f : Files) (netdev : Text) : Option Text :=
  if f.nodev then none
  else
    match f.dev with
    | some content => some content.dropLast
    | none => if netdev = [] then none else some netdev

/-- The content of a file with one line. -/
def line (t : Text) : Text := t ++ ['\n']

/-- The files hold the components, the flag is there where it is asked for, and the device is the
one of the text. -/
def Reproduces (sh : Shell) (netdev : Text) (spec : Spec) : Prop :=
  let f := setupWriteInterface sh netdev spec.text
  f.name = spec.name.map (fun n => line n.text) ∧ f.dev = spec.fileDev.map line ∧
  f.ip = some (line spec.ip) ∧ f.mask = spec.mask.map line ∧ f.pfx = spec.pfx.map line ∧
  (spec.dev.map Word.text = some nodevWord → f.nodev = true) ∧
  f.device netdev = spec.device netdev

/-- An address with a colon comes behind a device, `nodev` is not used beside a device for all
interfaces, and no word is one for `echo` or `test`. -/
def Separable (netdev : Text) (spec : Spec) : Prop :=
  (':' ∈ spec.ip → spec.dev ≠ none) ∧
  (spec.dev.map Word.text = some nodevWord → netdev = []) ∧
  (∀ n ∈ spec.name, isEchoOption n.text = false) ∧
  ∀ d ∈ spec.dev, isEchoOption d.text = false ∧ d.text ∉ binaryOperators

/-! ## Cutting -/

theorem removeLongestPrefix_plain {sh : Shell} {p : Text} (hp : Plain p) (r : Text) :
    removeLongestPrefix sh p (p ++ r) = r := by
  unfold removeLongestPrefix
  cases hfind : (p ++ r).inits.reverse.find? (sh.matchesPattern p) with
  | none =>
    have hmem : p ∈ (p ++ r).inits.reverse :=
      List.mem_reverse.2 ((List.mem_inits _ _).2 (List.prefix_append p r))
    exact absurd ((sh.matchesPattern_plain p p hp).2 rfl) (List.find?_eq_none.1 hfind p hmem)
  | some pre =>
    obtain rfl := (sh.matchesPattern_plain p pre hp).1 (List.find?_some hfind)
    exact List.drop_left

theorem removeLongestPrefix_of_not {sh : Shell} {p t : Text} (hp : Plain p) (h : ¬ p <+: t) :
    removeLongestPrefix sh p t = t := by
  unfold removeLongestPrefix
  cases hfind : t.inits.reverse.find? (sh.matchesPattern p) with
  | none => rfl
  | some pre =>
    obtain rfl := (sh.matchesPattern_plain p pre hp).1 (List.find?_some hfind)
    exact absurd ((List.mem_inits _ _).1 (List.mem_reverse.1 (List.mem_of_find?_eq_some hfind))) h

theorem removeLongestSuffix_plain {sh : Shell} {p : Text} (hp : Plain p) (t : Text) :
    removeLongestSuffix sh p (t ++ p) = t := by
  unfold removeLongestSuffix
  cases hfind : (t ++ p).tails.find? (sh.matchesPattern p) with
  | none =>
    have hmem : p ∈ (t ++ p).tails := (List.mem_tails _ _).2 (List.suffix_append t p)
    exact absurd ((sh.matchesPattern_plain p p hp).2 rfl) (List.find?_eq_none.1 hfind p hmem)
  | some suf =>
    obtain rfl := (sh.matchesPattern_plain p suf hp).1 (List.find?_some hfind)
    simp

theorem removeLongestSuffix_of_not {sh : Shell} {p t : Text} (hp : Plain p) (h : ¬ p <:+ t) :
    removeLongestSuffix sh p t = t := by
  unfold removeLongestSuffix
  cases hfind : t.tails.find? (sh.matchesPattern p) with
  | none => rfl
  | some suf =>
    obtain rfl := (sh.matchesPattern_plain p suf hp).1 (List.find?_some hfind)
    exact absurd ((List.mem_tails _ _).1 (List.mem_of_find?_eq_some hfind)) h

theorem uptoFirst_append {c : Char} {t : Text} (h : c ∉ t) (r : Text) :
    uptoFirst c (t ++ c :: r) = t :=
  takeWhile_append_stop (by simp) t r |>.trans <| List.takeWhile_eq_self_iff.2 fun x hx =>
    decide_eq_true fun h' => h (h' ▸ hx)

theorem uptoFirst_eq_self {c : Char} {t : Text} (h : c ∉ t) : uptoFirst c t = t :=
  List.takeWhile_eq_self_iff.2 fun _ hx => decide_eq_true fun h' => h (h' ▸ hx)

/-- **A part in front of its separator.** -/
theorem cutFront_append {sh : Shell} {sep : Char} {t : Text} (hsep : Plain [sep]) (ht : Plain t)
    (h : sep ∉ t) (r : Text) : cutFront sh sep (t ++ sep :: r) = (t, r) := by
  have hne : t ≠ t ++ sep :: r := by
    intro heq
    have := congrArg List.length heq
    simp at this
  have hplain : Plain (t ++ [sep]) := fun c hc => by
    rcases List.mem_append.1 hc with hc | hc
    · exact ht c hc
    · exact hsep c hc
  have hsplit : t ++ sep :: r = (t ++ [sep]) ++ r := by simp
  unfold cutFront
  dsimp only
  rw [uptoFirst_append h, if_pos hne, hsplit, removeLongestPrefix_plain hplain]

/-- A text without the separator has no such part. -/
theorem cutFront_of_not_mem {sh : Shell} {sep : Char} {t : Text} (hsep : Plain [sep])
    (h : sep ∉ t) : cutFront sh sep t = ([], t) := by
  have hpre : ¬ [sep] <+: t := fun hpre => h (hpre.subset (List.mem_singleton.2 rfl))
  unfold cutFront
  dsimp only
  rw [uptoFirst_eq_self h, if_neg (not_not_intro rfl), List.nil_append,
    removeLongestPrefix_of_not hsep hpre]

theorem behindLast_append {c : Char} {t : Text} (h : c ∉ t) (r : Text) :
    behindLast c (r ++ c :: t) = t := by
  have hsplit : (r ++ c :: t).reverse = t.reverse ++ c :: r.reverse := by simp
  have hcut := uptoFirst_append (t := t.reverse) (fun hc => h (List.mem_reverse.1 hc)) r.reverse
  rw [behindLast, hsplit]
  exact (congrArg List.reverse hcut).trans (List.reverse_reverse t)

theorem behindLast_eq_self {c : Char} {t : Text} (h : c ∉ t) : behindLast c t = t := by
  have hcut := uptoFirst_eq_self (t := t.reverse) fun hc => h (List.mem_reverse.1 hc)
  exact (congrArg List.reverse hcut).trans (List.reverse_reverse t)

theorem uptoFirst_ne_self {c : Char} {t : Text} (h : c ∈ t) : uptoFirst c t ≠ t := by
  intro heq
  have := List.takeWhile_eq_self_iff.1 heq c h
  simp at this

/-- What a mask and a length have in common. -/
theorem Netmask.chars (n : Netmask) : ∀ c ∈ n.text, c.isDigit = true ∨ c = '.' := by
  cases n with
  | mask t h => exact h.2
  | pfx t h => exact fun c hc => Or.inl (h.2 c hc)

theorem not_mem_of_chars {t : Text} {x : Char} (h : ∀ c ∈ t, c.isDigit = true ∨ c = '.')
    (hx : x.isDigit = false) (hdot : x ≠ '.') : x ∉ t := by
  intro hmem
  rcases h x hmem with h | h
  · rw [hx] at h
    cases h
  · exact hdot h

theorem plain_of_not_mem {t : Text} (h : ∀ x ∈ ['*', '?', '[', '\\'], x ∉ t) : Plain t :=
  fun c hc hx => h c hx hc

theorem Netmask.plain (n : Netmask) : Plain ('/' :: n.text) := by
  refine plain_of_not_mem fun x hx hmem => ?_
  simp only [List.mem_cons, List.not_mem_nil, or_false] at hx
  rcases List.mem_cons.1 hmem with rfl | hmem
  · revert hx
    decide
  · rcases hx with rfl | rfl | rfl | rfl <;>
      exact not_mem_of_chars n.chars (by decide) (by decide) hmem

/-- **The mask behind the address.** -/
theorem cutMask_append (sh : Shell) (ip : Text) (n : Netmask) :
    cutMask sh (ip ++ '/' :: n.text) =
      match n with
      | .mask t _ => (ip, t, [])
      | .pfx t _ => (ip, [], t) := by
  have hslash : '/' ∉ n.text := not_mem_of_chars n.chars (by decide) (by decide)
  have hne : n.text ≠ ip ++ '/' :: n.text := by
    intro heq
    have := congrArg List.length heq
    simp only [List.length_append, List.length_cons] at this
    omega
  unfold cutMask
  dsimp only
  rw [behindLast_append hslash, if_pos hne, removeLongestSuffix_plain n.plain]
  cases n with
  | mask t ht => exact if_pos (uptoFirst_ne_self ht.1)
  | pfx t ht =>
    have hdot : '.' ∉ t := fun hmem => by
      have := ht.2 '.' hmem
      revert this
      decide
    exact if_neg (not_not_intro (uptoFirst_eq_self hdot))

theorem cutMask_none (sh : Shell) {ip : Text} (h : '/' ∉ ip) : cutMask sh ip = (ip, [], []) := by
  have hsuf : ¬ ['/'] <:+ ip := fun hsuf => h (hsuf.subset (List.mem_singleton.2 rfl))
  unfold cutMask
  dsimp only
  rw [behindLast_eq_self h, if_neg (not_not_intro rfl),
    removeLongestSuffix_of_not (by decide) hsuf]
  rfl

theorem cutMask_net (sh : Shell) {ip : Text} (h : '/' ∉ ip) (spec : Spec) :
    cutMask sh (ip ++ spec.netText) = (ip, spec.mask.getD [], spec.pfx.getD []) := by
  unfold Spec.netText Spec.mask Spec.pfx
  cases spec.net with
  | none =>
    rw [Option.map_none, Option.getD_none, List.append_nil, cutMask_none sh h]
  | some n =>
    rw [Option.map_some, Option.getD_some, cutMask_append sh ip]
    cases n <;> rfl

/-! ## Writing -/

theorem isEchoOption_of_not_mem {t : Text} (h : '-' ∉ t) : isEchoOption t = false := by
  unfold isEchoOption
  split
  · exact absurd List.mem_cons_self h
  · rfl

theorem echo_eq_line_iff (t : Text) : echo t = line t ↔ isEchoOption t = false := by
  unfold echo line
  cases hopt : isEchoOption t with
  | false => simp
  | true =>
    simp only [if_true, Bool.true_eq_false, iff_false]
    have hne : t ≠ [] := by
      rintro rfl
      cases hopt
    have hpos := List.length_pos_iff.2 hne
    intro heq
    have hlen := congrArg List.length heq
    rw [List.length_append, List.length_singleton] at hlen
    split at hlen
    · rw [List.length_nil] at hlen
      omega
    · rw [List.length_singleton] at hlen
      omega

theorem writeSingleOption_of_ne {t : Text} (h : t ≠ []) : writeSingleOption t = some (echo t) :=
  if_neg h

/-- A component that may be missing. -/
theorem writeSingleOption_getD {o : Option Text} (h : ∀ t ∈ o, t ≠ []) :
    writeSingleOption (o.getD []) = o.map echo := by
  cases o with
  | none => rfl
  | some t => exact writeSingleOption_of_ne (h t rfl)

/-- Digits and dots are written as they are. -/
theorem writeSingleOption_chars {o : Option Text}
    (h : ∀ t ∈ o, t ≠ [] ∧ ∀ c ∈ t, c.isDigit = true ∨ c = '.') :
    writeSingleOption (o.getD []) = o.map line := by
  rw [writeSingleOption_getD fun t ht => (h t ht).1]
  cases o with
  | none => rfl
  | some t =>
    have hdash : '-' ∉ t := not_mem_of_chars (h t rfl).2 (by decide) (by decide)
    exact congrArg some ((echo_eq_line_iff t).2 (isEchoOption_of_not_mem hdash))

namespace Spec

theorem mask_chars (spec : Spec) :
    ∀ t ∈ spec.mask, t ≠ [] ∧ ∀ c ∈ t, c.isDigit = true ∨ c = '.' := by
  unfold mask
  cases spec.net with
  | none => intro t ht; cases ht
  | some n =>
    cases n with
    | mask t h =>
      rintro _ ⟨⟩
      exact ⟨List.ne_nil_of_mem h.1, h.2⟩
    | pfx t h => intro t ht; cases ht

theorem pfx_chars (spec : Spec) :
    ∀ t ∈ spec.pfx, t ≠ [] ∧ ∀ c ∈ t, c.isDigit = true ∨ c = '.' := by
  unfold pfx
  cases spec.net with
  | none => intro t ht; cases ht
  | some n =>
    cases n with
    | mask t h => intro t ht; cases ht
    | pfx t h =>
      rintro _ ⟨⟩
      exact ⟨h.1, fun c hc => Or.inl (h.2 c hc)⟩

theorem ip_not_mem (spec : Spec) {x : Char} (hx : isAddressChar x = false) : x ∉ spec.ip := by
  intro hmem
  rw [spec.address.2 x hmem] at hx
  cases hx

theorem netText_not_mem (spec : Spec) {x : Char} (hx : x.isDigit = false) (hdot : x ≠ '.')
    (hslash : x ≠ '/') : x ∉ spec.netText := by
  unfold netText
  cases spec.net with
  | none => exact List.not_mem_nil
  | some n =>
    rw [Option.map_some, Option.getD_some, List.mem_cons, not_or]
    exact ⟨hslash, not_mem_of_chars n.chars hx hdot⟩

theorem devText_not_mem (spec : Spec) : '=' ∉ spec.devText := by
  unfold devText
  cases spec.dev with
  | none => exact List.not_mem_nil
  | some d =>
    rw [Option.map_some, Option.getD_some, List.mem_append, not_or]
    exact ⟨d.noSeparator.1, by decide⟩

theorem fileDev_ne_nil (spec : Spec) : ∀ t ∈ spec.fileDev, t ≠ [] := by
  intro t ht
  obtain ⟨ht, -⟩ := Option.filter_eq_some_iff.1 ht
  obtain ⟨d, -, rfl⟩ := Option.map_eq_some_iff.1 ht
  exact d.nonempty

end Spec

/-! ## The text taken apart -/

theorem plain_equals : Plain ['='] := by decide

theorem plain_colon : Plain [':'] := by decide

theorem cutFront_name (sh : Shell) (spec : Spec) :
    cutFront sh '=' spec.text =
      ((spec.name.map Word.text).getD [], spec.devText ++ (spec.ip ++ spec.netText)) := by
  have hrest : '=' ∉ spec.devText ++ (spec.ip ++ spec.netText) := by
    simp only [List.mem_append, not_or]
    exact ⟨spec.devText_not_mem, spec.ip_not_mem (by decide),
      spec.netText_not_mem (by decide) (by decide) (by decide)⟩
  unfold Spec.text
  cases spec.name with
  | none => exact cutFront_of_not_mem plain_equals hrest
  | some n =>
    rw [Option.map_some, Option.map_some, Option.getD_some, Option.getD_some, List.append_assoc]
    exact cutFront_append plain_equals n.plain n.noSeparator.1 _

theorem cutFront_dev (sh : Shell) (spec : Spec) (h : ':' ∈ spec.ip → spec.dev ≠ none) :
    cutFront sh ':' (spec.devText ++ (spec.ip ++ spec.netText)) =
      ((spec.dev.map Word.text).getD [], spec.ip ++ spec.netText) := by
  unfold Spec.devText
  cases hdev : spec.dev with
  | none =>
    have hrest : ':' ∉ spec.ip ++ spec.netText := by
      rw [List.mem_append, not_or]
      exact ⟨fun hmem => h hmem hdev, spec.netText_not_mem (by decide) (by decide) (by decide)⟩
    exact cutFront_of_not_mem plain_colon hrest
  | some d =>
    rw [Option.map_some, Option.map_some, Option.getD_some, Option.getD_some, List.append_assoc]
    exact cutFront_append plain_colon d.plain d.noSeparator.2 _

/-- The word behind the test for `nodev`. -/
theorem fileDev_getD (spec : Spec) :
    (if (spec.dev.map Word.text).getD [] = nodevWord then []
      else (spec.dev.map Word.text).getD []) = spec.fileDev.getD [] := by
  unfold Spec.fileDev
  cases spec.dev with
  | none => rfl
  | some d =>
    rw [Option.map_some, Option.getD_some]
    by_cases hd : d.text = nodevWord
    · rw [if_pos hd, Option.filter_some, if_neg (by simp [hd])]
      rfl
    · rw [if_neg hd, Option.filter_some, if_pos (by simp [hd])]
      rfl

/-- **The files for a text whose address is recognised.** -/
theorem setupWriteInterface_text (sh : Shell) (netdev : Text) (spec : Spec)
    (h : ':' ∈ spec.ip → spec.dev ≠ none) :
    let f := setupWriteInterface sh netdev spec.text
    f.name = (spec.name.map Word.text).map echo ∧ f.dev = spec.fileDev.map echo ∧
    f.ip = some (line spec.ip) ∧ f.mask = spec.mask.map line ∧ f.pfx = spec.pfx.map line ∧
    f.nodev = !testDevice (spec.fileDev.getD []) netdev := by
  have hslash : '/' ∉ spec.ip := spec.ip_not_mem (by decide)
  have hname : ∀ t ∈ spec.name.map Word.text, t ≠ [] := by
    intro t ht
    obtain ⟨n, -, rfl⟩ := Option.map_eq_some_iff.1 ht
    exact n.nonempty
  have hip : writeSingleOption spec.ip = some (line spec.ip) := by
    rw [writeSingleOption_of_ne spec.address.1, (echo_eq_line_iff _).2
      (isEchoOption_of_not_mem (spec.ip_not_mem (by decide)))]
  unfold setupWriteInterface
  simp only [cutFront_name, cutFront_dev sh spec h, cutMask_net sh hslash spec,
    decide_eq_true_eq, fileDev_getD]
  exact ⟨writeSingleOption_getD hname, writeSingleOption_getD spec.fileDev_ne_nil, hip,
    writeSingleOption_chars spec.mask_chars, writeSingleOption_chars spec.pfx_chars, trivial⟩

/-! ## An address with colons and no device -/

theorem nodevWord_not_address : ∃ c ∈ nodevWord, isAddressChar c = false :=
  ⟨'n', by decide, by decide⟩

theorem echo_length_le (t : Text) : (echo t).length ≤ t.length + 1 := by
  unfold echo
  split
  · split <;> simp
  · simp

/-- **Without a device an address loses its part in front of the first colon.** -/
theorem not_reproduces_of_colon (sh : Shell) (netdev : Text) {spec : Spec} (hcolon : ':' ∈ spec.ip)
    (hdev : spec.dev = none) : ¬ Reproduces sh netdev spec := by
  obtain ⟨d, r, hd, hip⟩ : ∃ d r, ':' ∉ d ∧ spec.ip = d ++ ':' :: r := by
    rcases strchr_cases spec.ip ':' with h | h
    · exact absurd hcolon h
    · exact h
  have haddress : ∀ {x : Char}, isAddressChar x = false → x ∉ d ∧ x ∉ r := fun {x} hx => by
    have h := spec.ip_not_mem hx
    rw [hip, List.mem_append, List.mem_cons, not_or, not_or] at h
    exact ⟨h.1, h.2.2⟩
  have hplain : Plain d := plain_of_not_mem fun x hx => (haddress (by
    simp only [List.mem_cons, List.not_mem_nil, or_false] at hx
    rcases hx with rfl | rfl | rfl | rfl <;> decide)).1
  have hword : d ≠ nodevWord := by
    rintro rfl
    obtain ⟨c, hc, hchar⟩ := nodevWord_not_address
    exact (haddress hchar).1 hc
  have hfront : cutFront sh ':' (spec.devText ++ (spec.ip ++ spec.netText)) =
      (d, r ++ spec.netText) := by
    unfold Spec.devText
    rw [hdev, hip, List.append_assoc]
    exact cutFront_append plain_colon hplain hd _
  rintro ⟨-, hfile, hfileIp, -⟩
  unfold setupWriteInterface at hfile hfileIp
  simp only [cutFront_name, hfront, cutMask_net sh (haddress (x := '/') (by decide)).2 spec,
    decide_eq_true_eq, if_neg hword] at hfile hfileIp
  have hnone : spec.fileDev = none := by
    unfold Spec.fileDev
    rw [hdev]
    rfl
  rw [hnone] at hfile
  -- the device has to be empty, so the address has lost its first colon
  have hnil : d = [] := by
    by_contra hne
    rw [writeSingleOption_of_ne hne] at hfile
    cases hfile
  by_cases hr : r = []
  · rw [hr] at hfileIp
    cases hfileIp
  · rw [writeSingleOption_of_ne hr, hip, hnil] at hfileIp
    have hlen := congrArg List.length (Option.some.inj hfileIp)
    have hle := echo_length_le r
    unfold line at hlen
    simp only [List.nil_append, List.length_append, List.length_cons, List.length_nil] at hlen
    omega

/-! ## The components -/

theorem name_iff (spec : Spec) :
    (spec.name.map Word.text).map echo = spec.name.map (fun n => line n.text) ↔
      ∀ n ∈ spec.name, isEchoOption n.text = false := by
  cases spec.name with
  | none => simp
  | some n => simp [echo_eq_line_iff]

/-- **The device**: what is written and what it means. -/
theorem device_iff (spec : Spec) (netdev : Text) (f : Files)
    (hdev : f.dev = spec.fileDev.map echo)
    (hnodev : f.nodev = !testDevice (spec.fileDev.getD []) netdev) :
    (f.dev = spec.fileDev.map line ∧
      (spec.dev.map Word.text = some nodevWord → f.nodev = true) ∧
      f.device netdev = spec.device netdev) ↔
    (spec.dev.map Word.text = some nodevWord → netdev = []) ∧
      ∀ d ∈ spec.dev, isEchoOption d.text = false ∧ d.text ∉ binaryOperators := by
  have hnone : testDevice [] netdev = decide (netdev ≠ []) := by
    unfold testDevice
    rw [if_neg (by decide)]
    simp
  unfold Files.device
  rw [hnodev, hdev]
  unfold Spec.fileDev Spec.device
  cases spec.dev with
  | none =>
    rw [Option.map_none, Option.filter_none, Option.getD_none, hnone]
    by_cases hnet : netdev = [] <;> simp [hnet]
  | some d =>
    by_cases hd : d.text = nodevWord
    · have hecho : isEchoOption d.text = false := by rw [hd]; decide
      have hop : d.text ∉ binaryOperators := by rw [hd]; decide
      have hfilter : ((some d).map Word.text).filter (· ≠ nodevWord) = none := by simp [hd]
      have hall : ∀ d' ∈ some d, isEchoOption d'.text = false ∧ d'.text ∉ binaryOperators := by
        rintro _ ⟨⟩
        exact ⟨hecho, hop⟩
      rw [hfilter, Option.getD_none, hnone]
      by_cases hnet : netdev = []
      · refine iff_of_true ?_ ⟨fun _ => hnet, hall⟩
        simp [hnet, hd]
      · refine iff_of_false (fun h => ?_) fun h => hnet (h.1 (congrArg some hd))
        have hflag := h.2.1 (congrArg some hd)
        rw [decide_eq_true hnet] at hflag
        cases hflag
    · have hfilter : ((some d).map Word.text).filter (· ≠ nodevWord) = some d.text := by simp [hd]
      have htest : testDevice d.text netdev = decide (d.text ∉ binaryOperators) := by
        unfold testDevice
        split <;> simp [*, d.nonempty]
      have hline : (line d.text).dropLast = d.text := List.dropLast_concat
      rw [hfilter, Option.getD_some, htest]
      by_cases hop : d.text ∈ binaryOperators
      · simp [hop, hd]
      · simp only [hop, Option.map_some, Option.some.injEq, echo_eq_line_iff]
        constructor
        · rintro ⟨hecho, -, -⟩
          exact ⟨fun h => absurd h hd, fun _ h => by cases h; exact ⟨hecho, hop⟩⟩
        · rintro ⟨-, hall⟩
          have hecho := (hall d rfl).1
          refine ⟨hecho, fun h => absurd h hd, ?_⟩
          rw [(echo_eq_line_iff _).2 hecho, hline]
          simp [hd]

/-- **When the files reproduce the text.** -/
theorem setupWriteInterface_reproduces (sh : Shell) (netdev : Text) (spec : Spec) :
    Reproduces sh netdev spec ↔ Separable netdev spec := by
  by_cases h : ':' ∈ spec.ip → spec.dev ≠ none
  · obtain ⟨hname, hdev, hip, hmask, hpfx, hnodev⟩ := setupWriteInterface_text sh netdev spec h
    have hdevice := device_iff spec netdev _ hdev hnodev
    unfold Reproduces Separable
    dsimp only
    rw [← name_iff, ← hname]
    constructor
    · rintro ⟨hn, hd, -, -, -, hflag, hdevice'⟩
      obtain ⟨h1, h2⟩ := hdevice.1 ⟨hd, hflag, hdevice'⟩
      exact ⟨h, h1, hn, h2⟩
    · rintro ⟨-, h1, hn, h2⟩
      obtain ⟨hd, hflag, hdevice'⟩ := hdevice.2 ⟨h1, h2⟩
      exact ⟨hn, hd, hip, hmask, hpfx, hflag, hdevice'⟩
  · obtain ⟨hcolon, hdev⟩ := Classical.not_imp.1 h
    exact iff_of_false (not_reproduces_of_colon sh netdev hcolon (not_not.1 hdev))
      fun hsep => h hsep.1

/-- `fe80::1/64` -/
def linkLocal : Spec where
  name := none
  dev := none
  ip := ['f', 'e', '8', '0', ':', ':', '1']
  address := ⟨by decide, forall_mem_of_all (by decide)⟩
  net := some (.pfx ['6', '4'] ⟨by decide, forall_mem_of_all (by decide)⟩)

/-- The first group of the address is taken for the device. -/
theorem setupWriteInterface_linkLocal :
    (setupWriteInterface NamespaceCleanup.literalShell [] linkLocal.text).dev =
      some ['f', 'e', '8', '0', '\n'] ∧
    (setupWriteInterface NamespaceCleanup.literalShell [] linkLocal.text).ip =
      some [':', '1', '\n'] ∧
    ¬ Reproduces NamespaceCleanup.literalShell [] linkLocal := by
  have hdev : (setupWriteInterface NamespaceCleanup.literalShell [] linkLocal.text).dev =
      some ['f', 'e', '8', '0', '\n'] := by decide +kernel
  have hip : (setupWriteInterface NamespaceCleanup.literalShell [] linkLocal.text).ip =
      some [':', '1', '\n'] := by decide +kernel
  refine ⟨hdev, hip, fun h => ?_⟩
  have hnone := h.2.1
  rw [hdev] at hnone
  cases hnone

end SetupInterface
