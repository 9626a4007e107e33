import UtilVserver.Lib.DecimalText
import UtilVserver.VserverStat

/-!
# The line of a process (`get_process_info` of `src/vserver-stat.c`)

The fields of `/proc/<pid>/stat` are numbered; the second one is the name of the command in
parentheses, and the fields behind it are found by counting blanks.

* `skipBlanks`, `get_process_info` — the code.
* `Comm`, `Fields`, `statLine` — the lines the kernel writes.
* `expectedInfo` — the numbered fields.

Principal result: `get_process_info_exact`.
-/

set_option autoImplicit false

namespace ProcessStat

open CString DecimalText VserverStat

def VC_NOCTX : Xid := -1

/-- `for (idx = 0; idx<n && *p!='\0'; ++p) if (*p==' ') ++idx;` -/
def skipBlanks : Nat → Text → Text
  | 0, p => p
  | _ + 1, [] => []
  | n + 1, c :: p => if c = ' ' then skipBlanks n p else skipBlanks (n + 1) p

/-- `hertz`, a number of ticks for a second. -/
structure Clock where
  hertz : Nat
  pos : 0 < hertz
  small : hertz * 1000 < 2 ^ 64

/-- `toMsec`, on 64 bits. -/
def Clock.toMsec (k : Clock) (v : BitVec 64) : BitVec 64 := v * 1000 / BitVec.ofNat 64 k.hertz

/-- `strtol(p, &p, 10)` as 64 bits, and the moved `p`. -/
def strtol (p : Text) : BitVec 64 × Text :=
  let r := strtol10 64 p
  (BitVec.ofInt 64 r.1, r.2)

/-- A null pointer is returned, or used, or the record. -/
inductive Result where
  | null
  | undefined
  | info (process : ProcessInfo)
  deriving DecidableEq

/-- The fields behind the parenthesis. -/
def readFields (k : Clock) (s_context : Xid) (p : Text) : ProcessInfo :=
  let utime := strtol (skipBlanks 12 p)
  let stime := strtol utime.2.tail
  let cutime := strtol stime.2.tail
  let cstime := strtol cutime.2.tail
  let start_time := strtol (skipBlanks 5 cstime.2)
  let VmSize := strtol start_time.2.tail
  let VmRSS := strtol VmSize.2.tail
  { utime := k.toMsec utime.1
    stime := k.toMsec stime.1
    cutime := k.toMsec cutime.1
    cstime := k.toMsec cstime.1
    start_time := k.toMsec start_time.1
    VmSize := VmSize.1
    VmRSS := VmRSS.1
    s_context := s_context }

/-- `get_process_info`, with the content of the file if it can be opened; `stale` is what the memory
from behind these bytes on holds. -/
def get_process_info (k : Clock) (s_context : Xid) (file : Option Text) (stale : Text) : Result :=
  if s_context = VC_NOCTX then .null
  else
    match file with
    | none => .null
    | some content =>
      let data := content.take 1024
      if data.length < 1 then .null
      else
        match strchr (cstr (data ++ stale)) ')' with
        | none => .undefined
        | some p => .info (readFields k s_context p)

/-! ## The lines of the kernel -/

/-- The name of a command. -/
structure Comm where
  text : Text
  noNul : '\x00' ∉ text
  short : text.length ≤ 64

/-- A field with another number than those that are read. -/
structure Field where
  text : Text
  nonempty : text ≠ []
  visible : ∀ c ∈ text, isspace c = false ∧ c ≠ '\x00'
  short : text.length ≤ 20

/-- A number that is read. -/
abbrev Value := { n : Nat // n < 2 ^ 63 }

abbrev Pid := { n : Nat // n < 2 ^ 31 }

/-- The fields behind the name: those from 3 to 13, from 14 to 17, from 18 to 21, from 22 to 24, and
what is behind a blank then. -/
structure Fields where
  front : List Field
  utime : Value
  stime : Value
  cutime : Value
  cstime : Value
  middle : List Field
  starttime : Value
  vsize : Value
  rss : Value
  rest : Text
  front_length : front.length = 11
  middle_length : middle.length = 4

/-- Fields with a blank in front of each. -/
def spaced (fs : List Field) : Text := fs.flatMap fun f => ' ' :: f.text

/-- A number, a blank and what follows. -/
def number (n : Nat) (t : Text) : Text := decimal n ++ ' ' :: t

/-- What follows the closing parenthesis. -/
def Fields.text (f : Fields) : Text :=
  spaced f.front ++ ' ' :: number f.utime (number f.stime (number f.cutime (decimal f.cstime ++
    (spaced f.middle ++ ' ' :: number f.starttime (number f.vsize (number f.rss f.rest))))))

def statLine (pid : Pid) (name : Comm) (f : Fields) : Text :=
  decimal pid ++ " (".toList ++ name.text ++ ")".toList ++ f.text

/-- The record with the values of the fields. -/
def expectedInfo (k : Clock) (s_context : Xid) (f : Fields) : ProcessInfo :=
  { utime := k.toMsec (BitVec.ofNat 64 f.utime)
    stime := k.toMsec (BitVec.ofNat 64 f.stime)
    cutime := k.toMsec (BitVec.ofNat 64 f.cutime)
    cstime := k.toMsec (BitVec.ofNat 64 f.cstime)
    start_time := k.toMsec (BitVec.ofNat 64 f.starttime)
    VmSize := BitVec.ofNat 64 f.vsize
    VmRSS := BitVec.ofNat 64 f.rss
    s_context := s_context }

/-- What is from the first `)` on, in the name with the closing parenthesis. -/
def behindParen (name : Comm) : Text := (name.text ++ [')']).dropWhile (· != ')')

/-! ## Blanks -/

theorem skipBlanks_free {w : Text} (h : ' ' ∉ w) (n : Nat) (t : Text) :
    skipBlanks (n + 1) (w ++ t) = skipBlanks (n + 1) t := by
  induction w with
  | nil => rfl
  | cons c w ih =>
    have hc : c ≠ ' ' := fun hc => h (hc ▸ List.mem_cons_self)
    rw [List.cons_append, skipBlanks, if_neg hc]
    exact ih fun hm => h (List.mem_cons_of_mem c hm)

theorem skipBlanks_blank (n : Nat) (t : Text) : skipBlanks (n + 1) (' ' :: t) = skipBlanks n t := rfl

theorem skipBlanks_zero (t : Text) : skipBlanks 0 t = t := by rw [skipBlanks]

/-- What is left behind some blanks of a text: as many fewer have to be skipped, or the rest of the
text is there. -/
theorem skipBlanks_append (n : Nat) (w : Text) :
    (w.count ' ' < n ∧ ∀ t, skipBlanks n (w ++ t) = skipBlanks (n - w.count ' ') t) ∨
      (n ≤ w.count ' ' ∧ ∃ v, ∀ t, skipBlanks n (w ++ t) = v ++ t) := by
  induction w generalizing n with
  | nil =>
    cases n with
    | zero => exact Or.inr ⟨Nat.le_refl 0, [], skipBlanks_zero⟩
    | succ n => exact Or.inl ⟨Nat.succ_pos n, fun _ => rfl⟩
  | cons c w ih =>
    cases n with
    | zero => exact Or.inr ⟨Nat.zero_le _, c :: w, fun t => skipBlanks_zero _⟩
    | succ n =>
      by_cases hc : c = ' '
      · subst hc
        simp only [List.cons_append, skipBlanks_blank, List.count_cons_self]
        obtain ⟨hlt, heq⟩ | ⟨hle, v, heq⟩ := ih n
        · refine Or.inl ⟨by omega, fun t => ?_⟩
          rw [heq, Nat.add_sub_add_right]
        · exact Or.inr ⟨by omega, v, heq⟩
      · have hcount : (c :: w).count ' ' = w.count ' ' := List.count_cons_of_ne hc
        simp only [List.cons_append, skipBlanks, if_neg hc, hcount]
        exact ih (n + 1)

theorem Field.noBlank (f : Field) : ' ' ∉ f.text := fun hm => by
  have := (f.visible ' ' hm).1
  exact absurd this (by decide)

/-- All fields are skipped, each with its blank. -/
theorem skipBlanks_spaced (fs : List Field) (n : Nat) (t : Text) :
    skipBlanks (fs.length + (n + 1)) (spaced fs ++ t) = skipBlanks (n + 1) t := by
  induction fs with
  | nil => simp [spaced]
  | cons f fs ih =>
    have hsplit : spaced (f :: fs) ++ t = ' ' :: (f.text ++ (spaced fs ++ t)) := by simp [spaced]
    have hlen : (f :: fs).length + (n + 1) = (fs.length + n + 1) + 1 := by
      rw [List.length_cons]
      omega
    rw [hsplit, hlen, skipBlanks_blank, skipBlanks_free f.noBlank]
    exact ih

/-- Fewer blanks lead to a field. -/
theorem skipBlanks_field (fs : List Field) {n : Nat} (hn : n < fs.length) :
    ∃ f : Field, ∀ t, ∃ r, skipBlanks (n + 1) (spaced fs ++ ' ' :: t) = f.text ++ ' ' :: r := by
  induction fs generalizing n with
  | nil => exact absurd hn (Nat.not_lt_zero n)
  | cons f fs ih =>
    have hsplit : ∀ t, spaced (f :: fs) ++ ' ' :: t = ' ' :: (f.text ++ (spaced fs ++ ' ' :: t)) :=
      fun t => by simp [spaced]
    cases n with
    | zero =>
      refine ⟨f, fun t => ?_⟩
      rw [hsplit, skipBlanks_blank, skipBlanks_zero]
      cases fs with
      | nil => exact ⟨t, rfl⟩
      | cons g gs => exact ⟨g.text ++ (spaced gs ++ ' ' :: t), by simp [spaced]⟩
    | succ n =>
      obtain ⟨g, hg⟩ := ih (Nat.lt_of_succ_lt_succ hn)
      refine ⟨g, fun t => ?_⟩
      rw [hsplit, skipBlanks_blank, skipBlanks_free f.noBlank]
      exact hg t

/-! ## Numbers -/

theorem strtol_decimal {n : Nat} (hn : n < 2 ^ 63) {r : Text} (hr : Ends r) :
    strtol (decimal n ++ r) = (BitVec.ofNat 64 n, r) := by
  unfold strtol
  rw [strtol10_numeral (numeral_decimal n) hr, digitsVal_decimal, clamp_of_lt hn]
  exact congrArg (·, r) (BitVec.ofInt_natCast 64 n)

theorem strtol_number (n : Value) (t : Text) : strtol (number n t) = (BitVec.ofNat 64 n, ' ' :: t) :=
  strtol_decimal n.2 (ends_cons (by decide) t)

/-- What follows fields with blanks in front of them begins with a blank. -/
theorem spaced_ends (fs : List Field) (t : Text) : Ends (spaced fs ++ ' ' :: t) := by
  cases fs with
  | nil => exact ends_cons (by decide) t
  | cons f fs => exact ends_cons (by decide) _

/-- A number in front of a character that ends it. -/
theorem strtol_stop {w : Text} {c : Char} (hdigit : isDigitIn 10 c = false) (hm : c ≠ '-')
    (hp : c ≠ '+') (hspace : isspace c = false ∨ w.dropWhile isspace ≠ []) (r : Text) :
    (strtol (w ++ c :: r)).1 = (strtol w).1 :=
  congrArg (BitVec.ofInt 64) (strtol10_stop hdigit hm hp hspace 64 r)

theorem Field.dropWhile_ne_nil (f : Field) : f.text.dropWhile isspace ≠ [] := by
  obtain ⟨c, r, hf⟩ := List.exists_cons_of_ne_nil f.nonempty
  have hc : isspace c = false := (f.visible c (hf ▸ List.mem_cons_self)).1
  rw [hf, List.dropWhile_cons_of_neg (by simp [hc])]
  exact List.cons_ne_nil c r

/-! ## The fields -/

/-- **From the place of the first field on all fields are read.** -/
theorem readFields_right (k : Clock) (s_context : Xid) (f : Fields) {p : Text} (hp : ' ' ∉ p) :
    readFields k s_context (p ++ f.text) = expectedInfo k s_context f := by
  have hfirst : ∀ t, skipBlanks 12 (p ++ (spaced f.front ++ ' ' :: t)) = t := by
    intro t
    have h := skipBlanks_spaced f.front 0 (' ' :: t)
    rw [f.front_length] at h
    rw [skipBlanks_free hp]
    exact h.trans (skipBlanks_zero t)
  have hsecond : ∀ t, skipBlanks 5 (spaced f.middle ++ ' ' :: t) = t := by
    intro t
    have h := skipBlanks_spaced f.middle 0 (' ' :: t)
    rw [f.middle_length] at h
    exact h.trans (skipBlanks_zero t)
  unfold readFields Fields.text expectedInfo
  simp only [hfirst, strtol_number, List.tail_cons, strtol_decimal f.cstime.2 (spaced_ends _ _),
    hsecond]

/-- **With a blank behind the first parenthesis of the name the field of the user time is not looked
at.** -/
theorem utime_elsewhere {w : Text} (hw : ' ' ∈ w) {front : List Field} (hfront : front.length = 11) :
    ∃ v, ∀ t, (strtol (skipBlanks 12 (w ++ ')' :: (spaced front ++ ' ' :: t)))).1 = v := by
  have hcount : 0 < w.count ' ' := List.count_pos_iff.2 hw
  obtain ⟨hlt, heq⟩ | ⟨-, v, heq⟩ := skipBlanks_append 12 w
  · -- a field in front of it
    obtain ⟨n, hn⟩ : ∃ n, 12 - w.count ' ' = n + 1 := ⟨11 - w.count ' ', by omega⟩
    obtain ⟨f, hf⟩ := skipBlanks_field front (n := n) (by omega)
    refine ⟨(strtol f.text).1, fun t => ?_⟩
    obtain ⟨r, hr⟩ := hf t
    have hparen : ∀ x, skipBlanks (n + 1) (')' :: x) = skipBlanks (n + 1) x := fun x => rfl
    rw [heq, hn, hparen, hr]
    exact strtol_stop (by decide) (by decide) (by decide) (Or.inr f.dropWhile_ne_nil) r
  · -- the name
    refine ⟨(strtol v).1, fun t => ?_⟩
    rw [heq]
    exact strtol_stop (by decide) (by decide) (by decide) (Or.inl (by decide)) _

/-! ## The buffer -/

/-- The name from its first parenthesis on. -/
theorem behindParen_eq (name : Comm) : ∃ w, behindParen name = w ++ [')'] ∧
    ∀ t, strchr (name.text ++ ')' :: t) ')' = some (w ++ ')' :: t) := by
  obtain hno | ⟨t, r, ht, hname⟩ := strchr_cases name.text ')'
  · refine ⟨[], ?_, fun u => strchr_append hno⟩
    rw [behindParen, List.dropWhile_append_of_pos (bne_of_not_mem hno)]
    rfl
  · refine ⟨')' :: r, ?_, fun u => ?_⟩
    · rw [behindParen, hname, List.append_assoc, List.dropWhile_append_of_pos (bne_of_not_mem ht)]
      rfl
    · rw [hname, List.append_assoc]
      exact strchr_append ht

/-- The digits of a number are none of these characters. -/
theorem not_mem_decimal {c : Char} (h : isDigitIn 10 c = false) (n : Nat) : c ∉ decimal n :=
  not_mem_of_digits (numeral_decimal n).2 h

theorem strchr_statLine (pid : Pid) {name : Comm} {w : Text}
    (hw : ∀ t, strchr (name.text ++ ')' :: t) ')' = some (w ++ ')' :: t)) (f : Fields) :
    strchr (statLine pid name f) ')' = some (w ++ ')' :: f.text) := by
  have hfront : ')' ∉ decimal pid ++ " (".toList := by
    rw [List.mem_append, not_or]
    exact ⟨not_mem_decimal (by decide) pid, by decide⟩
  have hsplit : statLine pid name f =
      (decimal pid ++ " (".toList) ++ (name.text ++ ')' :: f.text) := by
    simp [statLine]
  rw [hsplit, strchr_append_not_mem hfront, hw]

/-- The fields with something else behind them. -/
def Fields.withRest (f : Fields) (r : Text) : Fields := { f with rest := r }

theorem number_append (n : Nat) (t r : Text) : number n t ++ r = number n (t ++ r) := by
  simp [number]

theorem statLine_withRest (pid : Pid) (name : Comm) (f : Fields) (r : Text) :
    statLine pid name (f.withRest r) = statLine pid name (f.withRest []) ++ r := by
  simp only [statLine, Fields.text, Fields.withRest, List.append_assoc, List.cons_append,
    number_append, List.nil_append]

theorem spaced_length_le (fs : List Field) : (spaced fs).length ≤ 21 * fs.length := by
  induction fs with
  | nil => exact Nat.le_refl 0
  | cons f fs ih =>
    have hf := f.short
    have hlen : (spaced (f :: fs)).length = f.text.length + 1 + (spaced fs).length := by
      rw [spaced, List.flatMap_cons, List.length_append, List.length_cons]
      rfl
    rw [hlen, List.length_cons]
    omega

theorem number_length_le (n : Value) (t : Text) : (number n t).length ≤ 20 + t.length := by
  have h := decimal_length_le (w := 19) (by decide) (n.2.trans_le (by omega))
  rw [number, List.length_append, List.length_cons]
  omega

/-- What is read lies in the buffer. -/
theorem statLine_length_le (pid : Pid) (name : Comm) (f : Fields) :
    (statLine pid name (f.withRest [])).length ≤ 1024 := by
  have hpid := decimal_length_le (w := 10) (by decide) (pid.2.trans_le (by omega))
  have hname := name.short
  have hfront := spaced_length_le f.front
  have hmiddle := spaced_length_le f.middle
  have hcstime := decimal_length_le (w := 19) (by decide) (f.cstime.2.trans_le (by omega))
  rw [f.front_length] at hfront
  rw [f.middle_length] at hmiddle
  have hrss := number_length_le f.rss []
  have hvsize := number_length_le f.vsize (number f.rss [])
  have hstarttime := number_length_le f.starttime (number f.vsize (number f.rss []))
  have hback : (decimal f.cstime ++ (spaced f.middle ++
      ' ' :: number f.starttime (number f.vsize (number f.rss [])))).length ≤ 164 := by
    simp only [List.length_append, List.length_cons, List.length_nil] at *
    omega
  have hcutime := number_length_le f.cutime (decimal f.cstime ++ (spaced f.middle ++
    ' ' :: number f.starttime (number f.vsize (number f.rss []))))
  have hstime := number_length_le f.stime (number f.cutime (decimal f.cstime ++ (spaced f.middle ++
    ' ' :: number f.starttime (number f.vsize (number f.rss [])))))
  have hutime := number_length_le f.utime (number f.stime (number f.cutime (decimal f.cstime ++
    (spaced f.middle ++ ' ' :: number f.starttime (number f.vsize (number f.rss []))))))
  have hopen : " (".toList.length = 2 := by decide
  have hclose : ")".toList.length = 1 := by decide
  simp only [statLine, Fields.text, Fields.withRest]
  rw [List.length_append, List.length_append, List.length_append, List.length_append,
    List.length_append, List.length_cons, hopen, hclose]
  omega

theorem noNul_spaced (fs : List Field) : '\x00' ∉ spaced fs := by
  intro hm
  obtain ⟨f, -, hm⟩ := List.mem_flatMap.1 hm
  rcases List.mem_cons.1 hm with hm | hm
  · exact absurd hm (by decide)
  · exact (f.visible _ hm).2 rfl

theorem noNul_number {n : Nat} {t : Text} (h : '\x00' ∉ t) : '\x00' ∉ number n t := by
  rw [number, List.mem_append, List.mem_cons, not_or, not_or]
  exact ⟨not_mem_decimal (by decide) n, by decide, h⟩

theorem statLine_noNul (pid : Pid) (name : Comm) (f : Fields) :
    '\x00' ∉ statLine pid name (f.withRest []) := by
  have hdigits : ∀ n, '\x00' ∉ decimal n := not_mem_decimal (by decide)
  have hblank : ∀ {t : Text}, '\x00' ∉ t → '\x00' ∉ ' ' :: t := fun h hm =>
    (List.mem_cons.1 hm).elim (fun h0 => absurd h0 (by decide)) h
  have happend : ∀ {s t : Text}, '\x00' ∉ s → '\x00' ∉ t → '\x00' ∉ s ++ t := fun hs ht hm =>
    (List.mem_append.1 hm).elim hs ht
  have hback := noNul_number (n := f.starttime) (noNul_number (n := f.vsize)
    (noNul_number (n := f.rss) (List.not_mem_nil (a := '\x00'))))
  have htimes := noNul_number (n := f.utime) (noNul_number (n := f.stime)
    (noNul_number (n := f.cutime) (happend (hdigits f.cstime)
      (happend (noNul_spaced f.middle) (hblank hback)))))
  exact happend (happend (happend (happend (hdigits pid) (by decide)) name.noNul) (by decide))
    (happend (noNul_spaced f.front) (hblank htimes))

/-- **What is in the buffer is the line, with something else behind the fields that are read.** -/
theorem buffer_eq (pid : Pid) (name : Comm) (f : Fields) (stale : Text) :
    ∃ r, cstr ((statLine pid name f).take 1024 ++ stale) = statLine pid name (f.withRest r) := by
  have hline := statLine_withRest pid name f f.rest
  have hself : f.withRest f.rest = f := rfl
  rw [hself] at hline
  have hlen := statLine_length_le pid name f
  refine ⟨cstr (f.rest.take (1024 - (statLine pid name (f.withRest [])).length) ++ stale), ?_⟩
  rw [hline, List.take_append, List.take_of_length_le hlen, List.append_assoc,
    cstr_append_of_noNul (statLine_noNul pid name f), ← statLine_withRest]

/-! ## The record -/

theorem getProcess_line (k : Clock) {s_context : Xid} (hctx : s_context ≠ VC_NOCTX) (pid : Pid)
    {name : Comm} {w : Text}
    (hw : ∀ t, strchr (name.text ++ ')' :: t) ')' = some (w ++ ')' :: t)) (f : Fields)
    (stale : Text) :
    ∃ r, get_process_info k s_context (some (statLine pid name f)) stale =
      .info (readFields k s_context (w ++ ')' :: (f.withRest r).text)) := by
  obtain ⟨r, hbuffer⟩ := buffer_eq pid name f stale
  have hfull : ¬ ((statLine pid name f).take 1024).length < 1 := by
    have hpos : 0 < (statLine pid name f).length := by
      simp only [statLine, List.length_append]
      have hclose : ")".toList.length = 1 := by decide
      omega
    rw [List.length_take]
    omega
  refine ⟨r, ?_⟩
  unfold get_process_info
  rw [if_neg hctx]
  dsimp only
  rw [if_neg hfull, hbuffer, strchr_statLine pid hw]

theorem Clock.toMsec_zero (k : Clock) : k.toMsec (BitVec.ofNat 64 0) = 0 := by
  rw [toMsec]
  exact BitVec.zero_udiv

/-- A second. -/
theorem Clock.toMsec_hertz (k : Clock) : k.toMsec (BitVec.ofNat 64 k.hertz) = 1000 := by
  have hsmall := k.small
  apply BitVec.eq_of_toNat_eq
  rw [toMsec, BitVec.toNat_udiv, BitVec.toNat_mul, BitVec.toNat_ofNat]
  have h1000 : (1000 : BitVec 64).toNat = 1000 := rfl
  rw [h1000, Nat.mod_eq_of_lt (by omega : k.hertz < 2 ^ 64), Nat.mod_eq_of_lt k.small]
  exact Nat.mul_div_cancel_left 1000 k.pos

theorem expectedInfo_withRest (k : Clock) (s_context : Xid) (f : Fields) (r : Text) :
    expectedInfo k s_context (f.withRest r) = expectedInfo k s_context f := rfl

/-- The fields with a user time. -/
def fieldsWith (front middle : List Field) (hfront : front.length = 11) (hmiddle : middle.length = 4)
    (utime : Value) : Fields where
  front := front
  utime := utime
  stime := ⟨0, by decide⟩
  cutime := ⟨0, by decide⟩
  cstime := ⟨0, by decide⟩
  middle := middle
  starttime := ⟨0, by decide⟩
  vsize := ⟨0, by decide⟩
  rss := ⟨0, by decide⟩
  rest := "\n".toList
  front_length := hfront
  middle_length := hmiddle

def zeroField : Field where
  text := ['0']
  nonempty := by decide
  visible c hc := by
    rw [List.mem_singleton.1 hc]
    decide
  short := by decide

/-- **For which names the fields are read right.** -/
theorem get_process_info_exact (k : Clock) (s_context : Xid) (hctx : s_context ≠ VC_NOCTX)
    (pid : Pid) (name : Comm) :
    (∀ (f : Fields) (stale : Text), get_process_info k s_context (some (statLine pid name f)) stale =
      .info (expectedInfo k s_context f)) ↔ ' ' ∉ behindParen name := by
  obtain ⟨w, hbehind, hw⟩ := behindParen_eq name
  constructor
  · intro hall hblank
    rw [hbehind] at hblank
    have hblank : ' ' ∈ w := (List.mem_append.1 hblank).resolve_right (by decide)
    have hfront : (List.replicate 11 zeroField).length = 11 := List.length_replicate
    have hmiddle : (List.replicate 4 zeroField).length = 4 := List.length_replicate
    -- the same user time would be read of lines with different ones
    obtain ⟨v, hv⟩ := utime_elsewhere hblank hfront
    have hread : ∀ u : Value, k.toMsec v = k.toMsec (BitVec.ofNat 64 u) := by
      intro u
      let f := fieldsWith (List.replicate 11 zeroField) (List.replicate 4 zeroField) hfront hmiddle u
      obtain ⟨r, hr⟩ := getProcess_line k hctx pid hw f []
      have heq := Result.info.inj (hr.symm.trans (hall f []))
      have hutime := congrArg ProcessInfo.utime heq
      rw [← hv]
      exact hutime
    have hsmall := k.small
    have hdiffer := (hread ⟨0, by decide⟩).symm.trans (hread ⟨k.hertz, by omega⟩)
    rw [k.toMsec_zero, k.toMsec_hertz] at hdiffer
    exact absurd hdiffer (by decide)
  · intro hfree f stale
    rw [hbehind] at hfree
    obtain ⟨r, hr⟩ := getProcess_line k hctx pid hw f stale
    have hsplit : w ++ ')' :: (f.withRest r).text = (w ++ [')']) ++ (f.withRest r).text := by simp
    rw [hr, hsplit, readFields_right k s_context _ hfree, expectedInfo_withRest]

/-- A clock of 100 ticks for a second. -/
def clock100 : Clock := ⟨100, by decide, by decide⟩

def init : Comm := ⟨"init".toList, by decide, by decide⟩

theorem get_process_info_exact_init :
    (∀ (f : Fields) (stale : Text),
      get_process_info clock100 0 (some (statLine ⟨1, by decide⟩ init f)) stale =
        .info (expectedInfo clock100 0 f)) ↔ ' ' ∉ behindParen init :=
  get_process_info_exact clock100 0 (by decide) ⟨1, by decide⟩ init

/-- A name with a blank behind a parenthesis: one second of user time is not seen. -/
def shifting : Comm := ⟨"a) b".toList, by decide, by decide⟩

def oneSecond : Fields :=
  fieldsWith (List.replicate 11 zeroField) (List.replicate 4 zeroField) rfl rfl ⟨100, by decide⟩

theorem get_process_info_wrong :
    get_process_info clock100 0 (some (statLine ⟨1, by decide⟩ shifting oneSecond)) [] ≠
      .info (expectedInfo clock100 0 oneSecond) := by
  decide +kernel

end ProcessStat
