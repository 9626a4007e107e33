import UtilVserver.IsNumber
import UtilVserver.Lib.ByteBits

/-!
# Addresses, masks and ranges (`src/naddress.c`)

`parseIPFormat` cuts the fields of `addr/mask` or `addr-addr/mask` out of a copy of the argument and
converts them into a `vc_net_addr`.

* `InetPton` — the C library's conversion of an address, which is not part of the source.
* `ipv4PrefixToMask`, `ipv6PrefixToMask`, `maskToPrefix` — masks and prefix lengths.
* `Parser` — the copy of the argument, the cursor in it and the counter of what remains.
* `parseIPFormat` — the loop over the format; an access outside of the copy and a shift whose result
  is not defined end it.

Principal results: `parseIPFormat_inside` (when the loop stays inside of its copy) and
`netmask_exact` (which prefixes and masks are converted rightly).
-/

set_option autoImplicit false

namespace Naddress

open CString ByteBits IsNumber

/-! ## The C library -/

/-- `inet_pton`: the bytes of an address in network order, none for a text that is no address of
the family. -/
structure InetPton where
  v4 : Text → Option (List Byte)
  v6 : Text → Option (List Byte)
  v4_length : ∀ t a, v4 t = some a → a.length = 4
  v6_length : ∀ t a, v6 t = some a → a.length = 16
  v4_text : ∀ t a, v4 t = some a → t ≠ [] ∧ ∀ c ∈ t, c ∈ "0123456789.".toList
  v6_text : ∀ t a, v6 t = some a → t ≠ [] ∧ ∀ c ∈ t, c ∈ "0123456789abcdefABCDEF:.".toList

/-- `memchr(str + ptr, c, n)`, which reads up to the first match: none when it reads behind the
memory. -/
def memchr (str : Text) (c : Char) : Nat → Nat → Option (Option Nat)
  | _, 0 => some none
  | ptr, n + 1 =>
    match str[ptr]? with
    | none => none
    | some x => if x = c then some (some ptr) else memchr str c (ptr + 1) n

/-- The string at `ptr`: none when no NUL ends it inside of the memory. -/
def stringAt (str : Text) (ptr : Nat) : Option Text :=
  if '\x00' ∈ str.drop ptr then some ((str.drop ptr).takeWhile (· != '\x00')) else none

/-! ## Masks -/

def VC_NXA_TYPE_IPV4 : Nat := 0x0001
def VC_NXA_TYPE_IPV6 : Nat := 0x0002

/-- `1 << k` of the type int: there is no result that the type does not represent. -/
def shiftedOne (k : Nat) : Option (BitVec 32) := if k < 31 then some (1#32 <<< k) else none

/-- The bytes of `htonl(x)` in memory. -/
def htonl (x : BitVec 32) : List Byte := bigEndian x

/-- `htonl(~((1 << (32 - sz)) - 1))`. -/
def ipv4PrefixToMask (sz : Nat) : Option (List Byte) :=
  (shiftedOne (32 - sz)).map fun x => htonl (~~~(x - 1#32))

/-- The loop of `ipv6PrefixToMask`, with the rounds that remain. -/
def fillBytes (pfx : Nat) : Nat → Nat → List Byte → Nat × List Byte
  | 0, i, mask => (i, mask)
  | n + 1, i, mask =>
    if i * 8 < pfx then fillBytes pfx n (i + 1) (mask.set i 0xff#8) else (i, mask)

def ipv6PrefixToMask (pfx : Nat) : List Byte :=
  -- `i` grows in each round, so there are no more than `pfx` rounds
  let r := fillBytes pfx pfx 0 (List.replicate 16 0#8)
  if pfx < r.1 * 8 then r.2.set (r.1 - 1) ((~~~((1#32 <<< (pfx % 8)) - 1#32)).setWidth 8) else r.2

/-- The loop of `maskToPrefix`, with the rounds that remain. -/
def maskToPrefixFrom (data : List Byte) : Nat → Nat → Nat
  | 0, pfx => pfx
  | n + 1, pfx =>
    if (data.getD (pfx / 8) 0).getLsbD (pfx % 8) then maskToPrefixFrom data n (pfx + 1) else pfx

def maskToPrefix (data : List Byte) (limit : Nat) : Nat := maskToPrefixFrom data limit 0

/-! ## Addresses -/

/-- `struct vc_net_addr`; the three unions are the bytes in memory. -/
structure NetAddr where
  vnaType : Nat
  vnaPrefix : Nat
  ip : List Byte
  ip2 : List Byte
  mask : List Byte
  deriving DecidableEq

/-- Bytes that are written to the start of a union. -/
def overlay (bytes union : List Byte) : List Byte := bytes ++ union.drop bytes.length

/-- What is written to `*type` and to `dst`, where none stands for -1. -/
def convertAddress (pton : InetPton) (str : Text) : Nat × Option (List Byte) :=
  match pton.v4 str with
  | some a => (VC_NXA_TYPE_IPV4, some a)
  | none => (VC_NXA_TYPE_IPV6, pton.v6 str)

/-- `limit`. -/
def limitOf (type : Nat) : Nat :=
  if type = VC_NXA_TYPE_IPV4 then 32 else if type = VC_NXA_TYPE_IPV6 then 128 else 0

/-- `dst`, which the character of the format selects. -/
def NetAddr.store (ips : NetAddr) (fc : Char) (a : List Byte) : NetAddr :=
  if fc = '1' then { ips with ip := overlay a ips.ip }
  else if fc = '2' then { ips with ip2 := overlay a ips.ip2 }
  else { ips with mask := overlay a ips.mask }

/-- How the conversion of a field ends. -/
inductive Conversion where
  | done (ips : NetAddr)
  | refused (ips : NetAddr)
  | undefinedShift
  deriving DecidableEq

/-- The switch that stores the mask of a prefix length. -/
def storePrefix (ips : NetAddr) (sz : Nat) : Conversion :=
  if ips.vnaType = VC_NXA_TYPE_IPV4 then
    match ipv4PrefixToMask sz with
    | some m => .done { ips with vnaPrefix := sz, mask := overlay m ips.mask }
    | none => .undefinedShift
  else if ips.vnaType = VC_NXA_TYPE_IPV6 then
    .done { ips with vnaPrefix := sz, mask := overlay (ipv6PrefixToMask sz) ips.mask }
  else .done { ips with vnaPrefix := sz }

def convertField (pton : InetPton) (fc : Char) (t : Text) (ips : NetAddr) : Conversion :=
  let limit := limitOf ips.vnaType
  if fc = 'm' ∧ ':' ∉ t ∧ '.' ∉ t then
    match isNumberUnsigned t true with
    | none => .refused ips
    | some sz => if (limit : Int) < sz then .refused ips else storePrefix ips sz.toNat
  else
    match convertAddress pton t with
    | (type, none) => .refused { ips with vnaType := type }
    | (type, some a) =>
      let ips := { ips with vnaType := type }.store fc a
      .done (if fc = 'm' then { ips with vnaPrefix := maskToPrefix ips.mask limit } else ips)

/-! ## The loop over the format -/

/-- The variables of `parseIPFormat`, and the fields that have been converted so far. -/
structure Parser where
  str : Text
  ptr : Nat
  len : Nat
  ips : NetAddr
  ret : Int
  converted : List (Char × Text)

inductive Step where
  | next (s : Parser)
  | out (s : Parser)
  | undefinedShift (s : Parser)
  | outside

/-- The end of a round, where the field is `t` and `sep` is behind it. -/
def Parser.advance (pton : InetPton) (s : Parser) (fc : Char) (t : Text) (sep : Nat) : Step :=
  match convertField pton fc t s.ips with
  | .refused ips => .out { s with ips := ips, ret := -1 }
  | .undefinedShift => .undefinedShift s
  | .done ips =>
    .next { s with ips := ips, ret := s.ret + 1, len := s.len - (sep - s.ptr), ptr := sep + 1 }

/-- A round of the loop, for the character `fc` of the format and the separator `d` behind it. -/
def Parser.field (pton : InetPton) (s : Parser) (fc d : Char) : Step :=
  if fc ∉ ['1', '2', 'm'] then .out s
  else if s.len = 0 then .out s
  else
    match memchr s.str d s.ptr s.len with
    | none => .outside
    | some found =>
      let sep := found.getD (s.ptr + s.len)
      if s.str.length ≤ sep then .outside
      else
        let str := s.str.set sep '\x00'
        match stringAt str s.ptr with
        | none => .outside
        | some t => { s with str := str, converted := s.converted ++ [(fc, t)] }.advance pton fc t sep

inductive Outcome where
  | ended (s : Parser)
  | undefinedShift (s : Parser)
  | outside

def Parser.loop (pton : InetPton) : Text → Parser → Outcome
  | [], s => .ended s
  | [fc], s =>
    match s.field pton fc '\x00' with
    | .next s => .ended s
    | .out s => .ended s
    | .undefinedShift s => .undefinedShift s
    | .outside => .outside
  | fc :: d :: format, s =>
    match s.field pton fc d with
    | .next s => loop pton format s
    | .out s => .ended s
    | .undefinedShift s => .undefinedShift s
    | .outside => .outside

def start (arg : Text) (ips : NetAddr) : Parser where
  str := arg ++ ['\x00']
  ptr := 0
  len := arg.length
  ips := ips
  ret := 0
  converted := []

def parseIPFormat (pton : InetPton) (arg : CStr) (ips : NetAddr) (format : Text) : Outcome :=
  (start arg.text ips).loop pton format

/-- The format of `readIP`. -/
def formatIP : Text := "1/m".toList

/-- The format of `readRange`. -/
def formatRange : Text := "1-2/m".toList

/-! ## The fields of a text -/

/-- The substrings between the separators of the format, in order.  A separator that is missing ends
them. -/
def fieldsFrom : Text → Text → List (Char × Text)
  | [], _ => []
  | [fc], t => [(fc, t)]
  | fc :: d :: format, t =>
    match strchr t d with
    | none => [(fc, t)]
    | some p => (fc, t.takeWhile (· != d)) :: fieldsFrom format (p.drop 1)

/-- The fields of an argument; the empty one has none. -/
def fields (format arg : Text) : List (Char × Text) :=
  if arg = [] then [] else fieldsFrom format arg

theorem fieldsFrom_found {fc d : Char} {format t r : Text} (h : d ∉ t) :
    fieldsFrom (fc :: d :: format) (t ++ d :: r) = (fc, t) :: fieldsFrom format r := by
  rw [fieldsFrom, strchr_append h]
  simp only [takeWhile_bne_stop h, List.drop_succ_cons, List.drop_zero]

theorem fieldsFrom_missing {fc d : Char} {format t : Text} (h : d ∉ t) :
    fieldsFrom (fc :: d :: format) t = [(fc, t)] := by
  have hnone : strchr t d = none := by
    rw [← List.append_nil t, strchr_append_not_mem h]
    rfl
  rw [fieldsFrom, hnone]

/-! ## Memory -/

/-- The first match is found. -/
theorem memchr_found {pre t r : Text} {d : Char} {n : Nat} (hd : d ∉ t) (hn : t.length < n) :
    memchr (pre ++ (t ++ d :: r)) d pre.length n = some (some (pre.length + t.length)) := by
  induction t generalizing pre n with
  | nil =>
    obtain ⟨n, rfl⟩ := Nat.exists_eq_succ_of_ne_zero (Nat.ne_of_gt hn)
    simp [memchr]
  | cons x t ih =>
    rw [List.mem_cons, not_or] at hd
    rw [List.length_cons] at hn
    obtain ⟨n, rfl⟩ := Nat.exists_eq_succ_of_ne_zero (Nat.ne_of_gt (Nat.zero_lt_of_lt hn))
    have hget : (pre ++ (x :: t ++ d :: r))[pre.length]? = some x := by simp
    have hrest : memchr (pre ++ [x] ++ (t ++ d :: r)) d (pre ++ [x]).length n =
        some (some ((pre ++ [x]).length + t.length)) := ih hd.2 (Nat.lt_of_succ_lt_succ hn)
    rw [List.length_append, List.append_assoc] at hrest
    rw [memchr, hget]
    simp only [Ne.symm hd.1, if_false]
    rw [List.cons_append]
    refine hrest.trans ?_
    simp only [List.length_cons, List.length_nil, Option.some.injEq]
    omega

/-- Memory without a match is read to its end. -/
theorem memchr_missing {pre t u : Text} {d : Char} (hd : d ∉ t) :
    memchr (pre ++ (t ++ u)) d pre.length t.length = some none := by
  induction t generalizing pre with
  | nil => rfl
  | cons x t ih =>
    rw [List.mem_cons, not_or] at hd
    have hget : (pre ++ (x :: t ++ u))[pre.length]? = some x := by simp
    have hrest : memchr (pre ++ [x] ++ (t ++ u)) d (pre ++ [x]).length t.length = some none :=
      ih hd.2
    rw [List.length_append, List.append_assoc] at hrest
    rw [List.length_cons, memchr, hget]
    simp only [Ne.symm hd.1, if_false]
    exact hrest

/-- A separator is overwritten. -/
theorem set_separator (pre t r : Text) (d : Char) :
    (pre ++ (t ++ d :: r)).set (pre.length + t.length) '\x00' = pre ++ (t ++ '\x00' :: r) := by
  rw [← List.append_assoc, ← List.length_append, List.set_append_right _ _ (Nat.le_refl _)]
  simp

/-- A string is read up to the NUL. -/
theorem stringAt_append {pre t : Text} (u : Text) (h : '\x00' ∉ t) :
    stringAt (pre ++ (t ++ '\x00' :: u)) pre.length = some t := by
  rw [stringAt, List.drop_left, if_pos (by simp), takeWhile_bne_stop h]

/-! ## A round -/

/-- The text `rest` remains behind the cursor; the counter counts in addition one for each separator
that has been passed. -/
structure At (s : Parser) (passed : Nat) (rest : Text) : Prop where
  memory : ∃ pre, s.str = pre ++ (rest ++ ['\x00']) ∧ s.ptr = pre.length
  counted : s.len = rest.length + passed
  noNul : '\x00' ∉ rest

theorem at_start {arg : Text} (ips : NetAddr) (h : '\x00' ∉ arg) : At (start arg ips) 0 arg where
  memory := ⟨[], rfl, rfl⟩
  counted := rfl
  noNul := h

/-- The variables when the field is converted. -/
def Parser.cut (s : Parser) (fc : Char) (t : Text) (sep : Nat) : Parser :=
  { s with str := s.str.set sep '\x00', converted := s.converted ++ [(fc, t)] }

/-- The round of a field whose end is known. -/
theorem field_eq {pton : InetPton} {s : Parser} {fc d : Char} {found : Option Nat} {t : Text}
    (hfc : fc ∈ ['1', '2', 'm']) (hlen : s.len ≠ 0)
    (hmem : memchr s.str d s.ptr s.len = some found)
    (hin : found.getD (s.ptr + s.len) < s.str.length)
    (ht : stringAt (s.str.set (found.getD (s.ptr + s.len)) '\x00') s.ptr = some t) :
    s.field pton fc d =
      (s.cut fc t (found.getD (s.ptr + s.len))).advance pton fc t (found.getD (s.ptr + s.len)) := by
  unfold Parser.field
  rw [if_neg (fun h => h hfc), if_neg hlen, hmem]
  simp only [Nat.not_le.2 hin, if_false, ht]
  rfl

/-- **A separator ends the field, and what is behind it remains.** -/
theorem field_found (pton : InetPton) {s : Parser} {passed : Nat} (fc : Char) {d : Char}
    {t r : Text} (h : At s passed (t ++ d :: r)) (hfc : fc ∈ ['1', '2', 'm']) (hd : d ∉ t) :
    ∃ sep, s.field pton fc d = (s.cut fc t sep).advance pton fc t sep ∧
      ∀ ips ret, At { s.cut fc t sep with
        ips := ips, ret := ret, len := s.len - (sep - s.ptr), ptr := sep + 1 } (passed + 1) r := by
  obtain ⟨pre, hstr, hptr⟩ := h.memory
  have hnul := h.noNul
  rw [List.mem_append, List.mem_cons, not_or, not_or] at hnul
  have hlen : s.len = t.length + (r.length + 1) + passed := by
    rw [h.counted, List.length_append, List.length_cons]
  rw [List.append_assoc, List.cons_append] at hstr
  have hmem : memchr s.str d s.ptr s.len = some (some (pre.length + t.length)) := by
    rw [hstr, hptr]
    exact memchr_found hd (by omega)
  have hset : s.str.set (pre.length + t.length) '\x00' =
      pre ++ (t ++ '\x00' :: (r ++ ['\x00'])) := by
    rw [hstr]
    exact set_separator pre t (r ++ ['\x00']) d
  refine ⟨pre.length + t.length, ?_, fun ips ret => ?_⟩
  · refine field_eq hfc (by omega) hmem ?_ ?_
    · simp only [Option.getD_some, hstr, List.length_append, List.length_cons]
      omega
    · rw [Option.getD_some, hset, hptr]
      exact stringAt_append _ hnul.1
  · refine ⟨⟨pre ++ (t ++ ['\x00']), ?_, ?_⟩, ?_, hnul.2.2⟩
    · show s.str.set (pre.length + t.length) '\x00' = _
      rw [hset]
      simp
    · show pre.length + t.length + 1 = _
      simp [Nat.add_assoc]
    · show s.len - (pre.length + t.length - s.ptr) = r.length + (passed + 1)
      omega

/-- Without a separator the first field goes to the end, and nothing remains. -/
theorem field_first (pton : InetPton) {s : Parser} (fc : Char) {d : Char} {t : Text}
    (h : At s 0 t) (hfc : fc ∈ ['1', '2', 'm']) (hd : d ∉ t) (ht : t ≠ []) :
    ∃ sep, s.field pton fc d = (s.cut fc t sep).advance pton fc t sep ∧
      s.len - (sep - s.ptr) = 0 := by
  obtain ⟨pre, hstr, hptr⟩ := h.memory
  have hlen : s.len = t.length := h.counted
  have hpos : t.length ≠ 0 := fun h0 => ht (List.length_eq_zero_iff.1 h0)
  have hmem : memchr s.str d s.ptr s.len = some none := by
    rw [hstr, hptr, hlen]
    exact memchr_missing hd
  refine ⟨s.ptr + s.len, field_eq hfc (by omega) hmem ?_ ?_, by omega⟩
  · simp only [Option.getD_none, hstr, List.length_append, List.length_singleton]
    omega
  · rw [Option.getD_none, hptr, hlen, hstr, set_separator]
    exact stringAt_append [] h.noNul

/-- The last field of the format goes to the NUL. -/
theorem field_last (pton : InetPton) {s : Parser} {passed : Nat} (fc : Char) {t : Text}
    (h : At s (passed + 1) t) (hfc : fc ∈ ['1', '2', 'm']) :
    ∃ sep, s.field pton fc '\x00' = (s.cut fc t sep).advance pton fc t sep := by
  obtain ⟨pre, hstr, hptr⟩ := h.memory
  have hlen : s.len = t.length + (passed + 1) := h.counted
  have hmem : memchr s.str '\x00' s.ptr s.len = some (some (pre.length + t.length)) := by
    rw [hstr, hptr]
    exact memchr_found h.noNul (by omega)
  refine ⟨pre.length + t.length, field_eq hfc (by omega) hmem ?_ ?_⟩
  · simp only [Option.getD_some, hstr, List.length_append, List.length_singleton]
    omega
  · rw [Option.getD_some, hptr, hstr, set_separator]
    exact stringAt_append [] h.noNul

/-- **A separator that is missing behind another one is put behind the memory.** -/
theorem field_overrun (pton : InetPton) {s : Parser} {fc d : Char} {t : Text}
    (h : At s 1 t) (hfc : fc ∈ ['1', '2', 'm']) (hd : d ∉ t) (hnul : d ≠ '\x00') :
    s.field pton fc d = .outside := by
  obtain ⟨pre, hstr, hptr⟩ := h.memory
  have hlen : s.len = (t ++ ['\x00']).length := by
    rw [h.counted, List.length_append, List.length_singleton]
  have hd' : d ∉ t ++ ['\x00'] := by
    rw [List.mem_append, List.mem_singleton, not_or]
    exact ⟨hd, hnul⟩
  -- the NUL is counted, so that the place behind the counted bytes is no longer part of the copy
  have hmem : memchr s.str d s.ptr s.len = some none := by
    have hread : memchr (pre ++ (t ++ ['\x00'] ++ [])) d pre.length (t ++ ['\x00']).length =
        some none := memchr_missing hd'
    rw [List.append_nil] at hread
    rw [hstr, hptr, hlen]
    exact hread
  have hout : s.str.length ≤ s.ptr + s.len := by
    rw [hstr, hptr, hlen, List.length_append]
  have hpos : s.len ≠ 0 := by
    rw [h.counted]
    omega
  unfold Parser.field
  rw [if_neg (fun h => h hfc), if_neg hpos, hmem]
  simp [hout]

/-! ## The loop stays inside of its copy -/

/-- The text is an address of one of the families. -/
def IsAddress (pton : InetPton) (t : Text) : Prop :=
  (pton.v4 t).isSome = true ∨ (pton.v6 t).isSome = true

theorem convertField_address (pton : InetPton) {fc : Char} (t : Text) (ips : NetAddr)
    (hfc : fc ≠ 'm') :
    (∃ ips', convertField pton fc t ips = .done ips' ∧ IsAddress pton t) ∨
      (∃ ips', convertField pton fc t ips = .refused ips' ∧ ¬ IsAddress pton t) := by
  unfold convertField convertAddress IsAddress
  rw [if_neg (fun h => hfc h.1)]
  cases h4 : pton.v4 t with
  | some a => exact Or.inl ⟨_, rfl, by simp⟩
  | none =>
    cases h6 : pton.v6 t with
    | some a => exact Or.inl ⟨_, rfl, by simp⟩
    | none => exact Or.inr ⟨_, rfl, by simp⟩

/-- The variables behind a field that has been converted. -/
def Parser.behind (s : Parser) (fc : Char) (t : Text) (sep : Nat) (ips : NetAddr) : Parser :=
  { s.cut fc t sep with
    ips := ips, ret := s.ret + 1, len := s.len - (sep - s.ptr), ptr := sep + 1 }

/-- A round of the loop, when its field lies inside of the copy. -/
theorem loop_round {pton : InetPton} {s : Parser} {fc d : Char} {format t : Text} {sep : Nat}
    (h : s.field pton fc d = (s.cut fc t sep).advance pton fc t sep) :
    s.loop pton (fc :: d :: format) =
      match convertField pton fc t s.ips with
      | .refused ips => .ended { s.cut fc t sep with ips := ips, ret := -1 }
      | .undefinedShift => .undefinedShift (s.cut fc t sep)
      | .done ips => (s.behind fc t sep ips).loop pton format := by
  have hips : (s.cut fc t sep).ips = s.ips := rfl
  rw [Parser.loop, h, Parser.advance, hips]
  cases convertField pton fc t s.ips with
  | refused ips => rfl
  | undefinedShift => rfl
  | done ips => rfl

/-- When nothing is counted any more the loop ends. -/
theorem loop_empty (pton : InetPton) {s : Parser} (format : Text) (h : s.len = 0) :
    s.loop pton format = .ended s := by
  have hfield : ∀ fc d, s.field pton fc d = .out s := by
    intro fc d
    unfold Parser.field
    split <;> simp
  match format with
  | [] => rfl
  | [fc] => rw [Parser.loop, hfield]
  | fc :: d :: format => rw [Parser.loop, hfield]

/-- The fields that are converted are the given ones in order, all of them unless one is refused. -/
def Converts (fs : List (Char × Text)) : Outcome → Prop
  | .ended s => s.converted <+: fs ∧ (s.ret ≠ -1 → s.converted = fs)
  | .undefinedShift s => s.converted = fs
  | .outside => False

/-- A field in front of the mask. -/
theorem converts_address {pton : InetPton} {s : Parser} {fc d : Char} {format t : Text} {sep : Nat}
    {fs rest : List (Char × Text)} (hfc : fc ≠ 'm')
    (h : s.field pton fc d = (s.cut fc t sep).advance pton fc t sep)
    (hfs : fs = s.converted ++ (fc, t) :: rest)
    (hnext : IsAddress pton t → ∀ ips, Converts fs ((s.behind fc t sep ips).loop pton format)) :
    Converts fs (s.loop pton (fc :: d :: format)) := by
  rw [loop_round h]
  obtain ⟨ips, hc, haddr⟩ | ⟨ips, hc, -⟩ := convertField_address pton t s.ips hfc
  · rw [hc]
    exact hnext haddr ips
  · rw [hc]
    refine ⟨⟨rest, ?_⟩, fun h => absurd rfl h⟩
    show s.converted ++ [(fc, t)] ++ rest = fs
    rw [hfs, List.append_assoc, List.singleton_append]

/-- The last field of the format. -/
theorem converts_last {pton : InetPton} {s : Parser} {fc : Char} {t : Text} {sep : Nat}
    (h : s.field pton fc '\x00' = (s.cut fc t sep).advance pton fc t sep) :
    Converts (s.converted ++ [(fc, t)]) (s.loop pton [fc]) := by
  rw [Parser.loop, h, Parser.advance]
  have hself : s.converted ++ [(fc, t)] <+: s.converted ++ [(fc, t)] := List.prefix_refl _
  cases convertField pton fc t (s.cut fc t sep).ips with
  | refused ips => exact ⟨hself, fun h => absurd rfl h⟩
  | undefinedShift => exact rfl
  | done ips => exact ⟨hself, fun _ => rfl⟩

/-- The text behind the last address: the mask, when its separator is there, and the end
otherwise. -/
theorem converts_mask (pton : InetPton) {s : Parser} {passed : Nat} {r : Text}
    (h : At s (passed + 1) r) : Converts (s.converted ++ [('m', r)]) (s.loop pton ['m']) := by
  obtain ⟨sep, hfield⟩ := field_last pton 'm' h (by decide)
  exact converts_last hfield

/-- The address of a range that is followed by a mask. -/
theorem converts_then_mask (pton : InetPton) {s : Parser} {passed : Nat} {fc : Char} {t r : Text}
    (hfc : fc ∈ ['1', '2']) (h : At s passed (t ++ '/' :: r)) (ht : '/' ∉ t) :
    Converts (s.converted ++ [(fc, t), ('m', r)]) (s.loop pton [fc, '/', 'm']) := by
  have hfc' : fc ∈ ['1', '2', 'm'] ∧ fc ≠ 'm' := by
    simp only [List.mem_cons, List.not_mem_nil, or_false] at hfc
    rcases hfc with rfl | rfl <;> decide
  obtain ⟨sep, hfield, hnext⟩ := field_found pton fc h hfc'.1 ht
  refine converts_address hfc'.2 hfield rfl fun _ ips => ?_
  have hmask := converts_mask pton (hnext ips (s.ret + 1))
  rw [List.append_cons]
  exact hmask

/-- The first address, when no separator is behind it. -/
theorem converts_alone {pton : InetPton} {s : Parser} {d : Char} {format t : Text} (h : At s 0 t)
    (hd : d ∉ t) (ht : t ≠ []) :
    Converts (s.converted ++ [('1', t)]) (s.loop pton ('1' :: d :: format)) := by
  obtain ⟨sep, hfield, hlen⟩ := field_first pton '1' h (by decide) hd ht
  refine converts_address (by decide) hfield rfl fun _ ips => ?_
  rw [loop_empty pton format hlen]
  exact ⟨List.prefix_refl _, fun _ => rfl⟩

/-- A run that stays inside of the copy and converts the fields of the argument. -/
def Inside (pton : InetPton) (arg : CStr) (ips : NetAddr) (format : Text) : Prop :=
  Converts (fields format arg.text) (parseIPFormat pton arg ips format)

/-- The text in front of the first `-` is an address, and no `/` is behind it. -/
def Overruns (pton : InetPton) (arg : Text) : Prop :=
  ∃ t r, arg = t ++ '-' :: r ∧ '-' ∉ t ∧ IsAddress pton t ∧ '/' ∉ r

theorem inside_empty (pton : InetPton) {arg : CStr} (ips : NetAddr) (format : Text)
    (h : arg.text = []) : Inside pton arg ips format := by
  have hloop := loop_empty pton (s := start arg.text ips) format (by rw [h]; rfl)
  rw [Inside, parseIPFormat, hloop, fields, if_pos h]
  exact ⟨List.prefix_refl _, fun _ => rfl⟩

/-- An address with an optional mask. -/
theorem inside_ip (pton : InetPton) (arg : CStr) (ips : NetAddr) :
    Inside pton arg ips formatIP := by
  by_cases hnil : arg.text = []
  · exact inside_empty pton ips formatIP hnil
  have hat := at_start ips arg.noNul
  have hformat : formatIP = ['1', '/', 'm'] := rfl
  rw [Inside, parseIPFormat, hformat, fields, if_neg hnil]
  obtain hmissing | ⟨t, r, ht, hsplit⟩ := strchr_cases arg.text '/'
  · rw [fieldsFrom_missing hmissing]
    exact converts_alone hat hmissing hnil
  · rw [hsplit] at hat ⊢
    rw [fieldsFrom_found ht]
    exact converts_then_mask pton (by decide) hat ht

theorem not_inside_of_overruns {pton : InetPton} {arg : CStr} {ips : NetAddr}
    (h : Overruns pton arg.text) : ¬ Inside pton arg ips formatRange := by
  obtain ⟨t, r, hsplit, ht, haddr, hr⟩ := h
  have hat := at_start ips arg.noNul
  have hnul := arg.noNul
  rw [hsplit] at hat
  have hformat : formatRange = ['1', '-', '2', '/', 'm'] := rfl
  obtain ⟨sep, hfield, hnext⟩ := field_found pton '1' hat (by decide) ht
  rw [Inside, parseIPFormat, hformat, hsplit, loop_round hfield]
  have hfirst : '1' ≠ 'm' := by decide
  obtain ⟨ips', hc, -⟩ | ⟨-, -, hnot⟩ :=
    convertField_address pton t (start (t ++ '-' :: r) ips).ips hfirst
  · have hout : ((start (t ++ '-' :: r) ips).behind '1' t sep ips').field pton '2' '/' = .outside :=
      field_overrun pton (hnext ips' 1) (by decide) hr (by decide)
    rw [hc]
    simp only [Parser.loop, hout]
    exact id
  · exact absurd haddr hnot

/-- A range. -/
theorem inside_range_iff (pton : InetPton) (arg : CStr) (ips : NetAddr) :
    Inside pton arg ips formatRange ↔ ¬ Overruns pton arg.text := by
  constructor
  · intro h hover
    exact not_inside_of_overruns hover h
  intro hover
  by_cases hnil : arg.text = []
  · exact inside_empty pton ips formatRange hnil
  have hat := at_start ips arg.noNul
  have hformat : formatRange = ['1', '-', '2', '/', 'm'] := rfl
  rw [Inside, parseIPFormat, hformat, fields, if_neg hnil]
  obtain hmissing | ⟨t, r, ht, hsplit⟩ := strchr_cases arg.text '-'
  · rw [fieldsFrom_missing hmissing]
    exact converts_alone hat hmissing hnil
  have hslash : IsAddress pton t → '/' ∈ r := by
    intro haddr
    by_contra hr
    exact hover ⟨t, r, hsplit, ht, haddr, hr⟩
  rw [hsplit] at hat ⊢
  obtain ⟨sep, hfield, hnext⟩ := field_found pton '1' hat (by decide) ht
  rw [fieldsFrom_found ht]
  refine converts_address (by decide) hfield rfl fun haddr ips' => ?_
  obtain hr | ⟨t', r', ht', hsplit'⟩ := strchr_cases r '/'
  · exact absurd (hslash haddr) hr
  have hnext' := hnext ips' ((start (t ++ '-' :: r) ips).ret + 1)
  rw [hsplit'] at hnext'
  have hsecond : '2' ∈ ['1', '2'] := by decide
  have hrest := converts_then_mask pton hsecond hnext' ht'
  rw [hsplit', fieldsFrom_found ht']
  exact hrest

/-- **When `parseIPFormat` stays inside of its copy and converts the fields of the argument.**  For
an address it always does, for a range unless a mask is missing behind the second address. -/
theorem parseIPFormat_inside (pton : InetPton) (arg : CStr) (ips : NetAddr) :
    Inside pton arg ips formatIP ∧
      (Inside pton arg ips formatRange ↔ ¬ Overruns pton arg.text) :=
  ⟨inside_ip pton arg ips, inside_range_iff pton arg ips⟩

/-! ## Examples of addresses -/

/-- `inet_pton` on three addresses. -/
def somePton : InetPton where
  v4 t :=
    if t = "10.0.0.1".toList then some [10, 0, 0, 1]
    else if t = "10.0.0.2".toList then some [10, 0, 0, 2]
    else none
  v6 t := if t = "::1".toList then some [0, 0, 0, 0, 0, 0, 0, 0, 0, 0, 0, 0, 0, 0, 0, 1] else none
  v4_length t a h := by
    split at h
    · cases h
      rfl
    · obtain ⟨-, ha⟩ := (Option.ite_none_right_eq_some ..).1 h
      cases ha
      rfl
  v6_length t a h := by
    obtain ⟨-, ha⟩ := (Option.ite_none_right_eq_some ..).1 h
    cases ha
    rfl
  v4_text t a h := by
    split at h
    · rename_i ht
      subst ht
      exact ⟨by decide, forall_mem_of_all (by decide)⟩
    · obtain ⟨rfl, -⟩ := (Option.ite_none_right_eq_some ..).1 h
      exact ⟨by decide, forall_mem_of_all (by decide)⟩
  v6_text t a h := by
    obtain ⟨rfl, -⟩ := (Option.ite_none_right_eq_some ..).1 h
    exact ⟨by decide, forall_mem_of_all (by decide)⟩

/-- The structure that `calloc` makes. -/
def cleared : NetAddr :=
  ⟨0, 0, List.replicate 16 0, List.replicate 16 0, List.replicate 16 0⟩

/-- A range without a mask is written behind the copy. -/
theorem parseIPFormat_range_without_mask :
    ¬ Inside somePton ⟨"10.0.0.1-10.0.0.2".toList, by decide⟩ cleared formatRange := by
  refine not_inside_of_overruns ⟨"10.0.0.1".toList, "10.0.0.2".toList, rfl, by decide, ?_, by decide⟩
  exact Or.inl (by decide)

/-! ## Masks of prefix lengths -/

/-- The shift has a result from 2 on, and then the mask is right. -/
theorem ipv4PrefixToMask_spec {sz : Nat} (h : sz ≤ 32) :
    (sz < 2 → ipv4PrefixToMask sz = none) ∧
    (2 ≤ sz → ∃ m, ipv4PrefixToMask sz = some m ∧ m.length = 4 ∧ HasPrefix m sz 32) := by
  unfold ipv4PrefixToMask shiftedOne
  constructor
  · intro hlt
    rw [if_neg (by omega)]
    rfl
  · intro hle
    rw [if_pos (by omega)]
    refine ⟨htonl (lowMask (32 - sz)), rfl, rfl, fun i hi => ?_⟩
    rw [htonl, msbBit_bigEndian _ hi, getLsbD_lowMask (by omega) (by omega), decide_eq_decide]
    omega

/-- The bytes that are filled so far. -/
def filled (i : Nat) : List Byte := List.replicate i 0xff#8 ++ List.replicate (16 - i) 0#8

theorem filled_length {i : Nat} (h : i ≤ 16) : (filled i).length = 16 := by
  rw [filled, List.length_append, List.length_replicate, List.length_replicate]
  omega

theorem filled_set {i : Nat} (h : i < 16) : (filled i).set i 0xff#8 = filled (i + 1) := by
  obtain ⟨n, hn⟩ : ∃ n, 16 - i = n + 1 := ⟨15 - i, by omega⟩
  have hrest : 16 - (i + 1) = n := by omega
  rw [filled, filled, hn, hrest, List.set_append_right _ _ (by simp), List.length_replicate,
    Nat.sub_self, List.replicate_succ, List.set_cons_zero, List.replicate_succ', List.append_assoc,
    List.singleton_append]

/-- The loop fills the bytes that the prefix reaches. -/
theorem fillBytes_eq {pfx n i : Nat} (hpfx : pfx ≤ 128) (hi : i ≤ (pfx + 7) / 8)
    (hn : (pfx + 7) / 8 ≤ i + n) :
    fillBytes pfx n i (filled i) = ((pfx + 7) / 8, filled ((pfx + 7) / 8)) := by
  induction n generalizing i with
  | zero =>
    have : i = (pfx + 7) / 8 := by omega
    rw [fillBytes, this]
  | succ n ih =>
    rw [fillBytes]
    split
    · rw [filled_set (by omega)]
      exact ih (by omega) (by omega)
    · have : i = (pfx + 7) / 8 := by omega
      rw [this]

theorem filled_getD {i k : Nat} (hk : k < 16) :
    (filled i).getD k 0 = if k < i then 0xff#8 else 0#8 := by
  rw [filled, List.getD_eq_getElem?_getD, List.getElem?_append]
  simp only [List.length_replicate, List.getElem?_replicate]
  split
  · rfl
  · rw [if_pos (by omega)]
    rfl

/-- `~((1 << r) - 1)` as a byte. -/
theorem getMsbD_partial {r j : Nat} (hr : r < 8) (hj : j < 8) :
    ((lowMask r).setWidth 8).getMsbD j = decide (j < 8 - r) := by
  rw [BitVec.getMsbD_eq_getLsbD, BitVec.getLsbD_setWidth, getLsbD_lowMask (by omega) (by omega),
    decide_eq_true hj, decide_eq_true (by omega), Bool.true_and, Bool.true_and, decide_eq_decide]
  omega

/-- The prefix length of the mask that is stored: in the last byte the bits are taken from the
wrong side. -/
def storedPrefix (pfx : Nat) : Nat :=
  8 * (pfx / 8) + if pfx % 8 = 0 then 0 else 8 - pfx % 8

theorem ipv6PrefixToMask_spec {pfx : Nat} (h : pfx ≤ 128) :
    (ipv6PrefixToMask pfx).length = 16 ∧
      HasPrefix (ipv6PrefixToMask pfx) (storedPrefix pfx) 128 := by
  have hfill : fillBytes pfx pfx 0 (List.replicate 16 0#8) =
      ((pfx + 7) / 8, filled ((pfx + 7) / 8)) := fillBytes_eq h (by omega) (by omega)
  have hones : ∀ j, j < 8 → (0xff#8).getMsbD j = true := by decide
  have hlen : (filled ((pfx + 7) / 8)).length = 16 := filled_length (by omega)
  have hlow : ~~~((1#32 <<< (pfx % 8)) - 1#32) = lowMask (pfx % 8) := rfl
  rw [ipv6PrefixToMask, hfill, hlow]
  dsimp only
  split
  · rename_i hpart
    have hr : pfx % 8 ≠ 0 := by omega
    have hlast : (pfx + 7) / 8 - 1 = pfx / 8 := by omega
    refine ⟨by rw [List.length_set, hlen], fun i hi => ?_⟩
    have hj : i % 8 < 8 := Nat.mod_lt i (by decide)
    rw [msbBit, storedPrefix, if_neg hr, hlast, List.getD_eq_getElem?_getD, List.getElem?_set]
    split
    · rename_i hbyte
      rw [if_pos (by rw [hlen]; omega), Option.getD_some, getMsbD_partial (by omega) hj,
        decide_eq_decide]
      omega
    · rename_i hbyte
      rw [← List.getD_eq_getElem?_getD, filled_getD (by omega)]
      split
      · rw [hones _ hj, eq_comm, decide_eq_true_eq]
        omega
      · rw [BitVec.getMsbD_zero, eq_comm, decide_eq_false_iff_not]
        omega
  · rename_i hfull
    have hr : pfx % 8 = 0 := by omega
    have hcount : (pfx + 7) / 8 = pfx / 8 := by omega
    refine ⟨hlen, fun i hi => ?_⟩
    have hj : i % 8 < 8 := Nat.mod_lt i (by decide)
    rw [msbBit, storedPrefix, if_pos hr, filled_getD (by omega), hcount]
    split
    · rw [hones _ hj, eq_comm, decide_eq_true_eq]
      omega
    · rw [BitVec.getMsbD_zero, eq_comm, decide_eq_false_iff_not]
      omega

/-- **The IPv6 mask is right when the last byte is full or half full.** -/
theorem ipv6PrefixToMask_iff {pfx : Nat} (h : pfx ≤ 128) :
    HasPrefix (ipv6PrefixToMask pfx) pfx 128 ↔ pfx % 8 = 0 ∨ pfx % 8 = 4 := by
  have hspec := (ipv6PrefixToMask_spec h).2
  have hle : storedPrefix pfx ≤ 128 := by
    unfold storedPrefix
    split <;> omega
  constructor
  · intro hp
    have heq := hp.unique hspec h hle
    unfold storedPrefix at heq
    split at heq <;> omega
  · intro hr
    have heq : storedPrefix pfx = pfx := by
      unfold storedPrefix
      split <;> omega
    rw [heq] at hspec
    exact hspec

/-! ## Prefix lengths of masks -/

theorem maskToPrefixFrom_eq (data : List Byte) (n pfx : Nat) :
    maskToPrefixFrom data n pfx = pfx + leading (fun i => lsbBit data (pfx + i)) n := by
  induction n generalizing pfx with
  | zero => rfl
  | succ n ih =>
    have hbit : lsbBit data (pfx + 0) = (data.getD (pfx / 8) 0).getLsbD (pfx % 8) := rfl
    have hshift : (fun i => lsbBit data (pfx + 1 + i)) = fun i => lsbBit data (pfx + (i + 1)) := by
      funext i
      rw [Nat.add_assoc, Nat.add_comm 1 i]
    rw [maskToPrefixFrom, leading, hbit]
    split
    · rw [ih, hshift]
      omega
    · rfl

/-- `maskToPrefix` counts the bits of each byte from its low end. -/
theorem maskToPrefix_eq (data : List Byte) (limit : Nat) :
    maskToPrefix data limit = leading (lsbBit data) limit := by
  have hzero : (fun i => lsbBit data (0 + i)) = lsbBit data := by
    funext i
    rw [Nat.zero_add]
  rw [maskToPrefix, maskToPrefixFrom_eq, Nat.zero_add, hzero]

/-- **Which arrays are counted rightly.** -/
theorem maskToPrefix_iff {data : List Byte} {limit : Nat} (h : limit ≤ 8 * data.length) :
    maskToPrefix data limit = leading (msbBit data) limit ↔ FirstPartialEven data limit := by
  rw [maskToPrefix_eq]
  exact leading_lsb_eq_msb_iff h

/-- Of a contiguous mask the full bytes are counted. -/
theorem maskToPrefix_contiguous {mask : List Byte} {p k : Nat} (h : HasPrefix mask p (8 * k))
    (hp : p ≤ 8 * k) : maskToPrefix mask (8 * k) = 8 * (p / 8) := by
  rw [maskToPrefix_eq]
  exact h.leading_lsb hp

/-! ## Round trips -/

theorem ipv4_prefix_roundTrip {p : Nat} (h : p ≤ 32) :
    (ipv4PrefixToMask p).map (fun m => maskToPrefix m 32) = some p ↔ p % 8 = 0 ∧ p ≠ 0 := by
  obtain ⟨hnone, hsome⟩ := ipv4PrefixToMask_spec h
  by_cases h2 : 2 ≤ p
  · obtain ⟨m, hm, -, hpfx⟩ := hsome h2
    have hcount : maskToPrefix m 32 = 8 * (p / 8) := maskToPrefix_contiguous (k := 4) hpfx h
    rw [hm, Option.map_some, hcount, Option.some.injEq]
    omega
  · rw [hnone (by omega), Option.map_none]
    constructor
    · intro h
      cases h
    · intro h
      omega

theorem ipv6_prefix_roundTrip {p : Nat} (h : p ≤ 128) :
    maskToPrefix (ipv6PrefixToMask p) 128 = p ↔ p % 8 = 0 := by
  have hle : storedPrefix p ≤ 8 * 16 := by
    unfold storedPrefix
    split <;> omega
  have hcount : maskToPrefix (ipv6PrefixToMask p) 128 = 8 * (storedPrefix p / 8) :=
    maskToPrefix_contiguous (k := 16) (ipv6PrefixToMask_spec h).2 hle
  rw [hcount, storedPrefix]
  split <;> omega

theorem ipv4_mask_roundTrip {mask : List Byte} {p : Nat} (hlen : mask.length = 4) (h : p ≤ 32)
    (hmask : HasPrefix mask p 32) :
    ipv4PrefixToMask (maskToPrefix mask 32) = some mask ↔ p % 8 = 0 ∧ p ≠ 0 := by
  have hcount : maskToPrefix mask 32 = 8 * (p / 8) := maskToPrefix_contiguous (k := 4) hmask h
  have hle : 8 * (p / 8) ≤ 32 := by omega
  obtain ⟨hnone, hsome⟩ := ipv4PrefixToMask_spec hle
  rw [hcount]
  constructor
  · intro heq
    by_cases h2 : 2 ≤ 8 * (p / 8)
    · obtain ⟨m, hm, -, hpfx⟩ := hsome h2
      obtain rfl : m = mask := Option.some.inj (hm.symm.trans heq)
      have := hpfx.unique hmask hle h
      omega
    · rw [hnone (by omega)] at heq
      cases heq
  · rintro ⟨hr, hpos⟩
    obtain ⟨m, hm, hmlen, hpfx⟩ := hsome (by omega)
    have hsame : 8 * (p / 8) = p := by omega
    rw [hsame] at hpfx
    have hwidth : 8 * m.length = 32 := by rw [hmlen]
    rw [← hwidth] at hpfx hmask
    rw [hm, hpfx.ext (hmlen.trans hlen.symm) hmask]

theorem ipv6_mask_roundTrip {mask : List Byte} {p : Nat} (hlen : mask.length = 16) (h : p ≤ 128)
    (hmask : HasPrefix mask p 128) :
    ipv6PrefixToMask (maskToPrefix mask 128) = mask ↔ p % 8 = 0 := by
  have hcount : maskToPrefix mask 128 = 8 * (p / 8) := maskToPrefix_contiguous (k := 16) hmask h
  have hle : 8 * (p / 8) ≤ 128 := by omega
  obtain ⟨hmlen, -⟩ := ipv6PrefixToMask_spec hle
  have hpfx := (ipv6PrefixToMask_iff hle).2 (Or.inl (Nat.mul_mod_right 8 _))
  rw [hcount]
  constructor
  · intro heq
    rw [heq] at hpfx
    have := hpfx.unique hmask hle h
    omega
  · intro hr
    have hsame : 8 * (p / 8) = p := by omega
    have hwidth : 8 * (ipv6PrefixToMask (8 * (p / 8))).length = 128 := by rw [hmlen]
    rw [hsame] at hpfx hwidth hmlen ⊢
    rw [← hwidth] at hpfx hmask
    exact hpfx.ext (hmlen.trans hlen.symm) hmask

/-! ## An address with a prefix length -/

theorem numberEnd_special : NumberEnd ':' ∧ NumberEnd '.' ∧ NumberEnd '\x00' :=
  ⟨⟨by decide, by decide, by decide, by decide⟩, ⟨by decide, by decide, by decide, by decide⟩,
    ⟨by decide, by decide, by decide, by decide⟩⟩

/-- A number that is accepted strictly holds no character that ends one. -/
theorem not_mem_of_isNumberUnsigned {q : Text} {v : Int} {c : Char}
    (h : isNumberUnsigned q true = some v) (hc : NumberEnd c) (hblank : isspace c = false) :
    c ∉ q := by
  intro hmem
  obtain ⟨neg, n, f, ⟨a, x, hq, hread, hx⟩, hstrict, -⟩ := isNumberUnsigned_iff.1 h
  obtain rfl : f = 1 := hstrict rfl
  have hnil : x = [] := by
    simp only [suffixes, List.mem_cons, Prod.mk.injEq, List.not_mem_nil, or_false] at hx
    obtain ⟨rfl, -⟩ | ⟨-, h1⟩ | ⟨-, h1⟩ | ⟨-, h1⟩ | ⟨-, h1⟩ := hx
    · rfl
    all_goals cases h1
  obtain rfl : q = a := by rw [hq, hnil, List.append_nil, List.append_nil]
  obtain ⟨s, t, rfl⟩ := List.append_of_mem hmem
  -- the scan stops at the character, so that something is left
  have hscan := scanned_nil_iff.2 hread
  rw [scanned_append hc (Or.inl hblank), Option.map_eq_some_iff] at hscan
  obtain ⟨r, -, hr⟩ := hscan
  simp at hr

/-- `addr/q`, where `q` is read as the number `p`. -/
structure PrefixText (arg : CStr) (addr q : Text) (p : Nat) : Prop where
  text : arg.text = addr ++ '/' :: q
  number : isNumberUnsigned q true = some (p : Int)

/-- The structure when the address has been stored. -/
def NetAddr.addressed (ips : NetAddr) (type : Nat) (a : List Byte) : NetAddr :=
  { ips with vnaType := type }.store '1' a

@[simp] theorem addressed_vnaType (ips : NetAddr) (type : Nat) (a : List Byte) :
    (ips.addressed type a).vnaType = type := rfl

/-- What the argument's mask becomes when its address has been stored. -/
theorem parse_prefix {pton : InetPton} {arg : CStr} {addr q : Text} {a : List Byte} {p type : Nat}
    (ips : NetAddr) (htext : PrefixText arg addr q p)
    (hconv : convertAddress pton addr = (type, some a)) (hp : p ≤ limitOf type) :
    (∀ ips', storePrefix (ips.addressed type a) p = .done ips' →
      ∃ s, parseIPFormat pton arg ips formatIP = .ended s ∧ s.ips = ips' ∧ s.ret = 2) ∧
    (storePrefix (ips.addressed type a) p = .undefinedShift →
      ∃ s, parseIPFormat pton arg ips formatIP = .undefinedShift s) := by
  have haddr : '/' ∉ addr := by
    unfold convertAddress at hconv
    split at hconv
    · rename_i b hb
      intro hmem
      exact absurd ((pton.v4_text addr b hb).2 '/' hmem) (by decide)
    · intro hmem
      exact absurd ((pton.v6_text addr a (Prod.mk.inj hconv).2).2 '/' hmem) (by decide)
  have hq : ':' ∉ q ∧ '.' ∉ q :=
    ⟨not_mem_of_isNumberUnsigned htext.number numberEnd_special.1 (by decide),
      not_mem_of_isNumberUnsigned htext.number numberEnd_special.2.1 (by decide)⟩
  have hat := at_start ips arg.noNul
  rw [htext.text] at hat
  obtain ⟨sep, hfield, hnext⟩ := field_found pton '1' hat (by decide) haddr
  have hfirst : convertField pton '1' addr (start (addr ++ '/' :: q) ips).ips =
      .done (ips.addressed type a) := by
    unfold convertField
    rw [if_neg (fun h => absurd h.1 (by decide)), hconv]
    rfl
  have hmask : convertField pton 'm' q (ips.addressed type a) =
      storePrefix (ips.addressed type a) p := by
    unfold convertField
    have hlimit : ¬ ((limitOf type : Nat) : Int) < (p : Int) := by omega
    rw [if_pos ⟨rfl, hq⟩, htext.number, addressed_vnaType]
    simp only [hlimit, if_false, Int.toNat_natCast]
  obtain ⟨sep', hlast⟩ := field_last pton 'm'
    (hnext (ips.addressed type a) 1) (by decide)
  have hformat : formatIP = ['1', '/', 'm'] := rfl
  have hloop : ∀ s : Parser, s.ips = ips.addressed type a → s.ret = 1 →
      s.field pton 'm' '\x00' = (s.cut 'm' q sep').advance pton 'm' q sep' →
      (∀ ips', storePrefix (ips.addressed type a) p = .done ips' →
        ∃ s', s.loop pton ['m'] = .ended s' ∧ s'.ips = ips' ∧ s'.ret = 2) ∧
      (storePrefix (ips.addressed type a) p = .undefinedShift →
        ∃ s', s.loop pton ['m'] = .undefinedShift s') := by
    intro s hips hret hs
    have hcut : (s.cut 'm' q sep').ips = s.ips := rfl
    constructor
    · intro ips' hdone
      rw [Parser.loop, hs, Parser.advance, hcut, hips, hmask, hdone]
      refine ⟨_, rfl, rfl, ?_⟩
      show s.ret + 1 = 2
      rw [hret]
      rfl
    · intro hshift
      rw [Parser.loop, hs, Parser.advance, hcut, hips, hmask, hshift]
      exact ⟨_, rfl⟩
  rw [parseIPFormat, hformat, htext.text, loop_round hfield, hfirst]
  exact hloop _ rfl rfl hlast

theorem overlay_msbBit {m u : List Byte} {i : Nat} (h : i < 8 * m.length) :
    msbBit (overlay m u) i = msbBit m i := by
  rw [msbBit, msbBit, overlay, List.getD_eq_getElem?_getD, List.getD_eq_getElem?_getD,
    List.getElem?_append_left (by omega)]

theorem overlay_hasPrefix {m u : List Byte} {p n : Nat} (h : n ≤ 8 * m.length) :
    HasPrefix (overlay m u) p n ↔ HasPrefix m p n := by
  constructor
  · intro hp i hi
    rw [← overlay_msbBit (u := u) (by omega)]
    exact hp i hi
  · intro hp i hi
    rw [overlay_msbBit (by omega)]
    exact hp i hi

/-- The loop ends with two fields, and the stored mask has exactly the first `p` of its bits set. -/
def StoresPrefix (o : Outcome) (p width : Nat) : Prop :=
  ∃ s, o = .ended s ∧ s.ret = 2 ∧ s.ips.vnaPrefix = p ∧ HasPrefix s.ips.mask p width

/-- **Which prefix lengths of an IPv4 address are stored rightly.** -/
theorem stores_ipv4_iff {pton : InetPton} {arg : CStr} {addr q : Text} {a : List Byte} {p : Nat}
    (ips : NetAddr) (htext : PrefixText arg addr q p) (haddr : pton.v4 addr = some a)
    (hp : p ≤ 32) : StoresPrefix (parseIPFormat pton arg ips formatIP) p 32 ↔ 2 ≤ p := by
  have hconv : convertAddress pton addr = (VC_NXA_TYPE_IPV4, some a) := by
    rw [convertAddress, haddr]
  obtain ⟨hdone, hshift⟩ := parse_prefix ips htext hconv hp
  obtain ⟨hnone, hsome⟩ := ipv4PrefixToMask_spec hp
  constructor
  · rintro ⟨s, hs, -⟩
    by_contra hlt
    have hstore : storePrefix (ips.addressed VC_NXA_TYPE_IPV4 a) p = .undefinedShift := by
      rw [storePrefix, if_pos (addressed_vnaType ..), hnone (by omega)]
    obtain ⟨s', hs'⟩ := hshift hstore
    rw [hs'] at hs
    cases hs
  · intro h2
    obtain ⟨m, hm, hlen, hpfx⟩ := hsome h2
    obtain ⟨s, hs, hips, hret⟩ := hdone _ (by
      rw [storePrefix, if_pos (addressed_vnaType ..), hm])
    have hwidth : 32 ≤ 8 * m.length := by omega
    refine ⟨s, hs, hret, ?_, ?_⟩
    · rw [hips]
    · rw [hips]
      exact (overlay_hasPrefix hwidth).2 hpfx

/-- **Which prefix lengths of an IPv6 address are stored rightly.** -/
theorem stores_ipv6_iff {pton : InetPton} {arg : CStr} {addr q : Text} {a : List Byte} {p : Nat}
    (ips : NetAddr) (htext : PrefixText arg addr q p) (hnot : pton.v4 addr = none)
    (haddr : pton.v6 addr = some a) (hp : p ≤ 128) :
    StoresPrefix (parseIPFormat pton arg ips formatIP) p 128 ↔ p % 8 = 0 ∨ p % 8 = 4 := by
  have hconv : convertAddress pton addr = (VC_NXA_TYPE_IPV6, some a) := by
    rw [convertAddress, hnot, haddr]
  obtain ⟨hdone, -⟩ := parse_prefix ips htext hconv hp
  obtain ⟨hlen, -⟩ := ipv6PrefixToMask_spec hp
  have hwidth : 128 ≤ 8 * (ipv6PrefixToMask p).length := by omega
  obtain ⟨s, hs, hips, hret⟩ := hdone _ (by
    rw [storePrefix, addressed_vnaType, if_neg (by decide), if_pos rfl])
  rw [← ipv6PrefixToMask_iff hp]
  constructor
  · rintro ⟨s', hs', -, -, hpfx⟩
    obtain rfl : s = s' := Outcome.ended.inj (hs.symm.trans hs')
    rw [hips] at hpfx
    exact (overlay_hasPrefix hwidth).1 hpfx
  · intro hpfx
    refine ⟨s, hs, hret, ?_, ?_⟩
    · rw [hips]
    · rw [hips]
      exact (overlay_hasPrefix hwidth).2 hpfx

/-- **Which prefixes and masks are converted rightly**, and which of them survive the conversion
there and back. -/
theorem netmask_exact (pton : InetPton) :
    (∀ arg addr q a p ips, PrefixText arg addr q p → pton.v4 addr = some a → p ≤ 32 →
      (StoresPrefix (parseIPFormat pton arg ips formatIP) p 32 ↔ 2 ≤ p)) ∧
    (∀ arg addr q a p ips, PrefixText arg addr q p → pton.v4 addr = none →
      pton.v6 addr = some a → p ≤ 128 →
      (StoresPrefix (parseIPFormat pton arg ips formatIP) p 128 ↔ p % 8 = 0 ∨ p % 8 = 4)) ∧
    (∀ data limit, limit ≤ 8 * data.length →
      (maskToPrefix data limit = leading (msbBit data) limit ↔ FirstPartialEven data limit)) ∧
    (∀ p, p ≤ 32 →
      ((ipv4PrefixToMask p).map (fun m => maskToPrefix m 32) = some p ↔ p % 8 = 0 ∧ p ≠ 0)) ∧
    (∀ p, p ≤ 128 → (maskToPrefix (ipv6PrefixToMask p) 128 = p ↔ p % 8 = 0)) ∧
    (∀ mask p, mask.length = 4 → p ≤ 32 → HasPrefix mask p 32 →
      (ipv4PrefixToMask (maskToPrefix mask 32) = some mask ↔ p % 8 = 0 ∧ p ≠ 0)) ∧
    (∀ mask p, mask.length = 16 → p ≤ 128 → HasPrefix mask p 128 →
      (ipv6PrefixToMask (maskToPrefix mask 128) = mask ↔ p % 8 = 0)) :=
  ⟨fun _ _ _ _ _ ips htext haddr hp => stores_ipv4_iff ips htext haddr hp,
    fun _ _ _ _ _ ips htext hnot haddr hp => stores_ipv6_iff ips htext hnot haddr hp,
    fun _ _ h => maskToPrefix_iff h, fun _ h => ipv4_prefix_roundTrip h,
    fun _ h => ipv6_prefix_roundTrip h, fun _ _ hlen h hmask => ipv4_mask_roundTrip hlen h hmask,
    fun _ _ hlen h hmask => ipv6_mask_roundTrip hlen h hmask⟩

/-- A prefix of 24 bits is right in each of the parts, and so is its mask. -/
theorem netmask_exact_24 :
    StoresPrefix (parseIPFormat somePton ⟨"10.0.0.1/24".toList, by decide⟩ cleared formatIP) 24 32 ∧
    StoresPrefix (parseIPFormat somePton ⟨"::1/24".toList, by decide⟩ cleared formatIP) 24 128 ∧
    maskToPrefix [255, 255, 255, 0] 32 = leading (msbBit [255, 255, 255, 0]) 32 ∧
    (ipv4PrefixToMask 24).map (fun m => maskToPrefix m 32) = some 24 ∧
    maskToPrefix (ipv6PrefixToMask 24) 128 = 24 ∧
    ipv4PrefixToMask (maskToPrefix [255, 255, 255, 0] 32) = some [255, 255, 255, 0] ∧
    ipv6PrefixToMask (maskToPrefix (ipv6PrefixToMask 24) 128) = ipv6PrefixToMask 24 := by
  obtain ⟨h4, h6, hcount, hp4, hp6, hm4, hm6⟩ := netmask_exact somePton
  have hnumber : isNumberUnsigned "24".toList true = some (24 : Nat) := by decide +kernel
  have hmask : HasPrefix [255, 255, 255, 0] 24 32 := by
    unfold HasPrefix
    decide +kernel
  refine ⟨(h4 _ "10.0.0.1".toList "24".toList [10, 0, 0, 1] 24 cleared ⟨rfl, hnumber⟩ rfl
      (by decide)).2 (by decide),
    (h6 _ "::1".toList "24".toList _ 24 cleared ⟨rfl, hnumber⟩ rfl rfl (by decide)).2 (by decide),
    (hcount _ 32 (by decide)).2 ?_, (hp4 24 (by decide)).2 (by decide),
    (hp6 24 (by decide)).2 (by decide), (hm4 _ 24 rfl (by decide) hmask).2 (by decide),
    (hm6 _ 24 rfl (by decide) ?_).2 (by decide)⟩
  · -- the first byte that is not full is empty
    intro k b hb hfull
    match k with
    | 0 | 1 | 2 =>
      cases hb
      decide
    | 3 =>
      cases hb
      decide
    | k + 4 => simp at hb
  · exact (ipv6PrefixToMask_iff (by decide)).2 (by decide)

/-- The shift of the prefix 0, the last byte of an IPv6 mask, and a byte whose leading ones are not
its low bits. -/
theorem netmask_wrong :
    ¬ StoresPrefix (parseIPFormat somePton ⟨"10.0.0.1/0".toList, by decide⟩ cleared formatIP) 0 32 ∧
    ¬ StoresPrefix (parseIPFormat somePton ⟨"::1/1".toList, by decide⟩ cleared formatIP) 1 128 ∧
    maskToPrefix [254, 0, 0, 0] 32 ≠ leading (msbBit [254, 0, 0, 0]) 32 ∧
    (ipv4PrefixToMask 20).map (fun m => maskToPrefix m 32) ≠ some 20 := by
  have hzero : isNumberUnsigned "0".toList true = some (0 : Nat) := by decide +kernel
  have hone : isNumberUnsigned "1".toList true = some (1 : Nat) := by decide +kernel
  refine ⟨fun h => ?_, fun h => ?_, by decide +kernel, by decide +kernel⟩
  · have htext : PrefixText ⟨"10.0.0.1/0".toList, by decide⟩ "10.0.0.1".toList "0".toList 0 :=
      ⟨rfl, hzero⟩
    exact absurd ((stores_ipv4_iff cleared htext rfl (by decide)).1 h) (by decide)
  · have htext : PrefixText ⟨"::1/1".toList, by decide⟩ "::1".toList "1".toList 1 := ⟨rfl, hone⟩
    exact absurd ((stores_ipv6_iff cleared htext rfl rfl (by decide)).1 h) (by decide)

end Naddress
