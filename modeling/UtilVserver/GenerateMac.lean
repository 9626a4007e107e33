import Mathlib.Data.List.Pairwise
import UtilVserver.Lib.CString

/-!
# Hardware addresses of indirect interfaces (`scripts/vserver.functions`)

An indirect interface is set up with a hardware address that is configured or made from the name
of the interface's directory and the number of the context.

* `isNumber`, `generateMac` — the functions, for names that consist of digits.
* `indirectMac` — the address that `_processSingleInterface` comes to.
* `Assigned` — what the addresses of a set of interfaces have to be.

Principal results: `generateMac_distinct_iff` and `macs_exact`.
-/

set_option autoImplicit false

namespace GenerateMac

open CString

/-- The name of an interface's directory: a decimal numeral below 65536. -/
structure Name where
  text : Text
  digits : text.all (isDigitIn 10) = true
  nonempty : text ≠ []
  small : digitsVal 10 text < 65536

/-- A numeral in the arithmetic of the shell: with a leading zero it is octal. -/
def arith (name : Name) : Option Nat := cNumeral name.text

/-- `let tmp=$1+0 2>/dev/null || test -z "${1//0/}" -a -n "$1"`; `let` fails for 0. -/
def isNumber (name : Name) : Bool :=
  (arith name).any (· ≠ 0) || (name.text.filter (· ≠ '0')).isEmpty && !name.text.isEmpty

/-- `%02x` of a byte. -/
def hex (b : BitVec 64) : Text := [(b.toNat / 16).digitChar, (b.toNat % 16).digitChar]

/-- `_generateMac`; none where it returns 1. -/
def generateMac (name : Name) (ctx : Nat) : Option Text :=
  if isNumber name = false then none
  else (arith name).map fun n =>
    let i := BitVec.ofNat 64 n
    let c := BitVec.ofNat 64 ctx
    "f0:ff:".toList ++ (hex (~~~(i.sshiftRight 8) &&& 0xff) ++ ':' :: (hex (i &&& 0xff) ++
      ':' :: (hex (c.sshiftRight 8 &&& 0xff) ++ ':' :: hex (c &&& 0xff))))

/-- An indirect interface: its name, the number of the context, and the configured address, which
is empty when there is none. -/
structure Interface where
  name : Name
  ctx : Nat
  ctx_lt : ctx < 65536
  mac : Text

/-- `test -z "$mac" || _generateMac mac "$(basename $iface)" "$N_CONTEXT" || return 1`: the address
that is set; none when the interface is not set up. -/
def indirectMac (iface : Interface) : Option Text :=
  if iface.mac = [] then some iface.mac else generateMac iface.name iface.ctx

/-- The interfaces are not the same directory in the same context. -/
def Different (i j : Interface) : Prop := (i.name.text, i.ctx) ≠ (j.name.text, j.ctx)

/-- **What the addresses have to be**: a configured one is used, each other interface gets one, and
these are different. -/
structure Assigned (ifaces : List Interface) : Prop where
  configured : ∀ i ∈ ifaces, i.mac ≠ [] → indirectMac i = some i.mac
  generated : ∀ i ∈ ifaces, i.mac = [] → ∃ m, indirectMac i = some m ∧ m ≠ []
  distinct : ∀ i ∈ ifaces, ∀ j ∈ ifaces, i.mac = [] → j.mac = [] → Different i j →
    indirectMac i ≠ indirectMac j

/-! ## The function -/

theorem digitChar_inj : ∀ m < 16, ∀ n < 16, m.digitChar = n.digitChar → m = n := by
  decide

theorem hex_length (b : BitVec 64) : (hex b).length = 2 := rfl

theorem hex_inj {a b : BitVec 64} (ha : a.toNat < 256) (hb : b.toNat < 256) (h : hex a = hex b) :
    a.toNat = b.toNat := by
  unfold hex at h
  simp only [List.cons.injEq, and_true] at h
  have h1 := digitChar_inj _ (by omega) _ (by omega) h.1
  have h2 := digitChar_inj _ (by omega) _ (by omega) h.2
  omega

/-- The low byte. -/
theorem and_ff_toNat (x : BitVec 64) : (x &&& 0xff#64).toNat = x.toNat % 256 := by
  rw [BitVec.toNat_and]
  exact Nat.and_two_pow_sub_one_eq_mod x.toNat 8

theorem sshiftRight_toNat {n : Nat} (h : n < 65536) :
    ((BitVec.ofNat 64 n).sshiftRight 8).toNat = n / 256 := by
  have hn : (BitVec.ofNat 64 n).toNat = n := by
    rw [BitVec.toNat_ofNat]
    omega
  have hmsb : (BitVec.ofNat 64 n).msb = false := by
    rw [BitVec.msb_eq_false_iff_two_mul_lt, hn]
    omega
  rw [BitVec.sshiftRight_eq_of_msb_false hmsb, BitVec.toNat_ushiftRight, hn,
    Nat.shiftRight_eq_div_pow]

theorem not_and_ff_toNat {n : Nat} (h : n < 65536) :
    (~~~((BitVec.ofNat 64 n).sshiftRight 8) &&& 0xff#64).toNat = 255 - n / 256 := by
  rw [and_ff_toNat, BitVec.toNat_not, sshiftRight_toNat h]
  omega

/-- The octal value of digits is not larger than the decimal one. -/
theorem digitsVal_le {b b' : Nat} (h : b ≤ b') (ds : Text) : digitsVal b ds ≤ digitsVal b' ds := by
  unfold digitsVal
  suffices ∀ n n', n ≤ n' → ds.foldl (fun n c => n * b + (digitVal c).getD 0) n ≤
      ds.foldl (fun n c => n * b' + (digitVal c).getD 0) n' from this 0 0 le_rfl
  induction ds with
  | nil => exact fun n n' hn => hn
  | cons c ds ih =>
    intro n n' hn
    rw [List.foldl_cons, List.foldl_cons]
    apply ih
    have := Nat.mul_le_mul hn h
    omega

/-- The value of a name is not larger than that of its digits in base 10. -/
theorem arith_le {name : Name} {n : Nat} (h : arith name = some n) :
    n ≤ digitsVal 10 name.text := by
  unfold arith cNumeral at h
  have hdigits := name.digits
  split at h
  · cases h
  · rw [← Option.some.inj h]
    exact Nat.zero_le _
  · rename_i x ds htext
    rw [htext] at hdigits
    split at h
    · rename_i hx
      rcases hx with rfl | rfl <;> exact absurd hdigits (by simp [isDigitIn, digitVal])
    · obtain ⟨-, hval⟩ := (Option.ite_none_right_eq_some ..).1 h
      rw [htext, digitsVal_zero_cons, ← Option.some.inj hval]
      exact digitsVal_le (by omega) _
  · rename_i c ds _ _ htext
    obtain ⟨-, hval⟩ := (Option.ite_none_right_eq_some ..).1 h
    rw [← Option.some.inj hval, htext]

theorem arith_lt {name : Name} {n : Nat} (h : arith name = some n) : n < 65536 :=
  lt_of_le_of_lt (arith_le h) name.small

theorem foldl_eq_zero {b : Nat} (hb : 0 < b) : ∀ {ds : Text} {n : Nat},
    ds.foldl (fun n c => n * b + (digitVal c).getD 0) n = 0 →
      n = 0 ∧ ∀ c ∈ ds, (digitVal c).getD 0 = 0
  | [], n, h => ⟨h, fun c hc => by cases hc⟩
  | d :: ds, n, h => by
    have h' : ds.foldl (fun n c => n * b + (digitVal c).getD 0)
        (n * b + (digitVal d).getD 0) = 0 := h
    obtain ⟨hsum, hall⟩ := foldl_eq_zero hb h'
    have hmul : n * b = 0 := by omega
    refine ⟨(Nat.mul_eq_zero.1 hmul).resolve_right (by omega), fun c hc => ?_⟩
    rcases List.mem_cons.1 hc with rfl | hc
    · omega
    · exact hall c hc

/-- A digit with the value 0. -/
theorem eq_zero_of_digitVal {c : Char} (hdigit : isDigitIn 10 c = true)
    (hzero : (digitVal c).getD 0 = 0) : c = '0' := by
  unfold isDigitIn at hdigit
  cases hv : digitVal c with
  | none =>
    rw [hv] at hdigit
    cases hdigit
  | some d =>
    rw [hv, Option.getD_some] at hzero
    subst hzero
    unfold digitVal at hv
    have hnat : c.toNat = 48 := by
      split at hv
      · have := Option.some.inj hv
        omega
      · split at hv
        · have := Option.some.inj hv
          omega
        · split at hv
          · have := Option.some.inj hv
            omega
          · cases hv
    exact Char.toNat_inj.1 hnat

theorem digitsVal_zeros {b : Nat} : ∀ {ds : Text}, (∀ c ∈ ds, c = '0') →
    digitsVal b ds = 0 ∧ ds.all (isDigitIn 8) = true
  | [], _ => ⟨rfl, rfl⟩
  | c :: ds, h => by
    obtain rfl := h c List.mem_cons_self
    obtain ⟨hval, hall⟩ := digitsVal_zeros (b := b) fun c hc => h c (List.mem_cons_of_mem _ hc)
    rw [digitsVal_zero_cons, List.all_cons]
    exact ⟨hval, by rw [hall]; decide⟩

/-- Zeros are the names with the value 0. -/
theorem arith_eq_zero_iff {name : Name} : arith name = some 0 ↔ ∀ c ∈ name.text, c = '0' := by
  have hdigits := name.digits
  constructor
  · intro h
    have hval : ∃ b, 0 < b ∧ digitsVal b name.text = 0 := by
      unfold arith cNumeral at h
      split at h
      · cases h
      · rename_i htext
        exact ⟨10, by omega, by rw [htext]; rfl⟩
      · rename_i x ds htext
        rw [htext]
        split at h
        · obtain ⟨-, hval⟩ := (Option.ite_none_right_eq_some ..).1 h
          rename_i hx
          rw [htext] at hdigits
          rcases hx with rfl | rfl <;> exact absurd hdigits (by simp [isDigitIn, digitVal])
        · obtain ⟨-, hval⟩ := (Option.ite_none_right_eq_some ..).1 h
          exact ⟨8, by omega, by rw [digitsVal_zero_cons, Option.some.inj hval]⟩
      · rename_i c ds _ _ htext
        obtain ⟨-, hval⟩ := (Option.ite_none_right_eq_some ..).1 h
        exact ⟨10, by omega, by rw [htext, Option.some.inj hval]⟩
    obtain ⟨b, hb, hval⟩ := hval
    have hall := (foldl_eq_zero hb hval).2
    intro c hc
    exact eq_zero_of_digitVal (List.all_eq_true.1 hdigits c hc) (hall c hc)
  · intro h
    unfold arith
    cases htext : name.text with
    | nil => exact absurd htext name.nonempty
    | cons c ds =>
      rw [htext] at h
      obtain rfl := h c List.mem_cons_self
      cases ds with
      | nil => rfl
      | cons x ds =>
        obtain rfl := h x (by simp)
        obtain ⟨hval, hall⟩ := digitsVal_zeros (b := 8)
          fun c (hc : c ∈ '0' :: ds) => h c (List.mem_cons_of_mem _ hc)
        have hx : ¬ ('0' = 'x' ∨ '0' = 'X') := by decide
        simp only [cNumeral, if_neg hx, if_pos hall, hval]

/-- The test for numbers passes the names that the arithmetic reads. -/
theorem isNumber_iff (name : Name) : isNumber name = true ↔ (arith name).isSome = true := by
  have hzeros : (name.text.filter (· ≠ '0')).isEmpty = true ↔ arith name = some 0 := by
    rw [arith_eq_zero_iff, List.isEmpty_iff, List.filter_eq_nil_iff]
    simp
  have hne : name.text.isEmpty = false := by simp [name.nonempty]
  unfold isNumber
  rw [Bool.or_eq_true, Bool.and_eq_true, hzeros, hne]
  cases ha : arith name with
  | some n => by_cases hn : n = 0 <;> simp [hn]
  | none => simp

/-- A name that the arithmetic does not read gets no address, every other one does. -/
theorem generateMac_isSome (name : Name) (ctx : Nat) :
    (generateMac name ctx).isSome = (arith name).isSome := by
  unfold generateMac
  cases ha : arith name with
  | some n =>
    rw [if_neg (by rw [Bool.not_eq_false, isNumber_iff, ha]; rfl)]
    rfl
  | none =>
    have : isNumber name = false := by
      rw [← Bool.not_eq_true, isNumber_iff, ha]
      simp
    rw [if_pos this]
    rfl

/-- **Two addresses are the same** exactly when the arithmetic reads the same number, and the
context is the same. -/
theorem generateMac_eq_iff {name name' : Name} {ctx ctx' : Nat} (hc : ctx < 65536)
    (hc' : ctx' < 65536) (h : (arith name).isSome = true) (h' : (arith name').isSome = true) :
    generateMac name ctx = generateMac name' ctx' ↔
      arith name = arith name' ∧ ctx = ctx' := by
  obtain ⟨n, hn⟩ := Option.isSome_iff_exists.1 h
  obtain ⟨n', hn'⟩ := Option.isSome_iff_exists.1 h'
  have hlt := arith_lt hn
  have hlt' := arith_lt hn'
  unfold generateMac
  rw [if_neg (by rw [Bool.not_eq_false, isNumber_iff]; exact h),
    if_neg (by rw [Bool.not_eq_false, isNumber_iff]; exact h'), hn, hn']
  simp only [Option.map_some, Option.some.injEq, List.append_cancel_left_eq]
  constructor
  · intro heq
    obtain ⟨h1, heq⟩ := List.append_inj heq (by rw [hex_length, hex_length])
    rw [List.cons.injEq] at heq
    obtain ⟨h2, heq⟩ := List.append_inj heq.2 (by rw [hex_length, hex_length])
    rw [List.cons.injEq] at heq
    obtain ⟨h3, heq⟩ := List.append_inj heq.2 (by rw [hex_length, hex_length])
    rw [List.cons.injEq] at heq
    have hbyte : ∀ x : BitVec 64, (x &&& 0xff#64).toNat < 256 := by
      intro x
      rw [and_ff_toNat]
      exact Nat.mod_lt _ (by omega)
    have e1 := hex_inj (hbyte _) (hbyte _) h1
    have e2 := hex_inj (hbyte _) (hbyte _) h2
    have e3 := hex_inj (hbyte _) (hbyte _) h3
    have e4 := hex_inj (hbyte _) (hbyte _) heq.2
    rw [not_and_ff_toNat hlt, not_and_ff_toNat hlt'] at e1
    rw [and_ff_toNat, and_ff_toNat, sshiftRight_toNat hc, sshiftRight_toNat hc'] at e3
    rw [and_ff_toNat, and_ff_toNat, BitVec.toNat_ofNat, BitVec.toNat_ofNat] at e2 e4
    omega
  · rintro ⟨rfl, rfl⟩
    rfl

/-- **Every pair gets an address of its own** exactly when the arithmetic reads all names, and reads
different numbers from different names in one context. -/
theorem generateMac_distinct_iff (ifaces : List Interface) :
    ((∀ i ∈ ifaces, (generateMac i.name i.ctx).isSome = true) ∧
      ∀ i ∈ ifaces, ∀ j ∈ ifaces, Different i j →
        generateMac i.name i.ctx ≠ generateMac j.name j.ctx) ↔
    (∀ i ∈ ifaces, (arith i.name).isSome = true) ∧
      ∀ i ∈ ifaces, ∀ j ∈ ifaces, i.ctx = j.ctx → i.name.text ≠ j.name.text →
        arith i.name ≠ arith j.name := by
  simp only [generateMac_isSome]
  refine and_congr_right fun hsome => ?_
  constructor
  · intro h i hi j hj hctx hname heq
    refine h i hi j hj ?_ ?_
    · intro he
      exact hname (Prod.ext_iff.1 he).1
    · exact (generateMac_eq_iff i.ctx_lt j.ctx_lt (hsome i hi) (hsome j hj)).2 ⟨heq, hctx⟩
  · intro h i hi j hj hdiff heq
    obtain ⟨hname, hctx⟩ :=
      (generateMac_eq_iff i.ctx_lt j.ctx_lt (hsome i hi) (hsome j hj)).1 heq
    refine h i hi j hj hctx ?_ hname
    intro he
    exact hdiff (Prod.ext he hctx)

/-! ## The call -/

/-- The call turns the test for a configured address round. -/
theorem assigned_iff (ifaces : List Interface) :
    Assigned ifaces ↔ ∀ i ∈ ifaces, i.mac ≠ [] ∧ generateMac i.name i.ctx = some i.mac := by
  constructor
  · intro h i hi
    have hne : i.mac ≠ [] := by
      intro hnil
      obtain ⟨m, hm, hmne⟩ := h.generated i hi hnil
      rw [indirectMac, if_pos hnil, hnil, Option.some.injEq] at hm
      exact hmne hm.symm
    refine ⟨hne, ?_⟩
    rw [← h.configured i hi hne, indirectMac, if_neg hne]
  · intro h
    refine ⟨fun i hi hne => ?_, fun i hi hnil => ?_, fun i hi j hj hnil => ?_⟩
    · rw [indirectMac, if_neg hne]
      exact (h i hi).2
    · exact absurd hnil (h i hi).1
    · exact absurd hnil (h i hi).1

/-- **The addresses are as they have to be** exactly when each interface has a configured address
and it is the one that is made from its name.  Where the function is called it gives different
addresses exactly when the arithmetic reads different numbers from the names in one context. -/
theorem macs_exact (ifaces : List Interface) :
    (Assigned ifaces ↔ ∀ i ∈ ifaces, i.mac ≠ [] ∧ generateMac i.name i.ctx = some i.mac) ∧
      (((∀ i ∈ ifaces, (generateMac i.name i.ctx).isSome = true) ∧
          ∀ i ∈ ifaces, ∀ j ∈ ifaces, Different i j →
            generateMac i.name i.ctx ≠ generateMac j.name j.ctx) ↔
        (∀ i ∈ ifaces, (arith i.name).isSome = true) ∧
          ∀ i ∈ ifaces, ∀ j ∈ ifaces, i.ctx = j.ctx → i.name.text ≠ j.name.text →
            arith i.name ≠ arith j.name) :=
  ⟨assigned_iff ifaces, generateMac_distinct_iff ifaces⟩

/-- The interface `0` of context 100 without a configured address gets none; the names `8` and
`010` get the same. -/
theorem macs_missing :
    ¬ Assigned [⟨⟨['0'], by decide, by decide, by decide⟩, 100, by decide, []⟩] ∧
      generateMac ⟨['8'], by decide, by decide, by decide⟩ 100 =
        generateMac ⟨['0', '1', '0'], by decide, by decide, by decide⟩ 100 := by
  constructor
  · rw [assigned_iff]
    intro h
    exact (h _ List.mem_cons_self).1 rfl
  · rw [generateMac_eq_iff (by decide) (by decide) (by decide) (by decide)]
    exact ⟨by decide, rfl⟩

end GenerateMac
