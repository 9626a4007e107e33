import UtilVserver.VectorRefines

/-!
# The arguments of a command (`src/lib_internal/command-*.c`)

`Command_appendParameter` collects pointers in a vector, and `Command_exec` passes the memory of the
vector to `execv` as an array of pointers.

* `Command`, `appendParameter`, `setParams`, `exec` — the functions on `struct Command`.
* `Right` — what the array should be.
* `Slots10` — what it is: the vector is made for elements of ten bytes, and a pointer fills eight.

Principal results: `exec_argv`, and `exec_wrong`.
-/

set_option autoImplicit false

namespace CommandArgv

open Slots VectorMemory

/-! ## Pointers in memory -/

abbrev Pointer := UInt64

/-- The bytes of a pointer, the low ones first. -/
def bytes (p : Pointer) : List UInt8 :=
  [p.toUInt8, (p >>> 8).toUInt8, (p >>> 16).toUInt8, (p >>> 24).toUInt8, (p >>> 32).toUInt8,
    (p >>> 40).toUInt8, (p >>> 48).toUInt8, (p >>> 56).toUInt8]

/-- The pointer that some bytes are. -/
def pointer (cells : List UInt8) : Pointer :=
  UInt64.ofNat (cells.foldr (fun b n => b.toNat + 256 * n) 0)

theorem bytes_length (p : Pointer) : (bytes p).length = 8 := rfl

theorem pointer_bytes (p : Pointer) : pointer (bytes p) = p := by
  have hlt := p.toNat_lt
  apply UInt64.toNat_inj.mp
  simp only [pointer, bytes, List.foldr, UInt64.toNat_ofNat', UInt64.toNat_toUInt8,
    UInt64.toNat_shiftRight, Nat.shiftRight_eq_div_pow, UInt64.reduceToNat, Nat.reduceMod,
    Nat.reducePow]
  omega

/-- Addresses of a program have two zero bytes at the end. -/
theorem bytes_user {p : Pointer} (h : p.toNat < 2 ^ 48) :
    ∃ a b c d e f, bytes p = [a, b, c, d, e, f, 0, 0] := by
  have hsixth : (p >>> 48).toUInt8 = 0 := by
    apply UInt8.toNat_inj.mp
    simp only [UInt64.toNat_toUInt8, UInt64.toNat_shiftRight, Nat.shiftRight_eq_div_pow,
      UInt64.reduceToNat, UInt8.reduceToNat, Nat.reduceMod, Nat.reducePow]
    omega
  have hseventh : (p >>> 56).toUInt8 = 0 := by
    apply UInt8.toNat_inj.mp
    simp only [UInt64.toNat_toUInt8, UInt64.toNat_shiftRight, Nat.shiftRight_eq_div_pow,
      UInt64.reduceToNat, UInt8.reduceToNat, Nat.reduceMod, Nat.reducePow]
    omega
  rw [bytes, hsixth, hseventh]
  exact ⟨_, _, _, _, _, _, rfl⟩

/-! ## The functions -/

/-- `params` and `params_style_` of a `struct Command`. -/
inductive Params where
  | NONE
  | VEC (v : Vector)
  /-- The memory behind the pointer. -/
  | DATA (d : Option (List UInt8))

structure Command where
  filename : Pointer
  params : Params

/-- `Command_init`, and the caller sets the filename. -/
def init (filename : Pointer) : Command := ⟨filename, .NONE⟩

/-- `Command_appendParameter`. -/
def appendParameter (debug : Bool) (cmd : Command) (param : Pointer × Realloc) : Outcome Command :=
  let append (v : Vector) : Outcome Command :=
    (pushback debug param.2 v).bind fun (v, p) =>
      (write v p (bytes param.1)).bind fun v => .ok { cmd with params := .VEC v }
  match cmd.params with
  | .NONE => append (VectorMemory.init 10)
  | .VEC v => append v
  -- "internal error: conflicting functions"
  | .DATA _ => .ended

/-- A sequence of `Command_appendParameter` calls. -/
def appendParameters (debug : Bool) : Command → List (Pointer × Realloc) → Outcome Command
  | cmd, [] => .ok cmd
  | cmd, param :: params =>
    (appendParameter debug cmd param).bind fun cmd => appendParameters debug cmd params

/-- `Command_setParams`. -/
def setParams (cmd : Command) (par : Option (List UInt8)) : Outcome Command :=
  match cmd.params with
  | .VEC _ => .ended
  | _ => .ok { cmd with params := .DATA par }

/-- What is passed to `execv`. -/
structure Execv where
  path : Pointer
  argv : Option (List UInt8)

/-- The pointer at the start of the array. -/
def first : Option (List UInt8) → Outcome Pointer
  | none => .fault
  | some block => (access (peek 0 8 block)).bind fun cells => .ok (pointer cells)

/-- `Command_exec` up to `execv`; `forked` when the pipe and the child could be made. -/
def exec (debug : Bool) (r : Realloc) (do_fork forked : Bool) (cmd : Command) :
    Outcome (Option Execv) :=
  let terminated : Outcome Params :=
    match cmd.params with
    | .VEC v => (zeroEnd debug r v).bind fun v => .ok (.VEC v)
    | params => .ok params
  terminated.bind fun params =>
    if do_fork = true ∧ forked = false then .ok none
    else
      let argv :=
        match params with
        | .VEC v => v.data
        | .DATA d => d
        | .NONE => none
      (if cmd.filename ≠ 0 then .ok cmd.filename else first argv).bind fun path =>
        .ok (some ⟨path, argv⟩)

/-- The array has slots of the size of a pointer, and holds the parameters and a null pointer. -/
def Right (cmd : Command) (e : Execv) (params : List Pointer) : Prop :=
  (∃ v, cmd.params = .VEC v ∧ v.elem_size = 8) ∧
    ∃ block, e.argv = some block ∧ Holds 8 ((params ++ [0]).map bytes) block

/-! ## The slots -/

/-- The elements start with the pointers, and two more bytes follow each. -/
def Slots10 (params : List Pointer) (xs : List Elem) : Prop :=
  List.Forall₂ (fun p x => ∃ a b, x = bytes p ++ [a, b]) params xs

variable {debug : Bool} {r : Realloc} {vec vec' : Vector} {xs : List Elem} {param : Pointer}
  {params : List Pointer} {cmd cmd' : Command}

theorem Outcome.bind_ok {α β : Type} {o : Outcome α} {f : α → Outcome β} {b : β}
    (h : o.bind f = .ok b) : ∃ a, o = .ok a ∧ f a = .ok b := by
  cases o with
  | ok a => exact ⟨a, rfl, h⟩
  | ended => cases h
  | fault => cases h

/-- When a size wraps around, the new slot is not in the block. -/
theorem pushback_wraps (h : Inv vec 10 xs.length xs) (hgrow : vec.allocated < vec.count + 1)
    (hwrap : ¬ NoWrap 10 (vec.count + 1)) {slot : Nat}
    (hpush : pushback debug r vec = .ok (vec', slot)) :
    vec'.block.length < slot + 8 ∧ vec'.elem_size = 10 := by
  have hbound : vec.count ≤ vec.allocated := by rw [h.count]; exact h.bound
  have hfits := h.fits
  have hlt : vec.count + 1 < size_t := by unfold size_t at *; omega
  have hwide : size_t ≤ (vec.count + 1) * 20 := by
    unfold NoWrap size_t at *
    omega
  have hoff : (vec.count + 1 + (size_t - 1)) % size_t * 10 % size_t = vec.count * 10 := by
    unfold size_t at *
    omega
  have hsmall : ((vec.count + 1) * 20 % size_t / 16 + 1) % size_t * 10 % size_t <
      vec.count * 10 + 8 := by
    have hrest : (vec.count + 1) * 20 % size_t + size_t ≤ (vec.count + 1) * 20 := by
      rw [Nat.mod_eq_sub_mod hwide]
      have hle := Nat.mod_le ((vec.count + 1) * 20 - size_t) size_t
      omega
    generalize (vec.count + 1) * 20 % size_t = rest at hrest ⊢
    unfold size_t at *
    have hslots : rest / 16 + 1 < 2 ^ 60 + 2 := by omega
    have hbytes : (rest / 16 + 1) * 10 < 2 ^ 64 := by omega
    rw [Nat.mod_eq_of_lt (a := rest / 16 + 1) (by omega), Nat.mod_eq_of_lt hbytes]
    omega
  simp only [pushback, Nat.mod_eq_of_lt hlt, if_pos hgrow, resizeInternal, h.size] at hpush
  obtain ⟨grown, hgrown, hslot⟩ := Outcome.bind_ok hpush
  split at hgrown
  · cases hgrown
  split at hgrown
  · cases hgrown
    cases hslot
    refine ⟨?_, rfl⟩
    rw [hoff]
    show (r.block vec.block _).length < _
    rwa [realloc_length]
  · split at hgrown
    · cases hgrown
    · cases hgrown
      cases hslot
      refine ⟨?_, rfl⟩
      rw [hoff]
      show (0 : Nat) < _
      omega

/-- A new slot of ten bytes, when eight bytes of it could be written. -/
theorem pushback_ten (h : Inv vec 10 xs.length xs) {slot : Nat}
    (hpush : pushback debug r vec = .ok (vec', slot)) (hin : slot + 8 ≤ vec'.block.length) :
    Inv vec' 10 (xs.length + 1) xs ∧ slot = xs.length * 10 := by
  have hsafe := @pushback_safe vec 10 xs debug r h fun hgrow => by
    by_contra hwrap
    obtain ⟨hout, _⟩ := pushback_wraps h hgrow hwrap hpush
    omega
  rw [hpush] at hsafe
  exact hsafe

/-- **One append**: two bytes behind the pointer stay as they are. -/
theorem append_ten (h : Inv vec 10 xs.length xs) {slot : Nat} {vec'' : Vector}
    (hpush : pushback debug r vec = .ok (vec', slot))
    (hwrite : write vec' slot (bytes param) = .ok vec'') :
    ∃ a b, Inv vec'' 10 (xs.length + 1) (xs ++ [bytes param ++ [a, b]]) := by
  have hin : slot + 8 ≤ vec'.block.length := by
    by_contra hout
    rw [write, poke, bytes_length, if_neg hout] at hwrite
    cases hwrite
  obtain ⟨h', rfl⟩ := pushback_ten h hpush hin
  have hroom : xs.length * 10 + (bytes param).length + 2 ≤ vec'.block.length := by
    have hslots := h'.slots_le
    rw [bytes_length]
    omega
  have hrest := poke_extend hroom
  obtain ⟨a, b, hab⟩ : ∃ a b, (vec'.block.drop (xs.length * 10 + (bytes param).length)).take 2 =
      [a, b] := by
    have hlen : ((vec'.block.drop (xs.length * 10 + (bytes param).length)).take 2).length = 2 := by
      rw [List.length_take, List.length_drop]
      omega
    exact List.length_eq_two.mp hlen
  have hten := h'.write (r := r) (x := bytes param ++ [a, b]) rfl (Nat.le_refl _) (Nat.lt_succ_self _)
  rw [List.take_length, List.drop_of_length_le (by omega)] at hten
  rw [write, ← hrest, hab, ← write] at hwrite
  rw [hwrite] at hten
  exact ⟨a, b, hten⟩

/-- The vector of a command holds the parameters, in slots of ten bytes. -/
def Appended (cmd : Command) (params : List Pointer) : Prop :=
  match cmd.params with
  | .NONE => params = []
  | .VEC v => params ≠ [] ∧ ∃ xs, Inv v 10 xs.length xs ∧ Slots10 params xs
  | .DATA _ => False

theorem appendParameter_ten (h : Appended cmd params)
    (happend : appendParameter debug cmd (param, r) = .ok cmd') :
    Appended cmd' (params ++ [param]) ∧ cmd'.filename = cmd.filename := by
  have hnew : ∀ v xs, Inv v 10 xs.length xs → Slots10 params xs →
      ((pushback debug r v).bind fun (v, p) =>
        (write v p (bytes param)).bind fun v => .ok { cmd with params := .VEC v }) = .ok cmd' →
      Appended cmd' (params ++ [param]) ∧ cmd'.filename = cmd.filename := by
    intro v xs hinv hslots heq
    obtain ⟨⟨v', slot⟩, hpush, heq⟩ := Outcome.bind_ok heq
    obtain ⟨v'', hwrite, heq⟩ := Outcome.bind_ok heq
    cases heq
    obtain ⟨a, b, hinv'⟩ := append_ten hinv hpush hwrite
    refine ⟨⟨by simp, xs ++ [bytes param ++ [a, b]], by rwa [List.length_append], ?_⟩, rfl⟩
    exact List.rel_append hslots (.cons ⟨a, b, rfl⟩ .nil)
  obtain ⟨filename, p⟩ := cmd
  cases p with
  | NONE =>
    obtain rfl : params = [] := h
    exact hnew _ [] (inv_init (by omega)) .nil happend
  | VEC v =>
    obtain ⟨_, xs, hinv, hslots⟩ := h
    exact hnew v xs hinv hslots happend
  | DATA d => exact h.elim

/-- **All appends.** -/
theorem appendParameters_ten {calls : List (Pointer × Realloc)} (h : Appended cmd params)
    (happend : appendParameters debug cmd calls = .ok cmd') :
    Appended cmd' (params ++ calls.map Prod.fst) ∧ cmd'.filename = cmd.filename := by
  induction calls generalizing cmd params with
  | nil =>
    cases happend
    rw [List.map_nil, List.append_nil]
    exact ⟨h, rfl⟩
  | cons call calls ih =>
    obtain ⟨next, hone, hrest⟩ := Outcome.bind_ok happend
    obtain ⟨hnext, hname⟩ := appendParameter_ten h hone
    obtain ⟨hall, hname'⟩ := ih hnext hrest
    rw [List.append_assoc, List.singleton_append] at hall
    rw [List.map_cons]
    exact ⟨hall, hname'.trans hname⟩

/-! ## The array -/

/-- **The terminating slot** has ten zero bytes. -/
theorem zeroEnd_ten (h : Inv vec 10 xs.length xs) (hzero : zeroEnd debug r vec = .ok vec') :
    ∃ rest, vec'.data = some (xs.flatten ++ List.replicate 10 0 ++ rest) := by
  have hwrap : vec.allocated ≤ vec.count → NoWrap 10 (vec.count + 1) := by
    intro hfull
    by_contra hwrap
    rw [zeroEnd, if_pos hfull] at hzero
    obtain ⟨⟨v, slot⟩, hpush, hzero⟩ := Outcome.bind_ok hzero
    obtain ⟨hout, hsize⟩ := pushback_wraps h (by omega) hwrap hpush
    obtain ⟨v', hpop, hwrite⟩ := Outcome.bind_ok hzero
    have hsame : v'.block = v.block ∧ v'.elem_size = 10 := by
      rw [popback] at hpop
      split at hpop
      · cases hpop
        exact ⟨rfl, hsize⟩
      · split at hpop
        · cases hpop
        · cases hpop
          exact ⟨rfl, hsize⟩
    have hno : ¬ slot + (List.replicate v'.elem_size (0 : UInt8)).length ≤ v'.block.length := by
      rw [List.length_replicate, hsame.1, hsame.2]
      omega
    rw [write, poke, if_neg hno] at hwrite
    cases hwrite
  have hsafe := @zeroEnd_safe vec 10 xs debug r h hwrap
  rw [hzero] at hsafe
  obtain ⟨hinv, _, hpeek⟩ := hsafe
  obtain ⟨rest, hblock⟩ := hinv.holds.stored
  have hlen := hinv.holds.sized.length_flatten
  rw [peek, ← hblock, ← hlen] at hpeek
  split at hpeek
  · rename_i hin
    rw [List.drop_left, Option.some.injEq] at hpeek
    have hdata : vec'.data = some vec'.block := by
      cases hd : vec'.data with
      | some block => rw [Vector.block, hd]; rfl
      | none =>
        rw [Vector.block, hd, Option.getD_none, List.append_eq_nil_iff] at hblock
        rw [hblock.2] at hpeek
        cases hpeek
    refine ⟨rest.drop 10, ?_⟩
    rw [hdata, ← hblock, ← hpeek, List.append_assoc, List.take_append_drop]
  · cases hpeek

/-- **What is passed to `execv`.** -/
theorem exec_ten (h : Appended cmd params) {do_fork forked : Bool} {e : Execv}
    (hexec : exec debug r do_fork forked cmd = .ok (some e)) :
    (params = [] → e.argv = none) ∧ (params ≠ [] → ∃ v xs rest, cmd.params = .VEC v ∧
      v.elem_size = 10 ∧ Inv v 10 xs.length xs ∧ Slots10 params xs ∧
      e.argv = some (xs.flatten ++ List.replicate 10 0 ++ rest)) := by
  obtain ⟨filename, p⟩ := cmd
  cases p with
  | NONE =>
    refine ⟨fun _ => ?_, fun hne => absurd h hne⟩
    simp only [exec, Outcome.bind] at hexec
    split at hexec
    · cases hexec
    · obtain ⟨path, _, heq⟩ := Outcome.bind_ok hexec
      cases heq
      rfl
  | VEC v =>
    obtain ⟨hne, xs, hinv, hslots⟩ := h
    refine ⟨fun hnil => absurd hnil hne, fun _ => ?_⟩
    obtain ⟨p, hterm, hrest⟩ := Outcome.bind_ok hexec
    obtain ⟨v', hzero, heq⟩ := Outcome.bind_ok hterm
    cases heq
    obtain ⟨rest, hdata⟩ := zeroEnd_ten hinv hzero
    refine ⟨v, xs, rest, rfl, hinv.size, hinv, hslots, ?_⟩
    split at hrest
    · cases hrest
    · obtain ⟨path, _, heq⟩ := Outcome.bind_ok hrest
      cases heq
      exact hdata
  | DATA d => exact h.elim

/-- A second pointer is read two bytes too early. -/
theorem two_differ {p q : Pointer} {ps : List Pointer} (hslots : Slots10 (p :: q :: ps) xs)
    (hq : q ≠ 0) (huser : q.toNat < 2 ^ 48) (rest : List UInt8) :
    ¬ Holds 8 ((p :: q :: ps ++ [0]).map bytes) (xs.flatten ++ rest) := by
  intro hholds
  obtain ⟨a, b, c, d, e, f, hbytes⟩ := bytes_user huser
  cases hslots with
  | cons hx hslots =>
    cases hslots with
    | cons hy hslots =>
      obtain ⟨x, x', rfl⟩ := hx
      obtain ⟨y, y', rfl⟩ := hy
      obtain ⟨tail, hstored⟩ := hholds.stored
      simp only [List.cons_append, List.map_cons, List.flatten_cons, List.append_assoc,
        List.nil_append, List.append_cancel_left_eq, hbytes, List.cons.injEq] at hstored
      obtain ⟨rfl, rfl, rfl, rfl, rfl, rfl, rfl, rfl, -⟩ := hstored
      have hzero : pointer (bytes q) = pointer (bytes 0) := by rw [hbytes]; rfl
      rw [pointer_bytes, pointer_bytes] at hzero
      exact hq hzero

/-- The vector after the first append. -/
def firstVector (param : Pointer) (r : Realloc) : Vector :=
  ⟨some (bytes param ++ (List.range' 8 12).map r.fill), 1, 2, 10⟩

/-- **The first append**: memory for two slots of ten bytes, and eight bytes of it are written. -/
theorem appendParameter_first (debug : Bool) (filename : Pointer) :
    appendParameter debug (init filename) (param, r) =
      if r.grants then .ok ⟨filename, .VEC (firstVector param r)⟩ else .ended := by
  have hpush : pushback debug r (VectorMemory.init 10) = if r.grants then
      .ok (⟨some (r.block [] 20), 1, 2, 10⟩, 0) else .ended := by
    cases hr : r.grants <;>
      simp [pushback, VectorMemory.init, resizeInternal, size_t, hr, Outcome.bind, Vector.block]
  have hwrite : write ⟨some (r.block [] 20), 1, 2, 10⟩ 0 (bytes param) =
      .ok (firstVector param r) := by
    have hlen : (r.block [] 20).length = 20 := realloc_length [] 20
    have hpoke : poke 0 (bytes param) (r.block [] 20) =
        some (bytes param ++ (List.range' 8 12).map r.fill) := by
      rw [poke, if_pos (by rw [hlen, bytes_length]; omega)]
      rfl
    simp only [write, Vector.block, Option.getD_some, hpoke, access, Outcome.bind, firstVector]
  simp only [appendParameter, init, hpush]
  cases r.grants with
  | true => simp only [if_true, Outcome.bind, hwrite]
  | false => rfl

/-- The two bytes behind the only pointer are those that `realloc` returned. -/
theorem appendParameters_single {filename : Pointer}
    (happend : appendParameters debug (init filename) [(param, r)] = .ok cmd) {v : Vector}
    (hv : cmd.params = .VEC v) (h : Inv v 10 xs.length xs) (hslots : Slots10 [param] xs) :
    xs = [bytes param ++ [r.fill 8, r.fill 9]] := by
  have hv' : v.block = bytes param ++ (List.range' 8 12).map r.fill := by
    rw [appendParameters, appendParameter_first] at happend
    cases hr : r.grants with
    | true =>
      rw [hr] at happend
      cases happend
      cases hv
      rfl
    | false =>
      rw [hr] at happend
      cases happend
  cases hslots with
  | cons hx hslots =>
    cases hslots
    obtain ⟨a, b, rfl⟩ := hx
    obtain ⟨rest, hblock⟩ := h.holds.stored
    rw [hv'] at hblock
    simp only [List.flatten_cons, List.flatten_nil, List.append_nil, List.append_assoc,
      List.append_cancel_left_eq, List.range', List.map_cons, List.cons_append, List.cons.injEq]
      at hblock
    rw [hblock.1, hblock.2.1]

/-- A command with one parameter. -/
theorem exec_first {filename : Pointer} (hname : filename ≠ 0) (r' : Realloc) :
    exec debug r' false true ⟨filename, .VEC (firstVector param r)⟩ = .ok (some ⟨filename,
      some (bytes param ++ [r.fill 8, r.fill 9] ++ List.replicate 10 0)⟩) := by
  have hzero : zeroEnd debug r' (firstVector param r) =
      .ok ⟨some (bytes param ++ [r.fill 8, r.fill 9] ++ List.replicate 10 0), 1, 2, 10⟩ := by
    have hoff : 1 * 10 % size_t = 10 := by decide
    simp only [zeroEnd, firstVector, hoff]
    rfl
  simp only [exec, hzero, Outcome.bind, if_pos hname]
  rfl

/-- **No argument vector is right**: the slots have ten bytes, and there are none without a
parameter.  Addresses are read as appended for a single parameter only, if the memory was zero. -/
theorem exec_argv {filename : Pointer} {calls : List (Pointer × Realloc)} {do_fork forked : Bool}
    {e : Execv} (happend : appendParameters debug (init filename) calls = .ok cmd)
    (hexec : exec debug r do_fork forked cmd = .ok (some e)) :
    ¬ Right cmd e (calls.map Prod.fst) ∧ (calls = [] → e.argv = none) ∧
    ((∀ call ∈ calls, call.1 ≠ 0 ∧ call.1.toNat < 2 ^ 48) →
      ((∃ block, e.argv = some block ∧
        Holds 8 ((calls.map Prod.fst ++ [0]).map bytes) block) ↔
        ∃ param r', calls = [(param, r')] ∧ r'.fill 8 = 0 ∧ r'.fill 9 = 0)) := by
  have hinit : Appended (init filename) [] := rfl
  have hall := (appendParameters_ten hinit happend).1
  rw [List.nil_append] at hall
  obtain ⟨hnone, hsome⟩ := exec_ten hall hexec
  rw [List.map_eq_nil_iff] at hnone
  refine ⟨?_, hnone, fun huser => ?_⟩
  · rintro ⟨⟨v, hv, hsize⟩, block, hargv, -⟩
    by_cases hcalls : calls = []
    · rw [hnone hcalls] at hargv
      cases hargv
    · obtain ⟨v', _, _, hv', hten, -⟩ := hsome (by simpa using hcalls)
      rw [hv] at hv'
      cases hv'
      omega
  · cases calls with
    | nil =>
      constructor
      · rintro ⟨block, hargv, -⟩
        rw [hnone rfl] at hargv
        cases hargv
      · rintro ⟨param, r', hcalls, -⟩
        cases hcalls
    | cons call calls =>
      obtain ⟨v, xs, rest, hv, -, hinv, hslots, hargv⟩ := hsome (by simp)
      cases calls with
      | nil =>
        obtain ⟨param, r'⟩ := call
        obtain rfl := appendParameters_single happend hv hinv hslots
        constructor
        · rintro ⟨block, hargv', hholds⟩
          rw [hargv] at hargv'
          cases hargv'
          obtain ⟨tail, hstored⟩ := hholds.stored
          have hzero : bytes 0 ++ tail = [r'.fill 8, r'.fill 9] ++ (List.replicate 10 0 ++ rest) := by
            simpa using hstored
          have hbytes : bytes 0 = [0, 0, 0, 0, 0, 0, 0, 0] := rfl
          rw [hbytes] at hzero
          simp only [List.cons_append, List.cons.injEq] at hzero
          exact ⟨param, r', rfl, hzero.1.symm, hzero.2.1.symm⟩
        · rintro ⟨_, _, hcalls, height, hnine⟩
          cases hcalls
          refine ⟨_, hargv, ⟨fun x hx => ?_, ?_⟩⟩
          · simp only [List.mem_map] at hx
            obtain ⟨p, -, rfl⟩ := hx
            rfl
          · rw [height, hnine]
            refine ⟨List.replicate 4 0 ++ rest, ?_⟩
            simp [bytes]
      | cons call' calls =>
        constructor
        · rintro ⟨block, hargv', hholds⟩
          rw [hargv] at hargv'
          cases hargv'
          obtain ⟨hne, hlt⟩ := huser call' (by simp)
          rw [List.append_assoc] at hholds
          exact absurd hholds (two_differ hslots hne hlt _)
        · rintro ⟨param, r', hcalls, -⟩
          cases hcalls

theorem exec_argv_zeroMemory :
    ∃ cmd e block, ¬ Right cmd e [0x1000] ∧ e.argv = some block ∧
      Holds 8 [bytes 0x1000, bytes 0] block := by
  let zeros : Realloc := ⟨true, fun _ => 0⟩
  have happend : appendParameters true (init 0x1000) [(0x1000, zeros)] =
      .ok ⟨0x1000, .VEC (firstVector 0x1000 zeros)⟩ := by
    rw [appendParameters, appendParameter_first]
    rfl
  obtain ⟨hright, -, hread⟩ := exec_argv happend (exec_first (by decide) zeros)
  obtain ⟨block, hargv, hholds⟩ := (hread (by decide)).mpr ⟨0x1000, zeros, rfl, rfl, rfl⟩
  exact ⟨_, _, block, hright, hargv, hholds⟩

/-- **The second pointer of the array** is not null: two of its bytes were never written. -/
theorem exec_wrong :
    ∃ cmd e block, appendParameters true (init 0x1000) [(0x1000, granting)] = .ok cmd ∧
      exec true granting false true cmd = .ok (some e) ∧ e.argv = some block ∧
      peek 8 8 block = some [0xaa, 0xaa, 0, 0, 0, 0, 0, 0] ∧ ¬ Right cmd e [0x1000] := by
  have happend : appendParameters true (init 0x1000) [(0x1000, granting)] =
      .ok ⟨0x1000, .VEC (firstVector 0x1000 granting)⟩ := by
    rw [appendParameters, appendParameter_first]
    rfl
  refine ⟨_, _, _, happend, exec_first (by decide) granting, rfl, rfl, ?_⟩
  rintro ⟨⟨v, hv, hsize⟩, -⟩
  cases hv
  cases hsize

end CommandArgv
