import Mathlib.Algebra.Group.Int.Defs
import Mathlib.Algebra.Group.Nat.Defs
import UtilVserver.EnscVector
import UtilVserver.Lib.Slots
import UtilVserver.Lib.Transition
import Mathlib.Data.List.Destutter

/-!
# Vectors in memory (`src/ensc_vector`)

The functions on `struct Vector` with the bytes of its memory block: sizes are computed modulo
`2^64`, and an access outside of the block is a fault.

* `Vector`, `Realloc`, `resizeInternal` — the structure, the answer of `realloc` and the policy of
  growth.
* `pushback`, `insert`, `unique`, `zeroEnd`, `searchSelfOrg` and others — the operations.
* `Op`, `apply`, `elements` — a call together with what the caller writes into the slot; what it
  makes of the memory, and of the list of elements.
* `NoWrap` — the size of the memory asked for does not exceed `2^64`.
-/

set_option autoImplicit false

namespace VectorMemory

open Slots EnscVector

abbrev Elem := List UInt8

/-- Values of a `size_t` are below. -/
def size_t : Nat := 2 ^ 64

structure Vector where
  data : Option (List UInt8)
  count : Nat
  allocated : Nat
  elem_size : Nat

/-- There are no bytes behind a null pointer. -/
def Vector.block (vec : Vector) : List UInt8 := vec.data.getD []

/-- The ways a call ends. -/
inductive Outcome (α : Type) where
  | ok (value : α)
  /-- `Erealloc` has called `exit`, or an assertion `abort`. -/
  | ended
  /-- Access outside of the block. -/
  | fault

def Outcome.bind {α β : Type} : Outcome α → (α → Outcome β) → Outcome β
  | .ok value, f => f value
  | .ended, _ => .ended
  | .fault, _ => .fault

def access {α : Type} : Option α → Outcome α
  | some value => .ok value
  | none => .fault

/-- The answer of `realloc`: whether there is memory, and what the new bytes hold. -/
structure Realloc where
  grants : Bool
  fill : Nat → UInt8

def Realloc.block (r : Realloc) (old : List UInt8) (size : Nat) : List UInt8 :=
  old.take size ++ (List.range' old.length (size - old.length)).map r.fill

/-! ## The functions -/

/-- `Vector_init`. -/
def init (elem_size : Nat) : Vector := ⟨none, 0, 0, elem_size⟩

/-- `Vector_resizeInternal`; `debug` when it is built with assertions. -/
def resizeInternal (debug : Bool) (r : Realloc) (vec : Vector) : Outcome Vector :=
  let allocated := (vec.count * 20 % size_t / 16 + 1) % size_t
  let new_size := allocated * vec.elem_size % size_t
  if debug = true ∧ allocated < vec.count then .ended
  else if r.grants then
    .ok { vec with allocated := allocated, data := some (r.block vec.block new_size) }
  -- `Erealloc` allows a null pointer when nothing was asked for
  else if debug = true ∨ new_size ≠ 0 then .ended
  else .ok { vec with allocated := allocated, data := none }

/-- `Vector_pushback`, with the place of the new slot. -/
def pushback (debug : Bool) (r : Realloc) (vec : Vector) : Outcome (Vector × Nat) :=
  let vec := { vec with count := (vec.count + 1) % size_t }
  (if vec.allocated < vec.count then resizeInternal debug r vec else .ok vec).bind fun vec =>
    .ok (vec, (vec.count + (size_t - 1)) % size_t * vec.elem_size % size_t)

/-- `Vector_popback`. -/
def popback (debug : Bool) (vec : Vector) : Outcome Vector :=
  if 0 < vec.count then .ok { vec with count := vec.count - 1 }
  else if debug then .ended else .ok vec

/-- The caller writes into a slot. -/
def write (vec : Vector) (off : Nat) (x : Elem) : Outcome Vector :=
  (access (poke off x vec.block)).bind fun block => .ok { vec with data := some block }

def Vector.element (vec : Vector) (i : Nat) : Outcome Elem :=
  access (peek (i * vec.elem_size) vec.elem_size vec.block)

/-- A loop over `n` elements from `i` on, up to one that `stop` holds for. -/
def scan (stop : Elem → Bool) (vec : Vector) : Nat → Nat → Outcome Nat
  | 0, i => .ok i
  | n + 1, i => (vec.element i).bind fun x => if stop x then .ok i else scan stop vec n (i + 1)

/-- `memmove` of `n` elements. -/
def moveElements (vec : Vector) (dst src n : Nat) : Outcome Vector :=
  (access (memmove (dst * vec.elem_size) (src * vec.elem_size) (n * vec.elem_size) vec.block)).bind
    fun block => .ok { vec with data := some block }

/-- `Vector_insert`, with the place of the slot. -/
def insert (debug : Bool) (r : Realloc) (compare : Elem → Int) (vec : Vector) :
    Outcome (Vector × Nat) :=
  (pushback debug r vec).bind fun (vec, end_ptr) =>
    (scan (fun x => compare x < 0) vec (vec.count - 1) 0).bind fun data =>
      if data < vec.count - 1 then
        (moveElements vec (data + 1) data (vec.count - 1 - data)).bind fun vec =>
          .ok (vec, data * vec.elem_size)
      else .ok (vec, end_ptr)

/-- `Vector_clear`. -/
def clear (vec : Vector) : Vector := { vec with count := 0 }

/-- `Vector_resize`. -/
def resize (debug : Bool) (r : Realloc) (vec : Vector) : Outcome Vector :=
  if (vec.count + 1) % size_t < vec.allocated * 24 % size_t / 16 then resizeInternal debug r vec
  else .ok vec

/-- A comparison function as `qsort` wants it. -/
structure Comparison where
  cmp : Elem → Elem → Int
  total : ∀ x y, cmp x y ≤ 0 ∨ cmp y x ≤ 0
  trans : ∀ x y z, cmp x y ≤ 0 → cmp y z ≤ 0 → cmp x z ≤ 0

/-- `qsort` of the C library: the order of elements that compare equal is open. -/
structure Qsort where
  sort : Comparison → List Elem → List Elem
  perm : ∀ c xs, (sort c xs).Perm xs
  sorted : ∀ c xs, (sort c xs).Pairwise fun x y => c.cmp x y ≤ 0

/-- The elements from `i` on. -/
def readElements (vec : Vector) : Nat → Nat → Outcome (List Elem)
  | 0, _ => .ok []
  | n + 1, i => (vec.element i).bind fun x =>
      (readElements vec n (i + 1)).bind fun xs => .ok (x :: xs)

/-- `Vector_sort`. -/
def sort (q : Qsort) (compare : Comparison) (vec : Vector) : Outcome Vector :=
  if vec.count = 0 then .ok vec
  else (readElements vec vec.count 0).bind fun xs => write vec 0 (q.sort compare xs).flatten

/-- The loop of `Vector_unique`. -/
def uniqueLoop (compare : Elem → Elem → Int) : Nat → Nat → Vector → Outcome Vector
  | 0, _, vec => .ok vec
  | fuel + 1, idx, vec =>
    if idx + 1 < vec.count then
      (vec.element idx).bind fun ptr =>
        (scan (fun x => compare ptr x ≠ 0) vec (vec.count - (idx + 1)) (idx + 1)).bind
          fun next_idx =>
            if next_idx = vec.count then
              uniqueLoop compare fuel (idx + 1) { vec with count := idx + 1 }
            else if 1 < next_idx - idx then
              (moveElements vec (idx + 1) next_idx (vec.count - next_idx)).bind fun moved =>
                uniqueLoop compare fuel (idx + 1)
                  { moved with count := vec.count - (next_idx - idx - 1) }
            else uniqueLoop compare fuel (idx + 1) vec
    else .ok vec

/-- `Vector_unique`. -/
def unique (compare : Elem → Elem → Int) (vec : Vector) : Outcome Vector :=
  if vec.count < 2 then .ok vec else uniqueLoop compare vec.count 0 vec

/-- `Vector_zeroEnd`. -/
def zeroEnd (debug : Bool) (r : Realloc) (vec : Vector) : Outcome Vector :=
  if vec.allocated ≤ vec.count then
    (pushback debug r vec).bind fun (vec, tmp) =>
      (popback debug vec).bind fun vec => write vec tmp (List.replicate vec.elem_size 0)
  else write vec (vec.count * vec.elem_size % size_t) (List.replicate vec.elem_size 0)

/-- `Vector_searchSelfOrg`, with the number of the element found. -/
def searchSelfOrg (compare : Elem → Int) (method : SelfOrgMethod) (vec : Vector) :
    Outcome (Vector × Option Nat) :=
  (scan (fun x => compare x = 0) vec vec.count 0).bind fun ptr =>
    if vec.count ≤ ptr then .ok (vec, none)
    else if ptr = 0 then .ok (vec, some 0)
    else
      (vec.element ptr).bind fun tmp =>
        match method with
        | .MOVE_FRONT =>
          (moveElements vec 1 0 ptr).bind fun vec =>
            (write vec 0 tmp).bind fun vec => .ok (vec, some 0)
        | .SHIFT_ONCE =>
          (moveElements vec ptr (ptr - 1) 1).bind fun vec =>
            (write vec ((ptr - 1) * vec.elem_size) tmp).bind fun vec => .ok (vec, some (ptr - 1))

/-! ## Calls -/

/-- A call; the caller writes the element into the slot it is given. -/
inductive Op where
  | init (elem_size : Nat)
  | pushback (x : Elem)
  | popback
  | insert (compare : Elem → Int) (x : Elem)
  | clear
  | resize
  | sort (compare : Comparison)
  | unique (compare : Elem → Elem → Int)
  | zeroEnd
  | searchSelfOrg (compare : Elem → Int) (method : SelfOrgMethod)

/-- What a call does to the memory. -/
def apply (q : Qsort) (debug : Bool) (vec : Vector) (r : Realloc) : Op → Outcome Vector
  | .init elem_size => .ok (VectorMemory.init elem_size)
  | .pushback x => (VectorMemory.pushback debug r vec).bind fun (vec, slot) => write vec slot x
  | .popback => VectorMemory.popback debug vec
  | .insert compare x =>
    (VectorMemory.insert debug r compare vec).bind fun (vec, slot) => write vec slot x
  | .clear => .ok (VectorMemory.clear vec)
  | .resize => VectorMemory.resize debug r vec
  | .sort compare => VectorMemory.sort q compare vec
  | .unique compare => VectorMemory.unique compare vec
  | .zeroEnd => VectorMemory.zeroEnd debug r vec
  | .searchSelfOrg compare method =>
    (VectorMemory.searchSelfOrg compare method vec).bind fun (vec, _) => .ok vec

/-- What a call does to the list of the elements. -/
def elements (q : Qsort) (xs : List Elem) : Op → List Elem
  | .init _ => []
  | .pushback x => (EnscVector.pushback x xs).1
  | .popback => xs.dropLast
  | .insert compare x =>
    let r := EnscVector.insert compare x xs
    r.1.set r.2 x
  | .clear => []
  | .resize => xs
  | .sort compare => q.sort compare xs
  | .unique compare => xs.destutter fun x y => compare x y ≠ 0
  | .zeroEnd => xs
  | .searchSelfOrg compare method => (EnscVector.searchSelfOrg compare xs method).2

/-- The call is one the functions are made for. -/
def Proper (vec : Vector) : Op → Prop
  | .init elem_size => 0 < elem_size ∧ elem_size < size_t
  | .pushback x => x.length = vec.elem_size
  | .popback => 0 < vec.count
  | .insert _ x => x.length = vec.elem_size
  | _ => True

/-- For this number of elements memory is asked for. -/
def growsTo (vec : Vector) : Op → Option Nat
  | .pushback _ => if vec.allocated < vec.count + 1 then some (vec.count + 1) else none
  | .insert _ _ => if vec.allocated < vec.count + 1 then some (vec.count + 1) else none
  | .zeroEnd => if vec.allocated ≤ vec.count then some (vec.count + 1) else none
  | .resize =>
    if (vec.count + 1) % size_t < vec.allocated * 24 % size_t / 16 then some vec.count else none
  | _ => none

/-- The sizes computed for `n` elements are those meant. -/
def NoWrap (elem_size n : Nat) : Prop :=
  n * 20 < size_t ∧ (n * 20 / 16 + 1) * elem_size < size_t

instance (elem_size n : Nat) : Decidable (NoWrap elem_size n) := inferInstanceAs (Decidable (_ ∧ _))

end VectorMemory
