import FfiRpc.Core.Circular

/-!
# `sc_queue.h`

The queue of requests of a connection, of the objects a thread is inside, and of the free
slots among the origins of a key: a ring of a power of two elements that doubles when it is
about to be full. `oom` records that the last call that had to grow the ring could not, and
then nothing is added.

The result of each call of `calloc` after the first is given from outside. The elements it
clears are `default`.
-/
namespace FfiRpc

/-- mirrors include/ffirpc/sc_queue.h:55-64 (`sc_queue_def`) -/
structure ScQueue (α : Type) where
  oom : Bool
  cap : Nat
  first : Nat
  last : Nat
  elems : List α
deriving DecidableEq, Repr

namespace ScQueue

section Code
variable {α : Type} [Inhabited α] (q : ScQueue α)

/-- `& ((q)->cap - 1)` -/
def mask (i : Nat) : Nat := i &&& ((2 ^ 64 - 1 + q.cap) % 2 ^ 64)

def next (i : Nat) : Nat := q.mask ((i + 1) % 2 ^ 64)

def prev (i : Nat) : Nat := q.mask ((2 ^ 64 - 1 + i) % 2 ^ 64)

def elem (i : Nat) : α := q.elems.getD i default

/-- mirrors include/ffirpc/sc_queue.h:65-95 (`sc_queue_expand`) -/
def expand (calloc : Bool) : ScQueue α :=
  if q.next q.last = q.first then
    if q.cap > (2 ^ 64 - 1) / 2 ∨ calloc = false then
      { q with oom := true }
    else
      { oom := false
        last := q.cap - 1
        first := 0
        cap := q.cap * 2
        elems := q.elems.drop q.first ++ q.elems.take q.first ++ List.replicate q.cap default }
  else
    q

/-- mirrors include/ffirpc/sc_queue.h:101-111 (`sc_queue_init`) -/
def init : ScQueue α :=
  { oom := false, cap := 8, first := 0, last := 0, elems := List.replicate 8 default }

/-- mirrors include/ffirpc/sc_queue.h:137 (`sc_queue_size`) -/
def size : Nat := q.mask ((q.last + 2 ^ 64 - q.first) % 2 ^ 64)

/-- mirrors include/ffirpc/sc_queue.h:186 (`sc_queue_at`) -/
def at_ (i : Nat) : α := q.elem (q.mask ((q.first + i) % 2 ^ 64))

/-- mirrors include/ffirpc/sc_queue.h:192 (`sc_queue_peek_first`) -/
def peekFirst : α := q.elem q.first

/-- mirrors include/ffirpc/sc_queue.h:198 (`sc_queue_peek_last`) -/
def peekLast : α := q.elem (q.prev q.last)

/-- mirrors include/ffirpc/sc_queue.h:206-215 (`sc_queue_add_last`) -/
def addLast (elem : α) (calloc : Bool) : ScQueue α :=
  let q := q.expand calloc
  if q.oom then
    q
  else
    { q with oom := false, elems := q.elems.set q.last elem, last := q.next q.last }

/-- mirrors include/ffirpc/sc_queue.h:222-223 (`sc_queue_del_last`) -/
def delLast : α × ScQueue α :=
  let q := { q with last := q.prev q.last }
  (q.elem q.last, q)

/-- mirrors include/ffirpc/sc_queue.h:231-240 (`sc_queue_add_first`) -/
def addFirst (elem : α) (calloc : Bool) : ScQueue α :=
  let q := q.expand calloc
  if q.oom then
    q
  else
    { q with oom := false, first := q.prev q.first, elems := q.elems.set (q.prev q.first) elem }

/-- mirrors include/ffirpc/sc_queue.h:242-256 (`sc_queue_del_first`) -/
def delFirst : α × ScQueue α := (q.elem q.first, { q with first := q.next q.first })

end Code

/-! ## Runs -/

/-- A call on the queue. -/
inductive Op (α : Type) where
  | addLast (elem : α) (calloc : Bool)
  | addFirst (elem : α) (calloc : Bool)
  | delLast
  | delFirst
  | peekFirst
  | peekLast
  | at_ (i : Nat)
  | size

/-- What a caller sees; after an addition, `sc_queue_oom`. -/
inductive Ret (α : Type) where
  | oom (b : Bool)
  | elem (x : α)
  | size (n : Nat)
deriving DecidableEq, Repr

section
variable {α : Type} [Inhabited α]

/-- One call. -/
def step (q : ScQueue α) : Op α → Ret α × ScQueue α
  | .addLast x calloc => (.oom (q.addLast x calloc).oom, q.addLast x calloc)
  | .addFirst x calloc => (.oom (q.addFirst x calloc).oom, q.addFirst x calloc)
  | .delLast => (.elem q.delLast.1, q.delLast.2)
  | .delFirst => (.elem q.delFirst.1, q.delFirst.2)
  | .peekFirst => (.elem q.peekFirst, q)
  | .peekLast => (.elem q.peekLast, q)
  | .at_ i => (.elem (q.at_ i), q)
  | .size => (.size q.size, q)

end

end ScQueue
end FfiRpc
