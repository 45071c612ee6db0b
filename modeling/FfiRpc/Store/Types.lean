import FfiRpc.Core.Table

/-!
# Data model of the object store

The C structures behind `rpc_struct_t`, `rpc_sizedbuf_t`, `rpc_function_t`
and the pointer tracker, and the state of a process that uses them: the
allocated objects (`heap`) and the static `ptracker` table (`tracker`).

* Addresses are `Nat`, `NULL` is `0`. Strings are byte lists without their
  terminator (`CStr`).
* `rpc_type_t` is `RpcTypeT`, one constructor per tag, so that a value never
  carries the wrong union member. `raw_value` is the first `length` bytes; the
  `length` of a pointer entry is never read, except that of a string, which is
  `text.length + 1`. A string entry owns its `strdup`ed block `ptr`.
* Locks are recursive and held by one thread here; they carry no state.
  `manual_destructor` is only ever set by `rpc_struct_add_destructor`, which no
  operation modelled here calls, so it stays `NULL` and is left out.
* `hashmap.c` is a finite map; the order in which it enumerates is a choice of
  the environment (`Env.order`).
-/
namespace FfiRpc

abbrev Addr := Nat

/-- Bytes of a C string, terminator excluded. -/
abbrev CStr := List UInt8

/-- A string literal of the source, as bytes. -/
def ascii (s : String) : CStr := s.toList.map fun c => UInt8.ofNat c.toNat

/-- mirrors include/ffirpc/rpc_struct.h:63-74 (`enum rpc_types`) -/
inductive RpcTypes where
  | none | number | real | string | struct | sizedbuf | function | unknown
  deriving DecidableEq, Repr

/-- mirrors include/ffirpc/rpc_struct.h:76-84 (`rpc_type_t`) -/
inductive RpcTypeT where
  | none
  | number (raw : List UInt8)
  | real (raw : List UInt8)
  | string (ptr : Addr) (text : CStr)
  | struct (ptr : Addr)
  | sizedbuf (ptr : Addr)
  | function (ptr : Addr)
  | unknown (ptr : Addr)
  deriving DecidableEq, Repr

namespace RpcTypeT

def type : RpcTypeT → RpcTypes
  | none => .none
  | number _ => .number
  | real _ => .real
  | string _ _ => .string
  | struct _ => .struct
  | sizedbuf _ => .sizedbuf
  | function _ => .function
  | unknown _ => .unknown

/-- `data_container.ptr_value` of a pointer type. -/
def ptrValue : RpcTypeT → Addr
  | string p _ => p
  | struct p => p
  | sizedbuf p => p
  | function p => p
  | unknown p => p
  | _ => 0

/-- The object a reference-counted entry refers to:
`rpc_is_pointer(type) && type != RPC_string && type != RPC_unknown`. -/
def target : RpcTypeT → Option Addr
  | struct p => some p
  | sizedbuf p => some p
  | function p => some p
  | _ => Option.none

end RpcTypeT

/-- mirrors src/rpc_struct.c:271-276 (`rpc_is_pointer`) -/
def rpcIsPointer : RpcTypes → Bool
  | .struct | .string | .sizedbuf | .function | .unknown => true
  | _ => false

/-- The release callbacks `rpc_freefn_of` hands out. -/
inductive FreeFn where
  | rpcStructFreeInternal | rpcSizedbufFree | rpcFunctionFree
  deriving DecidableEq, Repr

/-- mirrors src/rpc_struct.c:277-294 (`rpc_freefn_of`) -/
def rpcFreefnOf : RpcTypes → Option FreeFn
  | .struct => some .rpcStructFreeInternal
  | .sizedbuf => some .rpcSizedbufFree
  | .function => some .rpcFunctionFree
  | _ => none

/-! ## Objects -/

/-- mirrors src/rpc_struct.c:49-57 (`struct _rpc_struct`). `ID` is the 65-byte
field, `copyof` may be `NULL`. -/
structure RpcStruct where
  map : Table CStr RpcTypeT
  ID : List UInt8
  copyof : Addr
  deriving DecidableEq

/-- mirrors src/rpc_sizedbuf.c:38-41 (`struct _rpc_sizedbuf`) -/
structure RpcSizedbuf where
  buf : List UInt8
  deriving DecidableEq, Repr

/-- mirrors src/rpc_function.c:40-46 (`struct _rpc_function`); `prototype` is
`none` for a `NULL` pointer. The entries are 32-bit enum values: a decoded
function may hold one outside `enum rpc_types`. -/
structure RpcFunction where
  prototype : Option (List UInt32)
  returnType : UInt32
  fnptr : Addr
  deriving DecidableEq, Repr

inductive Obj where
  | struct (s : RpcStruct)
  | sizedbuf (b : RpcSizedbuf)
  | function (f : RpcFunction)
  deriving DecidableEq

/-- The tag under which an object is stored in a struct. -/
def Obj.type : Obj → RpcTypes
  | .struct _ => .struct
  | .sizedbuf _ => .sizedbuf
  | .function _ => .function

/-! ## The tracker -/

/-- mirrors src/rpc_struct.c:60-66 (`rpc_struct_prec_ctx`). `origins` has
`oSize` cells, `none` being `NULL` (or a cell never written). -/
structure PrecCtx where
  origins : List (Option Addr)
  oIndex : Nat
  oSize : Nat
  emptyOrigins : List Nat
  deriving DecidableEq, Repr

/-- mirrors include/ffirpc/rpc_struct_internal.h:44-48
(`rpc_struct_prec_ptr_ctx`) -/
structure PrecPtrCtx where
  keys : Table CStr PrecCtx
  free : Option FreeFn
  deriving DecidableEq

/-- mirrors src/ptracker.c:40-47 (`struct _prec`); `ptr` is the record's key in
the tracker and `cbs` always `rpc_struct_default_prec_cbs`. -/
structure Prec where
  refcount : Nat
  context : Option PrecPtrCtx
  deriving DecidableEq

/-- mirrors include/ffirpc/rpc_struct_internal.h:37-42 (`prec_rpc_udata`);
`name` is `none` for `NULL`. -/
structure PrecRpcUdata where
  origin : Addr
  name : Option CStr
  free : Option FreeFn

/-! ## State -/

structure State where
  heap : Table Addr Obj
  tracker : Table Addr Prec
  deriving DecidableEq

/-- What ends a run: an access to a released object or entry, a second release,
a string function applied to `NULL`, a write past the ID field, a release of an
uninitialised pointer. `outOfFuel` is the model's own: the bound of a recursion
(`precDelete_spec`: never reached by a release). -/
inductive Fault where
  | useAfterFree (a : Addr)
  | doubleFree (a : Addr)
  | nullString
  | idOverflow
  | uninitialised (a : Addr)
  | outOfFuel
  deriving DecidableEq, Repr

namespace State

def empty : State := ⟨∅, ∅⟩

/-- The live struct at `a`. -/
def struct? (st : State) (a : Addr) : Option RpcStruct :=
  match st.heap.lookup a with
  | some (.struct s) => some s
  | _ => none

/-- `S[k]`. -/
def entry (st : State) (S : Addr) (k : CStr) : Option RpcTypeT :=
  (st.struct? S).bind fun s => s.map.lookup k

/-- The struct, sizedbuf or function that live struct `S` holds under `k`. -/
def held (st : State) (S : Addr) (k : CStr) : Option Addr := (st.entry S k).bind RpcTypeT.target

/-- Address in use: `NULL`, a live object, or the block of a string entry. -/
def InUse (st : State) (a : Addr) : Prop :=
  a = 0 ∨ (∃ o, st.heap.lookup a = some o) ∨ ∃ S k t, st.entry S k = some (.string a t)

def setObj (st : State) (a : Addr) (o : Obj) : State := { st with heap := st.heap.insert a o }
def delObj (st : State) (a : Addr) : State := { st with heap := st.heap.erase a }
def setPrec (st : State) (p : Addr) (r : Prec) : State := { st with tracker := st.tracker.insert p r }
def delPrec (st : State) (p : Addr) : State := { st with tracker := st.tracker.erase p }

end State

/-! ## Environment -/

/-- mirrors src/rpc_struct.c:47 (`ID_alphabet`) -/
def idAlphabet : CStr := ascii "abcdefghijklmnopqrstuvwxyz0123456789"

/-- The choices a C process leaves open: the order in which a hash map is
enumerated, the address `malloc` returns (any address not in use), the random ID
text (`rpc_struct_create`), and whether a `realloc` to a given number of cells
moves the block. -/
structure Env where
  order : State → Addr → List CStr → List CStr
  malloc : State → Addr
  random : State → CStr
  moves : State → Nat → Bool
  order_perm : ∀ st a l, (order st a l).Perm l
  malloc_fresh : ∀ st : State, ¬ st.InUse (malloc st)
  random_length : ∀ st : State, (random st).length = 64
  random_mem : ∀ st : State, ∀ b ∈ random st, b ∈ idAlphabet

/-- Every address a state mentions: objects, and the pointers of entries. -/
def State.addrs (st : State) : List Addr :=
  st.heap.entries.flatMap fun e =>
    e.1 :: match e.2 with
      | .struct s => s.map.entries.map fun f => f.2.ptrValue
      | _ => []

theorem le_foldr_max {l : List Nat} {a : Nat} (h : a ∈ l) : a ≤ l.foldr max 0 := by
  induction l with
  | nil => cases h
  | cons b l ih =>
    rw [List.foldr_cons]
    cases h with
    | head => exact Nat.le_max_left ..
    | tail _ h => exact (ih h).trans (Nat.le_max_right ..)

theorem State.InUse.mem_addrs {st : State} {a : Addr} (h : st.InUse a) : a = 0 ∨ a ∈ st.addrs := by
  unfold InUse at h
  rcases h with h | ⟨o, ho⟩ | ⟨S, k, t, he⟩
  · exact .inl h
  · exact .inr (List.mem_flatMap.2 ⟨_, Table.mem_entries_iff.2 ho, List.mem_cons_self⟩)
  · right
    simp only [entry, struct?] at he
    split at he
    · rename_i s hs
      have hk : s.map.lookup k = some (.string a t) := he
      refine List.mem_flatMap.2 ⟨_, Table.mem_entries_iff.2 hs, List.mem_cons_of_mem _ ?_⟩
      exact List.mem_map.2 ⟨_, Table.mem_entries_iff.2 hk, rfl⟩
    · cases he

/-- An environment to run examples in: insertion order, the lowest address above
all in use, a constant ID, and a `realloc` that moves. -/
def Env.bump : Env where
  order _ _ l := l
  malloc st := st.addrs.foldr max 0 + 1
  random _ := List.replicate 64 97
  moves _ _ := true
  order_perm _ _ _ := List.Perm.refl _
  malloc_fresh st h := by
    rcases h.mem_addrs with h | h
    · exact absurd h (Nat.succ_ne_zero _)
    · exact absurd (le_foldr_max h) (Nat.not_succ_le_self _)
  random_length _ := List.length_replicate
  random_mem _ b hb := by rw [List.eq_of_mem_replicate hb]; decide

end FfiRpc
