import FfiRpc.Store.Origins

/-!
# The store's operations

`ptracker.c`, the tracker callbacks and the container operations of
`rpc_struct.c`, as state transformers. A function that can touch a released
object returns `Except Fault`.

Remove, decrement, delete, the zero callback and the release of a struct call
each other. Every such cycle passes through `prec_delete`, so each of them
takes `prec_delete` as a parameter (`del`, suffix `By`) and only `precDelete`
recurses, on a bound of its nesting depth; an operation of the API runs with
the number of tracker records as the bound, which is never reached
(`Cascade.lean`).
-/
namespace FfiRpc

/-! ## Tracker records -/

/-- mirrors src/ptracker.c:66-80 (`prec_new`) -/
def precNew (st : State) (ptr : Addr) : State :=
  match st.tracker.lookup ptr with
  | some _ => st
  | none => st.setPrec ptr ⟨0, none⟩

/-- mirrors src/rpc_struct.c:153-169 (`prec_ptr_ctx_create_or_get`) -/
def precPtrCtxCreateOrGet (prec : Prec) (udat : PrecRpcUdata) : PrecPtrCtx :=
  match prec.context with
  | some ptrCtx => ptrCtx
  | none => ⟨∅, udat.free⟩

/-- mirrors src/rpc_struct.c:170-195 (`rpc_struct_increment_cb`) -/
def rpcStructIncrementCb (prec : Prec) : Option PrecRpcUdata → Prec
  | none => prec
  | some udat =>
    let ptrCtx := precPtrCtxCreateOrGet prec udat
    match udat.name with
    | none => { prec with context := some ptrCtx }
    | some name =>
      if udat.origin = 0 then { prec with context := some ptrCtx }
      else
        let ctx := (ptrCtx.keys.lookup name).getD .fresh
        { prec with
          context := some { ptrCtx with keys := ptrCtx.keys.insert name (ctx.incr udat.origin) } }

/-- mirrors src/rpc_struct.c:196-222 (`rpc_struct_decrement_cb`) -/
def rpcStructDecrementCb (prec : Prec) : Option PrecRpcUdata → Prec
  | none => prec
  | some udat =>
    match prec.context, udat.name with
    | some ptrCtx, some name =>
      match ptrCtx.keys.lookup name with
      | none => prec
      | some ctx =>
        let ctx := ctx.decr udat.origin
        if ctx.oIndex = 0 then
          { prec with context := some { ptrCtx with keys := ptrCtx.keys.erase name } }
        else { prec with context := some { ptrCtx with keys := ptrCtx.keys.insert name ctx } }
    | _, _ => prec

/-- mirrors src/ptracker.c:92-97 (`prec_increment`) -/
def precIncrement (st : State) (p : Addr) (udata : Option PrecRpcUdata) : State :=
  match st.tracker.lookup p with
  | none => st
  | some prec =>
    st.setPrec p (rpcStructIncrementCb { prec with refcount := prec.refcount + 1 } udata)

/-- The count of a record, 0 for an object without one.
mirrors src/ptracker.c:108-110 (`prec_refcount`) -/
def precRefcount (st : State) (ptr : Addr) : Nat :=
  ((st.tracker.lookup ptr).map Prec.refcount).getD 0

/-- The record after the counting half of `prec_decrement`.
mirrors src/ptracker.c:100-103 -/
def Prec.decremented (prec : Prec) (udata : Option PrecRpcUdata) : Prec :=
  if 0 < prec.refcount then
    rpcStructDecrementCb { prec with refcount := prec.refcount - 1 } udata
  else prec

/-- `free(a)` of an object of type `t`; a second release is a fault. -/
def State.release (t : RpcTypes) (st : State) (a : Addr) : Except Fault State :=
  match st.heap.lookup a with
  | some o => if o.type = t then .ok (st.delObj a) else .error (.doubleFree a)
  | none => .error (.doubleFree a)

/-! ## The mutually recursive part, over `prec_delete` -/

section By
variable (E : Env) (del : State → Addr → Except Fault State)

/-- mirrors src/ptracker.c:98-106 (`prec_decrement`) -/
def precDecrementBy (st : State) (p : Addr) (udata : Option PrecRpcUdata) : Except Fault State :=
  match st.tracker.lookup p with
  | none => .ok st
  | some prec =>
    let st1 := st.setPrec p (prec.decremented udata)
    if (prec.decremented udata).refcount = 0 then del st1 p else .ok st1

/-- The end of `rpc_struct_remove`: `hashmap_remove` on the struct's map and
`free(element)`. The struct may have been released, or the cell freed, by the
decrement before it.
mirrors src/rpc_struct.c:311-313 -/
def dropEntry (st : State) (S : Addr) (key : CStr) : Except Fault State :=
  match st.struct? S with
  | none => .error (.useAfterFree S)
  | some s =>
    match s.map.lookup key with
    | none => .error (.doubleFree S)
    | some _ => .ok (st.setObj S (.struct { s with map := s.map.erase key }))

/-- The tracker's side of a removal.
mirrors src/rpc_struct.c:301-307 -/
def untrackElementBy (st : State) (S : Addr) (key : CStr) (element : RpcTypeT) :
    Except Fault State :=
  match element.target with
  | some p => precDecrementBy del st p (some ⟨S, some key, none⟩)
  | none => .ok st

/-- mirrors src/rpc_struct.c:296-320 (`rpc_struct_remove`). A string's block is
freed with its entry. -/
def rpcStructRemoveBy (st : State) (S : Addr) (key : CStr) : Except Fault (State × Nat) :=
  match st.struct? S with
  | none => .error (.useAfterFree S)
  | some s =>
    match s.map.lookup key with
    | none => .ok (st, 1)
    | some element => do
      let st1 ← untrackElementBy del st S key element
      let st2 ← dropEntry st1 S key
      .ok (st2, 0)

/-- mirrors src/rpc_struct.c:232-246 (`rpc_struct_free_internals`) -/
def rpcStructFreeInternalsBy (st : State) (S : Addr) : Except Fault State :=
  match st.struct? S with
  | none => .error (.useAfterFree S)
  | some s =>
    (E.order st S s.map.keys).foldlM (fun st key => Prod.fst <$> rpcStructRemoveBy del st S key) st

/-- mirrors src/rpc_struct.c:248-251 (`rpc_struct_free_internal`) -/
def rpcStructFreeInternalBy (st : State) (S : Addr) : Except Fault State := do
  let st1 ← rpcStructFreeInternalsBy E del st S
  st1.release .struct S

/-- The shape shared by the three release functions of the API: through the
tracker when the object is tracked, else by `internal`. -/
def freeBy (internal : State → Addr → Except Fault State) (st : State) (x : Addr) :
    Except Fault State :=
  if x = 0 then .ok st
  else match st.tracker.lookup x with
    | some _ => del st x
    | none => internal st x

/-- mirrors src/rpc_struct.c:253-259 (`rpc_struct_free`) -/
def rpcStructFreeBy : State → Addr → Except Fault State :=
  freeBy del (rpcStructFreeInternalBy E del)

/-- mirrors src/rpc_sizedbuf.c:75-84 (`rpc_sizedbuf_free`) -/
def rpcSizedbufFreeBy : State → Addr → Except Fault State := freeBy del (State.release .sizedbuf)

/-- mirrors src/rpc_function.c:62-71 (`rpc_function_free`) -/
def rpcFunctionFreeBy : State → Addr → Except Fault State := freeBy del (State.release .function)

/-- mirrors src/rpc_struct.c:116-129 (`rpc_struct_prec_ctx_destroy`) -/
def rpcStructPrecCtxDestroyBy (st : State) (p : Addr) (ptrCtx : PrecPtrCtx) : Except Fault State :=
  match ptrCtx.free with
  | none => .ok st
  | some .rpcStructFreeInternal => rpcStructFreeInternalBy E del st p
  | some .rpcSizedbufFree => rpcSizedbufFreeBy del st p
  | some .rpcFunctionFree => rpcFunctionFreeBy del st p

/-- The loop of the zero callback over the recorded origins of one key; the
record has left the tracker, so nothing changes its slots meanwhile.
mirrors src/rpc_struct.c:138-144 -/
def onzeroKeyBy (ptrCtx : PrecPtrCtx) (st : State) (key : CStr) : Except Fault State :=
  match ptrCtx.keys.lookup key with
  | none => .ok st
  | some ctx =>
    ctx.live.foldlM (fun st origin => Prod.fst <$> rpcStructRemoveBy del st origin key) st

/-- mirrors src/rpc_struct.c:130-152 (`rpc_struct_onzero_cb`) -/
def rpcStructOnzeroCbBy (st : State) (p : Addr) (prec : Prec) : Except Fault State :=
  match prec.context with
  | none => .ok st
  | some ptrCtx => do
    let st1 ← (E.order st p ptrCtx.keys.keys).foldlM (onzeroKeyBy del ptrCtx) st
    rpcStructPrecCtxDestroyBy E del st1 p ptrCtx

end By

/-! ## The operations -/

section Api
variable (E : Env)

/-- mirrors src/ptracker.c:82-90 (`prec_delete`); the first argument bounds the
nesting of deletions. -/
def precDelete : Nat → State → Addr → Except Fault State
  | 0, _, _ => .error .outOfFuel
  | n + 1, st, p =>
    match st.tracker.lookup p with
    | none => .ok st
    | some prec => rpcStructOnzeroCbBy E (precDelete n) (st.delPrec p) p prec

/-- Each nested deletion takes a record out of the tracker. -/
def State.fuel (st : State) : Nat := st.tracker.keys.length

def rpcStructRemove (st : State) (S : Addr) (key : CStr) : Except Fault (State × Nat) :=
  rpcStructRemoveBy (precDelete E st.fuel) st S key

def rpcStructFree (st : State) (S : Addr) : Except Fault State :=
  rpcStructFreeBy E (precDelete E st.fuel) st S

def rpcSizedbufFree (st : State) (b : Addr) : Except Fault State :=
  rpcSizedbufFreeBy (precDelete E st.fuel) st b

def rpcFunctionFree (st : State) (f : Addr) : Except Fault State :=
  rpcFunctionFreeBy (precDelete E st.fuel) st f

/-- mirrors src/rpc_struct.c:80-104 (`rpc_struct_create`) -/
def rpcStructCreate (st : State) : State × Addr :=
  let new := E.malloc st
  (st.setObj new (.struct ⟨∅, E.random st ++ [0], 0⟩), new)

/-- mirrors src/rpc_sizedbuf.c:43-51 (`rpc_sizedbuf_create`) -/
def rpcSizedbufCreate (st : State) (buf : List UInt8) : State × Addr :=
  let new := E.malloc st
  (st.setObj new (.sizedbuf ⟨buf⟩), new)

/-- mirrors src/rpc_function.c:48-51 (`rpc_function_create`) -/
def rpcFunctionCreate (st : State) : State × Addr :=
  let new := E.malloc st
  (st.setObj new (.function ⟨none, 0, 0⟩), new)

/-- `strdup` of a string element.
mirrors src/rpc_struct.c:739-742 -/
def strdupElement (st : State) : RpcTypeT → RpcTypeT
  | .string _ text => .string (E.malloc st) text
  | e => e

/-- The tracker's side of an insertion.
mirrors src/rpc_struct.c:743-753 -/
def trackElement (st : State) (S : Addr) (key : CStr) (element : RpcTypeT) : State :=
  match element.target with
  | none => st
  | some p => precIncrement (precNew st p) p (some ⟨S, some key, rpcFreefnOf element.type⟩)

/-- mirrors src/rpc_struct.c:735-765 (`rpc_struct_set_internal`) -/
def rpcStructSetInternal (st : State) (S : Addr) (key : CStr) (element : RpcTypeT) :
    Except Fault (State × Nat) :=
  match st.struct? S with
  | none => .error (.useAfterFree S)
  | some s =>
    if rpcIsPointer element.type && element.ptrValue == 0 then .ok (st, 1)
    else match s.map.lookup key with
      | some _ => .ok (st, 1)
      | none =>
        .ok ((trackElement st S key element).setObj S
          (.struct { s with map := s.map.insert key (strdupElement E st element) }), 0)

/-- mirrors src/rpc_struct.c:767-778 (`rpc_struct_get_internal`) -/
def rpcStructGetInternal (st : State) (S : Addr) (key : CStr) : RpcTypeT :=
  (st.entry S key).getD .none

/-- mirrors src/rpc_struct.c:727-733 (`rpc_struct_exists`) -/
def rpcStructExists (st : State) (S : Addr) (key : CStr) : Bool :=
  (rpcStructGetInternal st S key).type != .none

/-- mirrors include/ffirpc/rpc_struct.h:270-278 (`rpc_struct_set`) -/
def rpcStructSet (st : State) (S : Addr) (key : CStr) (element : RpcTypeT) :
    Except Fault (State × Nat) :=
  if rpcStructExists st S key then .ok (st, 1) else rpcStructSetInternal E st S key element

/-- mirrors src/rpc_struct.c:697-700 (`rpc_struct_length`) -/
def rpcStructLength (st : State) (S : Addr) : Nat :=
  ((st.struct? S).map fun s => s.map.keys.length).getD 0

/-! ### IDs, function attributes and shallow copies -/

/-- mirrors src/rpc_struct.c:261-263 (`rpc_struct_id_get`), as the C string the
caller sees. -/
def rpcStructIdGet (st : State) (S : Addr) : CStr :=
  ((st.struct? S).map fun s => s.ID.takeWhile (· ≠ 0)).getD []

/-- mirrors src/rpc_struct.c:265-269 (`rpc_struct_id_set`): `strlen(ID)` bytes,
no terminator -/
def rpcStructIdSet (st : State) (S : Addr) (ID : CStr) : Except Fault State :=
  match st.struct? S with
  | none => .error (.useAfterFree S)
  | some s =>
    if s.ID.length < ID.length then .error .idOverflow
    else .ok (st.setObj S (.struct { s with ID := ID ++ s.ID.drop ID.length }))

/-- The setters of `rpc_function.c`, on a live function. -/
def onFunction (st : State) (fn : Addr) (g : RpcFunction → RpcFunction) : Except Fault State :=
  match st.heap.lookup fn with
  | some (.function f) => .ok (st.setObj fn (.function (g f)))
  | _ => .error (.useAfterFree fn)

/-- mirrors src/rpc_function.c:141-151 (`rpc_function_set_prototype`) -/
def rpcFunctionSetPrototype (st : State) (fn : Addr) (prototype : List UInt32) : Except Fault State :=
  onFunction st fn fun f => { f with prototype := some prototype }

/-- mirrors src/rpc_function.c:159-163 (`rpc_function_set_return_type`) -/
def rpcFunctionSetReturnType (st : State) (fn : Addr) (returnType : UInt32) : Except Fault State :=
  onFunction st fn fun f => { f with returnType := returnType }

/-- mirrors src/rpc_function.c:135-139 (`rpc_function_set_fnptr`) -/
def rpcFunctionSetFnptr (st : State) (fn : Addr) (fnptr : Addr) : Except Fault State :=
  onFunction st fn fun f => { f with fnptr := fnptr }

/-- The increment that `rpc_struct_copy` makes itself, on a tracked object.
mirrors src/rpc_struct.c:599-606 -/
def incrementElement (st : State) (copy : Addr) (key : CStr) (element : RpcTypeT) : State :=
  match element.target with
  | some p => precIncrement st p (some ⟨copy, some key, rpcFreefnOf element.type⟩)
  | none => st

/-- One turn of the copy loop over the map `s` of the original.
mirrors src/rpc_struct.c:598-607 -/
def copyElement (s : RpcStruct) (copy : Addr) (st : State) (key : CStr) : Except Fault State :=
  match s.map.lookup key with
  | none => .ok st
  | some element =>
    Prod.fst <$> rpcStructSetInternal E (incrementElement st copy key element) copy key element

/-- mirrors src/rpc_struct.c:608 (`copy->copyof = original`) -/
def setCopyof (st : State) (copy original : Addr) : Except Fault State :=
  match st.struct? copy with
  | none => .error (.useAfterFree copy)
  | some c => .ok (st.setObj copy (.struct { c with copyof := original }))

/-- mirrors src/rpc_struct.c:589-611 (`rpc_struct_copy`) -/
def rpcStructCopy (st : State) (original : Addr) : Except Fault (State × Addr) :=
  match st.struct? original with
  | none => .error (.useAfterFree original)
  | some s => do
    let (st1, copy) := rpcStructCreate E st
    let st2 ← rpcStructIdSet st1 copy (rpcStructIdGet st1 original)
    let st3 ← (E.order st2 original s.map.keys).foldlM (copyElement E s copy) st2
    let st4 ← setCopyof st3 copy original
    .ok (st4, copy)

end Api

end FfiRpc
