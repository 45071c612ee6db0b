import FfiRpc.Object.Server

/-!
# A client's closures

`call_rpc_closure` and what it calls (rpc_client.c:239-430): the function behind every
function of an object that a client has loaded. It packs its arguments into a request,
has it answered by `client->method_request` and takes the result out of the reply.

The bookkeeping about ownership is the code's own: an argument without a record gets one
from the request, and its release callback is switched off there; so is that of a returned
object, unless it is an argument that had a record (`Packing.infos`).

The blocks that `closurefy` allocates and the addresses libffi gives it are a parameter.
The destructor it adds to "cif_storage" runs when that struct is released, which no call
does.
-/
namespace FfiRpc

/-- What keeps a call from returning: a fault, or an assertion that fails. -/
inductive Stop where
  | fault (fault : Fault)
  | assertion
  deriving DecidableEq, Repr

instance : MonadLift (Except Fault) (Except Stop) := ⟨fun x => x.mapError .fault⟩

@[simp] theorem lift_eq_ok {α : Type} {x : Except Fault α} {a : α} :
    (liftM x : Except Stop α) = .ok a ↔ x = .ok a := by
  cases x with
  | error e => exact ⟨nofun, nofun⟩
  | ok b => exact ⟨fun h => by cases h; rfl, fun h => by cases h; rfl⟩

/-- mirrors src/rpc_client.c:192-203 (`rpc_closure_udata`), with the struct of the
client's objects. -/
structure RpcClosureUdata where
  loadedCobjects : Addr
  fnName : CStr
  fetchedFn : Addr
  cobj : Addr

/-- What `args[i]` points at: eight bytes, and the text where they are a `char*`. -/
abbrev Passed := Returned

/-- What is left at `ret`. -/
inductive ReturnSlot where
  | untouched
  | bytes (raw : List UInt8)
  | address (a : Addr)
  deriving DecidableEq

/-- The store while the arguments are packed, and `arg_info_storage`: for each pointer
whether it had a record when it was first seen. -/
structure Packing where
  store : State
  infos : Table Addr Bool

/-- mirrors src/rpc_struct.c:824-826 (`rpc_struct_is_refcounted`) -/
def rpcStructIsRefcounted (st : State) (ptr : Addr) : Bool := (st.tracker.lookup ptr).isSome

/-- The context of the record of `p`, if it has one. -/
def precContext (st : State) (p : Addr) : Option PrecPtrCtx :=
  (st.tracker.lookup p).bind Prec.context

/-- `ctx->free = NULL`, where there is a context. -/
def disableFree (st : State) (p : Addr) : State :=
  match st.tracker.lookup p with
  | some ⟨refcount, some ctx⟩ => st.setPrec p ⟨refcount, some { ctx with free := none }⟩
  | _ => st

section
variable (E : Env) (methodRequest : Server → Addr → Except Fault (Server × Addr))
  (ffiClosureAlloc : State → Addr → Addr × Addr)

/-- `assert(rpc_struct_set(S, key, element) == 0)` -/
def setAsserted (st : State) (S : Addr) (key : CStr) (element : RpcTypeT) :
    Except Stop State := do
  let (st1, ret) ← rpcStructSet E st S key element
  if ret = 0 then .ok st1 else .error .assertion

/-! ## Packing -/

/-- A pointer, under its position.
mirrors src/rpc_client.c:292-311 -/
def packPointer (fnArgs : Addr) (packed : Packing) (i : Nat) (element : RpcTypeT) :
    Except Stop Packing := do
  let p := element.ptrValue
  let wasRefcounted := rpcStructIsRefcounted packed.store p
  let (st1, ret) ← rpcStructSetInternal E packed.store fnArgs (decimal i) element
  if ret ≠ 0 then .error .assertion
  else
    let infos := match packed.infos.lookup p with
      | some _ => packed.infos
      | none => packed.infos.insert p wasRefcounted
    if wasRefcounted = false ∧ element.type ≠ .string ∧ element.type ≠ .unknown then
      if (precContext st1 p).isSome then .ok ⟨disableFree st1 p, infos⟩ else .error .assertion
    else .ok ⟨st1, infos⟩

/-- mirrors src/rpc_client.c:279-314, one turn -/
def packArgument (fnArgs : Addr) (args : Nat → Passed) (packed : Packing) (c : UInt32 × Nat) :
    Except Stop Packing :=
  match RpcTypes.ofCode c.1 with
  | none | some .none => .error .assertion
  | some .number => do
    let st1 ← setAsserted E packed.store fnArgs (decimal c.2) (returnElement .number (args c.2))
    .ok { packed with store := st1 }
  | some .real => do
    let st1 ← setAsserted E packed.store fnArgs (decimal c.2) (returnElement .real (args c.2))
    .ok { packed with store := st1 }
  | some t => packPointer E fnArgs packed c.2 (returnElement t (args c.2))

/-- The request for a call of `fn`.
mirrors src/rpc_client.c:267-319 -/
def packRequest (udata : RpcClosureUdata) (fn : RpcFunction) (st : State) (args : Nat → Passed) :
    Except Stop (Packing × Addr) := do
  let (st1, request) := rpcStructCreate E st
  let (st2, callRequest) := rpcStructCreate E st1
  let (st3, fnArgs) := rpcStructCreate E st2
  let packed ← (fn.prototype.getD []).zipIdx.foldlM (packArgument E fnArgs args) ⟨st3, ∅⟩
  let st4 ← setAsserted E packed.store callRequest (ascii "object")
    (.string 1 (rpcStructIdGet packed.store udata.cobj))
  let st5 ← setAsserted E st4 callRequest (ascii "function") (.string 1 udata.fnName)
  let st6 ← setAsserted E st5 callRequest (ascii "params") (.struct fnArgs)
  let st7 ← setAsserted E st6 request (ascii "method") (.string 1 (ascii "call"))
  let st8 ← setAsserted E st7 request (ascii "params") (.struct callRequest)
  .ok (⟨st8, packed.infos⟩, request)

/-! ## Returned objects -/

/-- mirrors src/rpc_client.c:239-257 (`is_object`) -/
def isObject (s : Server) (ID : CStr) : Except Stop (Server × Bool) := do
  let (st1, request) := rpcStructCreate E s.store
  let (st2, params) := rpcStructCreate E st1
  let st3 ← setAsserted E st2 request (ascii "method") (.string 1 (ascii "is_cobject"))
  let st4 ← setAsserted E st3 request (ascii "params") (.struct params)
  let st5 ← setAsserted E st4 params (ascii "ID") (.string 1 ID)
  let (s6, reply) ← methodRequest { s with store := st5 } request
  if reply = 0 then .ok (s6, false)
  else
    match rpcStructGetInternal s6.store reply (ascii "is_cobject") with
    | .number raw => do
      let st7 ← rpcStructFree E s6.store reply
      .ok ({ s6 with store := st7 }, (raw.take 4).any (· ≠ 0))
    | _ => .error .assertion

/-- mirrors src/rpc_client.c:386-423, one turn -/
def closurefyKey (cobj cifStorage : Addr) (st : State) (c : CStr × Nat) : Except Fault State :=
  match rpcStructGetInternal st cobj c.1 with
  | .function fn => do
    let (closureData, callable) := ffiClosureAlloc st fn
    let st1 ← rpcFunctionSetFnptr st fn callable
    Prod.fst <$> rpcStructSet E st1 cifStorage (decimal c.2) (.unknown closureData)
  | _ => .ok st

/-- mirrors src/rpc_client.c:381-430 (`closurefy`) -/
def closurefy (st : State) (cobj : Addr) : Except Fault State := do
  let keys := E.order st cobj (rpcStructKeys st cobj)
  let (st1, cifStorage) := rpcStructCreate E st
  let st2 ← keys.zipIdx.foldlM (closurefyKey E ffiClosureAlloc cobj cifStorage) st1
  Prod.fst <$> rpcStructSet E st2 cobj (ascii "cif_storage") (.struct cifStorage)

/-- A struct may stand for an object: one the client has loaded is replaced by a copy of
what it has, another one gets closures.
mirrors src/rpc_client.c:350-363 -/
def returnStruct (udata : RpcClosureUdata) (infos : Table Addr Bool) (s : Server) (p : Addr) :
    Except Stop (Server × Addr) := do
  let ID := rpcStructIdGet s.store p
  if rpcStructExists s.store udata.loadedCobjects ID then
    match rpcStructGetStruct s.store udata.loadedCobjects ID with
    | none => .error .assertion
    | some lcobj => do
      let (st1, copy) ← rpcStructCopy E s.store lcobj
      .ok ({ s with store := st1 }, copy)
  else
    let (s1, found) ← isObject E methodRequest s ID
    if found = false then .ok (s1, p)
    else if (infos.lookup p).isSome then .error .assertion
    else
      let st2 ← closurefy E ffiClosureAlloc s1.store p
      .ok ({ s1 with store := st2 }, p)

/-- The release callback of a returned object is switched off, unless it is an argument
that had a record.
mirrors src/rpc_client.c:342-347 -/
def keepReturned (infos : Table Addr Bool) (st : State) (p : Addr) : State :=
  if infos.lookup p = some true then st else disableFree st p

/-- mirrors src/rpc_client.c:328-366 -/
def returnValue (udata : RpcClosureUdata) (infos : Table Addr Bool) (s : Server) :
    RpcTypeT → Except Stop (Server × ReturnSlot)
  | .none => .ok (s, .untouched)
  | .number raw | .real raw => .ok (s, .bytes (raw.take 8))
  | .string p _ | .unknown p => .ok (s, .address p)
  | .sizedbuf p | .function p =>
    .ok ({ s with store := keepReturned infos s.store p }, .address p)
  | .struct p => do
    let (s1, a) ← returnStruct E methodRequest ffiClosureAlloc udata infos
      { s with store := keepReturned infos s.store p } p
    .ok (s1, .address a)

/-- The function a closure stands for, and the struct it is from, which is locked. -/
def RpcClosureUdata.function (udata : RpcClosureUdata) (st : State) : Except Fault RpcFunction :=
  match st.struct? udata.cobj, st.heap.lookup udata.fetchedFn with
  | some _, some (.function fn) => .ok fn
  | none, _ => .error (.useAfterFree udata.cobj)
  | _, _ => .error (.useAfterFree udata.fetchedFn)

/-- What the closure does with the reply, which is not `NULL`.
mirrors src/rpc_client.c:322-372 -/
def takeReturn (udata : RpcClosureUdata) (infos : Table Addr Bool) (s : Server) (reply : Addr) :
    Except Stop (Server × ReturnSlot) := do
  let fn ← udata.function s.store
  if (rpcStructTypeof s.store reply (ascii "return")).code ≠ fn.returnType then .error .assertion
  else
    let (s1, slot) ← returnValue E methodRequest ffiClosureAlloc udata infos s
      (rpcStructGetInternal s.store reply (ascii "return"))
    let st2 ← rpcStructFree E s1.store reply
    .ok ({ s1 with store := st2 }, slot)

/-- mirrors src/rpc_client.c:259-379 (`call_rpc_closure`) -/
def callRpcClosure (udata : RpcClosureUdata) (s : Server) (args : Nat → Passed) :
    Except Stop (Server × ReturnSlot) := do
  let fn ← udata.function s.store
  let (packed, request) ← packRequest E udata fn s.store args
  let (s1, reply) ← methodRequest { s with store := packed.store } request
  if reply = 0 then .ok (s1, .untouched)
  else takeReturn E methodRequest ffiClosureAlloc udata packed.infos s1 reply

end

end FfiRpc
