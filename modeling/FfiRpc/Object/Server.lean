import FfiRpc.Object.Call
import FfiRpc.Object.Registry

/-!
# The server's methods

`rpc_cobject_call` to its end, the methods of `rpc_server.c`, and the two ways a
request reaches them: `rpc_server_localnet_job` for a local client and `net_job` for a
remote one, with what becomes of the request and the reply (rpc_client.c:169-179,
rpc_server.c:211-248).

The functions of the objects are the user's (`FfiCall`): one is given the invocation
and the server as it finds it, and leaves another server and a value. The thread-locals
that `call` and `rpc_cobject_call` set are those of `Thread.lean`.
-/
namespace FfiRpc

/-- The store, the two indexes and `RO_protocache`. -/
structure Server extends Registry where
  protocache : Protocache

/-- What a function returns: the eight bytes of `ffi_return`, and the text at that
address where the function returns a `char*`. -/
structure Returned where
  value : UInt64
  text : CStr
  deriving DecidableEq

/-- `ffi_call`. -/
abbrev FfiCall := Invocation → Server → Server × Returned

/-- `rpc_struct_get` of a `char*`. -/
def rpcStructGetString (st : State) (S : Addr) (key : CStr) : Option CStr :=
  match rpcStructGetInternal st S key with
  | .string _ text => some text
  | _ => none

/-- The element built from `ffi_return`.
mirrors src/rpc_object.c:195-202 -/
def returnElement (t : RpcTypes) (returned : Returned) : RpcTypeT :=
  match t with
  | .none => .none
  | .number => .number (toLE 8 returned.value.toNat)
  | .real => .real (toLE 8 returned.value.toNat)
  | .string => .string returned.value.toNat returned.text
  | .struct => .struct returned.value.toNat
  | .sizedbuf => .sizedbuf returned.value.toNat
  | .function => .function returned.value.toNat
  | .unknown => .unknown returned.value.toNat

section
variable (E : Env) (ffiCall : FfiCall)

/-- The end of `rpc_cobject_call`, `t` being the function's return type.
mirrors src/rpc_object.c:192-206 -/
def setReturn (st : State) (output : Addr) (t : RpcTypes) (returned : Returned) :
    Except Fault State :=
  if t ≠ .none ∧ t ≠ .unknown then
    if rpcIsPointer t = true ∧ returned.value = 0 then .ok st
    else Prod.fst <$> rpcStructSetInternal E st output (ascii "return") (returnElement t returned)
  else .ok st

/-- A return type outside of `enum rpc_types` has no entry in `rpctype_to_libffi`.
mirrors src/rpc_object.c:144-208 (`rpc_cobject_call`) -/
def rpcCobjectCall (s : Server) (cobj : Addr) (fnName : CStr) (params output : Addr) :
    Except Fault (Server × RpcServerErrors) :=
  match prepareCall s.store s.protocache cobj fnName params with
  | (protocache, .error err) => .ok ({ s with protocache := protocache }, err)
  | (protocache, .ok invocation) => do
    let (s1, returned) := ffiCall invocation { s with protocache := protocache }
    match RpcTypes.ofCode invocation.fn.returnType with
    | none => .ok (s1, .ok)
    | some t => do
      let st2 ← setReturn E s1.store output t returned
      .ok ({ s1 with store := st2 }, .ok)

/-! ## The methods -/

/-- `rpc_struct_set` of a string; `none` is `NULL`. -/
def rpcStructSetString (st : State) (S : Addr) (key : CStr) (text : Option CStr) :
    Except Fault State :=
  Prod.fst <$> rpcStructSet E st S key
    (match text with
      | none => .string 0 []
      | some text => .string 1 text)

/-- mirrors src/rpc_server.c:315-326 -/
def RpcServerErrors.text : RpcServerErrors → Option CStr
  | .doesntExist => some (ascii "ERR_RPC_DOESNT_EXIST")
  | .prototypeDifferent => some (ascii "ERR_RPC_PROTOTYPE_DIFFERENT")
  | _ => none

/-- mirrors src/rpc_server.c:267-270 (`ping`) -/
def ping (s : Server) (_ reply : Addr) : Except Fault (Server × Nat) := do
  let st1 ← rpcStructSetString E s.store reply (ascii "pong") (some (ascii "pong"))
  .ok ({ s with store := st1 }, 0)

/-- mirrors src/rpc_server.c:271-273 (`disconnect`) -/
def disconnect (s : Server) (_ _ : Addr) : Except Fault (Server × Nat) := .ok (s, 1)

/-- mirrors src/rpc_server.c:274-285 (`is_cobject`) -/
def isCobject (s : Server) (request reply : Addr) : Except Fault (Server × Nat) := do
  let found := match rpcStructGetString s.store request (ascii "ID") with
    | none => 0
    | some ID => if rpcCobjectGet s.toRegistry ID = 0 then 0 else 1
  let (st1, _) ← rpcStructSet E s.store reply (ascii "is_cobject") (.number (toLE 4 found))
  .ok ({ s with store := st1 }, 0)

/-- mirrors src/rpc_server.c:287-301 (`get_cobject`) -/
def getCobject (s : Server) (request reply : Addr) : Except Fault (Server × Nat) :=
  match rpcStructGetString s.store request (ascii "object") with
  | none => .ok (s, 1)
  | some cobjName => do
    if rpcCobjectGet s.toRegistry cobjName = 0 then
      let st1 ← rpcStructSetString E s.store reply (ascii "error") (some (ascii "ERR_RPC_DOESNT_EXIST"))
      .ok ({ s with store := st1 }, 0)
    else
      let (st1, _) ← rpcStructSet E s.store reply (ascii "object")
        (.struct (rpcCobjectGet s.toRegistry cobjName))
      .ok ({ s with store := st1 }, 0)

/-- mirrors src/rpc_server.c:302-331 (`call`) -/
def call (s : Server) (request reply : Addr) : Except Fault (Server × Nat) :=
  match rpcStructGetString s.store request (ascii "object"),
      rpcStructGetString s.store request (ascii "function"),
      rpcStructGetStruct s.store request (ascii "params") with
  | some cobjName, some fnName, some fnParams => do
    let (s1, err) ← rpcCobjectCall E ffiCall s (rpcCobjectGet s.toRegistry cobjName) fnName
      fnParams reply
    if err ≠ .ok then
      let st2 ← rpcStructSetString E s1.store reply (ascii "error") err.text
      .ok ({ s1 with store := st2 }, 0)
    else .ok (s1, 0)
  | _, _, _ => .ok (s, 1)

/-- What `RS_methods` has under a name.
mirrors src/rpc_server.c:95-100 (`RS_init_methods`) -/
def methods (name : CStr) : Option (Server → Addr → Addr → Except Fault (Server × Nat)) :=
  [(ascii "ping", ping E), (ascii "disconnect", disconnect), (ascii "get_object", getCobject E),
    (ascii "call", call E ffiCall), (ascii "is_cobject", isCobject E)].lookup name

/-! ## The two transports -/

/-- mirrors src/rpc_server.c:253-264 (`rpc_server_localnet_job`) -/
def rpcServerLocalnetJob (s : Server) (request reply : Addr) : Except Fault (Server × Nat) :=
  match rpcStructGetString s.store request (ascii "method") with
  | none => .ok (s, 1)
  | some requestName =>
    match methods E ffiCall requestName with
    | none => .ok (s, 1)
    | some requestHandler =>
      requestHandler s ((rpcStructGetStruct s.store request (ascii "params")).getD 0) reply

/-- `NULL` is the address `0`.
mirrors src/rpc_client.c:169-179 (`local_requestor`) -/
def localRequestor (s : Server) (request : Addr) : Except Fault (Server × Addr) := do
  let (st0, reply) := rpcStructCreate E s.store
  let (s1, ret) ← rpcServerLocalnetJob E ffiCall { s with store := st0 } request reply
  if ret ≠ 0 then
    let st2 ← rpcStructFree E s1.store reply
    let st3 ← rpcStructFree E st2 request
    .ok ({ s1 with store := st3 }, 0)
  else
    let st2 ← rpcStructFree E s1.store request
    .ok ({ s1 with store := st2 }, reply)

/-- The request's own dispatch is that of `rpc_server_localnet_job`. The reply is sent
whatever the handler returns; if it is not zero, the connection is closed afterwards.
mirrors src/rpc_server.c:211-248 (`net_job`), up to `rpc_net_send` -/
def netJob (s : Server) (jobInfo : Addr) : Except Fault (Server × Addr × Nat) := do
  let (st0, reply) := rpcStructCreate E s.store
  let request := (rpcStructGetStruct st0 jobInfo (ascii "request")).getD 0
  let (s1, ret) ← rpcServerLocalnetJob E ffiCall { s with store := st0 } request reply
  let st2 ← rpcStructFree E s1.store jobInfo
  .ok ({ s1 with store := st2 }, reply, ret)

end

end FfiRpc
