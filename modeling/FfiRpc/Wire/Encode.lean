import FfiRpc.Core.Bytes
import FfiRpc.Core.Fallible
import FfiRpc.Store.Ops
import FfiRpc.Wire.Json

/-!
# Serialisation

`rpc_struct_serialize` and what it calls, as the code has them. It works on a
shallow copy (`dupless_struct`) from which it removes unknowns and all but one
key of each shared object, calls itself for nested structs, and frees the copy.
The first argument bounds the nesting; `Serializes` is "returns", with some
bound.

`rpc_struct_found_duplicates` keeps pointers into its result array and then
reallocates the array: from 17 distinct objects on, a key that finds an earlier
object goes through a pointer that `realloc` may have invalidated.
-/
namespace FfiRpc

/-! ## Leaves -/

/-- mirrors src/rpc_sizedbuf.c:88-101 (`rpc_sizedbuf_serialize`); `char` is
signed -/
def rpcSizedbufSerialize (b : RpcSizedbuf) : Json :=
  .obj [(ascii "type", .str (ascii "RPC_sizedbuf")),
    (ascii "serialised", .arr (b.buf.map fun c => .int (c.toBitVec.signExtend 64)))]

/-- mirrors src/rpc_function.c:86-102 (`rpc_function_serialize`) -/
def rpcFunctionSerialize (f : RpcFunction) : Json :=
  .obj ([(ascii "type", .str (ascii "RPC_function")),
      (ascii "return_type", .int (f.returnType.toBitVec.setWidth 64))] ++
    match f.prototype with
    | none | some [] => []
    | some p => [(ascii "prototype", .arr (p.map fun t => .int (t.toBitVec.setWidth 64)))])

/-- The `switch` on the length of a number.
mirrors src/rpc_struct.c:453-468 -/
def serializeNumber (raw : List UInt8) : Json :=
  .int (if raw.length ∈ [1, 2, 4, 8] then BitVec.ofNat 64 (ofLE raw) else 0)

/-- The bits of `(double)f`, from the bits of `f`: the same sign and value. -/
def widenFloat (f : Nat) : Nat :=
  let sign := f / 2 ^ 31 % 2 * 2 ^ 63
  let e := f / 2 ^ 23 % 2 ^ 8
  let m := f % 2 ^ 23
  if e = 255 then sign + 2047 * 2 ^ 52 + m * 2 ^ 29
  else if e = 0 then
    if m = 0 then sign
    else sign + (Nat.log2 m + 874) * 2 ^ 52 + (m - 2 ^ Nat.log2 m) * 2 ^ (52 - Nat.log2 m)
  else sign + (e + 896) * 2 ^ 52 + m * 2 ^ 29

/-- Neither infinite nor a NaN. -/
def doubleFinite (raw : List UInt8) : Bool := ofLE raw / 2 ^ 52 % 2 ^ 11 ≠ 2047

/-- The `switch` on the length of a real; `json_real` refuses what is not
finite.
mirrors src/rpc_struct.c:470-481 -/
def serializeReal (raw : List UInt8) : Option Json :=
  let bits := if raw.length = 4 then toLE 8 (widenFloat (ofLE raw))
    else if raw.length = 8 then raw else toLE 8 0
  if doubleFinite bits then some (.real bits) else none

/-! ## Aliases -/

/-- mirrors src/rpc_struct.c:323-329 (`struct rpc_struct_duplicate_info`) -/
structure DupInfo where
  type : RpcTypes
  originalName : CStr
  duplicates : List CStr
  deriving DecidableEq

/-- The loop state of `rpc_struct_found_duplicates`. A pointer into `duplicates`
is an index and the block it was taken in. -/
structure FoundState where
  block : Nat
  capacity : Nat
  duplicates : List DupInfo
  ptrMap : Table Addr (Nat × Nat)

/-- One element of the struct, under `key`.
mirrors src/rpc_struct.c:357-383 -/
def foundStep (E : Env) (st : State) (s : RpcStruct) (fs : FoundState) (key : CStr) :
    Except Fault FoundState :=
  match s.map.lookup key with
  | none => .ok fs
  | some element =>
    match element.target with
    | none => .ok fs
    | some p =>
      match fs.ptrMap.lookup p with
      | none =>
        let fs1 := if fs.duplicates.length = fs.capacity then
            { fs with capacity := fs.capacity * 2,
                      block := if E.moves st (fs.capacity * 2) then fs.block + 1 else fs.block }
          else fs
        .ok { fs1 with duplicates := fs1.duplicates ++ [⟨element.type, key, []⟩],
                       ptrMap := fs1.ptrMap.insert p (fs1.duplicates.length, fs1.block) }
      | some (i, block) =>
        if block = fs.block then
          .ok { fs with duplicates :=
            fs.duplicates.modify i fun info => { info with duplicates := info.duplicates ++ [key] } }
        else .error (.useAfterFree p)

/-- mirrors src/rpc_struct.c:333-397 (`rpc_struct_found_duplicates`) -/
def rpcStructFoundDuplicates (E : Env) (st : State) (S : Addr) : Except Fault (List DupInfo) :=
  match st.struct? S with
  | none => .error (.useAfterFree S)
  | some s => do
    let fs ← (E.order st S s.map.keys).foldlM (foundStep E st s) ⟨0, 16, [], ∅⟩
    .ok fs.duplicates

/-! ## Structs -/

section Serialize
variable (E : Env) (utf8 : CStr → Bool)

/-- The first loop over the copy.
mirrors src/rpc_struct.c:412-417 -/
def removeUnknown (dupless : Addr) (st : State) (key : CStr) : Except Fault State :=
  if (rpcStructGetInternal st dupless key).type = .unknown then
    Prod.fst <$> rpcStructRemove E st dupless key
  else .ok st

/-- mirrors src/rpc_struct.c:418-422 -/
def removeDuplicates (dupless : Addr) (st : State) (d : DupInfo) : Except Fault State :=
  d.duplicates.foldlM (fun st key => Prod.fst <$> rpcStructRemove E st dupless key) st

/-- The fields of `duplicates` for one group.
mirrors src/rpc_struct.c:494-498 -/
def duplicateFields (fs : List (CStr × Json)) (d : DupInfo) : List (CStr × Json) :=
  d.duplicates.foldl (fun fs key => Json.setNew utf8 fs key (Json.string utf8 d.originalName)) fs

/-- The item for one element of the copy; `rec` serialises a nested struct.
mirrors src/rpc_struct.c:436-486 -/
def serializeElement (rec : State → Addr → Except Fault (State × Json)) (st : State) :
    RpcTypeT → Except Fault (State × Option Json)
  | .struct p => do
    let (st1, j) ← rec st p
    .ok (st1, some j)
  | .function p =>
    match st.heap.lookup p with
    | some (.function f) => .ok (st, some (rpcFunctionSerialize f))
    | _ => .error (.useAfterFree p)
  | .sizedbuf p =>
    match st.heap.lookup p with
    | some (.sizedbuf b) => .ok (st, some (rpcSizedbufSerialize b))
    | _ => .error (.useAfterFree p)
  | .number raw => .ok (st, some (serializeNumber raw))
  | .real raw => .ok (st, serializeReal raw)
  | .string _ text => .ok (st, Json.string utf8 text)
  | .none | .unknown _ => .ok (st, none)

/-- One turn of the main loop.
mirrors src/rpc_struct.c:435-488 -/
def serializeField (rec : State → Addr → Except Fault (State × Json)) (dupless : Addr)
    (acc : State × List (CStr × Json)) (key : CStr) : Except Fault (State × List (CStr × Json)) := do
  let (st1, item) ← serializeElement utf8 rec acc.1 (rpcStructGetInternal acc.1 dupless key)
  .ok (st1, Json.setNew utf8 acc.2 key item)

/-- mirrors src/rpc_struct.c:400-506 (`rpc_struct_serialize`). `foreach` over the
copy's map is over the keys it has when the loop starts. -/
def rpcStructSerialize : Nat → State → Addr → Except Fault (State × Json)
  | 0, _, _ => .error .outOfFuel
  | n + 1, st, S => do
    let (st1, dupless) ← rpcStructCopy E st S
    let dups ← rpcStructFoundDuplicates E st1 S
    let keys1 := ((st1.struct? dupless).map fun s => s.map.keys).getD []
    let st2 ← (E.order st1 dupless keys1).foldlM (removeUnknown E dupless) st1
    let st3 ← dups.foldlM (removeDuplicates E dupless) st2
    let keys3 := ((st3.struct? dupless).map fun s => s.map.keys).getD []
    let (st4, serialised) ← (E.order st3 dupless keys3).foldlM
      (serializeField utf8 (rpcStructSerialize n) dupless) (st3, [])
    let st5 ← rpcStructFree E st4 dupless
    let root := Json.setNew utf8 [] (ascii "ID") (Json.string utf8 (rpcStructIdGet st3 S))
    let root := Json.setNew utf8 root (ascii "type") (Json.string utf8 (ascii "RPC_struct"))
    let root := Json.setNew utf8 root (ascii "serialised") (some (.obj serialised))
    let root := Json.setNew utf8 root (ascii "duplicates")
      (some (.obj (dups.foldl (duplicateFields utf8) [])))
    .ok (st5, .obj root)

/-- `rpc_struct_serialize(S)` returns `j`. -/
def Serializes (st : State) (S : Addr) (st' : State) (j : Json) : Prop :=
  ∃ n, rpcStructSerialize E utf8 n st S = .ok (st', j)

end Serialize

end FfiRpc
