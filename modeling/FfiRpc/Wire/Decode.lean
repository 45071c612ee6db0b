import FfiRpc.Core.Bytes
import FfiRpc.Store.Ops
import FfiRpc.Wire.Json

/-!
# Deserialisation

`rpc_struct_deserialize`, `item_parse` and the decoders of the leaves. A
`const char*` that `json_string_value` may return as `NULL` is an `Option`, and
a string function applied to `none` is the fault `nullString`. `NULL` as a
result is the address `0`.

The recursion is on a bound that the depth of the document provides
(`decodeFuel`).
-/
namespace FfiRpc

section Decode
variable (E : Env)

/-- mirrors src/rpc_sizedbuf.c:103-127 (`rpc_sizedbuf_deserialize`). The bad
exit releases `buf` before anything was stored in it. -/
def rpcSizedbufDeserialize (st : State) (json : Json) : Except Fault (State × Addr) :=
  let (st1, szbuf) := rpcSizedbufCreate E st
    ((Json.items (json.get (ascii "serialised"))).map fun c =>
      ⟨(Json.integerValue (some c)).setWidth 8⟩)
  match json.get (ascii "type") with
  | none => .error (.uninitialised szbuf)
  | some type =>
    if Json.stringValue (some type) = some (ascii "RPC_sizedbuf") then .ok (st1, szbuf)
    else .error (.uninitialised szbuf)

/-- mirrors src/rpc_function.c:103-131 (`rpc_function_deserialize`) -/
def rpcFunctionDeserialize (st : State) (json : Json) : Except Fault (State × Addr) :=
  let (st1, fn) := rpcFunctionCreate E st
  if Json.stringValue (json.get (ascii "type")) = some (ascii "RPC_function") then
    let returnType : UInt32 :=
      ⟨(Json.integerValue (json.get (ascii "return_type"))).setWidth 32⟩
    let prototype : Option (List UInt32) := (json.get (ascii "prototype")).map fun array =>
      (Json.items (some array)).map fun t => ⟨(Json.integerValue (some t)).setWidth 32⟩
    .ok (st1.setObj fn (.function ⟨prototype, returnType, 0⟩), fn)
  else do
    let st2 ← rpcFunctionFree E st1 fn
    .ok (st2, 0)

/-- `sprintf("%zu")` -/
def decimal (i : Nat) : CStr := (Nat.toDigits 10 i).map fun c => UInt8.ofNat c.toNat

/-- Two indices never print alike. -/
theorem decimal_injective : Function.Injective decimal := by
  have hread : ∀ i, ((decimal i).map UInt8.toNat).foldl (fun n c => 10 * n + (c - 48)) 0 = i := by
    intro i
    have hdigits : (decimal i).map UInt8.toNat = (Nat.toDigits 10 i).map Char.toNat := by
      rw [decimal, List.map_map]
      refine List.map_congr_left fun c hc => ?_
      have hdigit := Nat.isDigit_of_mem_toDigits (by decide) (by decide) hc
      have hlt : c.toNat < 256 := by
        simp only [Char.isDigit, Bool.and_eq_true, decide_eq_true_eq, UInt32.le_iff_toNat_le] at hdigit
        have h57 : c.val.toNat ≤ 57 := hdigit.2
        exact Nat.lt_of_le_of_lt h57 (by decide)
      rw [Function.comp_apply, UInt8.toNat_ofNat', Nat.mod_eq_of_lt hlt]
    rw [hdigits, List.foldl_map]
    exact Nat.ofDigitChars_ten_toDigits
  intro i j hij
  rw [← hread i, hij, hread j]

/-- `rpc_struct_set` on a value that is only computed when the key is free. -/
def setWith (st : State) (S : Addr) (key : CStr)
    (value : State → Except Fault (State × RpcTypeT)) : Except Fault State :=
  if rpcStructExists st S key then .ok st
  else do
    let (st1, element) ← value st
    Prod.fst <$> rpcStructSetInternal E st1 S key element

/-- `goto bad_exit`. -/
def badExit (st : State) (new : Addr) : Except Fault (State × Addr) := do
  let st' ← rpcStructFree E st new
  .ok (st', 0)

/-- One alias of the table.
mirrors src/rpc_struct.c:576-577 -/
def relink (new : Addr) (st : State) (f : CStr × Json) : Except Fault State :=
  let element := match Json.stringValue (some f.2) with
    | none => .none
    | some original => rpcStructGetInternal st new original
  Prod.fst <$> rpcStructSetInternal E st new f.1 element

mutual
/-- mirrors src/rpc_struct.c:507-549 (`item_parse`) -/
def itemParse : Nat → State → Addr → CStr → Json → Except Fault State
  | 0, _, _, _, _ => .error .outOfFuel
  | n + 1, st, S, key, item =>
    match item with
    | .int i => setWith E st S key fun st => .ok (st, .number (toLE 8 i.toNat))
    | .real bits => setWith E st S key fun st => .ok (st, .real bits)
    | .str s => setWith E st S key fun st => .ok (st, .string 1 s)
    | .obj fs =>
      match Json.stringValue (Json.get (.obj fs) (ascii "type")) with
      | none => .error .nullString
      | some itemType =>
        if itemType = ascii "RPC_struct" then
          setWith E st S key fun st => do
            let (st1, p) ← structDeserialize n st (.obj fs)
            .ok (st1, .struct p)
        else if itemType = ascii "RPC_function" then
          setWith E st S key fun st => do
            let (st1, p) ← rpcFunctionDeserialize E st (.obj fs)
            .ok (st1, .function p)
        else if itemType = ascii "RPC_sizedbuf" then
          setWith E st S key fun st => do
            let (st1, p) ← rpcSizedbufDeserialize E st (.obj fs)
            .ok (st1, .sizedbuf p)
        else .ok st
    | .arr l => do
      let (st1, arrS) := rpcStructCreate E st
      let st2 ← setWith E st1 S key fun st => .ok (st, .struct arrS)
      l.zipIdx.foldlM (fun st x => itemParse n st arrS (decimal x.2) x.1) st2
    | .bool _ | .null => .ok st

/-- mirrors src/rpc_struct.c:550-586 (`rpc_struct_deserialize`), on a document
that is not `NULL` -/
def structDeserialize : Nat → State → Json → Except Fault (State × Addr)
  | 0, _, _ => .error .outOfFuel
  | n + 1, st, json => do
    let (st1, new) := rpcStructCreate E st
    let st2 ← match json.get (ascii "ID") with
      | none => Except.ok st1
      | some ID =>
        match Json.stringValue (some ID) with
        | none => .error .nullString
        | some s => rpcStructIdSet st1 new s
    match json.get (ascii "type") with
    | none => badExit E st2 new
    | some type =>
      match Json.stringValue (some type) with
      | none => .error .nullString
      | some t =>
        if t = ascii "RPC_struct" then
          match json.get (ascii "serialised") with
          | none => badExit E st2 new
          | some data => do
            let st3 ← data.fields.foldlM (fun st f => itemParse n st new f.1 f.2) st2
            match json.get (ascii "duplicates") with
            | none => .ok (st3, new)
            | some duplicates => do
              let st4 ← duplicates.fields.foldlM (relink E new) st3
              .ok (st4, new)
        else badExit E st2 new
end

/-- Two calls per level of nesting. -/
def decodeFuel (j : Json) : Nat := 2 * j.depth + 1

/-- mirrors src/rpc_struct.c:550-586 (`rpc_struct_deserialize`) -/
def rpcStructDeserialize (st : State) : Option Json → Except Fault (State × Addr)
  | none => .ok (st, 0)
  | some json => structDeserialize E (decodeFuel json) st json

end Decode

end FfiRpc
