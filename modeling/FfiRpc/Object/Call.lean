import FfiRpc.Store.Inv
import FfiRpc.Wire.Decode

/-!
# Preparing a call

`rpc_cobject_call` up to `ffi_call` (rpc_object.c:126-183): the function looked
up, the parameters compared with its prototype, the vector of libffi types,
from `RO_protocache` or built, and the arguments.

* A call of the sequence runs on a store of its own: whatever the process does
  between two calls (functions replaced, objects registered again) is covered.
* `vectors_iff`: the cache serves every call of a sequence its own vector
  exactly when each call agrees with the first one under its cache key.
* `allPassed_iff`: what `proto_equals` accepts is enumerated whole exactly when
  the extra parameters are typed and have the positions that follow as keys.
-/
namespace FfiRpc

/-- mirrors include/ffirpc/rpc_struct.h:63-74, the enumerators' values -/
def RpcTypes.code : RpcTypes → UInt32
  | .none => 0
  | .number => 1
  | .real => 2
  | .string => 3
  | .struct => 4
  | .sizedbuf => 5
  | .function => 6
  | .unknown => 7

/-- The enumerator with this value. -/
def RpcTypes.ofCode (code : UInt32) : Option RpcTypes :=
  [RpcTypes.none, .number, .real, .string, .struct, .sizedbuf, .function, .unknown][code.toNat]?

theorem RpcTypes.ofCode_code (t : RpcTypes) : ofCode t.code = some t := by
  cases t <;> rfl

/-- The entries of `rpctype_to_libffi`. -/
inductive FfiType where
  | void | uint64 | double | pointer
  deriving DecidableEq, Repr

/-- mirrors src/rpc_object.c:126-131 (`rpctype_to_libffi`) -/
def rpctypeToLibffi : RpcTypes → FfiType
  | .none => .void
  | .number => .uint64
  | .real => .double
  | .string | .struct | .sizedbuf | .function | .unknown => .pointer

/-- mirrors src/rpc_struct.c:718-725 (`rpc_struct_typeof`) -/
def rpcStructTypeof (st : State) (S : Addr) (key : CStr) : RpcTypes :=
  (rpcStructGetInternal st S key).type

/-- mirrors src/rpc_object.c:133-142 (`proto_equals`) -/
def protoEquals (st : State) (sproto : List UInt32) (clArgs : Addr) : Bool :=
  if rpcStructLength st clArgs < sproto.length then false
  else sproto.zipIdx.all fun (t, i) => (rpcStructTypeof st clArgs (decimal i)).code == t

/-- mirrors include/ffirpc/rpc_server.h:30-35 (`enum rpc_server_errors`) -/
inductive RpcServerErrors where
  | ok | prototypeDifferent | variadicNotAllowed | doesntExist
  deriving DecidableEq, Repr

/-- What `RO_protocache` maps a cache key to: a vector, with the length it was
built with. -/
abbrev Protocache := Table CStr (List FfiType)

/-- `"%s : %s"` -/
def cacheKey (id fnName : CStr) : CStr := id ++ ascii " : " ++ fnName

/-- The vector as the loop builds it.
mirrors src/rpc_object.c:167-170 -/
def buildVector (st : State) (params : Addr) : List FfiType :=
  (List.range (rpcStructLength st params)).map fun i =>
    rpctypeToLibffi (rpcStructTypeof st params (decimal i))

/-- The vector under `key`, built and stored when there is none.
mirrors src/rpc_object.c:163-173 -/
def cachedVector (cache : Protocache) (key : CStr) (st : State) (params : Addr) :
    Protocache × List FfiType :=
  match cache.lookup key with
  | some vector => (cache, vector)
  | none => (cache.insert key (buildVector st params), buildVector st params)

/-- `rpc_struct_get_unsafe` into the eight zero bytes of an argument.
mirrors include/ffirpc/rpc_struct.h:329-330 -/
def RpcTypeT.argument : RpcTypeT → List UInt8
  | .none => List.replicate 8 0
  | .number raw | .real raw => (raw ++ List.replicate 8 0).take 8
  | element => toLE 8 element.ptrValue

/-- What `ffi_prep_cif_var` and `ffi_call` get; `rtype` is `none` for a return
type outside the table. -/
structure Invocation where
  fn : RpcFunction
  nfixedargs : Nat
  ntotalargs : Nat
  rtype : Option FfiType
  atypes : List FfiType
  avalues : List (List UInt8)
  deriving DecidableEq

/-- mirrors src/rpc_object.c:175-183 -/
def invocation (st : State) (fn : RpcFunction) (vector : List FfiType) (params : Addr) :
    Invocation where
  fn := fn
  nfixedargs := (fn.prototype.getD []).length
  ntotalargs := rpcStructLength st params
  rtype := (RpcTypes.ofCode fn.returnType).map rpctypeToLibffi
  atypes := vector
  avalues := (List.range (rpcStructLength st params)).map fun i =>
    (rpcStructGetInternal st params (decimal i)).argument

/-- `rpc_struct_get` of a function. -/
def rpcStructGetFunction (st : State) (S : Addr) (key : CStr) : Option RpcFunction :=
  match rpcStructGetInternal st S key with
  | .function p =>
    match st.heap.lookup p with
    | some (.function fn) => some fn
    | _ => none
  | _ => none

/-- mirrors src/rpc_object.c:144-183 (`rpc_cobject_call`, before the push) -/
def prepareCall (st : State) (cache : Protocache) (cobj : Addr) (fnName : CStr) (params : Addr) :
    Protocache × Except RpcServerErrors Invocation :=
  if cobj = 0 then (cache, .error .doesntExist)
  else match rpcStructGetFunction st cobj fnName with
    | none => (cache, .error .doesntExist)
    | some fn =>
      if protoEquals st (fn.prototype.getD []) params then
        let (cache, vector) :=
          cachedVector cache (cacheKey (rpcStructIdGet st cobj) fnName) st params
        (cache, .ok (invocation st fn vector params))
      else (cache, .error .prototypeDifferent)

/-! ## The prototype cache -/

/-- The arguments of one `rpc_cobject_call`, and the store it runs on. -/
structure CobjectCall where
  store : State
  cobj : Addr
  fnName : CStr
  params : Addr

namespace CobjectCall

def key (c : CobjectCall) : CStr := cacheKey (rpcStructIdGet c.store c.cobj) c.fnName

/-- The libffi types of the call's own parameters. -/
def types (c : CobjectCall) : List FfiType := buildVector c.store c.params

/-- The function exists and `proto_equals` accepts. -/
def accepted (c : CobjectCall) : Bool :=
  c.cobj ≠ 0 && match rpcStructGetFunction c.store c.cobj c.fnName with
    | none => false
    | some fn => protoEquals c.store (fn.prototype.getD []) c.params

/-- The vector has an entry for each parameter of the call, of the parameter's
type. -/
def Serves (c : CobjectCall) (vector : List FfiType) : Prop :=
  rpcStructLength c.store c.params ≤ vector.length ∧
  ∀ i < rpcStructLength c.store c.params,
    vector[i]? = some (rpctypeToLibffi (rpcStructTypeof c.store c.params (decimal i)))

end CobjectCall

/-- Runs the calls in order; the vectors handed to `ffi_prep_cif_var`, each with
its call. -/
def runCalls (cache : Protocache) : List CobjectCall → List (CobjectCall × List FfiType)
  | [] => []
  | c :: cs =>
    match prepareCall c.store cache c.cobj c.fnName c.params with
    | (cache, .ok invocation) => (c, invocation.atypes) :: runCalls cache cs
    | (cache, .error _) => runCalls cache cs

/-- The first accepted call of the sequence with this cache key. -/
def firstCall (calls : List CobjectCall) (key : CStr) : Option CobjectCall :=
  calls.find? fun c => c.accepted && c.key == key

/-- Each call has no more parameters than the first one under its key, and they
are of the same libffi types position by position. -/
def AgreeWithFirst (calls : List CobjectCall) : Prop :=
  ∀ c ∈ calls, c.accepted = true → ∀ first, firstCall calls c.key = some first →
    c.types <+: first.types

/-- The vector that key has or gets. -/
def resident (cache : Protocache) (calls : List CobjectCall) (key : CStr) : Option (List FfiType) :=
  (cache.lookup key).or ((firstCall calls key).map CobjectCall.types)

section
variable {cache : Protocache} {c : CobjectCall} {cs : List CobjectCall} {vector : List FfiType}

theorem CobjectCall.serves_iff : c.Serves vector ↔ c.types <+: vector := by
  have hlen : c.types.length = rpcStructLength c.store c.params := by simp [types, buildVector]
  have hget : ∀ i < rpcStructLength c.store c.params, c.types[i]? =
      some (rpctypeToLibffi (rpcStructTypeof c.store c.params (decimal i))) := by
    intro i hi
    simp [types, buildVector, hi]
  constructor
  · intro h
    rw [List.prefix_iff_getElem?]
    intro i hi
    rw [hlen] at hi
    rw [h.2 i hi, ← hget i hi, List.getElem?_eq_getElem]
  · intro h
    refine ⟨hlen ▸ h.length_le, fun i hi => ?_⟩
    rw [← hget i hi]
    have hi : i < c.types.length := by rwa [hlen]
    rw [List.prefix_iff_getElem?.1 h i hi, List.getElem?_eq_getElem hi]

theorem cachedVector_spec (cache : Protocache) (key : CStr) (st : State) (params : Addr) :
    ∃ cache', cachedVector cache key st params =
        (cache', (cache.lookup key).getD (buildVector st params)) ∧
      ∀ k, cache'.lookup k = if k = key then some ((cache.lookup key).getD (buildVector st params))
        else cache.lookup k := by
  unfold cachedVector
  cases h : cache.lookup key with
  | some vector =>
    refine ⟨cache, rfl, fun k => ?_⟩
    split
    · rename_i hk
      rw [hk, h]
      rfl
    · rfl
  | none =>
    refine ⟨_, rfl, fun k => ?_⟩
    rw [Table.lookup_insert_if]
    simp only [eq_comm, Option.getD_none]

/-- What a call hands to `ffi_prep_cif_var` and leaves in the cache. -/
theorem prepareCall_spec (cache : Protocache) (c : CobjectCall) :
    (c.accepted = true ∧ ∃ cache' invocation,
      prepareCall c.store cache c.cobj c.fnName c.params = (cache', .ok invocation) ∧
      invocation.atypes = (cache.lookup c.key).getD c.types ∧
      ∀ k, cache'.lookup k = if k = c.key then some invocation.atypes else cache.lookup k) ∨
    (c.accepted = false ∧ ∃ err,
      prepareCall c.store cache c.cobj c.fnName c.params = (cache, .error err)) := by
  unfold prepareCall CobjectCall.accepted
  by_cases hnull : c.cobj = 0
  · exact .inr ⟨by simp [hnull], _, if_pos hnull⟩
  · rw [if_neg hnull]
    cases hfn : rpcStructGetFunction c.store c.cobj c.fnName with
    | none => exact .inr ⟨by simp, _, rfl⟩
    | some fn =>
      cases hproto : protoEquals c.store (fn.prototype.getD []) c.params with
      | false => exact .inr ⟨by simp [hproto], .prototypeDifferent, by simp [hproto]⟩
      | true =>
        obtain ⟨cache', hcached, hlookup⟩ := cachedVector_spec cache c.key c.store c.params
        refine .inl ⟨by simp [hnull, hproto], cache',
          invocation c.store fn ((cache.lookup c.key).getD c.types) c.params, ?_, rfl, hlookup⟩
        simp only [hproto, if_true]
        rw [show cacheKey (rpcStructIdGet c.store c.cobj) c.fnName = c.key from rfl, hcached]
        rfl

theorem resident_other {cache' : Protocache} {key : CStr}
    (hcache : cache'.lookup key = cache.lookup key) (hc : ¬ (c.accepted = true ∧ c.key = key)) :
    resident cache (c :: cs) key = resident cache' cs key := by
  have hfirst : firstCall (c :: cs) key = firstCall cs key := by
    rw [firstCall, List.find?_cons_of_neg]
    · rfl
    · simpa using hc
  rw [resident, resident, hcache, hfirst]

/-- What the cache serves a sequence of calls with. -/
theorem runCalls_iff (cs : List CobjectCall) (cache : Protocache) :
    (∀ o ∈ runCalls cache cs, o.1.Serves o.2) ↔
      ∀ c ∈ cs, c.accepted = true → ∀ vector, resident cache cs c.key = some vector →
        c.types <+: vector := by
  induction cs generalizing cache with
  | nil => exact ⟨nofun, nofun⟩
  | cons c cs ih =>
    rcases prepareCall_spec cache c with ⟨hacc, cache', invocation, hprep, hatypes, hlookup⟩ |
      ⟨hacc, err, hprep⟩
    · have hrun : runCalls cache (c :: cs) = (c, invocation.atypes) :: runCalls cache' cs := by
        rw [runCalls, hprep]
      have hown : ∀ l, resident cache (c :: l) c.key = some invocation.atypes := by
        intro l
        rw [resident, firstCall, List.find?_cons_of_pos (by simp [hacc]), hatypes]
        cases cache.lookup c.key <;> rfl
      have hrest : ∀ key, resident cache (c :: cs) key = resident cache' cs key := by
        intro key
        by_cases hkey : key = c.key
        · rw [hkey, hown, resident, hlookup, if_pos rfl]
          rfl
        · refine resident_other ?_ fun h => hkey h.2.symm
          rw [hlookup, if_neg hkey]
      rw [hrun, List.forall_mem_cons, List.forall_mem_cons, ih, CobjectCall.serves_iff, hown]
      simp only [hrest]
      refine and_congr ⟨fun h _ v hv => ?_, fun h => h hacc _ rfl⟩ Iff.rfl
      cases hv
      exact h
    · have hrun : runCalls cache (c :: cs) = runCalls cache cs := by rw [runCalls, hprep]
      have hrest : ∀ key, resident cache (c :: cs) key = resident cache cs key := by
        intro key
        refine resident_other rfl fun h => ?_
        rw [hacc] at h
        cases h.1
      rw [hrun, List.forall_mem_cons, ih]
      simp [hrest, hacc]

/-- From an empty cache each call is served its own vector exactly when it agrees
with the first call under its key. -/
theorem vectors_iff (calls : List CobjectCall) :
    (∀ o ∈ runCalls ∅ calls, o.1.Serves o.2) ↔ AgreeWithFirst calls := by
  rw [runCalls_iff, AgreeWithFirst]
  refine forall_congr' fun c => forall_congr' fun _ => forall_congr' fun _ => ?_
  rw [resident, show (∅ : Protocache).lookup c.key = none from rfl, Option.none_or]
  simp

/-- A function without parameters, called without any and then with one: libffi
reads a vector of no entries at its first. -/
theorem vector_stale : ∃ st : State, ∃ o ∈ runCalls ∅ [⟨st, 1, [102], 3⟩, ⟨st, 1, [102], 4⟩],
    o.2 = [] ∧ rpcStructLength o.1.store o.1.params = 1 ∧ ¬ o.1.Serves o.2 := by
  let object : RpcStruct := ⟨(∅ : Table CStr RpcTypeT).insert [102] (.function 2), [97], 0⟩
  let none : RpcStruct := ⟨∅, [98], 0⟩
  let one : RpcStruct := ⟨(∅ : Table CStr RpcTypeT).insert (decimal 0) (.number [5]), [99], 0⟩
  let heap : Table Addr Obj := ((((∅ : Table Addr Obj).insert 1 (.struct object)).insert 2
    (.function ⟨some [], 0, 16⟩)).insert 3 (.struct none)).insert 4 (.struct one)
  have hlen : rpcStructLength ⟨heap, ∅⟩ 4 = 1 := rfl
  have hrun : runCalls ∅ [⟨⟨heap, ∅⟩, 1, [102], 3⟩, ⟨⟨heap, ∅⟩, 1, [102], 4⟩] =
      [(⟨⟨heap, ∅⟩, 1, [102], 3⟩, []), (⟨⟨heap, ∅⟩, 1, [102], 4⟩, [])] := rfl
  refine ⟨⟨heap, ∅⟩, (⟨⟨heap, ∅⟩, 1, [102], 4⟩, []), ?_, rfl, hlen, fun h => ?_⟩
  · rw [hrun]
    exact List.mem_cons_of_mem _ List.mem_cons_self
  · exact absurd h.1 (by rw [hlen]; decide)

end

/-! ## The parameters -/

/-- The keys of a struct. -/
def rpcStructKeys (st : State) (S : Addr) : List CStr :=
  ((st.struct? S).map fun s => s.map.keys).getD []

/-- Every position enumerated is a typed parameter, so that no argument is void,
and every parameter is passed once. -/
structure AllPassed (st : State) (params : Addr) : Prop where
  typed : ∀ i < rpcStructLength st params, rpcStructTypeof st params (decimal i) ≠ .none
  void : FfiType.void ∉ buildVector st params
  once : ((List.range (rpcStructLength st params)).map decimal).Perm (rpcStructKeys st params)

/-- The parameters beyond the first `n` have the next positions as their keys, and
none of them is `RPC_none`. -/
def ExtrasFollow (st : State) (n : Nat) (params : Addr) : Prop :=
  ∀ key ∈ rpcStructKeys st params, (∀ i < n, key ≠ decimal i) →
    (∃ i, n ≤ i ∧ i < rpcStructLength st params ∧ key = decimal i) ∧
    rpcStructTypeof st params key ≠ .none

section
variable {st : State} {params : Addr} {sproto : List UInt32}

theorem length_rpcStructKeys : (rpcStructKeys st params).length = rpcStructLength st params := by
  unfold rpcStructKeys rpcStructLength
  cases st.struct? params <;> rfl

theorem nodup_rpcStructKeys : (rpcStructKeys st params).Nodup := by
  unfold rpcStructKeys
  cases st.struct? params with
  | none => exact List.nodup_nil
  | some s => exact s.map.keys_nodup

theorem void_mem_iff : FfiType.void ∈ buildVector st params ↔
    ∃ i < rpcStructLength st params, rpcStructTypeof st params (decimal i) = .none := by
  have hvoid : ∀ t, rpctypeToLibffi t = .void ↔ t = .none := by
    intro t
    cases t <;> decide
  simp [buildVector, hvoid]

theorem protoEquals_iff : protoEquals st sproto params = true ↔
    sproto.length ≤ rpcStructLength st params ∧
    ∀ i t, sproto[i]? = some t → (rpcStructTypeof st params (decimal i)).code = t := by
  unfold protoEquals
  split
  · rename_i hlt
    exact ⟨nofun, fun h => absurd h.1 (Nat.not_le_of_lt hlt)⟩
  · rename_i hge
    rw [List.all_eq_true]
    constructor
    · intro h
      refine ⟨Nat.le_of_not_lt hge, fun i t hi => ?_⟩
      exact beq_iff_eq.1 (h (t, i) (List.mem_zipIdx_iff_getElem?.2 hi))
    · intro h x hx
      exact beq_iff_eq.2 (h.2 x.2 x.1 (List.mem_zipIdx_iff_getElem?.1 hx))

/-- What `proto_equals` accepts is passed whole exactly when the extra parameters
have the next positions as their keys. -/
theorem allPassed_iff (hsupported : ∀ t ∈ sproto, t ≠ RpcTypes.none.code)
    (h : protoEquals st sproto params = true) :
    AllPassed st params ↔ ExtrasFollow st sproto.length params := by
  obtain ⟨hlen, hproto⟩ := protoEquals_iff.1 h
  have hfirst : ∀ i < sproto.length, rpcStructTypeof st params (decimal i) ≠ .none := by
    intro i hi hnone
    have hcode := hproto i _ (List.getElem?_eq_getElem hi)
    rw [hnone] at hcode
    exact hsupported _ (List.getElem_mem hi) hcode.symm
  constructor
  · intro hall key hkey hextra
    obtain ⟨i, hi, rfl⟩ := List.mem_map.1 (hall.once.mem_iff.2 hkey)
    rw [List.mem_range] at hi
    exact ⟨⟨i, Nat.le_of_not_lt fun hlt => hextra i hlt rfl, hi, rfl⟩, hall.typed i hi⟩
  · intro hextra
    have hsub : rpcStructKeys st params ⊆
        (List.range (rpcStructLength st params)).map decimal := by
      intro key hkey
      by_cases hpos : ∀ i < sproto.length, key ≠ decimal i
      · obtain ⟨⟨i, -, hi, rfl⟩, -⟩ := hextra key hkey hpos
        exact List.mem_map_of_mem (List.mem_range.2 hi)
      · push Not at hpos
        obtain ⟨i, hi, rfl⟩ := hpos
        exact List.mem_map_of_mem (List.mem_range.2 (by omega))
    -- as many distinct keys as positions: each position is a key
    have honce : ((List.range (rpcStructLength st params)).map decimal).Perm
        (rpcStructKeys st params) := by
      refine ((List.subperm_of_subset nodup_rpcStructKeys hsub).perm_of_length_le ?_).symm
      rw [length_rpcStructKeys, List.length_map, List.length_range]
    have htyped : ∀ i < rpcStructLength st params,
        rpcStructTypeof st params (decimal i) ≠ .none := by
      intro i hi
      by_cases hin : i < sproto.length
      · exact hfirst i hin
      · have hkey := honce.mem_iff.1 (List.mem_map_of_mem (List.mem_range.2 hi))
        refine (hextra _ hkey fun j hj heq => ?_).2
        rw [decimal_injective heq] at hin
        exact hin hj
    refine ⟨htyped, fun hv => ?_, honce⟩
    obtain ⟨i, hi, hnone⟩ := void_mem_iff.1 hv
    exact htyped i hi hnone

/-- A function of one number called with a second one under the next position. -/
theorem allPassed_iff_two : ∃ st params, rpcStructDeserialize .bump .empty (some (.obj [
      (ascii "ID", .str [97]), (ascii "type", .str (ascii "RPC_struct")),
      (ascii "serialised", .obj [(decimal 0, .int 5), (decimal 1, .int 6)])])) =
        .ok (st, params) ∧ rpcStructLength st params = 2 ∧ AllPassed st params := by
  obtain ⟨st, params, hdec, hlen, hproto, hkeys, htype⟩ : ∃ st params,
      rpcStructDeserialize .bump .empty (some (.obj [(ascii "ID", .str [97]),
        (ascii "type", .str (ascii "RPC_struct")),
        (ascii "serialised", .obj [(decimal 0, .int 5), (decimal 1, .int 6)])])) =
          .ok (st, params) ∧ rpcStructLength st params = 2 ∧
      protoEquals st [RpcTypes.number.code] params = true ∧
      rpcStructKeys st params = [decimal 1, decimal 0] ∧
      rpcStructTypeof st params (decimal 1) = .number := ⟨_, _, rfl, rfl, rfl, rfl, rfl⟩
  refine ⟨st, params, hdec, hlen, (allPassed_iff (by simp [RpcTypes.code]) hproto).2 ?_⟩
  intro key hkey hextra
  have hone : key = decimal 1 := by
    rw [hkeys] at hkey
    rcases List.mem_cons.1 hkey with rfl | hkey
    · rfl
    · exact absurd (List.mem_singleton.1 hkey) (hextra 0 Nat.one_pos)
  subst hone
  refine ⟨⟨1, Nat.le_refl 1, ?_, rfl⟩, ?_⟩
  · rw [hlen]
    decide
  · rw [htype]
    decide

/-- A request of a remote client for a function of one number, with a second
parameter `x`: `proto_equals` accepts, and position 1 is void. -/
theorem extra_void : ∃ st params, rpcStructDeserialize .bump .empty (some (.obj [
      (ascii "ID", .str [97]), (ascii "type", .str (ascii "RPC_struct")),
      (ascii "serialised", .obj [(decimal 0, .int 5), ([120], .int 6)])])) = .ok (st, params) ∧
    protoEquals st [RpcTypes.number.code] params = true ∧
    buildVector st params = [.uint64, .void] ∧ ¬ AllPassed st params := by
  obtain ⟨st, params, hdec, hproto, hvec⟩ : ∃ st params, rpcStructDeserialize .bump .empty
      (some (.obj [(ascii "ID", .str [97]), (ascii "type", .str (ascii "RPC_struct")),
        (ascii "serialised", .obj [(decimal 0, .int 5), ([120], .int 6)])])) = .ok (st, params) ∧
      protoEquals st [RpcTypes.number.code] params = true ∧
      buildVector st params = [.uint64, .void] := ⟨_, _, rfl, rfl, rfl⟩
  refine ⟨st, params, hdec, hproto, hvec, fun h => h.void ?_⟩
  rw [hvec]
  decide

end

end FfiRpc
