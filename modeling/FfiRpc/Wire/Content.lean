import FfiRpc.Store.Temp
import FfiRpc.Wire.Encode

/-!
# What a document says about an object

`RepItem st A dec e j`: the document `j` has the content of the element `e` in
state `st`. It is the one relation behind both directions: serialisation
establishes it for the struct it was given, deserialisation (`dec`) for the
struct it builds, and two structs that one document represents have the same
content (`RepItem.copied`). `A` are the objects involved.

`Fields` is the part about the keys: they are those of `serialised` and of
`duplicates`, besides `RPC_unknown` ones that only a sender has; a key of
`duplicates` holds what the key it names holds; two keys of `serialised` never
hold the same object.

`Alike` is what a receiver can rely on, in the terms of the API: integers by
what `rpc_struct_get` loads from them, nested structs recursively, aliases by
which keys share an object. `CopyItem` allows for the width of reals; where they are
all doubles it is `SameItem` (`CopyItem.same`).
-/
namespace FfiRpc

open State

/-- The fields of a serialised struct. -/
def structJson (id : CStr) (ser dup : List (CStr × Json)) : Json :=
  .obj [(ascii "ID", .str id), (ascii "type", .str (ascii "RPC_struct")),
    (ascii "serialised", .obj ser), (ascii "duplicates", .obj dup)]

structure Fields (dec : Prop) (s : RpcStruct) (ser dup : List (CStr × Json)) : Prop where
  serNodup : (ser.map Prod.fst).Nodup
  dupNodup : (dup.map Prod.fst).Nodup
  key : ∀ k item, ser.lookup k = some item → ∃ e, s.map.lookup k = some e
  aliased : ∀ k d, dup.lookup k = some d → ser.lookup k = none ∧
    ∃ orig item e p, d = .str orig ∧ ser.lookup orig = some item ∧
      s.map.lookup orig = some e ∧ s.map.lookup k = some e ∧ e.target = some p
  cover : ∀ k e, s.map.lookup k = some e → dec ∨ e.type ≠ .unknown →
    (∃ item, ser.lookup k = some item) ∨ ∃ d, dup.lookup k = some d
  apart : ∀ k k' item item' e e' p, ser.lookup k = some item → ser.lookup k' = some item' →
    s.map.lookup k = some e → s.map.lookup k' = some e' → e.target = some p →
    e'.target = some p → k = k'

inductive RepItem (st : State) (A : Set Addr) (dec : Prop) : RpcTypeT → Json → Prop
  | number {raw} : raw.length ∈ [1, 2, 4, 8] →
      RepItem st A dec (.number raw) (.int (BitVec.ofNat 64 (ofLE raw)))
  | real {raw bits} : (dec → raw = bits) → (¬ dec → serializeReal raw = some (.real bits)) →
      RepItem st A dec (.real raw) (.real bits)
  | string {q t} : RepItem st A dec (.string q t) (.str t)
  | sizedbuf {p b} : p ∈ A → st.heap.lookup p = some (.sizedbuf b) →
      RepItem st A dec (.sizedbuf p) (rpcSizedbufSerialize b)
  | function {p f} : p ∈ A → st.heap.lookup p = some (.function f) → (dec → f.fnptr = 0) →
      RepItem st A dec (.function p) (rpcFunctionSerialize f)
  | struct {S s id ser dup} : S ∈ A → st.struct? S = some s → s.ID = id ++ [0] →
      id.length = 64 → Fields dec s ser dup →
      (∀ k item e, ser.lookup k = some item → s.map.lookup k = some e → RepItem st A dec e item) →
      RepItem st A dec (.struct S) (structJson id ser dup)

theorem Fields.congr {dec : Prop} {s s' : RpcStruct} {ser dup : List (CStr × Json)}
    (h : Fields dec s ser dup) (hmap : ∀ k, s'.map.lookup k = s.map.lookup k) :
    Fields dec s' ser dup := by
  refine ⟨h.serNodup, h.dupNodup, ?_, ?_, ?_, ?_⟩ <;> simp only [hmap]
  · exact h.key
  · exact h.aliased
  · exact h.cover
  · exact h.apart

/-- Representation only depends on the content of the objects involved. -/
theorem RepItem.keep {st st' : State} {A A' : Set Addr} {dec : Prop} {e : RpcTypeT}
    {j : Json} (h : RepItem st A dec e j)
    (hA : ∀ a ∈ A, ∀ o, st.heap.lookup a = some o → a ∈ A' ∧
      ∃ o', st'.heap.lookup a = some o' ∧ o.Less (fun _ => False) o') : RepItem st' A' dec e j := by
  induction h with
  | number h => exact .number h
  | real hdec henc => exact .real hdec henc
  | string => exact .string
  | sizedbuf hp hb =>
    obtain ⟨hp', o', ho', hl⟩ := hA _ hp _ hb
    cases hl
    exact .sizedbuf hp' ho'
  | function hp hf hok =>
    obtain ⟨hp', o', ho', hl⟩ := hA _ hp _ hf
    cases hl
    exact .function hp' ho' hok
  | struct hS hs hid hlen hf _ ih =>
    obtain ⟨hS', o', ho', hl⟩ := hA _ hS _ (struct?_eq_some.1 hs)
    cases o' with
    | sizedbuf b => cases hl
    | function f => cases hl
    | struct s' =>
      have hmap : ∀ k, s'.map.lookup k = _ := fun k => (hl.2.2 k).2 not_false
      refine .struct hS' (struct?_eq_some.2 ho') (hl.1.trans hid) hlen (hf.congr hmap)
        fun k item e hk he => ?_
      rw [hmap] at he
      exact ih k item e hk he

section
variable {st : State} {A : Set Addr} {dec : Prop} {e : RpcTypeT} {j : Json}

/-- An element with the value of a represented one. -/
theorem RepItem.congr_value {e' : RpcTypeT} (h : RepItem st A dec e' j) (hv : e.SameValue e') :
    RepItem st A dec e j := by
  cases e <;> cases e' <;> cases hv <;> try exact h
  cases h
  exact .string

/-- The object of a represented element is one of those involved, and live. -/
theorem RepItem.target_live (h : RepItem st A dec e j) {p : Addr} (hp : e.target = some p) :
    p ∈ A ∧ ∃ o, st.heap.lookup p = some o ∧ o.type = e.type := by
  cases h with
  | number => cases hp
  | real => cases hp
  | string => cases hp
  | sizedbuf hA ho => cases hp; exact ⟨hA, _, ho, rfl⟩
  | function hA ho => cases hp; exact ⟨hA, _, ho, rfl⟩
  | struct hA hs => cases hp; exact ⟨hA, _, struct?_eq_some.1 hs, rfl⟩

/-- Later, and with other objects involved. -/
theorem RepItem.later {st' : State} {S : Addr} {A' : Set Addr} (h : RepItem st A dec e j)
    (hk : Keeps {S} st st') (hS : S ∉ A) (hA : A ⊆ A') : RepItem st' A' dec e j := by
  refine h.keep fun a ha o ho => ⟨hA ha, hk a o (fun hc => hS ?_) ho⟩
  rwa [← Set.mem_singleton_iff.1 hc]

end

/-! ## Equal content -/

/-- `rpc_struct_get` of a number into a zero-initialised variable of `n` bytes.
mirrors include/ffirpc/rpc_struct.h:297-299 (`rpc_struct_get`), the `memcpy` -/
def loadNumber (n : Nat) (raw : List UInt8) : List UInt8 :=
  raw.take n ++ List.replicate (n - raw.length) 0

/-- The element `e` of a sender in state `st`, and what a receiver in state
`st'` has in its place; `R` says what may become of a real. -/
inductive Alike (R : List UInt8 → List UInt8 → Prop) (st st' : State) : RpcTypeT → RpcTypeT → Prop
  | number {raw raw'} : (∀ n ∈ [1, 2, 4, 8], loadNumber n raw' = loadNumber n raw) →
      Alike R st st' (.number raw) (.number raw')
  | real {raw raw'} : R raw raw' → Alike R st st' (.real raw) (.real raw')
  | string {q q' t} : Alike R st st' (.string q t) (.string q' t)
  | sizedbuf {p p' b} : st.heap.lookup p = some (.sizedbuf b) →
      st'.heap.lookup p' = some (.sizedbuf b) → Alike R st st' (.sizedbuf p) (.sizedbuf p')
  | function {p p' f f'} : st.heap.lookup p = some (.function f) →
      st'.heap.lookup p' = some (.function f') → f'.returnType = f.returnType →
      f'.prototype.getD [] = f.prototype.getD [] → f'.fnptr = 0 →
      Alike R st st' (.function p) (.function p')
  | struct {S T s t} : st.struct? S = some s → st'.struct? T = some t → t.ID = s.ID →
      (∀ k, (∃ e', t.map.lookup k = some e') ↔
        ∃ e, s.map.lookup k = some e ∧ e.type ≠ .unknown) →
      (∀ k e e', s.map.lookup k = some e → t.map.lookup k = some e' → Alike R st st' e e') →
      (∀ k k' p p' q q', st.held S k = some p → st.held S k' = some p' →
        st'.held T k = some q → st'.held T k' = some q' → (p = p' ↔ q = q')) →
      Alike R st st' (.struct S) (.struct T)

/-- Reals are kept byte by byte. -/
abbrev SameItem : State → State → RpcTypeT → RpcTypeT → Prop := Alike Eq

/-- Reals may be of any width: those that are not doubles are widened. -/
abbrev CopyItem : State → State → RpcTypeT → RpcTypeT → Prop :=
  Alike fun raw bits => serializeReal raw = some (.real bits)

theorem load_of_int {raw : List UInt8} (h : raw.length ∈ [1, 2, 4, 8]) {n : Nat} (hn : n ≤ 8) :
    loadNumber n raw = (toLE 8 (BitVec.ofNat 64 (ofLE raw)).toNat).take n := by
  have hlen : raw.length ≤ 8 := by
    simp only [List.mem_cons, List.not_mem_nil, or_false] at h
    omega
  have hlt : ofLE raw < 2 ^ 64 := by
    have h1 := ofLE_lt raw
    have h2 : (256 : Nat) ^ raw.length ≤ 256 ^ 8 := Nat.pow_le_pow_right (by decide) hlen
    have h3 : (256 : Nat) ^ 8 = 2 ^ 64 := by decide
    omega
  obtain ⟨m, hm⟩ : ∃ m, 8 = raw.length + m := ⟨8 - raw.length, by omega⟩
  rw [BitVec.toNat_ofNat, Nat.mod_eq_of_lt hlt]
  conv_rhs => rw [hm, toLE_ofLE, List.take_append, List.take_replicate]
  rw [loadNumber]
  congr 2
  omega

theorem number_same {raw raw' : List UInt8} (h : raw.length ∈ [1, 2, 4, 8])
    (h' : raw'.length ∈ [1, 2, 4, 8])
    (heq : BitVec.ofNat 64 (ofLE raw) = BitVec.ofNat 64 (ofLE raw')) {n : Nat}
    (hn : n ∈ [1, 2, 4, 8]) : loadNumber n raw' = loadNumber n raw := by
  have hn8 : n ≤ 8 := by
    simp only [List.mem_cons, List.not_mem_nil, or_false] at hn
    omega
  rw [load_of_int h hn8, load_of_int h' hn8, heq]

@[simp] theorem setWidth_signExtend_char (c : BitVec 8) : (c.signExtend 64).setWidth 8 = c := by
  refine BitVec.eq_of_getLsbD_eq fun i hi => ?_
  rw [BitVec.getLsbD_setWidth, BitVec.getLsbD_signExtend]
  simp [hi, show i < 64 by omega]

@[simp] theorem setWidth_setWidth_enum (t : BitVec 32) : (t.setWidth 64).setWidth 32 = t := by
  refine BitVec.eq_of_getLsbD_eq fun i hi => ?_
  rw [BitVec.getLsbD_setWidth, BitVec.getLsbD_setWidth]
  simp [hi, show i < 64 by omega]

theorem sizedbuf_inj {b b' : RpcSizedbuf} (h : rpcSizedbufSerialize b = rpcSizedbufSerialize b') :
    b = b' := by
  have hinj : Function.Injective fun c : UInt8 => Json.int (c.toBitVec.signExtend 64) := by
    intro c c' hc
    have hc' : c.toBitVec.signExtend 64 = c'.toBitVec.signExtend 64 := Json.int.inj hc
    have := congrArg (BitVec.setWidth 8) hc'
    rw [setWidth_signExtend_char, setWidth_signExtend_char] at this
    exact UInt8.toBitVec_inj.1 this
  cases b
  cases b'
  simp only [rpcSizedbufSerialize, Json.obj.injEq, List.cons.injEq, Prod.mk.injEq, Json.arr.injEq,
    true_and, and_true] at h
  rw [List.map_injective_iff.2 hinj h]

theorem function_inj {f f' : RpcFunction} (h : rpcFunctionSerialize f = rpcFunctionSerialize f') :
    f'.returnType = f.returnType ∧ f'.prototype.getD [] = f.prototype.getD [] := by
  have hword : ∀ t t' : UInt32, t.toBitVec.setWidth 64 = t'.toBitVec.setWidth 64 → t = t' := by
    intro t t' ht
    have := congrArg (BitVec.setWidth 32) ht
    rw [setWidth_setWidth_enum, setWidth_setWidth_enum] at this
    exact UInt32.toBitVec_inj.1 this
  have hinj : Function.Injective fun t : UInt32 => Json.int (t.toBitVec.setWidth 64) :=
    fun t t' ht => hword t t' (Json.int.inj ht)
  obtain ⟨p, r, a⟩ := f
  obtain ⟨p', r', a'⟩ := f'
  simp only [rpcFunctionSerialize, List.cons_append, List.nil_append, Json.obj.injEq,
    List.cons.injEq, Prod.mk.injEq, Json.int.injEq, true_and] at h
  refine ⟨(hword _ _ h.1).symm, ?_⟩
  have hp := h.2
  rcases p with _ | _ | ⟨x, l⟩ <;> rcases p' with _ | _ | ⟨x', l'⟩ <;> try rfl
  all_goals try cases hp
  have hp' : [(ascii "prototype", Json.arr ((x :: l).map fun t => .int (t.toBitVec.setWidth 64)))] =
      [(ascii "prototype", Json.arr ((x' :: l').map fun t => .int (t.toBitVec.setWidth 64)))] := hp
  simp only [List.cons.injEq, Prod.mk.injEq, Json.arr.injEq, true_and, and_true] at hp'
  rw [Option.getD_some, Option.getD_some, List.map_injective_iff.2 hinj hp']

/-! ## One document, two structs -/

/-- The `type` a decoder reads off a document. -/
def Json.typeName (j : Json) : Option CStr := stringValue (j.get (ascii "type"))

@[simp] theorem typeName_sizedbuf (b : RpcSizedbuf) :
    (rpcSizedbufSerialize b).typeName = some (ascii "RPC_sizedbuf") := rfl

@[simp] theorem typeName_function (f : RpcFunction) :
    (rpcFunctionSerialize f).typeName = some (ascii "RPC_function") := rfl

@[simp] theorem typeName_struct (id : CStr) (ser dup : List (CStr × Json)) :
    (structJson id ser dup).typeName = some (ascii "RPC_struct") := rfl

section
variable {dec dec' : Prop} {s t : RpcStruct} {ser dup : List (CStr × Json)}

/-- The key of `serialised` under which the element of a covered key went. -/
theorem Fields.root (h : Fields dec s ser dup) {k : CStr}
    (hk : (∃ item, ser.lookup k = some item) ∨ ∃ d, dup.lookup k = some d) :
    ∃ r item, ser.lookup r = some item ∧ (r = k ∨ dup.lookup k = some (.str r)) := by
  rcases hk with ⟨item, hi⟩ | ⟨d, hd⟩
  · exact ⟨k, item, hi, .inl rfl⟩
  · obtain ⟨-, orig, item, e, p, rfl, hi, -⟩ := h.aliased k d hd
    exact ⟨orig, item, hi, .inr hd⟩

/-- A key holds what its root holds. -/
theorem Fields.lookup_root (h : Fields dec s ser dup) {k r : CStr}
    (hr : r = k ∨ dup.lookup k = some (.str r)) : s.map.lookup k = s.map.lookup r := by
  rcases hr with rfl | hd
  · rfl
  · obtain ⟨-, orig, item, e, p, hrfl, -, hor, hk, -⟩ := h.aliased k _ hd
    cases hrfl
    rw [hk, hor]

theorem Fields.covered (h : Fields dec s ser dup) {k : CStr}
    (hk : (∃ item, ser.lookup k = some item) ∨ ∃ d, dup.lookup k = some d) :
    ∃ e, s.map.lookup k = some e := by
  rcases hk with ⟨item, hi⟩ | ⟨d, hd⟩
  · exact h.key k item hi
  · obtain ⟨-, orig, item, e, p, -, -, -, he, -⟩ := h.aliased k d hd
    exact ⟨e, he⟩

/-- Two keys hold one object iff they have one root. -/
theorem Fields.shared_iff (h : Fields dec s ser dup) {k k' r r' : CStr} {item item' : Json}
    {e e' : RpcTypeT} {p p' : Addr} (hr : ser.lookup r = some item)
    (hr' : ser.lookup r' = some item') (hk : r = k ∨ dup.lookup k = some (.str r))
    (hk' : r' = k' ∨ dup.lookup k' = some (.str r')) (he : s.map.lookup k = some e)
    (he' : s.map.lookup k' = some e') (hp : e.target = some p) (hp' : e'.target = some p') :
    p = p' ↔ r = r' := by
  rw [h.lookup_root hk] at he
  rw [h.lookup_root hk'] at he'
  constructor
  · rintro rfl
    exact h.apart r r' item item' e e' p hr hr' he he' hp hp'
  · rintro rfl
    rw [he] at he'; cases he'
    rw [hp] at hp'; exact Option.some.inj hp'

end

theorem RepItem.known {st : State} {A : Set Addr} {dec : Prop} {e : RpcTypeT} {j : Json}
    (h : RepItem st A dec e j) : e.type ≠ .unknown := by
  cases h <;> nofun

/-- What a document says of the two elements it represents, one on either side. -/
theorem RepItem.copied {st st' : State} {A A' : Set Addr} {e e' : RpcTypeT} {j : Json}
    (h : RepItem st A False e j) (h' : RepItem st' A' True e' j) : CopyItem st st' e e' := by
  induction h generalizing e' with
  | number hlen =>
    generalize hj : Json.int _ = j at h'
    cases h' with
    | number hlen' => exact .number fun n hn => number_same hlen hlen' (Json.int.inj hj) hn
    | _ => cases hj
  | real _ henc =>
    cases h' with
    | real hdec _ =>
      cases hdec trivial
      exact .real (henc not_false)
  | string =>
    cases h' with
    | string => exact .string
  | sizedbuf hp hb =>
    generalize hj : rpcSizedbufSerialize _ = j at h'
    have hty := congrArg Json.typeName hj
    cases h' with
    | sizedbuf hp' hb' => cases sizedbuf_inj hj; exact .sizedbuf hb hb'
    | function =>
      rw [typeName_sizedbuf, typeName_function] at hty
      exact absurd hty (by decide)
    | struct =>
      rw [typeName_sizedbuf, typeName_struct] at hty
      exact absurd hty (by decide)
    | _ => cases hj
  | function hp hf =>
    generalize hj : rpcFunctionSerialize _ = j at h'
    have hty := congrArg Json.typeName hj
    cases h' with
    | function hp' hf' h0 =>
      obtain ⟨hret, hproto⟩ := function_inj hj
      exact .function hf hf' hret hproto (h0 trivial)
    | sizedbuf =>
      rw [typeName_function, typeName_sizedbuf] at hty
      exact absurd hty (by decide)
    | struct =>
      rw [typeName_function, typeName_struct] at hty
      exact absurd hty (by decide)
    | _ => cases hj
  | @struct S s id ser dup hS hs hid _ hf hown ih =>
    generalize hj : structJson _ _ _ = j at h'
    have hty := congrArg Json.typeName hj
    cases h' with
    | sizedbuf =>
      rw [typeName_struct, typeName_sizedbuf] at hty
      exact absurd hty (by decide)
    | function =>
      rw [typeName_struct, typeName_function] at hty
      exact absurd hty (by decide)
    | @struct T t id' ser' dup' hT ht hid' _ hf' hrec =>
      simp only [structJson, Json.obj.injEq, List.cons.injEq, Prod.mk.injEq, Json.str.injEq,
        true_and, and_true] at hj
      obtain ⟨rfl, rfl, rfl⟩ := hj
      have hcov : ∀ k e', t.map.lookup k = some e' →
          (∃ item, ser.lookup k = some item) ∨ ∃ d, dup.lookup k = some d := fun k e' he' =>
        hf'.cover k e' he' (.inl trivial)
      -- an element of `t` and the one it came from, through the root key
      have hitem : ∀ k e e', s.map.lookup k = some e → t.map.lookup k = some e' →
          ∃ r item, ser.lookup r = some item ∧ (r = k ∨ dup.lookup k = some (.str r)) ∧
            s.map.lookup r = some e ∧ t.map.lookup r = some e' := by
        intro k e e' he he'
        obtain ⟨r, item, hr, hk⟩ := hf.root (hcov k e' he')
        exact ⟨r, item, hr, hk, by rw [← hf.lookup_root hk, he], by
          rw [← hf'.lookup_root hk, he']⟩
      refine .struct hs ht (hid'.trans hid.symm) (fun k => ⟨fun hk => ?_, fun hk => ?_⟩)
        (fun k e e' he he' => ?_) (fun k k' p p' q q' hp hp' hq hq' => ?_)
      · obtain ⟨e', he'⟩ := hk
        obtain ⟨e, he⟩ := hf.covered (hcov k e' he')
        obtain ⟨r, item, hr, -, her, -⟩ := hitem k e e' he he'
        exact ⟨e, he, (hown r item e hr her).known⟩
      · obtain ⟨e, he, hty⟩ := hk
        exact hf'.covered (hf.cover k e he (.inr hty))
      · obtain ⟨r, item, hr, -, her, her'⟩ := hitem k e e' he he'
        exact ih r item e hr her (hrec r item e' hr her')
      · obtain ⟨e, he, hpe⟩ := held_eq_some.1 hp
        obtain ⟨e', he', hpe'⟩ := held_eq_some.1 hp'
        obtain ⟨g, hg, hqg⟩ := held_eq_some.1 hq
        obtain ⟨g', hg', hqg'⟩ := held_eq_some.1 hq'
        rw [entry_of_struct hs] at he he'
        rw [entry_of_struct ht] at hg hg'
        obtain ⟨r, item, hr, hk, -⟩ := hitem k e g he hg
        obtain ⟨r', item', hr', hk', -⟩ := hitem k' e' g' he' hg'
        rw [hf.shared_iff hr hr' hk hk' he he' hpe hpe',
          hf'.shared_iff hr hr' hk hk' hg hg' hqg hqg']
    | _ => cases hj

/-! ## What the content tells -/

section
variable {R : List UInt8 → List UInt8 → Prop} {st st' : State} {e e' : RpcTypeT} {S T : Addr}
  {k : CStr}

/-- What came of a struct has what came of an entry. -/
theorem Alike.entry (h : Alike R st st' (.struct S) (.struct T)) (he : st.entry S k = some e)
    (hne : e.type ≠ .unknown) : ∃ e', st'.entry T k = some e' ∧ Alike R st st' e e' := by
  cases h with
  | struct hs ht _ hkeys hitem _ =>
    rw [entry_of_struct hs] at he
    obtain ⟨e', he'⟩ := (hkeys k).2 ⟨e, he, hne⟩
    exact ⟨e', by rw [entry_of_struct ht, he'], hitem k e e' he he'⟩

theorem Alike.entry_of (h : Alike R st st' (.struct S) (.struct T)) (he : st'.entry T k = some e') :
    ∃ e, st.entry S k = some e := by
  cases h with
  | struct hs ht _ hkeys _ _ =>
    rw [entry_of_struct ht] at he
    obtain ⟨e, he, -⟩ := (hkeys k).1 ⟨e', he⟩
    exact ⟨e, by rw [entry_of_struct hs, he]⟩

/-- Two keys share an object on one side iff they do on the other. -/
theorem Alike.shared (h : Alike R st st' (.struct S) (.struct T)) {k' : CStr} {p p' q q' : Addr}
    (hp : st.held S k = some p) (hp' : st.held S k' = some p') (hq : st'.held T k = some q)
    (hq' : st'.held T k' = some q') : p = p' ↔ q = q' := by
  cases h with
  | struct _ _ _ _ _ hshared => exact hshared k k' p p' q q' hp hp' hq hq'

theorem Alike.type (h : Alike R st st' e e') : e'.type = e.type := by
  cases h <;> rfl

theorem Alike.of_struct (h : Alike R st st' (.struct S) e') : ∃ T, e' = .struct T := by
  cases h with
  | struct => exact ⟨_, rfl⟩

end

end FfiRpc
