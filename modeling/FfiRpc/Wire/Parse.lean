import FfiRpc.Store.Callbacks
import FfiRpc.Store.Runs
import FfiRpc.Store.Temp
import FfiRpc.Wire.Content
import FfiRpc.Wire.Decode

/-!
# Filling a struct from a document

The parts of the decoder that put something into a struct. `Grown` is what one
insertion does; `ItemParsed` adds the content of the item, and is the step of
the two loops that fill a struct, over the fields of `serialised` and over the
items of an array (`parseFields_spec`). The loop over `duplicates` gives each
alias what its original holds (`relink_loop`).

`SafeStruct` are the documents on which the whole succeeds: on others a string
function is handed `NULL`, or the ID overruns its field.
-/
namespace FfiRpc

open State

/-! ## Documents the decoder survives -/

mutual
/-- The ID fits its field, and so does every field that is looked at. -/
inductive SafeStruct : Json → Prop
  | mk {j} : (∀ v, j.get (ascii "ID") = some v → ∃ s, v = .str s ∧ s.length ≤ 65) →
      (∀ v, j.get (ascii "type") = some v → ∃ s, v = .str s) →
      (∀ data, j.get (ascii "type") = some (.str (ascii "RPC_struct")) →
        j.get (ascii "serialised") = some data → ∀ f ∈ data.fields, SafeItem f.2) →
      SafeStruct j
inductive SafeItem : Json → Prop
  | int {i} : SafeItem (.int i)
  | real {bits} : SafeItem (.real bits)
  | str {s} : SafeItem (.str s)
  | bool {b} : SafeItem (.bool b)
  | null : SafeItem .null
  | obj {fs t} : Json.typeName (.obj fs) = some t →
      (t = ascii "RPC_struct" → SafeStruct (.obj fs)) → SafeItem (.obj fs)
  | arr {l} : (∀ item ∈ l, SafeItem item) → SafeItem (.arr l)
end

/-! ## One insertion -/

/-- The tracker invariant, with whatever surplus there is, and whatever callbacks off. -/
def Counted (st : State) : Prop := Inv st.silent st.surplus ∅ ∅ st

theorem Inv.counted {off : Finset Addr} {extra : Addr → Nat} {st : State}
    (h : Inv off extra ∅ ∅ st) : Counted st := h.silent

/-- Addresses with no object. -/
def State.dead (st : State) : Set Addr := {a | st.heap.lookup a = none}

theorem Keeps.dead {st st' : State} (h : Keeps ∅ st st') : st'.dead ⊆ st.dead := by
  intro a ha
  cases hl : st.heap.lookup a with
  | none => exact hl
  | some o =>
    obtain ⟨o', ho', -⟩ := h a o (Set.notMem_empty a) hl
    rw [show st'.heap.lookup a = none from ha] at ho'; cases ho'

/-- At most the entry of `S` under `k` is new. -/
structure Grown (S : Addr) (k : CStr) (st st' : State) : Prop where
  counted : Counted st'
  keeps : Keeps {S} st st'
  struct : ∀ s, st.struct? S = some s → ∃ s', st'.struct? S = some s' ∧ s'.ID = s.ID ∧
    ∀ k', k' ≠ k → s'.map.lookup k' = s.map.lookup k'

section Insert
variable {E : Env} {st : State} {S : Addr} {k : CStr} {s : RpcStruct}

theorem Grown.refl (h : Counted st) (S : Addr) (k : CStr) : Grown S k st st :=
  ⟨h, .refl {S} st, fun s hs => ⟨s, hs, rfl, fun _ _ => rfl⟩⟩

theorem Grown.of_keeps {st1 st' : State} (hk : Keeps ∅ st st1) (h : Grown S k st1 st') :
    Grown S k st st' := by
  refine ⟨h.counted, (hk.mono (Set.empty_subset _)).trans h.keeps, fun s hs => ?_⟩
  obtain ⟨s1, hs1, hid, hmap⟩ := hk.struct (Set.notMem_empty S) hs
  obtain ⟨s', hs', hid', hmap'⟩ := h.struct s1 hs1
  exact ⟨s', hs', hid'.trans hid, fun k' hk' => (hmap' k' hk').trans (hmap k')⟩

/-- `rpc_struct_set_internal` on any element of a live object. -/
theorem setInternal_spec (h : Counted st) (hs : st.struct? S = some s) {e : RpcTypeT}
    (htgt : ∀ p, e.target = some p → p ≠ 0 → ∃ o, st.heap.lookup p = some o ∧ o.type = e.type) :
    ∃ st', Prod.fst <$> rpcStructSetInternal E st S k e = .ok st' ∧ Grown S k st st' ∧
      (s.map.lookup k = none → (rpcIsPointer e.type = true → e.ptrValue ≠ 0) →
        ∃ s', st'.struct? S = some s' ∧ s'.map.lookup k = some (strdupElement E st e)) := by
  by_cases hnn : rpcIsPointer e.type = true → e.ptrValue ≠ 0
  · cases hk : s.map.lookup k with
    | some e' =>
      exact ⟨st, by simp [rpcStructSetInternal, hs, hk], .refl h S k, fun hc => by cases hc⟩
    | none =>
      have hinv := set_spec (E := E) h hs hk (fun p hp => by
        obtain ⟨hptr, hval⟩ := rpcIsPointer_of_target hp
        exact htgt p hp (hval ▸ hnn hptr)) (fun p hp => surplus_untracked hp)
        fun p hp _ => by
          obtain ⟨r, hr, -⟩ := mem_silent.1 hp
          exact ⟨r, hr⟩
      refine ⟨_, by rw [setInternal_fresh hs hk hnn]; rfl, ⟨hinv.counted, ?_, ?_⟩, fun _ _ => ?_⟩
      · intro a o ha ho
        refine ⟨o, ?_, Obj.less_refl fun _ => not_false⟩
        have hne : a ≠ S := ha
        rw [lookup_setObj, if_neg hne, heap_trackElement, ho]
      · intro s1 hs1
        rw [hs] at hs1
        cases hs1
        refine ⟨{ s with map := s.map.insert k (strdupElement E st e) }, by
          rw [struct?_setObj_struct, if_pos rfl], rfl, fun k' hk' => ?_⟩
        rw [Table.lookup_insert_if, if_neg hk']
      · refine ⟨{ s with map := s.map.insert k (strdupElement E st e) }, by
          rw [struct?_setObj_struct, if_pos rfl], ?_⟩
        rw [Table.lookup_insert_if, if_pos rfl]
  · have hnull := Classical.not_imp.1 hnn
    rw [not_not] at hnull
    exact ⟨st, by simp [rpcStructSetInternal, hs, hnull.1, hnull.2], .refl h S k,
      fun _ hnn' => absurd hnn' hnn⟩

end Insert

/-! ## Content -/

/-- Serialisation wrote `j`. -/
def Written (j : Json) : Prop := ∃ st A e, RepItem st A False e j

theorem RpcTypeT.SameValue.symm {e e' : RpcTypeT} (h : e.SameValue e') : e'.SameValue e := by
  cases e <;> cases e' <;> cases h <;> rfl

/-! ## One item -/

/-- A value for `item`, computed in state `st`. -/
structure Valued (st : State) (item : Json) (r : State × RpcTypeT) : Prop where
  counted : Counted r.1
  keeps : Keeps ∅ st r.1
  target : ∀ p, r.2.target = some p → p ≠ 0 → ∃ o, r.1.heap.lookup p = some o ∧ o.type = r.2.type
  content : Written item → (rpcIsPointer r.2.type = true → r.2.ptrValue ≠ 0) ∧
    RepItem r.1 st.dead True r.2 item

/-- `item` was parsed into `S` under a free `key`. -/
structure ItemParsed (S : Addr) (key : CStr) (item : Json) (st st' : State) : Prop where
  grown : Grown S key st st'
  content : Written item → ∃ s' e, st'.struct? S = some s' ∧ s'.map.lookup key = some e ∧
    RepItem st' st.dead True e item

theorem setWith_spec {E : Env} {st : State} {S : Addr} {key : CStr} {item : Json} {s : RpcStruct}
    {P : Prop} {value : State → Except Fault (State × RpcTypeT)} (hs : st.struct? S = some s)
    (hkey : s.map.lookup key = none) (hvalue : SucceedsIff P (value st) (Valued st item)) :
    SucceedsIff P (setWith E st S key value) (ItemParsed S key item st) := by
  have hfree : ¬ rpcStructExists st S key = true := by
    rw [rpcStructExists, rpcStructGetInternal, entry_of_struct hs, hkey]
    decide
  rw [setWith, if_neg hfree]
  refine hvalue.bind_ok fun r hr => ?_
  obtain ⟨s1, hs1, -, hmap1⟩ := hr.keeps.struct (Set.notMem_empty S) hs
  obtain ⟨st', hok, hgrown, hset⟩ := setInternal_spec (E := E) (k := key) hr.counted hs1 hr.target
  refine ⟨st', hok, hgrown.of_keeps hr.keeps, fun hw => ?_⟩
  obtain ⟨hnn, hrep⟩ := hr.content hw
  obtain ⟨s', hs', he⟩ := hset (by rw [hmap1, hkey]) hnn
  have hS : S ∉ st.dead := fun hd => by
    have hl := struct?_eq_some.1 hs
    rw [show st.heap.lookup S = none from hd] at hl; cases hl
  exact ⟨s', _, hs', he, (hrep.later hgrown.keeps hS subset_rfl).congr_value
    (sameValue_strdupElement r.2).symm⟩

/-! ## Leaves -/

section Leaves
variable {E : Env} {st : State} {item : Json}

theorem create_counted (E : Env) (h : Counted st) {o : Obj} (ho : ∀ s, o = .struct s → s.map = ∅) :
    Counted (st.setObj (E.malloc st) o) ∧ Keeps ∅ st (st.setObj (E.malloc st) o) := by
  refine ⟨(create_inv E h ho).counted, fun a x _ hx => ⟨x, ?_, Obj.less_refl fun _ => not_false⟩⟩
  rw [lookup_setObj, if_neg]
  · exact hx
  · intro ha
    rw [ha, malloc_dead] at hx; cases hx

/-- A value with no object of its own. -/
theorem Valued.plain (h : Counted st) {e : RpcTypeT} (ht : e.target = none)
    (hnn : rpcIsPointer e.type = true → e.ptrValue ≠ 0)
    (hrep : RepItem st st.dead True e item) : Valued st item (st, e) :=
  ⟨h, .refl ∅ st, fun p hp => (Option.some_ne_none p (hp.symm.trans ht)).elim,
    fun _ => ⟨hnn, hrep⟩⟩

theorem number_decoded (st : State) (A : Set Addr) (i : BitVec 64) :
    RepItem st A True (.number (toLE 8 i.toNat)) (.int i) := by
  have hread : ofLE (toLE 8 i.toNat) = i.toNat := ofLE_toLE i.isLt
  have hlen : (toLE 8 i.toNat).length ∈ [1, 2, 4, 8] := by
    rw [length_toLE]
    decide
  have h : RepItem st A True (.number (toLE 8 i.toNat)) _ := .number hlen
  rw [hread, BitVec.ofNat_toNat, BitVec.setWidth_eq] at h
  exact h

/-- The sizedbuf a document describes. -/
def Json.toSizedbuf (json : Json) : RpcSizedbuf :=
  ⟨(items (json.get (ascii "serialised"))).map fun c => ⟨(integerValue (some c)).setWidth 8⟩⟩

/-- The function a document describes. -/
def Json.toFunction (json : Json) : RpcFunction where
  prototype := (json.get (ascii "prototype")).map fun array =>
    (items (some array)).map fun t => ⟨(integerValue (some t)).setWidth 32⟩
  returnType := ⟨(integerValue (json.get (ascii "return_type"))).setWidth 32⟩
  fnptr := 0

theorem toSizedbuf_serialize (b : RpcSizedbuf) : (rpcSizedbufSerialize b).toSizedbuf = b := by
  obtain ⟨buf⟩ := b
  have hitems : Json.items ((rpcSizedbufSerialize ⟨buf⟩).get (ascii "serialised")) =
      buf.map fun c => .int (c.toBitVec.signExtend 64) := rfl
  rw [Json.toSizedbuf, hitems, List.map_map]
  congr 1
  refine (List.map_congr_left fun c _ => ?_).trans (List.map_id buf)
  exact congrArg UInt8.ofBitVec (setWidth_signExtend_char c.toBitVec)

theorem toFunction_serialize (f : RpcFunction) :
    rpcFunctionSerialize (rpcFunctionSerialize f).toFunction = rpcFunctionSerialize f := by
  obtain ⟨p, r, a⟩ := f
  have hword : ∀ t : UInt32, (⟨(t.toBitVec.setWidth 64).setWidth 32⟩ : UInt32) = t := fun t =>
    congrArg UInt32.ofBitVec (setWidth_setWidth_enum t.toBitVec)
  -- an empty prototype is not written, and read back as none
  have hfn : (rpcFunctionSerialize ⟨p, r, a⟩).toFunction = ⟨if p = some [] then none else p, r, 0⟩ := by
    have hret : (rpcFunctionSerialize ⟨p, r, a⟩).toFunction.returnType = r := hword r
    have hproto : (rpcFunctionSerialize ⟨p, r, a⟩).toFunction.prototype =
        if p = some [] then none else p := by
      rcases p with _ | _ | ⟨x, l⟩
      · rfl
      · rfl
      · have hmap : (x :: l).map (fun t => (⟨(t.toBitVec.setWidth 64).setWidth 32⟩ : UInt32)) =
            x :: l := (List.map_congr_left fun t _ => hword t).trans (List.map_id _)
        exact (congrArg some List.map_map).trans (congrArg some hmap)
    rw [← hproto]
    exact congrArg (RpcFunction.mk _ · 0) hret
  rw [hfn]
  rcases p with _ | _ | ⟨x, l⟩ <;> rfl

/-- A written document says what kind of element it is. -/
theorem Written.sizedbuf (h : Written item) (hty : item.typeName = some (ascii "RPC_sizedbuf")) :
    ∃ b, item = rpcSizedbufSerialize b := by
  obtain ⟨_, _, _, h⟩ := h
  cases h with
  | sizedbuf => exact ⟨_, rfl⟩
  | function =>
    rw [typeName_function] at hty
    exact absurd hty (by decide)
  | struct =>
    rw [typeName_struct] at hty
    exact absurd hty (by decide)
  | _ => cases hty

theorem Written.function (h : Written item) (hty : item.typeName = some (ascii "RPC_function")) :
    ∃ f, item = rpcFunctionSerialize f := by
  obtain ⟨_, _, _, h⟩ := h
  cases h with
  | function => exact ⟨_, rfl⟩
  | sizedbuf =>
    rw [typeName_sizedbuf] at hty
    exact absurd hty (by decide)
  | struct =>
    rw [typeName_struct] at hty
    exact absurd hty (by decide)
  | _ => cases hty

theorem sizedbufDeserialize_eq (hty : item.typeName = some (ascii "RPC_sizedbuf")) :
    rpcSizedbufDeserialize E st item =
      .ok (st.setObj (E.malloc st) (.sizedbuf item.toSizedbuf), E.malloc st) := by
  unfold rpcSizedbufDeserialize
  cases hget : item.get (ascii "type") with
  | none =>
    rw [Json.typeName, hget] at hty; cases hty
  | some type =>
    rw [Json.typeName, hget] at hty
    simp only [rpcSizedbufCreate, hty, if_true]
    rfl

theorem functionDeserialize_eq (hty : item.typeName = some (ascii "RPC_function")) :
    rpcFunctionDeserialize E st item =
      .ok (st.setObj (E.malloc st) (.function item.toFunction), E.malloc st) := by
  rw [Json.typeName] at hty
  simp only [rpcFunctionDeserialize, rpcFunctionCreate, if_pos hty, State.setObj,
    AList.insert_insert]
  rfl

theorem sizedbuf_valued (h : Counted st) (hty : item.typeName = some (ascii "RPC_sizedbuf")) :
    ∃ r, rpcSizedbufDeserialize E st item = .ok r ∧ Valued st item (r.1, .sizedbuf r.2) := by
  obtain ⟨hc, hk⟩ := create_counted E h (o := .sizedbuf item.toSizedbuf) nofun
  have hlive : (st.setObj (E.malloc st) (.sizedbuf item.toSizedbuf)).heap.lookup (E.malloc st) =
      some (.sizedbuf item.toSizedbuf) := by rw [lookup_setObj, if_pos rfl]
  refine ⟨_, sizedbufDeserialize_eq hty, hc, hk, fun p hp _ => ?_,
    fun hw => ⟨fun _ => malloc_ne_zero E st, ?_⟩⟩
  · cases hp
    exact ⟨_, hlive, rfl⟩
  · obtain ⟨b, rfl⟩ := hw.sizedbuf hty
    rw [toSizedbuf_serialize] at hlive ⊢
    exact .sizedbuf (malloc_dead E st) hlive

theorem function_valued (h : Counted st) (hty : item.typeName = some (ascii "RPC_function")) :
    ∃ r, rpcFunctionDeserialize E st item = .ok r ∧ Valued st item (r.1, .function r.2) := by
  obtain ⟨hc, hk⟩ := create_counted E h (o := .function item.toFunction) nofun
  have hlive : (st.setObj (E.malloc st) (.function item.toFunction)).heap.lookup (E.malloc st) =
      some (.function item.toFunction) := by rw [lookup_setObj, if_pos rfl]
  refine ⟨_, functionDeserialize_eq hty, hc, hk, fun p hp _ => ?_,
    fun hw => ⟨fun _ => malloc_ne_zero E st, ?_⟩⟩
  · cases hp
    exact ⟨_, hlive, rfl⟩
  · obtain ⟨f, rfl⟩ := hw.function hty
    have hrep : RepItem _ st.dead True _ _ := .function (malloc_dead E st) hlive fun _ => rfl
    rwa [toFunction_serialize] at hrep

end Leaves

/-! ## Loops that fill a struct -/

theorem notMem_dead {st : State} {S : Addr} {s : RpcStruct} (hs : st.struct? S = some s) :
    S ∉ st.dead := by
  intro hd
  have hl := struct?_eq_some.1 hs
  rw [show st.heap.lookup S = none from hd] at hl; cases hl

theorem Keeps.dead_of_live {S : Addr} {st st' : State} (h : Keeps {S} st st') {s : RpcStruct}
    (hs : st'.struct? S = some s) : st'.dead ⊆ st.dead := by
  intro a ha
  cases hl : st.heap.lookup a with
  | none => exact hl
  | some o =>
    have hne : a ∉ ({S} : Set Addr) := fun hc =>
      notMem_dead hs (by rwa [← Set.mem_singleton_iff.1 hc])
    obtain ⟨o', ho', -⟩ := h a o hne hl
    rw [show st'.heap.lookup a = none from ha] at ho'; cases ho'

/-- The fields `done` were parsed into `S`, empty at first; `s` is `S` now. -/
structure Filled (S : Addr) (id : List UInt8) (st : State) (done : List (CStr × Json)) (st' : State)
    (s : RpcStruct) : Prop where
  counted : Counted st'
  keeps : Keeps {S} st st'
  struct : st'.struct? S = some s
  idSame : s.ID = id
  free : ∀ k, k ∉ done.map Prod.fst → s.map.lookup k = none
  content : ∀ f ∈ done, Written f.2 → ∃ e, s.map.lookup f.1 = some e ∧
    RepItem st' st.dead True e f.2
  apart : ∀ f ∈ done, ∀ f' ∈ done, Written f.2 → Written f'.2 → ∀ e e' p,
    s.map.lookup f.1 = some e → s.map.lookup f'.1 = some e' → e.target = some p →
    e'.target = some p → f.1 = f'.1

theorem Filled.step {S : Addr} {id : List UInt8} {st st' st'' : State} {done : List (CStr × Json)}
    {s : RpcStruct} {f : CStr × Json} (hlive : S ∉ st.dead) (h : Filled S id st done st' s)
    (hnew : f.1 ∉ done.map Prod.fst) (hp : ItemParsed S f.1 f.2 st' st'') :
    ∃ s', Filled S id st (f :: done) st'' s' := by
  obtain ⟨s', hs', hid', hmap'⟩ := hp.grown.struct s h.struct
  have hne : ∀ f' ∈ done, f'.1 ≠ f.1 := fun f' hf' heq =>
    hnew (List.mem_map.2 ⟨f', hf', heq⟩)
  have hold : ∀ f' ∈ done, s'.map.lookup f'.1 = s.map.lookup f'.1 := fun f' hf' =>
    hmap' f'.1 (hne f' hf')
  -- the new element, on addresses that were free before this step
  have hitem : ∀ e, Written f.2 → s'.map.lookup f.1 = some e → RepItem st'' st'.dead True e f.2 := by
    intro e hw he
    obtain ⟨s1, e1, hs1, he1, hrep⟩ := hp.content hw
    rw [hs'] at hs1
    cases hs1
    rw [he] at he1
    cases he1
    exact hrep
  have happart : ∀ f' ∈ done, Written f.2 → Written f'.2 → ∀ e e' p, s'.map.lookup f.1 = some e →
      s'.map.lookup f'.1 = some e' → e.target = some p → e'.target ≠ some p := by
    intro f' hf' hw hw' e e' p he he' ht ht'
    obtain ⟨e1, he1, hrep'⟩ := h.content f' hf' hw'
    rw [hold f' hf', he1] at he'
    cases he'
    obtain ⟨hdead, -⟩ := (hitem e hw he).target_live ht
    obtain ⟨-, o, ho, -⟩ := hrep'.target_live ht'
    rw [show st'.heap.lookup p = none from hdead] at ho; cases ho
  refine ⟨s', hp.grown.counted, h.keeps.trans hp.grown.keeps, hs', hid'.trans h.idSame, ?_, ?_, ?_⟩
  · intro k hk
    rw [List.map_cons, List.mem_cons, not_or] at hk
    rw [hmap' k hk.1, h.free k hk.2]
  · intro f' hf' hw
    rcases List.mem_cons.1 hf' with hf' | hf'
    · subst hf'
      obtain ⟨s1, e, hs1, he, hrep⟩ := hp.content hw
      rw [hs'] at hs1
      cases hs1
      exact ⟨e, he, hrep.later (.refl {S} st'') (notMem_dead h.struct)
        (h.keeps.dead_of_live h.struct)⟩
    · obtain ⟨e, he, hrep⟩ := h.content f' hf' hw
      exact ⟨e, (hold f' hf').trans he, hrep.later hp.grown.keeps hlive subset_rfl⟩
  · intro f1 hf1 f2 hf2 hw1 hw2 e1 e2 p he1 he2 ht1 ht2
    rcases List.mem_cons.1 hf1 with h1 | h1 <;> rcases List.mem_cons.1 hf2 with h2 | h2
    · rw [h1, h2]
    · subst h1
      exact absurd ht2 (happart f2 h2 hw1 hw2 e1 e2 p he1 he2 ht1)
    · subst h2
      exact absurd ht1 (happart f1 h1 hw2 hw1 e2 e1 p he2 he1 ht2)
    · rw [hold f1 h1] at he1
      rw [hold f2 h2] at he2
      exact h.apart f1 h1 f2 h2 hw1 hw2 e1 e2 p he1 he2 ht1 ht2

theorem parseFields_spec (parse : State → CStr → Json → Except Fault State) {S : Addr} {st : State}
    {s : RpcStruct} (h : Counted st) (hs : st.struct? S = some s)
    (hempty : ∀ k, s.map.lookup k = none) {fs : List (CStr × Json)} (hnd : (fs.map Prod.fst).Nodup)
    (hparse : ∀ f ∈ fs, ∀ st s, Counted st → st.struct? S = some s → s.map.lookup f.1 = none →
      SucceedsIff (SafeItem f.2) (parse st f.1 f.2) (ItemParsed S f.1 f.2 st)) :
    SucceedsIff (∀ f ∈ fs, SafeItem f.2) (fs.foldlM (fun st f => parse st f.1 f.2) st)
      (fun st' => ∃ s', Filled S s.ID st fs.reverse st' s') := by
  have hloop := SucceedsIff.foldlM (f := fun st (f : CStr × Json) => parse st f.1 f.2) Prod.fst
    (fun f => SafeItem f.2) (fun done st' => ∃ s', Filled S s.ID st done st' s') fs [] st hnd
    (fun _ _ => List.not_mem_nil)
    ⟨s, h, .refl {S} st, hs, rfl, fun k _ => hempty k, nofun, nofun⟩
    (fun done st' f hf hnew hI => by
      obtain ⟨s', hfill⟩ := hI
      exact (hparse f hf st' s' hfill.counted hfill.struct (hfill.free f.1 hnew)).mono
        fun st'' hp => hfill.step (notMem_dead hs) hnew hp)
  rwa [List.append_nil] at hloop

/-! ## Aliases -/

/-- One entry of the table: the key gets what `original` holds, if anything. -/
theorem relink_spec {E : Env} {new : Addr} {st : State} {s : RpcStruct} (h : Counted st)
    (hs : st.struct? new = some s) (f : CStr × Json) :
    ∃ st', relink E new st f = .ok st' ∧ Grown new f.1 st st' ∧
      ∀ original e p, f.2 = .str original → s.map.lookup f.1 = none →
        s.map.lookup original = some e → e.target = some p →
        ∃ s', st'.struct? new = some s' ∧ s'.map.lookup f.1 = some e := by
  have htyped : ∀ k p, (rpcStructGetInternal st new k).target = some p →
      ∃ o, st.heap.lookup p = some o ∧ o.type = (rpcStructGetInternal st new k).type := by
    intro k p hp
    rw [rpcStructGetInternal] at hp ⊢
    cases he : st.entry new k with
    | none =>
      rw [he] at hp; cases hp
    | some e =>
      rw [he, Option.getD_some] at hp
      exact h.typed new k e p he hp (Set.notMem_empty p) (Finset.notMem_empty _)
  unfold relink
  cases hstr : Json.stringValue (some f.2) with
  | none =>
    obtain ⟨st', hok, hgrown, -⟩ := setInternal_spec (E := E) (k := f.1) h hs (e := .none) nofun
    refine ⟨st', hok, hgrown, fun original e p hf => ?_⟩
    rw [hf] at hstr; cases hstr
  | some original =>
    obtain ⟨st', hok, hgrown, hset⟩ := setInternal_spec (E := E) (k := f.1) h hs
      (e := rpcStructGetInternal st new original) fun p hp _ => htyped original p hp
    refine ⟨st', hok, hgrown, fun original' e p hf hfree he ht => ?_⟩
    rw [hf] at hstr
    cases hstr
    have hget : rpcStructGetInternal st new original = e := by
      rw [rpcStructGetInternal, entry_of_struct hs, he, Option.getD_some]
    obtain ⟨o, ho, -⟩ := htyped original p (by rw [hget, ht])
    have hp0 : p ≠ 0 := by
      intro h0
      rw [h0, h.null] at ho; cases ho
    rw [hget] at hset
    obtain ⟨s', hs', he'⟩ := hset hfree fun _ => by rwa [(rpcIsPointer_of_target ht).2]
    refine ⟨s', hs', he'.trans ?_⟩
    cases e <;> cases ht <;> rfl

theorem relink_loop {E : Env} {new : Addr} {st : State} {s : RpcStruct} (h : Counted st)
    (hs : st.struct? new = some s) {fs : List (CStr × Json)} (hnd : (fs.map Prod.fst).Nodup) :
    ∃ st', fs.foldlM (relink E new) st = .ok st' ∧ Counted st' ∧ Keeps {new} st st' ∧
      ∃ s', st'.struct? new = some s' ∧ s'.ID = s.ID ∧
        (∀ k, k ∉ fs.map Prod.fst → s'.map.lookup k = s.map.lookup k) ∧
        ∀ k original e p, (k, Json.str original) ∈ fs → s.map.lookup k = none →
          original ∉ fs.map Prod.fst → s.map.lookup original = some e → e.target = some p →
          s'.map.lookup k = some e := by
  let I : List (CStr × Json) → State → Prop := fun done st' =>
    (∀ f ∈ done, f ∈ fs) ∧ Counted st' ∧ Keeps {new} st st' ∧
      ∃ s', st'.struct? new = some s' ∧ s'.ID = s.ID ∧
        (∀ k, k ∉ done.map Prod.fst → s'.map.lookup k = s.map.lookup k) ∧
        ∀ k original e p, (k, Json.str original) ∈ done → s.map.lookup k = none →
          original ∉ fs.map Prod.fst → s.map.lookup original = some e → e.target = some p →
          s'.map.lookup k = some e
  have hloop := (SucceedsIff.foldlM (f := relink E new) Prod.fst (fun _ => True) I fs [] st hnd
    (fun _ _ => List.not_mem_nil)
    ⟨nofun, h, .refl {new} st, s, hs, rfl, fun _ _ => rfl, nofun⟩
    (fun done st' f hf hnew hI => by
      obtain ⟨hsub, hc, hk, s', hs', hid, hsame, hlink⟩ := hI
      obtain ⟨st'', hok, hgrown, hnewlink⟩ := relink_spec (E := E) hc hs' f
      obtain ⟨s'', hs'', hid'', hmap''⟩ := hgrown.struct s' hs'
      refine .ok trivial hok ⟨?_, hgrown.counted, hk.trans hgrown.keeps, s'', hs'',
        hid''.trans hid, fun k hk => ?_, fun k original e p hm hfree hor he ht => ?_⟩
      · intro g hg
        rcases List.mem_cons.1 hg with hg | hg
        · rw [hg]
          exact hf
        · exact hsub g hg
      · rw [List.map_cons, List.mem_cons, not_or] at hk
        rw [hmap'' k hk.1, hsame k hk.2]
      · have hor' : original ∉ done.map Prod.fst := by
          intro hm'
          obtain ⟨g, hg, hgo⟩ := List.mem_map.1 hm'
          exact hor (List.mem_map.2 ⟨g, hsub g hg, hgo⟩)
        rcases List.mem_cons.1 hm with hm | hm
        · subst hm
          obtain ⟨s1, hs1, he1⟩ := hnewlink original e p rfl (by rw [hsame k hnew, hfree])
            (by rw [hsame original hor', he]) ht
          rw [hs''] at hs1
          cases hs1
          exact he1
        · rw [hmap'' k fun hc => hnew (List.mem_map.2 ⟨_, hm, hc⟩)]
          exact hlink k original e p hm hfree hor he ht)).iff.2 fun _ _ => trivial
  obtain ⟨st', hok, -, hc, hk, s', hs', hid, hsame, hlink⟩ := hloop
  rw [List.append_nil] at hsame hlink
  refine ⟨st', hok, hc, hk, s', hs', hid, fun k hk => hsame k ?_, fun k original e p hm =>
    hlink k original e p (List.mem_reverse.2 hm)⟩
  rwa [List.map_reverse, List.mem_reverse]

end FfiRpc
