import FfiRpc.Object.Call
import FfiRpc.Wire.Built
import FfiRpc.Wire.Send

/-!
# Structs made of a peer's document

What `rpc_struct_deserialize` returns for a document it accepts, whoever wrote it.

* `ids_kept_iff`: `rpc_struct_id_set` copies `strlen(ID)` bytes over a field that is
  full of random text. An ID comes back as it is in the document exactly when it has
  64 bytes; 65 reach the terminator, more leave the field.
* `wellFormed_iff`: an alias of a key without entry leaves an entry of type `RPC_none`,
  and the codes of a function are whatever numbers the document has. The struct is well
  formed at every level exactly when the document gives no occasion to either.

Both follow the document down (`Visited`, `Within`) along what was built from it
(`BuiltItem`).
-/
namespace FfiRpc

open State

/-! ## Inside a document -/

/-- `j'` is `j`, or parsed while `j` is. -/
def Visited : Json → Json → Prop := Relation.ReflTransGen fun j j' => ∃ k, (k, j') ∈ j.parts

/-- `j'` is `j`, or leaves an entry somewhere in what is made of `j`. -/
def Within : Json → Json → Prop :=
  Relation.ReflTransGen fun j j' => j'.enters = true ∧ ∃ k, (k, j') ∈ j.parts

/-- The strings a decoder reads off an object are strings. -/
def Legible (j : Json) : Prop :=
  ∀ fs, j = .obj fs → (∃ t, j.typeName = some t) ∧
    (j.typeName = some (ascii "RPC_struct") →
      ∀ v, j.get (ascii "ID") = some v → ∃ s, v = .str s)

/-- `rpc_struct_deserialize` takes the document, whatever the length of its IDs; these
are C strings. -/
structure Accepted (j : Json) : Prop where
  typeName : j.typeName = some (ascii "RPC_struct")
  serialised : (j.get (ascii "serialised")).isSome = true
  legible : ∀ j', Visited j j' → Legible j'
  terminated : ∀ j' s, Visited j j' → j'.get (ascii "ID") = some (.str s) → 0 ∉ s

theorem mem_parts_obj {fs : List (CStr × Json)} {f : CStr × Json} :
    f ∈ (Json.obj fs).parts ↔ Json.typeName (.obj fs) = some (ascii "RPC_struct") ∧
      ∃ data, Json.get (.obj fs) (ascii "serialised") = some data ∧ f ∈ data.fields := by
  have hdef : (Json.obj fs).parts =
      if Json.typeName (.obj fs) = some (ascii "RPC_struct") then
        ((Json.get (.obj fs) (ascii "serialised")).map Json.fields).getD []
      else [] := rfl
  rw [hdef]
  split
  · rename_i hty
    cases Json.get (.obj fs) (ascii "serialised") <;> simp [hty]
  · rename_i hty
    simp [hty]

theorem parts_struct {fs : List (CStr × Json)} {data : Json}
    (hty : Json.typeName (.obj fs) = some (ascii "RPC_struct"))
    (hdata : Json.get (.obj fs) (ascii "serialised") = some data) :
    (Json.obj fs).parts = data.fields := by
  simp only [Json.parts, if_pos hty, hdata, Option.map_some, Option.getD_some]

/-- Only what leaves an entry has parts. -/
theorem enters_of_part {j j' : Json} {k : CStr} (h : (k, j') ∈ j.parts) : j.enters = true := by
  cases j with
  | obj fs =>
    obtain ⟨hty, data, hdata, -⟩ := mem_parts_obj.1 h
    rw [enters_obj hty, hdata]
    exact .inr (.inr ⟨rfl, rfl⟩)
  | arr l => rfl
  | _ => cases h

/-- A visited item that leaves an entry is within the document. -/
theorem Visited.within {j j' : Json} (h : Visited j j') (hin : j'.enters = true) : Within j j' := by
  induction h with
  | refl => exact .refl
  | @tail j1 j2 _ hpart ih =>
    obtain ⟨k, hk⟩ := hpart
    exact (ih (enters_of_part hk)).tail ⟨hin, k, hk⟩

theorem depth_of_part {j j' : Json} {k : CStr} (h : (k, j') ∈ j.parts) : j'.depth < j.depth := by
  cases j with
  | obj fs =>
    obtain ⟨-, data, hdata, hm⟩ := mem_parts_obj.1 h
    have h1 := Json.depth_get hdata
    have h2 : j'.depth < data.depth := Json.depth_of_mem hm
    omega
  | arr l => exact Nat.lt_succ_of_le (Json.depth_item (mem_arrayFields.1 ⟨_, h, rfl⟩))
  | _ => cases h

theorem Legible.type {fs : List (CStr × Json)} (h : Legible (.obj fs)) {v : Json}
    (hv : Json.get (.obj fs) (ascii "type") = some v) : ∃ s, v = .str s := by
  obtain ⟨⟨t, ht⟩, -⟩ := h fs rfl
  rw [Json.typeName, hv] at ht
  exact ⟨t, stringValue_eq_some ht⟩

/-- The decoder survives a document whose IDs fit, if it can read it. -/
theorem safeItem_of_legible {j : Json} (h : ∀ j', Visited j j' → Legible j')
    (hid : ∀ j' s, Visited j j' → j'.typeName = some (ascii "RPC_struct") →
      j'.get (ascii "ID") = some (.str s) → s.length ≤ 65) : SafeItem j := by
  induction hn : j.depth using Nat.strong_induction_on generalizing j with
  | _ n ih =>
    subst hn
    have hpart : ∀ k j', (k, j') ∈ j.parts → SafeItem j' := fun k j' hm =>
      ih j'.depth (depth_of_part hm) (fun j2 h2 => h j2 (.head ⟨k, hm⟩ h2))
        (fun j2 s h2 => hid j2 s (.head ⟨k, hm⟩ h2)) rfl
    cases j with
    | int i => exact .int
    | real bits => exact .real
    | str s => exact .str
    | bool b => exact .bool
    | null => exact .null
    | arr l =>
      refine .arr fun item hi => ?_
      obtain ⟨f, hf, rfl⟩ := mem_arrayFields.2 hi
      exact hpart f.1 f.2 hf
    | obj fs =>
      obtain ⟨⟨t, ht⟩, hids⟩ := h _ .refl fs rfl
      refine .obj ht fun hts => .mk (fun v hv => ?_)
        (fun v hv => Legible.type (h _ .refl) hv) fun data _ hdata f hf => ?_
      · obtain ⟨s, rfl⟩ := hids (by rw [ht, hts]) v hv
        exact ⟨s, rfl, hid _ s .refl (by rw [ht, hts]) hv⟩
      · exact hpart f.1 f.2 (mem_parts_obj.2 ⟨by rw [ht, hts], data, hdata, hf⟩)

theorem SafeItem.struct {j : Json} (h : SafeItem j) (hty : j.typeName = some (ascii "RPC_struct")) :
    SafeStruct j := by
  cases h with
  | obj ht hst =>
    rw [hty] at ht
    exact hst (Option.some.inj ht).symm
  | _ => cases hty

/-! ## Along what was built -/

/-- `j'` was decoded at `q`, inside `j` at `p`. -/
inductive DecodedAt (st : State) (j : Json) (p : Addr) : Json → Addr → Prop
  | self : DecodedAt st j p j p
  | part {j1 p1 j2 p2 k} : DecodedAt st j p j1 p1 → (k, j2) ∈ j1.parts → j2.enters = true →
      st.held p1 k = some p2 → DecodedAt st j p j2 p2

theorem DecodedAt.visited {st : State} {j j' : Json} {p q : Addr} (h : DecodedAt st j p j' q) :
    Visited j j' := by
  induction h with
  | self => exact .refl
  | part _ hk _ _ ih => exact ih.tail ⟨_, hk⟩

section
variable {E : Env} {st : State} {A : Set Addr}

/-- Each part that leaves an entry was built into it. -/
theorem BuiltItem.part {j j' : Json} {e : RpcTypeT} {k : CStr} (h : BuiltItem E st A j e)
    (hm : (k, j') ∈ j.parts) (hin : j'.enters = true) :
    ∃ p e', e = .struct p ∧ st.entry p k = some e' ∧ BuiltItem E st A j' e' := by
  cases h with
  | int => cases hm
  | real => cases hm
  | str => cases hm
  | sizedbuf hty =>
    obtain ⟨hty', -⟩ := mem_parts_obj.1 hm
    rw [hty] at hty'
    exact absurd hty' (by decide)
  | function hty =>
    obtain ⟨hty', -⟩ := mem_parts_obj.1 hm
    rw [hty] at hty'
    exact absurd hty' (by decide)
  | struct hty hdata hp hs hid hent hbuilt =>
    obtain ⟨-, data', hdata', hf⟩ := mem_parts_obj.1 hm
    rw [hdata] at hdata'
    cases hdata'
    obtain ⟨e', he', -⟩ := hent.part (k, j') hf hin
    exact ⟨_, e', rfl, by rw [entry_of_struct hs, he'], hbuilt k j' e' hf hin he'⟩
  | arr hp hs hent hbuilt =>
    obtain ⟨e', he', -⟩ := hent.part (k, j') hm hin
    exact ⟨_, e', rfl, by rw [entry_of_struct hs, he'], hbuilt k j' e' hm hin he'⟩

/-- What became of the document of a struct. -/
theorem BuiltItem.struct_inv {j : Json} {e : RpcTypeT} (h : BuiltItem E st A j e)
    (hty : j.typeName = some (ascii "RPC_struct")) :
    ∃ p s st0, e = .struct p ∧ st.struct? p = some s ∧ s.ID = idField E st0 j ∧
      (j.get (ascii "serialised")).isSome = true := by
  cases h with
  | struct _ hdata _ hs hid => exact ⟨_, _, _, rfl, hs, hid, by rw [hdata]; rfl⟩
  | sizedbuf hty' =>
    rw [hty] at hty'
    exact absurd hty' (by decide)
  | function hty' =>
    rw [hty] at hty'
    exact absurd hty' (by decide)
  | _ => cases hty

/-- Everything within the document was decoded somewhere. -/
theorem Within.decodedAt {j j' : Json} {p : Addr} (hb : BuiltItem E st A j (.struct p))
    (h : Within j j') : ∃ e, BuiltItem E st A j' e ∧
      ∀ q, e.target = some q → DecodedAt st j p j' q := by
  induction h with
  | refl =>
    refine ⟨_, hb, fun q hq => ?_⟩
    cases hq
    exact .self
  | @tail j1 j2 _ hpart ih =>
    obtain ⟨hin, k, hk⟩ := hpart
    obtain ⟨e1, hb1, hat⟩ := ih
    obtain ⟨p1, e2, rfl, he2, hb2⟩ := hb1.part hk hin
    exact ⟨e2, hb2, fun q hq => .part (hat p1 rfl) hk hin (held_eq_some.2 ⟨e2, he2, hq⟩)⟩

/-- What is decoded at an address was built there. -/
theorem DecodedAt.built {j j' : Json} {p q : Addr} (hb : BuiltItem E st A j (.struct p))
    (h : DecodedAt st j p j' q) : ∃ e, BuiltItem E st A j' e ∧ e.target = some q := by
  induction h with
  | self => exact ⟨_, hb, rfl⟩
  | part _ hk hin hheld ih =>
    obtain ⟨e1, hb1, ht1⟩ := ih
    obtain ⟨p1, e2, rfl, he2, hb2⟩ := hb1.part hk hin
    cases ht1
    obtain ⟨e2', he2', ht2⟩ := held_eq_some.1 hheld
    rw [he2] at he2'
    cases he2'
    exact ⟨e2, hb2, ht2⟩

end

/-! ## IDs -/

/-- Storing the ID `s` in a new struct stays inside the field and leaves its last byte
zero. -/
def StoresInside (E : Env) (s : CStr) : Prop :=
  ∀ st, ∃ st' r, rpcStructIdSet (rpcStructCreate E st).1 (rpcStructCreate E st).2 s = .ok st' ∧
    st'.struct? (rpcStructCreate E st).2 = some r ∧ r.ID.length = 65 ∧ r.ID.getLast? = some 0

/-- The IDs of the document are those of the structs made of it. -/
def IdsReturned (st : State) (j : Json) (p : Addr) : Prop :=
  ∀ j' q s, DecodedAt st j p j' q → j'.typeName = some (ascii "RPC_struct") →
    j'.get (ascii "ID") = some (.str s) → s.length ≤ 64 → rpcStructIdGet st q = s

theorem storesInside_iff (E : Env) {s : CStr} (h0 : 0 ∉ s) : StoresInside E s ↔ s.length ≤ 64 := by
  have hlen : ∀ st, (E.random st ++ [(0 : UInt8)]).length = 65 := fun st => by
    rw [List.length_append, E.random_length]
    rfl
  have hnew : ∀ st, (rpcStructCreate E st).1.struct? (rpcStructCreate E st).2 =
      some ⟨∅, E.random st ++ [0], 0⟩ := fun st => (struct?_setObj_struct ..).trans (if_pos rfl)
  constructor
  · intro h
    obtain ⟨st', r, hok, hr, hrlen, hlast⟩ := h .empty
    by_contra hlong
    rw [rpcStructIdSet, hnew] at hok
    simp only [hlen] at hok
    split at hok
    · cases hok
    · cases hok
      rw [struct?_setObj_struct, if_pos rfl] at hr
      cases hr
      -- the 65th byte of the ID has replaced the terminator
      rw [List.drop_of_length_le (by rw [hlen]; omega), List.append_nil] at hlast
      exact h0 (List.mem_of_getLast? hlast)
  · intro hs st
    have hcreate : rpcStructCreate E st = (started E st (E.random st ++ [0]), E.malloc st) := rfl
    rw [hcreate]
    refine ⟨started E st (s ++ (E.random st ++ [0]).drop s.length),
      ⟨∅, s ++ (E.random st ++ [0]).drop s.length, 0⟩,
      idSet_started (by rw [hlen]; omega), (struct?_setObj_struct ..).trans (if_pos rfl), ?_, ?_⟩
    · rw [List.length_append, List.length_drop, hlen]
      omega
    · rw [List.drop_append_of_le_length (by rw [E.random_length]; omega), ← List.append_assoc]
      exact List.getLast?_concat

/-- A stored ID reads back as it is exactly when it fills the field. -/
theorem idField_reads (E : Env) (st : State) {j : Json} {s : CStr} (h0 : 0 ∉ s)
    (hs : j.get (ascii "ID") = some (.str s)) (hle : s.length ≤ 64) :
    (idField E st j).takeWhile (· ≠ 0) = s ↔ s.length = 64 := by
  have hfield : idField E st j = s ++ (E.random st ++ [0]).drop s.length := by
    rw [idField, hs]
    rfl
  have hall : ∀ b ∈ s, decide (b ≠ 0) = true := fun b hb =>
    decide_eq_true fun hb0 => h0 (hb0 ▸ hb)
  rw [hfield, List.takeWhile_append_of_pos hall]
  constructor
  · intro h
    by_contra hne
    -- the next byte is a random one, not the terminator
    have hlt : s.length < (E.random st).length := by rw [E.random_length]; omega
    have hr := E.random_mem st _ (List.getElem_mem hlt)
    rw [List.drop_append_of_le_length hlt.le, ← List.cons_getElem_drop_succ (h := hlt), List.cons_append,
      List.takeWhile_cons_of_pos] at h
    · have := congrArg List.length h
      simp at this
    · refine decide_eq_true fun hz => ?_
      rw [hz] at hr
      exact absurd hr (by decide)
  · intro h
    rw [h, ← E.random_length st, List.drop_left]
    simp

/-- Storing the IDs of an accepted document is safe, and the structs made of it have
them, exactly when each has 64 bytes, or at most that in a struct that is refused. -/
theorem ids_kept_iff {st : State} (h : api.Reachable st) (E : Env) (d : Document)
    (hacc : Accepted d.json) :
    ((∀ j s, Visited d.json j → j.typeName = some (ascii "RPC_struct") →
        j.get (ascii "ID") = some (.str s) → StoresInside E s) ∧
      ∃ st' p, rpcStructDeserialize E st (some d.json) = .ok (st', p) ∧ p ≠ 0 ∧
        IdsReturned st' d.json p) ↔
    ∀ j s, Visited d.json j → j.typeName = some (ascii "RPC_struct") →
      j.get (ascii "ID") = some (.str s) →
      s.length ≤ 64 ∧ ((j.get (ascii "serialised")).isSome = true → s.length = 64) := by
  have hcounted : Counted st := (api_wf h).inv.counted
  constructor
  · intro hkept j s hj hty hs
    obtain ⟨hstore, st', p, hok, hp, hret⟩ := hkept
    have h0 := hacc.terminated j s hj hs
    have hle := (storesInside_iff E h0).1 (hstore j s hj hty hs)
    refine ⟨hle, fun hser => ?_⟩
    have hb := (deserialize_built hcounted d hok).2 hp
    have hin : j.enters = true := by
      cases j with
      | obj fs => exact (enters_obj hty).2 (.inr (.inr ⟨rfl, hser⟩))
      | _ => cases hs
    obtain ⟨e, hbj, hat⟩ := (hj.within hin).decodedAt hb
    obtain ⟨q, r, st0, rfl, hr, hid, -⟩ := hbj.struct_inv hty
    have hget := hret j q s (hat q rfl) hty hs hle
    rw [rpcStructIdGet, hr, Option.map_some, Option.getD_some, hid] at hget
    exact (idField_reads E st0 h0 hs hle).1 hget
  · intro hids
    have hfits := fun j s hj hty hs => (hids j s hj hty hs).1
    refine ⟨fun j s hj hty hs => (storesInside_iff E (hacc.terminated j s hj hs)).2
      (hfits j s hj hty hs), ?_⟩
    have hsafe : SafeStruct d.json :=
      (safeItem_of_legible hacc.legible fun j s hj hty hs => by
        have := hfits j s hj hty hs
        omega).struct hacc.typeName
    obtain ⟨⟨st', p⟩, hok, -⟩ := (deserialize_spec E hcounted d).iff.2 hsafe
    obtain ⟨hp, hb⟩ := deserialize_built hcounted d hok
    have hp0 := hp.2 ⟨hacc.typeName, hacc.serialised⟩
    refine ⟨st', p, hok, hp0, fun j q s hat hty hs hle => ?_⟩
    obtain ⟨e, hbj, ht⟩ := hat.built (hb hp0)
    obtain ⟨q', r, st0, rfl, hr, hid, hser⟩ := hbj.struct_inv hty
    cases ht
    rw [rpcStructIdGet, hr, Option.map_some, Option.getD_some, hid]
    exact (idField_reads E st0 (hacc.terminated j s hat.visited hs) hs hle).2
      ((hids j s hat.visited hty hs).2 hser)

theorem Visited.self {j j' : Json} (hno : j.parts = []) (h : Visited j j') : j' = j := by
  rcases Relation.ReflTransGen.cases_head h with h | ⟨j1, ⟨k, hk⟩, -⟩
  · exact h.symm
  · rw [hno] at hk
    cases hk

/-- A struct without entries, with the given ID. -/
def idDocument (ID : CStr) : Document :=
  ⟨.obj [(ascii "ID", .str ID), (ascii "type", .str (ascii "RPC_struct")),
      (ascii "serialised", .obj [])],
    show [ascii "ID", ascii "type", ascii "serialised"].Nodup by decide,
    trivial, trivial, ⟨List.nodup_nil, trivial⟩, trivial⟩

theorem idDocument_accepted {ID : CStr} (h0 : 0 ∉ ID) : Accepted (idDocument ID).json := by
  refine ⟨rfl, rfl, fun j hj => ?_, fun j s hj hs => ?_⟩
  · rw [hj.self rfl]
    refine fun fs _ => ⟨⟨_, rfl⟩, fun _ v hv => ?_⟩
    cases hv
    exact ⟨ID, rfl⟩
  · rw [hj.self rfl] at hs
    cases hs
    exact h0

/-- A struct under "k" of another one. -/
def nestedDocument (ID ID' : CStr) : Document :=
  ⟨.obj [(ascii "ID", .str ID), (ascii "type", .str (ascii "RPC_struct")),
      (ascii "serialised", .obj [(ascii "k", (idDocument ID').json)])],
    show [ascii "ID", ascii "type", ascii "serialised"].Nodup by decide,
    trivial, trivial, ⟨List.nodup_singleton _, (idDocument ID').distinct, trivial⟩, trivial⟩

theorem visited_nested {ID ID' : CStr} {j : Json} (h : Visited (nestedDocument ID ID').json j) :
    j = (nestedDocument ID ID').json ∨ j = (idDocument ID').json := by
  rcases Relation.ReflTransGen.cases_head h with h | ⟨j1, ⟨k, hk⟩, hrest⟩
  · exact .inl h.symm
  · have hparts : (nestedDocument ID ID').json.parts = [(ascii "k", (idDocument ID').json)] := rfl
    rw [hparts, List.mem_singleton] at hk
    cases hk
    exact .inr (Visited.self rfl hrest)

theorem nestedDocument_accepted {ID ID' : CStr} (h0 : 0 ∉ ID) (h0' : 0 ∉ ID') :
    Accepted (nestedDocument ID ID').json := by
  refine ⟨rfl, rfl, fun j hj => ?_, fun j s hj hs => ?_⟩
  · rcases visited_nested hj with rfl | rfl
    · rintro fs ⟨⟩
      refine ⟨⟨_, rfl⟩, fun _ v hv => ?_⟩
      cases hv
      exact ⟨ID, rfl⟩
    · exact (idDocument_accepted h0').legible _ .refl
  · rcases visited_nested hj with rfl | rfl
    · cases hs
      exact h0
    · exact (idDocument_accepted h0').terminated _ s .refl hs

/-- The random text of the two structs is other than either ID. -/
theorem ids_kept_iff_nested : ∃ st' p q, rpcStructDeserialize .bump .empty
      (some (nestedDocument (List.replicate 64 98) (List.replicate 64 99)).json) = .ok (st', p) ∧
    st'.held p (ascii "k") = some q ∧ rpcStructIdGet st' p = List.replicate 64 98 ∧
    rpcStructIdGet st' q = List.replicate 64 99 := by
  have h0 : (0 : UInt8) ∉ List.replicate 64 (98 : UInt8) := by decide
  have h0' : (0 : UInt8) ∉ List.replicate 64 (99 : UInt8) := by decide
  obtain ⟨-, st', p, hok, -, hret⟩ :=
    (ids_kept_iff (.init rfl) .bump _ (nestedDocument_accepted h0 h0')).2 fun j s hj hty hs => by
      rcases visited_nested hj with rfl | rfl
      · cases hs
        exact ⟨by decide, fun _ => by decide⟩
      · cases hs
        exact ⟨by decide, fun _ => by decide⟩
  have hheld : ((rpcStructDeserialize .bump .empty (some (nestedDocument (List.replicate 64 98)
      (List.replicate 64 99)).json)).toOption.map fun r => (r.1.held r.2 (ascii "k")).isSome) =
        some true := by
    decide +kernel
  rw [hok] at hheld
  obtain ⟨q, hq⟩ := Option.isSome_iff_exists.1 (Option.some.inj hheld)
  exact ⟨st', p, q, hok, hq, hret _ _ _ .self rfl rfl (by decide),
    hret _ _ _ (.part .self (k := ascii "k") List.mem_cons_self rfl hq) rfl rfl (by decide)⟩

/-- The ID `a` comes back with 63 random bytes behind it. -/
theorem short_id_padded : ∃ st' p, Accepted (idDocument [97]).json ∧
    rpcStructDeserialize .bump .empty (some (idDocument [97]).json) = .ok (st', p) ∧ p ≠ 0 ∧
    rpcStructIdGet st' p = List.replicate 64 97 ∧ ¬ IdsReturned st' (idDocument [97]).json p := by
  refine ⟨_, _, idDocument_accepted (by decide), rfl, by decide, by decide +kernel, fun h => ?_⟩
  have hget := h _ _ [97] .self rfl rfl (by decide)
  exact absurd hget (by decide +kernel)

/-! ## Well-formed structs -/

/-- Every key that is listed exists, and the codes of a function are types. -/
structure WellFormed (st : State) (S : Addr) : Prop where
  keys : ∀ k ∈ rpcStructKeys st S, rpcStructExists st S k = true
  functions : ∀ k q f, st.entry S k = some (.function q) → st.heap.lookup q = some (.function f) →
    ∀ t ∈ f.returnType :: f.prototype.getD [], (RpcTypes.ofCode t).isSome = true

/-- A document without unresolved aliases; of a function, one with codes in range. -/
structure Sound (j : Json) : Prop where
  aliases : j.typeName = some (ascii "RPC_struct") →
    resolves (enteredKeys j.parts) j.aliases = true
  codes : j.typeName = some (ascii "RPC_function") →
    ∀ t ∈ j.toFunction.returnType :: j.toFunction.prototype.getD [],
      (RpcTypes.ofCode t).isSome = true

section
variable {E : Env} {st : State} {A : Set Addr}

theorem keys_exist_iff {S : Addr} {s : RpcStruct} (hs : st.struct? S = some s) :
    (∀ k ∈ rpcStructKeys st S, rpcStructExists st S k = true) ↔
      ¬ ∃ k, s.map.lookup k = some .none := by
  have hkeys : rpcStructKeys st S = s.map.keys := by
    rw [rpcStructKeys, hs]
    rfl
  have hexists : ∀ k e, s.map.lookup k = some e →
      (rpcStructExists st S k = true ↔ e ≠ .none) := by
    intro k e he
    rw [rpcStructExists, rpcStructGetInternal, entry_of_struct hs, he, Option.getD_some]
    cases e <;> simp [RpcTypeT.type]
  rw [hkeys]
  constructor
  · intro h hno
    obtain ⟨k, hk⟩ := hno
    exact (hexists k .none hk).1 (h k (Table.mem_keys_iff.2 ⟨_, hk⟩)) rfl
  · intro h k hk
    obtain ⟨e, he⟩ := Table.mem_keys_iff.1 hk
    refine (hexists k e he).2 fun hc => h ⟨k, ?_⟩
    rw [he, hc]

theorem BuiltItem.function_inv {j : Json} {q : Addr} (h : BuiltItem E st A j (.function q)) :
    j.typeName = some (ascii "RPC_function") ∧ st.heap.lookup q = some (.function j.toFunction) := by
  cases h with
  | function hty _ hf => exact ⟨hty, hf⟩

/-- An object under some key is under the key of a part as well. -/
theorem Entered.origin {map : Table CStr RpcTypeT} {parts aliases : List (CStr × Json)} {k : CStr}
    {e : RpcTypeT} {q : Addr} (h : Entered map parts aliases) (he : map.lookup k = some e)
    (ht : e.target = some q) :
    ∃ f ∈ parts, f.2.enters = true ∧ map.lookup f.1 = some e := by
  obtain ⟨f, hf, hin, e0, he0, hv⟩ := h.source k e he (fun hc => by rw [hc] at ht; cases ht)
  refine ⟨f, hf, hin, he0.trans (congrArg some ?_)⟩
  cases e0 <;> cases e <;> cases hv <;> first | rfl | cases ht

/-- A struct made of sound parts. -/
theorem Entered.wellFormed {p : Addr} {s : RpcStruct} {parts aliases : List (CStr × Json)}
    (hs : st.struct? p = some s) (h : Entered s.map parts aliases)
    (hres : resolves (enteredKeys parts) aliases = true)
    (hbuilt : ∀ k item e, (k, item) ∈ parts → item.enters = true → s.map.lookup k = some e →
      BuiltItem E st A item e)
    (hparts : ∀ k item, (k, item) ∈ parts → item.enters = true → Sound item) :
    WellFormed st p := by
  refine ⟨(keys_exist_iff hs).2 fun hno => ?_, fun k q f he hf => ?_⟩
  · rw [h.none_iff.1 hno] at hres
    cases hres
  · rw [entry_of_struct hs] at he
    obtain ⟨g, hg, hin, he0⟩ := h.origin he rfl
    obtain ⟨hty, hf'⟩ := (hbuilt g.1 g.2 _ hg hin he0).function_inv
    rw [hf] at hf'
    cases hf'
    exact (hparts g.1 g.2 hg hin).codes hty

/-- What is nested in a struct is the struct, or nested in what a part put into it. -/
theorem Entered.nested {p S : Addr} {s : RpcStruct} {parts aliases : List (CStr × Json)}
    (hs : st.struct? p = some s) (h : Entered s.map parts aliases) (hS : st.Nested p S) :
    S = p ∨ ∃ f ∈ parts, f.2.enters = true ∧ ∃ q, s.map.lookup f.1 = some (.struct q) ∧
      st.Nested q S := by
  rcases Relation.ReflTransGen.cases_head hS with hS | ⟨q, ⟨k, hk⟩, hS⟩
  · exact .inl hS.symm
  · rw [entry_of_struct hs] at hk
    obtain ⟨f, hf, hin, he⟩ := h.origin hk rfl
    exact .inr ⟨f, hf, hin, q, he, hS⟩

theorem BuiltItem.wellFormed {j : Json} {e : RpcTypeT} (h : BuiltItem E st A j e)
    (hsound : ∀ j', Within j j' → Sound j') {p S : Addr} (he : e = .struct p)
    (hS : st.Nested p S) : WellFormed st S := by
  induction h generalizing p with
  | @struct fs data p s st0 hty hdata hp hs hid hent hbuilt ih =>
    cases he
    have hpart : ∀ f ∈ data.fields, f.2.enters = true → ∀ j', Within f.2 j' → Sound j' :=
      fun f hf hin j' hj' => hsound j' (.head ⟨hin, f.1, mem_parts_obj.2 ⟨hty, _, hdata, hf⟩⟩ hj')
    rcases hent.nested hs hS with rfl | ⟨f, hf, hin, q, he, hq⟩
    · refine hent.wellFormed hs ?_ hbuilt fun k item hm hin => hpart (k, item) hm hin item .refl
      have hres := (hsound _ .refl).aliases hty
      rwa [parts_struct hty hdata] at hres
    · exact ih f.1 f.2 _ hf hin he (hpart f hf hin) rfl hq
  | @arr l p s hp hs hent hbuilt ih =>
    cases he
    have hpart : ∀ f ∈ arrayFields l, f.2.enters = true → ∀ j', Within f.2 j' → Sound j' :=
      fun f hf hin j' hj' => hsound j' (.head ⟨hin, f.1, hf⟩ hj')
    rcases hent.nested hs hS with rfl | ⟨f, hf, hin, q, he, hq⟩
    · exact hent.wellFormed hs rfl hbuilt fun k item hm hin => hpart (k, item) hm hin item .refl
    · exact ih f.1 f.2 _ hf hin he (hpart f hf hin) rfl hq
  | _ => cases he

/-- What is within the document was built into something nested in the result. -/
theorem Within.nested {j j' : Json} {p : Addr} (hb : BuiltItem E st A j (.struct p))
    (h : Within j j') : ∃ e, BuiltItem E st A j' e ∧ (∀ q, e = .struct q → st.Nested p q) ∧
      ∀ q, e = .function q → ∃ S k, st.Nested p S ∧ st.entry S k = some (.function q) := by
  induction h with
  | refl =>
    refine ⟨_, hb, fun q hq => ?_, nofun⟩
    cases hq
    exact .refl
  | tail _ hpart ih =>
    obtain ⟨hin, k, hk⟩ := hpart
    obtain ⟨e1, hb1, hnest, -⟩ := ih
    obtain ⟨p1, e2, rfl, he2, hb2⟩ := hb1.part hk hin
    refine ⟨e2, hb2, fun q hq => (hnest p1 rfl).tail ⟨k, by rw [he2, hq]⟩, fun q hq => ?_⟩
    exact ⟨p1, k, hnest p1 rfl, by rw [he2, hq]⟩

theorem BuiltItem.sound {j : Json} {e : RpcTypeT} (h : BuiltItem E st A j e)
    (hstruct : ∀ q, e = .struct q → WellFormed st q)
    (hfunction : ∀ q, e = .function q → ∃ S k, WellFormed st S ∧
      st.entry S k = some (.function q)) : Sound j := by
  refine ⟨fun hty => ?_, fun hty => ?_⟩
  · cases h with
    | struct _ hdata _ hs _ hent =>
      have hno := (keys_exist_iff hs).1 (hstruct _ rfl).keys
      rw [hent.none_iff, Bool.not_eq_false] at hno
      rwa [parts_struct hty hdata]
    | sizedbuf hty' =>
      rw [hty] at hty'
      exact absurd hty' (by decide)
    | function hty' =>
      rw [hty] at hty'
      exact absurd hty' (by decide)
    | _ => cases hty
  · cases h with
    | function _ _ hf =>
      obtain ⟨S, k, hwf, hk⟩ := hfunction _ rfl
      exact hwf.functions k _ _ hk hf
    | sizedbuf hty' =>
      rw [hty] at hty'
      exact absurd hty' (by decide)
    | struct hty' =>
      rw [hty] at hty'
      exact absurd hty' (by decide)
    | _ => cases hty

end

/-- The struct that is returned is well formed at every level exactly when the document
is sound at every level. -/
theorem wellFormed_iff {st st' : State} (h : api.Reachable st) (E : Env) (d : Document) {p : Addr}
    (hok : rpcStructDeserialize E st (some d.json) = .ok (st', p)) (hp : p ≠ 0) :
    (∀ S, st'.Nested p S → WellFormed st' S) ↔ ∀ j, Within d.json j → Sound j := by
  have hb := (deserialize_built (api_wf h).inv.counted d hok).2 hp
  constructor
  · intro hwf j hj
    obtain ⟨e, hbj, hstruct, hfunction⟩ := hj.nested hb
    refine hbj.sound (fun q hq => hwf q (hstruct q hq)) fun q hq => ?_
    obtain ⟨S, k, hS, hk⟩ := hfunction q hq
    exact ⟨S, k, hwf S hS, hk⟩
  · intro hsound S hS
    exact hb.wellFormed hsound rfl hS

/-- A function under two keys. -/
def sharedFunction : Json :=
  .obj [(ascii "type", .str (ascii "RPC_function")), (ascii "return_type", .int 1)]

/-- A document with the given parts and aliases. -/
def structDocument (parts aliases : List (CStr × Json)) : Json :=
  .obj [(ascii "type", .str (ascii "RPC_struct")), (ascii "serialised", .obj parts),
    (ascii "duplicates", .obj aliases)]

theorem wellFormed_iff_shared : ∃ st' p,
    rpcStructDeserialize .bump .empty (some (structDocument [([102], sharedFunction)]
      [([103], .str [102])])) = .ok (st', p) ∧ WellFormed st' p := by
  let d : Document := ⟨structDocument [([102], sharedFunction)] [([103], .str [102])],
    show [ascii "type", ascii "serialised", ascii "duplicates"].Nodup by decide, trivial,
    ⟨List.nodup_singleton _, ⟨show [ascii "type", ascii "return_type"].Nodup by decide, trivial,
      trivial, trivial⟩, trivial⟩, ⟨List.nodup_singleton _, trivial, trivial⟩, trivial⟩
  obtain ⟨st', p, hok, hp⟩ : ∃ st' p,
      rpcStructDeserialize .bump .empty (some d.json) = .ok (st', p) ∧ p ≠ 0 :=
    ⟨_, _, rfl, by decide⟩
  refine ⟨st', p, hok, (wellFormed_iff (.init rfl) .bump d hok hp).2 (fun j hj => ?_) p .refl⟩
  -- the document itself, or the function
  rcases Relation.ReflTransGen.cases_head hj with rfl | ⟨j1, ⟨-, k, hk⟩, hj1⟩
  · exact ⟨fun _ => by decide +kernel, fun hty => absurd hty (by decide +kernel)⟩
  · have hk' : (k, j1) ∈ [(([102] : CStr), sharedFunction)] := hk
    cases List.mem_singleton.1 hk'
    rcases Relation.ReflTransGen.cases_head hj1 with rfl | ⟨j2, ⟨-, k2, hk2⟩, -⟩
    · have hfn : sharedFunction.toFunction = ⟨none, 1, 0⟩ := rfl
      refine ⟨fun hty => absurd hty (by decide +kernel), fun _ => ?_⟩
      rw [hfn]
      intro t ht
      rw [List.mem_singleton.1 ht]
      rfl
    · cases hk2

/-- An alias of a key that is not there leaves a key that is listed and does not exist. -/
theorem alias_of_nothing : ∃ st' p,
    rpcStructDeserialize .bump .empty (some (structDocument [] [([103], .str [102])])) =
      .ok (st', p) ∧ p ≠ 0 ∧ ¬ ∀ S, st'.Nested p S → WellFormed st' S := by
  refine ⟨_, _, rfl, by decide, fun h => ?_⟩
  have hexists := (h _ .refl).keys [103] (by decide +kernel)
  exact absurd hexists (by decide +kernel)

end FfiRpc
