import FfiRpc.Wire.Receive

/-!
# What any document builds

`Receive.lean` says when `rpc_struct_deserialize` returns, and what comes of a document
that serialisation wrote. Here is what comes of any document it accepts, whoever wrote
it: `BuiltItem` relates an item to the element made of it, down to the leaves
(`decode_built`).

`Json.parts` are the items that are parsed into the struct made of a document, and
`Json.enters` tells which of them leave an entry: booleans, nulls, objects of another
type and structs without `serialised` do not. Then come the aliases, in order: one whose
original has no entry at that moment, and whose own key has none either, leaves an entry
of type `RPC_none` (`resolves`).
-/
namespace FfiRpc

open State

/-! ## The parts of a document

What is owed is read off the document alone: which keys come to have an entry, what is
made of each item, and which alias gets what. -/

/-- The items parsed into the struct that is made of a document, with their keys. -/
def Json.parts : Json → List (CStr × Json)
  | .obj fs =>
    if Json.typeName (.obj fs) = some (ascii "RPC_struct") then
      ((Json.get (.obj fs) (ascii "serialised")).map fields).getD []
    else []
  | .arr l => arrayFields l
  | _ => []

/-- The alias table. -/
def Json.aliases (j : Json) : List (CStr × Json) :=
  ((j.get (ascii "duplicates")).map fields).getD []

/-- Whether an item leaves an entry. -/
def Json.enters (j : Json) : Bool :=
  match j with
  | .int _ | .real _ | .str _ | .arr _ => true
  | .obj _ =>
    j.typeName = some (ascii "RPC_function") ∨ j.typeName = some (ascii "RPC_sizedbuf") ∨
      j.typeName = some (ascii "RPC_struct") ∧ (j.get (ascii "serialised")).isSome
  | .bool _ | .null => false

/-- The keys that have an entry once the parts are parsed. -/
def enteredKeys (parts : List (CStr × Json)) : List CStr :=
  (parts.filter fun f => f.2.enters).map Prod.fst

/-- Each alias, at its turn, has an entry already or names a key that has one. -/
def resolves : List CStr → List (CStr × Json) → Bool
  | _, [] => true
  | keys, (k, v) :: aliases =>
    (keys.contains k || (Json.stringValue (some v)).any keys.contains) &&
      resolves (k :: keys) aliases

/-- The entries of a struct made of `parts` and `aliases`, apart from their content. -/
structure Entered (map : Table CStr RpcTypeT) (parts aliases : List (CStr × Json)) : Prop where
  part : ∀ f ∈ parts, f.2.enters = true → ∃ e, map.lookup f.1 = some e ∧ e ≠ .none
  source : ∀ k e, map.lookup k = some e → e ≠ .none → ∃ f ∈ parts, f.2.enters = true ∧
    ∃ e0, map.lookup f.1 = some e0 ∧ e0.SameValue e
  none_iff : (∃ k, map.lookup k = some .none) ↔ resolves (enteredKeys parts) aliases = false

/-- The element `e` was made of the document `j`, on addresses of `A`. -/
inductive BuiltItem (E : Env) (st : State) (A : Set Addr) : Json → RpcTypeT → Prop
  | int {i raw} : BuiltItem E st A (.int i) (.number raw)
  | real {bits raw} : BuiltItem E st A (.real bits) (.real raw)
  | str {t p} : BuiltItem E st A (.str t) (.string p t)
  | sizedbuf {fs p b} : Json.typeName (.obj fs) = some (ascii "RPC_sizedbuf") → p ∈ A →
      st.heap.lookup p = some (.sizedbuf b) → BuiltItem E st A (.obj fs) (.sizedbuf p)
  | function {fs p} : Json.typeName (.obj fs) = some (ascii "RPC_function") → p ∈ A →
      st.heap.lookup p = some (.function (Json.toFunction (.obj fs))) →
      BuiltItem E st A (.obj fs) (.function p)
  | struct {fs data p s st0} : Json.typeName (.obj fs) = some (ascii "RPC_struct") →
      Json.get (.obj fs) (ascii "serialised") = some data → p ∈ A → st.struct? p = some s →
      s.ID = idField E st0 (.obj fs) → Entered s.map data.fields (Json.aliases (.obj fs)) →
      (∀ k item e, (k, item) ∈ data.fields → item.enters = true → s.map.lookup k = some e →
        BuiltItem E st A item e) → BuiltItem E st A (.obj fs) (.struct p)
  | arr {l p s} : p ∈ A → st.struct? p = some s → Entered s.map (arrayFields l) [] →
      (∀ k item e, (k, item) ∈ arrayFields l → item.enters = true → s.map.lookup k = some e →
        BuiltItem E st A item e) → BuiltItem E st A (.arr l) (.struct p)

section
variable {E : Env} {st : State} {A : Set Addr} {j : Json} {e : RpcTypeT}

/-- Only the entries matter, not how the map came about. -/
theorem Entered.congr {map map' : Table CStr RpcTypeT} {parts aliases : List (CStr × Json)}
    (h : Entered map parts aliases) (hmap : ∀ k, map'.lookup k = map.lookup k) :
    Entered map' parts aliases := by
  refine ⟨?_, ?_, ?_⟩ <;> simp only [hmap]
  · exact h.part
  · exact h.source
  · exact h.none_iff

/-- What was built stays, outside the struct that is being filled. -/
theorem BuiltItem.later {st' : State} {S : Addr} {A' : Set Addr} (h : BuiltItem E st A j e)
    (hk : Keeps {S} st st') (hS : S ∉ A) (hA : A ⊆ A') : BuiltItem E st' A' j e := by
  have hkeep : ∀ a ∈ A, a ∉ ({S} : Set Addr) := fun a ha hm =>
    hS (Set.mem_singleton_iff.1 hm ▸ ha)
  induction h with
  | int => exact .int
  | real => exact .real
  | str => exact .str
  | sizedbuf hty hp hb => exact .sizedbuf hty (hA hp) (hk.flat (hkeep _ hp) hb nofun)
  | function hty hp hf => exact .function hty (hA hp) (hk.flat (hkeep _ hp) hf nofun)
  | struct hty hdata hp hs hid hent _ ih =>
    obtain ⟨s', hs', hid', hmap⟩ := hk.struct (hkeep _ hp) hs
    refine .struct hty hdata (hA hp) hs' (hid'.trans hid) (hent.congr hmap)
      fun k item e hm hin he => ih k item e hm hin ?_
    rwa [hmap] at he
  | arr hp hs hent _ ih =>
    obtain ⟨s', hs', -, hmap⟩ := hk.struct (hkeep _ hp) hs
    refine .arr (hA hp) hs' (hent.congr hmap) fun k item e hm hin he => ih k item e hm hin ?_
    rwa [hmap] at he

/-- Nor does it matter in which block a text lies. -/
theorem BuiltItem.congr_value {e' : RpcTypeT} (h : BuiltItem E st A j e) (hv : e.SameValue e') :
    BuiltItem E st A j e' := by
  cases h <;> cases e' <;> cases hv
  · exact .int
  · exact .real
  · exact .str
  · exact .sizedbuf ‹_› ‹_› ‹_›
  · exact .function ‹_› ‹_› ‹_›
  · exact .struct ‹_› ‹_› ‹_› ‹_› ‹_› ‹_› ‹_›
  · exact .arr ‹_› ‹_› ‹_› ‹_›

theorem BuiltItem.ne_none (h : BuiltItem E st A j e) : e ≠ .none := by
  cases h <;> nofun

end

/-! ## Aliases

The loop over `duplicates` works on the map of one struct: what the parts have put there
stays, and each alias looks up its original in what is there at its turn, earlier aliases
included. -/

/-- A pointer that `rpc_struct_set_internal` accepts. -/
def RpcTypeT.Nonnull (e : RpcTypeT) : Prop := rpcIsPointer e.type = true → e.ptrValue ≠ 0

section
variable {E : Env} {st st' : State} {S : Addr} {k : CStr} {s : RpcStruct} {e : RpcTypeT}

theorem strdupElement_nonnull (E : Env) (st : State) (h : e.Nonnull) :
    (strdupElement E st e).Nonnull := by
  cases e with
  | string p t => exact fun _ => malloc_ne_zero E st
  | _ => exact h

theorem strdupElement_ne_none (E : Env) (st : State) : strdupElement E st e = .none ↔ e = .none := by
  cases e <;> simp [strdupElement]

/-- What `rpc_struct_set_internal` leaves in the struct. -/
theorem setInternal_map (hs : st.struct? S = some s) (hnn : e.Nonnull)
    (hok : Prod.fst <$> rpcStructSetInternal E st S k e = .ok st') :
    ∃ s', st'.struct? S = some s' ∧ s'.ID = s.ID ∧ ∀ k', s'.map.lookup k' =
      if k' = k ∧ s.map.lookup k = none then some (strdupElement E st e) else s.map.lookup k' := by
  cases hk : s.map.lookup k with
  | some e' =>
    have hsame : st' = st := by
      simp only [rpcStructSetInternal, hs, hk] at hok
      split at hok <;> cases hok <;> rfl
    rw [hsame]
    exact ⟨s, hs, rfl, fun k' => by simp⟩
  | none =>
    rw [setInternal_fresh hs hk hnn] at hok
    cases hok
    refine ⟨{ s with map := s.map.insert k (strdupElement E st e) }, by
      rw [struct?_setObj_struct, if_pos rfl], rfl, fun k' => ?_⟩
    rw [Table.lookup_insert_if]
    simp

/-- The struct while the aliases are set: `map0` is what the parts left. -/
structure Linking (map0 map : Table CStr RpcTypeT) : Prop where
  nonnull : ∀ k e, map.lookup k = some e → e.Nonnull
  kept : ∀ k e, map0.lookup k = some e → map.lookup k = some e
  source : ∀ k e, map.lookup k = some e → e ≠ .none →
    ∃ k0 e0, map0.lookup k0 = some e0 ∧ e0.SameValue e

theorem SameValue.trans_strdup {e0 : RpcTypeT} (E : Env) (st : State) (h : e0.SameValue e) :
    e0.SameValue (strdupElement E st e) := by
  cases e0 <;> cases e <;> cases h <;> rfl

/-- One alias, on the struct's map: a key with an entry keeps it, another gets what the
original holds now, or `RPC_none`. -/
theorem relink_map {map0 : Table CStr RpcTypeT} {f : CStr × Json} (hs : st.struct? S = some s)
    (hl : Linking map0 s.map) (hok : relink E S st f = .ok st') :
    ∃ s', st'.struct? S = some s' ∧ s'.ID = s.ID ∧ Linking map0 s'.map ∧
      (∀ k, (∃ e, s'.map.lookup k = some e) ↔ k = f.1 ∨ ∃ e, s.map.lookup k = some e) ∧
      ((∃ k, s'.map.lookup k = some .none) ↔ (∃ k, s.map.lookup k = some .none) ∨
        s.map.lookup f.1 = none ∧
          ∀ o, Json.stringValue (some f.2) = some o → s.map.lookup o = none) := by
  -- the element that is set
  obtain ⟨e, hset, he⟩ : ∃ e, Prod.fst <$> rpcStructSetInternal E st S f.1 e = .ok st' ∧
      ((e = .none ∧ ∀ o, Json.stringValue (some f.2) = some o → s.map.lookup o = none) ∨
        ∃ o, Json.stringValue (some f.2) = some o ∧ s.map.lookup o = some e) := by
    refine ⟨_, hok, ?_⟩
    cases hv : Json.stringValue (some f.2) with
    | none => exact .inl ⟨rfl, fun o ho => by cases ho⟩
    | some o =>
      cases ho : s.map.lookup o with
      | none =>
        refine .inl ⟨by simp [rpcStructGetInternal, entry_of_struct hs, ho], fun o' ho' => ?_⟩
        rw [← Option.some.inj ho', ho]
      | some e =>
        refine .inr ⟨o, rfl, ?_⟩
        simp [rpcStructGetInternal, entry_of_struct hs, ho]
  have hnn : e.Nonnull := by
    rcases he with ⟨rfl, -⟩ | ⟨o, -, ho⟩
    · intro hc
      cases hc
    · exact hl.nonnull o e ho
  obtain ⟨s', hs', hid, hmap⟩ := setInternal_map hs hnn hset
  cases hf : s.map.lookup f.1 with
  | some e1 =>
    have hsame : ∀ k, s'.map.lookup k = s.map.lookup k := fun k => by rw [hmap, hf]; simp
    refine ⟨s', hs', hid, ⟨?_, ?_, ?_⟩, fun k => ?_, ?_⟩
    · simp only [hsame]
      exact hl.nonnull
    · simp only [hsame]
      exact hl.kept
    · simp only [hsame]
      exact hl.source
    · simp only [hsame]
      refine ⟨.inr, fun hk => hk.elim (fun hk => ?_) id⟩
      rw [hk]
      exact ⟨e1, hf⟩
    · simp only [hsame]
      exact ⟨.inl, fun hk => hk.elim id fun hk => by cases hk.1⟩
  | none =>
    have hnew : ∀ k, s'.map.lookup k =
        if k = f.1 then some (strdupElement E st e) else s.map.lookup k := fun k => by
      rw [hmap, hf]
      simp
    refine ⟨s', hs', hid, ⟨fun k e' hk => ?_, fun k e' hk => ?_, fun k e' hk hne => ?_⟩,
      fun k => ?_, ?_⟩
    · rw [hnew] at hk
      split at hk
      · cases hk
        exact strdupElement_nonnull E st hnn
      · exact hl.nonnull k e' hk
    · have hkept := hl.kept k e' hk
      rw [hnew, if_neg]
      · exact hkept
      · intro hkf
        rw [hkf, hf] at hkept
        cases hkept
    · rw [hnew] at hk
      split at hk
      · cases hk
        rcases he with ⟨rfl, -⟩ | ⟨o, -, ho⟩
        · exact absurd rfl hne
        · obtain ⟨k0, e0, hk0, hv⟩ := hl.source o e ho (fun hc => hne (by rw [hc]; rfl))
          exact ⟨k0, e0, hk0, SameValue.trans_strdup E st hv⟩
      · exact hl.source k e' hk hne
    · rw [hnew]
      split
      · rename_i hk
        exact ⟨fun _ => .inl hk, fun _ => ⟨_, rfl⟩⟩
      · rename_i hk
        exact ⟨.inr, fun h => h.resolve_left hk⟩
    · constructor
      · intro hk
        obtain ⟨k, hk⟩ := hk
        rw [hnew] at hk
        split at hk
        · have hen := (strdupElement_ne_none E st).1 (Option.some.inj hk)
          rcases he with ⟨-, hall⟩ | ⟨o, ho, hlook⟩
          · exact .inr ⟨rfl, hall⟩
          · exact .inl ⟨o, by rw [hlook, hen]⟩
        · exact .inl ⟨k, hk⟩
      · intro hk
        rcases hk with ⟨k, hk⟩ | ⟨-, hall⟩
        · refine ⟨k, ?_⟩
          rw [hnew, if_neg]
          · exact hk
          · intro hkf
            rw [hkf, hf] at hk
            cases hk
        · refine ⟨f.1, ?_⟩
          rw [hnew, if_pos rfl]
          rcases he with ⟨rfl, -⟩ | ⟨o, ho, hlook⟩
          · rfl
          · rw [hall o ho] at hlook
            cases hlook

/-- The loop over the alias table. -/
theorem relink_resolves {map0 : Table CStr RpcTypeT} (aliases : List (CStr × Json)) :
    ∀ (keys : List CStr) (st st' : State) (s : RpcStruct), st.struct? S = some s →
      Linking map0 s.map → (∀ k, k ∈ keys ↔ ∃ e, s.map.lookup k = some e) →
      aliases.foldlM (relink E S) st = .ok st' →
      ∃ s', st'.struct? S = some s' ∧ s'.ID = s.ID ∧ Linking map0 s'.map ∧
        ((∃ k, s'.map.lookup k = some .none) ↔
          (∃ k, s.map.lookup k = some .none) ∨ resolves keys aliases = false) := by
  induction aliases with
  | nil =>
    intro keys st st' s hs hl hkeys hok
    cases hok
    exact ⟨s, hs, rfl, hl, by simp [resolves]⟩
  | cons f aliases ih =>
    intro keys st st' s hs hl hkeys hok
    rw [List.foldlM_cons] at hok
    obtain ⟨st1, h1, hok⟩ := bind_eq_ok.1 hok
    obtain ⟨s1, hs1, hid1, hl1, hpresent, hnone⟩ := relink_map hs hl h1
    have hkeys1 : ∀ k, k ∈ f.1 :: keys ↔ ∃ e, s1.map.lookup k = some e := fun k => by
      rw [List.mem_cons, hkeys, hpresent]
    obtain ⟨s', hs', hid', hl', hnone'⟩ := ih (f.1 :: keys) st1 st' s1 hs1 hl1 hkeys1 hok
    refine ⟨s', hs', hid'.trans hid1, hl', ?_⟩
    rw [hnone', hnone, resolves, Bool.and_eq_false_iff, or_assoc]
    refine or_congr_right (or_congr_left ?_)
    -- the alias fails: neither its key nor its original has an entry
    have hfree : ∀ k, s.map.lookup k = none ↔ keys.contains k = false := fun k => by
      rw [← Bool.not_eq_true, List.contains_iff_mem, hkeys, ← Option.isSome_iff_exists]
      simp
    rw [Bool.or_eq_false_iff, hfree]
    refine and_congr_right fun _ => ?_
    cases Json.stringValue (some f.2) with
    | none => simp
    | some o => simp [hfree]

end

/-! ## The decoder

As in `Receive.lean` the induction is over the two functions at once, with the depth of
the document for a bound; but here a call is given that returned, and nothing has to be
known of the document. -/

section
variable {E : Env} {st st' : State} {S : Addr} {s : RpcStruct}

/-- The parts `done` were parsed into `S`, empty at first; `s` is `S` now. -/
structure PartsBuilt (E : Env) (S : Addr) (id : List UInt8) (st : State) (done : List (CStr × Json))
    (st' : State) (s : RpcStruct) : Prop where
  counted : Counted st'
  keeps : Keeps {S} st st'
  struct : st'.struct? S = some s
  idSame : s.ID = id
  part : ∀ f ∈ done, f.2.enters = true → ∃ e, s.map.lookup f.1 = some e ∧
    BuiltItem E st' st.dead f.2 e
  source : ∀ k e, s.map.lookup k = some e → e ≠ .none ∧ e.Nonnull ∧
    ∃ item, (k, item) ∈ done ∧ item.enters = true

/-- What an item leaves under a free key. -/
structure ItemBuilt (E : Env) (S : Addr) (key : CStr) (item : Json) (st st' : State) : Prop where
  entered : item.enters = true → ∃ s' e, st'.struct? S = some s' ∧ s'.map.lookup key = some e ∧
    e.Nonnull ∧ BuiltItem E st' st.dead item e
  skipped : item.enters = false → ∃ s', st'.struct? S = some s' ∧ s'.map.lookup key = none

/-- What a call of `item_parse` owes that returned. -/
def ItemBuilds (E : Env) (n : Nat) : Prop :=
  ∀ st S key item s st', Counted st → item.Distinct → 2 * item.depth + 2 ≤ n →
    st.struct? S = some s → s.map.lookup key = none → itemParse E n st S key item = .ok st' →
    ItemBuilt E S key item st st'

/-- And one of `rpc_struct_deserialize`: `NULL`, or a struct made of the document. -/
def StructBuilds (E : Env) (n : Nat) : Prop :=
  ∀ st j st' p, Counted st → j.Distinct → 2 * j.depth + 1 ≤ n →
    structDeserialize E n st j = .ok (st', p) →
    (p ≠ 0 ↔ j.typeName = some (ascii "RPC_struct") ∧ (j.get (ascii "serialised")).isSome) ∧
    (p ≠ 0 → BuiltItem E st' st.dead j (.struct p))

/-- The loop over the parts of a struct or an array. -/
theorem parts_built {n : Nat} (hitem : ItemBuilds E n) (h : Counted st) (hs : st.struct? S = some s)
    (hempty : ∀ k, s.map.lookup k = none) {parts : List (CStr × Json)}
    (hnd : (parts.map Prod.fst).Nodup)
    (hparts : ∀ f ∈ parts, f.2.Distinct ∧ 2 * f.2.depth + 2 ≤ n)
    (hok : parts.foldlM (fun st f => itemParse E n st S f.1 f.2) st = .ok st') :
    ∃ s', PartsBuilt E S s.ID st parts st' s' := by
  have hlive := notMem_dead hs
  have hloop := foldlM_ok_keys (f := fun st (f : CStr × Json) => itemParse E n st S f.1 f.2)
    Prod.fst (fun done st' => ∃ s', PartsBuilt E S s.ID st done st' s') parts [] st st' hnd
    (fun _ _ => List.not_mem_nil)
    ⟨s, h, .refl {S} st, hs, rfl, nofun, fun k e he => by rw [hempty] at he; cases he⟩
    (fun done st1 f st2 hf hnew hI hok => by
      obtain ⟨s1, hb⟩ := hI
      obtain ⟨hdist, hdepth⟩ := hparts f hf
      have hfree : s1.map.lookup f.1 = none := by
        cases hl : s1.map.lookup f.1 with
        | none => rfl
        | some e =>
          obtain ⟨-, -, item, hm, -⟩ := hb.source f.1 e hl
          exact absurd (List.mem_map.2 ⟨_, hm, rfl⟩) hnew
      have hgrown := (((decode_spec E n).2 st1 S f.1 f.2 s1 hb.counted hdist hdepth hb.struct
        hfree).of_ok hok).grown
      have hbuilt := hitem st1 S f.1 f.2 s1 st2 hb.counted hdist hdepth hb.struct hfree hok
      obtain ⟨s2, hs2, hid2, hmap2⟩ := hgrown.struct s1 hb.struct
      refine ⟨s2, hgrown.counted, hb.keeps.trans hgrown.keeps, hs2, hid2.trans hb.idSame,
        fun g hg hin => ?_, fun k e he => ?_⟩
      · rcases List.mem_cons.1 hg with hg | hg
        · subst hg
          obtain ⟨s', e, hs', he, -, hrep⟩ := hbuilt.entered hin
          rw [hs2] at hs'
          cases hs'
          exact ⟨e, he, hrep.later (.refl {S} st2) (notMem_dead hb.struct)
            (hb.keeps.dead_of_live hb.struct)⟩
        · obtain ⟨e, he, hrep⟩ := hb.part g hg hin
          have hne : g.1 ≠ f.1 := fun heq => hnew (List.mem_map.2 ⟨g, hg, heq⟩)
          exact ⟨e, (hmap2 g.1 hne).trans he, hrep.later hgrown.keeps hlive subset_rfl⟩
      · by_cases hk : k = f.1
        · subst hk
          cases hin : f.2.enters with
          | true =>
            obtain ⟨s', e', hs', he', hnn, hrep⟩ := hbuilt.entered hin
            rw [hs2] at hs'
            cases hs'
            rw [he] at he'
            cases he'
            exact ⟨hrep.ne_none, hnn, f.2, List.mem_cons_self, hin⟩
          | false =>
            obtain ⟨s', hs', hno⟩ := hbuilt.skipped hin
            rw [hs2] at hs'
            cases hs'
            rw [he] at hno
            cases hno
        · rw [hmap2 k hk] at he
          obtain ⟨hne, hnn, item, hm, hin⟩ := hb.source k e he
          exact ⟨hne, hnn, item, List.mem_cons_of_mem _ hm, hin⟩)
    hok
  obtain ⟨s', hb⟩ := hloop
  rw [List.append_nil] at hb
  exact ⟨s', hb.counted, hb.keeps, hb.struct, hb.idSame,
    fun f hf => hb.part f (List.mem_reverse.2 hf), fun k e he => by
      obtain ⟨hne, hnn, item, hm, hin⟩ := hb.source k e he
      exact ⟨hne, hnn, item, List.mem_reverse.1 hm, hin⟩⟩

/-- Which keys these are. -/
theorem mem_enteredKeys {parts : List (CStr × Json)} {k : CStr} :
    k ∈ enteredKeys parts ↔ ∃ item, (k, item) ∈ parts ∧ item.enters = true := by
  constructor
  · intro hk
    obtain ⟨f, hf, rfl⟩ := List.mem_map.1 hk
    obtain ⟨hm, hin⟩ := List.mem_filter.1 hf
    exact ⟨f.2, hm, hin⟩
  · intro hk
    obtain ⟨item, hm, hin⟩ := hk
    exact List.mem_map.2 ⟨(k, item), List.mem_filter.2 ⟨hm, hin⟩, rfl⟩

/-- Once all parts are parsed, they are the keys of the struct. -/
theorem PartsBuilt.mem_keys {id : List UInt8} {parts : List (CStr × Json)}
    (h : PartsBuilt E S id st parts st' s) (k : CStr) :
    k ∈ enteredKeys parts ↔ ∃ e, s.map.lookup k = some e := by
  rw [mem_enteredKeys]
  constructor
  · intro hk
    obtain ⟨item, hm, hin⟩ := hk
    obtain ⟨e, he, -⟩ := h.part (k, item) hm hin
    exact ⟨e, he⟩
  · intro hk
    obtain ⟨e, he⟩ := hk
    exact (h.source k e he).2.2

/-- Where the aliases start. -/
theorem PartsBuilt.linking {id : List UInt8} {parts : List (CStr × Json)}
    (h : PartsBuilt E S id st parts st' s) : Linking s.map s.map :=
  ⟨fun k e he => (h.source k e he).2.1, fun _ _ he => he, fun k e he _ => ⟨k, e, he, by
    cases e <;> rfl⟩⟩

/-- The entries after the parts `parts` and the aliases. -/
theorem PartsBuilt.entered {id : List UInt8} {parts aliases : List (CStr × Json)}
    {s' : RpcStruct} (h : PartsBuilt E S id st parts st' s) (hl : Linking s.map s'.map)
    (hnone : (∃ k, s'.map.lookup k = some .none) ↔
      (∃ k, s.map.lookup k = some .none) ∨ resolves (enteredKeys parts) aliases = false) :
    Entered s'.map parts aliases := by
  refine ⟨fun f hf hin => ?_, fun k e he hne => ?_, ?_⟩
  · obtain ⟨e, he, hrep⟩ := h.part f hf hin
    exact ⟨e, hl.kept f.1 e he, hrep.ne_none⟩
  · obtain ⟨k0, e0, hk0, hv⟩ := hl.source k e he hne
    obtain ⟨-, -, item, hm, hin⟩ := h.source k0 e0 hk0
    exact ⟨(k0, item), hm, hin, e0, hl.kept k0 e0 hk0, hv⟩
  · rw [hnone, or_iff_right]
    intro hk
    obtain ⟨k, hk⟩ := hk
    exact (h.source k _ hk).1 rfl

/-- One more level for structs: the parts, then the aliases, on a struct with the ID of the
document. -/
theorem struct_built {n : Nat} (hitem : ItemBuilds E n) : StructBuilds E (n + 1) := by
  intro st j st' p h hj hn hok
  have hbad : ∀ {st2 : State} {new : Addr}, badExit E st2 new = .ok (st', p) → p = 0 := by
    intro st2 new hok
    obtain ⟨st3, -, hok⟩ := bind_eq_ok.1 hok
    cases hok
    rfl
  have hno : ∀ (Q : Prop), p = 0 → ¬ Q → (p ≠ 0 ↔ Q) ∧ (p ≠ 0 → BuiltItem E st' st.dead j (.struct p)) :=
    fun Q hp hQ => ⟨⟨fun h0 => absurd hp h0, fun hQ' => absurd hQ' hQ⟩, fun h0 => absurd hp h0⟩
  rw [structDeserialize_eq] at hok
  obtain ⟨st2, hid, hok⟩ := bind_eq_ok.1 hok
  rw [(idPhase_spec E st j).of_ok hid] at hok
  unfold parsePhase at hok
  cases hty : j.get (ascii "type") with
  | none =>
    rw [hty] at hok
    exact hno _ (hbad hok) fun hQ => by rw [Json.typeName, hty] at hQ; cases hQ.1
  | some type =>
    simp only [hty] at hok
    cases hstr : Json.stringValue (some type) with
    | none =>
      rw [hstr] at hok
      cases hok
    | some t =>
      simp only [hstr] at hok
      have hname : j.typeName = some t := by rw [Json.typeName, hty, hstr]
      by_cases ht : t = ascii "RPC_struct"
      · rw [if_pos ht] at hok
        cases hdata : j.get (ascii "serialised") with
        | none =>
          rw [hdata] at hok
          exact hno _ (hbad hok) fun hQ => by cases hQ.2
        | some data =>
          simp only [hdata] at hok
          obtain ⟨st3, hloop, hok⟩ := bind_eq_ok.1 hok
          obtain ⟨st4, halias, hok⟩ := bind_eq_ok.1 hok
          cases hok
          obtain ⟨hc2, hk2, hs2⟩ := started_spec (E := E) h (idField E st j)
          have hdist := Json.distinct_get hj hdata
          have hdeep := Json.depth_get hdata
          obtain ⟨s3, hb⟩ := parts_built hitem hc2 hs2 (fun _ => rfl) (Json.nodup_fields hdist)
            (fun f hf => ⟨Json.distinct_of_mem hdist hf, by
              have := Json.depth_of_mem hf
              omega⟩) hloop
          obtain ⟨s4, hs4, hid4, hl, hnone⟩ := relink_resolves _ (enteredKeys data.fields) st3 st'
            s3 hb.struct hb.linking hb.mem_keys halias
          have hdupnd : ((Json.aliases j).map Prod.fst).Nodup := by
            unfold Json.aliases
            cases hdup : j.get (ascii "duplicates") with
            | none => exact List.nodup_nil
            | some dups => exact Json.nodup_fields (Json.distinct_get hj hdup)
          obtain ⟨st4', hok4, -, hk4, -⟩ := relink_loop (E := E) hb.counted hb.struct hdupnd
          have hst4 : st4' = st' := by
            rw [show (Json.aliases j).foldlM (relink E (E.malloc st)) st3 = .ok st' from halias] at hok4
            exact (Except.ok.inj hok4).symm
          rw [hst4] at hk4
          have hm0 := malloc_ne_zero E st
          refine ⟨⟨fun _ => ⟨by rw [hname, ht], rfl⟩, fun _ => hm0⟩, fun _ => ?_⟩
          obtain ⟨fs, rfl⟩ : ∃ fs, j = .obj fs := by
            cases j with
            | obj fs => exact ⟨fs, rfl⟩
            | _ => cases hdata
          refine .struct (by rw [hname, ht]) hdata (malloc_dead E st) hs4 (hid4.trans hb.idSame)
            (hb.entered hl hnone) fun k item e hm hin he => ?_
          obtain ⟨e', he', hrep⟩ := hb.part (k, item) hm hin
          rw [hl.kept k e' he'] at he
          cases he
          exact hrep.later hk4 (notMem_dead hs2) hk2.dead
      · rw [if_neg ht] at hok
        refine hno _ (hbad hok) fun hQ => ?_
        rw [hname] at hQ
        exact ht (Option.some.inj hQ.1)

/-- A value computed for `item` in state `st`; `NULL` for one that leaves no entry. -/
structure ValueBuilt (E : Env) (item : Json) (st : State) (r : State × RpcTypeT) : Prop where
  counted : Counted r.1
  keeps : Keeps ∅ st r.1
  target : ∀ p, r.2.target = some p → p ≠ 0 → ∃ o, r.1.heap.lookup p = some o ∧ o.type = r.2.type
  entered : item.enters = true → r.2.Nonnull ∧ BuiltItem E r.1 st.dead item r.2
  skipped : item.enters = false → rpcIsPointer r.2.type = true ∧ r.2.ptrValue = 0

/-- A value that was built is put under its key, unless it is `NULL`. -/
theorem setWith_built {key : CStr} {item : Json} {value : State → Except Fault (State × RpcTypeT)}
    (hs : st.struct? S = some s) (hkey : s.map.lookup key = none)
    (hvalue : ∀ r, value st = .ok r → ValueBuilt E item st r)
    (hok : setWith E st S key value = .ok st') : ItemBuilt E S key item st st' := by
  have hfree : ¬ rpcStructExists st S key = true := by
    rw [rpcStructExists, rpcStructGetInternal, entry_of_struct hs, hkey]
    decide
  rw [setWith, if_neg hfree] at hok
  obtain ⟨r, hr, hset⟩ := bind_eq_ok.1 hok
  have hok : Prod.fst <$> rpcStructSetInternal E r.1 S key r.2 = .ok st' := hset
  have hval := hvalue r hr
  obtain ⟨s1, hs1, -, hmap1⟩ := hval.keeps.struct (Set.notMem_empty S) hs
  obtain ⟨st2, hok2, hgrown, -⟩ := setInternal_spec (E := E) (k := key) hval.counted hs1 hval.target
  rw [hok2] at hok
  cases hok
  refine ⟨fun hin => ?_, fun hin => ?_⟩
  · obtain ⟨hnn, hrep⟩ := hval.entered hin
    obtain ⟨s2, hs2, -, hmap2⟩ := setInternal_map hs1 hnn hok2
    refine ⟨s2, _, hs2, by rw [hmap2, if_pos ⟨rfl, by rw [hmap1, hkey]⟩],
      strdupElement_nonnull E r.1 hnn, ?_⟩
    exact (hrep.later hgrown.keeps (notMem_dead hs) subset_rfl).congr_value
      (sameValue_strdupElement r.2)
  · obtain ⟨hptr, hnull⟩ := hval.skipped hin
    have hsame : st' = r.1 := by
      simp [rpcStructSetInternal, hs1, hptr, hnull] at hok2
      exact hok2.symm
    rw [hsame]
    exact ⟨s1, hs1, by rw [hmap1, hkey]⟩

/-- A value with no object of its own. -/
theorem ValueBuilt.plain (h : Counted st) {item : Json} {e : RpcTypeT} (hin : item.enters = true)
    (ht : e.target = none) (hnn : e.Nonnull) (hrep : BuiltItem E st st.dead item e) :
    ValueBuilt E item st (st, e) :=
  ⟨h, .refl ∅ st, fun p hp => (Option.some_ne_none p (hp.symm.trans ht)).elim,
    fun _ => ⟨hnn, hrep⟩, fun hno => by rw [hin] at hno; cases hno⟩

/-- Which objects leave an entry: a function and a sizedbuf always, a struct only if it has
`serialised`. -/
theorem enters_obj {fs : List (CStr × Json)} {t : CStr} (ht : Json.typeName (.obj fs) = some t) :
    (Json.obj fs).enters = true ↔ t = ascii "RPC_function" ∨ t = ascii "RPC_sizedbuf" ∨
      t = ascii "RPC_struct" ∧ (Json.get (.obj fs) (ascii "serialised")).isSome = true := by
  simp only [Json.enters, ht, Option.some.injEq, decide_eq_true_eq]

/-- The two leaves. -/
theorem function_built (h : Counted st) {fs : List (CStr × Json)}
    (hty : Json.typeName (.obj fs) = some (ascii "RPC_function")) {r : State × Addr}
    (hok : rpcFunctionDeserialize E st (.obj fs) = .ok r) :
    ValueBuilt E (.obj fs) st (r.1, .function r.2) := by
  obtain ⟨hc, hk⟩ := create_counted E h (o := .function (Json.toFunction (.obj fs))) nofun
  have hlive : (st.setObj (E.malloc st) (.function (Json.toFunction (.obj fs)))).heap.lookup
      (E.malloc st) = some (.function (Json.toFunction (.obj fs))) := by
    rw [lookup_setObj, if_pos rfl]
  have hin := (enters_obj hty).2 (.inl rfl)
  have hval : ValueBuilt E (.obj fs) st (st.setObj (E.malloc st) (.function
      (Json.toFunction (.obj fs))), .function (E.malloc st)) := by
    refine ⟨hc, hk, fun p hp _ => ?_, fun _ => ⟨fun _ => malloc_ne_zero E st, ?_⟩, fun hno => ?_⟩
    · cases hp
      exact ⟨_, hlive, rfl⟩
    · exact .function hty (malloc_dead E st) hlive
    · rw [hin] at hno; cases hno
  rw [functionDeserialize_eq hty] at hok
  cases hok
  exact hval

theorem sizedbuf_built (h : Counted st) {fs : List (CStr × Json)}
    (hty : Json.typeName (.obj fs) = some (ascii "RPC_sizedbuf")) {r : State × Addr}
    (hok : rpcSizedbufDeserialize E st (.obj fs) = .ok r) :
    ValueBuilt E (.obj fs) st (r.1, .sizedbuf r.2) := by
  obtain ⟨hc, hk⟩ := create_counted E h (o := .sizedbuf (Json.toSizedbuf (.obj fs))) nofun
  have hlive : (st.setObj (E.malloc st) (.sizedbuf (Json.toSizedbuf (.obj fs)))).heap.lookup
      (E.malloc st) = some (.sizedbuf (Json.toSizedbuf (.obj fs))) := by
    rw [lookup_setObj, if_pos rfl]
  have hin := (enters_obj hty).2 (.inr (.inl rfl))
  have hval : ValueBuilt E (.obj fs) st (st.setObj (E.malloc st) (.sizedbuf
      (Json.toSizedbuf (.obj fs))), .sizedbuf (E.malloc st)) := by
    refine ⟨hc, hk, fun p hp _ => ?_, fun _ => ⟨fun _ => malloc_ne_zero E st, ?_⟩, fun hno => ?_⟩
    · cases hp
      exact ⟨_, hlive, rfl⟩
    · exact .sizedbuf hty (malloc_dead E st) hlive
    · rw [hin] at hno; cases hno
  rw [sizedbufDeserialize_eq hty] at hok
  cases hok
  exact hval

/-- An array, whose items are parsed once its struct is under the key. -/
theorem array_built {n : Nat} (hitem : ItemBuilds E n) {key : CStr} {l : List Json}
    (h : Counted st) (hdist : (Json.arr l).Distinct) (hn : 2 * (Json.arr l).depth + 2 ≤ n + 1)
    (hs : st.struct? S = some s) (hkey : s.map.lookup key = none)
    (hok : itemParse E (n + 1) st S key (.arr l) = .ok st') :
    ItemBuilt E S key (.arr l) st st' := by
  obtain ⟨hc1, hk1, ha1⟩ := started_spec (E := E) h (E.random st ++ [0])
  obtain ⟨s1, hs1, -, hmap1⟩ := hk1.struct (Set.notMem_empty S) hs
  have hSa : S ≠ E.malloc st := fun hm => notMem_dead hs (hm ▸ malloc_dead E st)
  unfold itemParse at hok
  obtain ⟨st2, hset, hok⟩ := bind_eq_ok.1 hok
  -- the new struct goes into `S`, and the items into the new struct
  have hfree : ¬ rpcStructExists (started E st (E.random st ++ [0])) S key = true := by
    rw [rpcStructExists, rpcStructGetInternal, entry_of_struct hs1, hmap1, hkey]
    decide
  have hset' : Prod.fst <$> rpcStructSetInternal E (started E st (E.random st ++ [0])) S key
      (.struct (E.malloc st)) = .ok st2 := by
    rw [← hset]
    exact (if_neg hfree).symm
  have hnn : (RpcTypeT.struct (E.malloc st)).Nonnull := fun _ => malloc_ne_zero E st
  obtain ⟨st2', hok2, hgrown, -⟩ := setInternal_spec (E := E) (k := key) hc1 hs1
    (e := .struct (E.malloc st)) fun p hp _ => by
      cases hp
      exact ⟨_, struct?_eq_some.1 ha1, rfl⟩
  rw [hset'] at hok2
  cases hok2
  obtain ⟨s2, hs2, -, hmap2⟩ := setInternal_map hs1 hnn hset'
  obtain ⟨a2, ha2, -, hamap⟩ := hgrown.keeps.struct (S := E.malloc st) (Ne.symm hSa) ha1
  have hloop : (arrayFields l).foldlM (fun st' f => itemParse E n st' (E.malloc st) f.1 f.2) st2 =
      .ok st' := by
    rw [arrayFields, List.foldlM_map]
    exact hok
  obtain ⟨a3, hb⟩ := parts_built hitem hgrown.counted ha2 (fun k => by rw [hamap]; rfl)
    (nodup_arrayFields l) (fun f hf => by
      have hmem := mem_arrayFields.1 ⟨f, hf, rfl⟩
      have hdeep := Json.depth_item hmem
      simp only [Json.depth] at hn
      exact ⟨Json.distinct_item hdist hmem, by omega⟩) hloop
  refine ⟨fun _ => ?_, fun hc => by cases hc⟩
  obtain ⟨s3, hs3, -, hmap3⟩ := hb.keeps.struct (S := S) hSa hs2
  refine ⟨s3, .struct (E.malloc st), hs3, ?_, hnn, .arr (malloc_dead E st) hb.struct
    (hb.entered hb.linking (by simp [resolves])) fun k item e hm hin he => ?_⟩
  · rw [hmap3, hmap2, if_pos ⟨rfl, by rw [hmap1, hkey]⟩]
    rfl
  · obtain ⟨e', he', hrep⟩ := hb.part (k, item) hm hin
    rw [he] at he'
    cases he'
    refine hrep.later (.refl {E.malloc st} st') (notMem_dead ha2) fun a ha => ?_
    exact hk1.dead (hgrown.keeps.dead_of_live hs2 ha)

/-- One more level for items, one case for each kind. -/
theorem item_built {n : Nat} (hstruct : StructBuilds E n) (hitem : ItemBuilds E n) :
    ItemBuilds E (n + 1) := by
  intro st S key item s st' h hdist hn hs hkey hok
  have hplain : ∀ {item : Json} {e : RpcTypeT}, item.enters = true → e.target = none →
      e.Nonnull → BuiltItem E st st.dead item e →
      setWith E st S key (fun st => .ok (st, e)) = .ok st' → ItemBuilt E S key item st st' :=
    fun hin ht hnn hrep hok => setWith_built hs hkey (fun r hr => by
      cases hr
      exact .plain h hin ht hnn hrep) hok
  cases item with
  | int i => exact hplain (e := .number (toLE 8 i.toNat)) rfl rfl nofun .int hok
  | real bits => exact hplain (e := .real bits) rfl rfl nofun .real hok
  | str t => exact hplain (e := .string 1 t) rfl rfl (fun _ => Nat.one_ne_zero) .str hok
  | bool b => cases hok; exact ⟨nofun, fun _ => ⟨s, hs, hkey⟩⟩
  | null => cases hok; exact ⟨nofun, fun _ => ⟨s, hs, hkey⟩⟩
  | arr l => exact array_built hitem h hdist hn hs hkey hok
  | obj fs =>
    unfold itemParse at hok
    cases ht : Json.stringValue (Json.get (.obj fs) (ascii "type")) with
    | none =>
      simp only [ht] at hok
      cases hok
    | some t =>
      have hname : Json.typeName (.obj fs) = some t := ht
      simp only [ht] at hok
      split at hok
      · rename_i h1
        subst h1
        refine setWith_built hs hkey (fun r hr => ?_) hok
        obtain ⟨⟨st1, p⟩, hr1, hr⟩ := bind_eq_ok.1 hr
        cases hr
        have hparsed := ((decode_spec E n).1 st (.obj fs) h hdist (by omega)).of_ok hr1
        obtain ⟨hiff, hbuilt⟩ := hstruct st (.obj fs) st1 p h hdist (by omega) hr1
        have hin : (Json.obj fs).enters = true ↔ p ≠ 0 := by
          have hfn : ¬ ascii "RPC_struct" = ascii "RPC_function" := by decide
          have hbuf : ¬ ascii "RPC_struct" = ascii "RPC_sizedbuf" := by decide
          rw [hiff, enters_obj hname, or_iff_right hfn, or_iff_right hbuf, hname]
          simp only [true_and]
        refine ⟨hparsed.counted, hparsed.keeps, fun q hq hq0 => ?_, fun he => ?_, fun hno => ?_⟩
        · cases hq
          obtain ⟨s', hs'⟩ := hparsed.live hq0
          exact ⟨_, struct?_eq_some.1 hs', rfl⟩
        · exact ⟨fun _ => hin.1 he, hbuilt (hin.1 he)⟩
        · refine ⟨rfl, ?_⟩
          by_contra hp
          rw [hin.2 hp] at hno
          cases hno
      · rename_i h1
        split at hok
        · rename_i h2
          subst h2
          refine setWith_built hs hkey (fun r hr => ?_) hok
          obtain ⟨r1, hr1, hr⟩ := bind_eq_ok.1 hr
          cases hr
          exact function_built h hname hr1
        · rename_i h2
          split at hok
          · rename_i h3
            subst h3
            refine setWith_built hs hkey (fun r hr => ?_) hok
            obtain ⟨r1, hr1, hr⟩ := bind_eq_ok.1 hr
            cases hr
            exact sizedbuf_built h hname hr1
          · rename_i h3
            cases hok
            refine ⟨fun hin => ?_, fun _ => ⟨s, hs, hkey⟩⟩
            rcases (enters_obj hname).1 hin with hc | hc | hc
            · exact absurd hc h2
            · exact absurd hc h3
            · exact absurd hc.1 h1

/-- Both, at every bound. -/
theorem decode_built (E : Env) (n : Nat) : StructBuilds E n ∧ ItemBuilds E n := by
  induction n with
  | zero => exact ⟨fun st j _ _ _ _ hn => by omega, fun st S key item s _ _ _ hn => by omega⟩
  | succ n ih => exact ⟨struct_built ih.2, item_built ih.1 ih.2⟩

/-- What `rpc_struct_deserialize` returns for any document. -/
theorem deserialize_built (h : Counted st) (d : Document) {p : Addr}
    (hok : rpcStructDeserialize E st (some d.json) = .ok (st', p)) :
    (p ≠ 0 ↔ d.json.typeName = some (ascii "RPC_struct") ∧
      (d.json.get (ascii "serialised")).isSome) ∧
    (p ≠ 0 → BuiltItem E st' st.dead d.json (.struct p)) :=
  (decode_built E (decodeFuel d.json)).1 st d.json st' p h d.distinct (Nat.le_refl _) hok

end

end FfiRpc
