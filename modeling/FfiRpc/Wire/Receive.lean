import FfiRpc.Wire.Parse

/-!
# What deserialisation does

`decode_spec` follows `rpc_struct_deserialize` and `item_parse` through any
document, by induction on the bound of their nesting: they return exactly on the
documents of `SafeStruct`; they build on fresh addresses and change no object
but the struct being filled (`Keeps`); and what they build from a document that
serialisation wrote has its content (`RepItem`).
-/
namespace FfiRpc

open State

/-! ## Structs

What is owed for a struct is two things at once. On any document: the invariant of the
tracker, no object lost, and a live struct unless the result is `NULL`. On a document
that serialisation wrote: its content, aliases included. The first is what the induction
runs on, since a document from the wire need not be written by anybody. -/

/-- `r` is what came of the document `j` in state `st`. -/
structure StructParsed (j : Json) (st : State) (r : State × Addr) : Prop where
  counted : Counted r.1
  keeps : Keeps ∅ st r.1
  live : r.2 ≠ 0 → ∃ s, r.1.struct? r.2 = some s
  content : Written j → j.typeName = some (ascii "RPC_struct") →
    r.2 ≠ 0 ∧ RepItem r.1 st.dead True (.struct r.2) j

/-- The parts of a written struct's document, with the struct `s` it was written from.
A field that stood for an object there has a type name. -/
theorem Written.struct {j : Json} (h : Written j) (hty : j.typeName = some (ascii "RPC_struct")) :
    ∃ id s ser dup, j = structJson id ser dup ∧ id.length = 64 ∧ Fields False s ser dup ∧
      (∀ f ∈ ser, Written f.2) ∧
      ∀ k item e p, ser.lookup k = some item → s.map.lookup k = some e → e.target = some p →
        ∃ t, item.typeName = some t := by
  obtain ⟨st, A, _, h⟩ := h
  cases h with
  | @struct S s id ser dup hS hs hid hlen hf hrep =>
    refine ⟨id, s, ser, dup, rfl, hlen, hf, fun f hfm => ?_, fun k item e p hk he ht => ?_⟩
    · have hlook := Json.lookup_of_mem hf.serNodup (k := f.1) (j := f.2) hfm
      obtain ⟨e, he⟩ := hf.key f.1 f.2 hlook
      exact ⟨st, A, e, hrep f.1 f.2 e hlook he⟩
    · have hitem := hrep k item e hk he
      cases hitem with
      | sizedbuf => exact ⟨_, typeName_sizedbuf _⟩
      | function => exact ⟨_, typeName_function _⟩
      | struct => exact ⟨_, typeName_struct ..⟩
      | _ => cases ht
  | sizedbuf =>
    rw [typeName_sizedbuf] at hty
    exact absurd hty (by decide)
  | function =>
    rw [typeName_function] at hty
    exact absurd hty (by decide)
  | _ => cases hty

/-- What stands for an object in a document is an object. -/
theorem RepItem.target_of_typeName {st : State} {A : Set Addr} {dec : Prop} {e : RpcTypeT}
    {j : Json} (h : RepItem st A dec e j) {t : CStr} (ht : j.typeName = some t) :
    ∃ p, e.target = some p := by
  cases h with
  | sizedbuf => exact ⟨_, rfl⟩
  | function => exact ⟨_, rfl⟩
  | struct => exact ⟨_, rfl⟩
  | _ => cases ht

/-- The fields of the struct built from `serialised` and `duplicates`: `s0` was written,
`s3` is what the first loop built and `s4` what the second made of it. An alias of the
document names a field that stands for an object, so both keys hold one address in the
end (`hlink`), and two keys hold one address only if the document says so (`hapart`). -/
theorem Fields.decoded {s0 s3 s4 : RpcStruct} {ser dup : List (CStr × Json)} {st3 : State}
    {A : Set Addr} (h : Fields False s0 ser dup)
    (hname : ∀ k item e p, ser.lookup k = some item → s0.map.lookup k = some e →
      e.target = some p → ∃ t, item.typeName = some t)
    (hfree : ∀ k, k ∉ ser.map Prod.fst → s3.map.lookup k = none)
    (hrep : ∀ k item, ser.lookup k = some item → ∃ e, s3.map.lookup k = some e ∧
      RepItem st3 A True e item)
    (hapart : ∀ k k' item item' e e' p, ser.lookup k = some item → ser.lookup k' = some item' →
      s3.map.lookup k = some e → s3.map.lookup k' = some e' → e.target = some p →
      e'.target = some p → k = k')
    (hsame : ∀ k, k ∉ dup.map Prod.fst → s4.map.lookup k = s3.map.lookup k)
    (hlink : ∀ k original e p, (k, Json.str original) ∈ dup → s3.map.lookup k = none →
      original ∉ dup.map Prod.fst → s3.map.lookup original = some e → e.target = some p →
      s4.map.lookup k = some e) : Fields True s4 ser dup ∧
    ∀ k item, ser.lookup k = some item → s4.map.lookup k = s3.map.lookup k := by
  -- no key is both a field and an alias, so the second loop leaves the fields alone
  have hser : ∀ k item, ser.lookup k = some item → s4.map.lookup k = s3.map.lookup k := by
    intro k item hk
    refine hsame k fun hd => ?_
    obtain ⟨d, hd⟩ := Json.mem_keys_iff.1 hd
    rw [(h.aliased k d hd).1] at hk; cases hk
  refine ⟨⟨h.serNodup, h.dupNodup, fun k item hk => ?_, fun k d hk => ?_, fun k e he _ => ?_, ?_⟩,
    hser⟩
  · obtain ⟨e, he, -⟩ := hrep k item hk
    exact ⟨e, (hser k item hk).trans he⟩
  · obtain ⟨hknone, orig, item, e0, p0, rfl, hor, hor0, -, ht0⟩ := h.aliased k d hk
    obtain ⟨e, he, hitem⟩ := hrep orig item hor
    obtain ⟨t, ht⟩ := hname orig item e0 p0 hor hor0 ht0
    obtain ⟨p, hp⟩ := hitem.target_of_typeName ht
    have hk3 : s3.map.lookup k = none := hfree k fun hm => by
      obtain ⟨j, hj⟩ := Json.mem_keys_iff.1 hm
      rw [hknone] at hj; cases hj
    have horig : orig ∉ dup.map Prod.fst := fun hm => by
      obtain ⟨j, hj⟩ := Json.mem_keys_iff.1 hm
      rw [(h.aliased orig j hj).1] at hor; cases hor
    exact ⟨hknone, orig, item, e, p, rfl, hor, (hser orig item hor).trans he,
      hlink k orig e p (Json.lookup_mem hk) hk3 horig he hp, hp⟩
  · by_cases hd : k ∈ dup.map Prod.fst
    · exact .inr (Json.mem_keys_iff.1 hd)
    · refine .inl (Json.mem_keys_iff.1 (Classical.byContradiction fun hs => ?_))
      rw [hsame k hd, hfree k hs] at he; cases he
  · intro k k' item item' e e' p hk hk' he he' ht ht'
    rw [hser k item hk] at he
    rw [hser k' item' hk'] at he'
    exact hapart k k' item item' e e' p hk hk' he he' ht ht'

/-! ## The decoder

A call is the struct with its ID (`idPhase`) and then the parsing (`parsePhase`). The
one can overrun the ID's field; the other can hand `NULL` to `strcmp`, take the bad exit,
or fill the struct. -/

section Decoder
variable {E : Env} {st : State}

/-- The struct a call starts with. -/
def started (E : Env) (st : State) (id : List UInt8) : State :=
  st.setObj (E.malloc st) (.struct ⟨∅, id, 0⟩)

/-- It is empty, and nothing else has changed. -/
theorem started_spec (h : Counted st) (id : List UInt8) :
    Counted (started E st id) ∧ Keeps ∅ st (started E st id) ∧
      (started E st id).struct? (E.malloc st) = some ⟨∅, id, 0⟩ := by
  obtain ⟨hc, hk⟩ := create_counted E h (o := .struct ⟨∅, id, 0⟩) fun s hs => by cases hs; rfl
  exact ⟨hc, hk, by rw [started, struct?_setObj_struct, if_pos rfl]⟩

/-- An ID that fits overwrites the front of the random one; what lies behind stays. -/
theorem idSet_started {r s : List UInt8} (hlen : s.length ≤ r.length) :
    rpcStructIdSet (started E st r) (E.malloc st) s =
      .ok (started E st (s ++ r.drop s.length)) := by
  have hs : (started E st r).struct? (E.malloc st) = some ⟨∅, r, 0⟩ := by
    rw [started, struct?_setObj_struct, if_pos rfl]
  rw [rpcStructIdSet, hs]
  simp only [if_neg (Nat.not_lt.2 hlen), started, State.setObj, AList.insert_insert]

/-- The bad exit takes the struct back: it releases an object that is not tracked and
holds nothing, so nothing goes with it. -/
theorem badExit_spec (h : Counted st) (id : List UInt8) :
    ∃ st', badExit E (started E st id) (E.malloc st) = .ok (st', 0) ∧ Counted st' ∧
      Keeps ∅ st st' := by
  obtain ⟨hc, hk, hs⟩ := started_spec (E := E) h id
  have hloud : E.malloc st ∉ (started E st id).silent := by
    refine Sane.loud_of_untracked ?_
    cases hr : st.tracker.lookup (E.malloc st) with
    | none => exact hr
    | some r =>
      obtain ⟨-, o, ho, -⟩ := h.tracked _ r hr
      rw [malloc_dead] at ho; cases ho
  obtain ⟨st', hok, hinv, hout⟩ := free_spec E hc (struct?_eq_some.1 hs) hloud
  have hframe : Frame {E.malloc st} (started E st id) st' := by
    refine Outcome.frame hout fun a ha => ⟨fun hR => ha ?_, fun k hh => ?_⟩
    · -- nothing is held by the new struct, so nothing else goes
      refine Ownership.reclaimed_subset (X := {E.malloc st}) (fun q e _ he hall => ?_) subset_rfl hR
      exfalso
      have hsrc : e.1 = E.malloc st := hall e he (Set.notMem_empty e)
      have hheld : (started E st id).held (E.malloc st) e.2 = some q := by
        rw [← hsrc]
        exact he
      rw [State.held, entry_of_struct hs, AList.lookup_empty] at hheld
      cases hheld
    · -- and nothing holds it, so no entry goes
      have hheld : (started E st id).held a k = some (E.malloc st) := hh
      have hne : a ≠ E.malloc st := ha
      have hsame : (started E st id).held a k = st.held a k :=
        held_congr (by rw [started, lookup_setObj, if_neg hne]) k
      rw [hsame] at hheld
      obtain ⟨-, x, -, hx, -⟩ := h.tracked_of_held (Set.notMem_empty _) hheld
      rw [malloc_dead] at hx; cases hx
  refine ⟨st', ?_, hinv.counted,
    ((hk.mono (Set.empty_subset _)).trans hframe.keeps).of_dead fun a ha => ?_⟩
  · have hfree : rpcStructFree E (started E st id) (E.malloc st) = .ok st' := hok
    rw [badExit, hfree]
    rfl
  · rw [Set.mem_singleton_iff.1 ha, malloc_dead]

/-- `SafeStruct` in the order in which the decoder looks at the fields. -/
theorem safeStruct_iff {j : Json} : SafeStruct j ↔
    (∀ v, j.get (ascii "ID") = some v → ∃ s, v = .str s ∧ s.length ≤ 65) ∧
    (∀ v, j.get (ascii "type") = some v → ∃ s, v = .str s) ∧
    ∀ data, j.get (ascii "type") = some (.str (ascii "RPC_struct")) →
      j.get (ascii "serialised") = some data → ∀ f ∈ data.fields, SafeItem f.2 :=
  ⟨fun h => by cases h with | mk h1 h2 h3 => exact ⟨h1, h2, h3⟩, fun h => .mk h.1 h.2.1 h.2.2⟩

theorem stringValue_eq_some {v : Json} {s : CStr} (h : Json.stringValue (some v) = some s) :
    v = .str s := by
  cases v <;> cases h
  rfl

theorem stringValue_eq_none {v : Json} (h : Json.stringValue (some v) = none) (s : CStr) :
    v ≠ .str s := by
  intro hv
  rw [hv] at h; cases h

/-- The bytes of the ID field after the ID of `j` was stored. -/
def idField (E : Env) (st : State) (j : Json) : List UInt8 :=
  match Json.stringValue (j.get (ascii "ID")) with
  | none => E.random st ++ [0]
  | some s => s ++ (E.random st ++ [0]).drop s.length

/-- The first half of a call: the struct and its ID. -/
def idPhase (E : Env) (st : State) (j : Json) : Except Fault State :=
  match j.get (ascii "ID") with
  | none => .ok (started E st (E.random st ++ [0]))
  | some ID =>
    match Json.stringValue (some ID) with
    | none => .error .nullString
    | some s => rpcStructIdSet (started E st (E.random st ++ [0])) (E.malloc st) s

/-- The second half, on the struct `new`. -/
def parsePhase (E : Env) (n : Nat) (j : Json) (new : Addr) (st : State) :
    Except Fault (State × Addr) :=
  match j.get (ascii "type") with
  | none => badExit E st new
  | some type =>
    match Json.stringValue (some type) with
    | none => .error .nullString
    | some t =>
      if t = ascii "RPC_struct" then
        match j.get (ascii "serialised") with
        | none => badExit E st new
        | some data => do
          let st3 ← data.fields.foldlM (fun st f => itemParse E n st new f.1 f.2) st
          let st4 ← (((j.get (ascii "duplicates")).map Json.fields).getD []).foldlM (relink E new) st3
          .ok (st4, new)
      else badExit E st new

/-- The call is its two halves, one after the other. -/
theorem structDeserialize_eq (n : Nat) (j : Json) :
    structDeserialize E (n + 1) st j = idPhase E st j >>= parsePhase E n j (E.malloc st) := by
  have hparse : ∀ st' new, (match j.get (ascii "type") with
      | none => badExit E st' new
      | some type =>
        match Json.stringValue (some type) with
        | none => .error .nullString
        | some t =>
          if t = ascii "RPC_struct" then
            match j.get (ascii "serialised") with
            | none => badExit E st' new
            | some data => do
              let st3 ← data.fields.foldlM (fun st f => itemParse E n st new f.1 f.2) st'
              match j.get (ascii "duplicates") with
              | none => Except.ok (st3, new)
              | some duplicates => do
                let st4 ← duplicates.fields.foldlM (relink E new) st3
                .ok (st4, new)
          else badExit E st' new) = parsePhase E n j new st' := by
    intro st' new
    unfold parsePhase
    cases j.get (ascii "duplicates") <;> rfl
  unfold structDeserialize idPhase
  cases j.get (ascii "ID") with
  | none => exact hparse _ _
  | some ID =>
    simp only
    cases Json.stringValue (some ID) with
    | none => rfl
    | some s => exact bind_congr fun st' => hparse st' _

/-- Storing the ID goes wrong in two ways: the field is no string, and `strlen` is handed
`NULL`; or it is longer than the 65 bytes there are. -/
theorem idPhase_spec (E : Env) (st : State) (j : Json) :
    SucceedsIff (∀ v, j.get (ascii "ID") = some v → ∃ s, v = .str s ∧ s.length ≤ 65)
      (idPhase E st j) (fun st' => st' = started E st (idField E st j)) := by
  unfold idPhase
  have hlen : (E.random st ++ [0]).length = 65 := by
    rw [List.length_append, E.random_length]
    rfl
  cases hid : j.get (ascii "ID") with
  | none => exact .ok nofun rfl (by rw [idField, hid]; rfl)
  | some v =>
    cases hv : Json.stringValue (some v) with
    | none =>
      refine .error (fun h => ?_) (by simp only [hv]; rfl)
      obtain ⟨s, hs, -⟩ := h v rfl
      exact stringValue_eq_none hv s hs
    | some s =>
      have hvs := stringValue_eq_some hv
      by_cases hs : s.length ≤ 65
      · refine .ok (fun v' hv' => ?_) (by simp only [hv]; exact idSet_started (by omega)) ?_
        · cases hv'
          exact ⟨s, hvs, hs⟩
        · rw [idField, hid, hv]
      · have hlive : (started E st (E.random st ++ [0])).struct? (E.malloc st) =
            some ⟨∅, E.random st ++ [0], 0⟩ := by
          rw [started, struct?_setObj_struct, if_pos rfl]
        refine .error (fun h => ?_) (e := .idOverflow) ?_
        · obtain ⟨s', hs', hle⟩ := h v rfl
          rw [hvs] at hs'
          cases hs'
          exact hs hle
        · simp only [hv, rpcStructIdSet, hlive, hlen]
          rw [if_pos (by omega)]

/-- What is owed for an item, parsed with bound `n`. The bound grows by two with each
level of the document, one for `item_parse` and one for the struct it may call for. -/
def ItemSpec (E : Env) (n : Nat) : Prop :=
  ∀ st S key item s, Counted st → item.Distinct → 2 * item.depth + 2 ≤ n → st.struct? S = some s →
    s.map.lookup key = none →
    SucceedsIff (SafeItem item) (itemParse E n st S key item) (ItemParsed S key item st)

/-- The same for a struct. -/
def StructSpec (E : Env) (n : Nat) : Prop :=
  ∀ st j, Counted st → j.Distinct → 2 * j.depth + 1 ≤ n →
    SucceedsIff (SafeStruct j) (structDeserialize E n st j) (StructParsed j st)

/-- The two loops, on the fields of `serialised` and `duplicates`. The first can fail, at
an item; the second cannot, since an alias whose original is missing gets an element of
no type. -/
theorem structLoops_spec {n : Nat} (hitem : ItemSpec E n) (h : Counted st) {j data : Json}
    (hj : j.Distinct) (hn : 2 * j.depth ≤ n) (hdata : j.get (ascii "serialised") = some data) :
    SucceedsIff (∀ f ∈ data.fields, SafeItem f.2)
      (do
        let st3 ← data.fields.foldlM (fun s f => itemParse E n s (E.malloc st) f.1 f.2)
          (started E st (idField E st j))
        let st4 ← (((j.get (ascii "duplicates")).map Json.fields).getD []).foldlM
          (relink E (E.malloc st)) st3
        .ok (st4, E.malloc st))
      (StructParsed j st) := by
  obtain ⟨hc2, hk2, hs2⟩ := started_spec (E := E) h (idField E st j)
  have hdeep := Json.depth_get hdata
  have hdist := Json.distinct_get hj hdata
  have hdupnd : ((((j.get (ascii "duplicates")).map Json.fields).getD []).map Prod.fst).Nodup := by
    cases hdup : j.get (ascii "duplicates") with
    | none => exact List.nodup_nil
    | some dups => exact Json.nodup_fields (Json.distinct_get hj hdup)
  refine (parseFields_spec (fun s k item => itemParse E n s (E.malloc st) k item) hc2 hs2
    (fun _ => rfl) (Json.nodup_fields hdist) fun f hf s s' hc hs hfree =>
      hitem s _ f.1 f.2 s' hc (Json.distinct_of_mem hdist hf) ?_ hs hfree).bind_ok
    fun st3 hst3 => ?_
  · have := Json.depth_of_mem hf
    omega
  · obtain ⟨s3, hfill⟩ := hst3
    obtain ⟨st4, hok4, hc4, hk4, s4, hs4, hid4, hsame4, hlink4⟩ :=
      relink_loop (E := E) hfill.counted hfill.struct hdupnd
    -- both loops write to the new struct only, and it was not there before
    have hkeep : Keeps ∅ st st4 := by
      refine ((hk2.mono (Set.empty_subset _)).trans (hfill.keeps.trans hk4)).of_dead fun a ha => ?_
      rw [Set.mem_singleton_iff.1 ha, malloc_dead]
    refine ⟨(st4, E.malloc st), by rw [hok4]; rfl, hc4, hkeep, fun _ => ⟨s4, hs4⟩, fun hw hty => ?_⟩
    -- from here on the document is a written one
    obtain ⟨id, s0, ser, dup, rfl, hlen, hf0, hwser, hname⟩ := hw.struct hty
    cases hdata
    have hmem : ∀ k item, ser.lookup k = some item → (k, item) ∈ ser.reverse := fun k item hk =>
      List.mem_reverse.2 (Json.lookup_mem hk)
    have hrep3 : ∀ k item, ser.lookup k = some item → ∃ e, s3.map.lookup k = some e ∧
        RepItem st3 (started E st (idField E st (structJson id ser dup))).dead True e item := by
      intro k item hk
      exact hfill.content (k, item) (hmem k item hk) (hwser (k, item) (Json.lookup_mem hk))
    obtain ⟨hfields, hser4⟩ := hf0.decoded hname (fun k hk => hfill.free k (by
        rw [List.map_reverse, List.mem_reverse]
        exact hk)) hrep3
      (fun k k' item item' e e' p hk hk' => hfill.apart (k, item) (hmem k item hk) (k', item')
        (hmem k' item' hk') (hwser _ (Json.lookup_mem hk)) (hwser _ (Json.lookup_mem hk')) e e' p)
      hsame4 hlink4
    refine ⟨malloc_ne_zero E st, .struct (malloc_dead E st) hs4 ?_ hlen hfields
      fun k item e hk he => ?_⟩
    · rw [hid4, hfill.idSame]
      have hidf : idField E st (structJson id ser dup) =
          id ++ (E.random st ++ [0]).drop id.length := rfl
      rw [hidf, hlen, ← E.random_length st, List.drop_left]
    · obtain ⟨e', he', hrep⟩ := hrep3 k item hk
      rw [hser4 k item hk, he'] at he
      cases he
      exact hrep.later hk4 (notMem_dead hs2) hk2.dead

/-- One more level for structs. -/
theorem struct_step {n : Nat} (hitem : ItemSpec E n) : StructSpec E (n + 1) := by
  intro st j h hj hn
  refine SucceedsIff.congr ?_ safeStruct_iff
  rw [structDeserialize_eq]
  refine (idPhase_spec E st j).bind fun st2 hst2 => ?_
  rw [hst2]
  unfold parsePhase
  obtain ⟨hc2, hk2, hs2⟩ := started_spec (E := E) h (idField E st j)
  -- the bad exit returns `NULL`, which is all right: a written document never takes it
  have hbad : ∀ (P : Prop), P → j.typeName ≠ some (ascii "RPC_struct") ∨
      j.get (ascii "serialised") = none →
      SucceedsIff P (badExit E (started E st (idField E st j)) (E.malloc st))
        (StructParsed j st) := by
    intro P hP hno
    obtain ⟨st', hok, hc, hk⟩ := badExit_spec (E := E) h (idField E st j)
    refine .ok hP hok ⟨hc, hk, fun h0 => absurd rfl h0, fun hw hty => ?_⟩
    obtain ⟨id, s, ser, dup, rfl, -⟩ := hw.struct hty
    rcases hno with hno | hno
    · exact absurd hty hno
    · cases hno
  cases hty : j.get (ascii "type") with
  | none =>
    exact hbad _ ⟨(fun v hv => by cases hv), fun v hv => by cases hv⟩
      (.inl (by rw [Json.typeName, hty]; exact fun hc => by cases hc))
  | some type =>
    cases hstr : Json.stringValue (some type) with
    | none =>
      simp only [hstr]
      refine .error (fun hP => ?_) rfl
      obtain ⟨s, hs⟩ := hP.1 type rfl
      exact stringValue_eq_none hstr s hs
    | some t =>
      have hts := stringValue_eq_some hstr
      have htype : ∀ v, some type = some v → ∃ s, v = .str s := by
        intro v hv
        cases hv
        exact ⟨t, hts⟩
      by_cases ht : t = ascii "RPC_struct"
      · cases hdata : j.get (ascii "serialised") with
        | none =>
          simp only [hstr, if_pos ht]
          exact hbad _ ⟨htype, fun _ v hv => by cases hv⟩ (.inr hdata)
        | some data =>
          simp only [hstr, if_pos ht]
          have hcond : (∀ f ∈ data.fields, SafeItem f.2) ↔
              (∀ v, some type = some v → ∃ s, v = .str s) ∧
              ∀ data', some type = some (.str (ascii "RPC_struct")) → some data = some data' →
                ∀ f ∈ data'.fields, SafeItem f.2 := by
            refine ⟨fun hsafe => ⟨htype, fun data' _ hd => ?_⟩, fun hP => ?_⟩
            · cases hd
              exact hsafe
            · exact hP.2 data (by rw [hts, ht]) rfl
          refine SucceedsIff.congr ?_ hcond.symm
          exact structLoops_spec hitem h hj (by omega) hdata
      · simp only [hstr, if_neg ht]
        refine hbad _ ⟨htype, fun data hd => ?_⟩ (.inl ?_)
        · rw [hts] at hd
          cases hd
          exact absurd rfl ht
        · rw [Json.typeName, hty, hstr]
          exact fun hc => ht (Option.some.inj hc)

/-- A written object is of one of the three kinds. -/
theorem Written.typeName {j : Json} (h : Written j) {fs : List (CStr × Json)} (hj : j = .obj fs) :
    j.typeName = some (ascii "RPC_struct") ∨ j.typeName = some (ascii "RPC_function") ∨
      j.typeName = some (ascii "RPC_sizedbuf") := by
  obtain ⟨_, _, _, h⟩ := h
  cases h with
  | sizedbuf => exact .inr (.inr (typeName_sizedbuf _))
  | function => exact .inr (.inl (typeName_function _))
  | struct => exact .inl (typeName_struct ..)
  | _ => cases hj

/-- Serialisation writes no array as a field; the decoder takes one all the same. -/
theorem not_written_arr (l : List Json) : ¬ Written (.arr l) := by
  intro h
  obtain ⟨_, _, _, h⟩ := h
  generalize hj : Json.arr l = j at h
  cases h <;> cases hj

/-- An object is looked into only if it says it is a struct. -/
theorem safeItem_obj {fs : List (CStr × Json)} {t : CStr}
    (ht : Json.typeName (.obj fs) = some t) :
    SafeItem (.obj fs) ↔ (t = ascii "RPC_struct" → SafeStruct (.obj fs)) := by
  constructor
  · intro h
    cases h with
    | obj ht' h =>
      rw [ht] at ht'
      cases ht'
      exact h
  · exact .obj ht

/-- An item the decoder passes over, which serialisation does not write. -/
theorem ItemParsed.skip {S : Addr} {key : CStr} {item : Json} (h : Counted st)
    (hw : ¬ Written item) : ItemParsed S key item st st :=
  ⟨.refl h S key, fun hw' => absurd hw' hw⟩

/-- The fields an array is parsed as. -/
def arrayFields (l : List Json) : List (CStr × Json) := l.zipIdx.map fun x => (decimal x.2, x.1)

/-- No two indices print alike, so no item of an array meets a key that is taken. -/
theorem nodup_arrayFields (l : List Json) : ((arrayFields l).map Prod.fst).Nodup := by
  have hkeys : (arrayFields l).map Prod.fst = (List.range' 0 l.length).map decimal := by
    rw [← List.zipIdx_map_snd 0 l, arrayFields, List.map_map, List.map_map]
    rfl
  rw [hkeys]
  exact List.Nodup.map decimal_injective List.nodup_range'

theorem mem_arrayFields {l : List Json} {item : Json} :
    (∃ f ∈ arrayFields l, f.2 = item) ↔ item ∈ l := by
  constructor
  · intro h
    obtain ⟨f, hf, rfl⟩ := h
    obtain ⟨x, hx, rfl⟩ := List.mem_map.1 hf
    exact List.fst_mem_of_mem_zipIdx hx
  · intro h
    rw [← List.zipIdx_map_fst 0 l] at h
    obtain ⟨x, hx, rfl⟩ := List.mem_map.1 h
    exact ⟨_, List.mem_map.2 ⟨x, hx, rfl⟩, rfl⟩

/-- An array becomes a struct with decimal keys. It is put under its key before its items
are parsed, so the loop runs on a struct that is held already. -/
theorem array_step {n : Nat} (hitem : ItemSpec E n) {S : Addr} {key : CStr} {l : List Json}
    {s : RpcStruct} (h : Counted st) (hdist : (Json.arr l).Distinct)
    (hn : 2 * (Json.arr l).depth + 2 ≤ n + 1) (hs : st.struct? S = some s)
    (hkey : s.map.lookup key = none) :
    SucceedsIff (SafeItem (.arr l)) (itemParse E (n + 1) st S key (.arr l))
      (ItemParsed S key (.arr l) st) := by
  obtain ⟨hc1, hk1, ha1⟩ := started_spec (E := E) h (E.random st ++ [0])
  obtain ⟨s1, hs1, -, hmap1⟩ := hk1.struct (Set.notMem_empty S) hs
  have hdead : ∀ o, st.heap.lookup (E.malloc st) ≠ some o := fun o ho => by
    rw [malloc_dead] at ho; cases ho
  have hSa : E.malloc st ≠ S := fun hm => hdead _ (hm ▸ struct?_eq_some.1 hs)
  have hvalued : Valued (started E st (E.random st ++ [0])) (.arr l)
      (started E st (E.random st ++ [0]), .struct (E.malloc st)) := by
    refine ⟨hc1, .refl ∅ _, fun p hp _ => ?_, fun hw => absurd hw (not_written_arr l)⟩
    cases hp
    exact ⟨_, struct?_eq_some.1 ha1, rfl⟩
  -- the empty struct is inserted first
  have hset : SucceedsIff True (setWith E (started E st (E.random st ++ [0])) S key
      fun st' => .ok (st', .struct (E.malloc st)))
      (ItemParsed S key (.arr l) (started E st (E.random st ++ [0]))) :=
    setWith_spec hs1 (by rw [hmap1, hkey]) (.ok trivial rfl hvalued)
  have hsafe : SafeItem (.arr l) ↔ True ∧ ∀ f ∈ arrayFields l, SafeItem f.2 := by
    rw [true_and]
    constructor
    · intro hl f hf
      cases hl with
      | arr hl => exact hl f.2 (mem_arrayFields.1 ⟨f, hf, rfl⟩)
    · intro hl
      refine .arr fun item hi => ?_
      obtain ⟨f, hf, rfl⟩ := mem_arrayFields.2 hi
      exact hl f hf
  have hloop : ∀ st2, l.zipIdx.foldlM
      (fun st' x => itemParse E n st' (E.malloc st) (decimal x.2) x.1) st2 =
      (arrayFields l).foldlM (fun st' f => itemParse E n st' (E.malloc st) f.1 f.2) st2 := by
    intro st2
    rw [arrayFields, List.foldlM_map]
  refine SucceedsIff.congr ?_ hsafe
  unfold itemParse
  refine hset.bind fun st2 hst2 => ?_
  rw [hloop]
  obtain ⟨a2, ha2, -, hamap⟩ := hst2.grown.keeps.struct (S := E.malloc st) hSa ha1
  refine (parseFields_spec (fun s k item => itemParse E n s (E.malloc st) k item)
    hst2.grown.counted ha2 (fun k => by rw [hamap]; rfl) (nodup_arrayFields l)
    fun f hf st' s' hc hs' hfree => ?_).mono fun st3 hst3 => ?_
  · have hmem := mem_arrayFields.1 ⟨f, hf, rfl⟩
    have hdeep := Json.depth_item hmem
    simp only [Json.depth] at hn
    exact hitem st' _ f.1 f.2 s' hc (Json.distinct_item hdist hmem) (by omega) hs' hfree
  · obtain ⟨a3, hfill⟩ := hst3
    have hgrown2 := hst2.grown.of_keeps hk1
    refine ⟨⟨hfill.counted, fun a o ha ho => ?_, fun s' hs' => ?_⟩,
      fun hw => absurd hw (not_written_arr l)⟩
    · obtain ⟨o2, ho2, hl2⟩ := hgrown2.keeps a o ha ho
      obtain ⟨o3, ho3, hl3⟩ := hfill.keeps a o2 (fun hc => hdead o (by
        rw [← Set.mem_singleton_iff.1 hc]
        exact ho)) ho2
      exact ⟨o3, ho3, hl2.trans_same hl3⟩
    · -- the loop fills the array's struct and leaves `S` alone
      obtain ⟨s2, hs2, hid2, hmap2⟩ := hgrown2.struct s' hs'
      obtain ⟨s3, hs3, hid3, hmap3⟩ := hfill.keeps.struct (S := S) (fun hc => hSa
        (Set.mem_singleton_iff.1 hc).symm) hs2
      exact ⟨s3, hs3, hid3.trans hid2, fun k hk => (hmap3 k).trans (hmap2 k hk)⟩

/-- One more level for items: one case for each kind of JSON value, and for an object one
for each type name. -/
theorem item_step {n : Nat} (hstruct : StructSpec E n) (hitem : ItemSpec E n) :
    ItemSpec E (n + 1) := by
  intro st S key item s h hdist hn hs hkey
  have hplain : ∀ {item : Json} {e : RpcTypeT}, SafeItem item → e.target = none →
      (rpcIsPointer e.type = true → e.ptrValue ≠ 0) → RepItem st st.dead True e item →
      SucceedsIff (SafeItem item) (setWith E st S key fun st => .ok (st, e))
        (ItemParsed S key item st) := fun hsafe ht hnn hrep =>
    setWith_spec hs hkey (.ok hsafe rfl (.plain h ht hnn hrep))
  cases item with
  | int i => exact hplain .int rfl nofun (number_decoded st _ i)
  | real bits => exact hplain .real rfl nofun (.real (fun _ => rfl) fun hc => absurd trivial hc)
  | str t => exact hplain .str rfl (fun _ => Nat.one_ne_zero) .string
  -- no case of the switch takes these two, and the key stays free
  | bool b =>
    refine .ok .bool rfl (.skip h fun hw => ?_)
    obtain ⟨_, _, _, hw⟩ := hw
    cases hw
  | null =>
    refine .ok .null rfl (.skip h fun hw => ?_)
    obtain ⟨_, _, _, hw⟩ := hw
    cases hw
  | arr l => exact array_step hitem h hdist hn hs hkey
  | obj fs =>
    unfold itemParse
    cases ht : Json.stringValue (Json.get (.obj fs) (ascii "type")) with
    | none =>
      simp only [ht]
      refine .error (fun hsafe => ?_) rfl
      cases hsafe with
      | obj ht' _ => rw [Json.typeName, ht] at ht'; cases ht'
    | some t =>
      have hname : Json.typeName (.obj fs) = some t := ht
      refine SucceedsIff.congr ?_ (safeItem_obj hname)
      simp only [ht]
      by_cases h1 : t = ascii "RPC_struct"
      · subst h1
        rw [if_pos rfl]
        refine SucceedsIff.congr ?_ (forall_prop_of_true rfl)
        refine setWith_spec hs hkey ((hstruct st (.obj fs) h hdist (by omega)).bind_ok fun r hr =>
          ⟨(r.1, .struct r.2), rfl, hr.counted, hr.keeps, fun p hp hp0 => ?_, fun hw => ?_⟩)
        · cases hp
          obtain ⟨s', hs'⟩ := hr.live hp0
          exact ⟨_, struct?_eq_some.1 hs', rfl⟩
        · obtain ⟨hr0, hrep⟩ := hr.content hw hname
          exact ⟨fun _ => hr0, hrep⟩
      · have htrue : t = ascii "RPC_struct" → SafeStruct (.obj fs) := fun hc => absurd hc h1
        rw [if_neg h1]
        split
        · rename_i h2
          subst h2
          refine setWith_spec hs hkey ?_
          obtain ⟨r, hok, hval⟩ := function_valued (E := E) h hname
          exact .ok htrue (by rw [hok]; rfl) hval
        · rename_i h2
          split
          · rename_i h3
            subst h3
            refine setWith_spec hs hkey ?_
            obtain ⟨r, hok, hval⟩ := sizedbuf_valued (E := E) h hname
            exact .ok htrue (by rw [hok]; rfl) hval
          -- any other name: nothing is parsed
          · rename_i h3
            refine .ok htrue rfl (.skip h fun hw => ?_)
            rcases hw.typeName rfl with hc | hc | hc <;> rw [hname] at hc
            · exact h1 (Option.some.inj hc)
            · exact h2 (Option.some.inj hc)
            · exact h3 (Option.some.inj hc)

/-- Both functions, at every bound. -/
theorem decode_spec (E : Env) (n : Nat) : StructSpec E n ∧ ItemSpec E n := by
  induction n with
  | zero => exact ⟨fun st j _ _ hn => by omega, fun st S key item s _ _ hn => by omega⟩
  | succ n ih => exact ⟨struct_step ih.2, item_step ih.1 ih.2⟩

/-- And at the bound the call is made with. -/
theorem deserialize_spec (E : Env) (h : Counted st) (d : Document) :
    SucceedsIff (SafeStruct d.json) (rpcStructDeserialize E st (some d.json))
      (StructParsed d.json st) :=
  (decode_spec E (decodeFuel d.json)).1 st d.json h d.distinct (Nat.le_refl _)

end Decoder

/-! ## Any document -/

/-- A call returns `NULL` or a struct exactly on safe documents. -/
theorem deserialize_iff {st : State} (h : api.Reachable st) (E : Env) (d : Document) :
    (∃ st' p, rpcStructDeserialize E st (some d.json) = .ok (st', p) ∧
      (p = 0 ∨ ∃ s, st'.struct? p = some s)) ↔ SafeStruct d.json := by
  have hspec := deserialize_spec E (api_wf h).inv.counted d
  constructor
  · intro hok
    obtain ⟨st', p, hok, -⟩ := hok
    rcases hspec with hs | hs
    · exact hs.1
    · obtain ⟨-, e, he⟩ := hs
      rw [hok] at he; cases he
  · intro hsafe
    obtain ⟨r, hok, hr⟩ := hspec.iff.2 hsafe
    exact ⟨r.1, r.2, hok, Classical.or_iff_not_imp_left.2 hr.live⟩

/-- A peer's struct with a struct of its own, without ID, and an array. -/
def foreignDocument : Document :=
  ⟨.obj [(ascii "type", .str (ascii "RPC_struct")), (ascii "ID", .str (ascii "outer")),
      (ascii "serialised", .obj
        [(ascii "k", .obj [(ascii "type", .str (ascii "RPC_struct")),
          (ascii "serialised", .obj [(ascii "n", .int 5)])]),
        (ascii "l", .arr [.null, .str (ascii "text")])])],
    show [ascii "type", ascii "ID", ascii "serialised"].Nodup by decide, trivial, trivial,
    ⟨show [ascii "k", ascii "l"].Nodup by decide,
      ⟨show [ascii "type", ascii "serialised"].Nodup by decide, trivial,
        ⟨List.nodup_singleton _, trivial, trivial⟩, trivial⟩,
      ⟨trivial, trivial, trivial⟩, trivial⟩, trivial⟩

theorem deserialize_iff_foreign : ∃ st' p,
    rpcStructDeserialize .bump .empty (some foreignDocument.json) = .ok (st', p) ∧
      (p = 0 ∨ ∃ s, st'.struct? p = some s) := by
  refine (deserialize_iff (.init rfl) .bump foreignDocument).2 ?_
  -- the outer struct, then the inner one
  refine .mk (fun v hv => ?_) (fun v hv => ?_) fun data _ hdata f hf => ?_
  · cases hv
    exact ⟨_, rfl, by decide⟩
  · cases hv
    exact ⟨_, rfl⟩
  · cases hdata
    rcases List.mem_cons.1 hf with rfl | hf
    · refine .obj rfl fun _ => .mk (fun v hv => ?_) (fun v hv => ?_) fun data _ hdata f hf => ?_
      · cases hv
      · cases hv
        exact ⟨_, rfl⟩
      · cases hdata
        rw [List.mem_singleton.1 hf]
        exact .int
    · rw [List.mem_singleton.1 hf]
      refine .arr fun item hitem => ?_
      rcases List.mem_cons.1 hitem with rfl | hitem
      · exact .null
      · rw [List.mem_singleton.1 hitem]
        exact .str

/-- `{"type": 5}`: `strcmp` is handed the `NULL` of `json_string_value`. -/
theorem deserialize_null : ∃ d : Document, d.json = .obj [(ascii "type", .int 5)] ∧
    ∀ E, rpcStructDeserialize E .empty (some d.json) = .error .nullString :=
  ⟨⟨.obj [(ascii "type", .int 5)], List.nodup_singleton _, trivial, trivial⟩, rfl, fun _ => rfl⟩

end FfiRpc
