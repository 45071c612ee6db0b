import FfiRpc.Store.Muted
import FfiRpc.Wire.Receive

/-!
# What a message adds to the store

A document that serialisation wrote, read by `rpc_struct_deserialize` in a store with some
callbacks off: the struct that comes of it is new, nothing holds it, all it holds is new
too, and what was there before is as it was (`arrives`). The induction is that of
`decode_spec`, which has the content.
-/
namespace FfiRpc

open State

/-- What `rpc_struct_deserialize` has made: the struct `p`. -/
structure Arrived (off : Finset Addr) (st st' : State) (p : Addr) : Prop where
  later : Later off ∅ st st'
  dead : st.heap.lookup p = none
  struct : ∃ s, st'.struct? p = some s
  unheld : ∀ S k, st'.held S k ≠ some p

def StructArrives (E : Env) (n : Nat) : Prop :=
  ∀ off st j st' p, Muted off st → Written j → j.typeName = some (ascii "RPC_struct") → j.Distinct →
    2 * j.depth + 1 ≤ n → structDeserialize E n st j = .ok (st', p) → Arrived off st st' p

def ItemArrives (E : Env) (n : Nat) : Prop :=
  ∀ off st S key item st', Muted off st → (∃ s, st.struct? S = some s) → Written item →
    item.Distinct → 2 * item.depth + 2 ≤ n → itemParse E n st S key item = .ok st' →
    Later off {S} st st'

section
variable {E : Env} {off : Finset Addr} {st st' : State} {S : Addr}

/-- An entry that is there stays. -/
theorem setInternal_grows {k k' : CStr} {e e' : RpcTypeT} {S' : Addr}
    (hok : Prod.fst <$> rpcStructSetInternal E st S k e = .ok st') (he : st.entry S' k' = some e') :
    st'.entry S' k' = some e' := by
  unfold rpcStructSetInternal at hok
  cases hs : st.struct? S with
  | none =>
    rw [hs] at hok
    cases hok
  | some s =>
    simp only [hs] at hok
    split at hok
    · cases hok
      exact he
    · cases hk : s.map.lookup k with
      | some e0 =>
        simp only [hk] at hok
        cases hok
        exact he
      | none =>
        simp only [hk] at hok
        cases hok
        refine (entry_insert hs (heap_trackElement S k e) ..).trans ?_
        rw [if_neg, he]
        intro hc
        rw [hc.1, hc.2, entry_of_struct hs, hk] at he
        cases he

theorem length_of_serializeReal {raw bits : List UInt8} (h : serializeReal raw = some (.real bits)) :
    bits.length = 8 := by
  have hbits : ∀ l : List UInt8, l.length = 8 →
      (if doubleFinite l then some (Json.real l) else none) = some (.real bits) → bits.length = 8 := by
    intro l hl hfin
    split at hfin
    · cases hfin
      exact hl
    · cases hfin
  refine hbits _ ?_ h
  split
  · exact length_toLE ..
  · split
    · assumption
    · exact length_toLE ..

/-- A new struct, with the ID that comes with it. -/
theorem Later.started (h : Muted off st) {id : List UInt8} (hid : id.length = 65) :
    Later off ∅ st (started E st id) :=
  (Later.refl h ∅).create E fun s hs => by
    cases hs
    exact ⟨hid, rfl⟩

/-! ## Items -/

/-- An item, from the value computed for it. -/
theorem setWith_later (h : Muted off st) (hs : ∃ s, st.struct? S = some s) {key : CStr}
    {value : State → Except Fault (State × RpcTypeT)}
    (hvalue : ∀ r, value st = .ok r → Later off ∅ st r.1 ∧ r.2.Sized ∧ ∀ p, r.2.target = some p →
      st.heap.lookup p = none ∧ ∃ o, r.1.heap.lookup p = some o ∧ o.type = r.2.type)
    (hok : setWith E st S key value = .ok st') : Later off {S} st st' := by
  unfold setWith at hok
  split at hok
  · cases hok
    exact .refl h {S}
  · obtain ⟨r, hr, hset⟩ := bind_eq_ok.1 hok
    obtain ⟨hlater, hsz, htgt⟩ := hvalue r hr
    obtain ⟨s, hs⟩ := hs
    obtain ⟨s', hs'⟩ := hlater.struct hs
    exact (hlater.mono (Set.empty_subset _)).set h rfl hs' hsz (fun p hp _ => htgt p hp) hset

/-- A sizedbuf or a function that is made for an item. -/
theorem setWith_made (h : Muted off st) (hs : ∃ s, st.struct? S = some s) {key : CStr} {o : Obj}
    {e : RpcTypeT} {value : State → Except Fault (State × RpcTypeT)} (ho : ∀ s, o ≠ .struct s)
    (hsz : e.Sized) (htgt : e.target = some (E.malloc st)) (hty : o.type = e.type)
    (hvalue : value st = .ok (st.setObj (E.malloc st) o, e))
    (hok : setWith E st S key value = .ok st') : Later off {S} st st' := by
  refine setWith_later h hs (fun r hr => ?_) hok
  rw [hvalue] at hr
  cases hr
  refine ⟨(Later.refl h ∅).create E fun s hs => absurd hs (ho s), hsz, fun p hp => ?_⟩
  rw [htgt] at hp
  cases hp
  exact ⟨malloc_dead E st, o, (lookup_setObj ..).trans (if_pos rfl), hty⟩

theorem item_arrives {n : Nat} (hstruct : StructArrives E n) : ItemArrives E (n + 1) := by
  intro off st S key item st' h hs hw hdist hn hok
  have hplain : ∀ {e : RpcTypeT}, e.Sized → e.target = none →
      setWith E st S key (fun st => .ok (st, e)) = .ok st' → Later off {S} st st' :=
    fun hsz ht hok => setWith_later h hs (fun r hr => by
      cases hr
      exact ⟨.refl h ∅, hsz, fun p hp => by rw [ht] at hp; cases hp⟩) hok
  cases item with
  | int i => exact hplain (e := .number (toLE 8 i.toNat)) (by simp [RpcTypeT.Sized]) rfl hok
  | real bits =>
    refine hplain (e := .real bits) ?_ rfl hok
    obtain ⟨_, _, _, hrep⟩ := hw
    cases hrep with
    | real _ henc => simp [RpcTypeT.Sized, length_of_serializeReal (henc not_false)]
  | str t => exact hplain (e := .string 1 t) trivial rfl hok
  | bool b =>
    cases hok
    exact .refl h {S}
  | null =>
    cases hok
    exact .refl h {S}
  | arr l => exact absurd hw (not_written_arr l)
  | obj fs =>
    unfold itemParse at hok
    cases ht : Json.stringValue (Json.get (.obj fs) (ascii "type")) with
    | none =>
      simp only [ht] at hok
      cases hok
    | some t =>
      have hname : Json.typeName (.obj fs) = some t := ht
      simp only [ht] at hok
      split at hok
      · rename_i h1
        subst h1
        refine setWith_later h hs (fun r hr => ?_) hok
        obtain ⟨⟨st1, p⟩, hr1, hr⟩ := bind_eq_ok.1 hr
        cases hr
        have harr := hstruct off st (.obj fs) st1 p h hw hname hdist (by omega) hr1
        refine ⟨harr.later, trivial, fun q hq => ?_⟩
        cases hq
        obtain ⟨s', hs'⟩ := harr.struct
        exact ⟨harr.dead, _, struct?_eq_some.1 hs', rfl⟩
      · split at hok
        · rename_i h2
          subst h2
          refine setWith_made h hs (o := .function (Json.toFunction (.obj fs)))
            (e := .function (E.malloc st)) (fun s hc => by cases hc) trivial rfl rfl ?_ hok
          rw [functionDeserialize_eq hname]
          rfl
        · split at hok
          · rename_i h3
            subst h3
            refine setWith_made h hs (o := .sizedbuf (Json.toSizedbuf (.obj fs)))
              (e := .sizedbuf (E.malloc st)) (fun s hc => by cases hc) trivial rfl rfl ?_ hok
            rw [sizedbufDeserialize_eq hname]
            rfl
          · cases hok
            exact .refl h {S}

/-! ## Structs -/

/-- One alias, in a struct that was empty at first. -/
theorem relink_later {st'' : State} {f : CStr × Json} {original : CStr} {e : RpcTypeT}
    (h : Later off {S} st st') (hst : Muted off st) (hempty : ∀ k, st.held S k = none)
    (hs : ∃ s, st'.struct? S = some s) (hf : f.2 = .str original) (he : st'.entry S original = some e)
    (hok : relink E S st' f = .ok st'') : Later off {S} st st'' := by
  have hset : Prod.fst <$> rpcStructSetInternal E st' S f.1 e = .ok st'' := by
    have hget : rpcStructGetInternal st' S original = e := by
      rw [rpcStructGetInternal, he, Option.getD_some]
    unfold relink at hok
    rw [hf] at hok
    rw [← hget]
    exact hok
  obtain ⟨s, hs⟩ := hs
  refine h.set hst rfl hs (h.muted.stored.sized S original e he) (fun p hp _ => ⟨?_,
    h.muted.inv.typed S original e p he hp (Set.notMem_empty p) (Finset.notMem_empty _)⟩) hset
  rcases h.new S original p (held_eq_some.2 ⟨e, he, hp⟩) with hh | hdead
  · rw [hempty] at hh
    cases hh
  · exact hdead

/-- The second half of a call, on a document that serialisation wrote. -/
theorem parsePhase_structJson (n : Nat) (id : CStr) (ser dup : List (CStr × Json)) (new : Addr) :
    parsePhase E n (structJson id ser dup) new st = (do
      let st3 ← ser.foldlM (fun st f => itemParse E n st new f.1 f.2) st
      let st4 ← dup.foldlM (relink E new) st3
      .ok (st4, new)) := rfl

theorem struct_arrives {n : Nat} (hitem : ItemArrives E n) : StructArrives E (n + 1) := by
  intro off st j st' p h hw hname hdist hn hok
  obtain ⟨id, s0, ser, dup, rfl, hlen, hfields, hwser, -⟩ := hw.struct hname
  have hid65 : (idField E st (structJson id ser dup)).length = 65 := by
    have hidf : idField E st (structJson id ser dup) =
        id ++ (E.random st ++ [0]).drop id.length := rfl
    rw [hidf, List.length_append, List.length_drop, List.length_append, E.random_length, hlen]
    rfl
  rw [structDeserialize_eq] at hok
  obtain ⟨st2, hid, hok⟩ := bind_eq_ok.1 hok
  rw [(idPhase_spec E st _).of_ok hid] at hok
  rw [parsePhase_structJson] at hok
  obtain ⟨st3, hloop, hok⟩ := bind_eq_ok.1 hok
  obtain ⟨st4, halias, hok⟩ := bind_eq_ok.1 hok
  cases hok
  have h2 : Later off ∅ st (started E st (idField E st (structJson id ser dup))) := .started h hid65
  obtain ⟨hc2, -, hs2⟩ := started_spec (E := E) h.inv.counted (idField E st (structJson id ser dup))
  have hdata : (structJson id ser dup).get (ascii "serialised") = some (.obj ser) := rfl
  have hdist2 := Json.distinct_get hdist hdata
  have hpart : ∀ f ∈ ser, f.2.Distinct ∧ 2 * f.2.depth + 2 ≤ n := by
    intro f hf
    have hdeep := Json.depth_get hdata
    have hdeep' := Json.depth_of_mem (j := .obj ser) hf
    exact ⟨Json.distinct_of_mem hdist2 hf, by omega⟩
  -- the fields of `serialised`, and what they leave
  have h3 : Later off {E.malloc st} _ st3 := foldlM_ok_of_mem (Later off {E.malloc st} _) ser _ _
    (fun s f s' hf hI hok => hI.trans (hitem off s _ f.1 f.2 s' hI.muted (hI.struct hs2) (hwser f hf)
      (hpart f hf).1 (hpart f hf).2 hok)) (.refl h2.muted _) hloop
  obtain ⟨s3, hfill⟩ := (parseFields_spec (fun s k item => itemParse E n s (E.malloc st) k item) hc2 hs2
    (fun _ => rfl) (Json.nodup_fields hdist2) fun f hf s s' hc hs hfree =>
      (decode_spec E n).2 s _ f.1 f.2 s' hc (hpart f hf).1 (hpart f hf).2 hs hfree).of_ok hloop
  have hentry : ∀ k item, ser.lookup k = some item → ∃ e, st3.entry (E.malloc st) k = some e := by
    intro k item hk
    have hmem := Json.lookup_mem hk
    obtain ⟨e, he, -⟩ := hfill.content (k, item) (List.mem_reverse.2 hmem) (hwser _ hmem)
    exact ⟨e, (entry_of_struct hfill.struct k).trans he⟩
  -- the aliases
  have h4 : Later off {E.malloc st} (started E st (idField E st (structJson id ser dup))) st' ∧
      ∀ k item, ser.lookup k = some item → ∃ e, st'.entry (E.malloc st) k = some e :=
    foldlM_ok_of_mem (fun s => Later off {E.malloc st} _ s ∧
      ∀ k item, ser.lookup k = some item → ∃ e, s.entry (E.malloc st) k = some e) dup st3 st'
      (fun s f s' hf hI hok => by
        obtain ⟨-, original, item, -, -, horig, hser, -⟩ :=
          hfields.aliased f.1 f.2 (Json.lookup_of_mem hfields.dupNodup hf)
        obtain ⟨e, he⟩ := hI.2 original item hser
        refine ⟨relink_later hI.1 h2.muted (fun k => ?_) (hI.1.struct hs2) horig he hok,
          fun k item hk => ?_⟩
        · rw [State.held, entry_of_struct hs2]
          rfl
        · obtain ⟨e', he'⟩ := hI.2 k item hk
          exact ⟨e', setInternal_grows hok he'⟩) ⟨h3, hentry⟩ halias
  refine ⟨((h2.mono (Set.empty_subset _)).trans h4.1).shrink fun a ha => .inr ?_, malloc_dead E st,
    h4.1.struct hs2, fun S k hh => ?_⟩
  · rw [Set.mem_singleton_iff.1 ha, malloc_dead]
  · rcases h4.1.new S k _ hh with hold | hdead
    · rw [started, held_create E fun s hs => by cases hs; rfl] at hold
      obtain ⟨o, ho⟩ := h.inv.held_live hold
      rw [malloc_dead] at ho
      cases ho
    · rw [struct?_eq_some.1 hs2] at hdead
      cases hdead

theorem decode_arrives (E : Env) (n : Nat) : StructArrives E n ∧ ItemArrives E n := by
  induction n with
  | zero =>
    exact ⟨fun off st j st' p _ _ _ _ hn => by omega, fun off st S key item st' _ _ _ _ hn => by omega⟩
  | succ n ih => exact ⟨struct_arrives ih.2, item_arrives ih.1⟩

/-- A message of the other side is received. -/
theorem arrives (h : Muted off st) {d : Document} (hw : Written d.json)
    (hname : d.json.typeName = some (ascii "RPC_struct")) {p : Addr}
    (hok : rpcStructDeserialize E st (some d.json) = .ok (st', p)) :
    Arrived off st st' p ∧ RepItem st' st.dead True (.struct p) d.json := by
  refine ⟨(decode_arrives E _).1 off st d.json st' p h hw hname d.distinct (Nat.le_refl _) hok, ?_⟩
  have hparsed := ((decode_spec E _).1 st d.json h.inv.counted d.distinct (Nat.le_refl _)).of_ok hok
  exact (hparsed.content hw hname).2

end

end FfiRpc
