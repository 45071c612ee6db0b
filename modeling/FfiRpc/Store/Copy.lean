import FfiRpc.Store.Insert

/-!
# `rpc_struct_copy`

The copy loop calls `prec_increment` for each shared object itself and then
`rpc_struct_set_internal`, which increments as well; a removal decrements once.
So a copy of `o` holds what `o` holds and leaves, for each object `p`, as many
references that no removal takes back as `o` has keys holding `p`
(`copy_spec`: `extra` grows by `s.refs`).
-/
namespace FfiRpc

open State

/-- What `rpc_struct_copy` did: `c` is a new struct with the entries of `s`, and
nothing else changed. -/
structure Copied (s : RpcStruct) (o c : Addr) (st st' : State) : Prop where
  fresh : ¬ st.InUse c
  frame : ∀ a, a ≠ c → st'.heap.lookup a = st.heap.lookup a
  map : ∃ s', st'.struct? c = some s' ∧ s'.copyof = o ∧
    (∀ k, s.map.lookup k = none → s'.map.lookup k = none) ∧
    ∀ k e, s.map.lookup k = some e → ∃ e', s'.map.lookup k = some e' ∧ e.SameValue e'

section
variable {E : Env} {off : Finset Addr} {extra : Addr → Nat} {st : State}

theorem Inv.congr_extra {extra' : Addr → Nat} (h : Inv off extra ∅ ∅ st)
    (hx : ∀ p r, st.tracker.lookup p = some r → extra' p = extra p) : Inv off extra' ∅ ∅ st :=
  ⟨h.null, h.dead, h.typed, h.untracked, fun p r hr => by
    obtain ⟨hpos, o, ho, hrec⟩ := h.tracked p r hr
    exact ⟨hpos, o, ho, by rw [hx p r hr]; exact hrec⟩⟩

/-- What an insertion does to the objects, and to the records of all but its own. -/
structure Inserted (c : Addr) (k : CStr) (e : RpcTypeT) (m : RpcStruct) (e' : RpcTypeT) (st st' : State) :
    Prop where
  heap : ∀ a, a ≠ c → st'.heap.lookup a = st.heap.lookup a
  struct : st'.struct? c = some { m with map := m.map.insert k e' }
  value : e.SameValue e'
  block : ∀ a t, e' = .string a t → ¬ st.InUse a
  other : ∀ q, e.target ≠ some q → st'.tracker.lookup q = st.tracker.lookup q

theorem heap_incrementElement (c : Addr) (k : CStr) (e : RpcTypeT) :
    (incrementElement st c k e).heap = st.heap := by
  unfold incrementElement
  split
  · exact heap_precIncrement ..
  · rfl

theorem incrementElement_other {c : Addr} {k : CStr} {e : RpcTypeT} {q : Addr}
    (hq : e.target ≠ some q) :
    (incrementElement st c k e).tracker.lookup q = st.tracker.lookup q := by
  unfold incrementElement
  split
  · rename_i p ht
    unfold precIncrement
    split
    · rfl
    · rw [lookup_setPrec, if_neg]
      rintro rfl
      exact hq ht
  · rfl

/-- The objects after an insertion by the loop of a copy. -/
theorem inserted_increment (hst : Stored st) {c : Addr} {m : RpcStruct} (hc : st.struct? c = some m)
    {k : CStr} (hk : m.map.lookup k = none) {e : RpcTypeT} (hsz : e.Sized)
    (hnn : rpcIsPointer e.type = true → e.ptrValue ≠ 0) :
    ∃ st' e', Prod.fst <$> rpcStructSetInternal E (incrementElement st c k e) c k e = .ok st' ∧
      st' = (trackElement (incrementElement st c k e) c k e).setObj c
        (.struct { m with map := m.map.insert k e' }) ∧
      e' = strdupElement E (incrementElement st c k e) e ∧
      Stored st' ∧ Inserted c k e m e' st st' := by
  have hheap : (incrementElement st c k e).heap = st.heap := heap_incrementElement c k e
  have hc1 : (incrementElement st c k e).struct? c = some m :=
    (struct?_congr (by rw [hheap])).trans hc
  refine ⟨_, strdupElement E (incrementElement st c k e) e,
    by rw [setInternal_fresh (E := E) hc1 hk hnn]; rfl, rfl, rfl,
    stored_strdup hst hc hheap ((heap_trackElement c k e).trans hheap) hsz hnn,
    fun a ha => ?_, ?_, sameValue_strdupElement e, fun a t ha => ?_, fun q hq => ?_⟩
  · rw [lookup_setObj, if_neg ha, heap_trackElement, hheap]
  · rw [struct?_setObj_struct, if_pos rfl]
  · cases e with
    | string q t' =>
      cases ha
      have := E.malloc_fresh (incrementElement st c k (.string q t))
      simpa only [InUse, entry, struct?, hheap] using this
    | _ => cases ha
  · rw [tracker_setObj, trackElement_other c k hq, incrementElement_other hq]

/-- The loop of a copy counts a tracked object twice for one entry. -/
theorem incrementSet_spec (h : Inv off extra ∅ ∅ st) (hst : Stored st) {c : Addr} {m : RpcStruct}
    (hc : st.struct? c = some m) {k : CStr} (hk : m.map.lookup k = none) {e : RpcTypeT}
    (hsz : e.Sized) (hnn : rpcIsPointer e.type = true → e.ptrValue ≠ 0)
    (htr : ∀ p, e.target = some p → (∃ r, st.tracker.lookup p = some r) ∧
      ∃ o, st.heap.lookup p = some o ∧ o.type = e.type) :
    ∃ st' e', Prod.fst <$> rpcStructSetInternal E (incrementElement st c k e) c k e = .ok st' ∧
      Inv off (fun p => extra p + if e.target = some p then 1 else 0) ∅ ∅ st' ∧ Stored st' ∧
      Inserted c k e m e' st st' := by
  obtain ⟨st', e', hok, hst', he', hstored, hins⟩ := inserted_increment (E := E) hst hc hk hsz hnn
  refine ⟨st', e', hok, ?_, hstored, hins⟩
  have hc0 : c ≠ 0 := by
    rintro rfl
    have := struct?_eq_some.1 hc
    rw [h.null] at this; cases this
  have htarget : e'.target = e.target := by rw [he', target_strdupElement]
  subst hst'
  refine h.insertEntry hc hk ((heap_trackElement c k e).trans (heap_incrementElement c k e))
    (fun q hq => ?_) (fun p hp => ?_)
  · rw [htarget] at hq
    exact ⟨(trackElement_other c k hq).trans (incrementElement_other hq),
      by rw [if_neg hq, Nat.add_zero]⟩
  · rw [htarget] at hp
    obtain ⟨⟨r, hr⟩, o, ho, hty⟩ := htr p hp
    obtain ⟨-, o', ho', hrec⟩ := h.tracked p r hr
    rw [ho] at ho'
    cases ho'
    rw [Finset.sdiff_empty] at hrec
    have hnew : (c, k) ∉ st.holders p := by
      rw [mem_holders]
      simp [held, entry_of_struct hc, hk]
    -- the record after the explicit increment, and after the second one
    have h1 := record_increment (.inr hrec) hc0 hnew (f := rpcFreefnOf e.type) (.inl hrec)
    have h2 := record_increment_again h1 hc0 (Finset.mem_insert_self _ _) (rpcFreefnOf e.type)
    have hr1 : (incrementElement st c k e).tracker.lookup p = some (rpcStructIncrementCb
        { r with refcount := r.refcount + 1 } (some ⟨c, some k, rpcFreefnOf e.type⟩)) := by
      simp only [incrementElement, hp, precIncrement, hr, lookup_setPrec, if_true]
    refine ⟨o, _, ho, by rw [he', type_strdupElement, hty],
      by rw [lookup_trackElement hp, if_pos rfl, hr1], ?_, ?_⟩
    · rw [increment_refcount]
      exact Nat.succ_pos _
    · rw [if_pos hp]
      exact h2

/-- One turn of the loop: the object of the entry is counted twice. -/
theorem copyElement_spec (h : Inv off extra ∅ ∅ st) (hst : Stored st) {S copy : Addr} {k : CStr}
    {s c : RpcStruct} {e : RpcTypeT} (he : s.map.lookup k = some e) (hSk : st.entry S k = some e)
    (hc : st.struct? copy = some c) (hk : c.map.lookup k = none) :
    ∃ st' e', copyElement E s copy st k = .ok st' ∧ e.SameValue e' ∧
      Inv off (fun p => extra p + if e.target = some p then 1 else 0) ∅ ∅ st' ∧ Stored st' ∧
      (∀ a, a ≠ copy → st'.heap.lookup a = st.heap.lookup a) ∧
      st'.struct? copy = some { c with map := c.map.insert k e' } := by
  obtain ⟨st', e', hok, hinv, hstored, hins⟩ := incrementSet_spec (E := E) h hst hc hk
    (hst.sized S k e hSk) (hst.nonnull S k e hSk) fun p hp => by
      obtain ⟨r, -, hr, -⟩ := h.tracked_of_held (Set.notMem_empty p)
        (held_eq_some.2 ⟨e, hSk, hp⟩)
      exact ⟨⟨r, hr⟩, h.typed S k e p hSk hp (Set.notMem_empty _) (Finset.notMem_empty _)⟩
  exact ⟨st', e', by simp only [copyElement, he, hok], hins.value, hinv, hstored, hins.heap, hins.struct⟩

/-- The whole copy. -/
theorem copy_spec (E : Env) (h : Inv off extra ∅ ∅ st) (hst : Stored st) {o : Addr} {s : RpcStruct}
    (hs : st.struct? o = some s) :
    ∃ st' c, rpcStructCopy E st o = .ok (st', c) ∧
      Inv off (fun p => extra p + s.refs p) ∅ ∅ st' ∧ Stored st' ∧ Copied s o c st st' := by
  set c := E.malloc st with hcdef
  have hfresh : ¬ st.InUse c := E.malloc_fresh st
  have hc0 : c ≠ 0 := fun h0 => hfresh (.inl h0)
  have hcnone : st.heap.lookup c = none := by
    cases hl : st.heap.lookup c with
    | none => rfl
    | some x => exact absurd (.inr (.inl ⟨x, hl⟩)) hfresh
  have hoc : o ≠ c := by
    rintro rfl
    rw [struct?_eq_some, hcnone] at hs; cases hs
  -- the new struct, with the ID of the original
  set st1 := st.setObj c (.struct ⟨∅, E.random st ++ [0], 0⟩) with hst1
  have hcreate : rpcStructCreate E st = (st1, c) := rfl
  have hs1 : st1.struct? o = some s := by
    rw [hst1, struct?_setObj_struct, if_neg hoc]; exact hs
  have hc1 : st1.struct? c = some ⟨∅, E.random st ++ [0], 0⟩ := by
    rw [hst1, struct?_setObj_struct, if_pos rfl]
  have hlen : (rpcStructIdGet st1 o).length ≤ (E.random st ++ [0]).length := by
    have h1 := hst.idSize o s hs
    have h2 : (s.ID.takeWhile (· ≠ (0 : UInt8))).length ≤ s.ID.length :=
      (List.takeWhile_prefix _).length_le
    rw [List.length_append, E.random_length]
    simp only [rpcStructIdGet, hs1, Option.map_some, Option.getD_some]
    simp only [List.length_singleton]
    omega
  obtain ⟨id, hid, hidlen⟩ : ∃ id : List UInt8, rpcStructIdSet st1 c (rpcStructIdGet st1 o) =
      .ok (st1.setObj c (.struct ⟨∅, id, 0⟩)) ∧ id.length = 65 := by
    refine ⟨rpcStructIdGet st1 o ++ (E.random st ++ [0]).drop (rpcStructIdGet st1 o).length, ?_, ?_⟩
    · simp only [rpcStructIdSet, hc1]
      rw [if_neg (by omega)]
    · rw [List.length_append, List.length_drop]
      rw [List.length_append, E.random_length] at hlen ⊢
      simp only [List.length_singleton] at hlen ⊢
      omega
  set st2 := st1.setObj c (.struct ⟨∅, id, 0⟩) with hst2
  have hheap2 : ∀ a, a ≠ c → st2.heap.lookup a = st.heap.lookup a := by
    intro a ha
    rw [hst2, lookup_setObj, if_neg ha, hst1, lookup_setObj, if_neg ha]
  have hc2 : st2.struct? c = some ⟨∅, id, 0⟩ := by
    rw [hst2, struct?_setObj_struct, if_pos rfl]
  have hsame2 : st2.heap = (st.setObj c (.struct ⟨∅, id, 0⟩)).heap ∧ st2.tracker = st.tracker := by
    refine ⟨?_, rfl⟩
    simp only [hst2, hst1, setObj, AList.insert_insert]
  have heq2 : st2 = st.setObj c (.struct ⟨∅, id, 0⟩) := by
    cases hst2' : st2 with
    | mk hp tr =>
      rw [hst2'] at hsame2
      simp only at hsame2
      rw [hsame2.1, hsame2.2]; rfl
  have hnone2 : ∀ k, (st.setObj c (.struct ⟨∅, id, 0⟩)).entry c k = none := fun k => by
    rw [entry_setObj_struct, if_pos rfl]; rfl
  have hinv2 : Inv off extra ∅ ∅ st2 := by rw [heq2]; exact h.create hcnone hc0 hnone2
  have hstored2 : Stored st2 := by
    rw [heq2]
    exact hst.create hfresh (by rintro s ⟨⟩; exact hidlen) hnone2
  -- the loop
  let I : List CStr → State → Prop := fun done st' =>
    ∃ c', st'.struct? c = some c' ∧
      Inv off (fun p => extra p + done.countP fun k => (s.map.lookup k).bind RpcTypeT.target = some p)
        ∅ ∅ st' ∧
      Stored st' ∧ (∀ a, a ≠ c → st'.heap.lookup a = st.heap.lookup a) ∧
      (∀ k, k ∉ done → c'.map.lookup k = none) ∧
      ∀ k ∈ done, ∀ e, s.map.lookup k = some e → ∃ e', c'.map.lookup k = some e' ∧ e.SameValue e'
  obtain ⟨st3, hloop, c3, hc3, hinv3, hstored3, hframe3, hno3, hall3⟩ := foldlM_inv_nodup
    (f := copyElement E s c) I (E.order st2 o s.map.keys) [] st2
    ((E.order_perm ..).nodup_iff.2 (AList.keys_nodup s.map)) (by simp)
    ⟨⟨∅, id, 0⟩, hc2, by simpa using hinv2, hstored2, hheap2, by simp, by simp⟩ (by
      rintro done st' k hk hnew ⟨c', hc', hinv', hstored', hframe', hno', hall'⟩
      rw [(E.order_perm ..).mem_iff] at hk
      obtain ⟨e, he⟩ := Table.mem_keys_iff.1 hk
      have hSk : st'.entry o k = some e := by
        rw [entry_congr (hframe' o hoc), entry_of_struct hs, he]
      obtain ⟨st'', e', hok, hsv, hinv'', hstored'', hframe'', hc''⟩ :=
        copyElement_spec (E := E) hinv' hstored' he hSk hc' (hno' k hnew)
      refine ⟨st'', hok, _, hc'', ?_, hstored'', ?_, ?_, ?_⟩
      · refine hinv''.congr_extra fun p r _ => ?_
        simp only [List.countP_cons, he, Option.bind_some, decide_eq_true_eq, Nat.add_assoc]
      · intro a ha
        rw [hframe'' a ha, hframe' a ha]
      · intro k' hk'
        rw [List.mem_cons, not_or] at hk'
        rw [Table.lookup_insert_if, if_neg hk'.1]
        exact hno' k' hk'.2
      · intro k' hk' e1 he1
        rw [Table.lookup_insert_if]
        split
        · rename_i hkk
          subst hkk
          rw [he] at he1; cases he1
          exact ⟨e', rfl, hsv⟩
        · rename_i hkk
          exact hall' k' ((List.mem_cons.1 hk').resolve_left hkk) e1 he1)
  have hkeys : ∀ k, k ∈ (E.order st2 o s.map.keys).reverse ++ [] ↔ ∃ e, s.map.lookup k = some e := by
    intro k
    rw [List.append_nil, List.mem_reverse, (E.order_perm ..).mem_iff, Table.mem_keys_iff]
  -- `copy->copyof = original`
  obtain ⟨hstored4, hinv4⟩ := update_step hinv3 hstored3 hc3 { c3 with copyof := o } rfl
    (hstored3.idSize c c3 hc3)
  refine ⟨st3.setObj c (.struct { c3 with copyof := o }), c, ?_, ?_, ?_, hfresh, ?_, ?_⟩
  · simp only [rpcStructCopy, hs, hcreate, bind, Except.bind, hid]
    rw [show (E.order st2 o s.map.keys).foldlM (copyElement E s c) st2 = .ok st3 from hloop]
    simp only [setCopyof, hc3]
  · refine hinv4.congr_extra fun p r _ => ?_
    rw [List.append_nil, List.countP_reverse, (E.order_perm ..).countP_eq]
    rfl
  · exact hstored4
  · intro a ha
    rw [lookup_setObj, if_neg ha]
    exact hframe3 a ha
  · refine ⟨{ c3 with copyof := o }, by rw [struct?_setObj_struct, if_pos rfl], rfl, fun k hk => ?_,
      fun k e he => ?_⟩
    · refine hno3 k fun hmem => ?_
      obtain ⟨e, he⟩ := (hkeys k).1 hmem
      rw [hk] at he; cases he
    · exact hall3 k ((hkeys k).2 ⟨e, he⟩) e he

/-! ## What a copy holds -/

theorem refs_pos_iff {o : Addr} {s : RpcStruct} (hs : st.struct? o = some s) (p : Addr) :
    0 < s.refs p ↔ ∃ k, st.held o k = some p := by
  unfold RpcStruct.refs
  rw [List.countP_pos_iff]
  constructor
  · intro h
    obtain ⟨k, -, hk⟩ := h
    exact ⟨k, by simpa [held, entry_of_struct hs] using hk⟩
  · intro h
    obtain ⟨k, hk⟩ := h
    obtain ⟨e, he, ht⟩ := held_eq_some.1 hk
    rw [entry_of_struct hs] at he
    exact ⟨k, Table.mem_keys_iff.2 ⟨e, he⟩, by simp [he, ht]⟩

theorem RpcTypeT.SameValue.target {e e' : RpcTypeT} (h : e.SameValue e') : e'.target = e.target := by
  cases e <;> cases e' <;> simp_all [RpcTypeT.SameValue, RpcTypeT.target]

/-- The references after a copy: those of before, and the copy's. -/
theorem Copied.held {s : RpcStruct} {o c : Addr} {st' : State} (h : Copied s o c st st')
    (hs : st.struct? o = some s) (S : Addr) (k : CStr) :
    st'.held S k = if S = c then st.held o k else st.held S k := by
  split
  · rename_i hS
    subst hS
    obtain ⟨s', hs', -, hno, hall⟩ := h.map
    unfold State.held
    rw [entry_of_struct hs, entry_of_struct hs']
    cases hk : s.map.lookup k with
    | none => rw [hno k hk]
    | some e =>
      obtain ⟨e', he', hsv⟩ := hall k e hk
      rw [he']
      exact hsv.target
  · rename_i hS
    exact held_congr (h.frame S hS) k

/-- Nothing refers to the new struct. -/
theorem Copied.unheld {s : RpcStruct} {o c : Addr} {st' : State}
    (h : Copied s o c st st') (hs : st.struct? o = some s) (hinv : Inv off extra ∅ ∅ st) :
    ∀ S k, st'.held S k ≠ some c := by
  intro S k hc
  have hold : ∃ S', st.held S' k = some c := by
    rw [h.held hs] at hc
    split at hc
    · exact ⟨o, hc⟩
    · exact ⟨S, hc⟩
  obtain ⟨S', hh⟩ := hold
  obtain ⟨-, x, -, hx, -⟩ := hinv.tracked_of_held (Set.notMem_empty c) hh
  exact h.fresh (.inr (.inl ⟨x, hx⟩))

end

end FfiRpc
