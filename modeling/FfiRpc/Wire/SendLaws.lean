import FfiRpc.Store.CopyLaws
import FfiRpc.Wire.Send

/-!
# What serialisation leaves behind

Sending a struct should leave every object and every record as it was
(`Unchanged`). The objects are: the shallow copy it works on is gone again. The
records are only where there was nothing to record: each struct, sizedbuf and
function the struct holds keeps the reference of the copy
(`serialize_unchanged_iff`).
-/
namespace FfiRpc

open State

/-- Objects and records as before. -/
structure Unchanged (st st' : State) : Prop where
  objects : Frame ∅ st st'
  tracker : SameTracker st st'

section
variable {E : Env} {utf8 : CStr → Bool} {st : State} {o : Addr}

/-- A call that leaves the records alone was on a struct with nothing to
record. -/
theorem Unchanged.flat (h : WF st) (hs : ∃ s, st.struct? o = some s) {n : Nat} {st' : State}
    {j : Json} (hok : rpcStructSerialize E utf8 n st o = .ok (st', j)) (hu : Unchanged st st')
    (k : CStr) : st.held o k = none := by
  rcases serialize_spec E utf8 True h.inv h.stored nofun n _ st o h.inv h.stored
    (.refl ∅ st) hs (fun hb => absurd trivial hb) with hsent | herr
  · obtain ⟨r, hr, extra', hinv', -, -, -, hmore, -⟩ := hsent
    rw [hok] at hr
    cases hr
    cases hk : st.held o k with
    | none => rfl
    | some p =>
      exfalso
      have hheld : ∀ S k, st'.held S k = st.held S k := fun S k =>
        hu.objects.held (Set.notMem_empty S) k
      obtain ⟨r, x, hr, -, hrec⟩ := h.inv.tracked_of_held (Set.notMem_empty p) hk
      obtain ⟨r', x', hr', -, hrec'⟩ := hinv'.tracked_of_held (Set.notMem_empty p)
        ((hheld o k).trans hk)
      have hcount := hrec.count
      have hcount' := hrec'.count
      rw [holders_congr hheld] at hcount'
      have hsame := ((hu.tracker p).2 r r' hr hr').refcount
      have hlt := hmore k p hk
      omega
  · obtain ⟨-, e, he⟩ := herr
    rw [hok] at he; cases he

/-! ## Structs that hold no tracked object -/

theorem found_flat {s : RpcStruct} (hs : st.struct? o = some s) (hflat : ∀ k, st.held o k = none) :
    rpcStructFoundDuplicates E st o = .ok [] := by
  obtain ⟨fs, hok, hfs⟩ := foldlM_inv (f := foundStep E st s) (fun _ fs => fs = ⟨0, 16, [], ∅⟩)
    (E.order st o s.map.keys) [] _ rfl (fun _ fs k _ hfs => by
      refine ⟨fs, ?_, hfs⟩
      have hk := hflat k
      rw [State.held, entry_of_struct hs] at hk
      unfold foundStep
      cases hl : s.map.lookup k with
      | none => rfl
      | some e =>
        rw [hl, Option.bind_some] at hk
        simp only [hk])
  simp only [rpcStructFoundDuplicates, hs]
  rw [hok, hfs]
  rfl

theorem serializeElement_flat {rec : State → Addr → Except Fault (State × Json)} {e : RpcTypeT}
    (ht : e.target = none) {r : State × Option Json} (hok : serializeElement utf8 rec st e = .ok r) :
    r.1 = st := by
  cases e <;> cases ht <;> cases hok <;> rfl

/-- Serialising such a struct leaves the tracker alone. -/
theorem serialize_flat (hinv : Inv ∅ st.surplus ∅ ∅ st) (hst : Stored st) {s : RpcStruct}
    (hs : st.struct? o = some s) (hflat : ∀ k, st.held o k = none) {n : Nat} {st' : State} {j : Json}
    (hok : rpcStructSerialize E utf8 n st o = .ok (st', j)) : st'.tracker = st.tracker := by
  cases n with
  | zero => cases hok
  | succ n =>
    unfold rpcStructSerialize at hok
    obtain ⟨⟨st1, d⟩, hcopy, hok⟩ := bind_eq_ok.1 hok
    obtain ⟨dups, -, hok⟩ := bind_eq_ok.1 hok
    obtain ⟨st2, hloop2, hok⟩ := bind_eq_ok.1 hok
    obtain ⟨st3, hloop3, hok⟩ := bind_eq_ok.1 hok
    obtain ⟨⟨st4, ser⟩, hloop4, hok⟩ := bind_eq_ok.1 hok
    obtain ⟨st5, hfree, hok⟩ := bind_eq_ok.1 hok
    cases hok
    obtain ⟨st1', d', hcopy', hinv1, -, hcopied⟩ := copy_spec E hinv hst hs
    rw [hcopy] at hcopy'
    cases hcopy'
    let I : State → Prop := fun s =>
      s.tracker = st.tracker ∧ (∃ c, s.struct? d = some c) ∧ ∀ k, s.held d k = none
    have hremove : ∀ s k s', I s → Prod.fst <$> rpcStructRemove E s d k = .ok s' → I s' := by
      intro s k s' hI hok
      obtain ⟨htr, hd, hfl⟩ := remove_flat hI.2.2 hok
      exact ⟨htr.trans hI.1, hd, hfl⟩
    have h1 : I st1 := by
      obtain ⟨c, hc, -⟩ := hcopied.map
      exact ⟨copy_flat hflat hcopy, ⟨c, hc⟩, fun k => by rw [hcopied.held hs, if_pos rfl, hflat]⟩
    have h2 : I st2 := foldlM_ok I (fun s k s' hI hok => by
      unfold removeUnknown at hok
      split at hok
      · exact hremove s k s' hI hok
      · cases hok; exact hI) _ st1 st2 h1 hloop2
    have h3 : I st3 := foldlM_ok I (fun s g s' hI hok => foldlM_ok I hremove _ s s' hI hok)
      _ st2 st3 h2 hloop3
    have h4 : I st4 := foldlM_ok (fun r : State × List (CStr × Json) => I r.1)
      (fun r k r' hI hok => by
        unfold serializeField at hok
        obtain ⟨r1, hel, hok⟩ := bind_eq_ok.1 hok
        cases hok
        have ht : (rpcStructGetInternal r.1 d k).target = none := by
          have hk := hI.2.2 k
          rw [State.held] at hk
          rw [rpcStructGetInternal]
          cases he : r.1.entry d k with
          | none => rfl
          | some e =>
            rw [he, Option.bind_some] at hk
            exact hk
        rw [show r1.1 = r.1 from serializeElement_flat ht hel]
        exact hI) _ (st3, []) (st4, ser) h3 hloop4
    obtain ⟨htr4, ⟨c, hc⟩, hflat4⟩ := h4
    have hd0 : d ≠ 0 := fun h0 => hcopied.fresh (.inl h0)
    have hdtr : st4.tracker.lookup d = none := by
      rw [htr4]
      cases hr : st.tracker.lookup d with
      | none => rfl
      | some r =>
        obtain ⟨-, x, hx, -⟩ := hinv.tracked d r hr
        exact absurd (.inr (.inl ⟨x, hx⟩)) hcopied.fresh
    exact (free_flat hd0 hc hdtr hflat4 hfree).trans htr4

/-- Nothing is changed exactly where the struct holds no struct, sizedbuf or
function, be it acyclic or not. -/
theorem serialize_unchanged_iff (h : api.Reachable st) (E : Env) (utf8 : CStr → Bool)
    (hs : ∃ s, st.struct? o = some s) :
    (∃ st' j, Serializes E utf8 st o st' j ∧ Unchanged st st') ↔ ∀ k, st.held o k = none := by
  have hwf := api_wf h
  constructor
  · intro hok
    obtain ⟨st', j, ⟨n, hok⟩, hu⟩ := hok
    exact hu.flat hwf hs hok
  · intro hflat
    have hedge : ∀ p, ¬ st.Edge o p := by
      intro p hp
      obtain ⟨k, hk⟩ := hp
      have := hflat k
      rw [State.held, hk] at this; cases this
    have hfound : ∀ T, st.Nested o T → ∀ st', Keeps ∅ st st' →
        ∃ dups, rpcStructFoundDuplicates E st' T = .ok dups := by
      intro T hT st' hkeep
      rcases hT.cases_head with hT | ⟨p, hp, -⟩
      · subst hT
        obtain ⟨s, hs⟩ := hs
        obtain ⟨s', hs', -, hmap⟩ := hkeep.struct (Set.notMem_empty o) hs
        refine ⟨[], found_flat hs' fun k => ?_⟩
        have := hflat k
        rwa [State.held, entry_of_struct hs, ← hmap, ← entry_of_struct hs'] at this
      · exact absurd hp (hedge p)
    rcases serialize_spec E utf8 False hwf.inv hwf.stored (fun q hq => by cases hq) 1 _ st o
      hwf.inv hwf.stored (.refl ∅ st) hs
      (fun _ => ⟨.mk fun p hp => absurd hp (hedge p), hfound⟩) with hsent | herr
    · obtain ⟨r, hr, -, -, -, hframe, -⟩ := hsent
      obtain ⟨s, hs⟩ := hs
      exact ⟨r.1, r.2, ⟨1, hr⟩, hframe, .of_eq (serialize_flat hwf.inv hwf.stored hs hflat hr)⟩
    · exact herr.1.elim

end

theorem serialize_unchanged_iff_shared : ∃ st, st.held 1 [107] = some 2 ∧
    ¬ ∃ st' j, Serializes .bump (fun _ => true) st 1 st' j ∧ Unchanged st st' := by
  obtain ⟨st, s, h, hs, hh, -⟩ := exists_shared
  refine ⟨st, hh, fun hok => ?_⟩
  have := (serialize_unchanged_iff h.of_restrict .bump (fun _ => true) ⟨s, hs⟩).1 hok [107]
  rw [hh] at this; cases this

/-- Sending a struct that holds a sizedbuf adds a reference to the sizedbuf. -/
theorem serialize_leaks : ∃ st st' j, api.Reachable st ∧ Nesting.Acyclic st.Edge 1 ∧
    Serializes .bump (fun _ => true) st 1 st' j ∧ ¬ Unchanged st st' := by
  have h1 := graph_step .bump .structCreate (.init rfl) trivial trivial rfl
  have h2 := graph_step .bump (.sizedbufCreate [7]) h1 trivial trivial rfl
  have h3 := graph_step .bump (.set 1 [107] (.sizedbuf 2)) h2
    ⟨⟨_, rfl⟩, trivial, fun p hp _ => by cases hp; exact ⟨_, rfl, rfl⟩⟩ trivial rfl
  refine ⟨_, _, _, h3.of_restrict, fun T _ hcycle => ?_, ⟨1, rfl⟩, fun hu => ?_⟩
  · obtain ⟨p, ⟨k, hk⟩, -⟩ := Relation.TransGen.head'_iff.1 hcycle
    cases List.mem_singleton.1 (show (T, k) ∈ [((1 : Addr), ([107] : CStr))] from mem_pairs hk)
    cases hk
  · have hcount := ((hu.tracker 2).2 _ _ rfl rfl).refcount
    exact absurd hcount (by decide)

end FfiRpc
