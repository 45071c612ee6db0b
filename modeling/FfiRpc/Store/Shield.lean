import FfiRpc.Store.Reach
import FfiRpc.Store.Sweep

/-!
# What a release cannot reach

`Kept` is the part of the tracker's invariant that does not speak of release
callbacks: every held object has a record that counts its holders, and a record
names only holders. Switching callbacks off, as `call_rpc_closure` does, keeps it.

`Shielded` is about a set of objects that is closed under holding and hangs from
a root that has no record. A release that starts outside of the set, with all that
follows from it, leaves the set alone (`Shielded.free`): each of its objects is held
from inside, so that its count stays above zero. Whether callbacks are on or off
makes no difference.
-/
namespace FfiRpc

open State

/-- The slots of every key are in order. -/
def Prec.Slots (r : Prec) : Prop :=
  ∀ c, r.context = some c → ∀ k s, c.keys.lookup k = some s → s.SlotInv

/-- Held objects are counted, and records name holders. -/
structure Kept (st : State) : Prop where
  slots : ∀ q r, st.tracker.lookup q = some r → r.Slots
  counted : ∀ S k p, st.held S k = some p →
    ∃ r, st.tracker.lookup p = some r ∧ (st.holders p).card ≤ r.refcount
  recorded : ∀ q r, st.tracker.lookup q = some r → ∀ S k, S ∈ r.recorded k → st.held S k = some q

/-- `X` hangs from `R`, and nothing outside is recorded to be held from inside. -/
structure Shielded (X : Set Addr) (R : Addr) (st : State) : Prop where
  root : R ∈ X
  loose : st.tracker.lookup R = none
  slots : ∀ q r, st.tracker.lookup q = some r → r.Slots
  held : ∀ p ∈ X, p ≠ R → ∃ S ∈ X, ∃ k, st.held S k = some p
  counted : ∀ p ∈ X, p ≠ R →
    ∃ r, st.tracker.lookup p = some r ∧ (st.holders p).card ≤ r.refcount
  foreign : ∀ q r, q ∉ X → st.tracker.lookup q = some r → ∀ S ∈ X, ∀ k, S ∉ r.recorded k

/-- Nothing happened to the shielded objects. -/
structure Spared (X : Set Addr) (R : Addr) (st st' : State) : Prop where
  shielded : Shielded X R st'
  same : ∀ a ∈ X, st'.heap.lookup a = st.heap.lookup a

section
variable {X : Set Addr} {R : Addr} {st st' st'' : State}

theorem Spared.refl (h : Shielded X R st) : Spared X R st st := ⟨h, fun _ _ => rfl⟩

theorem Spared.trans (h : Spared X R st st') (h' : Spared X R st' st'') : Spared X R st st'' :=
  ⟨h'.shielded, fun a ha => (h'.same a ha).trans (h.same a ha)⟩

/-! ## Records

A decrement lowers the count by one and takes out origins, whatever is known of the record. -/

theorem decremented_spec {r : Prec} (hs : r.Slots) (S : Addr) (key : CStr) (f : Option FreeFn) :
    (r.decremented (some ⟨S, some key, f⟩)).refcount = r.refcount - 1 ∧
    (r.decremented (some ⟨S, some key, f⟩)).Slots ∧
    ∀ k, (r.decremented (some ⟨S, some key, f⟩)).recorded k ⊆ r.recorded k := by
  obtain ⟨n, context⟩ := r
  unfold Prec.decremented
  split
  · cases context with
    | none => exact ⟨rfl, hs, fun _ => List.Subset.refl _⟩
    | some c =>
      refine ⟨?_, fun c' hc' k s hk => ?_, fun k => ?_⟩
      · simp only [rpcStructDecrementCb]
        split
        · rfl
        · split <;> rfl
      · simp only [rpcStructDecrementCb] at hc'
        split at hc'
        · cases hc'
          exact hs c rfl k s hk
        · rename_i s0 hs0
          split at hc'
          · cases hc'
            rw [Table.lookup_erase_if] at hk
            split at hk
            · cases hk
            · exact hs c rfl k s hk
          · cases hc'
            rw [Table.lookup_insert_if] at hk
            split at hk
            · cases hk
              exact PrecCtx.decr_inv (hs c rfl key s0 hs0) S
            · exact hs c rfl k s hk
      · rw [recorded_decrement rfl (hs c rfl)]
        split
        · exact List.filter_subset_self _
        · exact List.Subset.refl _
  · rename_i h0
    have hn : n = 0 := Nat.eq_zero_of_not_pos h0
    exact ⟨by simp [hn], hs, fun _ => List.Subset.refl _⟩

/-! ## Steps outside of the set

Each step of a release, on an object that is not shielded. -/

theorem Shielded.setPrec (h : Shielded X R st) {p : Addr} {r r' : Prec}
    (hr : st.tracker.lookup p = some r) (hs : r'.Slots)
    (hsub : ∀ k, r'.recorded k ⊆ r.recorded k)
    (hcount : p ∈ X → (st.holders p).card ≤ r'.refcount) : Shielded X R (st.setPrec p r') := by
  refine ⟨h.root, ?_, fun q rq hq => ?_, h.held, fun q hq hR => ?_, fun q rq hX hq => ?_⟩
  · rw [lookup_setPrec, if_neg]
    · exact h.loose
    · intro hR
      rw [← hR, h.loose] at hr; cases hr
  · rw [lookup_setPrec] at hq
    split at hq
    · cases hq
      exact hs
    · exact h.slots q rq hq
  · rw [lookup_setPrec]
    split
    · rename_i hqp
      subst hqp
      exact ⟨r', rfl, hcount hq⟩
    · exact h.counted q hq hR
  · rw [lookup_setPrec] at hq
    split at hq
    · rename_i hqp
      subst hqp
      cases hq
      exact fun S hS k hk => h.foreign q r hX hr S hS k (hsub k hk)
    · exact h.foreign q rq hX hq

theorem Shielded.delPrec (h : Shielded X R st) {p : Addr} (hp : p ∉ X) :
    Shielded X R (st.delPrec p) := by
  have hother : ∀ q rq, (st.delPrec p).tracker.lookup q = some rq →
      st.tracker.lookup q = some rq := by
    intro q rq hq
    rw [lookup_delPrec] at hq
    split at hq
    · cases hq
    · exact hq
  refine ⟨h.root, ?_, fun q rq hq => h.slots q rq (hother q rq hq), h.held, fun q hq hR => ?_,
    fun q rq hX hq => h.foreign q rq hX (hother q rq hq)⟩
  · rw [lookup_delPrec]
    split
    · rfl
    · exact h.loose
  · rw [lookup_delPrec, if_neg]
    · exact h.counted q hq hR
    · intro hqp
      exact hp (hqp ▸ hq)

/-- Fewer entries, all of them outside. -/
theorem Shielded.fewer (h : Shielded X R st) (htr : st'.tracker = st.tracker)
    (hsame : ∀ a ∈ X, st'.heap.lookup a = st.heap.lookup a)
    (hheld : ∀ S k p, st'.held S k = some p → st.held S k = some p) : Spared X R st st' := by
  refine ⟨⟨h.root, htr ▸ h.loose, htr ▸ h.slots, fun p hp hR => ?_, fun p hp hR => ?_,
    htr ▸ h.foreign⟩, hsame⟩
  · obtain ⟨S, hS, k, hk⟩ := h.held p hp hR
    exact ⟨S, hS, k, by rw [held_congr (hsame S hS)]; exact hk⟩
  · obtain ⟨r, hr, hle⟩ := h.counted p hp hR
    refine ⟨r, by rw [htr]; exact hr, (Finset.card_le_card fun e he => ?_).trans hle⟩
    exact mem_holders.2 (hheld e.1 e.2 p (mem_holders.1 he))

theorem Shielded.dropEntry (h : Shielded X R st) {S : Addr} {key : CStr} (hS : S ∉ X)
    (hok : dropEntry st S key = .ok st') : Spared X R st st' ∧
      st'.tracker = st.tracker ∧ ∀ p, st'.holders p = (st.holders p).erase (S, key) := by
  unfold FfiRpc.dropEntry at hok
  cases hs : st.struct? S with
  | none => rw [hs] at hok; cases hok
  | some s =>
    simp only [hs] at hok
    split at hok
    · cases hok
    · cases hok
      refine ⟨h.fewer rfl (fun a ha => ?_) fun S' k p hp => ?_, rfl, holders_dropEntry hs key⟩
      · rw [lookup_setObj, if_neg]
        intro haS
        exact hS (haS ▸ ha)
      · rw [held_dropEntry hs] at hp
        split at hp
        · cases hp
        · exact hp

theorem Shielded.release (h : Shielded X R st) {t : RpcTypes} {a : Addr} (ha : a ∉ X)
    (hok : st.release t a = .ok st') : Spared X R st st' := by
  unfold State.release at hok
  split at hok
  · split at hok
    · cases hok
      refine h.fewer rfl (fun b hb => ?_) fun S k p hp => ?_
      · rw [lookup_delObj, if_neg]
        intro hba
        exact ha (hba ▸ hb)
      · obtain ⟨e, he, ht⟩ := held_eq_some.1 hp
        obtain ⟨s, hs, hk⟩ := entry_eq_some.1 he
        rw [struct?_delObj] at hs
        split at hs
        · cases hs
        · exact held_eq_some.2 ⟨e, entry_eq_some.2 ⟨s, hs, hk⟩, ht⟩
    · cases hok
  · cases hok

/-! ## The cascade

A decrement may reach a shielded object, which is held from inside and keeps its record. -/

section Cascade
variable {E : Env} {del : State → Addr → Except Fault State}

theorem Shielded.decrement (h : Shielded X R st) (hdel : Deletes Xᶜ (Shielded X R) (Spared X R) del) {p S : Addr}
    (hp : p ∉ X) (key : CStr) (hok : precDecrementBy del st p (some ⟨S, some key, none⟩) = .ok st') :
    Spared X R st st' := by
  unfold precDecrementBy at hok
  cases hr : st.tracker.lookup p with
  | none =>
    rw [hr] at hok
    cases hok
    exact .refl h
  | some r =>
    simp only [hr] at hok
    obtain ⟨-, hslots, hsub⟩ := decremented_spec (h.slots p r hr) S key none
    have h1 := h.setPrec hr hslots hsub fun hX => absurd hX hp
    have hspared : Spared X R st (st.setPrec p (r.decremented (some ⟨S, some key, none⟩))) :=
      ⟨h1, fun _ _ => rfl⟩
    split at hok
    · exact hspared.trans (hdel _ p st' h1 hp hok)
    · cases hok
      exact hspared

/-- A removal from a struct outside. -/
theorem Shielded.remove (h : Shielded X R st) (hdel : Deletes Xᶜ (Shielded X R) (Spared X R) del) {S : Addr} {key : CStr}
    {ret : Nat} (hS : S ∉ X) (hok : rpcStructRemoveBy del st S key = .ok (st', ret)) :
    Spared X R st st' := by
  unfold rpcStructRemoveBy at hok
  cases hs : st.struct? S with
  | none => rw [hs] at hok; cases hok
  | some s =>
    simp only [hs] at hok
    cases hk : s.map.lookup key with
    | none =>
      rw [hk] at hok
      cases hok
      exact .refl h
    | some e =>
      simp only [hk] at hok
      obtain ⟨st1, huntrack, hok⟩ := bind_eq_ok.1 hok
      obtain ⟨st2, hdrop, hok⟩ := bind_eq_ok.1 hok
      cases hok
      unfold untrackElementBy at huntrack
      cases ht : e.target with
      | none =>
        rw [ht] at huntrack
        cases huntrack
        exact (h.dropEntry hS hdrop).1
      | some p =>
        simp only [ht] at huntrack
        by_cases hp : p ∈ X
        · -- the count of `p` stays above zero, since something inside holds it too
          by_cases hR : p = R
          · subst hR
            unfold precDecrementBy at huntrack
            rw [h.loose] at huntrack
            cases huntrack
            exact (h.dropEntry hS hdrop).1
          · obtain ⟨r, hr, hle⟩ := h.counted p hp hR
            obtain ⟨hcount, hslots, hsub⟩ := decremented_spec (h.slots p r hr) S key none
            have hheld : st.held S key = some p := held_eq_some.2 ⟨e, entry_eq_some.2 ⟨s, hs, hk⟩, ht⟩
            have hmem : (S, key) ∈ st.holders p := mem_holders.2 hheld
            have hcard := Finset.card_erase_add_one hmem
            have hpos : 0 < ((st.holders p).erase (S, key)).card := by
              obtain ⟨S', hS', k', hk'⟩ := h.held p hp hR
              refine Finset.card_pos.2 ⟨(S', k'), Finset.mem_erase.2 ⟨fun hc => ?_, mem_holders.2 hk'⟩⟩
              cases hc
              exact hS hS'
            unfold precDecrementBy at huntrack
            simp only [hr] at huntrack
            rw [if_neg (by omega)] at huntrack
            cases huntrack
            -- the map is edited first: the record is none of its business
            unfold FfiRpc.dropEntry at hdrop
            rw [show (st.setPrec p (r.decremented (some ⟨S, some key, none⟩))).struct? S = some s
              from hs] at hdrop
            simp only [hk] at hdrop
            cases hdrop
            have hdrop : FfiRpc.dropEntry st S key =
                .ok (st.setObj S (.struct { s with map := s.map.erase key })) := by
              simp only [FfiRpc.dropEntry, hs, hk]
            obtain ⟨hspared, -, hholders⟩ := h.dropEntry hS hdrop
            refine ⟨hspared.shielded.setPrec hr hslots hsub fun _ => ?_, hspared.same⟩
            rw [hholders]
            omega
        · have h1 := h.decrement hdel hp key huntrack
          exact h1.trans (h1.shielded.dropEntry hS hdrop).1

theorem shielded_sweep : Sweep Xᶜ (Shielded X R) (Spared X R) where
  refl := .refl
  trans := .trans
  keep h := h.shielded
  delPrec h hp := ⟨h.delPrec hp, fun _ _ => rfl⟩
  recorded h hp hr k S hS hX := h.foreign _ _ hp hr S hX k hS
  remove hdel h hS hok := h.remove hdel hS hok
  release h ha hok := h.release ha hok

end Cascade

/-- Freeing a struct outside of the set. -/
theorem Shielded.free (h : Shielded X R st) (E : Env) {S : Addr} (hS : S ∉ X)
    (hok : rpcStructFree E st S = .ok st') : Spared X R st st' :=
  shielded_sweep.free h hS hok

/-! ## What hangs from a struct

Where `Kept` and `Shielded` come from. -/

/-- What hangs from an object without a record is shielded. -/
theorem Kept.shielded (h : Kept st) {R : Addr} (hR : st.tracker.lookup R = none) :
    Shielded {a | st.Hangs R a} R st := by
  have hheld : ∀ p, st.Hangs R p → p ≠ R → ∃ S, st.Hangs R S ∧ ∃ k, st.held S k = some p := by
    intro p hp hne
    rcases hp.cases_tail with heq | ⟨S, hS, k, hk⟩
    · exact absurd heq hne
    · exact ⟨S, hS, k, hk⟩
  refine ⟨.refl, hR, h.slots, hheld, fun p hp hne => ?_, fun q r hq hr S hS k hk => hq ?_⟩
  · obtain ⟨S, -, k, hk⟩ := hheld p hp hne
    exact h.counted S k p hk
  · exact hS.tail ⟨k, h.recorded q r hr S k hk⟩

/-- A well-formed store is kept. -/
theorem WF.kept (h : WF st) : Kept st := by
  refine ⟨fun q r hr c hc => ?_, fun S k p hp => ?_, fun q r hr S k hS => ?_⟩
  · obtain ⟨-, o, -, hrec⟩ := h.inv.tracked q r hr
    obtain ⟨c', hc', -, hslots⟩ := hrec.ctx
    rw [hc] at hc'
    cases hc'
    exact hslots
  · obtain ⟨r, o, hr, -, hrec⟩ := h.inv.tracked_of_held (Set.notMem_empty p) hp
    refine ⟨r, hr, ?_⟩
    rw [hrec.count]
    exact Nat.le_add_right ..
  · obtain ⟨-, o, -, hrec⟩ := h.inv.tracked q r hr
    have := (hrec.mem S k).1 hS
    rw [Finset.sdiff_empty] at this
    exact mem_holders.1 this

theorem Kept.congr (h : Kept st) (htr : st'.tracker = st.tracker)
    (hheld : ∀ S k, st'.held S k = st.held S k) : Kept st' := by
  refine ⟨htr ▸ h.slots, fun S k p hp => ?_, fun q r hr S k hS => ?_⟩
  · rw [hheld] at hp
    rw [htr, holders_congr hheld]
    exact h.counted S k p hp
  · rw [htr] at hr
    rw [hheld]
    exact h.recorded q r hr S k hS

/-- A new object that holds nothing. -/
theorem Kept.create (h : Kept st) (E : Env) {o : Obj} (ho : ∀ s, o = .struct s → s.map = ∅) :
    Kept (st.setObj (E.malloc st) o) := by
  refine h.congr rfl fun S k => ?_
  by_cases hS : S = E.malloc st
  · subst hS
    rw [State.held, create_none E ho, State.held, State.entry, struct?, malloc_dead]
    rfl
  · exact held_congr (by rw [lookup_setObj, if_neg hS]) k

/-- Inserting an entry keeps the books. -/
theorem Kept.insert (h : Kept st) (E : Env) {S : Addr} {s : RpcStruct} (hs : st.struct? S = some s)
    (hS : S ≠ 0) {key : CStr} (hk : s.map.lookup key = none) (e : RpcTypeT) :
    Kept ((trackElement st S key e).setObj S
      (.struct { s with map := s.map.insert key (strdupElement E st e) })) := by
  have hheap : (trackElement st S key e).heap = st.heap := heap_trackElement S key e
  have hholders := holders_insert hs hheap hk (strdupElement E st e)
  have hheld := held_insert hs hheap key (strdupElement E st e)
  rw [target_strdupElement] at hheld hholders
  have hfree : st.held S key = none := by rw [State.held, entry_of_struct hs, hk]; rfl
  -- the record of a target, before and after
  have hrecord : ∀ p, e.target = some p → ∃ r r' : Prec,
      (trackElement st S key e).tracker.lookup p = some r' ∧
      (∀ S k, S ∈ r.recorded k → st.held S k = some p) ∧ r'.Slots ∧
      (st.holders p).card ≤ r.refcount ∧ r'.refcount = r.refcount + 1 ∧
      ∀ k, (r'.recorded k).Perm (if k = key then S :: r.recorded k else r.recorded k) := by
    intro p hp
    obtain ⟨r, hr, hslots, hrec, hcard⟩ : ∃ r : Prec,
        (st.tracker.lookup p).getD ⟨0, none⟩ = r ∧ r.Slots ∧
        (∀ S k, S ∈ r.recorded k → st.held S k = some p) ∧ (st.holders p).card ≤ r.refcount := by
      cases hr : st.tracker.lookup p with
      | none =>
        refine ⟨_, rfl, (fun c hc => by cases hc), (fun S k hS => by cases hS), ?_⟩
        rw [Option.getD_none, Nat.le_zero, Finset.card_eq_zero, Finset.eq_empty_iff_forall_notMem]
        intro x hx
        obtain ⟨r, hr', -⟩ := h.counted x.1 x.2 p (mem_holders.1 hx)
        rw [hr] at hr'; cases hr'
      | some r =>
        refine ⟨r, rfl, h.slots p r hr, h.recorded p r hr, ?_⟩
        by_cases hne : (st.holders p).Nonempty
        · obtain ⟨x, hx⟩ := hne
          obtain ⟨r', hr', hle⟩ := h.counted x.1 x.2 p (mem_holders.1 hx)
          rw [hr] at hr'
          cases hr'
          exact hle
        · rw [Finset.not_nonempty_iff_eq_empty.1 hne]
          exact Nat.zero_le _
    refine ⟨r, _, by rw [lookup_trackElement hp, if_pos rfl, hr], hrec, ?_, hcard,
      increment_refcount _ _, recorded_increment { r with refcount := r.refcount + 1 }
        ⟨S, some key, rpcFreefnOf e.type⟩ rfl hS hslots⟩
    obtain ⟨c, hc, -, hslots'⟩ := slots_increment { r with refcount := r.refcount + 1 }
      ⟨S, some key, rpcFreefnOf e.type⟩ hslots
    intro c' hc'
    cases hc.symm.trans hc'
    exact hslots'
  refine ⟨fun q r hr => ?_, fun S' k p hp => ?_, fun q r hr S' k hmem => ?_⟩
  · rw [tracker_setObj] at hr
    by_cases hq : e.target = some q
    · obtain ⟨-, r', hr', -, hslots, -⟩ := hrecord q hq
      rw [hr'] at hr
      cases hr
      exact hslots
    · rw [trackElement_other S key hq] at hr
      exact h.slots q r hr
  · rw [tracker_setObj, hholders]
    by_cases hq : e.target = some p
    · obtain ⟨r, r', hr', -, -, hle, hcount, -⟩ := hrecord p hq
      refine ⟨r', hr', ?_⟩
      rw [if_pos hq, hcount]
      exact (Finset.card_insert_le _ _).trans (Nat.succ_le_succ hle)
    · rw [if_neg hq, trackElement_other S key hq]
      rw [hheld] at hp
      split at hp
      · exact absurd hp hq
      · exact h.counted S' k p hp
  · rw [tracker_setObj] at hr
    rw [hheld]
    have hold : st.held S' k = some q → (if S' = S ∧ k = key then e.target else st.held S' k) = some q := by
      intro hh
      rw [if_neg]
      · exact hh
      · rintro ⟨rfl, rfl⟩
        rw [hfree] at hh; cases hh
    by_cases hq : e.target = some q
    · obtain ⟨r0, r', hr', hrec, -, -, -, hperm⟩ := hrecord q hq
      rw [hr'] at hr
      cases hr
      have hmem := (hperm k).mem_iff.1 hmem
      split at hmem
      · rename_i hkey
        subst hkey
        rcases List.mem_cons.1 hmem with hS' | hmem
        · rw [hS', if_pos ⟨rfl, rfl⟩, hq]
        · exact hold (hrec S' k hmem)
      · exact hold (hrec S' k hmem)
    · rw [trackElement_other S key hq] at hr
      exact hold (h.recorded q r hr S' k hmem)

end

end FfiRpc
