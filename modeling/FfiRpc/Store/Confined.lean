import FfiRpc.Store.Shield

/-!
# What a release stays within

`Confined X`: references do not leave the set `X`, and the records of its objects name
only members. A release of a member, with all that follows from it, touches nothing
outside: neither objects nor records (`Confined.free`, `Inside`).
-/
namespace FfiRpc

open State

/-- What members hold are members, and what members' records name are members. -/
structure Confined (X : Set Addr) (st : State) : Prop where
  slots : ∀ q r, st.tracker.lookup q = some r → r.Slots
  held : ∀ S ∈ X, ∀ k p, st.held S k = some p → p ∈ X
  recorded : ∀ q ∈ X, ∀ r, st.tracker.lookup q = some r → ∀ k, ∀ S ∈ r.recorded k, S ∈ X

/-- Only members of `X` changed. -/
structure Inside (X : Set Addr) (st st' : State) : Prop where
  confined : Confined X st'
  heap : ∀ a, a ∉ X → st'.heap.lookup a = st.heap.lookup a
  tracker : ∀ q, q ∉ X → st'.tracker.lookup q = st.tracker.lookup q

section
variable {X : Set Addr} {st st' st'' : State}

theorem Inside.refl (h : Confined X st) : Inside X st st := ⟨h, fun _ _ => rfl, fun _ _ => rfl⟩

theorem Inside.trans (h : Inside X st st') (h' : Inside X st' st'') : Inside X st st'' :=
  ⟨h'.confined, fun a ha => (h'.heap a ha).trans (h.heap a ha),
    fun q hq => (h'.tracker q hq).trans (h.tracker q hq)⟩

theorem Confined.setPrec (h : Confined X st) {p : Addr} {r r' : Prec} (hp : p ∈ X)
    (hr : st.tracker.lookup p = some r) (hs : r'.Slots) (hsub : ∀ k, r'.recorded k ⊆ r.recorded k) :
    Inside X st (st.setPrec p r') := by
  refine ⟨⟨fun q rq hq => ?_, h.held, fun q hX rq hq k S hS => ?_⟩, fun _ _ => rfl, fun q hq => ?_⟩
  · rw [lookup_setPrec] at hq
    split at hq
    · cases hq
      exact hs
    · exact h.slots q rq hq
  · rw [lookup_setPrec] at hq
    split at hq
    · cases hq
      exact h.recorded p hp r hr k S (hsub k hS)
    · exact h.recorded q hX rq hq k S hS
  · rw [lookup_setPrec, if_neg]
    intro hqp
    exact hq (hqp ▸ hp)

theorem Confined.delPrec (h : Confined X st) {p : Addr} (hp : p ∈ X) : Inside X st (st.delPrec p) := by
  have hother : ∀ q rq, (st.delPrec p).tracker.lookup q = some rq →
      st.tracker.lookup q = some rq := by
    intro q rq hq
    rw [lookup_delPrec] at hq
    split at hq
    · cases hq
    · exact hq
  refine ⟨⟨fun q rq hq => h.slots q rq (hother q rq hq), h.held,
    fun q hX rq hq => h.recorded q hX rq (hother q rq hq)⟩, fun _ _ => rfl, fun q hq => ?_⟩
  rw [lookup_delPrec, if_neg]
  intro hqp
  exact hq (hqp ▸ hp)

/-- Fewer entries, all of them of members. -/
theorem Confined.fewer (h : Confined X st) (htr : st'.tracker = st.tracker)
    (hsame : ∀ a, a ∉ X → st'.heap.lookup a = st.heap.lookup a)
    (hheld : ∀ S k p, st'.held S k = some p → st.held S k = some p) : Inside X st st' :=
  ⟨⟨htr ▸ h.slots, fun S hS k p hp => h.held S hS k p (hheld S k p hp), htr ▸ h.recorded⟩, hsame,
    fun q _ => by rw [htr]⟩

theorem Confined.dropEntry (h : Confined X st) {S : Addr} {key : CStr} (hS : S ∈ X)
    (hok : dropEntry st S key = .ok st') : Inside X st st' := by
  unfold FfiRpc.dropEntry at hok
  cases hs : st.struct? S with
  | none => rw [hs] at hok; cases hok
  | some s =>
    simp only [hs] at hok
    split at hok
    · cases hok
    · cases hok
      refine h.fewer rfl (fun a ha => ?_) fun S' k p hp => ?_
      · rw [lookup_setObj, if_neg]
        intro haS
        exact ha (haS ▸ hS)
      · rw [held_dropEntry hs] at hp
        split at hp
        · cases hp
        · exact hp

theorem Confined.release (h : Confined X st) {t : RpcTypes} {a : Addr} (ha : a ∈ X)
    (hok : st.release t a = .ok st') : Inside X st st' := by
  unfold State.release at hok
  split at hok
  · split at hok
    · cases hok
      refine h.fewer rfl (fun b hb => ?_) fun S k p hp => ?_
      · rw [lookup_delObj, if_neg]
        intro hba
        exact hb (hba ▸ ha)
      · obtain ⟨e, he, ht⟩ := held_eq_some.1 hp
        obtain ⟨s, hs, hk⟩ := entry_eq_some.1 he
        rw [struct?_delObj] at hs
        split at hs
        · cases hs
        · exact held_eq_some.2 ⟨e, entry_eq_some.2 ⟨s, hs, hk⟩, ht⟩
    · cases hok
  · cases hok

/-! ## The cascade

Step by step through a release, as in `Shield.lean`; there the objects that stay were named,
here those that may go. -/

section Cascade
variable {E : Env} {del : State → Addr → Except Fault State}

/-- A member counted less, with whatever that releases. -/
theorem Confined.decrement (h : Confined X st) (hdel : Deletes X (Confined X) (Inside X) del) {p S : Addr} (hp : p ∈ X)
    (key : CStr) (hok : precDecrementBy del st p (some ⟨S, some key, none⟩) = .ok st') :
    Inside X st st' := by
  unfold precDecrementBy at hok
  cases hr : st.tracker.lookup p with
  | none =>
    rw [hr] at hok
    cases hok
    exact .refl h
  | some r =>
    simp only [hr] at hok
    obtain ⟨-, hslots, hsub⟩ := decremented_spec (h.slots p r hr) S key none
    have h1 := h.setPrec hp hr hslots hsub
    split at hok
    · exact h1.trans (hdel _ p st' h1.confined hp hok)
    · cases hok
      exact h1

/-- An entry of a member removed. -/
theorem Confined.remove (h : Confined X st) (hdel : Deletes X (Confined X) (Inside X) del) {S : Addr} {key : CStr}
    {ret : Nat} (hS : S ∈ X) (hok : rpcStructRemoveBy del st S key = .ok (st', ret)) :
    Inside X st st' := by
  unfold rpcStructRemoveBy at hok
  cases hs : st.struct? S with
  | none => rw [hs] at hok; cases hok
  | some s =>
    simp only [hs] at hok
    cases hk : s.map.lookup key with
    | none =>
      rw [hk] at hok
      cases hok
      exact .refl h
    | some e =>
      simp only [hk] at hok
      obtain ⟨st1, huntrack, hok⟩ := bind_eq_ok.1 hok
      obtain ⟨st2, hdrop, hok⟩ := bind_eq_ok.1 hok
      cases hok
      have h1 : Inside X st st1 := by
        unfold untrackElementBy at huntrack
        cases ht : e.target with
        | none =>
          rw [ht] at huntrack
          cases huntrack
          exact .refl h
        | some p =>
          simp only [ht] at huntrack
          exact h.decrement hdel (h.held S hS key p
            (held_eq_some.2 ⟨e, entry_eq_some.2 ⟨s, hs, hk⟩, ht⟩)) key huntrack
      exact h1.trans (h1.confined.dropEntry hS hdrop)

theorem confined_sweep : Sweep X (Confined X) (Inside X) where
  refl := .refl
  trans := .trans
  keep h := h.confined
  delPrec h hp := h.delPrec hp
  recorded h hp hr k S hS := h.recorded _ hp _ hr k S hS
  remove hdel h hS hok := h.remove hdel hS hok
  release h ha hok := h.release ha hok

end Cascade

/-- Freeing a struct of the set. -/
theorem Confined.free (h : Confined X st) (E : Env) {S : Addr} (hS : S ∈ X)
    (hok : rpcStructFree E st S = .ok st') : Inside X st st' :=
  confined_sweep.free h hS hok

/-- A set that references neither leave nor enter. -/
theorem Kept.confined (h : Kept st) (hout : ∀ S ∈ X, ∀ k p, st.held S k = some p → p ∈ X)
    (hin : ∀ S k p, p ∈ X → st.held S k = some p → S ∈ X) : Confined X st :=
  ⟨h.slots, hout, fun q hq r hr k S hS => hin S k q hq (h.recorded q r hr S k hS)⟩

end

end FfiRpc
