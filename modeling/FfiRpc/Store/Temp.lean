import FfiRpc.Store.Copy

/-!
# Temporary structs

A struct that no other struct holds and whose objects all have a reference
beyond the entries (`extra`) can be edited and freed without releasing anything
else: what `rpc_struct_copy` leaves behind (`Copied.temp`). `Frame D` says that
a step changed no object outside `D`, in content.
-/
namespace FfiRpc

open State
open Ownership (Reclaimed)

/-- No object outside `D` is lost or changed. -/
def Keeps (D : Set Addr) (st st' : State) : Prop :=
  ∀ a o, a ∉ D → st.heap.lookup a = some o →
    ∃ o', st'.heap.lookup a = some o' ∧ o.Less (fun _ => False) o'

/-- Outside `D`, the same objects. -/
structure Frame (D : Set Addr) (st st' : State) : Prop where
  keeps : Keeps D st st'
  fresh : ∀ a, a ∉ D → st.heap.lookup a = none → st'.heap.lookup a = none

theorem Obj.Less.trans_same {P : CStr → Prop} {o o' o'' : Obj} (h : o.Less (fun _ => False) o')
    (h' : o'.Less P o'') : o.Less P o'' := h.trans h' fun k => by simp

theorem Keeps.refl (D : Set Addr) (st : State) : Keeps D st st :=
  fun _ o _ ho => ⟨o, ho, Obj.less_refl fun _ => not_false⟩

theorem Keeps.trans {D : Set Addr} {st1 st2 st3 : State} (h : Keeps D st1 st2)
    (h' : Keeps D st2 st3) : Keeps D st1 st3 := by
  intro a o ha ho
  obtain ⟨o', ho', hl⟩ := h a o ha ho
  obtain ⟨o'', ho'', hl'⟩ := h' a o' ha ho'
  exact ⟨o'', ho'', hl.trans_same hl'⟩

theorem Keeps.mono {D D' : Set Addr} {st st' : State} (h : Keeps D st st') (hD : D ⊆ D') :
    Keeps D' st st' := fun a o ha => h a o fun hd => ha (hD hd)

/-- What is not alive cannot be lost. -/
theorem Keeps.of_dead {D : Set Addr} {st st' : State} (h : Keeps D st st')
    (hD : ∀ a ∈ D, st.heap.lookup a = none) : Keeps ∅ st st' := by
  intro a o _ ho
  refine h a o (fun ha => ?_) ho
  rw [hD a ha] at ho; cases ho

theorem Frame.refl (D : Set Addr) (st : State) : Frame D st st := ⟨.refl D st, fun _ _ h => h⟩

theorem Frame.trans {D : Set Addr} {st1 st2 st3 : State} (h : Frame D st1 st2)
    (h' : Frame D st2 st3) : Frame D st1 st3 :=
  ⟨h.keeps.trans h'.keeps, fun a ha hn => h'.fresh a ha (h.fresh a ha hn)⟩

theorem Frame.mono {D D' : Set Addr} {st st' : State} (h : Frame D st st') (hD : D ⊆ D') :
    Frame D' st st' := ⟨h.keeps.mono hD, fun a ha => h.fresh a fun hd => ha (hD hd)⟩

/-- An object made and released again. -/
theorem Frame.of_dead {d : Addr} {st st' : State} (h : Frame {d} st st')
    (hd : st.heap.lookup d = none) (hd' : st'.heap.lookup d = none) : Frame ∅ st st' := by
  refine ⟨h.keeps.of_dead fun a ha => by rw [Set.mem_singleton_iff.1 ha, hd], fun a _ hn => ?_⟩
  by_cases ha : a = d
  · rw [ha, hd']
  · exact h.fresh a ha hn

section
variable {st st' : State} {D : Set Addr}

theorem Keeps.struct (h : Keeps D st st') {S : Addr} {s : RpcStruct} (hS : S ∉ D)
    (hs : st.struct? S = some s) : ∃ s', st'.struct? S = some s' ∧ s'.ID = s.ID ∧
      ∀ k, s'.map.lookup k = s.map.lookup k := by
  obtain ⟨o', ho', hl⟩ := h S _ hS (struct?_eq_some.1 hs)
  cases o' with
  | sizedbuf b => cases hl
  | function f => cases hl
  | struct s' => exact ⟨s', struct?_eq_some.2 ho', hl.1, fun k => (hl.2.2 k).2 id⟩

theorem Keeps.flat (h : Keeps D st st') {a : Addr} {o : Obj} (ha : a ∉ D)
    (ho : st.heap.lookup a = some o) (hty : o.type ≠ .struct) : st'.heap.lookup a = some o := by
  obtain ⟨o', ho', hl⟩ := h a o ha ho
  cases o with
  | struct s => exact absurd rfl hty
  | sizedbuf b => cases hl; exact ho'
  | function f => cases hl; exact ho'

theorem Frame.entry (h : Frame D st st') {S : Addr} (hS : S ∉ D) (k : CStr) :
    st'.entry S k = st.entry S k := by
  cases ho : st.heap.lookup S with
  | none => simp [State.entry, struct?, ho, h.fresh S hS ho]
  | some o =>
    obtain ⟨o', ho', hl⟩ := h.keeps S o hS ho
    exact hl.entry ho ho' k

theorem Frame.held (h : Frame D st st') {S : Addr} (hS : S ∉ D) (k : CStr) :
    st'.held S k = st.held S k := by
  unfold State.held; rw [h.entry hS]

/-- An outcome changes nothing but what it names. -/
theorem Outcome.frame {R : Set Addr} {P : Set (Addr × CStr)} (h : Outcome R P st st')
    (hD : ∀ a, a ∉ D → a ∉ R ∧ ∀ k, (a, k) ∉ P) : Frame D st st' := by
  refine ⟨fun a o ha ho => ?_, fun a _ hn => h.fresh a hn⟩
  obtain ⟨o', ho', hl⟩ := h.stay a o (hD a ha).1 ho
  have hP : (fun k => (a, k) ∈ P) = fun _ => False := by
    funext k
    exact eq_false ((hD a ha).2 k)
  rw [hP] at hl
  exact ⟨o', ho', hl⟩

end

/-! ## A struct of one's own -/

structure Temp (off : Finset Addr) (extra : Addr → Nat) (d : Addr) (st : State) : Prop where
  inv : Inv off extra ∅ ∅ st
  stored : Stored st
  struct : ∃ s, st.struct? d = some s
  unheld : ∀ S k, st.held S k ≠ some d
  pinned : ∀ k p, st.held d k = some p → 0 < extra p
  loud : d ∉ off

section
variable {off : Finset Addr} {extra : Addr → Nat} {d : Addr} {st : State}

/-- Nothing but `d` can be released by dropping what `d` holds. -/
theorem Temp.reclaimed (h : Temp off extra d st) {root : Set Addr} {cut : Set (Addr × CStr)}
    (hroot : ∀ a ∈ root, a = d) (hcut : ∀ e ∈ cut, e.1 = d) {a : Addr}
    (ha : a ∈ st.reclaimed (raised off extra) root cut) : a ∈ root := by
  refine Ownership.reclaimed_subset (X := root) (fun q e hq he hall => ?_) subset_rfl ha
  exfalso
  have hsrc : e.1 = d := by
    by_cases hc : e ∈ cut
    · exact hcut e hc
    · exact hroot _ (hall e he hc)
  have hpos := h.pinned e.2 q (by rw [← hsrc]; exact he)
  exact hq (raised_pos.2 (.inr hpos))

/-- Removing an entry of `d` changes `d` alone. -/
theorem Temp.remove (h : Temp off extra d st) (E : Env) (k : CStr) :
    ∃ st', Prod.fst <$> rpcStructRemove E st d k = .ok st' ∧ Temp off extra d st' ∧ Frame {d} st st' ∧
      ∀ k', st'.entry d k' = if k' = k then none else st.entry d k' := by
  obtain ⟨s, hs⟩ := h.struct
  have hnone : ∀ a, a ∉ st.reclaimed (raised off extra) ∅ {(d, k)} := fun a ha =>
    Set.notMem_empty a (h.reclaimed (by simp) (by simp) ha)
  obtain ⟨st', hok, hinv, hout⟩ := remove_top_spec E h.inv hs k (hnone d)
  have hframe : Frame {d} st st' := hout.frame fun a ha => ⟨hnone a, fun k' hk => ha (by
    simp only [Set.mem_singleton_iff, Prod.mk.injEq] at hk ⊢
    exact hk.1)⟩
  have hentry : ∀ k', st'.entry d k' = if k' = k then none else st.entry d k' := by
    intro k'
    have hempty : st.reclaimed (raised off extra) ∅ {(d, k)} = ∅ := Set.eq_empty_iff_forall_notMem.2 hnone
    rw [hempty] at hout
    have := hout.entry d k'
    split
    · rename_i hk
      exact this.1 (by simp [hk])
    · rename_i hk
      exact this.2 (by simp [hk])
  have hfewer : ∀ k' p, st'.held d k' = some p → st.held d k' = some p := by
    intro k' p hh
    unfold State.held at hh ⊢
    rw [hentry] at hh
    split at hh
    · cases hh
    · exact hh
  refine ⟨st', by rw [hok]; rfl, ⟨hinv, h.stored.outcome hout, ?_, ?_, ?_, h.loud⟩, hframe, hentry⟩
  · obtain ⟨o', ho', hl⟩ := hout.stay d _ (hnone d) (struct?_eq_some.1 hs)
    cases o' with
    | struct s' => exact ⟨s', struct?_eq_some.2 ho'⟩
    | sizedbuf b => cases hl
    | function f => cases hl
  · intro S k' hh
    by_cases hS : S = d
    · subst hS
      exact h.unheld _ k' (hfewer k' _ hh)
    · rw [hframe.held hS] at hh
      exact h.unheld S k' hh
  · intro k' p hh
    exact h.pinned k' p (hfewer k' p hh)

/-- Freeing `d` releases `d` alone. -/
theorem Temp.free (h : Temp off extra d st) (E : Env) :
    ∃ st', rpcStructFree E st d = .ok st' ∧ Inv off extra ∅ ∅ st' ∧ Stored st' ∧ Frame {d} st st' ∧
      st'.heap.lookup d = none := by
  obtain ⟨s, hs⟩ := h.struct
  obtain ⟨st', hok, hinv, hout⟩ := free_spec E h.inv (struct?_eq_some.1 hs) h.loud
  refine ⟨st', hok, hinv, h.stored.outcome hout, ?_, hout.gone d (.root rfl)⟩
  refine hout.frame fun a ha => ⟨fun hR => ha ?_, fun k hk => h.unheld a k hk⟩
  exact h.reclaimed (by simp) (by simp) hR

end

/-- A fresh copy is a temporary: what it holds was counted twice. -/
theorem Copied.temp {off : Finset Addr} {extra : Addr → Nat} {st st' : State} {s : RpcStruct} {o c : Addr}
    (h : Copied s o c st st') (hs : st.struct? o = some s) (hinv : Inv off extra ∅ ∅ st)
    (hinv' : Inv off (fun p => extra p + s.refs p) ∅ ∅ st') (hst' : Stored st')
    (hoff : ∀ p ∈ off, ∃ x, st.heap.lookup p = some x) :
    Temp off (fun p => extra p + s.refs p) c st' := by
  obtain ⟨s', hs', -⟩ := h.map
  refine ⟨hinv', hst', ⟨s', hs'⟩, h.unheld hs hinv, fun k p hh => ?_, fun hc => ?_⟩
  · rw [h.held hs, if_pos rfl] at hh
    have hpos := (refs_pos_iff hs p).2 ⟨k, hh⟩
    exact Nat.lt_of_lt_of_le hpos (Nat.le_add_left ..)
  · obtain ⟨x, hx⟩ := hoff c hc
    exact h.fresh (.inr (.inl ⟨x, hx⟩))

/-- Copying changes no object. -/
theorem Copied.frame_copy {st st' : State} {s : RpcStruct} {o c : Addr} (h : Copied s o c st st') :
    Frame {c} st st' :=
  ⟨fun a x ha hx => ⟨x, by rw [h.frame a ha]; exact hx, Obj.less_refl fun _ => not_false⟩,
    fun a ha hn => by rw [h.frame a ha]; exact hn⟩

end FfiRpc
