import FfiRpc.Store.Lives
import FfiRpc.Store.Reach

/-!
# Two structs side by side

`Op.Beside R Q` are the calls on the side of `R`: objects are created, entries are set in
structs that do not hang from `Q`, and entries are removed from structs that hang from
`R`. What is put below `R` reaches no struct that hangs from `Q`.

If no struct hangs from both, such calls leave every object that hangs from `Q` as it was,
however many there are (`apart_run`). A struct of that side is not touched, and an object
that the other side releases is not held by one.
-/
namespace FfiRpc

open State

/-- To its readers the object is the same. -/
def Obj.Same (o o' : Obj) : Prop := o.Less (fun _ => False) o'

/-- A call on the side of `R`, where `Q` is the other one. -/
def Op.Beside (R Q : Addr) (st : State) : Op → Prop
  | .structCreate | .sizedbufCreate _ | .functionCreate => True
  | .set S _ e => ¬ st.Hangs Q S ∧ (st.Hangs R S → ∀ p T t, e.target = some p → st.Hangs p T →
      st.struct? T = some t → ¬ st.Hangs Q T)
  | .remove S _ => st.Hangs R S
  | _ => False

/-- What hung from `Q` in `st0` is as it was, and no struct of it hangs from `R`. -/
structure Apart (R Q : Addr) (st0 st : State) : Prop where
  wf : WF st
  same : ∀ a o, st0.Hangs Q a → st0.heap.lookup a = some o →
    ∃ o', st.heap.lookup a = some o' ∧ o.Same o'
  apart : ∀ T t, st0.Hangs Q T → st0.struct? T = some t → ¬ st.Hangs R T

section
variable {R Q : Addr} {st0 st st' : State}

theorem Obj.same_refl (o : Obj) : o.Same o := Obj.less_refl fun _ => id

theorem Obj.Same.trans {o o' o'' : Obj} (h : o.Same o') (h' : o'.Same o'') : o.Same o'' :=
  Obj.Less.trans h h' fun _ => (or_self False).symm.to_iff

theorem Obj.Same.lookup {s : RpcStruct} {o' : Obj} (h : Obj.Same (.struct s) o') :
    ∃ s', o' = .struct s' ∧ ∀ k, s'.map.lookup k = s.map.lookup k := by
  cases o' with
  | struct s' => exact ⟨s', rfl, fun k => (h.2.2 k).2 id⟩
  | _ => cases h

theorem Apart.held (h : Apart R Q st0 st) {S : Addr} (hS : st0.Hangs Q S) (hlive : S ∈ st0.live)
    (k : CStr) : st.held S k = st0.held S k := by
  obtain ⟨o, ho⟩ := hlive
  obtain ⟨o', ho', hsame⟩ := h.same S o hS ho
  cases o with
  | struct s =>
    obtain ⟨s', rfl, hmap⟩ := hsame.lookup
    rw [State.held, State.held, entry_of_struct (struct?_eq_some.2 ho'),
      entry_of_struct (struct?_eq_some.2 ho), hmap]
  | _ =>
    rw [show o' = _ from hsame] at ho'
    exact held_congr (ho'.trans ho.symm) k

/-- The same objects hang from `Q`. -/
theorem Apart.hangs_iff (h : Apart R Q st0 st) (hwf0 : WF st0) (hQ : Q ∈ st0.live) (a : Addr) :
    st.Hangs Q a ↔ st0.Hangs Q a := by
  constructor
  · intro ha
    have hboth : a ∈ st0.live ∧ st0.Hangs Q a := by
      induction ha with
      | refl => exact ⟨hQ, .refl⟩
      | @tail S a _ hlink ih =>
        obtain ⟨k, hk⟩ := hlink
        rw [h.held ih.2 ih.1] at hk
        exact ⟨hwf0.inv.held_live hk, ih.2.tail ⟨k, hk⟩⟩
    exact hboth.2
  · intro ha
    induction ha with
    | refl => exact .refl
    | @tail S a hS hlink ih =>
      obtain ⟨k, hk⟩ := hlink
      exact ih.tail ⟨k, (h.held hS (live_of_held hk) k).trans hk⟩

theorem Apart.struct (h : Apart R Q st0 st) {T : Addr} {t : RpcStruct} (hT : st0.Hangs Q T)
    (ht : st0.struct? T = some t) : ∃ t', st.struct? T = some t' := by
  obtain ⟨o', ho', hsame⟩ := h.same T _ hT (struct?_eq_some.1 ht)
  obtain ⟨t', rfl, -⟩ := hsame.lookup
  exact ⟨t', struct?_eq_some.2 ho'⟩

/-- No struct hangs from both sides. -/
theorem Apart.not_struct (h : Apart R Q st0 st) (hwf0 : WF st0) (hQ : Q ∈ st0.live) {T : Addr}
    (hT : st0.Hangs Q T) (hR : st.Hangs R T) : st.struct? T = none := by
  have hlive : T ∈ st0.live :=
    State.Hangs.mem (X := st0.live) (fun S k p _ hp => hwf0.inv.held_live hp) hT hQ
  obtain ⟨o, ho⟩ := hlive
  obtain ⟨o', ho', hsame⟩ := h.same T o hT ho
  cases o with
  | struct t => exact absurd hR (h.apart T t hT (struct?_eq_some.2 ho))
  | _ =>
    rw [State.struct?, ho', show o' = _ from hsame]

theorem Apart.later (h : Apart R Q st0 st) (hwf : WF st')
    (hsame : ∀ a o, st0.Hangs Q a → st.heap.lookup a = some o →
      ∃ o', st'.heap.lookup a = some o' ∧ o.Same o')
    (hapart : ∀ T t, st0.Hangs Q T → st0.struct? T = some t → st'.Hangs R T → st.Hangs R T) :
    Apart R Q st0 st' := by
  refine ⟨hwf, fun a o ha ho => ?_, fun T t hT ht hR => h.apart T t hT ht (hapart T t hT ht hR)⟩
  obtain ⟨o1, ho1, h1⟩ := h.same a o ha ho
  obtain ⟨o2, ho2, h2⟩ := hsame a o1 ha ho1
  exact ⟨o2, ho2, h1.trans h2⟩

theorem State.Hangs.of_fewer (h : ∀ S k p, st'.held S k = some p → st.held S k = some p) {S p : Addr}
    (hp : st'.Hangs S p) : st.Hangs S p :=
  Relation.ReflTransGen.mono (fun S p hl => hl.imp fun k => h S k p) S p hp

/-! ## The calls -/

theorem Apart.create (h : Apart R Q st0 st) (E : Env) {o : Obj}
    (hwf : WF (st.setObj (E.malloc st) o)) (ho : ∀ s, o = .struct s → s.map = ∅) :
    Apart R Q st0 (st.setObj (E.malloc st) o) := by
  refine h.later hwf (fun a x _ hx => ⟨x, ?_, x.same_refl⟩) fun T t hT ht hR => ?_
  · rw [lookup_setObj, if_neg]
    · exact hx
    · intro ha
      rw [ha, malloc_dead] at hx
      cases hx
  · refine hR.of_fewer fun S k p hp => ?_
    by_cases hS : S = E.malloc st
    · rw [hS, State.held, create_none E ho] at hp
      cases hp
    · have hsame : (st.setObj (E.malloc st) o).held S k = st.held S k :=
        held_congr (by rw [lookup_setObj, if_neg hS]) k
      rwa [hsame] at hp

/-- What hangs from `R` after an insertion hung from it before, or hangs from the object put in. -/
theorem State.Hangs.of_insert {S : Addr} {e : RpcTypeT}
    (h : ∀ S' k' q, st'.held S' k' = some q → st.held S' k' = some q ∨ S' = S ∧ e.target = some q)
    {T : Addr} (hT : st'.Hangs R T) :
    st.Hangs R T ∨ st.Hangs R S ∧ ∃ p, e.target = some p ∧ st.Hangs p T := by
  induction hT with
  | refl => exact .inl .refl
  | @tail P T _ hlink ih =>
    obtain ⟨k', hk'⟩ := hlink
    rcases h P k' T hk' with hold | hnew
    · rcases ih with ih | ih
      · exact .inl (ih.tail ⟨k', hold⟩)
      · obtain ⟨hS, p, hp, hP⟩ := ih
        exact .inr ⟨hS, p, hp, hP.tail ⟨k', hold⟩⟩
    · rw [hnew.1] at ih
      rcases ih with ih | ih
      · exact .inr ⟨ih, T, hnew.2, .refl⟩
      · exact .inr ⟨ih.1, T, hnew.2, .refl⟩

/-- A set changes nothing, or puts in an entry. -/
theorem set_changes {E : Env} {S : Addr} {s : RpcStruct} {k : CStr} {e : RpcTypeT}
    (hs : st.struct? S = some s) (hok : Prod.fst <$> rpcStructSet E st S k e = .ok st') :
    st' = st ∨ (∀ a, a ≠ S → st'.heap.lookup a = st.heap.lookup a) ∧
      ∀ S' k' q, st'.held S' k' = some q → st.held S' k' = some q ∨ S' = S ∧ e.target = some q := by
  obtain ⟨ret, hok⟩ := map_fst_eq_ok hok
  unfold rpcStructSet at hok
  split at hok
  · cases hok
    exact .inl rfl
  · simp only [rpcStructSetInternal, hs] at hok
    split at hok
    · cases hok
      exact .inl rfl
    · split at hok
      · cases hok
        exact .inl rfl
      · cases hok
        refine .inr ⟨fun a ha => ?_, fun S' k' q hq => ?_⟩
        · rw [lookup_setObj, if_neg ha, heap_trackElement]
        · rw [held_insert hs (heap_trackElement S k e)] at hq
          split at hq
          · rename_i hSk
            rw [target_strdupElement] at hq
            exact .inr ⟨hSk.1, hq⟩
          · exact .inl hq

theorem Apart.set (h : Apart R Q st0 st) (hwf0 : WF st0) (hQ : Q ∈ st0.live) (hwf : WF st') {E : Env}
    {S : Addr} {s : RpcStruct} {k : CStr} {e : RpcTypeT} (hs : st.struct? S = some s)
    (hb : (Op.set S k e).Beside R Q st) (hok : Prod.fst <$> rpcStructSet E st S k e = .ok st') :
    Apart R Q st0 st' := by
  obtain ⟨hS, hvalue⟩ := hb
  rcases set_changes hs hok with hst | hset
  · rwa [hst]
  · refine h.later hwf (fun a o ha ho => ⟨o, ?_, o.same_refl⟩) fun T t hT ht hR => ?_
    · rw [hset.1 a]
      · exact ho
      · intro haS
        exact hS (haS ▸ (h.hangs_iff hwf0 hQ a).2 ha)
    · rcases hR.of_insert hset.2 with hold | hnew
      · exact hold
      · obtain ⟨hRS, p, hp, hpT⟩ := hnew
        obtain ⟨t', ht'⟩ := h.struct hT ht
        exact absurd ((h.hangs_iff hwf0 hQ T).2 hT) (hvalue hRS p T t' hp hpT ht')

/-- A removal releases nothing that hangs from `Q`. -/
theorem Apart.spared (h : Apart R Q st0 st) {q : RpcStruct} (hQ : st0.struct? Q = some q) {S : Addr}
    (hS : st.Hangs R S) (k : CStr) {a : Addr} (ha : st0.Hangs Q a) :
    a ∉ st.reclaimed st.surplus ∅ {(S, k)} := by
  intro hrec
  refine (Ownership.reclaimed_subset (X := {a | st.Hangs R a ∧ ¬ st0.Hangs Q a}) (fun p e _ he hall => ?_)
    (Set.empty_subset _) hrec).2 ha
  have hRp : st.Hangs R p := by
    by_cases hcut : e ∈ ({(S, k)} : Set (Addr × CStr))
    · rw [Set.mem_singleton_iff.1 hcut] at he
      exact hS.tail ⟨k, he⟩
    · exact (hall e he hcut).1.tail ⟨e.2, he⟩
  refine ⟨hRp, fun hp => ?_⟩
  rcases hp.cases_tail with hp | hp
  · exact h.apart Q q .refl hQ (hp ▸ hRp)
  · -- a struct of the other side holds `p` too
    obtain ⟨T, hT, k', hk'⟩ := hp
    obtain ⟨x, hx, -⟩ := held_eq_some.1 hk'
    obtain ⟨t, ht, -⟩ := entry_eq_some.1 hx
    have hTk : st.held T k' = some p := (h.held hT (live_of_held hk') k').trans hk'
    by_cases hcut : (T, k') ∈ ({(S, k)} : Set (Addr × CStr))
    · have hTS : T = S := (Prod.mk.inj (Set.mem_singleton_iff.1 hcut)).1
      exact h.apart T t hT ht (hTS ▸ hS)
    · exact (hall (T, k') hTk hcut).2 hT

theorem Apart.remove (h : Apart R Q st0 st) (hwf0 : WF st0) {q : RpcStruct}
    (hQ : st0.struct? Q = some q) (hwf : WF st') {S : Addr} {s : RpcStruct} {k : CStr}
    (hs : st.struct? S = some s) (hS : st.Hangs R S)
    (hout : Outcome (st.reclaimed st.surplus ∅ {(S, k)}) {(S, k)} st st') : Apart R Q st0 st' := by
  refine h.later hwf (fun a o ha ho => ?_) fun T t _ _ hR => ?_
  · obtain ⟨o', ho', hless⟩ := hout.stay a o (h.spared hQ hS k ha) ho
    refine ⟨o', ho', ?_⟩
    have hnot : ∀ k', ¬ (a, k') ∈ ({(S, k)} : Set (Addr × CStr)) := by
      intro k' hk'
      have haS : a = S := (Prod.mk.inj (Set.mem_singleton_iff.1 hk')).1
      have hnone := h.not_struct hwf0 ⟨_, struct?_eq_some.1 hQ⟩ ha (haS ▸ hS)
      rw [haS, hs] at hnone
      cases hnone
    exact hless.trans (Obj.same_refl o') fun k' => by simp [hnot k']
  · refine hR.of_fewer fun S' k' p hp => ?_
    obtain ⟨e, he, ht⟩ := held_eq_some.1 hp
    exact held_eq_some.2 ⟨e, hout.fewer he, ht⟩

/-! ## Runs -/

theorem Apart.step (h : Apart R Q st0 st) (hwf0 : WF st0) {q : RpcStruct} (hQ : st0.struct? Q = some q)
    {E : Env} {op : Op} (hl : op.Legal st) (hb : op.Beside R Q st) (hok : op.run E st = .ok st') :
    Apart R Q st0 st' := by
  obtain ⟨st1, hok1, -, hwf, -⟩ := step_spec E h.wf hl
  rw [hok] at hok1
  cases hok1
  cases op with
  | structCreate =>
    cases hok
    exact h.create E hwf fun s hs => by cases hs; rfl
  | sizedbufCreate buf =>
    cases hok
    exact h.create E hwf nofun
  | functionCreate =>
    cases hok
    exact h.create E hwf nofun
  | set S k e =>
    obtain ⟨⟨s, hs⟩, -⟩ := hl
    exact h.set hwf0 ⟨_, struct?_eq_some.1 hQ⟩ hwf hs hb hok
  | remove S k =>
    obtain ⟨⟨s, hs⟩, hS⟩ := hl
    obtain ⟨st2, hok2, -, hout⟩ := remove_top_spec E h.wf.inv hs k hS
    simp only [Op.run, hok2] at hok
    cases hok
    exact h.remove hwf0 hQ hwf hs hb hout
  | _ => exact hb.elim

/-- Calls on the side of `R` leave what hangs from `Q` as it was. -/
theorem apart_run (hwf : WF st) {q : RpcStruct} (hQ : st.struct? Q = some q)
    (hapart : ∀ T t, st.Hangs Q T → st.struct? T = some t → ¬ st.Hangs R T) {as : List (Env × Op)}
    (hrun : (api.restrict fun st a => a.2.Beside R Q st).Run st as st') : Apart R Q st st' := by
  have hkeep : ∀ st1 as st', (api.restrict fun st a => a.2.Beside R Q st).Run st1 as st' →
      Apart R Q st st1 → Apart R Q st st' := by
    intro st1 as st' hrun
    induction hrun with
    | nil => exact id
    | cons hst _ ih => exact fun h => ih (h.step hwf hQ hst.1.1 hst.2 hst.1.2)
  exact hkeep st as st' hrun ⟨hwf, fun a o _ ho => ⟨o, ho, o.same_refl⟩, hapart⟩

end

end FfiRpc
