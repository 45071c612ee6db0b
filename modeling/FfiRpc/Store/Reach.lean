import FfiRpc.Store.Runs

/-!
# What hangs from a struct

`Edge` is nesting, and an object hangs from another if it can be reached through counted
references (`Hangs`). `Extends st st'` says that the objects of `st` are in `st'` as they
were, records included; `New` are the others. What hangs from an old object is then old
(`Extends.hangs_live`).
-/
namespace FfiRpc

open State

namespace State
variable (st : State)

/-- `S` holds the struct `p`. -/
def Edge (S p : Addr) : Prop := ∃ k, st.entry S k = some (.struct p)

/-- `p` is `S` or nested in it. -/
def Nested : Addr → Addr → Prop := Relation.ReflTransGen st.Edge

/-- `a` is `R`, or held by something that hangs from `R`. -/
def Hangs (R : Addr) : Addr → Prop :=
  Relation.ReflTransGen (fun S p => ∃ k, st.held S k = some p) R

/-- The addresses of the objects. -/
def live : Set Addr := {a | ∃ o, st.heap.lookup a = some o}

/-- Allocated between `st` and `st'`. -/
def New (st' : State) (a : Addr) : Prop := st.heap.lookup a = none ∧ ∃ o, st'.heap.lookup a = some o

variable {st}

theorem mem_addrs_of_edge (st : State) (S p : Addr) (h : st.Edge S p) : p ∈ st.addrs := by
  obtain ⟨k, hk⟩ := h
  obtain ⟨s, hs, he⟩ := entry_eq_some.1 hk
  refine List.mem_flatMap.2 ⟨_, Table.mem_entries_iff.2 (struct?_eq_some.1 hs),
    List.mem_cons_of_mem _ (List.mem_map.2 ⟨_, Table.mem_entries_iff.2 he, rfl⟩)⟩

theorem live_of_held {S : Addr} {k : CStr} {p : Addr} (h : st.held S k = some p) : S ∈ st.live := by
  obtain ⟨e, he, -⟩ := held_eq_some.1 h
  obtain ⟨s, hs, -⟩ := entry_eq_some.1 he
  exact ⟨_, struct?_eq_some.1 hs⟩

end State

theorem Inv.held_live {off : Finset Addr} {extra : Addr → Nat} {st : State}
    (h : Inv off extra ∅ ∅ st) {S : Addr} {k : CStr} {p : Addr} (hh : st.held S k = some p) :
    p ∈ st.live := by
  obtain ⟨-, o, -, ho, -⟩ := h.tracked_of_held (Set.notMem_empty p) hh
  exact ⟨o, ho⟩

theorem WF.dead_untracked {st : State} (h : WF st) {p : Addr} (hp : st.heap.lookup p = none) :
    st.tracker.lookup p = none := by
  cases hr : st.tracker.lookup p with
  | none => rfl
  | some r =>
    obtain ⟨-, x, hx, -⟩ := h.inv.tracked p r hr
    rw [hp] at hx
    cases hx

theorem RpcTypeT.eq_of_target {e e' : RpcTypeT} {p : Addr} (h : e.target = some p)
    (h' : e'.target = some p) (hty : e'.type = e.type) : e' = e := by
  cases e <;> cases h <;> cases e' <;> cases h' <;> cases hty <;> rfl

theorem Inv.same_target {off : Finset Addr} {extra : Addr → Nat} {st : State} (h : Inv off extra ∅ ∅ st) {S S' : Addr}
    {k k' : CStr} {e e' : RpcTypeT} {p : Addr} (he : st.entry S k = some e)
    (he' : st.entry S' k' = some e') (hp : e.target = some p) (hp' : e'.target = some p) :
    e' = e := by
  obtain ⟨o, ho, hty⟩ := h.typed S k e p he hp (Set.notMem_empty p) (Finset.notMem_empty _)
  obtain ⟨o', ho', hty'⟩ := h.typed S' k' e' p he' hp' (Set.notMem_empty p) (Finset.notMem_empty _)
  rw [ho] at ho'
  cases ho'
  exact RpcTypeT.eq_of_target hp hp' (hty'.symm.trans hty)

/-- A set that references do not leave contains all that hangs from its members. -/
theorem State.Hangs.mem {st : State} {X : Set Addr} (hX : ∀ S k p, S ∈ X → st.held S k = some p → p ∈ X)
    {S p : Addr} (h : st.Hangs S p) (hS : S ∈ X) : p ∈ X := by
  induction h with
  | refl => exact hS
  | tail _ hl ih =>
    obtain ⟨k, hk⟩ := hl
    exact hX _ k _ ih hk

/-! ## More objects -/

/-- The objects of `st` are in `st'`, with their records. -/
structure Extends (st st' : State) : Prop where
  heap : ∀ a o, st.heap.lookup a = some o → st'.heap.lookup a = some o
  tracker : ∀ a, a ∈ st.live → st'.tracker.lookup a = st.tracker.lookup a

section
variable {st st1 st' : State}

theorem Extends.refl (st : State) : Extends st st := ⟨fun _ _ h => h, fun _ _ => rfl⟩

theorem Extends.live (h : Extends st st') : st.live ⊆ st'.live := by
  intro a ha
  obtain ⟨o, ho⟩ := ha
  exact ⟨o, h.heap a o ho⟩

theorem Extends.trans (h : Extends st st1) (h' : Extends st1 st') : Extends st st' :=
  ⟨fun a o ho => h'.heap a o (h.heap a o ho),
    fun a ha => (h'.tracker a (h.live ha)).trans (h.tracker a ha)⟩

theorem Extends.struct (h : Extends st st') {S : Addr} {s : RpcStruct} (hs : st.struct? S = some s) :
    st'.struct? S = some s := struct?_eq_some.2 (h.heap S _ (struct?_eq_some.1 hs))

theorem Extends.entry (h : Extends st st') {S : Addr} (hS : S ∈ st.live) (k : CStr) :
    st'.entry S k = st.entry S k := by
  obtain ⟨o, ho⟩ := hS
  exact entry_congr (by rw [h.heap S o ho, ho]) k

theorem Extends.held (h : Extends st st') {S : Addr} (hS : S ∈ st.live) (k : CStr) :
    st'.held S k = st.held S k := by
  rw [State.held, h.entry hS, State.held]

theorem Extends.hangs_later (h : Extends st st') {S p : Addr} (hb : st.Hangs S p) : st'.Hangs S p := by
  refine Relation.ReflTransGen.mono (fun a b hl => ?_) _ _ hb
  obtain ⟨k, hk⟩ := hl
  exact ⟨k, (h.held (live_of_held hk) k).trans hk⟩

theorem Extends.inUse (h : Extends st st') {a : Addr} (ha : st.InUse a) : st'.InUse a := by
  rcases ha with ha | ha | ha
  · exact .inl ha
  · obtain ⟨o, ho⟩ := ha
    exact .inr (.inl ⟨o, h.heap a o ho⟩)
  · obtain ⟨S, k, t, he⟩ := ha
    obtain ⟨s, hs, -⟩ := entry_eq_some.1 he
    exact .inr (.inr ⟨S, k, t, (h.entry ⟨_, struct?_eq_some.1 hs⟩ k).trans he⟩)

/-- What hangs from an old object is old. -/
theorem Extends.hangs_live (h : Extends st st') (hwf : WF st) {S p : Addr} (hS : S ∈ st.live)
    (hb : st'.Hangs S p) : p ∈ st.live := by
  refine State.Hangs.mem (X := st.live) (fun T k q hT hq => ?_) hb hS
  rw [h.held hT] at hq
  exact hwf.inv.held_live hq

theorem State.New.of_later (h' : Extends st1 st') {a : Addr} (ha : st.New st1 a) : st.New st' a := by
  obtain ⟨hnone, o, ho⟩ := ha
  exact ⟨hnone, o, h'.heap a o ho⟩

/-- What was allocated in two stretches, in either of them. -/
theorem State.New.split (st1 : State) {a : Addr} (ha : st.New st' a) : st.New st1 a ∨ st1.New st' a := by
  cases h1 : st1.heap.lookup a with
  | none => exact .inr ⟨h1, ha.2⟩
  | some o => exact .inl ⟨ha.1, o, h1⟩

theorem State.New.later (h : Extends st st1) {a : Addr} (ha : st1.New st' a) : st.New st' a := by
  refine ⟨?_, ha.2⟩
  cases h0 : st.heap.lookup a with
  | none => rfl
  | some o =>
    have hsome := h.heap a o h0
    rw [ha.1] at hsome
    cases hsome

end

end FfiRpc
