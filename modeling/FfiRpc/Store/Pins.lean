import FfiRpc.Store.Lives
import FfiRpc.Store.Remove

/-!
# References from outside the store

`rpc_struct_increment_refcount` is for code that keeps a pointer of its own: the object is
to stay although no struct holds it, until `rpc_struct_decrement_refcount`.

The macro closes the parenthesis of `rpc_is_pointer` too late and hands it the value of a
comparison, so it never counts anything (`rpcStructIncrementRefcount_eq`), while the
decrement does take a reference. `pinned` is the system of the store's calls and these two,
with the number of increments outstanding for each object. `pins_hold`: they hold in a run
as long as no pinned object is left without entries, and a decrement is only made of an
object that nothing counts (`PinOp.Spares`). `pin_lost`: a removal releases a pinned object.
-/
namespace FfiRpc

open State

/-- The macro passes `rpc_is_pointer` the whole condition, `0` or `1`, as a type.
mirrors include/ffirpc/rpc_struct.h:211-215 (`rpc_struct_increment_refcount`); `type` is
`ctype_to_rpc(typeof(ptr))` -/
def rpcStructIncrementRefcount (st : State) (type : RpcTypes) (ptr : Addr) : State :=
  let argument := type ≠ .none && type ≠ .string && type ≠ .unknown
  if rpcIsPointer (if argument then .number else .none) then
    precIncrement (precNew st ptr) ptr (some ⟨0, none, rpcFreefnOf type⟩)
  else st

/-- mirrors src/rpc_struct.c:780-782 (`rpc_struct_decrement_refcount`) -/
def rpcStructDecrementRefcount (E : Env) (st : State) (ptr : Addr) : Except Fault State :=
  precDecrementBy (precDelete E st.fuel) st ptr none

theorem rpcStructIncrementRefcount_eq (st : State) (type : RpcTypes) (ptr : Addr) :
    rpcStructIncrementRefcount st type ptr = st := by
  cases type <;> rfl

/-! ## Runs with references from outside -/

/-- The store, and the increments that no decrement has matched yet. -/
structure Pinned where
  store : State
  pins : Addr → Nat

inductive PinOp where
  | call (op : Op)
  | increment (ptr : Addr)
  | decrement (ptr : Addr)

/-- A free of the object itself ends the increments made for it. -/
def Op.unpin (pins : Addr → Nat) : Op → Addr → Nat
  | .free _ x => Function.update pins x 0
  | _ => pins

/-- A decrement matches an earlier increment. -/
inductive PinStep : Pinned → Env × PinOp → Pinned → Prop
  | call {s E op st'} : op.Legal s.store → op.run E s.store = .ok st' →
      PinStep s (E, .call op) ⟨st', op.unpin s.pins⟩
  | increment {s E ptr o} : s.store.heap.lookup ptr = some o →
      PinStep s (E, .increment ptr) ⟨rpcStructIncrementRefcount s.store o.type ptr,
        Function.update s.pins ptr (s.pins ptr + 1)⟩
  | decrement {s E ptr st'} : 0 < s.pins ptr →
      rpcStructDecrementRefcount E s.store ptr = .ok st' →
      PinStep s (E, .decrement ptr) ⟨st', Function.update s.pins ptr (s.pins ptr - 1)⟩

def pinned : LTS Pinned (Env × PinOp) where
  init s := s = ⟨.empty, fun _ => 0⟩
  step := PinStep

/-- No object is pinned when a call releases it, other than the one a free is given; the
object of a decrement has no record, and this is the last increment outstanding. -/
def PinOp.Spares (s : Pinned) : PinOp → Prop
  | .call op => ∀ p, 0 < op.unpin s.pins p → p ∉ op.released s.store
  | .increment _ => True
  | .decrement ptr => s.store.tracker.lookup ptr = none ∧ s.pins ptr = 1

/-- The runs that spare the objects pinned. -/
def sparing : LTS Pinned (Env × PinOp) := pinned.restrict fun s a => a.2.Spares s

/-- What the increments are for: a pinned object is live, and a decrement leaves the
entries alone and the count at these and the increments outstanding. -/
structure PinLaw (s : Pinned) : Prop where
  live : ∀ p, 0 < s.pins p → ∃ o, s.store.heap.lookup p = some o
  count : ∀ E ptr s', sparing.step s (E, .decrement ptr) s' →
    s'.store.holders ptr = s.store.holders ptr ∧
      precRefcount s'.store ptr = (s'.store.holders ptr).card + s'.pins ptr

section
variable {s s' : Pinned}

theorem decrement_untracked (E : Env) {st : State} {p : Addr} (h : st.tracker.lookup p = none) :
    rpcStructDecrementRefcount E st p = .ok st := by
  rw [rpcStructDecrementRefcount, precDecrementBy, h]

/-- The store is in a state that calls alone lead to, and every pinned object is live. -/
structure PinInv (s : Pinned) : Prop where
  reachable : api.Reachable s.store
  live : ∀ p, 0 < s.pins p → ∃ o, s.store.heap.lookup p = some o

/-- A call only lowers the pins. -/
theorem Op.unpin_pos {pins : Addr → Nat} {op : Op} {p : Addr} (h : 0 < op.unpin pins p) :
    0 < pins p := by
  cases op with
  | free t x =>
    simp only [Op.unpin, Function.update_apply] at h
    split at h
    · cases h
    · exact h
  | _ => exact h

/-- A call keeps the pinned objects alive exactly when it releases none of them. -/
theorem PinInv.call_iff {E : Env} {op : Op} (h : PinInv s)
    (hst : PinStep s (E, .call op) s') :
    (∀ p, 0 < s'.pins p → ∃ o, s'.store.heap.lookup p = some o) ↔ (PinOp.call op).Spares s := by
  cases hst with
  | call hl hok =>
    have hlives := op.lives E (api_wf h.reachable) hl hok
    refine ⟨fun hall p hp hin => ?_, fun hsp p hp => ?_⟩
    · obtain ⟨o, ho⟩ := hall p hp
      rw [hlives.gone p hin] at ho
      cases ho
    · obtain ⟨o, ho⟩ := h.live p (Op.unpin_pos hp)
      obtain ⟨o', ho', -⟩ := hlives.stay p o (hsp p hp) ho
      exact ⟨o', ho'⟩

theorem PinInv.step {E : Env} {op : PinOp} (h : PinInv s) (hst : PinStep s (E, op) s')
    (hsp : op.Spares s) : PinInv s' := by
  refine ⟨?_, ?_⟩
  · cases hst with
    | @call _ op _ hl hok => exact h.reachable.step (a := (E, op)) ⟨hl, hok⟩
    | increment ho =>
      rw [rpcStructIncrementRefcount_eq]
      exact h.reachable
    | decrement h0 hok =>
      rw [decrement_untracked E hsp.1] at hok
      cases hok
      exact h.reachable
  · intro p hp
    cases op with
    | call op => exact (h.call_iff hst).2 hsp p hp
    | increment ptr =>
      cases hst with
      | increment ho =>
        rw [rpcStructIncrementRefcount_eq]
        by_cases hptr : p = ptr
        · exact ⟨_, hptr ▸ ho⟩
        · simp only [Function.update_of_ne hptr] at hp
          exact h.live p hp
    | decrement ptr =>
      cases hst with
      | decrement h0 hok =>
        rw [decrement_untracked E hsp.1] at hok
        cases hok
        by_cases hptr : p = ptr
        · exact h.live p (hptr ▸ h0)
        · simp only [Function.update_of_ne hptr] at hp
          exact h.live p hp

theorem sparing_inv (h : sparing.Reachable s) : PinInv s := by
  refine h.invariant (fun s hs => ?_) fun s a s' hs hst => ?_
  · cases hs
    exact ⟨.init rfl, nofun⟩
  · exact hs.step hst.1 hst.2

/-- In a run that leaves no pinned object without entries, and only takes back an
increment of an object that nothing counts, the increments do what they are for; a call
that does leave one without entries releases it. -/
theorem pins_hold (h : sparing.Reachable s) :
    PinLaw s ∧ ∀ E op s', pinned.step s (E, .call op) s' →
      ((∀ p, 0 < s'.pins p → ∃ o, s'.store.heap.lookup p = some o) ↔ (PinOp.call op).Spares s) := by
  have hinv := sparing_inv h
  refine ⟨⟨hinv.live, fun E ptr s' hst => ?_⟩, fun E op s' hst => hinv.call_iff hst⟩
  obtain ⟨hst, hnone, hone⟩ := hst
  cases hst with
  | decrement _ hok =>
    rw [decrement_untracked E hnone] at hok
    cases hok
    have hempty := (api_wf hinv.reachable).inv.untracked ptr (Set.notMem_empty ptr) hnone
    rw [Finset.sdiff_empty] at hempty
    refine ⟨rfl, ?_⟩
    simp [precRefcount, hnone, hempty, hone]

/-- A call that releases nothing. -/
theorem sparing_call (op : Op) {st' : State} (h : sparing.Reachable s) (hl : op.Legal s.store)
    (hnone : op.released s.store = ∅) (hok : op.run .bump s.store = .ok st') :
    sparing.Reachable ⟨st', op.unpin s.pins⟩ := by
  have hst : PinStep s (.bump, .call op) ⟨st', op.unpin s.pins⟩ := .call hl hok
  exact h.step ⟨hst, fun p _ => by rw [hnone]; exact Set.notMem_empty p⟩

theorem sparing_increment (ptr : Addr) {o : Obj} (h : sparing.Reachable s)
    (ho : s.store.heap.lookup ptr = some o) :
    sparing.Reachable ⟨s.store, Function.update s.pins ptr (s.pins ptr + 1)⟩ := by
  have hst : PinStep s (.bump, .increment ptr) _ := .increment ho
  rw [rpcStructIncrementRefcount_eq] at hst
  exact h.step ⟨hst, trivial⟩

/-- A sizedbuf that a struct holds, pinned once. -/
theorem exists_pinned : ∃ s, sparing.Reachable s ∧ s.pins 2 = 1 ∧ s.store.held 1 [107] = some 2 ∧
    ∃ st', (Op.remove 1 [107]).Legal s.store ∧ (Op.remove 1 [107]).run .bump s.store = .ok st' ∧
      st'.heap.lookup 2 = none := by
  have h0 : sparing.Reachable ⟨.empty, fun _ => 0⟩ := .init rfl
  have h1 := sparing_call .structCreate h0 trivial rfl rfl
  have h2 := sparing_call (.sizedbufCreate [7]) h1 trivial rfl rfl
  have h3 := sparing_call (.set 1 [107] (.sizedbuf 2)) h2
    ⟨⟨_, rfl⟩, trivial, fun p hp _ => by cases hp; exact ⟨_, rfl, rfl⟩⟩ rfl rfl
  have h4 := sparing_increment 2 h3 (show _ = some (.sizedbuf ⟨[7]⟩) from rfl)
  refine ⟨_, h4, rfl, rfl, _, ⟨⟨_, rfl⟩, fun hin => ?_⟩, rfl, rfl⟩
  have hfault := remove_fault .bump (api_wf (sparing_inv h4).reachable).inv rfl hin
  cases hfault

/-- Its own law. -/
theorem pins_hold_once : ∃ s, s.pins 2 = 1 ∧ s.store.held 1 [107] = some 2 ∧ PinLaw s := by
  obtain ⟨s, h, hpin, hheld, -⟩ := exists_pinned
  exact ⟨s, hpin, hheld, (pins_hold h).1⟩

/-- The struct that holds the pinned sizedbuf forgets it, and the sizedbuf is gone. -/
theorem pin_lost : ∃ s s', pinned.Reachable s ∧ 0 < s.pins 2 ∧
    pinned.step s (.bump, .call (.remove 1 [107])) s' ∧
    0 < s'.pins 2 ∧ s'.store.heap.lookup 2 = none := by
  obtain ⟨s, h, hpin, -, st', hl, hok, hgone⟩ := exists_pinned
  have hpos : 0 < s.pins 2 := hpin ▸ Nat.one_pos
  exact ⟨s, _, h.of_restrict, hpos, .call hl hok, hpos, hgone⟩

end

end FfiRpc
