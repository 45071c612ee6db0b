import FfiRpc.Core.LTS
import FfiRpc.Store.Copy

/-!
# Runs of the store

`api` is the transition system of a process that uses the store: any sequence
of calls, each with its own choices of the environment (`Env`), from no objects
at all. `Op.Legal` is what a caller owes: it passes live objects. One call is
left out although the caller cannot see it coming: a removal whose cascade
releases the struct being edited, which the code then writes to.

`step_spec` is the step lemma: a legal call succeeds and keeps `WF`, the tracker
invariant with the surplus that shallow copies leave. Without copies there is
none, and the tracker mirrors the maps exactly (`tracker_exact`); a release then
takes exactly what it orphans (`free_releases`).
-/
namespace FfiRpc

open Ownership (Reclaimed)
open State

inductive Op where
  | structCreate
  | sizedbufCreate (buf : List UInt8)
  | functionCreate
  | set (S : Addr) (key : CStr) (element : RpcTypeT)
  | remove (S : Addr) (key : CStr)
  | free (t : RpcTypes) (x : Addr)
  | idSet (S : Addr) (ID : CStr)
  | setPrototype (fn : Addr) (prototype : List UInt32)
  | setReturnType (fn : Addr) (returnType : UInt32)
  | setFnptr (fn fnptr : Addr)
  | copy (original : Addr)
  deriving DecidableEq

def Op.run (E : Env) (st : State) : Op → Except Fault State
  | .structCreate => .ok (rpcStructCreate E st).1
  | .sizedbufCreate buf => .ok (rpcSizedbufCreate E st buf).1
  | .functionCreate => .ok (rpcFunctionCreate E st).1
  | .set S k e => Prod.fst <$> rpcStructSet E st S k e
  | .remove S k => Prod.fst <$> rpcStructRemove E st S k
  | .free t x => rpcFree E t st x
  | .idSet S ID => rpcStructIdSet st S ID
  | .setPrototype fn p => rpcFunctionSetPrototype st fn p
  | .setReturnType fn t => rpcFunctionSetReturnType st fn t
  | .setFnptr fn a => rpcFunctionSetFnptr st fn a
  | .copy o => Prod.fst <$> rpcStructCopy E st o

/-- References counted for `p` that no entry accounts for. -/
def State.surplus (st : State) (p : Addr) : Nat :=
  ((st.tracker.lookup p).map Prec.refcount).getD 0 - (st.holders p).card

/-- What the caller of an operation passes. -/
def Op.Legal (st : State) : Op → Prop
  | .set S _ e => (∃ s, st.struct? S = some s) ∧ e.Sized ∧
      ∀ p, e.target = some p → p ≠ 0 → ∃ o, st.heap.lookup p = some o ∧ o.type = e.type
  | .remove S k => (∃ s, st.struct? S = some s) ∧ S ∉ st.reclaimed st.surplus ∅ {(S, k)}
  | .free t x => ∃ o, st.heap.lookup x = some o ∧ o.type = t
  | .idSet S ID => (∃ s, st.struct? S = some s) ∧ ID.length ≤ 64
  | .setPrototype fn _ | .setReturnType fn _ | .setFnptr fn _ =>
      ∃ f, st.heap.lookup fn = some (.function f)
  | .copy o => ∃ s, st.struct? o = some s
  | _ => True

def Op.NoCopy : Op → Prop
  | .copy _ => False
  | _ => True

/-- The calls a process can make, each with the environment's choices. -/
def api : LTS State (Env × Op) where
  init st := st = .empty
  step st a st' := a.2.Legal st ∧ a.2.run a.1 st = .ok st'

/-- The runs without `rpc_struct_copy`. -/
def graphApi : LTS State (Env × Op) := api.restrict fun _ a => a.2.NoCopy

/-! ## The invariant of a run -/

structure WF (st : State) : Prop where
  inv : Inv ∅ st.surplus ∅ ∅ st
  stored : Stored st

theorem surplus_untracked {st : State} {p : Addr} (h : st.tracker.lookup p = none) :
    st.surplus p = 0 := by simp [surplus, h]

theorem Inv.surplus_eq {off : Finset Addr} {extra : Addr → Nat} {st : State}
    (h : Inv off extra ∅ ∅ st) {p : Addr} {r : Prec}
    (hr : st.tracker.lookup p = some r) : st.surplus p = extra p := by
  obtain ⟨-, o, -, hrec⟩ := h.tracked p r hr
  have := hrec.count
  rw [Finset.sdiff_empty] at this
  simp only [surplus, hr, Option.map_some, Option.getD_some]
  omega

theorem Inv.wf {extra : Addr → Nat} {st : State} (h : Inv ∅ extra ∅ ∅ st) (hst : Stored st) : WF st :=
  ⟨h.congr_extra fun _ _ hr => h.surplus_eq hr, hst⟩

theorem empty_inv : Inv ∅ (fun _ => 0) ∅ ∅ .empty where
  null := rfl
  dead _ h := absurd h (Set.notMem_empty _)
  typed _ _ _ _ he := by cases he
  untracked _ _ _ := rfl
  tracked _ _ h := by cases h

theorem empty_stored : Stored .empty where
  idSize _ _ h := by cases h
  sized _ _ _ h := by cases h
  nonnull _ _ _ h := by cases h
  once _ _ _ _ _ _ _ h := by cases h
  apart _ _ _ _ h := by cases h

/-! ## One call -/

section Step
variable {off : Finset Addr} {extra : Addr → Nat} {st : State}

theorem create_none (E : Env) {o : Obj} (ho : ∀ s, o = .struct s → s.map = ∅) (k : CStr) :
    (st.setObj (E.malloc st) o).entry (E.malloc st) k = none := by
  cases o with
  | struct s => rw [entry_setObj_struct, if_pos rfl, ho s rfl]; rfl
  | sizedbuf b => simp [entry, struct?, lookup_setObj]
  | function f => simp [entry, struct?, lookup_setObj]

theorem malloc_dead (E : Env) (st : State) : st.heap.lookup (E.malloc st) = none := by
  cases hl : st.heap.lookup (E.malloc st) with
  | none => rfl
  | some x => exact absurd (.inr (.inl ⟨x, hl⟩)) (E.malloc_fresh st)

theorem malloc_ne_zero (E : Env) (st : State) : E.malloc st ≠ 0 :=
  fun h0 => E.malloc_fresh st (.inl h0)

theorem create_inv (E : Env) (h : Inv off extra ∅ ∅ st) {o : Obj}
    (ho : ∀ s, o = .struct s → s.map = ∅) : Inv off extra ∅ ∅ (st.setObj (E.malloc st) o) :=
  h.create (malloc_dead E st) (malloc_ne_zero E st) (create_none E ho)

theorem create_step (E : Env) (h : Inv off extra ∅ ∅ st) (hst : Stored st) {o : Obj}
    (ho : ∀ s, o = .struct s → s.ID.length = 65 ∧ s.map = ∅) :
    Stored (st.setObj (E.malloc st) o) ∧ Inv off extra ∅ ∅ (st.setObj (E.malloc st) o) :=
  ⟨hst.create (E.malloc_fresh st) (fun s hs => (ho s hs).1) (create_none E fun s hs => (ho s hs).2),
    create_inv E h fun s hs => (ho s hs).2⟩

theorem function_step (h : Inv off extra ∅ ∅ st) (hst : Stored st) {fn : Addr} {f : RpcFunction}
    (hf : st.heap.lookup fn = some (.function f)) (g : RpcFunction → RpcFunction) :
    ∃ st', onFunction st fn g = .ok st' ∧ Stored st' ∧ Inv off extra ∅ ∅ st' := by
  have hentry : ∀ S k, (st.setObj fn (.function (g f))).entry S k = st.entry S k := by
    intro S k
    by_cases hS : S = fn
    · subst hS; simp [entry, struct?, lookup_setObj, hf]
    · exact entry_congr (by rw [lookup_setObj, if_neg hS]) k
  refine ⟨st.setObj fn (.function (g f)), by simp [onFunction, hf], ?_, h.update hf rfl hentry⟩
  refine hst.fewer (fun S s' hs' => ?_) (fun S k e he => by rwa [hentry] at he) (fun a ha => ?_)
  · rw [struct?_eq_some, lookup_setObj] at hs'
    split at hs'
    · cases hs'
    · exact ⟨s', struct?_eq_some.2 hs', rfl⟩
  · rw [lookup_setObj, if_neg]
    · exact ha
    · rintro rfl; rw [hf] at ha; cases ha

theorem idSet_step (h : Inv off extra ∅ ∅ st) (hst : Stored st) {S : Addr} {s : RpcStruct}
    (hs : st.struct? S = some s) {ID : CStr} (hlen : ID.length ≤ 64) :
    ∃ st', rpcStructIdSet st S ID = .ok st' ∧ Stored st' ∧ Inv off extra ∅ ∅ st' := by
  have hid := hst.idSize S s hs
  refine ⟨_, by simp only [rpcStructIdSet, hs]; rw [if_neg (by omega)],
    update_step h hst hs { s with ID := ID ++ s.ID.drop ID.length } rfl ?_⟩
  simp only [List.length_append, List.length_drop]
  omega

/-- `rpc_struct_set`: nothing happens, or the entry is there and counted. -/
theorem set_step (E : Env) (h : Inv off extra ∅ ∅ st) (hst : Stored st)
    (hx : ∀ p, st.tracker.lookup p = none → extra p = 0) {S : Addr} {s : RpcStruct}
    (hs : st.struct? S = some s) (k : CStr) {e : RpcTypeT} (hsz : e.Sized)
    (hoff : ∀ p ∈ off, e.target = some p → ∃ r, st.tracker.lookup p = some r)
    (htgt : ∀ p, e.target = some p → p ≠ 0 → ∃ o, st.heap.lookup p = some o ∧ o.type = e.type) :
    ∃ st', Prod.fst <$> rpcStructSet E st S k e = .ok st' ∧ Stored st' ∧ Inv off extra ∅ ∅ st' := by
  unfold rpcStructSet
  split
  · exact ⟨st, rfl, hst, h⟩
  · by_cases hnn : rpcIsPointer e.type = true → e.ptrValue ≠ 0
    · cases hk : s.map.lookup k with
      | some e' => exact ⟨st, by simp [rpcStructSetInternal, hs, hk], hst, h⟩
      | none =>
        refine ⟨_, by rw [setInternal_fresh hs hk hnn]; rfl,
          stored_strdup hst hs rfl (heap_trackElement S k e) hsz hnn,
          set_spec h hs hk (fun p hp => ?_) hx hoff⟩
        obtain ⟨hptr, hval⟩ := rpcIsPointer_of_target hp
        exact htgt p hp (hval ▸ hnn hptr)
    · refine ⟨st, ?_, hst, h⟩
      rw [Classical.not_imp, not_not] at hnn
      simp [rpcStructSetInternal, hs, hnn.1, hnn.2]

/-- A legal call succeeds; only a copy leaves more references than it found. -/
theorem step_spec (E : Env) {op : Op} (h : WF st) (hl : op.Legal st) :
    ∃ st', op.run E st = .ok st' ∧ Stored st' ∧ WF st' ∧ (op.NoCopy → Inv ∅ st.surplus ∅ ∅ st') := by
  obtain ⟨hinv, hst⟩ := h
  -- every call but a copy keeps the invariant with the surplus as it is
  suffices hs : (∃ st', op.run E st = .ok st' ∧ Stored st' ∧ Inv ∅ st.surplus ∅ ∅ st') ∨
      ∃ o s, op = .copy o ∧ st.struct? o = some s by
    rcases hs with ⟨st', hok, hst', hinv'⟩ | ⟨o, s, rfl, hs⟩
    · exact ⟨st', hok, hst', hinv'.wf hst', fun _ => hinv'⟩
    · obtain ⟨st', c, hok, hinv', hst', -⟩ := copy_spec E hinv hst hs
      exact ⟨st', by simp only [Op.run, hok]; rfl, hst', hinv'.wf hst', fun hc => hc.elim⟩
  cases op with
  | structCreate =>
    refine .inl ⟨_, rfl, create_step E hinv hst ?_⟩
    rintro s ⟨⟩
    exact ⟨by rw [List.length_append, E.random_length]; rfl, rfl⟩
  | sizedbufCreate buf => exact .inl ⟨_, rfl, create_step E hinv hst (by rintro s ⟨⟩)⟩
  | functionCreate => exact .inl ⟨_, rfl, create_step E hinv hst (by rintro s ⟨⟩)⟩
  | set S k e =>
    obtain ⟨⟨s, hs⟩, hsz, htgt⟩ := hl
    exact .inl (set_step E hinv hst (fun p hp => surplus_untracked hp) hs k hsz nofun htgt)
  | remove S k =>
    obtain ⟨⟨s, hs⟩, hS⟩ := hl
    obtain ⟨st', hok, hinv', hout⟩ := remove_top_spec E hinv hs k hS
    exact .inl ⟨st', by simp only [Op.run, hok]; rfl, hst.outcome hout, hinv'⟩
  | free t x =>
    obtain ⟨o, ho, rfl⟩ := hl
    obtain ⟨st', hok, hinv', hout⟩ := free_spec E hinv ho (Finset.notMem_empty x)
    exact .inl ⟨st', hok, hst.outcome hout, hinv'⟩
  | idSet S ID => obtain ⟨⟨s, hs⟩, hlen⟩ := hl; exact .inl (idSet_step hinv hst hs hlen)
  | setPrototype fn p => obtain ⟨f, hf⟩ := hl; exact .inl (function_step hinv hst hf _)
  | setReturnType fn t => obtain ⟨f, hf⟩ := hl; exact .inl (function_step hinv hst hf _)
  | setFnptr fn a => obtain ⟨f, hf⟩ := hl; exact .inl (function_step hinv hst hf _)
  | copy o => obtain ⟨s, hs⟩ := hl; exact .inr ⟨o, s, rfl, hs⟩

end Step

/-! ## Whole runs -/

theorem api_wf {st : State} (h : api.Reachable st) : WF st := by
  refine h.invariant (fun s hs => ?_) fun s a s' hs hst => ?_
  · cases hs; exact empty_inv.wf empty_stored
  · obtain ⟨st', hok, -, hwf, -⟩ := step_spec a.1 hs hst.1
    rw [hst.2] at hok; cases hok; exact hwf

/-- Without copies nothing is counted beyond the entries. -/
theorem graphApi_inv {st : State} (h : graphApi.Reachable st) :
    Inv ∅ (fun _ => 0) ∅ ∅ st ∧ Stored st := by
  refine LTS.Reachable.invariant (I := fun st => Inv ∅ (fun _ => 0) ∅ ∅ st ∧ Stored st)
    (fun s hs => ?_) (fun s a s' hs hst => ?_) h
  · cases hs; exact ⟨empty_inv, empty_stored⟩
  · have hwf := hs.1.wf hs.2
    obtain ⟨st', hok, hst', -, hinv⟩ := step_spec a.1 hwf hst.1.1
    rw [hst.1.2] at hok; cases hok
    have hzero : s.surplus = fun _ => 0 := by
      funext p
      cases hr : s.tracker.lookup p with
      | none => exact surplus_untracked hr
      | some r => exact hs.1.surplus_eq hr
    exact ⟨hzero ▸ hinv hst.2, hst'⟩

/-- A legal call extends a run. -/
theorem graph_step {st st' : State} (E : Env) (op : Op) (h : graphApi.Reachable st)
    (hl : op.Legal st) (hn : op.NoCopy) (hok : op.run E st = .ok st') : graphApi.Reachable st' :=
  h.step ⟨(⟨hl, hok⟩ : api.step st (E, op) st'), hn⟩

/-! ## Building a store -/

instance : DecidablePred RpcTypeT.Sized
  | .none => inferInstanceAs (Decidable False)
  | .number raw => inferInstanceAs (Decidable (raw.length ∈ [1, 2, 4, 8]))
  | .real raw => inferInstanceAs (Decidable (raw.length ∈ [4, 8]))
  | .string .. | .struct _ | .sizedbuf _ | .function _ | .unknown _ => inferInstanceAs (Decidable True)

/-- Calls that build a graph, with `Op.Legal` decided. -/
def Op.builds (st : State) : Op → Bool
  | .structCreate | .sizedbufCreate _ | .functionCreate => true
  | .set S _ e => (st.struct? S).isSome && decide e.Sized && e.target.all fun p =>
      p == 0 || (st.heap.lookup p).any fun o => o.type = e.type
  | .setPrototype fn _ | .setReturnType fn _ | .setFnptr fn _ =>
      (st.heap.lookup fn).any fun o => o.type = .function
  | _ => false

theorem any_eq_some {α : Type} {x : Option α} {f : α → Bool} (h : x.any f = true) :
    ∃ a, x = some a ∧ f a = true := by
  cases x with
  | none => cases h
  | some a => exact ⟨a, rfl, h⟩

theorem Op.builds_legal {st : State} {op : Op} (h : op.builds st = true) :
    op.Legal st ∧ op.NoCopy := by
  have hfn : ∀ fn, (st.heap.lookup fn).any (fun o => o.type = .function) = true →
      ∃ f, st.heap.lookup fn = some (.function f) := by
    intro fn hfn
    obtain ⟨o, ho, hty⟩ := any_eq_some hfn
    cases o with
    | function f => exact ⟨f, ho⟩
    | _ => cases hty
  cases op with
  | set S key e =>
    simp only [Op.builds, Bool.and_eq_true] at h
    obtain ⟨⟨hs, hsized⟩, htarget⟩ := h
    refine ⟨⟨Option.isSome_iff_exists.1 hs, of_decide_eq_true hsized, fun p hp h0 => ?_⟩, trivial⟩
    rw [hp, Option.all_some, Bool.or_eq_true, beq_iff_eq] at htarget
    obtain ⟨o, ho, hty⟩ := any_eq_some (htarget.resolve_left h0)
    exact ⟨o, ho, of_decide_eq_true hty⟩
  | setPrototype fn p => exact ⟨hfn fn h, trivial⟩
  | setReturnType fn t => exact ⟨hfn fn h, trivial⟩
  | setFnptr fn a => exact ⟨hfn fn h, trivial⟩
  | structCreate => exact ⟨trivial, trivial⟩
  | sizedbufCreate buf => exact ⟨trivial, trivial⟩
  | functionCreate => exact ⟨trivial, trivial⟩
  | _ => cases h

/-- Takes the calls in order, each where it is legal. -/
def build (E : Env) : State → List Op → Option State
  | st, [] => some st
  | st, op :: ops =>
    if op.builds st then
      match op.run E st with
      | .ok st' => build E st' ops
      | .error _ => none
    else none

theorem build_reachable {E : Env} {st st' : State} {ops : List Op} (h : graphApi.Reachable st)
    (hb : build E st ops = some st') : graphApi.Reachable st' := by
  induction ops generalizing st with
  | nil =>
    cases hb
    exact h
  | cons op ops ih =>
    rw [build] at hb
    split at hb
    · rename_i hop
      split at hb
      · rename_i st1 hrun
        exact ih (graph_step E op h (Op.builds_legal hop).1 (Op.builds_legal hop).2 hrun) hb
      · cases hb
    · cases hb

end FfiRpc
