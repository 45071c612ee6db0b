import FfiRpc.Store.DeepRun

/-!
# Runs with deep copies

`fullApi` is the system of the store's calls, deep copies and questions for the original
of a copy. A deep copy is asked for of a struct that does not reach itself: of one that
does, it never returns. Texts are C strings, without a zero byte, so that an ID always
fills its field (`State.Named`). `fullApi_inv`: the invariants of a run.
-/
namespace FfiRpc

open State
open Nesting (Acyclic DepthLE)

/-- mirrors src/rpc_struct.c:683-695 (`rpc_struct_whose_copy`) -/
def rpcStructWhoseCopy (st : State) (S : Addr) : Except Fault (State × Addr) :=
  match st.struct? S with
  | none => .error (.useAfterFree S)
  | some s =>
    if s.copyof = 0 then .ok (st, 0)
    else match st.tracker.lookup s.copyof with
      | none => .ok (st.setObj S (.struct { s with copyof := 0 }), 0)
      | some _ => .ok (st, s.copyof)

/-! ## The bound of the recursion

The bound of `rpcStructDeepCopy` is there for Lean. A call that returns at one bound returns
the same at every larger one, so that what a deep copy returns can be said without it. -/

section
variable {E : Env} {args : ArgOrder}

/-- Whatever `f` returns, `g` returns: so does the code around it. -/
theorem duplicate_mono {f g : State → Addr → Except Fault (State × Addr)}
    (h : ∀ st p r, f st p = .ok r → g st p = .ok r) {x : State × Table Addr Addr} {p : Addr}
    {r : (State × Table Addr Addr) × Addr} (hok : duplicate f x p = .ok r) :
    duplicate g x p = .ok r := by
  unfold duplicate at hok ⊢
  split at hok
  · exact hok
  · obtain ⟨r1, h1, hrest⟩ := bind_eq_ok.1 hok
    exact bind_eq_ok.2 ⟨r1, h x.1 p r1 h1, hrest⟩

theorem deepCopyElement_mono {f g : State → Addr → Except Fault (State × Addr)}
    (h : ∀ st p r, f st p = .ok r → g st p = .ok r) (s : RpcStruct) (c : Addr)
    (x : State × Table Addr Addr) (k : CStr) (x' : State × Table Addr Addr)
    (hok : deepCopyElement E args f s c x k = .ok x') :
    deepCopyElement E args g s c x k = .ok x' := by
  unfold deepCopyElement at hok ⊢
  split at hok
  · exact hok
  · rename_i e he
    obtain ⟨r1, h1, hrest⟩ := bind_eq_ok.1 hok
    refine bind_eq_ok.2 ⟨r1, ?_, hrest⟩
    cases e with
    | struct p =>
      obtain ⟨r2, h2, hrest2⟩ := bind_eq_ok.1 h1
      exact bind_eq_ok.2 ⟨r2, duplicate_mono h h2, hrest2⟩
    | _ => exact h1

theorem deepCopy_succ (n : Nat) (st : State) (S : Addr) (r : State × Addr)
    (hok : rpcStructDeepCopy E args n st S = .ok r) :
    rpcStructDeepCopy E args (n + 1) st S = .ok r := by
  induction n generalizing st S r with
  | zero => cases hok
  | succ n ih =>
    unfold rpcStructDeepCopy at hok ⊢
    split at hok
    · cases hok
    · obtain ⟨st2, h2, hrest⟩ := bind_eq_ok.1 hok
      obtain ⟨x, h3, hrest⟩ := bind_eq_ok.1 hrest
      exact bind_eq_ok.2 ⟨st2, h2, bind_eq_ok.2 ⟨x,
        foldlM_congr_ok (fun x k x' => deepCopyElement_mono ih _ _ x k x') h3, hrest⟩⟩

theorem deepCopy_mono {n m : Nat} (hnm : n ≤ m) {st : State} {S : Addr} {r : State × Addr}
    (hok : rpcStructDeepCopy E args n st S = .ok r) : rpcStructDeepCopy E args m st S = .ok r := by
  induction hnm with
  | refl => exact hok
  | step _ ih => exact deepCopy_succ _ st S r ih

end

/-- `rpc_struct_deep_copy(S)` returns `c`. -/
def DeepCopiesTo (E : Env) (args : ArgOrder) (st : State) (S : Addr) (st' : State) (c : Addr) : Prop :=
  ∃ n, rpcStructDeepCopy E args n st S = .ok (st', c)

theorem DeepCopiesTo.unique {E : Env} {args : ArgOrder} {st st1 st2 : State} {S c1 c2 : Addr}
    (h1 : DeepCopiesTo E args st S st1 c1) (h2 : DeepCopiesTo E args st S st2 c2) :
    st2 = st1 ∧ c2 = c1 := by
  obtain ⟨n1, h1⟩ := h1
  obtain ⟨n2, h2⟩ := h2
  have h1' := deepCopy_mono (Nat.le_max_left n1 n2) h1
  have h2' := deepCopy_mono (Nat.le_max_right n1 n2) h2
  rw [h1'] at h2'
  cases h2'
  exact ⟨rfl, rfl⟩

/-- Everything a deep copy of an acyclic struct does. -/
theorem deepCopiesTo_spec (E : Env) (args : ArgOrder) {st : State} (h : WF st) (hn : st.Named)
    {S : Addr} {s : RpcStruct} (hs : st.struct? S = some s) (hacyclic : Acyclic st.Edge S) :
    ∃ st' c, DeepCopiesTo E args st S st' c ∧ Grove st {c} st' ∧
      DeepItem args st' st.live {a | st.New st' a} (.struct S) (.struct c) := by
  obtain ⟨n, hdepth⟩ := hacyclic.depthLE (mem_addrs_of_edge st)
  obtain ⟨st', c, hok, hgrove, hitem⟩ :=
    deepCopy_spec (E := E) h hn n st S (.refl st) h ⟨s, hs⟩ hdepth
  exact ⟨st', c, ⟨n, hok⟩, hgrove, hitem⟩

/-! ## Runs -/

inductive FullOp where
  | call (op : Op)
  | deepCopy (original : Addr)
  | whoseCopy (S : Addr)

/-- A C string has no zero byte. -/
def Op.Text : Op → Prop
  | .idSet _ ID => (0 : UInt8) ∉ ID
  | _ => True

inductive FullStep (args : ArgOrder) : State → Env × FullOp → State → Prop
  | call {st E op st'} : op.Legal st → op.Text → op.run E st = .ok st' →
      FullStep args st (E, .call op) st'
  | deepCopy {st E S s st' c} : st.struct? S = some s → Acyclic st.Edge S →
      DeepCopiesTo E args st S st' c → FullStep args st (E, .deepCopy S) st'
  | whoseCopy {st E S s st' p} : st.struct? S = some s → rpcStructWhoseCopy st S = .ok (st', p) →
      FullStep args st (E, .whoseCopy S) st'

def fullApi (args : ArgOrder) : LTS State (Env × FullOp) where
  init st := st = .empty
  step := FullStep args

/-- A legal call extends a run. -/
theorem full_step {args : ArgOrder} {st st' : State} (E : Env) (op : Op)
    (h : (fullApi args).Reachable st) (hl : op.Legal st) (ht : op.Text)
    (hok : op.run E st = .ok st') : (fullApi args).Reachable st' :=
  h.step (FullStep.call hl ht hok)

/-- A run of calls that build a graph. -/
theorem build_full {args : ArgOrder} {E : Env} {st st' : State} {ops : List Op}
    (h : (fullApi args).Reachable st) (hb : build E st ops = some st') :
    (fullApi args).Reachable st' := by
  induction ops generalizing st with
  | nil =>
    cases hb
    exact h
  | cons op ops ih =>
    rw [build] at hb
    split at hb
    · rename_i hop
      have htext : op.Text := by
        cases op with
        | idSet => cases hop
        | _ => trivial
      split at hb
      · rename_i st1 hrun
        exact ih (full_step E op h (Op.builds_legal hop).1 htext hrun) hb
      · cases hb
    · cases hb

/-! ## IDs fill their field -/

section Named
variable {E : Env} {st st1 st' : State}

theorem named_random (E : Env) (st : State) : RpcStruct.Named ⟨∅, E.random st ++ [0], 0⟩ := by
  refine ⟨E.random st, rfl, E.random_length st, fun h0 => ?_⟩
  have hmem := E.random_mem st 0 h0
  revert hmem
  decide +kernel

/-- An object written whose ID, if it is a struct, fills its field. -/
theorem State.Named.setObj (h : st.Named) (hheap : st1.heap = st.heap) {a : Addr} {o : Obj}
    (ho : ∀ s, o = .struct s → s.Named) : (st1.setObj a o).Named := by
  intro S s hs
  rw [struct?_eq_some, lookup_setObj] at hs
  split at hs
  · exact ho s (Option.some.inj hs)
  · rw [hheap] at hs
    exact h S s (struct?_eq_some.2 hs)

/-- An update that leaves the ID alone. -/
theorem State.Named.update (h : st.Named) (hheap : st1.heap = st.heap) {S : Addr} {s s' : RpcStruct}
    (hs : st.struct? S = some s) (hid : s'.ID = s.ID) : (st1.setObj S (.struct s')).Named := by
  refine h.setObj hheap fun s2 hs2 => ?_
  cases hs2
  obtain ⟨id, hs', hlen, h0⟩ := h S s hs
  exact ⟨id, hid.trans hs', hlen, h0⟩

theorem State.Named.setInternal (h : st.Named) {S : Addr} {k : CStr} {e : RpcTypeT} {ret : Nat}
    (hheap : st1.heap = st.heap) (hok : rpcStructSetInternal E st1 S k e = .ok (st', ret)) :
    st'.Named := by
  have h1 : st1.Named := fun S s hs =>
    h S s ((struct?_congr (by rw [hheap])).symm.trans hs)
  unfold rpcStructSetInternal at hok
  split at hok
  · cases hok
  · rename_i s hs
    split at hok
    · cases hok
      exact h1
    · split at hok
      · cases hok
        exact h1
      · cases hok
        exact h1.update (heap_trackElement S k e) hs rfl

/-- An ID of 64 bytes at most, without a zero byte: the rest of the field keeps its bytes. -/
theorem State.Named.idSet (h : st.Named) {S : Addr} {ID : CStr} (h0 : (0 : UInt8) ∉ ID)
    (hlen : ID.length ≤ 64) (hok : rpcStructIdSet st S ID = .ok st') : st'.Named := by
  unfold rpcStructIdSet at hok
  split at hok
  · cases hok
  · rename_i s hs
    split at hok
    · cases hok
    · cases hok
      refine h.setObj rfl fun s2 hs2 => ?_
      cases hs2
      obtain ⟨id, hid, hlen', h0'⟩ := h S s hs
      refine ⟨ID ++ id.drop ID.length, ?_, ?_, fun hm => ?_⟩
      · simp only [hid]
        rw [List.drop_append_of_le_length (by omega), List.append_assoc]
      · rw [List.length_append, List.length_drop]
        omega
      · rcases List.mem_append.1 hm with hm | hm
        · exact h0 hm
        · exact h0' (List.mem_of_mem_drop hm)

/-- The ID a caller reads. -/
theorem State.Named.idGet (h : st.Named) (S : Addr) :
    (0 : UInt8) ∉ rpcStructIdGet st S ∧ (rpcStructIdGet st S).length ≤ 64 := by
  unfold rpcStructIdGet
  cases hs : st.struct? S with
  | none => exact ⟨List.not_mem_nil, Nat.zero_le _⟩
  | some s =>
    obtain ⟨id, hid, hlen, h0⟩ := h S s hs
    rw [Option.map_some, Option.getD_some, hid, takeWhile_string h0]
    exact ⟨h0, hlen.le⟩

theorem State.Named.copy (h : st.Named) {o c : Addr} (hok : rpcStructCopy E st o = .ok (st', c)) :
    st'.Named := by
  unfold rpcStructCopy at hok
  split at hok
  · cases hok
  · rename_i s hs
    obtain ⟨st2, h2, hok⟩ := bind_eq_ok.1 hok
    obtain ⟨st3, h3, hok⟩ := bind_eq_ok.1 hok
    obtain ⟨st4, h4, hok⟩ := bind_eq_ok.1 hok
    cases hok
    have hn1 : (rpcStructCreate E st).1.Named := h.setObj rfl fun s hs => by
      cases hs
      exact named_random E st
    obtain ⟨hzero, hlen⟩ := hn1.idGet o
    have hn3 := foldlM_ok State.Named (fun st k st' hn hok => by
      unfold copyElement at hok
      split at hok
      · cases hok
        exact hn
      · obtain ⟨ret, hok⟩ := map_fst_eq_ok hok
        exact hn.setInternal (heap_incrementElement ..) hok) _ st2 st3 (hn1.idSet hzero hlen h2) h3
    unfold setCopyof at h4
    split at h4
    · cases h4
    · rename_i c3 hc3
      cases h4
      exact hn3.update rfl hc3 rfl

theorem State.Named.outcome (h : st.Named) {R : Set Addr} {P : Set (Addr × CStr)}
    (hout : Outcome R P st st') : st'.Named := by
  intro S s' hs'
  obtain ⟨s, hs, hid, -⟩ := hout.back hs'
  obtain ⟨id, hid', hlen, h0⟩ := h S s hs
  exact ⟨id, hid.trans hid', hlen, h0⟩

theorem State.Named.function (h : st.Named) {fn : Addr} {g : RpcFunction → RpcFunction}
    (hok : onFunction st fn g = .ok st') : st'.Named := by
  unfold onFunction at hok
  split at hok
  · cases hok
    exact h.setObj rfl nofun
  · cases hok

/-- A call of the store's API. -/
theorem State.Named.call (h : st.Named) (hwf : WF st) {op : Op} (hl : op.Legal st) (ht : op.Text)
    (hok : op.run E st = .ok st') : st'.Named := by
  cases op with
  | structCreate =>
    cases hok
    exact h.setObj rfl fun s hs => by
      cases hs
      exact named_random E st
  | sizedbufCreate buf => cases hok; exact h.setObj rfl nofun
  | functionCreate => cases hok; exact h.setObj rfl nofun
  | set S k e =>
    obtain ⟨ret, hok⟩ := map_fst_eq_ok hok
    unfold rpcStructSet at hok
    split at hok
    · cases hok
      exact h
    · exact h.setInternal rfl hok
  | remove S k =>
    obtain ⟨⟨s, hs⟩, hS⟩ := hl
    obtain ⟨st2, hok2, -, hout⟩ := remove_top_spec E hwf.inv hs k hS
    simp only [Op.run, hok2] at hok
    cases hok
    exact h.outcome hout
  | free t x =>
    obtain ⟨o, ho, rfl⟩ := hl
    obtain ⟨st2, hok2, -, hout⟩ := free_spec E hwf.inv ho (Finset.notMem_empty x)
    simp only [Op.run, hok2] at hok
    cases hok
    exact h.outcome hout
  | idSet S ID => exact h.idSet ht hl.2 hok
  | setPrototype fn p => exact h.function hok
  | setReturnType fn t => exact h.function hok
  | setFnptr fn a => exact h.function hok
  | copy o =>
    obtain ⟨c, hok⟩ := map_fst_eq_ok hok
    exact h.copy hok

end Named

/-! ## The invariant of a run

The store's invariant and the IDs that fill their fields, through copies of both kinds. -/

/-- The original if it has a record, and otherwise `NULL`, which is then remembered. -/
theorem whoseCopy_cases {st st' : State} {S p : Addr} {s : RpcStruct} (hs : st.struct? S = some s)
    (hok : rpcStructWhoseCopy st S = .ok (st', p)) :
    (st' = st ∧ p = s.copyof ∧ (p ≠ 0 → ∃ r, st.tracker.lookup p = some r)) ∨
      (st' = st.setObj S (.struct { s with copyof := 0 }) ∧ p = 0) := by
  simp only [rpcStructWhoseCopy, hs] at hok
  split at hok
  · rename_i h0
    cases hok
    exact .inl ⟨rfl, h0.symm, fun hp => absurd rfl hp⟩
  · split at hok
    · cases hok
      exact .inr ⟨rfl, rfl⟩
    · rename_i r hr
      cases hok
      exact .inl ⟨rfl, rfl, fun _ => ⟨r, hr⟩⟩

structure FullInv (st : State) : Prop where
  wf : WF st
  named : st.Named

/-- A deep copy in such a state. -/
theorem FullInv.deepCopy {E : Env} {args : ArgOrder} {st st' : State} {S c : Addr} (h : FullInv st)
    {s : RpcStruct} (hs : st.struct? S = some s) (hacyclic : Acyclic st.Edge S)
    (hok : DeepCopiesTo E args st S st' c) : Grove st {c} st' ∧
      DeepItem args st' st.live {a | st.New st' a} (.struct S) (.struct c) := by
  obtain ⟨st2, c2, hok2, hgrove, hitem⟩ := deepCopiesTo_spec E args h.wf h.named hs hacyclic
  obtain ⟨rfl, rfl⟩ := hok.unique hok2
  exact ⟨hgrove, hitem⟩

/-- One call. -/
theorem FullInv.step {args : ArgOrder} {st st' : State} {a : Env × FullOp} (h : FullInv st)
    (hst : FullStep args st a st') : FullInv st' := by
  cases hst with
  | @call E op _ hl ht hok =>
    obtain ⟨st2, hok2, -, hwf, -⟩ := step_spec E h.wf hl
    rw [hok] at hok2
    cases hok2
    exact ⟨hwf, h.named.call h.wf hl ht hok⟩
  | @deepCopy E S s _ c hs hacyclic hok =>
    obtain ⟨hgrove, hitem⟩ := h.deepCopy hs hacyclic hok
    refine ⟨hgrove.wf, fun T t ht => ?_⟩
    cases hT : st.heap.lookup T with
    | none =>
      -- a new struct has the ID of its original
      obtain ⟨r, hr, hb⟩ := hgrove.hangs T ⟨hT, _, struct?_eq_some.1 ht⟩
      rw [Set.mem_singleton_iff.1 hr] at hb
      obtain ⟨T0, -, hcopy⟩ := hitem.original hgrove.wf hb ht
      obtain ⟨s0, m, -, hT0, hs0, hm, hid, -⟩ := hcopy.struct_inv
      rw [ht] at hm
      cases hm
      obtain ⟨o, ho⟩ := hT0
      obtain ⟨id, hid', hlen, h0⟩ := h.named T0 s0 (struct?_eq_some.2 (by
        have := hgrove.ext.heap T0 o ho
        rw [struct?_eq_some.1 hs0] at this
        cases this
        exact ho))
      exact ⟨id, hid.trans hid', hlen, h0⟩
    | some o =>
      have hsame := hgrove.ext.heap T o hT
      rw [struct?_eq_some.1 ht] at hsame
      cases hsame
      exact h.named T t (struct?_eq_some.2 hT)
  | @whoseCopy E S s _ p hs hok =>
    rcases whoseCopy_cases hs hok with hcase | hcase
    · rw [hcase.1]
      exact h
    · rw [hcase.1]
      obtain ⟨hstored, hinv⟩ := update_step h.wf.inv h.wf.stored hs { s with copyof := 0 } rfl
        (h.wf.stored.idSize S s hs)
      exact ⟨hinv.wf hstored, h.named.update rfl hs rfl⟩

/-- A run. -/
theorem fullApi_inv {args : ArgOrder} {st : State} (h : (fullApi args).Reachable st) : FullInv st := by
  refine h.invariant (fun st h0 => ?_) fun st a st' hinv hst => hinv.step hst
  cases h0
  exact ⟨empty_inv.wf empty_stored, nofun⟩

end FfiRpc
