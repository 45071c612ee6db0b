import FfiRpc.Core.Fallible
import FfiRpc.Store.Beside
import FfiRpc.Store.Confined
import FfiRpc.Store.DeepApi
import FfiRpc.Store.Remove

/-!
# What a deep copy owes

`deepCopy_faithful`: the copy has the content of the original at every level and shares no
object and no string block with it. Later calls on the side of one leave the other as it is,
as long as they do not put one of its structs below the first (`Op.Beside`); a set that does
hands the struct over, and the next removal releases it (`deepCopy_takes_original`).

`deepCopy_stops_iff`: the call returns exactly if no struct below the original contains itself.

`deepCopy_books_iff`: the references counted for the new objects are those of the entries,
and a free of the copy takes everything back, exactly if no struct nested in the original
holds one object under two keys: the loop counts such an object once more for each further
key.
-/
namespace FfiRpc

open State
open Nesting (Acyclic DepthLE)

/-! ## The copy and its original -/

theorem acyclic_of_leaves {st : State} (h : ∀ e ∈ st.pairs, ∀ p, st.entry e.1 e.2 ≠ some (.struct p))
    (S : Addr) : Acyclic st.Edge S := by
  intro T _ hcycle
  obtain ⟨p, hedge, -⟩ := Relation.TransGen.head'_iff.1 hcycle
  obtain ⟨k, hk⟩ := hedge
  exact h (T, k) (mem_pairs hk) p hk

/-- Calls on the side of `R` leave what hangs from `Q` to its readers as it is. -/
def Unaffected (st : State) (R Q : Addr) : Prop :=
  ∀ as st', (api.restrict fun st a => a.2.Beside R Q st).Run st as st' → ∀ a x, st.Hangs Q a →
    st.heap.lookup a = some x → ∃ x', st'.heap.lookup a = some x' ∧ x.Same x'

/-- `c` is a deep copy of `o`, if the bytes of a sizedbuf are copied. -/
structure DeepCopyLaw (st : State) (o c : Addr) (st' : State) : Prop where
  content : DeepItem .getbufFirst st' st.live {a | st.New st' a} (.struct o) (.struct c)
  kept : Extends st st'
  objects : ∀ a, st'.Hangs c a → ¬ st'.Hangs o a
  strings : ∀ S T k k' a a' t t', st'.Hangs c S → st'.Hangs o T →
    st'.entry S k = some (.string a t) → st'.entry T k' = some (.string a' t') → a' ≠ a
  copy : Unaffected st' c o
  original : Unaffected st' o c

theorem unaffected_of_apart {st : State} {R Q : Addr} (hwf : WF st) {q : RpcStruct}
    (hQ : st.struct? Q = some q) (hapart : ∀ a, st.Hangs Q a → ¬ st.Hangs R a) :
    Unaffected st R Q := by
  intro as st' hrun a x ha hx
  exact (apart_run hwf hQ (fun T _ hT _ => hapart T hT) hrun).same a x ha hx

/-- A deep copy is one. -/
theorem deepCopy_faithful {st : State} (h : (fullApi .getbufFirst).Reachable st) (E : Env) {o : Addr}
    {s : RpcStruct} (hs : st.struct? o = some s) (hacyclic : Acyclic st.Edge o) :
    ∃ st' c, DeepCopiesTo E .getbufFirst st o st' c ∧ DeepCopyLaw st o c st' := by
  have hinv := fullApi_inv h
  obtain ⟨st', c, hok, hgrove, hitem⟩ :=
    deepCopiesTo_spec E .getbufFirst hinv.wf hinv.named hs hacyclic
  have hnew : ∀ a, st'.Hangs c a → st.New st' a := fun a ha =>
    State.Hangs.mem (X := {a | st.New st' a}) (fun S k p hS hp => hgrove.closed S k p hS hp) ha
      (hgrove.roots c rfl)
  have hold : ∀ a, st'.Hangs o a → a ∈ st.live := fun a ha =>
    hgrove.ext.hangs_live hinv.wf ⟨_, struct?_eq_some.1 hs⟩ ha
  have hobjects : ∀ a, st'.Hangs c a → ¬ st'.Hangs o a := by
    intro a hc ho
    obtain ⟨x, hx⟩ := hold a ho
    rw [(hnew a hc).1] at hx
    cases hx
  obtain ⟨-, m, -, -, -, hm, -⟩ := hitem.struct_inv
  refine ⟨st', c, hok, hitem, hgrove.ext, hobjects, fun S T k k' a a' t t' hS hT he he' => ?_,
    unaffected_of_apart hgrove.wf (hgrove.ext.struct hs) fun a ho hc => hobjects a hc ho,
    unaffected_of_apart hgrove.wf hm hobjects⟩
  -- a block of the original was in use, one of the copy was not
  rw [hgrove.ext.entry (hold T hT)] at he'
  intro heq
  refine hgrove.blocks S k a t (hnew S hS) he (.inr (.inr ⟨T, k', t', ?_⟩))
  rw [← heq]
  exact he'

/-- A struct that holds a sizedbuf and a text. -/
theorem deepCopy_faithful_pair : ∃ st st' c, st.held 1 [107] = some 2 ∧
    (∃ a, st.entry 1 [108] = some (.string a [120])) ∧
    DeepCopiesTo .bump .getbufFirst st 1 st' c ∧ DeepCopyLaw st 1 c st' := by
  obtain ⟨st, hb⟩ : ∃ st, build .bump .empty [.structCreate, .sizedbufCreate [7],
    .set 1 [107] (.sizedbuf 2), .set 1 [108] (.string 9 [120])] = some st := ⟨_, rfl⟩
  have h : (fullApi .getbufFirst).Reachable st := build_full (.init rfl) hb
  cases hb
  obtain ⟨st', c, hok, hlaw⟩ := deepCopy_faithful h .bump (o := 1) rfl
    (acyclic_of_leaves (fun e he p hp => by
      rcases List.mem_pair.1 he with he | he <;> cases he <;> cases hp) 1)
  exact ⟨_, st', c, rfl, ⟨_, rfl⟩, hok, hlaw⟩

/-- Put below its copy and taken out again, the original is gone. -/
theorem deepCopy_takes_original : ∃ st st' c s st1 st2, (fullApi .getbufFirst).Reachable st ∧
    Acyclic st.Edge 1 ∧ DeepCopiesTo .bump .getbufFirst st 1 st' c ∧ st'.struct? 1 = some s ∧
    api.step st' (.bump, .set c [120] (.struct 1)) st1 ∧
    api.step st1 (.bump, .remove c [120]) st2 ∧ st2.struct? 1 = none := by
  obtain ⟨st, hb⟩ : ∃ st, build .bump .empty [.structCreate] = some st := ⟨_, rfl⟩
  have h : (fullApi .getbufFirst).Reachable st := build_full (.init rfl) hb
  cases hb
  have hacyclic : Acyclic (rpcStructCreate .bump .empty).1.Edge 1 :=
    acyclic_of_leaves (fun e he => by cases he) 1
  obtain ⟨st', hcopy⟩ : ∃ st', rpcStructDeepCopy .bump .getbufFirst 1
    (rpcStructCreate .bump .empty).1 1 = .ok (st', 2) := ⟨_, rfl⟩
  have h1 := h.step (FullStep.deepCopy (E := .bump) rfl hacyclic ⟨1, hcopy⟩)
  cases hcopy
  have h2 := full_step .bump (.set 2 [120] (.struct 1)) h1 ⟨⟨_, rfl⟩, trivial,
    fun p hp _ => by cases hp; exact ⟨_, rfl, rfl⟩⟩ trivial rfl
  refine ⟨_, _, 2, _, _, _, h, hacyclic, ⟨1, rfl⟩, rfl, ⟨⟨⟨_, rfl⟩, trivial, fun p hp _ => ?_⟩, rfl⟩,
    ⟨⟨⟨_, rfl⟩, fun hin => ?_⟩, rfl⟩, rfl⟩
  · cases hp
    exact ⟨.struct _, rfl, rfl⟩
  have hfault := remove_fault .bump (fullApi_inv h2).wf.inv rfl hin
  cases hfault

/-! ## When it returns -/

section
variable {E : Env} {args : ArgOrder} {st0 st : State} {S c : Addr} {s m : RpcStruct}
  {done : List CStr} {x : State × Table Addr Addr}

/-- A turn of the loop whose struct is not copied. -/
theorem Copying.step_error {n : Nat} (h : Copying args st0 st S s c done x m)
    {k : CStr} {p : Addr} (hk : s.map.lookup k = some (.struct p))
    (hdone : ∀ k' ∈ done, st0.held S k' ≠ some p)
    (herr : rpcStructDeepCopy E args n x.1 p = .error .outOfFuel) :
    deepCopyElement E args (rpcStructDeepCopy E args n) s c x k = .error .outOfFuel := by
  have hnone : x.2.lookup p = none := by
    cases hd : x.2.lookup p with
    | none => rfl
    | some q =>
      obtain ⟨k', hk', hp, -⟩ := (h.dup p q).1 hd
      exact absurd hp (hdone k' hk')
  simp only [deepCopyElement, hk, deepCopyValue, duplicate, hnone, herr, bind, Except.bind]

theorem deepCopy_endless (hwf0 : WF st0) (hnamed : st0.Named) (n : Nat) :
    ∀ st S, Extends st0 st → WF st → (∃ s, st0.struct? S = some s) → ¬ DepthLE st0.Edge n S →
      rpcStructDeepCopy E args n st S = .error .outOfFuel := by
  induction n with
  | zero => exact fun st S _ _ _ _ => rfl
  | succ n ih =>
    intro st S hext hwf hS hdeep
    obtain ⟨s, hs0⟩ := hS
    have hs := hext.struct hs0
    have hstart := deepCopy_start (E := E) hs (hnamed S s hs0)
    have hkeys : ∀ k, k ∈ E.order (st.setObj (E.malloc st) (.struct ⟨∅, s.ID, 0⟩)) S s.map.keys ↔
        ∃ e, s.map.lookup k = some e := fun k => by
      rw [(E.order_perm ..).mem_iff, Table.mem_keys_iff]
    have hloop := StopsIff.foldlM
      (f := deepCopyElement E args (rpcStructDeepCopy E args n) s (E.malloc st)) (e := Fault.outOfFuel)
      (fun k => ∀ p, s.map.lookup k = some (.struct p) → DepthLE st0.Edge n p)
      (fun done x => ∃ m, Copying args st0 st S s (E.malloc st) done x m)
      (E.order (st.setObj (E.malloc st) (.struct ⟨∅, s.ID, 0⟩)) S s.map.keys) []
      (st.setObj (E.malloc st) (.struct ⟨∅, s.ID, 0⟩), ∅)
      ((E.order_perm ..).nodup_iff.2 s.map.keys_nodup) (fun _ _ => List.not_mem_nil)
      ⟨_, .start E args hwf hs⟩ (by
        intro done x k hk hnew hearlier hx
        obtain ⟨m, hx⟩ := hx
        obtain ⟨e, he⟩ := (hkeys k).1 hk
        by_cases hC : ∀ p, s.map.lookup k = some (.struct p) → DepthLE st0.Edge n p
        · obtain ⟨x2, m2, hok, hx2⟩ := hx.step (deepCopy_spec hwf0 hnamed n) hwf0 hext hs0
            (fun p hp => hC p (by rw [he, hp])) hnew he
          exact .inl ⟨hC, x2, hok, m2, hx2⟩
        · rw [not_forall] at hC
          obtain ⟨p, hp⟩ := hC
          obtain ⟨hp, hdeep⟩ := Classical.not_imp.1 hp
          have hSk : st0.entry S k = some (.struct p) := by rw [entry_of_struct hs0, hp]
          obtain ⟨o, ho, hty⟩ := hwf0.inv.typed S k _ p hSk rfl (Set.notMem_empty p)
            (Finset.notMem_empty _)
          have hstruct : ∃ t, st0.struct? p = some t := by
            cases o with
            | struct t => exact ⟨t, struct?_eq_some.2 ho⟩
            | sizedbuf b => cases hty
            | function f => cases hty
          refine .inr ⟨fun hC => hdeep (hC p hp), hx.step_error hp (fun k' hk' hh => ?_)
            (ih x.1 p (hext.trans hx.grove.ext) hx.wf hstruct hdeep)⟩
          -- an earlier key with this struct would have been copied
          obtain ⟨e', he', ht'⟩ := held_eq_some.1 hh
          have htype := hwf0.inv.same_target hSk he' rfl ht'
          have hp' : s.map.lookup k' = some (.struct p) := by
            rw [entry_of_struct hs0] at he'
            cases e' <;> cases htype
            cases ht'
            exact he'
          exact hdeep (hearlier k' hk' List.not_mem_nil p hp'))
    rcases hloop with ⟨hall, -⟩ | ⟨-, herr⟩
    · refine absurd (.mk fun p hp => ?_) hdeep
      obtain ⟨k, hk⟩ := hp
      rw [entry_of_struct hs0] at hk
      exact hall k ((hkeys k).2 ⟨_, hk⟩) p hk
    · simp only [rpcStructDeepCopy, hs]
      rw [show (rpcStructCreate E st) = ((rpcStructCreate E st).1, E.malloc st) from rfl]
      simp only [hstart, herr, bind, Except.bind]

/-- A deep copy returns exactly if no struct it reaches contains itself. -/
theorem deepCopy_stops_iff (E : Env) (h : (fullApi args).Reachable st) (hs : st.struct? S = some s) :
    (∃ n, rpcStructDeepCopy E args n st S ≠ .error .outOfFuel) ↔ Acyclic st.Edge S := by
  have hinv := fullApi_inv h
  rw [Nesting.acyclic_iff_depthLE (mem_addrs_of_edge st)]
  refine exists_congr fun n => ⟨fun hne => ?_, fun hd => ?_⟩
  · by_contra hdeep
    exact hne (deepCopy_endless hinv.wf hinv.named n st S (.refl st) hinv.wf ⟨s, hs⟩ hdeep)
  · obtain ⟨st', c, hok, -⟩ := deepCopy_spec (E := E) hinv.wf hinv.named n st S
      (.refl st) hinv.wf ⟨s, hs⟩ hd
    rw [hok]
    nofun

end

/-! ## Freeing the copy -/

/-- No struct nested in `o` holds one object under two keys. -/
def NoShared (st : State) (o : Addr) : Prop :=
  ∀ T, st.Nested o T → ∀ k k' p, st.held T k = some p → st.held T k' = some p → k' = k

structure DeepBooks (st : State) (c : Addr) (st' : State) : Prop where
  count : ∀ a, st.New st' a → precRefcount st' a = (st'.holders a).card
  release : ∀ E : Env, ∃ st'', rpcStructFree E st' c = .ok st'' ∧
    (∀ a, st.New st' a → st''.heap.lookup a = none) ∧
    ∀ p, st''.tracker.lookup p = st.tracker.lookup p

section
variable {args : ArgOrder} {st st' : State} {o c : Addr}

theorem precRefcount_some {p : Addr} {r : Prec} (hr : st.tracker.lookup p = some r) :
    precRefcount st p = r.refcount := by
  rw [precRefcount, hr]
  rfl

/-- A new object that is counted for what holds it has one entry at most. -/
theorem Grove.count_iff {R : Set Addr} (h : Grove st R st') {a : Addr} (ha : st.New st' a) :
    precRefcount st' a = (st'.holders a).card ↔ (st'.holders a).card ≤ 1 := by
  cases hr : st'.tracker.lookup a with
  | none =>
    have hempty := h.wf.inv.untracked a (Set.notMem_empty a) hr
    rw [Finset.sdiff_empty] at hempty
    simp [precRefcount, hr, hempty]
  | some r =>
    have hcount := h.count a r ha hr
    rw [precRefcount_some hr]
    omega

theorem surplus_counted {a : Addr} (hcount : precRefcount st a = (st.holders a).card) :
    st.surplus a = 0 := by
  have hsur : st.surplus a = precRefcount st a - (st.holders a).card := rfl
  omega

/-- A free of the root releases all that hangs from it, if each object is counted for
its entries. -/
theorem Grove.free (h : Grove st {c} st') (hwf : WF st) (E : Env) {m : RpcStruct}
    (hm : st'.struct? c = some m)
    (hcount : ∀ a, st.New st' a → precRefcount st' a = (st'.holders a).card) :
    ∃ st'', rpcStructFree E st' c = .ok st'' ∧ (∀ a, st.New st' a → st''.heap.lookup a = none) ∧
      ∀ p, st''.tracker.lookup p = st.tracker.lookup p := by
  obtain ⟨st'', hok, hinv, hout⟩ := free_spec E h.wf.inv (struct?_eq_some.1 hm)
    (Finset.notMem_empty c)
  rw [raised_empty] at hout
  have hgone : ∀ a, st'.Hangs c a → a ∈ st'.reclaimed st'.surplus {c} ∅ := by
    intro a ha
    induction ha with
    | refl => exact .root rfl
    | @tail S a hS hlink ih =>
      obtain ⟨k, hk⟩ := hlink
      have hnew : st.New st' a := by
        refine Hangs.mem (X := {a | st.New st' a}) (fun T k p hT hp => h.closed T k p hT hp)
          (.tail hS ⟨k, hk⟩) (h.roots c rfl)
      obtain ⟨P, hP⟩ := h.parent a hnew
      refine .orphan (e := (S, k)) ?_ hk fun e he _ => ?_
      · rw [Set.mem_ofPred_eq, surplus_counted (hcount a hnew)]
        exact Nat.lt_irrefl 0
      · rw [hP e.1 e.2 he, ← hP S k hk]
        exact ih
  have hdead : ∀ a, st.New st' a → st''.heap.lookup a = none := by
    intro a ha
    obtain ⟨r, hr, hb⟩ := h.hangs a ha
    rw [Set.mem_singleton_iff.1 hr] at hb
    exact hout.gone a (hgone a hb)
  have hinside : Inside {a | st.New st' a} st' st'' :=
    (h.wf.kept.confined (fun S hS k p hp => h.closed S k p hS hp) fun S k p hp hh =>
      h.holder hwf hp hh).free E (h.roots c rfl) hok
  refine ⟨st'', hok, hdead, fun p => ?_⟩
  cases hp : st.heap.lookup p with
  | some x =>
    have hnot : p ∉ {a | st.New st' a} := fun hnew => by
      rw [hnew.1] at hp
      cases hp
    rw [hinside.tracker p hnot, h.ext.tracker p ⟨x, hp⟩]
  | none =>
    rw [hwf.dead_untracked hp]
    refine (hinv.wf (h.wf.stored.outcome hout)).dead_untracked ?_
    cases hp' : st'.heap.lookup p with
    | none => exact hout.fresh p hp'
    | some x => exact hdead p ⟨hp, x, hp'⟩

/-! ### Shared entries -/

theorem DeepItem.held_copy {A B : Set Addr} {S C p : Addr} {k : CStr}
    (h : DeepItem args st A B (.struct S) (.struct C)) (hk : st.held S k = some p) :
    ∃ q ∈ B, st.held C k = some q := by
  obtain ⟨s, m, -, -, hs, hm, -, -, hkeys, -, hitems⟩ := h.struct_inv
  obtain ⟨e, he, ht⟩ := held_eq_some.1 hk
  rw [entry_of_struct hs] at he
  cases he' : m.map.lookup k with
  | none =>
    rw [hkeys, he] at he'
    cases he'
  | some e' =>
    have hitem := hitems k e e' he he'
    cases ht' : e'.target with
    | none =>
      rw [hitem.target_iff.1 ht'] at ht
      cases ht
    | some q =>
      exact ⟨q, hitem.target_mem ht', held_eq_some.2 ⟨e', by rw [entry_of_struct hm, he'], ht'⟩⟩

theorem DeepItem.held_original {A B : Set Addr} {S C q : Addr} {k : CStr}
    (h : DeepItem args st A B (.struct S) (.struct C)) (hk : st.held C k = some q) :
    ∃ p, st.held S k = some p := by
  obtain ⟨s, m, -, -, hs, hm, -, -, hkeys, -, hitems⟩ := h.struct_inv
  obtain ⟨e', he', ht'⟩ := held_eq_some.1 hk
  rw [entry_of_struct hm] at he'
  cases he : s.map.lookup k with
  | none =>
    rw [(hkeys k).2 he] at he'
    cases he'
  | some e =>
    have hitem := hitems k e e' he he'
    cases ht : e.target with
    | none =>
      rw [hitem.target_iff.2 ht] at ht'
      cases ht'
    | some p => exact ⟨p, held_eq_some.2 ⟨e, by rw [entry_of_struct hs, he], ht⟩⟩

theorem Extends.nested_iff (h : Extends st st') (hwf : WF st) {S T : Addr} (hS : S ∈ st.live) :
    st'.Nested S T ↔ st.Nested S T := by
  constructor
  · intro hT
    have hboth : T ∈ st.live ∧ st.Nested S T := by
      induction hT with
      | refl => exact ⟨hS, .refl⟩
      | @tail P T _ hedge ih =>
        obtain ⟨k, hk⟩ := hedge
        rw [h.entry ih.1] at hk
        exact ⟨hwf.inv.held_live (held_eq_some.2 ⟨_, hk, rfl⟩), ih.2.tail ⟨k, hk⟩⟩
    exact hboth.2
  · refine Relation.ReflTransGen.mono (fun P T hedge => ?_) S T
    obtain ⟨k, hk⟩ := hedge
    obtain ⟨s, hs, -⟩ := entry_eq_some.1 hk
    exact ⟨k, (h.entry ⟨_, struct?_eq_some.1 hs⟩ k).trans hk⟩

/-- An object of the copy is under two keys only if its original is. -/
theorem Grove.card_le_one (h : Grove st {c} st') (hwf : WF st)
    (hitem : DeepItem args st' st.live {a | st.New st' a} (.struct o) (.struct c))
    (hns : NoShared st o) {a : Addr} (ha : st.New st' a) : (st'.holders a).card ≤ 1 := by
  obtain ⟨P, hP⟩ := h.parent a ha
  refine Finset.card_le_one.2 fun e1 h1 e2 h2 => ?_
  obtain ⟨S, k⟩ := e1
  obtain ⟨S', k'⟩ := e2
  rw [mem_holders] at h1 h2
  have hS : S = P := hP S k h1
  have hS' : S' = P := hP S' k' h2
  rw [hS] at h1 ⊢
  rw [hS'] at h2 ⊢
  -- the original of the struct that holds `a`
  obtain ⟨r, hr, hb⟩ := h.hangs P (h.holder hwf ha h1)
  rw [Set.mem_singleton_iff.1 hr] at hb
  obtain ⟨e, he, -⟩ := held_eq_some.1 h1
  obtain ⟨t, ht, -⟩ := entry_eq_some.1 he
  obtain ⟨T0, hT0, hcopy⟩ := hitem.original h.wf hb ht
  obtain ⟨-, -, -, hlive, -, -, -, -, -, hshare, -⟩ := hcopy.struct_inv
  obtain ⟨-, -, -, ho, -⟩ := hitem.struct_inv
  obtain ⟨p, hp⟩ := hcopy.held_original h1
  have hp' : st'.held T0 k' = some p := by
    rw [← (hshare k k').1 (h1.trans h2.symm)]
    exact hp
  rw [h.ext.held hlive] at hp hp'
  rw [hns T0 ((h.ext.nested_iff hwf ho).1 hT0) k k' p hp hp']

theorem Grove.noShared (h : Grove st {c} st') (hwf : WF st)
    (hitem : DeepItem args st' st.live {a | st.New st' a} (.struct o) (.struct c))
    (hcard : ∀ a, st.New st' a → (st'.holders a).card ≤ 1) : NoShared st o := by
  intro T hT k k' p hk hk'
  obtain ⟨-, -, -, ho, -⟩ := hitem.struct_inv
  obtain ⟨C, hcopy⟩ := hitem.copy ((h.ext.nested_iff hwf ho).2 hT)
  obtain ⟨-, -, -, hlive, -, -, -, -, -, hshare, -⟩ := hcopy.struct_inv
  rw [← h.ext.held hlive] at hk hk'
  obtain ⟨q, hq, hCk⟩ := hcopy.held_copy hk
  have hCk' : st'.held C k' = some q := by
    rw [← (hshare k k').2 (hk.trans hk'.symm)]
    exact hCk
  have hone := Finset.card_le_one.1 (hcard q hq) (C, k') (mem_holders.2 hCk') (C, k)
    (mem_holders.2 hCk)
  exact (Prod.mk.inj hone).2

/-- Every object of the copy is counted for its entries, and freed with the copy, exactly
if no struct nested in the original holds one object under two keys. -/
theorem deepCopy_books_iff (h : (fullApi args).Reachable st) (E : Env) {s : RpcStruct}
    (hs : st.struct? o = some s) (hacyclic : Acyclic st.Edge o) :
    ∃ st' c, DeepCopiesTo E args st o st' c ∧ (DeepBooks st c st' ↔ NoShared st o) := by
  have hinv := fullApi_inv h
  obtain ⟨st', c, hok, hgrove, hitem⟩ := deepCopiesTo_spec E args hinv.wf hinv.named hs hacyclic
  refine ⟨st', c, hok, fun hbooks => ?_, fun hns => ?_⟩
  · refine hgrove.noShared hinv.wf hitem fun a ha => ?_
    exact (hgrove.count_iff ha).1 (hbooks.count a ha)
  · have hcount : ∀ a, st.New st' a → precRefcount st' a = (st'.holders a).card := fun a ha =>
      (hgrove.count_iff ha).2 (hgrove.card_le_one hinv.wf hitem hns ha)
    obtain ⟨-, m, -, -, -, hm, -⟩ := hitem.struct_inv
    exact ⟨hcount, fun E => hgrove.free hinv.wf E hm hcount⟩

end

/-- A struct that holds a sizedbuf under one key. -/
theorem deepCopy_books_single : ∃ st st' c, st.held 1 [107] = some 2 ∧
    DeepCopiesTo .bump .getbufFirst st 1 st' c ∧ DeepBooks st c st' := by
  obtain ⟨st, hb⟩ : ∃ st, build .bump .empty [.structCreate, .sizedbufCreate [7],
    .set 1 [107] (.sizedbuf 2)] = some st := ⟨_, rfl⟩
  have h : (fullApi .getbufFirst).Reachable st := build_full (.init rfl) hb
  cases hb
  obtain ⟨st', c, hok, hiff⟩ := deepCopy_books_iff h .bump (o := 1) rfl
    (acyclic_of_leaves (fun e he p hp => by
      cases List.mem_singleton.1 he
      cases hp) 1)
  refine ⟨_, st', c, rfl, hok, hiff.2 fun T _ k k' p hk hk' => ?_⟩
  obtain ⟨e, he, -⟩ := held_eq_some.1 hk
  obtain ⟨e', he', -⟩ := held_eq_some.1 hk'
  cases List.mem_singleton.1 (show (T, k) ∈ [((1 : Addr), ([107] : CStr))] from mem_pairs he)
  cases List.mem_singleton.1 (show (1, k') ∈ [((1 : Addr), ([107] : CStr))] from mem_pairs he')
  rfl

/-- A sizedbuf under two keys: the copy of it outlives the copy of the struct. -/
theorem deepCopy_leaks : ∃ st st' st'' c, (fullApi .getbufFirst).Reachable st ∧
    Acyclic st.Edge 1 ∧ st.held 1 [107] = some 2 ∧ st.held 1 [108] = some 2 ∧
    DeepCopiesTo .bump .getbufFirst st 1 st' c ∧ rpcStructFree .bump st' c = .ok st'' ∧
    st.New st' 4 ∧ (∃ o, st''.heap.lookup 4 = some o) ∧ ¬ DeepBooks st c st' := by
  obtain ⟨st, hb⟩ : ∃ st, build .bump .empty [.structCreate, .sizedbufCreate [7],
    .set 1 [107] (.sizedbuf 2), .set 1 [108] (.sizedbuf 2)] = some st := ⟨_, rfl⟩
  have h : (fullApi .getbufFirst).Reachable st := build_full (.init rfl) hb
  cases hb
  refine ⟨_, _, _, 3, h, acyclic_of_leaves (fun e he p hp => ?_) 1, rfl, rfl, ⟨1, rfl⟩, rfl,
    ⟨rfl, _, rfl⟩, ⟨_, rfl⟩, fun hbooks => ?_⟩
  · rcases List.mem_pair.1 he with he | he <;> cases he <;> cases hp
  · have hcount := hbooks.count 4 ⟨rfl, _, rfl⟩
    exact absurd hcount (by decide)

end FfiRpc
