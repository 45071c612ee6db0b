import FfiRpc.Store.Cascade

/-!
# Whole releases and removals

`rpcFree` on a live object and `rpcStructRemove` on a live struct, from any
state that satisfies the invariant.

A forced release first takes the object out of every struct that holds it
(`forced_spec`, over the recorded origins), then releases it, which cascades
(`precDelete_spec`). `free_spec` and `remove_spec_top` say what is left: exactly
the objects of `Ownership.Reclaimed` are gone, and a survivor lost exactly the
entries the operation names. Neither mentions the order in which the maps are
walked.
-/
namespace FfiRpc

open Ownership (Closed Reclaimed)
open State

/-- The three release functions of the API, by the type of their argument. -/
def rpcFree (E : Env) : RpcTypes → State → Addr → Except Fault State
  | .struct => rpcStructFree E
  | .sizedbuf => rpcSizedbufFree E
  | .function => rpcFunctionFree E
  | _ => fun st _ => .ok st

/-- `o'` is `o`, less the entries under the keys of `P`. -/
def Obj.Less (P : CStr → Prop) : Obj → Obj → Prop
  | .struct s, .struct s' => s'.ID = s.ID ∧ s'.copyof = s.copyof ∧
      ∀ k, (P k → s'.map.lookup k = none) ∧ (¬ P k → s'.map.lookup k = s.map.lookup k)
  | o, o' => o' = o

/-- `st'` is `st` with the objects of `R` gone and, from the others, the entries
of `P`. -/
structure Outcome (R : Set Addr) (P : Set (Addr × CStr)) (st st' : State) : Prop where
  gone : ∀ a, a ∈ R → st'.heap.lookup a = none
  fresh : ∀ a, st.heap.lookup a = none → st'.heap.lookup a = none
  stay : ∀ a o, a ∉ R → st.heap.lookup a = some o →
    ∃ o', st'.heap.lookup a = some o' ∧ o.Less (fun k => (a, k) ∈ P) o'

theorem Obj.less_refl {P : CStr → Prop} {o : Obj} (h : ∀ k, ¬ P k) : o.Less P o := by
  cases o with
  | struct s => exact ⟨rfl, rfl, fun k => ⟨fun hk => absurd hk (h k), fun _ => rfl⟩⟩
  | sizedbuf b => rfl
  | function f => rfl

theorem Obj.Less.type {P : CStr → Prop} {o o' : Obj} (h : o.Less P o') : o'.type = o.type := by
  cases o <;> cases o' <;> simp_all [Obj.Less, Obj.type]

/-- Two steps of shrinking in one. -/
theorem Obj.Less.trans {P P' P'' : CStr → Prop} {o o' o'' : Obj} (h : o.Less P o')
    (h' : o'.Less P' o'') (hP : ∀ k, P'' k ↔ P k ∨ P' k) : o.Less P'' o'' := by
  cases o with
  | struct s =>
    cases o' with
    | struct s' =>
      cases o'' with
      | struct s'' =>
        refine ⟨h'.1.trans h.1, h'.2.1.trans h.2.1, fun k => ⟨fun hk => ?_, fun hk => ?_⟩⟩
        · by_cases hk' : P' k
          · exact (h'.2.2 k).1 hk'
          · rw [(h'.2.2 k).2 hk']
            exact (h.2.2 k).1 (((hP k).1 hk).resolve_right hk')
        · rw [hP, not_or] at hk
          rw [(h'.2.2 k).2 hk.2, (h.2.2 k).2 hk.1]
      | sizedbuf b => cases h'
      | function f => cases h'
    | sizedbuf b => cases h
    | function f => cases h
  | sizedbuf b => cases h; cases h'; rfl
  | function f => cases h; cases h'; rfl

/-- Objects that differ in representation only have the same entries. -/
theorem Obj.Less.entry {st st' : State} {a : Addr} {o o' : Obj} (ho : st.heap.lookup a = some o)
    (ho' : st'.heap.lookup a = some o') (h : o.Less (fun _ => False) o') (k : CStr) :
    st'.entry a k = st.entry a k := by
  cases o with
  | sizedbuf b => cases h; simp [State.entry, struct?, ho, ho']
  | function f => cases h; simp [State.entry, struct?, ho, ho']
  | struct s =>
    cases o' with
    | sizedbuf b => cases h
    | function f => cases h
    | struct s' =>
      rw [entry_of_struct (struct?_eq_some.2 ho), entry_of_struct (struct?_eq_some.2 ho')]
      exact (h.2.2 k).2 id

/-- Entries of a state that lost only `P`. -/
theorem Outcome.entry {P : Set (Addr × CStr)} {st st' : State} (h : Outcome ∅ P st st') (S : Addr)
    (k : CStr) :
    ((S, k) ∈ P → st'.entry S k = none) ∧ ((S, k) ∉ P → st'.entry S k = st.entry S k) := by
  unfold State.entry State.struct?
  cases ho : st.heap.lookup S with
  | none => simp [h.fresh S ho]
  | some o =>
    obtain ⟨o', ho', hl⟩ := h.stay S o (Set.notMem_empty S) ho
    rw [ho']
    cases o with
    | struct s =>
      cases o' with
      | struct s' => exact hl.2.2 k
      | sizedbuf b => cases hl
      | function f => cases hl
    | sizedbuf b => cases hl; simp
    | function f => cases hl; simp

theorem Outcome.refl (st : State) : Outcome ∅ ∅ st st :=
  ⟨fun _ h => absurd h (Set.notMem_empty _), fun _ h => h,
    fun _ o _ ho => ⟨o, ho, Obj.less_refl fun _ => Set.notMem_empty _⟩⟩

section
variable {E : Env} {off : Finset Addr} {extra : Addr → Nat} {D : Set Addr} {st st' : State}

/-- Dropping an entry is an outcome. -/
theorem Outcome.drop {P : Set (Addr × CStr)} (h : Outcome ∅ P st st') {S : Addr} {s : RpcStruct}
    (hs : st'.struct? S = some s) (k : CStr) :
    Outcome ∅ (insert (S, k) P) st (st'.setObj S (.struct { s with map := s.map.erase k })) := by
  refine ⟨fun _ h => absurd h (Set.notMem_empty _), fun a ha => ?_, fun a o _ ho => ?_⟩
  · rw [lookup_setObj, if_neg]
    · exact h.fresh a ha
    · rintro rfl
      rw [struct?_eq_some, h.fresh a ha] at hs; cases hs
  · obtain ⟨o', ho', hl⟩ := h.stay a o (Set.notMem_empty a) ho
    rw [lookup_setObj]
    split
    · rename_i ha
      subst ha
      rw [struct?_eq_some.1 hs] at ho'
      cases ho'
      have hdrop : Obj.Less (fun k' => k' = k) (.struct s)
          (.struct { s with map := s.map.erase k }) := by
        refine ⟨rfl, rfl, fun k' => ?_⟩
        rw [Table.lookup_erase_if]
        exact ⟨fun hk => if_pos hk, fun hk => if_neg hk⟩
      refine ⟨_, rfl, hl.trans hdrop fun k' => ?_⟩
      simp [Set.mem_insert_iff, or_comm]
    · rename_i ha
      refine ⟨o', ho', ?_⟩
      have : (fun k' => (a, k') ∈ insert (S, k) P) = fun k' => (a, k') ∈ P := by
        funext k'; simp [ha]
      rwa [this]

/-! ## Taking an object out of every container -/

/-- Progress of the loop over the recorded origins of `x`, with `P` dropped. -/
structure Forced (off : Finset Addr) (extra : Addr → Nat) (x : Addr) (st : State)
    (P : Set (Addr × CStr)) (st' : State) : Prop where
  inv : Inv off extra {x} ∅ st'
  tracker : st'.tracker = st.tracker
  out : Outcome ∅ P st st'
  sub : P ⊆ {e | st.heldAt e = some x}

/-- One recorded origin; it may have been recorded, hence visited, before. -/
theorem Forced.remove (del : State → Addr → Except Fault State) {x : Addr} {P : Set (Addr × CStr)}
    (h : Forced off extra x st P st') {S : Addr} {k : CStr} (hh : st.held S k = some x) :
    ∃ st'', Prod.fst <$> rpcStructRemoveBy del st' S k = .ok st'' ∧
      Forced off extra x st (insert (S, k) P) st'' := by
  obtain ⟨e, he, ht⟩ := held_eq_some.1 hh
  obtain ⟨s, hs, hk⟩ := entry_eq_some.1 he
  obtain ⟨o', ho', hl⟩ := h.out.stay S _ (Set.notMem_empty S) (struct?_eq_some.1 hs)
  cases o' with
  | sizedbuf b => cases hl
  | function f => cases hl
  | struct s' =>
    have hs' := struct?_eq_some.2 ho'
    by_cases hP : (S, k) ∈ P
    · refine ⟨st', ?_, by rwa [Set.insert_eq_of_mem hP]⟩
      simp [rpcStructRemoveBy, hs', (hl.2.2 k).1 hP]
    · have hk' : s'.map.lookup k = some e := ((hl.2.2 k).2 hP).trans hk
      have hdead : st'.tracker.lookup x = none := h.inv.dead x rfl
      have hskip : untrackElementBy del st' S k e = .ok st' := by
        simp [untrackElementBy, ht, precDecrementBy, hdead]
      have hrun := removeBy_of_held hs' hk' hskip hs' hk'
      refine ⟨st'.setObj S (.struct { s' with map := s'.map.erase k }), by rw [hrun]; rfl,
        ⟨?_, h.tracker, h.out.drop hs' k, ?_⟩⟩
      · refine h.inv.dropEntry hs' (by simp) fun p hp => .inr ?_
        have : st'.held S k = some x :=
          held_eq_some.2 ⟨e, entry_eq_some.2 ⟨s', hs', hk'⟩, ht⟩
        rw [this] at hp
        exact (Option.some.inj hp).symm
      · exact Set.insert_subset hh h.sub

/-- The zero callback's loops take `x` out of every struct that holds it. -/
theorem forced_spec (del : State → Addr → Except Fault State) {x : Addr} {r : Prec} {c : PrecPtrCtx}
    (h : Inv off extra {x} ∅ st) (hctx : r.context = some c)
    (hmem : ∀ S k, S ∈ r.recorded k ↔ st.held S k = some x) :
    ∃ st1, (E.order st x c.keys.keys).foldlM (onzeroKeyBy del c) st = .ok st1 ∧
      Forced off extra x st {e | st.heldAt e = some x} st1 := by
  have hrec : ∀ k, r.recorded k = ((c.keys.lookup k).map PrecCtx.live).getD [] := fun k => by
    simp [Prec.recorded, hctx]
  have hinner : ∀ k st' P, Forced off extra x st P st' →
      ∃ st2, onzeroKeyBy del c st' k = .ok st2 ∧
        ∃ P', Forced off extra x st P' st2 ∧ P ⊆ P' ∧ ∀ S ∈ r.recorded k, (S, k) ∈ P' := by
    intro k st' P hF
    unfold onzeroKeyBy
    cases hl : c.keys.lookup k with
    | none => exact ⟨st', rfl, P, hF, subset_rfl, by simp [hrec, hl]⟩
    | some ctx =>
      have hlive : r.recorded k = ctx.live := by simp [hrec, hl]
      obtain ⟨st2, hok, P', hF', hsub, hall⟩ := foldlM_inv
        (f := fun st origin => Prod.fst <$> rpcStructRemoveBy del st origin k)
        (fun done s => ∃ P', Forced off extra x st P' s ∧ P ⊆ P' ∧ ∀ S ∈ done, (S, k) ∈ P')
        ctx.live [] st' ⟨P, hF, subset_rfl, by simp⟩ (by
          rintro done s S hS ⟨P', hF', hsub, hall⟩
          have hh := (hmem S k).1 (hlive ▸ hS)
          obtain ⟨s', hok, hF''⟩ := hF'.remove del hh
          refine ⟨s', hok, _, hF'', hsub.trans (Set.subset_insert _ _), fun S' hS' => ?_⟩
          rcases List.mem_cons.1 hS' with rfl | hS'
          · exact Set.mem_insert _ _
          · exact Set.mem_insert_of_mem _ (hall S' hS'))
      refine ⟨st2, hok, P', hF', hsub, fun S hS => hall S ?_⟩
      rw [hlive] at hS
      simpa using hS
  obtain ⟨st1, hok, P, hF, hall⟩ := foldlM_inv (f := onzeroKeyBy del c)
    (fun done s => ∃ P, Forced off extra x st P s ∧ ∀ k ∈ done, ∀ S ∈ r.recorded k, (S, k) ∈ P)
    (E.order st x c.keys.keys) [] st ⟨∅, ⟨h, rfl, .refl st, Set.empty_subset _⟩, by simp⟩ (by
      rintro done s k - ⟨P, hF, hall⟩
      obtain ⟨s', hok, P', hF', hsub, hk⟩ := hinner k s P hF
      refine ⟨s', hok, P', hF', fun k' hk' S hS => ?_⟩
      rcases List.mem_cons.1 hk' with rfl | hk'
      · exact hk S hS
      · exact hsub (hall k' hk' S hS))
  have hP : P = {e | st.heldAt e = some x} := by
    refine Set.Subset.antisymm hF.sub ?_
    rintro ⟨S, k⟩ hh
    have hS := (hmem S k).2 hh
    refine hall k ?_ S hS
    rw [List.append_nil, List.mem_reverse, (E.order_perm ..).mem_iff]
    rw [hrec] at hS
    cases hl : c.keys.lookup k with
    | none => simp [hl] at hS
    | some ctx => exact Table.mem_keys_iff.2 ⟨ctx, hl⟩
  exact ⟨st1, hok, hP ▸ hF⟩

/-! ## Everything the operation orphans is gone -/

/-- A released object that nothing names any more leaves the set `D`. -/
theorem Inv.forget {p : Addr} (h : Inv off extra (insert p D) ∅ st)
    (hold : ∀ S k, st.held S k ≠ some p) : Inv off extra D ∅ st := by
  have hempty : st.holders p = ∅ := by
    refine Finset.eq_empty_iff_forall_notMem.2 ?_
    rintro ⟨S, k⟩ hm
    exact hold S k (mem_holders.1 hm)
  refine ⟨h.null, fun q hq => h.dead q (.inr hq), ?_, ?_, h.tracked⟩
  · intro S k e q he ht hq hQ
    refine h.typed S k e q he ht ?_ hQ
    rintro (rfl | hc)
    · exact hold S k (held_eq_some.2 ⟨e, he, ht⟩)
    · exact hq hc
  · intro q hq hr
    by_cases hqp : q = p
    · rw [hqp, hempty]; rfl
    · exact h.untracked q (by rintro (hc | hc); exacts [hqp hc, hq hc]) hr

theorem Inv.under_release (h : Inv off extra ∅ ∅ st) {p : Addr} (hr : st.tracker.lookup p = none) :
    Inv off extra {p} ∅ st :=
  ⟨h.null, by rintro q rfl; exact hr,
    fun S k e q he ht _ hQ => h.typed S k e q he ht (Set.notMem_empty _) hQ,
    fun q _ => h.untracked q (Set.notMem_empty _), h.tracked⟩

/-- Reference counts that are exact at both ends leave nothing unreferenced
alive. -/
theorem reclaimed_gone {root : Set Addr} {cut : Set (Addr × CStr)} (h : Inv off extra ∅ ∅ st)
    (h' : Inv off extra ∅ ∅ st') (hroot : ∀ a ∈ root, st'.heap.lookup a = none)
    (hfewer : ∀ S k q, st'.held S k = some q → st.held S k = some q ∧ (S, k) ∉ cut)
    (hkept : ∀ q r, q ∉ root → q ∉ off → st.tracker.lookup q = some r →
      st'.tracker.lookup q = none → st'.heap.lookup q = none)
    {a : Addr} (ha : Reclaimed Prod.fst st.heldAt {q | 0 < raised off extra q} root cut a) :
    st'.heap.lookup a = none := by
  refine Ownership.reclaimed_subset (X := {a | st'.heap.lookup a = none}) ?_ hroot ha
  rintro q ⟨S, k⟩ hpin hheld hall
  rw [Set.mem_ofPred_eq, raised_pos, not_or] at hpin
  obtain ⟨hoff, hpin⟩ := hpin
  by_cases hq : q ∈ root
  · exact hroot q hq
  obtain ⟨r, o, hr, -, -⟩ := h.tracked_of_held (Set.notMem_empty q) hheld
  cases hr' : st'.tracker.lookup q with
  | none => exact hkept q r hq hoff hr hr'
  | some r' =>
    -- a record counts some entry, whose struct would be alive
    exfalso
    obtain ⟨hpos, o', ho', hrec⟩ := h'.tracked q r' hr'
    have hx : extra q = 0 := Nat.eq_zero_of_not_pos hpin
    have hcard := hrec.count
    rw [Finset.sdiff_empty] at hcard
    obtain ⟨⟨S', k'⟩, hm⟩ := Finset.card_pos.1 (show 0 < (st'.holders q).card by omega)
    have hm' := mem_holders.1 hm
    obtain ⟨hst, hcut⟩ := hfewer S' k' q hm'
    have hnone := hall (S', k') hst hcut
    obtain ⟨e, he, -⟩ := held_eq_some.1 hm'
    obtain ⟨s, hs, -⟩ := entry_eq_some.1 he
    have hlive := struct?_eq_some.1 hs
    rw [show st'.heap.lookup S' = none from hnone] at hlive
    cases hlive

/-! ## Release -/

/-- The second half of a release: the object is under release and no entry
names it. -/
theorem release_all {X : Set Addr} {x : Addr} {o : Obj} {n : Nat} (h : Inv off extra {x} ∅ st)
    (hold : ∀ S k, st.held S k ≠ some x) (ho : st.heap.lookup x = some o)
    (hn : st.tracker.keys.length ≤ n) (hX : Closed Prod.fst st.heldAt {q | 0 < raised off extra q} ∅ X)
    (hx : x ∈ X) :
    ∃ st', releaseBy E (precDelete E n) o st x = .ok st' ∧ Inv off extra ∅ ∅ st' ∧
      st'.heap.lookup x = none ∧ (∀ a, a ∉ X → st'.heap.lookup a = st.heap.lookup a) ∧
      (∀ S k e, st'.entry S k = some e → st.entry S k = some e) ∧
      ∀ q r, st.tracker.lookup q = some r → st'.tracker.lookup q = none →
        st'.heap.lookup q = none ∨ q ∈ off ∧ extra q = 0 := by
  have hc : Casc off extra X st {x} ∅ st :=
    ⟨h, by simpa using hx, fun _ _ => rfl, fun _ _ _ h => h,
      fun q r h1 h2 => by rw [h1] at h2; cases h2⟩
  obtain ⟨st', hok, hc', -, hgone⟩ := release_spec (E := E) (precDelete_spec E hX n) hX hc hn rfl ho
  refine ⟨st', hok, ?_, hgone, hc'.same, hc'.fewer, fun q r h1 h2 => ?_⟩
  · refine Inv.forget (p := x) (D := ∅) (by simpa using hc'.inv) fun S k hh => ?_
    obtain ⟨e, he, ht⟩ := held_eq_some.1 hh
    exact hold S k (held_eq_some.2 ⟨e, hc'.fewer S k e he, ht⟩)
  · rcases hc'.kept q r h1 h2 with rfl | hnone | hoff
    · exact .inl hgone
    · exact .inl hnone
    · exact .inr hoff

/-- An untracked object goes straight to its release. -/
theorem rpcFree_untracked {x : Addr} {o : Obj} (hx : x ≠ 0) (hr : st.tracker.lookup x = none) :
    rpcFree E o.type st x = releaseBy E (precDelete E st.fuel) o st x := by
  cases o <;>
    simp [rpcFree, Obj.type, rpcStructFree, rpcStructFreeBy, rpcSizedbufFree, rpcSizedbufFreeBy,
      rpcFunctionFree, rpcFunctionFreeBy, freeBy, hx, hr, releaseBy]

theorem rpcFree_tracked {x : Addr} {o : Obj} {r : Prec} (hx : x ≠ 0)
    (hr : st.tracker.lookup x = some r) :
    rpcFree E o.type st x = precDelete E st.fuel st x := by
  cases o <;>
    simp [rpcFree, Obj.type, rpcStructFree, rpcStructFreeBy, rpcSizedbufFree, rpcSizedbufFreeBy,
      rpcFunctionFree, rpcFunctionFreeBy, freeBy, hx, hr]

/-- What `rpcFree` releases. -/
def State.reclaimed (st : State) (extra : Addr → Nat) (root : Set Addr) (cut : Set (Addr × CStr)) :
    Set Addr := {a | Reclaimed Prod.fst st.heldAt {q | 0 < extra q} root cut a}

/-- Freeing a live object succeeds, and leaves exactly the survivors, with their records
if the callback is on or references are left. -/
theorem free_records (E : Env) (h : Inv off extra ∅ ∅ st) {x : Addr} {o : Obj}
    (ho : st.heap.lookup x = some o) (hoff : x ∉ off) :
    ∃ st', rpcFree E o.type st x = .ok st' ∧ Inv off extra ∅ ∅ st' ∧
      Outcome (st.reclaimed (raised off extra) {x} ∅) {e | st.heldAt e = some x} st st' ∧
      ∀ q r, q ≠ x → st.tracker.lookup q = some r → st'.tracker.lookup q = none →
        st'.heap.lookup q = none ∨ q ∈ off ∧ extra q = 0 := by
  have hx0 : x ≠ 0 := by rintro rfl; rw [h.null] at ho; cases ho
  have hxX : x ∈ st.reclaimed (raised off extra) {x} ∅ := .root rfl
  have hX : Closed Prod.fst st.heldAt {q | 0 < raised off extra q} ∅ (st.reclaimed (raised off extra) {x} ∅) :=
    Ownership.closed_reclaimed
  -- after the forced half: `st1`, from which the release runs
  have hfinish : ∀ (n : Nat) (st1 : State) (o1 : Obj), Forced off extra x (st.delPrec x)
      {e | st.heldAt e = some x} st1 → st1.heap.lookup x = some o1 →
      st1.tracker.keys.length ≤ n →
      ∃ st', releaseBy E (precDelete E n) o1 st1 x = .ok st' ∧ Inv off extra ∅ ∅ st' ∧
        Outcome (st.reclaimed (raised off extra) {x} ∅) {e | st.heldAt e = some x} st st' ∧
        ∀ q r, q ≠ x → st.tracker.lookup q = some r → st'.tracker.lookup q = none →
          st'.heap.lookup q = none ∨ q ∈ off ∧ extra q = 0 := by
    intro n st1 o1 hF ho1 hn
    have hentry := hF.out.entry
    have hheld : ∀ S k, st.held S k ≠ some x → st1.held S k = st.held S k := by
      intro S k hne
      unfold held
      rw [(hentry S k).2 hne]; rfl
    have hnox : ∀ S k, st1.held S k ≠ some x := by
      intro S k hc
      by_cases hh : st.held S k = some x
      · simp [held, (hentry S k).1 hh] at hc
      · rw [hheld S k hh] at hc; exact hh hc
    have hX1 : Closed Prod.fst st1.heldAt {q | 0 < raised off extra q} ∅ (st.reclaimed (raised off extra) {x} ∅) := by
      refine hX.congr (show ({x} : Set Addr) ⊆ _ by simpa using hxX) ?_
      rintro ⟨S, k⟩ a ha
      by_cases hh : st.held S k = some x
      · have h1 : st1.held S k = none := by simp [held, (hentry S k).1 hh]
        simp only [heldAt, h1, hh]
        exact ⟨(fun hc => by cases hc), fun hc => absurd (Option.some.inj hc).symm ha⟩
      · simp only [heldAt, hheld S k hh]
    obtain ⟨st', hok, hinv, hgone, hsame, hfewer, hkept⟩ :=
      release_all (E := E) hF.inv hnox ho1 hn hX1 hxX
    have hfewer' : ∀ S k q, st'.held S k = some q → st.held S k = some q := by
      intro S k q hh
      obtain ⟨e, he, ht⟩ := held_eq_some.1 hh
      have h1 := held_eq_some.2 ⟨e, hfewer S k e he, ht⟩
      by_cases hc : st.held S k = some x
      · simp [held, (hentry S k).1 hc] at h1
      · rwa [hheld S k hc] at h1
    have hrecords : ∀ q r, q ≠ x → st.tracker.lookup q = some r → st'.tracker.lookup q = none →
        st'.heap.lookup q = none ∨ q ∈ off ∧ extra q = 0 := by
      intro q r hq hr hr'
      refine hkept q r ?_ hr'
      rw [hF.tracker, lookup_delPrec, if_neg hq]
      exact hr
    have hall : ∀ a, a ∈ st.reclaimed (raised off extra) {x} ∅ → st'.heap.lookup a = none := by
      intro a ha
      refine reclaimed_gone h hinv (by rintro a rfl; exact hgone)
        (fun S k q hh => ⟨hfewer' S k q hh, Set.notMem_empty _⟩) (fun q r hq hqoff hr hr' => ?_) ha
      exact (hrecords q r (Set.notMem_singleton_iff.1 hq) hr hr').resolve_right fun h => hqoff h.1
    refine ⟨st', hok, hinv, ⟨hall, ?_, ?_⟩, hrecords⟩
    · intro a ha
      by_cases haX : a ∈ st.reclaimed (raised off extra) {x} ∅
      · exact hall a haX
      · rw [hsame a haX]; exact hF.out.fresh a ha
    · intro a o ha ho
      rw [hsame a ha]
      exact hF.out.stay a o (Set.notMem_empty a) ho
  cases hr : st.tracker.lookup x with
  | none =>
    have hF : Forced off extra x (st.delPrec x) {e | st.heldAt e = some x} st := by
      have hempty : {e | st.heldAt e = some x} = ∅ := by
        refine Set.eq_empty_iff_forall_notMem.2 ?_
        rintro ⟨S, k⟩ hh
        obtain ⟨r, -, hr', -⟩ := h.tracked_of_held (Set.notMem_empty x) hh
        rw [hr] at hr'; cases hr'
      have htr : st.delPrec x = st := by
        unfold delPrec
        rw [Table.erase_of_lookup_none hr]
      rw [hempty, htr]
      exact ⟨h.under_release hr, rfl, .refl st, Set.empty_subset _⟩
    obtain ⟨st', hok, h'⟩ := hfinish st.fuel st o hF ho (Nat.le_refl _)
    exact ⟨st', by rw [rpcFree_untracked hx0 hr, hok], h'⟩
  | some r =>
    obtain ⟨-, o', ho', hrec⟩ := h.tracked x r hr
    rw [ho] at ho'; cases ho'
    rw [Finset.sdiff_empty] at hrec
    rw [callbackType_of_notMem hoff] at hrec
    obtain ⟨c, hctx, hfree, -⟩ := hrec.ctx
    have hinv1 : Inv off extra {x} ∅ (st.delPrec x) := by
      have hdel : Inv off extra (insert x ∅) ∅ (st.delPrec x) :=
        h.delPrec x rfl fun q => lookup_delPrec x q
      simpa using hdel
    obtain ⟨m, hm⟩ : ∃ m, st.fuel = m + 1 :=
      Nat.exists_eq_succ_of_ne_zero
        (List.length_pos_of_mem (Table.mem_keys_iff.2 ⟨r, hr⟩)).ne'
    obtain ⟨st1, hloop, hF⟩ := forced_spec (E := E) (precDelete E m) hinv1 hctx
      fun S k => by rw [hrec.mem, mem_holders]; rfl
    obtain ⟨o1, ho1, hl⟩ := hF.out.stay x o (Set.notMem_empty x) ho
    have hcount : st1.tracker.keys.length ≤ m := by
      have := Table.length_keys_erase_lt hr
      rw [hF.tracker]
      unfold fuel at hm
      simp only [delPrec]
      omega
    obtain ⟨st', hok, h'⟩ := hfinish m st1 o1 hF ho1 hcount
    refine ⟨st', ?_, h'⟩
    rw [rpcFree_tracked hx0 hr, hm]
    simp only [precDelete, hr, rpcStructOnzeroCbBy, hctx, hloop, bind, Except.bind]
    rw [precCtxDestroy_eq (o := o1) hx0 (hF.inv.dead x rfl) (by rw [hl.type]; exact hfree), hok]

theorem free_spec (E : Env) (h : Inv off extra ∅ ∅ st) {x : Addr} {o : Obj}
    (ho : st.heap.lookup x = some o) (hoff : x ∉ off) :
    ∃ st', rpcFree E o.type st x = .ok st' ∧ Inv off extra ∅ ∅ st' ∧
      Outcome (st.reclaimed (raised off extra) {x} ∅) {e | st.heldAt e = some x} st st' := by
  obtain ⟨st', hok, hinv, hout, -⟩ := free_records E h ho hoff
  exact ⟨st', hok, hinv, hout⟩

/-! ## Removal -/

/-- Removing a key succeeds unless the cascade reaches the struct itself. -/
theorem remove_top_spec (E : Env) (h : Inv off extra ∅ ∅ st) {S : Addr} {s : RpcStruct}
    (hs : st.struct? S = some s) (k : CStr) (hS : S ∉ st.reclaimed (raised off extra) ∅ {(S, k)}) :
    ∃ st', rpcStructRemove E st S k = .ok (st', if s.map.lookup k = none then 1 else 0) ∧
      Inv off extra ∅ ∅ st' ∧ Outcome (st.reclaimed (raised off extra) ∅ {(S, k)}) {(S, k)} st st' := by
  have hX : Closed Prod.fst st.heldAt {q | 0 < raised off extra q} {(S, k)}
      (st.reclaimed (raised off extra) ∅ {(S, k)}) := Ownership.closed_reclaimed
  cases he : s.map.lookup k with
  | none =>
    have hno : st.entry S k = none := by rw [entry_of_struct hs, he]
    have hall : ∀ a, a ∈ st.reclaimed (raised off extra) ∅ {(S, k)} → st.heap.lookup a = none := by
      intro a ha
      refine reclaimed_gone h h (by simp) (fun S' k' q hh => ⟨hh, ?_⟩)
        (fun q r _ _ h1 h2 => by rw [h1] at h2; cases h2) ha
      rintro ⟨⟩
      simp [held, hno] at hh
    refine ⟨st, by simp [rpcStructRemove, rpcStructRemoveBy, hs, he], h, hall, fun a ha => ha, ?_⟩
    intro a o _ ho
    refine ⟨o, ho, ?_⟩
    cases o with
    | struct s' =>
      refine ⟨rfl, rfl, fun k' => ⟨fun hk => ?_, fun _ => rfl⟩⟩
      obtain ⟨rfl, rfl⟩ := Prod.mk.inj (Set.mem_singleton_iff.1 hk)
      rw [struct?_eq_some.1 hs] at ho
      cases ho; exact he
    | sizedbuf b => rfl
    | function f => rfl
  | some e =>
    have hentry : st.entry S k = some e := by rw [entry_of_struct hs, he]
    have hc : Casc off extra (st.reclaimed (raised off extra) ∅ {(S, k)}) st ∅ ∅ st :=
      ⟨h, Set.empty_subset _, fun _ _ => rfl, fun _ _ _ h => h,
        fun q r h1 h2 => by rw [h1] at h2; cases h2⟩
    obtain ⟨st1, Q, h1, hc1, hQ, hk, haft⟩ : ∃ st1 Q,
        untrackElementBy (precDelete E st.fuel) st S k e = .ok st1 ∧
        Casc off extra (st.reclaimed (raised off extra) ∅ {(S, k)}) st ∅ Q st1 ∧ Q ⊆ {(S, k)} ∧
        (∀ p, st.held S k = some p → (S, k) ∈ Q) ∧ After ∅ st st1 := by
      unfold untrackElementBy
      cases ht : e.target with
      | none =>
        refine ⟨st, ∅, rfl, hc, by simp, fun p hp => ?_, .refl ∅ st⟩
        simp [held, hentry, ht] at hp
      | some p =>
        obtain ⟨st1, Q, h1, hc1, hQ, hk, haft, -⟩ := decrement_spec (precDelete_spec E hX st.fuel)
          hX hc (Nat.le_refl _) (.inr ⟨hS, rfl⟩) (held_eq_some.2 ⟨e, hentry, ht⟩)
        exact ⟨st1, Q, h1, hc1, hQ, fun _ _ => hk.resolve_right (Set.notMem_empty p), haft⟩
    have hs1 : st1.struct? S = some s := (struct?_congr (hc1.same S hS)).trans hs
    have hinv : Inv off extra ∅ ∅ (st1.setObj S (.struct { s with map := s.map.erase k })) :=
      hc1.inv.dropEntry hs1 hQ fun p hp => .inl (hk p
        ((held_congr (hc1.same S hS) k).symm.trans hp))
    have hall : ∀ a, a ∈ st.reclaimed (raised off extra) ∅ {(S, k)} →
        (st1.setObj S (.struct { s with map := s.map.erase k })).heap.lookup a = none := by
      intro a ha
      refine reclaimed_gone h hinv (by simp) (fun S' k' q hh => ?_) (fun q r _ hqoff hr hr' => ?_) ha
      · rw [held_dropEntry hs1] at hh
        split at hh
        · cases hh
        · rename_i hne
          obtain ⟨e', he', ht'⟩ := held_eq_some.1 hh
          exact ⟨held_eq_some.2 ⟨e', hc1.fewer S' k' e' he', ht'⟩, fun hc => hne (by simpa using hc)⟩
      · have hgone := ((hc1.kept q r hr hr').resolve_left (Set.notMem_empty q)).resolve_right
          fun h => hqoff h.1
        rw [lookup_setObj, if_neg]
        · exact hgone
        · rintro rfl
          rw [struct?_eq_some.1 hs1] at hgone; cases hgone
    refine ⟨st1.setObj S (.struct { s with map := s.map.erase k }), ?_, hinv, hall, ?_, ?_⟩
    · exact removeBy_of_held hs he h1 hs1 he
    · intro a ha
      by_cases haX : a ∈ st.reclaimed (raised off extra) ∅ {(S, k)}
      · exact hall a haX
      · rw [lookup_setObj, if_neg, hc1.same a haX]
        · exact ha
        · rintro rfl
          rw [struct?_eq_some, ha] at hs; cases hs
    · intro a o ha ho
      have hout : Outcome ∅ ∅ st1 st1 := .refl st1
      obtain ⟨o', ho', hl⟩ := (hout.drop hs1 k).stay a o (Set.notMem_empty a) (by rw [hc1.same a ha, ho])
      exact ⟨o', ho', by simpa using hl⟩

end

end FfiRpc
