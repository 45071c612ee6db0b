import FfiRpc.Store.Beside
import FfiRpc.Store.DeepApi

/-!
# The original of a copy

A copy notes the address of the struct it was made from, and `rpc_struct_whose_copy` returns
that address as long as some object there has a record. `traced` adds to a run what the store
does not keep: when each object was made, and of which object, made when, it is a copy.

`whoseCopy_iff`: the answers are right as long as no call gives a first record to an object
that is younger than a struct noting its address, and wrong after the first that does.
`whoseCopy_reused`: the address of a freed original goes to another struct, which is
then returned as the original.
-/
namespace FfiRpc

open State

instance (st st' : State) (a : Addr) : Decidable (st.New st' a) :=
  decidable_of_iff (st.heap.lookup a = none ∧ (st'.heap.lookup a).isSome = true) (by
    rw [Option.isSome_iff_exists]
    exact Iff.rfl)

/-- The store and its history. -/
structure Traced where
  store : State
  now : Nat
  birth : Addr → Nat
  origin : Addr → Set (Addr × Nat)

/-- The call makes `c` as a copy of `p`. -/
def FullOp.Copies (args : ArgOrder) (E : Env) (st : State) : FullOp → Addr → Addr → Prop
  | .call (.copy o), _, p => p = o
  | .deepCopy o, c, p => ∃ st' c0, DeepCopiesTo E args st o st' c0 ∧ Twin st' o c0 p c
  | _, _, _ => False

/-- The history of the objects made by a call. -/
def Traced.after (s : Traced) (st' : State) (copies : Addr → Addr → Prop) : Traced where
  store := st'
  now := s.now + 1
  birth a := if s.store.New st' a then s.now else s.birth a
  origin a := if s.store.New st' a then {x | copies a x.1 ∧ x.2 = s.birth x.1} else s.origin a

def traced (args : ArgOrder) : LTS Traced (Env × FullOp) where
  init s := s = ⟨.empty, 0, fun _ => 0, fun _ => ∅⟩
  step s a s' := ∃ st', FullStep args s.store a st' ∧
    s' = s.after st' (a.2.Copies args a.1 s.store)

/-- An object that the call gives its first record is not younger than a struct that notes
its address. -/
def Timely (args : ArgOrder) (s : Traced) (a : Env × FullOp) : Prop :=
  ∀ s', (traced args).step s a s' → ∀ c t, s'.store.struct? c = some t →
    s.store.tracker.lookup t.copyof = none → s'.store.tracker.lookup t.copyof ≠ none →
    s'.birth t.copyof ≤ s'.birth c

/-- `rpc_struct_whose_copy` returns the struct that `c` was copied from. -/
def WhoseLaw (s : Traced) : Prop :=
  ∀ c st' p, rpcStructWhoseCopy s.store c = .ok (st', p) → p ≠ 0 →
    s.origin c = {(p, s.birth p)} ∧ ∃ t, s.store.struct? p = some t

/-! ## What a step does -/

/-- Objects keep their type, and the note of their original until it is cleared; a new
struct notes what it was copied from. -/
structure Traces (copies : Addr → Addr → Prop) (st st' : State) : Prop where
  kept : ∀ a o o', st.heap.lookup a = some o → st'.heap.lookup a = some o' →
    o'.type = o.type ∧ (o'.copyof = o.copyof ∨ o'.copyof = 0)
  copied : ∀ c t, st.New st' c → st'.struct? c = some t → t.copyof ≠ 0 →
    (∃ s, st.struct? t.copyof = some s) ∧ ∀ p, copies c p ↔ p = t.copyof

section
variable {args : ArgOrder} {st st' : State}

theorem Lives.kept {R : Set Addr} (h : Lives R st st') {a : Addr} {o o' : Obj}
    (ho : st.heap.lookup a = some o) (ho' : st'.heap.lookup a = some o') :
    o'.type = o.type ∧ (o'.copyof = o.copyof ∨ o'.copyof = 0) := by
  have hR : a ∉ R := fun hR => by
    rw [h.gone a hR] at ho'
    cases ho'
  obtain ⟨x, hx, hty, hof⟩ := h.stay a o hR ho
  rw [ho'] at hx
  cases hx
  exact ⟨hty, .inl hof⟩

/-- Nothing is new where only a live object changed. -/
theorem not_new_of_update {b : Addr} {x : Obj} (hb : st.heap.lookup b = some x)
    (h : ∀ a, a ≠ b → st'.heap.lookup a = st.heap.lookup a) (a : Addr) : ¬ st.New st' a := by
  intro ha
  obtain ⟨hnone, o, ho⟩ := ha
  by_cases hab : a = b
  · rw [hab, hb] at hnone
    cases hnone
  · rw [h a hab, hnone] at ho
    cases ho

theorem new_create {E : Env} {o : Obj} {c : Addr} {t : RpcStruct}
    (hc : st.New (st.setObj (E.malloc st) o) c)
    (ht : (st.setObj (E.malloc st) o).struct? c = some t) : o = .struct t := by
  obtain ⟨hnone, -⟩ := hc
  rw [struct?_eq_some, lookup_setObj] at ht
  split at ht
  · exact Option.some.inj ht
  · rw [hnone] at ht
    cases ht

theorem not_new_of_function {fn : Addr} {g : RpcFunction → RpcFunction}
    (hok : onFunction st fn g = .ok st') (a : Addr) : ¬ st.New st' a := by
  unfold onFunction at hok
  split at hok
  · rename_i f hf
    cases hok
    exact not_new_of_update hf (fun b hb => by rw [lookup_setObj, if_neg hb]) a
  · cases hok

theorem not_new_of_idSet {S : Addr} {ID : CStr} (hok : rpcStructIdSet st S ID = .ok st') (a : Addr) :
    ¬ st.New st' a := by
  unfold rpcStructIdSet at hok
  split at hok
  · cases hok
  · rename_i s hs
    split at hok
    · cases hok
    · cases hok
      exact not_new_of_update (struct?_eq_some.1 hs)
        (fun b hb => by rw [lookup_setObj, if_neg hb]) a

theorem not_new_of_outcome {R : Set Addr} {P : Set (Addr × CStr)} (hout : Outcome R P st st')
    (a : Addr) : ¬ st.New st' a := by
  intro ha
  obtain ⟨hnone, o, ho⟩ := ha
  rw [hout.fresh a hnone] at ho
  cases ho

/-- A new struct notes the original of the copy that made it. -/
theorem Op.new_copyof {E : Env} {op : Op} (h : WF st) (hl : op.Legal st) (hok : op.run E st = .ok st')
    {c : Addr} {t : RpcStruct} (hc : st.New st' c) (ht : st'.struct? c = some t) :
    t.copyof = 0 ∨ op = .copy t.copyof ∧ ∃ s, st.struct? t.copyof = some s := by
  cases op with
  | structCreate =>
    cases hok
    cases new_create hc ht
    exact .inl rfl
  | sizedbufCreate buf =>
    cases hok
    cases new_create hc ht
  | functionCreate =>
    cases hok
    cases new_create hc ht
  | set S k e =>
    obtain ⟨⟨s, hs⟩, -⟩ := hl
    rcases set_changes hs hok with hsame | hset
    · rw [hsame] at hc
      exact absurd hc (not_new_of_update (struct?_eq_some.1 hs) (fun _ _ => rfl) c)
    · exact absurd hc (not_new_of_update (struct?_eq_some.1 hs) hset.1 c)
  | remove S k =>
    obtain ⟨⟨s, hs⟩, hS⟩ := hl
    obtain ⟨st2, hok2, -, hout⟩ := remove_top_spec E h.inv hs k hS
    simp only [Op.run, hok2] at hok
    cases hok
    exact absurd hc (not_new_of_outcome hout c)
  | free ty x =>
    obtain ⟨o, ho, rfl⟩ := hl
    obtain ⟨st2, hok2, -, hout⟩ := free_spec E h.inv ho (Finset.notMem_empty x)
    simp only [Op.run, hok2] at hok
    cases hok
    exact absurd hc (not_new_of_outcome hout c)
  | idSet S ID => exact absurd hc (not_new_of_idSet hok c)
  | setPrototype fn p => exact absurd hc (not_new_of_function hok c)
  | setReturnType fn ty => exact absurd hc (not_new_of_function hok c)
  | setFnptr fn a => exact absurd hc (not_new_of_function hok c)
  | copy o =>
    obtain ⟨s, hs⟩ := hl
    obtain ⟨st2, c2, hok2, -, -, hcopied⟩ := copy_spec E h.inv h.stored hs
    simp only [Op.run, hok2] at hok
    cases hok
    obtain ⟨t', ht', hof, -⟩ := hcopied.map
    have hcc : c = c2 := by
      by_contra hne
      obtain ⟨hnone, x, hx⟩ := hc
      rw [hcopied.frame c hne, hnone] at hx
      cases hx
    rw [hcc, ht'] at ht
    cases ht
    exact .inr ⟨by rw [hof], s, by rw [hof, hs]⟩

theorem FullStep.traces {E : Env} {op : FullOp} (h : FullInv st) (hst : FullStep args st (E, op) st') :
    Traces (op.Copies args E st) st st' := by
  cases hst with
  | @call _ op _ hl ht hok =>
    refine ⟨fun a o o' ho ho' => (op.lives E h.wf hl hok).kept ho ho', fun c t hc ht h0 => ?_⟩
    rcases Op.new_copyof h.wf hl hok hc ht with hzero | hcopy
    · exact absurd hzero h0
    · obtain ⟨hop, hlive⟩ := hcopy
      refine ⟨hlive, fun p => ?_⟩
      rw [hop]
      exact Iff.rfl
  | @deepCopy _ S s _ c0 hs hacyclic hok =>
    obtain ⟨hgrove, hitem⟩ := h.deepCopy hs hacyclic hok
    refine ⟨fun a o o' ho ho' => ?_, fun c t hc ht _ => ?_⟩
    · rw [hgrove.ext.heap a o ho] at ho'
      cases ho'
      exact ⟨rfl, .inl rfl⟩
    · obtain ⟨r, hr, hb⟩ := hgrove.hangs c hc
      rw [Set.mem_singleton_iff.1 hr] at hb
      have hof : ∀ p, Twin st' S c0 p c → p = t.copyof ∧ ∃ s, st.struct? p = some s := by
        intro p hp
        obtain ⟨s1, m, -, hlive, hs1, hm, -, hof, -⟩ := (hitem.twin hp).struct_inv
        rw [ht] at hm
        cases hm
        obtain ⟨o, ho⟩ := hlive
        have hsame := hgrove.ext.heap p o ho
        rw [struct?_eq_some.1 hs1] at hsame
        cases hsame
        exact ⟨hof.symm, s1, struct?_eq_some.2 ho⟩
      obtain ⟨p, hp⟩ := hitem.exists_twin hgrove.wf hb ht
      have hpc := hof p hp
      refine ⟨hpc.1 ▸ hpc.2, fun q => ⟨fun hq => ?_, fun hq => ?_⟩⟩
      · obtain ⟨st2, c2, hok2, htwin⟩ := hq
        obtain ⟨rfl, rfl⟩ := hok.unique hok2
        exact (hof q htwin).1
      · rw [hq, ← hpc.1]
        exact ⟨st', c0, hok, hp⟩
  | @whoseCopy _ S s _ p hs hok =>
    rcases whoseCopy_cases hs hok with hcase | hcase
    · rw [hcase.1]
      refine ⟨fun a o o' ho ho' => ?_, fun c t hc => ?_⟩
      · rw [ho] at ho'
        cases ho'
        exact ⟨rfl, .inl rfl⟩
      · exact absurd hc (not_new_of_update (struct?_eq_some.1 hs) (fun _ _ => rfl) c)
    · rw [hcase.1]
      refine ⟨fun a o o' ho ho' => ?_, fun c t hc => ?_⟩
      · rw [lookup_setObj] at ho'
        split at ho'
        · rename_i haS
          rw [haS, struct?_eq_some.1 hs] at ho
          cases ho
          cases ho'
          exact ⟨rfl, .inr rfl⟩
        · rw [ho] at ho'
          cases ho'
          exact ⟨rfl, .inl rfl⟩
      · exact absurd hc (not_new_of_update (struct?_eq_some.1 hs)
          (fun b hb => by rw [lookup_setObj, if_neg hb]) c)

/-- The environment and the call determine what happens. -/
theorem FullStep.unique {a : Env × FullOp} {st1 st2 : State} (h1 : FullStep args st a st1)
    (h2 : FullStep args st a st2) : st2 = st1 := by
  cases h1 with
  | call _ _ hok =>
    cases h2 with
    | call _ _ hok2 =>
      rw [hok] at hok2
      exact (Except.ok.inj hok2).symm
  | deepCopy _ _ hok =>
    cases h2 with
    | deepCopy _ _ hok2 => exact (hok.unique hok2).1
  | whoseCopy _ hok =>
    cases h2 with
    | whoseCopy _ hok2 =>
      rw [hok] at hok2
      exact (Prod.mk.inj (Except.ok.inj hok2)).1.symm

end

/-! ## Runs -/

/-- Whatever addresses the allocator returns: a struct notes the address of an object that
was there before it, and it is still that one unless it is younger than the struct. -/
structure TraceInv (s : Traced) : Prop where
  full : FullInv s.store
  past : ∀ a o, s.store.heap.lookup a = some o → s.birth a < s.now
  noted : ∀ c t, s.store.struct? c = some t → t.copyof ≠ 0 →
    ∃ n, s.origin c = {(t.copyof, n)} ∧ n < s.birth c ∧
      ∀ o, s.store.heap.lookup t.copyof = some o → s.birth t.copyof ≤ s.birth c →
        s.birth t.copyof = n ∧ o.type = .struct

/-- No object with a record is younger than a struct that notes its address. -/
def Dated (s : Traced) : Prop :=
  ∀ c t, s.store.struct? c = some t → s.store.tracker.lookup t.copyof ≠ none →
    s.birth t.copyof ≤ s.birth c

section
variable {args : ArgOrder} {s s' : Traced}

theorem FullInv.live_of_tracked {st : State} (h : FullInv st) {p : Addr}
    (hp : st.tracker.lookup p ≠ none) : ∃ o, st.heap.lookup p = some o := by
  cases ho : st.heap.lookup p with
  | none => exact absurd (h.wf.dead_untracked ho) hp
  | some o => exact ⟨o, rfl⟩

theorem FullInv.null (h : FullInv s.store) {p : Addr} (hp : s.store.tracker.lookup p ≠ none) :
    p ≠ 0 := by
  intro h0
  obtain ⟨o, ho⟩ := h.live_of_tracked hp
  rw [h0, h.wf.inv.null] at ho
  cases ho

theorem Obj.struct_of_type {st : State} {a : Addr} {o : Obj} (ho : st.heap.lookup a = some o)
    (hty : o.type = .struct) : ∃ t, st.struct? a = some t := by
  cases o with
  | struct t => exact ⟨t, struct?_eq_some.2 ho⟩
  | _ => cases hty

theorem TraceInv.law_iff (h : TraceInv s) : WhoseLaw s ↔ Dated s := by
  constructor
  · intro hlaw c t ht hr
    have h0 := h.full.null hr
    have hok : rpcStructWhoseCopy s.store c = .ok (s.store, t.copyof) := by
      simp only [rpcStructWhoseCopy, ht]
      rw [if_neg h0]
      split
      · rename_i hnone
        exact absurd hnone hr
      · rfl
    obtain ⟨n, horigin, hn, -⟩ := h.noted c t ht h0
    rw [(hlaw c _ _ hok h0).1, Set.singleton_eq_singleton_iff] at horigin
    rw [(Prod.mk.inj horigin).2]
    exact hn.le
  · intro hdated c st' p hok h0
    cases ht : s.store.struct? c with
    | none =>
      simp only [rpcStructWhoseCopy, ht] at hok
      cases hok
    | some t =>
      rcases whoseCopy_cases ht hok with hcase | hcase
      · obtain ⟨-, hp, htracked⟩ := hcase
        obtain ⟨r, hr⟩ := htracked h0
        rw [hp] at hr h0 ⊢
        have hrec : s.store.tracker.lookup t.copyof ≠ none := by
          rw [hr]
          exact Option.some_ne_none r
        obtain ⟨o, ho⟩ := h.full.live_of_tracked hrec
        obtain ⟨n, horigin, -, hsame⟩ := h.noted c t ht h0
        obtain ⟨hbirth, hty⟩ := hsame o ho (hdated c t ht hrec)
        rw [hbirth]
        exact ⟨horigin, Obj.struct_of_type ho hty⟩
      · exact absurd hcase.2 h0

/-! ### One step -/

/-- A struct after a step is new, or was there with the same note unless that is cleared. -/
theorem Traces.back {copies : Addr → Addr → Prop} {st st' : State} (h : Traces copies st st')
    {c : Addr} {t : RpcStruct} (ht : st'.struct? c = some t) :
    st.New st' c ∨ ¬ st.New st' c ∧ ∃ t0, st.struct? c = some t0 ∧
      (t.copyof = t0.copyof ∨ t.copyof = 0) := by
  by_cases hc : st.New st' c
  · exact .inl hc
  · refine .inr ⟨hc, ?_⟩
    cases hc0 : st.heap.lookup c with
    | none => exact absurd ⟨hc0, _, struct?_eq_some.1 ht⟩ hc
    | some o =>
      obtain ⟨hty, hof⟩ := h.kept c o _ hc0 (struct?_eq_some.1 ht)
      obtain ⟨t0, ht0⟩ := Obj.struct_of_type hc0 hty.symm
      rw [struct?_eq_some.1 ht0] at hc0
      cases hc0
      exact ⟨t0, ht0, hof⟩

theorem TraceInv.step (h : TraceInv s) {a : Env × FullOp} (hst : (traced args).step s a s') :
    TraceInv s' := by
  obtain ⟨st', hfull, rfl⟩ := hst
  have htr := hfull.traces h.full
  refine ⟨h.full.step hfull, fun b o ho => ?_, fun c t ht h0 => ?_⟩
  · simp only [Traced.after]
    split
    · omega
    · rename_i hb
      cases hb0 : s.store.heap.lookup b with
      | none => exact absurd ⟨hb0, o, ho⟩ hb
      | some o0 =>
        have := h.past b o0 hb0
        omega
  · rcases htr.back ht with hnew | hold
    · obtain ⟨⟨t0, ht0⟩, hcopies⟩ := htr.copied c t hnew ht h0
      have hlive := struct?_eq_some.1 ht0
      have hnot : ¬ s.store.New st' t.copyof := fun hn => by
        rw [hn.1] at hlive
        cases hlive
      refine ⟨s.birth t.copyof, ?_, ?_, fun o ho _ => ⟨?_, ?_⟩⟩
      · simp only [Traced.after, if_pos hnew, hcopies]
        ext x
        simp only [Set.mem_ofPred_eq, Set.mem_singleton_iff, Prod.ext_iff]
        constructor
        · intro hx
          exact ⟨hx.1, by rw [hx.2, hx.1]⟩
        · intro hx
          exact ⟨hx.1, by rw [hx.2, hx.1]⟩
      · simp only [Traced.after, if_pos hnew]
        exact h.past _ _ hlive
      · simp only [Traced.after, if_neg hnot]
      · exact (htr.kept _ _ _ hlive ho).1
    · obtain ⟨hnot, t0, ht0, hof⟩ := hold
      have hof := hof.resolve_right h0
      rw [hof] at h0 ⊢
      obtain ⟨n, horigin, hn, hsame⟩ := h.noted c t0 ht0 h0
      refine ⟨n, ?_, ?_, fun o ho hle => ?_⟩
      · simp only [Traced.after, if_neg hnot]
        exact horigin
      · simp only [Traced.after, if_neg hnot]
        exact hn
      · simp only [Traced.after, if_neg hnot] at hle ⊢
        split at hle
        · -- the new object at the address is younger than `c`
          have := h.past c _ (struct?_eq_some.1 ht0)
          omega
        · rename_i hp
          rw [if_neg hp]
          cases hp0 : s.store.heap.lookup t0.copyof with
          | none => exact absurd ⟨hp0, o, ho⟩ hp
          | some o0 =>
            obtain ⟨hbirth, hty⟩ := hsame o0 hp0 hle
            exact ⟨hbirth, (htr.kept _ _ _ hp0 ho).1.trans hty⟩

theorem traced_inv (h : (traced args).Reachable s) : TraceInv s := by
  refine h.invariant (fun s hs => ?_) fun s a s' hinv hst => hinv.step hst
  cases hs
  exact ⟨⟨empty_inv.wf empty_stored, nofun⟩, nofun, nofun⟩

theorem TraceInv.timely_iff (h : TraceInv s) (hdated : Dated s) {a : Env × FullOp}
    (hst : (traced args).step s a s') : Dated s' ↔ Timely args s a := by
  constructor
  · intro hs' s2 hst2 c t ht _ hr
    obtain ⟨st', hfull, rfl⟩ := hst
    obtain ⟨st2, hfull2, rfl⟩ := hst2
    cases hfull.unique hfull2
    exact hs' c t ht hr
  · intro htimely c t ht hr
    by_cases hr0 : s.store.tracker.lookup t.copyof = none
    · exact htimely s' hst c t ht hr0 hr
    · obtain ⟨st', hfull, rfl⟩ := hst
      obtain ⟨o, ho⟩ := h.full.live_of_tracked hr0
      have hnot : ¬ s.store.New st' t.copyof := fun hn => by
        rw [hn.1] at ho
        cases ho
      simp only [Traced.after, if_neg hnot]
      rcases (hfull.traces h.full).back ht with hnew | hold
      · rw [if_pos hnew]
        exact (h.past _ o ho).le
      · obtain ⟨hnotc, t0, ht0, hof⟩ := hold
        rw [if_neg hnotc]
        have hof := hof.resolve_right (h.full.null hr0)
        rw [hof] at hr0 ⊢
        exact hdated c t0 ht0 hr0

/-- `rpc_struct_whose_copy` is right in every state of a run whose steps are timely, and
not after a step that is not. -/
theorem whoseCopy_iff (h : ((traced args).restrict (Timely args)).Reachable s) :
    WhoseLaw s ∧ ∀ a s', (traced args).step s a s' → (WhoseLaw s' ↔ Timely args s a) := by
  have hboth : TraceInv s ∧ Dated s := by
    refine h.invariant (I := fun s => TraceInv s ∧ Dated s) (fun s hs => ?_) fun s a s' hinv hst => ?_
    · cases hs
      exact ⟨traced_inv (LTS.Reachable.init (L := traced args) rfl), nofun⟩
    · exact ⟨hinv.1.step hst.1, (hinv.1.timely_iff hinv.2 hst.1).2 hst.2⟩
  refine ⟨hboth.1.law_iff.2 hboth.2, fun a s' hst => ?_⟩
  rw [(hboth.1.step hst).law_iff]
  exact hboth.1.timely_iff hboth.2 hst

/-- A call after which no struct notes the address of an object with a new record. -/
theorem timely_call {st' : State} (E : Env) (op : Op)
    (h : ((traced args).restrict (Timely args)).Reachable s) (hl : op.Legal s.store) (ht : op.Text)
    (hok : op.run E s.store = .ok st')
    (hrec : ∀ x ∈ st'.heap.entries, s.store.tracker.lookup x.2.copyof = none →
      st'.tracker.lookup x.2.copyof = none) :
    ((traced args).restrict (Timely args)).Reachable
      (s.after st' ((FullOp.call op).Copies args E s.store)) := by
  have hfull : FullStep args s.store (E, .call op) st' := .call hl ht hok
  refine h.step ⟨⟨st', hfull, rfl⟩, fun s2 hst2 c t hc hnone hr => ?_⟩
  obtain ⟨st2, hfull2, rfl⟩ := hst2
  cases hfull.unique hfull2
  exact absurd (hrec ⟨c, .struct t⟩ (Table.mem_entries_iff.2 (struct?_eq_some.1 hc)) hnone) hr

/-! ### The history adds nothing to the store -/

theorem traced_store (h : (traced args).Reachable s) : (fullApi args).Reachable s.store := by
  induction h with
  | init hs =>
    cases hs
    exact .init rfl
  | step _ hst ih =>
    obtain ⟨st', hfull, rfl⟩ := hst
    exact ih.step hfull

theorem exists_traced {st : State} (h : (fullApi args).Reachable st) :
    ∃ s, (traced args).Reachable s ∧ s.store = st := by
  induction h with
  | init hs =>
    cases hs
    exact ⟨_, .init rfl, rfl⟩
  | step _ hst ih =>
    obtain ⟨s, hs, rfl⟩ := ih
    exact ⟨_, hs.step ⟨_, hst, rfl⟩, rfl⟩

end

/-! ### Runs of both kinds -/

/-- A copy of a struct that another struct holds. -/
theorem whoseCopy_held : ∃ s, WhoseLaw s ∧ s.store.held 1 [48] = some 2 ∧
    rpcStructWhoseCopy s.store 3 = .ok (s.store, 2) ∧ s.origin 3 = {(2, 1)} := by
  have h0 : ((traced .getbufFirst).restrict (Timely .getbufFirst)).Reachable
      ⟨.empty, 0, fun _ => 0, fun _ => ∅⟩ := .init rfl
  have h1 := timely_call .bump .structCreate h0 trivial trivial rfl (by decide)
  have h2 := timely_call .bump .structCreate h1 trivial trivial rfl (by decide)
  have h3 := timely_call .bump (.set 1 [48] (.struct 2)) h2
    ⟨⟨_, rfl⟩, trivial, fun p hp _ => by cases hp; exact ⟨_, rfl, rfl⟩⟩ trivial rfl (by decide)
  have h4 := timely_call .bump (.copy 2) h3 ⟨_, rfl⟩ trivial rfl (by decide)
  have hlaw := (whoseCopy_iff h4).1
  exact ⟨_, hlaw, rfl, rfl, (hlaw 3 _ 2 rfl nofun).1.trans rfl⟩

/-- The lowest address above all in use, or `a` if that is free. -/
def Env.reusing (a : Addr) : Env :=
  { Env.bump with
    malloc := fun st => if a = 0 ∨ a ∈ st.addrs then Env.bump.malloc st else a
    malloc_fresh := fun st h => by
      split at h
      · exact Env.bump.malloc_fresh st h
      · rename_i ha
        exact ha (h.mem_addrs) }

theorem traced_call {args : ArgOrder} {s : Traced} {st' : State} (E : Env) (op : Op)
    (h : (traced args).Reachable s) (hl : op.Legal s.store) (ht : op.Text)
    (hok : op.run E s.store = .ok st') :
    (traced args).Reachable (s.after st' ((FullOp.call op).Copies args E s.store)) :=
  h.step ⟨st', .call hl ht hok, rfl⟩

/-- The second struct at address 1 is said to be the original of the copy made before it. -/
theorem whoseCopy_reused : ∃ s, (traced .getbufFirst).Reachable s ∧
    rpcStructWhoseCopy s.store 2 = .ok (s.store, 1) ∧ s.origin 2 = {(1, 0)} ∧ s.birth 1 = 3 ∧
    ¬ WhoseLaw s := by
  have h0 : (traced .getbufFirst).Reachable ⟨.empty, 0, fun _ => 0, fun _ => ∅⟩ := .init rfl
  have h1 := traced_call .bump .structCreate h0 trivial trivial rfl
  have h2 := traced_call .bump (.copy 1) h1 ⟨_, rfl⟩ trivial rfl
  have h3 := traced_call .bump (.free .struct 1) h2 ⟨_, rfl, rfl⟩ trivial rfl
  have h4 := traced_call (.reusing 1) .structCreate h3 trivial trivial rfl
  have h5 := traced_call .bump .structCreate h4 trivial trivial rfl
  have h6 := traced_call .bump (.set 3 [107] (.struct 1)) h5
    ⟨⟨_, rfl⟩, trivial, fun p hp _ => by cases hp; exact ⟨_, rfl, rfl⟩⟩ trivial rfl
  -- the copy was made at 1, of something older
  obtain ⟨n, horigin, hn, -⟩ := (traced_inv h6).noted 2 _ rfl Nat.one_ne_zero
  cases Nat.lt_one_iff.1 (show n < 1 from hn)
  refine ⟨_, h6, rfl, horigin, rfl, fun hlaw => ?_⟩
  have hbirth := (hlaw 2 _ 1 rfl nofun).1.symm.trans horigin
  cases (Prod.mk.inj (Set.singleton_injective hbirth)).2

end FfiRpc
