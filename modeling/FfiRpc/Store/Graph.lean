import FfiRpc.Store.Runs

/-!
# The tracker mirrors the maps, and releases are exact

The two results about runs without shallow copies, over any object graph:

* `tracker_exact`: after every call, an object is tracked iff some struct holds
  it, its refcount is the number of entries that hold it, and the recorded
  origins are those structs, each once.
* `free_releases`: a release takes the object and what it orphans
  (`Ownership.Reclaimed`), each once (a second release of an object would be a
  fault), and the survivors lose the entries that held it; the order in which
  the environment enumerates the maps leaves no trace (`State.Same`).
-/
namespace FfiRpc

open Ownership (Reclaimed)
open State

/-- Records and maps say the same. -/
def TrackerExact (st : State) : Prop :=
  ∀ p, ((∃ r, st.tracker.lookup p = some r) ↔ ∃ S k, st.held S k = some p) ∧
    ∀ r, st.tracker.lookup p = some r → r.refcount = (st.holders p).card ∧
      ∀ k, (r.recorded k).Nodup ∧ ∀ S, S ∈ r.recorded k ↔ st.held S k = some p

theorem Inv.exact {st : State} (h : Inv ∅ (fun _ => 0) ∅ ∅ st) : TrackerExact st := by
  intro p
  refine ⟨⟨fun hr => ?_, fun hh => ?_⟩, fun r hr => ?_⟩
  · obtain ⟨r, hr⟩ := hr
    obtain ⟨hpos, o, -, hrec⟩ := h.tracked p r hr
    have hcount := hrec.count
    rw [Finset.sdiff_empty] at hcount
    obtain ⟨e, he⟩ := Finset.card_pos.1 (show 0 < (st.holders p).card by omega)
    exact ⟨e.1, e.2, mem_holders.1 he⟩
  · obtain ⟨S, k, hh⟩ := hh
    obtain ⟨r, -, hr, -⟩ := h.tracked_of_held (Set.notMem_empty p) hh
    exact ⟨r, hr⟩
  · obtain ⟨-, o, -, hrec⟩ := h.tracked p r hr
    rw [Finset.sdiff_empty] at hrec
    refine ⟨hrec.count, fun k => ⟨hrec.once rfl k, fun S => ?_⟩⟩
    rw [hrec.mem, mem_holders]

/-- In every state a run reaches, and after every further call, which
succeeds. -/
theorem tracker_exact {st : State} (h : graphApi.Reachable st) :
    TrackerExact st ∧ ∀ (E : Env) (op : Op), op.Legal st → op.NoCopy →
      ∃ st', op.run E st = .ok st' ∧ TrackerExact st' := by
  obtain ⟨hinv, hst⟩ := graphApi_inv h
  refine ⟨hinv.exact, fun E op hl hn => ?_⟩
  obtain ⟨st', hok, -⟩ := step_spec E (hinv.wf hst) hl
  have h' : graphApi.Reachable st' := h.step ⟨(⟨hl, hok⟩ : api.step st (E, op) st'), hn⟩
  exact ⟨st', hok, (graphApi_inv h').1.exact⟩

/-- Two structs that hold each other. -/
theorem exists_cycle : ∃ st, graphApi.Reachable st ∧ st.held 1 [107] = some 2 ∧
    st.held 2 [107] = some 1 ∧ st.holders 2 = {(1, [107])} := by
  have h1 := graph_step .bump .structCreate (.init rfl) trivial trivial rfl
  have h2 := graph_step .bump .structCreate h1 trivial trivial rfl
  have h3 := graph_step .bump (.set 1 [107] (.struct 2)) h2
    ⟨⟨_, rfl⟩, trivial, fun p hp _ => by cases hp; exact ⟨_, rfl, rfl⟩⟩ trivial rfl
  have h4 := graph_step .bump (.set 2 [107] (.struct 1)) h3
    ⟨⟨_, rfl⟩, trivial, fun p hp _ => by cases hp; exact ⟨_, rfl, rfl⟩⟩ trivial rfl
  exact ⟨_, h4, rfl, rfl, rfl⟩

theorem tracker_exact_cycle : ∃ st, st.held 1 [107] = some 2 ∧ TrackerExact st := by
  obtain ⟨st, h, hh, -⟩ := exists_cycle
  exact ⟨st, hh, (tracker_exact h).1⟩

/-! ## Releases -/

/-- The release callback of a record. -/
def Prec.freeFn (r : Prec) : Option FreeFn := r.context.bind PrecPtrCtx.free

/-- Records with the same content; the slots may be arranged differently. -/
structure Prec.Same (r r' : Prec) : Prop where
  refcount : r'.refcount = r.refcount
  freeFn : r'.freeFn = r.freeFn
  recorded : ∀ k, (r'.recorded k).Perm (r.recorded k)

/-- States with the same objects and records. -/
structure State.Same (st st' : State) : Prop where
  dead : ∀ a, st.heap.lookup a = none ↔ st'.heap.lookup a = none
  live : ∀ a o o', st.heap.lookup a = some o → st'.heap.lookup a = some o' →
    o.Less (fun _ => False) o'
  untracked : ∀ p, st.tracker.lookup p = none ↔ st'.tracker.lookup p = none
  tracked : ∀ p r r', st.tracker.lookup p = some r → st'.tracker.lookup p = some r' → r.Same r'

theorem Obj.Less.unique {P : CStr → Prop} {o o1 o2 : Obj} (h1 : o.Less P o1) (h2 : o.Less P o2) :
    o1.Less (fun _ => False) o2 := by
  cases o with
  | sizedbuf b => cases h1; cases h2; rfl
  | function f => cases h1; cases h2; rfl
  | struct s =>
    cases o1 with
    | sizedbuf b => cases h1
    | function f => cases h1
    | struct s1 =>
      cases o2 with
      | sizedbuf b => cases h2
      | function f => cases h2
      | struct s2 =>
        refine ⟨h2.1.trans h1.1.symm, h2.2.1.trans h1.2.1.symm, fun k => ⟨nofun, fun _ => ?_⟩⟩
        by_cases hk : P k
        · rw [(h2.2.2 k).1 hk, (h1.2.2 k).1 hk]
        · rw [(h2.2.2 k).2 hk, (h1.2.2 k).2 hk]

/-- Two outcomes of one description agree, tracker included. -/
theorem Outcome.same {R : Set Addr} {P : Set (Addr × CStr)} {st st1 st2 : State}
    (h1 : Outcome R P st st1) (h2 : Outcome R P st st2) (hi1 : Inv ∅ (fun _ => 0) ∅ ∅ st1)
    (hi2 : Inv ∅ (fun _ => 0) ∅ ∅ st2) : st1.Same st2 := by
  have hheap : ∀ a, (st1.heap.lookup a = none ∧ st2.heap.lookup a = none) ∨
      ∃ o1 o2, st1.heap.lookup a = some o1 ∧ st2.heap.lookup a = some o2 ∧
        o1.Less (fun _ => False) o2 := by
    intro a
    by_cases hR : a ∈ R
    · exact .inl ⟨h1.gone a hR, h2.gone a hR⟩
    · cases ho : st.heap.lookup a with
      | none => exact .inl ⟨h1.fresh a ho, h2.fresh a ho⟩
      | some o =>
        obtain ⟨o1, ho1, hl1⟩ := h1.stay a o hR ho
        obtain ⟨o2, ho2, hl2⟩ := h2.stay a o hR ho
        exact .inr ⟨o1, o2, ho1, ho2, hl1.unique hl2⟩
  have hheld : ∀ S k, st2.held S k = st1.held S k := by
    intro S k
    unfold held
    rcases hheap S with ⟨hn1, hn2⟩ | ⟨o1, o2, ho1, ho2, hl⟩
    · simp [State.entry, struct?, hn1, hn2]
    · rw [hl.entry ho1 ho2]
  have htr : ∀ p, (∃ r, st1.tracker.lookup p = some r) ↔ ∃ r, st2.tracker.lookup p = some r := by
    intro p
    rw [(hi1.exact p).1, (hi2.exact p).1]
    simp only [hheld]
  refine ⟨fun a => ?_, fun a o o' ho ho' => ?_, fun p => ?_, fun p r r' hr hr' => ?_⟩
  · rcases hheap a with ⟨hn1, hn2⟩ | ⟨o1, o2, ho1, ho2, -⟩
    · simp [hn1, hn2]
    · simp [ho1, ho2]
  · rcases hheap a with ⟨hn1, -⟩ | ⟨o1, o2, ho1, ho2, hl⟩
    · rw [hn1] at ho; cases ho
    · rw [ho1] at ho; rw [ho2] at ho'
      cases ho; cases ho'; exact hl
  · rw [← not_iff_not, ← ne_eq, ← ne_eq, Option.ne_none_iff_exists', Option.ne_none_iff_exists']
    exact htr p
  · obtain ⟨hc1, hk1⟩ := (hi1.exact p).2 r hr
    obtain ⟨hc2, hk2⟩ := (hi2.exact p).2 r' hr'
    refine ⟨?_, ?_, fun k => ?_⟩
    · rw [hc1, hc2, holders_congr hheld]
    · obtain ⟨-, o1, ho1, hrec1⟩ := hi1.tracked p r hr
      obtain ⟨-, o2, ho2, hrec2⟩ := hi2.tracked p r' hr'
      obtain ⟨c1, hx1, hf1, -⟩ := hrec1.ctx
      obtain ⟨c2, hx2, hf2, -⟩ := hrec2.ctx
      have hty : o2.type = o1.type := by
        rcases hheap p with ⟨hn1, -⟩ | ⟨o1', o2', ho1', ho2', hl⟩
        · rw [hn1] at ho1; cases ho1
        · rw [ho1] at ho1'; rw [ho2] at ho2'
          cases ho1'; cases ho2'; exact hl.type
      simp only [Prec.freeFn, hx1, hx2, Option.bind_some, hf1, hf2, hty, callbackType_empty]
    · refine (List.perm_ext_iff_of_nodup (hk2 k).1 (hk1 k).1).2 fun S => ?_
      rw [(hk2 k).2 S, (hk1 k).2 S, hheld]

/-- Objects that only an operation's own entries or released structs hold are
alive before it. -/
theorem reclaimed_live {extra : Addr → Nat} {st : State} (h : Inv ∅ extra ∅ ∅ st) {root : Set Addr}
    {cut : Set (Addr × CStr)} (hroot : ∀ a ∈ root, ∃ o, st.heap.lookup a = some o) {a : Addr}
    (ha : a ∈ st.reclaimed extra root cut) : ∃ o, st.heap.lookup a = some o := by
  cases ha with
  | root ha => exact hroot a ha
  | orphan _ he _ =>
    obtain ⟨-, o, -, ho, -⟩ := h.tracked_of_held (Set.notMem_empty a) he
    exact ⟨o, ho⟩

/-- Freeing any live object, tracked or not. -/
theorem free_releases {st : State} (h : graphApi.Reachable st) (E : Env) {x : Addr} {o : Obj}
    (ho : st.heap.lookup x = some o) :
    ∃ st', rpcFree E o.type st x = .ok st' ∧
      Outcome {a | Reclaimed Prod.fst st.heldAt ∅ {x} ∅ a} {e | st.heldAt e = some x} st st' ∧
      (∀ a, Reclaimed Prod.fst st.heldAt ∅ {x} ∅ a → ∃ oa, st.heap.lookup a = some oa) ∧
      ∀ (E' : Env) (st'' : State), rpcFree E' o.type st x = .ok st'' → st'.Same st'' := by
  have hinv := (graphApi_inv h).1
  have hR : st.reclaimed (fun _ => 0) {x} ∅ = {a | Reclaimed Prod.fst st.heldAt ∅ {x} ∅ a} := by
    simp [reclaimed]
  obtain ⟨st', hok, hinv', hout⟩ := free_spec E hinv ho (Finset.notMem_empty x)
  rw [raised_empty, hR] at hout
  refine ⟨st', hok, hout, fun a ha => ?_, fun E' st'' hok' => ?_⟩
  · have ha' : a ∈ st.reclaimed (fun _ => 0) {x} ∅ := by rw [hR]; exact ha
    refine reclaimed_live hinv (fun b hb => ?_) ha'
    cases hb; exact ⟨o, ho⟩
  · obtain ⟨st2, hok2, hinv2, hout2⟩ := free_spec E' hinv ho (Finset.notMem_empty x)
    rw [hok'] at hok2; cases hok2
    rw [raised_empty, hR] at hout2
    exact hout.same hout2 hinv' hinv2

/-- In a cycle of two, freeing one takes the other along. -/
theorem free_releases_cycle : ∃ st st' : State, st.held 1 [107] = some 2 ∧
    st.held 2 [107] = some 1 ∧ rpcFree .bump .struct st 1 = .ok st' ∧
    st'.heap.lookup 2 = none := by
  obtain ⟨st, h, h1, h2, honly⟩ := exists_cycle
  obtain ⟨e, he, -⟩ := held_eq_some.1 h1
  obtain ⟨s, hs, -⟩ := entry_eq_some.1 he
  obtain ⟨st', hok, hout, -⟩ := free_releases h .bump (struct?_eq_some.1 hs)
  have hh : st.heldAt (1, [107]) = some 2 := h1
  refine ⟨st, st', h1, h2, hok, hout.gone 2 (.orphan (Set.notMem_empty _) hh fun e' he' _ => ?_)⟩
  have hmem : e' ∈ st.holders 2 := mem_holders.2 he'
  rw [honly, Finset.mem_singleton] at hmem
  subst hmem
  exact .root rfl

end FfiRpc
