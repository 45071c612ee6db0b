import FfiRpc.Store.Inv
import FfiRpc.Core.Fallible
import FfiRpc.Core.Ownership

/-!
# Removal cascades

Dropping an entry decrements its object; a count of zero deletes the record and
releases the object, whose own entries are dropped in turn. `Casc` is what holds
at every point of such a cascade that started in `st0` and may release the
objects of a closed set `X` (`Ownership.Closed`): the state invariant with the
objects under release in `D`, and a frame: nothing outside `X` changes, no
entry appears, and a record only disappears with its object.

`precDelete_spec` is the induction, on the bound of `prec_delete`: from any such
state it succeeds, releases its object and keeps `Casc`. Its step is
`release_spec`: the loop of `rpc_struct_free_internals` over one struct
(`freeInternals_spec`), each turn of which is `remove_spec`. The bound that the
operations use, the number of records, is never reached.
-/
namespace FfiRpc

open Ownership (Closed Reclaimed)

/-! ## Invariant steps

What the cascade does to the state comes in small steps, each with one lemma: an entry
dropped, a count lowered, a record or an object taken out. Between a record's end and its
entry's the state is not in order; `Q` has the entry that is under way. -/

section Steps
variable {off : Finset Addr} {extra : Addr → Nat} {D : Set Addr} {Q : Finset (Addr × CStr)}
  {st : State}

namespace State

theorem entry_dropEntry {S : Addr} {s : RpcStruct} (hs : st.struct? S = some s) (k : CStr)
    (S' : Addr) (k' : CStr) :
    (st.setObj S (.struct { s with map := s.map.erase k })).entry S' k' =
      if S' = S ∧ k' = k then none else st.entry S' k' := by
  rw [entry_setObj_struct, Table.lookup_erase_if]
  by_cases hS : S' = S
  · subst hS
    simp [entry_of_struct hs]
  · simp [hS]

theorem held_dropEntry {S : Addr} {s : RpcStruct} (hs : st.struct? S = some s) (k : CStr)
    (S' : Addr) (k' : CStr) :
    (st.setObj S (.struct { s with map := s.map.erase k })).held S' k' =
      if S' = S ∧ k' = k then none else st.held S' k' := by
  unfold held
  rw [entry_dropEntry hs]
  split <;> rfl

/-- A dropped entry makes one holder less. -/
theorem holders_dropEntry {S : Addr} {s : RpcStruct} (hs : st.struct? S = some s) (k : CStr)
    (p : Addr) :
    (st.setObj S (.struct { s with map := s.map.erase k })).holders p =
      (st.holders p).erase (S, k) := by
  ext ⟨S', k'⟩
  rw [mem_holders, held_dropEntry hs, Finset.mem_erase, mem_holders, ne_eq, Prod.mk.injEq]
  by_cases h : S' = S ∧ k' = k <;> simp [h]

theorem holders_congr {st' : State} (h : ∀ S k, st'.held S k = st.held S k) (p : Addr) :
    st'.holders p = st.holders p := by
  ext ⟨S, k⟩
  rw [mem_holders, mem_holders, h]

/-- The type of an object that keeps its place. -/
theorem lookup_setObj_type {S a : Addr} {s : RpcStruct} (s' : RpcStruct)
    (hs : st.struct? S = some s) {o : Obj} (ho : st.heap.lookup a = some o) :
    ∃ o', (st.setObj S (.struct s')).heap.lookup a = some o' ∧ o'.type = o.type := by
  rw [lookup_setObj]
  split
  · rename_i h
    subst h
    rw [struct?_eq_some.1 hs] at ho
    cases ho
    exact ⟨_, rfl, rfl⟩
  · exact ⟨o, ho, rfl⟩

end State

open State

/-- The record of what an entry holds. -/
theorem Inv.tracked_of_held (h : Inv off extra D ∅ st) {S : Addr} {k : CStr} {p : Addr} (hp : p ∉ D)
    (hh : st.held S k = some p) :
    ∃ r o, st.tracker.lookup p = some r ∧ st.heap.lookup p = some o ∧
      Record (extra p) (st.holders p) (callbackType off p o.type) r := by
  cases hr : st.tracker.lookup p with
  | none =>
    have hempty := h.untracked p hp hr
    have hmem : (S, k) ∈ st.holders p := mem_holders.2 hh
    simp only [Finset.sdiff_empty] at hempty
    rw [hempty] at hmem
    cases hmem
  | some r =>
    obtain ⟨-, o, ho, hrec⟩ := h.tracked p r hr
    exact ⟨r, o, rfl, ho, by simpa using hrec⟩

/-- Dropping an entry nobody counts any more. -/
theorem Inv.dropEntry (h : Inv off extra D Q st) {S : Addr} {k : CStr} {s : RpcStruct}
    (hs : st.struct? S = some s) (hQ : Q ⊆ {(S, k)})
    (hk : ∀ p, st.held S k = some p → (S, k) ∈ Q ∨ p ∈ D) :
    Inv off extra D ∅ (st.setObj S (.struct { s with map := s.map.erase k })) := by
  have hcases : Q = ∅ ∨ Q = {(S, k)} := Finset.subset_singleton_iff.1 hQ
  have hS0 : S ≠ 0 := by
    rintro rfl
    have := struct?_eq_some.1 hs
    rw [h.null] at this; cases this
  refine ⟨?_, h.dead, ?_, ?_, ?_⟩
  · rw [lookup_setObj, if_neg (Ne.symm hS0)]; exact h.null
  · intro S' k' e p he ht hp _
    rw [entry_dropEntry hs] at he
    split at he
    · cases he
    · rename_i hne
      have hnQ : (S', k') ∉ Q := fun hc => hne (by simpa using hQ hc)
      obtain ⟨o, ho, hty⟩ := h.typed S' k' e p he ht hp hnQ
      obtain ⟨o', ho', hty'⟩ := lookup_setObj_type _ hs ho
      exact ⟨o', ho', hty'.trans hty⟩
  · intro p hp hr
    have hu := h.untracked p hp hr
    rw [holders_dropEntry hs, Finset.sdiff_empty]
    rcases hcases with rfl | rfl
    · rw [Finset.sdiff_empty] at hu; simp [hu]
    · rwa [Finset.sdiff_singleton_eq_erase] at hu
  · intro p r hr
    obtain ⟨hpos, o, ho, hrec⟩ := h.tracked p r hr
    obtain ⟨o', ho', hty⟩ := lookup_setObj_type { s with map := s.map.erase k } hs ho
    refine ⟨hpos, o', ho', ?_⟩
    rw [holders_dropEntry hs, Finset.sdiff_empty, hty]
    rcases hcases with rfl | rfl
    · -- the entry's object is dead, hence not `p`
      have hnot : (S, k) ∉ st.holders p := by
        intro hm
        rcases hk p (mem_holders.1 hm) with hm' | hm'
        · cases hm'
        · have := h.dead p hm'
          rw [show st.tracker.lookup p = some r from hr] at this; cases this
      rw [Finset.erase_eq_of_notMem hnot]
      simpa using hrec
    · rwa [Finset.sdiff_singleton_eq_erase] at hrec

/-- Counting an entry less, when references remain. -/
theorem Inv.setPrec (h : Inv off extra D ∅ st) {S : Addr} {k : CStr} {p : Addr} {o : Obj} {r : Prec}
    (hp : p ∉ D) (hh : st.held S k = some p) (ho : st.heap.lookup p = some o)
    (hpos : 0 < r.refcount)
    (hr : Record (extra p) ((st.holders p).erase (S, k)) (callbackType off p o.type) r) :
    Inv off extra D {(S, k)} (st.setPrec p r) := by
  have hhold : ∀ q, (st.setPrec p r).holders q = st.holders q := fun q => rfl
  refine ⟨h.null, ?_, ?_, ?_, ?_⟩
  · intro q hq
    rw [lookup_setPrec, if_neg (by rintro rfl; exact hp hq)]
    exact h.dead q hq
  · intro S' k' e q he ht hq _
    exact h.typed S' k' e q he ht hq (Finset.notMem_empty _)
  · intro q hq hr'
    rw [lookup_setPrec] at hr'
    split at hr'
    · cases hr'
    · have := h.untracked q hq hr'
      rw [Finset.sdiff_empty] at this
      rw [hhold, this]; rfl
  · intro q r' hr'
    rw [lookup_setPrec] at hr'
    rw [hhold, Finset.sdiff_singleton_eq_erase]
    split at hr'
    · rename_i hq
      subst hq
      cases hr'
      exact ⟨hpos, o, ho, hr⟩
    · rename_i hq
      obtain ⟨hpos', o', ho', hrec⟩ := h.tracked q r' hr'
      refine ⟨hpos', o', ho', ?_⟩
      rw [Finset.sdiff_empty] at hrec
      rwa [Finset.erase_eq_of_notMem]
      rw [mem_holders, hh]
      intro hc
      exact hq (Option.some.inj hc).symm

/-- A record taken out: its object is under release. -/
theorem Inv.delPrec (h : Inv off extra D ∅ st) (p : Addr) {st' : State} (hheap : st'.heap = st.heap)
    (htr : ∀ q, st'.tracker.lookup q = if q = p then none else st.tracker.lookup q) :
    Inv off extra (insert p D) ∅ st' := by
  have hsame : ∀ a, st'.heap.lookup a = st.heap.lookup a := fun a => by rw [hheap]
  have hhold := holders_congr fun S k => held_congr (hsame S) k
  refine ⟨(hsame 0).trans h.null, ?_, ?_, ?_, ?_⟩
  · rintro q (rfl | hq)
    · rw [htr, if_pos rfl]
    · rw [htr]; split
      · rfl
      · exact h.dead q hq
  · intro S k e q he ht hq hQ
    rw [entry_congr (hsame S)] at he
    obtain ⟨o, ho, hty⟩ := h.typed S k e q he ht (fun hc => hq (.inr hc)) hQ
    exact ⟨o, (hsame q).trans ho, hty⟩
  · intro q hq hr
    rw [htr, if_neg (fun hc => hq (.inl hc))] at hr
    rw [hhold]
    exact h.untracked q (fun hc => hq (.inr hc)) hr
  · intro q r hr
    rw [htr] at hr
    split at hr
    · cases hr
    · obtain ⟨hpos, o, ho, hrec⟩ := h.tracked q r hr
      exact ⟨hpos, o, (hsame q).trans ho, by rwa [hhold]⟩

/-- A record taken out whose object stays; only the entry being removed still names it. -/
theorem Inv.uncounted (h : Inv off extra D ∅ st) {S : Addr} {k : CStr} {p : Addr} {st' : State}
    (hheap : st'.heap = st.heap)
    (htr : ∀ q, st'.tracker.lookup q = if q = p then none else st.tracker.lookup q)
    (hh : st.held S k = some p) (hold : st.holders p ⊆ {(S, k)}) : Inv off extra D {(S, k)} st' := by
  have hsame : ∀ a, st'.heap.lookup a = st.heap.lookup a := fun a => by rw [hheap]
  have hhold := holders_congr fun S k => held_congr (hsame S) k
  refine ⟨(hsame 0).trans h.null, fun q hq => ?_, ?_, ?_, ?_⟩
  · rw [htr]
    split
    · rfl
    · exact h.dead q hq
  · intro S' k' e q he ht hq _
    rw [entry_congr (hsame S')] at he
    obtain ⟨o, ho, hty⟩ := h.typed S' k' e q he ht hq (Finset.notMem_empty _)
    exact ⟨o, (hsame q).trans ho, hty⟩
  · intro q hq hr
    rw [hhold, Finset.sdiff_eq_empty_iff_subset]
    by_cases hqp : q = p
    · subst hqp
      exact hold
    · rw [htr, if_neg hqp] at hr
      have hu := h.untracked q hq hr
      rw [Finset.sdiff_empty] at hu
      rw [hu]
      exact Finset.empty_subset _
  · intro q r hr
    rw [htr] at hr
    split at hr
    · cases hr
    · rename_i hqp
      obtain ⟨hpos, o, ho, hrec⟩ := h.tracked q r hr
      refine ⟨hpos, o, (hsame q).trans ho, ?_⟩
      rw [Finset.sdiff_empty] at hrec
      rw [hhold, Finset.sdiff_singleton_eq_erase, Finset.erase_eq_of_notMem]
      · exact hrec
      · rw [mem_holders, hh]
        intro hc
        exact hqp (Option.some.inj hc).symm

/-- The object is gone; only the entry being removed still names it. -/
theorem Inv.released (h : Inv off extra (insert p D) ∅ st) {S : Addr} {k : CStr} (hp : p ∉ D)
    (hh : st.held S k = some p) (hold : st.holders p ⊆ {(S, k)}) : Inv off extra D {(S, k)} st := by
  refine ⟨h.null, fun q hq => h.dead q (.inr hq), ?_, ?_, ?_⟩
  · intro S' k' e q he ht hq hQ
    refine h.typed S' k' e q he ht ?_ (Finset.notMem_empty _)
    rintro (rfl | hc)
    · exact hQ (hold (mem_holders.2 (held_eq_some.2 ⟨e, he, ht⟩)))
    · exact hq hc
  · intro q hq hr
    rw [Finset.sdiff_eq_empty_iff_subset]
    by_cases hqp : q = p
    · subst hqp; exact hold
    · have := h.untracked q (by rintro (hc | hc); exacts [hqp hc, hq hc]) hr
      rw [Finset.sdiff_empty] at this
      rw [this]; exact Finset.empty_subset _
  · intro q r hr
    obtain ⟨hpos, o, ho, hrec⟩ := h.tracked q r hr
    refine ⟨hpos, o, ho, ?_⟩
    rw [Finset.sdiff_empty] at hrec
    rwa [Finset.sdiff_singleton_eq_erase, Finset.erase_eq_of_notMem]
    rw [mem_holders, hh]
    rintro ⟨⟩
    have := h.dead p (.inl rfl)
    rw [hr] at this; cases this

/-- `free` of an object under release that holds nothing. -/
theorem Inv.delObj (h : Inv off extra D ∅ st) {p : Addr} (hp : p ∈ D)
    (hnone : ∀ k, st.entry p k = none) : Inv off extra D ∅ (st.delObj p) := by
  have hentry : ∀ S k, (st.delObj p).entry S k = st.entry S k := by
    intro S k
    by_cases hS : S = p
    · subst hS
      rw [hnone, entry, struct?_delObj, if_pos rfl]; rfl
    · rw [entry, struct?_delObj, if_neg hS]; rfl
  have hhold := holders_congr fun S k => show (st.delObj p).held S k = st.held S k by
    unfold held; rw [hentry]
  refine ⟨?_, h.dead, ?_, ?_, ?_⟩
  · rw [lookup_delObj]; split
    · rfl
    · exact h.null
  · intro S k e q he ht hq hQ
    rw [hentry] at he
    obtain ⟨o, ho, hty⟩ := h.typed S k e q he ht hq hQ
    refine ⟨o, ?_, hty⟩
    rw [lookup_delObj, if_neg (by rintro rfl; exact hq hp)]; exact ho
  · intro q hq hr
    rw [hhold]; exact h.untracked q hq hr
  · intro q r hr
    obtain ⟨hpos, o, ho, hrec⟩ := h.tracked q r hr
    refine ⟨hpos, o, ?_, by rwa [hhold]⟩
    rw [lookup_delObj, if_neg]
    · exact ho
    · rintro rfl
      have := h.dead q hp
      rw [show st.tracker.lookup q = some r from hr] at this; cases this

end Steps

/-! ## The cascade relation

`Casc` is about the state since the outermost call, `After` about what one nested call
leaves of the objects `K` that are under release around it. -/

/-- References of the heap, as `Ownership` sees them. -/
def State.heldAt (st : State) (e : Addr × CStr) : Option Addr := st.held e.1 e.2

/-- An object whose callback is off is as safe from a cascade as one with a reference
from outside. -/
def raised (off : Finset Addr) (extra : Addr → Nat) (q : Addr) : Nat :=
  if q ∈ off then extra q + 1 else extra q

@[simp] theorem raised_empty (extra : Addr → Nat) : raised ∅ extra = extra := rfl

theorem raised_pos {off : Finset Addr} {extra : Addr → Nat} {q : Addr} :
    0 < raised off extra q ↔ q ∈ off ∨ 0 < extra q := by
  unfold raised
  split
  · rename_i h
    exact iff_of_true (Nat.succ_pos _) (.inl h)
  · rename_i h
    exact (or_iff_right h).symm

structure Casc (off : Finset Addr) (extra : Addr → Nat) (X : Set Addr) (st0 : State)
    (D : Set Addr) (Q : Finset (Addr × CStr)) (st : State) : Prop where
  inv : Inv off extra D Q st
  sub : D ⊆ X
  same : ∀ a, a ∉ X → st.heap.lookup a = st0.heap.lookup a
  fewer : ∀ S k e, st.entry S k = some e → st0.entry S k = some e
  kept : ∀ q r, st0.tracker.lookup q = some r → st.tracker.lookup q = none →
    q ∈ D ∨ st.heap.lookup q = none ∨ q ∈ off ∧ extra q = 0

/-- What one nested call leaves alone. -/
structure After (K : Set Addr) (st st' : State) : Prop where
  keep : ∀ a ∈ K, st'.heap.lookup a = st.heap.lookup a
  fewer : ∀ S k e, st'.entry S k = some e → st.entry S k = some e
  count : st'.tracker.keys.length ≤ st.tracker.keys.length

theorem After.refl (K : Set Addr) (st : State) : After K st st :=
  ⟨fun _ _ => rfl, fun _ _ _ h => h, Nat.le_refl _⟩

theorem After.trans {K : Set Addr} {st1 st2 st3 : State} (h : After K st1 st2)
    (h' : After K st2 st3) : After K st1 st3 :=
  ⟨fun a ha => (h'.keep a ha).trans (h.keep a ha),
    fun S k e he => h.fewer S k e (h'.fewer S k e he), h'.count.trans h.count⟩

section Cascade
variable {E : Env} {del : State → Addr → Except Fault State} {n : Nat} {off : Finset Addr}
  {extra : Addr → Nat} {X : Set Addr} {cut : Set (Addr × CStr)} {st0 st : State} {D : Set Addr}

open State

/-- `prec_delete` of a record whose count has reached zero, with `D` under
release around it; if the callback is off, only the record goes. -/
structure DelSpec (off : Finset Addr) (extra : Addr → Nat) (X : Set Addr) (st0 : State)
    (del : State → Addr → Except Fault State) (n : Nat) : Prop where
  release : ∀ (st : State) (D : Set Addr) (p : Addr) (r : Prec) (o : Obj) (c : PrecPtrCtx),
    st.tracker.lookup p = some r → r.context = some c → c.free = rpcFreefnOf o.type →
    (∀ k, r.recorded k = []) → st.heap.lookup p = some o → p ∉ D →
    Casc off extra X st0 (insert p D) ∅ (st.delPrec p) → st.tracker.keys.length ≤ n →
    ∃ st', del st p = .ok st' ∧ Casc off extra X st0 (insert p D) ∅ st' ∧ After D st st' ∧
      st'.heap.lookup p = none
  record : ∀ (st : State) (p : Addr) (r : Prec) (c : PrecPtrCtx),
    st.tracker.lookup p = some r → r.context = some c → c.free = none →
    (∀ k, r.recorded k = []) → st.tracker.keys.length ≤ n → del st p = .ok (st.delPrec p)

theorem lookup_setPrec_delPrec (p q : Addr) (r : Prec) :
    ((st.setPrec p r).delPrec p).tracker.lookup q =
      if q = p then none else st.tracker.lookup q := by
  rw [lookup_delPrec, lookup_setPrec]
  split <;> rfl

/-- The decrement of the last reference, the entry `(S, k)`, releases the object. -/
theorem decrement_last (hdel : DelSpec off extra X st0 del n)
    (hX : Closed Prod.fst st0.heldAt {q | 0 < raised off extra q} cut X)
    (hc : Casc off extra X st0 D ∅ st) (hn : st.tracker.keys.length ≤ n) {S : Addr} {k : CStr}
    {p : Addr} (hS : S ∈ X ∨ (S, k) ∈ cut) (hh : st.held S k = some p) (hp : p ∉ D) (hoff : p ∉ off)
    (hx : extra p = 0) (honly : st.holders p = {(S, k)}) :
    ∃ st1, precDecrementBy del st p (some ⟨S, some k, none⟩) = .ok st1 ∧
      Casc off extra X st0 (insert p D) ∅ st1 ∧ After D st st1 ∧ st1.heap.lookup p = none := by
  obtain ⟨r, o, hr, ho, hrec⟩ := hc.inv.tracked_of_held hp hh
  have hrec' := record_decrement hrec (mem_holders.2 hh) none
  set r' := r.decremented (some ⟨S, some k, none⟩) with hr'
  rw [honly, Finset.erase_singleton, callbackType_of_notMem hoff] at hrec'
  have h0 : r'.refcount = 0 := by rw [hrec'.count, hx, Finset.card_empty]
  have hcount : (st.setPrec p r').tracker.keys.length = st.tracker.keys.length :=
    Table.length_keys_insert r' hr
  obtain ⟨c, hctx, hfree, -⟩ := hrec'.ctx
  have hnil : ∀ k', r'.recorded k' = [] := by
    intro k'
    refine List.eq_nil_iff_forall_not_mem.2 fun S' hS' => ?_
    cases (hrec'.mem S' k').1 hS'
  have hpX : p ∈ X := by
    have hp0 : st0.heldAt (S, k) = some p := by
      obtain ⟨e, he, ht⟩ := held_eq_some.1 hh
      exact held_eq_some.2 ⟨e, hc.fewer S k e he, ht⟩
    refine hX p (S, k) (by simp [raised_pos, hx, hoff]) hp0 ?_
    rintro ⟨S', k'⟩ h' hcut
    by_contra hS'
    have hm : (S', k') ∈ st.holders p := mem_holders.2 ((held_congr (hc.same S' hS') k').trans h')
    rw [honly, Finset.mem_singleton] at hm
    cases hm
    exact hS.elim hS' hcut
  have hcasc : Casc off extra X st0 (insert p D) ∅ ((st.setPrec p r').delPrec p) := by
    refine ⟨hc.inv.delPrec p rfl fun q => lookup_setPrec_delPrec p q r', ?_, hc.same, hc.fewer, ?_⟩
    · exact Set.insert_subset hpX hc.sub
    · intro q rq h1 h2
      rw [lookup_setPrec_delPrec] at h2
      split at h2
      · rename_i hq; exact .inl (.inl hq)
      · exact (hc.kept q rq h1 h2).imp .inr id
  obtain ⟨st', hok, hc', haft, hgone⟩ := hdel.release (st.setPrec p r') D p r' o c
    (by rw [lookup_setPrec, if_pos rfl]) hctx hfree hnil ho hp hcasc (by omega)
  refine ⟨st', ?_, hc', ⟨haft.keep, haft.fewer, by rw [← hcount]; exact haft.count⟩, hgone⟩
  unfold precDecrementBy
  simp only [hr]
  rw [← hr', if_pos h0, hok]

/-- The decrement for entry `(S, k)`: `S` is being released, or is the survivor
whose entry an operation removes. -/
theorem decrement_spec (hdel : DelSpec off extra X st0 del n)
    (hX : Closed Prod.fst st0.heldAt {q | 0 < raised off extra q} cut X)
    (hc : Casc off extra X st0 D ∅ st) (hn : st.tracker.keys.length ≤ n) {S : Addr} {k : CStr}
    {p : Addr} (hS : S ∈ D ∨ S ∉ X ∧ (S, k) ∈ cut) (hh : st.held S k = some p) :
    ∃ st1 Q, precDecrementBy del st p (some ⟨S, some k, none⟩) = .ok st1 ∧
      Casc off extra X st0 D Q st1 ∧ Q ⊆ {(S, k)} ∧ ((S, k) ∈ Q ∨ p ∈ D) ∧ After D st st1 ∧
      st1.heap.lookup S = st.heap.lookup S := by
  by_cases hp : p ∈ D
  · refine ⟨st, ∅, ?_, hc, by simp, .inr hp, .refl D st, rfl⟩
    unfold precDecrementBy
    rw [hc.inv.dead p hp]
  obtain ⟨r, o, hr, ho, hrec⟩ := hc.inv.tracked_of_held hp hh
  have hmem : (S, k) ∈ st.holders p := mem_holders.2 hh
  have hrec' := record_decrement hrec hmem none
  set r' := r.decremented (some ⟨S, some k, none⟩) with hr'
  have hrun : precDecrementBy del st p (some ⟨S, some k, none⟩) =
      if r'.refcount = 0 then del (st.setPrec p r') p else .ok (st.setPrec p r') := by
    unfold precDecrementBy
    rw [hr]
  have hcount : (st.setPrec p r').tracker.keys.length = st.tracker.keys.length :=
    Table.length_keys_insert r' hr
  by_cases h0 : r'.refcount = 0
  · -- the last reference
    have hcard := hrec'.count
    have hx : extra p = 0 := by omega
    have herase : (st.holders p).erase (S, k) = ∅ := Finset.card_eq_zero.1 (by omega)
    have honly : st.holders p = {(S, k)} := by
      rw [← Finset.insert_erase hmem, herase]
      rfl
    by_cases hoff : p ∈ off
    · -- the record goes, and `p` stays
      rw [callbackType_of_mem hoff] at hrec'
      obtain ⟨c, hctx, hfree, -⟩ := hrec'.ctx
      have hnil : ∀ k', r'.recorded k' = [] := by
        intro k'
        refine List.eq_nil_iff_forall_not_mem.2 fun S' hS' => ?_
        have := (hrec'.mem S' k').1 hS'
        rw [herase] at this; cases this
      have hlt : ((st.setPrec p r').delPrec p).tracker.keys.length ≤ st.tracker.keys.length :=
        hcount ▸ (Table.length_keys_erase_lt (by rw [lookup_setPrec, if_pos rfl])).le
      refine ⟨(st.setPrec p r').delPrec p, {(S, k)}, ?_, ⟨?_, hc.sub, hc.same, hc.fewer, ?_⟩,
        Finset.Subset.refl _, .inl (Finset.mem_singleton_self _),
        ⟨fun _ _ => rfl, fun _ _ _ h => h, hlt⟩, rfl⟩
      · rw [hrun, if_pos h0]
        exact hdel.record _ p r' c (by rw [lookup_setPrec, if_pos rfl]) hctx hfree hnil (by omega)
      · exact hc.inv.uncounted rfl (fun q => lookup_setPrec_delPrec p q r') hh honly.subset
      · intro q rq h1 h2
        rw [lookup_setPrec_delPrec] at h2
        split at h2
        · rename_i hq
          exact .inr (.inr (hq ▸ ⟨hoff, hx⟩))
        · exact hc.kept q rq h1 h2
    -- `p` is released
    obtain ⟨st', hok, hc', haft, hgone⟩ := decrement_last hdel hX hc hn
      (hS.imp (fun h => hc.sub h) And.right) hh hp hoff hx honly
    have hheap : st'.heap.lookup S = st.heap.lookup S := by
      rcases hS with hS | hS
      · exact haft.keep S hS
      · rw [hc'.same S hS.1, hc.same S hS.1]
    refine ⟨st', {(S, k)}, hok, ⟨hc'.inv.released hp ((held_congr hheap k).trans hh) ?_, hc.sub,
      hc'.same, hc'.fewer, ?_⟩, Finset.Subset.refl _, .inl (Finset.mem_singleton_self _), haft, hheap⟩
    · rintro ⟨S', k'⟩ h'
      obtain ⟨e, he, ht⟩ := held_eq_some.1 (mem_holders.1 h')
      rw [← honly]
      exact mem_holders.2 (held_eq_some.2 ⟨e, haft.fewer S' k' e he, ht⟩)
    · intro q rq h1 h2
      rcases hc'.kept q rq h1 h2 with (rfl | hq) | hq
      · exact .inr (.inl hgone)
      · exact .inl hq
      · exact .inr hq
  · refine ⟨st.setPrec p r', {(S, k)}, by rw [hrun, if_neg h0], ?_, Finset.Subset.refl _,
      .inl (Finset.mem_singleton_self _), ⟨fun _ _ => rfl, fun _ _ _ h => h, hcount.le⟩, rfl⟩
    refine ⟨hc.inv.setPrec hp hh ho (Nat.pos_of_ne_zero h0) hrec', hc.sub, hc.same, hc.fewer, ?_⟩
    intro q rq h1 h2
    rw [lookup_setPrec] at h2
    split at h2
    · cases h2
    · exact hc.kept q rq h1 h2

/-- `rpc_struct_remove` of a key that is there, as its two halves. -/
theorem removeBy_of_held {S : Addr} {k : CStr} {s : RpcStruct} {e : RpcTypeT}
    (hs : st.struct? S = some s) (he : s.map.lookup k = some e) {st1 : State} {s1 : RpcStruct}
    {e1 : RpcTypeT}
    (h1 : untrackElementBy del st S k e = .ok st1)
    (hs1 : st1.struct? S = some s1) (he1 : s1.map.lookup k = some e1) :
    rpcStructRemoveBy del st S k =
      .ok (st1.setObj S (.struct { s1 with map := s1.map.erase k }), 0) := by
  simp only [rpcStructRemoveBy, hs, he]
  rw [h1]
  simp only [bind, Except.bind, dropEntry, hs1, he1]

/-- One entry of a struct under release. -/
theorem remove_spec (hdel : DelSpec off extra X st0 del n)
    (hX : Closed Prod.fst st0.heldAt {q | 0 < raised off extra q} cut X) (hc : Casc off extra X st0 D ∅ st)
    (hn : st.tracker.keys.length ≤ n) {S : Addr} (hS : S ∈ D) {s : RpcStruct}
    (hs : st.struct? S = some s) (k : CStr) :
    ∃ st', Prod.fst <$> rpcStructRemoveBy del st S k = .ok st' ∧ Casc off extra X st0 D ∅ st' ∧
      After (D \ {S}) st st' ∧
      ∃ s', st'.struct? S = some s' ∧
        ∀ k', s'.map.lookup k' = if k' = k then none else s.map.lookup k' := by
  cases he : s.map.lookup k with
  | none =>
    refine ⟨st, ?_, hc, .refl _ st, s, hs, fun k' => ?_⟩
    · simp [rpcStructRemoveBy, hs, he]
    · split
      · rename_i h; subst h; exact he
      · rfl
  | some e =>
    have hentry : st.entry S k = some e := entry_eq_some.2 ⟨s, hs, he⟩
    obtain ⟨st1, Q, h1, hc1, hQ, hk, haft, hheap⟩ : ∃ st1 Q,
        untrackElementBy del st S k e = .ok st1 ∧
        Casc off extra X st0 D Q st1 ∧ Q ⊆ {(S, k)} ∧
        (∀ p, st.held S k = some p → (S, k) ∈ Q ∨ p ∈ D) ∧ After D st st1 ∧
        st1.heap.lookup S = st.heap.lookup S := by
      unfold untrackElementBy
      cases ht : e.target with
      | none =>
        refine ⟨st, ∅, rfl, hc, by simp, fun p hp => ?_, .refl D st, rfl⟩
        simp [held, hentry, ht] at hp
      | some p =>
        have hh : st.held S k = some p := held_eq_some.2 ⟨e, hentry, ht⟩
        obtain ⟨st1, Q, h1, hc1, hQ, hk, haft, hheap⟩ := decrement_spec hdel hX hc hn (.inl hS) hh
        refine ⟨st1, Q, h1, hc1, hQ, fun q hq => ?_, haft, hheap⟩
        rw [hh] at hq; cases hq; exact hk
    have hs1 : st1.struct? S = some s := (struct?_congr hheap).trans hs
    have hrun := removeBy_of_held hs he h1 hs1 he
    refine ⟨_, by rw [hrun]; rfl, ?_, ?_, ?_⟩
    · refine ⟨hc1.inv.dropEntry hs1 hQ fun p hp => hk p ?_, hc.sub, ?_, ?_, ?_⟩
      · exact (held_congr hheap k).symm.trans hp
      · intro a ha
        rw [lookup_setObj, if_neg (by rintro rfl; exact ha (hc.sub hS))]
        exact hc1.same a ha
      · intro S' k' e' h'
        rw [entry_dropEntry hs1] at h'
        split at h'
        · cases h'
        · exact hc1.fewer S' k' e' h'
      · intro q rq h2 h3
        refine (hc1.kept q rq h2 h3).imp id (Or.imp_left fun hq => ?_)
        rw [lookup_setObj, if_neg]
        · exact hq
        · rintro rfl
          rw [struct?_eq_some.1 hs1] at hq; cases hq
    · refine ⟨fun a ha => ?_, fun S' k' e' h' => ?_, haft.count⟩
      · rw [lookup_setObj, if_neg (Set.notMem_singleton_iff.1 ha.2)]
        exact haft.keep a ha.1
      · rw [entry_dropEntry hs1] at h'
        split at h'
        · cases h'
        · exact haft.fewer S' k' e' h'
    · refine ⟨{ s with map := s.map.erase k }, ?_, fun k' => ?_⟩
      · rw [struct?_setObj_struct, if_pos rfl]
      · exact Table.lookup_erase_if ..

/-- The loop that empties a struct under release, in any order. -/
theorem freeInternals_spec (hdel : DelSpec off extra X st0 del n)
    (hX : Closed Prod.fst st0.heldAt {q | 0 < raised off extra q} cut X) (hc : Casc off extra X st0 D ∅ st)
    (hn : st.tracker.keys.length ≤ n) {S : Addr} (hS : S ∈ D) {s : RpcStruct}
    (hs : st.struct? S = some s) :
    ∃ st', rpcStructFreeInternalsBy E del st S = .ok st' ∧ Casc off extra X st0 D ∅ st' ∧
      After (D \ {S}) st st' ∧ (∃ s', st'.struct? S = some s') ∧ ∀ k, st'.entry S k = none := by
  let I : List CStr → State → Prop := fun done st' =>
    Casc off extra X st0 D ∅ st' ∧ After (D \ {S}) st st' ∧
      ∃ s', st'.struct? S = some s' ∧
        ∀ k, s'.map.lookup k = if k ∈ done then none else s.map.lookup k
  obtain ⟨st', hok, hc', haft, s', hs', hmap⟩ :=
    foldlM_inv (f := fun st key => Prod.fst <$> rpcStructRemoveBy del st S key) I
      (E.order st S s.map.keys) [] st
      ⟨hc, .refl _ st, s, hs, by simp⟩ (by
        rintro done st1 k - ⟨hc1, haft1, s1, hs1, hmap1⟩
        obtain ⟨st2, hok2, hc2, haft2, s2, hs2, hmap2⟩ :=
          remove_spec hdel hX hc1 (haft1.count.trans hn) hS hs1 k
        refine ⟨st2, hok2, hc2, haft1.trans haft2, s2, hs2, fun k' => ?_⟩
        rw [hmap2, hmap1]
        by_cases hk : k' = k <;> simp [hk])
  refine ⟨st', ?_, hc', haft, ⟨s', hs'⟩, fun k => ?_⟩
  · unfold rpcStructFreeInternalsBy
    rw [hs]; exact hok
  · rw [entry_of_struct hs', hmap]
    split
    · rfl
    · rename_i hk
      cases hl : s.map.lookup k with
      | none => rfl
      | some e =>
        exfalso
        apply hk
        rw [List.append_nil, List.mem_reverse, (E.order_perm ..).mem_iff]
        exact Table.mem_keys_iff.2 ⟨e, hl⟩

/-- The release of an object without a record, by its kind. -/
def releaseBy (E : Env) (del : State → Addr → Except Fault State) :
    Obj → State → Addr → Except Fault State
  | .struct _ => rpcStructFreeInternalBy E del
  | o => State.release o.type

/-- The release of one object: a struct is emptied first, the others hold nothing. -/
theorem release_spec (hdel : DelSpec off extra X st0 del n)
    (hX : Closed Prod.fst st0.heldAt {q | 0 < raised off extra q} cut X) (hc : Casc off extra X st0 D ∅ st)
    (hn : st.tracker.keys.length ≤ n) {p : Addr} (hp : p ∈ D) {o : Obj}
    (ho : st.heap.lookup p = some o) :
    ∃ st', releaseBy E del o st p = .ok st' ∧ Casc off extra X st0 D ∅ st' ∧
      After (D \ {p}) st st' ∧ st'.heap.lookup p = none := by
  have hfree : ∀ st1 : State, Casc off extra X st0 D ∅ st1 → (∀ k, st1.entry p k = none) →
      Casc off extra X st0 D ∅ (st1.delObj p) ∧ After (D \ {p}) st1 (st1.delObj p) ∧
        (st1.delObj p).heap.lookup p = none := by
    intro st1 hc1 hnone
    refine ⟨⟨hc1.inv.delObj hp hnone, hc.sub, ?_, ?_, ?_⟩, ⟨?_, ?_, Nat.le_refl _⟩, ?_⟩
    · intro a ha
      rw [lookup_delObj, if_neg (by rintro rfl; exact ha (hc.sub hp))]
      exact hc1.same a ha
    · intro S k e he
      refine hc1.fewer S k e ?_
      rw [entry, struct?_delObj] at he
      split at he
      · cases he
      · exact he
    · intro q rq h1 h2
      refine (hc1.kept q rq h1 h2).imp id (Or.imp_left fun hq => ?_)
      rw [lookup_delObj]; split
      · rfl
      · exact hq
    · intro a ha
      rw [lookup_delObj, if_neg (Set.notMem_singleton_iff.1 ha.2)]
    · intro S k e he
      rw [entry, struct?_delObj] at he
      split at he
      · cases he
      · exact he
    · rw [lookup_delObj, if_pos rfl]
  have hflat : ∀ t, o.type = t → (∀ k, st.entry p k = none) →
      ∃ st', State.release t st p = .ok st' ∧ Casc off extra X st0 D ∅ st' ∧
        After (D \ {p}) st st' ∧ st'.heap.lookup p = none := by
    intro t ht hnone
    refine ⟨st.delObj p, ?_, hfree st hc hnone⟩
    unfold State.release
    rw [ho]; simp [ht]
  cases o with
  | struct s =>
    obtain ⟨st1, h1, hc1, haft, ⟨s1, hs1⟩, hnone⟩ :=
      freeInternals_spec (E := E) hdel hX hc hn hp (struct?_eq_some.2 ho)
    obtain ⟨hc2, haft2, hgone⟩ := hfree st1 hc1 hnone
    refine ⟨st1.delObj p, ?_, hc2, haft.trans haft2, hgone⟩
    simp only [releaseBy, rpcStructFreeInternalBy, h1, bind, Except.bind, State.release,
      struct?_eq_some.1 hs1, Obj.type, if_true]
  | sizedbuf b => exact hflat _ rfl fun k => by simp [entry, struct?, ho]
  | function f => exact hflat _ rfl fun k => by simp [entry, struct?, ho]

/-- `prec_ctx_destroy` calls the release function of the object's type; the
record is gone, so that is the one for untracked objects. -/
theorem precCtxDestroy_eq {p : Addr} (hp : p ≠ 0) (hr : st.tracker.lookup p = none) {o : Obj}
    {c : PrecPtrCtx} (hc : c.free = rpcFreefnOf o.type) :
    rpcStructPrecCtxDestroyBy E del st p c = releaseBy E del o st p := by
  unfold rpcStructPrecCtxDestroyBy
  cases o <;>
    simp [hc, rpcFreefnOf, Obj.type, releaseBy, rpcSizedbufFreeBy, rpcFunctionFreeBy, freeBy, hp, hr]

/-- With no recorded origin the zero callback only releases the object. -/
theorem onzero_eq {p : Addr} {r : Prec} {c : PrecPtrCtx} (hctx : r.context = some c)
    (hnil : ∀ k, r.recorded k = []) :
    rpcStructOnzeroCbBy E del st p r = rpcStructPrecCtxDestroyBy E del st p c := by
  have hloop : ∀ ks : List CStr, ks.foldlM (onzeroKeyBy del c) st = .ok st := by
    intro ks
    obtain ⟨st', hok, rfl⟩ := foldlM_inv (f := onzeroKeyBy del c) (fun _ s => s = st) ks [] st rfl
      (by
        rintro - s k - rfl
        refine ⟨s, ?_, rfl⟩
        have := hnil k
        simp only [Prec.recorded, hctx] at this
        unfold onzeroKeyBy
        cases hl : c.keys.lookup k with
        | none => rfl
        | some ctx =>
          rw [hl, Option.map_some, Option.getD_some] at this
          simp only [this]
          rfl)
    exact hok
  unfold rpcStructOnzeroCbBy
  simp only [hctx]
  rw [hloop]; rfl

/-- Every bound of at least the number of records is enough. -/
theorem precDelete_spec (E : Env) (hX : Closed Prod.fst st0.heldAt {q | 0 < raised off extra q} cut X) :
    ∀ n, DelSpec off extra X st0 (precDelete E n) n := by
  intro n
  induction n with
  | zero =>
    refine ⟨fun st D p r o c hr _ _ _ _ _ _ hn => ?_, fun st p r c hr _ _ _ hn => ?_⟩
    · have := List.length_pos_of_mem (Table.mem_keys_iff.2 ⟨r, hr⟩)
      omega
    · have := List.length_pos_of_mem (Table.mem_keys_iff.2 ⟨r, hr⟩)
      omega
  | succ n ih =>
    refine ⟨fun st D p r o c hr hctx hfree hnil ho hp hc hn => ?_,
      fun st p r c hr hctx hfree hnil hn => ?_⟩
    · have hgone : (st.delPrec p).tracker.lookup p = none := by rw [lookup_delPrec, if_pos rfl]
      have hp0 : p ≠ 0 := by
        rintro rfl
        have := hc.inv.null
        rw [heap_delPrec, ho] at this; cases this
      have hlt : (st.delPrec p).tracker.keys.length < st.tracker.keys.length :=
        Table.length_keys_erase_lt hr
      obtain ⟨st', hok, hc', haft, hnone⟩ := release_spec (E := E) (o := o) ih hX hc (by omega)
        (Set.mem_insert p D) ho
      refine ⟨st', ?_, hc', ⟨?_, haft.fewer, haft.count.trans hlt.le⟩, hnone⟩
      · simp only [precDelete, hr]
        rw [onzero_eq hctx hnil, precCtxDestroy_eq hp0 hgone hfree, hok]
      · intro a ha
        exact haft.keep a ⟨.inr ha, by rintro rfl; exact hp ha⟩
    · simp only [precDelete, hr]
      rw [onzero_eq hctx hnil, rpcStructPrecCtxDestroyBy, hfree]

end Cascade

end FfiRpc
