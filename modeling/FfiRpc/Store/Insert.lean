import FfiRpc.Store.Free

/-!
# Creation, insertion and shallow copies

`Inv.insertEntry` is the one step behind every insertion: a new entry `(S, k)`
whose object's record is brought to describe it. `set_spec` instantiates it for
`rpc_struct_set`, which counts the entry once, and `copyElement_spec` for the
loop of `rpc_struct_copy`, which counts it twice: the reference that has no
entry of its own goes to `extra` (`RpcStruct.refs` per object).

`Stored` is the second invariant of a state, about what is not counted: the ID
field and a number keep their size, a pointer entry is never `NULL`, and the block of a string
belongs to one entry.
-/
namespace FfiRpc

open State

/-- The elements `c_to_rpc` builds: a C type is never `RPC_none`, and has one of
these sizes.
mirrors include/ffirpc/rpc_struct_internal.h:60-69 (`c_to_rpc`) -/
def RpcTypeT.Sized : RpcTypeT → Prop
  | .none => False
  | .number raw => raw.length ∈ [1, 2, 4, 8]
  | .real raw => raw.length ∈ [4, 8]
  | _ => True

/-- Structs as the API stores them. -/
structure Stored (st : State) : Prop where
  idSize : ∀ S s, st.struct? S = some s → s.ID.length = 65
  sized : ∀ S k e, st.entry S k = some e → e.Sized
  nonnull : ∀ S k e, st.entry S k = some e → rpcIsPointer e.type = true → e.ptrValue ≠ 0
  once : ∀ S k a t S' k' t', st.entry S k = some (.string a t) →
    st.entry S' k' = some (.string a t') → S' = S ∧ k' = k
  apart : ∀ S k a t, st.entry S k = some (.string a t) → st.heap.lookup a = none

/-- The number of keys under which a struct holds `p`. -/
def RpcStruct.refs (s : RpcStruct) (p : Addr) : Nat :=
  s.map.keys.countP fun k => (s.map.lookup k).bind RpcTypeT.target = some p

/-- Equal up to the block that carries a string. -/
def RpcTypeT.SameValue : RpcTypeT → RpcTypeT → Prop
  | .string _ t, .string _ t' => t' = t
  | e, e' => e' = e

section
variable {E : Env} {off : Finset Addr} {extra extra' : Addr → Nat} {st st1 : State}

namespace State

/-- The entries after an insertion. -/
theorem entry_insert {S : Addr} {s : RpcStruct} (hs : st.struct? S = some s)
    (hheap : st1.heap = st.heap) (k : CStr) (e : RpcTypeT) (S' : Addr) (k' : CStr) :
    (st1.setObj S (.struct { s with map := s.map.insert k e })).entry S' k' =
      if S' = S ∧ k' = k then some e else st.entry S' k' := by
  have hsame : st1.entry S' k' = st.entry S' k' := entry_congr (by rw [hheap]) k'
  rw [entry_setObj_struct, Table.lookup_insert_if]
  by_cases hS : S' = S
  · subst hS
    simp [entry_of_struct hs]
  · simp [hS, hsame]

theorem held_insert {S : Addr} {s : RpcStruct} (hs : st.struct? S = some s)
    (hheap : st1.heap = st.heap) (k : CStr) (e : RpcTypeT) (S' : Addr) (k' : CStr) :
    (st1.setObj S (.struct { s with map := s.map.insert k e })).held S' k' =
      if S' = S ∧ k' = k then e.target else st.held S' k' := by
  unfold held
  rw [entry_insert hs hheap]
  split <;> rfl

/-- A new entry makes one more holder. -/
theorem holders_insert {S : Addr} {s : RpcStruct} (hs : st.struct? S = some s)
    (hheap : st1.heap = st.heap) {k : CStr} (hk : s.map.lookup k = none) (e : RpcTypeT) (q : Addr) :
    (st1.setObj S (.struct { s with map := s.map.insert k e })).holders q =
      if e.target = some q then insert (S, k) (st.holders q) else st.holders q := by
  have hentry : st.entry S k = none := by rw [entry_of_struct hs, hk]
  ext ⟨S', k'⟩
  rw [mem_holders, held_insert hs hheap]
  by_cases hSk : S' = S ∧ k' = k
  · obtain ⟨rfl, rfl⟩ := hSk
    have hno : (S', k') ∉ st.holders q := by
      rw [mem_holders]; simp [held, hentry]
    by_cases hq : e.target = some q <;> simp [hq, hno]
  · have hne : (S', k') ≠ (S, k) := fun hc => hSk (Prod.mk.inj hc)
    rw [if_neg hSk, ← mem_holders]
    split
    · rw [Finset.mem_insert]; simp [hne]
    · rfl

end State

/-- A new entry, counted by the record of its object. -/
theorem Inv.insertEntry (h : Inv off extra ∅ ∅ st) {S : Addr} {s : RpcStruct}
    (hs : st.struct? S = some s) {k : CStr} (hk : s.map.lookup k = none) {e : RpcTypeT}
    (hheap : st1.heap = st.heap)
    (htr : ∀ q, e.target ≠ some q →
      st1.tracker.lookup q = st.tracker.lookup q ∧ extra' q = extra q)
    (hnew : ∀ p, e.target = some p → ∃ o r, st.heap.lookup p = some o ∧ o.type = e.type ∧
      st1.tracker.lookup p = some r ∧ 0 < r.refcount ∧
      Record (extra' p) (insert (S, k) (st.holders p)) (callbackType off p o.type) r) :
    Inv off extra' ∅ ∅ (st1.setObj S (.struct { s with map := s.map.insert k e })) := by
  set st2 := st1.setObj S (.struct { s with map := s.map.insert k e }) with hst2
  have hs1 : st1.struct? S = some s := (struct?_congr (by rw [hheap])).trans hs
  have hkeep : ∀ a o, st.heap.lookup a = some o →
      ∃ o', st2.heap.lookup a = some o' ∧ o'.type = o.type := fun a o ho =>
    lookup_setObj_type _ hs1 (by rw [hheap]; exact ho)
  have hS0 : S ≠ 0 := by
    rintro rfl
    have := struct?_eq_some.1 hs
    rw [h.null] at this; cases this
  have hhold := holders_insert hs hheap hk e
  refine ⟨?_, fun _ hp => absurd hp (Set.notMem_empty _), ?_, ?_, ?_⟩
  · rw [hst2, lookup_setObj, if_neg (Ne.symm hS0), hheap]; exact h.null
  · intro S' k' e' p he ht _ _
    rw [hst2, entry_insert hs hheap] at he
    split at he
    · cases he
      obtain ⟨o, r, ho, hty, -⟩ := hnew p ht
      obtain ⟨o', ho', hty'⟩ := hkeep p o ho
      exact ⟨o', ho', hty'.trans hty⟩
    · obtain ⟨o, ho, hty⟩ := h.typed S' k' e' p he ht (Set.notMem_empty _) (Finset.notMem_empty _)
      obtain ⟨o', ho', hty'⟩ := hkeep p o ho
      exact ⟨o', ho', hty'.trans hty⟩
  · intro q _ hr
    rw [hhold]
    by_cases hq : e.target = some q
    · obtain ⟨o, r, -, -, hr', -⟩ := hnew q hq
      rw [hst2, tracker_setObj, hr'] at hr; cases hr
    · rw [hst2, tracker_setObj, (htr q hq).1] at hr
      rw [if_neg hq]
      exact h.untracked q (Set.notMem_empty _) hr
  · intro q r hr
    rw [hst2, tracker_setObj] at hr
    rw [hhold, Finset.sdiff_empty]
    by_cases hq : e.target = some q
    · obtain ⟨o, r', ho, -, hr', hpos, hrec⟩ := hnew q hq
      rw [hr'] at hr; cases hr
      obtain ⟨o', ho', hty⟩ := hkeep q o ho
      exact ⟨hpos, o', ho', by rw [if_pos hq, hty]; exact hrec⟩
    · rw [(htr q hq).1] at hr
      obtain ⟨hpos, o, ho, hrec⟩ := h.tracked q r hr
      obtain ⟨o', ho', hty⟩ := hkeep q o ho
      rw [Finset.sdiff_empty] at hrec
      exact ⟨hpos, o', ho', by rw [if_neg hq, (htr q hq).2, hty]; exact hrec⟩

/-- A new object that holds nothing. -/
theorem Inv.create (h : Inv off extra ∅ ∅ st) {a : Addr} {o : Obj} (ha : st.heap.lookup a = none)
    (h0 : a ≠ 0) (hnone : ∀ k, (st.setObj a o).entry a k = none) :
    Inv off extra ∅ ∅ (st.setObj a o) := by
  have hentry : ∀ S k, (st.setObj a o).entry S k = st.entry S k := by
    intro S k
    by_cases hS : S = a
    · subst hS
      rw [hnone]; simp [entry, struct?, ha]
    · exact entry_congr (by rw [lookup_setObj, if_neg hS]) k
  have hkeep : ∀ q o', st.heap.lookup q = some o' → (st.setObj a o).heap.lookup q = some o' := by
    intro q o' hq
    rw [lookup_setObj, if_neg]
    · exact hq
    · rintro rfl; rw [ha] at hq; cases hq
  have hhold := holders_congr fun S k => show (st.setObj a o).held S k = st.held S k by
    unfold held; rw [hentry]
  refine ⟨?_, fun _ hp => absurd hp (Set.notMem_empty _), ?_, ?_, ?_⟩
  · rw [lookup_setObj, if_neg (Ne.symm h0)]; exact h.null
  · intro S k e p he ht hp hQ
    rw [hentry] at he
    obtain ⟨o', ho', hty⟩ := h.typed S k e p he ht hp hQ
    exact ⟨o', hkeep p o' ho', hty⟩
  · intro q hq hr
    rw [hhold]; exact h.untracked q hq hr
  · intro q r hr
    obtain ⟨hpos, o', ho', hrec⟩ := h.tracked q r hr
    exact ⟨hpos, o', hkeep q o' ho', by rwa [hhold]⟩

/-- An update of an object that is not a struct, or of a struct outside its map. -/
theorem Inv.update (h : Inv off extra ∅ ∅ st) {a : Addr} {o o' : Obj} (ho : st.heap.lookup a = some o)
    (hty : o'.type = o.type) (hsame : ∀ S k, (st.setObj a o').entry S k = st.entry S k) :
    Inv off extra ∅ ∅ (st.setObj a o') := by
  have h0 : a ≠ 0 := by rintro rfl; rw [h.null] at ho; cases ho
  have hkeep : ∀ q oq, st.heap.lookup q = some oq →
      ∃ oq', (st.setObj a o').heap.lookup q = some oq' ∧ oq'.type = oq.type := by
    intro q oq hq
    rw [lookup_setObj]
    split
    · rename_i hqa
      subst hqa
      rw [ho] at hq; cases hq
      exact ⟨o', rfl, hty⟩
    · exact ⟨oq, hq, rfl⟩
  have hhold := holders_congr fun S k => show (st.setObj a o').held S k = st.held S k by
    unfold held; rw [hsame]
  refine ⟨?_, fun _ hp => absurd hp (Set.notMem_empty _), ?_, ?_, ?_⟩
  · rw [lookup_setObj, if_neg (Ne.symm h0)]; exact h.null
  · intro S k e p he ht hp hQ
    rw [hsame] at he
    obtain ⟨oq, hq, hty⟩ := h.typed S k e p he ht hp hQ
    obtain ⟨oq', hq', hty'⟩ := hkeep p oq hq
    exact ⟨oq', hq', hty'.trans hty⟩
  · intro q hq hr
    rw [hhold]; exact h.untracked q hq hr
  · intro q r hr
    obtain ⟨hpos, oq, hq, hrec⟩ := h.tracked q r hr
    obtain ⟨oq', hq', hty'⟩ := hkeep q oq hq
    exact ⟨hpos, oq', hq', by rw [hhold, hty']; exact hrec⟩

/-! ## What stays stored

`Stored` is lost neither by taking entries out nor by releasing objects: it says nothing of
what is not there. -/

/-- Fewer entries, the same IDs. -/
theorem Stored.fewer {st' : State} (h : Stored st)
    (hid : ∀ S s', st'.struct? S = some s' → ∃ s, st.struct? S = some s ∧ s'.ID = s.ID)
    (hfewer : ∀ S k e, st'.entry S k = some e → st.entry S k = some e)
    (hheap : ∀ a, st.heap.lookup a = none → st'.heap.lookup a = none) : Stored st' := by
  refine ⟨fun S s' hs => ?_, fun S k e he => h.sized S k e (hfewer S k e he),
    fun S k e he => h.nonnull S k e (hfewer S k e he), ?_, ?_⟩
  · obtain ⟨s, hs', hid'⟩ := hid S s' hs
    rw [hid']; exact h.idSize S s hs'
  · intro S k a t S' k' t' h1 h2
    exact h.once S k a t S' k' t' (hfewer _ _ _ h1) (hfewer _ _ _ h2)
  · intro S k a t h1
    exact hheap a (h.apart S k a t (hfewer _ _ _ h1))

/-- An update of a struct outside its map. -/
theorem entry_update {S : Addr} {s s' : RpcStruct} (hs : st.struct? S = some s)
    (hmap : s'.map = s.map) (S' : Addr) (k : CStr) :
    (st.setObj S (.struct s')).entry S' k = st.entry S' k := by
  rw [entry_setObj_struct]
  split
  · rename_i hS
    rw [hS, entry_of_struct hs, hmap]
  · rfl

/-- Both invariants through such an update. -/
theorem update_step (h : Inv off extra ∅ ∅ st) (hst : Stored st) {S : Addr} {s : RpcStruct}
    (hs : st.struct? S = some s) (s' : RpcStruct) (hmap : s'.map = s.map) (hlen : s'.ID.length = 65) :
    Stored (st.setObj S (.struct s')) ∧ Inv off extra ∅ ∅ (st.setObj S (.struct s')) := by
  have hentry := entry_update hs hmap
  refine ⟨⟨fun S' s1 hs' => ?_, fun S' k e he => hst.sized S' k e (hentry S' k ▸ he),
    fun S' k e he => hst.nonnull S' k e (hentry S' k ▸ he),
    fun S1 k1 a t S2 k2 t' h1 h2 => ?_, fun S' k a t h1 => ?_⟩,
    h.update (struct?_eq_some.1 hs) rfl hentry⟩
  · rw [struct?_setObj_struct] at hs'
    split at hs'
    · cases hs'
      exact hlen
    · exact hst.idSize S' s1 hs'
  · rw [hentry] at h1 h2
    exact hst.once S1 k1 a t S2 k2 t' h1 h2
  · rw [hentry] at h1
    have hnone := hst.apart S' k a t h1
    rw [lookup_setObj, if_neg]
    · exact hnone
    · intro ha
      rw [ha, struct?_eq_some.1 hs] at hnone
      cases hnone

/-- A surviving struct comes from a struct with the same ID and more entries. -/
theorem Outcome.back {R : Set Addr} {P : Set (Addr × CStr)} {st' : State} (h : Outcome R P st st')
    {S : Addr} {s' : RpcStruct} (hs' : st'.struct? S = some s') : ∃ s, st.struct? S = some s ∧
      s'.ID = s.ID ∧ ∀ k e, s'.map.lookup k = some e → s.map.lookup k = some e := by
  have hl' := struct?_eq_some.1 hs'
  have hR : S ∉ R := fun hR => by rw [h.gone S hR] at hl'; cases hl'
  cases hl : st.heap.lookup S with
  | none => rw [h.fresh S hl] at hl'; cases hl'
  | some o =>
    obtain ⟨o', ho', hless⟩ := h.stay S o hR hl
    rw [hl'] at ho'; cases ho'
    cases o with
    | sizedbuf b => cases hless
    | function f => cases hless
    | struct s =>
      refine ⟨s, struct?_eq_some.2 hl, hless.1, fun k e he => ?_⟩
      by_cases hk : (S, k) ∈ P
      · rw [(hless.2.2 k).1 hk] at he; cases he
      · rwa [(hless.2.2 k).2 hk] at he

theorem Outcome.fewer {R : Set Addr} {P : Set (Addr × CStr)} {st' : State} (h : Outcome R P st st')
    {S : Addr} {k : CStr} {e : RpcTypeT} (he : st'.entry S k = some e) : st.entry S k = some e := by
  obtain ⟨s', hs', hk⟩ := entry_eq_some.1 he
  obtain ⟨s, hs, -, hmap⟩ := h.back hs'
  exact entry_eq_some.2 ⟨s, hs, hmap k e hk⟩

/-- A release. -/
theorem Stored.outcome {R : Set Addr} {P : Set (Addr × CStr)} {st' : State} (h : Stored st)
    (ho : Outcome R P st st') : Stored st' := by
  refine h.fewer (fun S s' hs' => ?_) (fun S k e he => ho.fewer he) ho.fresh
  obtain ⟨s, hs, hid, -⟩ := ho.back hs'
  exact ⟨s, hs, hid⟩

/-- A new entry, whose text lies in a block of its own. -/
theorem Stored.insertEntry (h : Stored st) {S : Addr} {s : RpcStruct} (hs : st.struct? S = some s)
    {k : CStr} {e : RpcTypeT} (hheap : st1.heap = st.heap) (hsz : e.Sized)
    (hnn : rpcIsPointer e.type = true → e.ptrValue ≠ 0)
    (hfresh : ∀ a t, e = .string a t → ¬ st.InUse a) :
    Stored (st1.setObj S (.struct { s with map := s.map.insert k e })) := by
  refine ⟨fun S' s' hs' => ?_, ?_, ?_, ?_, ?_⟩
  · rw [struct?_setObj_struct] at hs'
    split at hs'
    · cases hs'; exact h.idSize S s hs
    · have hsame : st1.struct? S' = st.struct? S' := struct?_congr (by rw [hheap])
      exact h.idSize S' s' (hsame ▸ hs')
  · intro S' k' e' he
    rw [entry_insert hs hheap] at he
    split at he
    · cases he; exact hsz
    · exact h.sized S' k' e' he
  · intro S' k' e' he
    rw [entry_insert hs hheap] at he
    split at he
    · cases he; exact hnn
    · exact h.nonnull S' k' e' he
  · intro S1 k1 a t S2 k2 t' h1 h2
    rw [entry_insert hs hheap] at h1 h2
    by_cases hc1 : S1 = S ∧ k1 = k <;> by_cases hc2 : S2 = S ∧ k2 = k
    · exact ⟨hc2.1.trans hc1.1.symm, hc2.2.trans hc1.2.symm⟩
    · rw [if_pos hc1] at h1; rw [if_neg hc2] at h2
      exact absurd (.inr (.inr ⟨S2, k2, t', h2⟩)) (hfresh a t (Option.some.inj h1))
    · rw [if_neg hc1] at h1; rw [if_pos hc2] at h2
      exact absurd (.inr (.inr ⟨S1, k1, t, h1⟩)) (hfresh a t' (Option.some.inj h2))
    · rw [if_neg hc1] at h1; rw [if_neg hc2] at h2
      exact h.once S1 k1 a t S2 k2 t' h1 h2
  · intro S' k' a t h1
    rw [entry_insert hs hheap] at h1
    have hnone : st.heap.lookup a = none := by
      split at h1
      · have := hfresh a t (Option.some.inj h1)
        cases hl : st.heap.lookup a with
        | none => rfl
        | some o => exact absurd (.inr (.inl ⟨o, hl⟩)) this
      · exact h.apart S' k' a t h1
    rw [lookup_setObj, if_neg, hheap, hnone]
    rintro rfl
    rw [struct?_eq_some.1 hs] at hnone; cases hnone

/-- A new object at an address not in use. -/
theorem Stored.create (h : Stored st) {a : Addr} {o : Obj} (ha : ¬ st.InUse a)
    (hid : ∀ s, o = .struct s → s.ID.length = 65)
    (hnone : ∀ k, (st.setObj a o).entry a k = none) : Stored (st.setObj a o) := by
  have hentry : ∀ S k e, (st.setObj a o).entry S k = some e → st.entry S k = some e := by
    intro S k e he
    by_cases hS : S = a
    · subst hS; rw [hnone] at he; cases he
    · have hsame : (st.setObj a o).entry S k = st.entry S k :=
        entry_congr (by rw [lookup_setObj, if_neg hS]) k
      exact hsame ▸ he
  refine ⟨fun S s hs => ?_, fun S k e he => h.sized S k e (hentry S k e he),
    fun S k e he => h.nonnull S k e (hentry S k e he), ?_, ?_⟩
  · rw [struct?_eq_some, lookup_setObj] at hs
    split at hs
    · exact hid s (Option.some.inj hs)
    · exact h.idSize S s (struct?_eq_some.2 hs)
  · intro S k b t S' k' t' h1 h2
    exact h.once S k b t S' k' t' (hentry _ _ _ h1) (hentry _ _ _ h2)
  · intro S k b t h1
    have h1' := hentry _ _ _ h1
    rw [lookup_setObj, if_neg]
    · exact h.apart S k b t h1'
    · rintro rfl
      exact ha (.inr (.inr ⟨S, k, t, h1'⟩))

/-! ## `rpc_struct_set`

An insertion tracks the object of the element and then stores the element, a string with a
copy of its text. The two parts touch different things: the tracker, and one struct of the
heap. -/

@[simp] theorem target_strdupElement (e : RpcTypeT) : (strdupElement E st e).target = e.target := by
  cases e <;> rfl

@[simp] theorem type_strdupElement (e : RpcTypeT) : (strdupElement E st e).type = e.type := by
  cases e <;> rfl

theorem sameValue_strdupElement (e : RpcTypeT) : e.SameValue (strdupElement E st e) := by
  cases e <;> rfl

theorem heap_trackElement (S : Addr) (k : CStr) (e : RpcTypeT) :
    (trackElement st S k e).heap = st.heap := by
  unfold trackElement
  split
  · rfl
  · unfold precIncrement precNew
    split <;> split <;> rfl

theorem heap_precIncrement (p : Addr) (u : Option PrecRpcUdata) :
    (precIncrement st p u).heap = st.heap := by
  unfold precIncrement
  split <;> rfl

/-- The record of the object of a new entry, before and after. -/
theorem lookup_trackElement {e : RpcTypeT} {p : Addr} (ht : e.target = some p) (S : Addr) (k : CStr)
    (q : Addr) :
    (trackElement st S k e).tracker.lookup q =
      if q = p then
        let r := (st.tracker.lookup p).getD ⟨0, none⟩
        some (rpcStructIncrementCb { r with refcount := r.refcount + 1 }
          (some ⟨S, some k, rpcFreefnOf e.type⟩))
      else st.tracker.lookup q := by
  unfold trackElement
  rw [ht]
  simp only [precIncrement, precNew]
  cases hr : st.tracker.lookup p with
  | none =>
    simp only [lookup_setPrec, if_true, Option.getD_none]
    split
    · rfl
    · rfl
  | some r =>
    simp only [hr, lookup_setPrec, Option.getD_some]

/-- All other records stay. -/
theorem trackElement_other {e : RpcTypeT} (S : Addr) (k : CStr) {q : Addr} (hq : e.target ≠ some q) :
    (trackElement st S k e).tracker.lookup q = st.tracker.lookup q := by
  cases ht : e.target with
  | none => simp [trackElement, ht]
  | some p =>
    rw [lookup_trackElement ht, if_neg]
    rintro rfl; exact hq ht

theorem rpcIsPointer_of_target {e : RpcTypeT} {p : Addr} (h : e.target = some p) :
    rpcIsPointer e.type = true ∧ e.ptrValue = p := by
  cases e <;> simp_all [RpcTypeT.target, RpcTypeT.type, RpcTypeT.ptrValue, rpcIsPointer]

theorem increment_refcount (r : Prec) (u : Option PrecRpcUdata) :
    (rpcStructIncrementCb r u).refcount = r.refcount := by
  unfold rpcStructIncrementCb
  split
  · rfl
  · simp only
    split
    · rfl
    · split <;> rfl

/-- The setter on a free key. -/
theorem setInternal_fresh {S : Addr} {s : RpcStruct} (hs : st.struct? S = some s) {k : CStr}
    (hk : s.map.lookup k = none) {e : RpcTypeT}
    (hnn : rpcIsPointer e.type = true → e.ptrValue ≠ 0) :
    rpcStructSetInternal E st S k e =
      .ok ((trackElement st S k e).setObj S
        (.struct { s with map := s.map.insert k (strdupElement E st e) }), 0) := by
  unfold rpcStructSetInternal
  rw [hs]
  simp only [hk]
  rw [if_neg]
  rintro hc
  simp only [Bool.and_eq_true, beq_iff_eq] at hc
  exact hnn hc.1 hc.2

/-- Storing an element, its text in a block taken while the heap was that of `st`. -/
theorem stored_strdup (h : Stored st) {S : Addr} {s : RpcStruct} (hs : st.struct? S = some s)
    {k : CStr} {e : RpcTypeT} {st2 : State} (hheap2 : st2.heap = st.heap)
    (hheap : st1.heap = st.heap) (hsz : e.Sized)
    (hnn : rpcIsPointer e.type = true → e.ptrValue ≠ 0) :
    Stored (st1.setObj S (.struct { s with map := s.map.insert k (strdupElement E st2 e) })) := by
  have hfresh : ¬ st.InUse (E.malloc st2) := by
    have := E.malloc_fresh st2
    simpa only [InUse, entry, struct?, hheap2] using this
  refine h.insertEntry hs hheap (by cases e <;> exact hsz) (fun hp => ?_) (fun a t he => ?_)
  · rw [type_strdupElement] at hp
    cases e with
    | string q t => exact fun h0 => hfresh (.inl h0)
    | _ => exact hnn hp
  · cases e with
    | string q t => cases he; exact hfresh
    | _ => cases he

/-- A successful insertion counts the entry once. -/
theorem set_spec (h : Inv off extra ∅ ∅ st) {S : Addr} {s : RpcStruct} (hs : st.struct? S = some s)
    {k : CStr} (hk : s.map.lookup k = none) {e : RpcTypeT}
    (htgt : ∀ p, e.target = some p → ∃ o, st.heap.lookup p = some o ∧ o.type = e.type)
    (hx : ∀ p, st.tracker.lookup p = none → extra p = 0)
    (hoff : ∀ p ∈ off, e.target = some p → ∃ r, st.tracker.lookup p = some r) :
    Inv off extra ∅ ∅ ((trackElement st S k e).setObj S
      (.struct { s with map := s.map.insert k (strdupElement E st e) })) := by
  have hS0 : S ≠ 0 := by
    rintro rfl
    have := struct?_eq_some.1 hs
    rw [h.null] at this; cases this
  refine h.insertEntry hs hk (heap_trackElement S k e) (fun q hq => ?_) (fun p hp => ?_)
  · rw [target_strdupElement] at hq
    exact ⟨trackElement_other S k hq, rfl⟩
  · rw [target_strdupElement] at hp
    obtain ⟨o, ho, hty⟩ := htgt p hp
    have hnew : (S, k) ∉ st.holders p := by
      rw [mem_holders]; simp [held, entry_of_struct hs, hk]
    have hr : RecordOrNew (extra p) (st.holders p) (callbackType off p o.type)
        ((st.tracker.lookup p).getD ⟨0, none⟩) ∧
        (Record (extra p) (st.holders p) (callbackType off p o.type)
          ((st.tracker.lookup p).getD ⟨0, none⟩) ∨
          rpcFreefnOf e.type = rpcFreefnOf (callbackType off p o.type)) := by
      cases hr : st.tracker.lookup p with
      | none =>
        have := h.untracked p (Set.notMem_empty _) hr
        rw [Finset.sdiff_empty] at this
        have hp' : p ∉ off := by
          intro hc
          obtain ⟨r, hr'⟩ := hoff p hc hp
          rw [hr] at hr'; cases hr'
        exact ⟨.inl ⟨rfl, this, hx p hr⟩, .inr (by rw [callbackType_of_notMem hp', hty])⟩
      | some r =>
        obtain ⟨-, o', ho', hrec⟩ := h.tracked p r hr
        rw [ho] at ho'; cases ho'
        rw [Finset.sdiff_empty] at hrec
        exact ⟨.inr hrec, .inl hrec⟩
    refine ⟨o, _, ho, by rw [type_strdupElement, hty], by rw [lookup_trackElement hp, if_pos rfl],
      ?_, ?_⟩
    · rw [increment_refcount]; exact Nat.succ_pos _
    · exact record_increment hr.1 hS0 hnew hr.2

end

end FfiRpc
