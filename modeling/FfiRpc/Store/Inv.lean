import FfiRpc.Store.Ops

/-!
# The tracker invariant

An object may be tracked by one record: a refcount and, per key, the structs
recorded as holding it. `Record x H t r` says record `r` of an object of type
`t` describes the set `H` of (struct, key) pairs: the recorded origins under
`k` are the structs `S` with `(S, k) ∈ H`, and the refcount is the size of `H`
plus `x`, the references that no entry accounts for. With `x = 0` each origin
is recorded once.

`Inv off extra D Q` is the invariant of the whole state, written so that it also
holds in the middle of a removal cascade:

* `D` are the objects being released: their record is already gone;
* `Q` are the entries still in a map that their object no longer counts;
* `off` are the objects whose release callback is switched off, as a client does
  for the arguments of a call: a record that describes them has none.

Between operations `D` and `Q` are empty.
-/
namespace FfiRpc

namespace State
variable (st : State)

/-- All (struct, key) pairs of the heap. -/
def pairs : List (Addr × CStr) :=
  st.heap.entries.flatMap fun e =>
    match e.2 with
    | .struct s => s.map.keys.map fun k => (e.1, k)
    | _ => []

/-- The pairs `(S, k)` with `S[k] = p`. -/
def holders (p : Addr) : Finset (Addr × CStr) :=
  (st.pairs.filter fun e => st.held e.1 e.2 = some p).toFinset

variable {st}

theorem struct?_eq_some {a : Addr} {s : RpcStruct} :
    st.struct? a = some s ↔ st.heap.lookup a = some (.struct s) := by
  unfold struct?
  split
  · rename_i s' h; simp [h]
  · rename_i h
    constructor
    · intro hc; cases hc
    · intro hc; exact absurd hc (h s)

theorem entry_eq_some {S : Addr} {k : CStr} {e : RpcTypeT} :
    st.entry S k = some e ↔ ∃ s, st.struct? S = some s ∧ s.map.lookup k = some e := by
  simp [entry, Option.bind_eq_some_iff]

theorem held_eq_some {S : Addr} {k : CStr} {p : Addr} :
    st.held S k = some p ↔ ∃ e, st.entry S k = some e ∧ e.target = some p := by
  simp [held, Option.bind_eq_some_iff]

theorem entry_of_struct {S : Addr} {s : RpcStruct} (h : st.struct? S = some s) (k : CStr) :
    st.entry S k = s.map.lookup k := by simp [entry, h]

theorem mem_pairs {S : Addr} {k : CStr} {e : RpcTypeT} (h : st.entry S k = some e) :
    (S, k) ∈ st.pairs := by
  obtain ⟨s, hs, hk⟩ := entry_eq_some.1 h
  have hmem := Table.mem_entries_iff.2 (struct?_eq_some.1 hs)
  refine List.mem_flatMap.2 ⟨_, hmem, ?_⟩
  simpa using Table.mem_keys_iff.2 ⟨e, hk⟩

@[simp] theorem mem_holders {p : Addr} {S : Addr} {k : CStr} :
    (S, k) ∈ st.holders p ↔ st.held S k = some p := by
  simp only [holders, List.mem_toFinset, List.mem_filter, decide_eq_true_eq, and_iff_right_iff_imp]
  intro h
  obtain ⟨e, he, -⟩ := held_eq_some.1 h
  exact mem_pairs he

/-! ### What an update leaves alone -/

@[simp] theorem heap_setPrec (p : Addr) (r : Prec) : (st.setPrec p r).heap = st.heap := rfl
@[simp] theorem heap_delPrec (p : Addr) : (st.delPrec p).heap = st.heap := rfl
@[simp] theorem tracker_setObj (a : Addr) (o : Obj) : (st.setObj a o).tracker = st.tracker := rfl
@[simp] theorem tracker_delObj (a : Addr) : (st.delObj a).tracker = st.tracker := rfl

theorem lookup_setPrec (p q : Addr) (r : Prec) :
    (st.setPrec p r).tracker.lookup q = if q = p then some r else st.tracker.lookup q :=
  Table.lookup_insert_if ..

theorem lookup_delPrec (p q : Addr) :
    (st.delPrec p).tracker.lookup q = if q = p then none else st.tracker.lookup q :=
  Table.lookup_erase_if ..

theorem lookup_setObj (a b : Addr) (o : Obj) :
    (st.setObj a o).heap.lookup b = if b = a then some o else st.heap.lookup b :=
  Table.lookup_insert_if ..

theorem lookup_delObj (a b : Addr) :
    (st.delObj a).heap.lookup b = if b = a then none else st.heap.lookup b :=
  Table.lookup_erase_if ..

theorem struct?_congr {st' : State} {a : Addr} (h : st'.heap.lookup a = st.heap.lookup a) :
    st'.struct? a = st.struct? a := by unfold struct?; rw [h]

theorem entry_congr {st' : State} {a : Addr} (h : st'.heap.lookup a = st.heap.lookup a) (k : CStr) :
    st'.entry a k = st.entry a k := by unfold entry; rw [struct?_congr h]

theorem held_congr {st' : State} {a : Addr} (h : st'.heap.lookup a = st.heap.lookup a) (k : CStr) :
    st'.held a k = st.held a k := by unfold held; rw [entry_congr h]

theorem struct?_setObj_struct (a b : Addr) (s : RpcStruct) :
    (st.setObj a (.struct s)).struct? b = if b = a then some s else st.struct? b := by
  by_cases h : b = a <;> simp [struct?, lookup_setObj, h]

theorem struct?_delObj (a b : Addr) :
    (st.delObj a).struct? b = if b = a then none else st.struct? b := by
  by_cases h : b = a <;> simp [struct?, lookup_delObj, h]

/-- Replacing the map of a live struct. -/
theorem entry_setObj_struct {S : Addr} (s : RpcStruct) (S' : Addr) (k : CStr) :
    (st.setObj S (.struct s)).entry S' k = if S' = S then s.map.lookup k else st.entry S' k := by
  unfold entry
  rw [struct?_setObj_struct]
  split <;> rfl

end State

/-! ## Records -/

/-- The origins recorded under `k`. -/
def Prec.recorded (r : Prec) (k : CStr) : List Addr :=
  match r.context with
  | none => []
  | some c => ((c.keys.lookup k).map PrecCtx.live).getD []

structure Record (x : Nat) (H : Finset (Addr × CStr)) (t : RpcTypes) (r : Prec) : Prop where
  count : r.refcount = H.card + x
  ctx : ∃ c, r.context = some c ∧ c.free = rpcFreefnOf t ∧
    ∀ k s, c.keys.lookup k = some s → s.SlotInv
  mem : ∀ S k, S ∈ r.recorded k ↔ (S, k) ∈ H
  once : x = 0 → ∀ k, (r.recorded k).Nodup

theorem recorded_increment (r : Prec) (udat : PrecRpcUdata) {name : CStr}
    (hn : udat.name = some name) (h0 : udat.origin ≠ 0)
    (hs : ∀ c, r.context = some c → ∀ k s, c.keys.lookup k = some s → s.SlotInv) (k : CStr) :
    ((rpcStructIncrementCb r (some udat)).recorded k).Perm
      (if k = name then udat.origin :: r.recorded k else r.recorded k) := by
  have hget : ∀ c : PrecPtrCtx, (∀ k s, c.keys.lookup k = some s → s.SlotInv) →
      (((c.keys.lookup name).getD .fresh).incr udat.origin).live.Perm
        (udat.origin :: ((c.keys.lookup name).map PrecCtx.live).getD []) := by
    intro c hc
    cases hl : c.keys.lookup name with
    | none => simpa using PrecCtx.incr_live PrecCtx.fresh_inv udat.origin
    | some s => simpa using PrecCtx.incr_live (hc name s hl) udat.origin
  simp only [rpcStructIncrementCb, hn, h0, if_false, Prec.recorded, Table.lookup_insert_if]
  cases hr : r.context with
  | none =>
    simp only [precPtrCtxCreateOrGet, hr, AList.lookup_empty]
    split
    · simpa using PrecCtx.incr_live PrecCtx.fresh_inv udat.origin
    · simp
  | some c =>
    simp only [precPtrCtxCreateOrGet, hr]
    split
    · rename_i hk; subst hk; simpa using hget c (hs c hr)
    · simp

theorem slots_increment (r : Prec) (udat : PrecRpcUdata)
    (hs : ∀ c, r.context = some c → ∀ k s, c.keys.lookup k = some s → s.SlotInv) :
    ∃ c, (rpcStructIncrementCb r (some udat)).context = some c ∧
      c.free = (precPtrCtxCreateOrGet r udat).free ∧
      ∀ k s, c.keys.lookup k = some s → s.SlotInv := by
  have hbase : ∀ k s, (precPtrCtxCreateOrGet r udat).keys.lookup k = some s → s.SlotInv := by
    intro k s h
    cases hr : r.context with
    | none => simp [precPtrCtxCreateOrGet, hr] at h
    | some c => simp only [precPtrCtxCreateOrGet, hr] at h; exact hs c hr k s h
  simp only [rpcStructIncrementCb]
  cases hn : udat.name with
  | none => exact ⟨_, rfl, rfl, hbase⟩
  | some name =>
    simp only
    split
    · exact ⟨_, rfl, rfl, hbase⟩
    · refine ⟨_, rfl, rfl, fun k s h => ?_⟩
      simp only [Table.lookup_insert_if] at h
      split at h
      · cases h
        apply PrecCtx.incr_inv
        cases hl : (precPtrCtxCreateOrGet r udat).keys.lookup name with
        | none => exact PrecCtx.fresh_inv
        | some s' => exact hbase name s' hl
      · exact hbase k s h

/-- `r` is new, or already a record of `H`. -/
def RecordOrNew (x : Nat) (H : Finset (Addr × CStr)) (t : RpcTypes) (r : Prec) : Prop :=
  (r = ⟨0, none⟩ ∧ H = ∅ ∧ x = 0) ∨ Record x H t r

/-- Counting one more entry. The callback of a new record is that of the increment. -/
theorem record_increment {x : Nat} {H : Finset (Addr × CStr)} {t : RpcTypes} {r : Prec}
    (hr : RecordOrNew x H t r) {S : Addr} {k : CStr} (hS : S ≠ 0) (hnew : (S, k) ∉ H)
    {f : Option FreeFn} (hf : Record x H t r ∨ f = rpcFreefnOf t) :
    Record x (insert (S, k) H) t
      (rpcStructIncrementCb { r with refcount := r.refcount + 1 } (some ⟨S, some k, f⟩)) := by
  have hcount : r.refcount = H.card + x := by
    rcases hr with ⟨rfl, rfl, rfl⟩ | hr
    · rfl
    · exact hr.count
  have hslots : ∀ c, r.context = some c → ∀ k s, c.keys.lookup k = some s → s.SlotInv := by
    rcases hr with ⟨rfl, -, -⟩ | hr
    · intro c h; cases h
    · obtain ⟨c, hc, -, hs⟩ := hr.ctx
      intro c' hc'
      rw [hc] at hc'; cases hc'; exact hs
  have hmem : ∀ S' k', S' ∈ r.recorded k' ↔ (S', k') ∈ H := by
    rcases hr with ⟨rfl, rfl, -⟩ | hr
    · intro S' k'; simp [Prec.recorded]
    · exact hr.mem
  have honce : x = 0 → ∀ k', (r.recorded k').Nodup := by
    rcases hr with ⟨rfl, -, -⟩ | hr
    · intro _ k'; simp [Prec.recorded]
    · exact hr.once
  have hperm := recorded_increment { r with refcount := r.refcount + 1 } ⟨S, some k, f⟩ rfl hS hslots
  have hrec : ∀ k', Prec.recorded { r with refcount := r.refcount + 1 } k' = r.recorded k' :=
    fun _ => rfl
  refine ⟨?_, ?_, fun S' k' => ?_, fun h0 k' => ?_⟩
  · have : (rpcStructIncrementCb { r with refcount := r.refcount + 1 }
        (some ⟨S, some k, f⟩)).refcount = r.refcount + 1 := by
      simp [rpcStructIncrementCb, hS]
    rw [this, hcount, Finset.card_insert_of_notMem hnew]
    omega
  · obtain ⟨c, h1, h2, h3⟩ := slots_increment { r with refcount := r.refcount + 1 }
      ⟨S, some k, f⟩ hslots
    refine ⟨c, h1, ?_, h3⟩
    rw [h2]
    have hold : Record x H t r → (precPtrCtxCreateOrGet { r with refcount := r.refcount + 1 }
        ⟨S, some k, f⟩).free = rpcFreefnOf t := by
      intro hr
      obtain ⟨c', hc', hf', -⟩ := hr.ctx
      simpa [precPtrCtxCreateOrGet, hc'] using hf'
    rcases hf with hr' | rfl
    · exact hold hr'
    · rcases hr with ⟨rfl, -, -⟩ | hr
      · rfl
      · exact hold hr
  · rw [(hperm k').mem_iff, hrec, Finset.mem_insert, Prod.mk.injEq]
    split
    · rename_i hk; subst hk; simp [hmem]
    · rename_i hk; simp [hmem, hk]
  · rw [(hperm k').nodup_iff, hrec]
    split
    · rename_i hk
      subst hk
      exact List.nodup_cons.2 ⟨fun h => hnew ((hmem S k').1 h), honce h0 k'⟩
    · exact honce h0 k'

/-- Counting an entry that is already counted: the origin is recorded once more,
and one reference has no entry of its own. -/
theorem record_increment_again {x : Nat} {H : Finset (Addr × CStr)} {t : RpcTypes} {r : Prec}
    (hr : Record x H t r) {S : Addr} {k : CStr} (hS : S ≠ 0) (hin : (S, k) ∈ H)
    (f : Option FreeFn) :
    Record (x + 1) H t
      (rpcStructIncrementCb { r with refcount := r.refcount + 1 } (some ⟨S, some k, f⟩)) := by
  obtain ⟨c, hc, hfree, hs⟩ := hr.ctx
  have hslots : ∀ c, r.context = some c → ∀ k s, c.keys.lookup k = some s → s.SlotInv := by
    intro c' hc'
    rw [hc] at hc'; cases hc'; exact hs
  have hperm := recorded_increment { r with refcount := r.refcount + 1 } ⟨S, some k, f⟩ rfl hS hslots
  refine ⟨?_, ?_, fun S' k' => ?_, fun h0 => absurd h0 (Nat.succ_ne_zero x)⟩
  · have : (rpcStructIncrementCb { r with refcount := r.refcount + 1 }
        (some ⟨S, some k, f⟩)).refcount = r.refcount + 1 := by
      simp [rpcStructIncrementCb, hS]
    have := hr.count
    omega
  · obtain ⟨c', h1, h2, h3⟩ := slots_increment { r with refcount := r.refcount + 1 }
      ⟨S, some k, f⟩ hslots
    exact ⟨c', h1, by rw [h2]; simpa [precPtrCtxCreateOrGet, hc] using hfree, h3⟩
  · rw [(hperm k').mem_iff, show Prec.recorded { r with refcount := r.refcount + 1 } k' =
      r.recorded k' from rfl]
    split
    · rename_i hk
      subst hk
      rw [List.mem_cons, hr.mem]
      exact ⟨fun h => h.elim (fun h => h ▸ hin) id, .inr⟩
    · exact hr.mem S' k'

theorem recorded_decrement {r : Prec} {c : PrecPtrCtx} (hc : r.context = some c)
    (hs : ∀ k s, c.keys.lookup k = some s → s.SlotInv) (S : Addr) (name k : CStr)
    (f : Option FreeFn) :
    (rpcStructDecrementCb r (some ⟨S, some name, f⟩)).recorded k =
      if k = name then (r.recorded k).filter (· ≠ S) else r.recorded k := by
  unfold rpcStructDecrementCb
  simp only [hc]
  cases hl : c.keys.lookup name with
  | none =>
    simp only [Prec.recorded, hc]
    split
    · rename_i hk; subst hk; simp [hl]
    · rfl
  | some s =>
    have hlive := PrecCtx.decr_live (hs name s hl) S
    simp only
    split
    · rename_i h0
      have hnil : (s.decr S).live = [] := by simp [PrecCtx.live, h0]
      simp only [Prec.recorded, hc, Table.lookup_erase_if]
      split
      · rename_i hk
        subst hk
        rw [hl, Option.map_some, Option.getD_some, ← hlive, hnil]
        rfl
      · rfl
    · simp only [Prec.recorded, hc, Table.lookup_insert_if]
      split
      · rename_i hk
        subst hk
        rw [hl, Option.map_some, Option.getD_some, Option.map_some, Option.getD_some, hlive]
      · rfl

/-- Counting one entry less. -/
theorem record_decrement {x : Nat} {H : Finset (Addr × CStr)} {t : RpcTypes} {r : Prec}
    (hr : Record x H t r) {S : Addr} {k : CStr} (hin : (S, k) ∈ H) (f : Option FreeFn) :
    Record x (H.erase (S, k)) t (r.decremented (some ⟨S, some k, f⟩)) := by
  obtain ⟨c, hc, hfree, hs⟩ := hr.ctx
  have hcard := Finset.card_erase_add_one hin
  have hpos : 0 < r.refcount := by have := hr.count; omega
  have hrec := recorded_decrement (r := { r with refcount := r.refcount - 1 }) hc hs S k
    (f := f)
  have hsame : ∀ k', Prec.recorded { r with refcount := r.refcount - 1 } k' = r.recorded k' :=
    fun _ => rfl
  unfold Prec.decremented
  rw [if_pos hpos]
  refine ⟨?_, ?_, fun S' k' => ?_, fun h0 k' => ?_⟩
  · have hr1 : (rpcStructDecrementCb { r with refcount := r.refcount - 1 }
        (some ⟨S, some k, f⟩)).refcount = r.refcount - 1 := by
      simp only [rpcStructDecrementCb, hc]
      cases c.keys.lookup k with
      | none => rfl
      | some s => simp only; split <;> rfl
    have := hr.count
    omega
  · simp only [rpcStructDecrementCb, hc]
    cases hl : c.keys.lookup k with
    | none => exact ⟨c, by simp, hfree, hs⟩
    | some s =>
      simp only
      split
      · refine ⟨_, rfl, hfree, fun k' s' h => ?_⟩
        simp only [Table.lookup_erase_if] at h
        split at h
        · cases h
        · exact hs k' s' h
      · refine ⟨_, rfl, hfree, fun k' s' h => ?_⟩
        simp only [Table.lookup_insert_if] at h
        split at h
        · cases h; exact PrecCtx.decr_inv (hs k s hl) S
        · exact hs k' s' h
  · rw [hrec, hsame, Finset.mem_erase, ne_eq, Prod.mk.injEq]
    split
    · rename_i hk; subst hk; simp [hr.mem, and_comm]
    · rename_i hk; simp [hr.mem, hk]
  · rw [hrec, hsame]
    split
    · exact (hr.once h0 k').filter _
    · exact hr.once h0 k'

/-! ## The state invariant -/

/-- The type whose release callback a record of `p` has. -/
def callbackType (off : Finset Addr) (p : Addr) (t : RpcTypes) : RpcTypes :=
  if p ∈ off then .none else t

@[simp] theorem callbackType_empty (p : Addr) (t : RpcTypes) : callbackType ∅ p t = t := rfl

theorem callbackType_of_notMem {off : Finset Addr} {p : Addr} (h : p ∉ off) (t : RpcTypes) :
    callbackType off p t = t := if_neg h

theorem callbackType_of_mem {off : Finset Addr} {p : Addr} (h : p ∈ off) (t : RpcTypes) :
    callbackType off p t = .none := if_pos h

structure Inv (off : Finset Addr) (extra : Addr → Nat) (D : Set Addr) (Q : Finset (Addr × CStr))
    (st : State) : Prop where
  null : st.heap.lookup 0 = none
  dead : ∀ p ∈ D, st.tracker.lookup p = none
  typed : ∀ S k e p, st.entry S k = some e → e.target = some p → p ∉ D → (S, k) ∉ Q →
    ∃ o, st.heap.lookup p = some o ∧ o.type = e.type
  untracked : ∀ p, p ∉ D → st.tracker.lookup p = none → st.holders p \ Q = ∅
  tracked : ∀ p r, st.tracker.lookup p = some r → 0 < r.refcount ∧
    ∃ o, st.heap.lookup p = some o ∧
      Record (extra p) (st.holders p \ Q) (callbackType off p o.type) r

end FfiRpc
