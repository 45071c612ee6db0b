import FfiRpc.Store.Inv

/-!
# Runs of the tracker callbacks

The slots of a tracked object through any sequence of increment and decrement callbacks
(`Origins.lean` has one of each). A callback finds the slots of its key, makes them when
it is the first, and a decrement frees them when the mark is back at 0.

`origins_accounted`: after every callback the queue has exactly the `NULL` slots below
the mark, each once; what a callback writes is inside the array as it then is; the
origins recorded are those incremented since all their copies were last dropped.

`o_index` and `o_size` are `int`s. An array that outgrows them asks `realloc` for more
than there is, and the assertion around it ends the process (rpc_struct.c:189).
-/
namespace FfiRpc

/-- A write to `origins[index]`, which has `size` cells at that moment. -/
structure SlotWrite where
  index : Nat
  size : Nat
  deriving DecidableEq, Repr

namespace PrecCtx

/-- The write of an increment, after `realloc`.
mirrors src/rpc_struct.c:188-190 -/
def incrWrites (c : PrecCtx) : List SlotWrite :=
  let (index, c1) := c.takeIndex
  [⟨index, (c1.grow index).oSize⟩]

/-- The writes of `decrLoop`.
mirrors src/rpc_struct.c:204-206 -/
def decrLoopWrites (origin : Addr) : Nat → Nat → PrecCtx → List SlotWrite
  | 0, _, _ => []
  | n + 1, i, c =>
    if i < c.oIndex then
      if c.origins[i]? = some (some origin) then
        ⟨i, c.oSize⟩ :: decrLoopWrites origin n (i + 1) (c.clear i)
      else decrLoopWrites origin n (i + 1) c
    else []

def decrWrites (c : PrecCtx) (origin : Addr) : List SlotWrite := decrLoopWrites origin c.oIndex 0 c

/-- The queue has exactly the `NULL` slots below the mark, each once. -/
structure FreeList (c : PrecCtx) : Prop where
  nodup : c.emptyOrigins.Nodup
  mem_iff : ∀ i, i ∈ c.emptyOrigins ↔ i < c.oIndex ∧ c.origins[i]? = some none

theorem SlotInv.freeList {c : PrecCtx} (h : SlotInv c) : FreeList c := ⟨h.nodup, h.mem_iff⟩

/-! ## The writes -/

theorem oIndex_clear_le (c : PrecCtx) (i : Nat) : (c.clear i).oIndex ≤ c.oIndex := by
  unfold clear
  split <;> simp

theorem oSize_clear (c : PrecCtx) (i : Nat) : (c.clear i).oSize = c.oSize := by
  unfold clear
  split <;> rfl

theorem origins_clear (c : PrecCtx) (i : Nat) : (c.clear i).origins = c.origins.set i none := by
  unfold clear
  split <;> rfl

theorem oSize_le_grow (c : PrecCtx) (index : Nat) : c.oSize ≤ (c.grow index).oSize := by
  unfold grow
  split
  · exact Nat.le_add_right _ _
  · exact Nat.le_refl _

theorem oSize_takeIndex (c : PrecCtx) : c.takeIndex.2.oSize = c.oSize := by
  unfold takeIndex
  split <;> rfl

theorem incrWrites_lt {c : PrecCtx} (hc : SlotInv c) : ∀ w ∈ c.incrWrites, w.index < w.size := by
  intro w hw
  rw [incrWrites, List.mem_singleton] at hw
  subst hw
  have hlt := takeIndex_lt hc
  have hgrow := oSize_le_grow c.takeIndex.2 c.takeIndex.1
  rw [oSize_takeIndex] at hgrow
  exact Nat.lt_of_lt_of_le hlt hgrow

theorem decrLoopWrites_lt (o : Addr) (n i : Nat) (c : PrecCtx) (hc : c.oIndex < c.oSize) :
    ∀ w ∈ decrLoopWrites o n i c, w.index < w.size := by
  induction n generalizing i c with
  | zero => exact nofun
  | succ n ih =>
    have hcleared : (c.clear i).oIndex < (c.clear i).oSize := by
      rw [oSize_clear]
      exact Nat.lt_of_le_of_lt (oIndex_clear_le c i) hc
    intro w hw
    unfold decrLoopWrites at hw
    split at hw
    · rename_i hi
      split at hw
      · rcases List.mem_cons.1 hw with rfl | hw
        · exact Nat.lt_trans hi hc
        · exact ih (i + 1) (c.clear i) hcleared w hw
      · exact ih (i + 1) c hc w hw
    · cases hw

theorem decrWrites_lt {c : PrecCtx} (hc : SlotInv c) (o : Addr) :
    ∀ w ∈ c.decrWrites o, w.index < w.size :=
  decrLoopWrites_lt o c.oIndex 0 c hc.index_lt

/-- A cell that is not written keeps what it has. -/
theorem incr_unwritten {c : PrecCtx} (hc : SlotInv c) (o : Addr) {j : Nat} (hj : j < c.oSize)
    (hw : ∀ w ∈ c.incrWrites, w.index ≠ j) : (c.incr o).origins[j]? = c.origins[j]? := by
  have hne : c.takeIndex.1 ≠ j := hw _ (by rw [incrWrites]; exact List.mem_singleton_self _)
  have htake : c.takeIndex.2.origins = c.origins := by
    unfold takeIndex
    split <;> rfl
  have hgrow : (c.takeIndex.2.grow c.takeIndex.1).origins[j]? = c.origins[j]? := by
    unfold grow
    split
    · rw [List.getElem?_append_left (by rw [htake, hc.length_eq]; exact hj), htake]
    · rw [htake]
  rw [incr, List.getElem?_set_ne hne]
  exact hgrow

theorem decrLoop_unwritten (o : Addr) (n i : Nat) (c : PrecCtx) {j : Nat}
    (hw : ∀ w ∈ decrLoopWrites o n i c, w.index ≠ j) :
    (decrLoop o n i c).origins[j]? = c.origins[j]? := by
  induction n generalizing i c with
  | zero => rfl
  | succ n ih =>
    unfold decrLoopWrites at hw
    unfold decrLoop
    split
    · rename_i hi
      rw [if_pos hi] at hw
      split
      · rename_i ho
        rw [if_pos ho] at hw
        have hne : i ≠ j := hw _ List.mem_cons_self
        rw [ih (i + 1) (c.clear i) fun w hw' => hw w (List.mem_cons_of_mem _ hw'), origins_clear,
          List.getElem?_set_ne hne]
      · rename_i ho
        rw [if_neg ho] at hw
        exact ih (i + 1) c hw
    · rfl

/-- The loop has ended when its bound is used up. -/
theorem decrLoop_enough (o : Addr) (n m i : Nat) (c : PrecCtx) (h : c.oIndex ≤ i + n) :
    decrLoop o (n + m) i c = decrLoop o n i c := by
  induction n generalizing i c with
  | zero =>
    cases m with
    | zero => rfl
    | succ m =>
      have hend : decrLoop o (m + 1) i c = c := if_neg (Nat.not_lt.2 h)
      rw [Nat.zero_add, hend]
      rfl
  | succ n ih =>
    rw [Nat.succ_add, decrLoop, decrLoop]
    have hlow := oIndex_clear_le c i
    rw [ih (i + 1) (c.clear i) (by omega), ih (i + 1) c (by omega)]

end PrecCtx

/-! ## Sequences of callbacks -/

/-- A callback for an object, from an entry of struct `origin` under `name`. -/
inductive OriginCall where
  | increment (origin : Addr) (name : CStr) (free : Option FreeFn)
  | decrement (origin : Addr) (name : CStr)

namespace OriginCall

def origin : OriginCall → Addr
  | .increment o _ _ | .decrement o _ => o

def name : OriginCall → CStr
  | .increment _ k _ | .decrement _ k => k

def run (r : Prec) : OriginCall → Prec
  | .increment o k f => rpcStructIncrementCb r (some ⟨o, some k, f⟩)
  | .decrement o k => rpcStructDecrementCb r (some ⟨o, some k, none⟩)

end OriginCall

/-- The slots under `k`, if there are any. -/
def Prec.slots (r : Prec) (k : CStr) : Option PrecCtx := r.context.bind fun c => c.keys.lookup k

/-- The writes to slots. -/
def OriginCall.writes (r : Prec) : OriginCall → List SlotWrite
  | .increment _ k _ => ((r.slots k).getD .fresh).incrWrites
  | .decrement o k => ((r.slots k).map fun c => c.decrWrites o).getD []

/-- The origins under `k` after a callback, if those before it are `origins`. -/
def OriginCall.count (k : CStr) (origins : Multiset Addr) : OriginCall → Multiset Addr
  | .increment o k' _ => if k' = k then o ::ₘ origins else origins
  | .decrement o k' => if k' = k then origins.filter (· ≠ o) else origins

section
variable {r : Prec} {name : CStr}

theorem recorded_slots (r : Prec) (k : CStr) :
    r.recorded k = ((r.slots k).map PrecCtx.live).getD [] := by
  unfold Prec.recorded Prec.slots
  cases r.context <;> rfl

theorem slots_increment_cb (r : Prec) {o : Addr} (ho : o ≠ 0) (k' : CStr) (f : Option FreeFn)
    (k : CStr) : ((OriginCall.increment o k' f).run r).slots k =
      if k = k' then some (((r.slots k').getD .fresh).incr o) else r.slots k := by
  simp only [OriginCall.run, rpcStructIncrementCb, ho, if_false, Prec.slots, Option.bind_some,
    Table.lookup_insert_if]
  cases hr : r.context with
  | none => simp [precPtrCtxCreateOrGet, hr]
  | some c => simp [precPtrCtxCreateOrGet, hr]

theorem slots_decrement_cb (r : Prec) (o : Addr) (k' k : CStr) :
    ((OriginCall.decrement o k').run r).slots k =
      if k = k' then ((r.slots k').map fun c => c.decr o).filter fun c => c.oIndex ≠ 0
      else r.slots k := by
  unfold OriginCall.run rpcStructDecrementCb Prec.slots
  cases hr : r.context with
  | none => simp [hr]
  | some c =>
    simp only [Option.bind_some]
    cases hl : c.keys.lookup k' with
    | none =>
      simp only [hr, Option.bind_some, Option.map_none, Option.filter_none]
      split
      · rename_i hk
        rw [hk, hl]
      · rfl
    | some s =>
      simp only [Option.map_some, Option.filter_some]
      by_cases h0 : (s.decr o).oIndex = 0
      · simp only [h0, if_true, Option.bind_some, Table.lookup_erase_if]
        simp
      · simp only [h0, if_false, Option.bind_some, Table.lookup_insert_if]
        simp [h0]

/-- The slots under `name` are in order. -/
def Prec.Ordered (r : Prec) (name : CStr) : Prop := ∀ c, r.slots name = some c → c.SlotInv

theorem Prec.Ordered.getD (h : r.Ordered name) : ((r.slots name).getD .fresh).SlotInv := by
  cases hs : r.slots name with
  | none => exact PrecCtx.fresh_inv
  | some c => exact h c hs

theorem Prec.Ordered.run (h : r.Ordered name) {call : OriginCall} (hlive : call.origin ≠ 0) :
    (call.run r).Ordered name := by
  intro c hc
  cases call with
  | increment o k f =>
    rw [slots_increment_cb r (show o ≠ 0 from hlive)] at hc
    split at hc
    · rename_i hk
      subst hk
      cases hc
      exact PrecCtx.incr_inv h.getD o
    · exact h c hc
  | decrement o k =>
    rw [slots_decrement_cb] at hc
    split at hc
    · rename_i hk
      subst hk
      obtain ⟨hmap, -⟩ := Option.filter_eq_some_iff.1 hc
      obtain ⟨c0, hc0, rfl⟩ := Option.map_eq_some_iff.1 hmap
      exact PrecCtx.decr_inv (h c0 hc0) o
    · exact h c hc

/-- What a callback writes is inside the array. -/
theorem Prec.Ordered.writes_lt {call : OriginCall} (h : r.Ordered call.name) :
    ∀ w ∈ call.writes r, w.index < w.size := by
  cases call with
  | increment o k f => exact PrecCtx.incrWrites_lt h.getD
  | decrement o k =>
    intro w hw
    simp only [OriginCall.writes] at hw
    cases hs : r.slots k with
    | none =>
      rw [hs] at hw
      cases hw
    | some c =>
      rw [hs] at hw
      exact PrecCtx.decrWrites_lt (h c hs) o w hw

/-- An increment adds its origin, a decrement drops all copies of its own. -/
theorem Prec.Ordered.recorded_run (h : r.Ordered name) {call : OriginCall} (hlive : call.origin ≠ 0) :
    (((call.run r).recorded name : List Addr) : Multiset Addr) =
      call.count name (r.recorded name : List Addr) := by
  cases call with
  | increment o k f =>
    rw [recorded_slots, recorded_slots, slots_increment_cb r (show o ≠ 0 from hlive),
      OriginCall.count]
    by_cases hk : name = k
    · subst hk
      rw [if_pos rfl, if_pos rfl]
      have hincr := PrecCtx.incr_live h.getD o
      have hgetD : ((r.slots name).map PrecCtx.live).getD [] =
          ((r.slots name).getD .fresh).live := by
        cases r.slots name <;> rfl
      rw [hgetD]
      exact Multiset.coe_eq_coe.2 hincr
    · rw [if_neg hk, if_neg (Ne.symm hk)]
  | decrement o k =>
    rw [recorded_slots, recorded_slots, slots_decrement_cb, OriginCall.count]
    by_cases hk : name = k
    · subst hk
      rw [if_pos rfl, if_pos rfl]
      cases hs : r.slots name with
      | none => rfl
      | some c =>
        have hdecr := PrecCtx.decr_live (h c hs) o
        rw [Option.map_some, Option.filter_some]
        by_cases h0 : (c.decr o).oIndex = 0
        · -- the slots are freed: there was no other origin in them
          have hempty : (c.decr o).live = [] := by
            rw [PrecCtx.live, h0]
            rfl
          rw [if_neg (by simpa using h0), Option.map_some, Option.getD_some, Multiset.filter_coe,
            ← hdecr, hempty]
          rfl
        · rw [if_pos (by simpa using h0), Option.map_some, Option.map_some, Option.getD_some,
            Option.getD_some, hdecr, Multiset.filter_coe]
    · rw [if_neg hk, if_neg (Ne.symm hk)]

/-- `writes` leaves nothing out: a cell that is not in it keeps what it has. -/
theorem Prec.Ordered.unwritten {call : OriginCall} (h : r.Ordered call.name)
    (hlive : call.origin ≠ 0) {c c' : PrecCtx} (hc : r.slots call.name = some c)
    (hc' : (call.run r).slots call.name = some c') {j : Nat} (hj : j < c.oSize)
    (hw : ∀ w ∈ call.writes r, w.index ≠ j) : c'.origins[j]? = c.origins[j]? := by
  cases call with
  | increment o k f =>
    simp only [OriginCall.name] at h hc hc'
    rw [slots_increment_cb r (show o ≠ 0 from hlive), if_pos rfl, hc] at hc'
    cases hc'
    rw [OriginCall.writes, hc] at hw
    exact PrecCtx.incr_unwritten (h c hc) o hj hw
  | decrement o k =>
    simp only [OriginCall.name] at h hc hc'
    rw [slots_decrement_cb, if_pos rfl, hc] at hc'
    obtain ⟨hmap, -⟩ := Option.filter_eq_some_iff.1 hc'
    cases hmap
    rw [OriginCall.writes, hc] at hw
    exact PrecCtx.decrLoop_unwritten o c.oIndex 0 c hw

theorem ordered_run (hnew : r.slots name = none) (calls : List OriginCall)
    (hlive : ∀ call ∈ calls, call.origin ≠ 0) :
    (calls.foldl OriginCall.run r).Ordered name ∧
      (((calls.foldl OriginCall.run r).recorded name : List Addr) : Multiset Addr) =
        calls.foldl (OriginCall.count name) 0 := by
  induction calls using List.reverseRecOn with
  | nil =>
    refine ⟨fun c hc => ?_, ?_⟩
    · rw [List.foldl_nil, hnew] at hc
      cases hc
    · rw [List.foldl_nil, recorded_slots, hnew]
      rfl
  | append_singleton calls call ih =>
    obtain ⟨hord, hcount⟩ := ih fun call' h => hlive call' (List.mem_append_left _ h)
    have hone := hlive call (List.mem_append_right _ (List.mem_singleton_self call))
    rw [List.foldl_append, List.foldl_append, List.foldl_cons, List.foldl_cons, List.foldl_nil,
      List.foldl_nil, ← hcount]
    exact ⟨hord.run hone, hord.recorded_run hone⟩

/-- After every sequence of callbacks for an object that had nothing under `name`: the
queue is exact, every write under `name` was inside the array, and the origins are those
that the sequence adds and drops. -/
theorem origins_accounted (hnew : r.slots name = none) (calls : List OriginCall)
    (hlive : ∀ call ∈ calls, call.origin ≠ 0) :
    (∀ c, (calls.foldl OriginCall.run r).slots name = some c → c.FreeList) ∧
    (∀ before call after, calls = before ++ call :: after → call.name = name →
      ∀ w ∈ call.writes (before.foldl OriginCall.run r), w.index < w.size) ∧
    (((calls.foldl OriginCall.run r).recorded name : List Addr) : Multiset Addr) =
      calls.foldl (OriginCall.count name) 0 := by
  obtain ⟨hord, hcount⟩ := ordered_run hnew calls hlive
  refine ⟨fun c hc => (hord c hc).freeList, fun before call after hcalls hname => ?_, hcount⟩
  have hbefore : ∀ c ∈ before, c.origin ≠ 0 := by
    intro c hc
    refine hlive c ?_
    rw [hcalls]
    exact List.mem_append_left _ hc
  subst hname
  exact (ordered_run hnew before hbefore).1.writes_lt

/-- 5, 7 and 5 once more are recorded, 5 is dropped, and 9 takes its first slot. -/
theorem origins_accounted_reused : ∃ c calls,
    calls = [OriginCall.increment 5 [107] none, .increment 7 [107] none, .increment 5 [107] none,
      .decrement 5 [107], .increment 9 [107] none] ∧
    (calls.foldl OriginCall.run ⟨0, none⟩).slots [107] = some c ∧
    c.oIndex = 2 ∧ c.emptyOrigins = [] ∧ c.live = [9, 7] ∧ c.FreeList ∧
    (((calls.foldl OriginCall.run ⟨0, none⟩).recorded [107] : List Addr) : Multiset Addr) =
      calls.foldl (OriginCall.count [107]) 0 := by
  have hnew : Prec.slots ⟨0, none⟩ [107] = none := rfl
  have hrun := origins_accounted hnew [.increment 5 [107] none, .increment 7 [107] none,
    .increment 5 [107] none, .decrement 5 [107], .increment 9 [107] none] (by decide)
  exact ⟨_, _, rfl, rfl, rfl, rfl, rfl, hrun.1 _ rfl, hrun.2.2⟩

end

end FfiRpc
