import FfiRpc.Store.Types

/-!
# Back-reference slots of one tracked object under one key

`rpc_struct_prec_ctx` records which structs hold an object under a key: an
array of slots, a high-water mark `o_index` and a queue of the slots below it
that were emptied. The increment callback takes a slot from the queue or the
one at the mark (and grows the array when it used the last cell); the decrement
callback clears every slot equal to the origin, lowering the mark when the
cleared slot is the last one.

`live` is what the record means: the non-`NULL` origins below the mark.
`SlotInv` says the queue holds exactly the `NULL` slots below the mark, each
once, and that the mark is inside the array. `incr_live`, `decr_live`: an
increment adds one origin, a decrement drops every copy of one.
-/
namespace FfiRpc.PrecCtx

/-- `RPC_STRUCT_PREC_CTX_DEFAULT_ORIGINS_SIZE` -/
def defaultOriginsSize : Nat := 16

/-- mirrors src/rpc_struct.c:180-185 (the `ctx == NULL` branch) -/
def fresh : PrecCtx := ⟨List.replicate defaultOriginsSize none, 0, defaultOriginsSize, []⟩

/-- The slot the next increment writes, with the queue and the mark updated.
mirrors src/rpc_struct.c:188 -/
def takeIndex (c : PrecCtx) : Nat × PrecCtx :=
  match c.emptyOrigins with
  | [] => (c.oIndex, { c with oIndex := c.oIndex + 1 })
  | i :: q => (i, { c with emptyOrigins := q })

/-- mirrors src/rpc_struct.c:189 (`realloc` when the last cell is used) -/
def grow (c : PrecCtx) (index : Nat) : PrecCtx :=
  if index = c.oSize - 1 then
    { c with origins := c.origins ++ List.replicate defaultOriginsSize none,
             oSize := c.oSize + defaultOriginsSize }
  else c

/-- mirrors src/rpc_struct.c:188-190 -/
def incr (c : PrecCtx) (origin : Addr) : PrecCtx :=
  let (index, c1) := c.takeIndex
  let c2 := c1.grow index
  { c2 with origins := c2.origins.set index (some origin) }

/-- Clear slot `i`: lower the mark if it is the last slot, else queue it.
mirrors src/rpc_struct.c:206-209 -/
def clear (c : PrecCtx) (i : Nat) : PrecCtx :=
  if i = c.oIndex - 1 then { c with origins := c.origins.set i none, oIndex := c.oIndex - 1 }
  else { c with origins := c.origins.set i none, emptyOrigins := c.emptyOrigins ++ [i] }

/-- The loop of the decrement callback from slot `i`; the bound `oIndex` is read
again on each turn, and the first argument only bounds the number of turns.
mirrors src/rpc_struct.c:204-211 -/
def decrLoop (origin : Addr) : Nat → Nat → PrecCtx → PrecCtx
  | 0, _, c => c
  | n + 1, i, c =>
    if i < c.oIndex then
      if c.origins[i]? = some (some origin) then decrLoop origin n (i + 1) (c.clear i)
      else decrLoop origin n (i + 1) c
    else c

def decr (c : PrecCtx) (origin : Addr) : PrecCtx := decrLoop origin c.oIndex 0 c

/-- The recorded origins. -/
def live (c : PrecCtx) : List Addr := (c.origins.take c.oIndex).reduceOption

structure SlotInv (c : PrecCtx) : Prop where
  index_lt : c.oIndex < c.oSize
  length_eq : c.origins.length = c.oSize
  nodup : c.emptyOrigins.Nodup
  mem_iff : ∀ i, i ∈ c.emptyOrigins ↔ i < c.oIndex ∧ c.origins[i]? = some none

/-! ## Lists of optional cells -/

theorem reduceOption_set_some {l : List (Option Addr)} {i : Nat} (o : Addr)
    (h : l[i]? = some none) : (l.set i (some o)).reduceOption.Perm (o :: l.reduceOption) := by
  induction l generalizing i with
  | nil => simp at h
  | cons x xs ih =>
    cases i with
    | zero =>
      simp only [List.getElem?_cons_zero, Option.some.injEq] at h
      subst h
      simp
    | succ i =>
      have hp := ih (by simpa using h)
      cases x with
      | none => simpa using hp
      | some y =>
        simp only [List.set_cons_succ, List.reduceOption_cons_of_some]
        exact (hp.cons y).trans (List.Perm.swap o y _)

/-- Emptying a cell drops nothing but the origin that was in it. -/
theorem filter_set_none {l : List (Option Addr)} {i : Nat} {o : Addr}
    (h : l[i]? = some (some o)) :
    (l.set i none).reduceOption.filter (· ≠ o) = l.reduceOption.filter (· ≠ o) := by
  induction l generalizing i with
  | nil => simp at h
  | cons x xs ih =>
    cases i with
    | zero =>
      simp only [List.getElem?_cons_zero, Option.some.injEq] at h
      subst h
      simp
    | succ i =>
      have hp := ih (by simpa using h)
      cases x with
      | none => simpa using hp
      | some y =>
        rw [List.set_cons_succ, List.reduceOption_cons_of_some, List.reduceOption_cons_of_some,
          List.filter_cons, List.filter_cons, hp]

/-! ## Increment -/

theorem fresh_inv : SlotInv fresh :=
  ⟨by decide, by decide, List.nodup_nil, fun i => by simp [fresh]⟩

@[simp] theorem fresh_live : fresh.live = [] := rfl

theorem takeIndex_lt {c : PrecCtx} (hc : SlotInv c) : c.takeIndex.1 < c.oSize := by
  unfold takeIndex
  split
  · exact hc.index_lt
  · rename_i i q he
    have hi := (hc.mem_iff i).1 (by simp [he])
    have := hc.index_lt
    omega

theorem incr_inv {c : PrecCtx} (hc : SlotInv c) (o : Addr) : SlotInv (c.incr o) := by
  obtain ⟨hlt, hlen, hnd, hmem⟩ := hc
  unfold incr takeIndex
  cases he : c.emptyOrigins with
  | nil =>
    have hnone : ∀ i, i < c.oIndex → c.origins[i]? ≠ some none := fun i hi hc' => by
      have := (hmem i).2 ⟨hi, hc'⟩
      rw [he] at this; cases this
    simp only [grow]
    split
    · refine ⟨by simp [defaultOriginsSize]; omega, by simp [hlen], by simp, fun i => ?_⟩
      simp only [List.not_mem_nil, false_iff, not_and]
      intro hi
      by_cases hieq : i = c.oIndex
      · subst hieq
        rw [List.getElem?_set_self (by rw [List.length_append]; omega)]
        simp
      · rw [List.getElem?_set_ne (Ne.symm hieq), List.getElem?_append_left (by omega)]
        exact hnone i (by omega)
    · refine ⟨by simp; omega, by simp [hlen], by simp, fun i => ?_⟩
      simp only [List.not_mem_nil, false_iff, not_and]
      intro hi
      by_cases hieq : i = c.oIndex
      · subst hieq; simp [hlen, hlt]
      · rw [List.getElem?_set_ne (Ne.symm hieq)]
        exact hnone i (by omega)
  | cons i q =>
    have hi := (hmem i).1 (by simp [he])
    rw [he, List.nodup_cons] at hnd
    simp only [grow, show ¬ i = c.oSize - 1 by omega, if_false]
    refine ⟨hlt, by simpa using hlen, hnd.2, fun j => ?_⟩
    by_cases hj : j = i
    · subst hj
      simp [hnd.1, List.getElem?_set_self (show j < c.origins.length by omega)]
    · have := hmem j
      rw [he, List.mem_cons] at this
      simp only [hj, false_or] at this
      rw [this, List.getElem?_set_ne (Ne.symm hj)]

theorem incr_live {c : PrecCtx} (hc : SlotInv c) (o : Addr) :
    (c.incr o).live.Perm (o :: c.live) := by
  obtain ⟨hlt, hlen, -, hmem⟩ := hc
  unfold incr takeIndex live
  cases he : c.emptyOrigins with
  | nil =>
    have key : ∀ l : List (Option Addr), c.oIndex < l.length →
        (l.set c.oIndex (some o)).take (c.oIndex + 1) = l.take c.oIndex ++ [some o] := by
      intro l hl
      rw [List.take_succ_eq_append_getElem (by simpa using hl), List.getElem_set_self,
        List.take_set_of_le (Nat.le_refl _)]
    simp only [grow]
    split
    · rw [key _ (by simp; omega), List.take_append_of_le_length (by omega)]
      simp [List.reduceOption_append]
    · rw [key _ (by simp only; omega)]
      simp [List.reduceOption_append]
  | cons i q =>
    have hi := (hmem i).1 (by simp [he])
    simp only [grow, show ¬ i = c.oSize - 1 by omega, if_false, List.take_set]
    exact reduceOption_set_some o (by rw [List.getElem?_take_of_lt hi.1]; exact hi.2)

/-! ## Decrement -/

theorem clear_inv {c : PrecCtx} (hc : SlotInv c) {i : Nat} {o : Addr} (hi : i < c.oIndex)
    (ho : c.origins[i]? = some (some o)) : SlotInv (c.clear i) := by
  obtain ⟨hlt, hlen, hnd, hmem⟩ := hc
  have hni : i ∉ c.emptyOrigins := fun h => by
    have := ((hmem i).1 h).2
    rw [ho] at this; cases this
  unfold clear
  split
  · rename_i heq
    refine ⟨by simp; omega, by simpa using hlen, hnd, fun j => ?_⟩
    rw [hmem j]
    by_cases hj : j = i
    · subst hj; simp [ho]; omega
    · rw [List.getElem?_set_ne (Ne.symm hj)]
      constructor
      · rintro ⟨h1, h2⟩; exact ⟨by simp; omega, h2⟩
      · rintro ⟨h1, h2⟩; exact ⟨by simp at h1; omega, h2⟩
  · refine ⟨hlt, by simpa using hlen, ?_, fun j => ?_⟩
    · rw [List.nodup_append]
      exact ⟨hnd, by simp, fun a ha b hb => by simp at hb; subst hb; rintro rfl; exact hni ha⟩
    · rw [List.mem_append, List.mem_singleton, hmem j]
      by_cases hj : j = i
      · subst hj; simp [List.getElem?_set_self (show j < c.origins.length by omega), hi]
      · simp [hj, List.getElem?_set_ne (Ne.symm hj)]

theorem clear_live {c : PrecCtx} (hc : SlotInv c) {i : Nat} {o : Addr} (hi : i < c.oIndex)
    (ho : c.origins[i]? = some (some o)) :
    (c.clear i).live.filter (· ≠ o) = c.live.filter (· ≠ o) := by
  have hlen := hc.length_eq
  have hlt := hc.index_lt
  have hset : ((c.origins.take c.oIndex).set i none).reduceOption.filter (· ≠ o) =
      c.live.filter (· ≠ o) := filter_set_none (by rw [List.getElem?_take_of_lt hi]; exact ho)
  unfold clear live at *
  split
  · rename_i heq
    -- the cell at the mark is now `none`, so leaving it out changes nothing
    have hpos : c.oIndex = i + 1 := by omega
    simp only [hpos, Nat.add_sub_cancel] at hset ⊢
    have hcut : (c.origins.take (i + 1)).set i none = (c.origins.set i none).take i ++ [none] := by
      rw [← List.take_set, List.take_succ_eq_append_getElem (by simp; omega), List.getElem_set_self]
    rw [← hset, hcut]
    simp [List.reduceOption_append]
  · simp only [List.take_set]
    exact hset

/-- The loop from slot `i`, when no earlier slot holds the origin. -/
theorem decrLoop_spec (o : Addr) :
    ∀ n i (c : PrecCtx), SlotInv c → c.oIndex ≤ i + n →
      (∀ j, j < i → j < c.oIndex → c.origins[j]? ≠ some (some o)) →
      SlotInv (decrLoop o n i c) ∧ (decrLoop o n i c).live = c.live.filter (· ≠ o) := by
  have hstop : ∀ c : PrecCtx, (∀ j, j < c.oIndex → c.origins[j]? ≠ some (some o)) →
      c.live = c.live.filter (· ≠ o) := by
    intro c h
    refine (List.filter_eq_self.2 fun a ha => ?_).symm
    rw [live, List.reduceOption_mem_iff, List.mem_iff_getElem?] at ha
    obtain ⟨j, hj⟩ := ha
    have hjlt : j < c.oIndex := by
      have := (List.getElem?_eq_some_iff.1 hj).1
      simp at this; omega
    rw [List.getElem?_take_of_lt hjlt] at hj
    have hne : a ≠ o := by rintro rfl; exact h j hjlt hj
    simpa using hne
  intro n
  induction n with
  | zero =>
    intro i c hc hle hno
    exact ⟨hc, hstop c fun j hj => hno j (by omega) hj⟩
  | succ n ih =>
    intro i c hc hle hno
    simp only [decrLoop]
    split
    · rename_i hi
      split
      · rename_i ho
        have hlow : (c.clear i).oIndex ≤ c.oIndex := by
          unfold clear; split <;> simp
        have hcell : ∀ j : Nat, (c.clear i).origins[j]? = (c.origins.set i none)[j]? := by
          unfold clear; split <;> simp
        obtain ⟨h1, h2⟩ := ih (i + 1) (c.clear i) (clear_inv hc hi ho) (by omega) fun j hj hjlt => by
          rw [hcell]
          by_cases hji : j = i
          · subst hji
            rw [List.getElem?_set_self (by have := hc.length_eq; have := hc.index_lt; omega)]
            simp
          · rw [List.getElem?_set_ne (Ne.symm hji)]
            exact hno j (by omega) (by omega)
        exact ⟨h1, h2.trans (clear_live hc hi ho)⟩
      · rename_i ho
        refine ih (i + 1) c hc (by omega) fun j hj hjlt => ?_
        by_cases hji : j = i
        · subst hji; exact ho
        · exact hno j (by omega) hjlt
    · rename_i hi
      exact ⟨hc, hstop c fun j hj => hno j (by omega) hj⟩

theorem decr_inv {c : PrecCtx} (hc : SlotInv c) (o : Addr) : SlotInv (c.decr o) :=
  (decrLoop_spec o c.oIndex 0 c hc (by omega) (by omega)).1

theorem decr_live {c : PrecCtx} (hc : SlotInv c) (o : Addr) :
    (c.decr o).live = c.live.filter (· ≠ o) :=
  (decrLoop_spec o c.oIndex 0 c hc (by omega) (by omega)).2

end FfiRpc.PrecCtx
