import FfiRpc.Core.Probing
import FfiRpc.Containers.Hashmap

/-!
# The hash map refines a finite map

One operation at a time. `Laid` is the invariant of the table: each entry is found by
probing from its home, and no key is there twice. Adding and taking out keep it
(`Laid.put`, `Laid.entryRemove_spec`), and the search of a table in this order finds what
is there and a free slot for what is not (`Laid.find_present`, `Laid.find_absent`).
-/
namespace FfiRpc.HashmapBase

open Probing Circular

section
variable {κ α : Type} {hash : κ → UInt64} {m : HashmapBase κ α} {i j : Nat}

/-! ## Slots

The table is a list, probing is about a function on positions; `slot` leads from the one to
the other. -/

theorem slot_set {table : List (Option (κ × α))} (hi : i < table.length) (e : Option (κ × α)) :
    slot (table.set i e) = Function.update (slot table) i e := by
  funext j
  unfold slot
  by_cases hji : j = i
  · subst hji
    simp [hi]
  · rw [Function.update_of_ne hji, List.getElem?_set_ne (Ne.symm hji)]

theorem slot_replicate (n i : Nat) : slot (List.replicate n (none : Option (κ × α))) i = none := by
  unfold slot
  rw [List.getElem?_replicate]
  split <;> rfl

theorem has_slot {table : List (Option (κ × α))} {z : κ × α} :
    Has table.length (slot table) z ↔ z ∈ table.reduceOption := by
  rw [List.reduceOption_mem_iff, List.mem_iff_getElem?]
  constructor
  · intro hz
    obtain ⟨i, -, hz⟩ := hz
    exact ⟨i, by simpa [slot, Option.join_eq_some_iff] using hz⟩
  · intro hz
    obtain ⟨i, hz⟩ := hz
    obtain ⟨hi, -⟩ := List.getElem?_eq_some_iff.1 hz
    exact ⟨i, hi, by simp [slot, hz]⟩

theorem card_slot (table : List (Option (κ × α))) :
    (occupied table.length (slot table)).card = table.reduceOption.length := by
  induction table using List.reverseRecOn with
  | nil => rfl
  | append_singleton table x ih =>
    have hbelow : occupied table.length (slot (table ++ [x])) = occupied table.length (slot table) := by
      ext j
      rw [mem_occupied, mem_occupied]
      refine and_congr_right fun hj => ?_
      unfold slot
      rw [List.getElem?_append_left hj]
    have hlast : slot (table ++ [x]) table.length = x := by
      simp [slot]
    have hrange : occupied (table ++ [x]).length (slot (table ++ [x])) =
        if x.isSome = true then Insert.insert table.length (occupied table.length (slot table))
        else occupied table.length (slot table) := by
      rw [← hbelow]
      unfold occupied
      rw [List.length_append, List.length_singleton, Finset.range_add_one, Finset.filter_insert, hlast]
    rw [hrange, List.reduceOption_append]
    cases x with
    | none => simpa using ih
    | some e =>
      rw [Option.isSome_some, if_pos rfl, Finset.card_insert_of_notMem fun hc => Nat.lt_irrefl _ (mem_occupied.1 hc).1, ih]
      simp

theorem nodup_slot {table : List (Option (κ × α))}
    (h : Distinct table.length Prod.fst (slot table)) :
    (table.reduceOption.map Prod.fst).Nodup := by
  rw [List.Nodup, List.pairwise_map, List.reduceOption, List.pairwise_filterMap,
    List.pairwise_iff_getElem]
  intro i j hi hj hlt x hx y hy heq
  have hxi : slot table i = some x := by simpa [slot, hi] using hx
  have hyj : slot table j = some y := by simpa [slot, hj] using hy
  have := h i hi j hj x y hxi hyj heq
  omega

/-! ## Positions

The sizes are powers of two, so that masking is the remainder. -/

/-- A table has been allocated. -/
structure Sized (m : HashmapBase κ α) : Prop where
  pow : ∃ k ≤ 30, m.tableSize = 2 ^ k
  length : m.table.length = m.tableSize

theorem Sized.pos (h : m.Sized) : 0 < m.tableSize := by
  obtain ⟨k, -, hk⟩ := h.pow
  rw [hk]
  exact Nat.two_pow_pos k

theorem Sized.sizeMod (h : m.Sized) (v : Nat) : m.sizeMod v = v % m.tableSize := by
  obtain ⟨k, hle, hk⟩ := h.pow
  unfold HashmapBase.sizeMod
  rw [hk, mask (by omega)]

theorem Sized.probeNext (h : m.Sized) (i : Nat) : m.probeNext i = (i + 1) % m.tableSize := by
  unfold HashmapBase.probeNext
  obtain ⟨k, hle, hk⟩ := h.pow
  rw [h.sizeMod, hk, mod_word (by omega)]

/-- The distance from `j` on to `i`, around the end of the table. -/
theorem Sized.sizeModSub (h : m.Sized) (hi : i < m.tableSize) (hj : j < m.tableSize) :
    m.sizeModSub i j = dist m.tableSize j i := by
  rw [dist_mod hj hi]
  unfold HashmapBase.sizeModSub
  obtain ⟨k, hle, hk⟩ := h.pow
  rw [h.sizeMod, hk, mask_sub (by omega) (hk ▸ hj)]

theorem Sized.calcIndex_lt (h : m.Sized) (key : κ) : m.calcIndex hash key < m.tableSize := by
  unfold calcIndex
  rw [h.sizeMod]
  exact Nat.mod_lt _ h.pos

/-- Where the search for an entry begins. -/
def home (hash : κ → UInt64) (m : HashmapBase κ α) (e : κ × α) : Nat := m.calcIndex hash e.1

/-- A table for `size` entries has room for a third more. -/
theorem calcTableSize_spec (hinit : ∃ k, 5 ≤ k ∧ k ≤ 30 ∧ m.tableSizeInit = 2 ^ k) {size : Nat}
    (hsize : size ≤ 3 * 2 ^ 28) : ∃ k, 5 ≤ k ∧ k ≤ 30 ∧ m.calcTableSize size = some (2 ^ k) ∧
      size + size / 3 ≤ 2 ^ k ∧ m.tableSizeInit ≤ 2 ^ k := by
  obtain ⟨k, hk5, hk30, hk⟩ := hinit
  have hle : 2 ^ 5 ≤ 2 ^ k := Nat.pow_le_pow_right (by omega) hk5
  unfold calcTableSize
  rw [Nat.mod_eq_of_lt (by omega)]
  by_cases hlt : size + size / 3 < m.tableSizeInit
  · exact ⟨k, hk5, hk30, by simp only [if_pos hlt, ← hk], by omega, by omega⟩
  · have hne : size + size / 3 - 1 ≠ 0 := by omega
    have hhigh : (size + size / 3 - 1).log2 < 30 := (Nat.log2_lt hne).2 (by omega)
    have hlow : 4 ≤ (size + size / 3 - 1).log2 := (Nat.le_log2 hne).2 (by omega)
    have hpow : size + size / 3 - 1 < 2 ^ ((size + size / 3 - 1).log2 + 1) := Nat.lt_log2_self
    refine ⟨(size + size / 3 - 1).log2 + 1, by omega, by omega, ?_, by omega, by omega⟩
    simp only [if_neg hlt, bitWidth, if_neg hne, Option.bind_some, intShift]
    rw [if_pos (by omega)]

/-! ## Tables with entries -/

/-- Every entry is found, and no key twice. -/
structure Laid (hash : κ → UInt64) (m : HashmapBase κ α) : Prop extends Sized m where
  probed : Probed m.tableSize (m.home hash) m.entry
  distinct : Distinct m.tableSize Prod.fst m.entry

/-- The entries. -/
abbrev Holds (m : HashmapBase κ α) (e : κ × α) : Prop := Has m.tableSize m.entry e

/-- The number of entries. -/
abbrev count (m : HashmapBase κ α) : Nat := (occupied m.tableSize m.entry).card

/-- All slots from `h` up to `i` hold other keys. -/
def Passed (m : HashmapBase κ α) (key : κ) (h i : Nat) : Prop :=
  ∀ j < m.tableSize, dist m.tableSize h j < dist m.tableSize h i →
    ∃ y, m.entry j = some y ∧ y.1 ≠ key

variable {key : κ} {data : α}

/-- A table with no entries. -/
def blank (m : HashmapBase κ α) (tableSize : Nat) : HashmapBase κ α :=
  { m with tableSize, table := List.replicate tableSize none }

/-- Nothing is laid out wrongly. -/
theorem laid_blank {n : Nat} (hn : ∃ k ≤ 30, n = 2 ^ k) : (m.blank n).Laid hash := by
  have hnone : ∀ i, (m.blank n).entry i = none := slot_replicate n
  refine ⟨⟨hn, List.length_replicate⟩, fun i _ x hx => ?_, fun i _ j _ x _ hx => ?_⟩
  · rw [hnone] at hx
    cases hx
  · rw [hnone] at hx
    cases hx

theorem not_holds_blank (n : Nat) (z : κ × α) : ¬ (m.blank n).Holds z := by
  intro hz
  obtain ⟨i, -, hz⟩ := hz
  rw [show (m.blank n).entry i = none from slot_replicate n i] at hz
  cases hz

theorem count_blank (n : Nat) : (m.blank n).count = 0 := by
  rw [count, Finset.card_eq_zero, Finset.eq_empty_iff_forall_notMem]
  intro j hj
  have hsome := (mem_occupied.1 hj).2
  rw [show (m.blank n).entry j = none from slot_replicate n j] at hsome
  cases hsome

/-! ## Adding an entry -/

/-- The map with the slot set. -/
def setSlot (m : HashmapBase κ α) (i : Nat) (e : Option (κ × α)) : HashmapBase κ α :=
  { m with table := m.table.set i e }

theorem Sized.setSlot (h : m.Sized) (i : Nat) (e : Option (κ × α)) : (m.setSlot i e).Sized :=
  ⟨h.pow, (List.length_set ..).trans h.length⟩

theorem Sized.entry_setSlot (h : m.Sized) (hi : i < m.tableSize) (e : Option (κ × α)) :
    (m.setSlot i e).entry = Function.update m.entry i e :=
  slot_set (by rw [h.length]; exact hi) e

/-- A new key may go into any slot that probing from its home comes to. -/
theorem Laid.put (h : m.Laid hash) (hi : i < m.tableSize)
    (hkey : ∀ z, m.Holds z → z.1 ≠ key) (hpassed : m.Passed key (m.calcIndex hash key) i) :
    (m.setSlot i (some (key, data))).Laid hash := by
  refine ⟨h.setSlot i _, ?_, ?_⟩
  · rw [h.entry_setSlot hi]
    refine h.probed.put fun j hj hlt => ?_
    obtain ⟨y, hy, -⟩ := hpassed j hj hlt
    rw [hy]
    exact Option.some_ne_none y
  · rw [h.entry_setSlot hi]
    exact h.distinct.put hkey

theorem Sized.holds_put (h : m.Sized) (hi : i < m.tableSize) (hnone : m.entry i = none)
    (z : κ × α) : (m.setSlot i (some (key, data))).Holds z ↔ z = (key, data) ∨ m.Holds z := by
  unfold Holds
  rw [h.entry_setSlot hi]
  exact has_put hi hnone z

theorem Sized.count_put (h : m.Sized) (hi : i < m.tableSize) (hnone : m.entry i = none) :
    (m.setSlot i (some (key, data))).count = m.count + 1 := by
  unfold count
  rw [h.entry_setSlot hi]
  exact card_put hi hnone

/-! ## Taking an entry out

The hole would end searches that used to pass over it, so the entries behind it are moved
up until a free slot is met. The loop's invariant (`Closing`) knows of one hole, which
wanders. -/

/-- When the loop stops, searches go through again, and the entries are those there were. -/
theorem shiftLoop_spec (hs : m.Sized) {s fuel removed index : Nat} {t0 : Nat → Option (κ × α)}
    {table : List (Option (κ × α))} (hlen : table.length = m.tableSize)
    (hc : Closing m.tableSize (m.home hash) Prod.fst s t0 (Function.update (slot table) removed none)
      removed index fuel) :
    (m.shiftLoop hash fuel removed index table).length = m.tableSize ∧
      Probed m.tableSize (m.home hash) (slot (m.shiftLoop hash fuel removed index table)) ∧
      Moved m.tableSize Prod.fst s t0 (slot (m.shiftLoop hash fuel removed index table)) := by
  have hhome : ∀ x, m.home hash x < m.tableSize := fun x => hs.calcIndex_lt x.1
  -- the loop ends with the slot left last cleared
  have hdone : ∀ {removed index left} {table : List (Option (κ × α))}, table.length = m.tableSize →
      Closing m.tableSize (m.home hash) Prod.fst s t0 (Function.update (slot table) removed none)
        removed index left → Function.update (slot table) removed none index = none →
      (table.set removed none).length = m.tableSize ∧
        Probed m.tableSize (m.home hash) (slot (table.set removed none)) ∧
        Moved m.tableSize Prod.fst s t0 (slot (table.set removed none)) := by
    intro removed index left table hlen hc hfree
    rw [slot_set (by rw [hlen]; exact hc.hole.lt)]
    exact ⟨(List.length_set ..).trans hlen, hc.probed hhome hfree, hc.moved⟩
  induction fuel generalizing removed index table with
  | zero => exact hdone hlen hc hc.free_of_left
  | succ fuel ih =>
    have hslot : Function.update (slot table) removed none index = slot table index :=
      Function.update_of_ne hc.ne ..
    rw [shiftLoop]
    cases he : slot table index with
    | none => exact hdone hlen hc (hslot.trans he)
    | some e =>
      simp only
      rw [hs.sizeModSub hc.lt (hs.calcIndex_lt e.1), hs.sizeModSub hc.hole.lt (hs.calcIndex_lt e.1),
        hs.probeNext]
      split
      · rename_i hlt
        refine ih ((List.length_set ..).trans hlen) ?_
        have hnext := hc.shift (hslot.trans he) hlt
        rw [Function.update_idem] at hnext
        rw [slot_set (by rw [hlen]; exact hc.hole.lt)]
        exact hnext
      · rename_i hge
        exact ih hlen (hc.skip (hslot.trans he) (Nat.le_of_not_lt hge))

/-- A free slot is not filled when an entry is taken out. -/
theorem shiftLoop_free {fuel removed index : Nat} {table : List (Option (κ × α))}
    (hremoved : slot table removed ≠ none) (hj : slot table j = none) :
    slot (m.shiftLoop hash fuel removed index table) j = none := by
  have hset : ∀ {table : List (Option (κ × α))} {removed e}, slot table j = none →
      (j = removed → e = none) → slot (table.set removed e) j = none := by
    intro table removed e hj he
    unfold slot at hj ⊢
    rw [List.getElem?_set]
    split
    · rename_i heq
      subst heq
      split
      · rw [he rfl]
        rfl
      · rfl
    · exact hj
  induction fuel generalizing removed index table with
  | zero => exact hset hj fun _ => rfl
  | succ fuel ih =>
    rw [shiftLoop]
    cases he : slot table index with
    | none => exact hset hj fun _ => rfl
    | some e =>
      have hne : j ≠ removed := by
        rintro rfl
        exact hremoved hj
      simp only
      split
      · refine ih ?_ (hset hj fun hc => absurd hc hne)
        rw [slot, List.getElem?_set]
        split
        · split
          · exact Option.some_ne_none e
          · rename_i heq hlt
            subst heq
            simp [slot, List.getElem?_eq_none (Nat.le_of_not_lt hlt)] at hremoved
        · rw [← slot, he]
          exact Option.some_ne_none e
      · exact ih hremoved hj

variable {e : κ × α}

/-- One entry out, all others there and found. -/
theorem Laid.entryRemove_spec (h : m.Laid hash) (hcount : m.count = m.size)
    (hroom : m.size < m.tableSize) (hi : i < m.tableSize) (he : m.entry i = some e) :
    (m.entryRemove hash i).Laid hash ∧
      Moved m.tableSize Prod.fst i (Function.update m.entry i none) (m.entryRemove hash i).entry := by
  have hgap : ∃ f < m.tableSize, f ≠ i ∧ m.entry f = none := by
    obtain ⟨f, hf, hnone⟩ := exists_free (t := m.entry) (hcount.trans_lt hroom)
    refine ⟨f, hf, ?_, hnone⟩
    rintro rfl
    rw [he] at hnone
    cases hnone
  have hleft : (occupied m.tableSize (Function.update m.entry i none)).card = m.size - 1 := by
    have herase := card_erase hi he
    rw [show (occupied m.tableSize m.entry).card = m.size from hcount] at herase
    omega
  have hc := h.probed.closing Prod.fst hi hgap
  rw [hleft, ← h.probeNext] at hc
  obtain ⟨hlen, hprobed, hmoved⟩ := shiftLoop_spec h.toSized h.length hc
  refine ⟨⟨⟨h.pow, hlen⟩, ?_, ?_⟩, hmoved⟩
  · exact hprobed
  · exact hmoved.distinct (h.distinct.erase i)

theorem Laid.holds_remove (h : m.Laid hash) (hcount : m.count = m.size)
    (hroom : m.size < m.tableSize) (hi : i < m.tableSize) (he : m.entry i = some e) (z : κ × α) :
    (m.entryRemove hash i).Holds z ↔ m.Holds z ∧ z.1 ≠ e.1 :=
  ((h.entryRemove_spec hcount hroom hi he).2.has_iff z).trans (has_erase h.distinct hi he z)

theorem Laid.count_remove (h : m.Laid hash) (hcount : m.count = m.size)
    (hroom : m.size < m.tableSize) (hi : i < m.tableSize) (he : m.entry i = some e) :
    (m.entryRemove hash i).count + 1 = m.count := by
  have hcard := (h.entryRemove_spec hcount hroom hi he).2.card
  have herase := card_erase hi he
  rw [← hcard] at herase
  exact herase

/-! ## Searches -/

variable [DecidableEq κ] {findEmpty : Bool}

/-- The loop stops at the first slot that is free or has the key. -/
theorem entryFindLoop_spec (hs : m.Sized) {h idx fuel : Nat} (hh : h < m.tableSize)
    (hidx : idx < m.tableSize) (hfuel : dist m.tableSize h idx + fuel = m.tableSize)
    (hpassed : m.Passed key h idx) (hfree : ∃ f < m.tableSize, m.entry f = none) :
    ∃ i < m.tableSize, m.Passed key h i ∧
      (m.entry i = none ∧
          m.entryFindLoop key findEmpty fuel idx = (if findEmpty then some i else none) ∨
        ∃ e, m.entry i = some e ∧ key = e.1 ∧ m.entryFindLoop key findEmpty fuel idx = some i) := by
  induction fuel generalizing idx with
  | zero =>
    have := dist_lt hh hidx
    omega
  | succ fuel ih =>
    rw [entryFindLoop]
    cases he : m.entry idx with
    | none => exact ⟨idx, hidx, hpassed, .inl ⟨he, rfl⟩⟩
    | some e =>
      by_cases hkey : key = e.1
      · refine ⟨idx, hidx, hpassed, .inr ⟨e, he, hkey, ?_⟩⟩
        simp [hkey]
      · simp only [if_neg hkey]
        have hpassed' : ∀ j < m.tableSize, dist m.tableSize h j ≤ dist m.tableSize h idx →
            ∃ y, m.entry j = some y ∧ y.1 ≠ key := by
          intro j hj hle
          rcases Nat.lt_or_eq_of_le hle with hlt | heq
          · exact hpassed j hj hlt
          · rw [dist_inj hh hj hidx heq]
            exact ⟨e, he, Ne.symm hkey⟩
        -- there is a free slot further on
        have hroom : dist m.tableSize h idx + 1 < m.tableSize := by
          obtain ⟨f, hf, hnone⟩ := hfree
          have hlt : dist m.tableSize h idx < dist m.tableSize h f := by
            by_contra hc
            obtain ⟨y, hy, -⟩ := hpassed' f hf (by omega)
            rw [hnone] at hy
            cases hy
          have := dist_lt hh hf
          omega
        have hnext := dist_next hh hidx hroom
        rw [hs.probeNext]
        refine ih (next_lt hidx) (by omega) fun j hj hlt => hpassed' j hj ?_
        rw [hnext] at hlt
        omega

/-- A search ends at the key or at a free slot, as long as there is a free slot. -/
theorem entryFind_spec (hash : κ → UInt64) (key : κ) (findEmpty : Bool) (hs : m.Sized)
    (hfree : ∃ f < m.tableSize, m.entry f = none) :
    ∃ i < m.tableSize, m.Passed key (m.calcIndex hash key) i ∧
      (m.entry i = none ∧ m.entryFind hash key findEmpty = (if findEmpty then some i else none) ∨
        ∃ e, m.entry i = some e ∧ key = e.1 ∧ m.entryFind hash key findEmpty = some i) := by
  refine entryFindLoop_spec hs (hs.calcIndex_lt key) (hs.calcIndex_lt key) ?_ ?_ hfree
  · rw [dist_self, Nat.zero_add]
  · intro j _ hlt
    rw [dist_self] at hlt
    omega

/-- A key that is there is found. -/
theorem Laid.find_present (h : m.Laid hash) (findEmpty : Bool)
    (hfree : ∃ f < m.tableSize, m.entry f = none)
    (hz : m.Holds (key, data)) :
    ∃ i < m.tableSize, m.entryFind hash key findEmpty = some i ∧ m.entry i = some (key, data) := by
  obtain ⟨i, hi, hpassed, hend⟩ := entryFind_spec hash key findEmpty h.toSized hfree
  rcases hend with ⟨hnone, -⟩ | ⟨e, he, hkey, hfind⟩
  · exact absurd rfl (h.probed.search Prod.fst (h.calcIndex_lt key) (fun x hx => by
      rw [home, hx]) hi hpassed hnone _ hz)
  · obtain ⟨j, hj, hz⟩ := hz
    have hij := h.distinct i hi j hj e (key, data) he hz hkey.symm
    exact ⟨i, hi, hfind, hij ▸ hz⟩

/-- For one that is not, the search ends at the slot where it may be put. -/
theorem Laid.find_absent (h : m.Laid hash) (findEmpty : Bool)
    (hfree : ∃ f < m.tableSize, m.entry f = none)
    (hkey : ∀ z, m.Holds z → z.1 ≠ key) :
    ∃ i < m.tableSize, m.entryFind hash key findEmpty = (if findEmpty then some i else none) ∧
      m.entry i = none ∧ m.Passed key (m.calcIndex hash key) i := by
  obtain ⟨i, hi, hpassed, hend⟩ := entryFind_spec hash key findEmpty h.toSized hfree
  rcases hend with ⟨hnone, hfind⟩ | ⟨e, he, hkey', -⟩
  · exact ⟨i, hi, hfind, hnone, hpassed⟩
  · exact absurd hkey'.symm (hkey e ⟨i, hi, he⟩)

end

end FfiRpc.HashmapBase
