import FfiRpc.Containers.HashmapLaws

/-!
# Runs of the hash map

What the hash map is for (`specStep`): a finite map, on which `put` adds only, `insert` adds
or replaces, and `size` counts the keys. Growing and shrinking the table do not show.

`map_refines`: from the empty map on, every run of calls returns what the finite map returns,
and leaves a table that holds its entries, each at a slot where the search for its key ends
(`Represents`). The one bound is that of the shift in `hashmap_calc_table_size` (`fits`).
-/
namespace FfiRpc.HashmapBase

open Probing Circular

section
variable {κ α : Type} [DecidableEq κ] {hash : κ → UInt64} {m : HashmapBase κ α} {T : Table κ α}

/-- The table holds the entries of the finite map. -/
structure Held (hash : κ → UInt64) (m : HashmapBase κ α) (T : Table κ α) : Prop
    extends Laid hash m where
  room : m.size < m.tableSize
  count_eq : m.count = m.size
  lookup : ∀ k v, m.Holds (k, v) ↔ T.lookup k = some v
  length_keys : T.keys.length = m.size

/-- The map is the finite map. It has no table before the first entry. -/
structure Represents (hash : κ → UInt64) (m : HashmapBase κ α) (T : Table κ α) : Prop where
  initial : ∃ k, 5 ≤ k ∧ k ≤ 30 ∧ m.tableSizeInit = 2 ^ k
  table : m.tableSize = 0 ∧ m.size = 0 ∧ m.table = [] ∧ T = ∅ ∨
    m.tableSizeInit ≤ m.tableSize ∧ m.Held hash T

/-- The size a table begins with plays no part. -/
theorem Held.init_irrel (h : m.Held hash T) (n : Nat) :
    ({ m with tableSizeInit := n } : HashmapBase κ α).Held hash T :=
  ⟨⟨⟨h.pow, h.length⟩, h.probed, h.distinct⟩, h.room, h.count_eq, h.lookup, h.length_keys⟩

theorem Held.free (h : m.Held hash T) : ∃ f < m.tableSize, m.entry f = none :=
  exists_free (h.count_eq.trans_lt h.room)

/-- A key that the finite map does not have is in no slot. -/
theorem Held.absent (h : m.Held hash T) {key : κ} (hkey : T.lookup key = none) :
    ∀ z, m.Holds z → z.1 ≠ key := by
  intro z hz hc
  have := (h.lookup z.1 z.2).1 hz
  rw [hc, hkey] at this
  cases this

theorem represents_init (hash : κ → UInt64) : (init : HashmapBase κ α).Represents hash ∅ :=
  ⟨⟨7, by omega, by omega, rfl⟩, .inl ⟨rfl, rfl, rfl, rfl⟩⟩

/-- A new table holds nothing. -/
theorem held_blank {n : Nat} (hn : ∃ k ≤ 30, n = 2 ^ k) (hsize : m.size = 0) :
    (m.blank n).Held hash ∅ := by
  have hlaid : (m.blank n).Laid hash := laid_blank hn
  refine ⟨hlaid, ?_, (count_blank n).trans hsize.symm, fun k v => ?_, hsize.symm⟩
  · rw [show (m.blank n).size = 0 from hsize]
    exact hlaid.pos
  · rw [AList.lookup_empty]
    exact iff_of_false (not_holds_blank n (k, v)) (Option.some_ne_none v).symm

/-! ## Rehashing

The entries of the old table are put into a new one in the order of the slots. -/

/-- The entries of `old` come to those there are: none is lost, no key is there twice. -/
theorem rehashLoop_spec (old : List (Option (κ × α))) {m : HashmapBase κ α} (h : m.Laid hash)
    (hnodup : (old.reduceOption.map Prod.fst).Nodup)
    (hnew : ∀ e ∈ old.reduceOption, ∀ z, m.Holds z → z.1 ≠ e.1)
    (hroom : m.count + old.reduceOption.length < m.tableSize) :
    ∃ m', rehashLoop hash old m = some m' ∧ m'.Laid hash ∧ m'.tableSize = m.tableSize ∧
      m'.tableSizeInit = m.tableSizeInit ∧ m'.size = m.size ∧
      m'.count = m.count + old.reduceOption.length ∧
      ∀ z, m'.Holds z ↔ m.Holds z ∨ z ∈ old.reduceOption := by
  induction old generalizing m with
  | nil => exact ⟨m, rfl, h, rfl, rfl, rfl, rfl, by simp⟩
  | cons e old ih =>
    cases e with
    | none => exact ih h hnodup hnew hroom
    | some e =>
      rw [List.reduceOption_cons_of_some] at hnodup hnew hroom ⊢
      rw [List.map_cons, List.nodup_cons] at hnodup
      rw [List.length_cons] at hroom ⊢
      have habsent := hnew e List.mem_cons_self
      obtain ⟨i, hi, hfind, hnone, hpassed⟩ := h.find_absent true
        (exists_free (show m.count < _ by omega)) habsent
      rw [if_pos rfl] at hfind
      obtain ⟨m', hloop, hlaid, hn, hinit, hsize, hcount, hholds⟩ :=
        ih (m := m.setSlot i (some e)) (h.put hi habsent hpassed) hnodup.2
          (fun x hx z hz => by
            rcases (h.holds_put hi hnone z).1 hz with rfl | hz
            · intro hc
              exact hnodup.1 (hc ▸ List.mem_map_of_mem hx)
            · exact hnew x (List.mem_cons_of_mem e hx) z hz)
          (by rw [h.count_put hi hnone]; exact (by omega : _ = _).trans_lt hroom)
      refine ⟨m', ?_, hlaid, hn, hinit, hsize, ?_, fun z => ?_⟩
      · rw [rehashLoop, hfind]
        exact hloop
      · rw [hcount, h.count_put hi hnone]
        omega
      · rw [hholds, h.holds_put hi hnone, List.mem_cons]
        tauto

/-- Another size, the same finite map. -/
theorem Held.rehash_spec (h : m.Held hash T) {k : Nat} (hk : k ≤ 30) (hroom : m.size < 2 ^ k) :
    ∃ m', m.rehash hash (2 ^ k) = some m' ∧ m'.tableSize = 2 ^ k ∧
      m'.tableSizeInit = m.tableSizeInit ∧ m'.size = m.size ∧ m'.Held hash T := by
  have hdistinct : Distinct m.table.length Prod.fst (slot m.table) := h.length ▸ h.distinct
  have hlen : m.table.reduceOption.length = m.size := by
    rw [← card_slot, h.length]
    exact h.count_eq
  have hmem : ∀ z, z ∈ m.table.reduceOption ↔ m.Holds z := by
    intro z
    rw [← has_slot, h.length]
    rfl
  obtain ⟨m', hloop, hlaid, hn, hinit, hsize, hcount, hholds⟩ :=
    rehashLoop_spec m.table (m := m.blank (2 ^ k)) (laid_blank ⟨k, hk, rfl⟩) (nodup_slot hdistinct)
      (fun _ _ z hz => absurd hz (not_holds_blank _ z))
      (by rw [count_blank, Nat.zero_add, hlen]; exact hroom)
  refine ⟨m', ?_, hn, hinit, hsize, hlaid, ?_, ?_, fun k v => ?_, h.length_keys.trans hsize.symm⟩
  · unfold rehash
    rw [if_pos ⟨by rw [Nat.and_two_pow_sub_one_eq_mod, Nat.mod_self], Nat.le_of_lt hroom⟩]
    exact hloop
  · rw [hsize, hn]
    exact hroom
  · rw [hcount, count_blank, Nat.zero_add, hlen, hsize]
    rfl
  · rw [hholds, hmem, ← h.lookup]
    exact or_iff_right (not_holds_blank _ _)

/-- A table may also be the first one. -/
theorem rehash_spec (h : m.tableSize = 0 ∧ m.size = 0 ∧ m.table = [] ∧ T = ∅ ∨ m.Held hash T)
    {k : Nat} (hk : k ≤ 30) (hroom : m.size < 2 ^ k) :
    ∃ m', m.rehash hash (2 ^ k) = some m' ∧ m'.tableSize = 2 ^ k ∧
      m'.tableSizeInit = m.tableSizeInit ∧ m'.size = m.size ∧ m'.Held hash T := by
  rcases h with ⟨-, hsize, htable, rfl⟩ | hheld
  · refine ⟨m.blank (2 ^ k), ?_, rfl, rfl, rfl, held_blank ⟨k, hk, rfl⟩ hsize⟩
    unfold rehash
    rw [if_pos ⟨by rw [Nat.and_two_pow_sub_one_eq_mod, Nat.mod_self], Nat.le_of_lt hroom⟩, htable]
    rfl
  · exact hheld.rehash_spec hk hroom

/-- After growing there is room for one more entry. -/
theorem Represents.grow_spec (h : m.Represents hash T) (hsize : m.size ≤ 3 * 2 ^ 28) :
    ∃ m', m.grow hash = some m' ∧ m'.tableSizeInit = m.tableSizeInit ∧
      m'.tableSizeInit ≤ m'.tableSize ∧ m'.size = m.size ∧ m'.size + 1 < m'.tableSize ∧
      m'.Held hash T := by
  obtain ⟨k, hk5, hk30, hcalc, hle, hinit⟩ := calcTableSize_spec h.initial hsize
  have hlow : 2 ^ 5 ≤ 2 ^ k := Nat.pow_le_pow_right (by omega) hk5
  unfold grow
  rw [hcalc, Option.bind_some]
  by_cases hgrow : 2 ^ k > m.tableSize
  · obtain ⟨m', hrehash, hn, hinit', hsize', hheld⟩ := rehash_spec (h.table.imp_right And.right) hk30 (by omega)
    exact ⟨m', by rw [if_pos hgrow, hrehash], hinit', by omega, hsize', by omega, hheld⟩
  · rcases h.table with ⟨hzero, -⟩ | ⟨hinit', hheld⟩
    · omega
    · exact ⟨m, if_neg hgrow, rfl, hinit', rfl, by omega, hheld⟩

/-! ## Entries

What adding, replacing and taking out do to the finite map. -/

theorem Held.add (h : m.Held hash T) {i : Nat} {key : κ} (data : α) (hi : i < m.tableSize)
    (hroom : m.size + 1 < m.tableSize) (hkey : T.lookup key = none) (hnone : m.entry i = none)
    (hpassed : m.Passed key (m.calcIndex hash key) i) :
    ({ m.setSlot i (some (key, data)) with size := m.size + 1 } : HashmapBase κ α).Held hash
      (AList.insert key data T) := by
  have hlaid : (m.setSlot i (some (key, data))).Laid hash := h.put hi (h.absent hkey) hpassed
  refine ⟨⟨⟨hlaid.pow, hlaid.length⟩, hlaid.probed, hlaid.distinct⟩, hroom, ?_, fun k v => ?_, ?_⟩
  · exact (h.count_put hi hnone).trans (congrArg (· + 1) h.count_eq)
  · refine (h.holds_put hi hnone (k, v)).trans ?_
    rw [Table.lookup_insert_if, h.lookup, Prod.mk.injEq]
    split
    · rename_i heq
      subst heq
      rw [hkey]
      simp [eq_comm]
    · rename_i hne
      simp [hne]
  · rw [Table.length_keys_insert_new data hkey, h.length_keys]

theorem Held.replace (h : m.Held hash T) {i : Nat} {key : κ} {old : α} (data : α)
    (hi : i < m.tableSize) (he : m.entry i = some (key, old)) :
    (m.setSlot i (some (key, data))).Held hash (AList.insert key data T) := by
  have hlookup := (h.lookup key old).1 ⟨i, hi, he⟩
  have hnone : (m.setSlot i none).entry i = none := by
    rw [h.entry_setSlot hi, Function.update_self]
  have hentry : (m.setSlot i (some (key, data))).entry =
      Function.update (Function.update m.entry i none) i (some (key, data)) := by
    rw [h.entry_setSlot hi, Function.update_idem]
  have herase := has_erase h.distinct hi he
  have hfree : Function.update m.entry i none i = none := Function.update_self ..
  refine ⟨⟨h.setSlot i _, ?_, ?_⟩, h.room, ?_, fun k v => ?_, ?_⟩
  · rw [h.entry_setSlot hi]
    exact h.probed.put fun j hj hlt => h.probed i hi (key, old) he j hj hlt
  · rw [hentry]
    exact (h.distinct.erase i).put fun z hz => ((herase z).1 hz).2
  · rw [count, hentry]
    have h1 := card_put (x := (key, data)) hi hfree
    have h2 := card_erase hi he
    exact h1.trans (h2.trans h.count_eq)
  · rw [Holds, hentry, Table.lookup_insert_if]
    refine (has_put hi hfree (k, v)).trans ?_
    rw [herase, show Has m.tableSize m.entry (k, v) ↔ _ from h.lookup k v, Prod.mk.injEq]
    split
    · rename_i heq
      subst heq
      simp [eq_comm]
    · rename_i hne
      simp [hne]
  · rw [Table.length_keys_insert data hlookup]
    exact h.length_keys

theorem Held.remove (h : m.Held hash T) {i : Nat} {key : κ} {data : α} (hi : i < m.tableSize)
    (he : m.entry i = some (key, data)) :
    (m.entryRemove hash i).Held hash (AList.erase key T) := by
  have hlookup := (h.lookup key data).1 ⟨i, hi, he⟩
  obtain ⟨hlaid, -⟩ := h.entryRemove_spec h.count_eq h.room hi he
  have hcount := h.count_remove h.count_eq h.room hi he
  have hlt := Table.length_keys_erase_lt hlookup
  have hsize : (m.entryRemove hash i).size = m.size - 1 := rfl
  have hceq := h.count_eq
  have hroom := h.room
  have hlen := h.length_keys
  refine ⟨hlaid, ?_, by omega, fun k v => ?_, ?_⟩
  · exact (Nat.sub_le ..).trans_lt hroom
  · rw [h.holds_remove hceq hroom hi he, h.lookup, Table.lookup_erase_if]
    split
    · rename_i heq
      simp [heq]
    · rename_i hne
      simp [hne]
  · rw [AList.keys_erase, List.length_erase_of_mem (Table.mem_keys_iff.2 ⟨data, hlookup⟩), hlen, hsize]

/-! ## Lookups

The search, on a map that may have no table yet. -/

theorem Represents.length_keys (h : m.Represents hash T) : T.keys.length = m.size := by
  rcases h.table with ⟨-, hsize, -, rfl⟩ | ⟨-, hheld⟩
  · exact hsize.symm
  · exact hheld.length_keys

/-- A key that is not there is not found. -/
theorem Represents.find_none (h : m.Represents hash T) {key : κ} (hkey : T.lookup key = none) :
    m.entryFind hash key false = none := by
  rcases h.table with ⟨hzero, -⟩ | ⟨-, hheld⟩
  · unfold entryFind
    rw [hzero]
    rfl
  · obtain ⟨i, -, hfind, -⟩ := hheld.find_absent false hheld.free (hheld.absent hkey)
    exact hfind

/-- One that is there is found where it is. -/
theorem Represents.find_some (h : m.Represents hash T) {key : κ} {data : α}
    (hkey : T.lookup key = some data) :
    m.tableSizeInit ≤ m.tableSize ∧ m.Held hash T ∧ ∃ i < m.tableSize,
      m.entryFind hash key false = some i ∧ m.entry i = some (key, data) := by
  rcases h.table with ⟨-, -, -, rfl⟩ | ⟨hinit, hheld⟩
  · cases hkey
  · exact ⟨hinit, hheld, hheld.find_present false hheld.free ((hheld.lookup key data).2 hkey)⟩

theorem Represents.get_eq (h : m.Represents hash T) (key : Option κ) :
    m.get hash key = key.bind T.lookup := by
  cases key with
  | none => rfl
  | some key =>
    rw [get, Option.bind_some]
    cases hkey : T.lookup key with
    | none => rw [h.find_none hkey]
    | some data =>
      obtain ⟨-, -, i, -, hfind, he⟩ := h.find_some hkey
      simp [hfind, he]

theorem Represents.remove_spec (h : m.Represents hash T) (key : κ) :
    (m.remove hash (some key)).1 = T.lookup key ∧
      (m.remove hash (some key)).2.Represents hash (AList.erase key T) := by
  rw [remove]
  cases hkey : T.lookup key with
  | none =>
    rw [h.find_none hkey, Table.erase_of_lookup_none hkey]
    exact ⟨rfl, h⟩
  | some data =>
    obtain ⟨hinit, hheld, i, hi, hfind, he⟩ := h.find_some hkey
    simp only [hfind, he]
    exact ⟨rfl, h.initial, .inr ⟨hinit, hheld.remove hi he⟩⟩

/-! ## Whole calls

Those that add grow the table first, if need be. -/

theorem reserve_refines (h : m.Represents hash T) {capacity : Nat} (hfits : capacity ≤ 3 * 2 ^ 28) :
    ∃ m', m.reserve hash capacity = some (0, m') ∧ m'.Represents hash T := by
  obtain ⟨k, hk5, hk30, hcalc, -, -⟩ :=
    calcTableSize_spec (m := { m with tableSizeInit := 32 }) ⟨5, by omega, by omega, rfl⟩ hfits
  have htable : m.tableSize = 0 ∧ m.size = 0 ∧ m.table = [] ∧ T = ∅ ∨
      ({ m with tableSizeInit := 2 ^ k } : HashmapBase κ α).Held hash T :=
    h.table.imp_right fun hheld => hheld.2.init_irrel (2 ^ k)
  unfold reserve
  rw [hcalc, Option.bind_some]
  simp only
  split
  · rename_i hgrow
    have hroom : m.size < 2 ^ k := by
      rcases htable with ⟨-, hsize, -⟩ | hheld
      · rw [hsize]
        exact Nat.two_pow_pos k
      · exact hheld.room.trans hgrow
    obtain ⟨m', hrehash, hn, hinit, -, hheld⟩ :=
      rehash_spec (m := { m with tableSizeInit := 2 ^ k }) htable hk30 hroom
    exact ⟨m', by rw [hrehash]; rfl, ⟨k, hk5, hk30, hinit⟩, .inr ⟨by rw [hn, hinit], hheld⟩⟩
  · rename_i hle
    refine ⟨_, rfl, ⟨k, hk5, hk30, rfl⟩, ?_⟩
    rcases htable with hzero | hheld
    · exact .inl hzero
    · exact .inr ⟨Nat.le_of_not_lt hle, hheld⟩

/-- What the search of `put` and `insert` ends at, once the table has grown. -/
theorem grown (h : m.Represents hash T) (hsize : T.keys.length ≤ 3 * 2 ^ 28) (key : κ) :
    ∃ m' i, m.grow hash = some m' ∧ m'.entryFind hash key true = some i ∧
      match T.lookup key with
      | none => m'.entry i = none ∧ ∀ data, ({ m'.setSlot i (some (key, data)) with
          size := m'.size + 1 } : HashmapBase κ α).Represents hash (AList.insert key data T)
      | some old => m'.entry i = some (key, old) ∧ m'.Represents hash T ∧
          ∀ data, (m'.setSlot i (some (key, data))).Represents hash (AList.insert key data T) := by
  obtain ⟨m', hgrow, hinit, hle, hsize', hroom, hheld⟩ := h.grow_spec (h.length_keys ▸ hsize)
  have hinitial : ∃ k, 5 ≤ k ∧ k ≤ 30 ∧ m'.tableSizeInit = 2 ^ k := hinit ▸ h.initial
  cases hkey : T.lookup key with
  | none =>
    obtain ⟨i, hi, hfind, hnone, hpassed⟩ :=
      hheld.find_absent true hheld.free (hheld.absent hkey)
    exact ⟨m', i, hgrow, hfind, hnone, fun data =>
      ⟨hinitial, .inr ⟨hle, hheld.add data hi hroom hkey hnone hpassed⟩⟩⟩
  | some old =>
    obtain ⟨i, hi, hfind, he⟩ :=
      hheld.find_present true hheld.free ((hheld.lookup key old).2 hkey)
    exact ⟨m', i, hgrow, hfind, he, ⟨hinitial, .inr ⟨hle, hheld⟩⟩, fun data =>
      ⟨hinitial, .inr ⟨hle, hheld.replace data hi he⟩⟩⟩

theorem Represents.clear (h : m.Represents hash T) : m.clear.Represents hash ∅ := by
  refine ⟨h.initial, ?_⟩
  rcases h.table with ⟨hzero, -⟩ | ⟨hinit, hheld⟩
  · refine .inl ⟨hzero, rfl, ?_, rfl⟩
    rw [HashmapBase.clear, hzero]
    rfl
  · exact .inr ⟨hinit, held_blank (m := { m with size := 0 }) hheld.pow rfl⟩

theorem Represents.reset (h : m.Represents hash T) : m.reset.Represents hash ∅ := by
  obtain ⟨k, -, hk30, hk⟩ := h.initial
  exact ⟨h.initial, .inr ⟨Nat.le_refl _, held_blank (m := { m with size := 0 }) ⟨k, hk30, hk⟩ rfl⟩⟩

end

/-! ## The finite map -/

section
variable {κ α : Type} [DecidableEq κ] [DecidableEq α] {hash : κ → UInt64} {m : HashmapBase κ α}
  {T : Table κ α}

/-- What each call does to the finite map, and what it returns. -/
def specStep (T : Table κ α) : Op κ α → Ret α × Table κ α
  | .reserve _ => (.code 0, T)
  | .put (some key) (some data) =>
    match T.lookup key with
    | none => (.code 0, AList.insert key data T)
    | some _ => (.code (-17), T)
  | .put _ _ => (.code (-22), T)
  | .insert (some key) (some data) =>
    match T.lookup key with
    | none => (.added 1 none, AList.insert key data T)
    | some old => (.added 0 (if data = old then none else some old), AList.insert key data T)
  | .insert _ _ => (.added (-22) none, T)
  | .get key => (.data (key.bind T.lookup), T)
  | .remove none => (.data none, T)
  | .remove (some key) => (.data (T.lookup key), AList.erase key T)
  | .size => (.size T.keys.length, T)
  | .clear => (.void, ∅)
  | .reset => (.void, ∅)

/-- The size of the next table fits in an `int`. -/
def fits (T : Table κ α) : Op κ α → Prop
  | .reserve capacity => capacity ≤ 3 * 2 ^ 28
  | .put (some _) (some _) => T.keys.length ≤ 3 * 2 ^ 28
  | .insert (some _) (some _) => T.keys.length ≤ 3 * 2 ^ 28
  | _ => True

/-- The calls in order. -/
def specRun (T : Table κ α) : List (Op κ α) → List (Ret α) × Table κ α
  | [] => ([], T)
  | op :: ops => ((specStep T op).1 :: (specRun (specStep T op).2 ops).1,
      (specRun (specStep T op).2 ops).2)

/-- The bound holds at every call. -/
def fitsAll (T : Table κ α) : List (Op κ α) → Prop
  | [] => True
  | op :: ops => fits T op ∧ fitsAll (specStep T op).2 ops

/-- `put` leaves an entry that is there as it is. -/
theorem put_refines (h : m.Represents hash T) (key : Option κ) (data : Option α)
    (hfits : fits T (.put key data)) : ∃ m', m.step hash (.put key data) =
      some ((specStep T (.put key data)).1, m') ∧ m'.Represents hash (specStep T (.put key data)).2 := by
  rcases key with _ | key
  · exact ⟨m, rfl, h⟩
  rcases data with _ | data
  · exact ⟨m, rfl, h⟩
  obtain ⟨m', i, hgrow, hfind, hend⟩ := grown h hfits key
  simp only [step, put, specStep, hgrow, Option.bind_some, hfind]
  cases hkey : T.lookup key with
  | none =>
    rw [hkey] at hend
    rw [hend.1]
    exact ⟨_, rfl, hend.2 data⟩
  | some old =>
    rw [hkey] at hend
    rw [hend.1]
    exact ⟨_, rfl, hend.2.1⟩

/-- `insert` replaces it, and returns what it held. -/
theorem insert_refines (h : m.Represents hash T) (key : Option κ) (data : Option α)
    (hfits : fits T (.insert key data)) : ∃ m', m.step hash (.insert key data) =
      some ((specStep T (.insert key data)).1, m') ∧
      m'.Represents hash (specStep T (.insert key data)).2 := by
  rcases key with _ | key
  · exact ⟨m, rfl, h⟩
  rcases data with _ | data
  · exact ⟨m, rfl, h⟩
  obtain ⟨m', i, hgrow, hfind, hend⟩ := grown h hfits key
  simp only [step, insert, specStep, hgrow, Option.bind_some, hfind]
  cases hkey : T.lookup key with
  | none =>
    rw [hkey] at hend
    rw [hend.1]
    exact ⟨_, rfl, hend.2 data⟩
  | some old =>
    rw [hkey] at hend
    rw [hend.1]
    exact ⟨_, rfl, hend.2.2 data⟩

/-- One call. -/
theorem step_refines (h : m.Represents hash T) {op : Op κ α} (hfits : fits T op) :
    ∃ m', m.step hash op = some ((specStep T op).1, m') ∧ m'.Represents hash (specStep T op).2 := by
  cases op with
  | reserve capacity =>
    obtain ⟨m', hreserve, hrep⟩ := reserve_refines h hfits
    exact ⟨m', by rw [step, hreserve]; rfl, hrep⟩
  | put key data => exact put_refines h key data hfits
  | insert key data => exact insert_refines h key data hfits
  | get key => exact ⟨m, by rw [step, h.get_eq]; rfl, h⟩
  | remove key =>
    cases key with
    | none => exact ⟨m, rfl, h⟩
    | some key =>
      obtain ⟨hret, hrep⟩ := h.remove_spec key
      exact ⟨_, by rw [step, hret]; rfl, hrep⟩
  | size => exact ⟨m, by rw [step, specStep, h.length_keys], h⟩
  | clear => exact ⟨_, rfl, h.clear⟩
  | reset => exact ⟨_, rfl, h.reset⟩

/-- Calls on a map in use. -/
theorem run_represents (h : m.Represents hash T) {ops : List (Op κ α)} (hfits : fitsAll T ops) :
    ∃ m', m.run hash ops = some ((specRun T ops).1, m') ∧ m'.Represents hash (specRun T ops).2 := by
  induction ops generalizing m T with
  | nil => exact ⟨m, rfl, h⟩
  | cons op ops ih =>
    obtain ⟨m1, hstep, hrep⟩ := step_refines h hfits.1
    obtain ⟨m2, hrun, hrep⟩ := ih hrep hfits.2
    refine ⟨m2, ?_, hrep⟩
    rw [run, hstep, Option.bind_some, hrun]
    rfl

/-- Every run of calls on the map returns what the finite map returns, and ends with a table
that holds exactly its entries. -/
theorem map_refines (hash : κ → UInt64) (ops : List (Op κ α)) (hfits : fitsAll ∅ ops) :
    ∃ m, (init : HashmapBase κ α).run hash ops = some ((specRun ∅ ops).1, m) ∧
      m.Represents hash (specRun ∅ ops).2 :=
  run_represents (represents_init hash) hfits

/-- A map with strings as keys, such as that of a struct. -/
theorem map_refines_strings : ∃ m, (init : HashmapBase (List UInt8) Nat).run hashmapHashString
    [.put (some [97]) (some 1), .put (some [97]) (some 2), .insert (some [97]) (some 2),
      .remove (some [97]), .size] =
      some ([.code 0, .code (-17), .added 0 (some 1), .data (some 2), .size 0], m) ∧
    m.Represents hashmapHashString ∅ :=
  map_refines hashmapHashString [.put (some [97]) (some 1), .put (some [97]) (some 2),
    .insert (some [97]) (some 2), .remove (some [97]), .size] (by simp [fitsAll, fits]; decide)

end

end FfiRpc.HashmapBase
