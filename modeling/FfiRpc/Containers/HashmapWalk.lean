import FfiRpc.Containers.HashmapRuns

/-!
# Loops over the hash map

`hashmap_foreach_safe` walks the slots in order. Its body may change the map it walks over:
when the key at the iterator is no longer the one the body was given, the loop looks at the
same slot again, where the shift of `hashmap_entry_remove` may have put an entry.
`hashmap_foreach_key_safe` is the same loop, with a body that does not look at the data.

* `foreachSafe_all`: a body that leaves the map alone runs once on each entry.
* `foreachSafe_filter`: a body that takes out the entry it is given, or leaves the map alone,
  misses no entry. An entry that the shift carries from the first slots over the end of the
  table is met a second time.
* `foreachSafe_drain`: a body that takes out the entry it is given, and any others, empties the
  map. The loop then is the body on the keys in some order, where a key that is gone is passed
  over.
-/
namespace FfiRpc.HashmapBase

open Probing Circular

/-! ## Iterators -/

section Code
variable {κ α : Type} (m : HashmapBase κ α)

/-- The loop of src/hashmap.c:100-104. -/
def getPopulatedLoop : Nat → Nat → Option Nat
  | 0, _ => none
  | n + 1, entry => if (m.entry entry).isSome then some entry else getPopulatedLoop n (entry + 1)

/-- mirrors src/hashmap.c:96-107 (`hashmap_entry_get_populated`) -/
def entryGetPopulated (entry : Nat) : Option Nat :=
  if m.size > 0 then m.getPopulatedLoop (m.tableSize - entry) entry else none

/-- mirrors src/hashmap.c:505-511 (`hashmap_base_iter`) -/
def iter (pos : Option Nat) : Option Nat := m.entryGetPopulated (pos.getD 0)

/-- mirrors src/hashmap.c:525-532 (`hashmap_base_iter_next`) -/
def iterNext (iter : Option Nat) : Option Nat := iter.bind fun i => m.entryGetPopulated (i + 1)

/-- mirrors src/hashmap.c:567-573 (`hashmap_base_iter_get_key`) -/
def iterGetKey (iter : Option Nat) : Option κ := iter.bind fun i => (m.entry i).map Prod.fst

/-- mirrors src/hashmap.c:578-584 (`hashmap_base_iter_get_data`) -/
def iterGetData (iter : Option Nat) : Option α := iter.bind fun i => (m.entry i).map Prod.snd

variable {σ : Type} [DecidableEq κ] (map : σ → HashmapBase κ α) (body : σ → κ → α → σ)

/-- The loop runs in a state `σ` that the map is a part of. The keys the map owns have
different addresses, so that comparing the pointers compares the keys. `none` when the turns
do not suffice.
mirrors include/ffirpc/hashmap/hashmap.h:59-65 (`__HASHMAP_FOREACH_SAFE`) -/
def foreachSafeLoop : Nat → Option Nat → σ → Option σ
  | 0, _, _ => none
  | turns + 1, it, s =>
    match (map s).iterGetKey it, (map s).iterGetData it with
    | some key, some data =>
      let s := body s key data
      let it := if some key = (map s).iterGetKey it then (map s).iterNext it else (map s).iter it
      foreachSafeLoop turns it s
    | _, _ => some s

/-- mirrors include/ffirpc/hashmap/hashmap.h:418-419 (`hashmap_foreach_safe`) -/
def foreachSafe (turns : Nat) (s : σ) : Option σ :=
  foreachSafeLoop map body turns ((map s).iter none) s

end Code

section
variable {κ α : Type} {hash : κ → UInt64} {m : HashmapBase κ α} {T : Table κ α} {i p : Nat}

/-! ## The next entry -/

theorem getPopulatedLoop_some {n : Nat} (h : m.getPopulatedLoop n i = some p) :
    i ≤ p ∧ p < i + n ∧ (m.entry p).isSome = true ∧ ∀ j, i ≤ j → j < p → m.entry j = none := by
  induction n generalizing i with
  | zero => cases h
  | succ n ih =>
    rw [getPopulatedLoop] at h
    split at h
    · rename_i hsome
      cases h
      exact ⟨Nat.le_refl _, by omega, hsome, fun j h1 h2 => by omega⟩
    · rename_i hnone
      obtain ⟨hle, hlt, hsome, hfree⟩ := ih h
      refine ⟨by omega, by omega, hsome, fun j h1 h2 => ?_⟩
      rcases Nat.eq_or_lt_of_le h1 with rfl | h1
      · simpa using hnone
      · exact hfree j h1 h2

theorem getPopulatedLoop_none {n : Nat} (h : m.getPopulatedLoop n i = none) :
    ∀ j, i ≤ j → j < i + n → m.entry j = none := by
  induction n generalizing i with
  | zero =>
    intro j h1 h2
    omega
  | succ n ih =>
    rw [getPopulatedLoop] at h
    split at h
    · cases h
    · rename_i hnone
      intro j h1 h2
      rcases Nat.eq_or_lt_of_le h1 with rfl | h1
      · simpa using hnone
      · exact ih h j h1 (by omega)

theorem entryGetPopulated_some (h : m.entryGetPopulated i = some p) :
    i ≤ p ∧ p < m.tableSize ∧ (∃ e, m.entry p = some e) ∧
      ∀ j, i ≤ j → j < p → m.entry j = none := by
  unfold entryGetPopulated at h
  split at h
  · obtain ⟨hle, hlt, hsome, hfree⟩ := getPopulatedLoop_some h
    exact ⟨hle, by omega, Option.isSome_iff_exists.1 hsome, hfree⟩
  · cases h

theorem reduceOption_drop_free {table : List (Option (κ × α))} (hle : i ≤ p) (hp : p ≤ table.length)
    (hfree : ∀ j, i ≤ j → j < p → slot table j = none) :
    (table.drop i).reduceOption = (table.drop p).reduceOption := by
  induction p, hle using Nat.le_induction with
  | base => rfl
  | succ p hle ih =>
    have hnone := hfree p hle (Nat.lt_succ_self p)
    rw [ih (by omega) fun j h1 h2 => hfree j h1 (by omega), List.drop_eq_getElem_cons (by omega)]
    have hp' : table[p] = none := by
      simpa [slot, List.getElem?_eq_getElem (show p < table.length by omega)] using hnone
    rw [hp', List.reduceOption_cons_of_none]

variable [DecidableEq κ]

theorem Represents.getPopulated_none (h : m.Represents hash T) (hnone : m.entryGetPopulated i = none) :
    ∀ j, i ≤ j → j < m.tableSize → m.entry j = none := by
  intro j h1 h2
  unfold entryGetPopulated at hnone
  split at hnone
  · exact getPopulatedLoop_none hnone j h1 (by omega)
  · rename_i hsize
    rcases h.table with ⟨hzero, -⟩ | ⟨-, hheld⟩
    · omega
    · have hempty : occupied m.tableSize m.entry = ∅ :=
        Finset.card_eq_zero.1 (hheld.count_eq.trans (by omega))
      by_contra hc
      have hmem : j ∈ occupied m.tableSize m.entry :=
        mem_occupied.2 ⟨h2, Option.isSome_iff_ne_none.2 hc⟩
      rw [hempty] at hmem
      exact Finset.notMem_empty j hmem

theorem Represents.lookup_of_entry (h : m.Represents hash T) (hi : i < m.tableSize) {key : κ}
    {data : α} (he : m.entry i = some (key, data)) : T.lookup key = some data := by
  rcases h.table with ⟨hzero, -⟩ | ⟨-, hheld⟩
  · omega
  · exact (hheld.lookup key data).1 ⟨i, hi, he⟩

theorem Represents.entry_of_lookup (h : m.Represents hash T) {key : κ} {data : α}
    (hkey : T.lookup key = some data) : ∃ i < m.tableSize, m.entry i = some (key, data) := by
  obtain ⟨-, hheld, -⟩ := h.find_some hkey
  exact (hheld.lookup key data).2 hkey

/-! ## Taking entries out -/

/-- What taking out a key does to the slots: none is filled, and an entry at the slot of the
key or behind stays at or behind it. -/
theorem Represents.remove_slots (h : m.Represents hash T) (key : κ) :
    (m.remove hash (some key)).2.tableSize = m.tableSize ∧
      ∀ j, m.entry j = none → (m.remove hash (some key)).2.entry j = none := by
  rw [remove]
  cases hfind : m.entryFind hash key false with
  | none => exact ⟨rfl, fun j hj => hj⟩
  | some i =>
    refine ⟨rfl, fun j hj => shiftLoop_free ?_ hj⟩
    cases hkey : T.lookup key with
    | none =>
      rw [h.find_none hkey] at hfind
      cases hfind
    | some data =>
      obtain ⟨-, -, i', -, hfind', he⟩ := h.find_some hkey
      rw [hfind] at hfind'
      cases hfind'
      rw [← entry, he]
      exact Option.some_ne_none _

theorem Represents.remove_nearer (h : m.Represents hash T) (hi : i < m.tableSize) {key : κ} {data : α}
    (he : m.entry i = some (key, data)) {j : Nat} (hij : i ≤ j) (hj : j < m.tableSize) {z : κ × α}
    (hz : m.entry j = some z) (hne : z.1 ≠ key) :
    ∃ j', i ≤ j' ∧ j' < m.tableSize ∧ (m.remove hash (some key)).2.entry j' = some z := by
  obtain ⟨-, hheld, i', hi', hfind, he'⟩ := h.find_some (h.lookup_of_entry hi he)
  obtain rfl := hheld.distinct i hi i' hi' _ _ he he' rfl
  have hji : j ≠ i := by
    rintro rfl
    rw [he] at hz
    cases hz
    exact hne rfl
  obtain ⟨-, hmoved⟩ := hheld.entryRemove_spec hheld.count_eq hheld.room hi he
  obtain ⟨j', hj', hz', hle⟩ := hmoved.nearer j hj z (by rw [Function.update_of_ne hji, hz])
  refine ⟨j', ?_, hj', ?_⟩
  · unfold Circular.dist at hle
    rw [if_pos hij] at hle
    split at hle <;> omega
  · rw [remove, hfind]
    exact hz'

/-- Several keys taken out, one after the other. -/
def removeAll (hash : κ → UInt64) (m : HashmapBase κ α) (keys : List κ) : HashmapBase κ α :=
  keys.foldl (fun m key => (m.remove hash (some key)).2) m

theorem Represents.removeAll_spec (h : m.Represents hash T) (keys : List κ) :
    ∃ T', (m.removeAll hash keys).Represents hash T' ∧
      (∀ k v, T'.lookup k = some v ↔ T.lookup k = some v ∧ k ∉ keys) ∧
      ∀ j, m.entry j = none → (m.removeAll hash keys).entry j = none := by
  induction keys generalizing m T with
  | nil => exact ⟨T, h, by simp, fun j hj => hj⟩
  | cons key keys ih =>
    obtain ⟨T', hrep, hlookup, hslots⟩ := ih (h.remove_spec key).2
    refine ⟨T', hrep, fun k v => ?_, fun j hj => hslots j ((h.remove_slots key).2 j hj)⟩
    rw [hlookup, Table.lookup_erase_if, List.mem_cons, not_or]
    split
    · rename_i heq
      simp [heq]
    · rename_i hne
      simp [hne]

theorem Represents.removeAll_tableSize (h : m.Represents hash T) (keys : List κ) :
    (m.removeAll hash keys).tableSize = m.tableSize := by
  induction keys generalizing m T with
  | nil => rfl
  | cons key keys ih => exact (ih (h.remove_spec key).2).trans (h.remove_slots key).1

/-! ## Turns of the loop -/

variable {σ : Type} {map : σ → HashmapBase κ α} {body : σ → κ → α → σ} {s : σ} {turns : Nat}

/-- The body on a key, if the map still has it. -/
def visit (hash : κ → UInt64) (map : σ → HashmapBase κ α) (body : σ → κ → α → σ) (s : σ) (key : κ) :
    σ :=
  match (map s).get hash (some key) with
  | none => s
  | some data => body s key data

theorem visit_of_lookup (h : (map s).Represents hash T) {key : κ} {data : α}
    (hkey : T.lookup key = some data) : visit hash map body s key = body s key data := by
  rw [visit, h.get_eq, Option.bind_some, hkey]

theorem foreachSafeLoop_end (turns : Nat) :
    foreachSafeLoop map body (turns + 1) none s = some s := rfl

theorem foreachSafeLoop_same {key : κ} {data : α} (he : (map s).entry p = some (key, data))
    {data' : α} (he' : (map (body s key data)).entry p = some (key, data')) :
    foreachSafeLoop map body (turns + 1) (some p) s =
      foreachSafeLoop map body turns ((map (body s key data)).entryGetPopulated (p + 1))
        (body s key data) := by
  simp [foreachSafeLoop, iterGetKey, iterGetData, iterNext, he, he']

theorem foreachSafeLoop_other {key : κ} {data : α} (he : (map s).entry p = some (key, data))
    (he' : ∀ data', (map (body s key data)).entry p ≠ some (key, data')) :
    foreachSafeLoop map body (turns + 1) (some p) s =
      foreachSafeLoop map body turns ((map (body s key data)).entryGetPopulated p)
        (body s key data) := by
  have hne : some key ≠ (map (body s key data)).iterGetKey (some p) := by
    intro hc
    obtain ⟨e, he1, he2⟩ := Option.map_eq_some_iff.1 hc.symm
    exact he' e.2 (he2 ▸ he1)
  have hkey : (map s).iterGetKey (some p) = some key := congrArg (Option.map Prod.fst) he
  have hdata : (map s).iterGetData (some p) = some data := congrArg (Option.map Prod.snd) he
  rw [foreachSafeLoop, hkey, hdata]
  simp only
  rw [if_neg hne]
  rfl

/-! ## A body that leaves the map alone -/

theorem foreachSafeLoop_all (hbody : ∀ s key data, map (body s key data) = map s)
    (h : (map s).Represents hash T) (hi : i ≤ (map s).tableSize)
    (hlen : (map s).table.length = (map s).tableSize)
    (hturns : (map s).tableSize - i < turns) :
    foreachSafeLoop map body turns ((map s).entryGetPopulated i) s =
      some ((((map s).table.drop i).reduceOption.map Prod.fst).foldl (visit hash map body) s) := by
  induction turns generalizing s i with
  | zero => omega
  | succ turns ih =>
    cases hnext : (map s).entryGetPopulated i with
    | none =>
      have hfree := h.getPopulated_none hnext
      rw [foreachSafeLoop_end, reduceOption_drop_free (hlen ▸ hi) (Nat.le_refl _) fun j h1 h2 =>
        hfree j h1 (hlen ▸ h2), List.drop_length]
      rfl
    | some p =>
      obtain ⟨hle, hp, ⟨⟨key, data⟩, he⟩, hfree⟩ := entryGetPopulated_some hnext
      have hsame := hbody s key data
      have hcons : ((map s).table.drop i).reduceOption =
          (key, data) :: ((map s).table.drop (p + 1)).reduceOption := by
        rw [reduceOption_drop_free hle (by omega) hfree, List.drop_eq_getElem_cons (by omega)]
        have hp' : (map s).table[p] = some (key, data) := by
          simpa [entry, slot, List.getElem?_eq_getElem (show p < (map s).table.length by omega)] using he
        rw [hp', List.reduceOption_cons_of_some]
      rw [foreachSafeLoop_same he (hsame ▸ he), ih (hsame ▸ h) (by rw [hsame]; omega)
        (by rw [hsame]; exact hlen) (by rw [hsame]; omega), hcons, List.map_cons, List.foldl_cons,
        visit_of_lookup h (h.lookup_of_entry hp he), hsame]

/-- A body that leaves the map alone runs once on each entry, in the order of the slots. -/
theorem foreachSafe_all (hash : κ → UInt64) (map : σ → HashmapBase κ α) (body : σ → κ → α → σ)
    (hbody : ∀ s key data, map (body s key data) = map s) (s : σ) (T : Table κ α)
    (h : (map s).Represents hash T) (turns : Nat) (hturns : (map s).tableSize < turns) :
    ∃ order : List κ, order = (map s).table.reduceOption.map Prod.fst ∧ order.Perm T.keys ∧
      foreachSafe map body turns s = some (order.foldl (visit hash map body) s) := by
  have hlen : (map s).table.length = (map s).tableSize := by
    rcases h.table with ⟨hzero, -, hnil, -⟩ | ⟨-, hheld⟩
    · rw [hzero, hnil]
      rfl
    · exact hheld.length
  refine ⟨_, rfl, ?_, foreachSafeLoop_all hbody h (Nat.zero_le _) hlen hturns⟩
  have hnodup : ((map s).table.reduceOption.map Prod.fst).Nodup := by
    rcases h.table with ⟨-, -, hnil, -⟩ | ⟨-, hheld⟩
    · rw [hnil]
      exact List.nodup_nil
    · exact nodup_slot (hlen ▸ hheld.distinct)
  refine (List.perm_ext_iff_of_nodup hnodup T.keys_nodup).2 fun key => ?_
  rw [List.mem_map, Table.mem_keys_iff]
  constructor
  · intro hkey
    obtain ⟨e, he, rfl⟩ := hkey
    obtain ⟨i, hi, he⟩ := has_slot.2 he
    exact ⟨e.2, h.lookup_of_entry (hlen ▸ hi) he⟩
  · intro hkey
    obtain ⟨data, hkey⟩ := hkey
    obtain ⟨i, hi, he⟩ := h.entry_of_lookup hkey
    exact ⟨(key, data), has_slot.1 ⟨i, hlen ▸ hi, he⟩, rfl⟩

/-- Two strings, and a body that sums the data. -/
theorem foreachSafe_all_strings : ∃ m : HashmapBase (List UInt8) Nat, m.size = 2 ∧
    ∃ order : List (List UInt8), order.Perm [[98], [97]] ∧
      foreachSafe Prod.fst (fun s _ data => (s.1, s.2 + data)) (m.tableSize + 1) (m, 0) =
        some (order.foldl (visit hashmapHashString Prod.fst fun s _ data => (s.1, s.2 + data)) (m, 0)) := by
  obtain ⟨m, -, h⟩ := run_represents (represents_init hashmapHashString)
    (show fitsAll ∅ [.put (some [97]) (some 1), .put (some [98]) (some 2)] by
      simp [fitsAll, fits]; decide)
  refine ⟨m, h.length_keys.symm, ?_⟩
  obtain ⟨order, -, hperm, hloop⟩ := foreachSafe_all hashmapHashString Prod.fst
    (fun s _ data => (s.1, s.2 + data)) (fun _ _ _ => rfl) (m, 0) _ h (m.tableSize + 1)
    (Nat.lt_succ_self _)
  exact ⟨order, hperm, hloop⟩

/-! ## A body that takes its entry out, or leaves the map alone -/

/-- The loop from slot `i` on has run the body on `visited`, and `T'` is left. -/
structure Sifted (hash : κ → UInt64) (map : σ → HashmapBase κ α) (body : σ → κ → α → σ)
    (P : κ → α → Bool) (s : σ) (T : Table κ α) (i : Nat) (visited : List κ) (T' : Table κ α) :
    Prop where
  known : ∀ key ∈ visited, key ∈ T.keys
  covered : ∀ j, i ≤ j → j < (map s).tableSize → ∀ e, (map s).entry j = some e → e.1 ∈ visited
  represents : (map (visited.foldl (visit hash map body) s)).Represents hash T'
  lookup : ∀ key, T'.lookup key =
    if key ∈ visited then (T.lookup key).filter (fun data => !P key data) else T.lookup key

/-- The body takes its entry out, and the loop looks at the slot again. -/
theorem Sifted.taken {P : κ → α → Bool} {key : κ} {data : α} {visited : List κ} {T' : Table κ α}
    (h : (map s).Represents hash T) (hp : p < (map s).tableSize)
    (he : (map s).entry p = some (key, data))
    (hfree : ∀ j, i ≤ j → j < p → (map s).entry j = none) (hP : P key data = true)
    (heffect : map (body s key data) = ((map s).remove hash (some key)).2)
    (hrest : Sifted hash map body P (body s key data) (AList.erase key T) p visited T') :
    Sifted hash map body P s T i (key :: visited) T' := by
  have hkey := h.lookup_of_entry hp he
  have hsize : (map (body s key data)).tableSize = (map s).tableSize :=
    heffect ▸ (h.remove_slots key).1
  refine ⟨?_, ?_, ?_, fun k => ?_⟩
  · intro k hk
    rcases List.mem_cons.1 hk with rfl | hk
    · exact Table.mem_keys_iff.2 ⟨data, hkey⟩
    · exact List.mem_of_mem_erase (AList.keys_erase key T ▸ hrest.known k hk)
  · intro j h1 h2 e hj
    by_cases hek : e.1 = key
    · exact hek ▸ List.mem_cons_self
    · have hpj : p ≤ j := by
        by_contra hc
        rw [hfree j h1 (by omega)] at hj
        cases hj
      -- the entry is where it was, or nearer
      obtain ⟨j', h1', h2', hj'⟩ := h.remove_nearer hp he hpj h2 hj hek
      exact List.mem_cons_of_mem key (hrest.covered j' h1' (hsize ▸ h2') e (heffect ▸ hj'))
  · rw [List.foldl_cons, visit_of_lookup h hkey]
    exact hrest.represents
  · rw [hrest.lookup, Table.lookup_erase_if]
    by_cases hk : k = key
    · subst hk
      rw [if_pos rfl, if_pos List.mem_cons_self, hkey, Option.filter_some, hP]
      simp
    · simp [hk]

/-- The body leaves the map alone, and the loop goes on. -/
theorem Sifted.left {P : κ → α → Bool} {key : κ} {data : α} {visited : List κ} {T' : Table κ α}
    (h : (map s).Represents hash T) (hp : p < (map s).tableSize)
    (he : (map s).entry p = some (key, data))
    (hfree : ∀ j, i ≤ j → j < p → (map s).entry j = none) (hP : P key data = false)
    (heffect : map (body s key data) = map s)
    (hrest : Sifted hash map body P (body s key data) T (p + 1) visited T') :
    Sifted hash map body P s T i (key :: visited) T' := by
  have hkey := h.lookup_of_entry hp he
  refine ⟨?_, ?_, ?_, fun k => ?_⟩
  · intro k hk
    rcases List.mem_cons.1 hk with rfl | hk
    · exact Table.mem_keys_iff.2 ⟨data, hkey⟩
    · exact hrest.known k hk
  · intro j h1 h2 e hj
    by_cases hjp : j = p
    · rw [hjp, he] at hj
      cases hj
      exact List.mem_cons_self
    · have hpj : p < j := by
        by_contra hc
        rw [hfree j h1 (by omega)] at hj
        cases hj
      exact List.mem_cons_of_mem key (hrest.covered j hpj (heffect ▸ h2) e (heffect ▸ hj))
  · rw [List.foldl_cons, visit_of_lookup h hkey]
    exact hrest.represents
  · rw [hrest.lookup]
    by_cases hk : k = key
    · subst hk
      rw [if_pos List.mem_cons_self, hkey, Option.filter_some, hP]
      simp
    · simp [hk]

theorem foreachSafeLoop_filter {P : κ → α → Bool}
    (hbody : ∀ s key data, map (body s key data) =
      if P key data then ((map s).remove hash (some key)).2 else map s)
    (h : (map s).Represents hash T) (hturns : (map s).tableSize - i + T.keys.length < turns) :
    ∃ visited : List κ, ∃ T',
      foreachSafeLoop map body turns ((map s).entryGetPopulated i) s =
        some (visited.foldl (visit hash map body) s) ∧ Sifted hash map body P s T i visited T' := by
  induction turns generalizing s i T with
  | zero => omega
  | succ turns ih =>
    cases hnext : (map s).entryGetPopulated i with
    | none =>
      refine ⟨[], T, foreachSafeLoop_end turns, by simp, fun j h1 h2 e he => ?_, h, by simp⟩
      rw [h.getPopulated_none hnext j h1 h2] at he
      cases he
    | some p =>
      obtain ⟨hle, hp, ⟨⟨key, data⟩, he⟩, hfree⟩ := entryGetPopulated_some hnext
      have hkey := h.lookup_of_entry hp he
      have hvisit : visit hash map body s key = body s key data := visit_of_lookup h hkey
      have heffect := hbody s key data
      cases hP : P key data with
      | true =>
        rw [hP, if_pos rfl] at heffect
        have hrep : (map (body s key data)).Represents hash (AList.erase key T) :=
          heffect ▸ (h.remove_spec key).2
        have hlt := Table.length_keys_erase_lt hkey
        have hsize : (map (body s key data)).tableSize = (map s).tableSize :=
          heffect ▸ (h.remove_slots key).1
        obtain ⟨visited, T', hloop, hrest⟩ := ih (i := p) hrep (by rw [hsize]; omega)
        refine ⟨key :: visited, T', ?_, .taken h hp he hfree hP heffect hrest⟩
        rw [foreachSafeLoop_other he fun data' he' => ?_, hloop, List.foldl_cons, hvisit]
        have := hrep.lookup_of_entry (hsize ▸ hp) he'
        rw [AList.lookup_erase] at this
        cases this
      | false =>
        rw [hP, if_neg (by simp)] at heffect
        obtain ⟨visited, T', hloop, hrest⟩ :=
          ih (s := body s key data) (i := p + 1) (heffect ▸ h) (by rw [heffect]; omega)
        refine ⟨key :: visited, T', ?_, .left h hp he hfree hP heffect hrest⟩
        rw [foreachSafeLoop_same he (heffect ▸ he), hloop, List.foldl_cons, hvisit]

/-- A body that takes out the entries that meet `P`, and leaves the map alone on the others:
the loop ends, it runs the body on entries of the map only and on each of them, and it leaves
the entries that do not meet `P`. -/
theorem foreachSafe_filter (hash : κ → UInt64) (map : σ → HashmapBase κ α) (body : σ → κ → α → σ)
    (P : κ → α → Bool) (hbody : ∀ s key data, map (body s key data) =
      if P key data then ((map s).remove hash (some key)).2 else map s)
    (s : σ) (T : Table κ α) (h : (map s).Represents hash T) (turns : Nat)
    (hturns : (map s).tableSize + (map s).size < turns) :
    ∃ visited : List κ, ∃ s' T', foreachSafe map body turns s = some s' ∧
      s' = visited.foldl (visit hash map body) s ∧ (∀ key, key ∈ visited ↔ key ∈ T.keys) ∧
      (map s').Represents hash T' ∧
      ∀ key, T'.lookup key = (T.lookup key).filter fun data => !P key data := by
  obtain ⟨visited, T', hloop, hsub, hcover, hrep, hlookup⟩ :=
    foreachSafeLoop_filter (i := 0) hbody h (by rw [h.length_keys]; exact hturns)
  have hall : ∀ key, key ∈ visited ↔ key ∈ T.keys := by
    intro key
    refine ⟨hsub key, fun hkey => ?_⟩
    obtain ⟨data, hkey⟩ := Table.mem_keys_iff.1 hkey
    obtain ⟨j, hj, he⟩ := h.entry_of_lookup hkey
    exact hcover j (Nat.zero_le j) hj _ he
  refine ⟨visited, _, T', hloop, rfl, hall, hrep, fun key => ?_⟩
  rw [hlookup]
  split
  · rfl
  · rename_i hnot
    cases hkey : T.lookup key with
    | none => rfl
    | some data => exact absurd ((hall key).2 (Table.mem_keys_iff.2 ⟨data, hkey⟩)) hnot

/-- Two strings, and a body that takes out the second. -/
theorem foreachSafe_filter_strings : ∃ m : HashmapBase (List UInt8) Nat, m.size = 2 ∧
    ∃ m' T', foreachSafe id (fun m key data =>
        if data == 2 then (m.remove hashmapHashString (some key)).2 else m)
        (m.tableSize + m.size + 1) m = some m' ∧
      m'.Represents hashmapHashString T' ∧ T'.lookup [97] = some 1 ∧ T'.lookup [98] = none := by
  obtain ⟨m, -, h⟩ := run_represents (represents_init hashmapHashString)
    (show fitsAll ∅ [.put (some [97]) (some 1), .put (some [98]) (some 2)] by
      simp [fitsAll, fits]; decide)
  refine ⟨m, h.length_keys.symm, ?_⟩
  obtain ⟨visited, m', T', hloop, -, -, hrep, hlookup⟩ := foreachSafe_filter hashmapHashString id
    (fun m key data => if data == 2 then (m.remove hashmapHashString (some key)).2 else m)
    (fun _ data => data == 2) (fun _ _ _ => rfl) m _ h (m.tableSize + m.size + 1)
    (Nat.lt_succ_self _)
  exact ⟨m', T', hloop, hrep, hlookup [97], hlookup [98]⟩

/-! ## A body that takes its entry out, and others -/

theorem foldl_visit_absent (h : (map s).Represents hash ∅) (keys : List κ) :
    keys.foldl (visit hash map body) s = s := by
  induction keys with
  | nil => rfl
  | cons key keys ih =>
    rw [List.foldl_cons, visit, h.get_eq, Option.bind_some, AList.lookup_empty]
    exact ih

theorem drain_perm {l l1 keys : List κ} {key : κ} (hl : key ∈ l) (hkey : key ∈ keys) (hnodup : l.Nodup)
    (hnodup1 : l1.Nodup) (hrest : ∀ k, k ∈ l1 ↔ k ∈ l ∧ k ∉ keys) :
    (key :: (l1 ++ l.filter fun k => k ≠ key ∧ k ∈ keys)).Perm l := by
  refine (List.perm_ext_iff_of_nodup ?_ hnodup).2 fun k => ?_
  · refine List.nodup_cons.2 ⟨fun hc => ?_, List.nodup_append.2 ⟨hnodup1, hnodup.filter _, ?_⟩⟩
    · rcases List.mem_append.1 hc with hc | hc
      · exact ((hrest key).1 hc).2 hkey
      · simp at hc
    · intro a ha b hb heq
      subst heq
      have := (List.mem_filter.1 hb).2
      simp only [decide_eq_true_eq] at this
      exact ((hrest a).1 ha).2 this.2
  · rw [List.mem_cons, List.mem_append, hrest, List.mem_filter, decide_eq_true_eq]
    constructor
    · intro hk
      rcases hk with rfl | hk | hk
      · exact hl
      · exact hk.1
      · exact hk.1
    · intro hk
      by_cases heq : k = key
      · exact .inl heq
      · by_cases hin : k ∈ keys
        · exact .inr (.inr ⟨hk, heq, hin⟩)
        · exact .inr (.inl ⟨hk, hin⟩)

theorem foreachSafeLoop_drain
    (hbody : ∀ s key data, ∃ keys, key ∈ keys ∧ map (body s key data) = (map s).removeAll hash keys)
    (h : (map s).Represents hash T) (hclear : ∀ j < i, (map s).entry j = none)
    (hturns : T.keys.length < turns) :
    ∃ order : List κ, ∃ s', order.Perm T.keys ∧
      foreachSafeLoop map body turns ((map s).entryGetPopulated i) s = some s' ∧
      s' = order.foldl (visit hash map body) s ∧ (map s').Represents hash ∅ := by
  induction turns generalizing s i T with
  | zero => omega
  | succ turns ih =>
    cases hnext : (map s).entryGetPopulated i with
    | none =>
      have hempty : T = ∅ := by
        refine Table.eq_empty fun key => ?_
        by_contra hc
        obtain ⟨data, hkey⟩ := Option.ne_none_iff_exists'.1 hc
        obtain ⟨j, hj, he⟩ := h.entry_of_lookup hkey
        rcases Nat.lt_or_ge j i with hlt | hge
        · rw [hclear j hlt] at he
          cases he
        · rw [h.getPopulated_none hnext j hge hj] at he
          cases he
      subst hempty
      exact ⟨[], s, .refl _, foreachSafeLoop_end turns, rfl, h⟩
    | some p =>
      obtain ⟨hle, hp, ⟨⟨key, data⟩, he⟩, hfree⟩ := entryGetPopulated_some hnext
      have hkey := h.lookup_of_entry hp he
      obtain ⟨keys, hmem, heffect⟩ := hbody s key data
      obtain ⟨T1, hrep, hlookup, hslots⟩ := h.removeAll_spec keys
      rw [← heffect] at hrep hslots
      -- the keys: this one, those of the rest of the loop, and those that went with this one
      have hrest : ∀ k, k ∈ T1.keys ↔ k ∈ T.keys ∧ k ∉ keys := by
        intro k
        rw [Table.mem_keys_iff, Table.mem_keys_iff, ← exists_and_right]
        exact exists_congr fun v => hlookup k v
      have hperm : (key :: (T1.keys ++ T.keys.filter fun k => k ≠ key ∧ k ∈ keys)).Perm T.keys :=
        drain_perm (Table.mem_keys_iff.2 ⟨data, hkey⟩) hmem T.keys_nodup T1.keys_nodup hrest
      have hfewer : T1.keys.length < T.keys.length := by
        have := hperm.length_eq
        rw [List.length_cons, List.length_append] at this
        omega
      obtain ⟨order, s', horder, hloop, hs', hend⟩ := ih (i := p) hrep (fun j hj => by
        refine hslots j ?_
        rcases Nat.lt_or_ge j i with hlt | hge
        · exact hclear j hlt
        · exact hfree j hge hj) (by omega)
      refine ⟨key :: (order ++ T.keys.filter fun k => k ≠ key ∧ k ∈ keys), s', ?_, ?_, ?_, hend⟩
      · exact ((horder.append_right _).cons key).trans hperm
      · rw [foreachSafeLoop_other he fun data' he' => ?_, hloop]
        have hsize : (map (body s key data)).tableSize = (map s).tableSize := by
          rw [heffect, h.removeAll_tableSize]
        have := hrep.lookup_of_entry (hsize ▸ hp) he'
        exact ((hlookup key data').1 this).2 hmem
      · rw [List.foldl_cons, List.foldl_append, visit_of_lookup h hkey, ← hs',
          foldl_visit_absent hend]

/-- A body that takes out the entry it is given, and any others: the loop ends with an empty
map, and is the body on all the keys in some order, a key that is gone being passed over. -/
theorem foreachSafe_drain (hash : κ → UInt64) (map : σ → HashmapBase κ α) (body : σ → κ → α → σ)
    (hbody : ∀ s key data, ∃ keys, key ∈ keys ∧ map (body s key data) = (map s).removeAll hash keys)
    (s : σ) (T : Table κ α) (h : (map s).Represents hash T) (turns : Nat)
    (hturns : (map s).size < turns) :
    ∃ order : List κ, ∃ s', order.Perm T.keys ∧ foreachSafe map body turns s = some s' ∧
      s' = order.foldl (visit hash map body) s ∧ (map s').Represents hash ∅ :=
  foreachSafeLoop_drain hbody h (fun _ hj => absurd hj (Nat.not_lt_zero _)) (h.length_keys ▸ hturns)

/-- Two strings, both taken out by the body on the first. -/
theorem foreachSafe_drain_strings : ∃ m : HashmapBase (List UInt8) Nat, m.size = 2 ∧
    ∃ m', foreachSafe id (fun m key _ => m.removeAll hashmapHashString [[97], [98], key])
        (m.size + 1) m = some m' ∧ m'.Represents hashmapHashString ∅ := by
  obtain ⟨m, -, h⟩ := run_represents (represents_init hashmapHashString)
    (show fitsAll ∅ [.put (some [97]) (some 1), .put (some [98]) (some 2)] by
      simp [fitsAll, fits]; decide)
  refine ⟨m, h.length_keys.symm, ?_⟩
  obtain ⟨order, m', -, hloop, -, hrep⟩ := foreachSafe_drain hashmapHashString id
    (fun m key _ => m.removeAll hashmapHashString [[97], [98], key])
    (fun m key _ => ⟨[[97], [98], key], by simp, rfl⟩) m _ h (m.size + 1) (Nat.lt_succ_self _)
  exact ⟨m', hloop, hrep⟩

end

end FfiRpc.HashmapBase
