import FfiRpc.Core.Bytes
import FfiRpc.Core.Table

/-!
# `hashmap.c`

The hash map under every struct, under `ptracker` and under the tables of the client: open
addressing in a table of a power of two slots, with linear probing from the index that two
hashes give for a key. A slot is empty, or holds a key and its data; keys are compared by
content, as `strcmp` and `ptracker_ptr_cmp` do. The two pointers that may be NULL in a call,
the key and the data, are options.

`none` stands for a call that C gives no meaning to, or that an `assert` of the file stops:
the size of a table is computed by a shift in `int`. An allocation does not fail.
-/
namespace FfiRpc

/-! ## Hashes -/

/-- The body of the loop of the three hashes; `size_t` is 64 bits wide.
mirrors src/hashmap.c:704-706 -/
def jenkinsStep (hash : UInt64) (byte : UInt64) : UInt64 :=
  let hash := hash + byte
  let hash := hash + (hash <<< 10)
  hash ^^^ (hash >>> 6)

/-- mirrors src/hashmap.c:708-711 -/
def jenkinsFinish (hash : UInt64) : UInt64 :=
  let hash := hash + (hash <<< 3)
  let hash := hash ^^^ (hash >>> 11)
  hash + (hash <<< 15)

/-- mirrors src/hashmap.c:698-712 (`hashmap_hash_default`) -/
def hashmapHashDefault (data : List UInt8) : UInt64 :=
  jenkinsFinish (data.foldl (fun hash byte => jenkinsStep hash byte.toUInt64) 0)

/-- A `char` is signed: a byte from 128 on is added as a negative number.
mirrors src/hashmap.c:720-733 (`hashmap_hash_string`) -/
def hashmapHashString (key : List UInt8) : UInt64 :=
  jenkinsFinish (key.foldl (fun hash c =>
    jenkinsStep hash (if c < 128 then c.toUInt64 else c.toUInt64 - 256)) 0)

/-! ## The map -/

/-- A map from keys `κ` to data `α`; `table` is NULL, here empty, before the first entry.
mirrors include/ffirpc/hashmap/hashmap_base.h:37-46 (`struct hashmap_base`) -/
structure HashmapBase (κ α : Type) where
  tableSizeInit : Nat
  tableSize : Nat
  size : Nat
  table : List (Option (κ × α))
deriving DecidableEq, Repr

namespace HashmapBase

/-- `1 << n` in `int`: from the sign bit on it has no meaning. -/
def intShift (n : Nat) : Option Nat := if n < 31 then some (2 ^ n) else none

/-- `(sizeof(unsigned long) << 3) - __builtin_clzl(v)`, which has no meaning at 0. -/
def bitWidth (v : Nat) : Option Nat := if v = 0 then none else some (v.log2 + 1)

section Code
variable {κ α : Type} (hash : κ → UInt64) (m : HashmapBase κ α)

/-- What the slot holds. -/
def slot (table : List (Option (κ × α))) (i : Nat) : Option (κ × α) := table[i]?.join

def entry (i : Nat) : Option (κ × α) := slot m.table i

/-- `HASHMAP_SIZE_MOD`, src/hashmap.c:43 -/
def sizeMod (val : Nat) : Nat := val &&& ((m.tableSize + 2 ^ 64 - 1) % 2 ^ 64)

/-- `HASHMAP_PROBE_NEXT`, src/hashmap.c:46 -/
def probeNext (index : Nat) : Nat := m.sizeMod ((index + 1) % 2 ^ 64)

/-- The difference of two indices, modulo the size of the table. -/
def sizeModSub (a b : Nat) : Nat := m.sizeMod ((a + 2 ^ 64 - b) % 2 ^ 64)

/-- mirrors src/hashmap.c:57-73 (`hashmap_calc_table_size`) -/
def calcTableSize (size : Nat) : Option Nat :=
  let tableSize := (size + size / 3) % 2 ^ 64
  if tableSize < m.tableSizeInit then
    some m.tableSizeInit
  else
    (bitWidth (tableSize - 1)).bind intShift

/-- mirrors src/hashmap.c:78-90 (`hashmap_calc_index`) -/
def calcIndex (key : κ) : Nat := m.sizeMod (hashmapHashDefault (toLE 8 (hash key).toNat)).toNat

/-- mirrors src/hashmap.c:247-258 (`hashmap_base_init`) -/
def init : HashmapBase κ α := { tableSizeInit := 128, tableSize := 0, size := 0, table := [] }

/-- mirrors src/hashmap.c:473-478 (`hashmap_base_clear`) -/
def clear : HashmapBase κ α := { m with size := 0, table := List.replicate m.tableSize none }

/-- mirrors src/hashmap.c:483-497 (`hashmap_base_reset`) -/
def reset : HashmapBase κ α :=
  { m with size := 0, tableSize := m.tableSizeInit, table := List.replicate m.tableSizeInit none }

variable [DecidableEq κ]

/-- The loop of src/hashmap.c:122-134; the counter runs down. -/
def entryFindLoop (key : κ) (findEmpty : Bool) : Nat → Nat → Option Nat
  | 0, _ => none
  | i + 1, index =>
    match m.entry index with
    | none => if findEmpty then some index else none
    | some e => if key = e.1 then some index else entryFindLoop key findEmpty i (m.probeNext index)

/-- The slot of the key, or the empty one its search ends at.
mirrors src/hashmap.c:113-136 (`hashmap_entry_find`) -/
def entryFind (key : κ) (findEmpty : Bool) : Option Nat :=
  m.entryFindLoop key findEmpty m.tableSize (m.calcIndex hash key)

/-- The loop of src/hashmap.c:160-173 and the `memset` after it. `removed` is the slot that
was left last: its content has been copied on, or is the entry that is taken out. -/
def shiftLoop : Nat → Nat → Nat → List (Option (κ × α)) → List (Option (κ × α))
  | 0, removed, _, table => table.set removed none
  | i + 1, removed, index, table =>
    match slot table index with
    | none => table.set removed none
    | some e =>
      let entryIndex := m.calcIndex hash e.1
      if m.sizeModSub index entryIndex > m.sizeModSub removed entryIndex then
        shiftLoop i index (m.probeNext index) (table.set removed (some e))
      else
        shiftLoop i removed (m.probeNext index) table

/-- mirrors src/hashmap.c:143-177 (`hashmap_entry_remove`) -/
def entryRemove (removed : Nat) : HashmapBase κ α :=
  { m with
    size := m.size - 1
    table := m.shiftLoop hash (m.size - 1) removed (m.probeNext removed) m.table }

/-- The loop of src/hashmap.c:207-217 over the old table. -/
def rehashLoop : List (Option (κ × α)) → HashmapBase κ α → Option (HashmapBase κ α)
  | [], m => some m
  | none :: old, m => rehashLoop old m
  | some e :: old, m =>
    match m.entryFind hash e.1 true with
    | none => none
    | some i => rehashLoop old { m with table := m.table.set i (some e) }

/-- mirrors src/hashmap.c:184-220 (`hashmap_rehash`) -/
def rehash (tableSize : Nat) : Option (HashmapBase κ α) :=
  if tableSize &&& (tableSize - 1) = 0 ∧ m.size ≤ tableSize then
    rehashLoop hash m.table { m with tableSize, table := List.replicate tableSize none }
  else
    none

/-- mirrors src/hashmap.c:290-309 (`hashmap_base_reserve`) -/
def reserve (capacity : Nat) : Option (Int × HashmapBase κ α) :=
  (({ m with tableSizeInit := 32 } : HashmapBase κ α).calcTableSize capacity).bind fun tableSizeInit =>
    let m := { m with tableSizeInit }
    if m.tableSizeInit > m.tableSize then
      (m.rehash hash m.tableSizeInit).map fun m => (0, m)
    else
      some (0, m)

/-- The table grows when it is about to be three quarters full.
mirrors src/hashmap.c:326-330, 381-385 -/
def grow : Option (HashmapBase κ α) :=
  (m.calcTableSize m.size).bind fun tableSize =>
    if tableSize > m.tableSize then m.rehash hash tableSize else some m

/-- mirrors src/hashmap.c:316-363 (`hashmap_base_put`) -/
def put : Option κ → Option α → Option (Int × HashmapBase κ α)
  | some key, some data =>
    (m.grow hash).bind fun m =>
      match m.entryFind hash key true with
      | none => some (-99, m) -- EADDRNOTAVAIL
      | some i =>
        match m.entry i with
        | some _ => some (-17, m) -- EEXIST
        | none => some (0, { m with table := m.table.set i (some (key, data)), size := m.size + 1 })
  | _, _ => some (-22, m) -- EINVAL

/-- The second result is what `*old_data` is set to, when the caller asks for it.
mirrors src/hashmap.c:371-427 (`hashmap_base_insert`) -/
def insert [DecidableEq α] : Option κ → Option α → Option (Int × Option α × HashmapBase κ α)
  | some key, some data =>
    (m.grow hash).bind fun m =>
      match m.entryFind hash key true with
      | none => some (-99, none, m)
      | some i =>
        match m.entry i with
        | none =>
          some (1, none, { m with table := m.table.set i (some (key, data)), size := m.size + 1 })
        | some e =>
          some (0, if data = e.2 then none else some e.2,
            { m with table := m.table.set i (some (e.1, data)) })
  | _, _ => some (-22, none, m)

/-- mirrors src/hashmap.c:432-445 (`hashmap_base_get`) -/
def get : Option κ → Option α
  | none => none
  | some key =>
    match m.entryFind hash key false with
    | none => none
    | some i => (m.entry i).map Prod.snd

/-- mirrors src/hashmap.c:451-468 (`hashmap_base_remove`) -/
def remove : Option κ → Option α × HashmapBase κ α
  | none => (none, m)
  | some key =>
    match m.entryFind hash key false with
    | none => (none, m)
    | some i => ((m.entry i).map Prod.snd, m.entryRemove hash i)

end Code

/-! ## Runs -/

section Runs
variable {κ α : Type} [DecidableEq κ] [DecidableEq α] (hash : κ → UInt64)

/-- A call on the map. -/
inductive Op (κ α : Type) where
  | reserve (capacity : Nat)
  | put (key : Option κ) (data : Option α)
  | insert (key : Option κ) (data : Option α)
  | get (key : Option κ)
  | remove (key : Option κ)
  | size
  | clear
  | reset
deriving DecidableEq, Repr

/-- What a call returns. -/
inductive Ret (α : Type) where
  | code (r : Int)
  | added (r : Int) (oldData : Option α)
  | data (d : Option α)
  | size (n : Nat)
  | void
deriving DecidableEq, Repr

/-- One call. -/
def step (m : HashmapBase κ α) : Op κ α → Option (Ret α × HashmapBase κ α)
  | .reserve capacity => (m.reserve hash capacity).map fun r => (.code r.1, r.2)
  | .put key data => (m.put hash key data).map fun r => (.code r.1, r.2)
  | .insert key data => (m.insert hash key data).map fun r => (.added r.1 r.2.1, r.2.2)
  | .get key => some (.data (m.get hash key), m)
  | .remove key => some (.data (m.remove hash key).1, (m.remove hash key).2)
  | .size => some (.size m.size, m)
  | .clear => some (.void, m.clear)
  | .reset => some (.void, m.reset)

/-- The calls in order, and what each returns. -/
def run (m : HashmapBase κ α) : List (Op κ α) → Option (List (Ret α) × HashmapBase κ α)
  | [] => some ([], m)
  | op :: ops =>
    (m.step hash op).bind fun r => (run r.2 ops).map fun rs => (r.1 :: rs.1, rs.2)

end Runs

end HashmapBase
end FfiRpc
