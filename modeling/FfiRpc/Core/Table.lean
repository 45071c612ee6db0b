import Mathlib

/-!
# Finite tables

Keyed tables over Mathlib's `AList` with a constant value type. The order of
the entries carries no meaning: every statement about a table goes through
`lookup` and `keys`, and code that walks a table does so in an order given
from outside.
-/
namespace FfiRpc

/-- A finite map from `κ` to `α`. -/
abbrev Table (κ α : Type) := AList (fun _ : κ => α)

namespace Table
variable {κ α : Type} [DecidableEq κ]

theorem lookup_insert_if (t : Table κ α) (a b : κ) (v : α) :
    (AList.insert a v t).lookup b = if b = a then some v else t.lookup b := by
  split
  · rename_i h; subst h; exact AList.lookup_insert t
  · rename_i h; exact AList.lookup_insert_ne h

theorem lookup_erase_if (t : Table κ α) (a b : κ) :
    (AList.erase a t).lookup b = if b = a then none else t.lookup b := by
  split
  · rename_i h; subst h; exact AList.lookup_erase b t
  · rename_i h; exact AList.lookup_erase_ne h

theorem of_lookup_erase {t : Table κ α} {a b : κ} {v : α}
    (h : (AList.erase a t).lookup b = some v) : b ≠ a ∧ t.lookup b = some v := by
  rw [lookup_erase_if] at h
  split at h
  · cases h
  · rename_i hne
    exact ⟨hne, h⟩

theorem mem_keys_iff {t : Table κ α} {a : κ} : a ∈ t.keys ↔ ∃ v, t.lookup a = some v := by
  rw [← AList.mem_keys, ← AList.lookup_isSome, Option.isSome_iff_exists]

theorem mem_entries_iff {t : Table κ α} {a : κ} {v : α} :
    (⟨a, v⟩ : Σ _ : κ, α) ∈ t.entries ↔ t.lookup a = some v :=
  (AList.mem_lookup_iff (s := t)).symm.trans Option.mem_def

theorem erase_of_lookup_none {t : Table κ α} {a : κ} (h : t.lookup a = none) :
    AList.erase a t = t :=
  AList.ext (List.kerase_of_notMem_keys fun hm => by
    obtain ⟨v, hv⟩ := mem_keys_iff.1 (show a ∈ t.keys from hm)
    rw [h] at hv; cases hv)

theorem eq_empty {t : Table κ α} (h : ∀ a, t.lookup a = none) : t = ∅ := by
  refine AList.ext (List.eq_nil_iff_forall_not_mem.2 fun e he => ?_)
  have := mem_entries_iff.1 (show (⟨e.1, e.2⟩ : Σ _ : κ, α) ∈ t.entries from he)
  rw [h] at this
  cases this

theorem length_keys_erase_lt {t : Table κ α} {a : κ} {v : α} (h : t.lookup a = some v) :
    (AList.erase a t).keys.length < t.keys.length := by
  have hm : a ∈ t.keys := mem_keys_iff.2 ⟨v, h⟩
  rw [AList.keys_erase, List.length_erase_of_mem hm]
  have := List.length_pos_of_mem hm
  omega

theorem length_keys_insert_new {t : Table κ α} {a : κ} (w : α) (h : t.lookup a = none) :
    (AList.insert a w t).keys.length = t.keys.length + 1 := by
  rw [AList.keys_insert, List.length_cons, List.erase_of_not_mem fun hm => ?_]
  obtain ⟨v, hv⟩ := mem_keys_iff.1 hm
  rw [h] at hv; cases hv

theorem length_keys_insert {t : Table κ α} {a : κ} {v : α} (w : α) (h : t.lookup a = some v) :
    (AList.insert a w t).keys.length = t.keys.length := by
  have hm : a ∈ t.keys := mem_keys_iff.2 ⟨v, h⟩
  rw [AList.keys_insert, List.length_cons, List.length_erase_of_mem hm]
  have := List.length_pos_of_mem hm
  omega

end Table

end FfiRpc
