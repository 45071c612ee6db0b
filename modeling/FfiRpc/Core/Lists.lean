import Mathlib.Data.List.Nodup

/-!
# Lists taken apart at a position
-/
namespace FfiRpc
variable {α : Type}

theorem split_at {l : List α} {i : Nat} {x : α} (h : l[i]? = some x) :
    ∃ as bs, l = as ++ x :: bs ∧ as.length = i := by
  obtain ⟨hi, hx⟩ := List.getElem?_eq_some_iff.1 h
  refine ⟨l.take i, l.drop (i + 1), ?_, List.length_take_of_le (Nat.le_of_lt hi)⟩
  rw [← hx, ← List.drop_eq_getElem_cons hi, List.take_append_drop]

theorem set_middle (as : List α) (x y : α) (bs : List α) :
    (as ++ x :: bs).set as.length y = as ++ y :: bs := by
  rw [List.set_append_right _ _ (Nat.le_refl _), Nat.sub_self, List.set_cons_zero]

theorem getElem?_middle (as : List α) (x y : α) (bs : List α) (i : Nat) :
    (as ++ y :: bs)[i]? = if i = as.length then some y else (as ++ x :: bs)[i]? := by
  split
  · rename_i h
    simp [h]
  · rename_i h
    rw [← set_middle as x y bs, List.getElem?_set_ne (Ne.symm h)]

theorem eraseIdx_middle (as : List α) (x : α) (bs : List α) :
    (as ++ x :: bs).eraseIdx as.length = as ++ bs := by
  rw [List.eraseIdx_append_of_length_le (Nat.le_refl _), Nat.sub_self, List.eraseIdx_cons_zero]

theorem nodup_snoc {l : List α} {a : α} (hl : l.Nodup) (ha : a ∉ l) : (l ++ [a]).Nodup := by
  rw [← List.concat_eq_append]
  exact hl.concat ha

end FfiRpc
