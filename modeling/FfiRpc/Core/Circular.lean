import Mathlib

/-!
# Positions in a ring

The slots of a circular table of `n`, counted forward from one of them (`dist`). Where the
size is a power of two, the code takes a position modulo `n` by a mask, and the difference of
two positions wraps at the width of a machine word first (`mask_sub`).
-/
namespace FfiRpc.Circular

/-- The number of steps from `a` forward to `b`, in a ring of `n`. -/
def dist (n a b : Nat) : Nat := if a ≤ b then b - a else b + n - a

section
variable {n a b c : Nat}

theorem dist_lt (ha : a < n) (hb : b < n) : dist n a b < n := by
  unfold dist
  split <;> omega

theorem dist_self (n a : Nat) : dist n a a = 0 := by
  unfold dist
  rw [if_pos (Nat.le_refl a), Nat.sub_self]

theorem dist_inj (ha : a < n) (hb : b < n) (hc : c < n) (h : dist n a b = dist n a c) : b = c := by
  unfold dist at h
  split at h <;> split at h <;> omega

theorem dist_pos (ha : a < n) (hne : b ≠ a) : 0 < dist n a b := by
  unfold dist
  split <;> omega

/-- From `a` past `b` to `c`. -/
theorem dist_add (ha : a < n) (hb : b < n) (hc : c < n) (h : dist n a b ≤ dist n a c) :
    dist n a c = dist n a b + dist n b c := by
  unfold dist at h ⊢
  by_cases hab : a ≤ b
  · by_cases hac : a ≤ c
    · rw [if_pos hab, if_pos hac] at h
      rw [if_pos hab, if_pos hac, if_pos (by omega)]
      omega
    · rw [if_pos hab, if_neg hac, if_neg (by omega)]
      omega
  · by_cases hac : a ≤ c
    · rw [if_neg hab, if_pos hac] at h
      omega
    · rw [if_neg hab, if_neg hac] at h
      rw [if_neg hab, if_neg hac, if_pos (by omega)]
      omega

/-- Two ways that together do not go round. -/
theorem dist_append (ha : a < n) (hb : b < n) (h : dist n a b + dist n b c < n) :
    dist n a c = dist n a b + dist n b c := by
  unfold dist at h ⊢
  by_cases hab : a ≤ b
  · by_cases hbc : b ≤ c
    · rw [if_pos hab, if_pos hbc] at h
      rw [if_pos hab, if_pos hbc, if_pos (by omega)]
      omega
    · rw [if_pos hab, if_neg hbc] at h
      rw [if_pos hab, if_neg hbc, if_neg (by omega)]
      omega
  · by_cases hbc : b ≤ c
    · rw [if_neg hab, if_pos hbc] at h
      rw [if_neg hab, if_pos hbc, if_neg (by omega)]
      omega
    · rw [if_neg hab, if_neg hbc] at h
      omega

theorem dist_mod (ha : a < n) (hb : b < n) : dist n a b = (b + n - a) % n := by
  unfold dist
  split
  · rename_i hle
    rw [show b + n - a = b - a + n by omega, Nat.add_mod_right, Nat.mod_eq_of_lt (by omega)]
  · exact (Nat.mod_eq_of_lt (by omega)).symm

theorem next_lt (ha : a < n) : (a + 1) % n < n := Nat.mod_lt _ (by omega)

theorem dist_next (ha : a < n) (hb : b < n) (h : dist n a b + 1 < n) :
    dist n a ((b + 1) % n) = dist n a b + 1 := by
  by_cases hlast : b + 1 = n
  · rw [hlast, Nat.mod_self]
    unfold dist at h ⊢
    split at h <;> split <;> omega
  · rw [Nat.mod_eq_of_lt (by omega)]
    unfold dist at h ⊢
    split at h <;> split <;> omega

theorem dist_add_mod {i : Nat} (ha : a < n) (hi : i < n) : dist n a ((a + i) % n) = i := by
  by_cases hwrap : a + i < n
  · rw [Nat.mod_eq_of_lt hwrap]
    unfold dist
    split <;> omega
  · rw [show a + i = a + i - n + n by omega, Nat.add_mod_right, Nat.mod_eq_of_lt (by omega)]
    unfold dist
    split <;> omega

theorem add_dist (ha : a < n) (hb : b < n) : (a + dist n a b) % n = b := by
  unfold dist
  split
  · rw [show a + (b - a) = b by omega, Nat.mod_eq_of_lt hb]
  · rw [show a + (b + n - a) = b + n by omega, Nat.add_mod_right, Nat.mod_eq_of_lt hb]

/-- One step fewer from the next position. -/
theorem dist_succ (ha : a < n) (hb : b < n) (hne : b ≠ a) : dist n ((a + 1) % n) b + 1 = dist n a b := by
  by_cases hlast : a + 1 = n
  · rw [hlast, Nat.mod_self]
    unfold dist
    split <;> split <;> omega
  · rw [Nat.mod_eq_of_lt (by omega)]
    unfold dist
    split <;> split <;> omega

/-- One step fewer to the position before. -/
theorem dist_prev (ha : a < n) (hb : b < n) (hne : b ≠ a) :
    dist n a ((b + n - 1) % n) + 1 = dist n a b := by
  by_cases hfirst : b = 0
  · rw [Nat.mod_eq_of_lt (by omega)]
    unfold dist
    split <;> split <;> omega
  · rw [show b + n - 1 = b - 1 + n by omega, Nat.add_mod_right, Nat.mod_eq_of_lt (by omega)]
    unfold dist
    split <;> split <;> omega

theorem prev_next (ha : a < n) : ((a + n - 1) % n + 1) % n = a := by
  rw [Nat.mod_add_mod, show a + n - 1 + 1 = a + n by omega, Nat.add_mod_right, Nat.mod_eq_of_lt ha]

/-- The mask of a size that is a power of two; the size may be written in a machine word. -/
theorem mask {k v : Nat} (hk : k < 64) :
    v &&& ((2 ^ k + 2 ^ 64 - 1) % 2 ^ 64) = v % 2 ^ k := by
  have hpos := Nat.two_pow_pos k
  have hlt : 2 ^ k < 2 ^ 64 := Nat.pow_lt_pow_right (by omega) hk
  rw [show (2 ^ k + 2 ^ 64 - 1) % 2 ^ 64 = 2 ^ k - 1 by omega, Nat.and_two_pow_sub_one_eq_mod]

theorem mod_word {k : Nat} (hk : k < 64) (v : Nat) : v % 2 ^ 64 % 2 ^ k = v % 2 ^ k :=
  Nat.mod_mod_of_dvd v (Nat.pow_dvd_pow 2 (Nat.le_of_lt hk))

/-- The difference of two positions wraps at the width of a word without harm. -/
theorem mask_sub {k : Nat} (hk : k < 64) (hb : b < 2 ^ k) :
    (a + 2 ^ 64 - b) % 2 ^ 64 % 2 ^ k = (a + 2 ^ k - b) % 2 ^ k := by
  have hpos := Nat.two_pow_pos k
  have hsplit : 2 ^ 64 = 2 ^ k * (2 ^ (64 - k) - 1) + 2 ^ k := by
    rw [← Nat.mul_succ, Nat.succ_eq_add_one, Nat.sub_add_cancel (Nat.one_le_two_pow), ← pow_add]
    congr 1
    omega
  rw [mod_word hk, hsplit, show a + (2 ^ k * (2 ^ (64 - k) - 1) + 2 ^ k) - b =
    a + 2 ^ k - b + 2 ^ k * (2 ^ (64 - k) - 1) by omega, Nat.add_mul_mod_self_left]

end

end FfiRpc.Circular
