import Mathlib.Data.List.Basic
import Mathlib.Tactic.Ring

/-!
# Little-endian numbers

`toLE n v` is the `n`-byte little-endian image of `v`, `ofLE` the number that
bytes denote. Reading back what was written gives the number modulo its width
(`ofLE_toLE_mod`); writing what was read gives the bytes, padded (`toLE_ofLE`).
-/
namespace FfiRpc

def toLE : Nat → Nat → List UInt8
  | 0, _ => []
  | n + 1, v => UInt8.ofNat (v % 256) :: toLE n (v / 256)

def ofLE : List UInt8 → Nat
  | [] => 0
  | b :: bs => b.toNat + 256 * ofLE bs

@[simp] theorem length_toLE (n v : Nat) : (toLE n v).length = n := by
  induction n generalizing v with
  | zero => rfl
  | succ n ih => simp [toLE, ih]

theorem ofLE_lt (l : List UInt8) : ofLE l < 256 ^ l.length := by
  induction l with
  | nil => decide
  | cons b bs ih =>
    have hb : b.toNat < 256 := b.toNat_lt
    rw [List.length_cons, pow_succ, ofLE]
    omega

theorem ofLE_toLE_mod (n v : Nat) : ofLE (toLE n v) = v % 256 ^ n := by
  induction n generalizing v with
  | zero => rw [pow_zero, Nat.mod_one]; rfl
  | succ n ih =>
    have hb : (UInt8.ofNat (v % 256)).toNat = v % 256 := by
      rw [UInt8.toNat_ofNat']
      omega
    rw [toLE, ofLE, ih, hb, pow_succ, Nat.mul_comm (256 ^ n), Nat.mod_mul]

theorem ofLE_toLE {n v : Nat} (h : v < 256 ^ n) : ofLE (toLE n v) = v := by
  rw [ofLE_toLE_mod, Nat.mod_eq_of_lt h]

/-- Only the low bytes are written. -/
theorem toLE_mod (n v : Nat) : toLE n (v % 256 ^ n) = toLE n v := by
  induction n generalizing v with
  | zero => rfl
  | succ n ih =>
    have hlow : v % 256 ^ (n + 1) % 256 = v % 256 :=
      Nat.mod_mod_of_dvd v (Dvd.intro_left (256 ^ n) (pow_succ 256 n).symm)
    have hhigh : v % 256 ^ (n + 1) / 256 = v / 256 % 256 ^ n := by
      rw [pow_succ, Nat.mod_mul_left_div_self]
    rw [toLE, toLE, hlow, hhigh, ih]

/-- The first bytes of a number are those of a shorter one. -/
theorem take_toLE {m n : Nat} (h : m ≤ n) (v : Nat) : (toLE n v).take m = toLE m v := by
  induction m generalizing n v with
  | zero => rfl
  | succ m ih =>
    obtain ⟨n, rfl⟩ : ∃ k, n = k + 1 := ⟨n - 1, by omega⟩
    rw [toLE, toLE, List.take_succ_cons, ih (by omega)]

theorem toLE_zero (n : Nat) : toLE n 0 = List.replicate n 0 := by
  induction n with
  | zero => rfl
  | succ n ih => simp [toLE, ih, List.replicate_succ]

theorem toLE_ofLE (l : List UInt8) (m : Nat) :
    toLE (l.length + m) (ofLE l) = l ++ List.replicate m 0 := by
  induction l with
  | nil => simp [ofLE, toLE_zero]
  | cons b bs ih =>
    have hb : b.toNat < 256 := b.toNat_lt
    have hmod : (b.toNat + 256 * ofLE bs) % 256 = b.toNat := by omega
    have hdiv : (b.toNat + 256 * ofLE bs) / 256 = ofLE bs := by omega
    rw [List.length_cons, Nat.add_right_comm, ofLE, toLE, hmod, hdiv, ih]
    simp

/-- The characters of a C string, up to the terminator. -/
theorem takeWhile_string {s : List UInt8} (h : (0 : UInt8) ∉ s) :
    (s ++ [0]).takeWhile (· ≠ 0) = s := by
  rw [List.takeWhile_append_of_pos]
  · simp
  · intro b hb
    have hne : b ≠ 0 := fun h0 => h (h0 ▸ hb)
    simpa using hne

end FfiRpc
