import Mathlib.Algebra.Order.Ring.Nat

/-
  Numbers written as a fixed count of bytes, the lowest first.
-/

-- Bytes of a Number

namespace Base

/- The lowest bytes of a number. -/
def leBytes : ℕ → ℕ → List UInt8
| 0, _ => []
| k + 1, n => UInt8.ofNat n :: leBytes k (n / 256)

def leValue : List UInt8 → ℕ
| [] => 0
| b :: bs => b.toNat + 256 * leValue bs

@[simp] theorem length_leBytes (k n : ℕ) :
    (leBytes k n).length = k := by
  induction k generalizing n with
  | zero => rfl
  | succ k ih => rw [leBytes, List.length_cons, ih]

theorem leValue_lt (bytes : List UInt8) :
    leValue bytes < 256 ^ bytes.length := by
  induction bytes with
  | nil => exact Nat.zero_lt_one
  | cons b bytes ih =>
    have hByte : b.toNat < 256 := b.toNat_lt
    rw [leValue, List.length_cons, Nat.pow_succ]
    omega

theorem leValue_leBytes
    {k n : ℕ} (hFits : n < 256 ^ k) :
    leValue (leBytes k n) = n := by
  induction k generalizing n with
  | zero =>
    rw [Nat.pow_zero, Nat.lt_one_iff] at hFits
    exact hFits.symm
  | succ k ih =>
    have hRest : n / 256 < 256 ^ k := by
      rw [Nat.pow_succ] at hFits
      omega
    rw [leBytes, leValue, ih hRest, UInt8.toNat_ofNat']
    exact Nat.mod_add_div n 256

theorem leBytes_leValue (bytes : List UInt8) :
    leBytes bytes.length (leValue bytes) = bytes := by
  induction bytes with
  | nil => rfl
  | cons b bytes ih =>
    have hByte : b.toNat < 256 := b.toNat_lt
    have hRest : (b.toNat + 256 * leValue bytes) / 256 =
        leValue bytes := by omega
    have hFirst : UInt8.ofNat (b.toNat + 256 * leValue bytes) = b := by
      apply UInt8.toNat_inj.mp
      rw [UInt8.toNat_ofNat']
      omega
    rw [leValue, List.length_cons, leBytes, hRest, ih, hFirst]

end Base
