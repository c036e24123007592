import Mathlib.Data.Nat.Notation
import Mathlib.Tactic.Common
import Mathlib.Algebra.Ring.Nat

/-!
# Little-endian numbers and slices of byte lists

A number of `k` bytes is stored lowest byte first and read back modulo `256 ^ k`. A slice
of a concatenation that falls together with one of its parts is that part.
-/

namespace RaidTest.Base

/-- The `k` low bytes of `x`, lowest first. -/
def le : ℕ → ℕ → List UInt8
  | 0, _ => []
  | k + 1, x => UInt8.ofNat (x % 256) :: le k (x / 256)

def unle : List UInt8 → ℕ
  | [] => 0
  | b :: bs => b.toNat + 256 * unle bs

@[simp] theorem length_le (k x : ℕ) : (le k x).length = k := by
  induction k generalizing x with
  | zero => rfl
  | succ k ih => rw [le, List.length_cons, ih]

theorem unle_le (k x : ℕ) : unle (le k x) = x % 256 ^ k := by
  induction k generalizing x with
  | zero => rw [Nat.pow_zero, Nat.mod_one]; rfl
  | succ k ih =>
    have hb : (UInt8.ofNat (x % 256)).toNat = x % 256 := by
      rw [UInt8.toNat_ofNat']
      exact Nat.mod_mod _ _
    rw [le, unle, ih, hb, Nat.pow_succ, Nat.mul_comm (256 ^ k), Nat.mod_mul]

theorem unle_le_of_lt {k x : ℕ} (h : x < 256 ^ k) : unle (le k x) = x := by
  rw [unle_le, Nat.mod_eq_of_lt h]

theorem unle_drop (l : List UInt8) (j : ℕ) : unle (l.drop j) = unle l / 256 ^ j := by
  induction j generalizing l with
  | zero => rw [Nat.pow_zero, Nat.div_one, List.drop_zero]
  | succ j ih =>
    cases l with
    | nil => exact (Nat.zero_div _).symm
    | cons b bs =>
      have hb := b.toNat_lt
      have hhead : unle (b :: bs) / 256 = unle bs := by
        rw [unle]
        omega
      rw [List.drop_succ_cons, ih, Nat.pow_succ', ← Nat.div_div_eq_div_mul, hhead]

theorem unle_inj {l m : List UInt8} (hlen : l.length = m.length) (h : unle l = unle m) : l = m := by
  induction l generalizing m with
  | nil => exact (List.eq_nil_of_length_eq_zero hlen.symm).symm
  | cons b bs ih =>
    cases m with
    | nil => cases hlen
    | cons c cs =>
      have hb := b.toNat_lt
      have hc := c.toNat_lt
      rw [unle, unle] at h
      obtain rfl : b = c := UInt8.toNat_inj.mp (by omega)
      rw [ih (Nat.succ.inj hlen) (by omega)]

section Slices
variable {α : Type}

/-- `n` elements from number `o` on. -/
def slice (raw : List α) (o n : ℕ) : List α := (raw.drop o).take n

theorem slice_append (pre xs post : List α) : slice (pre ++ (xs ++ post)) pre.length xs.length = xs := by
  rw [slice, List.drop_left, List.take_left]

theorem slice_mid (pre xs post : List α) {o n : ℕ} (ho : pre.length = o) (hn : xs.length = n) :
    slice (pre ++ (xs ++ post)) o n = xs := by
  subst ho hn
  exact slice_append pre xs post

theorem slice_zero (raw : List α) (o : ℕ) : slice raw o 0 = [] := List.take_zero

theorem slice_length (raw : List α) {o n : ℕ} (h : o + n ≤ raw.length) : (slice raw o n).length = n := by
  rw [slice, List.length_take, List.length_drop]
  omega

/-- What follows does not change a slice that is there already. -/
theorem slice_append_left (raw app : List α) {o n : ℕ} (h : o + n ≤ raw.length) :
    slice (raw ++ app) o n = slice raw o n := by
  unfold slice
  rw [List.drop_append_of_le_length (by omega), List.take_append_of_le_length]
  rw [List.length_drop]
  omega

end Slices

end RaidTest.Base
