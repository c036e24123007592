import Mathlib.Algebra.Order.BigOperators.Group.Finset
import Mathlib.Tactic.Common

/-!
# Weighted cycles

A cycle hands out `w 0 + w 1 + .. + w (n - 1)` units of `u` cells each, the
members taking turns in order, `w j` units at a time. A position splits into a
cycle number and an offset inside the cycle; the offset lies in the segment of
exactly one member, and the pair of member and place inside its own lane
determines the position.
-/

namespace RaidTest.Base

open Finset

/-- Units handed out before member `j` has its turn. -/
def before (w : ℕ → ℕ) (j : ℕ) : ℕ := ∑ i ∈ range j, w i

@[simp] theorem before_zero (w : ℕ → ℕ) : before w 0 = 0 := rfl

theorem before_succ (w : ℕ → ℕ) (j : ℕ) : before w (j + 1) = before w j + w j :=
  sum_range_succ w j

/-- A sum reads its first terms only. -/
theorem before_congr {f g : ℕ → ℕ} {n : ℕ} (h : ∀ i < n, g i = f i) : ∀ j ≤ n, before g j = before f j := by
  intro j hj
  apply Finset.sum_congr rfl
  intro i hi
  exact h i (Nat.lt_of_lt_of_le (Finset.mem_range.mp hi) hj)

theorem before_mono (w : ℕ → ℕ) {i j : ℕ} (h : i ≤ j) : before w i ≤ before w j :=
  sum_le_sum_of_subset (range_subset_range.mpr h)

/-- The offset `x` of a cycle lies in the segment of member `j`. -/
def InSegment (w : ℕ → ℕ) (u x j : ℕ) : Prop :=
  before w j * u ≤ x ∧ x < (before w j + w j) * u

theorem segment_exists (w : ℕ → ℕ) (u x n : ℕ) (h : x < before w n * u) :
    ∃ j < n, InSegment w u x j := by
  induction n with
  | zero => simp at h
  | succ n ih =>
    by_cases hx : x < before w n * u
    · obtain ⟨j, hj, hs⟩ := ih hx
      exact ⟨j, Nat.lt_succ_of_lt hj, hs⟩
    · refine ⟨n, Nat.lt_succ_self n, by omega, ?_⟩
      rw [← before_succ]
      exact h

theorem segment_le {w : ℕ → ℕ} {u x i j : ℕ} (hi : InSegment w u x i) (hj : InSegment w u x j) :
    i ≤ j := by
  by_contra hlt
  have hm : before w (j + 1) * u ≤ before w i * u := Nat.mul_le_mul_right u (before_mono w (by omega))
  rw [before_succ] at hm
  have h1 := hi.1
  have h2 := hj.2
  omega

theorem segment_unique {w : ℕ → ℕ} {u x i j : ℕ} (hi : InSegment w u x i)
    (hj : InSegment w u x j) : i = j :=
  Nat.le_antisymm (segment_le hi hj) (segment_le hj hi)

theorem segment_width {w : ℕ → ℕ} {u x j : ℕ} (h : InSegment w u x j) :
    x - before w j * u < w j * u := by
  have h1 := h.1
  have h2 := h.2
  rw [Nat.add_mul] at h2
  omega

/-- Place `r` of turn `c`, for turns of `m` cells, is taken once only. -/
theorem turn_unique {m c d r s : ℕ} (hr : r < m) (hs : s < m) (h : c * m + r = d * m + s) :
    c = d ∧ r = s := by
  have hm : 0 < m := by omega
  have h1 : (c * m + r) / m = c := by
    rw [Nat.mul_comm, Nat.mul_add_div hm, Nat.div_eq_of_lt hr, Nat.add_zero]
  have h2 : (d * m + s) / m = d := by
    rw [Nat.mul_comm, Nat.mul_add_div hm, Nat.div_eq_of_lt hs, Nat.add_zero]
  have hcd : c = d := by rw [← h1, ← h2, h]
  subst hcd
  exact ⟨rfl, by omega⟩

theorem turn_lt {m c n r : ℕ} (hc : c < n) (hr : r < m) : c * m + r < n * m := by
  have h : (c + 1) * m ≤ n * m := Nat.mul_le_mul_right m hc
  rw [Nat.add_mul, Nat.one_mul] at h
  omega

end RaidTest.Base
