import Mathlib.Data.Nat.ModEq
import Mathlib.Tactic.Common

/-!
# A bounded ring

Items are numbered in the order they are pushed; item `i` lies in cell `i % size`. The items
from number `popped` on are still queued and must be found in their cells.
-/

namespace RaidTest.Base

variable {α : Type} {size : ℕ}

theorem cell_ne {i j : ℕ} (h1 : i < j) (h2 : j < i + size) : i % size ≠ j % size := by
  intro he
  have hsize : 0 < size := by omega
  have hdiv : j - i < size := by omega
  have hdvd : size ∣ j - i := (Nat.modEq_iff_dvd' (Nat.le_of_lt h1)).mp he
  have hle := Nat.le_of_dvd (by omega) hdvd
  omega

structure Queued (size : ℕ) (cells : ℕ → α) (pushed : List α) (popped : ℕ) : Prop where
  le : popped ≤ pushed.length
  room : pushed.length ≤ popped + size
  held : ∀ i, popped ≤ i → i < pushed.length → pushed[i]? = some (cells (i % size))

theorem Queued.empty (cells : ℕ → α) : Queued size cells [] 0 :=
  ⟨Nat.le_refl 0, Nat.zero_le _, fun i _ h => absurd h (Nat.not_lt_zero i)⟩

/-- Filling the next cell disturbs no queued item while there is room. -/
theorem Queued.store {cells : ℕ → α} {pushed : List α} {popped : ℕ} (h : Queued size cells pushed popped)
    (hroom : pushed.length < popped + size) (x : α) :
    Queued size (fun i => if i = pushed.length % size then x else cells i) pushed popped := by
  refine ⟨h.le, h.room, fun i h1 h2 => ?_⟩
  have hne : i % size ≠ pushed.length % size := cell_ne h2 (by omega)
  simp only [if_neg hne]
  exact h.held i h1 h2

/-- The item in the next cell joins the queue. -/
theorem Queued.publish {cells : ℕ → α} {pushed : List α} {popped : ℕ} (h : Queued size cells pushed popped)
    (hroom : pushed.length < popped + size) :
    Queued size cells (pushed ++ [cells (pushed.length % size)]) popped := by
  have hlen : (pushed ++ [cells (pushed.length % size)]).length = pushed.length + 1 := by
    rw [List.length_append, List.length_singleton]
  have hle := h.le
  refine ⟨by omega, by omega, fun i h1 h2 => ?_⟩
  by_cases hi : i < pushed.length
  · rw [List.getElem?_append_left hi]
    exact h.held i h1 hi
  · have he : i = pushed.length := by omega
    subst he
    rw [List.getElem?_append_right (Nat.le_refl _), Nat.sub_self]
    rfl

theorem Queued.pop {cells : ℕ → α} {pushed : List α} {popped : ℕ} (h : Queued size cells pushed popped)
    (hne : popped < pushed.length) : Queued size cells pushed (popped + 1) := by
  have hroom := h.room
  exact ⟨hne, by omega, fun i h1 h2 => h.held i (by omega) h2⟩

end RaidTest.Base
