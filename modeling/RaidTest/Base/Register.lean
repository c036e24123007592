import Mathlib.Data.List.Induction
import Mathlib.Tactic.Common

/-!
# Registers that shift a message through

A checksum is kept in a register. Each step takes a table entry for what is at the bottom of
the register and the next symbol, and moves the rest one place down, so that what stands on top
tells which entries the last steps took.
-/

namespace RaidTest.Base

/-- A register of `last + 1` places; `top k` is what the upper `k` places hold. -/
structure Register (ρ σ ι : Type) where
  step : ρ → σ → ρ
  index : ρ → σ → ι
  top : ℕ → ρ → ℕ
  last : ℕ
  leaves : ∀ {k s b t c}, k ≤ last → top (k + 1) (step s b) = top (k + 1) (step t c) →
    index s b = index t c ∧ top k s = top k t
  enters : ∀ {s b c}, index s b = index s c → b = c
  back : ∀ {s b t}, index s b = index t b → top last s = top last t → s = t

namespace Register
variable {ρ σ ι : Type} (r : Register ρ σ ι)

def run (s : ρ) (bs : List σ) : ρ := bs.foldl r.step s

theorem run_append (s : ρ) (bs cs : List σ) : r.run s (bs ++ cs) = r.run (r.run s bs) cs := List.foldl_append ..

theorem run_snoc (s : ρ) (bs : List σ) (b : σ) : r.run s (bs ++ [b]) = r.step (r.run s bs) b := by
  rw [run_append]
  rfl

theorem step_inj {s t : ρ} {b : σ} (h : r.step s b = r.step t b) : s = t := by
  obtain ⟨hi, ht⟩ := r.leaves (Nat.le_refl _) (congrArg (r.top (r.last + 1)) h)
  exact r.back hi ht

/-- What follows does not hide a difference. -/
theorem run_inj {s t : ρ} {bs : List σ} (h : r.run s bs = r.run t bs) : s = t := by
  induction bs generalizing s t with
  | nil => exact h
  | cons b bs ih => exact r.step_inj (ih h)

/-- As many places on top as there are symbols tell the symbols. -/
theorem run_burst {s : ρ} {bs cs : List σ} (hlen : cs.length = bs.length) (hle : bs.length ≤ r.last + 1)
    (h : r.top bs.length (r.run s bs) = r.top bs.length (r.run s cs)) : bs = cs := by
  induction bs using List.reverseRecOn generalizing cs with
  | nil => exact (List.eq_nil_of_length_eq_zero hlen).symm
  | append_singleton bs b ih =>
    rw [List.length_append, List.length_singleton] at hlen hle h
    obtain ⟨ds, c, rfl⟩ : ∃ ds c, cs = ds ++ [c] := by
      rcases List.eq_nil_or_concat cs with rfl | ⟨ds, c, rfl⟩
      · exact absurd hlen (by simp)
      · exact ⟨ds, c, List.concat_eq_append⟩
    rw [List.length_append, List.length_singleton] at hlen
    rw [run_snoc, run_snoc] at h
    obtain ⟨hi, ht⟩ := r.leaves (by omega) h
    obtain rfl := ih (by omega) (by omega) ht
    rw [r.enters hi]

end Register

end RaidTest.Base
