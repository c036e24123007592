import Mathlib.Data.Nat.Notation
import Mathlib.Tactic.Common

/-!
# Bitmaps packed into bytes

Bit `b` of a bitmap is bit `b % 8` of byte `b / 8`. Setting or clearing the bits of a list one
by one changes the bits of the list and no other.
-/

namespace RaidTest.Base

abbrev Bitmap := ℕ → BitVec 8

/-- `map[b / 8] & (1 << (b % 8))`. -/
def Bitmap.bit (m : Bitmap) (b : ℕ) : Bool := m (b / 8) &&& (1#8 <<< (b % 8)) != 0#8

/-- `map[b / 8] |= 1 << (b % 8)`. -/
def Bitmap.set (m : Bitmap) (b : ℕ) : Bitmap := fun i => if i = b / 8 then m i ||| (1#8 <<< (b % 8)) else m i

/-- `map[b / 8] &= ~(1 << (b % 8))`. -/
def Bitmap.clear (m : Bitmap) (b : ℕ) : Bitmap := fun i => if i = b / 8 then m i &&& ~~~(1#8 <<< (b % 8)) else m i

/-- `memset(map, 0, ..)`. -/
def Bitmap.zero : Bitmap := fun _ => 0#8

theorem Bitmap.bit_eq (m : Bitmap) (b : ℕ) : m.bit b = (m (b / 8)).getLsbD (b % 8) := by
  have hlt : b % 8 < 8 := Nat.mod_lt b (by decide)
  have hne : BitVec.twoPow 8 (b % 8) ≠ 0#8 := by
    intro h
    have hbit := congrArg (fun x => BitVec.getLsbD x (b % 8)) h
    simp only [BitVec.getLsbD_twoPow, hlt, decide_true, Bool.and_self, BitVec.getLsbD_zero] at hbit
    cases hbit
  rw [bit, ← BitVec.twoPow_eq, BitVec.and_twoPow]
  cases (m (b / 8)).getLsbD (b % 8) with
  | false => rfl
  | true =>
    rw [if_pos rfl, bne_iff_ne]
    exact hne

/-- Two numbers have the same byte and the same bit in it only if they are equal. -/
theorem div_mod_inj {b c : ℕ} (h1 : c / 8 = b / 8) (h2 : c % 8 = b % 8) : c = b := by omega

theorem Bitmap.bit_set (m : Bitmap) (b c : ℕ) : (m.set b).bit c = (m.bit c || decide (c = b)) := by
  have hlt : b % 8 < 8 := Nat.mod_lt b (by decide)
  simp only [bit_eq, set, ← BitVec.twoPow_eq]
  by_cases hbyte : c / 8 = b / 8
  · rw [if_pos hbyte, BitVec.getLsbD_or, BitVec.getLsbD_twoPow]
    by_cases hbit : b % 8 = c % 8
    · rw [div_mod_inj hbyte hbit.symm]
      simp only [hlt, decide_true, Bool.and_self]
    · have hne : c ≠ b := fun h => hbit (by rw [h])
      simp only [hbit, hne, decide_false, Bool.and_false]
  · have hne : c ≠ b := fun h => hbyte (by rw [h])
    rw [if_neg hbyte, decide_eq_false hne, Bool.or_false]

theorem Bitmap.bit_clear (m : Bitmap) (b c : ℕ) : (m.clear b).bit c = (m.bit c && !decide (c = b)) := by
  have hlt : b % 8 < 8 := Nat.mod_lt b (by decide)
  have hltc : c % 8 < 8 := Nat.mod_lt c (by decide)
  simp only [bit_eq, clear, ← BitVec.twoPow_eq]
  by_cases hbyte : c / 8 = b / 8
  · rw [if_pos hbyte, BitVec.getLsbD_and, BitVec.getLsbD_not, BitVec.getLsbD_twoPow]
    by_cases hbit : b % 8 = c % 8
    · rw [div_mod_inj hbyte hbit.symm]
      simp only [hlt, decide_true, Bool.and_self, Bool.not_true, Bool.and_false]
    · have hne : c ≠ b := fun h => hbit (by rw [h])
      simp only [hbit, hne, hltc, decide_false, decide_true, Bool.and_false, Bool.not_false, Bool.and_self]
  · have hne : c ≠ b := fun h => hbyte (by rw [h])
    rw [if_neg hbyte, decide_eq_false hne, Bool.not_false, Bool.and_true]

theorem Bitmap.bit_foldl_set (l : List ℕ) (c : ℕ) : ∀ m : Bitmap, (l.foldl set m).bit c = (m.bit c || decide (c ∈ l)) := by
  induction l with
  | nil => intro m; simp only [List.foldl_nil, List.not_mem_nil, decide_false, Bool.or_false]
  | cons b l ih => intro m; rw [List.foldl_cons, ih, bit_set, Bool.or_assoc, ← Bool.decide_or]; simp only [List.mem_cons]

theorem Bitmap.bit_foldl_clear (l : List ℕ) (c : ℕ) :
    ∀ m : Bitmap, (l.foldl clear m).bit c = (m.bit c && !decide (c ∈ l)) := by
  induction l with
  | nil => intro m; simp only [List.foldl_nil, List.not_mem_nil, decide_false, Bool.not_false, Bool.and_true]
  | cons b l ih =>
    intro m
    rw [List.foldl_cons, ih, bit_clear, Bool.and_assoc, ← Bool.not_or, ← Bool.decide_or]
    simp only [List.mem_cons]

theorem Bitmap.bit_zero (c : ℕ) : zero.bit c = false := by
  rw [bit_eq]
  exact BitVec.getLsbD_zero

end RaidTest.Base
