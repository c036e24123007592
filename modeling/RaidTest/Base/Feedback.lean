import Mathlib.Tactic.Common

/-!
# Shift registers with feedback

A register moves down one place for each bit of a message; where the bit that leaves differs
from the bit that comes, the polynomial is added. Adding is xor, so the register is linear: the
bits of a symbol can be added before they are shifted through, and the upper places of a
register only move down meanwhile.
-/

namespace RaidTest.Base

variable {w : ℕ} (p : BitVec w)

def feedback (x : BitVec w) : BitVec w := (x >>> 1) ^^^ (if x.getLsbD 0 then p else 0#w)

/-- One bit of the message. -/
def feedbackIn (x : BitVec w) (bit : Bool) : BitVec w := (x >>> 1) ^^^ (if x.getLsbD 0 ^^ bit then p else 0#w)

def feedbacks : ℕ → BitVec w → BitVec w
  | 0, x => x
  | n + 1, x => feedbacks n (feedback p x)

/-- The low `n` bits of a symbol, the lowest first. -/
def lowBits (n : ℕ) (b : BitVec w) : List Bool := (List.range n).map fun k => b.getLsbD k

theorem feedback_xor (x y : BitVec w) : feedback p (x ^^^ y) = feedback p x ^^^ feedback p y := by
  unfold feedback
  rw [BitVec.ushiftRight_xor_distrib, BitVec.getLsbD_xor]
  have hsplit : (if x.getLsbD 0 ^^ y.getLsbD 0 then p else 0#w) =
      (if x.getLsbD 0 then p else 0#w) ^^^ (if y.getLsbD 0 then p else 0#w) := by
    cases x.getLsbD 0 <;> cases y.getLsbD 0 <;> simp
  rw [hsplit]
  ac_rfl

theorem feedbacks_xor (n : ℕ) (x y : BitVec w) : feedbacks p n (x ^^^ y) = feedbacks p n x ^^^ feedbacks p n y := by
  induction n generalizing x y with
  | zero => rfl
  | succ n ih => simp only [feedbacks, feedback_xor, ih]

/-- Without a bit at the bottom, a register moves down. -/
theorem feedback_even {x : BitVec w} (h : x.getLsbD 0 = false) : feedback p x = x >>> 1 := by
  unfold feedback
  rw [h, if_neg Bool.false_ne_true]
  exact BitVec.xor_zero

theorem feedbacks_high {n : ℕ} {x : BitVec w} (h : ∀ k < n, x.getLsbD k = false) : feedbacks p n x = x >>> n := by
  induction n generalizing x with
  | zero => exact (BitVec.ushiftRight_zero x).symm
  | succ n ih =>
    have hnext : ∀ k < n, (x >>> 1).getLsbD k = false := by
      intro k hk
      rw [BitVec.getLsbD_ushiftRight]
      exact h (1 + k) (by omega)
    rw [feedbacks, feedback_even p (h 0 (Nat.succ_pos n)), ih hnext, ← BitVec.shiftRight_add, Nat.add_comm]

/-- Any `n` feedbacks are those of the low part, and the high part moved down. -/
theorem feedbacks_split {n : ℕ} {x low high : BitVec w} (hx : x = low ^^^ high)
    (hhigh : ∀ k < n, high.getLsbD k = false) (hlow : low >>> n = 0#w) :
    feedbacks p n x = feedbacks p n low ^^^ (x >>> n) := by
  rw [hx, feedbacks_xor, feedbacks_high p hhigh, BitVec.ushiftRight_xor_distrib, hlow, BitVec.zero_xor]

theorem feedbackIn_eq (x b : BitVec w) :
    feedbackIn p x (b.getLsbD 0) ^^^ (b >>> 1) = feedback p (x ^^^ b) := by
  unfold feedbackIn feedback
  rw [BitVec.ushiftRight_xor_distrib, BitVec.getLsbD_xor]
  ac_rfl

/-- A symbol of `n` bits that goes in bit by bit is one that is added and shifted out. -/
theorem lowBits_feedback {n : ℕ} {x b : BitVec w} (hb : b >>> n = 0#w) :
    (lowBits n b).foldl (feedbackIn p) x = feedbacks p n (x ^^^ b) := by
  induction n generalizing x b with
  | zero =>
    rw [BitVec.ushiftRight_zero] at hb
    rw [hb, BitVec.xor_zero]
    rfl
  | succ n ih =>
    have hbits : lowBits (n + 1) b = b.getLsbD 0 :: lowBits n (b >>> 1) := by
      unfold lowBits
      rw [List.range_succ_eq_map, List.map_cons, List.map_map]
      congr 1
      apply List.map_congr_left
      intro k _
      rw [Function.comp_apply, BitVec.getLsbD_ushiftRight, Nat.succ_eq_add_one, Nat.add_comm]
    have hrest : b >>> 1 >>> n = 0#w := by rw [← BitVec.shiftRight_add, Nat.add_comm, hb]
    rw [hbits, List.foldl_cons, ih hrest, feedbackIn_eq, feedbacks]

end RaidTest.Base
