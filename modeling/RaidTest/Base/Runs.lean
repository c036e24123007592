import Mathlib.Tactic.Common

/-!
# Runs of neighbouring cells

A cell is a key and a position. A list of cells falls into runs, in each of which the cells
follow each other under one key. A list of runs that cannot be joined is as long as the list
of cells it spells has runs.
-/

namespace RaidTest.Base

variable {κ : Type}

/-- The `n` cells from position `p` on. -/
def cellsOf (k : κ) (p : ℕ) : ℕ → List (κ × ℕ)
  | 0 => []
  | n + 1 => (k, p) :: cellsOf k (p + 1) n

@[simp] theorem cellsOf_length (k : κ) (p n : ℕ) : (cellsOf k p n).length = n := by
  induction n generalizing p with
  | zero => rfl
  | succ n ih =>
    rw [cellsOf, List.length_cons, ih]

theorem cellsOf_append (k : κ) (p m n : ℕ) : cellsOf k p (m + n) = cellsOf k p m ++ cellsOf k (p + m) n := by
  induction m generalizing p with
  | zero => rw [Nat.zero_add]; rfl
  | succ m ih =>
    rw [Nat.succ_add, cellsOf, cellsOf, ih, List.cons_append, Nat.succ_add_eq_add_succ]

theorem cellsOf_getElem? (k : κ) {i n : ℕ} (h : i < n) (p : ℕ) : (cellsOf k p n)[i]? = some (k, p + i) := by
  induction n generalizing p i with
  | zero => exact absurd h (Nat.not_lt_zero i)
  | succ n ih =>
    cases i with
    | zero => rfl
    | succ i => rw [cellsOf, List.getElem?_cons_succ, ih (Nat.lt_of_succ_lt_succ h), Nat.succ_add_eq_add_succ]

theorem cellsOf_last (k : κ) (p n : ℕ) (a : κ × ℕ) : (cellsOf k p (n + 1)).getLastD a = (k, p + n) := by
  induction n generalizing p a with
  | zero => rfl
  | succ n ih =>
    rw [cellsOf, List.getLastD_cons, ih, Nat.succ_add_eq_add_succ]

theorem append_cellsOf_last (l : List (κ × ℕ)) (k : κ) (p n : ℕ) (a : κ × ℕ) :
    (l ++ cellsOf k p (n + 1)).getLastD a = (k, p + n) := by
  induction l generalizing a with
  | nil => exact cellsOf_last k p n a
  | cons b l ih => rw [List.cons_append, List.getLastD_cons, ih]

variable [DecidableEq κ]

/-- Cell `b` follows cell `a`. -/
def Joins (a b : κ × ℕ) : Prop := a.1 = b.1 ∧ a.2 + 1 = b.2

instance (a b : κ × ℕ) : Decidable (Joins a b) := inferInstanceAs (Decidable (_ ∧ _))

/-- Runs that begin in a list behind the cell `a`. -/
def runsFrom (a : κ × ℕ) : List (κ × ℕ) → ℕ
  | [] => 0
  | b :: l => (if Joins a b then 0 else 1) + runsFrom b l

def runCount : List (κ × ℕ) → ℕ
  | [] => 0
  | a :: l => 1 + runsFrom a l

theorem runsFrom_append (a : κ × ℕ) (l m : List (κ × ℕ)) :
    runsFrom a (l ++ m) = runsFrom a l + runsFrom (l.getLastD a) m := by
  induction l generalizing a with
  | nil => rw [List.nil_append, runsFrom, Nat.zero_add, List.getLastD_nil]
  | cons b l ih =>
    rw [List.cons_append, runsFrom, runsFrom, ih, List.getLastD_cons, Nat.add_assoc]

/-- The runs of a mapped range begin where a cell does not follow the one before it. -/
theorem runsFrom_range' (f : ℕ → κ × ℕ) (a n : ℕ) : runsFrom (f a) ((List.range' (a + 1) n).map f) =
    (List.range' (a + 1) n).countP fun x => decide (¬ Joins (f (x - 1)) (f x)) := by
  induction n generalizing a with
  | zero => rfl
  | succ n ih =>
    rw [List.range'_succ, List.map_cons, runsFrom, ih, List.countP_cons, Nat.add_sub_cancel, Nat.add_comm]
    by_cases hj : Joins (f a) (f (a + 1))
    · simp only [hj, if_true, not_true, decide_false, Bool.false_eq_true, if_false]
    · simp only [hj, if_false, not_false_iff, decide_true, if_true]

theorem runsFrom_cells (k : κ) (p n : ℕ) : runsFrom (k, p) (cellsOf k (p + 1) n) = 0 := by
  induction n generalizing p with
  | zero => rfl
  | succ n ih =>
    have hjoin : Joins (k, p) (k, p + 1) := ⟨rfl, rfl⟩
    rw [cellsOf, runsFrom, if_pos hjoin, Nat.zero_add, ih]

theorem runCount_cells (k : κ) (p n : ℕ) : runCount (cellsOf k p (n + 1)) = 1 := by
  rw [cellsOf, runCount, runsFrom_cells]

/-- A run behind a list is a new one unless it goes on from the last cell. -/
theorem runCount_append {l : List (κ × ℕ)} (hne : l ≠ []) (a : κ × ℕ) (k : κ) (p n : ℕ) :
    runCount (l ++ cellsOf k p (n + 1)) = runCount l + if Joins (l.getLastD a) (k, p) then 0 else 1 := by
  cases l with
  | nil => exact absurd rfl hne
  | cons b l =>
    rw [List.cons_append, runCount, runCount, runsFrom_append, cellsOf, runsFrom, runsFrom_cells, List.getLastD_cons,
      Nat.add_zero, Nat.add_assoc]

end RaidTest.Base
