import Mathlib.Tactic.Common

/-!
# Counting spaced numbers

A stretch of numbers holds few multiples of a large unit, from wherever they are counted, and
few members of a union of few such families.
-/

namespace RaidTest.Base

/-- Numbers of `[a, b)` in rising order, each `su` or more behind the last. -/
theorem spaced_length {su a b : ℕ} {l : List ℕ} (hl : l.Pairwise fun x y => x + su ≤ y)
    (hin : ∀ x ∈ l, a ≤ x ∧ x < b) (hab : a < b + su) : a + l.length * su < b + su := by
  induction l generalizing a with
  | nil => simpa using hab
  | cons x l ih =>
    obtain ⟨hx, hl⟩ := List.pairwise_cons.mp hl
    have hxin := hin x (List.mem_cons_self ..)
    have ht := ih hl (a := x + su) (fun y hy => ⟨hx y hy, (hin y (List.mem_cons_of_mem _ hy)).2⟩) (by omega)
    rw [List.length_cons, Nat.succ_mul]
    omega

/-- The numbers of a stretch that lie whole units behind `s`. -/
theorem countP_aligned {su : ℕ} (hu : 0 < su) (s a m : ℕ) :
    (List.range' a m).countP (fun x => decide (s ≤ x ∧ su ∣ x - s)) ≤ m / su + 1 := by
  rw [List.countP_eq_length_filter]
  have hlt : (List.range' a m).Pairwise (· < ·) := List.pairwise_lt_range'
  have hl : ((List.range' a m).filter fun x => decide (s ≤ x ∧ su ∣ x - s)).Pairwise
      fun x y => x + su ≤ y := by
    refine (hlt.filter _).imp_of_mem fun {x y} hx hy hxy => ?_
    have hx := of_decide_eq_true (List.mem_filter.mp hx).2
    have hy := of_decide_eq_true (List.mem_filter.mp hy).2
    have hd : su ∣ (y - s) - (x - s) := Nat.dvd_sub hy.2 hx.2
    have hle := Nat.le_of_dvd (by omega) hd
    omega
  cases m with
  | zero => exact Nat.zero_le _
  | succ m =>
    have hc := spaced_length hl (a := a) (b := a + (m + 1)) (fun x hx => by
      have hm := List.mem_range'_1.mp (List.mem_filter.mp hx).1
      omega) (by omega)
    have hd := Nat.div_add_mod (m + 1) su
    have hr := Nat.mod_lt (m + 1) hu
    have hs : ((List.range' a (m + 1)).filter fun x => decide (s ≤ x ∧ su ∣ x - s)).length * su <
        ((m + 1) / su + 2) * su := by
      rw [Nat.add_mul, Nat.mul_comm ((m + 1) / su)]
      omega
    have := Nat.lt_of_mul_lt_mul_right hs
    omega

theorem countP_le_add {α : Type} {p q r : α → Bool} (h : ∀ x, r x = true → p x = true ∨ q x = true) (l : List α) :
    l.countP r ≤ l.countP p + l.countP q := by
  induction l with
  | nil => exact Nat.le_refl _
  | cons x l ih =>
    have hx := h x
    simp only [List.countP_cons]
    cases hr : r x with
    | false => simp only [Bool.false_eq_true, ite_false]; omega
    | true =>
      rcases hx hr with hp | hq
      · simp only [hp, ite_true]; omega
      · simp only [hq, ite_true]; omega

theorem countP_exists_le {α : Type} (P : ℕ → α → Prop) [∀ p x, Decidable (P p x)] (l : List α) {c : ℕ} (n : ℕ)
    (h : ∀ p < n, (l.countP fun x => decide (P p x)) ≤ c) :
    (l.countP fun x => decide (∃ p < n, P p x)) ≤ n * c := by
  induction n with
  | zero =>
    rw [Nat.zero_mul, Nat.le_zero, List.countP_eq_zero]
    intro x _ hx
    obtain ⟨p, hp, _⟩ := of_decide_eq_true hx
    omega
  | succ n ih =>
    have hlast := h n (Nat.lt_succ_self n)
    have hfirst := ih fun p hp => h p (Nat.lt_succ_of_lt hp)
    have hsplit := countP_le_add (p := fun x => decide (∃ p < n, P p x)) (q := fun x => decide (P n x))
      (r := fun x => decide (∃ p < n + 1, P p x)) (fun x hx => by
        obtain ⟨p, hp, hpx⟩ := of_decide_eq_true hx
        by_cases he : p = n
        · exact Or.inr (decide_eq_true (he ▸ hpx))
        · exact Or.inl (decide_eq_true ⟨p, by omega, hpx⟩)) l
    rw [Nat.succ_mul]
    omega

/-- The multiples of `su` up to `m`. -/
theorem countP_multiples (su m : ℕ) : (List.range' 1 m).countP (fun x => decide (su ∣ x)) = m / su := by
  induction m with
  | zero =>
    rw [Nat.zero_div]
    rfl
  | succ m ih =>
    rw [List.range'_1_concat, List.countP_append, ih, Nat.succ_div, List.countP_singleton, Nat.add_comm 1 m]
    simp only [decide_eq_true_eq]

end RaidTest.Base
