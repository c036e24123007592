import Mathlib.Algebra.BigOperators.Ring.Finset
import Mathlib.Algebra.Order.BigOperators.Group.Finset
import Mathlib.Data.List.GetD
import Mathlib.Data.List.Sort
import Mathlib.Order.Bounds.Basic

/-!
# Pairing numbers up

Of all ways to put the numbers of a list into pairs, with one left over when their number is
odd, the best for the sum of the smaller numbers is to sort the list and to pair neighbours. For
every `t` a pair counts if both of its numbers exceed `t`, so at most half of the numbers above
`t` count; the neighbours reach the half for every `t` at once.
-/

namespace RaidTest.Base

structure Pairing (l : List ℕ) where
  pairs : List (ℕ × ℕ)
  left : List ℕ
  few : left.length ≤ 1
  perm : (pairs.flatMap (fun p => [p.1, p.2]) ++ left).Perm l

/-- The sum of the smaller number of every pair. -/
def pairsValue (pairs : List (ℕ × ℕ)) : ℕ := (pairs.map fun p => min p.1 p.2).sum

def pairingValues (l : List ℕ) : Set ℕ := {v | ∃ p : Pairing l, pairsValue p.pairs = v}

def neighbours : List ℕ → ℕ
  | a :: b :: l => min a b + neighbours l
  | _ => 0

/-- How many numbers exceed `t`. -/
def above (t : ℕ) (l : List ℕ) : ℕ := l.countP fun x => decide (t < x)

def halves (m : ℕ) (l : List ℕ) : ℕ := ∑ t ∈ Finset.range m, above t l / 2

theorem sum_below {x m : ℕ} (h : x ≤ m) : ∑ t ∈ Finset.range m, (if t < x then 1 else 0) = x := by
  have hfilter : (Finset.range m).filter (fun t => t < x) = Finset.range x := by
    ext t
    simp only [Finset.mem_filter, Finset.mem_range]
    omega
  rw [Finset.sum_boole, hfilter, Finset.card_range]
  rfl

/-! ### No pairing is better than the halves -/

theorem above_pairs (t : ℕ) (pairs : List (ℕ × ℕ)) :
    2 * pairs.countP (fun p => decide (t < min p.1 p.2)) ≤ above t (pairs.flatMap fun p => [p.1, p.2]) := by
  induction pairs with
  | nil => exact Nat.le_refl 0
  | cons p pairs ih =>
    unfold above at ih ⊢
    rw [List.countP_cons, List.flatMap_cons, List.countP_append]
    by_cases hp : t < min p.1 p.2
    · obtain ⟨h1, h2⟩ := lt_min_iff.mp hp
      simp only [List.countP_cons, List.countP_nil, decide_eq_true hp, decide_eq_true h1, decide_eq_true h2, if_true]
      omega
    · simp only [decide_eq_false hp, Bool.false_eq_true, if_false]
      omega

theorem pairsValue_sum {pairs : List (ℕ × ℕ)} {m : ℕ} (h : ∀ p ∈ pairs, min p.1 p.2 ≤ m) :
    pairsValue pairs = ∑ t ∈ Finset.range m, pairs.countP (fun p => decide (t < min p.1 p.2)) := by
  induction pairs with
  | nil => simp [pairsValue]
  | cons p pairs ih =>
    have hrest := ih fun q hq => h q (List.mem_cons_of_mem _ hq)
    unfold pairsValue at hrest ⊢
    simp only [List.map_cons, List.sum_cons, List.countP_cons, Finset.sum_add_distrib, hrest, decide_eq_true_eq]
    rw [sum_below (h p (List.mem_cons_self ..)), Nat.add_comm]

theorem Pairing.value_le {l : List ℕ} (p : Pairing l) {m : ℕ} (hm : ∀ x ∈ l, x ≤ m) : pairsValue p.pairs ≤ halves m l := by
  have hmin : ∀ q ∈ p.pairs, min q.1 q.2 ≤ m := by
    intro q hq
    have hmem : q.1 ∈ l := p.perm.subset (List.mem_append_left _ (List.mem_flatMap.mpr ⟨q, hq, List.mem_cons_self ..⟩))
    exact Nat.le_trans (Nat.min_le_left ..) (hm q.1 hmem)
  rw [pairsValue_sum hmin]
  apply Finset.sum_le_sum
  intro t _
  have habove : above t (p.pairs.flatMap (fun q => [q.1, q.2]) ++ p.left) = above t l := p.perm.countP_eq _
  have hpairs := above_pairs t p.pairs
  unfold above at habove hpairs ⊢
  rw [List.countP_append] at habove
  omega

/-! ### Neighbours reach the halves -/

theorem above_of_le {t : ℕ} {l : List ℕ} (h : ∀ x ∈ l, x ≤ t) : above t l = 0 := by
  apply List.countP_eq_zero.mpr
  intro x hx hlt
  exact Nat.not_lt.mpr (h x hx) (of_decide_eq_true hlt)

theorem above_cons (t x : ℕ) (l : List ℕ) : above t (x :: l) = above t l + if t < x then 1 else 0 := by
  unfold above
  rw [List.countP_cons]
  simp only [decide_eq_true_eq]

theorem no_neighbours {l : List ℕ} (h : ∀ a b m, l = a :: b :: m → False) : l = [] ∨ ∃ a, l = [a] := by
  cases l with
  | nil => exact Or.inl rfl
  | cons a l =>
    cases l with
    | nil => exact Or.inr ⟨a, rfl⟩
    | cons b l => exact (h a b l rfl).elim

theorem neighbours_halves {m : ℕ} (l : List ℕ) (hs : l.Pairwise (· ≥ ·)) (hm : ∀ x ∈ l, x ≤ m) :
    neighbours l = halves m l := by
  induction l using neighbours.induct with
  | case1 a b l ih =>
    obtain ⟨ha, hbl⟩ := List.pairwise_cons.mp hs
    obtain ⟨hb, hl⟩ := List.pairwise_cons.mp hbl
    have hab : b ≤ a := ha b (List.mem_cons_self ..)
    have hstep : ∀ t, above t (a :: b :: l) / 2 = (if t < b then 1 else 0) + above t l / 2 := by
      intro t
      rw [above_cons, above_cons]
      by_cases ht : t < b
      · rw [if_pos ht, if_pos (Nat.lt_of_lt_of_le ht hab)]
        omega
      · rw [if_neg ht, above_of_le fun x hx => Nat.le_trans (hb x hx) (Nat.not_lt.mp ht)]
        split <;> rfl
    have hrest := ih hl fun x hx => hm x (List.mem_cons_of_mem _ (List.mem_cons_of_mem _ hx))
    rw [neighbours, hrest, Nat.min_eq_right hab]
    unfold halves
    simp only [hstep, Finset.sum_add_distrib]
    rw [sum_below (hm b (List.mem_cons_of_mem _ (List.mem_cons_self ..)))]
  | case2 l hshort =>
    unfold halves
    symm
    rcases no_neighbours hshort with rfl | ⟨a, rfl⟩
    · exact Finset.sum_eq_zero fun t _ => Nat.zero_div 2
    · apply Finset.sum_eq_zero
      intro t _
      have hone : above t [a] ≤ 1 := List.countP_le_length
      omega

/-- Neighbours are a pairing. -/
theorem neighbours_pairing (l : List ℕ) : neighbours l ∈ pairingValues l := by
  induction l using neighbours.induct with
  | case1 a b l ih =>
    obtain ⟨p, hp⟩ := ih
    refine ⟨⟨(a, b) :: p.pairs, p.left, p.few, (p.perm.cons b).cons a⟩, ?_⟩
    rw [neighbours, ← hp]
    rfl
  | case2 l hshort =>
    rcases no_neighbours hshort with rfl | ⟨a, rfl⟩
    · exact ⟨⟨[], [], Nat.zero_le 1, .refl []⟩, rfl⟩
    · exact ⟨⟨[], [a], Nat.le_refl 1, .refl [a]⟩, rfl⟩

theorem pairingValues_perm {l m : List ℕ} (h : m.Perm l) : pairingValues m ⊆ pairingValues l := by
  rintro v ⟨p, hp⟩
  exact ⟨⟨p.pairs, p.left, p.few, p.perm.trans h⟩, hp⟩

/-- Neighbours in falling order are the best pairing. -/
theorem neighbours_greatest {l m : List ℕ} (hs : m.Pairwise (· ≥ ·)) (hp : m.Perm l) :
    IsGreatest (pairingValues l) (neighbours m) := by
  have hbound : ∀ x ∈ l, x ≤ l.sum := fun x hx => List.le_sum_of_mem hx
  refine ⟨pairingValues_perm hp (neighbours_pairing m), ?_⟩
  rintro v ⟨p, rfl⟩
  have habove : ∀ t, above t m = above t l := fun t => hp.countP_eq _
  have hsame : halves l.sum m = halves l.sum l := by
    unfold halves
    simp only [habove]
  rw [neighbours_halves m hs fun x hx => hbound x (hp.subset hx), hsame]
  exact p.value_le hbound

/-! ### The numbers by size -/

/-- The number of rank `k` from the greatest on, and zero when there are no more. -/
def fromTop (l : List ℕ) (k : ℕ) : ℕ := (l.insertionSort (· ≥ ·)).getD k 0

theorem sorted_getD {t : ℕ} {l : List ℕ} (hs : l.Pairwise (· ≥ ·)) (k : ℕ) : t < l.getD k 0 ↔ k < above t l := by
  induction l generalizing k with
  | nil => simp [above]
  | cons a l ih =>
    obtain ⟨ha, hl⟩ := List.pairwise_cons.mp hs
    by_cases hta : t < a
    · rw [above_cons, if_pos hta]
      cases k with
      | zero => simp [hta]
      | succ k =>
        rw [List.getD_cons_succ, ih hl k]
        omega
    · have hle : ∀ x ∈ a :: l, x ≤ t := by
        intro x hx
        rcases List.mem_cons.mp hx with rfl | hx
        · exact Nat.not_lt.mp hta
        · exact Nat.le_trans (ha x hx) (Nat.not_lt.mp hta)
      rw [above_of_le hle]
      refine iff_of_false (fun hlt => ?_) (Nat.not_lt_zero k)
      by_cases hk : k < (a :: l).length
      · rw [List.getD_eq_getElem _ _ hk] at hlt
        exact absurd hlt (Nat.not_lt.mpr (hle _ (List.getElem_mem hk)))
      · rw [List.getD_eq_default _ _ (Nat.not_lt.mp hk)] at hlt
        exact Nat.not_lt_zero t hlt

theorem fromTop_above (l : List ℕ) (k t : ℕ) : t < fromTop l k ↔ k < above t l := by
  have hperm : above t (l.insertionSort (· ≥ ·)) = above t l := (List.perm_insertionSort _ l).countP_eq _
  rw [fromTop, sorted_getD (List.pairwise_insertionSort _ l), hperm]

/-- More numbers make no rank smaller. -/
theorem fromTop_mono {l m : List ℕ} (h : l.Sublist m) (k : ℕ) : fromTop l k ≤ fromTop m k := by
  by_contra hlt
  have hk := (fromTop_above l k _).mp (Nat.not_le.mp hlt)
  have hle : above (fromTop m k) l ≤ above (fromTop m k) m := h.countP_le
  exact Nat.lt_irrefl _ ((fromTop_above m k _).mpr (Nat.lt_of_lt_of_le hk hle))

/-- The smaller numbers of the neighbours are those at the odd places. -/
theorem neighbours_drop {l : List ℕ} (hs : l.Pairwise (· ≥ ·)) : neighbours l = l.getD 1 0 + neighbours (l.drop 2) := by
  cases l with
  | nil => rfl
  | cons a l =>
    cases l with
    | nil => rfl
    | cons b l =>
      rw [neighbours, Nat.min_eq_right ((List.pairwise_cons.mp hs).1 b (List.mem_cons_self ..))]
      rfl

theorem neighbours_eq_zero {l : List ℕ} (hs : l.Pairwise (· ≥ ·)) : neighbours l = 0 ↔ l.getD 1 0 = 0 := by
  rw [neighbours_drop hs, Nat.add_eq_zero_iff]
  refine ⟨And.left, fun h => ⟨h, ?_⟩⟩
  cases l with
  | nil => rfl
  | cons a l =>
    cases l with
    | nil => rfl
    | cons b l =>
      -- what follows a zero in falling order is zero
      obtain ⟨_, hbl⟩ := List.pairwise_cons.mp hs
      obtain ⟨hb, hl⟩ := List.pairwise_cons.mp hbl
      have hzero : b = 0 := h
      have hall : ∀ x ∈ l, x ≤ 0 := fun x hx => hzero ▸ hb x hx
      exact neighbours_halves (m := 0) l hl hall

theorem getD_drop (l : List ℕ) (n k : ℕ) : (l.drop n).getD k 0 = l.getD (n + k) 0 := by
  rw [List.getD_eq_getElem?_getD, List.getD_eq_getElem?_getD, List.getElem?_drop]

end RaidTest.Base
