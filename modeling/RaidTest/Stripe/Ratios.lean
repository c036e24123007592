import RaidTest.Stripe.LayoutLoop
import Mathlib.Algebra.GCDMonoid.Finset
import Mathlib.Algebra.GCDMonoid.Nat
import Mathlib.Algebra.Order.Round
import Mathlib.Data.Rat.Floor
import Mathlib.Order.Lattice.Nat

/-!
# Speed ratios (`stripe_volume_normalize_ratios`)

The raw ratio of a disk is its speed on the scale from 0 to `MAX_RATIO`, rounded, and at least
1. `max_speed / 2` is rounded down first; that changes nothing, so the raw ratios depend on the
proportions of the speeds only.
-/

namespace RaidTest.Stripe
open RaidTest.Base

/-! ### Rounding -/

/-- Half of an odd divisor may be rounded down before the division. -/
theorem add_half_div (a m : ℕ) : (a + m / 2) / m = (2 * a + m) / (2 * m) := by
  have h : (2 * a + m) / 2 = a + m / 2 := by omega
  rw [← Nat.div_div_eq_div_mul, h]

theorem round_natCast_div (a m : ℕ) (hm : 0 < m) : round ((a : ℚ) / m) = ((a + m / 2) / m : ℕ) := by
  have hm' : (m : ℚ) ≠ 0 := Nat.cast_ne_zero.mpr (Nat.pos_iff_ne_zero.mp hm)
  have h : (a : ℚ) / m + 1 / 2 = ((2 * a + m : ℕ) : ℚ) / ((2 * m : ℕ) : ℚ) := by
    push_cast
    field_simp
  rw [round_eq, h, Rat.floor_natCast_div_natCast, add_half_div]
  rfl

/-! ### The fastest disk and the common divisor -/

theorem maxSpeed_attained (speeds : ℕ → ℕ) {count : ℕ} (h : 0 < count) : ∃ i < count, maxSpeed speeds count = speeds i := by
  have hfold : ∀ (l : List ℕ) (a : ℕ), (∃ i < count, a = speeds i) → (∀ i ∈ l, i < count) →
      ∃ i < count, l.foldl (fun m i => if speeds i > m then speeds i else m) a = speeds i := by
    intro l
    induction l with
    | nil => intro a ha _; exact ha
    | cons x l ih =>
      intro a ha hl
      apply ih
      · show ∃ i < count, (if speeds x > a then speeds x else a) = speeds i
        split
        · exact ⟨x, hl x (List.mem_cons_self ..), rfl⟩
        · exact ha
      · intro i hi
        exact hl i (List.mem_cons_of_mem _ hi)
  apply hfold
  · exact ⟨0, h, rfl⟩
  · intro i hi
    have := List.mem_range'_1.mp hi
    omega

theorem maxSpeed_eq (speeds : ℕ → ℕ) {count : ℕ} (h : 0 < count) :
    maxSpeed speeds count = (Finset.range count).sup speeds := by
  apply Nat.le_antisymm
  · obtain ⟨i, hi, he⟩ := maxSpeed_attained speeds h
    rw [he]
    exact Finset.le_sup (Finset.mem_range.mpr hi)
  · apply Finset.sup_le
    intro i hi
    exact maxSpeed_le speeds (Finset.mem_range.mp hi)

theorem maxSpeed_scale (speeds : ℕ → ℕ) {count : ℕ} (h : 0 < count) (k : ℕ) :
    maxSpeed (fun j => k * speeds j) count = k * maxSpeed speeds count := by
  apply Nat.le_antisymm
  · obtain ⟨i, hi, he⟩ := maxSpeed_attained (fun j => k * speeds j) h
    rw [he]
    exact Nat.mul_le_mul_left k (maxSpeed_le speeds hi)
  · obtain ⟨i, hi, he⟩ := maxSpeed_attained speeds h
    rw [he]
    exact maxSpeed_le (fun j => k * speeds j) hi

theorem ratioGcd_eq (raw : ℕ → ℕ) {count : ℕ} (h : 0 < count) (hraw : 0 < raw 0) :
    ratioGcd raw count = (Finset.range count).gcd raw := by
  have hdvd := fun i (hi : i < count) => ratioGcd_dvd raw hi
  have hfold : ∀ (l : List ℕ) (a b : ℕ), b ∣ a → (∀ i ∈ l, b ∣ raw i) →
      b ∣ l.foldl (fun g i => gcdU32 g (raw i)) a := by
    intro l
    induction l with
    | nil => intro a b ha _; exact ha
    | cons x l ih =>
      intro a b ha hl
      apply ih
      · show b ∣ gcdU32 a (raw x)
        rw [gcdU32_eq]
        exact Nat.dvd_gcd ha (hl x (List.mem_cons_self ..))
      · intro i hi
        exact hl i (List.mem_cons_of_mem _ hi)
  apply Nat.dvd_antisymm
  · apply Finset.dvd_gcd
    intro i hi
    exact hdvd i (Finset.mem_range.mp hi)
  · have hg : (Finset.range count).gcd raw ∣ (List.range' 1 (count - 1)).foldl (fun g i => gcdU32 g (raw i)) (raw 0) := by
      apply hfold
      · exact Finset.gcd_dvd (Finset.mem_range.mpr h)
      · intro i hi
        have := List.mem_range'_1.mp hi
        exact Finset.gcd_dvd (Finset.mem_range.mpr (by omega))
    have hpos : (List.range' 1 (count - 1)).foldl (fun g i => gcdU32 g (raw i)) (raw 0) ≠ 0 := by
      intro hz
      have := (foldl_gcd_dvd raw (List.range' 1 (count - 1)) (raw 0)).1
      rw [hz] at this
      exact Nat.pos_iff_ne_zero.mp hraw (Nat.eq_zero_of_zero_dvd this)
    unfold ratioGcd
    rw [if_neg hpos]
    exact hg

/-! ### The raw ratios -/

theorem rawRatio_eq (speeds : ℕ → ℕ) {m i : ℕ} (hm : 0 < m) (hi : speeds i ≤ m) :
    rawRatio speeds m i = if (speeds i * maxRatio + m / 2) / m = 0 then 1 else (speeds i * maxRatio + m / 2) / m := by
  have hdiv : (speeds i * maxRatio + m / 2) / m ≤ 32 := by
    apply Nat.le_of_lt_succ
    rw [Nat.div_lt_iff_lt_mul hm]
    unfold maxRatio
    omega
  unfold rawRatio
  rw [u32_of_lt (Nat.lt_of_le_of_lt hdiv (by decide))]

theorem rawRatio_round (speeds : ℕ → ℕ) {m i : ℕ} (hm : 0 < m) (hi : speeds i ≤ m) :
    (rawRatio speeds m i : ℤ) =
      if round ((32 * speeds i : ℚ) / m) = 0 then 1 else round ((32 * speeds i : ℚ) / m) := by
  have hr : round ((32 * speeds i : ℚ) / m) = ((speeds i * maxRatio + m / 2) / m : ℕ) := by
    have h := round_natCast_div (speeds i * maxRatio) m hm
    rw [← h]
    congr 2
    rw [Nat.mul_comm, Nat.cast_mul]
    rfl
  rw [hr, rawRatio_eq speeds hm hi]
  split
  · next h => rw [h]; rfl
  · next h => rw [if_neg (by exact_mod_cast h)]

theorem rawRatio_mono (speeds : ℕ → ℕ) {m i j : ℕ} (hm : 0 < m) (hj : speeds j ≤ m) (h : speeds i ≤ speeds j) :
    rawRatio speeds m i ≤ rawRatio speeds m j := by
  have hdiv : (speeds i * maxRatio + m / 2) / m ≤ (speeds j * maxRatio + m / 2) / m :=
    Nat.div_le_div_right (Nat.add_le_add_right (Nat.mul_le_mul_right _ h) _)
  rw [rawRatio_eq speeds hm (h.trans hj), rawRatio_eq speeds hm hj]
  split <;> split <;> omega

theorem rawRatio_scale (speeds : ℕ → ℕ) {m i k : ℕ} (hm : 0 < m) (hi : speeds i ≤ m) (hk : 0 < k) :
    rawRatio (fun j => k * speeds j) (k * m) i = rawRatio speeds m i := by
  have hdiv : (k * speeds i * maxRatio + k * m / 2) / (k * m) = (speeds i * maxRatio + m / 2) / m := by
    rw [add_half_div, add_half_div]
    have hnum : 2 * (k * speeds i * maxRatio) + k * m = k * (2 * (speeds i * maxRatio) + m) := by ring
    have hden : 2 * (k * m) = k * (2 * m) := by ring
    rw [hnum, hden, Nat.mul_div_mul_left _ _ hk]
  have hi' : (fun j => k * speeds j) i ≤ k * m := Nat.mul_le_mul_left k hi
  rw [rawRatio_eq (fun j => k * speeds j) (Nat.mul_pos hk hm) hi', rawRatio_eq speeds hm hi]
  simp only [hdiv]

/-! ### The ratios -/

/-- What the ratios are made of: the raw ratios and their common divisor. -/
structure Normalized (speeds : ℕ → ℕ) (count m : ℕ) : Prop where
  max : maxSpeed speeds count = m
  pos : 0 < m
  ratios : ∀ i, (normalizeRatios speeds count).1 i =
    rawRatio speeds m i / (Finset.range count).gcd (rawRatio speeds m)
  total : (normalizeRatios speeds count).2 =
    (List.range count).foldl (fun t i => u32 (t + (normalizeRatios speeds count).1 i)) 0

theorem normalizeRatios_spec {speeds : ℕ → ℕ} {count : ℕ} (hne : ∃ i < count, speeds i ≠ 0) :
    Normalized speeds count (maxSpeed speeds count) := by
  obtain ⟨i, hi, hs⟩ := hne
  have hcount : 0 < count := by omega
  have hpos : 0 < maxSpeed speeds count := by
    have := maxSpeed_le speeds hi
    omega
  have hraw := rawRatio_bounds speeds (maxSpeed speeds count) 0 hpos (maxSpeed_le speeds hcount)
  have hne : ¬ maxSpeed speeds count = 0 := Nat.pos_iff_ne_zero.mp hpos
  refine ⟨rfl, hpos, fun i => ?_, ?_⟩
  · unfold normalizeRatios
    simp only [if_neg hne, ratioGcd_eq _ hcount hraw.1]
  · unfold normalizeRatios
    simp only [if_neg hne]

theorem foldl_add_eq (f : ℕ → ℕ) {n : ℕ} (hn : n ≤ 4) (hf : ∀ i < n, f i ≤ 32) :
    (List.range n).foldl (fun t i => u32 (t + f i)) 0 = ∑ i ∈ Finset.range n, f i ∧
      ∑ i ∈ Finset.range n, f i ≤ 32 * n := by
  induction n with
  | zero => exact ⟨rfl, Nat.le_refl _⟩
  | succ n ih =>
    obtain ⟨h1, h2⟩ := ih (by omega) (fun i hi => hf i (by omega))
    have hn' := hf n (by omega)
    rw [List.range_succ, List.foldl_append, h1, Finset.sum_range_succ]
    constructor
    · exact u32_of_lt (by omega)
    · omega

/-- The ratios of one to four speeds: bounded, without a common divisor, in the order of the
speeds, rounded from their proportions before the division, and those of the speeds in any unit. -/
theorem normalizeRatios_sound (speeds : ℕ → ℕ) (count : ℕ) (hmost : count ≤ maxDisks)
    (hne : ∃ i < count, speeds i ≠ 0) :
    (∀ i < count, 1 ≤ (normalizeRatios speeds count).1 i ∧ (normalizeRatios speeds count).1 i ≤ 32) ∧
    (Finset.range count).gcd (normalizeRatios speeds count).1 = 1 ∧
    (normalizeRatios speeds count).2 = ∑ i ∈ Finset.range count, (normalizeRatios speeds count).1 i ∧
    (∀ i < count, ∀ j < count, speeds i ≤ speeds j →
      (normalizeRatios speeds count).1 i ≤ (normalizeRatios speeds count).1 j) ∧
    (∃ raw : ℕ → ℕ,
      (∀ i < count, (raw i : ℤ) = if round ((32 * speeds i : ℚ) / (Finset.range count).sup speeds) = 0 then 1
        else round ((32 * speeds i : ℚ) / (Finset.range count).sup speeds)) ∧
      ∀ i < count, (normalizeRatios speeds count).1 i = raw i / (Finset.range count).gcd raw) ∧
    ∀ k, 0 < k →
      (∀ i < count, (normalizeRatios (fun j => k * speeds j) count).1 i = (normalizeRatios speeds count).1 i) ∧
      (normalizeRatios (fun j => k * speeds j) count).2 = (normalizeRatios speeds count).2 := by
  have hcount : 0 < count := by
    obtain ⟨i, hi, _⟩ := hne
    omega
  have hspec := normalizeRatios_spec hne
  have hmax := maxSpeed_eq speeds hcount
  have hle : ∀ i < count, speeds i ≤ maxSpeed speeds count := fun i hi => maxSpeed_le speeds hi
  have hbounds : ∀ i < count, 1 ≤ (normalizeRatios speeds count).1 i ∧ (normalizeRatios speeds count).1 i ≤ 32 :=
    fun i hi => normalizeRatios_bounds speeds hi
  have hsum := fun (s : ℕ → ℕ) => foldl_add_eq (normalizeRatios s count).1 hmost
    (fun i hi => (normalizeRatios_bounds s hi).2)
  refine ⟨hbounds, ?_, hspec.total.trans (hsum speeds).1, ?_, ⟨rawRatio speeds (maxSpeed speeds count), ?_, ?_⟩, ?_⟩
  · have hraw := rawRatio_bounds speeds (maxSpeed speeds count) 0 hspec.pos (hle 0 hcount)
    have hone := Finset.gcd_div_eq_one (f := rawRatio speeds (maxSpeed speeds count)) (Finset.mem_range.mpr hcount)
      (Nat.pos_iff_ne_zero.mp hraw.1)
    rw [← hone]
    exact congrArg _ (funext hspec.ratios)
  · intro i hi j hj h
    rw [hspec.ratios, hspec.ratios]
    exact Nat.div_le_div_right (rawRatio_mono speeds hspec.pos (hle j hj) h)
  · intro i hi
    rw [← hmax]
    exact rawRatio_round speeds hspec.pos (hle i hi)
  · intro i _
    exact hspec.ratios i
  · intro k hk
    have hne' : ∃ i < count, k * speeds i ≠ 0 := by
      obtain ⟨i, hi, hs⟩ := hne
      exact ⟨i, hi, Nat.mul_ne_zero (by omega) hs⟩
    have hspec' := normalizeRatios_spec hne'
    have hscale := maxSpeed_scale speeds hcount k
    have hraw : ∀ i < count, rawRatio (fun j => k * speeds j) (k * maxSpeed speeds count) i =
        rawRatio speeds (maxSpeed speeds count) i := fun i hi => rawRatio_scale speeds hspec.pos (hle i hi) hk
    have hgcd : (Finset.range count).gcd (rawRatio (fun j => k * speeds j) (k * maxSpeed speeds count)) =
        (Finset.range count).gcd (rawRatio speeds (maxSpeed speeds count)) :=
      Finset.gcd_congr rfl fun i hi => hraw i (Finset.mem_range.mp hi)
    have hratios : ∀ i < count, (normalizeRatios (fun j => k * speeds j) count).1 i =
        (normalizeRatios speeds count).1 i := by
      intro i hi
      rw [hspec'.ratios, hspec.ratios, hscale, hraw i hi, hgcd]
    refine ⟨hratios, ?_⟩
    rw [hspec'.total, hspec.total, (hsum _).1, (hsum _).1]
    exact Finset.sum_congr rfl fun i hi => hratios i (Finset.mem_range.mp hi)

theorem normalizeRatios_sound_sample :
    (Finset.range 3).gcd (normalizeRatios (fun i => [550, 110, 7].getD i 0) 3).1 = 1 ∧
      (normalizeRatios (fun i => [550, 110, 7].getD i 0) 3).2 =
        ∑ i ∈ Finset.range 3, (normalizeRatios (fun i => [550, 110, 7].getD i 0) 3).1 i :=
  have h := normalizeRatios_sound (fun i => [550, 110, 7].getD i 0) 3 (by decide) ⟨0, by decide, by decide⟩
  ⟨h.2.1, h.2.2.1⟩

end RaidTest.Stripe
