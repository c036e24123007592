import RaidTest.Base.Pairing
import RaidTest.Service.Planner
import Mathlib.Logic.Equiv.Basic

/-!
# The RAID10 estimate (`planner_calculate`)

The planner sorts capacities in falling order and pairs neighbours, which is the best pairing of
what it sorts. It sorts the first `MAX_DISKS` of the selected capacities only.
-/

namespace RaidTest.Service
open RaidTest.Base RaidTest.Stripe

/-- The selected capacities, in megabytes. -/
def selectedMb (disks : List PlannerDisk) : List ℕ :=
  (disks.filter (·.selected)).map fun disk => disk.capacityBytes / (1024 * 1024)

/-! ### The first loop -/

theorem plannerLoop_selected (disks : List PlannerDisk) (s : PlannerSums) :
    (disks.foldl plannerStep s).sel = s.sel + (selectedMb disks).length ∧
      (disks.foldl plannerStep s).capacities =
        s.capacities ++ (selectedMb disks).take (maxDisks - s.capacities.length) := by
  induction disks generalizing s with
  | nil => exact ⟨rfl, by rw [selectedMb, List.filter_nil, List.map_nil, List.take_nil, List.append_nil]; rfl⟩
  | cons disk disks ih =>
    obtain ⟨hsel, hcap⟩ := ih (plannerStep s disk)
    rw [List.foldl_cons, hsel, hcap]
    cases hd : disk.selected with
    | false =>
      have hstep : plannerStep s disk = s := if_pos hd
      have hrest : selectedMb (disk :: disks) = selectedMb disks := by
        simp only [selectedMb, List.filter_cons, hd, Bool.false_eq_true, if_false]
      rw [hstep, hrest]
      exact ⟨rfl, rfl⟩
    | true =>
      have hrest : selectedMb (disk :: disks) = disk.capacityBytes / (1024 * 1024) :: selectedMb disks := by
        simp only [selectedMb, List.filter_cons, hd, if_true, List.map_cons]
      have hnot : ¬ disk.selected = false := by
        rw [hd]
        decide
      rw [hrest, plannerStep, if_neg hnot, List.length_cons]
      refine ⟨by simp only; omega, ?_⟩
      simp only
      by_cases hfull : s.capacities.length < maxDisks
      · obtain ⟨k, hk⟩ : ∃ k, maxDisks - s.capacities.length = k + 1 := ⟨maxDisks - s.capacities.length - 1, by omega⟩
        have hleft : maxDisks - (s.capacities.length + 1) = k := by omega
        rw [if_pos hfull, List.length_append, List.length_singleton, hleft, hk, List.take_succ_cons, List.append_assoc,
          List.singleton_append]
      · have hnone : maxDisks - s.capacities.length = 0 := by omega
        rw [if_neg hfull, hnone, List.take_zero, List.take_zero]

/-! ### The exchange sort -/

theorem exchange_swap (c : ℕ → ℕ) (i j : ℕ) : exchange c i j = c ∨ exchange c i j = c ∘ Equiv.swap i j := by
  unfold exchange
  split
  · right
    funext k
    simp only [Function.comp_apply, Equiv.swap_apply_def]
    split
    · rfl
    · split <;> rfl
  · exact Or.inl rfl

theorem range_swap {n i j : ℕ} (hi : i < n) (hj : j < n) : ((List.range n).map (Equiv.swap i j)).Perm (List.range n) := by
  have hnodup : ((List.range n).map (Equiv.swap i j)).Nodup := List.nodup_range.map (Equiv.injective _)
  have hlt : ∀ k, k < n → Equiv.swap i j k < n := by
    intro k hk
    rw [Equiv.swap_apply_def]
    split
    · exact hj
    · split
      · exact hi
      · exact hk
  rw [List.perm_ext_iff_of_nodup hnodup List.nodup_range]
  intro k
  rw [List.mem_map, List.mem_range]
  constructor
  · rintro ⟨m, hm, rfl⟩
    exact hlt m (List.mem_range.mp hm)
  · exact fun hk => ⟨Equiv.swap i j k, List.mem_range.mpr (hlt k hk), Equiv.swap_apply_self i j k⟩

theorem exchange_perm {n i j : ℕ} (c : ℕ → ℕ) (hi : i < n) (hj : j < n) :
    ((List.range n).map (exchange c i j)).Perm ((List.range n).map c) := by
  rcases exchange_swap c i j with he | he
  · rw [he]
  · rw [he, ← List.map_map]
    exact (range_swap hi hj).map c

/-- The inner loop, up to index `j`. -/
def exchangeRow (c : ℕ → ℕ) (i m : ℕ) : ℕ → ℕ := (List.range' (i + 1) m).foldl (fun c j => exchange c i j) c

theorem exchangeRow_succ (c : ℕ → ℕ) (i m : ℕ) :
    exchangeRow c i (m + 1) = exchange (exchangeRow c i m) i (i + 1 + m) := by
  unfold exchangeRow
  rw [List.range'_concat, List.foldl_append, Nat.one_mul]
  rfl

/-- What the inner loop has done from position `i` on: nothing before `i`, and nothing that
bounds all of the rest is exceeded. -/
structure Raised (n i m : ℕ) (c d : ℕ → ℕ) : Prop where
  perm : ((List.range n).map d).Perm ((List.range n).map c)
  before : ∀ k < i, d k = c k
  bounded : ∀ b, (∀ k, i ≤ k → k < n → c k ≤ b) → ∀ k, i ≤ k → k < n → d k ≤ b
  top : ∀ k, i < k → k < i + 1 + m → d k ≤ d i

theorem exchangeRow_raised (c : ℕ → ℕ) (n i : ℕ) : ∀ m, i + 1 + m ≤ n → Raised n i m c (exchangeRow c i m) := by
  intro m
  induction m with
  | zero =>
    intro _
    exact ⟨.refl _, fun _ _ => rfl, fun _ h => h, fun k h1 h2 => absurd h2 (by omega)⟩
  | succ m ih =>
    intro hm
    have hrow := ih (by omega)
    rw [exchangeRow_succ]
    generalize exchangeRow c i m = d at hrow ⊢
    have hswap := exchange_perm d (show i < n by omega) (show i + 1 + m < n by omega)
    unfold exchange at hswap ⊢
    split
    · next hgt =>
      rw [if_pos hgt] at hswap
      refine ⟨hswap.trans hrow.perm, fun k hk => ?_, fun b hb k hik hkn => ?_, fun k hik hkm => ?_⟩
      · rw [if_neg (by omega), if_neg (by omega)]
        exact hrow.before k hk
      · have hall := hrow.bounded b hb
        split
        · exact hall _ (by omega) (by omega)
        · split
          · exact hall _ (Nat.le_refl i) (by omega)
          · exact hall k hik hkn
      · rw [if_pos rfl, if_neg (by omega)]
        split
        · exact Nat.le_of_lt hgt
        · exact Nat.le_trans (hrow.top k hik (by omega)) (Nat.le_of_lt hgt)
    · next hle =>
      refine ⟨hrow.perm, hrow.before, hrow.bounded, fun k hik hkm => ?_⟩
      by_cases hk : k = i + 1 + m
      · rw [hk]
        exact Nat.not_lt.mp hle
      · exact hrow.top k hik (by omega)

/-- The outer loop, up to index `m`. -/
def exchangeLoop (c : ℕ → ℕ) (n m : ℕ) : ℕ → ℕ := (List.range m).foldl (fun c i => exchangeRow c i (n - (i + 1))) c

theorem exchangeLoop_succ (c : ℕ → ℕ) (n m : ℕ) :
    exchangeLoop c n (m + 1) = exchangeRow (exchangeLoop c n m) m (n - (m + 1)) := by
  unfold exchangeLoop
  rw [List.range_succ, List.foldl_append]
  rfl

/-- The positions the outer loop has passed are in falling order and above the rest. -/
theorem exchangeLoop_sorted (c : ℕ → ℕ) (n : ℕ) : ∀ m ≤ n,
    ((List.range n).map (exchangeLoop c n m)).Perm ((List.range n).map c) ∧
      ∀ p < m, ∀ k, p < k → k < n → exchangeLoop c n m k ≤ exchangeLoop c n m p := by
  intro m
  induction m with
  | zero => exact fun _ => ⟨.refl _, fun p hp => absurd hp (Nat.not_lt_zero p)⟩
  | succ m ih =>
    intro hm
    obtain ⟨hperm, hsorted⟩ := ih (by omega)
    rw [exchangeLoop_succ]
    generalize exchangeLoop c n m = d at hperm hsorted ⊢
    have hrow := exchangeRow_raised d n m (n - (m + 1)) (by omega)
    refine ⟨hrow.perm.trans hperm, fun p hp k hpk hkn => ?_⟩
    by_cases hpm : p = m
    · subst hpm
      exact hrow.top k hpk (by omega)
    · rw [hrow.before p (by omega)]
      by_cases hkm : k < m
      · rw [hrow.before k hkm]
        exact hsorted p (by omega) k hpk hkn
      · exact hrow.bounded (d p) (fun x hx hxn => hsorted p (by omega) x (by omega) hxn) k (by omega) hkn

/-- The two loops sort in falling order. -/
theorem exchangeSort_sorted (n : ℕ) (c : ℕ → ℕ) :
    ((List.range n).map (exchangeSort n c)).Perm ((List.range n).map c) ∧
      ((List.range n).map (exchangeSort n c)).Pairwise (· ≥ ·) := by
  obtain ⟨hperm, hsorted⟩ := exchangeLoop_sorted c n n (Nat.le_refl n)
  refine ⟨hperm, ?_⟩
  rw [List.pairwise_map]
  refine List.pairwise_lt_range.imp_of_mem ?_
  intro p k hp hk hpk
  exact hsorted p (List.mem_range.mp hp) k hpk (List.mem_range.mp hk)

/-! ### The estimate -/

theorem selectedMb_lt {disks : List PlannerDisk} (hcap : ∀ disk ∈ disks, disk.capacityBytes < 2^64) :
    ∀ x ∈ selectedMb disks, x < 2^44 := by
  intro x hx
  obtain ⟨disk, hdisk, rfl⟩ := List.mem_map.mp hx
  have hlt := hcap disk (List.mem_filter.mp hdisk).1
  omega

/-- The estimate pairs the first four in falling order. -/
theorem raid10Capacity_neighbours {disks : List PlannerDisk} (hcap : ∀ disk ∈ disks, disk.capacityBytes < 2^64)
    (hsel : 4 ≤ (selectedMb disks).length) :
    ∃ m, m.Pairwise (· ≥ ·) ∧ m.Perm ((selectedMb disks).take 4) ∧
      (plannerCalculate disks).raid10CapacityMb = neighbours m := by
  obtain ⟨hcount, hfirst⟩ := plannerLoop_selected disks .start
  have hfour : (disks.foldl plannerStep .start).capacities = (selectedMb disks).take 4 := hfirst
  have hlength : ((selectedMb disks).take 4).length = 4 := by
    rw [List.length_take]
    omega
  have hsum : (disks.foldl plannerStep .start).sel = (selectedMb disks).length := by
    rw [hcount, PlannerSums.start, Nat.zero_add]
  have hdisks : disks.length ≠ 0 := by
    intro hnil
    rw [List.length_eq_zero_iff.mp hnil] at hsel
    exact absurd hsel (by decide)
  have hlt : ∀ x ∈ (selectedMb disks).take 4, x < 2^44 := fun x hx => selectedMb_lt hcap x (List.mem_of_mem_take hx)
  have hraid10 : (plannerCalculate disks).raid10CapacityMb =
      pairSum 4 (exchangeSort 4 fun i => ((selectedMb disks).take 4).getD i 0) := by
    unfold plannerCalculate
    rw [if_neg hdisks]
    simp only
    rw [if_neg (by omega), hfour, hlength]
    exact if_neg (by omega)
  generalize (selectedMb disks).take 4 = cs at hlength hlt hraid10 ⊢
  have hlist : (List.range 4).map (fun i => cs.getD i 0) = cs := by
    obtain ⟨a, b, c, d, rfl⟩ := List.length_eq_four.mp hlength
    rfl
  obtain ⟨hperm, hsorted⟩ := exchangeSort_sorted 4 fun i => cs.getD i 0
  rw [hlist] at hperm
  refine ⟨_, hsorted, hperm, ?_⟩
  have hsmall : ∀ k < 4, exchangeSort 4 (fun i => cs.getD i 0) k < 2^44 := fun k hk =>
    hlt _ (hperm.subset (List.mem_map_of_mem (List.mem_range.mpr hk)))
  rw [hraid10]
  generalize exchangeSort 4 (fun i => cs.getD i 0) = c at hsmall ⊢
  have h0 := hsmall 0 (by decide)
  have h2 := hsmall 2 (by decide)
  have hpairs : pairSum 4 c = u64 (u64 (0 + minU64 (c 0) (c 1)) + minU64 (c 2) (c 3)) := rfl
  have hneighbours : neighbours ((List.range 4).map c) = min (c 0) (c 1) + (min (c 2) (c 3) + 0) := rfl
  have hone : u64 (0 + min (c 0) (c 1)) = min (c 0) (c 1) := by
    rw [Nat.zero_add]
    exact u64_of_lt (by omega)
  rw [hpairs, hneighbours, minU64_eq, minU64_eq, hone, u64_of_lt (by omega), Nat.add_zero]

/-- The first four of the capacities hold the second and the fourth greatest of all, and beyond
a fifth there is nothing to pair. -/
def FourSuffice (l : List ℕ) : Prop :=
  fromTop (l.take 4) 1 = fromTop l 1 ∧ fromTop (l.take 4) 3 = fromTop l 3 ∧ fromTop l 5 = 0

instance (l : List ℕ) : Decidable (FourSuffice l) := inferInstanceAs (Decidable (_ ∧ _ ∧ _))

theorem neighbours_falling {m : List ℕ} (hs : m.Pairwise (· ≥ ·)) :
    neighbours m = m.getD 1 0 + m.getD 3 0 + neighbours (m.drop 4) := by
  rw [neighbours_drop hs, neighbours_drop (hs.sublist (List.drop_sublist 2 m)), List.drop_drop, getD_drop]
  exact (Nat.add_assoc ..).symm

theorem fourSuffice_iff (l : List ℕ) :
    neighbours ((l.take 4).insertionSort (· ≥ ·)) = neighbours (l.insertionSort (· ≥ ·)) ↔ FourSuffice l := by
  have hfirst := List.pairwise_insertionSort (· ≥ ·) (l.take 4)
  have hall := List.pairwise_insertionSort (· ≥ ·) l
  have hshort : ((l.take 4).insertionSort (· ≥ ·)).drop 4 = [] := by
    apply List.drop_of_length_le
    rw [List.length_insertionSort, List.length_take]
    exact Nat.min_le_left ..
  have hrest : neighbours ((l.insertionSort (· ≥ ·)).drop 4) = 0 ↔ fromTop l 5 = 0 := by
    rw [neighbours_eq_zero (hall.sublist (List.drop_sublist 4 _)), getD_drop]
    rfl
  have h1 := fromTop_mono (List.take_sublist 4 l) 1
  have h3 := fromTop_mono (List.take_sublist 4 l) 3
  rw [neighbours_falling hfirst, neighbours_falling hall, hshort]
  unfold FourSuffice fromTop at *
  have hnil : neighbours [] = 0 := rfl
  omega

/-- The estimate is the best pairing of all selected disks exactly when their first four hold
what the best pairing adds up. -/
theorem raid10Capacity_best (disks : List PlannerDisk) (hcap : ∀ disk ∈ disks, disk.capacityBytes < 2^64)
    (hsel : 4 ≤ (selectedMb disks).length) :
    IsGreatest (pairingValues (selectedMb disks)) (plannerCalculate disks).raid10CapacityMb ↔
      FourSuffice (selectedMb disks) := by
  obtain ⟨m, hs, hp, heq⟩ := raid10Capacity_neighbours hcap hsel
  have hfour : neighbours m = neighbours (((selectedMb disks).take 4).insertionSort (· ≥ ·)) :=
    (neighbours_greatest hs hp).unique
      (neighbours_greatest (List.pairwise_insertionSort ..) (List.perm_insertionSort ..))
  have hbest := neighbours_greatest (List.pairwise_insertionSort (· ≥ ·) (selectedMb disks))
    (List.perm_insertionSort ..)
  rw [heq, hfour, ← fourSuffice_iff]
  exact ⟨fun h => h.unique hbest, fun h => h ▸ hbest⟩

/-- Selected disks of so many megabytes. -/
def disksOfMb (mb : List ℕ) : List PlannerDisk := mb.map fun n => ⟨n * (1024 * 1024), true⟩

/-- The fifth of five disks is the smallest, and is left out. -/
theorem raid10Capacity_best_sample :
    IsGreatest (pairingValues (selectedMb (disksOfMb [8, 6, 4, 2, 1])))
      (plannerCalculate (disksOfMb [8, 6, 4, 2, 1])).raid10CapacityMb :=
  (raid10Capacity_best (disksOfMb [8, 6, 4, 2, 1]) (by decide) (by decide)).mpr (by decide)

/-- The two greatest of six disks come last: the estimate is 2 where 11 can be had. -/
theorem raid10Capacity_best_fails :
    (plannerCalculate (disksOfMb [1, 1, 1, 1, 9, 9])).raid10CapacityMb = 2 ∧
      11 ∈ pairingValues (selectedMb (disksOfMb [1, 1, 1, 1, 9, 9])) ∧
      ¬ IsGreatest (pairingValues (selectedMb (disksOfMb [1, 1, 1, 1, 9, 9])))
        (plannerCalculate (disksOfMb [1, 1, 1, 1, 9, 9])).raid10CapacityMb := by
  have hestimate : (plannerCalculate (disksOfMb [1, 1, 1, 1, 9, 9])).raid10CapacityMb = 2 := by decide
  have hbetter : 11 ∈ pairingValues (selectedMb (disksOfMb [1, 1, 1, 1, 9, 9])) :=
    ⟨⟨[(9, 9), (1, 1), (1, 1)], [], by decide, by decide⟩, rfl⟩
  refine ⟨hestimate, hbetter, fun h => ?_⟩
  have hle := h.2 hbetter
  rw [hestimate] at hle
  exact absurd hle (by decide)

/-- Four selected disks suffice. -/
theorem fourSuffice_four {l : List ℕ} (h : l.length ≤ 4) : FourSuffice l := by
  have htop : fromTop l 5 = 0 := by
    apply List.getD_eq_default
    rw [List.length_insertionSort]
    omega
  unfold FourSuffice
  rw [List.take_of_length_le h]
  exact ⟨rfl, rfl, htop⟩

end RaidTest.Service
