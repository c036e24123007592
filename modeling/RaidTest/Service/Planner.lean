import RaidTest.Stripe.Packing
import RaidTest.Mirror.Engine
import Mathlib.Algebra.BigOperators.Ring.Finset
import Mathlib.Algebra.Order.BigOperators.Group.Finset

/-!
# The capacity planner (`planner_calculate`)

The planner counts in whole megabytes of every pool. The layout works in stripe units, and
gives up on a disk when less than one turn of it is left.
-/

namespace RaidTest.Service
open RaidTest.Base RaidTest.Stripe RaidTest.Mirror

/-! ### The calculation -/

structure PlannerDisk where
  capacityBytes : ℕ
  selected : Bool
  deriving DecidableEq, Repr

/-- `PLANNER_RESULT` without the efficiencies. -/
structure PlannerResult where
  diskCount : ℕ
  totalRawMb : ℕ
  raid0CapacityMb : ℕ
  raid1CapacityMb : ℕ
  raid10CapacityMb : ℕ
  selectedCount : ℕ
  deriving DecidableEq, Repr

/-- The variables of the first loop; `cap_count` is the length of `capacities`. -/
structure PlannerSums where
  sel : ℕ
  totalMb : ℕ
  minMb : ℕ
  capacities : List ℕ

def PlannerSums.start : PlannerSums := ⟨0, 0, 18446744073709551615, []⟩

def plannerStep (s : PlannerSums) (disk : PlannerDisk) : PlannerSums :=
  if disk.selected = false then s
  else
    let mb := disk.capacityBytes / (1024 * 1024)
    { sel := s.sel + 1
      totalMb := u64 (s.totalMb + mb)
      minMb := if mb < s.minMb then mb else s.minMb
      capacities := if s.capacities.length < maxDisks then s.capacities ++ [mb] else s.capacities }

/-- `capacities[i]` and `capacities[j]` in falling order. -/
def exchange (c : ℕ → ℕ) (i j : ℕ) : ℕ → ℕ :=
  if c j > c i then fun k => if k = i then c j else if k = j then c i else c k else c

def exchangeSort (count : ℕ) (c : ℕ → ℕ) : ℕ → ℕ :=
  (List.range count).foldl (fun c i => (List.range' (i + 1) (count - (i + 1))).foldl (fun c j => exchange c i j) c) c

/-- `ra10`: the smaller one of every pair. -/
def pairSum (count : ℕ) (c : ℕ → ℕ) : ℕ :=
  (List.range (count / 2)).foldl (fun t p => u64 (t + minU64 (c (2 * p)) (c (2 * p + 1)))) 0

/-- `planner_calculate`. -/
def plannerCalculate (disks : List PlannerDisk) : PlannerResult :=
  if disks.length = 0 then ⟨0, 0, 0, 0, 0, 0⟩
  else
    let s := disks.foldl plannerStep .start
    if s.sel < 2 then ⟨0, s.totalMb, 0, 0, 0, s.sel⟩
    else
      { diskCount := s.sel
        totalRawMb := s.totalMb
        raid0CapacityMb := s.totalMb
        raid1CapacityMb := s.minMb
        raid10CapacityMb := if s.sel < 4 then 0
          else pairSum s.capacities.length (exchangeSort s.capacities.length fun i => s.capacities.getD i 0)
        selectedCount := s.sel }

/-- What `raid_planner` makes of selected disks with pools. -/
def plannerDisks (d : Disks) (disks : List DiskId) : List PlannerDisk :=
  disks.map fun i => ⟨(d.info i).poolBytes, true⟩

/-! ### Its sums -/

theorem plannerLoop_sel (d : Disks) (disks : List DiskId) (s : PlannerSums) :
    ((plannerDisks d disks).foldl plannerStep s).sel = s.sel + disks.length := by
  unfold plannerDisks
  induction disks generalizing s with
  | nil => rfl
  | cons i disks ih =>
    rw [List.map_cons, List.foldl_cons, ih, List.length_cons, Nat.add_comm disks.length 1, ← Nat.add_assoc]
    rfl

theorem plannerLoop_total (d : Disks) (disks : List DiskId) (s : PlannerSums)
    (h : s.totalMb + ∑ k ∈ Finset.range disks.length, poolSize d disks k / (1024 * 1024) < 2^64) :
    ((plannerDisks d disks).foldl plannerStep s).totalMb =
      s.totalMb + ∑ k ∈ Finset.range disks.length, poolSize d disks k / (1024 * 1024) := by
  unfold plannerDisks
  induction disks generalizing s with
  | nil => rfl
  | cons i disks ih =>
    rw [List.length_cons, Finset.sum_range_succ', ← Nat.add_assoc, Nat.add_right_comm] at h ⊢
    have hstep : (plannerStep s ⟨(d.info i).poolBytes, true⟩).totalMb =
        s.totalMb + poolSize d (i :: disks) 0 / (1024 * 1024) := by
      apply u64_of_lt
      exact Nat.lt_of_le_of_lt (Nat.le_add_right _ _) h
    rw [List.map_cons, List.foldl_cons, ih, hstep]
    · rfl
    · rw [hstep]
      exact h

theorem plannerLoop_min (d : Disks) (disks : List DiskId) (s : PlannerSums) :
    ((plannerDisks d disks).foldl plannerStep s).minMb =
      disks.foldl (fun m i => if (d.info i).poolBytes / (1024 * 1024) < m then (d.info i).poolBytes / (1024 * 1024) else m)
        s.minMb := by
  unfold plannerDisks
  induction disks generalizing s with
  | nil => rfl
  | cons i disks ih =>
    rw [List.map_cons, List.foldl_cons, ih, List.foldl_cons]
    rfl

/-- The least of the pools, counted in whole megabytes. -/
theorem foldl_min_div (f : DiskId → ℕ) (k : ℕ) (disks : List DiskId) (m : ℕ) :
    disks.foldl (fun m i => if f i / k < m then f i / k else m) (m / k) =
      disks.foldl (fun m i => if f i < m then f i else m) m / k := by
  induction disks generalizing m with
  | nil => rfl
  | cons i disks ih =>
    have hstep : (if f i / k < m / k then f i / k else m / k) = (if f i < m then f i else m) / k := by
      by_cases hlt : f i < m
      · have hle := Nat.div_le_div_right (c := k) (Nat.le_of_lt hlt)
        rw [if_pos hlt]
        split <;> omega
      · have hle := Nat.div_le_div_right (c := k) (Nat.not_lt.mp hlt)
        rw [if_neg hlt, if_neg (Nat.not_lt.mpr hle)]
    rw [List.foldl_cons, List.foldl_cons, hstep, ih]

theorem plannerCalculate_sums (d : Disks) {disks : List DiskId} (h : 2 ≤ disks.length) :
    (plannerCalculate (plannerDisks d disks)).raid0CapacityMb = ((plannerDisks d disks).foldl plannerStep .start).totalMb ∧
      (plannerCalculate (plannerDisks d disks)).raid1CapacityMb =
        ((plannerDisks d disks).foldl plannerStep .start).minMb := by
  have hsel : ((plannerDisks d disks).foldl plannerStep .start).sel = disks.length := by
    rw [plannerLoop_sel, PlannerSums.start, Nat.zero_add]
  unfold plannerCalculate
  rw [if_neg (by rw [plannerDisks, List.length_map]; omega)]
  simp only
  rw [if_neg (by omega)]
  exact ⟨rfl, rfl⟩

theorem raid1Capacity_eq (d : Disks) {disks : List DiskId} (h : 2 ≤ disks.length)
    (hpool : ∀ i ∈ disks, (d.info i).poolBytes ≤ 2^56) :
    (plannerCalculate (plannerDisks d disks)).raid1CapacityMb =
      disks.foldl (fun m i => if (d.info i).poolBytes < m then (d.info i).poolBytes else m)
        18446744073709551615 / (1024 * 1024) := by
  rw [(plannerCalculate_sums d h).2, plannerLoop_min]
  obtain ⟨i, l, rfl⟩ := List.exists_cons_of_length_pos (show 0 < disks.length by omega)
  have hi := hpool i (List.mem_cons_self ..)
  have hmb : (d.info i).poolBytes / (1024 * 1024) < PlannerSums.start.minMb := by
    simp only [PlannerSums.start]
    omega
  rw [List.foldl_cons, List.foldl_cons, if_pos hmb, if_pos (by omega)]
  exact foldl_min_div (fun i => (d.info i).poolBytes) _ _ _

theorem raid0Capacity_eq (d : Disks) {disks : List DiskId} (h : 2 ≤ disks.length) (hfew : disks.length ≤ 4)
    (hpool : ∀ i ∈ disks, (d.info i).poolBytes ≤ 2^56) :
    (plannerCalculate (plannerDisks d disks)).raid0CapacityMb =
      ∑ k ∈ Finset.range disks.length, poolSize d disks k / (1024 * 1024) := by
  have hsmall : ∑ k ∈ Finset.range disks.length, poolSize d disks k / (1024 * 1024) ≤ disks.length * 2^56 := by
    have hcard := Finset.sum_le_card_nsmul (Finset.range disks.length)
      (fun k => poolSize d disks k / (1024 * 1024)) (2^56) fun k hk => (Nat.div_le_self _ _).trans (by
        rw [poolSize, List.getD_eq_getElem _ _ (Finset.mem_range.mp hk)]
        exact hpool _ (List.getElem_mem _))
    rw [Finset.card_range, smul_eq_mul] at hcard
    exact hcard
  rw [(plannerCalculate_sums d h).1, plannerLoop_total]
  · exact Nat.zero_add _
  · simp only [PlannerSums.start, Nat.zero_add]
    omega

/-- The sums over the used parts and over the pools, in units of `su` bytes. -/
theorem units_close {su n : ℕ} {used pool ratio : ℕ → ℕ} (hn : 0 < n) (hu : 0 < su)
    (h : ∀ i < n, su ∣ used i ∧ used i ≤ pool i ∧ pool i - used i < ratio i * su) :
    (∑ i ∈ Finset.range n, used i) / su ≤ ∑ i ∈ Finset.range n, pool i / su ∧
      ∑ i ∈ Finset.range n, pool i / su - (∑ i ∈ Finset.range n, used i) / su < ∑ i ∈ Finset.range n, ratio i := by
  have hdiv : (∑ i ∈ Finset.range n, used i) / su = ∑ i ∈ Finset.range n, used i / su :=
    Nat.sum_div fun i hi => (h i (Finset.mem_range.mp hi)).1
  have hle : ∑ i ∈ Finset.range n, used i / su ≤ ∑ i ∈ Finset.range n, pool i / su := by
    apply Finset.sum_le_sum
    intro i hi
    exact Nat.div_le_div_right (h i (Finset.mem_range.mp hi)).2.1
  have hlt : ∑ i ∈ Finset.range n, pool i / su < ∑ i ∈ Finset.range n, (ratio i + used i / su) := by
    apply Finset.sum_lt_sum_of_nonempty (Finset.nonempty_range_iff.mpr (Nat.pos_iff_ne_zero.mp hn))
    intro i hi
    obtain ⟨⟨k, hk⟩, hfit, hshort⟩ := h i (Finset.mem_range.mp hi)
    rw [hk, Nat.mul_div_cancel_left _ hu]
    rw [Nat.div_lt_iff_lt_mul hu, Nat.add_mul, Nat.mul_comm k]
    omega
  rw [Finset.sum_add_distrib] at hlt
  rw [hdiv]
  omega

/-- The engines use of every pool what the planner promises, but for less than a turn of each disk. -/
theorem plannerCalculate_agrees (d : Disks) (disks : List DiskId) (hmin : minDisks ≤ disks.length)
    (hmax : disks.length ≤ maxDisks)
    (hpool : ∀ i ∈ disks, (d.info i).poolBytes ≤ 2^56) :
    (∃ v, ∃ used : ℕ → ℕ, stripeVolumeCreate d disks (1024 * 1024) = some v ∧
      (∀ i q, (∃ vo, mapSingleByte v vo = some (i, q)) ↔ i < disks.length ∧ q < used i) ∧
      (∀ i < disks.length, used i ≤ poolSize d disks i ∧
        poolSize d disks i - used i < ratioOf d disks i * (1024 * 1024)) ∧
      v.virtualTotalBytes = ∑ i ∈ Finset.range disks.length, used i ∧
      v.virtualTotalBytes % (1024 * 1024) = 0 ∧
      v.virtualTotalBytes / (1024 * 1024) ≤ (plannerCalculate (plannerDisks d disks)).raid0CapacityMb ∧
      (plannerCalculate (plannerDisks d disks)).raid0CapacityMb - v.virtualTotalBytes / (1024 * 1024) <
        ∑ i ∈ Finset.range disks.length, ratioOf d disks i) ∧
    ∃ w e, mirrorVolumeCreate d disks = some (w, e) ∧
      (plannerCalculate (plannerDisks d disks)).raid1CapacityMb = w.virtualTotalBytes / (1024 * 1024) := by
  have hcount : ¬ (disks.length < minDisks ∨ maxDisks < disks.length) := by omega
  constructor
  · obtain ⟨v, hv, hsu⟩ : ∃ v, stripeVolumeCreate d disks (1024 * 1024) = some v ∧ v.stripeUnit = 1024 * 1024 := by
      unfold stripeVolumeCreate
      rw [if_neg hcount]
      exact ⟨_, rfl, rfl⟩
    obtain ⟨_, _, _, hn, _⟩ := stripeVolumeCreate_spec (by decide) (by decide) hpool hv
    obtain ⟨used, hp, hshort⟩ := stripeVolumeCreate_packed (by decide) (by decide) hpool hv
    have himage := hp.image
    have hfits := hp.fits
    have hunits := hp.units
    have htotal := hp.total
    rw [hsu] at hunits
    rw [hn] at himage hfits hunits htotal
    refine ⟨v, used, hv, himage, fun i hi => ⟨hfits i hi, hshort i hi⟩, htotal, ?_, ?_⟩
    · rw [htotal]
      apply Nat.mod_eq_zero_of_dvd
      apply Finset.dvd_sum
      intro i hi
      exact hunits i (Finset.mem_range.mp hi)
    · rw [htotal, raid0Capacity_eq d hmin hmax hpool]
      exact units_close (Nat.lt_of_lt_of_le (by decide) hmin) (by decide)
        fun i hi => ⟨hunits i hi, hfits i hi, hshort i hi⟩
  · rw [raid1Capacity_eq d hmin hpool]
    unfold mirrorVolumeCreate
    rw [if_neg (show ¬ (disks.length < minMirrorDisks ∨ maxDisks < disks.length) from hcount)]
    refine ⟨_, _, rfl, ?_⟩
    simp only [sectorSize]
    omega

/-- Pools of 1000.5, 500 and 300 MiB at 300, 100 and 50 MB/s. -/
def unevenPools : Disks :=
  ⟨fun i => ⟨[1049100288, 524288000, 314572800].getD i 0, [300, 100, 50].getD i 0, 0, false, true, false, false, 0, true⟩,
    fun _ _ => 0⟩

theorem plannerCalculate_agrees_sample : ∃ v, stripeVolumeCreate unevenPools [0, 1, 2] (1024 * 1024) = some v ∧
    (plannerCalculate (plannerDisks unevenPools [0, 1, 2])).raid0CapacityMb - v.virtualTotalBytes / (1024 * 1024) <
      ∑ i ∈ Finset.range 3, ratioOf unevenPools [0, 1, 2] i := by
  obtain ⟨⟨v, _, hv, _, _, _, _, _, hlt⟩, _⟩ := plannerCalculate_agrees unevenPools [0, 1, 2] (by decide) (by decide)
    (by decide)
  exact ⟨v, hv, hlt⟩

end RaidTest.Service
