import RaidTest.Stripe.Accounting
import RaidTest.Stripe.FlatArray

/-!
# The mapping is a bijection onto the used pool space

Each pool is used from its first byte on without a gap. Every used byte holds exactly one
virtual byte.
-/

namespace RaidTest.Stripe
open RaidTest.Base

/-! ### The lanes of a phase are full -/

theorem at_surj {su n : ℕ} {ph : MappingPhase} (h : PhaseOk su n ph) {j r : ℕ} (hj : j < ph.activeCount)
    (hr : r < lane su ph j) : ∃ x < ph.virtualSizeBytes, At su ph x j r := by
  unfold lane at hr
  by_cases h1 : ph.activeCount = 1
  · rw [if_pos h1] at hr
    exact ⟨r, hr, hj, by rw [if_pos h1]⟩
  rw [if_neg h1] at hr
  have hturn : 0 < ph.ratios j * su := by
    rcases Nat.eq_zero_or_pos (ph.ratios j * su) with hz | hpos
    · rw [hz, Nat.mul_zero] at hr
      omega
    · exact hpos
  have hcycle := h.cycle_pos h1
  -- turn `r / w` of the member, byte `r % w` of it
  have hturns : r / (ph.ratios j * su) < ph.virtualSizeBytes / ph.cycleSizeBytes :=
    (Nat.div_lt_iff_lt_mul hturn).mpr hr
  have hbyte := Nat.mod_lt r hturn
  have hsegment : (before ph.ratios j + ph.ratios j) * su ≤ ph.cycleSizeBytes := by
    rw [h.cycle, ← before_succ]
    exact Nat.mul_le_mul_right su (before_mono _ hj)
  rw [Nat.add_mul] at hsegment
  have hin : before ph.ratios j * su + r % (ph.ratios j * su) < ph.cycleSizeBytes := by omega
  refine ⟨ph.cycleSizeBytes * (r / (ph.ratios j * su)) + (before ph.ratios j * su + r % (ph.ratios j * su)), ?_, hj, ?_⟩
  · have hlt := turn_lt hturns hin
    rw [Nat.div_mul_cancel (h.whole h1), Nat.mul_comm] at hlt
    exact hlt
  · rw [if_neg h1, Nat.mul_add_mod, Nat.mod_eq_of_lt hin, Nat.mul_add_div hcycle, Nat.div_eq_of_lt hin, Nat.add_zero]
    refine ⟨⟨Nat.le_add_right _ _, ?_⟩, ?_⟩
    · rw [Nat.add_mul]
      omega
    · rw [Nat.add_sub_cancel_left]
      exact (Nat.div_add_mod' r (ph.ratios j * su)).symm

/-! ### Packed volumes -/

/-- Member `i` has a pool of `pool i` bytes, of which the layout uses the first `used i`. -/
structure Packed (v : StripeVolume) (pool used : ℕ → ℕ) : Prop where
  laid : Laid v
  fits : ∀ i < v.diskCount, used i ≤ pool i
  units : ∀ i < v.diskCount, v.stripeUnit ∣ used i
  total : v.virtualTotalBytes = ∑ i ∈ Finset.range v.diskCount, used i
  inside : ∀ p < v.phaseCount, ∀ j < (v.phases p).activeCount,
    (v.phases p).physicalStartsBytes j + lane v.stripeUnit (v.phases p) j ≤ used ((v.phases p).activeDiskIndices j)
  covered : ∀ i < v.diskCount, ∀ q < used i, ∃ p < v.phaseCount, ∃ j < (v.phases p).activeCount,
    (v.phases p).activeDiskIndices j = i ∧ (v.phases p).physicalStartsBytes j ≤ q ∧
      q < (v.phases p).physicalStartsBytes j + lane v.stripeUnit (v.phases p) j

theorem mapSingleByte_lt {v : StripeVolume} {vo : ℕ} {loc : ℕ × ℕ} (h : mapSingleByte v vo = some loc) :
    vo < v.virtualTotalBytes := by
  by_contra hge
  rw [mapSingleByte, if_pos (by omega)] at h
  cases h

theorem Packed.image {v : StripeVolume} {pool used : ℕ → ℕ} (h : Packed v pool used) (i q : ℕ) :
    (∃ vo, mapSingleByte v vo = some (i, q)) ↔ i < v.diskCount ∧ q < used i := by
  constructor
  · rintro ⟨vo, hvo⟩
    obtain ⟨p, j, r, hp, ha⟩ := h.laid.place_exists (mapSingleByte_lt hvo)
    have he := (mapSingleByte_eq h.laid hp ha).symm.trans hvo
    obtain ⟨rfl, rfl⟩ := Prod.mk.inj (Option.some.inj he)
    have h1 := hp.2.1
    have h2 := hp.2.2
    have hl := at_lane (h.laid.phaseOk hp.1) (by omega) ha
    have hin := h.inside p hp.1 j ha.1
    exact ⟨(h.laid.phaseOk hp.1).members j ha.1, by omega⟩
  · rintro ⟨hi, hq⟩
    obtain ⟨p, hp, j, hj, rfl, hlo, hhi⟩ := h.covered i hi q hq
    obtain ⟨x, hx, ha⟩ := at_surj (h.laid.phaseOk hp) hj
      (show q - (v.phases p).physicalStartsBytes j < lane v.stripeUnit (v.phases p) j by omega)
    refine ⟨(v.phases p).virtualStartBytes + x, ?_⟩
    have hplace : InPhase v ((v.phases p).virtualStartBytes + x) p := ⟨hp, Nat.le_add_right _ _, by omega⟩
    have hoff : (v.phases p).virtualStartBytes + x - (v.phases p).virtualStartBytes = x := Nat.add_sub_cancel_left ..
    rw [mapSingleByte_eq h.laid hplace (by rw [hoff]; exact ha), Nat.add_sub_cancel' hlo]

/-! ### Created and expanded volumes are packed -/

/-- The pools of disks in their order. -/
def poolSize (d : Disks) (disks : List DiskId) (i : ℕ) : ℕ := (d.info (disks.getD i 0)).poolBytes

/-- The ratios of disks in their order. -/
def ratioOf (d : Disks) (disks : List DiskId) : ℕ → ℕ :=
  (normalizeRatios (fun k => speedOf (d.info (disks.getD k 0))) disks.length).1

theorem layoutInit_exact {su base virt count : ℕ} (d : Disks) {disks : List DiskId} {phases : ℕ → MappingPhase}
    (hpool : ∀ i ∈ disks, (d.info i).poolBytes ≤ 2^56) (hfew : count + disks.length ≤ maxDisks)
    (h : PhasesOk su base count phases virt) :
    LoopExact su base disks.length (poolSize d disks) (ratioOf d disks) virt count phases
      (layoutInit d disks count phases virt) where
  inv := layoutInit_inv d disks phases ((Nat.le_add_left _ _).trans hfew) hpool ((Nat.le_add_right _ _).trans hfew) h
  ratios := by
    intro x hx
    obtain ⟨i, _, rfl⟩ := List.mem_map.mp hx
    rfl
  balance := by
    intro x _
    exact Nat.zero_add _
  units := fun _ _ => Nat.dvd_zero su
  virt := by
    simp only [layoutInit, Finset.sum_const_zero, Nat.add_zero]
  dropped := by
    intro i hi hni
    exact absurd (List.mem_map.mpr ⟨_, List.mem_map.mpr ⟨i, List.mem_range.mpr hi, rfl⟩, rfl⟩) hni
  covered := by
    intro i _ q hq
    exact absurd hq (Nat.not_lt_zero q)
  started := Nat.le_refl _
  old := fun _ _ => rfl
  fresh := by
    intro p hp hp0
    exact absurd hp (Nat.not_lt.mpr hp0)
  turns := by
    simp only [layoutInit, List.length_map, List.length_range]
    exact hfew

/-- What the loop makes of `m` disks. -/
theorem layout_exact {su base virt count : ℕ} (hu : 0 < su) (d : Disks) {disks : List DiskId}
    {phases : ℕ → MappingPhase} (hpool : ∀ i ∈ disks, (d.info i).poolBytes ≤ 2^56)
    (hfew : count + disks.length ≤ maxDisks) (h : PhasesOk su base count phases virt) :
    let s := layoutLoop base su layoutFuel (layoutInit d disks count phases virt)
    LoopExact su base disks.length (poolSize d disks) (ratioOf d disks) virt count phases s ∧
      ∀ i < disks.length, s.usedPhys i ≤ poolSize d disks i ∧
        poolSize d disks i - s.usedPhys i < ratioOf d disks i * su := by
  apply layoutLoop_exact hu layoutFuel (layoutInit_exact d hpool hfew h)
  simp only [layoutInit, List.length_map, List.length_range, layoutFuel, maxDisks] at hfew ⊢
  omega

theorem stripeVolumeCreate_packed {d : Disks} {disks : List DiskId} {su : ℕ} {v : StripeVolume} (hu : 0 < su)
    (hlt : su < 2^32) (hpool : ∀ i ∈ disks, (d.info i).poolBytes ≤ 2^56) (h : stripeVolumeCreate d disks su = some v) :
    ∃ used, Packed v (poolSize d disks) used ∧
      ∀ i < disks.length, poolSize d disks i - used i < ratioOf d disks i * su := by
  obtain ⟨hlaid, _, _, hcount, hfew, _⟩ := stripeVolumeCreate_spec hu hlt hpool h
  have hexact := layout_exact hu d hpool (by omega)
    (show PhasesOk su 0 0 (fun _ => .zero) 0 from phasesOk_empty su 0 _)
  unfold stripeVolumeCreate at h
  split at h
  · cases h
  obtain rfl := Option.some.inj h
  generalize layoutLoop 0 su layoutFuel (layoutInit d disks 0 (fun _ => .zero) 0) = s at hexact hlaid
  obtain ⟨hs, hused⟩ := hexact
  refine ⟨s.usedPhys, ⟨hlaid, fun i hi => (hused i hi).1, hs.units, ?_, ?_, ?_⟩, fun i hi => (hused i hi).2⟩
  · have hv := hs.virt
    rw [Nat.zero_add] at hv
    exact hv
  · intro p hp j hj
    have hm := (hlaid.phaseOk hp).members j hj
    have hu := hs.inv.used p hp j hj _ hm (Nat.zero_add _).symm
    exact hu
  · intro i hi q hq
    obtain ⟨p, hp, _, j, hj, hidx, hlo, hhi⟩ := hs.covered i hi q hq
    rw [Nat.zero_add] at hidx
    exact ⟨p, hp, j, hj, hidx, hlo, hhi⟩

/-! ### An expansion keeps the mapping -/

theorem layoutStep_phases {base su : ℕ} {s t : LayoutState} (h : layoutStep base su s = some t) :
    s.phaseCount ≤ t.phaseCount ∧ ∀ p < s.phaseCount, t.phases p = s.phases p := by
  have hold : ∀ (ph : MappingPhase), ∀ p < s.phaseCount, (if p = s.phaseCount then ph else s.phases p) = s.phases p :=
    fun ph p hp => if_neg (Nat.ne_of_lt hp)
  cases layoutStep_turn h with
  | last => exact ⟨Nat.le_succ _, hold _⟩
  | drops => exact ⟨Nat.le_refl _, fun _ _ => rfl⟩
  | cycles => exact ⟨Nat.le_succ _, hold _⟩

theorem layoutLoop_phases (base su fuel : ℕ) :
    ∀ s : LayoutState, s.phaseCount ≤ (layoutLoop base su fuel s).phaseCount ∧
      ∀ p < s.phaseCount, (layoutLoop base su fuel s).phases p = s.phases p := by
  induction fuel with
  | zero => intro s; exact ⟨Nat.le_refl _, fun _ _ => rfl⟩
  | succ fuel ih =>
    intro s
    unfold layoutLoop
    split
    · cases hst : layoutStep base su s with
      | none => exact ⟨Nat.le_refl _, fun _ _ => rfl⟩
      | some t =>
        obtain ⟨h1, h2⟩ := layoutStep_phases hst
        obtain ⟨h3, h4⟩ := ih t
        exact ⟨h1.trans h3, fun p hp => (h4 p (by omega)).trans (h2 p hp)⟩
    · exact ⟨Nat.le_refl _, fun _ _ => rfl⟩

theorem stripeVolumeExpand_phases {d : Disks} {new : List DiskId} {v w : StripeVolume}
    (h : stripeVolumeExpand d v new = some w) :
    w.stripeUnit = v.stripeUnit ∧ v.phaseCount ≤ w.phaseCount ∧ ∀ p < v.phaseCount, w.phases p = v.phases p := by
  unfold stripeVolumeExpand at h
  split at h
  · cases h
  split at h
  · cases h
  obtain rfl := Option.some.inj h
  exact ⟨rfl, layoutLoop_phases v.diskCount v.stripeUnit layoutFuel
    (layoutInit d new v.phaseCount v.phases v.virtualTotalBytes)⟩

/-- Every byte the volume had is mapped as before. -/
theorem stripeVolumeExpand_old {d : Disks} {new : List DiskId} {v w : StripeVolume} (hv : Laid v)
    (hpool : ∀ i ∈ new, (d.info i).poolBytes ≤ 2^56) (h : stripeVolumeExpand d v new = some w) :
    ∀ x < v.virtualTotalBytes, mapSingleByte w x = mapSingleByte v x := by
  obtain ⟨hw, _⟩ := stripeVolumeExpand_spec hv hpool h
  obtain ⟨hunit, hcount, hphases⟩ := stripeVolumeExpand_phases h
  intro x hx
  obtain ⟨p, j, r, hp, ha⟩ := hv.place_exists hx
  have hold := hphases p hp.1
  have hp' : InPhase w x p := by
    refine ⟨Nat.lt_of_lt_of_le hp.1 hcount, ?_⟩
    rw [hold]
    exact hp.2
  have ha' : At w.stripeUnit (w.phases p) (x - (w.phases p).virtualStartBytes) j r := by
    rw [hold, hunit]
    exact ha
  rw [mapSingleByte_eq hv hp ha, mapSingleByte_eq hw hp' ha', hold]

/-- `f` for the members a volume had, `g` for those behind them. -/
def behind (n : ℕ) (f g : ℕ → ℕ) (i : ℕ) : ℕ := if i < n then f i else g (i - n)

theorem behind_old {n i : ℕ} (f g : ℕ → ℕ) (h : i < n) : behind n f g i = f i := if_pos h

theorem behind_new {n : ℕ} (f g : ℕ → ℕ) (i : ℕ) : behind n f g (n + i) = g i := by
  unfold behind
  rw [if_neg (by omega), Nat.add_sub_cancel_left]

theorem sum_behind (n m : ℕ) (f g : ℕ → ℕ) :
    ∑ i ∈ Finset.range (n + m), behind n f g i = ∑ i ∈ Finset.range n, f i + ∑ i ∈ Finset.range m, g i := by
  rw [Finset.sum_range_add]
  congr 1
  · exact Finset.sum_congr rfl fun i hi => behind_old f g (Finset.mem_range.mp hi)
  · exact Finset.sum_congr rfl fun i _ => behind_new f g i

theorem stripeVolumeExpand_packed {d : Disks} {new : List DiskId} {v w : StripeVolume} {pool used : ℕ → ℕ}
    (hv : Packed v pool used) (hpool : ∀ i ∈ new, (d.info i).poolBytes ≤ 2^56)
    (h : stripeVolumeExpand d v new = some w) :
    (∃ more, Packed w (behind v.diskCount pool (poolSize d new)) (behind v.diskCount used more)) ∧
      ∀ p < w.phaseCount, v.phaseCount ≤ p → ∀ j < (w.phases p).activeCount,
        v.diskCount ≤ (w.phases p).activeDiskIndices j := by
  obtain ⟨hlaid, _⟩ := stripeVolumeExpand_spec hv.laid hpool h
  obtain ⟨hunit, hcount, hphases⟩ := stripeVolumeExpand_phases h
  unfold stripeVolumeExpand at h
  split at h
  · cases h
  split at h
  · cases h
  next hn =>
  simp only [not_or, Nat.not_lt] at hn
  have hexact := layout_exact hv.laid.unit d hpool hn.2 hv.laid.phases
  obtain rfl := Option.some.inj h
  simp only at hphases hlaid hcount ⊢
  generalize layoutLoop v.diskCount v.stripeUnit layoutFuel
    (layoutInit d new v.phaseCount v.phases v.virtualTotalBytes) = s at hexact hphases hlaid hcount
  obtain ⟨hs, hused⟩ := hexact
  refine ⟨⟨s.usedPhys, hlaid, ?_, ?_, ?_, ?_, ?_⟩, hs.fresh⟩
  · intro i hi
    by_cases hold : i < v.diskCount
    · rw [behind_old _ _ hold, behind_old _ _ hold]
      exact hv.fits i hold
    · obtain ⟨k, rfl⟩ := Nat.exists_eq_add_of_le (Nat.not_lt.mp hold)
      rw [behind_new, behind_new]
      exact (hused k (Nat.lt_of_add_lt_add_left hi)).1
  · intro i hi
    by_cases hold : i < v.diskCount
    · rw [behind_old _ _ hold]
      exact hv.units i hold
    · obtain ⟨k, rfl⟩ := Nat.exists_eq_add_of_le (Nat.not_lt.mp hold)
      rw [behind_new]
      exact hs.units k (Nat.lt_of_add_lt_add_left hi)
  · have ht := hs.virt
    rw [hv.total] at ht
    rw [sum_behind]
    exact ht
  · intro p hp j hj
    by_cases hold : p < v.phaseCount
    · simp only [hphases p hold] at hj ⊢
      have hm := (hv.laid.phaseOk hold).members j hj
      rw [behind_old _ _ hm]
      exact hv.inside p hold j hj
    · have hm := (hlaid.phaseOk hp).members j hj
      obtain ⟨k, hk⟩ := Nat.exists_eq_add_of_le (hs.fresh p hp (Nat.not_lt.mp hold) j hj)
      have hlt : k < new.length := by
        change (s.phases p).activeDiskIndices j < v.diskCount + new.length at hm
        omega
      rw [hk, behind_new]
      exact hs.inv.used p hp j hj k hlt hk
  · intro i hi q hq
    by_cases hold : i < v.diskCount
    · rw [behind_old _ _ hold] at hq
      obtain ⟨p, hp, j, hplace⟩ := hv.covered i hold q hq
      refine ⟨p, Nat.lt_of_lt_of_le hp hcount, j, ?_⟩
      simp only [hphases p hp]
      exact hplace
    · obtain ⟨k, rfl⟩ := Nat.exists_eq_add_of_le (Nat.not_lt.mp hold)
      rw [behind_new] at hq
      obtain ⟨p, hp, _, j, hplace⟩ := hs.covered k (Nat.lt_of_add_lt_add_left hi) q hq
      exact ⟨p, hp, j, hplace⟩

/-! ### Volumes grown step by step -/

/-- `stripe_volume_create` and the expansions that succeed after it, each with the disks as they
are then. -/
def growVolume (d : Disks) (disks : List DiskId) (stripeUnit : ℕ) (more : List (Disks × List DiskId)) :
    Option StripeVolume :=
  (stripeVolumeCreate d disks stripeUnit).bind fun v => more.foldlM (fun v x => stripeVolumeExpand x.1 v x.2) v

/-- The pools of the members in their order. -/
def grownPools (d : Disks) (disks : List DiskId) (more : List (Disks × List DiskId)) : List ℕ :=
  disks.map (fun i => (d.info i).poolBytes) ++ more.flatMap fun x => x.2.map fun i => (x.1.info i).poolBytes

theorem poolSize_eq (d : Disks) (disks : List DiskId) (i : ℕ) (h : i < disks.length) :
    poolSize d disks i = (disks.map fun i => (d.info i).poolBytes).getD i 0 := by
  unfold poolSize
  rw [List.getD_eq_getElem _ _ h, List.getD_eq_getElem _ _ (by rw [List.length_map]; exact h), List.getElem_map]

theorem Packed.congr {v : StripeVolume} {pool pool' used : ℕ → ℕ} (h : Packed v pool used)
    (hp : ∀ i < v.diskCount, pool i = pool' i) : Packed v pool' used :=
  { h with fits := fun i hi => hp i hi ▸ h.fits i hi }

theorem expandAll_packed (more : List (Disks × List DiskId)) {v w : StripeVolume} {sizes : List ℕ} {used : ℕ → ℕ}
    (hv : Packed v (fun i => sizes.getD i 0) used) (hcount : v.diskCount = sizes.length)
    (hpool : ∀ x ∈ more, ∀ i ∈ x.2, (x.1.info i).poolBytes ≤ 2^56)
    (h : more.foldlM (fun v x => stripeVolumeExpand x.1 v x.2) v = some w) :
    ∃ used', Packed w (fun i =>
      (sizes ++ more.flatMap fun x => x.2.map fun i => (x.1.info i).poolBytes).getD i 0) used' := by
  induction more generalizing v sizes used with
  | nil =>
    obtain rfl := Option.some.inj h
    rw [List.flatMap_nil, List.append_nil]
    exact ⟨used, hv⟩
  | cons x more ih =>
    rw [List.foldlM_cons] at h
    obtain ⟨u, hu, hw⟩ := Option.bind_eq_some_iff.mp h
    have hx := hpool x (List.mem_cons_self ..)
    obtain ⟨_, _, _, hn, _⟩ := stripeVolumeExpand_spec hv.laid hx hu
    obtain ⟨⟨more', hp⟩, _⟩ := stripeVolumeExpand_packed hv hx hu
    have hsizes : Packed u (fun i => (sizes ++ x.2.map fun i => (x.1.info i).poolBytes).getD i 0)
        (behind v.diskCount used more') := by
      apply hp.congr
      intro i hi
      by_cases hold : i < v.diskCount
      · rw [behind_old _ _ hold, List.getD_append _ _ _ _ (hcount ▸ hold)]
      · obtain ⟨k, rfl⟩ := Nat.exists_eq_add_of_le (Nat.not_lt.mp hold)
        rw [behind_new, List.getD_append_right _ _ _ _ (by omega), poolSize_eq _ _ _ (by omega)]
        congr 1
        omega
    rw [List.flatMap_cons, ← List.append_assoc]
    apply ih hsizes
    · rw [hn, hcount, List.length_append, List.length_map]
    · intro y hy
      exact hpool y (List.mem_cons_of_mem _ hy)
    · exact hw

theorem growVolume_packed {d : Disks} {disks : List DiskId} {su : ℕ} {more : List (Disks × List DiskId)}
    {v : StripeVolume} (hu : 0 < su) (hlt : su < 2^32) (hpool : ∀ b ∈ grownPools d disks more, b ≤ 2^56)
    (h : growVolume d disks su more = some v) :
    ∃ used, Packed v (fun i => (grownPools d disks more).getD i 0) used := by
  obtain ⟨u, hc, hm⟩ := Option.bind_eq_some_iff.mp h
  have hfirst : ∀ i ∈ disks, (d.info i).poolBytes ≤ 2^56 := by
    intro i hi
    exact hpool _ (List.mem_append_left _ (List.mem_map_of_mem hi))
  obtain ⟨_, _, _, hcount, _⟩ := stripeVolumeCreate_spec hu hlt hfirst hc
  obtain ⟨used, hp, _⟩ := stripeVolumeCreate_packed hu hlt hfirst hc
  refine expandAll_packed more (hp.congr fun i hi => poolSize_eq d disks i (hcount ▸ hi)) ?_ ?_ hm
  · rw [hcount, List.length_map]
  · intro x hx i hi
    exact hpool _ (List.mem_append_right _ (List.mem_flatMap.mpr ⟨x, hx, List.mem_map_of_mem hi⟩))

/-- The mapping is a bijection from the virtual bytes onto the used bytes of the pools, which
are the first `used i` of every member. -/
theorem mapSingleByte_bijective (d : Disks) (disks : List DiskId) (su : ℕ) (more : List (Disks × List DiskId))
    {v : StripeVolume} (hu : 0 < su) (hlt : su < 2^32) (hpool : ∀ b ∈ grownPools d disks more, b ≤ 2^56)
    (h : growVolume d disks su more = some v) :
    (∀ vo, (mapSingleByte v vo).isSome = true ↔ vo < v.virtualTotalBytes) ∧
    (∀ x y loc, mapSingleByte v x = some loc → mapSingleByte v y = some loc → x = y) ∧
    (∀ vo i q, mapSingleByte v vo = some (i, q) → i < v.diskCount ∧ q < (grownPools d disks more).getD i 0) ∧
    ∃ used : ℕ → ℕ, v.virtualTotalBytes = ∑ i ∈ Finset.range v.diskCount, used i ∧
      ∀ i q, (∃ vo, mapSingleByte v vo = some (i, q)) ↔ i < v.diskCount ∧ q < used i := by
  obtain ⟨used, hp⟩ := growVolume_packed hu hlt hpool h
  refine ⟨fun vo => ⟨?_, ?_⟩, fun x y loc => mapSingleByte_inj hp.laid, ?_, used, hp.total, hp.image⟩
  · intro hs
    obtain ⟨loc, hloc⟩ := Option.isSome_iff_exists.mp hs
    exact mapSingleByte_lt hloc
  · intro hvo
    obtain ⟨i, q, he⟩ := mapSingleByte_isSome hp.laid hvo
    rw [he]
    rfl
  · intro vo i q he
    obtain ⟨hi, hq⟩ := (hp.image i q).mp ⟨vo, he⟩
    exact ⟨hi, Nat.lt_of_lt_of_le hq (hp.fits i hi)⟩

def grownSample : StripeVolume := (growVolume sampleDisks [0, 1] 512 [(sampleDisks, [2])]).getD .zero

theorem mapSingleByte_bijective_sample :
    (∀ vo, (mapSingleByte grownSample vo).isSome = true ↔ vo < grownSample.virtualTotalBytes) ∧
      ∀ x y loc, mapSingleByte grownSample x = some loc → mapSingleByte grownSample y = some loc → x = y :=
  have h := mapSingleByte_bijective sampleDisks [0, 1] 512 [(sampleDisks, [2])] (v := grownSample) (by decide)
    (by decide) (by decide) rfl
  ⟨h.1, h.2.1⟩

/-! ### An expansion adds to the volume -/

/-- `stripe_volume_expand` on the volume it changes; it returns `false` before it writes to it. -/
def expandInPlace (d : Disks) (v : StripeVolume) (newDisks : List DiskId) : Bool × StripeVolume :=
  match stripeVolumeExpand d v newDisks with
  | none => (false, v)
  | some w => (true, w)

/-- The bytes behind the old ones are on the new disks. -/
theorem stripeVolumeExpand_new {d : Disks} {new : List DiskId} {v w : StripeVolume} {pool used : ℕ → ℕ}
    (hv : Packed v pool used) (hpool : ∀ i ∈ new, (d.info i).poolBytes ≤ 2^56)
    (h : stripeVolumeExpand d v new = some w) {vo : ℕ} (hvo : v.virtualTotalBytes ≤ vo) {loc : ℕ × ℕ}
    (hloc : mapSingleByte w vo = some loc) : v.diskCount ≤ loc.1 := by
  obtain ⟨hw, _⟩ := stripeVolumeExpand_spec hv.laid hpool h
  obtain ⟨_, _, hphases⟩ := stripeVolumeExpand_phases h
  obtain ⟨_, hfresh⟩ := stripeVolumeExpand_packed hv hpool h
  obtain ⟨p, j, r, hp, ha⟩ := hw.place_exists (mapSingleByte_lt hloc)
  have hnew : v.phaseCount ≤ p := by
    by_contra hlt
    have hin : InPhase v vo p := by
      refine ⟨by omega, ?_⟩
      rw [← hphases p (by omega)]
      exact hp.2
    have := hv.laid.inPhase_lt hin
    omega
  rw [mapSingleByte_eq hw hp ha] at hloc
  obtain rfl := Option.some.inj hloc
  exact hfresh p hp.1 hnew j ha.1

/-- An expansion that succeeds keeps the old bytes where they were and puts the others on the
new disks; one that fails changes nothing. -/
theorem stripeVolumeExpand_keeps (d0 : Disks) (disks : List DiskId) (su : ℕ) (more : List (Disks × List DiskId))
    {v : StripeVolume} (hu : 0 < su) (hlt : su < 2^32) (hpool : ∀ b ∈ grownPools d0 disks more, b ≤ 2^56)
    (h : growVolume d0 disks su more = some v) (d : Disks) (new : List DiskId)
    (hnew : ∀ i ∈ new, (d.info i).poolBytes ≤ 2^56) :
    ((expandInPlace d v new).1 = true →
      (∀ vo < v.virtualTotalBytes, mapSingleByte (expandInPlace d v new).2 vo = mapSingleByte v vo) ∧
      (∀ vo, v.virtualTotalBytes ≤ vo → vo < (expandInPlace d v new).2.virtualTotalBytes →
        ∃ i q, mapSingleByte (expandInPlace d v new).2 vo = some (i, q) ∧ v.diskCount ≤ i) ∧
      (expandInPlace d v new).2.phaseCount ≤ maxDisks) ∧
    ((expandInPlace d v new).1 = false → (expandInPlace d v new).2 = v) := by
  obtain ⟨used, hp⟩ := growVolume_packed hu hlt hpool h
  unfold expandInPlace
  cases he : stripeVolumeExpand d v new with
  | none => exact ⟨nofun, fun _ => rfl⟩
  | some w =>
    obtain ⟨hw, _⟩ := stripeVolumeExpand_spec hp.laid hnew he
    refine ⟨fun _ => ⟨stripeVolumeExpand_old hp.laid hnew he, fun vo hvo hend => ?_, hw.count⟩, nofun⟩
    obtain ⟨i, q, hloc⟩ := mapSingleByte_isSome hw hend
    exact ⟨i, q, hloc, stripeVolumeExpand_new hp hnew he hvo hloc⟩

/-- Disks of 1 MiB, 2^63, 2^63 and 4 MiB bytes. -/
def hugeDisks : Disks :=
  ⟨fun i => ⟨[1048576, 9223372036854775808, 9223372036854775808, 4194304].getD i 0, 0, 0, false, true, false, false, 0,
    true⟩, fun _ _ => 0⟩

/-- With more than 2^64 bytes of pools the virtual size wraps round, and the first bytes behind
it are still mapped by an old phase. -/
theorem stripeVolumeExpand_keeps_fails : ∃ v, growVolume hugeDisks [0, 1, 2] 1048576 [] = some v ∧
    (expandInPlace hugeDisks v [3]).1 = true ∧ v.diskCount = 3 ∧ v.virtualTotalBytes = 1048576 ∧
    1048576 < (expandInPlace hugeDisks v [3]).2.virtualTotalBytes ∧
    mapSingleByte (expandInPlace hugeDisks v [3]).2 1048576 = some (1, 0) := by
  refine ⟨_, rfl, ?_⟩
  decide +kernel

theorem stripeVolumeExpand_keeps_sample :
    mapSingleByte (expandInPlace sampleDisks grownSample [3]).2 1000 = mapSingleByte grownSample 1000 :=
  ((stripeVolumeExpand_keeps sampleDisks [0, 1] 512 [(sampleDisks, [2])] (v := grownSample) (by decide) (by decide)
    (by decide) rfl sampleDisks [3] (by decide)).1 (by decide)).1 1000 (by decide)

end RaidTest.Stripe
