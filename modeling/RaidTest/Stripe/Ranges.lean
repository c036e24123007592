import RaidTest.Stripe.LayoutLoop
import RaidTest.Stripe.Mapping

/-!
# The numbers of a layout are those of its C types

The layout loop counts in machine integers. Its phases stay in their ranges for pools of any
size, also where the product of a pool and the ratios wraps round.
-/

namespace RaidTest.Stripe

/-- The numbers of a phase fit their C types; only the entries in use count. -/
structure PhaseFits (ph : MappingPhase) : Prop where
  active : ph.activeCount ≤ maxDisks
  nonempty : 0 < ph.activeCount
  index : ∀ i < ph.activeCount, ph.activeDiskIndices i < 2^32
  ratio : ∀ i < ph.activeCount, ph.ratios i < 2^32
  start : ph.virtualStartBytes < 2^64
  size : ph.virtualSizeBytes < 2^64
  physical : ∀ i < ph.activeCount, ph.physicalStartsBytes i < 2^64
  cycle : ph.cycleSizeBytes < 2^64

structure LoopFits (m : ℕ) (s : LayoutState) : Prop where
  rem : RemOk m s.rem
  room : ∀ i < m, s.usedPhys i + s.remainingPhys i < 2^64
  count : s.phaseCount ≤ maxDisks
  phases : ∀ p < s.phaseCount, PhaseFits (s.phases p)
  virt : s.virtOffset < 2^64

section Loop
variable {su base m : ℕ}

theorem LoopFits.phase {s : LayoutState} (h : LoopFits m s) (hu : su < 2^32) (hm : base + m < 2^32) {size : ℕ}
    (hne : s.rem ≠ []) (hsize : size < 2^64) : PhaseFits (s.phase base su size) := by
  have hmem : ∀ j < s.rem.length, s.rem.getD j (0, 0) ∈ s.rem := fun j hj => getD_mem hj
  constructor
  · exact h.rem.length
  · exact List.length_pos_iff.mpr hne
  · intro j hj
    have hlt := h.rem.inRange _ (hmem j hj)
    simp only [LayoutState.phase]
    omega
  · intro j hj
    have hle := h.rem.le _ (hmem j hj)
    simp only [LayoutState.phase]
    omega
  · exact h.virt
  · exact hsize
  · intro j hj
    have hlt := h.room _ (h.rem.inRange _ (hmem j hj))
    simp only [LayoutState.phase]
    omega
  · have htotal : s.totalRatio * su ≤ 128 * su := Nat.mul_le_mul_right su (total_le h.rem)
    simp only [LayoutState.phase]
    omega

theorem layoutStep_fits {s t : LayoutState} (hu : su < 2^32) (hm : base + m < 2^32) (h : LoopFits m s)
    (hc : s.phaseCount < maxDisks) (hs : layoutStep base su s = some t) : LoopFits m t := by
  have hvirt : ∀ n, u64 n < 2^64 := fun n => Nat.mod_lt n (by decide)
  have hphases : ∀ size, s.rem ≠ [] → size < 2^64 → ∀ p < s.phaseCount + 1,
      PhaseFits (if p = s.phaseCount then s.phase base su size else s.phases p) := by
    intro size hne hsize p hp
    split
    · exact h.phase hu hm hne hsize
    · exact h.phases p (by omega)
  cases layoutStep_turn hs with
  | last di r hrem =>
    have hne : s.rem ≠ [] := by
      rw [hrem]
      exact List.cons_ne_nil _ _
    have hdi : di < m := h.rem.inRange (di, r) (by rw [hrem]; exact List.mem_singleton.mpr rfl)
    have hroom := h.room di hdi
    constructor
    · exact h.rem.sublist (List.nil_sublist _)
    · intro i hi
      have hri := h.room i hi
      by_cases he : i = di
      · simp only [he, ite_true]
        omega
      · simp only [he, ite_false]
        exact hri
    · exact hc
    · exact hphases _ hne (by omega)
    · exact hvirt _
  | drops => exact { h with rem := h.rem.sublist (List.eraseIdx_sublist ..) }
  | cycles cycles hne _ hcyc =>
    have hle : s.best.1 ≤ 18446744073709551615 := minVirtual_le_init _ _ _ _ _
    have hsize : cycles * (s.totalRatio * su) ≤ s.best.1 := by
      rw [← hcyc]
      exact Nat.div_mul_le_self _ _
    have hfit : ∀ x ∈ s.rem, x.2 * cycles * su ≤ s.remainingPhys x.1 := by
      intro x hx
      have hf := cycles_fit s.remainingPhys su h.rem (18446744073709551615, 4294967295) hx
      rw [← hcyc]
      exact hf
    constructor
    · exact h.rem.sublist List.filter_sublist
    · intro i hi
      have hr := h.room i hi
      have htaken : (s.rem.lookup i).getD 0 * cycles * su ≤ s.remainingPhys i := by
        cases hx : s.rem.lookup i with
        | none => simp
        | some r => exact hfit (i, r) (lookup_mem hx)
      simp only [LayoutState.take]
      omega
    · exact hc
    · exact hphases _ hne (by omega)
    · exact hvirt _

theorem layoutLoop_fits (hu : su < 2^32) (hm : base + m < 2^32) (fuel : ℕ) {s : LayoutState} (h : LoopFits m s) :
    LoopFits m (layoutLoop base su fuel s) := by
  induction fuel generalizing s with
  | zero => exact h
  | succ fuel ih =>
    unfold layoutLoop
    split
    · next hg =>
      cases hs : layoutStep base su s with
      | none => exact h
      | some t => exact ih (layoutStep_fits hu hm h hg.2 hs)
    · exact h

theorem layoutInit_fits {count virt : ℕ} (d : Disks) {disks : List DiskId} {phases : ℕ → MappingPhase}
    (hl : disks.length ≤ maxDisks) (hpool : ∀ i ∈ disks, (d.info i).poolBytes < 2^64) (hc : count ≤ maxDisks)
    (hphases : ∀ p < count, PhaseFits (phases p)) (hvirt : virt < 2^64) :
    LoopFits disks.length (layoutInit d disks count phases virt) := by
  constructor
  · exact layoutInit_rem d disks phases hl
  · intro i hi
    simp only [layoutInit, Nat.zero_add, List.getD_eq_getElem disks 0 hi]
    exact hpool _ (List.getElem_mem hi)
  · exact hc
  · exact hphases
  · exact hvirt

end Loop

/-! ### Volumes -/

/-- What `MAPPING_PHASE phases[MAX_DISKS]` and the fields around it can hold. -/
structure VolumeFits (v : StripeVolume) : Prop where
  few : minDisks ≤ v.diskCount
  most : v.diskCount ≤ maxDisks
  unit : v.stripeUnit < 2^32
  total : v.virtualTotalBytes < 2^64
  count : v.phaseCount ≤ maxDisks
  phases : ∀ p < v.phaseCount, PhaseFits (v.phases p)

theorem VolumeFits.congr {v w : StripeVolume} (h : VolumeFits v) (hcount : w.diskCount = v.diskCount)
    (hunit : w.stripeUnit = v.stripeUnit) (htotal : w.virtualTotalBytes = v.virtualTotalBytes)
    (hphaseCount : w.phaseCount = v.phaseCount) (hphases : w.phases = v.phases) : VolumeFits w := by
  obtain ⟨h1, h2, h3, h4, h5, h6⟩ := h
  constructor
  · rw [hcount]; exact h1
  · rw [hcount]; exact h2
  · rw [hunit]; exact h3
  · rw [htotal]; exact h4
  · rw [hphaseCount]; exact h5
  · rw [hphaseCount, hphases]; exact h6

theorem stripeVolumeCreate_fits {d : Disks} {disks : List DiskId} {su : ℕ} {v : StripeVolume} (hu : su < 2^32)
    (hpool : ∀ i ∈ disks, (d.info i).poolBytes < 2^64) (h : stripeVolumeCreate d disks su = some v) : VolumeFits v := by
  unfold stripeVolumeCreate at h
  split at h
  · cases h
  next hn =>
  obtain rfl := Option.some.inj h
  simp only [not_or, Nat.not_lt] at hn
  have hm : maxDisks = 4 := rfl
  have hloop : LoopFits disks.length (layoutLoop 0 su layoutFuel (layoutInit d disks 0 (fun _ => .zero) 0)) :=
    layoutLoop_fits hu (by omega) layoutFuel (layoutInit_fits d hn.2 hpool (Nat.zero_le _)
      (fun p hp => absurd hp (Nat.not_lt_zero p)) (by decide))
  exact ⟨hn.1, hn.2, hu, hloop.virt, hloop.count, hloop.phases⟩

theorem stripeVolumeExpand_fits {d : Disks} {new : List DiskId} {v w : StripeVolume} (hv : VolumeFits v)
    (hpool : ∀ i ∈ new, (d.info i).poolBytes < 2^64) (h : stripeVolumeExpand d v new = some w) : VolumeFits w := by
  unfold stripeVolumeExpand at h
  split at h
  · cases h
  split at h
  · cases h
  next hn =>
  obtain rfl := Option.some.inj h
  simp only [not_or, Nat.not_lt] at hn
  have hm : maxDisks = 4 := rfl
  have hloop : LoopFits new.length (layoutLoop v.diskCount v.stripeUnit layoutFuel
      (layoutInit d new v.phaseCount v.phases v.virtualTotalBytes)) :=
    layoutLoop_fits hv.unit (by omega) layoutFuel (layoutInit_fits d (by omega) hpool hv.count hv.phases hv.total)
  exact ⟨hv.few.trans (Nat.le_add_right _ _), hn.1, hv.unit, hloop.virt, hloop.count, hloop.phases⟩

/-! ### What the mapping reads -/

/-- Two phases with the same numbers as far as they are in use. -/
structure SamePhase (a b : MappingPhase) : Prop where
  nonempty : 0 < a.activeCount
  active : b.activeCount = a.activeCount
  index : ∀ i < a.activeCount, b.activeDiskIndices i = a.activeDiskIndices i
  ratio : ∀ i < a.activeCount, b.ratios i = a.ratios i
  start : b.virtualStartBytes = a.virtualStartBytes
  size : b.virtualSizeBytes = a.virtualSizeBytes
  physical : ∀ i < a.activeCount, b.physicalStartsBytes i = a.physicalStartsBytes i
  cycle : b.cycleSizeBytes = a.cycleSizeBytes

/-- Two volumes that lay out the same bytes in the same way. -/
structure SameMap (v w : StripeVolume) : Prop where
  unit : w.stripeUnit = v.stripeUnit
  total : w.virtualTotalBytes = v.virtualTotalBytes
  count : w.phaseCount = v.phaseCount
  phases : ∀ p < v.phaseCount, SamePhase (v.phases p) (w.phases p)

section Congruence
variable {a b : MappingPhase} {v w : StripeVolume}

theorem findSegment_same (h : SamePhase a b) (su x : ℕ) (n : ℕ) : ∀ j cum, j + n ≤ a.activeCount →
    findSegment b su x n j cum = findSegment a su x n j cum ∧
      ∀ r, findSegment a su x n j cum = some r → r.1 < a.activeCount := by
  induction n with
  | zero => intro j cum _; exact ⟨rfl, nofun⟩
  | succ n ih =>
    intro j cum hj
    obtain ⟨heq, hlt⟩ := ih (j + 1) (u32 (cum + a.ratios j)) (by omega)
    unfold findSegment
    rw [h.ratio j (by omega)]
    split
    · exact ⟨rfl, fun r hr => Option.some.inj hr ▸ (by omega)⟩
    · exact ⟨heq, hlt⟩

theorem findSegmentOf_same (h : SamePhase a b) (su di x : ℕ) (n : ℕ) : ∀ j cum, j + n ≤ a.activeCount →
    findSegmentOf b su di x n j cum = findSegmentOf a su di x n j cum ∧
      (findSegmentOf a su di x n j cum).1 < a.activeCount := by
  induction n with
  | zero => intro j cum _; exact ⟨rfl, h.nonempty⟩
  | succ n ih =>
    intro j cum hj
    have hstep := ih (j + 1) (u32 (cum + a.ratios j)) (by omega)
    unfold findSegmentOf
    rw [h.ratio j (by omega), h.index j (by omega)]
    split
    · exact ⟨rfl, by omega⟩
    · exact hstep

theorem mapInPhase_same (h : SamePhase a b) (su x : ℕ) : mapInPhase b su x = mapInPhase a su x := by
  unfold mapInPhase
  rw [h.active, h.index 0 h.nonempty, h.physical 0 h.nonempty, h.cycle]
  obtain ⟨heq, hlt⟩ := findSegment_same h su (x % a.cycleSizeBytes) a.activeCount 0 0 (Nat.le_of_eq (Nat.zero_add _))
  simp only [heq]
  cases hr : findSegment a su (x % a.cycleSizeBytes) a.activeCount 0 0 with
  | none => rfl
  | some r =>
    have hj := hlt r hr
    simp only [h.index _ hj, h.physical _ hj, h.ratio _ hj]

theorem mapPhases_same (h : SameMap v w) (vo : ℕ) (n : ℕ) : ∀ p, p + n ≤ v.phaseCount →
    mapPhases w vo n p = mapPhases v vo n p := by
  induction n with
  | zero => intro p _; rfl
  | succ n ih =>
    intro p hp
    have hph := h.phases p (by omega)
    simp only [mapPhases, hph.start, hph.size, h.unit, mapInPhase_same hph, ih (p + 1) (by omega)]

theorem mapSingleByte_same (h : SameMap v w) (vo : ℕ) : mapSingleByte w vo = mapSingleByte v vo := by
  unfold mapSingleByte
  rw [h.total, h.count, mapPhases_same h vo v.phaseCount 0 (Nat.le_of_eq (Nat.zero_add _))]

/-- The search for the current phase stays among the phases there are. -/
theorem currentPhase_same (h : SameMap v w) (vo : ℕ) (hpos : 0 < v.phaseCount) :
    SamePhase (currentPhase v vo) (currentPhase w vo) := by
  have hfold : ∀ l : List ℕ, ∀ c < v.phaseCount, (∀ p ∈ l, p < v.phaseCount) →
      l.foldl (fun c p => if vo ≥ (w.phases p).virtualStartBytes then p else c) c =
          l.foldl (fun c p => if vo ≥ (v.phases p).virtualStartBytes then p else c) c ∧
        l.foldl (fun c p => if vo ≥ (v.phases p).virtualStartBytes then p else c) c < v.phaseCount := by
    intro l
    induction l with
    | nil => exact fun c hc _ => ⟨rfl, hc⟩
    | cons p l ih =>
      intro c hc hl
      have hp := hl p (List.mem_cons_self ..)
      rw [List.foldl_cons, List.foldl_cons, (h.phases p hp).start]
      apply ih
      · split
        · exact hp
        · exact hc
      · exact fun q hq => hl q (List.mem_cons_of_mem _ hq)
  unfold currentPhase
  rw [h.count]
  obtain ⟨heq, hlt⟩ := hfold (List.range' 1 (v.phaseCount - 1)) 0 hpos (by
    intro p hp
    rw [List.mem_range'_1] at hp
    omega)
  rw [heq]
  exact h.phases _ hlt

theorem mapChunk_same (h : SameMap v w) (hpos : 0 < v.phaseCount) (vo di remaining : ℕ) :
    mapChunk w vo di remaining = mapChunk v vo di remaining := by
  have hph := currentPhase_same h vo hpos
  unfold mapChunk
  generalize currentPhase w vo = b at hph ⊢
  generalize currentPhase v vo = a at hph ⊢
  simp only [hph.active, hph.start, hph.size, hph.cycle, h.unit]
  obtain ⟨heq, hlt⟩ := findSegmentOf_same hph v.stripeUnit di (sub64 vo a.virtualStartBytes % a.cycleSizeBytes)
    a.activeCount 0 0 (Nat.le_of_eq (Nat.zero_add _))
  rw [heq, hph.ratio _ hlt]

theorem mapLbaLoop_same (h : SameMap v w) (fuel : ℕ) : ∀ vo remaining acc,
    mapLbaLoop w fuel vo remaining acc = mapLbaLoop v fuel vo remaining acc := by
  induction fuel with
  | zero => intro vo remaining acc; rfl
  | succ fuel ih =>
    intro vo remaining acc
    by_cases hpos : 0 < v.phaseCount
    · simp only [mapLbaLoop, mapSingleByte_same h, mapChunk_same h hpos, ih]
    · have hnone : mapSingleByte v vo = none := by
        rw [mapSingleByte, Nat.eq_zero_of_not_pos hpos]
        split
        · rfl
        · rfl
      simp only [mapLbaLoop, mapSingleByte_same h, hnone]

/-- Volumes with the same layout map every request alike. -/
theorem mapLba_same (h : SameMap v w) (vo length : ℕ) : mapLba w vo length = mapLba v vo length := by
  unfold mapLba
  rw [h.total]
  simp only [mapLbaLoop_same h]

end Congruence

/-! ### A layout that is read back -/

section Transfer
open RaidTest.Base
variable {a b : MappingPhase} {v w : StripeVolume}

theorem lane_same (h : SamePhase a b) (su : ℕ) {j : ℕ} (hj : j < a.activeCount) : lane su b j = lane su a j := by
  simp only [lane, h.active, h.size, h.cycle, h.ratio j hj]

theorem PhaseOk.same {su n : ℕ} (ha : PhaseOk su n a) (h : SamePhase a b) : PhaseOk su n b := by
  have hsum := before_congr h.ratio a.activeCount (Nat.le_refl _)
  constructor
  · rw [h.active]
    exact ha.active
  · intro j hj
    rw [h.active] at hj
    rw [h.index j hj]
    exact ha.members j hj
  · intro i hi j hj he
    rw [h.active] at hi hj
    rw [h.index i hi, h.index j hj] at he
    exact ha.distinct i hi j hj he
  · rw [h.cycle, h.active, hsum]
    exact ha.cycle
  · rw [h.active, hsum]
    exact ha.small
  · rw [h.size]
    exact ha.size
  · rw [h.active, h.cycle, h.size]
    exact ha.whole
  · intro j hj
    rw [h.active] at hj
    rw [h.physical j hj, lane_same h su hj]
    exact ha.room j hj

theorem Laid.same (hv : Laid v) (h : SameMap v w) (hcount : w.diskCount = v.diskCount) : Laid w := by
  have hsizes : ∀ p ≤ v.phaseCount, before (sizes w.phases) p = before (sizes v.phases) p :=
    before_congr fun p hp => (h.phases p hp).size
  refine ⟨h.unit ▸ hv.unit, h.unit ▸ hv.unitLt, h.count ▸ hv.count, ?_⟩
  rw [h.unit, hcount, h.count, h.total]
  constructor
  · exact fun p hp => (hv.phases.phase p hp).same (h.phases p hp)
  · intro p hp
    rw [(h.phases p hp).start, hsizes p (Nat.le_of_lt hp)]
    exact hv.phases.starts p hp
  · rw [hsizes _ (Nat.le_refl _)]
    exact hv.phases.total
  · exact hv.phases.bounded
  · intro q hq p hpq i hi j hj he
    have hp := h.phases p (hpq.trans hq)
    have hq' := h.phases q hq
    rw [hp.active] at hi
    rw [hq'.active] at hj
    rw [hp.index i hi, hq'.index j hj] at he
    rw [hp.physical i hi, hq'.physical j hj, lane_same hp _ hi]
    exact hv.phases.apart q hq p hpq i hi j hj he

theorem SameMap.trans {u : StripeVolume} (h : SameMap u v) (g : SameMap v w) : SameMap u w := by
  refine ⟨g.unit.trans h.unit, g.total.trans h.total, g.count.trans h.count, fun p hp => ?_⟩
  have h1 := h.phases p hp
  have h2 := g.phases p (h.count.symm ▸ hp)
  constructor
  · exact h1.nonempty
  · exact h2.active.trans h1.active
  · exact fun i hi => (h2.index i (h1.active.symm ▸ hi)).trans (h1.index i hi)
  · exact fun i hi => (h2.ratio i (h1.active.symm ▸ hi)).trans (h1.ratio i hi)
  · exact h2.start.trans h1.start
  · exact h2.size.trans h1.size
  · exact fun i hi => (h2.physical i (h1.active.symm ▸ hi)).trans (h1.physical i hi)
  · exact h2.cycle.trans h1.cycle

end Transfer

end RaidTest.Stripe
