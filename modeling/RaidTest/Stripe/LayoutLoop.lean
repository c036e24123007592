import RaidTest.Stripe.WellFormed

/-!
# The phase loop lays out well-formed volumes

The invariant keeps the phases built so far, the bytes used on each disk and the
disks that remain in step; every turn of the loop keeps it.
-/

namespace RaidTest.Stripe
open RaidTest.Base

/-- The loop over `m` disks numbered from `base` on. -/
structure LoopInv (su base m : ℕ) (s : LayoutState) : Prop where
  rem : RemOk m s.rem
  room : ∀ i < m, s.usedPhys i + s.remainingPhys i ≤ 2^56
  count : s.phaseCount ≤ 4
  phases : PhasesOk su (base + m) s.phaseCount s.phases s.virtOffset
  used : ∀ p < s.phaseCount, ∀ j < (s.phases p).activeCount, ∀ i < m,
    (s.phases p).activeDiskIndices j = base + i →
    (s.phases p).physicalStartsBytes j + lane su (s.phases p) j ≤ s.usedPhys i

/-- The phase over the remaining disks is well formed when each has room for its lane. -/
theorem LoopInv.phase_ok {su base m size : ℕ} {s : LayoutState} (h : LoopInv su base m s)
    (hne : s.rem ≠ []) (hsize : 0 < size)
    (hwhole : s.rem.length ≠ 1 → s.totalRatio * su ∣ size)
    (hroom : ∀ j < s.rem.length,
      s.usedPhys (s.rem.getD j (0, 0)).1 + lane su (s.phase base su size) j ≤ 2^56) :
    PhaseOk su (base + m) (s.phase base su size) where
  active := List.length_pos_iff.mpr hne
  members := by
    intro j hj
    have hm := h.rem.inRange _ (getD_mem hj)
    simp only [LayoutState.phase]
    omega
  distinct := by
    intro i hi j hj he
    simp only [LayoutState.phase, Nat.add_left_cancel_iff] at he
    exact h.rem.index_inj hi hj he
  cycle := by
    simp only [LayoutState.phase, LayoutState.totalRatio, before_getD]
  small := by
    simp only [LayoutState.phase, before_getD]
    exact total_le h.rem
  size := hsize
  whole := hwhole
  room := hroom

/-- A turn that starts a phase of `size` bytes and charges every member its lane. -/
theorem LoopInv.push {su base m : ℕ} {s t : LayoutState} (size : ℕ) (h : LoopInv su base m s)
    (hne : s.rem ≠ []) (hc : s.phaseCount < 4) (hsize : 0 < size) (hle : size ≤ 2^58)
    (hwhole : s.rem.length ≠ 1 → s.totalRatio * su ∣ size)
    (hrem : t.rem.Sublist s.rem) (hcount : t.phaseCount = s.phaseCount + 1)
    (hphases : t.phases = fun p => if p = s.phaseCount then s.phase base su size else s.phases p)
    (hvirt : t.virtOffset = u64 (s.virtOffset + size))
    (hroom : ∀ i < m, t.usedPhys i + t.remainingPhys i ≤ 2^56)
    (hmono : ∀ i < m, s.usedPhys i ≤ t.usedPhys i)
    (hlane : ∀ j < s.rem.length, s.usedPhys (s.rem.getD j (0, 0)).1 +
      lane su (s.phase base su size) j ≤ t.usedPhys (s.rem.getD j (0, 0)).1) :
    LoopInv su base m t := by
  have hmem : ∀ j < s.rem.length, (s.rem.getD j (0, 0)).1 < m :=
    fun j hj => h.rem.inRange _ (getD_mem hj)
  have hok : PhaseOk su (base + m) (s.phase base su size) := by
    refine h.phase_ok hne hsize hwhole fun j hj => ?_
    have h1 := hlane j hj
    have h2 := hroom _ (hmem j hj)
    omega
  have hb := h.phases.bounded
  have hadd : u64 (s.virtOffset + size) = s.virtOffset + size := by
    apply u64_of_lt
    omega
  have hpush := h.phases.push (s.phase base su size) hok rfl hle (by
    intro p hp i hi j hj he
    exact h.used p hp i hi _ (hmem j hj) he)
  refine ⟨h.rem.sublist hrem, hroom, by omega, ?_, ?_⟩
  · rw [hcount, hphases, hvirt, hadd]
    exact hpush
  · intro p hp j hj i hi he
    rw [hcount] at hp
    rw [hphases] at hj he ⊢
    by_cases hl : p = s.phaseCount
    · simp only [hl, ite_true] at hj he ⊢
      have hi2 : (s.rem.getD j (0, 0)).1 = i := Nat.add_left_cancel he
      have h1 := hlane j hj
      rw [hi2] at h1
      simpa only [LayoutState.phase, hi2] using h1
    · simp only [hl, ite_false] at hj he ⊢
      exact (h.used p (by omega) j hj i hi he).trans (hmono i hi)

theorem lane_multi {su base cycles : ℕ} (s : LayoutState) (hl : s.rem.length ≠ 1)
    (hpos : 0 < s.totalRatio * su) (j : ℕ) :
    lane su (s.phase base su (cycles * (s.totalRatio * su))) j =
      (s.rem.getD j (0, 0)).2 * cycles * su := by
  simp only [lane, LayoutState.phase, hl, ite_false]
  rw [Nat.mul_div_cancel _ hpos, ← Nat.mul_assoc, Nat.mul_comm cycles]

/-- Charging the cycles to a disk takes from its room what it adds to its use. -/
theorem LoopInv.take_room {su base m cycles : ℕ} {s : LayoutState} (h : LoopInv su base m s)
    (hfit : ∀ x ∈ s.rem, x.2 * cycles * su ≤ s.remainingPhys x.1) :
    ∀ i < m, (s.take su cycles s.rem).usedPhys i + (s.take su cycles s.rem).remainingPhys i ≤ 2^56 := by
  intro i hi
  have hr := h.room i hi
  have hl : (s.rem.lookup i).getD 0 * cycles * su ≤ s.remainingPhys i := by
    cases hx : s.rem.lookup i with
    | none => simp
    | some r => exact hfit (i, r) (lookup_mem hx)
  simp only [LayoutState.take]
  omega

/-- One turn of the loop. -/
theorem layoutStep_inv {su base m : ℕ} {s t : LayoutState} (hu : 0 < su) (h : LoopInv su base m s)
    (hc : s.phaseCount < 4) (hs : layoutStep base su s = some t) : LoopInv su base m t := by
  have hphys : ∀ i < m, s.remainingPhys i ≤ 2^56 := fun i hi => by
    have hr := h.room i hi
    omega
  cases layoutStep_turn hs with
  | last di r hrem hsize =>
    -- the last disk is used up to the last whole unit
    have hdi : di < m := h.rem.inRange (di, r) (by rw [hrem]; exact List.mem_singleton.mpr rfl)
    have hp := hphys di hdi
    have hmod := Nat.mod_lt (s.remainingPhys di) hu
    have hr := h.room di hdi
    refine LoopInv.push (s.remainingPhys di - s.remainingPhys di % su) h
      (by rw [hrem]; exact List.cons_ne_nil _ _) hc (by omega) (by omega)
      (fun hl => absurd (by rw [hrem]; rfl) hl) (List.nil_sublist _) rfl rfl rfl ?_ ?_ ?_
    · intro i hi
      have hri := h.room i hi
      by_cases he : i = di
      · simp only [he, ite_true]
        omega
      · simp only [he, ite_false]
        exact hri
    · intro i _
      by_cases he : i = di
      · simp only [he, ite_true]
        omega
      · simp only [he, ite_false]
        exact Nat.le_refl _
    · intro j hj
      have hj0 : j = 0 := by
        rw [hrem, List.length_singleton] at hj
        omega
      simp only [hj0, hrem, List.getD_cons_zero, ite_true, lane, LayoutState.phase,
        List.length_singleton]
      exact Nat.le_refl _
  | drops =>
    -- the slowest disk to fill up cannot give another turn and drops out
    exact { h with rem := h.rem.sublist (List.eraseIdx_sublist ..) }
  | cycles cycles hne hlen hcyc hcycles =>
    have hpos : 0 < s.totalRatio * su := Nat.mul_pos (total_pos h.rem hne) hu
    have hfit : ∀ x ∈ s.rem, x.2 * cycles * su ≤ s.remainingPhys x.1 := by
      intro x hx
      have hf := cycles_fit s.remainingPhys su h.rem (18446744073709551615, 4294967295) hx
      rw [← hcyc]
      exact hf
    have hsum := share_sum_le s.remainingPhys cycles su h.rem hphys hfit
    refine LoopInv.push (cycles * (s.totalRatio * su)) h hne hc
      (Nat.mul_pos hcycles hpos) hsum
      (fun _ => Nat.dvd_mul_left _ _) List.filter_sublist rfl rfl rfl
      (h.take_room hfit) (fun i _ => Nat.le_add_right _ _) ?_
    intro j hj
    have hmem := getD_mem hj
    rw [lane_multi s hlen hpos]
    simp only [LayoutState.take, lookup_of_mem h.rem.nodup hmem, Option.getD_some]
    exact Nat.le_refl _

/-- The whole loop. -/
theorem layoutLoop_inv {su base m : ℕ} (hu : 0 < su) (fuel : ℕ) {s : LayoutState}
    (h : LoopInv su base m s) : LoopInv su base m (layoutLoop base su fuel s) := by
  induction fuel generalizing s with
  | zero => exact h
  | succ fuel ih =>
    unfold layoutLoop
    split
    · next hg =>
      cases hs : layoutStep base su s with
      | none => exact h
      | some t => exact ih (layoutStep_inv hu h hg.2 hs)
    · exact h

/-! ### Ratios -/

theorem foldl_max_le (f : ℕ → ℕ) (l : List ℕ) (a : ℕ) :
    a ≤ l.foldl (fun m i => if f i > m then f i else m) a ∧
      ∀ i ∈ l, f i ≤ l.foldl (fun m i => if f i > m then f i else m) a := by
  induction l generalizing a with
  | nil => exact ⟨Nat.le_refl a, fun i hi => absurd hi List.not_mem_nil⟩
  | cons x l ih =>
    obtain ⟨h1, h2⟩ := ih (if f x > a then f x else a)
    have hx : a ≤ (if f x > a then f x else a) ∧ f x ≤ (if f x > a then f x else a) := by
      split <;> omega
    simp only [List.foldl_cons]
    refine ⟨hx.1.trans h1, fun i hi => ?_⟩
    rcases List.mem_cons.mp hi with rfl | hm
    · exact hx.2.trans h1
    · exact h2 i hm

theorem foldl_min_le (f : ℕ → ℕ) (l : List ℕ) (a : ℕ) :
    l.foldl (fun m i => if f i < m then f i else m) a ≤ a ∧
      ∀ i ∈ l, l.foldl (fun m i => if f i < m then f i else m) a ≤ f i := by
  induction l generalizing a with
  | nil => exact ⟨Nat.le_refl a, fun i hi => absurd hi List.not_mem_nil⟩
  | cons x l ih =>
    obtain ⟨h1, h2⟩ := ih (if f x < a then f x else a)
    have hx : (if f x < a then f x else a) ≤ a ∧ (if f x < a then f x else a) ≤ f x := by
      split <;> omega
    simp only [List.foldl_cons]
    refine ⟨h1.trans hx.1, fun i hi => ?_⟩
    rcases List.mem_cons.mp hi with rfl | hm
    · exact h1.trans hx.2
    · exact h2 i hm

theorem foldl_gcd_dvd (f : ℕ → ℕ) (l : List ℕ) (a : ℕ) :
    l.foldl (fun g i => gcdU32 g (f i)) a ∣ a ∧
      ∀ i ∈ l, l.foldl (fun g i => gcdU32 g (f i)) a ∣ f i := by
  induction l generalizing a with
  | nil => exact ⟨Nat.dvd_refl a, fun i hi => absurd hi List.not_mem_nil⟩
  | cons x l ih =>
    obtain ⟨h1, h2⟩ := ih (gcdU32 a (f x))
    have hx : gcdU32 a (f x) ∣ a ∧ gcdU32 a (f x) ∣ f x := by
      rw [gcdU32_eq]
      exact ⟨Nat.gcd_dvd_left a (f x), Nat.gcd_dvd_right a (f x)⟩
    simp only [List.foldl_cons]
    refine ⟨h1.trans hx.1, fun i hi => ?_⟩
    rcases List.mem_cons.mp hi with rfl | hm
    · exact h1.trans hx.2
    · exact h2 i hm

theorem zero_or_mem_range' {i count : ℕ} (h : i < count) : i = 0 ∨ i ∈ List.range' 1 (count - 1) := by
  rw [List.mem_range'_1]
  omega

theorem maxSpeed_le (speeds : ℕ → ℕ) {i count : ℕ} (h : i < count) :
    speeds i ≤ maxSpeed speeds count := by
  have hm := foldl_max_le speeds (List.range' 1 (count - 1)) (speeds 0)
  rcases zero_or_mem_range' h with rfl | hi
  · exact hm.1
  · exact hm.2 i hi

theorem rawRatio_bounds (speeds : ℕ → ℕ) (m i : ℕ) (hm : 0 < m) (hi : speeds i ≤ m) :
    0 < rawRatio speeds m i ∧ rawRatio speeds m i ≤ 32 := by
  have hdiv : (speeds i * maxRatio + m / 2) / m ≤ 32 := by
    apply Nat.le_of_lt_succ
    rw [Nat.div_lt_iff_lt_mul hm]
    unfold maxRatio
    omega
  unfold rawRatio
  rw [u32_of_lt (Nat.lt_of_le_of_lt hdiv (by decide))]
  simp only
  split
  · exact ⟨Nat.one_pos, by decide⟩
  · next hne => exact ⟨Nat.pos_of_ne_zero hne, hdiv⟩

theorem ratioGcd_dvd (raw : ℕ → ℕ) {i count : ℕ} (h : i < count) : ratioGcd raw count ∣ raw i := by
  have hg := foldl_gcd_dvd raw (List.range' 1 (count - 1)) (raw 0)
  have hd : (List.range' 1 (count - 1)).foldl (fun g i => gcdU32 g (raw i)) (raw 0) ∣ raw i := by
    rcases zero_or_mem_range' h with rfl | hi
    · exact hg.1
    · exact hg.2 i hi
  unfold ratioGcd
  simp only
  split
  · exact Nat.one_dvd _
  · exact hd

/-- Every ratio is at least 1 and at most `MAX_RATIO`. -/
theorem normalizeRatios_bounds (speeds : ℕ → ℕ) {i count : ℕ} (h : i < count) :
    0 < (normalizeRatios speeds count).1 i ∧ (normalizeRatios speeds count).1 i ≤ 32 := by
  unfold normalizeRatios
  simp only
  split
  · exact ⟨Nat.one_pos, Nat.le_of_ble_eq_true rfl⟩
  · next hm =>
    have hr := rawRatio_bounds speeds (maxSpeed speeds count) i (Nat.pos_of_ne_zero hm)
      (maxSpeed_le speeds h)
    have hd := ratioGcd_dvd (rawRatio speeds (maxSpeed speeds count)) h
    exact ⟨Nat.div_pos (Nat.le_of_dvd hr.1 hd) (Nat.pos_of_dvd_of_pos hd hr.1),
      (Nat.div_le_self _ _).trans hr.2⟩

/-! ### Created and expanded volumes -/

theorem layoutInit_rem {count virt : ℕ} (d : Disks) (disks : List DiskId) (phases : ℕ → MappingPhase)
    (hl : disks.length ≤ 4) : RemOk disks.length (layoutInit d disks count phases virt).rem := by
  constructor
  · simp only [layoutInit, List.map_map]
    exact (List.nodup_range).map fun _ _ he => he
  · intro x hx
    obtain ⟨i, hi, rfl⟩ := List.mem_map.mp hx
    exact List.mem_range.mp hi
  · intro x hx
    obtain ⟨i, hi, rfl⟩ := List.mem_map.mp hx
    exact (normalizeRatios_bounds _ (List.mem_range.mp hi)).1
  · intro x hx
    obtain ⟨i, hi, rfl⟩ := List.mem_map.mp hx
    exact (normalizeRatios_bounds _ (List.mem_range.mp hi)).2
  · simpa only [layoutInit, List.length_map, List.length_range] using hl

theorem layoutInit_inv {su base virt count : ℕ} (d : Disks) (disks : List DiskId)
    (phases : ℕ → MappingPhase) (hl : disks.length ≤ 4)
    (hpool : ∀ i ∈ disks, (d.info i).poolBytes ≤ 2^56) (hc : count ≤ 4)
    (h : PhasesOk su base count phases virt) :
    LoopInv su base disks.length (layoutInit d disks count phases virt) where
  rem := layoutInit_rem d disks phases hl
  room := by
    intro i hi
    simp only [layoutInit, Nat.zero_add, List.getD_eq_getElem disks 0 hi]
    exact hpool _ (List.getElem_mem hi)
  count := hc
  phases := h.mono (Nat.le_add_right _ _)
  used := by
    intro p hp j hj i _ he
    have hlt := (h.phase p hp).members j hj
    have heq : (phases p).activeDiskIndices j = base + i := he
    omega

/-- No member pointer is `NULL` and no disk is a member twice. -/
structure Members (v : StripeVolume) : Prop where
  few : v.diskCount ≤ maxDisks
  present : ∀ i < v.diskCount, v.disks i = some (v.diskAt i)
  distinct : ∀ i < v.diskCount, ∀ j < v.diskCount, v.diskAt i = v.diskAt j → i = j

theorem Members.checkDisks {v : StripeVolume} (h : Members v) : v.checkDisks = true :=
  v.checkDisks_iff.mpr h.present

/-- The members of a volume in order. -/
def memberList (v : StripeVolume) : List DiskId := (List.range v.diskCount).map v.diskAt

theorem stripeVolumeCreate_spec {d : Disks} {disks : List DiskId} {su : ℕ} {v : StripeVolume}
    (hu : 0 < su) (hlt : su < 2^32) (hpool : ∀ i ∈ disks, (d.info i).poolBytes ≤ 2^56)
    (h : stripeVolumeCreate d disks su = some v) :
    Laid v ∧ v.raidLevel = .stripe ∧ v.cacheEnabled = false ∧ v.diskCount = disks.length ∧
      v.diskCount ≤ maxDisks ∧ ∀ i < disks.length, v.disks i = disks[i]? := by
  unfold stripeVolumeCreate at h
  split at h
  · cases h
  next hn =>
  obtain rfl := Option.some.inj h
  simp only [not_or, Nat.not_lt] at hn
  have hl : disks.length ≤ 4 := hn.2
  have hinv := layoutLoop_inv hu layoutFuel
    (layoutInit_inv d disks (fun _ => .zero) hl hpool (Nat.zero_le 4) (phasesOk_empty su 0 _))
  have hp := hinv.phases
  rw [Nat.zero_add] at hp
  exact ⟨⟨hu, hlt, hinv.count, hp⟩, rfl, rfl, rfl, hl, fun _ _ => rfl⟩

theorem stripeVolumeExpand_spec {d : Disks} {new : List DiskId} {v w : StripeVolume} (hv : Laid v)
    (hpool : ∀ i ∈ new, (d.info i).poolBytes ≤ 2^56) (h : stripeVolumeExpand d v new = some w) :
    Laid w ∧ w.raidLevel = v.raidLevel ∧ w.cacheEnabled = v.cacheEnabled ∧
      w.diskCount = v.diskCount + new.length ∧ w.diskCount ≤ maxDisks ∧
      (∀ i < v.diskCount, w.disks i = v.disks i) ∧
      ∀ i < new.length, w.disks (v.diskCount + i) = new[i]? := by
  unfold stripeVolumeExpand at h
  split at h
  · cases h
  split at h
  · cases h
  next hn =>
  obtain rfl := Option.some.inj h
  simp only [not_or, Nat.not_lt] at hn
  have hm : maxDisks = 4 := rfl
  have hinv := layoutLoop_inv hv.unit layoutFuel
    (layoutInit_inv d new v.phases (by omega) hpool hv.count hv.phases)
  refine ⟨⟨hv.unit, hv.unitLt, hinv.count, hinv.phases⟩, rfl, rfl, rfl, hn.1, ?_, ?_⟩
  · intro i hi
    have hno : ¬ (v.diskCount ≤ i ∧ i < v.diskCount + new.length) := by omega
    simp only [hno, ite_false]
  · intro i hi
    have hyes : v.diskCount ≤ v.diskCount + i ∧ v.diskCount + i < v.diskCount + new.length := by omega
    simp only [hyes, and_self, ite_true, Nat.add_sub_cancel_left]

end RaidTest.Stripe
