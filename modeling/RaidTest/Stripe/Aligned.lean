import RaidTest.Stripe.Entries
import Mathlib.Algebra.BigOperators.Ring.Finset

/-!
# Segments begin on stripe units

Every phase is a whole number of stripe units long. A request from the start of the volume
crosses no more segments than it has units.
-/

namespace RaidTest.Stripe
open RaidTest.Base

/-- The phases are made of whole stripe units. -/
def WholeUnits (su count : ℕ) (phases : ℕ → MappingPhase) : Prop := ∀ p < count, su ∣ (phases p).virtualSizeBytes

theorem WholeUnits.push {su count : ℕ} {phases : ℕ → MappingPhase} (h : WholeUnits su count phases) {ph : MappingPhase}
    (hp : su ∣ ph.virtualSizeBytes) : WholeUnits su (count + 1) fun p => if p = count then ph else phases p := by
  intro p hlt
  by_cases he : p = count
  · simp only [he, if_true]
    exact hp
  · simp only [he, if_false]
    exact h p (by omega)

theorem layoutStep_whole {base su : ℕ} {s t : LayoutState} (h : WholeUnits su s.phaseCount s.phases)
    (hs : layoutStep base su s = some t) : WholeUnits su t.phaseCount t.phases := by
  cases layoutStep_turn hs with
  | last => exact h.push (Nat.dvd_sub_mod _)
  | drops => exact h
  | cycles =>
    refine h.push ?_
    simp only [LayoutState.phase]
    exact Dvd.dvd.mul_left (Nat.dvd_mul_left su s.totalRatio) _

theorem layoutLoop_whole (base su fuel : ℕ) : ∀ {s : LayoutState}, WholeUnits su s.phaseCount s.phases →
    WholeUnits su (layoutLoop base su fuel s).phaseCount (layoutLoop base su fuel s).phases := by
  induction fuel with
  | zero => exact fun h => h
  | succ fuel ih =>
    intro s h
    unfold layoutLoop
    split
    · split
      · exact h
      next hs => exact ih (layoutStep_whole h hs)
    · exact h

def Whole (v : StripeVolume) : Prop := WholeUnits v.stripeUnit v.phaseCount v.phases

theorem stripeVolumeCreate_whole {d : Disks} {disks : List DiskId} {su : ℕ} {v : StripeVolume}
    (h : stripeVolumeCreate d disks su = some v) : Whole v := by
  unfold stripeVolumeCreate at h
  split at h
  · cases h
  obtain rfl := Option.some.inj h
  exact layoutLoop_whole 0 su layoutFuel (fun p (hp : p < 0) => absurd hp (Nat.not_lt_zero p))

theorem stripeVolumeExpand_whole {d : Disks} {new : List DiskId} {v w : StripeVolume} (hv : Whole v)
    (h : stripeVolumeExpand d v new = some w) : Whole w := by
  unfold stripeVolumeExpand at h
  split at h
  · cases h
  split at h
  · cases h
  obtain rfl := Option.some.inj h
  exact layoutLoop_whole v.diskCount v.stripeUnit layoutFuel hv

theorem buildVolume_whole {d : Disks} {disks : List DiskId} {su : ℕ} {more : List (List DiskId)} {v : StripeVolume}
    (h : buildVolume d disks su more = some v) : Whole v ∧ v.stripeUnit = su := by
  obtain ⟨u, hc, he⟩ := Option.bind_eq_some_iff.mp h
  have hu : Whole u ∧ u.stripeUnit = su := by
    refine ⟨stripeVolumeCreate_whole hc, ?_⟩
    unfold stripeVolumeCreate at hc
    split at hc
    · cases hc
    obtain rfl := Option.some.inj hc
    rfl
  clear hc h
  induction more generalizing u with
  | nil => exact Option.some.inj he ▸ hu
  | cons new more ih =>
    rw [List.foldlM_cons] at he
    obtain ⟨x, hx, hr⟩ := Option.bind_eq_some_iff.mp he
    exact ih x hr ⟨stripeVolumeExpand_whole hu.1 hx, (stripeVolumeExpand_phases hx).1.trans hu.2⟩

/-- A request crosses no more entries than segments. -/
theorem fits_of_segments {v : StripeVolume} (h : Laid v) {vo n : ℕ} (hlen : n < 2^32) (hpos : 0 < n)
    (hend : vo + n ≤ v.virtualTotalBytes) (hsegs : segmentsCrossed v vo n ≤ ioRingSize) : Fits v vo n := by
  have hclip : clipped v vo n = n := by
    unfold clipped
    omega
  intro es hes
  obtain ⟨_, _, hcount⟩ := mapLba_spells h hlen hes
  rw [hcount, hclip, runCount_mappedCells h hpos hend]
  refine Nat.le_trans ?_ hsegs
  unfold segmentsStaged segmentsCrossed
  refine Nat.add_le_add_left (List.countP_mono_left fun x _ hx => ?_) 1
  rw [decide_eq_true_eq] at hx ⊢
  exact hx.1

/-- A request of one stripe unit fits wherever it begins. -/
theorem unit_fits {v : StripeVolume} (h : Laid v) {vo n : ℕ} (hlen : n < 2^32) (hpos : 0 < n) (hn : n ≤ v.stripeUnit)
    (hend : vo + n ≤ v.virtualTotalBytes) : Fits v vo n := by
  apply fits_of_segments h hlen hpos hend
  have hsegs := segmentsCrossed_le h vo n
  have hunits : (n - 1) / v.stripeUnit = 0 := Nat.div_eq_of_lt (by omega)
  have hcount := h.count
  have hring : ioRingSize = 64 := rfl
  rw [hunits, Nat.zero_add, Nat.mul_one] at hsegs
  omega

section Segments
variable {v : StripeVolume} (h : Laid v) (hw : Whole v)
include h hw

theorem virtualStart_whole {p : ℕ} (hp : p < v.phaseCount) : v.stripeUnit ∣ (v.phases p).virtualStartBytes := by
  rw [h.phases.starts p hp]
  exact Finset.dvd_sum fun i hi => hw i ((Finset.mem_range.mp hi).trans hp)

theorem segmentStart_whole {x : ℕ} (hs : SegmentStart v x) : v.stripeUnit ∣ x := by
  obtain ⟨p, hp, hlo, hdvd⟩ := hs.aligned h
  have hsum := Nat.dvd_add (virtualStart_whole h hw hp) hdvd
  rwa [Nat.add_sub_cancel' hlo] at hsum

/-- From the start of the volume on there is at most one segment for each unit. -/
theorem segmentsCrossed_whole (n : ℕ) : segmentsCrossed v 0 n ≤ 1 + (n - 1) / v.stripeUnit := by
  unfold segmentsCrossed
  refine Nat.add_le_add_left ?_ 1
  calc (List.range' (0 + 1) (n - 1)).countP (fun x => decide (SegmentStart v x))
      ≤ (List.range' (0 + 1) (n - 1)).countP (fun x => decide (v.stripeUnit ∣ x)) := by
        apply List.countP_mono_left
        intro x _ hx
        rw [decide_eq_true_eq] at hx ⊢
        exact segmentStart_whole h hw hx
    _ = (n - 1) / v.stripeUnit := countP_multiples v.stripeUnit (n - 1)

/-- The first 64 units fit into one call of `submit_entries`. -/
theorem first_fits {n : ℕ} (hn : n ≤ ioRingSize * v.stripeUnit) (hlen : n < 2^32) (hend : n ≤ v.virtualTotalBytes)
    (hpos : 0 < n) : Fits v 0 n ∧ (mapLba v 0 n).isSome = true := by
  have hclip : clipped v 0 n = n := by
    unfold clipped
    omega
  have hsegs : segmentsCrossed v 0 n ≤ ioRingSize := by
    have hcross := segmentsCrossed_whole h hw n
    have hunits : (n - 1) / v.stripeUnit < ioRingSize := by
      rw [Nat.div_lt_iff_lt_mul h.unit]
      omega
    omega
  constructor
  · exact fits_of_segments h hlen hpos (by omega) hsegs
  · rw [mapLba_loop h hlen hpos (by omega), hclip]
    apply mapLbaLoop_some h _ [] (by omega) (by omega) (by omega)
    intro _
    have hring : ioRingSize ≤ maxIoEntries := by decide
    rw [List.length_nil]
    omega

end Segments

end RaidTest.Stripe
