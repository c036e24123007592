import RaidTest.Stripe.Mapping
import RaidTest.Stripe.LayoutLoop

/-!
# A mapped request tiles its range

The entries of `stripe_volume_map_lba` hold, in order and without gap, the pool
bytes of the virtual bytes `vo, vo + 1, ..` up to the end of the request or of the
volume, also where a run is merged across a segment or a phase boundary.
-/

namespace RaidTest.Stripe
open RaidTest.Base

/-- The disk and the pool byte that hold a virtual byte. -/
def vcell (v : StripeVolume) (x : ℕ) : DiskId × ℕ :=
  let loc := (mapSingleByte v x).getD (0, 0)
  (v.diskAt loc.1, loc.2)

def entryExtent (v : StripeVolume) (e : IoMappingEntry) : Extent DiskId :=
  ⟨v.diskAt e.diskIndex, e.physicalOffset, e.lengthBytes⟩

theorem vcell_inj {v : StripeVolume} (h : Laid v) (hm : Members v) {x y : ℕ}
    (hx : x < v.virtualTotalBytes) (hy : y < v.virtualTotalBytes) (he : vcell v x = vcell v y) :
    x = y := by
  obtain ⟨p, i, r, hp, ha⟩ := h.place_exists hx
  obtain ⟨q, j, s, hq, hb⟩ := h.place_exists hy
  have h1 := mapSingleByte_eq h hp ha
  have h2 := mapSingleByte_eq h hq hb
  simp only [vcell, h1, h2, Option.getD_some, Prod.mk.injEq] at he
  have hdi := hm.distinct _ ((h.phaseOk hp.1).members i ha.1) _ ((h.phaseOk hq.1).members j hb.1) he.1
  rw [hdi, he.2] at h1
  exact mapSingleByte_inj h h1 h2

/-- The run ends with the request, with the phase or with the segment. -/
theorem mapChunk_eq {v : StripeVolume} {vo p j r : ℕ} (remaining : ℕ) (h : Laid v) (hp : InPhase v vo p)
    (ha : At v.stripeUnit (v.phases p) (vo - (v.phases p).virtualStartBytes) j r) :
    mapChunk v vo ((v.phases p).activeDiskIndices j) remaining =
      if (v.phases p).activeCount = 1 then
        min remaining ((v.phases p).virtualSizeBytes - (vo - (v.phases p).virtualStartBytes))
      else min remaining (min
        ((v.phases p).virtualSizeBytes - (vo - (v.phases p).virtualStartBytes))
        ((before (v.phases p).ratios j + (v.phases p).ratios j) * v.stripeUnit -
          (vo - (v.phases p).virtualStartBytes) % (v.phases p).cycleSizeBytes)) := by
  have hpc := hp.1
  have hlo := hp.2.1
  have hhi := hp.2.2
  have hok := h.phaseOk hpc
  have hpe := h.end_le hpc
  have ht := h.total_le
  have hoip : sub64 vo (v.phases p).virtualStartBytes = vo - (v.phases p).virtualStartBytes :=
    sub64_of_le hlo (by omega)
  have hrem : sub64 (v.phases p).virtualSizeBytes (vo - (v.phases p).virtualStartBytes) =
      (v.phases p).virtualSizeBytes - (vo - (v.phases p).virtualStartBytes) :=
    sub64_of_le (by omega) (by omega)
  unfold mapChunk
  simp only [currentPhase_eq h hp, hoip, hrem, minU64_eq]
  by_cases h1 : (v.phases p).activeCount = 1
  · rw [if_pos h1, if_pos h1]
  · obtain ⟨hj, hin⟩ := ha
    rw [if_neg h1, if_neg h1]
    rw [if_neg h1] at hin
    have hseg := hin.1
    have hf := findSegmentOf_eq hok h.unitLt hj hseg (v.phases p).activeCount 0
      (Nat.zero_le _) (by omega)
    have hul := hok.unit_lt h.unitLt hj (Nat.le_refl _)
    have hend : u64 ((before (v.phases p).ratios j + (v.phases p).ratios j) * v.stripeUnit) =
        (before (v.phases p).ratios j + (v.phases p).ratios j) * v.stripeUnit := u64_of_lt (by omega)
    rw [before_zero] at hf
    rw [hf, hend, sub64_of_le (Nat.le_of_lt hseg.2) (by omega)]

/-- The run that starts at `vo`: every byte of it is on the same member, one behind the other. -/
theorem mapChunk_spec {v : StripeVolume} (h : Laid v) {vo remaining di po : ℕ} (hr : 0 < remaining)
    (hend : vo + remaining ≤ v.virtualTotalBytes) (hs : mapSingleByte v vo = some (di, po)) :
    0 < mapChunk v vo di remaining ∧ mapChunk v vo di remaining ≤ remaining ∧
      po + mapChunk v vo di remaining ≤ 2^56 ∧ di < v.diskCount ∧
      ∀ i < mapChunk v vo di remaining, mapSingleByte v (vo + i) = some (di, po + i) := by
  obtain ⟨p, j, r, hp, ha⟩ := h.place_exists (show vo < v.virtualTotalBytes by omega)
  have hm := mapSingleByte_eq h hp ha
  rw [hs] at hm
  obtain ⟨rfl, rfl⟩ := Prod.mk.inj (Option.some.inj hm)
  have hpc := hp.1
  have hlo := hp.2.1
  have hhi := hp.2.2
  have hok := h.phaseOk hpc
  have hpe := h.end_le hpc
  have hbound := mapChunk_eq remaining h hp ha
  generalize mapChunk v vo ((v.phases p).activeDiskIndices j) remaining = c at hbound
  have hc : 0 < c ∧ c ≤ remaining ∧
      c ≤ (v.phases p).virtualSizeBytes - (vo - (v.phases p).virtualStartBytes) ∧
      ((v.phases p).activeCount ≠ 1 →
        (vo - (v.phases p).virtualStartBytes) % (v.phases p).cycleSizeBytes + c ≤
          (before (v.phases p).ratios j + (v.phases p).ratios j) * v.stripeUnit) := by
    by_cases h1 : (v.phases p).activeCount = 1
    · simp only [h1, ite_true] at hbound
      exact ⟨by omega, by omega, by omega, fun hne => absurd h1 hne⟩
    · obtain ⟨_, hin⟩ := ha
      simp only [h1, ite_false] at hin hbound
      have hseg := hin.1.2
      exact ⟨by omega, by omega, by omega, fun _ => by omega⟩
  obtain ⟨hc0, hcr, hcp, hcs⟩ := hc
  have hplace : ∀ i < c, InPhase v (vo + i) p ∧
      At v.stripeUnit (v.phases p) (vo + i - (v.phases p).virtualStartBytes) j (r + i) := by
    intro i hi
    have hn := at_next i hok ha (fun h1 => by
      have hc := hcs h1
      omega)
    have hvo : vo - (v.phases p).virtualStartBytes + i = vo + i - (v.phases p).virtualStartBytes := by
      omega
    rw [hvo] at hn
    exact ⟨⟨hpc, by omega, by omega⟩, hn⟩
  refine ⟨hc0, hcr, ?_, hok.members j ha.1, ?_⟩
  · obtain ⟨hpl, hal⟩ := hplace (c - 1) (by omega)
    have hl := at_lane hok (by omega) hal
    have hroom := hok.room j ha.1
    omega
  · intro i hi
    obtain ⟨hpi, hai⟩ := hplace i hi
    rw [mapSingleByte_eq h hpi hai, Nat.add_assoc]

/-- The entries collected so far, last one first, hold the virtual bytes from `a` to `vo`. -/
structure Tiled (v : StripeVolume) (a vo : ℕ) (acc : List IoMappingEntry) : Prop where
  covers : Covers (vcell v) a (acc.reverse.map (entryExtent v)) vo
  inPool : ∀ e ∈ acc, e.physicalOffset + e.lengthBytes ≤ 2^56
  member : ∀ e ∈ acc, e.diskIndex < v.diskCount

theorem Tiled.push {v : StripeVolume} {a vo di po c : ℕ} {acc : List IoMappingEntry}
    (h : Tiled v a vo acc) (hlen : vo + c < a + 2^32) (hpool : po + c ≤ 2^56)
    (hdi : di < v.diskCount) (hc : ∀ i < c, mapSingleByte v (vo + i) = some (di, po + i)) :
    Tiled v a (vo + c) (pushEntry acc di po c) := by
  have hle := h.covers.le
  have hcell : ∀ i < c, vcell v (vo + i) = (v.diskAt di, po + i) := by
    intro i hi
    simp only [vcell, hc i hi, Option.getD_some]
  have hu : u32 c = c := u32_of_lt (by omega)
  have hnew : Tiled v a (vo + c) (⟨di, po, c⟩ :: acc) := by
    refine ⟨?_, ?_, ?_⟩
    · rw [List.reverse_cons, List.map_append]
      exact h.covers.snoc (entryExtent v ⟨di, po, c⟩) hcell
    · intro e he
      rcases List.mem_cons.mp he with rfl | hm
      · exact hpool
      · exact h.inPool e hm
    · intro e he
      rcases List.mem_cons.mp he with rfl | hm
      · exact hdi
      · exact h.member e hm
  cases acc with
  | nil => simpa only [pushEntry, hu] using hnew
  | cons e es =>
    have hpe := h.inPool e (List.mem_cons_self ..)
    simp only [pushEntry, hu]
    rw [u64_of_lt (by omega)]
    split
    · next hmerge =>
      obtain ⟨hd, hp⟩ := hmerge
      have hcov := h.covers
      rw [List.reverse_cons, List.map_append] at hcov
      have hel : a + e.lengthBytes ≤ vo := Covers.len_le hcov
        (e := entryExtent v e) (List.mem_append_right _ (List.mem_singleton.mpr rfl))
      rw [u32_of_lt (by omega)]
      refine ⟨?_, ?_, ?_⟩
      · rw [List.reverse_cons, List.map_append]
        refine hcov.grow (entryExtent v e) ?_
        intro i hi
        rw [hcell i hi, ← hd, ← hp]
        rfl
      · intro x hx
        rcases List.mem_cons.mp hx with rfl | hm
        · simp only
          omega
        · exact h.inPool x (List.mem_cons_of_mem _ hm)
      · intro x hx
        rcases List.mem_cons.mp hx with rfl | hm
        · exact h.member e (List.mem_cons_self ..)
        · exact h.member x (List.mem_cons_of_mem _ hm)
    · exact hnew

theorem mapLbaLoop_spec {v : StripeVolume} (h : Laid v) {a : ℕ} (fuel : ℕ) :
    ∀ {vo remaining : ℕ} {acc es : List IoMappingEntry}, Tiled v a vo acc →
      vo + remaining ≤ v.virtualTotalBytes → vo + remaining < a + 2^32 →
      mapLbaLoop v fuel vo remaining acc = some es →
      ∃ l, es = l.reverse ∧ Tiled v a (vo + remaining) l := by
  induction fuel with
  | zero => intro vo remaining acc es _ _ _ hs; cases hs
  | succ fuel ih =>
    intro vo remaining acc es ht hend hlen hs
    have htot := h.total_le
    unfold mapLbaLoop at hs
    split at hs
    · next hg =>
      cases hm : mapSingleByte v vo with
      | none => rw [hm] at hs; cases hs
      | some loc =>
        obtain ⟨di, po⟩ := loc
        obtain ⟨hc0, hcr, hpool, hdi, hall⟩ := mapChunk_spec h hg.1 hend hm
        have hle := ht.covers.le
        simp only [hm] at hs
        generalize mapChunk v vo di remaining = c at hc0 hcr hpool hall hs
        rw [u64_of_lt (by omega), u32_of_lt (by omega)] at hs
        obtain ⟨l, hl, htl⟩ := ih (ht.push (by omega) hpool hdi hall) (by omega) (by omega) hs
        rw [show vo + c + (remaining - c) = vo + remaining by omega] at htl
        exact ⟨l, hl, htl⟩
    · split at hs
      · next h0 =>
        exact ⟨acc, (Option.some.inj hs).symm, by rw [h0]; exact ht⟩
      · cases hs

/-- With a turn for every byte the loop never runs out of turns. -/
theorem mapLbaLoop_fuel {v : StripeVolume} (h : Laid v) (fuel : ℕ) :
    ∀ {vo remaining : ℕ} (acc : List IoMappingEntry), vo + remaining ≤ v.virtualTotalBytes →
      remaining < 2^32 → remaining < fuel →
      mapLbaLoop v (fuel + 1) vo remaining acc = mapLbaLoop v fuel vo remaining acc := by
  induction fuel with
  | zero => intro vo remaining acc _ _ hf; omega
  | succ fuel ih =>
    intro vo remaining acc hend hlen hf
    have htot := h.total_le
    rw [mapLbaLoop, mapLbaLoop]
    split
    · next hg =>
      obtain ⟨di, po, hm⟩ := mapSingleByte_isSome h (show vo < v.virtualTotalBytes by omega)
      obtain ⟨hc0, hcr, _, _, _⟩ := mapChunk_spec h hg.1 hend hm
      simp only [hm]
      generalize mapChunk v vo di remaining = c at hc0 hcr
      rw [u64_of_lt (by omega), u32_of_lt (by omega)]
      exact ih _ (by omega) (by omega) (by omega)
    · rfl

/-- A mapped request is tiled from its start to its end or the end of the volume. -/
theorem mapLba_spec {v : StripeVolume} (h : Laid v) {vo len : ℕ} {es : List IoMappingEntry}
    (hlen : len < 2^32) (hs : mapLba v vo len = some es) :
    0 < len ∧ vo < v.virtualTotalBytes ∧
      Covers (vcell v) vo (es.map (entryExtent v)) (min (vo + len) v.virtualTotalBytes) ∧
      ∀ e ∈ es, e.diskIndex < v.diskCount := by
  have htot := h.total_le
  unfold mapLba at hs
  split at hs
  · cases hs
  next hn =>
  simp only [not_or, ge_iff_le, Nat.not_le] at hn
  rw [u64_of_lt (by omega)] at hs
  simp only at hs
  have hrem : (if vo + len > v.virtualTotalBytes then v.virtualTotalBytes - vo else len) =
      min (vo + len) v.virtualTotalBytes - vo := by
    split <;> omega
  rw [hrem] at hs
  have h0 : Tiled v vo vo [] := ⟨rfl, fun e he => absurd he List.not_mem_nil,
    fun e he => absurd he List.not_mem_nil⟩
  obtain ⟨l, rfl, ht⟩ := mapLbaLoop_spec h _ h0 (by omega) (by omega) hs
  rw [show vo + (min (vo + len) v.virtualTotalBytes - vo) = min (vo + len) v.virtualTotalBytes by
    omega] at ht
  exact ⟨by omega, hn.2, ht.covers, fun e he => ht.member e (List.mem_reverse.mp he)⟩

theorem mapLba_covers {v : StripeVolume} (h : Laid v) {vo len : ℕ} {es : List IoMappingEntry}
    (hlen : len < 2^32) (hend : vo + len ≤ v.virtualTotalBytes) (hs : mapLba v vo len = some es) :
    Covers (vcell v) vo (es.map (entryExtent v)) (vo + len) := by
  have hc := (mapLba_spec h hlen hs).2.2.1
  rw [Nat.min_eq_left hend] at hc
  exact hc

end RaidTest.Stripe
