import RaidTest.Metadata.Located
import RaidTest.Metadata.Versions
import RaidTest.Stripe.Faultless

/-!
# What a restored volume maps (`superblock_restore`, `stripe_volume_map_lba`)

Of the fields of a superblock a restore looks at `disk_count` alone; the phases are copied as they
are. Whether requests stay within the arrays is up to the fields then.
-/

namespace RaidTest.Metadata
open RaidTest.Base RaidTest.Stripe RaidTest.Volume

/-- A stripe volume that can be restored has safe fields. -/
def Usable (sb : SuperblockV4) : Prop :=
  minDisks ≤ sb.diskCount → sb.diskCount ≤ maxDisks → sb.featureFlags / sbFeatureMirror % 2 = 1 ∨
    FieldsSafe sb.stripeUnit sb.phaseCount sb.phases sb.diskCount sb.virtualTotalBytes

theorem fieldsSafe_empty (su : ℕ) (phases : ℕ → MappingPhase) (n total : ℕ) : FieldsSafe su 0 phases n total := by
  refine Or.inr ⟨Nat.zero_le _, fun vo _ _ => ⟨?_, ?_, ?_⟩⟩
  · intro p hp
    exact absurd hp (Nat.not_lt_zero p)
  · intro di c _ hc
    exact absurd hc.1 (Nat.not_lt_zero c)
  · intro di c _ hc
    exact absurd hc.1 (Nat.not_lt_zero c)

/-- The volume of a restore maps safely if and only if the fields it is made of are safe. -/
theorem restoreVolume_mapsSafely (sb : SuperblockV4) (n : ℕ) (disksOut : ℕ → DiskId) :
    MapsSafely (restoreVolume sb.base n disksOut) ↔ sb.featureFlags / sbFeatureMirror % 2 = 1 ∨
      FieldsSafe sb.stripeUnit sb.phaseCount sb.phases sb.diskCount sb.virtualTotalBytes := by
  by_cases hm : sb.featureFlags / sbFeatureMirror % 2 = 1
  · have hmirror : sb.base.mirror = true := decide_eq_true hm
    have hnone : (restoreVolume sb.base n disksOut).phaseCount = 0 := by
      simp only [restoreVolume, hmirror, if_true]
    refine ⟨fun _ => Or.inl hm, fun _ => ?_⟩
    rw [mapsSafely_iff (fun _ _ _ => rfl), hnone]
    exact fieldsSafe_empty _ _ _ _
  · have hstripe : sb.base.mirror = false := decide_eq_false hm
    have hcount : (restoreVolume sb.base n disksOut).phaseCount = sb.phaseCount := by
      simp only [restoreVolume, hstripe, Bool.false_eq_true, if_false]
      rfl
    have hsame : ∀ p < (restoreVolume sb.base n disksOut).phaseCount, p < maxDisks →
        (restoreVolume sb.base n disksOut).phases p = sb.phases p := by
      intro p hp hmax
      rw [hcount] at hp
      exact if_pos ⟨hstripe, hp, hmax⟩
    rw [mapsSafely_iff hsame, hcount]
    exact ⟨Or.inr, fun h => h.resolve_left hm⟩

theorem restoreRecord_volume (opens : ℕ → Bool) (physical : List (Option DiskLabel)) {sb : SuperblockV4} (r : VolumeRecord)
    (d : Disks) (disksOut : ℕ → DiskId) (hrange : ¬ (sb.diskCount < minDisks ∨ sb.diskCount > maxDisks)) :
    (restoreRecord opens physical sb r d disksOut).2.1.v =
      restoreVolume sb.base (openedPools opens sb.diskCount) disksOut := by
  have hbase : ¬ (sb.base.diskCount < minDisks ∨ sb.base.diskCount > maxDisks) := hrange
  unfold restoreRecord superblockRestore
  simp only [if_neg hrange, if_neg hbase]
  rfl

/-- For one superblock, whatever its fields. -/
theorem restoreRecord_usable (physical : List (Option DiskLabel)) (sb : SuperblockV4) (r : VolumeRecord) (d : Disks)
    (disksOut : ℕ → DiskId) :
    (∀ opens, (restoreRecord opens physical sb r d disksOut).1 = true →
      MapsSafely (restoreRecord opens physical sb r d disksOut).2.1.v) ↔ Usable sb := by
  constructor
  · intro h hmin hmax
    have hmaps := h (fun _ => true) (restoreRecord_ok physical r d disksOut hmin hmax)
    rw [restoreRecord_volume _ _ _ _ _ (by omega), restoreVolume_mapsSafely] at hmaps
    exact hmaps
  · intro h opens hok
    obtain ⟨hmin, hmax⟩ := restoreRecord_range hok
    rw [restoreRecord_volume _ _ _ _ _ (by omega), restoreVolume_mapsSafely]
    exact h hmin hmax

/-- Every restore of what a drive is read as maps safely if and only if what is read is usable. -/
theorem superblockRestore_usable (env : ReadEnv) (s : Drive) (physical : List (Option DiskLabel)) (r : VolumeRecord)
    (d : Disks) (disksOut : ℕ → DiskId) :
    (∀ sb, (tryReadSuperblock env s).1 = some sb → ∀ opens, (restoreRecord opens physical sb r d disksOut).1 = true →
      MapsSafely (restoreRecord opens physical sb r d disksOut).2.1.v) ↔
    ∀ sb, (tryReadSuperblock env s).1 = some sb → Usable sb :=
  forall_congr' fun sb => imp_congr_right fun _ => restoreRecord_usable physical sb r d disksOut

/-- Two members in a phase whose cycle has no bytes. -/
def noCycle : SuperblockV4 :=
  { SuperblockV4.zero with
    magic := superblockMagic, version := 4, diskCount := 2, stripeUnit := 65536, virtualTotalBytes := 262144,
    phaseCount := 1, phases := fun _ => { MappingPhase.zero with activeCount := 2, virtualSizeBytes := 262144 } }

theorem noCycle_inRange : InRange noCycle := by
  have hpos : ∀ k, 0 < 256 ^ k := fun k => Nat.pow_pos (by decide)
  have hentry : EntryInRange .zero := ⟨fun _ _ => hpos 2, hpos 4, hpos 4, hpos 8, fun _ _ => hpos 1⟩
  exact ⟨by decide, by decide, by decide, by decide, hpos 8, hpos 8, hpos 4, hpos 8, hpos 8, hpos 8, hpos 8, hpos 8,
    fun _ _ => hentry, fun _ _ => ⟨(by decide : 2 < 256 ^ 4), fun _ _ => hpos 4, fun _ _ => hpos 4, hpos 4, hpos 8,
      (by decide : 262144 < 256 ^ 8), fun _ _ => hpos 8, hpos 8⟩⟩

/-- A restored phase without a cycle is divided by at the first byte. -/
theorem mapLbaChecked_noCycle {v : StripeVolume} {ph : MappingPhase} (hph : v.phases 0 = ph) (hcount : v.phaseCount = 1)
    (hstart : ph.virtualStartBytes = 0) (hsize : ph.virtualSizeBytes = v.virtualTotalBytes)
    (hpos : 0 < v.virtualTotalBytes) (hlt : v.virtualTotalBytes < 2^64) (hactive : ph.activeCount ≠ 1)
    (hcycle : ph.cycleSizeBytes = 0) : mapLbaChecked v 1 0 1 = .error .divideByZero := by
  have hone : mapLbaChecked v 1 0 1 = mapLbaLoopChecked v 1 0 1 [] := by
    have hu : ¬ u64 (0 + 1) > v.virtualTotalBytes := Nat.not_lt.mpr hpos
    unfold mapLbaChecked
    rw [if_neg (by omega), if_neg hu]
  have hsingle : mapSingleByteChecked v 0 = .error .divideByZero := by
    unfold mapSingleByteChecked
    rw [if_neg (by omega), hcount]
    unfold mapPhasesChecked
    rw [if_neg (by decide), hph]
    simp only
    rw [hstart, hsize, Nat.zero_add, u64_of_lt hlt, if_neg (by omega)]
    unfold mapInPhaseChecked
    rw [if_neg hactive, if_pos hcycle]
  rw [hone]
  unfold mapLbaLoopChecked
  rw [if_pos (And.intro Nat.one_pos (by decide)), hsingle]

/-- The image is accepted, the volume restored, and the first request divides by zero. -/
theorem superblockRestore_usable_fails : ∃ x, (tryReadSuperblock .good ⟨some (Layout.v4.image noCycle), none⟩).1 = some x ∧
    (restoreRecord (fun _ => true) [] x noVolume plainDisks id).1 = true ∧
    mapLbaChecked (restoreRecord (fun _ => true) [] x noVolume plainDisks id).2.1.v 1 0 1 = .error .divideByZero := by
  obtain ⟨x, hread, hx⟩ := tryRead_image (show ReadEnv.good.opens = true ∧ ReadEnv.good.reads = true from ⟨rfl, rfl⟩) .v4 noCycle_inRange rfl rfl
  refine ⟨x, hread, ?_⟩
  have hdisks : x.diskCount = 2 := hx.diskCount
  have htotal : x.virtualTotalBytes = 262144 := hx.total
  have hphases : x.phaseCount = 1 := hx.phaseCount
  have hflags : x.featureFlags = 0 := hx.flags
  have hphase := hx.phases 0 (by decide)
  have hstripe : x.base.mirror = false := by
    unfold SuperblockV4.base
    rw [hflags]
    rfl
  have hcount : x.base.phaseCount = 1 := hphases
  have hok : (restoreRecord (fun _ => true) [] x noVolume plainDisks id).1 = true :=
    restoreRecord_ok [] noVolume plainDisks id (by rw [hdisks]; decide) (by rw [hdisks]; decide)
  have hv : (restoreRecord (fun _ => true) [] x noVolume plainDisks id).2.1.v =
      restoreVolume x.base (openedPools (fun _ => true) x.diskCount) id :=
    restoreRecord_volume _ _ _ _ _ (by rw [hdisks]; decide)
  refine ⟨hok, ?_⟩
  rw [hv]
  have hfields : (restoreVolume x.base (openedPools (fun _ => true) x.diskCount) id).virtualTotalBytes = 262144 := htotal
  refine mapLbaChecked_noCycle (show _ = x.phases 0 from ?_) ?_ hphase.start ?_ ?_ ?_ ?_ hphase.cycle
  · exact if_pos ⟨hstripe, by rw [hcount]; exact Nat.one_pos, by decide⟩
  · simp only [restoreVolume, hstripe, hcount, Bool.false_eq_true, if_false]
  · rw [hfields]
    exact hphase.size
  · rw [hfields]
    decide
  · rw [hfields]
    decide
  · rw [hphase.active]
    decide

end RaidTest.Metadata
