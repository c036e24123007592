import RaidTest.Metadata.Record

/-!
# A restore that fails (`superblock_restore`, `stripe_volume_destroy`)

The volume is cleared and gets its member count before the pool files are opened. When one of
them does not open, those before it are closed again, and the volume is left as it is.
-/

namespace RaidTest.Metadata
open RaidTest.Base RaidTest.Journal RaidTest.Volume

/-- What `stripe_volume_destroy` finds of a volume that is not in use: every member has its
record, with the pool file closed. -/
def Dismantled (v : StripeVolume) (d : Disks) : Prop :=
  ∀ i < v.diskCount, ∃ k, v.disks i = some k ∧ (d.info k).hasHandle = false

theorem openedPools_lt {opens : ℕ → Bool} {count : ℕ} (h : ¬ ∀ i < count, opens i = true) :
    openedPools opens count < count := by
  unfold openedPools
  obtain ⟨i, hi⟩ := not_forall.mp h
  obtain ⟨hlt, hno⟩ := Classical.not_imp.mp hi
  have hidx : (List.range count).findIdx (fun i => !opens i) < (List.range count).length :=
    List.findIdx_lt_length_of_exists ⟨i, List.mem_range.mpr hlt, by rw [Bool.not_eq_true] at hno; rw [hno]; rfl⟩
  rwa [List.length_range] at hidx

/-- The member whose pool file did not open has no record. -/
theorem restoreVolume_missing (sb : Superblock) (disksOut : ℕ → DiskId) {n : ℕ} (h : n < sb.diskCount) (d : Disks) :
    ¬ Dismantled (restoreVolume sb n disksOut) d := by
  intro hall
  obtain ⟨k, hk, _⟩ := hall n h
  simp only [restoreVolume, if_neg (Nat.lt_irrefl n)] at hk
  cases hk

/-- A restore that fails leaves a volume that can be torn down if and only if it did not get as
far as a pool file. -/
theorem superblockRestore_unwinds (opens : ℕ → Bool) (physical : List (Option DiskLabel)) (sb : SuperblockV4)
    (r : VolumeRecord) (d : Disks) (disksOut : ℕ → DiskId) :
    (∀ w e labels, restoreRecord opens physical sb r d disksOut = (false, w, e, labels) → Dismantled w.v e) ↔
      if sb.diskCount < minDisks ∨ sb.diskCount > maxDisks then Dismantled r.v d
      else ∀ i < sb.diskCount, opens i = true := by
  have hcount : sb.base.diskCount = sb.diskCount := rfl
  unfold restoreRecord superblockRestore
  simp only [hcount]
  split
  · next hrange =>
    constructor
    · intro h
      exact h _ d _ rfl
    · intro h w e labels he
      simp only [Prod.mk.injEq] at he
      obtain ⟨-, rfl, rfl, -⟩ := he
      exact h
  · next hrange =>
    constructor
    · intro h
      by_contra hno
      have hlt := openedPools_lt hno
      exact restoreVolume_missing sb.base disksOut hlt _
        (h _ _ _ (Prod.ext (decide_eq_false (Nat.ne_of_lt hlt)) rfl))
    · intro h w e labels he
      exact absurd (openedPools_all h) (of_decide_eq_false (congrArg Prod.fst he))

/-- The superblock of two disks. -/
def pairSuperblock : SuperblockV4 :=
  { SuperblockV4.zero with magic := superblockMagic, version := superblockVersion, diskCount := 2 }

def noVolume : VolumeRecord := ⟨.zero, 0, 0, 0, 0, 0⟩

/-- The second pool file does not open. -/
theorem superblockRestore_unwinds_fails :
    Dismantled noVolume.v plainDisks ∧ ∃ w e labels,
      restoreRecord (fun i => i == 0) [] pairSuperblock noVolume plainDisks id = (false, w, e, labels) ∧
        w.v.diskCount = 2 ∧ w.v.disks 1 = none :=
  ⟨fun i hi => absurd hi (Nat.not_lt_zero i), _, _, _, rfl, rfl, rfl⟩

end RaidTest.Metadata
