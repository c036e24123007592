import RaidTest.Service.Capacity
import RaidTest.Service.Picked

/-!
# The size of a new pool (`volume_create_pool_file`, `volume_rebuild`)

The size comes in megabytes, as any 64-bit number from 1024 up, and is made bytes in 64-bit
arithmetic. The check of the size sees the product only.
-/

namespace RaidTest.Service
open RaidTest.Base RaidTest.Stripe RaidTest.Mirror RaidTest.Volume

/-- The pool of a disk has `mb` megabytes, by its record and by the length of its file. -/
structure PoolSized (dr : Drives) (disk : DiskId) (mb : ℕ) (s : Pools) : Prop where
  record : (s.info disk).poolBytes = mb * 2^20
  file : ∃ p, dr.path disk = some p ∧ (s.file p).map PoolFile.size = some (mb * 2^20)

/-- The bytes of `mb` megabytes fit into 64 bits, or wrap to zero, which no pool may have. -/
def SizeFits (mb : ℕ) : Prop := mb * 2^20 < 2^64 ∨ mb % 2^44 = 0

/-- The disk has a pool path, and the file can be made there as long as is asked for. -/
def PoolMakes (dr : Drives) (env : PoolEnv) (disk : DiskId) : Prop :=
  (dr.path disk).isSome = true ∧ env.create = true ∧ env.extend = true

/-- The checks of `volume_rebuild` before it looks at the size. -/
def RebuildAsks (dr : Drives) (v : StripeVolume) (physical : List DiskId) (replaceIdx newDiskId : ℕ) : Prop :=
  ¬ (v.raidLevel ≠ .mirror ∨ v.diskCount ≤ replaceIdx ∨ physical.length ≤ newDiskId) ∧
    dr.letter (physical.getD newDiskId 0) = true

instance (dr : Drives) (v : StripeVolume) (physical : List DiskId) (replaceIdx newDiskId : ℕ) :
    Decidable (RebuildAsks dr v physical replaceIdx newDiskId) := inferInstanceAs (Decidable (_ ∧ _))

/-- The creation step of `volume_rebuild`. -/
def rebuildCreate (dr : Drives) (env : PoolEnv) (v : StripeVolume) (s : Pools) (physical : List DiskId)
    (replaceIdx newDiskId poolMb : ℕ) : Bool × Pools :=
  if RebuildAsks dr v physical replaceIdx newDiskId then
    volumeCreatePoolFile dr env s (physical.getD newDiskId 0) poolMb
  else (false, s)

/-- `volume_rebuild` is its creation step and what follows it. -/
theorem volumeRebuild_create (dr : Drives) (env : PoolEnv) (renv : RebuildEnv) (v : StripeVolume) (s : Pools)
    (physical : List DiskId) (replaceIdx newDiskId poolMb : ℕ) :
    volumeRebuild dr env renv v s physical replaceIdx newDiskId poolMb =
      match rebuildCreate dr env v s physical replaceIdx newDiskId poolMb with
      | (false, s) => (false, v, s)
      | (true, s) =>
        match poolFileOpen dr env s (physical.getD newDiskId 0) with
        | (false, s) => (false, v, poolFileDelete dr env s (physical.getD newDiskId 0))
        | (true, s) =>
          match mirrorVolumeRebuild renv v (s.disks dr) (physical.getD newDiskId 0) replaceIdx with
          | (false, v, d) => (false, v, poolFileDelete dr env
              (poolFileClose (s.store dr d (physical.getD newDiskId 0)) (physical.getD newDiskId 0))
              (physical.getD newDiskId 0))
          | (true, v, d) => (true, v, s.store dr d (physical.getD newDiskId 0)) := by
  by_cases hg : v.raidLevel ≠ .mirror ∨ v.diskCount ≤ replaceIdx ∨ physical.length ≤ newDiskId
  · have hnone : rebuildCreate dr env v s physical replaceIdx newDiskId poolMb = (false, s) :=
      if_neg fun h => h.1 hg
    rw [hnone]
    exact if_pos hg
  by_cases hl : dr.letter (physical.getD newDiskId 0) = true
  · have hasked : rebuildCreate dr env v s physical replaceIdx newDiskId poolMb =
        volumeCreatePoolFile dr env s (physical.getD newDiskId 0) poolMb := if_pos ⟨hg, hl⟩
    by_cases hv : validatePoolSize (u64 (poolMb * mib)) = false
    · have hnone : volumeCreatePoolFile dr env s (physical.getD newDiskId 0) poolMb = (false, s) := if_pos hv
      rw [hasked, hnone]
      exact (if_neg hg).trans (if_pos (Or.inr hv))
    · have hmade : volumeCreatePoolFile dr env s (physical.getD newDiskId 0) poolMb =
          poolFileCreate dr env s (physical.getD newDiskId 0) (u64 (poolMb * mib)) := if_neg hv
      have hgo : ¬ (dr.letter (physical.getD newDiskId 0) = false ∨ validatePoolSize (u64 (poolMb * mib)) = false) := by
        rw [hl]
        simp [hv]
      rw [hasked, hmade]
      exact (if_neg hg).trans (if_neg hgo)
  · have hnone : rebuildCreate dr env v s physical replaceIdx newDiskId poolMb = (false, s) :=
      if_neg fun h => hl h.2
    rw [hnone]
    exact (if_neg hg).trans (if_pos (Or.inl (by simpa using hl)))

theorem poolFileCreate_ok {dr : Drives} {env : PoolEnv} {s : Pools} {disk : DiskId} {size : ℕ} :
    (poolFileCreate dr env s disk size).1 = true ↔ PoolMakes dr env disk ∧ validatePoolSize size = true := by
  unfold PoolMakes
  cases hp : dr.path disk with
  | none =>
    have hfalse : (poolFileCreate dr env s disk size).1 = false := by
      unfold poolFileCreate
      rw [hp]
    rw [hfalse]
    simp
  | some p =>
    cases hv : validatePoolSize size with
    | false =>
      have hfalse : (poolFileCreate dr env s disk size).1 = false := by
        unfold poolFileCreate
        rw [hp]
        simp only
        rw [if_pos hv]
      rw [hfalse]
      simp
    | true =>
      rw [(poolFileCreate_made dr env s hp hv).1, Bool.and_eq_true]
      simp

/-- The size that `mb` megabytes come out as. -/
theorem size_wraps (mb : ℕ) : u64 (mb * mib) = mb % 2^44 * 2^20 := by
  unfold u64 mib
  omega

theorem validatePoolSize_mb (n : ℕ) : validatePoolSize (n * 2^20) = true ↔ n ≠ 0 := by
  unfold validatePoolSize sectorSize
  simp only [Bool.not_eq_true', Bool.or_eq_false_iff, beq_eq_false_iff_ne, decide_eq_false_iff_not, ne_eq]
  omega

theorem alignedSize_mb (n : ℕ) : alignedSize (n * 2^20) = n * 2^20 := by
  unfold alignedSize
  apply if_pos
  unfold sectorSize
  omega

theorem volumeCreatePoolFile_ok {dr : Drives} {env : PoolEnv} {s : Pools} {disk : DiskId} {mb : ℕ} :
    (volumeCreatePoolFile dr env s disk mb).1 = true ↔ PoolMakes dr env disk ∧ mb % 2^44 ≠ 0 := by
  unfold volumeCreatePoolFile
  rw [size_wraps]
  cases hv : validatePoolSize (mb % 2^44 * 2^20) with
  | false =>
    have hzero : ¬ mb % 2^44 ≠ 0 := by
      rw [← validatePoolSize_mb, hv]
      decide
    rw [if_pos rfl]
    simp only [Bool.false_eq_true, false_iff, not_and]
    exact fun _ => hzero
  | true =>
    rw [if_neg (by decide), poolFileCreate_ok, hv, ← validatePoolSize_mb, hv]

/-- A pool that is made has the size the product wraps to. -/
theorem volumeCreatePoolFile_sized {dr : Drives} {env : PoolEnv} {s : Pools} {disk : DiskId} {mb : ℕ}
    (h : (volumeCreatePoolFile dr env s disk mb).1 = true) :
    PoolSized dr disk (mb % 2^44) (volumeCreatePoolFile dr env s disk mb).2 := by
  obtain ⟨⟨hpath, hmakes⟩, hne⟩ := volumeCreatePoolFile_ok.mp h
  obtain ⟨p, hp⟩ := Option.isSome_iff_exists.mp hpath
  have hv : validatePoolSize (mb % 2^44 * 2^20) = true := (validatePoolSize_mb _).mpr hne
  obtain ⟨_, hinfo, hfile⟩ := poolFileCreate_made dr env s hp hv
  have heq : volumeCreatePoolFile dr env s disk mb = poolFileCreate dr env s disk (mb % 2^44 * 2^20) := by
    unfold volumeCreatePoolFile
    rw [size_wraps, hv]
    rfl
  rw [heq] at h ⊢
  rw [alignedSize_mb] at hinfo hfile
  refine ⟨?_, p, hp, hfile h⟩
  rw [hinfo]
  exact congrArg DiskInfo.poolBytes (if_pos rfl)

theorem sizeFits_iff (mb : ℕ) : SizeFits mb ↔ mb % 2^44 = mb ∨ mb % 2^44 = 0 := by
  unfold SizeFits
  omega

/-- A pool that is made has the size asked for exactly when the size fits or no pool can be made. -/
theorem poolSized_iff (dr : Drives) (env : PoolEnv) (s : Pools) (disk : DiskId) (mb : ℕ) :
    ((volumeCreatePoolFile dr env s disk mb).1 = true → PoolSized dr disk mb (volumeCreatePoolFile dr env s disk mb).2) ↔
      SizeFits mb ∨ ¬ PoolMakes dr env disk := by
  rw [sizeFits_iff]
  constructor
  · intro h
    by_cases hmakes : PoolMakes dr env disk
    · by_cases hzero : mb % 2^44 = 0
      · exact Or.inl (Or.inr hzero)
      · have hok := volumeCreatePoolFile_ok (s := s).mpr ⟨hmakes, hzero⟩
        have hwrapped := (volumeCreatePoolFile_sized hok).record
        rw [(h hok).record] at hwrapped
        exact Or.inl (Or.inl (by omega))
    · exact Or.inr hmakes
  · intro h hok
    obtain ⟨hmakes, hne⟩ := volumeCreatePoolFile_ok.mp hok
    have hsame : mb % 2^44 = mb := by
      rcases h with (h | h) | h
      · exact h
      · exact absurd h hne
      · exact absurd hmakes h
    have hsized := volumeCreatePoolFile_sized hok
    rwa [hsame] at hsized

/-- For every 64-bit number of megabytes, `init` and `rebuild` make pools of that size or none at
all exactly when the bytes fit into 64 bits, or nothing can be made there anyway. -/
theorem poolSize_exact (dr : Drives) (env : PoolEnv) (s : Pools) (mb : UInt64) :
    (∀ disk, ((volumeCreatePoolFile dr env s disk mb.toNat).1 = true →
        PoolSized dr disk mb.toNat (volumeCreatePoolFile dr env s disk mb.toNat).2) ↔
      SizeFits mb.toNat ∨ ¬ PoolMakes dr env disk) ∧
    ∀ (v : StripeVolume) (physical : List DiskId) (replaceIdx newDiskId : ℕ),
      ((rebuildCreate dr env v s physical replaceIdx newDiskId mb.toNat).1 = true →
        PoolSized dr (physical.getD newDiskId 0) mb.toNat
          (rebuildCreate dr env v s physical replaceIdx newDiskId mb.toNat).2) ↔
      SizeFits mb.toNat ∨ ¬ PoolMakes dr env (physical.getD newDiskId 0) ∨
        ¬ RebuildAsks dr v physical replaceIdx newDiskId := by
  refine ⟨fun disk => poolSized_iff dr env s disk mb.toNat, fun v physical replaceIdx newDiskId => ?_⟩
  unfold rebuildCreate
  by_cases hasks : RebuildAsks dr v physical replaceIdx newDiskId
  · rw [if_pos hasks, poolSized_iff]
    simp [hasks]
  · rw [if_neg hasks]
    exact ⟨fun _ => Or.inr (Or.inr hasks), fun _ h => by cases h⟩

/-- `init 0:17592186045440 1:1024` succeeds with two pools of 1024 MB. -/
theorem poolSize_exact_fails :
    (∃ t, raidInitPools freshPools [.pair (some 0) (some 17592186045440), .pair (some 1) (some 1024)]
        (raidScan twoDrives emptyConsole).2 = (.ok, t) ∧
      t.session.disks.map (fun k => (t.info k).poolBytes) = [1024 * 2^20, 1024 * 2^20]) ∧
    ¬ ∀ (dr : Drives) (env : PoolEnv) (s : Pools) (disk : DiskId) (mb : UInt64), 1024 ≤ mb.toNat →
      (volumeCreatePoolFile dr env s disk mb.toNat).1 = true →
        PoolSized dr disk mb.toNat (volumeCreatePoolFile dr env s disk mb.toNat).2 := by
  constructor
  · exact ⟨_, rfl, rfl⟩
  · intro h
    have hmb : (17592186045440 : UInt64).toNat = 17592186045440 := rfl
    have hok : (volumeCreatePoolFile ⟨fun _ => true, fun _ => true, some⟩ .good ⟨fun _ => scannedDisk, fun _ => none⟩ 0
        (17592186045440 : UInt64).toNat).1 = true :=
      volumeCreatePoolFile_ok.mpr ⟨⟨rfl, rfl, rfl⟩, by rw [hmb]; decide⟩
    have hwrapped := (volumeCreatePoolFile_sized hok).record
    rw [(h _ _ _ _ 17592186045440 (by decide) hok).record, hmb] at hwrapped
    omega

end RaidTest.Service
