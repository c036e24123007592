import RaidTest.Journal.Recover

/-!
# Loading a volume (`superblock_restore`, `volume_load`)

A volume is put together again from its superblock: the record is cleared, the pool files
are opened, and the journals are recovered. The worker threads of a stripe volume are not
among the things that are put back, so nothing the recovery writes reaches a pool.
-/

namespace RaidTest.Volume
open RaidTest.Base RaidTest.Stripe RaidTest.Mirror RaidTest.Journal

/-! ### Restoring -/

/-- `SB_DISK_ENTRY`, as far as it goes into the record of the disk. -/
structure SbDiskEntry where
  benchWriteMbs : ℕ
  poolBytes : ℕ

/-- `SUPERBLOCK`; `mirror` is `SB_FEATURE_MIRROR` among the feature flags. -/
structure Superblock where
  diskCount : ℕ
  stripeUnit : ℕ
  virtualTotalBytes : ℕ
  phaseCount : ℕ
  mirror : Bool
  disks : ℕ → SbDiskEntry
  phases : ℕ → MappingPhase

/-- The volume `superblock_restore` makes when the first `n` pool files open; the records are
those of `disks_out`. -/
def restoreVolume (sb : Superblock) (n : ℕ) (disksOut : ℕ → DiskId) : StripeVolume :=
  { StripeVolume.zero with
    diskCount := sb.diskCount
    stripeUnit := sb.stripeUnit
    virtualTotalBytes := sb.virtualTotalBytes
    raidLevel := if sb.mirror then .mirror else .stripe
    phaseCount := if sb.mirror then 0 else sb.phaseCount
    phases := fun p => if sb.mirror = false ∧ p < sb.phaseCount ∧ p < maxDisks then sb.phases p else .zero
    healthyCount := if sb.mirror then n else 0
    disks := fun i => if i < n then some (disksOut i) else none }

/-- The record of a disk after `superblock_restore`. -/
def restoreDisk (sb : Superblock) (i : ℕ) (opened : Bool) : DiskInfo :=
  ⟨(sb.disks i).poolBytes, 0, (sb.disks i).benchWriteMbs, true, opened, false, false, 0, sb.mirror⟩

/-- How many pool files open before the first that does not. -/
def openedPools (opens : ℕ → Bool) (count : ℕ) : ℕ := (List.range count).findIdx fun i => !opens i

/-- The records after `superblock_restore`, the first `n` of them with their files open. -/
def restoreInfo (sb : Superblock) (n : ℕ) (disksOut : ℕ → DiskId) (info : DiskId → DiskInfo) : DiskId → DiskInfo :=
  (List.range sb.diskCount).foldl (fun info i => if i ≤ n then
    fun k => if k = disksOut i then restoreDisk sb i (decide (n = sb.diskCount)) else info k else info) info

/-- `superblock_restore`. -/
def superblockRestore (opens : ℕ → Bool) (sb : Superblock) (v : StripeVolume) (d : Disks) (disksOut : ℕ → DiskId) :
    Bool × StripeVolume × Disks :=
  if sb.diskCount < minDisks ∨ sb.diskCount > maxDisks then (false, v, d)
  else
    let n := openedPools opens sb.diskCount
    (decide (n = sb.diskCount), restoreVolume sb n disksOut, { d with info := restoreInfo sb n disksOut d.info })

/-- The answers of the environment to one load: the superblock `superblock_read` picks from the
drives, whether the pool files open, and what recovery meets. -/
structure LoadEnv where
  superblock : Option Superblock
  opens : ℕ → Bool
  recover : ℕ → RecoverEnv

/-- `volume_load`. -/
def volumeLoad (env : LoadEnv) (letter : DiskId → Letter) (disksOut : ℕ → DiskId) (v : StripeVolume) (d : Disks)
    (files : Files) : Option (Bool × StripeVolume × Disks × Files) :=
  match env.superblock with
  | none => some (false, v, d, files)
  | some sb =>
    match superblockRestore env.opens sb v d disksOut with
    | (false, v, d) => some (false, v, d, files)
    | (true, v, d) =>
      match journalRecoverAll env.recover letter v d files with
      | none => none
      | some (_, v, d, files) => some (true, v, d, files)

theorem openedPools_all {opens : ℕ → Bool} {count : ℕ} (h : ∀ i < count, opens i = true) :
    openedPools opens count = count := by
  unfold openedPools
  rw [List.findIdx_eq_length.mpr, List.length_range]
  intro i hi
  rw [h i (List.mem_range.mp hi), Bool.not_true]

theorem restoreVolume_diskAt (sb : Superblock) (disksOut : ℕ → DiskId) {i : ℕ} (h : i < sb.diskCount) :
    (restoreVolume sb sb.diskCount disksOut).diskAt i = disksOut i := by
  simp only [StripeVolume.diskAt, restoreVolume, if_pos h, Option.getD_some]

/-! ### A stripe volume without workers -/

/-- A stripe volume that has its layout but no worker threads and no cache. -/
structure Idle (v : StripeVolume) : Prop where
  level : v.raidLevel = .stripe
  uncached : v.cacheEnabled = false
  workers : v.workerState = none

theorem restoreVolume_idle {sb : Superblock} (h : sb.mirror = false) (n : ℕ) (disksOut : ℕ → DiskId) :
    Idle (restoreVolume sb n disksOut) := by
  refine ⟨?_, rfl, rfl⟩
  simp only [restoreVolume, h, Bool.false_eq_true, if_false]

/-- No write gets through to the pools. -/
theorem Idle.write {v : StripeVolume} (h : Idle v) (io : IoEnv) (d : Disks) (buffer : Buf) (off len : ℕ) :
    ∃ ok w, stripeVolumeWrite io v d buffer off len = some (ok, w, d) ∧ SameLayout v w ∧ Idle w := by
  unfold stripeVolumeWrite
  split
  · exact ⟨false, v, rfl, SameLayout.refl v, h⟩
  rw [if_neg (by rw [h.level]; decide), if_neg (fun hc => absurd (h.uncached.symm.trans hc.1) (by decide))]
  have hw : ∀ ok, Idle (addWritten v ok len) := by
    intro ok
    have hs := sameLayout_addWritten v ok len
    exact ⟨hs.raidLevel.trans h.level, by rw [addWritten_cacheEnabled, h.uncached], hs.workers.trans h.workers⟩
  unfold writeDirect
  cases mapLba v off len with
  | none => exact ⟨false, v, rfl, SameLayout.refl v, h⟩
  | some es =>
    by_cases he : es = []
    · refine ⟨true, _, ?_, sameLayout_addWritten v true len, hw true⟩
      simp only [submitEntries, he, if_true]
    · refine ⟨false, _, ?_, sameLayout_addWritten v false len, hw false⟩
      simp only [submitEntries, he, if_false, h.workers]

section Idle
variable {v : StripeVolume} (h : Idle v)
include h

theorem Idle.replay (io : ℕ → IoEnv) (d : Disks) (raw : List Byte) (rs : List Range) (i failed : ℕ) :
    ∃ n w, replayLoop io raw rs i failed v d = some (n, w, d) ∧ SameLayout v w ∧ Idle w := by
  induction rs generalizing v i failed with
  | nil => exact ⟨failed, v, rfl, SameLayout.refl v, h⟩
  | cons r rs ih =>
    unfold replayLoop
    split
    · exact ih h (i + 1) (failed + 1)
    obtain ⟨ok, w, hw, hsame, hidle⟩ := h.write (io i) d (bufAt raw r.dataOff) r.off r.len
    rw [hw]
    cases ok with
    | true =>
      obtain ⟨n, u, h1, h2, h3⟩ := ih hidle (i + 1) failed
      exact ⟨n, u, h1, hsame.trans h2, h3⟩
    | false =>
      obtain ⟨n, u, h1, h2, h3⟩ := ih hidle (i + 1) (failed + 1)
      exact ⟨n, u, h1, hsame.trans h2, h3⟩

/-- A journal as the program leaves it: whole records and at most a torn one at the end. -/
def Row (content : List Byte) : Prop :=
  ∃ recs tail, (∀ r ∈ recs, Rec.Fits r) ∧ TornOff tail ∧ content = images recs ++ tail ∧
    content.length ≤ maxJournal

omit h in
theorem row_nil : Row [] := ⟨[], [], nofun, tornOff_nil, rfl, Nat.zero_le _⟩

theorem Idle.recover (env : RecoverEnv) (d : Disks) {content : List Byte} (hrow : Row content)
    (hread : ∀ n, env.read = some n → content.length ≤ n) :
    ∃ clean w empty, recoverJournal env v d content = some (clean, w, d, empty) ∧ SameLayout v w ∧ Idle w := by
  obtain ⟨recs, tail, hfits, ht, rfl, hsize⟩ := hrow
  unfold recoverJournal
  cases hload : loadJournal env (images recs ++ tail) with
  | none => exact ⟨true, v, false, rfl, SameLayout.refl v, h⟩
  | some raw =>
    have hraw : raw = images recs ++ tail := by
      unfold loadJournal at hload
      split at hload
      · cases hload
      split at hload
      · cases hload
      next n hn =>
      split at hload
      · cases hload
      rw [← Option.some.inj hload, List.take_of_length_le (hread n hn)]
    subst hraw
    obtain ⟨s, hs, _⟩ := scan_images hfits ht hsize
    simp only [hs]
    split
    · obtain ⟨n, w, h1, h2, h3⟩ := h.replay env.io d (images recs ++ tail) s.ranges 0 0
      exact ⟨false, w, _, by rw [h1], h2, h3⟩
    · exact ⟨true, v, _, rfl, SameLayout.refl v, h⟩

omit h in
theorem Idle.recoverLoop (env : ℕ → RecoverEnv) (letter : DiskId → Letter) (d : Disks) (n : ℕ) :
    ∀ (di : ℕ) (allClean : Bool) {v : StripeVolume} {files : Files}, Idle v →
      (∀ i, di ≤ i → i < di + n → Row (files (letter (v.diskAt i))) ∧
        ∀ m, (env i).read = some m → (files (letter (v.diskAt i))).length ≤ m) →
      ∃ clean w files', recoverLoop env letter n di allClean v d files = some (clean, w, d, files') ∧
        SameLayout v w ∧ Idle w := by
  induction n with
  | zero => intro di allClean v files h _; exact ⟨allClean, v, files, rfl, SameLayout.refl v, h⟩
  | succ n ih =>
    intro di allClean v files h hfiles
    unfold Journal.recoverLoop
    obtain ⟨h1, h2⟩ := hfiles di (Nat.le_refl di) (by omega)
    obtain ⟨clean, w, empty, hj, hsame, hidle⟩ := h.recover (env di) d h1 h2
    simp only [hj]
    have hrest : ∀ i, di + 1 ≤ i → i < di + 1 + n →
        Row ((if empty then files.set (letter (v.diskAt di)) [] else files) (letter (w.diskAt i))) ∧
          ∀ m, (env i).read = some m →
            ((if empty then files.set (letter (v.diskAt di)) [] else files) (letter (w.diskAt i))).length ≤ m := by
      intro i hi1 hi2
      rw [hsame.diskAt]
      obtain ⟨hr, hn⟩ := hfiles i (by omega) (by omega)
      cases empty with
      | false => exact ⟨hr, hn⟩
      | true =>
        rw [if_pos rfl]
        by_cases he : letter (v.diskAt i) = letter (v.diskAt di)
        · rw [he, Files.set_same]
          exact ⟨row_nil, fun _ _ => Nat.zero_le _⟩
        · rw [Files.set_other _ _ he]
          exact ⟨hr, hn⟩
    obtain ⟨c, u, files', h3, h4, h5⟩ := ih (di + 1) (allClean && clean) hidle hrest
    exact ⟨c, u, files', h3, hsame.trans h4, h5⟩

end Idle

/-! ### What a load leaves on the pools -/

/-- The ranges of the open transaction of a row of records. -/
def journalled (recs : List Rec) : List (ℕ × List Byte) := if (txnOf recs).incomplete then (txnOf recs).kept else []

/-- The range is on the pools as it was journalled, as far as the volume goes. -/
def InPlace (v : StripeVolume) (d : Disks) (r : ℕ × List Byte) : Prop :=
  ∀ j < r.2.length, r.1 + j < v.virtualTotalBytes → vbyte v d (r.1 + j) = r.2.getD j 0

/-- Loading a stripe volume whose superblock is found and whose pool files open writes no pool
byte, whatever the journals say. -/
theorem volumeLoad_stripe (env : LoadEnv) (letter : DiskId → Letter) (disksOut : ℕ → DiskId) (v : StripeVolume)
    (d : Disks) (files : Files) (sb : Superblock) (hsb : env.superblock = some sb) (hstripe : sb.mirror = false)
    (hcount : minDisks ≤ sb.diskCount ∧ sb.diskCount ≤ maxDisks) (hopens : ∀ i < sb.diskCount, env.opens i = true)
    (hfiles : ∀ i < sb.diskCount, Row (files (letter (disksOut i))) ∧
      ∀ m, (env.recover i).read = some m → (files (letter (disksOut i))).length ≤ m) :
    ∃ w d' files', volumeLoad env letter disksOut v d files = some (true, w, d', files') ∧
      SameLayout (restoreVolume sb sb.diskCount disksOut) w ∧ d'.pool = d.pool := by
  unfold volumeLoad
  rw [hsb]
  unfold superblockRestore
  have h1 := hcount.1
  have h2 := hcount.2
  simp only [openedPools_all hopens]
  rw [if_neg (by omega)]
  have hrows : ∀ i, 0 ≤ i → i < 0 + sb.diskCount →
      Row (files (letter ((restoreVolume sb sb.diskCount disksOut).diskAt i))) ∧
        ∀ m, (env.recover i).read = some m →
          (files (letter ((restoreVolume sb sb.diskCount disksOut).diskAt i))).length ≤ m := by
    intro i _ hi
    rw [restoreVolume_diskAt sb disksOut (by omega)]
    exact hfiles i (by omega)
  obtain ⟨clean, w, files', hr, hsame, _⟩ := Idle.recoverLoop env.recover letter
    { d with info := restoreInfo sb sb.diskCount disksOut d.info } sb.diskCount 0 true
    (restoreVolume_idle hstripe sb.diskCount disksOut) hrows
  have hcount : (restoreVolume sb sb.diskCount disksOut).diskCount = sb.diskCount := rfl
  simp only [decide_true, journalRecoverAll, hcount, hr]
  exact ⟨w, _, files', rfl, hsame, rfl⟩

/-- After a crash in `cache_flush_all` a load of the stripe volume leaves every range that the
drives' journals hold open equal to its payload exactly if the pools held it already. -/
theorem volumeLoad_restores (env : LoadEnv) (letter : DiskId → Letter) (disksOut : ℕ → DiskId) (v : StripeVolume)
    (d : Disks) (files : Files) (sb : Superblock) (recs : Letter → List Rec) (tail : Letter → List Byte)
    (hsb : env.superblock = some sb) (hstripe : sb.mirror = false)
    (hcount : minDisks ≤ sb.diskCount ∧ sb.diskCount ≤ maxDisks) (hopens : ∀ i < sb.diskCount, env.opens i = true)
    (hreads : ∀ i < sb.diskCount, (env.recover i).Reads (files (letter (disksOut i))))
    (hfiles : ∀ i < sb.diskCount, files (letter (disksOut i)) =
        images (recs (letter (disksOut i))) ++ tail (letter (disksOut i)) ∧
      (∀ r ∈ recs (letter (disksOut i)), r.Fits) ∧ TornOff (tail (letter (disksOut i))) ∧
      (files (letter (disksOut i))).length ≤ maxJournal) :
    ∃ w d' files', volumeLoad env letter disksOut v d files = some (true, w, d', files') ∧
      ((∀ i < sb.diskCount, ∀ r ∈ journalled (recs (letter (disksOut i))), InPlace w d' r) ↔
        ∀ i < sb.diskCount, ∀ r ∈ journalled (recs (letter (disksOut i))),
          InPlace (restoreVolume sb sb.diskCount disksOut) d r) := by
  obtain ⟨w, d', files', h1, h2, h3⟩ := volumeLoad_stripe env letter disksOut v d files sb hsb hstripe hcount hopens
    (fun i hi => by
      obtain ⟨hf, hfits, ht, hsize⟩ := hfiles i hi
      refine ⟨⟨_, _, hfits, ht, hf, hsize⟩, fun m hm => ?_⟩
      obtain ⟨n, hn, hle⟩ := (hreads i hi).read
      obtain rfl := Option.some.inj (hn.symm.trans hm)
      exact hle)
  have hplace : InPlace w d' = InPlace (restoreVolume sb sb.diskCount disksOut) d := by
    funext r
    simp only [InPlace, h2.total, h2.vbyte, vbyte_pool _ h3]
  refine ⟨w, d', files', h1, ?_⟩
  rw [hplace]

/-! ### A crash between the journal and the pools -/

/-- The superblock `superblock_write` leaves of a volume. -/
def superblockOf (v : StripeVolume) (info : DiskId → DiskInfo) : Superblock where
  diskCount := v.diskCount
  stripeUnit := v.stripeUnit
  virtualTotalBytes := v.virtualTotalBytes
  phaseCount := v.phaseCount
  mirror := decide (v.raidLevel = .mirror)
  disks := fun i => ⟨(info (v.diskAt i)).benchWriteMbs, (info (v.diskAt i)).poolBytes⟩
  phases := v.phases

/-- Two disks of two cache blocks each, full of zeros. -/
def plainDisks : Disks := ⟨fun _ => ⟨131072, 100, 0, false, true, false, false, 0, true⟩, fun _ _ => 0⟩

def plainVolume : StripeVolume := (stripeVolumeCreate plainDisks [0, 1] 65536).getD .zero

/-- One cache block of sevens is journalled, and the crash comes before its batch is written. -/
def crashRecs : List Rec := [.begin 0 0, .data 0 0 0 (List.replicate 65536 7)]

def crashFiles : Files := fun l => if l = 0 then images crashRecs else []

def crashEnv : LoadEnv where
  superblock := some (superblockOf plainVolume plainDisks.info)
  opens := fun _ => true
  recover := fun i => ⟨true, true, true, some (crashFiles i).length, fun _ => .good, true⟩

theorem crashRecs_fits : ∀ r ∈ crashRecs, r.Fits := by
  intro r hr
  simp only [crashRecs, List.mem_cons, List.not_mem_nil, or_false] at hr
  rcases hr with rfl | rfl
  · exact ⟨by decide, by decide⟩
  · refine ⟨by decide, by decide, by decide, ?_⟩
    rw [List.length_replicate]
    decide

theorem images_pair (payload : List Byte) :
    (images [.begin 0 0, .data 0 0 0 payload]).length = entrySize + (entrySize + payload.length) := by
  simp only [images, List.map_cons, List.map_nil, List.flatten_cons, List.flatten_nil, List.length_append,
    Rec.image_length, Rec.payload, List.length_nil, Nat.add_zero]

theorem crashRecs_length : (images crashRecs).length = 65632 := by
  rw [crashRecs, images_pair, List.length_replicate]
  rfl

theorem crashFiles_row (l : Letter) : crashFiles l = images (if l = 0 then crashRecs else []) ++ [] ∧
    (∀ r ∈ (if l = 0 then crashRecs else []), r.Fits) ∧ TornOff [] ∧ (crashFiles l).length ≤ maxJournal := by
  have hmax : maxJournal = 67108864 := rfl
  unfold crashFiles
  by_cases hl : l = 0
  · simp only [if_pos hl, List.append_nil, crashRecs_length, true_and]
    exact ⟨crashRecs_fits, tornOff_nil, by omega⟩
  · simp only [if_neg hl]
    exact ⟨rfl, nofun, tornOff_nil, Nat.zero_le _⟩

/-- The load succeeds, and the block is still zeros. -/
theorem volumeLoad_restores_fails :
    ∃ w d' files', volumeLoad crashEnv id id .zero plainDisks crashFiles = some (true, w, d', files') ∧
      (∀ i k, ((crashEnv.recover i).io k).Succeeds) ∧
      (0, List.replicate 65536 7) ∈ journalled crashRecs ∧ ¬ InPlace w d' (0, List.replicate 65536 7) := by
  obtain ⟨w, d', files', h1, h2, h3⟩ := volumeLoad_stripe crashEnv id id .zero plainDisks crashFiles
    (superblockOf plainVolume plainDisks.info) rfl (by decide) ⟨by decide, by decide⟩ (fun _ _ => rfl) (by
      intro i _
      obtain ⟨hf, hfits, ht, hsize⟩ := crashFiles_row i
      exact ⟨⟨_, _, hfits, ht, hf, hsize⟩, fun m hm => Nat.le_of_eq (Option.some.inj hm)⟩)
  refine ⟨w, d', files', h1, fun _ _ => IoEnv.good_succeeds, List.mem_singleton.mpr rfl, fun hin => ?_⟩
  have hlen : (List.replicate 65536 (7 : Byte)).length = 65536 := List.length_replicate
  have htotal : w.virtualTotalBytes = 262144 := h2.total.trans (by decide)
  have h0 := hin 0 (by simp only [hlen]; decide) (by rw [htotal]; decide)
  have hzero : vbyte w d' 0 = 0 := by
    unfold vbyte
    rw [h3]
    rfl
  rw [Nat.add_zero, hzero, List.getD_eq_getElem _ _ (by rw [hlen]; decide), List.getElem_replicate] at h0
  exact absurd h0 (by decide)

theorem volumeLoad_restores_sample :
    ∃ w d' files', volumeLoad crashEnv id id .zero plainDisks crashFiles = some (true, w, d', files') ∧
      ((∀ i < plainVolume.diskCount, ∀ r ∈ journalled (if i = 0 then crashRecs else []), InPlace w d' r) ↔
        ∀ i < plainVolume.diskCount, ∀ r ∈ journalled (if i = 0 then crashRecs else []),
          InPlace (restoreVolume (superblockOf plainVolume plainDisks.info) plainVolume.diskCount id) plainDisks r) :=
  volumeLoad_restores crashEnv id id .zero plainDisks crashFiles (superblockOf plainVolume plainDisks.info)
    (fun l => if l = 0 then crashRecs else []) (fun _ => []) rfl (by decide) ⟨by decide, by decide⟩ (fun _ _ => rfl)
    (fun _ _ => ⟨rfl, rfl, rfl, _, rfl, Nat.le_refl _⟩) (fun i _ => crashFiles_row i)

end RaidTest.Volume
