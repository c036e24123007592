import RaidTest.Metadata.Format
import RaidTest.Volume.Load

/-!
# From a volume to its superblock and back (`superblock_write`, `superblock_restore`)

The volume has a counter of its superblock writes, which goes up with each. A restored volume
takes everything from the superblock but its members, whose drives are found by serial number.
-/

namespace RaidTest.Metadata
open RaidTest.Base RaidTest.Journal

/-- `STRIPE_VOLUME` with the fields only superblocks are concerned with. -/
structure VolumeRecord where
  v : StripeVolume
  generation : ℕ
  uuidHigh : ℕ
  uuidLow : ℕ
  createdTime : ℕ
  lastMountTime : ℕ

/-- The rest of a `DISK_INFO`; `driveLetter` is `drive_letter[0]`. -/
structure DiskLabel where
  driveLetter : ℕ
  benchReadMbs : ℕ
  serialNumber : ℕ → ℕ

/-! ### Making a superblock -/

/-- `root`, which ends where the letter is 0. -/
def rootOf (letter : ℕ) : ℕ → ℕ := fun i =>
  if letter = 0 then 0 else if i = 0 then letter else if i = 1 then 0x3A else if i = 2 then 0x5C else 0

/-- `strncpy_s(.., MAX_SERIAL_LEN, s, _TRUNCATE)` over zeros. -/
def copySerial (s : ℕ → ℕ) : ℕ → ℕ := fun i =>
  if i + 1 < maxSerialLen ∧ ∀ j ≤ i, s j ≠ 0 then s i else 0

/-- The superblock `superblock_write` makes of the volume at a time of the clock. -/
def makeSuperblock (time : ℕ) (label : DiskId → DiskLabel) (info : DiskId → DiskInfo) (r : VolumeRecord) : SuperblockV4 where
  magic := superblockMagic
  version := superblockVersion
  diskCount := r.v.diskCount
  stripeUnit := r.v.stripeUnit
  virtualTotalBytes := r.v.virtualTotalBytes
  phaseCount := r.v.phaseCount
  generation := u64 (r.generation + 1)
  timestamp := time
  featureFlags := (if r.v.cacheEnabled then sbFeatureCache else 0) + (if r.v.raidLevel = .mirror then sbFeatureMirror else 0)
  journalOffset := 0
  uuidHigh := r.uuidHigh
  uuidLow := r.uuidLow
  createdTime := if r.createdTime = 0 then time else r.createdTime
  lastMountTime := time
  disks := fun i =>
    if i < r.v.diskCount then
      let disk := r.v.diskAt i
      ⟨rootOf (label disk).driveLetter, (info disk).benchWriteMbs, (label disk).benchReadMbs, (info disk).poolBytes,
        copySerial (label disk).serialNumber⟩
    else .zero
  phases := fun p => if p < r.v.phaseCount ∧ p < maxDisks then r.v.phases p else .zero
  checksum := 0

/-! ### Restoring a volume -/

/-- A character array as a string. -/
def cString (s : ℕ → ℕ) : List ℕ := ((List.range maxSerialLen).map s).takeWhile fun c => c ≠ 0

/-- `match_disk_by_serial`. -/
def matchDiskBySerial (serial : ℕ → ℕ) (physical : List (Option DiskLabel)) : Option DiskLabel :=
  if serial 0 = 0 then none
  else (physical.find? fun x => x.any fun y => cString serial = cString y.serialNumber).bind id

/-- The record of a restored disk. -/
def restoreLabel (physical : List (Option DiskLabel)) (e : DiskEntry) : DiskLabel :=
  match matchDiskBySerial e.serialNumber physical with
  | some phys => ⟨phys.driveLetter, e.benchReadMbs, copySerial phys.serialNumber⟩
  | none => ⟨e.driveLetter 0, e.benchReadMbs, copySerial e.serialNumber⟩

/-- What of the superblock makes the volume. -/
def SuperblockV4.base (sb : SuperblockV4) : Volume.Superblock where
  diskCount := sb.diskCount
  stripeUnit := sb.stripeUnit
  virtualTotalBytes := sb.virtualTotalBytes
  phaseCount := sb.phaseCount
  mirror := decide (sb.featureFlags / sbFeatureMirror % 2 = 1)
  disks := fun i => ⟨(sb.disks i).benchWriteMbs, (sb.disks i).poolBytes⟩
  phases := sb.phases

/-- `superblock_restore`: whether it succeeds, the volume, the disk records and their labels. -/
def restoreRecord (opens : ℕ → Bool) (physical : List (Option DiskLabel)) (sb : SuperblockV4) (r : VolumeRecord)
    (d : Disks) (disksOut : ℕ → DiskId) : Bool × VolumeRecord × Disks × (ℕ → DiskLabel) :=
  let (ok, v, d) := Volume.superblockRestore opens sb.base r.v d disksOut
  let labels := fun i => restoreLabel physical (sb.disks i)
  if sb.diskCount < minDisks ∨ sb.diskCount > maxDisks then (ok, { r with v := v }, d, labels)
  else (ok, ⟨v, sb.generation, sb.uuidHigh, sb.uuidLow, sb.createdTime, sb.lastMountTime⟩, d, labels)

end RaidTest.Metadata
