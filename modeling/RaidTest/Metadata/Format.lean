import RaidTest.Base.Codec
import RaidTest.Journal.Format

/-!
# Superblocks on disk (`superblock.h`, `superblock.c`)

A superblock is a packed record that ends with the checksum of what is before it. There are
four versions; the older ones lack fields, and are read into a record of the current one with
zeros in those.
-/

namespace RaidTest.Metadata
open RaidTest.Base RaidTest.Journal

/-! ### Records -/

/-- `SB_DISK_ENTRY`, with characters as numbers. -/
structure DiskEntry where
  driveLetter : ℕ → ℕ
  benchWriteMbs : ℕ
  benchReadMbs : ℕ
  poolBytes : ℕ
  serialNumber : ℕ → ℕ

/-- `SUPERBLOCK`, which is version 4. -/
structure SuperblockV4 where
  magic : ℕ
  version : ℕ
  diskCount : ℕ
  stripeUnit : ℕ
  virtualTotalBytes : ℕ
  phaseCount : ℕ
  generation : ℕ
  timestamp : ℕ
  featureFlags : ℕ
  journalOffset : ℕ
  uuidHigh : ℕ
  uuidLow : ℕ
  createdTime : ℕ
  lastMountTime : ℕ
  disks : ℕ → DiskEntry
  phases : ℕ → MappingPhase
  checksum : ℕ

def DiskEntry.zero : DiskEntry := ⟨fun _ => 0, 0, 0, 0, fun _ => 0⟩

/-- The record `memset` leaves. -/
def SuperblockV4.zero : SuperblockV4 := ⟨0, 0, 0, 0, 0, 0, 0, 0, 0, 0, 0, 0, 0, 0, fun _ => .zero, fun _ => .zero, 0⟩

def superblockMagic : ℕ := 0x52414944
def superblockVersion : ℕ := 4
def sbFeatureCache : ℕ := 2
def sbFeatureMirror : ℕ := 4
def maxSerialLen : ℕ := 64

/-! ### Layouts -/

/-- `MAPPING_PHASE`; its fields leave no room between them. -/
def phaseCodec : Codec MappingPhase :=
  .record (.pair (.num 4) (.pair (.array (.num 4) maxDisks 0) (.pair (.array (.num 4) maxDisks 0) (.pair (.num 4)
      (.pair (.num 8) (.pair (.num 8) (.pair (.array (.num 8) maxDisks 0) (.num 8))))))))
    (fun p => (p.activeCount, p.activeDiskIndices, p.ratios, p.totalRatio, p.virtualStartBytes, p.virtualSizeBytes,
      p.physicalStartsBytes, p.cycleSizeBytes))
    (fun (a, i, r, t, vs, vz, ps, c) => ⟨a, i, r, t, vs, vz, ps, c⟩)

/-- `SB_DISK_ENTRY_V2`, which has no serial number. -/
def entryCodecV2 : Codec DiskEntry :=
  .record (.pair (.array (.num 2) 4 0) (.pair (.num 4) (.pair (.num 4) (.num 8))))
    (fun e => (e.driveLetter, e.benchWriteMbs, e.benchReadMbs, e.poolBytes))
    (fun (l, w, r, p) => ⟨l, w, r, p, fun _ => 0⟩)

def entryCodec : Codec DiskEntry :=
  .record (.pair (.array (.num 2) 4 0) (.pair (.num 4) (.pair (.num 4) (.pair (.num 8)
      (.array (.num 1) maxSerialLen 0)))))
    (fun e => (e.driveLetter, e.benchWriteMbs, e.benchReadMbs, e.poolBytes, e.serialNumber))
    (fun (l, w, r, p, s) => ⟨l, w, r, p, s⟩)

/-- `magic .. phase_count`, which every version begins with. -/
def headCodec : Codec (ℕ × ℕ × ℕ × ℕ × ℕ × ℕ) :=
  .pair (.num 4) (.pair (.num 4) (.pair (.num 4) (.pair (.num 4) (.pair (.num 8) (.num 4)))))

def SuperblockV4.head (sb : SuperblockV4) : ℕ × ℕ × ℕ × ℕ × ℕ × ℕ :=
  (sb.magic, sb.version, sb.diskCount, sb.stripeUnit, sb.virtualTotalBytes, sb.phaseCount)

/-- `generation .. journal_offset`, from version 2 on. -/
def counterCodec : Codec (ℕ × ℕ × ℕ × ℕ) := .pair (.num 8) (.pair (.num 8) (.pair (.num 4) (.num 8)))

def SuperblockV4.counters (sb : SuperblockV4) : ℕ × ℕ × ℕ × ℕ :=
  (sb.generation, sb.timestamp, sb.featureFlags, sb.journalOffset)

/-- `SUPERBLOCK_V1` up to its checksum; so the next three. -/
def bodyV1 : Codec SuperblockV4 :=
  .record (.pair headCodec (.pair (.array entryCodec maxDisks .zero) (.array phaseCodec maxDisks .zero)))
    (fun sb => (sb.head, sb.disks, sb.phases))
    (fun ((m, v, n, u, t, p), ds, ps) => { SuperblockV4.zero with
      magic := m, version := v, diskCount := n, stripeUnit := u, virtualTotalBytes := t, phaseCount := p
      disks := ds, phases := ps })

def bodyV2 : Codec SuperblockV4 :=
  .record (.pair headCodec (.pair counterCodec (.pair (.array entryCodecV2 maxDisks .zero)
      (.array phaseCodec maxDisks .zero))))
    (fun sb => (sb.head, sb.counters, sb.disks, sb.phases))
    (fun ((m, v, n, u, t, p), (g, ts, f, j), ds, ps) => { SuperblockV4.zero with
      magic := m, version := v, diskCount := n, stripeUnit := u, virtualTotalBytes := t, phaseCount := p
      generation := g, timestamp := ts, featureFlags := f, journalOffset := j, disks := ds, phases := ps })

def bodyV3 : Codec SuperblockV4 :=
  .record (.pair headCodec (.pair counterCodec (.pair (.array entryCodec maxDisks .zero)
      (.array phaseCodec maxDisks .zero))))
    (fun sb => (sb.head, sb.counters, sb.disks, sb.phases))
    (fun ((m, v, n, u, t, p), (g, ts, f, j), ds, ps) => { SuperblockV4.zero with
      magic := m, version := v, diskCount := n, stripeUnit := u, virtualTotalBytes := t, phaseCount := p
      generation := g, timestamp := ts, featureFlags := f, journalOffset := j, disks := ds, phases := ps })

def bodyV4 : Codec SuperblockV4 :=
  .record (.pair headCodec (.pair counterCodec (.pair (.pair (.num 8) (.pair (.num 8) (.pair (.num 8) (.num 8))))
      (.pair (.array entryCodec maxDisks .zero) (.array phaseCodec maxDisks .zero)))))
    (fun sb => (sb.head, sb.counters, (sb.uuidHigh, sb.uuidLow, sb.createdTime, sb.lastMountTime), sb.disks, sb.phases))
    (fun ((m, v, n, u, t, p), (g, ts, f, j), (uh, ul, c, lm), ds, ps) =>
      ⟨m, v, n, u, t, p, g, ts, f, j, uh, ul, c, lm, ds, ps, 0⟩)

/-- `sizeof(SUPERBLOCK)`. -/
def superblockSize : ℕ := bodyV4.size + 4

example : (bodyV1.size, bodyV2.size, bodyV3.size, superblockSize) = (764, 536, 792, 828) := rfl

/-! ### Reading and writing -/

/-- The record that begins `raw`, if it is there and its checksum is right. -/
def checked (c : Codec SuperblockV4) (raw : List Byte) : Option SuperblockV4 :=
  if raw.length < c.size + 4 then none
  else
    let saved := (Codec.num 4).get (raw.drop c.size)
    if (crc32 (raw.take c.size)).toNat ≠ saved then none else some { c.get raw with checksum := saved }

/-- What `try_read_superblock_from_drive` makes of the bytes it reads. -/
def parse (raw : List Byte) : Option SuperblockV4 :=
  if raw.length < 4 ∨ (Codec.num 4).get raw ≠ superblockMagic then none
  else if raw.length < 8 then none
  else
    match (Codec.num 4).get (raw.drop 4) with
    | 1 => (checked bodyV1 raw).map fun sb => { sb with version := 2 }
    | 2 => (checked bodyV2 raw).map fun sb => { sb with version := 3 }
    | 3 => (checked bodyV3 raw).map fun sb => { sb with version := 4 }
    | 4 => checked bodyV4 raw
    | _ => none

/-- The bytes of the record, with the checksum put in. -/
def SuperblockV4.image (sb : SuperblockV4) : List Byte :=
  bodyV4.put sb ++ (Codec.num 4).put (crc32 (bodyV4.put sb)).toNat

/-- The record as its C types hold it, with the checksum put in. -/
def SuperblockV4.stored (sb : SuperblockV4) : SuperblockV4 :=
  { bodyV4.cut sb with checksum := (crc32 (bodyV4.put sb)).toNat }

theorem bodyV4_get_magic (raw : List Byte) : (bodyV4.get raw).magic = (Codec.num 4).get raw := rfl

theorem bodyV4_get_version (raw : List Byte) : (bodyV4.get raw).version = (Codec.num 4).get (raw.drop 4) := rfl

theorem image_length (sb : SuperblockV4) : sb.image.length = superblockSize := by
  rw [SuperblockV4.image, List.length_append, bodyV4.put_length, (Codec.num 4).put_length]
  rfl

theorem image_get (sb : SuperblockV4) : bodyV4.get sb.image = bodyV4.cut sb := bodyV4.get_put sb _

theorem image_saved (sb : SuperblockV4) :
    (Codec.num 4).get (sb.image.drop bodyV4.size) = (crc32 (bodyV4.put sb)).toNat := by
  have hget := (Codec.num 4).get_put (crc32 (bodyV4.put sb)).toNat []
  rw [List.append_nil, Codec.num_cut (by have h := (crc32 (bodyV4.put sb)).toNat_lt; omega)] at hget
  rw [SuperblockV4.image, ← bodyV4.put_length sb, List.drop_left, hget]

theorem image_body (sb : SuperblockV4) : sb.image.take bodyV4.size = bodyV4.put sb := by
  rw [SuperblockV4.image, ← bodyV4.put_length sb, List.take_left]

theorem checked_image (sb : SuperblockV4) : checked bodyV4 sb.image = some sb.stored := by
  unfold checked
  rw [if_neg (by rw [image_length]; exact Nat.lt_irrefl _)]
  simp only [image_saved, image_body, image_get, SuperblockV4.stored]
  rw [if_neg (fun h => h rfl)]

theorem parse_current {raw : List Byte} (hlen : 8 ≤ raw.length) (hm : (Codec.num 4).get raw = superblockMagic)
    (hv : (Codec.num 4).get (raw.drop 4) = 4) : parse raw = checked bodyV4 raw := by
  unfold parse
  rw [if_neg (by omega), if_neg (by omega), hv]
  rfl

theorem image_magic {sb : SuperblockV4} (h : sb.magic = superblockMagic) : (Codec.num 4).get sb.image = superblockMagic := by
  have hcut : (bodyV4.cut sb).magic = sb.magic % 256 ^ 4 := rfl
  rw [← bodyV4_get_magic, image_get, hcut, h]
  decide

theorem image_version {sb : SuperblockV4} (h : sb.version = superblockVersion) :
    (Codec.num 4).get (sb.image.drop 4) = 4 := by
  have hcut : (bodyV4.cut sb).version = sb.version % 256 ^ 4 := rfl
  rw [← bodyV4_get_version, image_get, hcut, h]
  decide

/-- A record of the current version is read back. -/
theorem parse_image {sb : SuperblockV4} (hmagic : sb.magic = superblockMagic) (hversion : sb.version = superblockVersion) :
    parse sb.image = some sb.stored := by
  have hlen : 8 ≤ sb.image.length := by
    rw [image_length]
    decide
  rw [parse_current hlen (image_magic hmagic) (image_version hversion), checked_image]

end RaidTest.Metadata
