import RaidTest.Metadata.Drive

/-!
# The four layouts of a superblock (`try_read_superblock_from_drive`)

One reader takes all four versions. It tells them apart by the second number, checks the bytes
before the checksum of that layout, and fills what the layout has not with zeros.
-/

namespace RaidTest.Metadata
open RaidTest.Base RaidTest.Journal

/-! ### Layouts -/

/-- `SUPERBLOCK_V1`, `SUPERBLOCK_V2`, `SUPERBLOCK_V3` and `SUPERBLOCK`. -/
inductive Layout where
  | v1
  | v2
  | v3
  | v4
  deriving DecidableEq, Repr

namespace Layout

/-- The `version` of its images. -/
def number : Layout → ℕ
  | v1 => 1
  | v2 => 2
  | v3 => 3
  | v4 => 4

/-- The fields before the checksum. -/
def body : Layout → Codec SuperblockV4
  | v1 => bodyV1
  | v2 => bodyV2
  | v3 => bodyV3
  | v4 => bodyV4

/-- The record is read as one of the next version. -/
def upgrade : Layout → SuperblockV4 → SuperblockV4
  | v1, sb => { sb with version := 2 }
  | v2, sb => { sb with version := 3 }
  | v3, sb => { sb with version := 4 }
  | v4, sb => sb

/-- It has `generation .. journal_offset`. -/
def counted (l : Layout) : Bool := l != v1

/-- Its disk entries have a serial number. -/
def labelled (l : Layout) : Bool := l != v2

/-- It has `volume_uuid`, `created_time` and `last_mount_time`. -/
def identified (l : Layout) : Bool := l == v4

/-- The packed image with the checksum put in. -/
def image (l : Layout) (sb : SuperblockV4) : List Byte :=
  l.body.put sb ++ (Codec.num 4).put (crc32 (l.body.put sb)).toNat

theorem size_le (l : Layout) : 8 ≤ l.body.size ∧ l.body.size + 4 ≤ rawSize := by
  cases l <;> exact ⟨by decide, by decide⟩

theorem number_lt (l : Layout) : l.number < 256 ^ 4 := by
  cases l <;> decide

theorem number_inj {l k : Layout} (h : l.number = k.number) : l = k := by
  cases l <;> cases k <;> first | rfl | exact absurd h (by decide)

theorem get_magic (l : Layout) (raw : List Byte) : (l.body.get raw).magic = (Codec.num 4).get raw := by
  cases l <;> rfl

theorem get_version (l : Layout) (raw : List Byte) : (l.body.get raw).version = (Codec.num 4).get (raw.drop 4) := by
  cases l <;> rfl

theorem cut_magic (l : Layout) (sb : SuperblockV4) : (l.body.cut sb).magic = sb.magic % 256 ^ 4 := by
  cases l <;> rfl

theorem cut_version (l : Layout) (sb : SuperblockV4) : (l.body.cut sb).version = sb.version % 256 ^ 4 := by
  cases l <;> rfl

theorem image_length (l : Layout) (sb : SuperblockV4) : (l.image sb).length = l.body.size + 4 := by
  rw [image, List.length_append, l.body.put_length, (Codec.num 4).put_length]
  rfl

theorem get_image (l : Layout) (sb : SuperblockV4) : l.body.get (l.image sb) = l.body.cut sb := l.body.get_put sb _

end Layout

/-! ### What is accepted -/

/-- The bytes begin like an image of the layout, with the right checksum. -/
structure ImageOf (l : Layout) (raw : List Byte) : Prop where
  length : l.body.size + 4 ≤ raw.length
  magic : (Codec.num 4).get raw = superblockMagic
  version : (Codec.num 4).get (raw.drop 4) = l.number
  checksum : (Codec.num 4).get (raw.drop l.body.size) = (crc32 (raw.take l.body.size)).toNat

theorem checked_eq {c : Codec SuperblockV4} {raw : List Byte} (hlen : c.size + 4 ≤ raw.length)
    (hsum : (Codec.num 4).get (raw.drop c.size) = (crc32 (raw.take c.size)).toNat) :
    checked c raw = some { c.get raw with checksum := (crc32 (raw.take c.size)).toNat } := by
  unfold checked
  rw [if_neg (Nat.not_lt.mpr hlen)]
  simp only [hsum]
  rw [if_neg (fun h => h rfl)]

theorem checked_some {c : Codec SuperblockV4} {raw : List Byte} {sb : SuperblockV4} (h : checked c raw = some sb) :
    c.size + 4 ≤ raw.length ∧ (Codec.num 4).get (raw.drop c.size) = (crc32 (raw.take c.size)).toNat := by
  unfold checked at h
  split at h
  · cases h
  next hlen =>
  simp only at h
  split at h
  · cases h
  next hsum =>
  exact ⟨Nat.not_lt.mp hlen, (not_ne_iff.mp hsum).symm⟩

theorem parse_layout (l : Layout) {raw : List Byte} (hlen : 8 ≤ raw.length)
    (hm : (Codec.num 4).get raw = superblockMagic) (hv : (Codec.num 4).get (raw.drop 4) = l.number) :
    parse raw = (checked l.body raw).map l.upgrade := by
  unfold parse
  rw [if_neg (by omega), if_neg (by omega), hv]
  cases l with
  | v1 => rfl
  | v2 => rfl
  | v3 => rfl
  | v4 => exact Option.map_id'.symm

theorem parse_imageOf {l : Layout} {raw : List Byte} (h : ImageOf l raw) : parse raw =
    some (l.upgrade { l.body.get raw with checksum := (crc32 (raw.take l.body.size)).toNat }) := by
  have hsize := l.size_le
  have hlen := h.length
  rw [parse_layout l (by omega) h.magic h.version, checked_eq h.length h.checksum]
  rfl

theorem parse_some {raw : List Byte} {sb : SuperblockV4} (h : parse raw = some sb) : ∃ l, ImageOf l raw := by
  have hlayout : ∀ l : Layout, (Codec.num 4).get raw = superblockMagic → (Codec.num 4).get (raw.drop 4) = l.number →
      (∃ x, checked l.body raw = some x) → ∃ l, ImageOf l raw := by
    rintro l hm hv ⟨x, hx⟩
    obtain ⟨hlen, hsum⟩ := checked_some hx
    exact ⟨l, hlen, hm, hv, hsum⟩
  unfold parse at h
  split at h
  · cases h
  next hm =>
  have hmagic := not_ne_iff.mp (not_or.mp hm).2
  split at h
  · cases h
  split at h
  · next hv =>
    obtain ⟨x, hx, _⟩ := Option.map_eq_some_iff.mp h
    exact hlayout .v1 hmagic hv ⟨x, hx⟩
  · next hv =>
    obtain ⟨x, hx, _⟩ := Option.map_eq_some_iff.mp h
    exact hlayout .v2 hmagic hv ⟨x, hx⟩
  · next hv =>
    obtain ⟨x, hx, _⟩ := Option.map_eq_some_iff.mp h
    exact hlayout .v3 hmagic hv ⟨x, hx⟩
  · next hv => exact hlayout .v4 hmagic hv ⟨sb, h⟩
  · cases h

/-- The buffer of the reader holds every image. -/
theorem ImageOf.of_take {l : Layout} {raw : List Byte} (h : ImageOf l (raw.take rawSize)) : ImageOf l raw := by
  have hsize := l.size_le
  have hget : ∀ n, n + 4 ≤ rawSize →
      (Codec.num 4).get ((raw.take rawSize).drop n) = (Codec.num 4).get (raw.drop n) := by
    intro n hn
    have htake : ((raw.take rawSize).drop n).take 4 = (raw.drop n).take 4 := by
      rw [List.drop_take, List.take_take, Nat.min_eq_left (by omega)]
    exact congrArg unle htake
  have hlen := h.length
  rw [List.length_take] at hlen
  constructor
  · omega
  · exact (hget 0 (by decide)).symm.trans h.magic
  · exact (hget 4 (by decide)).symm.trans h.version
  · rw [← hget _ hsize.2, h.checksum, List.take_take, Nat.min_eq_left (by omega)]

/-! ### Fields -/

/-- The numbers of an entry are of its C types. -/
structure EntryInRange (e : DiskEntry) : Prop where
  letter : ∀ j < 4, e.driveLetter j < 256 ^ 2
  write : e.benchWriteMbs < 256 ^ 4
  read : e.benchReadMbs < 256 ^ 4
  pool : e.poolBytes < 256 ^ 8
  serial : ∀ j < maxSerialLen, e.serialNumber j < 256 ^ 1

structure PhaseInRange (p : MappingPhase) : Prop where
  active : p.activeCount < 256 ^ 4
  indices : ∀ j < maxDisks, p.activeDiskIndices j < 256 ^ 4
  ratios : ∀ j < maxDisks, p.ratios j < 256 ^ 4
  total : p.totalRatio < 256 ^ 4
  start : p.virtualStartBytes < 256 ^ 8
  size : p.virtualSizeBytes < 256 ^ 8
  physical : ∀ j < maxDisks, p.physicalStartsBytes j < 256 ^ 8
  cycle : p.cycleSizeBytes < 256 ^ 8

structure InRange (sb : SuperblockV4) : Prop where
  diskCount : sb.diskCount < 256 ^ 4
  stripeUnit : sb.stripeUnit < 256 ^ 4
  total : sb.virtualTotalBytes < 256 ^ 8
  phaseCount : sb.phaseCount < 256 ^ 4
  generation : sb.generation < 256 ^ 8
  timestamp : sb.timestamp < 256 ^ 8
  flags : sb.featureFlags < 256 ^ 4
  journal : sb.journalOffset < 256 ^ 8
  uuidHigh : sb.uuidHigh < 256 ^ 8
  uuidLow : sb.uuidLow < 256 ^ 8
  created : sb.createdTime < 256 ^ 8
  mounted : sb.lastMountTime < 256 ^ 8
  entries : ∀ i < maxDisks, EntryInRange (sb.disks i)
  phases : ∀ i < maxDisks, PhaseInRange (sb.phases i)

/-- The entry as it is read; without a serial number it gets an empty one. -/
structure SameEntry (serial : Bool) (e f : DiskEntry) : Prop where
  letter : ∀ j < 4, f.driveLetter j = e.driveLetter j
  write : f.benchWriteMbs = e.benchWriteMbs
  read : f.benchReadMbs = e.benchReadMbs
  pool : f.poolBytes = e.poolBytes
  serial : ∀ j < maxSerialLen, f.serialNumber j = if serial then e.serialNumber j else 0

structure SameFields (p q : MappingPhase) : Prop where
  active : q.activeCount = p.activeCount
  indices : ∀ j < maxDisks, q.activeDiskIndices j = p.activeDiskIndices j
  ratios : ∀ j < maxDisks, q.ratios j = p.ratios j
  total : q.totalRatio = p.totalRatio
  start : q.virtualStartBytes = p.virtualStartBytes
  size : q.virtualSizeBytes = p.virtualSizeBytes
  physical : ∀ j < maxDisks, q.physicalStartsBytes j = p.physicalStartsBytes j
  cycle : q.cycleSizeBytes = p.cycleSizeBytes

/-- What the reader makes of an image with the fields of `sb`. -/
structure Decoded (l : Layout) (sb x : SuperblockV4) : Prop where
  diskCount : x.diskCount = sb.diskCount
  stripeUnit : x.stripeUnit = sb.stripeUnit
  total : x.virtualTotalBytes = sb.virtualTotalBytes
  phaseCount : x.phaseCount = sb.phaseCount
  generation : x.generation = if l.counted then sb.generation else 0
  timestamp : x.timestamp = if l.counted then sb.timestamp else 0
  flags : x.featureFlags = if l.counted then sb.featureFlags else 0
  journal : x.journalOffset = if l.counted then sb.journalOffset else 0
  uuidHigh : x.uuidHigh = if l.identified then sb.uuidHigh else 0
  uuidLow : x.uuidLow = if l.identified then sb.uuidLow else 0
  created : x.createdTime = if l.identified then sb.createdTime else 0
  mounted : x.lastMountTime = if l.identified then sb.lastMountTime else 0
  entries : ∀ i < maxDisks, SameEntry l.labelled (sb.disks i) (x.disks i)
  phases : ∀ i < maxDisks, SameFields (sb.phases i) (x.phases i)

theorem EntryInRange.same {e : DiskEntry} (h : EntryInRange e) : SameEntry true e (entryCodec.cut e) where
  letter := fun j hj => (if_pos hj).trans (Codec.num_cut (h.letter j hj))
  write := Codec.num_cut h.write
  read := Codec.num_cut h.read
  pool := Codec.num_cut h.pool
  serial := fun j hj => (if_pos hj).trans (Codec.num_cut (h.serial j hj))

theorem EntryInRange.sameV2 {e : DiskEntry} (h : EntryInRange e) : SameEntry false e (entryCodecV2.cut e) where
  letter := fun j hj => (if_pos hj).trans (Codec.num_cut (h.letter j hj))
  write := Codec.num_cut h.write
  read := Codec.num_cut h.read
  pool := Codec.num_cut h.pool
  serial := fun _ _ => rfl

theorem PhaseInRange.same {p : MappingPhase} (h : PhaseInRange p) : SameFields p (phaseCodec.cut p) where
  active := Codec.num_cut h.active
  indices := fun j hj => (if_pos hj).trans (Codec.num_cut (h.indices j hj))
  ratios := fun j hj => (if_pos hj).trans (Codec.num_cut (h.ratios j hj))
  total := Codec.num_cut h.total
  start := Codec.num_cut h.start
  size := Codec.num_cut h.size
  physical := fun j hj => (if_pos hj).trans (Codec.num_cut (h.physical j hj))
  cycle := Codec.num_cut h.cycle

theorem InRange.decoded {sb : SuperblockV4} (h : InRange sb) (l : Layout) (sum : ℕ) :
    Decoded l sb (l.upgrade { l.body.cut sb with checksum := sum }) := by
  have hentries : ∀ i < maxDisks, SameEntry true (sb.disks i) ((Codec.array entryCodec maxDisks .zero).cut sb.disks i) := by
    intro i hi
    have he : (Codec.array entryCodec maxDisks .zero).cut sb.disks i = entryCodec.cut (sb.disks i) := if_pos hi
    rw [he]
    exact (h.entries i hi).same
  have hentriesV2 : ∀ i < maxDisks,
      SameEntry false (sb.disks i) ((Codec.array entryCodecV2 maxDisks .zero).cut sb.disks i) := by
    intro i hi
    have he : (Codec.array entryCodecV2 maxDisks .zero).cut sb.disks i = entryCodecV2.cut (sb.disks i) := if_pos hi
    rw [he]
    exact (h.entries i hi).sameV2
  have hphases : ∀ i < maxDisks, SameFields (sb.phases i) ((Codec.array phaseCodec maxDisks .zero).cut sb.phases i) := by
    intro i hi
    have he : (Codec.array phaseCodec maxDisks .zero).cut sb.phases i = phaseCodec.cut (sb.phases i) := if_pos hi
    rw [he]
    exact (h.phases i hi).same
  have hdisk := Codec.num_cut h.diskCount
  have hunit := Codec.num_cut h.stripeUnit
  have htotal := Codec.num_cut h.total
  have hcount := Codec.num_cut h.phaseCount
  have hgeneration := Codec.num_cut h.generation
  have htime := Codec.num_cut h.timestamp
  have hflags := Codec.num_cut h.flags
  have hjournal := Codec.num_cut h.journal
  cases l with
  | v1 => exact ⟨hdisk, hunit, htotal, hcount, rfl, rfl, rfl, rfl, rfl, rfl, rfl, rfl, hentries, hphases⟩
  | v2 =>
    exact ⟨hdisk, hunit, htotal, hcount, hgeneration, htime, hflags, hjournal, rfl, rfl, rfl, rfl, hentriesV2, hphases⟩
  | v3 =>
    exact ⟨hdisk, hunit, htotal, hcount, hgeneration, htime, hflags, hjournal, rfl, rfl, rfl, rfl, hentries, hphases⟩
  | v4 =>
    exact ⟨hdisk, hunit, htotal, hcount, hgeneration, htime, hflags, hjournal, Codec.num_cut h.uuidHigh,
      Codec.num_cut h.uuidLow, Codec.num_cut h.created, Codec.num_cut h.mounted, hentries, hphases⟩

/-! ### Reading an image -/

theorem imageOf_image (l : Layout) {sb : SuperblockV4} (hm : sb.magic = superblockMagic) (hv : sb.version = l.number) :
    ImageOf l (l.image sb) := by
  have hbody : (l.image sb).take l.body.size = l.body.put sb := by
    rw [Layout.image, ← l.body.put_length sb, List.take_left]
  constructor
  · exact Nat.le_of_eq (l.image_length sb).symm
  · rw [← l.get_magic, l.get_image, l.cut_magic, hm]
    decide
  · rw [← l.get_version, l.get_image, l.cut_version, hv, Nat.mod_eq_of_lt l.number_lt]
  · have hsum := (Codec.num 4).get_put (crc32 (l.body.put sb)).toNat []
    rw [List.append_nil, Codec.num_cut (by have h := (crc32 (l.body.put sb)).toNat_lt; omega)] at hsum
    rw [hbody, Layout.image, ← l.body.put_length sb, List.drop_left, hsum]

/-- A file with no temporary one beside it is read as it is. -/
theorem tryRead_dat {env : ReadEnv} (hread : env.opens = true ∧ env.reads = true) (raw : List Byte) :
    (tryReadSuperblock env ⟨some raw, none⟩).1 = parse (raw.take rawSize) := by
  have hrecover : tryRecoverOrphanTmp env ⟨some raw, none⟩ = ⟨some raw, none⟩ := rfl
  rw [tryRead_eq, hrecover, Option.bind_some, if_pos hread]

theorem tryRead_image {env : ReadEnv} (hread : env.opens = true ∧ env.reads = true) (l : Layout) {sb : SuperblockV4}
    (hrange : InRange sb) (hm : sb.magic = superblockMagic) (hv : sb.version = l.number) :
    ∃ x, (tryReadSuperblock env ⟨some (l.image sb), none⟩).1 = some x ∧ Decoded l sb x := by
  have himage := imageOf_image l hm hv
  have hfits : (l.image sb).length ≤ rawSize := by
    rw [l.image_length]
    exact l.size_le.2
  rw [tryRead_dat hread, List.take_of_length_le hfits, parse_imageOf himage]
  refine ⟨_, rfl, ?_⟩
  rw [l.get_image]
  exact hrange.decoded l _

/-- An image of any of the four layouts is read with its fields, and what is no image of one of
them is not read. -/
theorem tryReadSuperblock_layouts (env : ReadEnv) (hread : env.opens = true ∧ env.reads = true) :
    (∀ (l : Layout) (sb : SuperblockV4), InRange sb → sb.magic = superblockMagic → sb.version = l.number →
      ∃ x, (tryReadSuperblock env ⟨some (l.image sb), none⟩).1 = some x ∧ Decoded l sb x) ∧
    ∀ raw, (¬ ∃ l, ImageOf l raw) → (tryReadSuperblock env ⟨some raw, none⟩).1 = none := by
  constructor
  · intro l sb hrange hm hv
    exact tryRead_image hread l hrange hm hv
  · intro raw hno
    rw [tryRead_dat hread]
    cases hp : parse (raw.take rawSize) with
    | none => rfl
    | some sb =>
      obtain ⟨l, hl⟩ := parse_some hp
      exact absurd ⟨l, hl.of_take⟩ hno

/-- Two disks in the first layout. -/
def oldPair : SuperblockV4 :=
  { SuperblockV4.zero with
    magic := superblockMagic, version := 1, diskCount := 2, stripeUnit := 65536, virtualTotalBytes := 262144 }

theorem oldPair_inRange : InRange oldPair := by
  have hpos : ∀ k, 0 < 256 ^ k := fun k => Nat.pow_pos (by decide)
  have hentry : EntryInRange .zero := ⟨fun _ _ => hpos 2, hpos 4, hpos 4, hpos 8, fun _ _ => hpos 1⟩
  have hphase : PhaseInRange .zero :=
    ⟨hpos 4, fun _ _ => hpos 4, fun _ _ => hpos 4, hpos 4, hpos 8, hpos 8, fun _ _ => hpos 8, hpos 8⟩
  exact ⟨by decide, by decide, by decide, hpos 4, hpos 8, hpos 8, hpos 4, hpos 8, hpos 8, hpos 8, hpos 8, hpos 8,
    fun _ _ => hentry, fun _ _ => hphase⟩

theorem tryReadSuperblock_layouts_sample :
    ∃ x, (tryReadSuperblock .good ⟨some (Layout.v1.image oldPair), none⟩).1 = some x ∧ Decoded .v1 oldPair x :=
  (tryReadSuperblock_layouts .good ⟨rfl, rfl⟩).1 .v1 oldPair oldPair_inRange rfl rfl

end RaidTest.Metadata
