import RaidTest.Mirror.Members
import RaidTest.Metadata.Drive
import RaidTest.Stripe.Ranges

/-!
# A superblock that is written and read back

What a drive holds after a successful write is the new superblock. The numbers of a volume fit
their fields in it, and the mapping of a request does not depend on what is lost on the way.
-/

namespace RaidTest.Metadata
open RaidTest.Base RaidTest.Stripe RaidTest.Mirror RaidTest.Journal

/-- The volumes the four operations make, with the uses of them that leave the layout alone. -/
inductive Built : StripeVolume → Prop where
  | create {d : Disks} {disks : List DiskId} {su : ℕ} {v : StripeVolume} (hu : su < 2^32)
    (hpool : ∀ i ∈ disks, (d.info i).poolBytes < 2^64) (h : stripeVolumeCreate d disks su = some v) : Built v
  | mirror {d e : Disks} {disks : List DiskId} {v : StripeVolume} (h : mirrorVolumeCreate d disks = some (v, e)) : Built v
  | expand {d : Disks} {new : List DiskId} {v w : StripeVolume} (hv : Built v)
    (hpool : ∀ i ∈ new, (d.info i).poolBytes < 2^64) (h : stripeVolumeExpand d v new = some w) : Built w
  | rebuild {v : StripeVolume} (env : RebuildEnv) (d : Disks) (replacement : DiskId) (replaceIdx : ℕ) (hv : Built v) :
    Built (mirrorVolumeRebuild env v d replacement replaceIdx).2.1
  | use {v w : StripeVolume} (hv : Built v) (h : SameLayout v w) : Built w

/-! ### The numbers of a volume -/

theorem mirrorVolumeCreate_fits {d e : Disks} {disks : List DiskId} {v : StripeVolume}
    (h : mirrorVolumeCreate d disks = some (v, e)) : VolumeFits v := by
  unfold mirrorVolumeCreate at h
  split at h
  · cases h
  next hn =>
  simp only [not_or, Nat.not_lt] at hn
  have hmin := (foldl_min_le (fun i => (d.info i).poolBytes) disks 18446744073709551615).1
  obtain ⟨rfl, rfl⟩ := Prod.mk.inj (Option.some.inj h)
  constructor
  · exact hn.1
  · exact hn.2
  · exact (by decide : sectorSize < 2^32)
  · exact Nat.lt_of_le_of_lt ((Nat.sub_le _ _).trans hmin) (by decide)
  · exact Nat.zero_le _
  · intro p hp
    exact absurd hp (Nat.not_lt_zero p)

/-- The layout a rebuild leaves. -/
theorem mirrorVolumeRebuild_fields (env : RebuildEnv) (v : StripeVolume) (d : Disks) (replacement : DiskId)
    (replaceIdx : ℕ) {w : StripeVolume} (hw : (mirrorVolumeRebuild env v d replacement replaceIdx).2.1 = w) :
    w.diskCount = v.diskCount ∧ w.stripeUnit = v.stripeUnit ∧ w.virtualTotalBytes = v.virtualTotalBytes ∧
      w.phaseCount = v.phaseCount ∧ w.phases = v.phases := by
  unfold mirrorVolumeRebuild at hw
  split at hw
  · rw [← hw]
    exact ⟨rfl, rfl, rfl, rfl, rfl⟩
  split at hw
  · rw [← hw]
    exact ⟨rfl, rfl, rfl, rfl, rfl⟩
  next j _ =>
  have hl := (dropMember_spec v d (v.diskAt replaceIdx) 0 0).1.layout
  simp only at hw
  generalize dropMember v d (v.diskAt replaceIdx) = dropped at hl hw
  obtain ⟨v1, d1⟩ := dropped
  simp only at hl hw
  generalize rebuildLoop env (v1.diskAt j) replacement v.virtualTotalBytes _ 0 d1 _ = copied at hw
  obtain ⟨ok, d2⟩ := copied
  have hkept : ∀ b : Bool, (if b then { v1 with healthyCount := v1.healthyCount + 1 } else v1) = w →
      w.diskCount = v.diskCount ∧ w.stripeUnit = v.stripeUnit ∧ w.virtualTotalBytes = v.virtualTotalBytes ∧
        w.phaseCount = v.phaseCount ∧ w.phases = v.phases := by
    intro b hb
    cases b with
    | true => rw [← hb]; exact ⟨hl.diskCount, hl.stripeUnit, hl.total, hl.phaseCount, hl.phases⟩
    | false => rw [← hb]; exact ⟨hl.diskCount, hl.stripeUnit, hl.total, hl.phaseCount, hl.phases⟩
  split at hw
  · exact hkept _ hw
  simp only at hw
  split at hw
  · rw [← hw]
    exact ⟨hl.diskCount, hl.stripeUnit, hl.total, hl.phaseCount, hl.phases⟩
  · exact hkept _ hw

theorem Built.fits {v : StripeVolume} (h : Built v) : VolumeFits v := by
  induction h with
  | create hu hpool h => exact stripeVolumeCreate_fits hu hpool h
  | mirror h => exact mirrorVolumeCreate_fits h
  | expand _ hpool h ih => exact stripeVolumeExpand_fits ih hpool h
  | rebuild env d replacement replaceIdx _ ih =>
    obtain ⟨h1, h2, h3, h4, h5⟩ := mirrorVolumeRebuild_fields env _ d replacement replaceIdx rfl
    exact ih.congr h1 h2 h3 h4 h5
  | use _ h ih => exact ih.congr h.diskCount h.stripeUnit h.total h.phaseCount h.phases

/-! ### What a drive holds after a write -/

theorem writeMember_ok {env : WriteEnv} {image : List Byte} (h : (writeMember env image).1 = true) (s : Drive) :
    perform FileOp.apply (writeMember env image).2 s = ⟨some image, none⟩ := by
  unfold writeMember at h ⊢
  simp only at h ⊢
  split at h
  · cases h
  next hcreate =>
  split at h
  · next hwrite =>
    split at h
    · next hmove =>
      rw [if_neg hcreate, if_pos hwrite, if_pos hmove, perform_append]
      generalize perform FileOp.apply (if env.deletes then [FileOp.deleteTmp] else []) s = t
      have htmp : FileOp.apply .createTmp t = ⟨t.dat, some []⟩ := rfl
      rw [perform_cons, perform_append, htmp, perform_append_bytes, List.nil_append, List.take_of_length_le hwrite.2.1]
      rfl
    · cases h
  · cases h

/-- The environment in which a write of one member succeeds. -/
def WriteEnv.good : WriteEnv := ⟨true, true, 828, true, true, true, true⟩

theorem writeMember_good {image : List Byte} (h : image.length = superblockSize) : (writeMember .good image).1 = true := by
  have hlen : image.length ≤ 828 := Nat.le_of_eq h
  simp only [writeMember, WriteEnv.good, hlen]
  rfl

/-- One member on the drive that is written well is enough. -/
theorem driveOps_ok {env : ℕ → WriteEnv} {letter : ℕ → Letter} {n : ℕ} {image : List Byte} {l : Letter}
    (h : ∃ i < n, letter i = l ∧ (writeMember (env i) image).1 = true) (s : Drive) :
    MidWrite (some image) image (perform FileOp.apply (driveOps env letter n image l) s) := by
  obtain ⟨i, hi, hl, hok⟩ := h
  obtain ⟨before, after, hsplit⟩ := List.append_of_mem (List.mem_range.mpr hi)
  have hkeeps : CutKeeps FileOp.apply (MidWrite (some image) image)
      (after.flatMap fun i => if letter i = l then (writeMember (env i) image).2 else []) := by
    apply cutKeeps_flatMap
    intro j _
    split
    · exact writeMember_keeps (env j)
    · exact cutKeeps_nil
  unfold driveOps
  rw [hsplit, List.flatMap_append, List.flatMap_cons, perform_append, perform_append, if_pos hl, writeMember_ok hok]
  exact hkeeps.perform ⟨Or.inl rfl, nofun⟩

/-- A call that returns true has left its superblock on the drive of a member. -/
theorem anySuccess_written {env : ℕ → WriteEnv} {n : ℕ} {image : List Byte} (h : anySuccess env n image = true)
    (letter : ℕ → Letter) : ∃ i < n, ∀ s,
      MidWrite (some image) image (perform FileOp.apply (driveOps env letter n image (letter i)) s) := by
  obtain ⟨i, hi, hok⟩ := List.any_eq_true.mp h
  have hlt := List.mem_range.mp hi
  exact ⟨i, hlt, driveOps_ok ⟨i, hlt, rfl, hok⟩⟩

theorem read_written {sb : SuperblockV4} (hmagic : sb.magic = superblockMagic) (hversion : sb.version = superblockVersion)
    {s : Drive} (h : MidWrite (some sb.image) sb.image s) {env : ReadEnv} (hread : env.opens = true ∧ env.reads = true) :
    (tryReadSuperblock env s).1 = some sb.stored := by
  have himage : (sb.image).take rawSize = sb.image := by
    apply List.take_of_length_le
    rw [image_length]
    decide
  have hdat : (tryRecoverOrphanTmp env s).dat = some sb.image := (recover_dat h env).elim id id
  rw [tryRead_eq, hdat, Option.bind_some, if_pos hread, himage, parse_image hmagic hversion]

/-! ### What a superblock keeps of a volume -/

theorem cut_phase {ph : MappingPhase} (h : PhaseFits ph) : SamePhase ph (phaseCodec.cut ph) := by
  have hm := h.active
  have hnum : ∀ f : ℕ → ℕ, ∀ k, (∀ i < ph.activeCount, f i < 256 ^ k) → ∀ i < ph.activeCount,
      (if i < maxDisks then (Codec.num k).cut (f i) else 0) = f i := by
    intro f k hf i hi
    rw [if_pos (Nat.lt_of_lt_of_le hi hm), Codec.num_cut (hf i hi)]
  constructor
  · exact h.nonempty
  · exact Codec.num_cut (k := 4) (Nat.lt_of_le_of_lt hm (by decide))
  · exact hnum ph.activeDiskIndices 4 h.index
  · exact hnum ph.ratios 4 h.ratio
  · exact Codec.num_cut (k := 8) h.start
  · exact Codec.num_cut (k := 8) h.size
  · exact hnum ph.physicalStartsBytes 8 h.physical
  · exact Codec.num_cut (k := 8) h.cycle

section Fields
variable (sb : SuperblockV4)

theorem stored_diskCount : sb.stored.diskCount = (Codec.num 4).cut sb.diskCount := rfl
theorem stored_stripeUnit : sb.stored.stripeUnit = (Codec.num 4).cut sb.stripeUnit := rfl
theorem stored_total : sb.stored.virtualTotalBytes = (Codec.num 8).cut sb.virtualTotalBytes := rfl
theorem stored_phaseCount : sb.stored.phaseCount = (Codec.num 4).cut sb.phaseCount := rfl
theorem stored_generation : sb.stored.generation = (Codec.num 8).cut sb.generation := rfl
theorem stored_uuidHigh : sb.stored.uuidHigh = (Codec.num 8).cut sb.uuidHigh := rfl
theorem stored_uuidLow : sb.stored.uuidLow = (Codec.num 8).cut sb.uuidLow := rfl

theorem stored_phases (p : ℕ) :
    sb.stored.phases p = if p < maxDisks then phaseCodec.cut (sb.phases p) else .zero := rfl

end Fields

/-- The flag for the RAID level is read back, whatever the flag for the cache is. -/
theorem features_mirror (cache : Bool) (level : RaidLevel) :
    decide ((Codec.num 4).cut ((if cache then sbFeatureCache else 0) + (if level = .mirror then sbFeatureMirror else 0)) /
      sbFeatureMirror % 2 = 1) = decide (level = .mirror) := by
  cases cache with
  | true => cases level <;> rfl
  | false => cases level <;> rfl

/-- The volume after `superblock_write`. -/
def VolumeRecord.written (r : VolumeRecord) : VolumeRecord := { r with generation := u64 (r.generation + 1) }

section Restore
variable (time : ℕ) (label : DiskId → DiskLabel) (info : DiskId → DiskInfo) {r : VolumeRecord}

/-- The base record of what is read back. -/
theorem stored_base (h : VolumeFits r.v) (disksOut : ℕ → DiskId) :
    let w := Volume.restoreVolume (makeSuperblock time label info r).stored.base r.v.diskCount disksOut
    w.raidLevel = r.v.raidLevel ∧ w.diskCount = r.v.diskCount ∧ w.stripeUnit = r.v.stripeUnit ∧
      w.virtualTotalBytes = r.v.virtualTotalBytes ∧ (r.v.raidLevel = .stripe → SameMap r.v w) := by
  have hm : maxDisks = 4 := rfl
  have hmirror : (makeSuperblock time label info r).stored.base.mirror = decide (r.v.raidLevel = .mirror) :=
    features_mirror r.v.cacheEnabled r.v.raidLevel
  have hcount : (makeSuperblock time label info r).stored.diskCount = r.v.diskCount := by
    rw [stored_diskCount]
    exact Codec.num_cut (Nat.lt_of_le_of_lt h.most (by decide))
  have hunit : (makeSuperblock time label info r).stored.stripeUnit = r.v.stripeUnit := by
    rw [stored_stripeUnit]
    exact Codec.num_cut h.unit
  have htotal : (makeSuperblock time label info r).stored.virtualTotalBytes = r.v.virtualTotalBytes := by
    rw [stored_total]
    exact Codec.num_cut h.total
  have hphaseCount : (makeSuperblock time label info r).stored.phaseCount = r.v.phaseCount := by
    rw [stored_phaseCount]
    exact Codec.num_cut (Nat.lt_of_le_of_lt h.count (by decide))
  have hphase : ∀ p < r.v.phaseCount,
      (makeSuperblock time label info r).stored.phases p = phaseCodec.cut (r.v.phases p) := by
    intro p hp
    have hp4 : p < maxDisks := Nat.lt_of_lt_of_le hp h.count
    rw [stored_phases, if_pos hp4, makeSuperblock]
    simp only
    rw [if_pos ⟨hp, hp4⟩]
  intro w
  refine ⟨?_, hcount, hunit, htotal, ?_⟩
  · have hlevel : w.raidLevel = if (makeSuperblock time label info r).stored.base.mirror then .mirror else .stripe := rfl
    rw [hlevel, hmirror]
    cases r.v.raidLevel with
    | stripe => rfl
    | mirror => rfl
  · intro hstripe
    have hno : (makeSuperblock time label info r).stored.base.mirror = false := by
      rw [hmirror, hstripe]
      rfl
    have hwcount : w.phaseCount = r.v.phaseCount := by
      have he : w.phaseCount = if (makeSuperblock time label info r).stored.base.mirror then 0
        else (makeSuperblock time label info r).stored.phaseCount := rfl
      rw [he, hno, hphaseCount]
      rfl
    constructor
    · exact hunit
    · exact htotal
    · exact hwcount
    · intro p hp
      have he : w.phases p = if (makeSuperblock time label info r).stored.base.mirror = false ∧
          p < (makeSuperblock time label info r).stored.phaseCount ∧ p < maxDisks
        then (makeSuperblock time label info r).stored.phases p else .zero := rfl
      rw [he, if_pos ⟨hno, by rw [hphaseCount]; exact hp, Nat.lt_of_lt_of_le hp h.count⟩, hphase p hp]
      exact cut_phase (h.phases p hp)

end Restore

/-- A volume whose superblock was written to a drive is restored from what is read there. -/
theorem superblock_roundTrip (env : ℕ → WriteEnv) (time : ℕ) (label : DiskId → DiskLabel) (info : DiskId → DiskInfo)
    (r : VolumeRecord) (hv : Built r.v) (huuid : r.uuidHigh < 2^64 ∧ r.uuidLow < 2^64) (l : Letter) (s : Drive)
    (hwrite : ∃ i < r.v.diskCount, (label (r.v.diskAt i)).driveLetter = l ∧
      (writeMember (env i) (makeSuperblock time label info r).image).1 = true)
    (renv : ReadEnv) (hread : renv.opens = true ∧ renv.reads = true) (opens : ℕ → Bool)
    (hopens : ∀ i < r.v.diskCount, opens i = true) (physical : List (Option DiskLabel)) (old : VolumeRecord) (d : Disks)
    (disksOut : ℕ → DiskId) :
    let after := perform FileOp.apply (driveOps env (fun i => (label (r.v.diskAt i)).driveLetter) r.v.diskCount
      (makeSuperblock time label info r).image l) s
    ∃ sb, (tryReadSuperblock renv after).1 = some sb ∧
      let (ok, w, _) := restoreRecord opens physical sb old d disksOut
      ok = true ∧ w.v.raidLevel = r.v.raidLevel ∧ w.v.diskCount = r.v.diskCount ∧ w.v.stripeUnit = r.v.stripeUnit ∧
        w.v.virtualTotalBytes = r.v.virtualTotalBytes ∧ w.uuidHigh = r.uuidHigh ∧ w.uuidLow = r.uuidLow ∧
        w.generation = r.written.generation ∧
        (r.v.raidLevel = .stripe → ∀ offset length, mapLba w.v offset length = mapLba r.v offset length) := by
  intro after
  have hfits := hv.fits
  refine ⟨(makeSuperblock time label info r).stored, read_written rfl rfl (driveOps_ok hwrite s) hread, ?_⟩
  have hcount : (makeSuperblock time label info r).stored.diskCount = r.v.diskCount := by
    rw [stored_diskCount]
    exact Codec.num_cut (Nat.lt_of_le_of_lt hfits.most (by decide))
  have hbase := stored_base time label info hfits disksOut
  have huh : (makeSuperblock time label info r).stored.uuidHigh = r.uuidHigh := by
    rw [stored_uuidHigh]
    exact Codec.num_cut huuid.1
  have hul : (makeSuperblock time label info r).stored.uuidLow = r.uuidLow := by
    rw [stored_uuidLow]
    exact Codec.num_cut huuid.2
  have hgen : (makeSuperblock time label info r).stored.generation = r.written.generation := by
    rw [stored_generation]
    exact Codec.num_cut (Nat.mod_lt _ (by decide))
  generalize (makeSuperblock time label info r).stored = sb at hcount hbase huh hul hgen
  have hsb : sb.base.diskCount = r.v.diskCount := hcount
  have hrange : ¬ (sb.diskCount < minDisks ∨ sb.diskCount > maxDisks) := by
    rw [hcount]
    exact fun h => h.elim (Nat.not_lt_of_le hfits.few) (Nat.not_lt_of_le hfits.most)
  have hpools : Volume.openedPools opens sb.base.diskCount = r.v.diskCount := by
    rw [hsb]
    exact Volume.openedPools_all hopens
  obtain ⟨h1, h2, h3, h4, h5⟩ := hbase
  have hrestore : restoreRecord opens physical sb old d disksOut =
      (true, ⟨Volume.restoreVolume sb.base r.v.diskCount disksOut, sb.generation, sb.uuidHigh, sb.uuidLow,
        sb.createdTime, sb.lastMountTime⟩, { d with info := Volume.restoreInfo sb.base r.v.diskCount disksOut d.info },
        fun i => restoreLabel physical (sb.disks i)) := by
    have hbaseRange : ¬ (sb.base.diskCount < minDisks ∨ sb.base.diskCount > maxDisks) := hrange
    have hinner : Volume.superblockRestore opens sb.base old.v d disksOut = (true,
        Volume.restoreVolume sb.base r.v.diskCount disksOut,
        { d with info := Volume.restoreInfo sb.base r.v.diskCount disksOut d.info }) := by
      unfold Volume.superblockRestore
      rw [if_neg hbaseRange, hpools, hsb]
      simp only [decide_true]
    unfold restoreRecord
    rw [hinner]
    exact if_neg hrange
  rw [hrestore]
  exact ⟨rfl, h1, h2, h3, h4, huh, hul, hgen, fun hstripe offset length => mapLba_same (h5 hstripe) offset length⟩

/-- Pools of 1 and 2 MiB. -/
def unevenPools : Disks := ⟨fun k => ⟨1048576 * (k + 1), 0, 100, true, true, false, false, 0, false⟩, fun _ _ => 0⟩

/-- One phase on both disks, and one on the larger alone. -/
def unevenVolume : StripeVolume := (stripeVolumeCreate unevenPools [0, 1] defaultStripeUnit).getD .zero

theorem superblock_roundTrip_sample : unevenVolume.phaseCount = 2 ∧
    ∃ sb, (tryReadSuperblock .good (perform FileOp.apply (driveOps (fun _ => .good) (fun _ => 0x43) 2
      (makeSuperblock 7 (fun _ => ⟨0x43, 0, fun _ => 0⟩) unevenPools.info ⟨unevenVolume, 0, 5, 6, 0, 0⟩).image 0x43)
        ⟨none, none⟩)).1 = some sb ∧
      let (ok, w, _) := restoreRecord (fun _ => true) [] sb ⟨.zero, 0, 0, 0, 0, 0⟩ unevenPools (fun i => i)
      ok = true ∧ w.v.raidLevel = .stripe ∧ w.v.diskCount = 2 ∧ w.v.virtualTotalBytes = 3145728 ∧ w.generation = 1 ∧
        mapLba w.v 1048000 2097000 = some [⟨0, 1048000, 576⟩, ⟨1, 0, 2096424⟩] := by
  refine ⟨by decide, ?_⟩
  have hpool : ∀ i ∈ [0, 1], (unevenPools.info i).poolBytes < 2^64 := by decide
  obtain ⟨sb, hread, hok, hlevel, hcount, _, htotal, _, _, hgen, hmap⟩ := superblock_roundTrip (fun _ => .good) 7
    (fun _ => ⟨0x43, 0, fun _ => 0⟩) unevenPools.info ⟨unevenVolume, 0, 5, 6, 0, 0⟩
    (Built.create (by decide) hpool (show stripeVolumeCreate unevenPools [0, 1] defaultStripeUnit = some unevenVolume from rfl))
    (by decide) 0x43 ⟨none, none⟩ ⟨0, by decide, rfl, writeMember_good (image_length _)⟩ .good ⟨rfl, rfl⟩ (fun _ => true)
    (fun _ _ => rfl) [] ⟨.zero, 0, 0, 0, 0, 0⟩ unevenPools (fun i => i)
  have hentries : mapLba unevenVolume 1048000 2097000 = some [⟨0, 1048000, 576⟩, ⟨1, 0, 2096424⟩] := by decide +kernel
  exact ⟨sb, hread, hok, hlevel, hcount, htotal, hgen, (hmap rfl _ _).trans hentries⟩

end RaidTest.Metadata
