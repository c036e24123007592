import RaidTest.Service.Effects
import RaidTest.Metadata.RoundTrip
import Mathlib.Data.List.Find

/-!
# The size of a mirror and of its members (`volume_mirror`, `volume_rebuild`)

A mirror is as large as its smallest member when it is made. A rebuild puts a disk in a member's
place whose pool is as large as the caller asks for, and copies the whole volume onto it.
-/

namespace RaidTest.Service
open RaidTest.Base RaidTest.Stripe RaidTest.Mirror RaidTest.Cache RaidTest.Volume RaidTest.Metadata

/-! ### The copy of a rebuild -/

/-- The disk takes part in a transfer that the environment answers with `t`. -/
def serves (t : Transfer) (x : DiskInfo) : Bool := x.ramBuffer || (!x.faulty && x.hasHandle && t.isOk)

/-- The records serve alike. -/
def SameServes (d e : Disks) : Prop := ∀ t k, serves t (e.info k) = serves t (d.info k)

theorem stripeIoOk_serves (d : Disks) (i : DiskId) : SameServes d (stripeIoOk d i true) := by
  intro t k
  unfold stripeIoOk Disks.setInfo
  simp only [if_true]
  split
  · next h => rw [h]; rfl
  · rfl

theorem stripeReadRaw_serves (t : Transfer) (d : Disks) (i : DiskId) (buffer : Buf) (offset length : ℕ) :
    (stripeReadRaw t d i buffer offset length).1 = serves t (d.info i) ∧
      ((stripeReadRaw t d i buffer offset length).1 = true →
        SameServes d (stripeReadRaw t d i buffer offset length).2.1) := by
  unfold stripeReadRaw serves
  cases (d.info i).ramBuffer with
  | true => exact ⟨rfl, fun _ _ _ => rfl⟩
  | false =>
    cases (d.info i).faulty with
    | true => exact ⟨rfl, nofun⟩
    | false =>
      cases (d.info i).hasHandle with
      | false => exact ⟨rfl, nofun⟩
      | true =>
        cases t with
        | ok => exact ⟨rfl, fun _ => stripeIoOk_serves d i⟩
        | error left => exact ⟨rfl, nofun⟩

theorem stripeWriteRaw_serves (t : Transfer) (d : Disks) (i : DiskId) (buffer : Buf) (offset length : ℕ) :
    (stripeWriteRaw t d i buffer offset length).1 = serves t (d.info i) ∧
      ((stripeWriteRaw t d i buffer offset length).1 = true →
        SameServes d (stripeWriteRaw t d i buffer offset length).2) := by
  unfold stripeWriteRaw serves
  cases (d.info i).ramBuffer with
  | true => exact ⟨rfl, fun _ _ _ => rfl⟩
  | false =>
    cases (d.info i).faulty with
    | true => exact ⟨rfl, nofun⟩
    | false =>
      cases (d.info i).hasHandle with
      | false => exact ⟨rfl, nofun⟩
      | true =>
        cases t with
        | ok => exact ⟨rfl, fun _ => stripeIoOk_serves (d.writePool i offset length buffer) i⟩
        | error left => exact ⟨rfl, nofun⟩

/-- The copy succeeds when every chunk of it is read and written. -/
theorem rebuildLoop_copies (env : RebuildEnv) (src replacement : DiskId) (total fuel : ℕ) :
    ∀ (k : ℕ) (d : Disks) (buf : Buf),
      (rebuildLoop env src replacement total fuel k d buf).1 = true ↔
        ∀ j, k ≤ j → j < k + fuel → j * chunkSize < total →
          serves (env.read j) (d.info src) = true ∧ serves (env.write j) (d.info replacement) = true := by
  induction fuel with
  | zero => exact fun k d buf => iff_of_true rfl fun j h1 h2 => absurd h2 (by omega)
  | succ fuel ih =>
    intro k d buf
    unfold rebuildLoop
    simp only
    by_cases hk : k * chunkSize < total
    · rw [if_pos hk]
      generalize minU64 (total - k * chunkSize) chunkSize = n
      obtain ⟨hr, hrsame⟩ := stripeReadRaw_serves (env.read k) d src buf (k * chunkSize) n
      generalize stripeReadRaw (env.read k) d src buf (k * chunkSize) n = r at hr hrsame
      obtain ⟨ok, d1, buf1⟩ := r
      simp only at hr hrsame
      cases ok with
      | false =>
        refine iff_of_false Bool.false_ne_true fun h => ?_
        have hfirst := (h k (Nat.le_refl k) (by omega) hk).1
        rw [← hr] at hfirst
        cases hfirst
      | true =>
        have hsame1 := hrsame rfl
        simp only
        obtain ⟨hw, hwsame⟩ := stripeWriteRaw_serves (env.write k) d1 replacement buf1 (k * chunkSize) n
        generalize stripeWriteRaw (env.write k) d1 replacement buf1 (k * chunkSize) n = w at hw hwsame
        obtain ⟨ok, d2⟩ := w
        simp only at hw hwsame
        rw [hsame1] at hw
        cases ok with
        | false =>
          refine iff_of_false Bool.false_ne_true fun h => ?_
          have hfirst := (h k (Nat.le_refl k) (by omega) hk).2
          rw [← hw] at hfirst
          cases hfirst
        | true =>
          have hsame2 := hwsame rfl
          have hsame : ∀ t i, serves t (d2.info i) = serves t (d.info i) :=
            fun t i => (hsame2 t i).trans (hsame1 t i)
          simp only [ih (k + 1) d2 buf1, hsame]
          constructor
          · intro h j h1 h2 hj
            by_cases he : j = k
            · rw [he]
              exact ⟨hr.symm, hw.symm⟩
            · exact h j (by omega) (by omega) hj
          · exact fun h j h1 h2 hj => h j (by omega) (by omega) hj
    · rw [if_neg hk]
      refine iff_of_true rfl fun j h1 _ hj => absurd (Nat.lt_of_le_of_lt ?_ hj) hk
      exact Nat.mul_le_mul_right chunkSize h1

/-- What `mirror_volume_rebuild` of a member needs to succeed; `x` is the record of the replacement. -/
def Copies (renv : RebuildEnv) (v : StripeVolume) (info : DiskId → DiskInfo) (x : DiskInfo) (replaceIdx : ℕ) : Prop :=
  v.checkDisks = true ∧ renv.alloc = true ∧ renv.flush = true ∧
    ∃ src, rebuildSource v ⟨info, fun _ _ => 0⟩ replaceIdx = some src ∧ ∀ j, j * chunkSize < v.virtualTotalBytes →
      serves (renv.read j) (info (v.diskAt src)) = true ∧ serves (renv.write j) x = true

theorem Copies.of_members {renv : RebuildEnv} {v : StripeVolume} {f g : DiskId → DiskInfo} {x y : DiskInfo} {replaceIdx : ℕ}
    (hm : ∀ i < v.diskCount, g (v.diskAt i) = f (v.diskAt i)) (hx : ∀ t, serves t y = serves t x)
    (h : Copies renv v f x replaceIdx) : Copies renv v g y replaceIdx := by
  obtain ⟨h1, h2, h3, src, hsrc, hserve⟩ := h
  have hlt := (rebuildSource_spec hsrc).1
  refine ⟨h1, h2, h3, src, ?_, fun j hj => ?_⟩
  · rw [← hsrc]
    unfold rebuildSource
    apply List.find?_congr
    intro i hi
    simp only [hm i (List.mem_range.mp hi)]
  · rw [hm src hlt, hx]
    exact hserve j hj

theorem mirrorVolumeRebuild_copies (renv : RebuildEnv) (v : StripeVolume) (d : Disks) (replacement : DiskId)
    {replaceIdx : ℕ} (hidx : replaceIdx < v.diskCount) (ht : 0 < v.virtualTotalBytes) :
    (mirrorVolumeRebuild renv v d replacement replaceIdx).1 = true ↔
      Copies renv v d.info (d.info replacement) replaceIdx := by
  have hsrc : rebuildSource v ⟨d.info, fun _ _ => 0⟩ replaceIdx = rebuildSource v d replaceIdx := rfl
  have hat := (dropMember_spec v d (v.diskAt replaceIdx) 0 0).1.layout.diskAt
  have hserves : SameServes d (dropMember v d (v.diskAt replaceIdx)).2 := by
    intro t k
    unfold dropMember setHealthy Disks.setInfo
    simp only
    split
    · next h => rw [h]; rfl
    · rfl
  have hlast : ∀ i, i * chunkSize < v.virtualTotalBytes → i < 0 + (v.virtualTotalBytes / chunkSize + 1) := by
    intro i hi
    have hle : i ≤ v.virtualTotalBytes / chunkSize := (Nat.le_div_iff_mul_le (by decide)).mpr (Nat.le_of_lt hi)
    omega
  rw [mirrorVolumeRebuild_result, Copies, hsrc]
  cases hm : v.checkDisks with
  | false =>
    rw [if_pos (Or.inr (Or.inl rfl))]
    exact iff_of_false Bool.false_ne_true fun h => Bool.false_ne_true h.1
  | true =>
    rw [if_neg (by simp only [Bool.true_eq_false, false_or]; omega)]
    cases rebuildSource v d replaceIdx with
    | none => simp only [Bool.false_eq_true, reduceCtorEq, false_and, exists_false, and_false]
    | some j =>
      simp only [Bool.and_eq_true, rebuildLoop_copies, hat, Option.some.injEq, exists_eq_left', and_assoc, true_and]
      refine and_congr Iff.rfl (and_congr Iff.rfl ?_)
      constructor
      · intro h i hi
        have hs := h i (Nat.zero_le i) (hlast i hi) hi
        rw [hserves, hserves] at hs
        exact hs
      · intro h i _ _ hi
        rw [hserves, hserves]
        exact h i hi

/-! ### The sizes a rebuild leaves -/

/-- No record changes in its pool size. -/
def SameSizes (f g : DiskId → DiskInfo) : Prop := ∀ k, (g k).poolBytes = (f k).poolBytes

theorem SameSizes.trans {f g h : DiskId → DiskInfo} (a : SameSizes f g) (b : SameSizes g h) : SameSizes f h :=
  fun k => (b k).trans (a k)

theorem setInfo_sizes (d : Disks) (i : DiskId) {x : DiskInfo} (h : x.poolBytes = (d.info i).poolBytes) :
    SameSizes d.info (d.setInfo i x).info := by
  intro k
  unfold Disks.setInfo
  simp only
  split
  · next hk => rw [h, hk]
  · rfl

theorem stripeIoOk_sizes (d : Disks) (i : DiskId) (ok : Bool) : SameSizes d.info (stripeIoOk d i ok).info := by
  cases ok with
  | true => exact setInfo_sizes d i rfl
  | false => exact setInfo_sizes d i rfl

theorem stripeReadRaw_sizes (t : Transfer) (d : Disks) (i : DiskId) (buffer : Buf) (offset length : ℕ) :
    SameSizes d.info (stripeReadRaw t d i buffer offset length).2.1.info := by
  unfold stripeReadRaw
  split
  · exact fun _ => rfl
  split
  · exact fun _ => rfl
  split
  · cases t with
    | ok => exact stripeIoOk_sizes d i true
    | error left => exact stripeIoOk_sizes d i false
  · exact stripeIoOk_sizes d i false

theorem stripeWriteRaw_sizes (t : Transfer) (d : Disks) (i : DiskId) (buffer : Buf) (offset length : ℕ) :
    SameSizes d.info (stripeWriteRaw t d i buffer offset length).2.info := by
  unfold stripeWriteRaw
  split
  · exact fun _ => rfl
  split
  · exact fun _ => rfl
  split
  · cases t with
    | ok => exact stripeIoOk_sizes (d.writePool i offset length buffer) i true
    | error left => exact stripeIoOk_sizes (d.writePool i offset length left) i false
  · exact stripeIoOk_sizes d i false

theorem rebuildLoop_sizes (env : RebuildEnv) (src replacement : DiskId) (total fuel : ℕ) :
    ∀ (k : ℕ) (d : Disks) (buf : Buf),
      SameSizes d.info (rebuildLoop env src replacement total fuel k d buf).2.info := by
  induction fuel with
  | zero => exact fun k d buf _ => rfl
  | succ fuel ih =>
    intro k d buf
    unfold rebuildLoop
    simp only
    split
    · generalize minU64 (total - k * chunkSize) chunkSize = n
      have hr := stripeReadRaw_sizes (env.read k) d src buf (k * chunkSize) n
      generalize stripeReadRaw (env.read k) d src buf (k * chunkSize) n = r at hr
      obtain ⟨ok, d1, buf1⟩ := r
      cases ok with
      | false => exact hr
      | true =>
        have hw := stripeWriteRaw_sizes (env.write k) d1 replacement buf1 (k * chunkSize) n
        simp only
        generalize stripeWriteRaw (env.write k) d1 replacement buf1 (k * chunkSize) n = w at hw
        obtain ⟨ok, d2⟩ := w
        cases ok with
        | false => exact hr.trans hw
        | true => exact (hr.trans hw).trans (ih (k + 1) d2 buf1)
    · exact fun _ => rfl

theorem mirrorVolumeRebuild_sizes (renv : RebuildEnv) (v : StripeVolume) (d : Disks) (replacement : DiskId)
    (replaceIdx : ℕ) : SameSizes d.info (mirrorVolumeRebuild renv v d replacement replaceIdx).2.2.info := by
  unfold mirrorVolumeRebuild
  split
  · exact fun _ => rfl
  split
  · exact fun _ => rfl
  next src _ =>
  simp only
  have hdrop : SameSizes d.info (dropMember v d (v.diskAt replaceIdx)).2.info := setInfo_sizes d _ rfl
  generalize dropMember v d (v.diskAt replaceIdx) = dropped at hdrop
  obtain ⟨v1, d1⟩ := dropped
  simp only at hdrop ⊢
  have hloop := rebuildLoop_sizes renv (v1.diskAt src) replacement v.virtualTotalBytes
    (v.virtualTotalBytes / chunkSize + 1) 0 d1 fun _ => 0
  generalize rebuildLoop renv (v1.diskAt src) replacement v.virtualTotalBytes _ 0 d1 _ = r at hloop
  obtain ⟨ok, d2⟩ := r
  have hflag : ∀ (e : Disks) (k : DiskId) (b : Bool), SameSizes e.info (setHealthy e k b).info :=
    fun e k b => setInfo_sizes e k rfl
  split
  · exact hdrop.trans (hflag d1 _ _)
  simp only at hloop ⊢
  split
  · exact (hdrop.trans hloop).trans (hflag d2 _ _)
  · exact (hdrop.trans hloop).trans (hflag d2 _ _)

/-! ### One `volume_rebuild` -/

/-- One call of `volume_rebuild`, with the answers of its environment. -/
structure RebuildCall where
  env : PoolEnv
  renv : RebuildEnv
  physical : List DiskId
  replaceIdx : ℕ
  newDiskId : ℕ
  poolMb : ℕ

def RebuildCall.disk (c : RebuildCall) : DiskId := c.physical.getD c.newDiskId 0

def RebuildCall.size (c : RebuildCall) : ℕ := u64 (c.poolMb * mib)

/-- The mirror with the records and the pool files of its disks. -/
structure MirrorPools where
  v : StripeVolume
  s : Pools

def rebuildStep (dr : Drives) (m : MirrorPools) (c : RebuildCall) : Option MirrorPools :=
  let r := volumeRebuild dr c.env c.renv m.v m.s c.physical c.replaceIdx c.newDiskId c.poolMb
  some ⟨r.2.1, r.2.2⟩

/-- The call passes its checks and comes to make the pool of the new disk. -/
def MakesPool (dr : Drives) (m : MirrorPools) (c : RebuildCall) : Prop :=
  m.v.raidLevel = .mirror ∧ c.replaceIdx < m.v.diskCount ∧ c.newDiskId < c.physical.length ∧
    dr.letter c.disk = true ∧ validatePoolSize c.size = true ∧ (dr.path c.disk).isSome = true

/-- The new pool is made and opened and the volume is copied onto it. -/
def Rebuilds (m : MirrorPools) (c : RebuildCall) : Prop :=
  c.env.create = true ∧ c.env.extend = true ∧ c.env.opens = true ∧
    Copies c.renv m.v m.s.info { m.s.info c.disk with hasHandle := true } c.replaceIdx

theorem size_aligned (c : RebuildCall) : alignedSize c.size = c.size := by
  unfold alignedSize
  rw [if_pos]
  unfold RebuildCall.size u64 mib sectorSize
  omega

theorem poolFileClose_sizes (s : Pools) (disk : DiskId) : SameSizes s.info (poolFileClose s disk).info :=
  setInfo_sizes ⟨s.info, fun _ _ => 0⟩ disk rfl

theorem poolFileDelete_sizes (dr : Drives) (env : PoolEnv) (s : Pools) (disk : DiskId) :
    SameSizes s.info (poolFileDelete dr env s disk).info := by
  unfold poolFileDelete
  split
  · exact fun _ => rfl
  simp only
  split
  · exact poolFileClose_sizes s disk
  · exact poolFileClose_sizes s disk

/-- `pool_file_create` past its checks: the record has the size the file is made with. -/
theorem poolFileCreate_made (dr : Drives) (env : PoolEnv) (s : Pools) {disk : DiskId} {size : ℕ} {p : Path}
    (hp : dr.path disk = some p) (hv : validatePoolSize size = true) :
    (poolFileCreate dr env s disk size).1 = (env.create && env.extend) ∧
      (poolFileCreate dr env s disk size).2.info = (s.setInfo disk { s.info disk with poolBytes := alignedSize size }).info ∧
      ((poolFileCreate dr env s disk size).1 = true →
        ((poolFileCreate dr env s disk size).2.file p).map PoolFile.size = some (alignedSize size)) := by
  unfold poolFileCreate
  rw [hp]
  simp only
  rw [if_neg (by rw [hv]; decide)]
  cases env.create with
  | false => exact ⟨rfl, rfl, nofun⟩
  | true =>
    cases env.extend with
    | false => exact ⟨rfl, rfl, nofun⟩
    | true => exact ⟨rfl, rfl, fun _ => congrArg (Option.map PoolFile.size) (Pools.setFile_same _ p _)⟩

theorem poolFileOpen_made (dr : Drives) (env : PoolEnv) (s : Pools) {disk : DiskId} {p : Path} (hp : dr.path disk = some p)
    (hf : (s.file p).isSome = true) :
    (poolFileOpen dr env s disk).1 = env.opens ∧
      (poolFileOpen dr env s disk).2.info = (s.setInfo disk { s.info disk with hasHandle := env.opens }).info := by
  unfold poolFileOpen
  rw [hp]
  simp only [hf, Bool.and_true, and_self]

/-- What a call that makes the pool leaves. -/
structure PoolMade (m : MirrorPools) (c : RebuildCall) (r : Bool × StripeVolume × Pools) : Prop where
  total : r.2.1.virtualTotalBytes = m.v.virtualTotalBytes
  count : r.2.1.diskCount = m.v.diskCount
  disks : r.2.1.disks = if r.1 then fun i => if i = c.replaceIdx then some c.disk else m.v.disks i else m.v.disks
  sizes : ∀ k, (r.2.2.info k).poolBytes = if k = c.disk then c.size else (m.s.info k).poolBytes
  succeeds : (∀ i < m.v.diskCount, m.v.diskAt i ≠ c.disk) → 0 < m.v.virtualTotalBytes → (r.1 = true ↔ Rebuilds m c)

/-- `volume_rebuild` behind its checks. -/
theorem volumeRebuild_makes (dr : Drives) {m : MirrorPools} {c : RebuildCall} (h : MakesPool dr m c) :
    volumeRebuild dr c.env c.renv m.v m.s c.physical c.replaceIdx c.newDiskId c.poolMb =
      match poolFileCreate dr c.env m.s c.disk c.size with
      | (false, s) => (false, m.v, s)
      | (true, s) =>
        match poolFileOpen dr c.env s c.disk with
        | (false, s) => (false, m.v, poolFileDelete dr c.env s c.disk)
        | (true, s) =>
          match mirrorVolumeRebuild c.renv m.v (s.disks dr) c.disk c.replaceIdx with
          | (false, v, d) =>
            (false, v, poolFileDelete dr c.env (poolFileClose (s.store dr d c.disk) c.disk) c.disk)
          | (true, v, d) => (true, v, s.store dr d c.disk) := by
  obtain ⟨hlevel, hidx, hid, hletter, hsize, _⟩ := h
  have hchecks : ¬ (dr.letter c.disk = false ∨ validatePoolSize c.size = false) := by
    rw [hletter, hsize]
    decide
  unfold volumeRebuild
  rw [if_neg (by rw [hlevel]; simp only [ne_eq, not_true_eq_false, false_or]; omega)]
  exact if_neg hchecks

theorem volumeRebuild_made (dr : Drives) {m : MirrorPools} {c : RebuildCall} (h : MakesPool dr m c) :
    PoolMade m c (volumeRebuild dr c.env c.renv m.v m.s c.physical c.replaceIdx c.newDiskId c.poolMb) := by
  rw [volumeRebuild_makes dr h]
  obtain ⟨_, hidx, _, _, hsize, hpath⟩ := h
  obtain ⟨p, hp⟩ := Option.isSome_iff_exists.mp hpath
  obtain ⟨hc, hcinfo, hcfile⟩ := poolFileCreate_made dr c.env m.s hp hsize
  rw [size_aligned] at hcinfo hcfile
  generalize poolFileCreate dr c.env m.s c.disk c.size = r at hc hcinfo hcfile
  obtain ⟨made, s1⟩ := r
  simp only at hc hcinfo hcfile
  have hsizes1 : ∀ k, (s1.info k).poolBytes = if k = c.disk then c.size else (m.s.info k).poolBytes := by
    intro k
    rw [hcinfo]
    unfold Pools.setInfo
    simp only
    split <;> rfl
  -- a call that fails leaves the members and the new size
  have hback : ∀ s' : Pools, SameSizes s1.info s'.info → ¬ Rebuilds m c → PoolMade m c (false, m.v, s') := by
    intro s' hs hno
    exact ⟨rfl, rfl, rfl, fun k => (hs k).trans (hsizes1 k), fun _ _ => iff_of_false Bool.false_ne_true hno⟩
  cases made with
  | false =>
    refine hback s1 (fun _ => rfl) fun hr => ?_
    rw [hr.1, hr.2.1] at hc
    cases hc
  | true =>
  obtain ⟨hcreate, hextend⟩ := (Bool.and_eq_true _ _).mp hc.symm
  have hf : (s1.file p).isSome = true := by
    rw [← Option.isSome_map, hcfile rfl]
    rfl
  obtain ⟨ho, hoinfo⟩ := poolFileOpen_made dr c.env s1 hp hf
  simp only
  generalize poolFileOpen dr c.env s1 c.disk = r at ho hoinfo
  obtain ⟨opened, s2⟩ := r
  simp only at ho hoinfo
  have hsizes2 : SameSizes s1.info s2.info := by
    rw [hoinfo]
    exact setInfo_sizes ⟨s1.info, fun _ _ => 0⟩ _ rfl
  cases opened with
  | false =>
    refine hback _ (hsizes2.trans (poolFileDelete_sizes dr c.env s2 _)) fun hr => ?_
    rw [hr.2.2.1] at ho
    cases ho
  | true =>
  simp only
  have hsizes3 := mirrorVolumeRebuild_sizes c.renv m.v (s2.disks dr) c.disk c.replaceIdx
  have hrebuilt := mirrorVolumeRebuild_rebuilt c.renv m.v (s2.disks dr) c.disk c.replaceIdx
  have htotal := (mirrorVolumeRebuild_fields c.renv m.v (s2.disks dr) c.disk c.replaceIdx rfl).2.2.1
  have hcopies := mirrorVolumeRebuild_copies c.renv m.v (s2.disks dr) c.disk hidx
  generalize mirrorVolumeRebuild c.renv m.v (s2.disks dr) c.disk c.replaceIdx = r at hsizes3 hrebuilt htotal hcopies
  obtain ⟨ok, w, d⟩ := r
  have hstore : (s2.store dr d c.disk).info = d.info := by
    unfold Pools.store
    simp only
    split <;> rfl
  have hsizes : SameSizes s1.info (s2.store dr d c.disk).info := by
    rw [hstore]
    exact hsizes2.trans hsizes3
  -- a disk that is no member leaves the records of the members, so the copy can be told beforehand
  have hsucceeds : (∀ i < m.v.diskCount, m.v.diskAt i ≠ c.disk) → 0 < m.v.virtualTotalBytes →
      (ok = true ↔ Rebuilds m c) := by
    intro hno hpos
    rw [hcopies hpos]
    have hrecord : ∀ k, s2.info k = if k = c.disk then
        { m.s.info c.disk with poolBytes := c.size, hasHandle := true } else m.s.info k := by
      have h1 : ∀ k, s1.info k = if k = c.disk then { m.s.info c.disk with poolBytes := c.size } else m.s.info k :=
        congrFun hcinfo
      have h2 : ∀ k, s2.info k = if k = c.disk then { s1.info c.disk with hasHandle := c.env.opens } else s1.info k :=
        congrFun hoinfo
      intro k
      rw [h2, ← ho]
      split
      · rw [h1, if_pos rfl]
      · next hk => rw [h1, if_neg hk]
    have hmember : ∀ i < m.v.diskCount, s2.info (m.v.diskAt i) = m.s.info (m.v.diskAt i) := by
      intro i hi
      rw [hrecord, if_neg (hno i hi)]
    have hnew : ∀ t, serves t (s2.info c.disk) = serves t { m.s.info c.disk with hasHandle := true } := by
      intro t
      rw [hrecord, if_pos rfl, serves, serves]
    constructor
    · exact fun h => ⟨hcreate, hextend, ho.symm,
        h.of_members (fun i hi => (hmember i hi).symm) fun t => (hnew t).symm⟩
    · exact fun h => h.2.2.2.of_members hmember hnew
  cases ok with
  | false =>
    have hdown := hsizes.trans ((poolFileClose_sizes _ c.disk).trans (poolFileDelete_sizes dr c.env _ c.disk))
    exact ⟨htotal, hrebuilt.count, (hrebuilt.old rfl).1, fun k => (hdown k).trans (hsizes1 k), hsucceeds⟩
  | true =>
    exact ⟨htotal, hrebuilt.count, (hrebuilt.new rfl).2.1, fun k => (hsizes k).trans (hsizes1 k), hsucceeds⟩

/-- Without the pool nothing changes. -/
theorem volumeRebuild_checked (dr : Drives) {m : MirrorPools} {c : RebuildCall} (h : ¬ MakesPool dr m c) :
    volumeRebuild dr c.env c.renv m.v m.s c.physical c.replaceIdx c.newDiskId c.poolMb = (false, m.v, m.s) := by
  unfold volumeRebuild
  split
  · rfl
  next hg =>
  simp only [not_or, Nat.not_le, ne_eq, not_not] at hg
  simp only
  split
  · rfl
  next hchecks =>
  simp only [not_or, Bool.not_eq_false] at hchecks
  have hpath : dr.path (c.physical.getD c.newDiskId 0) = none := by
    cases hp : dr.path (c.physical.getD c.newDiskId 0) with
    | none => rfl
    | some p =>
      exact absurd ⟨hg.1, hg.2.1, hg.2.2, hchecks.1, hchecks.2, show (dr.path c.disk).isSome = true by
        rw [RebuildCall.disk, hp]; rfl⟩ h
  unfold poolFileCreate
  rw [hpath]

/-! ### Sequences of rebuilds -/

/-- The volume is no larger than the pool of any member. -/
def Fits (m : MirrorPools) : Prop :=
  ∀ i < m.v.diskCount, m.v.virtualTotalBytes ≤ (m.s.info (m.v.diskAt i)).poolBytes

/-- The new pool is as large as the volume, or it is not made, or it is made for a disk that is no
member and does not become one. -/
def PoolLarge (dr : Drives) (m : MirrorPools) (c : RebuildCall) : Prop :=
  m.v.virtualTotalBytes ≤ c.size ∨ ¬ MakesPool dr m c ∨ (∀ i < m.v.diskCount, m.v.diskAt i ≠ c.disk) ∧ ¬ Rebuilds m c

theorem diskAt_replaced {v w : StripeVolume} {disk : DiskId} {replaceIdx : ℕ}
    (h : w.disks = fun i => if i = replaceIdx then some disk else v.disks i) (i : ℕ) :
    w.diskAt i = if i = replaceIdx then disk else v.diskAt i := by
  unfold StripeVolume.diskAt
  rw [h]
  simp only
  split <;> rfl

theorem rebuildStep_fits (dr : Drives) {m t : MirrorPools} {c : RebuildCall} (h : Fits m)
    (ht : rebuildStep dr m c = some t) : Fits t ↔ PoolLarge dr m c := by
  obtain rfl := Option.some.inj ht
  unfold Fits
  by_cases hmake : MakesPool dr m c
  · have hm := volumeRebuild_made dr hmake
    have hidx := hmake.2.1
    generalize volumeRebuild dr c.env c.renv m.v m.s c.physical c.replaceIdx c.newDiskId c.poolMb = r at hm
    obtain ⟨ok, w, s⟩ := r
    simp only at hm ⊢
    have htotal : w.virtualTotalBytes = m.v.virtualTotalBytes := hm.total
    have hcount : w.diskCount = m.v.diskCount := hm.count
    have hdisks : w.disks = if ok then fun i => if i = c.replaceIdx then some c.disk else m.v.disks i else m.v.disks :=
      hm.disks
    have hsizes : ∀ k, (s.info k).poolBytes = if k = c.disk then c.size else (m.s.info k).poolBytes := hm.sizes
    have hat : ∀ i, w.diskAt i = if ok = true ∧ i = c.replaceIdx then c.disk else m.v.diskAt i := by
      intro i
      cases ok with
      | false => simp only [StripeVolume.diskAt, hdisks, Bool.false_eq_true, if_false, false_and]
      | true =>
        rw [if_pos rfl] at hdisks
        rw [diskAt_replaced hdisks i]
        simp only [true_and]
    rw [htotal, hcount]
    constructor
    · intro hfits
      by_cases hlarge : m.v.virtualTotalBytes ≤ c.size
      · exact Or.inl hlarge
      have hno : ∀ i < m.v.diskCount, w.diskAt i ≠ c.disk := by
        intro i hi he
        have hi' := hfits i hi
        rw [hsizes, if_pos he] at hi'
        exact hlarge hi'
      refine Or.inr (Or.inr ⟨fun i hi he => hno i hi ?_, fun hr => ?_⟩)
      · rw [hat, he, ite_self]
      · have hmembers : ∀ i < m.v.diskCount, m.v.diskAt i ≠ c.disk := by
          intro i hi he
          apply hno i hi
          rw [hat, he, ite_self]
        have hok := (hm.succeeds hmembers (by omega)).mpr hr
        apply hno c.replaceIdx hidx
        rw [hat, if_pos ⟨hok, rfl⟩]
    · intro hlarge i hi
      rw [hsizes]
      by_cases hk : w.diskAt i = c.disk
      · rw [if_pos hk]
        rcases hlarge with hle | hno | ⟨hno, hr⟩
        · exact hle
        · exact absurd hmake hno
        · by_cases hpos : 0 < m.v.virtualTotalBytes
          · rw [hat, if_neg fun hb => hr ((hm.succeeds hno hpos).mp hb.1)] at hk
            exact absurd hk (hno i hi)
          · omega
      · rw [if_neg hk]
        have hold : w.diskAt i = m.v.diskAt i := by
          rw [hat]
          refine if_neg fun hb => hk ?_
          rw [hat, if_pos hb]
        rw [hold]
        exact h i hi
  · rw [volumeRebuild_checked dr hmake]
    exact iff_of_true h (Or.inr (Or.inl hmake))

theorem foldl_setHealthy_sizes (disks : List DiskId) (d : Disks) :
    SameSizes d.info (disks.foldl (fun d i => setHealthy d i true) d).info := by
  induction disks generalizing d with
  | nil => exact fun _ => rfl
  | cons disk disks ih =>
    have hfirst : SameSizes d.info (setHealthy d disk true).info := setInfo_sizes d disk rfl
    exact hfirst.trans (ih (setHealthy d disk true))

theorem volumeMirror_fits {env : CreateEnv} {disks : List DiskId} {s t : System} (h : volumeMirror env disks s = (true, t))
    (file : Path → Option PoolFile) : Fits ⟨t.v, ⟨t.d.info, file⟩⟩ := by
  unfold volumeMirror at h
  simp only at h
  split at h
  · cases h
  split at h
  · cases h
  next v d hv =>
  obtain ⟨_, rfl⟩ := Prod.mk.inj h
  generalize (disks.take _).foldl (setHandle true) _ = e at hv
  unfold mirrorVolumeCreate at hv
  split at hv
  · cases hv
  obtain ⟨rfl, rfl⟩ := Prod.mk.inj (Option.some.inj hv)
  intro i hi
  have hmem : disks.getD i 0 ∈ disks := getD_mem hi
  have hat : StripeVolume.diskAt { StripeVolume.zero with disks := fun i => disks[i]? } i = disks.getD i 0 := by
    unfold StripeVolume.diskAt
    rw [List.getD_eq_getElem?_getD]
  have hmin := (foldl_min_le (fun i => (e.info i).poolBytes) disks 18446744073709551615).2 _ hmem
  refine Nat.le_trans (Nat.sub_le _ _) (Nat.le_trans hmin (Nat.le_of_eq ?_))
  exact (foldl_setHealthy_sizes disks e _).symm

/-- The volume is no larger than any pool, and a request inside the volume is inside the pool of
every member and inside the size the next superblock records for it. -/
structure Contained (m : MirrorPools) : Prop where
  fits : Fits m
  inside : ∀ offset length, outOfRange m.v offset length = false → ∀ i < m.v.diskCount,
    offset + length ≤ (m.s.info (m.v.diskAt i)).poolBytes ∧
      ∀ time label record, record.v = m.v →
        offset + length ≤ ((makeSuperblock time label m.s.info record).disks i).poolBytes

theorem Fits.contained {m : MirrorPools} (h : Fits m) : Contained m := by
  refine ⟨h, fun offset length hr i hi => ?_⟩
  have hend : offset + length ≤ (m.s.info (m.v.diskAt i)).poolBytes := by
    have hi' := h i hi
    rw [Bool.eq_false_iff, ne_eq, outOfRange_iff] at hr
    omega
  refine ⟨hend, fun time label record hv => ?_⟩
  simp only [makeSuperblock, hv, hi, if_true]
  exact hend

/-- A mirror stays inside its members in every state of a run of rebuilds exactly when no rebuild
brings in a pool smaller than the volume. -/
theorem volumeRebuild_contained (dr : Drives) {env : CreateEnv} {disks : List DiskId} {s sys : System}
    (hmirror : volumeMirror env disks s = (true, sys)) (file : Path → Option PoolFile) (calls : List RebuildCall)
    {t : MirrorPools} (hrun : run (rebuildStep dr) ⟨sys.v, ⟨sys.d.info, file⟩⟩ calls = some t) :
    (∀ pre post u, calls = pre ++ post → run (rebuildStep dr) ⟨sys.v, ⟨sys.d.info, file⟩⟩ pre = some u → Contained u) ↔
      Along (rebuildStep dr) (PoolLarge dr) ⟨sys.v, ⟨sys.d.info, file⟩⟩ calls := by
  refine along_iff_of_run (J := fun _ => True) (fun _ _ _ _ _ => trivial) (fun m c u _ hi hu => ?_) trivial
    (volumeMirror_fits hmirror file).contained hrun
  exact Iff.trans ⟨fun h => h.fits, fun h => h.contained⟩ (rebuildStep_fits dr hi.fits hu)

/-- Disks with pools of 2 GiB, and no volume yet. -/
def wideSystem : System :=
  ⟨.zero, ⟨fun _ => ⟨2147483648, 100, 0, false, false, false, false, 0, false⟩, fun _ _ => 0⟩, .idle, .thread, false⟩

def wideMirror : System := (volumeMirror ⟨fun _ => .good, fun _ => true, true⟩ [0, 1] wideSystem).2

def wideStart : MirrorPools := ⟨wideMirror.v, ⟨wideMirror.d.info, fun _ => none⟩⟩

/-- Every disk has a letter and a pool file of its own. -/
def wideDrives : Drives := ⟨fun _ => true, fun _ => true, fun i => some i⟩

/-- Member 1 gives way to disk 2 with a pool of `poolMb` MiB. -/
def wideRebuild (poolMb : ℕ) : RebuildCall :=
  ⟨.good, ⟨true, fun _ => .ok, fun _ => .ok, true⟩, [0, 1, 2], 1, 2, poolMb⟩

/-- A pool of the 1024 MiB `raid_rebuild` takes by default leaves a member half as large as the volume. -/
theorem volumeRebuild_contained_fails : ∃ t,
    volumeMirror ⟨fun _ => .good, fun _ => true, true⟩ [0, 1] wideSystem = (true, wideMirror) ∧
      run (rebuildStep wideDrives) wideStart [wideRebuild 1024] = some t ∧ 1 < t.v.diskCount ∧
      (t.s.info (t.v.diskAt 1)).poolBytes = 1073741824 ∧ t.v.virtualTotalBytes = 2147483648 :=
  ⟨_, rfl, rfl, by decide +kernel, by decide +kernel, by decide +kernel⟩

/-- A pool as large as the volume keeps it inside its members. -/
theorem volumeRebuild_contained_sample : ∃ t, run (rebuildStep wideDrives) wideStart [wideRebuild 2048] = some t ∧
    ∀ pre post u, [wideRebuild 2048] = pre ++ post → run (rebuildStep wideDrives) wideStart pre = some u → Contained u := by
  have hmirror : volumeMirror ⟨fun _ => .good, fun _ => true, true⟩ [0, 1] wideSystem = (true, wideMirror) := rfl
  refine ⟨_, rfl, (volumeRebuild_contained wideDrives hmirror (fun _ => none) [wideRebuild 2048] rfl).mpr ?_⟩
  exact ⟨Or.inl (by decide +kernel), fun _ _ => trivial⟩

end RaidTest.Service
