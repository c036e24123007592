import RaidTest.Service.Commands
import RaidTest.Service.Picked

/-!
# Restoring a configuration (`do_restore`)

The configuration names the disks of a volume, their drives and the sizes of their pools. A
restore maps the drives and goes the way of a new volume: `init` makes the pool files, and
`create` lays them out by the speeds the scan has measured.
-/

namespace RaidTest.Service
open RaidTest.Base RaidTest.Stripe RaidTest.Cache RaidTest.Volume

/-! ### The command -/

/-- `DISK_CONFIG`. -/
structure DiskConfig where
  diskId : ℕ
  driveLetter : ℕ
  poolMb : ℕ

/-- `APP_CONFIG`, as far as a restore reads it. -/
structure AppConfig where
  disks : List DiskConfig
  cacheMb : ℕ
  few : disks.length ≤ maxDisks

/-- What a restore meets. -/
structure SetupEnv where
  found : List FoundDisk
  init : InitEnv
  create : CreateEnv
  alloc : CacheAlloc
  thread : Bool
  fuse : Bool

/-- The loop over the configuration; `none` when a disk is not in the table, else whether
every `raid_mapdrive` went through. -/
def restoreDrives : List DiskConfig → Console → Option Bool × Console
  | [], c => (some true, c)
  | dc :: disks, c =>
    if c.devices.length ≤ dc.diskId then (none, c)
    else
      let r := raidMapdrive dc.diskId dc.driveLetter c
      let rest := restoreDrives disks r.2
      (rest.1.map (decide (r.1 = .ok) && ·), rest.2)

/-- The argument `"%u:%llu"` of a disk. -/
def DiskConfig.arg (dc : DiskConfig) : PoolArg := .pair (some dc.diskId) (some dc.poolMb)

/-- The cache of the configuration, if it has one, and the mount. -/
def restoreMount (env : SetupEnv) (config : AppConfig) (c : Console) : Bool × Console :=
  let r := if config.cacheMb = 0 then (RC.ok, c.app)
    else raidCache env.create.flush env.alloc env.thread (.size (some config.cacheMb)) c.app
  let m := raidMount env.fuse (c.withApp r.2)
  (decide (r.1 = .ok) && (decide (m.1 = .ok) || decide (m.1 = .errAlready)), m.2)

/-- `do_restore`, and whether every operation it calls went through. The arguments of four disks
are never too long for its buffer. -/
def doRestore (env : SetupEnv) (config : AppConfig) (c : Console) : Bool × Console :=
  if config.disks = [] then (false, c)
  else
    match raidScan env.found c with
    | (.ok, c) =>
      match restoreDrives config.disks c with
      | (none, c) => (false, c)
      | (some mapped, c) =>
        if config.disks.length < minDisks then (false, c)
        else
          match raidInitPools env.init (config.disks.map DiskConfig.arg) c with
          | (.ok, c) =>
            match createRc env.create c.session with
            | .ok =>
              let r := restoreMount env config (c.withSession (raidCreate env.create c.session))
              (mapped && r.1, r.2)
            | _ => (false, c.withSession (raidCreate env.create c.session))
          | (_, c) => (false, c)
    | (_, c) => (false, c)

/-! ### What a volume holds -/

/-- The pool byte behind a virtual offset. -/
def cellOf (v : StripeVolume) (x : ℕ) : Option (DiskId × ℕ) :=
  (mapSingleByte v x).bind fun r => (v.disks r.1).map fun k => (k, r.2)

/-- What can be read at a virtual offset. -/
def volumeByte (v : StripeVolume) (d : Disks) (x : ℕ) : Option Byte :=
  (cellOf v x).map fun c => d.pool c.1 c.2

theorem cellOf_same {v w : StripeVolume} (h : SameLayout v w) : cellOf w = cellOf v := by
  funext x
  simp only [cellOf, h.mapSingleByte, h.disks]

/-- A RAID0 volume that a configuration describes, with its pool files on the drives of the
configuration. The superblocks beside them are not read by a restore. -/
structure SavedVolume (config : AppConfig) (file : Path → Option PoolFile) where
  disks : List DiskId
  d : Disks
  v : StripeVolume
  created : stripeVolumeCreate d disks defaultStripeUnit = some v
  count : disks.length = config.disks.length
  sizes : ∀ x ∈ config.disks.zip disks, (d.info x.2).poolBytes = alignedSize (u64 (x.1.poolMb * mib))
  files : ∀ x ∈ config.disks.zip disks,
    file (poolPath x.1.driveLetter) = some ⟨(d.info x.2).poolBytes, d.pool x.2⟩
  drives : (config.disks.map DiskConfig.driveLetter).Nodup

/-- A record with the pool size of an argument. -/
def sizeDisk (info : DiskId → DiskInfo) (x : DiskId × ℕ) : DiskId → DiskInfo := fun k =>
  if k = x.1 then { info k with poolBytes := alignedSize (u64 (x.2 * mib)) } else info k

/-- The layout of the configured sizes at the speeds the scan measures. -/
def restoredLayout (found : List FoundDisk) (config : AppConfig) (c : Console) : StripeVolume :=
  let c := (raidScan found c).2
  let sized := config.disks.map fun dc => (c.device dc.diskId, dc.poolMb)
  (stripeVolumeCreate ⟨sized.foldl sizeDisk c.info, fun _ _ => 0⟩ (sized.map Prod.fst) defaultStripeUnit).getD .zero

/-! ### Before the pools -/

theorem raidScan_found {found : List FoundDisk} {c t : Console} (h : raidScan found c = (.ok, t)) :
    t.volume = c.volume ∧ t.app.state = .discovered := by
  unfold raidScan at h
  simp only at h
  split at h
  · cases h
  · next table u hne he =>
    obtain ⟨_, rfl⟩ := Prod.mk.inj h
    have hu : u.volume = c.volume := by
      have he' : (diskScanAll found { c.withState .disconnected with devices := [] }).2 = u := congrArg Prod.snd he
      rw [← he']
      rfl
    exact ⟨hu, rfl⟩

/-- The record has a letter and a pool path. -/
def Console.HasDrive (c : Console) (k : DiskId) : Prop := (c.tag k).letter ≠ 0 ∧ (c.tag k).path.isSome = true

theorem raidMapdrive_ok {diskId letter : ℕ} {c t : Console} (h : raidMapdrive diskId letter c = (.ok, t)) :
    t.session = c.session ∧ t.devices = c.devices ∧ (∀ k, c.HasDrive k → t.HasDrive k) ∧ t.HasDrive (c.device diskId) := by
  unfold raidMapdrive at h
  split at h
  · cases h
  split at h
  · cases h
  split at h
  · cases h
  next u hm =>
  obtain ⟨_, rfl⟩ := Prod.mk.inj h
  unfold deviceMapDrive at hm
  split at hm
  swap
  · cases hm
  obtain ⟨tag, htag, rfl⟩ := Option.map_eq_some_iff.mp hm
  unfold diskMapDrive at htag
  split at htag
  swap
  · cases htag
  next hl =>
  obtain rfl := Option.some.inj htag
  simp only [driveLetter, Bool.and_eq_true, decide_eq_true_eq] at hl
  have hnew : letter ≠ 0 := by omega
  refine ⟨rfl, rfl, fun k hk => ?_, ?_⟩
  · unfold Console.HasDrive Console.setTag
    simp only
    split
    · exact ⟨hnew, rfl⟩
    · exact hk
  · unfold Console.HasDrive Console.setTag
    simp only [if_true]
    exact ⟨hnew, rfl⟩

theorem restoreDrives_mapped {disks : List DiskConfig} {c t : Console} (h : restoreDrives disks c = (some true, t)) :
    t.session = c.session ∧ t.devices = c.devices ∧ (∀ k, c.HasDrive k → t.HasDrive k) ∧
      ∀ dc ∈ disks, t.HasDrive (c.device dc.diskId) := by
  induction disks generalizing c with
  | nil =>
    obtain ⟨_, rfl⟩ := Prod.mk.inj h
    exact ⟨rfl, rfl, fun _ hk => hk, nofun⟩
  | cons dc disks ih =>
    unfold restoreDrives at h
    split at h
    · cases h
    simp only at h
    generalize hm : raidMapdrive dc.diskId dc.driveLetter c = r at h
    obtain ⟨rc, u⟩ := r
    obtain ⟨hok, rfl⟩ := Prod.mk.inj h
    obtain ⟨b, hb, hand⟩ := Option.map_eq_some_iff.mp hok
    rw [Bool.and_eq_true, decide_eq_true_eq] at hand
    obtain ⟨rfl, rfl⟩ := hand
    obtain ⟨h1, h2, h3, h4⟩ := raidMapdrive_ok hm
    obtain ⟨g1, g2, g3, g4⟩ := ih (Prod.ext hb rfl)
    have hdevice : ∀ i, u.device i = c.device i := by
      intro i
      simp only [Console.device, h2]
    refine ⟨g1.trans h1, g2.trans h2, fun k hk => g3 k (h3 k hk), ?_⟩
    intro x hx
    rcases List.mem_cons.mp hx with rfl | hx
    · exact g3 _ h4
    · rw [← hdevice]
      exact g4 x hx

/-! ### The pools -/

/-- The arguments name mapped disks, and `init` takes them as they are. -/
theorem fromPairs_configured {disks : List DiskConfig} {c t : Console} {pp pp' : List (ℕ × ℕ)}
    (hdrive : ∀ dc ∈ disks, c.HasDrive (c.device dc.diskId)) (hfew : pp.length + disks.length ≤ maxDisks)
    (h : initPoolsFromPairs (disks.map DiskConfig.arg) pp c = (.ok, pp', t)) :
    pp' = pp ++ disks.map (fun dc => (dc.diskId, dc.poolMb)) ∧ t = c := by
  induction disks generalizing pp with
  | nil =>
    obtain ⟨_, h⟩ := Prod.mk.inj h
    obtain ⟨rfl, rfl⟩ := Prod.mk.inj h
    exact ⟨(List.append_nil pp).symm, rfl⟩
  | cons dc disks ih =>
    rw [List.length_cons] at hfew
    rw [List.map_cons] at h
    unfold initPoolsFromPairs DiskConfig.arg at h
    rw [if_neg (by omega)] at h
    simp only at h
    split at h
    · cases h
    split at h
    · cases h
    next hin =>
    split at h
    · cases h
    have hsome := (hdrive dc (List.mem_cons_self ..)).2
    have hensure : ensureDriveMapped dc.diskId c = (.ok, c) := by
      unfold ensureDriveMapped
      rw [if_neg hin]
      simp only [hsome, if_true]
    rw [hensure] at h
    have hlen : (pp ++ [(dc.diskId, dc.poolMb)]).length + disks.length ≤ maxDisks := by
      rw [List.length_append, List.length_singleton]
      omega
    obtain ⟨hpp, ht⟩ := ih (fun x hx => hdrive x (List.mem_cons_of_mem _ hx)) hlen h
    rw [List.append_assoc] at hpp
    exact ⟨hpp, ht⟩

/-- A pool that is made is empty, and no file gets any bytes. -/
structure Emptied (dr : Drives) (disk : DiskId) (mb : ℕ) (s t : Pools) : Prop where
  info : t.info = sizeDisk s.info (disk, mb)
  kept : ∀ p, Blank (s.file p) → Blank (t.file p)
  made : ∀ p, dr.path disk = some p → Blank (t.file p)

theorem volumeCreatePoolFile_emptied {dr : Drives} {env : PoolEnv} {s : Pools} {disk : DiskId} {mb : ℕ}
    (h : (volumeCreatePoolFile dr env s disk mb).1 = true) :
    Emptied dr disk mb s (volumeCreatePoolFile dr env s disk mb).2 := by
  unfold volumeCreatePoolFile at h ⊢
  split at h
  · cases h
  next hvalid =>
  rw [if_neg hvalid]
  refine ⟨?_, fun p => poolFileCreate_blank dr env s disk _, ?_⟩
  · unfold poolFileCreate at h ⊢
    split at h
    · cases h
    next q hq =>
    rw [if_neg hvalid] at h ⊢
    simp only at h ⊢
    have hset : (s.setInfo disk { s.info disk with poolBytes := alignedSize (u64 (mb * mib)) }).info =
        sizeDisk s.info (disk, mb) := by
      funext k
      simp only [Pools.setInfo, sizeDisk]
      split
      · next hk => rw [hk]
      · rfl
    split
    · exact hset
    split <;> exact hset
  · intro p hp
    unfold poolFileCreate at h ⊢
    rw [hp] at h ⊢
    simp only at h ⊢
    rw [if_neg hvalid] at h ⊢
    split at h
    · cases h
    next hc =>
    rw [if_neg hc]
    split at h
    · cases h
    next he =>
    rw [if_neg he, Pools.setFile_same]
    intro g hg
    rw [← Option.some.inj hg]

/-- All the disks of `init` have their pools made anew. -/
theorem createFiles_emptied {dr : Drives} {env : ℕ → PoolEnv} {devices : List DiskId} {pp : List (ℕ × ℕ)}
    (hletter : ∀ x ∈ pp, dr.letter (devices.getD x.1 0) = true) :
    ∀ {i : ℕ} {made made' : List (DiskId × ℕ)} {s t : Pools},
      initPoolsCreateFiles dr env devices i pp made s = (.ok, made', t) →
        made' = made ++ pp.map (fun x => (devices.getD x.1 0, x.2)) ∧
        t.info = (pp.map fun x => (devices.getD x.1 0, x.2)).foldl sizeDisk s.info ∧
        (∀ p, Blank (s.file p) → Blank (t.file p)) ∧
        ∀ x ∈ pp, ∀ p, dr.path (devices.getD x.1 0) = some p → Blank (t.file p) := by
  induction pp with
  | nil =>
    intro i made made' s t h
    obtain ⟨_, h⟩ := Prod.mk.inj h
    obtain ⟨rfl, rfl⟩ := Prod.mk.inj h
    exact ⟨(List.append_nil made).symm, rfl, fun _ hp => hp, nofun⟩
  | cons x pp ih =>
    intro i made made' s t h
    obtain ⟨di, mb⟩ := x
    unfold initPoolsCreateFiles at h
    split at h
    · cases h
    simp only at h
    have hl := hletter (di, mb) (List.mem_cons_self ..)
    simp only at hl
    rw [if_neg (by rw [hl]; decide)] at h
    split at h
    swap
    · cases h
    next hmade =>
    have he := volumeCreatePoolFile_emptied hmade
    generalize volumeCreatePoolFile dr (env i) s (devices.getD di 0) mb = r at h he
    obtain ⟨h1, h2, h3, h4⟩ := ih (fun y hy => hletter y (List.mem_cons_of_mem _ hy)) h
    refine ⟨?_, ?_, fun p hp => h3 p (he.kept p hp), ?_⟩
    · rw [h1, List.append_assoc]
      rfl
    · rw [h2, he.info]
      rfl
    · intro y hy p hp
      rcases List.mem_cons.mp hy with rfl | hy
      · exact h3 p (he.made p hp)
      · exact h4 y hy p hp

/-- What `init` leaves of the configured disks. -/
structure Prepared (config : AppConfig) (c t : Console) : Prop where
  volume : t.volume = c.volume
  disks : t.session.disks = config.disks.map fun dc => c.device dc.diskId
  info : t.info = (config.disks.map fun dc => (c.device dc.diskId, dc.poolMb)).foldl sizeDisk c.info
  empty : ∀ k ∈ t.session.disks, t.app.sys.d.pool k = fun _ => 0

theorem initPools_prepared {env : InitEnv} {config : AppConfig} {c t : Console} (hstate : c.app.state = .discovered)
    (hdrive : ∀ dc ∈ config.disks, c.HasDrive (c.device dc.diskId)) (hmin : ¬ config.disks.length < minDisks)
    (h : raidInitPools env (config.disks.map DiskConfig.arg) c = (.ok, t)) : Prepared config c t := by
  unfold raidInitPools at h
  split at h
  · cases h
  split at h
  · cases h
  rw [if_neg (by rw [hstate]; decide)] at h
  have hcolon : (config.disks.map DiskConfig.arg).any PoolArg.hasColon = true := by
    cases hd : config.disks with
    | nil =>
      rw [hd] at hmin
      exact absurd (show 0 < minDisks by decide) hmin
    | cons dc disks => rfl
  simp only at h
  have hpick : initPoolsPick (config.disks.map DiskConfig.arg) c =
      initPoolsFromPairs (config.disks.map DiskConfig.arg) [] c := by
    unfold initPoolsPick
    rw [if_pos hcolon]
  rw [hpick] at h
  generalize hpairs : initPoolsFromPairs (config.disks.map DiskConfig.arg) [] c = p at h
  obtain ⟨rc, pp, w⟩ := p
  cases rc with
  | ok =>
    obtain ⟨hpp, rfl⟩ := fromPairs_configured hdrive (by rw [List.length_nil, Nat.zero_add]; exact config.few) hpairs
    rw [List.nil_append] at hpp
    simp only at h
    split at h
    · cases h
    generalize hmade : initPoolsCreateFiles w.drives env.pool w.devices 0 pp [] ⟨w.info, env.file⟩ = m at h
    obtain ⟨rc, made, s⟩ := m
    cases rc with
    | ok =>
      simp only at h
      split at h
      · cases h
      obtain ⟨_, rfl⟩ := Prod.mk.inj h
      have hletter : ∀ x ∈ pp, w.drives.letter (w.devices.getD x.1 0) = true := by
        intro x hx
        rw [hpp] at hx
        obtain ⟨dc, hdc, rfl⟩ := List.mem_map.mp hx
        exact decide_eq_true (hdrive dc hdc).1
      obtain ⟨h1, h2, _, h4⟩ := createFiles_emptied hletter hmade
      have hpairs' : pp.map (fun x => (w.devices.getD x.1 0, x.2)) =
          config.disks.map fun dc => (w.device dc.diskId, dc.poolMb) := by
        rw [hpp, List.map_map]
        rfl
      have hdisks : made.map Prod.fst = config.disks.map fun dc => w.device dc.diskId := by
        rw [h1, List.nil_append, hpairs', List.map_map]
        rfl
      rw [hpairs'] at h2
      refine ⟨rfl, hdisks, h2, ?_⟩
      intro k hk
      have hk' : k ∈ made.map Prod.fst := hk
      rw [h1, List.nil_append, List.map_map] at hk'
      obtain ⟨x, hx, rfl⟩ := List.mem_map.mp hk'
      change (s.disks w.drives).pool (w.devices.getD x.1 0) = fun _ => 0
      unfold Pools.disks
      simp only
      cases hp : w.drives.path (w.devices.getD x.1 0) with
      | none => rfl
      | some p =>
        have hblank := h4 x hx p hp
        rw [Option.bind_some]
        cases hf : s.file p with
        | none => rfl
        | some f => exact hblank f hf
    | _ => cases h
  | _ => cases h

/-! ### The volume -/

/-- A layout depends on the sizes and the speeds only. -/
theorem stripeVolumeCreate_congr {d e : Disks} (hpool : ∀ k, (e.info k).poolBytes = (d.info k).poolBytes)
    (hspeed : ∀ k, speedOf (e.info k) = speedOf (d.info k)) (disks : List DiskId) (su : ℕ) :
    stripeVolumeCreate e disks su = stripeVolumeCreate d disks su := by
  have hinit : ∀ phases, layoutInit e disks 0 phases 0 = layoutInit d disks 0 phases 0 := by
    intro phases
    simp only [layoutInit, hpool, hspeed]
  unfold stripeVolumeCreate
  rw [hinit]

theorem setHandle_same (h : Bool) (disks : List DiskId) (d : Disks) :
    (disks.foldl (setHandle h) d).pool = d.pool ∧
      ∀ k, ((disks.foldl (setHandle h) d).info k).poolBytes = (d.info k).poolBytes ∧
        speedOf ((disks.foldl (setHandle h) d).info k) = speedOf (d.info k) := by
  induction disks generalizing d with
  | nil => exact ⟨rfl, fun _ => ⟨rfl, rfl⟩⟩
  | cons disk disks ih =>
    obtain ⟨h1, h2⟩ := ih (setHandle h d disk)
    refine ⟨h1, fun k => ?_⟩
    have hk : ((setHandle h d disk).info k).poolBytes = (d.info k).poolBytes ∧
        speedOf ((setHandle h d disk).info k) = speedOf (d.info k) := by
      unfold setHandle Disks.setInfo
      simp only
      split
      · next he =>
        rw [he]
        exact ⟨rfl, rfl⟩
      · exact ⟨rfl, rfl⟩
    exact ⟨(h2 k).1.trans hk.1, (h2 k).2.trans hk.2⟩

/-- Without a cache to flush, `volume_create` lays the disks out and writes no byte. -/
theorem volumeCreate_laid {env : CreateEnv} {disks : List DiskId} {s t : System} (hoff : s.v.cacheEnabled = false)
    (h : volumeCreate env disks s = (true, t)) :
    t.d.pool = s.d.pool ∧ ∃ v, stripeVolumeCreate s.d disks defaultStripeUnit = some v ∧ cellOf t.v = cellOf v ∧
      v.disks = fun i => disks[i]? := by
  have hclean : cleanupVolumeCache env.flush s = s := by
    unfold cleanupVolumeCache
    rw [if_pos hoff]
  unfold volumeCreate at h
  rw [hclean] at h
  simp only at h
  split at h
  · cases h
  obtain ⟨hpool, hinfo⟩ := setHandle_same true (disks.take (openedPools env.opens disks.length)) (stripeVolumeDestroy s).d
  generalize (disks.take (openedPools env.opens disks.length)).foldl (setHandle true) (stripeVolumeDestroy s).d = e
    at h hpool hinfo
  split at h
  · cases h
  next v hv =>
  split at h
  · cases h
  next w hw =>
  obtain ⟨_, rfl⟩ := Prod.mk.inj h
  refine ⟨hpool, v, ?_, ?_, ?_⟩
  · rw [← hv]
    symm
    have hdown : ∀ k, ((stripeVolumeDestroy s).d.info k).poolBytes = (s.d.info k).poolBytes ∧
        speedOf ((stripeVolumeDestroy s).d.info k) = speedOf (s.d.info k) := by
      intro k
      unfold stripeVolumeDestroy
      simp only
      split <;> exact ⟨rfl, rfl⟩
    exact stripeVolumeCreate_congr (fun k => (hinfo k).1.trans (hdown k).1) (fun k => (hinfo k).2.trans (hdown k).2) _ _
  · split at hw
    · unfold stripeVolumeWorkersInit at hw
      split at hw
      · cases hw
      · obtain rfl := Option.some.inj hw
        have hbyte : ∀ x n p, mapPhases { v with workerState := some ((List.range v.diskCount).map v.diskAt) } x n p =
            mapPhases v x n p := by
          intro x n
          induction n with
          | zero => intro p; rfl
          | succ n ih => intro p; simp only [mapPhases, ih]
        funext x
        simp only [cellOf, mapSingleByte, hbyte]
    · cases hw
  · unfold stripeVolumeCreate at hv
    split at hv
    · cases hv
    · obtain rfl := Option.some.inj hv
      rfl

theorem createRc_ok {env : CreateEnv} {s : Session} (h : createRc env s = .ok) :
    ∃ sys, volumeCreate env s.disks s.app.sys = (true, sys) ∧ (raidCreate env s).app.sys = sys ∧
      (raidCreate env s).app.volumeValid = true := by
  unfold createRc at h
  split at h
  · cases h
  next hg =>
  split at h
  swap
  · cases h
  next hok =>
  refine ⟨(volumeCreate env s.disks s.app.sys).2, Prod.ext hok rfl, ?_⟩
  unfold raidCreate
  rw [if_neg hg]
  generalize volumeCreate env s.disks s.app.sys = r at hok
  obtain ⟨b, sys⟩ := r
  cases hok
  exact ⟨rfl, rfl⟩

/-- The cache and the mount change neither the layout nor a disk. -/
theorem restoreMount_same (env : SetupEnv) (config : AppConfig) (c : Console) :
    SameLayout c.volume (restoreMount env config c).2.volume ∧ (restoreMount env config c).2.app.sys.d = c.app.sys.d := by
  have hcache : SameLayout c.app.sys.v (if config.cacheMb = 0 then (RC.ok, c.app)
        else raidCache env.create.flush env.alloc env.thread (.size (some config.cacheMb)) c.app).2.sys.v ∧
      (if config.cacheMb = 0 then (RC.ok, c.app)
        else raidCache env.create.flush env.alloc env.thread (.size (some config.cacheMb)) c.app).2.sys.d = c.app.sys.d := by
    split
    · exact ⟨SameLayout.refl _, rfl⟩
    unfold raidCache
    split
    · exact ⟨SameLayout.refl _, rfl⟩
    simp only
    split
    · exact ⟨SameLayout.refl _, rfl⟩
    split
    · exact ⟨sameLayout_cache _ _, rfl⟩
    · exact ⟨⟨rfl, rfl, rfl, rfl, rfl, rfl, rfl, rfl⟩, rfl⟩
  unfold restoreMount
  simp only
  generalize (if config.cacheMb = 0 then (RC.ok, c.app)
    else raidCache env.create.flush env.alloc env.thread (.size (some config.cacheMb)) c.app) = r at hcache
  unfold raidMount
  split
  · exact hcache
  split
  · exact hcache
  split
  · exact hcache
  split <;> exact hcache

/-! ### A restore -/

theorem restoreMount_valid (env : SetupEnv) (config : AppConfig) (c : Console) :
    (restoreMount env config c).2.app.volumeValid = c.app.volumeValid := by
  have hcache : (if config.cacheMb = 0 then (RC.ok, c.app)
        else raidCache env.create.flush env.alloc env.thread (.size (some config.cacheMb)) c.app).2.volumeValid =
      c.app.volumeValid := by
    split
    · rfl
    unfold raidCache
    split
    · rfl
    simp only
    split
    · rfl
    split <;> rfl
  unfold restoreMount
  simp only
  generalize (if config.cacheMb = 0 then (RC.ok, c.app)
    else raidCache env.create.flush env.alloc env.thread (.size (some config.cacheMb)) c.app) = r at hcache
  unfold raidMount
  split
  · exact hcache
  split
  · exact hcache
  split
  · exact hcache
  split <;> exact hcache

/-- The operations of a restore that goes through. -/
structure Restored (env : SetupEnv) (config : AppConfig) (c c1 c2 c3 t : Console) : Prop where
  scanned : raidScan env.found c = (.ok, c1)
  mapped : restoreDrives config.disks c1 = (some true, c2)
  enough : ¬ config.disks.length < minDisks
  inited : raidInitPools env.init (config.disks.map DiskConfig.arg) c2 = (.ok, c3)
  created : createRc env.create c3.session = .ok
  mounted : t = (restoreMount env config (c3.withSession (raidCreate env.create c3.session))).2

theorem doRestore_restored {env : SetupEnv} {config : AppConfig} {c t : Console} (h : doRestore env config c = (true, t)) :
    ∃ c1 c2 c3, Restored env config c c1 c2 c3 t := by
  unfold doRestore at h
  split at h
  · cases h
  generalize hscan : raidScan env.found c = r at h
  obtain ⟨rc, c1⟩ := r
  cases rc with
  | ok =>
    simp only at h
    generalize hdrives : restoreDrives config.disks c1 = r at h
    obtain ⟨mapped, c2⟩ := r
    cases mapped with
    | none => cases h
    | some mapped =>
      simp only at h
      split at h
      · cases h
      next hmin =>
      generalize hinit : raidInitPools env.init (config.disks.map DiskConfig.arg) c2 = r at h
      obtain ⟨rc, c3⟩ := r
      cases rc with
      | ok =>
        simp only at h
        generalize hrc : createRc env.create c3.session = rc at h
        cases rc with
        | ok =>
          simp only at h
          obtain ⟨hok, rfl⟩ := Prod.mk.inj h
          rw [Bool.and_eq_true] at hok
          obtain ⟨rfl, _⟩ := hok
          exact ⟨c1, c2, c3, hscan, hdrives, hmin, hinit, hrc, rfl⟩
        | _ => cases h
      | _ => cases h
  | _ => cases h

section Restored
variable {env : SetupEnv} {config : AppConfig} {c c1 c2 c3 t : Console} (h : Restored env config c c1 c2 c3 t)
include h

/-- After a restore every offset that the new layout maps reads 0. -/
theorem Restored.zero (hstart : c.volume.cacheEnabled = false) (x : ℕ) :
    volumeByte t.volume t.app.sys.d x = (cellOf (restoredLayout env.found config c) x).map fun _ => 0 := by
  obtain ⟨hscan, hdrives, hmin, hinit, hrc, rfl⟩ := h
  obtain ⟨hv1, hs1⟩ := raidScan_found hscan
  obtain ⟨h1, h2, _, h4⟩ := restoreDrives_mapped hdrives
  have hdevice : ∀ i, c2.device i = c1.device i := by
    intro i
    simp only [Console.device, h2]
  have hstate : c2.app.state = .discovered := by
    unfold Console.app
    rw [h1]
    exact hs1
  have hp := initPools_prepared hstate (fun dc hdc => by rw [hdevice]; exact h4 dc hdc) hmin hinit
  have hoff : c3.session.app.sys.v.cacheEnabled = false := by
    have hv3 : c3.volume = c.volume := by
      rw [hp.volume]
      unfold Console.volume
      rw [h1]
      exact hv1
    have hoff' := hstart
    rw [← hv3] at hoff'
    exact hoff'
  obtain ⟨sys, hsys, hraid, _⟩ := createRc_ok hrc
  obtain ⟨hpool, v, hv, hcell, hmembers⟩ := volumeCreate_laid hoff hsys
  obtain ⟨hsame, hd⟩ := restoreMount_same env config (c3.withSession (raidCreate env.create c3.session))
  -- the layout is that of the sizes and speeds after the scan
  have hlayout : restoredLayout env.found config c = v := by
    have hinfo : c3.info = (config.disks.map fun dc => (c1.device dc.diskId, dc.poolMb)).foldl sizeDisk c1.info := by
      rw [hp.info]
      unfold Console.info
      rw [h1]
      simp only [hdevice]
    have hdisks : c3.session.disks =
        (config.disks.map fun dc => (c1.device dc.diskId, dc.poolMb)).map Prod.fst := by
      rw [hp.disks, List.map_map]
      exact List.map_congr_left fun dc _ => hdevice dc.diskId
    unfold restoredLayout
    rw [hscan]
    simp only
    rw [← hinfo, ← hdisks]
    have hcongr : stripeVolumeCreate ⟨c3.info, fun _ _ => 0⟩ c3.session.disks defaultStripeUnit =
        stripeVolumeCreate c3.session.app.sys.d c3.session.disks defaultStripeUnit :=
      stripeVolumeCreate_congr (fun _ => rfl) (fun _ => rfl) _ _
    rw [hcongr, hv, Option.getD_some]
  rw [hlayout]
  have hcell' : cellOf (restoreMount env config (c3.withSession (raidCreate env.create c3.session))).2.volume = cellOf v := by
    rw [cellOf_same hsame]
    have hw : (c3.withSession (raidCreate env.create c3.session)).volume = sys.v := by
      rw [← hraid]
      rfl
    rw [hw]
    exact hcell
  have hpool' : ((c3.withSession (raidCreate env.create c3.session)).app.sys.d).pool = c3.app.sys.d.pool := by
    rw [show (c3.withSession (raidCreate env.create c3.session)).app.sys.d = sys.d by rw [← hraid]; rfl]
    exact hpool
  unfold volumeByte
  rw [hcell', hd, hpool']
  unfold cellOf
  cases hm : mapSingleByte v x with
  | none => rfl
  | some r =>
    rw [Option.bind_some, hmembers]
    simp only
    cases hk : c3.session.disks[r.1]? with
    | none => rfl
    | some k =>
      have hmem := List.mem_of_getElem? hk
      simp only [Option.map_some, hp.empty k hmem]

theorem Restored.valid : t.app.volumeValid = true := by
  rw [h.mounted, restoreMount_valid]
  obtain ⟨_, _, _, hvalid⟩ := createRc_ok h.created
  exact hvalid

end Restored

/-- What the console can read at a virtual offset: nothing as long as no volume is up. -/
def readableByte (c : Console) (x : ℕ) : Option Byte :=
  if c.app.volumeValid then volumeByte c.volume c.app.sys.d x else none

/-- A restore that goes through leaves every readable byte as it was if and only if the volume
held nothing but zeros and the new layout maps what the old one did. -/
theorem doRestore_zeros {env : SetupEnv} {config : AppConfig} (saved : SavedVolume config env.init.file) {c t : Console}
    (hstart : c.volume.cacheEnabled = false) (h : doRestore env config c = (true, t)) :
    (∀ x b, volumeByte saved.v saved.d x = some b → readableByte t x = some b) ↔
      (∀ x b, volumeByte saved.v saved.d x = some b → b = 0) ∧
        ∀ x, (cellOf saved.v x).isSome = true → (cellOf (restoredLayout env.found config c) x).isSome = true := by
  obtain ⟨c1, c2, c3, hr⟩ := doRestore_restored h
  have hzero : ∀ x, readableByte t x = (cellOf (restoredLayout env.found config c) x).map fun _ => 0 := by
    intro x
    rw [readableByte, hr.valid, if_pos rfl]
    exact hr.zero hstart x
  constructor
  · intro hkeep
    refine ⟨fun x b hb => ?_, fun x hx => ?_⟩
    · have hnew := hkeep x b hb
      rw [hzero] at hnew
      obtain ⟨_, _, he⟩ := Option.map_eq_some_iff.mp hnew
      exact he.symm
    · obtain ⟨cell, hcell⟩ := Option.isSome_iff_exists.mp hx
      have hnew := hkeep x (saved.d.pool cell.1 cell.2) (by rw [volumeByte, hcell, Option.map_some])
      rw [hzero] at hnew
      obtain ⟨k, hk, _⟩ := Option.map_eq_some_iff.mp hnew
      rw [hk, Option.isSome_some]
  · rintro ⟨hold, hmaps⟩ x b hb
    obtain ⟨cell, hcell, _⟩ := Option.map_eq_some_iff.mp hb
    obtain ⟨k, hk⟩ := Option.isSome_iff_exists.mp (hmaps x (by rw [hcell, Option.isSome_some]))
    rw [hzero, hk, hold x b hb, Option.map_some]

end RaidTest.Service
