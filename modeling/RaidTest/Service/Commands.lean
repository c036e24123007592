import RaidTest.Service.Console

/-!
# The commands of the service (`raid_service.c`, `wizard.c`, `cleanup.c`)

A command checks the state it finds and leaves the next one. `scan`, `quick`, the wizard and the
cleanup check nothing.
-/

namespace RaidTest.Service
open RaidTest.Base RaidTest.Stripe RaidTest.Mirror RaidTest.Cache RaidTest.Journal RaidTest.Volume

/-! ### Making and changing a volume -/

def Console.withSession (c : Console) (s : Session) : Console := { c with session := s }

/-- What `raid_create_locked` returns. -/
def createRc (env : CreateEnv) (s : Session) : RC :=
  if s.app.state ≠ .initialized ∨ s.disks.length < minDisks then .errInvalidState
  else if (volumeCreate env s.disks s.app.sys).1 then .ok else .errIo

def Console.withVolume (c : Console) (v : StripeVolume) (d : Disks) : Console :=
  c.withApp { c.app with sys := { c.app.sys with v := v, d := d } }

/-- `raid_rebuild`, by what `safe_atou32` and `safe_atou64` make of its arguments. -/
def raidRebuild (env : PoolEnv) (renv : RebuildEnv) (file : Path → Option PoolFile) (args : List (Option ℕ))
    (c : Console) : RC × Console :=
  if c.app.state ≠ .mounted ∧ c.app.state ≠ .degraded then (.errInvalidState, c)
  else
    let rebuild := fun replaceIdx newDiskId mb =>
      let poolMb := if mb < minPoolMb then minPoolMb else mb
      match volumeRebuild c.drives env renv c.volume ⟨c.info, file⟩ c.physical replaceIdx newDiskId poolMb with
      | (ok, v, s) => (if ok then RC.ok else RC.errIo, c.withVolume v (s.disks c.drives))
    match args with
    | [some replaceIdx, some newDiskId] => rebuild replaceIdx newDiskId minPoolMb
    | some replaceIdx :: some newDiskId :: some mb :: _ => rebuild replaceIdx newDiskId mb
    | _ => (.errInvalidArg, c)

/-- `raid_mount_locked`; `fuse` tells whether WinFsp mounts. -/
def raidMount (fuse : Bool) (c : Console) : RC × Console :=
  if c.app.state ≠ .mounted then (.errInvalidState, c)
  else if c.app.volumeValid = false then (.errInvalidState, c)
  else if c.app.mounted then (.errAlready, c)
  else if fuse then (.ok, c.withApp { c.app with mounted := true })
  else (.errMount, c)

/-- The third letter of the arguments of `simulate`. -/
inductive SimulateMode where
  | fail
  | healthy
  | disconnect
  | other
  deriving Repr, DecidableEq

/-- `if (InterlockedExchange(&d->healthy, 0) == 1) { d->faulty = true; ... }`. -/
def simulateFault (v : StripeVolume) (d : Disks) (k : DiskId) : StripeVolume × Disks :=
  if (d.info k).healthy then
    ({ v with healthyCount := v.healthyCount - 1 }, d.setInfo k { d.info k with healthy := false, faulty := true })
  else (v, d)

/-- `raid_simulate`; without an index when there is no number, or no second argument. -/
def raidSimulate (idx : Option ℕ) (mode : SimulateMode) (c : Console) : RC × Console :=
  if c.app.state ≠ .mounted then (.errInvalidState, c)
  else
    match idx with
    | none => (.errInvalidArg, c)
    | some idx =>
      if c.volume.diskCount ≤ idx then (.errInvalidArg, c)
      else
        let v := c.volume
        let d := c.app.sys.d
        let k := v.diskAt idx
        match mode with
        | .fail =>
          let (v, d) := simulateFault v d k
          (.ok, (c.withVolume v d).withState .degraded)
        | .healthy =>
          let v := { v with healthyCount := v.healthyCount + 1 }
          let c := c.withVolume v (d.setInfo k { d.info k with healthy := true, faulty := false })
          (.ok, if v.diskCount ≤ v.healthyCount then c.withState .mounted else c)
        | .disconnect =>
          let (v, d) := simulateFault v (setHandle false d k) k
          (.ok, (c.withVolume v d).withState .degraded)
        | .other => (.errInvalidArg, c)

/-- The answers about the pool files a command deletes. -/
structure DropEnv where
  file : Path → Option PoolFile
  pool : ℕ → PoolEnv

/-- `raid_destroy`. -/
def Console.destroy (env : ℕ → BatchEnv) (drop : DropEnv) (c : Console) : RC × Console :=
  match raidDestroy env c.app with
  | (.ok, app) =>
    let c := c.withApp app
    (.ok, c.withDisks { c.app.sys.d with
      info := (rollback c.drives drop.pool 0 c.session.disks ⟨c.info, drop.file⟩).info })
  | (rc, _) => (rc, c)

/-- `cleanup_pool_session` as the other commands call it. -/
def Console.dropPools (drop : DropEnv) (c : Console) : Console :=
  let (c, s) := c.cleanupPoolSession drop.pool ⟨c.info, drop.file⟩
  c.withDisks { c.app.sys.d with info := s.info }

/-- `raid_purge`. -/
def raidPurge (drop : DropEnv) (c : Console) : RC × Console :=
  if c.app.state ≠ .initialized ∧ c.app.state ≠ .unmounted then (.errInvalidState, c)
  else
    let c := c.dropPools drop
    (.ok, c.withApp { c.app with state := .discovered, volumeValid := false, cacheOn := false, mounted := false })

/-- `cleanup_cache`. -/
def cleanupCache (env : ℕ → BatchEnv) (s : AppState) : AppState :=
  if s.cacheOn then { s with sys := cleanupVolumeCache env s.sys, flushThread := false, cacheOn := false } else s

/-- `cleanup_volume`. -/
def cleanupVolume (s : AppState) : AppState :=
  let s := { s with mounted := false }
  if s.volumeValid then { s with sys := stripeVolumeDestroy s.sys, volumeValid := false } else s

/-- `raid_cleanup`. -/
def raidCleanup (env : ℕ → BatchEnv) (drop : DropEnv) (c : Console) : Console :=
  let c := (c.withApp (cleanupVolume (cleanupCache env c.app))).dropPools drop
  { c.withApp { c.app with state := .disconnected, volumeValid := false, cacheOn := false, mounted := false } with
    devices := [], physical := [] }

/-- What a load meets, and what it writes about their drives into the records of
`disk.loaded_disks`. -/
structure RestoreEnv where
  env : LoadEnv
  letter : DiskId → Letter
  files : Files
  tag : DiskId → DiskTag

/-- `raid_load`. -/
def Console.load (a : RestoreEnv) (c : Console) : Option Console :=
  (raidLoad ⟨a.env, a.letter, id, a.files⟩ c.session).map fun s =>
    { c.withSession s with tag := fun k =>
        if k < maxDisks ∧ (c.app.state = .unmounted ∨ c.app.state = .discovered) then a.tag k else c.tag k }

/-! ### The two setups -/

/-- The cache size `raid_quick` asks for. -/
def Console.quickCacheMb (c : Console) : ℕ :=
  let totalPool := u64 ((List.range c.session.disks.length).map c.poolSizesMb).sum
  let totalGb := if totalPool / 1024 = 0 then 1 else totalPool / 1024
  let maxCache := minU64 (u64 (totalGb * 1024)) 4096
  if maxCache < cacheDefaultMb then maxCache else cacheDefaultMb

/-- What `raid_quick` meets; `input` is the line it reads, by its words. -/
structure QuickEnv where
  found : List FoundDisk
  input : Option (List PoolArg)
  init : InitEnv
  create : CreateEnv
  alloc : CacheAlloc
  thread : Bool
  fuse : Bool

/-- `raid_quick`, without the configuration it saves at the end. -/
def raidQuick (env : QuickEnv) (c : Console) : RC × Console :=
  match raidScan env.found c with
  | (.ok, c) =>
    if c.devices.length < minDisks then (.errInvalidState, c)
    else
      match env.input with
      | none => (.errInvalidArg, c)
      | some args =>
        if (args.take 16).length < minDisks then (.errInvalidArg, c)
        else
          match raidInitPools env.init (args.take 16) c with
          | (.ok, c) =>
            match createRc env.create c.session with
            | .ok =>
              let c := c.withSession (raidCreate env.create c.session)
              let c := c.withApp (raidCache env.create.flush env.alloc env.thread (.size (some c.quickCacheMb)) c.app).2
              (.ok, (raidMount env.fuse c).2)
            | rc => (rc, c.withSession (raidCreate env.create c.session))
          | (rc, c) => (rc, c)
  | (rc, c) => (rc, c)

/-- What the wizard meets: the drives, the disk numbers it reads, the letters, speeds and pool
sizes by place in its list, the pool files, and what it needs for the volume, the cache and the
mount. -/
structure WizardEnv where
  found : List FoundDisk
  input : Option (List (Option ℕ))
  letter : ℕ → ℕ
  bench : ℕ → Option ℕ
  sizeMb : ℕ → ℕ
  file : Path → Option PoolFile
  pool : ℕ → PoolEnv
  create : CreateEnv
  cacheMb : ℕ
  alloc : CacheAlloc
  thread : Bool
  fuse : Bool

/-- Step 5 of the wizard, from disk number `i` of its list on; a pool that cannot be made is
passed over. -/
def wizardPools (dr : Drives) (env : ℕ → PoolEnv) (sizeMb : ℕ → ℕ) : ℕ → List DiskId → List DiskId → Pools →
    List DiskId × Pools
  | _, [], made, s => (made, s)
  | i, disk :: disks, made, s =>
    let r := volumeCreatePoolFile dr (env i) s disk (sizeMb i)
    wizardPools dr env sizeMb (i + 1) disks (if r.1 then made ++ [disk] else made) r.2

/-- Step 3: every disk of the list gets a letter, and its benchmark. -/
def wizardMap (env : WizardEnv) (disks : List DiskId) (c : Console) : Console :=
  disks.zipIdx.foldl (fun c x =>
    let tag := (diskMapDrive (env.letter x.2) (c.tag x.1)).getD (c.tag x.1)
    let info := fun k => if k = x.1 then benchSingleDisk (env.bench x.2) (c.info k) else c.info k
    (c.withDisks { c.app.sys.d with info := info }).setTag x.1 tag) c

/-- Steps 1 to 5 of the wizard; `none` when it returns before it has pools for a volume. -/
def wizardDisks (env : WizardEnv) (c : Console) : Bool × Console :=
  match diskScanAll env.found { c with physical := [] } with
  | ([], c) => (false, c)
  | (table, c) =>
    let c := { c with physical := table }
    match env.input with
    | none => (false, c)
    | some words =>
      let indices := ((words.filterMap id).filter fun i => decide (i < table.length)).take maxDisks
      if indices.length < minDisks then (false, c)
      else
        let chosen := indices.map fun i => table.getD i 0
        let c := wizardMap env chosen { c with tag := diskSelect table indices c.tag }
        let r := wizardPools c.drives env.pool env.sizeMb 0 chosen [] ⟨c.info, env.file⟩
        let c := { c.withDisks (r.2.disks c.drives) with
          poolSizesMb := fun i => if i < indices.length then env.sizeMb i else c.poolSizesMb i }
        (decide (minDisks ≤ r.1.length), c.withSession { c.session with disks := r.1 })

/-- `wizard_run`, without the configuration it saves at the end. -/
def raidWizard (env : WizardEnv) (c : Console) : Console :=
  match wizardDisks env c with
  | (false, c) => c
  | (true, c) =>
    match volumeCreate env.create c.session.disks c.app.sys with
    | (false, sys) => c.withApp { c.app with sys := sys }
    | (true, sys) =>
      let app := volumeCacheEnable env.alloc env.thread env.cacheMb { c.app with sys := sys, volumeValid := true }
      c.withApp (if env.fuse then { app with mounted := true } else app)

/-! ### The machine -/

/-- The commands of the service, and the transfers of a valid volume. -/
inductive Command where
  | scan (found : List FoundDisk)
  | select (args : List (Option ℕ))
  | mapdrive (diskId letter : ℕ)
  | init (env : InitEnv) (args : List PoolArg)
  | create (env : CreateEnv)
  | mirror (env : CreateEnv)
  | expand (env : ℕ → PoolEnv) (file : Path → Option PoolFile) (args : List (Option (ℕ × ℕ)))
  | rebuild (env : PoolEnv) (renv : RebuildEnv) (file : Path → Option PoolFile) (args : List (Option ℕ))
  | cache (env : ℕ → BatchEnv) (m : CacheAlloc) (thread : Bool) (arg : CacheArg)
  | mount (fuse : Bool)
  | unmount (env : ℕ → BatchEnv)
  | load (a : RestoreEnv)
  | destroy (env : ℕ → BatchEnv) (drop : DropEnv)
  | purge (drop : DropEnv)
  | simulate (idx : Option ℕ) (mode : SimulateMode)
  | quick (env : QuickEnv)
  | wizard (env : WizardEnv)
  | cleanup (env : ℕ → BatchEnv) (drop : DropEnv)
  | read (io : IoEnv) (buffer : Buf) (offset length : ℕ)
  | write (io : IoEnv) (buffer : Buf) (offset length : ℕ)

/-- One command. A record that a scan has released keeps what it held, for the commands that
still reach it through the volume. -/
def Console.step (c : Console) : Command → Option Console
  | .scan found => some (raidScan found c).2
  | .select args => some (raidSelect args c).2
  | .mapdrive diskId letter => some (raidMapdrive diskId letter c).2
  | .init env args => some (raidInitPools env args c).2
  | .create env => some (c.withSession (raidCreate env c.session))
  | .mirror env => some (c.withSession (raidMirror env c.session))
  | .expand env file args => some (c.withSession (raidExpand c.drives env file c.physical args c.session))
  | .rebuild env renv file args => some (raidRebuild env renv file args c).2
  | .cache env m thread arg => some (c.withApp (raidCache env m thread arg c.app).2)
  | .mount fuse => some (raidMount fuse c).2
  | .unmount env => some (c.withApp (raidUnmount env c.app).2)
  | .load a => c.load a
  | .destroy env drop => some (c.destroy env drop).2
  | .purge drop => some (raidPurge drop c).2
  | .simulate idx mode => some (raidSimulate idx mode c).2
  | .quick env => some (raidQuick env c).2
  | .wizard env => some (raidWizard env c)
  | .cleanup env drop => some (raidCleanup env drop c)
  | .read io buffer offset length =>
    if c.app.volumeValid then
      (stripeVolumeRead io c.volume c.app.sys.d buffer offset length).map fun r => c.withVolume r.2.1 r.2.2.1
    else none
  | .write io buffer offset length =>
    if c.app.volumeValid then
      (stripeVolumeWrite io c.volume c.app.sys.d buffer offset length).map fun r => c.withVolume r.2.1 r.2.2
    else none

end RaidTest.Service
