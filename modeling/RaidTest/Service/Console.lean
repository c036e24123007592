import RaidTest.Service.Destroy

/-!
# The disk tables and the pools (`raid_service.c`, `device_manager.c`, `disk_scanner.c`)

The device manager keeps the disks of the last scan, the wizard a table of its own. Volumes
and sessions point into these tables. `init` picks disks by their place in the first and makes
a pool file on each.
-/

namespace RaidTest.Service
open RaidTest.Base RaidTest.Stripe RaidTest.Mirror RaidTest.Cache RaidTest.Journal RaidTest.Volume

/-! ### The tables -/

/-- What a disk record says about the way to its disk: `selected`, the ASCII character
`drive_letter[0]` and `file_path`. -/
structure DiskTag where
  selected : Bool
  letter : ℕ
  path : Option Path
  deriving Repr, DecidableEq

/-- `APP_STATE` with the disk tables: `devices` is `g_disks`, `physical` is
`disk.physical_disks`. The addresses below `MAX_DISKS` are those of `disk.loaded_disks`, the
records of a scan are new from `next` on. -/
structure Console where
  session : Session
  poolSizesMb : ℕ → ℕ
  devices : List DiskId
  physical : List DiskId
  tag : DiskId → DiskTag
  next : DiskId

/-- The state after `raid_init`. -/
def Console.start (d : Disks) : Console := ⟨.start d, fun _ => 0, [], [], fun _ => ⟨false, 0, none⟩, maxDisks⟩

def Console.app (c : Console) : AppState := c.session.app
def Console.volume (c : Console) : StripeVolume := c.session.volume
def Console.info (c : Console) : DiskId → DiskInfo := c.session.app.sys.d.info
def Console.drives (c : Console) : Drives :=
  ⟨fun k => (c.tag k).selected, fun k => decide ((c.tag k).letter ≠ 0), fun k => (c.tag k).path⟩

/-- `device_get` of a number below the count. -/
def Console.device (c : Console) (i : ℕ) : DiskId := c.devices.getD i 0

def Console.withApp (c : Console) (app : AppState) : Console := { c with session := { c.session with app := app } }
def Console.withDisks (c : Console) (d : Disks) : Console :=
  c.withApp { c.app with sys := { c.app.sys with d := d } }
def Console.withState (c : Console) (state : RaidState) : Console := c.withApp { c.app with state := state }
def Console.setTag (c : Console) (k : DiskId) (t : DiskTag) : Console :=
  { c with tag := fun j => if j = k then t else c.tag j }

/-- A drive that `disk_scan_all` does not skip, and the write speed its benchmark measures, if
it gets that far. -/
structure FoundDisk where
  letter : ℕ
  bench : Option ℕ

/-- `bench_single_disk`. -/
def benchSingleDisk (measured : Option ℕ) (x : DiskInfo) : DiskInfo :=
  match measured with
  | none => x
  | some mbs => { x with benchWriteMbs := mbs, benchmarked := true }

/-- The record of a drive as `disk_scan_all` leaves it. -/
def scannedDisk : DiskInfo := ⟨0, 0, 0, false, false, false, false, 0, false⟩

/-- `disk_scan_all`: the new table and the records in it. -/
def diskScanAll (found : List FoundDisk) (c : Console) : List DiskId × Console :=
  let scanned := fun k => if c.next ≤ k then found[k - c.next]? else none
  let info := fun k => match scanned k with
    | none => c.info k
    | some _ => scannedDisk
  let tag := fun k => match scanned k with
    | none => c.tag k
    | some f => ⟨false, f.letter, none⟩
  (List.range' c.next found.length, { c.withDisks { c.app.sys.d with info := info } with
    tag := tag, next := c.next + found.length })

/-- `raid_scan_locked`; `device_cleanup` has emptied the table when the scan starts. -/
def raidScan (found : List FoundDisk) (c : Console) : RC × Console :=
  let c := { c.withState .disconnected with devices := [] }
  match diskScanAll found c with
  | ([], c) => (.errNotFound, c)
  | (table, c) =>
    let bench := fun k => if (c.tag k).letter = 0 then none else (table.idxOf? k).bind fun i => found[i]?.bind FoundDisk.bench
    let info := fun k => benchSingleDisk (bench k) (c.info k)
    (.ok, { (c.withDisks { c.app.sys.d with info := info }).withState .discovered with devices := table })

/-- `disk_select`. -/
def diskSelect (table : List DiskId) (indices : List ℕ) (tag : DiskId → DiskTag) : DiskId → DiskTag :=
  if indices.length < minDisks ∨ maxDisks < indices.length then tag
  else
    let chosen := (indices.takeWhile fun i => decide (i < table.length)).map fun i => table.getD i 0
    fun k => if k ∈ table then { tag k with selected := decide (k ∈ chosen) } else tag k

/-- The check of `select` and `init` on disk numbers. -/
def checkIds (count : ℕ) : List (Option ℕ) → Except RC (List ℕ)
  | [] => .ok []
  | none :: _ => .error .errInvalidArg
  | some id :: args => if count ≤ id then .error .errInvalidDisk else (checkIds count args).map (id :: ·)

/-- `device_select` with `count` numbers, of which the array has room for the first four. -/
def deviceSelect (count : ℕ) (ids : List ℕ) (c : Console) : Console :=
  if maxDisks < count then c else { c with tag := diskSelect c.devices ids c.tag }

/-- `raid_select`, by what `safe_atou32` makes of its arguments. -/
def raidSelect (args : List (Option ℕ)) (c : Console) : RC × Console :=
  if c.app.state ≠ .discovered then (.errInvalidState, c)
  else if args = [] then (.errInvalidArg, c)
  else
    match checkIds c.devices.length (args.take maxDisks) with
    | .error rc => (rc, c)
    | .ok ids => (.ok, deviceSelect args.length ids c)

/-- The pool file of a drive. The paths differ in the letter only. -/
def poolPath (letter : ℕ) : Path := letter

/-- `drive_letter[0] < 'A' || drive_letter[0] > 'Z'` fails. -/
def driveLetter (letter : ℕ) : Bool := decide (65 ≤ letter) && decide (letter ≤ 90)

/-- `disk_map_drive`. -/
def diskMapDrive (letter : ℕ) (t : DiskTag) : Option DiskTag :=
  if driveLetter letter then some { t with letter := letter, path := some (poolPath letter) } else none

/-- `device_map_drive`. -/
def deviceMapDrive (diskId letter : ℕ) (c : Console) : Option Console :=
  if diskId < c.devices.length then
    (diskMapDrive letter (c.tag (c.device diskId))).map (c.setTag (c.device diskId))
  else none

/-- `raid_mapdrive`. -/
def raidMapdrive (diskId letter : ℕ) (c : Console) : RC × Console :=
  if c.app.state ≠ .discovered then (.errInvalidState, c)
  else if c.devices = [] then (.errInvalidState, c)
  else
    match deviceMapDrive diskId letter c with
    | none => (.errInvalidDisk, c)
    | some c => (.ok, c)

/-! ### The disks of `init` -/

/-- `ensure_drive_mapped`. -/
def ensureDriveMapped (di : ℕ) (c : Console) : RC × Console :=
  if c.devices.length ≤ di then (.errInvalidDisk, c)
  else
    let t := c.tag (c.device di)
    if t.path.isSome then (.ok, c)
    else if driveLetter t.letter then (.ok, (deviceMapDrive di t.letter c).getD c)
    else (.errInvalidDisk, c)

/-- The calls of `ensure_drive_mapped` whose result nothing looks at. -/
def ensureEach (ids : List ℕ) (c : Console) : Console := ids.foldl (fun c di => (ensureDriveMapped di c).2) c

/-- An argument of `init`: with a colon, what `safe_atou32` and `safe_atou64` make of its two
sides, else what both make of the whole. -/
inductive PoolArg where
  | pair (id mb : Option ℕ)
  | plain (id size : Option ℕ)
  deriving Repr, DecidableEq

def PoolArg.hasColon : PoolArg → Bool
  | .pair _ _ => true
  | .plain _ _ => false

def PoolArg.id : PoolArg → Option ℕ
  | .pair id _ => id
  | .plain id _ => id

def minPoolMb : ℕ := 1024
def poolSizeDefaultMb : ℕ := 51200

/-- `init_pools_from_pairs`; `pp` are the pairs of number and size so far. -/
def initPoolsFromPairs : List PoolArg → List (ℕ × ℕ) → Console → RC × List (ℕ × ℕ) × Console
  | [], pp, c => (.ok, pp, c)
  | arg :: args, pp, c =>
    if maxDisks ≤ pp.length then (.ok, pp, c)
    else
      match arg with
      | .plain _ _ => (.errInvalidArg, pp, c)
      | .pair none _ => (.errInvalidArg, pp, c)
      | .pair (some _) none => (.errInvalidArg, pp, c)
      | .pair (some di) (some mb) =>
        if mb = 0 then (.errInvalidArg, pp, c)
        else if c.devices.length ≤ di then (.errInvalidDisk, pp, c)
        else if mb < minPoolMb then (.errInvalidArg, pp, c)
        else
          match ensureDriveMapped di c with
          | (.ok, c) => initPoolsFromPairs args (pp ++ [(di, mb)]) c
          | (rc, c) => (rc, pp, c)

/-- The selected disks, by number. -/
def Console.selected (c : Console) : List ℕ :=
  (List.range c.devices.length).filter fun i => (c.tag (c.device i)).selected

/-- The size of pool number `i` when the arguments leave it open. -/
def Console.poolSizeMb (c : Console) (i : ℕ) : ℕ :=
  if i < c.session.disks.length ∧ 0 < c.poolSizesMb i then c.poolSizesMb i else poolSizeDefaultMb

/-- The pools of the selected disks, with `size i` for the `i`-th of them. -/
def initPoolsSelected (size : ℕ → ℕ) (c : Console) : RC × List (ℕ × ℕ) × Console :=
  if c.selected.length < minDisks then (.errInvalidArg, [], c)
  else
    let sel := c.selected.take maxDisks
    (.ok, sel.zipIdx.map fun x => (x.1, size x.2), ensureEach sel c)

/-- `init_pools_all_selected_with_size`. -/
def initPoolsAllSelectedWithSize (sizeMb : ℕ) (c : Console) : RC × List (ℕ × ℕ) × Console :=
  initPoolsSelected (fun _ => if sizeMb < minPoolMb then minPoolMb else sizeMb) c

/-- `init_pools_from_selected`. -/
def initPoolsFromSelected (c : Console) : RC × List (ℕ × ℕ) × Console := initPoolsSelected c.poolSizeMb c

/-- `init_pools_from_ids`. -/
def initPoolsFromIds (args : List PoolArg) (c : Console) : RC × List (ℕ × ℕ) × Console :=
  match checkIds c.devices.length ((args.map PoolArg.id).take maxDisks) with
  | .error rc => (rc, [], c)
  | .ok ids =>
    let c := deviceSelect args.length ids c
    let size := fun i => if c.poolSizeMb i < minPoolMb then minPoolMb else c.poolSizeMb i
    (.ok, ids.zipIdx.map fun x => (x.1, size x.2), ensureEach ids c)

/-- The choice `raid_init_pools_locked` makes among the forms. -/
def initPoolsPick (args : List PoolArg) (c : Console) : RC × List (ℕ × ℕ) × Console :=
  if args.any PoolArg.hasColon then initPoolsFromPairs args [] c
  else
    match args with
    | [] => initPoolsFromSelected c
    | [arg] =>
      -- no number at all counts as UINT32_MAX
      if c.devices.length ≤ arg.id.getD 4294967295 then
        match arg with
        | .plain _ (some size) => initPoolsAllSelectedWithSize size c
        | _ => (.errInvalidArg, [], c)
      else initPoolsFromIds [arg] c
    | args => initPoolsFromIds args c

/-! ### The pool files of `init` -/

/-- `volume_create_pool_file`. -/
def volumeCreatePoolFile (dr : Drives) (env : PoolEnv) (s : Pools) (disk : DiskId) (mb : ℕ) : Bool × Pools :=
  if validatePoolSize (u64 (mb * mib)) = false then (false, s) else poolFileCreate dr env s disk (u64 (mb * mib))

/-- `init_pools_create_files` from pair number `i` on; `made` are `disk.disks` and
`disk.pool_sizes_mb` so far. The error is `RC_ERR_ROLLBACK` when the files are deleted again. -/
def initPoolsCreateFiles (dr : Drives) (env : ℕ → PoolEnv) (devices : List DiskId) :
    ℕ → List (ℕ × ℕ) → List (DiskId × ℕ) → Pools → RC × List (DiskId × ℕ) × Pools
  | _, [], made, s => (.ok, made, s)
  | i, (di, mb) :: pp, made, s =>
    if devices.length ≤ di then (.errInvalidDisk, made, s)
    else
      let disk := devices.getD di 0
      if dr.letter disk = false then initPoolsCreateFiles dr env devices (i + 1) pp made s
      else
        let r := volumeCreatePoolFile dr (env i) s disk mb
        if r.1 then initPoolsCreateFiles dr env devices (i + 1) pp (made ++ [(disk, mb)]) r.2
        else (.errRollback, made, rollback dr env 0 (made.map Prod.fst) r.2)

/-- What `init` finds: the pool files, and the answers about those it deletes and those it makes. -/
structure InitEnv where
  file : Path → Option PoolFile
  old : ℕ → PoolEnv
  pool : ℕ → PoolEnv

/-- `cleanup_pool_session`; the superblocks and directories it deletes are not in the state. -/
def Console.cleanupPoolSession (env : ℕ → PoolEnv) (c : Console) (s : Pools) : Console × Pools :=
  ({ c with session := { c.session with disks := [] } }, rollback c.drives env 0 c.session.disks s)

def Console.withMade (c : Console) (disks : List DiskId) (made : List (DiskId × ℕ)) (s : Pools) : Console :=
  let d := s.disks c.drives
  { c with
    session := ⟨{ c.app with sys := { c.app.sys with d := d } }, disks⟩
    poolSizesMb := fun i => ((made.map Prod.snd)[i]?).getD (c.poolSizesMb i) }

/-- `raid_init_pools_locked`. -/
def raidInitPools (env : InitEnv) (args : List PoolArg) (c : Console) : RC × Console :=
  if c.app.state ≠ .discovered ∧ c.app.state ≠ .unmounted then (.errInvalidState, c)
  else if c.devices = [] then (.errInvalidState, c)
  else
    let (c, s) := if c.app.state = .unmounted then c.cleanupPoolSession env.old ⟨c.info, env.file⟩
      else (c, ⟨c.info, env.file⟩)
    match initPoolsPick args c with
    | (.ok, pp, c) =>
      if pp.length < minDisks ∨ maxDisks < pp.length then (.errInvalidArg, c.withDisks (s.disks c.drives))
      else
        match initPoolsCreateFiles c.drives env.pool c.devices 0 pp [] s with
        | (.ok, made, s) =>
          if made.length < minDisks then (.errIo, c.withMade (made.map Prod.fst) made s)
          else (.ok, (c.withMade (made.map Prod.fst) made s).withState .initialized)
        | (.errRollback, made, s) => (.errRollback, c.withMade [] made s)
        | (rc, made, s) => (rc, c.withMade (made.map Prod.fst) made s)
    | (rc, _, c) => (rc, c.withDisks (s.disks c.drives))

end RaidTest.Service
