import RaidTest.Cache.RamCache

/-!
# The mirror engine (`mirror_engine.c`, `storage_common.c`)

Every member of a mirror holds the whole volume at the same offsets. A read takes
the first healthy member that answers, a write goes to all healthy members, and a
member that fails is taken out by clearing its `healthy` flag.
-/

namespace RaidTest.Mirror
open RaidTest.Cache

/-! ### Raw transfers -/

/-- `stripe_io_ok`. -/
def stripeIoOk (d : Disks) (i : DiskId) (ok : Bool) : Disks :=
  let x := d.info i
  if ok then d.setInfo i { x with errorCount := 0 }
  else d.setInfo i { x with
    errorCount := x.errorCount + 1
    faulty := x.faulty || decide (x.errorCount + 1 > 5) }

/-- `stripe_read_raw`. A RAM disk answers from its buffer and cannot fail. -/
def stripeReadRaw (t : Transfer) (d : Disks) (i : DiskId) (buffer : Buf) (offset length : ℕ) :
    Bool × Disks × Buf :=
  if (d.info i).ramBuffer then (true, d, buffer.put 0 length (Buf.shift (d.pool i) offset))
  else if (d.info i).faulty then (false, d, buffer)
  else if (d.info i).hasHandle then
    match t with
    | .ok => (true, stripeIoOk d i true, buffer.put 0 length (Buf.shift (d.pool i) offset))
    | .error left => (false, stripeIoOk d i false, buffer.put 0 length left)
  else (false, stripeIoOk d i false, buffer)

/-- `stripe_write_raw`. -/
def stripeWriteRaw (t : Transfer) (d : Disks) (i : DiskId) (buffer : Buf) (offset length : ℕ) :
    Bool × Disks :=
  if (d.info i).ramBuffer then (true, d.writePool i offset length buffer)
  else if (d.info i).faulty then (false, d)
  else if (d.info i).hasHandle then
    match t with
    | .ok => (true, stripeIoOk (d.writePool i offset length buffer) i true)
    | .error left => (false, stripeIoOk (d.writePool i offset length left) i false)
  else (false, stripeIoOk d i false)

/-! ### Volumes -/

def setHealthy (d : Disks) (i : DiskId) (h : Bool) : Disks :=
  d.setInfo i { d.info i with healthy := h }

/-- `mirror_volume_create`; `none` is `false`. -/
def mirrorVolumeCreate (d : Disks) (disks : List DiskId) : Option (StripeVolume × Disks) :=
  if disks.length < minMirrorDisks ∨ maxDisks < disks.length then none
  else
    let m := disks.foldl (fun m i => if (d.info i).poolBytes < m then (d.info i).poolBytes else m)
      18446744073709551615
    some ({ StripeVolume.zero with
        raidLevel := .mirror
        diskCount := disks.length
        disks := fun i => disks[i]?
        virtualTotalBytes := m - m % sectorSize
        stripeUnit := sectorSize
        phaseCount := 0
        healthyCount := disks.length },
      disks.foldl (fun d i => setHealthy d i true) d)

/-- `length > total || virtual_offset > total - length`. -/
def outOfRange (v : StripeVolume) (offset length : ℕ) : Bool :=
  decide (length > v.virtualTotalBytes) || decide (offset > v.virtualTotalBytes - length)

/-- `if (InterlockedExchange(&disk->healthy, 0) == 1) InterlockedDecrement(&vol->healthy_count)`. -/
def dropMember (v : StripeVolume) (d : Disks) (i : DiskId) : StripeVolume × Disks :=
  (if (d.info i).healthy then { v with healthyCount := v.healthyCount - 1 } else v,
    setHealthy d i false)

/-- The loop of `mirror_volume_read` over the members from number `i` on. -/
def mirrorReadLoop (io : IoEnv) (offset length : ℕ) :
    ℕ → ℕ → StripeVolume → Disks → Buf → Bool × StripeVolume × Disks × Buf
  | 0, _, v, d, buffer => (false, v, d, buffer)
  | n + 1, i, v, d, buffer =>
    let disk := v.diskAt i
    if (d.info disk).healthy = false then mirrorReadLoop io offset length n (i + 1) v d buffer
    else if (d.info disk).faulty then
      let (v, d) := dropMember v d disk
      mirrorReadLoop io offset length n (i + 1) v d buffer
    else
      match stripeReadRaw (io.result i) d disk buffer offset length with
      | (true, d, buffer) => (true, { v with bytesRead := u64 (v.bytesRead + length) }, d, buffer)
      | (false, d, buffer) =>
        let (v, d) := dropMember v d disk
        mirrorReadLoop io offset length n (i + 1) v d buffer

/-- `mirror_volume_read`. -/
def mirrorVolumeRead (io : IoEnv) (v : StripeVolume) (d : Disks) (buffer : Buf)
    (offset length : ℕ) : Bool × StripeVolume × Disks × Buf :=
  if length = 0 ∨ outOfRange v offset length ∨ v.checkDisks = false then (false, v, d, buffer)
  else if v.cacheEnabled ∧ v.cacheFlushInProgress = false ∧
      offset + length ≤ v.cache.cacheSizeBytes then
    let (ok, out, cache) := cacheRead v.cache buffer offset length
    let v := { v with cache := cache }
    (ok, if ok then { v with bytesRead := u64 (v.bytesRead + length) } else v, d, out)
  else mirrorReadLoop io offset length v.diskCount 0 v d buffer

/-- The loop of `mirror_write_to_all` over the members from number `i` on. -/
def mirrorWriteLoop (io : IoEnv) (buffer : Buf) (offset length : ℕ) :
    ℕ → ℕ → Bool → StripeVolume → Disks → Bool × StripeVolume × Disks
  | 0, _, anyOk, v, d => (anyOk, v, d)
  | n + 1, i, anyOk, v, d =>
    let disk := v.diskAt i
    if (d.info disk).healthy = false then mirrorWriteLoop io buffer offset length n (i + 1) anyOk v d
    else if (d.info disk).faulty then
      let (v, d) := dropMember v d disk
      mirrorWriteLoop io buffer offset length n (i + 1) anyOk v d
    else
      match stripeWriteRaw (io.result i) d disk buffer offset length with
      | (true, d) => mirrorWriteLoop io buffer offset length n (i + 1) true v d
      | (false, d) =>
        let (v, d) := dropMember v d disk
        mirrorWriteLoop io buffer offset length n (i + 1) anyOk v d

/-- `mirror_write_to_all`. -/
def mirrorWriteToAll (io : IoEnv) (v : StripeVolume) (d : Disks) (buffer : Buf)
    (offset length : ℕ) : Bool × StripeVolume × Disks :=
  if length = 0 ∨ outOfRange v offset length then (false, v, d)
  else mirrorWriteLoop io buffer offset length v.diskCount 0 false v d

/-- `mirror_volume_write`. -/
def mirrorVolumeWrite (io : IoEnv) (v : StripeVolume) (d : Disks) (buffer : Buf)
    (offset length : ℕ) : Bool × StripeVolume × Disks :=
  if length = 0 ∨ outOfRange v offset length ∨ v.checkDisks = false then (false, v, d)
  else if v.cacheEnabled ∧ v.cacheFlushInProgress = false ∧
      offset + length ≤ v.cache.cacheSizeBytes then
    let (ok, cache) := cacheWrite v.cache buffer offset length
    let v := { v with cache := cache }
    if ok ∧ cache.writeThrough then
      match mirrorWriteToAll io v d buffer offset length with
      | (true, v, d) => (true, { v with bytesWritten := u64 (v.bytesWritten + length) }, d)
      | (false, v, d) => (false, { v with cache := cacheInvalidate v.cache offset length }, d)
    else (ok, if ok then { v with bytesWritten := u64 (v.bytesWritten + length) } else v, d)
  else
    let (anyOk, v, d) := mirrorWriteToAll io v d buffer offset length
    (anyOk, if anyOk then { v with bytesWritten := u64 (v.bytesWritten + length) } else v, d)

/-! ### Rebuild -/

/-- The answers of the environment to one rebuild: the allocation, the transfers of the
chunks and the final flush. -/
structure RebuildEnv where
  alloc : Bool
  read : ℕ → Transfer
  write : ℕ → Transfer
  flush : Bool

def chunkSize : ℕ := 67108864

/-- The copy loop from chunk number `k` on. -/
def rebuildLoop (env : RebuildEnv) (src replacement : DiskId) (total : ℕ) :
    ℕ → ℕ → Disks → Buf → Bool × Disks
  | 0, _, d, _ => (true, d)
  | fuel + 1, k, d, buf =>
    let offset := k * chunkSize
    if offset < total then
      let chunk := minU64 (total - offset) chunkSize
      match stripeReadRaw (env.read k) d src buf offset chunk with
      | (false, d, _) => (false, d)
      | (true, d, buf) =>
        match stripeWriteRaw (env.write k) d replacement buf offset chunk with
        | (false, d) => (false, d)
        | (true, d) => rebuildLoop env src replacement total fuel (k + 1) d buf
    else (true, d)

/-- `src_idx`: the first healthy member other than the one to be replaced. -/
def rebuildSource (v : StripeVolume) (d : Disks) (replaceIdx : ℕ) : Option ℕ :=
  (List.range v.diskCount).find? fun i => i ≠ replaceIdx ∧ (d.info (v.diskAt i)).healthy

/-- `mirror_volume_rebuild`. -/
def mirrorVolumeRebuild (env : RebuildEnv) (v : StripeVolume) (d : Disks) (replacement : DiskId)
    (replaceIdx : ℕ) : Bool × StripeVolume × Disks :=
  if v.diskCount ≤ replaceIdx ∨ v.checkDisks = false ∨ v.virtualTotalBytes = 0 then (false, v, d)
  else
    match rebuildSource v d replaceIdx with
    | none => (false, v, d)
    | some srcIdx =>
      let total := v.virtualTotalBytes
      let oldDisk := v.diskAt replaceIdx
      let oldWasHealthy := (d.info oldDisk).healthy
      let (v1, d1) := dropMember v d oldDisk
      if env.alloc = false then
        (false, if oldWasHealthy then { v1 with healthyCount := v1.healthyCount + 1 } else v1,
          setHealthy d1 oldDisk oldWasHealthy)
      else
        let (copied, d2) := rebuildLoop env (v1.diskAt srcIdx) replacement total
          (total / chunkSize + 1) 0 d1 (fun _ => 0)
        if copied ∧ env.flush then
          (true, { v1 with
              disks := fun i => if i = replaceIdx then some replacement else v1.disks i
              healthyCount := v1.healthyCount + 1 },
            setHealthy d2 replacement true)
        else
          (false, if oldWasHealthy then { v1 with healthyCount := v1.healthyCount + 1 } else v1,
            setHealthy d2 oldDisk oldWasHealthy)

end RaidTest.Mirror
