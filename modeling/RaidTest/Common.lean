import RaidTest.Base.Extent
import Mathlib.Data.Int.Notation
import Mathlib.Tactic.Common
import Mathlib.Algebra.Ring.Nat

/-!
# Shared types of the volume manager (`common.h`)

Fixed C arrays are functions of the index: `disks i`, `phases p`, `ratios j`.
Only the entries below the count kept beside them are meaningful, as in C. A
buffer argument `(pointer, length)` is a function and a length, and `pointer + n`
is the shifted function. Disk records are told apart by their address.
-/

namespace RaidTest
open RaidTest.Base

abbrev Byte := UInt8
abbrev Buf := ℕ → Byte

/-- `buffer + n` on a `uint8_t*`. -/
def Buf.shift (b : Buf) (n : ℕ) : Buf := fun i => b (n + i)

/-- `memcpy(buffer + offset, data, length)`. -/
def Buf.put (b : Buf) (offset length : ℕ) (data : Buf) : Buf := fun p =>
  if offset ≤ p ∧ p < offset + length then data (p - offset) else b p

theorem Buf.put_of_mem (b : Buf) {offset length : ℕ} (data : Buf) {p : ℕ}
    (h1 : offset ≤ p) (h2 : p < offset + length) : b.put offset length data p = data (p - offset) :=
  if_pos ⟨h1, h2⟩

theorem Buf.put_of_not_mem (b : Buf) {offset length : ℕ} (data : Buf) {p : ℕ}
    (h : p < offset ∨ offset + length ≤ p) : b.put offset length data p = b p :=
  if_neg (by omega)

def sectorSize : ℕ := 512
def maxDisks : ℕ := 4
def minDisks : ℕ := 2
def minMirrorDisks : ℕ := 2
def defaultStripeUnit : ℕ := 1048576
def maxIoEntries : ℕ := 256
def ioRingSize : ℕ := 64
def cacheBlockSize : ℕ := 65536
def maxFlushBatch : ℕ := 256
def maxFlushSize : ℕ := 16777216

/-- `uint32_t` and `uint64_t` results, where an operation can overflow. -/
def u32 (n : ℕ) : ℕ := n % 4294967296
def u64 (n : ℕ) : ℕ := n % 18446744073709551616

theorem u32_of_lt {n : ℕ} (h : n < 4294967296) : u32 n = n := Nat.mod_eq_of_lt h
theorem u64_of_lt {n : ℕ} (h : n < 18446744073709551616) : u64 n = n := Nat.mod_eq_of_lt h

/-- `a - b` on `uint64_t`. -/
def sub64 (a b : ℕ) : ℕ := u64 (a + 18446744073709551616 - b)

theorem sub64_of_le {a b : ℕ} (h : b ≤ a) (ha : a < 18446744073709551616) : sub64 a b = a - b := by
  unfold sub64 u64
  omega

def minU64 (a b : ℕ) : ℕ := if a < b then a else b

theorem minU64_eq (a b : ℕ) : minU64 a b = min a b := by
  unfold minU64
  split <;> omega

/-- The address of a `DISK_INFO` record. -/
abbrev DiskId := ℕ

/-- `DISK_INFO`, as far as volumes and transfers use it. `hasHandle` is
`handle != INVALID_HANDLE_VALUE`, `ramBuffer` is `ram_buffer != NULL`. -/
structure DiskInfo where
  poolBytes : ℕ
  writeSpeedMbs : ℕ
  benchWriteMbs : ℕ
  benchmarked : Bool
  hasHandle : Bool
  ramBuffer : Bool
  faulty : Bool
  errorCount : ℕ
  healthy : Bool
  deriving Repr, DecidableEq

/-- All disk records and the bytes of the pool behind each. -/
structure Disks where
  info : DiskId → DiskInfo
  pool : DiskId → Buf

def Disks.setInfo (d : Disks) (i : DiskId) (x : DiskInfo) : Disks :=
  { d with info := fun j => if j = i then x else d.info j }

/-- `length` bytes written at `offset` of a pool. -/
def Disks.writePool (d : Disks) (i : DiskId) (offset length : ℕ) (data : Buf) : Disks :=
  { d with pool := fun j p =>
      if j = i ∧ offset ≤ p ∧ p < offset + length then data (p - offset) else d.pool j p }

/-- What a worker does to its disk after a failed transfer. -/
def Disks.markFaulty (d : Disks) (i : DiskId) : Disks :=
  d.setInfo i { d.info i with faulty := true, healthy := false }

@[simp] theorem Disks.writePool_info (d : Disks) (i : DiskId) (offset length : ℕ) (data : Buf) :
    (d.writePool i offset length data).info = d.info := rfl

@[simp] theorem Disks.setInfo_pool (d : Disks) (i : DiskId) (x : DiskInfo) :
    (d.setInfo i x).pool = d.pool := rfl

@[simp] theorem Disks.markFaulty_pool (d : Disks) (i : DiskId) : (d.markFaulty i).pool = d.pool := rfl

theorem Buf.put_patch (b : Buf) (offset length : ℕ) (data : Buf) :
    (fun _ => b.put offset length data) =
      (⟨⟨(), offset, length⟩, data⟩ : Patch Unit Byte).apply (fun _ : Unit => b) := by
  funext k p
  simp only [Buf.put, Patch.apply, Extent.Holds, true_and]

/-- `MAPPING_PHASE`. -/
structure MappingPhase where
  activeCount : ℕ
  activeDiskIndices : ℕ → ℕ
  ratios : ℕ → ℕ
  totalRatio : ℕ
  virtualStartBytes : ℕ
  virtualSizeBytes : ℕ
  physicalStartsBytes : ℕ → ℕ
  cycleSizeBytes : ℕ

/-- The phase `memset` leaves. -/
def MappingPhase.zero : MappingPhase := ⟨0, fun _ => 0, fun _ => 0, 0, 0, 0, fun _ => 0, 0⟩

/-- `IO_MAPPING_ENTRY`. -/
structure IoMappingEntry where
  diskIndex : ℕ
  physicalOffset : ℕ
  lengthBytes : ℕ
  deriving Repr, DecidableEq

/-- `RAM_CACHE`. Bit `b % 8` of byte `b / 8` of a bitmap is `dirtyMap b`, `validMap b`;
`allocated` is `buffer != NULL`, `flushThread` is `flush_thread != NULL`. -/
structure RamCache where
  allocated : Bool
  buffer : Buf
  cacheSizeBytes : ℕ
  blockSize : ℕ
  blockCount : ℕ
  dirtyMap : ℕ → Bool
  validMap : ℕ → Bool
  hitCount : ℕ
  missCount : ℕ
  flushThread : Bool
  running : Bool
  threadStop : Bool
  flushBuffer : Buf
  flushBufferSize : ℕ
  writeThrough : Bool

/-- The cache record `memset` leaves. -/
def RamCache.zero : RamCache :=
  ⟨false, fun _ => 0, 0, 0, 0, fun _ => false, fun _ => false, 0, 0, false, false, false,
    fun _ => 0, 0, false⟩

/-- `raid_level`. -/
inductive RaidLevel where
  | stripe
  | mirror
  deriving Repr, DecidableEq

/-- `STRIPE_VOLUME`. `workerState` is the `DISK_WORKER` array: the disk each worker serves. -/
structure StripeVolume where
  disks : ℕ → Option DiskId
  diskCount : ℕ
  stripeUnit : ℕ
  phaseCount : ℕ
  phases : ℕ → MappingPhase
  virtualTotalBytes : ℕ
  cache : RamCache
  cacheEnabled : Bool
  bytesWritten : ℕ
  bytesRead : ℕ
  cacheFlushInProgress : Bool
  raidLevel : RaidLevel
  healthyCount : ℤ
  workerState : Option (List DiskId)

/-- The volume `memset` leaves. -/
def StripeVolume.zero : StripeVolume :=
  ⟨fun _ => none, 0, 0, 0, fun _ => .zero, 0, .zero, false, 0, 0, false, .stripe, 0, none⟩

/-- The record the `i`-th member pointer names; `NULL` only where `checkDisks` fails. -/
def StripeVolume.diskAt (v : StripeVolume) (i : ℕ) : DiskId := (v.disks i).getD 0

/-- `CHECK_DISKS`: no member pointer is `NULL`. -/
def StripeVolume.checkDisks (v : StripeVolume) : Bool :=
  (List.range v.diskCount).all fun i => (v.disks i).isSome

theorem StripeVolume.checkDisks_iff (v : StripeVolume) :
    v.checkDisks = true ↔ ∀ i < v.diskCount, v.disks i = some (v.diskAt i) := by
  simp only [checkDisks, List.all_eq_true, List.mem_range, diskAt]
  refine forall_congr' fun i => forall_congr' fun _ => ?_
  cases v.disks i <;> simp

/-- `IO_OP_TYPE`. -/
inductive IoOpType where
  | read
  | write
  deriving Repr, DecidableEq

/-- `IO_REQUEST` as a worker takes it from its ring: `slot` is the number of the mapping
entry it was made from, `bufferOffset` its place in the caller's buffer, `disk` the
record of the worker it was pushed to. -/
structure IoRequest where
  op : IoOpType
  slot : ℕ
  disk : DiskId
  bufferOffset : ℕ
  physicalOffset : ℕ
  length : ℕ
  deriving Repr, DecidableEq

/-- The place of a request in the caller's buffer and in a pool. -/
def IoRequest.place (r : IoRequest) : ℕ × Extent DiskId :=
  (r.bufferOffset, ⟨r.disk, r.physicalOffset, r.length⟩)

/-- What one transfer comes to: it succeeds, or it fails and leaves any bytes in its range. -/
inductive Transfer where
  | ok
  | error (left : Buf)

def Transfer.isOk : Transfer → Bool
  | .ok => true
  | .error _ => false

/-- The bytes a transfer brings, when its source holds `data`. -/
def Transfer.brings (t : Transfer) (data : Buf) : Buf :=
  match t with
  | .ok => data
  | .error left => left

theorem Transfer.isOk_iff (t : Transfer) : t.isOk = true ↔ t = .ok := by
  cases t <;> simp [Transfer.isOk]

/-- The answers of the environment to one call: whether `CreateEventW` succeeds, what
becomes of the `i`-th transfer, the order in which the worker threads get to the
requests, and whether one of them is still at work when the last entry is counted. -/
structure IoEnv where
  event : Bool
  result : ℕ → Transfer
  order : List IoRequest → List IoRequest
  perm : ∀ l, (order l).Perm l
  busy : Bool

/-- Everything succeeds, in the order of submission. -/
def IoEnv.good : IoEnv := ⟨true, fun _ => .ok, fun l => l, fun l => List.Perm.refl l, true⟩

/-- Every transfer succeeds. -/
def IoEnv.Succeeds (io : IoEnv) : Prop := io.event = true ∧ ∀ i, io.result i = .ok

theorem IoEnv.good_succeeds : IoEnv.good.Succeeds := ⟨rfl, fun _ => rfl⟩

/-- The first `n` transfers of a call succeed. -/
def IoEnv.allOk (io : IoEnv) (n : ℕ) : Bool := (List.range' 0 n).all fun i => (io.result i).isOk

theorem IoEnv.allOk_iff (io : IoEnv) (n : ℕ) : io.allOk n = true ↔ ∀ i < n, io.result i = .ok := by
  simp only [allOk, List.all_eq_true, List.mem_range'_1, Transfer.isOk_iff]
  exact ⟨fun h i hi => h i ⟨Nat.zero_le i, by omega⟩, fun h i hi => h i (by omega)⟩

end RaidTest
