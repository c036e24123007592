import RaidTest.Base.Bitmap
import RaidTest.Base.Since
import RaidTest.Cache.RamCache

/-!
# The bitmaps of the cache

The valid and dirty bits packed into bytes, as `ram_cache.c` has them. Each operation on the
bytes is the operation on the bits. The bits tell the history of the calls: which blocks were
written since they were last invalidated.
-/

namespace RaidTest.Cache
open RaidTest.Base

/-! ### The operations on packed maps -/

/-- `RAM_CACHE`. -/
structure PackedCache where
  allocated : Bool
  buffer : Buf
  cacheSizeBytes : ℕ
  blockSize : ℕ
  blockCount : ℕ
  dirtyMap : Bitmap
  validMap : Bitmap
  hitCount : ℕ
  missCount : ℕ
  flushThread : Bool
  running : Bool
  threadStop : Bool
  flushBuffer : Buf
  flushBufferSize : ℕ
  writeThrough : Bool

/-- The cache with its bits unpacked. -/
def PackedCache.ram (c : PackedCache) : RamCache :=
  ⟨c.allocated, c.buffer, c.cacheSizeBytes, c.blockSize, c.blockCount, c.dirtyMap.bit, c.validMap.bit, c.hitCount,
    c.missCount, c.flushThread, c.running, c.threadStop, c.flushBuffer, c.flushBufferSize, c.writeThrough⟩

/-- `cache_init`. -/
def packedInit (m : CacheAlloc) (cache : PackedCache) (sizeBytes : ℕ) : Bool × PackedCache :=
  if sizeBytes = 0 then (false, cache)
  else
    let count := u32 (sizeBytes / cacheBlockSize)
    let size := count * cacheBlockSize
    let c := { cache with blockSize := cacheBlockSize, blockCount := count, cacheSizeBytes := size }
    if size = 0 ∨ m.buffer = false ∨ m.dirtyMap = false ∨ m.validMap = false then
      (false, { c with allocated := false })
    else
      let c := { c with
        buffer := fun _ => 0
        dirtyMap := .zero
        validMap := .zero
        hitCount := 0
        missCount := 0
        running := true
        threadStop := false
        flushThread := false
        writeThrough := false }
      if m.flushBuffer = false then (false, { c with allocated := false })
      else (true, { c with
        allocated := true
        flushBuffer := fun _ => 0
        flushBufferSize := maxFlushSize })

/-- `for (b = start_block; b < end_block && b < block_count; b++)`. -/
def spanBlocks (c : PackedCache) (offset length : ℕ) : List ℕ :=
  let start := offset / c.blockSize
  let stop := u64 (u64 (offset + length) + c.blockSize - 1) / c.blockSize
  List.range' start (min stop c.blockCount - start)

/-- `cache_write`. -/
def packedWrite (c : PackedCache) (data : Buf) (offset length : ℕ) : Bool × PackedCache :=
  if inCache c.ram offset length then
    (true, { c with
      buffer := c.buffer.put offset length data
      dirtyMap := (spanBlocks c offset length).foldl Bitmap.set c.dirtyMap
      validMap := (spanBlocks c offset length).foldl Bitmap.set c.validMap })
  else (false, c)

/-- `cache_read`. -/
def packedRead (c : PackedCache) (data : Buf) (offset length : ℕ) : Bool × Buf × PackedCache :=
  if inCache c.ram offset length then
    if (spanBlocks c offset length).all c.validMap.bit then
      (true, data.put 0 length (c.buffer.shift offset), { c with hitCount := c.hitCount + 1 })
    else (false, data, { c with missCount := c.missCount + 1 })
  else (false, data, c)

/-- `cache_invalidate`. -/
def packedInvalidate (c : PackedCache) (offset length : ℕ) : PackedCache :=
  if c.allocated = false ∨ length = 0 ∨ u64 (offset + length) > c.cacheSizeBytes then c
  else { c with
    validMap := (spanBlocks c offset length).foldl Bitmap.clear c.validMap
    dirtyMap := (spanBlocks c offset length).foldl Bitmap.clear c.dirtyMap }

/-- The last part of a batch of the flush: `for (i = b; i < b + run && i < block_count; i++)`. -/
def packedClear (c : PackedCache) (b run : ℕ) : PackedCache :=
  { c with dirtyMap := (List.range' b (min (b + run) c.blockCount - b)).foldl Bitmap.clear c.dirtyMap }

/-! ### The bits of the operations -/

/-- The numbers a loop from `lo` passes that ends at `stop` and at `count`. -/
theorem mem_range_min {lo stop count b : ℕ} :
    b ∈ List.range' lo (min stop count - lo) ↔ (lo ≤ b ∧ b < stop) ∧ b < count := by
  rw [List.mem_range'_1]
  omega

theorem mem_spanBlocks (c : PackedCache) (offset length b : ℕ) :
    b ∈ spanBlocks c offset length ↔ inSpan c.ram offset length b = true := by
  rw [spanBlocks, mem_range_min, inSpan, Bool.and_eq_true, Bool.and_eq_true, decide_eq_true_eq, decide_eq_true_eq,
    decide_eq_true_eq]
  rfl

theorem span_decide (c : PackedCache) (offset length b : ℕ) :
    decide (b ∈ spanBlocks c offset length) = inSpan c.ram offset length b := by
  rw [Bool.eq_iff_iff, decide_eq_true_eq]
  exact mem_spanBlocks c offset length b

theorem packedInit_ram (m : CacheAlloc) (cache : PackedCache) (sizeBytes : ℕ) :
    cacheInit m cache.ram sizeBytes = ((packedInit m cache sizeBytes).1, (packedInit m cache sizeBytes).2.ram) := by
  have hzero : Bitmap.zero.bit = fun _ => false := funext Bitmap.bit_zero
  unfold cacheInit packedInit
  simp only
  split
  · rfl
  split
  · rfl
  split
  · simp only [PackedCache.ram, hzero]
  · simp only [PackedCache.ram, hzero]

theorem packedWrite_ram (c : PackedCache) (data : Buf) (offset length : ℕ) :
    cacheWrite c.ram data offset length =
      ((packedWrite c data offset length).1, (packedWrite c data offset length).2.ram) := by
  have hset : ∀ m : Bitmap, ((spanBlocks c offset length).foldl Bitmap.set m).bit =
      fun b => m.bit b || inSpan c.ram offset length b := by
    intro m
    funext b
    rw [Bitmap.bit_foldl_set, span_decide]
  unfold cacheWrite packedWrite
  split
  · simp only [PackedCache.ram, hset]
  · rfl

theorem packedRead_ram (c : PackedCache) (data : Buf) (offset length : ℕ) :
    cacheRead c.ram data offset length =
      ((packedRead c data offset length).1, (packedRead c data offset length).2.1, (packedRead c data offset length).2.2.ram) := by
  have hall : allValid c.ram offset length = (spanBlocks c offset length).all c.validMap.bit := by
    rw [Bool.eq_iff_iff, allValid, List.all_eq_true, List.all_eq_true]
    simp only [List.mem_range, Bool.or_eq_true, Bool.not_eq_true', ← span_decide, decide_eq_false_iff_not]
    constructor
    · intro h b hb
      have hlt : b < c.ram.blockCount := by
        have hs := (mem_spanBlocks c offset length b).mp hb
        simp only [inSpan, Bool.and_eq_true, decide_eq_true_eq] at hs
        exact hs.2
      exact (h b hlt).resolve_left (not_not.mpr hb)
    · intro h b _
      by_cases hb : b ∈ spanBlocks c offset length
      · exact Or.inr (h b hb)
      · exact Or.inl hb
  unfold cacheRead packedRead
  rw [hall]
  split
  · split <;> rfl
  · rfl

theorem packedInvalidate_ram (c : PackedCache) (offset length : ℕ) :
    cacheInvalidate c.ram offset length = (packedInvalidate c offset length).ram := by
  have hclear : ∀ m : Bitmap, ((spanBlocks c offset length).foldl Bitmap.clear m).bit =
      fun b => m.bit b && !inSpan c.ram offset length b := by
    intro m
    funext b
    rw [Bitmap.bit_foldl_clear, span_decide]
  unfold cacheInvalidate packedInvalidate
  have hguard : (c.ram.allocated = false ∨ length = 0 ∨ u64 (offset + length) > c.ram.cacheSizeBytes) ↔
      (c.allocated = false ∨ length = 0 ∨ u64 (offset + length) > c.cacheSizeBytes) := Iff.rfl
  by_cases hg : c.allocated = false ∨ length = 0 ∨ u64 (offset + length) > c.cacheSizeBytes
  · rw [if_pos hg, if_pos (hguard.mpr hg)]
  · rw [if_neg hg, if_neg (hguard.not.mpr hg)]
    simp only [PackedCache.ram, hclear]

theorem packedClear_bit (c : PackedCache) (b run i : ℕ) :
    (packedClear c b run).dirtyMap.bit i =
      (c.dirtyMap.bit i && !(decide (b ≤ i) && decide (i < b + run) && decide (i < c.blockCount))) := by
  have hmem : decide (i ∈ List.range' b (min (b + run) c.blockCount - b)) =
      (decide (b ≤ i) && decide (i < b + run) && decide (i < c.blockCount)) := by
    rw [Bool.eq_iff_iff, decide_eq_true_eq, mem_range_min, Bool.and_eq_true, Bool.and_eq_true, decide_eq_true_eq,
      decide_eq_true_eq, decide_eq_true_eq]
  rw [packedClear, Bitmap.bit_foldl_clear, hmem]

end RaidTest.Cache
