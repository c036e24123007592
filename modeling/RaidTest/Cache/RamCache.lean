import RaidTest.Common

/-!
# The RAM cache (`ram_cache.c`)

A buffer over the first `cacheSizeBytes` of the volume, in blocks of 64 KB, with
a valid and a dirty bit for each block. A write marks every block it touches; a
read is served when every block it touches is valid.
-/

namespace RaidTest.Cache

/-! ### The operations -/

/-- Whether each allocation of `cache_init` succeeds. -/
structure CacheAlloc where
  buffer : Bool
  dirtyMap : Bool
  validMap : Bool
  flushBuffer : Bool

def CacheAlloc.good : CacheAlloc := ⟨true, true, true, true⟩

/-- `cache_init`. An allocation of no bytes fails. -/
def cacheInit (m : CacheAlloc) (cache : RamCache) (sizeBytes : ℕ) : Bool × RamCache :=
  if sizeBytes = 0 then (false, cache)
  else
    let count := u32 (sizeBytes / cacheBlockSize)
    let size := count * cacheBlockSize
    let c := { cache with blockSize := cacheBlockSize, blockCount := count, cacheSizeBytes := size }
    if size = 0 ∨ m.buffer = false ∨ m.dirtyMap = false ∨ m.validMap = false then
      (false, { c with allocated := false })
    else
      let c := { c with
        buffer := fun _ => 0
        dirtyMap := fun _ => false
        validMap := fun _ => false
        hitCount := 0
        missCount := 0
        running := true
        threadStop := false
        flushThread := false
        writeThrough := false }
      if m.flushBuffer = false then (false, { c with allocated := false })
      else (true, { c with
        allocated := true
        flushBuffer := fun _ => 0
        flushBufferSize := maxFlushSize })

/-- `cache_destroy`, once the flush thread has stopped. -/
def cacheDestroy (c : RamCache) : RamCache := if c.allocated then .zero else c

/-- The guard at the head of `cache_write` and `cache_read`. -/
def inCache (c : RamCache) (offset length : ℕ) : Bool :=
  c.allocated && !(length == 0 || decide (u64 (offset + length) < offset) ||
    decide (u64 (offset + length) > c.cacheSizeBytes))

/-- Block `b` is one the loop from `start_block` to `end_block` passes. -/
def inSpan (c : RamCache) (offset length b : ℕ) : Bool :=
  decide (offset / c.blockSize ≤ b) &&
    decide (b < u64 (u64 (offset + length) + c.blockSize - 1) / c.blockSize) && decide (b < c.blockCount)

/-- `cache_write`. -/
def cacheWrite (c : RamCache) (data : Buf) (offset length : ℕ) : Bool × RamCache :=
  if inCache c offset length then
    (true, { c with
      buffer := c.buffer.put offset length data
      dirtyMap := fun b => c.dirtyMap b || inSpan c offset length b
      validMap := fun b => c.validMap b || inSpan c offset length b })
  else (false, c)

/-- `all_valid`. -/
def allValid (c : RamCache) (offset length : ℕ) : Bool :=
  (List.range c.blockCount).all fun b => !inSpan c offset length b || c.validMap b

/-- `cache_read`. -/
def cacheRead (c : RamCache) (data : Buf) (offset length : ℕ) : Bool × Buf × RamCache :=
  if inCache c offset length then
    if allValid c offset length then
      (true, data.put 0 length (c.buffer.shift offset), { c with hitCount := c.hitCount + 1 })
    else (false, data, { c with missCount := c.missCount + 1 })
  else (false, data, c)

/-- `cache_invalidate`. -/
def cacheInvalidate (c : RamCache) (offset length : ℕ) : RamCache :=
  if c.allocated = false ∨ length = 0 ∨ u64 (offset + length) > c.cacheSizeBytes then c
  else { c with
    validMap := fun b => c.validMap b && !inSpan c offset length b
    dirtyMap := fun b => c.dirtyMap b && !inSpan c offset length b }

/-! ### A cache in use -/

/-- The cache as `cache_init` sets it up. -/
structure CacheOk (c : RamCache) : Prop where
  allocated : c.allocated = true
  blockSize : c.blockSize = 65536
  count : c.blockCount < 2^32
  size : c.cacheSizeBytes = c.blockCount * 65536
  flushBuffer : c.flushBufferSize = 16777216

/-- The range reaches into block `b`. -/
def Touches (offset length b : ℕ) : Prop := offset < (b + 1) * 65536 ∧ b * 65536 < offset + length

instance (offset length b : ℕ) : Decidable (Touches offset length b) :=
  inferInstanceAs (Decidable (_ ∧ _))

theorem touches_of_mem {offset length x : ℕ} (h1 : offset ≤ x) (h2 : x < offset + length) :
    Touches offset length (x / 65536) := by
  unfold Touches
  omega

theorem cacheInit_ok {m : CacheAlloc} {cache c : RamCache} {sizeBytes : ℕ}
    (h : cacheInit m cache sizeBytes = (true, c)) :
    CacheOk c ∧ (∀ b, c.dirtyMap b = false) ∧ (∀ b, c.validMap b = false) ∧
      c.writeThrough = false := by
  unfold cacheInit at h
  split at h
  · cases h
  simp only at h
  split at h
  · cases h
  split at h
  · cases h
  obtain ⟨_, rfl⟩ := Prod.mk.inj h
  exact ⟨⟨rfl, rfl, Nat.mod_lt _ (by decide), rfl, rfl⟩, fun _ => rfl, fun _ => rfl, rfl⟩

section InUse
variable {c : RamCache} (h : CacheOk c)
include h

theorem CacheOk.size_lt : c.cacheSizeBytes < 2^48 := by
  have h1 := h.size
  have h2 := h.count
  omega

theorem inCache_iff {offset length : ℕ} (hl : length < 2^32) :
    inCache c offset length = true ↔ 0 < length ∧ offset + length ≤ c.cacheSizeBytes := by
  have hs := h.size_lt
  unfold inCache u64
  simp only [h.allocated, Bool.true_and, Bool.not_eq_true', Bool.or_eq_false_iff, beq_eq_false_iff_ne,
    decide_eq_false_iff_not]
  omega

theorem inSpan_iff {offset length : ℕ} (hpos : 0 < length) (hend : offset + length ≤ c.cacheSizeBytes)
    (b : ℕ) : inSpan c offset length b = true ↔ Touches offset length b := by
  have hs := h.size_lt
  have hz := h.size
  unfold inSpan Touches
  rw [u64_of_lt (n := offset + length) (by omega), h.blockSize, u64_of_lt (by omega)]
  simp only [Bool.and_eq_true, decide_eq_true_eq]
  omega

theorem cacheWrite_false {data : Buf} {offset length : ℕ} (hl : length < 2^32)
    (hn : ¬ (0 < length ∧ offset + length ≤ c.cacheSizeBytes)) :
    cacheWrite c data offset length = (false, c) := by
  unfold cacheWrite
  rw [if_neg (fun hi => hn ((inCache_iff h hl).mp hi))]

/-- What a cached write changes. -/
theorem cacheWrite_spec (data : Buf) {offset length : ℕ} (hl : length < 2^32) (hpos : 0 < length)
    (hend : offset + length ≤ c.cacheSizeBytes) :
    cacheWrite c data offset length = (true, { c with
      buffer := c.buffer.put offset length data
      dirtyMap := fun b => c.dirtyMap b || decide (Touches offset length b)
      validMap := fun b => c.validMap b || decide (Touches offset length b) }) := by
  have hspan : ∀ b, inSpan c offset length b = decide (Touches offset length b) := by
    intro b
    rw [Bool.eq_iff_iff, decide_eq_true_eq]
    exact inSpan_iff h hpos hend b
  unfold cacheWrite
  rw [if_pos ((inCache_iff h hl).mpr ⟨hpos, hend⟩)]
  simp only [hspan]

theorem allValid_iff {offset length : ℕ} (hpos : 0 < length)
    (hend : offset + length ≤ c.cacheSizeBytes) :
    allValid c offset length = true ↔ ∀ b, Touches offset length b → c.validMap b = true := by
  have hz := h.size
  simp only [allValid, List.all_eq_true, List.mem_range, Bool.or_eq_true, Bool.not_eq_true']
  constructor
  · intro ha b ht
    have hs := (inSpan_iff h hpos hend b).mpr ht
    have hb : b < c.blockCount := by
      unfold Touches at ht
      omega
    rcases ha b hb with hn | hv
    · rw [hs] at hn
      cases hn
    · exact hv
  · intro ha b _
    cases hs : inSpan c offset length b with
    | false => exact Or.inl rfl
    | true => exact Or.inr (ha b ((inSpan_iff h hpos hend b).mp hs))

theorem cacheRead_cases (data : Buf) (offset : ℕ) {length : ℕ} (hl : length < 2^32) :
    ((cacheRead c data offset length).1 = true ∧ 0 < length ∧ offset + length ≤ c.cacheSizeBytes ∧
      (∀ b, Touches offset length b → c.validMap b = true) ∧
      (cacheRead c data offset length).2.1 = data.put 0 length (c.buffer.shift offset)) ∨
    ((cacheRead c data offset length).1 = false ∧ (cacheRead c data offset length).2.1 = data ∧
      ¬ (0 < length ∧ offset + length ≤ c.cacheSizeBytes ∧
        ∀ b, Touches offset length b → c.validMap b = true)) := by
  unfold cacheRead
  by_cases hi : inCache c offset length = true
  · obtain ⟨hpos, hend⟩ := (inCache_iff h hl).mp hi
    rw [if_pos hi]
    by_cases hv : allValid c offset length = true
    · rw [if_pos hv]
      exact Or.inl ⟨rfl, hpos, hend, (allValid_iff h hpos hend).mp hv, rfl⟩
    · rw [if_neg hv]
      exact Or.inr ⟨rfl, rfl, fun ha => hv ((allValid_iff h hpos hend).mpr ha.2.2)⟩
  · rw [if_neg hi]
    exact Or.inr ⟨rfl, rfl, fun ha => hi ((inCache_iff h hl).mpr ⟨ha.1, ha.2.1⟩)⟩

end InUse

/-- A cache read changes the counters only. -/
theorem cacheRead_cache (c : RamCache) (data : Buf) (offset length : ℕ) :
    ∃ hits misses, (cacheRead c data offset length).2.2 =
      { c with hitCount := hits, missCount := misses } := by
  unfold cacheRead
  split
  · split
    · exact ⟨_, _, rfl⟩
    · exact ⟨_, _, rfl⟩
  · exact ⟨_, _, rfl⟩

theorem CacheOk.write {c : RamCache} (h : CacheOk c) (data : Buf) (offset length : ℕ) :
    CacheOk (cacheWrite c data offset length).2 := by
  unfold cacheWrite
  split
  · exact ⟨h.allocated, h.blockSize, h.count, h.size, h.flushBuffer⟩
  · exact h

theorem CacheOk.read {c : RamCache} (h : CacheOk c) (data : Buf) (offset length : ℕ) :
    CacheOk (cacheRead c data offset length).2.2 := by
  obtain ⟨hits, misses, he⟩ := cacheRead_cache c data offset length
  rw [he]
  exact ⟨h.allocated, h.blockSize, h.count, h.size, h.flushBuffer⟩

end RaidTest.Cache
