import RaidTest.Stripe.ReadWrite

/-!
# Flushing the cache (`cache_flush_all`)

The flush walks the dirty map. A run of dirty blocks is copied to the flush buffer
and journalled under the cache lock, written to the members without the lock, and
its dirty bits are cleared under the lock again. The three parts are functions of
their own; the whole flush runs them one after the other.
-/

namespace RaidTest.Cache
open RaidTest.Base RaidTest.Stripe

/-! ### The parts of a flush -/

/-- The answers of the environment to one batch: `journal_data`, the entry whose event or
write could not be issued, if any, and the transfers. -/
structure BatchEnv where
  journal : Bool
  stop : Option ℕ
  io : IoEnv

def BatchEnv.good : BatchEnv := ⟨true, none, .good⟩

def BatchEnv.Succeeds (env : BatchEnv) : Prop :=
  env.journal = true ∧ env.stop = none ∧ env.io.Succeeds

theorem BatchEnv.good_succeeds : BatchEnv.good.Succeeds := ⟨rfl, rfl, IoEnv.good_succeeds⟩

/-- The loop that lengthens `run` over dirty blocks. -/
def dirtyRun (c : RamCache) (b : ℕ) : ℕ → ℕ → ℕ
  | 0, run => run
  | fuel + 1, run =>
    if b + run < c.blockCount ∧ run < maxFlushBatch ∧ c.dirtyMap (b + run) then
      dirtyRun c b fuel (run + 1)
    else run

/-- The loop that shortens `run` to end inside the volume; the first block always stays. -/
def shrinkRun (c : RamCache) (total b : ℕ) : ℕ → ℕ
  | 0 => 0
  | run + 1 =>
    if run + 1 > 1 ∧ b * c.blockSize + u32 ((run + 1) * c.blockSize) > total then
      shrinkRun c total b run
    else run + 1

/-- `run` for the batch that starts at block `b`. -/
def batchRun (c : RamCache) (total b : ℕ) : ℕ :=
  let run := dirtyRun c b maxFlushBatch 1
  if b * c.blockSize + u32 (run * c.blockSize) > total then shrinkRun c total b run else run

/-- What the locked part makes of block `b`: it goes on at a later block, or it has a batch
of `run` blocks in the flush buffer. -/
inductive Scan where
  | next (b : ℕ) (v : StripeVolume)
  | batch (run : ℕ) (v : StripeVolume)

/-- The locked part: find the run, copy it, journal it. -/
def flushScan (env : BatchEnv) (v : StripeVolume) (b : ℕ) : Scan :=
  if v.cache.dirtyMap b = false then .next (b + 1) v
  else
    let run := batchRun v.cache v.virtualTotalBytes b
    let totalLen := u32 (run * v.cache.blockSize)
    if run = 0 then .next v.cache.blockCount v
    else if totalLen > v.cache.flushBufferSize then .next (b + run) v
    else
      let copy := v.cache.flushBuffer.put 0 totalLen (v.cache.buffer.shift (b * v.cache.blockSize))
      let v := { v with cache := { v.cache with flushBuffer := copy } }
      if env.journal = false then .next (b + run) v else .batch run v

/-- The writes of the entries that were issued, in the order they take effect. -/
def flushTransfers (io : IoEnv) (buffer : Buf) (d : Disks) (reqs : List IoRequest) : Disks :=
  reqs.foldl (fun d r => d.writePool r.disk r.physicalOffset r.length
    ((io.result r.slot).brings (buffer.shift r.bufferOffset))) d

/-- The part without the lock: map the batch and write its entries. -/
def flushWrite (env : BatchEnv) (v : StripeVolume) (d : Disks) (b run : ℕ) : Bool × Disks :=
  match mapLba v (b * v.cache.blockSize) (u32 (run * v.cache.blockSize)) with
  | none => (false, d)
  | some entries =>
    let reqs := makeRequests (memberList v) .write 0 0 entries
    let issued := reqs.take (env.stop.getD reqs.length)
    (decide (issued.length = reqs.length) && issued.all fun r => (env.io.result r.slot).isOk,
      flushTransfers env.io v.cache.flushBuffer d (env.io.order issued))

/-- The last part, under the lock again: clear the dirty bits of the batch. -/
def flushClear (v : StripeVolume) (b run : ℕ) : StripeVolume :=
  let dirty := fun i =>
    v.cache.dirtyMap i && !(decide (b ≤ i) && decide (i < b + run) && decide (i < v.cache.blockCount))
  { v with cache := { v.cache with dirtyMap := dirty } }

/-- `while (b < cache->block_count)`; the batch at block `b` gets the answers `env b`. -/
def flushLoop (env : ℕ → BatchEnv) : ℕ → ℕ → StripeVolume → Disks → StripeVolume × Disks
  | 0, _, v, d => (v, d)
  | fuel + 1, b, v, d =>
    if b < v.cache.blockCount then
      match flushScan (env b) v b with
      | .next b v => flushLoop env fuel b v d
      | .batch run v =>
        match flushWrite (env b) v d b run with
        | (true, d) => flushLoop env fuel (b + run) (flushClear v b run) d
        | (false, d) => flushLoop env fuel (b + run) v d
    else (v, d)

/-- `cache_flush_all`; every turn of the loop passes at least one block. -/
def cacheFlushAll (env : ℕ → BatchEnv) (v : StripeVolume) (d : Disks) : StripeVolume × Disks :=
  if v.cacheFlushInProgress then (v, d)
  else
    let (v, d) := flushLoop env v.cache.blockCount 0 { v with cacheFlushInProgress := true } d
    ({ v with cacheFlushInProgress := false }, d)

/-! ### Batches -/

theorem dirtyRun_spec (c : RamCache) (b fuel run : ℕ) (hpos : 0 < run) (hle : run ≤ 256)
    (hd : ∀ i < run, b + i < c.blockCount ∧ c.dirtyMap (b + i) = true) :
    0 < dirtyRun c b fuel run ∧ dirtyRun c b fuel run ≤ 256 ∧
      ∀ i < dirtyRun c b fuel run, b + i < c.blockCount ∧ c.dirtyMap (b + i) = true := by
  induction fuel generalizing run with
  | zero => exact ⟨hpos, hle, hd⟩
  | succ fuel ih =>
    unfold dirtyRun
    split
    · next hg =>
      obtain ⟨h1, h2, h3⟩ := hg
      have h256 : maxFlushBatch = 256 := rfl
      refine ih (run + 1) (Nat.succ_pos run) (by omega) fun i hi => ?_
      by_cases he : i = run
      · rw [he]
        exact ⟨h1, h3⟩
      · exact hd i (by omega)
    · exact ⟨hpos, hle, hd⟩

theorem shrinkRun_le (c : RamCache) (total b run : ℕ) : shrinkRun c total b run ≤ run := by
  induction run with
  | zero => exact Nat.le_refl 0
  | succ run ih =>
    unfold shrinkRun
    split <;> omega

theorem shrinkRun_pos (c : RamCache) (total b run : ℕ) (h : 0 < run) : 0 < shrinkRun c total b run := by
  induction run with
  | zero => omega
  | succ run ih =>
    unfold shrinkRun
    split
    · exact ih (by omega)
    · exact h

/-- A batch holds at least one and at most 256 blocks, all of them dirty. -/
theorem batchRun_spec {c : RamCache} {b : ℕ} (total : ℕ) (hb : b < c.blockCount)
    (hd : c.dirtyMap b = true) :
    0 < batchRun c total b ∧ batchRun c total b ≤ 256 ∧
      ∀ i < batchRun c total b, b + i < c.blockCount ∧ c.dirtyMap (b + i) = true := by
  obtain ⟨h1, h2, h3⟩ := dirtyRun_spec c b maxFlushBatch 1 Nat.one_pos (by decide) (by
    intro i hi
    rw [show i = 0 by omega]
    exact ⟨hb, hd⟩)
  unfold batchRun
  simp only
  split
  · have hle := shrinkRun_le c total b (dirtyRun c b maxFlushBatch 1)
    exact ⟨shrinkRun_pos _ _ _ _ h1, by omega, fun i hi => h3 i (by omega)⟩
  · exact ⟨h1, h2, h3⟩

/-- The caches have the same blocks, dirty alike from block `b` on. -/
structure SameFrom (b : ℕ) (c e : RamCache) : Prop where
  count : e.blockCount = c.blockCount
  size : e.blockSize = c.blockSize
  dirty : ∀ i, b ≤ i → e.dirtyMap i = c.dirtyMap i

theorem SameFrom.dirtyRun {b : ℕ} {c e : RamCache} (h : SameFrom b c e) (fuel run : ℕ) :
    dirtyRun e b fuel run = dirtyRun c b fuel run := by
  induction fuel generalizing run with
  | zero => rfl
  | succ fuel ih => simp only [Cache.dirtyRun, h.count, h.dirty (b + run) (Nat.le_add_right ..), ih]

theorem SameFrom.batchRun {b : ℕ} {c e : RamCache} (h : SameFrom b c e) (total : ℕ) :
    batchRun e total b = batchRun c total b := by
  have hshrink : ∀ run, shrinkRun e total b run = shrinkRun c total b run := by
    intro run
    induction run with
    | zero => rfl
    | succ run ih => simp only [shrinkRun, h.size, ih]
  simp only [Cache.batchRun, h.dirtyRun, h.size, hshrink]

/-- The batches, first block and length, a flush makes of the dirty map from block `b` on. -/
def batchesFrom (c : RamCache) (total : ℕ) : ℕ → ℕ → List (ℕ × ℕ)
  | 0, _ => []
  | fuel + 1, b =>
    if b < c.blockCount then
      if c.dirtyMap b then (b, batchRun c total b) :: batchesFrom c total fuel (b + batchRun c total b)
      else batchesFrom c total fuel (b + 1)
    else []

theorem SameFrom.batchesFrom {c e : RamCache} (total fuel : ℕ) :
    ∀ {b : ℕ}, SameFrom b c e → batchesFrom e total fuel b = batchesFrom c total fuel b := by
  induction fuel with
  | zero => intro b _; rfl
  | succ fuel ih =>
    intro b h
    have hlater : ∀ n, SameFrom (b + n) c e := fun n =>
      ⟨h.count, h.size, fun i hi => h.dirty i (by omega)⟩
    simp only [Cache.batchesFrom, h.count, h.dirty b (Nat.le_refl b), h.batchRun, ih (hlater _)]

theorem batchesFrom_start {c : RamCache} {total fuel b : ℕ} {p : ℕ × ℕ}
    (h : p ∈ batchesFrom c total fuel b) : b ≤ p.1 := by
  induction fuel generalizing b with
  | zero => cases h
  | succ fuel ih =>
    unfold batchesFrom at h
    split at h
    · split at h
      · rcases List.mem_cons.mp h with rfl | hm
        · exact Nat.le_refl b
        · have ht := ih hm
          omega
      · have ht := ih h
        omega
    · cases h

end RaidTest.Cache
