import RaidTest.Cache.Access

/-!
# Bytes nobody wrote

A cached write marks whole blocks valid and dirty, and the flush stores whole
blocks. The bytes of a dirty block that no write covered are therefore stored from
the cache buffer, whatever it held there.
-/

namespace RaidTest.Cache
open RaidTest.Base RaidTest.Stripe

/-- The calls of `stripe_volume_write`, as long as each returns true. -/
def runWrites : StripeVolume → Disks → List (WriteCall × IoEnv) → Option (StripeVolume × Disks)
  | v, d, [] => some (v, d)
  | v, d, (c, io) :: cs =>
    match stripeVolumeWrite io v d c.buffer c.vo c.length with
    | some (true, v, d) => runWrites v d cs
    | _ => none

/-- The volume with the blocks the writes touch marked dirty. -/
def marked (v : StripeVolume) (ws : List (WriteCall × IoEnv)) : StripeVolume :=
  withFlush v (fun b => v.cache.dirtyMap b || ws.any fun w => decide (Touches w.1.vo w.1.length b))
    v.cache.flushBuffer

/-- What cached writes leave for the flush: the dirty map, and the bytes they did not cover. -/
structure Marked (v : StripeVolume) (d : Disks) (ws : List (WriteCall × IoEnv)) (w : StripeVolume)
    (d' : Disks) : Prop where
  volume : CachedVolume w
  layout : SameLayout v w
  flush : w.cacheFlushInProgress = v.cacheFlushInProgress
  count : w.cache.blockCount = v.cache.blockCount
  size : w.cache.cacheSizeBytes = v.cache.cacheSizeBytes
  dirty : ∀ b, w.cache.dirtyMap b = (marked v ws).cache.dirtyMap b
  buffer : ∀ x, (∀ w ∈ ws, ¬ w.1.covers x) → w.cache.buffer x = v.cache.buffer x
  disk : ∀ x < v.virtualTotalBytes, (∀ w ∈ ws, ¬ w.1.covers x) → vbyte v d' x = vbyte v d x

theorem runWrites_marked (ws : List (WriteCall × IoEnv)) :
    ∀ {v w : StripeVolume} {d d' : Disks}, CachedVolume v → v.cacheFlushInProgress = false →
      (∀ c ∈ ws, c.1.length < 2^32 ∧ c.1.vo + c.1.length ≤ v.cache.cacheSizeBytes) →
      runWrites v d ws = some (w, d') → Marked v d ws w d' := by
  induction ws with
  | nil =>
    intro v w d d' hv _ _ hr
    obtain ⟨rfl, rfl⟩ := Prod.mk.inj (Option.some.inj hr)
    exact ⟨hv, SameLayout.refl v, rfl, rfl, rfl, fun b => (Bool.or_false _).symm, fun _ _ => rfl,
      fun _ _ _ => rfl⟩
  | cons c ws ih =>
    intro v w d d' hv hf hin hr
    obtain ⟨c, io⟩ := c
    have hhead : c.length < 2^32 ∧ c.vo + c.length ≤ v.cache.cacheSizeBytes :=
      hin _ (List.mem_cons_self ..)
    obtain ⟨hl, hsize⟩ := hhead
    have hc : Cacheable v c.vo c.length := ⟨hf, hsize⟩
    unfold runWrites at hr
    split at hr
    · next u e hw =>
      have hdone := write_true hv hl hw
      obtain rfl := hdone.cached hc
      generalize hstore : stored v.cache c.buffer c.vo c.length = cache at hr
      have hcache : CacheOk cache := hstore ▸ hv.cache.stored _ _ _
      have hsame : SameLayout v (addWritten { v with cache := cache } true c.length) :=
        (sameLayout_cache v cache).trans (sameLayout_addWritten _ _ _)
      have hu := hv.of_same hsame (by rw [addWritten_cache]; exact hcache)
        (by rw [addWritten_cacheEnabled]; exact hv.enabled)
      have hm := ih hu (by rw [addWritten_flush]; exact hf) (by
        intro c' hc'
        rw [addWritten_cache, ← hstore]
        exact hin c' (List.mem_cons_of_mem _ hc')) hr
      obtain ⟨h1, h2, h3, h4, h5, h6, h7, h8⟩ := hm
      rw [addWritten_flush] at h3
      rw [addWritten_cache, ← hstore] at h4 h5
      rw [hsame.total] at h8
      simp only [hsame.vbyte] at h8
      refine ⟨h1, hsame.trans h2, h3, h4, h5, fun b => ?_, fun x hx => ?_, fun x hx hn => ?_⟩
      · rw [h6 b]
        simp only [marked, withFlush_dirty, addWritten_cache, ← hstore, stored, List.any_cons,
          Bool.or_assoc]
      · have hno : ¬ c.covers x := hx _ (List.mem_cons_self ..)
        rw [h7 x (fun c' hc' => hx c' (List.mem_cons_of_mem _ hc')), addWritten_cache, ← hstore]
        simp only [stored]
        refine Buf.put_of_not_mem _ _ ?_
        unfold WriteCall.covers at hno
        omega
      · have hno : ¬ c.covers x := hn _ (List.mem_cons_self ..)
        rw [h8 x hx (fun c' hc' => hn c' (List.mem_cons_of_mem _ hc'))]
        refine hdone.frame x hx ?_
        unfold WriteCall.covers at hno
        omega
    · cases hr

theorem flushable_marked {v w : StripeVolume} {d d' : Disks} {ws : List (WriteCall × IoEnv)}
    (h : Marked v d ws w d') (hs : w.cache.blockSize = v.cache.blockSize) :
    flushable w = flushable (marked v ws) := by
  have hsame : SameFrom 0 (marked v ws).cache w.cache := ⟨h.count, hs, fun i _ => h.dirty i⟩
  have hl : SameLayout v (marked v ws) := sameLayout_withFlush v _ _
  funext b
  unfold flushable
  rw [h.layout.total, h.count, hsame.batchesFrom, inBatches_same h.layout, inBatches_same hl]
  rfl

/-- Cached writes and a flush leave the bytes nobody wrote alone if and only if the cache
buffer holds them in every block the flush stores. -/
theorem cacheFlush_untouched (env : ℕ → BatchEnv) (v w : StripeVolume) (d d' : Disks)
    (ws : List (WriteCall × IoEnv)) (hv : CachedVolume v) (hf : v.cacheFlushInProgress = false)
    (henv : ∀ b, (env b).Succeeds)
    (hin : ∀ c ∈ ws, c.1.length < 2^32 ∧ c.1.vo + c.1.length ≤ v.cache.cacheSizeBytes)
    (hw : runWrites v d ws = some (w, d')) :
    (∀ x < v.virtualTotalBytes, (∀ c ∈ ws, ¬ c.1.covers x) →
        vbyte v (cacheFlushAll env w d').2 x = vbyte v d x) ↔
      ∀ x < v.virtualTotalBytes, (∀ c ∈ ws, ¬ c.1.covers x) →
        flushable (marked v ws) (x / 65536) = true → v.cache.buffer x = vbyte v d x := by
  have hm := runWrites_marked ws hv hf hin hw
  have hflush := (cacheFlushAll_spec env henv d' hm.volume (hm.flush.trans hf)).stored
  have hstored : ∀ x < v.virtualTotalBytes, (∀ c ∈ ws, ¬ c.1.covers x) →
      vbyte v (cacheFlushAll env w d').2 x =
        if flushable (marked v ws) (x / 65536) then v.cache.buffer x else vbyte v d x := by
    intro x hx hn
    have hs := hflush x (by rw [hm.layout.total]; exact hx)
    rw [hm.layout.vbyte, hm.layout.vbyte, hm.buffer x hn, hm.disk x hx hn] at hs
    rw [hs, ← flushable_marked hm (by rw [hm.volume.cache.blockSize, hv.cache.blockSize])]
    rfl
  constructor
  · intro h x hx hn hb
    have hs := hstored x hx hn
    rw [if_pos hb, h x hx hn] at hs
    exact hs.symm
  · intro h x hx hn
    rw [hstored x hx hn]
    split
    · next hb => exact h x hx hn hb
    · rfl

/-- One byte written at offset 0 of a fresh cache. -/
def oneByte : List (WriteCall × IoEnv) := [(⟨fun _ => 9, 0, 1⟩, .good)]

/-- A fresh cache, one byte written and flushed: the byte behind it turns from 2 to 0. -/
theorem cacheFlush_untouched_fails :
    ∃ w d', CachedVolume pairCached ∧ runWrites pairCached pairDisks oneByte = some (w, d') ∧
      (∀ c ∈ oneByte, ¬ c.1.covers 1) ∧ vbyte pairCached pairDisks 1 = 2 ∧
      vbyte pairCached (cacheFlushAll (fun _ => .good) w d').2 1 = 0 :=
  ⟨_, _, pairCached_ok, rfl, by decide, by decide, by decide⟩

theorem cacheFlush_untouched_sample :
    ∃ w d', runWrites pairCached pairDisks oneByte = some (w, d') ∧
      ((∀ x < pairCached.virtualTotalBytes, (∀ c ∈ oneByte, ¬ c.1.covers x) →
          vbyte pairCached (cacheFlushAll (fun _ => .good) w d').2 x = vbyte pairCached pairDisks x) ↔
        ∀ x < pairCached.virtualTotalBytes, (∀ c ∈ oneByte, ¬ c.1.covers x) →
          flushable (marked pairCached oneByte) (x / 65536) = true →
          pairCached.cache.buffer x = vbyte pairCached pairDisks x) :=
  ⟨_, _, rfl, cacheFlush_untouched _ _ _ _ _ _ pairCached_ok rfl (fun _ => BatchEnv.good_succeeds)
    (by decide) rfl⟩

end RaidTest.Cache
