import RaidTest.Cache.FlushSpec

/-!
# Reads and writes of a cached volume

What a call on a stripe volume with a cache comes to, by its answer: where the
bytes of a write went, and where the bytes of a read came from.
-/

namespace RaidTest.Cache
open RaidTest.Base RaidTest.Stripe

structure WriteCall where
  buffer : Buf
  vo : ℕ
  length : ℕ

def WriteCall.covers (c : WriteCall) (x : ℕ) : Prop := c.vo ≤ x ∧ x < c.vo + c.length

instance (c : WriteCall) (x : ℕ) : Decidable (c.covers x) := inferInstanceAs (Decidable (_ ∧ _))

/-- The members hold `val` at byte `x` of the volume: the member it maps to, or every
healthy one of a mirror. -/
def Durable (v : StripeVolume) (d : Disks) (x : ℕ) (val : Byte) : Prop :=
  match v.raidLevel with
  | .stripe => vbyte v d x = val
  | .mirror => ∀ i < v.diskCount, (d.info (v.diskAt i)).healthy = true → d.pool (v.diskAt i) x = val

/-- Byte `x` lies in a dirty block of the cache. -/
def DirtyByte (v : StripeVolume) (x : ℕ) : Prop :=
  x < v.cache.cacheSizeBytes ∧ v.cache.dirtyMap (x / 65536) = true

instance (v : StripeVolume) (x : ℕ) : Decidable (DirtyByte v x) := inferInstanceAs (Decidable (_ ∧ _))

/-! ### Transfers that came back -/

theorem submitEntries_fits {v : StripeVolume} (h : Ready v) {es : List IoMappingEntry} (hne : es ≠ [])
    {io : IoEnv} {d : Disks} {buffer : Buf} {op : IoOpType} {r : Bool × Disks × Buf}
    (hs : submitEntries io d v es buffer op = some r) :
    (io.event = false ∧ r = (false, d, buffer)) ∨ (io.event = true ∧ es.length ≤ ioRingSize) := by
  unfold submitEntries at hs
  rw [if_neg hne, h.workers] at hs
  simp only at hs
  split at hs
  · next hev => exact Or.inl ⟨hev, (Option.some.inj hs).symm⟩
  · next hev =>
    split at hs
    · cases hs
    · next hn =>
      refine Or.inr ⟨by simpa using hev, ?_⟩
      by_contra hlt
      exact hn (Or.inl (by omega))

section Direct
variable {v w : StripeVolume} (h : Ready v) {io : IoEnv} {d d' : Disks} {buffer out : Buf}
  {vo length : ℕ} {ok : Bool}
include h

theorem writeDirect_some (hl : length < 2^32) (hend : vo + length ≤ v.virtualTotalBytes)
    (hw : writeDirect io v d buffer vo length = some (ok, w, d')) :
    w = addWritten v ok length ∧
      (ok = true → ∀ x, vo ≤ x → x < vo + length → vbyte v d' x = buffer (x - vo)) ∧
      ∀ x < v.virtualTotalBytes, x < vo ∨ vo + length ≤ x → vbyte v d' x = vbyte v d x := by
  by_cases hfit : Fits v vo length
  · obtain ⟨ok', e, he, hdata, hframe, _⟩ := writeDirect_spec h io d buffer hl hend hfit
    rw [he] at hw
    obtain ⟨rfl, hp⟩ := Prod.mk.inj (Option.some.inj hw)
    obtain ⟨rfl, rfl⟩ := Prod.mk.inj hp
    exact ⟨rfl, hdata, hframe⟩
  · -- too many entries: there is an answer only when the event could not be created
    unfold Fits at hfit
    push Not at hfit
    obtain ⟨es, hm, hlen⟩ := hfit
    have hne : es ≠ [] := by
      rintro rfl
      exact absurd hlen (by decide)
    unfold writeDirect at hw
    simp only [hm] at hw
    cases hs : submitEntries io d v es buffer .write with
    | none => rw [hs] at hw; cases hw
    | some r =>
      rcases submitEntries_fits h hne hs with ⟨_, rfl⟩ | ⟨_, hle⟩
      · rw [hs] at hw
        obtain ⟨rfl, hp⟩ := Prod.mk.inj (Option.some.inj hw)
        obtain ⟨rfl, rfl⟩ := Prod.mk.inj hp
        exact ⟨rfl, fun hf => absurd hf (by decide), fun _ _ _ => rfl⟩
      · omega

theorem readDirect_some (hl : length < 2^32) (hend : vo + length ≤ v.virtualTotalBytes)
    (hr : readDirect io v d buffer vo length = some (ok, w, d', out)) :
    w = addRead v ok length ∧ d'.pool = d.pool ∧
      (ok = true → ∀ i < length, out i = vbyte v d (vo + i)) := by
  by_cases hfit : Fits v vo length
  · obtain ⟨ok', e, o, he, hpool, hdata, _⟩ := readDirect_spec h io d buffer hl hend hfit
    rw [he] at hr
    obtain ⟨rfl, hp⟩ := Prod.mk.inj (Option.some.inj hr)
    obtain ⟨rfl, hq⟩ := Prod.mk.inj hp
    obtain ⟨rfl, rfl⟩ := Prod.mk.inj hq
    exact ⟨rfl, hpool, hdata⟩
  · unfold Fits at hfit
    push Not at hfit
    obtain ⟨es, hm, hlen⟩ := hfit
    have hne : es ≠ [] := by
      rintro rfl
      exact absurd hlen (by decide)
    unfold readDirect at hr
    simp only [hm] at hr
    cases hs : submitEntries io d v es buffer .read with
    | none => rw [hs] at hr; cases hr
    | some r =>
      rcases submitEntries_fits h hne hs with ⟨_, rfl⟩ | ⟨_, hle⟩
      · rw [hs] at hr
        obtain ⟨rfl, hp⟩ := Prod.mk.inj (Option.some.inj hr)
        obtain ⟨rfl, hq⟩ := Prod.mk.inj hp
        obtain ⟨rfl, rfl⟩ := Prod.mk.inj hq
        exact ⟨rfl, rfl, fun hf => absurd hf (by decide)⟩
      · omega

end Direct

/-- The transfers of a read from the members come back without an error. -/
def Answered (io : IoEnv) (v : StripeVolume) (vo length : ℕ) : Prop :=
  ∃ es, mapLba v vo length = some es ∧ es.length ≤ ioRingSize ∧ io.event = true ∧
    io.allOk es.length = true

theorem readDirect_true_iff {v : StripeVolume} (h : Ready v) (io : IoEnv) (d : Disks) (buffer : Buf)
    (vo : ℕ) {length : ℕ} (hl : length < 2^32) (hend : vo + length ≤ v.virtualTotalBytes) :
    (∃ w d' out, readDirect io v d buffer vo length = some (true, w, d', out)) ↔
      Answered io v vo length := by
  unfold readDirect Answered
  cases hm : mapLba v vo length with
  | none =>
    refine ⟨fun ⟨w, d', out, he⟩ => ?_, fun ⟨es, he, _⟩ => ?_⟩
    · cases he
    · cases he
  | some es =>
    obtain ⟨hpos, _, _, hdi⟩ := mapLba_spec h.laid hl hm
    have hc := mapLba_covers h.laid hl hend hm
    have hne : es ≠ [] := by
      rintro rfl
      have he : vo = vo + length := hc
      omega
    simp only
    constructor
    · intro ⟨w, d', out, he⟩
      cases hs : submitEntries io d v es buffer .read with
      | none => rw [hs] at he; cases he
      | some r =>
        rcases submitEntries_fits h hne hs with ⟨_, rfl⟩ | ⟨hev, hle⟩
        · rw [hs] at he
          cases he
        · obtain ⟨e, o, hsub, _, _⟩ := submitEntries_read h hc hne hdi hle io hev d buffer
          rw [hsub] at he
          exact ⟨es, rfl, hle, hev, (Prod.mk.inj (Option.some.inj he)).1⟩
    · intro ⟨fs, hfs, hle, hev, hok⟩
      obtain rfl := Option.some.inj hfs
      obtain ⟨e, o, hsub, _, _⟩ := submitEntries_read h hc hne hdi hle io hev d buffer
      rw [hsub, hok]
      exact ⟨_, _, _, rfl⟩

/-! ### Writes -/

/-- The cache after a write of its bytes. -/
def stored (c : RamCache) (data : Buf) (offset length : ℕ) : RamCache :=
  { c with
    buffer := c.buffer.put offset length data
    dirtyMap := fun b => c.dirtyMap b || decide (Touches offset length b)
    validMap := fun b => c.validMap b || decide (Touches offset length b) }

theorem cacheWrite_stored {c : RamCache} (h : CacheOk c) (data : Buf) {offset length : ℕ}
    (hl : length < 2^32) (hpos : 0 < length) (hend : offset + length ≤ c.cacheSizeBytes) :
    cacheWrite c data offset length = (true, stored c data offset length) :=
  cacheWrite_spec h data hl hpos hend

theorem CacheOk.stored {c : RamCache} (h : CacheOk c) (data : Buf) (offset length : ℕ) :
    CacheOk (stored c data offset length) :=
  ⟨h.allocated, h.blockSize, h.count, h.size, h.flushBuffer⟩

/-- The write goes to the cache. -/
def Cacheable (v : StripeVolume) (vo length : ℕ) : Prop :=
  v.cacheFlushInProgress = false ∧ vo + length ≤ v.cache.cacheSizeBytes

/-- A write that was acknowledged. -/
structure WriteDone (v : StripeVolume) (d : Disks) (buffer : Buf) (vo length : ℕ) (w : StripeVolume)
    (d' : Disks) : Prop where
  pos : 0 < length
  inside : vo + length ≤ v.virtualTotalBytes
  cached : Cacheable v vo length →
    w = addWritten { v with cache := stored v.cache buffer vo length } true length
  direct : ¬ Cacheable v vo length → w = addWritten v true length
  data : ¬ Cacheable v vo length ∨ v.cache.writeThrough = true →
    ∀ x, vo ≤ x → x < vo + length → vbyte v d' x = buffer (x - vo)
  kept : Cacheable v vo length → v.cache.writeThrough = false → d' = d
  frame : ∀ x < v.virtualTotalBytes, x < vo ∨ vo + length ≤ x → vbyte v d' x = vbyte v d x

section Write
variable {v w : StripeVolume} (h : CachedVolume v) {io : IoEnv} {d d' : Disks} {buffer : Buf}
  {vo length : ℕ}
include h

theorem writeCached_true (hl : length < 2^32) (hpos : 0 < length)
    (hend : vo + length ≤ v.virtualTotalBytes) (hc : Cacheable v vo length)
    (hw : writeCached io v d buffer vo length = some (true, w, d')) :
    WriteDone v d buffer vo length w d' := by
  have hstore := cacheWrite_stored h.cache buffer hl hpos hc.2
  unfold writeCached at hw
  split at hw
  · next hwt =>
    -- write-through: the transfers first, then the cache
    cases hm : mapLba v vo length with
    | none => rw [hm] at hw; cases hw
    | some es =>
      simp only [hm] at hw
      cases hs : submitEntries io d v es buffer .write with
      | none => rw [hs] at hw; cases hw
      | some r =>
        obtain ⟨ok, e, out⟩ := r
        rw [hs] at hw
        cases ok with
        | false => cases hw
        | true =>
          simp only [hstore] at hw
          obtain ⟨_, hp⟩ := Prod.mk.inj (Option.some.inj hw)
          obtain ⟨rfl, rfl⟩ := Prod.mk.inj hp
          have hwd : writeDirect io v d buffer vo length = some (true, addWritten v true length, e) := by
            unfold writeDirect
            simp only [hm, hs]
          obtain ⟨_, hdata, hframe⟩ := writeDirect_some h.ready hl hend hwd
          refine ⟨hpos, hend, fun _ => rfl, fun hn => absurd hc hn, fun _ => hdata rfl,
            fun _ hf => ?_, hframe⟩
          rw [hf] at hwt
          cases hwt
  · next hwt =>
    simp only [hstore] at hw
    obtain ⟨_, hp⟩ := Prod.mk.inj (Option.some.inj hw)
    obtain ⟨rfl, rfl⟩ := Prod.mk.inj hp
    refine ⟨hpos, hend, fun _ => rfl, fun hn => absurd hc hn, fun hor => ?_, fun _ _ => rfl,
      fun _ _ _ => rfl⟩
    rcases hor with hn | ht
    · exact absurd hc hn
    · exact absurd ht hwt

/-- A range that is not inside the volume is never acknowledged and changes nothing. -/
theorem write_outside (hl : length < 2^32)
    (hn : ¬ (0 < length ∧ vo + length ≤ v.virtualTotalBytes)) :
    stripeVolumeWrite io v d buffer vo length = some (false, v, d) := by
  unfold stripeVolumeWrite
  split
  · rfl
  next hg =>
  simp only [not_or, Nat.not_lt, gt_iff_lt] at hg
  have hbeyond := beyond_of_wrap h.ready hl (by omega) (fun hend => hn ⟨by omega, hend⟩) hg.2.1
  have hno : mapLba v vo length = none := mapLba_beyond hbeyond
  rw [if_neg (by rw [h.level]; decide)]
  split
  · next hcache =>
    have hsize := h.cache.size_lt
    have hout : ¬ (0 < length ∧ vo + length ≤ v.cache.cacheSizeBytes) := by
      intro hin
      have hu := hg.2.1
      rw [u64_of_lt (by omega)] at hu
      exact hn ⟨hin.1, hu⟩
    unfold writeCached
    rw [hno, cacheWrite_false h.cache hl hout]
    split <;> rfl
  · unfold writeDirect
    rw [hno]

theorem write_true (hl : length < 2^32)
    (hw : stripeVolumeWrite io v d buffer vo length = some (true, w, d')) :
    WriteDone v d buffer vo length w d' := by
  by_cases hin : 0 < length ∧ vo + length ≤ v.virtualTotalBytes
  · obtain ⟨hpos, hend⟩ := hin
    rw [stripeVolumeWrite_eq h.ready h.level io d buffer hpos hend] at hw
    by_cases hc : Cacheable v vo length
    · rw [if_pos ⟨h.enabled, hc⟩] at hw
      exact writeCached_true h hl hpos hend hc hw
    · rw [if_neg (fun hg => hc hg.2)] at hw
      obtain ⟨hv, hdata, hframe⟩ := writeDirect_some h.ready hl hend hw
      exact ⟨hpos, hend, fun hn => absurd hn hc, fun _ => hv, fun _ => hdata rfl,
        fun hn => absurd hn hc, hframe⟩
  · rw [write_outside h hl hin] at hw
    cases hw

/-- A write that was not acknowledged leaves the cache and the bytes outside its range. -/
theorem write_false (hl : length < 2^32)
    (hw : stripeVolumeWrite io v d buffer vo length = some (false, w, d')) :
    w = v ∧ ∀ x < v.virtualTotalBytes, x < vo ∨ vo + length ≤ x → vbyte v d' x = vbyte v d x := by
  by_cases hin : 0 < length ∧ vo + length ≤ v.virtualTotalBytes
  · obtain ⟨hpos, hend⟩ := hin
    rw [stripeVolumeWrite_eq h.ready h.level io d buffer hpos hend] at hw
    by_cases hc : Cacheable v vo length
    · have hstore := cacheWrite_stored h.cache buffer hl hpos hc.2
      rw [if_pos ⟨h.enabled, hc⟩] at hw
      unfold writeCached at hw
      split at hw
      · cases hm : mapLba v vo length with
        | none =>
          rw [hm] at hw
          obtain ⟨_, hp⟩ := Prod.mk.inj (Option.some.inj hw)
          obtain ⟨rfl, rfl⟩ := Prod.mk.inj hp
          exact ⟨rfl, fun _ _ _ => rfl⟩
        | some es =>
          simp only [hm] at hw
          cases hs : submitEntries io d v es buffer .write with
          | none => rw [hs] at hw; cases hw
          | some r =>
            obtain ⟨ok, e, out⟩ := r
            rw [hs] at hw
            cases ok with
            | true =>
              simp only [hstore] at hw
              cases hw
            | false =>
              obtain ⟨_, hp⟩ := Prod.mk.inj (Option.some.inj hw)
              obtain ⟨rfl, rfl⟩ := Prod.mk.inj hp
              have hwd : writeDirect io v d buffer vo length =
                  some (false, addWritten v false length, e) := by
                unfold writeDirect
                simp only [hm, hs]
              exact ⟨rfl, (writeDirect_some h.ready hl hend hwd).2.2⟩
      · simp only [hstore] at hw
        cases hw
    · rw [if_neg (fun hg => hc hg.2)] at hw
      obtain ⟨hv, _, hframe⟩ := writeDirect_some h.ready hl hend hw
      exact ⟨hv, hframe⟩
  · rw [write_outside h hl hin] at hw
    obtain ⟨_, hp⟩ := Prod.mk.inj (Option.some.inj hw)
    obtain ⟨rfl, rfl⟩ := Prod.mk.inj hp
    exact ⟨rfl, fun _ _ _ => rfl⟩

end Write

/-! ### Reads -/

/-- Only counters differ. -/
structure Quiet (v w : StripeVolume) : Prop where
  layout : SameLayout v w
  enabled : w.cacheEnabled = v.cacheEnabled
  flush : w.cacheFlushInProgress = v.cacheFlushInProgress
  cache : ∃ hits misses, w.cache = { v.cache with hitCount := hits, missCount := misses }

theorem Quiet.volume {v w : StripeVolume} (h : Quiet v w) (hv : CachedVolume v) : CachedVolume w := by
  obtain ⟨hits, misses, he⟩ := h.cache
  refine hv.of_same h.layout ?_ (h.enabled.trans hv.enabled)
  rw [he]
  exact ⟨hv.cache.allocated, hv.cache.blockSize, hv.cache.count, hv.cache.size, hv.cache.flushBuffer⟩

theorem quiet_addRead {v : StripeVolume} {hits misses : ℕ} (ok : Bool) (length : ℕ) :
    Quiet v (addRead { v with cache := { v.cache with hitCount := hits, missCount := misses } } ok length) where
  layout := (sameLayout_cache v _).trans (sameLayout_addRead _ ok length)
  enabled := addRead_cacheEnabled _ _ _
  flush := addRead_flush _ _ _
  cache := ⟨hits, misses, addRead_cache _ _ _⟩

/-- The cache answers the read. -/
def Hit (v : StripeVolume) (vo length : ℕ) : Prop :=
  vo + length ≤ v.cache.cacheSizeBytes ∧ ∀ b, Touches vo length b → v.cache.validMap b = true

/-- A read inside the volume and what it came to. -/
structure ReadDone (v : StripeVolume) (d : Disks) (vo length : ℕ) (ok : Bool) (w : StripeVolume)
    (d' : Disks) (out : Buf) : Prop where
  quiet : Quiet v w
  pool : d'.pool = d.pool
  hit : Hit v vo length → ok = true ∧ ∀ i < length, out i = v.cache.buffer (vo + i)
  miss : ¬ Hit v vo length → ok = true → ∀ i < length, out i = vbyte v d (vo + i)

section Read
variable {v : StripeVolume} (h : CachedVolume v) (io : IoEnv) (d : Disks) (buffer : Buf)
  {vo length : ℕ} (hl : length < 2^32) (hpos : 0 < length) (hend : vo + length ≤ v.virtualTotalBytes)
include h hl hpos hend

theorem read_hit (hh : Hit v vo length) : ∃ hits misses,
    stripeVolumeRead io v d buffer vo length = some (true,
      addRead { v with cache := { v.cache with hitCount := hits, missCount := misses } } true length,
      d, buffer.put 0 length (v.cache.buffer.shift vo)) := by
  obtain ⟨hits, misses, hcnt⟩ := cacheRead_cache v.cache buffer vo length
  rcases cacheRead_cases h.cache buffer vo hl with ⟨hok, _, _, _, hout⟩ | ⟨_, _, hno⟩
  · have hcr : cacheRead v.cache buffer vo length =
        (true, buffer.put 0 length (v.cache.buffer.shift vo),
          { v.cache with hitCount := hits, missCount := misses }) := by
      rw [← hok, ← hout, ← hcnt]
    refine ⟨hits, misses, ?_⟩
    rw [stripeVolumeRead_eq h.ready h.level io d buffer hpos hend, if_pos ⟨h.enabled, hh.1⟩, hcr]
  · exact absurd ⟨hpos, hh.1, hh.2⟩ hno

/-- With or without a look into the cache, the members answer. -/
theorem read_miss (hh : ¬ Hit v vo length) : ∃ hits misses,
    stripeVolumeRead io v d buffer vo length = readDirect io
      { v with cache := { v.cache with hitCount := hits, missCount := misses } } d buffer vo length := by
  obtain ⟨hits, misses, hcnt⟩ := cacheRead_cache v.cache buffer vo length
  rw [stripeVolumeRead_eq h.ready h.level io d buffer hpos hend]
  by_cases hsize : vo + length ≤ v.cache.cacheSizeBytes
  · rcases cacheRead_cases h.cache buffer vo hl with ⟨_, _, _, hv, _⟩ | ⟨hok, hout, _⟩
    · exact absurd ⟨hsize, hv⟩ hh
    · generalize hcr : cacheRead v.cache buffer vo length = r at hok hout hcnt
      obtain ⟨ok, out, cache⟩ := r
      simp only at hok hout hcnt
      refine ⟨hits, misses, ?_⟩
      rw [if_pos ⟨h.enabled, hsize⟩, hok, hout, hcnt]
  · refine ⟨v.cache.hitCount, v.cache.missCount, ?_⟩
    rw [if_neg (fun hg => hsize hg.2)]

theorem read_some {w : StripeVolume} {d' : Disks} {out : Buf} {ok : Bool}
    (hr : stripeVolumeRead io v d buffer vo length = some (ok, w, d', out)) :
    ReadDone v d vo length ok w d' out := by
  by_cases hh : Hit v vo length
  · obtain ⟨hits, misses, he⟩ := read_hit h io d buffer hl hpos hend hh
    rw [he] at hr
    obtain ⟨rfl, hp⟩ := Prod.mk.inj (Option.some.inj hr)
    obtain ⟨rfl, hq⟩ := Prod.mk.inj hp
    obtain ⟨rfl, rfl⟩ := Prod.mk.inj hq
    refine ⟨quiet_addRead true length, rfl, fun _ => ⟨rfl, fun i hi => ?_⟩, fun hn => absurd hh hn⟩
    rw [Buf.put_of_mem _ _ (Nat.zero_le i) (by omega), Nat.sub_zero, Buf.shift]
  · obtain ⟨hits, misses, he⟩ := read_miss h io d buffer hl hpos hend hh
    rw [he] at hr
    have hsame := sameLayout_cache v { v.cache with hitCount := hits, missCount := misses }
    obtain ⟨rfl, hpool, hdata⟩ := readDirect_some (hsame.ready h.ready) hl
      (by rw [hsame.total]; exact hend) hr
    rw [hsame.vbyte] at hdata
    exact ⟨quiet_addRead ok length, hpool, fun hy => absurd hy hh, fun _ hk => hdata hk⟩

end Read

/-- A range that is not inside the volume is never read. -/
theorem read_outside {v : StripeVolume} (h : CachedVolume v) {io : IoEnv} {d : Disks} {buffer : Buf}
    {vo length : ℕ} (hl : length < 2^32) (hn : ¬ (0 < length ∧ vo + length ≤ v.virtualTotalBytes)) :
    stripeVolumeRead io v d buffer vo length = some (false, v, d, buffer) := by
  unfold stripeVolumeRead
  split
  · rfl
  next hg =>
  simp only [not_or, Nat.not_lt, gt_iff_lt] at hg
  have hbeyond := beyond_of_wrap h.ready hl (by omega) (fun hend => hn ⟨by omega, hend⟩) hg.2.1
  have hno : inCache v.cache vo length = false := by
    by_contra hc
    have hin := (inCache_iff h.cache hl).mp (by simpa using hc)
    have hsize := h.cache.size_lt
    have hu := hg.2.1
    rw [u64_of_lt (by omega)] at hu
    exact hn ⟨hin.1, hu⟩
  have hread : cacheRead v.cache buffer vo length = (false, buffer, v.cache) := by
    unfold cacheRead
    rw [hno]
    rfl
  have hdirect : readDirect io v d buffer vo length = some (false, v, d, buffer) := by
    unfold readDirect
    rw [mapLba_beyond hbeyond]
  rw [if_neg (by rw [h.level]; decide), hread]
  split
  · exact hdirect
  · exact hdirect

/-- A read moves the counters and no byte of a pool. -/
theorem read_quiet {v w : StripeVolume} (h : CachedVolume v) {io : IoEnv} {d d' : Disks}
    {buffer out : Buf} {vo length : ℕ} {ok : Bool} (hl : length < 2^32)
    (hr : stripeVolumeRead io v d buffer vo length = some (ok, w, d', out)) :
    Quiet v w ∧ d'.pool = d.pool := by
  by_cases hin : 0 < length ∧ vo + length ≤ v.virtualTotalBytes
  · have hdone := read_some h io d buffer hl hin.1 hin.2 hr
    exact ⟨hdone.quiet, hdone.pool⟩
  · rw [read_outside h hl hin] at hr
    obtain ⟨_, hp⟩ := Prod.mk.inj (Option.some.inj hr)
    obtain ⟨rfl, hq⟩ := Prod.mk.inj hp
    obtain ⟨rfl, rfl⟩ := Prod.mk.inj hq
    exact ⟨⟨SameLayout.refl _, rfl, rfl, _, _, rfl⟩, rfl⟩

end RaidTest.Cache
