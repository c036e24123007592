import RaidTest.Fuse.Bridge
import RaidTest.Mirror.Written

/-!
# Write-through (`cache wt`)

Both engines look at the mode of the cache and write the members before they acknowledge.
`raid_write` does not: what it gives to `cache_write` is acknowledged from memory.
-/

namespace RaidTest.Fuse
open RaidTest.Base RaidTest.Stripe RaidTest.Cache RaidTest.Mirror

/-! ### Volumes with a cache -/

/-- A mirror with its cache switched on. -/
structure CachedMirror (v : StripeVolume) : Prop where
  level : v.raidLevel = .mirror
  members : v.checkDisks = true
  count : 0 < v.diskCount
  total : v.virtualTotalBytes ≤ 2^63
  cache : CacheOk v.cache
  enabled : v.cacheEnabled = true

/-- A volume of either level with its cache switched on. -/
def WithCache (v : StripeVolume) : Prop := CachedVolume v ∨ CachedMirror v

/-- What no write changes about a volume with a cache. -/
structure SameCached (v w : StripeVolume) : Prop where
  layout : SameLayout v w
  ok : CacheOk w.cache
  enabled : w.cacheEnabled = true
  size : w.cache.cacheSizeBytes = v.cache.cacheSizeBytes
  mode : w.cache.writeThrough = v.cache.writeThrough

theorem WithCache.ok {v : StripeVolume} (h : WithCache v) : CacheOk v.cache := by
  rcases h with h | h
  · exact h.cache
  · exact h.cache

theorem WithCache.enabled {v : StripeVolume} (h : WithCache v) : v.cacheEnabled = true := by
  rcases h with h | h
  · exact h.enabled
  · exact h.enabled

theorem WithCache.total_le {v : StripeVolume} (h : WithCache v) : v.virtualTotalBytes ≤ 2^63 := by
  rcases h with h | h
  · have ht := h.ready.laid.total_le
    omega
  · exact h.total

theorem WithCache.same {v : StripeVolume} (h : WithCache v) : SameCached v v :=
  ⟨SameLayout.refl v, h.ok, h.enabled, rfl, rfl⟩

theorem SameCached.trans {u v w : StripeVolume} (h : SameCached u v) (g : SameCached v w) : SameCached u w :=
  ⟨h.layout.trans g.layout, g.ok, g.enabled, g.size.trans h.size, g.mode.trans h.mode⟩

theorem SameCached.withCache {v w : StripeVolume} (h : SameCached v w) (hv : WithCache v) : WithCache w := by
  rcases hv with hv | hv
  · exact Or.inl (hv.of_same h.layout h.ok h.enabled)
  · refine Or.inr ⟨h.layout.raidLevel.trans hv.level, ?_, by rw [h.layout.diskCount]; exact hv.count,
      by rw [h.layout.total]; exact hv.total, h.ok, h.enabled⟩
    have hm := hv.members
    unfold StripeVolume.checkDisks at hm ⊢
    rw [h.layout.diskCount, h.layout.disks]
    exact hm

theorem SameCached.durable {v w : StripeVolume} (h : SameCached v w) {d : Disks} {x : ℕ} {val : Byte} :
    Durable w d x val ↔ Durable v d x val := by
  unfold Durable
  rw [h.layout.raidLevel, h.layout.vbyte, h.layout.diskCount, h.layout.diskAt]

/-- A volume whose cache holds other bytes or bits. -/
theorem sameCached_of {v w : StripeVolume} (h : WithCache v) (hl : SameLayout v w)
    (he : w.cacheEnabled = v.cacheEnabled) (hc : SameShape v.cache w.cache)
    (hm : w.cache.writeThrough = v.cache.writeThrough) : SameCached v w :=
  ⟨hl, hc.ok h.ok, he.trans h.enabled, hc.size, hm⟩

/-! ### What the engines do -/

/-- A write through the cache: what it acknowledged is on the members, and no other byte moved. -/
structure Through (v : StripeVolume) (d : Disks) (buffer : Buf) (vo length : ℕ) (ok : Bool) (w : StripeVolume)
    (d' : Disks) : Prop where
  same : SameCached v w
  data : ok = true → ∀ x, vo ≤ x → x < vo + length → Durable v d' x (buffer (x - vo))
  frame : ∀ x < v.virtualTotalBytes, x < vo ∨ vo + length ≤ x → ∀ val, Durable v d x val → Durable v d' x val

theorem sameShape_cacheWrite (c : RamCache) (data : Buf) (offset length : ℕ) :
    SameShape c (cacheWrite c data offset length).2 := by
  unfold cacheWrite
  split <;> exact ⟨rfl, rfl, rfl, rfl, rfl⟩

theorem sameShape_cacheInvalidate (c : RamCache) (offset length : ℕ) :
    SameShape c (cacheInvalidate c offset length) := by
  unfold cacheInvalidate
  split <;> exact ⟨rfl, rfl, rfl, rfl, rfl⟩

theorem cacheInvalidate_writeThrough (c : RamCache) (offset length : ℕ) :
    (cacheInvalidate c offset length).writeThrough = c.writeThrough := by
  unfold cacheInvalidate
  split <;> rfl

/-- Members that were written, or dropped, hold what was acknowledged. -/
theorem durable_of_allWritten {u v : StripeVolume} (hlevel : v.raidLevel = .mirror) (hu : SameLayout v u)
    {d : Disks} {buffer : Buf} {offset length : ℕ} {r : Bool × StripeVolume × Disks}
    (h : AllWritten u d buffer offset length 0 u.diskCount false r) :
    (∀ x, offset ≤ x → x < offset + length → Durable v r.2.2 x (buffer (x - offset))) ∧
      ∀ x, x < offset ∨ offset + length ≤ x → ∀ val, Durable v d x val → Durable v r.2.2 x val := by
  unfold Durable
  simp only [hlevel]
  constructor
  · intro x h1 h2 i hi hup
    rw [← hu.diskAt] at hup ⊢
    exact h.data i (Nat.zero_le i) (by rw [hu.diskCount]; omega) hup x h1 h2
  · intro x hx val hd i hi hup
    rw [h.confined.frame _ x hx]
    exact hd i hi (h.confined.healthy _ hup)

theorem mirrorVolumeWrite_through {v : StripeVolume} (h : CachedMirror v) (hw : v.cache.writeThrough = true)
    (io : IoEnv) (d : Disks) (buffer : Buf) (vo length : ℕ) :
    Through v d buffer vo length (mirrorVolumeWrite io v d buffer vo length).1
      (mirrorVolumeWrite io v d buffer vo length).2.1 (mirrorVolumeWrite io v d buffer vo length).2.2 := by
  have hv : WithCache v := Or.inr h
  unfold mirrorVolumeWrite
  split
  · exact ⟨hv.same, nofun, fun _ _ _ _ hd => hd⟩
  split
  · have hshape := sameShape_cacheWrite v.cache buffer vo length
    have hmode := cacheWrite_writeThrough v.cache buffer vo length
    generalize cacheWrite v.cache buffer vo length = c at hshape hmode
    obtain ⟨stored, cache⟩ := c
    simp only at hshape hmode ⊢
    have hsame : SameCached v { v with cache := cache } :=
      sameCached_of hv (sameLayout_cache v cache) rfl hshape hmode
    split
    · rcases mirrorWriteToAll_spec io { v with cache := cache } d buffer vo length with ⟨_, hr⟩ | ⟨_, hr⟩
      · rw [hr]
        refine ⟨hsame.trans ?_, nofun, fun _ _ _ _ hd => hd⟩
        exact sameCached_of (hsame.withCache hv) (sameLayout_cache _ _) rfl (sameShape_cacheInvalidate cache vo length)
          (cacheInvalidate_writeThrough cache vo length)
      · obtain ⟨hdata, hframe⟩ := durable_of_allWritten h.level hsame.layout hr
        have hvol := hr.volume
        generalize mirrorWriteToAll io { v with cache := cache } d buffer vo length = r at hr hdata hframe hvol
        obtain ⟨any, w, e⟩ := r
        have hsw : SameCached { v with cache := cache } w :=
          ⟨hvol.layout, by rw [hvol.cache]; exact hsame.ok, hvol.enabled.trans hsame.enabled, by rw [hvol.cache],
            by rw [hvol.cache]⟩
        have hboth := hsame.trans hsw
        cases any with
        | true =>
          exact ⟨hboth.trans ⟨⟨rfl, rfl, rfl, rfl, rfl, rfl, rfl, rfl⟩, hboth.ok, hboth.enabled, rfl, rfl⟩,
            fun _ => hdata, fun x _ => hframe x⟩
        | false =>
          refine ⟨hboth.trans ?_, nofun, fun x _ => hframe x⟩
          exact sameCached_of (hboth.withCache hv) (sameLayout_cache _ _) rfl
            (sameShape_cacheInvalidate w.cache vo length) (cacheInvalidate_writeThrough w.cache vo length)
    · next hno =>
      -- the cache keeps its mode, so only a refusal leaves the members out
      cases stored with
      | true => exact absurd ⟨rfl, hmode.trans hw⟩ hno
      | false => exact ⟨hsame, nofun, fun _ _ _ _ hd => hd⟩
  · rcases mirrorWriteToAll_spec io v d buffer vo length with ⟨_, hr⟩ | ⟨_, hr⟩
    · rw [hr]
      exact ⟨hv.same, nofun, fun _ _ _ _ hd => hd⟩
    · obtain ⟨hdata, hframe⟩ := durable_of_allWritten h.level (SameLayout.refl v) hr
      have hvol := hr.volume
      generalize mirrorWriteToAll io v d buffer vo length = r at hr hdata hframe hvol
      obtain ⟨any, w, e⟩ := r
      have hsame : SameCached v w :=
        ⟨hvol.layout, by rw [hvol.cache]; exact h.cache, hvol.enabled.trans h.enabled, by rw [hvol.cache],
          by rw [hvol.cache]⟩
      cases any with
      | true =>
        exact ⟨hsame.trans ⟨⟨rfl, rfl, rfl, rfl, rfl, rfl, rfl, rfl⟩, hsame.ok, hsame.enabled, rfl, rfl⟩,
          fun _ => hdata, fun x _ => hframe x⟩
      | false => exact ⟨hsame, nofun, fun x _ => hframe x⟩

theorem sameCached_addWritten {v : StripeVolume} (h : WithCache v) (ok : Bool) (length : ℕ) :
    SameCached v (addWritten v ok length) := by
  refine sameCached_of h (sameLayout_addWritten v ok length) (addWritten_cacheEnabled v ok length) ?_ ?_
  · rw [addWritten_cache]
    exact ⟨rfl, rfl, rfl, rfl, rfl⟩
  · rw [addWritten_cache]

theorem CachedVolume.durable {v : StripeVolume} (h : CachedVolume v) {d : Disks} {x : ℕ} {val : Byte} :
    Durable v d x val ↔ vbyte v d x = val := by
  unfold Durable
  simp only [h.level]

/-- `stripe_volume_write` on a volume of either level. -/
theorem stripeVolumeWrite_through {v w : StripeVolume} (h : WithCache v) (hw : v.cache.writeThrough = true)
    {io : IoEnv} {d d' : Disks} {buffer : Buf} {vo length : ℕ} {ok : Bool} (hl : length < 2^32)
    (hs : stripeVolumeWrite io v d buffer vo length = some (ok, w, d')) :
    Through v d buffer vo length ok w d' := by
  rcases h with h | h
  · have hv : WithCache v := Or.inl h
    cases ok with
    | false =>
      obtain ⟨rfl, hframe⟩ := write_false h hl hs
      refine ⟨hv.same, nofun, fun x hx hout val hd => ?_⟩
      rw [CachedVolume.durable h] at hd ⊢
      exact (hframe x hx hout).trans hd
    | true =>
      have hdone := write_true h hl hs
      refine ⟨?_, fun _ x h1 h2 => (CachedVolume.durable h).mpr (hdone.data (Or.inr hw) x h1 h2),
        fun x hx hout val hd => ?_⟩
      · by_cases hc : Cacheable v vo length
        · rw [hdone.cached hc]
          have hst : SameCached v { v with cache := stored v.cache buffer vo length } :=
            sameCached_of hv (sameLayout_cache v _) rfl ⟨rfl, rfl, rfl, rfl, rfl⟩ rfl
          exact hst.trans (sameCached_addWritten (hst.withCache hv) true length)
        · rw [hdone.direct hc]
          exact sameCached_addWritten hv true length
      · rw [CachedVolume.durable h] at hd ⊢
        exact (hdone.frame x hx hout).trans hd
  · have hv : WithCache v := Or.inr h
    have hm := mirrorVolumeWrite_through h hw io d buffer vo length
    unfold stripeVolumeWrite at hs
    split at hs
    · simp only [Option.some.injEq, Prod.mk.injEq] at hs
      obtain ⟨rfl, rfl, rfl⟩ := hs
      exact ⟨hv.same, nofun, fun _ _ _ _ hd => hd⟩
    rw [if_pos h.level] at hs
    generalize mirrorVolumeWrite io v d buffer vo length = r at hm hs
    obtain ⟨any, u, e⟩ := r
    simp only [Option.some.injEq, Prod.mk.injEq] at hs
    obtain ⟨rfl, rfl, rfl⟩ := hs
    exact ⟨hm.same.trans (sameCached_addWritten (hm.same.withCache hv) any length), hm.data, hm.frame⟩

/-! ### `raid_write` past the cached area -/

/-- After `total` bytes: the volume is as before, and what was written is on the members. -/
structure Landed (v : StripeVolume) (buffer : Buf) (vo total : ℕ) (s : System) : Prop where
  same : SameCached v s.v
  data : ∀ x, vo ≤ x → x < vo + total → Durable v s.d x (buffer (x - vo))

theorem long_le (n : ℕ) : long (u32 n) ≤ n := by
  unfold long u32
  split <;> omega

theorem raidWriteChunk_landed {v : StripeVolume} (h : WithCache v) (hw : v.cache.writeThrough = true) {vo len : ℕ}
    (hvo : v.cache.cacheSizeBytes ≤ vo) (hend : vo + len ≤ v.virtualTotalBytes) {env : ChunkEnv} {buffer : Buf}
    {total n : ℕ} {s t : System} (hs : Landed v buffer vo total s) (hlt : total < len)
    (hc : raidWriteChunk env (buffer.shift total) (vo + total) (len - total) s = some (n, t)) :
    Landed v buffer vo (total + n) t := by
  have hbeyond : s.v.cache.cacheSizeBytes ≤ vo + total := by
    rw [hs.same.size]
    omega
  rw [raidWriteChunk_beyond hbeyond] at hc
  obtain ⟨ok, w, d, hwrite, rfl, rfl⟩ := writeChunkDirect_some hc
  have hmax : maxChunk = 67108864 := rfl
  have hth := stripeVolumeWrite_through (hs.same.withCache h) (hs.same.mode.trans hw) (by omega) hwrite
  refine ⟨hs.same.trans hth.same, fun x h1 h2 => ?_⟩
  by_cases hx : x < vo + total
  · exact hs.same.durable.mp (hth.frame x (by rw [hs.same.layout.total]; omega) (Or.inl hx) _
      (hs.same.durable.mpr (hs.data x h1 hx)))
  · -- a byte of this chunk, so the chunk was acknowledged
    cases ok with
    | false => exact absurd h2 (by simpa using hx)
    | true =>
      have hd := hth.data rfl x (by omega) (by simp only [ite_true] at h2; omega)
      rw [hs.same.durable, Buf.shift, show total + (x - (vo + total)) = x - vo by omega] at hd
      exact hd

theorem raidWrite_landed {v : StripeVolume} (h : WithCache v) (hw : v.cache.writeThrough = true) {vo size : ℕ}
    (hvo : v.cache.cacheSizeBytes ≤ vo) (hsize : size < 2^63) {env : ℕ → ChunkEnv} {path : List Char} {buffer : Buf}
    {m t : Mount} (hm : m.sys.v = v) {n : ℤ} (hr : raidWrite env path buffer size vo m = some (n, t)) :
    ∀ x, vo ≤ x → (x : ℤ) < vo + n → Durable t.sys.v t.sys.d x (buffer (x - vo)) := by
  intro x h1 h2
  subst hm
  rcases raidWrite_some h.total_le hsize hr with ⟨_, rfl, _⟩ | ⟨ok, total, s, hin, hloop, hn, ht⟩
  · omega
  have hend : vo + min size (m.sys.v.virtualTotalBytes - vo) ≤ m.sys.v.virtualTotalBytes := by omega
  have hwritten := raidWriteLoop_rule (P := Landed m.sys.v buffer vo)
    (fun i total s n u hp hlt hc => raidWriteChunk_landed h hw hvo hend hp hlt hc)
    _ ⟨h.same, fun x h1 h2 => by omega⟩ (Nat.zero_le _) (Nat.le_refl _) hloop
  have hle : n ≤ total := by
    rw [hn, raidWritten_result]
    split
    · unfold eio
      omega
    · exact long_le total
  have hx : x < vo + total := by omega
  rw [ht, raidWritten_sys]
  exact hwritten.holds.same.durable.mpr (hwritten.holds.data x h1 hx)

/-! ### `raid_write` into the cached area -/

section Unjournalled
variable {env : BatchEnv} (h : env.journal = false)
include h

theorem flushScan_unjournalled {v : StripeVolume} (hv : WithCache v) (b : ℕ) :
    ∃ c w, flushScan env v b = .next c w ∧ SameCached v w := by
  unfold flushScan
  simp only [h, ite_true]
  split
  · exact ⟨_, _, rfl, hv.same⟩
  split
  · exact ⟨_, _, rfl, hv.same⟩
  split
  · exact ⟨_, _, rfl, hv.same⟩
  · exact ⟨_, _, rfl, sameCached_of hv (sameLayout_cache v _) rfl ⟨rfl, rfl, rfl, rfl, rfl⟩ rfl⟩

end Unjournalled

section Unjournalled
variable {env : ℕ → BatchEnv} (h : ∀ b, (env b).journal = false)
include h

/-- A flush whose batches cannot be journalled writes nothing. -/
theorem flushLoop_unjournalled (fuel : ℕ) : ∀ {v : StripeVolume} (_ : WithCache v) (b : ℕ) (d : Disks),
    (flushLoop env fuel b v d).2 = d ∧ SameCached v (flushLoop env fuel b v d).1 := by
  induction fuel with
  | zero => exact fun hv b d => ⟨rfl, hv.same⟩
  | succ fuel ih =>
    intro v hv b d
    unfold flushLoop
    split
    · obtain ⟨c, w, hscan, hsame⟩ := flushScan_unjournalled (h b) hv b
      obtain ⟨h1, h2⟩ := ih (hsame.withCache hv) c d
      rw [hscan]
      exact ⟨h1, hsame.trans h2⟩
    · exact ⟨rfl, hv.same⟩

theorem cacheFlushAll_unjournalled {v : StripeVolume} (hv : WithCache v) (d : Disks) :
    (cacheFlushAll env v d).2 = d ∧ SameCached v (cacheFlushAll env v d).1 := by
  have hbusy : SameCached v { v with cacheFlushInProgress := true } :=
    sameCached_of hv ⟨rfl, rfl, rfl, rfl, rfl, rfl, rfl, rfl⟩ rfl ⟨rfl, rfl, rfl, rfl, rfl⟩ rfl
  unfold cacheFlushAll
  split
  · exact ⟨rfl, hv.same⟩
  · obtain ⟨h1, h2⟩ := flushLoop_unjournalled h v.cache.blockCount (hbusy.withCache hv) 0 d
    have hdone := hbusy.trans h2
    exact ⟨h1, hdone.trans (sameCached_of (hdone.withCache hv) ⟨rfl, rfl, rfl, rfl, rfl, rfl, rfl, rfl⟩ rfl
      ⟨rfl, rfl, rfl, rfl, rfl⟩ rfl)⟩

theorem cacheBackpressure_unjournalled {s : System} (hs : WithCache s.v) :
    (cacheBackpressure env s).d = s.d ∧ SameCached s.v (cacheBackpressure env s).v := by
  unfold cacheBackpressure
  split
  · exact ⟨rfl, hs.same⟩
  split
  · exact cacheFlushAll_unjournalled h hs s.d
  · exact ⟨rfl, hs.same⟩

end Unjournalled

/-- No transfer fails on a mirror; on a stripe volume none is started. -/
def idleIo (v : StripeVolume) : IoEnv :=
  { IoEnv.good with event := decide (v.raidLevel = .mirror) }

def idleEnv (v : StripeVolume) : ChunkEnv := ⟨fun _ => ⟨false, none, .good⟩, idleIo v⟩

theorem idleEnv_unjournalled (v : StripeVolume) (b : ℕ) : ((idleEnv v).flush b).journal = false := rfl

/-- Members that all work and hold zeros. -/
def zeroDisks : Disks := ⟨fun _ => ⟨0, 0, 0, false, true, true, false, 0, true⟩, fun _ _ => 0⟩

/-- Byte `vo` is still zero on the members, and a mirror's first one works. -/
structure Stale (v : StripeVolume) (vo : ℕ) (s : System) : Prop where
  same : SameCached v s.v
  zero : Durable v s.d vo 0
  works : v.raidLevel = .mirror → writable s.d (v.diskAt 0) = true

theorem Stale.not_durable {v : StripeVolume} (h : WithCache v) {vo : ℕ} {s : System} (hs : Stale v vo s) :
    ¬ Durable s.v s.d vo 1 := by
  rw [hs.same.durable]
  have hzero := hs.zero
  unfold Durable at hzero ⊢
  rcases h with h | h
  · simp only [h.level] at hzero ⊢
    rw [hzero]
    decide
  · simp only [h.level] at hzero ⊢
    intro hone
    have hworks := hs.works h.level
    simp only [writable, Bool.and_eq_true] at hworks
    have hbyte := hone 0 h.count hworks.1.1
    rw [hzero 0 h.count hworks.1.1] at hbyte
    exact absurd hbyte (by decide)

theorem submitEntries_noEvent {io : IoEnv} (h : io.event = false) (d : Disks) (v : StripeVolume)
    (es : List IoMappingEntry) (buffer : Buf) (op : IoOpType) :
    ∃ ok, submitEntries io d v es buffer op = some (ok, d, buffer) := by
  unfold submitEntries
  by_cases hes : es = []
  · rw [if_pos hes]
    exact ⟨true, rfl⟩
  · rw [if_neg hes]
    cases v.workerState with
    | none => exact ⟨false, rfl⟩
    | some ws => exact ⟨false, if_pos h⟩

theorem stripeVolumeWrite_noEvent {io : IoEnv} (h : io.event = false) {v : StripeVolume}
    (hl : v.raidLevel = .stripe) (d : Disks) (buffer : Buf) (vo length : ℕ) :
    ∃ r, stripeVolumeWrite io v d buffer vo length = some r := by
  have hdirect : ∃ r, writeDirect io v d buffer vo length = some r := by
    unfold writeDirect
    split
    · exact ⟨_, rfl⟩
    next es _ =>
    obtain ⟨ok, he⟩ := submitEntries_noEvent h d v es buffer .write
    rw [he]
    exact ⟨_, rfl⟩
  have hcached : ∃ r, writeCached io v d buffer vo length = some r := by
    unfold writeCached
    split
    · split
      · exact ⟨_, rfl⟩
      next es _ =>
      obtain ⟨ok, he⟩ := submitEntries_noEvent h d v es buffer .write
      rw [he]
      cases ok with
      | false => exact ⟨_, rfl⟩
      | true => exact ⟨_, rfl⟩
    · exact ⟨_, rfl⟩
  unfold stripeVolumeWrite
  split
  · exact ⟨_, rfl⟩
  rw [if_neg (by rw [hl]; decide)]
  split
  · exact hcached
  · exact hdirect

/-- A write has a result, and the first member of a mirror still works after it. -/
theorem stripeVolumeWrite_idle {v : StripeVolume} (h : WithCache v) (hw : v.cache.writeThrough = true)
    (d : Disks) (buffer : Buf) (vo length : ℕ) :
    ∃ ok w e, stripeVolumeWrite (idleIo v) v d buffer vo length = some (ok, w, e) ∧
      (v.raidLevel = .mirror → writable e (v.diskAt 0) = writable d (v.diskAt 0)) := by
  rcases h with h | h
  · have hev : (idleIo v).event = false := decide_eq_false (by rw [h.level]; decide)
    obtain ⟨⟨ok, w, e⟩, hr⟩ := stripeVolumeWrite_noEvent hev h.level d buffer vo length
    exact ⟨ok, w, e, hr, fun hl => by rw [h.level] at hl; cases hl⟩
  · have hio : (idleIo v).Succeeds := ⟨decide_eq_true h.level, fun _ => rfl⟩
    have hnot : ¬ Absorbed v vo length := fun ⟨_, _, _, ha⟩ => by
      rw [hw] at ha
      cases ha
    have hm := mirrorVolumeWrite_ok hio v d buffer vo length hnot
    unfold stripeVolumeWrite
    split
    · exact ⟨_, _, _, rfl, fun _ => rfl⟩
    rw [if_pos h.level]
    generalize mirrorVolumeWrite (idleIo v) v d buffer vo length = r at hm
    obtain ⟨ok, w, e⟩ := r
    refine ⟨ok, _, e, rfl, fun _ => ?_⟩
    rcases hm with ⟨_, _, he⟩ | ⟨_, hok⟩
    · exact congrArg (writable · (v.diskAt 0)) he
    · exact hok.still _

/-- A chunk of a write that began at `vo` leaves byte `vo` of the members, if the byte is cached. -/
theorem raidWriteChunk_stale {v : StripeVolume} (h : WithCache v) (hw : v.cache.writeThrough = true)
    {vo curr remaining : ℕ} (hvo : vo < v.cache.cacheSizeBytes) (hcurr : vo ≤ curr)
    (hin : vo < v.virtualTotalBytes) (hpos : 0 < remaining) {s : System} (hs : Stale v vo s) (buffer : Buf) :
    ∃ n t, raidWriteChunk (idleEnv v) buffer curr remaining s = some (n, t) ∧ Stale v vo t ∧
      (curr < v.cache.cacheSizeBytes → 0 < n) := by
  have hmax : maxChunk = 67108864 := rfl
  by_cases hc : curr < v.cache.cacheSizeBytes
  · obtain ⟨hd, hsame⟩ := cacheBackpressure_unjournalled (idleEnv_unjournalled v) (hs.same.withCache h)
    have hboth := hs.same.trans hsame
    unfold raidWriteChunk
    simp only [minU64_eq]
    generalize cacheBackpressure (idleEnv v).flush s = r at hd hboth
    have hlen : 0 < min remaining (min maxChunk (r.v.cache.cacheSizeBytes - curr)) := by
      rw [hboth.size]
      omega
    have hend : curr + min remaining (min maxChunk (r.v.cache.cacheSizeBytes - curr)) ≤ r.v.cache.cacheSizeBytes := by
      rw [hboth.size]
      omega
    have hstore := cacheWrite_stored hboth.ok buffer (by omega) hlen hend
    rw [if_pos ⟨hs.same.enabled, by rw [hs.same.size]; exact hc⟩, if_pos hlen, hstore]
    refine ⟨_, _, rfl, ⟨hboth.trans ?_, ?_, ?_⟩, fun _ => hlen⟩
    · exact sameCached_of (hboth.withCache h) ⟨rfl, rfl, rfl, rfl, rfl, rfl, rfl, rfl⟩ rfl ⟨rfl, rfl, rfl, rfl, rfl⟩ rfl
    · exact hd ▸ hs.zero
    · exact hd ▸ hs.works
  · have hbeyond : s.v.cache.cacheSizeBytes ≤ curr := by
      rw [hs.same.size]
      omega
    rw [raidWriteChunk_beyond hbeyond]
    have hio : (idleEnv v).io = idleIo s.v := by
      unfold idleEnv idleIo
      rw [hs.same.layout.raidLevel]
    obtain ⟨ok, w, e, hwrite, hworks⟩ := stripeVolumeWrite_idle (hs.same.withCache h) (hs.same.mode.trans hw) s.d buffer
      curr (min remaining maxChunk)
    have hth := stripeVolumeWrite_through (hs.same.withCache h) (hs.same.mode.trans hw) (by omega) hwrite
    unfold writeChunkDirect
    simp only [minU64_eq, hio, hwrite]
    refine ⟨_, _, rfl, ⟨hs.same.trans hth.same, ?_, fun hl => ?_⟩, fun hlt => absurd hlt hc⟩
    · exact hs.same.durable.mp (hth.frame vo (by rw [hs.same.layout.total]; exact hin) (Or.inl (by omega)) 0
        (hs.same.durable.mpr hs.zero))
    · have hkeep := hworks (hs.same.layout.raidLevel.trans hl)
      rw [hs.same.layout.diskAt] at hkeep
      rw [hkeep]
      exact hs.works hl

theorem long_pos {n : ℕ} (h : 0 < n) (hlt : n < 2^31) : 0 < long (u32 n) := by
  unfold long u32
  rw [Nat.mod_eq_of_lt (by omega), if_pos (by omega)]
  omega

/-- The loop over a range that begins in the cached area writes something, and byte `vo` stays. -/
theorem raidWriteLoop_stale {v : StripeVolume} (h : WithCache v) (hw : v.cache.writeThrough = true) {vo len : ℕ}
    (hvo : vo < v.cache.cacheSizeBytes) (hin : vo < v.virtualTotalBytes) (hpos : 0 < len) {s : System}
    (hs : Stale v vo s) (buffer : Buf) :
    ∃ ok total t, raidWriteLoop (fun _ => idleEnv v) buffer len 0 vo len 0 s = some (ok, total, t) ∧
      0 < total ∧ total ≤ len ∧ Stale v vo t := by
  have hturn : ∀ (total : ℕ) (s : System), Stale v vo s → total < len → ∃ n t,
      raidWriteChunk (idleEnv v) (buffer.shift total) (vo + total) (len - total) s = some (n, t) ∧
        Stale v vo t ∧ (total = 0 → 0 < n) := by
    intro total s hs hlt
    obtain ⟨n, t, hc, ht, hn⟩ := raidWriteChunk_stale h hw hvo (Nat.le_add_right vo total) hin
      (Nat.sub_pos_of_lt hlt) hs (buffer.shift total)
    exact ⟨n, t, hc, ht, fun hz => hn (by omega)⟩
  have hsome : ∃ r, raidWriteLoop (fun _ => idleEnv v) buffer len 0 (vo + 0) (len - 0) 0 s = some r := by
    refine raidWriteLoop_some (P := fun _ => Stale v vo) (fun _ total s hs hlt => ?_) len 0 0 s hs (Nat.zero_le _)
    obtain ⟨n, t, hc, ht, _⟩ := hturn total s hs hlt
    exact ⟨n, t, hc, ht⟩
  obtain ⟨⟨ok, total, t⟩, hloop⟩ := hsome
  have hwritten : Written (fun _ => idleEnv v) buffer vo len (fun _ => Stale v vo) ok total t := by
    refine raidWriteLoop_rule (fun _ total s n t hs hlt hc => ?_) len hs (Nat.zero_le _) (Nat.sub_le _ _) hloop
    obtain ⟨n', t', hc', ht, _⟩ := hturn total s hs hlt
    rw [hc] at hc'
    obtain ⟨_, rfl⟩ := Prod.mk.inj (Option.some.inj hc')
    exact ht
  refine ⟨ok, total, t, hloop, ?_, hwritten.le, hwritten.holds⟩
  -- the first turn stores something
  cases ok with
  | true =>
    rw [hwritten.all rfl]
    exact hpos
  | false =>
    obtain ⟨i, r, hr, hlt, hstop⟩ := hwritten.stopped rfl
    by_contra hzero
    obtain ⟨n, t, hc, _, hn⟩ := hturn total r hr hlt
    rw [hstop] at hc
    obtain ⟨rfl, _⟩ := Prod.mk.inj (Option.some.inj hc)
    exact absurd (hn (by omega)) (Nat.lt_irrefl 0)

theorem zeroDisks_stale {v : StripeVolume} (h : WithCache v) (vo : ℕ) :
    Stale v vo ⟨v, zeroDisks, .idle, .thread, false⟩ := by
  refine ⟨h.same, ?_, fun _ => rfl⟩
  unfold Durable
  split
  · rfl
  · exact fun _ _ _ => rfl

/-- A write that begins in the cached area can be acknowledged with its first byte in memory only. -/
theorem raidWrite_stale {v : StripeVolume} (h : WithCache v) (hw : v.cache.writeThrough = true) {vo size : ℕ}
    (hvo : vo < v.cache.cacheSizeBytes) (hin : vo < v.virtualTotalBytes) (hpos : 0 < size) (hsize : size < 2^31)
    (path : List Char) {m : Mount} (hm : m.sys = ⟨v, zeroDisks, .idle, .thread, false⟩) :
    ∃ n t, raidWrite (fun _ => idleEnv v) path (fun _ => 1) size vo m = some (n, t) ∧ 0 < n ∧
      ¬ Durable t.sys.v t.sys.d vo 1 := by
  have htop := h.total_le
  have hv : m.sys.v = v := by rw [hm]
  have hpos : 0 < min size (v.virtualTotalBytes - vo) := by omega
  obtain ⟨ok, total, t, hloop, htotal, hle, hstale⟩ := raidWriteLoop_stale h hw hvo hin hpos (zeroDisks_stale h vo)
    (fun _ => 1)
  have hpositive := long_pos htotal (by omega)
  rw [raidWrite_eq (by rw [hv]; exact htop) (by omega) (by rw [hv]; exact hin), hv, hm, hloop]
  refine ⟨(raidWritten path vo m ok total t).1, (raidWritten path vo m ok total t).2, rfl, ?_, ?_⟩
  · rw [raidWritten_result, if_neg fun hc => hc.2 hpositive]
    exact hpositive
  · rw [raidWritten_sys]
    exact hstale.not_durable h

/-! ### The entry points -/

inductive WriteEntry where
  | stripeVolumeWrite
  | mirrorVolumeWrite
  | raidWrite (path : List Char)

/-- The engines take a `uint32_t` length; `raid_write` returns the length as an `int`. -/
def WriteEntry.limit : WriteEntry → ℕ
  | .stripeVolumeWrite => 2^32
  | .mirrorVolumeWrite => 2^32
  | .raidWrite _ => 2^31

/-- The mirror engine is for mirrors. -/
def WriteEntry.serves (v : StripeVolume) : WriteEntry → Prop
  | .mirrorVolumeWrite => v.raidLevel = .mirror
  | _ => True

structure WriteEnv where
  io : IoEnv
  chunk : ℕ → ChunkEnv

/-- How many bytes the call acknowledged, and the mount after it. -/
def WriteEntry.run (env : WriteEnv) (buffer : Buf) (vo size : ℕ) (m : Mount) : WriteEntry → Option (ℤ × Mount)
  | .stripeVolumeWrite =>
    match Stripe.stripeVolumeWrite env.io m.sys.v m.sys.d buffer vo size with
    | none => none
    | some (ok, v, d) => some (if ok then size else 0, { m with sys := { m.sys with v := v, d := d } })
  | .mirrorVolumeWrite =>
    let (ok, v, d) := Mirror.mirrorVolumeWrite env.io m.sys.v m.sys.d buffer vo size
    some (if ok then size else 0, { m with sys := { m.sys with v := v, d := d } })
  | .raidWrite path => Fuse.raidWrite env.chunk path buffer size vo m

/-- Whatever `m` and the environment are, what the call acknowledges is on the members when it returns. -/
def Honours (e : WriteEntry) (v : StripeVolume) (vo size : ℕ) : Prop :=
  ∀ (env : WriteEnv) (buffer : Buf) (m t : Mount) (n : ℤ), m.sys.v = v → e.run env buffer vo size m = some (n, t) →
    ∀ x, vo ≤ x → (x : ℤ) < vo + n → Durable t.sys.v t.sys.d x (buffer (x - vo))

/-- The call writes nothing, or nothing in the cached area. -/
def Bypasses (e : WriteEntry) (v : StripeVolume) (vo size : ℕ) : Prop :=
  ∀ path, e = .raidWrite path → size = 0 ∨ v.virtualTotalBytes ≤ vo ∨ v.cache.cacheSizeBytes ≤ vo

theorem Through.acknowledged {v w : StripeVolume} {d d' : Disks} {buffer : Buf} {vo size : ℕ} {ok : Bool}
    (h : Through v d buffer vo size ok w d') {x : ℕ} (h1 : vo ≤ x)
    (h2 : (x : ℤ) < vo + if ok then (size : ℤ) else 0) : Durable w d' x (buffer (x - vo)) := by
  cases ok with
  | false =>
    simp only [Bool.false_eq_true, ite_false] at h2
    omega
  | true =>
    simp only [ite_true] at h2
    exact h.same.durable.mpr (h.data rfl x h1 (by omega))

theorem raidWrite_empty {v : StripeVolume} (h : WithCache v) {vo : ℕ} {env : ℕ → ChunkEnv} {path : List Char}
    {buffer : Buf} {m t : Mount} (hm : m.sys.v = v) {n : ℤ} {size : ℕ} (hsize : size < 2^63)
    (hnone : size = 0 ∨ v.virtualTotalBytes ≤ vo) (hr : raidWrite env path buffer size vo m = some (n, t)) : n ≤ 0 := by
  subst hm
  rcases raidWrite_some h.total_le hsize hr with ⟨_, rfl, _⟩ | ⟨ok, total, s, hin, hloop, hn, _⟩
  · exact Int.le_refl 0
  · obtain rfl : size = 0 := by omega
    rw [Nat.zero_min] at hloop
    simp only [raidWriteLoop, Option.some.injEq, Prod.mk.injEq] at hloop
    obtain ⟨rfl, rfl, rfl⟩ := hloop
    rw [hn, raidWritten_result]
    exact Int.le_refl 0

theorem writeEntry_writeThrough (e : WriteEntry) (v : StripeVolume) (vo size : ℕ) (h : WithCache v)
    (hw : v.cache.writeThrough = true) (hserves : e.serves v) (hsize : size < e.limit) :
    Honours e v vo size ↔ Bypasses e v vo size := by
  constructor
  · intro hall path he
    subst he
    by_contra hno
    simp only [not_or, Nat.not_le] at hno
    obtain ⟨n, t, hr, hn, hstale⟩ := raidWrite_stale h hw hno.2.2 hno.2.1 (Nat.pos_of_ne_zero hno.1) hsize path
      (m := ⟨⟨v, zeroDisks, .idle, .thread, false⟩, [], 0, 0⟩) rfl
    exact hstale (hall ⟨.good, fun _ => idleEnv v⟩ (fun _ => 1) _ t n rfl hr vo (Nat.le_refl vo) (by omega))
  · intro hby env buffer m t n hm hr x h1 h2
    subst hm
    cases e with
    | stripeVolumeWrite =>
      unfold WriteEntry.run at hr
      simp only at hr
      cases hs : Stripe.stripeVolumeWrite env.io m.sys.v m.sys.d buffer vo size with
      | none =>
        rw [hs] at hr
        cases hr
      | some r =>
        obtain ⟨ok, w, d⟩ := r
        rw [hs] at hr
        obtain ⟨rfl, rfl⟩ := Prod.mk.inj (Option.some.inj hr)
        exact (stripeVolumeWrite_through h hw hsize hs).acknowledged h1 h2
    | mirrorVolumeWrite =>
      have hmirror : CachedMirror m.sys.v := h.resolve_left fun hs => by
        have hlevel : m.sys.v.raidLevel = .mirror := hserves
        rw [hs.level] at hlevel
        cases hlevel
      obtain ⟨rfl, rfl⟩ := Prod.mk.inj (Option.some.inj hr)
      exact (mirrorVolumeWrite_through hmirror hw env.io m.sys.d buffer vo size).acknowledged h1 h2
    | raidWrite path =>
      have hlimit : size < 2^31 := hsize
      rcases hby path rfl with hz | hz | hz
      · have hn := raidWrite_empty h rfl (by omega) (Or.inl hz) hr
        omega
      · have hn := raidWrite_empty h rfl (by omega) (Or.inr hz) hr
        omega
      · exact raidWrite_landed h hw hz (by omega) rfl hr x h1 h2

/-- The small cached volume of two disks in write-through mode. -/
def pairThrough : StripeVolume := { pairCached with cache := { pairCached.cache with writeThrough := true } }

theorem pairThrough_ok : CachedVolume pairThrough :=
  pairCached_ok.of_same (sameLayout_cache pairCached _)
    ⟨pairCached_ok.cache.allocated, pairCached_ok.cache.blockSize, pairCached_ok.cache.count, pairCached_ok.cache.size,
      pairCached_ok.cache.flushBuffer⟩ pairCached_ok.enabled

theorem writeEntry_writeThrough_sample :
    Honours (.raidWrite ['/', 'a']) pairThrough 131072 1 ↔ Bypasses (.raidWrite ['/', 'a']) pairThrough 131072 1 :=
  writeEntry_writeThrough _ pairThrough 131072 1 (Or.inl pairThrough_ok) rfl trivial (by decide)

/-- One byte is written to an empty file. -/
def pairMount : Mount := ⟨⟨pairThrough, pairDisks, .idle, .thread, false⟩, [⟨['a'], false, 0⟩], 0, 0⟩

def goodEnv : WriteEnv := ⟨.good, fun _ => ⟨fun _ => .good, .good⟩⟩

/-- Nothing fails and the byte is acknowledged, but it is not on its disk. -/
theorem writeEntry_writeThrough_fails :
    CachedVolume pairThrough ∧ pairThrough.cache.writeThrough = true ∧
      ∃ t, (WriteEntry.raidWrite ['/', 'a']).run goodEnv (fun _ => 255) 0 1 pairMount = some (1, t) ∧
        ¬ Durable t.sys.v t.sys.d 0 255 := by
  have hrun : ((WriteEntry.raidWrite ['/', 'a']).run goodEnv (fun _ => 255) 0 1 pairMount).map
      (fun r => (r.1, r.2.sys.v.raidLevel, vbyte r.2.sys.v r.2.sys.d 0)) = some (1, .stripe, 1) := by
    decide +kernel
  obtain ⟨⟨n, t⟩, hr, he⟩ := Option.map_eq_some_iff.mp hrun
  simp only [Prod.mk.injEq] at he
  obtain ⟨rfl, hlevel, hbyte⟩ := he
  refine ⟨pairThrough_ok, rfl, t, hr, ?_⟩
  unfold Durable
  simp only [hlevel, hbyte]
  decide

end RaidTest.Fuse
