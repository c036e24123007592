import RaidTest.Cache.Access
import RaidTest.Base.Trace

/-!
# The cached volume under concurrency

The threads that work on a mounted stripe volume with a cache: FUSE calls that read,
write through `cache_write` or `stripe_volume_write`, and whoever runs `cache_flush_all`.
A step is one locked section, one set of transfers or one whole call. A call moves
every byte once, so for a single byte the steps have all the orders the threads have.
-/

namespace RaidTest.Cache
open RaidTest.Base RaidTest.Stripe

/-- Where the flush that holds `cache_flush_in_progress` stands. -/
inductive FlushPc where
  | idle
  | scan (b : ℕ)
  | copied (b run : ℕ)
  | written (b run : ℕ)
  deriving Repr, DecidableEq

/-- A caller of `cache_flush_all`; all but the flush thread take `g_flush_in_progress` first. -/
inductive Flusher where
  | thread
  | backpressure
  | fsync
  deriving Repr, DecidableEq

def Flusher.guarded : Flusher → Bool
  | .thread => false
  | .backpressure => true
  | .fsync => true

structure System where
  v : StripeVolume
  d : Disks
  flush : FlushPc
  flusher : Flusher
  gFlush : Bool

/-- `write` carries the value of `cache_flush_in_progress` its caller saw, which may be
out of date by the time of the transfers, and whether the call returned true. -/
inductive Label where
  | read (io : IoEnv) (buffer : Buf) (vo length : ℕ)
  | cacheWrite (c : WriteCall)
  | write (seen : Bool) (io : IoEnv) (c : WriteCall) (ok : Bool)
  | begin (who : Flusher)
  | scan (env : BatchEnv)
  | transfer (env : BatchEnv)
  | clear

def setFlag (v : StripeVolume) (flag : Bool) : StripeVolume := { v with cacheFlushInProgress := flag }

/-- One step; lengths are `uint32_t`. -/
def step (s : System) : Label → Option System
  | .read io buffer vo length =>
    if length < 4294967296 then
      match stripeVolumeRead io s.v s.d buffer vo length with
      | none => none
      | some (_, v, d, _) => some { s with v := v, d := d }
    else none
  | .cacheWrite c =>
    if c.length < 4294967296 then
      some { s with v := { s.v with cache := (cacheWrite s.v.cache c.buffer c.vo c.length).2 } }
    else none
  | .write seen io c ok =>
    if c.length < 4294967296 then
      match stripeVolumeWrite io (setFlag s.v seen) s.d c.buffer c.vo c.length with
      | none => none
      | some (ok', v, d) =>
        if ok' = ok then some { s with v := setFlag v s.v.cacheFlushInProgress, d := d } else none
    else none
  | .begin who =>
    if who.guarded && s.gFlush then some s
    else if s.v.cacheFlushInProgress then some s
    else some { s with
      v := setFlag s.v true, flush := .scan 0, flusher := who, gFlush := s.gFlush || who.guarded }
  | .scan env =>
    match s.flush with
    | .scan b =>
      if b < s.v.cache.blockCount then
        match flushScan env s.v b with
        | .next b v => some { s with v := v, flush := .scan b }
        | .batch run v => some { s with v := v, flush := .copied b run }
      else some { s with
        v := setFlag s.v false, flush := .idle, gFlush := s.gFlush && !s.flusher.guarded }
    | _ => none
  | .transfer env =>
    match s.flush with
    | .copied b run =>
      match flushWrite env s.v s.d b run with
      | (true, d) => some { s with d := d, flush := .written b run }
      | (false, d) => some { s with d := d, flush := .scan (b + run) }
    | _ => none
  | .clear =>
    match s.flush with
    | .written b run => some { s with v := flushClear s.v b run, flush := .scan (b + run) }
    | _ => none

/-! ### What holds in every reachable state -/

structure SystemOk (s : System) : Prop where
  volume : CachedVolume s.v
  dirty : ∀ b, s.v.cache.dirtyMap b = true → s.v.cache.validMap b = true
  flag : s.v.cacheFlushInProgress = true ↔ s.flush ≠ .idle
  batch : ∀ b run, s.flush = .copied b run ∨ s.flush = .written b run →
    run ≤ 256 ∧ ∀ i < run, b + i < s.v.cache.blockCount ∧ s.v.cache.dirtyMap (b + i) = true

/-- The state after `raid_cache` switched the cache on. -/
structure Started (s : System) : Prop where
  volume : CachedVolume s.v
  dirty : ∀ b, s.v.cache.dirtyMap b = false
  valid : ∀ b, s.v.cache.validMap b = false
  flag : s.v.cacheFlushInProgress = false
  flush : s.flush = .idle
  gFlush : s.gFlush = false

theorem Started.ok {s : System} (h : Started s) : SystemOk s where
  volume := h.volume
  dirty := fun b hb => by rw [h.dirty b] at hb; cases hb
  flag := by
    rw [h.flag, h.flush]
    exact ⟨nofun, fun hf => absurd rfl hf⟩
  batch := fun b run hf => by rw [h.flush] at hf; rcases hf with hf | hf <;> cases hf

theorem flag_busy {flag : Bool} {pc : FlushPc} (hf : flag = true) (hpc : pc ≠ .idle) :
    flag = true ↔ pc ≠ .idle := ⟨fun _ => hpc, fun _ => hf⟩

/-- The write a label makes, if any. -/
def Label.call : Label → Option WriteCall
  | .cacheWrite c => some c
  | .write _ _ c _ => some c
  | _ => none

/-- The write a label makes to the cache, if it ends inside. -/
def Label.cached : Label → Option WriteCall
  | .cacheWrite c => some c
  | .write false _ c _ => some c
  | _ => none

/-- The step may leave everything but counters alone. -/
def Label.idle : Label → Bool
  | .read .. => true
  | .cacheWrite _ => true
  | .begin _ => true
  | _ => false

theorem Label.call_of_cached {l : Label} {c : WriteCall} (h : l.cached = some c) : l.call = some c := by
  cases l with
  | cacheWrite => exact h
  | write seen =>
    cases seen with
    | false => exact h
    | true => cases h
  | read | begin | scan | transfer | clear => cases h

/-- What a step can do, `x` ranging over the bytes of the volume. -/
inductive Effect (s t : System) : Label → Prop where
  | quiet (l : Label) (hidle : l.idle = true) (hcache : ∃ hits misses, t.v.cache =
        { s.v.cache with hitCount := hits, missCount := misses })
      (hd : t.d.pool = s.d.pool) (hflush : t.flush = s.flush) : Effect s t l
  | cached (l : Label) (c : WriteCall) (hcall : l.cached = some c) (hpos : 0 < c.length)
      (hend : c.vo + c.length ≤ s.v.cache.cacheSizeBytes)
      (hcache : t.v.cache = stored s.v.cache c.buffer c.vo c.length)
      (hdisk : ∀ x < s.v.virtualTotalBytes, vbyte s.v t.d x = vbyte s.v s.d x ∨
        (∃ io ok, l = .write false io c ok) ∧ c.covers x ∧ vbyte s.v t.d x = c.buffer (x - c.vo))
      (hflush : t.flush = s.flush) : Effect s t l
  | direct (seen : Bool) (io : IoEnv) (c : WriteCall) (ok : Bool)
      (hpath : ok = true → ¬ (seen = false ∧ c.vo + c.length ≤ s.v.cache.cacheSizeBytes))
      (hcache : t.v.cache = s.v.cache)
      (hframe : ∀ x < s.v.virtualTotalBytes, ¬ c.covers x → vbyte s.v t.d x = vbyte s.v s.d x)
      (hdata : ok = true → c.vo + c.length ≤ s.v.virtualTotalBytes ∧
        ∀ x, c.covers x → vbyte s.v t.d x = c.buffer (x - c.vo))
      (hflush : t.flush = s.flush) : Effect s t (.write seen io c ok)
  | start (who : Flusher) (hcache : t.v.cache = s.v.cache) (hd : t.d.pool = s.d.pool) (hidle : s.flush = .idle)
      (hflush : t.flush = .scan 0) : Effect s t (.begin who)
  | pass (env : BatchEnv) (b : ℕ) (hcache : t.v.cache = s.v.cache) (hd : t.d.pool = s.d.pool)
      (hscan : s.flush = .scan b) (hclean : s.v.cache.dirtyMap b = false)
      (hflush : t.flush = .scan (b + 1)) : Effect s t (.scan env)
  | copy (env : BatchEnv) (b run : ℕ) (hcache : t.v.cache = (copied s.v b run).cache)
      (hd : t.d.pool = s.d.pool)
      (hscan : s.flush = .scan b) (hrun : 0 < run ∧ run ≤ 256)
      (hdirty : ∀ i < run, b + i < s.v.cache.blockCount ∧ s.v.cache.dirtyMap (b + i) = true)
      (hflush : t.flush = if env.journal then .copied b run else .scan (b + run)) :
      Effect s t (.scan env)
  | finish (env : BatchEnv) (b : ℕ) (hcache : t.v.cache = s.v.cache) (hd : t.d.pool = s.d.pool)
      (hscan : s.flush = .scan b) (hb : s.v.cache.blockCount ≤ b) (hflush : t.flush = .idle) :
      Effect s t (.scan env)
  | transfer (env : BatchEnv) (b run : ℕ) (ok : Bool) (hcache : t.v.cache = s.v.cache)
      (hcopied : s.flush = .copied b run)
      (hw : BatchWritten s.v (fun x => s.v.cache.flushBuffer (x - b * 65536)) env b run s.d (ok, t.d))
      (hflush : t.flush = if ok then .written b run else .scan (b + run)) :
      Effect s t (.transfer env)
  | clear (b run : ℕ) (hcache : t.v.cache = (flushClear s.v b run).cache) (hd : t.d.pool = s.d.pool)
      (hwritten : s.flush = .written b run) (hflush : t.flush = .scan (b + run)) : Effect s t .clear

/-- The parts of the volume no step touches. -/
structure Steady (s t : System) : Prop where
  layout : SameLayout s.v t.v
  enabled : t.v.cacheEnabled = s.v.cacheEnabled
  flag : t.v.cacheFlushInProgress = true ↔ t.flush ≠ .idle

theorem sameLayout_setFlag (v : StripeVolume) (flag : Bool) : SameLayout v (setFlag v flag) :=
  ⟨rfl, rfl, rfl, rfl, rfl, rfl, rfl, rfl⟩

theorem CachedVolume.setFlag {v : StripeVolume} (h : CachedVolume v) (flag : Bool) :
    CachedVolume (setFlag v flag) := h.of_same (sameLayout_setFlag v flag) h.cache h.enabled

theorem step_cacheWrite {s t : System} (h : SystemOk s) {c : WriteCall}
    (hs : step s (.cacheWrite c) = some t) : Steady s t ∧ Effect s t (.cacheWrite c) := by
  simp only [step] at hs
  split at hs
  · next hlit =>
    have hl : c.length < 2^32 := by omega
    obtain rfl := Option.some.inj hs
    refine ⟨⟨sameLayout_cache _ _, rfl, h.flag⟩, ?_⟩
    by_cases hin : 0 < c.length ∧ c.vo + c.length ≤ s.v.cache.cacheSizeBytes
    · refine .cached _ c rfl hin.1 hin.2 ?_ (fun _ _ => Or.inl rfl) rfl
      simp only [cacheWrite_stored h.volume.cache c.buffer hl hin.1 hin.2]
    · refine .quiet _ rfl ⟨s.v.cache.hitCount, s.v.cache.missCount, ?_⟩ rfl rfl
      simp only [cacheWrite_false h.volume.cache hl hin]
  · cases hs

theorem step_read {s t : System} (h : SystemOk s) {io : IoEnv} {buffer : Buf} {vo length : ℕ}
    (hs : step s (.read io buffer vo length) = some t) :
    Steady s t ∧ Effect s t (.read io buffer vo length) := by
  simp only [step] at hs
  split at hs
  swap
  · cases hs
  next hlit =>
  have hl : length < 2^32 := by omega
  cases hr : stripeVolumeRead io s.v s.d buffer vo length with
  | none => rw [hr] at hs; cases hs
  | some r =>
    obtain ⟨ok, w, d', out⟩ := r
    rw [hr] at hs
    obtain rfl := Option.some.inj hs
    obtain ⟨hq, hpool⟩ := read_quiet h.volume hl hr
    refine ⟨⟨hq.layout, hq.enabled, ?_⟩, .quiet _ rfl hq.cache hpool rfl⟩
    rw [hq.flush]
    exact h.flag

theorem step_write {s t : System} (h : SystemOk s) {seen : Bool} {io : IoEnv} {c : WriteCall}
    {ok : Bool} (hs : step s (.write seen io c ok) = some t) :
    Steady s t ∧ Effect s t (.write seen io c ok) := by
  simp only [step] at hs
  split at hs
  swap
  · cases hs
  next hlit =>
  have hl : c.length < 2^32 := by omega
  have hv := h.volume.setFlag seen
  have hsame := sameLayout_setFlag s.v seen
  cases hw : stripeVolumeWrite io (setFlag s.v seen) s.d c.buffer c.vo c.length with
  | none => rw [hw] at hs; cases hs
  | some r =>
    obtain ⟨ok', w, d'⟩ := r
    simp only [hw] at hs
    split at hs
    swap
    · cases hs
    next hok =>
    subst hok
    obtain rfl := Option.some.inj hs
    cases ok' with
    | true =>
      have hdone := write_true hv hl hw
      have hframe := hdone.frame
      simp only [hsame.vbyte] at hframe
      by_cases hc : Cacheable (setFlag s.v seen) c.vo c.length
      · obtain rfl := hdone.cached hc
        refine ⟨⟨?_, ?_, ?_⟩, ?_⟩
        · exact (hsame.trans (sameLayout_cache _ _)).trans
            ((sameLayout_addWritten _ _ _).trans (sameLayout_setFlag _ _))
        · exact addWritten_cacheEnabled _ _ _
        · exact h.flag
        · have hseen : seen = false := hc.1
          refine .cached _ c (by rw [hseen]; rfl) hdone.pos hc.2 (addWritten_cache _ _ _)
            (fun x hx => ?_) rfl
          by_cases hx2 : c.covers x
          · cases hwt : s.v.cache.writeThrough with
            | true =>
              have hdata := hdone.data (Or.inr hwt) x hx2.1 hx2.2
              rw [hsame.vbyte] at hdata
              exact Or.inr ⟨⟨io, true, by rw [hseen]⟩, hx2, hdata⟩
            | false =>
              have hd := hdone.kept hc hwt
              subst hd
              exact Or.inl rfl
          · refine Or.inl (hframe x hx ?_)
            unfold WriteCall.covers at hx2
            omega
      · obtain rfl := hdone.direct hc
        refine ⟨⟨?_, ?_, ?_⟩, ?_⟩
        · exact (hsame.trans (sameLayout_addWritten _ _ _)).trans (sameLayout_setFlag _ _)
        · exact addWritten_cacheEnabled _ _ _
        · exact h.flag
        · refine .direct seen io c true (fun _ => hc) (addWritten_cache _ _ _) (fun x hx hn => ?_)
            (fun _ => ⟨hdone.inside, fun x hx => ?_⟩) rfl
          · refine hframe x hx ?_
            unfold WriteCall.covers at hn
            omega
          · have hdata := hdone.data (Or.inl hc) x hx.1 hx.2
            rw [hsame.vbyte] at hdata
            exact hdata
    | false =>
      obtain ⟨rfl, hframe⟩ := write_false hv hl hw
      simp only [hsame.vbyte] at hframe
      refine ⟨⟨hsame.trans (sameLayout_setFlag _ _), rfl, h.flag⟩, ?_⟩
      refine .direct seen io c false (fun hf => by cases hf) rfl (fun x hx hn => ?_)
        (fun hf => by cases hf) rfl
      refine hframe x hx ?_
      unfold WriteCall.covers at hn
      omega

theorem step_begin {s t : System} (h : SystemOk s) {who : Flusher}
    (hs : step s (.begin who) = some t) : Steady s t ∧ Effect s t (.begin who) := by
  simp only [step] at hs
  split at hs
  · obtain rfl := Option.some.inj hs
    exact ⟨⟨SameLayout.refl _, rfl, h.flag⟩, .quiet _ rfl ⟨_, _, rfl⟩ rfl rfl⟩
  split at hs
  · obtain rfl := Option.some.inj hs
    exact ⟨⟨SameLayout.refl _, rfl, h.flag⟩, .quiet _ rfl ⟨_, _, rfl⟩ rfl rfl⟩
  next hflag =>
  obtain rfl := Option.some.inj hs
  have hidle : s.flush = .idle := by
    by_contra hne
    exact hflag (h.flag.mpr hne)
  exact ⟨⟨sameLayout_setFlag _ _, rfl, flag_busy rfl nofun⟩, .start who rfl rfl hidle rfl⟩

theorem step_scan {s t : System} (h : SystemOk s) {env : BatchEnv}
    (hs : step s (.scan env) = some t) : Steady s t ∧ Effect s t (.scan env) := by
  simp only [step] at hs
  split at hs
  swap
  · cases hs
  next b hscan =>
  have hflag : s.v.cacheFlushInProgress = true := h.flag.mpr (by rw [hscan]; exact nofun)
  split at hs
  · next hb =>
    cases hd : s.v.cache.dirtyMap b with
    | false =>
      rw [flushScan_clean env hd] at hs
      obtain rfl := Option.some.inj hs
      exact ⟨⟨SameLayout.refl _, rfl, flag_busy hflag nofun⟩, .pass env b rfl rfl hscan hd rfl⟩
    | true =>
      obtain ⟨h1, h2, h3⟩ := batchRun_spec s.v.virtualTotalBytes hb hd
      have hf := flushScan_dirty h.volume.cache env hb hd
      generalize batchRun s.v.cache s.v.virtualTotalBytes b = run at h1 h2 h3 hf
      rw [hf] at hs
      have hsame : SameLayout s.v (copied s.v b run) := sameLayout_withFlush _ _ _
      cases hj : env.journal with
      | true =>
        rw [hj] at hs
        obtain rfl := Option.some.inj hs
        exact ⟨⟨hsame, withFlush_enabled _ _ _, flag_busy ((withFlush_busy _ _ _).trans hflag) nofun⟩,
          .copy env b run rfl rfl hscan ⟨h1, h2⟩ h3 (by rw [hj]; rfl)⟩
      | false =>
        rw [hj] at hs
        obtain rfl := Option.some.inj hs
        exact ⟨⟨hsame, withFlush_enabled _ _ _, flag_busy ((withFlush_busy _ _ _).trans hflag) nofun⟩,
          .copy env b run rfl rfl hscan ⟨h1, h2⟩ h3 (by rw [hj]; rfl)⟩
  · next hb =>
    obtain rfl := Option.some.inj hs
    exact ⟨⟨sameLayout_setFlag _ _, rfl, nofun, fun hf => absurd rfl hf⟩,
      .finish env b rfl rfl hscan (by omega) rfl⟩

theorem step_transfer {s t : System} (h : SystemOk s) {env : BatchEnv}
    (hs : step s (.transfer env) = some t) : Steady s t ∧ Effect s t (.transfer env) := by
  simp only [step] at hs
  split at hs
  swap
  · cases hs
  next b run hcopied =>
  have hflag : s.v.cacheFlushInProgress = true := h.flag.mpr (by rw [hcopied]; exact nofun)
  have hw := flushWrite_spec h.volume env s.d b (h.batch b run (Or.inl hcopied)).1
  generalize flushWrite env s.v s.d b run = r at hs hw
  obtain ⟨ok, d'⟩ := r
  cases ok with
  | true =>
    obtain rfl := Option.some.inj hs
    exact ⟨⟨SameLayout.refl _, rfl, flag_busy hflag nofun⟩,
      .transfer env b run true rfl hcopied hw rfl⟩
  | false =>
    obtain rfl := Option.some.inj hs
    exact ⟨⟨SameLayout.refl _, rfl, flag_busy hflag nofun⟩,
      .transfer env b run false rfl hcopied hw rfl⟩

theorem step_clear {s t : System} (h : SystemOk s) (hs : step s .clear = some t) :
    Steady s t ∧ Effect s t .clear := by
  simp only [step] at hs
  split at hs
  swap
  · cases hs
  next b run hwritten =>
  have hflag : s.v.cacheFlushInProgress = true := h.flag.mpr (by rw [hwritten]; exact nofun)
  obtain rfl := Option.some.inj hs
  exact ⟨⟨sameLayout_cache _ _, rfl, flag_busy hflag nofun⟩,
    .clear b run rfl rfl hwritten rfl⟩

/-- Every step of a reachable system has one of the effects. -/
theorem step_effect {s t : System} (h : SystemOk s) {l : Label} (hs : step s l = some t) :
    Steady s t ∧ Effect s t l := by
  cases l with
  | read io buffer vo length => exact step_read h hs
  | cacheWrite c => exact step_cacheWrite h hs
  | write seen io c ok => exact step_write h hs
  | begin who => exact step_begin h hs
  | scan env => exact step_scan h hs
  | transfer env => exact step_transfer h hs
  | clear => exact step_clear h hs

/-! ### Runs -/

/-- The parts of a cache no step changes. -/
structure SameShape (c e : RamCache) : Prop where
  allocated : e.allocated = c.allocated
  blockSize : e.blockSize = c.blockSize
  count : e.blockCount = c.blockCount
  size : e.cacheSizeBytes = c.cacheSizeBytes
  flushBuffer : e.flushBufferSize = c.flushBufferSize

theorem SameShape.ok {c e : RamCache} (h : SameShape c e) (hc : CacheOk c) : CacheOk e :=
  ⟨h.allocated.trans hc.allocated, h.blockSize.trans hc.blockSize, h.count ▸ hc.count,
    by rw [h.size, h.count]; exact hc.size, h.flushBuffer.trans hc.flushBuffer⟩

theorem sameShape_withFlush (v : StripeVolume) (dirty : ℕ → Bool) (copy : Buf) :
    SameShape v.cache (withFlush v dirty copy).cache := ⟨rfl, rfl, rfl, rfl, rfl⟩

theorem Effect.shape {s t : System} {l : Label} (h : Effect s t l) :
    SameShape s.v.cache t.v.cache := by
  cases h with
  | quiet _ _ hcache =>
    obtain ⟨_, _, hcache⟩ := hcache
    rw [hcache]
    exact ⟨rfl, rfl, rfl, rfl, rfl⟩
  | cached _ _ _ _ _ hcache | direct _ _ _ _ _ hcache | start _ hcache | pass _ _ hcache
  | finish _ _ hcache | transfer _ _ _ _ hcache | clear _ _ hcache =>
    rw [hcache]
    exact ⟨rfl, rfl, rfl, rfl, rfl⟩
  | copy _ b run hcache =>
    rw [hcache]
    exact sameShape_withFlush _ _ _

theorem Effect.dirty_valid {s t : System} {l : Label} (h : Effect s t l)
    (hs : ∀ b, s.v.cache.dirtyMap b = true → s.v.cache.validMap b = true) :
    ∀ b, t.v.cache.dirtyMap b = true → t.v.cache.validMap b = true := by
  cases h with
  | quiet _ _ hcache =>
    obtain ⟨_, _, hcache⟩ := hcache
    rw [hcache]
    exact hs
  | direct _ _ _ _ _ hcache | start _ hcache | pass _ _ hcache | copy _ _ _ hcache
  | finish _ _ hcache | transfer _ _ _ _ hcache =>
    rw [hcache]
    exact hs
  | cached _ c _ _ _ hcache =>
    rw [hcache]
    intro b hb
    simp only [stored, Bool.or_eq_true] at hb ⊢
    exact hb.imp_left (hs b)
  | clear b run hcache =>
    rw [hcache]
    intro i hi
    exact hs i ((Bool.and_eq_true _ _).mp hi).1

theorem SystemOk.step {s t : System} (h : SystemOk s) {l : Label} (hs : Cache.step s l = some t) :
    SystemOk t := by
  obtain ⟨hsteady, he⟩ := step_effect h hs
  have hshape := he.shape
  refine ⟨h.volume.of_same hsteady.layout (hshape.ok h.volume.cache)
    (hsteady.enabled.trans h.volume.enabled), he.dirty_valid h.dirty, hsteady.flag, ?_⟩
  intro b run hb
  -- only a copy starts a batch; until it is cleared, its blocks stay dirty
  have hkeep : (s.flush = .copied b run ∨ s.flush = .written b run) →
      (∀ i, s.v.cache.dirtyMap i = true → t.v.cache.dirtyMap i = true) →
      run ≤ 256 ∧ ∀ i < run, b + i < t.v.cache.blockCount ∧ t.v.cache.dirtyMap (b + i) = true := by
    intro hflush hd
    obtain ⟨h1, h2⟩ := h.batch b run hflush
    refine ⟨h1, fun i hi => ?_⟩
    rw [hshape.count]
    exact ⟨(h2 i hi).1, hd _ (h2 i hi).2⟩
  cases he with
  | quiet _ _ hcache _ hflush =>
    obtain ⟨_, _, hcache⟩ := hcache
    rw [hflush] at hb
    exact hkeep hb fun i hi => by rw [hcache]; exact hi
  | cached _ c _ _ _ hcache _ hflush =>
    rw [hflush] at hb
    exact hkeep hb fun i hi => by
      rw [hcache]
      exact (Bool.or_eq_true _ _).mpr (Or.inl hi)
  | direct _ _ _ _ _ hcache _ _ hflush =>
    rw [hflush] at hb
    exact hkeep hb fun i hi => by rw [hcache]; exact hi
  | start _ _ _ _ hflush | pass _ _ _ _ _ _ hflush | finish _ _ _ _ _ _ hflush
  | clear _ _ _ _ _ hflush =>
    rw [hflush] at hb
    rcases hb with hb | hb <;> cases hb
  | copy env b' run' hcache _ _ hrun hdirty hflush =>
    rw [hflush] at hb
    split at hb
    · rcases hb with hb | hb
      · obtain ⟨rfl, rfl⟩ := FlushPc.copied.inj hb
        rw [hcache, copied_count, copied_dirty]
        exact ⟨hrun.2, hdirty⟩
      · cases hb
    · rcases hb with hb | hb <;> cases hb
  | transfer _ b' run' ok hcache hcopied _ hflush =>
    rw [hflush] at hb
    split at hb
    · rcases hb with hb | hb
      · cases hb
      · obtain ⟨rfl, rfl⟩ := FlushPc.written.inj hb
        exact hkeep (Or.inl hcopied) fun i hi => by rw [hcache]; exact hi
    · rcases hb with hb | hb <;> cases hb

/-- A reachable state, seen from the state the run started in. -/
structure Reached (s t : System) : Prop where
  ok : SystemOk t
  layout : SameLayout s.v t.v
  shape : SameShape s.v.cache t.v.cache

theorem Reached.step {s t u : System} (h : Reached s t) {l : Label} (hs : Cache.step t l = some u) :
    Reached s u := by
  obtain ⟨hsteady, he⟩ := step_effect h.ok hs
  have hshape := he.shape
  exact ⟨h.ok.step hs, h.layout.trans hsteady.layout,
    ⟨hshape.allocated.trans h.shape.allocated, hshape.blockSize.trans h.shape.blockSize,
      hshape.count.trans h.shape.count, hshape.size.trans h.shape.size,
      hshape.flushBuffer.trans h.shape.flushBuffer⟩⟩

theorem SystemOk.reached {s : System} (h : SystemOk s) : Reached s s :=
  ⟨h, SameLayout.refl _, ⟨rfl, rfl, rfl, rfl, rfl⟩⟩

theorem SystemOk.run {s t : System} (h : SystemOk s) {ls : List Label}
    (hr : Base.run Cache.step s ls = some t) : Reached s t :=
  run_preserves (fun _ _ _ hi hs => hi.step hs) h.reached hr

def pairSystem : System := ⟨pairCached, pairDisks, .idle, .thread, false⟩

theorem pairSystem_started : Started pairSystem :=
  ⟨pairCached_ok, fun _ => rfl, fun _ => rfl, rfl, rfl, rfl⟩

end RaidTest.Cache
