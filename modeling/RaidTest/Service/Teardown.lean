import RaidTest.Cache.Finish

/-!
# Giving up the cache (`cleanup.c`, `volume_manager.c`, `raid_service.c`)

The cache goes with `raid_cache off`, `raid_unmount` and `raid_destroy`. On the way it is
flushed once, with the mapping of a stripe volume and without a look at what failed; the
unmount leaves even that out when the service has no handle of the flush thread.
-/

namespace RaidTest.Service
open RaidTest.Base RaidTest.Stripe RaidTest.Mirror RaidTest.Cache

/-! ### The service -/

/-- `RAID_STATE`. -/
inductive RaidState where
  | disconnected
  | discovered
  | initialized
  | mounted
  | degraded
  | recovering
  | unmounted
  deriving Repr, DecidableEq

/-- `RC`, as far as these commands use it. -/
inductive RC where
  | ok
  | errInvalidState
  | errInvalidArg
  | errCache
  | errAlready
  | errInvalidDisk
  | errNotFound
  | errIo
  | errRollback
  | errMount
  deriving Repr, DecidableEq

/-- `APP_STATE`, as far as these commands use it; `flushThread` is `cache.flush_thread != NULL`. -/
structure AppState where
  sys : System
  volumeValid : Bool
  cacheOn : Bool
  cacheMb : ℕ
  flushThread : Bool
  mounted : Bool
  state : RaidState

def AppState.volume (s : AppState) : StripeVolume := s.sys.v

def cacheDefaultMb : ℕ := 4096

/-- `cleanup_volume_cache`, from the end of the wait for the flush thread on. A flush
another thread is in makes `cache_flush_all` return at once; `cache_flush_wait` waits for
it to end. -/
def cleanupVolumeCache (env : ℕ → BatchEnv) (s : System) : System :=
  if s.v.cacheEnabled = false then s
  else
    let cache := { s.v.cache with threadStop := true, flushThread := false }
    let (v, d) := cacheFlushAll env { s.v with cache := cache } s.d
    let s := finishFlush env { s with v := v, d := d }
    { s with v := { s.v with cache := cacheDestroy s.v.cache, cacheEnabled := false } }

/-- `stripe_volume_destroy`. -/
def stripeVolumeDestroy (s : System) : System :=
  let info := fun i =>
    if (List.range s.v.diskCount).any (fun j => s.v.diskAt j == i) then
      { s.d.info i with hasHandle := false }
    else s.d.info i
  { s with v := { s.v with workerState := none }, d := { s.d with info := info } }

/-- `volume_unmount`. -/
def volumeUnmount (env : ℕ → BatchEnv) (s : AppState) : AppState :=
  let sys := if s.flushThread then cleanupVolumeCache env s.sys else s.sys
  { s with sys := stripeVolumeDestroy sys, flushThread := false, mounted := false, cacheOn := false }

/-- The first argument of the `cache` command; a size comes with what `safe_atou32` made
of it. -/
inductive CacheArg where
  | wt
  | off
  | default
  | size (mb : Option ℕ)
  deriving Repr, DecidableEq

/-- `raid_cache_locked`; `thread` tells whether `_beginthreadex` gives a handle. -/
def raidCache (env : ℕ → BatchEnv) (m : CacheAlloc) (thread : Bool) (arg : CacheArg) (s : AppState) :
    RC × AppState :=
  if s.state ≠ .mounted then (.errInvalidState, s)
  else
    let init := fun mb =>
      if s.cacheOn then (RC.errAlready, s)
      else
        let mb := if mb < 256 then 256 else mb
        match cacheInit m s.sys.v.cache (mb * 1024 * 1024) with
        | (false, cache) => (.errCache, { s with sys := { s.sys with v := { s.sys.v with cache := cache } } })
        | (true, cache) =>
          let v := { s.sys.v with cache := { cache with flushThread := thread }, cacheEnabled := true }
          (.ok, { s with
            sys := { s.sys with v := v }, cacheOn := true, cacheMb := mb, flushThread := thread })
    match arg with
    | .wt =>
      if s.cacheOn = false then (.errInvalidState, s)
      else
        let cache := { s.sys.v.cache with writeThrough := !s.sys.v.cache.writeThrough }
        (.ok, { s with sys := { s.sys with v := { s.sys.v with cache := cache } } })
    | .off =>
      if s.cacheOn = false then (.errAlready, s)
      else (.ok, { s with
        sys := cleanupVolumeCache env s.sys, flushThread := false, cacheOn := false })
    | .default => init cacheDefaultMb
    | .size none => if s.cacheOn then (.errAlready, s) else (.errInvalidArg, s)
    | .size (some mb) => init mb

/-- `raid_unmount`. -/
def raidUnmount (env : ℕ → BatchEnv) (s : AppState) : RC × AppState :=
  if s.state ≠ .mounted then (.errInvalidState, s)
  else (.ok, { volumeUnmount env s with state := .unmounted, volumeValid := false })

/-- `raid_destroy`; the pool files it deletes afterwards keep their bytes here. -/
def raidDestroy (env : ℕ → BatchEnv) (s : AppState) : RC × AppState :=
  if s.state ≠ .mounted ∧ s.state ≠ .unmounted then (.errInvalidState, s)
  else (.ok, { volumeUnmount env s with state := .discovered, volumeValid := false })

/-- The commands that give up the cache. -/
inductive Release where
  | cacheOff
  | unmount
  | destroy
  deriving Repr, DecidableEq

def Release.run (env : ℕ → BatchEnv) (s : AppState) : Release → RC × AppState
  | .cacheOff => raidCache env .good true .off s
  | .unmount => raidUnmount env s
  | .destroy => raidDestroy env s

/-- The command goes through `cleanup_volume_cache`. -/
def Release.flushes (s : AppState) : Release → Bool
  | .cacheOff => true
  | .unmount => s.flushThread
  | .destroy => s.flushThread

/-! ### A mirror is never flushed -/

theorem mapLba_mirror {v : StripeVolume} (h : v.phaseCount = 0) (vo length : ℕ) :
    mapLba v vo length = none := by
  unfold mapLba
  split
  · rfl
  next hg =>
  have hpos : (if u64 (vo + length) > v.virtualTotalBytes then v.virtualTotalBytes - vo else length) > 0 := by
    split <;> omega
  unfold mapLbaLoop
  simp only
  rw [if_pos ⟨hpos, by decide⟩]
  have hnone : mapSingleByte v vo = none := by
    unfold mapSingleByte
    rw [h]
    split <;> rfl
  rw [hnone]

theorem flushScan_layout {env : BatchEnv} {v w : StripeVolume} {b : ℕ}
    (h : (∃ b', flushScan env v b = .next b' w) ∨ ∃ run, flushScan env v b = .batch run w) :
    SameLayout v w := by
  unfold flushScan at h
  split at h
  · rcases h with ⟨_, h⟩ | ⟨_, h⟩
    · obtain ⟨_, rfl⟩ := Scan.next.inj h
      exact SameLayout.refl _
    · cases h
  simp only at h
  split at h
  · rcases h with ⟨_, h⟩ | ⟨_, h⟩
    · obtain ⟨_, rfl⟩ := Scan.next.inj h
      exact SameLayout.refl _
    · cases h
  split at h
  · rcases h with ⟨_, h⟩ | ⟨_, h⟩
    · obtain ⟨_, rfl⟩ := Scan.next.inj h
      exact SameLayout.refl _
    · cases h
  split at h
  · rcases h with ⟨_, h⟩ | ⟨_, h⟩
    · obtain ⟨_, rfl⟩ := Scan.next.inj h
      exact sameLayout_cache _ _
    · cases h
  · rcases h with ⟨_, h⟩ | ⟨_, h⟩
    · cases h
    · obtain ⟨_, rfl⟩ := Scan.batch.inj h
      exact sameLayout_cache _ _

theorem flushWrite_mirror {v : StripeVolume} (h : v.phaseCount = 0) (env : BatchEnv) (d : Disks)
    (b run : ℕ) : flushWrite env v d b run = (false, d) := by
  unfold flushWrite
  rw [mapLba_mirror h]

theorem flushLoop_mirror (env : ℕ → BatchEnv) (fuel : ℕ) : ∀ {b : ℕ} {v : StripeVolume} (d : Disks),
    v.phaseCount = 0 →
      (flushLoop env fuel b v d).1.phaseCount = 0 ∧ (flushLoop env fuel b v d).2 = d := by
  induction fuel with
  | zero => intro b v d h; exact ⟨h, rfl⟩
  | succ fuel ih =>
    intro b v d h
    unfold flushLoop
    split
    · cases hs : flushScan (env b) v b with
      | next b' w => exact ih d ((flushScan_layout (Or.inl ⟨_, hs⟩)).phaseCount.trans h)
      | batch run w =>
        have hw : w.phaseCount = 0 := (flushScan_layout (Or.inr ⟨_, hs⟩)).phaseCount.trans h
        simp only [flushWrite_mirror hw]
        exact ih d hw
    · exact ⟨h, rfl⟩

theorem cacheFlushAll_mirror (env : ℕ → BatchEnv) {v : StripeVolume} (d : Disks) (h : v.phaseCount = 0) :
    (cacheFlushAll env v d).1.phaseCount = 0 ∧ (cacheFlushAll env v d).2 = d := by
  unfold cacheFlushAll
  split
  · exact ⟨h, rfl⟩
  · exact flushLoop_mirror env _ d h

theorem finishFlush_mirror (env : ℕ → BatchEnv) {s : System} (h : s.v.phaseCount = 0) :
    (finishFlush env s).d = s.d := by
  unfold finishFlush finishLoop
  split
  · rfl
  · exact (flushLoop_mirror env _ _ h).2
  · rw [flushWrite_mirror h]
    exact (flushLoop_mirror env _ _ h).2
  · next b run _ =>
    have hclear : (flushClear s.v b run).phaseCount = 0 := h
    exact (flushLoop_mirror env _ _ hclear).2

theorem cleanup_mirror (env : ℕ → BatchEnv) {s : System} (h : s.v.phaseCount = 0) :
    (cleanupVolumeCache env s).d = s.d := by
  unfold cleanupVolumeCache
  split
  · rfl
  obtain ⟨h1, h2⟩ := cacheFlushAll_mirror env (v := { s.v with
    cache := { s.v.cache with threadStop := true, flushThread := false } }) s.d h
  exact (finishFlush_mirror env h1).trans h2

/-! ### A stripe volume -/

/-- What the commands find: a stripe volume under its cache, or a mirror. -/
def ServiceOk (s : System) : Prop :=
  match s.v.raidLevel with
  | .stripe => SystemOk s
  | .mirror => s.v.phaseCount = 0

theorem pending_same {s t : System} (hl : SameLayout s.v t.v) (hf : t.flush = s.flush) (hd : t.d = s.d)
    (hc : SameFrom 0 s.v.cache t.v.cache) (hbuf : t.v.cache.buffer = s.v.cache.buffer)
    (hfb : t.v.cache.flushBuffer = s.v.cache.flushBuffer) : pending t = pending s := by
  have hfrom : ∀ b, SameFrom b s.v.cache t.v.cache := fun b =>
    ⟨hc.count, hc.size, fun i _ => hc.dirty i (Nat.zero_le i)⟩
  have hahead : ahead t = ahead s := by
    unfold ahead
    rw [hf, hl.total, hc.count, (hfrom _).batchesFrom]
  have harriving : arriving t = arriving s := by
    funext x
    unfold arriving
    rw [hf, hl.mapLba, hl.vbyte, hd, hfb]
  funext x
  unfold pending
  rw [inBatches_same hl, hahead, harriving, hbuf]

theorem cleanup_byte (env : ℕ → BatchEnv) {s : System} (h : SystemOk s)
    (henv : ∀ b, (env b).Succeeds) :
    ∀ x < s.v.virtualTotalBytes, vbyte s.v (cleanupVolumeCache env s).d x = pending s x := by
  intro x hx
  generalize hc : ({ s.v.cache with threadStop := true, flushThread := false } : RamCache) = cache
  have hsame : SameLayout s.v { s.v with cache := cache } := sameLayout_cache _ _
  have hcache : SameShape s.v.cache cache := hc ▸ ⟨rfl, rfl, rfl, rfl, rfl⟩
  have hs : SystemOk { s with v := { s.v with cache := cache } } :=
    ⟨h.volume.of_same hsame (hcache.ok h.volume.cache) h.volume.enabled, hc ▸ h.dirty, h.flag, hc ▸ h.batch⟩
  have hpend : pending { s with v := { s.v with cache := cache } } = pending s :=
    pending_same hsame rfl rfl ⟨hcache.count, hcache.blockSize, fun i _ => hc ▸ rfl⟩ (hc ▸ rfl) (hc ▸ rfl)
  unfold cleanupVolumeCache
  rw [if_neg (by rw [h.volume.enabled]; decide)]
  simp only [hc]
  rw [← hpend]
  by_cases hidle : s.flush = .idle
  · have hf : s.v.cacheFlushInProgress = false := by
      by_contra hf
      exact h.flag.mp (by simpa using hf) hidle
    have hflush := (cacheFlushAll_spec env henv s.d hs.volume hf).stored x hx
    simp only [hsame.vbyte] at hflush
    simp only [finishFlush, pending, ahead, arriving, hidle, hsame.vbyte]
    exact hflush
  · have hf := h.flag.mpr hidle
    have hskip : cacheFlushAll env { s.v with cache := cache } s.d = ({ s.v with cache := cache }, s.d) := by
      unfold cacheFlushAll
      rw [if_pos hf]
    simp only [hskip]
    have hfin := finishFlush_byte hs henv hidle x hx
    rw [hsame.vbyte] at hfin
    exact hfin

/-! ### The commands -/

theorem stripeVolumeDestroy_healthy (s : System) (i : DiskId) :
    ((stripeVolumeDestroy s).d.info i).healthy = (s.d.info i).healthy := by
  unfold stripeVolumeDestroy
  simp only
  split <;> rfl

theorem release_disks (env : ℕ → BatchEnv) (s : AppState) (op : Release) (hop : (op.run env s).1 = .ok) :
    (op.run env s).2.sys.d.pool =
        (if op.flushes s then cleanupVolumeCache env s.sys else s.sys).d.pool ∧
      ∀ i, ((op.run env s).2.sys.d.info i).healthy =
        ((if op.flushes s then cleanupVolumeCache env s.sys else s.sys).d.info i).healthy := by
  cases op with
  | cacheOff =>
    simp only [Release.run, raidCache] at hop ⊢
    split at hop
    · cases hop
    next hstate =>
    split at hop
    · cases hop
    next hon =>
    rw [if_neg hstate, if_neg hon]
    exact ⟨rfl, fun _ => rfl⟩
  | unmount =>
    simp only [Release.run, raidUnmount] at hop ⊢
    split at hop
    · cases hop
    next hstate =>
    rw [if_neg hstate]
    exact ⟨rfl, stripeVolumeDestroy_healthy _⟩
  | destroy =>
    simp only [Release.run, raidDestroy] at hop ⊢
    split at hop
    · cases hop
    next hstate =>
    rw [if_neg hstate]
    exact ⟨rfl, stripeVolumeDestroy_healthy _⟩

theorem release_mirror (env : ℕ → BatchEnv) (s : AppState) (op : Release)
    (h : s.sys.v.phaseCount = 0) (hop : (op.run env s).1 = .ok) :
    (op.run env s).2.sys.d.pool = s.sys.d.pool := by
  rw [(release_disks env s op hop).1]
  split
  · rw [cleanup_mirror env h]
  · rfl

theorem durable_stripe {v : StripeVolume} (h : v.raidLevel = .stripe) (d : Disks) (x : ℕ) (val : Byte) :
    Durable v d x val ↔ vbyte v d x = val := by
  unfold Durable
  rw [h]

theorem durable_mirror {v : StripeVolume} (h : v.raidLevel = .mirror) (d : Disks) (x : ℕ) (val : Byte) :
    Durable v d x val ↔
      ∀ i < v.diskCount, (d.info (v.diskAt i)).healthy = true → d.pool (v.diskAt i) x = val := by
  unfold Durable
  rw [h]

/-- A command that gives up the cache leaves every dirty byte on the members if and only if
the flush it makes stores the byte there, or it was there before. -/
theorem release_durable (env : ℕ → BatchEnv) (s : AppState) (op : Release) (hs : ServiceOk s.sys)
    (henv : ∀ b, (env b).Succeeds) (hop : (op.run env s).1 = .ok) :
    (∀ x < s.sys.v.virtualTotalBytes, s.sys.v.cache.dirtyMap (x / 65536) = true →
        Durable s.sys.v (op.run env s).2.sys.d x (s.sys.v.cache.buffer x)) ↔
      ∀ x < s.sys.v.virtualTotalBytes, s.sys.v.cache.dirtyMap (x / 65536) = true →
        if s.sys.v.raidLevel = .stripe ∧ op.flushes s = true then
          pending s.sys x = s.sys.v.cache.buffer x
        else Durable s.sys.v s.sys.d x (s.sys.v.cache.buffer x) := by
  obtain ⟨hpool, hinfo⟩ := release_disks env s op hop
  refine forall_congr' fun x => forall_congr' fun hx => forall_congr' fun _ => ?_
  cases hl : s.sys.v.raidLevel with
  | stripe =>
    have hok : SystemOk s.sys := by
      unfold ServiceOk at hs
      rw [hl] at hs
      exact hs
    rw [durable_stripe hl, durable_stripe hl, vbyte_pool s.sys.v hpool]
    cases hf : op.flushes s with
    | true =>
      simp only [and_self, ite_true]
      rw [cleanup_byte env hok henv x hx]
    | false => simp only [Bool.false_eq_true, and_false, ite_false]
  | mirror =>
    have hok : s.sys.v.phaseCount = 0 := by
      unfold ServiceOk at hs
      rw [hl] at hs
      exact hs
    have hd : (if op.flushes s then cleanupVolumeCache env s.sys else s.sys).d = s.sys.d := by
      split
      · exact cleanup_mirror env hok
      · rfl
    rw [hd] at hpool hinfo
    rw [durable_mirror hl, durable_mirror hl, if_neg (by rintro ⟨hf, _⟩; cases hf), hpool]
    simp only [hinfo]

/-- `raid_cache` switches the cache of an idle stripe volume on. -/
theorem raidCache_started {env : ℕ → BatchEnv} {m : CacheAlloc} {thread : Bool} {mb : ℕ}
    {s t : AppState} (hready : Ready s.sys.v) (hl : s.sys.v.raidLevel = .stripe)
    (hf : s.sys.v.cacheFlushInProgress = false) (hidle : s.sys.flush = .idle)
    (hg : s.sys.gFlush = false) (h : raidCache env m thread (.size (some mb)) s = (.ok, t)) :
    Started t.sys := by
  simp only [raidCache] at h
  split at h
  · cases h
  split at h
  · cases h
  split at h
  · cases h
  next cache hinit =>
  obtain ⟨_, rfl⟩ := Prod.mk.inj h
  obtain ⟨hok, hdirty, hvalid, _⟩ := cacheInit_ok hinit
  have hsame : SameLayout s.sys.v { s.sys.v with
      cache := { cache with flushThread := thread }, cacheEnabled := true } :=
    ⟨rfl, rfl, rfl, rfl, rfl, rfl, rfl, rfl⟩
  exact ⟨⟨hsame.ready hready, hl,
    ⟨hok.allocated, hok.blockSize, hok.count, hok.size, hok.flushBuffer⟩, rfl⟩, hdirty, hvalid, hf,
    hidle, hg⟩

/-- A mirror of the two disks in the service, no cache yet. -/
def mirrorService : Option AppState :=
  (mirrorVolumeCreate pairDisks [0, 1]).map fun (v, d) =>
    ⟨⟨v, d, .idle, .thread, false⟩, true, false, 0, false, false, .mounted⟩

/-- The least cache over a mirror, one byte written and acknowledged, then the unmount:
both members are healthy and neither has the byte. -/
theorem release_durable_fails :
    ∃ s0 s1 v d, mirrorService = some s0 ∧
      raidCache (fun _ => .good) .good true (.size (some 256)) s0 = (.ok, s1) ∧
      stripeVolumeWrite .good s1.sys.v s1.sys.d (fun _ => 9) 0 1 = some (true, v, d) ∧
      v.cache.dirtyMap 0 = true ∧ v.cache.buffer 0 = 9 ∧
      (∀ i < 2, (d.info (v.diskAt i)).healthy = true) ∧
      (Release.unmount.run (fun _ => .good) { s1 with sys := { s1.sys with v := v, d := d } }).1 = .ok ∧
      (Release.unmount.run (fun _ => .good)
        { s1 with sys := { s1.sys with v := v, d := d } }).2.sys.d.pool 0 0 = 1 := by
  refine ⟨_, _, _, _, rfl, rfl, rfl, by decide, by decide, by decide, rfl, ?_⟩
  rw [release_mirror _ _ _ rfl rfl]
  decide

/-- The stripe volume of the two disks after one byte was written to its cache. -/
def dirtySystem : System := (run Cache.step pairSystem [.cacheWrite ⟨fun _ => 9, 0, 1⟩]).getD pairSystem

theorem dirtySystem_ok : SystemOk dirtySystem :=
  have hrun : run Cache.step pairSystem [.cacheWrite ⟨fun _ => 9, 0, 1⟩] = some dirtySystem := rfl
  (pairSystem_started.ok.run hrun).ok

def dirtyService : AppState := ⟨dirtySystem, true, true, 1, true, false, .mounted⟩

/-- The unmount writes the block of the byte. -/
theorem release_durable_sample : dirtySystem.v.cache.dirtyMap 0 = true ∧ dirtySystem.v.cache.buffer 0 = 9 ∧
    Durable dirtySystem.v (Release.unmount.run (fun _ => .good) dirtyService).2.sys.d 0 9 := by
  have hrest : ∀ b < 4, dirtySystem.v.cache.dirtyMap b = true → inBatches dirtySystem.v (ahead dirtySystem) b = true := by
    decide
  have hdurable := (release_durable (fun _ => .good) dirtyService .unmount dirtySystem_ok
    (fun _ => BatchEnv.good_succeeds) rfl).mpr ?_
  · exact ⟨by decide, by decide, hdurable 0 (by decide) (by decide)⟩
  · intro x hx hdirty
    have htotal : dirtySystem.v.virtualTotalBytes = 262144 := by decide
    have hx' : x < 262144 := htotal ▸ hx
    have hin : inBatches dirtySystem.v (ahead dirtySystem) (x / 65536) = true := hrest _ (by omega) hdirty
    rw [if_pos ⟨rfl, rfl⟩]
    exact if_pos hin

end RaidTest.Service
