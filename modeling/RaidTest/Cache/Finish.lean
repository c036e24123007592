import RaidTest.Cache.Machine

/-!
# From the middle of a flush to its end

A flush that nobody disturbs takes the steps of the machine in the order of the loop of
`cache_flush_all`, and what it still stores is fixed by the state it stands in.
-/

namespace RaidTest.Cache
open RaidTest.Base RaidTest.Stripe

/-- The end of `cache_flush_all`, after its loop. -/
def ended (s : System) (r : StripeVolume × Disks) : System :=
  { s with v := setFlag r.1 false, d := r.2, flush := .idle, gFlush := s.gFlush && !s.flusher.guarded }

def finishLoop (env : ℕ → BatchEnv) (s : System) (b : ℕ) : System :=
  ended s (flushLoop env s.v.cache.blockCount b s.v s.d)

/-- The rest of the flush in progress, if there is one. -/
def finishFlush (env : ℕ → BatchEnv) (s : System) : System :=
  match s.flush with
  | .idle => s
  | .scan b => finishLoop env s b
  | .copied b run =>
    match flushWrite (env b) s.v s.d b run with
    | (true, d) => finishLoop env { s with v := flushClear s.v b run, d := d } (b + run)
    | (false, d) => finishLoop env { s with d := d } (b + run)
  | .written b run => finishLoop env { s with v := flushClear s.v b run } (b + run)

/-! ### A flush alone is a run -/

theorem flushScan_count {env : BatchEnv} {v w : StripeVolume} (h : CacheOk v.cache) {b b' : ℕ}
    (hb : b < v.cache.blockCount) (hs : flushScan env v b = .next b' w) :
    b < b' ∧ w.cache.blockCount = v.cache.blockCount := by
  cases hd : v.cache.dirtyMap b with
  | false =>
    rw [flushScan_clean env hd] at hs
    obtain ⟨rfl, rfl⟩ := Scan.next.inj hs
    exact ⟨Nat.lt_succ_self b, rfl⟩
  | true =>
    obtain ⟨h1, _, _⟩ := batchRun_spec v.virtualTotalBytes hb hd
    rw [flushScan_dirty h env hb hd] at hs
    split at hs
    · obtain ⟨rfl, rfl⟩ := Scan.next.inj hs
      exact ⟨by omega, copied_count _ _ _⟩
    · cases hs

theorem flushScan_batch {env : BatchEnv} {v w : StripeVolume} (h : CacheOk v.cache) {b run : ℕ}
    (hb : b < v.cache.blockCount) (hs : flushScan env v b = .batch run w) :
    0 < run ∧ w.cache.blockCount = v.cache.blockCount := by
  cases hd : v.cache.dirtyMap b with
  | false =>
    rw [flushScan_clean env hd] at hs
    cases hs
  | true =>
    obtain ⟨h1, _, _⟩ := batchRun_spec v.virtualTotalBytes hb hd
    rw [flushScan_dirty h env hb hd] at hs
    split at hs
    · cases hs
    · obtain ⟨rfl, rfl⟩ := Scan.batch.inj hs
      exact ⟨h1, copied_count _ _ _⟩

theorem run_flushLoop (env : ℕ → BatchEnv) (fuel : ℕ) : ∀ {s : System} {b : ℕ}, SystemOk s →
    s.flush = .scan b → s.v.cache.blockCount ≤ b + fuel →
    ∃ ls, run step s ls = some (ended s (flushLoop env fuel b s.v s.d)) := by
  induction fuel with
  | zero =>
    intro s b _ hflush hfuel
    refine ⟨[.scan (env b)], (run_cons ..).mpr ⟨_, ?_, rfl⟩⟩
    simp only [step, hflush]
    rw [if_neg (by omega)]
    rfl
  | succ fuel ih =>
    intro s b hs hflush hfuel
    unfold flushLoop
    by_cases hb : b < s.v.cache.blockCount
    · rw [if_pos hb]
      cases hscan : flushScan (env b) s.v b with
      | next b' w =>
        obtain ⟨hlt, hcount⟩ := flushScan_count hs.volume.cache hb hscan
        have hstep : step s (.scan (env b)) = some { s with v := w, flush := .scan b' } := by
          simp only [step, hflush]
          rw [if_pos hb, hscan]
        obtain ⟨ls, hls⟩ := ih (hs.step hstep) rfl (by simp only [hcount]; omega)
        exact ⟨_ :: ls, (run_cons ..).mpr ⟨_, hstep, hls⟩⟩
      | batch run w =>
        obtain ⟨hpos, hcount⟩ := flushScan_batch hs.volume.cache hb hscan
        have hstep : step s (.scan (env b)) = some { s with v := w, flush := .copied b run } := by
          simp only [step, hflush]
          rw [if_pos hb, hscan]
        have hs1 := hs.step hstep
        simp only
        cases hw : flushWrite (env b) w s.d b run with
        | mk ok d =>
          cases ok with
          | false =>
            have hstep2 : step { s with v := w, flush := .copied b run } (.transfer (env b)) =
                some { s with v := w, d := d, flush := .scan (b + run) } := by
              simp only [step, hw]
            obtain ⟨ls, hls⟩ := ih (hs1.step hstep2) rfl (by simp only [hcount]; omega)
            exact ⟨_ :: _ :: ls, (run_cons ..).mpr ⟨_, hstep, (run_cons ..).mpr ⟨_, hstep2, hls⟩⟩⟩
          | true =>
            have hstep2 : step { s with v := w, flush := .copied b run } (.transfer (env b)) =
                some { s with v := w, d := d, flush := .written b run } := by
              simp only [step, hw]
            have hstep3 : step { s with v := w, d := d, flush := .written b run } .clear =
                some { s with v := flushClear w b run, d := d, flush := .scan (b + run) } := rfl
            have hcount3 : (flushClear w b run).cache.blockCount = w.cache.blockCount := rfl
            obtain ⟨ls, hls⟩ := ih ((hs1.step hstep2).step hstep3) rfl
              (by simp only [hcount3, hcount]; omega)
            exact ⟨_ :: _ :: _ :: ls, (run_cons ..).mpr ⟨_, hstep, (run_cons ..).mpr
              ⟨_, hstep2, (run_cons ..).mpr ⟨_, hstep3, hls⟩⟩⟩⟩
    · rw [if_neg hb]
      refine ⟨[.scan (env b)], (run_cons ..).mpr ⟨_, ?_, rfl⟩⟩
      simp only [step, hflush]
      rw [if_neg hb]
      rfl

/-- `cache_flush_all` called while no flush runs is a run of the machine. -/
theorem run_cacheFlushAll (env : ℕ → BatchEnv) {s : System} (h : SystemOk s) (hidle : s.flush = .idle)
    (hg : s.gFlush = false) (who : Flusher) :
    ∃ ls t, run step s (.begin who :: ls) = some t ∧ t.v = (cacheFlushAll env s.v s.d).1 ∧
      t.d = (cacheFlushAll env s.v s.d).2 ∧ t.flush = .idle ∧ t.gFlush = false := by
  have hf : s.v.cacheFlushInProgress = false := by
    by_contra hf
    exact h.flag.mp (by simpa using hf) hidle
  have hstep : step s (.begin who) = some { s with
      v := setFlag s.v true, flush := .scan 0, flusher := who, gFlush := who.guarded } := by
    simp only [step, hg, hf, Bool.and_false, Bool.false_or, Bool.false_eq_true, ite_false]
  obtain ⟨ls, hls⟩ := run_flushLoop env s.v.cache.blockCount (h.step hstep) rfl (Nat.le_add_left _ _)
  refine ⟨ls, _, (run_cons ..).mpr ⟨_, hstep, hls⟩, ?_, ?_, rfl, Bool.and_not_self _⟩
  · unfold cacheFlushAll
    rw [hf]
    rfl
  · unfold cacheFlushAll
    rw [hf]
    rfl

theorem run_finishFlush (env : ℕ → BatchEnv) {s : System} (h : SystemOk s) :
    ∃ ls, run step s ls = some (finishFlush env s) := by
  have hloop : ∀ {t : System} {b : ℕ}, SystemOk t → t.flush = .scan b →
      ∃ ls, run step t ls = some (finishLoop env t b) :=
    fun ht hb => run_flushLoop env _ ht hb (Nat.le_add_left _ _)
  unfold finishFlush
  cases hflush : s.flush with
  | idle => exact ⟨[], rfl⟩
  | scan b => exact hloop h hflush
  | written b run =>
    have hstep : step s .clear = some { s with v := flushClear s.v b run, flush := .scan (b + run) } := by
      simp only [step, hflush]
    obtain ⟨ls, hls⟩ := hloop (h.step hstep) rfl
    exact ⟨_ :: ls, (run_cons ..).mpr ⟨_, hstep, hls⟩⟩
  | copied b run =>
    simp only
    cases hw : flushWrite (env b) s.v s.d b run with
    | mk ok d =>
      cases ok with
      | false =>
        have hstep : step s (.transfer (env b)) = some { s with d := d, flush := .scan (b + run) } := by
          simp only [step, hflush, hw]
        obtain ⟨ls, hls⟩ := hloop (h.step hstep) rfl
        exact ⟨_ :: ls, (run_cons ..).mpr ⟨_, hstep, hls⟩⟩
      | true =>
        have hstep : step s (.transfer (env b)) = some { s with d := d, flush := .written b run } := by
          simp only [step, hflush, hw]
        have hstep2 : step { s with d := d, flush := .written b run } .clear =
            some { s with v := flushClear s.v b run, d := d, flush := .scan (b + run) } := rfl
        obtain ⟨ls, hls⟩ := hloop ((h.step hstep).step hstep2) rfl
        exact ⟨_ :: _ :: ls, (run_cons ..).mpr ⟨_, hstep, (run_cons ..).mpr ⟨_, hstep2, hls⟩⟩⟩

/-! ### What is still stored -/

/-- The batches ahead: those of the flush in progress, or of a new one. -/
def ahead (s : System) : List (ℕ × ℕ) :=
  batchesFrom s.v.cache s.v.virtualTotalBytes s.v.cache.blockCount (match s.flush with
    | .idle => 0
    | .scan b => b
    | .copied b run => b + run
    | .written b run => b + run)

/-- Byte `x` of the members, once a batch on its way has arrived. -/
def arriving (s : System) (x : ℕ) : Byte :=
  match s.flush with
  | .copied b run =>
    if b * 65536 ≤ x ∧ x < (b + run) * 65536 ∧ (mapLba s.v (b * 65536) (run * 65536)).isSome then
      s.v.cache.flushBuffer (x - b * 65536)
    else vbyte s.v s.d x
  | _ => vbyte s.v s.d x

/-- Byte `x` of the members after the flush in progress, or after a new one. -/
def pending (s : System) (x : ℕ) : Byte :=
  if inBatches s.v (ahead s) (x / 65536) then s.v.cache.buffer x else arriving s x

theorem finishLoop_byte {s : System} {env : ℕ → BatchEnv} (henv : ∀ b, (env b).Succeeds) {v : StripeVolume} (hv : CachedVolume v) (hl : SameLayout s.v v) {b : ℕ}
    (hc : SameFrom b s.v.cache v.cache) (hbuf : v.cache.buffer = s.v.cache.buffer) (d : Disks) :
    ∀ x < s.v.virtualTotalBytes, vbyte s.v (finishLoop env { s with v := v, d := d } b).d x =
      if inBatches s.v (batchesFrom s.v.cache s.v.virtualTotalBytes s.v.cache.blockCount b) (x / 65536)
      then s.v.cache.buffer x else vbyte s.v d x := by
  intro x hx
  have hf := (flushLoop_spec env henv v.cache.blockCount d hv (Nat.le_add_left _ b)).stored x
    (by rw [hl.total]; exact hx)
  rw [hl.vbyte, hl.vbyte, inBatches_same hl, hl.total, hc.batchesFrom, hbuf] at hf
  rw [← hc.count]
  exact hf

theorem finishFlush_byte {s : System} (h : SystemOk s) {env : ℕ → BatchEnv}
    (henv : ∀ b, (env b).Succeeds) (hbusy : s.flush ≠ .idle) :
    ∀ x < s.v.virtualTotalBytes, vbyte s.v (finishFlush env s).d x = pending s x := by
  intro x hx
  have hsame : ∀ b, SameFrom b s.v.cache s.v.cache := fun b => ⟨rfl, rfl, fun _ _ => rfl⟩
  have hclear : ∀ b run, SameFrom (b + run) s.v.cache (flushClear s.v b run).cache := by
    intro b run
    refine ⟨rfl, rfl, fun i hi => ?_⟩
    simp only [flushClear, decide_eq_false (show ¬ i < b + run by omega), Bool.and_false,
      Bool.false_and, Bool.not_false, Bool.and_true]
  have hvclear : ∀ b run, CachedVolume (flushClear s.v b run) := fun b run =>
    h.volume.of_same (sameLayout_cache _ _)
      ⟨h.volume.cache.allocated, h.volume.cache.blockSize, h.volume.cache.count,
        h.volume.cache.size, h.volume.cache.flushBuffer⟩ h.volume.enabled
  unfold finishFlush pending ahead arriving
  cases hflush : s.flush with
  | idle => exact absurd hflush hbusy
  | scan b => exact finishLoop_byte henv h.volume (SameLayout.refl _) (hsame b) rfl s.d x hx
  | written b run =>
    exact finishLoop_byte henv (hvclear b run) (sameLayout_cache _ _) (hclear b run) rfl s.d x hx
  | copied b run =>
    simp only
    have hw := flushWrite_spec h.volume (env b) s.d b (h.batch b run (Or.inl hflush)).1
    generalize flushWrite (env b) s.v s.d b run = r at hw
    obtain ⟨ok, d⟩ := r
    have hok := hw.succeeds (henv b)
    simp only at hok
    -- the batch arrives as a whole, or it cannot be mapped and nothing is written
    have harrive : vbyte s.v d x =
        if b * 65536 ≤ x ∧ x < (b + run) * 65536 ∧ (mapLba s.v (b * 65536) (run * 65536)).isSome then
          s.v.cache.flushBuffer (x - b * 65536)
        else vbyte s.v s.d x := by
      split
      · next hin =>
        refine hw.data (hok.trans hin.2.2) x hin.1 ?_
        unfold batchEnd
        omega
      · next hout =>
        by_cases hin : b * 65536 ≤ x ∧ x < (b + run) * 65536
        · have hno : mapLba s.v (b * 65536) (run * 65536) = none := by
            cases hm : mapLba s.v (b * 65536) (run * 65536) with
            | none => rfl
            | some es => exact absurd ⟨hin.1, hin.2, by rw [hm]; rfl⟩ hout
          rw [(Prod.mk.inj (hw.unmapped hno)).2]
        · exact hw.frame x hx (by omega)
    rw [← harrive]
    cases ok with
    | false => exact finishLoop_byte henv h.volume (SameLayout.refl _) (hsame _) rfl d x hx
    | true =>
      exact finishLoop_byte henv (hvclear b run) (sameLayout_cache _ _) (hclear b run) rfl d x hx

end RaidTest.Cache
