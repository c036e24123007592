import RaidTest.Cache.FlushSpec
import RaidTest.Stripe.Entries

/-!
# A flush that nothing disturbs

When every journal record and every transfer succeeds and the dirty blocks lie inside the
volume, the batches of a flush hold every dirty block and, with the default stripe unit, each
of them can be mapped. The flush leaves a clean cache and changes the bytes of the dirty
blocks only.
-/

namespace RaidTest.Cache
open RaidTest.Base RaidTest.Stripe

/-! ### The batches hold the dirty blocks -/

theorem batchesFrom_mem {c : RamCache} {total fuel b : ℕ} {p : ℕ × ℕ} (h : p ∈ batchesFrom c total fuel b) :
    0 < p.2 ∧ p.2 ≤ 256 ∧ ∀ i < p.2, p.1 + i < c.blockCount ∧ c.dirtyMap (p.1 + i) = true := by
  induction fuel generalizing b with
  | zero => cases h
  | succ fuel ih =>
    unfold batchesFrom at h
    split at h
    · next hb =>
      split at h
      · next hd =>
        rcases List.mem_cons.mp h with rfl | hm
        · exact batchRun_spec total hb hd
        · exact ih hm
      · exact ih h
    · cases h

theorem batchesFrom_covers {c : RamCache} (total : ℕ) {fuel b i : ℕ} (hfuel : c.blockCount ≤ b + fuel) (hbi : b ≤ i)
    (hi : i < c.blockCount) (hd : c.dirtyMap i = true) :
    ∃ p ∈ batchesFrom c total fuel b, p.1 ≤ i ∧ i < p.1 + p.2 := by
  induction fuel generalizing b with
  | zero => omega
  | succ fuel ih =>
    have hb : b < c.blockCount := by omega
    unfold batchesFrom
    rw [if_pos hb]
    split
    · next hdb =>
      obtain ⟨hpos, _, _⟩ := batchRun_spec total hb hdb
      by_cases hin : i < b + batchRun c total b
      · exact ⟨_, List.mem_cons_self .., hbi, hin⟩
      · obtain ⟨p, hp, hpi⟩ := ih (by omega) (show b + batchRun c total b ≤ i by omega)
        exact ⟨p, List.mem_cons_of_mem _ hp, hpi⟩
    · next hdb =>
      have hne : b ≠ i := by
        rintro rfl
        exact hdb hd
      exact ih (by omega) (by omega)

/-- Every dirty block inside the volume. -/
def DirtyInside (v : StripeVolume) : Prop :=
  ∀ b, v.cache.dirtyMap b = true → b < v.cache.blockCount ∧ (b + 1) * 65536 ≤ v.virtualTotalBytes

/-- A flush stores exactly the dirty blocks. -/
theorem flushable_eq {v : StripeVolume} (h : Laid v) (hu : v.stripeUnit = defaultStripeUnit) (hd : DirtyInside v) :
    flushable v = v.cache.dirtyMap := by
  funext b
  rw [Bool.eq_iff_iff]
  unfold flushable inBatches
  rw [List.any_eq_true]
  simp only [Bool.and_eq_true, decide_eq_true_eq]
  constructor
  · rintro ⟨p, hp, ⟨hlo, hhi⟩, _⟩
    have hrun := (batchesFrom_mem hp).2.2 (b - p.1) (by omega)
    rw [show p.1 + (b - p.1) = b by omega] at hrun
    exact hrun.2
  · intro hb
    obtain ⟨p, hp, hpb⟩ := batchesFrom_covers v.virtualTotalBytes (Nat.le_add_left v.cache.blockCount 0)
      (Nat.zero_le b) (hd b hb).1 hb
    obtain ⟨hpos, h256, hrun⟩ := batchesFrom_mem hp
    have hfirst := (hd _ (hrun 0 hpos).2).2
    have hshort : p.2 * 65536 ≤ 16 * v.stripeUnit := by
      rw [hu]
      exact Nat.le_trans (Nat.mul_le_mul_right 65536 h256) (by decide)
    exact ⟨p, hp, hpb, mapLba_short h (by omega) (by omega) hshort (by omega)⟩

/-! ### What a flush leaves alone -/

/-- A pool byte that holds no byte of a dirty block. -/
def OffDirty (v : StripeVolume) (k : DiskId) (p : ℕ) : Prop :=
  ∀ x < v.virtualTotalBytes, v.cache.dirtyMap (x / 65536) = true → vcell v x ≠ (k, p)

theorem OffDirty.withFlush {v : StripeVolume} {k : DiskId} {p : ℕ} (h : OffDirty v k p) {dirty : ℕ → Bool} (copy : Buf)
    (hd : ∀ c, dirty c = true → v.cache.dirtyMap c = true) : OffDirty (withFlush v dirty copy) k p := by
  intro x hx hdx
  rw [(sameLayout_withFlush v dirty copy).vcell]
  exact h x hx (hd _ hdx)

theorem flushLoop_outside (env : ℕ → BatchEnv) {k : DiskId} {p : ℕ} (fuel : ℕ) :
    ∀ {b : ℕ} {v : StripeVolume} (d : Disks), CachedVolume v → OffDirty v k p →
      (flushLoop env fuel b v d).2.pool k p = d.pool k p := by
  induction fuel with
  | zero =>
    intro b v d _ _
    rfl
  | succ fuel ih =>
    intro b v d hv hoff
    by_cases hb : b < v.cache.blockCount
    · cases hd : v.cache.dirtyMap b with
      | false =>
        rw [flushLoop_clean env fuel d hb hd]
        exact ih d hv hoff
      | true =>
        obtain ⟨_, hr256, hrun⟩ := batchRun_spec v.virtualTotalBytes hb hd
        rw [flushLoop_dirty env fuel hv.cache d hb hd rfl]
        generalize batchRun v.cache v.virtualTotalBytes b = run at hr256 hrun
        have hcopy : OffDirty (copied v b run) k p := hoff.withFlush _ fun _ hc => hc
        split
        · exact ih d (hv.withFlush _ _) hcopy
        have hw := flushWrite_copied hv (env b) d b hr256
        -- every byte of the batch is in a dirty block
        have hkept := hw.outside k p fun x h1 h2 => by
          have hx := Nat.lt_min.mp h2
          have hdx := (hrun (x / 65536 - b) (by omega)).2
          rw [show b + (x / 65536 - b) = x / 65536 by omega] at hdx
          exact hoff x hx.2 hdx
        split
        · refine (ih _ (hv.withFlush _ _) (hoff.withFlush _ fun c hc => ?_)).trans hkept
          exact ((Bool.and_eq_true _ _).mp hc).1
        · exact (ih _ (hv.withFlush _ _) hcopy).trans hkept
    · rw [flushLoop, if_neg hb]

/-- The loop has ended when its counter has passed the blocks: more turns change nothing. -/
theorem flushLoop_ends (env : ℕ → BatchEnv) (more fuel : ℕ) :
    ∀ {b : ℕ} {v : StripeVolume} (d : Disks), CacheOk v.cache → v.cache.blockCount ≤ b + fuel →
      flushLoop env (fuel + more) b v d = flushLoop env fuel b v d := by
  induction fuel with
  | zero =>
    intro b v d _ hend
    rw [Nat.zero_add]
    cases more with
    | zero => rfl
    | succ more =>
      unfold flushLoop
      rw [if_neg (by omega)]
  | succ fuel ih =>
    intro b v d hc hfuel
    rw [Nat.succ_add]
    by_cases hb : b < v.cache.blockCount
    · cases hd : v.cache.dirtyMap b with
      | false =>
        rw [Nat.succ_eq_add_one, flushLoop_clean env _ d hb hd, flushLoop_clean env _ d hb hd]
        exact ih d hc (by omega)
      | true =>
        obtain ⟨hpos, _, _⟩ := batchRun_spec v.virtualTotalBytes hb hd
        rw [Nat.succ_eq_add_one, flushLoop_dirty env _ hc d hb hd rfl, flushLoop_dirty env _ hc d hb hd rfl]
        generalize batchRun v.cache v.virtualTotalBytes b = run at hpos
        have hcopy := cacheOk_copied hc b run
        have hclear : CacheOk (flushClear (copied v b run) b run).cache :=
          ⟨hcopy.allocated, hcopy.blockSize, hcopy.count, hcopy.size, hcopy.flushBuffer⟩
        have hleft : (copied v b run).cache.blockCount ≤ b + run + fuel := by
          rw [copied_count]
          omega
        rw [ih d hcopy hleft, ih _ hclear hleft, ih _ hcopy hleft]
    · rw [Nat.succ_eq_add_one, flushLoop, flushLoop, if_neg hb, if_neg hb]

/-- A flush of a volume with the default stripe unit cleans the cache and stores it. -/
theorem cacheFlushAll_cleans (env : ℕ → BatchEnv) (henv : ∀ b, (env b).Succeeds) {v : StripeVolume} (d : Disks)
    (h : CachedVolume v) (hu : v.stripeUnit = defaultStripeUnit) (hf : v.cacheFlushInProgress = false)
    (hd : DirtyInside v) :
    (∀ more, flushLoop env (v.cache.blockCount + more) 0 { v with cacheFlushInProgress := true } d =
      flushLoop env v.cache.blockCount 0 { v with cacheFlushInProgress := true } d) ∧
    (∀ b, (cacheFlushAll env v d).1.cache.dirtyMap b = false) ∧
    (cacheFlushAll env v d).1.cache.buffer = v.cache.buffer ∧
    (cacheFlushAll env v d).1.cache.validMap = v.cache.validMap ∧
    (∀ b, v.cache.dirtyMap b = true → ∀ x, b * 65536 ≤ x → x < (b + 1) * 65536 →
      vbyte v (cacheFlushAll env v d).2 x = v.cache.buffer x) ∧
    ∀ k p, (∀ b, v.cache.dirtyMap b = true → ∀ x, b * 65536 ≤ x → x < (b + 1) * 65536 → vcell v x ≠ (k, p)) →
      (cacheFlushAll env v d).2.pool k p = d.pool k p := by
  obtain ⟨⟨dirty, copy, hw, hdirty⟩, _, hstored⟩ := cacheFlushAll_spec env henv d h hf
  have hall : ∀ b, inBatches v (batchesFrom v.cache v.virtualTotalBytes v.cache.blockCount 0) b = v.cache.dirtyMap b :=
    congrFun (flushable_eq h.ready.laid hu hd)
  refine ⟨fun more => ?_, fun b => ?_, ?_, ?_, fun b hb x h1 h2 => ?_, fun k p hoff => ?_⟩
  · exact flushLoop_ends env more v.cache.blockCount d h.cache (Nat.le_add_left _ _)
  · rw [hw, withFlush_dirty, hdirty b, hall b, Bool.and_not_self]
  · rw [hw, withFlush_buffer]
  · rw [hw, withFlush_valid]
  · have hin := (hd b hb).2
    rw [hstored x (by omega), hall, show x / 65536 = b by omega, hb]
    rfl
  · have hsame : SameLayout v { v with cacheFlushInProgress := true } := ⟨rfl, rfl, rfl, rfl, rfl, rfl, rfl, rfl⟩
    have hout := flushLoop_outside env (k := k) (p := p) v.cache.blockCount (b := 0) d
      (h.of_same hsame h.cache h.enabled) fun x hx hdx => by
        rw [hsame.vcell]
        exact hoff _ hdx x (by omega) (by omega)
    unfold cacheFlushAll
    rw [if_neg (by rw [hf]; decide)]
    exact hout

/-! ### A volume with the default stripe unit -/

def evenLayout : StripeVolume := (buildVolume evenDisks [0, 1] defaultStripeUnit []).getD .zero

def evenVolume : StripeVolume := (stripeVolumeWorkersInit evenLayout).getD .zero

def evenCache : RamCache := (cacheInit .good .zero 131072).2

theorem evenCache_ok : CacheOk evenCache :=
  (cacheInit_ok (show cacheInit .good .zero 131072 = (true, evenCache) from rfl)).1

/-- A cache of two blocks, the second of them written with sevens. -/
def evenDirty : StripeVolume :=
  { evenVolume with
    cache := (cacheWrite evenCache (fun _ => 7) 65536 65536).2
    cacheEnabled := true }

theorem evenVolume_ready : Ready evenVolume := by
  have hb : buildVolume evenDisks [0, 1] defaultStripeUnit [] = some evenLayout := rfl
  have hon := buildVolume_on (by decide) (by decide) (by decide) hb
  exact (workersInit_ready evenVolume hon.laid (hon.members (by decide)) rfl).1

theorem evenDirty_ok : CachedVolume evenDirty where
  ready := (show SameLayout evenVolume evenDirty from ⟨rfl, rfl, rfl, rfl, rfl, rfl, rfl, rfl⟩).ready evenVolume_ready
  level := rfl
  cache := evenCache_ok.write (fun _ => 7) 65536 65536
  enabled := rfl

theorem evenDirty_dirty (b : ℕ) : evenDirty.cache.dirtyMap b = decide (b = 1) := by
  have hlength : 65536 < 2^32 := by decide
  have hend : 65536 + 65536 ≤ evenCache.cacheSizeBytes := by decide
  have hw := cacheWrite_spec evenCache_ok (fun _ => 7) hlength (by decide) hend
  have hclean : evenCache.dirtyMap b = false := rfl
  simp only [evenDirty, hw, hclean, Bool.false_or]
  have ht : Touches 65536 65536 b ↔ b = 1 := by
    unfold Touches
    omega
  exact decide_eq_decide.mpr ht

theorem cacheFlushAll_cleans_sample :
    (∀ b, (cacheFlushAll (fun _ => .good) evenDirty evenDisks).1.cache.dirtyMap b = false) ∧
      vbyte evenDirty (cacheFlushAll (fun _ => .good) evenDirty evenDisks).2 65536 = 7 := by
  obtain ⟨_, hclean, _, _, hstored, _⟩ := cacheFlushAll_cleans (fun _ => .good) (fun _ => BatchEnv.good_succeeds) evenDisks
    evenDirty_ok rfl rfl (fun b hb => by
      rw [evenDirty_dirty, decide_eq_true_eq] at hb
      subst hb
      decide)
  refine ⟨hclean, ?_⟩
  rw [hstored 1 (by rw [evenDirty_dirty]; rfl) 65536 (by decide) (by decide)]
  decide

end RaidTest.Cache
