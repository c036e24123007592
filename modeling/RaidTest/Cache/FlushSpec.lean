import RaidTest.Cache.Flush
import RaidTest.Stripe.FlatArray

/-!
# What a flush does

The batches of a flush are fixed by the dirty map it starts on. When every journal
record and transfer succeeds, the blocks of the batches that can be mapped are
stored from the cache buffer and become clean, and no other byte changes.
-/

namespace RaidTest.Cache
open RaidTest.Base RaidTest.Stripe

/-- A stripe volume with its cache switched on. -/
structure CachedVolume (v : StripeVolume) : Prop where
  ready : Ready v
  level : v.raidLevel = .stripe
  cache : CacheOk v.cache
  enabled : v.cacheEnabled = true

theorem CachedVolume.of_same {v w : StripeVolume} (h : CachedVolume v) (hs : SameLayout v w)
    (hc : CacheOk w.cache) (he : w.cacheEnabled = true) : CachedVolume w :=
  ⟨hs.ready h.ready, hs.raidLevel.trans h.level, hc, he⟩

/-- The volume with another dirty map and another copy in the flush buffer. -/
def withFlush (v : StripeVolume) (dirty : ℕ → Bool) (copy : Buf) : StripeVolume :=
  { v with cache := { v.cache with dirtyMap := dirty, flushBuffer := copy } }

section WithFlush
variable (v : StripeVolume) (dirty : ℕ → Bool) (copy : Buf)

@[simp] theorem withFlush_dirty : (withFlush v dirty copy).cache.dirtyMap = dirty := rfl
@[simp] theorem withFlush_buffer : (withFlush v dirty copy).cache.buffer = v.cache.buffer := rfl
@[simp] theorem withFlush_valid : (withFlush v dirty copy).cache.validMap = v.cache.validMap := rfl
@[simp] theorem withFlush_count : (withFlush v dirty copy).cache.blockCount = v.cache.blockCount := rfl
@[simp] theorem withFlush_enabled : (withFlush v dirty copy).cacheEnabled = v.cacheEnabled := rfl
@[simp] theorem withFlush_busy :
    (withFlush v dirty copy).cacheFlushInProgress = v.cacheFlushInProgress := rfl
@[simp] theorem withFlush_total : (withFlush v dirty copy).virtualTotalBytes = v.virtualTotalBytes := rfl

theorem flushClear_withFlush (b run : ℕ) :
    flushClear (withFlush v dirty copy) b run =
      withFlush v (fun i => dirty i && !(decide (b ≤ i) && decide (i < b + run) &&
        decide (i < v.cache.blockCount))) copy := rfl

theorem sameLayout_withFlush : SameLayout v (withFlush v dirty copy) := sameLayout_cache v _

end WithFlush

theorem cacheOk_withFlush {v : StripeVolume} (h : CacheOk v.cache) (dirty : ℕ → Bool) (copy : Buf) :
    CacheOk (withFlush v dirty copy).cache :=
  ⟨h.allocated, h.blockSize, h.count, h.size, h.flushBuffer⟩

theorem CachedVolume.withFlush {v : StripeVolume} (h : CachedVolume v) (dirty : ℕ → Bool) (copy : Buf) :
    CachedVolume (withFlush v dirty copy) :=
  h.of_same (sameLayout_withFlush v dirty copy) (cacheOk_withFlush h.cache dirty copy) h.enabled

/-! ### One batch -/

/-- The volume with blocks `b, .., b + run - 1` in the flush buffer. -/
def copied (v : StripeVolume) (b run : ℕ) : StripeVolume :=
  withFlush v v.cache.dirtyMap
    (v.cache.flushBuffer.put 0 (run * 65536) (v.cache.buffer.shift (b * 65536)))

theorem copied_count (v : StripeVolume) (b run : ℕ) :
    (copied v b run).cache.blockCount = v.cache.blockCount := withFlush_count _ _ _

theorem copied_dirty (v : StripeVolume) (b run : ℕ) :
    (copied v b run).cache.dirtyMap = v.cache.dirtyMap := withFlush_dirty _ _ _

theorem copied_byte (v : StripeVolume) {b run x : ℕ} (h1 : b * 65536 ≤ x)
    (h2 : x < (b + run) * 65536) :
    (copied v b run).cache.flushBuffer (x - b * 65536) = v.cache.buffer x := by
  simp only [copied, withFlush]
  rw [Buf.put_of_mem _ _ (Nat.zero_le _) (by omega), Nat.sub_zero, Buf.shift,
    show b * 65536 + (x - b * 65536) = x by omega]

theorem flushScan_clean (env : BatchEnv) {v : StripeVolume} {b : ℕ} (hd : v.cache.dirtyMap b = false) :
    flushScan env v b = .next (b + 1) v := by
  unfold flushScan
  rw [if_pos hd]

theorem flushScan_dirty {v : StripeVolume} (h : CacheOk v.cache) (env : BatchEnv) {b : ℕ}
    (hb : b < v.cache.blockCount) (hd : v.cache.dirtyMap b = true) :
    flushScan env v b =
      if env.journal = false then .next (b + batchRun v.cache v.virtualTotalBytes b)
        (copied v b (batchRun v.cache v.virtualTotalBytes b))
      else .batch (batchRun v.cache v.virtualTotalBytes b)
        (copied v b (batchRun v.cache v.virtualTotalBytes b)) := by
  obtain ⟨h1, h2, _⟩ := batchRun_spec v.virtualTotalBytes hb hd
  unfold flushScan
  rw [if_neg (by rw [hd]; decide), h.blockSize, h.flushBuffer]
  simp only
  generalize batchRun v.cache v.virtualTotalBytes b = run at h1 h2
  rw [u32_of_lt (by omega), if_neg (by omega), if_neg (by omega)]
  unfold copied withFlush
  rfl

/-- The turn of the loop at a clean block. -/
theorem flushLoop_clean (env : ℕ → BatchEnv) (fuel : ℕ) {v : StripeVolume} (d : Disks) {b : ℕ}
    (hb : b < v.cache.blockCount) (hd : v.cache.dirtyMap b = false) :
    flushLoop env (fuel + 1) b v d = flushLoop env fuel (b + 1) v d := by
  rw [flushLoop, if_pos hb, flushScan_clean (env b) hd]

/-- The turn of the loop at a dirty block, by what the journal and the write say to its batch. -/
theorem flushLoop_dirty (env : ℕ → BatchEnv) (fuel : ℕ) {v : StripeVolume} (h : CacheOk v.cache) (d : Disks) {b run : ℕ}
    (hb : b < v.cache.blockCount) (hd : v.cache.dirtyMap b = true) (hrun : batchRun v.cache v.virtualTotalBytes b = run) :
    flushLoop env (fuel + 1) b v d =
      if (env b).journal = false then flushLoop env fuel (b + run) (copied v b run) d
      else if (flushWrite (env b) (copied v b run) d b run).1 then
        flushLoop env fuel (b + run) (flushClear (copied v b run) b run) (flushWrite (env b) (copied v b run) d b run).2
      else flushLoop env fuel (b + run) (copied v b run) (flushWrite (env b) (copied v b run) d b run).2 := by
  rw [flushLoop, if_pos hb, flushScan_dirty h (env b) hb hd, hrun]
  by_cases hj : (env b).journal = false
  · rw [if_pos hj, if_pos hj]
  · rw [if_neg hj, if_neg hj]
    simp only
    generalize flushWrite (env b) (copied v b run) d b run = r
    obtain ⟨ok, d1⟩ := r
    cases ok <;> rfl

theorem flushTransfers_pool (io : IoEnv) (buffer : Buf) (l : List IoRequest) (d : Disks) :
    (flushTransfers io buffer d l).pool = applyAll (l.map (writePatch io buffer)) d.pool ∧
      (flushTransfers io buffer d l).info = d.info := by
  induction l generalizing d with
  | nil => exact ⟨rfl, rfl⟩
  | cons r l ih => exact ih _

theorem all_ok (io : IoEnv) {l : List IoRequest} {n : ℕ}
    (hs : l.map IoRequest.slot = List.range' 0 n) :
    (l.all fun r => (io.result r.slot).isOk) = io.allOk n := by
  rw [IoEnv.allOk, ← hs, List.all_map]
  rfl

theorem cacheOk_copied {v : StripeVolume} (h : CacheOk v.cache) (b run : ℕ) : CacheOk (copied v b run).cache :=
  cacheOk_withFlush h _ _

/-- The part of the volume a batch covers. -/
def batchEnd (v : StripeVolume) (b run : ℕ) : ℕ := min ((b + run) * 65536) v.virtualTotalBytes

/-- What the writes of a batch do to the virtual bytes, when it holds `src`. -/
structure BatchWritten (v : StripeVolume) (src : Buf) (env : BatchEnv) (b run : ℕ) (d : Disks)
    (r : Bool × Disks) : Prop where
  info : r.2.info = d.info
  data : r.1 = true → ∀ x, b * 65536 ≤ x → x < batchEnd v b run → vbyte v r.2 x = src x
  outside : ∀ k p, (∀ x, b * 65536 ≤ x → x < batchEnd v b run → vcell v x ≠ (k, p)) →
    r.2.pool k p = d.pool k p
  frame : ∀ x < v.virtualTotalBytes, x < b * 65536 ∨ (b + run) * 65536 ≤ x →
    vbyte v r.2 x = vbyte v d x
  succeeds : env.Succeeds → r.1 = (mapLba v (b * 65536) (run * 65536)).isSome
  unmapped : mapLba v (b * 65536) (run * 65536) = none → r = (false, d)

theorem BatchWritten.of_same {v w : StripeVolume} {src src' : Buf} {env : BatchEnv} {b run : ℕ}
    {d : Disks} {r : Bool × Disks} (h : BatchWritten w src env b run d r) (hs : SameLayout v w)
    (he : ∀ x, b * 65536 ≤ x → x < batchEnd v b run → src x = src' x) :
    BatchWritten v src' env b run d r := by
  have hend : batchEnd w b run = batchEnd v b run := by rw [batchEnd, hs.total]; rfl
  refine ⟨h.info, fun hok x h1 h2 => ?_, ?_, ?_, ?_, ?_⟩
  · rw [← he x h1 h2, ← hs.vbyte]
    exact h.data hok x h1 (hend ▸ h2)
  · rw [← hend, ← hs.vcell]
    exact h.outside
  · rw [← hs.vbyte, ← hs.vbyte, ← hs.total]
    exact h.frame
  · rw [← hs.mapLba]
    exact h.succeeds
  · rw [← hs.mapLba]
    exact h.unmapped

section Write
variable {v : StripeVolume} (h : CacheOk v.cache) {env : BatchEnv} {d : Disks} {b run : ℕ}
  (hrun : run ≤ 256)
include h hrun

theorem flushWrite_none (hm : mapLba v (b * 65536) (run * 65536) = none) :
    flushWrite env v d b run = (false, d) := by
  unfold flushWrite
  rw [h.blockSize, u32_of_lt (by omega), hm]

theorem flushWrite_some {es : List IoMappingEntry}
    (hm : mapLba v (b * 65536) (run * 65536) = some es) :
    flushWrite env v d b run =
      let reqs := makeRequests (memberList v) .write 0 0 es
      let issued := reqs.take (env.stop.getD reqs.length)
      (decide (issued.length = reqs.length) && issued.all fun r => (env.io.result r.slot).isOk,
        flushTransfers env.io v.cache.flushBuffer d (env.io.order issued)) := by
  unfold flushWrite
  rw [h.blockSize, u32_of_lt (by omega), hm]

end Write

theorem flushWrite_spec {v : StripeVolume} (h : CachedVolume v) (env : BatchEnv) (d : Disks) (b : ℕ)
    {run : ℕ} (hrun : run ≤ 256) :
    BatchWritten v (fun x => v.cache.flushBuffer (x - b * 65536)) env b run d
      (flushWrite env v d b run) := by
  cases hm : mapLba v (b * 65536) (run * 65536) with
  | none =>
    rw [flushWrite_none h.cache hrun hm]
    refine ⟨rfl, fun hok => ?_, fun _ _ _ => rfl, fun _ _ _ => rfl, fun _ => ?_, fun _ => rfl⟩
    · cases hok
    · rw [hm]
      rfl
  | some es =>
    rw [flushWrite_some h.cache hrun hm]
    obtain ⟨_, _, hc, hdi⟩ := mapLba_spec h.ready.laid (by omega) hm
    rw [show b * 65536 + run * 65536 = (b + run) * 65536 by omega] at hc
    have hstop : batchEnd v b run ≤ v.virtualTotalBytes := Nat.min_le_right _ _
    simp only
    generalize hreqs : makeRequests (memberList v) .write 0 0 es = reqs
    have hslots : reqs.map IoRequest.slot = List.range' 0 es.length := hreqs ▸ makeRequests_slot ..
    generalize hiss : reqs.take (env.stop.getD reqs.length) = issued
    obtain ⟨hpool, hinfo⟩ := flushTransfers_pool env.io v.cache.flushBuffer (env.io.order issued) d
    have houtside : ∀ k p, (∀ x, b * 65536 ≤ x → x < batchEnd v b run → vcell v x ≠ (k, p)) →
        (flushTransfers env.io v.cache.flushBuffer d (env.io.order issued)).pool k p = d.pool k p := by
      refine requests_outside hc hdi env.io d _ v.cache.flushBuffer (env.io.order issued) ?_ hpool
      intro r hr
      have hri := (env.io.perm issued).mem_iff.mp hr
      rw [hreqs]
      exact List.mem_of_mem_take (hiss ▸ hri)
    refine ⟨hinfo, ?_, houtside, ?_, ?_, fun hno => ?_⟩
    · intro hok x h1 h2
      obtain ⟨hlen, hall⟩ := (Bool.and_eq_true _ _).mp hok
      have hfull : issued = reqs := by
        rw [decide_eq_true_eq] at hlen
        rw [← hiss] at hlen ⊢
        rw [List.length_take] at hlen
        exact List.take_of_length_le (by omega)
      rw [hfull] at hpool hall ⊢
      rw [all_ok env.io hslots] at hall
      have hp := env.io.perm reqs
      rw [← hreqs] at hp hpool ⊢
      exact (requests_write h.ready.laid h.ready.members hc hdi hstop env.io d _
        v.cache.flushBuffer _ hp hpool).data hall h1 h2
    · intro x hx hout
      exact vbyte_frame h.ready.laid h.ready.members houtside hstop hx
        (hout.imp_right fun hle => (Nat.min_le_left _ _).trans hle)
    · intro hs
      have hfull : issued = reqs := by
        rw [← hiss, hs.2.1]
        exact List.take_length
      rw [hfull, all_ok env.io hslots, decide_eq_true rfl, Bool.true_and, hm]
      exact (env.io.allOk_iff _).mpr fun i _ => hs.2.2.2 i
    · rw [hm] at hno
      cases hno

theorem flushWrite_copied {v : StripeVolume} (h : CachedVolume v) (env : BatchEnv) (d : Disks) (b : ℕ)
    {run : ℕ} (hrun : run ≤ 256) :
    BatchWritten v v.cache.buffer env b run d (flushWrite env (copied v b run) d b run) := by
  refine (flushWrite_spec (h.withFlush _ _) env d b hrun).of_same (sameLayout_withFlush v _ _) ?_
  intro x h1 h2
  exact copied_byte v h1 (Nat.lt_of_lt_of_le h2 (Nat.min_le_left _ _))

/-! ### The whole flush -/

/-- Block `b` is in a batch that can be mapped. -/
def inBatches (v : StripeVolume) (l : List (ℕ × ℕ)) (b : ℕ) : Bool :=
  l.any fun p => decide (p.1 ≤ b) && decide (b < p.1 + p.2) &&
    (mapLba v (p.1 * 65536) (p.2 * 65536)).isSome

/-- A flush that starts on `v` stores block `b`. -/
def flushable (v : StripeVolume) (b : ℕ) : Bool :=
  inBatches v (batchesFrom v.cache v.virtualTotalBytes v.cache.blockCount 0) b

theorem inBatches_before {v : StripeVolume} {total fuel b c : ℕ} {cache : RamCache} (h : c < b) :
    inBatches v (batchesFrom cache total fuel b) c = false := by
  apply Bool.eq_false_iff.mpr
  intro ht
  obtain ⟨p, hp, hh⟩ := List.any_eq_true.mp ht
  have hs := batchesFrom_start hp
  simp only [Bool.and_eq_true, decide_eq_true_eq] at hh
  omega

theorem inBatches_cons (v : StripeVolume) (b run c : ℕ) (l : List (ℕ × ℕ)) :
    inBatches v ((b, run) :: l) c =
      (decide (b ≤ c) && decide (c < b + run) && (mapLba v (b * 65536) (run * 65536)).isSome ||
        inBatches v l c) := rfl

theorem inBatches_same {v w : StripeVolume} (h : SameLayout v w) :
    inBatches w = inBatches v := by
  funext l b
  simp only [Cache.inBatches, h.mapLba]

/-- The part of the final state a flush of the batches `l` is about. -/
structure Flushed (v : StripeVolume) (d : Disks) (l : List (ℕ × ℕ)) (w : StripeVolume) (d' : Disks) :
    Prop where
  cache : ∃ dirty copy, w = withFlush v dirty copy ∧
    ∀ c, dirty c = (v.cache.dirtyMap c && !inBatches v l c)
  info : d'.info = d.info
  stored : ∀ x < v.virtualTotalBytes, vbyte v d' x =
    if inBatches v l (x / 65536) then v.cache.buffer x else vbyte v d x

theorem Flushed.nil (v : StripeVolume) (d : Disks) : Flushed v d [] v d :=
  ⟨⟨v.cache.dirtyMap, v.cache.flushBuffer, rfl, fun _ => (Bool.and_true _).symm⟩, rfl, fun _ _ => rfl⟩

/-- One batch in front of the later ones. -/
theorem Flushed.cons {v w : StripeVolume} {d d1 d' : Disks} {env : BatchEnv} {b run : ℕ} {ok : Bool}
    {l : List (ℕ × ℕ)} {dirty : ℕ → Bool} (copy : Buf) (henv : env.Succeeds)
    (hw : BatchWritten v v.cache.buffer env b run d (ok, d1))
    (hdirty : ∀ c, dirty c = (v.cache.dirtyMap c && !(decide (b ≤ c) && decide (c < b + run) && ok)))
    (hl : ∀ c < b + run, inBatches v l c = false)
    (h : Flushed (withFlush v dirty copy) d1 l w d') :
    Flushed v d ((b, run) :: l) w d' := by
  have hsame := sameLayout_withFlush v dirty copy
  have hok := hw.succeeds henv
  simp only at hok
  obtain ⟨⟨dirty', copy', hw', hd'⟩, hinfo, hstored⟩ := h
  refine ⟨⟨dirty', copy', hw', fun c => ?_⟩, hinfo.trans hw.info, fun x hx => ?_⟩
  · rw [hd' c, withFlush_dirty, hdirty c, inBatches_same hsame, inBatches_cons, ← hok, Bool.not_or,
      Bool.and_assoc]
  · have hx' := hstored x hx
    simp only [hsame.vbyte, inBatches_same hsame, withFlush_buffer] at hx'
    rw [hx', inBatches_cons, ← hok]
    by_cases hin : b ≤ x / 65536 ∧ x / 65536 < b + run
    · rw [hl _ hin.2, decide_eq_true hin.1, decide_eq_true hin.2]
      simp only [Bool.false_eq_true, ite_false, Bool.and_true, Bool.true_and, Bool.or_false]
      cases ok with
      | true =>
        have hend : x < batchEnd v b run := by
          unfold batchEnd
          omega
        exact hw.data rfl x (by omega) hend
      | false =>
        have hno : mapLba v (b * 65536) (run * 65536) = none := by
          cases hm : mapLba v (b * 65536) (run * 65536) with
          | none => rfl
          | some es => rw [hm] at hok; cases hok
        obtain rfl := (Prod.mk.inj (hw.unmapped hno)).2
        rfl
    · have hhead : (decide (b ≤ x / 65536) && decide (x / 65536 < b + run)) = false := by
        rw [← Bool.decide_and]
        exact decide_eq_false hin
      rw [hhead, Bool.false_and, Bool.false_or]
      split
      · rfl
      · exact hw.frame x hx (by omega)

theorem flushLoop_spec (env : ℕ → BatchEnv) (henv : ∀ b, (env b).Succeeds) (fuel : ℕ) :
    ∀ {b : ℕ} {v : StripeVolume} (d : Disks), CachedVolume v → v.cache.blockCount ≤ b + fuel →
      Flushed v d (batchesFrom v.cache v.virtualTotalBytes fuel b) (flushLoop env fuel b v d).1
        (flushLoop env fuel b v d).2 := by
  induction fuel with
  | zero =>
    intro b v d _ _
    exact Flushed.nil v d
  | succ fuel ih =>
    intro b v d hv hfuel
    unfold batchesFrom
    by_cases hb : b < v.cache.blockCount
    · rw [if_pos hb]
      cases hd : v.cache.dirtyMap b with
      | false =>
        rw [flushLoop_clean env fuel d hb hd]
        exact ih d hv (by omega)
      | true =>
        obtain ⟨hr0, hr256, hrun⟩ := batchRun_spec v.virtualTotalBytes hb hd
        have hj : ¬ (env b).journal = false := by
          rw [(henv b).1]
          decide
        rw [flushLoop_dirty env fuel hv.cache d hb hd rfl, if_neg hj]
        simp only [ite_true]
        generalize batchRun v.cache v.virtualTotalBytes b = run at hr0 hr256 hrun
        have hw := flushWrite_copied hv (env b) d b hr256
        generalize flushWrite (env b) (copied v b run) d b run = r at hw
        obtain ⟨ok, d1⟩ := r
        -- the blocks from `b + run` on are dirty as before, so the later batches are the same
        have hnext : ∀ dirty copy, (∀ c, dirty c =
            (v.cache.dirtyMap c && !(decide (b ≤ c) && decide (c < b + run) && ok))) →
            Flushed v d ((b, run) :: batchesFrom v.cache v.virtualTotalBytes fuel (b + run))
              (flushLoop env fuel (b + run)
                (withFlush v dirty copy) d1).1
              (flushLoop env fuel (b + run)
                (withFlush v dirty copy) d1).2 := by
          intro dirty copy hdirty
          refine Flushed.cons copy (henv b) hw hdirty (fun c hc => inBatches_before hc) ?_
          have hsame : SameFrom (b + run) v.cache (withFlush v dirty copy).cache := by
            refine ⟨rfl, rfl, fun i hi => ?_⟩
            rw [withFlush_dirty, hdirty i, decide_eq_false (show ¬ i < b + run by omega), Bool.and_false, Bool.false_and,
              Bool.not_false, Bool.and_true]
          rw [← hsame.batchesFrom]
          exact ih d1 (hv.withFlush dirty copy) (by rw [withFlush_count]; omega)
        cases ok with
        | false => exact hnext _ _ fun c => by simp only [Bool.and_false, Bool.not_false, Bool.and_true]
        | true =>
          simp only [copied]
          rw [flushClear_withFlush]
          refine hnext _ _ fun c => ?_
          simp only [Bool.and_true]
          by_cases hin : b ≤ c ∧ c < b + run
          · have hc := (hrun (c - b) (by omega)).1
            rw [show b + (c - b) = c by omega] at hc
            simp only [hc, decide_true, Bool.and_true]
          · have hno : (decide (b ≤ c) && decide (c < b + run)) = false := by
              rw [← Bool.decide_and]
              exact decide_eq_false hin
            simp only [hno, Bool.false_and]
    · rw [flushLoop, if_neg hb, if_neg hb]
      exact Flushed.nil v d

theorem withFlush_flag {v : StripeVolume} (hf : v.cacheFlushInProgress = false) (dirty : ℕ → Bool)
    (copy : Buf) :
    { withFlush { v with cacheFlushInProgress := true } dirty copy with cacheFlushInProgress := false } =
      withFlush v dirty copy := by
  cases v
  simp only at hf
  subst hf
  rfl

/-- A flush with nothing failing stores the blocks of its batches and nothing else. -/
theorem cacheFlushAll_spec (env : ℕ → BatchEnv) (henv : ∀ b, (env b).Succeeds) {v : StripeVolume}
    (d : Disks) (h : CachedVolume v) (hf : v.cacheFlushInProgress = false) :
    Flushed v d (batchesFrom v.cache v.virtualTotalBytes v.cache.blockCount 0)
      (cacheFlushAll env v d).1 (cacheFlushAll env v d).2 := by
  have hsame : SameLayout v { v with cacheFlushInProgress := true } := ⟨rfl, rfl, rfl, rfl, rfl, rfl, rfl, rfl⟩
  obtain ⟨⟨dirty, copy, hw, hd⟩, hinfo, hstored⟩ := flushLoop_spec env henv v.cache.blockCount
    (b := 0) (v := { v with cacheFlushInProgress := true }) d (h.of_same hsame h.cache h.enabled)
    (by simp only; omega)
  unfold cacheFlushAll
  rw [hf]
  refine ⟨⟨dirty, copy, ?_, ?_⟩, hinfo, ?_⟩
  · simp only [Bool.false_eq_true, ite_false, hw]
    exact withFlush_flag hf dirty copy
  · rw [inBatches_same hsame] at hd
    exact hd
  · simp only [inBatches_same hsame, hsame.vbyte] at hstored
    exact hstored

/-! ### A small cached volume

Two disks of two blocks each in turns of one block, with a cache over the first two blocks.
-/

def pairDisks : Disks where
  info := fun _ => ⟨131072, 100, 0, false, true, false, false, 0, true⟩
  pool := fun i p => UInt8.ofNat (7 * i + p + 1)

def pairLayout : StripeVolume := (buildVolume pairDisks [0, 1] 65536 []).getD .zero

def pairVolume : StripeVolume := (stripeVolumeWorkersInit pairLayout).getD .zero

def pairCached : StripeVolume :=
  { pairVolume with cache := (cacheInit .good .zero 131072).2, cacheEnabled := true }

theorem pairVolume_ready : Ready pairVolume := by
  have hb : buildVolume pairDisks [0, 1] 65536 [] = some pairLayout := rfl
  have hon := buildVolume_on (by decide) (by decide) (by decide) hb
  exact (workersInit_ready pairVolume hon.laid (hon.members (by decide)) rfl).1

theorem pairCached_ok : CachedVolume pairCached where
  ready := (show SameLayout pairVolume pairCached from
    ⟨rfl, rfl, rfl, rfl, rfl, rfl, rfl, rfl⟩).ready pairVolume_ready
  level := rfl
  cache := (cacheInit_ok (show cacheInit .good .zero 131072 = (true, pairCached.cache) from rfl)).1
  enabled := rfl

end RaidTest.Cache
