import RaidTest.Cache.Coherence
import RaidTest.Cache.Finish

/-!
# Making writes durable (`raid_flush`, `raid_fsync`)

Both callbacks run `cache_flush_all` and return 0 whatever came of it. Two flags can make
the flush return at once: the bridge's own, taken by every caller but the flush thread,
and the volume's, taken by whoever is in `cache_flush_all`.
-/

namespace RaidTest.Fuse
open RaidTest.Base RaidTest.Stripe RaidTest.Cache

/-! ### The callbacks -/

/-- The body of both callbacks, with nobody in between. -/
def flushCallback (env : ℕ → BatchEnv) (s : System) : ℤ × System :=
  if s.v.cacheEnabled && !s.gFlush then
    let (v, d) := cacheFlushAll env s.v s.d
    (0, { s with v := v, d := d })
  else (0, s)

/-- `raid_fsync`. -/
def raidFsync (env : ℕ → BatchEnv) (s : System) : ℤ × System := flushCallback env s

/-- A call that begins now gets past both flags. -/
def fsyncFlushes (s : System) : Bool := s.v.cacheEnabled && !s.gFlush && !s.v.cacheFlushInProgress

/-- A call that begins in `s` has returned 0 in `t`: at once, or after the steps `post` of
its flush and of everybody else. -/
inductive FsyncCall (s : System) : List Label → System → Prop where
  | skipped (h : fsyncFlushes s = false) : FsyncCall s [] s
  | flushed (s1 t : System) (post : List Label) (h : fsyncFlushes s = true)
      (hb : step s (.begin .fsync) = some s1) (hr : run step s1 post = some t)
      (hidle : t.flush = .idle) : FsyncCall s post t

theorem fsync_begin {s : System} (h : fsyncFlushes s = true) :
    step s (.begin .fsync) =
      some { s with v := setFlag s.v true, flush := .scan 0, flusher := .fsync, gFlush := true } := by
  simp only [fsyncFlushes, Bool.and_eq_true, Bool.not_eq_true'] at h
  simp only [step, h.1.2, h.2, Flusher.guarded, Bool.and_false, Bool.false_or, Bool.false_eq_true,
    ite_false]

/-- A call that is left alone is one such call. -/
theorem raidFsync_call (env : ℕ → BatchEnv) {s : System} (h : SystemOk s) (hidle : s.flush = .idle)
    (hg : s.gFlush = false) :
    ∃ post t, FsyncCall s post t ∧ (raidFsync env s).1 = 0 ∧ t.v = (raidFsync env s).2.v ∧
      t.d = (raidFsync env s).2.d := by
  have hf : s.v.cacheFlushInProgress = false := by
    by_contra hf
    exact h.flag.mp (by simpa using hf) hidle
  have hflushes : fsyncFlushes s = true := by
    unfold fsyncFlushes
    rw [h.volume.enabled, hg, hf]
    rfl
  obtain ⟨ls, t, hr, hv, hd, hi, _⟩ := run_cacheFlushAll env h hidle hg .fsync
  obtain ⟨s1, hb, hr⟩ := (run_cons ..).mp hr
  refine ⟨ls, t, .flushed s1 t ls hflushes hb hr hi, ?_⟩
  unfold raidFsync flushCallback
  rw [h.volume.enabled, hg]
  exact ⟨rfl, hv, hd⟩

/-! ### The byte last written -/

/-- The write a label acknowledges, for a cache of `size` bytes. -/
def acks (size : ℕ) : Label → Option WriteCall
  | .cacheWrite c => if c.vo + c.length ≤ size then some c else none
  | .write _ _ c true => some c
  | _ => none

/-- Byte `x` is `val` in the cache, or on the members where the block is clean or not cached. -/
structure Kept (x : ℕ) (val : Byte) (s : System) : Prop where
  cached : x < s.v.cache.cacheSizeBytes → s.v.cache.buffer x = val
  stored : ¬ DirtyByte s.v x → vbyte s.v s.d x = val

/-- What holds beside the byte: the invariant of all states and that of a finished batch. -/
structure Live (s0 s : System) : Prop where
  reached : Reached s0 s
  transferred : Transferred s

theorem Live.step {s0 s t : System} {l : Label} (h : Live s0 s)
    (hl : l.fuse s0.v.cache.cacheSizeBytes) (hs : Cache.step s l = some t) : Live s0 t := by
  obtain ⟨hsteady, he⟩ := step_effect h.reached.ok hs
  exact ⟨h.reached.step hs,
    h.transferred.step h.reached.ok hsteady (by rw [h.reached.shape.size]; exact hl) he⟩

theorem dirtyByte_same {s t : System} {x : ℕ} (h : SameShape s.v.cache t.v.cache)
    (hd : t.v.cache.dirtyMap (x / 65536) = s.v.cache.dirtyMap (x / 65536)) :
    DirtyByte t.v x ↔ DirtyByte s.v x := by
  unfold DirtyByte
  rw [h.size, hd]

theorem inBatch_same {s t : System} (h : SameLayout s.v t.v) (b run x : ℕ) : InBatch t b run x ↔ InBatch s b run x := by
  unfold InBatch
  rw [h.total]

/-- A step that does not write the byte and clears no bit over a changed copy keeps it. -/
theorem Kept.step {s t : System} {l : Label} {x : ℕ} {val : Byte} (h : Kept x val s)
    (hok : SystemOk s) (hw : Transferred s) (hx : x < s.v.virtualTotalBytes)
    (hl : l.fuse s.v.cache.cacheSizeBytes) (hno : ∀ c, l.call = some c → ¬ c.covers x)
    (hc : CopyKept x s l) (hs : Cache.step s l = some t) : Kept x val t := by
  obtain ⟨hsteady, he⟩ := step_effect hok hs
  have hshape := he.shape
  have hsize := hshape.size
  have hsame : ∀ (hb : t.v.cache.buffer = s.v.cache.buffer)
      (hd : t.v.cache.dirtyMap = s.v.cache.dirtyMap)
      (hv : ¬ DirtyByte s.v x → vbyte s.v t.d x = vbyte s.v s.d x), Kept x val t := by
    intro hb hd hv
    refine ⟨by rw [hb, hsize]; exact h.cached, fun hn => ?_⟩
    rw [dirtyByte_same hshape (by rw [hd])] at hn
    rw [hsteady.layout.vbyte, hv hn]
    exact h.stored hn
  cases he with
  | quiet _ _ hcache hd =>
    obtain ⟨_, _, hcache⟩ := hcache
    exact hsame (by rw [hcache]) (by rw [hcache]) fun _ => by rw [vbyte_pool s.v hd]
  | start _ hcache hd | pass _ _ hcache hd | finish _ _ hcache hd =>
    exact hsame (by rw [hcache]) (by rw [hcache]) fun _ => by rw [vbyte_pool s.v hd]
  | copy _ b run hcache hd =>
    refine hsame ?_ ?_ fun _ => by rw [vbyte_pool s.v hd]
    · rw [hcache]
      exact withFlush_buffer _ _ _
    · rw [hcache]
      exact copied_dirty _ _ _
  | direct seen io c ok _ hcache hframe =>
    exact hsame (by rw [hcache]) (by rw [hcache]) fun _ => hframe x hx (hno c rfl)
  | transfer env b run ok hcache hcopied hwr =>
    refine hsame (by rw [hcache]) (by rw [hcache]) fun hn => ?_
    refine hwr.frame x hx ?_
    by_contra hin
    have hlt := hok.batch_lt (Or.inl hcopied) (x := x) (by omega) (by omega)
    have hdirty := ((hok.batch b run (Or.inl hcopied)).2 (x / 65536 - b) (by omega)).2
    rw [show b + (x / 65536 - b) = x / 65536 by omega] at hdirty
    exact hn ⟨hlt, hdirty⟩
  | cached _ c hcall hpos hend hcache hdisk =>
    have hx2 := hno c (Label.call_of_cached hcall)
    refine ⟨fun hlt => ?_, fun hn => ?_⟩
    · rw [hcache, stored_other _ hx2]
      exact h.cached (hsize ▸ hlt)
    · rw [hsteady.layout.vbyte, hl.disk hpos hend (hdisk x hx)]
      refine h.stored fun hd => hn ⟨hsize ▸ hd.1, ?_⟩
      rw [hcache]
      exact (Bool.or_eq_true _ _).mpr (Or.inl hd.2)
  | clear b run hcache hd hwritten =>
    refine ⟨by rw [hsize, hcache]; exact h.cached, fun hn => ?_⟩
    rw [hsteady.layout.vbyte, vbyte_pool s.v hd]
    by_cases hin : b * 65536 ≤ x ∧ x < (b + run) * 65536
    · rw [hw b run hwritten x ⟨hx, hin⟩, ← hc rfl b run hwritten ⟨hx, hin⟩]
      exact h.cached (hok.batch_lt (Or.inr hwritten) hin.1 hin.2)
    · refine h.stored fun hdb => hn ⟨hsize ▸ hdb.1, ?_⟩
      rw [hcache]
      have hno : (decide (b ≤ x / 65536) && decide (x / 65536 < b + run)) = false := by
        rw [← Bool.decide_and]
        exact decide_eq_false (by omega)
      simpa only [flushClear, hno, Bool.false_and, Bool.not_false, Bool.and_true] using hdb.2

/-! ### While the call flushes -/

/-- Block `k` lies ahead of the flush. -/
def Ahead (k : ℕ) : FlushPc → Prop
  | .idle => False
  | .scan b => b ≤ k
  | .copied b _ => b ≤ k
  | .written b run => b + run ≤ k

/-- A step of the flush that reaches byte `x` stores it, and no other write of it fails. -/
structure Stores (x : ℕ) (s : System) (l : Label) : Prop where
  journal : ∀ env, l = .scan env → env.journal = true
  transfer : ∀ env b run, l = .transfer env → s.flush = .copied b run → InBatch s b run x →
    env.Succeeds ∧ (mapLba s.v (b * 65536) (run * 65536)).isSome = true
  direct : ∀ seen io c, l = .write seen io c false → ¬ c.covers x

/-- The values of byte `x` in the cache, in the batch on its way and, unless the flush has
the block ahead, on the members are all `A`. -/
structure Draining (x : ℕ) (A : Byte → Prop) (s : System) : Prop where
  buffer : x < s.v.cache.cacheSizeBytes → A (s.v.cache.buffer x)
  flight : ∀ b run, s.flush = .copied b run → InBatch s b run x →
    A (s.v.cache.flushBuffer (x - b * 65536))
  stored : A (vbyte s.v s.d x) ∨ (DirtyByte s.v x ∧ Ahead (x / 65536) s.flush)

/-- The write a label makes has value `A` at `x`. -/
def Writes (x : ℕ) (A : Byte → Prop) (l : Label) : Prop :=
  ∀ c, l.call = some c → c.covers x → A (c.buffer (x - c.vo))

section Steps
variable {s t : System} {x : ℕ} {A : Byte → Prop} (h : Draining x A s) (hsteady : Steady s t)
  (hshape : SameShape s.v.cache t.v.cache)
include h hsteady hshape

/-- A step that leaves the cache's bytes, the dirty bits and the members as they are. -/
theorem Draining.same (hb : t.v.cache.buffer = s.v.cache.buffer) (hdirty : t.v.cache.dirtyMap = s.v.cache.dirtyMap)
    (hd : t.d.pool = s.d.pool)
    (hflight : ∀ b run, t.flush = .copied b run → InBatch s b run x → A (t.v.cache.flushBuffer (x - b * 65536)))
    (hahead : DirtyByte s.v x → Ahead (x / 65536) s.flush → Ahead (x / 65536) t.flush) : Draining x A t := by
  refine ⟨by rw [hb, hshape.size]; exact h.buffer,
    fun b run hf hin => hflight b run hf ((inBatch_same hsteady.layout b run x).mp hin), ?_⟩
  rw [dirtyByte_same hshape (by rw [hdirty]), hsteady.layout.vbyte, vbyte_pool s.v hd]
  exact h.stored.imp_right fun hp => ⟨hp.1, hahead hp.1 hp.2⟩

/-- The batch that is copied takes the value from the cache. -/
theorem Draining.copy (hok : SystemOk s) {b run : ℕ} (hcache : t.v.cache = (copied s.v b run).cache)
    (hd : t.d.pool = s.d.pool) (hscan : s.flush = .scan b)
    (hdirty : ∀ i < run, b + i < s.v.cache.blockCount ∧ s.v.cache.dirtyMap (b + i) = true)
    (hflush : t.flush = .copied b run) : Draining x A t := by
  refine h.same hsteady hshape ?_ ?_ hd ?_ fun _ ha => ?_
  · rw [hcache]
    exact withFlush_buffer _ _ _
  · rw [hcache]
    exact copied_dirty _ _ _
  · intro b' run' hf hin
    obtain ⟨rfl, rfl⟩ := FlushPc.copied.inj (hflush.symm.trans hf)
    obtain ⟨_, h1, h2⟩ := hin
    have hlast := (hdirty (x / 65536 - b) (by omega)).1
    have hsz := hok.volume.cache.size
    have hbyte := copied_byte s.v h1 h2
    rw [hcache, hbyte]
    exact h.buffer (by omega)
  · rw [hscan] at ha
    rw [hflush]
    exact ha

/-- A cached write with the value `A` at `x`, or away from `x`. -/
theorem Draining.cached {c : WriteCall} (hwr : c.covers x → A (c.buffer (x - c.vo)))
    (hcache : t.v.cache = Cache.stored s.v.cache c.buffer c.vo c.length) (hdisk : vbyte s.v t.d x = vbyte s.v s.d x)
    (hflush : t.flush = s.flush) : Draining x A t := by
  refine ⟨fun hlt => ?_, fun b run hf hin => ?_, ?_⟩
  · rw [hcache]
    by_cases hc : c.covers x
    · rw [stored_covered _ hc]
      exact hwr hc
    · rw [stored_other _ hc]
      exact h.buffer (hshape.size ▸ hlt)
  · rw [hcache]
    exact h.flight b run (hflush ▸ hf) ((inBatch_same hsteady.layout b run x).mp hin)
  · rw [hsteady.layout.vbyte, hdisk, hflush]
    refine h.stored.imp_right fun hp => ⟨⟨hshape.size ▸ hp.1.1, ?_⟩, hp.2⟩
    rw [hcache]
    exact (Bool.or_eq_true _ _).mpr (Or.inl hp.1.2)

/-- A write to the members that covers `x` succeeds with the value `A` there. -/
theorem Draining.direct {c : WriteCall} (hcache : t.v.cache = s.v.cache)
    (hframe : ¬ c.covers x → vbyte s.v t.d x = vbyte s.v s.d x) (hdata : c.covers x → A (vbyte s.v t.d x))
    (hflush : t.flush = s.flush) : Draining x A t := by
  refine ⟨by rw [hcache]; exact h.buffer, ?_, ?_⟩
  · intro b run hf hin
    rw [hcache]
    exact h.flight b run (hflush ▸ hf) ((inBatch_same hsteady.layout b run x).mp hin)
  · rw [dirtyByte_same hshape (by rw [hcache]), hsteady.layout.vbyte, hflush]
    by_cases hc : c.covers x
    · exact Or.inl (hdata hc)
    · rw [hframe hc]
      exact h.stored

/-- The batch on its way brings the value to the members. -/
theorem Draining.transfer {env : BatchEnv} {b run : ℕ} {ok : Bool} (hcache : t.v.cache = s.v.cache)
    (hcopied : s.flush = .copied b run)
    (hw : BatchWritten s.v (fun y => s.v.cache.flushBuffer (y - b * 65536)) env b run s.d (ok, t.d))
    (hx : x < s.v.virtualTotalBytes) (hok : InBatch s b run x → ok = true)
    (hflush : t.flush = if ok then .written b run else .scan (b + run)) : Draining x A t := by
  refine ⟨by rw [hcache]; exact h.buffer, fun b' run' hf _ => ?_, ?_⟩
  · rw [hflush] at hf
    split at hf <;> cases hf
  · rw [dirtyByte_same hshape (by rw [hcache]), hsteady.layout.vbyte]
    by_cases hin : InBatch s b run x
    · have hend : x < batchEnd s.v b run := by
        unfold batchEnd
        have h2 := hin.2.2
        omega
      rw [hw.data (hok hin) x hin.2.1 hend]
      exact Or.inl (h.flight b run hcopied hin)
    · have hout : x < b * 65536 ∨ (b + run) * 65536 ≤ x := by
        unfold InBatch at hin
        omega
      rw [hw.frame x hx hout]
      refine h.stored.imp_right fun hp => ⟨hp.1, ?_⟩
      have ha := hp.2
      rw [hcopied] at ha
      have hle : b ≤ x / 65536 := ha
      rw [hflush]
      have hgoal : b + run ≤ x / 65536 := by omega
      split
      · exact hgoal
      · exact hgoal

/-- The bits of a batch behind the flush are cleared. -/
theorem Draining.clear {b run : ℕ} (hcache : t.v.cache = (flushClear s.v b run).cache) (hd : t.d.pool = s.d.pool)
    (hwritten : s.flush = .written b run) (hflush : t.flush = .scan (b + run)) : Draining x A t := by
  refine ⟨by rw [hcache]; exact h.buffer, fun b' run' hf => ?_, ?_⟩
  · rw [hflush] at hf
    cases hf
  · rw [hsteady.layout.vbyte, vbyte_pool s.v hd]
    refine h.stored.imp_right fun hp => ?_
    have ha := hp.2
    rw [hwritten] at ha
    have hle : b + run ≤ x / 65536 := ha
    refine ⟨⟨hshape.size ▸ hp.1.1, ?_⟩, by rw [hflush]; exact hle⟩
    rw [hcache]
    simp only [flushClear, hp.1.2, decide_eq_false (show ¬ x / 65536 < b + run by omega),
      Bool.and_false, Bool.false_and, Bool.not_false, Bool.and_true]

end Steps

theorem Draining.step {s t : System} {l : Label} {x : ℕ} {A : Byte → Prop} (h : Draining x A s)
    (hok : SystemOk s) (hx : x < s.v.virtualTotalBytes) (hl : l.fuse s.v.cache.cacheSizeBytes)
    (hst : Stores x s l) (hwr : Writes x A l) (hs : Cache.step s l = some t) : Draining x A t := by
  obtain ⟨hsteady, he⟩ := step_effect hok hs
  have hshape := he.shape
  have hnone : ∀ {pc : FlushPc}, t.flush = pc → (∀ b run, pc ≠ .copied b run) →
      ∀ b run, t.flush = .copied b run → InBatch s b run x →
        A (t.v.cache.flushBuffer (x - b * 65536)) := by
    intro pc hpc hne b run hf _
    exact absurd (hpc.symm.trans hf) (hne b run)
  cases he with
  | quiet _ _ hcache hd hflush =>
    obtain ⟨_, _, hcache⟩ := hcache
    refine h.same hsteady hshape (by rw [hcache]) (by rw [hcache]) hd ?_ fun _ ha => by rw [hflush]; exact ha
    rw [hflush, hcache]
    exact h.flight
  | start _ hcache hd hidle hflush =>
    refine h.same hsteady hshape (by rw [hcache]) (by rw [hcache]) hd (hnone hflush nofun) fun _ ha => ?_
    rw [hidle] at ha
    exact ha.elim
  | pass _ b hcache hd hscan hclean hflush =>
    refine h.same hsteady hshape (by rw [hcache]) (by rw [hcache]) hd (hnone hflush nofun) fun hdb ha => ?_
    rw [hscan] at ha
    rw [hflush]
    have hne : x / 65536 ≠ b := by
      rintro rfl
      rw [hdb.2] at hclean
      cases hclean
    exact Nat.lt_of_le_of_ne ha (Ne.symm hne)
  | finish _ b hcache hd hscan hb hflush =>
    refine h.same hsteady hshape (by rw [hcache]) (by rw [hcache]) hd (hnone hflush nofun) fun hdb ha => ?_
    rw [hscan] at ha
    have hlt := hdb.1
    have hsz := hok.volume.cache.size
    have hle : b ≤ x / 65536 := ha
    omega
  | copy env b run hcache hd hscan _ hdirty hflush =>
    rw [hst.journal env rfl, if_pos rfl] at hflush
    exact h.copy hsteady hshape hok hcache hd hscan hdirty hflush
  | cached _ c hcall hpos hend hcache hdisk hflush =>
    exact h.cached hsteady hshape (hwr c (Label.call_of_cached hcall)) hcache (hl.disk hpos hend (hdisk x hx)) hflush
  | direct seen io c ok _ hcache hframe hdata hflush =>
    refine h.direct hsteady hshape hcache (hframe x hx) (fun hc => ?_) hflush
    cases ok with
    | false => exact absurd hc (hst.direct seen io c rfl)
    | true =>
      rw [(hdata rfl).2 x hc]
      exact hwr c rfl hc
  | transfer env b run ok hcache hcopied hw hflush =>
    refine h.transfer hsteady hshape hcache hcopied hw hx (fun hin => ?_) hflush
    obtain ⟨henv, hmap⟩ := hst.transfer env b run rfl hcopied hin
    exact (hw.succeeds henv).trans hmap
  | clear b run hcache hd hwritten hflush => exact h.clear hsteady hshape hcache hd hwritten hflush

/-! ### Durability -/

theorem fuse_of_mem {size : ℕ} {pre mid post : List Label} {l : Label}
    (h : ∀ k ∈ pre ++ l :: mid ++ post, Label.fuse size k) :
    (∀ k ∈ pre, k.fuse size) ∧ l.fuse size ∧ (∀ k ∈ mid, k.fuse size) ∧ ∀ k ∈ post, k.fuse size := by
  simp only [List.mem_append, List.mem_cons] at h
  exact ⟨fun k hk => h k (Or.inl (Or.inl hk)), h l (Or.inl (Or.inr (Or.inl rfl))),
    fun k hk => h k (Or.inl (Or.inr (Or.inr hk))), fun k hk => h k (Or.inr hk)⟩

/-- The write itself. -/
theorem kept_of_acks {s t : System} {l : Label} {c : WriteCall} {x : ℕ} (hok : SystemOk s)
    (hl : l.fuse s.v.cache.cacheSizeBytes) (hack : acks s.v.cache.cacheSizeBytes l = some c)
    (hc : c.covers x) (hs : step s l = some t) : Kept x (c.buffer (x - c.vo)) t := by
  obtain ⟨hsteady, he⟩ := step_effect hok hs
  have hsize := he.shape.size
  have hpos : 0 < c.length := by
    unfold WriteCall.covers at hc
    omega
  cases l with
  | cacheWrite c' =>
    simp only [acks] at hack
    split at hack
    swap
    · cases hack
    next hend =>
    obtain rfl := Option.some.inj hack
    have hlen : c'.length < 2^32 := by
      simp only [step] at hs
      split at hs
      · next hlen => omega
      · cases hs
    have hcache : t.v.cache = stored s.v.cache c'.buffer c'.vo c'.length := by
      simp only [step, cacheWrite_stored hok.volume.cache c'.buffer hlen hpos hend] at hs
      rw [if_pos (by omega)] at hs
      rw [← Option.some.inj hs]
    refine ⟨fun _ => by rw [hcache, stored_covered _ hc], fun hn => ?_⟩
    refine absurd ⟨?_, ?_⟩ hn
    · rw [hsize]
      unfold WriteCall.covers at hc
      omega
    · rw [hcache]
      exact (Bool.or_eq_true _ _).mpr (Or.inr (decide_eq_true (touches_of_mem hc.1 hc.2)))
  | write seen io c' ok =>
    cases ok with
    | false => cases hack
    | true =>
      obtain rfl := Option.some.inj hack
      have hle := hl seen io c' true rfl
      have hx1 := hc.1
      refine ⟨fun hlt => by omega, fun _ => ?_⟩
      rw [hsteady.layout.vbyte]
      cases he with
      | quiet _ hidle => cases hidle
      | cached _ c2 hcall hpos2 hend =>
        cases seen with
        | false =>
          obtain rfl := Option.some.inj hcall
          omega
        | true => cases hcall
      | direct _ _ _ _ _ _ _ hdata => exact (hdata rfl).2 x hc
  | read | begin | scan | transfer | clear => cases hack

/-- When a call of `raid_fsync` has returned, a byte acknowledged before it began is on the
members, or a value written to it since, if the call got to flush or the block was clean,
no earlier flush cleared the bit of a byte that changed behind its copy, and this flush
stored the byte. -/
theorem raidFsync_durable (s0 m s t : System) (pre mid post : List Label) (l : Label) (c : WriteCall)
    (x : ℕ) (h0 : Started s0) (hx : x < s0.v.virtualTotalBytes)
    (hfuse : ∀ k ∈ pre ++ l :: mid ++ post, Label.fuse s0.v.cache.cacheSizeBytes k)
    (hpre : run step s0 (pre ++ [l]) = some m)
    (hack : acks s0.v.cache.cacheSizeBytes l = some c) (hc : c.covers x)
    (hmid : run step m mid = some s)
    (hlast : ∀ k ∈ mid, ∀ c', k.call = some c' → ¬ c'.covers x)
    (hcall : FsyncCall s post t) (hkeep : Along step (CopyKept x) m mid)
    (hflush : fsyncFlushes s = true ∨ ¬ DirtyByte s.v x)
    (hstore : ∀ s1, step s (.begin .fsync) = some s1 → Along step (Stores x) s1 post) :
    vbyte t.v t.d x = c.buffer (x - c.vo) ∨
      ∃ k ∈ post, ∃ c', k.call = some c' ∧ c'.covers x ∧ vbyte t.v t.d x = c'.buffer (x - c'.vo) := by
  obtain ⟨hfpre, hfl, hfmid, hfpost⟩ := fuse_of_mem hfuse
  obtain ⟨s2, hr2, hr3⟩ := (run_append ..).mp hpre
  obtain ⟨m', hl, hm⟩ := (run_cons ..).mp hr3
  obtain rfl : m' = m := Option.some.inj hm
  -- up to the write, and the write
  have hlive2 : Live s0 s2 := by
    refine run_invariant (fun _ _ _ hi hk hs => hi.step hk hs) (along_of_forall step s0 hfpre) ?_ hr2
    exact ⟨h0.ok.reached, fun b run hb => by rw [h0.flush] at hb; cases hb⟩
  have hlive : Live s0 m' := hlive2.step hfl hl
  have hkept : Kept x (c.buffer (x - c.vo)) m' := by
    refine kept_of_acks hlive2.reached.ok ?_ ?_ hc hl
    · rw [hlive2.reached.shape.size]
      exact hfl
    · rw [hlive2.reached.shape.size]
      exact hack
  -- from the write to the call
  have hcond : Along step (fun u k => CopyKept x u k ∧ k.fuse s0.v.cache.cacheSizeBytes ∧
      ∀ c', k.call = some c' → ¬ c'.covers x) m' mid :=
    hkeep.and (along_of_forall step m' fun k hk => ⟨hfmid k hk, hlast k hk⟩)
  obtain ⟨hlives, hkepts⟩ := run_invariant (I := fun u => Live s0 u ∧ Kept x (c.buffer (x - c.vo)) u)
    (fun u k u' hi hk hs => ⟨hi.1.step hk.2.1 hs, hi.2.step hi.1.reached.ok hi.1.transferred
      (by rw [hi.1.reached.layout.total]; exact hx) (by rw [hi.1.reached.shape.size]; exact hk.2.1)
      hk.2.2 hk.1 hs⟩) hcond ⟨hlive, hkept⟩ hmid
  have hoks := hlives.reached.ok
  cases hcall with
  | skipped hskip =>
    rcases hflush with hf | hclean
    · rw [hskip] at hf
      cases hf
    · exact Or.inl (hkepts.stored hclean)
  | flushed s1 _ _ hgo hb hr hidle =>
    -- the call
    obtain rfl : _ = s1 := Option.some.inj ((fsync_begin hgo).symm.trans hb)
    have hwrites : ∀ k ∈ post, Writes x (fun val => val = c.buffer (x - c.vo) ∨ ∃ k ∈ post, ∃ c',
        k.call = some c' ∧ c'.covers x ∧ val = c'.buffer (x - c'.vo)) k :=
      fun k hk c' hc' hcov => Or.inr ⟨k, hk, c', hc', hcov, rfl⟩
    have hdrain : Draining x (fun val => val = c.buffer (x - c.vo) ∨ ∃ k ∈ post, ∃ c',
        k.call = some c' ∧ c'.covers x ∧ val = c'.buffer (x - c'.vo))
        { s with v := setFlag s.v true, flush := .scan 0, flusher := .fsync, gFlush := true } := by
      refine ⟨fun hlt => Or.inl (hkepts.cached hlt), nofun, ?_⟩
      by_cases hd : DirtyByte s.v x
      · exact Or.inr ⟨hd, Nat.zero_le _⟩
      · have hsame := congrFun ((sameLayout_setFlag s.v true).vbyte s.d) x
        exact Or.inl (Or.inl (hsame.trans (hkepts.stored hd)))
    have hcond2 := (hstore _ hb).and (along_of_forall step
      { s with v := setFlag s.v true, flush := .scan 0, flusher := .fsync, gFlush := true }
      fun k hk => (⟨hfpost k hk, hwrites k hk⟩ : Label.fuse s0.v.cache.cacheSizeBytes k ∧ Writes x _ k))
    obtain ⟨hreached, hdrained⟩ := run_invariant
      (fun u k u' (hi : Reached s0 u ∧ Draining x _ u) hk hs => ⟨hi.1.step hs,
        hi.2.step hi.1.ok (by rw [hi.1.layout.total]; exact hx)
          (by rw [hi.1.shape.size]; exact hk.2.1) hk.1 hk.2.2 hs⟩)
      hcond2 ⟨hlives.reached.step hb, hdrain⟩ hr
    rcases hdrained.stored with hv | ⟨_, ha⟩
    · exact hv
    · rw [hidle] at ha
      exact ha.elim

/-- Block 0 is written while another flush is on: the call returns 0 at once, and byte 0 is
9 in the cache and 1 on the member. -/
theorem raidFsync_durable_fails :
    ∃ s, Started pairSystem ∧
      run step pairSystem [.begin .thread, .cacheWrite ⟨fun _ => 9, 0, 65536⟩] = some s ∧
      FsyncCall s [] s ∧ (raidFsync (fun _ => .good) s).1 = 0 ∧
      (raidFsync (fun _ => .good) s).2.d.pool = s.d.pool ∧
      s.v.cache.buffer 0 = 9 ∧ vbyte s.v s.d 0 = 1 :=
  ⟨_, pairSystem_started, rfl, .skipped rfl, rfl, rfl, by decide, by decide⟩

/-- A step of a flush with nothing failing, outside the transfers. -/
theorem stores_of_good {x : ℕ} {s : System} {l : Label} (hj : ∀ env, l = .scan env → env.journal = true)
    (ht : ∀ env, l ≠ .transfer env) (hw : ∀ seen io c, l ≠ .write seen io c false) : Stores x s l :=
  ⟨hj, fun env _ _ he _ _ => absurd he (ht env), fun seen io c he _ => absurd he (hw seen io c)⟩

def wholeFlush : List Label := [.scan .good, .transfer .good, .clear, .scan .good, .scan .good]

theorem raidFsync_durable_sample :
    ∃ s t, run step pairSystem [.cacheWrite ⟨fun _ => 9, 0, 65536⟩] = some s ∧
      FsyncCall s wholeFlush t ∧ (vbyte t.v t.d 0 = 9 ∨ ∃ k ∈ wholeFlush, ∃ c, k.call = some c ∧
        c.covers 0 ∧ vbyte t.v t.d 0 = c.buffer (0 - c.vo)) := by
  have hcall : ∀ s t, run step pairSystem [.cacheWrite ⟨fun _ => 9, 0, 65536⟩] = some s →
      FsyncCall s wholeFlush t → fsyncFlushes s = true →
      (∀ s1, step s (.begin .fsync) = some s1 → Along step (Stores 0) s1 wholeFlush) →
      vbyte t.v t.d 0 = 9 ∨ ∃ k ∈ wholeFlush, ∃ c, k.call = some c ∧
        c.covers 0 ∧ vbyte t.v t.d 0 = c.buffer (0 - c.vo) := by
    intro s t hs hcall hf hst
    refine raidFsync_durable pairSystem s s t [] [] wholeFlush (.cacheWrite ⟨fun _ => 9, 0, 65536⟩)
      ⟨fun _ => 9, 0, 65536⟩ 0 pairSystem_started (by decide) ?_ hs rfl (by decide) rfl nofun hcall
      True.intro (Or.inl hf) hst
    intro k hk
    simp only [wholeFlush, List.nil_append, List.cons_append, List.mem_cons, List.not_mem_nil,
      or_false] at hk
    rcases hk with rfl | rfl | rfl | rfl | rfl | rfl <;> nofun
  refine ⟨_, _, rfl, .flushed _ _ _ rfl rfl rfl rfl, hcall _ _ rfl (.flushed _ _ _ rfl rfl rfl rfl) rfl ?_⟩
  intro s1 hb
  obtain rfl : _ = s1 := Option.some.inj hb
  have hscan : ∀ {u : System}, Stores 0 u (.scan .good) := stores_of_good
    (fun env he => by cases he; rfl) nofun nofun
  refine along_cons rfl hscan (along_cons rfl ⟨nofun, ?_, nofun⟩
    (along_cons rfl (stores_of_good nofun nofun nofun) (along_cons rfl hscan (along_cons rfl hscan True.intro))))
  intro env b run he hb _
  cases he
  obtain ⟨rfl, rfl⟩ := FlushPc.copied.inj hb
  exact ⟨BatchEnv.good_succeeds, by decide⟩

end RaidTest.Fuse
