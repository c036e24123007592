import RaidTest.Fuse.WriteThrough
import RaidTest.Mirror.Degraded

/-!
# What a read shows

A read looks for a byte of the cached area in the cache and for the others on the members. A
flush, a write elsewhere and a read leave what it finds there.
-/

namespace RaidTest.Fuse
open RaidTest.Base RaidTest.Stripe RaidTest.Cache RaidTest.Mirror

/-! ### Volumes in service -/

/-- A volume of either level, with or without a cache. A mirror has no phases. -/
structure Servable (v : StripeVolume) : Prop where
  stripe : v.raidLevel = .stripe → Ready v
  mirror : v.raidLevel = .mirror → v.checkDisks = true ∧ v.phaseCount = 0
  total : v.virtualTotalBytes ≤ 2^63
  cache : v.cacheEnabled = true → CacheOk v.cache

/-- What no call changes about a volume. -/
structure SameServed (v w : StripeVolume) : Prop where
  layout : SameLayout v w
  enabled : w.cacheEnabled = v.cacheEnabled
  shape : SameShape v.cache w.cache
  busy : w.cacheFlushInProgress = v.cacheFlushInProgress

theorem SameServed.refl (v : StripeVolume) : SameServed v v :=
  ⟨SameLayout.refl v, rfl, ⟨rfl, rfl, rfl, rfl, rfl⟩, rfl⟩

theorem SameServed.trans {u v w : StripeVolume} (h : SameServed u v) (g : SameServed v w) : SameServed u w where
  layout := h.layout.trans g.layout
  enabled := g.enabled.trans h.enabled
  shape := ⟨g.shape.allocated.trans h.shape.allocated, g.shape.blockSize.trans h.shape.blockSize,
    g.shape.count.trans h.shape.count, g.shape.size.trans h.shape.size, g.shape.flushBuffer.trans h.shape.flushBuffer⟩
  busy := g.busy.trans h.busy

theorem SameServed.servable {v w : StripeVolume} (h : SameServed v w) (hv : Servable v) : Servable w := by
  refine ⟨fun hl => h.layout.ready (hv.stripe (h.layout.raidLevel.symm.trans hl)), fun hl => ?_,
    by rw [h.layout.total]; exact hv.total, fun he => h.shape.ok (hv.cache (h.enabled.symm.trans he))⟩
  obtain ⟨hm, hp⟩ := hv.mirror (h.layout.raidLevel.symm.trans hl)
  refine ⟨?_, h.layout.phaseCount.trans hp⟩
  unfold StripeVolume.checkDisks at hm ⊢
  rw [h.layout.diskCount, h.layout.disks]
  exact hm

theorem durable_layout {v w : StripeVolume} (h : SameLayout v w) {d : Disks} {x : ℕ} {val : Byte} :
    Durable w d x val ↔ Durable v d x val := by
  unfold Durable
  rw [h.raidLevel, h.vbyte, h.diskCount, h.diskAt]

theorem SameServed.durable {v w : StripeVolume} (h : SameServed v w) {d : Disks} {x : ℕ} {val : Byte} :
    Durable w d x val ↔ Durable v d x val := durable_layout h.layout

theorem sameServed_addWritten (v : StripeVolume) (ok : Bool) (length : ℕ) : SameServed v (addWritten v ok length) :=
  ⟨sameLayout_addWritten v ok length, addWritten_cacheEnabled v ok length, by rw [addWritten_cache]; exact (SameServed.refl v).shape,
    addWritten_flush v ok length⟩

theorem sameServed_addRead (v : StripeVolume) (ok : Bool) (length : ℕ) : SameServed v (addRead v ok length) :=
  ⟨sameLayout_addRead v ok length, addRead_cacheEnabled v ok length, by rw [addRead_cache]; exact (SameServed.refl v).shape,
    addRead_flush v ok length⟩

theorem sameServed_mirror {v w : StripeVolume} (h : SameMirror v w) : SameServed v w :=
  ⟨h.layout, h.enabled, by rw [h.cache]; exact (SameServed.refl v).shape, h.busy⟩

/-- The end of the cached area. -/
def cacheEnd (v : StripeVolume) : ℕ := if v.cacheEnabled then v.cache.cacheSizeBytes else 0

theorem SameServed.cacheEnd {v w : StripeVolume} (h : SameServed v w) : cacheEnd w = cacheEnd v := by
  unfold Fuse.cacheEnd
  rw [h.enabled, h.shape.size]

theorem cacheEnd_enabled {v : StripeVolume} {x : ℕ} (h : x < cacheEnd v) :
    v.cacheEnabled = true ∧ x < v.cache.cacheSizeBytes := by
  unfold cacheEnd at h
  split at h
  · next he => exact ⟨he, h⟩
  · exact absurd h (Nat.not_lt_zero _)

/-- Where a read looks for byte `x`, it finds `val`. -/
def Visible (v : StripeVolume) (d : Disks) (x : ℕ) (val : Byte) : Prop :=
  if x < cacheEnd v then v.cache.validMap (x / 65536) = true ∧ v.cache.buffer x = val else Durable v d x val

/-- The cache holds what it held, and the members hold what they held at byte `x`. -/
theorem Visible.keep {v w : StripeVolume} {d e : Disks} {x : ℕ} {val : Byte} (h : Visible v d x val) (hs : SameServed v w)
    (hc : x < cacheEnd v → v.cache.validMap (x / 65536) = true →
      w.cache.validMap (x / 65536) = true ∧ w.cache.buffer x = v.cache.buffer x)
    (hd : ¬ x < cacheEnd v → Durable v d x val → Durable v e x val) : Visible w e x val := by
  unfold Visible at h ⊢
  rw [hs.cacheEnd]
  split at h
  · next hx =>
    rw [if_pos hx]
    obtain ⟨hvalid, hbuf⟩ := hc hx h.1
    exact ⟨hvalid, hbuf.trans h.2⟩
  · next hx =>
    rw [if_neg hx]
    exact hs.durable.mpr (hd hx h)

/-! ### Flushes -/

theorem mapLba_unphased {v : StripeVolume} (h : v.phaseCount = 0) (vo length : ℕ) : mapLba v vo length = none := by
  unfold mapLba
  split
  · rfl
  next hin =>
  rw [not_or, Nat.not_le] at hin
  have hno : mapSingleByte v vo = none := by
    unfold mapSingleByte
    rw [h, mapPhases, ite_self]
  simp only
  rw [mapLbaLoop, if_pos ⟨by split <;> omega, by decide⟩, hno]

/-- What a flush does to the cache and to the members past the cached area. -/
structure Flushes (v : StripeVolume) (d : Disks) (w : StripeVolume) (e : Disks) : Prop where
  same : SameServed v w
  buffer : w.cache.buffer = v.cache.buffer
  valid : w.cache.validMap = v.cache.validMap
  frame : ∀ x, v.cache.cacheSizeBytes ≤ x → x < v.virtualTotalBytes → ∀ val, Durable v d x val → Durable v e x val

theorem Flushes.refl (v : StripeVolume) (d : Disks) : Flushes v d v d :=
  ⟨SameServed.refl v, rfl, rfl, fun _ _ _ _ h => h⟩

theorem Flushes.trans {u v w : StripeVolume} {d e f : Disks} (h : Flushes u d v e) (g : Flushes v e w f) :
    Flushes u d w f := by
  refine ⟨h.same.trans g.same, g.buffer.trans h.buffer, g.valid.trans h.valid, fun x hx htotal val hd => ?_⟩
  apply h.same.durable.mp
  apply g.frame x (by rw [h.same.shape.size]; exact hx) (by rw [h.same.layout.total]; exact htotal)
  exact h.same.durable.mpr (h.frame x hx htotal val hd)

theorem flushes_withFlush (v : StripeVolume) (d : Disks) (dirty : ℕ → Bool) (copy : Buf) :
    Flushes v d (withFlush v dirty copy) d :=
  ⟨⟨sameLayout_withFlush v dirty copy, rfl, ⟨rfl, rfl, rfl, rfl, rfl⟩, rfl⟩, rfl, rfl, fun _ _ _ _ h => h⟩

section Flush
variable {v : StripeVolume} (h : Servable v) (he : v.cacheEnabled = true)
include h he

theorem flushWrite_frame (env : BatchEnv) (d : Disks) {b run : ℕ} (hrun : run ≤ 256) (hb : b + run ≤ v.cache.blockCount)
    {x : ℕ} (hx : v.cache.cacheSizeBytes ≤ x) (htotal : x < v.virtualTotalBytes) {val : Byte} (hd : Durable v d x val) :
    Durable v (flushWrite env (copied v b run) d b run).2 x val := by
  have hok := h.cache he
  have hsize := hok.size
  cases hlevel : v.raidLevel with
  | stripe =>
    have hv : CachedVolume v := ⟨h.stripe hlevel, hlevel, hok, he⟩
    rw [CachedVolume.durable hv] at hd ⊢
    exact ((flushWrite_copied hv env d b hrun).frame x htotal (Or.inr (by omega))).trans hd
  | mirror =>
    have hno : mapLba (copied v b run) (b * 65536) (run * 65536) = none :=
      mapLba_unphased (show (copied v b run).phaseCount = 0 from (h.mirror hlevel).2) _ _
    rw [flushWrite_none (cacheOk_copied hok b run) hrun hno]
    exact hd

end Flush

theorem flushLoop_flushes (env : ℕ → BatchEnv) (fuel : ℕ) : ∀ {v : StripeVolume} (_ : Servable v)
    (_ : v.cacheEnabled = true) (b : ℕ) (d : Disks),
    Flushes v d (flushLoop env fuel b v d).1 (flushLoop env fuel b v d).2 := by
  induction fuel with
  | zero => exact fun _ _ b d => Flushes.refl _ d
  | succ fuel ih =>
    intro v h he b d
    by_cases hb : b < v.cache.blockCount
    · have hok := h.cache he
      cases hd : v.cache.dirtyMap b with
      | false =>
        rw [flushLoop_clean env fuel d hb hd]
        exact ih h he (b + 1) d
      | true =>
        obtain ⟨hpos, hrun, hin⟩ := batchRun_spec v.virtualTotalBytes hb hd
        rw [flushLoop_dirty env fuel hok d hb hd rfl]
        generalize batchRun v.cache v.virtualTotalBytes b = run at hpos hrun hin
        have hend : b + run ≤ v.cache.blockCount := by
          have hlast := (hin (run - 1) (by omega)).1
          omega
        have hcopy : ∀ dirty, Flushes v d (withFlush v dirty (copied v b run).cache.flushBuffer) d :=
          fun dirty => flushes_withFlush v d dirty _
        have hwrite : ∀ dirty, Flushes v d (withFlush v dirty (copied v b run).cache.flushBuffer)
            (flushWrite (env b) (copied v b run) d b run).2 := by
          intro dirty
          refine ⟨(hcopy dirty).same, rfl, rfl, fun x hx htotal val hd => ?_⟩
          exact flushWrite_frame h he (env b) d hrun hend hx htotal hd
        split
        · have hf : Flushes v d (copied v b run) d := hcopy v.cache.dirtyMap
          exact hf.trans (ih (hf.same.servable h) (hf.same.enabled.trans he) _ _)
        split
        · have hf : Flushes v d (flushClear (copied v b run) b run) (flushWrite (env b) (copied v b run) d b run).2 :=
            hwrite _
          exact hf.trans (ih (hf.same.servable h) (hf.same.enabled.trans he) _ _)
        · have hf : Flushes v d (copied v b run) (flushWrite (env b) (copied v b run) d b run).2 := hwrite v.cache.dirtyMap
          exact hf.trans (ih (hf.same.servable h) (hf.same.enabled.trans he) _ _)
    · rw [flushLoop, if_neg hb]
      exact Flushes.refl v d

theorem cacheFlushAll_flushes (env : ℕ → BatchEnv) {v : StripeVolume} (h : Servable v) (he : v.cacheEnabled = true)
    (d : Disks) : Flushes v d (cacheFlushAll env v d).1 (cacheFlushAll env v d).2 := by
  unfold cacheFlushAll
  split
  · exact Flushes.refl v d
  next hflag =>
  rw [Bool.not_eq_true] at hflag
  have hv : Servable { v with cacheFlushInProgress := true } :=
    ⟨fun hl => (sameLayout_setFlag v true).ready (h.stripe hl), h.mirror, h.total, h.cache⟩
  have hf := flushLoop_flushes env v.cache.blockCount hv he 0 d
  have hend : ∀ {w : StripeVolume} {e : Disks}, Flushes { v with cacheFlushInProgress := true } d w e →
      Flushes v d { w with cacheFlushInProgress := false } e := by
    intro w e hf
    refine ⟨⟨?_, hf.same.enabled, hf.same.shape, hflag.symm⟩, hf.buffer, hf.valid, fun x hx htotal val hd => ?_⟩
    · exact ((sameLayout_setFlag v true).trans hf.same.layout).trans (sameLayout_setFlag w false)
    · exact (durable_layout (sameLayout_setFlag v true)).mp
        (hf.frame x hx htotal val ((durable_layout (sameLayout_setFlag v true)).mpr hd))
  exact hend hf

theorem Flushes.visible {v w : StripeVolume} {d e : Disks} (hf : Flushes v d w e) {x : ℕ} (hx : x < v.virtualTotalBytes)
    (he : v.cacheEnabled = true) {val : Byte} (h : Visible v d x val) : Visible w e x val := by
  refine h.keep hf.same (fun _ hvalid => ⟨by rw [hf.valid]; exact hvalid, by rw [hf.buffer]⟩) fun hout hd => ?_
  unfold cacheEnd at hout
  rw [if_pos he] at hout
  exact hf.frame x (Nat.not_lt.mp hout) hx val hd

theorem cacheBackpressure_flushes (env : ℕ → BatchEnv) {s : System} (h : Servable s.v) :
    SameServed s.v (cacheBackpressure env s).v ∧ ∀ x < s.v.virtualTotalBytes, ∀ val, Visible s.v s.d x val →
      Visible (cacheBackpressure env s).v (cacheBackpressure env s).d x val := by
  unfold cacheBackpressure
  split
  · exact ⟨SameServed.refl _, fun _ _ _ hv => hv⟩
  next hon =>
  rw [not_or, Bool.not_eq_false] at hon
  split
  · have hf := cacheFlushAll_flushes env h hon.1 s.d
    exact ⟨hf.same, fun x hx val hv => hf.visible hx hon.1 hv⟩
  · exact ⟨SameServed.refl _, fun _ _ _ hv => hv⟩

/-! ### Writes -/

/-- A write past the cached area. -/
structure WrittenBeyond (v : StripeVolume) (d : Disks) (buffer : Buf) (vo length : ℕ) (ok : Bool) (w : StripeVolume)
    (e : Disks) : Prop where
  same : SameServed v w
  cache : w.cache = v.cache
  data : ok = true → ∀ x, vo ≤ x → x < vo + length → Durable v e x (buffer (x - vo))
  frame : ∀ x < v.virtualTotalBytes, x < vo ∨ vo + length ≤ x → ∀ val, Durable v d x val → Durable v e x val

theorem stripeVolumeWrite_beyond {v w : StripeVolume} (h : Servable v) {io : IoEnv} {d e : Disks} {buffer : Buf}
    {vo length : ℕ} {ok : Bool} (hl : length < 2^32) (hpos : 0 < length) (hend : vo + length ≤ v.virtualTotalBytes)
    (hvo : cacheEnd v ≤ vo)
    (hs : stripeVolumeWrite io v d buffer vo length = some (ok, w, e)) : WrittenBeyond v d buffer vo length ok w e := by
  have hcached : ¬ (v.cacheEnabled = true ∧ v.cacheFlushInProgress = false ∧ vo + length ≤ v.cache.cacheSizeBytes) := by
    rintro ⟨he, _, hin⟩
    unfold cacheEnd at hvo
    rw [if_pos he] at hvo
    omega
  cases hlevel : v.raidLevel with
  | stripe =>
    have hr := h.stripe hlevel
    have hdur : ∀ {d : Disks} {x : ℕ} {val : Byte}, Durable v d x val ↔ vbyte v d x = val := by
      intro d x val
      unfold Durable
      simp only [hlevel]
    rw [stripeVolumeWrite_eq hr hlevel io d buffer hpos hend, if_neg hcached] at hs
    obtain ⟨rfl, hdata, hframe⟩ := writeDirect_some hr hl hend hs
    refine ⟨sameServed_addWritten v ok length, addWritten_cache v ok length, fun hok x h1 h2 => hdur.mpr (hdata hok x h1 h2),
      fun x hx hout val hd => ?_⟩
    rw [hdur] at hd ⊢
    exact (hframe x hx hout).trans hd
  | mirror =>
    have hnone : ∀ {u : StripeVolume} {f : Disks}, some (false, v, d) = some (ok, u, f) →
        WrittenBeyond v d buffer vo length ok u f := by
      intro u f he
      simp only [Option.some.injEq, Prod.mk.injEq] at he
      obtain ⟨rfl, rfl, rfl⟩ := he
      exact ⟨SameServed.refl v, rfl, fun hf => absurd hf Bool.false_ne_true, fun _ _ _ _ hd => hd⟩
    unfold stripeVolumeWrite at hs
    split at hs
    · exact hnone hs
    unfold mirrorVolumeWrite at hs
    rw [if_neg (inRange (h.mirror hlevel).1 hpos hend), if_neg hcached] at hs
    rcases mirrorWriteToAll_spec io v d buffer vo length with ⟨_, hr⟩ | ⟨_, hr⟩
    · rw [hr] at hs
      refine hnone ?_
      simp only [addWritten, Bool.false_eq_true, if_false] at hs
      exact hs
    · obtain ⟨hdata, hframe⟩ := durable_of_allWritten hlevel (SameLayout.refl v) hr
      have hvol := hr.volume
      generalize mirrorWriteToAll io v d buffer vo length = r at hr hdata hframe hvol hs
      obtain ⟨any, u, f⟩ := r
      simp only [Option.some.injEq, Prod.mk.injEq] at hs
      obtain ⟨rfl, rfl, rfl⟩ := hs
      have hu := sameServed_mirror hvol
      have hcount : SameServed u (if any = true then { u with bytesWritten := u64 (u.bytesWritten + length) } else u) ∧
          (if any = true then { u with bytesWritten := u64 (u.bytesWritten + length) } else u).cache = u.cache := by
        split
        · exact ⟨⟨⟨rfl, rfl, rfl, rfl, rfl, rfl, rfl, rfl⟩, rfl, (SameServed.refl u).shape, rfl⟩, rfl⟩
        · exact ⟨SameServed.refl u, rfl⟩
      refine ⟨(hu.trans hcount.1).trans (sameServed_addWritten _ any length), ?_, fun _ => hdata, fun x _ => hframe x⟩
      rw [addWritten_cache, hcount.2]
      exact hvol.cache

/-! ### Reads -/

/-- A read on one side of the end of the cached area; a mirror looks into its cache only while no flush runs. -/
def OneSided (v : StripeVolume) (vo length : ℕ) : Prop :=
  cacheEnd v ≤ vo ∨ vo + length ≤ cacheEnd v ∧ (v.raidLevel = .mirror → v.cacheFlushInProgress = false)

/-- A read moves nothing that a read finds, and if it is on one side it brings what is there. -/
structure ReadShown (v : StripeVolume) (d : Disks) (vo length : ℕ) (ok : Bool) (w : StripeVolume) (e : Disks)
    (out : Buf) : Prop where
  same : SameServed v w
  buffer : w.cache.buffer = v.cache.buffer
  valid : w.cache.validMap = v.cache.validMap
  frame : ∀ x val, Durable v d x val → Durable v e x val
  data : ok = true → OneSided v vo length → ∀ data : Buf, (∀ i < length, Visible v d (vo + i) (data i)) →
    ∀ i < length, out i = data i

theorem ReadShown.keep {v w : StripeVolume} {d e : Disks} {vo length : ℕ} {ok : Bool} {out : Buf}
    (h : ReadShown v d vo length ok w e out) {x : ℕ} {val : Byte} (hv : Visible v d x val) : Visible w e x val :=
  hv.keep h.same (fun _ hvalid => ⟨by rw [h.valid]; exact hvalid, by rw [h.buffer]⟩) fun _ hd => h.frame x val hd

/-- Every block the range reaches into is valid. -/
theorem visible_valid {v : StripeVolume} {d : Disks} {vo length : ℕ} {data : Buf} (hpos : 0 < length)
    (hend : vo + length ≤ cacheEnd v) (h : ∀ i < length, Visible v d (vo + i) (data i)) :
    (∀ b, Touches vo length b → v.cache.validMap b = true) ∧ ∀ i < length, v.cache.buffer (vo + i) = data i := by
  have hin : ∀ i < length, v.cache.validMap ((vo + i) / 65536) = true ∧ v.cache.buffer (vo + i) = data i := by
    intro i hi
    have hv := h i hi
    unfold Visible at hv
    rw [if_pos (by omega)] at hv
    exact hv
  refine ⟨fun b hb => ?_, fun i hi => (hin i hi).2⟩
  unfold Touches at hb
  -- the first byte of the range in block `b`
  have hfirst := (hin (max vo (b * 65536) - vo) (by omega)).1
  rw [show (vo + (max vo (b * 65536) - vo)) / 65536 = b by omega] at hfirst
  exact hfirst

theorem visible_durable {v : StripeVolume} {d : Disks} {vo length : ℕ} {data : Buf} (hvo : cacheEnd v ≤ vo)
    (h : ∀ i < length, Visible v d (vo + i) (data i)) : ∀ i < length, Durable v d (vo + i) (data i) := by
  intro i hi
  have hv := h i hi
  unfold Visible at hv
  rw [if_neg (by omega)] at hv
  exact hv

section Reads
variable {v w : StripeVolume} (h : Servable v) {io : IoEnv} {d e : Disks} {buffer out : Buf} {vo length : ℕ} {ok : Bool}
  (hl : length < 2^32) (hpos : 0 < length) (hend : vo + length ≤ v.virtualTotalBytes)
include h hl hpos hend

theorem stripeVolumeRead_stripe (hlevel : v.raidLevel = .stripe)
    (hr : stripeVolumeRead io v d buffer vo length = some (ok, w, e, out)) : ReadShown v d vo length ok w e out := by
  have hready := h.stripe hlevel
  have hdur : ∀ {d : Disks} {x : ℕ} {val : Byte}, Durable v d x val ↔ vbyte v d x = val := by
    intro d x val
    unfold Durable
    simp only [hlevel]
  have hpool : e.pool = d.pool → ∀ x val, Durable v d x val → Durable v e x val := by
    intro hp x val hd
    rw [hdur] at hd ⊢
    unfold vbyte at hd ⊢
    rw [hp]
    exact hd
  cases he : v.cacheEnabled with
  | true =>
    have hv : CachedVolume v := ⟨hready, hlevel, h.cache he, he⟩
    have hdone := read_some hv io d buffer hl hpos hend hr
    obtain ⟨hits, misses, hcache⟩ := hdone.quiet.cache
    have hcend : cacheEnd v = v.cache.cacheSizeBytes := by
      unfold cacheEnd
      rw [if_pos he]
    refine ⟨⟨hdone.quiet.layout, hdone.quiet.enabled, by rw [hcache]; exact ⟨rfl, rfl, rfl, rfl, rfl⟩, hdone.quiet.flush⟩,
      by rw [hcache], by rw [hcache], hpool hdone.pool, fun hok hside data hdata i hi => ?_⟩
    rcases hside with hvo | ⟨hin, _⟩
    · have hmiss : ¬ Hit v vo length := by
        intro hh
        have hsize := hh.1
        omega
      rw [hdone.miss hmiss hok i hi]
      exact hdur.mp (visible_durable hvo hdata i hi)
    · obtain ⟨hvalid, hbytes⟩ := visible_valid hpos hin hdata
      rw [(hdone.hit ⟨by omega, hvalid⟩).2 i hi]
      exact hbytes i hi
  | false =>
    rw [stripeVolumeRead_eq hready hlevel io d buffer hpos hend, if_neg (fun hc => by rw [he] at hc; cases hc.1)] at hr
    obtain ⟨rfl, hp, hdata⟩ := readDirect_some hready hl hend hr
    have hcend : cacheEnd v = 0 := by
      unfold cacheEnd
      rw [he]
      rfl
    refine ⟨sameServed_addRead v ok length, by rw [addRead_cache], by rw [addRead_cache], hpool hp,
      fun hok _ data hd i hi => ?_⟩
    rw [hdata hok i hi]
    exact hdur.mp (visible_durable (by omega) hd i hi)

theorem stripeVolumeRead_mirror (hlevel : v.raidLevel = .mirror)
    (hr : stripeVolumeRead io v d buffer vo length = some (ok, w, e, out)) : ReadShown v d vo length ok w e out := by
  have hmembers := (h.mirror hlevel).1
  have hdur : ∀ {d : Disks} {x : ℕ} {val : Byte}, Durable v d x val ↔
      ∀ i < v.diskCount, (d.info (v.diskAt i)).healthy = true → d.pool (v.diskAt i) x = val := by
    intro d x val
    unfold Durable
    simp only [hlevel]
  have hguard : ¬ (length = 0 ∨ u64 (vo + length) > v.virtualTotalBytes ∨ v.checkDisks = false) := by
    have ht := h.total
    rw [u64_of_lt (by omega), hmembers]
    simp only [Bool.true_eq_false, or_false]
    omega
  have hcall : ∀ {r : Bool × StripeVolume × Disks × Buf}, mirrorVolumeRead io v d buffer vo length = r →
      ok = r.1 ∧ w = addRead r.2.1 r.1 length ∧ e = r.2.2.1 ∧ out = r.2.2.2 := by
    intro r hm
    unfold stripeVolumeRead at hr
    rw [if_neg hguard, if_pos hlevel, hm] at hr
    simp only [Option.some.injEq, Prod.mk.injEq] at hr
    exact ⟨hr.1.symm, hr.2.1.symm, hr.2.2.1.symm, hr.2.2.2.symm⟩
  by_cases hf : FromCache v vo length
  · -- the cache alone
    have hok := h.cache hf.1
    obtain ⟨hits, misses, hcache⟩ := cacheRead_cache v.cache buffer vo length
    have hcases := cacheRead_cases hok buffer vo hl
    have hm : mirrorVolumeRead io v d buffer vo length =
        ((cacheRead v.cache buffer vo length).1,
          (if (cacheRead v.cache buffer vo length).1 then
            { v with
              cache := (cacheRead v.cache buffer vo length).2.2
              bytesRead := u64 (v.bytesRead + length) }
          else { v with cache := (cacheRead v.cache buffer vo length).2.2 }), d,
          (cacheRead v.cache buffer vo length).2.1) := by
      unfold mirrorVolumeRead
      rw [if_neg (inRange hmembers hpos hend), if_pos (show _ ∧ _ ∧ _ from hf)]
    obtain ⟨rfl, rfl, rfl, rfl⟩ := hcall hm
    simp only [hcache] at hcases ⊢
    have hside : cacheEnd v = v.cache.cacheSizeBytes := by
      unfold cacheEnd
      rw [if_pos hf.1]
    have hsame : ∀ ok : Bool, SameServed v (addRead (if ok then
        { v with
          cache := { v.cache with hitCount := hits, missCount := misses }
          bytesRead := u64 (v.bytesRead + length) }
        else { v with cache := { v.cache with hitCount := hits, missCount := misses } }) ok length) ∧
        (addRead (if ok then
          { v with
            cache := { v.cache with hitCount := hits, missCount := misses }
            bytesRead := u64 (v.bytesRead + length) }
          else { v with cache := { v.cache with hitCount := hits, missCount := misses } }) ok length).cache =
          { v.cache with hitCount := hits, missCount := misses } := by
      intro ok
      cases ok with
      | true => exact ⟨⟨⟨rfl, rfl, rfl, rfl, rfl, rfl, rfl, rfl⟩, rfl, ⟨rfl, rfl, rfl, rfl, rfl⟩, rfl⟩, rfl⟩
      | false => exact ⟨⟨⟨rfl, rfl, rfl, rfl, rfl, rfl, rfl, rfl⟩, rfl, ⟨rfl, rfl, rfl, rfl, rfl⟩, rfl⟩, rfl⟩
    obtain ⟨hserved, hnew⟩ := hsame (cacheRead v.cache buffer vo length).1
    refine ⟨hserved, by rw [hnew], by rw [hnew], fun _ _ hd => hd, fun htrue hone data hdata i hi => ?_⟩
    rcases hcases with ⟨_, _, hin, _, hout⟩ | ⟨hfalse, _⟩
    · rcases hone with hvo | ⟨hin', _⟩
      · omega
      · rw [hout, Buf.put_of_mem _ _ (Nat.zero_le i) (by omega), Nat.sub_zero, Buf.shift]
        exact (visible_valid hpos hin' hdata).2 i hi
    · rw [hfalse] at htrue
      cases htrue
  · -- the members
    have hread := mirrorReadLoop_spec io vo length v.diskCount 0 v d buffer
    have hm := mirrorVolumeRead_members hmembers hpos hend io d buffer hf
    generalize mirrorReadLoop io vo length v.diskCount 0 v d buffer = r at hread hm
    obtain ⟨rfl, rfl, rfl, rfl⟩ := hcall hm
    have hserved := (sameServed_mirror hread.volume).trans (sameServed_addRead r.2.1 r.1 length)
    refine ⟨hserved, by rw [addRead_cache, hread.volume.cache], by rw [addRead_cache, hread.volume.cache],
      fun x val hd => ?_, fun hok hone data hdata i hi => ?_⟩
    · rw [hdur] at hd ⊢
      intro i hi hup
      rw [hread.pool]
      exact hd i hi (hread.healthy _ hup)
    · have hvo : cacheEnd v ≤ vo := by
        rcases hone with hvo | ⟨hin, hbusy⟩
        · exact hvo
        · obtain ⟨he, hsize⟩ := cacheEnd_enabled (show vo < cacheEnd v by omega)
          refine absurd ⟨he, hbusy hlevel, ?_⟩ hf
          unfold cacheEnd at hin
          rw [if_pos he] at hin
          exact hin
      obtain ⟨j, _, hj, hup, hbytes⟩ := hread.data hok
      rw [hbytes i hi]
      exact hdur.mp (visible_durable hvo hdata i hi) j (by omega) hup

theorem stripeVolumeRead_shown (hr : stripeVolumeRead io v d buffer vo length = some (ok, w, e, out)) :
    ReadShown v d vo length ok w e out := by
  cases hlevel : v.raidLevel with
  | stripe => exact stripeVolumeRead_stripe h hl hpos hend hlevel hr
  | mirror => exact stripeVolumeRead_mirror h hl hpos hend hlevel hr

end Reads

/-! ### Turns of `raid_write` -/

/-- After `total` bytes of a write of `buffer`: a read finds them, and outside the range what it found before. -/
structure Shown (v : StripeVolume) (d : Disks) (buffer : Buf) (vo len total : ℕ) (s : System) : Prop where
  same : SameServed v s.v
  data : ∀ x, vo ≤ x → x < vo + total → Visible s.v s.d x (buffer (x - vo))
  frame : ∀ x < v.virtualTotalBytes, x < vo ∨ vo + len ≤ x → ∀ val, Visible v d x val → Visible s.v s.d x val

theorem Shown.start (v : StripeVolume) (d : Disks) (buffer : Buf) (vo len : ℕ) {s : System} (hv : s.v = v) (hd : s.d = d) :
    Shown v d buffer vo len 0 s := by
  subst hv
  subst hd
  exact ⟨SameServed.refl _, fun x h1 h2 => by omega, fun _ _ _ _ h => h⟩

/-- Bytes that are found as before stay shown. -/
theorem Shown.keep {v : StripeVolume} {d : Disks} {buffer : Buf} {vo len total : ℕ} {s t : System}
    (h : Shown v d buffer vo len total s) (hs : SameServed s.v t.v) (hend : vo + total ≤ v.virtualTotalBytes)
    (hkeep : ∀ x < s.v.virtualTotalBytes, (x < vo + total ∨ vo + len ≤ x) → ∀ val, Visible s.v s.d x val →
      Visible t.v t.d x val) : Shown v d buffer vo len total t := by
  have htotal := h.same.layout.total
  refine ⟨h.same.trans hs, fun x h1 h2 => ?_, fun x hx hout val hv => ?_⟩
  · exact hkeep x (by omega) (Or.inl h2) _ (h.data x h1 h2)
  · exact hkeep x (by omega) (by omega) _ (h.frame x hx hout val hv)

/-- One turn of `raid_write`. -/
theorem raidWriteChunk_shown {v : StripeVolume} (hv : Servable v) {d : Disks} {vo len : ℕ}
    (hend : vo + len ≤ v.virtualTotalBytes) {env : ChunkEnv} {buffer : Buf} {total n : ℕ} {s t : System}
    (hs : Shown v d buffer vo len total s) (hlt : total < len)
    (hc : raidWriteChunk env (buffer.shift total) (vo + total) (len - total) s = some (n, t)) :
    Shown v d buffer vo len (total + n) t := by
  have hmax : maxChunk = 67108864 := rfl
  have hsv := hs.same.servable hv
  have htotal := hs.same.layout.total
  -- a turn that shows `n` more bytes and keeps the others
  have hturn : ∀ {u : System} {n : ℕ}, Shown v d buffer vo len total u → n ≤ len - total → SameServed u.v t.v →
      (∀ x, vo + total ≤ x → x < vo + total + n → Visible t.v t.d x ((buffer.shift total) (x - (vo + total)))) →
      (∀ x < u.v.virtualTotalBytes, (x < vo + total ∨ vo + len ≤ x) → ∀ val, Visible u.v u.d x val →
        Visible t.v t.d x val) → Shown v d buffer vo len (total + n) t := by
    intro u n hu hn hsame hdata hkeep
    have hold := hu.keep hsame (by omega) hkeep
    refine ⟨hold.same, fun x h1 h2 => ?_, hold.frame⟩
    by_cases hx : x < vo + total
    · exact hold.data x h1 hx
    · have hd := hdata x (by omega) (by omega)
      rw [Buf.shift, show total + (x - (vo + total)) = x - vo by omega] at hd
      exact hd
  by_cases hcached : s.v.cacheEnabled = true ∧ vo + total < s.v.cache.cacheSizeBytes
  · -- into the cache, after the back-pressure
    have hok := hsv.cache hcached.1
    obtain ⟨hback, hkept⟩ := cacheBackpressure_flushes env.flush hsv
    have hu := hs.keep hback (by omega) (fun x hx _ val hv => hkept x hx val hv)
    unfold raidWriteChunk at hc
    rw [if_pos hcached] at hc
    simp only [minU64_eq] at hc
    generalize cacheBackpressure env.flush s = u at hc hback hkept hu
    have huok := hback.shape.ok hok
    have husize := hback.shape.size
    have henabled : u.v.cacheEnabled = true := hback.enabled.trans hcached.1
    generalize hlen : min (len - total) (min maxChunk (u.v.cache.cacheSizeBytes - (vo + total))) = cacheLen at hc
    rw [if_pos (show cacheLen > 0 by omega), cacheWrite_stored huok _ (by omega) (by omega) (by omega)] at hc
    obtain ⟨rfl, rfl⟩ := Prod.mk.inj (Option.some.inj hc)
    have hsame : SameServed u.v { u.v with
        cache := stored u.v.cache (buffer.shift total) (vo + total) cacheLen
        bytesWritten := u64 (u.v.bytesWritten + cacheLen) } :=
      ⟨⟨rfl, rfl, rfl, rfl, rfl, rfl, rfl, rfl⟩, rfl, ⟨rfl, rfl, rfl, rfl, rfl⟩, rfl⟩
    have hcend : cacheEnd u.v = u.v.cache.cacheSizeBytes := by
      unfold cacheEnd
      rw [if_pos henabled]
    refine hturn hu (by omega) hsame (fun x h1 h2 => ?_) fun x hx hout val hv => ?_
    · unfold Visible
      rw [hsame.cacheEnd, hcend, if_pos (by omega)]
      refine ⟨?_, Buf.put_of_mem _ _ h1 h2⟩
      show (u.v.cache.validMap (x / 65536) || decide (Touches (vo + total) cacheLen (x / 65536))) = true
      rw [decide_eq_true (touches_of_mem h1 h2), Bool.or_true]
    · refine hv.keep hsame (fun _ hvalid => ⟨?_, Buf.put_of_not_mem _ _ (by omega)⟩) fun _ hd => hd
      show (u.v.cache.validMap (x / 65536) || _) = true
      rw [hvalid, Bool.true_or]
  · -- to the members
    have hbeyond : cacheEnd s.v ≤ vo + total := by
      unfold cacheEnd
      split
      · next he => exact Nat.not_lt.mp fun hlt => hcached ⟨he, hlt⟩
      · exact Nat.zero_le _
    unfold raidWriteChunk at hc
    rw [if_neg hcached] at hc
    obtain ⟨ok, w, e, hwrite, rfl, rfl⟩ := writeChunkDirect_some hc
    have hw := stripeVolumeWrite_beyond hsv (by omega) (by omega) (by omega) hbeyond hwrite
    refine hturn hs (by split <;> omega) hw.same (fun x h1 h2 => ?_) fun x hx hout val hv => ?_
    · cases ok with
      | false => exact absurd h2 (by simpa using h1)
      | true =>
        simp only [if_true] at h2
        unfold Visible
        rw [hw.same.cacheEnd, if_neg (by omega)]
        exact hw.same.durable.mpr (hw.data rfl x h1 h2)
    · refine hv.keep hw.same (fun _ hvalid => ?_) fun _ hd => hw.frame x hx (by omega) val hd
      simp only [hw.cache]
      exact ⟨hvalid, trivial⟩

end RaidTest.Fuse
