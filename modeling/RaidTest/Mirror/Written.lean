import RaidTest.Mirror.Members
import RaidTest.Stripe.ReadWrite

/-!
# Mirror writes whose transfers succeed

With no failing transfer a write reaches exactly the members that are healthy, not faulty
and backed by memory or an open handle; the others are dropped and keep their bytes.
-/

namespace RaidTest.Mirror
open RaidTest.Cache RaidTest.Stripe

/-- A write reaches the disk. -/
def writable (d : Disks) (i : DiskId) : Bool :=
  (d.info i).healthy && !(d.info i).faulty && ((d.info i).ramBuffer || (d.info i).hasHandle)

/-- A member from number `i` on, of `n`, is the disk `k`. -/
def Serves (v : StripeVolume) (i n : ℕ) (k : DiskId) : Prop := ∃ j, i ≤ j ∧ j < i + n ∧ v.diskAt j = k

theorem serves_succ (v : StripeVolume) (i n : ℕ) (k : DiskId) :
    Serves v i (n + 1) k ↔ v.diskAt i = k ∨ Serves v (i + 1) n k := by
  constructor
  · rintro ⟨j, h1, h2, h3⟩
    by_cases he : j = i
    · exact Or.inl (he ▸ h3)
    · exact Or.inr ⟨j, by omega, by omega, h3⟩
  · rintro (h | ⟨j, h1, h2, h3⟩)
    · exact ⟨i, Nat.le_refl i, by omega, h⟩
    · exact ⟨j, by omega, by omega, h3⟩

theorem setHealthy_writable (d : Disks) (i k : DiskId) (b : Bool) :
    writable (setHealthy d i b) k =
      if k = i then b && !(d.info k).faulty && ((d.info k).ramBuffer || (d.info k).hasHandle) else writable d k := by
  unfold writable setHealthy Disks.setInfo
  by_cases h : k = i
  · simp only [h, if_true]
  · simp only [h, if_false]

theorem stripeIoOk_writable (d : Disks) (i k : DiskId) (ok : Bool) (h : ok = true ∨ writable d i = false) :
    writable (stripeIoOk d i ok) k = writable d k := by
  by_cases hk : k = i
  · subst hk
    cases ok with
    | true => simp only [writable, stripeIoOk, Disks.setInfo, if_true]
    | false =>
      have hw : writable d k = false := h.resolve_left (by decide)
      rw [hw]
      unfold writable at hw ⊢
      simp only [stripeIoOk, Disks.setInfo, Bool.false_eq_true, if_false, if_true]
      cases hb : (d.info k).healthy <;> cases hf : (d.info k).faulty <;>
        cases hr : ((d.info k).ramBuffer || (d.info k).hasHandle) <;> simp_all
  · unfold writable stripeIoOk Disks.setInfo
    cases ok <;> simp only [hk, if_false, if_true, Bool.false_eq_true]

/-- After the write loop when no transfer fails: exactly the writable members hold the bytes. -/
structure WrittenOk (v : StripeVolume) (d : Disks) (buffer : Buf) (offset length i n : ℕ) (anyOk : Bool)
    (r : Bool × StripeVolume × Disks) : Prop where
  layout : SameLayout v r.2.1
  written : ∀ k p, Serves v i n k → writable d k = true → offset ≤ p → p < offset + length →
    r.2.2.pool k p = buffer (p - offset)
  frame : ∀ k p, ¬ (Serves v i n k ∧ writable d k = true ∧ offset ≤ p ∧ p < offset + length) →
    r.2.2.pool k p = d.pool k p
  still : ∀ k, writable r.2.2 k = writable d k
  healthy : ∀ k, (r.2.2.info k).healthy = true →
    (d.info k).healthy = true ∧ (Serves v i n k → writable d k = true)
  any : r.1 = true ↔ anyOk = true ∨ ∃ k, Serves v i n k ∧ writable d k = true

/-- A member that is not written, in front of the later ones. -/
theorem WrittenOk.pass {v w : StripeVolume} {d e : Disks} {buffer : Buf} {offset length i n : ℕ} {anyOk : Bool}
    {r : Bool × StripeVolume × Disks} (h : WrittenOk w e buffer offset length (i + 1) n anyOk r)
    (hv : SameLayout v w) (hw : writable d (v.diskAt i) = false) (hpool : e.pool = d.pool)
    (hwritable : ∀ k, writable e k = writable d k)
    (hhealthy : ∀ k, (e.info k).healthy = true → (d.info k).healthy = true ∧ k ≠ v.diskAt i) :
    WrittenOk v d buffer offset length i (n + 1) anyOk r := by
  have hserves : ∀ k, Serves w (i + 1) n k ↔ Serves v (i + 1) n k := fun k => by
    unfold Serves
    rw [hv.diskAt]
  have hiff : ∀ k, Serves v i (n + 1) k ∧ writable d k = true ↔ Serves v (i + 1) n k ∧ writable d k = true := by
    intro k
    rw [serves_succ]
    refine ⟨fun ⟨hs, hk⟩ => ⟨hs.resolve_left fun he => ?_, hk⟩, fun ⟨hs, hk⟩ => ⟨Or.inr hs, hk⟩⟩
    rw [← he, hw] at hk
    cases hk
  refine ⟨hv.trans h.layout, fun k p hs hk h1 h2 => ?_, fun k p hn => ?_, fun k => (h.still k).trans (hwritable k),
    fun k hk => ?_, ?_⟩
  · have hk' := (hiff k).mp ⟨hs, hk⟩
    exact h.written k p ((hserves k).mpr hk'.1) ((hwritable k).trans hk) h1 h2
  · refine (h.frame k p fun ⟨h1, h2, h3⟩ => hn ?_).trans (by rw [hpool])
    have hk' := (hiff k).mpr ⟨(hserves k).mp h1, (hwritable k).symm.trans h2⟩
    exact ⟨hk'.1, hk'.2, h3⟩
  · obtain ⟨h1, h2⟩ := h.healthy k hk
    obtain ⟨h3, h4⟩ := hhealthy k h1
    refine ⟨h3, fun hs => ?_⟩
    rcases (serves_succ v i n k).mp hs with he | hs
    · exact absurd he.symm h4
    · exact (hwritable k).symm.trans (h2 ((hserves k).mpr hs))
  · rw [h.any]
    refine or_congr_right (exists_congr fun k => ?_)
    rw [hserves, hwritable, hiff]

/-- A member that is written, in front of the later ones. -/
theorem WrittenOk.write {v : StripeVolume} {d e : Disks} {buffer : Buf} {offset length i n : ℕ} {anyOk : Bool}
    {r : Bool × StripeVolume × Disks} (h : WrittenOk v e buffer offset length (i + 1) n true r)
    (hw : writable d (v.diskAt i) = true) (hpool : e.pool = (d.writePool (v.diskAt i) offset length buffer).pool)
    (hwritable : ∀ k, writable e k = writable d k)
    (hhealthy : ∀ k, (e.info k).healthy = (d.info k).healthy) :
    WrittenOk v d buffer offset length i (n + 1) anyOk r := by
  refine ⟨h.layout, fun k p hs hk h1 h2 => ?_, fun k p hn => ?_, fun k => (h.still k).trans (hwritable k),
    fun k hk => ?_, ?_⟩
  · by_cases hs' : Serves v (i + 1) n k
    · exact h.written k p hs' ((hwritable k).trans hk) h1 h2
    · have he := ((serves_succ v i n k).mp hs).resolve_right hs'
      refine (h.frame k p fun hc => hs' hc.1).trans ?_
      rw [hpool, ← he]
      exact writePool_data d _ offset length buffer h1 h2
  · refine (h.frame k p fun ⟨h1, h2, h3⟩ => hn ?_).trans ?_
    · exact ⟨(serves_succ v i n k).mpr (Or.inr h1), (hwritable k).symm.trans h2, h3⟩
    · rw [hpool]
      refine writePool_other d _ offset length buffer ?_
      by_contra hc
      simp only [not_or, not_not, Nat.not_lt, Nat.not_le] at hc
      obtain ⟨rfl, h1, h2⟩ := hc
      exact hn ⟨(serves_succ v i n _).mpr (Or.inl rfl), hw, h1, h2⟩
  · obtain ⟨h1, h2⟩ := h.healthy k hk
    refine ⟨(hhealthy k).symm.trans h1, fun hs => ?_⟩
    rcases (serves_succ v i n k).mp hs with he | hs
    · rw [← he]
      exact hw
    · exact (hwritable k).symm.trans (h2 hs)
  · rw [h.any]
    exact ⟨fun _ => Or.inr ⟨_, (serves_succ v i n _).mpr (Or.inl rfl), hw⟩, fun _ => Or.inl rfl⟩

theorem dropMember_layout (v : StripeVolume) (d : Disks) (i : DiskId) : SameLayout v (dropMember v d i).1 :=
  (dropMember_spec v d i 0 0).1.layout

/-- Dropping a disk that is not written anyway. -/
theorem WrittenOk.drop {v : StripeVolume} {d e : Disks} {buffer : Buf} {offset length i n : ℕ} {anyOk : Bool}
    {r : Bool × StripeVolume × Disks}
    (h : WrittenOk (dropMember v e (v.diskAt i)).1 (dropMember v e (v.diskAt i)).2 buffer offset length (i + 1) n
      anyOk r)
    (hw : writable d (v.diskAt i) = false) (hpool : e.pool = d.pool)
    (hwritable : ∀ k, writable e k = writable d k)
    (hhealthy : ∀ k, (e.info k).healthy = (d.info k).healthy) :
    WrittenOk v d buffer offset length i (n + 1) anyOk r := by
  refine h.pass (dropMember_layout v e _) hw hpool (fun k => ?_) fun k hk => ?_
  · refine (setHealthy_writable e _ k false).trans ?_
    split
    · next he => rw [he, hw, Bool.false_and, Bool.false_and]
    · exact hwritable k
  · have hh : ((setHealthy e (v.diskAt i) false).info k).healthy = true := hk
    rw [setHealthy_info] at hh
    split at hh
    · cases hh
    · next hne => exact ⟨(hhealthy k).symm.trans hh, hne⟩

theorem mirrorWriteLoop_ok {io : IoEnv} (hio : io.Succeeds) (buffer : Buf) (offset length n : ℕ) :
    ∀ (i : ℕ) (anyOk : Bool) (v : StripeVolume) (d : Disks),
      WrittenOk v d buffer offset length i n anyOk
        (mirrorWriteLoop io buffer offset length n i anyOk v d) := by
  induction n with
  | zero =>
    intro i anyOk v d
    have hno : ∀ k, ¬ Serves v i 0 k := fun k ⟨j, h1, h2, _⟩ => by omega
    refine ⟨SameLayout.refl v, fun k p hs => absurd hs (hno k), fun _ _ _ => rfl, fun _ => rfl,
      fun k hk => ⟨hk, fun hs => absurd hs (hno k)⟩, ?_⟩
    exact ⟨Or.inl, fun h => h.resolve_right fun ⟨k, hs, _⟩ => hno k hs⟩
  | succ n ih =>
    intro i anyOk v d
    unfold mirrorWriteLoop
    simp only
    split
    · next hun =>
      refine (ih (i + 1) anyOk v d).pass (SameLayout.refl v) ?_ rfl (fun _ => rfl) fun k hk => ⟨hk, ?_⟩
      · rw [writable, hun, Bool.false_and, Bool.false_and]
      · rintro rfl
        rw [hun] at hk
        cases hk
    next hup =>
    split
    · next hfaulty =>
      refine (ih (i + 1) anyOk _ _).drop ?_ rfl (fun _ => rfl) fun _ => rfl
      rw [writable, hfaulty, Bool.not_true, Bool.and_false, Bool.false_and]
    next hfaulty =>
    have hwrite : writable d (v.diskAt i) =
        ((d.info (v.diskAt i)).ramBuffer || (d.info (v.diskAt i)).hasHandle) := by
      simp only [Bool.not_eq_false] at hup
      simp only [Bool.not_eq_true] at hfaulty
      rw [writable, hup, hfaulty, Bool.not_false, Bool.true_and, Bool.true_and]
    unfold stripeWriteRaw
    rw [hio.2 i]
    by_cases hram : (d.info (v.diskAt i)).ramBuffer = true
    · rw [if_pos hram]
      exact (ih (i + 1) true v _).write (by rw [hwrite, hram, Bool.true_or]) rfl (fun _ => rfl) fun _ => rfl
    · rw [if_neg hram, if_neg hfaulty]
      by_cases hhandle : (d.info (v.diskAt i)).hasHandle = true
      · rw [if_pos hhandle]
        refine (ih (i + 1) true v _).write (by rw [hwrite, hhandle, Bool.or_true])
          (stripeIoOk_pool _ _ true) (fun k => ?_) fun k => stripeIoOk_healthy _ _ true k
        exact stripeIoOk_writable _ _ k true (Or.inl rfl)
      · rw [if_neg hhandle]
        have hw : writable d (v.diskAt i) = false := by
          rw [hwrite]
          simp only [Bool.not_eq_true] at hram hhandle
          rw [hram, hhandle, Bool.or_false]
        exact (ih (i + 1) anyOk _ _).drop hw (stripeIoOk_pool d _ false)
          (fun k => stripeIoOk_writable d _ k false (Or.inr hw)) fun k => stripeIoOk_healthy d _ false k

theorem cacheWrite_writeThrough (c : RamCache) (data : Buf) (offset length : ℕ) :
    (cacheWrite c data offset length).2.writeThrough = c.writeThrough := by
  unfold cacheWrite
  split <;> rfl

/-- The cache takes the write and the members do not see it. -/
def Absorbed (v : StripeVolume) (offset length : ℕ) : Prop :=
  v.cacheEnabled = true ∧ v.cacheFlushInProgress = false ∧ offset + length ≤ v.cache.cacheSizeBytes ∧
    v.cache.writeThrough = false

/-- A write past the cache or through it is refused, or goes to every writable member. -/
theorem mirrorVolumeWrite_ok {io : IoEnv} (hio : io.Succeeds) (v : StripeVolume) (d : Disks) (buffer : Buf)
    (offset length : ℕ) (hcache : ¬ Absorbed v offset length) :
    ((mirrorVolumeWrite io v d buffer offset length).1 = false ∧
        SameLayout v (mirrorVolumeWrite io v d buffer offset length).2.1 ∧
        (mirrorVolumeWrite io v d buffer offset length).2.2 = d) ∨
      offset + length ≤ v.virtualTotalBytes ∧
        WrittenOk v d buffer offset length 0 v.diskCount false
          (mirrorVolumeWrite io v d buffer offset length) := by
  unfold mirrorVolumeWrite
  split
  · exact Or.inl ⟨rfl, SameLayout.refl v, rfl⟩
  next hg =>
  simp only [not_or, Bool.not_eq_true] at hg
  have hall : ∀ w, SameLayout v w → ∃ x, mirrorWriteToAll io w d buffer offset length = x ∧
      offset + length ≤ v.virtualTotalBytes ∧ WrittenOk v d buffer offset length 0 v.diskCount false x := by
    intro w hw
    have hrange : outOfRange w offset length = outOfRange v offset length := by
      unfold outOfRange
      rw [hw.total]
    refine ⟨_, rfl, ?_, ?_⟩
    · have hno := mt (outOfRange_iff v offset length).mpr (by rw [hg.2.1]; exact Bool.false_ne_true)
      omega
    · unfold mirrorWriteToAll
      rw [hrange, hg.2.1, if_neg (by simpa only [Bool.false_eq_true, or_false] using hg.1), hw.diskCount]
      have h := mirrorWriteLoop_ok hio buffer offset length v.diskCount 0 false w d
      have hserves : ∀ k, Serves w 0 v.diskCount k ↔ Serves v 0 v.diskCount k := fun k => by
        unfold Serves
        rw [hw.diskAt]
      refine ⟨hw.trans h.layout, fun k p hs => h.written k p ((hserves k).mpr hs), fun k p hn => ?_, h.still,
        fun k hk => ?_, ?_⟩
      · exact h.frame k p fun hc => hn ⟨(hserves k).mp hc.1, hc.2⟩
      · obtain ⟨h1, h2⟩ := h.healthy k hk
        exact ⟨h1, fun hs => h2 ((hserves k).mpr hs)⟩
      · rw [h.any]
        exact or_congr_right (exists_congr fun k => by rw [hserves])
  split
  · next hc =>
    generalize hcw : cacheWrite v.cache buffer offset length = c
    obtain ⟨ok, cache⟩ := c
    have hwt := cacheWrite_writeThrough v.cache buffer offset length
    rw [hcw] at hwt
    have hthrough : cache.writeThrough = true := by
      by_contra hn
      exact hcache ⟨hc.1, hc.2.1, hc.2.2, by rw [← hwt]; simpa using hn⟩
    simp only
    cases ok with
    | false =>
      rw [if_neg (fun hf => Bool.false_ne_true hf.1)]
      exact Or.inl ⟨rfl, sameLayout_cache v cache, rfl⟩
    | true =>
      rw [if_pos ⟨rfl, hthrough⟩]
      obtain ⟨x, hx, hin, hw⟩ := hall { v with cache := cache } (sameLayout_cache v cache)
      rw [hx]
      obtain ⟨any, w, e⟩ := x
      cases any with
      | true =>
        exact Or.inr ⟨hin, hw.layout.trans ⟨rfl, rfl, rfl, rfl, rfl, rfl, rfl, rfl⟩, hw.written, hw.frame,
          hw.still, hw.healthy, hw.any⟩
      | false =>
        exact Or.inr ⟨hin, hw.layout.trans (sameLayout_cache w _), hw.written, hw.frame, hw.still,
          hw.healthy, hw.any⟩
  · obtain ⟨x, hx, hin, hw⟩ := hall v (SameLayout.refl v)
    rw [hx]
    obtain ⟨any, w, e⟩ := x
    cases any with
    | true =>
      exact Or.inr ⟨hin, hw.layout.trans ⟨rfl, rfl, rfl, rfl, rfl, rfl, rfl, rfl⟩, hw.written, hw.frame,
        hw.still, hw.healthy, hw.any⟩
    | false => exact Or.inr ⟨hin, hw.layout, hw.written, hw.frame, hw.still, hw.healthy, hw.any⟩

/-! ### The layout -/

theorem mirrorVolumeWrite_layout (io : IoEnv) (v : StripeVolume) (d : Disks) (buffer : Buf) (offset length : ℕ) :
    SameLayout v (mirrorVolumeWrite io v d buffer offset length).2.1 := by
  have hall : ∀ w, SameLayout w (mirrorWriteToAll io w d buffer offset length).2.1 := by
    intro w
    rcases mirrorWriteToAll_spec io w d buffer offset length with ⟨_, he⟩ | ⟨_, h⟩
    · rw [he]
      exact SameLayout.refl w
    · exact h.volume.layout
  have hcount : ∀ (u : StripeVolume) n, SameLayout u { u with bytesWritten := n } := fun u n =>
    ⟨rfl, rfl, rfl, rfl, rfl, rfl, rfl, rfl⟩
  unfold mirrorVolumeWrite
  split
  · exact SameLayout.refl v
  split
  · generalize cacheWrite v.cache buffer offset length = c
    obtain ⟨ok, cache⟩ := c
    simp only
    have hc := sameLayout_cache v cache
    split
    · have hw := hall { v with cache := cache }
      generalize mirrorWriteToAll io { v with cache := cache } d buffer offset length = r at hw
      obtain ⟨any, w, e⟩ := r
      cases any with
      | true => exact (hc.trans hw).trans (hcount _ _)
      | false => exact (hc.trans hw).trans (sameLayout_cache _ _)
    · cases ok with
      | true => exact hc.trans (hcount _ _)
      | false => exact hc
  · have hw := hall v
    generalize mirrorWriteToAll io v d buffer offset length = r at hw
    obtain ⟨any, w, e⟩ := r
    cases any with
    | true => exact hw.trans (hcount _ _)
    | false => exact hw

theorem writeDirect_layout {io : IoEnv} {v w : StripeVolume} {d e : Disks} {buffer : Buf} {vo length : ℕ} {ok : Bool}
    (h : writeDirect io v d buffer vo length = some (ok, w, e)) : SameLayout v w := by
  unfold writeDirect at h
  split at h
  · simp only [Option.some.injEq, Prod.mk.injEq] at h
    exact h.2.1 ▸ SameLayout.refl v
  split at h
  · cases h
  · simp only [Option.some.injEq, Prod.mk.injEq] at h
    exact h.2.1 ▸ sameLayout_addWritten v _ length

theorem writeCached_layout {io : IoEnv} {v w : StripeVolume} {d e : Disks} {buffer : Buf} {vo length : ℕ} {ok : Bool}
    (h : writeCached io v d buffer vo length = some (ok, w, e)) : SameLayout v w := by
  have hstore : ∀ (cache : RamCache) b, SameLayout v (addWritten { v with cache := cache } b length) := fun cache b =>
    (sameLayout_cache v cache).trans (sameLayout_addWritten _ b length)
  unfold writeCached at h
  split at h
  · split at h
    · simp only [Option.some.injEq, Prod.mk.injEq] at h
      exact h.2.1 ▸ SameLayout.refl v
    split at h
    · cases h
    · simp only [Option.some.injEq, Prod.mk.injEq] at h
      exact h.2.1 ▸ SameLayout.refl v
    · simp only [Option.some.injEq, Prod.mk.injEq] at h
      exact h.2.1 ▸ hstore _ _
  · simp only [Option.some.injEq, Prod.mk.injEq] at h
    exact h.2.1 ▸ hstore _ _

/-- Whatever becomes of a write, the volume is laid out as before. -/
theorem stripeVolumeWrite_layout {io : IoEnv} {v w : StripeVolume} {d e : Disks} {buffer : Buf} {vo length : ℕ}
    {ok : Bool} (h : stripeVolumeWrite io v d buffer vo length = some (ok, w, e)) : SameLayout v w := by
  unfold stripeVolumeWrite at h
  split at h
  · simp only [Option.some.injEq, Prod.mk.injEq] at h
    exact h.2.1 ▸ SameLayout.refl v
  split at h
  · have hw := mirrorVolumeWrite_layout io v d buffer vo length
    simp only [Option.some.injEq, Prod.mk.injEq] at h
    exact h.2.1 ▸ hw.trans (sameLayout_addWritten _ _ length)
  split at h
  · exact writeCached_layout h
  · exact writeDirect_layout h

end RaidTest.Mirror
