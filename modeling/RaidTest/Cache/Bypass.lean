import RaidTest.Cache.Machine

/-!
# Writes past the cache

While a flush runs, and beyond the end of the cache, `stripe_volume_write` goes to the
members and leaves the cache as it is: the bytes of a valid block, and the copy a flush
has taken, stay the older ones.
-/

namespace RaidTest.Cache
open RaidTest.Base RaidTest.Stripe

/-- Neither the cache nor a batch on its way to the members holds byte `x` with another
value. -/
structure Unshadowed (s : System) (x : ℕ) (val : Byte) : Prop where
  cache : x < s.v.cache.cacheSizeBytes → s.v.cache.validMap (x / 65536) = true →
    s.v.cache.buffer x = val
  batch : ∀ b run, s.flush = .copied b run → b * 65536 ≤ x → x < (b + run) * 65536 →
    s.v.cache.flushBuffer (x - b * 65536) = val

structure Owned (s : System) (x : ℕ) (val : Byte) : Prop extends Unshadowed s x val where
  disk : vbyte s.v s.d x = val

/-- A step that does not write byte `x`, does not make its block valid with another byte
in the buffer, and does not fail in the transfers of its block. -/
structure Harmless (x : ℕ) (s : System) (l : Label) : Prop where
  apart : ∀ c, l.call = some c → ¬ c.covers x
  cached : ∀ c, l.cached = some c → c.vo + c.length ≤ s.v.cache.cacheSizeBytes →
    Touches c.vo c.length (x / 65536) → s.v.cache.buffer x = vbyte s.v s.d x
  transfer : ∀ env b run, l = .transfer env → s.flush = .copied b run → b * 65536 ≤ x →
    x < (b + run) * 65536 → env.Succeeds

theorem stored_other {c : WriteCall} {x : ℕ} (cache : RamCache) (hx : ¬ c.covers x) :
    (stored cache c.buffer c.vo c.length).buffer x = cache.buffer x := by
  unfold WriteCall.covers at hx
  exact Buf.put_of_not_mem _ _ (by omega)

theorem stored_covered {c : WriteCall} {x : ℕ} (cache : RamCache) (hx : c.covers x) :
    (stored cache c.buffer c.vo c.length).buffer x = c.buffer (x - c.vo) :=
  Buf.put_of_mem _ _ hx.1 hx.2

/-- A step that starts no batch over cache contents other than `val`. -/
theorem Unshadowed.step {s t : System} {l : Label} {x : ℕ} {val : Byte} (h : Owned s x val)
    (hs : SystemOk s) (hl : Harmless x s l) (he : Effect s t l) : Unshadowed t x val := by
  have hsize := he.shape.size
  cases he with
  | quiet _ _ hcache _ hflush =>
    obtain ⟨_, _, hcache⟩ := hcache
    exact ⟨by rw [hcache]; exact h.cache, by rw [hflush, hcache]; exact h.batch⟩
  | direct _ _ _ _ _ hcache _ _ hflush =>
    exact ⟨by rw [hcache]; exact h.cache, by rw [hflush, hcache]; exact h.batch⟩
  | cached _ c hcall hpos hend hcache _ hflush =>
    have hx := hl.apart c (Label.call_of_cached hcall)
    refine ⟨fun hin hv => ?_, by rw [hflush, hcache]; exact h.batch⟩
    rw [hcache, stored_other _ hx]
    rw [hcache] at hv
    rcases (Bool.or_eq_true _ _).mp hv with hv | ht
    · exact h.cache (hsize ▸ hin) hv
    · rw [hl.cached c hcall hend (of_decide_eq_true ht)]
      exact h.disk
  | start _ hcache _ _ hflush | pass _ _ hcache _ _ _ hflush | finish _ _ hcache _ _ _ hflush
  | clear _ _ hcache _ _ hflush =>
    refine ⟨by rw [hcache]; exact h.cache, fun b run hb => ?_⟩
    rw [hflush] at hb
    cases hb
  | transfer _ _ _ _ hcache _ _ hflush =>
    refine ⟨by rw [hcache]; exact h.cache, fun b run hb => ?_⟩
    rw [hflush] at hb
    split at hb <;> cases hb
  | copy _ b run hcache _ _ _ hdirty hflush =>
    have hbuf : t.v.cache.buffer = s.v.cache.buffer := by rw [hcache]; exact withFlush_buffer _ _ _
    have hvalid : t.v.cache.validMap = s.v.cache.validMap := by
      rw [hcache]
      exact withFlush_valid _ _ _
    refine ⟨by rw [hbuf, hvalid, hsize]; exact h.cache, fun b' run' hb h1 h2 => ?_⟩
    rw [hflush] at hb
    split at hb
    · obtain ⟨rfl, rfl⟩ := FlushPc.copied.inj hb
      -- the blocks of a batch are dirty, so they are valid and hold `val`
      obtain ⟨hin, hd⟩ := hdirty (x / 65536 - b) (by omega)
      rw [show b + (x / 65536 - b) = x / 65536 by omega] at hin hd
      have hsz := hs.volume.cache.size
      rw [hcache]
      exact (copied_byte s.v h1 h2).trans (h.cache (by omega) (hs.dirty _ hd))
    · cases hb

theorem Owned.step {s t : System} {l : Label} {x : ℕ} {val : Byte} (h : Owned s x val)
    (hs : SystemOk s) (hx : x < s.v.virtualTotalBytes) (hl : Harmless x s l)
    (ht : Cache.step s l = some t) : Owned t x val := by
  obtain ⟨hsteady, he⟩ := step_effect hs ht
  refine ⟨Unshadowed.step h hs hl he, ?_⟩
  rw [hsteady.layout.vbyte, ← h.disk]
  cases he with
  | quiet _ _ _ hd | start _ _ hd | pass _ _ _ hd | copy _ _ _ _ hd | finish _ _ _ hd
  | clear _ _ _ hd => rw [vbyte_pool s.v hd]
  | cached _ c hcall _ _ _ hdisk =>
    rcases hdisk x hx with he | ⟨_, hc, _⟩
    · exact he
    · exact absurd hc (hl.apart c (Label.call_of_cached hcall))
  | direct seen io c ok _ _ hframe =>
    exact hframe x hx (hl.apart c rfl)
  | transfer env b run ok _ hcopied hw =>
    by_cases hin : b * 65536 ≤ x ∧ x < (b + run) * 65536
    · have hok := hw.succeeds (hl.transfer env b run rfl hcopied hin.1 hin.2)
      cases hm : mapLba s.v (b * 65536) (run * 65536) with
      | none => rw [(Prod.mk.inj (hw.unmapped hm)).2]
      | some es =>
        rw [hm] at hok
        have hend : x < batchEnd s.v b run := by
          unfold batchEnd
          omega
        rw [h.disk, ← h.batch b run hcopied hin.1 hin.2]
        exact hw.data hok x hin.1 hend
    · exact hw.frame x hx (by omega)

/-- What is owned is what a read returns. -/
theorem Owned.read {s : System} {x : ℕ} {val : Byte} (h : Owned s x val) (hv : CachedVolume s.v)
    {io : IoEnv} {buffer out : Buf} {vo length : ℕ} {w : StripeVolume} {d : Disks}
    (hl : length < 2^32)
    (hr : stripeVolumeRead io s.v s.d buffer vo length = some (true, w, d, out)) :
    ∀ i < length, vo + i = x → out i = val := by
  intro i hi he
  by_cases hin : 0 < length ∧ vo + length ≤ s.v.virtualTotalBytes
  · have hdone := read_some hv io s.d buffer hl hin.1 hin.2 hr
    by_cases hh : Hit s.v vo length
    · rw [(hdone.hit hh).2 i hi, he]
      have hsize := hh.1
      exact h.cache (by omega) (hh.2 _ (touches_of_mem (by omega) (by omega)))
    · rw [hdone.miss hh rfl i hi, he]
      exact h.disk
  · rw [read_outside hv hl hin] at hr
    cases hr

/-- A byte written past the cache stays the byte on the members and the byte of every read,
when the cache and the batch in flight do not hold another one, and as long as the later
steps are harmless to it. -/
theorem stripeVolumeWrite_bypass (s0 s s1 t : System) (pre post : List Label) (seen : Bool)
    (io : IoEnv) (c : WriteCall) (h0 : Started s0) (hpre : run step s0 pre = some s)
    (hw : step s (.write seen io c true) = some s1)
    (hpath : ¬ (seen = false ∧ c.vo + c.length ≤ s.v.cache.cacheSizeBytes))
    (hpost : run step s1 post = some t) (x : ℕ) (hx : c.covers x)
    (hsafe : Unshadowed s x (c.buffer (x - c.vo))) (hlater : Along step (Harmless x) s1 post) :
    vbyte t.v t.d x = c.buffer (x - c.vo) ∧
      ∀ io' buffer vo length w d out, length < 2^32 →
        stripeVolumeRead io' t.v t.d buffer vo length = some (true, w, d, out) →
        ∀ i < length, vo + i = x → out i = c.buffer (x - c.vo) := by
  have hs := (h0.ok.run hpre).ok
  obtain ⟨hsteady, he⟩ := step_effect hs hw
  have hs1 := hs.step hw
  -- the write itself
  have hown : Owned s1 x (c.buffer (x - c.vo)) ∧ x < s1.v.virtualTotalBytes := by
    cases he with
    | quiet _ hidle => cases hidle
    | cached _ c' hcall _ hend =>
      cases seen with
      | false =>
        obtain rfl := Option.some.inj hcall
        exact absurd ⟨rfl, hend⟩ hpath
      | true => cases hcall
    | direct _ _ _ _ _ hcache _ hdata hflush =>
      obtain ⟨hend, hnew⟩ := hdata rfl
      refine ⟨⟨⟨by rw [hcache]; exact hsafe.cache, by rw [hflush, hcache]; exact hsafe.batch⟩, ?_⟩, ?_⟩
      · rw [hsteady.layout.vbyte]
        exact hnew x hx
      · rw [hsteady.layout.total]
        have hx2 := hx.2
        omega
  obtain ⟨hlast, hfin⟩ := run_invariant (I := fun u => Owned u x (c.buffer (x - c.vo)) ∧ Reached s1 u)
    (fun u l u' hi hl hu => ⟨hi.1.step hi.2.ok (by rw [hi.2.layout.total]; exact hown.2) hl hu,
      hi.2.step hu⟩) hlater ⟨hown.1, hs1.reached⟩ hpost
  exact ⟨hlast.disk, fun io' buffer vo length w d out hl hr => hlast.read hfin.ok.volume hl hr⟩

/-- Block 0 is written to the cache with value 1 and a flush begins: byte 0, written past
the cache with value 9, is read as 1, and the flush turns it into 1 on the member. -/
theorem stripeVolumeWrite_bypass_fails :
    ∃ s s1 t w d out, Started pairSystem ∧
      run step pairSystem [.cacheWrite ⟨fun _ => 1, 0, 65536⟩, .begin .thread] = some s ∧
      s.v.cacheFlushInProgress = true ∧
      step s (.write true .good ⟨fun _ => 9, 0, 1⟩ true) = some s1 ∧
      stripeVolumeRead .good s1.v s1.d (fun _ => 0) 0 1 = some (true, w, d, out) ∧ out 0 = 1 ∧
      run step s1 [.scan .good, .transfer .good] = some t ∧ vbyte t.v t.d 0 = 1 :=
  ⟨_, _, _, _, _, _, pairSystem_started, rfl, rfl, rfl, rfl, by decide, rfl, by decide⟩

theorem stripeVolumeWrite_bypass_sample :
    ∃ s s1 t, run step pairSystem [.begin .thread] = some s ∧
      step s (.write true .good ⟨fun _ => 9, 0, 1⟩ true) = some s1 ∧
      run step s1 [.scan .good] = some t ∧ vbyte t.v t.d 0 = 9 ∧
      ∀ io' buffer vo length w d out, length < 2^32 →
        stripeVolumeRead io' t.v t.d buffer vo length = some (true, w, d, out) →
        ∀ i < length, vo + i = 0 → out i = 9 := by
  refine ⟨_, _, _, rfl, rfl, rfl, ?_⟩
  refine stripeVolumeWrite_bypass pairSystem _ _ _ [.begin .thread] [.scan .good] true .good
    ⟨fun _ => 9, 0, 1⟩ pairSystem_started rfl rfl (by decide) rfl 0 (by decide) ⟨?_, ?_⟩ ⟨⟨?_, ?_, ?_⟩, ?_⟩
  · intro _ hv
    exact absurd hv (by decide)
  · nofun
  · nofun
  · nofun
  · nofun
  · exact fun _ _ => True.intro

end RaidTest.Cache
