import RaidTest.Cache.Bypass

/-!
# Clean blocks and the members

A flush clears the dirty bits of a batch after its transfers. A cached write that
lands between the copy and the clearing loses its dirty bit: its bytes are in the
cache, the copied ones on the members, and the block counts as clean.
-/

namespace RaidTest.Cache
open RaidTest.Base RaidTest.Stripe

/-- Every byte of a valid and clean block is the byte on the members. -/
def Synced (s : System) : Prop := ∀ x < s.v.virtualTotalBytes,
  s.v.cache.validMap (x / 65536) = true → s.v.cache.dirtyMap (x / 65536) = false →
    s.v.cache.buffer x = vbyte s.v s.d x

/-- The byte `x` of the volume is in the batch of `run` blocks from block `b` on. -/
def InBatch (s : System) (b run x : ℕ) : Prop :=
  x < s.v.virtualTotalBytes ∧ b * 65536 ≤ x ∧ x < (b + run) * 65536

/-- When the dirty bits of a batch are cleared, the cache still holds byte `x` as it was copied. -/
def CopyKept (x : ℕ) (s : System) (l : Label) : Prop := l = .clear → ∀ b run, s.flush = .written b run →
  InBatch s b run x → s.v.cache.buffer x = s.v.cache.flushBuffer (x - b * 65536)

def ClearsCopied (s : System) (l : Label) : Prop := ∀ x, CopyKept x s l

/-- After the transfers of a batch the members hold the flush buffer. -/
def Transferred (s : System) : Prop := ∀ b run, s.flush = .written b run →
  ∀ x, InBatch s b run x → vbyte s.v s.d x = s.v.cache.flushBuffer (x - b * 65536)

/-- The label is not a call of `stripe_volume_write`. -/
def Label.plain (l : Label) : Prop := ∀ seen io c ok, l ≠ .write seen io c ok

/-- The label is not a call of `stripe_volume_write` that starts inside a cache of `size` bytes. -/
def Label.fuse (size : ℕ) (l : Label) : Prop := ∀ seen io c ok, l = .write seen io c ok → size ≤ c.vo

theorem Label.plain.fuse {l : Label} (h : l.plain) (size : ℕ) : l.fuse size :=
  fun seen io c ok he => absurd he (h seen io c ok)

/-- In such a run a cached write leaves the members alone. -/
theorem Label.fuse.disk {s : System} {l : Label} {c : WriteCall} {t : System} {x : ℕ}
    (h : l.fuse s.v.cache.cacheSizeBytes) (hpos : 0 < c.length)
    (hend : c.vo + c.length ≤ s.v.cache.cacheSizeBytes)
    (hdisk : vbyte s.v t.d x = vbyte s.v s.d x ∨
      (∃ io ok, l = .write false io c ok) ∧ c.covers x ∧ vbyte s.v t.d x = c.buffer (x - c.vo)) :
    vbyte s.v t.d x = vbyte s.v s.d x := by
  rcases hdisk with hv | ⟨⟨io, ok, hw⟩, _⟩
  · exact hv
  · have hle := h _ _ _ _ hw
    omega

/-- The bytes of a batch lie in the cache. -/
theorem SystemOk.batch_lt {s : System} (h : SystemOk s) {b run x : ℕ}
    (hb : s.flush = .copied b run ∨ s.flush = .written b run) (h1 : b * 65536 ≤ x)
    (h2 : x < (b + run) * 65536) : x < s.v.cache.cacheSizeBytes := by
  have hlast := ((h.batch b run hb).2 (x / 65536 - b) (by omega)).1
  have hsize := h.volume.cache.size
  omega

theorem Transferred.step {s t : System} {l : Label} (h : Transferred s) (hok : SystemOk s)
    (hs : Steady s t) (hl : l.fuse s.v.cache.cacheSizeBytes) (he : Effect s t l) : Transferred t := by
  intro b run hb x hx
  unfold InBatch at hx
  rw [hs.layout.total] at hx
  rw [hs.layout.vbyte]
  cases he with
  | quiet _ _ hcache hd hflush =>
    obtain ⟨_, _, hcache⟩ := hcache
    rw [hcache, vbyte_pool s.v hd]
    exact h b run (hflush ▸ hb) x hx
  | cached _ c _ hpos hend hcache hdisk hflush =>
    rw [hl.disk hpos hend (hdisk x hx.1), hcache]
    exact h b run (hflush ▸ hb) x hx
  | direct seen io c ok _ hcache hframe _ hflush =>
    have hle := hl seen io c ok rfl
    have hlt := hok.batch_lt (Or.inr (hflush ▸ hb)) hx.2.1 hx.2.2
    rw [hcache, hframe x hx.1 (fun hc => by unfold WriteCall.covers at hc; omega)]
    exact h b run (hflush ▸ hb) x hx
  | start _ _ _ _ hflush | pass _ _ _ _ _ _ hflush | finish _ _ _ _ _ _ hflush
  | clear _ _ _ _ _ hflush =>
    rw [hflush] at hb
    cases hb
  | copy _ _ _ _ _ _ _ _ hflush =>
    rw [hflush] at hb
    split at hb <;> cases hb
  | transfer _ b' run' ok hcache hcopied hw hflush =>
    rw [hflush] at hb
    split at hb
    · next hok =>
      obtain ⟨rfl, rfl⟩ := FlushPc.written.inj hb
      rw [hcache]
      refine hw.data hok x hx.2.1 ?_
      unfold batchEnd
      omega
    · cases hb

/-- A step keeps clean blocks in step with the members, unless it clears the bits of bytes
that changed after the copy. -/
theorem synced_step {s t : System} {l : Label} (hok : SystemOk s) (hw : Transferred s)
    (h : Synced s) (hl : l.plain) (hs : step s l = some t) : Synced t ↔ ClearsCopied s l := by
  obtain ⟨hsteady, he⟩ := step_effect hok hs
  unfold Synced
  rw [hsteady.layout.total, hsteady.layout.vbyte]
  cases he with
  | quiet _ hidle hcache hd hflush =>
    obtain ⟨_, _, hcache⟩ := hcache
    rw [hcache, vbyte_pool s.v hd]
    refine iff_of_true h fun _ hc => ?_
    subst hc
    cases hidle
  | cached _ c hcall _ _ hcache hdisk hflush =>
    refine iff_of_true ?_ fun _ hc => by subst hc; cases hcall
    rw [hcache]
    intro x hx hv hd
    -- the block is still clean, so the write did not touch it
    obtain ⟨hd, hno⟩ := Bool.or_eq_false_iff.mp hd
    have hnot : ¬ Touches c.vo c.length (x / 65536) := of_decide_eq_false hno
    have hx2 : ¬ c.covers x := fun hc => hnot (touches_of_mem hc.1 hc.2)
    have hvs : s.v.cache.validMap (x / 65536) = true := by
      rcases (Bool.or_eq_true _ _).mp hv with hv | ht
      · exact hv
      · exact absurd (of_decide_eq_true ht) hnot
    rw [stored_other _ hx2, h x hx hvs hd]
    rcases hdisk x hx with he | ⟨_, hc, _⟩
    · exact he.symm
    · exact absurd hc hx2
  | direct seen io c ok => exact absurd rfl (hl seen io c ok)
  | start _ hcache hd | pass _ _ hcache hd | finish _ _ hcache hd =>
    rw [hcache, vbyte_pool s.v hd]
    exact iff_of_true h fun _ => nofun
  | copy _ b run hcache hd =>
    rw [hcache, vbyte_pool s.v hd]
    exact iff_of_true h fun _ => nofun
  | transfer _ b run ok hcache hcopied hw =>
    refine iff_of_true ?_ fun _ => nofun
    rw [hcache]
    intro x hx hv hd
    have hout : x < b * 65536 ∨ (b + run) * 65536 ≤ x := by
      by_contra hin
      have hdirty := ((hok.batch b run (Or.inl hcopied)).2 (x / 65536 - b) (by omega)).2
      rw [show b + (x / 65536 - b) = x / 65536 by omega, hd] at hdirty
      cases hdirty
    rw [h x hx hv hd]
    exact (hw.frame x hx hout).symm
  | clear b run hcache hd hwritten =>
    rw [hcache, vbyte_pool s.v hd]
    constructor
    · intro ht x _ b' run' hb hx
      obtain ⟨rfl, rfl⟩ := FlushPc.written.inj (hwritten.symm.trans hb)
      obtain ⟨h1, h2, h3⟩ := hx
      obtain ⟨hcount, hdirty⟩ := (hok.batch b run (Or.inr hwritten)).2 (x / 65536 - b) (by omega)
      rw [show b + (x / 65536 - b) = x / 65536 by omega] at hcount hdirty
      refine (ht x h1 (hok.dirty _ hdirty) ?_).trans (hw b run hwritten x ⟨h1, h2, h3⟩)
      simp only [flushClear, hdirty, decide_eq_true hcount, Bool.true_and, Bool.and_true,
        decide_eq_true (show b ≤ x / 65536 by omega),
        decide_eq_true (show x / 65536 < b + run by omega), Bool.not_true]
    · intro hc x hx hv hd'
      by_cases hin : b * 65536 ≤ x ∧ x < (b + run) * 65536
      · rw [hw b run hwritten x ⟨hx, hin⟩]
        exact hc x rfl b run hwritten ⟨hx, hin⟩
      · refine h x hx hv ?_
        have hno : (decide (b ≤ x / 65536) && decide (x / 65536 < b + run)) = false := by
          rw [← Bool.decide_and]
          exact decide_eq_false (by omega)
        simpa only [flushClear, hno, Bool.false_and, Bool.not_false, Bool.and_true] using hd'

theorem clearsCopied_of_none {s : System} {l : Label} (h : step s l = none) : ClearsCopied s l := by
  intro x hc b run hb
  subst hc
  simp only [step, hb] at h
  cases h

/-- In a run of cached writes, reads and flushes every clean block agrees with the members
in every state if and only if no flush clears the bits of bytes that changed after it
copied them. -/
theorem cacheFlush_synced (s0 : System) (ls : List Label) (h0 : Started s0)
    (hl : ∀ l ∈ ls, Label.plain l) :
    (∀ pre post t, ls = pre ++ post → run step s0 pre = some t → Synced t) ↔
      Along step ClearsCopied s0 ls := by
  refine along_iff_always (Q := Label.plain) (J := fun s => SystemOk s ∧ Transferred s)
    (fun s l t hj hq ht => ⟨hj.1.step ht, ?_⟩)
    (fun s l t hj hi hq ht => synced_step hj.1 hj.2 hi hq ht)
    (fun s l hn => clearsCopied_of_none hn) ⟨h0.ok, ?_⟩ ?_ hl
  · obtain ⟨hsteady, he⟩ := step_effect hj.1 ht
    exact hj.2.step hj.1 hsteady (hq.fuse _) he
  · intro b run hb
    rw [h0.flush] at hb
    cases hb
  · intro x _ hv
    rw [h0.valid] at hv
    cases hv

/-- A block is written, copied and transferred; before its bit is cleared it is written
again. The block is clean, byte 0 is 9 in the cache and 1 on the member. -/
def lateWrite : List Label :=
  [.cacheWrite ⟨fun _ => 1, 0, 65536⟩, .begin .thread, .scan .good, .transfer .good,
    .cacheWrite ⟨fun _ => 9, 0, 65536⟩, .clear]

theorem cacheFlush_synced_fails :
    ∃ t, Started pairSystem ∧ run step pairSystem lateWrite = some t ∧
      t.v.cache.validMap 0 = true ∧ t.v.cache.dirtyMap 0 = false ∧
      t.v.cache.buffer 0 = 9 ∧ vbyte t.v t.d 0 = 1 :=
  ⟨_, pairSystem_started, rfl, by decide, by decide, by decide, by decide⟩

theorem cacheFlush_synced_sample :
    (∀ pre post t, lateWrite = pre ++ post → run step pairSystem pre = some t → Synced t) ↔
      Along step ClearsCopied pairSystem lateWrite :=
  cacheFlush_synced pairSystem lateWrite pairSystem_started (by
    intro l hl
    simp only [lateWrite, List.mem_cons, List.not_mem_nil, or_false] at hl
    rcases hl with rfl | rfl | rfl | rfl | rfl | rfl <;> nofun)

end RaidTest.Cache
