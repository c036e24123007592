import RaidTest.Mirror.Engine
import RaidTest.Stripe.Submit

/-!
# What a mirror call does to its members

A transfer touches one pool, inside its range; a member that fails is dropped and never
comes back. After a write every member still healthy holds the bytes.
-/

namespace RaidTest.Mirror
open RaidTest.Cache RaidTest.Stripe

/-! ### One member -/

/-- No pool byte outside the range changed, and no disk became healthy. -/
structure Confined (offset length : ℕ) (d d' : Disks) : Prop where
  frame : ∀ k p, p < offset ∨ offset + length ≤ p → d'.pool k p = d.pool k p
  healthy : ∀ k, (d'.info k).healthy = true → (d.info k).healthy = true

theorem Confined.refl (offset length : ℕ) (d : Disks) : Confined offset length d d :=
  ⟨fun _ _ _ => rfl, fun _ h => h⟩

theorem Confined.trans {offset length : ℕ} {d e f : Disks} (h : Confined offset length d e)
    (g : Confined offset length e f) : Confined offset length d f :=
  ⟨fun k p hp => (g.frame k p hp).trans (h.frame k p hp), fun k hk => h.healthy k (g.healthy k hk)⟩

@[simp] theorem stripeIoOk_pool (d : Disks) (i : DiskId) (ok : Bool) : (stripeIoOk d i ok).pool = d.pool := by
  unfold stripeIoOk
  simp only
  split <;> rfl

@[simp] theorem stripeIoOk_healthy (d : Disks) (i : DiskId) (ok : Bool) (k : DiskId) :
    ((stripeIoOk d i ok).info k).healthy = (d.info k).healthy := by
  unfold stripeIoOk Disks.setInfo
  simp only
  split
  · simp only
    split
    · next h => rw [h]
    · rfl
  · simp only
    split
    · next h => rw [h]
    · rfl

@[simp] theorem stripeIoOk_ramBuffer (d : Disks) (i : DiskId) (ok : Bool) (k : DiskId) :
    ((stripeIoOk d i ok).info k).ramBuffer = (d.info k).ramBuffer := by
  unfold stripeIoOk Disks.setInfo
  simp only
  split
  · simp only
    split
    · next h => rw [h]
    · rfl
  · simp only
    split
    · next h => rw [h]
    · rfl

theorem setHealthy_info (d : Disks) (i k : DiskId) (b : Bool) :
    ((setHealthy d i b).info k).healthy = if k = i then b else (d.info k).healthy := by
  unfold setHealthy Disks.setInfo
  simp only
  split <;> rfl

/-- A write of one disk, and whether its pool now holds the bytes. -/
structure RawWritten (t : Transfer) (d : Disks) (i : DiskId) (buffer : Buf) (offset length : ℕ)
    (r : Bool × Disks) : Prop where
  other : ∀ k p, k ≠ i ∨ p < offset ∨ offset + length ≤ p → r.2.pool k p = d.pool k p
  healthy : ∀ k, (r.2.info k).healthy = (d.info k).healthy
  data : r.1 = true → ∀ p, offset ≤ p → p < offset + length → r.2.pool i p = buffer (p - offset)
  ram : ∀ k, (r.2.info k).ramBuffer = (d.info k).ramBuffer
  torn : r.1 = false → ∀ p, offset ≤ p → p < offset + length → r.2.pool i p = d.pool i p ∨
    ∃ left, t = .error left ∧ (d.info i).ramBuffer = false ∧ r.2.pool i p = left (p - offset)

theorem writePool_other (d : Disks) (i : DiskId) (offset length : ℕ) (data : Buf) {k : DiskId} {p : ℕ}
    (h : k ≠ i ∨ p < offset ∨ offset + length ≤ p) : (d.writePool i offset length data).pool k p = d.pool k p := by
  refine if_neg ?_
  rintro ⟨rfl, h1, h2⟩
  rcases h with h | h
  · exact h rfl
  · omega

theorem writePool_data (d : Disks) (i : DiskId) (offset length : ℕ) (data : Buf) {p : ℕ}
    (h1 : offset ≤ p) (h2 : p < offset + length) :
    (d.writePool i offset length data).pool i p = data (p - offset) := if_pos ⟨rfl, h1, h2⟩

theorem stripeWriteRaw_spec (t : Transfer) (d : Disks) (i : DiskId) (buffer : Buf) (offset length : ℕ) :
    RawWritten t d i buffer offset length (stripeWriteRaw t d i buffer offset length) := by
  unfold stripeWriteRaw
  split
  · exact ⟨fun k p h => writePool_other d i offset length buffer h, fun _ => rfl,
      fun _ p h1 h2 => writePool_data d i offset length buffer h1 h2, fun _ => rfl, nofun⟩
  next hram =>
  split
  · exact ⟨fun _ _ _ => rfl, fun _ => rfl, nofun, fun _ => rfl, fun _ _ _ _ => Or.inl rfl⟩
  split
  · cases t with
    | ok =>
      refine ⟨fun k p h => ?_, fun k => by simp only [stripeIoOk_healthy, Disks.writePool_info],
        fun _ p h1 h2 => ?_, fun k => by simp only [stripeIoOk_ramBuffer, Disks.writePool_info], nofun⟩
      · simp only [stripeIoOk_pool]
        exact writePool_other d i offset length buffer h
      · simp only [stripeIoOk_pool]
        exact writePool_data d i offset length buffer h1 h2
    | error left =>
      refine ⟨fun k p h => ?_, fun k => by simp only [stripeIoOk_healthy, Disks.writePool_info], nofun,
        fun k => by simp only [stripeIoOk_ramBuffer, Disks.writePool_info], fun _ p h1 h2 => ?_⟩
      · simp only [stripeIoOk_pool]
        exact writePool_other d i offset length left h
      · simp only [stripeIoOk_pool]
        exact Or.inr ⟨left, rfl, by simpa using hram, writePool_data d i offset length left h1 h2⟩
  · exact ⟨fun k p _ => by simp only [stripeIoOk_pool], fun k => by simp only [stripeIoOk_healthy],
      nofun, fun k => by simp only [stripeIoOk_ramBuffer],
      fun _ p _ _ => Or.inl (by simp only [stripeIoOk_pool])⟩

/-- A read of one disk. -/
structure RawRead (d : Disks) (i : DiskId) (offset length : ℕ) (r : Bool × Disks × Buf) : Prop where
  pool : r.2.1.pool = d.pool
  healthy : ∀ k, (r.2.1.info k).healthy = (d.info k).healthy
  ram : ∀ k, (r.2.1.info k).ramBuffer = (d.info k).ramBuffer
  data : r.1 = true → ∀ j < length, r.2.2 j = d.pool i (offset + j)

theorem stripeReadRaw_spec (t : Transfer) (d : Disks) (i : DiskId) (buffer : Buf) (offset length : ℕ) :
    RawRead d i offset length (stripeReadRaw t d i buffer offset length) := by
  have hget : ∀ j < length, Buf.put buffer 0 length (Buf.shift (d.pool i) offset) j = d.pool i (offset + j) := by
    intro j hj
    rw [Buf.put_of_mem _ _ (Nat.zero_le j) (by omega), Nat.sub_zero, Buf.shift]
  unfold stripeReadRaw
  split
  · exact ⟨rfl, fun _ => rfl, fun _ => rfl, fun _ => hget⟩
  split
  · exact ⟨rfl, fun _ => rfl, fun _ => rfl, fun h => absurd h Bool.false_ne_true⟩
  split
  · cases t with
    | ok => exact ⟨stripeIoOk_pool d i true, stripeIoOk_healthy d i true, stripeIoOk_ramBuffer d i true,
        fun _ => hget⟩
    | error left =>
      exact ⟨stripeIoOk_pool d i false, stripeIoOk_healthy d i false, stripeIoOk_ramBuffer d i false,
        fun h => absurd h Bool.false_ne_true⟩
  · exact ⟨stripeIoOk_pool d i false, stripeIoOk_healthy d i false, stripeIoOk_ramBuffer d i false,
      fun h => absurd h Bool.false_ne_true⟩

/-! ### All members -/

/-- Only counters of the volume differ. -/
structure SameMirror (v w : StripeVolume) : Prop where
  layout : SameLayout v w
  cache : w.cache = v.cache
  enabled : w.cacheEnabled = v.cacheEnabled
  busy : w.cacheFlushInProgress = v.cacheFlushInProgress

theorem SameMirror.refl (v : StripeVolume) : SameMirror v v := ⟨SameLayout.refl v, rfl, rfl, rfl⟩

theorem SameMirror.trans {u v w : StripeVolume} (h : SameMirror u v) (g : SameMirror v w) :
    SameMirror u w :=
  ⟨h.layout.trans g.layout, g.cache.trans h.cache, g.enabled.trans h.enabled, g.busy.trans h.busy⟩

theorem dropMember_spec (v : StripeVolume) (d : Disks) (i : DiskId) (offset length : ℕ) :
    SameMirror v (dropMember v d i).1 ∧ Confined offset length d (dropMember v d i).2 ∧
      ((dropMember v d i).2.info i).healthy = false ∧ (dropMember v d i).2.pool = d.pool := by
  refine ⟨?_, ⟨fun _ _ _ => rfl, fun k hk => ?_⟩, ?_, rfl⟩
  · unfold dropMember
    simp only
    split
    · exact ⟨⟨rfl, rfl, rfl, rfl, rfl, rfl, rfl, rfl⟩, rfl, rfl, rfl⟩
    · exact SameMirror.refl v
  · have hh : ((setHealthy d i false).info k).healthy = true := hk
    rw [setHealthy_info] at hh
    split at hh
    · cases hh
    · exact hh
  · have hh := setHealthy_info d i i false
    rw [if_pos rfl] at hh
    exact hh

/-- After the loop of `mirror_write_to_all` over the members from number `i` on. -/
structure AllWritten (v : StripeVolume) (d : Disks) (buffer : Buf) (offset length i n : ℕ) (anyOk : Bool)
    (r : Bool × StripeVolume × Disks) : Prop where
  volume : SameMirror v r.2.1
  confined : Confined offset length d r.2.2
  kept : ∀ k, (∀ p, offset ≤ p → p < offset + length → d.pool k p = buffer (p - offset)) →
    (r.2.2.info k).healthy = true →
    ∀ p, offset ≤ p → p < offset + length → r.2.2.pool k p = buffer (p - offset)
  data : ∀ j, i ≤ j → j < i + n → (r.2.2.info (v.diskAt j)).healthy = true →
    ∀ p, offset ≤ p → p < offset + length → r.2.2.pool (v.diskAt j) p = buffer (p - offset)
  failed : r.1 = false → anyOk = false ∧
    ∀ j, i ≤ j → j < i + n → (r.2.2.info (v.diskAt j)).healthy = false

/-- One member in front of the later ones. -/
theorem AllWritten.cons {v w : StripeVolume} {d e : Disks} {buffer : Buf} {offset length i n : ℕ}
    {anyOk any : Bool} {r : Bool × StripeVolume × Disks}
    (h : AllWritten w e buffer offset length (i + 1) n any r) (hv : SameMirror v w)
    (hc : Confined offset length d e)
    (hother : ∀ k, k ≠ v.diskAt i → ∀ p, e.pool k p = d.pool k p)
    (hdisk : (e.info (v.diskAt i)).healthy = true →
      ∀ p, offset ≤ p → p < offset + length → e.pool (v.diskAt i) p = buffer (p - offset))
    (hany : any = false → anyOk = false ∧ (e.info (v.diskAt i)).healthy = false) :
    AllWritten v d buffer offset length i (n + 1) anyOk r := by
  have hat := hv.layout.diskAt
  refine ⟨hv.trans h.volume, hc.trans h.confined, fun k hk hh => ?_, fun j h1 h2 hh => ?_, fun hf => ?_⟩
  · refine h.kept k (fun p h1 h2 => ?_) hh
    by_cases he : k = v.diskAt i
    · rw [he]
      exact hdisk (he ▸ h.confined.healthy k hh) p h1 h2
    · rw [hother k he p]
      exact hk p h1 h2
  · by_cases he : j = i
    · subst he
      exact h.kept _ (hdisk (h.confined.healthy _ hh)) hh
    · have hd := h.data j (by omega) (by omega)
      rw [hat] at hd
      exact hd hh
  · obtain ⟨h1, h2⟩ := h.failed hf
    obtain ⟨h3, h4⟩ := hany h1
    refine ⟨h3, fun j hj1 hj2 => ?_⟩
    by_cases he : j = i
    · subst he
      by_contra hne
      have hup := h.confined.healthy _ (by simpa using hne)
      rw [h4] at hup
      cases hup
    · have hd := h2 j (by omega) (by omega)
      rw [hat] at hd
      exact hd

theorem mirrorWriteLoop_spec (io : IoEnv) (buffer : Buf) (offset length n : ℕ) :
    ∀ (i : ℕ) (anyOk : Bool) (v : StripeVolume) (d : Disks),
      AllWritten v d buffer offset length i n anyOk
        (mirrorWriteLoop io buffer offset length n i anyOk v d) := by
  induction n with
  | zero =>
    intro i anyOk v d
    exact ⟨SameMirror.refl v, Confined.refl _ _ d, fun k hk _ => hk,
      fun j h1 h2 => by omega, fun hf => ⟨hf, fun j h1 h2 => by omega⟩⟩
  | succ n ih =>
    intro i anyOk v d
    unfold mirrorWriteLoop
    simp only
    split
    · next hun =>
      -- not healthy: the member is passed
      refine (ih (i + 1) anyOk v d).cons (SameMirror.refl v) (Confined.refl _ _ d) (fun _ _ _ => rfl)
        (fun hh => ?_) fun hf => ⟨hf, hun⟩
      rw [hun] at hh
      cases hh
    split
    · obtain ⟨h1, h2, h3, h4⟩ := dropMember_spec v d (v.diskAt i) offset length
      refine (ih (i + 1) anyOk _ _).cons h1 h2 (fun k _ p => by rw [h4]) (fun hh => ?_)
        fun hf => ⟨hf, h3⟩
      rw [h3] at hh
      cases hh
    · have hw := stripeWriteRaw_spec (io.result i) d (v.diskAt i) buffer offset length
      generalize stripeWriteRaw (io.result i) d (v.diskAt i) buffer offset length = r at hw
      obtain ⟨ok, e⟩ := r
      have hc : Confined offset length d e :=
        ⟨fun k p hp => hw.other k p (Or.inr hp), fun k hk => (hw.healthy k).symm.trans hk⟩
      cases ok with
      | true =>
        refine (ih (i + 1) true v e).cons (SameMirror.refl v) hc (fun k hk p => hw.other k p (Or.inl hk))
          (fun _ => hw.data rfl) fun hf => ?_
        cases hf
      | false =>
        obtain ⟨h1, h2, h3, h4⟩ := dropMember_spec v e (v.diskAt i) offset length
        refine (ih (i + 1) anyOk _ _).cons h1 (hc.trans h2)
          (fun k hk p => by rw [h4]; exact hw.other k p (Or.inl hk)) (fun hh => ?_) fun hf => ⟨hf, h3⟩
        rw [h3] at hh
        cases hh

theorem outOfRange_iff (v : StripeVolume) (offset length : ℕ) :
    outOfRange v offset length = true ↔
      length > v.virtualTotalBytes ∨ offset > v.virtualTotalBytes - length := by
  unfold outOfRange
  rw [Bool.or_eq_true, decide_eq_true_eq, decide_eq_true_eq]

/-- `mirror_write_to_all` by its answer. -/
theorem mirrorWriteToAll_spec (io : IoEnv) (v : StripeVolume) (d : Disks) (buffer : Buf)
    (offset length : ℕ) :
    (length = 0 ∨ outOfRange v offset length = true) ∧
        mirrorWriteToAll io v d buffer offset length = (false, v, d) ∨
      (0 < length ∧ offset + length ≤ v.virtualTotalBytes) ∧
        AllWritten v d buffer offset length 0 v.diskCount false
          (mirrorWriteToAll io v d buffer offset length) := by
  unfold mirrorWriteToAll
  by_cases hg : length = 0 ∨ outOfRange v offset length = true
  · rw [if_pos hg]
    exact Or.inl ⟨hg, rfl⟩
  · rw [if_neg hg]
    refine Or.inr ⟨?_, mirrorWriteLoop_spec io buffer offset length v.diskCount 0 false v d⟩
    rw [outOfRange_iff] at hg
    omega

/-! ### Reading -/

/-- After the loop of `mirror_volume_read` over the members from number `i` on. -/
structure AnyRead (v : StripeVolume) (d : Disks) (offset length i n : ℕ)
    (r : Bool × StripeVolume × Disks × Buf) : Prop where
  volume : SameMirror v r.2.1
  pool : r.2.2.1.pool = d.pool
  healthy : ∀ k, (r.2.2.1.info k).healthy = true → (d.info k).healthy = true
  data : r.1 = true → ∃ j, i ≤ j ∧ j < i + n ∧ (d.info (v.diskAt j)).healthy = true ∧
    ∀ p < length, r.2.2.2 p = d.pool (v.diskAt j) (offset + p)

theorem AnyRead.cons {v w : StripeVolume} {d e : Disks} {offset length i n : ℕ}
    {r : Bool × StripeVolume × Disks × Buf} (h : AnyRead w e offset length (i + 1) n r)
    (hv : SameMirror v w) (hpool : e.pool = d.pool)
    (hh : ∀ k, (e.info k).healthy = true → (d.info k).healthy = true) :
    AnyRead v d offset length i (n + 1) r := by
  refine ⟨hv.trans h.volume, h.pool.trans hpool, fun k hk => hh k (h.healthy k hk), fun hr => ?_⟩
  obtain ⟨j, h1, h2, h3, h4⟩ := h.data hr
  rw [hv.layout.diskAt, hpool] at h4
  rw [hv.layout.diskAt] at h3
  exact ⟨j, by omega, by omega, hh _ h3, h4⟩

theorem mirrorReadLoop_spec (io : IoEnv) (offset length n : ℕ) :
    ∀ (i : ℕ) (v : StripeVolume) (d : Disks) (buffer : Buf),
      AnyRead v d offset length i n (mirrorReadLoop io offset length n i v d buffer) := by
  induction n with
  | zero =>
    intro i v d buffer
    exact ⟨SameMirror.refl v, rfl, fun _ h => h, nofun⟩
  | succ n ih =>
    intro i v d buffer
    unfold mirrorReadLoop
    simp only
    split
    · exact (ih (i + 1) v d buffer).cons (SameMirror.refl v) rfl fun _ h => h
    next hup =>
    split
    · obtain ⟨h1, h2, _, h4⟩ := dropMember_spec v d (v.diskAt i) offset length
      exact (ih (i + 1) _ _ buffer).cons h1 h4 h2.healthy
    · have hr := stripeReadRaw_spec (io.result i) d (v.diskAt i) buffer offset length
      generalize stripeReadRaw (io.result i) d (v.diskAt i) buffer offset length = r at hr
      obtain ⟨ok, e, out⟩ := r
      cases ok with
      | true =>
        refine ⟨⟨⟨rfl, rfl, rfl, rfl, rfl, rfl, rfl, rfl⟩, rfl, rfl, rfl⟩, hr.pool,
          fun k hk => (hr.healthy k).symm.trans hk, fun _ => ⟨i, Nat.le_refl i, by omega, ?_, hr.data rfl⟩⟩
        simpa using hup
      | false =>
        obtain ⟨h1, h2, _, h4⟩ := dropMember_spec v e (v.diskAt i) offset length
        exact (ih (i + 1) _ _ out).cons h1 (h4.trans hr.pool)
          fun k hk => (hr.healthy k).symm.trans (h2.healthy k hk)

theorem rebuildSource_spec {v : StripeVolume} {d : Disks} {replaceIdx j : ℕ}
    (h : rebuildSource v d replaceIdx = some j) :
    j < v.diskCount ∧ j ≠ replaceIdx ∧ (d.info (v.diskAt j)).healthy = true := by
  have hp := List.find?_some h
  have hm := List.mem_of_find?_eq_some h
  rw [List.mem_range] at hm
  simp only [Bool.decide_eq_true, decide_eq_true_eq, Bool.decide_and, Bool.and_eq_true] at hp
  exact ⟨hm, hp⟩

end RaidTest.Mirror
