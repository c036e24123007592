import RaidTest.Mirror.Agreement
import RaidTest.Mirror.Written

/-!
# A rebuild beside writers

The rebuild moves one chunk at a time; other threads call `mirror_volume_write` between
its steps. A byte is `late` when its last write came after its chunk was copied and left
the replacement behind, and `away` when it left the disabled old disk behind.
-/

namespace RaidTest.Mirror
open RaidTest.Base RaidTest.Cache RaidTest.Stripe

/-! ### The steps of a rebuild -/

/-- What `mirror_volume_rebuild` keeps in its locals. -/
structure RebuildJob where
  replacement : DiskId
  replaceIdx : ℕ
  srcIdx : ℕ
  oldDisk : DiskId
  oldWasHealthy : Bool

/-- How far the rebuild has come; `copying` has the number of the next chunk. -/
inductive RebuildPc where
  | idle
  | copying (job : RebuildJob) (k : ℕ)
  | copied (job : RebuildJob)
  | swapped (job : RebuildJob)
  | failed (job : RebuildJob)

/-- The volume with a rebuild and writers on it. `acked` is the last acknowledged value of
each byte. -/
structure Rebuilding where
  v : StripeVolume
  d : Disks
  buf : Buf
  pc : RebuildPc
  acked : ℕ → Option Byte
  late : ℕ → Bool
  away : ℕ → Bool

/-- The bytes whose chunks are copied. -/
def RebuildPc.isCopied : RebuildPc → ℕ → Bool
  | .copying _ k, x => decide (x < k * chunkSize)
  | .copied _, _ | .swapped _, _ => true
  | .idle, _ | .failed _, _ => false

def RebuildPc.job : RebuildPc → Option RebuildJob
  | .copying job _ | .copied job | .swapped job | .failed job => some job
  | .idle => none

/-- One step: a whole `mirror_volume_write` of another thread, or a part of the rebuild. -/
inductive RebuildLabel where
  | write (io : IoEnv) (buffer : Buf) (offset length : ℕ)
  | start (alloc : Bool) (replacement : DiskId) (replaceIdx : ℕ)
  | chunk (read write : Transfer)
  | flush (ok : Bool)
  | swap
  | heal
  | rollback

/-- The disk is a member that a write reaches. -/
def reached (v : StripeVolume) (d : Disks) (i : DiskId) : Bool :=
  (List.range v.diskCount).any fun j => decide (v.diskAt j = i) && writable d i

/-- After an acknowledged write over byte `x`: has it left the disk behind? -/
def leavesBehind (v : StripeVolume) (d : Disks) (i : DiskId) (x : ℕ) (b : Byte) : Bool :=
  !(reached v d i) && decide (d.pool i x ≠ b)

/-- The write left volume and disks `w`, `e`, and was acknowledged for the `covered` bytes. -/
def Rebuilding.noted (s : Rebuilding) (w : StripeVolume) (e : Disks) (data : ℕ → Byte) (covered : ℕ → Bool) :
    Rebuilding :=
  { s with
    v := w
    d := e
    acked := fun x => if covered x then some (data x) else s.acked x
    late := fun x => if covered x then
        s.pc.isCopied x && s.pc.job.any fun job => leavesBehind s.v s.d job.replacement x (data x)
      else s.late x
    away := fun x => if covered x then s.pc.job.any fun job => decide (s.d.pool job.oldDisk x ≠ data x)
      else s.away x }

def rebuildStep (s : Rebuilding) : RebuildLabel → Option Rebuilding
  | .write io buffer offset length =>
    let r := mirrorVolumeWrite io s.v s.d buffer offset length
    some (s.noted r.2.1 r.2.2 (fun x => buffer (x - offset)) fun x =>
      r.1 && decide (offset ≤ x) && decide (x < offset + length))
  | .start alloc replacement replaceIdx =>
    match s.pc with
    | .idle =>
      if s.v.diskCount ≤ replaceIdx ∨ s.v.checkDisks = false ∨ s.v.virtualTotalBytes = 0 then some s
      else
        match rebuildSource s.v s.d replaceIdx with
        | none => some s
        | some srcIdx =>
          let oldDisk := s.v.diskAt replaceIdx
          let job := ⟨replacement, replaceIdx, srcIdx, oldDisk, (s.d.info oldDisk).healthy⟩
          let (v, d) := dropMember s.v s.d oldDisk
          some { s with
            v := v
            d := d
            buf := fun _ => 0
            pc := if alloc then .copying job 0 else .failed job
            late := fun _ => false
            away := fun _ => false }
    | _ => none
  | .chunk read write =>
    match s.pc with
    | .copying job k =>
      let offset := k * chunkSize
      if offset < s.v.virtualTotalBytes then
        let chunk := minU64 (s.v.virtualTotalBytes - offset) chunkSize
        match stripeReadRaw read s.d (s.v.diskAt job.srcIdx) s.buf offset chunk with
        | (false, d, buf) => some { s with d := d, buf := buf, pc := .failed job }
        | (true, d, buf) =>
          match stripeWriteRaw write d job.replacement buf offset chunk with
          | (false, d) => some { s with d := d, buf := buf, pc := .failed job }
          | (true, d) =>
            let restored := fun x => decide (job.oldDisk = job.replacement) && decide (offset ≤ x) &&
              decide (x < offset + chunk)
            some { s with
              d := d
              buf := buf
              pc := .copying job (k + 1)
              away := fun x => s.away x && !restored x }
      else none
    | _ => none
  | .flush ok =>
    match s.pc with
    | .copying job k =>
      if k * chunkSize < s.v.virtualTotalBytes then none
      else some { s with pc := if ok then .copied job else .failed job }
    | _ => none
  | .swap =>
    match s.pc with
    | .copied job => some { s with
        v := { s.v with disks := fun i => if i = job.replaceIdx then some job.replacement else s.v.disks i }
        pc := .swapped job }
    | _ => none
  | .heal =>
    match s.pc with
    | .swapped job => some { s with
        v := { s.v with healthyCount := s.v.healthyCount + 1 }
        d := setHealthy s.d job.replacement true
        pc := .idle }
    | _ => none
  | .rollback =>
    match s.pc with
    | .failed job => some { s with
        v := if job.oldWasHealthy then { s.v with healthyCount := s.v.healthyCount + 1 } else s.v
        d := setHealthy s.d job.oldDisk job.oldWasHealthy
        pc := .idle }
    | _ => none

/-! ### The invariant -/

/-- Acknowledged bytes are on the healthy members; the replacement and the old disk hold
them except where a write has left them behind. -/
structure Sync (s : Rebuilding) : Prop where
  inside : ∀ x b, s.acked x = some b → x < s.v.virtualTotalBytes
  same : ∀ x b, s.acked x = some b → ∀ i < s.v.diskCount, (s.d.info (s.v.diskAt i)).healthy = true →
    s.d.pool (s.v.diskAt i) x = b ∨
      ∃ job, s.pc = .swapped job ∧ s.v.diskAt i = job.replacement ∧ s.late x = true
  copied : ∀ job, s.pc.job = some job → ∀ x b, s.acked x = some b → s.pc.isCopied x = true →
    s.d.pool job.replacement x = b ∨ s.late x = true
  source : ∀ job, s.pc.job = some job → job.srcIdx < s.v.diskCount
  old : ∀ job, s.pc.job = some job → (s.d.info job.oldDisk).healthy = false
  away : ∀ job, s.pc.job = some job → job.oldWasHealthy = true → ∀ x b, s.acked x = some b →
    s.d.pool job.oldDisk x = b ∨ s.away x = true

/-- The side conditions: a write is not kept back by the cache; a chunk is not copied from a
source that was dropped with older bytes, nor torn on a disk that is or will again be a
healthy member; no byte is left behind when the flags are set. -/
def StepSafe (s : Rebuilding) : RebuildLabel → Prop
  | .write _ _ offset length => ¬ Absorbed s.v offset length
  | .chunk _ write => ∀ job k, s.pc = .copying job k →
      ∀ x b, k * chunkSize ≤ x → x < (k + 1) * chunkSize → s.acked x = some b →
        ((s.d.info (s.v.diskAt job.srcIdx)).healthy = false → s.d.pool (s.v.diskAt job.srcIdx) x = b) ∧
        ((∃ i < s.v.diskCount, s.v.diskAt i = job.replacement ∧ (s.d.info job.replacement).healthy = true) ∨
            job.replacement = job.oldDisk ∧ job.oldWasHealthy = true →
          (s.d.info job.replacement).ramBuffer = false →
            ∀ left, write = .error left → left (x - k * chunkSize) = b)
  | .heal => ∀ x, s.late x = false
  | .rollback => ∀ job, s.pc = .failed job → job.oldWasHealthy = true → ∀ x, s.away x = false
  | _ => True

theorem reached_iff (v : StripeVolume) (d : Disks) (k : DiskId) :
    reached v d k = true ↔ Serves v 0 v.diskCount k ∧ writable d k = true := by
  unfold reached Serves
  simp only [List.any_eq_true, List.mem_range, Bool.and_eq_true, decide_eq_true_eq]
  constructor
  · rintro ⟨j, hj, he, hw⟩
    exact ⟨⟨j, Nat.zero_le j, by omega, he⟩, hw⟩
  · rintro ⟨⟨j, _, hj, he⟩, hw⟩
    exact ⟨j, by omega, he, hw⟩

/-- A write as the invariant sees it: which bytes it covers with acknowledgement, and what
becomes of the pools there. -/
structure Applied (v w : StripeVolume) (d e : Disks) (data : ℕ → Byte) (covered : ℕ → Bool) : Prop where
  layout : SameLayout v w
  inside : ∀ x, covered x = true → x < v.virtualTotalBytes
  healthy : ∀ k, (e.info k).healthy = true → (d.info k).healthy = true
  frame : ∀ k x, covered x = false → e.pool k x = d.pool k x
  hit : ∀ k x, covered x = true → reached v d k = true → e.pool k x = data x
  missed : ∀ k x, covered x = true → reached v d k = false → e.pool k x = d.pool k x
  member : ∀ i x, covered x = true → i < v.diskCount → (e.info (v.diskAt i)).healthy = true →
    e.pool (v.diskAt i) x = data x

theorem mirrorVolumeWrite_applied {io : IoEnv} (hio : io.Succeeds) (v : StripeVolume) (d : Disks) (buffer : Buf)
    (offset length : ℕ) (hcache : ¬ Absorbed v offset length) :
    Applied v (mirrorVolumeWrite io v d buffer offset length).2.1 d
      (mirrorVolumeWrite io v d buffer offset length).2.2 (fun x => buffer (x - offset)) fun x =>
        (mirrorVolumeWrite io v d buffer offset length).1 && decide (offset ≤ x) && decide (x < offset + length) := by
  have hor := mirrorVolumeWrite_ok hio v d buffer offset length hcache
  generalize mirrorVolumeWrite io v d buffer offset length = r at hor
  obtain ⟨ok, w, e⟩ := r
  rcases hor with ⟨h1, h2, h3⟩ | ⟨hin, h⟩
  · simp only at h1 h2 h3
    subst h1 h3
    refine ⟨h2, fun x hx => ?_, fun _ hk => hk, fun _ _ _ => rfl, fun k x hx => ?_, fun _ _ _ _ => rfl,
      fun i x hx => ?_⟩ <;> simp only [Bool.false_and, Bool.false_eq_true] at hx
  cases ok with
  | false =>
    have hno : ∀ k, ¬ (Serves v 0 v.diskCount k ∧ writable d k = true) := fun k hk =>
      Bool.false_ne_true (h.any.mpr (Or.inr ⟨k, hk⟩))
    have hpool : ∀ k x, e.pool k x = d.pool k x := fun k x => h.frame k x fun hc => hno k ⟨hc.1, hc.2.1⟩
    refine ⟨h.layout, fun x hx => ?_, fun k hk => (h.healthy k hk).1, fun k x _ => hpool k x, fun k x hx => ?_,
      fun k x _ _ => hpool k x, fun i x hx => ?_⟩ <;>
      simp only [Bool.false_and, Bool.false_eq_true] at hx
  | true =>
    simp only [Bool.true_and]
    have hcov : ∀ x, (decide (offset ≤ x) && decide (x < offset + length)) = true ↔
        offset ≤ x ∧ x < offset + length := fun x => by
      rw [Bool.and_eq_true, decide_eq_true_eq, decide_eq_true_eq]
    refine ⟨h.layout, fun x hx => ?_, fun k hk => (h.healthy k hk).1, fun k x hx => ?_, fun k x hx hr => ?_,
      fun k x hx hr => ?_, fun i x hx hi hh => ?_⟩
    · have hx' := (hcov x).mp hx
      omega
    · refine h.frame k x fun hc => ?_
      rw [(hcov x).mpr hc.2.2] at hx
      cases hx
    · obtain ⟨hs, hw⟩ := (reached_iff v d k).mp hr
      have hx' := (hcov x).mp hx
      exact h.written k x hs hw hx'.1 hx'.2
    · refine h.frame k x fun hc => ?_
      rw [(reached_iff v d k).mpr ⟨hc.1, hc.2.1⟩] at hr
      cases hr
    · have hs : Serves v 0 v.diskCount (v.diskAt i) := ⟨i, Nat.zero_le i, by omega, rfl⟩
      have hx' := (hcov x).mp hx
      exact h.written _ x hs ((h.healthy _ hh).2 hs) hx'.1 hx'.2

theorem Sync.noted {s : Rebuilding} (h : Sync s) {w : StripeVolume} {e : Disks} {data : ℕ → Byte}
    {covered : ℕ → Bool} (ha : Applied s.v w s.d e data covered) : Sync (s.noted w e data covered) := by
  unfold Rebuilding.noted
  have hat : w.diskAt = s.v.diskAt := ha.layout.diskAt
  refine ⟨fun x b hx => ?_, fun x b hx i hi hh => ?_, fun job hjob x b hx hcop => ?_,
    fun job hjob => lt_of_lt_of_eq (h.source job hjob) ha.layout.diskCount.symm, fun job hjob => ?_,
    fun job hjob hold x b hx => ?_⟩
  · refine lt_of_lt_of_eq ?_ ha.layout.total.symm
    simp only at hx
    split at hx
    · next hcx => exact ha.inside x hcx
    · exact h.inside x b hx
  · simp only [hat] at hh ⊢
    have hi' : i < s.v.diskCount := lt_of_lt_of_eq hi ha.layout.diskCount
    cases hcx : covered x with
    | true =>
      simp only [hcx, if_true] at hx
      exact Or.inl ((ha.member i x hcx hi' hh).trans (Option.some.inj hx))
    | false =>
      simp only [hcx, Bool.false_eq_true, if_false] at hx ⊢
      rw [ha.frame _ x hcx]
      exact h.same x b hx i hi' (ha.healthy _ hh)
  · cases hcx : covered x with
    | true =>
      simp only [hcx, if_true] at hx ⊢
      have hb := Option.some.inj hx
      have hcop' : s.pc.isCopied x = true := hcop
      have hjob' : s.pc.job = some job := hjob
      simp only [hcop', hjob', Option.any_some, Bool.true_and, leavesBehind, ← hb]
      cases hr : reached s.v s.d job.replacement with
      | true => exact Or.inl (ha.hit _ x hcx hr)
      | false =>
        rw [ha.missed _ x hcx hr, Bool.not_false, Bool.true_and, decide_eq_true_eq]
        exact eq_or_ne _ _
    | false =>
      simp only [hcx, Bool.false_eq_true, if_false] at hx ⊢
      rw [ha.frame _ x hcx]
      exact h.copied job hjob x b hx hcop
  · cases hh : (e.info job.oldDisk).healthy with
    | false => rfl
    | true => exact absurd ((h.old job hjob).symm.trans (ha.healthy _ hh)) Bool.false_ne_true
  · cases hcx : covered x with
    | true =>
      simp only [hcx, if_true] at hx ⊢
      have hb := Option.some.inj hx
      have hjob' : s.pc.job = some job := hjob
      have hr : reached s.v s.d job.oldDisk = false := by
        have ho := h.old job hjob
        cases hr : reached s.v s.d job.oldDisk with
        | false => rfl
        | true =>
          have hw := ((reached_iff _ _ _).mp hr).2
          rw [writable, ho, Bool.false_and, Bool.false_and] at hw
          cases hw
      simp only [hjob', Option.any_some, ← hb]
      rw [ha.missed _ x hcx hr, decide_eq_true_eq]
      exact eq_or_ne _ _
    | false =>
      simp only [hcx, Bool.false_eq_true, if_false] at hx ⊢
      rw [ha.frame _ x hcx]
      exact h.away job hjob hold x b hx

theorem Sync.start {s t : Rebuilding} (h : Sync s) {alloc : Bool} {replacement : DiskId} {replaceIdx : ℕ}
    (ht : rebuildStep s (.start alloc replacement replaceIdx) = some t) : Sync t := by
  unfold rebuildStep at ht
  simp only at ht
  split at ht
  swap
  · cases ht
  next hpc =>
  split at ht
  · exact Option.some.inj ht ▸ h
  split at ht
  · exact Option.some.inj ht ▸ h
  next hguard _ srcIdx hsrc =>
  obtain rfl := Option.some.inj ht
  obtain ⟨hv, hdrop, hold, hpool⟩ := dropMember_spec s.v s.d (s.v.diskAt replaceIdx) 0 0
  have hlayout := hv.layout
  have hat := hlayout.diskAt
  have hidx : replaceIdx < s.v.diskCount := by omega
  have hfresh : ∀ x b, s.acked x = some b → ∀ i < s.v.diskCount,
      (s.d.info (s.v.diskAt i)).healthy = true → s.d.pool (s.v.diskAt i) x = b := by
    intro x b hx i hi hh
    rcases h.same x b hx i hi hh with hb | ⟨job, hj, _⟩
    · exact hb
    · rw [hpc] at hj
      cases hj
  have hjob : ∀ job, RebuildPc.job (if alloc = true then
      RebuildPc.copying ⟨replacement, replaceIdx, srcIdx, s.v.diskAt replaceIdx,
        (s.d.info (s.v.diskAt replaceIdx)).healthy⟩ 0
      else .failed ⟨replacement, replaceIdx, srcIdx, s.v.diskAt replaceIdx,
        (s.d.info (s.v.diskAt replaceIdx)).healthy⟩) = some job →
      job.oldDisk = s.v.diskAt replaceIdx ∧
        job.oldWasHealthy = (s.d.info (s.v.diskAt replaceIdx)).healthy ∧ job.srcIdx = srcIdx := by
    intro job hj
    cases alloc <;> (obtain rfl := Option.some.inj hj; exact ⟨rfl, rfl, rfl⟩)
  refine ⟨fun x b hx => lt_of_lt_of_eq (h.inside x b hx) hlayout.total.symm, fun x b hx i hi hh => ?_,
    fun job _ x b _ hcop => ?_, fun job hj => ?_, fun job hj => ?_, fun job hj hwas x b hx => ?_⟩
  · simp only [hat] at hh ⊢
    refine Or.inl ((congrFun (congrFun hpool _) x).trans ?_)
    exact hfresh x b hx i (lt_of_lt_of_eq hi hlayout.diskCount) (hdrop.healthy _ hh)
  · cases alloc with
    | true => simp only [RebuildPc.isCopied, if_true, Nat.zero_mul, Nat.not_lt_zero, decide_false,
        Bool.false_eq_true] at hcop
    | false => simp only [RebuildPc.isCopied, Bool.false_eq_true, if_false] at hcop
  · rw [(hjob job hj).2.2]
    exact lt_of_lt_of_eq (rebuildSource_spec hsrc).1 hlayout.diskCount.symm
  · rw [(hjob job hj).1]
    exact hold
  · rw [(hjob job hj).2.1] at hwas
    refine Or.inl ?_
    rw [(hjob job hj).1]
    exact (congrFun (congrFun hpool _) x).trans (hfresh x b hx replaceIdx hidx hwas)

/-- A part of the rebuild that changes at most the replacement's pool, inside the chunk. -/
theorem Sync.moved {s : Rebuilding} (h : Sync s) {job : RebuildJob} {k n : ℕ} (hpc : s.pc = .copying job k)
    {e : Disks} (buf : Buf) (hhealthy : ∀ i, (e.info i).healthy = (s.d.info i).healthy)
    (hother : ∀ i x, i ≠ job.replacement ∨ x < k * chunkSize ∨ k * chunkSize + n ≤ x →
      e.pool i x = s.d.pool i x)
    (hin : ∀ x b, k * chunkSize ≤ x → x < k * chunkSize + n → s.acked x = some b →
      (∃ i < s.v.diskCount, s.v.diskAt i = job.replacement ∧ (s.d.info job.replacement).healthy = true) ∨
          job.replacement = job.oldDisk ∧ job.oldWasHealthy = true →
        e.pool job.replacement x = b ∨ e.pool job.replacement x = s.d.pool job.replacement x) :
    Sync { s with d := e, buf := buf, pc := .failed job } := by
  have hjob : s.pc.job = some job := by rw [hpc]; rfl
  have hsame : ∀ x b, s.acked x = some b → ∀ i < s.v.diskCount,
      (s.d.info (s.v.diskAt i)).healthy = true → s.d.pool (s.v.diskAt i) x = b := by
    intro x b hx i hi hh
    rcases h.same x b hx i hi hh with hb | ⟨job', hj, _⟩
    · exact hb
    · rw [hpc] at hj
      cases hj
  refine ⟨h.inside, fun x b hx i hi hh => Or.inl ?_, fun job' _ x b _ hcop => ?_, fun job' hj => ?_,
    fun job' hj => ?_, fun job' hj hwas x b hx => ?_⟩
  · have hh' : (s.d.info (s.v.diskAt i)).healthy = true := (hhealthy _).symm.trans hh
    have hb := hsame x b hx i hi hh'
    by_cases hout : s.v.diskAt i ≠ job.replacement ∨ x < k * chunkSize ∨ k * chunkSize + n ≤ x
    · exact (hother _ x hout).trans hb
    · have hr : s.v.diskAt i = job.replacement := by
        by_contra hne
        exact hout (Or.inl hne)
      rw [hr] at hb hh' ⊢
      have hxin : k * chunkSize ≤ x ∧ x < k * chunkSize + n := by
        constructor <;> by_contra hc <;> exact hout (Or.inr (by omega))
      rcases hin x b hxin.1 hxin.2 hx (Or.inl ⟨i, hi, hr, hh'⟩) with h1 | h1
      · exact h1
      · exact h1.trans hb
  · simp only [RebuildPc.isCopied, Bool.false_eq_true] at hcop
  · obtain rfl := Option.some.inj hj
    exact h.source _ hjob
  · obtain rfl := Option.some.inj hj
    exact (hhealthy _).trans (h.old _ hjob)
  · obtain rfl := Option.some.inj hj
    have hb := h.away _ hjob hwas x b hx
    by_cases hout : job.oldDisk ≠ job.replacement ∨ x < k * chunkSize ∨ k * chunkSize + n ≤ x
    · rw [hother _ x hout]
      exact hb
    · have hr : job.oldDisk = job.replacement := by
        by_contra hne
        exact hout (Or.inl hne)
      rw [hr] at hb ⊢
      have hxin : k * chunkSize ≤ x ∧ x < k * chunkSize + n := by
        constructor <;> by_contra hc <;> exact hout (Or.inr (by omega))
      rcases hin x b hxin.1 hxin.2 hx (Or.inr ⟨hr.symm, hwas⟩) with h1 | h1
      · exact Or.inl h1
      · rw [h1]
        exact hb

theorem Sync.chunk {s t : Rebuilding} (h : Sync s) {read write : Transfer}
    (hsafe : StepSafe s (.chunk read write)) (ht : rebuildStep s (.chunk read write) = some t) : Sync t := by
  unfold rebuildStep at ht
  simp only at ht
  split at ht
  swap
  · cases ht
  next job k hpc =>
  split at ht
  swap
  · cases ht
  next hlt =>
  have hjob : s.pc.job = some job := by rw [hpc]; rfl
  rw [minU64_eq] at ht
  generalize hn : min (s.v.virtualTotalBytes - k * chunkSize) chunkSize = n at ht
  have hnext : k * chunkSize + chunkSize = (k + 1) * chunkSize := (Nat.succ_mul k chunkSize).symm
  -- the bytes of the chunk on the source are the acknowledged ones
  have hsrc : ∀ x b, k * chunkSize ≤ x → x < k * chunkSize + n → s.acked x = some b →
      s.d.pool (s.v.diskAt job.srcIdx) x = b := by
    intro x b h1 h2 hx
    cases hh : (s.d.info (s.v.diskAt job.srcIdx)).healthy with
    | false => exact (hsafe job k hpc x b h1 (by omega) hx).1 hh
    | true =>
      rcases h.same x b hx job.srcIdx (h.source job hjob) hh with hb | ⟨job', hj, _⟩
      · exact hb
      · rw [hpc] at hj
        cases hj
  have hr := stripeReadRaw_spec read s.d (s.v.diskAt job.srcIdx) s.buf (k * chunkSize) n
  generalize stripeReadRaw read s.d (s.v.diskAt job.srcIdx) s.buf (k * chunkSize) n = r at ht hr
  obtain ⟨ok, e, data⟩ := r
  have hpool : e.pool = s.d.pool := hr.pool
  cases ok with
  | false =>
    obtain rfl := Option.some.inj ht
    exact h.moved (n := 0) hpc data hr.healthy (fun i x _ => by rw [hpool])
      fun x b _ _ _ _ => Or.inr (by rw [hpool])
  | true =>
    simp only at ht
    have hw := stripeWriteRaw_spec write e job.replacement data (k * chunkSize) n
    generalize stripeWriteRaw write e job.replacement data (k * chunkSize) n = w at ht hw
    obtain ⟨ok, f⟩ := w
    have hother : ∀ i x, i ≠ job.replacement ∨ x < k * chunkSize ∨ k * chunkSize + n ≤ x →
        f.pool i x = s.d.pool i x := fun i x hi => (hw.other i x hi).trans (by rw [hpool])
    have hhealthy : ∀ i, (f.info i).healthy = (s.d.info i).healthy := fun i =>
      (hw.healthy i).trans (hr.healthy i)
    cases ok with
    | false =>
      obtain rfl := Option.some.inj ht
      refine h.moved hpc data hhealthy hother fun x b h1 h2 hx hmember => ?_
      rcases hw.torn rfl x h1 h2 with hb | ⟨left, hl, hram, hb⟩
      · exact Or.inr (hb.trans (by rw [hpool]))
      · have hram' : (s.d.info job.replacement).ramBuffer = false := (hr.ram _).symm.trans hram
        exact Or.inl (hb.trans ((hsafe job k hpc x b h1 (by omega) hx).2 hmember hram' left hl))
    | true =>
      obtain rfl := Option.some.inj ht
      have hin : ∀ x b, k * chunkSize ≤ x → x < k * chunkSize + n → s.acked x = some b →
          f.pool job.replacement x = b := by
        intro x b h1 h2 hx
        refine (hw.data rfl x h1 h2).trans ((hr.data rfl (x - k * chunkSize) (by omega)).trans ?_)
        rw [show k * chunkSize + (x - k * chunkSize) = x by omega]
        exact hsrc x b h1 h2 hx
      have hmoved := h.moved hpc data hhealthy hother fun x b h1 h2 hx _ => Or.inl (hin x b h1 h2 hx)
      refine ⟨h.inside, fun x b hx i hi hh => ?_, fun job' hj x b hx hcop => ?_, fun job' hj => ?_,
        fun job' hj => ?_, fun job' hj hwas x b hx => ?_⟩
      · rcases hmoved.same x b hx i hi hh with hb | ⟨job', hj, _⟩
        · exact Or.inl hb
        · cases hj
      · obtain rfl := Option.some.inj hj
        simp only [RebuildPc.isCopied, decide_eq_true_eq] at hcop
        by_cases hlow : x < k * chunkSize
        · rw [hother _ x (Or.inr (Or.inl hlow))]
          exact h.copied _ hjob x b hx (by rw [hpc]; exact decide_eq_true hlow)
        · have hin' := h.inside x b hx
          exact Or.inl (hin x b (by omega) (by omega) hx)
      · obtain rfl := Option.some.inj hj
        exact h.source _ hjob
      · obtain rfl := Option.some.inj hj
        exact hmoved.old _ rfl
      · obtain rfl := Option.some.inj hj
        by_cases hc : job.oldDisk = job.replacement ∧ k * chunkSize ≤ x ∧ x < k * chunkSize + n
        · rw [hc.1]
          exact Or.inl (hin x b hc.2.1 hc.2.2 hx)
        · rcases hmoved.away _ rfl hwas x b hx with hb | hb
          · exact Or.inl hb
          · refine Or.inr ?_
            have hno : (decide (job.oldDisk = job.replacement) && decide (k * chunkSize ≤ x) &&
                decide (x < k * chunkSize + n)) = false := by
              rw [← Bool.decide_and, ← Bool.decide_and]
              exact decide_eq_false fun hd => hc ⟨hd.1.1, hd.1.2, hd.2⟩
            simp only [hno, Bool.not_false, Bool.and_true]
            exact hb

theorem Sync.flush {s t : Rebuilding} (h : Sync s) {ok : Bool} (ht : rebuildStep s (.flush ok) = some t) :
    Sync t := by
  unfold rebuildStep at ht
  simp only at ht
  split at ht
  swap
  · cases ht
  next job k hpc =>
  split at ht
  · cases ht
  next hend =>
  obtain rfl := Option.some.inj ht
  have hjob : s.pc.job = some job := by rw [hpc]; rfl
  have hnext : ∀ job', (if ok = true then RebuildPc.copied job else .failed job).job = some job' → job' = job := by
    intro job' hj
    cases ok <;> exact (Option.some.inj hj).symm
  refine ⟨h.inside, fun x b hx i hi hh => ?_, fun job' hj x b hx _ => ?_, fun job' hj => ?_, fun job' hj => ?_,
    fun job' hj hwas x b hx => ?_⟩
  · rcases h.same x b hx i hi hh with hb | ⟨job', hj, _⟩
    · exact Or.inl hb
    · rw [hpc] at hj
      cases hj
  · rw [hnext job' hj]
    refine h.copied job hjob x b hx ?_
    rw [hpc]
    exact decide_eq_true (lt_of_lt_of_le (h.inside x b hx) (Nat.le_of_not_lt hend))
  · rw [hnext job' hj]
    exact h.source job hjob
  · rw [hnext job' hj]
    exact h.old job hjob
  · rw [hnext job' hj] at hwas ⊢
    exact h.away job hjob hwas x b hx

theorem Sync.swap {s t : Rebuilding} (h : Sync s) (ht : rebuildStep s .swap = some t) : Sync t := by
  unfold rebuildStep at ht
  simp only at ht
  split at ht
  swap
  · cases ht
  next job hpc =>
  obtain rfl := Option.some.inj ht
  have hjob : s.pc.job = some job := by rw [hpc]; rfl
  refine ⟨h.inside, fun x b hx i hi hh => ?_, fun job' hj x b hx _ => ?_, fun job' hj => ?_, fun job' hj => ?_,
    fun job' hj hwas x b hx => ?_⟩
  · simp only [StripeVolume.diskAt] at hh ⊢
    by_cases hidx : i = job.replaceIdx
    · simp only [if_pos hidx] at hh ⊢
      rcases h.copied job hjob x b hx (by rw [hpc]; rfl) with hb | hl
      · exact Or.inl hb
      · exact Or.inr ⟨job, rfl, rfl, hl⟩
    · simp only [if_neg hidx] at hh ⊢
      rcases h.same x b hx i hi hh with hb | ⟨job', hj, _⟩
      · exact Or.inl hb
      · rw [hpc] at hj
        cases hj
  · obtain rfl := Option.some.inj hj
    exact h.copied _ hjob x b hx (by rw [hpc]; rfl)
  · obtain rfl := Option.some.inj hj
    exact h.source _ hjob
  · obtain rfl := Option.some.inj hj
    exact h.old _ hjob
  · obtain rfl := Option.some.inj hj
    exact h.away _ hjob hwas x b hx

theorem Sync.heal {s t : Rebuilding} (h : Sync s) (hsafe : StepSafe s .heal)
    (ht : rebuildStep s .heal = some t) : Sync t := by
  unfold rebuildStep at ht
  simp only at ht
  split at ht
  swap
  · cases ht
  next job hpc =>
  obtain rfl := Option.some.inj ht
  have hjob : s.pc.job = some job := by rw [hpc]; rfl
  have hlate : ∀ x, ¬ s.late x = true := fun x hl => Bool.false_ne_true ((hsafe x).symm.trans hl)
  refine ⟨h.inside, fun x b hx i hi hh => Or.inl ?_, nofun, nofun, nofun, nofun⟩
  have hh' : ((setHealthy s.d job.replacement true).info (s.v.diskAt i)).healthy = true := hh
  have hgoal : s.d.pool (s.v.diskAt i) x = b := by
    by_cases hr : s.v.diskAt i = job.replacement
    · rw [hr]
      exact (h.copied job hjob x b hx (by rw [hpc]; rfl)).resolve_right (hlate x)
    · rw [setHealthy_info, if_neg hr] at hh'
      rcases h.same x b hx i hi hh' with hb | ⟨_, _, _, hl⟩
      · exact hb
      · exact absurd hl (hlate x)
  exact hgoal

theorem Sync.rollback {s t : Rebuilding} (h : Sync s) (hsafe : StepSafe s .rollback)
    (ht : rebuildStep s .rollback = some t) : Sync t := by
  unfold rebuildStep at ht
  simp only at ht
  split at ht
  swap
  · cases ht
  next job hpc =>
  obtain rfl := Option.some.inj ht
  have hjob : s.pc.job = some job := by rw [hpc]; rfl
  have hv : SameLayout s.v (if job.oldWasHealthy = true then { s.v with healthyCount := s.v.healthyCount + 1 }
      else s.v) := by
    split <;> exact ⟨rfl, rfl, rfl, rfl, rfl, rfl, rfl, rfl⟩
  have hat := hv.diskAt
  refine ⟨fun x b hx => lt_of_lt_of_eq (h.inside x b hx) hv.total.symm, fun x b hx i hi hh => Or.inl ?_,
    nofun, nofun, nofun, nofun⟩
  have hi' : i < s.v.diskCount := lt_of_lt_of_eq hi hv.diskCount
  simp only [hat] at hh ⊢
  have hh' : ((setHealthy s.d job.oldDisk job.oldWasHealthy).info (s.v.diskAt i)).healthy = true := hh
  have hgoal : s.d.pool (s.v.diskAt i) x = b := by
    by_cases ho : s.v.diskAt i = job.oldDisk
    · rw [setHealthy_info, if_pos ho] at hh'
      rw [ho]
      refine (h.away job hjob hh' x b hx).resolve_right ?_
      rw [hsafe job hpc hh' x]
      exact Bool.false_ne_true
    · rw [setHealthy_info, if_neg ho] at hh'
      rcases h.same x b hx i hi' hh' with hb | ⟨job', hj, _⟩
      · exact hb
      · rw [hpc] at hj
        cases hj
  exact hgoal

/-- The calls of the writers see no failing transfer. -/
def WriterOk : RebuildLabel → Prop
  | .write io _ _ _ => io.Succeeds
  | _ => True

theorem Sync.step {s t : Rebuilding} {l : RebuildLabel} (h : Sync s) (hsafe : StepSafe s l) (hio : WriterOk l)
    (ht : rebuildStep s l = some t) : Sync t := by
  cases l with
  | write io buffer offset length =>
    obtain rfl := Option.some.inj ht
    exact h.noted (mirrorVolumeWrite_applied hio s.v s.d buffer offset length hsafe)
  | start alloc replacement replaceIdx => exact h.start ht
  | chunk read write => exact h.chunk hsafe ht
  | flush ok => exact h.flush ht
  | swap => exact h.swap ht
  | heal => exact h.heal hsafe ht
  | rollback => exact h.rollback hsafe ht

/-! ### The rebuild as a function -/

/-- The copy loop is a run of chunk steps. -/
theorem rebuildLoop_run (env : RebuildEnv) (job : RebuildJob) (fuel : ℕ) :
    ∀ (k : ℕ) (s : Rebuilding), s.pc = .copying job k → s.v.virtualTotalBytes ≤ (k + fuel) * chunkSize →
      ∃ ls t, run rebuildStep s ls = some t ∧ t.v = s.v ∧
        t.d = (rebuildLoop env (s.v.diskAt job.srcIdx) job.replacement s.v.virtualTotalBytes fuel k s.d s.buf).2 ∧
        ((rebuildLoop env (s.v.diskAt job.srcIdx) job.replacement s.v.virtualTotalBytes fuel k s.d s.buf).1 = true ∧
            (∃ n, t.pc = .copying job n ∧ ¬ n * chunkSize < s.v.virtualTotalBytes) ∨
          (rebuildLoop env (s.v.diskAt job.srcIdx) job.replacement s.v.virtualTotalBytes fuel k s.d s.buf).1 = false ∧
            t.pc = .failed job) := by
  induction fuel with
  | zero =>
    intro k s hpc hfuel
    exact ⟨[], s, rfl, rfl, rfl, Or.inl ⟨rfl, k, hpc, Nat.not_lt.mpr hfuel⟩⟩
  | succ fuel ih =>
    intro k s hpc hfuel
    by_cases hlt : k * chunkSize < s.v.virtualTotalBytes
    swap
    · have he : rebuildLoop env (s.v.diskAt job.srcIdx) job.replacement s.v.virtualTotalBytes (fuel + 1) k s.d
          s.buf = (true, s.d) := by
        unfold rebuildLoop
        exact if_neg hlt
      rw [he]
      exact ⟨[], s, rfl, rfl, rfl, Or.inl ⟨rfl, k, hpc, hlt⟩⟩
    have hstep : rebuildStep s (.chunk (env.read k) (env.write k)) = rebuildStep s
        (.chunk (env.read k) (env.write k)) := rfl
    unfold rebuildLoop
    simp only [if_pos hlt]
    conv at hstep => rhs; unfold rebuildStep
    simp only [hpc, if_pos hlt] at hstep
    generalize minU64 (s.v.virtualTotalBytes - k * chunkSize) chunkSize = n at hstep ⊢
    generalize stripeReadRaw (env.read k) s.d (s.v.diskAt job.srcIdx) s.buf (k * chunkSize) n = r at hstep ⊢
    obtain ⟨ok, e, data⟩ := r
    cases ok with
    | false =>
      obtain ⟨m, hm, hv, hd, hfail⟩ : ∃ m, rebuildStep s (.chunk (env.read k) (env.write k)) = some m ∧
          m.v = s.v ∧ m.d = e ∧ m.pc = .failed job := ⟨_, hstep, rfl, rfl, rfl⟩
      exact ⟨[_], m, (run_cons ..).mpr ⟨m, hm, rfl⟩, hv, hd, Or.inr ⟨rfl, hfail⟩⟩
    | true =>
      simp only at hstep ⊢
      generalize stripeWriteRaw (env.write k) e job.replacement data (k * chunkSize) n = w at hstep ⊢
      obtain ⟨ok, f⟩ := w
      cases ok with
      | false =>
        obtain ⟨m, hm, hv, hd, hfail⟩ : ∃ m, rebuildStep s (.chunk (env.read k) (env.write k)) = some m ∧
            m.v = s.v ∧ m.d = f ∧ m.pc = .failed job := ⟨_, hstep, rfl, rfl, rfl⟩
        exact ⟨[_], m, (run_cons ..).mpr ⟨m, hm, rfl⟩, hv, hd, Or.inr ⟨rfl, hfail⟩⟩
      | true =>
        obtain ⟨m, hm, hv, hd, hbuf, hcopying⟩ : ∃ m, rebuildStep s (.chunk (env.read k) (env.write k)) = some m ∧
            m.v = s.v ∧ m.d = f ∧ m.buf = data ∧ m.pc = .copying job (k + 1) :=
          ⟨_, hstep, rfl, rfl, rfl, rfl⟩
        obtain ⟨ls, t, hrun, htv, htd, hor⟩ := ih (k + 1) m hcopying (by
          rw [hv, show k + 1 + fuel = k + (fuel + 1) by omega]
          exact hfuel)
        rw [hv, hd, hbuf] at htd hor
        exact ⟨_, t, (run_cons ..).mpr ⟨m, hm, hrun⟩, htv.trans hv, htd, hor⟩

/-- `mirror_volume_rebuild` is a run of the steps that no writer interrupts. -/
theorem mirrorVolumeRebuild_run (env : RebuildEnv) (s : Rebuilding) (replacement : DiskId) (replaceIdx : ℕ)
    (hpc : s.pc = .idle) :
    ∃ ls t, run rebuildStep s ls = some t ∧ t.pc = .idle ∧
      t.v = (mirrorVolumeRebuild env s.v s.d replacement replaceIdx).2.1 ∧
      t.d = (mirrorVolumeRebuild env s.v s.d replacement replaceIdx).2.2 := by
  have hstart : rebuildStep s (.start env.alloc replacement replaceIdx) =
      rebuildStep s (.start env.alloc replacement replaceIdx) := rfl
  conv at hstart => rhs; unfold rebuildStep
  simp only [hpc] at hstart
  unfold mirrorVolumeRebuild
  split
  · exact ⟨[], s, rfl, hpc, rfl, rfl⟩
  next hg =>
  rw [if_neg hg] at hstart
  cases hsrc : rebuildSource s.v s.d replaceIdx with
  | none => exact ⟨[], s, rfl, hpc, rfl, rfl⟩
  | some srcIdx =>
    simp only [hsrc] at hstart ⊢
    have hlayout := dropMember_layout s.v s.d (s.v.diskAt replaceIdx)
    generalize dropMember s.v s.d (s.v.diskAt replaceIdx) = r at hstart hlayout ⊢
    obtain ⟨v1, d1⟩ := r
    simp only at hstart hlayout ⊢
    obtain ⟨job, hjob⟩ : ∃ job : RebuildJob, job = ⟨replacement, replaceIdx, srcIdx, s.v.diskAt replaceIdx,
      (s.d.info (s.v.diskAt replaceIdx)).healthy⟩ := ⟨_, rfl⟩
    rw [← hjob] at hstart
    have hold : s.v.diskAt replaceIdx = job.oldDisk := by rw [hjob]
    have hwas : (s.d.info (s.v.diskAt replaceIdx)).healthy = job.oldWasHealthy := by rw [hjob]
    have hrepl : replacement = job.replacement := by rw [hjob]
    have hidx : replaceIdx = job.replaceIdx := by rw [hjob]
    have hsrcIdx : srcIdx = job.srcIdx := by rw [hjob]
    rw [hwas, hold, hrepl, hidx, hsrcIdx]
    have hrollback : ∀ t : Rebuilding, t.pc = .failed job → rebuildStep t .rollback = some { t with
        v := if job.oldWasHealthy then { t.v with healthyCount := t.v.healthyCount + 1 } else t.v
        d := setHealthy t.d job.oldDisk job.oldWasHealthy
        pc := .idle } := by
      intro t ht
      unfold rebuildStep
      simp only [ht]
    cases halloc : env.alloc with
    | false =>
      simp only [halloc, Bool.false_eq_true, if_false] at hstart
      rw [if_pos rfl]
      obtain ⟨m, hm, hv, hd, hfail⟩ : ∃ m, rebuildStep s (.start false replacement replaceIdx) = some m ∧
          m.v = v1 ∧ m.d = d1 ∧ m.pc = .failed job := ⟨_, hstart, rfl, rfl, rfl⟩
      refine ⟨[_, .rollback], _, (run_cons ..).mpr ⟨m, hm, (run_cons ..).mpr ⟨_, hrollback m hfail, rfl⟩⟩, rfl,
        ?_, ?_⟩
      · rw [hv]
      · rw [hd]
    | true =>
      simp only [halloc, if_true] at hstart
      rw [if_neg (show ¬ (true = false) by decide), ← hlayout.total]
      obtain ⟨m, hm, hmv, hmd, hmbuf, hcopying⟩ : ∃ m, rebuildStep s (.start true replacement replaceIdx) = some m ∧
          m.v = v1 ∧ m.d = d1 ∧ m.buf = (fun _ => 0) ∧ m.pc = .copying job 0 :=
        ⟨_, hstart, rfl, rfl, rfl, rfl⟩
      have hfuel : v1.virtualTotalBytes ≤ (0 + (v1.virtualTotalBytes / chunkSize + 1)) * chunkSize := by
        have hlt := Nat.lt_mul_div_succ v1.virtualTotalBytes (show 0 < chunkSize by decide)
        rw [Nat.mul_comm] at hlt
        rw [Nat.zero_add]
        exact Nat.le_of_lt hlt
      obtain ⟨ls, t, hrun, hv, hd, hor⟩ := rebuildLoop_run env job (v1.virtualTotalBytes / chunkSize + 1) 0 m
        hcopying (by rw [hmv]; exact hfuel)
      rw [hmv, hmd, hmbuf] at hd hor
      rw [hmv] at hv
      generalize rebuildLoop env (v1.diskAt job.srcIdx) job.replacement v1.virtualTotalBytes
        (v1.virtualTotalBytes / chunkSize + 1) 0 d1 (fun _ => 0) = c at hd hor ⊢
      obtain ⟨copied, d2⟩ := c
      simp only at hd hor ⊢
      have hcopied := (run_cons ..).mpr ⟨m, hm, hrun⟩
      rcases hor with ⟨rfl, n, hn, hend⟩ | ⟨rfl, hfail⟩
      · have hflush : ∀ ok, rebuildStep t (.flush ok) = some { t with
            pc := if ok then .copied job else .failed job } := by
          intro ok
          unfold rebuildStep
          rw [← hv] at hend
          simp only [hn, if_neg hend]
        cases hf : env.flush with
        | true =>
          rw [if_pos ⟨rfl, rfl⟩]
          refine ⟨_ ++ [.flush true, .swap, .heal], _, (run_append ..).mpr ⟨t, hcopied,
            (run_cons ..).mpr ⟨_, hflush true, rfl⟩⟩, rfl, ?_, ?_⟩
          · simp only [hv]
          · simp only [hd]
        | false =>
          rw [if_neg (fun hc => Bool.false_ne_true hc.2)]
          refine ⟨_ ++ [.flush false, .rollback], _, (run_append ..).mpr ⟨t, hcopied,
            (run_cons ..).mpr ⟨_, hflush false, (run_cons ..).mpr ⟨_, hrollback _ rfl, rfl⟩⟩⟩, rfl, ?_, ?_⟩
          · simp only [hv]
          · simp only [hd]
      · rw [if_neg (fun hc => Bool.false_ne_true hc.1)]
        refine ⟨_ ++ [.rollback], _, (run_append ..).mpr ⟨t, hcopied,
          (run_cons ..).mpr ⟨_, hrollback t hfail, rfl⟩⟩, rfl, ?_, ?_⟩
        · simp only [hv]
        · simp only [hd]

/-! ### Rebuilds and writers -/

/-- No rebuild is running and nothing is acknowledged yet. -/
def Rebuilding.start (v : StripeVolume) (d : Disks) : Rebuilding :=
  ⟨v, d, fun _ => 0, .idle, fun _ => none, fun _ => false, fun _ => false⟩

/-- In every run whose steps are safe, whenever no rebuild is under way the healthy members
hold the last acknowledged value of every byte. -/
theorem mirrorVolumeRebuild_synced (v : StripeVolume) (d : Disks) (ls : List RebuildLabel) (s : Rebuilding)
    (hio : ∀ l ∈ ls, WriterOk l) (hsafe : Along rebuildStep StepSafe (.start v d) ls)
    (hrun : run rebuildStep (.start v d) ls = some s) (hidle : s.pc = .idle) :
    ∀ x b, s.acked x = some b → ∀ i < s.v.diskCount,
      (s.d.info (s.v.diskAt i)).healthy = true → s.d.pool (s.v.diskAt i) x = b := by
  have h : Sync s := by
    refine run_invariant (P := fun s l => StepSafe s l ∧ WriterOk l)
      (fun s l t hs hp ht => hs.step hp.1 hp.2 ht) (hsafe.and (along_of_forall rebuildStep _ hio)) ?_ hrun
    exact ⟨nofun, nofun, nofun, nofun, nofun, nofun⟩
  intro x b hx i hi hh
  rcases h.same x b hx i hi hh with hb | ⟨job, hj, _⟩
  · exact hb
  · rw [hidle] at hj
    cases hj

/-- Member 1 is rebuilt onto disk 2; a write comes after the copy. -/
def overtaken : List RebuildLabel :=
  [.start true 2 1, .chunk .ok .ok, .write .good (fun _ => 7) 0 1, .flush true, .swap, .heal]

/-- The rebuild of member 1 fails after a write, and the member comes back. -/
def broughtBack : List RebuildLabel :=
  [.start true 2 1, .write .good (fun _ => 7) 0 1, .chunk (.error fun _ => 0) .ok, .rollback]

theorem mirrorVolumeRebuild_synced_fails :
    ∃ v d s t, mirrorVolumeCreate sectorDisks [0, 1] = some (v, d) ∧
      run rebuildStep (.start v d) overtaken = some s ∧ run rebuildStep (.start v d) broughtBack = some t ∧
      (s.acked 0 = some 7 ∧ (s.d.info (s.v.diskAt 1)).healthy = true ∧ s.d.pool (s.v.diskAt 1) 0 = 1) ∧
      t.acked 0 = some 7 ∧ (t.d.info (t.v.diskAt 1)).healthy = true ∧ t.d.pool (t.v.diskAt 1) 0 = 1 :=
  ⟨_, _, _, _, rfl, rfl, rfl, ⟨by decide, by decide, by decide⟩, by decide, by decide, by decide⟩

/-- A write before the chunk is copied, and one after the rebuild. -/
def inStep : List RebuildLabel :=
  [.start true 2 1, .write .good (fun _ => 7) 0 1, .chunk .ok .ok, .flush true, .swap, .heal,
    .write .good (fun _ => 8) 1 1]

/-- The mirror of the two disks. -/
def sectorMirror : StripeVolume × Disks :=
  (mirrorVolumeCreate sectorDisks [0, 1]).getD (.zero, sectorDisks)

theorem mirrorVolumeRebuild_synced_sample :
    ∃ s, run rebuildStep (.start sectorMirror.1 sectorMirror.2) inStep = some s ∧
      ∀ x b, s.acked x = some b → ∀ i < s.v.diskCount,
        (s.d.info (s.v.diskAt i)).healthy = true → s.d.pool (s.v.diskAt i) x = b := by
  refine ⟨_, rfl, mirrorVolumeRebuild_synced sectorMirror.1 sectorMirror.2 inStep _ ?_ ?_ rfl rfl⟩
  · intro l hl
    simp only [inStep, List.mem_cons, List.not_mem_nil, or_false] at hl
    rcases hl with rfl | rfl | rfl | rfl | rfl | rfl | rfl
    exacts [trivial, IoEnv.good_succeeds, trivial, trivial, trivial, trivial, IoEnv.good_succeeds]
  · refine along_cons rfl trivial (along_cons rfl (fun h => Bool.false_ne_true h.1) (along_cons rfl ?_
      (along_cons rfl trivial (along_cons rfl trivial (along_cons rfl ?_ (along_cons rfl
        (fun h => Bool.false_ne_true h.1) trivial))))))
    · intro job k hpc x b _ _ _
      obtain ⟨rfl, rfl⟩ := RebuildPc.copying.inj hpc
      exact ⟨fun hun => absurd hun (by decide), fun _ _ left hl => by cases hl⟩
    · intro x
      have hno : decide (x < 0 * chunkSize) = false :=
        decide_eq_false (by rw [Nat.zero_mul]; exact Nat.not_lt_zero x)
      change (if _ then decide (x < 0 * chunkSize) && _ else false) = false
      rw [hno, Bool.false_and, ite_self]

end RaidTest.Mirror
