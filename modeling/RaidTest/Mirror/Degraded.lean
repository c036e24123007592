import RaidTest.Mirror.Members

/-!
# Reads of a degraded mirror

Past its cache a mirror is read from the first member that answers: one whose disk is healthy,
not faulty and serves the transfer, and that no earlier member failed on. The cache takes the
place of the members for a whole request or not at all, and a miss in it ends the read.
-/

namespace RaidTest.Mirror
open RaidTest.Cache RaidTest.Stripe

/-! ### The member that answers -/

/-- Member `i` is healthy, not faulty and serves a raw read. -/
def rawReads (io : IoEnv) (v : StripeVolume) (d : Disks) (i : ℕ) : Bool :=
  let x := d.info (v.diskAt i)
  x.healthy && !x.faulty && (x.ramBuffer || (x.hasHandle && (io.result i).isOk))

/-- Member `i` serves a raw read, and no member from `first` on before it is the same disk. -/
def Answers (io : IoEnv) (v : StripeVolume) (d : Disks) (first i : ℕ) : Prop :=
  rawReads io v d i = true ∧ ∀ k, first ≤ k → k < i → v.diskAt k ≠ v.diskAt i

/-- The first member that answers. -/
def answering (io : IoEnv) (v : StripeVolume) (d : Disks) : Option ℕ :=
  (List.range v.diskCount).find? fun i =>
    rawReads io v d i && (List.range i).all fun k => decide (v.diskAt k ≠ v.diskAt i)

theorem answers_iff (io : IoEnv) (v : StripeVolume) (d : Disks) (m : ℕ) :
    (rawReads io v d m && (List.range m).all fun k => decide (v.diskAt k ≠ v.diskAt m)) = true ↔
      Answers io v d 0 m := by
  simp only [Answers, Bool.and_eq_true, List.all_eq_true, List.mem_range, decide_eq_true_eq, Nat.zero_le, true_imp_iff]

theorem answering_iff (io : IoEnv) (v : StripeVolume) (d : Disks) (i : ℕ) :
    answering io v d = some i ↔
      i < v.diskCount ∧ Answers io v d 0 i ∧ ∀ m < i, ¬ Answers io v d 0 m := by
  have hp := answers_iff io v d
  unfold answering
  rw [List.find?_range_eq_some, hp, List.mem_range]
  constructor
  · rintro ⟨h1, h2, h3⟩
    refine ⟨h2, h1, fun m hm ha => ?_⟩
    have hn := h3 m hm
    rw [(hp m).mpr ha] at hn
    cases hn
  · rintro ⟨h1, h2, h3⟩
    refine ⟨h2, h1, fun m hm => ?_⟩
    rw [Bool.not_eq_true', Bool.eq_false_iff]
    exact fun ha => h3 m hm ((hp m).mp ha)

/-- The first place of a disk among the members. -/
theorem first_place (v : StripeVolume) (j : ℕ) :
    ∃ m ≤ j, v.diskAt m = v.diskAt j ∧ ∀ k < m, v.diskAt k ≠ v.diskAt m := by
  induction j using Nat.strongRecOn with
  | ind j ih =>
    by_cases h : ∃ k < j, v.diskAt k = v.diskAt j
    · obtain ⟨k, hk, he⟩ := h
      obtain ⟨m, hm, hmk, hfirst⟩ := ih k hk
      exact ⟨m, by omega, hmk.trans he, hfirst⟩
    · exact ⟨j, Nat.le_refl j, rfl, fun k hk he => h ⟨k, hk, he⟩⟩

/-- A disk that serves every read it is asked for answers at its first place among the members. -/
theorem answering_isSome {io : IoEnv} {v : StripeVolume} {d : Disks} {j : ℕ} (hj : j < v.diskCount)
    (h : ∀ k < v.diskCount, v.diskAt k = v.diskAt j → rawReads io v d k = true) :
    (answering io v d).isSome = true := by
  obtain ⟨m, hm, hsame, hfirst⟩ := first_place v j
  rw [answering, List.find?_isSome]
  refine ⟨m, List.mem_range.mpr (by omega), ?_⟩
  rw [Bool.and_eq_true, h m (by omega) hsame, List.all_eq_true]
  exact ⟨rfl, fun k hk => decide_eq_true (hfirst k (List.mem_range.mp hk))⟩

/-! ### The loop over the members -/

/-- The loop has passed member `i`: its disk is unhealthy, every other record and all pools are as
before. -/
structure Passed (v : StripeVolume) (d : Disks) (i : ℕ) (w : StripeVolume) (e : Disks) : Prop where
  disks : w.diskAt = v.diskAt
  pool : e.pool = d.pool
  down : (e.info (v.diskAt i)).healthy = false
  other : ∀ k, k ≠ v.diskAt i → e.info k = d.info k

theorem Passed.rawReads {v w : StripeVolume} {d e : Disks} {i : ℕ} (h : Passed v d i w e) (io : IoEnv) (m : ℕ) :
    rawReads io w e m = true ↔ rawReads io v d m = true ∧ v.diskAt i ≠ v.diskAt m := by
  unfold Mirror.rawReads
  rw [h.disks]
  by_cases he : v.diskAt m = v.diskAt i
  · simp only [he, h.down, Bool.false_and, Bool.false_eq_true, ne_eq, not_true_eq_false, and_false]
  · rw [h.other _ he]
    exact ⟨fun hr => ⟨hr, fun hn => he hn.symm⟩, fun hr => hr.1⟩

theorem Passed.answers {v w : StripeVolume} {d e : Disks} {i : ℕ} (h : Passed v d i w e) (io : IoEnv) {m : ℕ}
    (hm : i < m) : Answers io w e (i + 1) m ↔ Answers io v d i m := by
  unfold Answers
  rw [h.rawReads, h.disks]
  constructor
  · rintro ⟨⟨hr, hne⟩, hlater⟩
    refine ⟨hr, fun k h1 h2 => ?_⟩
    by_cases he : k = i
    · rw [he]
      exact hne
    · exact hlater k (by omega) h2
  · rintro ⟨hr, hlater⟩
    exact ⟨⟨hr, hlater i (Nat.le_refl i) hm⟩, fun k h1 h2 => hlater k (by omega) h2⟩

theorem stripeReadRaw_answer (t : Transfer) {d : Disks} {i : DiskId} (buffer : Buf) (offset length : ℕ)
    (hf : (d.info i).faulty = false) :
    (stripeReadRaw t d i buffer offset length).1 = ((d.info i).ramBuffer || ((d.info i).hasHandle && t.isOk)) := by
  unfold stripeReadRaw
  rw [hf]
  cases (d.info i).ramBuffer <;> cases (d.info i).hasHandle <;> cases t <;> rfl

theorem stripeReadRaw_other (t : Transfer) (d : Disks) (i : DiskId) (buffer : Buf) (offset length : ℕ) {k : DiskId}
    (hk : k ≠ i) : (stripeReadRaw t d i buffer offset length).2.1.info k = d.info k := by
  have hok : ∀ ok, (stripeIoOk d i ok).info k = d.info k := by
    intro ok
    cases ok <;> exact if_neg hk
  unfold stripeReadRaw
  split
  · rfl
  split
  · rfl
  split
  · cases t with
    | ok => exact hok true
    | error left => exact hok false
  · exact hok false

theorem dropMember_passed {v : StripeVolume} {d e : Disks} {i : ℕ} (hpool : e.pool = d.pool)
    (hother : ∀ k, k ≠ v.diskAt i → e.info k = d.info k) :
    Passed v d i (dropMember v e (v.diskAt i)).1 (dropMember v e (v.diskAt i)).2 := by
  obtain ⟨hv, _, hdown, hp⟩ := dropMember_spec v e (v.diskAt i) 0 0
  refine ⟨hv.layout.diskAt, hp.trans hpool, hdown, fun k hk => ?_⟩
  exact (if_neg hk).trans (hother k hk)

/-- The bytes of a member. -/
def ReadFrom (v : StripeVolume) (d : Disks) (offset length i : ℕ) (r : Bool × StripeVolume × Disks × Buf) : Prop :=
  r.1 = true ∧ ∀ p < length, r.2.2.2 p = d.pool (v.diskAt i) (offset + p)

theorem mirrorReadLoop_answers (io : IoEnv) (offset length : ℕ) {j n : ℕ} :
    ∀ {i : ℕ} {v : StripeVolume} {d : Disks} (buffer : Buf), i ≤ j → j < i + n → Answers io v d i j →
      (∀ m, i ≤ m → m < j → ¬ Answers io v d i m) →
      ReadFrom v d offset length j (mirrorReadLoop io offset length n i v d buffer) := by
  induction n with
  | zero => intro i v d buffer h1 h2; omega
  | succ n ih =>
    intro i v d buffer h1 h2 hj hfirst
    -- what is left to do once member `i` is passed
    have hpass : ∀ {w : StripeVolume} {e : Disks} (out : Buf), Passed v d i w e → i ≠ j →
        ReadFrom v d offset length j (mirrorReadLoop io offset length n (i + 1) w e out) := by
      intro w e out hp hne
      have hr := ih (v := w) (d := e) out (show i + 1 ≤ j by omega) (by omega) ((hp.answers io (by omega)).mpr hj)
        fun m hm1 hm2 ha => hfirst m (by omega) hm2 ((hp.answers io (by omega)).mp ha)
      unfold ReadFrom at hr ⊢
      rw [hp.disks, hp.pool] at hr
      exact hr
    have hself : rawReads io v d i = true → i = j := by
      intro hr
      by_contra hne
      exact hfirst i (Nat.le_refl i) (by omega) ⟨hr, fun k hk1 hk2 => by omega⟩
    have hreads : rawReads io v d j = true := hj.1
    unfold mirrorReadLoop
    simp only
    split
    · next hun =>
      refine hpass buffer ⟨rfl, rfl, hun, fun _ _ => rfl⟩ ?_
      rintro rfl
      simp only [rawReads, hun, Bool.false_and, Bool.false_eq_true] at hreads
    next hup =>
    split
    · next hf =>
      refine hpass buffer (dropMember_passed rfl fun _ _ => rfl) ?_
      rintro rfl
      simp only [rawReads, hf, Bool.not_true, Bool.and_false, Bool.false_and, Bool.false_eq_true] at hreads
    next hf =>
    rw [Bool.not_eq_true] at hf
    rw [Bool.not_eq_false] at hup
    have hans := stripeReadRaw_answer (io.result i) buffer offset length hf
    have hspec := stripeReadRaw_spec (io.result i) d (v.diskAt i) buffer offset length
    have hother := fun k => stripeReadRaw_other (io.result i) d (v.diskAt i) buffer offset length (k := k)
    have hri : rawReads io v d i = ((d.info (v.diskAt i)).ramBuffer ||
        ((d.info (v.diskAt i)).hasHandle && (io.result i).isOk)) := by
      simp only [rawReads, hup, hf, Bool.not_false, Bool.and_self, Bool.true_and]
    rw [← hri] at hans
    generalize stripeReadRaw (io.result i) d (v.diskAt i) buffer offset length = r at hans hspec hother
    obtain ⟨ok, e, out⟩ := r
    cases ok with
    | true =>
      obtain rfl := hself hans.symm
      exact ⟨rfl, hspec.data rfl⟩
    | false =>
      refine hpass out (dropMember_passed hspec.pool fun k hk => hother k hk) ?_
      rintro rfl
      rw [hreads] at hans
      cases hans

/-! ### Reads with and without the cache -/

/-- The request is answered by the cache alone. -/
def FromCache (v : StripeVolume) (offset length : ℕ) : Prop :=
  v.cacheEnabled = true ∧ v.cacheFlushInProgress = false ∧ offset + length ≤ v.cache.cacheSizeBytes

instance (v : StripeVolume) (offset length : ℕ) : Decidable (FromCache v offset length) :=
  inferInstanceAs (Decidable (_ ∧ _ ∧ _))

/-- Byte `x` is in a dirty block of the cache. -/
def InDirty (v : StripeVolume) (x : ℕ) : Prop := v.cacheEnabled = true ∧ v.cache.dirtyMap (x / 65536) = true

/-- A read that returns true, with the cache's bytes for dirty blocks and a healthy member's for the
others. -/
def DegradedRead (v : StripeVolume) (d : Disks) (offset length : ℕ) (r : Bool × StripeVolume × Disks × Buf) : Prop :=
  r.1 = true ∧ ∀ p < length,
    (InDirty v (offset + p) → r.2.2.2 p = v.cache.buffer (offset + p)) ∧
    (¬ InDirty v (offset + p) → ∃ i < v.diskCount, (d.info (v.diskAt i)).healthy = true ∧
      r.2.2.2 p = d.pool (v.diskAt i) (offset + p))

/-- From the cache: every block is valid, and the clean ones are as on a healthy member. From the
members: the one that answers holds what the cache holds in dirty blocks. -/
def CacheAgrees (io : IoEnv) (v : StripeVolume) (d : Disks) (offset length : ℕ) : Prop :=
  if FromCache v offset length then
    (∀ b, Touches offset length b → v.cache.validMap b = true) ∧
    ∀ p < length, ¬ InDirty v (offset + p) → ∃ i < v.diskCount, (d.info (v.diskAt i)).healthy = true ∧
      v.cache.buffer (offset + p) = d.pool (v.diskAt i) (offset + p)
  else ∀ i, answering io v d = some i → ∀ p < length, InDirty v (offset + p) →
    d.pool (v.diskAt i) (offset + p) = v.cache.buffer (offset + p)

section Branches
variable {v : StripeVolume} {offset length : ℕ} (hm : v.checkDisks = true) (hpos : 0 < length)
  (hin : offset + length ≤ v.virtualTotalBytes) (io : IoEnv) (d : Disks) (buffer : Buf)
include hm hpos hin

theorem inRange : ¬ (length = 0 ∨ outOfRange v offset length = true ∨ v.checkDisks = false) := by
  rw [outOfRange_iff, hm]
  simp only [Bool.true_eq_false, or_false]
  omega

theorem mirrorVolumeRead_fromCache (hf : FromCache v offset length) :
    (mirrorVolumeRead io v d buffer offset length).1 = (cacheRead v.cache buffer offset length).1 ∧
      (mirrorVolumeRead io v d buffer offset length).2.2.2 = (cacheRead v.cache buffer offset length).2.1 := by
  unfold mirrorVolumeRead
  rw [if_neg (inRange hm hpos hin), if_pos (show _ ∧ _ ∧ _ from hf)]
  exact ⟨rfl, rfl⟩

theorem mirrorVolumeRead_members (hf : ¬ FromCache v offset length) :
    mirrorVolumeRead io v d buffer offset length = mirrorReadLoop io offset length v.diskCount 0 v d buffer := by
  unfold mirrorVolumeRead
  rw [if_neg (inRange hm hpos hin), if_neg (show ¬ (_ ∧ _ ∧ _) from hf)]

end Branches

/-- With a healthy member that serves raw reads, a read returns true with the right bytes exactly
when cache and members agree on them. -/
theorem mirrorVolumeRead_degraded (io : IoEnv) (v : StripeVolume) (d : Disks) (buffer : Buf) {offset length j : ℕ}
    (hm : v.checkDisks = true) (hc : v.cacheEnabled = true → CacheOk v.cache) (hpos : 0 < length)
    (hlen : length < 2^32) (hin : offset + length ≤ v.virtualTotalBytes) (hj : j < v.diskCount)
    (hserves : ∀ k < v.diskCount, v.diskAt k = v.diskAt j → rawReads io v d k = true) :
    DegradedRead v d offset length (mirrorVolumeRead io v d buffer offset length) ↔
      CacheAgrees io v d offset length := by
  unfold CacheAgrees
  by_cases hf : FromCache v offset length
  · rw [if_pos hf]
    obtain ⟨hok, hout⟩ := mirrorVolumeRead_fromCache hm hpos hin io d buffer hf
    generalize mirrorVolumeRead io v d buffer offset length = r at hok hout
    rcases cacheRead_cases (hc hf.1) buffer offset hlen with ⟨ht, _, _, hvalid, hget⟩ | ⟨ht, _, hmiss⟩
    · rw [ht] at hok
      have hdata : ∀ p < length, r.2.2.2 p = v.cache.buffer (offset + p) := by
        intro p hp
        rw [hout, hget, Buf.put_of_mem _ _ (Nat.zero_le p) (by omega), Nat.sub_zero, Buf.shift]
      constructor
      · rintro ⟨_, hbytes⟩
        refine ⟨hvalid, fun p hp hd => ?_⟩
        rw [← hdata p hp]
        exact (hbytes p hp).2 hd
      · rintro ⟨_, hclean⟩
        refine ⟨hok, fun p hp => ⟨fun _ => hdata p hp, fun hd => ?_⟩⟩
        rw [hdata p hp]
        exact hclean p hp hd
    · constructor
      · rintro ⟨htrue, _⟩
        rw [hok, ht] at htrue
        cases htrue
      · rintro ⟨hvalid, _⟩
        exact absurd ⟨hpos, hf.2.2, hvalid⟩ hmiss
  · rw [if_neg hf, mirrorVolumeRead_members hm hpos hin io d buffer hf]
    obtain ⟨i, hi⟩ := Option.isSome_iff_exists.mp (answering_isSome hj hserves)
    obtain ⟨hcount, hans, hfirst⟩ := (answering_iff io v d i).mp hi
    obtain ⟨hok, hdata⟩ := mirrorReadLoop_answers io offset length buffer (Nat.zero_le i)
      (show i < 0 + v.diskCount by omega) hans fun m _ hlt => hfirst m hlt
    have hhealthy : (d.info (v.diskAt i)).healthy = true := by
      have hr := hans.1
      simp only [rawReads, Bool.and_eq_true] at hr
      exact hr.1.1
    constructor
    · rintro ⟨_, hbytes⟩ k hk p hp hd
      obtain rfl := Option.some.inj (hi.symm.trans hk)
      rw [← hdata p hp]
      exact (hbytes p hp).1 hd
    · intro h
      refine ⟨hok, fun p hp => ⟨fun hd => ?_, fun _ => ⟨i, hcount, hhealthy, hdata p hp⟩⟩⟩
      rw [hdata p hp]
      exact h i hi p hp hd

/-- Two members of two blocks with the same bytes. -/
def twinDisks : Disks :=
  ⟨fun _ => ⟨131072, 100, 0, false, true, false, false, 0, false⟩, fun _ p => UInt8.ofNat p⟩

def twinMirror : StripeVolume × Disks := (mirrorVolumeCreate twinDisks [0, 1]).getD (.zero, twinDisks)

/-- The mirror behind a cache that holds nothing yet. -/
def coldMirror : StripeVolume :=
  { twinMirror.1 with cache := (cacheInit .good .zero 131072).2, cacheEnabled := true }

/-- Both members are healthy and serve, and the read of their first byte returns false. -/
theorem mirrorVolumeRead_degraded_fails :
    coldMirror.checkDisks = true ∧ 0 + 1 ≤ coldMirror.virtualTotalBytes ∧
      rawReads .good coldMirror twinMirror.2 0 = true ∧ rawReads .good coldMirror twinMirror.2 1 = true ∧
      (mirrorVolumeRead .good coldMirror twinMirror.2 (fun _ => 0) 0 1).1 = false :=
  ⟨by decide, by decide, by decide, by decide, by decide⟩

/-- Without a cache the second member answers for the first. -/
theorem mirrorVolumeRead_degraded_sample :
    DegradedRead twinMirror.1 (setHealthy twinMirror.2 0 false) 5 3
      (mirrorVolumeRead .good twinMirror.1 (setHealthy twinMirror.2 0 false) (fun _ => 0) 5 3) := by
  refine (mirrorVolumeRead_degraded .good twinMirror.1 (setHealthy twinMirror.2 0 false) (fun _ => 0) (j := 1)
    (by decide) (fun h => by cases h) (by decide) (by decide) (by decide) (by decide) (by decide)).mpr ?_
  refine fun i _ p _ hd => ?_
  obtain ⟨he, _⟩ := hd
  cases he

end RaidTest.Mirror
