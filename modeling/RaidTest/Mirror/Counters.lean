import RaidTest.Base.Trace
import RaidTest.Mirror.Degraded
import RaidTest.Stripe.ReadWrite

/-!
# The transfer counters (`stripe_volume_read`, `stripe_volume_write`)

The entry points of a volume add the length of a transfer to `bytes_read` or `bytes_written`. On
a mirror they call the mirror engine, which has added it already.
-/

namespace RaidTest.Mirror
open RaidTest.Base RaidTest.Cache RaidTest.Stripe

/-! ### Calls -/

/-- A call of `stripe_volume_read` or `stripe_volume_write`, with the answers of the disks. -/
inductive TransferCall where
  | read (io : IoEnv) (buffer : Buf) (offset : ℕ) (length : UInt32)
  | write (io : IoEnv) (buffer : Buf) (offset : ℕ) (length : UInt32)

/-- The volume and its disks. -/
structure TransferState where
  v : StripeVolume
  d : Disks

/-- What a call returns, and what it leaves. -/
def transferCall (s : TransferState) : TransferCall → Option (Bool × TransferState)
  | .read io buffer offset length =>
    (stripeVolumeRead io s.v s.d buffer offset length.toNat).map fun r => (r.1, ⟨r.2.1, r.2.2.1⟩)
  | .write io buffer offset length =>
    (stripeVolumeWrite io s.v s.d buffer offset length.toNat).map fun r => (r.1, ⟨r.2.1, r.2.2⟩)

def transferStep (s : TransferState) (c : TransferCall) : Option TransferState := (transferCall s c).map Prod.snd

/-- `bytes_read` grows by `length` if the call returns true, and `bytes_written` never. -/
structure CountsRead (length : ℕ) (v : StripeVolume) (ok : Bool) (w : StripeVolume) : Prop where
  read : w.bytesRead = if ok then u64 (v.bytesRead + length) else v.bytesRead
  written : w.bytesWritten = v.bytesWritten

structure CountsWritten (length : ℕ) (v : StripeVolume) (ok : Bool) (w : StripeVolume) : Prop where
  written : w.bytesWritten = if ok then u64 (v.bytesWritten + length) else v.bytesWritten
  read : w.bytesRead = v.bytesRead

/-- Whatever the call returns, it counts its bytes once if that is true, else not at all. -/
def CountsOnce (s : TransferState) : TransferCall → Prop
  | .read io buffer offset length => ∀ ok t, transferCall s (.read io buffer offset length) = some (ok, t) →
    CountsRead length.toNat s.v ok t.v
  | .write io buffer offset length => ∀ ok t, transferCall s (.write io buffer offset length) = some (ok, t) →
    CountsWritten length.toNat s.v ok t.v

/-- The request passes the checks of both engines. -/
def Admitted (v : StripeVolume) (offset length : ℕ) : Prop :=
  ¬ (length = 0 ∨ u64 (offset + length) > v.virtualTotalBytes ∨ v.checkDisks = false) ∧ outOfRange v offset length = false

/-- A mirror can serve the call: its cache has every block of a read or takes the write, or some
member answers. A write-through cache needs both. -/
def MirrorServes (s : TransferState) : TransferCall → Prop
  | .read io _ offset length => Admitted s.v offset length.toNat ∧
    if FromCache s.v offset length.toNat then
      inCache s.v.cache offset length.toNat = true ∧ allValid s.v.cache offset length.toNat = true
    else (answering io s.v s.d).isSome = true
  | .write io _ offset length => Admitted s.v offset length.toNat ∧
    if FromCache s.v offset length.toNat then
      inCache s.v.cache offset length.toNat = true ∧
        (s.v.cache.writeThrough = true → (answering io s.v s.d).isSome = true)
    else (answering io s.v s.d).isSome = true

/-! ### What the loops count -/

theorem dropMember_counters (v : StripeVolume) (d : Disks) (i : DiskId) :
    (dropMember v d i).1.bytesRead = v.bytesRead ∧ (dropMember v d i).1.bytesWritten = v.bytesWritten := by
  unfold dropMember
  simp only
  split <;> exact ⟨rfl, rfl⟩

theorem mirrorReadLoop_counts (io : IoEnv) (offset length n : ℕ) :
    ∀ (i : ℕ) (v : StripeVolume) (d : Disks) (buffer : Buf),
      CountsRead length v (mirrorReadLoop io offset length n i v d buffer).1
        (mirrorReadLoop io offset length n i v d buffer).2.1 := by
  induction n with
  | zero => exact fun i v d buffer => ⟨rfl, rfl⟩
  | succ n ih =>
    intro i v d buffer
    have hdrop : ∀ (e : Disks) (out : Buf), CountsRead length v
        (mirrorReadLoop io offset length n (i + 1) (dropMember v e (v.diskAt i)).1 (dropMember v e (v.diskAt i)).2 out).1
        (mirrorReadLoop io offset length n (i + 1) (dropMember v e (v.diskAt i)).1 (dropMember v e (v.diskAt i)).2
          out).2.1 := by
      intro e out
      obtain ⟨h1, h2⟩ := dropMember_counters v e (v.diskAt i)
      have hrest := ih (i + 1) (dropMember v e (v.diskAt i)).1 (dropMember v e (v.diskAt i)).2 out
      exact ⟨by rw [hrest.read, h1], by rw [hrest.written, h2]⟩
    unfold mirrorReadLoop
    simp only
    split
    · exact ih (i + 1) v d buffer
    split
    · exact hdrop d buffer
    · generalize stripeReadRaw (io.result i) d (v.diskAt i) buffer offset length = r
      obtain ⟨ok, e, out⟩ := r
      cases ok with
      | true => exact ⟨rfl, rfl⟩
      | false => exact hdrop e out

theorem mirrorWriteLoop_counters (io : IoEnv) (buffer : Buf) (offset length n : ℕ) :
    ∀ (i : ℕ) (anyOk : Bool) (v : StripeVolume) (d : Disks),
      (mirrorWriteLoop io buffer offset length n i anyOk v d).2.1.bytesRead = v.bytesRead ∧
        (mirrorWriteLoop io buffer offset length n i anyOk v d).2.1.bytesWritten = v.bytesWritten := by
  induction n with
  | zero => exact fun i anyOk v d => ⟨rfl, rfl⟩
  | succ n ih =>
    intro i anyOk v d
    have hdrop : ∀ e : Disks,
        (mirrorWriteLoop io buffer offset length n (i + 1) anyOk (dropMember v e (v.diskAt i)).1
          (dropMember v e (v.diskAt i)).2).2.1.bytesRead = v.bytesRead ∧
        (mirrorWriteLoop io buffer offset length n (i + 1) anyOk (dropMember v e (v.diskAt i)).1
          (dropMember v e (v.diskAt i)).2).2.1.bytesWritten = v.bytesWritten := by
      intro e
      obtain ⟨h1, h2⟩ := dropMember_counters v e (v.diskAt i)
      obtain ⟨h3, h4⟩ := ih (i + 1) anyOk (dropMember v e (v.diskAt i)).1 (dropMember v e (v.diskAt i)).2
      exact ⟨h3.trans h1, h4.trans h2⟩
    unfold mirrorWriteLoop
    simp only
    split
    · exact ih (i + 1) anyOk v d
    split
    · exact hdrop d
    · generalize stripeWriteRaw (io.result i) d (v.diskAt i) buffer offset length = r
      obtain ⟨ok, e⟩ := r
      cases ok with
      | true => exact ih (i + 1) true v e
      | false => exact hdrop e

theorem mirrorWriteToAll_counters (io : IoEnv) (v : StripeVolume) (d : Disks) (buffer : Buf) (offset length : ℕ) :
    (mirrorWriteToAll io v d buffer offset length).2.1.bytesRead = v.bytesRead ∧
      (mirrorWriteToAll io v d buffer offset length).2.1.bytesWritten = v.bytesWritten := by
  unfold mirrorWriteToAll
  split
  · exact ⟨rfl, rfl⟩
  · exact mirrorWriteLoop_counters io buffer offset length v.diskCount 0 false v d

theorem mirrorVolumeRead_counts (io : IoEnv) (v : StripeVolume) (d : Disks) (buffer : Buf) (offset length : ℕ) :
    CountsRead length v (mirrorVolumeRead io v d buffer offset length).1
      (mirrorVolumeRead io v d buffer offset length).2.1 := by
  unfold mirrorVolumeRead
  split
  · exact ⟨rfl, rfl⟩
  split
  · generalize cacheRead v.cache buffer offset length = r
    obtain ⟨ok, out, cache⟩ := r
    cases ok <;> exact ⟨rfl, rfl⟩
  · exact mirrorReadLoop_counts io offset length v.diskCount 0 v d buffer

theorem mirrorVolumeWrite_counts (io : IoEnv) (v : StripeVolume) (d : Disks) (buffer : Buf) (offset length : ℕ) :
    CountsWritten length v (mirrorVolumeWrite io v d buffer offset length).1
      (mirrorVolumeWrite io v d buffer offset length).2.1 := by
  have hall := fun w => mirrorWriteToAll_counters io w d buffer offset length
  unfold mirrorVolumeWrite
  split
  · exact ⟨rfl, rfl⟩
  split
  · generalize cacheWrite v.cache buffer offset length = r
    obtain ⟨ok, cache⟩ := r
    simp only
    split
    · obtain ⟨h1, h2⟩ := hall { v with cache := cache }
      generalize mirrorWriteToAll io { v with cache := cache } d buffer offset length = r at h1 h2
      obtain ⟨any, w, e⟩ := r
      cases any with
      | true => exact ⟨congrArg (fun n => u64 (n + length)) h2, h1⟩
      | false => exact ⟨h2, h1⟩
    · cases ok <;> exact ⟨rfl, rfl⟩
  · obtain ⟨h1, h2⟩ := hall v
    generalize mirrorWriteToAll io v d buffer offset length = r at h1 h2
    obtain ⟨any, w, e⟩ := r
    cases any with
    | true => exact ⟨congrArg (fun n => u64 (n + length)) h2, h1⟩
    | false => exact ⟨h2, h1⟩

/-! ### When the loops find a member -/

/-- What remains to be found once member `i` is passed. -/
theorem Passed.found {v w : StripeVolume} {d e : Disks} {i n : ℕ} {io : IoEnv} (h : Passed v d i w e)
    (hi : Mirror.rawReads io v d i = false) : (∃ m, i + 1 ≤ m ∧ m < i + 1 + n ∧ Answers io w e (i + 1) m) ↔
      ∃ m, i ≤ m ∧ m < i + (n + 1) ∧ Answers io v d i m := by
  constructor
  · rintro ⟨m, h1, h2, ha⟩
    exact ⟨m, by omega, by omega, (h.answers io (by omega)).mp ha⟩
  · rintro ⟨m, h1, h2, ha⟩
    have hne : i ≠ m := by
      rintro rfl
      rw [ha.1] at hi
      cases hi
    exact ⟨m, by omega, by omega, (h.answers io (by omega)).mpr ha⟩

theorem mirrorReadLoop_found (io : IoEnv) (offset length n : ℕ) :
    ∀ (i : ℕ) (v : StripeVolume) (d : Disks) (buffer : Buf),
      (mirrorReadLoop io offset length n i v d buffer).1 = true ↔ ∃ m, i ≤ m ∧ m < i + n ∧ Answers io v d i m := by
  induction n with
  | zero =>
    intro i v d buffer
    constructor
    · intro h
      cases h
    · rintro ⟨m, h1, h2, _⟩
      omega
  | succ n ih =>
    intro i v d buffer
    unfold mirrorReadLoop
    simp only
    split
    · next hun =>
      have hp : Passed v d i v d := ⟨rfl, rfl, hun, fun _ _ => rfl⟩
      exact (ih (i + 1) v d buffer).trans (hp.found (by simp only [rawReads, hun, Bool.false_and]))
    next hup =>
    split
    · next hf =>
      have hp : Passed v d i (dropMember v d (v.diskAt i)).1 (dropMember v d (v.diskAt i)).2 :=
        dropMember_passed rfl fun _ _ => rfl
      exact (ih (i + 1) _ _ buffer).trans (hp.found (by simp only [rawReads, hf, Bool.not_true, Bool.and_false,
        Bool.false_and]))
    next hf =>
    rw [Bool.not_eq_true] at hf
    rw [Bool.not_eq_false] at hup
    have hans := stripeReadRaw_answer (io.result i) buffer offset length hf
    have hpool := (stripeReadRaw_spec (io.result i) d (v.diskAt i) buffer offset length).pool
    have hother := fun k => stripeReadRaw_other (io.result i) d (v.diskAt i) buffer offset length (k := k)
    have hri : rawReads io v d i = ((d.info (v.diskAt i)).ramBuffer ||
        ((d.info (v.diskAt i)).hasHandle && (io.result i).isOk)) := by
      simp only [rawReads, hup, hf, Bool.not_false, Bool.and_self, Bool.true_and]
    rw [← hri] at hans
    generalize stripeReadRaw (io.result i) d (v.diskAt i) buffer offset length = r at hans hpool hother
    obtain ⟨ok, e, out⟩ := r
    cases ok with
    | true =>
      exact ⟨fun _ => ⟨i, Nat.le_refl i, by omega, hans.symm, fun k h1 h2 => by omega⟩, fun _ => rfl⟩
    | false => exact (ih (i + 1) _ _ out).trans ((dropMember_passed hpool fun k hk => hother k hk).found hans.symm)

theorem stripeWriteRaw_answer (t : Transfer) {d : Disks} {i : DiskId} (buffer : Buf) (offset length : ℕ)
    (hf : (d.info i).faulty = false) :
    (stripeWriteRaw t d i buffer offset length).1 = ((d.info i).ramBuffer || ((d.info i).hasHandle && t.isOk)) := by
  unfold stripeWriteRaw
  rw [hf]
  cases (d.info i).ramBuffer <;> cases (d.info i).hasHandle <;> cases t <;> rfl

theorem stripeWriteRaw_other (t : Transfer) (d : Disks) (i : DiskId) (buffer : Buf) (offset length : ℕ) {k : DiskId}
    (hk : k ≠ i) : (stripeWriteRaw t d i buffer offset length).2.info k = d.info k := by
  have hok : ∀ (e : Disks) ok, e.info k = d.info k → (stripeIoOk e i ok).info k = d.info k := by
    intro e ok he
    cases ok <;> exact (if_neg hk).trans he
  unfold stripeWriteRaw
  split
  · rfl
  split
  · rfl
  split
  · cases t with
    | ok => exact hok _ true rfl
    | error left => exact hok _ false rfl
  · exact hok d false rfl

theorem mirrorWriteLoop_true (io : IoEnv) (buffer : Buf) (offset length n : ℕ) :
    ∀ (i : ℕ) (v : StripeVolume) (d : Disks), (mirrorWriteLoop io buffer offset length n i true v d).1 = true := by
  intro i v d
  have hfailed := (mirrorWriteLoop_spec io buffer offset length n i true v d).failed
  cases h : (mirrorWriteLoop io buffer offset length n i true v d).1 with
  | true => rfl
  | false => exact absurd (hfailed h).1 (by decide)

theorem mirrorWriteLoop_found (io : IoEnv) (buffer : Buf) (offset length n : ℕ) :
    ∀ (i : ℕ) (v : StripeVolume) (d : Disks),
      (mirrorWriteLoop io buffer offset length n i false v d).1 = true ↔ ∃ m, i ≤ m ∧ m < i + n ∧ Answers io v d i m := by
  induction n with
  | zero =>
    intro i v d
    constructor
    · intro h
      cases h
    · rintro ⟨m, h1, h2, _⟩
      omega
  | succ n ih =>
    intro i v d
    unfold mirrorWriteLoop
    simp only
    split
    · next hun =>
      have hp : Passed v d i v d := ⟨rfl, rfl, hun, fun _ _ => rfl⟩
      exact (ih (i + 1) v d).trans (hp.found (by simp only [rawReads, hun, Bool.false_and]))
    next hup =>
    split
    · next hf =>
      have hp : Passed v d i (dropMember v d (v.diskAt i)).1 (dropMember v d (v.diskAt i)).2 :=
        dropMember_passed rfl fun _ _ => rfl
      exact (ih (i + 1) _ _).trans (hp.found (by simp only [rawReads, hf, Bool.not_true, Bool.and_false,
        Bool.false_and]))
    next hf =>
    rw [Bool.not_eq_true] at hf
    rw [Bool.not_eq_false] at hup
    have hans := stripeWriteRaw_answer (io.result i) buffer offset length hf
    have hother := fun k => stripeWriteRaw_other (io.result i) d (v.diskAt i) buffer offset length (k := k)
    have hri : rawReads io v d i = ((d.info (v.diskAt i)).ramBuffer ||
        ((d.info (v.diskAt i)).hasHandle && (io.result i).isOk)) := by
      simp only [rawReads, hup, hf, Bool.not_false, Bool.and_self, Bool.true_and]
    rw [← hri] at hans
    generalize stripeWriteRaw (io.result i) d (v.diskAt i) buffer offset length = r at hans hother
    obtain ⟨ok, e⟩ := r
    cases ok with
    | true =>
      exact ⟨fun _ => ⟨i, Nat.le_refl i, by omega, hans.symm, fun k h1 h2 => by omega⟩,
        fun _ => mirrorWriteLoop_true io buffer offset length n (i + 1) v e⟩
    | false =>
      -- the answers do not depend on what the pools hold
      have hp : Passed v d i (dropMember v ⟨e.info, d.pool⟩ (v.diskAt i)).1
          (dropMember v ⟨e.info, d.pool⟩ (v.diskAt i)).2 := dropMember_passed rfl fun k hk => hother k hk
      exact (ih (i + 1) _ _).trans (hp.found hans.symm)

theorem answering_found (io : IoEnv) (v : StripeVolume) (d : Disks) :
    (answering io v d).isSome = true ↔ ∃ m, 0 ≤ m ∧ m < 0 + v.diskCount ∧ Answers io v d 0 m := by
  rw [answering, List.find?_isSome]
  constructor
  · rintro ⟨m, hm, ha⟩
    exact ⟨m, Nat.zero_le m, by rw [Nat.zero_add]; exact List.mem_range.mp hm, (answers_iff io v d m).mp ha⟩
  · rintro ⟨m, _, hm, ha⟩
    exact ⟨m, List.mem_range.mpr (by omega), (answers_iff io v d m).mpr ha⟩

/-! ### What a mirror returns -/

theorem mirrorVolumeRead_serves {s : TransferState} {offset : ℕ} {length : UInt32} (io : IoEnv) (buffer : Buf)
    (hg : ¬ (length.toNat = 0 ∨ u64 (offset + length.toNat) > s.v.virtualTotalBytes ∨ s.v.checkDisks = false)) :
    (mirrorVolumeRead io s.v s.d buffer offset length.toNat).1 = true ↔
      MirrorServes s (.read io buffer offset length) := by
  simp only [MirrorServes, Admitted]
  unfold mirrorVolumeRead
  by_cases hr : outOfRange s.v offset length.toNat = true
  · rw [if_pos (Or.inr (Or.inl hr)), hr]
    simp
  rw [if_neg (by tauto)]
  rw [Bool.not_eq_true] at hr
  by_cases hf : FromCache s.v offset length.toNat
  · rw [if_pos (show _ ∧ _ ∧ _ from hf), if_pos hf]
    have hok : (cacheRead s.v.cache buffer offset length.toNat).1 =
        (inCache s.v.cache offset length.toNat && allValid s.v.cache offset length.toNat) := by
      unfold cacheRead
      cases inCache s.v.cache offset length.toNat <;> cases allValid s.v.cache offset length.toNat <;> rfl
    generalize cacheRead s.v.cache buffer offset length.toNat = r at hok
    obtain ⟨ok, out, cache⟩ := r
    simp only at hok
    simp only [hok, Bool.and_eq_true]
    exact ⟨fun h => ⟨⟨hg, hr⟩, h⟩, fun h => h.2⟩
  · rw [if_neg (show ¬ (_ ∧ _ ∧ _) from hf), if_neg hf, mirrorReadLoop_found, answering_found]
    exact ⟨fun h => ⟨⟨hg, hr⟩, h⟩, fun h => h.2⟩

theorem mirrorWriteToAll_found {v : StripeVolume} {d : Disks} {offset length : ℕ} (io : IoEnv) (buffer : Buf)
    (hpos : length ≠ 0) (hr : outOfRange v offset length = false) :
    (mirrorWriteToAll io v d buffer offset length).1 = true ↔ (answering io v d).isSome = true := by
  unfold mirrorWriteToAll
  rw [if_neg (by rw [hr]; simp [hpos]), mirrorWriteLoop_found, answering_found]

theorem mirrorVolumeWrite_serves {s : TransferState} {offset : ℕ} {length : UInt32} (io : IoEnv) (buffer : Buf)
    (hg : ¬ (length.toNat = 0 ∨ u64 (offset + length.toNat) > s.v.virtualTotalBytes ∨ s.v.checkDisks = false)) :
    (mirrorVolumeWrite io s.v s.d buffer offset length.toNat).1 = true ↔
      MirrorServes s (.write io buffer offset length) := by
  simp only [MirrorServes, Admitted]
  unfold mirrorVolumeWrite
  by_cases hr : outOfRange s.v offset length.toNat = true
  · rw [if_pos (Or.inr (Or.inl hr)), hr]
    simp
  rw [if_neg (by tauto)]
  rw [Bool.not_eq_true] at hr
  have hpos : length.toNat ≠ 0 := fun h => hg (Or.inl h)
  by_cases hf : FromCache s.v offset length.toNat
  · rw [if_pos (show _ ∧ _ ∧ _ from hf), if_pos hf]
    have hok : (cacheWrite s.v.cache buffer offset length.toNat).1 = inCache s.v.cache offset length.toNat ∧
        (cacheWrite s.v.cache buffer offset length.toNat).2.writeThrough = s.v.cache.writeThrough := by
      unfold cacheWrite
      cases inCache s.v.cache offset length.toNat <;> exact ⟨rfl, rfl⟩
    generalize cacheWrite s.v.cache buffer offset length.toNat = r at hok
    obtain ⟨ok, cache⟩ := r
    obtain ⟨hin, hthrough⟩ := hok
    simp only at hin hthrough ⊢
    rw [← hin, ← hthrough]
    by_cases hw : ok = true ∧ cache.writeThrough = true
    · -- the members decide
      rw [if_pos hw]
      have hany := mirrorWriteToAll_found (v := { s.v with cache := cache }) (d := s.d) io buffer hpos hr
      have hsame : answering io { s.v with cache := cache } s.d = answering io s.v s.d := rfl
      rw [hsame] at hany
      generalize mirrorWriteToAll io { s.v with cache := cache } s.d buffer offset length.toNat = r at hany
      obtain ⟨any, w, e⟩ := r
      cases any with
      | true => exact ⟨fun _ => ⟨⟨hg, hr⟩, hw.1, fun _ => hany.mp rfl⟩, fun _ => rfl⟩
      | false => exact ⟨fun h => (by cases h), fun h => hany.mpr (h.2.2 hw.2)⟩
    · rw [if_neg hw]
      exact ⟨fun h => ⟨⟨hg, hr⟩, h, fun hthrough => absurd ⟨h, hthrough⟩ hw⟩, fun h => h.2.1⟩
  · rw [if_neg (show ¬ (_ ∧ _ ∧ _) from hf), if_neg hf]
    exact (mirrorWriteToAll_found io buffer hpos hr).trans ⟨fun h => ⟨⟨hg, hr⟩, h⟩, fun h => h.2⟩

/-! ### What the entry points count -/

theorem addRead_counts (v : StripeVolume) (ok : Bool) (length : ℕ) : CountsRead length v ok (addRead v ok length) := by
  cases ok <;> exact ⟨rfl, rfl⟩

theorem addWritten_counts (v : StripeVolume) (ok : Bool) (length : ℕ) :
    CountsWritten length v ok (addWritten v ok length) := by
  cases ok <;> exact ⟨rfl, rfl⟩

theorem readDirect_counts {io : IoEnv} {v : StripeVolume} {d : Disks} {buffer : Buf} {vo length : ℕ}
    {r : Bool × StripeVolume × Disks × Buf} (h : readDirect io v d buffer vo length = some r) :
    CountsRead length v r.1 r.2.1 := by
  unfold readDirect at h
  split at h
  · obtain rfl := Option.some.inj h
    exact ⟨rfl, rfl⟩
  split at h
  · cases h
  · obtain rfl := Option.some.inj h
    exact addRead_counts v _ length

theorem writeDirect_counts {io : IoEnv} {v : StripeVolume} {d : Disks} {buffer : Buf} {vo length : ℕ}
    {r : Bool × StripeVolume × Disks} (h : writeDirect io v d buffer vo length = some r) :
    CountsWritten length v r.1 r.2.1 := by
  unfold writeDirect at h
  split at h
  · obtain rfl := Option.some.inj h
    exact ⟨rfl, rfl⟩
  split at h
  · cases h
  · obtain rfl := Option.some.inj h
    exact addWritten_counts v _ length

theorem stripeVolumeRead_counts {io : IoEnv} {v : StripeVolume} {d : Disks} {buffer : Buf} {vo length : ℕ}
    {r : Bool × StripeVolume × Disks × Buf} (hs : v.raidLevel = .stripe)
    (h : stripeVolumeRead io v d buffer vo length = some r) : CountsRead length v r.1 r.2.1 := by
  unfold stripeVolumeRead at h
  split at h
  · obtain rfl := Option.some.inj h
    exact ⟨rfl, rfl⟩
  rw [if_neg (by rw [hs]; decide)] at h
  split at h
  · split at h
    · obtain rfl := Option.some.inj h
      exact ⟨rfl, rfl⟩
    · have hd := readDirect_counts h
      exact ⟨hd.read, hd.written⟩
  · exact readDirect_counts h

theorem writeCached_counts {io : IoEnv} {v : StripeVolume} {d : Disks} {buffer : Buf} {vo length : ℕ}
    {r : Bool × StripeVolume × Disks} (h : writeCached io v d buffer vo length = some r) :
    CountsWritten length v r.1 r.2.1 := by
  have hstore : ∀ (cache : RamCache) ok, CountsWritten length v ok (addWritten { v with cache := cache } ok length) := by
    intro cache ok
    cases ok <;> exact ⟨rfl, rfl⟩
  unfold writeCached at h
  split at h
  · split at h
    · obtain rfl := Option.some.inj h
      exact ⟨rfl, rfl⟩
    split at h
    · cases h
    · obtain rfl := Option.some.inj h
      exact ⟨rfl, rfl⟩
    · obtain rfl := Option.some.inj h
      exact hstore _ _
  · obtain rfl := Option.some.inj h
    exact hstore _ _

theorem stripeVolumeWrite_counts {io : IoEnv} {v : StripeVolume} {d : Disks} {buffer : Buf} {vo length : ℕ}
    {r : Bool × StripeVolume × Disks} (hs : v.raidLevel = .stripe)
    (h : stripeVolumeWrite io v d buffer vo length = some r) : CountsWritten length v r.1 r.2.1 := by
  unfold stripeVolumeWrite at h
  split at h
  · obtain rfl := Option.some.inj h
    exact ⟨rfl, rfl⟩
  rw [if_neg (by rw [hs]; decide)] at h
  split at h
  · exact writeCached_counts h
  · exact writeDirect_counts h

/-- A length added twice is not a length added once. -/
theorem twice_ne (n : ℕ) {length : UInt32} (h : length.toNat ≠ 0) :
    u64 (u64 (n + length.toNat) + length.toNat) ≠ u64 (n + length.toNat) := by
  have hlt := length.toNat_lt
  unfold u64
  omega

theorem countsOnce_read {s : TransferState} (hm : s.v.raidLevel = .mirror) (io : IoEnv) (buffer : Buf) (offset : ℕ)
    (length : UInt32) : CountsOnce s (.read io buffer offset length) ↔ ¬ MirrorServes s (.read io buffer offset length) := by
  by_cases hg : length.toNat = 0 ∨ u64 (offset + length.toNat) > s.v.virtualTotalBytes ∨ s.v.checkDisks = false
  · refine ⟨fun _ h => h.1.1 hg, fun _ ok t h => ?_⟩
    have hcall : transferCall s (.read io buffer offset length) = some (false, s) := by
      simp only [transferCall, stripeVolumeRead]
      rw [if_pos hg]
      rfl
    obtain ⟨rfl, rfl⟩ := Prod.mk.inj (Option.some.inj (hcall.symm.trans h))
    exact ⟨rfl, rfl⟩
  have hserves := mirrorVolumeRead_serves (s := s) io buffer hg
  have hcount := mirrorVolumeRead_counts io s.v s.d buffer offset length.toNat
  have hcall : transferCall s (.read io buffer offset length) =
      some ((mirrorVolumeRead io s.v s.d buffer offset length.toNat).1,
        ⟨addRead (mirrorVolumeRead io s.v s.d buffer offset length.toNat).2.1
          (mirrorVolumeRead io s.v s.d buffer offset length.toNat).1 length.toNat,
          (mirrorVolumeRead io s.v s.d buffer offset length.toNat).2.2.1⟩) := by
    simp only [transferCall, stripeVolumeRead]
    rw [if_neg hg, if_pos hm]
    rfl
  rw [← hserves, Bool.not_eq_true]
  simp only [CountsOnce, hcall]
  generalize mirrorVolumeRead io s.v s.d buffer offset length.toNat = r at hcount
  obtain ⟨ok, w, e, out⟩ := r
  have hread := hcount.read
  have hwritten := hcount.written
  cases ok with
  | false =>
    refine ⟨fun _ => rfl, fun _ ok t h => ?_⟩
    obtain ⟨rfl, rfl⟩ := Prod.mk.inj (Option.some.inj h)
    exact ⟨hread, hwritten⟩
  | true =>
    refine ⟨fun h => ?_, fun h => by cases h⟩
    have htwice := (h true _ rfl).read
    simp only [addRead, if_true] at htwice hread
    rw [hread] at htwice
    exact absurd htwice (twice_ne _ fun h0 => hg (Or.inl h0))

theorem countsOnce_write {s : TransferState} (hm : s.v.raidLevel = .mirror) (io : IoEnv) (buffer : Buf) (offset : ℕ)
    (length : UInt32) : CountsOnce s (.write io buffer offset length) ↔ ¬ MirrorServes s (.write io buffer offset length) := by
  by_cases hg : length.toNat = 0 ∨ u64 (offset + length.toNat) > s.v.virtualTotalBytes ∨ s.v.checkDisks = false
  · refine ⟨fun _ h => h.1.1 hg, fun _ ok t h => ?_⟩
    have hcall : transferCall s (.write io buffer offset length) = some (false, s) := by
      simp only [transferCall, stripeVolumeWrite]
      rw [if_pos hg]
      rfl
    obtain ⟨rfl, rfl⟩ := Prod.mk.inj (Option.some.inj (hcall.symm.trans h))
    exact ⟨rfl, rfl⟩
  have hserves := mirrorVolumeWrite_serves (s := s) io buffer hg
  have hcount := mirrorVolumeWrite_counts io s.v s.d buffer offset length.toNat
  have hcall : transferCall s (.write io buffer offset length) =
      some ((mirrorVolumeWrite io s.v s.d buffer offset length.toNat).1,
        ⟨addWritten (mirrorVolumeWrite io s.v s.d buffer offset length.toNat).2.1
          (mirrorVolumeWrite io s.v s.d buffer offset length.toNat).1 length.toNat,
          (mirrorVolumeWrite io s.v s.d buffer offset length.toNat).2.2⟩) := by
    simp only [transferCall, stripeVolumeWrite]
    rw [if_neg hg, if_pos hm]
    rfl
  rw [← hserves, Bool.not_eq_true]
  simp only [CountsOnce, hcall]
  generalize mirrorVolumeWrite io s.v s.d buffer offset length.toNat = r at hcount
  obtain ⟨ok, w, e⟩ := r
  have hread := hcount.read
  have hwritten := hcount.written
  cases ok with
  | false =>
    refine ⟨fun _ => rfl, fun _ ok t h => ?_⟩
    obtain ⟨rfl, rfl⟩ := Prod.mk.inj (Option.some.inj h)
    exact ⟨hwritten, hread⟩
  | true =>
    refine ⟨fun h => ?_, fun h => by cases h⟩
    have htwice := (h true _ rfl).written
    simp only [addWritten, if_true] at htwice hwritten
    rw [hwritten] at htwice
    exact absurd htwice (twice_ne _ fun h0 => hg (Or.inl h0))

theorem countsOnce_iff (s : TransferState) (c : TransferCall) :
    CountsOnce s c ↔ s.v.raidLevel = .stripe ∨ ¬ MirrorServes s c := by
  by_cases hs : s.v.raidLevel = .stripe
  · refine ⟨fun _ => Or.inl hs, fun _ => ?_⟩
    cases c with
    | read io buffer offset length =>
      intro ok t h
      obtain ⟨r, hr, he⟩ := Option.map_eq_some_iff.mp h
      obtain ⟨rfl, rfl⟩ := Prod.mk.inj he
      exact stripeVolumeRead_counts hs hr
    | write io buffer offset length =>
      intro ok t h
      obtain ⟨r, hr, he⟩ := Option.map_eq_some_iff.mp h
      obtain ⟨rfl, rfl⟩ := Prod.mk.inj he
      exact stripeVolumeWrite_counts hs hr
  have hm : s.v.raidLevel = .mirror := by
    cases hl : s.v.raidLevel with
    | stripe => exact absurd hl hs
    | mirror => rfl
  have hor : (s.v.raidLevel = .stripe ∨ ¬ MirrorServes s c) ↔ ¬ MirrorServes s c := or_iff_right hs
  rw [hor]
  cases c with
  | read io buffer offset length => exact countsOnce_read hm io buffer offset length
  | write io buffer offset length => exact countsOnce_write hm io buffer offset length

/-- In a sequence of reads and writes every call counts its bytes once exactly when the volume is
striped, or a mirror that can serve none of them. -/
theorem transfers_counted (v : StripeVolume) (d : Disks) (calls : List TransferCall) :
    (∀ pre c post s, calls = pre ++ c :: post → run transferStep ⟨v, d⟩ pre = some s → CountsOnce s c) ↔
      Along transferStep (fun s c => s.v.raidLevel = .stripe ∨ ¬ MirrorServes s c) ⟨v, d⟩ calls := by
  rw [along_iff]
  constructor
  · intro h pre c post s he hr
    exact (countsOnce_iff s c).mp (h pre c post s he hr)
  · intro h pre c post s he hr
    exact (countsOnce_iff s c).mpr (h pre c post s he hr)

/-- A byte read from a mirror of two disks counts as two. -/
theorem transfers_counted_fails : ∃ t, transferCall ⟨twinMirror.1, twinMirror.2⟩ (.read .good (fun _ => 0) 0 1) =
    some (true, t) ∧ t.v.bytesRead = 2 ∧ ¬ CountsOnce ⟨twinMirror.1, twinMirror.2⟩ (.read .good (fun _ => 0) 0 1) := by
  refine ⟨_, rfl, rfl, fun h => ?_⟩
  have hread := (h true _ rfl).read
  have htwo : (2 : ℕ) = 1 := hread
  omega

end RaidTest.Mirror
