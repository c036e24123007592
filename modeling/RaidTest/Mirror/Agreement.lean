import RaidTest.Mirror.Members
import RaidTest.Base.Trace

/-!
# The members of a mirror agree

Over any calls one after another and any failures: a byte whose write was acknowledged
is the same on all healthy members. A rebuild copies onto its replacement without taking
it out of service first, and gives a healthy old disk its flag back when it fails.
-/

namespace RaidTest.Mirror
open RaidTest.Base RaidTest.Stripe

/-! ### The copy loop -/

/-- `b` is what a failed transfer of the copy left at byte `p` of the replacement. -/
def Torn (env : RebuildEnv) (d : Disks) (replacement : DiskId) (p : ℕ) (b : Byte) : Prop :=
  (d.info replacement).ramBuffer = false ∧
    ∃ k left, env.write k = .error left ∧ k * chunkSize ≤ p ∧ p < (k + 1) * chunkSize ∧
      b = left (p - k * chunkSize)

/-- The pools after the copy loop, started at byte `lo`. -/
structure Copied (d : Disks) (src replacement : DiskId) (lo total : ℕ) (env : RebuildEnv)
    (r : Bool × Disks) : Prop where
  other : ∀ k p, k ≠ replacement → r.2.pool k p = d.pool k p
  healthy : ∀ k, (r.2.info k).healthy = (d.info k).healthy
  low : ∀ p < lo, r.2.pool replacement p = d.pool replacement p
  full : r.1 = true → ∀ p, lo ≤ p → p < total → r.2.pool replacement p = d.pool src p
  mixed : ∀ p, r.2.pool replacement p = d.pool replacement p ∨
    r.2.pool replacement p = d.pool src p ∨ Torn env d replacement p (r.2.pool replacement p)

theorem Copied.none {d e : Disks} {src replacement : DiskId} {lo total : ℕ} {env : RebuildEnv} {ok : Bool}
    (hpool : e.pool = d.pool) (hinfo : ∀ k, (e.info k).healthy = (d.info k).healthy)
    (hok : ok = true → total ≤ lo) : Copied d src replacement lo total env (ok, e) :=
  ⟨fun k p _ => by rw [hpool], hinfo, fun p _ => by rw [hpool],
    fun h p h1 h2 => absurd (hok h) (by omega), fun p => Or.inl (by rw [hpool])⟩

theorem rebuildLoop_spec (env : RebuildEnv) (src replacement : DiskId) (total fuel : ℕ) :
    ∀ (k lo : ℕ) (d : Disks) (buf : Buf), lo = k * chunkSize → total ≤ lo + fuel * chunkSize →
      Copied d src replacement lo total env (rebuildLoop env src replacement total fuel k d buf) := by
  induction fuel with
  | zero =>
    intro k lo d buf _ hfuel
    rw [Nat.zero_mul] at hfuel
    exact Copied.none rfl (fun _ => rfl) fun _ => hfuel
  | succ fuel ih =>
    intro k lo d buf hlo hfuel
    have hnext : lo + chunkSize = (k + 1) * chunkSize := by rw [hlo, Nat.succ_mul]
    rw [Nat.succ_mul] at hfuel
    unfold rebuildLoop
    simp only [← hlo, minU64_eq]
    generalize hc : chunkSize = c at hfuel ⊢
    rw [hc] at ih
    split
    swap
    · next hn => exact Copied.none rfl (fun _ => rfl) fun _ => by omega
    next hlt =>
    obtain ⟨n, hn⟩ : ∃ n, n = min (total - lo) c := ⟨_, rfl⟩
    rw [← hn]
    have hr := stripeReadRaw_spec (env.read k) d src buf lo n
    generalize stripeReadRaw (env.read k) d src buf lo n = r at hr
    obtain ⟨ok, e, data⟩ := r
    cases ok with
    | false => exact Copied.none hr.pool hr.healthy nofun
    | true =>
      simp only
      have hw := stripeWriteRaw_spec (env.write k) e replacement data lo n
      generalize stripeWriteRaw (env.write k) e replacement data lo n = w at hw
      obtain ⟨ok, f⟩ := w
      have hpool := hr.pool
      simp only at hpool
      have hother : ∀ i p, i ≠ replacement → f.pool i p = d.pool i p := fun i p hi =>
        (hw.other i p (Or.inl hi)).trans (by rw [hpool])
      have hout : ∀ p, p < lo ∨ lo + n ≤ p → f.pool replacement p = d.pool replacement p := fun p hp =>
        (hw.other replacement p (Or.inr hp)).trans (by rw [hpool])
      have hinfo : ∀ i, (f.info i).healthy = (d.info i).healthy := fun i =>
        (hw.healthy i).trans (hr.healthy i)
      have hram : ∀ i, (f.info i).ramBuffer = (d.info i).ramBuffer := fun i => (hw.ram i).trans (hr.ram i)
      cases ok with
      | false =>
        refine ⟨hother, hinfo, fun p hp => hout p (Or.inl hp), nofun, fun p => ?_⟩
        by_cases hp : lo ≤ p ∧ p < lo + n
        · rcases hw.torn rfl p hp.1 hp.2 with ht | ⟨left, h1, h2, h3⟩
          · exact Or.inl (ht.trans (by rw [hpool]))
          · have h4 : p < (k + 1) * chunkSize := by omega
            rw [hlo] at h3 hp
            exact Or.inr (Or.inr ⟨(hr.ram _).symm.trans h2, k, left, h1, hp.1, h4, h3⟩)
        · exact Or.inl (hout p (by omega))
      | true =>
        -- the chunk now holds the source's bytes, and a source that is the replacement is unchanged
        have hin : ∀ p, lo ≤ p → p < lo + n → f.pool replacement p = d.pool src p := by
          intro p h1 h2
          refine (hw.data rfl p h1 h2).trans ?_
          refine (hr.data rfl (p - lo) (by omega)).trans ?_
          rw [show lo + (p - lo) = p by omega]
        have hsrc : ∀ p, f.pool src p = d.pool src p := by
          intro p
          by_cases hs : src = replacement
          · subst hs
            by_cases hp : lo ≤ p ∧ p < lo + n
            · exact hin p hp.1 hp.2
            · exact hout p (by omega)
          · exact hother src p hs
        have hcop := ih (k + 1) (lo + c) f data (by rw [← hc]; exact hnext) (by omega)
        refine ⟨fun i p hi => (hcop.other i p hi).trans (hother i p hi),
          fun i => (hcop.healthy i).trans (hinfo i),
          fun p hp => (hcop.low p (by omega)).trans (hout p (Or.inl hp)), fun hok p h1 h2 => ?_,
          fun p => ?_⟩
        · by_cases hp : p < lo + c
          · exact (hcop.low p hp).trans (hin p h1 (by omega))
          · exact (hcop.full hok p (by omega) h2).trans (hsrc p)
        · rcases hcop.mixed p with hm | hm | ⟨hm, h⟩
          · by_cases hp : lo ≤ p ∧ p < lo + n
            · exact Or.inr (Or.inl (hm.trans (hin p hp.1 hp.2)))
            · exact Or.inl (hm.trans (hout p (by omega)))
          · exact Or.inr (Or.inl (hm.trans (hsrc p)))
          · exact Or.inr (Or.inr ⟨(hram _).symm.trans hm, h⟩)

/-! ### Calls -/

/-- One call on the mirror, with its arguments and the answers of its disks. -/
inductive MirrorCall where
  | write (io : IoEnv) (buffer : Buf) (offset length : ℕ)
  | read (io : IoEnv) (buffer : Buf) (offset length : ℕ)
  | rebuild (env : RebuildEnv) (replacement : DiskId) (replaceIdx : ℕ)

/-- The volume, its disks, and the last acknowledged value of every byte. -/
structure MirrorState where
  v : StripeVolume
  d : Disks
  acked : ℕ → Option Byte

def mirrorStep (s : MirrorState) : MirrorCall → Option MirrorState
  | .write io buffer offset length =>
    let r := mirrorVolumeWrite io s.v s.d buffer offset length
    some ⟨r.2.1, r.2.2, fun x =>
      if r.1 ∧ offset ≤ x ∧ x < offset + length then some (buffer (x - offset)) else s.acked x⟩
  | .read io buffer offset length =>
    let r := mirrorVolumeRead io s.v s.d buffer offset length
    some ⟨r.2.1, r.2.2.1, s.acked⟩
  | .rebuild env replacement replaceIdx =>
    let r := mirrorVolumeRebuild env s.v s.d replacement replaceIdx
    some ⟨r.2.1, r.2.2, s.acked⟩

/-- Every healthy member holds the acknowledged bytes. -/
structure Agree (s : MirrorState) : Prop where
  disabled : s.v.cacheEnabled = false
  inside : ∀ x b, s.acked x = some b → x < s.v.virtualTotalBytes
  same : ∀ x b, s.acked x = some b → ∀ i < s.v.diskCount,
    (s.d.info (s.v.diskAt i)).healthy = true → s.d.pool (s.v.diskAt i) x = b

/-- The members are the same, and no disk came back or changed an acknowledged byte. -/
theorem Agree.keep {s : MirrorState} (h : Agree s) {v : StripeVolume} {d : Disks}
    (hv : SameMirror s.v v) (hhealthy : ∀ k, (d.info k).healthy = true → (s.d.info k).healthy = true)
    (hpool : ∀ x b, s.acked x = some b → ∀ i < s.v.diskCount,
      (s.d.info (s.v.diskAt i)).healthy = true → d.pool (s.v.diskAt i) x = b) :
    Agree ⟨v, d, s.acked⟩ := by
  refine ⟨hv.enabled.trans h.disabled, fun x b hx => ?_, fun x b hx i hi hh => ?_⟩
  · exact lt_of_lt_of_eq (h.inside x b hx) hv.layout.total.symm
  · have hi' : i < v.diskCount := hi
    rw [hv.layout.diskCount] at hi'
    have hat : v.diskAt i = s.v.diskAt i := congrFun hv.layout.diskAt i
    simp only [hat] at hh ⊢
    exact hpool x b hx i hi' (hhealthy _ hh)

/-- A rebuild onto a healthy member leaves acknowledged bytes alone where a transfer fails. -/
def RebuildHarmless (s : MirrorState) : MirrorCall → Prop
  | .rebuild env replacement _ =>
    ∀ i < s.v.diskCount, s.v.diskAt i = replacement → (s.d.info replacement).healthy = true →
      ∀ x a b, s.acked x = some a → Torn env s.d replacement x b → b = a
  | _ => True

theorem setHealthy_ramBuffer (d : Disks) (i k : DiskId) (b : Bool) :
    ((setHealthy d i b).info k).ramBuffer = (d.info k).ramBuffer := by
  unfold setHealthy Disks.setInfo
  simp only
  split
  · next h => rw [h]
  · rfl

/-- Giving the old disk its flag back makes no disk healthy that was not before the rebuild. -/
theorem restored_healthy {d d1 e : Disks} {old : DiskId}
    (h1 : ∀ k, (d1.info k).healthy = true → (d.info k).healthy = true)
    (he : ∀ k, (e.info k).healthy = (d1.info k).healthy) (k : DiskId)
    (hk : ((setHealthy e old (d.info old).healthy).info k).healthy = true) : (d.info k).healthy = true := by
  rw [setHealthy_info] at hk
  split at hk
  · next h => rw [h, hk]
  · exact h1 k ((he k).symm.trans hk)

theorem Agree.rebuild {s : MirrorState} (h : Agree s) {env : RebuildEnv} {replacement : DiskId}
    {replaceIdx : ℕ} (hsafe : RebuildHarmless s (.rebuild env replacement replaceIdx)) :
    Agree ⟨(mirrorVolumeRebuild env s.v s.d replacement replaceIdx).2.1,
      (mirrorVolumeRebuild env s.v s.d replacement replaceIdx).2.2, s.acked⟩ := by
  unfold mirrorVolumeRebuild
  split
  · exact h
  split
  · exact h
  next j hj =>
  obtain ⟨hj, hne, hsrc⟩ := rebuildSource_spec hj
  simp only
  obtain ⟨hv, hdrop, -, hpool⟩ := dropMember_spec s.v s.d (s.v.diskAt replaceIdx) 0 0
  have hram : ((dropMember s.v s.d (s.v.diskAt replaceIdx)).2.info replacement).ramBuffer =
      (s.d.info replacement).ramBuffer := setHealthy_ramBuffer s.d _ _ false
  generalize dropMember s.v s.d (s.v.diskAt replaceIdx) = r at hv hdrop hpool hram
  obtain ⟨v1, d1⟩ := r
  simp only at hv hdrop hpool hram ⊢
  have hcount : SameMirror s.v (if (s.d.info (s.v.diskAt replaceIdx)).healthy = true then
      { v1 with healthyCount := v1.healthyCount + 1 } else v1) := by
    split
    · exact hv.trans ⟨⟨rfl, rfl, rfl, rfl, rfl, rfl, rfl, rfl⟩, rfl, rfl, rfl⟩
    · exact hv
  split
  · refine h.keep hcount (restored_healthy hdrop.healthy fun _ => rfl) fun x b hx i hi hh => ?_
    exact (congrFun (congrFun hpool _) x).trans (h.same x b hx i hi hh)
  have hsrcAt : v1.diskAt j = s.v.diskAt j := congrFun hv.layout.diskAt j
  have hfuel : s.v.virtualTotalBytes ≤ 0 + (s.v.virtualTotalBytes / chunkSize + 1) * chunkSize := by
    have hlt := Nat.lt_mul_div_succ s.v.virtualTotalBytes (show 0 < chunkSize by decide)
    rw [Nat.mul_comm] at hlt
    omega
  have hcop := rebuildLoop_spec env (v1.diskAt j) replacement s.v.virtualTotalBytes
    (s.v.virtualTotalBytes / chunkSize + 1) 0 0 d1 (fun _ => 0) (Nat.zero_mul _).symm hfuel
  generalize rebuildLoop env (v1.diskAt j) replacement s.v.virtualTotalBytes
    (s.v.virtualTotalBytes / chunkSize + 1) 0 d1 (fun _ => 0) = c at hcop
  obtain ⟨copied, d2⟩ := c
  rw [hsrcAt] at hcop
  have hfrom : ∀ x b, s.acked x = some b → d1.pool (s.v.diskAt j) x = b := fun x b hx =>
    (congrFun (congrFun hpool _) x).trans (h.same x b hx j hj hsrc)
  simp only
  split
  · next hok =>
    -- the copy is complete: the replacement holds what the source holds
    have hfull : ∀ x b, s.acked x = some b → d2.pool replacement x = b := fun x b hx =>
      (hcop.full hok.1 x (Nat.zero_le x) (h.inside x b hx)).trans (hfrom x b hx)
    refine ⟨hv.enabled.trans h.disabled, fun x b hx => ?_, fun x b hx i hi hh => ?_⟩
    · exact lt_of_lt_of_eq (h.inside x b hx) hv.layout.total.symm
    · have hi' : i < s.v.diskCount := lt_of_lt_of_eq hi hv.layout.diskCount
      simp only [StripeVolume.diskAt] at hh ⊢
      by_cases hidx : i = replaceIdx
      · simp only [if_pos hidx]
        exact hfull x b hx
      · simp only [if_neg hidx] at hh ⊢
        have hat : (v1.disks i).getD 0 = s.v.diskAt i := congrFun hv.layout.diskAt i
        rw [hat] at hh ⊢
        by_cases hr : s.v.diskAt i = replacement
        · rw [hr]
          exact hfull x b hx
        · rw [setHealthy_info, if_neg hr, hcop.healthy] at hh
          refine (hcop.other _ x hr).trans ((congrFun (congrFun hpool _) x).trans ?_)
          exact h.same x b hx i hi' (hdrop.healthy _ hh)
  · refine h.keep hcount (restored_healthy hdrop.healthy hcop.healthy) fun x b hx i hi hh => ?_
    by_cases hr : s.v.diskAt i = replacement
    · rw [hr]
      rcases hcop.mixed x with hm | hm | ⟨hm, ht⟩
      · refine hm.trans ((congrFun (congrFun hpool _) x).trans ?_)
        rw [← hr]
        exact h.same x b hx i hi hh
      · exact hm.trans (hfrom x b hx)
      · exact hsafe i hi hr (hr ▸ hh) x b _ hx ⟨hram ▸ hm, ht⟩
    · exact (hcop.other _ x hr).trans ((congrFun (congrFun hpool _) x).trans (h.same x b hx i hi hh))

/-- A write past the cache is refused, or goes to every healthy member. -/
theorem mirrorVolumeWrite_direct (io : IoEnv) {v : StripeVolume} (d : Disks) (buffer : Buf)
    (offset length : ℕ) (hv : v.cacheEnabled = false) :
    mirrorVolumeWrite io v d buffer offset length = (false, v, d) ∨
      offset + length ≤ v.virtualTotalBytes ∧
        AllWritten v d buffer offset length 0 v.diskCount false
          (mirrorVolumeWrite io v d buffer offset length) := by
  unfold mirrorVolumeWrite
  rw [if_neg (show ¬ (v.cacheEnabled = true ∧ _) from fun hc => by rw [hv] at hc; cases hc.1)]
  split
  · exact Or.inl rfl
  rcases mirrorWriteToAll_spec io v d buffer offset length with ⟨_, hw⟩ | ⟨⟨_, hin⟩, hw⟩
  · rw [hw]
    exact Or.inl rfl
  · refine Or.inr ⟨hin, ?_⟩
    generalize mirrorWriteToAll io v d buffer offset length = r at hw
    obtain ⟨ok, w, e⟩ := r
    cases ok with
    | false => exact hw
    | true =>
      exact ⟨hw.volume.trans ⟨⟨rfl, rfl, rfl, rfl, rfl, rfl, rfl, rfl⟩, rfl, rfl, rfl⟩, hw.confined, hw.kept,
        hw.data, nofun⟩

theorem Agree.write {s : MirrorState} (h : Agree s) (io : IoEnv) (buffer : Buf) (offset length : ℕ)
    {t : MirrorState} (ht : mirrorStep s (.write io buffer offset length) = some t) : Agree t := by
  obtain rfl := Option.some.inj ht
  rcases mirrorVolumeWrite_direct io s.d buffer offset length h.disabled with hw | ⟨hin, hw⟩
  · simpa only [hw, Bool.false_eq_true, false_and, if_false] using h
  generalize mirrorVolumeWrite io s.v s.d buffer offset length = r at hw
  obtain ⟨ok, w, e⟩ := r
  have hvolume := hw.volume
  have hat : w.diskAt = s.v.diskAt := hvolume.layout.diskAt
  cases ok with
  | false =>
    -- no member is healthy any more
    simp only [Bool.false_eq_true, false_and, if_false]
    refine ⟨hvolume.enabled.trans h.disabled, fun x b hx => ?_, fun x b hx i hi hh => ?_⟩
    · exact lt_of_lt_of_eq (h.inside x b hx) hvolume.layout.total.symm
    · have hi' : i < s.v.diskCount := lt_of_lt_of_eq hi hvolume.layout.diskCount
      have hdown := (hw.failed rfl).2 i (Nat.zero_le i) (by omega)
      have hup : (e.info (s.v.diskAt i)).healthy = true := hat ▸ hh
      exact absurd (hup.symm.trans hdown) (by decide)
  | true =>
    simp only [true_and]
    refine ⟨hvolume.enabled.trans h.disabled, fun x b hx => ?_, fun x b hx i hi hh => ?_⟩
    · have htotal : w.virtualTotalBytes = s.v.virtualTotalBytes := hvolume.layout.total
      simp only [htotal]
      simp only at hx
      split at hx
      · omega
      · exact h.inside x b hx
    · have hi' : i < s.v.diskCount := lt_of_lt_of_eq hi hvolume.layout.diskCount
      have hd : (e.info (s.v.diskAt i)).healthy = true := hat ▸ hh
      have hgoal : e.pool (s.v.diskAt i) x = b := by
        simp only at hx
        split at hx
        · next hr =>
          rw [← Option.some.inj hx]
          exact hw.data i (Nat.zero_le i) (by omega) hd x hr.1 hr.2
        · next hr =>
          refine (hw.confined.frame _ x (by omega)).trans ?_
          exact h.same x b hx i hi' (hw.confined.healthy _ hd)
      exact hat ▸ hgoal

/-- A read changes no pool, and its answer is the pool of a healthy member. -/
theorem mirrorVolumeRead_direct (io : IoEnv) {v : StripeVolume} (d : Disks) (buffer : Buf)
    (offset length : ℕ) (hv : v.cacheEnabled = false) :
    AnyRead v d offset length 0 v.diskCount (mirrorVolumeRead io v d buffer offset length) := by
  unfold mirrorVolumeRead
  rw [if_neg (show ¬ (v.cacheEnabled = true ∧ _) from fun hc => by rw [hv] at hc; cases hc.1)]
  split
  · exact ⟨SameMirror.refl v, rfl, fun _ hk => hk, nofun⟩
  · exact mirrorReadLoop_spec io offset length v.diskCount 0 v d buffer

theorem Agree.step {s t : MirrorState} {c : MirrorCall} (h : Agree s) (hsafe : RebuildHarmless s c)
    (ht : mirrorStep s c = some t) : Agree t := by
  cases c with
  | write io buffer offset length => exact h.write io buffer offset length ht
  | read io buffer offset length =>
    obtain rfl := Option.some.inj ht
    have hr := mirrorVolumeRead_direct io s.d buffer offset length h.disabled
    refine h.keep hr.volume hr.healthy fun x b hx i hi hh => ?_
    exact (congrFun (congrFun hr.pool _) x).trans (h.same x b hx i hi hh)
  | rebuild env replacement replaceIdx =>
    obtain rfl := Option.some.inj ht
    exact h.rebuild hsafe

theorem mirrorVolumeCreate_agree {d0 : Disks} {disks : List DiskId} {v : StripeVolume} {d : Disks}
    (h : mirrorVolumeCreate d0 disks = some (v, d)) : Agree ⟨v, d, fun _ => none⟩ := by
  unfold mirrorVolumeCreate at h
  split at h
  · cases h
  · obtain ⟨rfl, rfl⟩ := Prod.mk.inj (Option.some.inj h)
    exact ⟨rfl, nofun, nofun⟩

/-- In every run whose rebuilds onto a healthy member tear no acknowledged byte, the members
agree and reads return what was acknowledged. -/
theorem mirrorVolume_agree (d0 : Disks) (disks : List DiskId) (v : StripeVolume) (d : Disks)
    (calls : List MirrorCall) (s : MirrorState) (hcreate : mirrorVolumeCreate d0 disks = some (v, d))
    (hsafe : Along mirrorStep RebuildHarmless ⟨v, d, fun _ => none⟩ calls)
    (hrun : run mirrorStep ⟨v, d, fun _ => none⟩ calls = some s) :
    (∀ x b, s.acked x = some b → ∀ i < s.v.diskCount,
      (s.d.info (s.v.diskAt i)).healthy = true → (s.d.info (s.v.diskAt i)).faulty = false →
        s.d.pool (s.v.diskAt i) x = b) ∧
      ∀ io buffer offset length, (mirrorVolumeRead io s.v s.d buffer offset length).1 = true →
        ∀ i < length, ∀ b, s.acked (offset + i) = some b →
          (mirrorVolumeRead io s.v s.d buffer offset length).2.2.2 i = b := by
  have h : Agree s := run_invariant (fun _ _ _ ha hs ht => ha.step hs ht) hsafe
    (mirrorVolumeCreate_agree hcreate) hrun
  refine ⟨fun x b hx i hi hh _ => h.same x b hx i hi hh, fun io buffer offset length hok i hi b hx => ?_⟩
  obtain ⟨j, -, hj, hhealthy, hdata⟩ := (mirrorVolumeRead_direct io s.d buffer offset length h.disabled).data hok
  exact (hdata i hi).trans (h.same _ b hx j (by omega) hhealthy)

/-- Two members of one sector, all bytes 1. -/
def sectorDisks : Disks := ⟨fun _ => ⟨512, 0, 0, false, true, false, false, 0, false⟩, fun _ _ => 1⟩

def tearing : RebuildEnv := ⟨true, fun _ => .ok, fun _ => .error fun _ => 0, true⟩

/-- A write is acknowledged; then member 0 is rebuilt onto itself and the transfer fails. -/
def tornRebuild : List MirrorCall :=
  [.write .good (fun _ => 9) 0 1, .rebuild tearing 0 0]

/-- Member 0 is healthy again with 0 in the byte acknowledged as 9, and reads return the 0. -/
theorem mirrorVolume_agree_fails :
    ∃ v d s, mirrorVolumeCreate sectorDisks [0, 1] = some (v, d) ∧
      run mirrorStep ⟨v, d, fun _ => none⟩ tornRebuild = some s ∧
      s.acked 0 = some 9 ∧ (s.d.info (s.v.diskAt 0)).healthy = true ∧
      (s.d.info (s.v.diskAt 0)).faulty = false ∧ s.d.pool (s.v.diskAt 0) 0 = 0 ∧
      (mirrorVolumeRead .good s.v s.d (fun _ => 7) 0 1).1 = true ∧
      (mirrorVolumeRead .good s.v s.d (fun _ => 7) 0 1).2.2.2 0 = 0 :=
  ⟨_, _, _, rfl, rfl, by decide, by decide, by decide, by decide, by decide, by decide⟩

/-- A member fails a write, is rebuilt onto a new disk, and the other one fails a read. -/
def memberReplaced : List MirrorCall :=
  [.write { IoEnv.good with result := fun i => if i = 1 then .error (fun _ => 3) else .ok }
      (fun _ => 9) 0 512,
    .rebuild ⟨true, fun _ => .ok, fun _ => .ok, true⟩ 2 1,
    .read { IoEnv.good with result := fun i => if i = 0 then .error (fun _ => 5) else .ok }
      (fun _ => 7) 0 512]

theorem mirrorVolume_agree_sample :
    ∃ v d s, mirrorVolumeCreate sectorDisks [0, 1] = some (v, d) ∧
      run mirrorStep ⟨v, d, fun _ => none⟩ memberReplaced = some s ∧
      ((∀ x b, s.acked x = some b → ∀ i < s.v.diskCount,
        (s.d.info (s.v.diskAt i)).healthy = true → (s.d.info (s.v.diskAt i)).faulty = false →
          s.d.pool (s.v.diskAt i) x = b) ∧
        ∀ io buffer offset length, (mirrorVolumeRead io s.v s.d buffer offset length).1 = true →
          ∀ i < length, ∀ b, s.acked (offset + i) = some b →
            (mirrorVolumeRead io s.v s.d buffer offset length).2.2.2 i = b) := by
  refine ⟨_, _, _, rfl, rfl, mirrorVolume_agree sectorDisks [0, 1] _ _ memberReplaced _ rfl ?_ rfl⟩
  refine ⟨trivial, fun t ht => ⟨fun i hi hr hh x a b _ ht => ?_, fun u _ => ⟨trivial, fun _ _ => trivial⟩⟩⟩
  obtain ⟨_, k, left, hk, _⟩ := ht
  cases hk

end RaidTest.Mirror
