import RaidTest.Fuse.Visible
import RaidTest.Stripe.Aligned
import RaidTest.Service.Teardown

/-!
# The self tests (`stripe_volume_verify_io`, `stripe_volume_random_test`)

A test writes to a range the low bytes of its addresses, reads the range back and compares.
-/

namespace RaidTest.Service
open RaidTest.Base RaidTest.Stripe RaidTest.Cache RaidTest.Mirror RaidTest.Fuse

/-- `write_buf[i] = (uint8_t)((off + i) & 0xFF)`. -/
def testPattern (off : ℕ) : Buf := fun i => UInt8.ofNat (off + i)

/-- `memcmp(a, b, n) == 0`. -/
def sameBytes (a b : Buf) (n : ℕ) : Bool := (List.range n).all fun i => a i == b i

theorem sameBytes_iff (a b : Buf) (n : ℕ) : sameBytes a b n = true ↔ ∀ i < n, a i = b i := by
  simp only [sameBytes, List.all_eq_true, List.mem_range, beq_iff_eq]

/-! ### The tests -/

/-- At most 64 MB are tested. -/
def verifySize (v : StripeVolume) : ℕ := if v.virtualTotalBytes > 67108864 then 67108864 else v.virtualTotalBytes

/-- `stripe_volume_verify_io`; `alloc` is whether it gets its buffers. -/
def stripeVolumeVerifyIo (alloc : Bool) (write read : IoEnv) (v : StripeVolume) (d : Disks) :
    Option (Bool × StripeVolume × Disks) :=
  if alloc = false then some (false, v, d)
  else
    match stripeVolumeWrite write v d (testPattern 0) 0 (verifySize v) with
    | none => none
    | some (writeOk, w, d) =>
      match stripeVolumeRead read w d (fun _ => 0) 0 (verifySize v) with
      | none => none
      | some (readOk, w, d, out) =>
        some (writeOk && readOk && sameBytes (testPattern 0) out (verifySize v), w, d)

/-- What one turn of the random test meets: three values of `rand` and the answers to its transfers. -/
structure RandomOp where
  size : ℕ
  left : ℕ
  right : ℕ
  write : IoEnv
  read : IoEnv

/-- How a turn ends. All but `passed` count as failed. -/
inductive Verdict where
  | passed
  | writeFailed
  | readFailed
  | differs
  deriving Repr, DecidableEq

/-- `max_size` after its bounds. -/
def randomMaxSize (maxSizeKb : ℕ) : ℕ :=
  let maxSize := u32 (maxSizeKb * 1024)
  if maxSize < 4096 then 4096 else if maxSize > 1048576 then 1048576 else maxSize

def RandomOp.bytes (op : RandomOp) (maxSize : ℕ) : ℕ :=
  let size := 4096 + op.size % (maxSize - 4095)
  size - size % 512

/-- `off`; none where the code divides by zero. -/
def RandomOp.offset (op : RandomOp) (vmax size : ℕ) : Option ℕ :=
  let maxOff := sub64 vmax size
  if maxOff = 0 then none
  else
    let off := u64 (op.left * op.right) % maxOff
    some (off - off % 512)

/-- What a turn does with the range it has chosen. -/
def randomTurn (write read : IoEnv) (v : StripeVolume) (d : Disks) (off size : ℕ) :
    Option (Verdict × StripeVolume × Disks) :=
  match stripeVolumeWrite write v d (testPattern off) off size with
  | none => none
  | some (false, v, d) => some (.writeFailed, v, d)
  | some (true, v, d) =>
    match stripeVolumeRead read v d (fun _ => 0) off size with
    | none => none
    | some (false, v, d, _) => some (.readFailed, v, d)
    | some (true, v, d, out) => some (if sameBytes (testPattern off) out size then .passed else .differs, v, d)

/-- A turn of the loop. -/
def RandomOp.turn (vmax maxSize : ℕ) (op : RandomOp) (v : StripeVolume) (d : Disks) :
    Option (Verdict × StripeVolume × Disks) :=
  (op.offset vmax (op.bytes maxSize)).bind fun off => randomTurn op.write op.read v d off (op.bytes maxSize)

def randomLoop (vmax maxSize : ℕ) : List RandomOp → StripeVolume → Disks →
    Option (List Verdict × StripeVolume × Disks)
  | [], v, d => some ([], v, d)
  | op :: ops, v, d =>
    (op.turn vmax maxSize v d).bind fun (verdict, v, d) =>
      (randomLoop vmax maxSize ops v d).map fun (verdicts, v, d) => (verdict :: verdicts, v, d)

/-- `failed` after the loop. -/
def failedOps (verdicts : List Verdict) : ℕ := verdicts.countP fun r => decide (r ≠ .passed)

/-- `stripe_volume_random_test` with as many operations as there are in `ops`. -/
def stripeVolumeRandomTest (alloc : Bool) (ops : List RandomOp) (maxSizeKb : ℕ) (v : StripeVolume) (d : Disks) :
    Option (Bool × List Verdict × StripeVolume × Disks) :=
  if ops = [] ∨ v.virtualTotalBytes < 65536 ∨ alloc = false then some (false, [], v, d)
  else
    match randomLoop v.virtualTotalBytes (randomMaxSize maxSizeKb) ops v d with
    | none => none
    | some (verdicts, v, d) => some (decide (failedOps verdicts = 0), verdicts, v, d)

theorem randomMaxSize_range (maxSizeKb : ℕ) : 4096 ≤ randomMaxSize maxSizeKb ∧ randomMaxSize maxSizeKb ≤ 1048576 := by
  unfold randomMaxSize
  simp only
  split
  · omega
  split <;> omega

theorem RandomOp.bytes_range (op : RandomOp) {maxSize : ℕ} (h : 4096 ≤ maxSize) :
    4096 ≤ op.bytes maxSize ∧ op.bytes maxSize ≤ maxSize := by
  have hmod : op.size % (maxSize - 4095) < maxSize - 4095 := Nat.mod_lt _ (by omega)
  unfold RandomOp.bytes
  simp only
  omega

/-- An operation that is not larger than the volume stays inside it. -/
theorem RandomOp.offset_inside (op : RandomOp) {vmax size : ℕ} (h : size < vmax) (hv : vmax < 18446744073709551616) :
    ∃ off, op.offset vmax size = some off ∧ off + size ≤ vmax := by
  have hsub := sub64_of_le (Nat.le_of_lt h) hv
  have hmod : u64 (op.left * op.right) % (vmax - size) < vmax - size := Nat.mod_lt _ (by omega)
  refine ⟨u64 (op.left * op.right) % (vmax - size) - u64 (op.left * op.right) % (vmax - size) % 512, ?_, ?_⟩
  · unfold RandomOp.offset
    simp only [hsub]
    rw [if_neg (by omega)]
  · omega

/-! ### What a write leaves is what a read brings -/

/-- The transfers of the test go through the cache. -/
def ByCache (v : StripeVolume) (vo length : ℕ) : Prop :=
  v.cacheEnabled = true ∧ vo + length ≤ v.cache.cacheSizeBytes

instance (v : StripeVolume) (vo length : ℕ) : Decidable (ByCache v vo length) := inferInstanceAs (Decidable (_ ∧ _))

/-- Where a read of the range will look, there is `data`. -/
def Landed (v : StripeVolume) (d : Disks) (vo length : ℕ) (data : Buf) : Prop :=
  if ByCache v vo length then
    (∀ b, Touches vo length b → v.cache.validMap b = true) ∧ ∀ i < length, v.cache.buffer (vo + i) = data i
  else ∀ i < length, Durable v d (vo + i) (data i)

theorem byCache_served {v w : StripeVolume} (h : SameServed v w) {vo length : ℕ} :
    ByCache w vo length ↔ ByCache v vo length := by
  unfold ByCache
  rw [h.enabled, h.shape.size]

/-- Bytes that were written past the cache have landed. -/
theorem landed_durable {v w : StripeVolume} (hs : SameServed v w) {d : Disks} {vo length : ℕ} {buffer : Buf}
    (hout : ¬ ByCache v vo length)
    (h : ∀ x, vo ≤ x → x < vo + length → Durable v d x (buffer (x - vo))) : Landed w d vo length buffer := by
  unfold Landed
  rw [if_neg (fun hin => hout ((byCache_served hs).mp hin))]
  intro i hi
  have hd := h (vo + i) (by omega) (by omega)
  rw [Nat.add_sub_cancel_left] at hd
  exact hs.durable.mpr hd

/-- So have bytes that the cache has taken. -/
theorem landed_stored {v w : StripeVolume} (hs : SameServed v w) {d : Disks} {vo length : ℕ} {buffer : Buf}
    (hin : ByCache v vo length) (hc : w.cache = stored v.cache buffer vo length) : Landed w d vo length buffer := by
  unfold Landed
  rw [if_pos ((byCache_served hs).mpr hin), hc]
  refine ⟨fun b hb => ?_, fun i hi => ?_⟩
  · simp only [stored, decide_eq_true hb, Bool.or_true]
  · simp only [stored]
    rw [Buf.put_of_mem _ _ (by omega) (by omega), Nat.add_sub_cancel_left]

/-- What a write does that a test makes. -/
structure TestWrite (v : StripeVolume) (vo length : ℕ) (data : Buf) (ok : Bool) (w : StripeVolume) (e : Disks) :
    Prop where
  same : SameServed v w
  inside : ok = true → 0 < length ∧ vo + length ≤ v.virtualTotalBytes
  landed : ok = true → Landed w e vo length data

/-- The counters do not matter. -/
theorem TestWrite.count {v w u : StripeVolume} {vo length : ℕ} {data : Buf} {ok : Bool} {e : Disks}
    (h : TestWrite v vo length data ok w e) (hs : SameServed w u) (hc : u.cache = w.cache) :
    TestWrite v vo length data ok u e := by
  refine ⟨h.same.trans hs, h.inside, fun hok => ?_⟩
  have hl := h.landed hok
  unfold Landed at hl ⊢
  simp only [byCache_served hs, hc, hs.durable]
  exact hl

theorem TestWrite.refused (v : StripeVolume) (vo length : ℕ) (data : Buf) (d : Disks) :
    TestWrite v vo length data false v d := ⟨SameServed.refl v, nofun, nofun⟩

/-- Without a cache a write that does not fit is refused. -/
theorem uncached_outside {v : StripeVolume} (h : Ready v) (hlevel : v.raidLevel = .stripe)
    (hc : v.cacheEnabled = false) {io : IoEnv} {d : Disks} {buffer : Buf} {vo length : ℕ} (hl : length < 2^32)
    (hn : ¬ (0 < length ∧ vo + length ≤ v.virtualTotalBytes)) :
    stripeVolumeWrite io v d buffer vo length = some (false, v, d) := by
  unfold stripeVolumeWrite
  split
  · rfl
  next hg =>
  simp only [not_or, Nat.not_lt, gt_iff_lt] at hg
  have hpos : 0 < length := by omega
  have hbeyond := beyond_of_wrap h hl hpos (fun hend => hn ⟨hpos, hend⟩) hg.2.1
  rw [if_neg (by rw [hlevel]; decide), if_neg (fun hc' => absurd (hc.symm.trans hc'.1) Bool.false_ne_true)]
  unfold writeDirect
  rw [mapLba_beyond hbeyond]

section Write
variable {v w : StripeVolume} (h : Servable v) (hidle : v.cacheFlushInProgress = false) {io : IoEnv} {d e : Disks}
  {buffer : Buf} {vo length : ℕ} {ok : Bool} (hl : length < 2^32)
include h hidle hl

theorem stripeVolumeWrite_stripe (hlevel : v.raidLevel = .stripe)
    (hw : stripeVolumeWrite io v d buffer vo length = some (ok, w, e)) : TestWrite v vo length buffer ok w e := by
  have hready := h.stripe hlevel
  have hdurable : (∀ x, vo ≤ x → x < vo + length → vbyte v e x = buffer (x - vo)) →
      ∀ x, vo ≤ x → x < vo + length → Durable v e x (buffer (x - vo)) := fun hd x h1 h2 =>
    (durable_stripe hlevel _ _ _).mpr (hd x h1 h2)
  cases he : v.cacheEnabled with
  | true =>
    have hv : CachedVolume v := ⟨hready, hlevel, h.cache he, he⟩
    cases ok with
    | false =>
      obtain ⟨rfl, _⟩ := write_false hv hl hw
      exact TestWrite.refused w vo length buffer e
    | true =>
      have hdone := write_true hv hl hw
      by_cases hc : Cacheable v vo length
      · have hwe := hdone.cached hc
        have hstored : SameServed v { v with cache := stored v.cache buffer vo length } :=
          ⟨sameLayout_cache v _, rfl, ⟨rfl, rfl, rfl, rfl, rfl⟩, rfl⟩
        have hsame : SameServed v w := hwe ▸ hstored.trans (sameServed_addWritten _ true length)
        refine ⟨hsame, fun _ => ⟨hdone.pos, hdone.inside⟩, fun _ => landed_stored hsame ⟨he, hc.2⟩ ?_⟩
        rw [hwe, addWritten_cache]
      · have hsame : SameServed v w := hdone.direct hc ▸ sameServed_addWritten v true length
        refine ⟨hsame, fun _ => ⟨hdone.pos, hdone.inside⟩, fun _ => landed_durable hsame ?_ ?_⟩
        · exact fun hin => hc ⟨hidle, hin.2⟩
        · exact hdurable (hdone.data (Or.inl hc))
  | false =>
    have hpast : ¬ (v.cacheEnabled = true ∧ v.cacheFlushInProgress = false ∧ vo + length ≤ v.cache.cacheSizeBytes) :=
      fun hc => absurd (he.symm.trans hc.1) Bool.false_ne_true
    by_cases hin : 0 < length ∧ vo + length ≤ v.virtualTotalBytes
    · rw [stripeVolumeWrite_eq hready hlevel io d buffer hin.1 hin.2, if_neg hpast] at hw
      obtain ⟨rfl, hdata, _⟩ := writeDirect_some hready hl hin.2 hw
      have hsame := sameServed_addWritten v ok length
      refine ⟨hsame, fun _ => hin, fun hok => landed_durable hsame ?_ (hdurable (hdata hok))⟩
      exact fun hc => absurd (he.symm.trans hc.1) Bool.false_ne_true
    · rw [uncached_outside hready hlevel he hl hin] at hw
      simp only [Option.some.injEq, Prod.mk.injEq] at hw
      obtain ⟨rfl, rfl, rfl⟩ := hw
      exact TestWrite.refused v vo length buffer d

theorem mirrorVolumeWrite_test (hlevel : v.raidLevel = .mirror) :
    TestWrite v vo length buffer (mirrorVolumeWrite io v d buffer vo length).1
      (mirrorVolumeWrite io v d buffer vo length).2.1 (mirrorVolumeWrite io v d buffer vo length).2.2 := by
  unfold mirrorVolumeWrite
  split
  · exact TestWrite.refused v vo length buffer d
  next hg =>
  rw [not_or, not_or, outOfRange_iff] at hg
  have hin : 0 < length ∧ vo + length ≤ v.virtualTotalBytes := by omega
  split
  · next hc =>
    obtain ⟨he, _, hend⟩ := hc
    have hstore := cacheWrite_stored (h.cache he) buffer hl hin.1 hend
    have hstored : SameServed v { v with cache := stored v.cache buffer vo length } :=
      ⟨sameLayout_cache v _, rfl, ⟨rfl, rfl, rfl, rfl, rfl⟩, rfl⟩
    have htaken : ∀ e, TestWrite v vo length buffer true { v with cache := stored v.cache buffer vo length } e :=
      fun e => ⟨hstored, fun _ => hin, fun _ => landed_stored hstored ⟨he, hend⟩ rfl⟩
    simp only [hstore, true_and]
    split
    · have hall := mirrorWriteToAll_spec io { v with cache := stored v.cache buffer vo length } d buffer vo length
      generalize mirrorWriteToAll io { v with cache := stored v.cache buffer vo length } d buffer vo length = r at hall
      obtain ⟨any, u, e⟩ := r
      have hsame : SameMirror { v with cache := stored v.cache buffer vo length } u := by
        rcases hall with ⟨_, hr⟩ | ⟨_, hr⟩
        · obtain ⟨_, rfl, _⟩ := Prod.mk.inj hr |>.imp id Prod.mk.inj
          exact SameMirror.refl _
        · exact hr.volume
      cases any with
      | true => exact (htaken e).count (sameServed_mirror (hsame.trans ⟨⟨rfl, rfl, rfl, rfl, rfl, rfl, rfl, rfl⟩, rfl, rfl, rfl⟩)) hsame.cache
      | false =>
        refine ⟨hstored.trans ((sameServed_mirror hsame).trans ⟨sameLayout_cache u _, rfl, ?_, rfl⟩), nofun, nofun⟩
        exact sameShape_cacheInvalidate u.cache vo length
    · exact (htaken d).count ⟨⟨rfl, rfl, rfl, rfl, rfl, rfl, rfl, rfl⟩, rfl, ⟨rfl, rfl, rfl, rfl, rfl⟩, rfl⟩ rfl
  · next hc =>
    have hpast : ¬ ByCache v vo length := fun hb => hc ⟨hb.1, hidle, hb.2⟩
    rcases mirrorWriteToAll_spec io v d buffer vo length with ⟨hno, _⟩ | ⟨_, hall⟩
    · rw [outOfRange_iff] at hno
      omega
    · obtain ⟨hdata, _⟩ := durable_of_allWritten hlevel (SameLayout.refl v) hall
      have hsame := sameServed_mirror hall.volume
      generalize mirrorWriteToAll io v d buffer vo length = r at hdata hsame
      obtain ⟨any, u, e⟩ := r
      have hdone : TestWrite v vo length buffer any u e :=
        ⟨hsame, fun _ => hin, fun _ => landed_durable hsame hpast hdata⟩
      cases any with
      | true => exact hdone.count ⟨⟨rfl, rfl, rfl, rfl, rfl, rfl, rfl, rfl⟩, rfl, ⟨rfl, rfl, rfl, rfl, rfl⟩, rfl⟩ rfl
      | false => exact hdone

theorem stripeVolumeWrite_mirror (hlevel : v.raidLevel = .mirror)
    (hw : stripeVolumeWrite io v d buffer vo length = some (ok, w, e)) : TestWrite v vo length buffer ok w e := by
  unfold stripeVolumeWrite at hw
  split at hw
  · simp only [Option.some.injEq, Prod.mk.injEq] at hw
    obtain ⟨rfl, rfl, rfl⟩ := hw
    exact TestWrite.refused v vo length buffer d
  simp only [Option.some.injEq, Prod.mk.injEq] at hw
  obtain ⟨rfl, rfl, rfl⟩ := hw
  have hm : TestWrite v vo length buffer (mirrorVolumeWrite io v d buffer vo length).1
      (mirrorVolumeWrite io v d buffer vo length).2.1 (mirrorVolumeWrite io v d buffer vo length).2.2 :=
    mirrorVolumeWrite_test h hidle hl hlevel
  exact hm.count (sameServed_addWritten _ _ length) (addWritten_cache _ _ length)

theorem stripeVolumeWrite_test (hw : stripeVolumeWrite io v d buffer vo length = some (ok, w, e)) :
    TestWrite v vo length buffer ok w e := by
  cases hlevel : v.raidLevel with
  | stripe => exact stripeVolumeWrite_stripe h hidle hl hlevel hw
  | mirror => exact stripeVolumeWrite_mirror h hidle hl hlevel hw

end Write

section Read
variable {v w : StripeVolume} (h : Servable v) (hidle : v.cacheFlushInProgress = false) {io : IoEnv} {d e : Disks}
  {buffer out : Buf} {vo length : ℕ} (hl : length < 2^32) (hpos : 0 < length) (hend : vo + length ≤ v.virtualTotalBytes)
include h hidle hl hpos hend

omit hidle in
/-- A read past the cache brings what the members hold. -/
theorem stripeVolumeRead_members (hpast : ¬ ByCache v vo length)
    (hr : stripeVolumeRead io v d buffer vo length = some (true, w, e, out)) {data : Buf}
    (hd : ∀ i < length, Durable v d (vo + i) (data i)) : ∀ i < length, out i = data i := by
  cases hlevel : v.raidLevel with
  | stripe =>
    have hready := h.stripe hlevel
    have hbytes : ∀ i < length, vbyte v d (vo + i) = data i := fun i hi => (durable_stripe hlevel _ _ _).mp (hd i hi)
    cases he : v.cacheEnabled with
    | true =>
      have hv : CachedVolume v := ⟨hready, hlevel, h.cache he, he⟩
      have hdone := read_some hv io d buffer hl hpos hend hr
      have hmiss : ¬ Hit v vo length := fun hh => hpast ⟨he, hh.1⟩
      exact fun i hi => (hdone.miss hmiss rfl i hi).trans (hbytes i hi)
    | false =>
      rw [stripeVolumeRead_eq hready hlevel io d buffer hpos hend,
        if_neg (fun hc => absurd (he.symm.trans hc.1) Bool.false_ne_true)] at hr
      obtain ⟨_, _, hdata⟩ := readDirect_some hready hl hend hr
      exact fun i hi => (hdata rfl i hi).trans (hbytes i hi)
  | mirror =>
    have hmembers := (h.mirror hlevel).1
    have hf : ¬ FromCache v vo length := fun hf => hpast ⟨hf.1, hf.2.2⟩
    have hread := mirrorReadLoop_spec io vo length v.diskCount 0 v d buffer
    unfold stripeVolumeRead at hr
    split at hr
    · cases hr
    rw [mirrorVolumeRead_members hmembers hpos hend io d buffer hf] at hr
    simp only [Option.some.injEq, Prod.mk.injEq] at hr
    obtain ⟨hok, _, _, rfl⟩ := hr
    obtain ⟨j, _, hj, hup, hbytes⟩ := hread.data hok
    intro i hi
    rw [hbytes i hi]
    exact (durable_mirror hlevel _ _ _).mp (hd i hi) j (by omega) hup

theorem stripeVolumeRead_landed (hr : stripeVolumeRead io v d buffer vo length = some (true, w, e, out)) {data : Buf}
    (hd : Landed v d vo length data) : ∀ i < length, out i = data i := by
  unfold Landed at hd
  split at hd
  · next hin =>
    have hcend : cacheEnd v = v.cache.cacheSizeBytes := by
      unfold cacheEnd
      rw [if_pos hin.1]
    have hone : OneSided v vo length := Or.inr ⟨by rw [hcend]; exact hin.2, fun _ => hidle⟩
    refine (stripeVolumeRead_shown h hl hpos hend hr).data rfl hone data fun i hi => ?_
    have hlt := hin.2
    unfold Visible
    rw [if_pos (by omega)]
    refine ⟨hd.1 _ ?_, hd.2 i hi⟩
    exact touches_of_mem (by omega) (by omega)
  · next hpast => exact stripeVolumeRead_members h hl hpos hend hpast hr hd

end Read

/-! ### No test finds a difference -/

/-- What a test needs of a volume, and leaves it. -/
structure Testable (v : StripeVolume) : Prop where
  servable : Servable v
  idle : v.cacheFlushInProgress = false

theorem Testable.served {v w : StripeVolume} (h : Testable v) (hs : SameServed v w) : Testable w :=
  ⟨hs.servable h.servable, hs.busy.trans h.idle⟩

theorem randomTurn_same {write read : IoEnv} {v w : StripeVolume} {d e : Disks} {off size : ℕ} {r : Verdict}
    (h : Testable v) (hsize : size < 2^32) (hr : randomTurn write read v d off size = some (r, w, e)) :
    SameServed v w ∧ r ≠ .differs := by
  unfold randomTurn at hr
  split at hr
  · cases hr
  · next hw =>
    have htest := stripeVolumeWrite_test h.servable h.idle hsize hw
    simp only [Option.some.injEq, Prod.mk.injEq] at hr
    obtain ⟨rfl, rfl, rfl⟩ := hr
    exact ⟨htest.same, nofun⟩
  next u f hw =>
  have htest := stripeVolumeWrite_test h.servable h.idle hsize hw
  have hu := h.served htest.same
  obtain ⟨hpos, hend⟩ := htest.inside rfl
  have hend' : off + size ≤ u.virtualTotalBytes := by
    rw [htest.same.layout.total]
    exact hend
  split at hr
  · cases hr
  · next hread =>
    have hshown := stripeVolumeRead_shown hu.servable hsize hpos hend' hread
    simp only [Option.some.injEq, Prod.mk.injEq] at hr
    obtain ⟨rfl, rfl, rfl⟩ := hr
    exact ⟨htest.same.trans hshown.same, nofun⟩
  · next hread =>
    have hshown := stripeVolumeRead_shown hu.servable hsize hpos hend' hread
    have hback := stripeVolumeRead_landed hu.servable hu.idle hsize hpos hend' hread (htest.landed rfl)
    rw [(sameBytes_iff _ _ _).mpr fun i hi => (hback i hi).symm, if_pos rfl] at hr
    simp only [Option.some.injEq, Prod.mk.injEq] at hr
    obtain ⟨rfl, rfl, rfl⟩ := hr
    exact ⟨htest.same.trans hshown.same, nofun⟩

theorem randomLoop_same {vmax maxSize : ℕ} (hmax : ∀ op : RandomOp, op.bytes maxSize < 2^32) (ops : List RandomOp) :
    ∀ {v w : StripeVolume} {d e : Disks} {verdicts : List Verdict}, Testable v →
      randomLoop vmax maxSize ops v d = some (verdicts, w, e) → SameServed v w ∧ Verdict.differs ∉ verdicts := by
  induction ops with
  | nil =>
    intro v w d e verdicts _ hr
    obtain ⟨rfl, hvol⟩ := Prod.mk.inj (Option.some.inj hr)
    obtain ⟨rfl, rfl⟩ := Prod.mk.inj hvol
    exact ⟨SameServed.refl v, List.not_mem_nil⟩
  | cons op ops ih =>
    intro v w d e verdicts h hr
    obtain ⟨⟨verdict, u, f⟩, hturn, hr⟩ := Option.bind_eq_some_iff.mp hr
    obtain ⟨⟨rest, x, g⟩, hrest, hsome⟩ := Option.map_eq_some_iff.mp hr
    obtain ⟨rfl, hvol⟩ := Prod.mk.inj hsome
    obtain ⟨rfl, rfl⟩ := Prod.mk.inj hvol
    obtain ⟨off, _, hrange⟩ := Option.bind_eq_some_iff.mp hturn
    obtain ⟨hs, hne⟩ := randomTurn_same h (hmax op) hrange
    obtain ⟨hs', hnone⟩ := ih (h.served hs) hrest
    refine ⟨hs.trans hs', fun hmem => ?_⟩
    rcases List.mem_cons.mp hmem with he | hmem
    · exact hne he.symm
    · exact hnone hmem

theorem failedOps_eq (verdicts : List Verdict) (h : Verdict.differs ∉ verdicts) :
    failedOps verdicts = verdicts.count .writeFailed + verdicts.count .readFailed := by
  induction verdicts with
  | nil => rfl
  | cons r verdicts ih =>
    obtain ⟨hr, hrest⟩ := not_or.mp (fun hor => h (List.mem_cons.mpr hor))
    have hrec := ih hrest
    unfold failedOps at hrec ⊢
    rw [List.countP_cons, List.count_cons, List.count_cons, hrec]
    cases r with
    | passed => rfl
    | writeFailed => exact Nat.add_right_comm _ _ _
    | readFailed => exact Nat.add_assoc _ _ _
    | differs => exact absurd rfl hr

theorem verifySize_le (v : StripeVolume) : verifySize v ≤ 67108864 ∧ verifySize v ≤ v.virtualTotalBytes := by
  unfold verifySize
  split <;> omega

/-- Two pools of 64 MB. -/
def testLayout : StripeVolume := (buildVolume evenDisks [0, 1] defaultStripeUnit []).getD .zero

def testVolume : StripeVolume := (stripeVolumeWorkersInit testLayout).getD .zero

theorem testVolume_testable : Testable testVolume := by
  have hlayout : buildVolume evenDisks [0, 1] defaultStripeUnit [] = some testLayout := rfl
  have hon := buildVolume_on (by decide) (by decide) (by decide) hlayout
  obtain ⟨hready, _, _⟩ := workersInit_ready testVolume hon.laid (hon.members (by decide)) rfl
  exact ⟨⟨fun _ => hready, nofun, by decide, nofun⟩, rfl⟩

/-- No event can be created. -/
def testFailing : IoEnv := ⟨false, fun _ => .ok, fun l => l, fun l => List.Perm.refl l, true⟩

/-- Whatever fails, at either level, with a cache or without one, while no flush is running: a test that
fails has seen a call return false, never other bytes than it wrote. -/
theorem selfTests_honest {v : StripeVolume} (h : Testable v) (d : Disks) :
    (∀ write read ok w e, stripeVolumeVerifyIo true write read v d = some (ok, w, e) →
      ∃ writeOk u f readOk out, stripeVolumeWrite write v d (testPattern 0) 0 (verifySize v) = some (writeOk, u, f) ∧
        stripeVolumeRead read u f (fun _ => 0) 0 (verifySize v) = some (readOk, w, e, out) ∧
        ok = (writeOk && readOk) ∧ Testable w) ∧
    ∀ alloc ops maxSizeKb ok verdicts w e,
      stripeVolumeRandomTest alloc ops maxSizeKb v d = some (ok, verdicts, w, e) →
        failedOps verdicts = verdicts.count .writeFailed + verdicts.count .readFailed ∧ Testable w := by
  constructor
  · intro write read ok w e hr
    obtain ⟨hmax, hle⟩ := verifySize_le v
    have hsize : verifySize v < 2^32 := Nat.lt_of_le_of_lt hmax (by decide)
    unfold stripeVolumeVerifyIo at hr
    rw [if_neg (by decide)] at hr
    split at hr
    · cases hr
    next writeOk u f hwrite =>
    split at hr
    · cases hr
    next readOk x g out hread =>
    simp only [Option.some.injEq, Prod.mk.injEq] at hr
    obtain ⟨rfl, rfl, rfl⟩ := hr
    have htest := stripeVolumeWrite_test h.servable h.idle hsize hwrite
    have hu := h.served htest.same
    refine ⟨writeOk, u, f, readOk, out, hwrite, hread, ?_, ?_⟩
    · cases writeOk with
      | false => rfl
      | true =>
        cases readOk with
        | false => rfl
        | true =>
          obtain ⟨hpos, hend⟩ := htest.inside rfl
          rw [← htest.same.layout.total] at hend
          have hback := stripeVolumeRead_landed hu.servable hu.idle hsize hpos hend hread (htest.landed rfl)
          rw [(sameBytes_iff _ _ _).mpr fun i hi => (hback i hi).symm]
          rfl
    · by_cases hpos : 0 < verifySize v
      · have hend : 0 + verifySize v ≤ u.virtualTotalBytes := by
          rw [htest.same.layout.total]
          omega
        exact hu.served (stripeVolumeRead_shown hu.servable hsize hpos hend hread).same
      · unfold stripeVolumeRead at hread
        rw [if_pos (Or.inl (by omega))] at hread
        simp only [Option.some.injEq, Prod.mk.injEq] at hread
        obtain ⟨_, rfl, _⟩ := hread
        exact hu
  · intro alloc ops maxSizeKb ok verdicts w e hr
    unfold stripeVolumeRandomTest at hr
    split at hr
    · simp only [Option.some.injEq, Prod.mk.injEq] at hr
      obtain ⟨_, rfl, rfl, _⟩ := hr
      exact ⟨rfl, h⟩
    split at hr
    · cases hr
    next hloop =>
    simp only [Option.some.injEq, Prod.mk.injEq] at hr
    obtain ⟨_, rfl, rfl, _⟩ := hr
    obtain ⟨hlo, hhi⟩ := randomMaxSize_range maxSizeKb
    have hmax : ∀ op : RandomOp, op.bytes (randomMaxSize maxSizeKb) < 2^32 := fun op =>
      Nat.lt_of_le_of_lt ((op.bytes_range hlo).2.trans hhi) (by decide)
    obtain ⟨hs, hnone⟩ := randomLoop_same hmax ops h hloop
    exact ⟨failedOps_eq _ hnone, h.served hs⟩

/-- The first range is written and read back, and the second write is refused. -/
def honestOps : List RandomOp := [⟨41, 18467, 6334, .good, .good⟩, ⟨26500, 19169, 15724, testFailing, .good⟩]

theorem selfTests_honest_sample : ∃ w e,
    stripeVolumeRandomTest true honestOps 4 testVolume evenDisks = some (false, [.passed, .writeFailed], w, e) ∧
      failedOps [.passed, .writeFailed] =
        [Verdict.passed, .writeFailed].count .writeFailed + [Verdict.passed, .writeFailed].count .readFailed ∧
      Testable w := by
  have hrun : (stripeVolumeRandomTest true honestOps 4 testVolume evenDisks).map (fun r => (r.1, r.2.1)) =
      some (false, [.passed, .writeFailed]) := by decide +kernel
  obtain ⟨⟨ok, verdicts, w, e⟩, hr, he⟩ := Option.map_eq_some_iff.mp hrun
  obtain ⟨rfl, rfl⟩ := Prod.mk.inj he
  exact ⟨w, e, hr, (selfTests_honest testVolume_testable evenDisks).2 true _ 4 _ _ _ _ hr⟩

/-! ### With working transfers the tests pass -/

section Passing
variable {v : StripeVolume} (h : Stripe.Uncached v) {write read : IoEnv} (hwrite : write.Succeeds) (hread : read.Succeeds)
  {d : Disks} {off size : ℕ} (hl : size < 2^32) (hend : off + size ≤ v.virtualTotalBytes) (hfit : Stripe.Fits v off size)
  (hmap : (mapLba v off size).isSome = true)
include h hwrite hread hl hend hfit hmap

/-- The pattern is written and comes back, and nothing else changes. -/
theorem pattern_returns : ∃ u f w e out, stripeVolumeWrite write v d (testPattern off) off size = some (true, u, f) ∧
    stripeVolumeRead read u f (fun _ => 0) off size = some (true, w, e, out) ∧ Stripe.Uncached w ∧ SameLayout v w ∧
    sameBytes (testPattern off) out size = true ∧
    ∀ x < v.virtualTotalBytes, vbyte w e x =
      if off ≤ x ∧ x < off + size then UInt8.ofNat x else vbyte v d x := by
  have hserved : served v off size = true := by
    rw [served, decide_eq_true hend, hmap]
    rfl
  obtain ⟨f, hw, _, hmem⟩ := uncached_write h write d (testPattern off) hwrite hl hfit
  rw [hserved] at hw hmem
  have hlayout := sameLayout_addWritten v true size
  have hu := h.write true size
  have hfit' : Stripe.Fits (addWritten v true size) off size := fun es hes => hfit es (hlayout.mapLba ▸ hes)
  obtain ⟨e, out, hr, hpool, hdata⟩ := uncached_read hu read f (fun _ => 0) hread hl hfit'
  rw [hlayout.served, hserved] at hr hdata
  have hlayout' := hlayout.trans (sameLayout_addRead (addWritten v true size) true size)
  have hput : ∀ x < v.virtualTotalBytes, vbyte v f x =
      if off ≤ x ∧ x < off + size then UInt8.ofNat x else vbyte v d x := by
    intro x hx
    rw [hmem x hx, if_pos rfl]
    unfold Buf.put
    split
    · next hin => rw [testPattern, Nat.add_sub_cancel' hin.1]
    · rfl
  refine ⟨_, f, _, e, out, hw, hr, hu.read true size, hlayout', ?_, fun x hx => ?_⟩
  · rw [sameBytes_iff]
    intro i hi
    rw [(hdata rfl).2 i hi, hlayout.vbyte, hput _ (by omega), if_pos (by omega)]
    rfl
  · rw [hlayout'.vbyte, vbyte_pool v hpool, hput x hx]

end Passing

theorem randomTurn_passes {v : StripeVolume} (h : Stripe.Uncached v) {write read : IoEnv} (hwrite : write.Succeeds)
    (hread : read.Succeeds) {d : Disks} {off size : ℕ} (hl : size < 2^32) (hend : off + size ≤ v.virtualTotalBytes)
    (hfit : Stripe.Fits v off size) (hmap : (mapLba v off size).isSome = true) :
    ∃ w e, randomTurn write read v d off size = some (.passed, w, e) ∧ Stripe.Uncached w ∧ SameLayout v w ∧
      ∀ x < v.virtualTotalBytes, vbyte w e x = vbyte v d x ∨ vbyte w e x = UInt8.ofNat x := by
  obtain ⟨u, f, w, e, out, hw, hr, huncached, hlayout, hsame, hbytes⟩ :=
    pattern_returns h hwrite hread hl hend hfit hmap
  refine ⟨w, e, ?_, huncached, hlayout, fun x hx => ?_⟩
  · unfold randomTurn
    rw [hw]
    simp only
    rw [hr]
    simp only
    rw [if_pos hsame]
  · rw [hbytes x hx]
    split
    · exact Or.inr rfl
    · exact Or.inl rfl

theorem randomLoop_passes {vmax maxSize : ℕ} (hlo : 4096 ≤ maxSize) (hlt : maxSize < vmax) (ops : List RandomOp)
    (hio : ∀ op ∈ ops, op.write.Succeeds ∧ op.read.Succeeds) :
    ∀ {v : StripeVolume} {d : Disks}, Stripe.Uncached v → v.virtualTotalBytes = vmax → maxSize ≤ v.stripeUnit →
      ∃ w e, randomLoop vmax maxSize ops v d = some (List.replicate ops.length .passed, w, e) ∧
        ∀ x < vmax, vbyte w e x = vbyte v d x ∨ vbyte w e x = UInt8.ofNat x := by
  induction ops with
  | nil => exact fun {v} {d} _ _ _ => ⟨v, d, rfl, fun _ _ => Or.inl rfl⟩
  | cons op ops ih =>
    intro v d h htotal hunit
    obtain ⟨hwrite, hread⟩ := hio op (List.mem_cons_self ..)
    obtain ⟨hbytes, hsize⟩ := op.bytes_range hlo
    have hmax := h.ready.laid.total_le
    have hunitLt := h.ready.laid.unitLt
    obtain ⟨off, hoff, hin⟩ := op.offset_inside (Nat.lt_of_le_of_lt hsize hlt) (by omega)
    have hend : off + op.bytes maxSize ≤ v.virtualTotalBytes := by omega
    have hl : op.bytes maxSize < 2^32 := by omega
    have hmap : (mapLba v off (op.bytes maxSize)).isSome = true :=
      mapLba_short h.ready.laid (by omega) hl (by omega) (by omega)
    obtain ⟨u, f, hturn, hu, hlayout, hold⟩ := randomTurn_passes h hwrite hread hl hend
      (unit_fits h.ready.laid hl (by omega) (by omega) hend) hmap
    obtain ⟨w, e, hloop, hrest⟩ := ih (fun op hop => hio op (List.mem_cons_of_mem _ hop)) hu
      (hlayout.total.trans htotal) (by rw [hlayout.stripeUnit]; exact hunit)
    refine ⟨w, e, ?_, fun x hx => ?_⟩
    · have hop : op.turn vmax maxSize v d = some (.passed, u, f) := by
        unfold RandomOp.turn
        rw [hoff, Option.bind_some, hturn]
      unfold randomLoop
      rw [hop, Option.bind_some]
      simp only
      rw [hloop]
      rfl
    · rcases hrest x hx with hr | hr
      · rw [hr]
        exact hold x (by omega)
      · exact Or.inr hr

/-- On a stripe volume whose transfers work both tests pass whatever `rand` gives, the first never
overruns the staging array, and of the bytes on the volume every one is as before or the low byte
of its address. -/
theorem selfTests_pass (d0 d : Disks) (disks : List DiskId) (more : List (List DiskId)) (v w : StripeVolume)
    (hn : (disks ++ more.flatten).Nodup) (hpool : ∀ i ∈ disks ++ more.flatten, (d0.info i).poolBytes ≤ 2^56)
    (hb : buildVolume d0 disks defaultStripeUnit more = some v) (hw : stripeVolumeWorkersInit v = some w)
    (hpos : 0 < w.virtualTotalBytes) :
    (∀ write read : IoEnv, write.Succeeds → read.Succeeds →
      ∃ u e, stripeVolumeVerifyIo true write read w d = some (true, u, e) ∧
        ∀ x < w.virtualTotalBytes, vbyte u e x = if x < verifySize w then UInt8.ofNat x else vbyte w d x) ∧
    ∀ (ops : List RandomOp) (maxSizeKb : ℕ), ops ≠ [] → (∀ op ∈ ops, op.write.Succeeds ∧ op.read.Succeeds) →
      65536 ≤ w.virtualTotalBytes → randomMaxSize maxSizeKb < w.virtualTotalBytes →
      ∃ u e, stripeVolumeRandomTest true ops maxSizeKb w d = some (true, List.replicate ops.length .passed, u, e) ∧
        ∀ x < w.virtualTotalBytes, vbyte u e x = vbyte w d x ∨ vbyte u e x = UInt8.ofNat x := by
  have hon := buildVolume_on (by decide) (by decide) hpool hb
  obtain ⟨hready, hlevel, huncached⟩ := workersInit_ready w hon.laid (hon.members hn) hw
  have hv : Stripe.Uncached w := ⟨hready, hlevel.trans hon.level, huncached.trans hon.uncached⟩
  obtain ⟨hwhole, hunit⟩ := buildVolume_whole hb
  have hw' : Whole w ∧ w.stripeUnit = defaultStripeUnit := by
    unfold stripeVolumeWorkersInit at hw
    split at hw
    · cases hw
    obtain rfl := Option.some.inj hw
    exact ⟨hwhole, hunit⟩
  constructor
  · intro write read hwrite hread
    obtain ⟨hmax, hle⟩ := verifySize_le w
    have hl : verifySize w < 2^32 := Nat.lt_of_le_of_lt hmax (by decide)
    have hsize : 0 < verifySize w := by
      unfold verifySize
      split
      · decide
      · exact hpos
    obtain ⟨hfit, hmap⟩ := first_fits hready.laid hw'.1 (n := verifySize w) (by rw [hw'.2]; exact hmax) hl hle hsize
    obtain ⟨u, f, x, e, out, hwr, hrd, _, _, hsame, hbytes⟩ :=
      pattern_returns hv hwrite hread (d := d) hl (by omega) hfit hmap
    refine ⟨x, e, ?_, fun y hy => ?_⟩
    · unfold stripeVolumeVerifyIo
      rw [if_neg (by decide), hwr]
      simp only
      rw [hrd]
      simp only
      rw [hsame]
      rfl
    · rw [hbytes y hy]
      simp only [Nat.zero_le, true_and, Nat.zero_add]
  · intro ops maxSizeKb hops hio hbig hlt
    obtain ⟨hlo, hhi⟩ := randomMaxSize_range maxSizeKb
    obtain ⟨u, e, hloop, hbytes⟩ := randomLoop_passes hlo hlt ops hio (d := d) hv rfl (by rw [hw'.2]; exact hhi)
    refine ⟨u, e, ?_, hbytes⟩
    have hfailed : failedOps (List.replicate ops.length .passed) = 0 := by
      unfold failedOps
      rw [List.countP_eq_zero]
      intro r hr
      rw [List.eq_of_mem_replicate hr]
      decide
    unfold stripeVolumeRandomTest
    rw [if_neg (fun hor => by
      rcases hor with he | hlt | he
      · exact hops he
      · omega
      · cases he), hloop]
    simp only
    rw [hfailed]
    rfl

def testOps : List RandomOp := [⟨41, 18467, 6334, .good, .good⟩, ⟨26500, 19169, 15724, .good, .good⟩]

theorem selfTests_pass_sample :
    (∃ u e, stripeVolumeVerifyIo true .good .good testVolume evenDisks = some (true, u, e) ∧
      ∀ x < testVolume.virtualTotalBytes,
        vbyte u e x = if x < verifySize testVolume then UInt8.ofNat x else vbyte testVolume evenDisks x) ∧
      ∃ u e, stripeVolumeRandomTest true testOps 64 testVolume evenDisks =
          some (true, List.replicate testOps.length .passed, u, e) ∧
        ∀ x < testVolume.virtualTotalBytes, vbyte u e x = vbyte testVolume evenDisks x ∨ vbyte u e x = UInt8.ofNat x := by
  have h := selfTests_pass evenDisks evenDisks [0, 1] [] testLayout testVolume (by decide) (by decide) rfl rfl (by decide)
  have hio : ∀ op ∈ testOps, op.write.Succeeds ∧ op.read.Succeeds := by
    intro op hop
    rcases List.mem_pair.mp hop with rfl | rfl
    · exact ⟨IoEnv.good_succeeds, IoEnv.good_succeeds⟩
    · exact ⟨IoEnv.good_succeeds, IoEnv.good_succeeds⟩
  exact ⟨h.1 .good .good IoEnv.good_succeeds IoEnv.good_succeeds,
    h.2 testOps 64 (List.cons_ne_nil _ _) hio (by decide) (by decide)⟩

end RaidTest.Service
