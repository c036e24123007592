import RaidTest.Stripe.Submit
import RaidTest.Mirror.Engine

/-!
# Reading and writing a volume (`stripe_volume_read`, `stripe_volume_write`)

Both entry points serve mirrors through the mirror engine. On a stripe volume a
read tries the cache and falls back to the members, a write goes to the cache
when the cache covers its range and no flush is running, else to the members.
-/

namespace RaidTest.Stripe
open RaidTest.Base RaidTest.Cache RaidTest.Mirror

def addRead (v : StripeVolume) (ok : Bool) (length : ℕ) : StripeVolume :=
  if ok then { v with bytesRead := u64 (v.bytesRead + length) } else v

def addWritten (v : StripeVolume) (ok : Bool) (length : ℕ) : StripeVolume :=
  if ok then { v with bytesWritten := u64 (v.bytesWritten + length) } else v

/-- The tail of `stripe_volume_read`: the transfers of a mapped request. -/
def readDirect (io : IoEnv) (v : StripeVolume) (d : Disks) (buffer : Buf) (vo length : ℕ) :
    Option (Bool × StripeVolume × Disks × Buf) :=
  match mapLba v vo length with
  | none => some (false, v, d, buffer)
  | some entries =>
    match submitEntries io d v entries buffer .read with
    | none => none
    | some (ok, d, out) => some (ok, addRead v ok length, d, out)

/-- The direct path of `stripe_volume_write`. -/
def writeDirect (io : IoEnv) (v : StripeVolume) (d : Disks) (buffer : Buf) (vo length : ℕ) :
    Option (Bool × StripeVolume × Disks) :=
  match mapLba v vo length with
  | none => some (false, v, d)
  | some entries =>
    match submitEntries io d v entries buffer .write with
    | none => none
    | some (ok, d, _) => some (ok, addWritten v ok length, d)

/-- `stripe_volume_read`. -/
def stripeVolumeRead (io : IoEnv) (v : StripeVolume) (d : Disks) (buffer : Buf) (vo length : ℕ) :
    Option (Bool × StripeVolume × Disks × Buf) :=
  if length = 0 ∨ u64 (vo + length) > v.virtualTotalBytes ∨ v.checkDisks = false then
    some (false, v, d, buffer)
  else if v.raidLevel = .mirror then
    let (ok, v, d, out) := mirrorVolumeRead io v d buffer vo length
    some (ok, addRead v ok length, d, out)
  else if v.cacheEnabled ∧ u64 (vo + length) ≤ v.cache.cacheSizeBytes then
    match cacheRead v.cache buffer vo length with
    | (true, out, cache) => some (true, addRead { v with cache := cache } true length, d, out)
    | (false, out, cache) => readDirect io { v with cache := cache } d out vo length
  else readDirect io v d buffer vo length

/-- The cached path of `stripe_volume_write`. -/
def writeCached (io : IoEnv) (v : StripeVolume) (d : Disks) (buffer : Buf) (vo length : ℕ) :
    Option (Bool × StripeVolume × Disks) :=
  if v.cache.writeThrough then
    match mapLba v vo length with
    | none => some (false, v, d)
    | some entries =>
      match submitEntries io d v entries buffer .write with
      | none => none
      | some (false, d, _) => some (false, v, d)
      | some (true, d, _) =>
        let (ok, cache) := cacheWrite v.cache buffer vo length
        some (ok, addWritten { v with cache := cache } ok length, d)
  else
    let (ok, cache) := cacheWrite v.cache buffer vo length
    some (ok, addWritten { v with cache := cache } ok length, d)

/-- `stripe_volume_write`. -/
def stripeVolumeWrite (io : IoEnv) (v : StripeVolume) (d : Disks) (buffer : Buf) (vo length : ℕ) :
    Option (Bool × StripeVolume × Disks) :=
  if length = 0 ∨ u64 (vo + length) > v.virtualTotalBytes ∨ v.checkDisks = false then
    some (false, v, d)
  else if v.raidLevel = .mirror then
    let (ok, v, d) := mirrorVolumeWrite io v d buffer vo length
    some (ok, addWritten v ok length, d)
  else if v.cacheEnabled ∧ v.cacheFlushInProgress = false ∧
      u64 (vo + length) ≤ v.cache.cacheSizeBytes then
    writeCached io v d buffer vo length
  else writeDirect io v d buffer vo length

/-! ### Counters do not matter -/

theorem sameLayout_addRead (v : StripeVolume) (ok : Bool) (length : ℕ) :
    SameLayout v (addRead v ok length) := by
  unfold addRead
  split <;> exact ⟨rfl, rfl, rfl, rfl, rfl, rfl, rfl, rfl⟩

theorem sameLayout_addWritten (v : StripeVolume) (ok : Bool) (length : ℕ) :
    SameLayout v (addWritten v ok length) := by
  unfold addWritten
  split <;> exact ⟨rfl, rfl, rfl, rfl, rfl, rfl, rfl, rfl⟩

theorem sameLayout_cache (v : StripeVolume) (c : RamCache) : SameLayout v { v with cache := c } :=
  ⟨rfl, rfl, rfl, rfl, rfl, rfl, rfl, rfl⟩

@[simp] theorem addRead_cache (v : StripeVolume) (ok : Bool) (length : ℕ) :
    (addRead v ok length).cache = v.cache := by
  unfold addRead
  split <;> rfl

@[simp] theorem addWritten_cache (v : StripeVolume) (ok : Bool) (length : ℕ) :
    (addWritten v ok length).cache = v.cache := by
  unfold addWritten
  split <;> rfl

@[simp] theorem addRead_cacheEnabled (v : StripeVolume) (ok : Bool) (length : ℕ) :
    (addRead v ok length).cacheEnabled = v.cacheEnabled := by
  unfold addRead
  split <;> rfl

@[simp] theorem addWritten_cacheEnabled (v : StripeVolume) (ok : Bool) (length : ℕ) :
    (addWritten v ok length).cacheEnabled = v.cacheEnabled := by
  unfold addWritten
  split <;> rfl

@[simp] theorem addRead_flush (v : StripeVolume) (ok : Bool) (length : ℕ) :
    (addRead v ok length).cacheFlushInProgress = v.cacheFlushInProgress := by
  unfold addRead
  split <;> rfl

@[simp] theorem addWritten_flush (v : StripeVolume) (ok : Bool) (length : ℕ) :
    (addWritten v ok length).cacheFlushInProgress = v.cacheFlushInProgress := by
  unfold addWritten
  split <;> rfl

/-! ### The direct paths -/

/-- Every mapping of the range needs at most as many entries as `submit_entries` takes. -/
def Fits (v : StripeVolume) (vo length : ℕ) : Prop :=
  ∀ es, mapLba v vo length = some es → es.length ≤ ioRingSize

theorem mapLba_beyond {v : StripeVolume} {vo length : ℕ} (hv : v.virtualTotalBytes ≤ vo) :
    mapLba v vo length = none := by
  unfold mapLba
  rw [if_pos (Or.inr hv)]

section Direct
variable {v : StripeVolume} (h : Ready v) {vo length : ℕ}
include h

theorem writeDirect_spec (io : IoEnv) (d : Disks) (buffer : Buf) (hl : length < 2^32)
    (hend : vo + length ≤ v.virtualTotalBytes) (hfit : Fits v vo length) :
    ∃ ok d', writeDirect io v d buffer vo length = some (ok, addWritten v ok length, d') ∧
      (ok = true → ∀ x, vo ≤ x → x < vo + length → vbyte v d' x = buffer (x - vo)) ∧
      (∀ x < v.virtualTotalBytes, x < vo ∨ vo + length ≤ x → vbyte v d' x = vbyte v d x) ∧
      (io.Succeeds → ok = (mapLba v vo length).isSome) := by
  unfold writeDirect
  cases hm : mapLba v vo length with
  | none => exact ⟨false, d, rfl, fun hf => absurd hf (by decide), fun _ _ _ => rfl, fun _ => rfl⟩
  | some es =>
    obtain ⟨hpos, _, _, hdi⟩ := mapLba_spec h.laid hl hm
    have hc := mapLba_covers h.laid hl hend hm
    have hne : es ≠ [] := by
      rintro rfl
      have he : vo = vo + length := hc
      omega
    cases hev : io.event with
    | false =>
      refine ⟨false, d, ?_, fun hf => absurd hf (by decide), fun _ _ _ => rfl, fun hs => ?_⟩
      · have hsub := submitEntries_eq h hne (hfit es hm) hdi io d buffer .write
        simp only [hev, ite_true] at hsub
        simp only [hsub]
      · rw [hs.1] at hev
        cases hev
    | true =>
      obtain ⟨d', hsub, hw⟩ := submitEntries_write h hc hne hdi hend (hfit es hm) io hev d buffer
      refine ⟨io.allOk es.length, d', ?_, fun hok x h1 h2 => hw.data hok h1 h2,
        fun x hx hout => vbyte_frame h.laid h.members hw.outside hend hx hout, fun hs => ?_⟩
      · simp only [hsub]
      · exact (io.allOk_iff _).mpr fun i _ => hs.2 i

theorem readDirect_spec (io : IoEnv) (d : Disks) (buffer : Buf) (hl : length < 2^32)
    (hend : vo + length ≤ v.virtualTotalBytes) (hfit : Fits v vo length) :
    ∃ ok d' out, readDirect io v d buffer vo length = some (ok, addRead v ok length, d', out) ∧
      d'.pool = d.pool ∧ (ok = true → ∀ i < length, out i = vbyte v d (vo + i)) ∧
      (io.Succeeds → ok = (mapLba v vo length).isSome) := by
  unfold readDirect
  cases hm : mapLba v vo length with
  | none => exact ⟨false, d, buffer, rfl, rfl, fun hf => absurd hf (by decide), fun _ => rfl⟩
  | some es =>
    obtain ⟨hpos, _, _, hdi⟩ := mapLba_spec h.laid hl hm
    have hc := mapLba_covers h.laid hl hend hm
    have hne : es ≠ [] := by
      rintro rfl
      have he : vo = vo + length := hc
      omega
    cases hev : io.event with
    | false =>
      refine ⟨false, d, buffer, ?_, rfl, fun hf => absurd hf (by decide), fun hs => ?_⟩
      · have hsub := submitEntries_eq h hne (hfit es hm) hdi io d buffer .read
        simp only [hev, ite_true] at hsub
        simp only [hsub]
      · rw [hs.1] at hev
        cases hev
    | true =>
      obtain ⟨d', out, hsub, hpool, hr⟩ := submitEntries_read h hc hne hdi (hfit es hm) io hev d buffer
      refine ⟨io.allOk es.length, d', out, ?_, hpool, fun hok i hi => hr hok i (by omega), fun hs => ?_⟩
      · simp only [hsub]
      · exact (io.allOk_iff _).mpr fun i _ => hs.2 i

/-! ### The entry points on a stripe volume -/

theorem u64_end (hend : vo + length ≤ v.virtualTotalBytes) : u64 (vo + length) = vo + length := by
  have ht := h.laid.total_le
  exact u64_of_lt (by omega)

/-- A range that wraps around passes the bounds check, but starts beyond the volume. -/
theorem beyond_of_wrap (hl : length < 2^32) (hpos : 0 < length)
    (hn : ¬ vo + length ≤ v.virtualTotalBytes) (hu : u64 (vo + length) ≤ v.virtualTotalBytes) :
    v.virtualTotalBytes ≤ vo := by
  have ht := h.laid.total_le
  unfold u64 at hu
  omega

theorem stripeVolumeWrite_eq (hs : v.raidLevel = .stripe) (io : IoEnv) (d : Disks) (buffer : Buf)
    (hpos : 0 < length) (hend : vo + length ≤ v.virtualTotalBytes) :
    stripeVolumeWrite io v d buffer vo length =
      if v.cacheEnabled ∧ v.cacheFlushInProgress = false ∧ vo + length ≤ v.cache.cacheSizeBytes then
        writeCached io v d buffer vo length
      else writeDirect io v d buffer vo length := by
  unfold stripeVolumeWrite
  rw [u64_end h hend, if_neg (by
    rintro (h1 | h1 | h1)
    · omega
    · omega
    · rw [h.members.checkDisks] at h1
      cases h1), if_neg (by rw [hs]; decide)]

theorem stripeVolumeRead_eq (hs : v.raidLevel = .stripe) (io : IoEnv) (d : Disks) (buffer : Buf)
    (hpos : 0 < length) (hend : vo + length ≤ v.virtualTotalBytes) :
    stripeVolumeRead io v d buffer vo length =
      if v.cacheEnabled ∧ vo + length ≤ v.cache.cacheSizeBytes then
        match cacheRead v.cache buffer vo length with
        | (true, out, cache) => some (true, addRead { v with cache := cache } true length, d, out)
        | (false, out, cache) => readDirect io { v with cache := cache } d out vo length
      else readDirect io v d buffer vo length := by
  unfold stripeVolumeRead
  rw [u64_end h hend, if_neg (by
    rintro (h1 | h1 | h1)
    · omega
    · omega
    · rw [h.members.checkDisks] at h1
      cases h1), if_neg (by rw [hs]; decide)]

end Direct

end RaidTest.Stripe
