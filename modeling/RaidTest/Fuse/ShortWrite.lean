import RaidTest.Fuse.Accounting
import RaidTest.Fuse.Visible

/-!
# Writes that end early

`raid_write` returns how many bytes it wrote when a chunk fails, but gives the file its new size
only after the last chunk. `raid_read` cuts its request into chunks without regard to the end of
the cached area.
-/

namespace RaidTest.Fuse
open RaidTest.Base RaidTest.Stripe RaidTest.Cache RaidTest.Mirror

/-! ### Reading -/

/-- `while (remaining > 0)` of `raid_read`: whether it ran to its end, `total_read`, the volume and the buffer. -/
def raidReadLoop (io : ℕ → IoEnv) : ℕ → ℕ → ℕ → ℕ → ℕ → System → Buf → Option (Bool × ℕ × System × Buf)
  | 0, _, _, _, total, s, out => some (true, total, s, out)
  | fuel + 1, i, curr, remaining, total, s, out =>
    if remaining = 0 then some (true, total, s, out)
    else
      let chunk := minU64 remaining maxChunk
      match stripeVolumeRead (io i) s.v s.d (out.shift total) curr chunk with
      | none => none
      | some (ok, v, d, piece) =>
        let s := { s with v := v, d := d }
        let out := out.put total chunk piece
        if ok then raidReadLoop io fuel (i + 1) (curr + chunk) (remaining - chunk) (total + chunk) s out
        else some (false, total, s, out)

/-- `raid_read`; there is no result where a chunk has none. -/
def raidRead (io : ℕ → IoEnv) (path : List Char) (buffer : Buf) (size offset : ℕ) (m : Mount) : Option (ℤ × Mount × Buf) :=
  let fileSize := ((fileNamed m.table (stripPath path)).map FileEntry.size).getD 0
  if offset ≥ fileSize then some (0, m, buffer)
  else
    let stop := minU64 (u64 (offset + size)) fileSize
    let remaining := sub64 stop offset
    match raidReadLoop io remaining 0 offset remaining 0 m.sys buffer with
    | none => none
    | some (ok, total, s, out) =>
      let done := long (u32 total)
      some (if ok = false ∧ ¬ done > 0 then eio else done, { m with sys := s }, out)

/-- No chunk of a read of `n` bytes lies on both sides of the end of the cached area. -/
def ReadAligned (v : StripeVolume) (offset n : ℕ) : Prop :=
  cacheEnd v ≤ offset ∨ (offset + n ≤ cacheEnd v ∨ maxChunk ∣ cacheEnd v - offset) ∧
    (v.raidLevel = .mirror → v.cacheFlushInProgress = false)

theorem ReadAligned.same {v w : StripeVolume} {offset n : ℕ} (h : ReadAligned v offset n) (hs : SameServed v w) :
    ReadAligned w offset n := by
  unfold ReadAligned at h ⊢
  rw [hs.cacheEnd, hs.layout.raidLevel, hs.busy]
  exact h

/-- A chunk begins at a multiple of `MAX_CHUNK` from the offset. -/
theorem ReadAligned.chunk {v : StripeVolume} {offset n j : ℕ} (h : ReadAligned v offset n) (hj : maxChunk ∣ j) :
    OneSided v (offset + j) (min (n - j) maxChunk) := by
  rcases h with hvo | ⟨hin, hbusy⟩
  · exact Or.inl (by omega)
  by_cases hpast : cacheEnd v ≤ offset + j
  · exact Or.inl hpast
  refine Or.inr ⟨?_, hbusy⟩
  rcases hin with hin | ⟨q, hq⟩
  · by_cases hjn : j ≤ n
    · omega
    · rw [Nat.sub_eq_zero_of_le (by omega), Nat.zero_min]
      omega
  · obtain ⟨k, rfl⟩ := hj
    -- the end of the cached area is at least one chunk away
    have hlt : k < q := by
      by_contra hle
      have hmul := Nat.mul_le_mul_left maxChunk (Nat.not_lt.mp hle)
      omega
    have hmul := Nat.mul_le_mul_left maxChunk hlt
    rw [Nat.mul_succ] at hmul
    omega

theorem stripeVolumeRead_end {io : IoEnv} {v w : StripeVolume} {d e : Disks} {buffer out : Buf} {vo length : ℕ}
    (h : stripeVolumeRead io v d buffer vo length = some (true, w, e, out)) : u64 (vo + length) ≤ v.virtualTotalBytes := by
  by_contra hgt
  unfold stripeVolumeRead at h
  rw [if_pos (Or.inr (Or.inl (Nat.lt_of_not_le hgt)))] at h
  cases h

/-- A read of bytes that are shown, by chunks on one side each: what it has read when it ends or fails. -/
theorem raidReadLoop_shown {v : StripeVolume} (hv : Servable v) {io : ℕ → IoEnv} {data : Buf} {offset n : ℕ}
    (hend : offset + n < 2^64) (ha : ReadAligned v offset n) (fuel : ℕ) :
    ∀ {i total total' : ℕ} {ok : Bool} {s t : System} {out out' : Buf}, n - total ≤ fuel → total ≤ n →
      (total < n → maxChunk ∣ total) → SameServed v s.v →
      (∀ j < n, offset + j < v.virtualTotalBytes → Visible s.v s.d (offset + j) (data j)) →
      (∀ j < total, out j = data j) →
      raidReadLoop io fuel i (offset + total) (n - total) total s out = some (ok, total', t, out') →
      total' ≤ n ∧ (ok = true → total' = n) ∧ ∀ j < total', out' j = data j := by
  induction fuel with
  | zero =>
    intro i total total' ok s t out out' hfuel hle _ _ _ hout h
    simp only [raidReadLoop, Option.some.injEq, Prod.mk.injEq] at h
    obtain ⟨_, rfl, _, rfl⟩ := h
    exact ⟨hle, fun _ => by omega, hout⟩
  | succ fuel ih =>
    intro i total total' ok s t out out' hfuel hle hmul hs hshow hout h
    unfold raidReadLoop at h
    split at h
    · next hdone =>
      simp only [Option.some.injEq, Prod.mk.injEq] at h
      obtain ⟨_, rfl, _, rfl⟩ := h
      exact ⟨hle, fun _ => by omega, hout⟩
    next hmore =>
    have hmax : maxChunk = 67108864 := rfl
    have hlt : total < n := by omega
    simp only [minU64_eq] at h
    have hside : OneSided s.v (offset + total) (min (n - total) maxChunk) := (ha.same hs).chunk (hmul hlt)
    have hpos : 0 < min (n - total) maxChunk := by omega
    have hrest : n - total - min (n - total) maxChunk = n - (total + min (n - total) maxChunk) := by omega
    have hnext : total + min (n - total) maxChunk < n → maxChunk ∣ total + min (n - total) maxChunk := by
      intro hlt'
      rw [Nat.min_eq_right (by omega)]
      exact Nat.dvd_add (hmul hlt) (Nat.dvd_refl _)
    have hchunk : min (n - total) maxChunk ≤ n - total := Nat.min_le_left _ _
    have hsmall : min (n - total) maxChunk < 2^32 := by omega
    generalize min (n - total) maxChunk = chunk at h hside hpos hrest hnext hchunk hsmall
    cases hr : stripeVolumeRead (io i) s.v s.d (out.shift total) (offset + total) chunk with
    | none =>
      rw [hr] at h
      cases h
    | some r =>
      obtain ⟨good, w, e, piece⟩ := r
      rw [hr] at h
      cases good with
      | false =>
        simp only [Bool.false_eq_true, if_false, Option.some.injEq, Prod.mk.injEq] at h
        obtain ⟨rfl, rfl, _, rfl⟩ := h
        refine ⟨hle, fun hf => absurd hf Bool.false_ne_true, fun j hj => ?_⟩
        rw [Buf.put_of_not_mem _ _ (by omega)]
        exact hout j hj
      | true =>
        simp only [if_true] at h
        rw [Nat.add_assoc, hrest] at h
        have htotal := hs.layout.total
        have hin := stripeVolumeRead_end hr
        rw [u64_of_lt (by omega)] at hin
        have hshown := stripeVolumeRead_shown (hs.servable hv) hsmall hpos hin hr
        have hpiece := hshown.data rfl hside (data.shift total) fun j hj => by
          have hj := hshow (total + j) (by omega) (by omega)
          rw [← Nat.add_assoc] at hj
          exact hj
        refine ih (by omega) (by omega) hnext (hs.trans hshown.same) (fun j hj htop => hshown.keep (hshow j hj htop)) ?_ h
        intro j hj
        by_cases hlo : j < total
        · rw [Buf.put_of_not_mem _ _ (by omega)]
          exact hout j hlo
        · rw [Buf.put_of_mem _ _ (by omega) hj, hpiece (j - total) (by omega), Buf.shift]
          congr 1
          omega

/-! ### Writing and reading back -/

/-- The chunk of `raid_write` that fails is the one after `total` bytes. -/
def FailsAfter (env : ℕ → ChunkEnv) (buffer : Buf) (offset len : ℕ) (s : System) (total : ℕ) : Prop :=
  ∃ t, raidWriteLoop env buffer len 0 offset len 0 s = some (false, total, t)

/-- The file ends past what was written. -/
def SizeReaches (path : List Char) (offset : ℕ) (n : ℤ) (t : Mount) : Prop :=
  ∃ e, fileNamed t.table (stripPath path) = some e ∧ offset + n ≤ e.size

/-- If all its chunks are read, `raid_read` returns the first `n` bytes of `buffer`. -/
def ReadsBack (path : List Char) (buffer : Buf) (n offset : ℕ) (t : Mount) : Prop :=
  ∀ io out total s out', raidReadLoop io n 0 offset n 0 t.sys out = some (true, total, s, out') →
    raidRead io path out n offset t = some (long (u32 n), { t with sys := s }, out') ∧ ∀ j < n, out' j = buffer j

/-- What `raid_write` says it wrote is in the file and can be read. -/
def WrittenShown (env : ℕ → ChunkEnv) (path : List Char) (buffer : Buf) (size offset : ℕ) (m : Mount) : Prop :=
  ∀ n t, raidWrite env path buffer size offset m = some (n, t) → 0 < n →
    SizeReaches path offset n t ∧ ReadsBack path buffer n.toNat offset t

/-- Wherever a chunk fails, the file of `fileSize` bytes already ended past what the call returns. -/
def CoversFailure (env : ℕ → ChunkEnv) (buffer : Buf) (size offset fileSize : ℕ) (m : Mount) : Prop :=
  offset < m.sys.v.virtualTotalBytes → ∀ total, FailsAfter env buffer offset (writeLength m size offset) m.sys total →
    0 < long (u32 total) → offset + long (u32 total) ≤ fileSize

/-- No chunk of a read of what the call says it wrote crosses the end of the cached area, wherever the write ends. -/
def EndsAligned (env : ℕ → ChunkEnv) (buffer : Buf) (size offset : ℕ) (m : Mount) : Prop :=
  offset < m.sys.v.virtualTotalBytes → ∀ ok total t,
    raidWriteLoop env buffer (writeLength m size offset) 0 offset (writeLength m size offset) 0 m.sys = some (ok, total, t) →
      0 < long (u32 total) → ReadAligned m.sys.v offset (long (u32 total)).toNat

theorem readsBack_of_shown {t : Mount} (hv : Servable t.sys.v) {path : List Char} {buffer : Buf} {n offset : ℕ}
    (hn : 0 < n) (hend : offset + n ≤ t.sys.v.virtualTotalBytes) (ha : ReadAligned t.sys.v offset n)
    (hsize : SizeReaches path offset n t)
    (hshow : ∀ j < n, Visible t.sys.v t.sys.d (offset + j) (buffer j)) : ReadsBack path buffer n offset t := by
  intro io out total s out' h
  have htop := hv.total
  obtain ⟨_, hall, hbytes⟩ := raidReadLoop_shown hv (by omega) ha n (Nat.sub_le _ _) (Nat.zero_le _)
    (fun _ => Nat.dvd_zero _) (SameServed.refl _) (fun j hj _ => hshow j hj) (fun j hj => absurd hj (Nat.not_lt_zero _)) h
  obtain rfl := hall rfl
  refine ⟨?_, hbytes⟩
  obtain ⟨e, he, hle⟩ := hsize
  have hrem : sub64 (minU64 (u64 (offset + total)) e.size) offset = total := by
    rw [minU64_eq, u64_of_lt (by omega), sub64_of_le (by omega) (by omega)]
    omega
  unfold raidRead
  simp only [he, Option.map_some, Option.getD_some, hrem, h]
  rw [if_neg (by omega)]
  simp only [Bool.true_eq_false, false_and, if_false]

theorem writeLength_eq {m : Mount} {size offset : ℕ} (htotal : m.sys.v.virtualTotalBytes ≤ 2^63) (hsize : size < 2^63)
    (hin : offset < m.sys.v.virtualTotalBytes) :
    writeLength m size offset = min size (m.sys.v.virtualTotalBytes - offset) := by
  unfold writeLength
  rw [minU64_eq, u64_of_lt (by omega), sub64_of_le (by omega) (by omega)]
  omega

/-- The size of a file after a write. -/
theorem raidWritten_size {path : List Char} {m : Mount} {e : FileEntry} (hp : stripPath path ≠ [])
    (he : fileNamed m.table (stripPath path) = some e) (offset : ℕ) (ok : Bool) (total : ℕ) (s : System) :
    ∃ e', fileNamed (raidWritten path offset m ok total s).2.table (stripPath path) = some e' ∧
      e'.size = if ok = true ∧ 0 < total then max e.size (u64 (offset + total)) else e.size := by
  rw [(raidWritten_consumed path offset m ok total s).2.2]
  by_cases hgrow : ok = true ∧ 0 < total
  · rw [if_pos ⟨hgrow.1, hp, hgrow.2⟩, if_pos hgrow, fileNamed_growFile, he, Option.map_some]
    refine ⟨_, rfl, ?_⟩
    split
    · show u64 (offset + total) = max e.size (u64 (offset + total))
      omega
    · show e.size = max e.size (u64 (offset + total))
      omega
  · rw [if_neg fun hc => hgrow ⟨hc.1, hc.2.2⟩, if_neg hgrow]
    exact ⟨e, he, rfl⟩

theorem raidWriteLoop_shown {s t : System} (hv : Servable s.v) {env : ℕ → ChunkEnv} {buffer : Buf} {offset len : ℕ}
    (hend : offset + len ≤ s.v.virtualTotalBytes) {ok : Bool} {total : ℕ}
    (h : raidWriteLoop env buffer len 0 offset len 0 s = some (ok, total, t)) :
    Shown s.v s.d buffer offset len total t := by
  have hwritten : Written env buffer offset len (Shown s.v s.d buffer offset len) ok total t :=
    raidWriteLoop_rule (fun _ _ _ _ _ hs hlt hc => raidWriteChunk_shown hv hend hs hlt hc) len
      (Shown.start s.v s.d buffer offset len rfl rfl) (Nat.zero_le _) (Nat.le_refl _) h
  exact hwritten.holds

/-- The file is long enough after the call exactly when it already was at the point of failure. -/
theorem raidWrite_reaches {m : Mount} {path : List Char} {e : FileEntry} (hv : Servable m.sys.v)
    (hp : stripPath path ≠ []) (he : fileNamed m.table (stripPath path) = some e) (env : ℕ → ChunkEnv) (buffer : Buf)
    {size offset : ℕ} (hsize : size < 2^63) (hin : offset < m.sys.v.virtualTotalBytes) :
    (∀ n t, raidWrite env path buffer size offset m = some (n, t) → 0 < n → SizeReaches path offset n t) ↔
      ∀ total, FailsAfter env buffer offset (writeLength m size offset) m.sys total → 0 < long (u32 total) →
        offset + long (u32 total) ≤ e.size := by
  have htotal := hv.total
  have hlen := writeLength_eq htotal hsize hin
  rw [raidWrite_length hin]
  generalize writeLength m size offset = len at hlen
  constructor
  · rintro h total ⟨s, hloop⟩ hpos
    have hr := h (raidWritten path offset m false total s).1 (raidWritten path offset m false total s).2
      (by rw [hloop, Option.map_some])
    rw [raidWritten_result, if_neg fun hc => hc.2 hpos] at hr
    obtain ⟨e1, he1, hle⟩ := hr hpos
    obtain ⟨e2, he2, hs⟩ := raidWritten_size hp he offset false total s
    rw [he1] at he2
    obtain rfl := Option.some.inj he2
    rw [hs, if_neg fun hc => Bool.false_ne_true hc.1] at hle
    exact hle
  · intro h n t hw hpos
    obtain ⟨⟨ok, total, s⟩, hloop, hr⟩ := Option.map_eq_some_iff.mp hw
    simp only at hr
    have hle := (raidWriteLoop_total hloop).1
    obtain ⟨e1, he1, hs⟩ := raidWritten_size hp he offset ok total s
    have hn := raidWritten_result path offset m ok total s
    rw [hr] at hn he1
    simp only at hn he1
    have hlong := long_le total
    refine ⟨e1, he1, ?_⟩
    rw [hs]
    cases ok with
    | true =>
      rw [if_neg fun hc => Bool.true_eq_false.mp hc.1] at hn
      have hpos' : 0 < total := by omega
      rw [if_pos ⟨rfl, hpos'⟩, u64_of_lt (by omega), hn]
      have hmax := Nat.le_max_right e.size (offset + total)
      omega
    | false =>
      rw [if_neg fun hc => Bool.false_ne_true hc.1]
      by_cases hneg : 0 < long (u32 total)
      · rw [if_neg fun hc => hc.2 hneg] at hn
        rw [hn]
        exact h total ⟨s, hloop⟩ hneg
      · rw [if_pos ⟨rfl, hneg⟩] at hn
        rw [hn] at hpos
        exact absurd hpos (by decide)

/-- The bytes come back when the file is long enough and no chunk of the read crosses the border. -/
theorem raidWrite_readsBack {m t : Mount} {path : List Char} (hv : Servable m.sys.v) (env : ℕ → ChunkEnv)
    (buffer : Buf) {size offset : ℕ} (hsize : size < 2^63) (hin : offset < m.sys.v.virtualTotalBytes)
    (halign : EndsAligned env buffer size offset m) {n : ℤ}
    (hw : raidWrite env path buffer size offset m = some (n, t)) (hpos : 0 < n) (hreach : SizeReaches path offset n t) :
    ReadsBack path buffer n.toNat offset t := by
  have htotal := hv.total
  have hlen := writeLength_eq htotal hsize hin
  have halign := halign hin
  rw [raidWrite_length hin] at hw
  generalize writeLength m size offset = len at hlen hw halign
  have hend : offset + len ≤ m.sys.v.virtualTotalBytes := by omega
  obtain ⟨⟨ok, total, s⟩, hloop, hr⟩ := Option.map_eq_some_iff.mp hw
  simp only at hr
  have hle := (raidWriteLoop_total hloop).1
  have hsys := raidWritten_sys path offset m ok total s
  have hn := raidWritten_result path offset m ok total s
  rw [hr] at hn hsys
  simp only at hn hsys
  have hlong : n = long (u32 total) := by
    rw [hn]
    split
    · next hfail =>
      rw [if_pos hfail] at hn
      rw [hn] at hpos
      exact absurd hpos (by decide)
    · rfl
  have hle' := long_le total
  have hread := halign ok total s hloop (hlong ▸ hpos)
  rw [← hlong] at hread
  have hshown := raidWriteLoop_shown hv hend hloop
  rw [← hsys] at hshown
  refine readsBack_of_shown (hshown.same.servable hv) (by omega) ?_ (hread.same hshown.same) ?_ ?_
  · rw [hshown.same.layout.total]
    omega
  · rw [Int.toNat_of_nonneg (by omega)]
    exact hreach
  · intro j hj
    have hbyte := hshown.data (offset + j) (by omega) (by omega)
    rw [Nat.add_sub_cancel_left] at hbyte
    exact hbyte

theorem raidWrite_beyond {m : Mount} {offset : ℕ} (hin : ¬ offset < m.sys.v.virtualTotalBytes) {env : ℕ → ChunkEnv}
    {path : List Char} {buffer : Buf} {size : ℕ} {n : ℤ} {t : Mount}
    (hw : raidWrite env path buffer size offset m = some (n, t)) : ¬ 0 < n := by
  unfold raidWrite at hw
  rw [if_pos (Nat.not_lt.mp hin)] at hw
  obtain ⟨rfl, _⟩ := Prod.mk.inj (Option.some.inj hw)
  exact Int.lt_irrefl 0

/-- A write leaves the file long enough exactly when no chunk fails or the file was long enough before. Then the bytes
come back, if no chunk of the read of them crosses the end of the cached area. -/
theorem raidWrite_short {m : Mount} {path : List Char} {e : FileEntry} (hv : Servable m.sys.v) (hp : stripPath path ≠ [])
    (he : fileNamed m.table (stripPath path) = some e) (env : ℕ → ChunkEnv) (buffer : Buf) {size offset : ℕ}
    (hsize : size < 2^63) :
    ((∀ n t, raidWrite env path buffer size offset m = some (n, t) → 0 < n → SizeReaches path offset n t) ↔
      CoversFailure env buffer size offset e.size m) ∧
    (CoversFailure env buffer size offset e.size m →
      EndsAligned env buffer size offset m → WrittenShown env path buffer size offset m) := by
  unfold CoversFailure WrittenShown
  by_cases hin : offset < m.sys.v.virtualTotalBytes
  · have hreach := raidWrite_reaches hv hp he env buffer hsize hin
    refine ⟨hreach.trans ⟨fun h _ => h, fun h => h hin⟩, fun hcover halign n t hw hpos => ?_⟩
    have hcov := hreach.mpr (hcover hin) n t hw hpos
    exact ⟨hcov, raidWrite_readsBack hv env buffer hsize hin halign hw hpos hcov⟩
  · exact ⟨⟨fun _ hin' => absurd hin' hin, fun _ n t hw hpos => absurd hpos (raidWrite_beyond hin hw)⟩,
      fun _ _ n t hw hpos => absurd hpos (raidWrite_beyond hin hw)⟩

/-- A file of ten bytes on the small volume, whose cache is empty. -/
def tenBytes : Mount := ⟨pairSystem, [⟨['f'], false, 10⟩], 0, 0⟩

def smoothEnv : ℕ → ChunkEnv := fun _ => ⟨fun _ => .good, .good⟩

theorem pairSystem_servable : Servable pairSystem.v where
  stripe := fun _ => pairCached_ok.ready
  mirror := fun h => by cases h
  total := by decide
  cache := fun _ => pairCached_ok.cache

/-- No event can be created for a transfer. -/
def halfEnv : ℕ → ChunkEnv := fun _ => ⟨fun _ => .good, { IoEnv.good with event := false }⟩

/-- A file that goes on behind the cached area. -/
def longFile : Mount := ⟨pairSystem, [⟨['f'], false, 200000⟩], 0, 0⟩

/-- The first of two bytes goes into the cache, the second past its end, where it fails. -/
theorem raidWrite_short_sample : (∃ t, raidWrite halfEnv ['/', 'f'] (fun _ => 9) 2 131071 longFile = some (1, t)) ∧
    WrittenShown halfEnv ['/', 'f'] (fun _ => 9) 2 131071 longFile := by
  have hlen : writeLength longFile 2 131071 = 2 := by decide
  refine ⟨?_, (raidWrite_short pairSystem_servable (e := ⟨['f'], false, 200000⟩) (by decide) rfl halfEnv (fun _ => 9)
    (by decide)).2 ?_ ?_⟩
  · have hrun : (raidWrite halfEnv ['/', 'f'] (fun _ => 9) 2 131071 longFile).map Prod.fst = some 1 := by decide +kernel
    obtain ⟨⟨n, t⟩, hw, rfl⟩ := Option.map_eq_some_iff.mp hrun
    exact ⟨t, hw⟩
  · rintro _ total ⟨s, hloop⟩ _
    have hle := (raidWriteLoop_total hloop).1
    have hlong := long_le total
    simp only
    omega
  · intro _ ok total t hloop _
    have hone : (raidWriteLoop halfEnv (fun _ => 9) 2 0 131071 2 0 longFile.sys).map (fun r => r.2.1) = some 1 := by
      decide +kernel
    rw [hlen] at hloop
    rw [hloop] at hone
    obtain rfl := Option.some.inj hone
    exact Or.inr ⟨Or.inl (by decide), fun h => by cases h⟩

/-- Two bytes are written around the end of the cached area. If the second chunk fails, the call returns 1 and the file
is as long as before. If nothing fails, the read takes the first byte from the members, where it never was. -/
theorem raidWrite_short_fails :
    (∃ t, raidWrite (fun _ => ⟨fun _ => .good, { IoEnv.good with event := false }⟩) ['/', 'f'] (fun _ => 9) 2 131071 tenBytes =
        some (1, t) ∧ ¬ SizeReaches ['/', 'f'] 131071 1 t) ∧
      ∃ t, raidWrite smoothEnv ['/', 'f'] (fun _ => 9) 2 131071 tenBytes = some (2, t) ∧
        SizeReaches ['/', 'f'] 131071 2 t ∧ ¬ ReadsBack ['/', 'f'] (fun _ => 9) 2 131071 t := by
  constructor
  · have hrun : (raidWrite (fun _ => ⟨fun _ => .good, { IoEnv.good with event := false }⟩) ['/', 'f'] (fun _ => 9) 2 131071
        tenBytes).map (fun r => (r.1, r.2.table)) = some (1, [⟨['f'], false, 10⟩]) := by
      decide +kernel
    obtain ⟨⟨n, t⟩, hw, he⟩ := Option.map_eq_some_iff.mp hrun
    simp only [Prod.mk.injEq] at he
    obtain ⟨rfl, htable⟩ := he
    refine ⟨t, hw, ?_⟩
    rintro ⟨e, hf, hle⟩
    rw [htable] at hf
    obtain rfl := Option.some.inj hf
    exact absurd hle (by decide)
  · have hrun : (raidWrite smoothEnv ['/', 'f'] (fun _ => 9) 2 131071 tenBytes).bind (fun r =>
        (raidReadLoop (fun _ => .good) 2 0 131071 2 0 r.2.sys fun _ => 0).map fun x =>
          (r.1, r.2.table, x.1, x.2.2.2 0)) = some (2, [⟨['f'], false, 131073⟩], true, 7) := by
      decide +kernel
    obtain ⟨⟨n, t⟩, hw, hr⟩ := Option.bind_eq_some_iff.mp hrun
    obtain ⟨⟨ok, total, s, out⟩, hloop, he⟩ := Option.map_eq_some_iff.mp hr
    simp only [Prod.mk.injEq] at he
    obtain ⟨rfl, htable, rfl, hbyte⟩ := he
    refine ⟨t, hw, ⟨⟨['f'], false, 131073⟩, by rw [htable]; rfl, by decide⟩, fun hback => ?_⟩
    have h0 := (hback _ _ _ _ _ hloop).2 0 (by decide)
    rw [hbyte] at h0
    exact absurd h0 (by decide)

end RaidTest.Fuse
