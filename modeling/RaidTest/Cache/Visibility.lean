import RaidTest.Cache.Access

/-!
# Dirty bytes and reads

A read is served from the cache as a whole or from the members as a whole. One
block that is not valid, or an end beyond the cache, sends the whole read to the
members, past the dirty blocks it also touches.
-/

namespace RaidTest.Cache
open RaidTest.Base RaidTest.Stripe

/-- A read that returns true shows every dirty byte of its range if and only if the cache
serves it, or the members already hold those bytes. -/
theorem stripeVolumeRead_dirty (io : IoEnv) (v : StripeVolume) (d : Disks) (buffer : Buf)
    (vo length : ℕ) (h : CachedVolume v) (hl : length < 2^32) (hpos : 0 < length)
    (hend : vo + length ≤ v.virtualTotalBytes) :
    (∀ w d' out, stripeVolumeRead io v d buffer vo length = some (true, w, d', out) →
        ∀ i < length, DirtyByte v (vo + i) → out i = v.cache.buffer (vo + i)) ↔
      (Hit v vo length ∨ ¬ Answered io v vo length ∨
        ∀ i < length, DirtyByte v (vo + i) → vbyte v d (vo + i) = v.cache.buffer (vo + i)) := by
  by_cases hh : Hit v vo length
  · refine ⟨fun _ => Or.inl hh, fun _ w d' out hr i hi _ => ?_⟩
    exact ((read_some h io d buffer hl hpos hend hr).hit hh).2 i hi
  · obtain ⟨hits, misses, he⟩ := read_miss h io d buffer hl hpos hend hh
    have hsame := sameLayout_cache v { v.cache with hitCount := hits, missCount := misses }
    have hiff := readDirect_true_iff (hsame.ready h.ready) io d buffer vo hl
      (by rw [hsame.total]; exact hend)
    have hans : Answered io { v with cache := { v.cache with hitCount := hits, missCount := misses } }
        vo length ↔ Answered io v vo length := by
      unfold Answered
      rw [hsame.mapLba]
    constructor
    · intro hall
      by_cases ha : Answered io v vo length
      · obtain ⟨w, d', out, hr⟩ := hiff.mpr (hans.mpr ha)
        rw [← he] at hr
        have hdone := read_some h io d buffer hl hpos hend hr
        refine Or.inr (Or.inr fun i hi hd => ?_)
        rw [← hdone.miss hh rfl i hi]
        exact hall w d' out hr i hi hd
      · exact Or.inr (Or.inl ha)
    · rintro (hy | ha | hb) w d' out hr i hi hd
      · exact absurd hy hh
      · exact absurd (hans.mp (hiff.mp ⟨w, d', out, he ▸ hr⟩)) ha
      · rw [(read_some h io d buffer hl hpos hend hr).miss hh rfl i hi]
        exact hb i hi hd

/-- Block 1 written whole into a fresh cache, block 0 never cached. -/
def blockOneWritten : StripeVolume :=
  { pairCached with cache := (cacheWrite pairCached.cache (fun _ => 9) 65536 65536).2 }

theorem blockOneWritten_ok : CachedVolume blockOneWritten :=
  pairCached_ok.of_same (sameLayout_cache _ _) (pairCached_ok.cache.write _ _ _) rfl

/-- Two bytes around the border of the blocks: the second is dirty with value 9, and the
read returns true with the member's value instead. -/
theorem stripeVolumeRead_dirty_fails :
    stripeVolumeWrite .good pairCached pairDisks (fun _ => 9) 65536 65536 =
        some (true, addWritten blockOneWritten true 65536, pairDisks) ∧
      DirtyByte blockOneWritten 65536 ∧ blockOneWritten.cache.buffer 65536 = 9 ∧
      ∃ w d' out, stripeVolumeRead .good blockOneWritten pairDisks (fun _ => 0) 65535 2 =
        some (true, w, d', out) ∧ out 1 = 8 :=
  ⟨rfl, by decide, by decide, _, _, _, rfl, by decide⟩

theorem stripeVolumeRead_dirty_sample :
    (∀ w d' out, stripeVolumeRead .good blockOneWritten pairDisks (fun _ => 0) 65535 2 =
        some (true, w, d', out) →
        ∀ i < 2, DirtyByte blockOneWritten (65535 + i) →
          out i = blockOneWritten.cache.buffer (65535 + i)) ↔
      (Hit blockOneWritten 65535 2 ∨ ¬ Answered .good blockOneWritten 65535 2 ∨
        ∀ i < 2, DirtyByte blockOneWritten (65535 + i) →
          vbyte blockOneWritten pairDisks (65535 + i) = blockOneWritten.cache.buffer (65535 + i)) :=
  stripeVolumeRead_dirty .good blockOneWritten pairDisks (fun _ => 0) 65535 2 blockOneWritten_ok
    (by decide) (by decide) (by decide)

end RaidTest.Cache
