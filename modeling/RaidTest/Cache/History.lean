import RaidTest.Cache.Packed

/-!
# What the bitmaps mean

A run of calls on a cache from `cache_init`. The valid bit of a block says that an accepted
write has touched it since the last accepted invalidation that covers it, and the bytes
written since are there.
-/

namespace RaidTest.Cache
open RaidTest.Base

/-! ### Calls and their history -/

inductive CacheCall where
  | write (data : Buf) (offset length : ℕ)
  | read (data : Buf) (offset length : ℕ)
  | invalidate (offset length : ℕ)
  | clear (b run : ℕ)

/-- Offsets are `uint64_t` and lengths `uint32_t`. -/
def CacheCall.Typed : CacheCall → Prop
  | .write _ offset length => offset < 2^64 ∧ length < 2^32
  | .read _ offset length => offset < 2^64 ∧ length < 2^32
  | .invalidate offset length => offset < 2^64 ∧ length < 2^32
  | .clear _ _ => True

def CacheCall.apply (c : PackedCache) : CacheCall → PackedCache
  | .write data offset length => (packedWrite c data offset length).2
  | .read data offset length => (packedRead c data offset length).2.2
  | .invalidate offset length => packedInvalidate c offset length
  | .clear b run => packedClear c b run

def runCalls (c : PackedCache) (calls : List CacheCall) : PackedCache := calls.foldl CacheCall.apply c

/-- A call on the range is accepted: it has bytes and lies in the cache. -/
def Accepted (size offset length : ℕ) : Prop := 0 < length ∧ offset + length ≤ size

/-- An accepted write that touches block `b`. -/
def CacheCall.Marks (size b : ℕ) : CacheCall → Prop
  | .write _ offset length => Accepted size offset length ∧ Touches offset length b
  | _ => False

/-- An accepted invalidation that covers block `b`. -/
def CacheCall.Drops (size b : ℕ) : CacheCall → Prop
  | .invalidate offset length => Accepted size offset length ∧ Touches offset length b
  | _ => False

/-- An accepted write that puts `val` at byte `x`. -/
def CacheCall.Stores (size x : ℕ) (val : Byte) : CacheCall → Prop
  | .write data offset length => Accepted size offset length ∧ offset ≤ x ∧ x < offset + length ∧ data (x - offset) = val
  | _ => False

/-- An accepted write over byte `x`, or an accepted invalidation of its block. -/
def CacheCall.Replaces (size x : ℕ) : CacheCall → Prop
  | .write _ offset length => Accepted size offset length ∧ offset ≤ x ∧ x < offset + length
  | .invalidate offset length => Accepted size offset length ∧ Touches offset length (x / 65536)
  | _ => False

/-! ### One call -/

section Call
variable {c : PackedCache} (h : CacheOk c.ram) {offset length : ℕ}
include h

theorem packedWrite_rejected (hl : length < 2^32) (hn : ¬ Accepted c.cacheSizeBytes offset length) (data : Buf) :
    packedWrite c data offset length = (false, c) := by
  unfold packedWrite
  rw [if_neg fun hi => hn ((inCache_iff h hl).mp hi)]

theorem packedWrite_accepted (hl : length < 2^32) (ha : Accepted c.cacheSizeBytes offset length) (data : Buf) :
    (packedWrite c data offset length).1 = true ∧
      (packedWrite c data offset length).2.ram = { c.ram with
        buffer := c.buffer.put offset length data
        dirtyMap := fun b => c.dirtyMap.bit b || decide (Touches offset length b)
        validMap := fun b => c.validMap.bit b || decide (Touches offset length b) } := by
  have hram := packedWrite_ram c data offset length
  rw [cacheWrite_spec h data hl ha.1 ha.2] at hram
  obtain ⟨h1, h2⟩ := Prod.mk.inj hram
  exact ⟨h1.symm, h2.symm⟩

/-- A range that wraps passes the guard of `cache_invalidate`, but no block is in it. -/
theorem packedInvalidate_rejected (ho : offset < 2^64) (hl : length < 2^32)
    (hn : ¬ Accepted c.cacheSizeBytes offset length) : packedInvalidate c offset length = c := by
  have hsize : c.cacheSizeBytes < 2^48 := h.size_lt
  have hbs : c.blockSize = 65536 := h.blockSize
  unfold packedInvalidate
  split
  · rfl
  next hg =>
  simp only [not_or, Nat.not_lt] at hg
  obtain ⟨-, hpos, hend⟩ := hg
  have hnone : spanBlocks c offset length = [] := by
    have hwrap : 2^64 ≤ offset + length := by
      by_contra hlt
      rw [u64_of_lt (by omega)] at hend
      exact hn ⟨by omega, hend⟩
    rw [spanBlocks, hbs]
    have hstop : u64 (u64 (offset + length) + 65536 - 1) / 65536 ≤ offset / 65536 := by
      rw [u64_of_lt (n := u64 (offset + length) + 65536 - 1) (by omega)]
      omega
    have hzero : min (u64 (u64 (offset + length) + 65536 - 1) / 65536) c.blockCount - offset / 65536 = 0 := by
      have hmin := Nat.min_le_left (u64 (u64 (offset + length) + 65536 - 1) / 65536) c.blockCount
      omega
    rw [hzero]
    rfl
  rw [hnone]
  rfl

theorem packedInvalidate_accepted (ha : Accepted c.cacheSizeBytes offset length) :
    (packedInvalidate c offset length).ram = { c.ram with
      validMap := fun b => c.validMap.bit b && !decide (Touches offset length b)
      dirtyMap := fun b => c.dirtyMap.bit b && !decide (Touches offset length b) } := by
  have hsize : c.cacheSizeBytes < 2^48 := h.size_lt
  have hspan : ∀ b, inSpan c.ram offset length b = decide (Touches offset length b) := by
    intro b
    rw [Bool.eq_iff_iff, decide_eq_true_eq]
    exact inSpan_iff h ha.1 ha.2 b
  have hend := ha.2
  have hpos := ha.1
  rw [← packedInvalidate_ram, cacheInvalidate, if_neg]
  · simp only [hspan]
    rfl
  · rintro (hn | hn | hn)
    · exact Bool.false_ne_true (hn.symm.trans h.allocated)
    · omega
    · rw [u64_of_lt (by omega)] at hn
      exact absurd hn (Nat.not_lt.mpr hend)

end Call

theorem packedRead_maps (c : PackedCache) (data : Buf) (offset length : ℕ) : ∃ hits misses,
    (packedRead c data offset length).2.2 = { c with hitCount := hits, missCount := misses } := by
  unfold packedRead
  split
  · split
    · exact ⟨_, _, rfl⟩
    · exact ⟨_, _, rfl⟩
  · exact ⟨_, _, rfl⟩

/-! ### A run of calls -/

/-- What the state of the cache says about the calls so far. -/
structure Recalls (size : ℕ) (c : PackedCache) (calls : List CacheCall) : Prop where
  ok : CacheOk c.ram
  capacity : c.cacheSizeBytes = size
  valid : ∀ b, c.validMap.bit b = true ↔ Since (CacheCall.Marks size b) (CacheCall.Drops size b) calls
  dirty : ∀ b, c.dirtyMap.bit b = true → c.validMap.bit b = true
  inside : ∀ b, c.validMap.bit b = true → b < c.blockCount
  stored : ∀ x val, Since (CacheCall.Stores size x val) (CacheCall.Replaces size x) calls → c.buffer x = val

/-- A call that changes no valid bit and no byte, and sets no dirty bit. -/
theorem Recalls.idle {size : ℕ} {c d : PackedCache} {calls : List CacheCall} {call : CacheCall} (h : Recalls size c calls)
    (hok : CacheOk d.ram) (hsize : d.cacheSizeBytes = c.cacheSizeBytes) (hcount : d.blockCount = c.blockCount)
    (hvalid : d.validMap = c.validMap) (hbuffer : d.buffer = c.buffer)
    (hdirty : ∀ b, d.dirtyMap.bit b = true → c.dirtyMap.bit b = true)
    (hmarks : ∀ b, ¬ call.Marks size b) (hdrops : ∀ b, ¬ call.Drops size b) (hstores : ∀ x val, ¬ call.Stores size x val) :
    Recalls size d (calls ++ [call]) where
  ok := hok
  capacity := hsize.trans h.capacity
  valid := by
    intro b
    rw [hvalid, h.valid, since_concat]
    exact ⟨fun hs => Or.inr ⟨hs, hdrops b⟩, fun hs => (hs.resolve_left (hmarks b)).1⟩
  dirty := fun b hb => by rw [hvalid]; exact h.dirty b (hdirty b hb)
  inside := fun b hb => by rw [hvalid] at hb; rw [hcount]; exact h.inside b hb
  stored := by
    intro x val hs
    rw [hbuffer]
    exact h.stored x val ((since_concat.mp hs).resolve_left (hstores x val)).1

theorem touches_count {c : PackedCache} (h : CacheOk c.ram) {offset length b : ℕ}
    (ha : Accepted c.cacheSizeBytes offset length) (ht : Touches offset length b) : b < c.blockCount := by
  have hsize : c.cacheSizeBytes = c.blockCount * 65536 := h.size
  have hend := ha.2
  unfold Touches at ht
  omega

theorem Recalls.write {size : ℕ} {c : PackedCache} {calls : List CacheCall} (h : Recalls size c calls) (data : Buf)
    {offset length : ℕ} (hl : length < 2^32) (ha : Accepted size offset length) :
    Recalls size (packedWrite c data offset length).2 (calls ++ [.write data offset length]) := by
  obtain ⟨-, hram⟩ := packedWrite_accepted h.ok hl (by rw [h.capacity]; exact ha) data
  have hok : CacheOk (packedWrite c data offset length).2.ram := by
    rw [hram]
    exact ⟨h.ok.allocated, h.ok.blockSize, h.ok.count, h.ok.size, h.ok.flushBuffer⟩
  generalize (packedWrite c data offset length).2 = d at hram hok
  have hvalid : ∀ b, d.validMap.bit b = (c.validMap.bit b || decide (Touches offset length b)) :=
    congrFun (congrArg RamCache.validMap hram)
  have hdirty : ∀ b, d.dirtyMap.bit b = (c.dirtyMap.bit b || decide (Touches offset length b)) :=
    congrFun (congrArg RamCache.dirtyMap hram)
  have hbuffer : d.buffer = c.buffer.put offset length data := congrArg RamCache.buffer hram
  have hcount : d.blockCount = c.blockCount := congrArg RamCache.blockCount hram
  refine ⟨hok, (congrArg RamCache.cacheSizeBytes hram).trans h.capacity, fun b => ?_, fun b hb => ?_, fun b hb => ?_, fun x val hs => ?_⟩
  · rw [hvalid, Bool.or_eq_true, h.valid, decide_eq_true_eq, since_concat]
    exact ⟨fun hor => hor.symm.imp (fun ht => ⟨ha, ht⟩) fun hs => ⟨hs, id⟩, fun hor => hor.symm.imp And.left And.right⟩
  · rw [hdirty, Bool.or_eq_true] at hb
    rw [hvalid, Bool.or_eq_true]
    exact hb.imp_left (h.dirty b)
  · rw [hvalid, Bool.or_eq_true, decide_eq_true_eq] at hb
    rw [hcount]
    rcases hb with hb | ht
    · exact h.inside b hb
    · exact touches_count h.ok (by rw [h.capacity]; exact ha) ht
  · rw [hbuffer]
    rcases since_concat.mp hs with ⟨_, h1, h2, hval⟩ | ⟨hs, hnot⟩
    · rw [Buf.put_of_mem _ _ h1 h2]
      exact hval
    · have hout : x < offset ∨ offset + length ≤ x := by
        by_contra hin
        exact hnot ⟨ha, by omega, by omega⟩
      rw [Buf.put_of_not_mem _ _ hout]
      exact h.stored x val hs

theorem Recalls.invalidate {size : ℕ} {c : PackedCache} {calls : List CacheCall} (h : Recalls size c calls)
    {offset length : ℕ} (ha : Accepted size offset length) :
    Recalls size (packedInvalidate c offset length) (calls ++ [.invalidate offset length]) := by
  have hram := packedInvalidate_accepted h.ok (show Accepted c.cacheSizeBytes offset length by rw [h.capacity]; exact ha)
  have hok : CacheOk (packedInvalidate c offset length).ram := by
    rw [hram]
    exact ⟨h.ok.allocated, h.ok.blockSize, h.ok.count, h.ok.size, h.ok.flushBuffer⟩
  generalize packedInvalidate c offset length = d at hram hok
  have hvalid : ∀ b, d.validMap.bit b = (c.validMap.bit b && !decide (Touches offset length b)) :=
    congrFun (congrArg RamCache.validMap hram)
  have hdirty : ∀ b, d.dirtyMap.bit b = (c.dirtyMap.bit b && !decide (Touches offset length b)) :=
    congrFun (congrArg RamCache.dirtyMap hram)
  have hbuffer : d.buffer = c.buffer := congrArg RamCache.buffer hram
  have hcount : d.blockCount = c.blockCount := congrArg RamCache.blockCount hram
  refine ⟨hok, (congrArg RamCache.cacheSizeBytes hram).trans h.capacity, fun b => ?_, fun b hb => ?_, fun b hb => ?_, fun x val hs => ?_⟩
  · rw [hvalid, Bool.and_eq_true, h.valid, Bool.not_eq_true', decide_eq_false_iff_not, since_concat]
    exact ⟨fun hand => Or.inr ⟨hand.1, fun hd => hand.2 hd.2⟩,
      fun hor => ⟨(hor.resolve_left id).1, fun ht => (hor.resolve_left id).2 ⟨ha, ht⟩⟩⟩
  · rw [hdirty, Bool.and_eq_true] at hb
    rw [hvalid, Bool.and_eq_true]
    exact ⟨h.dirty b hb.1, hb.2⟩
  · rw [hvalid, Bool.and_eq_true] at hb
    rw [hcount]
    exact h.inside b hb.1
  · rw [hbuffer]
    exact h.stored x val ((since_concat.mp hs).resolve_left id).1

/-- What one call does to a state that recalls the calls before it. -/
theorem Recalls.apply {size : ℕ} {c : PackedCache} {calls : List CacheCall} (h : Recalls size c calls) {call : CacheCall}
    (ht : call.Typed) : Recalls size (call.apply c) (calls ++ [call]) := by
  cases call with
  | write data offset length =>
    by_cases ha : Accepted size offset length
    · exact h.write data ht.2 ha
    · have hsame : CacheCall.apply c (.write data offset length) = c :=
        congrArg Prod.snd (packedWrite_rejected h.ok ht.2 (by rw [h.capacity]; exact ha) data)
      rw [hsame]
      exact h.idle h.ok rfl rfl rfl rfl (fun _ hb => hb) (fun _ hm => ha hm.1) (fun _ => id) fun _ _ hs => ha hs.1
  | read data offset length =>
    obtain ⟨hits, misses, hsame⟩ := packedRead_maps c data offset length
    have hstate : CacheCall.apply c (.read data offset length) = { c with hitCount := hits, missCount := misses } := hsame
    rw [hstate]
    exact h.idle ⟨h.ok.allocated, h.ok.blockSize, h.ok.count, h.ok.size, h.ok.flushBuffer⟩ rfl rfl rfl rfl
      (fun _ hb => hb) (fun _ => id) (fun _ => id) fun _ _ => id
  | invalidate offset length =>
    by_cases ha : Accepted size offset length
    · exact h.invalidate ha
    · have hsame : CacheCall.apply c (.invalidate offset length) = c :=
        packedInvalidate_rejected h.ok ht.1 ht.2 (by rw [h.capacity]; exact ha)
      rw [hsame]
      exact h.idle h.ok rfl rfl rfl rfl (fun _ hb => hb) (fun _ => id) (fun _ hd => ha hd.1) fun _ _ => id
  | clear b run =>
    refine h.idle ⟨h.ok.allocated, h.ok.blockSize, h.ok.count, h.ok.size, h.ok.flushBuffer⟩ rfl rfl rfl rfl (fun i hi => ?_)
      (fun _ => id) (fun _ => id) fun _ _ => id
    have hbit := packedClear_bit c b run i
    rw [show (packedClear c b run).dirtyMap.bit i = true from hi] at hbit
    exact ((Bool.and_eq_true _ _).mp hbit.symm).1

theorem recalls_init {m : CacheAlloc} {cache c : PackedCache} {sizeBytes : ℕ}
    (h : packedInit m cache sizeBytes = (true, c)) : Recalls c.cacheSizeBytes c [] := by
  have hram := packedInit_ram m cache sizeBytes
  rw [h] at hram
  obtain ⟨hok, hdirty, hvalid, _⟩ := cacheInit_ok hram
  have hv : ∀ b, c.validMap.bit b = false := hvalid
  have hd : ∀ b, c.dirtyMap.bit b = false := hdirty
  refine ⟨hok, rfl, fun b => ?_, fun b hb => ?_, fun b hb => ?_, fun x val hs => absurd hs not_since_nil⟩
  · rw [hv]
    exact ⟨nofun, fun hs => absurd hs not_since_nil⟩
  · rw [hd] at hb
    cases hb
  · rw [hv] at hb
    cases hb

theorem recalls_run {m : CacheAlloc} {cache c : PackedCache} {sizeBytes : ℕ}
    (h : packedInit m cache sizeBytes = (true, c)) (calls : List CacheCall) (ht : ∀ call ∈ calls, call.Typed) :
    Recalls c.cacheSizeBytes (runCalls c calls) calls := by
  induction calls using List.reverseRecOn with
  | nil => exact recalls_init h
  | append_singleton calls call ih =>
    rw [runCalls, List.foldl_append]
    exact (ih fun q hq => ht q (List.mem_append_left _ hq)).apply
      (ht call (List.mem_append_right _ (List.mem_singleton_self call)))

/-! ### The meaning of the bits -/

/-- What the bits and the reads of a cache of `size` bytes say about the calls it has seen. -/
structure BitmapsMean (size : ℕ) (c : PackedCache) (calls : List CacheCall) : Prop where
  valid : ∀ b, c.validMap.bit b = true ↔ Since (CacheCall.Marks size b) (CacheCall.Drops size b) calls
  dirty : ∀ b, c.dirtyMap.bit b = true → c.validMap.bit b = true
  count : ∀ b, c.blockCount ≤ b → c.validMap.bit b = false ∧ c.dirtyMap.bit b = false
  write : ∀ data offset length, offset < 2^64 → length < 2^32 →
    ((packedWrite c data offset length).1 = true ↔ Accepted size offset length) ∧
      (¬ Accepted size offset length → (packedWrite c data offset length).2 = c)
  invalidate : ∀ offset length, offset < 2^64 → length < 2^32 → ¬ Accepted size offset length →
    packedInvalidate c offset length = c
  read : ∀ data offset length, offset < 2^64 → length < 2^32 →
    ((packedRead c data offset length).1 = true ↔
      Accepted size offset length ∧ ∀ b, Touches offset length b → c.validMap.bit b = true) ∧
    (¬ Accepted size offset length → (packedRead c data offset length).2 = (data, c)) ∧
    ((packedRead c data offset length).1 = true → ∀ j < length, ∀ val,
      Since (CacheCall.Stores size (offset + j) val) (CacheCall.Replaces size (offset + j)) calls →
        (packedRead c data offset length).2.1 j = val)

theorem Recalls.read {size : ℕ} {c : PackedCache} {calls : List CacheCall} (h : Recalls size c calls) (data : Buf)
    (offset : ℕ) {length : ℕ} (hl : length < 2^32) :
    ((packedRead c data offset length).1 = true ↔
      Accepted size offset length ∧ ∀ b, Touches offset length b → c.validMap.bit b = true) ∧
    ((packedRead c data offset length).1 = true →
      (packedRead c data offset length).2.1 = data.put 0 length (c.buffer.shift offset)) := by
  have hram := packedRead_ram c data offset length
  have hcases := cacheRead_cases h.ok data offset hl
  rw [hram] at hcases
  have hsize : c.ram.cacheSizeBytes = size := h.capacity
  rw [hsize] at hcases
  rcases hcases with ⟨htrue, hpos, hend, hvalid, hout⟩ | ⟨hfalse, _, hnot⟩
  · exact ⟨⟨fun _ => ⟨⟨hpos, hend⟩, hvalid⟩, fun _ => htrue⟩, fun _ => hout⟩
  · simp only at hfalse
    rw [hfalse]
    exact ⟨⟨nofun, fun hall => absurd ⟨hall.1.1, hall.1.2, hall.2⟩ hnot⟩, nofun⟩

/-- Every run of calls on a cache from `cache_init` leaves bitmaps that mean what they say. -/
theorem cache_bitmaps {m : CacheAlloc} {cache c : PackedCache} {sizeBytes : ℕ}
    (h : packedInit m cache sizeBytes = (true, c)) (calls : List CacheCall) (ht : ∀ call ∈ calls, call.Typed) :
    BitmapsMean c.cacheSizeBytes (runCalls c calls) calls := by
  have hr := recalls_run h calls ht
  generalize runCalls c calls = d at hr
  refine ⟨hr.valid, hr.dirty, fun b hb => ?_, fun data offset length _ hl => ?_, fun offset length ho hl hn => ?_,
    fun data offset length _ hl => ?_⟩
  · have hvalid : d.validMap.bit b = false := by
      by_contra hv
      have hlt := hr.inside b (Bool.not_eq_false _ ▸ hv)
      omega
    refine ⟨hvalid, ?_⟩
    by_contra hd
    rw [hr.dirty b (Bool.not_eq_false _ ▸ hd)] at hvalid
    cases hvalid
  · by_cases ha : Accepted c.cacheSizeBytes offset length
    · refine ⟨⟨fun _ => ha, fun _ => ?_⟩, fun hn => absurd ha hn⟩
      exact (packedWrite_accepted hr.ok hl (by rw [hr.capacity]; exact ha) data).1
    · rw [packedWrite_rejected hr.ok hl (by rw [hr.capacity]; exact ha) data]
      exact ⟨⟨nofun, fun h => absurd h ha⟩, fun _ => rfl⟩
  · exact packedInvalidate_rejected hr.ok ho hl (by rw [hr.capacity]; exact hn)
  · obtain ⟨hiff, hout⟩ := hr.read data offset hl
    refine ⟨hiff, fun hn => ?_, fun htrue j hj val hs => ?_⟩
    · unfold packedRead
      rw [if_neg fun hi => hn ?_]
      have ha := (inCache_iff hr.ok hl).mp hi
      rw [show d.ram.cacheSizeBytes = c.cacheSizeBytes from hr.capacity] at ha
      exact ha
    · rw [hout htrue, Buf.put_of_mem _ _ (Nat.zero_le j) (by omega), Nat.sub_zero]
      exact hr.stored _ val hs

/-- Two blocks, a write across both and an invalidation of the first. -/
def twoBlocks : Bool × PackedCache :=
  packedInit .good ⟨false, fun _ => 0, 0, 0, 0, .zero, .zero, 0, 0, false, false, false, fun _ => 0, 0, false⟩ 131072

def twoCalls : List CacheCall := [.write (fun _ => 7) 65530 10, .invalidate 0 4, .clear 1 1]

theorem cache_bitmaps_sample : BitmapsMean 131072 (runCalls twoBlocks.2 twoCalls) twoCalls := by
  have hinit : twoBlocks = (true, twoBlocks.2) := rfl
  refine cache_bitmaps hinit twoCalls fun call hc => ?_
  simp only [twoCalls, List.mem_cons, List.not_mem_nil, or_false] at hc
  rcases hc with rfl | rfl | rfl
  · exact ⟨by decide, by decide⟩
  · exact ⟨by decide, by decide⟩
  · trivial

example : (runCalls twoBlocks.2 twoCalls).validMap.bit 0 = false ∧ (runCalls twoBlocks.2 twoCalls).validMap.bit 1 = true ∧
    (runCalls twoBlocks.2 twoCalls).dirtyMap.bit 1 = false := by decide +kernel

end RaidTest.Cache
