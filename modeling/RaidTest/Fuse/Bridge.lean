import RaidTest.Fuse.Table
import RaidTest.Cache.Machine
import RaidTest.Stripe.Ring

/-!
# Writing through the mount (`raid_write`)

The callback cuts a request into chunks. A chunk that starts in the cached area goes to
`cache_write` as far as that area reaches, whatever the mode of the cache; the others go to
`stripe_volume_write`.
-/

namespace RaidTest.Fuse
open RaidTest.Base RaidTest.Stripe RaidTest.Cache

/-- `MAX_CHUNK`. -/
def maxChunk : ℕ := 67108864

/-- The answers of the environment to one chunk: to a flush under back-pressure and to the transfers. -/
structure ChunkEnv where
  flush : ℕ → BatchEnv
  io : IoEnv

/-- `MOUNT_CTX` and the file table. -/
structure Mount where
  sys : System
  table : FileTable
  freed : ℕ
  consumed : ℕ

/-- `dc`, the number of dirty blocks. -/
def dirtyCount (c : RamCache) : ℕ := (List.range c.blockCount).countP c.dirtyMap

/-- `cache_backpressure`. -/
def cacheBackpressure (env : ℕ → BatchEnv) (s : System) : System :=
  if s.v.cacheEnabled = false ∨ s.v.cache.blockCount = 0 then s
  else if dirtyCount s.v.cache > u32 (s.v.cache.blockCount * 9) / 10 ∧ s.gFlush = false then
    let (v, d) := cacheFlushAll env s.v s.d
    { s with v := v, d := d }
  else s

/-- The direct write path of one turn of `raid_write`; 0 bytes are written when it fails. -/
def writeChunkDirect (io : IoEnv) (buffer : Buf) (curr remaining : ℕ) (s : System) : Option (ℕ × System) :=
  let toWrite := minU64 remaining maxChunk
  match stripeVolumeWrite io s.v s.d buffer curr toWrite with
  | none => none
  | some (ok, v, d) => some (if ok then toWrite else 0, { s with v := v, d := d })

/-- One turn of the loop of `raid_write` and how many bytes it wrote; `end - curr_off` is `remaining`. -/
def raidWriteChunk (env : ChunkEnv) (buffer : Buf) (curr remaining : ℕ) (s : System) : Option (ℕ × System) :=
  if s.v.cacheEnabled ∧ curr < s.v.cache.cacheSizeBytes then
    let s := cacheBackpressure env.flush s
    let cacheLen := minU64 remaining (minU64 maxChunk (s.v.cache.cacheSizeBytes - curr))
    if cacheLen > 0 then
      match cacheWrite s.v.cache buffer curr cacheLen with
      | (true, cache) => some (cacheLen, { s with v := { s.v with
          cache := cache
          bytesWritten := u64 (s.v.bytesWritten + cacheLen) } })
      | (false, _) => writeChunkDirect env.io buffer curr remaining s
    else writeChunkDirect env.io buffer curr remaining s
  else writeChunkDirect env.io buffer curr remaining s

/-- `while (remaining > 0)`: whether it ran to its end, `total_written` and the volume after it. -/
def raidWriteLoop (env : ℕ → ChunkEnv) (buffer : Buf) :
    ℕ → ℕ → ℕ → ℕ → ℕ → System → Option (Bool × ℕ × System)
  | 0, _, _, _, total, s => some (true, total, s)
  | fuel + 1, i, curr, remaining, total, s =>
    if remaining = 0 then some (true, total, s)
    else
      match raidWriteChunk (env i) (buffer.shift total) curr remaining s with
      | none => none
      | some (n, s) =>
        if n = 0 then some (false, total, s)
        else raidWriteLoop env buffer fuel (i + 1) (curr + n) (remaining - n) (total + n) s

/-- The size of an open file after a write that ended at `writeEnd`. -/
def growFile (t : FileTable) (name : List Char) (writeEnd : ℕ) : FileTable :=
  match findOpenFile t name with
  | none => t
  | some idx => t.modify idx fun e => if writeEnd > e.size then { e with size := writeEnd } else e

/-- `-EIO`. -/
def eio : ℤ := -5

/-- The end of `raid_write`, after `total` bytes; the loop ran to its end if `ok`. -/
def raidWritten (path : List Char) (offset : ℕ) (m : Mount) (ok : Bool) (total : ℕ) (s : System) : ℤ × Mount :=
  let written := long (u32 total)
  let m := { m with sys := s, consumed := u64 (m.consumed + total) }
  if ok = false then (if written > 0 then written else eio, m)
  else
    let p := stripPath path
    let table := if p ≠ [] ∧ 0 < total then growFile m.table p (u64 (offset + total)) else m.table
    (written, { m with table := table })

/-- `raid_write`; there is no result where a chunk has none. -/
def raidWrite (env : ℕ → ChunkEnv) (path : List Char) (buffer : Buf) (size offset : ℕ) (m : Mount) :
    Option (ℤ × Mount) :=
  if m.sys.v.virtualTotalBytes ≤ offset then some (0, m)
  else
    let stop := minU64 (u64 (offset + size)) m.sys.v.virtualTotalBytes
    let remaining := sub64 stop offset
    match raidWriteLoop env buffer remaining 0 offset remaining 0 m.sys with
    | none => none
    | some (ok, total, s) => some (raidWritten path offset m ok total s)

/-! ### One turn -/

theorem writeChunkDirect_some {io : IoEnv} {buffer : Buf} {curr remaining n : ℕ} {s t : System}
    (h : writeChunkDirect io buffer curr remaining s = some (n, t)) :
    ∃ ok v d, stripeVolumeWrite io s.v s.d buffer curr (min remaining maxChunk) = some (ok, v, d) ∧
      n = (if ok then min remaining maxChunk else 0) ∧ t = { s with v := v, d := d } := by
  unfold writeChunkDirect at h
  simp only [minU64_eq] at h
  cases hw : stripeVolumeWrite io s.v s.d buffer curr (min remaining maxChunk) with
  | none =>
    rw [hw] at h
    cases h
  | some r =>
    obtain ⟨ok, v, d⟩ := r
    rw [hw] at h
    obtain ⟨rfl, rfl⟩ := Prod.mk.inj (Option.some.inj h)
    exact ⟨ok, v, d, rfl, rfl, rfl⟩

/-- Past the cached area a chunk is written to the members. -/
theorem raidWriteChunk_beyond {s : System} {curr : ℕ} (h : s.v.cache.cacheSizeBytes ≤ curr) (env : ChunkEnv)
    (buffer : Buf) (remaining : ℕ) :
    raidWriteChunk env buffer curr remaining s = writeChunkDirect env.io buffer curr remaining s := by
  unfold raidWriteChunk
  rw [if_neg fun hc => Nat.not_lt.mpr h hc.2]

/-! ### The loop -/

/-- How the loop of `raid_write` came out, `P total s` holding before every turn: it wrote all of `len`
bytes, or a turn wrote none. -/
structure Written (env : ℕ → ChunkEnv) (buffer : Buf) (offset len : ℕ) (P : ℕ → System → Prop)
    (ok : Bool) (total : ℕ) (s : System) : Prop where
  holds : P total s
  le : total ≤ len
  all : ok = true → total = len
  stopped : ok = false → ∃ i r, P total r ∧ total < len ∧
    raidWriteChunk (env i) (buffer.shift total) (offset + total) (len - total) r = some (0, s)

theorem raidWriteChunk_le {env : ChunkEnv} {buffer : Buf} {curr remaining n : ℕ} {s t : System}
    (h : raidWriteChunk env buffer curr remaining s = some (n, t)) : n ≤ remaining := by
  have hdirect : ∀ {s : System}, writeChunkDirect env.io buffer curr remaining s = some (n, t) → n ≤ remaining := by
    intro s hd
    obtain ⟨ok, _, _, _, rfl, _⟩ := writeChunkDirect_some hd
    split <;> omega
  unfold raidWriteChunk at h
  simp only [minU64_eq] at h
  split at h
  · split at h
    · split at h
      · obtain ⟨rfl, _⟩ := Prod.mk.inj (Option.some.inj h)
        omega
      · exact hdirect h
    · exact hdirect h
  · exact hdirect h

/-- What every turn keeps, the loop keeps. -/
theorem raidWriteLoop_rule {env : ℕ → ChunkEnv} {buffer : Buf} {offset len : ℕ} {P : ℕ → System → Prop}
    (hstep : ∀ i total s n t, P total s → total < len →
      raidWriteChunk (env i) (buffer.shift total) (offset + total) (len - total) s = some (n, t) → P (total + n) t)
    (fuel : ℕ) :
    ∀ {i total : ℕ} {s : System} {ok : Bool} {total' : ℕ} {t : System}, P total s → total ≤ len →
      len - total ≤ fuel →
      raidWriteLoop env buffer fuel i (offset + total) (len - total) total s = some (ok, total', t) →
      Written env buffer offset len P ok total' t := by
  induction fuel with
  | zero =>
    intro i total s ok total' t hp hle hfuel h
    simp only [raidWriteLoop, Option.some.injEq, Prod.mk.injEq] at h
    obtain ⟨rfl, rfl, rfl⟩ := h
    exact ⟨hp, hle, fun _ => by omega, nofun⟩
  | succ fuel ih =>
    intro i total s ok total' t hp hle hfuel h
    unfold raidWriteLoop at h
    split at h
    · simp only [Option.some.injEq, Prod.mk.injEq] at h
      obtain ⟨rfl, rfl, rfl⟩ := h
      exact ⟨hp, hle, fun _ => by omega, nofun⟩
    next hmore =>
    cases hc : raidWriteChunk (env i) (buffer.shift total) (offset + total) (len - total) s with
    | none =>
      rw [hc] at h
      cases h
    | some r =>
      obtain ⟨n, u⟩ := r
      rw [hc] at h
      simp only at h
      have hn := raidWriteChunk_le hc
      have hkeep := hstep i total s n u hp (by omega) hc
      split at h
      · next hzero =>
        subst hzero
        simp only [Option.some.injEq, Prod.mk.injEq] at h
        obtain ⟨rfl, rfl, rfl⟩ := h
        exact ⟨hkeep, hle, nofun, fun _ => ⟨i, s, hp, by omega, hc⟩⟩
      · rw [Nat.add_assoc, Nat.sub_sub] at h
        exact ih hkeep (by omega) (by omega) h

/-- The loop has a result if every turn has one. -/
theorem raidWriteLoop_some {env : ℕ → ChunkEnv} {buffer : Buf} {offset len : ℕ} {P : ℕ → System → Prop}
    (hstep : ∀ i total s, P total s → total < len → ∃ n t,
      raidWriteChunk (env i) (buffer.shift total) (offset + total) (len - total) s = some (n, t) ∧ P (total + n) t)
    (fuel : ℕ) :
    ∀ (i total : ℕ) (s : System), P total s → total ≤ len →
      ∃ r, raidWriteLoop env buffer fuel i (offset + total) (len - total) total s = some r := by
  induction fuel with
  | zero => exact fun i total s _ _ => ⟨_, rfl⟩
  | succ fuel ih =>
    intro i total s hp hle
    unfold raidWriteLoop
    split
    · exact ⟨_, rfl⟩
    next hmore =>
    obtain ⟨n, t, hc, hkeep⟩ := hstep i total s hp (by omega)
    have hn := raidWriteChunk_le hc
    rw [hc]
    simp only
    split
    · exact ⟨_, rfl⟩
    · rw [Nat.add_assoc, Nat.sub_sub]
      exact ih (i + 1) (total + n) t hkeep (by omega)

/-! ### The whole call -/

@[simp] theorem raidWritten_sys (path : List Char) (offset : ℕ) (m : Mount) (ok : Bool) (total : ℕ) (s : System) :
    (raidWritten path offset m ok total s).2.sys = s := by
  unfold raidWritten
  cases ok <;> rfl

theorem raidWritten_result (path : List Char) (offset : ℕ) (m : Mount) (ok : Bool) (total : ℕ) (s : System) :
    (raidWritten path offset m ok total s).1 =
      if ok = false ∧ ¬ 0 < long (u32 total) then eio else long (u32 total) := by
  unfold raidWritten
  cases ok with
  | true => rfl
  | false =>
    simp only [ite_true, gt_iff_lt, true_and, ite_not]

section Call
variable {size offset : ℕ} {m : Mount} (htotal : m.sys.v.virtualTotalBytes ≤ 2^63) (hsize : size < 2^63)
include htotal hsize

theorem raidWrite_eq (hin : offset < m.sys.v.virtualTotalBytes) (env : ℕ → ChunkEnv) (path : List Char) (buffer : Buf) :
    raidWrite env path buffer size offset m =
      (raidWriteLoop env buffer (min size (m.sys.v.virtualTotalBytes - offset)) 0 offset
        (min size (m.sys.v.virtualTotalBytes - offset)) 0 m.sys).map
        fun r => raidWritten path offset m r.1 r.2.1 r.2.2 := by
  have hrem : sub64 (minU64 (u64 (offset + size)) m.sys.v.virtualTotalBytes) offset =
      min size (m.sys.v.virtualTotalBytes - offset) := by
    rw [minU64_eq, u64_of_lt (by omega), sub64_of_le (by omega) (by omega)]
    omega
  unfold raidWrite
  rw [if_neg (Nat.not_le.mpr hin)]
  simp only [hrem]
  cases raidWriteLoop env buffer (min size (m.sys.v.virtualTotalBytes - offset)) 0 offset
      (min size (m.sys.v.virtualTotalBytes - offset)) 0 m.sys with
  | none => rfl
  | some r => rfl

/-- What `raid_write` does to the mount, by the outcome of its loop. -/
theorem raidWrite_some {env : ℕ → ChunkEnv} {path : List Char} {buffer : Buf} {t : Mount} {n : ℤ}
    (h : raidWrite env path buffer size offset m = some (n, t)) :
    m.sys.v.virtualTotalBytes ≤ offset ∧ n = 0 ∧ t = m ∨
      ∃ ok total s, offset < m.sys.v.virtualTotalBytes ∧
        raidWriteLoop env buffer (min size (m.sys.v.virtualTotalBytes - offset)) 0 offset
          (min size (m.sys.v.virtualTotalBytes - offset)) 0 m.sys = some (ok, total, s) ∧
        n = (raidWritten path offset m ok total s).1 ∧ t = (raidWritten path offset m ok total s).2 := by
  by_cases hin : offset < m.sys.v.virtualTotalBytes
  · rw [raidWrite_eq htotal hsize hin, Option.map_eq_some_iff] at h
    obtain ⟨⟨ok, total, s⟩, hloop, he⟩ := h
    exact Or.inr ⟨ok, total, s, hin, hloop, (congrArg Prod.fst he).symm, (congrArg Prod.snd he).symm⟩
  · unfold raidWrite at h
    rw [if_pos (by omega)] at h
    obtain ⟨rfl, rfl⟩ := Prod.mk.inj (Option.some.inj h)
    exact Or.inl ⟨by omega, rfl, rfl⟩

end Call

end RaidTest.Fuse
