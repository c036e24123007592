import RaidTest.Journal.Recover
import RaidTest.Cache.FlushSpec

/-!
# The journal of a flush (`journal_begin`, `journal_data`, `journal_commit`)

A flush cycle appends a BEGIN to every member's journal, a DATA record before the writes of
each batch, and a COMMIT at its end if any batch got through. An append counts as done when
one of the journals took it.
-/

namespace RaidTest.Journal
open RaidTest.Base RaidTest.Stripe RaidTest.Cache

/-! ### Appending -/

/-- What becomes of a record at the end of one journal file: it is there and flushed, or the
append fails and the file has got the first `kept` bytes of it. -/
inductive Append where
  | done
  | failed (kept : ℕ)

def Append.ok : Append → Bool
  | .done => true
  | .failed _ => false

/-- All bytes of a record of `n` bytes are in the file. -/
def Append.whole (n : ℕ) : Append → Bool
  | .done => true
  | .failed kept => decide (n ≤ kept)

/-- One append to one journal file. -/
structure Piece where
  letter : Letter
  entry : Rec
  answer : Append

def Piece.whole (p : Piece) : Bool := p.answer.whole p.entry.image.length

def Piece.bytes (p : Piece) : List Byte :=
  match p.answer with
  | .done => p.entry.image
  | .failed kept => p.entry.image.take kept

def Files.add (files : Files) (p : Piece) : Files := files.set p.letter (files p.letter ++ p.bytes)

/-- What the appends leave in the journal of one drive. -/
def appended (l : Letter) : List Piece → List Byte
  | [] => []
  | p :: ps => (if p.letter = l then p.bytes else []) ++ appended l ps

theorem foldl_add (l : Letter) (ps : List Piece) : ∀ files : Files, (ps.foldl Files.add files) l = files l ++ appended l ps := by
  induction ps with
  | nil => intro files; exact (List.append_nil _).symm
  | cons p ps ih =>
    intro files
    rw [List.foldl_cons, ih, appended, ← List.append_assoc]
    congr 1
    unfold Files.add
    by_cases h : p.letter = l
    · rw [if_pos h, h, Files.set_same]
    · rw [if_neg h, List.append_nil, Files.set_other _ _ (Ne.symm h)]

/-- The time of the clock and the answers, member by member, to one call. -/
structure AppendEnv where
  time : ℕ
  answer : ℕ → Append

/-- `any_ok`, over the first `n` members. -/
def anyOk (a : ℕ → Append) (n : ℕ) : Bool := (List.range n).any fun i => (a i).ok

/-- The loop over the members in `journal_write_entry` and `journal_data`. -/
def appendAll (letter : DiskId → Letter) (v : StripeVolume) (r : Rec) (a : ℕ → Append) : Bool × List Piece :=
  (anyOk a v.diskCount, (List.range v.diskCount).map fun i => ⟨letter (v.diskAt i), r, a i⟩)

/-- `journal_write_entry`. -/
def journalWriteEntry (letter : DiskId → Letter) (v : StripeVolume) (r : Rec) (a : ℕ → Append) : Bool × List Piece :=
  if v.checkDisks = false then (false, []) else appendAll letter v r a

/-! ### The flush -/

/-- The answers of the environment to one flush cycle; the batch at block `b` gets `data b`
and `batch b`. `generation` is that of the volume. -/
structure FlushEnv where
  generation : ℕ
  begin : AppendEnv
  data : ℕ → AppendEnv
  batch : ℕ → BatchEnv
  commit : AppendEnv

/-- The DATA record of range `r`, for the batch at block `b`. -/
def FlushEnv.record (env : FlushEnv) (b : ℕ) (r : ℕ × List Byte) : Rec := .data env.generation (env.data b).time r.1 r.2

/-- What a flush does to the volume, the members and the journals; `written` are the ranges
whose writes all succeeded, `flushed` the counter of the blocks in them. -/
structure FlushState where
  v : StripeVolume
  d : Disks
  pieces : List Piece
  written : List (ℕ × List Byte)
  flushed : ℕ

/-- What `journal_data` is given of a batch: its offset and the flush buffer. -/
def batchRange (v : StripeVolume) (b run : ℕ) : ℕ × List Byte :=
  (b * v.cache.blockSize, (List.range (u32 (run * v.cache.blockSize))).map v.cache.flushBuffer)

/-- `while (b < cache->block_count)`. -/
def journalLoop (env : FlushEnv) (letter : DiskId → Letter) : ℕ → ℕ → FlushState → FlushState
  | 0, _, s => s
  | fuel + 1, b, s =>
    if b < s.v.cache.blockCount then
      match flushScan { env.batch b with journal := true } s.v b with
      | .next b v => journalLoop env letter fuel b { s with v := v }
      | .batch run v =>
        let r := batchRange v b run
        match appendAll letter v (env.record b r) (env.data b).answer with
        | (false, pieces) => journalLoop env letter fuel (b + run) { s with v := v, pieces := s.pieces ++ pieces }
        | (true, pieces) =>
          match flushWrite (env.batch b) v s.d b run with
          | (true, d) => journalLoop env letter fuel (b + run) ⟨flushClear v b run, d, s.pieces ++ pieces,
              s.written ++ [r], s.flushed + run⟩
          | (false, d) => journalLoop env letter fuel (b + run) { s with v := v, d := d, pieces := s.pieces ++ pieces }
    else s

/-- `cache_flush_all` with its journal. -/
def journalledFlush (env : FlushEnv) (letter : DiskId → Letter) (v : StripeVolume) (d : Disks) : FlushState :=
  if v.cacheFlushInProgress then ⟨v, d, [], [], 0⟩
  else
    let (_, opening) := journalWriteEntry letter v (.begin env.generation env.begin.time) env.begin.answer
    let s := journalLoop env letter v.cache.blockCount 0 ⟨{ v with cacheFlushInProgress := true }, d, opening, [], 0⟩
    let closing := if s.flushed > 0 then
      (journalWriteEntry letter s.v (.commit env.generation env.commit.time) env.commit.answer).2 else []
    { s with v := { s.v with cacheFlushInProgress := false }, pieces := s.pieces ++ closing }

/-! ### The flush without its journal -/

/-- The answers as the flush without the journal takes them. -/
def FlushEnv.plain (env : FlushEnv) (n : ℕ) (b : ℕ) : BatchEnv := { env.batch b with journal := anyOk (env.data b).answer n }

theorem flushScan_journal (env : BatchEnv) (ok : Bool) (v : StripeVolume) (b : ℕ) :
    flushScan { env with journal := ok } v b =
      match flushScan { env with journal := true } v b with
      | .next b v => .next b v
      | .batch run v => if ok = false then .next (b + run) v else .batch run v := by
  unfold flushScan
  simp only [Bool.true_eq_false, if_false]
  split
  · rfl
  split
  · rfl
  split
  · rfl
  · cases ok <;> rfl

theorem flushScan_count {env : BatchEnv} {v w : StripeVolume} {b : ℕ}
    (h : (∃ b', flushScan env v b = .next b' w) ∨ ∃ run, flushScan env v b = .batch run w) :
    w.diskCount = v.diskCount := by
  unfold flushScan at h
  simp only at h
  split at h
  · rcases h with ⟨_, h⟩ | ⟨_, h⟩ <;> cases h
    rfl
  split at h
  · rcases h with ⟨_, h⟩ | ⟨_, h⟩ <;> cases h
    rfl
  split at h
  · rcases h with ⟨_, h⟩ | ⟨_, h⟩ <;> cases h
    rfl
  split at h
  · rcases h with ⟨_, h⟩ | ⟨_, h⟩ <;> cases h
    rfl
  · rcases h with ⟨_, h⟩ | ⟨_, h⟩ <;> cases h
    rfl

theorem journalLoop_plain (env : FlushEnv) (letter : DiskId → Letter) (fuel : ℕ) :
    ∀ (b : ℕ) (s : FlushState), ((journalLoop env letter fuel b s).v, (journalLoop env letter fuel b s).d) =
      flushLoop (env.plain s.v.diskCount) fuel b s.v s.d := by
  induction fuel with
  | zero => intro b s; rfl
  | succ fuel ih =>
    intro b s
    unfold journalLoop flushLoop
    split
    swap
    · rfl
    have hscan : flushScan (env.plain s.v.diskCount b) s.v b = _ :=
      flushScan_journal (env.batch b) (anyOk (env.data b).answer s.v.diskCount) s.v b
    rw [hscan]
    cases hs : flushScan { env.batch b with journal := true } s.v b with
    | next b' w =>
      have hn := flushScan_count (Or.inl ⟨_, hs⟩)
      simp only
      rw [ih, hn]
    | batch run w =>
      have hn := flushScan_count (Or.inr ⟨_, hs⟩)
      have happend : ∀ r, appendAll letter w r (env.data b).answer =
          (anyOk (env.data b).answer s.v.diskCount, (appendAll letter w r (env.data b).answer).2) := by
        intro r
        rw [← hn]
        rfl
      have hwrite : flushWrite (env.plain s.v.diskCount b) w s.d b run = flushWrite (env.batch b) w s.d b run := rfl
      simp only
      rw [happend]
      cases hok : anyOk (env.data b).answer s.v.diskCount with
      | false =>
        simp only [if_true]
        rw [ih, hn]
      | true =>
        simp only [Bool.true_eq_false, if_false, hwrite]
        generalize flushWrite (env.batch b) w s.d b run = r
        obtain ⟨ok, d⟩ := r
        cases ok with
        | false =>
          simp only
          rw [ih, hn]
        | true =>
          simp only
          rw [ih]
          simp only [flushClear, hn]

/-- The journal aside, the flush is that of the cache. -/
theorem journalledFlush_plain (env : FlushEnv) (letter : DiskId → Letter) (v : StripeVolume) (d : Disks) :
    ((journalledFlush env letter v d).v, (journalledFlush env letter v d).d) =
      cacheFlushAll (env.plain v.diskCount) v d := by
  unfold journalledFlush cacheFlushAll
  split
  · rfl
  obtain ⟨h1, h2⟩ := Prod.mk.inj (journalLoop_plain env letter v.cache.blockCount 0
    ⟨{ v with cacheFlushInProgress := true }, d,
      (journalWriteEntry letter v (.begin env.generation env.begin.time) env.begin.answer).2, [], 0⟩)
  simp only [h1, h2]

/-! ### The batches of a cycle -/

/-- Offset and bytes of the blocks `b, .., b + run - 1` of the cache. -/
def blockBytes (buffer : Buf) (p : ℕ × ℕ) : ℕ × List Byte :=
  (p.1 * 65536, (List.range (p.2 * 65536)).map (buffer.shift (p.1 * 65536)))

/-- The writes of a mapped batch are all issued and succeed. -/
def BatchEnv.writes (env : BatchEnv) : Option (List IoMappingEntry) → Bool
  | none => false
  | some es => decide (es.length ≤ env.stop.getD es.length) && env.io.allOk es.length

/-- Batch `p` is journalled, mapped, issued and written without an error. -/
def stored (env : FlushEnv) (v : StripeVolume) (p : ℕ × ℕ) : Bool :=
  anyOk (env.data p.1).answer v.diskCount && BatchEnv.writes (env.batch p.1) (mapLba v (p.1 * 65536) (p.2 * 65536))

theorem stored_same {v w : StripeVolume} (h : SameLayout v w) (env : FlushEnv) : stored env w = stored env v := by
  funext p
  unfold stored
  rw [h.mapLba, h.diskCount]

/-- The appends `journal_data` makes for batch `p`. -/
def dataPieces (env : FlushEnv) (letter : DiskId → Letter) (v : StripeVolume) (p : ℕ × ℕ) : List Piece :=
  (appendAll letter v (env.record p.1 (blockBytes v.cache.buffer p)) (env.data p.1).answer).2

theorem batchRange_copied {v : StripeVolume} (h : CacheOk v.cache) (b : ℕ) {run : ℕ} (hrun : run ≤ 256) :
    batchRange (copied v b run) b run = blockBytes v.cache.buffer (b, run) := by
  have hbs : (copied v b run).cache.blockSize = 65536 := (cacheOk_copied h b run).blockSize
  unfold batchRange blockBytes
  rw [hbs, u32_of_lt (by omega)]
  simp only [Prod.mk.injEq, true_and]
  refine List.map_congr_left fun j hj => ?_
  have hlt := List.mem_range.mp hj
  simp only [copied, withFlush]
  rw [Buf.put_of_mem _ _ (Nat.zero_le _) (by omega), Nat.sub_zero]

theorem flushWrite_ok {v : StripeVolume} (h : CacheOk v.cache) (env : BatchEnv) (d : Disks) (b : ℕ) {run : ℕ}
    (hrun : run ≤ 256) : (flushWrite env v d b run).1 = BatchEnv.writes env (mapLba v (b * 65536) (run * 65536)) := by
  cases hm : mapLba v (b * 65536) (run * 65536) with
  | none =>
    rw [flushWrite_none h hrun hm]
    rfl
  | some es =>
    rw [flushWrite_some h hrun hm]
    simp only [BatchEnv.writes]
    have hslots := makeRequests_slot (memberList v) .write 0 0 es
    have hlen : (makeRequests (memberList v) .write 0 0 es).length = es.length := by
      have hl := congrArg List.length hslots
      simpa using hl
    generalize makeRequests (memberList v) .write 0 0 es = reqs at hslots hlen
    rw [List.length_take, hlen]
    by_cases hle : es.length ≤ env.stop.getD es.length
    · rw [List.take_of_length_le (by omega), all_ok env.io hslots, decide_eq_true hle, decide_eq_true (by omega)]
    · rw [decide_eq_false hle, decide_eq_false (by omega), Bool.false_and, Bool.false_and]

theorem stored_copied (env : FlushEnv) {v : StripeVolume} (h : CacheOk v.cache) (d : Disks) (b : ℕ) {run : ℕ}
    (hrun : run ≤ 256) : stored env v (b, run) =
      (anyOk (env.data b).answer v.diskCount && (flushWrite (env.batch b) (copied v b run) d b run).1) := by
  have hmap : mapLba (copied v b run) = mapLba v := (sameLayout_withFlush v _ _).mapLba
  have hok := flushWrite_ok (cacheOk_copied h b run) (env.batch b) d b hrun
  rw [hok, hmap, stored]

section Turn
variable (env : FlushEnv) (letter : DiskId → Letter) {s : FlushState}

theorem journalLoop_clean {b : ℕ} (fuel : ℕ) (hd : s.v.cache.dirtyMap b = false) (hb : b < s.v.cache.blockCount) :
    journalLoop env letter (fuel + 1) b s = journalLoop env letter fuel (b + 1) s := by
  rw [journalLoop, if_pos hb, flushScan_clean _ hd]

/-- The state after the batch `p`. -/
def afterBatch (s : FlushState) (p : ℕ × ℕ) : FlushState where
  v := if stored env s.v p then flushClear (copied s.v p.1 p.2) p.1 p.2 else copied s.v p.1 p.2
  d := if anyOk (env.data p.1).answer s.v.diskCount then (flushWrite (env.batch p.1) (copied s.v p.1 p.2) s.d p.1 p.2).2
    else s.d
  pieces := s.pieces ++ dataPieces env letter s.v p
  written := s.written ++ if stored env s.v p then [blockBytes s.v.cache.buffer p] else []
  flushed := s.flushed + if stored env s.v p then p.2 else 0

theorem journalLoop_batch {b : ℕ} (fuel : ℕ) (h : CacheOk s.v.cache) (hb : b < s.v.cache.blockCount)
    (hd : s.v.cache.dirtyMap b = true) :
    journalLoop env letter (fuel + 1) b s =
      journalLoop env letter fuel (b + batchRun s.v.cache s.v.virtualTotalBytes b)
        (afterBatch env letter s (b, batchRun s.v.cache s.v.virtualTotalBytes b)) := by
  obtain ⟨_, hrun, _⟩ := batchRun_spec s.v.virtualTotalBytes hb hd
  rw [journalLoop, if_pos hb, flushScan_dirty h _ hb hd]
  simp only [Bool.true_eq_false, if_false]
  generalize batchRun s.v.cache s.v.virtualTotalBytes b = run at hrun
  rw [batchRange_copied h b hrun]
  have hst := stored_copied env h s.d b hrun
  have happend : ∀ r, appendAll letter (copied s.v b run) r (env.data b).answer =
      (anyOk (env.data b).answer s.v.diskCount, (appendAll letter s.v r (env.data b).answer).2) := by
    intro r
    rw [appendAll, copied, (sameLayout_withFlush s.v _ _).diskCount, (sameLayout_withFlush s.v _ _).diskAt]
    rfl
  simp only [afterBatch, dataPieces, happend, hst]
  generalize blockBytes s.v.cache.buffer (b, run) = range
  generalize copied s.v b run = w
  cases hj : anyOk (env.data b).answer s.v.diskCount with
  | false => simp only [Bool.false_and, Bool.false_eq_true, if_false, List.append_nil, Nat.add_zero]
  | true =>
    simp only [Bool.true_and, if_true]
    generalize flushWrite (env.batch b) w s.d b run = r
    obtain ⟨ok, d⟩ := r
    cases ok with
    | false => simp only [Bool.false_eq_true, if_false, List.append_nil, Nat.add_zero]
    | true => rfl

end Turn

/-- The volume with another dirty map and flush buffer has the same batches stored from the
same bytes. -/
theorem batch_withFlush (env : FlushEnv) (letter : DiskId → Letter) (v : StripeVolume) (dirty : ℕ → Bool) (copy : Buf) :
    stored env (withFlush v dirty copy) = stored env v ∧
      dataPieces env letter (withFlush v dirty copy) = dataPieces env letter v :=
  ⟨stored_same (sameLayout_withFlush v dirty copy) env, rfl⟩

theorem afterBatch_v (env : FlushEnv) (letter : DiskId → Letter) (s : FlushState) (p : ℕ × ℕ) :
    ∃ dirty copy, (afterBatch env letter s p).v = withFlush s.v dirty copy ∧
      ∀ c, p.1 + p.2 ≤ c → dirty c = s.v.cache.dirtyMap c := by
  unfold afterBatch
  simp only
  split
  · refine ⟨_, _, flushClear_withFlush _ _ _ p.1 p.2, fun c hc => ?_⟩
    rw [decide_eq_false (show ¬ c < p.1 + p.2 by omega), Bool.and_false, Bool.false_and, Bool.not_false, Bool.and_true]
  · exact ⟨_, _, rfl, fun c _ => rfl⟩

/-- What the loop appends, writes and counts for the batches `l`. -/
structure Journalled (env : FlushEnv) (letter : DiskId → Letter) (s t : FlushState) (l : List (ℕ × ℕ)) : Prop where
  layout : SameLayout s.v t.v
  pieces : t.pieces = s.pieces ++ l.flatMap (dataPieces env letter s.v)
  written : t.written = s.written ++ (l.filter (stored env s.v)).map (blockBytes s.v.cache.buffer)
  flushed : 0 < t.flushed ↔ 0 < s.flushed ∨ ∃ p ∈ l, stored env s.v p = true

theorem journalLoop_spec (env : FlushEnv) (letter : DiskId → Letter) (fuel : ℕ) :
    ∀ (b : ℕ) (s : FlushState), CacheOk s.v.cache →
      Journalled env letter s (journalLoop env letter fuel b s)
        (batchesFrom s.v.cache s.v.virtualTotalBytes fuel b) := by
  induction fuel with
  | zero =>
    intro b s _
    exact ⟨SameLayout.refl _, (List.append_nil _).symm, (List.append_nil _).symm, by simp only [journalLoop, batchesFrom,
      List.not_mem_nil, false_and, exists_false, or_false]⟩
  | succ fuel ih =>
    intro b s h
    by_cases hb : b < s.v.cache.blockCount
    swap
    · rw [journalLoop, batchesFrom, if_neg hb, if_neg hb]
      exact ⟨SameLayout.refl _, (List.append_nil _).symm, (List.append_nil _).symm, by simp only [List.not_mem_nil,
        false_and, exists_false, or_false]⟩
    cases hd : s.v.cache.dirtyMap b with
    | false =>
      rw [journalLoop_clean env letter fuel hd hb, batchesFrom, if_pos hb, hd, if_neg (by decide)]
      exact ih (b + 1) s h
    | true =>
      obtain ⟨hpos, _, _⟩ := batchRun_spec s.v.virtualTotalBytes hb hd
      rw [journalLoop_batch env letter fuel h hb hd, batchesFrom, if_pos hb, hd, if_pos rfl]
      generalize batchRun s.v.cache s.v.virtualTotalBytes b = run at hpos
      obtain ⟨dirty, copy, hv, hdirty⟩ := afterBatch_v env letter s (b, run)
      have hsame : SameFrom (b + run) s.v.cache (withFlush s.v dirty copy).cache := ⟨rfl, rfl, hdirty⟩
      have hnext := ih (b + run) (afterBatch env letter s (b, run)) (by
        rw [hv]
        exact cacheOk_withFlush h dirty copy)
      generalize htt : journalLoop env letter fuel (b + run) (afterBatch env letter s (b, run)) = t at hnext
      obtain ⟨h1, h2, h3, h4⟩ := hnext
      obtain ⟨hst, hdp⟩ := batch_withFlush env letter s.v dirty copy
      have hbuf : (withFlush s.v dirty copy).cache.buffer = s.v.cache.buffer := rfl
      have htotal : (withFlush s.v dirty copy).virtualTotalBytes = s.v.virtualTotalBytes := rfl
      rw [hv] at h1 h2 h3 h4
      rw [htotal, hsame.batchesFrom] at h2 h3 h4
      rw [hdp] at h2
      rw [hst, hbuf] at h3
      rw [hst] at h4
      refine ⟨(sameLayout_withFlush _ _ _).trans h1, ?_, ?_, ?_⟩
      · rw [h2, List.flatMap_cons, ← List.append_assoc]
        rfl
      · rw [h3, List.filter_cons]
        simp only [afterBatch]
        split
        · rw [List.map_cons, List.append_assoc, List.singleton_append]
        · rw [List.append_nil]
      · rw [h4]
        simp only [afterBatch, List.mem_cons, exists_eq_or_imp]
        split
        · next hs => simp only [hs, true_or, or_true, iff_true]; omega
        · next hs => simp only [hs, Nat.add_zero, Bool.false_eq_true, false_or]

/-- The batches of a flush that starts on `v`. -/
def batches (v : StripeVolume) : List (ℕ × ℕ) := batchesFrom v.cache v.virtualTotalBytes v.cache.blockCount 0

/-- The cycle as a whole: the BEGIN, the batches, and a COMMIT if one of them is stored. -/
structure Cycled (env : FlushEnv) (letter : DiskId → Letter) (v : StripeVolume) (t : FlushState) : Prop where
  pieces : t.pieces = (journalWriteEntry letter v (.begin env.generation env.begin.time) env.begin.answer).2 ++
    (batches v).flatMap (dataPieces env letter v) ++
      if ∃ p ∈ batches v, stored env v p = true then
        (journalWriteEntry letter v (.commit env.generation env.commit.time) env.commit.answer).2
      else []
  written : t.written = ((batches v).filter (stored env v)).map (blockBytes v.cache.buffer)

theorem journalWriteEntry_same {v w : StripeVolume} (h : SameLayout v w) (letter : DiskId → Letter) (r : Rec)
    (a : ℕ → Append) : journalWriteEntry letter w r a = journalWriteEntry letter v r a := by
  unfold journalWriteEntry appendAll StripeVolume.checkDisks
  simp only [h.diskCount, h.disks, h.diskAt]

theorem journalledFlush_spec (env : FlushEnv) (letter : DiskId → Letter) {v : StripeVolume} (d : Disks)
    (h : CacheOk v.cache) (hf : v.cacheFlushInProgress = false) :
    Cycled env letter v (journalledFlush env letter v d) := by
  have hsame : SameLayout v { v with cacheFlushInProgress := true } := ⟨rfl, rfl, rfl, rfl, rfl, rfl, rfl, rfl⟩
  have hstored := stored_same hsame env
  unfold journalledFlush
  rw [hf]
  simp only [Bool.false_eq_true, if_false]
  generalize hopen : (journalWriteEntry letter v (.begin env.generation env.begin.time) env.begin.answer).2 = opening
  obtain ⟨h1, h2, h3, h4⟩ := journalLoop_spec env letter v.cache.blockCount 0
    ⟨{ v with cacheFlushInProgress := true }, d, opening, [], 0⟩ h
  generalize journalLoop env letter v.cache.blockCount 0
    ⟨{ v with cacheFlushInProgress := true }, d, opening, [], 0⟩ = t at h1 h2 h3 h4
  simp only [hstored, Nat.lt_irrefl, false_or, List.nil_append] at h2 h3 h4
  have hclose : ∀ r a, journalWriteEntry letter t.v r a = journalWriteEntry letter v r a :=
    journalWriteEntry_same (hsame.trans h1) letter
  constructor
  · have hany : 0 < t.flushed ↔ ∃ p ∈ batches v, stored env v p = true := h4
    simp only [hclose, h2, hopen]
    by_cases hpos : 0 < t.flushed
    · rw [if_pos hpos, if_pos (hany.mp hpos)]
      rfl
    · rw [if_neg hpos, if_neg (mt hany.mpr hpos)]
      rfl
  · exact h3

theorem mem_appendAll {letter : DiskId → Letter} {v : StripeVolume} {r : Rec} {a : ℕ → Append} {p : Piece} :
    p ∈ (appendAll letter v r a).2 ↔ ∃ i < v.diskCount, p = ⟨letter (v.diskAt i), r, a i⟩ := by
  simp only [appendAll, List.mem_map, List.mem_range, eq_comm]

theorem mem_writeEntry {letter : DiskId → Letter} {v : StripeVolume} {r : Rec} {a : ℕ → Append} {p : Piece} :
    p ∈ (journalWriteEntry letter v r a).2 ↔
      v.checkDisks = true ∧ ∃ i < v.diskCount, p = ⟨letter (v.diskAt i), r, a i⟩ := by
  unfold journalWriteEntry
  cases v.checkDisks with
  | false => simp only [if_true, List.not_mem_nil, Bool.false_eq_true, false_and]
  | true => simp only [Bool.true_eq_false, if_false, mem_appendAll, true_and]

/-- A COMMIT of the cycle is whole in one of the journals. -/
theorem Cycled.commit {env : FlushEnv} {letter : DiskId → Letter} {v : StripeVolume} {t : FlushState}
    (h : Cycled env letter v t) :
    (∃ p ∈ t.pieces, p.whole = true ∧ ∃ g time, p.entry = .commit g time) ↔
      (∃ p ∈ batches v, stored env v p = true) ∧ v.checkDisks = true ∧
        ∃ i < v.diskCount, (env.commit.answer i).whole entrySize = true := by
  have hlen : ∀ g time, (Rec.commit g time).image.length = entrySize := fun g time => (Rec.commit g time).image_length
  rw [h.pieces]
  constructor
  · rintro ⟨p, hp, hwhole, g, time, hcommit⟩
    rcases List.mem_append.mp hp with hp | hp
    · exfalso
      rcases List.mem_append.mp hp with hp | hp
      · obtain ⟨_, i, _, rfl⟩ := mem_writeEntry.mp hp
        cases hcommit
      · obtain ⟨q, _, hq⟩ := List.mem_flatMap.mp hp
        obtain ⟨i, _, rfl⟩ := mem_appendAll.mp hq
        cases hcommit
    · split at hp
      · next hany =>
        obtain ⟨hcheck, i, hi, rfl⟩ := mem_writeEntry.mp hp
        simp only [Piece.whole, hlen] at hwhole
        exact ⟨hany, hcheck, i, hi, hwhole⟩
      · cases hp
  · rintro ⟨hany, hcheck, i, hi, hwhole⟩
    refine ⟨⟨letter (v.diskAt i), .commit env.generation env.commit.time, env.commit.answer i⟩, ?_, ?_, _, _, rfl⟩
    · rw [if_pos hany]
      exact List.mem_append_right _ (mem_writeEntry.mpr ⟨hcheck, i, hi, rfl⟩)
    · simp only [Piece.whole, hlen]
      exact hwhole

theorem mem_dataPieces {env : FlushEnv} {letter : DiskId → Letter} {v : StripeVolume} {q : ℕ × ℕ} {p : Piece} :
    p ∈ dataPieces env letter v q ↔ ∃ i < v.diskCount,
      p = ⟨letter (v.diskAt i), env.record q.1 (blockBytes v.cache.buffer q), (env.data q.1).answer i⟩ := mem_appendAll

theorem blockBytes_length (buffer : Buf) (p : ℕ × ℕ) : (blockBytes buffer p).2.length = p.2 * 65536 := by
  rw [blockBytes, List.length_map, List.length_range]

theorem record_length (env : FlushEnv) (b : ℕ) (r : ℕ × List Byte) :
    (env.record b r).image.length = entrySize + r.2.length := Rec.image_length _

/-- A range is recorded whole in one of the journals exactly if it is one of the batches that
an append takes whole. -/
theorem Cycled.data {env : FlushEnv} {letter : DiskId → Letter} {v : StripeVolume} {t : FlushState}
    (h : Cycled env letter v t) (r : ℕ × List Byte) :
    (∃ p ∈ t.pieces, p.whole = true ∧ ∃ g time, p.entry = .data g time r.1 r.2) ↔
      ∃ p ∈ batches v, r = blockBytes v.cache.buffer p ∧
        ∃ i < v.diskCount, ((env.data p.1).answer i).whole (entrySize + p.2 * 65536) = true := by
  have hwhole : ∀ (q : ℕ × ℕ) i, Piece.whole ⟨letter (v.diskAt i), env.record q.1 (blockBytes v.cache.buffer q),
      (env.data q.1).answer i⟩ = ((env.data q.1).answer i).whole (entrySize + q.2 * 65536) := by
    intro q i
    rw [Piece.whole, record_length, blockBytes_length]
  rw [h.pieces]
  constructor
  · rintro ⟨p, hp, hw, g, time, hdata⟩
    rcases List.mem_append.mp hp with hp | hp
    · rcases List.mem_append.mp hp with hp | hp
      · obtain ⟨_, i, _, rfl⟩ := mem_writeEntry.mp hp
        cases hdata
      · obtain ⟨q, hq, hp⟩ := List.mem_flatMap.mp hp
        obtain ⟨i, hi, rfl⟩ := mem_dataPieces.mp hp
        rw [hwhole] at hw
        refine ⟨q, hq, ?_, i, hi, hw⟩
        generalize blockBytes v.cache.buffer q = range at hdata
        obtain ⟨_, _, h1, h2⟩ := Rec.data.inj hdata
        exact (Prod.ext h1 h2).symm
    · split at hp
      · obtain ⟨_, i, _, rfl⟩ := mem_writeEntry.mp hp
        cases hdata
      · cases hp
  · rintro ⟨q, hq, he, i, hi, hw⟩
    refine ⟨⟨letter (v.diskAt i), env.record q.1 (blockBytes v.cache.buffer q), (env.data q.1).answer i⟩, ?_,
      (hwhole q i).trans hw, env.generation, (env.data q.1).time, ?_⟩
    · exact List.mem_append_left _ (List.mem_append_right _ (List.mem_flatMap.mpr ⟨q, hq, mem_dataPieces.mpr ⟨i, hi, rfl⟩⟩))
    · rw [← he]
      rfl

/-! ### The bytes of the stored batches -/

theorem journalLoop_bytes (env : FlushEnv) (letter : DiskId → Letter) (fuel : ℕ) :
    ∀ (b : ℕ) (s : FlushState), CachedVolume s.v →
      (∀ x < s.v.virtualTotalBytes, x < b * 65536 →
        vbyte s.v (journalLoop env letter fuel b s).d x = vbyte s.v s.d x) ∧
      ∀ p ∈ batchesFrom s.v.cache s.v.virtualTotalBytes fuel b, stored env s.v p = true →
        ∀ x, p.1 * 65536 ≤ x → x < batchEnd s.v p.1 p.2 →
          vbyte s.v (journalLoop env letter fuel b s).d x = s.v.cache.buffer x := by
  induction fuel with
  | zero =>
    intro b s _
    rw [journalLoop, batchesFrom]
    exact ⟨fun _ _ _ => rfl, fun p hp => absurd hp List.not_mem_nil⟩
  | succ fuel ih =>
    intro b s h
    by_cases hb : b < s.v.cache.blockCount
    swap
    · rw [journalLoop, batchesFrom, if_neg hb, if_neg hb]
      exact ⟨fun _ _ _ => rfl, fun p hp => absurd hp List.not_mem_nil⟩
    cases hd : s.v.cache.dirtyMap b with
    | false =>
      rw [journalLoop_clean env letter fuel hd hb, batchesFrom, if_pos hb, hd, if_neg (by decide)]
      obtain ⟨h1, h2⟩ := ih (b + 1) s h
      refine ⟨fun x hx hlt => h1 x hx ?_, h2⟩
      exact Nat.lt_of_lt_of_le hlt (Nat.mul_le_mul_right _ (Nat.le_succ b))
    | true =>
      obtain ⟨hpos, hrun, _⟩ := batchRun_spec s.v.virtualTotalBytes hb hd
      rw [journalLoop_batch env letter fuel h.cache hb hd, batchesFrom, if_pos hb, hd, if_pos rfl]
      generalize batchRun s.v.cache s.v.virtualTotalBytes b = run at hpos hrun
      obtain ⟨dirty, copy, hv, hdirty⟩ := afterBatch_v env letter s (b, run)
      have hsame : SameFrom (b + run) s.v.cache (withFlush s.v dirty copy).cache := ⟨rfl, rfl, hdirty⟩
      obtain ⟨h1, h2⟩ := ih (b + run) (afterBatch env letter s (b, run)) (by
        rw [hv]
        exact h.withFlush dirty copy)
      have hl := sameLayout_withFlush s.v dirty copy
      have hstored := (batch_withFlush env letter s.v dirty copy).1
      have hbuf : (withFlush s.v dirty copy).cache.buffer = s.v.cache.buffer := rfl
      have htotal : (withFlush s.v dirty copy).virtualTotalBytes = s.v.virtualTotalBytes := rfl
      have hend : ∀ p : ℕ × ℕ, batchEnd (withFlush s.v dirty copy) p.1 p.2 = batchEnd s.v p.1 p.2 := fun _ => rfl
      rw [hv] at h1 h2
      simp only [hl.vbyte, hstored, hbuf, htotal, hsame.batchesFrom, hend] at h1 h2
      -- the writes of this batch
      have hw := flushWrite_copied h (env.batch b) s.d b hrun
      have hst := stored_copied env h.cache s.d b hrun
      have hdisk : (afterBatch env letter s (b, run)).d = if anyOk (env.data b).answer s.v.diskCount then
          (flushWrite (env.batch b) (copied s.v b run) s.d b run).2 else s.d := rfl
      have hframe : ∀ x < s.v.virtualTotalBytes, x < b * 65536 →
          vbyte s.v (afterBatch env letter s (b, run)).d x = vbyte s.v s.d x := by
        intro x hx hlt
        rw [hdisk]
        split
        · exact hw.frame x hx (Or.inl hlt)
        · rfl
      refine ⟨fun x hx hlt => (h1 x hx ?_).trans (hframe x hx hlt), fun p hp hs x hx1 hx2 => ?_⟩
      · exact Nat.lt_of_lt_of_le hlt (Nat.mul_le_mul_right _ (Nat.le_add_right b run))
      rcases List.mem_cons.mp hp with rfl | hp
      · have hlt : x < (b + run) * 65536 := Nat.lt_of_lt_of_le hx2 (Nat.min_le_left _ _)
        have htot : x < s.v.virtualTotalBytes := Nat.lt_of_lt_of_le hx2 (Nat.min_le_right _ _)
        rw [hst] at hs
        obtain ⟨ha, ht⟩ := (Bool.and_eq_true _ _).mp hs
        rw [h1 x htot hlt, hdisk, if_pos ha]
        exact hw.data ht x hx1 hx2
      · exact h2 p hp hs x hx1 hx2

/-! ### COMMIT and the batches before it -/

/-- If a COMMIT of the cycle is whole in a journal, all writes of every range that a whole DATA
record of the cycle names have succeeded. -/
def FlushState.CommitApplied (t : FlushState) : Prop :=
  (∃ p ∈ t.pieces, p.whole = true ∧ ∃ g time, p.entry = .commit g time) →
    ∀ p ∈ t.pieces, p.whole = true → ∀ g time off payload, p.entry = .data g time off payload →
      (off, payload) ∈ t.written

/-- One cycle of `cache_flush_all`: its COMMIT covers only what was written exactly if no batch
is stored, or no journal takes the COMMIT whole, or every batch that a journal takes whole is
stored. What was written is on the members when the cycle ends. -/
theorem flush_commit (env : FlushEnv) (letter : DiskId → Letter) (v : StripeVolume) (d : Disks)
    (h : CacheOk v.cache) :
    ((journalledFlush env letter v d).CommitApplied ↔
      v.cacheFlushInProgress = true ∨ (∀ p ∈ batches v, stored env v p = false) ∨
        ¬ (v.checkDisks = true ∧ ∃ i < v.diskCount, (env.commit.answer i).whole entrySize = true) ∨
        ∀ p ∈ batches v, (∃ i < v.diskCount, ((env.data p.1).answer i).whole (entrySize + p.2 * 65536) = true) →
          stored env v p = true) ∧
    (CachedVolume v → ∀ r ∈ (journalledFlush env letter v d).written, ∀ j < r.2.length,
      r.1 + j < v.virtualTotalBytes → vbyte v (journalledFlush env letter v d).d (r.1 + j) = r.2.getD j 0) := by
  cases hf : v.cacheFlushInProgress with
  | true =>
    have hidle : journalledFlush env letter v d = ⟨v, d, [], [], 0⟩ := by
      unfold journalledFlush
      rw [hf, if_pos rfl]
    rw [hidle]
    refine ⟨⟨fun _ => Or.inl rfl, ?_⟩, fun _ r hr => absurd hr List.not_mem_nil⟩
    rintro _ ⟨p, hp, _⟩
    exact absurd hp List.not_mem_nil
  | false =>
    have hc := journalledFlush_spec env letter d h hf
    constructor
    · rw [or_iff_right Bool.false_ne_true]
      constructor
      · intro happlied
        by_contra hno
        simp only [not_or, not_not, not_forall, Bool.not_eq_false] at hno
        obtain ⟨⟨q, hq, hst⟩, hcommit, p, hp, hwhole, hfail⟩ := hno
        obtain ⟨x, hx, hxw, g, time, hdata⟩ := (hc.data (blockBytes v.cache.buffer p)).mpr ⟨p, hp, rfl, hwhole⟩
        have hin := happlied (hc.commit.mpr ⟨⟨q, hq, hst⟩, hcommit⟩) x hx hxw g time _ _ hdata
        rw [hc.written] at hin
        -- a batch is known by its first block and its length
        obtain ⟨p', hp', he⟩ := List.mem_map.mp hin
        have hfst := congrArg Prod.fst he
        have hlen := congrArg List.length (congrArg Prod.snd he)
        rw [blockBytes_length, blockBytes_length] at hlen
        have hsame : p' = p := by
          apply Prod.ext
          · exact Nat.eq_of_mul_eq_mul_right (by decide) hfst
          · exact Nat.eq_of_mul_eq_mul_right (by decide) hlen
        rw [hsame] at hp'
        exact hfail (List.mem_filter.mp hp').2
      · rintro hcond hcommitted x hx hxw g time off payload hdata
        obtain ⟨⟨q, hq, hst⟩, hcommit⟩ := hc.commit.mp hcommitted
        obtain ⟨p, hp, he, hwhole⟩ := (hc.data (off, payload)).mp ⟨x, hx, hxw, g, time, hdata⟩
        rw [hc.written, he]
        refine List.mem_map_of_mem (List.mem_filter.mpr ⟨hp, ?_⟩)
        rcases hcond with hnone | hno | hall
        · rw [hnone q hq] at hst
          cases hst
        · exact absurd hcommit hno
        · exact hall p hp hwhole
    · intro hv r hr j hj hin
      have hsame : SameLayout v { v with cacheFlushInProgress := true } := ⟨rfl, rfl, rfl, rfl, rfl, rfl, rfl, rfl⟩
      rw [hc.written] at hr
      obtain ⟨p, hp, rfl⟩ := List.mem_map.mp hr
      obtain ⟨hp, hst⟩ := List.mem_filter.mp hp
      rw [blockBytes_length] at hj
      have hbytes := (journalLoop_bytes env letter v.cache.blockCount 0 ⟨{ v with cacheFlushInProgress := true }, d,
        (journalWriteEntry letter v (.begin env.generation env.begin.time) env.begin.answer).2, [], 0⟩
        (hv.of_same hsame hv.cache hv.enabled)).2 p hp ((congrFun (stored_same hsame env) p).trans hst)
        (p.1 * 65536 + j) (Nat.le_add_right _ _)
      simp only [hsame.vbyte] at hbytes
      have hstate : (journalledFlush env letter v d).d = (journalLoop env letter v.cache.blockCount 0
          ⟨{ v with cacheFlushInProgress := true }, d,
            (journalWriteEntry letter v (.begin env.generation env.begin.time) env.begin.answer).2, [], 0⟩).d := by
        unfold journalledFlush
        rw [hf, if_neg Bool.false_ne_true]
      simp only [blockBytes] at hin ⊢
      rw [hstate, hbytes, List.getD_eq_getElem _ _ (by simpa using hj), List.getElem_map, List.getElem_range]
      · rfl
      · refine Nat.lt_min.mpr ⟨?_, hin⟩
        rw [Nat.add_mul]
        exact Nat.add_lt_add_left hj _

/-- The pair volume with three blocks cached, the first and the last of them dirty. -/
def gapCached : StripeVolume :=
  { pairVolume with
    cache := { (cacheInit .good .zero 196608).2 with dirtyMap := fun b => b == 0 || b == 2 }
    cacheEnabled := true }

theorem gapCached_ok : CachedVolume gapCached where
  ready := (show SameLayout pairVolume gapCached from ⟨rfl, rfl, rfl, rfl, rfl, rfl, rfl, rfl⟩).ready pairVolume_ready
  level := rfl
  cache :=
    have h := (cacheInit_ok (show cacheInit .good .zero 196608 = (true, (cacheInit .good .zero 196608).2) from rfl)).1
    ⟨h.allocated, h.blockSize, h.count, h.size, h.flushBuffer⟩
  enabled := rfl

/-- No event can be created for the first batch; everything else succeeds. -/
def gapEnv : FlushEnv :=
  ⟨0, ⟨0, fun _ => .done⟩, fun _ => ⟨0, fun _ => .done⟩,
    fun b => ⟨true, if b = 0 then some 0 else none, .good⟩, ⟨0, fun _ => .done⟩⟩

theorem gapCached_batches : batches gapCached = [(0, 1), (2, 1)] := by decide +kernel

theorem gapCached_stored : stored gapEnv gapCached (0, 1) = false ∧ stored gapEnv gapCached (2, 1) = true := by
  decide +kernel

/-- The first batch is recorded and not written, and the cycle is committed. -/
theorem flush_commit_fails : ¬ (journalledFlush gapEnv id gapCached pairDisks).CommitApplied := by
  intro happlied
  have hc := journalledFlush_spec gapEnv id pairDisks gapCached_ok.cache rfl
  have hcommit := hc.commit.mpr ⟨⟨(2, 1), by rw [gapCached_batches]; decide, gapCached_stored.2⟩, by decide, 0,
    by decide, rfl⟩
  obtain ⟨x, hx, hxw, g, time, hdata⟩ := (hc.data (blockBytes gapCached.cache.buffer (0, 1))).mpr
    ⟨(0, 1), by rw [gapCached_batches]; decide, rfl, 0, by decide, rfl⟩
  have hin := happlied hcommit x hx hxw g time _ _ hdata
  rw [hc.written, gapCached_batches, List.filter_cons, List.filter_cons, gapCached_stored.1, gapCached_stored.2] at hin
  obtain ⟨p, hp, he⟩ := List.mem_map.mp hin
  have hp' : p = (2, 1) := by simpa using hp
  have hfst := congrArg Prod.fst he
  rw [hp'] at hfst
  exact absurd hfst (by decide)

theorem flush_commit_sample :
    ((journalledFlush gapEnv id gapCached pairDisks).CommitApplied ↔
      gapCached.cacheFlushInProgress = true ∨ (∀ p ∈ batches gapCached, stored gapEnv gapCached p = false) ∨
        ¬ (gapCached.checkDisks = true ∧
          ∃ i < gapCached.diskCount, (gapEnv.commit.answer i).whole entrySize = true) ∨
        ∀ p ∈ batches gapCached,
          (∃ i < gapCached.diskCount, ((gapEnv.data p.1).answer i).whole (entrySize + p.2 * 65536) = true) →
          stored gapEnv gapCached p = true) ∧
    (CachedVolume gapCached → ∀ r ∈ (journalledFlush gapEnv id gapCached pairDisks).written, ∀ j < r.2.length,
      r.1 + j < gapCached.virtualTotalBytes →
        vbyte gapCached (journalledFlush gapEnv id gapCached pairDisks).d (r.1 + j) = r.2.getD j 0) :=
  flush_commit gapEnv id gapCached pairDisks gapCached_ok.cache

end RaidTest.Journal
