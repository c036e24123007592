import RaidTest.Cache.FlushSpec

/-!
# The events and requests of one batch (`cache_flush_all`)

Every entry of a batch gets an event and an overlapped write from the shared flush buffer. The
calls of a batch are listed in order: what it creates, issues, cancels, waits for and closes. A
batch that cannot create an event or issue a write leaves through two cleanup loops.
-/

namespace RaidTest.Cache
open RaidTest.Base RaidTest.Stripe

/-! ### The calls of a batch -/

/-- What `WriteFile` says: the write is done, it goes on, or it cannot be started. -/
inductive Issue where
  | done
  | pending
  | failed
  deriving Repr, DecidableEq

/-- The answers of the environment to one entry: whether there is an event, what `WriteFile` and
the request itself come to, and whether the request has ended by itself when the batch is left. -/
structure EntryEnv where
  created : Bool
  write : Issue
  result : Transfer
  landed : Bool

/-- A call for entry `e`. -/
inductive BatchCall where
  | create (e : ℕ)
  | write (e : ℕ)
  | cancel (e : ℕ)
  | wait (e : ℕ)
  | close (e : ℕ)
  deriving Repr, DecidableEq

/-- `ok`, the entries of `events` that are not `NULL`, and the calls made so far. -/
structure BatchState where
  ok : Bool
  events : ℕ → Bool
  calls : List BatchCall

/-- `if (events[e]) CancelIoEx(..); CloseHandle(events[e])`. -/
def cancelClose (events : ℕ → Bool) (e : ℕ) : List BatchCall :=
  (if events e then [.cancel e] else []) ++ [.close e]

/-- The loop that issues the entries, from number `e` on. -/
def issueLoop (env : ℕ → EntryEnv) : ℕ → ℕ → BatchState → BatchState
  | 0, _, s => s
  | n + 1, e, s =>
    if (env e).created = false then
      { s with ok := false, calls := s.calls ++ (List.range e).flatMap (cancelClose s.events) }
    else
      let s := { s with
        events := fun j => decide (j = e) || s.events j
        calls := s.calls ++ [.create e, .write e] }
      if (env e).write = .failed then
        { s with ok := false, events := fun j => !decide (j = e) && s.events j, calls := s.calls ++ [.close e] }
      else issueLoop env n (e + 1) s

/-- The batch from the first event to the last: whether its writes succeeded, and its calls. -/
def flushBatch (env : ℕ → EntryEnv) (n : ℕ) : Bool × List BatchCall :=
  let s := issueLoop env n 0 ⟨true, fun _ => false, []⟩
  if s.ok then
    ((List.range n).all fun e => (env e).result.isOk,
      s.calls ++ (List.range n).flatMap fun e => [.wait e, .close e])
  else
    (false, s.calls ++ (List.range n).flatMap fun e => if s.events e then [.cancel e, .close e] else [])

/-! ### Where a batch stops -/

def stops (x : EntryEnv) : Bool := !x.created || decide (x.write = .failed)

theorem stops_write {x : EntryEnv} (h : stops x = true) (hc : ¬ x.created = false) : x.write = .failed := by
  unfold stops at h
  rw [Bool.not_eq_false] at hc
  rw [hc] at h
  exact of_decide_eq_true h

/-- The first entry without an event or without a write. -/
def firstStop (env : ℕ → EntryEnv) (n : ℕ) : Option ℕ := (List.range n).find? fun e => stops (env e)

/-- The calls for the entries before `k` that were issued. -/
def issuedCalls (k : ℕ) : List BatchCall := (List.range k).flatMap fun e => [.create e, .write e]

theorem issuedCalls_succ (k : ℕ) : issuedCalls (k + 1) = issuedCalls k ++ [.create k, .write k] := by
  unfold issuedCalls
  rw [List.range_succ, List.flatMap_append, List.flatMap_singleton]

/-- The state before entry `k`, with every entry up to there issued. -/
def issuedState (k : ℕ) : BatchState := ⟨true, fun j => decide (j < k), issuedCalls k⟩

theorem issueLoop_issued (env : ℕ → EntryEnv) {n e : ℕ} (h : stops (env e) = false) :
    issueLoop env (n + 1) e (issuedState e) = issueLoop env n (e + 1) (issuedState (e + 1)) := by
  unfold stops at h
  rw [Bool.or_eq_false_iff, Bool.not_eq_false'] at h
  have hevents : (fun j => decide (j = e) || decide (j < e)) = fun j => decide (j < e + 1) := by
    funext j
    rw [← Bool.decide_or, decide_eq_decide]
    omega
  rw [issueLoop, if_neg (by rw [h.1]; decide)]
  simp only
  rw [if_neg (of_decide_eq_false h.2)]
  simp only [issuedState, hevents, issuedCalls_succ]

/-- The loop runs through the entries before the first that stops it. -/
theorem issueLoop_reaches (env : ℕ → EntryEnv) {n k : ℕ} (hk : k ≤ n) (h : ∀ e < k, stops (env e) = false) :
    issueLoop env n 0 (issuedState 0) = issueLoop env (n - k) k (issuedState k) := by
  induction k with
  | zero => rfl
  | succ k ih =>
    rw [ih (by omega) fun e he => h e (by omega), show n - k = n - (k + 1) + 1 by omega,
      issueLoop_issued env (h k (Nat.lt_succ_self k))]

theorem issueLoop_whole (env : ℕ → EntryEnv) {n : ℕ} (h : firstStop env n = none) :
    issueLoop env n 0 (issuedState 0) = issuedState n := by
  have hall : ∀ e < n, stops (env e) = false := by
    intro e he
    have hn := List.find?_eq_none.mp h e (List.mem_range.mpr he)
    rw [Bool.eq_false_iff]
    exact hn
  rw [issueLoop_reaches env (Nat.le_refl n) hall, Nat.sub_self, issueLoop]

theorem firstStop_some {env : ℕ → EntryEnv} {n k : ℕ} (h : firstStop env n = some k) :
    k < n ∧ stops (env k) = true ∧ ∀ e < k, stops (env e) = false := by
  obtain ⟨h1, h2, h3⟩ := List.find?_range_eq_some.mp h
  refine ⟨List.mem_range.mp h2, h1, fun e he => ?_⟩
  have hn := h3 e he
  rw [Bool.not_eq_true'] at hn
  exact hn

/-- The state the loop stops in at entry `k`. -/
theorem issueLoop_stopped (env : ℕ → EntryEnv) {n k : ℕ} (h : firstStop env n = some k) :
    issueLoop env n 0 (issuedState 0) =
      if (env k).created = false then
        ⟨false, fun j => decide (j < k), issuedCalls k ++ (List.range k).flatMap (cancelClose fun j => decide (j < k))⟩
      else ⟨false, fun j => decide (j < k), issuedCalls (k + 1) ++ [.close k]⟩ := by
  obtain ⟨hk, hs, hbefore⟩ := firstStop_some h
  rw [issueLoop_reaches env (Nat.le_of_lt hk) hbefore, show n - k = n - (k + 1) + 1 by omega, issueLoop]
  by_cases hc : (env k).created = false
  · rw [if_pos hc, if_pos hc]
    rfl
  · have hw := stops_write hs hc
    have hevents : (fun j => !decide (j = k) && (decide (j = k) || decide (j < k))) = fun j => decide (j < k) := by
      funext j
      by_cases hj : j = k
      · subst hj
        simp only [decide_true, Bool.not_true, Bool.false_and, Nat.lt_irrefl, decide_false]
      · simp only [hj, decide_false, Bool.not_false, Bool.true_and, Bool.false_or]
    rw [if_neg hc, if_neg hc]
    simp only
    rw [if_pos hw]
    simp only [issuedState, hevents, issuedCalls_succ]

/-! ### What a batch has closed and finished -/

/-- How often a call is made for the entries before `n`, when each entry makes calls of its own. -/
theorem count_entries {f : ℕ → List BatchCall} {x : BatchCall} {i c : ℕ} (h : ∀ j, (f j).count x = if j = i then c else 0)
    (n : ℕ) : ((List.range n).flatMap f).count x = if i < n then c else 0 := by
  induction n with
  | zero => rfl
  | succ n ih =>
    rw [List.range_succ, List.flatMap_append, List.flatMap_singleton, List.count_append, ih, h]
    by_cases hn : n = i
    · rw [if_neg (by omega), if_pos hn, if_pos (by omega), Nat.zero_add]
    · rw [if_neg hn, Nat.add_zero]
      by_cases hi : i < n
      · rw [if_pos hi, if_pos (by omega)]
      · rw [if_neg hi, if_neg (by omega)]

theorem issuedCalls_close (k e : ℕ) : (issuedCalls k).count (.close e) = 0 := by
  rw [issuedCalls, count_entries (i := e) (c := 0) fun j => ?_, ite_self]
  rw [ite_self]
  rfl

theorem mem_issuedCalls (k e : ℕ) : (.create e ∈ issuedCalls k ↔ e < k) ∧ (.write e ∈ issuedCalls k ↔ e < k) := by
  simp only [issuedCalls, List.mem_flatMap, List.mem_range, List.mem_cons, BatchCall.create.injEq, BatchCall.write.injEq,
    reduceCtorEq, List.not_mem_nil, or_false, false_or, exists_eq_right']
  exact ⟨trivial, trivial⟩

/-- The calls of the cleanup loop at the end, when the events before `k` are open. -/
def cleanupCalls (n k : ℕ) : List BatchCall :=
  (List.range n).flatMap fun e => if decide (e < k) then [.cancel e, .close e] else []

theorem cleanupCalls_close {n k : ℕ} (hk : k ≤ n) (e : ℕ) :
    (cleanupCalls n k).count (.close e) = if e < k then 1 else 0 := by
  rw [cleanupCalls, count_entries (i := e) (c := if e < k then 1 else 0) fun j => ?_]
  · by_cases he : e < k
    · rw [if_pos he, if_pos (by omega)]
    · rw [if_neg he, ite_self]
  · by_cases hj : j = e
    · subst hj
      by_cases he : j < k
      · simp [he]
      · simp [he]
    · by_cases he : j < k
      · simp [he, hj]
      · simp [he, hj]

theorem stoppedCalls_close (k e : ℕ) :
    ((List.range k).flatMap (cancelClose fun j => decide (j < k))).count (.close e) = if e < k then 1 else 0 := by
  refine count_entries (fun j => ?_) k
  by_cases hj : j = e
  · subst hj
    by_cases he : j < k
    · simp [cancelClose, he]
    · simp [cancelClose, he]
  · by_cases he : j < k
    · simp [cancelClose, he, hj]
    · simp [cancelClose, he, hj]

/-- Every event is closed once, and no request is still on its way from the flush buffer. -/
structure Unwound (env : ℕ → EntryEnv) (calls : List BatchCall) : Prop where
  closed : ∀ e, .create e ∈ calls → calls.count (.close e) = 1
  finished : ∀ e, .write e ∈ calls → (env e).write ≠ .failed →
    (env e).write = .done ∨ .wait e ∈ calls ∨ (env e).landed = true

/-- No entry stops the batch; or the first one does for want of an event; or a write cannot be started
and every request before it has ended. -/
def CleanStop (env : ℕ → EntryEnv) (n : ℕ) : Prop :=
  ∀ k, firstStop env n = some k →
    if (env k).created = false then k = 0
    else ∀ e < k, (env e).write = .done ∨ (env e).landed = true

theorem flushBatch_whole {env : ℕ → EntryEnv} {n : ℕ} (h : firstStop env n = none) :
    (flushBatch env n).2 = issuedCalls n ++ (List.range n).flatMap fun e => [.wait e, .close e] := by
  have hs := issueLoop_whole env h
  have h0 : issuedState 0 = ⟨true, fun _ => false, []⟩ := rfl
  rw [h0] at hs
  unfold flushBatch
  simp only [hs]
  rfl

theorem flushBatch_stopped {env : ℕ → EntryEnv} {n k : ℕ} (h : firstStop env n = some k) :
    (flushBatch env n).2 = (if (env k).created = false then
        issuedCalls k ++ (List.range k).flatMap (cancelClose fun j => decide (j < k))
      else issuedCalls (k + 1) ++ [.close k]) ++ cleanupCalls n k := by
  have hs := issueLoop_stopped env h
  have h0 : issuedState 0 = ⟨true, fun _ => false, []⟩ := rfl
  rw [h0] at hs
  unfold flushBatch
  simp only [hs]
  split <;> rfl

theorem whole_unwound (env : ℕ → EntryEnv) (n : ℕ) :
    Unwound env (issuedCalls n ++ (List.range n).flatMap fun e => [.wait e, .close e]) := by
  refine ⟨fun e he => ?_, fun e he _ => ?_⟩
  · have hlt : e < n := by
      rcases List.mem_append.mp he with h | h
      · exact ((mem_issuedCalls n e).1).mp h
      · simp at h
    rw [List.count_append, issuedCalls_close, count_entries (i := e) (c := 1) fun j => ?_, if_pos hlt]
    by_cases hj : j = e
    · simp [hj]
    · simp [hj]
  · have hlt : e < n := by
      rcases List.mem_append.mp he with h | h
      · exact ((mem_issuedCalls n e).2).mp h
      · simp at h
    refine Or.inr (Or.inl (List.mem_append_right _ ?_))
    exact List.mem_flatMap.mpr ⟨e, List.mem_range.mpr hlt, List.mem_cons_self ..⟩

theorem mem_cleanupCalls (n k e : ℕ) :
    .create e ∉ cleanupCalls n k ∧ .write e ∉ cleanupCalls n k ∧ .wait e ∉ cleanupCalls n k := by
  unfold cleanupCalls
  simp only [List.mem_flatMap, not_exists, not_and]
  refine ⟨fun j _ => ?_, fun j _ => ?_, fun j _ => ?_⟩ <;> split <;> simp

theorem mem_cancelClose (events : ℕ → Bool) (k e : ℕ) :
    .create e ∉ (List.range k).flatMap (cancelClose events) ∧ .write e ∉ (List.range k).flatMap (cancelClose events) := by
  unfold cancelClose
  simp only [List.mem_flatMap, not_exists, not_and]
  refine ⟨fun j _ => ?_, fun j _ => ?_⟩ <;> split <;> simp

/-- Stopped for want of event `k`: the inner loop and the loop at the end both close the events
before it. -/
theorem eventless_unwound (env : ℕ → EntryEnv) {n k : ℕ} (hk : k ≤ n) :
    Unwound env (issuedCalls k ++ (List.range k).flatMap (cancelClose fun j => decide (j < k)) ++ cleanupCalls n k) ↔
      k = 0 := by
  have hmem : ∀ e, (.create e ∈ issuedCalls k ++ (List.range k).flatMap (cancelClose fun j => decide (j < k)) ++
      cleanupCalls n k ↔ e < k) ∧ (.write e ∈ issuedCalls k ++
      (List.range k).flatMap (cancelClose fun j => decide (j < k)) ++ cleanupCalls n k ↔ e < k) := by
    intro e
    obtain ⟨h1, h2⟩ := mem_issuedCalls k e
    obtain ⟨h3, h4⟩ := mem_cancelClose (fun j => decide (j < k)) k e
    obtain ⟨h5, h6, _⟩ := mem_cleanupCalls n k e
    simp only [List.mem_append, h1, h2, h3, h4, h5, h6, or_false, and_self]
  constructor
  · intro h
    by_contra hne
    have hc := h.closed 0 ((hmem 0).1.mpr (by omega))
    rw [List.count_append, List.count_append, issuedCalls_close, stoppedCalls_close, cleanupCalls_close hk,
      if_pos (by omega)] at hc
    cases hc
  · rintro rfl
    exact ⟨fun e he => absurd ((hmem e).1.mp he) (Nat.not_lt_zero e),
      fun e he => absurd ((hmem e).2.mp he) (Nat.not_lt_zero e)⟩

/-- Stopped at a write that cannot be started: every event is closed once, and nobody waits. -/
theorem writeless_unwound {env : ℕ → EntryEnv} {n k : ℕ} (hk : k ≤ n) (hw : (env k).write = .failed)
    (hbefore : ∀ e < k, (env e).write ≠ .failed) :
    Unwound env (issuedCalls (k + 1) ++ [.close k] ++ cleanupCalls n k) ↔
      ∀ e < k, (env e).write = .done ∨ (env e).landed = true := by
  have hmem : ∀ e, (.create e ∈ issuedCalls (k + 1) ++ [.close k] ++ cleanupCalls n k ↔ e < k + 1) ∧
      (.write e ∈ issuedCalls (k + 1) ++ [.close k] ++ cleanupCalls n k ↔ e < k + 1) ∧
      .wait e ∉ issuedCalls (k + 1) ++ [.close k] ++ cleanupCalls n k := by
    intro e
    obtain ⟨h1, h2⟩ := mem_issuedCalls (k + 1) e
    obtain ⟨h3, h4, h5⟩ := mem_cleanupCalls n k e
    have h6 : .wait e ∉ issuedCalls (k + 1) := by
      simp [issuedCalls]
    simp only [List.mem_append, h1, h2, h3, h4, h5, h6, List.mem_singleton, reduceCtorEq, or_false, and_self, not_false_eq_true]
  constructor
  · intro h e he
    rcases h.finished e ((hmem e).2.1.mpr (by omega)) (hbefore e he) with hd | hwait | hl
    · exact Or.inl hd
    · exact absurd hwait (hmem e).2.2
    · exact Or.inr hl
  · intro h
    refine ⟨fun e he => ?_, fun e he hf => ?_⟩
    · have hlt := (hmem e).1.mp he
      rw [List.count_append, List.count_append, issuedCalls_close, cleanupCalls_close hk, List.count_singleton]
      by_cases hek : e = k
      · simp [hek]
      · have hne : ¬ k = e := fun hke => hek hke.symm
        simp [hne, show e < k by omega]
    · have hlt := (hmem e).2.1.mp he
      have hne : e ≠ k := by
        rintro rfl
        exact hf hw
      rcases h e (by omega) with hd | hl
      · exact Or.inl hd
      · exact Or.inr (Or.inr hl)

/-- A batch releases everything once and leaves no request behind exactly when it stops cleanly. -/
theorem flushBatch_unwound (env : ℕ → EntryEnv) (n : ℕ) : Unwound env (flushBatch env n).2 ↔ CleanStop env n := by
  unfold CleanStop
  cases hstop : firstStop env n with
  | none =>
    rw [flushBatch_whole hstop]
    exact iff_of_true (whole_unwound env n) nofun
  | some k =>
    obtain ⟨hk, hs, hbefore⟩ := firstStop_some hstop
    rw [flushBatch_stopped hstop]
    simp only [Option.some.injEq, forall_eq']
    by_cases hc : (env k).created = false
    · rw [if_pos hc, if_pos hc]
      exact eventless_unwound env (Nat.le_of_lt hk)
    · rw [if_neg hc, if_neg hc]
      have hwrites : ∀ e, stops (env e) = false → (env e).write ≠ .failed := fun e he hf => by
        rw [stops, hf] at he
        simp at he
      exact writeless_unwound (Nat.le_of_lt hk) (stops_write hs hc) fun e he => hwrites e (hbefore e he)

/-- The first of two entries is pending and the second one gets no event. -/
def eventless : ℕ → EntryEnv := fun e => ⟨decide (e = 0), .pending, .ok, true⟩

/-- The event of the first entry is closed twice. -/
theorem flushBatch_unwound_fails : ¬ Unwound eventless (flushBatch eventless 2).2 := by
  intro h
  have hcreated : .create 0 ∈ (flushBatch eventless 2).2 := by decide
  have htwice : (flushBatch eventless 2).2.count (.close 0) = 2 := by decide
  exact absurd ((h.closed 0 hcreated).symm.trans htwice) (by decide)

/-! ### The batch of a flush -/

/-- The answers to a batch as the flush takes them. -/
def batchAnswers (env : ℕ → EntryEnv) (n : ℕ) (io : IoEnv) : BatchEnv := ⟨true, firstStop env n, io⟩

theorem flushBatch_ok (env : ℕ → EntryEnv) (n : ℕ) :
    (flushBatch env n).1 = ((firstStop env n).isNone && (List.range n).all fun e => (env e).result.isOk) := by
  have h0 : issuedState 0 = ⟨true, fun _ => false, []⟩ := rfl
  cases hstop : firstStop env n with
  | none =>
    have hs := issueLoop_whole env hstop
    rw [h0] at hs
    simp only [flushBatch, hs, issuedState, if_true, Option.isNone_none, Bool.true_and]
  | some k =>
    have hs := issueLoop_stopped env hstop
    rw [h0] at hs
    simp only [flushBatch, hs, Option.isNone_some, Bool.false_and]
    split <;> rfl

/-- Requests issued up to the first stop succeed when nothing stops them and every transfer does. -/
theorem issued_ok (io : IoEnv) {reqs : List IoRequest} {n : ℕ} (hslots : reqs.map IoRequest.slot = List.range' 0 n)
    {stop : Option ℕ} (hstop : ∀ k, stop = some k → k < n) :
    (decide ((reqs.take (stop.getD reqs.length)).length = reqs.length) &&
      (reqs.take (stop.getD reqs.length)).all fun r => (io.result r.slot).isOk) =
    (stop.isNone && (List.range n).all fun e => (io.result e).isOk) := by
  have hlength : reqs.length = n := by
    rw [← List.length_map IoRequest.slot, hslots, List.length_range']
  cases stop with
  | none =>
    rw [Option.getD_none, List.take_length, all_ok io hslots, decide_eq_true rfl]
    simp only [IoEnv.allOk, ← List.range_eq_range', Option.isNone_none]
  | some k =>
    have hk := hstop k rfl
    rw [Option.getD_some, List.length_take, decide_eq_false (by omega)]
    rfl

/-- The flush takes a batch for written exactly when its calls say so. -/
theorem flushWrite_batch {v : StripeVolume} (h : CacheOk v.cache) (env : ℕ → EntryEnv) {io : IoEnv} (d : Disks) {b run : ℕ}
    (hrun : run ≤ 256) {es : List IoMappingEntry} (hm : mapLba v (b * 65536) (run * 65536) = some es)
    (hio : ∀ e, io.result e = (env e).result) :
    (flushWrite (batchAnswers env es.length io) v d b run).1 = (flushBatch env es.length).1 := by
  have hall : (fun e => (io.result e).isOk) = fun e => (env e).result.isOk := funext fun e => by rw [hio e]
  rw [flushWrite_some h hrun hm, flushBatch_ok, ← hall]
  exact issued_ok io (makeRequests_slot ..) fun k hk => (firstStop_some hk).1

end RaidTest.Cache
