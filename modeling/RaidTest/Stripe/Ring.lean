import RaidTest.Common
import RaidTest.Base.Ring
import RaidTest.Base.Trace

/-!
# The ring of a disk worker (`ring_push`, `ring_pop`, `disk_worker_thread`)

Producers push under `push_lock`: they read both sequence numbers, fill the slot, then
publish it. The worker frees a slot as it pops it and works on through the pointer: it
starts the I/O from the slot, and reads the slot's completion when the I/O has ended.
-/

namespace RaidTest.Stripe
open RaidTest.Base

/-! ### Steps -/

/-- The part of an `IO_REQUEST` that goes to `ReadFile` or `WriteFile`. -/
structure RingIo where
  op : IoOpType
  buffer : ℕ
  physicalOffset : ℕ
  length : ℕ
  deriving DecidableEq, Repr

/-- `IO_REQUEST` as it lies in the ring; `completion` is the address of the caller's record. -/
structure RingRequest where
  io : RingIo
  completion : ℕ
  deriving DecidableEq, Repr

/-- `IO_COMPLETION`. -/
structure IoCompletion where
  pending : ℤ
  error : Bool
  signalled : Bool

/-- A producer inside `ring_push`: its request, the `write_seq` it read, and whether the
slot is filled. -/
structure Producer where
  req : RingRequest
  ws : ℕ
  stored : Bool

/-- Where the worker is; `req` points to a slot. -/
inductive WorkerPc where
  | idle
  | popped (slot : ℕ)
  | started (slot : ℕ)

/-- `DISK_WORKER` and the completions. `pushed`, `issued` and `done` record the requests
published, the I/O issued and the completions decremented, in order. -/
structure RingState where
  entries : ℕ → RingRequest
  writeSeq : ℕ
  readSeq : ℕ
  producer : Option Producer
  worker : WorkerPc
  disk : DiskInfo
  completion : ℕ → IoCompletion
  pushed : List RingRequest
  issued : List RingIo
  done : List ℕ

/-- The `LONG` with these 32 bits. -/
def long (n : ℕ) : ℤ := if n < 2147483648 then n else n - 4294967296

/-- `ws - rs < IO_RING_SIZE` on `LONG`. -/
def hasRoom (ws rs : ℕ) : Bool := decide (long (u32 (ws + 4294967296 - rs)) < ioRingSize)

/-- `InterlockedDecrement`, and `SetEvent` when it comes to zero. -/
def IoCompletion.complete (c : IoCompletion) (ok : Bool) : IoCompletion :=
  { pending := c.pending - 1
    error := c.error || !ok
    signalled := c.signalled || decide (c.pending - 1 = 0) }

inductive RingLabel where
  | lock (req : RingRequest)
  | store
  | publish
  | pop
  | start
  | finish (ok : Bool)

def ringStep (s : RingState) : RingLabel → Option RingState
  | .lock req =>
    match s.producer with
    | none =>
      if hasRoom s.writeSeq s.readSeq then some { s with producer := some ⟨req, s.writeSeq, false⟩ }
      else some s
    | some _ => none
  | .store =>
    match s.producer with
    | some ⟨req, ws, false⟩ => some { s with
        entries := fun i => if i = ws % ioRingSize then req else s.entries i
        producer := some ⟨req, ws, true⟩ }
    | _ => none
  | .publish =>
    match s.producer with
    | some ⟨req, ws, true⟩ => some { s with
        writeSeq := u32 (ws + 1)
        producer := none
        pushed := s.pushed ++ [req] }
    | _ => none
  | .pop =>
    match s.worker with
    | .idle =>
      if s.writeSeq = s.readSeq then some s
      else some { s with readSeq := u32 (s.readSeq + 1), worker := .popped (s.readSeq % ioRingSize) }
    | _ => none
  | .start =>
    match s.worker with
    | .popped slot => some { s with issued := s.issued ++ [(s.entries slot).io], worker := .started slot }
    | _ => none
  | .finish ok =>
    match s.worker with
    | .started slot =>
      let c := (s.entries slot).completion
      some { s with
        disk := if ok then s.disk else { s.disk with faulty := true, healthy := false }
        completion := fun i => if i = c then (s.completion i).complete ok else s.completion i
        done := s.done ++ [c]
        worker := .idle }
    | _ => none

/-! ### The invariant -/

/-- The request the worker has popped and not finished, if any, is number `popped - 1`. -/
def WorkerOk (s : RingState) (popped : ℕ) : Prop :=
  match s.worker with
  | .idle => s.issued.length = popped ∧ s.done.length = popped
  | .popped slot => s.issued.length + 1 = popped ∧ s.done.length + 1 = popped ∧
      slot = (popped - 1) % ioRingSize ∧ s.pushed[popped - 1]? = some (s.entries slot)
  | .started slot => s.issued.length = popped ∧ s.done.length + 1 = popped ∧
      slot = (popped - 1) % ioRingSize ∧
      (s.pushed[popped - 1]?).map (·.completion) = some (s.entries slot).completion

structure RingOk (s : RingState) (popped : ℕ) : Prop where
  queued : Queued ioRingSize s.entries s.pushed popped
  writeSeq : s.writeSeq = u32 s.pushed.length
  readSeq : s.readSeq = u32 popped
  producer : ∀ p, s.producer = some p → p.ws = s.writeSeq ∧ s.pushed.length < popped + ioRingSize ∧
    (p.stored = true → s.entries (s.pushed.length % ioRingSize) = p.req)
  worker : WorkerOk s popped
  issued : s.issued <+: s.pushed.map (·.io)
  done : s.done <+: s.pushed.map (·.completion)

/-- A slot the worker still needs is not filled with another request. -/
def SlotKept (s : RingState) : RingLabel → Prop
  | .store =>
    match s.producer, s.worker with
    | some p, .popped slot => slot = p.ws % ioRingSize → p.req = s.entries slot
    | some p, .started slot => slot = p.ws % ioRingSize → p.req.completion = (s.entries slot).completion
    | _, _ => True
  | _ => True

instance (s : RingState) (l : RingLabel) : Decidable (SlotKept s l) :=
  match l with
  | .store =>
    match hp : s.producer, hw : s.worker with
    | some p, .popped slot => decidable_of_iff (slot = p.ws % ioRingSize → p.req = s.entries slot) (by
        simp only [SlotKept, hp, hw])
    | some p, .started slot => decidable_of_iff
        (slot = p.ws % ioRingSize → p.req.completion = (s.entries slot).completion) (by
        simp only [SlotKept, hp, hw])
    | some _, .idle => isTrue (by simp only [SlotKept, hp, hw])
    | none, _ => isTrue (by simp only [SlotKept, hp])
  | .lock _ | .publish | .pop | .start | .finish _ => isTrue True.intro

theorem u32_diff {pushed popped : ℕ} (h1 : popped ≤ pushed) (h2 : pushed ≤ popped + 64) :
    u32 (u32 pushed + 4294967296 - u32 popped) = pushed - popped := by
  unfold u32
  omega

theorem u32_succ (n : ℕ) : u32 (u32 n + 1) = u32 (n + 1) := by
  unfold u32
  omega

theorem hasRoom_iff {pushed popped : ℕ} (h1 : popped ≤ pushed) (h2 : pushed ≤ popped + 64) :
    hasRoom (u32 pushed) (u32 popped) = true ↔ pushed < popped + 64 := by
  unfold hasRoom
  rw [u32_diff h1 h2, decide_eq_true_eq, long, if_pos (by omega), show (ioRingSize : ℤ) = 64 from rfl]
  omega

theorem slot_u32 (n : ℕ) : u32 n % ioRingSize = n % ioRingSize := by
  unfold u32 ioRingSize
  omega

theorem prefix_snoc {α : Type} {l m : List α} {x : α} (h : l <+: m) (hx : m[l.length]? = some x) :
    l ++ [x] <+: m := by
  obtain ⟨r, rfl⟩ := h
  rw [List.getElem?_append_right (Nat.le_refl _), Nat.sub_self] at hx
  cases r with
  | nil => cases hx
  | cons y r =>
    obtain rfl := Option.some.inj hx
    exact ⟨r, by rw [List.append_assoc, List.singleton_append]⟩

/-! ### One lemma for each step -/

theorem RingOk.lock {s t : RingState} {popped : ℕ} {req : RingRequest} (h : RingOk s popped)
    (ht : ringStep s (.lock req) = some t) : RingOk t popped := by
  unfold ringStep at ht
  simp only at ht
  cases hp : s.producer with
  | some p =>
    rw [hp] at ht
    cases ht
  | none =>
    rw [hp] at ht
    simp only at ht
    split at ht
    · next hroom =>
      rw [h.writeSeq, h.readSeq, hasRoom_iff h.queued.le h.queued.room] at hroom
      obtain rfl := Option.some.inj ht
      have hproducer : ∀ p, some (Producer.mk req s.writeSeq false) = some p → p.ws = s.writeSeq ∧
          s.pushed.length < popped + ioRingSize ∧
          (p.stored = true → s.entries (s.pushed.length % ioRingSize) = p.req) := by
        intro p hq
        obtain rfl := Option.some.inj hq
        exact ⟨rfl, hroom, nofun⟩
      exact ⟨h.queued, h.writeSeq, h.readSeq, hproducer, h.worker, h.issued, h.done⟩
    · obtain rfl := Option.some.inj ht
      exact h

theorem RingOk.store {s t : RingState} {popped : ℕ} (h : RingOk s popped) (hkept : SlotKept s .store)
    (ht : ringStep s .store = some t) : RingOk t popped := by
  unfold ringStep at ht
  simp only at ht
  split at ht
  swap
  · cases ht
  next req ws hp =>
  obtain rfl := Option.some.inj ht
  obtain ⟨hws, hroom, -⟩ := h.producer _ hp
  have hcell : ws % ioRingSize = s.pushed.length % ioRingSize := by
    rw [show ws = s.writeSeq from hws, h.writeSeq, slot_u32]
  have hworker := h.worker
  simp only [WorkerOk] at hworker
  simp only [SlotKept, hp] at hkept
  constructor
  · simp only [hcell]
    exact h.queued.store hroom req
  · exact h.writeSeq
  · exact h.readSeq
  · intro p hq
    obtain rfl := Option.some.inj hq
    refine ⟨hws, hroom, fun _ => ?_⟩
    simp only [hcell, if_true]
  · -- the slot of the request in the worker's hands still serves it
    simp only [WorkerOk]
    cases hpc : s.worker with
    | idle =>
      simp only [hpc] at hworker ⊢
      exact hworker
    | popped slot =>
      simp only [hpc] at hworker hkept ⊢
      obtain ⟨h1, h2, h3, h4⟩ := hworker
      refine ⟨h1, h2, h3, ?_⟩
      by_cases he : slot = ws % ioRingSize
      · rw [if_pos he, hkept he]
        exact h4
      · rw [if_neg he]
        exact h4
    | started slot =>
      simp only [hpc] at hworker hkept ⊢
      obtain ⟨h1, h2, h3, h4⟩ := hworker
      refine ⟨h1, h2, h3, ?_⟩
      by_cases he : slot = ws % ioRingSize
      · rw [if_pos he, hkept he]
        exact h4
      · rw [if_neg he]
        exact h4
  · exact h.issued
  · exact h.done

theorem RingOk.publish {s t : RingState} {popped : ℕ} (h : RingOk s popped)
    (ht : ringStep s .publish = some t) : RingOk t popped := by
  unfold ringStep at ht
  simp only at ht
  split at ht
  swap
  · cases ht
  next req ws hp =>
  obtain rfl := Option.some.inj ht
  obtain ⟨hws, hroom, hstored⟩ := h.producer _ hp
  have hcell : s.entries (s.pushed.length % ioRingSize) = req := hstored rfl
  have hlen : (s.pushed ++ [req]).length = s.pushed.length + 1 := by
    rw [List.length_append, List.length_singleton]
  have hold : ∀ (i : ℕ) (x : RingRequest), s.pushed[i]? = some x → (s.pushed ++ [req])[i]? = some x := by
    intro i x hx
    rw [List.getElem?_append_left (List.getElem?_eq_some_iff.mp hx).1]
    exact hx
  have hworker := h.worker
  simp only [WorkerOk] at hworker
  constructor
  · rw [← hcell]
    exact h.queued.publish hroom
  · simp only [hlen]
    rw [show ws = s.writeSeq from hws, h.writeSeq, u32_succ]
  · exact h.readSeq
  · exact nofun
  · simp only [WorkerOk]
    cases hpc : s.worker with
    | idle =>
      simp only [hpc] at hworker ⊢
      exact hworker
    | popped slot =>
      simp only [hpc] at hworker ⊢
      obtain ⟨h1, h2, h3, h4⟩ := hworker
      exact ⟨h1, h2, h3, hold _ _ h4⟩
    | started slot =>
      simp only [hpc] at hworker ⊢
      obtain ⟨h1, h2, h3, h4⟩ := hworker
      obtain ⟨x, hx, hc⟩ := Option.map_eq_some_iff.mp h4
      exact ⟨h1, h2, h3, by rw [hold _ _ hx, Option.map_some, hc]⟩
  · rw [List.map_append]
    exact h.issued.trans (List.prefix_append _ _)
  · rw [List.map_append]
    exact h.done.trans (List.prefix_append _ _)

theorem RingOk.pop {s t : RingState} {popped : ℕ} (h : RingOk s popped)
    (ht : ringStep s .pop = some t) : ∃ n, RingOk t n := by
  unfold ringStep at ht
  simp only at ht
  split at ht
  swap
  · cases ht
  next hpc =>
  split at ht
  · obtain rfl := Option.some.inj ht
    exact ⟨popped, h⟩
  next hne =>
  obtain rfl := Option.some.inj ht
  have hle := h.queued.le
  have hlt : popped < s.pushed.length := by
    rw [h.writeSeq, h.readSeq] at hne
    by_contra hc
    exact hne (by rw [show s.pushed.length = popped by omega])
  have hworker := h.worker
  simp only [WorkerOk, hpc] at hworker
  have hslot : s.readSeq % ioRingSize = popped % ioRingSize := by rw [h.readSeq, slot_u32]
  refine ⟨popped + 1, ?_⟩
  constructor
  · exact h.queued.pop hlt
  · exact h.writeSeq
  · simp only [h.readSeq, u32_succ]
  · intro p hp
    obtain ⟨h1, h2, h3⟩ := h.producer p hp
    exact ⟨h1, Nat.lt_of_lt_of_le h2 (by omega), h3⟩
  · simp only [WorkerOk, hslot, Nat.add_sub_cancel]
    exact ⟨by omega, by omega, True.intro, h.queued.held popped (Nat.le_refl _) hlt⟩
  · exact h.issued
  · exact h.done

theorem RingOk.begin {s t : RingState} {popped : ℕ} (h : RingOk s popped)
    (ht : ringStep s .start = some t) : RingOk t popped := by
  unfold ringStep at ht
  simp only at ht
  split at ht
  swap
  · cases ht
  next slot hpc =>
  obtain rfl := Option.some.inj ht
  have hworker := h.worker
  simp only [WorkerOk, hpc] at hworker
  obtain ⟨h1, h2, h3, h4⟩ := hworker
  have hnext : s.pushed[s.issued.length]? = some (s.entries slot) := by
    rw [show s.issued.length = popped - 1 by omega]
    exact h4
  constructor
  · exact h.queued
  · exact h.writeSeq
  · exact h.readSeq
  · exact h.producer
  · simp only [WorkerOk, List.length_append, List.length_singleton]
    exact ⟨h1, h2, h3, by rw [h4, Option.map_some]⟩
  · apply prefix_snoc h.issued
    rw [List.getElem?_map, hnext, Option.map_some]
  · exact h.done

theorem RingOk.finish {s t : RingState} {popped : ℕ} {ok : Bool} (h : RingOk s popped)
    (ht : ringStep s (.finish ok) = some t) : RingOk t popped := by
  unfold ringStep at ht
  simp only at ht
  split at ht
  swap
  · cases ht
  next slot hpc =>
  obtain rfl := Option.some.inj ht
  have hworker := h.worker
  simp only [WorkerOk, hpc] at hworker
  obtain ⟨h1, h2, h3, h4⟩ := hworker
  constructor
  · exact h.queued
  · exact h.writeSeq
  · exact h.readSeq
  · exact h.producer
  · simp only [WorkerOk, List.length_append, List.length_singleton]
    exact ⟨h1, h2⟩
  · exact h.issued
  · apply prefix_snoc h.done
    rw [List.getElem?_map, show s.done.length = popped - 1 by omega]
    exact h4

theorem RingOk.step {s t : RingState} {l : RingLabel} (h : ∃ n, RingOk s n) (hkept : SlotKept s l)
    (ht : ringStep s l = some t) : ∃ n, RingOk t n := by
  obtain ⟨popped, h⟩ := h
  cases l with
  | lock req => exact ⟨popped, h.lock ht⟩
  | store => exact ⟨popped, h.store hkept ht⟩
  | publish => exact ⟨popped, h.publish ht⟩
  | pop => exact h.pop ht
  | start => exact ⟨popped, h.begin ht⟩
  | finish ok => exact ⟨popped, h.finish ht⟩

/-! ### Runs -/

/-- What `calloc` leaves, before anything is pushed. -/
def RingState.init (entries : ℕ → RingRequest) (disk : DiskInfo) (completion : ℕ → IoCompletion) : RingState :=
  ⟨entries, 0, 0, none, .idle, disk, completion, [], [], []⟩

theorem ringOk_init (entries : ℕ → RingRequest) (disk : DiskInfo) (completion : ℕ → IoCompletion) :
    RingOk (.init entries disk completion) 0 :=
  ⟨Queued.empty entries, rfl, rfl, nofun, ⟨rfl, rfl⟩, List.nil_prefix, List.nil_prefix⟩

/-- A completion has been decremented once for every time it stands in `done`. -/
theorem pending_step {s t : RingState} {l : RingLabel} {pending : ℕ → ℤ}
    (h : ∀ c, (s.completion c).pending = pending c - s.done.count c) (ht : ringStep s l = some t) :
    ∀ c, (t.completion c).pending = pending c - t.done.count c := by
  have hsame : t.completion = s.completion → t.done = s.done →
      ∀ c, (t.completion c).pending = pending c - t.done.count c := by
    intro h1 h2
    rw [h1, h2]
    exact h
  unfold ringStep at ht
  cases l with
  | finish ok =>
    simp only at ht
    split at ht
    swap
    · cases ht
    next slot hpc =>
    obtain rfl := Option.some.inj ht
    intro c
    simp only [List.count_append]
    by_cases hc : c = (s.entries slot).completion
    · subst hc
      simp only [if_true, IoCompletion.complete, List.count_singleton_self, h]
      omega
    · simp only [if_neg hc, h, List.count_singleton, beq_iff_eq, if_neg (Ne.symm hc)]
      omega
  | lock req =>
    simp only at ht
    split at ht
    · split at ht <;> (obtain rfl := Option.some.inj ht; exact hsame rfl rfl)
    · cases ht
  | store =>
    simp only at ht
    split at ht
    · obtain rfl := Option.some.inj ht
      exact hsame rfl rfl
    · cases ht
  | publish =>
    simp only at ht
    split at ht
    · obtain rfl := Option.some.inj ht
      exact hsame rfl rfl
    · cases ht
  | pop =>
    simp only at ht
    split at ht
    · split at ht <;> (obtain rfl := Option.some.inj ht; exact hsame rfl rfl)
    · cases ht
  | start =>
    simp only at ht
    split at ht
    · obtain rfl := Option.some.inj ht
      exact hsame rfl rfl
    · cases ht

/-- In every run that keeps the slots in use, the I/O issued and the completions decremented
are those of the pushed requests, in order and each once; when the ring is empty and the
worker idle, they are all there. -/
theorem diskWorker_serves (entries : ℕ → RingRequest) (disk : DiskInfo) (completion : ℕ → IoCompletion)
    (ls : List RingLabel) (s : RingState)
    (hkept : Along ringStep SlotKept (.init entries disk completion) ls)
    (hrun : run ringStep (.init entries disk completion) ls = some s) :
    s.issued <+: s.pushed.map (·.io) ∧ s.done <+: s.pushed.map (·.completion) ∧
      s.done.length ≤ s.issued.length ∧
      (∀ c, (s.completion c).pending = (completion c).pending - s.done.count c) ∧
      (s.worker = .idle → s.writeSeq = s.readSeq →
        s.issued = s.pushed.map (·.io) ∧ s.done = s.pushed.map (·.completion)) := by
  obtain ⟨popped, h⟩ := run_invariant (I := fun s => ∃ n, RingOk s n) (fun _ _ _ hs hp ht => RingOk.step hs hp ht)
    hkept ⟨0, ringOk_init entries disk completion⟩ hrun
  have hpending : ∀ c, (s.completion c).pending = (completion c).pending - s.done.count c := by
    refine run_preserves (I := fun s => ∀ c, (s.completion c).pending = (completion c).pending - s.done.count c)
      (fun _ _ _ hs ht => pending_step hs ht) (fun c => ?_) hrun
    simp only [RingState.init, List.count_nil]
    omega
  have hworker := h.worker
  refine ⟨h.issued, h.done, ?_, hpending, fun hidle hempty => ?_⟩
  · cases hpc : s.worker with
    | idle => simp only [WorkerOk, hpc] at hworker; omega
    | popped slot => simp only [WorkerOk, hpc] at hworker; omega
    | started slot => simp only [WorkerOk, hpc] at hworker; omega
  · simp only [WorkerOk, hidle] at hworker
    have hle := h.queued.le
    have hroom : s.pushed.length ≤ popped + 64 := h.queued.room
    have hlen : s.pushed.length = popped := by
      rw [h.writeSeq, h.readSeq] at hempty
      unfold u32 at hempty
      omega
    exact ⟨h.issued.eq_of_length (by rw [List.length_map]; omega),
      h.done.eq_of_length (by rw [List.length_map]; omega)⟩

/-- Request number `i`, of its own caller. -/
def ringRequest (i : ℕ) : RingRequest := ⟨⟨.write, i, i, 1⟩, i⟩

def ringPush (i : ℕ) : List RingLabel := [.lock (ringRequest i), .store, .publish]

def onePending : IoCompletion := ⟨1, false, false⟩

def ringStart : RingState :=
  .init (fun _ => ringRequest 0) ⟨512, 0, 0, false, true, false, false, 0, true⟩ fun _ => onePending

/-- While the I/O of request 0 runs, 64 more are pushed. -/
def refilled : List RingLabel :=
  ringPush 0 ++ [.pop, .start] ++ ((List.range 64).flatMap fun i => ringPush (i + 1)) ++ [.finish true]

/-- The end of the I/O of request 0 is reported to the caller of request 64. -/
theorem diskWorker_serves_fails :
    ∃ s, run ringStep ringStart refilled = some s ∧
      (s.issued, s.done, (s.completion 0).pending, (s.completion 64).pending) =
        ([(ringRequest 0).io], [64], 1, 0) := by
  apply Option.map_eq_some_iff.mp
  decide +kernel

/-- Two requests; the first fails, and the second is pushed while it runs. -/
def twoServed : List RingLabel :=
  ringPush 0 ++ [.pop, .start] ++ ringPush 1 ++ [.finish false, .pop, .start, .finish true]

theorem diskWorker_serves_sample :
    ∃ s, run ringStep ringStart twoServed = some s ∧ s.issued <+: s.pushed.map (·.io) ∧
      s.done <+: s.pushed.map (·.completion) ∧ s.done.length ≤ s.issued.length ∧
      (∀ c, (s.completion c).pending = onePending.pending - s.done.count c) ∧
      (s.worker = .idle → s.writeSeq = s.readSeq →
        s.issued = s.pushed.map (·.io) ∧ s.done = s.pushed.map (·.completion)) := by
  have hrun : (run ringStep ringStart twoServed).isSome = true := by decide +kernel
  obtain ⟨s, hs⟩ := Option.isSome_iff_exists.mp hrun
  exact ⟨s, hs, diskWorker_serves (fun _ => ringRequest 0) ⟨512, 0, 0, false, true, false, false, 0, true⟩
    (fun _ => onePending) twoServed s (by decide +kernel) hs⟩

end RaidTest.Stripe
