import RaidTest.Base.Fifo
import RaidTest.Stripe.Ring

/-!
# The ring as a queue (`IO_RING`, `ring_push`, `ring_pop`)

Each push and each pop is one step here. The sequence numbers are kept as their 32 bits: they
wrap, and the slot of a number is what its lower six bits say.
-/

namespace RaidTest.Stripe
open RaidTest.Base

structure IoRing where
  entries : ℕ → RingRequest
  writeSeq : ℕ
  readSeq : ℕ

/-- What `calloc` leaves. -/
def IoRing.init (entries : ℕ → RingRequest) : IoRing := ⟨entries, 0, 0⟩

/-- `ring_push`. -/
def IoRing.ringPush (ring : IoRing) (req : RingRequest) : Bool × IoRing :=
  let ws := ring.writeSeq
  let rs := ring.readSeq
  if hasRoom ws rs then
    (true, { ring with
      entries := fun i => if i = ws % ioRingSize then req else ring.entries i
      writeSeq := u32 (ws + 1) })
  else (false, ring)

/-- `ring_pop`, with the entry its pointer shows. -/
def IoRing.ringPop (ring : IoRing) : Option RingRequest × IoRing :=
  let rs := ring.readSeq
  if ring.writeSeq = rs then (none, ring)
  else (some (ring.entries (rs % ioRingSize)), { ring with readSeq := u32 (rs + 1) })

def IoRing.step (ring : IoRing) : FifoOp RingRequest → FifoAnswer RingRequest × IoRing
  | .push req => (.pushed (ring.ringPush req).1, (ring.ringPush req).2)
  | .pop => (.popped ring.ringPop.1, ring.ringPop.2)

/-- `write_seq - read_seq`. -/
def IoRing.occupancy (ring : IoRing) : ℕ := u32 (ring.writeSeq + 4294967296 - ring.readSeq)

/-- The ring holds the items of a queue: of all the requests ever pushed, those from number
`popped` on. -/
def Holding (ring : IoRing) (q : List RingRequest) : Prop :=
  ∃ (pushed : List RingRequest) (popped : ℕ), Queued ioRingSize ring.entries pushed popped ∧
    ring.writeSeq = u32 pushed.length ∧ ring.readSeq = u32 popped ∧ q = pushed.drop popped

theorem holding_init (entries : ℕ → RingRequest) : Holding (.init entries) [] :=
  ⟨[], 0, Queued.empty entries, rfl, rfl, rfl⟩

theorem Holding.occupancy {ring : IoRing} {q : List RingRequest} (h : Holding ring q) :
    ring.occupancy = q.length ∧ q.length ≤ ioRingSize := by
  obtain ⟨pushed, popped, hq, hw, hr, rfl⟩ := h
  have hle := hq.le
  have hroom : pushed.length ≤ popped + 64 := hq.room
  unfold IoRing.occupancy
  rw [hw, hr, List.length_drop, u32_diff hle hroom]
  exact ⟨rfl, by unfold ioRingSize; omega⟩

theorem ringPush_stored {ring : IoRing} (h : hasRoom ring.writeSeq ring.readSeq = true) (req : RingRequest) :
    ring.ringPush req =
      (true, { ring with
        entries := fun i => if i = ring.writeSeq % ioRingSize then req else ring.entries i
        writeSeq := u32 (ring.writeSeq + 1) }) := if_pos h

theorem ringPush_refused {ring : IoRing} (h : ¬ hasRoom ring.writeSeq ring.readSeq = true) (req : RingRequest) :
    ring.ringPush req = (false, ring) := if_neg h

theorem Holding.push {ring : IoRing} {q : List RingRequest} (h : Holding ring q) (req : RingRequest) :
    ((ring.ringPush req).1 = decide (q.length < ioRingSize)) ∧
      Holding (ring.ringPush req).2 (if q.length < ioRingSize then q ++ [req] else q) := by
  obtain ⟨pushed, popped, hq, hw, hr, rfl⟩ := h
  have hle := hq.le
  have hroom : hasRoom ring.writeSeq ring.readSeq = true ↔ (pushed.drop popped).length < ioRingSize := by
    rw [hw, hr, hasRoom_iff hle hq.room, List.length_drop]
    unfold ioRingSize
    omega
  by_cases hlt : (pushed.drop popped).length < ioRingSize
  · rw [ringPush_stored (hroom.mpr hlt), if_pos hlt]
    refine ⟨(decide_eq_true hlt).symm, pushed ++ [req], popped, ?_, ?_, hr, ?_⟩
    · -- the slot of the next number is free
      have hfree : pushed.length < popped + ioRingSize := by
        rw [List.length_drop] at hlt
        omega
      have hstored := (hq.store hfree req).publish hfree
      simp only [if_true] at hstored
      rw [hw, slot_u32]
      exact hstored
    · simp only [hw, List.length_append, List.length_singleton, u32_succ]
    · exact (List.drop_append_of_le_length hle).symm
  · rw [ringPush_refused (fun hr => hlt (hroom.mp hr)), if_neg hlt]
    exact ⟨(decide_eq_false hlt).symm, pushed, popped, hq, hw, hr, rfl⟩

theorem Holding.pop {ring : IoRing} {q : List RingRequest} (h : Holding ring q) :
    ring.ringPop.1 = q.head? ∧ Holding ring.ringPop.2 q.tail := by
  obtain ⟨pushed, popped, hq, hw, hr, rfl⟩ := h
  have hle := hq.le
  have hroom : pushed.length ≤ popped + 64 := hq.room
  unfold IoRing.ringPop
  simp only
  by_cases hempty : popped = pushed.length
  · have hseq : ring.writeSeq = ring.readSeq := by rw [hw, hr, hempty]
    have hnone : pushed.drop popped = [] := List.drop_of_length_le (Nat.le_of_eq hempty.symm)
    rw [if_pos hseq, hnone]
    exact ⟨rfl, pushed, popped, hq, hw, hr, by rw [hnone, List.tail_nil]⟩
  · have hlt : popped < pushed.length := by omega
    have hseq : ring.writeSeq ≠ ring.readSeq := by
      intro he
      have hdiff := u32_diff hle hroom
      rw [← hw, ← hr, he, Nat.add_sub_cancel_left] at hdiff
      have hzero : u32 4294967296 = 0 := rfl
      omega
    rw [if_neg hseq]
    refine ⟨?_, pushed, popped + 1, hq.pop hlt, hw, ?_, List.tail_drop⟩
    · rw [List.head?_drop, hq.held popped (Nat.le_refl _) hlt, hr, slot_u32]
    · simp only [hr, u32_succ]

theorem step_push (ring : IoRing) (req : RingRequest) :
    ring.step (.push req) = (.pushed (ring.ringPush req).1, (ring.ringPush req).2) := rfl

/-- What a push leaves, when a queue took or refused the request. -/
theorem Holding.pushed {next : Bool × IoRing} {q : List RingRequest} {req : RingRequest}
    (hok : next.1 = decide (q.length < ioRingSize))
    (h : Holding next.2 (if q.length < ioRingSize then q ++ [req] else q)) :
    (FifoAnswer.pushed next.1, next.2).1 = (fifoStep ioRingSize q (.push req)).1 ∧
      Holding ((.pushed next.1, next.2) : FifoAnswer RingRequest × IoRing).2 (fifoStep ioRingSize q (.push req)).2 := by
  by_cases hlt : q.length < ioRingSize
  · have htaken : fifoStep ioRingSize q (.push req) = (.pushed true, q ++ [req]) := if_pos hlt
    rw [if_pos hlt] at h
    rw [htaken, hok, decide_eq_true hlt]
    exact ⟨rfl, h⟩
  · have hrefused : fifoStep ioRingSize q (.push req) = (.pushed false, q) := if_neg hlt
    rw [if_neg hlt] at h
    rw [hrefused, hok, decide_eq_false hlt]
    exact ⟨rfl, h⟩

theorem Holding.step {ring : IoRing} {q : List RingRequest} (h : Holding ring q) (op : FifoOp RingRequest) :
    (ring.step op).1 = (fifoStep ioRingSize q op).1 ∧ Holding (ring.step op).2 (fifoStep ioRingSize q op).2 := by
  cases op with
  | push req =>
    obtain ⟨hok, hnext⟩ := h.push req
    rw [step_push]
    exact Holding.pushed hok hnext
  | pop =>
    obtain ⟨hreq, hnext⟩ := h.pop
    exact ⟨congrArg FifoAnswer.popped hreq, hnext⟩

/-- Any sequence of pushes and pops, however often the sequence numbers wrap, is answered as a
queue of 64 places answers it; what was pushed came out in its order or is still queued. -/
theorem ring_fifo (entries : ℕ → RingRequest) (ops : List (FifoOp RingRequest)) :
    ∃ (as : List (FifoAnswer RingRequest)) (ring : IoRing) (q : List RingRequest),
      answers IoRing.step (.init entries) ops = (as, ring) ∧ answers (fifoStep ioRingSize) [] ops = (as, q) ∧
      taken ops as = given as ++ q ∧ ring.occupancy = q.length ∧ ring.occupancy ≤ 64 ∧
      (∀ req, (ring.ringPush req).1 = false ↔ q.length = 64) ∧ (ring.ringPop.1 = none ↔ q = []) := by
  obtain ⟨ha, hh⟩ := answers_simulated (R := Holding) (fun _ _ op h => h.step op) ops (holding_init entries)
  have hkeeps := fifo_keeps ioRingSize ops []
  obtain ⟨hocc, hle⟩ := hh.occupancy
  have hpop := hh.pop.1
  have hpush := fun req => (hh.push req).1
  refine ⟨_, _, _, rfl, Prod.ext ha.symm rfl, ?_, hocc, ?_, fun req => ?_, ?_⟩
  · rw [ha]
    exact hkeeps
  · rw [hocc]
    exact hle
  · rw [hpush req, decide_eq_false_iff_not, Nat.not_lt]
    exact ⟨fun h => Nat.le_antisymm hle h, fun h => Nat.le_of_eq h.symm⟩
  · rw [hpop]
    exact List.head?_eq_none_iff

end RaidTest.Stripe
