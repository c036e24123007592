import RaidTest.Stripe.Ring
import Mathlib.Algebra.Order.BigOperators.Group.Finset

/-!
# Waiting for the workers (`submit_entries`, `disk_worker_thread`, `stripe_volume_workers_stop`)

The submitter hands its requests to the disks' workers and waits for an event. A worker that
completes a request sets the event when none is pending any more. The submitter itself counts
a request for no disk as completed, and sets nothing.
-/

namespace RaidTest.Stripe
open RaidTest.Base

/-! ### Steps -/

/-- Where a worker is. It looks at `stop` at the head of its loop. -/
inductive ServerPc where
  | head
  | polling
  | popped (io : RingIo)
  | started (io : RingIo)
  | ended
  | signalling
  | exited

/-- A worker and the requests in its ring. -/
structure DiskServer where
  queue : List RingIo
  pc : ServerPc
  stop : Bool

/-- `ring_push` when there is room. -/
def DiskServer.push (w : DiskServer) (io : RingIo) : DiskServer := ⟨w.queue ++ [io], w.pc, w.stop⟩

def DiskServer.tell (w : DiskServer) : DiskServer := ⟨w.queue, w.pc, true⟩

inductive ServeLabel where
  | look
  | pop
  | start
  | finish (ok : Bool)
  | complete
  | signal

/-- `disk_worker_thread`: the worker, the completion and the result of an I/O that ends here.
`wake_event` only shortens its sleep. -/
def DiskServer.step (w : DiskServer) (c : IoCompletion) : ServeLabel → Option (DiskServer × IoCompletion × List Bool)
  | .look =>
    match w.pc with
    | .head => some ({ w with pc := if w.stop then .exited else .polling }, c, [])
    | _ => none
  | .pop =>
    match w.pc, w.queue with
    | .polling, [] => some ({ w with pc := .head }, c, [])
    | .polling, io :: queue => some ({ w with pc := .popped io, queue := queue }, c, [])
    | _, _ => none
  | .start =>
    match w.pc with
    | .popped io => some ({ w with pc := .started io }, c, [])
    | _ => none
  | .finish ok =>
    match w.pc with
    | .started _ => some ({ w with pc := .ended }, { c with error := c.error || !ok }, [ok])
    | _ => none
  | .complete =>
    match w.pc with
    | .ended => some ({ w with pc := if c.pending - 1 = 0 then .signalling else .head },
        { c with pending := c.pending - 1 }, [])
    | _ => none
  | .signal =>
    match w.pc with
    | .signalling => some ({ w with pc := .head }, { c with signalled := true }, [])
    | _ => none

inductive SubmitPc where
  | pushing
  | waiting
  | returned (ok : Bool)

/-- The submitter with the entries it has still to push, `comp`, the workers, and how far
`stripe_volume_workers_stop` is: workers told to stop, and workers waited for. `results`
records the ends of the I/Os. -/
structure SubmitState where
  todo : List (ℕ × RingIo)
  submitter : SubmitPc
  comp : IoCompletion
  servers : ℕ → DiskServer
  told : ℕ
  joined : ℕ
  results : List Bool

def SubmitState.setServer (s : SubmitState) (i : ℕ) (w : DiskServer) : SubmitState :=
  { s with servers := fun j => if j = i then w else s.servers j }

inductive SubmitLabel where
  | submit
  | wake
  | serve (i : ℕ) (l : ServeLabel)
  | tell
  | join

/-- One step of one of the threads on a volume with `n` workers. A push to a worker whose
lock has been deleted is undefined. -/
def submitStep (n : ℕ) (s : SubmitState) : SubmitLabel → Option SubmitState
  | .submit =>
    match s.submitter, s.todo with
    | .pushing, [] => some { s with submitter := .waiting }
    | .pushing, (di, io) :: todo =>
      if n ≤ di then
        -- no disk has this number
        some { s with todo := todo, comp := { s.comp with error := true, pending := s.comp.pending - 1 } }
      else if di < s.joined then none
      else if (s.servers di).queue.length < ioRingSize then
        some { s.setServer di ((s.servers di).push io) with todo := todo }
      else some s
    | _, _ => none
  | .wake =>
    match s.submitter with
    | .waiting => if s.comp.signalled then some { s with submitter := .returned (!s.comp.error) } else none
    | _ => none
  | .serve i l =>
    if i < n then
      ((s.servers i).step s.comp l).map fun r =>
        { s.setServer i r.1 with comp := r.2.1, results := s.results ++ r.2.2 }
    else none
  | .tell =>
    if s.told < n then some { s.setServer s.told (s.servers s.told).tell with told := s.told + 1 }
    else none
  | .join =>
    match (s.servers s.joined).pc with
    | .exited => if s.told = n ∧ s.joined < n then some { s with joined := s.joined + 1 } else none
    | _ => none

/-- `se`, from the cumulative offset on. -/
def submitEntriesFrom (op : IoOpType) : ℕ → List IoMappingEntry → List (ℕ × RingIo)
  | _, [] => []
  | cum, e :: es =>
    (e.diskIndex, ⟨op, cum, e.physicalOffset, e.lengthBytes⟩) :: submitEntriesFrom op (u64 (cum + e.lengthBytes)) es

/-- The call, once it has an event; the rings are empty. -/
def SubmitState.start (op : IoOpType) (entries : List IoMappingEntry) : SubmitState :=
  ⟨submitEntriesFrom op 0 entries, .pushing, ⟨entries.length, false, false⟩, fun _ => ⟨[], .head, false⟩, 0, 0, []⟩

/-! ### Sums over the workers -/

/-- The requests of a worker that are still counted in `pending`. -/
def DiskServer.load (w : DiskServer) : ℕ :=
  w.queue.length + match w.pc with
    | .popped _ | .started _ | .ended => 1
    | .head | .polling | .signalling | .exited => 0

/-- Those whose I/O has not ended. -/
def DiskServer.unserved (w : DiskServer) : ℕ :=
  w.queue.length + match w.pc with
    | .popped _ | .started _ => 1
    | .head | .polling | .ended | .signalling | .exited => 0

/-- An upper bound on the steps that they take. -/
def DiskServer.work (w : DiskServer) : ℕ :=
  6 * w.queue.length + match w.pc with
    | .popped _ => 5
    | .started _ => 4
    | .ended => 3
    | .signalling => 2
    | .head => 1
    | .polling | .exited => 0

def total (n : ℕ) (f : DiskServer → ℕ) (s : SubmitState) : ℕ := ∑ i ∈ Finset.range n, f (s.servers i)

theorem total_setServer {n i : ℕ} (hi : i < n) (f : DiskServer → ℕ) (s : SubmitState) (w : DiskServer) :
    total n f (s.setServer i w) + f (s.servers i) = total n f s + f w := by
  have hmem := Finset.mem_range.mpr hi
  have hrest : ∑ j ∈ (Finset.range n).erase i, f ((s.setServer i w).servers j) =
      ∑ j ∈ (Finset.range n).erase i, f (s.servers j) := by
    apply Finset.sum_congr rfl
    intro j hj
    simp only [SubmitState.setServer, if_neg (Finset.ne_of_mem_erase hj)]
  have hset : (s.setServer i w).servers i = w := if_pos rfl
  unfold total
  rw [← Finset.add_sum_erase _ _ hmem, ← Finset.add_sum_erase (Finset.range n) (fun j => f (s.servers j)) hmem, hrest, hset]
  omega

theorem forall_setServer {n i : ℕ} {s : SubmitState} {w : DiskServer} {P : ℕ → DiskServer → Prop}
    (h : ∀ j < n, P j (s.servers j)) (hw : P i w) : ∀ j < n, P j ((s.setServer i w).servers j) := by
  intro j hj
  by_cases hji : j = i
  · subst hji
    simp only [SubmitState.setServer, if_true]
    exact hw
  · simp only [SubmitState.setServer, if_neg hji]
    exact h j hj

theorem total_zero {n i : ℕ} {f : DiskServer → ℕ} {s : SubmitState} (h : total n f s = 0) (hi : i < n) :
    f (s.servers i) = 0 :=
  Finset.sum_eq_zero_iff.mp h i (Finset.mem_range.mpr hi)

theorem exists_of_total {n : ℕ} {f : DiskServer → ℕ} {s : SubmitState} (h : 0 < total n f s) :
    ∃ i < n, 0 < f (s.servers i) := by
  by_contra hnone
  have hzero : total n f s = 0 := by
    apply Finset.sum_eq_zero
    intro i hi
    by_contra hne
    exact hnone ⟨i, Finset.mem_range.mp hi, Nat.pos_of_ne_zero hne⟩
  omega

/-! ### The steps of a worker -/

/-- What a step does to a worker and the completion. -/
inductive Serving : DiskServer → IoCompletion → DiskServer → IoCompletion → List Bool → Prop where
  | exit (queue c) : Serving ⟨queue, .head, true⟩ c ⟨queue, .exited, true⟩ c []
  | poll (queue c) : Serving ⟨queue, .head, false⟩ c ⟨queue, .polling, false⟩ c []
  | empty (stop c) : Serving ⟨[], .polling, stop⟩ c ⟨[], .head, stop⟩ c []
  | pop (io queue stop c) : Serving ⟨io :: queue, .polling, stop⟩ c ⟨queue, .popped io, stop⟩ c []
  | start (io queue stop c) : Serving ⟨queue, .popped io, stop⟩ c ⟨queue, .started io, stop⟩ c []
  | finish (io queue stop c ok) :
    Serving ⟨queue, .started io, stop⟩ c ⟨queue, .ended, stop⟩ { c with error := c.error || !ok } [ok]
  | last (queue stop c) (h : c.pending - 1 = 0) :
    Serving ⟨queue, .ended, stop⟩ c ⟨queue, .signalling, stop⟩ { c with pending := c.pending - 1 } []
  | other (queue stop c) (h : c.pending - 1 ≠ 0) :
    Serving ⟨queue, .ended, stop⟩ c ⟨queue, .head, stop⟩ { c with pending := c.pending - 1 } []
  | signal (queue stop c) : Serving ⟨queue, .signalling, stop⟩ c ⟨queue, .head, stop⟩ { c with signalled := true } []

theorem DiskServer.step_serves {w w' : DiskServer} {c c' : IoCompletion} {l : ServeLabel} {results : List Bool}
    (h : w.step c l = some (w', c', results)) : Serving w c w' c' results := by
  obtain ⟨queue, pc, stop⟩ := w
  cases l with
  | look =>
    cases pc with
    | head =>
      cases h
      cases stop
      · exact .poll queue c
      · exact .exit queue c
    | _ => cases h
  | pop =>
    cases pc with
    | polling =>
      cases queue with
      | nil => cases h; exact .empty stop c
      | cons io queue => cases h; exact .pop io queue stop c
    | _ => cases h
  | start =>
    cases pc with
    | popped io => cases h; exact .start io queue stop c
    | _ => cases h
  | finish ok =>
    cases pc with
    | started io => cases h; exact .finish io queue stop c ok
    | _ => cases h
  | complete =>
    cases pc with
    | ended =>
      by_cases hlast : c.pending - 1 = 0
      · rw [DiskServer.step, if_pos hlast] at h
        cases h
        exact .last queue stop c hlast
      · rw [DiskServer.step, if_neg hlast] at h
        cases h
        exact .other queue stop c hlast
    | _ => cases h
  | signal =>
    cases pc with
    | signalling => cases h; exact .signal queue stop c
    | _ => cases h

section Serving
variable {w w' : DiskServer} {c c' : IoCompletion} {results : List Bool}

theorem Serving.load (h : Serving w c w' c' results) : c'.pending + w.load = c.pending + w'.load := by
  cases h with
  | last | other => simp only [DiskServer.load]; omega
  | pop => simp only [DiskServer.load, List.length_cons]
  | _ => rfl

theorem Serving.unserved (h : Serving w c w' c' results) : results.length + w'.unserved = w.unserved := by
  cases h with
  | finish => simp only [DiskServer.unserved, List.length_singleton]; omega
  | _ => exact Nat.zero_add _

theorem Serving.error (h : Serving w c w' c' results) : c'.error = (c.error || results.any not) := by
  cases h with
  | finish _ _ _ _ ok => simp only [List.any_cons, List.any_nil, Bool.or_false]
  | _ => exact (Bool.or_false _).symm

/-- A worker with nothing to do counts nothing. -/
theorem Serving.pending (h : Serving w c w' c' results) (hw : w.load = 0) : c'.pending = c.pending := by
  cases h with
  | last | other => cases hw
  | _ => rfl

theorem Serving.signalled_mono (h : Serving w c w' c' results) (hc : c.signalled = true) : c'.signalled = true := by
  cases h with
  | signal => rfl
  | _ => exact hc

theorem Serving.signalled (h : Serving w c w' c' results) (hc : c'.signalled = true) :
    c.signalled = true ∨ w.pc = .signalling := by
  cases h with
  | signal => exact Or.inr rfl
  | _ => exact Or.inl hc

theorem Serving.signalling (h : Serving w c w' c' results) (hw : w'.pc = .signalling) : c'.pending = 0 := by
  cases h with
  | last _ _ _ hlast => exact hlast
  | _ => cases hw

end Serving

theorem DiskServer.unserved_le (w : DiskServer) : w.unserved ≤ w.load := by
  obtain ⟨queue, pc, stop⟩ := w
  cases pc with
  | ended => exact Nat.le_succ _
  | _ => exact Nat.le_refl _

theorem DiskServer.push_load (w : DiskServer) (io : RingIo) : (w.push io).load = w.load + 1 := by
  simp only [DiskServer.load, DiskServer.push, List.length_append, List.length_singleton]
  omega

theorem DiskServer.push_unserved (w : DiskServer) (io : RingIo) : (w.push io).unserved = w.unserved + 1 := by
  simp only [DiskServer.unserved, DiskServer.push, List.length_append, List.length_singleton]
  omega

/-! ### What holds in every run -/

/-- `pending` counts the requests that are not completed, the event is set when none is left,
and `error` is set when a request named no disk or an I/O failed. -/
structure Counted (n : ℕ) (reqs : List (ℕ × RingIo)) (s : SubmitState) : Prop where
  count : s.comp.pending = ((s.todo.length + total n DiskServer.load s : ℕ) : ℤ)
  pushing : s.todo ≠ [] → s.submitter = .pushing
  signalled : s.comp.signalled = true → s.comp.pending = 0
  signalling : ∀ i < n, (s.servers i).pc = .signalling → s.comp.pending = 0
  handled : ∃ handled, reqs = handled ++ s.todo ∧
    s.comp.error = (handled.any (fun x => decide (n ≤ x.1)) || s.results.any not) ∧
    s.results.length + total n DiskServer.unserved s = handled.countP fun x => decide (x.1 < n)
  answer : ∀ ok, s.submitter = .returned ok → s.comp.signalled = true ∧ ok = !s.comp.error

theorem Counted.idle {n : ℕ} {reqs : List (ℕ × RingIo)} {s : SubmitState} (h : Counted n reqs s)
    (hzero : s.comp.pending = 0) : s.todo = [] ∧ ∀ i < n, (s.servers i).load = 0 := by
  have hcount := h.count
  rw [hzero] at hcount
  refine ⟨List.eq_nil_of_length_eq_zero (by omega), fun i hi => total_zero (by omega) hi⟩

theorem Counted.busy {n : ℕ} {reqs : List (ℕ × RingIo)} {s : SubmitState} (h : Counted n reqs s)
    (hne : s.todo ≠ []) : s.comp.signalled ≠ true ∧ ∀ i < n, (s.servers i).pc ≠ .signalling :=
  ⟨fun hs => hne (h.idle (h.signalled hs)).1, fun i hi hs => hne (h.idle (h.signalling i hi hs)).1⟩

theorem Counted.serve {n i : ℕ} {reqs : List (ℕ × RingIo)} {s : SubmitState} {w : DiskServer} {c : IoCompletion}
    {results : List Bool} (h : Counted n reqs s) (hi : i < n) (hw : Serving (s.servers i) s.comp w c results) :
    Counted n reqs { s.setServer i w with comp := c, results := s.results ++ results } := by
  have hload := total_setServer hi DiskServer.load s w
  have hunserved := total_setServer hi DiskServer.unserved s w
  have hzero : s.comp.pending = 0 → c.pending = 0 := fun hz => (hw.pending ((h.idle hz).2 i hi)).trans hz
  constructor
  · have hbalance := hw.load
    have hcount := h.count
    change c.pending = ((s.todo.length + total n DiskServer.load (s.setServer i w) : ℕ) : ℤ)
    omega
  · exact h.pushing
  · intro hs
    rcases hw.signalled hs with hold | hpc
    · exact hzero (h.signalled hold)
    · exact hzero (h.signalling i hi hpc)
  · exact forall_setServer (P := fun _ u => u.pc = .signalling → c.pending = 0)
      (fun j hj hpc => hzero (h.signalling j hj hpc)) hw.signalling
  · obtain ⟨handled, hreqs, herror, hserved⟩ := h.handled
    refine ⟨handled, hreqs, ?_, ?_⟩
    · change c.error = _
      rw [hw.error, herror, List.any_append, Bool.or_assoc]
    · have hone := hw.unserved
      change (s.results ++ results).length + total n DiskServer.unserved (s.setServer i w) = _
      rw [List.length_append, ← hserved]
      omega
  · intro ok hok
    obtain ⟨hsignalled, hanswer⟩ := h.answer ok hok
    refine ⟨hw.signalled_mono hsignalled, ?_⟩
    have hnone : results = [] := by
      have hidle := (h.idle (h.signalled hsignalled)).2 i hi
      have hle := (s.servers i).unserved_le
      have hone := hw.unserved
      exact List.eq_nil_of_length_eq_zero (by omega)
    rw [hanswer, hw.error, hnone, List.any_nil, Bool.or_false]

section Submitting

variable {n di : ℕ} {io : RingIo} {todo reqs : List (ℕ × RingIo)} {s : SubmitState} (h : Counted n reqs s)
  (hpc : s.submitter = .pushing) (htodo : s.todo = (di, io) :: todo)
include h htodo

/-- Before the first of the remaining requests goes to its worker. -/
theorem Counted.first : s.comp.pending = ((todo.length + 1 + total n DiskServer.load s : ℕ) : ℤ) ∧
    s.comp.signalled ≠ true ∧ (∀ i < n, (s.servers i).pc ≠ .signalling) ∧
    ∃ handled, reqs = (handled ++ [(di, io)]) ++ todo ∧
      s.comp.error = (handled.any (fun x => decide (n ≤ x.1)) || s.results.any not) ∧
      s.results.length + total n DiskServer.unserved s = handled.countP fun x => decide (x.1 < n) := by
  obtain ⟨hquiet, hquiets⟩ := h.busy (by rw [htodo]; exact List.cons_ne_nil _ _)
  obtain ⟨handled, hreqs, herror, hserved⟩ := h.handled
  have hcount := h.count
  rw [htodo, List.length_cons] at hcount
  refine ⟨hcount, hquiet, hquiets, handled, ?_, herror, hserved⟩
  rw [hreqs, htodo, List.append_assoc]
  rfl

include hpc

/-- A request for a number that no disk has is counted down at once. -/
theorem Counted.reject (hdi : n ≤ di) : Counted n reqs
    { s with todo := todo, comp := { s.comp with error := true, pending := s.comp.pending - 1 } } := by
  obtain ⟨hcount, hquiet, hquiets, handled, hreqs, herror, hserved⟩ := h.first htodo
  refine ⟨?_, fun _ => hpc, fun hs => absurd hs hquiet, fun i hi hs => absurd hs (hquiets i hi),
    ⟨handled ++ [(di, io)], hreqs, ?_, ?_⟩, fun ok hok => ?_⟩
  · change s.comp.pending - 1 = ((todo.length + total n DiskServer.load s : ℕ) : ℤ)
    omega
  · simp only [List.any_append, List.any_cons, decide_eq_true hdi, Bool.true_or, Bool.or_true]
  · rw [List.countP_append, List.countP_singleton, if_neg (by simp only [decide_eq_true_eq]; omega)]
    exact hserved
  · cases hpc.symm.trans hok

theorem Counted.push (hdi : di < n) :
    Counted n reqs { s.setServer di ((s.servers di).push io) with todo := todo } := by
  obtain ⟨hcount, hquiet, hquiets, handled, hreqs, herror, hserved⟩ := h.first htodo
  have hload := total_setServer hdi DiskServer.load s ((s.servers di).push io)
  have hunserved := total_setServer hdi DiskServer.unserved s ((s.servers di).push io)
  rw [DiskServer.push_load] at hload
  rw [DiskServer.push_unserved] at hunserved
  refine ⟨?_, fun _ => hpc, fun hs => absurd hs hquiet, fun i hi hs => absurd hs ?_,
    ⟨handled ++ [(di, io)], hreqs, ?_, ?_⟩, fun ok hok => ?_⟩
  · change s.comp.pending = ((todo.length + total n DiskServer.load (s.setServer di _) : ℕ) : ℤ)
    omega
  · exact forall_setServer (P := fun _ u => u.pc ≠ .signalling) (w := (s.servers di).push io) hquiets (hquiets di hdi) i hi
  · rw [List.any_append, List.any_cons, List.any_nil, decide_eq_false (Nat.not_le.mpr hdi), Bool.or_false, Bool.or_false]
    exact herror
  · rw [List.countP_append, List.countP_singleton, if_pos (decide_eq_true hdi), ← hserved]
    change s.results.length + total n DiskServer.unserved (s.setServer di _) = _
    omega
  · cases hpc.symm.trans hok

end Submitting

theorem Counted.tell {n : ℕ} {reqs : List (ℕ × RingIo)} {s : SubmitState} (h : Counted n reqs s) (hi : s.told < n) :
    Counted n reqs { s.setServer s.told (s.servers s.told).tell with told := s.told + 1 } := by
  have hload := total_setServer hi DiskServer.load s (s.servers s.told).tell
  have hunserved := total_setServer hi DiskServer.unserved s (s.servers s.told).tell
  rw [show (s.servers s.told).tell.load = (s.servers s.told).load from rfl] at hload
  rw [show (s.servers s.told).tell.unserved = (s.servers s.told).unserved from rfl] at hunserved
  obtain ⟨handled, hreqs, herror, hserved⟩ := h.handled
  have hsignalling := forall_setServer (P := fun _ u => u.pc = .signalling → s.comp.pending = 0)
    (i := s.told) (w := (s.servers s.told).tell) h.signalling (h.signalling s.told hi)
  refine ⟨?_, h.pushing, h.signalled, hsignalling, ⟨handled, hreqs, herror, ?_⟩, h.answer⟩
  · have hcount := h.count
    change s.comp.pending = ((s.todo.length + total n DiskServer.load (s.setServer s.told _) : ℕ) : ℤ)
    omega
  · rw [← hserved]
    change s.results.length + total n DiskServer.unserved (s.setServer s.told _) = _
    omega

theorem Counted.step {n : ℕ} {reqs : List (ℕ × RingIo)} {s t : SubmitState} {l : SubmitLabel} (h : Counted n reqs s)
    (ht : submitStep n s l = some t) : Counted n reqs t := by
  cases l with
  | submit =>
    unfold submitStep at ht
    simp only at ht
    split at ht
    · next hpc htodo =>
      obtain rfl := Option.some.inj ht
      exact ⟨h.count, fun hne => absurd htodo hne, h.signalled, h.signalling, h.handled, nofun⟩
    · next di io todo hpc htodo =>
      split at ht
      · next hdi =>
        obtain rfl := Option.some.inj ht
        exact h.reject hpc htodo hdi
      split at ht
      · cases ht
      next hdi _ =>
      split at ht
      · obtain rfl := Option.some.inj ht
        exact h.push hpc htodo (Nat.not_le.mp hdi)
      · obtain rfl := Option.some.inj ht
        exact h
    · cases ht
  | wake =>
    unfold submitStep at ht
    simp only at ht
    split at ht
    · next hpc =>
      split at ht
      · next hs =>
        obtain rfl := Option.some.inj ht
        refine ⟨h.count, fun hne => ?_, h.signalled, h.signalling, h.handled, fun ok hok => ⟨hs, ?_⟩⟩
        · have hpushing := h.pushing hne
          rw [hpc] at hpushing
          cases hpushing
        · cases hok
          rfl
      · cases ht
    · cases ht
  | serve i l =>
    unfold submitStep at ht
    simp only at ht
    split at ht
    · next hi =>
      obtain ⟨⟨w, c, results⟩, hw, rfl⟩ := Option.map_eq_some_iff.mp ht
      exact h.serve hi (DiskServer.step_serves hw)
    · cases ht
  | tell =>
    unfold submitStep at ht
    simp only at ht
    split at ht
    · next hi =>
      obtain rfl := Option.some.inj ht
      exact h.tell hi
    · cases ht
  | join =>
    unfold submitStep at ht
    simp only at ht
    split at ht
    · split at ht
      · obtain rfl := Option.some.inj ht
        exact ⟨h.count, h.pushing, h.signalled, h.signalling, h.handled, h.answer⟩
      · cases ht
    · cases ht

/-! ### The submitter is woken -/

/-- The requests that a worker still takes from its ring when it is told to stop. -/
def DiskServer.takes (w : DiskServer) : ℕ :=
  match w.pc with
  | .polling => 1
  | _ => 0

/-- A worker that is told to stop now leaves no request behind. -/
def Settled (todo : List (ℕ × RingIo)) (i : ℕ) (w : DiskServer) : Prop :=
  w.queue.length ≤ w.takes ∧ ∀ x ∈ todo, x.1 ≠ i

/-- The submitter's own count does not come to zero, and no worker is told to stop that has
requests left. -/
def Heeded (n : ℕ) (s : SubmitState) : SubmitLabel → Prop
  | .submit => ∀ x ∈ s.todo.head?, n ≤ x.1 → s.comp.pending ≠ 1
  | .tell => Settled s.todo s.told (s.servers s.told)
  | .wake | .serve _ _ | .join => True

/-- A worker that stops has no request left. -/
structure Heeding (todo : List (ℕ × RingIo)) (i : ℕ) (w : DiskServer) : Prop where
  settled : w.stop = true → Settled todo i w
  exited : w.pc = .exited → w.stop = true

structure Awake (n : ℕ) (s : SubmitState) : Prop where
  heeding : ∀ i < n, Heeding s.todo i (s.servers i)
  woken : s.comp.pending = 0 → s.comp.signalled = true ∨ ∃ i < n, (s.servers i).pc = .signalling

section Serving
variable {w w' : DiskServer} {c c' : IoCompletion} {results : List Bool}

theorem Serving.heeding {todo : List (ℕ × RingIo)} {i : ℕ} (h : Serving w c w' c' results) (hw : Heeding todo i w) :
    Heeding todo i w' := by
  obtain ⟨hsettled, hexited⟩ := hw
  cases h with
  | exit => exact ⟨hsettled, fun _ => rfl⟩
  | poll => exact ⟨nofun, nofun⟩
  | empty => exact ⟨fun hstop => ⟨Nat.le_refl _, (hsettled hstop).2⟩, nofun⟩
  | pop => exact ⟨fun hstop => ⟨Nat.le_of_succ_le_succ (hsettled hstop).1, (hsettled hstop).2⟩, nofun⟩
  | _ => exact ⟨hsettled, nofun⟩

theorem Serving.signal_set (h : Serving w c w' c' results) (hw : w.pc = .signalling) : c'.signalled = true := by
  cases h with
  | signal => rfl
  | _ => cases hw

/-- Whoever completes the last request goes on to set the event. -/
theorem Serving.last_signals (h : Serving w c w' c' results) (hc : c.pending ≠ 0) (hc' : c'.pending = 0) :
    w'.pc = .signalling := by
  cases h with
  | last => rfl
  | other _ _ _ hother => exact absurd hc' hother
  | _ => exact absurd hc' hc

end Serving

theorem Awake.serve {n i : ℕ} {s : SubmitState} {w : DiskServer} {c : IoCompletion} {results : List Bool}
    (h : Awake n s) (hi : i < n) (hw : Serving (s.servers i) s.comp w c results) :
    Awake n { s.setServer i w with comp := c, results := s.results ++ results } := by
  have hself : (s.setServer i w).servers i = w := if_pos rfl
  constructor
  · exact forall_setServer h.heeding (hw.heeding (h.heeding i hi))
  · intro hzero
    by_cases hbefore : s.comp.pending = 0
    · rcases h.woken hbefore with hs | ⟨j, hj, hs⟩
      · exact Or.inl (hw.signalled_mono hs)
      · by_cases hji : j = i
        · subst hji
          exact Or.inl (hw.signal_set hs)
        · refine Or.inr ⟨j, hj, ?_⟩
          simp only [SubmitState.setServer, if_neg hji]
          exact hs
    · refine Or.inr ⟨i, hi, ?_⟩
      simp only [SubmitState.setServer, if_true]
      exact hw.last_signals hbefore hzero

theorem Awake.step {n : ℕ} {s t : SubmitState} {l : SubmitLabel} (h : Awake n s) (hp : Heeded n s l)
    (ht : submitStep n s l = some t) : Awake n t := by
  cases l with
  | submit =>
    unfold submitStep at ht
    simp only at ht
    split at ht
    · obtain rfl := Option.some.inj ht
      exact ⟨h.heeding, h.woken⟩
    · next di io todo _ htodo =>
      have hfewer : ∀ i < n, ∀ w, Heeding s.todo i w → Heeding todo i w := by
        intro i _ w hw
        refine ⟨fun hstop => ⟨(hw.settled hstop).1, fun x hx => (hw.settled hstop).2 x ?_⟩, hw.exited⟩
        rw [htodo]
        exact List.mem_cons_of_mem _ hx
      split at ht
      · next hdi =>
        obtain rfl := Option.some.inj ht
        refine ⟨fun i hi => hfewer i hi _ (h.heeding i hi), fun hzero => ?_⟩
        simp only [Heeded, htodo] at hp
        have hne := hp (di, io) rfl hdi
        change s.comp.pending - 1 = 0 at hzero
        omega
      split at ht
      · cases ht
      next hdi _ =>
      split at ht
      · obtain rfl := Option.some.inj ht
        have hlt : di < n := Nat.not_le.mp hdi
        have hgoing : (s.servers di).stop ≠ true := by
          intro hstop
          apply ((h.heeding di hlt).settled hstop).2 (di, io) _ rfl
          rw [htodo]
          exact List.mem_cons_self ..
        refine ⟨forall_setServer (fun i hi => hfewer i hi _ (h.heeding i hi)) ⟨fun hstop => absurd hstop hgoing, ?_⟩, ?_⟩
        · exact (h.heeding di hlt).exited
        · intro hzero
          rcases h.woken hzero with hs | ⟨j, hj, hs⟩
          · exact Or.inl hs
          · refine Or.inr ⟨j, hj, ?_⟩
            simp only [SubmitState.setServer]
            split
            · next he => rw [he] at hs; exact hs
            · exact hs
      · obtain rfl := Option.some.inj ht
        exact h
    · cases ht
  | wake =>
    unfold submitStep at ht
    simp only at ht
    split at ht
    · split at ht
      · obtain rfl := Option.some.inj ht
        exact ⟨h.heeding, h.woken⟩
      · cases ht
    · cases ht
  | serve i l =>
    unfold submitStep at ht
    simp only at ht
    split at ht
    · next hi =>
      obtain ⟨⟨w, c, results⟩, hw, rfl⟩ := Option.map_eq_some_iff.mp ht
      exact h.serve hi (DiskServer.step_serves hw)
    · cases ht
  | tell =>
    unfold submitStep at ht
    simp only at ht
    split at ht
    · next hi =>
      obtain rfl := Option.some.inj ht
      refine ⟨forall_setServer h.heeding ⟨fun _ => hp, fun _ => rfl⟩, fun hzero => ?_⟩
      rcases h.woken hzero with hs | ⟨j, hj, hs⟩
      · exact Or.inl hs
      · refine Or.inr ⟨j, hj, ?_⟩
        simp only [SubmitState.setServer]
        split
        · next he => rw [he] at hs; exact hs
        · exact hs
    · cases ht
  | join =>
    unfold submitStep at ht
    simp only at ht
    split at ht
    · split at ht
      · obtain rfl := Option.some.inj ht
        exact ⟨h.heeding, h.woken⟩
      · cases ht
    · cases ht

/-- There is a way on to a state in which the event is set. -/
def CanWake (n : ℕ) (s : SubmitState) : Prop :=
  ∃ ls t, run (submitStep n) s ls = some t ∧ t.comp.signalled = true

/-- The submitter waits for an event that nothing is left to set. -/
def Stuck (n : ℕ) (s : SubmitState) : Prop :=
  s.submitter = .waiting ∧ s.comp.signalled = false ∧ ¬ CanWake n s

theorem CanWake.before {n : ℕ} {s t : SubmitState} {l : SubmitLabel} (ht : submitStep n s l = some t)
    (h : CanWake n t) : CanWake n s := by
  obtain ⟨ls, u, hu, hs⟩ := h
  exact ⟨l :: ls, u, (run_cons _ s u l ls).mpr ⟨t, ht, hu⟩, hs⟩

/-- A worker with a request can take a step towards its end. -/
theorem Heeding.progress {todo : List (ℕ × RingIo)} {i : ℕ} {w : DiskServer} (hw : Heeding todo i w)
    (hload : 0 < w.load) (c : IoCompletion) :
    ∃ l w' c' results, w.step c l = some (w', c', results) ∧ (w'.work < w.work ∨ c'.signalled = true) := by
  obtain ⟨queue, pc, stop⟩ := w
  cases pc with
  | head =>
    cases stop with
    | false => exact ⟨.look, _, _, _, rfl, Or.inl (Nat.lt_succ_self _)⟩
    | true =>
      have hempty := (hw.settled rfl).1
      simp only [DiskServer.load, DiskServer.takes] at hload hempty
      omega
  | polling =>
    cases queue with
    | nil => exact absurd hload (Nat.lt_irrefl 0)
    | cons io queue =>
      refine ⟨.pop, _, _, _, rfl, Or.inl ?_⟩
      simp only [DiskServer.work, List.length_cons]
      omega
  | popped io => exact ⟨.start, _, _, _, rfl, Or.inl (Nat.lt_succ_self _)⟩
  | started io => exact ⟨.finish true, _, _, _, rfl, Or.inl (Nat.lt_succ_self _)⟩
  | ended =>
    refine ⟨.complete, _, _, _, rfl, Or.inl ?_⟩
    by_cases hlast : c.pending - 1 = 0
    · simp only [DiskServer.work, if_pos hlast]
      omega
    · simp only [DiskServer.work, if_neg hlast]
      omega
  | signalling => exact ⟨.signal, _, _, _, rfl, Or.inr rfl⟩
  | exited =>
    have hempty := (hw.settled (hw.exited rfl)).1
    simp only [DiskServer.load, DiskServer.takes] at hload hempty
    omega

theorem canWake {n : ℕ} {reqs : List (ℕ × RingIo)} (k : ℕ) :
    ∀ {s : SubmitState}, total n DiskServer.work s < k → Counted n reqs s → Awake n s → s.todo = [] → CanWake n s := by
  induction k with
  | zero => intro s hk; exact absurd hk (Nat.not_lt_zero _)
  | succ k ih =>
    intro s hk hcounted hawake htodo
    by_cases hzero : s.comp.pending = 0
    · rcases hawake.woken hzero with hs | ⟨i, hi, hpc⟩
      · exact ⟨[], s, rfl, hs⟩
      · have hstep : (s.servers i).step s.comp .signal =
            some ({ s.servers i with pc := .head }, { s.comp with signalled := true }, []) := by
          simp only [DiskServer.step, hpc]
        have ht : submitStep n s (.serve i .signal) =
            some { s.setServer i { s.servers i with pc := .head } with
              comp := { s.comp with signalled := true }, results := s.results ++ [] } := by
          simp only [submitStep, if_pos hi, hstep, Option.map_some]
        exact CanWake.before ht ⟨[], _, rfl, rfl⟩
    · have hcount := hcounted.count
      rw [htodo, List.length_nil, Nat.zero_add] at hcount
      obtain ⟨i, hi, hload⟩ := exists_of_total (show 0 < total n DiskServer.load s by omega)
      obtain ⟨l, w, c, results, hw, hprogress⟩ := (hawake.heeding i hi).progress hload s.comp
      have ht : submitStep n s (.serve i l) =
          some { s.setServer i w with comp := c, results := s.results ++ results } := by
        simp only [submitStep, if_pos hi, hw, Option.map_some]
      apply CanWake.before ht
      rcases hprogress with hless | hs
      · have hwork := total_setServer hi DiskServer.work s w
        apply ih _ (hcounted.step ht) (hawake.step (l := .serve i l) True.intro ht) htodo
        change total n DiskServer.work (s.setServer i w) < k
        omega
      · exact ⟨[], _, rfl, hs⟩

/-! ### Runs -/

theorem submitEntriesFrom_index (op : IoOpType) (cum : ℕ) (es : List IoMappingEntry) :
    (submitEntriesFrom op cum es).map Prod.fst = es.map IoMappingEntry.diskIndex := by
  induction es generalizing cum with
  | nil => rfl
  | cons e es ih => rw [submitEntriesFrom, List.map_cons, List.map_cons, ih]

theorem total_start (n : ℕ) {f : DiskServer → ℕ} (op : IoOpType) (es : List IoMappingEntry)
    (h : f ⟨[], .head, false⟩ = 0) : total n f (.start op es) = 0 :=
  Finset.sum_eq_zero fun _ _ => h

theorem counted_start (n : ℕ) (op : IoOpType) (es : List IoMappingEntry) :
    Counted n (submitEntriesFrom op 0 es) (.start op es) := by
  have hlen := congrArg List.length (submitEntriesFrom_index op 0 es)
  rw [List.length_map, List.length_map] at hlen
  refine ⟨?_, fun _ => rfl, nofun, fun _ _ => nofun, ⟨[], rfl, rfl, ?_⟩, nofun⟩
  · rw [total_start n op es rfl]
    simp only [SubmitState.start, hlen, Nat.add_zero]
  · rw [total_start n op es rfl]
    rfl

theorem awake_start (n : ℕ) (op : IoOpType) {es : List IoMappingEntry} (hne : es ≠ []) : Awake n (.start op es) := by
  refine ⟨fun i _ => ⟨nofun, nofun⟩, fun hzero => ?_⟩
  simp only [SubmitState.start, Int.natCast_eq_zero] at hzero
  exact absurd (List.eq_nil_of_length_eq_zero hzero) hne

/-- With a valid last index the submitter never counts the last request itself. -/
theorem heeded_of_last {n : ℕ} {op : IoOpType} {entries : List IoMappingEntry} {s : SubmitState}
    (h : Counted n (submitEntriesFrom op 0 entries) s) (hlast : ∀ e ∈ entries.getLast?, e.diskIndex < n) :
    Heeded n s .submit := by
  intro x hx hinvalid hone
  obtain ⟨handled, hreqs, _⟩ := h.handled
  cases htodo : s.todo with
  | nil =>
    rw [htodo] at hx
    cases hx
  | cons y todo =>
    rw [htodo] at hx hreqs
    obtain rfl := Option.some.inj hx
    cases todo with
    | nil =>
      have hindex := submitEntriesFrom_index op 0 entries
      rw [hreqs, List.map_append, List.map_singleton] at hindex
      have hend := congrArg List.getLast? hindex
      rw [List.getLast?_append, List.getLast?_singleton, Option.some_or, List.getLast?_map] at hend
      obtain ⟨e, he, hei⟩ := Option.map_eq_some_iff.mp hend.symm
      have hvalid := hlast e he
      omega
    | cons z todo =>
      have hcount := h.count
      rw [htodo, List.length_cons, List.length_cons] at hcount
      omega

/-- In a run in which the submitter never counts the last request itself and no worker is
stopped with requests left, the submitter is not stuck; the first is so when the last index is
valid. What it returns tells whether every index was valid and every I/O successful. -/
theorem submitEntries_wakes (n : ℕ) (op : IoOpType) (entries : List IoMappingEntry) (hne : entries ≠ [])
    (ls : List SubmitLabel) {t : SubmitState} (hrun : run (submitStep n) (.start op entries) ls = some t) :
    (Along (submitStep n) (Heeded n) (.start op entries) ls → ¬ Stuck n t) ∧
    ((∀ e ∈ entries.getLast?, e.diskIndex < n) → (∀ l ∈ ls, l ≠ .tell) → ¬ Stuck n t) ∧
    ∀ ok, t.submitter = .returned ok →
      t.results.length = entries.countP (fun e => decide (e.diskIndex < n)) ∧
      (ok = true ↔ (∀ e ∈ entries, e.diskIndex < n) ∧ ∀ r ∈ t.results, r = true) := by
  have hcounted : Counted n (submitEntriesFrom op 0 entries) t :=
    run_preserves (fun _ _ _ hs ht => Counted.step hs ht) (counted_start n op entries) hrun
  have hlive : Awake n t → ¬ Stuck n t := by
    intro hawake ⟨hpc, _, hnever⟩
    have htodo : t.todo = [] := by
      by_contra hmore
      have hpushing := hcounted.pushing hmore
      rw [hpc] at hpushing
      cases hpushing
    exact hnever (canWake _ (Nat.lt_succ_self _) hcounted hawake htodo)
  refine ⟨fun halong => hlive ?_, fun hlast hrunning => hlive ?_, ?_⟩
  · exact run_invariant (fun _ _ _ hs hp ht => Awake.step hs hp ht) halong (awake_start n op hne) hrun
  · have hboth : Counted n (submitEntriesFrom op 0 entries) t ∧ Awake n t := by
      refine run_invariant (P := fun _ l => l ≠ .tell)
        (I := fun s => Counted n (submitEntriesFrom op 0 entries) s ∧ Awake n s) (fun s l u hs hl hu => ?_)
        (along_of_forall _ _ hrunning) ⟨counted_start n op entries, awake_start n op hne⟩ hrun
      refine ⟨hs.1.step hu, hs.2.step ?_ hu⟩
      cases l with
      | submit => exact heeded_of_last hs.1 hlast
      | tell => exact absurd rfl hl
      | _ => exact True.intro
    exact hboth.2
  · intro ok hok
    obtain ⟨hsignalled, hanswer⟩ := hcounted.answer ok hok
    obtain ⟨htodo, hidle⟩ := hcounted.idle (hcounted.signalled hsignalled)
    obtain ⟨handled, hreqs, herror, hserved⟩ := hcounted.handled
    rw [htodo, List.append_nil] at hreqs
    have hzero : total n DiskServer.unserved t = 0 := by
      apply Finset.sum_eq_zero
      intro i hi
      exact Nat.le_zero.mp ((t.servers i).unserved_le.trans (Nat.le_of_eq (hidle i (Finset.mem_range.mp hi))))
    have hindex := submitEntriesFrom_index op 0 entries
    rw [hreqs] at hindex
    constructor
    · have hcount : (handled.map Prod.fst).countP (fun i => decide (i < n)) =
          (entries.map IoMappingEntry.diskIndex).countP fun i => decide (i < n) := by rw [hindex]
      rw [List.countP_map, List.countP_map] at hcount
      rw [hzero, Nat.add_zero] at hserved
      exact hserved.trans hcount
    · have hvalid : (∀ e ∈ entries, e.diskIndex < n) ↔ ∀ x ∈ handled, x.1 < n := by
        have hall : (∀ i ∈ entries.map IoMappingEntry.diskIndex, i < n) ↔ ∀ i ∈ handled.map Prod.fst, i < n := by
          rw [hindex]
        rw [List.forall_mem_map, List.forall_mem_map] at hall
        exact hall
      rw [hvalid, hanswer, herror, Bool.not_eq_true', Bool.or_eq_false_iff, List.any_eq_false, List.any_eq_false]
      apply and_congr
      · apply forall₂_congr
        intro x _
        rw [decide_eq_true_eq, Nat.not_le]
      · apply forall₂_congr
        intro r _
        rw [Bool.not_eq_true', Bool.not_eq_false]

/-! ### Runs that are stuck -/

/-- A worker that will not set the event. -/
def DiskServer.Dead (w : DiskServer) : Prop := w.pc ≠ .signalling ∧ (w.load = 0 ∨ w.pc = .exited)

theorem Serving.dead {w w' : DiskServer} {c c' : IoCompletion} {results : List Bool} (h : Serving w c w' c' results)
    (hw : w.Dead) : w'.Dead ∧ c'.signalled = c.signalled := by
  obtain ⟨hpc, hidle⟩ := hw
  cases h with
  | exit => exact ⟨⟨nofun, Or.inr rfl⟩, rfl⟩
  | signal => exact absurd rfl hpc
  | poll | empty =>
    rcases hidle with hload | hexit
    · exact ⟨⟨nofun, Or.inl hload⟩, rfl⟩
    · cases hexit
  | _ =>
    rcases hidle with hload | hexit
    · cases hload
    · cases hexit

/-- The submitter waits, and every worker is dead. -/
structure AllDead (n : ℕ) (s : SubmitState) : Prop where
  waiting : s.submitter = .waiting
  unset : s.comp.signalled = false
  dead : ∀ i < n, (s.servers i).Dead

theorem AllDead.step {n : ℕ} {s t : SubmitState} {l : SubmitLabel} (h : AllDead n s) (ht : submitStep n s l = some t) :
    AllDead n t := by
  cases l with
  | submit =>
    simp only [submitStep, h.waiting] at ht
    cases ht
  | wake =>
    simp only [submitStep, h.waiting, h.unset, Bool.false_eq_true, if_false] at ht
    cases ht
  | serve i l =>
    unfold submitStep at ht
    simp only at ht
    split at ht
    · next hi =>
      obtain ⟨⟨w, c, results⟩, hw, rfl⟩ := Option.map_eq_some_iff.mp ht
      obtain ⟨hdead, hunset⟩ := (DiskServer.step_serves hw).dead (h.dead i hi)
      exact ⟨h.waiting, hunset.trans h.unset, forall_setServer (P := fun _ u => u.Dead) h.dead hdead⟩
    · cases ht
  | tell =>
    unfold submitStep at ht
    simp only at ht
    split at ht
    · next hi =>
      obtain rfl := Option.some.inj ht
      exact ⟨h.waiting, h.unset, forall_setServer (P := fun _ u => u.Dead) h.dead (h.dead _ hi)⟩
    · cases ht
  | join =>
    unfold submitStep at ht
    simp only at ht
    split at ht
    · split at ht
      · obtain rfl := Option.some.inj ht
        exact ⟨h.waiting, h.unset, h.dead⟩
      · cases ht
    · cases ht

theorem AllDead.stuck {n : ℕ} {s : SubmitState} (h : AllDead n s) : Stuck n s := by
  refine ⟨h.waiting, h.unset, ?_⟩
  rintro ⟨ls, t, hrun, hs⟩
  have hdead : AllDead n t := run_preserves (fun _ _ _ hs ht => AllDead.step hs ht) h hrun
  rw [hdead.unset] at hs
  cases hs

/-- One request for no disk; and one request for a worker that `stripe_volume_workers_stop`
stops before it takes it. -/
theorem submitEntries_wakes_fails :
    (∃ t, run (submitStep 2) (.start .write [⟨2, 0, 4096⟩]) [.submit, .submit] = some t ∧ Stuck 2 t) ∧
    ∃ t, run (submitStep 2) (.start .write [⟨0, 0, 4096⟩]) [.submit, .submit, .tell, .serve 0 .look] = some t ∧
      Stuck 2 t := by
  constructor
  · exact ⟨_, rfl, AllDead.stuck ⟨rfl, rfl, fun _ _ => ⟨nofun, Or.inl rfl⟩⟩⟩
  · refine ⟨_, rfl, AllDead.stuck ⟨rfl, rfl, fun i hi => ?_⟩⟩
    cases i with
    | zero => exact ⟨nofun, Or.inr rfl⟩
    | succ i => exact ⟨nofun, Or.inl rfl⟩

/-- An index for no disk before a valid one; the workers are stopped afterwards. -/
theorem submitEntries_wakes_sample : ∃ t,
    run (submitStep 1) (.start .write [⟨7, 0, 512⟩, ⟨0, 0, 512⟩])
      [.submit, .submit, .submit, .serve 0 .look, .serve 0 .pop, .tell, .serve 0 .start, .serve 0 (.finish true)] = some t ∧
    ¬ Stuck 1 t :=
  ⟨_, rfl, (submitEntries_wakes 1 .write [⟨7, 0, 512⟩, ⟨0, 0, 512⟩] (by decide)
    [.submit, .submit, .submit, .serve 0 .look, .serve 0 .pop, .tell, .serve 0 .start, .serve 0 (.finish true)] rfl).1
    (along_cons rfl (fun x hx _ => by cases hx; decide) <|
      along_cons rfl (fun x hx hle => by cases hx; exact absurd hle (by decide)) <|
      along_cons rfl (fun x hx => by cases hx) <| along_cons rfl True.intro <| along_cons rfl True.intro <|
      along_cons rfl ⟨by decide, fun x hx => by cases hx⟩ <| along_cons rfl True.intro <|
      along_cons rfl True.intro True.intro)⟩

end RaidTest.Stripe
