import Mathlib.Tactic.Common

/-!
# Bounded queues

A machine answers every operation. Two machines that answer alike from related states and stay
related answer alike over a whole run. The bounded queue is the machine other queues are
compared with: it takes an item unless it is full, and gives the items back in their order.
-/

namespace RaidTest.Base

variable {σ τ ι α β : Type}

/-- The answers to a list of operations, and the state they leave. -/
def answers (step : σ → ι → β × σ) : σ → List ι → List β × σ
  | s, [] => ([], s)
  | s, op :: ops =>
    let r := step s op
    let rest := answers step r.2 ops
    (r.1 :: rest.1, rest.2)

/-- Related machines that answer alike step by step answer alike over a run. -/
theorem answers_simulated {step : σ → ι → β × σ} {step' : τ → ι → β × τ} {R : σ → τ → Prop}
    (h : ∀ s t op, R s t → (step s op).1 = (step' t op).1 ∧ R (step s op).2 (step' t op).2) (ops : List ι) :
    ∀ {s : σ} {t : τ}, R s t →
      (answers step s ops).1 = (answers step' t ops).1 ∧ R (answers step s ops).2 (answers step' t ops).2 := by
  induction ops with
  | nil => exact fun hr => ⟨rfl, hr⟩
  | cons op ops ih =>
    intro s t hr
    obtain ⟨ha, hs⟩ := h s t op hr
    obtain ⟨has, hss⟩ := ih hs
    exact ⟨congrArg₂ List.cons ha has, hss⟩

/-! ### The queue -/

inductive FifoOp (α : Type) where
  | push (x : α)
  | pop

inductive FifoAnswer (α : Type) where
  | pushed (ok : Bool)
  | popped (x : Option α)

def fifoStep (size : ℕ) (q : List α) : FifoOp α → FifoAnswer α × List α
  | .push x => if q.length < size then (.pushed true, q ++ [x]) else (.pushed false, q)
  | .pop => (.popped q.head?, q.tail)

/-- The items a queue has taken. -/
def taken : List (FifoOp α) → List (FifoAnswer α) → List α
  | .push x :: ops, .pushed true :: as => x :: taken ops as
  | _ :: ops, _ :: as => taken ops as
  | _, _ => []

/-- The items a queue has given back. -/
def given : List (FifoAnswer α) → List α
  | .popped (some x) :: as => x :: given as
  | _ :: as => given as
  | [] => []

/-- What went in before or during a run came out or is still there, in the same order. -/
theorem fifo_keeps (size : ℕ) (ops : List (FifoOp α)) : ∀ q : List α,
    q ++ taken ops (answers (fifoStep size) q ops).1 =
      given (answers (fifoStep size) q ops).1 ++ (answers (fifoStep size) q ops).2 := by
  induction ops with
  | nil => exact fun q => List.append_nil q
  | cons op ops ih =>
    intro q
    cases op with
    | push x =>
      by_cases hroom : q.length < size
      · have hstep : fifoStep size q (.push x) = (.pushed true, q ++ [x]) := if_pos hroom
        simp only [answers, hstep, taken, given]
        rw [← ih (q ++ [x]), List.append_assoc, List.singleton_append]
      · have hstep : fifoStep size q (.push x) = (.pushed false, q) := if_neg hroom
        simp only [answers, hstep, taken, given]
        exact ih q
    | pop =>
      cases q with
      | nil =>
        simp only [answers, fifoStep, List.head?_nil, List.tail_nil, taken, given]
        exact ih []
      | cons y q =>
        simp only [answers, fifoStep, List.head?_cons, List.tail_cons, taken, given]
        rw [List.cons_append, List.cons_append, ih q]

end RaidTest.Base
