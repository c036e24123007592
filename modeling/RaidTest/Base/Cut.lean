import Mathlib.Data.Nat.Notation
import Mathlib.Tactic.Common

/-!
# Protocols that can be cut

A protocol is a list of operations that cannot fail. A crash leaves what a part of them did.
-/

namespace RaidTest.Base

variable {σ ι : Type} (apply : ι → σ → σ)

def perform (ops : List ι) (s : σ) : σ := ops.foldl (fun s op => apply op s) s

@[simp] theorem perform_nil (s : σ) : perform apply [] s = s := rfl

theorem perform_cons (op : ι) (ops : List ι) (s : σ) : perform apply (op :: ops) s = perform apply ops (apply op s) := rfl

theorem perform_append (ops qs : List ι) (s : σ) : perform apply (ops ++ qs) s = perform apply qs (perform apply ops s) :=
  List.foldl_append

/-- What holds before the protocol holds wherever it is cut. -/
def CutKeeps (P : σ → Prop) (ops : List ι) : Prop := ∀ k s, P s → P (perform apply (ops.take k) s)

variable {apply} {P : σ → Prop}

theorem CutKeeps.perform {ops : List ι} (h : CutKeeps apply P ops) {s : σ} (hs : P s) : P (perform apply ops s) := by
  have hall := h ops.length s hs
  rw [List.take_length] at hall
  exact hall

theorem cutKeeps_nil : CutKeeps apply P [] := by
  intro k s hs
  rw [List.take_nil]
  exact hs

theorem CutKeeps.append {ops qs : List ι} (h : CutKeeps apply P ops) (hq : CutKeeps apply P qs) :
    CutKeeps apply P (ops ++ qs) := by
  intro k s hs
  rw [List.take_append, perform_append]
  exact hq _ _ (h k s hs)

theorem cutKeeps_one {op : ι} (h : ∀ s, P s → P (apply op s)) : CutKeeps apply P [op] := by
  intro k s hs
  cases k with
  | zero => exact hs
  | succ k =>
    rw [List.take_succ_cons, List.take_nil]
    exact h s hs

theorem cutKeeps_flatMap {α : Type} {f : α → List ι} (l : List α) (h : ∀ x ∈ l, CutKeeps apply P (f x)) :
    CutKeeps apply P (l.flatMap f) := by
  induction l with
  | nil => exact cutKeeps_nil
  | cons x l ih =>
    rw [List.flatMap_cons]
    exact (h x (List.mem_cons_self ..)).append (ih fun y hy => h y (List.mem_cons_of_mem _ hy))

end RaidTest.Base
