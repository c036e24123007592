import Mathlib.Data.List.Nodup
import Mathlib.Data.List.Perm.Basic
import Mathlib.Tactic.Common

/-!
# Walking a forest that is kept as a list of nodes

Every node names the one above it. A walk lists the nodes directly beneath a place, and goes on
beneath each of them.
-/

namespace RaidTest.Base

variable {α : Type} {nodes : List α} {up : α → α}

/-! ### Above and beneath -/

/-- `q` is a node, and `p` is above it. -/
inductive Beneath (nodes : List α) (up : α → α) (p : α) : α → Prop where
  | kid {q : α} (hq : q ∈ nodes) (h : up q = p) : Beneath nodes up p q
  | deeper {q : α} (hq : q ∈ nodes) (h : Beneath nodes up p (up q)) : Beneath nodes up p q

theorem Beneath.mem {p q : α} (h : Beneath nodes up p q) : q ∈ nodes := by
  cases h with
  | kid hq _ => exact hq
  | deeper hq _ => exact hq

theorem Beneath.trans {p q x : α} (h : Beneath nodes up p q) (hx : Beneath nodes up q x) : Beneath nodes up p x := by
  induction hx with
  | kid hx he => exact .deeper hx (he ▸ h)
  | deeper hx _ ih => exact .deeper hx ih

/-- What is above the same node is above one another. -/
theorem Beneath.linear {p q x : α} (hp : Beneath nodes up p x) (hq : Beneath nodes up q x) :
    p = q ∨ Beneath nodes up p q ∨ Beneath nodes up q p := by
  induction hp with
  | kid hx he =>
    cases hq with
    | kid _ he' => exact Or.inl (he.symm.trans he')
    | deeper _ h => exact Or.inr (Or.inr (he ▸ h))
  | deeper hx h ih =>
    cases hq with
    | kid _ he' => exact Or.inr (Or.inl (he' ▸ h))
    | deeper _ h' => exact ih h'

/-- The way down from `p` starts at a node directly beneath it. -/
theorem Beneath.first {p x : α} (h : Beneath nodes up p x) :
    ∃ q ∈ nodes, up q = p ∧ (x = q ∨ Beneath nodes up q x) := by
  induction h with
  | kid hq he => exact ⟨_, hq, he, Or.inl rfl⟩
  | deeper hq _ ih =>
    obtain ⟨r, hr, hup, he | hd⟩ := ih
    · exact ⟨r, hr, hup, Or.inr (.kid hq he)⟩
    · exact ⟨r, hr, hup, Or.inr (.deeper hq hd)⟩

/-- The nodes form a forest under `root`: each is there once and lower than the one it names, and
that is another node or the root. -/
structure Rooted (nodes : List α) (up : α → α) (root : α) (rank : α → ℕ) : Prop where
  nodup : nodes.Nodup
  lower : ∀ q ∈ nodes, rank (up q) < rank q
  closed : ∀ q ∈ nodes, up q = root ∨ up q ∈ nodes

theorem Rooted.rank_lt {root : α} {rank : α → ℕ} (h : Rooted nodes up root rank) {p q : α}
    (hb : Beneath nodes up p q) : rank p < rank q := by
  induction hb with
  | kid hq he => exact he ▸ h.lower _ hq
  | deeper hq _ ih => exact Nat.lt_trans ih (h.lower _ hq)

/-- Siblings are not beneath one another. -/
theorem Rooted.siblings {root : α} {rank : α → ℕ} (h : Rooted nodes up root rank) {q r : α} (hq : q ∈ nodes)
    (he : up q = up r) : ¬ Beneath nodes up q r := by
  intro hb
  have hlt := h.lower q hq
  rw [he] at hlt
  cases hb with
  | kid _ hup =>
    rw [hup] at hlt
    exact Nat.lt_irrefl _ hlt
  | deeper _ hd => exact Nat.lt_asymm hlt (h.rank_lt hd)

theorem Rooted.root_above {root : α} {rank : α → ℕ} (h : Rooted nodes up root rank) {x : α} (hx : x ∈ nodes) :
    Beneath nodes up root x := by
  induction hn : rank x using Nat.strongRecOn generalizing x with
  | _ n ih =>
    have hlt := h.lower x hx
    rcases h.closed x hx with he | hup
    · exact .kid hx he
    · exact .deeper hx (ih (rank (up x)) (hn ▸ hlt) hup rfl)

/-! ### The walk -/

section Walk
variable [DecidableEq α]

/-- The nodes directly beneath `p`. -/
def kids (nodes : List α) (up : α → α) (p : α) : List α := nodes.filter fun q => up q = p

/-- Everything beneath `p` down to a depth. -/
def walk (nodes : List α) (up : α → α) : ℕ → α → List α
  | 0, _ => []
  | n + 1, p => (kids nodes up p).flatMap fun q => q :: walk nodes up n q

theorem mem_kids {p q : α} : q ∈ kids nodes up p ↔ q ∈ nodes ∧ up q = p := by
  simp only [kids, List.mem_filter, decide_eq_true_eq]

theorem mem_walk_succ {n : ℕ} {p x : α} :
    x ∈ walk nodes up (n + 1) p ↔ ∃ q ∈ kids nodes up p, x = q ∨ x ∈ walk nodes up n q := by
  simp only [walk, List.mem_flatMap, List.mem_cons]

theorem walk_beneath {n : ℕ} {p x : α} (hx : x ∈ walk nodes up n p) : Beneath nodes up p x := by
  induction n generalizing p with
  | zero => cases hx
  | succ n ih =>
    obtain ⟨q, hq, hx⟩ := mem_walk_succ.mp hx
    obtain ⟨hmem, hup⟩ := mem_kids.mp hq
    rcases hx with rfl | hx
    · exact .kid hmem hup
    · exact (Beneath.kid hmem hup).trans (ih hx)

variable {root : α} {rank : α → ℕ} (h : Rooted nodes up root rank)
include h

/-- A walk that is deep enough leaves nothing out. -/
theorem Rooted.walk_reaches {n : ℕ} {p x : α} (hb : Beneath nodes up p x) (hn : rank x ≤ rank p + n) :
    x ∈ walk nodes up n p := by
  induction n generalizing p with
  | zero =>
    have hlt := h.rank_lt hb
    omega
  | succ n ih =>
    obtain ⟨q, hq, hup, hx⟩ := hb.first
    refine mem_walk_succ.mpr ⟨q, mem_kids.mpr ⟨hq, hup⟩, hx.imp id fun hd => ih hd ?_⟩
    have hlt := h.rank_lt (Beneath.kid hq hup)
    omega

theorem Rooted.walk_nodup (n : ℕ) (p : α) : (walk nodes up n p).Nodup := by
  induction n generalizing p with
  | zero => exact List.nodup_nil
  | succ n ih =>
    unfold walk
    rw [List.nodup_flatMap]
    constructor
    · intro q hq
      rw [List.nodup_cons]
      exact ⟨fun hin => Nat.lt_irrefl _ (h.rank_lt (walk_beneath hin)), ih q⟩
    · have hkids : (kids nodes up p).Nodup := h.nodup.filter _
      apply List.Nodup.pairwise_of_forall_ne hkids
      intro q hq r hr hne x hxq hxr
      obtain ⟨hqm, hqp⟩ := mem_kids.mp hq
      obtain ⟨hrm, hrp⟩ := mem_kids.mp hr
      have hqr := h.siblings hqm (hqp.trans hrp.symm)
      have hrq := h.siblings hrm (hrp.trans hqp.symm)
      rcases (List.mem_cons.mp hxq).imp id walk_beneath with rfl | hq' <;>
        rcases (List.mem_cons.mp hxr).imp id walk_beneath with he | hr'
      · exact hne he
      · exact hrq hr'
      · exact hqr (he ▸ hq')
      · rcases hq'.linear hr' with he | hlt | hlt
        · exact hne he
        · exact hqr hlt
        · exact hrq hlt

/-- A walk from the root passes every node once. -/
theorem Rooted.walk_perm {n : ℕ} (hn : ∀ q ∈ nodes, rank q ≤ rank root + n) : (walk nodes up n root).Perm nodes := by
  rw [List.perm_ext_iff_of_nodup (h.walk_nodup n root) h.nodup]
  intro x
  exact ⟨fun hx => (walk_beneath hx).mem, fun hx => h.walk_reaches (h.root_above hx) (hn x hx)⟩

end Walk

end RaidTest.Base
