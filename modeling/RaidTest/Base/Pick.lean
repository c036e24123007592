import Mathlib.Tactic.Common
import Mathlib.Order.Lattice

/-!
# The first greatest entry of a list

A scan keeps the best entry so far and gives it up only for a better one.
-/

namespace RaidTest.Base

variable {α β : Type}

/-- The scan; `better c best` is the test that replaces `best` by `c`. -/
def pickBest (better : α → α → Bool) : List α → Option α
  | [] => none
  | x :: xs => some (xs.foldl (fun best c => if better c best then c else best) x)

/-- `m` is greater than all before it and not less than any after it. -/
def FirstGreatest [LT β] [LE β] (key : α → β) (l : List α) (m : α) : Prop :=
  ∃ before after, l = before ++ m :: after ∧ (∀ x ∈ before, key x < key m) ∧ ∀ x ∈ after, key x ≤ key m

section
variable [LinearOrder β] {key : α → β} {better : α → α → Bool}

theorem foldl_better_stays (hb : ∀ c b, better c b = true ↔ key b < key c) {m : α} {l : List α}
    (h : ∀ x ∈ l, key x ≤ key m) : l.foldl (fun best c => if better c best then c else best) m = m := by
  induction l with
  | nil => rfl
  | cons x l ih =>
    have hx : better x m ≠ true := fun hx => absurd ((hb x m).mp hx) (not_lt_of_ge (h x (List.mem_cons_self ..)))
    rw [List.foldl_cons, if_neg hx]
    exact ih fun y hy => h y (List.mem_cons_of_mem _ hy)

theorem foldl_better_below (hb : ∀ c b, better c b = true ↔ key b < key c) {m : α} (after : List α)
    (hafter : ∀ x ∈ after, key x ≤ key m) : ∀ (before : List α) (best : α), key best < key m →
    (∀ x ∈ before, key x < key m) →
    (before ++ m :: after).foldl (fun best c => if better c best then c else best) best = m := by
  intro before
  induction before with
  | nil =>
    intro best hbest _
    rw [List.nil_append, List.foldl_cons, if_pos ((hb m best).mpr hbest)]
    exact foldl_better_stays hb hafter
  | cons x before ih =>
    intro best hbest hbefore
    have hx := hbefore x (List.mem_cons_self ..)
    rw [List.cons_append, List.foldl_cons]
    apply ih
    · split
      · exact hx
      · exact hbest
    · exact fun y hy => hbefore y (List.mem_cons_of_mem _ hy)

theorem firstGreatest_of_foldl (hb : ∀ c b, better c b = true ↔ key b < key c) {m : α} (l : List α) :
    ∀ x, l.foldl (fun best c => if better c best then c else best) x = m → FirstGreatest key (x :: l) m := by
  induction l with
  | nil =>
    intro x h
    obtain rfl : x = m := h
    exact ⟨[], [], rfl, fun _ hx => absurd hx List.not_mem_nil, fun _ hx => absurd hx List.not_mem_nil⟩
  | cons c l ih =>
    intro x h
    rw [List.foldl_cons] at h
    by_cases hc : better c x = true
    · -- the new best is ahead of all that follow, and `x` is behind it
      rw [if_pos hc] at h
      obtain ⟨before, after, he, hbefore, hafter⟩ := ih c h
      refine ⟨x :: before, after, by rw [he, List.cons_append], ?_, hafter⟩
      have hxc := (hb c x).mp hc
      intro y hy
      rcases List.mem_cons.mp hy with rfl | hy
      · cases before with
        | nil =>
          obtain ⟨rfl, _⟩ := List.cons.inj he
          exact hxc
        | cons z before =>
          obtain ⟨rfl, _⟩ := List.cons.inj he
          exact hxc.trans (hbefore _ (List.mem_cons_self ..))
      · exact hbefore y hy
    · rw [if_neg hc] at h
      have hcx : key c ≤ key x := le_of_not_gt fun hlt => hc ((hb c x).mpr hlt)
      obtain ⟨before, after, he, hbefore, hafter⟩ := ih x h
      cases before with
      | nil =>
        obtain ⟨rfl, rfl⟩ := List.cons.inj he
        refine ⟨[], c :: l, rfl, fun _ hx => absurd hx List.not_mem_nil, fun y hy => ?_⟩
        rcases List.mem_cons.mp hy with rfl | hy
        · exact hcx
        · exact hafter y hy
      | cons z before =>
        obtain ⟨rfl, rfl⟩ := List.cons.inj he
        have hx := hbefore x (List.mem_cons_self ..)
        refine ⟨x :: c :: before, after, rfl, fun y hy => ?_, hafter⟩
        rcases List.mem_cons.mp hy with rfl | hy
        · exact hx
        rcases List.mem_cons.mp hy with rfl | hy
        · exact lt_of_le_of_lt hcx hx
        · exact hbefore y (List.mem_cons_of_mem _ hy)

/-- The scan picks the first of the greatest entries. -/
theorem pickBest_iff (hb : ∀ c b, better c b = true ↔ key b < key c) (l : List α) (m : α) :
    pickBest better l = some m ↔ FirstGreatest key l m := by
  constructor
  · intro h
    cases l with
    | nil => cases h
    | cons x l => exact firstGreatest_of_foldl hb l x (Option.some.inj h)
  · rintro ⟨before, after, rfl, hbefore, hafter⟩
    cases before with
    | nil => exact congrArg some (foldl_better_stays hb hafter)
    | cons x before =>
      exact congrArg some (foldl_better_below hb after hafter before x (hbefore x (List.mem_cons_self ..))
        fun y hy => hbefore y (List.mem_cons_of_mem _ hy))

theorem FirstGreatest.mem {l : List α} {m : α} (h : FirstGreatest key l m) : m ∈ l := by
  obtain ⟨before, after, rfl, _, _⟩ := h
  exact List.mem_append_right _ (List.mem_cons_self ..)

theorem FirstGreatest.le {l : List α} {m : α} (h : FirstGreatest key l m) : ∀ x ∈ l, key x ≤ key m := by
  obtain ⟨before, after, rfl, hbefore, hafter⟩ := h
  intro x hx
  rcases List.mem_append.mp hx with hx | hx
  · exact le_of_lt (hbefore x hx)
  rcases List.mem_cons.mp hx with rfl | hx
  · exact le_refl _
  · exact hafter x hx

end

theorem pickBest_none {better : α → α → Bool} {l : List α} : pickBest better l = none ↔ l = [] := by
  cases l with
  | nil => exact iff_of_true rfl rfl
  | cons x l => exact iff_of_false (fun h => Option.some_ne_none _ h) (List.cons_ne_nil x l)

/-- What the first `n` results of a partial function on a list come from. -/
theorem mem_take_filterMap {f : α → Option β} {x : β} {l : List α} {n : ℕ} :
    x ∈ (l.filterMap f).take n ↔
      ∃ before a after, l = before ++ a :: after ∧ (before.filterMap f).length < n ∧ f a = some x := by
  constructor
  · intro h
    induction l generalizing n with
    | nil => exact absurd (List.mem_of_mem_take h) List.not_mem_nil
    | cons a l ih =>
      cases ha : f a with
      | none =>
        rw [List.filterMap_cons_none ha] at h
        obtain ⟨before, b, after, rfl, hlt, hb⟩ := ih h
        exact ⟨a :: before, b, after, rfl, by rw [List.filterMap_cons_none ha]; exact hlt, hb⟩
      | some y =>
        rw [List.filterMap_cons_some ha] at h
        cases n with
        | zero => exact absurd h List.not_mem_nil
        | succ n =>
          rcases List.mem_cons.mp h with rfl | h
          · exact ⟨[], a, l, rfl, Nat.succ_pos n, ha⟩
          · obtain ⟨before, b, after, rfl, hlt, hb⟩ := ih h
            refine ⟨a :: before, b, after, rfl, ?_, hb⟩
            rw [List.filterMap_cons_some ha, List.length_cons]
            exact Nat.succ_lt_succ hlt
  · rintro ⟨before, a, after, rfl, hlt, ha⟩
    rw [List.filterMap_append, List.filterMap_cons_some ha]
    obtain ⟨k, hk⟩ : ∃ k, n - (before.filterMap f).length = k + 1 := ⟨n - (before.filterMap f).length - 1, by omega⟩
    rw [List.take_append, hk, List.take_succ_cons]
    exact List.mem_append_right _ (List.mem_cons_self ..)

end RaidTest.Base
