import Mathlib.Data.List.Induction
import Mathlib.Tactic.Common

/-!
# Since the last time

An event of one kind has happened, and since then none of another kind. Adding one event to a
history decides this from the history and the event alone.
-/

namespace RaidTest.Base

variable {ι : Type} {P Q : ι → Prop}

/-- In the history there is an event `P`, and behind it no event `Q`. -/
def Since (P Q : ι → Prop) (l : List ι) : Prop := ∃ a x b, l = a ++ x :: b ∧ P x ∧ ∀ y ∈ b, ¬ Q y

theorem not_since_nil : ¬ Since P Q [] := by
  rintro ⟨a, x, b, he, _⟩
  exact List.append_ne_nil_of_right_ne_nil a (List.cons_ne_nil x b) he.symm

theorem since_concat {l : List ι} {x : ι} : Since P Q (l ++ [x]) ↔ P x ∨ Since P Q l ∧ ¬ Q x := by
  constructor
  · rintro ⟨a, y, b, he, hy, hb⟩
    rcases List.eq_nil_or_concat b with rfl | ⟨b', z, rfl⟩
    · left
      have hx := (List.append_inj' he rfl).2
      rw [List.singleton_inj.mp hx]
      exact hy
    · rw [List.concat_eq_append] at he hb
      rw [← List.cons_append, ← List.append_assoc] at he
      obtain ⟨h1, h2⟩ := List.append_inj' he rfl
      right
      refine ⟨⟨a, y, b', h1, hy, fun w hw => hb w (List.mem_append_left _ hw)⟩, ?_⟩
      rw [List.singleton_inj.mp h2]
      exact hb z (List.mem_append_right _ (List.mem_singleton_self z))
  · rintro (hx | ⟨⟨a, y, b, rfl, hy, hb⟩, hx⟩)
    · exact ⟨l, x, [], rfl, hx, nofun⟩
    · refine ⟨a, y, b ++ [x], by rw [List.append_assoc, List.cons_append], hy, fun w hw => ?_⟩
      rcases List.mem_append.mp hw with hw | hw
      · exact hb w hw
      · rw [List.mem_singleton.mp hw]
        exact hx

/-- If `P` and `R` have both happened since the last `Q` and `P` is itself a `Q`, then `R` came
after `P`. -/
theorem Since.after {R : ι → Prop} {l : List ι} (h : Since P Q l) (hr : Since R Q l) (hpq : ∀ x, P x → Q x)
    (hne : ∀ x, P x → ¬ R x) : ∃ a x b y c, l = a ++ x :: (b ++ y :: c) ∧ P x ∧ R y := by
  obtain ⟨a, x, b, he, hx, hb⟩ := h
  obtain ⟨a', y, c, he', hy, hc⟩ := hr
  rcases List.append_eq_append_iff.mp (he.symm.trans he') with ⟨m, h1, h2⟩ | ⟨m, h1, h2⟩
  · cases m with
    | nil =>
      obtain ⟨rfl, -⟩ := List.cons.inj h2
      exact absurd hy (hne x hx)
    | cons z m =>
      obtain ⟨rfl, rfl⟩ := List.cons.inj h2
      exact ⟨a, x, m, y, c, he, hx, hy⟩
  · cases m with
    | nil =>
      obtain ⟨rfl, -⟩ := List.cons.inj h2
      exact absurd hy (hne y hx)
    | cons z m =>
      obtain ⟨rfl, rfl⟩ := List.cons.inj h2
      exact absurd (hpq x hx) (hc x (List.mem_append_right _ (List.mem_cons_self ..)))

end RaidTest.Base
