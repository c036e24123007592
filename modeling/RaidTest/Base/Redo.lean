import Mathlib.Tactic.Common

/-!
# Redoing writes

A store maps cells to values, a write is a list of cells with their new values. What a list
of writes leaves in a cell it covers is not up to what the cell held before, so a part of the
list may have been done already, and a write of it may have been cut short.
-/

namespace RaidTest.Base

variable {κ β : Type}

/-- The write takes the store from `m` to `n`. -/
structure Lands (w : List (κ × β)) (m n : κ → β) : Prop where
  inside : ∀ k b, (k, b) ∈ w → n k = b
  outside : ∀ k, (∀ b, (k, b) ∉ w) → n k = m k

/-- The write was cut short: its cells may hold anything. -/
def Torn (w : List (κ × β)) (m n : κ → β) : Prop := ∀ k, (∀ b, (k, b) ∉ w) → n k = m k

/-- The writes take the store from `m` to `n`, one after the other. -/
def Redo : List (List (κ × β)) → (κ → β) → (κ → β) → Prop
  | [], m, n => n = m
  | w :: ws, m, n => ∃ l, Lands w m l ∧ Redo ws l n

/-- One of the writes has the cell. -/
def Covered (ws : List (List (κ × β))) (k : κ) : Prop := ∃ w ∈ ws, ∃ b, (k, b) ∈ w

theorem not_covered_cons {w : List (κ × β)} {ws : List (List (κ × β))} {k : κ} (h : ¬ Covered (w :: ws) k) :
    (∀ b, (k, b) ∉ w) ∧ ¬ Covered ws k :=
  ⟨fun b hb => h ⟨w, List.mem_cons_self .., b, hb⟩,
    fun ⟨x, hx, b, hb⟩ => h ⟨x, List.mem_cons_of_mem _ hx, b, hb⟩⟩

theorem redo_append {ws vs : List (List (κ × β))} {m n : κ → β} :
    Redo (ws ++ vs) m n ↔ ∃ l, Redo ws m l ∧ Redo vs l n := by
  induction ws generalizing m with
  | nil =>
    constructor
    · intro h
      exact ⟨m, rfl, h⟩
    · rintro ⟨l, rfl, h⟩
      exact h
  | cons w ws ih =>
    constructor
    · rintro ⟨l, hw, h⟩
      obtain ⟨l', h1, h2⟩ := ih.mp h
      exact ⟨l', ⟨l, hw, h1⟩, h2⟩
    · rintro ⟨l', ⟨l, hw, h1⟩, h2⟩
      exact ⟨l, hw, ih.mpr ⟨l', h1, h2⟩⟩

theorem Redo.outside {ws : List (List (κ × β))} {m n : κ → β} (h : Redo ws m n) {k : κ} (hk : ¬ Covered ws k) :
    n k = m k := by
  induction ws generalizing m with
  | nil =>
    have he : n = m := h
    rw [he]
  | cons w ws ih =>
    obtain ⟨l, hw, hr⟩ := h
    obtain ⟨h1, h2⟩ := not_covered_cons hk
    rw [ih hr h2, hw.outside k h1]

/-- When all writes agree on the value of a cell, it has that value if it is covered, or had
it already. -/
theorem Redo.settled {ws : List (List (κ × β))} {m n : κ → β} (h : Redo ws m n) {k : κ} {y : β}
    (hy : ∀ w ∈ ws, ∀ b, (k, b) ∈ w → b = y) (hk : Covered ws k ∨ m k = y) : n k = y := by
  induction ws generalizing m with
  | nil =>
    have he : n = m := h
    rw [he]
    rcases hk with ⟨w, hw, _⟩ | hk
    · cases hw
    · exact hk
  | cons w ws ih =>
    obtain ⟨l, hw, hr⟩ := h
    apply ih hr (fun x hx => hy x (List.mem_cons_of_mem _ hx))
    by_cases hc : ∃ b, (k, b) ∈ w
    · obtain ⟨b, hb⟩ := hc
      right
      rw [hw.inside k b hb]
      exact hy w (List.mem_cons_self ..) b hb
    · have hno : ∀ b, (k, b) ∉ w := fun b hb => hc ⟨b, hb⟩
      rw [hw.outside k hno]
      rcases hk with ⟨x, hx, b, hb⟩ | hk
      · rcases List.mem_cons.mp hx with rfl | hx
        · exact absurd hb (hno b)
        · exact Or.inl ⟨x, hx, b, hb⟩
      · exact Or.inr hk

/-- The same writes on two stores that agree on the cells not covered. -/
theorem Redo.agree {ws : List (List (κ × β))} {m m' n n' : κ → β} (h : Redo ws m n) (h' : Redo ws m' n')
    (hm : ∀ k, ¬ Covered ws k → m' k = m k) : n' = n := by
  induction ws generalizing m m' with
  | nil =>
    have he : n = m := h
    have he' : n' = m' := h'
    rw [he, he']
    funext k
    apply hm
    rintro ⟨w, hw, _⟩
    cases hw
  | cons w ws ih =>
    obtain ⟨l, hw, hr⟩ := h
    obtain ⟨l', hw', hr'⟩ := h'
    apply ih hr hr'
    intro k hk
    by_cases hc : ∃ b, (k, b) ∈ w
    · obtain ⟨b, hb⟩ := hc
      rw [hw.inside k b hb, hw'.inside k b hb]
    · have hno : ∀ b, (k, b) ∉ w := fun b hb => hc ⟨b, hb⟩
      rw [hw.outside k hno, hw'.outside k hno]
      apply hm
      rintro ⟨x, hx, b, hb⟩
      rcases List.mem_cons.mp hx with rfl | hx
      · exact hno b hb
      · exact hk ⟨x, hx, b, hb⟩

/-- Writes of which some were done, and one more cut short, are made good by doing all of them. -/
theorem Redo.interrupted {done rest : List (List (κ × β))} {w : List (κ × β)} {m n l l' n' : κ → β}
    (h : Redo (done ++ w :: rest) m n) (hdone : Redo done m l) (htorn : Torn w l l')
    (hredo : Redo (done ++ w :: rest) l' n') : n' = n := by
  apply h.agree hredo
  intro k hk
  have hw : ∀ b, (k, b) ∉ w := fun b hb => hk ⟨w, List.mem_append_right _ (List.mem_cons_self ..), b, hb⟩
  rw [htorn k hw]
  apply hdone.outside
  rintro ⟨x, hx, b, hb⟩
  exact hk ⟨x, List.mem_append_left _ hx, b, hb⟩

end RaidTest.Base
