import Mathlib.Data.List.Infix
import Mathlib.Tactic.Common

/-!
# Trees kept as sets of paths

A path is a string of names with a separator between them. A set of paths is a tree when the
part of every path before its last separator is a directory of the set.
-/

namespace RaidTest.Base

variable {α : Type} {sep : α}

/-! ### Paths -/

/-- Path `q` goes on from path `d`. -/
def Under (sep : α) (d q : List α) : Prop := ∃ s, q = d ++ sep :: s

theorem Under.length {d q : List α} (h : Under sep d q) : d.length < q.length := by
  obtain ⟨s, rfl⟩ := h
  rw [List.length_append, List.length_cons]
  omega

theorem Under.trans {d p q : List α} (h : Under sep d p) (hq : Under sep p q) : Under sep d q := by
  obtain ⟨s, rfl⟩ := h
  obtain ⟨r, rfl⟩ := hq
  exact ⟨s ++ sep :: r, by rw [List.append_assoc, List.cons_append]⟩

/-- Two paths that go on to the same one: they are the same, or one goes on to the other. -/
theorem under_meet {d p s u : List α} (h : d ++ sep :: s = p ++ sep :: u) :
    d = p ∨ Under sep p d ∨ ∃ v, p = d ++ sep :: v ∧ s = v ++ sep :: u := by
  rcases List.append_eq_append_iff.mp h with ⟨a, ha, he⟩ | ⟨a, ha, he⟩
  · cases a with
    | nil => exact Or.inl (by rw [ha, List.append_nil])
    | cons x v =>
      rw [List.cons_append, List.cons.injEq] at he
      exact Or.inr (Or.inr ⟨v, by rw [ha, ← he.1], he.2⟩)
  · cases a with
    | nil => exact Or.inl (by rw [ha, List.append_nil])
    | cons x v =>
      rw [List.cons_append, List.cons.injEq] at he
      exact Or.inr (Or.inl ⟨v, by rw [ha, ← he.1]⟩)

theorem under_iff_prefix {d q : List α} : Under sep d q ↔ (d ++ [sep]) <+: q := by
  constructor
  · rintro ⟨s, hs⟩
    exact ⟨s, by rw [hs, List.append_assoc, List.singleton_append]⟩
  · rintro ⟨s, hs⟩
    exact ⟨s, by rw [← hs, List.append_assoc, List.singleton_append]⟩

variable [DecidableEq α]

instance (d q : List α) : Decidable (Under sep d q) := decidable_of_iff _ under_iff_prefix.symm

/-- What stands before the last separator. -/
def beforeLast (sep : α) : List α → Option (List α)
  | [] => none
  | x :: q =>
    match beforeLast sep q with
    | some p => some (x :: p)
    | none => if x = sep then some [] else none

theorem beforeLast_append (sep : α) (d s : List α) :
    beforeLast sep (d ++ sep :: s) = some (match beforeLast sep s with
      | none => d
      | some p => d ++ sep :: p) := by
  induction d with
  | nil =>
    rw [List.nil_append, beforeLast]
    cases beforeLast sep s with
    | none => exact if_pos rfl
    | some p => rfl
  | cons x d ih =>
    rw [List.cons_append, beforeLast, ih]
    cases beforeLast sep s with
    | none => rfl
    | some p => rfl

theorem beforeLast_under {q p : List α} (h : beforeLast sep q = some p) : Under sep p q := by
  induction q generalizing p with
  | nil => cases h
  | cons x q ih =>
    unfold beforeLast at h
    cases hq : beforeLast sep q with
    | none =>
      rw [hq] at h
      simp only at h
      split at h
      · next hx =>
        obtain rfl := Option.some.inj h
        exact ⟨q, by rw [hx, List.nil_append]⟩
      · cases h
    | some r =>
      rw [hq] at h
      obtain rfl := Option.some.inj h
      obtain ⟨s, hs⟩ := ih hq
      exact ⟨s, by rw [hs, List.cons_append]⟩

/-- The path a file or directory `q` gets when `src` is renamed to `dst`. -/
def moved (sep : α) (src dst q : List α) : List α :=
  if q = src then dst else if (src ++ [sep]).isPrefixOf q then dst ++ sep :: q.drop (src.length + 1) else q

@[simp] theorem moved_src (sep : α) (src dst : List α) : moved sep src dst src = dst := if_pos rfl

theorem moved_under (sep : α) (src dst s : List α) : moved sep src dst (src ++ sep :: s) = dst ++ sep :: s := by
  have hne : src ++ sep :: s ≠ src := by
    intro he
    have hl := congrArg List.length he
    rw [List.length_append, List.length_cons] at hl
    omega
  have hprefix : (src ++ [sep]).isPrefixOf (src ++ sep :: s) = true := by
    rw [List.isPrefixOf_iff_prefix, ← under_iff_prefix]
    exact ⟨s, rfl⟩
  rw [moved, if_neg hne, if_pos hprefix, show src.length + 1 = (src ++ [sep]).length by simp,
    show src ++ sep :: s = src ++ [sep] ++ s by simp, List.drop_left]

theorem moved_other {src dst q : List α} (hne : q ≠ src) (hu : ¬ Under sep src q) : moved sep src dst q = q := by
  have hprefix : ¬ (src ++ [sep]).isPrefixOf q = true := by
    rw [List.isPrefixOf_iff_prefix, ← under_iff_prefix]
    exact hu
  rw [moved, if_neg hne, if_neg hprefix]

/-! ### Trees -/

/-- The paths in `S`, of which those in `D` are directories. -/
structure PathTree (sep : α) (S D : List α → Prop) : Prop where
  dirs : ∀ p, D p → S p
  parents : ∀ q p, S q → beforeLast sep q = some p → D p

/-- Everything above a path is a directory. -/
theorem PathTree.under {S D : List α → Prop} (h : PathTree sep S D) {d q : List α} (hq : S q) (hu : Under sep d q) :
    D d := by
  obtain ⟨s, rfl⟩ := hu
  induction hn : s.length using Nat.strong_induction_on generalizing s with
  | _ n ih =>
    have hparent := h.parents _ _ hq (beforeLast_append sep d s)
    cases hs : beforeLast sep s with
    | none =>
      rw [hs] at hparent
      exact hparent
    | some r =>
      rw [hs] at hparent
      have hlt := (beforeLast_under hs).length
      exact ih r.length (by omega) r (h.dirs _ hparent) rfl

section Moved
variable {S D : List α → Prop} {src dst : List α}

/-- A free name has nothing under it. -/
theorem PathTree.free (h : PathTree sep S D) (hdst : ¬ S dst) {q : List α} (hq : S q) : ¬ Under sep dst q :=
  fun hu => hdst (h.dirs _ (h.under hq hu))

theorem PathTree.moved_inj (h : PathTree sep S D) (hdst : ¬ S dst) {x y : List α} (hx : S x) (hy : S y)
    (he : moved sep src dst x = moved sep src dst y) : x = y := by
  have hcases : ∀ q, q = src ∨ (∃ s, q = src ++ sep :: s) ∨ (q ≠ src ∧ ¬ Under sep src q) := by
    intro q
    by_cases hq : q = src
    · exact Or.inl hq
    by_cases hu : Under sep src q
    · exact Or.inr (Or.inl hu)
    · exact Or.inr (Or.inr ⟨hq, hu⟩)
  have hfree : ∀ q, S q → q ≠ dst ∧ ∀ s, q ≠ dst ++ sep :: s := by
    intro q hq
    exact ⟨fun he => hdst (he ▸ hq), fun s hs => h.free hdst hq ⟨s, hs⟩⟩
  have hlong : ∀ s : List α, dst ≠ dst ++ sep :: s := by
    intro s he
    have hl := congrArg List.length he
    rw [List.length_append, List.length_cons] at hl
    omega
  rcases hcases x with rfl | ⟨s, rfl⟩ | ⟨hx1, hx2⟩ <;> rcases hcases y with rfl | ⟨r, rfl⟩ | ⟨hy1, hy2⟩
  · rfl
  · rw [moved_src, moved_under] at he
    exact absurd he (hlong r)
  · rw [moved_src, moved_other hy1 hy2] at he
    exact absurd he.symm (hfree y hy).1
  · rw [moved_src, moved_under] at he
    exact absurd he.symm (hlong s)
  · rw [moved_under, moved_under] at he
    obtain rfl := List.tail_eq_of_cons_eq (List.append_cancel_left he)
    rfl
  · rw [moved_under, moved_other hy1 hy2] at he
    exact absurd he.symm ((hfree y hy).2 s)
  · rw [moved_src, moved_other hx1 hx2] at he
    exact absurd he (hfree x hx).1
  · rw [moved_under, moved_other hx1 hx2] at he
    exact absurd he ((hfree x hx).2 r)
  · rw [moved_other hx1 hx2, moved_other hy1 hy2] at he
    exact he

/-- A tree whose `src` is renamed to a free `dst` that is not under it and has a parent. -/
theorem PathTree.rename (h : PathTree sep S D) (hin : ¬ Under sep src dst)
    (hparent : ∀ p, beforeLast sep dst = some p → D p) :
    PathTree sep (fun q => ∃ x, S x ∧ moved sep src dst x = q) (fun q => ∃ x, D x ∧ moved sep src dst x = q) := by
  constructor
  · rintro p ⟨x, hx, rfl⟩
    exact ⟨x, h.dirs x hx, rfl⟩
  · rintro q p ⟨x, hx, rfl⟩ hp
    by_cases hxs : x = src
    · rw [hxs, moved_src] at hp
      refine ⟨p, hparent p hp, moved_other ?_ ?_⟩
      · rintro rfl
        exact hin (beforeLast_under hp)
      · intro hu
        exact hin (hu.trans (beforeLast_under hp))
    by_cases hu : Under sep src x
    · obtain ⟨s, rfl⟩ := hu
      rw [moved_under, beforeLast_append] at hp
      obtain rfl := Option.some.inj hp
      have hold := h.parents _ _ hx (beforeLast_append sep src s)
      cases hs : beforeLast sep s with
      | none =>
        rw [hs] at hold
        exact ⟨src, hold, moved_src ..⟩
      | some r =>
        rw [hs] at hold
        exact ⟨src ++ sep :: r, hold, moved_under ..⟩
    · rw [moved_other hxs hu] at hp
      refine ⟨p, h.parents x p hx hp, moved_other ?_ ?_⟩
      · rintro rfl
        exact hu (beforeLast_under hp)
      · intro hup
        exact hu (hup.trans (beforeLast_under hp))

end Moved

end RaidTest.Base
