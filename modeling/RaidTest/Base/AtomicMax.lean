import RaidTest.Base.Trace
import Mathlib.Data.Finset.Card
import Mathlib.Order.Bounds.Defs

/-!
# A maximum kept with compare-and-exchange

Any number of threads raise a shared cell. A call reads the cell and then takes turns: it returns
if what it read is large enough, or if the cell still holds that and takes the new value; otherwise
it goes on with what the cell holds now.
-/

namespace RaidTest.Base

section Cell
variable {α ι : Type}

/-- The cell, and the calls that have not returned: the value of each, and what it read last. -/
structure MaxState (α ι : Type) where
  cell : α
  pc : ι → Option (α × Option α)

inductive MaxLabel (α ι : Type) where
  | call (i : ι) (x : α)
  | load (i : ι)
  | turn (i : ι)
  deriving DecidableEq

/-- The state before any call. -/
def MaxState.init (a : α) : MaxState α ι := ⟨a, fun _ => none⟩

/-- The value a step calls with. -/
def MaxLabel.value : MaxLabel α ι → Option α
  | .call _ x => some x
  | _ => none

/-- The values of the calls made. -/
def called (ls : List (MaxLabel α ι)) : List α := ls.filterMap MaxLabel.value

theorem called_append (ls ms : List (MaxLabel α ι)) : called (ls ++ ms) = called ls ++ called ms :=
  List.filterMap_append ..

theorem called_cons (l : MaxLabel α ι) (ls : List (MaxLabel α ι)) :
    called (l :: ls) = l.value.toList ++ called ls := by
  unfold called
  rw [List.filterMap_cons]
  cases l.value <;> rfl

variable [DecidableEq ι]

def MaxState.setPc (s : MaxState α ι) (i : ι) (p : Option (α × Option α)) : MaxState α ι :=
  { s with pc := fun j => if j = i then p else s.pc j }

theorem MaxState.setPc_cell (s : MaxState α ι) (i : ι) (p : Option (α × Option α)) : (s.setPc i p).cell = s.cell := rfl

theorem MaxState.setPc_same (s : MaxState α ι) (i : ι) (p : Option (α × Option α)) : (s.setPc i p).pc i = p :=
  if_pos rfl

theorem MaxState.setPc_other (s : MaxState α ι) {i j : ι} (p : Option (α × Option α)) (h : j ≠ i) :
    (s.setPc i p).pc j = s.pc j :=
  if_neg h

theorem MaxState.setPc_cases {s : MaxState α ι} {i j : ι} {p q : Option (α × Option α)} (h : (s.setPc i p).pc j = q) :
    (j = i ∧ p = q) ∨ (j ≠ i ∧ s.pc j = q) := by
  by_cases hj : j = i
  · subst hj
    exact Or.inl ⟨rfl, (s.setPc_same j p).symm.trans h⟩
  · exact Or.inr ⟨hj, (s.setPc_other p hj).symm.trans h⟩

end Cell

section Steps
variable {α ι : Type} [LinearOrder α] [DecidableEq ι]

def maxStep (s : MaxState α ι) : MaxLabel α ι → Option (MaxState α ι)
  | .call i x => if s.pc i = none then some (s.setPc i (some (x, none))) else none
  | .load i =>
    match s.pc i with
    | some (x, none) => some (s.setPc i (some (x, some s.cell)))
    | _ => none
  | .turn i =>
    match s.pc i with
    | some (x, some old) =>
      if x > old then
        if s.cell = old then some ({ s with cell := x }.setPc i none)
        else some (s.setPc i (some (x, some s.cell)))
      else some (s.setPc i none)
    | _ => none

/-- What one step can do. -/
inductive MaxEffect (s : MaxState α ι) : MaxLabel α ι → MaxState α ι → Prop where
  | call {i : ι} {x : α} (hi : s.pc i = none) : MaxEffect s (.call i x) (s.setPc i (some (x, none)))
  | load {i : ι} {x : α} (hi : s.pc i = some (x, none)) : MaxEffect s (.load i) (s.setPc i (some (x, some s.cell)))
  | enough {i : ι} {x old : α} (hi : s.pc i = some (x, some old)) (hle : x ≤ old) :
      MaxEffect s (.turn i) (s.setPc i none)
  | raise {i : ι} {x : α} (hi : s.pc i = some (x, some s.cell)) (hlt : s.cell < x) :
      MaxEffect s (.turn i) ({ s with cell := x }.setPc i none)
  | retry {i : ι} {x old : α} (hi : s.pc i = some (x, some old)) (hlt : old < x) (hne : s.cell ≠ old) :
      MaxEffect s (.turn i) (s.setPc i (some (x, some s.cell)))

theorem maxStep_effect {s t : MaxState α ι} {l : MaxLabel α ι} (h : maxStep s l = some t) : MaxEffect s l t := by
  cases l with
  | call i x =>
    simp only [maxStep] at h
    split at h
    · next hi =>
      obtain rfl := Option.some.inj h
      exact .call hi
    · cases h
  | load i =>
    simp only [maxStep] at h
    split at h
    · next x hi =>
      obtain rfl := Option.some.inj h
      exact .load hi
    · cases h
  | turn i =>
    simp only [maxStep] at h
    split at h
    · next x old hi =>
      split at h
      · next hlt =>
        split at h
        · next he =>
          obtain rfl := Option.some.inj h
          subst he
          exact .raise hi hlt
        · next hne =>
          obtain rfl := Option.some.inj h
          exact .retry hi hlt hne
      · next hle =>
        obtain rfl := Option.some.inj h
        exact .enough hi (not_lt.mp hle)
    · cases h

/-! ### The value of the cell -/

/-- The cell after the calls in `seen` were made from `a` on: it holds `a` or one of their values, and
no value is above it but those of calls that have not returned. -/
structure Raised (a : α) (seen : List α) (s : MaxState α ι) : Prop where
  least : a ≤ s.cell
  taken : s.cell = a ∨ s.cell ∈ seen
  returned : ∀ x ∈ seen, x ≤ s.cell ∨ ∃ i old, s.pc i = some (x, old)
  pending : ∀ i x old, s.pc i = some (x, old) → x ∈ seen
  behind : ∀ i x old, s.pc i = some (x, some old) → old ≤ s.cell

theorem maxStep_le {s t : MaxState α ι} {l : MaxLabel α ι} (h : maxStep s l = some t) : s.cell ≤ t.cell := by
  cases maxStep_effect h with
  | raise _ hlt => exact le_of_lt hlt
  | _ => exact le_refl _

/-- A call moves on: its value is counted for, and the cell does not fall. -/
theorem Raised.move {a c : α} {seen extra : List α} {s : MaxState α ι} (h : Raised a seen s) {i : ι}
    {p : Option (α × Option α)} (hc : s.cell ≤ c) (htaken : c = s.cell ∨ c ∈ seen)
    (hp : ∀ x old, p = some (x, old) → x ∈ seen ++ extra ∧ ∀ o, old = some o → o ≤ c)
    (hdone : ∀ x old, s.pc i = some (x, old) → x ≤ c ∨ ∃ o, p = some (x, o))
    (hextra : ∀ x ∈ extra, ∃ o, p = some (x, o)) :
    Raised a (seen ++ extra) ({ s with cell := c }.setPc i p) := by
  constructor
  · exact le_trans h.least hc
  · rcases htaken with rfl | hin
    · exact h.taken.imp id (List.mem_append_left _)
    · exact Or.inr (List.mem_append_left _ hin)
  · intro x hx
    have hown : (∃ o, p = some (x, o)) → ∃ j o, ({ s with cell := c }.setPc i p).pc j = some (x, o) :=
      fun ⟨o, ho⟩ => ⟨i, o, (MaxState.setPc_same _ i p).trans ho⟩
    rcases List.mem_append.mp hx with hx | hx
    · rcases h.returned x hx with hle | ⟨j, old, hj⟩
      · exact Or.inl (le_trans hle hc)
      · by_cases he : j = i
        · subst he
          exact (hdone x old hj).imp id hown
        · exact Or.inr ⟨j, old, (MaxState.setPc_other _ p he).trans hj⟩
    · exact Or.inr (hown (hextra x hx))
  · intro j x old hj
    rcases MaxState.setPc_cases hj with ⟨_, hpe⟩ | ⟨_, hj⟩
    · exact (hp x old hpe).1
    · exact List.mem_append_left _ (h.pending j x old hj)
  · intro j x old hj
    rcases MaxState.setPc_cases hj with ⟨_, hpe⟩ | ⟨_, hj⟩
    · exact (hp x (some old) hpe).2 old rfl
    · exact le_trans (h.behind j x old hj) hc

theorem raised_step {a : α} {seen : List α} {s t : MaxState α ι} {l : MaxLabel α ι} (h : Raised a seen s)
    (hs : maxStep s l = some t) : Raised a (seen ++ l.value.toList) t := by
  cases maxStep_effect hs with
  | @call i x hi =>
    apply h.move (le_refl _) (Or.inl rfl)
    · rintro y old hy
      obtain ⟨rfl, rfl⟩ := Prod.mk.inj (Option.some.inj hy)
      exact ⟨List.mem_append_right _ (List.mem_singleton.mpr rfl), fun o ho => by cases ho⟩
    · intro y old hy
      rw [hi] at hy
      cases hy
    · intro y hy
      rw [List.mem_singleton.mp hy]
      exact ⟨none, rfl⟩
  | @load i x hi =>
    apply h.move (le_refl _) (Or.inl rfl)
    · rintro y old hy
      obtain ⟨rfl, rfl⟩ := Prod.mk.inj (Option.some.inj hy)
      exact ⟨List.mem_append_left _ (h.pending i x none hi), fun o ho => le_of_eq (Option.some.inj ho).symm⟩
    · intro y old hy
      obtain ⟨rfl, _⟩ := Prod.mk.inj (Option.some.inj (hi.symm.trans hy))
      exact Or.inr ⟨_, rfl⟩
    · exact fun y hy => absurd hy List.not_mem_nil
  | @enough i x old hi hle =>
    apply h.move (le_refl _) (Or.inl rfl)
    · exact fun y o hy => by cases hy
    · intro y o hy
      obtain ⟨rfl, _⟩ := Prod.mk.inj (Option.some.inj (hi.symm.trans hy))
      exact Or.inl (le_trans hle (h.behind i x old hi))
    · exact fun y hy => absurd hy List.not_mem_nil
  | @raise i x hi hlt =>
    apply h.move (le_of_lt hlt) (Or.inr (h.pending i x _ hi))
    · exact fun y o hy => by cases hy
    · intro y o hy
      obtain ⟨rfl, _⟩ := Prod.mk.inj (Option.some.inj (hi.symm.trans hy))
      exact Or.inl (le_refl _)
    · exact fun y hy => absurd hy List.not_mem_nil
  | @retry i x old hi hlt hne =>
    apply h.move (le_refl _) (Or.inl rfl)
    · rintro y o hy
      obtain ⟨rfl, rfl⟩ := Prod.mk.inj (Option.some.inj hy)
      exact ⟨List.mem_append_left _ (h.pending i x _ hi), fun o ho => le_of_eq (Option.some.inj ho).symm⟩
    · intro y o hy
      obtain ⟨rfl, _⟩ := Prod.mk.inj (Option.some.inj (hi.symm.trans hy))
      exact Or.inr ⟨_, rfl⟩
    · exact fun y hy => absurd hy List.not_mem_nil

theorem raised_run {a : α} {seen : List α} {s t : MaxState α ι} {ls : List (MaxLabel α ι)} (h : Raised a seen s)
    (hr : run maxStep s ls = some t) : Raised a (seen ++ called ls) t := by
  induction ls generalizing s seen with
  | nil =>
    obtain rfl := Option.some.inj hr
    rw [called, List.filterMap_nil, List.append_nil]
    exact h
  | cons l ls ih =>
    obtain ⟨m, hm, hr⟩ := (run_cons maxStep s t l ls).mp hr
    rw [called_cons, ← List.append_assoc]
    exact ih (raised_step h hm) hr

omit [DecidableEq ι] in
theorem raised_init (a : α) : Raised a [] (MaxState.init a : MaxState α ι) := by
  have hpc : ∀ i, (MaxState.init a : MaxState α ι).pc i = none := fun _ => rfl
  refine ⟨le_refl a, Or.inl rfl, fun x hx => absurd hx List.not_mem_nil, fun i x old hi => ?_, fun i x old hi => ?_⟩
  · rw [hpc i] at hi
    cases hi
  · rw [hpc i] at hi
    cases hi

/-- Once all calls have returned the cell is the greatest of their values and the one at the start. -/
theorem max_greatest {a : α} {t : MaxState α ι} {ls : List (MaxLabel α ι)} (hr : run maxStep (.init a) ls = some t)
    (hdone : ∀ i, t.pc i = none) : IsGreatest {x | x = a ∨ x ∈ called ls} t.cell := by
  have h := raised_run (raised_init a) hr
  rw [List.nil_append] at h
  refine ⟨h.taken, fun x hx => ?_⟩
  rcases hx with rfl | hx
  · exact h.least
  · rcases h.returned x hx with hle | ⟨i, old, hi⟩
    · exact hle
    · rw [hdone i] at hi
      cases hi

/-! ### How often a call tries -/

/-- How many steps of the run change the cell. -/
def changes (s : MaxState α ι) : List (MaxLabel α ι) → ℕ
  | [] => 0
  | l :: ls =>
    match maxStep s l with
    | none => 0
    | some t => (if t.cell = s.cell then 0 else 1) + changes t ls

theorem changes_cons {s m : MaxState α ι} {l : MaxLabel α ι} (hm : maxStep s l = some m) (ls : List (MaxLabel α ι)) :
    changes s (l :: ls) = (if m.cell = s.cell then 0 else 1) + changes m ls := by
  rw [changes, hm]

theorem changes_append {s m : MaxState α ι} {ls : List (MaxLabel α ι)} (hm : run maxStep s ls = some m)
    (ms : List (MaxLabel α ι)) : changes s (ls ++ ms) = changes s ls + changes m ms := by
  induction ls generalizing s with
  | nil =>
    obtain rfl := Option.some.inj hm
    rw [List.nil_append, changes, Nat.zero_add]
  | cons l ls ih =>
    obtain ⟨u, hu, hm⟩ := (run_cons maxStep s m l ls).mp hm
    rw [List.cons_append, changes_cons hu, changes_cons hu, ih hm, Nat.add_assoc]

/-- Every change ends a call, and only what was called is pending. -/
theorem changes_step {s t : MaxState α ι} {l : MaxLabel α ι} (hs : maxStep s l = some t) {b : Finset ι}
    (hb : ∀ i, i ∈ b ↔ s.pc i ≠ none) :
    ∃ c : Finset ι, (∀ i, i ∈ c ↔ t.pc i ≠ none) ∧
      (if t.cell = s.cell then 0 else 1) + c.card ≤ l.value.toList.length + b.card := by
  -- the calls pending after one of `i` goes on, or returns
  have hkeep : ∀ {u : MaxState α ι} {i : ι} {x y : α × Option α}, u.pc = s.pc → s.pc i = some x →
      ∀ j, j ∈ b ↔ (u.setPc i (some y)).pc j ≠ none := by
    intro u i x y hu hi j
    by_cases hj : j = i
    · subst hj
      rw [MaxState.setPc_same, hb, hi]
      exact ⟨fun _ => Option.some_ne_none _, fun _ => Option.some_ne_none _⟩
    · rw [MaxState.setPc_other _ _ hj, hu, hb]
  have hdrop : ∀ {u : MaxState α ι} {i : ι}, u.pc = s.pc → ∀ j, j ∈ b.erase i ↔ (u.setPc i none).pc j ≠ none := by
    intro u i hu j
    rw [Finset.mem_erase]
    by_cases hj : j = i
    · subst hj
      rw [MaxState.setPc_same]
      exact ⟨fun h => absurd rfl h.1, fun h => absurd rfl h⟩
    · rw [MaxState.setPc_other _ _ hj, hu, hb]
      exact and_iff_right hj
  have hone : ∀ {i : ι} {x : α × Option α}, s.pc i = some x → (b.erase i).card + 1 = b.card := by
    intro i x hi
    exact Finset.card_erase_add_one ((hb i).mpr (by rw [hi]; exact Option.some_ne_none _))
  cases maxStep_effect hs with
  | @call i x hi =>
    refine ⟨insert i b, fun j => ?_, ?_⟩
    · rw [Finset.mem_insert]
      by_cases hj : j = i
      · subst hj
        rw [MaxState.setPc_same]
        exact ⟨fun _ => Option.some_ne_none _, fun _ => Or.inl rfl⟩
      · rw [MaxState.setPc_other _ _ hj, hb]
        exact or_iff_right hj
    · have hcard := Finset.card_insert_le i b
      have hvalue : (MaxLabel.value (.call i x : MaxLabel α ι)).toList.length = 1 := rfl
      rw [MaxState.setPc_cell, if_pos rfl, hvalue]
      omega
  | @load i x hi => exact ⟨b, hkeep rfl hi, by rw [MaxState.setPc_cell, if_pos rfl, Nat.zero_add]; exact Nat.le_add_left _ _⟩
  | @enough i x old hi hle =>
    have hcard := hone hi
    exact ⟨b.erase i, hdrop rfl, by rw [MaxState.setPc_cell, if_pos rfl]; omega⟩
  | @raise i x hi hlt =>
    have hcard := hone hi
    exact ⟨b.erase i, hdrop rfl, by split <;> omega⟩
  | @retry i x old hi hlt hne => exact ⟨b, hkeep rfl hi, by rw [MaxState.setPc_cell, if_pos rfl, Nat.zero_add]; exact Nat.le_add_left _ _⟩

theorem changes_le {s t : MaxState α ι} {ls : List (MaxLabel α ι)} (hr : run maxStep s ls = some t) {b : Finset ι}
    (hb : ∀ i, i ∈ b ↔ s.pc i ≠ none) :
    ∃ c : Finset ι, (∀ i, i ∈ c ↔ t.pc i ≠ none) ∧ changes s ls + c.card ≤ (called ls).length + b.card := by
  induction ls generalizing s b with
  | nil =>
    obtain rfl := Option.some.inj hr
    exact ⟨b, hb, Nat.le_of_eq (by rw [changes, called, List.filterMap_nil, List.length_nil])⟩
  | cons l ls ih =>
    obtain ⟨m, hm, hr⟩ := (run_cons maxStep s t l ls).mp hr
    obtain ⟨d, hd, hstep⟩ := changes_step hm hb
    obtain ⟨c, hc, hle⟩ := ih hr hd
    refine ⟨c, hc, ?_⟩
    rw [changes_cons hm, called_cons, List.length_append]
    omega

/-- A call that has returned and is not made again stays so. -/
theorem idle_run {s t : MaxState α ι} {ls : List (MaxLabel α ι)} {i : ι} (hr : run maxStep s ls = some t)
    (hi : s.pc i = none) (hno : ∀ x, .call i x ∉ ls) : t.pc i = none := by
  induction ls generalizing s with
  | nil =>
    obtain rfl := Option.some.inj hr
    exact hi
  | cons l ls ih =>
    obtain ⟨m, hm, hr⟩ := (run_cons maxStep s t l ls).mp hr
    refine ih hr ?_ fun x hx => hno x (List.mem_cons_of_mem _ hx)
    have hstay : ∀ {u : MaxState α ι} {j : ι} {p : Option (α × Option α)}, u.pc = s.pc → i ≠ j →
        (u.setPc j p).pc i = none := by
      intro u j p hu hj
      rw [MaxState.setPc_other _ p hj, hu, hi]
    have hother : ∀ {j : ι} {x : α × Option α}, s.pc j = some x → i ≠ j := by
      rintro j x hj rfl
      rw [hi] at hj
      cases hj
    cases maxStep_effect hm with
    | @call j x _ =>
      refine hstay rfl ?_
      rintro rfl
      exact hno x (List.mem_cons_self ..)
    | load hj => exact hstay rfl (hother hj)
    | enough hj _ => exact hstay rfl (hother hj)
    | raise hj _ => exact hstay rfl (hother hj)
    | retry hj _ _ => exact hstay rfl (hother hj)

/-- What a call has read is out of date. -/
def stale (cell : α) : Option α → ℕ
  | none => 0
  | some old => if old < cell then 1 else 0

theorem stale_le_one (cell : α) (old : Option α) : stale cell old ≤ 1 := by
  unfold stale
  split
  · exact Nat.zero_le _
  · split <;> omega

/-- While a call goes on, each of its turns is paid for by a change of the cell. -/
theorem turns_le {s t : MaxState α ι} {ls : List (MaxLabel α ι)} {i : ι} {x : α} {old : Option α}
    (hr : run maxStep s ls = some t) (hi : s.pc i = some (x, old)) (hbehind : ∀ o, old = some o → o ≤ s.cell)
    (hno : ∀ y, .call i y ∉ ls) (hbusy : t.pc i ≠ none) :
    ls.count (.turn i) ≤ changes s ls + stale s.cell old := by
  induction ls generalizing s old with
  | nil => exact Nat.zero_le _
  | cons l ls ih =>
    obtain ⟨m, hm, hrun⟩ := (run_cons maxStep s t l ls).mp hr
    have hno' : ∀ y, .call i y ∉ ls := fun y hy => hno y (List.mem_cons_of_mem _ hy)
    rw [changes_cons hm]
    have hle := maxStep_le hm
    -- a step of another thread
    have hother : l ≠ .turn i → m.pc i = s.pc i → (l :: ls).count (.turn i) ≤
        (if m.cell = s.cell then 0 else 1) + changes m ls + stale s.cell old := by
      intro hl hpc
      rw [List.count_cons_of_ne hl]
      have hrest := ih hrun (hpc.trans hi) (fun o ho => le_trans (hbehind o ho) hle) hno'
      split
      · next he =>
        rw [he] at hrest
        omega
      · have hone := stale_le_one m.cell old
        omega
    have hleave : m.pc i = none → False := fun hnone => hbusy (idle_run hrun hnone hno')
    cases maxStep_effect hm with
    | @call j y hj =>
      have hji : i ≠ j := by
        rintro rfl
        rw [hi] at hj
        cases hj
      exact hother (by nofun) (MaxState.setPc_other _ _ hji)
    | @load j y hj =>
      by_cases hji : i = j
      · subst hji
        obtain ⟨rfl, rfl⟩ := Prod.mk.inj (Option.some.inj (hi.symm.trans hj))
        have hrest := ih hrun (MaxState.setPc_same _ _ _) (fun o ho => le_of_eq (Option.some.inj ho).symm) hno'
        rw [MaxState.setPc_cell] at hrest
        rw [List.count_cons_of_ne (by nofun), MaxState.setPc_cell, if_pos rfl, stale]
        rw [stale, if_neg (lt_irrefl _)] at hrest
        omega
      · exact hother (by nofun) (MaxState.setPc_other _ _ hji)
    | @enough j y o hj hyo =>
      by_cases hji : i = j
      · exact absurd (hji ▸ MaxState.setPc_same _ _ _) hleave
      · exact hother (fun he => hji (MaxLabel.turn.inj he).symm) (MaxState.setPc_other _ _ hji)
    | @raise j y hj hlt =>
      by_cases hji : i = j
      · exact absurd (hji ▸ MaxState.setPc_same _ _ _) hleave
      · exact hother (fun he => hji (MaxLabel.turn.inj he).symm) (MaxState.setPc_other _ _ hji)
    | @retry j y o hj hlt hne =>
      by_cases hji : i = j
      · subst hji
        obtain ⟨rfl, rfl⟩ := Prod.mk.inj (Option.some.inj (hi.symm.trans hj))
        have hrest := ih hrun (MaxState.setPc_same _ _ _) (fun o ho => le_of_eq (Option.some.inj ho).symm) hno'
        rw [MaxState.setPc_cell] at hrest
        rw [List.count_cons_self, MaxState.setPc_cell, if_pos rfl, stale,
          if_pos (lt_of_le_of_ne (hbehind o rfl) (Ne.symm hne))]
        rw [stale, if_neg (lt_irrefl _)] at hrest
        omega
      · exact hother (fun he => hji (MaxLabel.turn.inj he).symm) (MaxState.setPc_other _ _ hji)

/-- A call that has not returned has taken fewer turns than there are calls. -/
theorem turns_lt {a : α} {t : MaxState α ι} {pre post : List (MaxLabel α ι)} {i : ι} {x : α}
    (hr : run maxStep (.init a) (pre ++ .call i x :: post) = some t) (hno : ∀ y, .call i y ∉ post)
    (hbusy : t.pc i ≠ none) : post.count (.turn i) < (called (pre ++ .call i x :: post)).length := by
  have hnone : ∀ i, i ∈ (∅ : Finset ι) ↔ (MaxState.init a : MaxState α ι).pc i ≠ none := by
    intro i
    exact ⟨fun h => absurd h (Finset.notMem_empty i), fun h => absurd rfl h⟩
  obtain ⟨c, hc, hle⟩ := changes_le hr hnone
  have hcard : 0 < c.card := Finset.card_pos.mpr ⟨i, (hc i).mpr hbusy⟩
  obtain ⟨s, hs, hpost⟩ := (run_append maxStep _ t pre _).mp hr
  obtain ⟨m, hm, hrun⟩ := (run_cons maxStep s t _ post).mp hpost
  have hpc : m.pc i = some (x, none) := by
    cases maxStep_effect hm with
    | call _ => exact MaxState.setPc_same _ _ _
  have hturns := turns_le hrun hpc (fun o ho => by cases ho) hno hbusy
  rw [changes_append hs, changes_cons hm, Finset.card_empty] at hle
  rw [stale] at hturns
  omega

end Steps

end RaidTest.Base
