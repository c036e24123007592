import Mathlib.Tactic.Common

/-!
# Runs of a deterministic step function

A system is a partial step function: the label names the party that moves and
what its environment answers. A run is a list of labels. An invariant that every
step keeps holds after every run; steps that only keep it under a side condition
are handled by `Along`, which states the condition along the run.
-/

namespace RaidTest.Base

variable {σ ι : Type}

def run (step : σ → ι → Option σ) : σ → List ι → Option σ
  | s, [] => some s
  | s, l :: ls => (step s l).bind fun t => run step t ls

@[simp] theorem run_nil (step : σ → ι → Option σ) (s : σ) : run step s [] = some s := rfl

theorem run_cons (step : σ → ι → Option σ) (s t : σ) (l : ι) (ls : List ι) :
    run step s (l :: ls) = some t ↔ ∃ m, step s l = some m ∧ run step m ls = some t := by
  simp only [run, Option.bind_eq_some_iff]

theorem run_append (step : σ → ι → Option σ) (s t : σ) (ls ms : List ι) :
    run step s (ls ++ ms) = some t ↔ ∃ m, run step s ls = some m ∧ run step m ms = some t := by
  induction ls generalizing s with
  | nil => simp only [List.nil_append, run_nil, Option.some.injEq, exists_eq_left']
  | cons l ls ih =>
    simp only [List.cons_append, run_cons, ih]
    constructor
    · rintro ⟨m, hm, n, hn, ht⟩
      exact ⟨n, ⟨m, hm, hn⟩, ht⟩
    · rintro ⟨n, ⟨m, hm, hn⟩, ht⟩
      exact ⟨m, hm, n, hn, ht⟩

/-- The side condition `P` holds at every step of the run of `ls` from `s`. -/
def Along (step : σ → ι → Option σ) (P : σ → ι → Prop) : σ → List ι → Prop
  | _, [] => True
  | s, l :: ls => P s l ∧ ∀ t, step s l = some t → Along step P t ls

instance decidableAlong (step : σ → ι → Option σ) (P : σ → ι → Prop) [∀ s l, Decidable (P s l)] :
    ∀ s ls, Decidable (Along step P s ls)
  | _, [] => isTrue True.intro
  | s, l :: ls =>
    match h : step s l with
    | none => decidable_of_iff (P s l) ⟨fun hp => ⟨hp, fun _ ht => by rw [h] at ht; cases ht⟩, And.left⟩
    | some t =>
      have : Decidable (Along step P t ls) := decidableAlong step P t ls
      decidable_of_iff (P s l ∧ Along step P t ls)
        ⟨fun hp => ⟨hp.1, fun _ ht => Option.some.inj (h.symm.trans ht) ▸ hp.2⟩, fun hp => ⟨hp.1, hp.2 t h⟩⟩

theorem along_cons {step : σ → ι → Option σ} {P : σ → ι → Prop} {s t : σ} {l : ι} {ls : List ι}
    (ht : step s l = some t) (hp : P s l) (h : Along step P t ls) : Along step P s (l :: ls) := by
  refine ⟨hp, fun u hu => ?_⟩
  obtain rfl := Option.some.inj (ht.symm.trans hu)
  exact h

theorem Along.mono {step : σ → ι → Option σ} {P Q : σ → ι → Prop} (h : ∀ s l, P s l → Q s l)
    {s : σ} {ls : List ι} (hp : Along step P s ls) : Along step Q s ls := by
  induction ls generalizing s with
  | nil => exact True.intro
  | cons l ls ih => exact ⟨h s l hp.1, fun t ht => ih (hp.2 t ht)⟩

/-- What every step keeps under the side condition, every run keeps. -/
theorem run_invariant {step : σ → ι → Option σ} {P : σ → ι → Prop} {I : σ → Prop}
    (hstep : ∀ s l t, I s → P s l → step s l = some t → I t) {s t : σ} {ls : List ι}
    (hp : Along step P s ls) (hs : I s) (h : run step s ls = some t) : I t := by
  induction ls generalizing s with
  | nil =>
    have he : s = t := Option.some.inj h
    exact he ▸ hs
  | cons l ls ih =>
    obtain ⟨m, hm, hr⟩ := (run_cons step s t l ls).mp h
    exact ih (hp.2 m hm) (hstep s l m hs hp.1 hm) hr

theorem along_of_forall (step : σ → ι → Option σ) {Q : ι → Prop} (s : σ) {ls : List ι}
    (h : ∀ l ∈ ls, Q l) : Along step (fun _ l => Q l) s ls := by
  induction ls generalizing s with
  | nil => exact True.intro
  | cons l ls ih =>
    exact ⟨h l (List.mem_cons_self ..), fun t _ => ih t fun x hx => h x (List.mem_cons_of_mem _ hx)⟩

theorem Along.and {step : σ → ι → Option σ} {P Q : σ → ι → Prop} {s : σ} {ls : List ι}
    (hp : Along step P s ls) (hq : Along step Q s ls) : Along step (fun s l => P s l ∧ Q s l) s ls := by
  induction ls generalizing s with
  | nil => exact True.intro
  | cons l ls ih => exact ⟨⟨hp.1, hq.1⟩, fun t ht => ih (hp.2 t ht) (hq.2 t ht)⟩

theorem Along.append {step : σ → ι → Option σ} {P : σ → ι → Prop} {s t : σ} {ls ms : List ι}
    (h : Along step P s (ls ++ ms)) (hr : run step s ls = some t) :
    Along step P s ls ∧ Along step P t ms := by
  induction ls generalizing s with
  | nil => exact ⟨True.intro, (Option.some.inj hr) ▸ h⟩
  | cons l ls ih =>
    obtain ⟨m, hm, hr⟩ := (run_cons step s t l ls).mp hr
    refine ⟨⟨h.1, fun n hn => ?_⟩, (ih (h.2 m hm) hr).2⟩
    obtain rfl := Option.some.inj (hm.symm.trans hn)
    exact (ih (h.2 m hm) hr).1

/-- The unconditional form. -/
theorem run_preserves {step : σ → ι → Option σ} {I : σ → Prop}
    (hstep : ∀ s l t, I s → step s l = some t → I t) {s t : σ} {ls : List ι} (hs : I s)
    (h : run step s ls = some t) : I t :=
  run_invariant (fun s l t hi _ ht => hstep s l t hi ht)
    (along_of_forall (Q := fun _ => True) step s fun _ _ => True.intro) hs h

/-- When `J` holds throughout and each step keeps `I` exactly under `P`, `I` holds in every
state a run passes if and only if `P` holds at every step. -/
theorem along_iff_always {step : σ → ι → Option σ} {P : σ → ι → Prop} {Q : ι → Prop} {I J : σ → Prop}
    (hJ : ∀ s l t, J s → Q l → step s l = some t → J t)
    (hI : ∀ s l t, J s → I s → Q l → step s l = some t → (I t ↔ P s l))
    (hN : ∀ s l, step s l = none → P s l) {s : σ} {ls : List ι} (hj : J s) (hi : I s)
    (hq : ∀ l ∈ ls, Q l) :
    (∀ pre post u, ls = pre ++ post → run step s pre = some u → I u) ↔ Along step P s ls := by
  induction ls generalizing s with
  | nil =>
    refine ⟨fun _ => True.intro, fun _ pre post u he hr => ?_⟩
    obtain ⟨rfl, rfl⟩ := List.append_eq_nil_iff.mp he.symm
    exact (Option.some.inj hr) ▸ hi
  | cons l ls ih =>
    have hql := hq l (List.mem_cons_self ..)
    have hqs : ∀ l ∈ ls, Q l := fun x hx => hq x (List.mem_cons_of_mem _ hx)
    constructor
    · intro h
      have hnext : ∀ t, step s l = some t → I t := by
        intro t ht
        exact h [l] ls t rfl ((run_cons step s t l []).mpr ⟨t, ht, rfl⟩)
      refine ⟨?_, fun t ht => (ih (hJ s l t hj hql ht) (hnext t ht) hqs).mp ?_⟩
      · cases ht : step s l with
        | none => exact hN s l ht
        | some t => exact (hI s l t hj hi hql ht).mp (hnext t ht)
      · intro pre post u he hr
        exact h (l :: pre) post u (by rw [he, List.cons_append]) ((run_cons step s u l pre).mpr ⟨t, ht, hr⟩)
    · rintro ⟨hp, hnext⟩ pre post u he hr
      cases pre with
      | nil => exact (Option.some.inj hr) ▸ hi
      | cons x pre =>
        obtain ⟨rfl, rfl⟩ := List.cons.inj he
        obtain ⟨t, ht, hu⟩ := (run_cons step s u l pre).mp hr
        exact (ih (hJ s l t hj hql ht) ((hI s l t hj hi hql ht).mpr hp) hqs).mpr (hnext t ht)
          pre post u rfl hu

/-- The same for a run that has a result, whatever the steps it does not take. -/
theorem along_iff_of_run {step : σ → ι → Option σ} {P : σ → ι → Prop} {I J : σ → Prop}
    (hJ : ∀ s l t, J s → step s l = some t → J t)
    (hI : ∀ s l t, J s → I s → step s l = some t → (I t ↔ P s l)) {s t : σ} {ls : List ι} (hj : J s) (hi : I s)
    (h : run step s ls = some t) :
    (∀ pre post u, ls = pre ++ post → run step s pre = some u → I u) ↔ Along step P s ls := by
  induction ls generalizing s with
  | nil =>
    refine ⟨fun _ => True.intro, fun _ pre post u he hr => ?_⟩
    obtain ⟨rfl, rfl⟩ := List.append_eq_nil_iff.mp he.symm
    exact (Option.some.inj hr) ▸ hi
  | cons l ls ih =>
    obtain ⟨m, hm, hrun⟩ := (run_cons step s t l ls).mp h
    have hpre : ∀ (pre : List ι) u, run step s (l :: pre) = some u ↔ run step m pre = some u := by
      intro pre u
      rw [run, hm, Option.bind_some]
    constructor
    · intro hall
      have hnext : I m := hall [l] ls m rfl ((hpre [] m).mpr rfl)
      refine along_cons hm ((hI s l m hj hi hm).mp hnext) ((ih (hJ s l m hj hm) hnext hrun).mp ?_)
      intro pre post u he hr
      exact hall (l :: pre) post u (by rw [he, List.cons_append]) ((hpre pre u).mpr hr)
    · rintro ⟨hp, hrest⟩ pre post u he hr
      cases pre with
      | nil => exact (Option.some.inj hr) ▸ hi
      | cons x pre =>
        obtain ⟨rfl, rfl⟩ := List.cons.inj he
        exact (ih (hJ s l m hj hm) ((hI s l m hj hi hm).mpr hp) hrun).mpr (hrest m hm) pre post u rfl ((hpre pre u).mp hr)

/-- The condition along a run is the condition at each state the run passes. -/
theorem along_iff {step : σ → ι → Option σ} {P : σ → ι → Prop} {s : σ} {ls : List ι} :
    Along step P s ls ↔
      ∀ pre l post m, ls = pre ++ l :: post → run step s pre = some m → P m l := by
  induction ls generalizing s with
  | nil =>
    refine ⟨fun _ pre l post m he _ => ?_, fun _ => True.intro⟩
    have hl := congrArg List.length he
    simp only [List.length_append, List.length_cons, List.length_nil] at hl
    omega
  | cons l ls ih =>
    constructor
    · rintro ⟨hp, ht⟩ pre x post m he hm
      cases pre with
      | nil =>
        obtain ⟨rfl, rfl⟩ := List.cons.inj he
        exact (Option.some.inj hm) ▸ hp
      | cons y pre =>
        obtain ⟨rfl, rfl⟩ := List.cons.inj he
        obtain ⟨t, h1, h2⟩ := (run_cons step s m l pre).mp hm
        exact ih.mp (ht t h1) pre x post m rfl h2
    · intro h
      refine ⟨h [] l ls s rfl rfl, fun t ht => ih.mpr ?_⟩
      intro pre x post m he hm
      exact h (l :: pre) x post m (by rw [he, List.cons_append])
        ((run_cons step s m l pre).mpr ⟨t, ht, hm⟩)

end RaidTest.Base
