import RaidTest.Stripe.Layout
import Mathlib.Algebra.Order.BigOperators.Group.List
import Mathlib.Algebra.Group.Action.Defs
import Mathlib.Data.List.GetD

/-!
# Well-formed layouts

What the phase loop guarantees and the mapping relies on: the phases follow each
other from virtual offset 0 on, every phase is made of whole cycles over distinct
members, and no two phases use the same bytes of one member's pool.
-/

namespace RaidTest.Stripe
open RaidTest.Base

def sizes (phases : ℕ → MappingPhase) (p : ℕ) : ℕ := (phases p).virtualSizeBytes

/-- Bytes the phase takes on the pool of its member in slot `j`. -/
def lane (su : ℕ) (ph : MappingPhase) (j : ℕ) : ℕ :=
  if ph.activeCount = 1 then ph.virtualSizeBytes
  else ph.virtualSizeBytes / ph.cycleSizeBytes * (ph.ratios j * su)

structure PhaseOk (su n : ℕ) (ph : MappingPhase) : Prop where
  active : 0 < ph.activeCount
  members : ∀ j < ph.activeCount, ph.activeDiskIndices j < n
  distinct : ∀ i < ph.activeCount, ∀ j < ph.activeCount,
    ph.activeDiskIndices i = ph.activeDiskIndices j → i = j
  cycle : ph.cycleSizeBytes = before ph.ratios ph.activeCount * su
  small : before ph.ratios ph.activeCount ≤ 128
  size : 0 < ph.virtualSizeBytes
  whole : ph.activeCount ≠ 1 → ph.cycleSizeBytes ∣ ph.virtualSizeBytes
  room : ∀ j < ph.activeCount, ph.physicalStartsBytes j + lane su ph j ≤ 2^56

/-- The first `count` phases lay out `virt` bytes over `n` members. -/
structure PhasesOk (su n count : ℕ) (phases : ℕ → MappingPhase) (virt : ℕ) : Prop where
  phase : ∀ p < count, PhaseOk su n (phases p)
  starts : ∀ p < count, (phases p).virtualStartBytes = before (sizes phases) p
  total : virt = before (sizes phases) count
  bounded : virt ≤ count * 2^58
  apart : ∀ q < count, ∀ p < q, ∀ i < (phases p).activeCount, ∀ j < (phases q).activeCount,
    (phases p).activeDiskIndices i = (phases q).activeDiskIndices j →
    (phases p).physicalStartsBytes i + lane su (phases p) i ≤ (phases q).physicalStartsBytes j

/-- A volume whose layout the mapping can rely on. -/
structure Laid (v : StripeVolume) : Prop where
  unit : 0 < v.stripeUnit
  unitLt : v.stripeUnit < 2^32
  count : v.phaseCount ≤ 4
  phases : PhasesOk v.stripeUnit v.diskCount v.phaseCount v.phases v.virtualTotalBytes

theorem PhaseOk.mono {su n m : ℕ} {ph : MappingPhase} (h : PhaseOk su n ph) (hm : n ≤ m) :
    PhaseOk su m ph :=
  { h with members := fun j hj => Nat.lt_of_lt_of_le (h.members j hj) hm }

theorem phasesOk_empty (su n : ℕ) (phases : ℕ → MappingPhase) : PhasesOk su n 0 phases 0 where
  phase := fun _ hp => absurd hp (Nat.not_lt_zero _)
  starts := fun _ hp => absurd hp (Nat.not_lt_zero _)
  total := rfl
  bounded := Nat.zero_le _
  apart := fun _ hq => absurd hq (Nat.not_lt_zero _)

theorem PhasesOk.mono {su n m count virt : ℕ} {phases : ℕ → MappingPhase}
    (h : PhasesOk su n count phases virt) (hm : n ≤ m) : PhasesOk su m count phases virt :=
  { h with phase := fun p hp => (h.phase p hp).mono hm }

theorem before_sizes_congr {f g : ℕ → MappingPhase} {n : ℕ} (h : ∀ p < n, f p = g p) :
    before (sizes f) n = before (sizes g) n := by
  apply Finset.sum_congr rfl
  intro p hp
  simp only [sizes, h p (Finset.mem_range.mp hp)]

/-- One more phase behind the others, on pool bytes no earlier phase uses. -/
theorem PhasesOk.push {su n count virt : ℕ} {phases : ℕ → MappingPhase} (ph : MappingPhase)
    (h : PhasesOk su n count phases virt) (hp : PhaseOk su n ph)
    (hstart : ph.virtualStartBytes = virt) (hsize : ph.virtualSizeBytes ≤ 2^58)
    (hapart : ∀ p < count, ∀ i < (phases p).activeCount, ∀ j < ph.activeCount,
      (phases p).activeDiskIndices i = ph.activeDiskIndices j →
      (phases p).physicalStartsBytes i + lane su (phases p) i ≤ ph.physicalStartsBytes j) :
    PhasesOk su n (count + 1) (fun p => if p = count then ph else phases p)
      (virt + ph.virtualSizeBytes) := by
  have hold : ∀ p < count, (if p = count then ph else phases p) = phases p :=
    fun p hlt => if_neg (Nat.ne_of_lt hlt)
  have hsum : ∀ k ≤ count,
      before (sizes fun p => if p = count then ph else phases p) k = before (sizes phases) k :=
    fun k hk => before_sizes_congr fun p hlt => hold p (by omega)
  constructor
  · intro p hlt
    by_cases he : p = count
    · simp only [he, ite_true]
      exact hp
    · simp only [he, ite_false]
      exact h.phase p (by omega)
  · intro p hlt
    by_cases he : p = count
    · subst he
      simp only [ite_true]
      rw [hstart, h.total, hsum p (Nat.le_refl p)]
    · simp only [he, ite_false]
      rw [h.starts p (by omega), hsum p (by omega)]
  · rw [before_succ, hsum count (Nat.le_refl _), ← h.total]
    simp only [sizes, ite_true]
  · have hb := h.bounded
    omega
  · intro q hq p hpq i hi j hj hij
    have hpc : p < count := by omega
    simp only [hold p hpc] at hi hij ⊢
    by_cases he : q = count
    · simp only [he, ite_true] at hj hij ⊢
      exact hapart p hpc i hi j hj hij
    · simp only [he, ite_false] at hj hij ⊢
      exact h.apart q (by omega) p hpq i hi j hj hij

/-! ### The list of remaining disks -/

structure RemOk (m : ℕ) (l : List (ℕ × ℕ)) : Prop where
  nodup : (l.map Prod.fst).Nodup
  inRange : ∀ x ∈ l, x.1 < m
  pos : ∀ x ∈ l, 0 < x.2
  le : ∀ x ∈ l, x.2 ≤ 32
  length : l.length ≤ 4

theorem RemOk.sublist {m : ℕ} {l k : List (ℕ × ℕ)} (h : RemOk m l) (hs : k.Sublist l) : RemOk m k where
  nodup := h.nodup.sublist (hs.map Prod.fst)
  inRange := fun x hx => h.inRange x (hs.subset hx)
  pos := fun x hx => h.pos x (hs.subset hx)
  le := fun x hx => h.le x (hs.subset hx)
  length := hs.length_le.trans h.length

theorem before_getD (l : List (ℕ × ℕ)) :
    before (fun i => (l.getD i (0, 0)).2) l.length = (l.map Prod.snd).sum := by
  induction l with
  | nil => rfl
  | cons x l ih =>
    have hs : before (fun i => ((x :: l).getD i (0, 0)).2) (l.length + 1) =
        before (fun i => (l.getD i (0, 0)).2) l.length + x.2 := by
      simp only [before, Finset.sum_range_succ', List.getD_cons_succ, List.getD_cons_zero]
    rw [List.length_cons, hs, ih, List.map_cons, List.sum_cons, Nat.add_comm]

theorem getD_mem {l : List (ℕ × ℕ)} {i : ℕ} (h : i < l.length) : l.getD i (0, 0) ∈ l := by
  rw [List.getD_eq_getElem l (0, 0) h]
  exact List.getElem_mem h

theorem RemOk.index_inj {m : ℕ} {l : List (ℕ × ℕ)} (h : RemOk m l) {i j : ℕ} (hi : i < l.length)
    (hj : j < l.length) (he : (l.getD i (0, 0)).1 = (l.getD j (0, 0)).1) : i = j := by
  have hi2 : i < (l.map Prod.fst).length := by rw [List.length_map]; exact hi
  have hj2 : j < (l.map Prod.fst).length := by rw [List.length_map]; exact hj
  rw [List.getD_eq_getElem l (0, 0) hi, List.getD_eq_getElem l (0, 0) hj] at he
  have hm : (l.map Prod.fst)[i] = (l.map Prod.fst)[j] := by
    simpa only [List.getElem_map] using he
  exact (List.Nodup.getElem_inj_iff h.nodup).mp hm

theorem lookup_of_mem {l : List (ℕ × ℕ)} (h : (l.map Prod.fst).Nodup) {x : ℕ × ℕ} (hx : x ∈ l) :
    l.lookup x.1 = some x.2 := by
  induction l with
  | nil => cases hx
  | cons y l ih =>
    obtain ⟨hy, hl⟩ := List.nodup_cons.mp h
    rcases List.mem_cons.mp hx with rfl | hm
    · exact List.lookup_cons_self
    · have hne : x.1 ≠ y.1 := fun he => hy (he ▸ List.mem_map_of_mem hm)
      rw [show y :: l = (y.1, y.2) :: l from rfl, List.lookup_cons, beq_eq_false_iff_ne.mpr hne]
      exact ih hl hm

theorem lookup_mem {l : List (ℕ × ℕ)} {i r : ℕ} (h : l.lookup i = some r) : (i, r) ∈ l := by
  induction l with
  | nil => cases h
  | cons y l ih =>
    obtain ⟨j, q⟩ := y
    by_cases he : i = j
    · subst he
      rw [List.lookup_cons_self, Option.some.injEq] at h
      rw [h]
      exact List.mem_cons_self ..
    · rw [List.lookup_cons, beq_eq_false_iff_ne.mpr he] at h
      exact List.mem_cons_of_mem _ (ih h)

theorem total_le {m : ℕ} {l : List (ℕ × ℕ)} (h : RemOk m l) : (l.map Prod.snd).sum ≤ 128 := by
  have hs := List.sum_le_card_nsmul (l.map Prod.snd) 32 (by
    intro y hy
    obtain ⟨x, hx, rfl⟩ := List.mem_map.mp hy
    exact h.le x hx)
  have hl := h.length
  simp only [List.length_map, smul_eq_mul] at hs
  omega

theorem total_pos {m : ℕ} {l : List (ℕ × ℕ)} (h : RemOk m l) (hne : l ≠ []) :
    0 < (l.map Prod.snd).sum := by
  cases l with
  | nil => exact absurd rfl hne
  | cons x l =>
    have hx := h.pos x (List.mem_cons_self ..)
    simp only [List.map_cons, List.sum_cons]
    omega

/-! ### Cycles a phase can have -/

theorem minVirtual_le_init (phys : ℕ → ℕ) (total i : ℕ) (l : List (ℕ × ℕ)) (best : ℕ × ℕ) :
    (minVirtual phys total i l best).1 ≤ best.1 := by
  induction l generalizing i best with
  | nil => exact Nat.le_refl _
  | cons x l ih =>
    obtain ⟨di, r⟩ := x
    simp only [minVirtual]
    refine (ih (i + 1) _).trans ?_
    split
    · next hlt => exact Nat.le_of_lt hlt
    · exact Nat.le_refl _

theorem minVirtual_le (phys : ℕ → ℕ) (total i : ℕ) (l : List (ℕ × ℕ)) (best : ℕ × ℕ) :
    ∀ x ∈ l, (minVirtual phys total i l best).1 ≤ u64 (phys x.1 * total) / x.2 := by
  induction l generalizing i best with
  | nil => intro x hx; cases hx
  | cons y l ih =>
    intro x hx
    obtain ⟨di, r⟩ := y
    rcases List.mem_cons.mp hx with rfl | hm
    · have h := minVirtual_le_init phys total (i + 1) l
        (if u64 (phys di * total) / r < best.1 then (u64 (phys di * total) / r, i) else best)
      simp only [minVirtual]
      refine h.trans ?_
      split
      · exact Nat.le_refl _
      · next hlt => exact Nat.le_of_not_lt hlt
    · exact ih (i + 1) _ x hm

/-- Every remaining disk has room for its turns in all the cycles. -/
theorem cycles_fit {m : ℕ} {l : List (ℕ × ℕ)} (phys : ℕ → ℕ) (su : ℕ) (h : RemOk m l)
    (init : ℕ × ℕ) {x : ℕ × ℕ} (hx : x ∈ l) :
    x.2 * ((minVirtual phys (l.map Prod.snd).sum 0 l init).1 / ((l.map Prod.snd).sum * su)) * su ≤
      phys x.1 := by
  have htp := total_pos h (List.ne_nil_of_mem hx)
  have hmin := minVirtual_le phys (l.map Prod.snd).sum 0 l init x hx
  generalize (l.map Prod.snd).sum = total at *
  generalize (minVirtual phys total 0 l init).1 = best at *
  have hwrap : u64 (phys x.1 * total) / x.2 ≤ phys x.1 * total / x.2 := Nat.div_le_div_right (Nat.mod_le _ _)
  have h1 : best / (total * su) * (total * su) ≤ best := Nat.div_mul_le_self _ _
  have h2 : phys x.1 * total / x.2 * x.2 ≤ phys x.1 * total := Nat.div_mul_le_self _ _
  have h3 : best / (total * su) * (total * su) * x.2 ≤ phys x.1 * total :=
    (Nat.mul_le_mul_right x.2 (h1.trans (hmin.trans hwrap))).trans h2
  have h4 : x.2 * (best / (total * su)) * su * total ≤ phys x.1 * total := by
    calc x.2 * (best / (total * su)) * su * total
        = best / (total * su) * (total * su) * x.2 := by
          generalize best / (total * su) = c
          rw [Nat.mul_comm x.2 c, Nat.mul_assoc, Nat.mul_assoc, Nat.mul_assoc,
            Nat.mul_comm x.2, Nat.mul_comm su total]
      _ ≤ phys x.1 * total := h3
  exact Nat.le_of_mul_le_mul_right h4 htp

theorem share_sum_le {m : ℕ} {l : List (ℕ × ℕ)} (phys : ℕ → ℕ) (c su : ℕ) (h : RemOk m l)
    (hphys : ∀ i < m, phys i ≤ 2^56) (hfit : ∀ x ∈ l, x.2 * c * su ≤ phys x.1) :
    c * ((l.map Prod.snd).sum * su) ≤ 2^58 := by
  have hsum : c * ((l.map Prod.snd).sum * su) = (l.map fun x => x.2 * c * su).sum := by
    clear h hfit
    induction l with
    | nil => simp
    | cons x l ih =>
      simp only [List.map_cons, List.sum_cons, Nat.add_mul, Nat.mul_add] at ih ⊢
      rw [ih, Nat.mul_comm x.2 c, Nat.mul_assoc]
  have hs := List.sum_le_card_nsmul (l.map fun x => x.2 * c * su) (2^56) (by
    intro y hy
    obtain ⟨x, hx, rfl⟩ := List.mem_map.mp hy
    exact (hfit x hx).trans (hphys x.1 (h.inRange x hx)))
  have hl := h.length
  simp only [List.length_map, smul_eq_mul] at hs
  omega

end RaidTest.Stripe
