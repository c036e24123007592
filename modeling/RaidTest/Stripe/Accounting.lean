import RaidTest.Stripe.LayoutLoop
import RaidTest.Stripe.Mapping
import Mathlib.Algebra.BigOperators.Group.Finset.Piecewise

/-!
# What the phase loop uses of each pool

The invariant balances the books: the bytes used on a disk and those that remain are its pool,
the lanes of its phases tile the used bytes, and a disk leaves the loop with less than one turn.
-/

namespace RaidTest.Stripe
open RaidTest.Base

/-! ### The disk that fills up first -/

theorem minVirtual_attained (phys : ℕ → ℕ) (total : ℕ) (l : List (ℕ × ℕ)) :
    ∀ (i : ℕ) (best : ℕ × ℕ), minVirtual phys total i l best = best ∨ ∃ k < l.length,
      minVirtual phys total i l best = (u64 (phys (l.getD k (0, 0)).1 * total) / (l.getD k (0, 0)).2, i + k) := by
  induction l with
  | nil => intro i best; exact Or.inl rfl
  | cons x l ih =>
    intro i best
    obtain ⟨di, r⟩ := x
    simp only [minVirtual]
    rcases ih (i + 1) (if u64 (phys di * total) / r < best.1 then (u64 (phys di * total) / r, i) else best) with
      h | ⟨k, hk, h⟩
    · rw [h]
      split
      · exact Or.inr ⟨0, Nat.succ_pos _, rfl⟩
      · exact Or.inl rfl
    · refine Or.inr ⟨k + 1, Nat.succ_lt_succ hk, ?_⟩
      rw [h, List.getD_cons_succ, Nat.add_assoc, Nat.add_comm 1 k]

/-- The disk that fills up first cannot give a turn more. -/
theorem minVirtual_short {m su : ℕ} {l : List (ℕ × ℕ)} {phys : ℕ → ℕ} (h : RemOk m l) (hne : l ≠ [])
    (hphys : ∀ i < m, phys i ≤ 2^56) :
    (minVirtual phys (l.map Prod.snd).sum 0 l (18446744073709551615, 4294967295)).2 < l.length ∧
      ∀ x ∈ l, x = l.getD (minVirtual phys (l.map Prod.snd).sum 0 l (18446744073709551615, 4294967295)).2 (0, 0) →
        0 < su → phys x.1 < x.2 * ((minVirtual phys (l.map Prod.snd).sum 0 l
          (18446744073709551615, 4294967295)).1 / ((l.map Prod.snd).sum * su) + 1) * su := by
  have hexact : ∀ x ∈ l, phys x.1 * (l.map Prod.snd).sum ≤ 2^63 := by
    intro x hx
    have h1 := hphys x.1 (h.inRange x hx)
    have h2 := total_le h
    calc phys x.1 * (l.map Prod.snd).sum ≤ 2^56 * 128 := Nat.mul_le_mul h1 h2
      _ = 2^63 := by decide
  have htotal := total_pos h hne
  generalize hT : (l.map Prod.snd).sum = T at hexact htotal ⊢
  rcases minVirtual_attained phys T l 0 (18446744073709551615, 4294967295) with hinit | ⟨k, hk, hbest⟩
  · exfalso
    obtain ⟨x, hx⟩ := List.exists_mem_of_ne_nil l hne
    have hle := minVirtual_le phys T 0 l (18446744073709551615, 4294967295) x hx
    have hlt := hexact x hx
    have hdiv : u64 (phys x.1 * T) / x.2 ≤ phys x.1 * T := (Nat.div_le_self _ _).trans (Nat.mod_le _ _)
    rw [hinit] at hle
    simp only at hle
    omega
  · rw [hbest, Nat.zero_add]
    refine ⟨hk, fun x hx he hu => ?_⟩
    simp only at he ⊢
    rw [← he]
    have hpos := h.pos x hx
    have hlt := hexact x hx
    rw [u64_of_lt (by omega)]
    generalize phys x.1 = a at hlt ⊢
    have hcycle : 0 < T * su := Nat.mul_pos htotal hu
    have hnext : a * T / x.2 < (a * T / x.2 / (T * su) + 1) * (T * su) := by
      rw [← Nat.div_lt_iff_lt_mul hcycle]
      exact Nat.lt_succ_self _
    generalize a * T / x.2 / (T * su) + 1 = c at hnext ⊢
    have hprod : a * T < x.2 * c * su * T := by
      calc a * T < c * (T * su) * x.2 := (Nat.div_lt_iff_lt_mul hpos).mp hnext
        _ = x.2 * c * su * T := by
          rw [Nat.mul_comm (c * (T * su)), Nat.mul_comm T su, ← Nat.mul_assoc c, ← Nat.mul_assoc, ← Nat.mul_assoc]
    exact Nat.lt_of_mul_lt_mul_right hprod

/-! ### One turn -/

theorem sum_lookup {m : ℕ} (c : ℕ) {l : List (ℕ × ℕ)} (h : (l.map Prod.fst).Nodup) (hin : ∀ x ∈ l, x.1 < m) :
    ∑ i ∈ Finset.range m, (l.lookup i).getD 0 * c = (l.map Prod.snd).sum * c := by
  induction l with
  | nil => simp
  | cons x l ih =>
    obtain ⟨hx, hl⟩ := List.nodup_cons.mp h
    have hstep : ∀ i, ((x :: l).lookup i).getD 0 * c = (if i = x.1 then x.2 * c else 0) + (l.lookup i).getD 0 * c := by
      intro i
      obtain ⟨j, r⟩ := x
      by_cases he : i = j
      · have hnone : l.lookup j = none := by
          cases hl : l.lookup j with
          | none => rfl
          | some q => exact absurd (List.mem_map_of_mem (lookup_mem hl)) hx
        simp only [hnone, he, List.lookup_cons_self, ite_true, Option.getD_some, Option.getD_none, Nat.zero_mul,
          Nat.add_zero]
      · simp only [List.lookup_cons, beq_eq_false_iff_ne.mpr he, he, ite_false, Nat.zero_add]
    rw [Finset.sum_congr rfl fun i _ => hstep i, Finset.sum_add_distrib, Finset.sum_ite_eq',
      if_pos (Finset.mem_range.mpr (hin x (List.mem_cons_self ..))), ih hl fun y hy => hin y (List.mem_cons_of_mem _ hy),
      List.map_cons, List.sum_cons, Nat.add_mul]

/-- The loop over `m` disks of `pool` bytes each, weighted by `ratio`, with `count0` phases over
`virt0` bytes before it. -/
structure LoopExact (su base m : ℕ) (pool ratio : ℕ → ℕ) (virt0 count0 : ℕ) (phases0 : ℕ → MappingPhase)
    (s : LayoutState) : Prop where
  inv : LoopInv su base m s
  ratios : ∀ x ∈ s.rem, x.2 = ratio x.1
  balance : ∀ x ∈ s.rem, s.usedPhys x.1 + s.remainingPhys x.1 = pool x.1
  units : ∀ i < m, su ∣ s.usedPhys i
  virt : s.virtOffset = virt0 + ∑ i ∈ Finset.range m, s.usedPhys i
  dropped : ∀ i < m, i ∉ s.rem.map Prod.fst → s.usedPhys i ≤ pool i ∧ pool i - s.usedPhys i < ratio i * su
  covered : ∀ i < m, ∀ q < s.usedPhys i, ∃ p < s.phaseCount, count0 ≤ p ∧ ∃ j < (s.phases p).activeCount,
    (s.phases p).activeDiskIndices j = base + i ∧ (s.phases p).physicalStartsBytes j ≤ q ∧
      q < (s.phases p).physicalStartsBytes j + lane su (s.phases p) j
  started : count0 ≤ s.phaseCount
  old : ∀ p < count0, s.phases p = phases0 p
  fresh : ∀ p < s.phaseCount, count0 ≤ p → ∀ j < (s.phases p).activeCount, base ≤ (s.phases p).activeDiskIndices j
  turns : s.phaseCount + s.rem.length ≤ maxDisks

section Loop
variable {su base m virt0 count0 : ℕ} {pool ratio : ℕ → ℕ} {phases0 : ℕ → MappingPhase} {s t : LayoutState}

/-- A turn that starts a phase and charges every disk its lane. -/
theorem LoopExact.push (size : ℕ) (charge : ℕ → ℕ) (h : LoopExact su base m pool ratio virt0 count0 phases0 s)
    (hinv : LoopInv su base m t) (hrem : t.rem.Sublist s.rem) (hshort : t.rem.length < s.rem.length)
    (hcount : t.phaseCount = s.phaseCount + 1)
    (hphases : t.phases = fun p => if p = s.phaseCount then s.phase base su size else s.phases p)
    (hvirt : t.virtOffset = u64 (s.virtOffset + size)) (hle : size ≤ 2^58)
    (hused : ∀ i, t.usedPhys i = s.usedPhys i + charge i)
    (hleft : ∀ x ∈ t.rem, t.remainingPhys x.1 + charge x.1 = s.remainingPhys x.1)
    (hlane : ∀ j < s.rem.length, charge (s.rem.getD j (0, 0)).1 = lane su (s.phase base su size) j)
    (hout : ∀ i, i ∉ s.rem.map Prod.fst → charge i = 0) (hsum : ∑ i ∈ Finset.range m, charge i = size)
    (hunit : ∀ i, su ∣ charge i)
    (hdropped : ∀ x ∈ s.rem, x.1 ∉ t.rem.map Prod.fst → charge x.1 ≤ s.remainingPhys x.1 ∧
      s.remainingPhys x.1 - charge x.1 < x.2 * su) :
    LoopExact su base m pool ratio virt0 count0 phases0 t := by
  have hbound := h.inv.phases.bounded
  have hfour := h.inv.count
  have hold : ∀ p < s.phaseCount, t.phases p = s.phases p := by
    intro p hp
    rw [hphases]
    exact if_neg (Nat.ne_of_lt hp)
  have hnew : t.phases s.phaseCount = s.phase base su size := by
    rw [hphases]
    exact if_pos rfl
  refine ⟨hinv, ?_, ?_, ?_, ?_, ?_, ?_, ?_, ?_, ?_, ?_⟩
  · intro x hx
    exact h.ratios x (hrem.subset hx)
  · intro x hx
    have h1 := h.balance x (hrem.subset hx)
    have h2 := hleft x hx
    have h3 := hused x.1
    omega
  · intro i hi
    rw [hused]
    exact Nat.dvd_add (h.units i hi) (hunit i)
  · rw [hvirt, u64_of_lt (by omega), h.virt, Finset.sum_congr rfl fun i _ => hused i, Finset.sum_add_distrib, hsum,
      Nat.add_assoc]
  · intro i hi hni
    by_cases hm : i ∈ s.rem.map Prod.fst
    · obtain ⟨x, hx, rfl⟩ := List.mem_map.mp hm
      have hd := hdropped x hx hni
      have hb := h.balance x hx
      have hx' := hused x.1
      rw [h.ratios x hx] at hd
      generalize ratio x.1 * su = turn at hd ⊢
      omega
    · rw [hused, hout i hm]
      exact h.dropped i hi hm
  · intro i hi q hq
    rw [hused] at hq
    by_cases hlt : q < s.usedPhys i
    · obtain ⟨p, hp, hp0, j, hj, hidx, hlo, hhi⟩ := h.covered i hi q hlt
      refine ⟨p, by omega, hp0, j, ?_⟩
      rw [hold p hp]
      exact ⟨hj, hidx, hlo, hhi⟩
    · -- the new phase covers what it is charged
      have hm : i ∈ s.rem.map Prod.fst := by
        by_contra hni
        have := hout i hni
        omega
      obtain ⟨x, hx, rfl⟩ := List.mem_map.mp hm
      obtain ⟨j, hj, he⟩ := List.getElem_of_mem hx
      have hget : s.rem.getD j (0, 0) = x := by
        rw [List.getD_eq_getElem _ _ hj, he]
      have hl := hlane j hj
      rw [hget] at hl
      refine ⟨s.phaseCount, by omega, h.started, j, ?_⟩
      rw [hnew, ← hl]
      simp only [LayoutState.phase, hget, true_and]
      exact ⟨hj, by omega, hq⟩
  · have := h.started
    omega
  · intro p hp
    rw [hold p (Nat.lt_of_lt_of_le hp h.started)]
    exact h.old p hp
  · intro p hp hp0 j hj
    by_cases he : p = s.phaseCount
    · rw [he, hnew]
      exact Nat.le_add_right _ _
    · have hp' : p < s.phaseCount := by omega
      rw [hold p hp'] at hj ⊢
      exact h.fresh p hp' hp0 j hj
  · have := h.turns
    omega

/-- The last disk is used up to its last whole unit. -/
theorem LoopExact.last (hu : 0 < su) (h : LoopExact su base m pool ratio virt0 count0 phases0 s)
    {di r : ℕ} (hrem : s.rem = [(di, r)]) (hinv : LoopInv su base m t) (hnone : t.rem = [])
    (hused : t.usedPhys = fun d =>
      if d = di then s.usedPhys d + (s.remainingPhys di - s.remainingPhys di % su) else s.usedPhys d)
    (hcount : t.phaseCount = s.phaseCount + 1)
    (hphases : t.phases = fun p =>
      if p = s.phaseCount then s.phase base su (s.remainingPhys di - s.remainingPhys di % su) else s.phases p)
    (hvirt : t.virtOffset = u64 (s.virtOffset + (s.remainingPhys di - s.remainingPhys di % su))) :
    LoopExact su base m pool ratio virt0 count0 phases0 t := by
  have hdi : di < m := h.inv.rem.inRange (di, r) (by rw [hrem]; exact List.mem_singleton.mpr rfl)
  have hr : 0 < r := h.inv.rem.pos (di, r) (by rw [hrem]; exact List.mem_singleton.mpr rfl)
  have hroom := h.inv.room di hdi
  have hmod := Nat.mod_lt (s.remainingPhys di) hu
  refine h.push (s.remainingPhys di - s.remainingPhys di % su)
    (fun i => if i = di then s.remainingPhys di - s.remainingPhys di % su else 0) hinv
    (by rw [hnone]; exact List.nil_sublist _) (by rw [hnone, hrem]; exact Nat.zero_lt_one) hcount hphases hvirt (by omega)
    ?_ ?_ ?_ ?_ ?_ ?_ ?_
  · intro i
    rw [hused]
    by_cases he : i = di
    · simp only [he, ite_true]
    · simp only [he, ite_false, Nat.add_zero]
  · intro x hx
    rw [hnone] at hx
    cases hx
  · intro j hj
    have hj0 : j = 0 := by
      rw [hrem, List.length_singleton] at hj
      omega
    simp only [hj0, hrem, List.getD_cons_zero, ite_true, lane, LayoutState.phase, List.length_singleton]
  · intro i hi
    have hne : i ≠ di := by
      rintro rfl
      rw [hrem] at hi
      exact hi (List.mem_singleton.mpr rfl)
    exact if_neg hne
  · rw [Finset.sum_ite_eq', if_pos (Finset.mem_range.mpr hdi)]
  · intro i
    split
    · exact Nat.dvd_sub_mod _
    · exact Nat.dvd_zero su
  · intro x hx _
    rw [hrem] at hx
    obtain rfl := List.mem_singleton.mp hx
    have hturn : su ≤ r * su := Nat.le_mul_of_pos_left su hr
    simp only [ite_true]
    omega

/-- A disk that cannot give another turn drops out. -/
theorem LoopExact.drops (h : LoopExact su base m pool ratio virt0 count0 phases0 s) {k : ℕ} (hk : k < s.rem.length)
    (hshort : s.remainingPhys (s.rem.getD k (0, 0)).1 < (s.rem.getD k (0, 0)).2 * su)
    (hinv : LoopInv su base m { s with rem := s.rem.eraseIdx k }) :
    LoopExact su base m pool ratio virt0 count0 phases0 { s with rem := s.rem.eraseIdx k } := by
  have hsub : (s.rem.eraseIdx k).Sublist s.rem := List.eraseIdx_sublist ..
  have hlen := List.length_eraseIdx_add_one hk
  refine { h with
    inv := hinv
    ratios := fun y hy => h.ratios y (hsub.subset hy)
    balance := fun y hy => h.balance y (hsub.subset hy)
    dropped := fun i hi hni => ?_
    turns := by
      have := h.turns
      show s.phaseCount + (s.rem.eraseIdx k).length ≤ maxDisks
      omega }
  by_cases hm : i ∈ s.rem.map Prod.fst
  · obtain ⟨y, hy, rfl⟩ := List.mem_map.mp hm
    have hyx : y = s.rem.getD k (0, 0) := by
      by_contra hne
      apply hni
      apply List.mem_map_of_mem
      obtain ⟨j, hj, he⟩ := List.getElem_of_mem hy
      refine List.mem_eraseIdx_iff_getElem?.mpr ⟨j, ?_, ?_⟩
      · rintro rfl
        rw [List.getD_eq_getElem _ _ hj, he] at hne
        exact hne rfl
      · rw [List.getElem?_eq_getElem hj, he]
    have hb := h.balance y hy
    rw [← hyx, h.ratios y hy] at hshort
    generalize ratio y.1 * su = turn at hshort ⊢
    simp only
    omega
  · exact h.dropped i hi hm

section Cycles
variable {n : ℕ} (hfits : ∀ x ∈ s.rem, x.2 * n * su ≤ s.remainingPhys x.1)

/-- What a remaining disk gives in `n` cycles. -/
theorem lookup_charge (h : RemOk m s.rem) {y : ℕ × ℕ} (hy : y ∈ s.rem) :
    (s.rem.lookup y.1).getD 0 * n * su = y.2 * n * su := by
  rw [lookup_of_mem h.nodup hy, Option.getD_some]

include hfits

/-- All disks give `n` cycles; those drop out that cannot give another. -/
theorem LoopExact.cycles (hu : 0 < su) (h : LoopExact su base m pool ratio virt0 count0 phases0 s) (hne : s.rem ≠ [])
    (hlen : s.rem.length ≠ 1) (hinv : LoopInv su base m t)
    (hrem : t.rem = s.rem.filter fun y => decide ((s.take su n s.rem).remainingPhys y.1 ≥ y.2 * su))
    (hless : t.rem.length < s.rem.length) (hused : t.usedPhys = (s.take su n s.rem).usedPhys)
    (hleft : t.remainingPhys = (s.take su n s.rem).remainingPhys) (hcount : t.phaseCount = s.phaseCount + 1)
    (hphases : t.phases = fun p =>
      if p = s.phaseCount then s.phase base su (n * (s.totalRatio * su)) else s.phases p)
    (hvirt : t.virtOffset = u64 (s.virtOffset + n * (s.totalRatio * su))) :
    LoopExact su base m pool ratio virt0 count0 phases0 t := by
  have hphys : ∀ i < m, s.remainingPhys i ≤ 2^56 := by
    intro i hi
    have := h.inv.room i hi
    omega
  have hpos : 0 < s.totalRatio * su := Nat.mul_pos (total_pos h.inv.rem hne) hu
  have hcharge : ∀ y ∈ s.rem, (s.rem.lookup y.1).getD 0 * n * su = y.2 * n * su := fun y hy =>
    lookup_charge h.inv.rem hy
  refine h.push (n * (s.totalRatio * su)) (fun i => (s.rem.lookup i).getD 0 * n * su) hinv
    (by rw [hrem]; exact List.filter_sublist) hless hcount hphases hvirt (share_sum_le s.remainingPhys n su h.inv.rem hphys hfits)
    (fun i => by rw [hused]; rfl) ?_ ?_ ?_ ?_ ?_ ?_
  · intro y hy
    rw [hrem] at hy
    have hy' := (List.mem_filter.mp hy).1
    have hf := hfits y hy'
    rw [hleft]
    simp only [LayoutState.take, hcharge y hy']
    omega
  · intro j hj
    rw [lane_multi s hlen hpos, hcharge _ (getD_mem hj)]
  · intro i hi
    have hnone : s.rem.lookup i = none := by
      cases hl : s.rem.lookup i with
      | none => rfl
      | some q => exact absurd (List.mem_map_of_mem (lookup_mem hl)) hi
    simp only [hnone, Option.getD_none, Nat.zero_mul]
  · have hs := sum_lookup (n * su) h.inv.rem.nodup h.inv.rem.inRange
    simp only [Nat.mul_assoc]
    rw [hs]
    show s.totalRatio * (n * su) = _
    rw [Nat.mul_left_comm]
  · intro i
    exact Nat.dvd_mul_left su _
  · intro y hy hni
    have hf := hfits y hy
    have hlt : ¬ (s.take su n s.rem).remainingPhys y.1 ≥ y.2 * su := by
      intro hge
      rw [hrem] at hni
      exact hni (List.mem_map_of_mem (List.mem_filter.mpr ⟨hy, decide_eq_true hge⟩))
    simp only [LayoutState.take, hcharge y hy, ge_iff_le, Nat.not_le] at hlt
    simp only [hcharge y hy]
    exact ⟨hf, hlt⟩

/-- A disk with less than another turn is not among those that stay. -/
theorem filter_less (h : RemOk m s.rem) {x : ℕ × ℕ} (hx : x ∈ s.rem)
    (hshort : s.remainingPhys x.1 < x.2 * (n + 1) * su) :
    (s.rem.filter fun y => decide ((s.take su n s.rem).remainingPhys y.1 ≥ y.2 * su)).length < s.rem.length := by
  rw [List.length_filter_lt_length_iff_exists]
  refine ⟨x, hx, fun hk => ?_⟩
  have hge := of_decide_eq_true hk
  have hsplit : x.2 * (n + 1) * su = x.2 * n * su + x.2 * su := by
    rw [Nat.mul_add, Nat.mul_one, Nat.add_mul]
  have hf := hfits x hx
  simp only [LayoutState.take, lookup_charge h hx, ge_iff_le] at hge
  omega

end Cycles

/-- A turn drops at least one disk. -/
theorem layoutStep_exact (hu : 0 < su) (h : LoopExact su base m pool ratio virt0 count0 phases0 s)
    (hc : s.phaseCount < maxDisks) (hs : layoutStep base su s = some t) :
    LoopExact su base m pool ratio virt0 count0 phases0 t ∧ t.rem.length < s.rem.length := by
  have hinv := layoutStep_inv hu h.inv hc hs
  have hfirst : s.rem ≠ [] → s.best.2 < s.rem.length ∧ s.remainingPhys (s.rem.getD s.best.2 (0, 0)).1 <
      (s.rem.getD s.best.2 (0, 0)).2 * (s.best.1 / (s.totalRatio * su) + 1) * su := by
    intro hne
    have hphys : ∀ i < m, s.remainingPhys i ≤ 2^56 := by
      intro i hi
      have := h.inv.room i hi
      omega
    obtain ⟨hidx, hshort⟩ := @minVirtual_short _ su _ _ h.inv.rem hne hphys
    exact ⟨hidx, hshort _ (getD_mem hidx) rfl hu⟩
  cases layoutStep_turn hs with
  | last di r hrem =>
    refine ⟨h.last hu hrem hinv rfl rfl rfl rfl rfl, ?_⟩
    rw [hrem]
    exact Nat.zero_lt_one
  | drops hne hlen hzero =>
    -- the disk that fills up first has less than a turn
    obtain ⟨hidx, hshort⟩ := hfirst hne
    rw [hzero, Nat.zero_add, Nat.mul_one] at hshort
    refine ⟨h.drops hidx hshort hinv, ?_⟩
    have hless := List.length_eraseIdx_add_one hidx
    show (s.rem.eraseIdx s.best.2).length < s.rem.length
    omega
  | cycles n hne hlen hn =>
    obtain ⟨hidx, hshort⟩ := hfirst hne
    rw [hn] at hshort
    have hfits : ∀ x ∈ s.rem, x.2 * n * su ≤ s.remainingPhys x.1 := by
      intro x hx
      rw [← hn]
      exact cycles_fit s.remainingPhys su h.inv.rem (18446744073709551615, 4294967295) hx
    have hless := filter_less hfits h.inv.rem (getD_mem hidx) hshort
    exact ⟨h.cycles hfits hu hne hlen hinv rfl hless rfl rfl rfl rfl rfl, hless⟩

/-- With a turn for every disk the loop ends with less than one turn left on every disk. -/
theorem layoutLoop_exact (hu : 0 < su) (fuel : ℕ) (h : LoopExact su base m pool ratio virt0 count0 phases0 s)
    (hf : s.rem.length < fuel) :
    LoopExact su base m pool ratio virt0 count0 phases0 (layoutLoop base su fuel s) ∧
      ∀ i < m, (layoutLoop base su fuel s).usedPhys i ≤ pool i ∧
        pool i - (layoutLoop base su fuel s).usedPhys i < ratio i * su := by
  induction fuel generalizing s with
  | zero => omega
  | succ fuel ih =>
    unfold layoutLoop
    split
    · next hg =>
      cases hs : layoutStep base su s with
      | some t =>
        obtain ⟨ht, hless⟩ := layoutStep_exact hu h hg.2 hs
        exact ih ht (by omega)
      | none =>
        refine ⟨h, fun i hi => ?_⟩
        change s.usedPhys i ≤ pool i ∧ pool i - s.usedPhys i < ratio i * su
        by_cases hm : i ∈ s.rem.map Prod.fst
        · -- the last disk has less than a unit
          unfold layoutStep at hs
          split at hs
          · next he => exact absurd he hg.1
          · next di r hrem =>
            have hx : (di, r) ∈ s.rem := by
              rw [hrem]
              exact List.mem_singleton.mpr rfl
            have hi' : i = di := by
              rw [hrem] at hm
              exact List.mem_singleton.mp hm
            have hr := h.ratios _ hx
            have hturn : su ≤ r * su := Nat.le_mul_of_pos_left su (h.inv.rem.pos _ hx)
            have hb := h.balance _ hx
            have hmod := Nat.mod_lt (s.remainingPhys di) hu
            have hle := Nat.mod_le (s.remainingPhys di) su
            simp only at hs hr hb
            rw [hi', ← hr]
            split at hs
            · omega
            split at hs
            · omega
            · cases hs
          · simp only at hs
            split at hs <;> cases hs
        · exact h.dropped i hi hm
    · next hg =>
      refine ⟨h, fun i hi => ?_⟩
      have ht := h.turns
      have hnil : s.rem = [] := by
        by_contra hne
        have hlen := List.length_pos_iff.mpr hne
        exact hg ⟨hne, by omega⟩
      apply h.dropped i hi
      rw [hnil]
      exact List.not_mem_nil

end Loop

end RaidTest.Stripe
