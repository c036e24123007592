import RaidTest.Stripe.Checked
import Mathlib.Data.Finset.Card

/-!
# When the mapping meets no fault

The condition is one on the fields, byte by byte: the phases that the lookup of the byte comes to,
the phase its run is cut in, and the member it is served by. A run of no bytes is a special
case: the loop stays at such a byte and never returns.
-/

namespace RaidTest.Stripe
open RaidTest.Base

/-! ### Places by the fields -/

/-- The first number below `n` with the property. -/
def First (P : ℕ → Prop) (n j : ℕ) : Prop := j < n ∧ P j ∧ ∀ i < j, ¬ P i

theorem First.unique {P : ℕ → Prop} {n i j : ℕ} (hi : First P n i) (hj : First P n j) : i = j := by
  rcases Nat.lt_trichotomy i j with hlt | heq | hlt
  · exact absurd hi.2.1 (hj.2.2 i hlt)
  · exact heq
  · exact absurd hj.2.1 (hi.2.2 j hlt)

/-- Segment `j` of the cycle has byte `x`. -/
def Segment (ph : MappingPhase) (su x j : ℕ) : Prop :=
  u64 (u32 (before ph.ratios j) * su) ≤ x ∧ x < u64 ((u32 (before ph.ratios j) + ph.ratios j) * su)

/-- Segment `j` of the cycle has byte `x`, and belongs to member `di`. -/
def OwnSegment (ph : MappingPhase) (su di x j : ℕ) : Prop := ph.activeDiskIndices j = di ∧ Segment ph su x j

/-- The work in a phase stays within the arrays; `hit` says which segments end the search. -/
def InBounds (ph : MappingPhase) (hit : ℕ → Prop) : Prop :=
  ph.activeCount = 1 ∨ ph.cycleSizeBytes ≠ 0 ∧ (ph.activeCount ≤ maxDisks ∨ ∃ j < maxDisks, hit j)

/-- Byte `x` of the phase is served from slot `j`. -/
def Slot (ph : MappingPhase) (su x j : ℕ) : Prop :=
  if ph.activeCount = 1 then j = 0 else First (Segment ph su (x % ph.cycleSizeBytes)) ph.activeCount j

/-- The two comparisons of `map_single_byte`. -/
def Spans (ph : MappingPhase) (vo : ℕ) : Prop :=
  ph.virtualStartBytes ≤ vo ∧ vo < u64 (ph.virtualStartBytes + ph.virtualSizeBytes)

/-- The run at `vo` on member `di` has no bytes. -/
def EmptyRun (ph : MappingPhase) (su vo di : ℕ) : Prop :=
  sub64 ph.virtualSizeBytes (sub64 vo ph.virtualStartBytes) = 0 ∨
    ph.activeCount ≠ 1 ∧
      (∀ j < ph.activeCount, ¬ OwnSegment ph su di (sub64 vo ph.virtualStartBytes % ph.cycleSizeBytes) j) ∧
      u64 ((u32 (before ph.ratios ph.activeCount) + ph.ratios 0) * su) =
        sub64 vo ph.virtualStartBytes % ph.cycleSizeBytes

section Fields
variable (su count : ℕ) (phases : ℕ → MappingPhase)

/-- No phase before `p` serves the byte. -/
def Reaches (vo p : ℕ) : Prop :=
  ∀ q < p, Spans (phases q) vo → ∀ j, ¬ Slot (phases q) su (vo - (phases q).virtualStartBytes) j

/-- The byte is served by member `di`. -/
def ServedBy (vo di : ℕ) : Prop :=
  ∃ p < count, Reaches su phases vo p ∧ Spans (phases p) vo ∧
    ∃ j, Slot (phases p) su (vo - (phases p).virtualStartBytes) j ∧ di = (phases p).activeDiskIndices j

/-- `current_phase` is phase `c`. -/
def Current (vo c : ℕ) : Prop :=
  c < count ∧ (c = 0 ∨ (phases c).virtualStartBytes ≤ vo) ∧ ∀ q < count, c < q → vo < (phases q).virtualStartBytes

/-- `map_single_byte` stays within the arrays. -/
def LookupSafe (vo : ℕ) : Prop :=
  ∀ p < count, Reaches su phases vo p → Spans (phases p) vo →
    InBounds (phases p) (Segment (phases p) su ((vo - (phases p).virtualStartBytes) % (phases p).cycleSizeBytes))

/-- One turn at byte `vo` divides by no zero, stays within the arrays, and adds no entry for a
member the volume does not have, except in a run without bytes. -/
structure ByteSafe (n vo : ℕ) : Prop where
  lookup : LookupSafe su count phases vo
  run : ∀ di c, ServedBy su count phases vo di → Current count phases vo c → InBounds (phases c)
    (OwnSegment (phases c) su di (sub64 vo (phases c).virtualStartBytes % (phases c).cycleSizeBytes))
  member : ∀ di c, ServedBy su count phases vo di → Current count phases vo c → ¬ EmptyRun (phases c) su vo di → di < n

/-- Every byte of the volume is safe. -/
def FieldsSafe (n total : ℕ) : Prop :=
  total = 0 ∨ count ≤ maxDisks ∧ ∀ vo < 2^64, vo < total → ByteSafe su count phases n vo

variable {su count phases}

theorem ServedBy.unique {vo d e : ℕ} (hd : ServedBy su count phases vo d) (he : ServedBy su count phases vo e) : d = e := by
  obtain ⟨p, _, hpr, hpc, i, hpi, rfl⟩ := hd
  obtain ⟨q, _, hqr, hqc, j, hqj, rfl⟩ := he
  rcases Nat.lt_trichotomy p q with hlt | rfl | hlt
  · exact absurd hpi (hqr p hlt hpc i)
  · unfold Slot at hpi hqj
    split at hpi
    · next hone =>
      rw [if_pos hone] at hqj
      rw [hpi, hqj]
    · next hone =>
      rw [if_neg hone] at hqj
      rw [hpi.unique hqj]
  · exact absurd hqj (hpr q hlt hqc j)

theorem Current.unique {vo c d : ℕ} (hc : Current count phases vo c) (hd : Current count phases vo d) : c = d := by
  obtain ⟨hcc, hcs, hca⟩ := hc
  obtain ⟨hdc, hds, hda⟩ := hd
  rcases Nat.lt_trichotomy c d with hlt | heq | hlt
  · have h1 := hca d hdc hlt
    have h2 := hds.resolve_left (by omega)
    omega
  · exact heq
  · have h1 := hda c hcc hlt
    have h2 := hcs.resolve_left (by omega)
    omega

end Fields

/-! ### What each function answers -/

/-- The answers of a search through `m` segments that starts at the first. -/
inductive SearchAnswer (hit : ℕ → Prop) (ratios : ℕ → ℕ) (m : ℕ) : Except MapFault (Option ℕ × ℕ) → Prop where
  | fault {e : MapFault} (hm : maxDisks < m) (hno : ∀ i < maxDisks, ¬ hit i) : SearchAnswer hit ratios m (.error e)
  | missed (hm : m ≤ maxDisks) (hno : ∀ i < m, ¬ hit i) : SearchAnswer hit ratios m (.ok (none, u32 (before ratios m)))
  | found {j : ℕ} (hj : j < maxDisks) (hfirst : First hit m j) :
      SearchAnswer hit ratios m (.ok (some j, u32 (before ratios j)))

theorem segmentSearch_searched {ph : MappingPhase} {test : ℕ → ℕ → Bool} {hit : ℕ → Prop} {m : ℕ}
    (htest : ∀ j, test j (u32 (before ph.ratios j)) = true ↔ hit j) (n j : ℕ) (hm : j + n = m) (hj : j ≤ maxDisks)
    (hno : ∀ i < j, ¬ hit i) : SearchAnswer hit ph.ratios m (segmentSearch ph test n j (u32 (before ph.ratios j))) := by
  induction n generalizing j with
  | zero =>
    obtain rfl : j = m := hm
    exact .missed hj hno
  | succ n ih =>
    unfold segmentSearch
    split
    · next hend =>
      obtain rfl : j = maxDisks := Nat.le_antisymm hj hend
      exact .fault (by omega) hno
    split
    · next hstop => exact .found (by omega) ⟨by omega, (htest j).mp hstop, hno⟩
    · next hmiss =>
      have hnext : u32 (u32 (before ph.ratios j) + ph.ratios j) = u32 (before ph.ratios (j + 1)) := by
        rw [before_succ]
        unfold u32
        exact Nat.mod_add_mod _ _ _
      rw [hnext]
      apply ih (j + 1) (by omega) (by omega)
      intro i hi
      rcases Nat.lt_succ_iff_lt_or_eq.mp hi with hlt | rfl
      · exact hno i hlt
      · exact fun hc => hmiss ((htest i).mpr hc)

theorem search_start {ph : MappingPhase} {test : ℕ → ℕ → Bool} {hit : ℕ → Prop}
    (htest : ∀ j, test j (u32 (before ph.ratios j)) = true ↔ hit j) (m : ℕ) :
    SearchAnswer hit ph.ratios m (segmentSearch ph test m 0 0) :=
  segmentSearch_searched htest m 0 (Nat.zero_add m) (Nat.zero_le _) (fun i hi => absurd hi (Nat.not_lt_zero i))

theorem inSegment_iff (ph : MappingPhase) (su x j : ℕ) :
    inSegment ph su x j (u32 (before ph.ratios j)) = true ↔ Segment ph su x j := decide_eq_true_iff

theorem inOwnSegment_iff (ph : MappingPhase) (su di x j : ℕ) :
    inOwnSegment ph su di x j (u32 (before ph.ratios j)) = true ↔ OwnSegment ph su di x j := decide_eq_true_iff

/-- The answers of the body of the phase loop. -/
inductive PhaseAnswer (ph : MappingPhase) (su x : ℕ) : Except MapFault (Option (ℕ × ℕ)) → Prop where
  | fault {e : MapFault} (hout : ¬ InBounds ph (Segment ph su (x % ph.cycleSizeBytes))) : PhaseAnswer ph su x (.error e)
  | missed (hin : InBounds ph (Segment ph su (x % ph.cycleSizeBytes))) (hno : ∀ j, ¬ Slot ph su x j) :
      PhaseAnswer ph su x (.ok none)
  | found {j po : ℕ} (hin : InBounds ph (Segment ph su (x % ph.cycleSizeBytes))) (hj : Slot ph su x j)
      (hpo : po < 2^64) : PhaseAnswer ph su x (.ok (some (ph.activeDiskIndices j, po)))

theorem u64_lt (n : ℕ) : u64 n < 2^64 := Nat.mod_lt n (by decide)

theorem mapInPhaseChecked_answer (ph : MappingPhase) (su x : ℕ) : PhaseAnswer ph su x (mapInPhaseChecked ph su x) := by
  unfold mapInPhaseChecked
  split
  · next hone => exact .found (Or.inl hone) (by unfold Slot; rw [if_pos hone]) (u64_lt _)
  next hone =>
  have hslot : ∀ j, Slot ph su x j ↔ First (Segment ph su (x % ph.cycleSizeBytes)) ph.activeCount j := by
    intro j
    unfold Slot
    rw [if_neg hone]
  split
  · next hzero =>
    refine .fault fun hin => ?_
    rcases hin with h1 | ⟨hcycle, _⟩
    · exact hone h1
    · exact hcycle hzero
  next hcycle =>
  have hs := search_start (inSegment_iff ph su (x % ph.cycleSizeBytes)) ph.activeCount
  simp only
  generalize segmentSearch ph (inSegment ph su (x % ph.cycleSizeBytes)) ph.activeCount 0 0 = s at hs
  cases hs with
  | fault hm hno =>
    refine .fault fun hin => ?_
    rcases hin with h1 | ⟨_, hle | ⟨j, hj, hseg⟩⟩
    · exact hone h1
    · omega
    · exact hno j hj hseg
  | missed hm hno =>
    refine .missed (Or.inr ⟨hcycle, Or.inl hm⟩) fun j hj => ?_
    obtain ⟨hlt, hseg, _⟩ := (hslot j).mp hj
    exact hno j hlt hseg
  | found hj hfirst => exact .found (Or.inr ⟨hcycle, Or.inr ⟨_, hj, hfirst.2.1⟩⟩) ((hslot _).mpr hfirst) (u64_lt _)

section Lookup
variable {v : StripeVolume} {phases : ℕ → MappingPhase}

/-- The answers of `map_single_byte`. -/
inductive LookupAnswer (v : StripeVolume) (phases : ℕ → MappingPhase) (vo : ℕ) : Except MapFault (Option (ℕ × ℕ)) → Prop where
  | fault {e : MapFault} (hout : v.phaseCount ≤ maxDisks → ¬ LookupSafe v.stripeUnit v.phaseCount phases vo) :
      LookupAnswer v phases vo (.error e)
  | missed (hcount : v.phaseCount ≤ maxDisks) (hsafe : LookupSafe v.stripeUnit v.phaseCount phases vo)
      (hno : ∀ di, ¬ ServedBy v.stripeUnit v.phaseCount phases vo di) : LookupAnswer v phases vo (.ok none)
  | found {di po : ℕ} (hsafe : LookupSafe v.stripeUnit v.phaseCount phases vo)
      (hserves : ServedBy v.stripeUnit v.phaseCount phases vo di) (hpo : po < 2^64) :
      LookupAnswer v phases vo (.ok (some (di, po)))

variable (hsame : ∀ p < v.phaseCount, p < maxDisks → v.phases p = phases p)
include hsame

theorem mapPhasesChecked_answer (vo n p : ℕ) (hn : p + n = v.phaseCount) (hp : p ≤ maxDisks)
    (hreach : Reaches v.stripeUnit phases vo p)
    (hbefore : ∀ q < p, Reaches v.stripeUnit phases vo q → Spans (phases q) vo → InBounds (phases q)
      (Segment (phases q) v.stripeUnit ((vo - (phases q).virtualStartBytes) % (phases q).cycleSizeBytes))) :
    LookupAnswer v phases vo (mapPhasesChecked v vo n p) := by
  induction n generalizing p with
  | zero =>
    obtain rfl : p = v.phaseCount := hn
    refine .missed hp (fun q hq => hbefore q hq) ?_
    rintro di ⟨q, hq, _, hcov, j, hj, _⟩
    exact hreach q hq hcov j hj
  | succ n ih =>
    unfold mapPhasesChecked
    split
    · next hend => exact .fault fun hc => absurd hc (by omega)
    next hend =>
    rw [hsame p (by omega) (by omega)]
    simp only
    split
    · next hout =>
      have hcov : ¬ Spans (phases p) vo := by
        rintro ⟨h1, h2⟩
        omega
      apply ih (p + 1) (by omega) (by omega)
      · intro q hq hq1
        rcases Nat.lt_succ_iff_lt_or_eq.mp hq with hlt | rfl
        · exact hreach q hlt hq1
        · exact absurd hq1 hcov
      · intro q hq hq1 hq2
        rcases Nat.lt_succ_iff_lt_or_eq.mp hq with hlt | rfl
        · exact hbefore q hlt hq1 hq2
        · exact absurd hq2 hcov
    next hin =>
    have hcov : Spans (phases p) vo := ⟨by omega, by omega⟩
    have hphase := mapInPhaseChecked_answer (phases p) v.stripeUnit (vo - (phases p).virtualStartBytes)
    generalize mapInPhaseChecked (phases p) v.stripeUnit (vo - (phases p).virtualStartBytes) = s at hphase
    cases hphase with
    | fault hout => exact .fault fun _ hsafe => hout (hsafe p (by omega) hreach hcov)
    | missed hok hno =>
      apply ih (p + 1) (by omega) (by omega)
      · intro q hq hq1
        rcases Nat.lt_succ_iff_lt_or_eq.mp hq with hlt | rfl
        · exact hreach q hlt hq1
        · exact hno
      · intro q hq hq1 hq2
        rcases Nat.lt_succ_iff_lt_or_eq.mp hq with hlt | rfl
        · exact hbefore q hlt hq1 hq2
        · exact hok
    | found hok hj hpo =>
      refine .found (fun q hq hq1 hq2 => ?_) ⟨p, by omega, hreach, hcov, _, hj, rfl⟩ hpo
      rcases Nat.lt_trichotomy q p with hlt | rfl | hgt
      · exact hbefore q hlt hq1 hq2
      · exact hok
      · exact absurd hj (hq1 p hgt hcov _)

theorem mapSingleByteChecked_answer {vo : ℕ} (hvo : vo < v.virtualTotalBytes) :
    LookupAnswer v phases vo (mapSingleByteChecked v vo) := by
  unfold mapSingleByteChecked
  rw [if_neg (by omega)]
  exact mapPhasesChecked_answer hsame vo v.phaseCount 0 (Nat.zero_add _) (Nat.zero_le _)
    (fun q hq => absurd hq (Nat.not_lt_zero q)) (fun q hq => absurd hq (Nat.not_lt_zero q))

theorem currentPhase_current (vo : ℕ) (hpos : 0 < v.phaseCount) (hcount : v.phaseCount ≤ maxDisks) :
    ∃ c, Current v.phaseCount phases vo c ∧ currentPhase v vo = phases c := by
  have hfold : ∀ n, n < v.phaseCount → ∃ c, (List.range' 1 n).foldl
      (fun c q => if vo ≥ (v.phases q).virtualStartBytes then q else c) 0 = c ∧ c ≤ n ∧
      (c = 0 ∨ (phases c).virtualStartBytes ≤ vo) ∧ ∀ q ≤ n, c < q → vo < (phases q).virtualStartBytes := by
    intro n hn
    induction n with
    | zero => exact ⟨0, rfl, Nat.le_refl 0, Or.inl rfl, fun q hq hlt => by omega⟩
    | succ n ih =>
      obtain ⟨c, hc, hle, hs, ha⟩ := ih (by omega)
      rw [List.range'_concat, List.foldl_append, hc]
      simp only [List.foldl_cons, List.foldl_nil, Nat.one_mul]
      rw [Nat.add_comm 1 n, hsame (n + 1) hn (by omega)]
      split
      · next hge => exact ⟨n + 1, rfl, Nat.le_refl _, Or.inr hge, fun q hq hlt => by omega⟩
      · next hlt =>
        refine ⟨c, rfl, by omega, hs, ?_⟩
        intro q hq hcq
        rcases Nat.lt_succ_iff_lt_or_eq.mp (Nat.lt_succ_of_le hq) with hq1 | rfl
        · exact ha q (by omega) hcq
        · omega
  obtain ⟨c, hc, hle, hs, ha⟩ := hfold (v.phaseCount - 1) (by omega)
  refine ⟨c, ⟨by omega, hs, fun q hq => ha q (by omega)⟩, ?_⟩
  unfold currentPhase
  rw [hc]
  exact hsame c (by omega) (by omega)

end Lookup

/-- The answers of a cut of a run of at most `remaining` bytes. -/
inductive RunAnswer (ph : MappingPhase) (su vo di remaining : ℕ) : Except MapFault ℕ → Prop where
  | fault {e : MapFault}
      (hout : ¬ InBounds ph (OwnSegment ph su di (sub64 vo ph.virtualStartBytes % ph.cycleSizeBytes))) :
      RunAnswer ph su vo di remaining (.error e)
  | cut {chunk : ℕ}
      (hin : InBounds ph (OwnSegment ph su di (sub64 vo ph.virtualStartBytes % ph.cycleSizeBytes)))
      (hle : chunk ≤ remaining) (hzero : 0 < remaining → (chunk = 0 ↔ EmptyRun ph su vo di)) :
      RunAnswer ph su vo di remaining (.ok chunk)

theorem sub64_eq_zero {a b : ℕ} (ha : a < 2^64) (hb : b < 2^64) : sub64 a b = 0 ↔ a = b := by
  unfold sub64 u64
  omega

theorem mapChunkChecked_answer {v : StripeVolume} {ph : MappingPhase} {vo : ℕ} (hcount : v.phaseCount ≤ maxDisks)
    (hcur : currentPhase v vo = ph) (di remaining : ℕ) :
    RunAnswer ph v.stripeUnit vo di remaining (mapChunkChecked v vo di remaining) := by
  unfold mapChunkChecked
  rw [if_neg (by omega), hcur]
  simp only
  split
  · next hone =>
    refine .cut (Or.inl hone) (by rw [minU64_eq]; exact Nat.min_le_left _ _) fun hpos => ?_
    unfold EmptyRun
    rw [minU64_eq]
    constructor
    · intro hzero
      exact Or.inl (by omega)
    · rintro (hzero | ⟨hne, _⟩)
      · omega
      · exact absurd hone hne
  next hone =>
  split
  · next hzero =>
    refine .fault fun hin => ?_
    rcases hin with h1 | ⟨hcycle, _⟩
    · exact hone h1
    · exact hcycle hzero
  next hcycle =>
  have hoic : sub64 vo ph.virtualStartBytes % ph.cycleSizeBytes < 2^64 :=
    Nat.lt_of_le_of_lt (Nat.mod_le _ _) (u64_lt _)
  have hs := search_start (inOwnSegment_iff ph v.stripeUnit di (sub64 vo ph.virtualStartBytes % ph.cycleSizeBytes))
    ph.activeCount
  generalize segmentSearch ph (inOwnSegment ph v.stripeUnit di (sub64 vo ph.virtualStartBytes % ph.cycleSizeBytes))
    ph.activeCount 0 0 = s at hs
  have hmin : ∀ a b : ℕ, minU64 remaining (minU64 a b) ≤ remaining ∧
      (0 < remaining → (minU64 remaining (minU64 a b) = 0 ↔ a = 0 ∨ b = 0)) := by
    intro a b
    rw [minU64_eq, minU64_eq]
    omega
  cases hs with
  | fault hm hno =>
    refine .fault fun hin => ?_
    rcases hin with h1 | ⟨_, hle | ⟨j, hj, hseg⟩⟩
    · exact hone h1
    · omega
    · exact hno j hj hseg
  | missed hm hno =>
    refine .cut (Or.inr ⟨hcycle, Or.inl hm⟩) (hmin _ _).1 fun hpos => ?_
    rw [(hmin _ _).2 hpos, Option.getD_none, sub64_eq_zero (u64_lt _) hoic]
    exact ⟨Or.imp_right fun hend => ⟨hone, hno, hend⟩, Or.imp_right fun h => h.2.2⟩
  | found hj hfirst =>
    -- A segment that was found goes on behind the byte.
    obtain ⟨hlt, hown, _⟩ := hfirst
    refine .cut (Or.inr ⟨hcycle, Or.inr ⟨_, hj, hown⟩⟩) (hmin _ _).1 fun hpos => ?_
    rw [(hmin _ _).2 hpos, Option.getD_some, sub64_eq_zero (u64_lt _) hoic]
    exact ⟨Or.imp_right fun hend => absurd hend (Nat.ne_of_gt hown.2.2), Or.imp_right fun h => absurd hown (h.2.1 _ hlt)⟩

/-! ### A run without bytes -/

section Stuck
variable {v : StripeVolume} {vo di po remaining : ℕ}

/-- The entries are of members, and their lengths fit. -/
def Listed (n : ℕ) (acc : List IoMappingEntry) : Prop := ∀ e ∈ acc, e.diskIndex < n ∧ e.lengthBytes < 2^32

theorem Listed.push {n : ℕ} {acc : List IoMappingEntry} (hacc : Listed n acc) (hdi : di < n) (po chunk : ℕ) :
    Listed n (pushEntry acc di po chunk) := by
  have hu : ∀ k, u32 k < 2^32 := fun k => Nat.mod_lt k (by decide)
  intro e he
  cases acc with
  | nil =>
    obtain rfl := List.mem_singleton.mp he
    exact ⟨hdi, hu _⟩
  | cons x xs =>
    simp only [pushEntry] at he
    split at he
    · rcases List.mem_cons.mp he with rfl | he
      · exact ⟨(hacc x (List.mem_cons_self ..)).1, hu _⟩
      · exact hacc e (List.mem_cons_of_mem _ he)
    · rcases List.mem_cons.mp he with rfl | he
      · exact ⟨hdi, hu _⟩
      · exact hacc e he

variable (hvo : vo < 2^64) (hpos : 0 < remaining)
  (hsingle : mapSingleByteChecked v vo = .ok (some (di, po))) (hchunk : mapChunkChecked v vo di remaining = .ok 0)
include hvo hpos hsingle hchunk

/-- Once the last entry ends where the run begins, a turn without bytes changes nothing. -/
theorem mapLbaLoopChecked_stays (fuel : ℕ) {e : IoMappingEntry} (es : List IoMappingEntry) (hdi : e.diskIndex = di)
    (hend : u64 (e.physicalOffset + e.lengthBytes) = po) (hlen : e.lengthBytes < 2^32) :
    mapLbaLoopChecked v fuel vo remaining (e :: es) = .ok none := by
  induction fuel with
  | zero => rfl
  | succ fuel ih =>
    unfold mapLbaLoopChecked
    split
    · have hsame : pushEntry (e :: es) di po 0 = e :: es := by
        have hzero : u32 (e.lengthBytes + u32 0) = e.lengthBytes := u32_of_lt hlen
        unfold pushEntry
        simp only [if_pos (And.intro hdi hend), hzero]
      simp only [hsingle, hchunk]
      rw [hsame, Nat.add_zero, u64_of_lt hvo, show remaining - u32 0 = remaining from rfl]
      exact ih
    · rw [if_neg (Nat.ne_of_gt hpos)]

/-- A turn without bytes leads to no answer. -/
theorem mapLbaLoopChecked_empty (hpo : po < 2^64) (fuel : ℕ) {n : ℕ} {acc : List IoMappingEntry} (hacc : Listed n acc) : mapLbaLoopChecked v fuel vo remaining acc = .ok none := by
  cases fuel with
  | zero => rfl
  | succ fuel =>
    have hstays := mapLbaLoopChecked_stays hvo hpos hsingle hchunk
    have hnew : ∀ es, mapLbaLoopChecked v fuel vo remaining (⟨di, po, 0⟩ :: es) = .ok none := fun es =>
      hstays fuel es rfl (u64_of_lt hpo) (Nat.two_pow_pos 32)
    cases acc with
    | nil =>
      unfold mapLbaLoopChecked
      split
      · simp only [hsingle, hchunk]
        rw [Nat.add_zero, u64_of_lt hvo]
        exact hnew []
      · rw [if_neg (Nat.ne_of_gt hpos)]
    | cons e es =>
      by_cases hmerge : e.diskIndex = di ∧ u64 (e.physicalOffset + e.lengthBytes) = po
      · exact hstays (fuel + 1) es hmerge.1 hmerge.2 (hacc e (List.mem_cons_self ..)).2
      · unfold mapLbaLoopChecked
        split
        · have hpush : pushEntry (e :: es) di po 0 = ⟨di, po, 0⟩ :: e :: es := by
            unfold pushEntry
            simp only [if_neg hmerge]
            rfl
          simp only [hsingle, hchunk]
          rw [hpush, Nat.add_zero, u64_of_lt hvo]
          exact hnew (e :: es)
        · rw [if_neg (Nat.ne_of_gt hpos)]

end Stuck

/-! ### The whole request -/

/-- Whatever the request and however many turns it has had, nothing is divided by zero or read
outside an array, and the entries are of members. -/
def MapsSafely (v : StripeVolume) : Prop :=
  ∀ fuel, ∀ vo < 2^64, ∀ len < 2^32, ∃ r, mapLbaChecked v fuel vo len = .ok r ∧
    ∀ es, r = some es → ∀ e ∈ es, e.diskIndex < v.diskCount

section Request
variable {v : StripeVolume} {phases : ℕ → MappingPhase}
  (hsame : ∀ p < v.phaseCount, p < maxDisks → v.phases p = phases p)
include hsame

theorem mapLbaLoopChecked_safe (hcount : v.phaseCount ≤ maxDisks)
    (hsafe : ∀ vo < 2^64, vo < v.virtualTotalBytes → ByteSafe v.stripeUnit v.phaseCount phases v.diskCount vo)
    (fuel vo remaining : ℕ) (acc : List IoMappingEntry) (hvo : vo < 2^64)
    (hacc : Listed v.diskCount acc) :
    ∃ r, mapLbaLoopChecked v fuel vo remaining acc = .ok r ∧ ∀ es, r = some es → ∀ e ∈ es, e.diskIndex < v.diskCount := by
  induction fuel generalizing vo remaining acc with
  | zero => exact ⟨none, rfl, fun es he => absurd he.symm (Option.some_ne_none es)⟩
  | succ fuel ih =>
    have hnone : ∀ es : List IoMappingEntry, none = some es → ∀ e ∈ es, e.diskIndex < v.diskCount :=
      fun es he => absurd he.symm (Option.some_ne_none es)
    by_cases hgo : remaining > 0 ∧ acc.length < maxIoEntries
    swap
    · unfold mapLbaLoopChecked
      rw [if_neg hgo]
      split
      · refine ⟨_, rfl, fun es he e hmem => ?_⟩
        obtain rfl := Option.some.inj he
        exact (hacc e (List.mem_reverse.mp hmem)).1
      · exact ⟨none, rfl, hnone⟩
    by_cases hlt : vo < v.virtualTotalBytes
    swap
    · have hout : mapSingleByteChecked v vo = .ok none := by
        unfold mapSingleByteChecked
        rw [if_pos (by omega)]
      unfold mapLbaLoopChecked
      rw [if_pos hgo, hout]
      exact ⟨none, rfl, hnone⟩
    have hbyte := hsafe vo hvo hlt
    have hlookup := mapSingleByteChecked_answer hsame hlt
    cases hsingle : mapSingleByteChecked v vo with
    | error e =>
      rw [hsingle] at hlookup
      cases hlookup with
      | fault hout => exact absurd hbyte.lookup (hout hcount)
    | ok s =>
      rw [hsingle] at hlookup
      cases hlookup with
      | missed _ _ hno =>
        unfold mapLbaLoopChecked
        rw [if_pos hgo, hsingle]
        exact ⟨none, rfl, hnone⟩
      | @found di po _ hserves hpo =>
        have hpos : 0 < v.phaseCount := by
          obtain ⟨p, hp, _⟩ := hserves
          exact Nat.lt_of_le_of_lt (Nat.zero_le p) hp
        obtain ⟨c, hc, hcur⟩ := currentPhase_current hsame vo hpos hcount
        have hrun := mapChunkChecked_answer hcount hcur di remaining
        cases hchunk : mapChunkChecked v vo di remaining with
        | error e =>
          rw [hchunk] at hrun
          cases hrun with
          | fault hout => exact absurd (hbyte.run di c hserves hc) hout
        | ok chunk =>
          rw [hchunk] at hrun
          cases hrun with
          | cut _ _ hzero =>
            by_cases hempty : EmptyRun (phases c) v.stripeUnit vo di
            · obtain rfl := (hzero hgo.1).mpr hempty
              rw [mapLbaLoopChecked_empty hvo hgo.1 hsingle hchunk hpo (fuel + 1) hacc]
              exact ⟨none, rfl, hnone⟩
            · unfold mapLbaLoopChecked
              rw [if_pos hgo]
              simp only [hsingle, hchunk]
              exact ih _ _ _ (u64_lt _) (hacc.push (hbyte.member di c hserves hc hempty) po chunk)

/-- A request for one byte shows the faults of its turn. -/
theorem byteSafe_of_request (hcount : v.phaseCount ≤ maxDisks) {vo : ℕ} (hvo : vo < v.virtualTotalBytes)
    (hmap : ∃ r, mapLbaChecked v 2 vo 1 = .ok r ∧ ∀ es, r = some es → ∀ e ∈ es, e.diskIndex < v.diskCount) :
    ByteSafe v.stripeUnit v.phaseCount phases v.diskCount vo := by
  have hone : mapLbaChecked v 2 vo 1 = mapLbaLoopChecked v 2 vo 1 [] := by
    have hu : ¬ u64 (vo + 1) > v.virtualTotalBytes := Nat.not_lt.mpr ((Nat.mod_le _ _).trans hvo)
    unfold mapLbaChecked
    rw [if_neg (by omega), if_neg hu]
  obtain ⟨r, hr, hmember⟩ := hmap
  rw [hone] at hr
  unfold mapLbaLoopChecked at hr
  rw [if_pos (And.intro Nat.one_pos (by decide))] at hr
  have hlookup := mapSingleByteChecked_answer hsame hvo
  generalize mapSingleByteChecked v vo = s at hr hlookup
  cases hlookup with
  | fault _ => cases hr
  | missed _ hsafe hno => exact ⟨hsafe, fun di c hs => absurd hs (hno di), fun di c hs => absurd hs (hno di)⟩
  | @found di po hsafe hserves _ =>
    simp only at hr
    have hturn : ∀ c, Current v.phaseCount phases vo c →
        RunAnswer (phases c) v.stripeUnit vo di 1 (mapChunkChecked v vo di 1) := by
      intro c hc
      obtain ⟨c', hc', hcur⟩ := currentPhase_current hsame vo (Nat.lt_of_le_of_lt (Nat.zero_le c) hc.1) hcount
      obtain rfl := hc.unique hc'
      exact mapChunkChecked_answer hcount hcur di 1
    refine ⟨hsafe, ?_, ?_⟩
    · intro e c he hc
      obtain rfl := hserves.unique he
      have hrun := hturn c hc
      generalize mapChunkChecked v vo di 1 = t at hr hrun
      cases hrun with
      | fault _ => cases hr
      | cut hin _ _ => exact hin
    · intro e c he hc hfull
      obtain rfl := hserves.unique he
      have hrun := hturn c hc
      generalize mapChunkChecked v vo di 1 = t at hr hrun
      cases hrun with
      | fault _ => cases hr
      | @cut chunk _ hle hzero =>
        have hne : chunk ≠ 0 := fun h0 => hfull ((hzero Nat.one_pos).mp h0)
        obtain rfl : chunk = 1 := by omega
        obtain rfl := Except.ok.inj hr
        exact hmember _ rfl ⟨di, po, 1⟩ (List.mem_singleton.mpr rfl)

end Request

theorem mapPhasesChecked_none {v : StripeVolume} {vo : ℕ} (n p : ℕ) (hp : p ≤ maxDisks)
    (h : mapPhasesChecked v vo n p = .ok none) : p + n ≤ maxDisks := by
  induction n generalizing p with
  | zero => exact hp
  | succ n ih =>
    unfold mapPhasesChecked at h
    split at h
    · cases h
    simp only at h
    split at h
    · have := ih (p + 1) (by omega) h
      omega
    split at h
    · cases h
    · cases h
    · have := ih (p + 1) (by omega) h
      omega

/-- The first byte of a volume with too many phases is already out of bounds. -/
theorem phaseCount_le_of_request {v : StripeVolume} (hpos : 0 < v.virtualTotalBytes)
    (hmap : ∃ r, mapLbaChecked v 2 0 1 = .ok r) : v.phaseCount ≤ maxDisks := by
  have hone : mapLbaChecked v 2 0 1 = mapLbaLoopChecked v 2 0 1 [] := by
    have hu : ¬ u64 (0 + 1) > v.virtualTotalBytes := Nat.not_lt.mpr hpos
    unfold mapLbaChecked
    rw [if_neg (by omega), if_neg hu]
  obtain ⟨r, hr⟩ := hmap
  rw [hone] at hr
  unfold mapLbaLoopChecked at hr
  rw [if_pos (And.intro Nat.one_pos (by decide))] at hr
  split at hr
  · cases hr
  · next hnone =>
    unfold mapSingleByteChecked at hnone
    rw [if_neg (by omega)] at hnone
    have hle := mapPhasesChecked_none v.phaseCount 0 (Nat.zero_le _) hnone
    omega
  · unfold mapChunkChecked at hr
    by_contra hgt
    rw [if_pos (Nat.lt_of_not_le hgt)] at hr
    cases hr

/-- A volume maps every request safely if and only if its fields are safe. -/
theorem mapsSafely_iff {v : StripeVolume} {phases : ℕ → MappingPhase}
    (hsame : ∀ p < v.phaseCount, p < maxDisks → v.phases p = phases p) :
    MapsSafely v ↔ FieldsSafe v.stripeUnit v.phaseCount phases v.diskCount v.virtualTotalBytes := by
  constructor
  · intro hmap
    by_cases ht : v.virtualTotalBytes = 0
    · exact Or.inl ht
    obtain ⟨r, hr, _⟩ := hmap 2 0 (by decide) 1 (by decide)
    have hcount := phaseCount_le_of_request (Nat.pos_of_ne_zero ht) ⟨r, hr⟩
    exact Or.inr ⟨hcount, fun vo hvo hlt => byteSafe_of_request hsame hcount hlt (hmap 2 vo hvo 1 (by decide))⟩
  · intro hsafe fuel vo hvo len _
    unfold mapLbaChecked
    split
    · exact ⟨none, rfl, fun es he => absurd he.symm (Option.some_ne_none es)⟩
    · next hin =>
      rcases hsafe with ht | ⟨hcount, hbytes⟩
      · omega
      · exact mapLbaLoopChecked_safe hsame hcount hbytes fuel vo _ [] hvo (fun e he => absurd he List.not_mem_nil)

/-! ### Volumes the program laid out -/

theorem PhaseOk.active_le {su n : ℕ} {ph : MappingPhase} (h : PhaseOk su n ph) : ph.activeCount ≤ n := by
  have hcard := Finset.card_le_card_of_injOn (s := Finset.range ph.activeCount) (t := Finset.range n)
    ph.activeDiskIndices (fun j hj => by
      have hlt := h.members j (Finset.mem_range.mp hj)
      exact Finset.mem_coe.mpr (Finset.mem_range.mpr hlt))
    (fun i hi j hj => h.distinct i (Finset.mem_range.mp hi) j (Finset.mem_range.mp hj))
  rwa [Finset.card_range, Finset.card_range] at hcard

theorem PhaseOk.inBounds {su n : ℕ} {ph : MappingPhase} (h : PhaseOk su n ph) (hn : n ≤ maxDisks) (hit : ℕ → Prop) :
    InBounds ph hit := by
  by_cases hone : ph.activeCount = 1
  · exact Or.inl hone
  · exact Or.inr ⟨Nat.ne_of_gt (h.cycle_pos hone), Or.inl (h.active_le.trans hn)⟩

theorem Slot.lt {su x j : ℕ} {ph : MappingPhase} (h : Slot ph su x j) : j < ph.activeCount := by
  unfold Slot at h
  split at h
  · next hone => omega
  · exact h.1

/-- What the program lays out itself, it maps safely. -/
theorem Laid.mapsSafely {v : StripeVolume} (h : Laid v) (hn : v.diskCount ≤ maxDisks) : MapsSafely v := by
  refine (mapsSafely_iff fun _ _ _ => rfl).mpr (Or.inr ⟨h.count, fun vo _ _ => ⟨?_, ?_, ?_⟩⟩)
  · intro p hp _ _
    exact (h.phaseOk hp).inBounds hn _
  · intro di c _ hc
    exact (h.phaseOk hc.1).inBounds hn _
  · rintro di c ⟨p, hp, _, _, j, hj, rfl⟩ _ _
    exact (h.phaseOk hp).members j hj.lt

end RaidTest.Stripe
