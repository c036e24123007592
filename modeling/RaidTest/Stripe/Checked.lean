import RaidTest.Stripe.Mapping

/-!
# The mapping with its faults (`map_single_byte`, `stripe_volume_map_lba`)

The fields of a volume come from a superblock, and the mapping divides by one of them and goes
through arrays as far as two others say. Here each division and each index is checked, so that a
request ends in a fault where the program leaves its arrays. Without a fault the answer is that of
`mapLba`.
-/

namespace RaidTest.Stripe
open RaidTest.Base

inductive MapFault where
  | divideByZero
  | phaseIndex
  | segmentIndex
  deriving DecidableEq, Repr

/-! ### The checked functions -/

/-- A loop over the segments of a cycle: the slot the test stops it at, and `cum`. -/
def segmentSearch (ph : MappingPhase) (test : ℕ → ℕ → Bool) : ℕ → ℕ → ℕ → Except MapFault (Option ℕ × ℕ)
  | 0, _, cum => .ok (none, cum)
  | n + 1, j, cum =>
    if maxDisks ≤ j then .error .segmentIndex
    else if test j cum then .ok (some j, cum)
    else segmentSearch ph test n (j + 1) (u32 (cum + ph.ratios j))

/-- The test of the loop in `map_single_byte`. -/
def inSegment (ph : MappingPhase) (su x j cum : ℕ) : Bool :=
  decide (u64 (cum * su) ≤ x ∧ x < u64 ((cum + ph.ratios j) * su))

/-- The test of the loop in `stripe_volume_map_lba`. -/
def inOwnSegment (ph : MappingPhase) (su di x j cum : ℕ) : Bool :=
  decide (ph.activeDiskIndices j = di ∧ u64 (cum * su) ≤ x ∧ x < u64 ((cum + ph.ratios j) * su))

def mapInPhaseChecked (ph : MappingPhase) (su x : ℕ) : Except MapFault (Option (ℕ × ℕ)) :=
  if ph.activeCount = 1 then
    .ok (some (ph.activeDiskIndices 0, u64 (ph.physicalStartsBytes 0 + x)))
  else if ph.cycleSizeBytes = 0 then .error .divideByZero
  else
    let cycleIndex := x / ph.cycleSizeBytes
    let offsetInCycle := x % ph.cycleSizeBytes
    match segmentSearch ph (inSegment ph su offsetInCycle) ph.activeCount 0 0 with
    | .error e => .error e
    | .ok (none, _) => .ok none
    | .ok (some j, cum) =>
      .ok (some (ph.activeDiskIndices j, u64 (ph.physicalStartsBytes j +
        cycleIndex * ph.ratios j * su + (offsetInCycle - u64 (cum * su)))))

def mapPhasesChecked (v : StripeVolume) (vo : ℕ) : ℕ → ℕ → Except MapFault (Option (ℕ × ℕ))
  | 0, _ => .ok none
  | n + 1, p =>
    if maxDisks ≤ p then .error .phaseIndex
    else
      let ph := v.phases p
      if vo < ph.virtualStartBytes ∨ vo ≥ u64 (ph.virtualStartBytes + ph.virtualSizeBytes) then
        mapPhasesChecked v vo n (p + 1)
      else
        match mapInPhaseChecked ph v.stripeUnit (vo - ph.virtualStartBytes) with
        | .error e => .error e
        | .ok (some r) => .ok (some r)
        | .ok none => mapPhasesChecked v vo n (p + 1)

/-- `map_single_byte` with its faults. -/
def mapSingleByteChecked (v : StripeVolume) (vo : ℕ) : Except MapFault (Option (ℕ × ℕ)) :=
  if vo ≥ v.virtualTotalBytes then .ok none else mapPhasesChecked v vo v.phaseCount 0

/-- `chunk` with its faults; the search for the current phase reads every phase. -/
def mapChunkChecked (v : StripeVolume) (vo di remaining : ℕ) : Except MapFault ℕ :=
  if maxDisks < v.phaseCount then .error .phaseIndex
  else
    let ph := currentPhase v vo
    let oip := sub64 vo ph.virtualStartBytes
    let phaseRemain := sub64 ph.virtualSizeBytes oip
    if ph.activeCount = 1 then .ok (minU64 remaining phaseRemain)
    else if ph.cycleSizeBytes = 0 then .error .divideByZero
    else
      let oic := oip % ph.cycleSizeBytes
      match segmentSearch ph (inOwnSegment ph v.stripeUnit di oic) ph.activeCount 0 0 with
      | .error e => .error e
      | .ok (seg, cum) =>
        let segEnd := u64 ((cum + ph.ratios (seg.getD 0)) * v.stripeUnit)
        .ok (minU64 remaining (minU64 phaseRemain (sub64 segEnd oic)))

def mapLbaLoopChecked (v : StripeVolume) :
    ℕ → ℕ → ℕ → List IoMappingEntry → Except MapFault (Option (List IoMappingEntry))
  | 0, _, _, _ => .ok none
  | fuel + 1, vo, remaining, acc =>
    if remaining > 0 ∧ acc.length < maxIoEntries then
      match mapSingleByteChecked v vo with
      | .error e => .error e
      | .ok none => .ok none
      | .ok (some (di, po)) =>
        match mapChunkChecked v vo di remaining with
        | .error e => .error e
        | .ok chunk =>
          mapLbaLoopChecked v fuel (u64 (vo + chunk)) (remaining - u32 chunk) (pushEntry acc di po chunk)
    else if remaining = 0 then .ok (some acc.reverse)
    else .ok none

/-- The first `fuel` turns of `stripe_volume_map_lba`; `none` is `false`, or no answer so far. -/
def mapLbaChecked (v : StripeVolume) (fuel vo requestLength : ℕ) : Except MapFault (Option (List IoMappingEntry)) :=
  if requestLength = 0 ∨ vo ≥ v.virtualTotalBytes then .ok none
  else
    let remaining := if u64 (vo + requestLength) > v.virtualTotalBytes
      then v.virtualTotalBytes - vo else requestLength
    mapLbaLoopChecked v fuel vo remaining []

/-! ### Without a fault the answer is that of the mapping -/

section Agree
variable {ph : MappingPhase} {v : StripeVolume}

theorem segmentSearch_findSegment {su x n j cum c : ℕ} {slot : Option ℕ}
    (h : segmentSearch ph (inSegment ph su x) n j cum = .ok (slot, c)) :
    findSegment ph su x n j cum = slot.map fun k => (k, c) := by
  induction n generalizing j cum with
  | zero =>
    obtain ⟨rfl, rfl⟩ := Prod.mk.inj (Except.ok.inj h)
    rfl
  | succ n ih =>
    unfold segmentSearch inSegment at h
    unfold findSegment
    split at h
    · cases h
    split at h
    · next hin =>
      obtain ⟨rfl, rfl⟩ := Prod.mk.inj (Except.ok.inj h)
      rw [if_pos (of_decide_eq_true hin)]
      rfl
    · next hin =>
      rw [if_neg (fun hc => hin (decide_eq_true hc))]
      exact ih h

theorem segmentSearch_findSegmentOf {su di x n j cum c : ℕ} {slot : Option ℕ}
    (h : segmentSearch ph (inOwnSegment ph su di x) n j cum = .ok (slot, c)) :
    findSegmentOf ph su di x n j cum = (slot.getD 0, c) := by
  induction n generalizing j cum with
  | zero =>
    obtain ⟨rfl, rfl⟩ := Prod.mk.inj (Except.ok.inj h)
    rfl
  | succ n ih =>
    unfold segmentSearch inOwnSegment at h
    unfold findSegmentOf
    split at h
    · cases h
    split at h
    · next hin =>
      obtain ⟨rfl, rfl⟩ := Prod.mk.inj (Except.ok.inj h)
      rw [if_pos (of_decide_eq_true hin)]
      rfl
    · next hin =>
      rw [if_neg (fun hc => hin (decide_eq_true hc))]
      exact ih h

theorem mapInPhaseChecked_agrees {su x : ℕ} {r : Option (ℕ × ℕ)} (h : mapInPhaseChecked ph su x = .ok r) :
    mapInPhase ph su x = r := by
  unfold mapInPhaseChecked at h
  unfold mapInPhase
  split at h
  · next hone =>
    rw [if_pos hone]
    exact Except.ok.inj h
  next hone =>
  rw [if_neg hone]
  split at h
  · cases h
  simp only at h ⊢
  split at h
  · cases h
  · next c hs =>
    rw [segmentSearch_findSegment hs]
    exact Except.ok.inj h
  · next j c hs =>
    rw [segmentSearch_findSegment hs]
    exact Except.ok.inj h

theorem mapPhasesChecked_agrees {vo n p : ℕ} {r : Option (ℕ × ℕ)} (h : mapPhasesChecked v vo n p = .ok r) :
    mapPhases v vo n p = r := by
  induction n generalizing p with
  | zero => exact Except.ok.inj h
  | succ n ih =>
    unfold mapPhasesChecked at h
    unfold mapPhases
    split at h
    · cases h
    simp only at h ⊢
    split at h
    · next hout =>
      rw [if_pos hout]
      exact ih h
    next hout =>
    rw [if_neg hout]
    split at h
    · cases h
    · next loc hloc =>
      rw [mapInPhaseChecked_agrees hloc]
      exact Except.ok.inj h
    · next hloc =>
      rw [mapInPhaseChecked_agrees hloc]
      exact ih h

theorem mapSingleByteChecked_agrees {vo : ℕ} {r : Option (ℕ × ℕ)} (h : mapSingleByteChecked v vo = .ok r) :
    mapSingleByte v vo = r := by
  unfold mapSingleByteChecked at h
  unfold mapSingleByte
  split at h
  · next hout =>
    rw [if_pos hout]
    exact Except.ok.inj h
  · next hin =>
    rw [if_neg hin]
    exact mapPhasesChecked_agrees h

theorem mapChunkChecked_agrees {vo di remaining chunk : ℕ} (h : mapChunkChecked v vo di remaining = .ok chunk) :
    mapChunk v vo di remaining = chunk := by
  unfold mapChunkChecked at h
  unfold mapChunk
  split at h
  · cases h
  simp only at h ⊢
  split at h
  · next hone =>
    rw [if_pos hone]
    exact Except.ok.inj h
  next hone =>
  rw [if_neg hone]
  split at h
  · cases h
  split at h
  · cases h
  · next seg cum hs =>
    rw [segmentSearch_findSegmentOf hs]
    exact Except.ok.inj h

theorem mapLbaLoopChecked_agrees {fuel vo remaining : ℕ} {acc : List IoMappingEntry} {r : Option (List IoMappingEntry)}
    (h : mapLbaLoopChecked v fuel vo remaining acc = .ok r) : mapLbaLoop v fuel vo remaining acc = r := by
  induction fuel generalizing vo remaining acc with
  | zero => exact Except.ok.inj h
  | succ fuel ih =>
    unfold mapLbaLoopChecked at h
    unfold mapLbaLoop
    split at h
    · next hgo =>
      rw [if_pos hgo]
      split at h
      · cases h
      · next hloc =>
        rw [mapSingleByteChecked_agrees hloc]
        exact Except.ok.inj h
      · next di po hloc =>
        rw [mapSingleByteChecked_agrees hloc]
        split at h
        · cases h
        · next chunk hchunk =>
          simp only [mapChunkChecked_agrees hchunk]
          exact ih h
    · next hstop =>
      rw [if_neg hstop]
      split at h
      · next hdone =>
        rw [if_pos hdone]
        exact Except.ok.inj h
      · next hleft =>
        rw [if_neg hleft]
        exact Except.ok.inj h

/-- As many turns as `mapLba` has, and no fault in them. -/
theorem mapLbaChecked_agrees {vo len : ℕ} {r : Option (List IoMappingEntry)}
    (h : mapLbaChecked v (len + 1) vo len = .ok r) : mapLba v vo len = r := by
  unfold mapLbaChecked at h
  unfold mapLba
  split at h
  · next hout =>
    rw [if_pos hout]
    exact Except.ok.inj h
  · next hin =>
    rw [if_neg hin]
    exact mapLbaLoopChecked_agrees h

end Agree

end RaidTest.Stripe
