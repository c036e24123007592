import RaidTest.Stripe.WellFormed
import RaidTest.Base.Extent

/-!
# The address mapping (`map_single_byte`, `stripe_volume_map_lba`)

`mapSingleByte` sends a virtual byte to a member and a place in its pool;
`mapLba` cuts a request into runs that are contiguous on one member. On a
well-formed volume the first is total and injective below the virtual size and
the second tiles the request exactly.
-/

namespace RaidTest.Stripe
open RaidTest.Base

/-- The loop over the segments of a cycle: `j` and `cum` at the segment that holds `x`. -/
def findSegment (ph : MappingPhase) (su x : ℕ) : ℕ → ℕ → ℕ → Option (ℕ × ℕ)
  | 0, _, _ => none
  | n + 1, j, cum =>
    if u64 (cum * su) ≤ x ∧ x < u64 ((cum + ph.ratios j) * su) then some (j, cum)
    else findSegment ph su x n (j + 1) (u32 (cum + ph.ratios j))

/-- The body of the phase loop once `x = offset_in_phase` is known. -/
def mapInPhase (ph : MappingPhase) (su x : ℕ) : Option (ℕ × ℕ) :=
  if ph.activeCount = 1 then
    some (ph.activeDiskIndices 0, u64 (ph.physicalStartsBytes 0 + x))
  else
    let cycleIndex := x / ph.cycleSizeBytes
    let offsetInCycle := x % ph.cycleSizeBytes
    match findSegment ph su offsetInCycle ph.activeCount 0 0 with
    | none => none
    | some (j, cum) =>
      some (ph.activeDiskIndices j, u64 (ph.physicalStartsBytes j +
        cycleIndex * ph.ratios j * su + (offsetInCycle - u64 (cum * su))))

def mapPhases (v : StripeVolume) (vo : ℕ) : ℕ → ℕ → Option (ℕ × ℕ)
  | 0, _ => none
  | n + 1, p =>
    let ph := v.phases p
    if vo < ph.virtualStartBytes ∨ vo ≥ u64 (ph.virtualStartBytes + ph.virtualSizeBytes) then
      mapPhases v vo n (p + 1)
    else
      match mapInPhase ph v.stripeUnit (vo - ph.virtualStartBytes) with
      | some r => some r
      | none => mapPhases v vo n (p + 1)

/-- `map_single_byte`: member number and pool offset, `none` for `false`. -/
def mapSingleByte (v : StripeVolume) (vo : ℕ) : Option (ℕ × ℕ) :=
  if vo ≥ v.virtualTotalBytes then none else mapPhases v vo v.phaseCount 0

/-- `current_phase`: the last phase that starts at or before `vo`. -/
def currentPhase (v : StripeVolume) (vo : ℕ) : MappingPhase :=
  v.phases ((List.range' 1 (v.phaseCount - 1)).foldl
    (fun c p => if vo ≥ (v.phases p).virtualStartBytes then p else c) 0)

/-- `seg_idx` and `cum`; a search that finds nothing leaves segment 0 and the whole sum. -/
def findSegmentOf (ph : MappingPhase) (su di x : ℕ) : ℕ → ℕ → ℕ → ℕ × ℕ
  | 0, _, cum => (0, cum)
  | n + 1, j, cum =>
    if ph.activeDiskIndices j = di ∧ u64 (cum * su) ≤ x ∧ x < u64 ((cum + ph.ratios j) * su) then
      (j, cum)
    else findSegmentOf ph su di x n (j + 1) (u32 (cum + ph.ratios j))

/-- `chunk`: how far the run that starts at `vo` on member `di` goes. -/
def mapChunk (v : StripeVolume) (vo di remaining : ℕ) : ℕ :=
  let ph := currentPhase v vo
  let oip := sub64 vo ph.virtualStartBytes
  let phaseRemain := sub64 ph.virtualSizeBytes oip
  if ph.activeCount = 1 then minU64 remaining phaseRemain
  else
    let oic := oip % ph.cycleSizeBytes
    let seg := findSegmentOf ph v.stripeUnit di oic ph.activeCount 0 0
    let segEnd := u64 ((seg.2 + ph.ratios seg.1) * v.stripeUnit)
    minU64 remaining (minU64 phaseRemain (sub64 segEnd oic))

/-- Appends a run to the entries, last one first, or lengthens the last entry. -/
def pushEntry (acc : List IoMappingEntry) (di po chunk : ℕ) : List IoMappingEntry :=
  match acc with
  | [] => [⟨di, po, u32 chunk⟩]
  | e :: es =>
    if e.diskIndex = di ∧ u64 (e.physicalOffset + e.lengthBytes) = po then
      { e with lengthBytes := u32 (e.lengthBytes + u32 chunk) } :: es
    else ⟨di, po, u32 chunk⟩ :: e :: es

def mapLbaLoop (v : StripeVolume) : ℕ → ℕ → ℕ → List IoMappingEntry → Option (List IoMappingEntry)
  | 0, _, _, _ => none
  | fuel + 1, vo, remaining, acc =>
    if remaining > 0 ∧ acc.length < maxIoEntries then
      match mapSingleByte v vo with
      | none => none
      | some (di, po) =>
        let chunk := mapChunk v vo di remaining
        mapLbaLoop v fuel (u64 (vo + chunk)) (remaining - u32 chunk) (pushEntry acc di po chunk)
    else if remaining = 0 then some acc.reverse
    else none

/-- `stripe_volume_map_lba`; `none` is `false`. Every turn maps at least one byte, so
`requestLength + 1` turns are enough. -/
def mapLba (v : StripeVolume) (vo requestLength : ℕ) : Option (List IoMappingEntry) :=
  if requestLength = 0 ∨ vo ≥ v.virtualTotalBytes then none
  else
    let remaining := if u64 (vo + requestLength) > v.virtualTotalBytes
      then v.virtualTotalBytes - vo else requestLength
    mapLbaLoop v (requestLength + 1) vo remaining []

/-! ### Places inside a phase -/

/-- Byte `x` of the phase lies `r` bytes into the lane of the member in slot `j`. -/
def At (su : ℕ) (ph : MappingPhase) (x j r : ℕ) : Prop :=
  j < ph.activeCount ∧
    if ph.activeCount = 1 then r = x
    else InSegment ph.ratios su (x % ph.cycleSizeBytes) j ∧
      r = x / ph.cycleSizeBytes * (ph.ratios j * su) +
        (x % ph.cycleSizeBytes - before ph.ratios j * su)

section Phase
variable {su n : ℕ} {ph : MappingPhase}

theorem PhaseOk.before_le (h : PhaseOk su n ph) {j : ℕ} (hj : j < ph.activeCount) :
    before ph.ratios j + ph.ratios j ≤ 128 := by
  rw [← before_succ]
  exact (before_mono _ hj).trans h.small

theorem PhaseOk.cycle_pos (h : PhaseOk su n ph) (hm : ph.activeCount ≠ 1) : 0 < ph.cycleSizeBytes :=
  Nat.pos_of_dvd_of_pos (h.whole hm) h.size

theorem at_exists (h : PhaseOk su n ph) (x : ℕ) : ∃ j r, At su ph x j r := by
  by_cases ha : ph.activeCount = 1
  · exact ⟨0, x, h.active, by simp only [ha, ite_true]⟩
  · have hlt := Nat.mod_lt x (h.cycle_pos ha)
    have hseg : x % ph.cycleSizeBytes < before ph.ratios ph.activeCount * su := by
      rw [← h.cycle]
      exact hlt
    obtain ⟨j, hj, hs⟩ := segment_exists ph.ratios su _ ph.activeCount hseg
    exact ⟨j, _, hj, by simp only [ha, ite_false]; exact ⟨hs, rfl⟩⟩

theorem at_lane (h : PhaseOk su n ph) {x j r : ℕ} (hx : x < ph.virtualSizeBytes)
    (ha : At su ph x j r) : r < lane su ph j := by
  obtain ⟨_, ha⟩ := ha
  unfold lane
  by_cases h1 : ph.activeCount = 1
  · simp only [h1, ite_true] at ha ⊢
    omega
  · simp only [h1, ite_false] at ha ⊢
    obtain ⟨hs, rfl⟩ := ha
    have hc : x / ph.cycleSizeBytes < ph.virtualSizeBytes / ph.cycleSizeBytes :=
      Nat.div_lt_div_of_lt_of_dvd (h.whole h1) hx
    exact turn_lt hc (segment_width hs)

theorem at_inj {x y j r : ℕ} (hx : At su ph x j r) (hy : At su ph y j r) : x = y := by
  obtain ⟨_, hx⟩ := hx
  obtain ⟨_, hy⟩ := hy
  by_cases h1 : ph.activeCount = 1
  · simp only [h1, ite_true] at hx hy
    omega
  · simp only [h1, ite_false] at hx hy
    obtain ⟨hsx, hrx⟩ := hx
    obtain ⟨hsy, hry⟩ := hy
    obtain ⟨hc, ho⟩ := turn_unique (segment_width hsx) (segment_width hsy) (hrx.symm.trans hry)
    have hlx := hsx.1
    have hly := hsy.1
    have hmod : x % ph.cycleSizeBytes = y % ph.cycleSizeBytes := by omega
    rw [← Nat.div_add_mod x ph.cycleSizeBytes, ← Nat.div_add_mod y ph.cycleSizeBytes, hc, hmod]

/-- The bytes up to the end of the segment follow in the same lane. -/
theorem at_next {x j r : ℕ} (i : ℕ) (h : PhaseOk su n ph) (ha : At su ph x j r)
    (hi : ph.activeCount ≠ 1 →
      x % ph.cycleSizeBytes + i < (before ph.ratios j + ph.ratios j) * su) :
    At su ph (x + i) j (r + i) := by
  obtain ⟨hj, ha⟩ := ha
  refine ⟨hj, ?_⟩
  by_cases h1 : ph.activeCount = 1
  · simp only [h1, ite_true] at ha ⊢
    omega
  · simp only [h1, ite_false] at ha ⊢
    obtain ⟨hs, rfl⟩ := ha
    have hlo := hs.1
    have hlt := hi h1
    have hend : (before ph.ratios j + ph.ratios j) * su ≤ ph.cycleSizeBytes := by
      rw [h.cycle, ← before_succ]
      exact Nat.mul_le_mul_right su (before_mono _ hj)
    have hsplit : x + i = ph.cycleSizeBytes * (x / ph.cycleSizeBytes) +
        (x % ph.cycleSizeBytes + i) := by
      have hd := Nat.div_add_mod x ph.cycleSizeBytes
      omega
    have hin : x % ph.cycleSizeBytes + i < ph.cycleSizeBytes := by omega
    have hdiv : (x + i) / ph.cycleSizeBytes = x / ph.cycleSizeBytes := by
      rw [hsplit, Nat.mul_add_div (h.cycle_pos h1), Nat.div_eq_of_lt hin, Nat.add_zero]
    have hmod : (x + i) % ph.cycleSizeBytes = x % ph.cycleSizeBytes + i := by
      rw [hsplit, Nat.mul_add_mod, Nat.mod_eq_of_lt hin]
    rw [hdiv, hmod]
    exact ⟨⟨by omega, hlt⟩, by omega⟩

/-- No product in the segment search overflows. -/
theorem PhaseOk.unit_lt (h : PhaseOk su n ph) (hu : su < 2^32) {j k : ℕ} (hj : j < ph.activeCount)
    (hk : k ≤ before ph.ratios j + ph.ratios j) : k * su < 2^40 := by
  have hb := h.before_le hj
  have hm : k * su ≤ 128 * su := Nat.mul_le_mul_right su (hk.trans hb)
  omega

theorem findSegment_eq (h : PhaseOk su n ph) (hu : su < 2^32) {x j : ℕ} (hj : j < ph.activeCount)
    (hs : InSegment ph.ratios su x j) (k i : ℕ) (hi : i ≤ j) (hk : j < i + k) :
    findSegment ph su x k i (before ph.ratios i) = some (j, before ph.ratios j) := by
  induction k generalizing i with
  | zero => omega
  | succ k ih =>
    have hia : i < ph.activeCount := by omega
    have h1 := h.unit_lt hu hia (Nat.le_add_right _ _)
    have h2 := h.unit_lt hu hia (Nat.le_refl _)
    have hb := h.before_le hia
    unfold findSegment
    rw [u64_of_lt (by omega), u64_of_lt (by omega), u32_of_lt (by omega), ← before_succ]
    split
    · next hc =>
      have hij : i = j := segment_unique ⟨hc.1, by rw [← before_succ]; exact hc.2⟩ hs
      rw [hij]
    · next hc =>
      have hij : i ≠ j := by
        rintro rfl
        exact hc ⟨hs.1, by rw [before_succ]; exact hs.2⟩
      exact ih (i + 1) (by omega) (by omega)

theorem findSegmentOf_eq (h : PhaseOk su n ph) (hu : su < 2^32) {x j : ℕ} (hj : j < ph.activeCount)
    (hs : InSegment ph.ratios su x j) (k i : ℕ) (hi : i ≤ j) (hk : j < i + k) :
    findSegmentOf ph su (ph.activeDiskIndices j) x k i (before ph.ratios i) =
      (j, before ph.ratios j) := by
  induction k generalizing i with
  | zero => omega
  | succ k ih =>
    have hia : i < ph.activeCount := by omega
    have h1 := h.unit_lt hu hia (Nat.le_add_right _ _)
    have h2 := h.unit_lt hu hia (Nat.le_refl _)
    have hb := h.before_le hia
    unfold findSegmentOf
    rw [u64_of_lt (by omega), u64_of_lt (by omega), u32_of_lt (by omega), ← before_succ]
    split
    · next hc =>
      have hij : i = j := segment_unique ⟨hc.2.1, by rw [← before_succ]; exact hc.2.2⟩ hs
      rw [hij]
    · next hc =>
      have hij : i ≠ j := by
        rintro rfl
        exact hc ⟨rfl, hs.1, by rw [before_succ]; exact hs.2⟩
      exact ih (i + 1) (by omega) (by omega)

theorem mapInPhase_eq (h : PhaseOk su n ph) (hu : su < 2^32) {x j r : ℕ}
    (hx : x < ph.virtualSizeBytes) (ha : At su ph x j r) :
    mapInPhase ph su x = some (ph.activeDiskIndices j, ph.physicalStartsBytes j + r) := by
  have hl := at_lane h hx ha
  obtain ⟨hj, ha⟩ := ha
  have hr := h.room j hj
  unfold mapInPhase
  by_cases h1 : ph.activeCount = 1
  · simp only [h1, ite_true] at ha ⊢
    have hj0 : j = 0 := by omega
    subst hj0 ha
    rw [u64_of_lt (by omega)]
  · simp only [h1, ite_false] at ha ⊢
    obtain ⟨hs, hre⟩ := ha
    have h2 := h.unit_lt hu hj (Nat.le_add_right _ _)
    have hf := findSegment_eq h hu hj hs ph.activeCount 0 (Nat.zero_le _) (by omega)
    rw [before_zero] at hf
    simp only [hf]
    rw [u64_of_lt (n := before ph.ratios j * su) (by omega), Nat.mul_assoc, Nat.add_assoc, ← hre,
      u64_of_lt (by omega)]

end Phase

/-! ### Places on a volume -/

section Volume
variable {v : StripeVolume}

/-- Virtual byte `vo` is byte `vo - start` of phase `p`. -/
def InPhase (v : StripeVolume) (vo p : ℕ) : Prop :=
  p < v.phaseCount ∧ (v.phases p).virtualStartBytes ≤ vo ∧
    vo < (v.phases p).virtualStartBytes + (v.phases p).virtualSizeBytes

theorem Laid.phaseOk (h : Laid v) {p : ℕ} (hp : p < v.phaseCount) :
    PhaseOk v.stripeUnit v.diskCount (v.phases p) := h.phases.phase p hp

theorem Laid.start (h : Laid v) {p : ℕ} (hp : p < v.phaseCount) :
    (v.phases p).virtualStartBytes = before (sizes v.phases) p := h.phases.starts p hp

theorem Laid.total_le (h : Laid v) : v.virtualTotalBytes ≤ 2^60 := by
  have hb := h.phases.bounded
  have hc := h.count
  omega

theorem Laid.inSegment (h : Laid v) {vo p : ℕ} (hp : InPhase v vo p) :
    InSegment (sizes v.phases) 1 vo p := by
  obtain ⟨hlt, h1, h2⟩ := hp
  rw [h.start hlt] at h1 h2
  simp only [InSegment, Nat.mul_one]
  exact ⟨h1, h2⟩

theorem Laid.inPhase_exists (h : Laid v) {vo : ℕ} (hvo : vo < v.virtualTotalBytes) :
    ∃ p, InPhase v vo p := by
  have ht := h.phases.total
  obtain ⟨p, hp, hs⟩ := segment_exists (sizes v.phases) 1 vo v.phaseCount (by omega)
  simp only [InSegment, Nat.mul_one, sizes] at hs
  refine ⟨p, hp, ?_, ?_⟩ <;> rw [h.start hp]
  · exact hs.1
  · exact hs.2

theorem Laid.inPhase_unique (h : Laid v) {vo p q : ℕ} (hp : InPhase v vo p) (hq : InPhase v vo q) :
    p = q := segment_unique (h.inSegment hp) (h.inSegment hq)

theorem Laid.inPhase_lt (h : Laid v) {vo p : ℕ} (hp : InPhase v vo p) :
    vo < v.virtualTotalBytes := by
  have hs := (h.inSegment hp).2
  have hm := before_mono (sizes v.phases) (Nat.succ_le_of_lt hp.1)
  have ht := h.phases.total
  rw [Nat.succ_eq_add_one, before_succ] at hm
  omega

theorem Laid.end_le (h : Laid v) {p : ℕ} (hp : p < v.phaseCount) :
    (v.phases p).virtualStartBytes + (v.phases p).virtualSizeBytes ≤ v.virtualTotalBytes := by
  have hm := before_mono (sizes v.phases) (Nat.succ_le_of_lt hp)
  rw [Nat.succ_eq_add_one, before_succ, ← h.phases.total, ← h.start hp] at hm
  exact hm

theorem mapPhases_eq (h : Laid v) {vo p : ℕ} (hp : InPhase v vo p) {loc : ℕ × ℕ}
    (hloc : mapInPhase (v.phases p) v.stripeUnit (vo - (v.phases p).virtualStartBytes) = some loc)
    (k i : ℕ) (hi : i ≤ p) (hk : p < i + k) (hc : i + k = v.phaseCount) :
    mapPhases v vo k i = some loc := by
  induction k generalizing i with
  | zero => omega
  | succ k ih =>
    have hic : i < v.phaseCount := by omega
    have hend := h.end_le hic
    have ht := h.total_le
    unfold mapPhases
    simp only
    rw [u64_of_lt (by omega)]
    split
    · next hout =>
      have hip : i ≠ p := by
        rintro rfl
        have h1 := hp.2.1
        have h2 := hp.2.2
        omega
      exact ih (i + 1) (by omega) (by omega) (by omega)
    · next hin =>
      have hip : i = p := h.inPhase_unique ⟨hic, by omega, by omega⟩ hp
      rw [hip, hloc]

/-- Where the byte in phase `p` at lane place `r` of slot `j` goes. -/
theorem mapSingleByte_eq (h : Laid v) {vo p j r : ℕ} (hp : InPhase v vo p)
    (ha : At v.stripeUnit (v.phases p) (vo - (v.phases p).virtualStartBytes) j r) :
    mapSingleByte v vo =
      some ((v.phases p).activeDiskIndices j, (v.phases p).physicalStartsBytes j + r) := by
  have hlt := h.inPhase_lt hp
  obtain ⟨hpc, h1, h2⟩ := hp
  have hm := mapInPhase_eq (h.phaseOk hpc) h.unitLt (by omega) ha
  unfold mapSingleByte
  rw [if_neg (by omega)]
  exact mapPhases_eq h ⟨hpc, h1, h2⟩ hm v.phaseCount 0 (Nat.zero_le _) (by omega) (by omega)

theorem Laid.place_exists (h : Laid v) {vo : ℕ} (hvo : vo < v.virtualTotalBytes) :
    ∃ p j r, InPhase v vo p ∧
      At v.stripeUnit (v.phases p) (vo - (v.phases p).virtualStartBytes) j r := by
  obtain ⟨p, hp⟩ := h.inPhase_exists hvo
  obtain ⟨j, r, ha⟩ := at_exists (h.phaseOk hp.1) (vo - (v.phases p).virtualStartBytes)
  exact ⟨p, j, r, hp, ha⟩

theorem mapSingleByte_isSome (h : Laid v) {vo : ℕ} (hvo : vo < v.virtualTotalBytes) :
    ∃ di po, mapSingleByte v vo = some (di, po) := by
  obtain ⟨p, j, r, hp, ha⟩ := h.place_exists hvo
  exact ⟨_, _, mapSingleByte_eq h hp ha⟩

/-- Distinct virtual bytes never share a pool byte. -/
theorem mapSingleByte_inj (h : Laid v) {x y : ℕ} {loc : ℕ × ℕ} (hx : mapSingleByte v x = some loc)
    (hy : mapSingleByte v y = some loc) : x = y := by
  have hlt : ∀ z, mapSingleByte v z = some loc → z < v.virtualTotalBytes := by
    intro z hz
    by_contra hge
    rw [mapSingleByte, if_pos (by omega)] at hz
    cases hz
  obtain ⟨p, i, r, hp, hpa⟩ := h.place_exists (hlt x hx)
  obtain ⟨q, j, s, hq, hqa⟩ := h.place_exists (hlt y hy)
  have he := (mapSingleByte_eq h hp hpa).symm.trans (hx.trans (hy.symm.trans (mapSingleByte_eq h hq hqa)))
  obtain ⟨hdi, hpo⟩ := Prod.mk.inj (Option.some.inj he)
  have hx2 := hp.2
  have hy2 := hq.2
  have hrl := at_lane (h.phaseOk hp.1) (by omega) hpa
  have hsl := at_lane (h.phaseOk hq.1) (by omega) hqa
  rcases Nat.lt_trichotomy p q with hlt | rfl | hlt
  · have hap := h.phases.apart q hq.1 p hlt i hpa.1 j hqa.1 hdi
    omega
  · have hij := (h.phaseOk hp.1).distinct i hpa.1 j hqa.1 hdi
    subst hij
    have hrs : r = s := by omega
    subst hrs
    have hin := at_inj hpa hqa
    omega
  · have hap := h.phases.apart p hp.1 q hlt j hqa.1 i hpa.1 hdi.symm
    omega

/-- The phase a request is in is the one the single-byte search finds. -/
theorem currentPhase_eq (h : Laid v) {vo p : ℕ} (hp : InPhase v vo p) :
    currentPhase v vo = v.phases p := by
  have hstart : ∀ q < v.phaseCount, (vo ≥ (v.phases q).virtualStartBytes ↔ q ≤ p) := by
    intro q hq
    have hs := h.inSegment hp
    simp only [InSegment, Nat.mul_one] at hs
    rw [h.start hq]
    constructor
    · intro hge
      by_contra hlt
      have hm := before_mono (sizes v.phases) (show p + 1 ≤ q by omega)
      rw [before_succ] at hm
      omega
    · intro hle
      exact (before_mono (sizes v.phases) hle).trans hs.1
  have hfold : ∀ n, n < v.phaseCount → (List.range' 1 n).foldl
      (fun c q => if vo ≥ (v.phases q).virtualStartBytes then q else c) 0 = min p n := by
    intro n hn
    induction n with
    | zero => simp
    | succ n ih =>
      rw [List.range'_concat, List.foldl_append, ih (by omega)]
      simp only [List.foldl_cons, List.foldl_nil, Nat.one_mul]
      have hs := hstart (1 + n) (by omega)
      by_cases hle : 1 + n ≤ p
      · rw [if_pos (hs.mpr hle)]
        omega
      · rw [if_neg (fun hge => hle (hs.mp hge))]
        omega
  have hpc := hp.1
  unfold currentPhase
  rw [hfold (v.phaseCount - 1) (by omega), show min p (v.phaseCount - 1) = p by omega]

end Volume

end RaidTest.Stripe
