import RaidTest.Base.Runs
import RaidTest.Base.Spacing
import RaidTest.Stripe.FlatArray
import RaidTest.Stripe.Packing

/-!
# The entries of a request (`stripe_volume_map_lba`)

The entries spell the cells that the single bytes of the request are mapped to, and there is
one entry for every run of cells. The array they are copied into when they are submitted has
room for `IO_RING_SIZE` of them.
-/

namespace RaidTest.Stripe
open RaidTest.Base

/-! ### The entries spell the request -/

def entryCells (e : IoMappingEntry) : List (ℕ × ℕ) := cellsOf e.diskIndex e.physicalOffset e.lengthBytes

/-- Where `n` bytes from `vo` on are mapped to. -/
def mappedCells (v : StripeVolume) (vo n : ℕ) : List (ℕ × ℕ) :=
  (List.range' vo n).map fun x => (mapSingleByte v x).getD (0, 0)

theorem mappedCells_append (v : StripeVolume) (vo m n : ℕ) :
    mappedCells v vo (m + n) = mappedCells v vo m ++ mappedCells v (vo + m) n := by
  unfold mappedCells
  rw [← List.map_append, List.range'_append_1]

theorem mappedCells_eq {v : StripeVolume} {di n : ℕ} :
    ∀ {vo po : ℕ}, (∀ i < n, mapSingleByte v (vo + i) = some (di, po + i)) → mappedCells v vo n = cellsOf di po n := by
  unfold mappedCells
  induction n with
  | zero => intro vo po _; rfl
  | succ n ih =>
    intro vo po h
    have h0 := h 0 (Nat.succ_pos n)
    rw [Nat.add_zero, Nat.add_zero] at h0
    rw [List.range'_succ, List.map_cons, cellsOf, h0, Option.getD_some]
    congr 1
    apply ih
    intro i hi
    rw [Nat.add_assoc, Nat.add_comm 1, h (i + 1) (Nat.succ_lt_succ hi), Nat.add_assoc, Nat.add_comm 1]

/-- The entries collected so far, last one first, spell the bytes from `a` to `vo`. -/
structure Spelled (v : StripeVolume) (a vo : ℕ) (acc : List IoMappingEntry) : Prop where
  le : a ≤ vo
  cells : acc.reverse.flatMap entryCells = mappedCells v a (vo - a)
  count : acc.length = runCount (mappedCells v a (vo - a))
  pos : ∀ e ∈ acc, 0 < e.lengthBytes
  inPool : ∀ e ∈ acc, e.physicalOffset + e.lengthBytes ≤ 2^56

section Push

variable {v : StripeVolume} {a vo di po n : ℕ}
  (hgrow : mappedCells v a (vo + (n + 1) - a) = mappedCells v a (vo - a) ++ cellsOf di po (n + 1))
include hgrow

theorem Spelled.first (h : Spelled v a vo []) (hpool : po + (n + 1) ≤ 2^56) :
    Spelled v a (vo + (n + 1)) [⟨di, po, n + 1⟩] := by
  have hle := h.le
  have hnone := h.cells.symm
  rw [List.reverse_nil, List.flatMap_nil] at hnone
  rw [hnone, List.nil_append] at hgrow
  constructor
  · omega
  · rw [hgrow, List.reverse_singleton, List.flatMap_singleton]
    rfl
  · rw [hgrow, runCount_cells]
    rfl
  · intro e he
    rw [List.mem_singleton.mp he]
    exact Nat.succ_pos n
  · intro e he
    rw [List.mem_singleton.mp he]
    exact hpool

variable {e : IoMappingEntry} {es : List IoMappingEntry} (h : Spelled v a vo (e :: es))
include h

/-- Whether the pushed cells begin another run. -/
theorem Spelled.count_push : runCount (mappedCells v a (vo + (n + 1) - a)) =
    es.length + 1 + if Joins (e.diskIndex, e.physicalOffset + (e.lengthBytes - 1)) (di, po) then 0 else 1 := by
  have hpos := h.pos e (List.mem_cons_self ..)
  have hcells := h.cells
  rw [List.reverse_cons, List.flatMap_append, List.flatMap_singleton] at hcells
  have hne : mappedCells v a (vo - a) ≠ [] := by
    intro hnil
    have hl := congrArg List.length hcells
    rw [hnil, List.length_append, entryCells, cellsOf_length, List.length_nil] at hl
    omega
  have hlast : (mappedCells v a (vo - a)).getLastD (0, 0) = (e.diskIndex, e.physicalOffset + (e.lengthBytes - 1)) := by
    obtain ⟨m, hm⟩ := Nat.exists_eq_add_of_lt hpos
    rw [Nat.zero_add] at hm
    rw [← hcells, entryCells, hm, Nat.add_sub_cancel, append_cellsOf_last]
  have hcount := runCount_append hne (0, 0) di po n
  rw [hlast, ← hgrow, ← h.count] at hcount
  exact hcount

/-- The last entry goes on. -/
theorem Spelled.merge (hpool : po + (n + 1) ≤ 2^56) (hd : e.diskIndex = di) (hp : e.physicalOffset + e.lengthBytes = po) :
    Spelled v a (vo + (n + 1)) ({ e with lengthBytes := e.lengthBytes + (n + 1) } :: es) := by
  have hle := h.le
  have hpos := h.pos e (List.mem_cons_self ..)
  have hjoin : Joins (e.diskIndex, e.physicalOffset + (e.lengthBytes - 1)) (di, po) := by
    refine ⟨hd, ?_⟩
    simp only
    omega
  have hcount := Spelled.count_push hgrow h
  rw [if_pos hjoin, Nat.add_zero] at hcount
  have hcells := h.cells
  rw [List.reverse_cons, List.flatMap_append, List.flatMap_singleton] at hcells
  constructor
  · omega
  · rw [hgrow, ← hcells, List.reverse_cons, List.flatMap_append, List.flatMap_singleton, List.append_assoc, ← hd, ← hp,
      entryCells, entryCells, ← cellsOf_append]
  · rw [hcount]
    rfl
  · intro x hx
    rcases List.mem_cons.mp hx with rfl | hm
    · exact Nat.lt_of_lt_of_le hpos (Nat.le_add_right _ _)
    · exact h.pos x (List.mem_cons_of_mem _ hm)
  · intro x hx
    rcases List.mem_cons.mp hx with rfl | hm
    · simp only
      omega
    · exact h.inPool x (List.mem_cons_of_mem _ hm)

theorem Spelled.begin (hpool : po + (n + 1) ≤ 2^56) (hnew : ¬ (e.diskIndex = di ∧ e.physicalOffset + e.lengthBytes = po)) :
    Spelled v a (vo + (n + 1)) (⟨di, po, n + 1⟩ :: e :: es) := by
  have hle := h.le
  have hpos := h.pos e (List.mem_cons_self ..)
  have hjoin : ¬ Joins (e.diskIndex, e.physicalOffset + (e.lengthBytes - 1)) (di, po) := by
    rintro ⟨hd, hp⟩
    apply hnew
    refine ⟨hd, ?_⟩
    simp only at hp
    omega
  have hcount := Spelled.count_push hgrow h
  rw [if_neg hjoin] at hcount
  have hcells := h.cells
  constructor
  · omega
  · rw [hgrow, ← hcells, List.reverse_cons, List.flatMap_append, List.flatMap_singleton]
    rfl
  · rw [hcount]
    rfl
  · intro x hx
    rcases List.mem_cons.mp hx with rfl | hm
    · exact Nat.succ_pos n
    · exact h.pos x hm
  · intro x hx
    rcases List.mem_cons.mp hx with rfl | hm
    · exact hpool
    · exact h.inPool x hm

end Push

theorem Spelled.push {v : StripeVolume} {a vo di po c : ℕ} {acc : List IoMappingEntry} (h : Spelled v a vo acc)
    (hlen : vo + c < a + 2^32) (hpool : po + c ≤ 2^56) (hpos : 0 < c)
    (hc : ∀ i < c, mapSingleByte v (vo + i) = some (di, po + i)) : Spelled v a (vo + c) (pushEntry acc di po c) := by
  have hle := h.le
  have hu : u32 c = c := u32_of_lt (by omega)
  obtain ⟨n, rfl⟩ := Nat.exists_eq_add_of_lt hpos
  rw [Nat.zero_add] at *
  have hgrow : mappedCells v a (vo + (n + 1) - a) = mappedCells v a (vo - a) ++ cellsOf di po (n + 1) := by
    rw [Nat.sub_add_comm hle, mappedCells_append, Nat.add_sub_cancel' hle, mappedCells_eq hc]
  cases acc with
  | nil =>
    simp only [pushEntry, hu]
    exact Spelled.first hgrow h hpool
  | cons e es =>
    have hpe := h.inPool e (List.mem_cons_self ..)
    simp only [pushEntry, hu]
    rw [u64_of_lt (by omega)]
    split
    · next hmerge =>
      have hshort : e.lengthBytes ≤ vo - a := by
        have hl := congrArg List.length h.cells
        rw [List.reverse_cons, List.flatMap_append, List.flatMap_singleton, List.length_append, entryCells, cellsOf_length,
          mappedCells, List.length_map, List.length_range'] at hl
        omega
      rw [u32_of_lt (by omega)]
      exact Spelled.merge hgrow h hpool hmerge.1 hmerge.2
    · next hnew => exact Spelled.begin hgrow h hpool hnew

theorem mapLbaLoop_spells {v : StripeVolume} (h : Laid v) {a : ℕ} (fuel : ℕ) :
    ∀ {vo remaining : ℕ} {acc es : List IoMappingEntry}, Spelled v a vo acc →
      vo + remaining ≤ v.virtualTotalBytes → vo + remaining < a + 2^32 →
      mapLbaLoop v fuel vo remaining acc = some es → ∃ l, es = l.reverse ∧ Spelled v a (vo + remaining) l := by
  induction fuel with
  | zero => intro vo remaining acc es _ _ _ hs; cases hs
  | succ fuel ih =>
    intro vo remaining acc es ht hend hlen hs
    have htot := h.total_le
    unfold mapLbaLoop at hs
    split at hs
    · next hg =>
      cases hm : mapSingleByte v vo with
      | none => rw [hm] at hs; cases hs
      | some loc =>
        obtain ⟨di, po⟩ := loc
        obtain ⟨hc0, hcr, hpool, _, hall⟩ := mapChunk_spec h hg.1 hend hm
        have hle := ht.le
        simp only [hm] at hs
        generalize mapChunk v vo di remaining = c at hc0 hcr hpool hall hs
        rw [u64_of_lt (by omega), u32_of_lt (by omega)] at hs
        obtain ⟨l, hl, htl⟩ := ih (ht.push (by omega) hpool hc0 hall) (by omega) (by omega) hs
        rw [show vo + c + (remaining - c) = vo + remaining by omega] at htl
        exact ⟨l, hl, htl⟩
    · split at hs
      · next h0 => exact ⟨acc, (Option.some.inj hs).symm, by rw [h0]; exact ht⟩
      · cases hs

/-- A request is cut off at the end of the volume. -/
def clipped (v : StripeVolume) (vo length : ℕ) : ℕ := min length (v.virtualTotalBytes - vo)

theorem mapLba_loop {v : StripeVolume} (h : Laid v) {vo len : ℕ} (hlen : len < 2^32) (hpos : 0 < len)
    (hvo : vo < v.virtualTotalBytes) : mapLba v vo len = mapLbaLoop v (len + 1) vo (clipped v vo len) [] := by
  have htot := h.total_le
  unfold mapLba clipped
  rw [if_neg (by omega), u64_of_lt (by omega)]
  simp only
  congr 1
  split <;> omega

/-- The entries of a request, one for every run of its cells. -/
theorem mapLba_spells {v : StripeVolume} (h : Laid v) {vo len : ℕ} {es : List IoMappingEntry} (hlen : len < 2^32)
    (hs : mapLba v vo len = some es) : (∀ e ∈ es, 0 < e.lengthBytes) ∧
      es.flatMap entryCells = mappedCells v vo (clipped v vo len) ∧
      es.length = runCount (mappedCells v vo (clipped v vo len)) := by
  obtain ⟨hpos, hvo, _, _⟩ := mapLba_spec h hlen hs
  rw [mapLba_loop h hlen hpos hvo] at hs
  have hstart : Spelled v vo vo [] := by
    refine ⟨Nat.le_refl _, ?_, ?_, fun e he => absurd he List.not_mem_nil, fun e he => absurd he List.not_mem_nil⟩
    · rw [Nat.sub_self]
      rfl
    · rw [Nat.sub_self]
      rfl
  have hclip : clipped v vo len ≤ len ∧ clipped v vo len ≤ v.virtualTotalBytes - vo := by
    unfold clipped
    omega
  obtain ⟨l, rfl, hl⟩ := mapLbaLoop_spells h _ hstart (by omega) (by omega) hs
  have hcells := hl.cells
  have hcount := hl.count
  rw [Nat.add_sub_cancel_left] at hcells hcount
  refine ⟨fun e he => hl.pos e (List.mem_reverse.mp he), hcells, ?_⟩
  rw [List.length_reverse, hcount]

/-! ### Segments -/

/-- A phase or, in a phase over several disks, the turn of a disk begins with byte `x`. -/
def SegmentStart (v : StripeVolume) (x : ℕ) : Prop :=
  ∃ p < v.phaseCount, (v.phases p).virtualStartBytes ≤ x ∧
    x < (v.phases p).virtualStartBytes + (v.phases p).virtualSizeBytes ∧
    (x = (v.phases p).virtualStartBytes ∨ (v.phases p).activeCount ≠ 1 ∧ ∃ j < (v.phases p).activeCount,
      (x - (v.phases p).virtualStartBytes) % (v.phases p).cycleSizeBytes = before (v.phases p).ratios j * v.stripeUnit)

instance (v : StripeVolume) (x : ℕ) : Decidable (SegmentStart v x) := inferInstanceAs (Decidable (∃ p < _, _))

/-- The segments that `n > 0` bytes from `vo` on lie in. -/
def segmentsCrossed (v : StripeVolume) (vo n : ℕ) : ℕ :=
  1 + (List.range' (vo + 1) (n - 1)).countP fun x => decide (SegmentStart v x)

theorem segmentsCrossed_split {v : StripeVolume} {vo c n : ℕ} (hc : 0 < c) (hn : c < n) (h : SegmentStart v (vo + c)) :
    1 + segmentsCrossed v (vo + c) (n - c) ≤ segmentsCrossed v vo n := by
  have hsplit : List.range' (vo + 1) (n - 1) =
      List.range' (vo + 1) (c - 1) ++ (vo + c) :: List.range' (vo + c + 1) (n - c - 1) := by
    rw [← List.range'_succ, show n - c - 1 + 1 = n - c by omega, show vo + c = vo + 1 + (c - 1) by omega,
      List.range'_append_1, show c - 1 + (n - c) = n - 1 by omega]
  unfold segmentsCrossed
  rw [hsplit, List.countP_append, List.countP_cons, if_pos (decide_eq_true h)]
  omega

/-- A run that does not end the request ends a segment. -/
theorem mapChunk_segment {v : StripeVolume} (h : Laid v) {vo remaining di po : ℕ}
    (hend : vo + remaining ≤ v.virtualTotalBytes) (hs : mapSingleByte v vo = some (di, po))
    (hlt : mapChunk v vo di remaining < remaining) : SegmentStart v (vo + mapChunk v vo di remaining) := by
  obtain ⟨p, j, r, hp, ha⟩ := h.place_exists (show vo < v.virtualTotalBytes by omega)
  have hm := mapSingleByte_eq h hp ha
  rw [hs] at hm
  obtain ⟨rfl, rfl⟩ := Prod.mk.inj (Option.some.inj hm)
  have hbound := mapChunk_eq remaining h hp ha
  generalize mapChunk v vo ((v.phases p).activeDiskIndices j) remaining = c at hbound hlt ⊢
  have hok := h.phaseOk hp.1
  have hlo := hp.2.1
  have hhi := hp.2.2
  by_cases hphase : vo + c = (v.phases p).virtualStartBytes + (v.phases p).virtualSizeBytes
  · -- the next phase begins
    obtain ⟨q, hq⟩ := h.inPhase_exists (show vo + c < v.virtualTotalBytes by omega)
    refine ⟨q, hq.1, hq.2.1, hq.2.2, Or.inl ?_⟩
    have hpq := h.inSegment hq
    have hsp := h.start hp.1
    have hsq := h.start hq.1
    have hlt : p < q := by
      by_contra hge
      have hmono := before_mono (sizes v.phases) (show q + 1 ≤ p + 1 by omega)
      rw [before_succ, before_succ] at hmono
      have h2 := hpq.2
      simp only [Nat.mul_one] at h2
      simp only [sizes] at hmono h2
      omega
    have hmono := before_mono (sizes v.phases) (show p + 1 ≤ q by omega)
    rw [before_succ] at hmono
    have h2 := hq.2.1
    simp only [sizes] at hmono
    rw [hsp] at hphase
    rw [hsq] at h2 ⊢
    omega
  · by_cases h1 : (v.phases p).activeCount = 1
    · rw [if_pos h1] at hbound
      omega
    · rw [if_neg h1] at hbound
      obtain ⟨hj, ha⟩ := ha
      rw [if_neg h1] at ha
      have hseg := ha.1.2
      have hcycle := hok.cycle_pos h1
      generalize hx : vo - (v.phases p).virtualStartBytes = x at hbound ha hseg
      have hc : x % (v.phases p).cycleSizeBytes + c =
          before (v.phases p).ratios (j + 1) * v.stripeUnit := by
        rw [before_succ]
        omega
      have hin : before (v.phases p).ratios (j + 1) * v.stripeUnit ≤ (v.phases p).cycleSizeBytes := by
        rw [hok.cycle]
        exact Nat.mul_le_mul_right _ (before_mono _ hj)
      have hsum : vo + c - (v.phases p).virtualStartBytes = (v.phases p).cycleSizeBytes * (x / (v.phases p).cycleSizeBytes) +
          before (v.phases p).ratios (j + 1) * v.stripeUnit := by
        have hd := Nat.div_add_mod x (v.phases p).cycleSizeBytes
        omega
      refine ⟨p, hp.1, by omega, by omega, Or.inr ⟨h1, ?_⟩⟩
      rw [hsum, Nat.mul_add_mod]
      by_cases hwrap : before (v.phases p).ratios (j + 1) * v.stripeUnit < (v.phases p).cycleSizeBytes
      · have hnext : j + 1 < (v.phases p).activeCount := by
          have hne : j + 1 ≠ (v.phases p).activeCount := by
            intro he
            rw [he, ← hok.cycle] at hwrap
            omega
          omega
        exact ⟨j + 1, hnext, Nat.mod_eq_of_lt hwrap⟩
      · have hfull : before (v.phases p).ratios (j + 1) * v.stripeUnit = (v.phases p).cycleSizeBytes := by omega
        refine ⟨0, hok.active, ?_⟩
        rw [hfull, Nat.mod_self, before_zero, Nat.zero_mul]

theorem pushEntry_length (acc : List IoMappingEntry) (di po c : ℕ) :
    (pushEntry acc di po c).length ≤ acc.length + 1 := by
  unfold pushEntry
  cases acc with
  | nil => exact Nat.le_refl _
  | cons e es =>
    simp only
    split
    · exact Nat.le_succ _
    · exact Nat.le_refl _

theorem mapLbaLoop_some {v : StripeVolume} (h : Laid v) (fuel : ℕ) :
    ∀ {vo remaining : ℕ} (acc : List IoMappingEntry), vo + remaining ≤ v.virtualTotalBytes →
      remaining < 2^32 → remaining < fuel →
      (0 < remaining → acc.length + segmentsCrossed v vo remaining ≤ maxIoEntries) →
      (mapLbaLoop v fuel vo remaining acc).isSome = true := by
  induction fuel with
  | zero => intro vo remaining acc _ _ hf; omega
  | succ fuel ih =>
    intro vo remaining acc hend hlen hf hroom
    have htot := h.total_le
    unfold mapLbaLoop
    split
    · next hg =>
      obtain ⟨di, po, hm⟩ := mapSingleByte_isSome h (show vo < v.virtualTotalBytes by omega)
      obtain ⟨hc0, hcr, _, _, _⟩ := mapChunk_spec h hg.1 hend hm
      have hseg := mapChunk_segment h hend hm
      have hpush := pushEntry_length acc di po (mapChunk v vo di remaining)
      simp only [hm]
      generalize mapChunk v vo di remaining = c at hc0 hcr hseg hpush
      rw [u64_of_lt (by omega), u32_of_lt (by omega)]
      apply ih _ (by omega) (by omega) (by omega)
      intro hrest
      have hsplit := segmentsCrossed_split hc0 (show c < remaining by omega) (hseg (by omega))
      have := hroom hg.1
      omega
    · next hg =>
      have hzero : remaining = 0 := by
        by_contra hne
        have hcross : 1 ≤ segmentsCrossed v vo remaining := Nat.le_add_right _ _
        have := hroom (Nat.pos_of_ne_zero hne)
        exact hg ⟨Nat.pos_of_ne_zero hne, by omega⟩
      rw [if_pos hzero]
      rfl

/-- A phase and the turns of its disks begin whole units behind its start. -/
theorem SegmentStart.aligned {v : StripeVolume} (h : Laid v) {x : ℕ} (hs : SegmentStart v x) :
    ∃ p < v.phaseCount, (v.phases p).virtualStartBytes ≤ x ∧ v.stripeUnit ∣ x - (v.phases p).virtualStartBytes := by
  obtain ⟨p, hp, hlo, _, hstart⟩ := hs
  refine ⟨p, hp, hlo, ?_⟩
  rcases hstart with rfl | ⟨_, j, _, hj⟩
  · rw [Nat.sub_self]
    exact Nat.dvd_zero _
  · have hcycle : v.stripeUnit ∣ (v.phases p).cycleSizeBytes := by
      rw [(h.phaseOk hp).cycle]
      exact Nat.dvd_mul_left _ _
    refine (Nat.dvd_mod_iff hcycle).mp ?_
    rw [hj]
    exact Nat.dvd_mul_left _ _

/-- A request lies in few segments when it is not much longer than the stripe unit. -/
theorem segmentsCrossed_le {v : StripeVolume} (h : Laid v) (vo n : ℕ) :
    segmentsCrossed v vo n ≤ 1 + v.phaseCount * ((n - 1) / v.stripeUnit + 1) := by
  unfold segmentsCrossed
  refine Nat.add_le_add_left (Nat.le_trans (List.countP_mono_left fun x _ hx => ?_)
    (countP_exists_le (fun p x => (v.phases p).virtualStartBytes ≤ x ∧ v.stripeUnit ∣ x - (v.phases p).virtualStartBytes)
      (List.range' (vo + 1) (n - 1)) v.phaseCount fun p _ => countP_aligned h.unit _ _ _)) 1
  rw [decide_eq_true_eq] at hx ⊢
  exact hx.aligned h

/-- A request of at most 16 stripe units is mapped wherever it begins. -/
theorem mapLba_short {v : StripeVolume} (h : Laid v) {vo len : ℕ} (hpos : 0 < len) (hlen : len < 2^32)
    (hshort : len ≤ 16 * v.stripeUnit) (hvo : vo < v.virtualTotalBytes) : (mapLba v vo len).isSome = true := by
  have hclip : clipped v vo len ≤ len ∧ clipped v vo len ≤ v.virtualTotalBytes - vo := by
    unfold clipped
    omega
  rw [mapLba_loop h hlen hpos hvo]
  apply mapLbaLoop_some h _ [] (by omega) (by omega) (by omega)
  intro hc
  have hsegs := segmentsCrossed_le h vo (clipped v vo len)
  have hunits : (clipped v vo len - 1) / v.stripeUnit < 16 := by
    rw [Nat.div_lt_iff_lt_mul h.unit]
    omega
  have hcount : v.phaseCount * ((clipped v vo len - 1) / v.stripeUnit + 1) ≤ 4 * 16 :=
    Nat.mul_le_mul h.count hunits
  rw [List.length_nil, Nat.zero_add]
  refine Nat.le_trans hsegs (Nat.le_trans (Nat.add_le_add_left hcount 1) (by decide))

/-- The entries are positive, add up to the part of the request on the volume and spell where
its bytes are mapped to; and there are entries for a request that crosses at most
`MAX_IO_ENTRIES` segments. -/
theorem mapLba_exact (d : Disks) (disks : List DiskId) (su : ℕ) (more : List (Disks × List DiskId))
    {v : StripeVolume} (hu : 0 < su) (hlt : su < 2^32) (hpool : ∀ b ∈ grownPools d disks more, b ≤ 2^56)
    (h : growVolume d disks su more = some v) (vo len : ℕ) (hvo : vo < v.virtualTotalBytes) (hpos : 0 < len)
    (hlen : len < 2^32) :
    (∀ es, mapLba v vo len = some es → (∀ e ∈ es, 0 < e.lengthBytes) ∧
      (es.map IoMappingEntry.lengthBytes).sum = min len (v.virtualTotalBytes - vo) ∧
      (es.flatMap entryCells).map some =
        (List.range (min len (v.virtualTotalBytes - vo))).map fun k => mapSingleByte v (vo + k)) ∧
    (segmentsCrossed v vo (min len (v.virtualTotalBytes - vo)) ≤ maxIoEntries → (mapLba v vo len).isSome = true) := by
  obtain ⟨used, hp⟩ := growVolume_packed hu hlt hpool h
  have hlaid := hp.laid
  constructor
  · intro es hs
    obtain ⟨hpos, hcells, _⟩ := mapLba_spells hlaid hlen hs
    refine ⟨hpos, ?_, ?_⟩
    · have hl := congrArg List.length hcells
      rw [mappedCells, List.length_map, List.length_range', List.length_flatMap] at hl
      rw [← show clipped v vo len = min len (v.virtualTotalBytes - vo) from rfl, ← hl]
      congr 1
      apply List.map_congr_left
      intro e _
      exact (cellsOf_length ..).symm
    · rw [hcells, mappedCells, List.range'_eq_map_range, List.map_map, List.map_map]
      apply List.map_congr_left
      intro k hk
      have hk' := List.mem_range.mp hk
      unfold clipped at hk'
      obtain ⟨di, po, hm⟩ := mapSingleByte_isSome hlaid (show vo + k < v.virtualTotalBytes by omega)
      simp only [Function.comp_apply, hm, Option.getD_some]
  · intro hsegs
    rw [mapLba_loop hlaid hlen hpos hvo]
    have hclip : clipped v vo len ≤ len ∧ clipped v vo len ≤ v.virtualTotalBytes - vo := by
      unfold clipped
      omega
    apply mapLbaLoop_some hlaid _ [] (by omega) (by omega) (by omega)
    intro _
    rw [List.length_nil, Nat.zero_add]
    exact hsegs

theorem mapLba_exact_sample : (mapLba grownSample 300 1000).isSome = true :=
  (mapLba_exact sampleDisks [0, 1] 512 [(sampleDisks, [2])] (v := grownSample) (by decide) (by decide) (by decide) rfl
    300 1000 (by decide) (by decide) (by decide)).2 (by decide +kernel)

/-- Where the virtual size has wrapped round, the run is taken from the last phase and the cells
from the first one that fits. -/
theorem mapLba_exact_fails : ∃ v es k, growVolume hugeDisks [0, 1, 2] 1048576 [(hugeDisks, [3])] = some v ∧
    1048576 < v.virtualTotalBytes ∧ mapLba v 1048576 2097152 = some es ∧ k < 2097152 ∧
    (es.flatMap entryCells)[k]? ≠ mapSingleByte v (1048576 + k) := by
  refine ⟨_, [⟨1, 0, 2097152⟩], 1048576, rfl, ?_⟩
  rw [List.flatMap_singleton, entryCells, cellsOf_getElem? _ (by decide)]
  decide +kernel

/-! ### The staging array of `submit_entries` -/

/-- A segment begins with byte `x` and does not go on from the byte before it. -/
def Breaks (v : StripeVolume) (x : ℕ) : Prop :=
  SegmentStart v x ∧ ¬ Joins ((mapSingleByte v (x - 1)).getD (0, 0)) ((mapSingleByte v x).getD (0, 0))

instance (v : StripeVolume) (x : ℕ) : Decidable (Breaks v x) := inferInstanceAs (Decidable (_ ∧ _))

/-- The segments that `n > 0` bytes from `vo` on lie in; a phase that goes on from the last byte
of the one before it on the same disk begins no new one. -/
def segmentsStaged (v : StripeVolume) (vo n : ℕ) : ℕ :=
  1 + (List.range' (vo + 1) (n - 1)).countP fun x => decide (Breaks v x)

theorem breaks_iff {v : StripeVolume} (h : Laid v) {x : ℕ} (hx : x + 1 < v.virtualTotalBytes) :
    Breaks v (x + 1) ↔ ¬ Joins ((mapSingleByte v x).getD (0, 0)) ((mapSingleByte v (x + 1)).getD (0, 0)) := by
  constructor
  · intro hb
    exact hb.2
  · intro hjoin
    refine ⟨?_, hjoin⟩
    obtain ⟨di, po, hm⟩ := mapSingleByte_isSome h (show x < v.virtualTotalBytes by omega)
    obtain ⟨hc0, hcr, _, _, hall⟩ := mapChunk_spec h (show 0 < 2 by decide) (by omega) hm
    have hseg := mapChunk_segment h (show x + 2 ≤ v.virtualTotalBytes by omega) hm
    by_cases hc : mapChunk v x di 2 < 2
    · have hone : mapChunk v x di 2 = 1 := by omega
      rw [hone] at hseg
      exact hseg (by decide)
    · exfalso
      apply hjoin
      rw [hm, hall 1 (by omega)]
      exact ⟨rfl, rfl⟩

theorem runCount_mappedCells {v : StripeVolume} (h : Laid v) {vo n : ℕ} (hn : 0 < n)
    (hend : vo + n ≤ v.virtualTotalBytes) : runCount (mappedCells v vo n) = segmentsStaged v vo n := by
  obtain ⟨n, rfl⟩ := Nat.exists_eq_add_of_lt hn
  rw [Nat.zero_add] at *
  unfold mappedCells segmentsStaged
  rw [List.range'_succ, List.map_cons, runCount, runsFrom_range' fun x => (mapSingleByte v x).getD (0, 0),
    Nat.add_sub_cancel]
  congr 1
  apply List.countP_congr
  intro x hx
  obtain ⟨h1, h2⟩ := List.mem_range'_1.mp hx
  obtain ⟨y, rfl⟩ := Nat.exists_eq_add_of_le' (show 1 ≤ x by omega)
  rw [decide_eq_true_eq, decide_eq_true_eq, breaks_iff h (by omega), Nat.add_sub_cancel]

/-- The entries of a request fit into `se` when it lies in at most `IO_RING_SIZE` segments. -/
theorem mapLba_staged (d : Disks) (disks : List DiskId) (more : List (Disks × List DiskId)) {v : StripeVolume}
    (hpool : ∀ b ∈ grownPools d disks more, b ≤ 2^56) (h : growVolume d disks defaultStripeUnit more = some v)
    (vo len : ℕ) (hlen : len < 2^32) {es : List IoMappingEntry} (hs : mapLba v vo len = some es) :
    (∀ i < es.length, i < ioRingSize) ↔ segmentsStaged v vo (clipped v vo len) ≤ ioRingSize := by
  obtain ⟨used, hp⟩ := growVolume_packed (by decide) (by decide) hpool h
  obtain ⟨hpos, hvo, _, _⟩ := mapLba_spec hp.laid hlen hs
  obtain ⟨_, _, hcount⟩ := mapLba_spells hp.laid hlen hs
  have hclip : 0 < clipped v vo len ∧ vo + clipped v vo len ≤ v.virtualTotalBytes := by
    unfold clipped
    omega
  rw [← runCount_mappedCells hp.laid hclip.1 hclip.2, ← hcount]
  constructor
  · intro hi
    by_contra hlt
    exact Nat.lt_irrefl _ (hi ioRingSize (by omega))
  · intro hle i hi
    omega

/-- Two disks of 64 MiB and the same speed. -/
def evenDisks : Disks := ⟨fun _ => ⟨67108864, 100, 100, false, true, false, false, 0, true⟩, fun _ _ => 0⟩

/-- A chunk of 64 MiB that begins half a stripe unit into a segment ends in a 65th. -/
theorem mapLba_staged_fails : ∃ v es, growVolume evenDisks [0, 1] defaultStripeUnit [] = some v ∧
    mapLba v 524288 67108864 = some es ∧ ¬ ∀ i < es.length, i < ioRingSize := by
  refine ⟨_, _, rfl, rfl, ?_⟩
  decide +kernel

def evenSample : StripeVolume := (growVolume evenDisks [0, 1] defaultStripeUnit []).getD .zero

theorem mapLba_staged_sample :
    (∀ i < [IoMappingEntry.mk 0 1048575 1, ⟨1, 0, 99⟩].length, i < ioRingSize) ↔
      segmentsStaged evenSample 1048575 (clipped evenSample 1048575 100) ≤ ioRingSize :=
  mapLba_staged evenDisks [0, 1] [] (v := evenSample) (by decide) rfl 1048575 100 (by decide) rfl

end RaidTest.Stripe
