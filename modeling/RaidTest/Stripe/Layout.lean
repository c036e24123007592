import RaidTest.Common
import RaidTest.Base.Cycle

/-!
# Laying out a stripe volume (`stripe_volume_create`, `stripe_volume_expand`)

Disks of unequal size are filled in phases. A phase stripes over the disks that
still have room, each taking a number of stripe units a cycle in proportion to
its speed; a disk that cannot give another turn drops out. Creation and
expansion run the same loop, expansion over the new disks only.
-/

namespace RaidTest.Stripe
open RaidTest.Base

/-! ### Speed ratios -/

/-- `gcd_u32`; every turn lowers `b`, so `b + 1` turns are enough. -/
def gcdLoop : ℕ → ℕ → ℕ → ℕ
  | 0, a, _ => a
  | fuel + 1, a, b => if b = 0 then a else gcdLoop fuel b (a % b)

def gcdU32 (a b : ℕ) : ℕ := gcdLoop (b + 1) a b

theorem gcdLoop_eq (fuel a b : ℕ) (h : b < fuel) : gcdLoop fuel a b = Nat.gcd a b := by
  induction fuel generalizing a b with
  | zero => omega
  | succ fuel ih =>
    unfold gcdLoop
    split
    · next hb => rw [hb, Nat.gcd_zero_right]
    · next hb =>
      have hlt := Nat.mod_lt a (Nat.pos_of_ne_zero hb)
      rw [ih b (a % b) (by omega), Nat.gcd_comm b, ← Nat.gcd_rec, Nat.gcd_comm]

theorem gcdU32_eq (a b : ℕ) : gcdU32 a b = Nat.gcd a b := gcdLoop_eq _ _ _ (Nat.lt_succ_self b)

def maxRatio : ℕ := 32

def maxSpeed (speeds : ℕ → ℕ) (count : ℕ) : ℕ :=
  (List.range' 1 (count - 1)).foldl (fun m i => if speeds i > m then speeds i else m) (speeds 0)

def rawRatio (speeds : ℕ → ℕ) (m i : ℕ) : ℕ :=
  let raw := u32 ((speeds i * maxRatio + m / 2) / m)
  if raw = 0 then 1 else raw

/-- The divisor of all raw ratios. -/
def ratioGcd (raw : ℕ → ℕ) (count : ℕ) : ℕ :=
  let g := (List.range' 1 (count - 1)).foldl (fun g i => gcdU32 g (raw i)) (raw 0)
  if g = 0 then 1 else g

/-- `stripe_volume_normalize_ratios`: the ratios and their sum. -/
def normalizeRatios (speeds : ℕ → ℕ) (count : ℕ) : (ℕ → ℕ) × ℕ :=
  let m := maxSpeed speeds count
  if m = 0 then (fun _ => 1, count)
  else
    let raw := rawRatio speeds m
    let g := ratioGcd raw count
    (fun i => raw i / g, (List.range count).foldl (fun t i => u32 (t + raw i / g)) 0)

/-- The speed a disk is weighted by; an unmeasured disk counts as 100 MB/s. -/
def speedOf (d : DiskInfo) : ℕ :=
  let s := if d.benchmarked then d.benchWriteMbs else d.writeSpeedMbs
  if s = 0 then 100 else s

/-! ### The phase loop -/

/-- The variables of the loop: `rem` zips `remaining_indices` with `remaining_ratios`. -/
structure LayoutState where
  rem : List (ℕ × ℕ)
  remainingPhys : ℕ → ℕ
  usedPhys : ℕ → ℕ
  phaseCount : ℕ
  phases : ℕ → MappingPhase
  virtOffset : ℕ

def LayoutState.totalRatio (s : LayoutState) : ℕ := (s.rem.map Prod.snd).sum

/-- The phase over the remaining disks, `size` bytes long. Members are numbered from `base`. -/
def LayoutState.phase (s : LayoutState) (base su size : ℕ) : MappingPhase where
  activeCount := s.rem.length
  activeDiskIndices := fun i => base + (s.rem.getD i (0, 0)).1
  ratios := fun i => (s.rem.getD i (0, 0)).2
  totalRatio := s.totalRatio
  virtualStartBytes := s.virtOffset
  virtualSizeBytes := size
  physicalStartsBytes := fun i => s.usedPhys (s.rem.getD i (0, 0)).1
  cycleSizeBytes := s.totalRatio * su

/-- `min_remaining_virtual` and `min_idx` over the disks from number `i` on. -/
def minVirtual (phys : ℕ → ℕ) (total : ℕ) : ℕ → List (ℕ × ℕ) → ℕ × ℕ → ℕ × ℕ
  | _, [], best => best
  | i, (di, r) :: l, best =>
    let v := u64 (phys di * total) / r
    minVirtual phys total (i + 1) l (if v < best.1 then (v, i) else best)

/-- `used` of each remaining disk for `cycles` cycles, added to or taken from a table. -/
def LayoutState.take (s : LayoutState) (su cycles : ℕ) (rem : List (ℕ × ℕ)) : LayoutState :=
  { s with
    usedPhys := fun d => s.usedPhys d + ((rem.lookup d).getD 0) * cycles * su
    remainingPhys := fun d => s.remainingPhys d - ((rem.lookup d).getD 0) * cycles * su }

/-- One turn of the loop; `none` is `break`. -/
def layoutStep (base su : ℕ) (s : LayoutState) : Option LayoutState :=
  match s.rem with
  | [] => none
  | [(di, _)] =>
    let room := s.remainingPhys di
    if room < su then none
    else
      let size := room - room % su
      if size = 0 then none
      else some
        { rem := []
          remainingPhys := fun d => if d = di then 0 else s.remainingPhys d
          usedPhys := fun d => if d = di then s.usedPhys d + size else s.usedPhys d
          phaseCount := s.phaseCount + 1
          phases := fun p => if p = s.phaseCount then s.phase base su size else s.phases p
          virtOffset := u64 (s.virtOffset + size) }
  | rem =>
    let best := minVirtual s.remainingPhys s.totalRatio 0 rem (18446744073709551615, 4294967295)
    let cycleSize := s.totalRatio * su
    let cycles := best.1 / cycleSize
    if cycles = 0 then some { s with rem := rem.eraseIdx best.2 }
    else
      let size := cycles * cycleSize
      let t := s.take su cycles rem
      some
        { t with
          rem := rem.filter fun x => t.remainingPhys x.1 ≥ x.2 * su
          phaseCount := s.phaseCount + 1
          phases := fun p => if p = s.phaseCount then s.phase base su size else s.phases p
          virtOffset := u64 (s.virtOffset + size) }

/-- `min_remaining_virtual` and `min_idx` of a turn. -/
def LayoutState.best (s : LayoutState) : ℕ × ℕ :=
  minVirtual s.remainingPhys s.totalRatio 0 s.rem (18446744073709551615, 4294967295)

/-- The turns the loop takes: the last disk is used up to a whole unit, a disk without another turn drops out, or all
disks give `n` cycles. -/
inductive LayoutTurn (base su : ℕ) (s : LayoutState) : LayoutState → Prop where
  | last (di r : ℕ) (hrem : s.rem = [(di, r)]) (hsize : 0 < s.remainingPhys di - s.remainingPhys di % su) :
    LayoutTurn base su s
      { rem := []
        remainingPhys := fun d => if d = di then 0 else s.remainingPhys d
        usedPhys := fun d => if d = di then s.usedPhys d + (s.remainingPhys di - s.remainingPhys di % su) else s.usedPhys d
        phaseCount := s.phaseCount + 1
        phases := fun p => if p = s.phaseCount then s.phase base su (s.remainingPhys di - s.remainingPhys di % su)
          else s.phases p
        virtOffset := u64 (s.virtOffset + (s.remainingPhys di - s.remainingPhys di % su)) }
  | drops (hne : s.rem ≠ []) (hlen : s.rem.length ≠ 1) (hzero : s.best.1 / (s.totalRatio * su) = 0) :
    LayoutTurn base su s { s with rem := s.rem.eraseIdx s.best.2 }
  | cycles (n : ℕ) (hne : s.rem ≠ []) (hlen : s.rem.length ≠ 1) (hn : s.best.1 / (s.totalRatio * su) = n) (hpos : 0 < n) :
    LayoutTurn base su s
      { s.take su n s.rem with
        rem := s.rem.filter fun x => (s.take su n s.rem).remainingPhys x.1 ≥ x.2 * su
        phaseCount := s.phaseCount + 1
        phases := fun p => if p = s.phaseCount then s.phase base su (n * (s.totalRatio * su)) else s.phases p
        virtOffset := u64 (s.virtOffset + n * (s.totalRatio * su)) }

theorem layoutStep_turn {base su : ℕ} {s t : LayoutState} (h : layoutStep base su s = some t) : LayoutTurn base su s t := by
  unfold layoutStep at h
  split at h
  · cases h
  · next di r hrem =>
    simp only at h
    split at h
    · cases h
    split at h
    · cases h
    next hsize =>
    obtain rfl := Option.some.inj h
    exact .last di r hrem (Nat.pos_of_ne_zero hsize)
  · next hne hne' =>
    have hlen : s.rem.length ≠ 1 := by
      intro hl
      obtain ⟨x, hx⟩ := List.length_eq_one_iff.mp hl
      exact hne' x.1 x.2 hx
    simp only at h
    split at h
    · next hzero =>
      obtain rfl := Option.some.inj h
      exact .drops hne hlen hzero
    · next hpos =>
      obtain rfl := Option.some.inj h
      exact .cycles _ hne hlen rfl (Nat.pos_of_ne_zero hpos)

/-- `while (remaining_disk_count > 0 && vol->phase_count < MAX_DISKS)`. -/
def layoutLoop (base su : ℕ) : ℕ → LayoutState → LayoutState
  | 0, s => s
  | fuel + 1, s =>
    if s.rem ≠ [] ∧ s.phaseCount < maxDisks then
      match layoutStep base su s with
      | none => s
      | some t => layoutLoop base su fuel t
    else s

/-- The loop's start over `disks`, phases and bytes going on from those already there. -/
def layoutInit (d : Disks) (disks : List DiskId) (phaseCount : ℕ) (phases : ℕ → MappingPhase)
    (virtOffset : ℕ) : LayoutState where
  rem := (List.range disks.length).map fun i =>
    (i, (normalizeRatios (fun k => speedOf (d.info (disks.getD k 0))) disks.length).1 i)
  remainingPhys := fun i => (d.info (disks.getD i 0)).poolBytes
  usedPhys := fun _ => 0
  phaseCount := phaseCount
  phases := phases
  virtOffset := virtOffset

/-- Turns the loop can take: each one starts a phase or drops a disk. -/
def layoutFuel : ℕ := 2 * maxDisks

/-- `stripe_volume_create`; `none` is `false`. -/
def stripeVolumeCreate (d : Disks) (disks : List DiskId) (stripeUnit : ℕ) : Option StripeVolume :=
  if disks.length < minDisks ∨ maxDisks < disks.length then none
  else
    let s := layoutLoop 0 stripeUnit layoutFuel (layoutInit d disks 0 (fun _ => .zero) 0)
    some { StripeVolume.zero with
      raidLevel := .stripe
      diskCount := disks.length
      stripeUnit := stripeUnit
      disks := fun i => disks[i]?
      phaseCount := s.phaseCount
      phases := s.phases
      virtualTotalBytes := s.virtOffset }

/-- `stripe_volume_expand`; `none` is `false`. The only caller passes at most 16 new
disks, so the `uint32_t` sums of the counts are exact. -/
def stripeVolumeExpand (d : Disks) (v : StripeVolume) (newDisks : List DiskId) : Option StripeVolume :=
  if newDisks.length = 0 then none
  else if v.diskCount + newDisks.length > maxDisks ∨ v.phaseCount + newDisks.length > maxDisks then none
  else
    let s := layoutLoop v.diskCount v.stripeUnit layoutFuel
      (layoutInit d newDisks v.phaseCount v.phases v.virtualTotalBytes)
    some { v with
      diskCount := v.diskCount + newDisks.length
      disks := fun i => if v.diskCount ≤ i ∧ i < v.diskCount + newDisks.length
        then newDisks[i - v.diskCount]? else v.disks i
      phaseCount := s.phaseCount
      phases := s.phases
      virtualTotalBytes := s.virtOffset }

/-- `stripe_volume_workers_init`, when every event and thread can be created. -/
def stripeVolumeWorkersInit (v : StripeVolume) : Option StripeVolume :=
  if v.diskCount = 0 then none
  else some { v with workerState := some ((List.range v.diskCount).map v.diskAt) }

end RaidTest.Stripe
