import RaidTest.Base.Redo
import RaidTest.Mirror.Written

/-!
# Where a write past the cache lands

A range is a write of cells, one for each of its bytes. The bytes of a volume are looked at on
one member at a time: on a stripe volume that is the whole volume, on a mirror the copy of a
member that stays in service. A write that succeeds puts its cells there and nothing else.
-/

namespace RaidTest.Journal
open RaidTest.Base RaidTest.Stripe RaidTest.Mirror

/-! ### The bytes of a volume -/

/-- Byte `x` of the volume; on a mirror, of the copy on disk `k`. -/
def content (v : StripeVolume) (d : Disks) (k : DiskId) (x : ℕ) : Byte :=
  if x < v.virtualTotalBytes then
    match v.raidLevel with
    | .stripe => vbyte v d x
    | .mirror => d.pool k x
  else 0

/-- On a mirror, the disk is a member and healthy. -/
def InService (v : StripeVolume) (d : Disks) (k : DiskId) : Prop :=
  v.raidLevel = .mirror → Serves v 0 v.diskCount k ∧ (d.info k).healthy = true

/-- A stripe volume is laid out over its members and has a worker for each, or none. -/
structure Placed (v : StripeVolume) : Prop where
  laid : v.raidLevel = .stripe → Laid v
  members : v.raidLevel = .stripe → Members v
  workers : v.raidLevel = .stripe → v.workerState = none ∨ v.workerState = some (memberList v)

theorem Placed.of_ready {v : StripeVolume} (h : Ready v) : Placed v :=
  ⟨fun _ => h.laid, fun _ => h.members, fun _ => Or.inr h.workers⟩

theorem content_pool (v : StripeVolume) {d e : Disks} (h : e.pool = d.pool) (k : DiskId) :
    content v e k = content v d k := by
  funext x
  unfold content
  rw [vbyte_pool v h, h]

theorem content_stripe {v : StripeVolume} (h : v.raidLevel = .stripe) (d : Disks) (k : DiskId) :
    content v d k = fun x => if x < v.virtualTotalBytes then vbyte v d x else 0 := by
  funext x
  simp only [content, h]

theorem content_mirror {v : StripeVolume} (h : v.raidLevel = .mirror) (d : Disks) (k : DiskId) :
    content v d k = fun x => if x < v.virtualTotalBytes then d.pool k x else 0 := by
  funext x
  simp only [content, h]

/-- The cells of a range with its bytes. -/
def cells (r : ℕ × List Byte) : List (ℕ × Byte) := (List.range r.2.length).map fun j => (r.1 + j, r.2.getD j 0)

theorem mem_cells {r : ℕ × List Byte} {x : ℕ} {b : Byte} :
    (x, b) ∈ cells r ↔ r.1 ≤ x ∧ x < r.1 + r.2.length ∧ b = r.2.getD (x - r.1) 0 := by
  unfold cells
  rw [List.mem_map]
  constructor
  · rintro ⟨j, hj, he⟩
    have hlt := List.mem_range.mp hj
    obtain ⟨rfl, rfl⟩ := Prod.mk.inj he
    rw [Nat.add_sub_cancel_left]
    exact ⟨Nat.le_add_right _ _, by omega, rfl⟩
  · rintro ⟨h1, h2, rfl⟩
    refine ⟨x - r.1, List.mem_range.mpr (by omega), ?_⟩
    rw [Nat.add_sub_cancel' h1]

theorem not_mem_cells {r : ℕ × List Byte} {x : ℕ} :
    (∀ b, (x, b) ∉ cells r) ↔ x < r.1 ∨ r.1 + r.2.length ≤ x := by
  constructor
  · intro h
    by_contra hn
    exact h _ (mem_cells.mpr ⟨by omega, by omega, rfl⟩)
  · intro h b hb
    obtain ⟨h1, h2, _⟩ := mem_cells.mp hb
    omega

theorem lands_cells {m n : ℕ → Byte} {r : ℕ × List Byte}
    (hin : ∀ x, r.1 ≤ x → x < r.1 + r.2.length → n x = r.2.getD (x - r.1) 0)
    (hout : ∀ x, x < r.1 ∨ r.1 + r.2.length ≤ x → n x = m x) : Lands (cells r) m n where
  inside x b h := by
    obtain ⟨h1, h2, rfl⟩ := mem_cells.mp h
    exact hin x h1 h2
  outside x h := hout x (not_mem_cells.mp h)

/-! ### A write that succeeds -/

/-- `length` bytes at `buffer`. -/
def bytesAt (buffer : Buf) (length : ℕ) : List Byte := (List.range length).map buffer

@[simp] theorem bytesAt_length (buffer : Buf) (length : ℕ) : (bytesAt buffer length).length = length := by
  rw [bytesAt, List.length_map, List.length_range]

theorem bytesAt_getD (buffer : Buf) {length j : ℕ} (h : j < length) : (bytesAt buffer length).getD j 0 = buffer j := by
  rw [List.getD_eq_getElem _ _ (by simpa using h)]
  simp only [bytesAt, List.getElem_map, List.getElem_range]

section Write
variable {v w : StripeVolume} {d e : Disks} {io : IoEnv} {buffer : Buf} {off len : ℕ}

/-- What a write past the cache comes to. -/
structure Uncached (io : IoEnv) (v : StripeVolume) (d : Disks) (buffer : Buf) (off len : ℕ) (ok : Bool)
    (w : StripeVolume) (e : Disks) : Prop where
  enabled : w.cacheEnabled = false
  pos : ok = true → 0 < len
  wraps : ok = true → u64 (off + len) ≤ v.virtualTotalBytes
  mirror : ok = true → v.raidLevel = .mirror → off + len ≤ v.virtualTotalBytes ∧
    ∃ any u, AllWritten v d buffer off len 0 v.diskCount false (any, u, e)
  stripe : ok = true → v.raidLevel = .stripe → writeDirect io v d buffer off len = some (true, w, e)

theorem writeDirect_enabled {ok : Bool} (h : writeDirect io v d buffer off len = some (ok, w, e)) :
    w.cacheEnabled = v.cacheEnabled := by
  unfold writeDirect at h
  split at h
  · simp only [Option.some.injEq, Prod.mk.injEq] at h
    rw [h.2.1]
  split at h
  · cases h
  · simp only [Option.some.injEq, Prod.mk.injEq] at h
    rw [← h.2.1, addWritten_cacheEnabled]

theorem mirrorVolumeWrite_uncached (hc : v.cacheEnabled = false) :
    (mirrorVolumeWrite io v d buffer off len).2.1.cacheEnabled = false ∧
      ((mirrorVolumeWrite io v d buffer off len).1 = true → off + len ≤ v.virtualTotalBytes ∧
        ∃ any u, AllWritten v d buffer off len 0 v.diskCount false
          (any, u, (mirrorVolumeWrite io v d buffer off len).2.2)) := by
  unfold mirrorVolumeWrite
  split
  · exact ⟨hc, fun h => absurd h Bool.false_ne_true⟩
  rw [if_neg (fun h => absurd (hc.symm.trans h.1) Bool.false_ne_true)]
  rcases mirrorWriteToAll_spec io v d buffer off len with ⟨_, h⟩ | ⟨⟨_, hend⟩, h⟩
  · rw [h]
    exact ⟨hc, fun h => absurd h Bool.false_ne_true⟩
  · generalize mirrorWriteToAll io v d buffer off len = r at h
    obtain ⟨any, u, e⟩ := r
    have hu : u.cacheEnabled = false := h.volume.enabled.trans hc
    cases any with
    | true => exact ⟨hu, fun _ => ⟨hend, true, u, h⟩⟩
    | false => exact ⟨hu, fun h => absurd h Bool.false_ne_true⟩

theorem stripeVolumeWrite_uncached {ok : Bool} (hc : v.cacheEnabled = false)
    (h : stripeVolumeWrite io v d buffer off len = some (ok, w, e)) : Uncached io v d buffer off len ok w e := by
  unfold stripeVolumeWrite at h
  split at h
  · simp only [Option.some.injEq, Prod.mk.injEq] at h
    obtain ⟨rfl, rfl, rfl⟩ := h
    exact ⟨hc, nofun, nofun, nofun, nofun⟩
  next hg =>
  simp only [not_or, Nat.not_lt] at hg
  have hpos : 0 < len := Nat.pos_of_ne_zero hg.1
  split at h
  · next hm =>
    simp only [Option.some.injEq, Prod.mk.injEq] at h
    obtain ⟨rfl, rfl, rfl⟩ := h
    obtain ⟨h1, h2⟩ := @mirrorVolumeWrite_uncached v d io buffer off len hc
    refine ⟨by rw [addWritten_cacheEnabled, h1], fun _ => hpos, fun _ => hg.2.1, fun hok _ => h2 hok, fun _ hs => ?_⟩
    rw [hm] at hs
    cases hs
  · next hm =>
    rw [if_neg (fun h => absurd (hc.symm.trans h.1) Bool.false_ne_true)] at h
    refine ⟨(writeDirect_enabled h).trans hc, fun _ => hpos, fun _ => hg.2.1, fun _ hl => absurd hl hm, fun hok _ => ?_⟩
    rw [hok] at h
    exact h

theorem submitEntries_true {es : List IoMappingEntry} {op : IoOpType} {out : Buf} (hne : es ≠ [])
    (h : submitEntries io d v es buffer op = some (true, e, out)) :
    v.workerState ≠ none ∧ es.length ≤ ioRingSize := by
  unfold submitEntries at h
  rw [if_neg hne] at h
  split at h
  · cases h
  next hw =>
  split at h
  · cases h
  split at h
  · cases h
  · next hno =>
    simp only [not_or, Nat.not_lt] at hno
    exact ⟨by rw [hw]; exact Option.some_ne_none _, hno.1⟩

/-- A write that went through to the members of a stripe volume. -/
theorem writeDirect_true (h0 : Laid v) (hm : Members v)
    (hw : v.workerState = none ∨ v.workerState = some (memberList v)) (hlen : len < 2^32) (hpos : 0 < len)
    (hu : u64 (off + len) ≤ v.virtualTotalBytes) (h : writeDirect io v d buffer off len = some (true, w, e)) :
    off + len ≤ v.virtualTotalBytes ∧ (∀ x, off ≤ x → x < off + len → vbyte v e x = buffer (x - off)) ∧
      ∀ x < v.virtualTotalBytes, x < off ∨ off + len ≤ x → vbyte v e x = vbyte v d x := by
  have hdirect := h
  unfold writeDirect at h
  split at h
  · cases h
  next es hmap =>
  obtain ⟨_, hlt, hcov, _⟩ := mapLba_spec h0 hlen hmap
  have hne : es ≠ [] := by
    rintro rfl
    have he : off = min (off + len) v.virtualTotalBytes := hcov
    omega
  split at h
  · cases h
  next ok d' out hsub =>
  simp only [Option.some.injEq, Prod.mk.injEq] at h
  obtain ⟨rfl, _⟩ := h
  obtain ⟨hworkers, hsize⟩ := submitEntries_true hne hsub
  have hr : Ready v := ⟨h0, hm, hw.resolve_left hworkers⟩
  have hend : off + len ≤ v.virtualTotalBytes := by
    by_contra hn
    have hbeyond := beyond_of_wrap hr hlen hpos hn hu
    omega
  have hfit : Fits v off len := by
    intro l hl
    rw [hmap] at hl
    exact Option.some.inj hl ▸ hsize
  obtain ⟨ok, e', he, hdata, hframe, _⟩ := writeDirect_spec hr io d buffer hlen hend hfit
  rw [hdirect] at he
  simp only [Option.some.injEq, Prod.mk.injEq] at he
  obtain ⟨rfl, _, rfl⟩ := he
  exact ⟨hend, hdata rfl, hframe⟩

theorem Placed.same (h : Placed v) (hs : SameLayout v w) : Placed w := by
  -- with its workers the volume would be ready
  have hr : v.raidLevel = .stripe → Ready { w with workerState := some (memberList v) } := fun hl =>
    (show SameLayout { v with workerState := some (memberList v) } { w with workerState := some (memberList v) } from
      ⟨hs.disks, hs.diskCount, hs.stripeUnit, hs.phaseCount, hs.phases, hs.total, hs.raidLevel, rfl⟩).ready
        ⟨⟨(h.laid hl).unit, (h.laid hl).unitLt, (h.laid hl).count, (h.laid hl).phases⟩,
          ⟨(h.members hl).few, (h.members hl).present, (h.members hl).distinct⟩, rfl⟩
  constructor
  · intro hl
    have hlaid := (hr (hs.raidLevel.symm.trans hl)).laid
    exact ⟨hlaid.unit, hlaid.unitLt, hlaid.count, hlaid.phases⟩
  · intro hl
    have hmem := (hr (hs.raidLevel.symm.trans hl)).members
    exact ⟨hmem.few, hmem.present, hmem.distinct⟩
  · intro hl
    have hmem : memberList w = memberList v := by
      unfold memberList
      rw [hs.diskCount, hs.diskAt]
    rw [hs.workers, hmem]
    exact h.workers (hs.raidLevel.symm.trans hl)

theorem content_same (hs : SameLayout v w) : content w = content v := by
  funext d k x
  unfold content
  rw [hs.total, hs.raidLevel, hs.vbyte]

theorem inService_same (hs : SameLayout v w) (d : Disks) (k : DiskId) : InService w d k ↔ InService v d k := by
  unfold InService Serves
  rw [hs.raidLevel, hs.diskCount, hs.diskAt]

/-- A write that succeeds stores its bytes and nothing else, on every member that is in service
after it. -/
theorem stripeVolumeWrite_lands (h0 : Placed v) (hc : v.cacheEnabled = false) (hlen : len < 2^32)
    (h : stripeVolumeWrite io v d buffer off len = some (true, w, e)) {k : DiskId} (hk : InService v e k) :
    InService v d k ∧ Lands (cells (off, bytesAt buffer len)) (content v d k) (content v e k) := by
  have hu := stripeVolumeWrite_uncached hc h
  have hland : ∀ (m n : ℕ → Byte), off + len ≤ v.virtualTotalBytes →
      (∀ x, off ≤ x → x < off + len → n x = buffer (x - off)) →
      (∀ x < v.virtualTotalBytes, x < off ∨ off + len ≤ x → n x = m x) →
      Lands (cells (off, bytesAt buffer len)) (fun x => if x < v.virtualTotalBytes then m x else 0)
        (fun x => if x < v.virtualTotalBytes then n x else 0) := by
    intro m n hend hin hout
    apply lands_cells
    · intro x h1 h2
      simp only [bytesAt_length] at h1 h2
      rw [if_pos (by omega), bytesAt_getD buffer (by omega)]
      exact hin x h1 h2
    · intro x hx
      simp only [bytesAt_length] at hx
      by_cases hlt : x < v.virtualTotalBytes
      · rw [if_pos hlt, if_pos hlt]
        exact hout x hlt hx
      · rw [if_neg hlt, if_neg hlt]
  cases hl : v.raidLevel with
  | stripe =>
    obtain ⟨hend, hdata, hframe⟩ := writeDirect_true (h0.laid hl) (h0.members hl) (h0.workers hl) hlen (hu.pos rfl)
      (hu.wraps rfl) (hu.stripe rfl hl)
    constructor
    · intro hm
      rw [hl] at hm
      cases hm
    · rw [content_stripe hl, content_stripe hl]
      exact hland _ _ hend hdata hframe
  | mirror =>
    obtain ⟨hend, any, u, hall⟩ := hu.mirror rfl hl
    obtain ⟨hserves, hhealthy⟩ := hk hl
    refine ⟨fun _ => ⟨hserves, hall.confined.healthy k hhealthy⟩, ?_⟩
    obtain ⟨j, h1, h2, rfl⟩ := hserves
    rw [content_mirror hl, content_mirror hl]
    exact hland _ _ hend (hall.data j h1 h2 hhealthy) fun x _ hx => hall.confined.frame _ x hx

/-- With working transfers a stripe volume writes what it can map. -/
theorem stripeVolumeWrite_works {u : StripeVolume} (hr : Ready v) (hl : v.raidLevel = .stripe) (hu : SameLayout v u)
    (hc : u.cacheEnabled = false) (hio : io.Succeeds) (d : Disks) (buffer : Buf) (hpos : 0 < len) (hlen : len < 2^32)
    (hend : off + len ≤ v.virtualTotalBytes) {es : List IoMappingEntry} (hmap : mapLba v off len = some es)
    (hes : es.length ≤ ioRingSize) : ∃ w e, stripeVolumeWrite io u d buffer off len = some (true, w, e) := by
  have hend' : off + len ≤ u.virtualTotalBytes := by
    rw [hu.total]
    exact hend
  have hfit : Fits u off len := by
    intro l h
    rw [hu.mapLba, hmap] at h
    exact Option.some.inj h ▸ hes
  obtain ⟨ok, e, he, _, _, hok⟩ := writeDirect_spec (hu.ready hr) io d buffer hlen hend' hfit
  have htrue : ok = true := by
    rw [hok hio, hu.mapLba, hmap]
    rfl
  rw [htrue] at he
  rw [stripeVolumeWrite_eq (hu.ready hr) (hu.raidLevel.trans hl) io d buffer hpos hend',
    if_neg (fun h => absurd (hc.symm.trans h.1) Bool.false_ne_true)]
  exact ⟨_, e, he⟩

end Write

end RaidTest.Journal
