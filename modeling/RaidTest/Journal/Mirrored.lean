import RaidTest.Journal.Replay

/-!
# Recovering onto a mirror

A mirror refuses a range that does not end inside it. The other ranges of the open
transactions are stored on every member that can be written.
-/

namespace RaidTest.Journal
open RaidTest.Base RaidTest.Stripe RaidTest.Mirror

/-- A volume of `total` bytes has room for the range, and the range has bytes. -/
def taken (total : ℕ) (r : ℕ × List Byte) : Bool := !r.2.isEmpty && decide (r.1 + r.2.length ≤ total)

theorem taken_iff {total : ℕ} {r : ℕ × List Byte} : taken total r = true ↔ 0 < r.2.length ∧ r.1 + r.2.length ≤ total := by
  rw [taken, Bool.and_eq_true, decide_eq_true_eq, Bool.not_eq_true', List.isEmpty_eq_false_iff,
    ← List.length_pos_iff]

/-- A member's journal is read to its end, if it is read at all. -/
def Whole (env : ℕ → RecoverEnv) (letter : DiskId → Letter) (v : StripeVolume) (files : Files) : Prop :=
  ∀ i n, (env i).read = some n → (files (letter (v.diskAt i))).length ≤ n

theorem Whole.set {env : ℕ → RecoverEnv} {letter : DiskId → Letter} {v : StripeVolume} {files : Files}
    (h : Whole env letter v files) (l : Letter) : Whole env letter v (files.set l []) := by
  intro i n hn
  by_cases hk : letter (v.diskAt i) = l
  · rw [hk, Files.set_same]
    exact Nat.zero_le n
  · rw [Files.set_other files [] hk]
    exact h i n hn

theorem loadJournal_whole {env : RecoverEnv} {file raw : List Byte} (hread : ∀ n, env.read = some n → file.length ≤ n)
    (h : loadJournal env file = some raw) : env.Reads file := by
  unfold loadJournal at h
  split at h
  · cases h
  next hg =>
  simp only [not_or, Bool.not_eq_false] at hg
  split at h
  · cases h
  next n hn =>
  exact ⟨hg.1, hg.2.1, hg.2.2.2.2, n, hn, hread n hn⟩

/-! ### Ranges that are refused -/

section Mirror
variable {v : StripeVolume} (hl : v.raidLevel = .mirror)
include hl

theorem mirrorWrite_refused {u : StripeVolume} (hu : SameLayout v u) (io : IoEnv) (d : Disks) (buffer : Buf)
    {off len : ℕ} (h : v.virtualTotalBytes < off + len) :
    ∃ w, stripeVolumeWrite io u d buffer off len = some (false, w, d) := by
  unfold stripeVolumeWrite
  split
  · exact ⟨u, rfl⟩
  rw [if_pos (hu.raidLevel.trans hl)]
  have hout : outOfRange u off len = true := by
    rw [outOfRange_iff, hu.total]
    omega
  unfold mirrorVolumeWrite
  rw [if_pos (Or.inr (Or.inl hout))]
  exact ⟨_, rfl⟩

theorem replayLoop_refused (io : ℕ → IoEnv) (raw : List Byte) (d : Disks) (rs : List Range) :
    ∀ (i failed : ℕ) {u w : StripeVolume} {e : Disks} {n : ℕ}, SameLayout v u →
      (∀ r ∈ rs, r.len = 0 ∨ v.virtualTotalBytes < r.off + r.len) →
      replayLoop io raw rs i failed u d = some (n, w, e) → SameLayout v w ∧ e = d := by
  induction rs with
  | nil =>
    intro i failed u w e n hu _ h
    simp only [replayLoop, Option.some.injEq, Prod.mk.injEq] at h
    obtain ⟨_, rfl, rfl⟩ := h
    exact ⟨hu, rfl⟩
  | cons r rs ih =>
    intro i failed u w e n hu hout h
    have hrest : ∀ q ∈ rs, q.len = 0 ∨ v.virtualTotalBytes < q.off + q.len := fun q hq =>
      hout q (List.mem_cons_of_mem _ hq)
    unfold replayLoop at h
    split at h
    · exact ih (i + 1) (failed + 1) hu hrest h
    next hskip =>
    simp only [not_or] at hskip
    have hr := (hout r (List.mem_cons_self ..)).resolve_left hskip.2
    obtain ⟨u', hw⟩ := mirrorWrite_refused hl hu (io i) d (bufAt raw r.dataOff) hr
    rw [hw] at h
    exact ih (i + 1) (failed + 1) (hu.trans (stripeVolumeWrite_layout hw)) hrest h

theorem recoverJournal_refused {env : RecoverEnv} {file : List Byte} {d e : Disks} {u w : StripeVolume}
    {clean empty : Bool} (hu : SameLayout v u) (hread : ∀ n, env.read = some n → file.length ≤ n)
    (hnone : ∀ r ∈ openRanges file, taken v.virtualTotalBytes r = false)
    (h : recoverJournal env u d file = some (clean, w, e, empty)) : SameLayout v w ∧ e = d := by
  unfold recoverJournal at h
  split at h
  · simp only [Option.some.injEq, Prod.mk.injEq] at h
    obtain ⟨_, rfl, rfl, _⟩ := h
    exact ⟨hu, rfl⟩
  next raw hload =>
  split at h
  · cases h
  next s hs =>
  split at h
  swap
  · simp only [Option.some.injEq, Prod.mk.injEq] at h
    obtain ⟨_, rfl, rfl, _⟩ := h
    exact ⟨hu, rfl⟩
  next hinc =>
  split at h
  · cases h
  next hreplay =>
  simp only [Option.some.injEq, Prod.mk.injEq] at h
  obtain ⟨_, rfl, rfl, _⟩ := h
  obtain ⟨_, _, hopen⟩ := openRanges_load (loadJournal_whole hread hload) hload hs
  apply replayLoop_refused hl _ _ d _ 0 0 hu _ hreplay
  intro r hr
  have hno := hnone (r.read raw) (by
    rw [hopen, ScanState.open, hinc, if_pos rfl]
    exact List.mem_map_of_mem hr)
  have hlen := slice_length raw (scan_inside hs r hr).2
  by_contra hfit
  have htaken : taken v.virtualTotalBytes (r.read raw) = true := by
    rw [taken_iff, Range.read, hlen]
    omega
  rw [htaken] at hno
  cases hno

/-- When no open range is taken, recovery leaves the disks as they are. -/
theorem recoverLoop_refused {env : ℕ → RecoverEnv} {letter : DiskId → Letter} {d : Disks} (n : ℕ) :
    ∀ (di : ℕ) (allClean : Bool) {u w : StripeVolume} {e : Disks} {files files' : Files} {clean : Bool},
      SameLayout v u → Whole env letter v files →
      (∀ i, di ≤ i → i < di + n → ∀ r ∈ openRanges (files (letter (v.diskAt i))), taken v.virtualTotalBytes r = false) →
      recoverLoop env letter n di allClean u d files = some (clean, w, e, files') → e = d := by
  induction n with
  | zero =>
    intro di allClean u w e files files' clean _ _ _ h
    simp only [recoverLoop, Option.some.injEq, Prod.mk.injEq] at h
    exact h.2.2.1.symm
  | succ n ih =>
    intro di allClean u w e files files' clean hu hwhole hnone h
    unfold recoverLoop at h
    simp only at h
    split at h
    · cases h
    next c1 u1 d1 empty hj =>
    rw [hu.diskAt] at hj h
    obtain ⟨h1, rfl⟩ := recoverJournal_refused hl hu (hwhole di) (hnone di (Nat.le_refl di) (by omega)) hj
    cases empty with
    | false =>
      apply ih (di + 1) _ h1 hwhole _ h
      intro i hi1 hi2
      exact hnone i (by omega) (by omega)
    | true =>
      apply ih (di + 1) _ h1 (hwhole.set (letter (v.diskAt di))) _ h
      intro i hi1 hi2 r hr
      by_cases hk : letter (v.diskAt i) = letter (v.diskAt di)
      · rw [hk, Files.set_same] at hr
        exact absurd hr List.not_mem_nil
      · rw [Files.set_other files [] hk] at hr
        exact hnone i (by omega) (by omega) r hr

/-! ### Ranges that are taken -/

/-- Every member can be written. -/
def AllWritable (v : StripeVolume) (d : Disks) : Prop := ∀ k, Serves v 0 v.diskCount k → writable d k = true

theorem mirrorWrite_taken (htotal : v.virtualTotalBytes < 2^64) (hdisks : v.checkDisks = true) {u : StripeVolume}
    (hu : SameLayout v u) (hc : u.cacheEnabled = false) {io : IoEnv} (hio : io.Succeeds) {d : Disks}
    (hall : AllWritable v d) (buffer : Buf) {off len : ℕ} (hpos : 0 < len) (hend : off + len ≤ v.virtualTotalBytes) :
    ∃ ok w e, stripeVolumeWrite io u d buffer off len = some (ok, w, e) ∧ AllWritable v e ∧
      ∀ k, Serves v 0 v.diskCount k → Lands (cells (off, bytesAt buffer len)) (content v d k) (content v e k) := by
  have hcheck : u.checkDisks = true := by
    rw [StripeVolume.checkDisks_iff] at hdisks ⊢
    rw [hu.diskCount, hu.diskAt, hu.disks]
    exact hdisks
  have hin : outOfRange u off len = false := by
    have hno := mt (outOfRange_iff u off len).mp (by rw [hu.total]; omega)
    simpa using hno
  have hw : stripeVolumeWrite io u d buffer off len =
      (let r := mirrorWriteLoop io buffer off len u.diskCount 0 false u d
       let w := if r.1 then { r.2.1 with bytesWritten := u64 (r.2.1.bytesWritten + len) } else r.2.1
       some (r.1, addWritten w r.1 len, r.2.2)) := by
    unfold stripeVolumeWrite
    have hguard : ¬ (len = 0 ∨ u64 (off + len) > u.virtualTotalBytes ∨ u.checkDisks = false) := by
      rw [u64_of_lt (by omega), hu.total, hcheck]
      simp only [Bool.true_eq_false, or_false]
      omega
    rw [if_neg hguard, if_pos (hu.raidLevel.trans hl)]
    unfold mirrorVolumeWrite
    rw [hin, hcheck, if_neg (by simpa using Nat.ne_of_gt hpos), if_neg (fun h => absurd (hc.symm.trans h.1) (by decide))]
    unfold mirrorWriteToAll
    rw [hin, if_neg (by simpa using Nat.ne_of_gt hpos)]
  rw [hw]
  have hok := mirrorWriteLoop_ok hio buffer off len u.diskCount 0 false u d
  generalize mirrorWriteLoop io buffer off len u.diskCount 0 false u d = r at hok
  refine ⟨_, _, _, rfl, fun k hk => (hok.still k).trans (hall k hk), fun k hk => ?_⟩
  have hserves : Serves u 0 u.diskCount k := by
    unfold Serves
    rw [hu.diskCount, hu.diskAt]
    exact hk
  rw [content_mirror hl, content_mirror hl]
  apply lands_cells
  · intro x h1 h2
    simp only [bytesAt_length] at h1 h2
    rw [if_pos (by omega), bytesAt_getD buffer (by omega)]
    exact hok.written k x hserves (hall k hk) h1 h2
  · intro x hx
    simp only [bytesAt_length] at hx
    rw [hok.frame k x (by omega)]

theorem replayLoop_taken (htotal : v.virtualTotalBytes < 2^64) (hdisks : v.checkDisks = true) {io : ℕ → IoEnv}
    (hio : ∀ i, (io i).Succeeds) {raw : List Byte} (rs : List Range) :
    ∀ (i failed : ℕ) {u : StripeVolume} {d : Disks}, SameLayout v u → u.cacheEnabled = false → AllWritable v d →
      (∀ r ∈ rs, 0 < r.dataOff ∧ r.dataOff + r.len ≤ raw.length) →
      ∃ n w e, replayLoop io raw rs i failed u d = some (n, w, e) ∧ ∀ k, Serves v 0 v.diskCount k →
        Redone ((rs.map (Range.read raw)).filter (taken v.virtualTotalBytes)) (content v d k) (content v e k) := by
  induction rs with
  | nil =>
    intro i failed u d _ _ _ _
    exact ⟨failed, u, d, rfl, fun _ _ => rfl⟩
  | cons r rs ih =>
    intro i failed u d hu hc hall hin
    obtain ⟨hpos, hle⟩ := hin r (List.mem_cons_self ..)
    have hrest : ∀ q ∈ rs, 0 < q.dataOff ∧ q.dataOff + q.len ≤ raw.length := fun q hq =>
      hin q (List.mem_cons_of_mem _ hq)
    have hlen := slice_length raw hle
    unfold replayLoop
    rw [List.map_cons]
    by_cases hfit : taken v.virtualTotalBytes (r.read raw) = true
    · rw [List.filter_cons_of_pos hfit]
      rw [taken_iff, Range.read, hlen] at hfit
      rw [if_neg (by omega)]
      obtain ⟨ok, u', d', hw, hall', hland⟩ := mirrorWrite_taken hl htotal hdisks hu hc (hio i) hall
        (bufAt raw r.dataOff) hfit.1 hfit.2
      have hu' := hu.trans (stripeVolumeWrite_layout hw)
      have hc' := (stripeVolumeWrite_uncached hc hw).enabled
      rw [bytesAt_slice hle] at hland
      rw [hw]
      cases ok with
      | true =>
        obtain ⟨n, w, e, h1, h2⟩ := ih (i + 1) failed hu' hc' hall' hrest
        exact ⟨n, w, e, h1, fun k hk => ⟨_, hland k hk, h2 k hk⟩⟩
      | false =>
        obtain ⟨n, w, e, h1, h2⟩ := ih (i + 1) (failed + 1) hu' hc' hall' hrest
        exact ⟨n, w, e, h1, fun k hk => ⟨_, hland k hk, h2 k hk⟩⟩
    · rw [List.filter_cons_of_neg hfit]
      rw [taken_iff, Range.read, hlen] at hfit
      split
      · exact ih (i + 1) (failed + 1) hu hc hall hrest
      next hskip =>
      obtain ⟨u', hw⟩ := mirrorWrite_refused hl hu (io i) d (bufAt raw r.dataOff)
        (show v.virtualTotalBytes < r.off + r.len by omega)
      rw [hw]
      exact ih (i + 1) (failed + 1) (hu.trans (stripeVolumeWrite_layout hw)) (stripeVolumeWrite_uncached hc hw).enabled
        hall hrest

omit hl in
theorem openRanges_some {file : List Byte} (h : openRanges file ≠ []) :
    entrySize ≤ file.length ∧ file.length ≤ maxJournal ∧
      ∃ s, scan file = some s ∧ s.incomplete = true ∧ openRanges file = s.ranges.map (Range.read file) := by
  unfold openRanges at h ⊢
  split at h
  · exact absurd rfl h
  next hsize =>
  rw [if_neg hsize]
  simp only [not_or, Nat.not_lt] at hsize
  cases hs : scan file with
  | none =>
    rw [hs] at h
    exact absurd rfl h
  | some s =>
    rw [hs] at h
    simp only [ScanState.open] at h ⊢
    cases hinc : s.incomplete with
    | true => exact ⟨hsize.1, hsize.2, s, rfl, hinc, if_pos rfl⟩
    | false =>
      rw [hinc] at h
      exact absurd rfl h

theorem recoverJournal_taken (htotal : v.virtualTotalBytes < 2^64) (hdisks : v.checkDisks = true) {env : RecoverEnv}
    {file : List Byte} (hreads : env.Reads file) (hio : ∀ i, (env.io i).Succeeds) (hsome : openRanges file ≠ [])
    {u : StripeVolume} {d : Disks} (hu : SameLayout v u) (hc : u.cacheEnabled = false) (hall : AllWritable v d) :
    ∃ clean w e empty, recoverJournal env u d file = some (clean, w, e, empty) ∧ ∀ k, Serves v 0 v.diskCount k →
      Redone ((openRanges file).filter (taken v.virtualTotalBytes)) (content v d k) (content v e k) := by
  obtain ⟨h1, h2, s, hs, hinc, hopen⟩ := openRanges_some hsome
  obtain ⟨n, w, e, hreplay, hredo⟩ := replayLoop_taken hl htotal hdisks hio s.ranges 0 0 hu hc hall (scan_inside hs)
  rw [hopen]
  unfold recoverJournal
  rw [loadJournal_reads hreads h1 h2]
  simp only [hs, hinc, if_true, hreplay]
  exact ⟨_, w, e, _, rfl, hredo⟩

omit hl in
theorem recoverLoop_unread {env : ℕ → RecoverEnv} {letter : DiskId → Letter} (n : ℕ) :
    ∀ (di : ℕ) (allClean : Bool) (u : StripeVolume) (d : Disks) (files : Files),
      (∀ i, di ≤ i → i < di + n → (env i).opens = false) →
      recoverLoop env letter n di allClean u d files = some (allClean, u, d, files) := by
  induction n with
  | zero =>
    intro di allClean u d files _
    rfl
  | succ n ih =>
    intro di allClean u d files h
    have hnone : loadJournal (env di) (files (letter (u.diskAt di))) = none := by
      unfold loadJournal
      rw [if_pos (Or.inl (h di (Nat.le_refl di) (by omega)))]
    unfold recoverLoop recoverJournal
    simp only [hnone, Bool.and_true, Bool.false_eq_true, if_false]
    exact ih (di + 1) allClean u d files fun i h1 h2 => h i (by omega) (by omega)

/-- When one journal alone can be opened, its ranges are written and no others. -/
theorem recoverLoop_one (htotal : v.virtualTotalBytes < 2^64) (hdisks : v.checkDisks = true) {env : ℕ → RecoverEnv}
    {letter : DiskId → Letter} {files : Files} {j : ℕ} (hreads : (env j).Reads (files (letter (v.diskAt j))))
    (hio : ∀ i, ((env j).io i).Succeeds) (hclosed : ∀ i, i ≠ j → (env i).opens = false)
    (hsome : openRanges (files (letter (v.diskAt j))) ≠ []) (n : ℕ) :
    ∀ (di : ℕ) (allClean : Bool) {u : StripeVolume} {d : Disks}, di ≤ j → j < di + n → SameLayout v u →
      u.cacheEnabled = false → AllWritable v d →
      ∃ clean w e files', recoverLoop env letter n di allClean u d files = some (clean, w, e, files') ∧
        ∀ k, Serves v 0 v.diskCount k →
          Redone ((openRanges (files (letter (v.diskAt j)))).filter (taken v.virtualTotalBytes)) (content v d k)
            (content v e k) := by
  induction n with
  | zero =>
    intro di allClean u d h1 h2
    omega
  | succ n ih =>
    intro di allClean u d h1 h2 hu hc hall
    by_cases hdi : di = j
    · subst hdi
      obtain ⟨clean, w, e, empty, hj, hredo⟩ := recoverJournal_taken hl htotal hdisks hreads hio hsome hu hc hall
      unfold recoverLoop
      simp only [hu.diskAt, hj]
      exact ⟨_, w, e, _, recoverLoop_unread n (di + 1) _ w e _ fun i h3 _ => hclosed i (by omega), hredo⟩
    · have hnone : loadJournal (env di) (files (letter (u.diskAt di))) = none := by
        unfold loadJournal
        rw [if_pos (Or.inl (hclosed di hdi))]
      unfold recoverLoop recoverJournal
      simp only [hnone, Bool.and_true, Bool.false_eq_true, if_false]
      exact ih (di + 1) allClean (by omega) (by omega) hu hc hall

/-- Recovery leaves a mirror alone, whatever it holds and however the reads and writes go, exactly
if the mirror takes none of the open ranges. -/
theorem recover_mirror_iff (htotal : v.virtualTotalBytes < 2^64) (hdisks : v.checkDisks = true)
    (hc : v.cacheEnabled = false) {info : DiskId → DiskInfo} (hall : ∀ pool, AllWritable v ⟨info, pool⟩)
    (letter : DiskId → Letter) (files : Files) :
    (∀ env pool clean w e files', Whole env letter v files →
        journalRecoverAll env letter v ⟨info, pool⟩ files = some (clean, w, e, files') → e.pool = pool) ↔
      ∀ i < v.diskCount, ∀ r ∈ openRanges (files (letter (v.diskAt i))), taken v.virtualTotalBytes r = false := by
  constructor
  · intro h j hj r hr
    by_contra htaken
    rw [Bool.not_eq_false] at htaken
    generalize hn : (files (letter (v.diskAt j))).length = n
    -- only this journal can be opened, and its writes succeed
    obtain ⟨env, henv⟩ : ∃ env : ℕ → RecoverEnv, env = fun i =>
      ⟨decide (i = j), true, true, if i = j then some n else none, fun _ => .good, true⟩ := ⟨_, rfl⟩
    have hj' : env j = ⟨true, true, true, some n, fun _ => .good, true⟩ := by
      rw [henv]
      simp only [decide_true, if_true]
    have hclosed : ∀ i, i ≠ j → (env i).opens = false := by
      intro i hi
      rw [henv]
      exact decide_eq_false hi
    have hwhole : Whole env letter v files := by
      intro i m hm
      by_cases hi : i = j
      · rw [hi, hj'] at hm
        rw [hi, hn]
        exact Nat.le_of_eq (Option.some.inj hm)
      · rw [henv] at hm
        simp only [if_neg hi] at hm
        cases hm
    have hreads : (env j).Reads (files (letter (v.diskAt j))) := by
      rw [hj']
      exact ⟨rfl, rfl, rfl, n, rfl, Nat.le_of_eq hn⟩
    have hio : ∀ i, ((env j).io i).Succeeds := by
      intro i
      rw [hj']
      exact IoEnv.good_succeeds
    -- the mirror may hold any byte `b` where the range starts
    have hsame : ∀ b : Byte, Redone ((openRanges (files (letter (v.diskAt j)))).filter (taken v.virtualTotalBytes))
        (content v ⟨info, fun _ y => if y = r.1 then b else 0⟩ (v.diskAt j))
        (content v ⟨info, fun _ y => if y = r.1 then b else 0⟩ (v.diskAt j)) := by
      intro b
      obtain ⟨clean, w, e, files', hrun, hredo⟩ := recoverLoop_one hl htotal hdisks
        hreads hio hclosed (List.ne_nil_of_mem hr) v.diskCount 0 true (Nat.zero_le j) (by omega) (SameLayout.refl v)
        hc (hall fun _ y => if y = r.1 then b else 0)
      have hserve := hredo (v.diskAt j) ⟨j, Nat.zero_le j, by omega, rfl⟩
      rw [content_pool v (d := ⟨info, fun _ y => if y = r.1 then b else 0⟩) (h env _ clean w e files' hwhole hrun)]
        at hserve
      exact hserve
    have hmem := List.mem_filter.mpr ⟨hr, htaken⟩
    rw [taken_iff] at htaken
    have hagree := (hsame 0).agree (hsame 1) fun x hx => by
      have hne : x ≠ r.1 := by
        rintro rfl
        exact hx ⟨cells r, List.mem_map_of_mem hmem, _, mem_cells.mpr ⟨Nat.le_refl _, by omega, rfl⟩⟩
      simp only [content_mirror hl, if_neg hne]
    have hbyte := congrFun hagree r.1
    simp only [content_mirror hl, if_pos (show r.1 < v.virtualTotalBytes by omega), if_true] at hbyte
    exact absurd hbyte (by decide)
  · intro h env pool clean w e files' hwhole hrun
    have he := recoverLoop_refused hl v.diskCount 0 true (SameLayout.refl v) hwhole (fun i _ hi => h i (by omega)) hrun
    rw [he]

end Mirror

end RaidTest.Journal
