import RaidTest.Journal.Replay
import RaidTest.Cache.FlushSpec

/-!
# A recovery that is interrupted

The interruption may come between two writes, inside a write, or before or after a journal is
emptied. The journals emptied until then are those whose ranges were all written, and every
other journal is replayed again from its first range, so the second recovery redoes a tail of
the first one's writes that begins before the cut.
-/

namespace RaidTest.Journal
open RaidTest.Base RaidTest.Stripe RaidTest.Mirror RaidTest.Cache

/-! ### Where the interruption can come -/

/-- A write of the range was cut short: its bytes may be anything, on any member. -/
structure CutWrite (v : StripeVolume) (off len : ℕ) (d d' : Disks) : Prop where
  frame : ∀ k p, (match v.raidLevel with
      | .stripe => ∀ x, off ≤ x → x < off + len → x < v.virtualTotalBytes → vcell v x ≠ (k, p)
      | .mirror => p < off ∨ off + len ≤ p) → d'.pool k p = d.pool k p
  healthy : ∀ k, (d'.info k).healthy = true → (d.info k).healthy = true

/-- The disks after a part of the replay loop. -/
def ReplayCut (io : ℕ → IoEnv) (raw : List Byte) : List Range → ℕ → StripeVolume → Disks → Disks → Prop
  | [], _, _, d, d' => d' = d
  | r :: rs, i, v, d, d' =>
    CutWrite v r.off r.len d d' ∨
      if r.dataOff = 0 ∨ r.len = 0 then ReplayCut io raw rs (i + 1) v d d'
      else ∃ w e, stripeVolumeWrite (io i) v d (bufAt raw r.dataOff) r.off r.len = some (true, w, e) ∧
        ReplayCut io raw rs (i + 1) w e d'

/-- The disks and the journals after a part of the loop over the members. -/
def RecoverCut (env : ℕ → RecoverEnv) (letter : DiskId → Letter) :
    ℕ → ℕ → StripeVolume → Disks → Files → Disks → Files → Prop
  | 0, _, _, d, files, d', files' => d' = d ∧ files' = files
  | n + 1, di, v, d, files, d', files' =>
    let l := letter (v.diskAt di)
    files' = files ∧ (d' = d ∨ ∃ raw s, loadJournal (env di) (files l) = some raw ∧ scan raw = some s ∧
        s.incomplete = true ∧ ReplayCut (env di).io raw s.ranges 0 v d d') ∨
      (∀ raw s, loadJournal (env di) (files l) = some raw → scan raw = some s → s.incomplete = true →
        ReplaySucceeds (env di).io raw s.ranges 0 v d) ∧
      ∃ clean w e empty, recoverJournal (env di) v d (files l) = some (clean, w, e, empty) ∧
        RecoverCut env letter n (di + 1) w e (if empty then files.set l [] else files) d' files'

/-- Of the ranges some were written, and one more was cut short. -/
def Partly (rs : List (ℕ × List Byte)) (m n : ℕ → Byte) : Prop :=
  ∃ done rest l, rs = done ++ rest ∧ Redone done m l ∧
    (n = l ∨ ∃ r rest', rest = r :: rest' ∧ Torn (cells r) l n)

theorem Partly.none (rs : List (ℕ × List Byte)) (m : ℕ → Byte) : Partly rs m m :=
  ⟨[], rs, m, rfl, rfl, Or.inl rfl⟩

theorem Partly.cons {r : ℕ × List Byte} {rs : List (ℕ × List Byte)} {m l n : ℕ → Byte}
    (hl : Lands (cells r) m l) (h : Partly rs l n) : Partly (r :: rs) m n := by
  obtain ⟨done, rest, l', rfl, hdone, hcut⟩ := h
  exact ⟨r :: done, rest, l', rfl, ⟨l, hl, hdone⟩, hcut⟩

theorem Partly.append {rs qs : List (ℕ × List Byte)} {m n : ℕ → Byte} (h : Partly rs m n) :
    Partly (rs ++ qs) m n := by
  obtain ⟨done, rest, l, rfl, hdone, hcut⟩ := h
  refine ⟨done, rest ++ qs, l, List.append_assoc .., hdone, hcut.imp_right ?_⟩
  rintro ⟨r, rest', rfl, ht⟩
  exact ⟨r, rest' ++ qs, rfl, ht⟩

/-- Doing all of the ranges makes good what a part of them did. -/
theorem Partly.redo {rs : List (ℕ × List Byte)} {m n a b : ℕ → Byte} (h : Partly rs m n) (ha : Redone rs m a)
    (hb : Redone rs n b) : b = a := by
  obtain ⟨done, rest, l, rfl, hdone, hcut⟩ := h
  rw [Redone, List.map_append] at ha hb
  rcases hcut with rfl | ⟨r, rest', rfl, ht⟩
  · apply ha.agree hb
    intro k hk
    apply hdone.outside
    rintro ⟨w, hw, b', hb'⟩
    exact hk ⟨w, List.mem_append_left _ hw, b', hb'⟩
  · rw [List.map_cons] at ha hb
    exact ha.interrupted hdone ht hb

section Cut
variable {v : StripeVolume} (h0 : Placed v)
include h0

theorem CutWrite.torn {u : StripeVolume} (hu : SameLayout v u) {off : ℕ} {bytes : List Byte} {d d' : Disks}
    (h : CutWrite u off bytes.length d d') {k : DiskId}
    (hk : InService v d' k) : InService v d k ∧ Torn (cells (off, bytes)) (content v d k) (content v d' k) := by
  constructor
  · intro hl
    exact ⟨(hk hl).1, h.healthy k (hk hl).2⟩
  intro x hx
  have hout : x < off ∨ off + bytes.length ≤ x := not_mem_cells.mp hx
  by_cases hlt : x < v.virtualTotalBytes
  swap
  · simp only [content, if_neg hlt]
  cases hl : v.raidLevel with
  | mirror =>
    simp only [content, hl]
    rw [h.frame k x (by simpa only [hu.raidLevel.trans hl] using hout)]
  | stripe =>
    have hcell := h.frame (vcell v x).1 (vcell v x).2 (by
      simp only [hu.raidLevel.trans hl, hu.vcell, hu.total]
      intro y h1 h2 h3 he
      have hxy := vcell_inj (h0.laid hl) (h0.members hl) h3 hlt he
      omega)
    simp only [content, hl, vbyte, hcell]

theorem replayCut_partly {io : ℕ → IoEnv} {raw : List Byte} (hsize : raw.length ≤ maxJournal) (rs : List Range) :
    ∀ (i : ℕ) {u : StripeVolume} {d d' : Disks}, SameLayout v u → u.cacheEnabled = false →
      (∀ r ∈ rs, 0 < r.dataOff ∧ r.dataOff + r.len ≤ raw.length) → ReplayCut io raw rs i u d d' →
      ∀ k, InService v d' k → InService v d k ∧
        Partly (rs.map (Range.read raw)) (content v d k) (content v d' k) := by
  have hmax : maxJournal = 67108864 := rfl
  induction rs with
  | nil =>
    intro i u d d' _ _ _ h k hk
    have he : d' = d := h
    subst he
    exact ⟨hk, Partly.none _ _⟩
  | cons r rs ih =>
    intro i u d d' hu hc hin h k hk
    have hrest : ∀ q ∈ rs, 0 < q.dataOff ∧ q.dataOff + q.len ≤ raw.length := fun q hq =>
      hin q (List.mem_cons_of_mem _ hq)
    obtain ⟨hpos, hle⟩ := hin r (List.mem_cons_self ..)
    unfold ReplayCut at h
    rcases h with h | h
    · rw [← slice_length raw hle] at h
      obtain ⟨hserve, ht⟩ := h.torn h0 hu hk
      exact ⟨hserve, [], _, _, rfl, rfl, Or.inr ⟨_, _, rfl, ht⟩⟩
    split at h
    · next hskip =>
      obtain ⟨hserve, hpart⟩ := ih (i + 1) hu hc hrest h k hk
      refine ⟨hserve, hpart.cons (lands_cells (fun x h1 h2 => ?_) fun _ _ => rfl)⟩
      rw [Range.read, hskip.resolve_left (by omega), slice_zero] at h1 h2
      simp only [List.length_nil] at h1 h2
      omega
    · obtain ⟨u', e, hw, h⟩ := h
      obtain ⟨hserve, hpart⟩ := ih (i + 1) (hu.trans (stripeVolumeWrite_layout hw))
        (stripeVolumeWrite_uncached hc hw).enabled hrest h k hk
      obtain ⟨hserve', hland⟩ := stripeVolumeWrite_lands (h0.same hu) hc (by omega) hw
        ((inService_same hu e k).mpr hserve)
      rw [content_same hu, bytesAt_slice hle] at hland
      exact ⟨(inService_same hu d k).mp hserve', hpart.cons hland⟩

theorem recoverCut_partly {env : ℕ → RecoverEnv} {letter : DiskId → Letter} (n : ℕ) :
    ∀ (di : ℕ) {u : StripeVolume} {d d' : Disks} {files files' : Files}, SameLayout v u → u.cacheEnabled = false →
      RecoverWorks env files → files.pending.Full → RecoverCut env letter n di u d files d' files' →
      (∀ l, files.pending l = [] → files'.pending l = []) ∧
      ∃ m first, m ≤ n ∧ (∀ i, di ≤ i → i < di + m → files'.pending (letter (v.diskAt i)) = []) ∧
        replayed letter v n di files.pending = first ++ replayed letter v (n - m) (di + m) files'.pending ∧
        ∀ k, InService v d' k → InService v d k ∧ ∃ mid, Redone first (content v d k) mid ∧
          Partly (replayed letter v (n - m) (di + m) files'.pending) mid (content v d' k) := by
  induction n with
  | zero =>
    intro di u d d' files files' _ _ _ _ h
    obtain ⟨rfl, rfl⟩ : d' = d ∧ files' = files := h
    exact ⟨fun _ h => h, 0, [], Nat.le_refl 0, fun i h1 h2 => absurd h2 (by omega), rfl,
      fun k hk => ⟨hk, _, rfl, Partly.none _ _⟩⟩
  | succ n ih =>
    intro di u d d' files files' hu hc hworks hfull h
    unfold RecoverCut at h
    simp only at h
    rcases h with ⟨rfl, hcut⟩ | ⟨hreplay, clean, w, e, empty, hj, h⟩
    · -- inside this member's journal, which is still there
      refine ⟨fun _ h => h, 0, [], Nat.zero_le _, fun i h1 h2 => absurd h2 (by omega), rfl, fun k hk => ?_⟩
      rcases hcut with rfl | ⟨raw, s, hload, hs, hinc, hcut⟩
      · exact ⟨hk, _, rfl, Partly.none _ _⟩
      · obtain ⟨rfl, hsize, hopen⟩ := openRanges_load (hworks.reads di _) hload hs
        obtain ⟨hserve, hpart⟩ := replayCut_partly h0 hsize s.ranges 0 hu hc (scan_inside hs) hcut k hk
        refine ⟨hserve, _, rfl, ?_⟩
        rw [ScanState.open, hinc, if_pos rfl, hu.diskAt] at hopen
        show Partly (replayed letter v (n + 1) di files'.pending) _ _
        rw [replayed]
        have hhere : files'.pending (letter (v.diskAt di)) = s.ranges.map (Range.read (files' (letter (u.diskAt di)))) := by
          rw [hu.diskAt]
          exact hopen
        rw [hhere]
        exact hpart.append
    · -- this member's journal was replayed and emptied
      obtain ⟨hempty, h1, h2, h3⟩ := recoverJournal_redo h0 hu hc (hworks.reads di _) hreplay hj
      obtain ⟨hworks', hpending⟩ := pending_after hworks (hempty (hworks.empties di))
      rw [Pending.next_of (hfull _)] at hpending
      rw [hu.diskAt] at h hworks' hpending
      obtain ⟨hmono, m, first, hm, hnil, hseq, hk'⟩ := ih (di + 1) h1 h2 hworks' (by
        rw [hpending]
        exact hfull.clear _) h
      rw [hpending] at hmono hseq
      have hgone : files'.pending (letter (v.diskAt di)) = [] := hmono _ (if_pos rfl)
      refine ⟨fun l hl => hmono l ?_, m + 1, files.pending (letter (v.diskAt di)) ++ first, by omega,
        fun i hi1 hi2 => ?_, ?_, fun k hk => ?_⟩
      · unfold Pending.clear
        rw [hl, ite_self]
      · by_cases he : i = di
        · rw [he]
          exact hgone
        · exact hnil i (by omega) (by omega)
      · rw [replayed, Pending.next_of (hfull _), hseq, List.append_assoc, Nat.add_sub_add_right, Nat.add_right_comm, Nat.add_assoc]
      · obtain ⟨hserve, mid, hfirst, hpart⟩ := hk' k hk
        obtain ⟨hserve', hredo⟩ := h3 k hserve
        rw [hu.diskAt] at hredo
        rw [Nat.add_sub_add_right, show di + (m + 1) = di + 1 + m by omega]
        refine ⟨hserve', mid, ?_, hpart⟩
        rw [Redone, List.map_append, redo_append]
        exact ⟨_, hredo, hfirst⟩

end Cut

/-! ### Recovering again -/

/-- A recovery that comes to its end, with every file operation and every write successful. -/
structure Recovered (env : ℕ → RecoverEnv) (letter : DiskId → Letter) (v : StripeVolume) (d : Disks) (files : Files)
    (e : Disks) (files' : Files) : Prop where
  works : RecoverWorks env files
  succeeds : RecoverSucceeds env letter v.diskCount 0 v d files
  ends : ∃ clean w, journalRecoverAll env letter v d files = some (clean, w, e, files')

theorem Recovered.redone {env : ℕ → RecoverEnv} {letter : DiskId → Letter} {v u : StripeVolume} {d e : Disks}
    {files files' : Files} (h : Recovered env letter u d files e files') (h0 : Placed v) (hu : SameLayout v u)
    (hc : u.cacheEnabled = false) {k : DiskId} (hk : InService v e k) :
    Redone (replayed letter v v.diskCount 0 files.pending) (content v d k) (content v e k) := by
  obtain ⟨clean, w, hrun⟩ := h.ends
  exact ((journalRecoverAll_redo h0 hu hc h.works h.succeeds hrun).2 k hk).2

/-- With working transfers a stripe volume recovers journals of ranges it can write. -/
theorem recovers {v : StripeVolume} (hr : Ready v) (hl : v.raidLevel = .stripe) (hc : v.cacheEnabled = false)
    {env : ℕ → RecoverEnv} (letter : DiskId → Letter) (hio : ∀ i j, ((env i).io j).Succeeds) {files : Files}
    (hworks : RecoverWorks env files) (hscan : ∀ l, (files l).length ≤ maxJournal → ∃ s, scan (files l) = some s)
    (hmapped : ∀ l, ∀ r ∈ files.pending l, Replayable v r) (d : Disks) :
    ∃ e files', Recovered env letter v d files e files' := by
  have hloop : RecoverSucceeds env letter v.diskCount 0 v d files ∧
      ∃ x, recoverLoop env letter v.diskCount 0 true v d files = some x :=
    recoverLoop_works hr hl hio v.diskCount 0 true d (SameLayout.refl v) hc hworks hscan hmapped
  obtain ⟨hok, ⟨clean, w, e, files'⟩, h⟩ := hloop
  exact ⟨e, files', hworks, hok, clean, w, h⟩

/-- The last point an interruption can come at: all journals are through. -/
theorem recoverCut_end {env : ℕ → RecoverEnv} {letter : DiskId → Letter} (n : ℕ) :
    ∀ (di : ℕ) (allClean : Bool) {v w : StripeVolume} {d e : Disks} {files files' : Files} {clean : Bool},
      RecoverSucceeds env letter n di v d files →
      recoverLoop env letter n di allClean v d files = some (clean, w, e, files') →
      RecoverCut env letter n di v d files e files' := by
  induction n with
  | zero =>
    intro di allClean v w d e files files' clean _ h
    simp only [recoverLoop, Option.some.injEq, Prod.mk.injEq] at h
    obtain ⟨_, _, rfl, rfl⟩ := h
    exact ⟨rfl, rfl⟩
  | succ n ih =>
    intro di allClean v w d e files files' clean hok h
    obtain ⟨hreplay, hrest⟩ := hok
    unfold recoverLoop at h
    simp only at h
    split at h
    · cases h
    next c1 v1 d1 empty hj => exact Or.inr ⟨hreplay, c1, v1, d1, empty, hj, ih _ _ (hrest _ _ _ _ hj) h⟩

theorem Recovered.cut {env : ℕ → RecoverEnv} {letter : DiskId → Letter} {v : StripeVolume} {d e : Disks}
    {files files' : Files} (h : Recovered env letter v d files e files') :
    RecoverCut env letter v.diskCount 0 v d files e files' := by
  obtain ⟨clean, w, hrun⟩ := h.ends
  exact recoverCut_end _ _ _ h.succeeds hrun

/-- A recovery is interrupted and, after another load of the volume, run again to its end. If
no open transaction names a range without bytes, the bytes on every member that stays in
service are those of one recovery without interruption. -/
theorem recover_interrupted {v u : StripeVolume} (h0 : Placed v) (hc : v.cacheEnabled = false)
    {letter : DiskId → Letter} {files : Files} (hfull : files.pending.Full) {d : Disks}
    -- the recovery without interruption
    {env : ℕ → RecoverEnv} {e : Disks} {files1 : Files} (hrun : Recovered env letter v d files e files1)
    -- the one that is interrupted
    {env' : ℕ → RecoverEnv} {d' : Disks} {files' : Files} (hworks : RecoverWorks env' files)
    (hcut : RecoverCut env' letter v.diskCount 0 v d files d' files')
    -- and the one after it
    {env2 : ℕ → RecoverEnv} {d2 e2 : Disks} {files2 : Files} (hu : SameLayout v u) (hcu : u.cacheEnabled = false)
    (hpool : d2.pool = d'.pool) (hagain : Recovered env2 letter u d2 files' e2 files2)
    {k : DiskId} (hk : InService v e k) (hk' : InService v d' k) (hk2 : InService v e2 k) :
    content v e2 k = content v e k := by
  obtain ⟨_, m, first, hm, hnil, hseq, hpart⟩ := recoverCut_partly h0 v.diskCount 0 (SameLayout.refl v) hc hworks hfull hcut
  obtain ⟨_, mid, hfirst, hpart⟩ := hpart k hk'
  -- the second recovery passes the journals emptied by the first
  have hskip : replayed letter v v.diskCount 0 files'.pending =
      replayed letter v (v.diskCount - m) (0 + m) files'.pending := by
    have h := replayed_skip letter v m (v.diskCount - m) 0 hnil
    rwa [Nat.add_sub_cancel' hm] at h
  have hone := hrun.redone h0 (SameLayout.refl v) hc hk
  have htwo := hagain.redone h0 hu hcu hk2
  rw [content_pool v hpool, hskip] at htwo
  rw [hseq, Redone, List.map_append, redo_append] at hone
  obtain ⟨l, hl, hrest⟩ := hone
  have hmid : l = mid := hfirst.agree hl fun _ _ => rfl
  rw [hmid] at hrest
  exact hpart.redo hrest htwo

/-! ### A range without bytes -/

/-- Every file operation and every transfer succeeds. -/
def recoverGood : ℕ → RecoverEnv := fun _ => ⟨true, true, true, some maxJournal, fun _ => .good, true⟩

/-- Journals that hold whole records. -/
def rowFiles (recs : Letter → List Rec) : Files := fun l => images (recs l)

section Rows
variable {recs : Letter → List Rec} (hfits : ∀ l, ∀ r ∈ recs l, r.Fits)
  (hsize : ∀ l, (images (recs l)).length ≤ maxJournal)
include hfits hsize

theorem rowFiles_pending : (rowFiles recs).pending = fun l => openOf (recs l) := by
  funext l
  have h := openRanges_images (hfits l) tornOff_nil (by rw [List.append_nil]; exact hsize l)
  rw [List.append_nil] at h
  exact h

theorem rowFiles_recovered {files : Files} (hfiles : ∀ l, files l = rowFiles recs l ∨ files l = [])
    (hmapped : ∀ l, ∀ r ∈ openOf (recs l), Replayable pairVolume r) (d : Disks) :
    ∃ e files', Recovered recoverGood id pairVolume d files e files' := by
  have hpending := rowFiles_pending hfits hsize
  apply recovers pairVolume_ready rfl rfl id (fun _ _ => IoEnv.good_succeeds)
  · constructor
    · intro i l
      refine ⟨rfl, rfl, rfl, maxJournal, rfl, ?_⟩
      rcases hfiles l with h | h
      · rw [h]
        exact hsize l
      · rw [h]
        exact Nat.zero_le _
    · exact fun _ => rfl
  · intro l _
    rcases hfiles l with h | h
    · obtain ⟨s, hs, _⟩ := scan_images (hfits l) tornOff_nil (by rw [List.append_nil]; exact hsize l)
      rw [List.append_nil] at hs
      rw [h]
      exact ⟨s, hs⟩
    · rw [h]
      exact ⟨_, rfl⟩
  · intro l r hr
    rcases hfiles l with h | h
    · apply hmapped l
      rw [Files.pending, h] at hr
      exact congrFun hpending l ▸ hr
    · rw [Files.pending, h] at hr
      cases hr

end Rows

theorem pairVolume_replayable (b : Byte) : Replayable pairVolume (0, [b]) :=
  Or.inr ⟨show 0 + 1 ≤ pairVolume.virtualTotalBytes by decide +kernel, [⟨0, 0, 1⟩],
    show mapLba pairVolume 0 1 = some [⟨0, 0, 1⟩] by decide +kernel, by decide⟩

/-- The journal of drive 0 names a range without bytes, and a byte that drive 1's journal names too. -/
def emptyRecs : Letter → List Rec
  | 0 => [.begin 0 0, .data 0 0 0 [1], .data 0 0 0 []]
  | 1 => [.begin 0 0, .data 0 0 0 [2]]
  | _ => []

theorem emptyRecs_ok : (∀ l, ∀ r ∈ emptyRecs l, r.Fits) ∧ (∀ l, (images (emptyRecs l)).length ≤ maxJournal) ∧
    ∀ l, ∀ r ∈ openOf (emptyRecs l), Replayable pairVolume r := by
  refine ⟨fun l => ?_, fun l => ?_, fun l => ?_⟩
  · match l with
    | 0 => simp [emptyRecs, Rec.Fits, maxFlushSize]
    | 1 => simp [emptyRecs, Rec.Fits, maxFlushSize]
    | _ + 2 => simp [emptyRecs]
  · match l with
    | 0 => decide +kernel
    | 1 => decide +kernel
    | _ + 2 => exact Nat.zero_le _
  · match l with
    | 0 =>
      have h : openOf (emptyRecs 0) = [(0, [1]), (0, [])] := by decide +kernel
      rw [h]
      simp only [List.forall_mem_cons]
      exact ⟨pairVolume_replayable 1, Or.inl rfl, nofun⟩
    | 1 =>
      have h : openOf (emptyRecs 1) = [(0, [2])] := by decide +kernel
      rw [h]
      simp only [List.forall_mem_cons]
      exact ⟨pairVolume_replayable 2, nofun⟩
    | _ + 2 => exact nofun

theorem emptyRecs_replayed :
    replayed id pairVolume pairVolume.diskCount 0 (fun l => openOf (emptyRecs l)) = [(0, [1]), (0, []), (0, [2])] ∧
      replayed id pairVolume pairVolume.diskCount 0
        (remaining id pairVolume pairVolume.diskCount 0 fun l => openOf (emptyRecs l)) = [(0, [1]), (0, [])] := by
  decide +kernel

/-- Drive 0's journal is never emptied, so its byte comes back over that of drive 1's. -/
theorem recover_interrupted_fails : ∃ e files1 e2 files2,
    (∀ l, (rowFiles emptyRecs l).length ≤ maxJournal ∧ ((rowFiles emptyRecs).pending l).length ≤ maxRanges) ∧
    Recovered recoverGood id pairVolume pairDisks (rowFiles emptyRecs) e files1 ∧
    RecoverCut recoverGood id pairVolume.diskCount 0 pairVolume pairDisks (rowFiles emptyRecs) e files1 ∧
    Recovered recoverGood id pairVolume e files1 e2 files2 ∧
    content pairVolume e 0 0 = 2 ∧ content pairVolume e2 0 0 = 1 := by
  obtain ⟨hfits, hsize, hmapped⟩ := emptyRecs_ok
  have hpending := rowFiles_pending hfits hsize
  have hrows := fun (files : Files) (hfiles : ∀ l, files l = rowFiles emptyRecs l ∨ files l = []) =>
    rowFiles_recovered hfits hsize hfiles hmapped
  have hlen : ∀ l, (rowFiles emptyRecs l).length ≤ maxJournal := hsize
  -- the bytes of the journals do not matter from here on
  generalize rowFiles emptyRecs = files at hpending hrows hlen ⊢
  have h0 := Placed.of_ready pairVolume_ready
  have hsame := SameLayout.refl pairVolume
  have hc : pairVolume.cacheEnabled = false := rfl
  have hserve : ∀ e, InService pairVolume e 0 := fun e h => absurd h (by decide)
  obtain ⟨e, files1, h1⟩ := hrows files (fun _ => Or.inl rfl) pairDisks
  obtain ⟨clean, w, hrun⟩ := h1.ends
  obtain ⟨e2, files2, h2⟩ := hrows files1 (recoverLoop_files _ _ _ _ _ hrun) e
  have hleft := (journalRecoverAll_redo h0 hsame hc h1.works h1.succeeds hrun).1
  have hone := h1.redone h0 hsame hc (hserve e)
  have htwo := h2.redone h0 hsame hc (hserve e2)
  rw [hleft, hpending, emptyRecs_replayed.2] at htwo
  rw [hpending, emptyRecs_replayed.1] at hone
  refine ⟨e, files1, e2, files2, fun l => ⟨hlen l, ?_⟩, h1, h1.cut, h2, ?_, ?_⟩
  · rw [hpending]
    match l with
    | 0 => decide +kernel
    | 1 => decide +kernel
    | _ + 2 => exact Nat.zero_le _
  · obtain ⟨_, _, _, _, _, hlast, rfl⟩ := hone
    exact hlast.inside 0 2 (by decide)
  · apply Redo.settled htwo (y := 1)
    · intro x hx b hb
      obtain ⟨r, hr, rfl⟩ := List.mem_map.mp hx
      obtain ⟨_, hlt, hb⟩ := mem_cells.mp hb
      rcases List.mem_cons.mp hr with rfl | hr
      · exact hb
      · rw [List.mem_singleton.mp hr] at hlt
        exact absurd hlt (by decide)
    · exact Or.inl ⟨_, List.mem_cons_self .., 1, by decide⟩

/-- Both journals name the same byte. -/
def twoRecs : Letter → List Rec
  | 0 => [.begin 0 0, .data 0 0 0 [1]]
  | 1 => [.begin 0 0, .data 0 0 0 [2]]
  | _ => []

theorem twoRecs_open : openOf (twoRecs 0) = [(0, [1])] ∧ openOf (twoRecs 1) = [(0, [2])] := by decide +kernel

theorem twoRecs_ok : (∀ l, ∀ r ∈ twoRecs l, r.Fits) ∧ (∀ l, (images (twoRecs l)).length ≤ maxJournal) ∧
    (∀ l, ∀ r ∈ openOf (twoRecs l), Replayable pairVolume r) ∧ ∀ l, ∀ r ∈ openOf (twoRecs l), r.2 ≠ [] := by
  refine ⟨fun l => ?_, fun l => ?_, fun l r hr => ?_, fun l r hr => ?_⟩
  · match l with
    | 0 => simp [twoRecs, Rec.Fits, maxFlushSize]
    | 1 => simp [twoRecs, Rec.Fits, maxFlushSize]
    | _ + 2 => simp [twoRecs]
  · match l with
    | 0 => decide +kernel
    | 1 => decide +kernel
    | _ + 2 => exact Nat.zero_le _
  · match l with
    | 0 =>
      rw [twoRecs_open.1, List.mem_singleton] at hr
      exact hr ▸ pairVolume_replayable 1
    | 1 =>
      rw [twoRecs_open.2, List.mem_singleton] at hr
      exact hr ▸ pairVolume_replayable 2
    | _ + 2 => cases hr
  · match l with
    | 0 =>
      rw [twoRecs_open.1, List.mem_singleton] at hr
      exact hr ▸ List.cons_ne_nil _ _
    | 1 =>
      rw [twoRecs_open.2, List.mem_singleton] at hr
      exact hr ▸ List.cons_ne_nil _ _
    | _ + 2 => cases hr

/-- The first write was cut short: its byte is neither the old one nor the new one. -/
def tornDisks : Disks := pairDisks.writePool 0 0 1 fun _ => 9

/-- The scan of a journal whose open transaction has one range. -/
theorem scan_one {recs : List Rec} (hfits : ∀ r ∈ recs, r.Fits) (hsize : (images recs).length ≤ maxJournal)
    {off : ℕ} {bytes : List Byte} (hopen : (txnOf recs).incomplete = true) (hkept : (txnOf recs).kept = [(off, bytes)]) :
    ∃ s r, scan (images recs) = some s ∧ s.incomplete = true ∧ s.ranges = [r] ∧ 0 < r.dataOff ∧ r.off = off ∧
      r.len = bytes.length := by
  obtain ⟨s, hs, hagree⟩ := scan_images hfits tornOff_nil (by rw [List.append_nil]; exact hsize)
  rw [List.append_nil] at hs hagree
  have hinc := hagree.incomplete.trans hopen
  obtain ⟨_, _, hk, hin⟩ := hagree
  rw [hkept] at hk
  obtain ⟨r, rs, hr, hrange, hnil⟩ := List.map_eq_cons_iff.mp hk
  obtain rfl := List.map_eq_nil_iff.mp hnil
  obtain ⟨hpos, hle⟩ := hin r (by rw [hr]; exact List.mem_cons_self ..)
  have hlen := slice_length _ hle
  obtain ⟨hoff, hbytes⟩ := Prod.mk.inj hrange
  rw [hbytes] at hlen
  exact ⟨s, r, hs, hinc, hr, hpos, hoff, hlen.symm⟩

theorem tornDisks_cut : RecoverCut recoverGood id pairVolume.diskCount 0 pairVolume pairDisks (rowFiles twoRecs)
    tornDisks (rowFiles twoRecs) := by
  obtain ⟨hfits, hsize, _⟩ := twoRecs_ok
  obtain ⟨s, r, hs, hinc, hr, _, hoff, hlen⟩ := scan_one (hfits 0) (hsize 0) (by decide +kernel)
    (show (txnOf (twoRecs 0)).kept = [(0, [1])] by decide +kernel)
  have hreads : (recoverGood 0).Reads (images (twoRecs 0)) := ⟨rfl, rfl, rfl, maxJournal, rfl, hsize 0⟩
  have hload := loadJournal_reads hreads (by decide +kernel) (hsize 0)
  refine Or.inl ⟨rfl, Or.inr ⟨_, s, hload, hs, hinc, ?_⟩⟩
  rw [hr]
  refine Or.inl ⟨fun k p hp => ?_, fun _ h => h⟩
  have hcell : vcell pairVolume 0 = (0, 0) := by decide +kernel
  have hne := hp 0 (by rw [hoff]) (by rw [hoff, hlen]; decide) (by decide +kernel)
  rw [hcell] at hne
  refine if_neg fun h => hne ?_
  obtain ⟨rfl, _, hlt⟩ := h
  obtain rfl : p = 0 := by omega
  rfl

theorem recover_interrupted_sample : ∃ e files1 e2 files2,
    Recovered recoverGood id pairVolume pairDisks (rowFiles twoRecs) e files1 ∧
    Recovered recoverGood id pairVolume tornDisks (rowFiles twoRecs) e2 files2 ∧
    content pairVolume e2 0 = content pairVolume e 0 := by
  obtain ⟨hfits, hsize, hmapped, hfull⟩ := twoRecs_ok
  obtain ⟨e, files1, h1⟩ := rowFiles_recovered hfits hsize (fun _ => Or.inl rfl) hmapped pairDisks
  obtain ⟨e2, files2, h2⟩ := rowFiles_recovered hfits hsize (fun _ => Or.inl rfl) hmapped tornDisks
  have hserve : ∀ e, InService pairVolume e 0 := fun e h => absurd h (by decide)
  have hpending : (rowFiles twoRecs).pending.Full := by
    rw [rowFiles_pending hfits hsize]
    exact hfull
  exact ⟨e, files1, e2, files2, h1, h2, recover_interrupted (Placed.of_ready pairVolume_ready) rfl hpending h1 h1.works
    tornDisks_cut (SameLayout.refl pairVolume) rfl rfl h2 (hserve e) (hserve tornDisks) (hserve e2)⟩

end RaidTest.Journal
