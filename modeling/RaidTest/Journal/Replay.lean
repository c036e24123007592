import RaidTest.Journal.Landing
import RaidTest.Journal.Recover

/-!
# Replaying open transactions

If all writes of a recovery succeed, it redoes the ranges of the open transactions, journal by
journal, and each journal once. On a volume whose transfers work, and that can write the
ranges, they all succeed.
-/

namespace RaidTest.Journal
open RaidTest.Base RaidTest.Stripe RaidTest.Mirror

/-! ### Open transactions -/

/-- The ranges name bytes of the file. -/
def ScanState.Inside (s : ScanState) (raw : List Byte) : Prop :=
  ∀ r ∈ s.ranges, 0 < r.dataOff ∧ r.dataOff + r.len ≤ raw.length

theorem ScanState.Inside.of_ranges {s t : ScanState} {raw : List Byte} (h : s.Inside raw)
    (ht : t.ranges = s.ranges ∨ t.ranges = []) : t.Inside raw := by
  intro r hr
  rcases ht with he | he
  · rw [he] at hr
    exact h r hr
  · rw [he] at hr
    cases hr

theorem scanTurn_inside {raw : List Byte} {s t : ScanState} (h : s.Inside raw)
    (ht : scanTurn raw s = .stop t ∨ scanTurn raw s = .more t) : t.Inside raw := by
  unfold scanTurn at ht
  simp only at ht
  split at ht
  · rcases ht with ht | ht <;> cases ht
    exact h.of_ranges (Or.inl rfl)
  split at ht
  · rcases ht with ht | ht <;> cases ht
    exact h.of_ranges (Or.inl rfl)
  split at ht
  · rcases ht with ht | ht <;> cases ht
    exact h.of_ranges (Or.inr rfl)
  split at ht
  · next hdata =>
    split at ht
    · next hroom =>
      split at ht
      · rcases ht with ht | ht <;> cases ht
      next hin =>
      split at ht
      · rcases ht with ht | ht <;> cases ht
        intro r hr
        rcases List.mem_append.mp hr with hr | hr
        · exact h r hr
        · rw [List.mem_singleton.mp hr]
          have hlen : payloadOf (readEntry raw s.offset) = (readEntry raw s.offset).length := if_pos ⟨hroom.1, hdata.1⟩
          rw [hlen] at hin
          have he : entrySize = 48 := rfl
          simp only
          omega
      · rcases ht with ht | ht <;> cases ht
        exact h.of_ranges (Or.inl rfl)
    · rcases ht with ht | ht <;> cases ht
      exact h.of_ranges (Or.inl rfl)
  split at ht
  · rcases ht with ht | ht <;> cases ht
    exact h.of_ranges (Or.inl rfl)
  · rcases ht with ht | ht <;> cases ht
    exact h.of_ranges (Or.inl rfl)

theorem scanLoop_inside {raw : List Byte} (fuel : ℕ) :
    ∀ {s t : ScanState}, s.Inside raw → scanLoop raw fuel s = some t → t.Inside raw := by
  induction fuel with
  | zero => intro s t _ ht; cases ht
  | succ fuel ih =>
    intro s t h ht
    unfold scanLoop at ht
    split at ht
    · split at ht
      · next u hu =>
        obtain rfl := Option.some.inj ht
        exact scanTurn_inside h (Or.inl hu)
      · next u hu => exact ih (scanTurn_inside h (Or.inr hu)) ht
      · cases ht
    · obtain rfl := Option.some.inj ht
      exact h

theorem scan_inside {raw : List Byte} {s : ScanState} (h : scan raw = some s) : s.Inside raw :=
  scanLoop_inside _ (fun _ hr => absurd hr List.not_mem_nil) h

/-- The offset and the bytes of a range. -/
def Range.read (raw : List Byte) (r : Range) : ℕ × List Byte := (r.off, slice raw r.dataOff r.len)

/-- The ranges that a scan which finds an open transaction remembers. -/
def ScanState.open (s : ScanState) (raw : List Byte) : List (ℕ × List Byte) :=
  if s.incomplete then s.ranges.map (Range.read raw) else []

/-- The ranges of the open transaction of a journal file. -/
def openRanges (content : List Byte) : List (ℕ × List Byte) :=
  if content.length < entrySize ∨ content.length > maxJournal then []
  else
    match scan content with
    | none => []
    | some s => s.open content

theorem bytesAt_slice {raw : List Byte} {o n : ℕ} (h : o + n ≤ raw.length) : bytesAt (bufAt raw o) n = slice raw o n := by
  apply List.ext_getElem
  · rw [bytesAt_length, slice_length raw h]
  · intro i h1 h2
    rw [bytesAt_length] at h1
    simp only [bytesAt, List.getElem_map, List.getElem_range, bufAt, slice, List.getElem_take, List.getElem_drop]
    rw [List.getD_eq_getElem _ _ (by omega)]

/-- The ranges of the transaction a row of records leaves open. -/
def openOf (recs : List Rec) : List (ℕ × List Byte) := if (txnOf recs).incomplete then (txnOf recs).kept else []

/-- A journal of whole records with a torn one behind them. -/
theorem openRanges_images {recs : List Rec} {tail : List Byte} (hfits : ∀ r ∈ recs, r.Fits) (ht : TornOff tail)
    (hsize : (images recs ++ tail).length ≤ maxJournal) :
    openRanges (images recs ++ tail) = openOf recs := by
  obtain ⟨s, hs, hagree⟩ := scan_images hfits ht hsize
  have hopen : s.open (images recs ++ tail) = openOf recs := by
    unfold ScanState.open openOf
    rw [hagree.incomplete, ← hagree.kept]
    rfl
  unfold openRanges
  split
  · next hout =>
    -- less than a header: there is no whole record
    cases recs with
    | nil => rfl
    | cons r recs =>
      have himg : images (r :: recs) = r.image ++ images recs := rfl
      have hlen := r.image_length
      rw [himg, List.append_assoc, List.length_append] at hout hsize
      omega
  · rw [hs]
    exact hopen

/-! ### A replay that succeeds -/

/-- Every write of the loop is answered with `true`. -/
def ReplaySucceeds (io : ℕ → IoEnv) (raw : List Byte) : List Range → ℕ → StripeVolume → Disks → Prop
  | [], _, _, _ => True
  | r :: rs, i, v, d =>
    if r.dataOff = 0 ∨ r.len = 0 then ReplaySucceeds io raw rs (i + 1) v d
    else ∃ w e, stripeVolumeWrite (io i) v d (bufAt raw r.dataOff) r.off r.len = some (true, w, e) ∧
      ReplaySucceeds io raw rs (i + 1) w e

/-- The writes of the ranges took one member's copy from `m` to `n`. -/
abbrev Redone (rs : List (ℕ × List Byte)) (m n : ℕ → Byte) : Prop := Redo (rs.map cells) m n

theorem redo_empty {r : ℕ × List Byte} (h : r.2 = []) {rs : List (ℕ × List Byte)} {m n : ℕ → Byte}
    (hr : Redone rs m n) : Redone (r :: rs) m n := by
  refine ⟨m, lands_cells (fun x h1 h2 => ?_) (fun _ _ => rfl), hr⟩
  rw [h, List.length_nil] at h2
  omega

theorem loadJournal_none {env : RecoverEnv} {file : List Byte}
    (h : file.length < entrySize ∨ file.length > maxJournal) : loadJournal env file = none := by
  unfold loadJournal
  split
  · rfl
  next hg =>
  simp only [not_or] at hg
  split
  · rfl
  next n _ =>
  have hshort := h.resolve_right hg.2.2.2.1
  have hle : (file.take n).length ≤ file.length := by
    rw [List.length_take]
    exact Nat.min_le_right _ _
  exact if_pos (by omega)

/-- What recovery scans is the file, and what it finds open are the open ranges of the file. -/
theorem openRanges_load {env : RecoverEnv} {file raw : List Byte} {s : ScanState} (hreads : env.Reads file)
    (hload : loadJournal env file = some raw) (hs : scan raw = some s) :
    raw = file ∧ raw.length ≤ maxJournal ∧ openRanges file = s.open raw := by
  by_cases hsize : file.length < entrySize ∨ file.length > maxJournal
  · rw [loadJournal_none hsize] at hload
    cases hload
  have hopen : openRanges file = match scan file with
    | none => []
    | some s => s.open file := by
    unfold openRanges
    rw [if_neg hsize]
  simp only [not_or, Nat.not_lt] at hsize
  rw [loadJournal_reads hreads hsize.1 hsize.2] at hload
  obtain rfl := Option.some.inj hload
  rw [hs] at hopen
  exact ⟨rfl, hsize.2, hopen⟩

section Replay
variable {v : StripeVolume} (h0 : Placed v)
include h0

/-- The writes of a replay redo its ranges; the ranges without bytes count as failed. -/
theorem replayLoop_redo {io : ℕ → IoEnv} {raw : List Byte} (hsize : raw.length ≤ maxJournal) (rs : List Range) :
    ∀ (i failed : ℕ) {u w : StripeVolume} {d e : Disks} {n : ℕ}, SameLayout v u → u.cacheEnabled = false →
      (∀ r ∈ rs, 0 < r.dataOff ∧ r.dataOff + r.len ≤ raw.length) → ReplaySucceeds io raw rs i u d →
      replayLoop io raw rs i failed u d = some (n, w, e) →
      n = failed + (rs.filter fun r => decide (r.len = 0)).length ∧ SameLayout v w ∧ w.cacheEnabled = false ∧
        ∀ k, InService v e k → InService v d k ∧
          Redone (rs.map (Range.read raw)) (content v d k) (content v e k) := by
  have hmax : maxJournal = 67108864 := rfl
  induction rs with
  | nil =>
    intro i failed u w d e n hu hc _ _ h
    simp only [replayLoop, Option.some.injEq, Prod.mk.injEq] at h
    obtain ⟨rfl, rfl, rfl⟩ := h
    exact ⟨rfl, hu, hc, fun k hk => ⟨hk, rfl⟩⟩
  | cons r rs ih =>
    intro i failed u w d e n hu hc hin hok h
    obtain ⟨hpos, hle⟩ := hin r (List.mem_cons_self ..)
    have hrest : ∀ q ∈ rs, 0 < q.dataOff ∧ q.dataOff + q.len ≤ raw.length := fun q hq =>
      hin q (List.mem_cons_of_mem _ hq)
    unfold replayLoop at h
    unfold ReplaySucceeds at hok
    split at h
    · next hskip =>
      have hlen : r.len = 0 := hskip.resolve_left (by omega)
      rw [if_pos hskip] at hok
      obtain ⟨hn, h1, h2, h3⟩ := ih (i + 1) (failed + 1) hu hc hrest hok h
      refine ⟨?_, h1, h2, fun k hk => ?_⟩
      · rw [hn, List.filter_cons_of_pos (by simpa using hlen), List.length_cons]
        omega
      · obtain ⟨hserve, hredo⟩ := h3 k hk
        refine ⟨hserve, redo_empty ?_ hredo⟩
        rw [Range.read, hlen, slice_zero]
    · next hskip =>
      rw [if_neg hskip] at hok
      obtain ⟨u', d', hw, hok⟩ := hok
      rw [hw] at h
      simp only at h
      have hsame := stripeVolumeWrite_layout hw
      obtain ⟨hn, h1, h2, h3⟩ := ih (i + 1) failed (hu.trans hsame) (stripeVolumeWrite_uncached hc hw).enabled hrest hok h
      refine ⟨?_, h1, h2, fun k hk => ?_⟩
      · rw [hn, List.filter_cons_of_neg (by simp only [decide_eq_true_eq]; omega)]
      · obtain ⟨hserve, hredo⟩ := h3 k hk
        obtain ⟨hserve', hland⟩ := stripeVolumeWrite_lands (h0.same hu) hc (by omega) hw
          ((inService_same hu d' k).mpr hserve)
        rw [content_same hu, bytesAt_slice hle] at hland
        exact ⟨(inService_same hu d k).mp hserve', _, hland, hredo⟩

/-- One journal: its ranges are redone, and it is emptied or had none, unless a range has no bytes. -/
theorem recoverJournal_redo {env : RecoverEnv} {file : List Byte} {u w : StripeVolume} {d e : Disks}
    {clean empty : Bool} (hu : SameLayout v u) (hc : u.cacheEnabled = false) (hreads : env.Reads file)
    (hok : ∀ raw s, loadJournal env file = some raw → scan raw = some s → s.incomplete = true →
      ReplaySucceeds env.io raw s.ranges 0 u d)
    (h : recoverJournal env u d file = some (clean, w, e, empty)) :
    (env.empties = true → ((empty = true ∨ openRanges file = []) ↔ ∀ r ∈ openRanges file, r.2 ≠ [])) ∧
      SameLayout v w ∧ w.cacheEnabled = false ∧
      ∀ k, InService v e k → InService v d k ∧ Redone (openRanges file) (content v d k) (content v e k) := by
  by_cases hsize : file.length < entrySize ∨ file.length > maxJournal
  · have hopen : openRanges file = [] := by
      unfold openRanges
      rw [if_pos hsize]
    unfold recoverJournal at h
    rw [loadJournal_none hsize] at h
    simp only [Option.some.injEq, Prod.mk.injEq] at h
    obtain ⟨_, rfl, rfl, _⟩ := h
    rw [hopen]
    exact ⟨fun _ => ⟨fun _ => nofun, fun _ => Or.inr rfl⟩, hu, hc, fun k hk => ⟨hk, rfl⟩⟩
  have hopen : openRanges file = match scan file with
    | none => []
    | some s => s.open file := by
    unfold openRanges
    rw [if_neg hsize]
  simp only [not_or, Nat.not_lt] at hsize
  have hload := loadJournal_reads hreads hsize.1 hsize.2
  unfold recoverJournal at h
  rw [hload] at h
  simp only at h
  cases hs : scan file with
  | none =>
    rw [hs] at h
    cases h
  | some s =>
    rw [hs] at h
    rw [hs] at hopen
    simp only at h hopen
    cases hinc : s.incomplete with
    | false =>
      rw [hinc, if_neg Bool.false_ne_true] at h
      simp only [Option.some.injEq, Prod.mk.injEq] at h
      obtain ⟨_, rfl, rfl, _⟩ := h
      have hnone : openRanges file = [] := by
        rw [hopen, ScanState.open, hinc, if_neg Bool.false_ne_true]
      rw [hnone]
      exact ⟨fun _ => ⟨fun _ => nofun, fun _ => Or.inr rfl⟩, hu, hc, fun k hk => ⟨hk, rfl⟩⟩
    | true =>
      rw [hinc, if_pos rfl] at h
      have hranges : openRanges file = s.ranges.map (Range.read file) := by
        rw [hopen, ScanState.open, hinc, if_pos rfl]
      split at h
      · cases h
      next failed u' d' hreplay =>
      simp only [Option.some.injEq, Prod.mk.injEq] at h
      obtain ⟨_, rfl, rfl, rfl⟩ := h
      obtain ⟨hn, h1, h2, h3⟩ := replayLoop_redo h0 hsize.2 s.ranges 0 0 hu hc (scan_inside hs)
        (hok file s hload hs hinc) hreplay
      rw [hranges]
      refine ⟨fun hempties => ?_, h1, h2, h3⟩
      rw [hn, hempties, Nat.zero_add, Bool.and_true, beq_iff_eq, List.length_eq_zero_iff, List.filter_eq_nil_iff]
      have hread : ∀ r ∈ s.ranges, (r.read file).2 = [] ↔ r.len = 0 := by
        intro r hr
        have hlen := slice_length file (scan_inside hs r hr).2
        rw [← hlen, List.length_eq_zero_iff]
        rfl
      constructor
      · rintro (hall | hnil) q hq
        · obtain ⟨r, hr, rfl⟩ := List.mem_map.mp hq
          intro he
          exact hall r hr (by simpa using (hread r hr).mp he)
        · rw [hnil] at hq
          cases hq
      · intro hfull
        left
        intro r hr hz
        exact hfull _ (List.mem_map_of_mem hr) ((hread r hr).mpr (by simpa using hz))

end Replay

/-! ### A recovery that succeeds -/

/-- Every write of the loop over the members is answered with `true`. -/
def RecoverSucceeds (env : ℕ → RecoverEnv) (letter : DiskId → Letter) :
    ℕ → ℕ → StripeVolume → Disks → Files → Prop
  | 0, _, _, _, _ => True
  | n + 1, di, v, d, files =>
    let l := letter (v.diskAt di)
    (∀ raw s, loadJournal (env di) (files l) = some raw → scan raw = some s → s.incomplete = true →
        ReplaySucceeds (env di).io raw s.ranges 0 v d) ∧
      ∀ clean w e empty, recoverJournal (env di) v d (files l) = some (clean, w, e, empty) →
        RecoverSucceeds env letter n (di + 1) w e (if empty then files.set l [] else files)

/-- The ranges each drive's journal still has to be replayed. -/
abbrev Pending := Letter → List (ℕ × List Byte)

def Pending.clear (g : Pending) (l : Letter) : Pending := fun k => if k = l then [] else g k

/-- A replayed journal is emptied unless a range has no bytes: that one counts as failed. -/
def Pending.next (g : Pending) (l : Letter) : Pending := if (g l).all fun r => !r.2.isEmpty then g.clear l else g

def Files.pending (files : Files) : Pending := fun l => openRanges (files l)

/-- The ranges replayed for `n` members from number `di` on. -/
def replayed (letter : DiskId → Letter) (v : StripeVolume) : ℕ → ℕ → Pending → List (ℕ × List Byte)
  | 0, _, _ => []
  | n + 1, di, g => g (letter (v.diskAt di)) ++ replayed letter v n (di + 1) (g.next (letter (v.diskAt di)))

/-- The ranges left after them. -/
def remaining (letter : DiskId → Letter) (v : StripeVolume) : ℕ → ℕ → Pending → Pending
  | 0, _, g => g
  | n + 1, di, g => remaining letter v n (di + 1) (g.next (letter (v.diskAt di)))

theorem pending_set (files : Files) (l : Letter) : (files.set l []).pending = files.pending.clear l := by
  funext k
  unfold Files.pending Pending.clear Files.set
  split
  · rfl
  · rfl

theorem Pending.clear_of_nil {g : Pending} {l : Letter} (h : g l = []) : g.clear l = g := by
  funext k
  unfold Pending.clear
  split
  · next he => rw [he, h]
  · rfl

/-- All journals can be read, and emptied. -/
structure RecoverWorks (env : ℕ → RecoverEnv) (files : Files) : Prop where
  reads : ∀ i l, (env i).Reads (files l)
  empties : ∀ i, (env i).empties = true

theorem RecoverWorks.set {env : ℕ → RecoverEnv} {files : Files} (h : RecoverWorks env files) (l : Letter) :
    RecoverWorks env (files.set l []) where
  reads i k := by
    obtain ⟨h1, h2, h3, n, h4, _⟩ := h.reads i k
    by_cases hk : k = l
    · rw [hk, Files.set_same]
      exact ⟨h1, h2, h3, n, h4, Nat.zero_le n⟩
    · rw [Files.set_other files [] hk]
      exact h.reads i k
  empties := h.empties

theorem Pending.next_of {g : Pending} {l : Letter} (h : ∀ r ∈ g l, r.2 ≠ []) : g.next l = g.clear l := by
  refine if_pos (List.all_eq_true.mpr fun r hr => ?_)
  rw [Bool.not_eq_true', List.isEmpty_eq_false_iff]
  exact h r hr

/-- What the later members find. -/
theorem pending_after {env : ℕ → RecoverEnv} {files : Files} {l : Letter} {empty : Bool} (h : RecoverWorks env files)
    (hdone : (empty = true ∨ openRanges (files l) = []) ↔ ∀ r ∈ openRanges (files l), r.2 ≠ []) :
    RecoverWorks env (if empty then files.set l [] else files) ∧
      (if empty then files.set l [] else files).pending = files.pending.next l := by
  by_cases hfull : ∀ r ∈ files.pending l, r.2 ≠ []
  · rw [Pending.next_of hfull]
    cases empty with
    | true =>
      rw [if_pos rfl]
      exact ⟨h.set l, pending_set files l⟩
    | false =>
      rw [if_neg Bool.false_ne_true]
      exact ⟨h, (Pending.clear_of_nil ((hdone.mpr hfull).resolve_left Bool.false_ne_true)).symm⟩
  · have hkept : empty = false := by
      cases empty with
      | false => rfl
      | true => exact absurd (hdone.mp (Or.inl rfl)) hfull
    have hnext : files.pending.next l = files.pending := by
      refine if_neg fun hall => hfull fun r hr he => ?_
      have hne := List.all_eq_true.mp hall r hr
      rw [he] at hne
      cases hne
    rw [hkept, if_neg Bool.false_ne_true, hnext]
    exact ⟨h, rfl⟩

theorem Pending.next_other (g : Pending) {l k : Letter} (h : k ≠ l) : g.next l k = g k := by
  unfold Pending.next
  split
  · exact if_neg h
  · rfl

theorem Pending.mem_next {g : Pending} {l k : Letter} {r : ℕ × List Byte} (h : r ∈ g.next l k) : r ∈ g k := by
  by_cases hk : k = l
  · unfold Pending.next at h
    split at h
    · have hnil : g.clear l k = [] := if_pos hk
      rw [hnil] at h
      cases h
    · exact h
  · rw [Pending.next_other g hk] at h
    exact h

theorem Pending.next_of_nil {g : Pending} {l : Letter} (h : g l = []) : g.next l = g := by
  rw [Pending.next_of, Pending.clear_of_nil h]
  rw [h]
  exact nofun

/-- No range is without bytes. -/
def Pending.Full (g : Pending) : Prop := ∀ l, ∀ r ∈ g l, r.2 ≠ []

theorem Pending.Full.clear {g : Pending} (h : g.Full) (l : Letter) : (g.clear l).Full := by
  intro k r hr
  unfold Pending.clear at hr
  split at hr
  · cases hr
  · exact h k r hr

section Recover
variable {v : StripeVolume} (h0 : Placed v) {env : ℕ → RecoverEnv} {letter : DiskId → Letter}
include h0

theorem recoverLoop_redo (n : ℕ) :
    ∀ (di : ℕ) (allClean : Bool) {u w : StripeVolume} {d e : Disks} {files files' : Files} {clean : Bool},
      SameLayout v u → u.cacheEnabled = false → RecoverWorks env files →
      RecoverSucceeds env letter n di u d files →
      recoverLoop env letter n di allClean u d files = some (clean, w, e, files') →
      SameLayout v w ∧ w.cacheEnabled = false ∧ files'.pending = remaining letter v n di files.pending ∧
        ∀ k, InService v e k → InService v d k ∧
          Redone (replayed letter v n di files.pending) (content v d k) (content v e k) := by
  induction n with
  | zero =>
    intro di allClean u w d e files files' clean hu hc _ _ h
    simp only [recoverLoop, Option.some.injEq, Prod.mk.injEq] at h
    obtain ⟨_, rfl, rfl, rfl⟩ := h
    exact ⟨hu, hc, rfl, fun k hk => ⟨hk, rfl⟩⟩
  | succ n ih =>
    intro di allClean u w d e files files' clean hu hc hworks hok h
    obtain ⟨hreplay, hrest⟩ := hok
    unfold recoverLoop at h
    simp only at h
    cases hj : recoverJournal (env di) u d (files (letter (u.diskAt di))) with
    | none =>
      rw [hj] at h
      cases h
    | some x =>
      obtain ⟨c1, u1, d1, empty⟩ := x
      rw [hj] at h
      simp only at h
      obtain ⟨hempty, h1, h2, h3⟩ := recoverJournal_redo h0 hu hc (hworks.reads di _) hreplay hj
      obtain ⟨hworks', hpending⟩ := pending_after hworks (hempty (hworks.empties di))
      obtain ⟨h4, h5, hleft, h6⟩ := ih (di + 1) (allClean && c1) h1 h2 hworks' (hrest _ _ _ _ hj) h
      rw [hpending, hu.diskAt] at hleft
      refine ⟨h4, h5, hleft, fun k hk => ?_⟩
      obtain ⟨hserve, hredo⟩ := h6 k hk
      obtain ⟨hserve', hredo'⟩ := h3 k hserve
      refine ⟨hserve', ?_⟩
      rw [hpending] at hredo
      rw [hu.diskAt] at hredo hredo'
      rw [Redone, replayed, List.map_append, redo_append]
      exact ⟨_, hredo', hredo⟩

/-- A recovery whose writes all succeed redoes the open transactions. -/
theorem journalRecoverAll_redo {u w : StripeVolume} {d e : Disks} {files files' : Files} {clean : Bool}
    (hu : SameLayout v u) (hc : u.cacheEnabled = false) (hworks : RecoverWorks env files)
    (hok : RecoverSucceeds env letter u.diskCount 0 u d files)
    (h : journalRecoverAll env letter u d files = some (clean, w, e, files')) :
    files'.pending = remaining letter v v.diskCount 0 files.pending ∧ ∀ k, InService v e k → InService v d k ∧
      Redone (replayed letter v v.diskCount 0 files.pending) (content v d k) (content v e k) := by
  rw [← hu.diskCount]
  exact (recoverLoop_redo h0 u.diskCount 0 true hu hc hworks hok h).2.2

end Recover

theorem recoverLoop_files (env : ℕ → RecoverEnv) (letter : DiskId → Letter) (n : ℕ) :
    ∀ (di : ℕ) (allClean : Bool) {v w : StripeVolume} {d e : Disks} {files files' : Files} {clean : Bool},
      recoverLoop env letter n di allClean v d files = some (clean, w, e, files') →
      ∀ l, files' l = files l ∨ files' l = [] := by
  induction n with
  | zero =>
    intro di allClean v w d e files files' clean h l
    simp only [recoverLoop, Option.some.injEq, Prod.mk.injEq] at h
    rw [h.2.2.2]
    exact Or.inl rfl
  | succ n ih =>
    intro di allClean v w d e files files' clean h l
    unfold recoverLoop at h
    simp only at h
    split at h
    · cases h
    next c1 v1 d1 empty _ =>
    rcases ih (di + 1) _ h l with he | he
    · cases empty with
      | false => exact Or.inl he
      | true =>
        rw [if_pos rfl] at he
        by_cases hl : l = letter (v.diskAt di)
        · rw [hl, Files.set_same] at he
          exact Or.inr (hl ▸ he)
        · rw [Files.set_other files [] hl] at he
          exact Or.inl he
    · exact Or.inr he

/-! ### The replayed ranges -/

section Replayed
variable (letter : DiskId → Letter) (v : StripeVolume)

/-- Every range of a member's journal is replayed. -/
theorem mem_replayed {r : ℕ × List Byte} (n : ℕ) : ∀ (di : ℕ) (g : Pending),
    r ∈ replayed letter v n di g ↔ ∃ i, di ≤ i ∧ i < di + n ∧ r ∈ g (letter (v.diskAt i)) := by
  induction n with
  | zero =>
    intro di g
    constructor
    · intro h
      cases h
    · rintro ⟨i, h1, h2, _⟩
      omega
  | succ n ih =>
    intro di g
    rw [replayed, List.mem_append, ih]
    constructor
    · rintro (h | ⟨i, h1, h2, h⟩)
      · exact ⟨di, Nat.le_refl di, by omega, h⟩
      · exact ⟨i, by omega, by omega, Pending.mem_next h⟩
    · rintro ⟨i, h1, h2, h⟩
      by_cases hl : letter (v.diskAt i) = letter (v.diskAt di)
      · rw [hl] at h
        exact Or.inl h
      · refine Or.inr ⟨i, ?_, by omega, ?_⟩
        · by_contra hn
          obtain rfl : i = di := by omega
          exact hl rfl
        · rw [Pending.next_other g hl]
          exact h

/-- Journals that have nothing to replay are passed. -/
theorem replayed_skip (m : ℕ) : ∀ (n di : ℕ) {g : Pending}, (∀ i, di ≤ i → i < di + m → g (letter (v.diskAt i)) = []) →
    replayed letter v (m + n) di g = replayed letter v n (di + m) g := by
  induction m with
  | zero =>
    intro n di g _
    rw [Nat.zero_add, Nat.add_zero]
  | succ m ih =>
    intro n di g h
    have hnil := h di (Nat.le_refl di) (by omega)
    rw [Nat.add_right_comm, replayed, Pending.next_of_nil hnil, hnil, List.nil_append, ih]
    · rw [show di + 1 + m = di + (m + 1) by omega]
    · intro i h1 h2
      exact h i (by omega) (by omega)

end Replayed

/-! ### Recovery with working transfers -/

/-- A stripe volume that can write the range: it is inside, and `submit_entries` takes it. -/
def Replayable (v : StripeVolume) (r : ℕ × List Byte) : Prop :=
  r.2 = [] ∨ r.1 + r.2.length ≤ v.virtualTotalBytes ∧
    ∃ es, mapLba v r.1 r.2.length = some es ∧ es.length ≤ ioRingSize

section Works
variable {v : StripeVolume} (hr : Ready v) (hl : v.raidLevel = .stripe)
include hr hl

theorem replayLoop_works {io : ℕ → IoEnv} (hio : ∀ i, (io i).Succeeds) {raw : List Byte}
    (hsize : raw.length ≤ maxJournal) (rs : List Range) :
    ∀ (i failed : ℕ) {u : StripeVolume} (d : Disks), SameLayout v u → u.cacheEnabled = false →
      (∀ r ∈ rs, 0 < r.dataOff ∧ r.dataOff + r.len ≤ raw.length) →
      (∀ r ∈ rs, Replayable v (r.read raw)) →
      ReplaySucceeds io raw rs i u d ∧ ∃ x, replayLoop io raw rs i failed u d = some x := by
  have hmax : maxJournal = 67108864 := rfl
  induction rs with
  | nil =>
    intro i failed u d _ _ _ _
    exact ⟨trivial, _, rfl⟩
  | cons r rs ih =>
    intro i failed u d hu hc hin hmapped
    have hin' : ∀ q ∈ rs, 0 < q.dataOff ∧ q.dataOff + q.len ≤ raw.length := fun q hq => hin q (List.mem_cons_of_mem _ hq)
    have hmapped' : ∀ q ∈ rs, Replayable v (q.read raw) := fun q hq => hmapped q (List.mem_cons_of_mem _ hq)
    obtain ⟨hpos, hle⟩ := hin r (List.mem_cons_self ..)
    unfold ReplaySucceeds replayLoop
    by_cases hskip : r.dataOff = 0 ∨ r.len = 0
    · rw [if_pos hskip, if_pos hskip]
      exact ih (i + 1) (failed + 1) d hu hc hin' hmapped'
    · rw [if_neg hskip, if_neg hskip]
      simp only [not_or] at hskip
      have hlen : (slice raw r.dataOff r.len).length = r.len := slice_length raw hle
      obtain hnil | ⟨hend, es, hmap, hes⟩ := hmapped r (List.mem_cons_self ..)
      · have hzero := congrArg List.length hnil
        rw [Range.read, hlen] at hzero
        exact absurd hzero hskip.2
      rw [Range.read, hlen] at hend hmap
      obtain ⟨w, e, hw⟩ := stripeVolumeWrite_works hr hl hu hc (hio i) d (bufAt raw r.dataOff)
        (Nat.pos_of_ne_zero hskip.2) (by omega) hend hmap hes
      obtain ⟨h1, h2⟩ := ih (i + 1) failed e (hu.trans (stripeVolumeWrite_layout hw))
        (stripeVolumeWrite_uncached hc hw).enabled hin' hmapped'
      rw [hw]
      exact ⟨⟨w, e, rfl, h1⟩, h2⟩

theorem recoverJournal_works {env : RecoverEnv} (hio : ∀ i, (env.io i).Succeeds) {file : List Byte}
    {u : StripeVolume} (d : Disks) (hu : SameLayout v u) (hc : u.cacheEnabled = false) (hreads : env.Reads file)
    (hscan : file.length ≤ maxJournal → ∃ s, scan file = some s) (hmapped : ∀ r ∈ openRanges file, Replayable v r) :
    (∀ raw s, loadJournal env file = some raw → scan raw = some s → s.incomplete = true →
      ReplaySucceeds env.io raw s.ranges 0 u d) ∧ ∃ x, recoverJournal env u d file = some x := by
  by_cases hsize : file.length < entrySize ∨ file.length > maxJournal
  · have hload : loadJournal env file = none := loadJournal_none hsize
    constructor
    · intro raw s h
      rw [hload] at h
      cases h
    · unfold recoverJournal
      rw [hload]
      exact ⟨_, rfl⟩
  have hopen : openRanges file = match scan file with
    | none => []
    | some s => s.open file := by
    unfold openRanges
    rw [if_neg hsize]
  simp only [not_or, Nat.not_lt] at hsize
  have hload := loadJournal_reads hreads hsize.1 hsize.2
  obtain ⟨s, hs⟩ := hscan hsize.2
  rw [hs] at hopen
  simp only at hopen
  have hreplay : s.incomplete = true → ReplaySucceeds env.io file s.ranges 0 u d ∧
      ∃ x, replayLoop env.io file s.ranges 0 0 u d = some x := by
    intro hinc
    apply replayLoop_works hr hl hio hsize.2 s.ranges 0 0 d hu hc (scan_inside hs)
    intro r hmem
    apply hmapped
    rw [hopen, ScanState.open, hinc, if_pos rfl]
    exact List.mem_map_of_mem hmem
  constructor
  · intro raw t h1 h2 h3
    rw [hload] at h1
    obtain rfl := Option.some.inj h1
    rw [hs] at h2
    obtain rfl := Option.some.inj h2
    exact (hreplay h3).1
  · unfold recoverJournal
    rw [hload]
    simp only [hs]
    cases hinc : s.incomplete with
    | false => exact ⟨_, rfl⟩
    | true =>
      obtain ⟨_, x, hx⟩ := hreplay hinc
      rw [hx]
      exact ⟨_, rfl⟩

/-- With working transfers a recovery of ranges the volume can write comes to its end, and all
its writes succeed. -/
theorem recoverLoop_works {env : ℕ → RecoverEnv} {letter : DiskId → Letter}
    (hio : ∀ i j, ((env i).io j).Succeeds) (n : ℕ) :
    ∀ (di : ℕ) (allClean : Bool) {u : StripeVolume} (d : Disks) {files : Files}, SameLayout v u →
      u.cacheEnabled = false → RecoverWorks env files →
      (∀ l, (files l).length ≤ maxJournal → ∃ s, scan (files l) = some s) →
      (∀ l, ∀ r ∈ files.pending l, Replayable v r) →
      RecoverSucceeds env letter n di u d files ∧ ∃ x, recoverLoop env letter n di allClean u d files = some x := by
  induction n with
  | zero =>
    intro di allClean u d files _ _ _ _ _
    exact ⟨trivial, _, rfl⟩
  | succ n ih =>
    intro di allClean u d files hu hc hworks hscan hmapped
    obtain ⟨hreplay, x, hx⟩ := recoverJournal_works hr hl (hio di) d hu hc (hworks.reads di (letter (u.diskAt di)))
      (hscan _) (hmapped _)
    obtain ⟨clean, w, e, empty⟩ := x
    obtain ⟨_, h1, h2, _⟩ := recoverJournal_redo (Placed.of_ready hr) hu hc (hworks.reads di _) hreplay hx
    have hset : ∀ l, RecoverWorks env (if empty then files.set l [] else files) ∧
        (∀ k, ((if empty then files.set l [] else files) k).length ≤ maxJournal →
          ∃ s, scan ((if empty then files.set l [] else files) k) = some s) ∧
        ∀ k, ∀ r ∈ (if empty then files.set l [] else files).pending k, Replayable v r := by
      intro l
      cases empty with
      | false => exact ⟨hworks, hscan, hmapped⟩
      | true =>
        refine ⟨hworks.set l, fun k hk => ?_, fun k r hmem => ?_⟩
        · by_cases he : k = l
          · simp only [if_true, he, Files.set_same]
            exact ⟨_, rfl⟩
          · simp only [if_true, Files.set_other files [] he] at hk ⊢
            exact hscan k hk
        · simp only [if_true, pending_set, Pending.clear] at hmem
          split at hmem
          · cases hmem
          · exact hmapped k r hmem
    obtain ⟨hw, hs, hm⟩ := hset (letter (u.diskAt di))
    obtain ⟨h3, h4⟩ := ih (di + 1) (allClean && clean) e h1 h2 hw hs hm
    constructor
    · refine ⟨hreplay, fun c w' e' empty' h => ?_⟩
      rw [hx] at h
      simp only [Option.some.injEq, Prod.mk.injEq] at h
      obtain ⟨_, rfl, rfl, rfl⟩ := h
      exact h3
    · unfold recoverLoop
      simp only [hx]
      exact h4

end Works

end RaidTest.Journal
