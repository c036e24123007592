import RaidTest.Base.Since
import RaidTest.Journal.Scan

/-!
# Prefixes of a journal

A crash leaves a prefix of the records that were appended: the records that are wholly in it,
and a part of the next one. The scan of the prefix finds the transaction of the whole records.
-/

namespace RaidTest.Journal
open RaidTest.Base

/-! ### Rows of records -/

def Rec.isBegin : Rec → Bool
  | .begin _ _ => true
  | _ => false

def Rec.isCommit : Rec → Bool
  | .commit _ _ => true
  | _ => false

/-- Offset and payload of a DATA record. -/
def Rec.range : Rec → Option (ℕ × List Byte)
  | .data _ _ off payload => some (off, payload)
  | _ => none

/-- The DATA records of a row, in order. -/
def datas (recs : List Rec) : List (ℕ × List Byte) := recs.filterMap Rec.range

/-- There is a BEGIN without a later COMMIT. -/
def OpenBegin (recs : List Rec) : Prop := Since (fun r => r.isBegin = true) (fun r => r.isCommit = true) recs

/-! ### The transaction of a row -/

theorem Txn.next_incomplete (t : Txn) {r : Rec} (hb : r.isBegin = false) :
    (t.next r).incomplete = (t.incomplete && !r.isCommit) := by
  cases r with
  | begin g ts => cases hb
  | data g ts off payload =>
    simp only [Txn.next, Rec.isCommit, Bool.not_false, Bool.and_true]
    split <;> rfl
  | commit g ts =>
    simp only [Txn.next, Txn.incomplete, Rec.isCommit, Bool.not_true, Bool.and_false]
    cases t.begun <;> cases t.committed <;> rfl

/-- A row leaves a transaction open exactly if it has a BEGIN without a later COMMIT. -/
theorem txnOf_incomplete (recs : List Rec) : (txnOf recs).incomplete = true ↔ OpenBegin recs := by
  induction recs using List.reverseRecOn with
  | nil => exact ⟨nofun, fun h => absurd h not_since_nil⟩
  | append_singleton recs r ih =>
    have hfold : txnOf (recs ++ [r]) = (txnOf recs).next r := by
      rw [txnOf, List.foldl_append]
      rfl
    rw [hfold, OpenBegin, since_concat]
    cases hb : r.isBegin with
    | true =>
      refine ⟨fun _ => Or.inl rfl, fun _ => ?_⟩
      cases r with
      | begin g t => rfl
      | data g t off payload => cases hb
      | commit g t => cases hb
    | false =>
      rw [Txn.next_incomplete _ hb, Bool.and_eq_true, Bool.not_eq_true', ih, Bool.not_eq_true]
      exact ⟨Or.inr, fun h => h.resolve_left Bool.false_ne_true⟩

theorem foldl_closed (m : List Rec) (hm : ∀ r ∈ m, r.isBegin = false) :
    ∀ t : Txn, t.incomplete = false → (m.foldl Txn.next t).incomplete = false := by
  induction m with
  | nil => exact fun t h => h
  | cons r m ih =>
    intro t h
    refine ih (fun q hq => hm q (List.mem_cons_of_mem _ hq)) _ ?_
    rw [Txn.next_incomplete t (hm r (List.mem_cons_self ..)), h, Bool.false_and]

/-- Without a BEGIN, a transaction that stays open keeps the DATA records as long as there is room. -/
theorem foldl_open (m : List Rec) (hm : ∀ r ∈ m, r.isBegin = false) :
    ∀ t : Txn, (m.foldl Txn.next t).incomplete = true →
      (m.foldl Txn.next t).kept = t.kept ++ (datas m).take (maxRanges - t.kept.length) := by
  induction m with
  | nil => intro t _; rw [datas, List.filterMap_nil, List.take_nil, List.append_nil]; rfl
  | cons r m ih =>
    intro t h
    have hm' : ∀ q ∈ m, q.isBegin = false := fun q hq => hm q (List.mem_cons_of_mem _ hq)
    have hopen : (t.next r).incomplete = true := by
      by_contra hclosed
      rw [Bool.not_eq_true] at hclosed
      have hend := foldl_closed m hm' _ hclosed
      rw [List.foldl_cons, hend] at h
      cases h
    have hkept := ih hm' (t.next r) h
    rw [List.foldl_cons, hkept]
    rw [Txn.next_incomplete t (hm r (List.mem_cons_self ..)), Bool.and_eq_true] at hopen
    cases r with
    | begin g ts => exact absurd (hm _ (List.mem_cons_self ..)).symm Bool.false_ne_true
    | commit g ts => exact absurd hopen.2 Bool.false_ne_true
    | data g ts off payload =>
      have hdatas : datas (.data g ts off payload :: m) = (off, payload) :: datas m := rfl
      rw [hdatas]
      simp only [Txn.next]
      by_cases hroom : t.kept.length < maxRanges
      · rw [if_pos ⟨hopen.1, hroom⟩]
        simp only [List.length_append, List.length_cons, List.length_nil]
        rw [show maxRanges - t.kept.length = maxRanges - (t.kept.length + (0 + 1)) + 1 by omega, List.take_succ_cons,
          List.append_assoc, List.singleton_append]
      · rw [if_neg fun hc => hroom hc.2, show maxRanges - t.kept.length = 0 by omega, List.take_zero, List.take_zero]

/-- What is kept of a transaction that is open at the end of a row. -/
theorem txnOf_kept {recs l m : List Rec} {g t : ℕ} (he : recs = l ++ .begin g t :: m) (hm : ∀ r ∈ m, r.isBegin = false)
    (hopen : (txnOf recs).incomplete = true) : (txnOf recs).kept = (datas m).take maxRanges := by
  have hfold : txnOf recs = m.foldl Txn.next ⟨true, false, []⟩ := by
    rw [he, txnOf, List.foldl_append]
    rfl
  rw [hfold] at hopen ⊢
  exact foldl_open m hm _ hopen

/-! ### A prefix of a row -/

/-- The records that are wholly in the first `n` bytes of a row. -/
def complete : List Rec → ℕ → List Rec
  | [], _ => []
  | r :: recs, n => if r.image.length ≤ n then r :: complete recs (n - r.image.length) else []

theorem complete_append (recs : List Rec) : ∀ n, ∃ rest, recs = complete recs n ++ rest := by
  induction recs with
  | nil => exact fun n => ⟨[], rfl⟩
  | cons r recs ih =>
    intro n
    unfold complete
    split
    · obtain ⟨rest, hrest⟩ := ih (n - r.image.length)
      exact ⟨rest, by rw [List.cons_append, ← hrest]⟩
    · exact ⟨r :: recs, rfl⟩

theorem images_cons (r : Rec) (recs : List Rec) : images (r :: recs) = r.image ++ images recs := rfl

/-- The first `n` bytes are those of the whole records and a part of the next one. -/
theorem images_take (recs : List Rec) : ∀ {n : ℕ}, (∀ r ∈ recs, r.Typed) → (images recs).length ≤ maxJournal →
    ∃ tail, (images recs).take n = images (complete recs n) ++ tail ∧ CutShort tail := by
  induction recs with
  | nil => exact fun _ _ => ⟨[], by rw [images, List.map_nil, List.flatten_nil, List.take_nil]; rfl, tornOff_nil.cutShort⟩
  | cons r recs ih =>
    intro n htyped hsize
    rw [images_cons, List.length_append] at hsize
    rw [images_cons]
    unfold complete
    split
    · next hle =>
      obtain ⟨tail, htail, hcut⟩ := ih (n := n - r.image.length) (fun q hq => htyped q (List.mem_cons_of_mem _ hq)) (by omega)
      refine ⟨tail, ?_, hcut⟩
      rw [List.take_append, List.take_of_length_le hle, htail, images_cons, List.append_assoc]
    · next hlt =>
      refine ⟨r.image.take n, ?_, r, htyped r (List.mem_cons_self ..), ?_, n, by omega, rfl⟩
      · rw [List.take_append_of_le_length (by omega)]
        rfl
      · have hlen := r.image_length
        omega

/-- Offset, length and bytes of the ranges that the scan of `raw` has collected. -/
def ScanState.collected (s : ScanState) (raw : List Byte) : List (ℕ × ℕ × List Byte) :=
  s.ranges.map fun r => (r.off, r.len, slice raw r.dataOff r.len)

/-- The same of DATA records. -/
def listed (ds : List (ℕ × List Byte)) : List (ℕ × ℕ × List Byte) := ds.map fun p => (p.1, p.2.length, p.2)

theorem listed_length (ds : List (ℕ × List Byte)) : (listed ds).length = ds.length := List.length_map ..

theorem Agrees.collected {raw : List Byte} {s : ScanState} {t : Txn} (h : Agrees raw s t) : s.collected raw = listed t.kept := by
  rw [listed, ← h.kept, List.map_map]
  refine List.map_congr_left fun r hr => ?_
  simp only [Function.comp_apply, slice_length _ (h.inside r hr).2]

/-- At most 256 DATA records stand behind any BEGIN, up to the next. -/
def FewRanges (recs : List Rec) : Prop :=
  ∀ l g t m rest, recs = l ++ .begin g t :: (m ++ rest) → (∀ r ∈ m, r.isBegin = false) → (datas m).length ≤ maxRanges

/-- The scan of a prefix: it is clean exactly if no BEGIN of the whole records is left without
a COMMIT, and else the DATA records behind the last BEGIN are collected. -/
theorem scan_prefix {recs : List Rec} (htyped : ∀ r ∈ recs, r.Typed) (hfew : FewRanges recs)
    (hsize : (images recs).length ≤ maxJournal) (n : ℕ) :
    ∃ s, scan ((images recs).take n) = some s ∧
      (s.incomplete = false ↔ ¬ OpenBegin (complete recs n)) ∧
      (s.incomplete = true → ∀ l g t m, complete recs n = l ++ .begin g t :: m → (∀ r ∈ m, r.isBegin = false) →
        s.collected ((images recs).take n) = listed (datas m)) := by
  obtain ⟨rest, hrest⟩ := complete_append recs n
  obtain ⟨tail, htail, hcut⟩ := images_take recs (n := n) htyped hsize
  have hwhole : ∀ r ∈ complete recs n, r.Typed := fun r hr => htyped r (by rw [hrest]; exact List.mem_append_left _ hr)
  obtain ⟨s, hs, hagree⟩ := scan_typed hwhole hcut (by rw [← htail]; exact Nat.le_trans (List.length_take_le' ..) hsize)
  rw [← htail] at hs hagree
  refine ⟨s, hs, ?_, fun hopen l g t m he hm => ?_⟩
  · rw [hagree.incomplete, ← txnOf_incomplete, Bool.not_eq_true]
  · rw [hagree.incomplete] at hopen
    have hlimit : (datas m).length ≤ maxRanges :=
      hfew l g t m rest (by rw [← List.cons_append, ← List.append_assoc, ← he]; exact hrest) hm
    rw [hagree.collected, txnOf_kept he hm hopen, List.take_of_length_le hlimit]

/-- Two transactions, the second cut inside the header of its second DATA record. -/
def cutRecs : List Rec := [.begin 0 0, .commit 0 0, .begin 1 0, .data 1 0 9 [5, 6], .data 1 0 3 [7]]

theorem scan_prefix_sample : ∃ s, scan ((images cutRecs).take 214) = some s ∧ s.incomplete = true ∧
    s.collected ((images cutRecs).take 214) = [(9, 2, [5, 6])] := by
  have hfew : FewRanges cutRecs := by
    intro l g t m rest he _
    have hlen := congrArg List.length he
    simp only [cutRecs, List.length_cons, List.length_append, List.length_nil] at hlen
    exact Nat.le_trans (List.length_filterMap_le ..) (by unfold maxRanges; omega)
  have htyped : ∀ r ∈ cutRecs, r.Typed := by decide +kernel
  obtain ⟨s, hs, hclean, hranges⟩ := scan_prefix htyped hfew (by decide +kernel) 214
  have hwhole : complete cutRecs 214 = [.begin 0 0, .commit 0 0] ++ .begin 1 0 :: [.data 1 0 9 [5, 6]] := by decide +kernel
  have hopen : s.incomplete = true := by
    rw [← Bool.not_eq_false, hclean, not_not]
    exact ⟨_, _, _, hwhole, rfl, by decide⟩
  exact ⟨s, hs, hopen, hranges hopen _ _ _ _ hwhole (by decide)⟩

end RaidTest.Journal
