import RaidTest.Journal.Bounds
import RaidTest.Journal.Prefix

/-!
# Transactions behind other records

The headers of a file form a chain, each behind the payload of the one before. A transaction
is found exactly if the chain leads to its BEGIN. Behind a record that was cut short it does
not: the next header is looked for behind the full record.
-/

namespace RaidTest.Journal
open RaidTest.Base

/-! ### The chain of headers -/

theorem Frame.next_le {raw : List Byte} (n : ℕ) : ∀ {a b : ℕ}, a + b ≤ n → Frame raw a → Frame raw b → a < b →
    Intact raw a ∧ min (a + entrySize + payloadOf (readEntry raw a)) raw.length ≤ b := by
  induction n with
  | zero => intro a b hsum _ _ hlt; omega
  | succ n ih =>
    intro a b hsum ha hb hlt
    cases hb with
    | first => omega
    | @next c hc hi =>
      have he : entrySize = 48 := rfl
      have hin := hi.1
      rcases Nat.lt_trichotomy a c with hac | rfl | hca
      · -- the header before `b` is still behind `a`
        obtain ⟨hia, hle⟩ := ih (by omega) ha hc hac
        exact ⟨hia, by omega⟩
      · exact ⟨hi, Nat.le_refl _⟩
      · have hle := (ih (by omega) hc ha hca).2
        omega

/-- No header stands between a header and the next. -/
theorem Frame.step {raw : List Byte} {a b : ℕ} (ha : Frame raw a) (hb : Frame raw b) (h : a < b) :
    Intact raw a ∧ min (a + entrySize + payloadOf (readEntry raw a)) raw.length ≤ b :=
  Frame.next_le (a + b) (Nat.le_refl _) ha hb h

section Records
variable {raw pre post : List Byte} {r : Rec} (hr : r.Typed) (hraw : raw = pre ++ (r.entry.bytes ++ post))
include hr hraw

theorem intact_record : Intact raw pre.length := by
  refine ⟨?_, ?_, ?_⟩
  · rw [hraw, List.length_append, List.length_append, r.entry.bytes_length]
    omega
  · rw [readEntry_record hr hraw, r.magic]
  · rw [readEntry_record hr hraw, slice_record hraw, r.checksum]

/-- The next header stands behind the payload of the record. -/
theorem Frame.record (hf : Frame raw pre.length) :
    Frame raw (min (pre.length + entrySize + r.payload.length) raw.length) := by
  have h := hf.next (intact_record hr hraw)
  rw [readEntry_record hr hraw, payloadOf_record] at h
  exact h

end Records

/-- The chain leads over whole records to their end. -/
theorem Frame.row {raw : List Byte} (recs : List Rec) : ∀ {pre post : List Byte}, (∀ r ∈ recs, r.Typed) →
    raw = pre ++ (images recs ++ post) → Frame raw pre.length → Frame raw (pre.length + (images recs).length) := by
  induction recs with
  | nil => exact fun _ _ hf => hf
  | cons r recs ih =>
    intro pre post htyped hraw hf
    have hstep : Frame raw (pre ++ r.image).length := by
      have hhead : raw = pre ++ (r.entry.bytes ++ (r.payload ++ (images recs ++ post))) := by
        rw [hraw, images_cons, Rec.image]
        simp only [List.append_assoc]
      have h := hf.record (htyped r (List.mem_cons_self ..)) hhead
      rw [Nat.min_eq_left] at h
      · rw [List.length_append, r.image_length, ← Nat.add_assoc]
        exact h
      · rw [hraw, images_cons]
        simp only [List.length_append, r.image_length]
        omega
    have hrest : raw = (pre ++ r.image) ++ (images recs ++ post) := by
      rw [hraw, images_cons]
      simp only [List.append_assoc]
    have h := ih (fun q hq => htyped q (List.mem_cons_of_mem _ hq)) hrest hstep
    rw [List.length_append] at h
    rw [images_cons, List.length_append, ← Nat.add_assoc]
    exact h

/-! ### The scan at a header of the chain -/

theorem Visited.inside {raw : List Byte} {s : ScanState} (h : Visited raw s) : s.Inside raw := by
  induction h with
  | start => exact fun _ hr => absurd hr List.not_mem_nil
  | turn _ _ ht ih => exact scanTurn_inside ih (Or.inr ht)

/-- The scan comes to every header of the chain before the end of the file. -/
theorem Frame.visited {raw : List Byte} (hsize : raw.length ≤ maxJournal) {o : ℕ} (h : Frame raw o) (hlt : o < raw.length) :
    ∃ s k, Visited raw s ∧ s.offset = o ∧ k ≤ o ∧ ∀ fuel, scanLoop raw (k + fuel) .start = scanLoop raw fuel s := by
  have hmax : maxJournal = 67108864 := rfl
  induction h with
  | first => exact ⟨.start, 0, .start, rfl, Nat.le_refl 0, fun fuel => by rw [Nat.zero_add]⟩
  | next _ hi ih =>
    have he : entrySize = 48 := rfl
    have hin := hi.1
    obtain ⟨s, k, hs, rfl, hk, hloop⟩ := ih (by omega)
    -- the next header is in the file, so nothing has wrapped
    have hf : scanTurn raw s ≠ .fault := scanTurn_narrow hin fun _ => by omega
    rcases scanTurn_next hin hf with ⟨hnot, _⟩ | ⟨_, t, ht, hoff⟩
    · exact absurd hi hnot
    rw [advance_exact (by omega)] at hoff
    refine ⟨t, k + 1, hs.turn hin ht, hoff, by omega, fun fuel => ?_⟩
    rw [Nat.add_assoc, Nat.add_comm 1, hloop, scanLoop, if_pos hin, ht]

/-- From a BEGIN the chain leads to, the scan finds the transaction of the records behind it. -/
theorem scan_framed {raw pre tail : List Byte} {g ts : ℕ} {recs : List Rec} (htyped : ∀ r ∈ .begin g ts :: recs, r.Typed)
    (ht : CutShort tail) (hraw : raw = pre ++ (images (.begin g ts :: recs) ++ tail)) (hsize : raw.length ≤ maxJournal)
    (hframe : Frame raw pre.length) :
    ∃ s u, scan raw = some s ∧ Agrees raw s (recs.foldl Txn.next ⟨true, false, []⟩) ∧
      Visited raw u ∧ u.offset = pre.length := by
  have hlen : raw.length = pre.length + ((images (.begin g ts :: recs)).length + tail.length) := by
    rw [hraw, List.length_append, List.length_append]
  have hcount := images_length (.begin g ts :: recs)
  obtain ⟨u, k, hu, hoff, hk, hloop⟩ := hframe.visited hsize (by rw [List.length_cons] at hcount; omega)
  have hagree : Agrees raw u ⟨u.hasBegin, u.hasCommit, u.ranges.map fun r => (r.off, slice raw r.dataOff r.len)⟩ :=
    ⟨rfl, rfl, rfl, hu.inside⟩
  obtain ⟨s1, h1, h2, h3⟩ := scanLoop_records hsize (.begin g ts :: recs)
    (raw.length + 1 - k - (Rec.begin g ts :: recs).length) htyped hraw hoff hagree
  obtain ⟨s, hs, hs'⟩ := scanLoop_tail hsize ht
    (show raw = (pre ++ images (.begin g ts :: recs)) ++ tail by rw [hraw, List.append_assoc]) (by rw [h2, List.length_append]) h3
    (show tail.length < raw.length + 1 - k - (Rec.begin g ts :: recs).length by omega)
  refine ⟨s, u, ?_, hs', hu, hoff⟩
  have hstart := hloop (raw.length + 1 - k)
  rw [show k + (raw.length + 1 - k) = raw.length + 1 by omega] at hstart
  rw [show (Rec.begin g ts :: recs).length + (raw.length + 1 - k - (Rec.begin g ts :: recs).length) =
    raw.length + 1 - k by omega] at h1
  exact hstart.trans (h1.trans hs)

/-- DATA records only. -/
def OnlyData (recs : List Rec) : Prop := ∀ r ∈ recs, r.isBegin = false ∧ r.isCommit = false

theorem foldl_data {recs : List Rec} (h : OnlyData recs) :
    (recs.foldl Txn.next ⟨true, false, []⟩).incomplete = true ∧
      (recs.foldl Txn.next ⟨true, false, []⟩).kept = (datas recs).take maxRanges := by
  have hopen : ∀ (recs : List Rec), OnlyData recs → ∀ t : Txn, t.incomplete = true → (recs.foldl Txn.next t).incomplete = true := by
    intro recs
    induction recs with
    | nil => exact fun _ t ht => ht
    | cons r recs ih =>
      intro h t ht
      refine ih (fun q hq => h q (List.mem_cons_of_mem _ hq)) _ ?_
      have hr := h r (List.mem_cons_self ..)
      rw [Txn.next_incomplete t hr.1, ht, hr.2]
      rfl
  have hinc := hopen recs h ⟨true, false, []⟩ rfl
  exact ⟨hinc, foldl_open recs (fun r hr => (h r hr).1) _ hinc⟩

/-! ### Behind a record that was cut short -/

/-- Recovery scans the file, reads the BEGIN at `place`, and ends with the DATA records `ds`. -/
def Recognised (file : List Byte) (place : ℕ) (ds : List (ℕ × List Byte)) : Prop :=
  file.length ≤ maxJournal ∧ ∃ s u, scan file = some s ∧ Visited file u ∧ u.offset = place ∧
    s.incomplete = true ∧ s.collected file = listed ds

theorem recognised_framed {file pre : List Byte} {g ts : ℕ} {recs : List Rec} (htyped : ∀ r ∈ .begin g ts :: recs, r.Typed)
    (honly : OnlyData recs) (hfile : file = pre ++ images (.begin g ts :: recs)) (hframe : Frame file pre.length) :
    Recognised file pre.length (datas recs) ↔ file.length ≤ maxJournal ∧ (datas recs).length ≤ maxRanges := by
  refine and_congr_right fun hsize => ?_
  obtain ⟨s, u, hs, hagree, hu, hoff⟩ := scan_framed htyped tornOff_nil.cutShort
    (by rw [List.append_nil]; exact hfile) hsize hframe
  obtain ⟨hinc, hkept⟩ := foldl_data honly
  have hcollected := hagree.collected
  rw [hkept] at hcollected
  constructor
  · rintro ⟨s', _, hs', _, _, _, he⟩
    rw [hs] at hs'
    obtain rfl := Option.some.inj hs'
    have hl := congrArg List.length (hcollected.symm.trans he)
    rw [listed_length, listed_length, List.length_take] at hl
    omega
  · intro hfew
    rw [List.take_of_length_le hfew] at hcollected
    exact ⟨s, u, hs, hu, hoff, hagree.incomplete.trans hinc, hcollected⟩

/-- Directly behind a record of which a part was written no header is looked for. -/
theorem frame_cut {file rest : List Byte} {p : Piece} (hp : p.entry.Fits) (hcut : p.whole = false) {all : List Byte}
    (hall : all = file ++ (p.bytes ++ rest)) (hrest : entrySize ≤ rest.length) (hf : Frame all file.length) :
    Frame all (file.length + p.bytes.length) ↔ p.bytes = [] := by
  refine ⟨fun hq => ?_, fun he => by rw [he]; exact hf⟩
  by_contra hne
  have he : entrySize = 48 := rfl
  have hpos : 0 < p.bytes.length := List.length_pos_iff.mpr hne
  obtain ⟨hi, hle⟩ := hf.step hq (by omega)
  have hlen : all.length = file.length + (p.bytes.length + rest.length) := by
    rw [hall, List.length_append, List.length_append]
  obtain ⟨l, r, a⟩ := p
  cases a with
  | done => cases hcut
  | failed kept =>
    have hkept : kept < r.image.length := by
      simpa only [Piece.whole, Append.whole, decide_eq_false_iff_not, Nat.not_le] using hcut
    have hbytes : (Piece.mk l r (.failed kept)).bytes = r.image.take kept := rfl
    rw [hbytes] at hlen hpos hle hall hne
    rw [List.length_take, Nat.min_eq_left (by omega)] at hlen hpos hle
    by_cases hshort : kept < entrySize
    · omega
    -- the header is whole: the next one is looked for behind the whole payload
    have himage := r.image_length
    rw [r.torn_header (Nat.le_of_not_lt hshort), List.append_assoc] at hall
    have hentry : readEntry all file.length = r.entry := readEntry_record hp.typed hall
    rw [hentry, payloadOf_record] at hle
    omega

/-- A transaction appended to a file behind a record that was cut short there, and possibly
other records. It is recognised if the headers lead to its BEGIN, the file is not too long and
the DATA records are not too many; and only then, if no sum of a header wraps. Directly behind
the cut record of a file whose headers lead to its end, they lead to the BEGIN exactly if
nothing of the cut record was written. -/
theorem torn_append (file : List Byte) (p : Piece) (hp : p.entry.Fits) (hcut : p.whole = false) (mid recs : List Rec)
    (g ts : ℕ) (htyped : ∀ r ∈ .begin g ts :: recs, r.Typed) (honly : OnlyData recs) {pre all : List Byte}
    (hpre : pre = file ++ (p.bytes ++ images mid)) (hall : all = pre ++ images (.begin g ts :: recs)) :
    (all.length ≤ maxJournal ∧ (datas recs).length ≤ maxRanges ∧ Frame all pre.length →
      Recognised all pre.length (datas recs)) ∧
    (Narrow all → Recognised all pre.length (datas recs) →
      all.length ≤ maxJournal ∧ (datas recs).length ≤ maxRanges ∧ Frame all pre.length) ∧
    (mid = [] → Frame all file.length → (Frame all pre.length ↔ p.bytes = [])) := by
  refine ⟨fun ⟨hsize, hfew, hframe⟩ => (recognised_framed htyped honly hall hframe).mpr ⟨hsize, hfew⟩, fun hn hrec => ?_, ?_⟩
  · obtain ⟨_, u, _, hu, hoff, _⟩ := hrec.2
    have hframe := hu.frame hn
    rw [hoff] at hframe
    obtain ⟨hsize, hfew⟩ := (recognised_framed htyped honly hall hframe).mp hrec
    exact ⟨hsize, hfew, hframe⟩
  · rintro rfl hfile
    have hnil : images [] = [] := rfl
    rw [hnil, List.append_nil] at hpre
    have hlen : pre.length = file.length + p.bytes.length := by rw [hpre, List.length_append]
    rw [hlen]
    refine frame_cut hp hcut (by rw [hall, hpre, List.append_assoc]) ?_ hfile
    rw [images_cons, List.length_append, Rec.image_length]
    omega

/-- 20 bytes of a COMMIT hide a transaction of one byte. -/
theorem torn_append_fails : ¬ ∀ (rows : List Rec) (p : Piece) (recs : List Rec) (g ts : ℕ) (all : List Byte),
    p.entry.Fits → p.whole = false → (∀ r ∈ rows, r.Typed) → (∀ r ∈ .begin g ts :: recs, r.Typed) → OnlyData recs →
      all = images rows ++ p.bytes ++ images (.begin g ts :: recs) →
      all.length ≤ maxJournal → (datas recs).length ≤ maxRanges →
      Recognised all (images rows ++ p.bytes).length (datas recs) := by
  intro h
  have hrec := h [.begin 0 0] ⟨0, .commit 0 0, .failed 20⟩ [.data 1 0 0 [7]] 1 0 _ ⟨by decide, by decide⟩ (by decide +kernel)
    (by decide +kernel) (by decide +kernel) (by unfold OnlyData; decide) rfl (by decide +kernel) (by decide)
  obtain ⟨-, s, _, hs, _, _, _, he⟩ := hrec
  have hscan : (scan (images [.begin 0 0] ++ (Piece.mk 0 (.commit 0 0) (.failed 20)).bytes ++
      images [.begin 1 0, .data 1 0 0 [7]])).map ScanState.ranges = some [] := by decide +kernel
  rw [hs] at hscan
  have hnone : s.ranges = [] := Option.some.inj hscan
  rw [ScanState.collected, hnone] at he
  cases he

/-- One of the 49 bytes of a payload is written; the COMMIT behind it makes up for the other 48. -/
def tornPiece : Piece := ⟨0, .data 0 0 0 (List.replicate 49 9), .failed 49⟩

def filledUp : List Byte := images [.begin 0 0] ++ (tornPiece.bytes ++ images [.commit 0 0])

theorem torn_append_sample : tornPiece.bytes.length = 49 ∧
    Recognised (filledUp ++ images [.begin 1 0, .data 1 0 0 [7]]) 145 [(0, [7])] := by
  have htyped : ∀ r ∈ [Rec.begin 0 0, .data 0 0 0 (List.replicate 49 9)], r.Typed := by decide +kernel
  have hlen : filledUp.length = 145 := by decide +kernel
  have htorn : tornPiece.bytes = tornPiece.entry.entry.bytes ++ [9] := tornPiece.entry.torn_header (n := 49) (by decide)
  have hbegin : Frame (filledUp ++ images [.begin 1 0, .data 1 0 0 [7]]) (images [.begin 0 0]).length := by
    have hsplit : filledUp ++ images [.begin 1 0, .data 1 0 0 [7]] = [] ++ (images [.begin 0 0] ++
        (tornPiece.bytes ++ images [.commit 0 0] ++ images [.begin 1 0, .data 1 0 0 [7]])) := by
      rw [filledUp, List.nil_append, List.append_assoc, List.append_assoc]
    have hrow := Frame.row [.begin 0 0] (fun r hr => htyped r (List.mem_cons.mpr (Or.inl (List.mem_singleton.mp hr)))) hsplit
      .first
    rw [List.length_nil, Nat.zero_add] at hrow
    exact hrow
  have hnext : Frame (filledUp ++ images [.begin 1 0, .data 1 0 0 [7]]) filledUp.length := by
    have hsplit : filledUp ++ images [.begin 1 0, .data 1 0 0 [7]] = images [.begin 0 0] ++
        (tornPiece.entry.entry.bytes ++ ([9] ++ images [.commit 0 0] ++ images [.begin 1 0, .data 1 0 0 [7]])) := by
      rw [filledUp, htorn]
      simp only [List.append_assoc]
    have hrec := hbegin.record (htyped _ (List.mem_cons_of_mem _ (List.mem_singleton.mpr rfl))) hsplit
    rw [show min _ _ = filledUp.length by rw [hlen]; decide +kernel] at hrec
    exact hrec
  obtain ⟨hwhen, _, _⟩ := torn_append (images [.begin 0 0]) tornPiece ⟨by decide, by decide⟩ (by decide +kernel)
    [.commit 0 0] [.data 1 0 0 [7]] 1 0 (by decide +kernel) (by unfold OnlyData; decide)
    (show filledUp = images [.begin 0 0] ++ (tornPiece.bytes ++ images [.commit 0 0]) from rfl) rfl
  rw [hlen] at hwhen hnext
  exact ⟨by decide +kernel, hwhen ⟨by decide +kernel, by decide, hnext⟩⟩

end RaidTest.Journal
