import RaidTest.Journal.Format

/-!
# Scanning a journal (the loop of `journal_recover_all`)

The scan walks over the records of one journal file. A BEGIN forgets what was collected, a
DATA record of an open transaction whose payload is there and intact is remembered, a
COMMIT closes the transaction. On a row of whole records, with at most a torn one at the end,
it finds what `txnOf` reads off the records.
-/

namespace RaidTest.Journal
open RaidTest.Base

/-! ### The loop -/

def maxRanges : ℕ := 256
def maxJournal : ℕ := 67108864

/-- An entry of `ranges`. -/
structure Range where
  off : ℕ
  len : ℕ
  dataOff : ℕ
  deriving Repr, DecidableEq

/-- The variables of the loop. -/
structure ScanState where
  offset : ℕ
  hasBegin : Bool
  hasCommit : Bool
  beginGen : ℕ
  ranges : List Range
  deriving Repr, DecidableEq

def ScanState.start : ScanState := ⟨0, false, false, 0, []⟩

/-- How a turn of the loop ends: by `break`, or at the next turn, or by reading past the end
of `raw`, which has no result. -/
inductive Turn where
  | stop (s : ScanState)
  | more (s : ScanState)
  | fault
  deriving DecidableEq

/-- `payload`. -/
def payloadOf (je : JournalEntry) : ℕ := if je.version ≥ 2 ∧ je.entryType = jtData then je.length else 0

/-- `offset += payload`, not beyond the end. `offset` is a `uint32_t`: a length near `2^32`
makes it wrap. -/
def advance (raw : List Byte) (offset payload : ℕ) : ℕ :=
  if u32 (offset + payload) > raw.length then raw.length else u32 (offset + payload)

/-- The body of the loop. -/
def scanTurn (raw : List Byte) (s : ScanState) : Turn :=
  let je := readEntry raw s.offset
  let offset := s.offset + entrySize
  if je.magic ≠ journalMagic then .stop { s with offset := offset }
  else if (crc32 (slice raw s.offset checkedSize)).toNat ≠ je.checksum then .stop { s with offset := raw.length }
  else
    let payload := payloadOf je
    let next := advance raw offset payload
    if je.entryType = jtBegin then
      .more { offset := next, hasBegin := true, hasCommit := false, beginGen := je.generation, ranges := [] }
    else if je.entryType = jtData ∧ s.hasBegin ∧ s.hasCommit = false then
      if je.version ≥ 2 ∧ s.ranges.length < maxRanges ∧ u32 (offset + payload) ≤ raw.length then
        if raw.length < offset + payload then .fault
        else if (crc32 (slice raw offset payload)).toNat = je.dataCrc then
          .more { s with offset := next, ranges := s.ranges ++ [⟨je.virtualOffset, je.length, offset⟩] }
        else .more { s with offset := next }
      else .more { s with offset := next }
    else if je.entryType = jtCommit ∧ s.hasBegin then .more { s with offset := next, hasCommit := true }
    else .more { s with offset := next }

/-- `while (offset + sizeof(JOURNAL_ENTRY) <= read)`. -/
def scanLoop (raw : List Byte) : ℕ → ScanState → Option ScanState
  | 0, _ => none
  | fuel + 1, s =>
    if s.offset + entrySize ≤ raw.length then
      match scanTurn raw s with
      | .stop t => some t
      | .more t => scanLoop raw fuel t
      | .fault => none
    else some s

/-- The scan of a whole file. The next offset is a function of the offset, so a loop that
visits more offsets than there are never ends. -/
def scan (raw : List Byte) : Option ScanState := scanLoop raw (raw.length + 1) .start

/-- `!clean`. -/
def ScanState.incomplete (s : ScanState) : Bool := s.hasBegin && !s.hasCommit

/-! ### Rows of records -/

/-- The transaction a row of records leaves behind, with the payloads that are remembered. -/
structure Txn where
  begun : Bool
  committed : Bool
  kept : List (ℕ × List Byte)
  deriving DecidableEq

def Txn.none : Txn := ⟨false, false, []⟩

def Txn.incomplete (t : Txn) : Bool := t.begun && !t.committed

def Txn.next (t : Txn) : Rec → Txn
  | .begin _ _ => ⟨true, false, []⟩
  | .data _ _ off payload =>
    if t.incomplete = true ∧ t.kept.length < maxRanges then { t with kept := t.kept ++ [(off, payload)] } else t
  | .commit _ _ => { t with committed := t.committed || t.begun }

def txnOf (recs : List Rec) : Txn := recs.foldl Txn.next .none

def images (recs : List Rec) : List Byte := (recs.map Rec.image).flatten

theorem images_append (l m : List Rec) : images (l ++ m) = images l ++ images m := by
  simp only [images, List.map_append, List.flatten_append]

theorem images_length (recs : List Rec) : recs.length ≤ (images recs).length := by
  induction recs with
  | nil => exact Nat.le_refl 0
  | cons r recs ih =>
    have h := r.image_length
    have he : entrySize = 48 := rfl
    simp only [images, List.map_cons, List.flatten_cons, List.length_append, List.length_cons] at ih ⊢
    omega

/-- A part of a record, cut off before its end. -/
def TornOff (tail : List Byte) : Prop := ∃ r : Rec, r.Fits ∧ ∃ n < r.image.length, tail = r.image.take n

/-- A part of a record, of any payload that a journal has room for. -/
def CutShort (tail : List Byte) : Prop :=
  ∃ r : Rec, r.Typed ∧ r.payload.length ≤ maxJournal ∧ ∃ n < r.image.length, tail = r.image.take n

theorem TornOff.cutShort {tail : List Byte} (h : TornOff tail) : CutShort tail := by
  obtain ⟨r, hr, hn⟩ := h
  refine ⟨r, hr.typed, ?_, hn⟩
  cases r with
  | begin g t => exact Nat.zero_le _
  | data g t off payload => exact Nat.le_trans (show payload.length ≤ maxFlushSize from hr.2.2.2) (by decide)
  | commit g t => exact Nat.zero_le _

/-- The scan state says what the transaction says, of payloads inside the file. -/
structure Agrees (raw : List Byte) (s : ScanState) (t : Txn) : Prop where
  begun : s.hasBegin = t.begun
  committed : s.hasCommit = t.committed
  kept : s.ranges.map (fun r => (r.off, slice raw r.dataOff r.len)) = t.kept
  inside : ∀ r ∈ s.ranges, 0 < r.dataOff ∧ r.dataOff + r.len ≤ raw.length

theorem Agrees.incomplete {raw : List Byte} {s : ScanState} {t : Txn} (h : Agrees raw s t) :
    s.incomplete = t.incomplete := by
  rw [ScanState.incomplete, Txn.incomplete, h.begun, h.committed]

theorem Agrees.count {raw : List Byte} {s : ScanState} {t : Txn} (h : Agrees raw s t) :
    s.ranges.length = t.kept.length := by
  rw [← h.kept, List.length_map]

theorem Agrees.offset {raw : List Byte} {s : ScanState} {t : Txn} (h : Agrees raw s t) (o : ℕ) :
    Agrees raw { s with offset := o } t := ⟨h.begun, h.committed, h.kept, h.inside⟩

theorem payloadOf_record (r : Rec) : payloadOf r.entry = r.payload.length := by
  have hv : r.entry.version ≥ 2 := by rw [r.version]; decide
  unfold payloadOf
  cases r with
  | begin g ts => exact if_neg fun h => absurd (show jtBegin = jtData from h.2) (by decide)
  | data g ts off payload => exact if_pos ⟨hv, rfl⟩
  | commit g ts => exact if_neg fun h => absurd (show jtCommit = jtData from h.2) (by decide)

theorem advance_of_le {raw : List Byte} {offset payload : ℕ} (hsize : raw.length ≤ maxJournal)
    (h : offset + payload ≤ raw.length) : advance raw offset payload = offset + payload := by
  have hmax : maxJournal = 67108864 := rfl
  unfold advance
  rw [u32_of_lt (by omega), if_neg (by omega)]

/-- The header of a record passes the checks of a turn. -/
theorem scanTurn_entry {raw : List Byte} {s : ScanState} {r : Rec} (hje : readEntry raw s.offset = r.entry)
    (hbody : slice raw s.offset checkedSize = r.entry.body) :
    scanTurn raw s =
      let offset := s.offset + entrySize
      let next := advance raw offset r.payload.length
      match r with
      | .begin g _ => .more ⟨next, true, false, g, []⟩
      | .data _ _ off payload =>
        if s.hasBegin = true ∧ s.hasCommit = false then
          if s.ranges.length < maxRanges ∧ u32 (offset + payload.length) ≤ raw.length then
            if raw.length < offset + payload.length then .fault
            else if (crc32 (slice raw offset payload.length)).toNat = r.entry.dataCrc then
              .more { s with offset := next, ranges := s.ranges ++ [⟨off, payload.length, offset⟩] }
            else .more { s with offset := next }
          else .more { s with offset := next }
        else .more { s with offset := next }
      | .commit _ _ => .more { s with offset := next, hasCommit := s.hasCommit || s.hasBegin } := by
  have hv : r.entry.version ≥ 2 := by rw [r.version]; decide
  have hpay := payloadOf_record r
  unfold scanTurn
  simp only [hje, hbody, hpay]
  rw [if_neg (by rw [r.magic]; exact fun h => h rfl), if_neg (by rw [r.checksum]; exact fun h => h rfl)]
  cases r with
  | begin g ts => exact if_pos rfl
  | data g ts off payload =>
    have hty : (Rec.data g ts off payload).entry.entryType = jtData := rfl
    rw [if_neg (by rw [hty]; decide)]
    simp only [hty, hv, true_and]
    split
    · rfl
    · exact if_neg fun h => absurd h.1 (by decide)
  | commit g ts =>
    have hty : (Rec.commit g ts).entry.entryType = jtCommit := rfl
    rw [if_neg (by rw [hty]; decide), if_neg (fun h => absurd (hty.symm.trans h.1) (by decide))]
    cases hb : s.hasBegin with
    | true => rw [if_pos ⟨hty, rfl⟩, Bool.or_true]
    | false => rw [if_neg (fun h => Bool.false_ne_true h.2), Bool.or_false]

section Records
variable {raw pre post : List Byte} {r : Rec}

/-- The bytes of a header, behind `pre`, are read as that header. -/
theorem readEntry_record (hr : r.Typed) (hraw : raw = pre ++ (r.entry.bytes ++ post)) :
    readEntry raw pre.length = r.entry := by
  rw [hraw]
  exact readEntry_bytes r.entry (Rec.entry_inRange hr) pre post rfl

theorem slice_record (hraw : raw = pre ++ (r.entry.bytes ++ post)) : slice raw pre.length checkedSize = r.entry.body := by
  rw [hraw, JournalEntry.bytes, List.append_assoc]
  exact slice_mid pre r.entry.body _ rfl r.entry.body_length

/-- The header of a torn record that is as long as a header is whole. -/
theorem Rec.torn_header (r : Rec) {n : ℕ} (h : entrySize ≤ n) :
    r.image.take n = r.entry.bytes ++ r.payload.take (n - entrySize) := by
  rw [Rec.image, List.take_append, r.entry.bytes_length, List.take_of_length_le]
  rw [r.entry.bytes_length]
  exact h

end Records

/-- One turn at a whole record. -/
theorem scanTurn_record {r : Rec} (hr : r.Typed) {raw pre post : List Byte} (hraw : raw = pre ++ (r.image ++ post))
    (hsize : raw.length ≤ maxJournal) {s : ScanState} {t : Txn} (hs : s.offset = pre.length) (h : Agrees raw s t) :
    ∃ s', scanTurn raw s = .more s' ∧ s'.offset = pre.length + r.image.length ∧ Agrees raw s' (t.next r) := by
  have hmax : maxJournal = 67108864 := rfl
  have hlen : raw.length = pre.length + (entrySize + r.payload.length) + post.length := by
    rw [hraw, List.length_append, List.length_append, r.image_length]
    omega
  have himg : r.image ++ post = r.entry.bytes ++ (r.payload ++ post) := by rw [Rec.image, List.append_assoc]
  have hje : readEntry raw s.offset = r.entry := by
    rw [hs]
    exact readEntry_record hr (himg ▸ hraw)
  have hbody : slice raw s.offset checkedSize = r.entry.body := by
    rw [hs]
    exact slice_record (himg ▸ hraw)
  have hslice : slice raw (s.offset + entrySize) r.payload.length = r.payload := by
    rw [hraw, hs, himg, ← List.append_assoc]
    exact slice_mid _ r.payload post (by rw [List.length_append, JournalEntry.bytes_length]) rfl
  have hnext : advance raw (s.offset + entrySize) r.payload.length = pre.length + r.image.length := by
    rw [advance_of_le hsize (by omega), r.image_length]
    omega
  rw [scanTurn_entry hje hbody]
  simp only [hnext]
  cases r with
  | begin g ts => exact ⟨_, rfl, rfl, rfl, rfl, rfl, fun q hq => absurd hq List.not_mem_nil⟩
  | commit g ts =>
    refine ⟨_, rfl, rfl, h.begun, ?_, h.kept, h.inside⟩
    simp only [Txn.next, h.begun, h.committed]
  | data g ts off payload =>
    have hpay : (Rec.data g ts off payload).payload = payload := rfl
    rw [hpay] at hlen hslice
    have hinc : s.hasBegin = true ∧ s.hasCommit = false ↔ t.incomplete = true := by
      rw [← h.incomplete, ScanState.incomplete, Bool.and_eq_true, Bool.not_eq_true']
    simp only [Txn.next, hinc]
    by_cases hopen : t.incomplete = true
    · rw [if_pos hopen, h.count]
      by_cases hroom : t.kept.length < maxRanges
      · rw [if_pos ⟨hroom, by rw [u32_of_lt (by omega)]; omega⟩, if_neg (by omega), hslice,
          if_pos (Rec.dataCrc g ts off payload).symm, if_pos ⟨hopen, hroom⟩]
        refine ⟨_, rfl, rfl, h.begun, h.committed, ?_, fun q hq => ?_⟩
        · simp only [List.map_append, List.map_cons, List.map_nil, hslice, h.kept]
        · rcases List.mem_append.mp hq with hq | hq
          · exact h.inside q hq
          · rw [List.mem_singleton.mp hq]
            have he : entrySize = 48 := rfl
            simp only
            omega
      · rw [if_neg fun hc => hroom hc.1, if_neg fun hc => hroom hc.2]
        exact ⟨_, rfl, rfl, h.offset _⟩
    · rw [if_neg hopen, if_neg fun hc => hopen hc.1]
      exact ⟨_, rfl, rfl, h.offset _⟩

theorem scanLoop_records {raw : List Byte} (hsize : raw.length ≤ maxJournal) (recs : List Rec) :
    ∀ {pre post : List Byte} {s : ScanState} {t : Txn} (fuel : ℕ), (∀ r ∈ recs, r.Typed) →
      raw = pre ++ (images recs ++ post) → s.offset = pre.length → Agrees raw s t →
      ∃ s', scanLoop raw (recs.length + fuel) s = scanLoop raw fuel s' ∧
        s'.offset = pre.length + (images recs).length ∧ Agrees raw s' (recs.foldl Txn.next t) := by
  induction recs with
  | nil =>
    intro pre post s t fuel _ _ hs h
    exact ⟨s, by rw [List.length_nil, Nat.zero_add], hs, h⟩
  | cons r recs ih =>
    intro pre post s t fuel htyped hraw hs h
    have himg : images (r :: recs) = r.image ++ images recs := rfl
    rw [himg, List.append_assoc] at hraw
    obtain ⟨s1, h1, h2, h3⟩ := scanTurn_record (htyped r (List.mem_cons_self ..)) hraw hsize hs h
    obtain ⟨s2, h4, h5, h6⟩ := ih fuel (fun q hq => htyped q (List.mem_cons_of_mem _ hq))
      (show raw = (pre ++ r.image) ++ (images recs ++ post) by rw [hraw, List.append_assoc])
      (by rw [h2, List.length_append]) h3
    refine ⟨s2, ?_, ?_, h6⟩
    · rw [List.length_cons, Nat.add_right_comm, scanLoop, if_pos, h1]
      · exact h4
      · have hl := r.image_length
        rw [hs, hraw, List.length_append, List.length_append]
        omega
    · rw [h5, himg, List.length_append, List.length_append]
      omega

/-- A torn record at the end is not counted, and nothing stands behind it. -/
theorem scanLoop_tail {raw pre tail : List Byte} (hsize : raw.length ≤ maxJournal) (ht : CutShort tail)
    (hraw : raw = pre ++ tail) {s : ScanState} {t : Txn} (hs : s.offset = pre.length) (h : Agrees raw s t)
    {fuel : ℕ} (hfuel : tail.length < fuel) : ∃ s', scanLoop raw fuel s = some s' ∧ Agrees raw s' t := by
  have hmax : maxJournal = 67108864 := rfl
  have hentry : entrySize = 48 := rfl
  obtain ⟨r, hr, hfit, n, hn, rfl⟩ := ht
  have hlen : raw.length = pre.length + n := by
    rw [hraw, List.length_append, List.length_take]
    omega
  have htail : (r.image.take n).length = n := by
    rw [List.length_take]
    omega
  rw [htail] at hfuel
  obtain ⟨fuel, rfl⟩ : ∃ f, fuel = f + 1 := ⟨fuel - 1, by omega⟩
  by_cases hshort : n < entrySize
  · refine ⟨s, ?_, h⟩
    rw [scanLoop, if_neg (by omega)]
  -- the header is whole: a DATA record whose payload goes beyond the end of the file
  rw [r.image_length] at hn
  obtain ⟨fuel, rfl⟩ : ∃ f, fuel = f + 1 := ⟨fuel - 1, by omega⟩
  rw [r.torn_header (Nat.le_of_not_lt hshort)] at hraw
  have hje : readEntry raw s.offset = r.entry := by
    rw [hs]
    exact readEntry_record hr hraw
  have hbody : slice raw s.offset checkedSize = r.entry.body := by
    rw [hs]
    exact slice_record hraw
  have hlong : raw.length < s.offset + entrySize + r.payload.length := by omega
  have hturn : scanTurn raw s = .more { s with offset := raw.length } := by
    rw [scanTurn_entry hje hbody]
    cases r with
    | begin g ts => simp only [Rec.payload, List.length_nil] at hn; omega
    | commit g ts => simp only [Rec.payload, List.length_nil] at hn; omega
    | data g ts off payload =>
      have hpay : (Rec.data g ts off payload).payload = payload := rfl
      rw [hpay] at hlong hfit
      have hu : u32 (s.offset + entrySize + payload.length) = s.offset + entrySize + payload.length :=
        u32_of_lt (by omega)
      have hnext : advance raw (s.offset + entrySize) payload.length = raw.length := by
        unfold advance
        rw [hu, if_pos hlong]
      simp only [hpay, hnext]
      split
      · exact if_neg fun hc => absurd hc.2 (by omega)
      · rfl
  refine ⟨{ s with offset := raw.length }, ?_, h.offset _⟩
  rw [scanLoop, if_pos (by omega), hturn]
  simp only
  obtain ⟨fuel, rfl⟩ : ∃ f, fuel = f + 1 := ⟨fuel - 1, by omega⟩
  exact if_neg (by simp only; omega)

/-- The scan of whole records with a torn one behind them. -/
theorem scan_typed {recs : List Rec} {tail : List Byte} (htyped : ∀ r ∈ recs, r.Typed) (ht : CutShort tail)
    (hsize : (images recs ++ tail).length ≤ maxJournal) :
    ∃ s, scan (images recs ++ tail) = some s ∧ Agrees (images recs ++ tail) s (txnOf recs) := by
  have hlen := images_length recs
  generalize hraw : images recs ++ tail = raw at hsize
  have hl : raw.length = (images recs).length + tail.length := by rw [← hraw, List.length_append]
  obtain ⟨s1, h1, h2, h3⟩ := scanLoop_records hsize recs (s := .start) (t := .none)
    (raw.length + 1 - recs.length) htyped (show raw = [] ++ (images recs ++ tail) from hraw.symm) rfl ⟨rfl, rfl, rfl, nofun⟩
  rw [show recs.length + (raw.length + 1 - recs.length) = raw.length + 1 by omega] at h1
  obtain ⟨s2, h4, h5⟩ := scanLoop_tail hsize ht hraw.symm (by rw [h2, List.length_nil, Nat.zero_add]) h3
    (show tail.length < raw.length + 1 - recs.length by omega)
  exact ⟨s2, h1.trans h4, h5⟩

theorem scan_images {recs : List Rec} {tail : List Byte} (hfits : ∀ r ∈ recs, r.Fits) (ht : TornOff tail)
    (hsize : (images recs ++ tail).length ≤ maxJournal) :
    ∃ s, scan (images recs ++ tail) = some s ∧ Agrees (images recs ++ tail) s (txnOf recs) :=
  scan_typed (fun r hr => (hfits r hr).typed) ht.cutShort hsize

theorem tornOff_nil : TornOff [] := by
  refine ⟨.begin 0 0, ⟨by decide, by decide⟩, 0, ?_, rfl⟩
  rw [Rec.image_length]
  decide

end RaidTest.Journal
