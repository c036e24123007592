import RaidTest.Journal.Replay
import RaidTest.Journal.Kept

/-!
# The bounds of the scan

`offset` is a `uint32_t` that advances by lengths taken from the file. As long as no sum of it
wraps, the scan goes forward by a header at least and reads only bytes of the file. A length
near `2^32` sends it back: to the very header it comes from, or to a payload outside the buffer.
-/

namespace RaidTest.Journal
open RaidTest.Base

/-! ### What a turn does to the buffer and to `offset` -/

/-- The states at the head of the loop. -/
inductive Visited (raw : List Byte) : ScanState → Prop where
  | start : Visited raw .start
  | turn {s t : ScanState} : Visited raw s → s.offset + entrySize ≤ raw.length → scanTurn raw s = .more t → Visited raw t

/-- The header at `o` is there, and intact. -/
def Intact (raw : List Byte) (o : ℕ) : Prop :=
  o + entrySize ≤ raw.length ∧ (readEntry raw o).magic = journalMagic ∧
    (crc32 (slice raw o checkedSize)).toNat = (readEntry raw o).checksum

instance (raw : List Byte) (o : ℕ) : Decidable (Intact raw o) := inferInstanceAs (Decidable (_ ∧ _ ∧ _))

/-- The turn goes as far as `crc32(raw + offset, payload)`. -/
def ChecksPayload (raw : List Byte) (s : ScanState) : Prop :=
  Intact raw s.offset ∧ (readEntry raw s.offset).entryType = jtData ∧ s.hasBegin = true ∧ s.hasCommit = false ∧
    (readEntry raw s.offset).version ≥ 2 ∧ s.ranges.length < maxRanges ∧
    u32 (s.offset + entrySize + payloadOf (readEntry raw s.offset)) ≤ raw.length

instance (raw : List Byte) (s : ScanState) : Decidable (ChecksPayload raw s) :=
  inferInstanceAs (Decidable (_ ∧ _ ∧ _ ∧ _ ∧ _ ∧ _ ∧ _))

/-- Place and length of the reads of a turn: the header, and a payload that is checked. -/
def turnReads (raw : List Byte) (s : ScanState) : List (ℕ × ℕ) :=
  (s.offset, entrySize) ::
    if ChecksPayload raw s then [(s.offset + entrySize, payloadOf (readEntry raw s.offset))] else []

/-- `offset` at the head of a turn, behind the header, and at the end of the turn. -/
def turnOffsets (raw : List Byte) (s : ScanState) : List ℕ :=
  match scanTurn raw s with
  | .stop t => [s.offset, s.offset + entrySize, t.offset]
  | .more t => [s.offset, s.offset + entrySize, t.offset]
  | .fault => [s.offset, s.offset + entrySize]

/-- The scan ends, `offset` never decreases, and the header, the payload and the replay are
read inside the file. -/
structure Bounded (raw : List Byte) : Prop where
  ends : ∃ fuel s, scanLoop raw fuel .start = some s
  forward : ∀ s, Visited raw s → s.offset + entrySize ≤ raw.length → (turnOffsets raw s).Pairwise (· ≤ ·)
  inside : ∀ s, Visited raw s → s.offset + entrySize ≤ raw.length → ∀ q ∈ turnReads raw s, q.1 + q.2 ≤ raw.length
  replay : ∀ fuel s, scanLoop raw fuel .start = some s → s.Inside raw

theorem nextOffset_eq (raw : List Byte) (o : ℕ) : nextOffset raw o =
    if Intact raw o then some (advance raw (o + entrySize) (payloadOf (readEntry raw o))) else none := rfl

/-- A turn has no result exactly if one of its reads leaves the buffer. -/
theorem scanTurn_fault {raw : List Byte} {s : ScanState} (hin : s.offset + entrySize ≤ raw.length) :
    scanTurn raw s = .fault ↔ ∃ q ∈ turnReads raw s, raw.length < q.1 + q.2 := by
  have hreads : (∃ q ∈ turnReads raw s, raw.length < q.1 + q.2) ↔
      ChecksPayload raw s ∧ raw.length < s.offset + entrySize + payloadOf (readEntry raw s.offset) := by
    unfold turnReads
    split
    · next hc =>
      simp only [List.mem_cons, List.not_mem_nil, or_false, exists_eq_or_imp, exists_eq_left]
      exact ⟨fun h => ⟨hc, h.resolve_left (by omega)⟩, fun h => Or.inr h.2⟩
    · next hc =>
      simp only [List.mem_singleton, exists_eq_left]
      exact ⟨fun h => absurd h (by omega), fun h => absurd h.1 hc⟩
  rw [hreads]
  unfold scanTurn ChecksPayload Intact
  simp only
  split
  · next hm => exact ⟨nofun, fun h => absurd h.1.1.2.1 hm⟩
  next hm =>
  split
  · next hcrc => exact ⟨nofun, fun h => absurd h.1.1.2.2 hcrc⟩
  next hcrc =>
  split
  · next hb => exact ⟨nofun, fun h => absurd (hb.symm.trans h.1.2.1) (by decide)⟩
  split
  · next hd =>
    split
    · next hroom =>
      split
      · next hlong =>
        exact ⟨fun _ => ⟨⟨⟨hin, not_not.mp hm, not_not.mp hcrc⟩, hd.1, hd.2.1, hd.2.2, hroom⟩, hlong⟩, fun _ => rfl⟩
      next hshort =>
      split
      · exact ⟨nofun, fun h => absurd h.2 hshort⟩
      · exact ⟨nofun, fun h => absurd h.2 hshort⟩
    · next hroom => exact ⟨nofun, fun h => absurd h.1.2.2.2.2 hroom⟩
  next hd =>
  split
  · exact ⟨nofun, fun h => absurd ⟨h.1.2.1, h.1.2.2.1, h.1.2.2.2.1⟩ hd⟩
  · exact ⟨nofun, fun h => absurd ⟨h.1.2.1, h.1.2.2.1, h.1.2.2.2.1⟩ hd⟩

/-! ### The headers of a file -/

/-- The places of the headers, in exact arithmetic: a header stands at the beginning, and behind
the payload of every intact one, or at the end. -/
inductive Frame (raw : List Byte) : ℕ → Prop where
  | first : Frame raw 0
  | next {o : ℕ} : Frame raw o → Intact raw o →
      Frame raw (min (o + entrySize + payloadOf (readEntry raw o)) raw.length)

/-- No payload of an intact header ends beyond the reach of 32 bits. -/
def Narrow (raw : List Byte) : Prop :=
  ∀ o, Frame raw o → Intact raw o → o + entrySize + payloadOf (readEntry raw o) < 2^32

theorem unle_lt (bs : List UInt8) : unle bs < 256 ^ bs.length := by
  induction bs with
  | nil => exact Nat.one_pos
  | cons b bs ih =>
    have hb : b.toNat < 256 := b.toNat_lt
    rw [unle, List.length_cons, Nat.pow_succ]
    omega

theorem payloadOf_lt (raw : List Byte) (o : ℕ) : payloadOf (readEntry raw o) < 2^32 := by
  unfold payloadOf
  split
  · have hlen : (slice raw (o + 36) 4).length ≤ 4 := List.length_take_le ..
    exact (unle_lt _).trans_le (Nat.pow_le_pow_right (n := 256) (by decide) hlen)
  · decide

theorem advance_exact {raw : List Byte} {offset payload : ℕ} (h : offset + payload < 2^32) :
    advance raw offset payload = min (offset + payload) raw.length := by
  unfold advance
  rw [u32_of_lt h]
  split <;> omega

/-- A sum that wraps sends `offset` back behind the header. -/
theorem advance_wrapped {raw : List Byte} {offset payload : ℕ} (hin : offset ≤ raw.length)
    (hpay : payload < 2^32) (hwrap : 2^32 ≤ offset + payload) (hsize : raw.length ≤ maxJournal) :
    advance raw offset payload < offset := by
  have hmax : maxJournal = 67108864 := rfl
  have hu : u32 (offset + payload) = offset + payload - 2^32 := by
    unfold u32
    omega
  unfold advance
  rw [hu]
  split <;> omega

section Turns
variable {raw : List Byte} {s : ScanState} (hin : s.offset + entrySize ≤ raw.length)
include hin

/-- A turn that reads inside the file stops, or goes on at the place of the next header. -/
theorem scanTurn_next (hf : scanTurn raw s ≠ .fault) :
    (¬ Intact raw s.offset ∧ ∃ o, (o = s.offset + entrySize ∨ o = raw.length) ∧ scanTurn raw s = .stop { s with offset := o }) ∨
      Intact raw s.offset ∧ ∃ t, scanTurn raw s = .more t ∧
        t.offset = advance raw (s.offset + entrySize) (payloadOf (readEntry raw s.offset)) := by
  rcases scanTurn_cases hin with ⟨hnone, _⟩ | ⟨next, hnext, hfault | ⟨t, ht, hp⟩⟩
  · rw [nextOffset_eq] at hnone
    have hnot : ¬ Intact raw s.offset := fun h => by rw [if_pos h] at hnone; cases hnone
    refine Or.inl ⟨hnot, ?_⟩
    unfold scanTurn
    simp only
    split
    · exact ⟨_, Or.inl rfl, rfl⟩
    next hm =>
    split
    · exact ⟨_, Or.inr rfl, rfl⟩
    next hcrc => exact absurd ⟨hin, not_not.mp hm, not_not.mp hcrc⟩ hnot
  · exact absurd hfault hf
  · rw [nextOffset_eq] at hnext
    split at hnext
    · next hi =>
      refine Or.inr ⟨hi, t, ht, ?_⟩
      rw [hp.offset]
      exact (Option.some.inj hnext).symm
    · cases hnext

/-- Without a wrap, a turn reads inside the file. -/
theorem scanTurn_narrow (h : Intact raw s.offset → s.offset + entrySize + payloadOf (readEntry raw s.offset) < 2^32) :
    scanTurn raw s ≠ .fault := by
  rw [Ne, scanTurn_fault hin]
  rintro ⟨q, hq, hlong⟩
  rcases List.mem_cons.mp hq with rfl | hq
  · exact absurd hlong (by simp only; omega)
  split at hq
  · next hc =>
    obtain ⟨hi, -, -, -, -, -, hle⟩ := hc
    rw [u32_of_lt (h hi)] at hle
    rw [List.mem_singleton.mp hq] at hlong
    exact absurd hlong (by simp only; omega)
  · cases hq

end Turns

/-! ### Files without a wrap -/

section Narrow
variable {raw : List Byte} (hn : Narrow raw)
include hn

/-- One turn goes to the next header, by the length of a header at least. -/
theorem Frame.turn {s : ScanState} (hframe : Frame raw s.offset) (hin : s.offset + entrySize ≤ raw.length) :
    scanTurn raw s ≠ .fault ∧ ∀ t, scanTurn raw s = .more t → Frame raw t.offset ∧ s.offset + entrySize ≤ t.offset := by
  have hf := scanTurn_narrow hin (hn s.offset hframe)
  refine ⟨hf, fun t ht => ?_⟩
  rcases scanTurn_next hin hf with ⟨_, o, _, hstop⟩ | ⟨hi, t', ht', hoff⟩
  · rw [hstop] at ht
    cases ht
  rw [ht'] at ht
  obtain rfl := Turn.more.inj ht
  rw [hoff, advance_exact (hn s.offset hframe hi)]
  exact ⟨hframe.next hi, by omega⟩

theorem Visited.frame {s : ScanState} (h : Visited raw s) : Frame raw s.offset := by
  induction h with
  | start => exact .first
  | turn _ hin ht ih => exact ((ih.turn hn hin).2 _ ht).1

theorem scanLoop_ends (fuel : ℕ) :
    ∀ {s : ScanState}, Frame raw s.offset → raw.length < s.offset + fuel + entrySize →
      ∃ t, scanLoop raw (fuel + 1) s = some t := by
  induction fuel with
  | zero =>
    intro s _ hfuel
    exact ⟨s, by rw [scanLoop, if_neg (by omega)]⟩
  | succ fuel ih =>
    intro s hframe hfuel
    by_cases hin : s.offset + entrySize ≤ raw.length
    · obtain ⟨hf, hmore⟩ := hframe.turn hn hin
      rw [scanLoop, if_pos hin]
      cases hturn : scanTurn raw s with
      | stop t => exact ⟨t, rfl⟩
      | more t =>
        obtain ⟨hnext, hle⟩ := hmore t hturn
        have he : entrySize = 48 := rfl
        exact ih hnext (by omega)
      | fault => exact absurd hturn hf
    · exact ⟨s, by rw [scanLoop, if_neg hin]⟩

theorem Narrow.bounded : Bounded raw where
  ends := by
    have he : entrySize = 48 := rfl
    obtain ⟨t, ht⟩ := scanLoop_ends hn raw.length (s := .start) .first (by omega)
    exact ⟨raw.length + 1, t, ht⟩
  forward := by
    intro s hs hin
    obtain ⟨hf, hmore⟩ := (hs.frame hn).turn hn hin
    have hsorted : ∀ a b c : ℕ, a ≤ b → b ≤ c → [a, b, c].Pairwise (· ≤ ·) := by
      intro a b c h1 h2
      simp only [List.pairwise_cons, List.mem_cons, List.not_mem_nil, or_false, forall_eq_or_imp, forall_eq]
      exact ⟨⟨h1, h1.trans h2⟩, h2, nofun, List.Pairwise.nil⟩
    unfold turnOffsets
    rcases scanTurn_next hin hf with ⟨_, o, ho, hstop⟩ | ⟨_, t, ht, _⟩
    · rw [hstop]
      exact hsorted _ _ _ (Nat.le_add_right ..) (by simp only; omega)
    · rw [ht]
      exact hsorted _ _ _ (Nat.le_add_right ..) (hmore t ht).2
  inside := by
    intro s hs hin q hq
    by_contra hlong
    exact ((hs.frame hn).turn hn hin).1 ((scanTurn_fault hin).mpr ⟨q, hq, by omega⟩)
  replay := fun fuel _ hs => scanLoop_inside fuel (fun _ hr => absurd hr List.not_mem_nil) hs

end Narrow

/-! ### Scans that stay inside -/

section Bounded
variable {raw : List Byte} (hsize : raw.length ≤ maxJournal) (hb : Bounded raw)
include hsize hb

/-- A turn at an intact header goes on, behind it, so nothing has wrapped. -/
theorem Bounded.turn {s : ScanState} (hs : Visited raw s) (hi : Intact raw s.offset) :
    s.offset + entrySize + payloadOf (readEntry raw s.offset) < 2^32 ∧ ∃ t, scanTurn raw s = .more t ∧
      t.offset = advance raw (s.offset + entrySize) (payloadOf (readEntry raw s.offset)) := by
  have hin : s.offset + entrySize ≤ raw.length := hi.1
  have hf : scanTurn raw s ≠ .fault := by
    rw [Ne, scanTurn_fault hin]
    rintro ⟨q, hq, hlong⟩
    exact absurd (hb.inside s hs hin q hq) (by omega)
  rcases scanTurn_next hin hf with ⟨hnot, _⟩ | ⟨_, t, ht, hoff⟩
  · exact absurd hi hnot
  refine ⟨?_, t, ht, hoff⟩
  have hle : s.offset + entrySize ≤ t.offset := by
    have hforward := hb.forward s hs hin
    unfold turnOffsets at hforward
    rw [ht] at hforward
    exact (List.pairwise_cons.mp (List.pairwise_cons.mp hforward).2).1 _ (List.mem_singleton_self _)
  by_contra hwrap
  have hback := advance_wrapped hin (payloadOf_lt raw s.offset) (by omega) hsize
  omega

theorem Bounded.visits {o : ℕ} (h : Frame raw o) : ∃ s, Visited raw s ∧ s.offset = o := by
  induction h with
  | first => exact ⟨.start, .start, rfl⟩
  | next _ hi ih =>
    obtain ⟨s, hs, rfl⟩ := ih
    obtain ⟨hnarrow, t, ht, hoff⟩ := hb.turn hsize hs hi
    exact ⟨t, hs.turn hi.1 ht, by rw [hoff, advance_exact hnarrow]⟩

end Bounded

/-- The scan of a file of at most 64 MB ends, goes forward and stays inside the file exactly if
no payload of an intact header ends beyond `2^32`. -/
theorem scan_bounded (raw : List Byte) (hsize : raw.length ≤ maxJournal) : Bounded raw ↔ Narrow raw := by
  refine ⟨fun hb o ho hi => ?_, fun hn => hn.bounded⟩
  obtain ⟨s, hs, rfl⟩ := hb.visits hsize ho
  exact (hb.turn hsize hs hi).1

/-- A DATA record whose length takes `offset` back to its own header. -/
def endless : List Byte := (makeJe jtData 0 0 0 4294967248 []).bytes

theorem scan_bounded_fails : ¬ ∀ raw : List Byte, raw.length ≤ maxJournal → Bounded raw := by
  intro h
  obtain ⟨fuel, s, hs⟩ := (h endless (by decide +kernel)).ends
  have hturn : scanTurn endless .start = .more .start := by decide +kernel
  have hloop : ∀ fuel, scanLoop endless fuel .start = none := by
    intro fuel
    induction fuel with
    | zero => rfl
    | succ fuel ih =>
      rw [scanLoop, if_pos (by decide +kernel), hturn]
      exact ih
  rw [hloop] at hs
  cases hs

/-- The file of one transaction has its headers at 0, 48 and 97. -/
theorem scan_bounded_sample : Bounded (images [.begin 0 0, .data 0 0 0 [7], .commit 0 0]) := by
  refine (scan_bounded _ (by decide +kernel)).mpr fun o ho => ?_
  have hplace : o = 0 ∨ o = 48 ∨ o = 97 ∨ o = 145 := by
    induction ho with
    | first => exact Or.inl rfl
    | next _ hi ih =>
      rcases ih with rfl | rfl | rfl | rfl
      · exact Or.inr (Or.inl (by decide +kernel))
      · exact Or.inr (Or.inr (Or.inl (by decide +kernel)))
      · exact Or.inr (Or.inr (Or.inr (by decide +kernel)))
      · exact absurd hi.1 (by decide +kernel)
  rcases hplace with rfl | rfl | rfl | rfl <;> decide +kernel

end RaidTest.Journal
