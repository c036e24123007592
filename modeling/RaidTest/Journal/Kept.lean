import RaidTest.Journal.Interrupt
import RaidTest.Journal.Flush

/-!
# A journal kept for retry

A recovery that fails to write one range keeps the journal, and later flush cycles append to
it. Scanning the grown file goes the same way up to the old end. What it had collected there
is lost at the first intact BEGIN or COMMIT behind, and no record is met twice: the offset of
a record decides how many turns the scan still has to take.
-/

namespace RaidTest.Journal
open RaidTest.Base RaidTest.Stripe RaidTest.Mirror RaidTest.Cache

/-! ### Turns of the scan -/

/-- The place of the next header, if the one at `o` is intact. -/
def nextOffset (raw : List Byte) (o : ℕ) : Option ℕ :=
  if o + entrySize ≤ raw.length ∧ (readEntry raw o).magic = journalMagic ∧
      (crc32 (slice raw o checkedSize)).toNat = (readEntry raw o).checksum then
    some (advance raw (o + entrySize) (payloadOf (readEntry raw o)))
  else none

/-- The scan ends `n` headers behind offset `o`. -/
def EndsIn (raw : List Byte) : ℕ → ℕ → Prop
  | 0, o => nextOffset raw o = none
  | n + 1, o => ∃ o', nextOffset raw o = some o' ∧ EndsIn raw n o'

theorem EndsIn.unique {raw : List Byte} {n : ℕ} : ∀ {m o : ℕ}, EndsIn raw n o → EndsIn raw m o → n = m := by
  induction n with
  | zero =>
    intro m o h g
    cases m with
    | zero => rfl
    | succ m =>
      obtain ⟨o', h', _⟩ := g
      have hnone : nextOffset raw o = none := h
      rw [hnone] at h'
      cases h'
  | succ n ih =>
    intro m o h g
    obtain ⟨o', h1, h2⟩ := h
    cases m with
    | zero =>
      have hnone : nextOffset raw o = none := g
      rw [hnone] at h1
      cases h1
    | succ m =>
      obtain ⟨o'', g1, g2⟩ := g
      rw [h1] at g1
      obtain rfl := Option.some.inj g1
      rw [ih h2 g2]

/-- What a turn that goes on does to the variables of the loop. -/
inductive Passes (raw : List Byte) (s : ScanState) (next : ℕ) : ScanState → Prop where
  | begin (h : (readEntry raw s.offset).entryType = jtBegin) :
      Passes raw s next ⟨next, true, false, (readEntry raw s.offset).generation, []⟩
  | commit (h : (readEntry raw s.offset).entryType = jtCommit) (hb : s.hasBegin = true) :
      Passes raw s next { s with offset := next, hasCommit := true }
  | data (h : (readEntry raw s.offset).entryType = jtData) (hc : s.hasCommit = false) :
      Passes raw s next { s with
        offset := next
        ranges := s.ranges ++ [⟨(readEntry raw s.offset).virtualOffset, (readEntry raw s.offset).length, s.offset + entrySize⟩] }
  | other (h : (readEntry raw s.offset).entryType ≠ jtBegin)
      (hc : (readEntry raw s.offset).entryType = jtCommit → s.hasBegin = false) :
      Passes raw s next { s with offset := next }

/-- A turn at a header that is in the file. -/
theorem scanTurn_cases {raw : List Byte} {s : ScanState} (hin : s.offset + entrySize ≤ raw.length) :
    (nextOffset raw s.offset = none ∧ ∃ o, scanTurn raw s = .stop { s with offset := o }) ∨
      ∃ next, nextOffset raw s.offset = some next ∧
        (scanTurn raw s = .fault ∨ ∃ t, scanTurn raw s = .more t ∧ Passes raw s next t) := by
  have hnext : nextOffset raw s.offset = if (readEntry raw s.offset).magic = journalMagic ∧
      (crc32 (slice raw s.offset checkedSize)).toNat = (readEntry raw s.offset).checksum then
        some (advance raw (s.offset + entrySize) (payloadOf (readEntry raw s.offset))) else none := by
    unfold nextOffset
    simp only [hin, true_and]
  unfold scanTurn
  simp only
  split
  · next hm => exact Or.inl ⟨by rw [hnext, if_neg fun h => hm h.1], _, rfl⟩
  next hm =>
  split
  · next hcrc => exact Or.inl ⟨by rw [hnext, if_neg fun h => hcrc h.2], _, rfl⟩
  next hcrc =>
  refine Or.inr ⟨_, by rw [hnext, if_pos ⟨not_not.mp hm, not_not.mp hcrc⟩], ?_⟩
  generalize advance raw (s.offset + entrySize) (payloadOf (readEntry raw s.offset)) = next
  split
  · next hb => exact Or.inr ⟨_, rfl, .begin hb⟩
  next hb =>
  split
  · next hd =>
    have hcommit : (readEntry raw s.offset).entryType = jtCommit → s.hasBegin = false := fun h =>
      absurd (hd.1.symm.trans h) (by decide)
    split
    · split
      · exact Or.inl rfl
      split
      · exact Or.inr ⟨_, rfl, .data hd.1 hd.2.2⟩
      · exact Or.inr ⟨_, rfl, .other hb hcommit⟩
    · exact Or.inr ⟨_, rfl, .other hb hcommit⟩
  split
  · next hc => exact Or.inr ⟨_, rfl, .commit hc.1 hc.2⟩
  · next hc => exact Or.inr ⟨_, rfl, .other hb fun h => by
      rw [← Bool.not_eq_true]
      exact fun hbegin => hc ⟨h, hbegin⟩⟩

theorem Passes.offset {raw : List Byte} {s t : ScanState} {next : ℕ} (h : Passes raw s next t) : t.offset = next := by
  cases h <;> rfl

/-- A turn takes one header off those to come. -/
theorem EndsIn.turn {raw : List Byte} {s t : ScanState} {n next : ℕ} (hn : EndsIn raw n s.offset)
    (hnext : nextOffset raw s.offset = some next) (hp : Passes raw s next t) :
    ∃ m, n = m + 1 ∧ EndsIn raw m t.offset := by
  cases n with
  | zero =>
    have hnone : nextOffset raw s.offset = none := hn
    rw [hnone] at hnext
    cases hnext
  | succ m =>
    obtain ⟨o', ho', hm⟩ := hn
    rw [hnext] at ho'
    obtain rfl := Option.some.inj ho'
    rw [← hp.offset] at hm
    exact ⟨m, rfl, hm⟩

theorem scanLoop_endsIn {raw : List Byte} (fuel : ℕ) :
    ∀ {s t : ScanState}, scanLoop raw fuel s = some t → ∃ n, EndsIn raw n s.offset := by
  induction fuel with
  | zero => intro s t h; cases h
  | succ fuel ih =>
    intro s t h
    unfold scanLoop at h
    split at h
    · next hin =>
      rcases scanTurn_cases hin with ⟨hnone, _⟩ | ⟨next, hnext, hf | ⟨u, hu, hp⟩⟩
      · exact ⟨0, hnone⟩
      · rw [hf] at h
        cases h
      · rw [hu] at h
        obtain ⟨n, hn⟩ := ih h
        rw [hp.offset] at hn
        exact ⟨n + 1, next, hnext, hn⟩
    · next hin => exact ⟨0, if_neg fun h => hin h.1⟩

/-- The record of the range was met with more than, or at most, `n` headers to come. -/
def MetBefore (raw : List Byte) (n : ℕ) (r : Range) : Prop := ∃ m, n < m ∧ EndsIn raw m (r.dataOff - entrySize)

def MetAfter (raw : List Byte) (n : ℕ) (r : Range) : Prop := ∃ m, m ≤ n ∧ EndsIn raw m (r.dataOff - entrySize)

theorem MetBefore.not_after {raw : List Byte} {n : ℕ} {r : Range} (h : MetBefore raw n r) : ¬ MetAfter raw n r := by
  rintro ⟨m, hm, h2⟩
  obtain ⟨k, hk, h1⟩ := h
  have he := h1.unique h2
  omega

theorem MetBefore.mono {raw : List Byte} {n m : ℕ} {r : Range} (h : MetBefore raw n r) (hm : m ≤ n) :
    MetBefore raw m r := by
  obtain ⟨k, hk, h1⟩ := h
  exact ⟨k, by omega, h1⟩

/-- Once the ranges are forgotten, or a COMMIT is there, only records still to come are left. -/
theorem scanLoop_after {raw : List Byte} (N fuel : ℕ) :
    ∀ {s t : ScanState} {n : ℕ}, EndsIn raw n s.offset → n ≤ N →
      (s.hasCommit = true ∨ ∀ r ∈ s.ranges, MetAfter raw N r) → scanLoop raw fuel s = some t →
      t.incomplete = true → ∀ r ∈ t.ranges, MetAfter raw N r := by
  have hopen : ∀ t : ScanState, t.incomplete = true → t.hasCommit = false := by
    intro t h
    rw [ScanState.incomplete, Bool.and_eq_true, Bool.not_eq_true'] at h
    exact h.2
  induction fuel with
  | zero => intro s t n _ _ _ h; cases h
  | succ fuel ih =>
    intro s t n hn hle hs h ht
    have hend : ∀ o, t = { s with offset := o } → ∀ r ∈ t.ranges, MetAfter raw N r := by
      rintro o rfl
      exact hs.resolve_left (by rw [show s.hasCommit = false from hopen _ ht]; exact Bool.false_ne_true)
    unfold scanLoop at h
    split at h
    · next hin =>
      rcases scanTurn_cases hin with ⟨_, o, hstop⟩ | ⟨next, hnext, hf | ⟨u, hu, hp⟩⟩
      · rw [hstop] at h
        exact hend o (Option.some.inj h).symm
      · rw [hf] at h
        cases h
      · rw [hu] at h
        obtain ⟨m, rfl, hm⟩ := hn.turn hnext hp
        refine ih hm (by omega) ?_ h ht
        cases hp with
        | begin hb => exact Or.inr fun q hq => absurd hq List.not_mem_nil
        | commit hc hb => exact Or.inl rfl
        | other hb hc => exact hs
        | data hd hc =>
          right
          intro r hr
          rcases List.mem_append.mp hr with hr | hr
          · exact hs.resolve_left (by rw [hc]; exact Bool.false_ne_true) r hr
          · rw [List.mem_singleton.mp hr]
            exact ⟨m + 1, hle, by rw [Nat.add_sub_cancel]; exact hn⟩
    · exact hend s.offset (Option.some.inj h).symm

/-- The records collected so far have been met before, also after another turn. -/
theorem metBefore_turn {raw : List Byte} {s t : ScanState} {n : ℕ} (hin : s.offset + entrySize ≤ raw.length)
    (hn : EndsIn raw n s.offset) (hmet : ∀ r ∈ s.ranges, MetBefore raw n r) (h : scanTurn raw s = .more t) :
    ∃ m, n = m + 1 ∧ EndsIn raw m t.offset ∧ ∀ r ∈ t.ranges, MetBefore raw m r := by
  rcases scanTurn_cases hin with ⟨_, o, hstop⟩ | ⟨next, hnext, hf | ⟨u, hu, hp⟩⟩
  · rw [hstop] at h
    cases h
  · rw [hf] at h
    cases h
  rw [hu] at h
  obtain rfl := Turn.more.inj h
  obtain ⟨m, rfl, hm⟩ := hn.turn hnext hp
  have hold : ∀ r ∈ s.ranges, MetBefore raw m r := fun r hr => (hmet r hr).mono (Nat.le_succ m)
  refine ⟨m, rfl, hm, ?_⟩
  cases hp with
  | begin hb => exact nofun
  | commit hc hb => exact hold
  | other hb hc => exact hold
  | data hd hc =>
    intro r hr
    rcases List.mem_append.mp hr with hr | hr
    · exact hold r hr
    · rw [List.mem_singleton.mp hr]
      exact ⟨m + 1, Nat.lt_succ_self m, by rw [Nat.add_sub_cancel]; exact hn⟩

/-! ### Behind the old end -/

/-- From the first header on that is not wholly in the first `old` bytes, the loop meets no
intact BEGIN and no intact COMMIT. -/
def quietLoop (raw : List Byte) (old : ℕ) : ℕ → Bool → ScanState → Bool
  | 0, _, _ => true
  | fuel + 1, past, s =>
    if s.offset + entrySize ≤ raw.length then
      let past := past || decide (old < s.offset + entrySize)
      match scanTurn raw s with
      | .more t =>
        let type := (readEntry raw s.offset).entryType
        !(past && (type == jtBegin || type == jtCommit)) && quietLoop raw old fuel past t
      | _ => true
    else true

def quiet (raw : List Byte) (old : ℕ) : Bool := quietLoop raw old (raw.length + 1) false .start

/-- Behind the old end, a record collected before is there at the end of the scan exactly if
no BEGIN and no COMMIT comes. -/
theorem scanLoop_quiet {raw : List Byte} {old : ℕ} {r : Range} (fuel : ℕ) :
    ∀ {s t : ScanState} {past : Bool} {n : ℕ}, EndsIn raw n s.offset → s.incomplete = true →
      (past = true ∨ old < s.offset + entrySize) → r ∈ s.ranges → MetBefore raw n r →
      scanLoop raw fuel s = some t →
      ((t.incomplete = true ∧ r ∈ t.ranges) ↔ quietLoop raw old fuel past s = true) := by
  induction fuel with
  | zero => intro s t past n _ _ _ _ _ h; cases h
  | succ fuel ih =>
    intro s t past n hn hinc hpast hr hmet h
    have hpast' : (past || decide (old < s.offset + entrySize)) = true := by
      rw [Bool.or_eq_true, decide_eq_true_eq]
      exact hpast
    unfold scanLoop at h
    unfold quietLoop
    split at h
    swap
    · next hout =>
      obtain rfl := Option.some.inj h
      rw [if_neg hout]
      exact ⟨fun _ => rfl, fun _ => ⟨hinc, hr⟩⟩
    next hin =>
    rw [if_pos hin]
    rcases scanTurn_cases hin with ⟨_, o, hstop⟩ | ⟨next, hnext, hf | ⟨u, hu, hp⟩⟩
    · rw [hstop] at h
      obtain rfl := Option.some.inj h
      rw [hstop]
      exact ⟨fun _ => rfl, fun _ => ⟨hinc, hr⟩⟩
    · rw [hf] at h
      cases h
    rw [hu] at h
    rw [hu]
    simp only [hpast', Bool.true_and]
    obtain ⟨m, rfl, hm⟩ := hn.turn hnext hp
    -- after a BEGIN or a COMMIT only records still to come can be left
    have hlost : (u.hasCommit = true ∨ u.ranges = []) → ¬ (t.incomplete = true ∧ r ∈ t.ranges) := by
      rintro hu' ⟨ht, hrt⟩
      refine (hmet.mono (Nat.le_succ m)).not_after (scanLoop_after m fuel hm (Nat.le_refl m) ?_ h ht r hrt)
      rcases hu' with hu' | hu'
      · exact Or.inl hu'
      · right
        rw [hu']
        exact fun q hq => absurd hq List.not_mem_nil
    cases hp with
    | begin hb =>
      rw [hb]
      exact ⟨fun hc => absurd hc (hlost (Or.inr rfl)), fun hc => absurd hc Bool.false_ne_true⟩
    | commit hc hb =>
      rw [hc]
      exact ⟨fun hc => absurd hc (hlost (Or.inl rfl)), fun hc => absurd hc Bool.false_ne_true⟩
    | data hd hc =>
      rw [hd]
      exact ih hm hinc (Or.inl rfl) (List.mem_append_left _ hr) (hmet.mono (Nat.le_succ m)) h
    | other hb hc =>
      have hbegin : s.hasBegin = true := ((Bool.and_eq_true _ _).mp hinc).1
      have hnc : (readEntry raw s.offset).entryType ≠ jtCommit := fun he => by
        rw [hc he] at hbegin
        cases hbegin
      rw [beq_eq_false_iff_ne.mpr hb, beq_eq_false_iff_ne.mpr hnc]
      exact ih hm hinc (Or.inl rfl) hr (hmet.mono (Nat.le_succ m)) h

/-! ### Up to the old end -/

section Grown
variable {file : List Byte} (app : List Byte)

theorem readEntry_append {o : ℕ} (h : o + entrySize ≤ file.length) : readEntry (file ++ app) o = readEntry file o := by
  have he : entrySize = 48 := rfl
  unfold readEntry
  rw [slice_append_left file app (by omega), slice_append_left file app (by omega), slice_append_left file app (by omega),
    slice_append_left file app (by omega), slice_append_left file app (by omega), slice_append_left file app (by omega),
    slice_append_left file app (by omega), slice_append_left file app (by omega), slice_append_left file app (by omega)]

theorem payloadOf_pos {je : JournalEntry} (h : payloadOf je ≠ 0) : je.entryType = jtData ∧ je.version ≥ 2 := by
  unfold payloadOf at h
  split at h
  · next hd => exact ⟨hd.2, hd.1⟩
  · exact absurd rfl h

/-- One turn on the file and on the grown file: both stop, both go on alike, or the payload of
the record goes beyond the end of the file. -/
theorem scanTurn_grown {s : ScanState} (hin : s.offset + entrySize ≤ file.length) (hsize : file.length ≤ maxJournal)
    (ht : scanTurn file s ≠ .fault) (ht' : scanTurn (file ++ app) s ≠ .fault) :
    (∃ o o', scanTurn file s = .stop { s with offset := o } ∧ scanTurn (file ++ app) s = .stop { s with offset := o' }) ∨
      (∃ t, scanTurn file s = .more t ∧ scanTurn (file ++ app) s = .more t) ∨
      (scanTurn file s = .more { s with offset := file.length } ∧
        ∃ t, scanTurn (file ++ app) s = .more t ∧ file.length ≤ t.offset ∧ t.hasBegin = s.hasBegin ∧
          t.hasCommit = s.hasCommit ∧ ∀ r ∈ s.ranges, r ∈ t.ranges) := by
  have he : entrySize = 48 := rfl
  have hmax : maxJournal = 67108864 := rfl
  have hje := readEntry_append app hin
  have hcs : slice (file ++ app) s.offset checkedSize = slice file s.offset checkedSize :=
    slice_append_left file app (by rw [show checkedSize = 44 from rfl]; omega)
  have hlen : (file ++ app).length = file.length + app.length := List.length_append
  unfold scanTurn at ht ht' ⊢
  simp only [hje, hcs] at ht ht' ⊢
  generalize hentry : readEntry file s.offset = je at ht ht' ⊢
  by_cases hm : je.magic ≠ journalMagic
  · rw [if_pos hm, if_pos hm]
    exact Or.inl ⟨_, _, rfl, rfl⟩
  rw [if_neg hm] at ht ht' ⊢
  rw [if_neg hm]
  by_cases hcrc : (crc32 (slice file s.offset checkedSize)).toNat ≠ je.checksum
  · rw [if_pos hcrc, if_pos hcrc]
    exact Or.inl ⟨_, _, rfl, rfl⟩
  rw [if_neg hcrc] at ht ht' ⊢
  rw [if_neg hcrc]
  right
  by_cases hx : u32 (s.offset + entrySize + payloadOf je) ≤ file.length
  · -- the payload ends in the file
    left
    have hadv : advance file (s.offset + entrySize) (payloadOf je) = u32 (s.offset + entrySize + payloadOf je) :=
      if_neg (by omega)
    have hadv' : advance (file ++ app) (s.offset + entrySize) (payloadOf je) =
        u32 (s.offset + entrySize + payloadOf je) := if_neg (by omega)
    have hx' : u32 (s.offset + entrySize + payloadOf je) ≤ (file ++ app).length := by omega
    simp only [hadv, hadv', hx, hx', and_true] at ht ht' ⊢
    by_cases hb : je.entryType = jtBegin
    · rw [if_pos hb, if_pos hb]
      exact ⟨_, rfl, rfl⟩
    rw [if_neg hb] at ht ⊢
    rw [if_neg hb]
    by_cases hd : je.entryType = jtData ∧ s.hasBegin = true ∧ s.hasCommit = false
    · rw [if_pos hd] at ht ⊢
      rw [if_pos hd]
      by_cases hroom : je.version ≥ 2 ∧ s.ranges.length < maxRanges
      · rw [if_pos hroom] at ht ⊢
        rw [if_pos hroom]
        have hend : ¬ file.length < s.offset + entrySize + payloadOf je := fun hf => ht (if_pos hf)
        have hend' : ¬ (file ++ app).length < s.offset + entrySize + payloadOf je := by omega
        rw [if_neg hend, if_neg hend', slice_append_left file app (by omega)]
        split
        · exact ⟨_, rfl, rfl⟩
        · exact ⟨_, rfl, rfl⟩
      · rw [if_neg hroom, if_neg hroom]
        exact ⟨_, rfl, rfl⟩
    · rw [if_neg hd, if_neg hd]
      split
      · exact ⟨_, rfl, rfl⟩
      · exact ⟨_, rfl, rfl⟩
  · -- it goes beyond, so this is a DATA record
    right
    have hpay : payloadOf je ≠ 0 := fun hz => hx (by rw [hz, Nat.add_zero, u32_of_lt (by omega)]; exact hin)
    obtain ⟨hdata, hver⟩ := payloadOf_pos hpay
    have hb : je.entryType ≠ jtBegin := by rw [hdata]; decide
    have hc : je.entryType ≠ jtCommit := by rw [hdata]; decide
    have hadv : advance file (s.offset + entrySize) (payloadOf je) = file.length := if_pos (by omega)
    have hadv' : file.length ≤ advance (file ++ app) (s.offset + entrySize) (payloadOf je) := by
      unfold advance
      split <;> omega
    generalize advance (file ++ app) (s.offset + entrySize) (payloadOf je) = next at ht' hadv' ⊢
    rw [if_neg hb] at ht' ⊢
    rw [if_neg hb, hadv]
    constructor
    · split
      · exact if_neg fun h => hx h.2.2
      · exact if_neg fun h => hc h.1
    · by_cases hd : je.entryType = jtData ∧ s.hasBegin = true ∧ s.hasCommit = false
      · rw [if_pos hd] at ht' ⊢
        split
        · split
          · next hroom hf => exact absurd (by rw [if_pos hroom, if_pos hf]) ht'
          split
          · exact ⟨_, rfl, hadv', rfl, rfl, fun r hr => List.mem_append_left _ hr⟩
          · exact ⟨_, rfl, hadv', rfl, rfl, fun r hr => hr⟩
        · exact ⟨_, rfl, hadv', rfl, rfl, fun r hr => hr⟩
      · rw [if_neg hd, if_neg fun h => hc h.1]
        exact ⟨_, rfl, hadv', rfl, rfl, fun r hr => hr⟩

/-- A record the scan of the file had collected is there after the scan of the grown file
exactly if no BEGIN and no COMMIT comes behind the old end. -/
theorem scanLoop_grown (hsize : file.length ≤ maxJournal) (fuel : ℕ) :
    ∀ (fuel' : ℕ) {u s t : ScanState} {n : ℕ}, scanLoop file fuel u = some s → scanLoop (file ++ app) fuel' u = some t →
      EndsIn (file ++ app) n u.offset → (∀ r ∈ u.ranges, MetBefore (file ++ app) n r) → s.incomplete = true →
      ∀ r ∈ s.ranges, (t.incomplete = true ∧ r ∈ t.ranges) ↔
        quietLoop (file ++ app) file.length fuel' false u = true := by
  have hlen : (file ++ app).length = file.length + app.length := List.length_append
  induction fuel with
  | zero => intro fuel' u s t n h; cases h
  | succ fuel ih =>
    intro fuel' u s t n h h' hn hmet hinc r hr
    by_cases hin : u.offset + entrySize ≤ file.length
    swap
    · -- the scan of the file ends here
      have hs : scanLoop file (fuel + 1) u = some u := if_neg hin
      rw [hs] at h
      obtain rfl := Option.some.inj h
      exact scanLoop_quiet fuel' hn hinc (Or.inr (by omega)) hr (hmet r hr) h'
    cases fuel' with
    | zero => cases h'
    | succ fuel' =>
      have hin' : u.offset + entrySize ≤ (file ++ app).length := by omega
      have hpast : (false || decide (file.length < u.offset + entrySize)) = false := by
        rw [Bool.false_or, decide_eq_false (by omega)]
      unfold scanLoop at h h'
      rw [if_pos hin] at h
      rw [if_pos hin'] at h'
      have hf : scanTurn file u ≠ .fault := by
        intro hf
        rw [hf] at h
        cases h
      have hf' : scanTurn (file ++ app) u ≠ .fault := by
        intro hf
        rw [hf] at h'
        cases h'
      unfold quietLoop
      rw [if_pos hin']
      rcases scanTurn_grown app hin hsize hf hf' with ⟨o, o', h1, h2⟩ | ⟨v, h1, h2⟩ | ⟨h1, v, h2, hoff, hb, hc, hsub⟩
      · rw [h1] at h
        rw [h2] at h' ⊢
        obtain rfl := Option.some.inj h
        obtain rfl := Option.some.inj h'
        exact ⟨fun _ => rfl, fun _ => ⟨hinc, hr⟩⟩
      · rw [h1] at h
        rw [h2] at h' ⊢
        simp only [hpast, Bool.false_and, Bool.not_false, Bool.true_and]
        obtain ⟨m, _, hm, hmet'⟩ := metBefore_turn hin' hn hmet h2
        exact ih fuel' h h' hm hmet' hinc r hr
      · rw [h1] at h
        rw [h2] at h' ⊢
        simp only [hpast, Bool.false_and, Bool.not_false, Bool.true_and] at h ⊢
        cases fuel with
        | zero => cases h
        | succ fuel =>
          have hend : scanLoop file (fuel + 1) { u with offset := file.length } = some { u with offset := file.length } :=
            if_neg (by simp only; rw [show entrySize = 48 from rfl]; omega)
          rw [hend] at h
          obtain rfl := Option.some.inj h
          obtain ⟨m, rfl, hm, _⟩ := metBefore_turn hin' hn hmet h2
          refine scanLoop_quiet fuel' hm ?_ (Or.inr ?_) (hsub r hr) ((hmet r hr).mono (Nat.le_succ m)) h'
          · rw [ScanState.incomplete, hb, hc]
            exact hinc
          · rw [show entrySize = 48 from rfl]
            omega

theorem scan_grown (hsize : file.length ≤ maxJournal) {s t : ScanState} (h : scan file = some s)
    (h' : scan (file ++ app) = some t) (hinc : s.incomplete = true) {r : Range} (hr : r ∈ s.ranges) :
    (t.incomplete = true ∧ r ∈ t.ranges) ↔ quiet (file ++ app) file.length = true := by
  obtain ⟨n, hn⟩ := scanLoop_endsIn _ h'
  exact scanLoop_grown app hsize _ _ h h' hn nofun hinc r hr

end Grown

/-! ### What is replayed of a journal -/

/-- The records of the open transaction of a journal file. -/
def openRecords (file : List Byte) : List Range :=
  if file.length < entrySize ∨ file.length > maxJournal then []
  else
    match scan file with
    | none => []
    | some s => if s.incomplete then s.ranges else []

theorem openRanges_records (file : List Byte) : openRanges file = (openRecords file).map (Range.read file) := by
  unfold openRanges openRecords
  split
  · rfl
  cases scan file with
  | none => rfl
  | some s =>
    unfold ScanState.open
    simp only
    split
    · rfl
    · rfl

/-- A recovery keeps a journal only if it is open. -/
theorem recoverJournal_kept {env : RecoverEnv} {v w : StripeVolume} {d e : Disks} {file : List Byte} {empty : Bool}
    (hreads : env.Reads file) (h : recoverJournal env v d file = some (false, w, e, empty)) :
    entrySize ≤ file.length ∧ file.length ≤ maxJournal ∧ ∃ s, scan file = some s ∧ s.incomplete = true := by
  by_cases hsize : file.length < entrySize ∨ file.length > maxJournal
  · unfold recoverJournal at h
    rw [loadJournal_none hsize] at h
    cases h
  simp only [not_or, Nat.not_lt] at hsize
  unfold recoverJournal at h
  rw [loadJournal_reads hreads hsize.1 hsize.2] at h
  simp only at h
  refine ⟨hsize.1, hsize.2, ?_⟩
  split at h
  · cases h
  next s hs =>
  cases hinc : s.incomplete with
  | true => exact ⟨s, hs, hinc⟩
  | false =>
    rw [hinc, if_neg Bool.false_ne_true] at h
    cases h

/-- A recovery that ends has scanned every journal it found. -/
theorem recoverLoop_scans {env : ℕ → RecoverEnv} {letter : DiskId → Letter} (n : ℕ) :
    ∀ (di : ℕ) (allClean : Bool) {v : StripeVolume} {d : Disks} {files : Files} {x : Bool × StripeVolume × Disks × Files},
      RecoverWorks env files → recoverLoop env letter n di allClean v d files = some x →
      ∀ i, di ≤ i → i < di + n → entrySize ≤ (files (letter (v.diskAt i))).length →
        (files (letter (v.diskAt i))).length ≤ maxJournal → ∃ s, scan (files (letter (v.diskAt i))) = some s := by
  induction n with
  | zero => intro di _ v d files x _ _ i h1 h2; omega
  | succ n ih =>
    intro di allClean v d files x hworks h i h1 h2 hmin hmax
    unfold recoverLoop at h
    simp only at h
    cases hj : recoverJournal (env di) v d (files (letter (v.diskAt di))) with
    | none =>
      rw [hj] at h
      cases h
    | some y =>
      obtain ⟨c1, v1, d1, empty⟩ := y
      rw [hj] at h
      simp only at h
      have hsame : SameLayout v v1 := recoverJournal_keeps (P := fun w _ => SameLayout v w)
        (fun _ _ _ _ _ _ _ _ _ hv hw => hv.trans (stripeVolumeWrite_layout hw)) (SameLayout.refl v) hj
      by_cases hl : letter (v.diskAt i) = letter (v.diskAt di)
      · rw [hl] at hmin hmax ⊢
        unfold recoverJournal at hj
        rw [loadJournal_reads (hworks.reads di _) hmin hmax] at hj
        simp only at hj
        split at hj
        · cases hj
        · next s hs => exact ⟨s, hs⟩
      · have hother : (if empty then files.set (letter (v.diskAt di)) [] else files) (letter (v1.diskAt i)) =
            files (letter (v.diskAt i)) := by
          rw [hsame.diskAt]
          split
          · exact Files.set_other files [] hl
          · rfl
        have hnext : RecoverWorks env (if empty then files.set (letter (v.diskAt di)) [] else files) := by
          split
          · exact hworks.set _
          · exact hworks
        have hlater := ih (di + 1) _ hnext h i (by
          rcases Nat.lt_or_eq_of_le h1 with hlt | rfl
          · exact hlt
          · exact absurd rfl hl) (by omega)
        rw [hother] at hlater
        exact hlater hmin hmax

/-! ### Later flush cycles -/

/-- A flush cycle, with the volume and the disks it finds. -/
structure FlushCycle where
  env : FlushEnv
  v : StripeVolume
  d : Disks

def FlushCycle.pieces (letter : DiskId → Letter) (c : FlushCycle) : List Piece :=
  (journalledFlush c.env letter c.v c.d).pieces

/-- Later durable writes cover every byte of the record. -/
def Superseded (durable : List (ℕ × List Byte)) (r : Range) : Prop :=
  ∀ x, r.off ≤ x → x < r.off + r.len → ∃ w ∈ durable, w.1 ≤ x ∧ x < w.1 + w.2.length

/-- An open transaction of one byte in the journal of drive 0. -/
def keptRecs : Letter → List Rec
  | 0 => [.begin 0 0, .data 0 0 0 [1]]
  | _ => []

/-- No event can be created for a write. -/
def noEvent : RecoverEnv := ⟨true, true, true, some maxJournal, fun _ => { IoEnv.good with event := false }, true⟩

/-- A flush cycle without anything to flush. -/
def idleCycle : FlushCycle := ⟨gapEnv, pairCached, pairDisks⟩

theorem noEvent_write (buffer : Buf) :
    stripeVolumeWrite { IoEnv.good with event := false } pairVolume pairDisks buffer 0 1 =
      some (false, addWritten pairVolume false 1, pairDisks) := by
  have hmap : mapLba pairVolume 0 1 = some [⟨0, 0, 1⟩] := by decide +kernel
  have hc : ¬ (pairVolume.cacheEnabled = true ∧ pairVolume.cacheFlushInProgress = false ∧
      0 + 1 ≤ pairVolume.cache.cacheSizeBytes) := by decide
  rw [stripeVolumeWrite_eq pairVolume_ready rfl _ _ _ (by decide) (by decide +kernel), if_neg hc, writeDirect, hmap]
  simp only
  rw [submitEntries_eq pairVolume_ready (List.cons_ne_nil _ _) (by decide) (by decide +kernel)]
  rfl

theorem keptRecs_kept : ∃ w e, recoverJournal noEvent pairVolume pairDisks (images (keptRecs 0)) = some (false, w, e, false) := by
  have hfits : ∀ r ∈ keptRecs 0, r.Fits := by simp [keptRecs, Rec.Fits, maxFlushSize]
  have hsize : (images (keptRecs 0)).length ≤ maxJournal := by decide +kernel
  obtain ⟨s, r, hs, hinc, hr, hpos, hoff, hlen⟩ := scan_one hfits hsize (by decide +kernel)
    (show (txnOf (keptRecs 0)).kept = [(0, [1])] by decide +kernel)
  have hreads : noEvent.Reads (images (keptRecs 0)) := ⟨rfl, rfl, rfl, maxJournal, rfl, hsize⟩
  have hload := loadJournal_reads hreads (by decide +kernel) hsize
  have hwrite := noEvent_write (bufAt (images (keptRecs 0)) r.dataOff)
  have hlen' : r.len = 1 := hlen
  refine ⟨addWritten pairVolume false 1, pairDisks, ?_⟩
  unfold recoverJournal
  rw [hload]
  simp only [hs, hinc, if_true, hr, replayLoop]
  rw [if_neg (by omega), hoff, hlen']
  simp only [noEvent, hwrite]
  rfl

/-- What the journals hold after the idle cycle. -/
def idleRecs (l : Letter) : List Rec := keptRecs l ++ if l = 0 ∨ l = 1 then [.begin 0 0] else []

theorem idleCycle_files : ([idleCycle].flatMap (FlushCycle.pieces id)).foldl Files.add (rowFiles keptRecs) = rowFiles idleRecs := by
  have hc : Cycled gapEnv id pairCached (journalledFlush gapEnv id pairCached pairDisks) :=
    journalledFlush_spec gapEnv id pairDisks pairCached_ok.cache rfl
  have hnone : batches pairCached = [] := by decide +kernel
  have hopening : (journalWriteEntry id pairCached (.begin gapEnv.generation gapEnv.begin.time) gapEnv.begin.answer).2 =
      [⟨0, .begin 0 0, .done⟩, ⟨1, .begin 0 0, .done⟩] := rfl
  have hpieces : [idleCycle].flatMap (FlushCycle.pieces id) = [⟨0, .begin 0 0, .done⟩, ⟨1, .begin 0 0, .done⟩] := by
    have h := hc.pieces
    rw [hnone, hopening] at h
    rw [List.flatMap_singleton, FlushCycle.pieces, idleCycle]
    simpa using h
  rw [hpieces]
  funext l
  rw [foldl_add]
  have hdone : ∀ k, Piece.bytes ⟨k, .begin 0 0, .done⟩ = images [.begin 0 0] := fun k => (List.append_nil _).symm
  simp only [rowFiles, idleRecs, images_append, appended, hdone]
  rcases l with _ | _ | l
  · rfl
  · rfl
  · rfl

theorem idleRecs_ok : (∀ l, ∀ r ∈ idleRecs l, r.Fits) ∧ (∀ l, (images (idleRecs l)).length ≤ maxJournal) ∧
    ∀ l, openOf (idleRecs l) = [] := by
  refine ⟨fun l => ?_, fun l => ?_, fun l => ?_⟩
  · match l with
    | 0 => simp [idleRecs, keptRecs, Rec.Fits, maxFlushSize]
    | 1 => simp [idleRecs, keptRecs, Rec.Fits]
    | _ + 2 => simp [idleRecs, keptRecs]
  · match l with
    | 0 => decide +kernel
    | 1 => decide +kernel
    | _ + 2 => exact Nat.zero_le _
  · match l with
    | 0 => decide +kernel
    | 1 => decide +kernel
    | _ + 2 => rfl

end RaidTest.Journal
