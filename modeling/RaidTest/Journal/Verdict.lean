import RaidTest.Journal.Capacity

/-!
# The verdict of a recovery

`journal_recover_all` answers `true` when no journal it has scanned was open. A journal that
it does not scan, because it cannot be read or is longer than 64 MB, counts as clean.
-/

namespace RaidTest.Journal
open RaidTest.Base RaidTest.Stripe RaidTest.Mirror RaidTest.Cache

/-! ### What the headers say -/

/-- The headers lead to an intact BEGIN, and to no intact COMMIT behind it. -/
def HeadersOpen (raw : List Byte) : Prop :=
  ∃ o, Frame raw o ∧ Intact raw o ∧ (readEntry raw o).entryType = jtBegin ∧
    ∀ o', Frame raw o' → o < o' → Intact raw o' → (readEntry raw o').entryType ≠ jtCommit

/-- The same of the headers before `x`. -/
def OpenBefore (raw : List Byte) (x : ℕ) : Prop :=
  ∃ o < x, Frame raw o ∧ Intact raw o ∧ (readEntry raw o).entryType = jtBegin ∧
    ∀ o', Frame raw o' → o < o' → o' < x → Intact raw o' → (readEntry raw o').entryType ≠ jtCommit

/-- One header more. -/
theorem OpenBefore.next {raw : List Byte} {a : ℕ} (ha : Frame raw a) (hi : Intact raw a) :
    OpenBefore raw (min (a + entrySize + payloadOf (readEntry raw a)) raw.length) ↔
      (readEntry raw a).entryType = jtBegin ∨ OpenBefore raw a ∧ (readEntry raw a).entryType ≠ jtCommit := by
  have hin := hi.1
  have he : entrySize = 48 := rfl
  -- the headers before the next one are `a` and those before `a`
  have hlast : ∀ o, Frame raw o → o < min (a + entrySize + payloadOf (readEntry raw a)) raw.length → o < a ∨ o = a := by
    intro o ho hlt
    by_contra hnot
    have hle := (ha.step ho (by omega)).2
    omega
  constructor
  · rintro ⟨o, hlt, ho, hio, hb, hno⟩
    rcases hlast o ho hlt with hoa | rfl
    · exact Or.inr ⟨⟨o, hoa, ho, hio, hb, fun o' h1 h2 h3 => hno o' h1 h2 (by omega)⟩, hno a ha hoa (by omega) hi⟩
    · exact Or.inl hb
  · rintro (hb | ⟨⟨o, hoa, ho, hio, hb, hno⟩, hc⟩)
    · refine ⟨a, by omega, ha, hi, hb, fun o' h1 h2 h3 => ?_⟩
      rcases hlast o' h1 h3 with h | h <;> omega
    · refine ⟨o, by omega, ho, hio, hb, fun o' h1 h2 h3 hi' => ?_⟩
      rcases hlast o' h1 h3 with h | rfl
      · exact hno o' h1 h2 h hi'
      · exact hc

/-- Behind the last header there is nothing. -/
theorem openBefore_last {raw : List Byte} {a : ℕ} (ha : Frame raw a) (hi : ¬ Intact raw a) :
    OpenBefore raw a ↔ HeadersOpen raw := by
  have hlast : ∀ o, Frame raw o → Intact raw o → o < a := by
    intro o ho hio
    rcases Nat.lt_trichotomy o a with h | rfl | h
    · exact h
    · exact absurd hio hi
    · exact absurd (ha.step ho h).1 hi
  constructor
  · rintro ⟨o, _, ho, hio, hb, hno⟩
    exact ⟨o, ho, hio, hb, fun o' h1 h2 h3 => hno o' h1 h2 (hlast o' h1 h3) h3⟩
  · rintro ⟨o, ho, hio, hb, hno⟩
    exact ⟨o, hlast o ho hio, ho, hio, hb, fun o' h1 h2 _ h3 => hno o' h1 h2 h3⟩

section Narrow
variable {raw : List Byte} (hn : Narrow raw)
include hn

/-- The flags of the scan say what the headers it has passed say. -/
theorem Visited.open {s : ScanState} (hs : Visited raw s) : s.incomplete = true ↔ OpenBefore raw s.offset := by
  induction hs with
  | start =>
    refine ⟨fun h => absurd h (by decide), ?_⟩
    rintro ⟨o, hlt, _⟩
    exact absurd hlt (Nat.not_lt_zero o)
  | @turn s t hs hin ht ih =>
    have hframe := hs.frame hn
    rcases scanTurn_cases hin with ⟨_, o, hstop⟩ | ⟨next, hnext, hf | ⟨t', ht', hp⟩⟩
    · rw [hstop] at ht
      cases ht
    · rw [hf] at ht
      cases ht
    rw [ht'] at ht
    obtain rfl := Turn.more.inj ht
    rw [nextOffset_eq] at hnext
    split at hnext
    swap
    · cases hnext
    next hi =>
    have hoff : t'.offset = min (s.offset + entrySize + payloadOf (readEntry raw s.offset)) raw.length := by
      rw [hp.offset, ← Option.some.inj hnext, advance_exact (hn s.offset hframe hi)]
    rw [hoff, OpenBefore.next hframe hi, ← ih]
    cases hp with
    | begin hb => exact ⟨fun _ => Or.inl hb, fun _ => rfl⟩
    | commit hc hb =>
      rw [hc, ScanState.incomplete, Bool.not_true, Bool.and_false]
      exact ⟨fun h => absurd h Bool.false_ne_true, fun h => h.elim (fun h => absurd h (by decide)) fun h => absurd rfl h.2⟩
    | data hd hc =>
      rw [hd]
      exact ⟨fun h => Or.inr ⟨h, by decide⟩, fun h => h.elim (fun h => absurd h (by decide)) And.left⟩
    | other hb hc =>
      refine ⟨fun h => Or.inr ⟨h, fun he => ?_⟩, fun h => h.elim (fun h => absurd h hb) And.left⟩
      have hbegin : s.hasBegin = true := ((Bool.and_eq_true _ _).mp h).1
      rw [hc he] at hbegin
      cases hbegin

theorem scanLoop_last (fuel : ℕ) : ∀ {s t : ScanState}, Visited raw s → scanLoop raw fuel s = some t →
    ∃ u, Visited raw u ∧ ¬ Intact raw u.offset ∧ t.incomplete = u.incomplete := by
  induction fuel with
  | zero => intro s t _ h; cases h
  | succ fuel ih =>
    intro s t hs h
    unfold scanLoop at h
    split at h
    · next hin =>
      rcases scanTurn_next hin ((hs.frame hn).turn hn hin).1 with ⟨hnot, o, _, hstop⟩ | ⟨_, u, hu, _⟩
      · rw [hstop] at h
        obtain rfl := Option.some.inj h
        exact ⟨s, hs, hnot, rfl⟩
      · rw [hu] at h
        exact ih (hs.turn hin hu) h
    · next hout =>
      obtain rfl := Option.some.inj h
      exact ⟨s, hs, fun hi => hout hi.1, rfl⟩

/-- The scan of a file finds a transaction open exactly if its headers do. -/
theorem scan_open : ∃ s, scan raw = some s ∧ (s.incomplete = true ↔ HeadersOpen raw) := by
  have he : entrySize = 48 := rfl
  obtain ⟨s, hs⟩ := scanLoop_ends hn raw.length (s := .start) .first (by omega)
  obtain ⟨u, hu, hlast, hinc⟩ := scanLoop_last hn _ .start hs
  exact ⟨s, hs, by rw [hinc, hu.open hn, openBefore_last (hu.frame hn) hlast]⟩

end Narrow

/-! ### The loop over the members -/

/-- The scan of the file ends and finds nothing open. -/
def ScanClean (file : List Byte) : Prop := ∃ s, scan file = some s ∧ s.incomplete = false

/-- The journal is loaded: it can be, and its length is that of a header at least and 64 MB at most. -/
def Scanned (env : RecoverEnv) (file : List Byte) : Prop :=
  env.Loads ∧ entrySize ≤ file.length ∧ file.length ≤ maxJournal

/-- A read of the file that does not fail returns all of it. -/
def RecoverEnv.Whole (env : RecoverEnv) (file : List Byte) : Prop :=
  file.length ≤ maxJournal → ∀ n, env.read = some n → file.length ≤ n

theorem loadJournal_scanned {env : RecoverEnv} {file : List Byte} (h : env.Whole file) :
    (Scanned env file → loadJournal env file = some file) ∧ (¬ Scanned env file → loadJournal env file = none) := by
  by_cases hsize : file.length < entrySize ∨ file.length > maxJournal
  · refine ⟨fun hs => ?_, fun _ => loadJournal_none hsize⟩
    have h1 := hs.2.1
    have h2 := hs.2.2
    omega
  · simp only [not_or, Nat.not_lt] at hsize
    obtain ⟨h1, h2⟩ := loadJournal_loads (h hsize.2) hsize.1 hsize.2
    exact ⟨fun hs => h1 hs.1, fun hs => h2 fun hl => hs ⟨hl, hsize⟩⟩

/-- The turn of one member answers clean exactly if its journal is not scanned, or clean. -/
theorem recoverJournal_clean {env : RecoverEnv} {v : StripeVolume} {d : Disks} {file : List Byte} (h : env.Whole file) :
    (∀ {w e empty}, recoverJournal env v d file = some (true, w, e, empty) →
      w = v ∧ e = d ∧ (Scanned env file → ScanClean file) ∧ (empty = true → ScanClean file)) ∧
    ((Scanned env file → ScanClean file) → ∃ empty, recoverJournal env v d file = some (true, v, d, empty)) := by
  obtain ⟨hload, hskip⟩ := loadJournal_scanned h
  by_cases hs : Scanned env file
  swap
  · have hrun : recoverJournal env v d file = some (true, v, d, false) := by
      unfold recoverJournal
      rw [hskip hs]
    refine ⟨fun {w e empty} hr => ?_, fun _ => ⟨false, hrun⟩⟩
    rw [hrun] at hr
    simp only [Option.some.injEq, Prod.mk.injEq, true_and] at hr
    obtain ⟨rfl, rfl, rfl⟩ := hr
    exact ⟨rfl, rfl, fun h => absurd h hs, nofun⟩
  cases hscan : scan file with
  | none =>
    have hrun : recoverJournal env v d file = none := by
      unfold recoverJournal
      rw [hload hs]
      simp only [hscan]
    refine ⟨fun hr => ?_, fun hc => ?_⟩
    · rw [hrun] at hr
      cases hr
    · obtain ⟨s, hs', _⟩ := hc hs
      rw [hscan] at hs'
      cases hs'
  | some s =>
    cases hinc : s.incomplete with
    | true =>
      have hrun : recoverJournal env v d file =
          (replayLoop env.io file s.ranges 0 0 v d).map fun r => (false, r.2.1, r.2.2, r.1 == 0 && env.empties) := by
        unfold recoverJournal
        rw [hload hs]
        simp only [hscan, hinc, if_true]
        cases replayLoop env.io file s.ranges 0 0 v d <;> rfl
      refine ⟨fun {w e empty} hr => ?_, fun hc => ?_⟩
      · rw [hrun] at hr
        obtain ⟨r, _, he⟩ := Option.map_eq_some_iff.mp hr
        cases he
      · obtain ⟨s', hs', hclean⟩ := hc hs
        rw [hscan] at hs'
        obtain rfl := Option.some.inj hs'
        rw [hinc] at hclean
        cases hclean
    | false =>
      have hrun : recoverJournal env v d file = some (true, v, d, env.empties) := by
        unfold recoverJournal
        rw [hload hs]
        simp only [hscan, hinc, Bool.false_eq_true, if_false]
      refine ⟨fun {w e empty} hr => ?_, fun _ => ⟨_, hrun⟩⟩
      rw [hrun] at hr
      simp only [Option.some.injEq, Prod.mk.injEq, true_and] at hr
      obtain ⟨rfl, rfl, _⟩ := hr
      exact ⟨rfl, rfl, fun _ => ⟨s, hscan, hinc⟩, fun _ => ⟨s, hscan, hinc⟩⟩

theorem recoverLoop_false {env : ℕ → RecoverEnv} {letter : DiskId → Letter} (n : ℕ) : ∀ {di : ℕ} {v w : StripeVolume}
    {d e : Disks} {now files' : Files}, recoverLoop env letter n di false v d now ≠ some (true, w, e, files') := by
  induction n with
  | zero => intro di v w d e now files' h; cases h
  | succ n ih =>
    intro di v w d e now files' h
    unfold recoverLoop at h
    simp only at h
    split at h
    · cases h
    · exact ih h

section Members
variable {env : ℕ → RecoverEnv} {letter : DiskId → Letter} {v : StripeVolume} {d : Disks} {files : Files}
  (hwhole : ∀ i l, (env i).Whole (files l))
include hwhole

theorem whole_now {now : Files} (hnow : ∀ l, now l = files l ∨ now l = []) (i : ℕ) (l : Letter) : (env i).Whole (now l) := by
  rcases hnow l with h | h
  · rw [h]
    exact hwhole i l
  · rw [h]
    exact fun _ n _ => Nat.zero_le n

omit hwhole in
theorem set_now {now : Files} (hnow : ∀ l, now l = files l ∨ now l = []) (empty : Bool) (k : Letter) :
    ∀ l, (if empty then now.set k [] else now) l = files l ∨ (if empty then now.set k [] else now) l = [] := by
  intro l
  cases empty with
  | false => exact hnow l
  | true =>
    by_cases hl : l = k
    · rw [hl]
      exact Or.inr (Files.set_same ..)
    · rw [if_pos rfl, Files.set_other _ _ hl]
      exact hnow l

/-- After a verdict `true` every journal that was scanned is clean; `now` are the journals as
the earlier members have left them. -/
theorem recoverLoop_true (n : ℕ) : ∀ {di : ℕ} {allClean : Bool} {w : StripeVolume} {e : Disks} {now files' : Files},
    (∀ l, now l = files l ∨ now l = [] ∧ ScanClean (files l)) →
    recoverLoop env letter n di allClean v d now = some (true, w, e, files') →
    allClean = true ∧ ∀ i, di ≤ i → i < di + n → Scanned (env i) (files (letter (v.diskAt i))) →
      ScanClean (files (letter (v.diskAt i))) := by
  induction n with
  | zero =>
    intro di allClean w e now files' _ h
    simp only [recoverLoop, Option.some.injEq, Prod.mk.injEq] at h
    exact ⟨h.1, fun i h1 h2 => by omega⟩
  | succ n ih =>
    intro di allClean w e now files' hnow h
    have hnow' : ∀ l, now l = files l ∨ now l = [] := fun l => (hnow l).imp_right And.left
    unfold recoverLoop at h
    simp only at h
    split at h
    · cases h
    next clean v1 d1 empty hj =>
    obtain ⟨hclean, _⟩ := recoverJournal_clean (v := v) (d := d) (whole_now hwhole hnow' di (letter (v.diskAt di)))
    have htrue : clean = true := by
      by_contra hfalse
      rw [Bool.not_eq_true] at hfalse
      rw [hfalse, Bool.and_false] at h
      exact recoverLoop_false n h
    subst htrue
    obtain ⟨rfl, rfl, hscanned, hempty⟩ := hclean hj
    have hset : ∀ l, (if empty then now.set (letter (v1.diskAt di)) [] else now) l = files l ∨
        (if empty then now.set (letter (v1.diskAt di)) [] else now) l = [] ∧ ScanClean (files l) := by
      intro l
      cases empty with
      | false => exact hnow l
      | true =>
        by_cases hl : l = letter (v1.diskAt di)
        · rw [hl, if_pos rfl, Files.set_same]
          rcases hnow (letter (v1.diskAt di)) with hk | hk
          · exact Or.inr ⟨rfl, by rw [← hk]; exact hempty rfl⟩
          · exact Or.inr ⟨rfl, hk.2⟩
        · rw [if_pos rfl, Files.set_other _ _ hl]
          exact hnow l
    obtain ⟨hall, hrest⟩ := ih hset h
    rw [Bool.and_true] at hall
    refine ⟨hall, fun i h1 h2 hs => ?_⟩
    rcases Nat.eq_or_lt_of_le h1 with rfl | hlt
    · rcases hnow (letter (v1.diskAt di)) with hk | hk
      · rw [hk] at hscanned
        exact hscanned hs
      · exact hk.2
    · exact hrest i hlt (by omega) hs

/-- If every journal that is scanned is clean, the recovery writes nothing and keeps its verdict. -/
theorem recoverLoop_clean (hclean : ∀ i, Scanned (env i) (files (letter (v.diskAt i))) → i < v.diskCount →
      ScanClean (files (letter (v.diskAt i)))) (n : ℕ) :
    ∀ {di : ℕ} (allClean : Bool) {now : Files}, (∀ l, now l = files l ∨ now l = []) → di + n ≤ v.diskCount →
      ∃ files', recoverLoop env letter n di allClean v d now = some (allClean, v, d, files') := by
  induction n with
  | zero =>
    intro di allClean now _ _
    exact ⟨now, rfl⟩
  | succ n ih =>
    intro di allClean now hnow hle
    have hone : Scanned (env di) (now (letter (v.diskAt di))) → ScanClean (now (letter (v.diskAt di))) := by
      intro hs
      rcases hnow (letter (v.diskAt di)) with hk | hk
      · rw [hk] at hs ⊢
        exact hclean di hs (by omega)
      · rw [hk] at hs
        exact absurd hs.2.1 (by decide)
    obtain ⟨empty, hj⟩ := (recoverJournal_clean (v := v) (d := d) (whole_now hwhole hnow di (letter (v.diskAt di)))).2 hone
    obtain ⟨files', hrest⟩ := ih allClean (set_now hnow empty (letter (v.diskAt di)))
      (show di + 1 + n ≤ v.diskCount by omega)
    refine ⟨files', ?_⟩
    unfold recoverLoop
    simp only [hj, Bool.and_true]
    exact hrest

end Members

/-! ### Journals of flush cycles -/

/-- The appends to the journal of drive `l` have put a whole BEGIN there, behind it a whole DATA
record, and no whole COMMIT. -/
def LeavesOpen (l : Letter) (pieces : List Piece) : Prop :=
  ∃ a p b q c, pieces = a ++ p :: (b ++ q :: c) ∧ p.letter = l ∧ p.whole = true ∧ p.entry.isBegin = true ∧
    q.letter = l ∧ q.whole = true ∧ q.entry.range ≠ none ∧
    ∀ x ∈ b ++ c, x.letter = l → x.whole = true → x.entry.isCommit = false

/-- The journals that flush cycles leave on empty files. -/
def cycleFiles (letter : DiskId → Letter) (cycles : List FlushCycle) : Files :=
  (cycles.flatMap (FlushCycle.pieces letter)).foldl Files.add fun _ => []

/-- If recovery answers `true`, no member's journal was left open. -/
def VerdictSound (env : ℕ → RecoverEnv) (letter : DiskId → Letter) (v : StripeVolume) (d : Disks)
    (cycles : List FlushCycle) : Prop :=
  ∀ w e files', journalRecoverAll env letter v d (cycleFiles letter cycles) = some (true, w, e, files') →
    ∀ i < v.diskCount, ¬ LeavesOpen (letter (v.diskAt i)) (cycles.flatMap (FlushCycle.pieces letter))

/-- No member's journal is left open, or one is scanned and has headers that are open. -/
def NoneHidden (env : ℕ → RecoverEnv) (letter : DiskId → Letter) (v : StripeVolume) (cycles : List FlushCycle) : Prop :=
  (∀ i < v.diskCount, ¬ LeavesOpen (letter (v.diskAt i)) (cycles.flatMap (FlushCycle.pieces letter))) ∨
    ∃ i < v.diskCount, ∃ file, file = cycleFiles letter cycles (letter (v.diskAt i)) ∧ Scanned (env i) file ∧
      Narrow file ∧ HeadersOpen file

/-- No sum of a header wraps in whole records with a torn one behind them. -/
theorem narrow_row {raw tail : List Byte} (ht : CutShort tail) (hsize : raw.length ≤ maxJournal) (recs : List Rec) :
    ∀ {pre : List Byte}, (∀ r ∈ recs, r.Typed) → raw = pre ++ (images recs ++ tail) → Frame raw pre.length →
      ∀ o, Frame raw o → pre.length ≤ o → Intact raw o → o + entrySize + payloadOf (readEntry raw o) < 2^32 := by
  have he : entrySize = 48 := rfl
  have hmax : maxJournal = 67108864 := rfl
  induction recs with
  | nil =>
    intro pre _ hraw hpre o ho hle hi
    obtain ⟨r, hr, hfit, n, hn, rfl⟩ := ht
    have hnil : images [] = [] := rfl
    rw [hnil, List.nil_append] at hraw
    have hlen : raw.length = pre.length + n := by
      rw [hraw, List.length_append, List.length_take]
      omega
    have hin := hi.1
    -- the header of the torn record is whole
    have hentry : readEntry raw pre.length = r.entry := by
      rw [r.torn_header (by omega)] at hraw
      exact readEntry_record hr hraw
    rw [r.image_length] at hn
    rcases Nat.eq_or_lt_of_le hle with rfl | hlt
    · rw [hentry, payloadOf_record]
      omega
    · have hbehind := (hpre.step ho hlt).2
      rw [hentry, payloadOf_record] at hbehind
      omega
  | cons r recs ih =>
    intro pre htyped hraw hpre o ho hle hi
    have hr := htyped r (List.mem_cons_self ..)
    rw [images_cons] at hraw
    have hread : raw = pre ++ (r.entry.bytes ++ (r.payload ++ (images recs ++ tail))) := by
      rw [hraw, Rec.image]
      simp only [List.append_assoc]
    have hlen : raw.length = pre.length + (entrySize + r.payload.length) + (images recs ++ tail).length := by
      rw [hraw, List.append_assoc, List.length_append, List.length_append, r.image_length]
      omega
    have hnext := hpre.record hr hread
    rw [Nat.min_eq_left (by omega)] at hnext
    rcases Nat.eq_or_lt_of_le hle with rfl | hlt
    · rw [readEntry_record hr hread, payloadOf_record]
      omega
    · have hbehind := (hpre.step ho hlt).2
      rw [readEntry_record hr hread, payloadOf_record, Nat.min_eq_left (by omega)] at hbehind
      have hlength : (pre ++ r.image).length = pre.length + entrySize + r.payload.length := by
        rw [List.length_append, r.image_length, Nat.add_assoc]
      have hrest : raw = (pre ++ r.image) ++ (images recs ++ tail) := by
        rw [hraw]
        simp only [List.append_assoc]
      exact ih (fun q hq => htyped q (List.mem_cons_of_mem _ hq)) hrest (by rw [hlength]; exact hnext) o ho (by rw [hlength]; exact hbehind) hi

/-- The headers of whole records, with a torn one behind them, are open exactly if there is a
BEGIN without a later COMMIT. -/
theorem headersOpen_row {recs : List Rec} {tail : List Byte} (htyped : ∀ r ∈ recs, r.Typed) (ht : CutShort tail)
    (hsize : (images recs ++ tail).length ≤ maxJournal) :
    Narrow (images recs ++ tail) ∧ (HeadersOpen (images recs ++ tail) ↔ OpenBegin recs) := by
  have hn : Narrow (images recs ++ tail) := fun o ho hi =>
    narrow_row ht hsize recs htyped (List.nil_append _).symm .first o ho (Nat.zero_le o) hi
  obtain ⟨s, hs, hiff⟩ := scan_open hn
  obtain ⟨s', hs', hagree⟩ := scan_typed htyped ht hsize
  rw [hs] at hs'
  obtain rfl := Option.some.inj hs'
  exact ⟨hn, by rw [← hiff, hagree.incomplete, txnOf_incomplete]⟩

/-! ### Cycles that write nothing -/

/-- No event can be created for any batch. -/
def stuckEnv : FlushEnv :=
  ⟨0, ⟨0, fun _ => .done⟩, fun _ => ⟨0, fun _ => .done⟩, fun _ => ⟨true, some 0, .good⟩, ⟨0, fun _ => .done⟩⟩

def stuckCycle : FlushCycle := ⟨stuckEnv, gapCached, pairDisks⟩

/-- The DATA record of the dirty block `b`. -/
def stuckData (b : ℕ) : Rec := stuckEnv.record b (blockBytes gapCached.cache.buffer (b, 1))

theorem stuckCycle_pieces : stuckCycle.pieces id = [⟨0, .begin 0 0, .done⟩, ⟨1, .begin 0 0, .done⟩,
    ⟨0, stuckData 0, .done⟩, ⟨1, stuckData 0, .done⟩, ⟨0, stuckData 2, .done⟩, ⟨1, stuckData 2, .done⟩] := by
  have hc : Cycled stuckEnv id gapCached (journalledFlush stuckEnv id gapCached pairDisks) :=
    journalledFlush_spec stuckEnv id pairDisks gapCached_ok.cache rfl
  have hnone : ¬ ∃ p ∈ batches gapCached, stored stuckEnv gapCached p = true := by
    rw [gapCached_batches]
    decide +kernel
  have hopening : (journalWriteEntry id gapCached (.begin stuckEnv.generation stuckEnv.begin.time) stuckEnv.begin.answer).2 =
      [⟨0, .begin 0 0, .done⟩, ⟨1, .begin 0 0, .done⟩] := rfl
  have hdata : ∀ b, dataPieces stuckEnv id gapCached (b, 1) = [⟨0, stuckData b, .done⟩, ⟨1, stuckData b, .done⟩] :=
    fun _ => rfl
  have hpieces := hc.pieces
  rw [if_neg hnone, gapCached_batches, hopening] at hpieces
  simp only [List.flatMap_cons, List.flatMap_nil, hdata, List.append_nil, List.cons_append, List.nil_append] at hpieces
  have hrun : stuckCycle.pieces id = (journalledFlush stuckEnv id gapCached pairDisks).pieces := rfl
  exact hrun.trans hpieces

theorem appended_append (l : Letter) (ps qs : List Piece) : appended l (ps ++ qs) = appended l ps ++ appended l qs := by
  induction ps with
  | nil => rfl
  | cons p ps ih => rw [List.cons_append, appended, appended, ih, List.append_assoc]

theorem stuckCycle_appended {l : Letter} (hl : l = 0 ∨ l = 1) :
    appended l (stuckCycle.pieces id) = images [.begin 0 0, stuckData 0, stuckData 2] := by
  have hbytes : ∀ k r, (Piece.mk k r .done).bytes = r.image := fun _ _ => rfl
  rw [stuckCycle_pieces]
  rcases hl with rfl | rfl <;>
    simp only [appended, hbytes, images, List.map_cons, List.map_nil, List.flatten_cons, List.flatten_nil,
      Nat.zero_ne_one, Nat.one_ne_zero, if_true, if_false, List.nil_append]

theorem stuckData_length (b : ℕ) : (stuckData b).image.length = 65584 := by
  have hlen := record_length stuckEnv b (blockBytes gapCached.cache.buffer (b, 1))
  rw [blockBytes_length] at hlen
  exact hlen.trans (show 48 + 1 * 65536 = 65584 by decide)

theorem stuckCycles_length {l : Letter} (hl : l = 0 ∨ l = 1) (n : ℕ) :
    (cycleFiles id (List.replicate n stuckCycle) l).length = n * 131216 := by
  rw [cycleFiles, foldl_add, List.nil_append]
  induction n with
  | zero => rw [Nat.zero_mul]; rfl
  | succ n ih =>
    have hone : (images [Rec.begin 0 0, stuckData 0, stuckData 2]).length = 131216 := by
      have hbegin : (Rec.begin 0 0).image.length = 48 := Rec.image_length _
      have h0 := stuckData_length 0
      have h2 := stuckData_length 2
      generalize stuckData 0 = r0 at h0 ⊢
      generalize stuckData 2 = r2 at h2 ⊢
      rw [images_cons, images_cons, images_cons, List.length_append, List.length_append, List.length_append, hbegin, h0, h2]
      rfl
    rw [List.replicate_succ, List.flatMap_cons, appended_append, List.length_append, ih, stuckCycle_appended hl, hone]
    omega

theorem stuckCycles_open (n : ℕ) :
    LeavesOpen 0 ((List.replicate (n + 1) stuckCycle).flatMap (FlushCycle.pieces id)) := by
  rw [List.replicate_succ', List.flatMap_append, List.flatMap_singleton, stuckCycle_pieces]
  refine ⟨_, ⟨0, .begin 0 0, .done⟩, [⟨1, .begin 0 0, .done⟩], ⟨0, stuckData 0, .done⟩, _, rfl, rfl, rfl, rfl, rfl, rfl,
    nofun, ?_⟩
  intro x hx _ _
  simp only [List.cons_append, List.nil_append, List.mem_cons, List.not_mem_nil, or_false] at hx
  rcases hx with rfl | rfl | rfl | rfl <;> rfl

theorem recoverGood_whole (i : ℕ) (file : List Byte) : (recoverGood i).Whole file := by
  intro hsize n hn
  rw [← Option.some.inj hn]
  exact hsize

end RaidTest.Journal
