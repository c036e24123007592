import RaidTest.Journal.Framing

/-!
# More ranges than the scan has room for

The scan collects at most 256 ranges. Recovery writes those it has collected, and if no write
fails it empties the journal, also of the ranges it had no room for. The calls of
`stripe_volume_write` are recorded here next to what recovery does.
-/

namespace RaidTest.Journal
open RaidTest.Base RaidTest.Stripe RaidTest.Mirror RaidTest.Cache

/-! ### The calls of a recovery -/

/-- A call of `stripe_volume_write`: where it writes which bytes, and its answer. -/
structure Call where
  range : ℕ × List Byte
  ok : Bool

/-- `replayLoop` with its calls. -/
def replayTrace (io : ℕ → IoEnv) (raw : List Byte) :
    List Range → ℕ → ℕ → StripeVolume → Disks → Option (List Call × ℕ × StripeVolume × Disks)
  | [], _, failed, v, d => some ([], failed, v, d)
  | r :: rs, i, failed, v, d =>
    if r.dataOff = 0 ∨ r.len = 0 then replayTrace io raw rs (i + 1) (failed + 1) v d
    else
      match stripeVolumeWrite (io i) v d (bufAt raw r.dataOff) r.off r.len with
      | none => none
      | some (ok, v, d) =>
        match replayTrace io raw rs (i + 1) (if ok then failed else failed + 1) v d with
        | none => none
        | some (calls, x) => some (⟨(r.off, bytesAt (bufAt raw r.dataOff) r.len), ok⟩ :: calls, x)

/-- `recoverJournal` with its calls, all of them before the file is emptied. -/
def recoverTrace (env : RecoverEnv) (v : StripeVolume) (d : Disks) (content : List Byte) :
    Option (List Call × Bool × StripeVolume × Disks × Bool) :=
  match loadJournal env content with
  | none => some ([], true, v, d, false)
  | some raw =>
    match scan raw with
    | none => none
    | some s =>
      if s.incomplete then
        match replayTrace env.io raw s.ranges 0 0 v d with
        | none => none
        | some (calls, failed, v, d) => some (calls, false, v, d, failed == 0 && env.empties)
      else some ([], true, v, d, env.empties)

/-- The turn of one member: the content of its journal, the calls, and whether the file is
emptied after them. -/
structure Visit where
  member : ℕ
  found : List Byte
  calls : List Call
  emptied : Bool

/-- `recoverLoop` with its turns. -/
def recoverVisits (env : ℕ → RecoverEnv) (letter : DiskId → Letter) :
    ℕ → ℕ → Bool → StripeVolume → Disks → Files → Option (List Visit × Bool × StripeVolume × Disks × Files)
  | 0, _, allClean, v, d, files => some ([], allClean, v, d, files)
  | n + 1, di, allClean, v, d, files =>
    let l := letter (v.diskAt di)
    match recoverTrace (env di) v d (files l) with
    | none => none
    | some (calls, clean, v, d, empty) =>
      match recoverVisits env letter n (di + 1) (allClean && clean) v d (if empty then files.set l [] else files) with
      | none => none
      | some (visits, x) => some (⟨di, files l, calls, empty⟩ :: visits, x)

theorem replayTrace_run (io : ℕ → IoEnv) (raw : List Byte) (rs : List Range) : ∀ (i failed : ℕ) (v : StripeVolume) (d : Disks),
    (replayTrace io raw rs i failed v d).map Prod.snd = replayLoop io raw rs i failed v d := by
  induction rs with
  | nil => exact fun _ _ _ _ => rfl
  | cons r rs ih =>
    intro i failed v d
    unfold replayTrace replayLoop
    by_cases hskip : r.dataOff = 0 ∨ r.len = 0
    · rw [if_pos hskip, if_pos hskip]
      exact ih _ _ _ _
    rw [if_neg hskip, if_neg hskip]
    cases hw : stripeVolumeWrite (io i) v d (bufAt raw r.dataOff) r.off r.len with
    | none => rfl
    | some x =>
      obtain ⟨ok, w, e⟩ := x
      cases ok with
      | true =>
        simp only [if_true]
        rw [← ih]
        cases replayTrace io raw rs (i + 1) failed w e <;> rfl
      | false =>
        simp only [Bool.false_eq_true, if_false]
        rw [← ih]
        cases replayTrace io raw rs (i + 1) (failed + 1) w e <;> rfl

theorem recoverTrace_run (env : RecoverEnv) (v : StripeVolume) (d : Disks) (content : List Byte) :
    (recoverTrace env v d content).map Prod.snd = recoverJournal env v d content := by
  unfold recoverTrace recoverJournal
  cases loadJournal env content with
  | none => rfl
  | some raw =>
    simp only
    cases scan raw with
    | none => rfl
    | some s =>
      simp only
      split
      · rw [← replayTrace_run]
        cases replayTrace env.io raw s.ranges 0 0 v d <;> rfl
      · rfl

/-- The calls aside, the turns are the loop. -/
theorem recoverVisits_run (env : ℕ → RecoverEnv) (letter : DiskId → Letter) (n : ℕ) :
    ∀ (di : ℕ) (allClean : Bool) (v : StripeVolume) (d : Disks) (files : Files),
      (recoverVisits env letter n di allClean v d files).map Prod.snd = recoverLoop env letter n di allClean v d files := by
  induction n with
  | zero => exact fun _ _ _ _ _ => rfl
  | succ n ih =>
    intro di allClean v d files
    unfold recoverVisits recoverLoop
    simp only
    rw [← recoverTrace_run]
    cases recoverTrace (env di) v d (files (letter (v.diskAt di))) with
    | none => rfl
    | some x =>
      obtain ⟨calls, clean, w, e, empty⟩ := x
      simp only [Option.map_some]
      rw [← ih]
      cases recoverVisits env letter n (di + 1) (allClean && clean) w e
        (if empty = true then files.set (letter (v.diskAt di)) [] else files) <;> rfl

theorem mem_visits {env : ℕ → RecoverEnv} {letter : DiskId → Letter} (n : ℕ) :
    ∀ {di : ℕ} {allClean : Bool} {v : StripeVolume} {d : Disks} {files : Files} {visits : List Visit}
      {y : Bool × StripeVolume × Disks × Files} {x : Visit},
      recoverVisits env letter n di allClean v d files = some (visits, y) → x ∈ visits →
      ∃ v d clean w e, recoverTrace (env x.member) v d x.found = some (x.calls, clean, w, e, x.emptied) := by
  induction n with
  | zero =>
    intro di allClean v d files visits y x h hx
    obtain ⟨rfl, _⟩ := Prod.mk.inj (Option.some.inj h)
    cases hx
  | succ n ih =>
    intro di allClean v d files visits y x h hx
    unfold recoverVisits at h
    simp only at h
    split at h
    · cases h
    next calls clean w e empty htrace =>
    split at h
    · cases h
    next rest z hrest =>
    obtain ⟨rfl, _⟩ := Prod.mk.inj (Option.some.inj h)
    rcases List.mem_cons.mp hx with rfl | hx
    · exact ⟨v, d, clean, w, e, htrace⟩
    · exact ih hrest hx

/-! ### Calls that all succeed -/

theorem replayTrace_spec {io : ℕ → IoEnv} {raw : List Byte} (rs : List Range) :
    ∀ {i failed n : ℕ} {v w : StripeVolume} {d e : Disks} {calls : List Call},
      (∀ r ∈ rs, 0 < r.dataOff ∧ r.dataOff + r.len ≤ raw.length) →
      replayTrace io raw rs i failed v d = some (calls, n, w, e) → (∀ c ∈ calls, c.ok = true) →
      n = failed + (rs.filter fun r => decide (r.len = 0)).length ∧
        calls.map Call.range = (rs.filter fun r => !decide (r.len = 0)).map (Range.read raw) := by
  induction rs with
  | nil =>
    intro i failed n v w d e calls _ h _
    simp only [replayTrace, Option.some.injEq, Prod.mk.injEq] at h
    obtain ⟨rfl, rfl, _⟩ := h
    exact ⟨rfl, rfl⟩
  | cons r rs ih =>
    intro i failed n v w d e calls hin h hok
    obtain ⟨hpos, hle⟩ := hin r (List.mem_cons_self ..)
    have hrest : ∀ q ∈ rs, 0 < q.dataOff ∧ q.dataOff + q.len ≤ raw.length := fun q hq => hin q (List.mem_cons_of_mem _ hq)
    unfold replayTrace at h
    split at h
    · next hskip =>
      have hlen : r.len = 0 := hskip.resolve_left (by omega)
      obtain ⟨hn, hcalls⟩ := ih hrest h hok
      rw [List.filter_cons_of_pos (by simpa using hlen), List.filter_cons_of_neg (by simpa using hlen), List.length_cons]
      exact ⟨by omega, hcalls⟩
    next hskip =>
    have hlen : r.len ≠ 0 := fun h => hskip (Or.inr h)
    split at h
    · cases h
    next ok v1 d1 hw =>
    split at h
    · cases h
    next rest x hx =>
    obtain ⟨rfl, rfl⟩ := Prod.mk.inj (Option.some.inj h)
    have htrue : ok = true := hok _ (List.mem_cons_self ..)
    rw [htrue, if_pos rfl] at hx
    obtain ⟨hn, hcalls⟩ := ih hrest hx fun c hc => hok c (List.mem_cons_of_mem _ hc)
    rw [List.filter_cons_of_neg (by simpa using hlen), List.filter_cons_of_pos (by simpa using hlen), List.map_cons,
      List.map_cons, hcalls, bytesAt_slice hle]
    exact ⟨hn, rfl⟩

/-- The headers of the file lead to a BEGIN, and behind it stand the DATA records of the ranges
`ds`, up to the end of the file or to a record that was cut short. -/
def EndsOpen (file : List Byte) (ds : List (ℕ × List Byte)) : Prop :=
  ∃ pre tail g ts recs, (∀ r ∈ .begin g ts :: recs, r.Typed) ∧ OnlyData recs ∧ CutShort tail ∧
    file = pre ++ (images (.begin g ts :: recs) ++ tail) ∧ Frame file pre.length ∧ datas recs = ds

/-- The journal is opened, measured, held in memory and read. -/
def RecoverEnv.Loads (env : RecoverEnv) : Prop :=
  env.opens = true ∧ env.sized = true ∧ env.alloc = true ∧ env.read ≠ none

theorem EndsOpen.length {file : List Byte} {ds : List (ℕ × List Byte)} (h : EndsOpen file ds) : entrySize ≤ file.length := by
  obtain ⟨pre, tail, g, ts, recs, _, _, _, rfl, _, _⟩ := h
  simp only [images_cons, List.length_append, Rec.image_length]
  omega

theorem loadJournal_loads {env : RecoverEnv} {file : List Byte} (hread : ∀ n, env.read = some n → file.length ≤ n)
    (hmin : entrySize ≤ file.length) (hmax : file.length ≤ maxJournal) :
    (env.Loads → loadJournal env file = some file) ∧ (¬ env.Loads → loadJournal env file = none) := by
  constructor
  · rintro ⟨h1, h2, h3, h4⟩
    obtain ⟨n, hn⟩ := Option.ne_none_iff_exists'.mp h4
    exact loadJournal_reads ⟨h1, h2, h3, n, hn, hread n hn⟩ hmin hmax
  · intro hnot
    unfold loadJournal
    split
    · rfl
    next hg =>
    simp only [not_or, Bool.not_eq_false] at hg
    cases hn : env.read with
    | none => rfl
    | some n => exact absurd ⟨hg.1, hg.2.1, hg.2.2.2.2, by rw [hn]; exact Option.some_ne_none n⟩ hnot

/-- A journal that ends in an open transaction: the ranges that have bytes, of the first 256,
are written, and the file is emptied if all of these have bytes. -/
theorem recoverTrace_open {env : RecoverEnv} {v w : StripeVolume} {d e : Disks} {file : List Byte} {calls : List Call}
    {clean empty : Bool} {ds : List (ℕ × List Byte)} (hopen : EndsOpen file ds) (hsize : file.length ≤ maxJournal)
    (hload : loadJournal env file = some file)
    (h : recoverTrace env v d file = some (calls, clean, w, e, empty)) (hok : ∀ c ∈ calls, c.ok = true) :
    (empty = true ↔ (∀ p ∈ ds.take maxRanges, p.2 ≠ []) ∧ env.empties = true) ∧
      ((∀ p ∈ ds.take maxRanges, p.2 ≠ []) → calls.map Call.range = ds.take maxRanges) := by
  obtain ⟨pre, tail, g, ts, recs, htyped, honly, ht, hfile, hframe, rfl⟩ := hopen
  obtain ⟨s, _, hs, hagree, _, _⟩ := scan_framed htyped ht hfile hsize hframe
  obtain ⟨hinc, hkept⟩ := foldl_data honly
  have hranges : s.ranges.map (Range.read file) = (datas recs).take maxRanges := by
    rw [← hkept, ← hagree.kept]
    rfl
  have hlen : ∀ r ∈ s.ranges, (r.read file).2 = [] ↔ r.len = 0 := by
    intro r hr
    rw [← slice_length file (hagree.inside r hr).2, List.length_eq_zero_iff]
    rfl
  unfold recoverTrace at h
  rw [hload] at h
  simp only [hs, hagree.incomplete, hinc, if_true] at h
  split at h
  · cases h
  next calls' failed v' d' htrace =>
  simp only [Option.some.injEq, Prod.mk.injEq] at h
  obtain ⟨rfl, rfl, rfl, rfl, rfl⟩ := h
  obtain ⟨hn, hcalls⟩ := replayTrace_spec s.ranges hagree.inside htrace hok
  have hfull : (∀ p ∈ (datas recs).take maxRanges, p.2 ≠ []) ↔ ∀ r ∈ s.ranges, r.len ≠ 0 := by
    rw [← hranges]
    constructor
    · intro hall r hr hz
      exact hall _ (List.mem_map_of_mem hr) ((hlen r hr).mpr hz)
    · intro hall p hp
      obtain ⟨r, hr, rfl⟩ := List.mem_map.mp hp
      exact fun he => hall r hr ((hlen r hr).mp he)
  rw [hfull]
  constructor
  · rw [Bool.and_eq_true, beq_iff_eq, hn, Nat.zero_add, List.length_eq_zero_iff, List.filter_eq_nil_iff]
    simp only [decide_eq_true_eq, ne_eq]
  · intro hall
    rw [hcalls, List.filter_eq_self.mpr (fun r hr => by simpa using hall r hr), hranges]

/-- A recovery whose writes all succeed, and the turn of a member whose journal ends in an open
transaction: all its ranges are written in order before the file is emptied exactly if there
are at most 256, or one of the first 256 has no bytes, so that the file is kept, or the file
cannot be loaded or not be emptied. -/
theorem replay_complete {env : ℕ → RecoverEnv} {letter : DiskId → Letter} {v : StripeVolume} {d : Disks} {files : Files}
    {visits : List Visit} {y : Bool × StripeVolume × Disks × Files}
    (hrun : recoverVisits env letter v.diskCount 0 true v d files = some (visits, y)) {x : Visit} (hx : x ∈ visits)
    (hread : ∀ n, (env x.member).read = some n → x.found.length ≤ n) (hsize : x.found.length ≤ maxJournal)
    {ds : List (ℕ × List Byte)} (hopen : EndsOpen x.found ds) (hok : ∀ c ∈ x.calls, c.ok = true) :
    (x.emptied = true → x.calls.map Call.range = ds) ↔
      ds.length ≤ maxRanges ∨ (∃ p ∈ ds.take maxRanges, p.2 = []) ∨ ¬ (env x.member).Loads ∨
        (env x.member).empties = false := by
  obtain ⟨v', d', clean, w, e, htrace⟩ := mem_visits _ hrun hx
  obtain ⟨hload, hskip⟩ := loadJournal_loads hread hopen.length hsize
  by_cases hl : (env x.member).Loads
  swap
  · unfold recoverTrace at htrace
    rw [hskip hl] at htrace
    simp only [Option.some.injEq, Prod.mk.injEq] at htrace
    rw [← htrace.2.2.2.2]
    exact ⟨fun _ => Or.inr (Or.inr (Or.inl hl)), fun _ => nofun⟩
  obtain ⟨hempty, hcalls⟩ := recoverTrace_open hopen hsize (hload hl) htrace hok
  rw [hempty]
  constructor
  · intro h
    by_cases hfull : ∀ p ∈ ds.take maxRanges, p.2 ≠ []
    · cases he : (env x.member).empties with
      | false => exact Or.inr (Or.inr (Or.inr rfl))
      | true =>
        have heq := h ⟨hfull, he⟩
        rw [hcalls hfull, List.take_eq_self_iff] at heq
        exact Or.inl heq
    · simp only [not_forall, not_not] at hfull
      obtain ⟨p, hp, hnil⟩ := hfull
      exact Or.inr (Or.inl ⟨p, hp, hnil⟩)
  · rintro (hfew | ⟨p, hp, hnil⟩ | hnot | he) ⟨hfull, he'⟩
    · rw [hcalls hfull, List.take_of_length_le hfew]
    · exact absurd hnil (hfull p hp)
    · exact absurd hl hnot
    · rw [he] at he'
      cases he'

/-! ### 257 ranges -/

theorem replayTrace_ok {io : ℕ → IoEnv} {raw : List Byte} (rs : List Range) :
    ∀ {i failed : ℕ} {v : StripeVolume} {d : Disks} {calls : List Call} {x : ℕ × StripeVolume × Disks},
      ReplaySucceeds io raw rs i v d → replayTrace io raw rs i failed v d = some (calls, x) → ∀ c ∈ calls, c.ok = true := by
  induction rs with
  | nil =>
    intro i failed v d calls x _ h
    obtain ⟨rfl, _⟩ := Prod.mk.inj (Option.some.inj h)
    exact nofun
  | cons r rs ih =>
    intro i failed v d calls x hok h
    unfold ReplaySucceeds at hok
    unfold replayTrace at h
    split at h
    · next hskip =>
      rw [if_pos hskip] at hok
      exact ih hok h
    next hskip =>
    rw [if_neg hskip] at hok
    obtain ⟨w, e, hw, hok⟩ := hok
    rw [hw] at h
    simp only [if_true] at h
    split at h
    · cases h
    next rest x' hx =>
    obtain ⟨rfl, _⟩ := Prod.mk.inj (Option.some.inj h)
    intro c hc
    rcases List.mem_cons.mp hc with rfl | hc
    · rfl
    · exact ih hok hx c hc

theorem recoverTrace_ok {env : RecoverEnv} {v : StripeVolume} {d : Disks} {content : List Byte} {calls : List Call}
    {x : Bool × StripeVolume × Disks × Bool}
    (hok : ∀ raw s, loadJournal env content = some raw → scan raw = some s → s.incomplete = true →
      ReplaySucceeds env.io raw s.ranges 0 v d)
    (h : recoverTrace env v d content = some (calls, x)) : ∀ c ∈ calls, c.ok = true := by
  unfold recoverTrace at h
  split at h
  · obtain ⟨rfl, _⟩ := Prod.mk.inj (Option.some.inj h)
    exact nofun
  next raw hload =>
  split at h
  · cases h
  next s hs =>
  split at h
  · next hinc =>
    split at h
    · cases h
    next calls' failed v' d' htrace =>
    obtain ⟨rfl, _⟩ := Prod.mk.inj (Option.some.inj h)
    exact replayTrace_ok _ (hok raw s hload hs hinc) htrace
  · obtain ⟨rfl, _⟩ := Prod.mk.inj (Option.some.inj h)
    exact nofun

/-- The journal of drive 0 holds a BEGIN and `n` DATA records of one byte. -/
def manyRecs (n : ℕ) : Letter → List Rec
  | 0 => .begin 0 0 :: List.replicate n (.data 0 0 0 [7])
  | _ => []

theorem manyRecs_datas (n : ℕ) : datas (List.replicate n (.data 0 0 0 [7])) = List.replicate n (0, [7]) :=
  List.filterMap_replicate_of_some (show (Rec.data 0 0 0 [7]).range = some (0, [7]) from rfl)

theorem manyRecs_length (n : ℕ) : (images (manyRecs n 0)).length = 48 + n * 49 := by
  have himage : (Rec.data 0 0 0 [7]).image.length = 49 := Rec.image_length _
  have hbegin : (Rec.begin 0 0).image.length = 48 := Rec.image_length _
  rw [manyRecs, images_cons, List.length_append, images, List.map_replicate, List.length_flatten, List.map_replicate,
    List.sum_replicate, himage, hbegin, smul_eq_mul]

theorem manyRecs_only (n : ℕ) : OnlyData (List.replicate n (.data 0 0 0 [7])) := by
  intro r hr
  rw [List.eq_of_mem_replicate hr]
  exact ⟨rfl, rfl⟩

theorem manyRecs_fits (n : ℕ) : ∀ l, ∀ r ∈ manyRecs n l, r.Fits := by
  intro l r hr
  match l with
  | 0 =>
    rcases List.mem_cons.mp hr with rfl | hr
    · exact ⟨by decide, by decide⟩
    · rw [List.eq_of_mem_replicate hr]
      exact ⟨by decide, by decide, by decide, by decide⟩
  | _ + 1 => cases hr

theorem manyRecs_open (n : ℕ) : EndsOpen (images (manyRecs n 0)) (List.replicate n (0, [7])) :=
  ⟨[], [], 0, 0, List.replicate n (.data 0 0 0 [7]), fun r hr => (manyRecs_fits n 0 r hr).typed, manyRecs_only n,
    tornOff_nil.cutShort, (List.append_nil _).symm, .first, manyRecs_datas n⟩

/-- Recovery of the pair volume writes what it has collected of the records. -/
theorem manyRecs_visits {n : ℕ} (hn : n ≤ 1000) : ∃ x visits y,
    recoverVisits recoverGood id pairVolume.diskCount 0 true pairVolume pairDisks (rowFiles (manyRecs n)) =
      some (x :: visits, y) ∧ x.member = 0 ∧ x.found = images (manyRecs n 0) ∧ ∀ c ∈ x.calls, c.ok = true := by
  have hmax : maxJournal = 67108864 := rfl
  have hsize : ∀ l, (images (manyRecs n l)).length ≤ maxJournal := by
    intro l
    match l with
    | 0 => rw [manyRecs_length]; omega
    | _ + 1 => exact Nat.zero_le _
  have hmapped : ∀ l, ∀ r ∈ openOf (manyRecs n l), Replayable pairVolume r := by
    intro l r hr
    match l with
    | 0 =>
      have hkept : openOf (manyRecs n 0) = (List.replicate n (0, [7])).take maxRanges := by
        obtain ⟨hinc, hkept⟩ := foldl_data (manyRecs_only n)
        rw [manyRecs_datas] at hkept
        exact (if_pos hinc).trans hkept
      rw [hkept] at hr
      obtain rfl := List.eq_of_mem_replicate (List.mem_of_mem_take hr)
      exact pairVolume_replayable 7
    | _ + 1 => cases hr
  have hfiles : ∀ l, rowFiles (manyRecs n) l = rowFiles (manyRecs n) l ∨ rowFiles (manyRecs n) l = [] := fun l => Or.inl rfl
  have hrow := rowFiles_recovered (manyRecs_fits n) hsize hfiles hmapped
  obtain ⟨e, files', hrec⟩ := hrow pairDisks
  obtain ⟨clean, w, hrun⟩ := hrec.ends
  have hsucc := hrec.succeeds
  unfold journalRecoverAll at hrun
  rw [← recoverVisits_run] at hrun
  obtain ⟨⟨visits, y⟩, hvisits, _⟩ := Option.map_eq_some_iff.mp hrun
  have hstep := hvisits
  have hcount : pairVolume.diskCount = 1 + 1 := rfl
  have hfirst : rowFiles (manyRecs n) (id (pairVolume.diskAt 0)) = images (manyRecs n 0) := rfl
  rw [hcount, recoverVisits] at hstep
  rw [hcount, RecoverSucceeds] at hsucc
  simp only [hfirst] at hstep hsucc
  split at hstep
  · cases hstep
  next calls clean' v' d' empty htrace =>
  split at hstep
  · cases hstep
  next rest z _ =>
  obtain ⟨rfl, _⟩ := Prod.mk.inj (Option.some.inj hstep)
  exact ⟨_, rest, y, hvisits, rfl, rfl, recoverTrace_ok hsucc.1 htrace⟩

/-- Of 257 records the last is not written, and the journal is emptied. -/
theorem replay_complete_fails : ¬ ∀ (env : ℕ → RecoverEnv) (letter : DiskId → Letter) (v : StripeVolume) (d : Disks)
    (files : Files) (visits : List Visit) (y : Bool × StripeVolume × Disks × Files) (x : Visit)
    (ds : List (ℕ × List Byte)),
    recoverVisits env letter v.diskCount 0 true v d files = some (visits, y) → x ∈ visits →
    (∀ n, (env x.member).read = some n → x.found.length ≤ n) → x.found.length ≤ maxJournal →
    EndsOpen x.found ds → (∀ c ∈ x.calls, c.ok = true) → x.emptied = true → x.calls.map Call.range = ds := by
  intro h
  have hmax : maxJournal = 67108864 := rfl
  obtain ⟨x, visits, y, hrun, hmember, hfound, hok⟩ := manyRecs_visits (n := 257) (by decide)
  have hsize : x.found.length ≤ maxJournal := by rw [hfound, manyRecs_length]; omega
  have hopen : EndsOpen x.found (List.replicate 257 (0, [7])) := by rw [hfound]; exact manyRecs_open 257
  have hread : ∀ n, (recoverGood x.member).read = some n → x.found.length ≤ n := by
    intro n hn
    rw [← Option.some.inj hn]
    exact hsize
  obtain ⟨v', d', clean, w, e, htrace⟩ := mem_visits _ hrun (List.mem_cons_self ..)
  obtain ⟨hempty, hcalls⟩ := recoverTrace_open hopen hsize
    ((loadJournal_loads hread hopen.length hsize).1 ⟨rfl, rfl, rfl, Option.some_ne_none _⟩) htrace hok
  have hfull : ∀ p ∈ (List.replicate 257 (0, [7])).take maxRanges, p.2 ≠ ([] : List Byte) := by
    intro p hp
    rw [List.eq_of_mem_replicate (List.mem_of_mem_take hp)]
    exact List.cons_ne_nil _ _
  have hall := h recoverGood id pairVolume pairDisks _ _ y x _ hrun (List.mem_cons_self ..) hread hsize hopen hok
    (hempty.mpr ⟨hfull, rfl⟩)
  have hlen := congrArg List.length ((hcalls hfull).symm.trans hall)
  rw [List.length_take, List.length_replicate] at hlen
  exact absurd hlen (by decide)

theorem replay_complete_sample : ∃ x visits y,
    recoverVisits recoverGood id pairVolume.diskCount 0 true pairVolume pairDisks (rowFiles (manyRecs 2)) =
      some (x :: visits, y) ∧ (x.emptied = true → x.calls.map Call.range = [(0, [7]), (0, [7])]) := by
  have hmax : maxJournal = 67108864 := rfl
  obtain ⟨x, visits, y, hrun, hmember, hfound, hok⟩ := manyRecs_visits (n := 2) (by decide)
  have hsize : x.found.length ≤ maxJournal := by rw [hfound, manyRecs_length]; omega
  refine ⟨x, visits, y, hrun, ?_⟩
  refine (replay_complete hrun (List.mem_cons_self ..) (fun n hn => ?_) hsize (show EndsOpen x.found [(0, [7]), (0, [7])] from ?_) hok).mpr
    (Or.inl (by decide))
  · rw [← Option.some.inj hn]
    exact hsize
  · rw [hfound]
    exact manyRecs_open 2

end RaidTest.Journal
