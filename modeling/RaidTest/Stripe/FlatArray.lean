import RaidTest.Stripe.ReadWrite

/-!
# A stripe volume is a flat array of bytes

The abstract volume is one array indexed by virtual offset: a write replaces the
bytes of its range, a read returns them. A created and expanded volume without a
cache refines it, whatever the order in which the workers get to the requests.
-/

namespace RaidTest.Stripe
open RaidTest.Base

inductive Call where
  | read (buffer : Buf) (vo length : ℕ)
  | write (buffer : Buf) (vo length : ℕ)

def Call.vo : Call → ℕ
  | .read _ vo _ => vo
  | .write _ vo _ => vo

def Call.length : Call → ℕ
  | .read _ _ length => length
  | .write _ _ length => length

/-- One call: whether it returns true, and the caller's buffer after it. -/
def callVolume (io : IoEnv) (v : StripeVolume) (d : Disks) (c : Call) :
    Option ((Bool × Buf) × StripeVolume × Disks) :=
  match c with
  | .read buffer vo length =>
    match stripeVolumeRead io v d buffer vo length with
    | none => none
    | some (ok, v, d, out) => some ((ok, out), v, d)
  | .write buffer vo length =>
    match stripeVolumeWrite io v d buffer vo length with
    | none => none
    | some (ok, v, d) => some ((ok, buffer), v, d)

def runCalls : StripeVolume → Disks → List (Call × IoEnv) →
    Option (List (Bool × Buf) × StripeVolume × Disks)
  | v, d, [] => some ([], v, d)
  | v, d, (c, io) :: cs =>
    match callVolume io v d c with
    | none => none
    | some (a, v, d) =>
      match runCalls v d cs with
      | none => none
      | some (as, v, d) => some (a :: as, v, d)

/-- The calls and answers are those of one array of `total` bytes that starts as `mem` and
ends as `mem'`. -/
def FlatRun (total : ℕ) : Buf → List Call → List (Bool × Buf) → Buf → Prop
  | mem, [], [], mem' => ∀ x < total, mem' x = mem x
  | mem, .write buffer vo length :: cs, (ok, _) :: as, mem' =>
    (ok = true → vo + length ≤ total) ∧
      FlatRun total (if ok then mem.put vo length buffer else mem) cs as mem'
  | mem, .read _ vo length :: cs, (ok, out) :: as, mem' =>
    (ok = true → vo + length ≤ total ∧ ∀ i < length, out i = mem (vo + i)) ∧
      FlatRun total mem cs as mem'
  | _, _, _, _ => False

theorem FlatRun.congr {total : ℕ} {cs : List Call} {as : List (Bool × Buf)} {mem mem' other : Buf}
    (h : FlatRun total mem cs as mem') (he : ∀ x < total, other x = mem x) :
    FlatRun total other cs as mem' := by
  induction cs generalizing as mem other with
  | nil =>
    cases as with
    | nil => exact fun x hx => (h x hx).trans (he x hx).symm
    | cons a as => exact h
  | cons c cs ih =>
    cases as with
    | nil => cases c <;> exact h
    | cons a as =>
      obtain ⟨ok, out⟩ := a
      cases c with
      | read buffer vo length =>
        refine ⟨fun hok => ?_, ih h.2 he⟩
        obtain ⟨hle, hr⟩ := h.1 hok
        exact ⟨hle, fun i hi => (hr i hi).trans (he (vo + i) (by omega)).symm⟩
      | write buffer vo length =>
        refine ⟨h.1, ih h.2 fun x hx => ?_⟩
        cases ok with
        | false => exact he x hx
        | true =>
          simp only [ite_true, Buf.put]
          split
          · rfl
          · exact he x hx

/-- One run behind the other. -/
theorem FlatRun.append {total : ℕ} {cs ds : List Call} {as bs : List (Bool × Buf)} {mem mid mem' : Buf}
    (h : FlatRun total mem cs as mid) (g : FlatRun total mid ds bs mem') :
    FlatRun total mem (cs ++ ds) (as ++ bs) mem' := by
  induction cs generalizing mem as with
  | nil =>
    cases as with
    | nil => exact g.congr fun x hx => (h x hx).symm
    | cons a as => exact h.elim
  | cons c cs ih =>
    cases as with
    | nil => cases c <;> exact h.elim
    | cons a as =>
      obtain ⟨ok, out⟩ := a
      cases c with
      | read buffer vo length => exact ⟨h.1, ih h.2⟩
      | write buffer vo length => exact ⟨h.1, ih h.2⟩

/-! ### Volumes built and expanded -/

/-- `stripe_volume_create` and then one `stripe_volume_expand` for each further list. -/
def buildVolume (d : Disks) (disks : List DiskId) (stripeUnit : ℕ) (more : List (List DiskId)) :
    Option StripeVolume :=
  (stripeVolumeCreate d disks stripeUnit).bind fun v => more.foldlM (stripeVolumeExpand d) v

/-- A volume over the disks `l`, in order. -/
structure BuiltOn (v : StripeVolume) (l : List DiskId) : Prop where
  laid : Laid v
  level : v.raidLevel = .stripe
  uncached : v.cacheEnabled = false
  count : v.diskCount = l.length
  few : v.diskCount ≤ maxDisks
  disks : ∀ i < l.length, v.disks i = l[i]?

theorem BuiltOn.expand {d : Disks} {v w : StripeVolume} {l new : List DiskId} (h : BuiltOn v l)
    (hpool : ∀ i ∈ new, (d.info i).poolBytes ≤ 2^56) (hw : stripeVolumeExpand d v new = some w) :
    BuiltOn w (l ++ new) := by
  obtain ⟨h1, h2, h3, h4, h5, h6, h7⟩ := stripeVolumeExpand_spec h.laid hpool hw
  refine ⟨h1, h2.trans h.level, h3.trans h.uncached, ?_, h5, fun i hi => ?_⟩
  · rw [h4, h.count, List.length_append]
  · rw [List.length_append] at hi
    by_cases hlt : i < l.length
    · rw [h6 i (by rw [h.count]; exact hlt), h.disks i hlt, List.getElem?_append_left hlt]
    · have hx := h7 (i - l.length) (by omega)
      rw [h.count, show l.length + (i - l.length) = i by omega] at hx
      rw [hx, List.getElem?_append_right (by omega)]

theorem BuiltOn.expandAll {d : Disks} (more : List (List DiskId)) {v w : StripeVolume}
    {l : List DiskId} (h : BuiltOn v l) (hpool : ∀ i ∈ more.flatten, (d.info i).poolBytes ≤ 2^56)
    (hw : more.foldlM (stripeVolumeExpand d) v = some w) : BuiltOn w (l ++ more.flatten) := by
  induction more generalizing v l with
  | nil =>
    obtain rfl := Option.some.inj hw
    rw [List.flatten_nil, List.append_nil]
    exact h
  | cons new more ih =>
    rw [List.foldlM_cons] at hw
    obtain ⟨u, hu, hr⟩ := Option.bind_eq_some_iff.mp hw
    rw [List.flatten_cons] at hpool ⊢
    have he := h.expand (fun i hi => hpool i (List.mem_append_left _ hi)) hu
    have ht := ih he (fun i hi => hpool i (List.mem_append_right _ hi)) hr
    rw [List.append_assoc] at ht
    exact ht

theorem buildVolume_on {d : Disks} {disks : List DiskId} {su : ℕ} {more : List (List DiskId)}
    {v : StripeVolume} (hu : 0 < su) (hlt : su < 2^32)
    (hpool : ∀ i ∈ disks ++ more.flatten, (d.info i).poolBytes ≤ 2^56)
    (h : buildVolume d disks su more = some v) : BuiltOn v (disks ++ more.flatten) := by
  obtain ⟨u, hc, he⟩ := Option.bind_eq_some_iff.mp h
  obtain ⟨h1, h2, h3, h4, h5, h6⟩ := stripeVolumeCreate_spec hu hlt
    (fun i hi => hpool i (List.mem_append_left _ hi)) hc
  exact BuiltOn.expandAll more ⟨h1, h2, h3, h4, h5, h6⟩
    (fun i hi => hpool i (List.mem_append_right _ hi)) he

theorem BuiltOn.members {v : StripeVolume} {l : List DiskId} (h : BuiltOn v l) (hn : l.Nodup) :
    Members v := by
  have hat : ∀ i < v.diskCount, ∀ hi : i < l.length, v.disks i = some l[i] ∧ v.diskAt i = l[i] := by
    intro i _ hi
    have hd := h.disks i hi
    rw [List.getElem?_eq_getElem hi] at hd
    exact ⟨hd, by rw [StripeVolume.diskAt, hd, Option.getD_some]⟩
  have hc := h.count
  refine ⟨h.few, fun i hi => ?_, fun i hi j hj he => ?_⟩
  · obtain ⟨h1, h2⟩ := hat i hi (by omega)
    rw [h1, h2]
  · rw [(hat i hi (by omega)).2, (hat j hj (by omega)).2] at he
    exact (List.Nodup.getElem_inj_iff hn).mp he

theorem workersInit_ready {v : StripeVolume} (w : StripeVolume) (hl : Laid v) (hm : Members v)
    (h : stripeVolumeWorkersInit v = some w) : Ready w ∧ w.raidLevel = v.raidLevel ∧
      w.cacheEnabled = v.cacheEnabled := by
  unfold stripeVolumeWorkersInit at h
  split at h
  · cases h
  obtain rfl := Option.some.inj h
  exact ⟨⟨⟨hl.unit, hl.unitLt, hl.count, hl.phases⟩, ⟨hm.few, hm.present, hm.distinct⟩, rfl⟩, rfl, rfl⟩

/-! ### Calls on a volume without a cache -/

/-- What the calls rely on and keep. -/
structure Uncached (v : StripeVolume) : Prop where
  ready : Ready v
  level : v.raidLevel = .stripe
  uncached : v.cacheEnabled = false

theorem Uncached.read {v : StripeVolume} (h : Uncached v) (ok : Bool) (length : ℕ) :
    Uncached (addRead v ok length) :=
  ⟨(sameLayout_addRead v ok length).ready h.ready, (sameLayout_addRead v ok length).raidLevel.trans h.level,
    by rw [addRead_cacheEnabled]; exact h.uncached⟩

theorem Uncached.write {v : StripeVolume} (h : Uncached v) (ok : Bool) (length : ℕ) :
    Uncached (addWritten v ok length) :=
  ⟨(sameLayout_addWritten v ok length).ready h.ready,
    (sameLayout_addWritten v ok length).raidLevel.trans h.level,
    by rw [addWritten_cacheEnabled]; exact h.uncached⟩

/-- The request is one the volume can serve. -/
def served (v : StripeVolume) (vo length : ℕ) : Bool :=
  decide (vo + length ≤ v.virtualTotalBytes) && (mapLba v vo length).isSome

theorem SameLayout.served {v w : StripeVolume} (h : SameLayout v w) : served w = served v := by
  funext vo length
  simp only [Stripe.served, h.total, h.mapLba]

theorem served_out {v : StripeVolume} {vo length : ℕ}
    (hn : ¬ (0 < length ∧ vo + length ≤ v.virtualTotalBytes)) : served v vo length = false := by
  by_cases hpos : 0 < length
  · rw [served, decide_eq_false (fun hend => hn ⟨hpos, hend⟩), Bool.false_and]
  · have hnone : mapLba v vo length = none := by
      unfold mapLba
      rw [if_pos (Or.inl (by omega))]
    rw [served, hnone, Option.isSome_none, Bool.and_false]

theorem uncached_write {v : StripeVolume} (h : Uncached v) (io : IoEnv) (d : Disks) (buffer : Buf)
    {vo length : ℕ} (hio : io.Succeeds) (hl : length < 2^32) (hfit : Fits v vo length) :
    ∃ d', stripeVolumeWrite io v d buffer vo length =
        some (served v vo length, addWritten v (served v vo length) length, d') ∧
      (served v vo length = true → vo + length ≤ v.virtualTotalBytes) ∧
      ∀ x < v.virtualTotalBytes, vbyte v d' x =
        if served v vo length then Buf.put (vbyte v d) vo length buffer x else vbyte v d x := by
  by_cases hin : 0 < length ∧ vo + length ≤ v.virtualTotalBytes
  · obtain ⟨hpos, hend⟩ := hin
    obtain ⟨ok, d', hw, hdata, hframe, hok⟩ := writeDirect_spec h.ready io d buffer hl hend hfit
    have hserved : served v vo length = ok := by
      rw [hok hio, served, decide_eq_true hend, Bool.true_and]
    rw [stripeVolumeWrite_eq h.ready h.level io d buffer hpos hend, if_neg (by
      rw [h.uncached]
      exact fun hc => absurd hc.1 (by decide)), hserved]
    refine ⟨d', hw, fun _ => hend, fun x hx => ?_⟩
    cases ok with
    | false =>
      -- nothing was transferred, since every transfer succeeds
      have hnone : mapLba v vo length = none := by
        have hs := hok hio
        cases hm : mapLba v vo length with
        | none => rfl
        | some es => rw [hm] at hs; cases hs
      rw [writeDirect, hnone] at hw
      obtain ⟨_, _, rfl⟩ := Prod.mk.inj (Option.some.inj hw) |>.imp id Prod.mk.inj
      rfl
    | true =>
      simp only [ite_true, Buf.put]
      split
      · next hm => exact hdata rfl x hm.1 hm.2
      · next hm => exact hframe x hx (by omega)
  · have hserved := served_out hin
    refine ⟨d, ?_, fun hs => absurd (hserved ▸ hs) (by decide), fun x _ => by rw [hserved]; rfl⟩
    rw [hserved]
    unfold stripeVolumeWrite
    split
    · rfl
    next hg =>
    simp only [not_or, Nat.not_lt, gt_iff_lt] at hg
    have hbeyond := beyond_of_wrap h.ready hl (by omega) (fun hend => hin ⟨by omega, hend⟩) hg.2.1
    rw [if_neg (by rw [h.level]; decide), if_neg (by
      rw [h.uncached]
      exact fun hc => absurd hc.1 (by decide))]
    unfold writeDirect
    rw [mapLba_beyond hbeyond]
    rfl

theorem uncached_read {v : StripeVolume} (h : Uncached v) (io : IoEnv) (d : Disks) (buffer : Buf)
    {vo length : ℕ} (hio : io.Succeeds) (hl : length < 2^32) (hfit : Fits v vo length) :
    ∃ d' out, stripeVolumeRead io v d buffer vo length =
        some (served v vo length, addRead v (served v vo length) length, d', out) ∧
      d'.pool = d.pool ∧
      (served v vo length = true → vo + length ≤ v.virtualTotalBytes ∧
        ∀ i < length, out i = vbyte v d (vo + i)) := by
  by_cases hin : 0 < length ∧ vo + length ≤ v.virtualTotalBytes
  · obtain ⟨hpos, hend⟩ := hin
    obtain ⟨ok, d', out, hr, hpool, hdata, hok⟩ := readDirect_spec h.ready io d buffer hl hend hfit
    have hserved : served v vo length = ok := by
      rw [hok hio, served, decide_eq_true hend, Bool.true_and]
    rw [stripeVolumeRead_eq h.ready h.level io d buffer hpos hend, if_neg (by
      rw [h.uncached]
      exact fun hc => absurd hc.1 (by decide)), hserved]
    exact ⟨d', out, hr, hpool, fun hs => ⟨hend, hdata hs⟩⟩
  · have hserved := served_out hin
    refine ⟨d, buffer, ?_, rfl, fun hs => absurd (hserved ▸ hs) (by decide)⟩
    rw [hserved]
    unfold stripeVolumeRead
    split
    · rfl
    next hg =>
    simp only [not_or, Nat.not_lt, gt_iff_lt] at hg
    have hbeyond := beyond_of_wrap h.ready hl (by omega) (fun hend => hin ⟨by omega, hend⟩) hg.2.1
    rw [if_neg (by rw [h.level]; decide), if_neg (by
      rw [h.uncached]
      exact fun hc => absurd hc.1 (by decide))]
    unfold readDirect
    rw [mapLba_beyond hbeyond]
    rfl

/-- Every run of calls is a run of the flat array; the calls that return true are those
the volume can serve. -/
theorem runCalls_flat (calls : List (Call × IoEnv)) {v : StripeVolume} (d : Disks) (h : Uncached v)
    (hio : ∀ c ∈ calls, c.2.Succeeds) (hl : ∀ c ∈ calls, c.1.length < 2^32)
    (hfit : ∀ c ∈ calls, Fits v c.1.vo c.1.length) :
    ∃ answers w d', runCalls v d calls = some (answers, w, d') ∧ SameLayout v w ∧
      answers.map Prod.fst = calls.map (fun c => served v c.1.vo c.1.length) ∧
      FlatRun v.virtualTotalBytes (vbyte v d) (calls.map Prod.fst) answers (vbyte w d') := by
  induction calls generalizing v d with
  | nil => exact ⟨[], v, d, rfl, SameLayout.refl v, rfl, fun _ _ => rfl⟩
  | cons c calls ih =>
    obtain ⟨c, io⟩ := c
    have hio1 := hio _ (List.mem_cons_self ..)
    have hrest : ∀ {u : StripeVolume} (d : Disks), Uncached u → SameLayout v u →
        ∃ answers w d', runCalls u d calls = some (answers, w, d') ∧ SameLayout v w ∧
          answers.map Prod.fst = calls.map (fun c => served v c.1.vo c.1.length) ∧
          FlatRun v.virtualTotalBytes (vbyte v d) (calls.map Prod.fst) answers (vbyte w d') := by
      intro u d hu hs
      obtain ⟨answers, w, d', h1, h2, h3, h4⟩ := ih d hu
        (fun c hc => hio c (List.mem_cons_of_mem _ hc)) (fun c hc => hl c (List.mem_cons_of_mem _ hc))
        (fun c hc es hm => hfit c (List.mem_cons_of_mem _ hc) es (hs.mapLba ▸ hm))
      rw [hs.served] at h3
      rw [hs.total, hs.vbyte] at h4
      exact ⟨answers, w, d', h1, hs.trans h2, h3, h4⟩
    cases c with
    | write buffer vo length =>
      have hl1 : length < 2^32 := hl _ (List.mem_cons_self ..)
      have hfit1 : Fits v vo length := hfit _ (List.mem_cons_self ..)
      obtain ⟨d1, hw, hend, hmem⟩ := uncached_write h io d buffer hio1 hl1 hfit1
      obtain ⟨answers, w, d', h1, h2, h3, h4⟩ := hrest d1 (h.write (served v vo length) length)
        (sameLayout_addWritten v (served v vo length) length)
      refine ⟨(served v vo length, buffer) :: answers, w, d', ?_, h2, ?_, hend, ?_⟩
      · simp only [runCalls, callVolume, hw, h1]
      · simp only [List.map_cons, h3, Call.vo, Call.length]
      · refine h4.congr fun x hx => ?_
        rw [hmem x hx]
        split <;> rfl
    | read buffer vo length =>
      have hl1 : length < 2^32 := hl _ (List.mem_cons_self ..)
      have hfit1 : Fits v vo length := hfit _ (List.mem_cons_self ..)
      obtain ⟨d1, out, hr, hpool, hdata⟩ := uncached_read h io d buffer hio1 hl1 hfit1
      obtain ⟨answers, w, d', h1, h2, h3, h4⟩ := hrest d1 (h.read (served v vo length) length)
        (sameLayout_addRead v (served v vo length) length)
      refine ⟨(served v vo length, out) :: answers, w, d', ?_, h2, ?_, hdata, ?_⟩
      · simp only [runCalls, callVolume, hr, h1]
      · simp only [List.map_cons, h3, Call.vo, Call.length]
      · refine h4.congr fun x _ => ?_
        simp only [vbyte, hpool]

/-- RAID0 without cache refines a flat array of bytes. -/
theorem stripeVolume_flatArray (d0 d : Disks) (disks : List DiskId) (su : ℕ)
    (more : List (List DiskId)) (v w : StripeVolume) (calls : List (Call × IoEnv))
    (hu : 0 < su) (hlt : su < 2^32) (hn : (disks ++ more.flatten).Nodup)
    (hpool : ∀ i ∈ disks ++ more.flatten, (d0.info i).poolBytes ≤ 2^56)
    (hb : buildVolume d0 disks su more = some v) (hw : stripeVolumeWorkersInit v = some w)
    (hio : ∀ c ∈ calls, c.2.Succeeds) (hl : ∀ c ∈ calls, c.1.length < 2^32)
    (hfit : ∀ c ∈ calls, Fits w c.1.vo c.1.length) :
    ∃ answers w' d', runCalls w d calls = some (answers, w', d') ∧
      answers.map Prod.fst = calls.map (fun c => served w c.1.vo c.1.length) ∧
      FlatRun w.virtualTotalBytes (vbyte w d) (calls.map Prod.fst) answers (vbyte w' d') := by
  have hon := buildVolume_on hu hlt hpool hb
  obtain ⟨hr, hlevel, huncached⟩ := workersInit_ready w hon.laid (hon.members hn) hw
  obtain ⟨answers, w', d', h1, _, h2, h3⟩ := runCalls_flat calls d
    ⟨hr, hlevel.trans hon.level, huncached.trans hon.uncached⟩ hio hl hfit
  exact ⟨answers, w', d', h1, h2, h3⟩

/-- Three disks of 4096, 2048 and 4096 bytes, the first faster than the second. -/
def sampleDisks : Disks where
  info := fun i => ⟨if i = 1 then 2048 else 4096, if i = 0 then 200 else 100, 0, false, true, false,
    false, 0, true⟩
  pool := fun i p => UInt8.ofNat (7 * i + p)

def sampleLayout : StripeVolume := (buildVolume sampleDisks [0, 1] 512 [[2]]).getD .zero

def sampleVolume : StripeVolume := (stripeVolumeWorkersInit sampleLayout).getD .zero

def sampleCalls : List (Call × IoEnv) :=
  [(.write (fun i => UInt8.ofNat i) 300 1000, .good), (.read (fun _ => 0) 0 2000, .good)]

example : sampleVolume.phaseCount = 2 ∧ sampleVolume.virtualTotalBytes = 10240 ∧
    mapLba sampleVolume 300 1000 = some [⟨0, 300, 724⟩, ⟨1, 0, 276⟩] := by decide

theorem stripeVolume_flatArray_sample :
    ∃ answers w' d', runCalls sampleVolume sampleDisks sampleCalls = some (answers, w', d') ∧
      answers.map Prod.fst = sampleCalls.map (fun c => served sampleVolume c.1.vo c.1.length) ∧
      FlatRun sampleVolume.virtualTotalBytes (vbyte sampleVolume sampleDisks)
        (sampleCalls.map Prod.fst) answers (vbyte w' d') := by
  refine stripeVolume_flatArray sampleDisks sampleDisks [0, 1] 512 [[2]] sampleLayout sampleVolume
    sampleCalls (by decide) (by decide) (by decide) (by decide) rfl rfl ?_ (by decide) ?_
  · intro c hc
    rcases List.mem_pair.mp hc with rfl | rfl <;> exact IoEnv.good_succeeds
  · intro c hc es hm
    rcases List.mem_pair.mp hc with rfl | rfl
    · have he : mapLba sampleVolume 300 1000 = some [⟨0, 300, 724⟩, ⟨1, 0, 276⟩] := by decide
      obtain rfl := Option.some.inj (he.symm.trans hm)
      decide
    · have he : mapLba sampleVolume 0 2000 = some [⟨0, 0, 1024⟩, ⟨1, 0, 512⟩, ⟨0, 1024, 464⟩] := by
        decide
      obtain rfl := Option.some.inj (he.symm.trans hm)
      decide

end RaidTest.Stripe
