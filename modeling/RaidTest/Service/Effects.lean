import RaidTest.Service.Commands

/-!
# What the engines leave to the service

For each engine function the service calls: what it does to the cache switch, to the members
and to their health.
-/

namespace RaidTest.Service
open RaidTest.Base RaidTest.Stripe RaidTest.Mirror RaidTest.Cache RaidTest.Journal RaidTest.Volume

/-! ### The records -/

/-- No record changes in `healthy`, `faulty` or `error_count`. -/
structure SameHealth (f g : DiskId → DiskInfo) : Prop where
  healthy : ∀ k, (g k).healthy = (f k).healthy
  faulty : ∀ k, (g k).faulty = (f k).faulty
  errors : ∀ k, (g k).errorCount = (f k).errorCount

theorem SameHealth.refl (f : DiskId → DiskInfo) : SameHealth f f := ⟨fun _ => rfl, fun _ => rfl, fun _ => rfl⟩

theorem SameHealth.trans {f g h : DiskId → DiskInfo} (a : SameHealth f g) (b : SameHealth g h) : SameHealth f h :=
  ⟨fun k => (b.healthy k).trans (a.healthy k), fun k => (b.faulty k).trans (a.faulty k),
    fun k => (b.errors k).trans (a.errors k)⟩

theorem sameHealth_set {f : DiskId → DiskInfo} {i : DiskId} {x : DiskInfo} (h1 : x.healthy = (f i).healthy)
    (h2 : x.faulty = (f i).faulty) (h3 : x.errorCount = (f i).errorCount) :
    SameHealth f fun j => if j = i then x else f j := by
  constructor
  · intro k
    split
    · next hk => rw [hk, h1]
    · rfl
  · intro k
    split
    · next hk => rw [hk, h2]
    · rfl
  · intro k
    split
    · next hk => rw [hk, h3]
    · rfl

theorem poolFileCreate_health (dr : Drives) (env : PoolEnv) (s : Pools) (disk : DiskId) (size : ℕ) :
    SameHealth s.info (poolFileCreate dr env s disk size).2.info := by
  unfold poolFileCreate
  split
  · exact SameHealth.refl _
  split
  · exact SameHealth.refl _
  simp only
  have hset : SameHealth s.info (s.setInfo disk { s.info disk with poolBytes := alignedSize size }).info :=
    sameHealth_set rfl rfl rfl
  split
  · exact hset
  split <;> exact hset

theorem poolFileOpen_health (dr : Drives) (env : PoolEnv) (s : Pools) (disk : DiskId) :
    SameHealth s.info (poolFileOpen dr env s disk).2.info := by
  unfold poolFileOpen
  split
  · exact SameHealth.refl _
  · exact sameHealth_set rfl rfl rfl

theorem poolFileClose_health (s : Pools) (disk : DiskId) : SameHealth s.info (poolFileClose s disk).info :=
  sameHealth_set rfl rfl rfl

theorem poolFileDelete_health (dr : Drives) (env : PoolEnv) (s : Pools) (disk : DiskId) :
    SameHealth s.info (poolFileDelete dr env s disk).info := by
  unfold poolFileDelete
  split
  · exact SameHealth.refl _
  simp only
  split <;> exact poolFileClose_health s disk

theorem rollback_health (dr : Drives) (env : ℕ → PoolEnv) (disks : List DiskId) :
    ∀ (i : ℕ) (s : Pools), SameHealth s.info (rollback dr env i disks s).info := by
  induction disks with
  | nil => intro i s; exact SameHealth.refl _
  | cons disk disks ih =>
    intro i s
    unfold rollback
    exact ((poolFileClose_health s disk).trans (poolFileDelete_health dr _ _ disk)).trans (ih _ _)

theorem growLoop_health (dr : Drives) (env : ℕ → PoolEnv) (physical : List DiskId) (sel : List (ℕ × ℕ)) :
    ∀ (i : ℕ) (created : List DiskId) (s : Pools),
      SameHealth s.info (growLoop dr env physical sel i created s).2.2.info := by
  induction sel with
  | nil => intro i created s; exact SameHealth.refl _
  | cons x sel ih =>
    intro i created s
    obtain ⟨id, mb⟩ := x
    unfold growLoop
    simp only
    generalize mb * mib = size
    generalize physical.getD id 0 = disk
    split
    · exact SameHealth.refl _
    have hc := poolFileCreate_health dr (env i) s disk size
    generalize poolFileCreate dr (env i) s disk size = r at hc
    obtain ⟨ok, t⟩ := r
    cases ok with
    | false => exact hc
    | true =>
      have ho := poolFileOpen_health dr (env i) t disk
      simp only
      generalize poolFileOpen dr (env i) t disk = r at ho
      obtain ⟨ok, u⟩ := r
      cases ok with
      | false => exact (hc.trans ho).trans (poolFileDelete_health dr _ _ _)
      | true => exact (hc.trans ho).trans (ih _ _ _)

theorem foldl_setHandle_health (h : Bool) (disks : List DiskId) (d : Disks) :
    SameHealth d.info (disks.foldl (setHandle h) d).info := by
  induction disks generalizing d with
  | nil => exact SameHealth.refl _
  | cons disk disks ih =>
    have hset : SameHealth d.info (setHandle h d disk).info := sameHealth_set rfl rfl rfl
    exact hset.trans (ih _)

theorem stripeVolumeDestroy_health (s : System) : SameHealth s.d.info (stripeVolumeDestroy s).d.info := by
  constructor
  · exact stripeVolumeDestroy_healthy s
  · intro k
    unfold stripeVolumeDestroy
    simp only
    split <;> rfl
  · intro k
    unfold stripeVolumeDestroy
    simp only
    split <;> rfl

/-! ### The end of a cache -/

theorem flushTransfers_info (io : IoEnv) (buffer : Buf) (reqs : List IoRequest) (d : Disks) :
    (flushTransfers io buffer d reqs).info = d.info := by
  unfold flushTransfers
  induction reqs generalizing d with
  | nil => rfl
  | cons r reqs ih => exact ih _

theorem flushWrite_info (env : BatchEnv) (v : StripeVolume) (d : Disks) (b run : ℕ) :
    (flushWrite env v d b run).2.info = d.info := by
  unfold flushWrite
  split
  · rfl
  · exact flushTransfers_info _ _ _ d

/-- The volume has the members it had. -/
structure SameMembers (v w : StripeVolume) : Prop where
  level : w.raidLevel = v.raidLevel
  count : w.diskCount = v.diskCount
  disks : w.disks = v.disks
  phases : w.phaseCount = v.phaseCount
  healthy : w.healthyCount = v.healthyCount

theorem SameMembers.refl (v : StripeVolume) : SameMembers v v := ⟨rfl, rfl, rfl, rfl, rfl⟩

theorem SameMembers.trans {u v w : StripeVolume} (h : SameMembers u v) (g : SameMembers v w) : SameMembers u w :=
  ⟨g.level.trans h.level, g.count.trans h.count, g.disks.trans h.disks, g.phases.trans h.phases,
    g.healthy.trans h.healthy⟩

theorem flushScan_members {env : BatchEnv} {v w : StripeVolume} {b : ℕ}
    (h : (∃ b', flushScan env v b = .next b' w) ∨ ∃ run, flushScan env v b = .batch run w) : SameMembers v w := by
  have hl := flushScan_layout h
  refine ⟨hl.raidLevel, hl.diskCount, hl.disks, hl.phaseCount, ?_⟩
  unfold flushScan at h
  split at h
  · obtain ⟨_, h⟩ := h.resolve_right (fun ⟨_, h⟩ => by cases h)
    rw [← (Scan.next.inj h).2]
  simp only at h
  split at h
  · obtain ⟨_, h⟩ := h.resolve_right (fun ⟨_, h⟩ => by cases h)
    rw [← (Scan.next.inj h).2]
  split at h
  · obtain ⟨_, h⟩ := h.resolve_right (fun ⟨_, h⟩ => by cases h)
    rw [← (Scan.next.inj h).2]
  split at h
  · obtain ⟨_, h⟩ := h.resolve_right (fun ⟨_, h⟩ => by cases h)
    rw [← (Scan.next.inj h).2]
  · obtain ⟨_, h⟩ := h.resolve_left (fun ⟨_, h⟩ => by cases h)
    rw [← (Scan.batch.inj h).2]

theorem flushClear_members (v : StripeVolume) (b run : ℕ) : SameMembers v (flushClear v b run) :=
  ⟨rfl, rfl, rfl, rfl, rfl⟩

theorem flushLoop_members (env : ℕ → BatchEnv) (fuel : ℕ) : ∀ (b : ℕ) (v : StripeVolume) (d : Disks),
    SameMembers v (flushLoop env fuel b v d).1 ∧ (flushLoop env fuel b v d).2.info = d.info := by
  induction fuel with
  | zero => intro b v d; exact ⟨SameMembers.refl v, rfl⟩
  | succ fuel ih =>
    intro b v d
    unfold flushLoop
    split
    · cases hs : flushScan (env b) v b with
      | next b' w =>
        obtain ⟨h1, h2⟩ := ih b' w d
        exact ⟨(flushScan_members (Or.inl ⟨_, hs⟩)).trans h1, h2⟩
      | batch run w =>
        have hw := flushScan_members (Or.inr ⟨_, hs⟩)
        have hi := flushWrite_info (env b) w d b run
        simp only
        split
        · next e he =>
          rw [he] at hi
          obtain ⟨h1, h2⟩ := ih (b + run) (flushClear w b run) e
          exact ⟨(hw.trans (flushClear_members w b run)).trans h1, h2.trans hi⟩
        · next e he =>
          rw [he] at hi
          obtain ⟨h1, h2⟩ := ih (b + run) w e
          exact ⟨hw.trans h1, h2.trans hi⟩
    · exact ⟨SameMembers.refl v, rfl⟩

theorem cacheFlushAll_members (env : ℕ → BatchEnv) (v : StripeVolume) (d : Disks) :
    SameMembers v (cacheFlushAll env v d).1 ∧ (cacheFlushAll env v d).2.info = d.info := by
  unfold cacheFlushAll
  split
  · exact ⟨SameMembers.refl v, rfl⟩
  obtain ⟨h1, h2⟩ := flushLoop_members env v.cache.blockCount 0 { v with cacheFlushInProgress := true } d
  generalize flushLoop env v.cache.blockCount 0 { v with cacheFlushInProgress := true } d = r at h1 h2
  obtain ⟨w, e⟩ := r
  exact ⟨⟨h1.level, h1.count, h1.disks, h1.phases, h1.healthy⟩, h2⟩

theorem finishFlush_members (env : ℕ → BatchEnv) (s : System) :
    SameMembers s.v (finishFlush env s).v ∧ (finishFlush env s).d.info = s.d.info := by
  have hend : ∀ (t : System) b, SameMembers t.v (finishLoop env t b).v ∧ (finishLoop env t b).d.info = t.d.info := by
    intro t b
    obtain ⟨h1, h2⟩ := flushLoop_members env t.v.cache.blockCount b t.v t.d
    exact ⟨h1.trans ⟨rfl, rfl, rfl, rfl, rfl⟩, h2⟩
  unfold finishFlush
  split
  · exact ⟨SameMembers.refl _, rfl⟩
  · exact hend s _
  · next b run _ =>
    have hi := flushWrite_info (env b) s.v s.d b run
    split
    · next e he =>
      rw [he] at hi
      obtain ⟨h1, h2⟩ := hend { s with v := flushClear s.v b run, d := e } (b + run)
      exact ⟨(flushClear_members s.v b run).trans h1, h2.trans hi⟩
    · next e he =>
      rw [he] at hi
      obtain ⟨h1, h2⟩ := hend { s with d := e } (b + run)
      exact ⟨h1, h2.trans hi⟩
  · next b run _ =>
    obtain ⟨h1, h2⟩ := hend { s with v := flushClear s.v b run } (b + run)
    exact ⟨(flushClear_members s.v b run).trans h1, h2⟩

/-- The cache ends, and the members are as they were. -/
theorem cleanup_members (env : ℕ → BatchEnv) (s : System) :
    (cleanupVolumeCache env s).v.cacheEnabled = false ∧ SameMembers s.v (cleanupVolumeCache env s).v ∧
      (cleanupVolumeCache env s).d.info = s.d.info := by
  unfold cleanupVolumeCache
  split
  · next hoff => exact ⟨hoff, SameMembers.refl _, rfl⟩
  simp only
  generalize hc : ({ s.v.cache with threadStop := true, flushThread := false } : RamCache) = cache
  obtain ⟨h1, h2⟩ := cacheFlushAll_members env { s.v with cache := cache } s.d
  generalize cacheFlushAll env { s.v with cache := cache } s.d = r at h1 h2
  obtain ⟨w, e⟩ := r
  obtain ⟨h3, h4⟩ := finishFlush_members env { s with v := w, d := e }
  refine ⟨True.intro, ?_, h4.trans h2⟩
  have h5 : SameMembers s.v w := ⟨h1.level, h1.count, h1.disks, h1.phases, h1.healthy⟩
  have h6 := h5.trans h3
  exact ⟨h6.level, h6.count, h6.disks, h6.phases, h6.healthy⟩

/-! ### A new volume -/

/-- What `volume_create` leaves: a stripe volume of the disks if it succeeds, else that or the
members it found. -/
structure Created (disks : List DiskId) (s : System) (r : Bool × System) : Prop where
  enabled : r.2.v.cacheEnabled = false
  health : SameHealth s.d.info r.2.d.info
  old : r.1 = false → SameMembers s.v r.2.v ∨ r.2.v.raidLevel = .stripe ∧ r.2.v.diskCount = disks.length ∧
    r.2.v.disks = fun i => disks[i]?
  new : r.1 = true → r.2.v.raidLevel = .stripe ∧ r.2.v.diskCount = disks.length ∧ r.2.v.disks = fun i => disks[i]?

theorem volumeCreate_created (env : CreateEnv) (disks : List DiskId) (s : System) :
    Created disks s (volumeCreate env disks s) := by
  obtain ⟨hoff, hsame, hinfo⟩ := cleanup_members env.flush s
  have hdown := stripeVolumeDestroy_health (cleanupVolumeCache env.flush s)
  rw [hinfo] at hdown
  unfold volumeCreate
  simp only
  generalize hu : stripeVolumeDestroy (cleanupVolumeCache env.flush s) = u at hdown
  have hoff' : u.v.cacheEnabled = false := by
    rw [← hu]
    exact hoff
  have hsame' : SameMembers s.v u.v := by
    rw [← hu]
    exact ⟨hsame.level, hsame.count, hsame.disks, hsame.phases, hsame.healthy⟩
  have hhandles := hdown.trans (foldl_setHandle_health true (disks.take (openedPools env.opens disks.length)) u.d)
  split
  · exact ⟨hoff', hhandles.trans (foldl_setHandle_health false _ _), fun _ => Or.inl hsame', nofun⟩
  split
  · exact ⟨hoff', hhandles.trans (foldl_setHandle_health false _ _), fun _ => Or.inl hsame', nofun⟩
  next v hv =>
  have hnew : v.cacheEnabled = false ∧ v.raidLevel = .stripe ∧ v.diskCount = disks.length ∧
      v.disks = fun i => disks[i]? := by
    unfold stripeVolumeCreate at hv
    split at hv
    · cases hv
    · obtain rfl := Option.some.inj hv
      exact ⟨rfl, rfl, rfl, rfl⟩
  split
  · exact ⟨hnew.1, hhandles.trans (foldl_setHandle_health false _ _), fun _ => Or.inr hnew.2, nofun⟩
  · next w hw =>
    have hworkers : w.cacheEnabled = v.cacheEnabled ∧ w.raidLevel = v.raidLevel ∧ w.diskCount = v.diskCount ∧
        w.disks = v.disks := by
      split at hw
      · unfold stripeVolumeWorkersInit at hw
        split at hw
        · cases hw
        · obtain rfl := Option.some.inj hw
          exact ⟨rfl, rfl, rfl, rfl⟩
      · cases hw
    obtain ⟨h1, h2, h3, h4⟩ := hworkers
    exact ⟨h1.trans hnew.1, hhandles, nofun, fun _ => ⟨h2.trans hnew.2.1, h3.trans hnew.2.2.1, h4.trans hnew.2.2.2⟩⟩

theorem foldl_setHealthy (disks : List DiskId) (d : Disks) (k : DiskId) :
    ((disks.foldl (fun d i => setHealthy d i true) d).info k).healthy =
        (if k ∈ disks then true else (d.info k).healthy) ∧
      ((disks.foldl (fun d i => setHealthy d i true) d).info k).faulty = (d.info k).faulty ∧
      ((disks.foldl (fun d i => setHealthy d i true) d).info k).errorCount = (d.info k).errorCount := by
  induction disks generalizing d with
  | nil => exact ⟨rfl, rfl, rfl⟩
  | cons disk disks ih =>
    obtain ⟨h1, h2, h3⟩ := ih (setHealthy d disk true)
    have hset : ((setHealthy d disk true).info k).faulty = (d.info k).faulty ∧
        ((setHealthy d disk true).info k).errorCount = (d.info k).errorCount := by
      unfold setHealthy Disks.setInfo
      simp only
      split
      · next hk =>
        rw [hk]
        exact ⟨rfl, rfl⟩
      · exact ⟨rfl, rfl⟩
    refine ⟨h1.trans ?_, h2.trans hset.1, h3.trans hset.2⟩
    rw [setHealthy_info]
    by_cases hk : k = disk
    · rw [if_pos hk, hk, if_pos (List.mem_cons_self ..)]
      split <;> rfl
    · rw [if_neg hk]
      by_cases hm : k ∈ disks
      · rw [if_pos hm, if_pos (List.mem_cons_of_mem _ hm)]
      · rw [if_neg hm, if_neg (fun h => (List.mem_cons.mp h).elim hk hm)]

/-- What `volume_mirror` leaves: a mirror of the disks, all of them healthy, if it succeeds,
else the members it found. -/
structure Mirrored (disks : List DiskId) (s : System) (r : Bool × System) : Prop where
  enabled : r.2.v.cacheEnabled = false
  faulty : ∀ k, (r.2.d.info k).faulty = (s.d.info k).faulty
  errors : ∀ k, (r.2.d.info k).errorCount = (s.d.info k).errorCount
  old : r.1 = false → SameMembers s.v r.2.v ∧ ∀ k, (r.2.d.info k).healthy = (s.d.info k).healthy
  new : r.1 = true → r.2.v.raidLevel = .mirror ∧ r.2.v.diskCount = disks.length ∧
    (r.2.v.disks = fun i => disks[i]?) ∧ r.2.v.phaseCount = 0 ∧ r.2.v.healthyCount = disks.length ∧
    ∀ k, (r.2.d.info k).healthy = if k ∈ disks then true else (s.d.info k).healthy

theorem volumeMirror_mirrored (env : CreateEnv) (disks : List DiskId) (s : System) :
    Mirrored disks s (volumeMirror env disks s) := by
  obtain ⟨hoff, hsame, hinfo⟩ := cleanup_members env.flush s
  have hdown := stripeVolumeDestroy_health (cleanupVolumeCache env.flush s)
  rw [hinfo] at hdown
  unfold volumeMirror
  simp only
  generalize hu : stripeVolumeDestroy (cleanupVolumeCache env.flush s) = u at hdown
  have hoff' : u.v.cacheEnabled = false := by
    rw [← hu]
    exact hoff
  have hsame' : SameMembers s.v u.v := by
    rw [← hu]
    exact ⟨hsame.level, hsame.count, hsame.disks, hsame.phases, hsame.healthy⟩
  have hhandles := hdown.trans (foldl_setHandle_health true (disks.take (openedPools env.opens disks.length)) u.d)
  split
  · have h := hhandles.trans (foldl_setHandle_health false (disks.take (openedPools env.opens disks.length + 1)) _)
    exact ⟨hoff', h.faulty, h.errors, fun _ => ⟨hsame', h.healthy⟩, nofun⟩
  split
  · have h := hhandles.trans (foldl_setHandle_health false disks _)
    exact ⟨hoff', h.faulty, h.errors, fun _ => ⟨hsame', h.healthy⟩, nofun⟩
  next v e hv =>
  unfold mirrorVolumeCreate at hv
  split at hv
  · cases hv
  obtain ⟨rfl, rfl⟩ := Prod.mk.inj (Option.some.inj hv)
  have hup := foldl_setHealthy disks ((disks.take (openedPools env.opens disks.length)).foldl (setHandle true) u.d)
  refine ⟨rfl, fun k => (hup k).2.1.trans (hhandles.faulty k), fun k => (hup k).2.2.trans (hhandles.errors k), nofun,
    fun _ => ⟨rfl, rfl, rfl, rfl, rfl, fun k => (hup k).1.trans ?_⟩⟩
  rw [hhandles.healthy]

/-! ### A volume that changes -/

theorem selectDisks_inside {dr : Drives} {physical : List DiskId} {args : List (Option (ℕ × ℕ))} {x : ℕ × ℕ}
    (h : x ∈ selectDisks dr physical args) : x.1 < physical.length := by
  unfold selectDisks at h
  obtain ⟨a, _, ha⟩ := List.mem_filterMap.mp (List.mem_of_mem_take h)
  obtain ⟨_, hx⟩ := Option.filter_eq_some_iff.mp ha
  exact of_decide_eq_true ((Bool.and_eq_true _ _).mp hx).1

theorem getD_mem {α : Type} {l : List α} {i : ℕ} {x : α} (h : i < l.length) : l.getD i x ∈ l := by
  rw [List.getD_eq_getElem _ _ h]
  exact List.getElem_mem h

theorem growLoop_created (dr : Drives) (env : ℕ → PoolEnv) (physical : List DiskId) (sel : List (ℕ × ℕ))
    (hsel : ∀ x ∈ sel, x.1 < physical.length) :
    ∀ (i : ℕ) (created : List DiskId) (s : Pools), (∀ k ∈ created, k ∈ physical) →
      ∀ k ∈ (growLoop dr env physical sel i created s).2.1, k ∈ physical := by
  induction sel with
  | nil => intro i created s h; exact h
  | cons x sel ih =>
    intro i created s h
    have hx := getD_mem (x := 0) (hsel x (List.mem_cons_self ..))
    obtain ⟨id, mb⟩ := x
    simp only at hx
    unfold growLoop
    simp only
    generalize mb * mib = size
    generalize physical.getD id 0 = disk at hx
    split
    · exact h
    generalize poolFileCreate dr (env i) s disk size = r
    obtain ⟨ok, t⟩ := r
    cases ok with
    | false => exact h
    | true =>
      simp only
      generalize poolFileOpen dr (env i) t disk = r
      obtain ⟨ok, u⟩ := r
      cases ok with
      | false => exact h
      | true =>
        apply ih (fun y hy => hsel y (List.mem_cons_of_mem _ hy))
        intro k hk
        rcases List.mem_append.mp hk with hk | hk
        · exact h k hk
        · rw [List.mem_singleton.mp hk]
          exact hx

/-- What `volume_expand` leaves: the volume it found, or one with disks of the table behind the
old members. -/
structure Expanded (physical : List DiskId) (v : StripeVolume) (s : Pools) (r : Bool × StripeVolume × Pools) : Prop where
  health : SameHealth s.info r.2.2.info
  old : r.1 = false → r.2.1 = v
  new : r.1 = true → v.raidLevel = .stripe ∧ ∃ created : List DiskId, (∀ k ∈ created, k ∈ physical) ∧
    r.2.1.raidLevel = .stripe ∧ r.2.1.cacheEnabled = v.cacheEnabled ∧
    r.2.1.diskCount = v.diskCount + created.length ∧
    r.2.1.disks = fun i => if v.diskCount ≤ i ∧ i < v.diskCount + created.length then created[i - v.diskCount]?
      else v.disks i

theorem volumeExpand_expanded (dr : Drives) (env : ℕ → PoolEnv) (v : StripeVolume) (s : Pools) (physical : List DiskId)
    (args : List (Option (ℕ × ℕ))) : Expanded physical v s (volumeExpand dr env v s physical args) := by
  unfold volumeExpand
  split
  · exact ⟨SameHealth.refl _, fun _ => rfl, nofun⟩
  next hl =>
  have hl : v.raidLevel = .stripe := by simpa using hl
  simp only
  split
  · exact ⟨SameHealth.refl _, fun _ => rfl, nofun⟩
  have hh := growLoop_health dr env physical (selectDisks dr physical args) 0 [] s
  have hm := growLoop_created dr env physical (selectDisks dr physical args) (fun x hx => selectDisks_inside hx) 0 [] s nofun
  split
  · next he =>
    rw [he] at hh
    exact ⟨hh.trans (rollback_health dr env _ _ _), fun _ => rfl, nofun⟩
  next created t he =>
  rw [he] at hh hm
  split
  · exact ⟨hh.trans (rollback_health dr env _ _ _), fun _ => rfl, nofun⟩
  next w hw =>
  refine ⟨hh, nofun, fun _ => ⟨hl, created, hm, ?_⟩⟩
  unfold stripeVolumeExpand at hw
  split at hw
  · cases hw
  split at hw
  · cases hw
  obtain rfl := Option.some.inj hw
  exact ⟨hl, rfl, rfl, rfl⟩

theorem rebuildLoop_healthy (env : RebuildEnv) (src replacement : DiskId) (total fuel : ℕ) :
    ∀ (k : ℕ) (d : Disks) (buf : Buf) (i : DiskId),
      ((rebuildLoop env src replacement total fuel k d buf).2.info i).healthy = (d.info i).healthy := by
  induction fuel with
  | zero => intro k d buf i; rfl
  | succ fuel ih =>
    intro k d buf i
    unfold rebuildLoop
    simp only
    split
    · have hr := stripeReadRaw_spec (env.read k) d src buf (k * chunkSize) (minU64 (total - k * chunkSize) chunkSize)
      split
      · next he =>
        rw [he] at hr
        exact hr.healthy i
      next e buf' he =>
      rw [he] at hr
      have hw := stripeWriteRaw_spec (env.write k) e replacement buf' (k * chunkSize)
        (minU64 (total - k * chunkSize) chunkSize)
      split
      · next he =>
        rw [he] at hw
        exact (hw.healthy i).trans (hr.healthy i)
      · next he =>
        rw [he] at hw
        exact (ih _ _ _ i).trans ((hw.healthy i).trans (hr.healthy i))
    · rfl

/-- What the engine's rebuild leaves: the members and their flags as they were, or the
replacement in the place of the old disk. -/
structure Rebuilt (replacement : DiskId) (replaceIdx : ℕ) (v : StripeVolume) (d : Disks)
    (r : Bool × StripeVolume × Disks) : Prop where
  level : r.2.1.raidLevel = v.raidLevel
  count : r.2.1.diskCount = v.diskCount
  phases : r.2.1.phaseCount = v.phaseCount
  enabled : r.2.1.cacheEnabled = v.cacheEnabled
  old : r.1 = false → r.2.1.disks = v.disks ∧ (∀ k, (r.2.2.info k).healthy = (d.info k).healthy) ∧
    ((∀ i < v.diskCount, (d.info (v.diskAt i)).healthy = true → 0 < v.healthyCount) →
      r.2.1.healthyCount = v.healthyCount)
  new : r.1 = true → replaceIdx < v.diskCount ∧
    (r.2.1.disks = fun i => if i = replaceIdx then some replacement else v.disks i) ∧
    (r.2.1.healthyCount =
      (if (d.info (v.diskAt replaceIdx)).healthy then v.healthyCount - 1 else v.healthyCount) + 1) ∧
    ∀ k, (r.2.2.info k).healthy =
      if k = replacement then true else if k = v.diskAt replaceIdx then false else (d.info k).healthy

theorem mirrorVolumeRebuild_rebuilt (env : RebuildEnv) (v : StripeVolume) (d : Disks) (replacement : DiskId)
    (replaceIdx : ℕ) : Rebuilt replacement replaceIdx v d (mirrorVolumeRebuild env v d replacement replaceIdx) := by
  have hsame : Rebuilt replacement replaceIdx v d (false, v, d) :=
    ⟨rfl, rfl, rfl, rfl, fun _ => ⟨rfl, fun _ => rfl, fun _ => rfl⟩, nofun⟩
  unfold mirrorVolumeRebuild
  split
  · exact hsame
  next hg =>
  simp only [not_or, Nat.not_le] at hg
  split
  · exact hsame
  next srcIdx _ =>
  simp only
  generalize hold : v.diskAt replaceIdx = oldDisk
  have hdrop : dropMember v d oldDisk = (if (d.info oldDisk).healthy then
      { v with healthyCount := v.healthyCount - 1 } else v, setHealthy d oldDisk false) := rfl
  rw [hdrop]
  simp only
  generalize hv1 : (if (d.info oldDisk).healthy then { v with healthyCount := v.healthyCount - 1 } else v) = v1
  have hshape : v1.raidLevel = v.raidLevel ∧ v1.diskCount = v.diskCount ∧ v1.phaseCount = v.phaseCount ∧
      v1.cacheEnabled = v.cacheEnabled ∧ v1.disks = v.disks ∧
      v1.healthyCount = if (d.info oldDisk).healthy then v.healthyCount - 1 else v.healthyCount := by
    rw [← hv1]
    split <;> exact ⟨rfl, rfl, rfl, rfl, rfl, rfl⟩
  obtain ⟨h1, h2, h3, h4, h5, h6⟩ := hshape
  -- both ways back put the flag and the count as they were
  have hback : ∀ e : Disks, (∀ k, (e.info k).healthy = ((setHealthy d oldDisk false).info k).healthy) →
      Rebuilt replacement replaceIdx v d (false,
        if (d.info oldDisk).healthy then { v1 with healthyCount := v1.healthyCount + 1 } else v1,
        setHealthy e oldDisk (d.info oldDisk).healthy) := by
    intro e he
    have hflags : ∀ k, ((setHealthy e oldDisk (d.info oldDisk).healthy).info k).healthy = (d.info k).healthy := by
      intro k
      rw [setHealthy_info]
      split
      · next hk => rw [hk]
      · next hk => rw [he, setHealthy_info, if_neg hk]
    cases hh : (d.info oldDisk).healthy with
    | false =>
      rw [hh, if_neg Bool.false_ne_true] at h6
      rw [hh] at hflags
      exact ⟨h1, h2, h3, h4, fun _ => ⟨h5, hflags, fun _ => h6⟩, nofun⟩
    | true =>
      rw [hh, if_pos rfl] at h6
      rw [hh] at hflags
      refine ⟨h1, h2, h3, h4, fun _ => ⟨h5, hflags, fun hpos => ?_⟩, nofun⟩
      have hc := hpos replaceIdx hg.1 (by rw [hold, hh])
      simp only [if_true, h6]
      omega
  split
  · exact hback (setHealthy d oldDisk false) fun _ => rfl
  have hloop := rebuildLoop_healthy env (v1.diskAt srcIdx) replacement v.virtualTotalBytes
    (v.virtualTotalBytes / chunkSize + 1) 0 (setHealthy d oldDisk false) fun _ => 0
  generalize rebuildLoop env (v1.diskAt srcIdx) replacement v.virtualTotalBytes
    (v.virtualTotalBytes / chunkSize + 1) 0 (setHealthy d oldDisk false) (fun _ => 0) = r at hloop
  obtain ⟨copied, e⟩ := r
  simp only at hloop ⊢
  split
  · refine ⟨h1, h2, h3, h4, nofun, fun _ => ⟨hg.1, by rw [← h5], ?_, fun k => ?_⟩⟩
    · rw [hold]
      exact congrArg (· + 1) h6
    · rw [setHealthy_info, hold]
      split
      · rfl
      · rw [hloop, setHealthy_info]
  · exact hback e hloop

/-- `volume_rebuild` goes through the engine with the pool of the new disk open, or leaves the
volume alone. -/
theorem volumeRebuild_rebuilt (dr : Drives) (env : PoolEnv) (renv : RebuildEnv) (v : StripeVolume) (s : Pools)
    (physical : List DiskId) (replaceIdx newDiskId poolMb : ℕ) :
    let r := volumeRebuild dr env renv v s physical replaceIdx newDiskId poolMb
    r.1 = false ∧ r.2.1 = v ∧ SameHealth s.info r.2.2.info ∨
      newDiskId < physical.length ∧ ∃ t : Pools, SameHealth s.info t.info ∧
        r.1 = (mirrorVolumeRebuild renv v (t.disks dr) (physical.getD newDiskId 0) replaceIdx).1 ∧
        r.2.1 = (mirrorVolumeRebuild renv v (t.disks dr) (physical.getD newDiskId 0) replaceIdx).2.1 ∧
        SameHealth (mirrorVolumeRebuild renv v (t.disks dr) (physical.getD newDiskId 0) replaceIdx).2.2.info
          r.2.2.info := by
  simp only
  unfold volumeRebuild
  split
  · exact Or.inl ⟨rfl, rfl, SameHealth.refl _⟩
  next hg =>
  simp only [not_or, Nat.not_le] at hg
  simp only
  generalize u64 (poolMb * mib) = size
  generalize physical.getD newDiskId 0 = newDisk
  split
  · exact Or.inl ⟨rfl, rfl, SameHealth.refl _⟩
  have hc := poolFileCreate_health dr env s newDisk size
  generalize poolFileCreate dr env s newDisk size = r at hc
  obtain ⟨ok, s1⟩ := r
  cases ok with
  | false => exact Or.inl ⟨rfl, rfl, hc⟩
  | true =>
  have ho := poolFileOpen_health dr env s1 newDisk
  simp only
  generalize poolFileOpen dr env s1 newDisk = r at ho
  obtain ⟨ok, s2⟩ := r
  cases ok with
  | false => exact Or.inl ⟨rfl, rfl, (hc.trans ho).trans (poolFileDelete_health dr _ _ _)⟩
  | true =>
  refine Or.inr ⟨hg.2.2, s2, hc.trans ho, ?_⟩
  have hstore : ∀ d : Disks, (s2.store dr d newDisk).info = d.info := by
    intro d
    unfold Pools.store
    simp only
    split <;> rfl
  simp only
  generalize mirrorVolumeRebuild renv v (s2.disks dr) newDisk replaceIdx = r
  obtain ⟨ok, w, d⟩ := r
  cases ok with
  | false =>
    refine ⟨rfl, rfl, ?_⟩
    have hback := (poolFileClose_health (s2.store dr d newDisk) newDisk).trans (poolFileDelete_health dr env _ newDisk)
    rw [hstore] at hback
    exact hback
  | true =>
    refine ⟨rfl, rfl, ?_⟩
    simp only
    rw [hstore]
    exact SameHealth.refl _

/-! ### Transfers -/

/-- A transfer leaves the layout and the switch of the cache. -/
structure SameVolume (v w : StripeVolume) : Prop where
  layout : SameLayout v w
  enabled : w.cacheEnabled = v.cacheEnabled

theorem SameVolume.refl (v : StripeVolume) : SameVolume v v := ⟨SameLayout.refl v, rfl⟩

theorem SameVolume.trans {u v w : StripeVolume} (h : SameVolume u v) (g : SameVolume v w) : SameVolume u w :=
  ⟨h.layout.trans g.layout, g.enabled.trans h.enabled⟩

theorem sameVolume_cache (v : StripeVolume) (cache : RamCache) : SameVolume v { v with cache := cache } :=
  ⟨sameLayout_cache v cache, rfl⟩

theorem sameVolume_addRead (v : StripeVolume) (ok : Bool) (length : ℕ) : SameVolume v (addRead v ok length) :=
  ⟨sameLayout_addRead v ok length, addRead_cacheEnabled v ok length⟩

theorem sameVolume_addWritten (v : StripeVolume) (ok : Bool) (length : ℕ) : SameVolume v (addWritten v ok length) :=
  ⟨sameLayout_addWritten v ok length, addWritten_cacheEnabled v ok length⟩

theorem sameVolume_read (v : StripeVolume) (n : ℕ) : SameVolume v { v with bytesRead := n } :=
  ⟨⟨rfl, rfl, rfl, rfl, rfl, rfl, rfl, rfl⟩, rfl⟩

theorem mirrorVolumeRead_volume (io : IoEnv) (v : StripeVolume) (d : Disks) (buffer : Buf) (offset length : ℕ) :
    SameVolume v (mirrorVolumeRead io v d buffer offset length).2.1 := by
  unfold mirrorVolumeRead
  split
  · exact SameVolume.refl v
  split
  · generalize cacheRead v.cache buffer offset length = c
    obtain ⟨ok, out, cache⟩ := c
    cases ok with
    | true => exact (sameVolume_cache v cache).trans (sameVolume_read _ _)
    | false => exact sameVolume_cache v cache
  · have h := (mirrorReadLoop_spec io offset length v.diskCount 0 v d buffer).volume
    exact ⟨h.layout, h.enabled⟩

theorem mirrorVolumeWrite_volume (io : IoEnv) (v : StripeVolume) (d : Disks) (buffer : Buf) (offset length : ℕ) :
    SameVolume v (mirrorVolumeWrite io v d buffer offset length).2.1 := by
  refine ⟨mirrorVolumeWrite_layout io v d buffer offset length, ?_⟩
  have hall : ∀ w, (mirrorWriteToAll io w d buffer offset length).2.1.cacheEnabled = w.cacheEnabled := by
    intro w
    rcases mirrorWriteToAll_spec io w d buffer offset length with ⟨_, he⟩ | ⟨_, h⟩
    · rw [he]
    · exact h.volume.enabled
  unfold mirrorVolumeWrite
  split
  · rfl
  split
  · generalize cacheWrite v.cache buffer offset length = c
    obtain ⟨ok, cache⟩ := c
    simp only
    split
    · have hw := hall { v with cache := cache }
      generalize mirrorWriteToAll io { v with cache := cache } d buffer offset length = r at hw
      obtain ⟨any, w, e⟩ := r
      cases any with
      | true => exact hw
      | false => exact hw
    · cases ok with
      | true => rfl
      | false => rfl
  · have hw := hall v
    generalize mirrorWriteToAll io v d buffer offset length = r at hw
    obtain ⟨any, w, e⟩ := r
    cases any with
    | true => exact hw
    | false => exact hw

theorem readDirect_volume {io : IoEnv} {v : StripeVolume} {d : Disks} {buffer : Buf} {vo length : ℕ}
    {r : Bool × StripeVolume × Disks × Buf} (h : readDirect io v d buffer vo length = some r) : SameVolume v r.2.1 := by
  unfold readDirect at h
  split at h
  · obtain rfl := Option.some.inj h
    exact SameVolume.refl v
  split at h
  · cases h
  · obtain rfl := Option.some.inj h
    exact sameVolume_addRead v _ length

theorem stripeVolumeRead_volume {io : IoEnv} {v : StripeVolume} {d : Disks} {buffer : Buf} {vo length : ℕ}
    {r : Bool × StripeVolume × Disks × Buf} (h : stripeVolumeRead io v d buffer vo length = some r) :
    SameVolume v r.2.1 := by
  unfold stripeVolumeRead at h
  split at h
  · obtain rfl := Option.some.inj h
    exact SameVolume.refl v
  split at h
  · obtain rfl := Option.some.inj h
    exact (mirrorVolumeRead_volume io v d buffer vo length).trans (sameVolume_addRead _ _ length)
  split at h
  · split at h
    · obtain rfl := Option.some.inj h
      exact (sameVolume_cache v _).trans (sameVolume_addRead _ true length)
    · exact (sameVolume_cache v _).trans (readDirect_volume h)
  · exact readDirect_volume h

theorem stripeVolumeWrite_volume {io : IoEnv} {v : StripeVolume} {d : Disks} {buffer : Buf} {vo length : ℕ}
    {r : Bool × StripeVolume × Disks} (h : stripeVolumeWrite io v d buffer vo length = some r) :
    SameVolume v r.2.1 := by
  have hdirect : ∀ {r : Bool × StripeVolume × Disks}, writeDirect io v d buffer vo length = some r →
      SameVolume v r.2.1 := by
    intro r h
    unfold writeDirect at h
    split at h
    · obtain rfl := Option.some.inj h
      exact SameVolume.refl v
    split at h
    · cases h
    · obtain rfl := Option.some.inj h
      exact sameVolume_addWritten v _ length
  have hstore : ∀ (cache : RamCache) b, SameVolume v (addWritten { v with cache := cache } b length) := fun cache b =>
    (sameVolume_cache v cache).trans (sameVolume_addWritten _ b length)
  unfold stripeVolumeWrite at h
  split at h
  · obtain rfl := Option.some.inj h
    exact SameVolume.refl v
  split at h
  · obtain rfl := Option.some.inj h
    exact (mirrorVolumeWrite_volume io v d buffer vo length).trans (sameVolume_addWritten _ _ length)
  split at h
  · unfold writeCached at h
    split at h
    · split at h
      · obtain rfl := Option.some.inj h
        exact SameVolume.refl v
      split at h
      · cases h
      · obtain rfl := Option.some.inj h
        exact SameVolume.refl v
      · obtain rfl := Option.some.inj h
        exact hstore _ _
    · obtain rfl := Option.some.inj h
      exact hstore _ _
  · exact hdirect h

/-! ### A load -/

/-- A load that ends with the record of the volume cleared and some of its pools open. -/
structure FailsHalfway (env : LoadEnv) (sb : Superblock) : Prop where
  found : env.superblock = some sb
  least : minDisks ≤ sb.diskCount
  most : sb.diskCount ≤ maxDisks
  closed : openedPools env.opens sb.diskCount ≠ sb.diskCount

/-- What a load leaves: the volume it found; or the one the superblock describes, with a
superblock it accepts and whether or not all pools open. -/
structure Loaded (a : LoadArgs) (s : Session) (r : Bool × Session) : Prop where
  state : r.2.app = { s.app with sys := r.2.app.sys }
  old : r.1 = false → r.2.disks = s.disks ∧ (r.2.app.sys.v = s.app.sys.v ∧ r.2.app.sys.d = s.app.sys.d ∨
    ∃ sb, FailsHalfway a.env sb ∧
      r.2.app.sys.v = restoreVolume sb (openedPools a.env.opens sb.diskCount) a.disksOut ∧
      r.2.app.sys.d.info = restoreInfo sb (openedPools a.env.opens sb.diskCount) a.disksOut s.app.sys.d.info)
  new : r.1 = true → ∃ sb, Restores a.env sb ∧ r.2.app.sys.v.cacheEnabled = false ∧
    SameLayout (restoreVolume sb sb.diskCount a.disksOut) r.2.app.sys.v ∧
    r.2.disks = (List.range sb.diskCount).map a.disksOut

theorem load_loaded {a : LoadArgs} {s : Session} {r : Bool × Session} (h : s.load a = some r) : Loaded a s r := by
  unfold Session.load at h
  obtain ⟨⟨ok, v, d, files⟩, hload, rfl⟩ := Option.map_eq_some_iff.mp h
  clear h
  unfold volumeLoad at hload
  split at hload
  · simp only [Option.some.injEq, Prod.mk.injEq] at hload
    obtain ⟨rfl, rfl, rfl, _⟩ := hload
    exact ⟨rfl, fun _ => ⟨rfl, Or.inl ⟨rfl, rfl⟩⟩, nofun⟩
  next sb hsb =>
  unfold superblockRestore at hload
  split at hload
  · next w e heq =>
    simp only [Option.some.injEq, Prod.mk.injEq] at hload
    obtain ⟨rfl, rfl, rfl, _⟩ := hload
    refine ⟨rfl, fun _ => ⟨rfl, ?_⟩, nofun⟩
    split at heq
    · simp only [Prod.mk.injEq] at heq
      exact Or.inl ⟨heq.2.1.symm, heq.2.2.symm⟩
    · next hn =>
      simp only [not_or, Nat.not_lt] at hn
      simp only [Prod.mk.injEq, decide_eq_false_iff_not] at heq
      obtain ⟨hne, rfl, rfl⟩ := heq
      exact Or.inr ⟨sb, ⟨hsb, hn.1, hn.2, hne⟩, rfl, rfl⟩
  next w e heq =>
  split at heq
  · cases heq
  next hn =>
  simp only [not_or, Nat.not_lt] at hn
  simp only [Prod.mk.injEq, decide_eq_true_eq] at heq
  obtain ⟨hall, rfl, rfl⟩ := heq
  rw [hall] at hload
  split at hload
  · cases hload
  next clean u f files' hrec =>
  simp only [Option.some.injEq, Prod.mk.injEq] at hload
  obtain ⟨rfl, rfl, rfl, _⟩ := hload
  have hkeeps := journalRecoverAll_keeps (P := fun w _ => SameVolume (restoreVolume sb sb.diskCount a.disksOut) w)
    (fun io v d buffer off len ok w e hv hw => hv.trans (stripeVolumeWrite_volume hw)) (SameVolume.refl _) hrec
  have hcount : u.diskCount = sb.diskCount := hkeeps.layout.diskCount
  refine ⟨rfl, nofun, fun _ => ⟨sb, ⟨hsb, hn.1, hn.2, fun i hi => ?_⟩, hkeeps.enabled, hkeeps.layout, ?_⟩⟩
  · unfold openedPools at hall
    have hnone := List.findIdx_eq_length.mp (hall.trans List.length_range.symm) i (List.mem_range.mpr hi)
    simpa using hnone
  · simp only [if_true, hcount]

end RaidTest.Service
