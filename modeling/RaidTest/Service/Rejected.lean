import RaidTest.Service.Agreement

/-!
# An `init` that is rejected

In the state UNMOUNTED `init` deletes the pools and the superblocks of the last volume, and it
does so before it has read its arguments.
-/

namespace RaidTest.Service
open RaidTest.Base RaidTest.Stripe RaidTest.Mirror RaidTest.Cache RaidTest.Journal RaidTest.Volume

/-- The files of the drives: the pools, `superblock.dat` and `journal.dat`. -/
structure DriveFiles where
  pool : Path → Option PoolFile
  superblock : Letter → Option (List Byte)
  journal : Letter → Option (List Byte)

/-- The second loop of `cleanup_pool_session`, from member number `i` on; `deletes i` tells
whether `DeleteFileW` succeeds. The directories stay while there is a file in them. -/
def deleteSuperblocks (tag : DiskId → DiskTag) (deletes : ℕ → Bool) :
    ℕ → List DiskId → (Letter → Option (List Byte)) → Letter → Option (List Byte)
  | _, [], superblock => superblock
  | i, k :: disks, superblock =>
    deleteSuperblocks tag deletes (i + 1) disks
      (if deletes i then fun l => if l = (tag k).letter then none else superblock l else superblock)

/-- `raid_init_pools_locked` from the reading of the arguments on, with the pools it leaves. -/
def initPoolsPicked (env : InitEnv) (args : List PoolArg) (c : Console) (s : Pools) : RC × Console × Pools :=
  match initPoolsPick args c with
  | (.ok, pp, c) =>
    if pp.length < minDisks ∨ maxDisks < pp.length then (.errInvalidArg, c.withDisks (s.disks c.drives), s)
    else
      match initPoolsCreateFiles c.drives env.pool c.devices 0 pp [] s with
      | (.ok, made, s) =>
        if made.length < minDisks then (.errIo, c.withMade (made.map Prod.fst) made s, s)
        else (.ok, (c.withMade (made.map Prod.fst) made s).withState .initialized, s)
      | (.errRollback, made, s) => (.errRollback, c.withMade [] made s, s)
      | (rc, made, s) => (rc, c.withMade (made.map Prod.fst) made s, s)
  | (rc, _, c) => (rc, c.withDisks (s.disks c.drives), s)

/-- `raid_init_pools_locked` with the files it leaves. -/
def raidInitPoolsFiles (env : InitEnv) (deletes : ℕ → Bool) (args : List PoolArg) (c : Console) (f : DriveFiles) :
    RC × Console × DriveFiles :=
  if c.app.state ≠ .discovered ∧ c.app.state ≠ .unmounted then (.errInvalidState, c, f)
  else if c.devices = [] then (.errInvalidState, c, f)
  else if c.app.state = .unmounted then
    let superblock := deleteSuperblocks c.tag deletes 0 c.session.disks f.superblock
    let (c, s) := c.cleanupPoolSession env.old ⟨c.info, f.pool⟩
    let (rc, c, s) := initPoolsPicked env args c s
    (rc, c, ⟨s.file, superblock, f.journal⟩)
  else
    let (rc, c, s) := initPoolsPicked env args c ⟨c.info, f.pool⟩
    (rc, c, ⟨s.file, f.superblock, f.journal⟩)

theorem raidInitPools_picked (env : InitEnv) (args : List PoolArg) (c : Console) : raidInitPools env args c =
    if c.app.state ≠ .discovered ∧ c.app.state ≠ .unmounted then (.errInvalidState, c)
    else if c.devices = [] then (.errInvalidState, c)
    else
      let r := if c.app.state = .unmounted then c.cleanupPoolSession env.old ⟨c.info, env.file⟩
        else (c, ⟨c.info, env.file⟩)
      ((initPoolsPicked env args r.1 r.2).1, (initPoolsPicked env args r.1 r.2).2.1) := by
  unfold raidInitPools initPoolsPicked
  split
  · rfl
  split
  · rfl
  simp only
  generalize (if c.app.state = .unmounted then c.cleanupPoolSession env.old ⟨c.info, env.file⟩
    else (c, ⟨c.info, env.file⟩)) = r
  obtain ⟨u, s⟩ := r
  simp only
  generalize initPoolsPick args u = p
  obtain ⟨rc, pp, w⟩ := p
  cases rc with
  | ok =>
    simp only
    split
    · rfl
    generalize initPoolsCreateFiles w.drives env.pool w.devices 0 pp [] s = m
    obtain ⟨rc, made, t⟩ := m
    cases rc with
    | ok =>
      simp only
      split <;> rfl
    | _ => rfl
  | _ => rfl

/-- It is the command of the service on these pool files. -/
theorem raidInitPoolsFiles_service (env : InitEnv) (deletes : ℕ → Bool) (args : List PoolArg) (c : Console)
    (f : DriveFiles) : raidInitPools { env with file := f.pool } args c =
      ((raidInitPoolsFiles env deletes args c f).1, (raidInitPoolsFiles env deletes args c f).2.1) := by
  rw [raidInitPools_picked]
  unfold raidInitPoolsFiles
  split
  · rfl
  split
  · rfl
  split
  · rfl
  · rfl

/-! ### What is rejected -/

/-- The codes of a rejected command. -/
def RC.rejects : RC → Bool
  | .errInvalidArg | .errInvalidDisk | .errInvalidState => true
  | _ => false

theorem fromPairs_range {args : List PoolArg} {pp pp' : List (ℕ × ℕ)} {c t : Console}
    (h : initPoolsFromPairs args pp c = (.ok, pp', t)) (hpp : ∀ x ∈ pp, x.1 < c.devices.length) :
    ∀ x ∈ pp', x.1 < c.devices.length := by
  induction args generalizing pp c with
  | nil =>
    obtain ⟨rfl, rfl⟩ := Prod.mk.inj (Prod.mk.inj h).2
    exact hpp
  | cons arg args ih =>
    unfold initPoolsFromPairs at h
    split at h
    · obtain ⟨rfl, rfl⟩ := Prod.mk.inj (Prod.mk.inj h).2
      exact hpp
    split at h
    · cases h
    · cases h
    · cases h
    next di mb =>
    split at h
    · cases h
    split at h
    · cases h
    next hdi =>
    split at h
    · cases h
    have hsame := (ensureDriveMapped_remapped di c).devices
    generalize ensureDriveMapped di c = r at h hsame
    obtain ⟨rc, u⟩ := r
    cases rc with
    | ok =>
      rw [← show u.devices = c.devices from hsame]
      apply ih h
      intro x hx
      rw [show u.devices = c.devices from hsame]
      rcases List.mem_append.mp hx with hx | hx
      · exact hpp x hx
      · rw [List.mem_singleton.mp hx]
        exact Nat.not_le.mp hdi
    | _ => cases h

theorem checkIds_range {count : ℕ} {args : List (Option ℕ)} {ids : List ℕ} (h : checkIds count args = .ok ids) :
    ∀ id ∈ ids, id < count := by
  induction args generalizing ids with
  | nil =>
    obtain rfl := Except.ok.inj h
    nofun
  | cons arg args ih =>
    cases arg with
    | none => cases h
    | some id =>
      unfold checkIds at h
      split at h
      · cases h
      next hid =>
      cases hc : checkIds count args with
      | error rc =>
        rw [hc] at h
        cases h
      | ok ids' =>
        rw [hc] at h
        obtain rfl := Except.ok.inj h
        intro x hx
        rcases List.mem_cons.mp hx with rfl | hx
        · exact Nat.not_le.mp hid
        · exact ih hc x hx

theorem fromIds_range {args : List PoolArg} {c t : Console} {pp : List (ℕ × ℕ)}
    (h : initPoolsFromIds args c = (.ok, pp, t)) : ∀ x ∈ pp, x.1 < c.devices.length := by
  unfold initPoolsFromIds at h
  split at h
  · next rc hids =>
    rw [(Prod.mk.inj h).1] at hids
    exact (checkIds_error hids).elim
  · next ids hids =>
    obtain ⟨rfl, _⟩ := Prod.mk.inj (Prod.mk.inj h).2
    intro x hx
    obtain ⟨y, hy, rfl⟩ := List.mem_map.mp hx
    exact checkIds_range hids y.1 (List.fst_mem_of_mem_zipIdx hy)

theorem fromSelected_range {size : ℕ → ℕ} {c t : Console} {pp : List (ℕ × ℕ)}
    (h : initPoolsSelected size c = (.ok, pp, t)) : ∀ x ∈ pp, x.1 < c.devices.length := by
  intro x hx
  have hmem := List.mem_map_of_mem (f := Prod.fst) hx
  rw [fromSelected_picked h] at hmem
  exact List.mem_range.mp (List.mem_filter.mp (List.mem_of_mem_take hmem)).1

/-- The numbers that are picked are those of disks. -/
theorem pick_range {args : List PoolArg} {c t : Console} {pp : List (ℕ × ℕ)}
    (h : initPoolsPick args c = (.ok, pp, t)) : ∀ x ∈ pp, x.1 < t.devices.length := by
  have hsame := (pick_remapped args c).devices
  rw [h] at hsame
  rw [show t.devices = c.devices from hsame]
  unfold initPoolsPick at h
  split at h
  · exact fromPairs_range h nofun
  split at h
  · exact fromSelected_range h
  · split at h
    · split at h
      · exact fromSelected_range h
      · cases h
    · exact fromIds_range h
  · exact fromIds_range h

/-- Once the disks are picked only a file can fail. -/
theorem createFiles_rejects {dr : Drives} {env : ℕ → PoolEnv} {devices : List DiskId} {pp : List (ℕ × ℕ)}
    (hpp : ∀ x ∈ pp, x.1 < devices.length) (i : ℕ) (made : List (DiskId × ℕ)) (s : Pools) :
    (initPoolsCreateFiles dr env devices i pp made s).1.rejects = false := by
  induction pp generalizing i made s with
  | nil => rfl
  | cons x pp ih =>
    obtain ⟨di, mb⟩ := x
    have hdi := hpp (di, mb) (List.mem_cons_self ..)
    have hrest := fun y hy => hpp y (List.mem_cons_of_mem (di, mb) hy)
    unfold initPoolsCreateFiles
    rw [if_neg (Nat.not_le.mpr hdi)]
    simp only
    split
    · exact ih hrest _ _ _
    · split
      · exact ih hrest _ _ _
      · rfl

theorem initPoolsPicked_rejects (env : InitEnv) (args : List PoolArg) (c : Console) (s : Pools)
    (h : (initPoolsPicked env args c s).1.rejects = true) :
    (initPoolsPicked env args c s).2.1.session.disks = c.session.disks ∧ (initPoolsPicked env args c s).2.2 = s := by
  have hsame := (pick_remapped args c).session
  unfold initPoolsPicked at h ⊢
  cases hpick : initPoolsPick args c with
  | mk rc r =>
    obtain ⟨pp, w⟩ := r
    rw [hpick] at h hsame
    have hdisks : w.session.disks = c.session.disks := congrArg Session.disks hsame
    cases rc with
    | ok =>
      simp only at h ⊢
      split
      · exact ⟨hdisks, rfl⟩
      next hcount =>
      rw [if_neg hcount] at h
      have hfiles : (initPoolsCreateFiles w.drives env.pool w.devices 0 pp [] s).1.rejects = false :=
        createFiles_rejects (pick_range hpick) 0 [] s
      generalize initPoolsCreateFiles w.drives env.pool w.devices 0 pp [] s = m at h hfiles
      obtain ⟨rc, made, t⟩ := m
      cases rc with
      | ok =>
        simp only at h
        split at h
        · cases h
        · cases h
      | errInvalidArg | errInvalidDisk | errInvalidState => cases hfiles
      | _ => cases h
    | _ => exact ⟨hdisks, rfl⟩

/-- An `init` that is rejected leaves the files and the members alone, unless the state is
UNMOUNTED and there is a member. -/
theorem raidInitPools_rejected (env : InitEnv) (deletes : ℕ → Bool) (args : List PoolArg) (c : Console) (f : DriveFiles)
    (hrc : (raidInitPoolsFiles env deletes args c f).1.rejects = true) :
    ((raidInitPoolsFiles env deletes args c f).2.2 = f ∧
      (raidInitPoolsFiles env deletes args c f).2.1.session.disks = c.session.disks) ↔
    ¬ (c.app.state = .unmounted ∧ c.devices ≠ [] ∧ c.session.disks ≠ []) := by
  unfold raidInitPoolsFiles at hrc ⊢
  split
  · next hstate => exact ⟨fun _ h => hstate.2 h.1, fun _ => ⟨rfl, rfl⟩⟩
  next hstate =>
  rw [if_neg hstate] at hrc
  split
  · next hnone => exact ⟨fun _ h => h.2.1 hnone, fun _ => ⟨rfl, rfl⟩⟩
  next hsome =>
  rw [if_neg hsome] at hrc
  split
  · next hu =>
    rw [if_pos hu] at hrc
    obtain ⟨hdisks, hpools⟩ := initPoolsPicked_rejects _ _ _ _ hrc
    constructor
    · rintro ⟨_, hkept⟩ ⟨_, _, hmembers⟩
      exact hmembers (hkept.symm.trans hdisks)
    · intro hnot
      have hempty : c.session.disks = [] := by
        by_contra hmembers
        exact hnot ⟨hu, hsome, hmembers⟩
      refine ⟨?_, hdisks.trans hempty.symm⟩
      simp only
      rw [hpools, hempty]
      simp only [Console.cleanupPoolSession, hempty, rollback, deleteSuperblocks]
  · next hu =>
    rw [if_neg hu] at hrc
    obtain ⟨hdisks, hpools⟩ := initPoolsPicked_rejects _ _ _ _ hrc
    refine ⟨fun _ h => hu h.1, fun _ => ⟨?_, hdisks⟩⟩
    simp only [hpools]

/-- Every drive with a pool, a superblock and a journal. -/
def fullDrives : DriveFiles := ⟨fun _ => some ⟨1073741824, fun _ => 0⟩, fun _ => some [0], fun _ => some [0]⟩

/-- After an unmount, `init x` deletes the pools and the superblocks and then rejects `x`. -/
theorem raidInitPools_rejected_fails : ∃ t rc u f, run Console.step emptyConsole
      [.scan twoDrives, twoPools, .create goodCreate, .unmount fun _ => .good] = some t ∧
    raidInitPoolsFiles freshPools (fun _ => true) [.plain none none] t fullDrives = (rc, u, f) ∧
    rc = .errInvalidArg ∧ t.session.disks = [4, 5] ∧ u.session.disks = [] ∧
    [67, 68].map f.pool = [none, none] ∧ [67, 68].map f.superblock = [none, none] :=
  ⟨_, _, _, _, rfl, rfl, rfl, rfl, rfl, rfl, rfl⟩

theorem raidInitPools_rejected_sample :
    (raidInitPoolsFiles freshPools (fun _ => true) [.plain none none] (raidScan twoDrives emptyConsole).2 fullDrives).2.2 =
      fullDrives :=
  ((raidInitPools_rejected freshPools (fun _ => true) [.plain none none] (raidScan twoDrives emptyConsole).2 fullDrives
    rfl).mpr fun h => by cases h.1).1

end RaidTest.Service
