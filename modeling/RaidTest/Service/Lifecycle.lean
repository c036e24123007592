import RaidTest.Service.Teardown
import RaidTest.Volume.Grow
import RaidTest.Volume.Load

/-!
# The life of a volume (`raid_service.c`, `main.c`)

A volume gets its workers when it is created, and `--mount` starts them after its load. The
`load` command does not, and an expansion adds members to the volume without adding workers
to the array.
-/

namespace RaidTest.Service
open RaidTest.Base RaidTest.Stripe RaidTest.Mirror RaidTest.Cache RaidTest.Journal RaidTest.Volume

/-! ### The commands -/

/-- `APP_STATE` with the disks picked for the volume. -/
structure Session where
  app : AppState
  disks : List DiskId

def Session.volume (s : Session) : StripeVolume := s.app.sys.v

def Session.start (d : Disks) : Session :=
  ⟨⟨⟨.zero, d, .idle, .thread, false⟩, false, false, 0, false, false, .disconnected⟩, []⟩

def setHandle (h : Bool) (d : Disks) (i : DiskId) : Disks := d.setInfo i { d.info i with hasHandle := h }

/-- The answers to one `volume_create`: the flush of the old volume's cache, whether the pool
files open, whether events and threads can be created. -/
structure CreateEnv where
  flush : ℕ → BatchEnv
  opens : ℕ → Bool
  workers : Bool

/-- `volume_create`, without the superblock it writes at the end. -/
def volumeCreate (env : CreateEnv) (disks : List DiskId) (s : System) : Bool × System :=
  let s := stripeVolumeDestroy (cleanupVolumeCache env.flush s)
  let n := openedPools env.opens disks.length
  let d := (disks.take n).foldl (setHandle true) s.d
  if n < disks.length then (false, { s with d := (disks.take (n + 1)).foldl (setHandle false) d })
  else
    match stripeVolumeCreate d disks defaultStripeUnit with
    | none => (false, { s with d := disks.foldl (setHandle false) d })
    | some v =>
      match if env.workers then stripeVolumeWorkersInit v else none with
      | none => (false, { s with v := v, d := disks.foldl (setHandle false) d })
      | some w => (true, { s with v := w, d := d })

/-- `raid_create`. -/
def raidCreate (env : CreateEnv) (s : Session) : Session :=
  if s.app.state ≠ .initialized ∨ s.disks.length < minDisks then s
  else
    match volumeCreate env s.disks s.app.sys with
    | (false, sys) => { s with app := { s.app with sys := sys } }
    | (true, sys) => { s with app := { s.app with
        sys := sys, volumeValid := true, state := .mounted, cacheOn := false, flushThread := false } }

/-- What a load finds: the superblock and the pool files, the drives of the disk records it
makes, and their journals. -/
structure LoadArgs where
  env : LoadEnv
  letter : DiskId → Letter
  disksOut : ℕ → DiskId
  files : Files

def Session.load (s : Session) (a : LoadArgs) : Option (Bool × Session) :=
  (volumeLoad a.env a.letter a.disksOut s.volume s.app.sys.d a.files).map fun (ok, v, d, _) =>
    (ok, { app := { s.app with sys := { s.app.sys with v := v, d := d } },
           disks := if ok then (List.range v.diskCount).map a.disksOut else s.disks })

/-- `raid_load`. -/
def raidLoad (a : LoadArgs) (s : Session) : Option Session :=
  if s.app.state ≠ .unmounted ∧ s.app.state ≠ .discovered then some s
  else
    (s.load a).map fun (ok, s) =>
      if ok then { s with app := { s.app with volumeValid := true, state := .mounted } } else s

/-- `volume_cache_enable`. -/
def volumeCacheEnable (m : CacheAlloc) (thread : Bool) (mb : ℕ) (s : AppState) : AppState :=
  match cacheInit m s.sys.v.cache (mb * 1024 * 1024) with
  | (false, cache) => { s with sys := { s.sys with v := { s.sys.v with cache := cache } } }
  | (true, cache) => { s with
      sys := { s.sys with v := { s.sys.v with cache := { cache with flushThread := thread }, cacheEnabled := true } }
      cacheOn := true, cacheMb := mb, flushThread := thread }

/-- What `--mount` meets after the load: the cache it enables when the superblock has a
generation, whether events and threads can be created, whether WinFsp mounts. -/
structure StartEnv where
  cache : Option (CacheAlloc × Bool)
  workers : Bool
  fuse : Bool

/-- `stripe_volume_workers_init` as `--mount` calls it: a failure is only logged. -/
def startWorkers (workers : Bool) (v : StripeVolume) : StripeVolume :=
  if v.raidLevel = .stripe ∧ workers then (stripeVolumeWorkersInit v).getD v else v

/-- `main` with `--mount`, before any command. -/
def mainMount (env : StartEnv) (a : LoadArgs) (s : Session) : Option Session :=
  if s.app.state ≠ .disconnected then some s
  else
    (s.load a).map fun (ok, s) =>
      if ok then
        let app := { s.app with volumeValid := true }
        let app := match env.cache with
          | none => app
          | some (m, thread) => volumeCacheEnable m thread cacheDefaultMb app
        { s with app := { app with
            sys := { app.sys with v := startWorkers env.workers app.sys.v }
            state := .mounted
            mounted := env.fuse } }
      else s

/-- `raid_expand`; `file` are the pool files it finds. -/
def raidExpand (dr : Drives) (env : ℕ → PoolEnv) (file : Path → Option PoolFile) (physical : List DiskId)
    (args : List (Option (ℕ × ℕ))) (s : Session) : Session :=
  if s.app.state ≠ .mounted then s
  else
    let (_, v, pools) := volumeExpand dr env s.volume ⟨s.app.sys.d.info, file⟩ physical args
    { s with app := { s.app with sys := { s.app.sys with v := v, d := pools.disks dr } } }

/-- `stripe_volume_workers_stop` does not run past the worker array. -/
def stopsInside (v : StripeVolume) : Bool :=
  match v.workerState with
  | none => true
  | some ws => decide (v.diskCount ≤ ws.length)

/-- The commands a volume is made, loaded, grown and given up with, and those between them. -/
inductive Op where
  | scan (found : Bool)
  | initPools (disks : List DiskId) (info : DiskId → DiskInfo)
  | create (env : CreateEnv)
  | load (a : LoadArgs)
  | mainMount (env : StartEnv) (a : LoadArgs)
  | expand (dr : Drives) (env : ℕ → PoolEnv) (file : Path → Option PoolFile) (physical : List DiskId)
      (args : List (Option (ℕ × ℕ)))
  | unmount (env : ℕ → BatchEnv)
  | destroy (env : ℕ → BatchEnv)

/-- One command. There is no result where the C code has none: the workers are stopped past
their array, or a scan frees the disk records of a volume that is up. -/
def Session.step (s : Session) : Op → Option Session
  | .scan found =>
    if s.app.volumeValid then none
    else some { s with app := { s.app with state := if found then .discovered else .disconnected } }
  | .initPools disks info =>
    if (s.app.state = .discovered ∨ s.app.state = .unmounted) ∧ minDisks ≤ disks.length then
      some ⟨{ s.app with sys := { s.app.sys with d := { s.app.sys.d with info := info } }, state := .initialized }, disks⟩
    else some s
  | .create env => if stopsInside s.volume then some (raidCreate env s) else none
  | .load a => raidLoad a s
  | .mainMount env a => Service.mainMount env a s
  | .expand dr env file physical args => some (raidExpand dr env file physical args s)
  | .unmount env => if stopsInside s.volume then some { s with app := (raidUnmount env s.app).2 } else none
  | .destroy env => if stopsInside s.volume then some { s with app := (raidDestroy env s.app).2 } else none

/-- A stripe volume the session takes requests for. -/
def Session.Accepted (s : Session) : Prop :=
  s.app.volumeValid = true ∧ s.app.state = .mounted ∧ s.volume.raidLevel = .stripe

/-- There is a worker for every member. -/
def Served (v : StripeVolume) : Prop := ∃ ws, v.workerState = some ws ∧ v.diskCount ≤ ws.length

/-! ### What the commands do to the workers -/

/-- The load goes through. -/
structure Restores (env : LoadEnv) (sb : Superblock) : Prop where
  found : env.superblock = some sb
  least : minDisks ≤ sb.diskCount
  most : sb.diskCount ≤ maxDisks
  opens : ∀ i < sb.diskCount, env.opens i = true

theorem volumeLoad_workers {env : LoadEnv} {letter : DiskId → Letter} {disksOut : ℕ → DiskId} {v w : StripeVolume}
    {d e : Disks} {files files' : Files} {ok : Bool}
    (h : volumeLoad env letter disksOut v d files = some (ok, w, e, files')) :
    (ok = true ↔ ∃ sb, Restores env sb) ∧
      (∀ sb, Restores env sb → SameLayout (restoreVolume sb sb.diskCount disksOut) w) ∧
      (w = v ∨ w.workerState = none) := by
  unfold volumeLoad at h
  cases hsb : env.superblock with
  | none =>
    rw [hsb] at h
    simp only [Option.some.injEq, Prod.mk.injEq] at h
    obtain ⟨rfl, rfl, _, _⟩ := h
    refine ⟨⟨nofun, fun ⟨sb, hr⟩ => ?_⟩, fun sb hr => ?_, Or.inl rfl⟩ <;>
    · have hf := hr.found
      rw [hsb] at hf
      cases hf
  | some sb =>
    have hsame : ∀ sb', Restores env sb' → sb' = sb := fun sb' hr =>
      (Option.some.inj (hsb.symm.trans hr.found)).symm
    rw [hsb] at h
    simp only at h
    unfold superblockRestore at h
    split at h
    · next heq =>
      simp only [Option.some.injEq, Prod.mk.injEq] at h
      obtain ⟨rfl, rfl, _, _⟩ := h
      split at heq
      · next hn =>
        have hno : ∀ sb', ¬ Restores env sb' := by
          intro sb' hr
          obtain rfl := hsame sb' hr
          have h1 := hr.least
          have h2 := hr.most
          omega
        simp only [Prod.mk.injEq] at heq
        exact ⟨⟨nofun, fun ⟨sb', hr⟩ => absurd hr (hno sb')⟩, fun sb' hr => absurd hr (hno sb'), Or.inl heq.2.1.symm⟩
      · simp only [Prod.mk.injEq, decide_eq_false_iff_not] at heq
        have hno : ∀ sb', ¬ Restores env sb' := by
          intro sb' hr
          obtain rfl := hsame sb' hr
          exact heq.1 (openedPools_all hr.opens)
        refine ⟨⟨nofun, fun ⟨sb', hr⟩ => absurd hr (hno sb')⟩, fun sb' hr => absurd hr (hno sb'), Or.inr ?_⟩
        rw [← heq.2.1]
        rfl
    · next heq =>
      split at heq
      · cases heq
      next hn =>
      simp only [Prod.mk.injEq, decide_eq_true_eq] at heq
      obtain ⟨hall, rfl, _⟩ := heq
      have hr : Restores env sb := by
        simp only [not_or, Nat.not_lt] at hn
        refine ⟨hsb, hn.1, hn.2, fun i hi => ?_⟩
        unfold openedPools at hall
        have hnone := List.findIdx_eq_length.mp (hall.trans List.length_range.symm) i (List.mem_range.mpr hi)
        simpa using hnone
      split at h
      · cases h
      · next hrec =>
        simp only [Option.some.injEq, Prod.mk.injEq] at h
        obtain ⟨rfl, rfl, _, _⟩ := h
        rw [hall] at hrec
        have hl := journalRecoverAll_keeps (P := fun w _ => SameLayout (restoreVolume sb sb.diskCount disksOut) w)
          (fun io v d buffer off len ok w e hv hw => hv.trans (stripeVolumeWrite_layout hw)) (SameLayout.refl _) hrec
        refine ⟨⟨fun _ => ⟨sb, hr⟩, fun _ => rfl⟩, fun sb' hr' => ?_, Or.inr (hl.workers.trans rfl)⟩
        obtain rfl := hsame sb' hr'
        exact hl

/-- Every argument leads to a new pool file that can be made and opened. -/
def growable (dr : Drives) (env : ℕ → PoolEnv) (physical : List DiskId) : List (ℕ × ℕ) → ℕ → Bool
  | [], _ => true
  | (id, mb) :: sel, i =>
    let disk := physical.getD id 0
    dr.letter disk && validatePoolSize (mb * mib) && (dr.path disk).isSome && (env i).create && (env i).extend &&
      (env i).opens && growable dr env physical sel (i + 1)

/-- The expansion goes through. -/
structure Grows (dr : Drives) (env : ℕ → PoolEnv) (v : StripeVolume) (physical : List DiskId)
    (args : List (Option (ℕ × ℕ))) : Prop where
  level : v.raidLevel = .stripe
  selected : selectDisks dr physical args ≠ []
  pools : growable dr env physical (selectDisks dr physical args) 0 = true
  disks : v.diskCount + (selectDisks dr physical args).length ≤ maxDisks
  phases : v.phaseCount + (selectDisks dr physical args).length ≤ maxDisks

theorem poolFileCreate_grows (dr : Drives) (env : PoolEnv) (s : Pools) (disk : DiskId) (size : ℕ) :
    (poolFileCreate dr env s disk size).1 =
      (validatePoolSize size && (dr.path disk).isSome && env.create && env.extend) ∧
    ((poolFileCreate dr env s disk size).1 = true → ∀ p, dr.path disk = some p →
      ((poolFileCreate dr env s disk size).2.file p).isSome = true) := by
  unfold poolFileCreate
  cases hp : dr.path disk with
  | none =>
    simp only [Option.isSome_none, Bool.and_false, Bool.false_and, true_and]
    exact nofun
  | some p =>
    simp only [Option.isSome_some, Bool.and_true]
    cases validatePoolSize size with
    | false =>
      simp only [if_true, Bool.false_and, true_and]
      exact nofun
    | true =>
      simp only [Bool.true_eq_false, if_false, Bool.true_and]
      cases env.create with
      | false => exact ⟨rfl, nofun⟩
      | true =>
        cases env.extend with
        | false => exact ⟨rfl, nofun⟩
        | true =>
          refine ⟨rfl, fun _ q hq => ?_⟩
          obtain rfl := Option.some.inj hq
          simp only [Bool.true_eq_false, if_false, Pools.setFile_same, Option.isSome_some]

theorem growLoop_grows (dr : Drives) (env : ℕ → PoolEnv) (physical : List DiskId) (sel : List (ℕ × ℕ)) :
    ∀ (i : ℕ) (created : List DiskId) (s : Pools),
      (growLoop dr env physical sel i created s).1 = growable dr env physical sel i ∧
        ((growLoop dr env physical sel i created s).1 = true →
          (growLoop dr env physical sel i created s).2.1.length = created.length + sel.length) := by
  induction sel with
  | nil => intro i created s; exact ⟨rfl, fun _ => rfl⟩
  | cons x sel ih =>
    intro i created s
    obtain ⟨id, mb⟩ := x
    unfold growLoop growable
    simp only
    generalize mb * mib = size
    generalize physical.getD id 0 = disk
    split
    · next hg =>
      refine ⟨?_, nofun⟩
      rcases hg with hg | hg <;> rw [hg] <;> simp only [Bool.false_and, Bool.and_false]
    next hg =>
    simp only [not_or, Bool.not_eq_false] at hg
    obtain ⟨hc, hthere⟩ := poolFileCreate_grows dr (env i) s disk size
    generalize poolFileCreate dr (env i) s disk size = r at hc hthere
    obtain ⟨ok, t⟩ := r
    rw [hg.1, hg.2, Bool.true_and] at *
    simp only [Bool.true_and] at hc hthere ⊢
    subst hc
    cases hok : (dr.path disk).isSome && (env i).create && (env i).extend with
    | false =>
      simp only [Bool.false_and, true_and]
      exact nofun
    | true =>
      obtain ⟨p, hp⟩ := Option.isSome_iff_exists.mp ((Bool.and_eq_true _ _).mp ((Bool.and_eq_true _ _).mp hok).1).1
      have ho : (poolFileOpen dr (env i) t disk).1 = (env i).opens := by
        unfold poolFileOpen
        simp only [hp, hthere hok p hp, Bool.and_true]
      simp only [Bool.true_and]
      generalize poolFileOpen dr (env i) t disk = r at ho
      obtain ⟨ok, u⟩ := r
      simp only at ho
      subst ho
      cases (env i).opens with
      | false =>
        simp only [Bool.false_and, true_and]
        exact nofun
      | true =>
        obtain ⟨h1, h2⟩ := ih (i + 1) (created ++ [disk]) u
        refine ⟨h1, fun hs => ?_⟩
        rw [h2 hs, List.length_append, List.length_cons, List.length_nil, List.length_cons]
        omega

/-- An expansion adds its disks or does nothing to the volume. -/
theorem volumeExpand_workers (dr : Drives) (env : ℕ → PoolEnv) (v : StripeVolume) (s : Pools) (physical : List DiskId)
    (args : List (Option (ℕ × ℕ))) :
    (Grows dr env v physical args → (volumeExpand dr env v s physical args).2.1.raidLevel = v.raidLevel ∧
        (volumeExpand dr env v s physical args).2.1.workerState = v.workerState ∧
        v.diskCount < (volumeExpand dr env v s physical args).2.1.diskCount) ∧
      (¬ Grows dr env v physical args → (volumeExpand dr env v s physical args).2.1 = v) := by
  unfold volumeExpand
  by_cases hl : v.raidLevel = .stripe
  swap
  · rw [if_pos hl]
    exact ⟨fun h => absurd h.level hl, fun _ => rfl⟩
  rw [if_neg (not_not.mpr hl)]
  simp only
  by_cases hsel : selectDisks dr physical args = []
  · rw [if_pos hsel]
    exact ⟨fun h => absurd hsel h.selected, fun _ => rfl⟩
  rw [if_neg hsel]
  obtain ⟨h1, h2⟩ := growLoop_grows dr env physical (selectDisks dr physical args) 0 [] s
  generalize growLoop dr env physical (selectDisks dr physical args) 0 [] s = r at h1 h2
  obtain ⟨ok, created, t⟩ := r
  cases ok with
  | false =>
    refine ⟨fun h => ?_, fun _ => rfl⟩
    have hp := h.pools
    rw [← h1] at hp
    cases hp
  | true =>
    have hlen : created.length = (selectDisks dr physical args).length := by
      have hc := h2 rfl
      rw [List.length_nil, Nat.zero_add] at hc
      exact hc
    have hpos : 0 < created.length := by
      rw [hlen]
      exact List.length_pos_iff.mpr hsel
    simp only
    unfold stripeVolumeExpand
    rw [if_neg (by omega)]
    by_cases hfull : v.diskCount + created.length > maxDisks ∨ v.phaseCount + created.length > maxDisks
    · rw [if_pos hfull]
      refine ⟨fun h => ?_, fun _ => rfl⟩
      have hd := h.disks
      have hp := h.phases
      omega
    · rw [if_neg hfull]
      refine ⟨fun _ => ⟨rfl, rfl, ?_⟩, fun h => absurd ?_ h⟩
      · simp only
        omega
      · exact ⟨hl, hsel, h1.symm, by omega, by omega⟩

/-! ### What each command leaves -/

theorem stripeVolumeWorkersInit_served {v w : StripeVolume} (h : stripeVolumeWorkersInit v = some w) :
    w.raidLevel = v.raidLevel ∧ ∃ ws, w.workerState = some ws ∧ ws.length = w.diskCount := by
  unfold stripeVolumeWorkersInit at h
  split at h
  · cases h
  · obtain rfl := Option.some.inj h
    exact ⟨rfl, _, rfl, by rw [List.length_map, List.length_range]⟩

/-- No more workers than members. -/
def Fitting (v : StripeVolume) : Prop := ∀ ws, v.workerState = some ws → ws.length ≤ v.diskCount

theorem fitting_none {v : StripeVolume} (h : v.workerState = none) : Fitting v := by
  intro ws hws
  rw [h] at hws
  cases hws

theorem volumeCreate_workers (env : CreateEnv) (disks : List DiskId) (s : System) :
    ((volumeCreate env disks s).1 = true → Served (volumeCreate env disks s).2.v) ∧
      Fitting (volumeCreate env disks s).2.v := by
  have hdown : (stripeVolumeDestroy (cleanupVolumeCache env.flush s)).v.workerState = none := rfl
  unfold volumeCreate
  generalize stripeVolumeDestroy (cleanupVolumeCache env.flush s) = t at hdown
  simp only
  split
  · exact ⟨nofun, fitting_none hdown⟩
  split
  · exact ⟨nofun, fitting_none hdown⟩
  next v hv =>
  have hnone : v.workerState = none := by
    unfold stripeVolumeCreate at hv
    split at hv
    · cases hv
    · obtain rfl := Option.some.inj hv
      rfl
  split
  · exact ⟨nofun, fitting_none hnone⟩
  · next w hw =>
    split at hw
    · obtain ⟨_, ws, hws, hlen⟩ := stripeVolumeWorkersInit_served hw
      refine ⟨fun _ => ⟨ws, hws, Nat.le_of_eq hlen.symm⟩, fun ws' hws' => ?_⟩
      obtain rfl := Option.some.inj (hws.symm.trans hws')
      exact Nat.le_of_eq hlen
    · cases hw

/-- The load goes through and restores a stripe volume. -/
def RestoresStripe (env : LoadEnv) : Prop := ∃ sb, Restores env sb ∧ sb.mirror = false

/-- What a load leaves: no volume that was not there and has workers, a stripe volume exactly
if the superblock is one of a stripe volume. -/
theorem load_workers {s t : Session} {a : LoadArgs} {ok : Bool} (h : s.load a = some (ok, t)) :
    t.app.state = s.app.state ∧ t.app.volumeValid = s.app.volumeValid ∧
      (t.volume = s.volume ∨ t.volume.workerState = none) ∧
      (ok = true → t.volume.workerState = none ∧ t.volume.diskCount ≠ 0) ∧
      (ok = true ∧ t.volume.raidLevel = .stripe ↔ RestoresStripe a.env) := by
  unfold Session.load at h
  obtain ⟨⟨ok', v, d, files⟩, hload, he⟩ := Option.map_eq_some_iff.mp h
  obtain ⟨rfl, rfl⟩ := Prod.mk.inj he
  obtain ⟨h1, h2, h3⟩ := volumeLoad_workers hload
  have hlevel : ∀ sb, Restores a.env sb → (v.raidLevel = .stripe ↔ sb.mirror = false) := by
    intro sb hr
    rw [(h2 sb hr).raidLevel]
    simp only [restoreVolume]
    cases sb.mirror <;> decide
  refine ⟨rfl, rfl, h3, fun hok => ?_, ?_, ?_⟩
  · obtain ⟨sb, hr⟩ := h1.mp hok
    have hw := (h2 sb hr).workers
    have hc : v.diskCount = sb.diskCount := (h2 sb hr).diskCount
    have hmin : minDisks = 2 := rfl
    have hleast := hr.least
    refine ⟨hw, ?_⟩
    simp only [Session.volume]
    omega
  · rintro ⟨hok, hs⟩
    obtain ⟨sb, hr⟩ := h1.mp hok
    exact ⟨sb, hr, (hlevel sb hr).mp hs⟩
  · rintro ⟨sb, hr, hm⟩
    exact ⟨h1.mpr ⟨sb, hr⟩, (hlevel sb hr).mpr hm⟩

theorem volumeCacheEnable_same (m : CacheAlloc) (thread : Bool) (mb : ℕ) (s : AppState) :
    SameLayout s.sys.v (volumeCacheEnable m thread mb s).sys.v ∧
      (volumeCacheEnable m thread mb s).volumeValid = s.volumeValid := by
  unfold volumeCacheEnable
  split
  · exact ⟨sameLayout_cache _ _, rfl⟩
  · exact ⟨⟨rfl, rfl, rfl, rfl, rfl, rfl, rfl, rfl⟩, rfl⟩

/-- What holds between the commands. -/
structure Between (s : Session) : Prop where
  valid : s.app.state = .mounted → s.app.volumeValid = true
  fitting : Fitting s.volume

/-- A stripe volume taken for requests has its workers. -/
def Session.Working (s : Session) : Prop := s.Accepted → Served s.volume

theorem working_of_state {s : Session} (h : s.app.state ≠ .mounted) : s.Working := fun ha => absurd ha.2.1 h

theorem not_served {v : StripeVolume} (h : v.workerState = none) : ¬ Served v := by
  rintro ⟨ws, hws, _⟩
  rw [h] at hws
  cases hws

theorem startWorkers_served {v : StripeVolume} (hcount : v.diskCount ≠ 0) (hnone : v.workerState = none) (workers : Bool) :
    Fitting (startWorkers workers v) ∧ (startWorkers workers v).raidLevel = v.raidLevel ∧
      (v.raidLevel = .stripe → (Served (startWorkers workers v) ↔ workers = true)) := by
  unfold startWorkers
  by_cases hstart : v.raidLevel = .stripe ∧ workers = true
  · have hinit : stripeVolumeWorkersInit v = some { v with workerState := some ((List.range v.diskCount).map v.diskAt) } := by
      unfold stripeVolumeWorkersInit
      rw [if_neg hcount]
    obtain ⟨hlevel, ws, hws, hlen⟩ := stripeVolumeWorkersInit_served hinit
    rw [if_pos hstart, hinit, Option.getD_some]
    refine ⟨fun ws' hws' => ?_, hlevel, fun _ => ⟨fun _ => hstart.2, fun _ => ⟨ws, hws, Nat.le_of_eq hlen.symm⟩⟩⟩
    obtain rfl := Option.some.inj (hws.symm.trans hws')
    exact Nat.le_of_eq hlen
  · rw [if_neg hstart]
    refine ⟨fitting_none hnone, rfl, fun hl => ⟨fun hs => absurd hs (not_served hnone), fun hw => absurd ⟨hl, hw⟩ hstart⟩⟩

/-- What a command must not do: `load` restores a stripe volume, `--mount` restores one and
cannot start its workers, an expansion goes through. -/
def Session.Keeps (s : Session) : Op → Prop
  | .load a => s.app.state = .unmounted ∨ s.app.state = .discovered → ¬ RestoresStripe a.env
  | .mainMount env a => s.app.state = .disconnected → RestoresStripe a.env → env.workers = true
  | .expand dr env _ physical args => s.app.state = .mounted → ¬ Grows dr env s.volume physical args
  | _ => True

section Commands
variable {s t : Session} (hb : Between s)
include hb

theorem Between.create (env : CreateEnv) :
    Between (raidCreate env s) ∧ (s.Working → (raidCreate env s).Working) := by
  unfold raidCreate
  split
  · exact ⟨hb, id⟩
  next hg =>
  simp only [not_or, not_not] at hg
  obtain ⟨h1, h2⟩ := volumeCreate_workers env s.disks s.app.sys
  generalize volumeCreate env s.disks s.app.sys = r at h1 h2
  obtain ⟨ok, sys⟩ := r
  cases ok with
  | false =>
    have hdown : s.app.state ≠ .mounted := by
      rw [hg.1]
      decide
    exact ⟨⟨hb.valid, h2⟩, fun _ => working_of_state hdown⟩
  | true => exact ⟨⟨fun _ => rfl, h2⟩, fun _ _ => h1 rfl⟩

/-- A failed load leaves a session without a volume. -/
theorem Between.load_failed {a : LoadArgs} (hdown : s.app.state ≠ .mounted) (h : s.load a = some (false, t)) :
    Between t ∧ t.Working ∧ ¬ RestoresStripe a.env := by
  obtain ⟨h1, _, h3, _, h5⟩ := load_workers h
  have hdown' : t.app.state ≠ .mounted := by
    rw [h1]
    exact hdown
  refine ⟨⟨fun hm => absurd hm hdown', ?_⟩, working_of_state hdown', fun hs => absurd (h5.mpr hs).1 (by decide)⟩
  rcases h3 with h3 | h3
  · rw [h3]
    exact hb.fitting
  · exact fitting_none h3

theorem Between.load {a : LoadArgs} (h : raidLoad a s = some t) :
    Between t ∧ (s.Working → (t.Working ↔ s.Keeps (.load a))) := by
  unfold raidLoad at h
  split at h
  · next hg =>
    obtain rfl := Option.some.inj h
    exact ⟨hb, fun hr => ⟨fun _ hs => absurd hs (by tauto), fun _ => hr⟩⟩
  next hg =>
  have hstate : s.app.state = .unmounted ∨ s.app.state = .discovered := by tauto
  have hdown : s.app.state ≠ .mounted := by
    rcases hstate with hs | hs <;> rw [hs] <;> decide
  obtain ⟨⟨ok, u⟩, hl, rfl⟩ := Option.map_eq_some_iff.mp h
  cases ok with
  | false =>
    obtain ⟨h1, h2, h3⟩ := hb.load_failed hdown hl
    exact ⟨h1, fun _ => ⟨fun _ _ => h3, fun _ => h2⟩⟩
  | true =>
    obtain ⟨_, _, _, h4, h5⟩ := load_workers hl
    refine ⟨⟨fun _ => rfl, fitting_none (h4 rfl).1⟩, fun _ => ⟨fun hready _ hs => ?_, fun hkeep ha => ?_⟩⟩
    · exact not_served (h4 rfl).1 (hready ⟨rfl, rfl, (h5.mpr hs).2⟩)
    · exact absurd (h5.mp ⟨rfl, ha.2.2⟩) (hkeep hstate)

theorem Between.mainMount {env : StartEnv} {a : LoadArgs} (h : Service.mainMount env a s = some t) :
    Between t ∧ (s.Working → (t.Working ↔ s.Keeps (.mainMount env a))) := by
  unfold Service.mainMount at h
  split at h
  · next hg =>
    obtain rfl := Option.some.inj h
    exact ⟨hb, fun hr => ⟨fun _ hs => absurd hs hg, fun _ => hr⟩⟩
  next hg =>
  have hstate : s.app.state = .disconnected := by simpa using hg
  have hdown : s.app.state ≠ .mounted := by
    rw [hstate]
    decide
  obtain ⟨⟨ok, u⟩, hl, rfl⟩ := Option.map_eq_some_iff.mp h
  cases ok with
  | false =>
    obtain ⟨h1, h2, h3⟩ := hb.load_failed hdown hl
    exact ⟨h1, fun _ => ⟨fun _ _ hs => absurd hs h3, fun _ => h2⟩⟩
  | true =>
    obtain ⟨_, _, _, h4, h5⟩ := load_workers hl
    obtain ⟨hnone, hcount⟩ := h4 rfl
    simp only [if_true]
    generalize happ : (match env.cache with
      | none => { u.app with volumeValid := true }
      | some (m, thread) => volumeCacheEnable m thread cacheDefaultMb { u.app with volumeValid := true }) = app
    have hsame : SameLayout u.volume app.sys.v ∧ app.volumeValid = true := by
      rw [← happ]
      split
      · exact ⟨SameLayout.refl _, rfl⟩
      · next m thread _ =>
        obtain ⟨h1, h2⟩ := volumeCacheEnable_same m thread cacheDefaultMb { u.app with volumeValid := true }
        exact ⟨h1, h2⟩
    have hlevel : app.sys.v.raidLevel = .stripe ↔ RestoresStripe a.env := by
      rw [hsame.1.raidLevel, ← h5]
      simp only [true_and]
    obtain ⟨h1, h2, h3⟩ := startWorkers_served (hsame.1.diskCount.symm ▸ hcount) (hsame.1.workers.trans hnone) env.workers
    refine ⟨⟨fun _ => hsame.2, h1⟩, fun _ => ⟨fun hready _ hs => ?_, fun hkeep ha => ?_⟩⟩
    · exact (h3 (hlevel.mpr hs)).mp (hready ⟨hsame.2, rfl, h2.trans (hlevel.mpr hs)⟩)
    · have hstripe := h2.symm.trans ha.2.2
      exact (h3 hstripe).mpr (hkeep hstate (hlevel.mp hstripe))

theorem Between.expand (dr : Drives) (env : ℕ → PoolEnv) (file : Path → Option PoolFile) (physical : List DiskId)
    (args : List (Option (ℕ × ℕ))) :
    Between (raidExpand dr env file physical args s) ∧ (s.Working →
      ((raidExpand dr env file physical args s).Working ↔ s.Keeps (.expand dr env file physical args))) := by
  unfold raidExpand
  split
  · next hg => exact ⟨hb, fun hr => ⟨fun _ hs => absurd hs hg, fun _ => hr⟩⟩
  next hg =>
  have hstate : s.app.state = .mounted := by simpa using hg
  obtain ⟨h1, h2⟩ := volumeExpand_workers dr env s.volume ⟨s.app.sys.d.info, file⟩ physical args
  generalize volumeExpand dr env s.volume ⟨s.app.sys.d.info, file⟩ physical args = r at h1 h2
  obtain ⟨ok, w, pools⟩ := r
  simp only at h1 h2
  by_cases hgrow : Grows dr env s.volume physical args
  · obtain ⟨hl, hw, hc⟩ := h1 hgrow
    have hfit : ∀ ws, w.workerState = some ws → ws.length ≤ s.volume.diskCount := fun ws hws =>
      hb.fitting ws (hw.symm.trans hws)
    refine ⟨⟨hb.valid, fun ws hws => (hfit ws hws).trans (Nat.le_of_lt hc)⟩, fun _ => ⟨fun hready => ?_,
      fun hkeep => absurd hgrow (hkeep hstate)⟩⟩
    obtain ⟨ws, hws, hle⟩ := hready ⟨hb.valid hstate, hstate, hl.trans hgrow.level⟩
    have hlt := hfit ws hws
    simp only [Session.volume] at hle hc hlt
    omega
  · have hsame := h2 hgrow
    refine ⟨⟨hb.valid, ?_⟩, fun hr => ⟨fun _ _ => hgrow, fun _ ha => ?_⟩⟩
    · simp only [Session.volume, hsame]
      exact hb.fitting
    · simp only [Session.Accepted, Session.volume, hsame] at ha ⊢
      exact hr ha

theorem Between.unmount (env : ℕ → BatchEnv) :
    Between { s with app := (raidUnmount env s.app).2 } ∧
      (s.Working → Session.Working { s with app := (raidUnmount env s.app).2 }) := by
  unfold raidUnmount
  split
  · exact ⟨hb, id⟩
  · exact ⟨⟨nofun, fitting_none rfl⟩, fun _ => working_of_state nofun⟩

theorem Between.destroy (env : ℕ → BatchEnv) :
    Between { s with app := (raidDestroy env s.app).2 } ∧
      (s.Working → Session.Working { s with app := (raidDestroy env s.app).2 }) := by
  unfold raidDestroy
  split
  · exact ⟨hb, id⟩
  · exact ⟨⟨nofun, fitting_none rfl⟩, fun _ => working_of_state nofun⟩

/-- What one command keeps, and when. -/
theorem Between.step {op : Op} (h : s.step op = some t) : Between t ∧ (s.Working → (t.Working ↔ s.Keeps op)) := by
  have hfree : ∀ {u : Session}, Between u ∧ (s.Working → u.Working) →
      Between u ∧ (s.Working → (u.Working ↔ True)) := fun hu =>
    ⟨hu.1, fun hr => ⟨fun _ => True.intro, fun _ => hu.2 hr⟩⟩
  cases op with
  | scan found =>
    simp only [Session.step] at h
    split at h
    · cases h
    obtain rfl := Option.some.inj h
    have hdown : (if found then RaidState.discovered else .disconnected) ≠ .mounted := by cases found <;> decide
    exact hfree ⟨⟨fun hm => absurd hm hdown, hb.fitting⟩, fun _ => working_of_state hdown⟩
  | initPools disks info =>
    simp only [Session.step] at h
    split at h
    · obtain rfl := Option.some.inj h
      exact hfree ⟨⟨nofun, hb.fitting⟩, fun _ => working_of_state nofun⟩
    · obtain rfl := Option.some.inj h
      exact hfree ⟨hb, id⟩
  | create env =>
    simp only [Session.step] at h
    split at h
    · obtain rfl := Option.some.inj h
      exact hfree (hb.create env)
    · cases h
  | load a => exact hb.load h
  | mainMount env a => exact hb.mainMount h
  | expand dr env file physical args =>
    obtain rfl := Option.some.inj h
    exact hb.expand dr env file physical args
  | unmount env =>
    simp only [Session.step] at h
    split at h
    · obtain rfl := Option.some.inj h
      exact hfree (hb.unmount env)
    · cases h
  | destroy env =>
    simp only [Session.step] at h
    split at h
    · obtain rfl := Option.some.inj h
      exact hfree (hb.destroy env)
    · cases h

end Commands

/-! ### Runs -/

theorem Served.submits {v : StripeVolume} (h : Served v) {io : IoEnv} (hio : io.Succeeds) (d : Disks)
    {es : List IoMappingEntry} (hn : es.length ≤ ioRingSize) (hdi : ∀ e ∈ es, e.diskIndex < v.diskCount) (buffer : Buf)
    (op : IoOpType) : ∃ e out, submitEntries io d v es buffer op = some (true, e, out) := by
  obtain ⟨ws, hws, hle⟩ := h
  by_cases hne : es = []
  · unfold submitEntries
    rw [if_pos hne]
    exact ⟨_, _, rfl⟩
  rw [submitEntries_pushed hws hle hne hn hdi hio.1]
  have hp := io.perm (makeRequests ws op 0 0 es)
  have hany : ((io.order (makeRequests ws op 0 0 es)).any fun r => !(io.result r.slot).isOk) = false := by
    rw [List.any_eq_false]
    intro r _
    rw [hio.2]
    decide
  have herr : ((io.order (makeRequests ws op 0 0 es)).foldl (performRequest io) ⟨d, buffer, false⟩).error = false := by
    cases op with
    | read =>
      rw [(foldl_read io _ ⟨d, buffer, false⟩ fun r hr => makeRequests_op (hp.mem_iff.mp hr)).2.2, hany]
      rfl
    | write =>
      rw [(foldl_write io _ ⟨d, buffer, false⟩ fun r hr => makeRequests_op (hp.mem_iff.mp hr)).2.2, hany]
      rfl
  simp only
  rw [herr]
  exact ⟨_, _, rfl⟩

/-- In every state of a run that takes requests for a stripe volume there is a worker for every
member exactly if no command of the run loads one without workers or grows one. -/
theorem lifecycle_served (d : Disks) (ops : List Op) (h : (run Session.step (.start d) ops).isSome = true) :
    ((∀ pre post s, ops = pre ++ post → run Session.step (.start d) pre = some s → s.Accepted → Served s.volume) ↔
      Along Session.step Session.Keeps (.start d) ops) ∧
    ∀ v, Served v → ∀ (io : IoEnv) (d : Disks) es buffer op, io.Succeeds → es.length ≤ ioRingSize →
      (∀ e ∈ es, e.diskIndex < v.diskCount) → ∃ e out, submitEntries io d v es buffer op = some (true, e, out) := by
  obtain ⟨t, ht⟩ := Option.isSome_iff_exists.mp h
  refine ⟨?_, fun v hv io d es buffer op hio hn hdi => hv.submits hio d hn hdi buffer op⟩
  exact along_iff_of_run (I := Session.Working) (J := Between) (fun s l t hb hst => (hb.step hst).1) (fun s l t hb hr hst => (hb.step hst).2 hr)
    ⟨nofun, fitting_none rfl⟩ (working_of_state nofun) ht

/-! ### An expansion and a load -/

/-- Disks with room for the pools of the default size. -/
def roomyDisks : Disks := ⟨fun _ => ⟨1073741824, 100, 0, false, true, false, false, 0, true⟩, fun _ _ => 0⟩

/-- A volume of disks 0 and 1 is created and grows by disk 2, which a wizard has left in the physical table. -/
def growingOps : List Op :=
  [.scan true, .initPools [0, 1] roomyDisks.info, .create ⟨fun _ => .good, fun _ => true, true⟩,
    .expand ownDrives (fun _ => .good) (fullPools roomyDisks).file [0, 1, 2] [some (2, 1024)]]

/-- The `load` command finds a stripe volume and no journals. -/
def loadingOps : List Op :=
  [.scan true, .load ⟨⟨some (superblockOf plainVolume plainDisks.info), fun _ => true,
    fun _ => ⟨true, true, true, none, fun _ => .good, true⟩⟩, id, id, fun _ => []⟩]

/-- After the expansion two workers serve three members, after the load none serve two. -/
theorem lifecycle_served_fails :
    (∃ s, run Session.step (.start roomyDisks) growingOps = some s ∧ s.Accepted ∧ s.volume.diskCount = 3 ∧
      s.volume.workerState.map List.length = some 2 ∧ ¬ Served s.volume) ∧
    ∃ s, run Session.step (.start roomyDisks) loadingOps = some s ∧ s.Accepted ∧ s.volume.diskCount = 2 ∧
      s.volume.workerState = none ∧ ¬ Served s.volume := by
  constructor
  · obtain ⟨s, hs, h⟩ := Option.map_eq_some_iff.mp (show (run Session.step (.start roomyDisks) growingOps).map (fun s =>
      decide ((s.app.volumeValid = true ∧ s.app.state = .mounted ∧ s.volume.raidLevel = .stripe) ∧
        s.volume.diskCount = 3 ∧ s.volume.workerState = some [0, 1])) = some true by decide +kernel)
    obtain ⟨h1, h2, h3⟩ := of_decide_eq_true h
    refine ⟨s, hs, h1, h2, by rw [h3]; rfl, ?_⟩
    rintro ⟨ws, hws, hle⟩
    obtain rfl := Option.some.inj (h3.symm.trans hws)
    rw [h2] at hle
    exact absurd hle (by decide)
  · obtain ⟨s, hs, h⟩ := Option.map_eq_some_iff.mp (show (run Session.step (.start roomyDisks) loadingOps).map (fun s =>
      decide ((s.app.volumeValid = true ∧ s.app.state = .mounted ∧ s.volume.raidLevel = .stripe) ∧
        s.volume.diskCount = 2 ∧ s.volume.workerState = none)) = some true by decide +kernel)
    obtain ⟨h1, h2, h3⟩ := of_decide_eq_true h
    exact ⟨s, hs, h1, h2, h3, not_served h3⟩

theorem lifecycle_served_sample :
    ((∀ pre post s, growingOps = pre ++ post → run Session.step (.start roomyDisks) pre = some s →
        s.Accepted → Served s.volume) ↔
      Along Session.step Session.Keeps (.start roomyDisks) growingOps) ∧
    ∀ v, Served v → ∀ (io : IoEnv) (d : Disks) es buffer op, io.Succeeds → es.length ≤ ioRingSize →
      (∀ e ∈ es, e.diskIndex < v.diskCount) → ∃ e out, submitEntries io d v es buffer op = some (true, e, out) :=
  lifecycle_served roomyDisks growingOps (by decide +kernel)

end RaidTest.Service
