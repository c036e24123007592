import RaidTest.Journal.Flush
import RaidTest.Journal.Mirrored
import RaidTest.Service.Lifecycle

/-!
# Destroying a volume (`volume_destroy`, `raid_destroy`)

The pool files and the superblocks of the members are deleted, and then the directory they are
in, which is not empty as long as it has a journal. A volume made on the same drives finds the
journals of the old one, and the next load replays what they hold open.
-/

namespace RaidTest.Service
open RaidTest.Base RaidTest.Stripe RaidTest.Mirror RaidTest.Cache RaidTest.Journal RaidTest.Volume

/-! ### The commands on the drives -/

/-- The session, and the pool files, superblocks and journals on the drives. -/
structure Site where
  session : Session
  pools : Path → Option PoolFile
  superblock : Letter → Option Superblock
  journals : Files

def Site.volume (s : Site) : StripeVolume := s.session.volume

/-- The answers to a cleanup: those to its own flush, and the appends of a flush that another
thread is in. -/
structure CleanupEnv where
  flush : FlushEnv
  rest : List Piece

/-- What `cleanup_volume_cache` appends to the journals. -/
def cleanupPieces (env : CleanupEnv) (letter : DiskId → Letter) (s : System) : List Piece :=
  if s.v.cacheEnabled = false then []
  else
    let cache := { s.v.cache with threadStop := true, flushThread := false }
    (journalledFlush env.flush letter { s.v with cache := cache } s.d).pieces ++
      if s.flush = .idle then [] else env.rest

def Site.append (s : Site) (pieces : List Piece) : Site := { s with journals := pieces.foldl Files.add s.journals }

/-- What `volume_unmount` appends to the journals. -/
def unmountPieces (env : CleanupEnv) (letter : DiskId → Letter) (s : AppState) : List Piece :=
  if s.flushThread then cleanupPieces env letter s.sys else []

/-- The answers to one `volume_destroy`: whether each disk's superblock can be deleted, besides
those about the pool files. -/
structure DestroyEnv where
  cleanup : CleanupEnv
  pool : ℕ → PoolEnv
  superblock : ℕ → Bool

/-- The loop of `volume_destroy` from disk number `i` on. -/
def destroyLoop (dr : Drives) (letter : DiskId → Letter) (env : DestroyEnv) : List DiskId → ℕ → Site → Site
  | [], _, s => s
  | disk :: disks, i, s =>
    let sys := s.session.app.sys
    let pools := poolFileDelete dr (env.pool i) (poolFileClose ⟨sys.d.info, s.pools⟩ disk) disk
    let superblock := fun l => if l = letter disk ∧ env.superblock i then none else s.superblock l
    destroyLoop dr letter env disks (i + 1) { s with
      session := { s.session with app := { s.session.app with sys := { sys with d := { sys.d with info := pools.info } } } }
      pools := pools.file
      superblock := superblock }

/-- `raid_destroy`. -/
def Site.destroy (dr : Drives) (letter : DiskId → Letter) (env : DestroyEnv) (s : Site) : RC × Site :=
  match raidDestroy (env.cleanup.flush.plain s.volume.diskCount) s.session.app with
  | (.ok, app) =>
    (.ok, destroyLoop dr letter env s.session.disks 0
      ({ s with session := { s.session with app := app } }.append (unmountPieces env.cleanup letter s.session.app)))
  | (rc, _) => (rc, s)

/-- `raid_init_pools`, by the disks it picks, their records and the pool files it leaves. -/
def Site.initPools (disks : List DiskId) (info : DiskId → DiskInfo) (pools : Path → Option PoolFile) (s : Site) : Site :=
  match s.session.step (.initPools disks info) with
  | none => s
  | some session => { s with session := session, pools := pools }

/-- `volume_mirror`, without the superblock it writes at the end. -/
def volumeMirror (env : CreateEnv) (disks : List DiskId) (s : System) : Bool × System :=
  let s := stripeVolumeDestroy (cleanupVolumeCache env.flush s)
  let n := openedPools env.opens disks.length
  let d := (disks.take n).foldl (setHandle true) s.d
  if n < disks.length then (false, { s with d := (disks.take (n + 1)).foldl (setHandle false) d })
  else
    match mirrorVolumeCreate d disks with
    | none => (false, { s with d := disks.foldl (setHandle false) d })
    | some (v, d) => (true, { s with v := v, d := d })

/-- `raid_mirror`. -/
def raidMirror (env : CreateEnv) (s : Session) : Session :=
  if s.app.state ≠ .initialized ∨ s.disks.length < minMirrorDisks then s
  else
    match volumeMirror env s.disks s.app.sys with
    | (false, sys) => { s with app := { s.app with sys := sys } }
    | (true, sys) => { s with app := { s.app with
        sys := sys, volumeValid := true, state := .mounted, cacheOn := false, flushThread := false } }

/-- The answers to `raid_create` or `raid_mirror`; `superblock` tells whether the superblocks
can be written. -/
structure NewEnv where
  cleanup : CleanupEnv
  opens : ℕ → Bool
  workers : Bool
  superblock : Bool

def NewEnv.create (env : NewEnv) (n : ℕ) : CreateEnv := ⟨env.cleanup.flush.plain n, env.opens, env.workers⟩

/-- `raid_create` for a stripe volume, `raid_mirror` for a mirror. -/
def Site.create (level : RaidLevel) (letter : DiskId → Letter) (env : NewEnv) (s : Site) : Site :=
  if s.session.app.state ≠ .initialized ∨ s.session.disks.length < minDisks then s
  else
    let create := env.create s.volume.diskCount
    let session := match level with
      | .stripe => raidCreate create s.session
      | .mirror => raidMirror create s.session
    let written := fun l => session.app.state = .mounted ∧ env.superblock = true ∧ l ∈ session.disks.map letter
    { s with
      session := session
      superblock := fun l => if written l then some (superblockOf session.volume session.app.sys.d.info) else s.superblock l
    }.append (cleanupPieces env.cleanup letter s.session.app.sys)

/-- `raid_unmount`. -/
def Site.unmount (letter : DiskId → Letter) (env : CleanupEnv) (s : Site) : RC × Site :=
  match raidUnmount (env.flush.plain s.volume.diskCount) s.session.app with
  | (.ok, app) =>
    (.ok, { s with session := { s.session with app := app } }.append (unmountPieces env letter s.session.app))
  | (rc, _) => (rc, s)

/-- The site with `pool` on the disks. -/
def Site.holding (pool : DiskId → Buf) (s : Site) : Site :=
  { s with session := { s.session with app := { s.session.app with
      sys := { s.session.app.sys with d := { s.session.app.sys.d with pool := pool } } } } }

/-- `raid_load`. -/
def Site.load (letter : DiskId → Letter) (disksOut : ℕ → DiskId) (a : LoadEnv) (s : Site) : Option Session :=
  raidLoad ⟨a, letter, disksOut, s.journals⟩ s.session

/-! ### The journals stay -/

theorem destroyLoop_keeps (dr : Drives) (letter : DiskId → Letter) (env : DestroyEnv) (disks : List DiskId) :
    ∀ (i : ℕ) (s : Site), (destroyLoop dr letter env disks i s).journals = s.journals ∧
      (destroyLoop dr letter env disks i s).session.app.state = s.session.app.state := by
  induction disks with
  | nil => intro i s; exact ⟨rfl, rfl⟩
  | cons disk disks ih =>
    intro i s
    unfold destroyLoop
    exact ih (i + 1) _

/-- The pool files and the superblocks go, if they can be deleted. -/
theorem destroyLoop_deletes (dr : Drives) (letter : DiskId → Letter) {env : DestroyEnv}
    (hpool : ∀ i, (env.pool i).delete = true) (hsuper : ∀ i, env.superblock i = true) (disks : List DiskId) :
    ∀ (i : ℕ) (s : Site), (∀ p, s.pools p = none ∨ (∃ k ∈ disks, dr.path k = some p) →
        (destroyLoop dr letter env disks i s).pools p = none) ∧
      ∀ l, s.superblock l = none ∨ (∃ k ∈ disks, letter k = l) →
        (destroyLoop dr letter env disks i s).superblock l = none := by
  induction disks with
  | nil =>
    intro i s
    constructor
    · rintro p (h | ⟨k, hk, _⟩)
      · exact h
      · cases hk
    · rintro l (h | ⟨k, hk, _⟩)
      · exact h
      · cases hk
  | cons disk disks ih =>
    intro i s
    unfold destroyLoop
    obtain ⟨h1, h2⟩ := ih (i + 1) _
    constructor
    · intro p hp
      apply h1
      by_cases he : dr.path disk = some p
      · left
        simp only [poolFileDelete, he, hpool, if_true]
        exact Pools.setFile_same _ p none
      · rcases hp with hp | ⟨k, hk, hkp⟩
        · left
          exact (poolFileDelete_file dr _ _ disk he).trans hp
        · rcases List.mem_cons.mp hk with rfl | hk
          · exact absurd hkp he
          · exact Or.inr ⟨k, hk, hkp⟩
    · intro l hl
      apply h2
      by_cases he : l = letter disk
      · left
        simp only [he, hsuper, and_self, if_true]
      · rcases hl with hl | ⟨k, hk, rfl⟩
        · left
          simp only [he, false_and, if_false]
          exact hl
        · rcases List.mem_cons.mp hk with rfl | hk
          · exact absurd rfl he
          · exact Or.inr ⟨k, hk, rfl⟩

theorem append_journals (s : Site) (pieces : List Piece) (l : Letter) :
    (s.append pieces).journals l = s.journals l ++ appended l pieces := foldl_add l pieces s.journals

/-- `raid_destroy` appends to the journals and takes nothing from them. -/
theorem destroy_journals {dr : Drives} {letter : DiskId → Letter} {env : DestroyEnv} {s t : Site}
    (h : s.destroy dr letter env = (.ok, t)) : t.session.app.state = .discovered ∧
      ∀ l, t.journals l = s.journals l ++ appended l (unmountPieces env.cleanup letter s.session.app) := by
  unfold Site.destroy at h
  generalize happ : raidDestroy (env.cleanup.flush.plain s.volume.diskCount) s.session.app = r at h
  obtain ⟨rc, app⟩ := r
  cases rc with
  | ok =>
    obtain ⟨_, rfl⟩ := Prod.mk.inj h
    obtain ⟨h1, h2⟩ := destroyLoop_keeps dr letter env s.session.disks 0
      ({ s with session := { s.session with app := app } }.append (unmountPieces env.cleanup letter s.session.app))
    rw [h1, h2]
    constructor
    · unfold raidDestroy at happ
      split at happ
      · cases happ
      · obtain ⟨_, rfl⟩ := Prod.mk.inj happ
        rfl
    · exact append_journals _ _
  | _ => cases h

theorem initPools_journals (disks : List DiskId) (info : DiskId → DiskInfo) (pools : Path → Option PoolFile) {s : Site}
    (hs : s.session.app.state ≠ .mounted) : (s.initPools disks info pools).session.app.state ≠ .mounted ∧
      (s.initPools disks info pools).journals = s.journals := by
  simp only [Site.initPools, Session.step]
  by_cases hg : (s.session.app.state = .discovered ∨ s.session.app.state = .unmounted) ∧ minDisks ≤ disks.length
  · rw [if_pos hg]
    exact ⟨fun h => RaidState.noConfusion h, rfl⟩
  · rw [if_neg hg]
    exact ⟨hs, rfl⟩

/-- The volume that was made. -/
structure Made (raid : RaidLevel) (n : ℕ) (s : Session) : Prop where
  level : s.volume.raidLevel = raid
  count : s.volume.diskCount = n
  unflushed : s.app.flushThread = false
  mirror : raid = .mirror → minDisks ≤ n ∧ n ≤ maxDisks ∧ s.volume.virtualTotalBytes < 2^64

theorem raidCreate_made {env : CreateEnv} {s : Session} (hs : s.app.state ≠ .mounted)
    (h : (raidCreate env s).app.state = .mounted) : Made .stripe s.disks.length (raidCreate env s) := by
  unfold raidCreate at h ⊢
  split at h
  · exact absurd h hs
  next hg =>
  rw [if_neg hg]
  split at h
  · exact absurd h hs
  next sys hsys =>
  simp only
  unfold volumeCreate at hsys
  simp only at hsys
  split at hsys
  · cases hsys
  split at hsys
  · cases hsys
  next v hv =>
  split at hsys
  · cases hsys
  next w hw =>
  obtain ⟨_, rfl⟩ := Prod.mk.inj hsys
  have hsame : w.raidLevel = v.raidLevel ∧ w.diskCount = v.diskCount := by
    split at hw
    · unfold stripeVolumeWorkersInit at hw
      split at hw
      · cases hw
      · obtain rfl := Option.some.inj hw
        exact ⟨rfl, rfl⟩
    · cases hw
  unfold stripeVolumeCreate at hv
  split at hv
  · cases hv
  obtain rfl := Option.some.inj hv
  exact ⟨hsame.1, hsame.2, rfl, nofun⟩

theorem raidMirror_made {env : CreateEnv} {s : Session} (hs : s.app.state ≠ .mounted)
    (h : (raidMirror env s).app.state = .mounted) : Made .mirror s.disks.length (raidMirror env s) := by
  unfold raidMirror at h ⊢
  split at h
  · exact absurd h hs
  next hg =>
  rw [if_neg hg]
  split at h
  · exact absurd h hs
  next sys hsys =>
  simp only
  unfold volumeMirror at hsys
  simp only at hsys
  split at hsys
  · cases hsys
  split at hsys
  · cases hsys
  next v d hv =>
  obtain ⟨_, rfl⟩ := Prod.mk.inj hsys
  generalize (s.disks.take _).foldl (setHandle true) _ = e at hv
  unfold mirrorVolumeCreate at hv
  split at hv
  · cases hv
  next hn =>
  simp only [not_or, Nat.not_lt] at hn
  obtain ⟨rfl, _⟩ := Prod.mk.inj (Option.some.inj hv)
  refine ⟨rfl, rfl, rfl, fun _ => ⟨hn.1, hn.2, ?_⟩⟩
  apply Nat.lt_of_le_of_lt (Nat.sub_le _ _)
  apply Nat.lt_of_le_of_lt (foldl_min_le (fun i => (e.info i).poolBytes) _ _).1
  decide

/-- A new volume is made without a flush thread, and the journals are those of the old one. -/
theorem create_journals {level : RaidLevel} {letter : DiskId → Letter} {env : NewEnv} {s t : Site}
    (hs : s.session.app.state ≠ .mounted) (h : s.create level letter env = t) (ht : t.session.app.state = .mounted) :
    Made level s.session.disks.length t.session ∧
      ∀ l, t.journals l = s.journals l ++ appended l (cleanupPieces env.cleanup letter s.session.app.sys) := by
  unfold Site.create at h
  split at h
  · rw [← h] at ht
    exact absurd ht hs
  · subst h
    constructor
    · cases level with
      | stripe => exact raidCreate_made hs ht
      | mirror => exact raidMirror_made hs ht
    · exact append_journals _ _

theorem unmount_journals {letter : DiskId → Letter} {env : CleanupEnv} {s t : Site} (h : s.unmount letter env = (.ok, t))
    (hs : s.session.app.flushThread = false) : t.session.app.state = .unmounted ∧ t.journals = s.journals := by
  unfold Site.unmount at h
  generalize happ : raidUnmount (env.flush.plain s.volume.diskCount) s.session.app = r at h
  obtain ⟨rc, app⟩ := r
  cases rc with
  | ok =>
    obtain ⟨_, rfl⟩ := Prod.mk.inj h
    constructor
    · unfold raidUnmount at happ
      split at happ
      · cases happ
      · obtain ⟨_, rfl⟩ := Prod.mk.inj happ
        rfl
    · funext l
      rw [append_journals, unmountPieces, hs]
      exact List.append_nil _
  | _ => cases h

/-! ### The next load -/

theorem restoreInfo_entry (sb : Superblock) (n : ℕ) (disksOut : ℕ → DiskId) (info : DiskId → DiskInfo) {i : ℕ}
    (hi : i < sb.diskCount) (hn : sb.diskCount ≤ n) : ∃ j, restoreInfo sb n disksOut info (disksOut i) =
      restoreDisk sb j (decide (n = sb.diskCount)) := by
  have hfold : ∀ (is : List ℕ) (f : DiskId → DiskInfo), (∀ j ∈ is, j ≤ n) →
      ((∃ j, f (disksOut i) = restoreDisk sb j (decide (n = sb.diskCount))) ∨ i ∈ is) →
      ∃ j, is.foldl (fun info i => if i ≤ n then fun k => if k = disksOut i then
        restoreDisk sb i (decide (n = sb.diskCount)) else info k else info) f (disksOut i) =
          restoreDisk sb j (decide (n = sb.diskCount)) := by
    intro is
    induction is with
    | nil =>
      intro f _ h
      exact h.resolve_right List.not_mem_nil
    | cons j is ih =>
      intro f hle h
      rw [List.foldl_cons]
      apply ih _ fun k hk => hle k (List.mem_cons_of_mem _ hk)
      rw [if_pos (hle j (List.mem_cons_self ..))]
      by_cases he : disksOut i = disksOut j
      · exact Or.inl ⟨j, if_pos he⟩
      · simp only [if_neg he]
        rcases h with h | h
        · exact Or.inl h
        · rcases List.mem_cons.mp h with rfl | h
          · exact absurd rfl he
          · exact Or.inr h
  apply hfold
  · intro j hj
    have hlt := List.mem_range.mp hj
    omega
  · exact Or.inr (List.mem_range.mpr hi)

theorem restore_writable {sb : Superblock} (hm : sb.mirror = true) (disksOut : ℕ → DiskId) (info : DiskId → DiskInfo)
    (pool : DiskId → Buf) : AllWritable (restoreVolume sb sb.diskCount disksOut)
      ⟨restoreInfo sb sb.diskCount disksOut info, pool⟩ := by
  rintro k ⟨i, _, hi, rfl⟩
  have hcount : (restoreVolume sb sb.diskCount disksOut).diskCount = sb.diskCount := rfl
  rw [hcount] at hi
  rw [restoreVolume_diskAt sb disksOut (by omega)]
  obtain ⟨j, hj⟩ := restoreInfo_entry sb sb.diskCount disksOut info (i := i) (by omega) (Nat.le_refl _)
  unfold writable
  simp only [hj, restoreDisk, hm, decide_true, Bool.not_false, Bool.or_true, Bool.and_self]

theorem restore_checked (sb : Superblock) (disksOut : ℕ → DiskId) :
    (restoreVolume sb sb.diskCount disksOut).checkDisks = true := by
  rw [StripeVolume.checkDisks_iff]
  intro i hi
  have hlt : i < sb.diskCount := hi
  rw [restoreVolume_diskAt sb disksOut hlt]
  simp only [restoreVolume, if_pos hlt]

/-- A load of a stripe volume leaves the pools as they are. -/
theorem volumeLoad_stripe_pools {a : LoadEnv} {sb : Superblock} (hsb : a.superblock = some sb) (hs : sb.mirror = false)
    {letter : DiskId → Letter} {disksOut : ℕ → DiskId} {v w : StripeVolume} {d e : Disks} {files files' : Files}
    {ok : Bool} (h : volumeLoad a letter disksOut v d files = some (ok, w, e, files')) : e.pool = d.pool := by
  unfold volumeLoad at h
  rw [hsb] at h
  simp only at h
  unfold superblockRestore at h
  split at h
  · next heq =>
    simp only [Option.some.injEq, Prod.mk.injEq] at h
    obtain ⟨_, _, rfl, _⟩ := h
    split at heq
    · obtain ⟨_, heq⟩ := Prod.mk.inj heq
      rw [← (Prod.mk.inj heq).2]
    · obtain ⟨_, heq⟩ := Prod.mk.inj heq
      rw [← (Prod.mk.inj heq).2]
  · next u d1 heq =>
    split at heq
    · cases heq
    obtain ⟨_, heq⟩ := Prod.mk.inj heq
    obtain ⟨rfl, rfl⟩ := Prod.mk.inj heq
    split at h
    · cases h
    next hrec =>
    simp only [Option.some.injEq, Prod.mk.injEq] at h
    obtain ⟨_, rfl, rfl, _⟩ := h
    refine (journalRecoverAll_keeps (P := fun w e => Idle w ∧ e.pool = d.pool) ?_ ?_ hrec).2
    · rintro io w1 d1 buffer off len ok w2 e2 ⟨hi, hp⟩ hw
      obtain ⟨ok', w', hw', _, hidle⟩ := hi.write io d1 buffer off len
      rw [hw'] at hw
      simp only [Option.some.injEq, Prod.mk.injEq] at hw
      obtain ⟨_, rfl, rfl⟩ := hw
      exact ⟨hidle, hp⟩
    · exact ⟨restoreVolume_idle hs _ disksOut, rfl⟩

theorem volumeLoad_opened {a : LoadEnv} {sb : Superblock} (hsb : a.superblock = some sb)
    (hmin : minDisks ≤ sb.diskCount) (hmax : sb.diskCount ≤ maxDisks)
    (hall : openedPools a.opens sb.diskCount = sb.diskCount) (letter : DiskId → Letter) (disksOut : ℕ → DiskId)
    (v : StripeVolume) (d : Disks) (files : Files) : volumeLoad a letter disksOut v d files =
      (journalRecoverAll a.recover letter (restoreVolume sb sb.diskCount disksOut)
        ⟨restoreInfo sb sb.diskCount disksOut d.info, d.pool⟩ files).map fun x => (true, x.2) := by
  unfold volumeLoad
  rw [hsb]
  simp only [superblockRestore, hall]
  rw [if_neg (by omega)]
  simp only [decide_true]
  cases journalRecoverAll a.recover letter (restoreVolume sb sb.diskCount disksOut)
    ⟨restoreInfo sb sb.diskCount disksOut d.info, d.pool⟩ files <;> rfl

/-- However the load of a mirror goes, it leaves the pools as they are exactly if the mirror
takes none of the ranges its drives' journals hold open. -/
theorem volumeLoad_mirror_iff {sb : Superblock} (hm : sb.mirror = true) (hmin : minDisks ≤ sb.diskCount)
    (hmax : sb.diskCount ≤ maxDisks) (htotal : sb.virtualTotalBytes < 2^64) (letter : DiskId → Letter)
    (disksOut : ℕ → DiskId) (v : StripeVolume) (info : DiskId → DiskInfo) (files : Files) :
    (∀ (a : LoadEnv) pool ok w e files', a.superblock = some sb →
        Whole a.recover letter (restoreVolume sb sb.diskCount disksOut) files →
        volumeLoad a letter disksOut v ⟨info, pool⟩ files = some (ok, w, e, files') → e.pool = pool) ↔
      ∀ i < sb.diskCount, ∀ r ∈ openRanges (files (letter (disksOut i))), taken sb.virtualTotalBytes r = false := by
  have hl : (restoreVolume sb sb.diskCount disksOut).raidLevel = .mirror := by
    simp only [restoreVolume, hm, if_true]
  have hcount : (restoreVolume sb sb.diskCount disksOut).diskCount = sb.diskCount := rfl
  have hiff := recover_mirror_iff hl htotal (restore_checked sb disksOut) rfl
    (restore_writable hm disksOut info) letter files
  have hcond : (∀ i < (restoreVolume sb sb.diskCount disksOut).diskCount,
      ∀ r ∈ openRanges (files (letter ((restoreVolume sb sb.diskCount disksOut).diskAt i))),
        taken (restoreVolume sb sb.diskCount disksOut).virtualTotalBytes r = false) ↔
      ∀ i < sb.diskCount, ∀ r ∈ openRanges (files (letter (disksOut i))), taken sb.virtualTotalBytes r = false := by
    refine forall_congr' fun i => forall_congr' fun hi => ?_
    rw [restoreVolume_diskAt sb disksOut hi]
    rfl
  rw [← hcond, ← hiff]
  constructor
  · intro h env pool clean w e files' hwhole hrec
    apply h ⟨some sb, fun _ => true, env⟩ pool true w e files' rfl hwhole
    rw [volumeLoad_opened rfl hmin hmax (openedPools_all fun _ _ => rfl), hrec]
    rfl
  · intro h a pool ok w e files' hsb hwhole hvol
    by_cases hall : openedPools a.opens sb.diskCount = sb.diskCount
    · rw [volumeLoad_opened hsb hmin hmax hall] at hvol
      obtain ⟨⟨clean, w', e', files''⟩, hrec, he⟩ := Option.map_eq_some_iff.mp hvol
      simp only [Prod.mk.injEq] at he
      obtain ⟨_, rfl, rfl, rfl⟩ := he
      exact h a.recover pool clean _ _ _ hwhole hrec
    · unfold volumeLoad at hvol
      rw [hsb] at hvol
      simp only [superblockRestore] at hvol
      rw [if_neg (by omega)] at hvol
      simp only [decide_eq_false hall, Option.some.injEq, Prod.mk.injEq] at hvol
      rw [← hvol.2.2.1]

/-- The superblock a new volume gets. -/
def Site.written (s : Site) : Superblock := superblockOf s.volume s.session.app.sys.d.info

/-- However a load by the superblock goes, and whatever the pools hold, it leaves them as they are. -/
def Undisturbed (s : Site) (sb : Superblock) (letter : DiskId → Letter) (disksOut : ℕ → DiskId) : Prop :=
  ∀ (a : LoadEnv) pool t, a.superblock = some sb →
    Whole a.recover letter (restoreVolume sb sb.diskCount disksOut) s.journals →
    (s.holding pool).load letter disksOut a = some t → t.app.sys.d.pool = pool

theorem load_volumeLoad {s : Site} (hs : s.session.app.state = .unmounted) (pool : DiskId → Buf)
    (letter : DiskId → Letter) (disksOut : ℕ → DiskId) (a : LoadEnv) (d : Disks) :
    (∃ t, (s.holding pool).load letter disksOut a = some t ∧ t.app.sys.d = d) ↔
      ∃ ok v files', volumeLoad a letter disksOut s.volume ⟨s.session.app.sys.d.info, pool⟩ s.journals =
        some (ok, v, d, files') := by
  have hgate : ¬ ((s.holding pool).session.app.state ≠ .unmounted ∧ (s.holding pool).session.app.state ≠ .discovered) :=
    fun h => h.1 hs
  have hload : (s.holding pool).session.load ⟨a, letter, disksOut, s.journals⟩ =
      (volumeLoad a letter disksOut s.volume ⟨s.session.app.sys.d.info, pool⟩ s.journals).map fun r =>
        (r.1, { app := { (s.holding pool).session.app with sys := { s.session.app.sys with v := r.2.1, d := r.2.2.1 } }
                disks := if r.1 then (List.range r.2.1.diskCount).map disksOut else s.session.disks }) := rfl
  have hunfold : (s.holding pool).load letter disksOut a =
      raidLoad ⟨a, letter, disksOut, s.journals⟩ (s.holding pool).session := rfl
  rw [hunfold, raidLoad, if_neg hgate, hload]
  cases hv : volumeLoad a letter disksOut s.volume ⟨s.session.app.sys.d.info, pool⟩ s.journals with
  | none =>
    constructor
    · rintro ⟨t, h, _⟩
      cases h
    · rintro ⟨ok, v, files', h⟩
      cases h
  | some x =>
    obtain ⟨ok, v, e, files'⟩ := x
    constructor
    · rintro ⟨t, h, rfl⟩
      refine ⟨ok, v, files', ?_⟩
      cases ok with
      | true => rw [← Option.some.inj h]; rfl
      | false => rw [← Option.some.inj h]; rfl
    · rintro ⟨ok', v', files'', h⟩
      simp only [Option.some.injEq, Prod.mk.injEq] at h
      obtain ⟨_, _, rfl, _⟩ := h
      cases ok with
      | true => exact ⟨_, rfl, rfl⟩
      | false => exact ⟨_, rfl, rfl⟩

theorem undisturbed_iff {s : Site} (hs : s.session.app.state = .unmounted) (sb : Superblock) (letter : DiskId → Letter)
    (disksOut : ℕ → DiskId) : Undisturbed s sb letter disksOut ↔
      ∀ (a : LoadEnv) pool ok w e files', a.superblock = some sb →
        Whole a.recover letter (restoreVolume sb sb.diskCount disksOut) s.journals →
        volumeLoad a letter disksOut s.volume ⟨s.session.app.sys.d.info, pool⟩ s.journals = some (ok, w, e, files') →
        e.pool = pool := by
  constructor
  · intro h a pool ok w e files' hsb hwhole hload
    obtain ⟨t, ht, rfl⟩ := (load_volumeLoad hs pool letter disksOut a e).mpr ⟨ok, w, files', hload⟩
    exact h a pool t hsb hwhole ht
  · intro h a pool t hsb hwhole ht
    obtain ⟨ok, w, files', hload⟩ := (load_volumeLoad hs pool letter disksOut a t.app.sys.d).mp ⟨t, ht, rfl⟩
    exact h a pool ok w _ files' hsb hwhole hload

/-- After a volume is destroyed, a new one made, and that unmounted, the journals have what they
had and perhaps more. The next load keeps off the new volume exactly if that is a stripe volume,
or a mirror that takes none of the ranges the journals of its drives hold open. -/
theorem destroyed_replayed {dr : Drives} {letter : DiskId → Letter} {de : DestroyEnv} {s t u w : Site}
    (hdestroy : s.destroy dr letter de = (.ok, t)) (disks : List DiskId) (info : DiskId → DiskInfo)
    (pools : Path → Option PoolFile) {level : RaidLevel} {ne : NewEnv}
    (hcreate : (t.initPools disks info pools).create level letter ne = u) (hmade : u.session.app.state = .mounted)
    {ue : CleanupEnv} (hunmount : u.unmount letter ue = (.ok, w)) (letter' : DiskId → Letter) (disksOut : ℕ → DiskId) :
    (∀ l, ∃ tail, w.journals l = s.journals l ++ tail) ∧
      (Undisturbed w u.written letter' disksOut ↔ level = .stripe ∨ ∀ i < u.volume.diskCount,
        ∀ r ∈ openRanges (w.journals (letter' (disksOut i))), taken u.volume.virtualTotalBytes r = false) := by
  obtain ⟨hstate, h1⟩ := destroy_journals hdestroy
  have hinit := initPools_journals disks info pools (s := t) (by
    rw [hstate]
    decide)
  obtain ⟨hnew, h2⟩ := create_journals hinit.1 hcreate hmade
  obtain ⟨hdown, h3⟩ := unmount_journals hunmount hnew.unflushed
  constructor
  · intro l
    rw [h3, h2, hinit.2, h1, List.append_assoc]
    exact ⟨_, rfl⟩
  rw [undisturbed_iff hdown]
  cases level with
  | stripe =>
    refine ⟨fun _ => Or.inl rfl, fun _ a pool ok v e files' hsb _ hload => ?_⟩
    have hs : u.written.mirror = false := decide_eq_false fun hm => nomatch hnew.level.symm.trans hm
    exact volumeLoad_stripe_pools hsb hs hload
  | mirror =>
    obtain ⟨hmin, hmax, htotal⟩ := hnew.mirror rfl
    rw [← hnew.count] at hmin hmax
    have hm : u.written.mirror = true := decide_eq_true hnew.level
    rw [volumeLoad_mirror_iff hm hmin hmax htotal]
    constructor
    · exact Or.inr
    · intro h
      exact h.resolve_left (by decide)

/-! ### A crash, and a mirror on the same drives -/

/-- A stripe volume on two drives whose first flush crashed after the journal. -/
def oldSite : Site where
  session := ⟨⟨⟨plainVolume, plainDisks, .idle, .thread, false⟩, true, false, 0, false, false, .mounted⟩, [0, 1]⟩
  pools := fun p => if p < 2 then some ⟨131072, fun _ => 0⟩ else none
  superblock := fun l => if l < 2 then some (superblockOf plainVolume plainDisks.info) else none
  journals := crashFiles

def plainDrives : Drives := ⟨fun _ => true, fun _ => true, some⟩

/-- No flush is made: the cache is off. -/
def noFlush : CleanupEnv := ⟨⟨0, ⟨0, fun _ => .done⟩, fun _ => ⟨0, fun _ => .done⟩, fun _ => .good, ⟨0, fun _ => .done⟩⟩, []⟩

def destroyGood : DestroyEnv := ⟨noFlush, fun _ => .good, fun _ => true⟩

def createGood : NewEnv := ⟨noFlush, fun _ => true, true, true⟩

def goneSite : Site := (oldSite.destroy plainDrives id destroyGood).2

def mirrorSite : Site := (goneSite.initPools [0, 1] plainDisks.info oldSite.pools).create .mirror id createGood

def unmountedSite : Site := (mirrorSite.unmount id noFlush).2

theorem oldSite_destroyed : oldSite.destroy plainDrives id destroyGood = (.ok, goneSite) := rfl

theorem mirrorSite_mounted : mirrorSite.session.app.state = .mounted := by decide

theorem mirrorSite_unmounted : mirrorSite.unmount id noFlush = (.ok, unmountedSite) := rfl

theorem crashFiles_open : openRanges (crashFiles 0) = [(0, List.replicate 65536 7)] := by
  obtain ⟨h1, h2, h3, h4⟩ := crashFiles_row 0
  rw [h1] at h4 ⊢
  exact openRanges_images h2 h3 h4

theorem mirrorSite_total : mirrorSite.volume.virtualTotalBytes = 131072 := by decide

/-- The load finds the superblock of the mirror, and a journal on drive 0 only. -/
def mirrorLoad (files : Files) : LoadEnv where
  superblock := some mirrorSite.written
  opens := fun _ => true
  recover := fun i => ⟨decide (i = 0), true, true, some (files i).length, fun _ => .good, true⟩

theorem mirrorLoad_takes {files : Files} {r : ℕ × List Byte} (hopen : openRanges (files 0) = [r])
    (htaken : taken 131072 r = true) :
    ∃ t, (({ unmountedSite with journals := files } : Site).holding fun _ _ => 0).load id id (mirrorLoad files) = some t ∧
      t.app.sys.d.pool 0 r.1 = r.2.getD 0 0 := by
  have hmirror : (restoreVolume mirrorSite.written 2 id).raidLevel = .mirror := by decide
  have hreads : ((mirrorLoad files).recover 0).Reads (files 0) := ⟨rfl, rfl, rfl, _, rfl, Nat.le_refl _⟩
  have hclosed : ∀ i, i ≠ 0 → ((mirrorLoad files).recover i).opens = false := fun i hi => decide_eq_false hi
  have hsome : openRanges (files 0) ≠ [] := by
    rw [hopen]
    exact List.cons_ne_nil _ _
  obtain ⟨clean, w, e, files', hrun, hredo⟩ := recoverLoop_one hmirror (by decide) (restore_checked mirrorSite.written id)
    (show ((mirrorLoad files).recover 0).Reads (files (id ((restoreVolume mirrorSite.written 2 id).diskAt 0))) from hreads)
    (fun _ => IoEnv.good_succeeds) hclosed hsome 2 0 true (Nat.le_refl 0) (by decide)
    (SameLayout.refl _) rfl (restore_writable (by decide) id unmountedSite.session.app.sys.d.info fun _ _ => 0)
  have hload : volumeLoad (mirrorLoad files) id id unmountedSite.volume
      ⟨unmountedSite.session.app.sys.d.info, fun _ _ => 0⟩ files = some (true, w, e, files') := by
    rw [volumeLoad_opened (show (mirrorLoad files).superblock = some mirrorSite.written from rfl) (by decide) (by decide) (openedPools_all fun _ _ => rfl)]
    have hrec : journalRecoverAll (mirrorLoad files).recover id (restoreVolume mirrorSite.written 2 id)
        ⟨restoreInfo mirrorSite.written 2 id unmountedSite.session.app.sys.d.info, fun _ _ => 0⟩ files =
          some (clean, w, e, files') := hrun
    exact (congrArg (Option.map fun x => (true, x.2)) hrec).trans rfl
  obtain ⟨t, ht, he⟩ := (load_volumeLoad (s := { unmountedSite with journals := files }) rfl _ id id
    (mirrorLoad files) e).mpr ⟨true, w, files', hload⟩
  refine ⟨t, ht, ?_⟩
  have hfilter : (openRanges (files (id ((restoreVolume mirrorSite.written 2 id).diskAt 0)))).filter
      (taken (restoreVolume mirrorSite.written 2 id).virtualTotalBytes) = [r] := by
    have hdrive : openRanges (files (id ((restoreVolume mirrorSite.written 2 id).diskAt 0))) = [r] := hopen
    have htotal : (restoreVolume mirrorSite.written 2 id).virtualTotalBytes = 131072 := mirrorSite_total
    rw [hdrive, htotal, List.filter_cons_of_pos htaken, List.filter_nil]
  have hzero := hredo 0 ⟨0, Nat.le_refl 0, by decide, rfl⟩
  rw [hfilter] at hzero
  obtain ⟨l, hland, hl⟩ := hzero
  rw [taken_iff] at htaken
  have hbyte := hland.inside r.1 (r.2.getD 0 0) (mem_cells.mpr ⟨Nat.le_refl _, by omega, by rw [Nat.sub_self]⟩)
  have hcontent : content (restoreVolume mirrorSite.written 2 id) e 0 = l := hl
  have htotal : (restoreVolume mirrorSite.written 2 id).virtualTotalBytes = 131072 := mirrorSite_total
  rw [← hcontent, content_mirror hmirror, htotal] at hbyte
  simp only [if_pos (show r.1 < 131072 by omega)] at hbyte
  rw [he]
  exact hbyte

/-- The mirror is full of zeros, and its load puts the bytes of the old volume there. -/
theorem destroyed_replayed_fails :
    oldSite.destroy plainDrives id destroyGood = (.ok, goneSite) ∧ (∀ p, goneSite.pools p = none) ∧
      (∀ l, goneSite.superblock l = none) ∧ mirrorSite.session.app.state = .mounted ∧
      mirrorSite.unmount id noFlush = (.ok, unmountedSite) ∧
      openRanges (oldSite.journals 0) = [(0, List.replicate 65536 7)] ∧
      ∃ t, (unmountedSite.holding fun _ _ => 0).load id id (mirrorLoad crashFiles) = some t ∧
        t.app.sys.d.pool 0 0 = 7 := by
  have hmember : ∀ n : ℕ, n < 2 → n ∈ [0, 1] := by decide
  have hgone := destroyLoop_deletes plainDrives id (show ∀ i, (destroyGood.pool i).delete = true from fun _ => rfl) (fun _ => rfl) [0, 1] 0
    ({ oldSite with session := { oldSite.session with
      app := (raidDestroy (noFlush.flush.plain 2) oldSite.session.app).2 } }.append [])
  refine ⟨oldSite_destroyed, fun p => hgone.1 p ?_, fun l => hgone.2 l ?_, mirrorSite_mounted, mirrorSite_unmounted,
    crashFiles_open, ?_⟩
  · by_cases hp : p < 2
    · exact Or.inr ⟨p, hmember p hp, rfl⟩
    · exact Or.inl (if_neg hp)
  · by_cases hl : l < 2
    · exact Or.inr ⟨l, hmember l hl, rfl⟩
    · exact Or.inl (if_neg hl)
  · have htaken : taken 131072 (0, List.replicate 65536 7) = true := by
      rw [taken_iff, List.length_replicate]
      decide
    obtain ⟨t, ht, hbyte⟩ := mirrorLoad_takes crashFiles_open htaken
    refine ⟨t, ht, hbyte.trans ?_⟩
    rw [List.getD_eq_getElem _ _ (by rw [List.length_replicate]; decide), List.getElem_replicate]

theorem destroyed_replayed_sample :
    (∀ l, ∃ tail, unmountedSite.journals l = oldSite.journals l ++ tail) ∧
      (Undisturbed unmountedSite mirrorSite.written id id ↔ RaidLevel.mirror = .stripe ∨ ∀ i < mirrorSite.volume.diskCount,
        ∀ r ∈ openRanges (unmountedSite.journals i), taken mirrorSite.volume.virtualTotalBytes r = false) :=
  destroyed_replayed oldSite_destroyed [0, 1] plainDisks.info oldSite.pools rfl mirrorSite_mounted mirrorSite_unmounted id id

end RaidTest.Service
