import RaidTest.Base.Trace
import RaidTest.Service.Effects
import RaidTest.Service.Picked

/-!
# The flags of the service

`rt.state`, `volume_valid`, `rt.mounted`, `cache_on` and `cache_enabled` are set one by one, each
command its own. `Turn` says what a command does to them, whatever the disks answer.
-/

namespace RaidTest.Service
open RaidTest.Base RaidTest.Stripe RaidTest.Mirror RaidTest.Cache RaidTest.Journal RaidTest.Volume

/-! ### What a command does to the flags -/

structure Flags where
  state : RaidState
  valid : Bool
  mounted : Bool
  cacheOn : Bool
  cacheEnabled : Bool
  flushThread : Bool

def AppState.flags (s : AppState) : Flags :=
  ⟨s.state, s.volumeValid, s.mounted, s.cacheOn, s.sys.v.cacheEnabled, s.flushThread⟩

def Console.flags (c : Console) : Flags := c.app.flags

/-- A member is made faulty by hand. -/
def Console.Fails (c : Console) (idx : Option ℕ) (mode : SimulateMode) : Prop :=
  (∃ i, idx = some i ∧ i < c.volume.diskCount) ∧ (mode = .fail ∨ mode = .disconnect)

/-- The wizard gets as far as a new volume. -/
def WizardEnv.Makes (env : WizardEnv) (c : Console) : Prop :=
  (wizardDisks env c).1 = true ∧
    (volumeCreate env.create (wizardDisks env c).2.session.disks (wizardDisks env c).2.app.sys).1 = true

/-- The flags a command other than `quick` leaves. -/
inductive Turn (c : Console) : Command → Flags → Prop
  | stays (op : Command) : Turn c op c.flags
  | scans (found : List FoundDisk) (state : RaidState) (h : state = .disconnected ∨ state = .discovered) :
      Turn c (.scan found) { c.flags with state := state }
  | inits (env : InitEnv) (args : List PoolArg) (h : c.flags.state = .discovered ∨ c.flags.state = .unmounted)
      (hok : (raidInitPools env args c).1 = .ok) : Turn c (.init env args) { c.flags with state := .initialized }
  | makes {op : Command} (env : CreateEnv) (hop : op = .create env ∨ op = .mirror env) :
      Turn c op ⟨.mounted, true, c.flags.mounted, false, false, false⟩
  | fails {op : Command} (env : CreateEnv) (hop : op = .create env ∨ op = .mirror env)
      (h : c.flags.state = .initialized) : Turn c op { c.flags with cacheEnabled := false }
  | caches (env : ℕ → BatchEnv) (m : CacheAlloc) (thread : Bool) (arg : CacheArg) (h : c.flags.state = .mounted) :
      Turn c (.cache env m thread arg) { c.flags with cacheOn := true, cacheEnabled := true, flushThread := thread }
  | uncaches (env : ℕ → BatchEnv) (m : CacheAlloc) (thread : Bool) (arg : CacheArg) :
      Turn c (.cache env m thread arg) { c.flags with cacheOn := false, cacheEnabled := false, flushThread := false }
  | mounts (fuse : Bool) (h : c.flags.valid = true) : Turn c (.mount fuse) { c.flags with mounted := true }
  | unmounts (env : ℕ → BatchEnv) (h : c.flags.state = .mounted) : Turn c (.unmount env)
      ⟨.unmounted, false, false, false, if c.flags.flushThread then false else c.flags.cacheEnabled, false⟩
  | destroys (env : ℕ → BatchEnv) (drop : DropEnv) (h : c.flags.state = .mounted ∨ c.flags.state = .unmounted) :
      Turn c (.destroy env drop)
        ⟨.discovered, false, false, false, if c.flags.flushThread then false else c.flags.cacheEnabled, false⟩
  | loads (a : RestoreEnv) (h : c.flags.state = .unmounted ∨ c.flags.state = .discovered) :
      Turn c (.load a) { c.flags with state := .mounted, valid := true, cacheEnabled := false }
  | loadFails (a : RestoreEnv) (h : c.flags.state = .unmounted ∨ c.flags.state = .discovered) :
      Turn c (.load a) { c.flags with cacheEnabled := false }
  | purges (drop : DropEnv) (h : c.flags.state = .initialized ∨ c.flags.state = .unmounted) : Turn c (.purge drop)
      { c.flags with state := .discovered, valid := false, cacheOn := false, mounted := false }
  | degrades (idx : Option ℕ) (mode : SimulateMode) (h : c.flags.state = .mounted) (hf : c.Fails idx mode) :
      Turn c (.simulate idx mode) { c.flags with state := .degraded }
  | wizardFails (env : WizardEnv) (h : (wizardDisks env c).1 = true) :
      Turn c (.wizard env) { c.flags with cacheEnabled := false }
  | wizardMakes (env : WizardEnv) (mounted on : Bool) (h : env.Makes c)
      (hm : c.flags.mounted = true → mounted = true) : Turn c (.wizard env)
        ⟨c.flags.state, true, mounted, c.flags.cacheOn || on, on, if on then env.thread else c.flags.flushThread⟩
  | cleans (env : ℕ → BatchEnv) (drop : DropEnv) : Turn c (.cleanup env drop)
      ⟨.disconnected, false, false, false, if c.flags.cacheOn then false else c.flags.cacheEnabled,
        if c.flags.cacheOn then false else c.flags.flushThread⟩

theorem raidScan_flags (found : List FoundDisk) (c : Console) : ∃ state,
    (state = .disconnected ∨ state = .discovered) ∧ (raidScan found c).2.flags = { c.flags with state := state } := by
  unfold raidScan
  simp only
  split
  · next t he =>
    refine ⟨.disconnected, Or.inl rfl, ?_⟩
    rw [← congrArg Prod.snd he]
    rfl
  · next table t _ he =>
    refine ⟨.discovered, Or.inr rfl, ?_⟩
    have ht : t = (diskScanAll found { c.withState .disconnected with devices := [] }).2 := (congrArg Prod.snd he).symm
    rw [ht]
    rfl

theorem raidInitPools_flags (env : InitEnv) (args : List PoolArg) (c : Console) :
    (raidInitPools env args c).2.flags = c.flags ∨
      (c.flags.state = .discovered ∨ c.flags.state = .unmounted) ∧ (raidInitPools env args c).1 = .ok ∧
        (raidInitPools env args c).2.flags = { c.flags with state := .initialized } := by
  unfold raidInitPools
  split
  · exact Or.inl rfl
  next hg =>
  split
  · exact Or.inl rfl
  have hstate : c.flags.state = .discovered ∨ c.flags.state = .unmounted := by
    simp only [Console.flags, AppState.flags]
    tauto
  generalize hu : (if c.app.state = .unmounted then c.cleanupPoolSession env.old ⟨c.info, env.file⟩
    else (c, ⟨c.info, env.file⟩)) = r
  obtain ⟨u, s⟩ := r
  have hflags : u.flags = c.flags := by
    split at hu <;> obtain ⟨rfl, _⟩ := Prod.mk.inj hu <;> rfl
  simp only
  have hw := (pick_remapped args u).session
  generalize initPoolsPick args u = p at hw
  obtain ⟨rc, pp, w⟩ := p
  have hkeep : w.flags = c.flags := by
    have h : w.flags = u.flags := congrArg (fun s => s.app.flags) hw
    exact h.trans hflags
  cases rc with
  | ok =>
    simp only
    split
    · exact Or.inl hkeep
    generalize initPoolsCreateFiles w.drives env.pool w.devices 0 pp [] s = m
    obtain ⟨rc, made, s'⟩ := m
    cases rc with
    | ok =>
      simp only
      split
      · exact Or.inl hkeep
      · refine Or.inr ⟨hstate, rfl, ?_⟩
        rw [← hkeep]
        rfl
    | _ => exact Or.inl hkeep
  | _ => exact Or.inl hkeep

theorem raidCreate_flags (env : CreateEnv) (s : Session) :
    (raidCreate env s).app.flags = s.app.flags ∨
      (raidCreate env s).app.flags = ⟨.mounted, true, s.app.mounted, false, false, false⟩ ∨
      s.app.state = .initialized ∧ (raidCreate env s).app.flags = { s.app.flags with cacheEnabled := false } := by
  unfold raidCreate
  split
  · exact Or.inl rfl
  next hg =>
  have hc := (volumeCreate_created env s.disks s.app.sys).enabled
  generalize volumeCreate env s.disks s.app.sys = r at hc
  obtain ⟨ok, sys⟩ := r
  simp only at hc
  cases ok with
  | true =>
    right; left
    simp only [AppState.flags, hc]
  | false =>
    right; right
    refine ⟨by tauto, ?_⟩
    simp only [AppState.flags, hc]

theorem raidMirror_flags (env : CreateEnv) (s : Session) :
    (raidMirror env s).app.flags = s.app.flags ∨
      (raidMirror env s).app.flags = ⟨.mounted, true, s.app.mounted, false, false, false⟩ ∨
      s.app.state = .initialized ∧ (raidMirror env s).app.flags = { s.app.flags with cacheEnabled := false } := by
  unfold raidMirror
  split
  · exact Or.inl rfl
  next hg =>
  have hc := (volumeMirror_mirrored env s.disks s.app.sys).enabled
  generalize volumeMirror env s.disks s.app.sys = r at hc
  obtain ⟨ok, sys⟩ := r
  simp only at hc
  cases ok with
  | true =>
    right; left
    simp only [AppState.flags, hc]
  | false =>
    right; right
    refine ⟨by tauto, ?_⟩
    simp only [AppState.flags, hc]

theorem raidExpand_flags (dr : Drives) (env : ℕ → PoolEnv) (file : Path → Option PoolFile) (physical : List DiskId)
    (args : List (Option (ℕ × ℕ))) (s : Session) :
    (raidExpand dr env file physical args s).app.flags = s.app.flags := by
  unfold raidExpand
  split
  · rfl
  have he := volumeExpand_expanded dr env s.volume ⟨s.app.sys.d.info, file⟩ physical args
  generalize volumeExpand dr env s.volume ⟨s.app.sys.d.info, file⟩ physical args = r at he
  obtain ⟨ok, v, pools⟩ := r
  have hv : v.cacheEnabled = s.app.sys.v.cacheEnabled := by
    cases ok with
    | false => exact congrArg StripeVolume.cacheEnabled (he.old rfl)
    | true =>
      obtain ⟨_, created, _, _, h, _⟩ := he.new rfl
      exact h
  simp only [AppState.flags, hv]

theorem raidRebuild_flags (env : PoolEnv) (renv : RebuildEnv) (file : Path → Option PoolFile) (args : List (Option ℕ))
    (c : Console) : (raidRebuild env renv file args c).2.flags = c.flags := by
  have hrebuild : ∀ replaceIdx newDiskId poolMb,
      (volumeRebuild c.drives env renv c.volume ⟨c.info, file⟩ c.physical replaceIdx newDiskId poolMb).2.1.cacheEnabled =
        c.volume.cacheEnabled := by
    intro replaceIdx newDiskId poolMb
    rcases volumeRebuild_rebuilt c.drives env renv c.volume ⟨c.info, file⟩ c.physical replaceIdx newDiskId poolMb with
      ⟨_, h, _⟩ | ⟨_, t, _, _, h, _⟩
    · rw [h]
    · rw [h]
      exact (mirrorVolumeRebuild_rebuilt renv c.volume (t.disks c.drives) _ replaceIdx).enabled
  unfold raidRebuild
  split
  · rfl
  simp only
  split
  · next i j =>
    have h := hrebuild i j (if minPoolMb < minPoolMb then minPoolMb else minPoolMb)
    generalize volumeRebuild c.drives env renv c.volume ⟨c.info, file⟩ c.physical i j _ = r at h ⊢
    obtain ⟨ok, v, s⟩ := r
    exact congrArg (fun b => { c.flags with cacheEnabled := b }) h
  · next i j mb _ =>
    have h := hrebuild i j (if mb < minPoolMb then minPoolMb else mb)
    generalize volumeRebuild c.drives env renv c.volume ⟨c.info, file⟩ c.physical i j _ = r at h ⊢
    obtain ⟨ok, v, s⟩ := r
    exact congrArg (fun b => { c.flags with cacheEnabled := b }) h
  · rfl

theorem raidCache_flags (env : ℕ → BatchEnv) (m : CacheAlloc) (thread : Bool) (arg : CacheArg) (s : AppState) :
    (raidCache env m thread arg s).2.flags = s.flags ∨
      s.state = .mounted ∧ (raidCache env m thread arg s).2.flags =
        { s.flags with cacheOn := true, cacheEnabled := true, flushThread := thread } ∨
      (raidCache env m thread arg s).2.flags =
        { s.flags with cacheOn := false, cacheEnabled := false, flushThread := false } := by
  unfold raidCache
  split
  · exact Or.inl rfl
  next hg =>
  have hstate : s.state = .mounted := by simpa using hg
  simp only
  cases arg with
  | wt =>
    simp only
    split
    · exact Or.inl rfl
    · exact Or.inl rfl
  | off =>
    simp only
    split
    · exact Or.inl rfl
    · right; right
      simp only [AppState.flags, (cleanup_members env s.sys).1]
  | default =>
    simp only
    split
    · exact Or.inl rfl
    generalize cacheInit m s.sys.v.cache _ = r
    obtain ⟨ok, cache⟩ := r
    cases ok with
    | false => exact Or.inl rfl
    | true => exact Or.inr (Or.inl ⟨hstate, rfl⟩)
  | size mb =>
    cases mb with
    | none =>
      simp only
      split <;> exact Or.inl rfl
    | some mb =>
      simp only
      split
      · exact Or.inl rfl
      generalize cacheInit m s.sys.v.cache _ = r
      obtain ⟨ok, cache⟩ := r
      cases ok with
      | false => exact Or.inl rfl
      | true => exact Or.inr (Or.inl ⟨hstate, rfl⟩)

theorem volumeUnmount_flags (env : ℕ → BatchEnv) (s : AppState) : (volumeUnmount env s).flags =
    ⟨s.state, s.volumeValid, false, false, if s.flushThread then false else s.sys.v.cacheEnabled, false⟩ := by
  unfold volumeUnmount
  have hc := (cleanup_members env s.sys).1
  cases hf : s.flushThread with
  | true =>
    simp only [if_true, AppState.flags]
    exact congrArg (fun b => (⟨s.state, s.volumeValid, false, false, b, false⟩ : Flags)) hc
  | false => rfl

theorem load_flags {a : RestoreEnv} {c t : Console} (h : c.load a = some t) : t.flags = c.flags ∨
    (c.flags.state = .unmounted ∨ c.flags.state = .discovered) ∧
      (t.flags = { c.flags with state := .mounted, valid := true, cacheEnabled := false } ∨
        t.flags = { c.flags with cacheEnabled := false }) := by
  unfold Console.load at h
  obtain ⟨s, hs, rfl⟩ := Option.map_eq_some_iff.mp h
  unfold raidLoad at hs
  split at hs
  · obtain rfl := Option.some.inj hs
    exact Or.inl rfl
  next hg =>
  have hstate : c.flags.state = .unmounted ∨ c.flags.state = .discovered := by
    simp only [Console.flags, AppState.flags, Console.app]
    tauto
  obtain ⟨⟨ok, u⟩, hu, rfl⟩ := Option.map_eq_some_iff.mp hs
  have hl := load_loaded hu
  have happ := hl.state
  have hflags : u.app.flags = { c.flags with cacheEnabled := u.app.sys.v.cacheEnabled } := by
    rw [happ]
    rfl
  cases ok with
  | true =>
    obtain ⟨sb, _, hoff, _⟩ := hl.new rfl
    refine Or.inr ⟨hstate, Or.inl ?_⟩
    rw [hoff] at hflags
    exact congrArg (fun f : Flags => { f with state := .mounted, valid := true }) hflags
  | false =>
    rcases (hl.old rfl).2 with ⟨hsame, _⟩ | ⟨sb, _, hv, _⟩
    · left
      rw [hsame] at hflags
      exact hflags
    · refine Or.inr ⟨hstate, Or.inr ?_⟩
      rw [hv] at hflags
      exact hflags

theorem raidSimulate_flags (idx : Option ℕ) (mode : SimulateMode) (c : Console) :
    (raidSimulate idx mode c).2.flags = c.flags ∨ c.flags.state = .mounted ∧ c.Fails idx mode ∧
      (raidSimulate idx mode c).2.flags = { c.flags with state := .degraded } := by
  unfold raidSimulate
  split
  · exact Or.inl rfl
  next hg =>
  have hstate : c.app.state = .mounted := by simpa using hg
  split
  · exact Or.inl rfl
  next i =>
  split
  · exact Or.inl rfl
  next hi =>
  have hfault : ∀ d : Disks, (simulateFault c.volume d (c.volume.diskAt i)).1.cacheEnabled = c.volume.cacheEnabled := by
    intro d
    unfold simulateFault
    split <;> rfl
  have hflags : ∀ (v : StripeVolume) (d : Disks), v.cacheEnabled = c.volume.cacheEnabled →
      ((c.withVolume v d).withState .degraded).flags = { c.flags with state := .degraded } := by
    intro v d hv
    exact congrArg (fun b => { c.flags with state := .degraded, cacheEnabled := b }) hv
  cases mode with
  | fail => exact Or.inr ⟨hstate, ⟨⟨i, rfl, Nat.not_le.mp hi⟩, Or.inl rfl⟩, hflags _ _ (hfault _)⟩
  | healthy =>
    left
    simp only
    split
    · rw [← hstate]
      rfl
    · rfl
  | disconnect => exact Or.inr ⟨hstate, ⟨⟨i, rfl, Nat.not_le.mp hi⟩, Or.inr rfl⟩, hflags _ _ (hfault _)⟩
  | other => exact Or.inl rfl

theorem wizardMap_flags (env : WizardEnv) (disks : List DiskId) (c : Console) :
    (wizardMap env disks c).flags = c.flags := by
  unfold wizardMap
  generalize disks.zipIdx = l
  induction l generalizing c with
  | nil => rfl
  | cons x l ih => exact ih _

theorem wizardDisks_flags (env : WizardEnv) (c : Console) : (wizardDisks env c).2.flags = c.flags := by
  unfold wizardDisks
  simp only
  split
  · next t he =>
    have ht : t = (diskScanAll env.found { c with physical := [] }).2 := (congrArg Prod.snd he).symm
    rw [ht]
    rfl
  · next table t _ he =>
    have ht : t = (diskScanAll env.found { c with physical := [] }).2 := (congrArg Prod.snd he).symm
    have hflags : t.flags = c.flags := by
      rw [ht]
      rfl
    split
    · exact hflags
    split
    · exact hflags
    · exact (wizardMap_flags env _ _).trans hflags

theorem volumeCacheEnable_flags (m : CacheAlloc) (thread : Bool) (mb : ℕ) (s : AppState) :
    (volumeCacheEnable m thread mb s).flags = s.flags ∨ (volumeCacheEnable m thread mb s).flags =
      { s.flags with cacheOn := true, cacheEnabled := true, flushThread := thread } := by
  unfold volumeCacheEnable
  generalize cacheInit m s.sys.v.cache _ = r
  obtain ⟨ok, cache⟩ := r
  cases ok with
  | false => exact Or.inl rfl
  | true => exact Or.inr rfl

/-- What the wizard does to the flags once it has its pools. -/
theorem raidWizard_turn (env : WizardEnv) (c : Console) : Turn c (.wizard env) (raidWizard env c).flags := by
  have hsame := wizardDisks_flags env c
  unfold raidWizard
  generalize hr : wizardDisks env c = r at hsame
  obtain ⟨reached, u⟩ := r
  cases reached with
  | false =>
    simp only at hsame ⊢
    rw [hsame]
    exact Turn.stays _
  | true =>
    have hreached : (wizardDisks env c).1 = true := by rw [hr]
    have hmakes : (volumeCreate env.create u.session.disks u.app.sys).1 = true → env.Makes c := by
      intro h
      refine ⟨hreached, ?_⟩
      rw [hr]
      exact h
    have hc := (volumeCreate_created env.create u.session.disks u.app.sys).enabled
    simp only at hsame ⊢
    generalize volumeCreate env.create u.session.disks u.app.sys = r at hc hmakes
    obtain ⟨ok, sys⟩ := r
    simp only at hc hmakes
    cases ok with
    | false =>
      have hflags : (u.withApp { u.app with sys := sys }).flags = { c.flags with cacheEnabled := false } := by
        rw [← hsame, ← hc]
        rfl
      simp only
      rw [hflags]
      exact Turn.wizardFails env hreached
    | true =>
      have hmade : AppState.flags { u.app with sys := sys, volumeValid := true } =
          { c.flags with valid := true, cacheEnabled := false } := by
        rw [← hsame, ← hc]
        rfl
      simp only
      have hon := volumeCacheEnable_flags env.alloc env.thread env.cacheMb { u.app with sys := sys, volumeValid := true }
      generalize volumeCacheEnable env.alloc env.thread env.cacheMb { u.app with sys := sys, volumeValid := true } = app
        at hon
      rw [hmade] at hon
      have hfuse : (u.withApp (if env.fuse then { app with mounted := true } else app)).flags =
          { app.flags with mounted := env.fuse || app.flags.mounted } := by
        cases env.fuse <;> rfl
      rw [hfuse]
      rcases hon with hon | hon
      · rw [hon]
        have hturn := Turn.wizardMakes env (env.fuse || c.flags.mounted) false (hmakes rfl) fun h => by rw [h, Bool.or_true]
        rw [Bool.or_false] at hturn
        exact hturn
      · rw [hon]
        have hturn := Turn.wizardMakes env (env.fuse || c.flags.mounted) true (hmakes rfl) fun h => by rw [h, Bool.or_true]
        rw [Bool.or_true] at hturn
        exact hturn

theorem raidCleanup_flags (env : ℕ → BatchEnv) (drop : DropEnv) (c : Console) : (raidCleanup env drop c).flags =
    ⟨.disconnected, false, false, false, if c.flags.cacheOn then false else c.flags.cacheEnabled,
      if c.flags.cacheOn then false else c.flags.flushThread⟩ := by
  have hc := (cleanup_members env c.app.sys).1
  have hcache : (cleanupCache env c.app).sys.v.cacheEnabled =
        (if c.flags.cacheOn then false else c.flags.cacheEnabled) ∧
      (cleanupCache env c.app).flushThread = if c.flags.cacheOn then false else c.flags.flushThread := by
    unfold cleanupCache
    split
    · next h => rw [if_pos (show c.flags.cacheOn = true from h)]; exact ⟨hc, (if_pos h).symm⟩
    · next h => rw [if_neg (show ¬ c.flags.cacheOn = true from h)]; exact ⟨rfl, (if_neg h).symm⟩
  have hvolume : (cleanupVolume (cleanupCache env c.app)).sys.v.cacheEnabled = (cleanupCache env c.app).sys.v.cacheEnabled ∧
      (cleanupVolume (cleanupCache env c.app)).flushThread = (cleanupCache env c.app).flushThread := by
    unfold cleanupVolume
    simp only
    split <;> exact ⟨rfl, rfl⟩
  rw [← hcache.1, ← hcache.2, ← hvolume.1, ← hvolume.2]
  rfl

/-! ### Each command -/

theorem raidScan_turn (found : List FoundDisk) (c : Console) : Turn c (.scan found) (raidScan found c).2.flags := by
  obtain ⟨state, hs, he⟩ := raidScan_flags found c
  rw [he]
  exact Turn.scans found state hs

theorem raidSelect_flags (args : List (Option ℕ)) (c : Console) : (raidSelect args c).2.flags = c.flags := by
  unfold raidSelect
  split
  · rfl
  split
  · rfl
  split
  · rfl
  · next ids _ => exact congrArg (fun s => s.app.flags) (deviceSelect_devices args.length ids c).2

theorem raidMapdrive_flags (diskId letter : ℕ) (c : Console) : (raidMapdrive diskId letter c).2.flags = c.flags := by
  unfold raidMapdrive
  split
  · rfl
  split
  · rfl
  split
  · rfl
  · next u hu =>
    unfold deviceMapDrive at hu
    split at hu
    · obtain ⟨tag, _, rfl⟩ := Option.map_eq_some_iff.mp hu
      rfl
    · cases hu

/-- A command that leaves the flags. -/
theorem Turn.same {c t : Console} {op : Command} (h : t.flags = c.flags) : Turn c op t.flags := h ▸ Turn.stays op

theorem raidInitPools_turn (env : InitEnv) (args : List PoolArg) (c : Console) :
    Turn c (.init env args) (raidInitPools env args c).2.flags := by
  rcases raidInitPools_flags env args c with he | ⟨hs, hok, he⟩
  · exact Turn.same he
  · rw [he]
    exact Turn.inits env args hs hok

theorem raidCreate_turn (env : CreateEnv) (c : Console) : Turn c (.create env) (raidCreate env c.session).app.flags := by
  rcases raidCreate_flags env c.session with he | he | ⟨hs, he⟩
  · rw [he]
    exact Turn.stays _
  · rw [he]
    exact Turn.makes env (Or.inl rfl)
  · rw [he]
    exact Turn.fails env (Or.inl rfl) hs

theorem raidMirror_turn (env : CreateEnv) (c : Console) : Turn c (.mirror env) (raidMirror env c.session).app.flags := by
  rcases raidMirror_flags env c.session with he | he | ⟨hs, he⟩
  · rw [he]
    exact Turn.stays _
  · rw [he]
    exact Turn.makes env (Or.inr rfl)
  · rw [he]
    exact Turn.fails env (Or.inr rfl) hs

theorem raidCache_turn (env : ℕ → BatchEnv) (m : CacheAlloc) (thread : Bool) (arg : CacheArg) (c : Console) :
    Turn c (.cache env m thread arg) (raidCache env m thread arg c.app).2.flags := by
  rcases raidCache_flags env m thread arg c.app with he | ⟨hs, he⟩ | he
  · rw [he]
    exact Turn.stays _
  · rw [he]
    exact Turn.caches env m thread arg hs
  · rw [he]
    exact Turn.uncaches env m thread arg

theorem raidMount_turn (fuse : Bool) (c : Console) : Turn c (.mount fuse) (raidMount fuse c).2.flags := by
  unfold raidMount
  split
  · exact Turn.stays _
  split
  · exact Turn.stays _
  next hv =>
  split
  · exact Turn.stays _
  split
  · have hvalid : c.app.volumeValid = true := by simpa using hv
    exact Turn.mounts fuse hvalid
  · exact Turn.stays _

theorem raidUnmount_turn (env : ℕ → BatchEnv) (c : Console) :
    Turn c (.unmount env) (c.withApp (raidUnmount env c.app).2).flags := by
  unfold raidUnmount
  split
  · exact Turn.stays _
  · next hs =>
    have he : (c.withApp { volumeUnmount env c.app with state := .unmounted, volumeValid := false }).flags =
        { (volumeUnmount env c.app).flags with state := .unmounted, valid := false } := rfl
    rw [he, volumeUnmount_flags]
    have hstate : c.app.state = .mounted := by simpa using hs
    exact Turn.unmounts env hstate

theorem raidLoad_turn {a : RestoreEnv} {c t : Console} (h : c.load a = some t) : Turn c (.load a) t.flags := by
  rcases load_flags h with he | ⟨hs, he | he⟩
  · exact Turn.same he
  · rw [he]
    exact Turn.loads a hs
  · rw [he]
    exact Turn.loadFails a hs

theorem raidDestroy_turn (env : ℕ → BatchEnv) (drop : DropEnv) (c : Console) :
    Turn c (.destroy env drop) (c.destroy env drop).2.flags := by
  unfold Console.destroy raidDestroy
  split
  · next hr =>
    split at hr
    · cases hr
    · next hs =>
      obtain ⟨_, rfl⟩ := Prod.mk.inj hr
      have he : ∀ d, ((c.withApp { volumeUnmount env c.app with state := .discovered, volumeValid := false }).withDisks
          d).flags = { (volumeUnmount env c.app).flags with state := .discovered, valid := false } := fun _ => rfl
      simp only
      rw [he, volumeUnmount_flags]
      apply Turn.destroys env drop
      simp only [Console.flags, AppState.flags]
      tauto
  · exact Turn.stays _

theorem raidPurge_turn (drop : DropEnv) (c : Console) : Turn c (.purge drop) (raidPurge drop c).2.flags := by
  unfold raidPurge
  split
  · exact Turn.stays _
  · next hs =>
    refine Turn.purges drop ?_
    simp only [Console.flags, AppState.flags]
    tauto

theorem raidSimulate_turn (idx : Option ℕ) (mode : SimulateMode) (c : Console) :
    Turn c (.simulate idx mode) (raidSimulate idx mode c).2.flags := by
  rcases raidSimulate_flags idx mode c with he | ⟨hs, hf, he⟩
  · exact Turn.same he
  · rw [he]
    exact Turn.degrades idx mode hs hf

/-- A read or write of the volume leaves the flags. -/
theorem transfer_turn {c t : Console} {op : Command} {α : Type} {volume : α → StripeVolume} {disks : α → Disks} {r : Option α}
    (hsame : ∀ x, r = some x → (volume x).cacheEnabled = c.volume.cacheEnabled)
    (h : (if c.app.volumeValid then r.map fun x => c.withVolume (volume x) (disks x) else none) = some t) :
    Turn c op t.flags := by
  split at h
  · obtain ⟨x, hx, rfl⟩ := Option.map_eq_some_iff.mp h
    exact Turn.same (congrArg (fun b => { c.flags with cacheEnabled := b }) (hsame x hx))
  · cases h

/-- One command other than `quick`. -/
theorem step_turn {c t : Console} {op : Command} (hq : ∀ env, op ≠ .quick env) (h : c.step op = some t) :
    Turn c op t.flags := by
  cases op with
  | scan found =>
    obtain rfl := Option.some.inj h
    exact raidScan_turn found c
  | select args =>
    obtain rfl := Option.some.inj h
    exact Turn.same (raidSelect_flags args c)
  | mapdrive diskId letter =>
    obtain rfl := Option.some.inj h
    exact Turn.same (raidMapdrive_flags diskId letter c)
  | init env args =>
    obtain rfl := Option.some.inj h
    exact raidInitPools_turn env args c
  | create env =>
    obtain rfl := Option.some.inj h
    exact raidCreate_turn env c
  | mirror env =>
    obtain rfl := Option.some.inj h
    exact raidMirror_turn env c
  | expand env file args =>
    obtain rfl := Option.some.inj h
    exact Turn.same (raidExpand_flags c.drives env file c.physical args c.session)
  | rebuild env renv file args =>
    obtain rfl := Option.some.inj h
    exact Turn.same (raidRebuild_flags env renv file args c)
  | cache env m thread arg =>
    obtain rfl := Option.some.inj h
    exact raidCache_turn env m thread arg c
  | mount fuse =>
    obtain rfl := Option.some.inj h
    exact raidMount_turn fuse c
  | unmount env =>
    obtain rfl := Option.some.inj h
    exact raidUnmount_turn env c
  | load a => exact raidLoad_turn h
  | destroy env drop =>
    obtain rfl := Option.some.inj h
    exact raidDestroy_turn env drop c
  | purge drop =>
    obtain rfl := Option.some.inj h
    exact raidPurge_turn drop c
  | simulate idx mode =>
    obtain rfl := Option.some.inj h
    exact raidSimulate_turn idx mode c
  | quick env => exact absurd rfl (hq env)
  | wizard env =>
    obtain rfl := Option.some.inj h
    exact raidWizard_turn env c
  | cleanup env drop =>
    obtain rfl := Option.some.inj h
    rw [raidCleanup_flags]
    exact Turn.cleans env drop
  | read io buffer offset length => exact transfer_turn (fun _ hx => (stripeVolumeRead_volume hx).enabled) h
  | write io buffer offset length => exact transfer_turn (fun _ hx => (stripeVolumeWrite_volume hx).enabled) h

/-- What the scan establishes and the parts of `quick` behind it keep, `quick` leaves. -/
theorem raidQuick_rule {I : Console → Prop} {env : QuickEnv} {c : Console} (hscan : I (raidScan env.found c).2)
    (hinit : ∀ args c, I c → I (raidInitPools env.init args c).2)
    (hcreate : ∀ c, I c → I (c.withSession (raidCreate env.create c.session)))
    (hcache : ∀ mb c, I c → I (c.withApp (raidCache env.create.flush env.alloc env.thread (.size (some mb)) c.app).2))
    (hmount : ∀ c, I c → I (raidMount env.fuse c).2) : I (raidQuick env c).2 := by
  unfold raidQuick
  generalize raidScan env.found c = r at hscan
  obtain ⟨rc, t⟩ := r
  cases rc with
  | ok =>
    simp only
    split
    · exact hscan
    split
    · exact hscan
    next args _ =>
    split
    · exact hscan
    have hi := hinit (args.take 16) t hscan
    generalize raidInitPools env.init (args.take 16) t = r at hi
    obtain ⟨rc, u⟩ := r
    cases rc with
    | ok =>
      simp only
      have hc := hcreate u hi
      split
      · exact hmount _ (hcache _ _ hc)
      · exact hc
    | _ => exact hi
  | _ => exact hscan

end RaidTest.Service
