import RaidTest.Service.Flags

/-!
# Flags that agree, and volumes that can be released

Every command tests `rt.state` only, and `scan` and the wizard not even that. As long as these
two do not meet a volume, the other flags follow the state.
-/

namespace RaidTest.Service
open RaidTest.Base RaidTest.Stripe RaidTest.Mirror RaidTest.Cache RaidTest.Journal RaidTest.Volume

/-! ### The flags agree -/

structure Agreed (f : Flags) : Prop where
  state : f.valid = true → f.state = .mounted ∨ f.state = .degraded
  mounted : f.mounted = true → f.valid = true
  cache : f.cacheOn = f.cacheEnabled
  enabled : f.cacheEnabled = true → f.valid = true

/-- The flags agree, and the states with a volume have one. -/
structure Steady (f : Flags) : Prop extends Agreed f where
  ready : f.state = .mounted ∨ f.state = .degraded → f.valid = true

/-- `scan` and `quick` find no volume, a cache that is given up has its flush thread, and the
wizard makes a volume only where one is in use, without a cache. -/
def Console.KeepsFlags (c : Console) : Command → Prop
  | .scan _ | .quick _ => c.flags.valid = false
  | .unmount _ | .destroy _ _ =>
    c.flags.state = .mounted → c.flags.cacheEnabled = true → c.flags.flushThread = true
  | .wizard env => ((wizardDisks env c).1 = true → c.flags.cacheOn = false) ∧
      (env.Makes c → c.flags.state = .mounted ∨ c.flags.state = .degraded)
  | _ => True

/-- A state without a volume has neither a cache nor a mount. -/
theorem Steady.empty {f : Flags} (h : Steady f) (hv : f.valid = false) :
    f.mounted = false ∧ f.cacheOn = false ∧ f.cacheEnabled = false := by
  have hnot : ∀ b : Bool, (b = true → f.valid = true) → b = false := by
    intro b hb
    cases b with
    | false => rfl
    | true => exact absurd (hb rfl) (by rw [hv]; decide)
  have he := hnot _ h.enabled
  exact ⟨hnot _ h.mounted, h.cache.trans he, he⟩

theorem Steady.invalid {f : Flags} (h : Steady f) (hs : f.state ≠ .mounted ∧ f.state ≠ .degraded) : f.valid = false := by
  cases hv : f.valid with
  | false => rfl
  | true =>
    rcases h.state hv with hm | hm
    · exact absurd hm hs.1
    · exact absurd hm hs.2

/-- Flags without a volume agree in every other state. -/
theorem Steady.off {state : RaidState} (hs : state ≠ .mounted ∧ state ≠ .degraded) (thread : Bool) :
    Steady ⟨state, false, false, false, false, thread⟩ where
  state := fun h => by cases h
  mounted := fun h => by cases h
  cache := rfl
  enabled := fun h => by cases h
  ready := fun h => by
    rcases h with h | h
    · exact absurd h hs.1
    · exact absurd h hs.2

theorem Steady.eq_off {f : Flags} (h : Steady f) (hv : f.valid = false) :
    f = ⟨f.state, false, false, false, false, f.flushThread⟩ := by
  obtain ⟨hm, ho, he⟩ := h.empty hv
  obtain ⟨state, valid, mounted, on, enabled, thread⟩ := f
  simp only at hv hm ho he
  rw [hv, hm, ho, he]

/-- With a volume, only the mount and the cache remain to agree. -/
theorem Steady.on {state : RaidState} (hs : state = .mounted ∨ state = .degraded) (mounted on thread : Bool) :
    Steady ⟨state, true, mounted, on, on, thread⟩ where
  state := fun _ => hs
  mounted := fun _ => rfl
  cache := rfl
  enabled := fun _ => rfl
  ready := fun _ => rfl

theorem Steady.eq_on {f : Flags} (h : Steady f) (hv : f.valid = true) :
    f = ⟨f.state, true, f.mounted, f.cacheEnabled, f.cacheEnabled, f.flushThread⟩ := by
  have hc := h.cache
  obtain ⟨state, valid, mounted, on, enabled, thread⟩ := f
  simp only at hv hc
  rw [hv, hc]

/-- The flags a volume leaves that is given up. -/
theorem Steady.released {f : Flags} (h : Steady f) {state : RaidState} (hs : state ≠ .mounted ∧ state ≠ .degraded)
    (hthread : f.state = .mounted → f.cacheEnabled = true → f.flushThread = true) (hd : f.state ≠ .degraded) :
    Steady ⟨state, false, false, false, if f.flushThread then false else f.cacheEnabled, false⟩ := by
  have hoff : (if f.flushThread then false else f.cacheEnabled) = false := by
    cases ht : f.flushThread with
    | true => rfl
    | false =>
      cases he : f.cacheEnabled with
      | false => rfl
      | true =>
        have hm : f.state = .mounted := (h.state (h.enabled he)).resolve_right hd
        exact absurd (hthread hm he) (by rw [ht]; decide)
  rw [hoff]
  exact Steady.off hs false

theorem turn_steady {c : Console} {op : Command} {f : Flags} (ht : Turn c op f) (h : Steady c.flags)
    (hk : c.KeepsFlags op) : Steady f := by
  have hunready : ∀ {s : RaidState}, c.flags.state = s → s ≠ .mounted ∧ s ≠ .degraded → c.flags.valid = false := by
    intro s hs hne
    exact h.invalid (by rw [hs]; exact hne)
  have hidle : ∀ {state : RaidState}, state ≠ .mounted ∧ state ≠ .degraded → c.flags.valid = false →
      Steady { c.flags with state := state } := by
    intro state hs hv
    rw [h.eq_off hv]
    exact Steady.off hs _
  cases ht with
  | stays => exact h
  | scans found state hs =>
    have hne : state ≠ .mounted ∧ state ≠ .degraded := by
      rcases hs with rfl | rfl <;> decide
    exact hidle hne hk
  | inits env args hs hok =>
    have hv : c.flags.valid = false := by
      rcases hs with hs | hs <;> exact hunready hs (by decide)
    exact hidle (by decide) hv
  | makes env hop => exact Steady.on (Or.inl rfl) _ false false
  | fails env hop hs =>
    rw [h.eq_off (hunready hs (by decide))]
    exact Steady.off (by rw [hs]; decide) _
  | caches env m thread arg hs =>
    rw [h.eq_on (h.ready (Or.inl hs))]
    exact Steady.on (Or.inl hs) _ true thread
  | uncaches env m thread arg =>
    cases hv : c.flags.valid with
    | true =>
      rw [h.eq_on hv]
      exact Steady.on (h.state hv) _ false false
    | false =>
      have hne : c.flags.state ≠ .mounted ∧ c.flags.state ≠ .degraded := by
        constructor <;> intro hs <;> have := h.ready (by tauto) <;> rw [hv] at this <;> cases this
      rw [h.eq_off hv]
      exact Steady.off hne _
  | mounts fuse hv =>
    rw [h.eq_on hv]
    exact Steady.on (h.state hv) true _ _
  | unmounts env hs => exact h.released (by decide) hk (by rw [hs]; decide)
  | destroys env drop hs =>
    refine h.released (by decide) hk ?_
    rcases hs with hs | hs <;> rw [hs] <;> decide
  | loads a hs =>
    have hv : c.flags.valid = false := by
      rcases hs with hs | hs <;> exact hunready hs (by decide)
    rw [h.eq_off hv]
    exact Steady.on (Or.inl rfl) _ _ _
  | loadFails a hs =>
    have hv : c.flags.valid = false := by
      rcases hs with hs | hs <;> exact hunready hs (by decide)
    rw [h.eq_off hv]
    exact Steady.off (by rcases hs with hs | hs <;> rw [hs] <;> decide) _
  | purges drop hs =>
    have hv : c.flags.valid = false := by
      rcases hs with hs | hs <;> exact hunready hs (by decide)
    rw [h.eq_off hv]
    exact Steady.off (by decide) _
  | degrades idx mode hs hf =>
    rw [h.eq_on (h.ready (Or.inl hs))]
    exact Steady.on (Or.inr rfl) _ _ _
  | wizardFails env hr =>
    have hon := hk.1 hr
    have he : { c.flags with cacheEnabled := false } = c.flags := by
      rw [← hon, h.cache]
    rw [he]
    exact h
  | wizardMakes env mounted on hmakes hm =>
    rw [hk.1 hmakes.1, Bool.false_or]
    exact Steady.on (hk.2 hmakes) _ _ _
  | cleans env drop =>
    have hoff : (if c.flags.cacheOn then false else c.flags.cacheEnabled) = false := by
      cases ho : c.flags.cacheOn with
      | true => rfl
      | false => exact h.cache.symm.trans ho
    rw [hoff]
    exact Steady.off (by decide) _

theorem step_steady {c t : Console} {op : Command} (h : Steady c.flags) (hk : c.KeepsFlags op) (ht : c.step op = some t) :
    Steady t.flags := by
  have hturn : ∀ {c t : Console} (op : Command), (∀ env, op ≠ .quick env) → Steady c.flags → c.KeepsFlags op →
      c.step op = some t → Steady t.flags := by
    intro c t op hq h hk ht
    exact turn_steady (step_turn hq ht) h hk
  cases op with
  | quick env =>
    obtain rfl := Option.some.inj ht
    -- `quick` is a scan, and four commands that need nothing more
    apply raidQuick_rule (I := fun c => Steady c.flags)
    · exact hturn (.scan env.found) (fun _ he => by cases he) h hk rfl
    · exact fun args c h => hturn (.init env.init args) (fun _ he => by cases he) h True.intro rfl
    · exact fun c h => hturn (.create env.create) (fun _ he => by cases he) h True.intro rfl
    · exact fun mb c h => hturn (.cache env.create.flush env.alloc env.thread (.size (some mb)))
        (fun _ he => by cases he) h True.intro rfl
    · exact fun c h => hturn (.mount env.fuse) (fun _ he => by cases he) h True.intro rfl
  | _ => exact hturn _ (fun _ he => by cases he) h hk ht

theorem start_steady (d : Disks) : Steady (Console.start d).flags := by
  have hs : RaidState.disconnected ≠ .mounted ∧ RaidState.disconnected ≠ .degraded := by decide
  exact Steady.off hs false

/-- In a run where `scan`, `quick`, the wizard and the release of the cache meet only what
they are written for, the flags agree in every state. -/
theorem flags_agree (d : Disks) (ops : List Command) {t : Console}
    (hops : Along Console.step Console.KeepsFlags (Console.start d) ops)
    (h : run Console.step (Console.start d) ops = some t) : Agreed t.flags :=
  (run_invariant (I := fun c => Steady c.flags) (fun _ _ _ hi hk ht => step_steady hi hk ht) hops
    (start_steady d) h).toAgreed

/-- Pools on C and D, and no trouble with them. -/
def goodCreate : CreateEnv := ⟨fun _ => .good, fun _ => true, true⟩

def twoPools : Command := .init freshPools [.plain (some 0) (some 0), .plain (some 1) (some 1)]

/-- A scan with the volume mounted makes the state DISCOVERED, and the volume stays valid. -/
theorem flags_agree_fails : ∃ t, run Console.step emptyConsole
    [.scan twoDrives, twoPools, .create goodCreate, .scan twoDrives] = some t ∧ ¬ Agreed t.flags := by
  refine ⟨_, rfl, fun h => ?_⟩
  rcases h.state rfl with hs | hs
  · cases hs
  · cases hs

theorem flags_agree_sample : ∃ t, run Console.step emptyConsole
    [.scan twoDrives, twoPools, .create goodCreate, .mount true, .unmount fun _ => .good] = some t ∧ Agreed t.flags :=
  ⟨_, rfl, flags_agree ⟨fun _ => scannedDisk, fun _ _ => 0⟩
    [.scan twoDrives, twoPools, .create goodCreate, .mount true, .unmount fun _ => .good]
    (along_cons rfl rfl <| along_cons rfl True.intro <| along_cons rfl True.intro <| along_cons rfl True.intro <|
      along_cons rfl (fun _ he => by cases he) True.intro) rfl⟩

/-! ### A valid volume can be released -/

/-- The state of a valid volume is one that `unmount` or `destroy` accepts. -/
def Releasable (f : Flags) : Prop := f.valid = true → f.state = .mounted ∨ f.state = .unmounted

/-- No member of the volume is made faulty by hand, `scan` and `quick` find no volume, `init` makes
no pools over one, and the wizard makes one only where it can be released. -/
def Console.KeepsRelease (c : Console) : Command → Prop
  | .scan _ | .quick _ => c.flags.valid = false
  | .init env args => c.flags.valid = true → c.flags.state = .unmounted → (raidInitPools env args c).1 ≠ .ok
  | .simulate idx mode => c.flags.state = .mounted → ¬ c.Fails idx mode
  | .wizard env => env.Makes c → c.flags.state = .mounted ∨ c.flags.state = .unmounted
  | _ => True

theorem turn_releasable {c : Console} {op : Command} {f : Flags} (ht : Turn c op f) (h : Releasable c.flags)
    (hk : c.KeepsRelease op) : Releasable f := by
  intro hv
  cases ht with
  | stays => exact h hv
  | scans found state hs =>
    have hnone : c.flags.valid = false := hk
    exact absurd hv (by rw [hnone]; decide)
  | inits env args hs hok =>
    rcases hs with hs | hs
    · rcases h hv with hm | hm
      · rw [hs] at hm; cases hm
      · rw [hs] at hm; cases hm
    · exact absurd hok (hk hv hs)
  | makes => exact Or.inl rfl
  | fails => exact h hv
  | caches => exact h hv
  | uncaches => exact h hv
  | mounts => exact h hv
  | unmounts => cases hv
  | destroys => cases hv
  | loads => exact Or.inl rfl
  | loadFails => exact h hv
  | purges => cases hv
  | degrades idx mode hs hf => exact absurd hf (hk hs)
  | wizardFails => exact h hv
  | wizardMakes env mounted on hmakes hm => exact hk hmakes
  | cleans => cases hv

/-- The parts of `quick` behind the scan keep a volume they make mounted. -/
theorem turn_usable {c : Console} {op : Command} {f : Flags} (ht : Turn c op f)
    (hop : (∃ env args, op = .init env args) ∨ (∃ env, op = .create env) ∨ (∃ env m thread arg, op = .cache env m thread arg) ∨
      ∃ fuse, op = .mount fuse) (h : c.flags.valid = true → c.flags.state = .mounted) :
    f.valid = true → f.state = .mounted := by
  intro hv
  cases ht with
  | stays => exact h hv
  | inits env args hs hok =>
    have hm := h hv
    rcases hs with hs | hs <;> rw [hs] at hm <;> cases hm
  | makes => rfl
  | fails => exact h hv
  | caches => exact h hv
  | uncaches => exact h hv
  | mounts => exact h hv
  | _ => rcases hop with ⟨_, _, h⟩ | ⟨_, h⟩ | ⟨_, _, _, _, h⟩ | ⟨_, h⟩ <;> cases h

theorem step_releasable {c t : Console} {op : Command} (h : Releasable c.flags) (hk : c.KeepsRelease op)
    (ht : c.step op = some t) : Releasable t.flags := by
  cases op with
  | quick env =>
    obtain rfl := Option.some.inj ht
    have hmounted : (raidQuick env c).2.flags.valid = true → (raidQuick env c).2.flags.state = .mounted := by
      apply raidQuick_rule (I := fun c => c.flags.valid = true → c.flags.state = .mounted)
      · intro hv
        obtain ⟨state, _, he⟩ := raidScan_flags env.found c
        rw [he] at hv
        have hnone : c.flags.valid = false := hk
        exact absurd hv (by rw [hnone]; decide)
      · exact fun args c h => turn_usable (raidInitPools_turn env.init args c) (Or.inl ⟨_, _, rfl⟩) h
      · exact fun c h => turn_usable (raidCreate_turn env.create c) (Or.inr (Or.inl ⟨_, rfl⟩)) h
      · exact fun mb c h => turn_usable (raidCache_turn env.create.flush env.alloc env.thread (.size (some mb)) c)
          (Or.inr (Or.inr (Or.inl ⟨_, _, _, _, rfl⟩))) h
      · exact fun c h => turn_usable (raidMount_turn env.fuse c) (Or.inr (Or.inr (Or.inr ⟨_, rfl⟩))) h
    intro hv
    exact Or.inl (hmounted hv)
  | _ => exact turn_releasable (step_turn (fun _ he => by cases he) ht) h hk

theorem raidUnmount_accepts {s : AppState} (h : s.state = .mounted) (env : ℕ → BatchEnv) :
    (raidUnmount env s).1 ≠ .errInvalidState := by
  unfold raidUnmount
  rw [if_neg fun hne => hne h]
  intro he
  cases he

theorem destroy_accepts {c : Console} (h : c.app.state = .unmounted) (env : ℕ → BatchEnv) (drop : DropEnv) :
    (c.destroy env drop).1 ≠ .errInvalidState := by
  unfold Console.destroy raidDestroy
  rw [if_neg fun hne => hne.2 h]
  intro he
  cases he

/-- Only a mounted volume accepts `simulate`, and a member made faulty leaves it degraded. -/
theorem raidSimulate_degrades {c : Console} {idx : Option ℕ} {mode : SimulateMode}
    (hmode : mode = .fail ∨ mode = .disconnect) (h : (raidSimulate idx mode c).1 = .ok) :
    c.flags.state = .mounted ∧ c.Fails idx mode ∧ (raidSimulate idx mode c).2.app.state = .degraded := by
  unfold raidSimulate at h ⊢
  split at h
  · cases h
  next hg =>
  have hstate : c.app.state = .mounted := by simpa using hg
  rw [if_neg hg]
  cases idx with
  | none => cases h
  | some i =>
    simp only at h ⊢
    split at h
    · cases h
    next hi =>
    rw [if_neg hi]
    refine ⟨hstate, ⟨⟨i, rfl, Nat.not_le.mp hi⟩, hmode⟩, ?_⟩
    rcases hmode with rfl | rfl <;> rfl

/-- In a run that meets no volume where the commands do not look for one, and makes no member
faulty by hand, a valid volume can be unmounted or destroyed. The last part is why no member may be made
faulty: it can never be made healthy by hand again. -/
theorem volume_released (d : Disks) (ops : List Command) {t : Console}
    (hops : Along Console.step Console.KeepsRelease (Console.start d) ops)
    (h : run Console.step (Console.start d) ops = some t) :
    (t.app.volumeValid = true → (∀ env, (raidUnmount env t.app).1 ≠ .errInvalidState) ∨
        ∀ env drop, (t.destroy env drop).1 ≠ .errInvalidState) ∧
      (∀ pre idx mode post c, ops = pre ++ .simulate idx mode :: post → run Console.step (Console.start d) pre = some c →
        (mode = .fail ∨ mode = .disconnect) → (raidSimulate idx mode c).1 = .ok →
          (raidSimulate idx .healthy (raidSimulate idx mode c).2).1 ≠ .errInvalidState) ∧
      ∀ (c : Console) (idx : Option ℕ) (mode : SimulateMode), mode = .fail ∨ mode = .disconnect →
        (raidSimulate idx mode c).1 = .ok →
          (raidSimulate idx .healthy (raidSimulate idx mode c).2).1 = .errInvalidState := by
  refine ⟨?_, ?_, ?_⟩
  · intro hv
    have hrel := run_invariant (I := fun c => Releasable c.flags) (fun _ _ _ hi hk ht => step_releasable hi hk ht) hops
      (fun he => by cases he) h
    rcases hrel hv with hs | hs
    · exact Or.inl (raidUnmount_accepts hs)
    · exact Or.inr (destroy_accepts hs)
  · intro pre idx mode post c he hr hmode hok
    obtain ⟨hs, hf, _⟩ := raidSimulate_degrades hmode hok
    exact absurd hf (along_iff.mp hops pre _ post c he hr hs)
  · intro c idx mode hmode hok
    have hs := (raidSimulate_degrades hmode hok).2.2
    generalize (raidSimulate idx mode c).2 = u at hs
    unfold raidSimulate
    rw [if_pos (by rw [hs]; decide)]

/-- A member made faulty by hand leaves a valid volume that can neither be unmounted nor
destroyed, and the member cannot be made healthy by hand. -/
theorem volume_released_fails : ∃ t, run Console.step emptyConsole
      [.scan twoDrives, twoPools, .create goodCreate, .simulate (some 0) .fail] = some t ∧
    t.app.volumeValid = true ∧ (∀ env, (raidUnmount env t.app).1 = .errInvalidState) ∧
    (∀ env drop, (t.destroy env drop).1 = .errInvalidState) ∧
    (raidSimulate (some 0) .healthy t).1 = .errInvalidState :=
  ⟨_, rfl, rfl, fun _ => rfl, fun _ _ => rfl, rfl⟩

theorem volume_released_sample : ∃ t, run Console.step emptyConsole
      [.scan twoDrives, twoPools, .create goodCreate] = some t ∧
    (t.app.volumeValid = true → (∀ env, (raidUnmount env t.app).1 ≠ .errInvalidState) ∨
      ∀ env drop, (t.destroy env drop).1 ≠ .errInvalidState) :=
  ⟨_, rfl, (volume_released ⟨fun _ => scannedDisk, fun _ _ => 0⟩ [.scan twoDrives, twoPools, .create goodCreate]
    (along_cons rfl rfl <| along_cons rfl (fun hv => by cases hv) <| along_cons rfl True.intro True.intro) rfl).1⟩

end RaidTest.Service
