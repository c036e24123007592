import RaidTest.Volume.PoolIo
import RaidTest.Stripe.FlatArray
import RaidTest.Stripe.Packing
import RaidTest.Mirror.Rebuild

/-!
# Growing and repairing a volume (`volume_expand`, `volume_rebuild`)

Both make the pool file of a new disk before the engine looks at the request, and delete it
again when the engine refuses. Nothing asks whether the disk is a member already.
-/

namespace RaidTest.Volume
open RaidTest.Base RaidTest.Stripe RaidTest.Mirror

/-! ### The commands -/

def mib : ℕ := 1048576

/-- `sel_indices` and `sel_sizes`: what `sscanf` makes of the arguments, as far as it names
a selected disk. -/
def selectDisks (dr : Drives) (physical : List DiskId) (args : List (Option (ℕ × ℕ))) : List (ℕ × ℕ) :=
  (args.filterMap fun a => a.filter fun x => decide (x.1 < physical.length) && dr.selected (physical.getD x.1 0)).take 16

/-- The loop that creates and opens the new pools, from argument number `i` on; `false`
stands for `goto rollback`. -/
def growLoop (dr : Drives) (env : ℕ → PoolEnv) (physical : List DiskId) :
    List (ℕ × ℕ) → ℕ → List DiskId → Pools → Bool × List DiskId × Pools
  | [], _, created, s => (true, created, s)
  | (id, mb) :: sel, i, created, s =>
    let disk := physical.getD id 0
    if dr.letter disk = false ∨ validatePoolSize (mb * mib) = false then (false, created, s)
    else
      match poolFileCreate dr (env i) s disk (mb * mib) with
      | (false, s) => (false, created, s)
      | (true, s) =>
        match poolFileOpen dr (env i) s disk with
        | (false, s) => (false, created, poolFileDelete dr (env i) s disk)
        | (true, s) => growLoop dr env physical sel (i + 1) (created ++ [disk]) s

/-- The `rollback` label, from disk number `i` on. -/
def rollback (dr : Drives) (env : ℕ → PoolEnv) : ℕ → List DiskId → Pools → Pools
  | _, [], s => s
  | i, disk :: created, s => rollback dr env (i + 1) created (poolFileDelete dr (env i) (poolFileClose s disk) disk)

/-- `volume_expand`, without the superblock it writes at the end. -/
def volumeExpand (dr : Drives) (env : ℕ → PoolEnv) (v : StripeVolume) (s : Pools) (physical : List DiskId)
    (args : List (Option (ℕ × ℕ))) : Bool × StripeVolume × Pools :=
  if v.raidLevel ≠ .stripe then (false, v, s)
  else
    let sel := selectDisks dr physical args
    if sel = [] then (false, v, s)
    else
      match growLoop dr env physical sel 0 [] s with
      | (false, created, s) => (false, v, rollback dr env 0 created s)
      | (true, created, s) =>
        match stripeVolumeExpand (s.disks dr) v created with
        | none => (false, v, rollback dr env 0 created s)
        | some w => (true, w, s)

/-- What a transfer to the disk did, put back into its pool file. -/
def Pools.store (dr : Drives) (s : Pools) (d : Disks) (disk : DiskId) : Pools :=
  let s := { s with info := d.info }
  match dr.path disk with
  | none => s
  | some p => s.setFile p ((s.file p).map fun f => { f with bytes := d.pool disk })

/-- `volume_rebuild`, without the superblock it writes at the end. -/
def volumeRebuild (dr : Drives) (env : PoolEnv) (renv : RebuildEnv) (v : StripeVolume) (s : Pools)
    (physical : List DiskId) (replaceIdx newDiskId poolMb : ℕ) : Bool × StripeVolume × Pools :=
  if v.raidLevel ≠ .mirror ∨ v.diskCount ≤ replaceIdx ∨ physical.length ≤ newDiskId then (false, v, s)
  else
    let newDisk := physical.getD newDiskId 0
    let size := u64 (poolMb * mib)
    if dr.letter newDisk = false ∨ validatePoolSize size = false then (false, v, s)
    else
      match poolFileCreate dr env s newDisk size with
      | (false, s) => (false, v, s)
      | (true, s) =>
        match poolFileOpen dr env s newDisk with
        | (false, s) => (false, v, poolFileDelete dr env s newDisk)
        | (true, s) =>
          match mirrorVolumeRebuild renv v (s.disks dr) newDisk replaceIdx with
          | (false, v, d) => (false, v, poolFileDelete dr env (poolFileClose (s.store dr d newDisk) newDisk) newDisk)
          | (true, v, d) => (true, v, s.store dr d newDisk)

/-! ### The files a command recreates -/

/-- The paths `CreateFileW` succeeds on in the loop of `volume_expand`; the loop ends at the
first disk that fails. -/
def recreated (dr : Drives) (env : ℕ → PoolEnv) (physical : List DiskId) : List (ℕ × ℕ) → ℕ → List Path
  | [], _ => []
  | (id, mb) :: sel, i =>
    let disk := physical.getD id 0
    match dr.path disk with
    | none => []
    | some p =>
      if dr.letter disk && validatePoolSize (mb * mib) && (env i).create then
        p :: if (env i).extend && (env i).opens then recreated dr env physical sel (i + 1) else []
      else []

/-- The files `volume_expand` recreates. -/
def expandRecreates (dr : Drives) (env : ℕ → PoolEnv) (v : StripeVolume) (physical : List DiskId)
    (args : List (Option (ℕ × ℕ))) : List Path :=
  if v.raidLevel = .stripe then recreated dr env physical (selectDisks dr physical args) 0 else []

/-- The file `volume_rebuild` recreates. -/
def rebuildRecreates (dr : Drives) (env : PoolEnv) (v : StripeVolume) (physical : List DiskId)
    (replaceIdx newDiskId poolMb : ℕ) : Option Path :=
  if v.raidLevel = .mirror ∧ replaceIdx < v.diskCount ∧ newDiskId < physical.length ∧
      dr.letter (physical.getD newDiskId 0) = true ∧ validatePoolSize (u64 (poolMb * mib)) = true ∧
      env.create = true then
    dr.path (physical.getD newDiskId 0)
  else none

/-- A member in service: on a mirror its flag is set, on a stripe volume no transfer failed. -/
def healthyMember (v : StripeVolume) (info : DiskId → DiskInfo) (i : ℕ) : Prop :=
  i < v.diskCount ∧ (match v.raidLevel with
    | .mirror => (info (v.diskAt i)).healthy
    | .stripe => !(info (v.diskAt i)).faulty) = true

instance (v : StripeVolume) (info : DiskId → DiskInfo) (i : ℕ) : Decidable (healthyMember v info i) :=
  inferInstanceAs (Decidable (_ ∧ _))

/-- Every existing file of a member that counts is there after the call as it was before. -/
def Kept (dr : Drives) (v : StripeVolume) (counts : ℕ → Prop) (file file' : Path → Option PoolFile) : Prop :=
  ∀ i, counts i → ∀ p f, dr.path (v.diskAt i) = some p → file p = some f → file' p = some f

/-! ### Expansion -/

section Expand
variable (dr : Drives) (env : ℕ → PoolEnv) (physical : List DiskId)

theorem rollback_file {p : Path} (created : List DiskId) (h : ∀ disk ∈ created, dr.path disk ≠ some p) :
    ∀ (i : ℕ) (s : Pools), (rollback dr env i created s).file p = s.file p := by
  induction created with
  | nil => intro i s; rfl
  | cons disk created ih =>
    intro i s
    unfold rollback
    rw [ih (fun k hk => h k (List.mem_cons_of_mem _ hk)), poolFileDelete_file dr _ _ disk (h disk (List.mem_cons_self ..))]
    rfl

theorem rollback_blank {p : Path} (created : List DiskId) :
    ∀ (i : ℕ) (s : Pools), Blank (s.file p) → Blank ((rollback dr env i created s).file p) := by
  induction created with
  | nil => intro i s h; exact h
  | cons disk created ih =>
    intro i s h
    exact ih _ _ (poolFileDelete_blank dr _ _ disk h)

theorem growLoop_blank {p : Path} (sel : List (ℕ × ℕ)) :
    ∀ (i : ℕ) (created : List DiskId) (s : Pools), Blank (s.file p) →
      Blank ((growLoop dr env physical sel i created s).2.2.file p) := by
  induction sel with
  | nil => intro i created s h; exact h
  | cons x sel ih =>
    intro i created s h
    obtain ⟨id, mb⟩ := x
    unfold growLoop
    simp only
    split
    · exact h
    have hc := poolFileCreate_blank dr (env i) s (physical.getD id 0) (mb * mib) h
    generalize poolFileCreate dr (env i) s (physical.getD id 0) (mb * mib) = r at hc
    obtain ⟨ok, t⟩ := r
    cases ok with
    | false => exact hc
    | true =>
      have ho := poolFileOpen_file dr (env i) t (physical.getD id 0)
      simp only at hc ⊢
      rw [← ho] at hc
      generalize poolFileOpen dr (env i) t (physical.getD id 0) = r at hc
      obtain ⟨ok, u⟩ := r
      cases ok with
      | false => exact poolFileDelete_blank dr _ _ _ hc
      | true => exact ih _ _ _ hc

/-- The disks the loop hands to the engine or to `rollback`, and the files it left alone. -/
theorem growLoop_file {p : Path} (sel : List (ℕ × ℕ)) :
    ∀ (i : ℕ) (created : List DiskId) (s : Pools), p ∉ recreated dr env physical sel i →
      (∀ disk ∈ created, dr.path disk ≠ some p) →
      (growLoop dr env physical sel i created s).2.2.file p = s.file p ∧
        ∀ disk ∈ (growLoop dr env physical sel i created s).2.1, dr.path disk ≠ some p := by
  induction sel with
  | nil => intro i created s _ hcreated; exact ⟨rfl, hcreated⟩
  | cons x sel ih =>
    intro i created s hp hcreated
    obtain ⟨id, mb⟩ := x
    unfold recreated at hp
    unfold growLoop
    simp only at hp ⊢
    split
    · exact ⟨rfl, hcreated⟩
    next hg =>
    simp only [not_or, Bool.not_eq_false] at hg
    cases hq : dr.path (physical.getD id 0) with
    | none =>
      have hc : poolFileCreate dr (env i) s (physical.getD id 0) (mb * mib) = (false, s) := by
        unfold poolFileCreate
        rw [hq]
      rw [hc]
      exact ⟨rfl, hcreated⟩
    | some q =>
      rw [hq, hg.1, hg.2, Bool.true_and, Bool.true_and] at hp
      simp only at hp
      have hcf := poolFileCreate_file dr (env i) s (physical.getD id 0) (mb * mib) (p := p) (by
        rintro hc he
        rw [hc, if_pos rfl] at hp
        rw [hq] at he
        exact hp (Option.some.inj he ▸ List.mem_cons_self ..))
      have hok : (poolFileCreate dr (env i) s (physical.getD id 0) (mb * mib)).1 = true →
          (env i).create = true ∧ (env i).extend = true := by
        unfold poolFileCreate
        rw [hq]
        simp only
        split
        · nofun
        split
        · nofun
        next hc =>
        split
        · nofun
        next he => exact fun _ => ⟨by simpa using hc, by simpa using he⟩
      generalize poolFileCreate dr (env i) s (physical.getD id 0) (mb * mib) = r at hcf hok
      obtain ⟨ok, t⟩ := r
      cases ok with
      | false => exact ⟨hcf, hcreated⟩
      | true =>
        obtain ⟨hc, he⟩ := hok rfl
        rw [hc, he, if_pos rfl] at hp
        simp only [Bool.true_and] at hp
        have hne : dr.path (physical.getD id 0) ≠ some p := by
          rw [hq]
          rintro h
          exact hp (Option.some.inj h ▸ List.mem_cons_self ..)
        have hof := poolFileOpen_file dr (env i) t (physical.getD id 0)
        have hopen : (poolFileOpen dr (env i) t (physical.getD id 0)).1 = true → (env i).opens = true := by
          unfold poolFileOpen
          rw [hq]
          exact fun h => ((Bool.and_eq_true _ _).mp h).1
        simp only at hcf ⊢
        generalize poolFileOpen dr (env i) t (physical.getD id 0) = r at hof hopen
        obtain ⟨ok, u⟩ := r
        simp only at hof
        cases ok with
        | false =>
          refine ⟨?_, hcreated⟩
          exact (poolFileDelete_file dr _ _ _ hne).trans ((congrFun hof p).trans hcf)
        | true =>
          rw [hopen rfl, if_pos rfl] at hp
          obtain ⟨h1, h2⟩ := ih (i + 1) (created ++ [physical.getD id 0]) u
            (fun h => hp (List.mem_cons_of_mem _ h)) (by
              intro disk hd
              rcases List.mem_append.mp hd with hd | hd
              · exact hcreated disk hd
              · rw [List.mem_singleton.mp hd]
                exact hne)
          exact ⟨h1.trans ((congrFun hof p).trans hcf), h2⟩

/-- A recreated file holds nothing of what it held. -/
theorem growLoop_recreated {p : Path} (sel : List (ℕ × ℕ)) :
    ∀ (i : ℕ) (created : List DiskId) (s : Pools), p ∈ recreated dr env physical sel i →
      Blank ((growLoop dr env physical sel i created s).2.2.file p) := by
  induction sel with
  | nil => intro i created s hp; cases hp
  | cons x sel ih =>
    intro i created s hp
    obtain ⟨id, mb⟩ := x
    unfold recreated at hp
    simp only at hp
    split at hp
    · cases hp
    next q hq =>
    split at hp
    swap
    · cases hp
    next hg =>
    simp only [Bool.and_eq_true] at hg
    obtain ⟨⟨hletter, hsize⟩, hcreate⟩ := hg
    unfold growLoop
    simp only
    rw [if_neg (by rw [hletter, hsize]; decide)]
    unfold poolFileCreate
    rw [hq, hsize, hcreate]
    simp only [Bool.true_eq_false, if_false]
    have hzero : ∀ n (t : Pools), Blank ((t.setFile q (some ⟨n, fun _ => 0⟩)).file q) := by
      intro n t g hg
      rw [Pools.setFile_same] at hg
      rw [← Option.some.inj hg]
    cases he : (env i).extend with
    | false =>
      rw [he, Bool.false_and] at hp
      simp only [Bool.false_eq_true, if_false, if_true, List.mem_singleton] at hp ⊢
      rw [hp]
      exact hzero _ _
    | true =>
      rw [he, Bool.true_and] at hp
      simp only [Bool.true_eq_false, if_false]
      generalize htt : (s.setInfo (physical.getD id 0) _).setFile q _ = t
      have hq' : Blank (t.file q) := htt ▸ hzero _ _
      have hsome : (t.file q).isSome = true := by
        rw [← htt, Pools.setFile_same]
        rfl
      unfold poolFileOpen
      rw [hq]
      simp only [hsome, Bool.and_true]
      cases ho : (env i).opens with
      | false =>
        rw [ho] at hp
        simp only [Bool.false_eq_true, if_false, List.mem_singleton] at hp ⊢
        rw [hp]
        exact poolFileDelete_blank dr _ _ _ hq'
      | true =>
        rw [ho, if_pos rfl] at hp
        simp only
        rcases List.mem_cons.mp hp with rfl | hp
        · exact growLoop_blank dr env physical sel _ _ _ hq'
        · exact ih _ _ _ hp

theorem volumeExpand_file (v : StripeVolume) (s : Pools) (args : List (Option (ℕ × ℕ))) {p : Path}
    (hp : p ∉ expandRecreates dr env v physical args) :
    (volumeExpand dr env v s physical args).2.2.file p = s.file p := by
  unfold expandRecreates at hp
  unfold volumeExpand
  split
  · rfl
  next hl =>
  rw [if_pos (by simpa using hl)] at hp
  simp only
  split
  · rfl
  obtain ⟨h1, h2⟩ := growLoop_file dr env physical _ 0 [] s hp nofun
  generalize growLoop dr env physical _ 0 [] s = r at h1 h2
  obtain ⟨ok, created, t⟩ := r
  have hback : (rollback dr env 0 created t).file p = s.file p := (rollback_file dr env created h2 0 t).trans h1
  cases ok with
  | false => exact hback
  | true =>
    simp only
    split
    · exact hback
    · exact h1

theorem volumeExpand_recreated (v : StripeVolume) (s : Pools) (args : List (Option (ℕ × ℕ))) {p : Path}
    (hp : p ∈ expandRecreates dr env v physical args) :
    Blank ((volumeExpand dr env v s physical args).2.2.file p) := by
  unfold expandRecreates at hp
  split at hp
  swap
  · cases hp
  next hl =>
  unfold volumeExpand
  rw [if_neg (by rw [hl]; decide)]
  simp only
  split
  · next he =>
    rw [he] at hp
    cases hp
  have h1 := growLoop_recreated dr env physical _ 0 [] s hp
  generalize growLoop dr env physical _ 0 [] s = r at h1
  obtain ⟨ok, created, t⟩ := r
  have hback := rollback_blank dr env (p := p) created 0 t h1
  cases ok with
  | false => exact hback
  | true =>
    simp only
    split
    · exact hback
    · exact h1

end Expand

/-! ### Rebuild -/

/-- Whether a transfer succeeds, and what it makes of the disk record, is not up to the bytes. -/
theorem stripeIoOk_blind {d e : Disks} (h : e.info = d.info) (i : DiskId) (ok : Bool) :
    (stripeIoOk e i ok).info = (stripeIoOk d i ok).info := by
  unfold stripeIoOk Disks.setInfo
  cases ok <;> simp only [h, if_true, Bool.false_eq_true, if_false]

theorem stripeReadRaw_blind {d e : Disks} (h : e.info = d.info) (t : Transfer) (i : DiskId) (b c : Buf) (o n : ℕ) :
    (stripeReadRaw t e i c o n).1 = (stripeReadRaw t d i b o n).1 ∧
      (stripeReadRaw t e i c o n).2.1.info = (stripeReadRaw t d i b o n).2.1.info := by
  unfold stripeReadRaw
  rw [h]
  split
  · exact ⟨rfl, h⟩
  split
  · exact ⟨rfl, h⟩
  split
  · cases t <;> exact ⟨rfl, stripeIoOk_blind h i _⟩
  · exact ⟨rfl, stripeIoOk_blind h i _⟩

theorem stripeWriteRaw_blind {d e : Disks} (h : e.info = d.info) (t : Transfer) (i : DiskId) (b c : Buf) (o n : ℕ) :
    (stripeWriteRaw t e i c o n).1 = (stripeWriteRaw t d i b o n).1 ∧
      (stripeWriteRaw t e i c o n).2.info = (stripeWriteRaw t d i b o n).2.info := by
  unfold stripeWriteRaw
  rw [h]
  split
  · exact ⟨rfl, h⟩
  split
  · exact ⟨rfl, h⟩
  split
  · cases t
    · exact ⟨rfl, stripeIoOk_blind (d := d.writePool i o n b) (e := e.writePool i o n c) h i true⟩
    · next left =>
      exact ⟨rfl, stripeIoOk_blind (d := d.writePool i o n left) (e := e.writePool i o n left) h i false⟩
  · exact ⟨rfl, stripeIoOk_blind h i _⟩

theorem rebuildLoop_blind (env : RebuildEnv) (src replacement : DiskId) (total fuel : ℕ) :
    ∀ (k : ℕ) {d e : Disks} (b c : Buf), e.info = d.info →
      (rebuildLoop env src replacement total fuel k e c).1 = (rebuildLoop env src replacement total fuel k d b).1 := by
  induction fuel with
  | zero => intro k d e b c _; rfl
  | succ fuel ih =>
    intro k d e b c h
    unfold rebuildLoop
    simp only
    generalize chunkSize = size
    split
    swap
    · rfl
    generalize minU64 (total - k * size) size = n
    obtain ⟨h1, h2⟩ := stripeReadRaw_blind h (env.read k) src b c (k * size) n
    generalize stripeReadRaw (env.read k) d src b (k * size) n = r at h1 h2
    generalize stripeReadRaw (env.read k) e src c (k * size) n = r' at h1 h2
    obtain ⟨ok, d1, b1⟩ := r
    obtain ⟨ok', e1, c1⟩ := r'
    simp only at h1 h2
    rw [h1]
    cases ok with
    | false => rfl
    | true =>
      simp only
      obtain ⟨h3, h4⟩ := stripeWriteRaw_blind h2 (env.write k) replacement b1 c1 (k * size) n
      generalize stripeWriteRaw (env.write k) d1 replacement b1 (k * size) n = w at h3 h4
      generalize stripeWriteRaw (env.write k) e1 replacement c1 (k * size) n = w' at h3 h4
      obtain ⟨ok, d2⟩ := w
      obtain ⟨ok', e2⟩ := w'
      simp only at h3 h4
      rw [h3]
      cases ok with
      | false => rfl
      | true => exact ih (k + 1) b1 c1 h4

theorem mirrorVolumeRebuild_result (env : RebuildEnv) (v : StripeVolume) (d : Disks) (replacement : DiskId)
    (replaceIdx : ℕ) :
    (mirrorVolumeRebuild env v d replacement replaceIdx).1 =
      if v.diskCount ≤ replaceIdx ∨ v.checkDisks = false ∨ v.virtualTotalBytes = 0 then false
      else match rebuildSource v d replaceIdx with
        | none => false
        | some j => env.alloc && env.flush &&
          (rebuildLoop env ((dropMember v d (v.diskAt replaceIdx)).1.diskAt j) replacement v.virtualTotalBytes
            (v.virtualTotalBytes / chunkSize + 1) 0 (dropMember v d (v.diskAt replaceIdx)).2 (fun _ => 0)).1 := by
  unfold mirrorVolumeRebuild
  split
  · rfl
  cases rebuildSource v d replaceIdx with
  | none => rfl
  | some j =>
    simp only
    generalize dropMember v d (v.diskAt replaceIdx) = r
    obtain ⟨v1, d1⟩ := r
    simp only
    cases env.alloc with
    | false => simp only [if_true, Bool.false_and]
    | true =>
      simp only [Bool.true_eq_false, if_false, Bool.true_and]
      generalize rebuildLoop env (v1.diskAt j) replacement v.virtualTotalBytes _ 0 d1 _ = r
      obtain ⟨ok, d2⟩ := r
      cases ok <;> cases env.flush <;> rfl

theorem mirrorVolumeRebuild_blind (env : RebuildEnv) (v : StripeVolume) {d e : Disks} (h : e.info = d.info)
    (replacement : DiskId) (replaceIdx : ℕ) :
    (mirrorVolumeRebuild env v e replacement replaceIdx).1 =
      (mirrorVolumeRebuild env v d replacement replaceIdx).1 := by
  have hsrc : rebuildSource v e replaceIdx = rebuildSource v d replaceIdx := by
    unfold rebuildSource
    rw [h]
  have hv : (dropMember v e (v.diskAt replaceIdx)).1 = (dropMember v d (v.diskAt replaceIdx)).1 := by
    unfold dropMember
    rw [h]
  have hd : (dropMember v e (v.diskAt replaceIdx)).2.info = (dropMember v d (v.diskAt replaceIdx)).2.info := by
    simp only [dropMember, setHealthy, Disks.setInfo, h]
  rw [mirrorVolumeRebuild_result, mirrorVolumeRebuild_result, hsrc, hv]
  split
  · rfl
  cases rebuildSource v d replaceIdx with
  | none => rfl
  | some j =>
    simp only
    rw [rebuildLoop_blind env _ replacement v.virtualTotalBytes _ 0 (fun _ => 0) (fun _ => 0) hd]

theorem poolFileCreate_blind (dr : Drives) (env : PoolEnv) {s t : Pools} (h : t.info = s.info) (disk : DiskId)
    (size : ℕ) :
    (poolFileCreate dr env t disk size).1 = (poolFileCreate dr env s disk size).1 ∧
      (poolFileCreate dr env t disk size).2.info = (poolFileCreate dr env s disk size).2.info ∧
      ((poolFileCreate dr env t disk size).1 = true → ∀ p, dr.path disk = some p →
        ((poolFileCreate dr env t disk size).2.file p).isSome = true ∧
          ((poolFileCreate dr env s disk size).2.file p).isSome = true) := by
  unfold poolFileCreate
  split
  · exact ⟨rfl, h, nofun⟩
  next q hq =>
  split
  · exact ⟨rfl, h, nofun⟩
  simp only
  have hset : ∀ x, (t.setInfo disk x).info = (s.setInfo disk x).info := by
    intro x
    simp only [Pools.setInfo, h]
  rw [h]
  split
  · exact ⟨rfl, hset _, nofun⟩
  split
  · exact ⟨rfl, hset _, nofun⟩
  · refine ⟨rfl, hset _, fun _ p hp => ?_⟩
    rw [hq] at hp
    rw [← Option.some.inj hp, Pools.setFile_same, Pools.setFile_same]
    exact ⟨rfl, rfl⟩

theorem poolFileOpen_blind (dr : Drives) (env : PoolEnv) (disk : DiskId) {s t : Pools} (h : t.info = s.info)
    (hthere : ∀ p, dr.path disk = some p → (t.file p).isSome = true ∧ (s.file p).isSome = true) :
    (poolFileOpen dr env t disk).1 = (poolFileOpen dr env s disk).1 ∧
      (poolFileOpen dr env t disk).2.info = (poolFileOpen dr env s disk).2.info := by
  unfold poolFileOpen
  split
  · exact ⟨rfl, h⟩
  next p hp =>
  obtain ⟨h1, h2⟩ := hthere p hp
  simp only [h1, h2, Pools.setInfo, h, and_self]

section Rebuild
variable (dr : Drives) (env : PoolEnv) (renv : RebuildEnv) (v : StripeVolume) (physical : List DiskId)
  (replaceIdx newDiskId poolMb : ℕ)

theorem store_file (s : Pools) (d : Disks) (disk : DiskId) {p : Path} (h : dr.path disk ≠ some p) :
    (s.store dr d disk).file p = s.file p := by
  unfold Pools.store
  split
  · rfl
  next q hq => exact Pools.setFile_other _ _ (by rintro rfl; exact h hq)

theorem volumeRebuild_file (s : Pools) {p : Path}
    (hp : rebuildRecreates dr env v physical replaceIdx newDiskId poolMb ≠ some p) :
    (volumeRebuild dr env renv v s physical replaceIdx newDiskId poolMb).2.2.file p = s.file p := by
  unfold rebuildRecreates at hp
  unfold volumeRebuild
  split
  · rfl
  next hg =>
  simp only [not_or, not_not, Nat.not_le] at hg
  simp only
  split
  · rfl
  next hl =>
  simp only [not_or, Bool.not_eq_false] at hl
  have hne : env.create = true → dr.path (physical.getD newDiskId 0) ≠ some p := by
    intro hc
    rw [if_pos ⟨hg.1, hg.2.1, hg.2.2, hl.1, hl.2, hc⟩] at hp
    exact hp
  have hc := poolFileCreate_file dr env s (physical.getD newDiskId 0) (u64 (poolMb * mib)) hne
  have hok : (poolFileCreate dr env s (physical.getD newDiskId 0) (u64 (poolMb * mib))).1 = true →
      env.create = true := by
    unfold poolFileCreate
    split
    · nofun
    split
    · nofun
    simp only
    split
    · nofun
    · next h => exact fun _ => by simpa using h
  generalize poolFileCreate dr env s (physical.getD newDiskId 0) (u64 (poolMb * mib)) = r at hc hok
  obtain ⟨ok, t⟩ := r
  cases ok with
  | false => exact hc
  | true =>
    have hdisk := hne (hok rfl)
    have ho := poolFileOpen_file dr env t (physical.getD newDiskId 0)
    simp only
    generalize poolFileOpen dr env t (physical.getD newDiskId 0) = r at ho
    obtain ⟨ok, u⟩ := r
    have hu : u.file p = s.file p := (congrFun ho p).trans hc
    cases ok with
    | false => exact (poolFileDelete_file dr env u _ hdisk).trans hu
    | true =>
      simp only
      generalize mirrorVolumeRebuild renv v (u.disks dr) _ replaceIdx = r
      obtain ⟨ok, w, e⟩ := r
      cases ok with
      | false =>
        refine (poolFileDelete_file dr env _ _ hdisk).trans ?_
        exact (store_file dr u e _ hdisk).trans hu
      | true => exact (store_file dr u e _ hdisk).trans hu

/-- A recreated file is emptied before anything is read: what it held does not matter. -/
theorem volumeRebuild_forget (s : Pools) {p : Path}
    (hp : rebuildRecreates dr env v physical replaceIdx newDiskId poolMb = some p) (f : Option PoolFile) :
    volumeRebuild dr env renv v (s.setFile p f) physical replaceIdx newDiskId poolMb =
      volumeRebuild dr env renv v s physical replaceIdx newDiskId poolMb := by
  unfold rebuildRecreates at hp
  split at hp
  swap
  · cases hp
  next hg =>
  obtain ⟨h1, h2, h3, h4, h5, h6⟩ := hg
  have hcreate : poolFileCreate dr env (s.setFile p f) (physical.getD newDiskId 0) (u64 (poolMb * mib)) =
      poolFileCreate dr env s (physical.getD newDiskId 0) (u64 (poolMb * mib)) := by
    have hset : ∀ x g, ((s.setFile p f).setInfo (physical.getD newDiskId 0) x).setFile p g =
        (s.setInfo (physical.getD newDiskId 0) x).setFile p g := by
      intro x g
      simp only [Pools.setFile, Pools.setInfo, Pools.mk.injEq, true_and]
      funext q
      split <;> rfl
    unfold poolFileCreate
    rw [hp, h5, h6]
    simp only [Bool.true_eq_false, if_false, Pools.setFile_info, hset]
  have hguard : ¬ (v.raidLevel ≠ .mirror ∨ v.diskCount ≤ replaceIdx ∨ physical.length ≤ newDiskId) := by
    rintro (h | h | h)
    · exact h h1
    · omega
    · omega
  unfold volumeRebuild
  rw [if_neg hguard, if_neg hguard]
  simp only
  rw [if_neg (by rw [h4, h5]; decide), if_neg (by rw [h4, h5]; decide), hcreate]

/-- Whether the rebuild succeeds is not up to the bytes of the pools. -/
theorem volumeRebuild_blind (info : DiskId → DiskInfo) (file file' : Path → Option PoolFile) :
    (volumeRebuild dr env renv v ⟨info, file'⟩ physical replaceIdx newDiskId poolMb).1 =
      (volumeRebuild dr env renv v ⟨info, file⟩ physical replaceIdx newDiskId poolMb).1 := by
  unfold volumeRebuild
  split
  · rfl
  simp only
  generalize physical.getD newDiskId 0 = disk
  generalize u64 (poolMb * mib) = size
  split
  · rfl
  obtain ⟨hok, hinfo, hthere⟩ := poolFileCreate_blind dr env (s := ⟨info, file⟩) (t := ⟨info, file'⟩) rfl disk size
  generalize poolFileCreate dr env ⟨info, file⟩ disk size = r at hok hinfo hthere
  generalize poolFileCreate dr env ⟨info, file'⟩ disk size = r' at hok hinfo hthere
  obtain ⟨ok, t⟩ := r
  obtain ⟨ok', t'⟩ := r'
  simp only at hok hinfo hthere
  subst hok
  cases ok' with
  | false => rfl
  | true =>
    obtain ⟨ho, hoinfo⟩ := poolFileOpen_blind dr env disk hinfo (hthere rfl)
    simp only
    generalize poolFileOpen dr env t disk = r at ho hoinfo
    generalize poolFileOpen dr env t' disk = r' at ho hoinfo
    obtain ⟨ok, u⟩ := r
    obtain ⟨ok', u'⟩ := r'
    simp only at ho hoinfo
    subst ho
    cases ok' with
    | false => rfl
    | true =>
      have hm := mirrorVolumeRebuild_blind renv v (d := u.disks dr) (e := u'.disks dr) hoinfo disk replaceIdx
      simp only
      generalize mirrorVolumeRebuild renv v (u.disks dr) disk replaceIdx = r at hm
      generalize mirrorVolumeRebuild renv v (u'.disks dr) disk replaceIdx = r' at hm
      obtain ⟨ok, w, e⟩ := r
      obtain ⟨ok', w', e'⟩ := r'
      simp only at hm
      subst hm
      cases ok' <;> rfl

end Rebuild

/-! ### The old bytes of an expanded volume -/

/-- Every byte the volume had stays where it was. -/
theorem stripeVolumeExpand_vcell {d : Disks} {new : List DiskId} {v w : StripeVolume} (hv : Laid v)
    (hpool : ∀ i ∈ new, (d.info i).poolBytes ≤ 2^56) (h : stripeVolumeExpand d v new = some w) :
    ∀ x < v.virtualTotalBytes, vcell w x = vcell v x := by
  obtain ⟨_, _, _, _, _, hdisks, _⟩ := stripeVolumeExpand_spec hv hpool h
  intro x hx
  obtain ⟨p, j, r, hp, ha⟩ := hv.place_exists hx
  have hold := stripeVolumeExpand_old hv hpool h x hx
  rw [mapSingleByte_eq hv hp ha] at hold
  unfold vcell
  rw [mapSingleByte_eq hv hp ha, hold]
  simp only [Option.getD_some, StripeVolume.diskAt, hdisks _ ((hv.phaseOk hp.1).members j ha.1)]

/-! ### What a failed or successful command keeps -/

theorem exists_other (g : Option PoolFile) : ∃ f, g ≠ some f := by
  cases g with
  | none => exact ⟨⟨0, fun _ => 0⟩, nofun⟩
  | some g =>
    refine ⟨⟨g.size + 1, g.bytes⟩, fun h => ?_⟩
    have hs := congrArg PoolFile.size (Option.some.inj h)
    simp only at hs
    omega

/-- An expansion or a rebuild keeps the pool files of all members in service, whatever they
hold, exactly if the files it recreates are none of theirs. -/
theorem growing_keeps (dr : Drives) (v : StripeVolume) (info : DiskId → DiskInfo) (physical : List DiskId) :
    (∀ env args, (∀ file, Kept dr v (healthyMember v info) file
        (volumeExpand dr env v ⟨info, file⟩ physical args).2.2.file) ↔
      ∀ i, healthyMember v info i → ∀ p, dr.path (v.diskAt i) = some p →
        p ∉ expandRecreates dr env v physical args) ∧
    (∀ env renv replaceIdx newDiskId poolMb,
      (∀ file, Kept dr v (fun i => healthyMember v info i ∧ (i = replaceIdx →
          (volumeRebuild dr env renv v ⟨info, file⟩ physical replaceIdx newDiskId poolMb).1 = false)) file
        (volumeRebuild dr env renv v ⟨info, file⟩ physical replaceIdx newDiskId poolMb).2.2.file) ↔
      ∀ file i, healthyMember v info i ∧ (i = replaceIdx →
          (volumeRebuild dr env renv v ⟨info, file⟩ physical replaceIdx newDiskId poolMb).1 = false) →
        ∀ p, dr.path (v.diskAt i) = some p →
          rebuildRecreates dr env v physical replaceIdx newDiskId poolMb ≠ some p) ∧
    (∀ d new w, Laid v → (∀ i ∈ new, (d.info i).poolBytes ≤ 2^56) → stripeVolumeExpand d v new = some w →
      ∀ x < v.virtualTotalBytes, vcell w x = vcell v x) := by
  refine ⟨fun env args => ⟨fun h i hi p hp hmem => ?_, fun h file i hi p f hp hf => ?_⟩,
    fun env renv replaceIdx newDiskId poolMb => ⟨fun h file i hi p hp hmem => ?_, fun h file i hi p f hp hf => ?_⟩,
    fun d new w hv hpool hw => stripeVolumeExpand_vcell hv hpool hw⟩
  · -- a file of ones does not come back
    have hk := h (fun _ => some ⟨1, fun _ => 1⟩) i hi p _ hp rfl
    have hb := volumeExpand_recreated dr env physical v ⟨info, fun _ => some ⟨1, fun _ => 1⟩⟩ args hmem _ hk
    exact absurd (congrFun hb 0) (by decide)
  · exact (volumeExpand_file dr env physical v ⟨info, file⟩ args (h i hi p hp)).trans hf
  · -- the file ends up the same whatever it held, so it cannot always be what it was
    obtain ⟨f, hf⟩ := exists_other ((volumeRebuild dr env renv v ⟨info, file⟩ physical replaceIdx newDiskId
      poolMb).2.2.file p)
    have hforget := volumeRebuild_forget dr env renv v physical replaceIdx newDiskId poolMb ⟨info, file⟩ hmem (some f)
    have hk := h (Pools.setFile ⟨info, file⟩ p (some f)).file i
      ⟨hi.1, fun hidx => (volumeRebuild_blind dr env renv v physical replaceIdx newDiskId poolMb info file _).trans
        (hi.2 hidx)⟩ p f hp (Pools.setFile_same _ _ _)
    exact hf ((congrArg (fun r => r.2.2.file p) hforget).symm.trans hk)
  · exact (volumeRebuild_file dr env renv v physical replaceIdx newDiskId poolMb ⟨info, file⟩
      (h file i hi p hp)).trans hf

/-! ### A member named as the new disk -/

/-- Every disk has its drive and its pool file, numbered like the disk. -/
def ownDrives : Drives := ⟨fun _ => true, fun _ => true, some⟩

def fullPools (d : Disks) : Pools := ⟨d.info, fun p => some ⟨(d.info p).poolBytes, fun _ => 1⟩⟩

/-- Expanding the volume of disks 0, 1 and 2 by disk 0 empties its pool file, and a failing
rebuild of member 1 of the mirror of disks 0 and 1 onto disk 0 deletes it. -/
theorem growing_keeps_fails :
    healthyMember sampleVolume sampleDisks.info 0 ∧
    ¬ Kept ownDrives sampleVolume (healthyMember sampleVolume sampleDisks.info) (fullPools sampleDisks).file
      (volumeExpand ownDrives (fun _ => .good) sampleVolume (fullPools sampleDisks) [0, 1] [some (0, 1024)]).2.2.file ∧
    healthyMember sectorMirror.1 sectorMirror.2.info 0 ∧
    ¬ Kept ownDrives sectorMirror.1 (healthyMember sectorMirror.1 sectorMirror.2.info) (fullPools sectorMirror.2).file
      (volumeRebuild ownDrives .good ⟨false, fun _ => .ok, fun _ => .ok, true⟩ sectorMirror.1
        (fullPools sectorMirror.2) [0, 1] 1 0 1024).2.2.file := by
  refine ⟨by decide, fun h => ?_, by decide, fun h => ?_⟩
  · have hk := h 0 (by decide) 0 _ rfl rfl
    have hsize : ((volumeExpand ownDrives (fun _ => .good) sampleVolume (fullPools sampleDisks) [0, 1]
      [some (0, 1024)]).2.2.file 0).map PoolFile.size = some 1073741824 := by decide +kernel
    rw [hk] at hsize
    exact absurd hsize (by decide)
  · have hk := h 0 (by decide) 0 _ rfl rfl
    have hgone : ((volumeRebuild ownDrives .good ⟨false, fun _ => .ok, fun _ => .ok, true⟩ sectorMirror.1
      (fullPools sectorMirror.2) [0, 1] 1 0 1024).2.2.file 0).isSome = false := by decide +kernel
    rw [hk] at hgone
    cases hgone

end RaidTest.Volume
