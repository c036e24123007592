import RaidTest.Base.Pick
import RaidTest.Metadata.RoundTrip
import RaidTest.Service.Destroy
import Mathlib.Data.Prod.Lex

/-!
# Which superblock a load picks (`superblock_read`)

The drives can hold superblocks of several volumes. A load takes the one with the highest
generation, but the generation counts the writes of one volume and starts again with the next.
-/

namespace RaidTest.Metadata
open RaidTest.Base RaidTest.Stripe RaidTest.Mirror RaidTest.Cache RaidTest.Journal RaidTest.Volume RaidTest.Service

/-! ### Reading all drives -/

/-- The drives in the order they are read: the specified one, then the fixed ones from `C` on. -/
def scanOrder (fixed : Letter → Bool) (root : Letter) : List Letter :=
  (if 0x41 ≤ root ∧ root ≤ 0x5A then [root] else []) ++
    (List.range' 0x43 24).filter fun l => fixed l && (l != if 0x41 ≤ root then root else 0)

/-- `candidates`. -/
def candidates (fixed : Letter → Bool) (root : Letter) (held : Letter → Option SuperblockV4) : List SuperblockV4 :=
  ((scanOrder fixed root).filterMap held).take maxDisks

/-- `pick`. -/
def picks (c best : SuperblockV4) : Bool :=
  if c.generation > best.generation then true
  else if c.generation = best.generation ∧ c.timestamp > best.timestamp then true
  else decide (c.generation = best.generation ∧ c.timestamp = best.timestamp ∧
    c.virtualTotalBytes > best.virtualTotalBytes)

/-- `superblock_read`: the superblock it picks, and what `superblock_restore` makes of it. -/
def superblockRead (fixed : Letter → Bool) (root : Letter) (env : ReadEnv) (drives : Letter → Drive) (opens : ℕ → Bool)
    (physical : List (Option DiskLabel)) (r : VolumeRecord) (d : Disks) (disksOut : ℕ → DiskId) :
    Option (SuperblockV4 × Bool × VolumeRecord × Disks × (ℕ → DiskLabel)) :=
  (pickBest picks (candidates fixed root fun l => (tryReadSuperblock env (drives l)).1)).map fun sb =>
    (sb, restoreRecord opens physical sb r d disksOut)

/-- What superblocks are compared by. -/
def rank (sb : SuperblockV4) : ℕ ×ₗ ℕ ×ₗ ℕ := toLex (sb.generation, toLex (sb.timestamp, sb.virtualTotalBytes))

theorem picks_iff (c best : SuperblockV4) : picks c best = true ↔ rank best < rank c := by
  rw [rank, rank, Prod.Lex.toLex_lt_toLex, Prod.Lex.toLex_lt_toLex]
  unfold picks
  simp only
  split
  · next h => exact ⟨fun _ => Or.inl h, fun _ => rfl⟩
  split
  · next h => exact ⟨fun _ => Or.inr ⟨h.1.symm, Or.inl h.2⟩, fun _ => rfl⟩
  · next h1 h2 =>
    rw [decide_eq_true_eq]
    omega

/-! ### The calls -/

/-- The volume and its counters, the pool files, and the drives with the superblocks; `latest` is
the superblock written last. -/
structure Archive where
  sys : System
  generation : ℕ
  uuidHigh : ℕ
  uuidLow : ℕ
  createdTime : ℕ
  lastMountTime : ℕ
  file : Path → Option PoolFile
  drives : Letter → Drive
  latest : Option SuperblockV4

def Archive.record (s : Archive) : VolumeRecord :=
  ⟨s.sys.v, s.generation, s.uuidHigh, s.uuidLow, s.createdTime, s.lastMountTime⟩

def Archive.empty (d : Disks) : Archive :=
  ⟨⟨.zero, d, .idle, .thread, false⟩, 0, 0, 0, 0, 0, fun _ => none, fun _ => ⟨none, none⟩, none⟩

inductive Call where
  | create (env : CreateEnv) (disks : List DiskId) (uuidHigh uuidLow createdTime : ℕ)
  | mirror (env : CreateEnv) (disks : List DiskId) (uuidHigh uuidLow createdTime : ℕ)
  | expand (dr : Drives) (env : ℕ → PoolEnv) (physical : List DiskId) (args : List (Option (ℕ × ℕ)))
  | rebuild (dr : Drives) (env : PoolEnv) (renv : RebuildEnv) (physical : List DiskId)
      (replaceIdx newDiskId poolMb : ℕ)

/-- A call up to its superblock; no result where it fails. A new volume starts its counters anew. -/
def Call.run (s : Archive) : Call → Option Archive
  | .create env disks uuidHigh uuidLow createdTime =>
    match volumeCreate env disks s.sys with
    | (false, _) => none
    | (true, sys) => some { s with
        sys := sys, generation := 0, uuidHigh := uuidHigh, uuidLow := uuidLow, createdTime := createdTime, lastMountTime := 0 }
  | .mirror env disks uuidHigh uuidLow createdTime =>
    match volumeMirror env disks s.sys with
    | (false, _) => none
    | (true, sys) => some { s with
        sys := sys, generation := 0, uuidHigh := uuidHigh, uuidLow := uuidLow, createdTime := createdTime, lastMountTime := 0 }
  | .expand dr env physical args =>
    match volumeExpand dr env s.sys.v ⟨s.sys.d.info, s.file⟩ physical args with
    | (false, _) => none
    | (true, v, pools) => some { s with sys := { s.sys with v := v, d := pools.disks dr }, file := pools.file }
  | .rebuild dr env renv physical replaceIdx newDiskId poolMb =>
    match volumeRebuild dr env renv s.sys.v ⟨s.sys.d.info, s.file⟩ physical replaceIdx newDiskId poolMb with
    | (false, _) => none
    | (true, v, pools) => some { s with sys := { s.sys with v := v, d := pools.disks dr }, file := pools.file }

/-- A call, and what its superblock is written with. -/
structure Update where
  call : Call
  time : ℕ
  label : DiskId → DiskLabel
  env : ℕ → WriteEnv

/-- The drive of member `i`. -/
def Update.letter (u : Update) (r : Archive) (i : ℕ) : Letter := (u.label (r.sys.v.diskAt i)).driveLetter

/-- The superblock of the update, `r` being what its call leaves. -/
def Update.superblock (u : Update) (r : Archive) : SuperblockV4 := makeSuperblock u.time u.label r.sys.d.info r.record

/-- `superblock_write`. -/
def Update.write (u : Update) (r : Archive) : Archive := { r with
  generation := r.record.written.generation
  drives := fun l => perform FileOp.apply (driveOps u.env (u.letter r) r.sys.v.diskCount (u.superblock r).image l) (r.drives l)
  latest := some (u.superblock r).stored }

/-- Every member is written. -/
def Update.succeeds (u : Update) (r : Archive) : Bool :=
  (List.range r.sys.v.diskCount).all fun i => (writeMember (u.env i) (u.superblock r).image).1

/-- A call that is followed by a successful write on its members. -/
def Archive.step (s : Archive) (u : Update) : Option Archive :=
  (u.call.run s).bind fun r => if u.succeeds r then some (u.write r) else none

/-! ### The superblocks on the drives -/

/-- What is read from a drive. -/
def Archive.held (env : ReadEnv) (s : Archive) (l : Letter) : Option SuperblockV4 := (tryReadSuperblock env (s.drives l)).1

theorem call_drives {c : Call} {s r : Archive} (h : c.run s = some r) : r.drives = s.drives := by
  cases c with
  | create env disks uh ul ct =>
    simp only [Call.run] at h
    split at h
    · cases h
    · exact (Option.some.inj h) ▸ rfl
  | mirror env disks uh ul ct =>
    simp only [Call.run] at h
    split at h
    · cases h
    · exact (Option.some.inj h) ▸ rfl
  | expand dr env physical args =>
    simp only [Call.run] at h
    split at h
    · cases h
    · exact (Option.some.inj h) ▸ rfl
  | rebuild dr env renv physical replaceIdx newDiskId poolMb =>
    simp only [Call.run] at h
    split at h
    · cases h
    · exact (Option.some.inj h) ▸ rfl

theorem driveOps_other {env : ℕ → WriteEnv} {letter : ℕ → Letter} {n : ℕ} {image : List Byte} {l : Letter}
    (h : ¬ ∃ i < n, letter i = l) : driveOps env letter n image l = [] := by
  unfold driveOps
  rw [List.flatMap_eq_nil_iff]
  intro i hi
  exact if_neg fun he => h ⟨i, List.mem_range.mp hi, he⟩

/-- The drives of the members, and what is on the others before the update. -/
def Update.after (u : Update) (r : Archive) (held : Letter → Option SuperblockV4) (l : Letter) : Option SuperblockV4 :=
  if ∃ i < r.sys.v.diskCount, u.letter r i = l then some (u.superblock r).stored else held l

theorem step_held {env : ReadEnv} (hread : env.opens = true ∧ env.reads = true) {s t : Archive} {u : Update}
    (h : s.step u = some t) : ∃ r, u.call.run s = some r ∧ t = u.write r ∧
      t.held env = u.after r (s.held env) := by
  obtain ⟨r, hr, ht⟩ := Option.bind_eq_some_iff.mp h
  split at ht
  · next hok =>
    obtain rfl := Option.some.inj ht
    refine ⟨r, hr, rfl, funext fun l => ?_⟩
    have hall : ∀ i < r.sys.v.diskCount, (writeMember (u.env i) (u.superblock r).image).1 = true := fun i hi =>
      List.all_eq_true.mp hok i (List.mem_range.mpr hi)
    unfold Update.after Archive.held Update.write
    simp only
    split
    · next hm =>
      obtain ⟨i, hi, hl⟩ := hm
      exact read_written rfl rfl (driveOps_ok ⟨i, hi, hl, hall i hi⟩ (r.drives l)) hread
    · next hm =>
      rw [driveOps_other hm, perform_nil, call_drives hr]
  · cases ht

/-! ### The latest one -/

/-- The superblock of the update outranks those that are read before it, and those that are read
after it do not outrank it. -/
def Newest (fixed : Letter → Bool) (root : Letter) (env : ReadEnv) (s : Archive) (u : Update) : Prop :=
  ∀ r, u.call.run s = some r →
    FirstGreatest rank (candidates fixed root (u.after r (s.held env))) (u.superblock r).stored

theorem superblockRead_eq (fixed : Letter → Bool) (root : Letter) (env : ReadEnv) (s : Archive) (sb : SuperblockV4) :
    (∀ opens physical old d disksOut, superblockRead fixed root env s.drives opens physical old d disksOut =
      some (sb, restoreRecord opens physical sb old d disksOut)) ↔
    FirstGreatest rank (candidates fixed root (s.held env)) sb := by
  rw [← pickBest_iff picks_iff]
  constructor
  · intro h
    obtain ⟨x, hx, he⟩ := Option.map_eq_some_iff.mp (h (fun _ => true) [] s.record s.sys.d id)
    obtain rfl := (Prod.mk.inj he).1
    exact hx
  · intro h opens physical old d disksOut
    unfold superblockRead
    unfold Archive.held at h
    rw [h, Option.map_some]

/-- After an update the load takes its superblock exactly under the condition. -/
theorem step_latest (fixed : Letter → Bool) (root : Letter) {env : ReadEnv} (hread : env.opens = true ∧ env.reads = true)
    {s t : Archive} {u : Update} (h : s.step u = some t) :
    (∀ sb, t.latest = some sb → FirstGreatest rank (candidates fixed root (t.held env)) sb) ↔
      Newest fixed root env s u := by
  obtain ⟨r, hr, ht, hheld⟩ := step_held hread h
  have hlatest : t.latest = some (u.superblock r).stored := by
    rw [ht]
    rfl
  rw [hheld]
  constructor
  · intro hall r' hr'
    obtain rfl := Option.some.inj (hr.symm.trans hr')
    exact hall _ hlatest
  · intro hnew sb hsb
    obtain rfl := Option.some.inj (hlatest.symm.trans hsb)
    exact hnew r hr

/-- In a history of successful calls every load takes the superblock written last if and only if
every write outranks what is on the other drives. -/
theorem superblockRead_latest (fixed : Letter → Bool) (root : Letter) {env : ReadEnv}
    (hread : env.opens = true ∧ env.reads = true) {s t : Archive} {us : List Update} (hs : s.latest = none)
    (hrun : run Archive.step s us = some t) :
    (∀ pre post m, us = pre ++ post → run Archive.step s pre = some m → ∀ sb, m.latest = some sb →
      ∀ opens physical old d disksOut,
        superblockRead fixed root env m.drives opens physical old d disksOut =
          some (sb, restoreRecord opens physical sb old d disksOut)) ↔
      Along Archive.step (Newest fixed root env) s us := by
  simp only [superblockRead_eq]
  apply along_iff_of_run (J := fun _ => True) (I := fun m => ∀ sb, m.latest = some sb →
    FirstGreatest rank (candidates fixed root (m.held env)) sb) (t := t)
  · exact True.intro
  · rw [hs]
    exact nofun
  · exact hrun
  · exact fun _ _ _ _ _ => True.intro
  · exact fun s u m _ _ hm => step_latest fixed root hread hm

/-! ### Three drives -/

def threePools : Disks := ⟨fun _ => ⟨1048576, 0, 100, true, true, false, false, 0, false⟩, fun _ _ => 0⟩

def threeDrives : Drives := ⟨fun _ => true, fun _ => true, some⟩

/-- Disk `i` is on the `i`-th drive from `C` on. -/
def lettered (c : Call) : Update := ⟨c, 7, fun i => ⟨0x43 + i, 0, fun _ => 0⟩, fun _ => .good⟩

def plainCreate : CreateEnv := ⟨fun _ => .good, fun _ => true, true⟩

def mirrorCD : Update := lettered (.mirror plainCreate [0, 1] 1 1 7)
def rebuildOnE : Update := lettered (.rebuild threeDrives .good ⟨true, fun _ => .ok, fun _ => .ok, true⟩ [0, 1, 2] 1 2 1)
def createDE : Update := lettered (.create plainCreate [1, 2] 2 2 7)

def isCDE (l : Letter) : Bool := l == 0x43 || l == 0x44 || l == 0x45

theorem lettered_step {c : Call} {s r : Archive} (h : c.run s = some r) :
    s.step (lettered c) = some ((lettered c).write r) := by
  have hok : (lettered c).succeeds r = true := by
    unfold Update.succeeds
    rw [List.all_eq_true]
    exact fun i _ => writeMember_good (image_length _)
  unfold Archive.step
  have hcall : (lettered c).call.run s = some r := h
  rw [hcall, Option.bind_some, if_pos hok]

theorem stored_counts (u : Update) (r : Archive) : (u.superblock r).stored.generation = u64 (r.generation + 1) :=
  Codec.num_cut (Nat.mod_lt _ (by decide))

/-- The members of a volume of two disks and the writes it has seen. -/
def Archive.isOn (r : Archive) (a b generation : ℕ) : Prop :=
  r.sys.v.diskCount = 2 ∧ r.sys.v.diskAt 0 = a ∧ r.sys.v.diskAt 1 = b ∧ r.generation = generation

theorem isOn_after {c : Call} {r : Archive} {a b generation : ℕ} (h : r.isOn a b generation)
    (held : Letter → Option SuperblockV4) (i : ℕ) : (lettered c).after r held (0x43 + i) =
      if i = a ∨ i = b then some ((lettered c).superblock r).stored else held (0x43 + i) := by
  obtain ⟨h1, h2, h3, _⟩ := h
  have hiff : (∃ j < r.sys.v.diskCount, (lettered c).letter r j = 0x43 + i) ↔ i = a ∨ i = b := by
    have hletter : ∀ j, (lettered c).letter r j = 0x43 + r.sys.v.diskAt j := fun _ => rfl
    simp only [hletter, h1]
    constructor
    · rintro ⟨j, hj, he⟩
      obtain rfl | rfl : j = 0 ∨ j = 1 := by omega
      · rw [h2] at he
        exact Or.inl (Nat.add_left_cancel he).symm
      · rw [h3] at he
        exact Or.inr (Nat.add_left_cancel he).symm
    · rintro (rfl | rfl)
      · exact ⟨0, by decide, by rw [h2]⟩
      · exact ⟨1, by decide, by rw [h3]⟩
  unfold Update.after
  simp only [hiff]

theorem threeCalls : ∃ r₁ r₂ r₃, mirrorCD.call.run (.empty threePools) = some r₁ ∧ r₁.isOn 0 1 0 ∧
    rebuildOnE.call.run (mirrorCD.write r₁) = some r₂ ∧ r₂.isOn 0 2 1 ∧
    createDE.call.run (rebuildOnE.write r₂) = some r₃ ∧ r₃.isOn 1 2 0 :=
  ⟨_, _, _, rfl, ⟨rfl, rfl, rfl, rfl⟩, rfl, ⟨rfl, rfl, rfl, rfl⟩, rfl, ⟨rfl, rfl, rfl, rfl⟩⟩

theorem candidates_cde (held : Letter → Option SuperblockV4) :
    candidates isCDE 0 held = ([0x43, 0x44, 0x45].filterMap held).take maxDisks := rfl

/-- A new volume on `D` and `E`, after the second write of an old one on `C` and `E`. -/
theorem superblockRead_latest_fails : ∃ us t sb, run Archive.step (.empty threePools) us = some t ∧
    t.latest = some sb ∧ (candidates isCDE 0 (t.held .good)).length ≤ 3 ∧
    ∃ old, superblockRead isCDE 0 .good t.drives (fun _ => true) [] t.record t.sys.d id =
      some (old, restoreRecord (fun _ => true) [] old t.record t.sys.d id) ∧ sb.generation < old.generation := by
  obtain ⟨r₁, r₂, r₃, h1, on1, h2, on2, h3, on3⟩ := threeCalls
  have hread : ReadEnv.good.opens = true ∧ ReadEnv.good.reads = true := ⟨rfl, rfl⟩
  have hs1 : (Archive.empty threePools).step mirrorCD = some (mirrorCD.write r₁) := lettered_step h1
  have hs2 : (mirrorCD.write r₁).step rebuildOnE = some (rebuildOnE.write r₂) := lettered_step h2
  have hs3 : (rebuildOnE.write r₂).step createDE = some (createDE.write r₃) := lettered_step h3
  have hrun : run Archive.step (.empty threePools) [mirrorCD, rebuildOnE, createDE] = some (createDE.write r₃) := by
    rw [run_cons]
    refine ⟨_, hs1, ?_⟩
    rw [run_cons]
    refine ⟨_, hs2, ?_⟩
    rw [run_cons]
    exact ⟨_, hs3, rfl⟩
  obtain ⟨r, hr, -, hheld2⟩ := step_held hread hs2
  obtain rfl := Option.some.inj (h2.symm.trans hr)
  obtain ⟨r, hr, -, hheld3⟩ := step_held hread hs3
  obtain rfl := Option.some.inj (h3.symm.trans hr)
  have hC : (createDE.write r₃).held .good 0x43 = some (rebuildOnE.superblock r₂).stored := by
    rw [hheld3]
    refine (isOn_after on3 _ 0).trans ?_
    rw [if_neg (by decide), hheld2]
    exact (isOn_after on2 _ 0).trans (if_pos (Or.inl rfl))
  have hD : (createDE.write r₃).held .good 0x44 = some (createDE.superblock r₃).stored := by
    rw [hheld3]
    exact (isOn_after on3 _ 1).trans (if_pos (Or.inl rfl))
  have hE : (createDE.write r₃).held .good 0x45 = some (createDE.superblock r₃).stored := by
    rw [hheld3]
    exact (isOn_after on3 _ 2).trans (if_pos (Or.inr rfl))
  have hgen : (createDE.superblock r₃).stored.generation < (rebuildOnE.superblock r₂).stored.generation := by
    rw [stored_counts, stored_counts, on3.2.2.2, on2.2.2.2]
    decide
  have hcand : candidates isCDE 0 ((createDE.write r₃).held .good) = [(rebuildOnE.superblock r₂).stored,
      (createDE.superblock r₃).stored, (createDE.superblock r₃).stored] := by
    rw [candidates_cde]
    simp only [List.filterMap_cons, hC, hD, hE, List.filterMap_nil]
    rfl
  refine ⟨_, _, _, hrun, rfl, by rw [hcand]; exact Nat.le_refl 3, (rebuildOnE.superblock r₂).stored, ?_, hgen⟩
  apply (superblockRead_eq isCDE 0 .good _ _).mpr
  rw [hcand]
  refine ⟨[], _, rfl, fun _ hx => absurd hx List.not_mem_nil, ?_⟩
  have hle : rank (createDE.superblock r₃).stored ≤ rank (rebuildOnE.superblock r₂).stored :=
    le_of_lt (Prod.Lex.toLex_lt_toLex.mpr (Or.inl hgen))
  intro x hx
  obtain rfl | rfl : x = (createDE.superblock r₃).stored ∨ x = (createDE.superblock r₃).stored := by
    simpa only [List.mem_cons, List.not_mem_nil, or_false] using hx
  · exact hle
  · exact hle

/-- A mirror on `C` and `D`, rebuilt on `E`. -/
theorem superblockRead_latest_sample : ∃ t, run Archive.step (.empty threePools) [mirrorCD, rebuildOnE] = some t ∧
    ∀ pre post m, [mirrorCD, rebuildOnE] = pre ++ post → run Archive.step (.empty threePools) pre = some m →
      ∀ sb, m.latest = some sb →
        ∀ opens physical old d disksOut, superblockRead isCDE 0 .good m.drives opens physical old d disksOut =
          some (sb, restoreRecord opens physical sb old d disksOut) := by
  obtain ⟨r₁, r₂, _, h1, on1, h2, on2, _⟩ := threeCalls
  have hread : ReadEnv.good.opens = true ∧ ReadEnv.good.reads = true := ⟨rfl, rfl⟩
  have hs1 : (Archive.empty threePools).step mirrorCD = some (mirrorCD.write r₁) := lettered_step h1
  have hs2 : (mirrorCD.write r₁).step rebuildOnE = some (rebuildOnE.write r₂) := lettered_step h2
  have hrun : run Archive.step (.empty threePools) [mirrorCD, rebuildOnE] = some (rebuildOnE.write r₂) := by
    rw [run_cons]
    refine ⟨_, hs1, ?_⟩
    rw [run_cons]
    exact ⟨_, hs2, rfl⟩
  have hheld1 : ∀ l, mirrorCD.after r₁ ((Archive.empty threePools).held .good) (0x43 + l) =
      if l = 0 ∨ l = 1 then some (mirrorCD.superblock r₁).stored else none := isOn_after on1 _
  have hheld2 : ∀ l, rebuildOnE.after r₂ ((mirrorCD.write r₁).held .good) (0x43 + l) =
      if l = 0 ∨ l = 2 then some (rebuildOnE.superblock r₂).stored else
        if l = 0 ∨ l = 1 then some (mirrorCD.superblock r₁).stored else none := by
    intro l
    obtain ⟨r, hr, -, hheld⟩ := step_held hread hs1
    obtain rfl := Option.some.inj (h1.symm.trans hr)
    rw [← hheld1 l, ← hheld]
    exact isOn_after on2 _ l
  refine ⟨_, hrun, (superblockRead_latest isCDE 0 hread rfl hrun).mpr (along_cons hs1 ?_ (along_cons hs2 ?_ True.intro))⟩
  · intro r hr
    obtain rfl := Option.some.inj (h1.symm.trans hr)
    have hcand : candidates isCDE 0 (mirrorCD.after r₁ ((Archive.empty threePools).held .good)) =
        [(mirrorCD.superblock r₁).stored, (mirrorCD.superblock r₁).stored] := by
      rw [candidates_cde]
      simp only [List.filterMap_cons, hheld1 0, hheld1 1, hheld1 2, List.filterMap_nil]
      rfl
    rw [hcand]
    refine ⟨[], _, rfl, fun _ hx => absurd hx List.not_mem_nil, ?_⟩
    intro x hx
    obtain rfl := List.mem_singleton.mp hx
    exact le_refl _
  · intro r hr
    obtain rfl := Option.some.inj (h2.symm.trans hr)
    have hcand : candidates isCDE 0 (rebuildOnE.after r₂ ((mirrorCD.write r₁).held .good)) =
        [(rebuildOnE.superblock r₂).stored, (mirrorCD.superblock r₁).stored, (rebuildOnE.superblock r₂).stored] := by
      rw [candidates_cde]
      simp only [List.filterMap_cons, hheld2 0, hheld2 1, hheld2 2, List.filterMap_nil]
      rfl
    have hgen : (mirrorCD.superblock r₁).stored.generation < (rebuildOnE.superblock r₂).stored.generation := by
      rw [stored_counts, stored_counts, on1.2.2.2, on2.2.2.2]
      decide
    rw [hcand]
    refine ⟨[], _, rfl, fun _ hx => absurd hx List.not_mem_nil, ?_⟩
    intro x hx
    rcases List.mem_pair.mp hx with rfl | rfl
    · exact le_of_lt (Prod.Lex.toLex_lt_toLex.mpr (Or.inl hgen))
    · exact le_refl _

end RaidTest.Metadata
