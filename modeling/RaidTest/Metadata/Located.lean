import RaidTest.Metadata.RoundTrip
import RaidTest.Metadata.Unwind

/-!
# Where the pool files are (`disk_scanner.c`, `superblock_restore`)

A scan leaves the root of a drive in `drive_letter`, and mapping a disk puts a directory there. A
restore takes the string of the disk with the same serial number, or else the root that the
superblock has, and appends the directory and the name of the pool file.
-/

namespace RaidTest.Metadata
open RaidTest.Base RaidTest.Journal RaidTest.Volume

/-! ### Disks of the table -/

/-- The strings of a `DISK_INFO`, as codes of characters. -/
structure PhysicalDisk where
  driveLetter : List ℕ
  model : List ℕ
  filePath : List ℕ
  serialNumber : ℕ → ℕ
  benchReadMbs : ℕ

def PhysicalDisk.label (x : PhysicalDisk) : DiskLabel := ⟨x.driveLetter.headD 0, x.benchReadMbs, x.serialNumber⟩

def maxDrivePath : ℕ := 260
def maxModelLen : ℕ := 128

def configDir : List ℕ := ['R', 'A', 'I', 'D', 'T', 'E', 'S', 'T'].map Char.toNat

def poolFilename : List ℕ :=
  ['s', 't', 'r', 'i', 'p', 'e', '_', 'p', 'o', 'o', 'l', '.', 'd', 'a', 't'].map Char.toNat

/-- The string `L:\`. -/
def rootString (l : ℕ) : List ℕ := [l, 0x3A, 0x5C]

/-- The string `L:\RAIDTEST\`. -/
def mapRoot (l : ℕ) : List ℕ := rootString l ++ configDir ++ [0x5C]

/-- `disk_map_drive`; a model that gets too long for its buffer is emptied by `wcscpy_s`. -/
def diskMapDrive (dl : ℕ) (disk : PhysicalDisk) : Option PhysicalDisk :=
  if dl < 0x41 ∨ 0x5A < dl then none
  else
    let modelExt := (disk.model ++ [0x20, 0x28, dl, 0x3A, 0x29]).take 255
    some { disk with
      driveLetter := mapRoot dl
      filePath := (mapRoot dl ++ poolFilename).take (maxDrivePath - 1)
      model := if modelExt.length < maxModelLen then modelExt else [] }

/-- The records that `disk_scan_all` leaves, and what mapping makes of them. -/
inductive Scanned : PhysicalDisk → Prop where
  | scan (l : ℕ) (model : List ℕ) (serial : ℕ → ℕ) (bench : ℕ) : Scanned ⟨rootString l, model, [], serial, bench⟩
  | map {x y : PhysicalDisk} (dl : ℕ) (hx : Scanned x) (hmap : diskMapDrive dl x = some y) : Scanned y

/-! ### Restoring a path -/

/-- `drive_letter` of a disk entry as a string. -/
def wString (s : ℕ → ℕ) : List ℕ := ((List.range 4).map s).takeWhile fun c => c ≠ 0

/-- `match_disk_by_serial` on the records themselves. -/
def matchPhysical (serial : ℕ → ℕ) (physical : List (Option PhysicalDisk)) : Option PhysicalDisk :=
  if serial 0 = 0 then none
  else (physical.find? fun x => x.any fun y => cString serial = cString y.serialNumber).bind id

/-- `drive_letter` of a restored disk. -/
def restoreLetter (physical : List (Option PhysicalDisk)) (e : DiskEntry) : List ℕ :=
  match matchPhysical e.serialNumber physical with
  | some phys => phys.driveLetter
  | none => wString e.driveLetter

/-- `file_path` of a restored disk. -/
def restoreFilePath (physical : List (Option PhysicalDisk)) (e : DiskEntry) : List ℕ :=
  (restoreLetter physical e ++ configDir ++ [0x5C] ++ poolFilename).take (maxDrivePath - 1)

/-- The record is the first of the table with this serial number. -/
def Finds (physical : List (Option PhysicalDisk)) (serial : ℕ → ℕ) (x : PhysicalDisk) : Prop :=
  serial 0 ≠ 0 ∧ ∃ before after, physical = before ++ some x :: after ∧ cString serial = cString x.serialNumber ∧
    ∀ y, some y ∈ before → cString serial ≠ cString y.serialNumber

theorem matchPhysical_iff {physical : List (Option PhysicalDisk)} {serial : ℕ → ℕ} {x : PhysicalDisk} :
    matchPhysical serial physical = some x ↔ Finds physical serial x := by
  have hsome : ∀ o : Option (Option PhysicalDisk), o.bind id = some x ↔ o = some (some x) := by
    intro o
    rcases o with _ | _ | y
    · exact ⟨fun h => absurd h.symm (Option.some_ne_none x), fun h => absurd h.symm (Option.some_ne_none _)⟩
    · exact ⟨fun h => absurd h.symm (Option.some_ne_none x),
        fun h => absurd (Option.some.inj h).symm (Option.some_ne_none x)⟩
    · exact ⟨fun h => congrArg some h, fun h => Option.some.inj h⟩
  unfold matchPhysical Finds
  by_cases hblank : serial 0 = 0
  · rw [if_pos hblank]
    exact ⟨fun h => absurd h.symm (Option.some_ne_none x), fun h => absurd hblank h.1⟩
  · rw [if_neg hblank, hsome, List.find?_eq_some_iff_append]
    have hno : ∀ o : Option PhysicalDisk, (!o.any fun y => decide (cString serial = cString y.serialNumber)) = true ↔
        ∀ y, o = some y → cString serial ≠ cString y.serialNumber := by
      intro o
      cases o with
      | none => exact ⟨fun _ y hy => absurd hy.symm (Option.some_ne_none y), fun _ => rfl⟩
      | some z =>
        rw [Option.any_some, Bool.not_eq_true', decide_eq_false_iff_not]
        exact ⟨fun h y hy => Option.some.inj hy ▸ h, fun h => h z rfl⟩
    constructor
    · rintro ⟨hx, before, after, he, hbefore⟩
      exact ⟨hblank, before, after, he, of_decide_eq_true hx, fun y hy => (hno _).mp (hbefore _ hy) y rfl⟩
    · rintro ⟨_, before, after, he, hx, hbefore⟩
      exact ⟨decide_eq_true hx, before, after, he, fun o ho => (hno o).mpr fun y hy => hbefore y (hy ▸ ho)⟩

/-- The drive of a restored disk is that of its string. -/
theorem restoreLetter_label (physical : List (Option PhysicalDisk)) (e : DiskEntry) :
    (restoreLetter physical e).headD 0 = (restoreLabel (physical.map (Option.map PhysicalDisk.label)) e).driveLetter := by
  have hmatch : matchDiskBySerial e.serialNumber (physical.map (Option.map PhysicalDisk.label)) =
      (matchPhysical e.serialNumber physical).map PhysicalDisk.label := by
    unfold matchDiskBySerial matchPhysical
    split
    · rfl
    · have hsame : (fun x : Option DiskLabel => x.any fun y => decide (cString e.serialNumber = cString y.serialNumber)) ∘
          Option.map PhysicalDisk.label = fun x : Option PhysicalDisk =>
            x.any fun y => decide (cString e.serialNumber = cString y.serialNumber) := by
        funext x
        cases x with
        | none => rfl
        | some y => rfl
      rw [List.find?_map, hsame]
      rcases physical.find? _ with _ | _ | y
      · rfl
      · rfl
      · rfl
  have hhead : (wString e.driveLetter).headD 0 = e.driveLetter 0 := by
    have hfour : (List.range 4).map e.driveLetter =
        [e.driveLetter 0, e.driveLetter 1, e.driveLetter 2, e.driveLetter 3] := rfl
    unfold wString
    rw [hfour, List.takeWhile_cons]
    split
    · rfl
    · next h => exact (not_ne_iff.mp fun hne => h (decide_eq_true hne)).symm
  unfold restoreLetter restoreLabel
  rw [hmatch]
  cases matchPhysical e.serialNumber physical with
  | none => exact hhead
  | some x => rfl

/-! ### Strings -/

theorem Scanned.letters {x : PhysicalDisk} (h : Scanned x) : ∃ l, x.driveLetter = rootString l ∨ x.driveLetter = mapRoot l := by
  induction h with
  | scan l model serial bench => exact ⟨l, Or.inl rfl⟩
  | map dl hx hmap ih =>
    unfold diskMapDrive at hmap
    split at hmap
    · cases hmap
    · obtain rfl := Option.some.inj hmap
      exact ⟨dl, Or.inr rfl⟩

theorem Scanned.short {x : PhysicalDisk} (h : Scanned x) : x.driveLetter.length ≤ 12 := by
  obtain ⟨l, hl | hl⟩ := h.letters
  · rw [hl]
    exact (by decide : 3 ≤ 12)
  · rw [hl]
    exact Nat.le_refl 12

theorem wString_short (s : ℕ → ℕ) : (wString s).length ≤ 4 := by
  have hle := ((List.range 4).map s).takeWhile_sublist (p := fun c => decide (c ≠ 0)) |>.length_le
  rwa [List.length_map, List.length_range] at hle

/-- A table as the program keeps it. -/
def ScannedTable (physical : List (Option PhysicalDisk)) : Prop := ∀ x, some x ∈ physical → Scanned x

theorem Finds.mem {physical : List (Option PhysicalDisk)} {serial : ℕ → ℕ} {x : PhysicalDisk} (h : Finds physical serial x) :
    some x ∈ physical := by
  obtain ⟨_, before, after, rfl, _⟩ := h
  exact List.mem_append_right _ (List.mem_cons_self ..)

theorem restoreLetter_short {physical : List (Option PhysicalDisk)} (h : ScannedTable physical) (e : DiskEntry) :
    (restoreLetter physical e).length ≤ 12 := by
  unfold restoreLetter
  split
  · next x hx => exact (h x (matchPhysical_iff.mp hx).mem).short
  · exact (wString_short _).trans (by decide)

theorem restoreFilePath_eq {physical : List (Option PhysicalDisk)} (h : ScannedTable physical) (e : DiskEntry) :
    restoreFilePath physical e = restoreLetter physical e ++ (configDir ++ [0x5C] ++ poolFilename) := by
  have hlen := restoreLetter_short h e
  have hrest : (configDir ++ [0x5C] ++ poolFilename).length = 24 := rfl
  unfold restoreFilePath
  rw [List.append_assoc, List.append_assoc, ← List.append_assoc configDir]
  apply List.take_of_length_le
  rw [List.length_append, hrest, show maxDrivePath - 1 = 259 from rfl]
  omega

/-! ### Different members -/

/-- The drive letters of the members are strings, and no two are the same. -/
structure Lettered (sb : SuperblockV4) : Prop where
  ended : ∀ i < sb.diskCount, ∃ j < 4, (sb.disks i).driveLetter j = 0
  distinct : ∀ i < sb.diskCount, ∀ j < sb.diskCount, i ≠ j → wString (sb.disks i).driveLetter ≠ wString (sb.disks j).driveLetter

/-- No two members find records with the same string, and none finds one with the letter of a
member that finds no record. -/
def Apart (physical : List (Option PhysicalDisk)) (sb : SuperblockV4) : Prop :=
  ∀ i < sb.diskCount, ∀ j < sb.diskCount, i ≠ j → ∀ x, Finds physical (sb.disks i).serialNumber x →
    (∀ y, Finds physical (sb.disks j).serialNumber y → x.driveLetter ≠ y.driveLetter) ∧
    ((∀ y, ¬ Finds physical (sb.disks j).serialNumber y) → x.driveLetter ≠ wString (sb.disks j).driveLetter)

theorem restoreLetter_found {physical : List (Option PhysicalDisk)} {e : DiskEntry} {x : PhysicalDisk}
    (h : Finds physical e.serialNumber x) : restoreLetter physical e = x.driveLetter := by
  unfold restoreLetter
  rw [matchPhysical_iff.mpr h]

theorem restoreLetter_fallback {physical : List (Option PhysicalDisk)} {e : DiskEntry}
    (h : ∀ x, ¬ Finds physical e.serialNumber x) : restoreLetter physical e = wString e.driveLetter := by
  unfold restoreLetter
  cases hm : matchPhysical e.serialNumber physical with
  | none => rfl
  | some x => exact absurd (matchPhysical_iff.mp hm) (h x)

theorem finds_or (physical : List (Option PhysicalDisk)) (serial : ℕ → ℕ) :
    (∃ x, Finds physical serial x) ∨ ∀ x, ¬ Finds physical serial x := by
  by_cases h : ∃ x, Finds physical serial x
  · exact Or.inl h
  · exact Or.inr (not_exists.mp h)

theorem restoreRecord_ok (physical : List (Option DiskLabel)) {sb : SuperblockV4} (r : VolumeRecord) (d : Disks)
    (disksOut : ℕ → DiskId) (hmin : minDisks ≤ sb.diskCount) (hmax : sb.diskCount ≤ maxDisks) :
    (restoreRecord (fun _ => true) physical sb r d disksOut).1 = true := by
  have hrange : ¬ (sb.diskCount < minDisks ∨ sb.diskCount > maxDisks) :=
    fun h => h.elim (Nat.not_lt_of_le hmin) (Nat.not_lt_of_le hmax)
  have hbase : ¬ (sb.base.diskCount < minDisks ∨ sb.base.diskCount > maxDisks) := hrange
  unfold restoreRecord superblockRestore
  simp only [if_neg hbase, if_neg hrange, openedPools_all (fun _ _ => rfl), decide_true]

theorem restoreRecord_range {opens : ℕ → Bool} {physical : List (Option DiskLabel)} {sb : SuperblockV4} {r : VolumeRecord}
    {d : Disks} {disksOut : ℕ → DiskId} (h : (restoreRecord opens physical sb r d disksOut).1 = true) :
    minDisks ≤ sb.diskCount ∧ sb.diskCount ≤ maxDisks := by
  have hcount : sb.base.diskCount = sb.diskCount := rfl
  unfold restoreRecord superblockRestore at h
  simp only [hcount] at h
  split at h
  · cases h
  · next hrange =>
    obtain ⟨hmin, hmax⟩ := not_or.mp hrange
    exact ⟨Nat.not_lt.mp hmin, Nat.not_lt.mp hmax⟩

/-- A restore that succeeds gives the members different pool files if and only if what they find
in the table is apart. -/
theorem superblockRestore_paths (physical : List (Option PhysicalDisk)) (sb : SuperblockV4) (r : VolumeRecord) (d : Disks)
    (disksOut : ℕ → DiskId) (hscan : ScannedTable physical) (hletters : Lettered sb) :
    (∀ opens, (restoreRecord opens (physical.map (Option.map PhysicalDisk.label)) sb r d disksOut).1 = true →
      ∀ i < sb.diskCount, ∀ j < sb.diskCount, i ≠ j →
        restoreFilePath physical (sb.disks i) ≠ restoreFilePath physical (sb.disks j)) ↔
      (minDisks ≤ sb.diskCount → sb.diskCount ≤ maxDisks → Apart physical sb) := by
  have hpath : ∀ i j, restoreFilePath physical (sb.disks i) = restoreFilePath physical (sb.disks j) ↔
      restoreLetter physical (sb.disks i) = restoreLetter physical (sb.disks j) := by
    intro i j
    rw [restoreFilePath_eq hscan, restoreFilePath_eq hscan]
    exact ⟨List.append_cancel_right, fun h => by rw [h]⟩
  constructor
  · intro h hmin hmax i hi j hj hne x hx
    have hok := restoreRecord_ok (physical.map (Option.map PhysicalDisk.label)) r d disksOut hmin hmax
    have hapart := fun he => h _ hok i hi j hj hne ((hpath i j).mpr he)
    rw [restoreLetter_found hx] at hapart
    refine ⟨fun y hy he => hapart ?_, fun hno he => hapart ?_⟩
    · rw [restoreLetter_found hy]
      exact he
    · rw [restoreLetter_fallback hno]
      exact he
  · intro h opens hok i hi j hj hne he
    obtain ⟨hmin, hmax⟩ := restoreRecord_range hok
    have hletter := (hpath i j).mp he
    have hapart := h hmin hmax
    rcases finds_or physical (sb.disks i).serialNumber with ⟨x, hx⟩ | hnoi
    · rw [restoreLetter_found hx] at hletter
      rcases finds_or physical (sb.disks j).serialNumber with ⟨y, hy⟩ | hnoj
      · rw [restoreLetter_found hy] at hletter
        exact (hapart i hi j hj hne x hx).1 y hy hletter
      · rw [restoreLetter_fallback hnoj] at hletter
        exact (hapart i hi j hj hne x hx).2 hnoj hletter
    · rw [restoreLetter_fallback hnoi] at hletter
      rcases finds_or physical (sb.disks j).serialNumber with ⟨y, hy⟩ | hnoj
      · rw [restoreLetter_found hy] at hletter
        exact (hapart j hj i hi hne.symm y hy).2 hnoi hletter.symm
      · rw [restoreLetter_fallback hnoj] at hletter
        exact hletters.distinct i hi j hj hne hletter

/-- The serial number `A`. -/
def serialA : ℕ → ℕ := fun i => if i = 0 then 0x41 else 0

/-- Drives `D` and `E` of the device with that serial number. -/
def twoPartitions : List (Option PhysicalDisk) :=
  [some ⟨rootString 0x44, [], [], serialA, 0⟩, some ⟨rootString 0x45, [], [], serialA, 0⟩]

/-- The superblock of a volume on `D` and `E`, the first with serial number `a` and the second with `b`. -/
def onDE (a b : ℕ → ℕ) : SuperblockV4 :=
  { SuperblockV4.zero with
    magic := superblockMagic, version := superblockVersion, diskCount := 2
    disks := fun i => ⟨rootOf (0x44 + i), 0, 0, 1048576, if i = 0 then a else b⟩ }

theorem onDE_lettered (a b : ℕ → ℕ) : Lettered (onDE a b) := by
  have hsmall : ∀ i < (onDE a b).diskCount, i = 0 ∨ i = 1 := by
    intro i hi
    have hi : i < 2 := hi
    omega
  constructor
  · intro i hi
    rcases hsmall i hi with rfl | rfl
    · exact ⟨3, by decide, rfl⟩
    · exact ⟨3, by decide, rfl⟩
  · intro i hi j hj hne
    rcases hsmall i hi with rfl | rfl
    · obtain rfl := (hsmall j hj).resolve_left hne.symm
      exact (by decide : wString (rootOf 0x44) ≠ wString (rootOf 0x45))
    · obtain rfl := (hsmall j hj).resolve_right hne.symm
      exact (by decide : wString (rootOf 0x45) ≠ wString (rootOf 0x44))

/-- Both members are found on `D`. -/
theorem superblockRestore_paths_fails : ScannedTable twoPartitions ∧ Lettered (onDE serialA serialA) ∧
    (restoreRecord (fun _ => true) (twoPartitions.map (Option.map PhysicalDisk.label)) (onDE serialA serialA) noVolume
      plainDisks id).1 = true ∧
    restoreFilePath twoPartitions ((onDE serialA serialA).disks 0) =
      restoreFilePath twoPartitions ((onDE serialA serialA).disks 1) := by
  refine ⟨?_, onDE_lettered _ _, rfl, by decide⟩
  intro x hx
  simp only [twoPartitions, List.mem_cons, Option.some.injEq, List.not_mem_nil, or_false] at hx
  rcases hx with rfl | rfl
  · exact .scan 0x44 [] serialA 0
  · exact .scan 0x45 [] serialA 0

/-- The device of the first member has moved to `F`, and the second member has no serial number. -/
theorem superblockRestore_paths_sample :
    restoreFilePath [some ⟨rootString 0x46, [], [], serialA, 0⟩] ((onDE serialA fun _ => 0).disks 0) ≠
      restoreFilePath [some ⟨rootString 0x46, [], [], serialA, 0⟩] ((onDE serialA fun _ => 0).disks 1) := by
  refine (superblockRestore_paths [some ⟨rootString 0x46, [], [], serialA, 0⟩] (onDE serialA fun _ => 0) noVolume plainDisks
    id ?_ (onDE_lettered _ _)).mpr ?_ (fun _ => true) rfl 0 (by decide) 1 (by decide) (by decide)
  · intro x hx
    obtain rfl := Option.some.inj (List.mem_singleton.mp hx)
    exact .scan 0x46 [] serialA 0
  · intro _ _ i hi j hj hne x hx
    have hi : i < 2 := hi
    have hj : j < 2 := hj
    have hzero : i = 0 := by
      by_contra hi0
      obtain rfl : i = 1 := by omega
      exact hx.1 rfl
    subst hzero
    obtain rfl : j = 1 := by omega
    obtain rfl := Option.some.inj (List.mem_singleton.mp hx.mem)
    exact ⟨fun y hy => absurd rfl hy.1, fun _ => by decide⟩

/-! ### The path of the creation -/

theorem diskMapDrive_some {dl : ℕ} {disk mapped : PhysicalDisk} (h : diskMapDrive dl disk = some mapped) :
    0x41 ≤ dl ∧ mapped.driveLetter = mapRoot dl ∧ mapped.filePath = rootString dl ++ (configDir ++ [0x5C] ++ poolFilename) := by
  unfold diskMapDrive at h
  split at h
  · cases h
  · next hrange =>
    obtain rfl := Option.some.inj h
    exact ⟨Nat.not_lt.mp (not_or.mp hrange).1, rfl, rfl⟩

theorem wString_root {l : ℕ} (h : 0x41 ≤ l) : wString (rootOf l) = rootString l := by
  have hne : l ≠ 0 := by omega
  have hfour : (List.range 4).map (rootOf l) = [l, 0x3A, 0x5C, 0] := by
    unfold rootOf
    simp only [if_neg hne]
    rfl
  unfold wString
  rw [hfour, List.takeWhile_cons, if_pos (decide_eq_true hne)]
  rfl

/-- A member whose pool was created on a mapped disk is restored to the same path if and only if
the disk found by its serial number, if there is one, has the root of the drive in `drive_letter`
and not the directory. -/
theorem superblockRestore_createdPath (time : ℕ) (label : DiskId → DiskLabel) (info : DiskId → DiskInfo) (r : VolumeRecord)
    (i : ℕ) (hi : i < r.v.diskCount) (dl : ℕ) (disk mapped : PhysicalDisk) (hmap : diskMapDrive dl disk = some mapped)
    (hlabel : label (r.v.diskAt i) = mapped.label) (physical : List (Option PhysicalDisk)) (hscan : ScannedTable physical) :
    restoreFilePath physical ((makeSuperblock time label info r).disks i) = mapped.filePath ↔
      ∀ x, Finds physical ((makeSuperblock time label info r).disks i).serialNumber x → x.driveLetter = rootString dl := by
  obtain ⟨hdl, hletters, hfile⟩ := diskMapDrive_some hmap
  have hentry : ((makeSuperblock time label info r).disks i).driveLetter = rootOf dl := by
    have he : ((makeSuperblock time label info r).disks i).driveLetter = rootOf (label (r.v.diskAt i)).driveLetter := by
      simp only [makeSuperblock, if_pos hi]
    rw [he, hlabel, PhysicalDisk.label, hletters]
    rfl
  rw [restoreFilePath_eq hscan, hfile]
  constructor
  · intro h x hx
    have hroot := List.append_cancel_right h
    rwa [restoreLetter_found hx] at hroot
  · intro h
    apply congrArg (fun s => s ++ (configDir ++ [0x5C] ++ poolFilename))
    rcases finds_or physical ((makeSuperblock time label info r).disks i).serialNumber with ⟨x, hx⟩ | hno
    · rw [restoreLetter_found hx, h x hx]
    · rw [restoreLetter_fallback hno, hentry, wString_root hdl]

/-- A disk that is scanned at `E`, and the one that mapping makes of it. -/
def freshE : PhysicalDisk := ⟨rootString 0x45, [], [], serialA, 0⟩
def mappedE : PhysicalDisk := (diskMapDrive 0x45 freshE).getD freshE

/-- A volume whose members are all on that disk. -/
def onE : VolumeRecord := { noVolume with v := plainVolume }

theorem onE_mapped : diskMapDrive 0x45 freshE = some mappedE := rfl

/-- The disk is still mapped when the volume is loaded. -/
theorem superblockRestore_createdPath_fails : ScannedTable [some mappedE] ∧
    diskMapDrive 0x45 freshE = some mappedE ∧ mappedE.driveLetter.head? = some 0x45 ∧
    restoreFilePath [some mappedE] ((makeSuperblock 7 (fun _ => mappedE.label) plainDisks.info onE).disks 0) =
      rootString 0x45 ++ configDir ++ [0x5C] ++ configDir ++ [0x5C] ++ poolFilename ∧
    mappedE.filePath = rootString 0x45 ++ configDir ++ [0x5C] ++ poolFilename := by
  refine ⟨?_, rfl, rfl, by decide, by decide⟩
  intro x hx
  obtain rfl := Option.some.inj (List.mem_singleton.mp hx)
  exact .map 0x45 (.scan 0x45 [] serialA 0) onE_mapped

/-- The disk is scanned again before the volume is loaded. -/
theorem superblockRestore_createdPath_sample :
    restoreFilePath [some freshE] ((makeSuperblock 7 (fun _ => mappedE.label) plainDisks.info onE).disks 0) =
      mappedE.filePath := by
  refine (superblockRestore_createdPath 7 (fun _ => mappedE.label) plainDisks.info onE 0 (by decide) 0x45 freshE mappedE
    onE_mapped rfl [some freshE] ?_).mpr ?_
  · intro x hx
    obtain rfl := Option.some.inj (List.mem_singleton.mp hx)
    exact .scan 0x45 [] serialA 0
  · intro x hx
    obtain rfl := Option.some.inj (List.mem_singleton.mp hx.mem)
    rfl

end RaidTest.Metadata
