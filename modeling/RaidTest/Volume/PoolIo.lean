import RaidTest.Mirror.Agreement

/-!
# Pool files (`pool_io.c`)

Every disk record names its pool file by path, and two records can name the same one. The
bytes a transfer of a record moves are those of the file its path leads to.
-/

namespace RaidTest.Volume
open RaidTest.Base

abbrev Path := ℕ

structure PoolFile where
  size : ℕ
  bytes : Buf

/-- What `DISK_INFO` says about the way to a disk: `selected`, `drive_letter[0] != 0` and
`file_path`, which may be empty. -/
structure Drives where
  selected : DiskId → Bool
  letter : DiskId → Bool
  path : DiskId → Option Path

/-- The disk records and the pool files. -/
structure Pools where
  info : DiskId → DiskInfo
  file : Path → Option PoolFile

def Pools.setInfo (s : Pools) (i : DiskId) (x : DiskInfo) : Pools :=
  { s with info := fun j => if j = i then x else s.info j }

def Pools.setFile (s : Pools) (p : Path) (f : Option PoolFile) : Pools :=
  { s with file := fun q => if q = p then f else s.file q }

@[simp] theorem Pools.setInfo_file (s : Pools) (i : DiskId) (x : DiskInfo) : (s.setInfo i x).file = s.file := rfl

@[simp] theorem Pools.setFile_info (s : Pools) (p : Path) (f : Option PoolFile) : (s.setFile p f).info = s.info := rfl

theorem Pools.setFile_same (s : Pools) (p : Path) (f : Option PoolFile) : (s.setFile p f).file p = f := if_pos rfl

theorem Pools.setFile_other (s : Pools) {p q : Path} (f : Option PoolFile) (h : q ≠ p) :
    (s.setFile p f).file q = s.file q := if_neg h

/-- The records with the bytes their transfers would move. -/
def Pools.disks (dr : Drives) (s : Pools) : Disks where
  info := s.info
  pool := fun i => match (dr.path i).bind s.file with
    | none => fun _ => 0
    | some f => f.bytes

/-- The answers of the environment about one pool file: whether one of the two
`CreateFileW` calls of the creation gives a handle, whether the file can be made as long as
asked for, whether one of the two calls of the opening gives a handle, whether
`DeleteFileW` succeeds. -/
structure PoolEnv where
  create : Bool
  extend : Bool
  opens : Bool
  delete : Bool

def PoolEnv.good : PoolEnv := ⟨true, true, true, true⟩

/-- `validate_pool_size`. -/
def validatePoolSize (size : ℕ) : Bool := !(size == 0 || decide (size < sectorSize) || size / sectorSize == 0)

/-- The size a pool file is created with. -/
def alignedSize (size : ℕ) : ℕ :=
  if size % sectorSize = 0 then size
  else if size / sectorSize * sectorSize = 0 then sectorSize else size / sectorSize * sectorSize

/-- `pool_file_create`: `CREATE_ALWAYS` empties the file before it is made `size` bytes long. -/
def poolFileCreate (dr : Drives) (env : PoolEnv) (s : Pools) (disk : DiskId) (size : ℕ) : Bool × Pools :=
  match dr.path disk with
  | none => (false, s)
  | some p =>
    if validatePoolSize size = false then (false, s)
    else
      let s := s.setInfo disk { s.info disk with poolBytes := alignedSize size }
      if env.create = false then (false, s)
      else if env.extend = false then (false, s.setFile p (some ⟨0, fun _ => 0⟩))
      else (true, s.setFile p (some ⟨alignedSize size, fun _ => 0⟩))

/-- `pool_file_open`. -/
def poolFileOpen (dr : Drives) (env : PoolEnv) (s : Pools) (disk : DiskId) : Bool × Pools :=
  match dr.path disk with
  | none => (false, s)
  | some p =>
    let ok := env.opens && (s.file p).isSome
    (ok, s.setInfo disk { s.info disk with hasHandle := ok })

/-- `pool_file_close`. -/
def poolFileClose (s : Pools) (disk : DiskId) : Pools :=
  s.setInfo disk { s.info disk with hasHandle := false }

/-- `pool_file_delete`. -/
def poolFileDelete (dr : Drives) (env : PoolEnv) (s : Pools) (disk : DiskId) : Pools :=
  match dr.path disk with
  | none => s
  | some p =>
    let s := poolFileClose s disk
    if env.delete then s.setFile p none else s

/-! ### What the operations leave alone -/

theorem poolFileCreate_file (dr : Drives) (env : PoolEnv) (s : Pools) (disk : DiskId) (size : ℕ) {p : Path}
    (h : env.create = true → dr.path disk ≠ some p) :
    (poolFileCreate dr env s disk size).2.file p = s.file p := by
  unfold poolFileCreate
  split
  · rfl
  next q hq =>
  split
  · rfl
  simp only
  split
  · rfl
  next hc =>
  have hne : p ≠ q := by
    rintro rfl
    exact h (by simpa using hc) hq
  split <;> exact Pools.setFile_other _ _ hne

theorem poolFileOpen_file (dr : Drives) (env : PoolEnv) (s : Pools) (disk : DiskId) :
    (poolFileOpen dr env s disk).2.file = s.file := by
  unfold poolFileOpen
  split <;> rfl

theorem poolFileDelete_file (dr : Drives) (env : PoolEnv) (s : Pools) (disk : DiskId) {p : Path}
    (h : dr.path disk ≠ some p) : (poolFileDelete dr env s disk).file p = s.file p := by
  unfold poolFileDelete
  split
  · rfl
  next q hq =>
  simp only
  split
  · exact Pools.setFile_other _ _ (by rintro rfl; exact h hq)
  · rfl

/-- The file is gone, or holds nothing but zeros. -/
def Blank (f : Option PoolFile) : Prop := ∀ g, f = some g → g.bytes = fun _ => 0

theorem poolFileDelete_blank (dr : Drives) (env : PoolEnv) (s : Pools) (disk : DiskId) {p : Path}
    (h : Blank (s.file p)) : Blank ((poolFileDelete dr env s disk).file p) := by
  unfold poolFileDelete
  split
  · exact h
  next q hq =>
  simp only
  split
  · by_cases he : p = q
    · rw [he, Pools.setFile_same]
      exact nofun
    · rw [Pools.setFile_other _ _ he]
      exact h
  · exact h

theorem poolFileCreate_blank (dr : Drives) (env : PoolEnv) (s : Pools) (disk : DiskId) (size : ℕ) {p : Path}
    (h : Blank (s.file p)) : Blank ((poolFileCreate dr env s disk size).2.file p) := by
  unfold poolFileCreate
  split
  · exact h
  next q hq =>
  split
  · exact h
  simp only
  split
  · exact h
  have hzero : ∀ n, Blank (some ⟨n, fun _ => 0⟩) := fun n g hg => by rw [← Option.some.inj hg]
  split <;> by_cases he : p = q
  · rw [he, Pools.setFile_same]
    exact hzero 0
  · rw [Pools.setFile_other _ _ he]
    exact h
  · rw [he, Pools.setFile_same]
    exact hzero _
  · rw [Pools.setFile_other _ _ he]
    exact h

end RaidTest.Volume
