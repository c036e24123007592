import RaidTest.Fuse.Bridge
import Mathlib.Algebra.BigOperators.Group.List.Basic
import Mathlib.Algebra.Ring.Nat

/-!
# The space counters of a mount

Two counters only grow: the bytes taken and the bytes given back. `raid_statfs` reports their
difference as what is in use. `raid_write` counts what it transfers, `raid_truncate` and
`raid_unlink` count sizes.
-/

namespace RaidTest.Fuse
open RaidTest.Base RaidTest.Stripe RaidTest.Cache

/-! ### The callbacks -/

/-- `fuse_mount_volume`: the counters start again, the file table stays. -/
def fuseMountVolume (s : System) (t : FileTable) : Mount := ⟨s, t, 0, 0⟩

/-- `raid_create` under the mount. -/
def createFile (path : List Char) (m : Mount) : Option FuseError × Mount :=
  ((raidCreate path m.table).1, { m with table := (raidCreate path m.table).2 })

/-- `raid_unlink` under the mount. -/
def unlinkFile (path : List Char) (m : Mount) : Option FuseError × Mount :=
  let (err, table, size) := raidUnlink path m.table
  (err, { m with table := table, freed := if size > 0 then u64 (m.freed + size) else m.freed })

/-- `raid_truncate`. -/
def raidTruncate (path : List Char) (size : ℕ) (m : Mount) : Option FuseError × Mount :=
  let p := stripPath path
  if p = [] then (some .enoent, m)
  else
    match findOpenFile m.table p with
    | none => (none, m)
    | some idx =>
      let oldSize := ((m.table[idx]?).map FileEntry.size).getD 0
      let table := m.table.modify idx fun e => { e with size := size }
      if size < oldSize then (none, { m with table := table, freed := u64 (m.freed + sub64 oldSize size) })
      else if size > oldSize then (none, { m with table := table, consumed := u64 (m.consumed + sub64 size oldSize) })
      else (none, { m with table := table })

/-- `fuse_statvfs`, as far as `raid_statfs` fills it in. -/
structure FuseStatvfs where
  bsize : ℕ
  frsize : ℕ
  blocks : ℕ
  bfree : ℕ
  bavail : ℕ
  files : ℕ
  ffree : ℕ
  namemax : ℕ
  deriving DecidableEq, Repr

/-- `raid_statfs`. -/
def raidStatfs (m : Mount) : FuseStatvfs :=
  let total := m.sys.v.virtualTotalBytes
  let blocks := total / sectorSize
  let usedBytes := if m.consumed > m.freed then m.consumed - m.freed else 0
  let usedBytes := if usedBytes > total then total else usedBytes
  let usedBlocks := if usedBytes % sectorSize ≠ 0 then usedBytes / sectorSize + 1 else usedBytes / sectorSize
  let bfree := blocks - if usedBlocks > blocks then blocks else usedBlocks
  ⟨sectorSize, sectorSize, blocks, bfree, bfree, maxOpenFiles, maxOpenFiles - m.table.length, 255⟩

/-- A call that changes the file table or its sizes; sizes and offsets are 64 bits wide. -/
inductive SizeOp where
  | create (path : List Char)
  | write (env : ℕ → ChunkEnv) (path : List Char) (buffer : Buf) (size offset : UInt64)
  | truncate (path : List Char) (size : UInt64)
  | unlink (path : List Char)

def sizeStep (m : Mount) : SizeOp → Option Mount
  | .create path => some (createFile path m).2
  | .write env path buffer size offset => (raidWrite env path buffer size.toNat offset.toNat m).map Prod.snd
  | .truncate path size => some (raidTruncate path size.toNat m).2
  | .unlink path => some (unlinkFile path m).2

/-! ### Sizes -/

/-- The bytes of all files. -/
def filesBytes (t : FileTable) : ℕ := (t.map FileEntry.size).sum

@[simp] theorem filesBytes_nil : filesBytes [] = 0 := rfl

@[simp] theorem filesBytes_cons (e : FileEntry) (t : FileTable) : filesBytes (e :: t) = e.size + filesBytes t := by
  unfold filesBytes
  rw [List.map_cons, List.sum_cons]

theorem filesBytes_append (s t : FileTable) : filesBytes (s ++ t) = filesBytes s + filesBytes t := by
  unfold filesBytes
  rw [List.map_append, List.sum_append]

theorem filesBytes_perm {s t : FileTable} (h : s.Perm t) : filesBytes s = filesBytes t :=
  (h.map FileEntry.size).sum_eq

/-- One entry gets another size. -/
theorem filesBytes_modify {t : FileTable} {idx : ℕ} {e : FileEntry} (he : t[idx]? = some e)
    (f : FileEntry → FileEntry) : filesBytes (t.modify idx f) + e.size = filesBytes t + (f e).size := by
  induction t generalizing idx with
  | nil => cases he
  | cons x t ih =>
    cases idx with
    | zero =>
      obtain rfl := Option.some.inj he
      rw [List.modify_zero_cons, filesBytes_cons, filesBytes_cons]
      omega
    | succ idx =>
      rw [List.getElem?_cons_succ] at he
      have h := ih he
      rw [List.modify_succ_cons, filesBytes_cons, filesBytes_cons]
      omega

theorem filesBytes_remove {t : FileTable} {idx : ℕ} {e : FileEntry} (he : t[idx]? = some e) :
    filesBytes (removeOpenFile t idx) + e.size = filesBytes t := by
  obtain ⟨hidx, rfl⟩ := List.getElem?_eq_some_iff.mp he
  rw [filesBytes_perm (removeOpenFile_perm hidx), ← filesBytes_perm (List.getElem_cons_eraseIdx_perm hidx),
    filesBytes_cons, Nat.add_comm]

/-- The entry that `find_open_file_locked` finds. -/
def fileNamed (t : FileTable) (name : List Char) : Option FileEntry := (findOpenFile t name).bind fun idx => t[idx]?

theorem fileNamed_none {t : FileTable} {name : List Char} (h : findOpenFile t name = none) : fileNamed t name = none := by
  rw [fileNamed, h, Option.bind_none]

theorem fileNamed_some {t : FileTable} {name : List Char} {idx : ℕ} {e : FileEntry} (h : findOpenFile t name = some idx)
    (he : t[idx]? = some e) : fileNamed t name = some e := by
  rw [fileNamed, h, Option.bind_some, he]

/-- Entries that keep their paths are found as before. -/
theorem findOpenFile_modify (t : FileTable) (name : List Char) (i : ℕ) {f : FileEntry → FileEntry}
    (hf : ∀ e, (f e).fullPath = e.fullPath) : findOpenFile (t.modify i f) name = findOpenFile t name := by
  unfold findOpenFile
  induction t generalizing i with
  | nil => rw [List.modify_nil]
  | cons e t ih =>
    cases i with
    | zero => rw [List.modify_zero_cons, List.findIdx?_cons, List.findIdx?_cons, hf]
    | succ i => rw [List.modify_succ_cons, List.findIdx?_cons, List.findIdx?_cons, ih]

theorem fileNamed_growFile (t : FileTable) (name : List Char) (writeEnd : ℕ) :
    fileNamed (growFile t name writeEnd) name =
      (fileNamed t name).map fun e => if writeEnd > e.size then { e with size := writeEnd } else e := by
  unfold growFile
  cases hf : findOpenFile t name with
  | none =>
    rw [fileNamed_none hf]
    rfl
  | some idx =>
    obtain ⟨e, he, _⟩ := findOpenFile_some hf
    have hpath : ∀ e : FileEntry, (if writeEnd > e.size then { e with size := writeEnd } else e).fullPath = e.fullPath := by
      intro e
      split <;> rfl
    rw [fileNamed_some hf he, Option.map_some]
    unfold fileNamed
    simp only
    rw [findOpenFile_modify t name idx hpath, hf, Option.bind_some, List.getElem?_modify, he]
    simp only [if_true, Option.map_eq_map, Option.map_some]

/-- By how many bytes a file grows when a write ends at `writeEnd`. -/
theorem filesBytes_growFile (t : FileTable) (name : List Char) (writeEnd : ℕ) :
    filesBytes (growFile t name writeEnd) = filesBytes t + ((fileNamed t name).elim 0 fun e => writeEnd - e.size) := by
  unfold growFile
  cases hf : findOpenFile t name with
  | none =>
    rw [fileNamed_none hf]
    rfl
  | some idx =>
    obtain ⟨e, he, _⟩ := findOpenFile_some hf
    rw [fileNamed_some hf he, Option.elim_some]
    have h := filesBytes_modify he fun e => if writeEnd > e.size then { e with size := writeEnd } else e
    simp only at h ⊢
    split at h
    · simp only at h
      omega
    · omega

theorem size_le_filesBytes {t : FileTable} {e : FileEntry} (h : e ∈ t) : e.size ≤ filesBytes t := by
  obtain ⟨a, b, rfl⟩ := List.append_of_mem h
  rw [filesBytes_append, filesBytes_cons]
  omega

/-! ### The balance -/

/-- The difference of the counters is what the files take, and `raid_statfs` says so. -/
structure Accounted (m : Mount) : Prop where
  balance : m.consumed = m.freed + filesBytes m.table
  free : (raidStatfs m).bfree = m.sys.v.virtualTotalBytes / sectorSize -
    min (m.sys.v.virtualTotalBytes / sectorSize)
      ((min (filesBytes m.table) m.sys.v.virtualTotalBytes + (sectorSize - 1)) / sectorSize)

theorem accounted_iff {m : Mount} : Accounted m ↔ m.consumed = m.freed + filesBytes m.table := by
  refine ⟨fun h => h.balance, fun h => ⟨h, ?_⟩⟩
  have hsector : sectorSize = 512 := rfl
  have hused : (if m.consumed > m.freed then m.consumed - m.freed else 0) = filesBytes m.table := by
    split <;> omega
  have hclip : ∀ a b : ℕ, (if a > b then b else a) = min a b := by
    intro a b
    split <;> omega
  unfold raidStatfs
  simp only [hused, hclip]
  rw [Nat.min_comm]
  congr 2
  rw [hsector]
  split <;> omega

/-- The bytes that `raid_write` has to transfer. -/
def writeLength (m : Mount) (size offset : ℕ) : ℕ :=
  sub64 (minU64 (u64 (offset + size)) m.sys.v.virtualTotalBytes) offset

/-- `raid_write` makes one file longer by all it transfers, and the counter has room for that. -/
structure Appends (env : ℕ → ChunkEnv) (path : List Char) (buffer : Buf) (offset len : ℕ) (m : Mount) : Prop where
  all : ∃ s, raidWriteLoop env buffer len 0 offset len 0 m.sys = some (true, len, s)
  named : stripPath path ≠ []
  file : ∃ e, fileNamed m.table (stripPath path) = some e ∧ e.size = offset
  small : offset + len < 2^64
  counted : m.consumed + len < 2^64

/-- Unless there is nothing to transfer, or the first chunk fails, or the call has no result, it appends. -/
def AppendsAny (env : ℕ → ChunkEnv) (path : List Char) (buffer : Buf) (offset len : ℕ) (m : Mount) : Prop :=
  0 < len → raidWriteLoop env buffer len 0 offset len 0 m.sys ≠ none →
    (¬ ∃ s, raidWriteChunk (env 0) buffer offset len m.sys = some (0, s)) → Appends env path buffer offset len m

/-- A write that transfers something appends it, and the counter of the bytes taken does not run over. -/
def KeepsAccount (m : Mount) : SizeOp → Prop
  | .create _ | .unlink _ => True
  | .truncate path size => ∀ e, stripPath path ≠ [] → fileNamed m.table (stripPath path) = some e →
      m.consumed + (size.toNat - e.size) < 2^64
  | .write env path buffer size offset =>
      offset.toNat < m.sys.v.virtualTotalBytes →
        AppendsAny env path buffer offset.toNat (writeLength m size.toNat offset.toNat) m

theorem writeLength_lt (m : Mount) (size offset : ℕ) : writeLength m size offset < 2^64 :=
  Nat.mod_lt _ (by decide)

theorem raidWrite_length {m : Mount} {size offset : ℕ} (hin : offset < m.sys.v.virtualTotalBytes) (env : ℕ → ChunkEnv)
    (path : List Char) (buffer : Buf) :
    raidWrite env path buffer size offset m =
      (raidWriteLoop env buffer (writeLength m size offset) 0 offset (writeLength m size offset) 0 m.sys).map
        fun r => raidWritten path offset m r.1 r.2.1 r.2.2 := by
  unfold raidWrite
  rw [if_neg (Nat.not_le.mpr hin)]
  unfold writeLength
  simp only
  cases raidWriteLoop env buffer (sub64 (minU64 (u64 (offset + size)) m.sys.v.virtualTotalBytes) offset) 0 offset
      (sub64 (minU64 (u64 (offset + size)) m.sys.v.virtualTotalBytes) offset) 0 m.sys with
  | none => rfl
  | some r => rfl

theorem raidWriteLoop_total {env : ℕ → ChunkEnv} {buffer : Buf} {offset len : ℕ} {s t : System} {ok : Bool} {total : ℕ}
    (h : raidWriteLoop env buffer len 0 offset len 0 s = some (ok, total, t)) :
    total ≤ len ∧ (ok = true → total = len) := by
  have hwritten : Written env buffer offset len (fun _ _ => True) ok total t :=
    raidWriteLoop_rule (fun _ _ _ _ _ _ _ _ => True.intro) len True.intro (Nat.zero_le _) (Nat.le_refl _) h
  exact ⟨hwritten.le, hwritten.all⟩

/-- The loop transfers nothing only when its first chunk fails. -/
theorem raidWriteLoop_first {env : ℕ → ChunkEnv} {buffer : Buf} {offset len : ℕ} {s t : System} {ok : Bool} {total : ℕ}
    (hpos : 0 < len) (h : raidWriteLoop env buffer len 0 offset len 0 s = some (ok, total, t)) :
    total = 0 ↔ ∃ u, raidWriteChunk (env 0) buffer offset len s = some (0, u) := by
  obtain ⟨fuel, rfl⟩ := Nat.exists_eq_succ_of_ne_zero (Nat.pos_iff_ne_zero.mp hpos)
  unfold raidWriteLoop at h
  rw [if_neg (Nat.succ_ne_zero fuel)] at h
  have hshift : buffer.shift 0 = buffer := funext fun i => congrArg buffer (Nat.zero_add i)
  rw [hshift] at h
  cases hc : raidWriteChunk (env 0) buffer offset (fuel + 1) s with
  | none =>
    rw [hc] at h
    cases h
  | some r =>
    obtain ⟨n, u⟩ := r
    rw [hc] at h
    simp only at h
    split at h
    · next hzero =>
      simp only [Option.some.injEq, Prod.mk.injEq] at h
      exact ⟨fun _ => ⟨u, by rw [hzero]⟩, fun _ => h.2.1.symm⟩
    · next hn =>
      have hle := raidWriteChunk_le hc
      rw [Nat.zero_add n, Nat.succ_eq_add_one] at h
      have hw : Written env buffer offset (fuel + 1) (fun total _ => n ≤ total) ok total t :=
        raidWriteLoop_rule (fun _ _ _ _ _ hp _ _ => Nat.le_add_right_of_le hp) fuel (Nat.le_refl n) hle (by omega) h
      constructor
      · intro hz
        have hge := hw.holds
        omega
      · rintro ⟨_, hz⟩
        exact absurd (Prod.mk.inj (Option.some.inj hz)).1 hn

/-! ### Steps -/

/-- A counter that takes on `n` more bytes agrees with files that grew by `g` bytes. -/
theorem u64_grown {consumed n g : ℕ} (hc : consumed < 2^64) (hn : n < 2^64) :
    u64 (consumed + n) = consumed + g ↔ n = 0 ∧ g = 0 ∨ 0 < n ∧ g = n ∧ consumed + n < 2^64 := by
  unfold u64
  omega

theorem writeEnd_grows {offset n size : ℕ} (hn : 0 < n) (ho : offset < 2^64) :
    u64 (offset + n) - size = n ↔ size = offset ∧ offset + n < 2^64 := by
  unfold u64
  omega

theorem createFile_accounted (path : List Char) (m : Mount) :
    Accounted (createFile path m).2 ↔ Accounted m := by
  rw [accounted_iff, accounted_iff]
  have hkeep : filesBytes (raidCreate path m.table).2 = filesBytes m.table := by
    unfold raidCreate
    split
    · rfl
    · next hne =>
      rcases addNew_cases m.table hne false with ⟨_, _, he⟩ | ⟨_, he⟩
      · rw [he, filesBytes_append]
        rfl
      · rw [he]
  unfold createFile
  simp only
  rw [hkeep]

theorem unlinkFile_accounted {m : Mount} (path : List Char) (hc : m.consumed < 2^64) (h : Accounted m) :
    Accounted (unlinkFile path m).2 := by
  rw [accounted_iff] at h ⊢
  unfold unlinkFile raidUnlink
  simp only
  split
  · exact h
  split
  · exact h
  next idx hf =>
  obtain ⟨e, he, _⟩ := findOpenFile_some hf
  have hless := filesBytes_remove he
  rw [he, Option.map_some, Option.getD_some]
  simp only
  split
  · rw [u64_of_lt (by omega)]
    omega
  · omega

theorem raidTruncate_accounted {m : Mount} (path : List Char) {size : ℕ} (hsize : size < 2^64)
    (hc : m.consumed < 2^64) (h : Accounted m) :
    Accounted (raidTruncate path size m).2 ↔ ∀ e, stripPath path ≠ [] →
      fileNamed m.table (stripPath path) = some e → m.consumed + (size - e.size) < 2^64 := by
  have hbal := accounted_iff.mp h
  unfold raidTruncate
  simp only
  split
  · next hnil => exact ⟨fun _ _ hne => absurd hnil hne, fun _ => h⟩
  next hne =>
  cases hf : findOpenFile m.table (stripPath path) with
  | none =>
    refine ⟨fun _ e _ he => ?_, fun _ => h⟩
    rw [fileNamed_none hf] at he
    cases he
  | some idx =>
    obtain ⟨e, he, _⟩ := findOpenFile_some hf
    have hnamed := fileNamed_some hf he
    have hsum := filesBytes_modify he fun e => { e with size := size }
    have hle := size_le_filesBytes (List.mem_of_getElem? he)
    simp only at hsum
    have hall : (∀ e', stripPath path ≠ [] → fileNamed m.table (stripPath path) = some e' →
        m.consumed + (size - e'.size) < 2^64) ↔ m.consumed + (size - e.size) < 2^64 := by
      constructor
      · intro h
        exact h e hne hnamed
      · intro h e' _ he'
        obtain rfl := Option.some.inj (hnamed.symm.trans he')
        exact h
    rw [hall, accounted_iff]
    simp only [he, Option.map_some, Option.getD_some]
    split
    · next hlt =>
      simp only
      rw [sub64_of_le (by omega) (by omega), u64_of_lt (by omega)]
      omega
    split
    · next hgt =>
      simp only
      rw [sub64_of_le (by omega) hsize]
      unfold u64
      omega
    · simp only
      omega

theorem raidWritten_consumed (path : List Char) (offset : ℕ) (m : Mount) (ok : Bool) (total : ℕ) (s : System) :
    (raidWritten path offset m ok total s).2.consumed = u64 (m.consumed + total) ∧
      (raidWritten path offset m ok total s).2.freed = m.freed ∧
      (raidWritten path offset m ok total s).2.table =
        if ok = true ∧ stripPath path ≠ [] ∧ 0 < total then growFile m.table (stripPath path) (u64 (offset + total))
        else m.table := by
  unfold raidWritten
  cases ok with
  | true => exact ⟨rfl, rfl, by simp only [Bool.true_eq_false, if_false, true_and]⟩
  | false => exact ⟨rfl, rfl, by simp only [if_true, Bool.false_eq_true, false_and, if_false]⟩

theorem raidWritten_accounted {m : Mount} (path : List Char) {offset total : ℕ} (ok : Bool) (s : System)
    (ho : offset < 2^64) (ht : total < 2^64) (hc : m.consumed < 2^64) (h : Accounted m) :
    Accounted (raidWritten path offset m ok total s).2 ↔ total = 0 ∨ (ok = true ∧ stripPath path ≠ [] ∧
      (∃ e, fileNamed m.table (stripPath path) = some e ∧ e.size = offset) ∧ offset + total < 2^64 ∧
      m.consumed + total < 2^64) := by
  have hbal := accounted_iff.mp h
  obtain ⟨h1, h2, h3⟩ := raidWritten_consumed path offset m ok total s
  rw [accounted_iff, h1, h2, h3]
  by_cases hgrow : ok = true ∧ stripPath path ≠ [] ∧ 0 < total
  · obtain ⟨hok, hne, hpos⟩ := hgrow
    rw [if_pos ⟨hok, hne, hpos⟩, filesBytes_growFile, ← Nat.add_assoc, ← hbal, u64_grown hc ht]
    cases hf : fileNamed m.table (stripPath path) with
    | none =>
      simp only [Option.elim_none, reduceCtorEq, false_and, exists_false, and_false, or_false]
      omega
    | some e =>
      rw [Option.elim_some, writeEnd_grows hpos ho]
      constructor
      · rintro (⟨hz, _⟩ | ⟨_, ⟨hsize, hsmall⟩, hcount⟩)
        · omega
        · exact Or.inr ⟨hok, hne, ⟨e, rfl, hsize⟩, hsmall, hcount⟩
      · rintro (hz | ⟨_, _, ⟨e', he', hsize⟩, hsmall, hcount⟩)
        · omega
        · obtain rfl := Option.some.inj he'
          exact Or.inr ⟨hpos, ⟨hsize, hsmall⟩, hcount⟩
  · rw [if_neg hgrow, ← hbal]
    have hnone := u64_grown (g := 0) hc ht
    rw [Nat.add_zero] at hnone
    rw [hnone]
    constructor
    · rintro (⟨hz, _⟩ | ⟨hpos, hz, _⟩)
      · exact Or.inl hz
      · omega
    · rintro (hz | ⟨hok, hne, _⟩)
      · exact Or.inl ⟨hz, rfl⟩
      · refine Or.inl ⟨?_, rfl⟩
        by_contra hpos
        exact hgrow ⟨hok, hne, Nat.pos_of_ne_zero hpos⟩

theorem sizeStep_consumed {m t : Mount} {op : SizeOp} (hc : m.consumed < 2^64) (h : sizeStep m op = some t) :
    t.consumed < 2^64 := by
  have hmod : ∀ n, u64 n < 2^64 := fun n => Nat.mod_lt _ (by decide)
  cases op with
  | create path =>
    obtain rfl := Option.some.inj h
    exact hc
  | unlink path =>
    obtain rfl := Option.some.inj h
    exact hc
  | truncate path size =>
    obtain rfl := Option.some.inj h
    unfold raidTruncate
    simp only
    split
    · exact hc
    split
    · exact hc
    split
    · exact hc
    split
    · exact hmod _
    · exact hc
  | write env path buffer size offset =>
    obtain ⟨⟨n, u⟩, hw, rfl⟩ := Option.map_eq_some_iff.mp h
    by_cases hin : offset.toNat < m.sys.v.virtualTotalBytes
    · rw [raidWrite_length hin, Option.map_eq_some_iff] at hw
      obtain ⟨⟨ok, total, s⟩, _, he⟩ := hw
      rw [← congrArg Prod.snd he, (raidWritten_consumed _ _ _ _ _ _).1]
      exact hmod _
    · unfold raidWrite at hw
      rw [if_pos (Nat.not_lt.mp hin)] at hw
      obtain ⟨_, rfl⟩ := Prod.mk.inj (Option.some.inj hw)
      exact hc

/-- The outcome of the loop, by the state before it. -/
theorem appendsAny_iff {m : Mount} {env : ℕ → ChunkEnv} {path : List Char} {buffer : Buf} {offset len : ℕ} {ok : Bool}
    {total : ℕ} {s : System} (hloop : raidWriteLoop env buffer len 0 offset len 0 m.sys = some (ok, total, s)) :
    AppendsAny env path buffer offset len m ↔ total = 0 ∨ (ok = true ∧ stripPath path ≠ [] ∧
      (∃ e, fileNamed m.table (stripPath path) = some e ∧ e.size = offset) ∧ offset + total < 2^64 ∧
      m.consumed + total < 2^64) := by
  obtain ⟨hle, hall⟩ := raidWriteLoop_total hloop
  constructor
  · intro hcond
    by_cases hpos : 0 < len
    · by_cases hfirst : ∃ u, raidWriteChunk (env 0) buffer offset len m.sys = some (0, u)
      · exact Or.inl ((raidWriteLoop_first hpos hloop).mpr hfirst)
      · obtain ⟨⟨u, hdone⟩, hne, hfile, hsmall, hcount⟩ := hcond hpos (by rw [hloop]; exact Option.some_ne_none _) hfirst
        rw [hloop] at hdone
        simp only [Option.some.injEq, Prod.mk.injEq] at hdone
        obtain ⟨hok, rfl, _⟩ := hdone
        exact Or.inr ⟨hok, hne, hfile, hsmall, hcount⟩
    · exact Or.inl (by omega)
  · intro hcond hpos _ hfirst
    rcases hcond with hz | ⟨hok, hne, hfile, hsmall, hcount⟩
    · exact absurd ((raidWriteLoop_first hpos hloop).mp hz) hfirst
    · obtain rfl := hall hok
      exact ⟨⟨s, by rw [hloop, hok]⟩, hne, hfile, hsmall, hcount⟩

theorem raidWrite_accounted {m t : Mount} {env : ℕ → ChunkEnv} {path : List Char} {buffer : Buf} {size offset : UInt64}
    {n : ℤ} (hc : m.consumed < 2^64) (h : Accounted m)
    (hw : raidWrite env path buffer size.toNat offset.toNat m = some (n, t)) :
    Accounted t ↔ KeepsAccount m (.write env path buffer size offset) := by
  show Accounted t ↔ (offset.toNat < m.sys.v.virtualTotalBytes →
    AppendsAny env path buffer offset.toNat (writeLength m size.toNat offset.toNat) m)
  have ho : offset.toNat < 2^64 := offset.toNat_lt
  by_cases hin : offset.toNat < m.sys.v.virtualTotalBytes
  · rw [raidWrite_length hin, Option.map_eq_some_iff] at hw
    have hlen := writeLength_lt m size.toNat offset.toNat
    generalize writeLength m size.toNat offset.toNat = len at hw hlen
    obtain ⟨⟨ok, total, s⟩, hloop, he⟩ := hw
    simp only at he
    have ht : t = (raidWritten path offset.toNat m ok total s).2 := by rw [he]
    have hle := (raidWriteLoop_total hloop).1
    rw [ht, raidWritten_accounted path ok s ho (Nat.lt_of_le_of_lt hle hlen) hc h, appendsAny_iff hloop]
    exact ⟨fun hcond _ => hcond, fun hcond => hcond hin⟩
  · unfold raidWrite at hw
    rw [if_pos (Nat.not_lt.mp hin)] at hw
    obtain ⟨_, rfl⟩ := Prod.mk.inj (Option.some.inj hw)
    exact ⟨fun _ hin' => absurd hin' hin, fun _ => h⟩

theorem sizeStep_accounted {m t : Mount} {op : SizeOp} (hc : m.consumed < 2^64) (h : Accounted m)
    (ht : sizeStep m op = some t) : Accounted t ↔ KeepsAccount m op := by
  cases op with
  | create path =>
    obtain rfl := Option.some.inj ht
    exact ⟨fun _ => True.intro, fun _ => (createFile_accounted path m).mpr h⟩
  | unlink path =>
    obtain rfl := Option.some.inj ht
    exact ⟨fun _ => True.intro, fun _ => unlinkFile_accounted path hc h⟩
  | truncate path size =>
    obtain rfl := Option.some.inj ht
    exact raidTruncate_accounted path size.toNat_lt hc h
  | write env path buffer size offset =>
    obtain ⟨⟨n, u⟩, hw, rfl⟩ := Option.map_eq_some_iff.mp ht
    exact raidWrite_accounted hc h hw

theorem sizeStep_none {m : Mount} {op : SizeOp} (h : sizeStep m op = none) : KeepsAccount m op := by
  cases op with
  | create path => cases h
  | unlink path => cases h
  | truncate path size => cases h
  | write env path buffer size offset =>
    intro hin _ hsome _
    rw [sizeStep, Option.map_eq_none_iff, raidWrite_length hin, Option.map_eq_none_iff] at h
    exact absurd h hsome

/-- The counters follow the files through a run exactly when the table is empty of bytes at the mount, and every
write of the run appends to its file. -/
theorem fuseMountVolume_accounted (s : System) (table : FileTable) (ops : List SizeOp) :
    (∀ pre post m, ops = pre ++ post → run sizeStep (fuseMountVolume s table) pre = some m → Accounted m) ↔
      filesBytes table = 0 ∧ Along sizeStep KeepsAccount (fuseMountVolume s table) ops := by
  have hstart : Accounted (fuseMountVolume s table) ↔ filesBytes table = 0 := by
    rw [accounted_iff]
    unfold fuseMountVolume
    simp only [Nat.zero_add]
    exact eq_comm
  have hiff : Accounted (fuseMountVolume s table) →
      ((∀ pre post m, ops = pre ++ post → run sizeStep (fuseMountVolume s table) pre = some m → Accounted m) ↔
        Along sizeStep KeepsAccount (fuseMountVolume s table) ops) := by
    intro h
    refine along_iff_always (J := fun m => m.consumed < 2^64) (Q := fun _ => True)
      (fun _ _ _ hc _ ht => sizeStep_consumed hc ht) (fun _ _ _ hc hi _ ht => sizeStep_accounted hc hi ht)
      (fun _ _ hnone => sizeStep_none hnone) ?_ h fun _ _ => True.intro
    exact Nat.two_pow_pos 64
  constructor
  · intro h
    have h0 := h [] ops _ rfl rfl
    exact ⟨hstart.mp h0, (hiff h0).mp h⟩
  · rintro ⟨hzero, halong⟩
    exact (hiff (hstart.mpr hzero)).mpr halong

/-- Nothing fails: a file of one sector is written twice, and both times are counted. -/
theorem fuseMountVolume_accounted_fails :
    ∃ m, run sizeStep (fuseMountVolume pairSystem []) [.create ['/', 'f'],
        .write (fun _ => ⟨fun _ => .good, .good⟩) ['/', 'f'] (fun _ => 1) 512 0,
        .write (fun _ => ⟨fun _ => .good, .good⟩) ['/', 'f'] (fun _ => 1) 512 0] = some m ∧
      m.table = [⟨['f'], false, 512⟩] ∧ m.consumed = 1024 ∧ m.freed = 0 ∧ (raidStatfs m).blocks = 512 ∧
      (raidStatfs m).bfree = 510 ∧ ¬ Accounted m := by
  have hrun : (run sizeStep (fuseMountVolume pairSystem []) [.create ['/', 'f'],
      .write (fun _ => ⟨fun _ => .good, .good⟩) ['/', 'f'] (fun _ => 1) 512 0,
      .write (fun _ => ⟨fun _ => .good, .good⟩) ['/', 'f'] (fun _ => 1) 512 0]).map
      (fun m => (m.table, m.consumed, m.freed, (raidStatfs m).blocks, (raidStatfs m).bfree)) =
      some ([⟨['f'], false, 512⟩], 1024, 0, 512, 510) := by
    decide +kernel
  obtain ⟨m, hm, he⟩ := Option.map_eq_some_iff.mp hrun
  simp only [Prod.mk.injEq] at he
  obtain ⟨htable, hconsumed, hfreed, hblocks, hfree⟩ := he
  refine ⟨m, hm, htable, hconsumed, hfreed, hblocks, hfree, ?_⟩
  intro h
  have hbal := h.balance
  rw [htable, hconsumed, hfreed] at hbal
  exact absurd hbal (by decide)

end RaidTest.Fuse
