import RaidTest.Base.Cut
import RaidTest.Metadata.Record

/-!
# The superblock of one drive (`superblock_write`, `try_read_superblock_from_drive`)

A superblock is written to a temporary file, which then takes the place of the old one. A
crash can leave the temporary file behind; the next read moves it into place if it is whole and
newer, and else deletes it.
-/

namespace RaidTest.Metadata
open RaidTest.Base RaidTest.Journal

/-- `superblock.dat` and `superblock.dat.tmp`. -/
structure Drive where
  dat : Option (List Byte)
  tmp : Option (List Byte)

/-! ### Writing -/

/-- The steps of a write that change the files. -/
inductive FileOp where
  | deleteTmp
  | createTmp
  | append (b : Byte)
  | moveTmp

def FileOp.apply : FileOp → Drive → Drive
  | .deleteTmp, s => { s with tmp := none }
  | .createTmp, s => { s with tmp := some [] }
  | .append b, s => { s with tmp := s.tmp.map fun c => c ++ [b] }
  | .moveTmp, s =>
    match s.tmp with
    | none => s
    | some c => ⟨some c, none⟩

/-- The answers to the write for one member: whether the first `DeleteFileW` succeeds, whether
the temporary file can be created, how many bytes get into it and whether `WriteFile` succeeds,
and so on to the `DeleteFileW` after a failure. -/
structure WriteEnv where
  deletes : Bool
  creates : Bool
  written : ℕ
  writes : Bool
  flushes : Bool
  moves : Bool
  cleans : Bool

/-- The body of the loop of `superblock_write`: whether it succeeds, and what it does to the files. -/
def writeMember (env : WriteEnv) (image : List Byte) : Bool × List FileOp :=
  let start := if env.deletes then [FileOp.deleteTmp] else []
  if env.creates = false then (false, start)
  else
    let bytes := (image.take env.written).map FileOp.append
    let clean := if env.cleans then [FileOp.deleteTmp] else []
    if env.writes ∧ image.length ≤ env.written ∧ env.flushes then
      if env.moves then (true, start ++ FileOp.createTmp :: (bytes ++ [.moveTmp]))
      else (false, start ++ FileOp.createTmp :: (bytes ++ clean))
    else (false, start ++ FileOp.createTmp :: (bytes ++ clean))

/-- What `superblock_write` does to the files of the drive `l`, for `n` members on the drives `letter`. -/
def driveOps (env : ℕ → WriteEnv) (letter : ℕ → Letter) (n : ℕ) (image : List Byte) (l : Letter) : List FileOp :=
  (List.range n).flatMap fun i => if letter i = l then (writeMember (env i) image).2 else []

/-- `any_success`, which `superblock_write` returns. -/
def anySuccess (env : ℕ → WriteEnv) (n : ℕ) (image : List Byte) : Bool :=
  (List.range n).any fun i => (writeMember (env i) image).1

/-! ### Reading -/

/-- The answers to one read: those to `try_recover_orphan_tmp`, about the temporary file, the
old file, its deletion and its move, and those to the read itself. -/
structure ReadEnv where
  tmpOpens : Bool
  tmpReads : Bool
  datOpens : Bool
  datReads : Bool
  deletes : Bool
  moves : Bool
  opens : Bool
  reads : Bool

def ReadEnv.good : ReadEnv := ⟨true, true, true, true, true, true, true, true⟩

/-- `dat_gen`. -/
def datGeneration (env : ReadEnv) (dat : Option (List Byte)) : ℕ :=
  match dat with
  | none => 0
  | some c =>
    if env.datOpens = false ∨ env.datReads = false then 0
    else
      match checked bodyV4 (c.take superblockSize) with
      | none => 0
      | some sb => if sb.magic = superblockMagic then sb.generation else 0

/-- `try_recover_orphan_tmp`. -/
def tryRecoverOrphanTmp (env : ReadEnv) (s : Drive) : Drive :=
  match s.tmp with
  | none => s
  | some c =>
    if env.tmpOpens = false then s
    else
      let deleted := if env.deletes then { s with tmp := none } else s
      if env.tmpReads = false then deleted
      else
        match checked bodyV4 (c.take superblockSize) with
        | none => deleted
        | some sb =>
          if sb.magic ≠ superblockMagic ∨ sb.version < 4 then deleted
          else if sb.generation > datGeneration env s.dat then
            if env.moves then ⟨some c, none⟩ else s
          else deleted

/-- `sizeof(raw)`. -/
def rawSize : ℕ := 2048

/-- `try_read_superblock_from_drive`. -/
def tryReadSuperblock (env : ReadEnv) (s : Drive) : Option SuperblockV4 × Drive :=
  let s := tryRecoverOrphanTmp env s
  match s.dat with
  | none => (none, s)
  | some c => (if env.opens ∧ env.reads then parse (c.take rawSize) else none, s)

/-! ### A write that is cut -/

/-- The old file or the new one is in place, and the temporary file begins like the new one. -/
structure MidWrite (old : Option (List Byte)) (image : List Byte) (s : Drive) : Prop where
  dat : s.dat = old ∨ s.dat = some image
  tmp : ∀ c, s.tmp = some c → c <+: image

theorem perform_append_bytes (bytes : List Byte) : ∀ (dat : Option (List Byte)) (c : List Byte),
    perform FileOp.apply (bytes.map FileOp.append) ⟨dat, some c⟩ = ⟨dat, some (c ++ bytes)⟩ := by
  induction bytes with
  | nil => intro dat c; rw [List.append_nil]; rfl
  | cons b bytes ih =>
    intro dat c
    rw [List.map_cons, perform_cons]
    have hb : FileOp.apply (.append b) ⟨dat, some c⟩ = ⟨dat, some (c ++ [b])⟩ := rfl
    rw [hb, ih, List.append_assoc]
    rfl

section Cut
variable {old : Option (List Byte)} {image : List Byte}

theorem MidWrite.deleteTmp {s : Drive} (h : MidWrite old image s) : MidWrite old image (FileOp.apply .deleteTmp s) :=
  ⟨h.dat, nofun⟩

/-- The temporary file is filled, and then moved if it is whole. -/
theorem fill_keeps (n : ℕ) {last : List FileOp} (hlast : last = [] ∨ last = [.deleteTmp] ∨
    last = [.moveTmp] ∧ image.length ≤ n) :
    CutKeeps FileOp.apply (MidWrite old image)
      (FileOp.createTmp :: ((image.take n).map FileOp.append ++ last)) := by
  intro k s hs
  cases k with
  | zero => exact hs
  | succ k =>
    have hfilled : ∀ m, perform FileOp.apply (((image.take n).map FileOp.append).take m)
        (FileOp.apply .createTmp s) = ⟨s.dat, some ((image.take n).take m)⟩ := by
      intro m
      rw [← List.map_take]
      exact perform_append_bytes _ s.dat []
    have hpre : ∀ m, (image.take n).take m <+: image := fun m =>
      (List.take_prefix _ _).trans (List.take_prefix _ _)
    have htmp : ∀ m, MidWrite old image ⟨s.dat, some ((image.take n).take m)⟩ := fun m =>
      ⟨hs.dat, fun c hc => Option.some.inj hc ▸ hpre m⟩
    rw [List.take_succ_cons, perform_cons, List.take_append, perform_append, hfilled]
    rcases hlast with rfl | rfl | ⟨rfl, hn⟩
    · rw [List.take_nil]
      exact htmp k
    · exact cutKeeps_one (fun _ h => h.deleteTmp) _ _ (htmp k)
    · by_cases hk : k ≤ ((image.take n).map FileOp.append).length
      · rw [Nat.sub_eq_zero_of_le hk]
        exact htmp k
      · have hall : (image.take n).take k = image := by
          rw [List.length_map] at hk
          rw [List.take_of_length_le (by omega), List.take_of_length_le hn]
        obtain ⟨j, hj⟩ := Nat.exists_eq_succ_of_ne_zero (Nat.sub_ne_zero_of_lt (Nat.lt_of_not_le hk))
        rw [hj, hall, List.take_succ_cons, List.take_nil]
        exact ⟨Or.inr rfl, nofun⟩

theorem writeMember_keeps (env : WriteEnv) : CutKeeps FileOp.apply (MidWrite old image) (writeMember env image).2 := by
  have hdelete : ∀ b : Bool, CutKeeps FileOp.apply (MidWrite old image) (if b then [FileOp.deleteTmp] else []) := by
    intro b
    cases b with
    | true => exact cutKeeps_one fun _ h => h.deleteTmp
    | false => exact cutKeeps_nil
  have hclean : (if env.cleans then [FileOp.deleteTmp] else []) = [] ∨
      (if env.cleans then [FileOp.deleteTmp] else []) = [FileOp.deleteTmp] := by
    cases env.cleans with
    | true => exact Or.inr rfl
    | false => exact Or.inl rfl
  unfold writeMember
  simp only
  split
  · exact hdelete env.deletes
  split
  · next hg =>
    split
    · exact (hdelete env.deletes).append (fill_keeps env.written (Or.inr (Or.inr ⟨rfl, hg.2.1⟩)))
    · exact (hdelete env.deletes).append (fill_keeps env.written (hclean.imp_right Or.inl))
  · exact (hdelete env.deletes).append (fill_keeps env.written (hclean.imp_right Or.inl))

theorem driveOps_keeps (env : ℕ → WriteEnv) (letter : ℕ → Letter) (n : ℕ) (l : Letter) :
    CutKeeps FileOp.apply (MidWrite old image) (driveOps env letter n image l) := by
  apply cutKeeps_flatMap
  intro i _
  split
  · exact writeMember_keeps (env i)
  · exact cutKeeps_nil

/-! ### Reading after it -/

theorem prefix_checked {sb : SuperblockV4} {c : List Byte} (hc : c <+: sb.image) {x : SuperblockV4}
    (h : checked bodyV4 (c.take superblockSize) = some x) : c = sb.image := by
  have hlen : ¬ (c.take superblockSize).length < bodyV4.size + 4 := by
    intro hn
    unfold checked at h
    rw [if_pos hn] at h
    cases h
  have hsize : bodyV4.size + 4 = superblockSize := rfl
  rw [List.length_take, hsize] at hlen
  apply hc.eq_of_length_le
  rw [image_length]
  omega

/-- The recovery of the temporary file leaves the old file or puts the new one in its place. -/
theorem recover_dat {sb : SuperblockV4} {s : Drive} (h : MidWrite old sb.image s) (env : ReadEnv) :
    (tryRecoverOrphanTmp env s).dat = old ∨ (tryRecoverOrphanTmp env s).dat = some sb.image := by
  have hdeleted : ∀ b : Bool, (if b then { s with tmp := none } else s).dat = s.dat := by
    intro b
    cases b with
    | true => rfl
    | false => rfl
  unfold tryRecoverOrphanTmp
  split
  · exact h.dat
  next c hc =>
  split
  · exact h.dat
  simp only
  split
  · rw [hdeleted]
    exact h.dat
  split
  · rw [hdeleted]
    exact h.dat
  next x hx =>
  split
  · rw [hdeleted]
    exact h.dat
  split
  · split
    · exact Or.inr (congrArg some (prefix_checked (h.tmp c hc) hx))
    · exact h.dat
  · rw [hdeleted]
    exact h.dat

theorem tryRead_eq (env : ReadEnv) (s : Drive) : (tryReadSuperblock env s).1 =
    (tryRecoverOrphanTmp env s).dat.bind fun c => if env.opens ∧ env.reads then parse (c.take rawSize) else none := by
  unfold tryReadSuperblock
  generalize tryRecoverOrphanTmp env s = t
  obtain ⟨dat, tmp⟩ := t
  cases dat with
  | none => rfl
  | some c => rfl

theorem read_midWrite {sb : SuperblockV4} (hmagic : sb.magic = superblockMagic) (hversion : sb.version = superblockVersion)
    {s : Drive} (h : MidWrite old sb.image s) (env : ReadEnv) :
    (tryReadSuperblock env s).1 = (tryReadSuperblock env ⟨old, none⟩).1 ∨
      (tryReadSuperblock env s).1 = some sb.stored := by
  have hbefore : tryRecoverOrphanTmp env ⟨old, none⟩ = ⟨old, none⟩ := rfl
  have himage : (sb.image).take rawSize = sb.image := by
    apply List.take_of_length_le
    rw [image_length]
    decide
  rw [tryRead_eq, tryRead_eq, hbefore]
  rcases recover_dat h env with hdat | hdat
  · rw [hdat]
    exact Or.inl rfl
  · rw [hdat, Option.bind_some, himage, parse_image hmagic hversion]
    split
    · exact Or.inr rfl
    · left
      cases old with
      | none => rfl
      | some c => rfl

end Cut

/-- The drive after `k` of the steps that `superblock_write` makes on its files. -/
def cutWrite (env : ℕ → WriteEnv) (label : DiskId → DiskLabel) (r : VolumeRecord) (sb : SuperblockV4) (l : Letter) (k : ℕ)
    (s : Drive) : Drive :=
  perform FileOp.apply
    ((driveOps env (fun i => (label (r.v.diskAt i)).driveLetter) r.v.diskCount sb.image l).take k) s

/-- On a drive without a temporary file, wherever `superblock_write` is cut, a later read finds
what it would have found before or the new superblock. -/
theorem superblockWrite_atomic (env : ℕ → WriteEnv) (time : ℕ) (label : DiskId → DiskLabel) (info : DiskId → DiskInfo)
    (r : VolumeRecord) (l : Letter) (k : ℕ) (old : Option (List Byte)) (renv : ReadEnv) :
    let sb := makeSuperblock time label info r
    (tryReadSuperblock renv (cutWrite env label r sb l k ⟨old, none⟩)).1 = (tryReadSuperblock renv ⟨old, none⟩).1 ∨
      (tryReadSuperblock renv (cutWrite env label r sb l k ⟨old, none⟩)).1 = some sb.stored := by
  intro sb
  exact read_midWrite rfl rfl (driveOps_keeps env _ r.v.diskCount l k ⟨old, none⟩ ⟨Or.inl rfl, nofun⟩) renv

end RaidTest.Metadata
