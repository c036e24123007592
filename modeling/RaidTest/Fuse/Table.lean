import RaidTest.Base.Paths
import RaidTest.Base.Trace
import Mathlib.Data.List.Nodup

/-!
# The file table (`fuse_bridge.c`)

The table keeps files and directories under their full paths. Creating asks for the parent
directory; `rmdir` for an empty one. `unlink` takes whatever has the name, and `rename` moves
a directory wherever there is a parent.
-/

namespace RaidTest.Fuse
open RaidTest.Base

/-! ### The operations -/

/-- `FILE_ENTRY`. A path is its bytes, which in ASCII are also its wide characters. -/
structure FileEntry where
  fullPath : List Char
  isDir : Bool
  size : ℕ
  deriving DecidableEq, Repr

abbrev FileTable := List FileEntry

inductive FuseError where
  | enoent
  | eexist
  | enametoolong
  | enospc
  | ebusy
  | enotdir
  | enotempty
  deriving DecidableEq, Repr

def maxOpenFiles : ℕ := 64

/-- `strip_path`. -/
def stripPath : List Char → List Char
  | '/' :: p => p
  | p => p

/-- `find_open_file_locked`. -/
def findOpenFile (t : FileTable) (name : List Char) : Option ℕ := t.findIdx? fun e => e.fullPath = name

/-- `add_open_file_locked`. -/
def addOpenFile (t : FileTable) (name : List Char) (isDir : Bool) : Option FileTable :=
  if maxOpenFiles ≤ t.length then none else some (t ++ [⟨name, isDir, 0⟩])

/-- `g_open_files[idx] = g_open_files[--g_open_count]`. -/
def removeOpenFile (t : FileTable) (idx : ℕ) : FileTable :=
  match t.getLast? with
  | none => t
  | some e => (t.set idx e).dropLast

/-- `is_dir_by_path`. -/
def isDirByPath (t : FileTable) (name : List Char) : Bool :=
  ((findOpenFile t name).bind fun idx => t[idx]?).any FileEntry.isDir

/-- `parent_dir_exists`. -/
def parentDirExists (t : FileTable) (path : List Char) : Bool :=
  match beforeLast '/' path with
  | none => true
  | some parent =>
    if parent.length = 0 then true
    else if 256 ≤ parent.length then false
    else isDirByPath t parent

/-- `raid_open`; `creat` is `O_CREAT`. -/
def raidOpen (path : List Char) (creat : Bool) (t : FileTable) : Option FuseError × FileTable :=
  let p := stripPath path
  if p = [] then (some .enoent, t)
  else if p.length > 255 then (some .enametoolong, t)
  else if creat then
    if parentDirExists t p = false then (some .enoent, t)
    else
      match findOpenFile t p with
      | some _ => (none, t)
      | none =>
        match addOpenFile t p false with
        | none => (some .enospc, t)
        | some t => (none, t)
  else
    match findOpenFile t p with
    | none => (some .enoent, t)
    | some _ => (none, t)

/-- What `raid_create` and `raid_mkdir` do for a path that is not empty. -/
def addNew (p : List Char) (isDir : Bool) (t : FileTable) : Option FuseError × FileTable :=
  if p.length > 255 then (some .enametoolong, t)
  else if parentDirExists t p = false then (some .enoent, t)
  else
    match findOpenFile t p with
    | some _ => (some .eexist, t)
    | none =>
      match addOpenFile t p isDir with
      | none => (some .enospc, t)
      | some t => (none, t)

/-- `raid_create`. -/
def raidCreate (path : List Char) (t : FileTable) : Option FuseError × FileTable :=
  if stripPath path = [] then (some .enoent, t) else addNew (stripPath path) false t

/-- `raid_mkdir`. -/
def raidMkdir (path : List Char) (t : FileTable) : Option FuseError × FileTable :=
  if stripPath path = [] then (some .eexist, t) else addNew (stripPath path) true t

/-- `is_dir_empty_locked`. -/
def isDirEmpty (t : FileTable) (dir : List Char) : Bool :=
  t.all fun e => !(dir.isPrefixOf e.fullPath && e.fullPath[dir.length]? == some '/')

/-- `raid_rmdir`. -/
def raidRmdir (path : List Char) (t : FileTable) : Option FuseError × FileTable :=
  let p := stripPath path
  if p = [] then (some .ebusy, t)
  else
    match findOpenFile t p with
    | none => (some .enoent, t)
    | some idx =>
      if (t[idx]?).any FileEntry.isDir = false then (some .enotdir, t)
      else if isDirEmpty t p = false then (some .enotempty, t)
      else (none, removeOpenFile t idx)

/-- The body of the loop of `raid_rename`; a path that gets too long stays. -/
def renameBelow (src dst : List Char) (e : FileEntry) : FileEntry :=
  if (src ++ ['/']).isPrefixOf e.fullPath then
    let suffix := e.fullPath.drop (src.length + 1)
    if dst.length + 1 + suffix.length ≥ 256 then e else { e with fullPath := dst ++ '/' :: suffix }
  else e

/-- `raid_rename`. -/
def raidRename (source target : List Char) (t : FileTable) : Option FuseError × FileTable :=
  let src := stripPath source
  let dst := stripPath target
  if src = [] ∨ dst = [] then (some .enoent, t)
  else if src.length > 254 ∨ dst.length > 254 then (some .enametoolong, t)
  else if parentDirExists t dst = false then (some .enoent, t)
  else
    match findOpenFile t src with
    | none => (some .enoent, t)
    | some idx =>
      if (findOpenFile t dst).isSome then (some .eexist, t)
      else
        let srcIsDir := (t[idx]?).any FileEntry.isDir
        if srcIsDir ∧ src.length ≥ 255 then
          (some .enametoolong, t.mapIdx fun i e => if i = idx then { e with fullPath := dst } else e)
        else
          (none, t.mapIdx fun i e =>
            if i = idx then { e with fullPath := dst } else if srcIsDir then renameBelow src dst e else e)

/-- `raid_unlink`, with the bytes it frees. -/
def raidUnlink (path : List Char) (t : FileTable) : Option FuseError × FileTable × ℕ :=
  let p := stripPath path
  if p = [] then (some .enoent, t, 0)
  else
    match findOpenFile t p with
    | none => (none, t, 0)
    | some idx => (none, removeOpenFile t idx, ((t[idx]?).map FileEntry.size).getD 0)

inductive FileOp where
  | create (path : List Char)
  | openPath (path : List Char) (creat : Bool)
  | mkdir (path : List Char)
  | rmdir (path : List Char)
  | unlink (path : List Char)
  | rename (source target : List Char)

def fileStep (t : FileTable) : FileOp → Option FileTable
  | .create path => some (raidCreate path t).2
  | .openPath path creat => some (raidOpen path creat t).2
  | .mkdir path => some (raidMkdir path t).2
  | .rmdir path => some (raidRmdir path t).2
  | .unlink path => some (raidUnlink path t).2.1
  | .rename source target => some (raidRename source target t).2

/-! ### The table as a tree -/

def Has (t : FileTable) (p : List Char) : Prop := ∃ e ∈ t, e.fullPath = p
def HasDir (t : FileTable) (p : List Char) : Prop := ∃ e ∈ t, e.fullPath = p ∧ e.isDir = true

/-- Every path is there once, and its parent is a directory of the table. -/
structure TableOk (t : FileTable) : Prop where
  distinct : (t.map FileEntry.fullPath).Nodup
  parents : ∀ e ∈ t, ∀ p, beforeLast '/' e.fullPath = some p → ∃ d ∈ t, d.fullPath = p ∧ d.isDir = true

theorem TableOk.tree {t : FileTable} (h : TableOk t) : PathTree '/' (Has t) (HasDir t) where
  dirs := by
    rintro p ⟨e, he, hp, _⟩
    exact ⟨e, he, hp⟩
  parents := by
    rintro q p ⟨e, he, rfl⟩ hp
    exact h.parents e he p hp

theorem findOpenFile_none {t : FileTable} {name : List Char} : findOpenFile t name = none ↔ ¬ Has t name := by
  unfold findOpenFile Has
  rw [List.findIdx?_eq_none_iff]
  constructor
  · rintro h ⟨e, he, hn⟩
    exact of_decide_eq_false (h e he) hn
  · intro h e he
    exact decide_eq_false fun hn => h ⟨e, he, hn⟩

theorem findOpenFile_some {t : FileTable} {name : List Char} {idx : ℕ} (h : findOpenFile t name = some idx) :
    ∃ e, t[idx]? = some e ∧ e.fullPath = name := by
  obtain ⟨hidx, he, _⟩ := List.findIdx?_eq_some_iff_getElem.mp h
  exact ⟨t[idx], List.getElem?_eq_getElem hidx, of_decide_eq_true he⟩

theorem isDirByPath_dir {t : FileTable} {name : List Char} (h : isDirByPath t name = true) : HasDir t name := by
  unfold isDirByPath at h
  cases hf : findOpenFile t name with
  | none => rw [hf] at h; cases h
  | some idx =>
    obtain ⟨e, he, hn⟩ := findOpenFile_some hf
    rw [hf, Option.bind_some, he, Option.any_some] at h
    exact ⟨e, List.mem_of_getElem? he, hn, h⟩

theorem parentDirExists_dir {t : FileTable} {path p : List Char} (h : parentDirExists t path = true)
    (hp : beforeLast '/' path = some p) (hne : p ≠ []) : HasDir t p := by
  unfold parentDirExists at h
  rw [hp] at h
  simp only at h
  rw [if_neg fun hl => hne (List.eq_nil_of_length_eq_zero hl)] at h
  split at h
  · cases h
  · exact isDirByPath_dir h

theorem isDirEmpty_iff {t : FileTable} {dir : List Char} :
    isDirEmpty t dir = true ↔ ∀ e ∈ t, ¬ Under '/' dir e.fullPath := by
  unfold isDirEmpty
  rw [List.all_eq_true]
  apply forall₂_congr
  intro e _
  rw [Bool.not_eq_true', Bool.eq_false_iff, ne_eq, not_iff_not, Bool.and_eq_true, List.isPrefixOf_iff_prefix, beq_iff_eq]
  constructor
  · rintro ⟨⟨s, hs⟩, hc⟩
    rw [← hs, List.getElem?_append_right (Nat.le_refl _), Nat.sub_self] at hc
    cases s with
    | nil => cases hc
    | cons c s =>
      obtain rfl := Option.some.inj hc
      exact ⟨s, hs.symm⟩
  · rintro ⟨s, hs⟩
    rw [hs]
    refine ⟨⟨_, rfl⟩, ?_⟩
    rw [List.getElem?_append_right (Nat.le_refl _), Nat.sub_self]
    rfl

/-! ### Adding and removing -/

/-- No path is empty. -/
def Named (t : FileTable) : Prop := ∀ e ∈ t, e.fullPath ≠ []

theorem Named.no_root {t : FileTable} (h : Named t) : ¬ Has t [] := fun ⟨e, he, hp⟩ => h e he hp

theorem tableOk_add {t : FileTable} (h : TableOk t) (hn : Named t) {p : List Char} (hne : p ≠ [])
    (hfree : ¬ Has t p) (hparent : parentDirExists t p = true) (isDir : Bool) :
    TableOk (t ++ [⟨p, isDir, 0⟩]) ↔ beforeLast '/' p ≠ some [] := by
  constructor
  · intro hok hroot
    obtain ⟨d, hd, hpath, _⟩ := hok.parents ⟨p, isDir, 0⟩ (List.mem_append_right _ (List.mem_singleton.mpr rfl)) [] hroot
    rcases List.mem_append.mp hd with hd | hd
    · exact hn d hd hpath
    · rw [List.mem_singleton.mp hd] at hpath
      exact hne hpath
  · intro hroot
    constructor
    · rw [List.map_append, List.nodup_append]
      refine ⟨h.distinct, List.nodup_singleton _, ?_⟩
      intro q hq r hr he
      obtain ⟨e, hmem, hpath⟩ := List.mem_map.mp hq
      rw [List.map_singleton, List.mem_singleton] at hr
      exact hfree ⟨e, hmem, hpath.trans (he.trans hr)⟩
    · intro e he q hq
      have hdir : HasDir t q := by
        rcases List.mem_append.mp he with he | he
        · exact h.parents e he q hq
        · rw [List.mem_singleton.mp he] at hq
          exact parentDirExists_dir hparent hq fun hnil => hroot (hnil ▸ hq)
      obtain ⟨d, hd, hpath⟩ := hdir
      exact ⟨d, List.mem_append_left _ hd, hpath⟩

theorem removeOpenFile_perm {t : FileTable} {idx : ℕ} (h : idx < t.length) :
    (removeOpenFile t idx).Perm (t.eraseIdx idx) := by
  obtain ⟨a, last, rfl⟩ := List.eq_nil_or_concat t |>.resolve_left (by rintro rfl; exact absurd h (Nat.not_lt_zero _))
  rw [List.concat_eq_append] at *
  unfold removeOpenFile
  rw [List.getLast?_append, List.getLast?_singleton, Option.some_or]
  simp only
  rw [List.length_append, List.length_singleton] at h
  by_cases hlast : idx = a.length
  · subst hlast
    rw [List.set_append_right _ _ (Nat.le_refl _), List.eraseIdx_append_of_length_le (Nat.le_refl _), Nat.sub_self]
    simp only [List.set_cons_zero, List.dropLast_concat, List.eraseIdx_cons_zero, List.append_nil]
    exact List.Perm.refl _
  · have hlt : idx < a.length := by omega
    rw [List.set_append_left _ _ hlt, List.dropLast_concat, List.eraseIdx_append_of_lt_length hlt]
    rw [List.eraseIdx_eq_take_drop_succ, List.set_eq_take_append_cons_drop, if_pos hlt]
    rw [List.append_assoc]
    exact (@List.perm_append_comm _ [last] _).append_left _

theorem TableOk.index {t : FileTable} (h : TableOk t) {i j : ℕ} {x y : FileEntry} (hx : t[i]? = some x)
    (hy : t[j]? = some y) (he : x.fullPath = y.fullPath) : i = j := by
  obtain ⟨hi, rfl⟩ := List.getElem?_eq_some_iff.mp hx
  obtain ⟨hj, rfl⟩ := List.getElem?_eq_some_iff.mp hy
  have hi' : i < (t.map FileEntry.fullPath).length := by rw [List.length_map]; exact hi
  have hj' : j < (t.map FileEntry.fullPath).length := by rw [List.length_map]; exact hj
  apply (@List.Nodup.getElem_inj_iff _ _ h.distinct i hi' j hj').mp
  rw [List.getElem_map, List.getElem_map]
  exact he

/-- The other entries stay. -/
theorem removeOpenFile_mem {t : FileTable} (h : TableOk t) {idx : ℕ} {e : FileEntry} (he : t[idx]? = some e)
    (x : FileEntry) : x ∈ removeOpenFile t idx ↔ x ∈ t ∧ x.fullPath ≠ e.fullPath := by
  have hidx := (List.getElem?_eq_some_iff.mp he).1
  rw [(removeOpenFile_perm hidx).mem_iff, List.mem_eraseIdx_iff_getElem?]
  constructor
  · rintro ⟨i, hne, hx⟩
    exact ⟨List.mem_of_getElem? hx, fun hp => hne (h.index hx he hp)⟩
  · rintro ⟨hx, hp⟩
    obtain ⟨i, hi⟩ := List.mem_iff_getElem?.mp hx
    refine ⟨i, ?_, hi⟩
    rintro rfl
    rw [he] at hi
    obtain rfl := Option.some.inj hi
    exact hp rfl

theorem tableOk_remove {t : FileTable} (h : TableOk t) {idx : ℕ} {e : FileEntry} (he : t[idx]? = some e) :
    TableOk (removeOpenFile t idx) ↔ isDirEmpty t e.fullPath = true := by
  have hidx := (List.getElem?_eq_some_iff.mp he).1
  rw [isDirEmpty_iff]
  constructor
  · intro hok x hx hu
    have hne : x.fullPath ≠ e.fullPath := by
      intro hp
      have hlt := hu.length
      rw [hp] at hlt
      exact Nat.lt_irrefl _ hlt
    obtain ⟨d, hd, hpath, _⟩ := hok.tree.under ⟨x, (removeOpenFile_mem h he x).mpr ⟨hx, hne⟩, rfl⟩ hu
    exact ((removeOpenFile_mem h he d).mp hd).2 hpath
  · intro hempty
    constructor
    · rw [((removeOpenFile_perm hidx).map FileEntry.fullPath).nodup_iff]
      exact (((List.eraseIdx_sublist t idx).map FileEntry.fullPath).nodup h.distinct)
    · intro x hx q hq
      obtain ⟨hmem, _⟩ := (removeOpenFile_mem h he x).mp hx
      obtain ⟨d, hd, hpath, hdir⟩ := h.parents x hmem q hq
      refine ⟨d, (removeOpenFile_mem h he d).mpr ⟨hd, fun hp => ?_⟩, hpath, hdir⟩
      apply hempty x hmem
      rw [← hp, hpath]
      exact beforeLast_under hq

/-! ### Renaming -/

/-- The entry after the renaming of `src`, when its path is short enough. -/
def FileEntry.renamed (src dst : List Char) (e : FileEntry) : FileEntry :=
  { e with fullPath := moved '/' src dst e.fullPath }

/-- The path of every entry below `src` stays in its buffer. -/
def FitsBelow (t : FileTable) (src dst : List Char) : Prop :=
  ∀ e ∈ t, Under '/' src e.fullPath → dst.length + e.fullPath.length < 256 + src.length

theorem renameBelow_fits {src dst : List Char} {e : FileEntry} (hne : e.fullPath ≠ src)
    (hfit : Under '/' src e.fullPath → dst.length + e.fullPath.length < 256 + src.length) :
    renameBelow src dst e = e.renamed src dst := by
  unfold renameBelow FileEntry.renamed
  by_cases hu : Under '/' src e.fullPath
  · have hlen := hfit hu
    have hlong := hu.length
    obtain ⟨s, hs⟩ := hu
    rw [if_pos (by rw [List.isPrefixOf_iff_prefix, ← under_iff_prefix]; exact ⟨s, hs⟩)]
    simp only
    rw [if_neg (by rw [List.length_drop]; omega), hs, moved_under]
    congr 1
    rw [show src ++ '/' :: s = src ++ ['/'] ++ s by simp, show src.length + 1 = (src ++ ['/']).length by simp, List.drop_left]
  · rw [if_neg (by rw [List.isPrefixOf_iff_prefix, ← under_iff_prefix]; exact hu), moved_other hne hu]

theorem TableOk.dir_of_below {t : FileTable} (h : TableOk t) {idx : ℕ} {d x : FileEntry} (hd : t[idx]? = some d)
    (hx : x ∈ t) (hu : Under '/' d.fullPath x.fullPath) : d.isDir = true := by
  obtain ⟨e, he, hpath, hdir⟩ := h.tree.under ⟨x, hx, rfl⟩ hu
  obtain ⟨i, hi⟩ := List.mem_iff_getElem?.mp he
  obtain rfl := h.index hi hd hpath
  rw [hi] at hd
  obtain rfl := Option.some.inj hd
  exact hdir

/-- When every path fits, `rename` moves what is at and below `src`. -/
theorem rename_eq {t : FileTable} (h : TableOk t) {idx : ℕ} {d : FileEntry} {src dst : List Char}
    (hd : t[idx]? = some d) (hsrc : d.fullPath = src) (hfit : FitsBelow t src dst) :
    (t.mapIdx fun i e => if i = idx then { e with fullPath := dst } else if d.isDir then renameBelow src dst e else e) =
      t.map (FileEntry.renamed src dst) := by
  apply List.ext_getElem?
  intro i
  rw [List.getElem?_mapIdx, List.getElem?_map]
  cases he : t[i]? with
  | none => rfl
  | some e =>
    rw [Option.map_some, Option.map_some]
    have hmem := List.mem_of_getElem? he
    by_cases hi : i = idx
    · subst hi
      rw [hd] at he
      obtain rfl := Option.some.inj he
      rw [if_pos rfl, FileEntry.renamed, hsrc, moved_src]
    · have hne : e.fullPath ≠ src := fun hp => hi (h.index he hd (hp.trans hsrc.symm))
      rw [if_neg hi]
      by_cases hdir : d.isDir = true
      · rw [if_pos hdir, renameBelow_fits hne (hfit e hmem)]
      · have hnot : ¬ Under '/' src e.fullPath := fun hu => hdir (h.dir_of_below hd hmem (hsrc ▸ hu))
        rw [if_neg hdir, FileEntry.renamed, moved_other hne hnot]

theorem has_renamed {t : FileTable} {src dst p : List Char} :
    Has (t.map (FileEntry.renamed src dst)) p ↔ ∃ x, Has t x ∧ moved '/' src dst x = p := by
  constructor
  · rintro ⟨e, he, rfl⟩
    obtain ⟨x, hx, rfl⟩ := List.mem_map.mp he
    exact ⟨x.fullPath, ⟨x, hx, rfl⟩, rfl⟩
  · rintro ⟨_, ⟨e, he, rfl⟩, rfl⟩
    exact ⟨_, List.mem_map_of_mem he, rfl⟩

theorem hasDir_renamed {t : FileTable} {src dst p : List Char} (h : ∃ x, HasDir t x ∧ moved '/' src dst x = p) :
    HasDir (t.map (FileEntry.renamed src dst)) p := by
  obtain ⟨_, ⟨e, he, rfl, hdir⟩, rfl⟩ := h
  exact ⟨_, List.mem_map_of_mem he, rfl, hdir⟩

theorem tableOk_renamed {t : FileTable} (h : TableOk t) {src dst : List Char} (hdst : ¬ Has t dst)
    (hin : ¬ Under '/' src dst) (hparent : ∀ p, beforeLast '/' dst = some p → HasDir t p) :
    TableOk (t.map (FileEntry.renamed src dst)) := by
  have htree := h.tree.rename hin hparent
  constructor
  · rw [List.map_map]
    apply List.Nodup.map_on _ (List.Nodup.of_map _ h.distinct)
    intro x hx y hy he
    have hpath := h.tree.moved_inj hdst ⟨x, hx, rfl⟩ ⟨y, hy, rfl⟩ he
    obtain ⟨i, hi⟩ := List.mem_iff_getElem?.mp hx
    obtain ⟨j, hj⟩ := List.mem_iff_getElem?.mp hy
    obtain rfl := h.index hi hj hpath
    exact Option.some.inj (hi.symm.trans hj)
  · intro e he p hp
    obtain ⟨x, hx, hmoved⟩ := has_renamed.mp ⟨e, he, rfl⟩
    exact hasDir_renamed (htree.parents e.fullPath p ⟨x, hx, hmoved⟩ hp)

/-- The table after `rename`. -/
def renamedTable (t : FileTable) (idx : ℕ) (isDir : Bool) (src dst : List Char) : FileTable :=
  t.mapIdx fun i e => if i = idx then { e with fullPath := dst } else if isDir then renameBelow src dst e else e

theorem renameBelow_path (src dst : List Char) (e : FileEntry) : (renameBelow src dst e).fullPath = e.fullPath ∨
    ∃ s, (renameBelow src dst e).fullPath = dst ++ '/' :: s := by
  unfold renameBelow
  split
  · simp only
    split
    · exact Or.inl rfl
    · exact Or.inr ⟨_, rfl⟩
  · exact Or.inl rfl

theorem renamedTable_path {t : FileTable} (h : TableOk t) {idx : ℕ} {d : FileEntry} {isDir : Bool} {src dst : List Char}
    (hd : t[idx]? = some d) (hsrc : d.fullPath = src) {p : List Char} (hp : Has (renamedTable t idx isDir src dst) p) :
    p = dst ∨ (Has t p ∧ p ≠ src) ∨ Under '/' dst p := by
  obtain ⟨e, he, rfl⟩ := hp
  obtain ⟨i, hi⟩ := List.mem_iff_getElem?.mp he
  rw [renamedTable, List.getElem?_mapIdx] at hi
  obtain ⟨x, hx, rfl⟩ := Option.map_eq_some_iff.mp hi
  have hmem := List.mem_of_getElem? hx
  by_cases hidx : i = idx
  · rw [if_pos hidx]
    exact Or.inl rfl
  · have hne : x.fullPath ≠ src := fun hp => hidx (h.index hx hd (hp.trans hsrc.symm))
    rw [if_neg hidx]
    split
    · rcases renameBelow_path src dst x with hpath | ⟨s, hs⟩
      · rw [hpath]
        exact Or.inr (Or.inl ⟨⟨x, hmem, rfl⟩, hne⟩)
      · exact Or.inr (Or.inr ⟨s, hs⟩)
    · exact Or.inr (Or.inl ⟨⟨x, hmem, rfl⟩, hne⟩)

/-- Nothing has the old name any more. -/
theorem renamedTable_gone {t : FileTable} (h : TableOk t) {idx : ℕ} {d : FileEntry} {isDir : Bool} {src dst : List Char}
    (hd : t[idx]? = some d) (hsrc : d.fullPath = src) (hdst : ¬ Has t dst) :
    ¬ Has (renamedTable t idx isDir src dst) src := by
  have hhas : Has t src := ⟨d, List.mem_of_getElem? hd, hsrc⟩
  intro hp
  rcases renamedTable_path h hd hsrc hp with he | ⟨_, hne⟩ | hu
  · exact hdst (he ▸ hhas)
  · exact hne rfl
  · exact h.tree.free hdst hhas hu

theorem tableOk_rename {t : FileTable} (h : TableOk t) (hn : Named t) {idx : ℕ} {d : FileEntry} {src dst : List Char}
    (hd : t[idx]? = some d) (hsrc : d.fullPath = src) (hdst : ¬ Has t dst) (hne : dst ≠ [])
    (hparent : parentDirExists t dst = true) :
    TableOk (renamedTable t idx d.isDir src dst) ↔
      ¬ Under '/' src dst ∧ beforeLast '/' dst ≠ some [] ∧ FitsBelow t src dst := by
  have hmem := List.mem_of_getElem? hd
  have hidx := (List.getElem?_eq_some_iff.mp hd).1
  have hget : ∀ i e, t[i]? = some e → (if i = idx then { e with fullPath := dst } else
      if d.isDir then renameBelow src dst e else e) ∈ renamedTable t idx d.isDir src dst := by
    intro i e he
    apply List.mem_of_getElem? (i := i)
    rw [renamedTable, List.getElem?_mapIdx, he, Option.map_some]
  constructor
  · intro hok
    have hgone : ¬ Has (renamedTable t idx d.isDir src dst) src := renamedTable_gone h hd hsrc hdst
    have hbelow : ∀ x ∈ renamedTable t idx d.isDir src dst, ¬ Under '/' src x.fullPath := by
      intro x hx hu
      obtain ⟨e, he, hpath, _⟩ := hok.tree.under ⟨x, hx, rfl⟩ hu
      exact hgone ⟨e, he, hpath⟩
    have hnew := hget idx d hd
    rw [if_pos rfl] at hnew
    refine ⟨hbelow _ hnew, ?_, ?_⟩
    · intro hroot
      obtain ⟨e, he, hpath, _⟩ := hok.parents _ hnew [] hroot
      rcases renamedTable_path h hd hsrc ⟨e, he, hpath⟩ with hnil | ⟨hhas, _⟩ | hu
      · exact hne hnil.symm
      · exact hn.no_root hhas
      · exact absurd hu.length (Nat.not_lt_zero _)
    · intro e he hu
      by_contra hlong
      have hlt := hu.length
      obtain ⟨i, hi⟩ := List.mem_iff_getElem?.mp he
      have hidx : i ≠ idx := by
        rintro rfl
        rw [hd] at hi
        obtain rfl := Option.some.inj hi
        rw [hsrc] at hlt
        exact Nat.lt_irrefl _ hlt
      have hstays : renameBelow src dst e = e := by
        unfold renameBelow
        split
        · simp only [List.length_drop]
          rw [if_pos (by omega)]
        · rfl
      have hin := hget i e hi
      rw [if_neg hidx, hstays, ite_self] at hin
      exact hbelow e hin hu
  · rintro ⟨hin, hroot, hfit⟩
    rw [renamedTable, rename_eq h hd hsrc hfit]
    exact tableOk_renamed h hdst hin fun p hp => parentDirExists_dir hparent hp fun hnil => hroot (hnil ▸ hp)

/-! ### Steps and runs -/

/-- A file or directory gets the path `p`. -/
def Adds (t : FileTable) (p : List Char) : Prop :=
  p ≠ [] ∧ p.length ≤ 255 ∧ ¬ Has t p ∧ t.length < maxOpenFiles

/-- `src` gets the path `dst`. -/
def Renames (t : FileTable) (src dst : List Char) : Prop :=
  dst ≠ [] ∧ src.length ≤ 254 ∧ dst.length ≤ 254 ∧ Has t src ∧ ¬ Has t dst ∧ parentDirExists t dst = true

/-- No new path begins with its only separator, nothing is taken away that has something below it, and a directory
is not moved into itself or where a path below it does not fit. -/
def Orderly (t : FileTable) : FileOp → Prop
  | .create path | .mkdir path | .openPath path true =>
    Adds t (stripPath path) → beforeLast '/' (stripPath path) ≠ some []
  | .openPath _ false | .rmdir _ => True
  | .unlink path => Has t (stripPath path) → isDirEmpty t (stripPath path) = true
  | .rename source target => Renames t (stripPath source) (stripPath target) →
      ¬ Under '/' (stripPath source) (stripPath target) ∧ beforeLast '/' (stripPath target) ≠ some [] ∧
        FitsBelow t (stripPath source) (stripPath target)

theorem addNew_cases (t : FileTable) {p : List Char} (hne : p ≠ []) (isDir : Bool) :
    (Adds t p ∧ parentDirExists t p = true ∧ (addNew p isDir t).2 = t ++ [⟨p, isDir, 0⟩]) ∨
      (¬ (Adds t p ∧ parentDirExists t p = true) ∧ (addNew p isDir t).2 = t) := by
  unfold addNew
  split
  · next hlong => exact Or.inr ⟨fun h => absurd h.1.2.1 (Nat.not_le.mpr hlong), rfl⟩
  next hshort =>
  split
  · next hparent => exact Or.inr ⟨fun h => Bool.noConfusion (h.2.symm.trans hparent), rfl⟩
  next hparent =>
  rw [Bool.not_eq_false] at hparent
  split
  · next idx hf =>
    refine Or.inr ⟨fun h => ?_, rfl⟩
    rw [findOpenFile_none.mpr h.1.2.2.1] at hf
    cases hf
  next hf =>
  unfold addOpenFile
  by_cases hfull : maxOpenFiles ≤ t.length
  · rw [if_pos hfull]
    exact Or.inr ⟨fun h => absurd h.1.2.2.2 (Nat.not_lt.mpr hfull), rfl⟩
  · rw [if_neg hfull]
    exact Or.inl ⟨⟨hne, Nat.not_lt.mp hshort, findOpenFile_none.mp hf, Nat.not_le.mp hfull⟩, hparent, rfl⟩

theorem tableOk_addNew {t : FileTable} (h : TableOk t) (hn : Named t) {p : List Char} (hne : p ≠ []) (isDir : Bool) :
    TableOk (addNew p isDir t).2 ↔ (Adds t p → beforeLast '/' p ≠ some []) := by
  rcases addNew_cases t hne isDir with ⟨hadds, hparent, he⟩ | ⟨hnot, he⟩
  · rw [he, tableOk_add h hn hne hadds.2.2.1 hparent]
    exact ⟨fun hroot _ => hroot, fun hroot => hroot hadds⟩
  · rw [he]
    refine ⟨fun _ hadds hroot => hnot ⟨hadds, ?_⟩, fun _ => h⟩
    unfold parentDirExists
    rw [hroot]
    rfl

theorem addNew_named {t : FileTable} (hn : Named t) {p : List Char} (hne : p ≠ []) (isDir : Bool) :
    Named (addNew p isDir t).2 := by
  rcases addNew_cases t hne isDir with ⟨_, _, he⟩ | ⟨_, he⟩
  · rw [he]
    intro e hmem
    rcases List.mem_append.mp hmem with hmem | hmem
    · exact hn e hmem
    · rw [List.mem_singleton.mp hmem]
      exact hne
  · rw [he]
    exact hn

/-- The table after `raid_open` with `O_CREAT` is the one after `raid_create`. -/
theorem raidOpen_table (path : List Char) (t : FileTable) : (raidOpen path true t).2 = (raidCreate path t).2 := by
  unfold raidOpen raidCreate addNew
  simp only [if_true]
  split
  · rfl
  split
  · rfl
  split
  · rfl
  split
  · rfl
  · split <;> rfl

theorem raidOpen_plain (path : List Char) (t : FileTable) : (raidOpen path false t).2 = t := by
  unfold raidOpen
  simp only [Bool.false_eq_true, if_false]
  split
  · rfl
  split
  · rfl
  split <;> rfl

section Orderly

variable {t : FileTable} (h : TableOk t) (hn : Named t)
include h hn

theorem tableOk_raidCreate (path : List Char) : TableOk (raidCreate path t).2 ↔ Orderly t (.create path) := by
  unfold raidCreate
  split
  · next hnil => exact ⟨fun _ hadds => absurd hnil hadds.1, fun _ => h⟩
  · next hne => exact tableOk_addNew h hn hne false

theorem tableOk_raidMkdir (path : List Char) : TableOk (raidMkdir path t).2 ↔ Orderly t (.mkdir path) := by
  unfold raidMkdir
  split
  · next hnil => exact ⟨fun _ hadds => absurd hnil hadds.1, fun _ => h⟩
  · next hne => exact tableOk_addNew h hn hne true

omit hn in
theorem tableOk_raidRmdir (path : List Char) : TableOk (raidRmdir path t).2 := by
  unfold raidRmdir
  simp only
  split
  · exact h
  split
  · exact h
  next idx hf =>
  obtain ⟨e, he, hpath⟩ := findOpenFile_some hf
  split
  · exact h
  split
  · exact h
  next hempty =>
  rw [Bool.not_eq_false] at hempty
  exact (tableOk_remove h he).mpr (hpath ▸ hempty)

theorem tableOk_raidUnlink (path : List Char) : TableOk (raidUnlink path t).2.1 ↔ Orderly t (.unlink path) := by
  unfold raidUnlink
  simp only
  split
  · next hnil => exact ⟨fun _ hhas => absurd (hnil ▸ hhas) hn.no_root, fun _ => h⟩
  split
  · next hf => exact ⟨fun _ hhas => absurd hhas (findOpenFile_none.mp hf), fun _ => h⟩
  next idx hf =>
  obtain ⟨e, he, hpath⟩ := findOpenFile_some hf
  simp only
  rw [tableOk_remove h he, hpath]
  exact ⟨fun hempty _ => hempty, fun hempty => hempty ⟨e, List.mem_of_getElem? he, hpath⟩⟩

theorem tableOk_raidRename (source target : List Char) :
    TableOk (raidRename source target t).2 ↔ Orderly t (.rename source target) := by
  unfold Orderly
  simp only
  generalize hsrc : stripPath source = src
  generalize hdst : stripPath target = dst
  unfold raidRename
  simp only [hsrc, hdst]
  split
  · next hnil =>
    refine ⟨fun _ hr => ?_, fun _ => h⟩
    rcases hnil with rfl | rfl
    · exact absurd hr.2.2.2.1 hn.no_root
    · exact absurd rfl hr.1
  next hnil =>
  split
  · next hlong => exact ⟨fun _ hr => by have h1 := hr.2.1; have h2 := hr.2.2.1; omega, fun _ => h⟩
  next hlong =>
  split
  · next hparent => exact ⟨fun _ hr => Bool.noConfusion (hr.2.2.2.2.2.symm.trans hparent), fun _ => h⟩
  next hparent =>
  rw [Bool.not_eq_false] at hparent
  split
  · next hf => exact ⟨fun _ hr => absurd hr.2.2.2.1 (findOpenFile_none.mp hf), fun _ => h⟩
  next idx hf =>
  obtain ⟨d, hd, hpath⟩ := findOpenFile_some hf
  split
  · next hthere =>
    refine ⟨fun _ hr => ?_, fun _ => h⟩
    rw [findOpenFile_none.mpr hr.2.2.2.2.1] at hthere
    cases hthere
  next hfree =>
  rw [Bool.not_eq_true, Option.isSome_eq_false_iff, Option.isNone_iff_eq_none] at hfree
  have hdst' := findOpenFile_none.mp hfree
  have hne : dst ≠ [] := fun hd => hnil (Or.inr hd)
  rw [hd, Option.any_some, if_neg (by omega)]
  have hiff := tableOk_rename h hn hd hpath hdst' hne hparent
  constructor
  · intro hok _
    exact hiff.mp hok
  · intro hr
    apply hiff.mpr (hr ⟨hne, by omega, by omega, ⟨d, List.mem_of_getElem? hd, hpath⟩, hdst', hparent⟩)

/-- One operation keeps the table a tree exactly when it is orderly. -/
theorem fileStep_ok {t' : FileTable} {op : FileOp} (ht : fileStep t op = some t') : TableOk t' ↔ Orderly t op := by
  cases op with
  | create path =>
    obtain rfl := Option.some.inj ht
    exact tableOk_raidCreate h hn path
  | openPath path creat =>
    obtain rfl := Option.some.inj ht
    cases creat with
    | true =>
      rw [raidOpen_table]
      exact tableOk_raidCreate h hn path
    | false =>
      rw [raidOpen_plain]
      exact ⟨fun _ => True.intro, fun _ => h⟩
  | mkdir path =>
    obtain rfl := Option.some.inj ht
    exact tableOk_raidMkdir h hn path
  | rmdir path =>
    obtain rfl := Option.some.inj ht
    exact ⟨fun _ => True.intro, fun _ => tableOk_raidRmdir h path⟩
  | unlink path =>
    obtain rfl := Option.some.inj ht
    exact tableOk_raidUnlink h hn path
  | rename source target =>
    obtain rfl := Option.some.inj ht
    exact tableOk_raidRename h hn source target

end Orderly

theorem removeOpenFile_named {t : FileTable} (hn : Named t) (idx : ℕ) : Named (removeOpenFile t idx) := by
  unfold removeOpenFile
  split
  · exact hn
  next e he =>
  intro x hx
  rcases List.mem_or_eq_of_mem_set (List.mem_of_mem_dropLast hx) with hx | rfl
  · exact hn x hx
  · exact hn _ (List.mem_of_getLast? he)

theorem raidCreate_named {t : FileTable} (hn : Named t) (path : List Char) : Named (raidCreate path t).2 := by
  unfold raidCreate
  split
  · exact hn
  · next hne => exact addNew_named hn hne false

theorem raidRename_named {t : FileTable} (hn : Named t) (source target : List Char) :
    Named (raidRename source target t).2 := by
  unfold raidRename
  simp only
  split
  · exact hn
  next hnil =>
  split
  · exact hn
  split
  · exact hn
  split
  · exact hn
  split
  · exact hn
  rw [if_neg (by omega)]
  intro e he
  obtain ⟨i, hi, rfl⟩ := List.mem_mapIdx.mp he
  split
  · exact fun hd => hnil (Or.inr hd)
  split
  · rcases renameBelow_path (stripPath source) (stripPath target) t[i] with hpath | ⟨s, hs⟩
    · rw [hpath]
      exact hn _ (List.getElem_mem hi)
    · rw [hs]
      exact List.append_ne_nil_of_right_ne_nil _ (List.cons_ne_nil _ _)
  · exact hn _ (List.getElem_mem hi)

theorem fileStep_named {t t' : FileTable} {op : FileOp} (hn : Named t) (ht : fileStep t op = some t') : Named t' := by
  cases op with
  | create path =>
    obtain rfl := Option.some.inj ht
    exact raidCreate_named hn path
  | openPath path creat =>
    obtain rfl := Option.some.inj ht
    cases creat with
    | true =>
      rw [raidOpen_table]
      exact raidCreate_named hn path
    | false =>
      rw [raidOpen_plain]
      exact hn
  | mkdir path =>
    obtain rfl := Option.some.inj ht
    unfold raidMkdir
    split
    · exact hn
    · next hne => exact addNew_named hn hne true
  | rmdir path =>
    obtain rfl := Option.some.inj ht
    unfold raidRmdir
    simp only
    split
    · exact hn
    split
    · exact hn
    split
    · exact hn
    split
    · exact hn
    · exact removeOpenFile_named hn _
  | unlink path =>
    obtain rfl := Option.some.inj ht
    unfold raidUnlink
    simp only
    split
    · exact hn
    split
    · exact hn
    · exact removeOpenFile_named hn _
  | rename source target =>
    obtain rfl := Option.some.inj ht
    exact raidRename_named hn source target

/-- A run keeps the table a tree exactly when every operation of it is orderly. -/
theorem fileTable_ok (ops : List FileOp) :
    (∀ pre post u, ops = pre ++ post → run fileStep [] pre = some u → TableOk u) ↔ Along fileStep Orderly [] ops := by
  refine along_iff_always (J := Named) (Q := fun _ => True) (fun _ _ _ hn _ ht => fileStep_named hn ht)
    (fun _ _ _ hn h _ ht => fileStep_ok h hn ht) (fun t op hnone => ?_) nofun ⟨List.nodup_nil, nofun⟩ fun _ _ => True.intro
  cases op with
  | _ => cases hnone

/-- `mkdir /d`, `create /d/f`, and then `unlink /d`, or `rename /d /d/x`; or `create //x`. -/
theorem fileTable_ok_fails :
    (run fileStep [] [.mkdir ['/', 'd'], .create ['/', 'd', '/', 'f'], .unlink ['/', 'd']] =
      some [⟨['d', '/', 'f'], false, 0⟩] ∧ ¬ TableOk [⟨['d', '/', 'f'], false, 0⟩]) ∧
    (run fileStep [] [.mkdir ['/', 'd'], .rename ['/', 'd'] ['/', 'd', '/', 'x']] =
      some [⟨['d', '/', 'x'], true, 0⟩] ∧ ¬ TableOk [⟨['d', '/', 'x'], true, 0⟩]) ∧
    (run fileStep [] [.create ['/', '/', 'x']] = some [⟨['/', 'x'], false, 0⟩] ∧ ¬ TableOk [⟨['/', 'x'], false, 0⟩]) := by
  have hlone : ∀ e p, beforeLast '/' e.fullPath = some p → e.fullPath ≠ p → ¬ TableOk [e] := by
    intro e p hp hne hok
    obtain ⟨d, hd, hpath, _⟩ := hok.parents e (List.mem_singleton.mpr rfl) p hp
    rw [List.mem_singleton.mp hd] at hpath
    exact hne hpath
  exact ⟨⟨rfl, hlone _ ['d'] rfl (by decide)⟩, ⟨rfl, hlone _ ['d'] rfl (by decide)⟩, rfl, hlone _ [] rfl (by decide)⟩

end RaidTest.Fuse
