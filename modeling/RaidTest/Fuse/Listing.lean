import RaidTest.Base.Walk
import RaidTest.Fuse.Accounting
import RaidTest.Fuse.Rename

/-!
# Looking at a mounted volume (`raid_getattr`, `raid_readdir`)

A listing goes through the whole table and picks the entries one level below the path asked for.
Nothing but the paths says which directory an entry is in.
-/

namespace RaidTest.Fuse
open RaidTest.Base RaidTest.Stripe RaidTest.Cache

/-! ### The callbacks -/

/-- `is_direct_child`. -/
def isDirectChild (fullPath parent : List Char) : Bool :=
  if parent.length = 0 then !fullPath.contains '/'
  else if fullPath.length ≤ parent.length + 1 then false
  else if parent.isPrefixOf fullPath = false then false
  else if fullPath[parent.length]? ≠ some '/' then false
  else !(fullPath.drop (parent.length + 1)).contains '/'

/-- `struct fuse_stat`, as far as `raid_getattr` fills it in. -/
structure FuseStat where
  mode : ℕ
  nlink : ℕ
  size : ℕ
  deriving DecidableEq, Repr

def sIfmt : ℕ := 0xF000
def sIfdir : ℕ := 0x4000
def sIfreg : ℕ := 0x8000

/-- `S_ISDIR`. -/
def sIsdir (mode : ℕ) : Bool := mode &&& sIfmt = sIfdir

/-- What `raid_getattr` says of an entry; the permissions are 0777 and 0666. -/
def FileEntry.stat (e : FileEntry) : FuseStat := ⟨if e.isDir then sIfdir ||| 511 else sIfreg ||| 438, 1, e.size⟩

/-- `raid_getattr`. -/
def raidGetattr (path : List Char) (t : FileTable) : Option FuseError × FuseStat :=
  if path = ['/'] then (none, ⟨sIfdir ||| 493, 2, 0⟩)
  else
    let p := stripPath path
    match if p ≠ [] then (findOpenFile t p).bind fun idx => t[idx]? else none with
    | some e => (none, e.stat)
    | none => (some .enoent, ⟨0, 0, 0⟩)

/-- `display`, what is shown of a path. -/
def display (parent fullPath : List Char) : List Char :=
  if parent ≠ [] then fullPath.drop (parent.length + 1) else fullPath

/-- The names `raid_readdir` hands to `filler`. There is no result for a path that does not fit
`wparent` with its end. -/
def raidReaddir (path : List Char) (t : FileTable) : Option (List (List Char)) :=
  let p := stripPath path
  if 256 ≤ p.length then none
  else some (['.'] :: ['.', '.'] :: (t.filter fun e => isDirectChild e.fullPath p).map fun e =>
    display p e.fullPath)

/-- A call under the mount, run to its end. -/
inductive MountOp where
  | file (op : FileOp)
  | write (env : ℕ → ChunkEnv) (path : List Char) (buffer : Buf) (size offset : UInt64)
  | truncate (path : List Char) (size : UInt64)

def mountStep (m : Mount) : MountOp → Option Mount
  | .file (.unlink path) => some (unlinkFile path m).2
  | .file op => (fileStep m.table op).map fun t => { m with table := t }
  | .write env path buffer size offset => (raidWrite env path buffer size.toNat offset.toNat m).map Prod.snd
  | .truncate path size => some (raidTruncate path size.toNat m).2

/-! ### Paths and the directories they are in -/

theorem beforeLast_none {q : List Char} : beforeLast '/' q = none ↔ '/' ∉ q := by
  constructor
  · intro h hin
    obtain ⟨d, s, rfl⟩ := List.append_of_mem hin
    rw [beforeLast_append] at h
    cases h
  · intro h
    cases hq : beforeLast '/' q with
    | none => rfl
    | some p =>
      obtain ⟨s, rfl⟩ := beforeLast_under hq
      exact absurd (List.mem_append_right _ (List.mem_cons_self ..)) h

/-- The directory of a path, which is empty for the root. -/
def dirOf (q : List Char) : List Char := (beforeLast '/' q).getD []

/-- A name in a directory. -/
def joinPath (dir name : List Char) : List Char := if dir = [] then name else dir ++ '/' :: name

/-- A path that names something in a directory: not empty, and with a name after the last separator. -/
structure Proper (q : List Char) : Prop where
  nonempty : q ≠ []
  name : q.getLast? ≠ some '/'
  dir : beforeLast '/' q ≠ some []

theorem dirOf_lt {q : List Char} (h : q ≠ []) : (dirOf q).length < q.length := by
  unfold dirOf
  cases hq : beforeLast '/' q with
  | none => exact List.length_pos_of_ne_nil h
  | some p => exact (beforeLast_under hq).length

theorem dirOf_join {dir name : List Char} (h : '/' ∉ name) : dirOf (joinPath dir name) = dir := by
  unfold dirOf joinPath
  split
  · next hd => rw [beforeLast_none.mpr h, hd, Option.getD_none]
  · rw [beforeLast_append, beforeLast_none.mpr h, Option.getD_some]

theorem Proper.join {q : List Char} (h : Proper q) :
    ∃ name, q = joinPath (dirOf q) name ∧ name ≠ [] ∧ '/' ∉ name := by
  unfold dirOf joinPath
  cases hq : beforeLast '/' q with
  | none => exact ⟨q, rfl, h.nonempty, beforeLast_none.mp hq⟩
  | some p =>
    obtain ⟨s, hs⟩ := beforeLast_under hq
    have hs' := hq
    rw [hs, beforeLast_append, Option.some.injEq] at hs'
    have hnone : beforeLast '/' s = none := by
      cases hb : beforeLast '/' s with
      | none => rfl
      | some r =>
        rw [hb] at hs'
        have hl := congrArg List.length hs'
        simp only [List.length_append, List.length_cons] at hl
        omega
    refine ⟨s, ?_, ?_, beforeLast_none.mp hnone⟩
    · rw [Option.getD_some, if_neg fun hp : p = [] => h.dir (hp ▸ hq), hs]
    · rintro rfl
      exact h.name (by rw [hs, List.getLast?_append, List.getLast?_singleton, Option.some_or])

theorem isDirectChild_join {dir name : List Char} (hne : name ≠ []) (hname : '/' ∉ name) :
    isDirectChild (joinPath dir name) dir = true := by
  unfold isDirectChild joinPath
  by_cases hd : dir = []
  · subst hd
    simpa using hname
  · have hpos := List.length_pos_of_ne_nil hd
    have hlen := List.length_pos_of_ne_nil hne
    rw [if_neg hd, if_neg (by omega), if_neg (by rw [List.length_append, List.length_cons]; omega), if_neg, if_neg]
    · rw [← List.singleton_append, ← List.append_assoc, List.drop_append_of_le_length (by simp)]
      simpa using hname
    · rw [List.getElem?_append_right (Nat.le_refl _), Nat.sub_self]
      exact fun h => h rfl
    · rw [Bool.not_eq_false, List.isPrefixOf_iff_prefix]
      exact List.prefix_append ..

theorem display_join (dir name : List Char) : display dir (joinPath dir name) = name := by
  unfold display joinPath
  by_cases hd : dir = []
  · rw [if_neg (not_not.mpr hd), if_pos hd]
  · rw [if_pos hd, if_neg hd, ← List.singleton_append, ← List.append_assoc]
    exact List.drop_left' (by simp)

/-- The check that a listing makes is whether the path asked for is the directory of the entry. -/
theorem isDirectChild_iff {q dir : List Char} (h : Proper q) : isDirectChild q dir = true ↔ dirOf q = dir := by
  constructor
  · intro hc
    unfold isDirectChild at hc
    split at hc
    · next hd =>
      rw [List.eq_nil_of_length_eq_zero hd, dirOf, beforeLast_none.mpr (by simpa using hc), Option.getD_none]
    split at hc
    · cases hc
    split at hc
    · cases hc
    next hprefix =>
    rw [Bool.not_eq_false, List.isPrefixOf_iff_prefix] at hprefix
    split at hc
    · cases hc
    next hsep =>
    rw [not_not] at hsep
    obtain ⟨s, rfl⟩ := hprefix
    rw [List.getElem?_append_right (Nat.le_refl _), Nat.sub_self] at hsep
    obtain ⟨c, s, rfl⟩ : ∃ c r, s = c :: r := by
      cases s with
      | nil => cases hsep
      | cons c r => exact ⟨c, r, rfl⟩
    obtain rfl : c = '/' := Option.some.inj hsep
    rw [← List.singleton_append, ← List.append_assoc, List.drop_append_of_le_length (by simp)] at hc
    rw [dirOf, beforeLast_append, beforeLast_none.mpr (by simpa using hc), Option.getD_some]
  · intro hd
    obtain ⟨name, hq, hne, hname⟩ := h.join
    rw [hq, ← hd]
    exact isDirectChild_join hne hname

/-! ### Tables that are listed in full -/

/-- A tree of paths that fit their buffers and name something. -/
structure Navigable (t : FileTable) : Prop where
  ok : TableOk t
  proper : ∀ e ∈ t, Proper e.fullPath
  fits : ∀ e ∈ t, e.fullPath.length ≤ 255

theorem Navigable.named {t : FileTable} (h : Navigable t) : Named t := fun e he => (h.proper e he).nonempty

def paths (t : FileTable) : List (List Char) := t.map FileEntry.fullPath

theorem mem_paths {t : FileTable} {q : List Char} : q ∈ paths t ↔ Has t q := List.mem_map

theorem Navigable.rooted {t : FileTable} (h : Navigable t) : Rooted (paths t) dirOf [] List.length where
  nodup := h.ok.distinct
  lower q hq := by
    obtain ⟨e, he, rfl⟩ := mem_paths.mp hq
    exact dirOf_lt (h.named e he)
  closed q hq := by
    obtain ⟨e, he, rfl⟩ := mem_paths.mp hq
    unfold dirOf
    cases hb : beforeLast '/' e.fullPath with
    | none => exact Or.inl rfl
    | some p =>
      obtain ⟨d, hd, hpath, _⟩ := h.ok.parents e he p hb
      exact Or.inr (mem_paths.mpr ⟨d, hd, hpath⟩)

theorem TableOk.fileNamed {t : FileTable} (h : TableOk t) {e : FileEntry} (he : e ∈ t) :
    (findOpenFile t e.fullPath).bind (fun idx => t[idx]?) = some e := by
  cases hf : findOpenFile t e.fullPath with
  | none => exact absurd ⟨e, he, rfl⟩ (findOpenFile_none.mp hf)
  | some idx =>
    obtain ⟨x, hx, hpath⟩ := findOpenFile_some hf
    obtain ⟨i, hi⟩ := List.mem_iff_getElem?.mp he
    obtain rfl := h.index hi hx hpath.symm
    exact hi

theorem raidGetattr_entry {t : FileTable} (h : Navigable t) {e : FileEntry} (he : e ∈ t) :
    raidGetattr ('/' :: e.fullPath) t = (none, e.stat) := by
  have hne := h.named e he
  unfold raidGetattr
  rw [if_neg fun hc => hne (List.tail_eq_of_cons_eq hc)]
  simp only [stripPath]
  rw [if_pos hne, h.ok.fileNamed he]

theorem raidGetattr_none {t : FileTable} {q : List Char} (hne : q ≠ []) (h : ¬ Has t q) :
    (raidGetattr ('/' :: q) t).1 = some .enoent := by
  unfold raidGetattr
  rw [if_neg fun hc => hne (List.tail_eq_of_cons_eq hc)]
  simp only [stripPath]
  rw [if_pos hne, findOpenFile_none.mpr h, Option.bind_none]

theorem sIsdir_stat (e : FileEntry) : sIsdir e.stat.mode = e.isDir := by
  unfold FileEntry.stat
  cases e.isDir with
  | true => exact (by decide : sIsdir (sIfdir ||| 511) = true)
  | false => exact (by decide : sIsdir (sIfreg ||| 438) = false)

/-- What a listing shows after the two dots. -/
def shown (t : FileTable) (dir : List Char) : List (List Char) := (kids (paths t) dirOf dir).map (display dir)

theorem Navigable.shown_path {t : FileTable} (h : Navigable t) {dir q : List Char} (hq : q ∈ kids (paths t) dirOf dir) :
    joinPath dir (display dir q) = q ∧ display dir q ≠ [] ∧ '/' ∉ display dir q := by
  obtain ⟨hmem, hd⟩ := mem_kids.mp hq
  obtain ⟨e, he, rfl⟩ := mem_paths.mp hmem
  obtain ⟨n, hn, hne, hname⟩ := (h.proper e he).join
  rw [hd] at hn
  rw [hn, display_join]
  exact ⟨rfl, hne, hname⟩

theorem raidReaddir_eq {t : FileTable} (h : Navigable t) {dir : List Char} (hd : dir.length ≤ 255) :
    raidReaddir ('/' :: dir) t = some (['.'] :: ['.', '.'] :: shown t dir) := by
  have hkids : kids (paths t) dirOf dir = (t.filter fun e => isDirectChild e.fullPath dir).map FileEntry.fullPath := by
    unfold kids paths
    rw [List.filter_map]
    congr 1
    apply List.filter_congr
    intro e he
    rw [Function.comp, Bool.eq_iff_iff, decide_eq_true_eq, isDirectChild_iff (h.proper e he)]
  unfold raidReaddir shown
  simp only [stripPath]
  rw [if_neg (by omega), hkids, List.map_map]
  rfl

/-- A listing shows each name in the directory once. -/
theorem Navigable.shown_exact {t : FileTable} (h : Navigable t) (dir : List Char) :
    (shown t dir).Nodup ∧ ∀ n, n ∈ shown t dir ↔ n ≠ [] ∧ '/' ∉ n ∧ Has t (joinPath dir n) := by
  constructor
  · have hkids : (kids (paths t) dirOf dir).Nodup := h.ok.distinct.filter _
    apply List.Nodup.map_on _ hkids
    intro x hx y hy he
    rw [← (h.shown_path hx).1, ← (h.shown_path hy).1, he]
  · intro n
    constructor
    · intro hn
      obtain ⟨q, hq, rfl⟩ := List.mem_map.mp hn
      obtain ⟨hpath, hne, hname⟩ := h.shown_path hq
      exact ⟨hne, hname, hpath.symm ▸ mem_paths.mp (mem_kids.mp hq).1⟩
    · rintro ⟨hne, hname, hhas⟩
      have hkid : joinPath dir n ∈ kids (paths t) dirOf dir := mem_kids.mpr ⟨mem_paths.mpr hhas, dirOf_join hname⟩
      exact List.mem_map.mpr ⟨_, hkid, display_join dir n⟩

/-- Who goes through the volume: it lists a directory, looks at each name, and goes on in those
that are directories. -/
def findFiles (t : FileTable) : ℕ → List Char → List (List Char)
  | 0, _ => []
  | n + 1, dir =>
    match raidReaddir ('/' :: dir) t with
    | none => []
    | some names => (names.drop 2).flatMap fun name =>
      let q := joinPath dir name
      q :: if sIsdir (raidGetattr ('/' :: q) t).2.mode then findFiles t n q else []

/-- Nothing is in a file. -/
theorem Navigable.kids_file {t : FileTable} (h : Navigable t) {e : FileEntry} (he : e ∈ t) (hfile : e.isDir = false) :
    kids (paths t) dirOf e.fullPath = [] := by
  rw [List.eq_nil_iff_forall_not_mem]
  intro q hq
  obtain ⟨hmem, hd⟩ := mem_kids.mp hq
  obtain ⟨x, hx, rfl⟩ := mem_paths.mp hmem
  unfold dirOf at hd
  cases hb : beforeLast '/' x.fullPath with
  | none =>
    rw [hb, Option.getD_none] at hd
    exact h.named e he hd.symm
  | some p =>
    rw [hb, Option.getD_some] at hd
    subst hd
    obtain ⟨d, hd, hpath, hdir⟩ := h.ok.parents x hx _ hb
    obtain ⟨i, hi⟩ := List.mem_iff_getElem?.mp he
    obtain ⟨j, hj⟩ := List.mem_iff_getElem?.mp hd
    obtain rfl := h.ok.index hi hj hpath.symm
    rw [hi] at hj
    obtain rfl := Option.some.inj hj
    rw [hfile] at hdir
    cases hdir

theorem findFiles_eq {t : FileTable} (h : Navigable t) (n : ℕ) {dir : List Char} (hd : dir.length ≤ 255) :
    findFiles t n dir = walk (paths t) dirOf n dir := by
  induction n generalizing dir with
  | zero => rfl
  | succ n ih =>
    unfold findFiles walk
    rw [raidReaddir_eq h hd]
    simp only [List.drop_succ_cons, List.drop_zero]
    rw [shown, List.flatMap_map]
    apply List.flatMap_congr
    intro q hq
    obtain ⟨e, he, hpath⟩ := mem_paths.mp (mem_kids.mp hq).1
    rw [(h.shown_path hq).1, ← hpath, raidGetattr_entry h he, sIsdir_stat]
    congr 1
    cases hdir : e.isDir with
    | true => exact ih (h.fits e he)
    | false =>
      cases n with
      | zero => rfl
      | succ n =>
        unfold walk
        rw [h.kids_file he hdir]
        rfl

/-! ### Runs of the mount -/

/-- What the table is as a tree. -/
def shape (t : FileTable) : List (List Char × Bool) := t.map fun e => (e.fullPath, e.isDir)

theorem paths_of_shape {s t : FileTable} (h : shape s = shape t) : paths s = paths t := by
  have hfst : ∀ t : FileTable, paths t = (shape t).map Prod.fst := by
    intro t
    rw [shape, List.map_map]
    rfl
  rw [hfst, hfst, h]

theorem mem_of_shape {s t : FileTable} (h : shape s = shape t) {e : FileEntry} (he : e ∈ s) :
    ∃ x ∈ t, x.fullPath = e.fullPath ∧ x.isDir = e.isDir := by
  have hin : (e.fullPath, e.isDir) ∈ shape t := h ▸ List.mem_map_of_mem he
  obtain ⟨x, hx, heq⟩ := List.mem_map.mp hin
  exact ⟨x, hx, (Prod.mk.inj heq).1, (Prod.mk.inj heq).2⟩

theorem Navigable.of_shape {s t : FileTable} (h : Navigable t) (hs : shape s = shape t) : Navigable s := by
  have hback : ∀ e ∈ s, ∃ x ∈ t, x.fullPath = e.fullPath := by
    intro e he
    obtain ⟨x, hx, hp, _⟩ := mem_of_shape hs he
    exact ⟨x, hx, hp⟩
  refine ⟨⟨?_, ?_⟩, ?_, ?_⟩
  · have hp : s.map FileEntry.fullPath = t.map FileEntry.fullPath := paths_of_shape hs
    rw [hp]
    exact h.ok.distinct
  · intro e he p hp
    obtain ⟨x, hx, hpath⟩ := hback e he
    obtain ⟨d, hd, hdp, hdir⟩ := h.ok.parents x hx p (hpath ▸ hp)
    obtain ⟨y, hy, hyp, hyd⟩ := mem_of_shape hs.symm hd
    exact ⟨y, hy, hyp.trans hdp, hyd.trans hdir⟩
  · intro e he
    obtain ⟨x, hx, hpath⟩ := hback e he
    exact hpath ▸ h.proper x hx
  · intro e he
    obtain ⟨x, hx, hpath⟩ := hback e he
    exact hpath ▸ h.fits x hx

/-- Another size leaves the tree. -/
theorem shape_modify (t : FileTable) (i : ℕ) {f : FileEntry → FileEntry} (hpath : ∀ e, (f e).fullPath = e.fullPath)
    (hdir : ∀ e, (f e).isDir = e.isDir) : shape (t.modify i f) = shape t := by
  unfold shape
  induction t generalizing i with
  | nil => rw [List.modify_nil]
  | cons e t ih =>
    cases i with
    | zero => rw [List.modify_zero_cons, List.map_cons, List.map_cons, hpath, hdir]
    | succ i => rw [List.modify_succ_cons, List.map_cons, List.map_cons, ih]

theorem shape_growFile (t : FileTable) (name : List Char) (writeEnd : ℕ) : shape (growFile t name writeEnd) = shape t := by
  unfold growFile
  split
  · rfl
  · refine shape_modify t _ (fun e => ?_) fun e => ?_
    · split <;> rfl
    · split <;> rfl

theorem shape_raidTruncate (path : List Char) (size : ℕ) (m : Mount) :
    shape (raidTruncate path size m).2.table = shape m.table := by
  unfold raidTruncate
  simp only
  split
  · rfl
  split
  · rfl
  · next idx _ =>
    have hmod : shape (m.table.modify idx fun e => { e with size := size }) = shape m.table :=
      shape_modify m.table idx (fun _ => rfl) fun _ => rfl
    split
    · exact hmod
    split
    · exact hmod
    · exact hmod

theorem shape_raidWrite {env : ℕ → ChunkEnv} {path : List Char} {buffer : Buf} {size offset : ℕ} {m t : Mount} {n : ℤ}
    (h : raidWrite env path buffer size offset m = some (n, t)) : shape t.table = shape m.table := by
  unfold raidWrite at h
  split at h
  · obtain ⟨rfl, rfl⟩ := Prod.mk.inj (Option.some.inj h)
    rfl
  simp only at h
  split at h
  · cases h
  next ok total s _ =>
  obtain rfl : (raidWritten path offset m ok total s).2 = t := congrArg Prod.snd (Option.some.inj h)
  unfold raidWritten
  cases ok with
  | false => rfl
  | true =>
    simp only [Bool.true_eq_false, if_false]
    split
    · exact shape_growFile m.table (stripPath path) _
    · rfl

/-- The new path of an operation does not end with a separator. -/
def Ended : FileOp → Prop
  | .create path | .mkdir path | .openPath path true | .rename _ path => path.getLast? ≠ some '/'
  | _ => True

/-- The operation keeps the table a tree, and its new path names something. -/
def Tidy (m : Mount) : MountOp → Prop
  | .file op => Orderly m.table op ∧ Ended op
  | _ => True

/-- The path fits its buffer and does not end with a separator. -/
def Sized (q : List Char) : Prop := q.length ≤ 255 ∧ q.getLast? ≠ some '/'

theorem stripPath_ended {path : List Char} (h : path.getLast? ≠ some '/') : (stripPath path).getLast? ≠ some '/' := by
  unfold stripPath
  split
  · next p =>
    cases p with
    | nil => exact absurd rfl h
    | cons c p => exact h
  · exact h

theorem addNew_sized {t : FileTable} (h : ∀ e ∈ t, Sized e.fullPath) {p : List Char} (hne : p ≠ []) (isDir : Bool)
    (hp : p.getLast? ≠ some '/') : ∀ e ∈ (addNew p isDir t).2, Sized e.fullPath := by
  rcases addNew_cases t hne isDir with ⟨hadds, _, he⟩ | ⟨_, he⟩
  · rw [he]
    intro e hmem
    rcases List.mem_append.mp hmem with hmem | hmem
    · exact h e hmem
    · rw [List.mem_singleton.mp hmem]
      exact ⟨hadds.2.1, hp⟩
  · rw [he]
    exact h

theorem removeOpenFile_subset (t : FileTable) (idx : ℕ) {e : FileEntry} (he : e ∈ removeOpenFile t idx) : e ∈ t := by
  unfold removeOpenFile at he
  split at he
  · exact he
  next x hx =>
  rcases List.mem_or_eq_of_mem_set (List.mem_of_mem_dropLast he) with he | rfl
  · exact he
  · exact List.mem_of_getLast? hx

theorem renameBelow_sized {src dst : List Char} {e : FileEntry} (h : Sized e.fullPath) :
    Sized (renameBelow src dst e).fullPath := by
  unfold renameBelow
  split
  next hp =>
    simp only
    split
    · exact h
    next hfit =>
    obtain ⟨s, hs⟩ := List.isPrefixOf_iff_prefix.mp hp
    have hdrop : e.fullPath.drop (src.length + 1) = s := by
      rw [← hs]
      exact List.drop_left' (by simp)
    rw [hdrop] at hfit ⊢
    have hlast := h.2
    rw [← hs, List.append_assoc, List.singleton_append] at hlast
    refine ⟨by simp only [List.length_append, List.length_cons]; omega, ?_⟩
    rw [List.getLast?_append] at hlast ⊢
    cases hl : ('/' :: s).getLast? with
    | none => simp at hl
    | some c =>
      rw [hl] at hlast
      rw [Option.some_or] at hlast ⊢
      exact hlast
  · exact h

theorem fileStep_sized {t t' : FileTable} {op : FileOp} (h : ∀ e ∈ t, Sized e.fullPath) (hend : Ended op)
    (ht : fileStep t op = some t') : ∀ e ∈ t', Sized e.fullPath := by
  have hcreate : ∀ path, path.getLast? ≠ some '/' → ∀ e ∈ (raidCreate path t).2, Sized e.fullPath := by
    intro path hp
    unfold raidCreate
    split
    · exact h
    · next hne => exact addNew_sized h hne false (stripPath_ended hp)
  cases op with
  | create path =>
    obtain rfl := Option.some.inj ht
    exact hcreate path hend
  | openPath path creat =>
    obtain rfl := Option.some.inj ht
    cases creat with
    | true =>
      rw [raidOpen_table]
      exact hcreate path hend
    | false =>
      rw [raidOpen_plain]
      exact h
  | mkdir path =>
    obtain rfl := Option.some.inj ht
    unfold raidMkdir
    split
    · exact h
    · next hne => exact addNew_sized h hne true (stripPath_ended hend)
  | rmdir path =>
    obtain rfl := Option.some.inj ht
    unfold raidRmdir
    simp only
    split
    · exact h
    split
    · exact h
    split
    · exact h
    split
    · exact h
    · exact fun e he => h e (removeOpenFile_subset t _ he)
  | unlink path =>
    obtain rfl := Option.some.inj ht
    unfold raidUnlink
    simp only
    split
    · exact h
    split
    · exact h
    · exact fun e he => h e (removeOpenFile_subset t _ he)
  | rename source target =>
    obtain rfl := Option.some.inj ht
    rcases raidRename_cases source target t with ⟨err, he, _⟩ | ⟨idx, d, _, _, _, hr, he⟩
    · rw [he]
      exact h
    · rw [he]
      intro e hmem
      obtain ⟨i, hi, rfl⟩ := List.mem_mapIdx.mp hmem
      have hlen := hr.2.2.2.1
      split
      · exact ⟨by simp only; omega, stripPath_ended hend⟩
      split
      · exact renameBelow_sized (h _ (List.getElem_mem hi))
      · exact h _ (List.getElem_mem hi)

theorem fileStep_navigable {t t' : FileTable} {op : FileOp} (h : Navigable t) (ho : Orderly t op) (hend : Ended op)
    (ht : fileStep t op = some t') : Navigable t' := by
  have hok := (fileStep_ok h.ok h.named ht).mpr ho
  have hnamed := fileStep_named h.named ht
  have hsized := fileStep_sized (fun e he => ⟨h.fits e he, (h.proper e he).name⟩) hend ht
  refine ⟨hok, fun e he => ⟨hnamed e he, (hsized e he).2, fun hroot => ?_⟩, fun e he => (hsized e he).1⟩
  obtain ⟨d, hd, hpath, _⟩ := hok.parents e he [] hroot
  exact hnamed d hd hpath

theorem mountStep_navigable {m m' : Mount} {op : MountOp} (h : Navigable m.table) (ht : Tidy m op)
    (hs : mountStep m op = some m') : Navigable m'.table := by
  cases op with
  | file op =>
    obtain ⟨ho, hend⟩ := ht
    have hfile : fileStep m.table op = some m'.table := by
      cases op with
      | _ =>
        obtain rfl := Option.some.inj hs
        rfl
    exact fileStep_navigable h ho hend hfile
  | write env path buffer size offset =>
    obtain ⟨⟨n, t⟩, hw, rfl⟩ := Option.map_eq_some_iff.mp hs
    exact h.of_shape (shape_raidWrite hw)
  | truncate path size =>
    obtain rfl := Option.some.inj hs
    exact h.of_shape (shape_raidTruncate path size.toNat m)

theorem navigable_nil : Navigable [] := ⟨⟨List.nodup_nil, nofun⟩, nofun, nofun⟩

/-- After any run of tidy calls every directory is listed with exactly the names in it, each once after
the two dots, and `getattr` finds what is listed, as it is, and nothing else. -/
theorem raidReaddir_exact (s : System) (ops : List MountOp) (m : Mount)
    (htidy : Along mountStep Tidy (fuseMountVolume s []) ops) (hrun : run mountStep (fuseMountVolume s []) ops = some m)
    (dir : List Char) (hdir : dir = [] ∨ HasDir m.table dir) :
    ∃ names, raidReaddir ('/' :: dir) m.table = some (['.'] :: ['.', '.'] :: names) ∧ names.Nodup ∧
      (∀ n, n ∈ names ↔ n ≠ [] ∧ '/' ∉ n ∧ Has m.table (joinPath dir n)) ∧
      ∀ n, n ≠ [] → '/' ∉ n →
        (n ∈ names → ∃ e ∈ m.table, e.fullPath = joinPath dir n ∧
          raidGetattr ('/' :: joinPath dir n) m.table = (none, e.stat)) ∧
        (n ∉ names → (raidGetattr ('/' :: joinPath dir n) m.table).1 = some .enoent) := by
  have h : Navigable m.table := run_invariant (I := fun m => Navigable m.table)
    (fun m op m' hi hp hs => mountStep_navigable hi hp hs) htidy navigable_nil hrun
  have hlen : dir.length ≤ 255 := by
    rcases hdir with rfl | ⟨e, he, rfl, _⟩
    · exact Nat.zero_le _
    · exact h.fits e he
  obtain ⟨hnodup, hexact⟩ := h.shown_exact dir
  refine ⟨shown m.table dir, raidReaddir_eq h hlen, hnodup, hexact, fun n hne hname => ⟨fun hn => ?_, fun hn => ?_⟩⟩
  · obtain ⟨e, he, hpath⟩ := ((hexact n).mp hn).2.2
    exact ⟨e, he, hpath, hpath ▸ raidGetattr_entry h he⟩
  · have hfree : ¬ Has m.table (joinPath dir n) := fun hhas => hn ((hexact n).mpr ⟨hne, hname, hhas⟩)
    have hjoin : joinPath dir n ≠ [] := by
      unfold joinPath
      split
      · exact hne
      · exact List.append_ne_nil_of_right_ne_nil _ (List.cons_ne_nil _ _)
    exact raidGetattr_none hjoin hfree

/-- `mkdir /d`, `create /d/f` and five bytes in it. -/
def treeOps : List MountOp :=
  [.file (.mkdir ['/', 'd']), .file (.create ['/', 'd', '/', 'f']), .truncate ['/', 'd', '/', 'f'] 5]

def treeMount : Mount := ⟨pairSystem, [⟨['d'], true, 0⟩, ⟨['d', '/', 'f'], false, 5⟩], 0, 5⟩

theorem treeOps_tidy : Along mountStep Tidy (fuseMountVolume pairSystem []) treeOps := by
  refine along_cons rfl ⟨fun _ => by decide, (by decide : ['/', 'd'].getLast? ≠ some '/')⟩ ?_
  refine along_cons rfl ⟨fun _ => by decide, (by decide : ['/', 'd', '/', 'f'].getLast? ≠ some '/')⟩ ?_
  exact along_cons rfl True.intro True.intro

theorem raidReaddir_exact_sample :
    ∃ names, raidReaddir ['/', 'd'] treeMount.table = some (['.'] :: ['.', '.'] :: names) ∧ names.Nodup ∧ ['f'] ∈ names := by
  obtain ⟨names, h1, h2, h3, _⟩ := raidReaddir_exact pairSystem treeOps treeMount treeOps_tidy rfl ['d']
    (Or.inr ⟨⟨['d'], true, 0⟩, List.mem_cons_self .., rfl, rfl⟩)
  exact ⟨names, h1, h2, (h3 ['f']).mpr ⟨by decide, by decide, ⟨['d', '/', 'f'], false, 5⟩, by decide, rfl⟩⟩

/-- After any run of tidy calls who goes through the volume from its root comes past every file and
directory once. -/
theorem findFiles_perm (s : System) (ops : List MountOp) (m : Mount)
    (htidy : Along mountStep Tidy (fuseMountVolume s []) ops) (hrun : run mountStep (fuseMountVolume s []) ops = some m) :
    (findFiles m.table 255 []).Perm (paths m.table) := by
  have h : Navigable m.table := run_invariant (I := fun m => Navigable m.table)
    (fun m op m' hi hp hs => mountStep_navigable hi hp hs) htidy navigable_nil hrun
  rw [findFiles_eq h 255 (Nat.zero_le _)]
  apply h.rooted.walk_perm
  intro q hq
  obtain ⟨e, he, rfl⟩ := mem_paths.mp hq
  have hlen := h.fits e he
  rw [List.length_nil]
  omega

theorem findFiles_perm_sample : (findFiles treeMount.table 255 []).Perm [['d'], ['d', '/', 'f']] :=
  findFiles_perm pairSystem treeOps treeMount treeOps_tidy rfl

end RaidTest.Fuse
