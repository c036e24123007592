import RaidTest.Fuse.Table

/-!
# Renaming a directory

`raid_rename` gives one entry its new path and goes through the table for the paths below the
old one. It does not look whether the new path is below the old one, and a path that gets too
long stays.
-/

namespace RaidTest.Fuse
open RaidTest.Base

/-! ### What a renaming does -/

/-- `raid_rename` either finds a reason not to rename, or it renames the first entry with the path. -/
theorem raidRename_cases (source target : List Char) (t : FileTable) :
    (∃ err, raidRename source target t = (some err, t) ∧
      ¬ (stripPath source ≠ [] ∧ Renames t (stripPath source) (stripPath target))) ∨
    ∃ idx d, findOpenFile t (stripPath source) = some idx ∧ t[idx]? = some d ∧ d.fullPath = stripPath source ∧
      (stripPath source ≠ [] ∧ Renames t (stripPath source) (stripPath target)) ∧
      raidRename source target t = (none, renamedTable t idx d.isDir (stripPath source) (stripPath target)) := by
  generalize hsrc : stripPath source = src
  generalize hdst : stripPath target = dst
  unfold raidRename
  simp only [hsrc, hdst]
  split
  · next hnil => exact Or.inl ⟨_, rfl, fun hr => hnil.elim hr.1 hr.2.1⟩
  next hnil =>
  rw [not_or] at hnil
  split
  · next hlong =>
    refine Or.inl ⟨_, rfl, fun hr => ?_⟩
    have h1 := hr.2.2.1
    have h2 := hr.2.2.2.1
    omega
  next hlong =>
  split
  · next hparent => exact Or.inl ⟨_, rfl, fun hr => Bool.noConfusion (hr.2.2.2.2.2.2.symm.trans hparent)⟩
  next hparent =>
  rw [Bool.not_eq_false] at hparent
  cases hf : findOpenFile t src with
  | none => exact Or.inl ⟨_, rfl, fun hr => absurd hr.2.2.2.2.1 (findOpenFile_none.mp hf)⟩
  | some idx =>
    obtain ⟨d, hd, hpath⟩ := findOpenFile_some hf
    simp only
    split
    · next hthere =>
      refine Or.inl ⟨_, rfl, fun hr => ?_⟩
      rw [findOpenFile_none.mpr hr.2.2.2.2.2.1] at hthere
      cases hthere
    next hfree =>
    rw [Bool.not_eq_true, Option.isSome_eq_false_iff, Option.isNone_iff_eq_none] at hfree
    -- the path of a directory is at most 254 characters long here
    rw [if_neg (by omega), hd, Option.any_some]
    exact Or.inr ⟨idx, d, rfl, hd, hpath, ⟨hnil.1, hnil.2, by omega, by omega, ⟨d, List.mem_of_getElem? hd, hpath⟩,
      findOpenFile_none.mp hfree, hparent⟩, rfl⟩

/-! ### The subtree -/

/-- What was at `src` or below it is at `dst` or below it, with what it was; the other entries stay, and nothing is
at `src` or below it. -/
structure Moves (t t' : FileTable) (src dst : List Char) : Prop where
  moved : t' = t.map (FileEntry.renamed src dst)
  gone : ∀ e ∈ t', e.fullPath ≠ src ∧ ¬ Under '/' src e.fullPath

/-- An error leaves the table, and a directory that is renamed takes along what is below it. -/
def RenameMoves (source target : List Char) (t : FileTable) : Prop :=
  ((raidRename source target t).1 ≠ none → (raidRename source target t).2 = t) ∧
  ((raidRename source target t).1 = none → isDirByPath t (stripPath source) = true →
    Moves t (raidRename source target t).2 (stripPath source) (stripPath target))

/-- Only one entry has the path. -/
def Sole (t : FileTable) (p : List Char) : Prop :=
  ∀ (i j : ℕ) (x y : FileEntry), t[i]? = some x → t[j]? = some y → x.fullPath = p → y.fullPath = p → i = j

/-- When `src` is `dst/r`, nothing is at `src/r` or below it. -/
def NoRepeat (t : FileTable) (src dst : List Char) : Prop :=
  ∀ r, src = dst ++ '/' :: r → ∀ e ∈ t, e.fullPath ≠ src ++ '/' :: r ∧ ¬ Under '/' (src ++ '/' :: r) e.fullPath

structure RenameSafe (t : FileTable) (src dst : List Char) : Prop where
  sole : Sole t src
  outside : ¬ Under '/' src dst
  fits : FitsBelow t src dst
  fresh : NoRepeat t src dst

/-- What the loop leaves is there afterwards. -/
theorem renamedTable_stays {t : FileTable} {idx : ℕ} {isDir : Bool} {src dst : List Char} {i : ℕ} {e : FileEntry}
    (he : t[i]? = some e) (hi : i ≠ idx) (hstays : renameBelow src dst e = e) : e ∈ renamedTable t idx isDir src dst := by
  apply List.mem_of_getElem? (i := i)
  rw [renamedTable, List.getElem?_mapIdx, he, Option.map_some, if_neg hi, hstays, ite_self]

/-- With one entry at `src`, the loop renames as `moved` says. -/
theorem renamedTable_sole {t : FileTable} {src dst : List Char} (hsole : Sole t src) (hfit : FitsBelow t src dst)
    {idx : ℕ} {d : FileEntry} (hd : t[idx]? = some d) (hsrc : d.fullPath = src) :
    renamedTable t idx true src dst = t.map (FileEntry.renamed src dst) := by
  apply List.ext_getElem?
  intro i
  rw [renamedTable, List.getElem?_mapIdx, List.getElem?_map]
  cases he : t[i]? with
  | none => rfl
  | some e =>
    rw [Option.map_some, Option.map_some]
    by_cases hi : i = idx
    · subst hi
      rw [hd] at he
      obtain rfl := Option.some.inj he
      rw [if_pos rfl, FileEntry.renamed, hsrc, moved_src]
    · have hne : e.fullPath ≠ src := fun hp => hi (hsole i idx e d he hd hp hsrc)
      rw [if_neg hi, if_pos rfl, renameBelow_fits hne (hfit e (List.mem_of_getElem? he))]

/-- Whatever the table, the subtree moves exactly when nothing keeps a part of it where it was. -/
theorem renamedTable_moves {t : FileTable} {src dst : List Char} (hfree : ¬ Has t dst) {idx : ℕ} {d : FileEntry}
    (hd : t[idx]? = some d) (hsrc : d.fullPath = src) :
    Moves t (renamedTable t idx true src dst) src dst ↔ RenameSafe t src dst := by
  have hmem := List.mem_of_getElem? hd
  have hhas : Has t src := ⟨d, hmem, hsrc⟩
  have hne : dst ≠ src := fun he => hfree (he ▸ hhas)
  constructor
  · rintro ⟨hmoved, hgone⟩
    have hin : ∀ {e}, e ∈ t → e.renamed src dst ∈ renamedTable t idx true src dst := by
      intro e he
      rw [hmoved]
      exact List.mem_map_of_mem he
    refine ⟨?_, ?_, ?_, ?_⟩
    · intro i j x y hx hy hxp hyp
      -- a second entry at `src` is left by the loop
      have hleft : ∀ k z, t[k]? = some z → z.fullPath = src → k = idx := by
        intro k z hz hzp
        by_contra hk
        have hbelow : renameBelow src dst z = z := by
          unfold renameBelow
          rw [if_neg]
          rw [List.isPrefixOf_iff_prefix, ← under_iff_prefix, hzp]
          exact fun hu => Nat.lt_irrefl _ hu.length
        exact (hgone z (renamedTable_stays hz hk hbelow)).1 hzp
      rw [hleft i x hx hxp, hleft j y hy hyp]
    · intro hu
      have hd' := hgone _ (hin hmem)
      rw [FileEntry.renamed, hsrc, moved_src] at hd'
      exact hd'.2 hu
    · intro e he hu
      by_contra hlong
      have hlt := hu.length
      obtain ⟨i, hi⟩ := List.mem_iff_getElem?.mp he
      have hidx : i ≠ idx := by
        rintro rfl
        rw [hd] at hi
        obtain rfl := Option.some.inj hi
        rw [hsrc] at hlt
        exact Nat.lt_irrefl _ hlt
      have hbelow : renameBelow src dst e = e := by
        unfold renameBelow
        split
        · simp only [List.length_drop]
          rw [if_pos (by omega)]
        · rfl
      exact (hgone e (renamedTable_stays hi hidx hbelow)).2 hu
    · intro r hr e he
      -- `src/r` goes to `dst/r`, which is `src`
      have hback : ∀ s, moved '/' src dst (src ++ '/' :: (r ++ s)) = src ++ s := by
        intro s
        rw [moved_under, ← List.cons_append, ← List.append_assoc, ← hr]
      constructor
      · intro hp
        have hpath := hback []
        rw [List.append_nil, List.append_nil, ← hp] at hpath
        exact (hgone _ (hin he)).1 hpath
      · rintro ⟨u, hu⟩
        have hpath := hback ('/' :: u)
        rw [← List.cons_append, ← List.append_assoc, ← hu] at hpath
        exact (hgone _ (hin he)).2 ⟨u, hpath⟩
  · intro hsafe
    have heq := renamedTable_sole hsafe.sole hsafe.fits hd hsrc
    refine ⟨heq, ?_⟩
    intro e' he'
    rw [heq] at he'
    obtain ⟨e, he, rfl⟩ := List.mem_map.mp he'
    show moved '/' src dst e.fullPath ≠ src ∧ ¬ Under '/' src (moved '/' src dst e.fullPath)
    by_cases hp : e.fullPath = src
    · rw [hp, moved_src]
      exact ⟨hne, hsafe.outside⟩
    by_cases hu : Under '/' src e.fullPath
    · obtain ⟨s, hs⟩ := hu
      rw [hs, moved_under]
      constructor
      · intro hback
        apply (hsafe.fresh s hback.symm e he).1
        exact hs
      · rintro ⟨u, hback⟩
        rcases under_meet hback with heq | hin | ⟨v, hv, rfl⟩
        · exact hne heq
        · exact hsafe.outside hin
        · apply (hsafe.fresh v hv e he).2
          exact ⟨u, by rw [hs, List.append_assoc, List.cons_append]⟩
    · rw [moved_other hp hu]
      exact ⟨hp, hu⟩

/-- A directory takes along what is below it exactly when it has its path alone, does not go into itself, every path
below it fits, and what is below it does not come to lie where it was. -/
theorem raidRename_moves (source target : List Char) (t : FileTable) :
    RenameMoves source target t ↔
      (stripPath source ≠ [] → Renames t (stripPath source) (stripPath target) →
        isDirByPath t (stripPath source) = true → RenameSafe t (stripPath source) (stripPath target)) := by
  unfold RenameMoves
  rcases raidRename_cases source target t with ⟨err, he, hnot⟩ | ⟨idx, d, hf, hd, hpath, hr, he⟩
  · rw [he]
    constructor
    · intro _ hne hren
      exact absurd ⟨hne, hren⟩ hnot
    · intro _
      exact ⟨fun _ => rfl, fun hok => absurd hok (Option.some_ne_none _)⟩
  · have hdir : isDirByPath t (stripPath source) = d.isDir := by
      unfold isDirByPath
      rw [hf, Option.bind_some, hd, Option.any_some]
    rw [he, hdir]
    simp only [ne_eq, not_true_eq_false, false_implies, true_and, forall_const]
    constructor
    · intro h _ _ hisDir
      rw [hisDir] at h
      exact (renamedTable_moves hr.2.2.2.2.2.1 hd hpath).mp (h rfl)
    · intro h hisDir
      rw [hisDir]
      exact (renamedTable_moves hr.2.2.2.2.2.1 hd hpath).mpr (h hr.1 hr.2 hisDir)

/-- In a tree two of the four hold of themselves. -/
theorem TableOk.renameSafe {t : FileTable} (h : TableOk t) {src dst : List Char} (hhas : Has t src)
    (hfree : ¬ Has t dst) : RenameSafe t src dst ↔ ¬ Under '/' src dst ∧ FitsBelow t src dst := by
  constructor
  · intro hs
    exact ⟨hs.outside, hs.fits⟩
  · rintro ⟨hin, hfit⟩
    refine ⟨?_, hin, hfit, ?_⟩
    · intro i j x y hx hy hxp hyp
      exact h.index hx hy (hxp.trans hyp.symm)
    · intro r hr
      exact absurd ⟨r, hr⟩ (h.tree.free hfree hhas)

/-- `mkdir /d`, `create /d/f` and `rename /d /d/x`: the directory is at `d/x`, and so below `d`. -/
theorem raidRename_moves_fails :
    (run fileStep [] [.mkdir ['/', 'd'], .create ['/', 'd', '/', 'f']] =
      some [⟨['d'], true, 0⟩, ⟨['d', '/', 'f'], false, 0⟩]) ∧
    raidRename ['/', 'd'] ['/', 'd', '/', 'x'] [⟨['d'], true, 0⟩, ⟨['d', '/', 'f'], false, 0⟩] =
      (none, [⟨['d', '/', 'x'], true, 0⟩, ⟨['d', '/', 'x', '/', 'f'], false, 0⟩]) ∧
    ¬ RenameMoves ['/', 'd'] ['/', 'd', '/', 'x'] [⟨['d'], true, 0⟩, ⟨['d', '/', 'f'], false, 0⟩] := by
  refine ⟨rfl, rfl, ?_⟩
  rintro ⟨_, hmoves⟩
  exact ((hmoves rfl rfl).gone ⟨['d', '/', 'x'], true, 0⟩ (List.mem_cons_self ..)).2 ⟨['x'], rfl⟩

end RaidTest.Fuse
