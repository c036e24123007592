import RaidTest.Metadata.Latest

/-!
# The best of all superblocks (`superblock_read`)

A load compares the superblocks it reads by generation, then timestamp, then size, and takes the
greatest. It stops reading when it has `MAX_DISKS` of them.
-/

namespace RaidTest.Metadata
open RaidTest.Base RaidTest.Stripe RaidTest.Mirror RaidTest.Cache RaidTest.Journal RaidTest.Volume RaidTest.Service

/-! ### The drives to search -/

/-- The drive that `drive_root` names, in either case; it is 0 for `NULL`. -/
def Specified (root l : Letter) : Prop :=
  (0x41 ≤ root ∧ root ≤ 0x5A ∧ l = root) ∨ (0x61 ≤ root ∧ root ≤ 0x7A ∧ l + 0x20 = root)

/-- The specified drive and the fixed ones. -/
def Searched (fixed : Letter → Bool) (root l : Letter) : Prop :=
  Specified root l ∨ (0x43 ≤ l ∧ l ≤ 0x5A ∧ fixed l = true)

/-- The drive is read while fewer than `MAX_DISKS` superblocks have been found. -/
def ReadInTime (fixed : Letter → Bool) (root : Letter) (held : Letter → Option SuperblockV4) (l : Letter) : Prop :=
  ∃ before after, scanOrder fixed root = before ++ l :: after ∧ (before.filterMap held).length < maxDisks

theorem mem_scanOrder {fixed : Letter → Bool} {root l : Letter} (h : l ∈ scanOrder fixed root) : Searched fixed root l := by
  unfold scanOrder at h
  rcases List.mem_append.mp h with h | h
  · split at h
    · next hroot =>
      obtain rfl := List.mem_singleton.mp h
      exact Or.inl (Or.inl ⟨hroot.1, hroot.2, rfl⟩)
    · exact absurd h List.not_mem_nil
  · obtain ⟨hl, hf⟩ := List.mem_filter.mp h
    have hrange := List.mem_range'_1.mp hl
    exact Or.inr ⟨hrange.1, Nat.le_of_lt_succ hrange.2, (Bool.and_eq_true _ _ ▸ hf).1⟩

theorem mem_candidates {fixed : Letter → Bool} {root : Letter} {held : Letter → Option SuperblockV4} {sb : SuperblockV4} :
    sb ∈ candidates fixed root held ↔ ∃ l, ReadInTime fixed root held l ∧ held l = some sb := by
  unfold candidates ReadInTime
  rw [mem_take_filterMap]
  constructor
  · rintro ⟨before, l, after, he, hlt, hl⟩
    exact ⟨l, ⟨before, after, he, hlt⟩, hl⟩
  · rintro ⟨l, ⟨before, after, he, hlt⟩, hl⟩
    exact ⟨before, l, after, he, hlt, hl⟩

theorem ReadInTime.searched {fixed : Letter → Bool} {root l : Letter} {held : Letter → Option SuperblockV4}
    (h : ReadInTime fixed root held l) : Searched fixed root l := by
  obtain ⟨before, after, he, _⟩ := h
  apply mem_scanOrder
  rw [he]
  exact List.mem_append_right _ (List.mem_cons_self ..)

/-! ### What is picked -/

/-- The superblock is on a drive to search, and none there is greater. -/
def Greatest (fixed : Letter → Bool) (root : Letter) (held : Letter → Option SuperblockV4) (sb : SuperblockV4) : Prop :=
  (∃ l, Searched fixed root l ∧ held l = some sb) ∧ ∀ l x, Searched fixed root l → held l = some x → rank x ≤ rank sb

/-- The load restores from the greatest superblock if and only if each one is matched by one of
the first `MAX_DISKS` that are read. -/
theorem superblockRead_greatest (fixed : Letter → Bool) (root : Letter) (env : ReadEnv) (drives : Letter → Drive) :
    (∀ opens physical r d disksOut,
      (superblockRead fixed root env drives opens physical r d disksOut = none →
        ∀ l, Searched fixed root l → (tryReadSuperblock env (drives l)).1 = none) ∧
      ∀ sb out, superblockRead fixed root env drives opens physical r d disksOut = some (sb, out) →
        out = restoreRecord opens physical sb r d disksOut ∧
          Greatest fixed root (fun l => (tryReadSuperblock env (drives l)).1) sb) ↔
      ∀ l sb, Searched fixed root l → (tryReadSuperblock env (drives l)).1 = some sb →
        ∃ k x, ReadInTime fixed root (fun l => (tryReadSuperblock env (drives l)).1) k ∧
          (tryReadSuperblock env (drives k)).1 = some x ∧ rank sb ≤ rank x := by
  have hheld : ∃ held : Letter → Option SuperblockV4, ∀ l, (tryReadSuperblock env (drives l)).1 = held l := ⟨_, fun _ => rfl⟩
  obtain ⟨held, hheld⟩ := hheld
  unfold superblockRead Greatest
  simp only [hheld]
  constructor
  · intro hread l sb hl hsb
    obtain ⟨hnone, hsome⟩ := hread (fun _ => true) [] ⟨.zero, 0, 0, 0, 0, 0⟩ ⟨fun _ => ⟨0, 0, 0, false, false, false, false, 0, false⟩, fun _ _ => 0⟩ id
    cases hpick : pickBest picks (candidates fixed root held) with
    | none =>
      rw [hpick] at hnone
      have hno := hnone rfl l hl
      rw [hsb] at hno
      cases hno
    | some best =>
      rw [hpick] at hsome
      obtain ⟨_, _, hgreatest⟩ := hsome best _ rfl
      obtain ⟨k, hk, hbest⟩ := mem_candidates.mp ((pickBest_iff picks_iff _ best).mp hpick).mem
      exact ⟨k, best, hk, hbest, hgreatest l sb hl hsb⟩
  · intro hmatched opens physical r d disksOut
    constructor
    · intro hnone l hl
      have hempty := pickBest_none.mp (Option.map_eq_none_iff.mp hnone)
      cases hsb : held l with
      | none => rfl
      | some sb =>
        obtain ⟨k, x, hk, hx, _⟩ := hmatched l sb hl hsb
        have hmem := mem_candidates.mpr ⟨k, hk, hx⟩
        rw [hempty] at hmem
        exact absurd hmem List.not_mem_nil
    · intro sb out hsome
      obtain ⟨best, hpick, he⟩ := Option.map_eq_some_iff.mp hsome
      obtain ⟨rfl, rfl⟩ := Prod.mk.inj he
      have hgreatest := (pickBest_iff picks_iff _ best).mp hpick
      obtain ⟨k, hk, hbest⟩ := mem_candidates.mp hgreatest.mem
      refine ⟨rfl, ⟨k, hk.searched, hbest⟩, fun l x hl hx => ?_⟩
      obtain ⟨j, y, hj, hy, hle⟩ := hmatched l x hl hx
      exact hle.trans (hgreatest.le y (mem_candidates.mpr ⟨j, hj, hy⟩))

/-! ### Five drives -/

/-- A superblock that differs from others by its generation. -/
def numbered (generation : ℕ) : SuperblockV4 :=
  { SuperblockV4.zero with magic := superblockMagic, version := superblockVersion, generation := generation }

/-- `C` to `G`, each with a superblock that is newer than the one before. -/
def fiveDrives (l : Letter) : Drive := ⟨some (numbered (l - 0x42)).image, none⟩

def isCToG (l : Letter) : Bool := decide (0x43 ≤ l ∧ l ≤ 0x47)

theorem fiveDrives_read (l : Letter) : (tryReadSuperblock .good (fiveDrives l)).1 = some (numbered (l - 0x42)).stored :=
  read_written rfl rfl ⟨Or.inl rfl, fun _ h => absurd h (Option.some_ne_none _).symm⟩ ⟨rfl, rfl⟩

/-- The newest one is on `G`, and the load takes the one from `F`. -/
theorem superblockRead_greatest_fails : ∃ sb out newest,
    superblockRead isCToG 0x43 .good fiveDrives (fun _ => true) [] (Archive.empty threePools).record threePools id =
      some (sb, out) ∧
    Searched isCToG 0x43 0x47 ∧ (tryReadSuperblock .good (fiveDrives 0x47)).1 = some newest ∧ rank sb < rank newest := by
  have hcand : candidates isCToG 0x43 (fun l => (tryReadSuperblock .good (fiveDrives l)).1) =
      [(numbered 1).stored, (numbered 2).stored, (numbered 3).stored, (numbered 4).stored] := by
    have horder : scanOrder isCToG 0x43 = [0x43, 0x44, 0x45, 0x46, 0x47] := by decide
    unfold candidates
    rw [horder]
    simp only [fiveDrives_read]
    rfl
  have hrank : ∀ m n, m < n → n < 256 ^ 8 → rank (numbered m).stored < rank (numbered n).stored := by
    intro m n hlt hn
    refine Prod.Lex.toLex_lt_toLex.mpr (Or.inl ?_)
    simp only [stored_generation, numbered]
    rw [Codec.num_cut hn, Codec.num_cut (hlt.trans hn)]
    exact hlt
  have hpick : pickBest picks (candidates isCToG 0x43 fun l => (tryReadSuperblock .good (fiveDrives l)).1) =
      some (numbered 4).stored := by
    rw [pickBest_iff picks_iff, hcand]
    refine ⟨[_, _, _], [], rfl, fun x hx => ?_, fun x hx => absurd hx List.not_mem_nil⟩
    simp only [List.mem_cons, List.not_mem_nil, or_false] at hx
    rcases hx with rfl | rfl | rfl
    · exact hrank 1 4 (by decide) (by decide)
    · exact hrank 2 4 (by decide) (by decide)
    · exact hrank 3 4 (by decide) (by decide)
  exact ⟨_, _, _, congrArg (Option.map _) hpick, Or.inr (by decide), fiveDrives_read 0x47,
    hrank 4 5 (by decide) (by decide)⟩

end RaidTest.Metadata
