import RaidTest.Service.Console

/-!
# The disks `init` picks

Each form of the arguments gives a list of disk numbers, and each disk of the list a pool file
under its letter. The lists made from the selection have no number twice; the lists made from
the arguments have what the user wrote, and `mapdrive` gives one letter to several disks.
-/

namespace RaidTest.Service
open RaidTest.Base RaidTest.Volume

/-! ### Before `init` -/

/-- The commands that choose disks and letters. -/
inductive Choice where
  | select (args : List (Option ℕ))
  | mapdrive (diskId letter : ℕ)

def Choice.run (c : Console) : Choice → Console
  | .select args => (raidSelect args c).2
  | .mapdrive diskId letter => (raidMapdrive diskId letter c).2

/-- A record of the table has no pool file yet or the one under its letter. -/
def Mapped (c : Console) : Prop :=
  ∀ k ∈ c.devices, (c.tag k).path = none ∨ (c.tag k).path = some (poolPath (c.tag k).letter)

theorem diskScanAll_fresh (found : List FoundDisk) (c : Console) {k : DiskId} (hk : k ∈ (diskScanAll found c).1) :
    ((diskScanAll found c).2.tag k).path = none := by
  obtain ⟨hle, hlt⟩ := List.mem_range'_1.mp hk
  have hin : k - c.next < found.length := (Nat.sub_lt_iff_lt_add' hle).mpr hlt
  simp only [diskScanAll]
  rw [if_pos hle, List.getElem?_eq_getElem hin]

theorem raidScan_mapped (found : List FoundDisk) (c : Console) : Mapped (raidScan found c).2 := by
  have hfresh := fun k => diskScanAll_fresh found { c.withState .disconnected with devices := [] } (k := k)
  unfold raidScan
  simp only
  generalize hr : diskScanAll found { c.withState .disconnected with devices := [] } = r at hfresh
  obtain ⟨table, t⟩ := r
  cases table with
  | nil =>
    have ht : t.devices = [] := by
      rw [← congrArg (fun r => r.2.devices) hr]
      rfl
    intro k hk
    simp only [ht] at hk
    cases hk
  | cons k table => exact fun j hj => Or.inl (hfresh j hj)

theorem deviceSelect_tag (count : ℕ) (ids : List ℕ) (c : Console) (k : DiskId) :
    ((deviceSelect count ids c).tag k).letter = (c.tag k).letter ∧
      ((deviceSelect count ids c).tag k).path = (c.tag k).path := by
  unfold deviceSelect
  split
  · exact ⟨rfl, rfl⟩
  unfold diskSelect
  split
  · exact ⟨rfl, rfl⟩
  simp only
  split <;> exact ⟨rfl, rfl⟩

theorem deviceSelect_devices (count : ℕ) (ids : List ℕ) (c : Console) :
    (deviceSelect count ids c).devices = c.devices ∧ (deviceSelect count ids c).session = c.session := by
  unfold deviceSelect
  split <;> exact ⟨rfl, rfl⟩

theorem deviceMapDrive_mapped {diskId letter : ℕ} {c t : Console} (h : deviceMapDrive diskId letter c = some t)
    (hc : Mapped c) : Mapped t ∧ t.devices = c.devices := by
  unfold deviceMapDrive at h
  split at h
  · obtain ⟨tag, htag, rfl⟩ := Option.map_eq_some_iff.mp h
    refine ⟨fun k hk => ?_, rfl⟩
    simp only [Console.setTag]
    unfold diskMapDrive at htag
    split at htag
    · obtain rfl := Option.some.inj htag
      split
      · exact Or.inr rfl
      · exact hc k hk
    · cases htag
  · cases h

theorem choice_mapped {c : Console} (hc : Mapped c) (op : Choice) : Mapped (op.run c) := by
  cases op with
  | select args =>
    simp only [Choice.run, raidSelect]
    split
    · exact hc
    split
    · exact hc
    split
    · exact hc
    · next ids _ =>
      intro k hk
      obtain ⟨h1, h2⟩ := deviceSelect_tag args.length ids c k
      rw [(deviceSelect_devices args.length ids c).1] at hk
      rw [h1, h2]
      exact hc k hk
  | mapdrive diskId letter =>
    simp only [Choice.run, raidMapdrive]
    split
    · exact hc
    split
    · exact hc
    split
    · exact hc
    · next hm => exact (deviceMapDrive_mapped hm hc).1

theorem choices_mapped (choices : List Choice) {c : Console} (hc : Mapped c) : Mapped (choices.foldl Choice.run c) := by
  induction choices generalizing c with
  | nil => exact hc
  | cons op choices ih => exact ih (choice_mapped hc op)

/-! ### The list of numbers -/

/-- The records of the table keep their letters, and get at most the pool file under them. -/
structure Remapped (c t : Console) : Prop where
  session : t.session = c.session
  devices : t.devices = c.devices
  letter : ∀ k, (t.tag k).letter = (c.tag k).letter
  mapped : Mapped c → Mapped t

theorem Remapped.refl (c : Console) : Remapped c c := ⟨rfl, rfl, fun _ => rfl, id⟩

theorem Remapped.trans {c t u : Console} (h : Remapped c t) (h' : Remapped t u) : Remapped c u :=
  ⟨h'.session.trans h.session, h'.devices.trans h.devices, fun k => (h'.letter k).trans (h.letter k),
    fun hc => h'.mapped (h.mapped hc)⟩

theorem ensureDriveMapped_remapped (di : ℕ) (c : Console) : Remapped c (ensureDriveMapped di c).2 := by
  unfold ensureDriveMapped
  split
  · exact Remapped.refl c
  next hdi =>
  simp only
  split
  · exact Remapped.refl c
  split
  · next hletter =>
    have hmap : deviceMapDrive di (c.tag (c.device di)).letter c = some (c.setTag (c.device di)
        { c.tag (c.device di) with path := some (poolPath (c.tag (c.device di)).letter) }) := by
      unfold deviceMapDrive diskMapDrive
      rw [if_pos (Nat.not_le.mp hdi), if_pos hletter]
      rfl
    rw [hmap, Option.getD_some]
    refine ⟨rfl, rfl, fun k => ?_, fun hc => (deviceMapDrive_mapped hmap hc).1⟩
    simp only [Console.setTag]
    split
    · next hk => rw [hk]
    · rfl
  · exact Remapped.refl c

theorem ensureEach_remapped (ids : List ℕ) (c : Console) : Remapped c (ensureEach ids c) := by
  induction ids generalizing c with
  | nil => exact Remapped.refl c
  | cons di ids ih => exact (ensureDriveMapped_remapped di c).trans (ih _)

theorem deviceSelect_remapped (count : ℕ) (ids : List ℕ) (c : Console) : Remapped c (deviceSelect count ids c) := by
  obtain ⟨h1, h2⟩ := deviceSelect_devices count ids c
  refine ⟨h2, h1, fun k => (deviceSelect_tag count ids c k).1, fun hc k hk => ?_⟩
  rw [(deviceSelect_tag count ids c k).1, (deviceSelect_tag count ids c k).2]
  exact hc k (h1 ▸ hk)

/-- The numbers of the disks that `init` makes pools on. -/
def pickedIds (args : List PoolArg) (c : Console) : List ℕ :=
  let written := (args.filterMap PoolArg.id).take maxDisks
  if args.any PoolArg.hasColon then written
  else
    match args with
    | [] => c.selected.take maxDisks
    | [arg] => if c.devices.length ≤ arg.id.getD 4294967295 then c.selected.take maxDisks else written
    | _ => written

theorem fromPairs_remapped (args : List PoolArg) :
    ∀ (pp : List (ℕ × ℕ)) (c : Console), Remapped c (initPoolsFromPairs args pp c).2.2 := by
  induction args with
  | nil => intro pp c; exact Remapped.refl c
  | cons arg args ih =>
    intro pp c
    unfold initPoolsFromPairs
    split
    · exact Remapped.refl c
    split
    · exact Remapped.refl c
    · exact Remapped.refl c
    · exact Remapped.refl c
    next di mb =>
    split
    · exact Remapped.refl c
    split
    · exact Remapped.refl c
    split
    · exact Remapped.refl c
    have hensure := ensureDriveMapped_remapped di c
    generalize ensureDriveMapped di c = r at hensure
    obtain ⟨rc, u⟩ := r
    cases rc with
    | ok => exact hensure.trans (ih _ u)
    | _ => exact hensure

theorem selected_remapped (size : ℕ → ℕ) (c : Console) : Remapped c (initPoolsSelected size c).2.2 := by
  unfold initPoolsSelected
  split
  · exact Remapped.refl c
  · exact ensureEach_remapped _ c

theorem fromIds_remapped (args : List PoolArg) (c : Console) : Remapped c (initPoolsFromIds args c).2.2 := by
  unfold initPoolsFromIds
  split
  · exact Remapped.refl c
  · exact (deviceSelect_remapped _ _ c).trans (ensureEach_remapped _ _)

/-- Whatever form the arguments have, the picking changes letters at most in their files. -/
theorem pick_remapped (args : List PoolArg) (c : Console) : Remapped c (initPoolsPick args c).2.2 := by
  unfold initPoolsPick
  split
  · exact fromPairs_remapped args [] c
  split
  · exact selected_remapped _ c
  · split
    · split
      · exact selected_remapped _ c
      · exact Remapped.refl c
    · exact fromIds_remapped _ c
  · exact fromIds_remapped _ c

theorem fromPairs_picked {args : List PoolArg} {pp : List (ℕ × ℕ)} {c t : Console} {pp' : List (ℕ × ℕ)}
    (h : initPoolsFromPairs args pp c = (.ok, pp', t)) (hpp : pp.length ≤ maxDisks) :
    pp'.map Prod.fst = (pp.map Prod.fst ++ args.filterMap PoolArg.id).take maxDisks := by
  have hshort : (pp.map Prod.fst).length ≤ maxDisks := by rwa [List.length_map]
  induction args generalizing pp c with
  | nil =>
    unfold initPoolsFromPairs at h
    obtain ⟨_, h⟩ := Prod.mk.inj h
    obtain ⟨rfl, rfl⟩ := Prod.mk.inj h
    rw [List.filterMap_nil, List.append_nil, List.take_of_length_le hshort]
  | cons arg args ih =>
    unfold initPoolsFromPairs at h
    split at h
    · next hfull =>
      obtain ⟨_, h⟩ := Prod.mk.inj h
      obtain ⟨rfl, rfl⟩ := Prod.mk.inj h
      have hlen : (pp.map Prod.fst).length = maxDisks := by
        rw [List.length_map]
        omega
      rw [List.take_append_of_le_length (Nat.le_of_eq hlen.symm), List.take_of_length_le hshort]
    next hroom =>
    split at h
    · cases h
    · cases h
    · cases h
    next di mb =>
    split at h
    · cases h
    split at h
    · cases h
    split at h
    · cases h
    generalize ensureDriveMapped di c = r at h
    obtain ⟨rc, u⟩ := r
    cases rc with
    | ok =>
      have hlen : (pp ++ [(di, mb)]).length ≤ maxDisks := by
        rw [List.length_append, List.length_singleton]
        omega
      have hrest := ih h hlen (by rwa [List.length_map])
      rw [hrest, List.map_append, List.append_assoc]
      rfl
    | _ => cases h

theorem checkIds_written {count : ℕ} {args : List (Option ℕ)} {ids : List ℕ} (h : checkIds count args = .ok ids) :
    args = ids.map some := by
  induction args generalizing ids with
  | nil =>
    obtain rfl := Except.ok.inj h
    rfl
  | cons arg args ih =>
    cases arg with
    | none => cases h
    | some id =>
      unfold checkIds at h
      split at h
      · cases h
      cases hc : checkIds count args with
      | error rc =>
        rw [hc] at h
        cases h
      | ok ids' =>
        rw [hc] at h
        obtain rfl := Except.ok.inj h
        rw [ih hc]
        rfl

theorem checkIds_error {count : ℕ} {args : List (Option ℕ)} (h : checkIds count args = .error .ok) : False := by
  induction args with
  | nil => cases h
  | cons arg args ih =>
    cases arg with
    | none => cases h
    | some id =>
      unfold checkIds at h
      split at h
      · cases h
      cases hc : checkIds count args with
      | error rc =>
        rw [hc] at h
        obtain rfl := Except.error.inj h
        exact ih hc
      | ok ids =>
        rw [hc] at h
        cases h

theorem written_take {l : List (Option ℕ)} {ids : List ℕ} {n : ℕ} (h : l.take n = ids.map some) :
    (l.filterMap id).take n = ids := by
  have hids : (ids.map some).filterMap id = ids := by
    rw [List.filterMap_map]
    exact List.filterMap_some
  have hsplit : l.filterMap id = ids ++ (l.drop n).filterMap id := by
    have hl := congrArg (List.filterMap id) (List.take_append_drop n l)
    rw [List.filterMap_append, h, hids] at hl
    exact hl.symm
  have hlen := congrArg List.length h
  rw [List.length_take, List.length_map] at hlen
  rw [hsplit]
  by_cases hn : l.length ≤ n
  · rw [List.drop_of_length_le hn, List.filterMap_nil, List.append_nil, List.take_of_length_le (by omega)]
  · rw [List.take_append_of_le_length (by omega), List.take_of_length_le (by omega)]

theorem fromIds_picked {args : List PoolArg} {c t : Console} {pp : List (ℕ × ℕ)}
    (h : initPoolsFromIds args c = (.ok, pp, t)) :
    pp.map Prod.fst = (args.filterMap PoolArg.id).take maxDisks := by
  unfold initPoolsFromIds at h
  split at h
  · next rc hids =>
    obtain ⟨hrc, _⟩ := Prod.mk.inj h
    rw [hrc] at hids
    exact (checkIds_error hids).elim
  · next ids hids =>
    obtain ⟨_, h⟩ := Prod.mk.inj h
    obtain ⟨rfl, rfl⟩ := Prod.mk.inj h
    have hwritten := written_take (checkIds_written hids)
    rw [List.filterMap_map] at hwritten
    rw [List.map_map]
    exact (List.zipIdx_map_fst 0 ids).trans hwritten.symm

theorem fromSelected_picked {size : ℕ → ℕ} {c t : Console} {pp : List (ℕ × ℕ)}
    (h : initPoolsSelected size c = (.ok, pp, t)) : pp.map Prod.fst = c.selected.take maxDisks := by
  unfold initPoolsSelected at h
  split at h
  · cases h
  · obtain ⟨_, h⟩ := Prod.mk.inj h
    obtain ⟨rfl, rfl⟩ := Prod.mk.inj h
    rw [List.map_map]
    exact List.zipIdx_map_fst 0 _

theorem pick_picked {args : List PoolArg} {c t : Console} {pp : List (ℕ × ℕ)}
    (h : initPoolsPick args c = (.ok, pp, t)) : pp.map Prod.fst = pickedIds args c := by
  unfold initPoolsPick at h
  unfold pickedIds
  by_cases hcolon : args.any PoolArg.hasColon = true
  · rw [if_pos hcolon] at h ⊢
    exact fromPairs_picked h (Nat.zero_le _)
  rw [if_neg hcolon] at h ⊢
  -- no argument, one of them, or more
  rcases args with _ | ⟨arg, _ | ⟨arg', args⟩⟩
  · exact fromSelected_picked h
  · change (if c.devices.length ≤ arg.id.getD 4294967295 then _ else _) = _ at h
    change _ = if c.devices.length ≤ arg.id.getD 4294967295 then _ else _
    by_cases hbig : c.devices.length ≤ arg.id.getD 4294967295
    · rw [if_pos hbig] at h ⊢
      split at h
      · exact fromSelected_picked h
      · cases h
    · rw [if_neg hbig] at h ⊢
      exact fromIds_picked h
  · exact fromIds_picked h

/-! ### The pool files -/

theorem poolFileCreate_path (dr : Drives) (env : PoolEnv) (s : Pools) (disk : DiskId) (mb : ℕ)
    (h : (volumeCreatePoolFile dr env s disk mb).1 = true) : (dr.path disk).isSome = true := by
  unfold volumeCreatePoolFile at h
  split at h
  · cases h
  unfold poolFileCreate at h
  split at h
  · cases h
  · next hp => rw [hp, Option.isSome_some]

/-- The disks with a letter get their files, in the order of the list. -/
theorem createFiles_made {dr : Drives} {env : ℕ → PoolEnv} {devices : List DiskId} {pp : List (ℕ × ℕ)} :
    ∀ {i : ℕ} {made made' : List (DiskId × ℕ)} {s t : Pools},
      initPoolsCreateFiles dr env devices i pp made s = (.ok, made', t) →
        made'.map Prod.fst = made.map Prod.fst ++ ((pp.map Prod.fst).map fun di => devices.getD di 0).filter dr.letter ∧
        ∀ k ∈ made'.map Prod.fst, k ∈ made.map Prod.fst ∨ k ∈ devices ∧ (dr.path k).isSome = true := by
  induction pp with
  | nil =>
    intro i made made' s t h
    unfold initPoolsCreateFiles at h
    obtain ⟨_, h⟩ := Prod.mk.inj h
    obtain ⟨rfl, _⟩ := Prod.mk.inj h
    exact ⟨(List.append_nil _).symm, fun k hk => Or.inl hk⟩
  | cons x pp ih =>
    intro i made made' s t h
    obtain ⟨di, mb⟩ := x
    unfold initPoolsCreateFiles at h
    split at h
    · cases h
    next hdi =>
    simp only at h
    simp only [List.map_cons]
    split at h
    · next hletter =>
      rw [List.filter_cons_of_neg (by rw [hletter]; decide)]
      exact ih h
    next hletter =>
    rw [List.filter_cons_of_pos (by simpa using hletter)]
    have hpath := poolFileCreate_path dr (env i) s (devices.getD di 0) mb
    generalize volumeCreatePoolFile dr (env i) s (devices.getD di 0) mb = r at h hpath
    split at h
    swap
    · cases h
    next hmade =>
    obtain ⟨h1, h2⟩ := ih h
    rw [List.map_append] at h1 h2
    refine ⟨h1.trans (List.append_assoc _ _ _), fun k hk => ?_⟩
    rcases h2 k hk with hk | hk
    · rcases List.mem_append.mp hk with hk | hk
      · exact Or.inl hk
      · obtain rfl := List.mem_singleton.mp hk
        refine Or.inr ⟨?_, hpath hmade⟩
        rw [List.getD_eq_getElem _ _ (Nat.not_le.mp hdi)]
        exact List.getElem_mem _
    · exact Or.inr hk

/-- The letters the pools of `init` are under; a disk without one is passed over. -/
def pickedLetters (args : List PoolArg) (c : Console) : List ℕ :=
  ((pickedIds args c).map fun i => (c.tag (c.device i)).letter).filter fun letter => decide (letter ≠ 0)

/-- What `init` leaves when it succeeds. -/
theorem initPools_made {env : InitEnv} {args : List PoolArg} {c t : Console} (h : raidInitPools env args c = (.ok, t))
    (hc : Mapped c) : t.session.disks.map (fun k => (t.tag k).letter) = pickedLetters args c ∧
      ∀ k ∈ t.session.disks, (t.tag k).path = some (poolPath (t.tag k).letter) := by
  unfold raidInitPools at h
  split at h
  · cases h
  split at h
  · cases h
  generalize hu : (if c.app.state = .unmounted then c.cleanupPoolSession env.old ⟨c.info, env.file⟩
    else (c, ⟨c.info, env.file⟩)) = r at h
  obtain ⟨u, s⟩ := r
  have hsame : Mapped u ∧ pickedLetters args u = pickedLetters args c := by
    split at hu <;> obtain ⟨rfl, _⟩ := Prod.mk.inj hu <;> exact ⟨hc, rfl⟩
  simp only at h
  have hw := pick_remapped args u
  generalize hpick : initPoolsPick args u = p at h hw
  obtain ⟨rc, pp, w⟩ := p
  cases rc with
  | ok =>
    have hpp := pick_picked hpick
    simp only at h
    split at h
    · cases h
    generalize hmade : initPoolsCreateFiles w.drives env.pool w.devices 0 pp [] s = m at h
    obtain ⟨rc, made, s'⟩ := m
    cases rc with
    | ok =>
      simp only at h
      split at h
      · cases h
      obtain ⟨_, rfl⟩ := Prod.mk.inj h
      obtain ⟨h1, h2⟩ := createFiles_made hmade
      have hdisks : (made.map Prod.fst).map (fun k => (w.tag k).letter) = pickedLetters args c := by
        rw [h1, hpp, ← hsame.2]
        have hletter : ∀ i, (w.tag (w.devices.getD i 0)).letter = (u.tag (u.device i)).letter := by
          intro i
          rw [hw.letter, hw.devices]
          rfl
        have hdrive : (w.drives.letter ∘ fun i => w.devices.getD i 0) =
            (fun letter => decide (letter ≠ 0)) ∘ fun i => (u.tag (u.device i)).letter := by
          funext i
          simp only [Function.comp, Console.drives, hletter]
        unfold pickedLetters
        rw [List.map_nil, List.nil_append, List.filter_map, List.filter_map, hdrive, List.map_map]
        exact congrArg (fun f => List.map f _) (funext hletter)
      refine ⟨hdisks, fun k hk => ?_⟩
      rcases h2 k hk with hk | ⟨hk, hpath⟩
      · cases hk
      · have hmapped : (w.tag k).path = none ∨ (w.tag k).path = some (poolPath (w.tag k).letter) := hw.mapped hsame.1 k hk
        have hsome : (w.tag k).path.isSome = true := hpath
        rcases hmapped with hnone | hmapped
        · rw [hnone] at hsome
          cases hsome
        · exact hmapped
    | _ => cases h
  | _ => cases h

/-- After any choice of disks and letters on any table, the disks of a successful `init` are
different and have different pool files if and only if the disks picked have different letters. -/
theorem initPools_distinct (found : List FoundDisk) (c : Console) (choices : List Choice) (env : InitEnv)
    (args : List PoolArg) {t : Console}
    (h : raidInitPools env args (choices.foldl Choice.run (raidScan found c).2) = (.ok, t)) :
    (t.session.disks.Nodup ∧ (t.session.disks.map fun k => (t.tag k).path).Nodup) ↔
      (pickedLetters args (choices.foldl Choice.run (raidScan found c).2)).Nodup := by
  obtain ⟨hletter, hpath⟩ := initPools_made h (choices_mapped choices (raidScan_mapped found c))
  have hpaths : (t.session.disks.map fun k => (t.tag k).path) =
      (t.session.disks.map fun k => (t.tag k).letter).map fun letter => some (poolPath letter) := by
    rw [List.map_map]
    exact List.map_congr_left hpath
  have hinj : Function.Injective fun letter => some (poolPath letter) := fun _ _ he => Option.some.inj he
  rw [hpaths, List.nodup_map_iff hinj, hletter]
  constructor
  · intro hd
    exact hd.2
  · intro hd
    exact ⟨List.Nodup.of_map _ (hletter ▸ hd), hd⟩

/-! ### A disk twice, a letter twice -/

def emptyConsole : Console := .start ⟨fun _ => scannedDisk, fun _ _ => 0⟩

/-- Drives C and D. -/
def twoDrives : List FoundDisk := [⟨67, none⟩, ⟨68, none⟩]

def freshPools : InitEnv := ⟨fun _ => none, fun _ => .good, fun _ => .good⟩

/-- `init 0:1024 0:1024` makes one disk both members. With disk 1 mapped to C as well, `init 0 1` makes one file both
pools. -/
theorem initPools_distinct_fails :
    (∃ t, raidInitPools freshPools [.pair (some 0) (some 1024), .pair (some 0) (some 1024)]
        (raidScan twoDrives emptyConsole).2 = (.ok, t) ∧ t.session.disks = [4, 4]) ∧
      ∃ t, raidInitPools freshPools [.plain (some 0) (some 0), .plain (some 1) (some 1)]
          ([Choice.mapdrive 1 67].foldl Choice.run (raidScan twoDrives emptyConsole).2) = (.ok, t) ∧
        t.session.disks = [4, 5] ∧ (t.session.disks.map fun k => (t.tag k).path) = [some 67, some 67] := by
  constructor
  · exact ⟨_, rfl, rfl⟩
  · exact ⟨_, rfl, rfl, rfl⟩

theorem initPools_distinct_sample :
    ∃ t, raidInitPools freshPools [.plain (some 0) (some 0), .plain (some 1) (some 1)]
        ([].foldl Choice.run (raidScan twoDrives emptyConsole).2) = (.ok, t) ∧
      ((t.session.disks.Nodup ∧ (t.session.disks.map fun k => (t.tag k).path).Nodup) ↔
        (pickedLetters [.plain (some 0) (some 0), .plain (some 1) (some 1)]
          ([].foldl Choice.run (raidScan twoDrives emptyConsole).2)).Nodup) :=
  ⟨_, rfl, initPools_distinct twoDrives emptyConsole [] freshPools _ rfl⟩

end RaidTest.Service
