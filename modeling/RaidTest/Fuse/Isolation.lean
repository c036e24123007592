import RaidTest.Fuse.ShortWrite

/-!
# Files of one mount

An entry of the file table has a name and a size, but no place: byte `x` of every file is byte `x`
of the volume. A file keeps its bytes as long as the writes to the others begin past its end.
-/

namespace RaidTest.Fuse
open RaidTest.Base RaidTest.Stripe RaidTest.Cache RaidTest.Mirror

/-! ### Calls -/

inductive FileCall where
  | openPath (path : List Char) (creat : Bool)
  | sized (op : SizeOp)

def callStep (m : Mount) : FileCall → Option Mount
  | .openPath path creat => some { m with table := (raidOpen path creat m.table).2 }
  | .sized op => sizeStep m op

/-- The path a call names. -/
def FileCall.path : FileCall → List Char
  | .openPath path _ => path
  | .sized (.create path) => path
  | .sized (.write _ path _ _ _) => path
  | .sized (.truncate path _) => path
  | .sized (.unlink path) => path

/-- The call names another path than that of `a`, and writes nothing below the end of `a`. -/
def LeavesAlone (a : FileEntry) (m : Mount) (call : FileCall) : Prop :=
  stripPath call.path ≠ a.fullPath ∧
    match call with
    | .sized (.write _ _ _ size offset) => size.toNat < 2^63 ∧
        (offset.toNat < m.sys.v.virtualTotalBytes → size ≠ 0 → a.size ≤ offset.toNat)
    | _ => True

/-! ### The entry -/

/-- The entry is in the table, and what has its path is the entry. -/
def KeepsEntry (t : FileTable) (a : FileEntry) : Prop := a ∈ t ∧ ∀ e ∈ t, e.fullPath = a.fullPath → e = a

section Entry
variable {t : FileTable} {a : FileEntry} (h : KeepsEntry t a)
include h

theorem KeepsEntry.fileNamed : fileNamed t a.fullPath = some a := by
  cases hf : findOpenFile t a.fullPath with
  | none => exact absurd ⟨a, h.1, rfl⟩ (findOpenFile_none.mp hf)
  | some idx =>
    obtain ⟨e, he, hp⟩ := findOpenFile_some hf
    rw [fileNamed_some hf he, h.2 e (List.mem_of_getElem? he) hp]

theorem KeepsEntry.add {e : FileEntry} (hne : e.fullPath ≠ a.fullPath) : KeepsEntry (t ++ [e]) a := by
  refine ⟨List.mem_append_left _ h.1, fun x hx hp => ?_⟩
  rcases List.mem_append.mp hx with hx | hx
  · exact h.2 x hx hp
  · rw [List.mem_singleton.mp hx] at hp
    exact absurd hp hne

theorem KeepsEntry.remove {idx : ℕ} {e : FileEntry} (he : t[idx]? = some e) (hne : e.fullPath ≠ a.fullPath) :
    KeepsEntry (removeOpenFile t idx) a := by
  have hidx := (List.getElem?_eq_some_iff.mp he).1
  have hmem : ∀ x, x ∈ removeOpenFile t idx ↔ ∃ i, i ≠ idx ∧ t[i]? = some x := fun x => by
    rw [(removeOpenFile_perm hidx).mem_iff, List.mem_eraseIdx_iff_getElem?]
  refine ⟨(hmem a).mpr ?_, fun x hx hp => ?_⟩
  · obtain ⟨i, hi⟩ := List.mem_iff_getElem?.mp h.1
    refine ⟨i, ?_, hi⟩
    rintro rfl
    rw [he] at hi
    exact hne (congrArg FileEntry.fullPath (Option.some.inj hi))
  · obtain ⟨i, _, hi⟩ := (hmem x).mp hx
    exact h.2 x (List.mem_of_getElem? hi) hp

theorem KeepsEntry.modify {idx : ℕ} {e : FileEntry} (he : t[idx]? = some e) (hne : e.fullPath ≠ a.fullPath)
    {f : FileEntry → FileEntry} (hf : ∀ x, (f x).fullPath = x.fullPath) : KeepsEntry (t.modify idx f) a := by
  constructor
  · obtain ⟨i, hi⟩ := List.mem_iff_getElem?.mp h.1
    have hother : idx ≠ i := by
      rintro rfl
      rw [he] at hi
      exact hne (congrArg FileEntry.fullPath (Option.some.inj hi))
    apply List.mem_of_getElem? (i := i)
    rw [List.getElem?_modify, hi, Option.map_eq_map, Option.map_some, if_neg hother]
  · intro x hx hp
    obtain ⟨i, hi⟩ := List.mem_iff_getElem?.mp hx
    rw [List.getElem?_modify, Option.map_eq_map, Option.map_eq_some_iff] at hi
    obtain ⟨y, hy, hxy⟩ := hi
    split at hxy
    · next hidx =>
      subst hidx
      rw [he] at hy
      obtain rfl := Option.some.inj hy
      rw [← hxy, hf] at hp
      exact absurd hp hne
    · obtain rfl := hxy
      exact h.2 y (List.mem_of_getElem? hy) hp

theorem KeepsEntry.addNew {p : List Char} (hp : p ≠ []) (hne : p ≠ a.fullPath) (isDir : Bool) :
    KeepsEntry (addNew p isDir t).2 a := by
  rcases addNew_cases t hp isDir with ⟨_, _, he⟩ | ⟨_, he⟩
  · rw [he]
    exact h.add hne
  · rw [he]
    exact h

theorem KeepsEntry.create {path : List Char} (hne : stripPath path ≠ a.fullPath) : KeepsEntry (raidCreate path t).2 a := by
  unfold raidCreate
  split
  · exact h
  · next hp => exact h.addNew hp hne false

theorem KeepsEntry.growFile {name : List Char} (hne : name ≠ a.fullPath) (writeEnd : ℕ) :
    KeepsEntry (growFile t name writeEnd) a := by
  unfold Fuse.growFile
  cases hf : findOpenFile t name with
  | none => exact h
  | some idx =>
    obtain ⟨e, he, rfl⟩ := findOpenFile_some hf
    refine h.modify he hne fun x => ?_
    split <;> rfl

theorem KeepsEntry.unlink {path : List Char} (hne : stripPath path ≠ a.fullPath) :
    KeepsEntry (raidUnlink path t).2.1 a := by
  unfold raidUnlink
  simp only
  split
  · exact h
  split
  · exact h
  · next idx hf =>
    obtain ⟨e, he, hp⟩ := findOpenFile_some hf
    exact h.remove he (hp ▸ hne)

theorem KeepsEntry.truncate {m : Mount} (hm : m.table = t) {path : List Char} (hne : stripPath path ≠ a.fullPath)
    (size : ℕ) : KeepsEntry (raidTruncate path size m).2.table a := by
  subst hm
  unfold raidTruncate
  simp only
  split
  · exact h
  split
  · exact h
  · next idx hf =>
    obtain ⟨e, he, hp⟩ := findOpenFile_some hf
    have hset : KeepsEntry (m.table.modify idx fun e => { e with size := size }) a :=
      h.modify he (hp ▸ hne) fun _ => rfl
    split
    · exact hset
    split
    · exact hset
    · exact hset

theorem KeepsEntry.written {m : Mount} (hm : m.table = t) {path : List Char} (hne : stripPath path ≠ a.fullPath)
    (offset : ℕ) (ok : Bool) (total : ℕ) (s : System) : KeepsEntry (raidWritten path offset m ok total s).2.table a := by
  subst hm
  rw [(raidWritten_consumed path offset m ok total s).2.2]
  split
  · exact h.growFile hne _
  · exact h

end Entry

/-! ### Steps and runs -/

theorem raidTruncate_sys (path : List Char) (size : ℕ) (m : Mount) : (raidTruncate path size m).2.sys = m.sys := by
  unfold raidTruncate
  simp only
  split
  · rfl
  split
  · rfl
  split
  · rfl
  split <;> rfl

/-- The volume is as it was laid out, the entry is in the table, and below its end a read finds `data`. -/
structure Holds (v : StripeVolume) (a : FileEntry) (data : Buf) (m : Mount) : Prop where
  same : SameServed v m.sys.v
  entry : KeepsEntry m.table a
  shows : ∀ x < a.size, x < v.virtualTotalBytes → Visible m.sys.v m.sys.d x (data x)

theorem raidWrite_holds {v : StripeVolume} (hv : Servable v) {a : FileEntry} {data : Buf} {m t : Mount}
    (h : Holds v a data m) {env : ℕ → ChunkEnv} {path : List Char} {buffer : Buf} {size offset : ℕ} {n : ℤ}
    (hne : stripPath path ≠ a.fullPath) (hsize : size < 2^63)
    (hpast : offset < m.sys.v.virtualTotalBytes → size ≠ 0 → a.size ≤ offset)
    (hw : raidWrite env path buffer size offset m = some (n, t)) : Holds v a data t := by
  have hm := h.same.servable hv
  have htotal := hm.total
  have hsame := h.same.layout.total
  by_cases hin : offset < m.sys.v.virtualTotalBytes
  · have hlen := writeLength_eq htotal hsize hin
    rw [raidWrite_length hin] at hw
    generalize writeLength m size offset = len at hlen hw
    obtain ⟨⟨ok, total, s⟩, hloop, hr⟩ := Option.map_eq_some_iff.mp hw
    simp only at hr
    have hshown := raidWriteLoop_shown hm (by omega) hloop
    have hentry := h.entry.written rfl hne offset ok total s
    have hsys := raidWritten_sys path offset m ok total s
    rw [hr] at hentry hsys
    simp only at hentry hsys
    rw [← hsys] at hshown
    refine ⟨h.same.trans hshown.same, hentry, fun x hx htop => ?_⟩
    apply hshown.frame x (by omega) _ _ (h.shows x hx htop)
    by_cases hzero : size = 0
    · omega
    · have hle := hpast hin hzero
      omega
  · unfold raidWrite at hw
    rw [if_pos (Nat.not_lt.mp hin)] at hw
    obtain ⟨_, rfl⟩ := Prod.mk.inj (Option.some.inj hw)
    exact h

theorem callStep_holds {v : StripeVolume} (hv : Servable v) {a : FileEntry} {data : Buf} {m t : Mount} {call : FileCall}
    (h : Holds v a data m) (halone : LeavesAlone a m call) (ht : callStep m call = some t) : Holds v a data t := by
  obtain ⟨hne, hwrite⟩ := halone
  have htable : ∀ {table : FileTable} {freed consumed : ℕ}, KeepsEntry table a →
      Holds v a data ⟨m.sys, table, freed, consumed⟩ := fun hk => ⟨h.same, hk, h.shows⟩
  cases call with
  | openPath path creat =>
    obtain rfl := Option.some.inj ht
    cases creat with
    | true =>
      rw [raidOpen_table]
      exact htable (h.entry.create hne)
    | false =>
      rw [raidOpen_plain]
      exact h
  | sized op =>
    cases op with
    | create path =>
      obtain rfl := Option.some.inj ht
      exact htable (h.entry.create hne)
    | write env path buffer size offset =>
      obtain ⟨⟨n, u⟩, hw, rfl⟩ := Option.map_eq_some_iff.mp ht
      refine raidWrite_holds hv h hne hwrite.1 (fun hin hzero => hwrite.2 hin fun hs => hzero ?_) hw
      rw [hs]
      rfl
    | truncate path size =>
      obtain rfl := Option.some.inj ht
      have hsys := raidTruncate_sys path size.toNat m
      exact ⟨by rw [hsys]; exact h.same, h.entry.truncate rfl hne _, by rw [hsys]; exact h.shows⟩
    | unlink path =>
      obtain rfl := Option.some.inj ht
      exact htable (h.entry.unlink hne)

/-! ### Reads -/

/-- The file behaves as an array of `fileSize` bytes, those of `data`: every byte a read returns is one of the array,
and a read without a failure returns all that there are of its range. -/
structure ReadsAs (path : List Char) (fileSize : ℕ) (data : Buf) (m : Mount) : Prop where
  bytes : ∀ io out size offset n t out', size < 2^63 → offset < 2^63 →
    ReadAligned m.sys.v offset (min size (fileSize - offset)) →
    raidRead io path out size offset m = some (n, t, out') → ∀ j : ℕ, (j : ℤ) < n → out' j = data (offset + j)
  all : ∀ io out size offset total s out', size < 2^63 → offset < 2^63 →
    raidReadLoop io (min size (fileSize - offset)) 0 offset (min size (fileSize - offset)) 0 m.sys out =
      some (true, total, s, out') →
    ∃ t out', raidRead io path out size offset m = some (long (u32 total), t, out')

/-- `raid_read` on a file by its size. -/
theorem raidRead_eq {m : Mount} {path : List Char} {a : FileEntry} (he : fileNamed m.table (stripPath path) = some a)
    {size offset : ℕ} (hsize : size < 2^63) (hoffset : offset < 2^63) (hin : offset < a.size) (io : ℕ → IoEnv) (out : Buf) :
    raidRead io path out size offset m =
      (raidReadLoop io (min size (a.size - offset)) 0 offset (min size (a.size - offset)) 0 m.sys out).map
        fun r => (if r.1 = false ∧ ¬ long (u32 r.2.1) > 0 then eio else long (u32 r.2.1), { m with sys := r.2.2.1 }, r.2.2.2) := by
  have hrem : sub64 (minU64 (u64 (offset + size)) a.size) offset = min size (a.size - offset) := by
    rw [minU64_eq, u64_of_lt (by omega), sub64_of_le (by omega) (by omega)]
    omega
  unfold raidRead
  simp only [he, Option.map_some, Option.getD_some, hrem]
  rw [if_neg (Nat.not_le.mpr hin)]
  cases raidReadLoop io (min size (a.size - offset)) 0 offset (min size (a.size - offset)) 0 m.sys out with
  | none => rfl
  | some r => rfl

theorem raidRead_past {m : Mount} {path : List Char} {a : FileEntry} (he : fileNamed m.table (stripPath path) = some a)
    {offset : ℕ} (hout : ¬ offset < a.size) (io : ℕ → IoEnv) (out : Buf) (size : ℕ) :
    raidRead io path out size offset m = some (0, m, out) := by
  have hsize : ((fileNamed m.table (stripPath path)).map FileEntry.size).getD 0 ≤ offset := by
    rw [he]
    exact Nat.not_lt.mp hout
  unfold raidRead
  exact if_pos hsize

theorem Holds.readsAs {v : StripeVolume} (hv : Servable v) {a : FileEntry} {data : Buf} {m : Mount}
    (h : Holds v a data m) {path : List Char} (hp : stripPath path = a.fullPath) : ReadsAs path a.size data m := by
  have he : fileNamed m.table (stripPath path) = some a := by
    rw [hp]
    exact h.entry.fileNamed
  constructor
  · intro io out size offset n t out' hsize hoffset halign hr j hj
    by_cases hin : offset < a.size
    · rw [raidRead_eq he hsize hoffset hin, Option.map_eq_some_iff] at hr
      obtain ⟨⟨ok, total, s, buf⟩, hloop, hres⟩ := hr
      simp only [Prod.mk.injEq] at hres
      obtain ⟨rfl, _, rfl⟩ := hres
      have hshow : ∀ i < min size (a.size - offset), offset + i < m.sys.v.virtualTotalBytes →
          Visible m.sys.v m.sys.d (offset + i) ((data.shift offset) i) :=
        fun i hi htop => h.shows (offset + i) (by omega) (by rw [← h.same.layout.total]; exact htop)
      obtain ⟨_, _, hbytes⟩ := raidReadLoop_shown (h.same.servable hv) (by omega) halign _ (Nat.sub_le _ _) (Nat.zero_le _)
        (fun _ => Nat.dvd_zero _) (SameServed.refl _) hshow (fun i hi => absurd hi (Nat.not_lt_zero _)) hloop
      have hlong := long_le total
      apply hbytes
      split at hj
      · unfold eio at hj
        omega
      · omega
    · rw [raidRead_past he hin] at hr
      simp only [Option.some.injEq, Prod.mk.injEq] at hr
      omega
  · intro io out size offset total s out' hsize hoffset hloop
    by_cases hin : offset < a.size
    · rw [raidRead_eq he hsize hoffset hin, hloop]
      exact ⟨_, _, rfl⟩
    · rw [Nat.sub_eq_zero_of_le (Nat.not_lt.mp hin), Nat.min_zero] at hloop
      simp only [raidReadLoop, Option.some.injEq, Prod.mk.injEq, true_and] at hloop
      obtain ⟨rfl, _, _⟩ := hloop
      rw [raidRead_past he hin]
      exact ⟨_, _, rfl⟩

/-- A file behaves as an array of its own, the same throughout a run that leaves it alone. -/
theorem raidRead_isolated {m : Mount} (hv : Servable m.sys.v) {a : FileEntry} (ha : KeepsEntry m.table a)
    (hshown : ∀ x < a.size, x < m.sys.v.virtualTotalBytes → ∃ val, Visible m.sys.v m.sys.d x val) {path : List Char}
    (hp : stripPath path = a.fullPath) {calls : List FileCall} (halone : Along callStep (LeavesAlone a) m calls) :
    ∃ data, ∀ pre post t, calls = pre ++ post → run callStep m pre = some t → ReadsAs path a.size data t := by
  have hdata : ∃ data : Buf, ∀ x < a.size, x < m.sys.v.virtualTotalBytes → Visible m.sys.v m.sys.d x (data x) := by
    have hpoint : ∀ x, ∃ val, x < a.size → x < m.sys.v.virtualTotalBytes → Visible m.sys.v m.sys.d x val := by
      intro x
      by_cases hx : x < a.size ∧ x < m.sys.v.virtualTotalBytes
      · obtain ⟨val, hval⟩ := hshown x hx.1 hx.2
        exact ⟨val, fun _ _ => hval⟩
      · exact ⟨0, fun h1 h2 => absurd ⟨h1, h2⟩ hx⟩
    exact ⟨fun x => (hpoint x).choose, fun x => (hpoint x).choose_spec⟩
  obtain ⟨data, hdata⟩ := hdata
  refine ⟨data, fun pre post t hsplit hrun => ?_⟩
  subst hsplit
  have hstart : Holds m.sys.v a data m := ⟨SameServed.refl _, ha, hdata⟩
  have hend : Holds m.sys.v a data t :=
    run_invariant (fun _ _ _ hs hl ht => callStep_holds hv hs hl ht) (halone.append hrun).1 hstart hrun
  exact hend.readsAs hv hp

/-- Two files on a volume without a cache. -/
def twoFiles : Mount :=
  ⟨{ pairSystem with v := { pairSystem.v with cacheEnabled := false } }, [⟨['a'], false, 4⟩, ⟨['b'], false, 0⟩], 0, 0⟩

theorem raidRead_isolated_sample : ∃ data, ∀ pre post t,
    [FileCall.sized (.truncate ['/', 'b'] 2), .openPath ['/', 'c'] true, .sized (.write smoothEnv ['/', 'b'] (fun _ => 9) 2 4)] =
      pre ++ post → run callStep twoFiles pre = some t → ReadsAs ['/', 'a'] 4 data t := by
  have hsame : SameLayout pairSystem.v twoFiles.sys.v := ⟨rfl, rfl, rfl, rfl, rfl, rfl, rfl, rfl⟩
  have hv : Servable twoFiles.sys.v := by
    refine ⟨fun _ => hsame.ready pairCached_ok.ready, ?_, by decide, ?_⟩
    · intro h
      cases h
    · intro h
      cases h
  refine raidRead_isolated hv (a := ⟨['a'], false, 4⟩) ?_ ?_ rfl ?_
  · refine ⟨by decide, fun e he hp => ?_⟩
    simp only [twoFiles, List.mem_cons, List.not_mem_nil, or_false] at he
    rcases he with rfl | rfl
    · rfl
    · exact absurd hp (by decide)
  · intro x _ _
    exact ⟨vbyte twoFiles.sys.v twoFiles.sys.d x, rfl⟩
  · refine ⟨⟨by decide, True.intro⟩, fun _ _ => ⟨⟨by decide, True.intro⟩, fun _ _ => ⟨⟨by decide, ?_⟩, fun _ _ => True.intro⟩⟩⟩
    exact ⟨by decide, fun _ _ => Nat.le_refl 4⟩

/-- Two files are created and a byte is written to each, at its first place: the first file reads as the second. -/
theorem raidRead_isolated_fails :
    ∃ m t r s, run callStep (fuseMountVolume pairSystem []) [.sized (.create ['/', 'a']), .sized (.create ['/', 'b']),
        .sized (.write smoothEnv ['/', 'a'] (fun _ => 7) 1 0)] = some m ∧
      m.table = [⟨['a'], false, 1⟩, ⟨['b'], false, 0⟩] ∧
      raidWrite smoothEnv ['/', 'b'] (fun _ => 9) 1 0 m = some (1, t) ∧
      raidRead (fun _ => .good) ['/', 'a'] (fun _ => 0) 1 0 m = some (1, r) ∧ r.2 0 = 7 ∧
      raidRead (fun _ => .good) ['/', 'a'] (fun _ => 0) 1 0 t = some (1, s) ∧ s.2 0 = 9 := by
  have hrun : ((run callStep (fuseMountVolume pairSystem []) [.sized (.create ['/', 'a']), .sized (.create ['/', 'b']),
      .sized (.write smoothEnv ['/', 'a'] (fun _ => 7) 1 0)]).bind fun m =>
        (raidWrite smoothEnv ['/', 'b'] (fun _ => 9) 1 0 m).bind fun w =>
          (raidRead (fun _ => .good) ['/', 'a'] (fun _ => 0) 1 0 m).bind fun r =>
            (raidRead (fun _ => .good) ['/', 'a'] (fun _ => 0) 1 0 w.2).map fun s =>
              (m.table, w.1, r.1, r.2.2 0, s.1, s.2.2 0)) =
      some ([⟨['a'], false, 1⟩, ⟨['b'], false, 0⟩], 1, 1, 7, 1, 9) := by
    decide +kernel
  obtain ⟨m, hm, h1⟩ := Option.bind_eq_some_iff.mp hrun
  obtain ⟨⟨n, t⟩, hw, h2⟩ := Option.bind_eq_some_iff.mp h1
  obtain ⟨⟨i, r⟩, hr, h3⟩ := Option.bind_eq_some_iff.mp h2
  obtain ⟨⟨j, s⟩, hs, he⟩ := Option.map_eq_some_iff.mp h3
  simp only [Prod.mk.injEq] at he
  obtain ⟨htable, rfl, rfl, hseven, rfl, hnine⟩ := he
  exact ⟨m, t, r, s, hm, htable, hw, hr, hseven, hs, hnine⟩

end RaidTest.Fuse
