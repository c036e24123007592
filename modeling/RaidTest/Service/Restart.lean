import RaidTest.Metadata.Latest
import RaidTest.Cache.Access

/-!
# A stripe volume across restarts (`main.c`, `superblock_read`, `volume_load`)

A process leaves pool files, superblocks and journals behind. The next one with `--mount` looks
for a superblock on the drives, opens the pool files under disk records of its own and starts a
worker for each of them.
-/

namespace RaidTest.Service
open RaidTest.Base RaidTest.Stripe RaidTest.Volume RaidTest.Journal RaidTest.Metadata

/-! ### What outlives a process -/

/-- The pool files by path, and the files in the `RAIDTEST` directories of the drives. -/
structure Ground where
  pool : Path → Buf
  drives : Letter → Drive
  journals : Files

/-- The loop of `superblock_read` over the drives that are left, with room for `n` more
candidates: the candidates it finds, and the drives after it. -/
def searchDrives (env : Letter → ReadEnv) :
    List Letter → ℕ → (Letter → Drive) → List SuperblockV4 × (Letter → Drive)
  | [], _, drives => ([], drives)
  | _ :: _, 0, drives => ([], drives)
  | l :: ls, n + 1, drives =>
    match tryReadSuperblock (env l) (drives l) with
    | (none, s) => searchDrives env ls (n + 1) (Function.update drives l s)
    | (some sb, s) =>
      let (found, drives) := searchDrives env ls n (Function.update drives l s)
      (sb :: found, drives)

/-- A process with `--mount`: the answers it gets, the disk records it makes with their drives and
pool files, and the calls it serves. -/
structure Life where
  read : Letter → ReadEnv
  fixed : Letter → Bool
  opens : ℕ → Bool
  recover : ℕ → RecoverEnv
  disksOut : ℕ → DiskId
  info : DiskId → DiskInfo
  letter : DiskId → Letter
  path : DiskId → Path
  start : StartEnv
  calls : List (Stripe.Call × IoEnv)

/-- `--mount` names no drive to look at first. -/
def Life.search (l : Life) (g : Ground) : List SuperblockV4 × (Letter → Drive) :=
  searchDrives l.read (scanOrder l.fixed 0) maxDisks g.drives

def Life.args (l : Life) (g : Ground) : LoadArgs where
  env := ⟨(pickBest picks (l.search g).1).map SuperblockV4.base, l.opens, l.recover⟩
  letter := l.letter
  disksOut := l.disksOut
  files := g.journals

def Life.disks (l : Life) (g : Ground) : Disks := ⟨l.info, fun k => g.pool (l.path k)⟩

/-- The pool files when those of the members hold what the transfers left. -/
def savePools (path : DiskId → Path) (v : StripeVolume) (d : Disks) (pool : Path → Buf) : Path → Buf := fun p =>
  match (List.range v.diskCount).find? fun i => path (v.diskAt i) = p with
  | some i => d.pool (v.diskAt i)
  | none => pool p

/-- The process from `main` to its end: the answers to its calls and what it leaves. The journals
are those that the load leaves. -/
def Life.run (g : Ground) (l : Life) : Option (List (Bool × Buf) × Ground) :=
  (volumeLoad (l.args g).env l.letter l.disksOut .zero (l.disks g) g.journals).bind fun (_, _, _, journals) =>
    (mainMount l.start (l.args g) (.start (l.disks g))).bind fun s =>
      (Stripe.runCalls s.volume s.app.sys.d l.calls).map fun (answers, v, d) =>
        (answers, ⟨savePools l.path v d g.pool, (l.search g).2, journals⟩)

/-- One process after the other. -/
def runLives : Ground → List Life → Option (List (Bool × Buf) × Ground)
  | g, [] => some ([], g)
  | g, l :: ls =>
    match l.run g with
    | none => none
    | some (as, g) =>
      match runLives g ls with
      | none => none
      | some (bs, g) => some (as ++ bs, g)

/-! ### The search for a superblock -/

/-- With the same answers for every drive the loop finds the candidates. -/
theorem searchDrives_candidates (env : ReadEnv) {ls : List Letter} (hnodup : ls.Nodup) :
    ∀ (n : ℕ) (drives : Letter → Drive), (searchDrives (fun _ => env) ls n drives).1 =
      (ls.filterMap fun l => (tryReadSuperblock env (drives l)).1).take n := by
  induction ls with
  | nil => intro n drives; rw [List.filterMap_nil, List.take_nil]; rfl
  | cons l ls ih =>
    intro n drives
    obtain ⟨hl, hls⟩ := List.nodup_cons.mp hnodup
    cases n with
    | zero => rfl
    | succ n =>
      have hrest : ∀ s, (ls.filterMap fun k => (tryReadSuperblock env (Function.update drives l s k)).1) =
          ls.filterMap fun k => (tryReadSuperblock env (drives k)).1 := by
        intro s
        apply List.filterMap_congr
        intro k hk
        have hne : k ≠ l := fun he => hl (he ▸ hk)
        rw [Function.update_of_ne hne]
      unfold searchDrives
      generalize hr : tryReadSuperblock env (drives l) = r
      obtain ⟨found, s⟩ := r
      have hfound : (tryReadSuperblock env (drives l)).1 = found := congrArg Prod.fst hr
      rw [List.filterMap_cons, hfound, ← hrest s]
      cases found with
      | none => exact ih hls (n + 1) _
      | some sb => rw [List.take_succ_cons, ← ih hls]

/-- The drives of the members hold the superblock, perhaps beside the beginning of another copy of
it, and the other drives hold none. -/
structure Shelved (sb : SuperblockV4) (member : Letter → Prop) (drives : Letter → Drive) : Prop where
  written : ∀ l, member l → MidWrite (some sb.image) sb.image (drives l)
  blank : ∀ l, ¬ member l → drives l = ⟨none, none⟩

theorem recover_tmp {env : ReadEnv} {s : Drive} {c : List Byte} (h : (tryRecoverOrphanTmp env s).tmp = some c) :
    s.tmp = some c := by
  have hdeleted : ∀ b : Bool, (if b then { s with tmp := none } else s).tmp = some c → s.tmp = some c := by
    intro b hb
    cases b with
    | true => cases hb
    | false => exact hb
  unfold tryRecoverOrphanTmp at h
  split at h
  · exact h
  split at h
  · exact h
  simp only at h
  split at h
  · exact hdeleted _ h
  split at h
  · exact hdeleted _ h
  split at h
  · exact hdeleted _ h
  split at h
  · split at h
    · cases h
    · exact h
  · exact hdeleted _ h

theorem tryRead_drive (env : ReadEnv) (s : Drive) : (tryReadSuperblock env s).2 = tryRecoverOrphanTmp env s := by
  unfold tryReadSuperblock
  generalize tryRecoverOrphanTmp env s = t
  obtain ⟨dat, tmp⟩ := t
  cases dat with
  | none => rfl
  | some c => rfl

section Search
variable {sb : SuperblockV4} (hmagic : sb.magic = superblockMagic) (hversion : sb.version = superblockVersion)
  {member : Letter → Prop}
include hmagic hversion

/-- What is read from a drive of the volume, and what the read leaves there. -/
theorem tryRead_shelved {s : Drive} (h : MidWrite (some sb.image) sb.image s) (env : ReadEnv) :
    (∀ x, (tryReadSuperblock env s).1 = some x → x = sb.stored) ∧
      MidWrite (some sb.image) sb.image (tryReadSuperblock env s).2 := by
  have hdat : (tryRecoverOrphanTmp env s).dat = some sb.image := (recover_dat h env).elim id id
  have himage : (sb.image).take rawSize = sb.image := by
    apply List.take_of_length_le
    rw [image_length]
    decide
  constructor
  · intro x hx
    rw [tryRead_eq, hdat, Option.bind_some, himage, parse_image hmagic hversion] at hx
    split at hx
    · exact (Option.some.inj hx).symm
    · cases hx
  · rw [tryRead_drive]
    exact ⟨Or.inr hdat, fun c hc => h.tmp c (recover_tmp hc)⟩

theorem Shelved.read {drives : Letter → Drive} (h : Shelved sb member drives) (env : ReadEnv) (l : Letter) :
    (∀ x, (tryReadSuperblock env (drives l)).1 = some x → x = sb.stored) ∧
      Shelved sb member (Function.update drives l (tryReadSuperblock env (drives l)).2) := by
  by_cases hl : member l
  · obtain ⟨h1, h2⟩ := tryRead_shelved hmagic hversion (h.written l hl) env
    refine ⟨h1, fun k hk => ?_, fun k hk => ?_⟩
    · by_cases he : k = l
      · rw [he, Function.update_self]
        exact h2
      · rw [Function.update_of_ne he]
        exact h.written k hk
    · have hne : k ≠ l := fun he => hk (he ▸ hl)
      rw [Function.update_of_ne hne]
      exact h.blank k hk
  · have hread : tryReadSuperblock env (drives l) = (none, drives l) := by
      rw [h.blank l hl]
      rfl
    rw [hread, Function.update_eq_self]
    exact ⟨nofun, h⟩

/-- All the loop finds is the superblock, and it finds it if it can read one of the drives. -/
theorem searchDrives_shelved (env : Letter → ReadEnv) (ls : List Letter) :
    ∀ (n : ℕ) (drives : Letter → Drive), Shelved sb member drives →
      (∀ x ∈ (searchDrives env ls n drives).1, x = sb.stored) ∧
        Shelved sb member (searchDrives env ls n drives).2 ∧
        (0 < n → (∃ l ∈ ls, member l ∧ (env l).opens = true ∧ (env l).reads = true) →
          (searchDrives env ls n drives).1 ≠ []) := by
  induction ls with
  | nil =>
    intro n drives h
    refine ⟨nofun, h, ?_⟩
    rintro _ ⟨l, hl, _⟩
    cases hl
  | cons l ls ih =>
    intro n drives h
    cases n with
    | zero => exact ⟨nofun, h, fun hn => absurd hn (Nat.lt_irrefl 0)⟩
    | succ n =>
      obtain ⟨hfound, hafter⟩ := h.read hmagic hversion (env l) l
      have hgood : member l ∧ (env l).opens = true ∧ (env l).reads = true →
          (tryReadSuperblock (env l) (drives l)).1 = some sb.stored := fun hl =>
        read_written hmagic hversion (h.written l hl.1) hl.2
      unfold searchDrives
      generalize tryReadSuperblock (env l) (drives l) = r at hfound hafter hgood
      obtain ⟨found, s⟩ := r
      cases found with
      | none =>
        obtain ⟨h1, h2, h3⟩ := ih (n + 1) _ hafter
        refine ⟨h1, h2, fun hn hex => h3 hn ?_⟩
        obtain ⟨k, hk, hgoodk⟩ := hex
        rcases List.mem_cons.mp hk with rfl | hk
        · exact absurd (hgood hgoodk) nofun
        · exact ⟨k, hk, hgoodk⟩
      | some x =>
        obtain ⟨h1, h2, _⟩ := ih n _ hafter
        simp only
        refine ⟨fun y hy => ?_, h2, fun _ _ => List.cons_ne_nil _ _⟩
        rcases List.mem_cons.mp hy with rfl | hy
        · exact hfound _ rfl
        · exact h1 y hy

/-- The load takes the superblock of the volume. -/
theorem pickBest_shelved (env : Letter → ReadEnv) {ls : List Letter} {n : ℕ} {drives : Letter → Drive}
    (h : Shelved sb member drives) (hn : 0 < n)
    (hfinds : ∃ l ∈ ls, member l ∧ (env l).opens = true ∧ (env l).reads = true) :
    pickBest picks (searchDrives env ls n drives).1 = some sb.stored := by
  obtain ⟨h1, _, h3⟩ := searchDrives_shelved hmagic hversion env ls n drives h
  cases hp : pickBest picks (searchDrives env ls n drives).1 with
  | none => exact absurd (pickBest_none.mp hp) (h3 hn hfinds)
  | some x =>
    have hx := ((pickBest_iff picks_iff _ x).mp hp).mem
    rw [h1 x hx]

end Search

/-! ### The load -/

theorem recoverLoop_files (env : ℕ → RecoverEnv) (letter : DiskId → Letter) (n : ℕ) :
    ∀ (di : ℕ) (allClean : Bool) {v w : StripeVolume} {d e : Disks} {files files' : Files} {clean : Bool},
      recoverLoop env letter n di allClean v d files = some (clean, w, e, files') →
        ∀ l, files' l = files l ∨ files' l = [] := by
  induction n with
  | zero =>
    intro di allClean v w d e files files' clean h l
    simp only [recoverLoop, Option.some.injEq, Prod.mk.injEq] at h
    rw [h.2.2.2]
    exact Or.inl rfl
  | succ n ih =>
    intro di allClean v w d e files files' clean h l
    unfold recoverLoop at h
    simp only at h
    split at h
    · cases h
    next empty _ =>
    have hrest := ih _ _ h l
    cases empty with
    | false => exact hrest
    | true =>
      rw [if_pos rfl] at hrest
      by_cases hl : l = letter (v.diskAt di)
      · rw [hl, Files.set_same, or_self] at hrest
        rw [hl]
        exact Or.inr hrest
      · rw [Files.set_other _ _ hl] at hrest
        exact hrest

/-- The load of a stripe volume puts its layout back, and no more of it. -/
theorem volumeLoad_idle (a : LoadArgs) (v : StripeVolume) (d : Disks) (sb : Superblock) (hr : Restores a.env sb)
    (hstripe : sb.mirror = false) (hrows : ∀ l, Row (a.files l))
    (hread : ∀ i < sb.diskCount, ∀ m, (a.env.recover i).read = some m → maxJournal ≤ m) :
    ∃ w e files', volumeLoad a.env a.letter a.disksOut v d a.files = some (true, w, e, files') ∧
      SameLayout (restoreVolume sb sb.diskCount a.disksOut) w ∧ Idle w ∧ e.pool = d.pool ∧ ∀ l, Row (files' l) := by
  have hcount : (restoreVolume sb sb.diskCount a.disksOut).diskCount = sb.diskCount := rfl
  have hfiles : ∀ i, 0 ≤ i → i < 0 + sb.diskCount →
      Row (a.files (a.letter ((restoreVolume sb sb.diskCount a.disksOut).diskAt i))) ∧
        ∀ m, (a.env.recover i).read = some m →
          (a.files (a.letter ((restoreVolume sb sb.diskCount a.disksOut).diskAt i))).length ≤ m := by
    intro i _ hi
    refine ⟨hrows _, fun m hm => ?_⟩
    obtain ⟨_, _, _, _, _, hsize⟩ := hrows (a.letter ((restoreVolume sb sb.diskCount a.disksOut).diskAt i))
    exact hsize.trans (hread i (by omega) m hm)
  obtain ⟨clean, w, files', hrec, hsame, hidle⟩ := Idle.recoverLoop a.env.recover a.letter
    { d with info := restoreInfo sb sb.diskCount a.disksOut d.info } sb.diskCount 0 true
    (restoreVolume_idle hstripe sb.diskCount a.disksOut) hfiles
  have hrange : ¬ (sb.diskCount < minDisks ∨ sb.diskCount > maxDisks) := by
    have h1 := hr.least
    have h2 := hr.most
    omega
  refine ⟨w, { d with info := restoreInfo sb sb.diskCount a.disksOut d.info }, files', ?_, hsame, hidle, rfl,
    fun l => ?_⟩
  · unfold volumeLoad superblockRestore
    simp only [hr.found, openedPools_all hr.opens, if_neg hrange, decide_true, journalRecoverAll, hcount, hrec]
  · rcases recoverLoop_files _ _ _ _ _ hrec l with hl | hl
    · rw [hl]
      exact hrows l
    · rw [hl]
      exact row_nil

/-! ### A volume with a cache that holds nothing -/

/-- What reads rely on and keep: no block of the cache is valid. -/
structure Cold (v : StripeVolume) : Prop where
  volume : Cache.CachedVolume v
  invalid : ∀ b, v.cache.validMap b = false

theorem Cold.quiet {v w : StripeVolume} (h : Cold v) (hq : Cache.Quiet v w) : Cold w := by
  obtain ⟨hits, misses, he⟩ := hq.cache
  refine ⟨hq.volume h.volume, fun b => ?_⟩
  rw [he]
  exact h.invalid b

/-- A read goes past the cache to the members. -/
theorem cold_read {v : StripeVolume} (h : Cold v) (io : IoEnv) (d : Disks) (buffer : Buf) {vo length : ℕ}
    (hio : io.Succeeds) (hl : length < 2^32) (hfit : Stripe.Fits v vo length) :
    ∃ w d' out, stripeVolumeRead io v d buffer vo length = some (served v vo length, w, d', out) ∧ Cold w ∧
      SameLayout v w ∧ d'.pool = d.pool ∧
      (served v vo length = true → vo + length ≤ v.virtualTotalBytes ∧ ∀ i < length, out i = vbyte v d (vo + i)) := by
  by_cases hin : 0 < length ∧ vo + length ≤ v.virtualTotalBytes
  · obtain ⟨hpos, hend⟩ := hin
    have hmiss : ¬ Cache.Hit v vo length := by
      intro hh
      have hvalid := hh.2 (vo / 65536) (Cache.touches_of_mem (Nat.le_refl vo) (by omega))
      rw [h.invalid] at hvalid
      cases hvalid
    obtain ⟨hits, misses, hread⟩ := Cache.read_miss h.volume io d buffer hl hpos hend hmiss
    have hsame := sameLayout_cache v { v.cache with hitCount := hits, missCount := misses }
    have hfit' : Stripe.Fits { v with cache := { v.cache with hitCount := hits, missCount := misses } } vo length :=
      fun es hes => hfit es (hsame.mapLba ▸ hes)
    obtain ⟨ok, d', out, hr, hpool, hdata, hok⟩ := readDirect_spec (hsame.ready h.volume.ready) io d buffer hl
      (by rw [hsame.total]; exact hend) hfit'
    have hserved : served v vo length = ok := by
      rw [hok hio, hsame.mapLba, served, decide_eq_true hend, Bool.true_and]
    have hdone := Cache.read_quiet h.volume hl (hread.trans hr)
    rw [hserved, hread, hr]
    refine ⟨_, d', out, rfl, h.quiet hdone.1, hdone.1.layout, hpool, fun hs => ⟨hend, ?_⟩⟩
    rw [← hsame.vbyte]
    exact hdata hs
  · have hserved := served_out hin
    rw [hserved]
    exact ⟨v, d, buffer, Cache.read_outside h.volume hl hin, h, SameLayout.refl v, rfl, fun hs => absurd hs Bool.false_ne_true⟩

def isRead : Stripe.Call → Bool
  | .read .. => true
  | .write .. => false

/-- Every run of reads is one of the flat array. -/
theorem cold_flat (calls : List (Stripe.Call × IoEnv)) {v : StripeVolume} (d : Disks) (h : Cold v)
    (hread : ∀ c ∈ calls, isRead c.1 = true) (hio : ∀ c ∈ calls, c.2.Succeeds) (hl : ∀ c ∈ calls, c.1.length < 2^32)
    (hfit : ∀ c ∈ calls, Stripe.Fits v c.1.vo c.1.length) :
    ∃ answers w d', Stripe.runCalls v d calls = some (answers, w, d') ∧ SameLayout v w ∧
      answers.map Prod.fst = calls.map (fun c => served v c.1.vo c.1.length) ∧
      FlatRun v.virtualTotalBytes (vbyte v d) (calls.map Prod.fst) answers (vbyte w d') := by
  induction calls generalizing v d with
  | nil => exact ⟨[], v, d, rfl, SameLayout.refl v, rfl, fun _ _ => rfl⟩
  | cons c calls ih =>
    obtain ⟨c, io⟩ := c
    have hio1 := hio _ (List.mem_cons_self ..)
    cases c with
    | write buffer vo length => exact absurd (hread _ (List.mem_cons_self ..)) nofun
    | read buffer vo length =>
      have hl1 : length < 2^32 := hl _ (List.mem_cons_self ..)
      have hfit1 : Stripe.Fits v vo length := hfit _ (List.mem_cons_self ..)
      obtain ⟨u, d1, out, hr, hu, hs, hpool, hdata⟩ := cold_read h io d buffer hio1 hl1 hfit1
      obtain ⟨answers, w, d', h1, h2, h3, h4⟩ := ih d1 hu (fun c hc => hread c (List.mem_cons_of_mem _ hc))
        (fun c hc => hio c (List.mem_cons_of_mem _ hc)) (fun c hc => hl c (List.mem_cons_of_mem _ hc))
        (fun c hc es hm => hfit c (List.mem_cons_of_mem _ hc) es (hs.mapLba ▸ hm))
      rw [hs.served] at h3
      rw [hs.total, hs.vbyte, vbyte_pool v hpool] at h4
      refine ⟨(served v vo length, out) :: answers, w, d', ?_, hs.trans h2, ?_, hdata, h4⟩
      · simp only [Stripe.runCalls, callVolume, hr, h1]
      · simp only [List.map_cons, h3, Stripe.Call.vo, Stripe.Call.length]

/-! ### What `--mount` makes of a load -/

/-- The allocations for a cache fail. -/
def StartEnv.NoCache (env : StartEnv) : Prop :=
  ∀ m thread, env.cache = some (m, thread) → (m.buffer && m.dirtyMap && m.validMap && m.flushBuffer) = false

theorem cacheInit_refused {m : Cache.CacheAlloc} (cache : RamCache) (size : ℕ)
    (h : (m.buffer && m.dirtyMap && m.validMap && m.flushBuffer) = false) : (Cache.cacheInit m cache size).1 = false := by
  unfold Cache.cacheInit
  split
  · rfl
  simp only
  split
  · rfl
  next hn =>
  simp only [not_or, Bool.not_eq_false] at hn
  rw [hn.2.1, hn.2.2.1, hn.2.2.2, Bool.true_and, Bool.true_and, Bool.true_and] at h
  rw [if_pos h]

/-- The volume of a load that has its members gets its workers, and a cache that holds nothing or none. -/
theorem mainMount_ready {env : StartEnv} {a : LoadArgs} {d e : Disks} {w : StripeVolume} {files' : Files}
    (hload : volumeLoad a.env a.letter a.disksOut .zero d a.files = some (true, w, e, files')) (hidle : Idle w)
    (hl : Laid w) (hm : Members w) (hcount : w.diskCount ≠ 0) (hworkers : env.workers = true) :
    ∃ s, mainMount env a (.start d) = some s ∧ s.app.sys.d = e ∧
      SameLayout { w with workerState := some (memberList w) } s.volume ∧
      (Uncached s.volume ∨ Cold s.volume ∧ ¬ env.NoCache) := by
  have hready : Ready { w with workerState := some (memberList w) } :=
    ⟨⟨hl.unit, hl.unitLt, hl.count, hl.phases⟩, ⟨hm.few, hm.present, hm.distinct⟩, rfl⟩
  have hstart : ∀ {u : StripeVolume}, u.raidLevel = .stripe → u.diskCount ≠ 0 →
      startWorkers env.workers u = { u with workerState := some (memberList u) } := by
    intro u hlevel hn
    unfold startWorkers
    rw [if_pos ⟨hlevel, hworkers⟩]
    unfold stripeVolumeWorkersInit
    rw [if_neg hn]
    rfl
  have hs : mainMount env a (.start d) = (Session.load (.start d) a).map _ := if_neg (fun hne => hne rfl)
  have hsession : Session.load (.start d) a =
      some (true, ⟨⟨⟨w, e, .idle, .thread, false⟩, false, false, 0, false, false, .disconnected⟩,
        (List.range w.diskCount).map a.disksOut⟩) := by
    have hzero : (Session.start d).volume = .zero := rfl
    have hdisks : (Session.start d).app.sys.d = d := rfl
    unfold Session.load
    rw [hzero, hdisks, hload]
    rfl
  rw [hs, hsession]
  refine ⟨_, rfl, ?_⟩
  cases hcache : env.cache with
  | none =>
    have hv := hstart hidle.level hcount
    refine ⟨rfl, ?_⟩
    simp only [Session.volume, if_true, hv]
    exact ⟨SameLayout.refl _, Or.inl ⟨hready, hidle.level, hidle.uncached⟩⟩
  | some x =>
    obtain ⟨m, thread⟩ := x
    simp only [Session.volume, if_true, volumeCacheEnable]
    generalize hinit : Cache.cacheInit m w.cache (cacheDefaultMb * 1024 * 1024) = r
    obtain ⟨ok, cache⟩ := r
    cases ok with
    | false =>
      have hv := hstart (u := { w with cache := cache }) hidle.level hcount
      have hsame : SameLayout { w with workerState := some (memberList w) }
        { w with cache := cache, workerState := some (memberList { w with cache := cache }) } :=
        ⟨rfl, rfl, rfl, rfl, rfl, rfl, rfl, rfl⟩
      simp only [hv]
      exact ⟨trivial, hsame, Or.inl ⟨hsame.ready hready, hidle.level, hidle.uncached⟩⟩
    | true =>
      obtain ⟨hok, _, hinvalid, _⟩ := Cache.cacheInit_ok hinit
      let u : StripeVolume := { w with cache := { cache with flushThread := thread }, cacheEnabled := true }
      have hv : startWorkers env.workers u = _ := hstart hidle.level hcount
      have hsame : SameLayout { w with workerState := some (memberList w) }
        { u with workerState := some (memberList u) } := ⟨rfl, rfl, rfl, rfl, rfl, rfl, rfl, rfl⟩
      have hcold : Cold { u with workerState := some (memberList u) } :=
        ⟨⟨hsame.ready hready, hidle.level,
          ⟨hok.allocated, hok.blockSize, hok.count, hok.size, hok.flushBuffer⟩, rfl⟩, hinvalid⟩
      simp only [u] at hv hsame hcold
      simp only [hv]
      refine ⟨trivial, hsame, Or.inr ⟨hcold, fun hno => ?_⟩⟩
      have hrefused := cacheInit_refused w.cache (cacheDefaultMb * 1024 * 1024) (hno m thread hcache)
      rw [hinit] at hrefused
      cases hrefused

/-! ### One process -/

/-- Byte `x` of the volume, the pool file of member `i` being at `place i`. -/
def Ground.byte (g : Ground) (v : StripeVolume) (place : ℕ → Path) (x : ℕ) : Byte :=
  let loc := (mapSingleByte v x).getD (0, 0)
  g.pool (place loc.1) loc.2

/-- What the processes find: the superblock on the drives, and journals without more than one torn record each. -/
structure Ground.Holds (g : Ground) (sb : SuperblockV4) (member : Letter → Prop) : Prop where
  shelved : Shelved sb member g.drives
  journals : ∀ l, Row (g.journals l)

/-- The process can read a superblock of the volume, opens its pool files under different records, gets its
workers, and serves calls that the volume can take. With a cache it only serves reads. -/
structure Life.Serves (l : Life) (v : StripeVolume) (place : ℕ → Path) (member : Letter → Prop) : Prop where
  finds : ∃ k ∈ scanOrder l.fixed 0, member k ∧ (l.read k).opens = true ∧ (l.read k).reads = true
  opens : ∀ i < v.diskCount, l.opens i = true
  journals : ∀ i < v.diskCount, ∀ m, (l.recover i).read = some m → maxJournal ≤ m
  records : ∀ i < v.diskCount, ∀ j < v.diskCount, l.disksOut i = l.disksOut j → i = j
  paths : ∀ i < v.diskCount, l.path (l.disksOut i) = place i
  workers : l.start.workers = true
  plain : l.start.NoCache ∨ ∀ c ∈ l.calls, isRead c.1 = true
  succeeds : ∀ c ∈ l.calls, c.2.Succeeds
  short : ∀ c ∈ l.calls, c.1.length < 2^32
  fits : ∀ c ∈ l.calls, Stripe.Fits v c.1.vo c.1.length

section Process
variable {v : StripeVolume} {place : ℕ → Path}

theorem cell_member {x : ℕ} (h : Laid v) (hx : x < v.virtualTotalBytes) :
    ((mapSingleByte v x).getD (0, 0)).1 < v.diskCount := by
  obtain ⟨p, j, r, hp, ha⟩ := h.place_exists hx
  rw [mapSingleByte_eq h hp ha, Option.getD_some]
  exact (h.phaseOk hp.1).members j ha.1

theorem sameMap_of_layout {w : StripeVolume} (hv : Laid v) (h : SameLayout v w) : SameMap v w := by
  refine ⟨h.stripeUnit, h.total, h.phaseCount, fun p hp => ?_⟩
  rw [h.phases]
  exact ⟨(hv.phases.phase p hp).active, rfl, fun _ _ => rfl, fun _ _ => rfl, rfl, rfl, fun _ _ => rfl, rfl⟩

/-- A volume with the layout of `v` whose members use the pool files of `g` has the bytes of `v`. -/
theorem byte_eq {w : StripeVolume} {d : Disks} {g : Ground} (h : Laid v) (hmap : SameMap v w)
    (hpool : ∀ i < v.diskCount, d.pool (w.diskAt i) = g.pool (place i)) :
    ∀ x < v.virtualTotalBytes, vbyte w d x = g.byte v place x := by
  intro x hx
  simp only [vbyte, vcell, Ground.byte, mapSingleByte_same hmap]
  rw [hpool _ (cell_member h hx)]

theorem savePools_member {path : DiskId → Path} {v : StripeVolume} (d : Disks) (pool : Path → Buf)
    (hpath : ∀ i < v.diskCount, path (v.diskAt i) = place i)
    (hplace : ∀ i < v.diskCount, ∀ j < v.diskCount, place i = place j → i = j) :
    ∀ i < v.diskCount, savePools path v d pool (place i) = d.pool (v.diskAt i) := by
  intro i hi
  have hfind : (List.range v.diskCount).find? (fun j => decide (path (v.diskAt j) = place i)) = some i := by
    rw [List.find?_range_eq_some]
    refine ⟨decide_eq_true (hpath i hi), List.mem_range.mpr hi, fun j hj => ?_⟩
    rw [Bool.not_eq_true', decide_eq_false_iff_not, hpath j (hj.trans hi)]
    exact fun he => Nat.ne_of_lt hj (hplace j (hj.trans hi) i hi he)
  unfold savePools
  rw [hfind]

/-- What a superblock says that describes the stripe volume `v`. -/
structure Describes (sb : Superblock) (v : StripeVolume) : Prop where
  stripe : sb.mirror = false
  count : sb.diskCount = v.diskCount
  map : ∀ disksOut, SameMap v (restoreVolume sb v.diskCount disksOut)

theorem makeSuperblock_describes (time : ℕ) (label : DiskId → DiskLabel) (info : DiskId → DiskInfo) {r : VolumeRecord}
    (hfits : VolumeFits r.v) (hlevel : r.v.raidLevel = .stripe) :
    Describes (makeSuperblock time label info r).stored.base r.v := by
  have hbase := stored_base time label info hfits
  refine ⟨?_, ?_, fun disksOut => (hbase disksOut).2.2.2.2 hlevel⟩
  · have hl := (hbase fun _ => 0).1.trans hlevel
    unfold restoreVolume at hl
    cases hm : (makeSuperblock time label info r).stored.base.mirror with
    | false => rfl
    | true =>
      rw [hm, if_pos rfl] at hl
      cases hl
  · exact (hbase fun _ => 0).2.1

theorem Describes.members {sb : Superblock} (h : Describes sb v) (hmost : v.diskCount ≤ maxDisks) {l : Life}
    (hrecords : ∀ i < v.diskCount, ∀ j < v.diskCount, l.disksOut i = l.disksOut j → i = j) {w : StripeVolume}
    (hw : SameLayout (restoreVolume sb sb.diskCount l.disksOut) w) :
    Members w ∧ w.diskCount = v.diskCount ∧ ∀ i < v.diskCount, w.diskAt i = l.disksOut i := by
  have hcount : w.diskCount = v.diskCount := hw.diskCount.trans h.count
  have hat : ∀ i < v.diskCount, w.diskAt i = l.disksOut i := by
    intro i hi
    rw [hw.diskAt, restoreVolume_diskAt sb l.disksOut (h.count.symm ▸ hi)]
  refine ⟨⟨hcount ▸ hmost, fun i hi => ?_, fun i hi j hj he => ?_⟩, hcount, hat⟩
  · have hi' : i < sb.diskCount := by
      rw [h.count, ← hcount]
      exact hi
    rw [hw.diskAt, restoreVolume_diskAt sb l.disksOut hi', hw.disks]
    exact if_pos hi'
  · rw [hcount] at hi hj
    rw [hat i hi, hat j hj] at he
    exact hrecords i hi j hj he

/-- A process answers its calls as one flat array that begins as the bytes on the ground and ends as them. -/
theorem Life.run_flat {l : Life} {g : Ground} {sb : SuperblockV4} {member : Letter → Prop}
    (hmagic : sb.magic = superblockMagic) (hversion : sb.version = superblockVersion)
    (hv : Laid v) (hfits : VolumeFits v) (hsb : Describes sb.stored.base v)
    (hplace : ∀ i < v.diskCount, ∀ j < v.diskCount, place i = place j → i = j)
    (hg : g.Holds sb member) (hl : l.Serves v place member) :
    ∃ answers g', l.run g = some (answers, g') ∧ g'.Holds sb member ∧
      answers.map Prod.fst = l.calls.map (fun c => served v c.1.vo c.1.length) ∧
      FlatRun v.virtualTotalBytes (g.byte v place) (l.calls.map Prod.fst) answers (g'.byte v place) := by
  have hpick := pickBest_shelved hmagic hversion l.read hg.shelved (n := maxDisks) (by decide) hl.finds
  obtain ⟨_, hafter, _⟩ := searchDrives_shelved hmagic hversion l.read (scanOrder l.fixed 0) maxDisks g.drives hg.shelved
  have hn := hsb.count
  have hr : Restores (l.args g).env sb.stored.base := by
    refine ⟨?_, hn ▸ hfits.few, hn ▸ hfits.most, fun i hi => hl.opens i (hn ▸ hi)⟩
    simp only [Life.args, Life.search, hpick, Option.map_some]
  obtain ⟨w, e, files', hload, hsame, hidle, hpool, hrows⟩ := volumeLoad_idle (l.args g) .zero (l.disks g) _ hr
    hsb.stripe hg.journals (fun i hi => hl.journals i (hn ▸ hi))
  obtain ⟨hmembers, hcount, hat⟩ := hsb.members hfits.most hl.records hsame
  have hmap := hsb.map l.disksOut
  rw [hn] at hsame
  have hlaid : Laid (restoreVolume sb.stored.base v.diskCount l.disksOut) := hv.same hmap hn
  have hmapw : SameMap v w := hmap.trans (sameMap_of_layout hlaid hsame)
  have hpos : w.diskCount ≠ 0 := by
    have hfew := hfits.few
    have hmin : minDisks = 2 := rfl
    omega
  have hmount : volumeLoad (l.args g).env (l.args g).letter (l.args g).disksOut .zero (l.disks g) (l.args g).files =
      some (true, w, e, files') := hload
  obtain ⟨s, hs, he, hlayout, hkind⟩ := mainMount_ready hmount hidle (hv.same hmapw hcount) hmembers hpos hl.workers
  have hmapu : SameMap v { w with workerState := some (memberList w) } :=
    ⟨hmapw.unit, hmapw.total, hmapw.count, hmapw.phases⟩
  have hstarted : SameMap v s.volume := hmapu.trans (sameMap_of_layout (hv.same hmapu hcount) hlayout)
  have hserved : served s.volume = served v := by
    funext vo length
    simp only [served, hstarted.total, mapLba_same hstarted]
  have hfit : ∀ c ∈ l.calls, Stripe.Fits s.volume c.1.vo c.1.length := fun c hc es hm =>
    hl.fits c hc es (mapLba_same hstarted c.1.vo c.1.length ▸ hm)
  obtain ⟨answers, u, d', hcalls, hkept, hanswers, hflat⟩ : ∃ answers u d',
      Stripe.runCalls s.volume e l.calls = some (answers, u, d') ∧ SameLayout s.volume u ∧
        answers.map Prod.fst = l.calls.map (fun c => served s.volume c.1.vo c.1.length) ∧
        FlatRun s.volume.virtualTotalBytes (vbyte s.volume e) (l.calls.map Prod.fst) answers (vbyte u d') := by
    rcases hkind with huncached | ⟨hcold, hcache⟩
    · exact runCalls_flat l.calls e huncached hl.succeeds hl.short hfit
    · exact cold_flat l.calls e hcold (hl.plain.resolve_left hcache) hl.succeeds hl.short hfit
  have huat : ∀ i < v.diskCount, u.diskAt i = l.disksOut i := by
    intro i hi
    rw [hkept.diskAt, hlayout.diskAt]
    exact hat i hi
  have hucount : u.diskCount = v.diskCount := hkept.diskCount.trans (hlayout.diskCount.trans hcount)
  have hu : SameMap v u := hstarted.trans (sameMap_of_layout (hv.same hstarted (hlayout.diskCount.trans hcount)) hkept)
  have hbefore : ∀ x < v.virtualTotalBytes, vbyte s.volume e x = g.byte v place x := by
    apply byte_eq hv hstarted
    intro i hi
    rw [hlayout.diskAt, hpool, ← hl.paths i hi]
    exact congrArg (fun k => g.pool (l.path k)) (hat i hi)
  have hlater : ∀ x < v.virtualTotalBytes,
      vbyte u d' x = Ground.byte ⟨savePools l.path u d' g.pool, (l.search g).2, files'⟩ v place x := by
    apply byte_eq hv hu
    intro i hi
    exact (savePools_member d' g.pool (fun i hi => by rw [huat i (hucount ▸ hi), hl.paths i (hucount ▸ hi)])
      (hucount.symm ▸ hplace) i (hucount.symm ▸ hi)).symm
  refine ⟨answers, ⟨savePools l.path u d' g.pool, (l.search g).2, files'⟩, ?_, ⟨hafter, hrows⟩, ?_, ?_⟩
  · have hload' : volumeLoad (l.args g).env l.letter l.disksOut .zero (l.disks g) g.journals = some (true, w, e, files') :=
      hload
    unfold Life.run
    rw [hload', Option.bind_some]
    simp only [hs, he, hcalls, Option.bind_some, Option.map_some]
  · rw [hanswers, hserved]
  · rw [hstarted.total] at hflat
    have hend : FlatRun v.virtualTotalBytes (vbyte u d') [] [] _ := fun x hx => (hlater x hx).symm
    have hall := (hflat.append hend).congr fun x hx => (hbefore x hx).symm
    rwa [List.append_nil, List.append_nil] at hall

/-- So do the processes one after the other. -/
theorem runLives_flat {sb : SuperblockV4} {member : Letter → Prop} (hmagic : sb.magic = superblockMagic)
    (hversion : sb.version = superblockVersion) (hv : Laid v) (hfits : VolumeFits v) (hsb : Describes sb.stored.base v)
    (hplace : ∀ i < v.diskCount, ∀ j < v.diskCount, place i = place j → i = j) (lives : List Life) :
    ∀ g : Ground, g.Holds sb member → (∀ l ∈ lives, l.Serves v place member) →
      ∃ answers g', runLives g lives = some (answers, g') ∧
        answers.map Prod.fst = (lives.flatMap Life.calls).map (fun c => served v c.1.vo c.1.length) ∧
        FlatRun v.virtualTotalBytes (g.byte v place) ((lives.flatMap Life.calls).map Prod.fst) answers
          (g'.byte v place) := by
  induction lives with
  | nil => intro g _ _; exact ⟨[], g, rfl, rfl, fun _ _ => rfl⟩
  | cons l lives ih =>
    intro g hg hl
    obtain ⟨as, g1, h1, hg1, h2, h3⟩ := l.run_flat hmagic hversion hv hfits hsb hplace hg (hl l (List.mem_cons_self ..))
    obtain ⟨bs, g2, h4, h5, h6⟩ := ih g1 hg1 fun l hmem => hl l (List.mem_cons_of_mem _ hmem)
    refine ⟨as ++ bs, g2, ?_, ?_, ?_⟩
    · simp only [runLives, h1, h4]
    · rw [List.map_append, h2, h5, List.flatMap_cons, List.map_append]
    · rw [List.flatMap_cons, List.map_append]
      exact h3.append h6

end Process

/-! ### From the first process on -/

theorem buildVolume_fits {d : Disks} {disks : List DiskId} {su : ℕ} {more : List (List DiskId)} {v : StripeVolume}
    (hlt : su < 2^32) (hpool : ∀ i ∈ disks ++ more.flatten, (d.info i).poolBytes < 2^64)
    (h : buildVolume d disks su more = some v) : VolumeFits v := by
  obtain ⟨u, hc, he⟩ := Option.bind_eq_some_iff.mp h
  have hu : VolumeFits u := stripeVolumeCreate_fits hlt (fun i hi => hpool i (List.mem_append_left _ hi)) hc
  have hmore : ∀ i ∈ more.flatten, (d.info i).poolBytes < 2^64 := fun i hi => hpool i (List.mem_append_right _ hi)
  clear hc h hpool
  induction more generalizing u with
  | nil => exact Option.some.inj he ▸ hu
  | cons new more ih =>
    rw [List.foldlM_cons] at he
    obtain ⟨x, hx, hr⟩ := Option.bind_eq_some_iff.mp he
    rw [List.flatten_cons] at hmore
    exact ih x hr (stripeVolumeExpand_fits hu (fun i hi => hmore i (List.mem_append_left _ hi)) hx)
      fun i hi => hmore i (List.mem_append_right _ hi)

/-- A superblock that is written to all members is the only one on the drives, if there was none elsewhere. -/
theorem write_shelved {u : Update} {r : Archive} (hwrite : u.succeeds r = true)
    (hblank : ∀ k, (∀ i < r.sys.v.diskCount, u.letter r i ≠ k) → r.drives k = ⟨none, none⟩) :
    Shelved (u.superblock r) (fun k => ∃ i < r.sys.v.diskCount, u.letter r i = k) (u.write r).drives := by
  constructor
  · rintro k ⟨i, hi, hk⟩
    exact driveOps_ok ⟨i, hi, hk, List.all_eq_true.mp hwrite i (List.mem_range.mpr hi)⟩ (r.drives k)
  · intro k hk
    simp only [Update.write, driveOps_other hk, perform_nil]
    exact hblank k fun i hi he => hk ⟨i, hi, he⟩

/-- The superblock of three members goes to the drives `C`, `D` and `E`. -/
def sampleStamp : Update := lettered (.create plainCreate [0, 1, 2] 5 6 7)

def sampleArchive : Archive := { Archive.empty sampleDisks with sys := ⟨sampleVolume, sampleDisks, .idle, .thread, false⟩ }

/-- A process that numbers the disks from 4 on. -/
def sampleLife (cache : Cache.CacheAlloc) (calls : List (Stripe.Call × IoEnv)) : Life where
  read := fun _ => .good
  fixed := isCDE
  opens := fun _ => true
  recover := fun _ => ⟨true, true, true, none, fun _ => .good, true⟩
  disksOut := fun i => i + 4
  info := sampleDisks.info
  letter := fun k => 0x43 + (k - 4)
  path := fun k => k - 4
  start := ⟨some (cache, true), true, true⟩
  calls := calls

theorem sampleCalls_fit : ∀ c ∈ sampleCalls, c.2.Succeeds ∧ c.1.length < 2^32 ∧ Stripe.Fits sampleVolume c.1.vo c.1.length := by
  intro c hc
  rcases List.mem_pair.mp hc with rfl | rfl
  · refine ⟨IoEnv.good_succeeds, by decide, fun es hm => ?_⟩
    have he : mapLba sampleVolume 300 1000 = some [⟨0, 300, 724⟩, ⟨1, 0, 276⟩] := by decide
    obtain rfl := Option.some.inj (he.symm.trans hm)
    decide
  · refine ⟨IoEnv.good_succeeds, by decide, fun es hm => ?_⟩
    have he : mapLba sampleVolume 0 2000 = some [⟨0, 0, 1024⟩, ⟨1, 0, 512⟩, ⟨0, 1024, 464⟩] := by decide
    obtain rfl := Option.some.inj (he.symm.trans hm)
    decide

theorem sampleLife_serves {cache : Cache.CacheAlloc} {calls : List (Stripe.Call × IoEnv)}
    (hcalls : ∀ c ∈ calls, c ∈ sampleCalls) (hplain : cache.buffer = false ∨ ∀ c ∈ calls, isRead c.1 = true) :
    (sampleLife cache calls).Serves sampleVolume (fun i => sampleVolume.diskAt i)
      fun k => ∃ i < sampleVolume.diskCount, sampleStamp.letter sampleArchive i = k := by
  refine ⟨⟨0x43, (by decide : 0x43 ∈ scanOrder isCDE 0), ⟨0, by decide, rfl⟩, rfl, rfl⟩, fun _ _ => rfl,
    fun _ _ _ => nofun, fun i _ j _ he => ?_, ?_,
    rfl, hplain.imp_left fun hno m thread hm => ?_, fun c hc => (sampleCalls_fit c (hcalls c hc)).1,
    fun c hc => (sampleCalls_fit c (hcalls c hc)).2.1, fun c hc => (sampleCalls_fit c (hcalls c hc)).2.2⟩
  · exact Nat.add_right_cancel he
  · exact (by decide : ∀ i < sampleVolume.diskCount, i + 4 - 4 = sampleVolume.diskAt i)
  · obtain ⟨rfl, _⟩ := Prod.mk.inj (Option.some.inj hm)
    rw [hno]
    rfl

end RaidTest.Service
