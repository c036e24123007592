import RaidTest.Journal.Scan
import RaidTest.Stripe.ReadWrite

/-!
# Recovery (`journal_recover_all`)

Every member's drive has a journal file of its own, found by the drive letter; members on one
drive share it. Each file is scanned for itself. An open transaction is written again with
`stripe_volume_write`; if that fails for one of its ranges the file stays, else it is emptied.
-/

namespace RaidTest.Journal
open RaidTest.Base RaidTest.Stripe

/-- `drive_letter[0]`. -/
abbrev Letter := ℕ

/-- `journal.dat` of each drive; a missing file is an empty one. -/
abbrev Files := Letter → List Byte

def Files.set (files : Files) (l : Letter) (content : List Byte) : Files :=
  fun k => if k = l then content else files k

theorem Files.set_same (files : Files) (l : Letter) (content : List Byte) : files.set l content l = content := if_pos rfl

theorem Files.set_other (files : Files) {l k : Letter} (content : List Byte) (h : k ≠ l) :
    files.set l content k = files k := if_neg h

/-- The answers of the environment about one member's journal: whether it can be opened,
measured and held in memory, how many bytes `ReadFile` gets if it succeeds, what becomes of
the write of the `i`-th range, and whether it can be emptied. -/
structure RecoverEnv where
  opens : Bool
  sized : Bool
  alloc : Bool
  read : Option ℕ
  io : ℕ → IoEnv
  empties : Bool

/-- The bytes `raw[0 .. read)`, if the member's journal is looked at. -/
def loadJournal (env : RecoverEnv) (content : List Byte) : Option (List Byte) :=
  if env.opens = false ∨ env.sized = false ∨ content.length = 0 ∨ content.length > maxJournal ∨ env.alloc = false then
    none
  else
    match env.read with
    | none => none
    | some n => if (content.take n).length < entrySize then none else some (content.take n)

/-- `raw + offset`. -/
def bufAt (raw : List Byte) (offset : ℕ) : Buf := fun i => raw.getD (offset + i) 0

/-- The loop over `ranges`, from number `i` on: how many failed. -/
def replayLoop (io : ℕ → IoEnv) (raw : List Byte) :
    List Range → ℕ → ℕ → StripeVolume → Disks → Option (ℕ × StripeVolume × Disks)
  | [], _, failed, v, d => some (failed, v, d)
  | r :: rs, i, failed, v, d =>
    if r.dataOff = 0 ∨ r.len = 0 then replayLoop io raw rs (i + 1) (failed + 1) v d
    else
      match stripeVolumeWrite (io i) v d (bufAt raw r.dataOff) r.off r.len with
      | none => none
      | some (true, v, d) => replayLoop io raw rs (i + 1) failed v d
      | some (false, v, d) => replayLoop io raw rs (i + 1) (failed + 1) v d

/-- What recovery makes of one member's journal: whether it was clean, the volume and the
disks after it, and whether the file is emptied. -/
def recoverJournal (env : RecoverEnv) (v : StripeVolume) (d : Disks) (content : List Byte) :
    Option (Bool × StripeVolume × Disks × Bool) :=
  match loadJournal env content with
  | none => some (true, v, d, false)
  | some raw =>
    match scan raw with
    | none => none
    | some s =>
      if s.incomplete then
        match replayLoop env.io raw s.ranges 0 0 v d with
        | none => none
        | some (failed, v, d) => some (false, v, d, failed == 0 && env.empties)
      else some (true, v, d, env.empties)

/-- The loop over the members, from number `di` on. -/
def recoverLoop (env : ℕ → RecoverEnv) (letter : DiskId → Letter) :
    ℕ → ℕ → Bool → StripeVolume → Disks → Files → Option (Bool × StripeVolume × Disks × Files)
  | 0, _, allClean, v, d, files => some (allClean, v, d, files)
  | n + 1, di, allClean, v, d, files =>
    let l := letter (v.diskAt di)
    match recoverJournal (env di) v d (files l) with
    | none => none
    | some (clean, v, d, empty) =>
      recoverLoop env letter n (di + 1) (allClean && clean) v d (if empty then files.set l [] else files)

/-- `journal_recover_all`. -/
def journalRecoverAll (env : ℕ → RecoverEnv) (letter : DiskId → Letter) (v : StripeVolume) (d : Disks)
    (files : Files) : Option (Bool × StripeVolume × Disks × Files) :=
  recoverLoop env letter v.diskCount 0 true v d files

/-- The journal can be read whole. -/
structure RecoverEnv.Reads (env : RecoverEnv) (content : List Byte) : Prop where
  opens : env.opens = true
  sized : env.sized = true
  alloc : env.alloc = true
  read : ∃ n, env.read = some n ∧ content.length ≤ n

theorem loadJournal_reads {env : RecoverEnv} {content : List Byte} (h : env.Reads content)
    (h1 : entrySize ≤ content.length) (h2 : content.length ≤ maxJournal) : loadJournal env content = some content := by
  have he : entrySize = 48 := rfl
  obtain ⟨n, hn, hle⟩ := h.read
  unfold loadJournal
  rw [h.opens, h.sized, h.alloc, hn, if_neg (by
    rintro (h | h | h | h | h)
    · cases h
    · cases h
    · omega
    · omega
    · cases h)]
  simp only
  rw [List.take_of_length_le hle, if_neg (by omega)]

/-! ### What every write keeps, recovery keeps -/

section Keeps
variable {P : StripeVolume → Disks → Prop}
  (hw : ∀ io v d buffer off len ok w e, P v d → stripeVolumeWrite io v d buffer off len = some (ok, w, e) → P w e)
include hw

theorem replayLoop_keeps (io : ℕ → IoEnv) (raw : List Byte) (rs : List Range) :
    ∀ (i failed : ℕ) {v w : StripeVolume} {d e : Disks} {n : ℕ}, P v d →
      replayLoop io raw rs i failed v d = some (n, w, e) → P w e := by
  induction rs with
  | nil =>
    intro i failed v w d e n h hr
    obtain ⟨_, rfl, rfl⟩ : failed = n ∧ v = w ∧ d = e := by
      have hr := Option.some.inj hr
      simp only [Prod.mk.injEq] at hr
      exact hr
    exact h
  | cons r rs ih =>
    intro i failed v w d e n h hr
    unfold replayLoop at hr
    split at hr
    · exact ih _ _ h hr
    cases hs : stripeVolumeWrite (io i) v d (bufAt raw r.dataOff) r.off r.len with
    | none =>
      rw [hs] at hr
      cases hr
    | some x =>
      obtain ⟨ok, v1, d1⟩ := x
      have h1 := hw _ _ _ _ _ _ _ _ _ h hs
      rw [hs] at hr
      cases ok with
      | true => exact ih _ _ h1 hr
      | false => exact ih _ _ h1 hr

theorem recoverJournal_keeps {env : RecoverEnv} {v w : StripeVolume} {d e : Disks} {content : List Byte}
    {clean empty : Bool} (h : P v d) (hr : recoverJournal env v d content = some (clean, w, e, empty)) : P w e := by
  unfold recoverJournal at hr
  split at hr
  · simp only [Option.some.injEq, Prod.mk.injEq] at hr
    obtain ⟨_, rfl, rfl, _⟩ := hr
    exact h
  split at hr
  · cases hr
  split at hr
  · split at hr
    · cases hr
    · next hreplay =>
      simp only [Option.some.injEq, Prod.mk.injEq] at hr
      obtain ⟨_, rfl, rfl, _⟩ := hr
      exact replayLoop_keeps hw _ _ _ _ _ h hreplay
  · simp only [Option.some.injEq, Prod.mk.injEq] at hr
    obtain ⟨_, rfl, rfl, _⟩ := hr
    exact h

theorem recoverLoop_keeps (env : ℕ → RecoverEnv) (letter : DiskId → Letter) (n : ℕ) :
    ∀ (di : ℕ) (allClean : Bool) {v w : StripeVolume} {d e : Disks} {files files' : Files} {clean : Bool}, P v d →
      recoverLoop env letter n di allClean v d files = some (clean, w, e, files') → P w e := by
  induction n with
  | zero =>
    intro di allClean v w d e files files' clean h hr
    simp only [recoverLoop, Option.some.injEq, Prod.mk.injEq] at hr
    obtain ⟨_, rfl, rfl, _⟩ := hr
    exact h
  | succ n ih =>
    intro di allClean v w d e files files' clean h hr
    unfold recoverLoop at hr
    simp only at hr
    split at hr
    · cases hr
    · next hj => exact ih _ _ (recoverJournal_keeps hw h hj) hr

theorem journalRecoverAll_keeps {env : ℕ → RecoverEnv} {letter : DiskId → Letter} {v w : StripeVolume} {d e : Disks}
    {files files' : Files} {clean : Bool} (h : P v d)
    (hr : journalRecoverAll env letter v d files = some (clean, w, e, files')) : P w e :=
  recoverLoop_keeps hw env letter v.diskCount 0 true h hr

end Keeps

end RaidTest.Journal
