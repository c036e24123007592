import RaidTest.Base.Since
import RaidTest.Base.Trace
import Mathlib.Data.Nat.Notation
import Mathlib.Data.List.Basic

/-!
# One job at a time (`start_worker`, `worker_thread`, `cancel_worker`, `check_worker_done`)

The window's thread hands a job over in the global record and starts a thread for it. The
thread writes its result into the same record and raises `worker_done`; the window's thread
looks at that flag once in a frame, logs the result, waits for the thread and gives the record
free. Only `worker_running` keeps two jobs apart.
-/

namespace RaidTest.Gui
open RaidTest.Base

inductive WorkerAction where
  | wNone
  | wScan | wCreate | wMirror | wMount | wUnmount | wDestroy
  | wRefresh | wBenchfs | wExport
  | wQuickSetup | wLoadSuperblock | wLoadConfig | wAutoRestore
  | wRebuild | wCheck
  | wSimulateFail | wSimulateHealthy | wSimulateDisconnect
  | wWizardScan | wWizardCreate
  | wCleanup
  | wCache
  | wPurge
  | wBench
  | wTest
  | wRandom
  | wConfigSave
  | wConfigLoad
  | wExpand
  | wMap
  | wMetadata
  deriving DecidableEq

/-- How often the case of an action in `worker_thread` looks at `worker_cancel`. -/
def WorkerAction.looks : WorkerAction → ℕ
  | .wCreate => 1
  | .wMirror => 1
  | .wQuickSetup => 3
  | _ => 0

/-- An action and the text of its parameters; without parameters the text is empty. -/
structure Job where
  action : WorkerAction
  params : List Char
  deriving DecidableEq

/-- What the record holds of a job: `worker_params` has 256 bytes. -/
def Job.stored (j : Job) : Job := ⟨j.action, j.params.take 255⟩

def cancelled : List Char := "Cancelled".toList

/-! ### The threads -/

/-- Where a thread is. `ending` has raised `worker_done` and not yet returned. -/
inductive ThreadPc where
  | created
  | working (left : ℕ)
  | leaving
  | ending
  | exited
  deriving DecidableEq

/-- A thread, the job it was started for, what it has read of the record, and its result. -/
structure Thread where
  job : Job
  pc : ThreadPc
  reads : List Job
  result : Option (List Char)
  deriving DecidableEq

/-- Where the window's thread is: in `start_worker` or in `check_worker_done`, or outside. -/
inductive UiPc where
  | idle
  | filling (job : Job)
  | launching (job : Job)
  | joining
  | freeing
  | clearing
  deriving DecidableEq

/-- The lines the window's thread logs. -/
inductive UiLine where
  | busy
  | cancelling
  | result (r : List Char)
  deriving DecidableEq

def UiLine.text : UiLine → List Char
  | .busy => "Busy: wait for current operation to finish".toList
  | .cancelling => "Cancelling operation...".toList
  | .result r => r

def UiLine.reported : UiLine → Option (List Char)
  | .result r => some r
  | _ => none

/-- The fields of `g_gui` the worker uses, and all threads that were ever started. -/
structure Worker where
  running : Bool
  done : Bool
  cancel : Bool
  action : WorkerAction
  params : List Char
  result : List Char
  handle : Option ℕ
  threads : List Thread
  ui : UiPc
  log : List UiLine
  status : List Char

def Worker.start : Worker := ⟨false, false, false, .wNone, [], [], none, [], .idle, [], []⟩

def Worker.reported (s : Worker) : List (List Char) := s.log.filterMap UiLine.reported

/-- The job in the record. -/
def Worker.held (s : Worker) : Job := ⟨s.action, s.params⟩

/-! ### Steps -/

inductive Label where
  | start (job : Job)
  | fill
  | launch (created : Bool)
  | cancel
  | check
  | join
  | free
  | clear
  | begin (i : ℕ)
  | look (i : ℕ)
  | finish (i : ℕ) (r : List Char)
  | leave (i : ℕ)
  | exit (i : ℕ)

/-- `worker_thread` up to the switch. -/
def beginStep (s : Worker) (i : ℕ) (t : Thread) : Option Worker :=
  match t.pc with
  | .created => some { s with
      result := [], cancel := false
      threads := s.threads.set i ⟨t.job, .working s.action.looks, t.reads ++ [s.held], none⟩ }
  | _ => none

/-- A look at `worker_cancel` inside an action. -/
def lookStep (s : Worker) (i : ℕ) (t : Thread) : Option Worker :=
  match t.pc with
  | .working (n + 1) =>
    if s.cancel then some { s with
      result := cancelled
      threads := s.threads.set i ⟨t.job, .leaving, t.reads ++ [s.held], some cancelled⟩ }
    else some { s with threads := s.threads.set i ⟨t.job, .working n, t.reads ++ [s.held], none⟩ }
  | _ => none

/-- The end of an action with a result of its own. Only the quick setup can end between two
looks, and no action's own text is `Cancelled`. -/
def finishStep (s : Worker) (i : ℕ) (t : Thread) (r : List Char) : Option Worker :=
  match t.pc with
  | .working n =>
    if (n = 0 ∨ t.job.action = .wQuickSetup) ∧ r.take 510 ≠ cancelled then some { s with
      result := r.take 510
      threads := s.threads.set i ⟨t.job, .leaving, t.reads ++ [s.held], some (r.take 510)⟩ }
    else none
  | _ => none

/-- `worker_done` is raised. -/
def leaveStep (s : Worker) (i : ℕ) (t : Thread) : Option Worker :=
  match t.pc with
  | .leaving => some { s with done := true, threads := s.threads.set i ⟨t.job, .ending, t.reads, t.result⟩ }
  | _ => none

def exitStep (s : Worker) (i : ℕ) (t : Thread) : Option Worker :=
  match t.pc with
  | .ending => some { s with threads := s.threads.set i ⟨t.job, .exited, t.reads, t.result⟩ }
  | _ => none

/-- `WaitForSingleObject` returns for a thread that has returned; without a handle nothing is
waited for. -/
def Worker.joinable (s : Worker) : Bool :=
  match s.handle with
  | none => true
  | some i => (s.threads[i]?).any fun t => t.pc = .exited

/-- One step of one thread. The cancel button is shown while a job runs. -/
def step (s : Worker) : Label → Option Worker
  | .start job =>
    if s.ui = .idle then
      if s.running then some { s with log := s.log ++ [.busy] }
      else some { s with running := true, ui := .filling job }
    else none
  | .fill =>
    match s.ui with
    | .filling job => some { s with
        action := job.action, result := [], done := false, params := job.params.take 255, ui := .launching job }
    | _ => none
  | .launch created =>
    match s.ui with
    | .launching job =>
      if created then some { s with
        handle := some s.threads.length, threads := s.threads ++ [⟨job, .created, [], none⟩], ui := .idle }
      else some { s with handle := none, ui := .idle }
    | _ => none
  | .cancel =>
    if s.ui = .idle ∧ s.running then some { s with cancel := true, log := s.log ++ [.cancelling] } else none
  | .check =>
    if s.ui = .idle then
      if s.done then some { s with
        log := s.log ++ [.result s.result], status := s.result.take 127, ui := .joining }
      else some s
    else none
  | .join => if s.ui = .joining ∧ s.joinable then some { s with handle := none, ui := .freeing } else none
  | .free => if s.ui = .freeing then some { s with running := false, ui := .clearing } else none
  | .clear => if s.ui = .clearing then some { s with done := false, ui := .idle } else none
  | .begin i => (s.threads[i]?).bind fun t => beginStep s i t
  | .look i => (s.threads[i]?).bind fun t => lookStep s i t
  | .finish i r => (s.threads[i]?).bind fun t => finishStep s i t r
  | .leave i => (s.threads[i]?).bind fun t => leaveStep s i t
  | .exit i => (s.threads[i]?).bind fun t => exitStep s i t

/-! ### What a step of the window's thread needs and does -/

section
variable {s s' : Worker}

theorem step_start {job : Job} (h : step s (.start job) = some s') : s.ui = .idle ∧
    (s.running = true ∧ s' = { s with log := s.log ++ [.busy] } ∨
      ¬ s.running = true ∧ s' = { s with running := true, ui := .filling job }) := by
  delta step at h
  simp only at h
  split at h
  next hui =>
    split at h
    next hrun => exact ⟨hui, Or.inl ⟨hrun, (Option.some.inj h).symm⟩⟩
    next hrun => exact ⟨hui, Or.inr ⟨hrun, (Option.some.inj h).symm⟩⟩
  next => cases h

theorem step_fill (h : step s .fill = some s') : ∃ job, s.ui = .filling job ∧
    s' = { s with
      action := job.action, result := [], done := false, params := job.params.take 255, ui := .launching job } := by
  delta step at h
  simp only at h
  split at h
  next job hui => exact ⟨job, hui, (Option.some.inj h).symm⟩
  next => cases h

theorem step_launch {created : Bool} (h : step s (.launch created) = some s') : ∃ job, s.ui = .launching job ∧
    (created = true ∧ s' = { s with
        handle := some s.threads.length, threads := s.threads ++ [⟨job, .created, [], none⟩], ui := .idle } ∨
      created = false ∧ s' = { s with handle := none, ui := .idle }) := by
  delta step at h
  simp only at h
  split at h
  next job hui =>
    cases created with
    | true => exact ⟨job, hui, Or.inl ⟨rfl, (Option.some.inj h).symm⟩⟩
    | false => exact ⟨job, hui, Or.inr ⟨rfl, (Option.some.inj h).symm⟩⟩
  next => cases h

theorem step_cancel (h : step s .cancel = some s') :
    s.ui = .idle ∧ s.running = true ∧ s' = { s with cancel := true, log := s.log ++ [.cancelling] } := by
  delta step at h
  simp only at h
  split at h
  next hc => exact ⟨hc.1, hc.2, (Option.some.inj h).symm⟩
  next => cases h

theorem step_check (h : step s .check = some s') : s.ui = .idle ∧
    (s.done = true ∧ s' = { s with log := s.log ++ [.result s.result], status := s.result.take 127, ui := .joining } ∨
      ¬ s.done = true ∧ s' = s) := by
  delta step at h
  simp only at h
  split at h
  next hui =>
    split at h
    next hdone => exact ⟨hui, Or.inl ⟨hdone, (Option.some.inj h).symm⟩⟩
    next hdone => exact ⟨hui, Or.inr ⟨hdone, (Option.some.inj h).symm⟩⟩
  next => cases h

theorem step_join (h : step s .join = some s') :
    s.ui = .joining ∧ s.joinable = true ∧ s' = { s with handle := none, ui := .freeing } := by
  delta step at h
  simp only at h
  split at h
  next hc => exact ⟨hc.1, hc.2, (Option.some.inj h).symm⟩
  next => cases h

theorem step_free (h : step s .free = some s') : s.ui = .freeing ∧ s' = { s with running := false, ui := .clearing } := by
  delta step at h
  simp only at h
  split at h
  next hui => exact ⟨hui, (Option.some.inj h).symm⟩
  next => cases h

theorem step_clear (h : step s .clear = some s') : s.ui = .clearing ∧ s' = { s with done := false, ui := .idle } := by
  delta step at h
  simp only at h
  split at h
  next hui => exact ⟨hui, (Option.some.inj h).symm⟩
  next => cases h

end

/-! ### What a step of a thread needs and does -/

section
variable {s s' : Worker} {i : ℕ} {t : Thread}

theorem beginStep_some (h : beginStep s i t = some s') : t.pc = .created ∧ s' = { s with
    result := [], cancel := false
    threads := s.threads.set i ⟨t.job, .working s.action.looks, t.reads ++ [s.held], none⟩ } := by
  delta beginStep at h
  split at h
  next hpc => exact ⟨hpc, (Option.some.inj h).symm⟩
  next => cases h

theorem lookStep_some (h : lookStep s i t = some s') : ∃ n, t.pc = .working (n + 1) ∧
    (s.cancel = true ∧ s' = { s with
        result := cancelled
        threads := s.threads.set i ⟨t.job, .leaving, t.reads ++ [s.held], some cancelled⟩ } ∨
      s' = { s with threads := s.threads.set i ⟨t.job, .working n, t.reads ++ [s.held], none⟩ }) := by
  delta lookStep at h
  split at h
  next n hpc =>
    split at h
    next hc => exact ⟨n, hpc, Or.inl ⟨hc, (Option.some.inj h).symm⟩⟩
    next => exact ⟨n, hpc, Or.inr (Option.some.inj h).symm⟩
  next => cases h

theorem finishStep_some {r : List Char} (h : finishStep s i t r = some s') : ∃ n, t.pc = .working n ∧
    r.take 510 ≠ cancelled ∧ s' = { s with
      result := r.take 510
      threads := s.threads.set i ⟨t.job, .leaving, t.reads ++ [s.held], some (r.take 510)⟩ } := by
  delta finishStep at h
  split at h
  next n hpc =>
    split at h
    next hr => exact ⟨n, hpc, hr.2, (Option.some.inj h).symm⟩
    next => cases h
  next => cases h

theorem leaveStep_some (h : leaveStep s i t = some s') : t.pc = .leaving ∧
    s' = { s with done := true, threads := s.threads.set i ⟨t.job, .ending, t.reads, t.result⟩ } := by
  delta leaveStep at h
  split at h
  next hpc => exact ⟨hpc, (Option.some.inj h).symm⟩
  next => cases h

theorem exitStep_some (h : exitStep s i t = some s') : t.pc = .ending ∧
    s' = { s with threads := s.threads.set i ⟨t.job, .exited, t.reads, t.result⟩ } := by
  delta exitStep at h
  split at h
  next hpc => exact ⟨hpc, (Option.some.inj h).symm⟩
  next => cases h

end

/-! ### One thread at a time -/

/-- The thread has seen no job but its own. -/
def Thread.Own (t : Thread) : Prop := ∀ j ∈ t.reads, j = t.job.stored

/-- The threads have returned, and these are their results. -/
structure Ran (ts : List Thread) (rs : List (List Char)) : Prop where
  exited : ∀ t ∈ ts, t.pc = .exited
  own : ∀ t ∈ ts, t.Own
  results : ts.map Thread.result = rs.map some

/-- The thread at work and the record it shares with the window's thread. -/
structure Serving (s : Worker) (t : Thread) : Prop where
  held : s.held = t.job.stored
  own : t.Own
  done : s.done = true ↔ t.pc = .ending ∨ t.pc = .exited
  result : t.pc = .leaving ∨ t.pc = .ending ∨ t.pc = .exited → t.result = some s.result
  pending : t.pc = .created ∨ (∃ n, t.pc = .working n) → t.result = none

/-- While `worker_running` is raised either a thread serves the job, or none could be started. -/
inductive Busy (s : Worker) : Prop where
  | lost (handle : s.handle = none) (done : s.done = false) (ran : Ran s.threads s.reported)
  | serving (old : List Thread) (t : Thread) (threads : s.threads = old ++ [t])
      (handle : s.handle = some old.length) (ran : Ran old s.reported) (serving : Serving s t)

/-- The invariant, by the place of the window's thread. -/
def Inv (s : Worker) : Prop :=
  match s.ui with
  | .idle => if s.running then Busy s else s.handle = none ∧ s.done = false ∧ Ran s.threads s.reported
  | .filling _ => s.running = true ∧ s.handle = none ∧ s.done = false ∧ Ran s.threads s.reported
  | .launching job => s.running = true ∧ s.handle = none ∧ s.done = false ∧ Ran s.threads s.reported ∧
      s.held = job.stored
  | .joining => s.running = true ∧ s.done = true ∧ ∃ old t rs, s.threads = old ++ [t] ∧
      s.handle = some old.length ∧ Ran old rs ∧ s.reported = rs ++ [s.result] ∧ Serving s t
  | .freeing => s.running = true ∧ s.handle = none ∧ s.done = true ∧ Ran s.threads s.reported
  | .clearing => s.running = false ∧ s.handle = none ∧ s.done = true ∧ Ran s.threads s.reported

theorem inv_start : Inv Worker.start := ⟨rfl, rfl, fun t ht => (by cases ht), fun t ht => (by cases ht), rfl⟩

theorem reported_concat (l : List UiLine) (x : UiLine) :
    (l ++ [x]).filterMap UiLine.reported = l.filterMap UiLine.reported ++ x.reported.toList := by
  rw [List.filterMap_append]
  cases x <;> rfl

theorem Ran.concat {ts : List Thread} {rs : List (List Char)} (h : Ran ts rs) {t : Thread} (ht : t.pc = .exited)
    (hown : t.Own) {r : List Char} (hr : t.result = some r) : Ran (ts ++ [t]) (rs ++ [r]) := by
  refine ⟨fun u hu => ?_, fun u hu => ?_, ?_⟩
  · rcases List.mem_append.mp hu with hu | hu
    · exact h.exited u hu
    · rw [List.mem_singleton.mp hu]
      exact ht
  · rcases List.mem_append.mp hu with hu | hu
    · exact h.own u hu
    · rw [List.mem_singleton.mp hu]
      exact hown
  · rw [List.map_append, List.map_append, h.results, List.map_singleton, List.map_singleton, hr]

/-- A thread that has not returned is the last one. -/
theorem Ran.last {old : List Thread} {rs : List (List Char)} (h : Ran old rs) {t u : Thread} {i : ℕ}
    (hu : (old ++ [t])[i]? = some u) (hpc : u.pc ≠ .exited) : i = old.length ∧ u = t := by
  by_cases hi : i < old.length
  · rw [List.getElem?_append_left hi] at hu
    exact absurd (h.exited u (List.mem_of_getElem? hu)) hpc
  · rw [List.getElem?_append_right (by omega), List.getElem?_singleton] at hu
    split at hu
    · exact ⟨by omega, (Option.some.inj hu).symm⟩
    · cases hu

theorem set_last (old : List Thread) (t u : Thread) : (old ++ [t]).set old.length u = old ++ [u] := by
  rw [List.set_append_right _ _ (Nat.le_refl _), Nat.sub_self, List.set_cons_zero]

/-- What one step of a thread does: it moves thread `i`, which has not returned, on, and touches
only the result and the two flags of the record. -/
structure Moves (s s' : Worker) (i : ℕ) (t t' : Thread) : Prop where
  at_i : s.threads[i]? = some t
  live : t.pc ≠ .exited
  threads : s'.threads = s.threads.set i t'
  running : s'.running = s.running
  handle : s'.handle = s.handle
  held : s'.held = s.held
  ui : s'.ui = s.ui
  log : s'.log = s.log
  ended : t.pc = .ending → s'.result = s.result ∧ s'.done = s.done
  serving : Serving s t → Serving s' t'

theorem Thread.Own.read {t : Thread} (h : t.Own) {s : Worker} (hs : s.held = t.job.stored) (pc : ThreadPc)
    (r : Option (List Char)) : Thread.Own ⟨t.job, pc, t.reads ++ [s.held], r⟩ := by
  intro j hj
  rcases List.mem_append.mp hj with hj | hj
  · exact h j hj
  · rw [List.mem_singleton.mp hj, hs]

theorem Serving.not_done {s : Worker} {t : Thread} (h : Serving s t) (h1 : t.pc ≠ .ending) (h2 : t.pc ≠ .exited) :
    s.done = false := by
  cases hd : s.done with
  | false => rfl
  | true =>
    rcases h.done.mp hd with he | he
    · exact absurd he h1
    · exact absurd he h2

section
variable {s s' : Worker} {i : ℕ} {t : Thread}

theorem beginStep_moves (hi : s.threads[i]? = some t) (h : beginStep s i t = some s') : ∃ t', Moves s s' i t t' := by
  obtain ⟨hpc, rfl⟩ := beginStep_some h
  have hlive : t.pc ≠ .exited := by simp [hpc]
  have hnot : t.pc ≠ .ending := by simp [hpc]
  refine ⟨_, hi, hlive, rfl, rfl, rfl, rfl, rfl, rfl, fun he => absurd he hnot, fun hs => ?_⟩
  have hd := hs.not_done hnot hlive
  exact ⟨hs.held, hs.own.read hs.held _ _, by simp only [hd]; simp, by simp, fun _ => rfl⟩

theorem lookStep_moves (hi : s.threads[i]? = some t) (h : lookStep s i t = some s') : ∃ t', Moves s s' i t t' := by
  obtain ⟨n, hpc, hs'⟩ := lookStep_some h
  have hlive : t.pc ≠ .exited := by simp [hpc]
  have hnot : t.pc ≠ .ending := by simp [hpc]
  rcases hs' with ⟨-, rfl⟩ | rfl
  · refine ⟨_, hi, hlive, rfl, rfl, rfl, rfl, rfl, rfl, fun he => absurd he hnot, fun hs => ?_⟩
    have hd := hs.not_done hnot hlive
    exact ⟨hs.held, hs.own.read hs.held _ _, by simp only [hd]; simp, fun _ => rfl, by simp⟩
  · refine ⟨_, hi, hlive, rfl, rfl, rfl, rfl, rfl, rfl, fun he => absurd he hnot, fun hs => ?_⟩
    have hd := hs.not_done hnot hlive
    exact ⟨hs.held, hs.own.read hs.held _ _, by simp only [hd]; simp, by simp, fun _ => rfl⟩

theorem finishStep_moves {r : List Char} (hi : s.threads[i]? = some t) (h : finishStep s i t r = some s') :
    ∃ t', Moves s s' i t t' := by
  obtain ⟨n, hpc, -, rfl⟩ := finishStep_some h
  have hlive : t.pc ≠ .exited := by simp [hpc]
  have hnot : t.pc ≠ .ending := by simp [hpc]
  refine ⟨_, hi, hlive, rfl, rfl, rfl, rfl, rfl, rfl, fun he => absurd he hnot, fun hs => ?_⟩
  have hd := hs.not_done hnot hlive
  exact ⟨hs.held, hs.own.read hs.held _ _, by simp only [hd]; simp, fun _ => rfl, by simp⟩

theorem leaveStep_moves (hi : s.threads[i]? = some t) (h : leaveStep s i t = some s') : ∃ t', Moves s s' i t t' := by
  obtain ⟨hpc, rfl⟩ := leaveStep_some h
  refine ⟨_, hi, by simp [hpc], rfl, rfl, rfl, rfl, rfl, rfl, fun he => ?_, fun hs => ?_⟩
  · rw [hpc] at he
    cases he
  · exact ⟨hs.held, hs.own, by simp, fun _ => hs.result (Or.inl hpc), by simp⟩

theorem exitStep_moves (hi : s.threads[i]? = some t) (h : exitStep s i t = some s') : ∃ t', Moves s s' i t t' := by
  obtain ⟨hpc, rfl⟩ := exitStep_some h
  refine ⟨_, hi, by simp [hpc], rfl, rfl, rfl, rfl, rfl, rfl, fun _ => ⟨rfl, rfl⟩, fun hs => ?_⟩
  have hd : s.done = true := hs.done.mpr (Or.inl hpc)
  exact ⟨hs.held, hs.own, by simp [hd], fun _ => hs.result (Or.inr (Or.inl hpc)), by simp⟩

end

theorem Moves.reported {s s' : Worker} {i : ℕ} {t t' : Thread} (m : Moves s s' i t t') : s'.reported = s.reported := by
  rw [Worker.reported, Worker.reported, m.log]

/-- While every thread has returned, none moves. -/
theorem Moves.not_ran {s s' : Worker} {i : ℕ} {t t' : Thread} (m : Moves s s' i t t') {rs : List (List Char)} :
    ¬ Ran s.threads rs := fun h => m.live (h.exited t (List.mem_of_getElem? m.at_i))

theorem Inv.busy {s : Worker} (hs : Inv s) (hui : s.ui = .idle) (hrun : s.running = true) : Busy s := by
  rw [Inv, hui] at hs
  simp only at hs
  rw [if_pos hrun] at hs
  exact hs

theorem Busy.inv {s : Worker} (hs : Busy s) (hui : s.ui = .idle) (hrun : s.running = true) : Inv s := by
  rw [Inv, hui]
  simp only
  rw [if_pos hrun]
  exact hs

theorem inv_free {s : Worker} (hui : s.ui = .idle) (hrun : ¬ s.running = true) :
    Inv s ↔ s.handle = none ∧ s.done = false ∧ Ran s.threads s.reported := by
  rw [Inv, hui]
  simp only
  rw [if_neg hrun]

theorem moves_inv {s s' : Worker} {i : ℕ} {t t' : Thread} (m : Moves s s' i t t') (hs : Inv s) : Inv s' := by
  cases hui : s.ui with
  | idle =>
    by_cases hrun : s.running = true
    · cases hs.busy hui hrun with
      | lost handle done ran => exact absurd ran m.not_ran
      | serving old u threads handle ran serving =>
        have hi := m.at_i
        rw [threads] at hi
        obtain ⟨rfl, rfl⟩ := ran.last hi m.live
        have hb : Busy s' := by
          refine Busy.serving old t' ?_ (m.handle.trans handle) (by rw [m.reported]; exact ran) (m.serving serving)
          rw [m.threads, threads, set_last]
        exact hb.inv (m.ui.trans hui) (m.running.trans hrun)
    · exact absurd ((inv_free hui hrun).mp hs).2.2 m.not_ran
  | filling job =>
    rw [Inv, hui] at hs
    exact absurd hs.2.2.2 m.not_ran
  | launching job =>
    rw [Inv, hui] at hs
    exact absurd hs.2.2.2.1 m.not_ran
  | joining =>
    rw [Inv, hui] at hs
    obtain ⟨hrun, hdone, old, u, rs, threads, handle, ran, reported, serving⟩ := hs
    have hi := m.at_i
    rw [threads] at hi
    obtain ⟨rfl, rfl⟩ := ran.last hi m.live
    have hending : t.pc = .ending := (serving.done.mp hdone).resolve_right m.live
    obtain ⟨hresult, hd⟩ := m.ended hending
    rw [Inv, m.ui, hui]
    refine ⟨m.running.trans hrun, hd.trans hdone, old, t', rs, ?_, m.handle.trans handle, ran, ?_, m.serving serving⟩
    · rw [m.threads, threads, set_last]
    · rw [m.reported, reported, hresult]
  | freeing =>
    rw [Inv, hui] at hs
    exact absurd hs.2.2.2 m.not_ran
  | clearing =>
    rw [Inv, hui] at hs
    exact absurd hs.2.2.2 m.not_ran

/-! ### The window's thread -/

/-- A line that is no result changes nothing the invariant speaks of. -/
theorem Busy.logged {s : Worker} (h : Busy s) (x : UiLine) (hx : x.reported = none) (cancel : Bool) :
    Busy { s with cancel := cancel, log := s.log ++ [x] } := by
  have hrep : Worker.reported { s with cancel := cancel, log := s.log ++ [x] } = s.reported := by
    rw [Worker.reported, reported_concat, hx]
    exact List.append_nil _
  cases h with
  | lost handle done ran => exact Busy.lost handle done (by rw [hrep]; exact ran)
  | serving old t threads handle ran serving =>
    exact Busy.serving old t threads handle (by rw [hrep]; exact ran)
      ⟨serving.held, serving.own, serving.done, serving.result, serving.pending⟩

theorem start_inv {s s' : Worker} {job : Job} (hs : Inv s) (h : step s (.start job) = some s') : Inv s' := by
  obtain ⟨hui, ⟨hrun, rfl⟩ | ⟨hrun, rfl⟩⟩ := step_start h
  · exact ((hs.busy hui hrun).logged .busy rfl s.cancel).inv hui hrun
  · obtain ⟨handle, done, ran⟩ := (inv_free hui hrun).mp hs
    exact ⟨rfl, handle, done, ran⟩

theorem fill_inv {s s' : Worker} (hs : Inv s) (h : step s .fill = some s') : Inv s' := by
  obtain ⟨job, hui, rfl⟩ := step_fill h
  rw [Inv, hui] at hs
  exact ⟨hs.1, hs.2.1, rfl, hs.2.2.2, rfl⟩

theorem launch_inv {s s' : Worker} {created : Bool} (hs : Inv s) (h : step s (.launch created) = some s') : Inv s' := by
  obtain ⟨job, hui, hs'⟩ := step_launch h
  rw [Inv, hui] at hs
  obtain ⟨hrun, -, hdone, ran, held⟩ := hs
  rcases hs' with ⟨-, rfl⟩ | ⟨-, rfl⟩
  · refine Busy.inv (Busy.serving s.threads _ rfl rfl ran ⟨held, fun j hj => (by cases hj), ?_, ?_, fun _ => rfl⟩) rfl hrun
    · simp [hdone]
    · simp
  · exact Busy.inv (Busy.lost rfl hdone ran) rfl hrun

theorem cancel_inv {s s' : Worker} (hs : Inv s) (h : step s .cancel = some s') : Inv s' := by
  obtain ⟨hui, hrun, rfl⟩ := step_cancel h
  exact ((hs.busy hui hrun).logged .cancelling rfl true).inv hui hrun

theorem check_inv {s s' : Worker} (hs : Inv s) (h : step s .check = some s') : Inv s' := by
  obtain ⟨hui, ⟨hdone, rfl⟩ | ⟨-, rfl⟩⟩ := step_check h
  · by_cases hrun : s.running = true
    · cases hs.busy hui hrun with
      | lost handle done ran => rw [done] at hdone; cases hdone
      | serving old t threads handle ran serving =>
        refine ⟨hrun, hdone, old, t, s.reported, threads, handle, ran, reported_concat _ _, ?_⟩
        exact ⟨serving.held, serving.own, serving.done, serving.result, serving.pending⟩
    · have hd := ((inv_free hui hrun).mp hs).2.1
      rw [hd] at hdone
      cases hdone
  · exact hs

theorem join_inv {s s' : Worker} (hs : Inv s) (h : step s .join = some s') : Inv s' := by
  obtain ⟨hui, hjoin, rfl⟩ := step_join h
  rw [Inv, hui] at hs
  obtain ⟨hrun, hdone, old, t, rs, threads, handle, ran, reported, serving⟩ := hs
  rw [Worker.joinable, handle, threads] at hjoin
  simp only [List.getElem?_append_right (Nat.le_refl _), Nat.sub_self, List.getElem?_cons_zero, Option.any_some,
    decide_eq_true_eq] at hjoin
  refine ⟨hrun, rfl, hdone, ?_⟩
  have hran := ran.concat hjoin serving.own (serving.result (Or.inr (Or.inr hjoin)))
  rw [← threads, ← reported] at hran
  exact hran

theorem free_inv {s s' : Worker} (hs : Inv s) (h : step s .free = some s') : Inv s' := by
  obtain ⟨hui, rfl⟩ := step_free h
  rw [Inv, hui] at hs
  exact ⟨rfl, hs.2.1, hs.2.2.1, hs.2.2.2⟩

theorem clear_inv {s s' : Worker} (hs : Inv s) (h : step s .clear = some s') : Inv s' := by
  obtain ⟨hui, rfl⟩ := step_clear h
  rw [Inv, hui] at hs
  obtain ⟨hrun, handle, -, ran⟩ := hs
  exact (inv_free rfl (by rw [hrun]; exact Bool.false_ne_true)).mpr ⟨handle, rfl, ran⟩

theorem step_inv {s s' : Worker} {l : Label} (hs : Inv s) (h : step s l = some s') : Inv s' := by
  cases l with
  | start job => exact start_inv hs h
  | fill => exact fill_inv hs h
  | launch created => exact launch_inv hs h
  | cancel => exact cancel_inv hs h
  | check => exact check_inv hs h
  | join => exact join_inv hs h
  | free => exact free_inv hs h
  | clear => exact clear_inv hs h
  | begin i =>
    obtain ⟨t, hi, ht⟩ := Option.bind_eq_some_iff.mp h
    obtain ⟨t', m⟩ := beginStep_moves hi ht
    exact moves_inv m hs
  | look i =>
    obtain ⟨t, hi, ht⟩ := Option.bind_eq_some_iff.mp h
    obtain ⟨t', m⟩ := lookStep_moves hi ht
    exact moves_inv m hs
  | finish i r =>
    obtain ⟨t, hi, ht⟩ := Option.bind_eq_some_iff.mp h
    obtain ⟨t', m⟩ := finishStep_moves hi ht
    exact moves_inv m hs
  | leave i =>
    obtain ⟨t, hi, ht⟩ := Option.bind_eq_some_iff.mp h
    obtain ⟨t', m⟩ := leaveStep_moves hi ht
    exact moves_inv m hs
  | exit i =>
    obtain ⟨t, hi, ht⟩ := Option.bind_eq_some_iff.mp h
    obtain ⟨t', m⟩ := exitStep_moves hi ht
    exact moves_inv m hs

theorem run_inv {s : Worker} {ls : List Label} (h : run step Worker.start ls = some s) : Inv s :=
  run_preserves (fun _ _ _ hi ht => step_inv hi ht) inv_start h

/-- All threads have returned, or the last one serves the job in the record. -/
theorem Inv.shape {s : Worker} (hs : Inv s) :
    (Ran s.threads s.reported ∧ (s.running = false → s.handle = none)) ∨
      (s.running = true ∧ ∃ old t rs, s.threads = old ++ [t] ∧ Ran old rs ∧ Serving s t ∧
        (s.reported = rs ∨ s.done = true ∧ s.reported = rs ++ [s.result])) := by
  cases hui : s.ui with
  | idle =>
    by_cases hrun : s.running = true
    · cases hs.busy hui hrun with
      | lost handle done ran => exact Or.inl ⟨ran, fun _ => handle⟩
      | serving old t threads handle ran serving =>
        exact Or.inr ⟨hrun, old, t, s.reported, threads, ran, serving, Or.inl rfl⟩
    · obtain ⟨handle, -, ran⟩ := (inv_free hui hrun).mp hs
      exact Or.inl ⟨ran, fun _ => handle⟩
  | filling job =>
    rw [Inv, hui] at hs
    exact Or.inl ⟨hs.2.2.2, fun _ => hs.2.1⟩
  | launching job =>
    rw [Inv, hui] at hs
    exact Or.inl ⟨hs.2.2.2.1, fun _ => hs.2.1⟩
  | joining =>
    rw [Inv, hui] at hs
    obtain ⟨hrun, hdone, old, t, rs, threads, -, ran, reported, serving⟩ := hs
    exact Or.inr ⟨hrun, old, t, rs, threads, ran, serving, Or.inr ⟨hdone, reported⟩⟩
  | freeing =>
    rw [Inv, hui] at hs
    exact Or.inl ⟨hs.2.2.2, fun _ => hs.2.1⟩
  | clearing =>
    rw [Inv, hui] at hs
    exact Or.inl ⟨hs.2.2.2, fun _ => hs.2.1⟩

/-- A thread that has not returned is the last one, and it serves the job in the record. -/
theorem Inv.live {s : Worker} (hs : Inv s) {i : ℕ} {t : Thread} (hi : s.threads[i]? = some t) (hl : t.pc ≠ .exited) :
    Serving s t ∧ s.threads.length = i + 1 := by
  rcases hs.shape with ⟨ran, -⟩ | ⟨-, old, u, rs, threads, ran, serving, -⟩
  · exact absurd (ran.exited t (List.mem_of_getElem? hi)) hl
  · rw [threads] at hi
    obtain ⟨rfl, rfl⟩ := ran.last hi hl
    exact ⟨serving, by rw [threads, List.length_append, List.length_singleton]⟩

theorem Ran.filterMap {ts : List Thread} {rs : List (List Char)} (h : Ran ts rs) : ts.filterMap Thread.result = rs := by
  have hmap : ts.filterMap Thread.result = (ts.map Thread.result).filterMap id := by
    rw [List.filterMap_map]
    rfl
  rw [hmap, h.results, List.filterMap_map]
  exact List.filterMap_some

theorem Ran.waiting {old : List Thread} {t : Thread} {rs : List (List Char)} (h : Ran old rs) :
    (old ++ [t]).filterMap Thread.result = rs ++ t.result.toList := by
  rw [List.filterMap_append, h.filterMap]
  cases hr : t.result <;> simp [hr]

/-- What the users of the window can rely on. -/
structure OneByOne (s : Worker) : Prop where
  live : ∀ (i j : ℕ) (t u : Thread), s.threads[i]? = some t → s.threads[j]? = some u →
    t.pc ≠ .exited → u.pc ≠ .exited → i = j
  own : ∀ t ∈ s.threads, ∀ j ∈ t.reads, j = t.job.stored
  reported : ∃ waiting, s.threads.filterMap Thread.result = s.reported ++ waiting ∧ waiting.length ≤ 1
  free : s.running = false → s.handle = none ∧ (∀ t ∈ s.threads, t.pc = .exited) ∧
    s.threads.map Thread.result = s.reported.map some

/-- However the threads are scheduled, whatever the jobs end with and whether or not threads can
be started: no two threads work at once, each reads only the job it was started for, and the
results are logged once each in the order of the jobs. -/
theorem jobs_one_by_one {s : Worker} {ls : List Label} (h : run step Worker.start ls = some s) : OneByOne s := by
  have hs := run_inv h
  have hlive : ∀ (i j : ℕ) (t u : Thread), s.threads[i]? = some t → s.threads[j]? = some u →
      t.pc ≠ .exited → u.pc ≠ .exited → i = j := by
    intro i j t u hi hj ht hu
    have h1 := (hs.live hi ht).2
    have h2 := (hs.live hj hu).2
    omega
  rcases hs.shape with ⟨ran, hnone⟩ | ⟨hrun, old, t, rs, threads, ran, serving, hrep⟩
  · refine ⟨hlive, ran.own, ⟨[], ?_, Nat.zero_le _⟩, fun hf => ⟨hnone hf, ran.exited, ran.results⟩⟩
    rw [ran.filterMap, List.append_nil]
  · refine ⟨hlive, fun u hu => ?_, ?_, fun hf => by rw [hf] at hrun; cases hrun⟩
    · rw [threads] at hu
      rcases List.mem_append.mp hu with hu | hu
      · exact ran.own u hu
      · rw [List.mem_singleton.mp hu]
        exact serving.own
    · rw [threads, ran.waiting]
      rcases hrep with hrep | ⟨hdone, hrep⟩
      · exact ⟨t.result.toList, by rw [hrep], by cases t.result <;> simp⟩
      · -- the result has just been logged and the thread has still to be waited for
        have hr := serving.result (Or.inr (serving.done.mp hdone))
        exact ⟨[], by rw [hrep, hr, List.append_nil]; rfl, Nat.zero_le _⟩

/-- Two jobs, a start in between that is refused, and a cancelled quick setup. -/
def sampleRun : List Label :=
  [.start ⟨.wScan, []⟩, .fill, .launch true, .begin 0, .start ⟨.wUnmount, []⟩, .finish 0 "Scan: OK".toList,
    .leave 0, .check, .exit 0, .join, .free, .clear,
    .start ⟨.wQuickSetup, []⟩, .fill, .launch true, .cancel, .begin 1, .look 1, .cancel, .look 1, .leave 1, .check]

def sampleState : Worker := (run step Worker.start sampleRun).getD Worker.start

theorem jobs_one_by_one_sample : run step Worker.start sampleRun = some sampleState ∧
    sampleState.reported = ["Scan: OK".toList, cancelled] ∧ OneByOne sampleState := by
  have hrun : run step Worker.start sampleRun = some sampleState := rfl
  exact ⟨hrun, rfl, jobs_one_by_one hrun⟩

end RaidTest.Gui
