import RaidTest.Base.Text
import RaidTest.Base.Trace
import RaidTest.Common

/-!
# The event log (`event_log_callback`, `event_bus_publish`)

Each event is one line at the end of `events.log`. Above 512 KB the callback moves the file
pointer and sets the end of the file there. The distance is given in two halves, and the upper
one is zero: the pointer moves forward by almost 4 GB.
-/

namespace RaidTest.Service
open RaidTest.Base

inductive EventType where
  | diskFound | diskRemoved | diskBenched
  | volumeCreated | volumeLoaded | volumeDestroyed
  | mount | unmount | rebuild | expand
  | metadataUpdated | cacheChanged | error
  deriving DecidableEq

/-- `event_type_str`. -/
def eventTypeStr : EventType → List Char
  | .diskFound => "DISK_FOUND".toList
  | .diskRemoved => "DISK_REMOVED".toList
  | .diskBenched => "DISK_BENCHED".toList
  | .volumeCreated => "VOLUME_CREATED".toList
  | .volumeLoaded => "VOLUME_LOADED".toList
  | .volumeDestroyed => "VOLUME_DESTROYED".toList
  | .mount => "MOUNT".toList
  | .unmount => "UNMOUNT".toList
  | .rebuild => "REBUILD".toList
  | .expand => "EXPAND".toList
  | .metadataUpdated => "METADATA_UPDATED".toList
  | .cacheChanged => "CACHE_CHANGED".toList
  | .error => "ERROR".toList

/-- A published event. The longest data is a serial number in `char sn[64]`. -/
structure Event where
  type : EventType
  data : Option (List Char)
  short : ∀ d ∈ data, d.length < 64

structure SystemTime where
  year : UInt16
  month : UInt16
  day : UInt16
  hour : UInt16
  minute : UInt16
  second : UInt16

/-- `%0wu`. -/
def padded (w : ℕ) (n : UInt16) : List Char :=
  List.replicate (w - (decimal n.toNat).length) '0' ++ decimal n.toNat

/-- The line `snprintf` makes. -/
def eventLine (st : SystemTime) (e : Event) : List Char :=
  let data := e.data.getD []
  ['['] ++ padded 4 st.year ++ ['-'] ++ padded 2 st.month ++ ['-'] ++ padded 2 st.day ++ [' '] ++
    padded 2 st.hour ++ [':'] ++ padded 2 st.minute ++ [':'] ++ padded 2 st.second ++ [']', ' '] ++
    eventTypeStr e.type ++ (if data = [] then [] else [':', ' ']) ++ data ++ ['\n']

/-- What the system answers in one run of the callback. `seekEnd` is the call of
`SetFilePointer` in front of the write, which fails on a file of 4 GB and more. `write` and
`written` are what `WriteFile` returns, `fill` is what stands in a file beyond its old end. -/
structure LogEnv where
  appdataPath : Bool
  create : Bool
  seekEnd : Bool
  time : SystemTime
  write : Bool
  written : ℕ
  attributes : Bool
  reopen : Bool
  setEnd : Bool
  fill : ℕ → Char

/-- The file, and what the runs have ever put at its end. -/
structure EventLog where
  file : Option (List Char)
  history : List Char

def EventLog.init (file : Option (List Char)) : EventLog := ⟨file, file.getD []⟩

/-- `SetFilePointer` from `FILE_END`, with the distance in its two halves. -/
def setFilePointerEnd (size : ℕ) (low high : ℤ) : Option ℕ :=
  let pointer : ℤ := size + (high * 4294967296 + low % 4294967296)
  if pointer < 0 then none else some pointer.toNat

def setEndOfFile (fill : ℕ → Char) (pointer : ℕ) (file : List Char) : List Char :=
  file.take pointer ++ (List.range' file.length (pointer - file.length)).map fill

/-- The trim. `nFileSizeLow` is the low half of the size, and `INVALID_SET_FILE_POINTER` is
4294967295 as the low half of the pointer. -/
def logTrim (env : LogEnv) (file : List Char) : List Char :=
  if env.attributes && decide (512 * 1024 < u32 file.length) then
    if env.reopen then
      match setFilePointerEnd file.length (-256 * 1024) 0 with
      | none => file
      | some pointer =>
        if u32 pointer ≠ 4294967295 ∧ env.setEnd = true then setEndOfFile env.fill pointer file else file
    else file
  else file

/-- `WriteFile` at a position. -/
def writeAt (file : List Char) (pos : ℕ) (bytes : List Char) : List Char :=
  file.take pos ++ bytes ++ file.drop (pos + bytes.length)

/-- `event_log_callback`. The result of `SetFilePointer` is not looked at: when it fails, the
line goes to the front of the file. -/
def eventLogCallback (env : LogEnv) (e : Event) (log : EventLog) : EventLog :=
  if env.appdataPath = false then log
  else if env.create = false then log
  else
    let line := eventLine env.time e
    let old := log.file.getD []
    let file := writeAt old (if env.seekEnd then old.length else 0) (line.take env.written)
    let history := log.history ++ line.take env.written
    if env.write = false ∨ env.written ≠ line.length then ⟨some file, history⟩
    else ⟨some (logTrim env file), history⟩

/-! ### The bus -/

inductive Subscriber where
  | eventLogCallback
  | eventCb

def maxSubscribersPerEvent : ℕ := 16

/-- `event_bus_publish`, on the active entries of `g_subs`; the callback of the window does
nothing to the log. -/
def eventBusPublish (subs : EventType → ℕ → Option Subscriber) (e : Event) (env : ℕ → LogEnv) (log : EventLog) :
    EventLog :=
  (List.range maxSubscribersPerEvent).foldl (fun log i =>
    match subs e.type i with
    | some .eventLogCallback => eventLogCallback (env i) e log
    | _ => log) log

/-! ### Runs of the callback -/

structure LogRun where
  env : LogEnv
  event : Event

def LogRun.line (r : LogRun) : List Char := eventLine r.env.time r.event

def logStep (log : EventLog) (r : LogRun) : Option EventLog := some (eventLogCallback r.env r.event log)

/-- The runs of the callback for one published event. -/
def publishRuns (subs : EventType → ℕ → Option Subscriber) (e : Event) (env : ℕ → LogEnv) (slots : List ℕ) :
    List LogRun :=
  slots.filterMap fun i =>
    match subs e.type i with
    | some .eventLogCallback => some ⟨env i, e⟩
    | _ => none

theorem publish_runs (subs : EventType → ℕ → Option Subscriber) (e : Event) (env : ℕ → LogEnv) (log : EventLog) :
    run logStep log (publishRuns subs e env (List.range maxSubscribersPerEvent)) =
      some (eventBusPublish subs e env log) := by
  unfold eventBusPublish
  generalize List.range maxSubscribersPerEvent = slots
  induction slots generalizing log with
  | nil => rfl
  | cons i slots ih =>
    rw [List.foldl_cons, ← ih]
    unfold publishRuns
    rw [List.filterMap_cons]
    split
    · next hnone =>
      split at hnone
      · cases hnone
      · rfl
    · next r hsome =>
      split at hsome
      · rw [← Option.some.inj hsome]
        rfl
      · cases hsome

/-! ### The line -/

theorem padded_length {w : ℕ} (hw : w ≤ 5) (n : UInt16) : (padded w n).length ≤ 5 := by
  have hn : n.toNat < 65536 := n.toNat_lt
  have hd := decimal_length 4 n.toNat (by omega)
  unfold padded
  rw [List.length_append, List.length_replicate]
  omega

/-- No line outgrows the buffer of 4096 bytes. -/
theorem eventLine_fits (st : SystemTime) (e : Event) : (eventLine st e).length < 4096 := by
  have htype : (eventTypeStr e.type).length ≤ 16 := by
    cases e.type <;> decide
  have hdata : (e.data.getD []).length < 64 := by
    cases hd : e.data with
    | none => decide
    | some d => exact e.short d hd
  have hsep : (if e.data.getD [] = [] then [] else [':', ' ']).length ≤ 2 := by
    split <;> decide
  have hyear := padded_length (w := 4) (by decide) st.year
  have hmonth := padded_length (w := 2) (by decide) st.month
  have hday := padded_length (w := 2) (by decide) st.day
  have hhour := padded_length (w := 2) (by decide) st.hour
  have hminute := padded_length (w := 2) (by decide) st.minute
  have hsecond := padded_length (w := 2) (by decide) st.second
  unfold eventLine
  simp only [List.length_append, List.length_cons, List.length_nil]
  omega

/-! ### The trim -/

/-- The pointer moves forward by the distance without its sign. -/
theorem setFilePointerEnd_forward (size : ℕ) :
    setFilePointerEnd size (-256 * 1024) 0 = some (size + 4294705152) := by
  unfold setFilePointerEnd
  rw [if_neg (by omega)]
  congr 1

theorem setEndOfFile_longer (fill : ℕ → Char) (file : List Char) (n : ℕ) :
    setEndOfFile fill (file.length + n) file = file ++ (List.range' file.length n).map fill := by
  unfold setEndOfFile
  rw [List.take_of_length_le (Nat.le_add_right ..), Nat.add_sub_cancel_left]

theorem logTrim_done {env : LogEnv} {file : List Char} (ha : env.attributes = true) (hr : env.reopen = true)
    (hs : env.setEnd = true) (hbig : 512 * 1024 < u32 file.length) :
    logTrim env file = file ++ (List.range' file.length 4294705152).map env.fill := by
  have hlow : u32 (file.length + 4294705152) ≠ 4294967295 := by
    unfold u32 at hbig ⊢
    omega
  unfold logTrim
  rw [ha, hr, hs, decide_eq_true hbig, setFilePointerEnd_forward]
  simp only [Bool.and_self, if_true, and_true]
  rw [if_pos hlow, setEndOfFile_longer]

theorem logTrim_not {env : LogEnv} {file : List Char}
    (h : ¬ (env.attributes = true ∧ env.reopen = true ∧ env.setEnd = true ∧ 512 * 1024 < u32 file.length)) :
    logTrim env file = file := by
  unfold logTrim
  split
  · next hbig =>
    rw [Bool.and_eq_true, decide_eq_true_eq] at hbig
    split
    · next hr =>
      rw [setFilePointerEnd_forward]
      exact if_neg fun hs => h ⟨hbig.1, hr, hs.2, hbig.2⟩
    · rfl
  · rfl

/-! ### What the log keeps -/

theorem writeAt_end (file bytes : List Char) : writeAt file file.length bytes = file ++ bytes := by
  rw [writeAt, List.take_length, List.drop_of_length_le (Nat.le_add_right ..), List.append_nil]

/-- Every file operation of the run succeeds. -/
structure LogRun.Succeeds (r : LogRun) : Prop where
  appdataPath : r.env.appdataPath = true
  create : r.env.create = true
  seekEnd : r.env.seekEnd = true
  write : r.env.write = true
  written : r.env.written = r.line.length
  attributes : r.env.attributes = true
  reopen : r.env.reopen = true
  setEnd : r.env.setEnd = true

/-- The run carries the trim out: the line takes the log above 512 KB. -/
def LogTrims (log : EventLog) (r : LogRun) : Prop :=
  r.Succeeds ∧ 512 * 1024 < u32 (log.file.getD [] ++ r.line).length

/-- The run writes over the front of the log. -/
def LogOverwrites (log : EventLog) (r : LogRun) : Prop :=
  r.env.appdataPath = true ∧ r.env.create = true ∧ r.env.seekEnd = false ∧ log.file.getD [] ≠ [] ∧
    r.line.take r.env.written ≠ []

/-- The log ends with the line, and is the end of all that was ever logged. -/
def KeepsTail (log : EventLog) (line : List Char) : Prop :=
  line <:+ log.file.getD [] ∧ log.file.getD [] <:+ log.history

theorem eventLogCallback_logged {log : EventLog} {r : LogRun} (h : r.Succeeds) :
    eventLogCallback r.env r.event log =
      ⟨some (logTrim r.env (log.file.getD [] ++ r.line)), log.history ++ r.line⟩ := by
  have hline : (eventLine r.env.time r.event).take r.env.written = r.line := by
    rw [h.written]
    exact List.take_length
  unfold eventLogCallback
  simp only [h.appdataPath, h.create, h.seekEnd, hline, Bool.true_eq_false, if_false, if_true, writeAt_end]
  rw [if_neg]
  rintro (hw | hw)
  · rw [h.write] at hw
    cases hw
  · exact hw h.written

/-- A run that does not write over the front adds at the end. -/
theorem writeAt_added {log : EventLog} {r : LogRun} (hpath : r.env.appdataPath = true) (hcreate : r.env.create = true)
    (h : ¬ LogOverwrites log r) :
    writeAt (log.file.getD []) (if r.env.seekEnd then (log.file.getD []).length else 0) (r.line.take r.env.written) =
      log.file.getD [] ++ r.line.take r.env.written := by
  cases hseek : r.env.seekEnd with
  | true => exact writeAt_end ..
  | false =>
    -- with nothing in front or nothing to write both ends are the same place
    by_cases hold : log.file.getD [] = []
    · rw [hold]
      exact writeAt_end [] _
    · have hnone : r.line.take r.env.written = [] := by
        by_contra hne
        exact h ⟨hpath, hcreate, hseek, hold, hne⟩
      rw [hnone, List.append_nil]
      exact List.drop_zero ..

/-- Without a trim the file is the whole history, unless a write goes to its front. -/
theorem eventLogCallback_whole {log : EventLog} {r : LogRun} (hw : log.file.getD [] = log.history)
    (hover : ¬ LogOverwrites log r) (h : ¬ LogTrims log r) :
    (eventLogCallback r.env r.event log).file.getD [] = (eventLogCallback r.env r.event log).history := by
  unfold eventLogCallback
  split
  · exact hw
  next hpath =>
  split
  · exact hw
  next hcreate =>
  have hadded := writeAt_added (by simpa using hpath) (by simpa using hcreate) hover
  rw [LogRun.line] at hadded
  simp only [hadded]
  split
  · simp only [Option.getD_some, hw]
  next hwrite =>
  rw [not_or, Bool.not_eq_false, not_not] at hwrite
  have hkept : logTrim r.env (log.file.getD [] ++ (eventLine r.env.time r.event).take r.env.written) =
      log.file.getD [] ++ (eventLine r.env.time r.event).take r.env.written := by
    apply logTrim_not
    rintro ⟨ha, hr, hs, hbig⟩
    rw [hwrite.2, List.take_length] at hbig
    have hseek : r.env.seekEnd = true := by
      by_contra hseek
      -- then the log was empty, and a line is shorter than 512 KB
      have hold : log.file.getD [] = [] := by
        by_contra hne
        refine hover ⟨by simpa using hpath, by simpa using hcreate, by simpa using hseek, hne, ?_⟩
        rw [LogRun.line, hwrite.2, List.take_length]
        exact List.cons_ne_nil _ _
      have hfits := eventLine_fits r.env.time r.event
      rw [hold, List.nil_append] at hbig
      unfold u32 at hbig
      omega
    exact h ⟨⟨by simpa using hpath, by simpa using hcreate, hseek, hwrite.1, hwrite.2, ha, hr, hs⟩, hbig⟩
  rw [hkept, Option.getD_some, hw]

theorem eventLogCallback_trimmed {log : EventLog} {r : LogRun} (h : LogTrims log r) :
    ((eventLogCallback r.env r.event log).file.getD []).length =
      (log.file.getD []).length + r.line.length + 4294705152 := by
  obtain ⟨hs, hbig⟩ := h
  rw [eventLogCallback_logged hs, logTrim_done hs.attributes hs.reopen hs.setEnd hbig, Option.getD_some]
  simp only [List.length_append, List.length_map, List.length_range']

/-- A trim makes the file longer than its history. -/
theorem eventLogCallback_overgrown {log : EventLog} {r : LogRun} (hw : log.file.getD [] = log.history)
    (h : LogTrims log r) :
    (eventLogCallback r.env r.event log).history.length <
      ((eventLogCallback r.env r.event log).file.getD []).length := by
  rw [eventLogCallback_trimmed h, eventLogCallback_logged h.1, List.length_append, hw]
  exact Nat.lt_add_of_pos_right (by decide)

theorem logStep_whole {log next : EventLog} {r : LogRun} (hw : log.file.getD [] = log.history)
    (hover : ¬ LogOverwrites log r) (h : logStep log r = some next) :
    next.file.getD [] = next.history ↔ ¬ LogTrims log r := by
  obtain rfl := Option.some.inj h
  constructor
  · intro hnext htrim
    have hlong := eventLogCallback_overgrown hw htrim
    rw [hnext] at hlong
    exact Nat.lt_irrefl _ hlong
  · exact eventLogCallback_whole hw hover

theorem LogRun.Succeeds.not_over {r : LogRun} (h : r.Succeeds) (log : EventLog) : ¬ LogOverwrites log r := fun ho =>
  Bool.false_ne_true (ho.2.2.1.symm.trans h.seekEnd)

/-- A run that logs its line keeps the tail exactly when it does not trim. -/
theorem logStep_keepsTail {log next : EventLog} {r : LogRun} (hw : log.file.getD [] = log.history)
    (hs : r.Succeeds) (h : logStep log r = some next) : KeepsTail next r.line ↔ ¬ LogTrims log r := by
  constructor
  · intro hkeeps htrim
    obtain rfl := Option.some.inj h
    exact absurd hkeeps.2.length_le (Nat.not_le.mpr (eventLogCallback_overgrown hw htrim))
  · intro htrim
    have hnext := (logStep_whole hw (hs.not_over log) h).mpr htrim
    obtain rfl := Option.some.inj h
    refine ⟨?_, ?_⟩
    · rw [hnext, eventLogCallback_logged hs]
      exact List.suffix_append ..
    · rw [hnext]

/-- While no trim is carried out and no write goes to the front, the file is the whole history. -/
theorem run_whole {log next : EventLog} {rs : List LogRun} (hw : log.file.getD [] = log.history)
    (hover : Along logStep (fun m r => ¬ LogOverwrites m r) log rs)
    (halong : Along logStep (fun m r => ¬ LogTrims m r) log rs) (h : run logStep log rs = some next) :
    next.file.getD [] = next.history :=
  run_invariant (I := fun m => m.file.getD [] = m.history) (fun _ _ _ hi hp ht => (logStep_whole hi hp.1 ht).mpr hp.2)
    (hover.and halong) hw h

/-- After every run whose file operations succeed the log keeps its tail. -/
def KeepsTails (start : EventLog) (rs : List LogRun) : Prop :=
  ∀ pre r post log, rs = pre ++ r :: post → run logStep start (pre ++ [r]) = some log → r.Succeeds →
    KeepsTail log r.line

theorem keepsTails_of_along {start : EventLog} (hw : start.file.getD [] = start.history) {rs : List LogRun}
    (hover : Along logStep (fun log r => ¬ LogOverwrites log r) start rs)
    (halong : Along logStep (fun log r => ¬ LogTrims log r) start rs) : KeepsTails start rs := by
  intro pre r post log he hrun hs
  obtain ⟨before, hbefore, hlast⟩ := (run_append ..).mp hrun
  obtain ⟨after, hafter, hlog⟩ := (run_cons ..).mp hlast
  obtain rfl := Option.some.inj hlog
  rw [he] at halong hover
  obtain ⟨hpre, hrest⟩ := halong.append hbefore
  exact (logStep_keepsTail (run_whole hw (hover.append hbefore).1 hpre hbefore) hs hafter).mpr hrest.1

theorem along_of_keepsTails {start : EventLog} (hw : start.file.getD [] = start.history) {rs : List LogRun}
    (hover : Along logStep (fun log r => ¬ LogOverwrites log r) start rs) (h : KeepsTails start rs) :
    Along logStep (fun log r => ¬ LogTrims log r) start rs := by
  induction rs generalizing start with
  | nil => exact True.intro
  | cons r rs ih =>
    obtain ⟨next, hnext⟩ : ∃ next, logStep start r = some next := ⟨_, rfl⟩
    have hkeep : ¬ LogTrims start r := by
      intro htrim
      have hrun : run logStep start ([] ++ [r]) = some next := (run_cons ..).mpr ⟨next, hnext, rfl⟩
      exact (logStep_keepsTail hw htrim.1 hnext).mp (h [] r rs next rfl hrun htrim.1) htrim
    refine along_cons hnext hkeep (ih ((logStep_whole hw hover.1 hnext).mpr hkeep) (hover.2 next hnext) ?_)
    intro pre x post log he hrun
    exact h (r :: pre) x post log (by rw [he, List.cons_append]) ((run_cons ..).mpr ⟨next, hnext, hrun⟩)

/-- Over any runs of the callback, from a log of any size: the log keeps its tail after every run
whose file operations succeed, if no run writes over the front and none carries a trim out. Where
no run writes over the front, it keeps it only then. -/
theorem eventLog_keeps (file : Option (List Char)) (rs : List LogRun) :
    (Along logStep (fun log r => ¬ LogOverwrites log r ∧ ¬ LogTrims log r) (.init file) rs →
      KeepsTails (.init file) rs) ∧
    (Along logStep (fun log r => ¬ LogOverwrites log r) (.init file) rs →
      (KeepsTails (.init file) rs ↔ Along logStep (fun log r => ¬ LogTrims log r) (.init file) rs)) := by
  have hinit : (EventLog.init file).file.getD [] = (EventLog.init file).history := rfl
  generalize EventLog.init file = start at hinit ⊢
  refine ⟨fun h => ?_, fun hover => ⟨along_of_keepsTails hinit hover, keepsTails_of_along hinit hover⟩⟩
  exact keepsTails_of_along hinit (h.mono fun _ _ hp => hp.1) (h.mono fun _ _ hp => hp.2)

def unmounted : LogRun :=
  ⟨⟨true, true, true, ⟨2026, 1, 2, 3, 4, 5⟩, true, 30, true, true, true, fun _ => '\x00'⟩,
    ⟨.unmount, some [], fun d hd => by cases hd; decide⟩⟩

def fullLog : List Char := List.replicate (512 * 1024) 'x'

theorem unmounted_succeeds : unmounted.Succeeds := ⟨rfl, rfl, rfl, rfl, by decide, rfl, rfl, rfl⟩

/-- A log of 512 KB to which an event is added ends almost 4 GB behind the line. -/
theorem eventLog_keeps_fails :
    ∃ log, run logStep (.init (some fullLog)) ([] ++ [unmounted]) = some log ∧ unmounted.Succeeds ∧
      ¬ KeepsTail log unmounted.line ∧
      (log.file.getD []).length = fullLog.length + unmounted.line.length + 4294705152 := by
  have hs := unmounted_succeeds
  have hfull : fullLog.length = 512 * 1024 := List.length_replicate
  generalize fullLog = file at hfull ⊢
  have htrims : LogTrims (.init (some file)) unmounted := by
    refine ⟨hs, ?_⟩
    change 512 * 1024 < u32 (file ++ unmounted.line).length
    rw [List.length_append, hfull]
    decide
  exact ⟨_, rfl, hs, fun hkeeps => (logStep_keepsTail rfl hs rfl).mp hkeeps htrims, eventLogCallback_trimmed htrims⟩

end RaidTest.Service
