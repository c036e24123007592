import RaidTest.Gui.Worker

/-!
# Cancelling a job (`cancel_worker`), and a thread that cannot be started

`worker_cancel` is one flag for all jobs. A new thread lowers it before it looks at it, so a
cancel never reaches a later job, and one pressed before the thread is that far is forgotten.
A thread that cannot be started raises no flag: `worker_running` stays up for good.
-/

namespace RaidTest.Gui
open RaidTest.Base

def Begins (l : Label) : Prop := ∃ i, l = .begin i

def Cancels (l : Label) : Prop := l = .cancel

/-! ### What a step does to one thread -/

/-- How thread `i` has come to be `t'` by a step with label `l`. -/
inductive Became (s : Worker) (l : Label) (i : ℕ) (t' : Thread) : Prop where
  | same (label : l ≠ .begin i) (was : s.threads[i]? = some t')
  | fresh (pc' : t'.pc = .created) (result : t'.result = none)
  | began (t : Thread) (label : l = .begin i) (was : s.threads[i]? = some t) (pc : t.pc = .created)
      (pc' : t'.pc = .working s.action.looks) (job : t'.job = t.job) (result : t'.result = none)
  | looked (t : Thread) (n : ℕ) (label : l = .look i) (was : s.threads[i]? = some t) (pc : t.pc = .working (n + 1))
      (pc' : t'.pc = .working n) (job : t'.job = t.job) (result : t'.result = none)
  | cancelled (t : Thread) (n : ℕ) (label : l = .look i) (was : s.threads[i]? = some t) (pc : t.pc = .working (n + 1))
      (cancel : s.cancel = true) (pc' : t'.pc = .leaving) (job : t'.job = t.job)
  | finished (label : ∃ r, l = .finish i r) (pc' : t'.pc = .leaving) (result : t'.result ≠ some cancelled)
  | went (t : Thread) (label : ¬ Begins l) (was : s.threads[i]? = some t) (pc' : t'.pc = .ending ∨ t'.pc = .exited)
      (job : t'.job = t.job) (result : t'.result = t.result)

/-- A step of thread `j` changes thread `j` only. -/
theorem became_set {s : Worker} {l : Label} {i j : ℕ} {u u' t' : Thread} (hj : s.threads[j]? = some u)
    (hi : (s.threads.set j u')[i]? = some t') (hl : ∀ k, l = .begin k → k = j) (h : Became s l j u') :
    Became s l i t' := by
  by_cases hij : j = i
  · subst hij
    rw [List.getElem?_set_self' , hj] at hi
    exact Option.some.inj hi ▸ h
  · rw [List.getElem?_set_ne hij] at hi
    exact Became.same (fun he => hij (hl i he).symm) hi

/-- The labels of the window's thread that start no thread. -/
def Label.window : Label → Bool
  | .start _ | .fill | .cancel | .check | .join | .free | .clear => true
  | _ => false

theorem window_not_begins {l : Label} (hl : l.window = true) : ¬ Begins l := by
  rintro ⟨i, rfl⟩
  cases hl

/-- They move no thread, and only the cancel button touches the flag. -/
theorem window_step {s s' : Worker} {l : Label} (h : step s l = some s') (hl : l.window = true) :
    s'.threads = s.threads ∧ (s'.cancel = true ↔ Cancels l ∨ s.cancel = true) := by
  cases l with
  | start job => obtain ⟨-, ⟨-, rfl⟩ | ⟨-, rfl⟩⟩ := step_start h <;> simp [Cancels]
  | fill => obtain ⟨job, -, rfl⟩ := step_fill h; simp [Cancels]
  | cancel => obtain ⟨-, -, rfl⟩ := step_cancel h; simp [Cancels]
  | check => obtain ⟨-, ⟨-, rfl⟩ | ⟨-, rfl⟩⟩ := step_check h <;> simp [Cancels]
  | join => obtain ⟨-, -, rfl⟩ := step_join h; simp [Cancels]
  | free => obtain ⟨-, rfl⟩ := step_free h; simp [Cancels]
  | clear => obtain ⟨-, rfl⟩ := step_clear h; simp [Cancels]
  | launch created => cases hl
  | begin i => cases hl
  | look i => cases hl
  | finish i r => cases hl
  | leave i => cases hl
  | exit i => cases hl

theorem step_became {s s' : Worker} {l : Label} (h : step s l = some s') {i : ℕ} {t' : Thread}
    (hi : s'.threads[i]? = some t') : Became s l i t' := by
  have hwindow : l.window = true → Became s l i t' :=
    fun hl => Became.same (fun he => window_not_begins hl ⟨i, he⟩) ((window_step h hl).1 ▸ hi)
  cases l with
  | start job => exact hwindow rfl
  | fill => exact hwindow rfl
  | launch created =>
    have hne : Label.launch created ≠ .begin i := fun he => by cases he
    obtain ⟨job, -, ⟨-, rfl⟩ | ⟨-, rfl⟩⟩ := step_launch h
    · by_cases hlt : i < s.threads.length
      · exact Became.same hne ((List.getElem?_append_left hlt).symm.trans hi)
      · rw [List.getElem?_append_right (by omega), List.getElem?_singleton] at hi
        split at hi
        · obtain rfl := Option.some.inj hi
          exact Became.fresh rfl rfl
        · cases hi
    · exact Became.same hne hi
  | cancel => exact hwindow rfl
  | check => exact hwindow rfl
  | join => exact hwindow rfl
  | free => exact hwindow rfl
  | clear => exact hwindow rfl
  | begin j =>
    obtain ⟨u, hu, hs⟩ := Option.bind_eq_some_iff.mp h
    obtain ⟨hpc, rfl⟩ := beginStep_some hs
    exact became_set hu hi (fun k hk => (Label.begin.inj hk).symm) (Became.began u rfl hu hpc rfl rfl rfl)
  | look j =>
    obtain ⟨u, hu, hs⟩ := Option.bind_eq_some_iff.mp h
    obtain ⟨n, hpc, ⟨hc, rfl⟩ | rfl⟩ := lookStep_some hs
    · exact became_set hu hi (fun k hk => by cases hk) (Became.cancelled u n rfl hu hpc hc rfl rfl)
    · exact became_set hu hi (fun k hk => by cases hk) (Became.looked u n rfl hu hpc rfl rfl rfl)
  | finish j r =>
    obtain ⟨u, hu, hs⟩ := Option.bind_eq_some_iff.mp h
    obtain ⟨n, -, hr, rfl⟩ := finishStep_some hs
    exact became_set hu hi (fun k hk => by cases hk)
      (Became.finished ⟨r, rfl⟩ rfl fun he => hr (Option.some.inj he))
  | leave j =>
    obtain ⟨u, hu, hs⟩ := Option.bind_eq_some_iff.mp h
    have hne : ¬ Begins (.leave j) := by
      rintro ⟨k, hk⟩
      cases hk
    obtain ⟨-, rfl⟩ := leaveStep_some hs
    exact became_set hu hi (fun k hk => by cases hk) (Became.went u hne hu (Or.inl rfl) rfl rfl)
  | exit j =>
    obtain ⟨u, hu, hs⟩ := Option.bind_eq_some_iff.mp h
    have hne : ¬ Begins (.exit j) := by
      rintro ⟨k, hk⟩
      cases hk
    obtain ⟨-, rfl⟩ := exitStep_some hs
    exact became_set hu hi (fun k hk => by cases hk) (Became.went u hne hu (Or.inr rfl) rfl rfl)

/-! ### The flag -/

theorem step_flag {s s' : Worker} {l : Label} (h : step s l = some s') :
    s'.cancel = true ↔ Cancels l ∨ s.cancel = true ∧ ¬ Begins l := by
  have hwindow : l.window = true → (s'.cancel = true ↔ Cancels l ∨ s.cancel = true ∧ ¬ Begins l) := by
    intro hl
    rw [(window_step h hl).2, and_iff_left (window_not_begins hl)]
  cases l with
  | start job => exact hwindow rfl
  | fill => exact hwindow rfl
  | launch created => obtain ⟨job, -, ⟨-, rfl⟩ | ⟨-, rfl⟩⟩ := step_launch h <;> simp [Cancels, Begins]
  | cancel => exact hwindow rfl
  | check => exact hwindow rfl
  | join => exact hwindow rfl
  | free => exact hwindow rfl
  | clear => exact hwindow rfl
  | begin i =>
    obtain ⟨t, -, hs⟩ := Option.bind_eq_some_iff.mp h
    obtain ⟨-, rfl⟩ := beginStep_some hs
    simp [Cancels, Begins]
  | look i =>
    obtain ⟨t, -, hs⟩ := Option.bind_eq_some_iff.mp h
    obtain ⟨n, -, ⟨-, rfl⟩ | rfl⟩ := lookStep_some hs <;> simp [Cancels, Begins]
  | finish i r =>
    obtain ⟨t, -, hs⟩ := Option.bind_eq_some_iff.mp h
    obtain ⟨n, -, -, rfl⟩ := finishStep_some hs
    simp [Cancels, Begins]
  | leave i =>
    obtain ⟨t, -, hs⟩ := Option.bind_eq_some_iff.mp h
    obtain ⟨-, rfl⟩ := leaveStep_some hs
    simp [Cancels, Begins]
  | exit i =>
    obtain ⟨t, -, hs⟩ := Option.bind_eq_some_iff.mp h
    obtain ⟨-, rfl⟩ := exitStep_some hs
    simp [Cancels, Begins]

theorem run_concat {s s' : Worker} {ls : List Label} {l : Label} (h : run step s (ls ++ [l]) = some s') :
    ∃ m, run step s ls = some m ∧ step m l = some s' := by
  obtain ⟨m, hm, hr⟩ := (run_append step s s' ls [l]).mp h
  obtain ⟨n, hn, he⟩ := (run_cons step m s' l []).mp hr
  exact ⟨m, hm, hn.trans he⟩

/-- The flag is up exactly when a cancel was pressed after the last thread had begun. -/
theorem cancel_iff {s : Worker} {ls : List Label} (h : run step Worker.start ls = some s) :
    s.cancel = true ↔ Since Cancels Begins ls := by
  induction ls using List.reverseRecOn generalizing s with
  | nil =>
    obtain rfl := Option.some.inj h
    exact ⟨fun hs => (by cases hs), fun hs => absurd hs not_since_nil⟩
  | append_singleton ls l ih =>
    obtain ⟨m, hm, hl⟩ := run_concat h
    rw [step_flag hl, since_concat, ih hm]

/-! ### The history of a cancelled job -/

/-- Thread `i` began, then a cancel was pressed, then the thread looked at the flag. -/
def Reached (i : ℕ) (ls : List Label) : Prop :=
  ∃ a b c d, ls = a ++ .begin i :: (b ++ .cancel :: (c ++ .look i :: d))

theorem Reached.concat {i : ℕ} {ls : List Label} (h : Reached i ls) (l : Label) : Reached i (ls ++ [l]) := by
  obtain ⟨a, b, c, d, rfl⟩ := h
  exact ⟨a, b, c, d ++ [l], by simp only [List.append_assoc, List.cons_append]⟩

/-- What the past says of a thread that works and of one that was cancelled. -/
structure Told (ls : List Label) (i : ℕ) (t : Thread) : Prop where
  working : ∀ n, t.pc = .working n → n ≤ t.job.action.looks ∧ Since (· = .begin i) Begins ls
  cancelled : t.result = some cancelled → 0 < t.job.action.looks ∧ Reached i ls

theorem told_step {s s' : Worker} {ls : List Label} {l : Label} (hr : run step Worker.start ls = some s)
    (hs : ∀ i t, s.threads[i]? = some t → Told ls i t) (h : step s l = some s') {i : ℕ} {t' : Thread}
    (hi : s'.threads[i]? = some t') : Told (ls ++ [l]) i t' := by
  have hinv := run_inv hr
  cases step_became h hi with
  | same label was =>
    have ht := hs i t' was
    refine ⟨fun n hn => ⟨(ht.working n hn).1, since_concat.mpr (Or.inr ⟨(ht.working n hn).2, ?_⟩)⟩,
      fun hc => ⟨(ht.cancelled hc).1, (ht.cancelled hc).2.concat l⟩⟩
    -- another thread cannot begin while this one works
    rintro ⟨j, rfl⟩
    obtain ⟨u, hu, hb⟩ := Option.bind_eq_some_iff.mp h
    obtain ⟨u', m⟩ := beginStep_moves hu hb
    have h1 := (hinv.live hu m.live).2
    have h2 := (hinv.live was (by simp [hn])).2
    exact label (by rw [show j = i by omega])
  | fresh pc' result =>
    exact ⟨fun n hn => (by rw [pc'] at hn; cases hn), fun hc => (by rw [result] at hc; cases hc)⟩
  | began t label was pc pc' job result =>
    refine ⟨fun n hn => ?_, fun hc => by rw [result] at hc; cases hc⟩
    have hheld := congrArg Job.action (hinv.live was (by simp [pc])).1.held
    rw [pc'] at hn
    rw [← ThreadPc.working.inj hn, job]
    exact ⟨Nat.le_of_eq (congrArg WorkerAction.looks hheld), since_concat.mpr (Or.inl label)⟩
  | looked t n label was pc pc' job result =>
    refine ⟨fun k hk => ?_, fun hc => by rw [result] at hc; cases hc⟩
    obtain ⟨hle, hsince⟩ := (hs i t was).working (n + 1) pc
    rw [pc'] at hk
    rw [← ThreadPc.working.inj hk, job]
    refine ⟨by omega, since_concat.mpr (Or.inr ⟨hsince, ?_⟩)⟩
    rintro ⟨j, hj⟩
    rw [label] at hj
    cases hj
  | cancelled t n label was pc cancel pc' job =>
    refine ⟨fun k hk => (by rw [pc'] at hk; cases hk), fun _ => ?_⟩
    obtain ⟨hle, hsince⟩ := (hs i t was).working (n + 1) pc
    have hpressed := (cancel_iff hr).mp cancel
    obtain ⟨a, x, b, y, c, he, rfl, rfl⟩ := hsince.after hpressed (fun x hx => ⟨i, hx⟩)
      fun x hx hc => by rw [hx] at hc; cases hc
    rw [job]
    refine ⟨by omega, a, b, c, [], ?_⟩
    rw [he, label]
    simp only [List.append_assoc, List.cons_append]
  | finished label pc' result =>
    exact ⟨fun n hn => (by rw [pc'] at hn; cases hn), fun hc => absurd hc result⟩
  | went t label was pc' job result =>
    refine ⟨fun n hn => ?_, fun hc => ?_⟩
    · rw [hn] at pc'
      rcases pc' with he | he <;> cases he
    · rw [result] at hc
      rw [job]
      exact ⟨((hs i t was).cancelled hc).1, ((hs i t was).cancelled hc).2.concat l⟩

theorem run_told {s : Worker} {ls : List Label} (h : run step Worker.start ls = some s) {i : ℕ} {t : Thread}
    (hi : s.threads[i]? = some t) : Told ls i t := by
  induction ls using List.reverseRecOn generalizing s i t with
  | nil =>
    obtain rfl := Option.some.inj h
    cases hi
  | append_singleton ls l ih =>
    obtain ⟨m, hm, hl⟩ := run_concat h
    exact told_step hm (fun i t ht => ih hm ht) hl hi

/-- A job that ended as cancelled is one of the three kinds that look at the flag, and a cancel was
pressed after its own thread had begun and before that thread looked. -/
theorem cancelled_was_reached {s : Worker} {ls : List Label} (h : run step Worker.start ls = some s) {i : ℕ}
    {t : Thread} (hi : s.threads[i]? = some t) (hc : t.result = some cancelled) :
    (t.job.action = .wCreate ∨ t.job.action = .wMirror ∨ t.job.action = .wQuickSetup) ∧ Reached i ls := by
  obtain ⟨hlooks, hreached⟩ := (run_told h hi).cancelled hc
  refine ⟨?_, hreached⟩
  cases ha : t.job.action <;> rw [ha] at hlooks <;> first | exact absurd hlooks (Nat.lt_irrefl 0) | simp

theorem cancelled_was_reached_sample : Reached 1 sampleRun := by
  have hrun : run step Worker.start sampleRun = some sampleState := rfl
  have hquick : sampleState.threads[1]? = some ⟨⟨.wQuickSetup, []⟩, .ending,
      [⟨.wQuickSetup, []⟩, ⟨.wQuickSetup, []⟩, ⟨.wQuickSetup, []⟩], some cancelled⟩ := rfl
  exact (cancelled_was_reached hrun hquick rfl).2

/-! ### A thread that cannot be started -/

/-- `worker_running` is up and no thread is there to end it. -/
structure Stuck (s t : Worker) : Prop where
  ui : t.ui = .idle
  running : t.running = true
  done : t.done = false
  handle : t.handle = none
  threads : t.threads = s.threads
  exited : ∀ u ∈ s.threads, u.pc = .exited
  reported : t.reported = s.reported

theorem Stuck.logged {s t : Worker} (h : Stuck s t) (x : UiLine) (hx : x.reported = none) (cancel : Bool) :
    Stuck s { t with cancel := cancel, log := t.log ++ [x] } := by
  refine ⟨h.ui, h.running, h.done, h.handle, h.threads, h.exited, ?_⟩
  rw [Worker.reported, reported_concat, hx]
  exact (List.append_nil _).trans h.reported

/-- From there only refused starts, cancels and looks at `worker_done` are possible. -/
theorem stuck_step {s t t' : Worker} {l : Label} (h : Stuck s t) (ht : step t l = some t') : Stuck s t' := by
  have hthread : ∀ {i : ℕ} {u u' : Thread}, ¬ Moves t t' i u u' :=
    fun m => m.live (h.exited _ (h.threads ▸ List.mem_of_getElem? m.at_i))
  have hui_absurd : t.ui ≠ .idle → Stuck s t' := fun hne => absurd h.ui hne
  cases l with
  | start job =>
    obtain ⟨-, ⟨-, rfl⟩ | ⟨hrun, -⟩⟩ := step_start ht
    · exact h.logged .busy rfl t.cancel
    · exact absurd h.running hrun
  | fill =>
    obtain ⟨job, hui, -⟩ := step_fill ht
    exact hui_absurd (by rw [hui]; simp)
  | launch created =>
    obtain ⟨job, hui, -⟩ := step_launch ht
    exact hui_absurd (by rw [hui]; simp)
  | cancel =>
    obtain ⟨-, -, rfl⟩ := step_cancel ht
    exact h.logged .cancelling rfl true
  | check =>
    obtain ⟨-, ⟨hdone, -⟩ | ⟨-, rfl⟩⟩ := step_check ht
    · rw [h.done] at hdone
      cases hdone
    · exact h
  | join => exact hui_absurd (by rw [(step_join ht).1]; simp)
  | free => exact hui_absurd (by rw [(step_free ht).1]; simp)
  | clear => exact hui_absurd (by rw [(step_clear ht).1]; simp)
  | begin i =>
    obtain ⟨u, hu, hs⟩ := Option.bind_eq_some_iff.mp ht
    obtain ⟨u', m⟩ := beginStep_moves hu hs
    exact absurd m hthread
  | look i =>
    obtain ⟨u, hu, hs⟩ := Option.bind_eq_some_iff.mp ht
    obtain ⟨u', m⟩ := lookStep_moves hu hs
    exact absurd m hthread
  | finish i r =>
    obtain ⟨u, hu, hs⟩ := Option.bind_eq_some_iff.mp ht
    obtain ⟨u', m⟩ := finishStep_moves hu hs
    exact absurd m hthread
  | leave i =>
    obtain ⟨u, hu, hs⟩ := Option.bind_eq_some_iff.mp ht
    obtain ⟨u', m⟩ := leaveStep_moves hu hs
    exact absurd m hthread
  | exit i =>
    obtain ⟨u, hu, hs⟩ := Option.bind_eq_some_iff.mp ht
    obtain ⟨u', m⟩ := exitStep_moves hu hs
    exact absurd m hthread

theorem launch_stuck {s s' : Worker} (hs : Inv s) (h : step s (.launch false) = some s') : Stuck s s' := by
  obtain ⟨job, hui, ⟨hf, -⟩ | ⟨-, rfl⟩⟩ := step_launch h
  · cases hf
  · rw [Inv, hui] at hs
    obtain ⟨hrun, -, hdone, ran, -⟩ := hs
    exact ⟨rfl, hrun, hdone, rfl, rfl, ran.exited, rfl⟩

/-- After one failed `_beginthreadex` no thread is ever started again and no result is ever
reported again: every later start is refused as busy. -/
theorem launch_failed_forever {s : Worker} {pre post : List Label}
    (h : run step Worker.start (pre ++ .launch false :: post) = some s) :
    ∃ m, run step Worker.start pre = some m ∧ s.threads = m.threads ∧ s.reported = m.reported ∧
      ∀ job, step s (.start job) = some { s with log := s.log ++ [.busy] } := by
  obtain ⟨m, hm, hr⟩ := (run_append step _ s pre _).mp h
  obtain ⟨n, hn, hpost⟩ := (run_cons step m s _ post).mp hr
  have hstuck : Stuck m s :=
    run_preserves (fun _ _ _ hi ht => stuck_step hi ht) (launch_stuck (run_inv hm) hn) hpost
  refine ⟨m, hm, hstuck.threads, hstuck.reported, fun job => ?_⟩
  delta step
  simp only
  rw [if_pos hstuck.ui, if_pos hstuck.running]

def failedRun : List Label :=
  [.start ⟨.wScan, []⟩, .fill] ++ .launch false :: [.check, .start ⟨.wScan, []⟩, .check]

def failedState : Worker := (run step Worker.start failedRun).getD Worker.start

theorem launch_failed_forever_sample :
    ∃ m, run step Worker.start [.start ⟨.wScan, []⟩, .fill] = some m ∧ failedState.threads = m.threads := by
  have hrun : run step Worker.start ([.start ⟨.wScan, []⟩, .fill] ++
      .launch false :: [.check, .start ⟨.wScan, []⟩, .check]) = some failedState := rfl
  obtain ⟨m, hm, ht, -, -⟩ := launch_failed_forever hrun
  exact ⟨m, hm, ht⟩

end RaidTest.Gui
