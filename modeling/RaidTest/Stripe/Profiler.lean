import RaidTest.Base.Slots
import RaidTest.Stripe.Ring

/-!
# The queue depth of the profiler (`profiler_read_begin`, `profiler_read_end`, `profiler_write_begin`, `profiler_write_end`)

An operation counts itself before it looks for one of the 8 sample slots, and is counted off
only by an end that finds its slot. Every atomic access of a thread is one step. The latency
sums, which are floating point and guarded by no lock, are not modelled.
-/

namespace RaidTest.Stripe
open RaidTest.Base

def sampleSlots : ℕ := 8

/-- `*slot_out` when no slot is free. -/
def noSlot : ℕ := 255

/-- `pending_ios` by its 32 bits, and `samples[i].active`. -/
structure Profiler where
  pendingIos : ℕ
  maxQueueDepth : ℕ
  currentQueueDepth : ℕ
  active : ℕ → Bool

/-- What `memset` leaves. -/
def profilerInit : Profiler := ⟨0, 0, 0, fun _ => false⟩

inductive IoKind where
  | read
  | write
  deriving DecidableEq

/-- Where a thread stands between its increment and the end of its operation. -/
inductive IoPhase where
  | counted
  /-- `profiler_write_begin` alone: `qd` is read, found above the maximum, to be stored. -/
  | sampled (qd : ℕ)
  | raising (qd : ℕ)
  | noting (qd : ℕ)
  /-- In `find_free_slot`, before the exchange on slot `i`. -/
  | searching (i : ℕ)
  | claimed (i : ℕ)
  /-- The begin has returned and the end is not called. -/
  | running (slot : ℕ)
  | closing (slot : ℕ)
  | released
  | ended
  deriving DecidableEq

/-- One access of an operation; the step of a running one is the call of its end. -/
def opStep (kind : IoKind) (p : Profiler) : IoPhase → Option (Profiler × IoPhase)
  | .counted =>
    match kind with
    | .read => some (p, .searching 0)
    | .write => some (p, .sampled p.pendingIos)
  | .sampled qd => some (p, if p.maxQueueDepth < qd then .raising qd else .noting qd)
  | .raising qd => some ({ p with maxQueueDepth := qd }, .noting qd)
  | .noting qd => some ({ p with currentQueueDepth := qd }, .searching 0)
  | .searching i =>
    if p.active i = false then some ({ p with active := mark p.active i true }, .claimed i)
    else some (p, if i + 1 < sampleSlots then .searching (i + 1) else .running noSlot)
  | .claimed i => some ({ p with active := mark p.active i true }, .running i)
  | .running slot =>
    if sampleSlots ≤ slot ∨ p.active slot = false then some (p, .ended) else some (p, .closing slot)
  | .closing slot => some ({ p with active := mark p.active slot false }, .released)
  | .released => some ({ p with pendingIos := u32 (p.pendingIos + 4294967295) }, .ended)
  | .ended => none

structure ProfiledOp where
  kind : IoKind
  phase : IoPhase

/-- The profiler and all operations ever begun. -/
structure ProfilerState where
  profiler : Profiler
  ops : List ProfiledOp

inductive ProfilerLabel where
  | start (kind : IoKind)
  | step (op : ℕ)

/-- A thread begins an operation with the increment, or takes a step of one. -/
def profilerStep (s : ProfilerState) : ProfilerLabel → Option ProfilerState
  | .start kind =>
    some ⟨{ s.profiler with pendingIos := u32 (s.profiler.pendingIos + 1) }, s.ops ++ [⟨kind, .counted⟩]⟩
  | .step op =>
    match s.ops[op]? with
    | none => none
    | some o => (opStep o.kind s.profiler o.phase).map fun r => ⟨r.1, s.ops.set op { o with phase := r.2 }⟩

def ProfilerState.init : ProfilerState := ⟨profilerInit, []⟩

/-! ### Operations in progress, and the slots they hold -/

def ProfiledOp.inProgress (o : ProfiledOp) : Bool := decide (o.phase ≠ .ended)

def ProfilerState.inProgress (s : ProfilerState) : ℕ := s.ops.countP ProfiledOp.inProgress

/-- Whether the operation holds sample slot `i`. -/
def ProfiledOp.holds (i : ℕ) (o : ProfiledOp) : Bool :=
  decide (o.phase = .claimed i) || decide (o.phase = .running i) || decide (o.phase = .closing i)

/-- The queue depth is that of the operations begun and not ended, no slot is held twice, and
after the last operation everything is free. -/
structure ProfilerState.Exact (s : ProfilerState) : Prop where
  pending : long s.profiler.pendingIos = s.inProgress
  single : ∀ i < sampleSlots, s.ops.countP (ProfiledOp.holds i) ≤ 1
  idle : s.inProgress = 0 → s.profiler.pendingIos = 0 ∧ ∀ i < sampleSlots, s.profiler.active i = false

/-! ### The pool of slots -/

/-- Where an operation stands in the pool of sample slots. -/
def IoPhase.place : IoPhase → Place
  | .counted | .sampled _ | .raising _ | .noting _ => .scanning 0
  | .searching i => .scanning i
  | .claimed i => .holding i
  | .running slot => if slot < sampleSlots then .holding slot else .scanning sampleSlots
  | .closing slot => .holding slot
  | .released | .ended => .gone

def ProfilerState.places (s : ProfilerState) : List Place := s.ops.map fun o => o.phase.place

/-- The slot numbers a phase can have. -/
def IoPhase.Within : IoPhase → Prop
  | .searching i | .claimed i | .closing i => i < sampleSlots
  | .running slot => slot < sampleSlots ∨ slot = noSlot
  | _ => True

structure ProfilerState.Ok (s : ProfilerState) : Prop where
  marked : Marked s.profiler.active s.places
  within : ∀ o ∈ s.ops, o.phase.Within
  bits : s.profiler.pendingIos < 4294967296

/-- What a step of an operation can do. -/
inductive IoEffect (p : Profiler) : IoPhase → Profiler → IoPhase → Prop where
  | quiet {phase next : IoPhase} {q : Profiler} (active : q.active = p.active) (pending : q.pendingIos = p.pendingIos)
      (place : next.place = phase.place) (going : next ≠ .ended) : IoEffect p phase q next
  | pass {i : ℕ} {next : IoPhase} (lt : i < sampleSlots) (taken : p.active i = true)
      (place : next.place = .scanning (i + 1)) (going : next ≠ .ended) : IoEffect p (.searching i) p next
  | claim {i : ℕ} (lt : i < sampleSlots) (free : p.active i = false) :
      IoEffect p (.searching i) { p with active := mark p.active i true } (.claimed i)
  | store {i : ℕ} (lt : i < sampleSlots) : IoEffect p (.claimed i) { p with active := mark p.active i true } (.running i)
  | release {i : ℕ} : IoEffect p (.closing i) { p with active := mark p.active i false } .released
  | countOff : IoEffect p .released { p with pendingIos := u32 (p.pendingIos + 4294967295) } .ended
  | uncounted {slot : ℕ} (h : sampleSlots ≤ slot ∨ p.active slot = false) : IoEffect p (.running slot) p .ended

theorem opStep_effect {kind : IoKind} {p q : Profiler} {phase next : IoPhase} (hw : phase.Within)
    (h : opStep kind p phase = some (q, next)) : IoEffect p phase q next ∧ next.Within := by
  cases phase with
  | counted =>
    cases kind <;> cases h <;> exact ⟨.quiet rfl rfl rfl nofun, by simp [IoPhase.Within, sampleSlots]⟩
  | sampled qd =>
    cases h
    split <;> exact ⟨.quiet rfl rfl rfl nofun, True.intro⟩
  | raising qd =>
    cases h
    exact ⟨.quiet rfl rfl rfl nofun, True.intro⟩
  | noting qd =>
    cases h
    exact ⟨.quiet rfl rfl rfl nofun, by simp [IoPhase.Within, sampleSlots]⟩
  | searching i =>
    rw [opStep] at h
    split at h
    · next hfree =>
      cases h
      exact ⟨.claim hw hfree, hw⟩
    · next hfree =>
      have htaken : p.active i = true := by simpa using hfree
      cases h
      by_cases hlt : i + 1 < sampleSlots
      · rw [if_pos hlt]
        exact ⟨.pass hw htaken rfl nofun, hlt⟩
      · rw [if_neg hlt]
        have hlast : sampleSlots = i + 1 := Nat.le_antisymm (Nat.not_lt.mp hlt) hw
        exact ⟨.pass hw htaken (congrArg Place.scanning hlast) nofun, Or.inr rfl⟩
  | claimed i =>
    cases h
    exact ⟨.store hw, Or.inl hw⟩
  | running slot =>
    rw [opStep] at h
    split at h
    · next hnot =>
      cases h
      exact ⟨.uncounted hnot, True.intro⟩
    · next hheld =>
      have hlt : slot < sampleSlots := Nat.not_le.mp fun hle => hheld (Or.inl hle)
      cases h
      exact ⟨.quiet rfl rfl (if_pos hlt).symm nofun, hlt⟩
  | closing i =>
    cases h
    exact ⟨.release, True.intro⟩
  | released =>
    obtain ⟨rfl, rfl⟩ := Prod.mk.inj (Option.some.inj h)
    exact ⟨.countOff, True.intro⟩
  | ended => cases h

theorem opStep_going {kind : IoKind} {p q : Profiler} {phase next : IoPhase} (h : opStep kind p phase = some (q, next)) :
    phase ≠ .ended := by
  rintro rfl
  cases h

/-- A step keeps the flags of the slots true to the places. -/
theorem IoEffect.marked {p q : Profiler} {phase next : IoPhase} {ps : List Place} {user : ℕ}
    (h : IoEffect p phase q next) (hm : Marked p.active ps) (hx : ps[user]? = some phase.place) :
    Marked q.active (ps.set user next.place) := by
  cases h with
  | quiet active pending place going =>
    rw [active]
    exact hm.keep hx fun i => by rw [place]
  | pass lt taken place going =>
    rw [place]
    exact hm.keep hx fun i => rfl
  | claim lt free => exact hm.take hx free
  | @store i lt =>
    -- the flag is set already
    have hset : p.active i = true := (hm.held i).mp (List.mem_of_getElem? hx)
    have hsame : mark p.active i true = p.active := by
      funext j
      unfold mark
      split
      · next hj => rw [hj, hset]
      · rfl
    have hplace : (IoPhase.running i).place = .holding i := if_pos lt
    rw [hsame, hplace]
    exact hm.keep hx fun i => rfl
  | release => exact hm.leave hx
  | countOff => exact hm.keep hx fun i => rfl
  | @uncounted slot hnot =>
    have hplace : (IoPhase.running slot).place = .scanning sampleSlots := by
      apply if_neg
      intro hlt
      rcases hnot with hle | hfree
      · exact absurd hlt (Nat.not_lt.mpr hle)
      · have hheld : (IoPhase.running slot).place = .holding slot := if_pos hlt
        rw [hheld] at hx
        rw [(hm.held slot).mp (List.mem_of_getElem? hx)] at hfree
        cases hfree
    rw [hplace] at hx
    exact hm.keep hx fun i => rfl

theorem IoEffect.bits {p q : Profiler} {phase next : IoPhase} (h : IoEffect p phase q next)
    (hp : p.pendingIos < 4294967296) : q.pendingIos < 4294967296 := by
  cases h with
  | quiet active pending place going => exact pending ▸ hp
  | countOff => exact Nat.mod_lt _ (by decide)
  | pass lt taken place going | claim lt free | store lt | release | uncounted hnot => exact hp

/-! ### The whole state -/

theorem profilerStep_op {s t : ProfilerState} {op : ℕ} (h : profilerStep s (.step op) = some t) :
    ∃ o q next, s.ops[op]? = some o ∧ opStep o.kind s.profiler o.phase = some (q, next) ∧
      t = ⟨q, s.ops.set op ⟨o.kind, next⟩⟩ := by
  rw [profilerStep] at h
  split at h
  · cases h
  next o ho =>
  obtain ⟨⟨q, next⟩, hstep, rfl⟩ := Option.map_eq_some_iff.mp h
  exact ⟨o, q, next, ho, hstep, rfl⟩

theorem places_get {s : ProfilerState} {op : ℕ} {o : ProfiledOp} (h : s.ops[op]? = some o) :
    s.places[op]? = some o.phase.place := by
  rw [ProfilerState.places, List.getElem?_map, h]
  rfl

theorem places_set (q : Profiler) (ops : List ProfiledOp) (op : ℕ) (o : ProfiledOp) :
    ProfilerState.places ⟨q, ops.set op o⟩ = (ProfilerState.places ⟨q, ops⟩).set op o.phase.place := List.map_set

theorem profilerState_ok : ProfilerState.init.Ok := ⟨fun _ => rfl, fun _ ho => absurd ho List.not_mem_nil, by decide⟩

theorem ProfilerState.Ok.step {s t : ProfilerState} (h : s.Ok) {l : ProfilerLabel} (ht : profilerStep s l = some t) :
    t.Ok := by
  cases l with
  | start kind =>
    obtain rfl := Option.some.inj ht
    refine ⟨?_, fun o ho => ?_, Nat.mod_lt _ (by decide)⟩
    · have hplaces : ProfilerState.places ⟨s.profiler, s.ops ++ [⟨kind, .counted⟩]⟩ = s.places ++ [.scanning 0] := by
        simp [ProfilerState.places, IoPhase.place]
      exact hplaces ▸ h.marked.enter 0
    · rcases List.mem_append.mp ho with ho | ho
      · exact h.within o ho
      · rw [List.mem_singleton.mp ho]
        exact True.intro
  | step op =>
    obtain ⟨o, q, next, ho, hstep, rfl⟩ := profilerStep_op ht
    obtain ⟨heffect, hwithin⟩ := opStep_effect (h.within o (List.mem_of_getElem? ho)) hstep
    refine ⟨?_, fun x hx => ?_, ?_⟩
    · rw [places_set]
      exact heffect.marked h.marked (places_get ho)
    · rcases List.mem_or_eq_of_mem_set hx with hx | rfl
      · exact h.within x hx
      · exact hwithin
    · exact heffect.bits h.bits

/-! ### The queue depth -/

theorem holds_place (o : ProfiledOp) {i : ℕ} (hi : i < sampleSlots) : o.holds i = (o.phase.place == .holding i) := by
  obtain ⟨kind, phase⟩ := o
  cases phase with
  | running slot =>
    by_cases hlt : slot < sampleSlots
    · simp [ProfiledOp.holds, IoPhase.place, hlt]
    · have hne : slot ≠ i := by
        rintro rfl
        exact hlt hi
      simp [ProfiledOp.holds, IoPhase.place, hlt, hne]
  | counted | sampled | raising | noting | searching | claimed | closing | released | ended =>
    simp [ProfiledOp.holds, IoPhase.place]

theorem holds_count (s : ProfilerState) {i : ℕ} (hi : i < sampleSlots) :
    s.ops.countP (ProfiledOp.holds i) = s.places.count (.holding i) := by
  rw [ProfilerState.places, List.count, List.countP_map]
  exact List.countP_congr fun o _ => by rw [holds_place o hi]; rfl

/-- Only the count of the operations can go wrong. -/
theorem ProfilerState.Ok.exact_iff {s : ProfilerState} (h : s.Ok) :
    s.Exact ↔ long s.profiler.pendingIos = s.inProgress := by
  refine ⟨fun he => he.pending, fun hp => ⟨hp, fun i hi => ?_, fun hidle => ⟨?_, fun i hi => ?_⟩⟩⟩
  · rw [holds_count s hi]
    exact h.marked.single i
  · have hbits := h.bits
    rw [hidle] at hp
    unfold long at hp
    split at hp <;> omega
  · have hnone : s.ops.countP (ProfiledOp.holds i) = 0 := by
      rw [List.countP_eq_zero]
      intro o ho
      have hended : o.phase = .ended := by
        simpa [ProfiledOp.inProgress] using List.countP_eq_zero.mp hidle o ho
      simp [ProfiledOp.holds, hended]
    have hmarked := h.marked i
    rw [← holds_count s hi, hnone] at hmarked
    cases hflag : s.profiler.active i with
    | false => rfl
    | true =>
      rw [hflag] at hmarked
      cases hmarked

/-- The end of an operation finds a slot to free, and a `LONG` can count the operations. -/
def Slotted (s : ProfilerState) : ProfilerLabel → Prop
  | .start _ => s.inProgress + 1 < 2^31
  | .step op => ∀ o slot, s.ops[op]? = some o → o.phase = .running slot → slot < sampleSlots

/-- An increment is counted while a `LONG` can hold the count. -/
theorem long_succ {bits n : ℕ} (hb : bits < 4294967296) (h : long bits = n) :
    long (u32 (bits + 1)) = (n + 1 : ℕ) ↔ n + 1 < 2^31 := by
  unfold long u32 at *
  split at h
  · split <;> omega
  · omega

theorem long_pred {bits n : ℕ} (hb : bits < 4294967296) (h : long bits = (n + 1 : ℕ)) : long (u32 (bits + 4294967295)) = n := by
  unfold long u32 at *
  split at h
  · split <;> omega
  · omega

theorem running_slotted {kind : IoKind} {p q : Profiler} {slot : ℕ} {next : IoPhase}
    (h : opStep kind p (.running slot) = some (q, next)) (hgoing : next ≠ .ended) : slot < sampleSlots := by
  rw [opStep] at h
  split at h
  · exact absurd (congrArg Prod.snd (Option.some.inj h)).symm hgoing
  · next hheld => exact Nat.not_le.mp fun hle => hheld (Or.inl hle)

/-- The end of an operation that holds no slot is not counted. -/
theorem ProfilerState.Ok.uncounted {s : ProfilerState} (h : s.Ok) {op slot : ℕ} {o : ProfiledOp}
    (ho : s.ops[op]? = some o) (hphase : o.phase = .running slot)
    (hnot : sampleSlots ≤ slot ∨ s.profiler.active slot = false) : sampleSlots ≤ slot := by
  rcases hnot with hle | hfree
  · exact hle
  · by_contra hlt
    have hx := places_get ho
    have hplace : (IoPhase.running slot).place = .holding slot := if_pos (Nat.not_le.mp hlt)
    rw [hphase, hplace] at hx
    rw [(h.marked.held slot).mp (List.mem_of_getElem? hx)] at hfree
    cases hfree

theorem inProgress_set (s : ProfilerState) {op : ℕ} {o : ProfiledOp} (ho : s.ops[op]? = some o) (q : Profiler)
    (next : IoPhase) (hgoing : o.phase ≠ .ended) :
    ProfilerState.inProgress ⟨q, s.ops.set op ⟨o.kind, next⟩⟩ + 1 = s.inProgress + (decide (next ≠ .ended)).toNat := by
  have hset := countP_set_add ProfiledOp.inProgress ho ⟨o.kind, next⟩
  have hone : o.inProgress.toNat = 1 := by
    unfold ProfiledOp.inProgress
    rw [decide_eq_true hgoing]
    rfl
  rw [hone] at hset
  exact hset

/-- One step keeps the queue depth exact exactly when it is slotted. -/
theorem ProfilerState.Ok.exact_step {s t : ProfilerState} (h : s.Ok) (he : s.Exact) {l : ProfilerLabel}
    (ht : profilerStep s l = some t) : t.Exact ↔ Slotted s l := by
  have hp := he.pending
  rw [(h.step ht).exact_iff]
  cases l with
  | start kind =>
    obtain rfl := Option.some.inj ht
    have hcount : ProfilerState.inProgress ⟨{ s.profiler with pendingIos := u32 (s.profiler.pendingIos + 1) },
        s.ops ++ [⟨kind, .counted⟩]⟩ = s.inProgress + 1 := by
      rw [ProfilerState.inProgress, List.countP_append]
      rfl
    rw [hcount]
    exact long_succ h.bits hp
  | step op =>
    obtain ⟨o, q, next, ho, hstep, rfl⟩ := profilerStep_op ht
    have hcount := inProgress_set s ho q next (opStep_going hstep)
    -- a step that is not the last keeps the count
    have hgoes : next ≠ .ended → q.pendingIos = s.profiler.pendingIos →
        (long q.pendingIos = (ProfilerState.inProgress ⟨q, s.ops.set op ⟨o.kind, next⟩⟩ : ℤ) ↔ Slotted s (.step op)) := by
      intro hgoing hpending
      rw [decide_eq_true hgoing] at hcount
      rw [hpending, Nat.add_right_cancel hcount]
      refine iff_of_true hp fun x slot hx hphase => ?_
      obtain rfl := Option.some.inj (ho.symm.trans hx)
      rw [hphase] at hstep
      exact running_slotted hstep hgoing
    have hends : next = .ended → ProfilerState.inProgress ⟨q, s.ops.set op ⟨o.kind, next⟩⟩ + 1 = s.inProgress := by
      intro hended
      rw [hcount, hended]
      rfl
    obtain ⟨heffect, _⟩ := opStep_effect (h.within o (List.mem_of_getElem? ho)) hstep
    obtain ⟨kind, phase⟩ := o
    cases heffect with
    | quiet active pending place going => exact hgoes going pending
    | pass lt taken place going => exact hgoes going rfl
    | claim lt free => exact hgoes nofun rfl
    | store lt => exact hgoes nofun rfl
    | release => exact hgoes nofun rfl
    | countOff =>
      refine iff_of_true ?_ fun x slot hx hphase => ?_
      · rw [← hends rfl] at hp
        exact long_pred h.bits hp
      · obtain rfl := Option.some.inj (ho.symm.trans hx)
        cases hphase
    | @uncounted slot hnot =>
      refine iff_of_false ?_ fun hslot => ?_
      · rw [← hends rfl] at hp
        intro heq
        rw [hp] at heq
        push_cast at heq
        omega
      · exact absurd (hslot _ slot ho rfl) (Nat.not_lt.mpr (h.uncounted ho rfl hnot))

theorem slotted_of_none {s : ProfilerState} {l : ProfilerLabel} (h : profilerStep s l = none) : Slotted s l := by
  cases l with
  | start kind => cases h
  | step op =>
    intro o slot ho hphase
    simp only [profilerStep, ho, hphase, opStep] at h
    split at h <;> cases h

/-- Over any interleaving of any number of operations the queue depth is exact in every state,
exactly when every end finds the slot of its operation. -/
theorem queueDepth_exact (ls : List ProfilerLabel) :
    (∀ pre post s, ls = pre ++ post → run profilerStep .init pre = some s → s.Exact) ↔
      Along profilerStep Slotted .init ls :=
  along_iff_always (J := ProfilerState.Ok) (Q := fun _ => True) (fun _ _ _ hok _ ht => hok.step ht)
    (fun _ _ _ hok he _ ht => hok.exact_step he ht) (fun _ _ h => slotted_of_none h) profilerState_ok
    (profilerState_ok.exact_iff.mpr rfl) fun _ _ => True.intro

/-- Nine reads overlap, each beginning behind the last, and end one after the other. -/
def nineReads : List ProfilerLabel :=
  ((List.range 8).flatMap fun k => .start .read :: List.replicate (k + 3) (.step k)) ++
    .start .read :: List.replicate 9 (.step 8) ++
    ((List.range 8).flatMap fun k => List.replicate 3 (.step k)) ++ [.step 8]

/-- When all have ended, one is still counted. -/
theorem queueDepth_exact_fails :
    ∃ s, run profilerStep .init nineReads = some s ∧ s.inProgress = 0 ∧ s.profiler.pendingIos = 1 ∧ ¬ s.Exact := by
  have hrun : (run profilerStep .init nineReads).map (fun s => (s.inProgress, s.profiler.pendingIos)) = some (0, 1) := by
    decide +kernel
  obtain ⟨s, hs, hcount⟩ := Option.map_eq_some_iff.mp hrun
  obtain ⟨hidle, hpending⟩ := Prod.mk.inj hcount
  refine ⟨s, hs, hidle, hpending, fun he => ?_⟩
  rw [(he.idle hidle).1] at hpending
  cases hpending

/-! ### At most eight at a time -/

theorem set_same {ps : List Place} {user : ℕ} {x : Place} (h : ps[user]? = some x) : ps.set user x = ps := by
  obtain ⟨hlt, rfl⟩ := List.getElem?_eq_some_iff.mp h
  exact List.set_getElem_self hlt

/-- Every step is one of the pool, or none. -/
theorem ProfilerState.Ok.pool {s t : ProfilerState} (h : s.Ok) {l : ProfilerLabel} (ht : profilerStep s l = some t) :
    t.places = s.places ∨
      ∃ m, poolStep sampleSlots s.places m = some t.places ∧ (m = .enter → ∃ kind, l = .start kind) := by
  cases l with
  | start kind =>
    obtain rfl := Option.some.inj ht
    refine Or.inr ⟨.enter, ?_, fun _ => ⟨kind, rfl⟩⟩
    simp [poolStep, ProfilerState.places, IoPhase.place]
  | step op =>
    obtain ⟨o, q, next, ho, hstep, rfl⟩ := profilerStep_op ht
    have hx := places_get ho
    have hlt : op < s.places.length := (List.getElem?_eq_some_iff.mp hx).1
    have hplaces : ProfilerState.places ⟨q, s.ops.set op ⟨o.kind, next⟩⟩ = s.places.set op next.place := places_set ..
    have hleave : poolStep sampleSlots s.places (.leave op) = some (s.places.set op .gone) := if_pos hlt
    rw [hplaces]
    obtain ⟨heffect, _⟩ := opStep_effect (h.within o (List.mem_of_getElem? ho)) hstep
    obtain ⟨kind, phase⟩ := o
    cases heffect with
    | quiet active pending place going =>
      rw [place]
      exact Or.inl (set_same hx)
    | @pass i next lt taken place going =>
      have hlook : poolStep sampleSlots s.places (.look op) = some (s.places.set op (.scanning (i + 1))) := by
        simp only [poolStep, show s.places[op]? = some (.scanning i) from hx, if_pos lt,
          if_pos ((h.marked.held i).mpr taken)]
      rw [place]
      exact Or.inr ⟨.look op, hlook, fun he => by cases he⟩
    | @claim i lt free =>
      have hfree : .holding i ∉ s.places := by
        rw [h.marked.held i, free]
        decide
      have hlook : poolStep sampleSlots s.places (.look op) = some (s.places.set op (.holding i)) := by
        simp only [poolStep, show s.places[op]? = some (.scanning i) from hx, if_pos lt, if_neg hfree]
      exact Or.inr ⟨.look op, hlook, fun he => by cases he⟩
    | @store i lt =>
      have hplace : (IoPhase.running i).place = .holding i := if_pos lt
      rw [hplace]
      exact Or.inl (set_same hx)
    | release => exact Or.inr ⟨.leave op, hleave, fun he => by cases he⟩
    | countOff => exact Or.inl (set_same hx)
    | uncounted hnot => exact Or.inr ⟨.leave op, hleave, fun he => by cases he⟩

theorem beyond_inProgress (s : ProfilerState) : s.places.countP (Place.beyond 0) ≤ s.inProgress := by
  rw [ProfilerState.places, List.countP_map]
  refine List.countP_mono_left fun o _ ho => ?_
  obtain ⟨kind, phase⟩ := o
  cases phase with
  | ended => cases ho
  | counted | sampled | raising | noting | searching | claimed | running | closing | released => rfl

/-- An operation begins while at most seven are in progress. -/
def Few (s : ProfilerState) : ProfilerLabel → Prop
  | .start _ => s.inProgress < sampleSlots
  | .step _ => True

theorem Few.roomy {s t : ProfilerState} (hok : s.Ok) (hr : Roomy sampleSlots s.places) {l : ProfilerLabel}
    (hfew : Few s l) (ht : profilerStep s l = some t) : Roomy sampleSlots t.places := by
  rcases hok.pool ht with hsame | ⟨m, hm, henter⟩
  · rw [hsame]
    exact hr
  · refine poolStep_roomy hr (fun he => ?_) hm
    obtain ⟨kind, rfl⟩ := henter he
    exact Nat.lt_of_le_of_lt (beyond_inProgress s) hfew

theorem Few.slotted {s : ProfilerState} (hr : Roomy sampleSlots s.places) {l : ProfilerLabel}
    (hfew : Few s l) : Slotted s l := by
  cases l with
  | start kind => exact Nat.lt_trans (Nat.succ_lt_succ hfew) (by decide)
  | step op =>
    intro o slot ho hphase
    by_contra hlt
    have hx := places_get ho
    rw [hphase, show (IoPhase.running slot).place = .scanning sampleSlots from if_neg hlt] at hx
    exact Nat.lt_irrefl _ (hr.scan (List.mem_of_getElem? hx))

/-- While at most eight operations overlap, every one of them finds a slot, however the scans
and the ends interleave: the queue depth is exact throughout. -/
theorem eight_exact {ls pre post : List ProfilerLabel} {s : ProfilerState} (h : Along profilerStep Few .init ls)
    (hls : ls = pre ++ post) (hs : run profilerStep .init pre = some s) : s.Exact := by
  have hslotted : Along profilerStep Slotted .init ls := by
    rw [along_iff]
    intro before l after m he hm
    rw [he] at h
    obtain ⟨hbefore, hfew⟩ := h.append hm
    have hinv : m.Ok ∧ Roomy sampleSlots m.places :=
      run_invariant (I := fun s => s.Ok ∧ Roomy sampleSlots s.places)
        (fun s l t hi hp ht => ⟨hi.1.step ht, hp.roomy hi.1 hi.2 ht⟩) hbefore
        ⟨profilerState_ok, fun k hk => (Nat.zero_add k).symm ▸ hk⟩ hm
    exact hfew.1.slotted hinv.2
  exact (queueDepth_exact ls).mpr hslotted pre post s hls hs

end RaidTest.Stripe
