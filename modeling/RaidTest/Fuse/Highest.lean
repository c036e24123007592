import RaidTest.Base.AtomicMax
import RaidTest.Fuse.Accounting

/-!
# The highest byte written (`update_highest_written`)

WinFsp calls back from many threads. A write raises `highest_byte_written` after each of its
chunks, a truncation when it grows its file; the loop for it is there twice.
-/

namespace RaidTest.Fuse
open RaidTest.Base RaidTest.Stripe RaidTest.Cache

/-! ### What the callbacks hand over -/

/-- `(LONG64)n`. -/
def long64 (n : ℕ) : ℤ := if n < 9223372036854775808 then n else n - 18446744073709551616

theorem long64_of_lt {n : ℕ} (h : n < 9223372036854775808) : long64 n = n := if_pos h

/-- The lengths of the chunks a write transfers, up to the first that transfers none. -/
def chunkLens (env : ℕ → ChunkEnv) (buffer : Buf) : ℕ → ℕ → ℕ → ℕ → ℕ → System → List ℕ
  | 0, _, _, _, _, _ => []
  | fuel + 1, i, curr, remaining, total, s =>
    if remaining = 0 then []
    else
      match raidWriteChunk (env i) (buffer.shift total) curr remaining s with
      | none => []
      | some (n, s) => if n = 0 then [] else n :: chunkLens env buffer fuel (i + 1) (curr + n) (remaining - n) (total + n) s

/-- A callback as far as it raises `highest_byte_written`: a write by the lengths of the chunks it
transfers, a truncation by the sizes before and after. -/
inductive Raising where
  | write (offset : ℕ) (lens : List ℕ)
  | truncate (oldSize size : ℕ)
  deriving DecidableEq

/-- The ends of the chunks, as `raid_write` hands them to `update_highest_written`. -/
def chunkEnds : ℕ → List ℕ → List ℤ
  | _, [] => []
  | curr, n :: lens => long64 (u64 (curr + n)) :: chunkEnds (curr + n) lens

/-- What a callback raises `highest_byte_written` to, one value after the other. -/
def Raising.values : Raising → List ℤ
  | .write offset lens => chunkEnds offset lens
  | .truncate oldSize size => if size > oldSize then [long64 size] else []

/-- How far a callback gets: the end of what a write transferred, or the new size of a file that grew. -/
def Raising.reached : Raising → Option ℕ
  | .write offset lens => if lens = [] then none else some (offset + lens.sum)
  | .truncate oldSize size => if size > oldSize then some size else none

/-- The callback stays below what a `LONG64` holds. -/
def Raising.Fits : Raising → Prop
  | .write offset lens => offset + lens.sum < 9223372036854775808
  | .truncate _ size => size < 9223372036854775808

/-- The chunks are what `raid_write` counts. -/
theorem chunkLens_sum {env : ℕ → ChunkEnv} {buffer : Buf} {fuel i curr remaining total total' : ℕ} {s t : System} {ok : Bool}
    (h : raidWriteLoop env buffer fuel i curr remaining total s = some (ok, total', t)) :
    total' = total + (chunkLens env buffer fuel i curr remaining total s).sum := by
  induction fuel generalizing i curr remaining total s with
  | zero =>
    simp only [raidWriteLoop, Option.some.injEq, Prod.mk.injEq] at h
    exact h.2.1.symm
  | succ fuel ih =>
    unfold raidWriteLoop at h
    unfold chunkLens
    split
    · next hzero =>
      rw [if_pos hzero] at h
      simp only [Option.some.injEq, Prod.mk.injEq] at h
      exact h.2.1.symm
    next hmore =>
    rw [if_neg hmore] at h
    cases hc : raidWriteChunk (env i) (buffer.shift total) curr remaining s with
    | none =>
      rw [hc] at h
      cases h
    | some r =>
      obtain ⟨n, u⟩ := r
      rw [hc] at h
      simp only at h ⊢
      split
      · next hn =>
        rw [if_pos hn] at h
        simp only [Option.some.injEq, Prod.mk.injEq] at h
        exact h.2.1.symm
      · next hn =>
        rw [if_neg hn] at h
        rw [ih h, List.sum_cons, Nat.add_assoc]

theorem chunkLens_pos {env : ℕ → ChunkEnv} {buffer : Buf} {fuel i curr remaining total : ℕ} {s : System} {n : ℕ}
    (h : n ∈ chunkLens env buffer fuel i curr remaining total s) : 0 < n := by
  induction fuel generalizing i curr remaining total s with
  | zero => cases h
  | succ fuel ih =>
    unfold chunkLens at h
    split at h
    · cases h
    split at h
    · cases h
    split at h
    · cases h
    next hne =>
    rcases List.mem_cons.mp h with rfl | h
    · exact Nat.pos_of_ne_zero hne
    · exact ih h

/-- What `raid_write` raises when its offset is inside the volume. -/
def writeRaising (env : ℕ → ChunkEnv) (buffer : Buf) (size offset : ℕ) (m : Mount) : Raising :=
  .write offset (chunkLens env buffer (writeLength m size offset) 0 offset (writeLength m size offset) 0 m.sys)

section Write
variable {env : ℕ → ChunkEnv} {buffer : Buf} {size offset total : ℕ} {m : Mount} {t : System} {ok : Bool}
  (h : raidWriteLoop env buffer (writeLength m size offset) 0 offset (writeLength m size offset) 0 m.sys = some (ok, total, t))
include h

/-- A write gets as far as what it transferred, also when its last chunk failed. -/
theorem writeRaising_reached :
    (writeRaising env buffer size offset m).reached = if total = 0 then none else some (offset + total) := by
  have hsum := chunkLens_sum h
  rw [Nat.zero_add] at hsum
  unfold writeRaising Raising.reached
  simp only
  rw [← hsum]
  have hempty : chunkLens env buffer (writeLength m size offset) 0 offset (writeLength m size offset) 0 m.sys = [] ↔
      total = 0 := by
    constructor
    · intro hnil
      rw [hsum, hnil, List.sum_nil]
    · intro hzero
      rw [List.eq_nil_iff_forall_not_mem]
      intro n hn
      have hle := List.le_sum_of_mem hn
      have hpos := chunkLens_pos hn
      omega
  by_cases hzero : total = 0
  · rw [if_pos hzero, if_pos (hempty.mpr hzero)]
  · rw [if_neg hzero, if_neg fun hnil => hzero (hempty.mp hnil)]

/-- It stays inside the volume. -/
theorem writeRaising_fits (hin : offset < m.sys.v.virtualTotalBytes) (htotal : m.sys.v.virtualTotalBytes < 9223372036854775808)
    (hsize : size < 9223372036854775808) : (writeRaising env buffer size offset m).Fits := by
  have hsum := chunkLens_sum h
  have hle := (raidWriteLoop_total h).1
  have hlen : writeLength m size offset ≤ m.sys.v.virtualTotalBytes - offset := by
    unfold writeLength
    rw [minU64_eq, u64_of_lt (by omega), sub64_of_le (by omega) (by omega)]
    omega
  unfold writeRaising Raising.Fits
  simp only
  omega

end Write

theorem mem_chunkEnds_le {curr : ℕ} {lens : List ℕ} (h : curr + lens.sum < 9223372036854775808) {x : ℤ}
    (hx : x ∈ chunkEnds curr lens) : x ≤ ((curr + lens.sum : ℕ) : ℤ) := by
  induction lens generalizing curr with
  | nil => cases hx
  | cons n lens ih =>
    rw [List.sum_cons] at h ⊢
    rcases List.mem_cons.mp hx with rfl | hx
    · rw [u64_of_lt (by omega), long64_of_lt (by omega)]
      omega
    · have hle := ih (by omega) hx
      omega

theorem end_mem_chunkEnds {curr : ℕ} {lens : List ℕ} (h : curr + lens.sum < 9223372036854775808) (hne : lens ≠ []) :
    ((curr + lens.sum : ℕ) : ℤ) ∈ chunkEnds curr lens := by
  induction lens generalizing curr with
  | nil => exact absurd rfl hne
  | cons n lens ih =>
    rw [List.sum_cons] at h ⊢
    unfold chunkEnds
    cases lens with
    | nil =>
      rw [u64_of_lt (by omega), long64_of_lt (by omega)]
      exact List.mem_cons_self ..
    | cons m lens =>
      rw [← Nat.add_assoc]
      exact List.mem_cons_of_mem _ (ih (by omega) (List.cons_ne_nil _ _))

/-- The last value a callback hands over is how far it got, and the greatest of them. -/
theorem Raising.values_spec {r : Raising} (h : r.Fits) :
    (r.values = [] ∧ r.reached = none) ∨
      ∃ n : ℕ, r.reached = some n ∧ (n : ℤ) ∈ r.values ∧ ∀ x ∈ r.values, x ≤ (n : ℤ) := by
  cases r with
  | write offset lens =>
    simp only [Raising.values, Raising.reached]
    by_cases hne : lens = []
    · subst hne
      exact Or.inl ⟨rfl, rfl⟩
    · rw [if_neg hne]
      exact Or.inr ⟨_, rfl, end_mem_chunkEnds h hne, fun x hx => mem_chunkEnds_le h hx⟩
  | truncate oldSize size =>
    simp only [Raising.values, Raising.reached]
    by_cases hgrow : size > oldSize
    · rw [if_pos hgrow, if_pos hgrow, long64_of_lt h]
      exact Or.inr ⟨size, rfl, List.mem_singleton.mpr rfl, fun x hx => le_of_eq (List.mem_singleton.mp hx)⟩
    · rw [if_neg hgrow, if_neg hgrow]
      exact Or.inl ⟨rfl, rfl⟩

/-! ### The threads -/

/-- `highest_byte_written` with the loops that run on it, and what the callback of each thread has
still to hand over. -/
structure Highest where
  max : MaxState ℤ ℕ
  todo : ℕ → List ℤ

/-- `fuse_mount_volume`. -/
def Highest.mount : Highest := ⟨.init 0, fun _ => []⟩

inductive HighLabel where
  | start (i : ℕ) (r : Raising)
  | call (i : ℕ)
  | load (i : ℕ)
  | turn (i : ℕ)
  deriving DecidableEq

/-- Thread `i` gets a callback, calls `update_highest_written` with its next value, or goes on in there. -/
def highStep (s : Highest) : HighLabel → Option Highest
  | .start i r =>
    if s.todo i = [] ∧ s.max.pc i = none then some { s with todo := fun j => if j = i then r.values else s.todo j } else none
  | .call i =>
    match s.todo i with
    | [] => none
    | x :: rest =>
      (maxStep s.max (.call i x)).map fun m => ⟨m, fun j => if j = i then rest else s.todo j⟩
  | .load i => (maxStep s.max (.load i)).map fun m => { s with max := m }
  | .turn i => (maxStep s.max (.turn i)).map fun m => { s with max := m }

/-- The values the callbacks started have to hand over. -/
def HighLabel.values : HighLabel → List ℤ
  | .start _ r => r.values
  | _ => []

def HighLabel.isCall : HighLabel → Bool
  | .call _ => true
  | _ => false

/-- What a run does to `highest_byte_written`, and what was handed over in it. -/
structure Hands (s t : Highest) (ls : List HighLabel) (ms : List (MaxLabel ℤ ℕ)) : Prop where
  run : Base.run maxStep s.max ms = some t.max
  values : ∀ x, (x ∈ ls.flatMap HighLabel.values ∨ ∃ i, x ∈ s.todo i) ↔ (x ∈ called ms ∨ ∃ i, x ∈ t.todo i)
  turns : ∀ i, ms.count (.turn i) = ls.count (.turn i)
  calls : (called ms).length = ls.countP HighLabel.isCall
  own : ∀ i x, .call i x ∈ ms → .call i ∈ ls

theorem hands_nil (s : Highest) : Hands s s [] [] :=
  ⟨rfl, fun _ => Iff.rfl, fun _ => rfl, rfl, fun _ _ h => absurd h List.not_mem_nil⟩

theorem Hands.append {s t u : Highest} {ls ls' : List HighLabel} {ms ms' : List (MaxLabel ℤ ℕ)} (h : Hands s t ls ms)
    (h' : Hands t u ls' ms') : Hands s u (ls ++ ls') (ms ++ ms') := by
  constructor
  · exact (run_append maxStep _ _ ms ms').mpr ⟨t.max, h.run, h'.run⟩
  · intro x
    have h1 := h.values x
    have h2 := h'.values x
    rw [List.flatMap_append, called_append, List.mem_append, List.mem_append]
    tauto
  · intro i
    rw [List.count_append, List.count_append, h.turns, h'.turns]
  · rw [called_append, List.length_append, List.countP_append, h.calls, h'.calls]
  · intro i x hx
    rcases List.mem_append.mp hx with hx | hx
    · exact List.mem_append_left _ (h.own i x hx)
    · exact List.mem_append_right _ (h'.own i x hx)

theorem highStep_hands {s t : Highest} {l : HighLabel} (h : highStep s l = some t) : ∃ ms, Hands s t [l] ms := by
  have hsingle : ∀ {m : MaxLabel ℤ ℕ}, maxStep s.max m = some t.max → run maxStep s.max [m] = some t.max := by
    intro m hm
    exact (run_cons maxStep _ _ m []).mpr ⟨t.max, hm, rfl⟩
  cases l with
  | start i r =>
    simp only [highStep] at h
    split at h
    · next hidle =>
      obtain rfl := Option.some.inj h
      refine ⟨[], rfl, fun x => ?_, fun _ => rfl, rfl, fun _ _ hx => absurd hx List.not_mem_nil⟩
      rw [List.flatMap_singleton]
      constructor
      · rintro (hx | ⟨j, hj⟩)
        · have hvalues : x ∈ if i = i then r.values else s.todo i := by
            rw [if_pos rfl]
            exact hx
          exact Or.inr ⟨i, hvalues⟩
        · refine Or.inr ⟨j, ?_⟩
          have hne : j ≠ i := by
            rintro rfl
            rw [hidle.1] at hj
            cases hj
          simpa only [if_neg hne] using hj
      · rintro (hx | ⟨j, hj⟩)
        · cases hx
        · simp only at hj
          split at hj
          · exact Or.inl hj
          · exact Or.inr ⟨j, hj⟩
    · cases h
  | call i =>
    simp only [highStep] at h
    split at h
    · cases h
    next x rest hi =>
    obtain ⟨m, hm, rfl⟩ := Option.map_eq_some_iff.mp h
    refine ⟨[.call i x], hsingle hm, fun y => ?_, fun _ => rfl, rfl, fun j y hy => ?_⟩
    · constructor
      · rintro (hy | ⟨j, hj⟩)
        · cases hy
        · by_cases hji : j = i
          · subst hji
            rw [hi] at hj
            rcases List.mem_cons.mp hj with rfl | hj
            · exact Or.inl (List.mem_singleton.mpr rfl)
            · exact Or.inr ⟨j, by simpa only [if_true] using hj⟩
          · exact Or.inr ⟨j, by simpa only [if_neg hji] using hj⟩
      · rintro (hy | ⟨j, hj⟩)
        · rw [List.mem_singleton.mp hy]
          exact Or.inr ⟨i, hi ▸ List.mem_cons_self ..⟩
        · simp only at hj
          split at hj
          · exact Or.inr ⟨i, hi ▸ List.mem_cons_of_mem _ hj⟩
          · exact Or.inr ⟨j, hj⟩
    · obtain ⟨rfl, _⟩ := MaxLabel.call.inj (List.mem_singleton.mp hy)
      exact List.mem_singleton.mpr rfl
  | load i =>
    obtain ⟨m, hm, rfl⟩ := Option.map_eq_some_iff.mp h
    refine ⟨[.load i], hsingle hm, fun y => ?_, fun _ => rfl, rfl, fun j y hy => ?_⟩
    · exact ⟨fun hy => hy.elim (fun hy => absurd hy List.not_mem_nil) Or.inr,
        fun hy => hy.elim (fun hy => absurd hy List.not_mem_nil) Or.inr⟩
    · cases List.mem_singleton.mp hy
  | turn i =>
    obtain ⟨m, hm, rfl⟩ := Option.map_eq_some_iff.mp h
    refine ⟨[.turn i], hsingle hm, fun y => ?_, fun j => ?_, rfl, fun j y hy => ?_⟩
    · exact ⟨fun hy => hy.elim (fun hy => absurd hy List.not_mem_nil) Or.inr,
        fun hy => hy.elim (fun hy => absurd hy List.not_mem_nil) Or.inr⟩
    · rw [List.count_singleton, List.count_singleton]
      simp only [beq_iff_eq, MaxLabel.turn.injEq, HighLabel.turn.injEq]
    · cases List.mem_singleton.mp hy

theorem highRun_hands {s t : Highest} {ls : List HighLabel} (h : run highStep s ls = some t) : ∃ ms, Hands s t ls ms := by
  induction ls generalizing s with
  | nil =>
    obtain rfl := Option.some.inj h
    exact ⟨[], hands_nil s⟩
  | cons l ls ih =>
    obtain ⟨u, hu, h⟩ := (run_cons highStep s t l ls).mp h
    obtain ⟨ms, hms⟩ := highStep_hands hu
    obtain ⟨ms', hms'⟩ := ih h
    exact ⟨ms ++ ms', hms.append hms'⟩

/-- When the threads have come to rest, `highest_byte_written` is how far the callback got that got
farthest, whatever the order their loops ran in. -/
theorem highestByteWritten_greatest (ls : List HighLabel) (t : Highest) (hfits : ∀ i r, .start i r ∈ ls → r.Fits)
    (hrun : run highStep .mount ls = some t) (hrest : ∀ i, t.max.pc i = none ∧ t.todo i = []) :
    IsGreatest {x : ℤ | x = 0 ∨ ∃ i r, .start i r ∈ ls ∧ ∃ n : ℕ, r.reached = some n ∧ x = n} t.max.cell := by
  obtain ⟨ms, hms⟩ := highRun_hands hrun
  obtain ⟨htaken, hbound⟩ := max_greatest hms.run fun i => (hrest i).1
  have hcalled : ∀ x, x ∈ ls.flatMap HighLabel.values ↔ x ∈ called ms := by
    intro x
    have hx := hms.values x
    have hstart : ¬ ∃ i, x ∈ Highest.mount.todo i := fun ⟨_, hi⟩ => absurd hi List.not_mem_nil
    have hend : ¬ ∃ i, x ∈ t.todo i := by
      rintro ⟨i, hi⟩
      rw [(hrest i).2] at hi
      cases hi
    rwa [or_iff_left hstart, or_iff_left hend] at hx
  have hfrom : ∀ x, x ∈ called ms ↔ ∃ i r, .start i r ∈ ls ∧ x ∈ r.values := by
    intro x
    rw [← hcalled, List.mem_flatMap]
    constructor
    · rintro ⟨l, hl, hx⟩
      cases l with
      | start i r => exact ⟨i, r, hl, hx⟩
      | _ => cases hx
    · rintro ⟨i, r, hr, hx⟩
      exact ⟨.start i r, hr, hx⟩
  constructor
  · rcases htaken with h0 | hin
    · exact Or.inl h0
    · obtain ⟨i, r, hr, hx⟩ := (hfrom _).mp hin
      rcases Raising.values_spec (hfits i r hr) with ⟨hnil, _⟩ | ⟨n, hn, hmem, hle⟩
      · rw [hnil] at hx
        cases hx
      · -- the callback's last value is not above the cell either
        have hup := hbound (Or.inr ((hfrom _).mpr ⟨i, r, hr, hmem⟩))
        exact Or.inr ⟨i, r, hr, n, hn, le_antisymm (hle _ hx) hup⟩
  · rintro x (rfl | ⟨i, r, hr, n, hn, rfl⟩)
    · exact hbound (Or.inl rfl)
    · rcases Raising.values_spec (hfits i r hr) with ⟨_, hnone⟩ | ⟨m, hm, hmem, _⟩
      · rw [hnone] at hn
        cases hn
      · obtain rfl := Option.some.inj (hn.symm.trans hm)
        exact hbound (Or.inr ((hfrom _).mpr ⟨i, r, hr, hmem⟩))

/-- A write of ten bytes into an empty cache. -/
theorem tenWritten_fits : (Raising.write 0 [10]).Fits := by
  have hwrite : writeRaising (fun _ => ⟨fun _ => .good, .good⟩) (fun _ => 7) 10 0 ⟨pairSystem, [], 0, 0⟩ = .write 0 [10] := by
    decide +kernel
  have hrun : (raidWriteLoop (fun _ => ⟨fun _ => .good, .good⟩) (fun _ => 7) 10 0 0 10 0 pairSystem).map
      (fun r => (r.1, r.2.1)) = some (true, 10) := by decide +kernel
  obtain ⟨⟨ok, total, s⟩, hloop, _⟩ := Option.map_eq_some_iff.mp hrun
  have hin : 0 < pairSystem.v.virtualTotalBytes := by decide
  rw [← hwrite]
  exact writeRaising_fits (m := ⟨pairSystem, [], 0, 0⟩) hloop hin (by decide) (by decide)

/-- Ten bytes are written while a file grows to twenty; the write finds its exchange refused. -/
def crossing : List HighLabel :=
  [.start 0 (.write 0 [10]), .start 1 (.truncate 0 20), .call 0, .call 1, .load 0, .load 1, .turn 1, .turn 0, .turn 0]

theorem highestByteWritten_greatest_sample : ∃ t, run highStep .mount crossing = some t ∧ t.max.cell = 20 ∧
    IsGreatest {x : ℤ | x = 0 ∨ ∃ i r, .start i r ∈ crossing ∧ ∃ n : ℕ, r.reached = some n ∧ x = n} t.max.cell := by
  refine ⟨_, rfl, rfl, highestByteWritten_greatest crossing _ ?_ rfl ?_⟩
  · intro i r hr
    simp only [crossing, List.mem_cons, HighLabel.start.injEq, List.not_mem_nil, reduceCtorEq, or_false] at hr
    rcases hr with ⟨_, rfl⟩ | ⟨_, rfl⟩
    · exact tenWritten_fits
    · exact (by decide : 20 < 9223372036854775808)
  · intro i
    rcases i with _ | _ | i
    · exact ⟨rfl, rfl⟩
    · exact ⟨rfl, rfl⟩
    · exact ⟨rfl, rfl⟩

/-- A call of `update_highest_written` takes its turns of the loop at most once for each call there was. -/
theorem updateHighest_returns (pre post : List HighLabel) (i : ℕ) (t : Highest)
    (hrun : run highStep .mount (pre ++ .call i :: post) = some t) (hown : .call i ∉ post)
    (hbusy : t.max.pc i ≠ none) :
    post.count (.turn i) < (pre ++ .call i :: post).countP HighLabel.isCall := by
  obtain ⟨s, hs, hcall⟩ := (run_append highStep _ t pre _).mp hrun
  obtain ⟨u, hu, hpost⟩ := (run_cons highStep s t _ post).mp hcall
  obtain ⟨ms, hms⟩ := highRun_hands hs
  obtain ⟨ms', hms'⟩ := highRun_hands hpost
  simp only [highStep] at hu
  split at hu
  · cases hu
  next x rest hi =>
  obtain ⟨m, hm, rfl⟩ := Option.map_eq_some_iff.mp hu
  have hmax : run maxStep (.init 0) (ms ++ .call i x :: ms') = some t.max :=
    (run_append maxStep _ _ ms _).mpr ⟨s.max, hms.run, (run_cons maxStep _ _ _ ms').mpr ⟨m, hm, hms'.run⟩⟩
  have hlt := turns_lt hmax (fun y hy => hown (hms'.own i y hy)) hbusy
  rw [hms'.turns, called_append, called_cons, List.length_append, List.length_append, hms.calls, hms'.calls] at hlt
  have hvalue : (MaxLabel.value (.call i x : MaxLabel ℤ ℕ)).toList.length = 1 := rfl
  have hone : HighLabel.isCall (.call i) = true := rfl
  rw [List.countP_append, List.countP_cons, hone, if_pos rfl]
  omega

/-- The write is about to enter the loop that the growth has already entered. -/
def beforeCall : List HighLabel := [.start 0 (.write 0 [10]), .start 1 (.truncate 0 20), .call 1]

def afterCall : List HighLabel := [.load 0, .load 1, .turn 1, .turn 0]

theorem updateHighest_returns_sample :
    afterCall.count (.turn 0) < (beforeCall ++ .call 0 :: afterCall).countP HighLabel.isCall :=
  updateHighest_returns beforeCall afterCall 0 _ rfl (by decide) (by exact fun h => by cases h)

end RaidTest.Fuse
