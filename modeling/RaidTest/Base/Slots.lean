import RaidTest.Base.Trace

/-!
# Slots taken by scanning

Users of a pool look at its slots from the first on, and each takes the first one it finds
free; they leave when they like. A slot has one user at a time. While no more users than slots
are in the pool, no scan comes to the end: the users at slot `k` and beyond are at most as many
as there are slots from `k` on.
-/

namespace RaidTest.Base

inductive Place where
  /-- About to look at slot `i`. -/
  | scanning (i : ℕ)
  | holding (i : ℕ)
  | gone
  deriving DecidableEq

@[simp] theorem holding_beq (i j : ℕ) : (Place.holding i == .holding j) = decide (i = j) := by
  by_cases h : i = j
  · rw [h, beq_self_eq_true, decide_eq_true rfl]
  · rw [decide_eq_false h, beq_eq_false_iff_ne]
    exact fun he => h (Place.holding.inj he)

inductive PoolLabel where
  | enter
  | look (user : ℕ)
  | leave (user : ℕ)

def poolStep (n : ℕ) (ps : List Place) : PoolLabel → Option (List Place)
  | .enter => some (ps ++ [.scanning 0])
  | .look user =>
    match ps[user]? with
    | some (.scanning i) =>
      if i < n then some (ps.set user (if .holding i ∈ ps then .scanning (i + 1) else .holding i)) else none
    | _ => none
  | .leave user => if user < ps.length then some (ps.set user .gone) else none

/-- A replacement in a list moves a count by what the two items count for. -/
theorem countP_set_add {α : Type} {l : List α} {k : ℕ} {x : α} (p : α → Bool) (h : l[k]? = some x) (y : α) :
    (l.set k y).countP p + (p x).toNat = l.countP p + (p y).toNat := by
  obtain ⟨hk, rfl⟩ := List.getElem?_eq_some_iff.mp h
  have hpos : p l[k] = true → 0 < l.countP p := fun hp =>
    List.countP_pos_iff.mpr ⟨l[k], List.getElem_mem hk, hp⟩
  rw [List.countP_set hk]
  cases hp : p l[k] with
  | false => cases hy : p y <;> rfl
  | true =>
    have hone := hpos hp
    cases hy : p y <;> simp only [if_true, Bool.false_eq_true, if_false, Bool.toNat_true, Bool.toNat_false] <;> omega

/-! ### One user to a slot -/

/-- The flags of the slots: each is set while the slot has a user, and has one at most. -/
def Marked (flags : ℕ → Bool) (ps : List Place) : Prop := ∀ i, ps.count (.holding i) = (flags i).toNat

def mark (flags : ℕ → Bool) (i : ℕ) (b : Bool) : ℕ → Bool := fun j => if j = i then b else flags j

theorem holding_set {ps : List Place} {user : ℕ} {x : Place} (h : ps[user]? = some x) (y : Place) (i : ℕ) :
    (ps.set user y).count (.holding i) + (x == .holding i).toNat = ps.count (.holding i) + (y == .holding i).toNat :=
  countP_set_add (fun p => p == Place.holding i) h y

section Flags
variable {flags : ℕ → Bool} {ps : List Place} {user : ℕ} {x y : Place}

theorem Marked.held (h : Marked flags ps) (i : ℕ) : .holding i ∈ ps ↔ flags i = true := by
  rw [← List.count_pos_iff, h i]
  cases flags i <;> decide

theorem Marked.single (h : Marked flags ps) (i : ℕ) : ps.count (.holding i) ≤ 1 := by
  rw [h i]
  exact Bool.toNat_le _

theorem Marked.enter (h : Marked flags ps) (i : ℕ) : Marked flags (ps ++ [.scanning i]) := by
  intro j
  rw [List.count_append, h j]
  rfl

theorem Marked.keep (h : Marked flags ps) (hx : ps[user]? = some x)
    (hsame : ∀ i, (y == .holding i) = (x == .holding i)) : Marked flags (ps.set user y) := by
  intro i
  have hset := holding_set hx y i
  rw [hsame i] at hset
  rw [← h i]
  exact Nat.add_right_cancel hset

theorem Marked.take (h : Marked flags ps) {i j : ℕ} (hx : ps[user]? = some (.scanning j)) (hfree : flags i = false) :
    Marked (mark flags i true) (ps.set user (.holding i)) := by
  intro k
  have hset := holding_set hx (.holding i) k
  have hk := h k
  unfold mark
  by_cases hki : k = i
  · subst hki
    rw [hfree] at hk
    rw [hk, beq_self_eq_true] at hset
    rw [if_pos rfl]
    exact hset
  · rw [beq_eq_false_iff_ne.mpr fun he => hki (Place.holding.inj he).symm] at hset
    rw [if_neg hki, ← hk]
    exact hset

theorem Marked.leave (h : Marked flags ps) {i : ℕ} (hx : ps[user]? = some (.holding i)) :
    Marked (mark flags i false) (ps.set user .gone) := by
  intro k
  have hset := holding_set hx .gone k
  have hk := h k
  have hgone : (Place.gone == .holding k).toNat = 0 := rfl
  unfold mark
  by_cases hki : k = i
  · subst hki
    have hone : (flags k).toNat ≤ 1 := Bool.toNat_le _
    rw [beq_self_eq_true, hgone, hk] at hset
    have htrue : true.toNat = 1 := rfl
    have hfalse : false.toNat = 0 := rfl
    rw [if_pos rfl]
    omega
  · rw [beq_eq_false_iff_ne.mpr fun he => hki (Place.holding.inj he).symm] at hset
    rw [if_neg hki, ← hk]
    exact hset

end Flags

/-! ### Room for all -/

/-- At slot `k` or beyond. -/
def Place.beyond (k : ℕ) : Place → Bool
  | .scanning i => decide (k ≤ i)
  | .holding i => decide (k ≤ i)
  | .gone => false

/-- At every slot, the users there and beyond fit into the slots that are left. -/
def Roomy (n : ℕ) (ps : List Place) : Prop := ∀ k ≤ n, ps.countP (Place.beyond k) + k ≤ n

theorem beyond_place (i : ℕ) (p : Place) :
    (if p.beyond i = true then 1 else 0) =
      (if p.beyond (i + 1) = true then 1 else 0) + (if (p == .scanning i) = true then 1 else 0) +
        (if (p == .holding i) = true then 1 else 0) := by
  cases p with
  | gone => rfl
  | scanning j | holding j =>
    rcases Nat.lt_trichotomy j i with hlt | rfl | hlt
    · simp [Place.beyond, Nat.not_le.mpr hlt, Nat.ne_of_lt hlt, Nat.not_le.mpr (Nat.lt_succ_of_lt hlt)]
    · simp [Place.beyond]
    · simp [Place.beyond, Nat.le_of_lt hlt, Nat.succ_le_of_lt hlt, Nat.ne_of_gt hlt]

theorem beyond_split (i : ℕ) (ps : List Place) :
    ps.countP (Place.beyond i) = ps.countP (Place.beyond (i + 1)) + ps.count (.scanning i) + ps.count (.holding i) := by
  induction ps with
  | nil => rfl
  | cons p ps ih =>
    have hp := beyond_place i p
    rw [List.countP_cons, List.countP_cons, List.count_cons, List.count_cons]
    omega

/-- Where a scan passes a slot, there are two users at it. -/
theorem beyond_pass {i : ℕ} {ps : List Place} (hscan : .scanning i ∈ ps) (hheld : .holding i ∈ ps) :
    ps.countP (Place.beyond (i + 1)) + 2 ≤ ps.countP (Place.beyond i) := by
  have hs := List.count_pos_iff.mpr hscan
  have hh := List.count_pos_iff.mpr hheld
  have hsplit := beyond_split i ps
  omega

theorem poolStep_roomy {n : ℕ} {ps qs : List Place} {l : PoolLabel} (h : Roomy n ps)
    (hroom : l = .enter → ps.countP (Place.beyond 0) < n) (hstep : poolStep n ps l = some qs) : Roomy n qs := by
  intro k hk
  have hle := h k hk
  cases l with
  | enter =>
    have hzero := hroom rfl
    rw [← Option.some.inj hstep, List.countP_append]
    cases k with
    | zero => exact hzero
    | succ k => exact hle
  | look user =>
    rw [poolStep] at hstep
    split at hstep
    · next i hi =>
      split at hstep
      · next hlt =>
        rw [← Option.some.inj hstep]
        by_cases hheld : .holding i ∈ ps
        · rw [if_pos hheld]
          have hset := countP_set_add (Place.beyond k) hi (.scanning (i + 1))
          have hpass := beyond_pass (List.mem_of_getElem? hi) hheld
          have hroom := h i (Nat.le_of_lt hlt)
          by_cases hki : k = i + 1
          · subst hki
            have hnext : (Place.beyond (i + 1) (.scanning (i + 1))).toNat = 1 := by simp [Place.beyond]
            omega
          · have hsame : Place.beyond k (.scanning (i + 1)) = Place.beyond k (.scanning i) := by
              simp only [Place.beyond, decide_eq_decide]
              omega
            rw [hsame] at hset
            omega
        · rw [if_neg hheld]
          have hset := countP_set_add (Place.beyond k) hi (.holding i)
          have hsame : Place.beyond k (.holding i) = Place.beyond k (.scanning i) := rfl
          rw [hsame] at hset
          omega
      · cases hstep
    · cases hstep
  | leave user =>
    rw [poolStep] at hstep
    split at hstep
    · next hlt =>
      have hset := countP_set_add (Place.beyond k) (List.getElem?_eq_getElem hlt) .gone
      have hgone : (Place.beyond k .gone).toNat = 0 := rfl
      rw [← Option.some.inj hstep]
      omega
    · cases hstep

/-- With room for all, every scan is at a slot. -/
theorem Roomy.scan {n i : ℕ} {ps : List Place} (h : Roomy n ps) (hi : .scanning i ∈ ps) : i < n := by
  have hn := h n (Nat.le_refl n)
  by_contra hge
  have hpos : 0 < ps.countP (Place.beyond n) :=
    List.countP_pos_iff.mpr ⟨_, hi, decide_eq_true (Nat.not_lt.mp hge)⟩
  omega

end RaidTest.Base
