import Mathlib.Data.List.Perm.Basic
import Mathlib.Data.List.Pairwise
import Mathlib.Tactic.Common

/-!
# Extents, patches and coverings

A store holds one value for every cell, a cell being a key and a position. An
extent is a run of consecutive cells under one key, a patch gives values to the
cells of an extent. Two results carry the rest: patches on pairwise disjoint
extents can be applied in any order, and the extents that cover a stretch of a
location map, in order, move exactly the cells of that stretch.
-/

namespace RaidTest.Base

variable {K V : Type}

/-- The cells `off, .., off + len - 1` under `key`. -/
structure Extent (K : Type) where
  key : K
  off : ℕ
  len : ℕ
  deriving Repr, DecidableEq

def Extent.Holds (e : Extent K) (k : K) (p : ℕ) : Prop := k = e.key ∧ e.off ≤ p ∧ p < e.off + e.len

instance [DecidableEq K] (e : Extent K) (k : K) (p : ℕ) : Decidable (e.Holds k p) :=
  inferInstanceAs (Decidable (_ ∧ _ ∧ _))

def Extent.Apart (e f : Extent K) : Prop := ∀ k p, e.Holds k p → ¬ f.Holds k p

theorem Extent.apart_symm {e f : Extent K} (h : e.Apart f) : f.Apart e :=
  fun k p hf he => h k p he hf

/-- New values for the cells of an extent, numbered from its first cell. -/
structure Patch (K V : Type) where
  extent : Extent K
  data : ℕ → V

def Patch.apply [DecidableEq K] (q : Patch K V) (s : K → ℕ → V) : K → ℕ → V := fun k p =>
  if q.extent.Holds k p then q.data (p - q.extent.off) else s k p

def applyAll [DecidableEq K] (l : List (Patch K V)) (s : K → ℕ → V) : K → ℕ → V :=
  l.foldl (fun s q => q.apply s) s

section Apply
variable [DecidableEq K]

@[simp] theorem applyAll_nil (s : K → ℕ → V) : applyAll [] s = s := rfl

@[simp] theorem applyAll_cons (q : Patch K V) (l : List (Patch K V)) (s : K → ℕ → V) :
    applyAll (q :: l) s = applyAll l (q.apply s) := rfl

theorem Patch.apply_of_holds (q : Patch K V) (s : K → ℕ → V) {k : K} {p : ℕ}
    (h : q.extent.Holds k p) : q.apply s k p = q.data (p - q.extent.off) := by
  simp only [Patch.apply, h, ite_true]

theorem Patch.apply_of_not_holds (q : Patch K V) (s : K → ℕ → V) {k : K} {p : ℕ}
    (h : ¬ q.extent.Holds k p) : q.apply s k p = s k p := by
  simp only [Patch.apply, h, ite_false]

/-- A cell outside every extent keeps its value. -/
theorem applyAll_of_not_holds (l : List (Patch K V)) (s : K → ℕ → V) (k : K) (p : ℕ)
    (h : ∀ q ∈ l, ¬ q.extent.Holds k p) : applyAll l s k p = s k p := by
  induction l generalizing s with
  | nil => rfl
  | cons q l ih =>
    have hq := h q (List.mem_cons_self ..)
    have hl := ih (q.apply s) (fun r hr => h r (List.mem_cons_of_mem _ hr))
    rw [applyAll_cons, hl, q.apply_of_not_holds s hq]

/-- A cell of one of pairwise disjoint patches gets that patch's value. -/
theorem applyAll_of_holds (l : List (Patch K V)) (s : K → ℕ → V) (k : K) (p : ℕ)
    (hd : l.Pairwise fun q r => q.extent.Apart r.extent) (q : Patch K V) (hq : q ∈ l)
    (h : q.extent.Holds k p) : applyAll l s k p = q.data (p - q.extent.off) := by
  induction l generalizing s with
  | nil => cases hq
  | cons r l ih =>
    obtain ⟨hr, hl⟩ := List.pairwise_cons.mp hd
    rw [applyAll_cons]
    rcases List.mem_cons.mp hq with rfl | hm
    · rw [applyAll_of_not_holds l _ k p (fun t ht => hr t ht k p h), q.apply_of_holds s h]
    · exact ih (r.apply s) hl hm

/-- Disjoint patches commute: any order of application gives the same store. -/
theorem applyAll_perm (l m : List (Patch K V)) (s : K → ℕ → V) (hp : m.Perm l)
    (hd : l.Pairwise fun q r => q.extent.Apart r.extent) : applyAll m s = applyAll l s := by
  have hm : m.Pairwise fun q r => q.extent.Apart r.extent :=
    (hp.pairwise_iff (fun h => Extent.apart_symm h)).mpr hd
  funext k p
  by_cases h : ∃ q ∈ l, q.extent.Holds k p
  · obtain ⟨q, hq, hh⟩ := h
    rw [applyAll_of_holds l s k p hd q hq hh,
      applyAll_of_holds m s k p hm q (hp.mem_iff.mpr hq) hh]
  · have hn : ∀ q ∈ l, ¬ q.extent.Holds k p := fun q hq hh => h ⟨q, hq, hh⟩
    rw [applyAll_of_not_holds l s k p hn,
      applyAll_of_not_holds m s k p (fun q hq => hn q (hp.mem_iff.mp hq))]

end Apply

/-! ### Coverings -/

/-- The extents hold, one after the other, the cells `f a, f (a + 1), .., f (b - 1)`. -/
def Covers (f : ℕ → K × ℕ) : ℕ → List (Extent K) → ℕ → Prop
  | a, [], b => a = b
  | a, e :: es, b => (∀ i < e.len, f (a + i) = (e.key, e.off + i)) ∧ Covers f (a + e.len) es b

theorem Covers.le {f : ℕ → K × ℕ} {es : List (Extent K)} {a b : ℕ} (h : Covers f a es b) : a ≤ b := by
  induction es generalizing a with
  | nil => exact Nat.le_of_eq h
  | cons e es ih =>
    have ht := ih h.2
    omega

theorem Covers.len_le {f : ℕ → K × ℕ} {es : List (Extent K)} {a b : ℕ} (h : Covers f a es b)
    {e : Extent K} (he : e ∈ es) : a + e.len ≤ b := by
  induction es generalizing a with
  | nil => cases he
  | cons x es ih =>
    have hle := Covers.le h.2
    rcases List.mem_cons.mp he with rfl | hm
    · exact hle
    · have ht := ih h.2 hm
      omega

theorem Covers.append {f : ℕ → K × ℕ} {es fs : List (Extent K)} {a b c : ℕ}
    (h : Covers f a es b) (g : Covers f b fs c) : Covers f a (es ++ fs) c := by
  induction es generalizing a with
  | nil =>
    have he : a = b := h
    subst he
    exact g
  | cons e es ih => exact ⟨h.1, ih h.2⟩

theorem Covers.split {f : ℕ → K × ℕ} {es fs : List (Extent K)} {a c : ℕ}
    (h : Covers f a (es ++ fs) c) : ∃ b, Covers f a es b ∧ Covers f b fs c := by
  induction es generalizing a with
  | nil => exact ⟨a, rfl, h⟩
  | cons e es ih =>
    obtain ⟨b, hb, hc⟩ := ih h.2
    exact ⟨b, ⟨h.1, hb⟩, hc⟩

/-- One more extent at the end. -/
theorem Covers.snoc {f : ℕ → K × ℕ} {es : List (Extent K)} {a b : ℕ} (e : Extent K)
    (h : Covers f a es b) (he : ∀ i < e.len, f (b + i) = (e.key, e.off + i)) :
    Covers f a (es ++ [e]) (b + e.len) :=
  h.append ⟨he, rfl⟩

/-- The last extent grows by cells that continue it. -/
theorem Covers.grow {f : ℕ → K × ℕ} {es : List (Extent K)} {a b n : ℕ} (e : Extent K)
    (h : Covers f a (es ++ [e]) b)
    (hn : ∀ i < n, f (b + i) = (e.key, e.off + e.len + i)) :
    Covers f a (es ++ [{ e with len := e.len + n }]) (b + n) := by
  obtain ⟨c, hc, he⟩ := h.split
  have hb : c + e.len = b := he.2
  have hlast : ∀ i < e.len + n, f (c + i) = (e.key, e.off + i) := by
    intro i hi
    by_cases hlt : i < e.len
    · exact he.1 i hlt
    · have hx := hn (i - e.len) (by omega)
      rw [show b + (i - e.len) = c + i by omega] at hx
      rw [hx, show e.off + e.len + (i - e.len) = e.off + i by omega]
  have hs := hc.snoc { e with len := e.len + n } hlast
  simpa only [← hb, Nat.add_assoc] using hs

/-- The same covering, positions counted from `c` on. -/
theorem Covers.shift {f : ℕ → K × ℕ} {es : List (Extent K)} {a b c : ℕ}
    (h : Covers f (c + a) es (c + b)) : Covers (fun i => f (c + i)) a es b := by
  induction es generalizing a with
  | nil =>
    have he : c + a = c + b := h
    exact Nat.add_left_cancel he
  | cons e es ih =>
    refine ⟨fun i hi => ?_, ih ?_⟩
    · simpa only [Nat.add_assoc] using h.1 i hi
    · simpa only [Nat.add_assoc] using h.2

/-! ### Moves

A move carries the cells of one extent to or from consecutive positions of a row.
A list of moves along a covering may be carried out in any order.
-/

/-- The extents with the position each one starts at, the first at `a`. -/
def places : ℕ → List (Extent K) → List (ℕ × Extent K)
  | _, [] => []
  | a, e :: es => (a, e) :: places (a + e.len) es

theorem places_start {a : ℕ} {es : List (Extent K)} {q : ℕ × Extent K} (hq : q ∈ places a es) :
    a ≤ q.1 := by
  induction es generalizing a with
  | nil => cases hq
  | cons e es ih =>
    rcases List.mem_cons.mp hq with rfl | hm
    · exact Nat.le_refl a
    · have ht := ih hm
      omega

theorem places_holds {f : ℕ → K × ℕ} {es : List (Extent K)} {a b : ℕ} (h : Covers f a es b)
    {q : ℕ × Extent K} (hq : q ∈ places a es) :
    q.1 + q.2.len ≤ b ∧ ∀ i < q.2.len, f (q.1 + i) = (q.2.key, q.2.off + i) := by
  induction es generalizing a with
  | nil => cases hq
  | cons e es ih =>
    rcases List.mem_cons.mp hq with rfl | hm
    · exact ⟨Covers.le h.2, h.1⟩
    · exact ih h.2 hm

theorem places_exists {f : ℕ → K × ℕ} {es : List (Extent K)} {a b i : ℕ} (h : Covers f a es b)
    (ha : a ≤ i) (hb : i < b) : ∃ q ∈ places a es, q.1 ≤ i ∧ i < q.1 + q.2.len := by
  induction es generalizing a with
  | nil =>
    have he : a = b := h
    omega
  | cons e es ih =>
    by_cases hlt : i < a + e.len
    · exact ⟨(a, e), List.mem_cons_self .., ha, hlt⟩
    · obtain ⟨q, hq, hh⟩ := ih h.2 (by omega)
      exact ⟨q, List.mem_cons_of_mem _ hq, hh⟩

theorem places_disjoint (a : ℕ) (es : List (Extent K)) :
    (places a es).Pairwise fun q r => q.1 + q.2.len ≤ r.1 := by
  induction es generalizing a with
  | nil => exact List.Pairwise.nil
  | cons e es ih => exact List.pairwise_cons.mpr ⟨fun r hr => places_start hr, ih _⟩

/-- Where the location map is injective the extents do not overlap. -/
theorem places_apart {f : ℕ → K × ℕ} {es : List (Extent K)} {a b : ℕ} (h : Covers f a es b)
    (hf : ∀ i j, a ≤ i → i < b → a ≤ j → j < b → f i = f j → i = j) :
    (places a es).Pairwise fun q r => q.2.Apart r.2 := by
  refine List.Pairwise.imp_of_mem ?_ (places_disjoint a es)
  intro q r hq hr hlt k p hqp hrp
  obtain ⟨hqk, hql, hqh⟩ := hqp
  obtain ⟨hrk, hrl, hrh⟩ := hrp
  have hqs := places_start hq
  have hrs := places_start hr
  obtain ⟨hqb, hqf⟩ := places_holds h hq
  obtain ⟨hrb, hrf⟩ := places_holds h hr
  have h1 := hqf (p - q.2.off) (by omega)
  have h2 := hrf (p - r.2.off) (by omega)
  rw [show q.2.off + (p - q.2.off) = p by omega, ← hqk] at h1
  rw [show r.2.off + (p - r.2.off) = p by omega, ← hrk] at h2
  have heq := hf _ _ (by omega) (by omega) (by omega) (by omega) (h1.trans h2.symm)
  omega

section Moves
variable {R : Type}

/-- Moves out of a row: in whatever order, the cell of position `i` gets what the move
over `i` carries. -/
theorem applyAll_store [DecidableEq K] {f : ℕ → K × ℕ} {es : List (Extent K)} {a b : ℕ} (h : Covers f a es b)
    (hf : ∀ i j, a ≤ i → i < b → a ≤ j → j < b → f i = f j → i = j)
    (g : R → ℕ × Extent K) (data : R → ℕ → V) (s : K → ℕ → V) {l m : List R} (hp : m.Perm l)
    (hl : l.map g = places a es) {i : ℕ} (ha : a ≤ i) (hb : i < b) :
    ∃ r ∈ l, (g r).1 ≤ i ∧ i < (g r).1 + (g r).2.len ∧
      applyAll (m.map fun r => ⟨(g r).2, data r⟩) s (f i).1 (f i).2 = data r (i - (g r).1) := by
  obtain ⟨q, hq, h1, h2⟩ := places_exists h ha hb
  have hq2 := hq
  rw [← hl] at hq2
  obtain ⟨r, hr, rfl⟩ := List.mem_map.mp hq2
  have hcell := (places_holds h hq).2 (i - (g r).1) (by omega)
  rw [show (g r).1 + (i - (g r).1) = i by omega] at hcell
  have hd : (l.map fun r => (⟨(g r).2, data r⟩ : Patch K V)).Pairwise
      fun q r => q.extent.Apart r.extent := by
    have hpl := places_apart h hf
    rw [← hl] at hpl
    have hgl := List.pairwise_map.mp hpl
    exact List.pairwise_map.mpr hgl
  refine ⟨r, hr, h1, h2, ?_⟩
  have hin : (⟨(g r).2, data r⟩ : Patch K V).extent.Holds (f i).1 (f i).2 := by
    rw [hcell]
    exact ⟨rfl, by simp only; omega, by simp only; omega⟩
  rw [applyAll_perm _ _ s (hp.map _) hd,
    applyAll_of_holds _ s _ _ hd _ (List.mem_map_of_mem hr) hin, hcell]
  simp only [Nat.add_sub_cancel_left]

/-- Cells outside the stretch keep their value, also when some moves are left out. -/
theorem applyAll_outside [DecidableEq K] {f : ℕ → K × ℕ} {es : List (Extent K)} {a b : ℕ} (h : Covers f a es b)
    (g : R → ℕ × Extent K) (data : R → ℕ → V) (s : K → ℕ → V) {l m : List R}
    (hm : ∀ r ∈ m, r ∈ l) (hl : l.map g = places a es) (k : K) (p : ℕ) (hn : ∀ i, a ≤ i → i < b → f i ≠ (k, p)) :
    applyAll (m.map fun r => ⟨(g r).2, data r⟩) s k p = s k p := by
  apply applyAll_of_not_holds
  intro q hq hh
  obtain ⟨r, hr, rfl⟩ := List.mem_map.mp hq
  have hg : g r ∈ places a es := hl ▸ List.mem_map_of_mem (hm r hr)
  obtain ⟨hk, hlo, hhi⟩ := hh
  have hs := places_start hg
  obtain ⟨hb, hcell⟩ := places_holds h hg
  have hx := hcell (p - (g r).2.off) (by simp only at hlo hhi; omega)
  simp only at hk hlo hhi
  rw [show (g r).2.off + (p - (g r).2.off) = p by omega, ← hk] at hx
  exact hn _ (by omega) (by omega) hx

/-- Moves into a row: position `i` gets what the move over `i` carries. -/
theorem applyAll_fetch {f : ℕ → K × ℕ} {es : List (Extent K)} {a b : ℕ} (h : Covers f a es b)
    (g : R → ℕ × Extent K) (data : R → ℕ → V) (out : Unit → ℕ → V) {l m : List R} (hp : m.Perm l)
    (hl : l.map g = places a es) {i : ℕ} (ha : a ≤ i) (hb : i < b) :
    ∃ r ∈ l, (g r).1 ≤ i ∧ i < (g r).1 + (g r).2.len ∧
      f i = ((g r).2.key, (g r).2.off + (i - (g r).1)) ∧
      applyAll (m.map fun r => ⟨⟨(), (g r).1, (g r).2.len⟩, data r⟩) out () i =
        data r (i - (g r).1) := by
  obtain ⟨q, hq, h1, h2⟩ := places_exists h ha hb
  have hq2 := hq
  rw [← hl] at hq2
  obtain ⟨r, hr, rfl⟩ := List.mem_map.mp hq2
  have hcell := (places_holds h hq).2 (i - (g r).1) (by omega)
  rw [show (g r).1 + (i - (g r).1) = i by omega] at hcell
  have hd : (l.map fun r => (⟨⟨(), (g r).1, (g r).2.len⟩, data r⟩ : Patch Unit V)).Pairwise
      fun q r => q.extent.Apart r.extent := by
    have hpl := places_disjoint a es
    rw [← hl] at hpl
    refine List.pairwise_map.mpr ((List.pairwise_map.mp hpl).imp ?_)
    intro q r hlt k p ⟨_, _, hq⟩ ⟨_, hr, _⟩
    simp only at hq hr
    omega
  refine ⟨r, hr, h1, h2, hcell, ?_⟩
  rw [applyAll_perm _ _ out (hp.map _) hd]
  exact applyAll_of_holds _ out () i hd _ (List.mem_map_of_mem hr) ⟨rfl, h1, h2⟩

end Moves

end RaidTest.Base
