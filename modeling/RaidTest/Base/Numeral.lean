import RaidTest.Base.Text
import Mathlib.Data.Nat.Digits.Defs

/-!
# Decimal numerals and `strtoul`

A numeral is a text of decimal digits with the value its places give it. `strtoul` reads more
than that: it passes over white space, takes a sign, and negates within its type.
-/

namespace RaidTest.Base

def digitValue (c : Char) : ℕ := c.toNat - 48

def placeValue (u : List Char) : ℕ := Nat.ofDigits 10 (u.map digitValue).reverse

/-- `u` is a decimal numeral for `n`. -/
structure Numeral (u : List Char) (n : ℕ) : Prop where
  ne_nil : u ≠ []
  digits : ∀ c ∈ u, c.isDigit = true
  value : placeValue u = n

theorem placeValue_cons (c : Char) (u : List Char) :
    placeValue (c :: u) = digitValue c * 10 ^ u.length + placeValue u := by
  unfold placeValue
  rw [List.map_cons, List.reverse_cons, Nat.ofDigits_append, Nat.ofDigits_singleton, List.length_reverse,
    List.length_map, Nat.mul_comm, Nat.add_comm]

theorem readDigits_all {u : List Char} (hu : ∀ c ∈ u, c.isDigit = true) :
    ∀ acc, readDigits acc u = (acc * 10 ^ u.length + placeValue u, []) := by
  induction u with
  | nil =>
    intro acc
    rw [readDigits, List.length_nil, Nat.pow_zero, Nat.mul_one]
    rfl
  | cons c u ih =>
    intro acc
    have hvalue : (acc * 10 + (c.toNat - 48)) * 10 ^ u.length + placeValue u =
        acc * 10 ^ (u.length + 1) + (digitValue c * 10 ^ u.length + placeValue u) := by
      rw [Nat.add_mul, Nat.mul_assoc, ← Nat.pow_succ', Nat.add_assoc]
      rfl
    rw [readDigits, if_pos (hu c (List.mem_cons_self ..)), ih fun d hd => hu d (List.mem_cons_of_mem _ hd), hvalue,
      placeValue_cons, List.length_cons]

/-- What is read to its end is digits. -/
theorem readDigits_digits {u : List Char} : ∀ {acc n : ℕ}, readDigits acc u = (n, []) → ∀ c ∈ u, c.isDigit = true := by
  induction u with
  | nil =>
    intro acc n h c hc
    cases hc
  | cons d u ih =>
    intro acc n h c hc
    rw [readDigits] at h
    split at h
    · next hd =>
      rcases List.mem_cons.mp hc with rfl | hc
      · exact hd
      · exact ih h c hc
    · cases h

theorem readNat_numeral (u : List Char) (n : ℕ) : readNat u = some (n, []) ↔ Numeral u n := by
  constructor
  · intro h
    cases u with
    | nil => cases h
    | cons c u =>
      rw [readNat] at h
      split at h
      · have hread : readDigits 0 (c :: u) = (n, []) := Option.some.inj h
        have hdigits := readDigits_digits hread
        rw [readDigits_all hdigits, Nat.zero_mul, Nat.zero_add] at hread
        exact ⟨List.cons_ne_nil c u, hdigits, congrArg Prod.fst hread⟩
      · cases h
  · intro h
    cases u with
    | nil => exact absurd rfl h.ne_nil
    | cons c u =>
      rw [readNat, if_pos (h.digits c (List.mem_cons_self ..)), readDigits_all h.digits, Nat.zero_mul, Nat.zero_add,
        h.value]

/-! ### `strtoul` -/

/-- What `strtoul` gives: the value, the text `end` points at, and whether `errno` is `ERANGE`. -/
structure Converted where
  value : ℕ
  rest : List Char
  erange : Bool

/-- Whether there is a minus sign, and the text behind a sign. -/
def takeSign : List Char → Bool × List Char
  | '-' :: s => (true, s)
  | '+' :: s => (false, s)
  | s => (false, s)

/-- `strtoul` in base ten, in a type whose greatest number is `max`. -/
def strtoul (max : ℕ) (s : List Char) : Converted :=
  let t := takeSign (skipSpace s)
  match readNat t.2 with
  | none => ⟨0, s, false⟩
  | some (n, rest) =>
    if max < n then ⟨max, rest, true⟩
    else if t.1 then ⟨(max + 1 - n) % (max + 1), rest, false⟩
    else ⟨n, rest, false⟩

/-- The signs, with what each makes of a number. -/
def signed (max : ℕ) (sign : List Char) (n : ℕ) : ℕ := if sign = ['-'] then (max + 1 - n) % (max + 1) else n

def Sign (sign : List Char) : Prop := sign = [] ∨ sign = ['+'] ∨ sign = ['-']

theorem numeral_cons {u : List Char} {n : ℕ} (h : Numeral u n) : ∃ c t, u = c :: t ∧ c.isDigit = true := by
  obtain ⟨c, t, rfl⟩ := List.exists_cons_of_ne_nil h.ne_nil
  exact ⟨c, t, rfl, h.digits c (List.mem_cons_self ..)⟩

theorem takeSign_plain {c : Char} {s : List Char} (hminus : c ≠ '-') (hplus : c ≠ '+') :
    takeSign (c :: s) = (false, c :: s) := by
  unfold takeSign
  split
  · next heq => exact absurd (List.cons.inj heq).1 hminus
  · next heq => exact absurd (List.cons.inj heq).1 hplus
  · rfl

/-- The sign that `takeSign` takes. -/
theorem takeSign_spec (s : List Char) :
    ∃ sign, Sign sign ∧ s = sign ++ (takeSign s).2 ∧ ((takeSign s).1 = true ↔ sign = ['-']) := by
  unfold takeSign
  split
  · exact ⟨['-'], Or.inr (Or.inr rfl), rfl, by simp⟩
  · exact ⟨['+'], Or.inr (Or.inl rfl), rfl, by simp⟩
  · exact ⟨[], Or.inl rfl, rfl, by simp⟩

theorem takeSign_sign {sign u : List Char} {n : ℕ} (hsign : Sign sign) (hu : Numeral u n) :
    takeSign (sign ++ u) = (decide (sign = ['-']), u) := by
  rcases hsign with rfl | rfl | rfl
  · obtain ⟨c, t, rfl, hc⟩ := numeral_cons hu
    exact takeSign_plain (digit_ne hc (by decide)) (digit_ne hc (by decide))
  · rfl
  · rfl

theorem skipSpace_append {ws s : List Char} (hws : ∀ c ∈ ws, isSpace c = true) (hs : ∀ c ∈ s.head?, isSpace c = false) :
    skipSpace (ws ++ s) = s := by
  unfold skipSpace
  rw [List.dropWhile_append_of_pos hws]
  cases s with
  | nil => rfl
  | cons c s => rw [List.dropWhile_cons_of_neg (by rw [hs c rfl]; decide)]

theorem signed_head {sign u : List Char} {n : ℕ} (hsign : Sign sign) (hu : Numeral u n) :
    ∀ c ∈ (sign ++ u).head?, isSpace c = false := by
  rcases hsign with rfl | rfl | rfl
  · obtain ⟨c, t, rfl, hc⟩ := numeral_cons hu
    intro d hd
    cases hd
    exact digit_not_space hc
  · intro d hd
    cases hd
    decide
  · intro d hd
    cases hd
    decide

/-- A text that `strtoul` converts whole: white space, a sign and a numeral. -/
structure Converts (max : ℕ) (s ws sign u : List Char) (n : ℕ) : Prop where
  text : s = ws ++ (sign ++ u)
  spaces : ∀ c ∈ ws, isSpace c = true
  sign : Sign sign
  numeral : Numeral u n
  le : n ≤ max

theorem Converts.strtoul {max n : ℕ} {s ws sign u : List Char} (h : Converts max s ws sign u n) :
    strtoul max s = ⟨signed max sign n, [], false⟩ := by
  have hread := (readNat_numeral u n).mpr h.numeral
  unfold RaidTest.Base.strtoul
  rw [h.text, skipSpace_append h.spaces (signed_head h.sign h.numeral), takeSign_sign h.sign h.numeral]
  simp only [hread, if_neg (Nat.not_lt.mpr h.le), decide_eq_true_eq]
  unfold signed
  split <;> rfl

theorem Converts.ne_nil {max n : ℕ} {s ws sign u : List Char} (h : Converts max s ws sign u n) : s ≠ [] := by
  rw [h.text]
  simp [h.numeral.ne_nil]

/-- Nothing else is converted whole. -/
theorem strtoul_converts {max : ℕ} {s : List Char} (hall : (strtoul max s).rest = []) (hsome : (strtoul max s).rest ≠ s)
    (hrange : (strtoul max s).erange = false) : ∃ ws sign u n, Converts max s ws sign u n := by
  obtain ⟨sign, hsign, htext, _⟩ := takeSign_spec (skipSpace s)
  have hskip : s = s.takeWhile isSpace ++ skipSpace s := (List.takeWhile_append_dropWhile ..).symm
  have hspaces : ∀ c ∈ s.takeWhile isSpace, isSpace c = true := List.all_eq_true.mp List.all_takeWhile
  unfold strtoul at hall hsome hrange
  cases hread : readNat (takeSign (skipSpace s)).2 with
  | none =>
    simp only [hread] at hsome
    exact absurd rfl hsome
  | some r =>
    obtain ⟨n, rest⟩ := r
    simp only [hread] at hall hrange
    by_cases hlt : max < n
    · rw [if_pos hlt] at hrange
      cases hrange
    · have hrest : rest = [] := by
        rw [if_neg hlt] at hall
        split at hall <;> exact hall
      rw [hrest] at hread
      refine ⟨s.takeWhile isSpace, sign, (takeSign (skipSpace s)).2, n, ?_, hspaces, hsign,
        (readNat_numeral _ n).mp hread, Nat.not_lt.mp hlt⟩
      rw [← htext]
      exact hskip

/-- The conversions that leave nothing and are in range. -/
theorem strtoul_whole {max v : ℕ} {s : List Char} :
    ((strtoul max s).erange = false ∧ (strtoul max s).rest ≠ s ∧ (strtoul max s).rest = [] ∧
        (strtoul max s).value = v) ↔
      ∃ ws sign u n, Converts max s ws sign u n ∧ signed max sign n = v := by
  constructor
  · rintro ⟨hrange, hsome, hall, hvalue⟩
    obtain ⟨ws, sign, u, n, hc⟩ := strtoul_converts hall hsome hrange
    rw [hc.strtoul] at hvalue
    exact ⟨ws, sign, u, n, hc, hvalue⟩
  · rintro ⟨ws, sign, u, n, hc, hvalue⟩
    rw [hc.strtoul]
    exact ⟨rfl, hc.ne_nil.symm, rfl, hvalue⟩

/-- A numeral in range with white space or a sign in front. -/
def Dressed (max : ℕ) (s : List Char) : Prop := ∃ ws sign u n, Converts max s ws sign u n ∧ ws ++ sign ≠ []

/-- A numeral stands alone. -/
theorem Dressed.not_numeral {max n : ℕ} {s : List Char} (h : Dressed max s) : ¬ Numeral s n := by
  intro hs
  obtain ⟨ws, sign, u, m, hc, hne⟩ := h
  obtain ⟨c, hc0⟩ := List.exists_mem_of_ne_nil _ hne
  have hmem : c ∈ s := by
    rw [hc.text, ← List.append_assoc]
    exact List.mem_append_left u hc0
  have hdigit := hs.digits c hmem
  rcases List.mem_append.mp hc0 with hspace | hsign
  · have hno := hc.spaces c hspace
    rw [digit_not_space hdigit] at hno
    cases hno
  · rcases hc.sign with rfl | rfl | rfl
    · cases hsign
    · exact digit_ne hdigit (by decide) (List.mem_singleton.mp hsign)
    · exact digit_ne hdigit (by decide) (List.mem_singleton.mp hsign)

theorem Converts.bare {max n : ℕ} {s ws sign u : List Char} (h : Converts max s ws sign u n) (hbare : ws ++ sign = []) :
    s = u ∧ signed max sign n = n := by
  obtain ⟨rfl, rfl⟩ := List.append_eq_nil_iff.mp hbare
  exact ⟨h.text, rfl⟩

theorem Numeral.converts {max n : ℕ} {s : List Char} (h : Numeral s n) (hle : n ≤ max) : Converts max s [] [] s n :=
  ⟨rfl, fun _ hc => absurd hc List.not_mem_nil, Or.inl rfl, h, hle⟩

/-- A reader that takes what `strtoul` converts whole takes the numerals alone, except for the
texts where white space or a sign is in front. -/
theorem numerals_only {max : ℕ} {s : List Char} {read : Option ℕ}
    (hread : ∀ v, read = some v ↔ ∃ ws sign u n, Converts max s ws sign u n ∧ signed max sign n = v) :
    (∀ v, read = some v ↔ Numeral s v ∧ v ≤ max) ↔ ¬ Dressed max s := by
  constructor
  · intro h hd
    obtain ⟨ws, sign, u, n, hc, _⟩ := id hd
    exact hd.not_numeral ((h _).mp ((hread _).mpr ⟨ws, sign, u, n, hc, rfl⟩)).1
  · intro hd v
    rw [hread]
    constructor
    · rintro ⟨ws, sign, u, n, hc, rfl⟩
      have hbare : ws ++ sign = [] := by
        by_contra hne
        exact hd ⟨ws, sign, u, n, hc, hne⟩
      obtain ⟨rfl, hv⟩ := hc.bare hbare
      rw [hv]
      exact ⟨hc.numeral, hc.le⟩
    · rintro ⟨hv, hle⟩
      exact ⟨[], [], s, v, hv.converts hle, rfl⟩

end RaidTest.Base
