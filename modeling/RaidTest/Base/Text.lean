import Mathlib.Data.List.Infix
import Mathlib.Data.Nat.Notation
import Mathlib.Data.Int.Notation
import Mathlib.Tactic.Common
import Mathlib.Algebra.Ring.Nat

/-!
# Printed text and its readers

Numbers printed in decimal, the part of the `scanf` language that reads them back, lines of
bounded length, and the search for a quoted name in a line.
-/

namespace RaidTest.Base

/-! ### Numbers -/

def decimal (n : ℕ) : List Char := Nat.toDigits 10 n

def intDecimal (z : ℤ) : List Char := if z < 0 then '-' :: decimal z.natAbs else decimal z.natAbs

/-- The number in front, read on from `acc`, and the text behind it. -/
def readDigits (acc : ℕ) : List Char → ℕ × List Char
  | [] => (acc, [])
  | c :: s => if c.isDigit then readDigits (acc * 10 + (c.toNat - 48)) s else (acc, c :: s)

def readNat : List Char → Option (ℕ × List Char)
  | [] => none
  | c :: s => if c.isDigit then some (readDigits 0 (c :: s)) else none

def readInt : List Char → Option (ℤ × List Char)
  | '-' :: s => (readNat s).map fun r => (-(r.1 : ℤ), r.2)
  | '+' :: s => (readNat s).map fun r => ((r.1 : ℤ), r.2)
  | s => (readNat s).map fun r => ((r.1 : ℤ), r.2)

/-- The text does not begin with a digit. -/
def Ends (s : List Char) : Prop := ∀ c ∈ s.head?, c.isDigit = false

theorem digitChar_value : ∀ d < 10, (Nat.digitChar d).isDigit = true ∧ (Nat.digitChar d).toNat - 48 = d := by
  decide

theorem decimal_small {n : ℕ} (h : n < 10) : decimal n = [Nat.digitChar n] := Nat.toDigits_of_lt_base h

theorem decimal_snoc {n : ℕ} (h : 10 ≤ n) : decimal n = decimal (n / 10) ++ [Nat.digitChar (n % 10)] :=
  Nat.toDigits_of_base_le (by decide) h

theorem decimal_digits (n : ℕ) : ∀ c ∈ decimal n, c.isDigit = true := by
  induction n using Nat.strong_induction_on with
  | _ n ih =>
    intro c hc
    by_cases h : n < 10
    · rw [decimal_small h, List.mem_singleton] at hc
      rw [hc]
      exact (digitChar_value n h).1
    · rw [decimal_snoc (by omega), List.mem_append, List.mem_singleton] at hc
      rcases hc with hc | rfl
      · exact ih (n / 10) (by omega) c hc
      · exact (digitChar_value _ (by omega)).1

theorem decimal_ne_nil (n : ℕ) : decimal n ≠ [] := List.ne_nil_of_length_pos Nat.length_toDigits_pos

theorem decimal_length (k : ℕ) : ∀ n < 10 ^ (k + 1), (decimal n).length ≤ k + 1 := by
  induction k with
  | zero =>
    intro n hn
    rw [decimal_small (by omega)]
    exact Nat.le_refl 1
  | succ k ih =>
    intro n hn
    by_cases h : n < 10
    · rw [decimal_small h, List.length_singleton]
      omega
    · have hle := ih (n / 10) (by rw [Nat.pow_succ] at hn; omega)
      rw [decimal_snoc (by omega), List.length_append, List.length_singleton]
      omega

theorem readDigits_decimal (n : ℕ) : ∀ rest, readDigits 0 (decimal n ++ rest) = readDigits n rest := by
  induction n using Nat.strong_induction_on with
  | _ n ih =>
    intro rest
    have hlast : ∀ acc d, d < 10 → readDigits acc (Nat.digitChar d :: rest) = readDigits (acc * 10 + d) rest := by
      intro acc d hd
      rw [readDigits, if_pos (digitChar_value d hd).1, (digitChar_value d hd).2]
    by_cases h : n < 10
    · rw [decimal_small h, List.singleton_append, hlast 0 n h, Nat.zero_mul, Nat.zero_add]
    · rw [decimal_snoc (by omega), List.append_assoc, List.singleton_append, ih (n / 10) (by omega),
        hlast _ _ (by omega)]
      congr 1
      omega

theorem readDigits_stop {s : List Char} (h : Ends s) (n : ℕ) : readDigits n s = (n, s) := by
  cases s with
  | nil => rfl
  | cons c s => rw [readDigits, if_neg (by rw [h c rfl]; decide)]

theorem decimal_cons (n : ℕ) : ∃ c s, decimal n = c :: s ∧ c.isDigit = true := by
  obtain ⟨c, s, h⟩ := List.exists_cons_of_ne_nil (decimal_ne_nil n)
  exact ⟨c, s, h, decimal_digits n c (by rw [h]; exact List.mem_cons_self ..)⟩

theorem readNat_decimal (n : ℕ) {rest : List Char} (h : Ends rest) :
    readNat (decimal n ++ rest) = some (n, rest) := by
  obtain ⟨c, s, hd, hc⟩ := decimal_cons n
  have hread := readDigits_decimal n rest
  rw [readDigits_stop h] at hread
  rw [hd, List.cons_append] at hread ⊢
  rw [readNat, if_pos hc, hread]

theorem readInt_intDecimal (z : ℤ) {rest : List Char} (h : Ends rest) :
    readInt (intDecimal z ++ rest) = some (z, rest) := by
  unfold intDecimal
  split
  · next hneg =>
    change (readNat (decimal z.natAbs ++ rest)).map _ = _
    rw [readNat_decimal _ h, Option.map_some]
    congr 2
    omega
  · next hpos =>
    obtain ⟨c, s, hd, hc⟩ := decimal_cons z.natAbs
    have hread := readNat_decimal z.natAbs h
    rw [hd, List.cons_append] at hread ⊢
    unfold readInt
    split
    · next heq =>
      obtain ⟨rfl, _⟩ := List.cons.inj heq
      exact absurd hc (by decide)
    · next heq =>
      obtain ⟨rfl, _⟩ := List.cons.inj heq
      exact absurd hc (by decide)
    · rw [hread, Option.map_some]
      congr 2
      omega

theorem intDecimal_natCast (n : ℕ) : intDecimal n = decimal n := by
  unfold intDecimal
  rw [if_neg (by omega), Int.natAbs_natCast]

/-! ### Scanning -/

def isSpace (c : Char) : Bool := c = ' ' || (decide ('\t' ≤ c) && decide (c ≤ '\r'))

theorem digit_ne {c d : Char} (h : c.isDigit = true) (hd : d < '0') : c ≠ d := by
  rintro rfl
  unfold Char.isDigit at h
  simp only [Bool.and_eq_true, decide_eq_true_eq] at h
  exact absurd h.1 (Char.not_le.mpr hd)

theorem digit_not_space {c : Char} (h : c.isDigit = true) : isSpace c = false := by
  have hlow : ¬ c ≤ '\r' := by
    unfold Char.isDigit at h
    simp only [Bool.and_eq_true, decide_eq_true_eq] at h
    exact fun hr => absurd (Char.le_trans h.1 hr) (by decide)
  unfold isSpace
  rw [decide_eq_false (digit_ne h (by decide)), decide_eq_false hlow, Bool.and_false, Bool.or_false]

def skipSpace (s : List Char) : List Char := s.dropWhile isSpace

/-- One directive of a format; `word width stop` is a set of all characters but `stop`. -/
inductive Directive where
  | space
  | lit (c : Char)
  | int
  | unsigned
  | char
  | word (width : ℕ) (stop : Char)

inductive Scanned where
  | int (z : ℤ)
  | unsigned (n : ℕ)
  | char (c : Char)
  | word (s : List Char)
  deriving DecidableEq

/-- The conversions `scanf` makes before it stops. -/
def scan : List Directive → List Char → List Scanned
  | [], _ => []
  | .space :: ds, s => scan ds (skipSpace s)
  | .lit c :: ds, s =>
    match s with
    | [] => []
    | x :: s => if x = c then scan ds s else []
  | .int :: ds, s =>
    match readInt (skipSpace s) with
    | none => []
    | some (z, s) => .int z :: scan ds s
  | .unsigned :: ds, s =>
    match readNat (skipSpace s) with
    | none => []
    | some (n, s) => .unsigned n :: scan ds s
  | .char :: ds, s =>
    match s with
    | [] => []
    | x :: s => .char x :: scan ds s
  | .word width stop :: ds, s =>
    let t := (s.take width).takeWhile (· ≠ stop)
    if t = [] then [] else .word t :: scan ds (s.drop t.length)

/-- The part of a format between the conversions. -/
def format (s : List Char) : List Directive := s.map fun c => if isSpace c then .space else .lit c

theorem scan_format {l : List Char} (h : ∀ c ∈ l, isSpace c = false) (ds : List Directive) (rest : List Char) :
    scan (format l ++ ds) (l ++ rest) = scan ds rest := by
  induction l with
  | nil => rfl
  | cons c l ih =>
    simp only [format, List.map_cons, h c (List.mem_cons_self ..), Bool.false_eq_true, ite_false, List.cons_append, scan,
      ite_true]
    exact ih fun x hx => h x (List.mem_cons_of_mem _ hx)

theorem readDigits_suffix (acc : ℕ) (s : List Char) : (readDigits acc s).2 <:+ s := by
  induction s generalizing acc with
  | nil => exact List.suffix_rfl
  | cons c s ih =>
    rw [readDigits]
    split
    · exact (ih _).trans (List.suffix_cons c s)
    · exact List.suffix_rfl

theorem readNat_suffix {s rest : List Char} {n : ℕ} (h : readNat s = some (n, rest)) : rest <:+ s := by
  cases s with
  | nil => cases h
  | cons c s =>
    rw [readNat] at h
    split at h
    · have hsuffix := readDigits_suffix 0 (c :: s)
      rw [Option.some.inj h] at hsuffix
      exact hsuffix
    · cases h

theorem readInt_suffix {s rest : List Char} {z : ℤ} (h : readInt s = some (z, rest)) : rest <:+ s := by
  unfold readInt at h
  split at h
  · obtain ⟨⟨n, t⟩, hn, he⟩ := Option.map_eq_some_iff.mp h
    cases he
    exact (readNat_suffix hn).trans (List.suffix_cons _ _)
  · obtain ⟨⟨n, t⟩, hn, he⟩ := Option.map_eq_some_iff.mp h
    cases he
    exact (readNat_suffix hn).trans (List.suffix_cons _ _)
  · obtain ⟨⟨n, t⟩, hn, he⟩ := Option.map_eq_some_iff.mp h
    cases he
    exact readNat_suffix hn

/-- A word is made of characters of the text. -/
theorem scan_chars {t : List Char} (ds : List Directive) :
    ∀ {s : List Char}, .word t ∈ scan ds s → ∀ c ∈ t, c ∈ s := by
  induction ds with
  | nil => exact nofun
  | cons d ds ih =>
    intro s h c hc
    cases d with
    | space => exact (List.dropWhile_suffix _).mem (ih h c hc)
    | lit x =>
      cases s with
      | nil => cases h
      | cons y s =>
        rw [scan] at h
        split at h
        · exact List.mem_cons_of_mem _ (ih h c hc)
        · cases h
    | int =>
      rw [scan] at h
      split at h
      · cases h
      next z rest heq =>
      have hin : .word t ∈ scan ds rest := by
        simpa only [List.mem_cons, reduceCtorEq, false_or] using h
      exact (List.dropWhile_suffix _).mem ((readInt_suffix heq).mem (ih hin c hc))
    | unsigned =>
      rw [scan] at h
      split at h
      · cases h
      next n rest heq =>
      have hin : .word t ∈ scan ds rest := by
        simpa only [List.mem_cons, reduceCtorEq, false_or] using h
      exact (List.dropWhile_suffix _).mem ((readNat_suffix heq).mem (ih hin c hc))
    | char =>
      cases s with
      | nil => cases h
      | cons y s =>
        rw [scan] at h
        have hin : .word t ∈ scan ds s := by
          simpa only [List.mem_cons, reduceCtorEq, false_or] using h
        exact List.mem_cons_of_mem _ (ih hin c hc)
    | word width stop =>
      rw [scan] at h
      split at h
      · cases h
      rcases List.mem_cons.mp h with h | h
      · cases h
        exact List.mem_of_mem_take ((List.takeWhile_prefix _).mem hc)
      · exact List.mem_of_mem_drop (ih h c hc)

/-- The directive stores something. -/
def Directive.converts : Directive → Bool
  | .space | .lit _ => false
  | .int | .unsigned | .char | .word _ _ => true

/-- A scan with more conversions than the front of the format has gets to the rest of it. -/
theorem scan_past (ds rest : List Directive) :
    ∀ {s : List Char}, ds.countP Directive.converts < (scan (ds ++ rest) s).length → ∃ t, t <:+ s ∧ scan rest t ≠ [] := by
  induction ds with
  | nil =>
    intro s h
    exact ⟨s, List.suffix_rfl, List.ne_nil_of_length_pos h⟩
  | cons d ds ih =>
    intro s h
    rw [List.cons_append] at h
    cases d with
    | space =>
      obtain ⟨t, ht, hne⟩ := ih h
      exact ⟨t, ht.trans (List.dropWhile_suffix _), hne⟩
    | lit x =>
      cases s with
      | nil => exact absurd h (Nat.not_lt_zero _)
      | cons y s =>
        rw [scan] at h
        split at h
        · obtain ⟨t, ht, hne⟩ := ih h
          exact ⟨t, ht.trans (List.suffix_cons y s), hne⟩
        · exact absurd h (Nat.not_lt_zero _)
    | int =>
      rw [scan, List.countP_cons_of_pos rfl] at h
      split at h
      · exact absurd h (Nat.not_lt_zero _)
      next z u heq =>
      obtain ⟨t, ht, hne⟩ := ih (Nat.lt_of_succ_lt_succ h)
      exact ⟨t, (ht.trans (readInt_suffix heq)).trans (List.dropWhile_suffix _), hne⟩
    | unsigned =>
      rw [scan, List.countP_cons_of_pos rfl] at h
      split at h
      · exact absurd h (Nat.not_lt_zero _)
      next n u heq =>
      obtain ⟨t, ht, hne⟩ := ih (Nat.lt_of_succ_lt_succ h)
      exact ⟨t, (ht.trans (readNat_suffix heq)).trans (List.dropWhile_suffix _), hne⟩
    | char =>
      cases s with
      | nil => exact absurd h (Nat.not_lt_zero _)
      | cons y s =>
        rw [scan, List.countP_cons_of_pos rfl] at h
        obtain ⟨t, ht, hne⟩ := ih (Nat.lt_of_succ_lt_succ h)
        exact ⟨t, ht.trans (List.suffix_cons y s), hne⟩
    | word width stop =>
      rw [scan, List.countP_cons_of_pos rfl] at h
      split at h
      · exact absurd h (Nat.not_lt_zero _)
      obtain ⟨t, ht, hne⟩ := ih (Nat.lt_of_succ_lt_succ h)
      exact ⟨t, ht.trans (List.drop_suffix _ _), hne⟩

/-- A scan that gets past a text has found it. -/
theorem format_prefix {l : List Char} (hl : ∀ c ∈ l, isSpace c = false) {rest : List Directive} {s : List Char}
    (h : scan (format l ++ rest) s ≠ []) : l <+: s := by
  induction l generalizing s with
  | nil => exact List.nil_prefix
  | cons c l ih =>
    have hc := hl c (List.mem_cons_self ..)
    rw [format, List.map_cons, if_neg (by rw [hc]; decide), List.cons_append] at h
    cases s with
    | nil => exact absurd rfl h
    | cons x s =>
      rw [scan] at h
      split at h
      · next hx =>
        rw [hx, List.cons_prefix_cons]
        exact ⟨rfl, ih (fun y hy => hl y (List.mem_cons_of_mem _ hy)) h⟩
      · exact absurd rfl h

theorem skipSpace_of_ne {c : Char} (h : isSpace c = false) (s : List Char) : skipSpace (c :: s) = c :: s := by
  unfold skipSpace
  rw [List.dropWhile_cons_of_neg (by rw [h]; decide)]

theorem skipSpace_blank (s : List Char) : skipSpace (' ' :: s) = skipSpace s := rfl

/-! ### Lines -/

/-- `fgets` for as long as there is text: lines of at most `limit` characters, `room` of which are left for the
line begun with `acc`. -/
def readLines (limit : ℕ) : ℕ → List Char → List Char → List (List Char)
  | _, acc, [] => if acc = [] then [] else [acc.reverse]
  | room, acc, c :: s =>
    if c = '\n' ∨ room ≤ 1 then (c :: acc).reverse :: readLines limit limit [] s
    else readLines limit (room - 1) (c :: acc) s

theorem flatten_readLines (limit : ℕ) (s : List Char) : ∀ (room : ℕ) (acc : List Char),
    (readLines limit room acc s).flatten = acc.reverse ++ s := by
  induction s with
  | nil =>
    intro room acc
    rw [readLines]
    split
    · next h => rw [h]; rfl
    · simp only [List.flatten_cons, List.flatten_nil]
  | cons c s ih =>
    intro room acc
    rw [readLines]
    split
    · rw [List.flatten_cons, ih, List.reverse_cons, List.reverse_nil, List.nil_append, List.append_assoc]
      rfl
    · rw [ih, List.reverse_cons, List.append_assoc]
      rfl

theorem readLines_append (limit : ℕ) (rest : List Char) : ∀ (l : List Char) (room : ℕ) (acc : List Char),
    '\n' ∉ l → l.length < room →
    readLines limit room acc (l ++ rest) = readLines limit (room - l.length) (l.reverse ++ acc) rest := by
  intro l
  induction l with
  | nil => exact fun room acc _ _ => rfl
  | cons c l ih =>
    intro room acc hno hlen
    rw [List.mem_cons, not_or] at hno
    rw [List.length_cons] at hlen
    rw [List.cons_append, readLines, if_neg (by
      rintro (hc | hr)
      · exact hno.1 hc.symm
      · omega), ih (room - 1) (c :: acc) hno.2 (by omega), List.length_cons, List.reverse_cons, List.append_assoc,
      List.singleton_append]
    congr 1
    omega

section Lines
variable {limit : ℕ} {l : List Char} (hno : '\n' ∉ l) (hlen : l.length < limit)
include hno hlen

theorem readLines_line (rest : List Char) :
    readLines limit limit [] (l ++ '\n' :: rest) = (l ++ ['\n']) :: readLines limit limit [] rest := by
  rw [readLines_append limit ('\n' :: rest) l limit [] hno hlen, readLines, if_pos (Or.inl rfl), List.append_nil,
    List.reverse_cons, List.reverse_reverse]

end Lines

/-- Text that ends in a line break is read apart from what follows it. -/
theorem readLines_block (limit : ℕ) (rest : List Char) (k : ℕ) : ∀ l : List Char, l.length ≤ k → l.length < limit →
    ∃ ls, readLines limit limit [] (l ++ '\n' :: rest) = ls ++ readLines limit limit [] rest ∧
      ∀ x ∈ ls, x <:+: l ++ ['\n'] := by
  induction k with
  | zero =>
    intro l hk hlen
    obtain rfl := List.eq_nil_of_length_eq_zero (Nat.le_zero.mp hk)
    refine ⟨[['\n']], readLines_line (l := []) (by simp) hlen rest, fun x hx => ?_⟩
    rw [List.mem_singleton.mp hx]
    exact List.infix_rfl
  | succ k ih =>
    intro l hk hlen
    by_cases hno : '\n' ∈ l
    · obtain ⟨a, b, rfl, ha⟩ := List.eq_append_cons_of_mem hno
      rw [List.length_append, List.length_cons] at hk hlen
      obtain ⟨ls, hls, hin⟩ := ih b (by omega) (by omega)
      refine ⟨(a ++ ['\n']) :: ls, ?_, fun x hx => ?_⟩
      · rw [List.append_assoc, List.cons_append, readLines_line ha (by omega), hls, List.cons_append]
      · rcases List.mem_cons.mp hx with rfl | hx
        · exact ⟨[], b ++ ['\n'], by simp⟩
        · exact (hin x hx).trans ⟨a ++ ['\n'], [], by simp⟩
    · refine ⟨[l ++ ['\n']], readLines_line hno hlen rest, fun x hx => ?_⟩
      rw [List.mem_singleton.mp hx]

/-! ### Quoted names -/

/-- `strstr` finds something. -/
def strstr (s needle : List Char) : Bool := decide (needle <:+: s)

theorem strstr_iff {s needle : List Char} : strstr s needle = true ↔ needle <:+: s := decide_eq_true_iff

/-- The name in quotes, and what has to follow it. -/
def quoted (name tail : List Char) : List Char := '"' :: name ++ '"' :: tail

section Quoted
variable {name tail l s : List Char}

theorem quoted_skip (hl : '"' ∉ l) : quoted name tail <:+: l ++ '"' :: s ↔ quoted name tail <:+: '"' :: s := by
  induction l with
  | nil => rfl
  | cons c l ih =>
    rw [List.mem_cons, not_or] at hl
    rw [List.cons_append, List.infix_cons_iff, ih hl.2]
    refine or_iff_right fun hp => ?_
    exact hl.1 (List.cons_prefix_cons.mp hp).1

theorem quoted_none (hl : '"' ∉ l) : ¬ quoted name tail <:+: l := fun h =>
  hl (h.mem (List.mem_cons_self ..))

/-- Behind the last quote there is no quoted name. -/
theorem quoted_last (hl : '"' ∉ l) : ¬ quoted name tail <:+: '"' :: l := by
  rw [List.infix_cons_iff]
  rintro (hp | hi)
  · have hp' := (List.cons_prefix_cons.mp hp).2
    exact hl (hp'.mem (by simp))
  · exact quoted_none hl hi

/-- Up to the next quote stands one name. -/
theorem quoted_first (hname : '"' ∉ name) (hl : '"' ∉ l) :
    quoted name tail <:+: '"' :: l ++ '"' :: s ↔ (name = l ∧ tail <+: s) ∨ quoted name tail <:+: '"' :: s := by
  rw [List.cons_append, List.infix_cons_iff, quoted_skip hl]
  refine or_congr_left ?_
  unfold quoted
  rw [List.cons_append, List.cons_prefix_cons, and_iff_right rfl]
  induction name generalizing l with
  | nil =>
    cases l with
    | nil => rw [List.nil_append, List.nil_append, List.cons_prefix_cons, and_iff_right rfl, and_iff_right rfl]
    | cons c l =>
      rw [List.mem_cons, not_or] at hl
      rw [List.nil_append, List.cons_append, List.cons_prefix_cons]
      exact ⟨fun h => absurd h.1 hl.1, fun h => absurd h.1 (by simp)⟩
  | cons n name ih =>
    rw [List.mem_cons, not_or] at hname
    cases l with
    | nil =>
      rw [List.nil_append, List.cons_append, List.cons_prefix_cons]
      exact ⟨fun h => absurd h.1.symm hname.1, fun h => absurd h.1 (by simp)⟩
    | cons c l =>
      rw [List.mem_cons, not_or] at hl
      rw [List.cons_append, List.cons_append, List.cons_prefix_cons, ih hname.2 hl.2, List.cons.injEq, and_assoc]

end Quoted

end RaidTest.Base
