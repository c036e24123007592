import RaidTest.Base.Numeral

/-!
# The numbers of an argument (`safe_atou32`, `safe_atou64`)

The white space and the sign that `strtoul` passes over are not looked at again: what is
accepted is a numeral with any of them in front.
-/

namespace RaidTest.Service
open RaidTest.Base

def uint32Max : ℕ := 4294967295
def uint64Max : ℕ := 18446744073709551615

/-- `unsigned long` has 32 bits on Windows. -/
def ulongMax : ℕ := 4294967295

/-- `safe_atou32`; the answer is `*out` when it returns true. No caller passes a null `out`. -/
def safeAtou32 (s : Option (List Char)) : Option ℕ :=
  match s with
  | none => none
  | some s =>
    let val := strtoul ulongMax s
    if val.erange = true ∨ val.rest = s ∨ val.rest ≠ [] ∨ uint32Max < val.value then none else some val.value

/-- `safe_atou64`, on `strtoull`. -/
def safeAtou64 (s : Option (List Char)) : Option ℕ :=
  match s with
  | none => none
  | some s =>
    let val := strtoul uint64Max s
    if val.erange = true ∨ val.rest = s ∨ val.rest ≠ [] then none else some val.value

theorem signed_le {max n : ℕ} (sign : List Char) (h : n ≤ max) : signed max sign n ≤ max := by
  unfold signed
  split
  · exact Nat.le_of_lt_succ (Nat.mod_lt _ (Nat.succ_pos max))
  · exact h

/-- The test against `UINT32_MAX` refuses nothing that a 32-bit `strtoul` gives. -/
theorem safeAtou32_reads (s : List Char) (v : ℕ) :
    safeAtou32 (some s) = some v ↔ ∃ ws sign u n, Converts uint32Max s ws sign u n ∧ signed uint32Max sign n = v := by
  rw [← strtoul_whole]
  simp only [safeAtou32]
  constructor
  · intro h
    split at h
    · cases h
    next hok =>
    obtain ⟨hrange, hsome, hall, _⟩ : ¬ _ ∧ ¬ _ ∧ ¬ _ ∧ ¬ _ := by simpa only [not_or] using hok
    exact ⟨Bool.eq_false_iff.mpr hrange, hsome, not_ne_iff.mp hall, Option.some.inj h⟩
  · intro h
    obtain ⟨ws, sign, u, n, hc, hv⟩ := strtoul_whole.mp h
    obtain ⟨hrange, hsome, hall, hvalue⟩ : _ ∧ (strtoul ulongMax s).rest ≠ s ∧ _ ∧ _ := h
    have hle : (strtoul ulongMax s).value ≤ uint32Max := by
      rw [show (strtoul ulongMax s).value = v from hvalue, ← hv]
      exact signed_le sign hc.le
    rw [if_neg]
    · exact congrArg some hvalue
    · rintro (h | h | h | h)
      · rw [show (strtoul ulongMax s).erange = false from hrange] at h
        cases h
      · exact hsome h
      · exact h hall
      · exact absurd hle (Nat.not_le.mpr h)

theorem safeAtou64_reads (s : List Char) (v : ℕ) :
    safeAtou64 (some s) = some v ↔ ∃ ws sign u n, Converts uint64Max s ws sign u n ∧ signed uint64Max sign n = v := by
  rw [← strtoul_whole]
  simp only [safeAtou64]
  constructor
  · intro h
    split at h
    · cases h
    next hok =>
    obtain ⟨hrange, hsome, hall⟩ : ¬ _ ∧ ¬ _ ∧ ¬ _ := by simpa only [not_or] using hok
    exact ⟨Bool.eq_false_iff.mpr hrange, hsome, not_ne_iff.mp hall, Option.some.inj h⟩
  · rintro ⟨hrange, hsome, hall, hvalue⟩
    rw [if_neg]
    · exact congrArg some hvalue
    · rintro (h | h | h)
      · rw [hrange] at h
        cases h
      · exact hsome h
      · exact h hall

/-- An argument is read as the decimal numeral it is, and refused otherwise, exactly when it is
not a numeral in range behind white space or a sign. -/
theorem safeAtou_exact (s : List Char) :
    ((∀ n, safeAtou32 (some s) = some n ↔ Numeral s n ∧ n ≤ 2^32 - 1) ↔ ¬ Dressed (2^32 - 1) s) ∧
    ((∀ n, safeAtou64 (some s) = some n ↔ Numeral s n ∧ n ≤ 2^64 - 1) ↔ ¬ Dressed (2^64 - 1) s) :=
  ⟨numerals_only (safeAtou32_reads s), numerals_only (safeAtou64_reads s)⟩

/-- `-1` is read as 4294967295, and ` 7` as 7. -/
theorem safeAtou_exact_fails :
    safeAtou32 (some ['-', '1']) = some 4294967295 ∧ safeAtou64 (some [' ', '7']) = some 7 ∧
      ¬ (∀ n, safeAtou32 (some ['-', '1']) = some n ↔ Numeral ['-', '1'] n ∧ n ≤ 2^32 - 1) ∧
      ¬ (∀ n, safeAtou64 (some [' ', '7']) = some n ↔ Numeral [' ', '7'] n ∧ n ≤ 2^64 - 1) := by
  have hminus : safeAtou32 (some ['-', '1']) = some 4294967295 := by decide
  have hspace : safeAtou64 (some [' ', '7']) = some 7 := by decide
  refine ⟨hminus, hspace, fun h => ?_, fun h => ?_⟩
  · exact absurd (((h _).mp hminus).1.digits '-' (by decide)) (by decide)
  · exact absurd (((h _).mp hspace).1.digits ' ' (by decide)) (by decide)

end RaidTest.Service
