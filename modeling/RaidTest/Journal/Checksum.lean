import RaidTest.Base.Feedback
import RaidTest.Journal.Format

/-!
# The checksum, bit by bit (`crc32.c`)

`crc32` takes a byte of the message in one step, with what `crc32_init` has put into `table` for
the low byte of the register. The definition of the checksum takes the bits of the message one
after the other, the lowest bit of a byte first.
-/

namespace RaidTest.Journal
open RaidTest.Base

/-- The reflected polynomial. -/
def crcPolynomial : UInt32 := 0xEDB88320

/-- One bit of the message goes into the register. -/
def crcBit (crc : UInt32) (bit : Bool) : UInt32 :=
  if decide (crc &&& 1 = 1) ^^ bit then (crc >>> 1) ^^^ crcPolynomial else crc >>> 1

def messageBits (data : List Byte) : List Bool :=
  data.flatMap fun b => (List.range 8).map fun k => b.toNat.testBit k

/-- The CRC-32 of a message. -/
def crc32Bitwise (data : List Byte) : UInt32 := (messageBits data).foldl crcBit 0xFFFFFFFF ^^^ 0xFFFFFFFF

/-- The loop of `crc32`, from a register on. -/
def crcContinue (crc : UInt32) (data : List Byte) : UInt32 :=
  data.foldl (fun crc b => crcTable ((crc ^^^ b.toUInt32) &&& 0xFF) ^^^ (crc >>> 8)) crc

/-! ### The register as a row of bits -/

theorem lowest_iff (crc : UInt32) : decide (crc &&& 1 = 1) = crc.toBitVec.getLsbD 0 := by
  have hbit : (crc &&& 1).toNat = crc.toNat % 2 := by
    rw [UInt32.toNat_and]
    exact Nat.and_one_is_mod _
  have htest : crc.toBitVec.getLsbD 0 = decide (crc.toNat % 2 = 1) := by
    rw [BitVec.getLsbD, UInt32.toNat_toBitVec, Nat.testBit_zero]
  rw [htest, ← hbit]
  apply decide_eq_decide.mpr
  exact UInt32.toNat_inj.symm

theorem crcShift_toBitVec (crc : UInt32) :
    ((crc >>> 1) ^^^ (if crc &&& 1 = 1 then 0xEDB88320 else 0)).toBitVec =
      feedback crcPolynomial.toBitVec crc.toBitVec := by
  unfold feedback
  rw [← lowest_iff, UInt32.toBitVec_xor, UInt32.toBitVec_shiftRight]
  by_cases h : crc &&& 1 = 1
  · rw [if_pos h, if_pos (decide_eq_true h)]
    rfl
  · rw [if_neg h, if_neg (by rw [decide_eq_false h]; decide)]
    rfl

theorem crcTable_toBitVec (i : UInt32) : (crcTable i).toBitVec = feedbacks crcPolynomial.toBitVec 8 i.toBitVec := by
  have hsteps : ∀ (n : ℕ) (l : List ℕ) (x : UInt32), l.length = n →
      (l.foldl (fun (crc : UInt32) _ => (crc >>> 1) ^^^ (if crc &&& 1 = 1 then 0xEDB88320 else 0)) x).toBitVec =
        feedbacks crcPolynomial.toBitVec n x.toBitVec := by
    intro n
    induction n with
    | zero =>
      intro l x hl
      rw [List.eq_nil_of_length_eq_zero hl]
      rfl
    | succ n ih =>
      intro l x hl
      obtain ⟨a, l, rfl⟩ := List.exists_cons_of_length_eq_add_one hl
      rw [List.foldl_cons, ih l _ (Nat.succ.inj hl), crcShift_toBitVec, feedbacks]
  exact hsteps 8 (List.range 8) i rfl

theorem crcBit_toBitVec (crc : UInt32) (bit : Bool) :
    (crcBit crc bit).toBitVec = feedbackIn crcPolynomial.toBitVec crc.toBitVec bit := by
  unfold crcBit feedbackIn
  rw [lowest_iff]
  split
  · rw [UInt32.toBitVec_xor, UInt32.toBitVec_shiftRight]
    rfl
  · rw [UInt32.toBitVec_shiftRight]
    exact BitVec.xor_zero.symm

/-! ### One byte -/

/-- The low byte of a register, and the others. -/
theorem split_byte (x : BitVec 32) : x = (x &&& 255#32) ^^^ (x &&& ~~~255#32) := by
  ext i
  simp only [BitVec.getElem_xor, BitVec.getElem_and, BitVec.getElem_not]
  cases x[i] <;> cases (255#32)[i] <;> rfl

theorem testBit_byte (k : ℕ) : (255#32).getLsbD k = decide (k < 8) := by
  have hmask : (255#32).toNat = 2 ^ 8 - 1 := rfl
  rw [BitVec.getLsbD, hmask, Nat.testBit_two_pow_sub_one]

theorem upper_clear (x : BitVec 32) : ∀ k < 8, (x &&& ~~~255#32).getLsbD k = false := by
  intro k hk
  rw [BitVec.getLsbD_and, BitVec.getLsbD_not, testBit_byte, decide_eq_true hk]
  simp

theorem lower_gone (x : BitVec 32) : (x &&& 255#32) >>> 8 = 0#32 := by
  apply BitVec.eq_of_getLsbD_eq
  intro k _
  rw [BitVec.getLsbD_ushiftRight, BitVec.getLsbD_and, testBit_byte, decide_eq_false (by omega), Bool.and_false]
  simp

theorem byte_gone (b : Byte) : b.toUInt32.toBitVec >>> 8 = 0#32 := by
  apply BitVec.eq_of_toNat_eq
  have hb := b.toNat_lt
  rw [BitVec.toNat_ushiftRight, UInt32.toNat_toBitVec, UInt8.toNat_toUInt32, Nat.shiftRight_eq_div_pow]
  exact Nat.div_eq_of_lt hb

theorem byte_bits (b : Byte) : ((List.range 8).map fun k => b.toNat.testBit k) = lowBits 8 b.toUInt32.toBitVec := by
  unfold lowBits
  apply List.map_congr_left
  intro k _
  rw [BitVec.getLsbD, UInt32.toNat_toBitVec, UInt8.toNat_toUInt32]

/-- The step of the table takes the eight bits of a byte. -/
theorem crcTable_bits (crc : UInt32) (b : Byte) :
    crcTable ((crc ^^^ b.toUInt32) &&& 0xFF) ^^^ (crc >>> 8) =
      ((List.range 8).map fun k => b.toNat.testBit k).foldl crcBit crc := by
  have hfold : ∀ (bits : List Bool) (x : UInt32),
      (bits.foldl crcBit x).toBitVec = bits.foldl (feedbackIn crcPolynomial.toBitVec) x.toBitVec := by
    intro bits
    induction bits with
    | nil => exact fun _ => rfl
    | cons bit bits ih =>
      intro x
      rw [List.foldl_cons, List.foldl_cons, ih, crcBit_toBitVec]
  have hmask : ((0xFF : UInt32)).toBitVec = 255#32 := rfl
  apply UInt32.toBitVec_inj.mp
  rw [hfold, byte_bits, lowBits_feedback _ (byte_gone b),
    feedbacks_split _ (split_byte _) (upper_clear _) (lower_gone _), UInt32.toBitVec_xor, crcTable_toBitVec,
    UInt32.toBitVec_and, UInt32.toBitVec_xor, UInt32.toBitVec_shiftRight, hmask, BitVec.ushiftRight_xor_distrib,
    byte_gone, BitVec.xor_zero]
  rfl

/-! ### The message -/

theorem crcContinue_bits (crc : UInt32) (data : List Byte) : crcContinue crc data = (messageBits data).foldl crcBit crc := by
  unfold crcContinue messageBits
  induction data generalizing crc with
  | nil => rfl
  | cons b data ih => rw [List.foldl_cons, ih, List.flatMap_cons, List.foldl_append, crcTable_bits]

/-- `crc32` is the checksum of the bits, and goes on over a second part from the register that the
first one has left. -/
theorem crc32_bitwise (data rest : List Byte) : crc32 data = crc32Bitwise data ∧
    crc32 (data ++ rest) = crcContinue (crcContinue 0xFFFFFFFF data) rest ^^^ 0xFFFFFFFF ∧
    crcContinue 0xFFFFFFFF data = crc32 data ^^^ 0xFFFFFFFF := by
  have hcrc : ∀ l, crc32 l = crcContinue 0xFFFFFFFF l ^^^ 0xFFFFFFFF := fun _ => rfl
  refine ⟨?_, ?_, ?_⟩
  · rw [hcrc, crcContinue_bits]
    rfl
  · rw [hcrc]
    unfold crcContinue
    rw [List.foldl_append]
  · rw [hcrc, UInt32.xor_assoc, UInt32.xor_self, UInt32.xor_zero]

end RaidTest.Journal
