import RaidTest.Common
import RaidTest.Base.Bytes

/-!
# Journal records (`journal.h`, `crc32.c`)

A journal file is a row of records. Each starts with a packed header of 48 bytes whose last
field is the checksum of the others; the payload of a DATA record follows its header.
-/

namespace RaidTest.Journal
open RaidTest.Base

/-! ### Checksums -/

/-- One entry of `table`. -/
def crcTable (i : UInt32) : UInt32 :=
  (List.range 8).foldl (fun crc _ => (crc >>> 1) ^^^ (if crc &&& 1 = 1 then 0xEDB88320 else 0)) i

def crc32 (data : List Byte) : UInt32 :=
  data.foldl (fun crc b => crcTable ((crc ^^^ b.toUInt32) &&& 0xFF) ^^^ (crc >>> 8)) 0xFFFFFFFF ^^^ 0xFFFFFFFF

example : crc32 [0x31, 0x32, 0x33, 0x34, 0x35, 0x36, 0x37, 0x38, 0x39] = 0xCBF43926 := by decide +kernel

/-! ### Headers -/

def journalMagic : ℕ := 0x4A4F5552
def journalVersion : ℕ := 2
def jtBegin : ℕ := 1
def jtData : ℕ := 2
def jtCommit : ℕ := 3

/-- `JOURNAL_ENTRY`. -/
structure JournalEntry where
  magic : ℕ
  version : ℕ
  entryType : ℕ
  generation : ℕ
  timestamp : ℕ
  virtualOffset : ℕ
  length : ℕ
  dataCrc : ℕ
  checksum : ℕ
  deriving Repr, DecidableEq

/-- `sizeof(JOURNAL_ENTRY)` and `offsetof(JOURNAL_ENTRY, checksum)`. -/
def entrySize : ℕ := 48
def checkedSize : ℕ := 44

/-- The bytes the checksum is about. -/
def JournalEntry.body (je : JournalEntry) : List Byte :=
  le 4 je.magic ++ (le 4 je.version ++ (le 4 je.entryType ++ (le 8 je.generation ++ (le 8 je.timestamp ++
    (le 8 je.virtualOffset ++ (le 4 je.length ++ le 4 je.dataCrc))))))

def JournalEntry.bytes (je : JournalEntry) : List Byte := je.body ++ le 4 je.checksum

/-- `memcpy(&je, raw + offset, sizeof(je))`. -/
def readEntry (raw : List Byte) (offset : ℕ) : JournalEntry where
  magic := unle (slice raw offset 4)
  version := unle (slice raw (offset + 4) 4)
  entryType := unle (slice raw (offset + 8) 4)
  generation := unle (slice raw (offset + 12) 8)
  timestamp := unle (slice raw (offset + 20) 8)
  virtualOffset := unle (slice raw (offset + 28) 8)
  length := unle (slice raw (offset + 36) 4)
  dataCrc := unle (slice raw (offset + 40) 4)
  checksum := unle (slice raw (offset + 44) 4)

theorem JournalEntry.body_length (je : JournalEntry) : je.body.length = checkedSize := by
  simp only [body, List.length_append, length_le, checkedSize]

theorem JournalEntry.bytes_length (je : JournalEntry) : je.bytes.length = entrySize := by
  rw [bytes, List.length_append, body_length, length_le]
  rfl

/-- Every field is in the range of its C type. -/
structure JournalEntry.InRange (je : JournalEntry) : Prop where
  magic : je.magic < 2^32
  version : je.version < 2^32
  entryType : je.entryType < 2^32
  generation : je.generation < 2^64
  timestamp : je.timestamp < 2^64
  virtualOffset : je.virtualOffset < 2^64
  length : je.length < 2^32
  dataCrc : je.dataCrc < 2^32
  checksum : je.checksum < 2^32

/-- A number stored `k` bytes wide behind `n` bytes. -/
theorem unle_slice (pre post : List Byte) {o n k x : ℕ} (mid : List Byte) (ho : pre.length = o)
    (hn : mid.length = n) (hx : x < 256 ^ k) : unle (slice (pre ++ (mid ++ (le k x ++ post))) (o + n) k) = x := by
  have hs := slice_mid (pre ++ mid) (le k x) post (o := o + n) (n := k)
    (by rw [List.length_append, ho, hn]) (length_le k x)
  rw [List.append_assoc] at hs
  rw [hs, unle_le_of_lt hx]

/-- A header is read back as it was written. -/
theorem readEntry_bytes (je : JournalEntry) (h : je.InRange) (pre post : List Byte) {o : ℕ} (ho : pre.length = o) :
    readEntry (pre ++ (je.bytes ++ post)) o = je := by
  have hb : je.bytes ++ post = le 4 je.magic ++ (le 4 je.version ++ (le 4 je.entryType ++ (le 8 je.generation ++
      (le 8 je.timestamp ++ (le 8 je.virtualOffset ++ (le 4 je.length ++ (le 4 je.dataCrc ++
        (le 4 je.checksum ++ post)))))))) := by
    simp only [JournalEntry.bytes, JournalEntry.body, List.append_assoc]
  have h1 := unle_slice pre (le 4 je.version ++ (le 4 je.entryType ++ (le 8 je.generation ++
      (le 8 je.timestamp ++ (le 8 je.virtualOffset ++ (le 4 je.length ++ (le 4 je.dataCrc ++
        (le 4 je.checksum ++ post)))))))) [] ho rfl (n := 0) (k := 4) h.magic
  have h2 := unle_slice pre (le 4 je.entryType ++ (le 8 je.generation ++
      (le 8 je.timestamp ++ (le 8 je.virtualOffset ++ (le 4 je.length ++ (le 4 je.dataCrc ++
        (le 4 je.checksum ++ post))))))) (le 4 je.magic) ho (length_le _ _) (n := 4) (k := 4) h.version
  have h3 := unle_slice pre (le 8 je.generation ++
      (le 8 je.timestamp ++ (le 8 je.virtualOffset ++ (le 4 je.length ++ (le 4 je.dataCrc ++
        (le 4 je.checksum ++ post)))))) (le 4 je.magic ++ le 4 je.version) ho
    (by simp only [List.length_append, length_le]) (n := 8) (k := 4) h.entryType
  have h4 := unle_slice pre (le 8 je.timestamp ++ (le 8 je.virtualOffset ++ (le 4 je.length ++ (le 4 je.dataCrc ++
        (le 4 je.checksum ++ post))))) (le 4 je.magic ++ (le 4 je.version ++ le 4 je.entryType)) ho
    (by simp only [List.length_append, length_le]) (n := 12) (k := 8) h.generation
  have h5 := unle_slice pre (le 8 je.virtualOffset ++ (le 4 je.length ++ (le 4 je.dataCrc ++
        (le 4 je.checksum ++ post)))) (le 4 je.magic ++ (le 4 je.version ++ (le 4 je.entryType ++
          le 8 je.generation))) ho (by simp only [List.length_append, length_le]) (n := 20) (k := 8) h.timestamp
  have h6 := unle_slice pre (le 4 je.length ++ (le 4 je.dataCrc ++ (le 4 je.checksum ++ post)))
    (le 4 je.magic ++ (le 4 je.version ++ (le 4 je.entryType ++ (le 8 je.generation ++ le 8 je.timestamp)))) ho
    (by simp only [List.length_append, length_le]) (n := 28) (k := 8) h.virtualOffset
  have h7 := unle_slice pre (le 4 je.dataCrc ++ (le 4 je.checksum ++ post))
    (le 4 je.magic ++ (le 4 je.version ++ (le 4 je.entryType ++ (le 8 je.generation ++ (le 8 je.timestamp ++
      le 8 je.virtualOffset))))) ho (by simp only [List.length_append, length_le]) (n := 36) (k := 4) h.length
  have h8 := unle_slice pre (le 4 je.checksum ++ post)
    (le 4 je.magic ++ (le 4 je.version ++ (le 4 je.entryType ++ (le 8 je.generation ++ (le 8 je.timestamp ++
      (le 8 je.virtualOffset ++ le 4 je.length)))))) ho (by simp only [List.length_append, length_le]) (n := 40) (k := 4) h.dataCrc
  have h9 := unle_slice pre post je.body ho je.body_length (n := 44) (k := 4) h.checksum
  simp only [List.nil_append, List.append_assoc, Nat.add_zero, JournalEntry.body] at h1 h2 h3 h4 h5 h6 h7 h8 h9
  rw [hb]
  simp only [readEntry, h1, h2, h3, h4, h5, h6, h7, h8, h9]

/-- `make_je`, with the time of the clock. -/
def makeJe (type generation timestamp virtualOffset length : ℕ) (data : List Byte) : JournalEntry :=
  let je : JournalEntry := ⟨journalMagic, journalVersion, type, generation, timestamp, virtualOffset, length,
    if 0 < length then (crc32 data).toNat else 0, 0⟩
  { je with checksum := (crc32 je.body).toNat }

/-! ### Records -/

/-- What one of `journal_begin`, `journal_data` and `journal_commit` puts into a journal. -/
inductive Rec where
  | begin (generation timestamp : ℕ)
  | data (generation timestamp virtualOffset : ℕ) (payload : List Byte)
  | commit (generation timestamp : ℕ)
  deriving DecidableEq

def Rec.entry : Rec → JournalEntry
  | .begin g t => makeJe jtBegin g t 0 0 []
  | .data g t off payload => makeJe jtData g t off payload.length payload
  | .commit g t => makeJe jtCommit g t 0 0 []

def Rec.payload : Rec → List Byte
  | .data _ _ _ payload => payload
  | _ => []

/-- The bytes of the record in the file. -/
def Rec.image (r : Rec) : List Byte := r.entry.bytes ++ r.payload

/-- The arguments are in the range of their C types. -/
def Rec.Typed : Rec → Prop
  | .begin g t => g < 2^64 ∧ t < 2^64
  | .data g t off payload => g < 2^64 ∧ t < 2^64 ∧ off < 2^64 ∧ payload.length < 2^32
  | .commit g t => g < 2^64 ∧ t < 2^64

instance (r : Rec) : Decidable r.Typed :=
  match r with
  | .begin _ _ => inferInstanceAs (Decidable (_ ∧ _))
  | .data _ _ _ _ => inferInstanceAs (Decidable (_ ∧ _ ∧ _ ∧ _))
  | .commit _ _ => inferInstanceAs (Decidable (_ ∧ _))

/-- The arguments are in the range of their C types, and no payload is longer than the flush
buffer it comes from. -/
def Rec.Fits : Rec → Prop
  | .begin g t => g < 2^64 ∧ t < 2^64
  | .data g t off payload => g < 2^64 ∧ t < 2^64 ∧ off < 2^64 ∧ payload.length ≤ maxFlushSize
  | .commit g t => g < 2^64 ∧ t < 2^64

theorem Rec.image_length (r : Rec) : r.image.length = entrySize + r.payload.length := by
  rw [image, List.length_append, JournalEntry.bytes_length]

theorem makeJe_inRange {type generation timestamp off length : ℕ} (data : List Byte) (h1 : type < 2^32)
    (h2 : generation < 2^64) (h3 : timestamp < 2^64) (h4 : off < 2^64) (h5 : length < 2^32) :
    (makeJe type generation timestamp off length data).InRange := by
  refine ⟨show journalMagic < 2^32 by decide, show journalVersion < 2^32 by decide, h1, h2, h3, h4, h5, ?_,
    UInt32.toNat_lt _⟩
  simp only [makeJe]
  split
  · exact UInt32.toNat_lt _
  · decide

theorem Rec.Fits.typed {r : Rec} (h : r.Fits) : r.Typed := by
  cases r with
  | begin g t => exact h
  | data g t off payload =>
    have hlen : payload.length ≤ 16777216 := h.2.2.2
    exact ⟨h.1, h.2.1, h.2.2.1, by omega⟩
  | commit g t => exact h

theorem Rec.entry_inRange {r : Rec} (h : r.Typed) : r.entry.InRange := by
  cases r with
  | begin g t => exact makeJe_inRange [] (by decide) h.1 h.2 (by decide) (by decide)
  | data g t off payload => exact makeJe_inRange payload (by decide) h.1 h.2.1 h.2.2.1 h.2.2.2
  | commit g t => exact makeJe_inRange [] (by decide) h.1 h.2 (by decide) (by decide)

theorem Rec.checksum (r : Rec) : r.entry.checksum = (crc32 r.entry.body).toNat := by
  cases r <;> rfl

theorem Rec.magic (r : Rec) : r.entry.magic = journalMagic := by
  cases r <;> rfl

theorem Rec.version (r : Rec) : r.entry.version = journalVersion := by
  cases r <;> rfl

theorem Rec.dataCrc (g t off : ℕ) (payload : List Byte) :
    (Rec.data g t off payload).entry.dataCrc = (crc32 payload).toNat := by
  have he : (Rec.data g t off payload).entry.dataCrc =
      if 0 < payload.length then (crc32 payload).toNat else 0 := rfl
  rw [he]
  split
  · rfl
  · next hn =>
    obtain rfl := List.length_eq_zero_iff.mp (Nat.eq_zero_of_not_pos hn)
    decide +kernel

end RaidTest.Journal
