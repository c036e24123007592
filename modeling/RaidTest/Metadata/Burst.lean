import RaidTest.Base.Register
import RaidTest.Metadata.Versions
import Mathlib.Data.Nat.Bitwise

/-!
# Corruption of a superblock (`crc32.c`, `try_read_superblock_from_drive`)

A table entry is known by its upper byte, so the checksum tells any four neighbouring bytes
apart. Its own bytes are stored behind the others, the lowest first, and a change that reaches
over from the last fields into them is told apart by the bytes it leaves.
-/

namespace RaidTest.Metadata
open RaidTest.Base RaidTest.Journal

/-! ### The register -/

/-- What `table` has at the upper byte `t`: the steps of `crc32_init` taken back. -/
def crcIndex (t : UInt32) : UInt32 :=
  let back := fun (crc : UInt32) (_ : ℕ) =>
    if crc &&& 0x80000000 = 0 then crc <<< 1 else ((crc ^^^ 0xEDB88320) <<< 1) ||| 1
  ((List.range 8).foldl back (t <<< 24)) &&& 0xFF

theorem crcIndex_table : ∀ i < 256, crcIndex (crcTable (UInt32.ofNat i) >>> 24) = UInt32.ofNat i := by decide +kernel

theorem low_toNat (s : UInt32) (b : Byte) : ((s ^^^ b.toUInt32) &&& 0xFF).toNat = (s.toNat % 2 ^ 8) ^^^ b.toNat := by
  have hb : b.toNat % 2 ^ 8 = b.toNat := Nat.mod_eq_of_lt b.toNat_lt
  have hmask : (0xFF : UInt32).toNat = 2 ^ 8 - 1 := rfl
  rw [UInt32.toNat_and, UInt32.toNat_xor, hmask, Nat.and_two_pow_sub_one_eq_mod, Nat.xor_mod_two_pow, UInt8.toNat_toUInt32, hb]

/-- Entries with the same upper byte are one entry. -/
theorem crcTable_inj {i j : UInt32} (hi : i.toNat < 256) (hj : j.toNat < 256) (h : crcTable i >>> 24 = crcTable j >>> 24) :
    i = j := by
  have hi' := crcIndex_table i.toNat hi
  have hj' := crcIndex_table j.toNat hj
  rw [UInt32.ofNat_toNat] at hi' hj'
  rw [← hi', ← hj', h]

theorem low_lt (s : UInt32) (b : Byte) : ((s ^^^ b.toUInt32) &&& 0xFF).toNat < 256 := by
  have hmask : (0xFF : UInt32).toNat = 2 ^ 8 - 1 := rfl
  rw [UInt32.toNat_and, hmask, Nat.and_two_pow_sub_one_eq_mod]
  exact Nat.mod_lt _ (by decide)

/-- The register of `crc32`. -/
def crcRegister : Register UInt32 Byte UInt32 where
  step := fun crc b => crcTable ((crc ^^^ b.toUInt32) &&& 0xFF) ^^^ (crc >>> 8)
  index := fun crc b => (crc ^^^ b.toUInt32) &&& 0xFF
  top := fun k crc => crc.toNat >>> (32 - 8 * k)
  last := 3
  leaves := by
    intro k s b t c hk h
    have hshift : ∀ x : UInt32, (x >>> 8).toNat = x.toNat >>> 8 := fun x => UInt32.toNat_shiftRight x 8
    have hout : ∀ x : UInt32, x.toNat >>> 8 >>> (32 - 8 * (k + 1)) >>> (8 * k) = 0 := by
      intro x
      rw [← Nat.shiftRight_add, ← Nat.shiftRight_add, show 8 + (32 - 8 * (k + 1) + 8 * k) = 32 by omega]
      exact Nat.shiftRight_eq_zero _ _ x.toNat_lt
    rw [UInt32.toNat_xor, UInt32.toNat_xor, hshift, hshift, Nat.shiftRight_xor_distrib, Nat.shiftRight_xor_distrib] at h
    have htable : crcTable ((s ^^^ b.toUInt32) &&& 0xFF) >>> 24 = crcTable ((t ^^^ c.toUInt32) &&& 0xFF) >>> 24 := by
      -- the upper byte is the entry's alone
      have hup := congrArg (fun x => x >>> (8 * k)) h
      simp only [Nat.shiftRight_xor_distrib, hout, Nat.xor_zero] at hup
      rw [← Nat.shiftRight_add, ← Nat.shiftRight_add, show 32 - 8 * (k + 1) + 8 * k = 24 by omega] at hup
      exact UInt32.toNat_inj.mp ((UInt32.toNat_shiftRight _ 24).trans (hup.trans (UInt32.toNat_shiftRight _ 24).symm))
    have hindex := crcTable_inj (low_lt s b) (low_lt t c) htable
    refine ⟨hindex, ?_⟩
    rw [hindex] at h
    have hrest := Nat.xor_right_injective h
    rw [← Nat.shiftRight_add, ← Nat.shiftRight_add, show 8 + (32 - 8 * (k + 1)) = 32 - 8 * k by omega] at hrest
    exact hrest
  enters := by
    intro s b c h
    have hlow := congrArg UInt32.toNat h
    rw [low_toNat, low_toNat] at hlow
    exact UInt8.toNat_inj.mp (Nat.xor_right_injective hlow)
  back := by
    intro s b t h ht
    have hlow := congrArg UInt32.toNat h
    rw [low_toNat, low_toNat] at hlow
    have hmod := Nat.xor_left_injective hlow
    have hdiv : s.toNat / 2 ^ 8 = t.toNat / 2 ^ 8 := by
      rw [← Nat.shiftRight_eq_div_pow, ← Nat.shiftRight_eq_div_pow]
      exact ht
    exact UInt32.toNat_inj.mp (by omega)

/-- `crc32` of all but the last complement. -/
def crcRun (data : List Byte) : UInt32 := crcRegister.run 0xFFFFFFFF data

theorem crc32_top {a b : List Byte} {k : ℕ} (h : (crc32 a).toNat >>> (32 - 8 * k) = (crc32 b).toNat >>> (32 - 8 * k)) :
    crcRegister.top k (crcRun a) = crcRegister.top k (crcRun b) := by
  have heq : ∀ data, (crc32 data).toNat = (crcRun data).toNat ^^^ (0xFFFFFFFF : UInt32).toNat := fun data =>
    UInt32.toNat_xor _ _
  rw [heq, heq, Nat.shiftRight_xor_distrib, Nat.shiftRight_xor_distrib] at h
  exact Nat.xor_left_injective h

theorem crc32_run {a b : List Byte} (h : crc32 a = crc32 b) : crcRun a = crcRun b :=
  UInt32.toNat_inj.mp (crc32_top (k := 4) (congrArg (fun c => c.toNat >>> 0) h))

/-- The upper `k` bytes of a checksum are the last ones of those it is stored in. -/
theorem stored_top {sum : UInt32} {bytes : List Byte} (h : unle bytes = sum.toNat) {k : ℕ} (hk : k ≤ 4) :
    sum.toNat >>> (32 - 8 * k) = unle (bytes.drop (4 - k)) := by
  rw [unle_drop, h, Nat.shiftRight_eq_div_pow, show 32 - 8 * k = 8 * (4 - k) by omega, Nat.pow_mul]

/-! ### Changes -/

/-- Bytes that only differ in the last `k ≤ 4` of them, with checksums that agree in the upper `k`. -/
theorem crc32_last {p w x : List Byte} (hlen : x.length = w.length) (hle : w.length ≤ 4)
    (h : (crc32 (p ++ w)).toNat >>> (32 - 8 * w.length) = (crc32 (p ++ x)).toNat >>> (32 - 8 * w.length)) : w = x := by
  have htop := crc32_top h
  unfold crcRun at htop
  rw [crcRegister.run_append, crcRegister.run_append] at htop
  exact crcRegister.run_burst hlen hle htop

/-- Bytes that only differ in four neighbours. -/
theorem crc32_within {p w x q : List Byte} (hlen : x.length = w.length) (hle : w.length ≤ 4)
    (h : crc32 (p ++ (w ++ q)) = crc32 (p ++ (x ++ q))) : w = x := by
  have hrun := crc32_run h
  unfold crcRun at hrun
  rw [crcRegister.run_append, crcRegister.run_append, crcRegister.run_append, crcRegister.run_append] at hrun
  exact crcRegister.run_burst hlen hle (congrArg (crcRegister.top w.length) (crcRegister.run_inj hrun))

section Window
variable {raw raw' : List Byte} {o : ℕ}

/-- The image with another window of four bytes that lies before the checksum. -/
theorem imageOf_data (h : ImageOf .v4 raw) (h' : ImageOf .v4 raw') (hlen : raw'.length = raw.length) (ho : o + 4 ≤ 824)
    (hbefore : raw'.take o = raw.take o) (hafter : raw'.drop (o + 4) = raw.drop (o + 4)) : raw' = raw := by
  have hsize : Layout.v4.body.size = 824 := rfl
  have hlong : 828 ≤ raw.length := h.length
  have hparts : ∀ l : List Byte, l = l.take o ++ ((l.drop o).take 4 ++ l.drop (o + 4)) := by
    intro l
    rw [← List.drop_drop, List.take_append_drop, List.take_append_drop]
  have hdata : ∀ l : List Byte, 828 ≤ l.length →
      l.take 824 = l.take o ++ ((l.drop o).take 4 ++ (l.drop (o + 4)).take (824 - (o + 4))) := by
    intro l hl
    have hl1 : (l.take o).length = o := by rw [List.length_take]; omega
    have hl2 : ((l.drop o).take 4).length = 4 := by rw [List.length_take, List.length_drop]; omega
    have hl3 : (l.take o).take 824 = l.take o := List.take_of_length_le (by omega)
    have hl4 : ((l.drop o).take 4).take (824 - o) = (l.drop o).take 4 := List.take_of_length_le (by omega)
    conv_lhs => rw [hparts l]
    rw [List.take_append, List.take_append, hl1, hl2, hl3, hl4, Nat.sub_sub]
  have hstored : raw'.drop 824 = raw.drop 824 := by
    rw [show 824 = o + 4 + (824 - (o + 4)) by omega, ← List.drop_drop, ← List.drop_drop (i := 824 - (o + 4)), hafter]
  have hsum : crc32 (raw.take 824) = crc32 (raw'.take 824) := by
    apply UInt32.toNat_inj.mp
    rw [← hsize, ← h.checksum, ← h'.checksum, hsize, hstored]
  rw [hdata raw hlong, hdata raw' (by omega), hbefore, hafter] at hsum
  have hwindow := crc32_within (by rw [List.length_take, List.length_take, List.length_drop, List.length_drop, hlen])
    (List.length_take_le _ _) hsum
  rw [hparts raw, hparts raw', hbefore, hafter, hwindow]

/-- The image with another window that reaches into the checksum or lies in it. -/
theorem imageOf_checksum (h : ImageOf .v4 raw) (h' : ImageOf .v4 raw') (hraw : raw.length = superblockSize)
    (hlen : raw'.length = raw.length) (ho : 824 < o + 4)
    (hbefore : raw'.take o = raw.take o) (hafter : raw'.drop (o + 4) = raw.drop (o + 4)) : raw' = raw := by
  have hsize : Layout.v4.body.size = 824 := rfl
  have hraw : raw.length = 828 := hraw
  -- `d` bytes of the window are data, and the rest are bytes of the checksum
  obtain ⟨d, hd⟩ : ∃ d, d = 824 - o := ⟨_, rfl⟩
  have hsplit : ∀ l : List Byte, l.take 824 = l.take (824 - d) ++ (l.drop (824 - d)).take d := by
    intro l
    rw [← List.take_add, show 824 - d + d = 824 by omega]
  have hdata : ∀ l : List Byte, l.length = 828 → ((l.drop (824 - d)).take d).length = d := by
    intro l hl
    rw [List.length_take, List.length_drop]
    omega
  have hfront : raw'.take (824 - d) = raw.take (824 - d) := by
    have htake := congrArg (fun l => l.take (824 - d)) hbefore
    simp only [List.take_take, show min (824 - d) o = 824 - d by omega] at htake
    exact htake
  have hrest : (raw'.drop 824).drop (4 - d) = (raw.drop 824).drop (4 - d) := by
    rw [List.drop_drop, List.drop_drop]
    by_cases hd0 : d = 0
    · rw [List.drop_eq_nil_of_le (by omega), List.drop_eq_nil_of_le (by omega)]
    · rw [show 824 + (4 - d) = o + 4 by omega]
      exact hafter
  have hfour : ∀ l : List Byte, l.length = 828 → (l.drop 824).take 4 = l.drop 824 := by
    intro l hl
    apply List.take_of_length_le
    rw [List.length_drop]
    omega
  have hsum : ∀ {l : List Byte}, ImageOf .v4 l → l.length = 828 → unle (l.drop 824) = (crc32 (l.take 824)).toNat := by
    intro l hi hl
    rw [← hfour l hl]
    exact hi.checksum
  have hlen' : raw'.length = 828 := hlen.trans hraw
  have htop : (crc32 (raw.take 824)).toNat >>> (32 - 8 * d) = (crc32 (raw'.take 824)).toNat >>> (32 - 8 * d) := by
    rw [stored_top (hsum h hraw) (by omega), stored_top (hsum h' hlen') (by omega), hrest]
  have hback : (raw.drop (824 - d)).take d = (raw'.drop (824 - d)).take d := by
    rw [hsplit raw, hsplit raw', hfront] at htop
    apply crc32_last
    · rw [hdata raw hraw, hdata raw' hlen']
    · rw [hdata raw hraw]
      omega
    · rw [hdata raw hraw]
      exact htop
  have hall : raw'.take 824 = raw.take 824 := by rw [hsplit raw, hsplit raw', hfront, hback]
  have hend : raw'.drop 824 = raw.drop 824 := by
    apply unle_inj
    · rw [List.length_drop, List.length_drop, hlen]
    · rw [hsum h hraw, hsum h' hlen', hall]
  rw [← List.take_append_drop 824 raw', ← List.take_append_drop 824 raw, hall, hend]

end Window

/-- A superblock with other bytes in a window of four, past the magic and the version, is not read. -/
theorem tryReadSuperblock_burst (env : ReadEnv) (raw raw' : List Byte) (o : ℕ) (h : ImageOf .v4 raw)
    (hraw : raw.length = superblockSize) (hlen : raw'.length = raw.length) (hne : raw' ≠ raw) (ho : 8 ≤ o)
    (hbefore : raw'.take o = raw.take o) (hafter : raw'.drop (o + 4) = raw.drop (o + 4)) :
    (tryReadSuperblock env ⟨some raw', none⟩).1 = none := by
  have hrecover : tryRecoverOrphanTmp env ⟨some raw', none⟩ = ⟨some raw', none⟩ := rfl
  rw [tryRead_eq, hrecover, Option.bind_some]
  split
  · cases hp : parse (raw'.take rawSize) with
    | none => rfl
    | some sb =>
      obtain ⟨l, hl⟩ := parse_some hp
      have h' := hl.of_take
      have hfront : ∀ bs : List Byte, (bs.drop 4).take 4 = ((bs.take o).drop 4).take 4 := by
        intro bs
        rw [List.drop_take, List.take_take, Nat.min_eq_left (by omega)]
      have hversion : (Codec.num 4).get (raw'.drop 4) = (Codec.num 4).get (raw.drop 4) := by
        have htake : (raw'.drop 4).take 4 = (raw.drop 4).take 4 := by rw [hfront raw', hfront raw, hbefore]
        exact congrArg unle htake
      obtain rfl : l = .v4 := Layout.number_inj (h'.version.symm.trans (hversion.trans h.version))
      by_cases hdata : o + 4 ≤ 824
      · exact absurd (imageOf_data h h' hlen hdata hbefore hafter) hne
      · exact absurd (imageOf_checksum h h' hraw hlen (by omega) hbefore hafter) hne
  · rfl

/-- A superblock whose member count is changed. -/
theorem tryReadSuperblock_burst_sample : ∃ raw raw' : List Byte, ImageOf .v4 raw ∧ raw' ≠ raw ∧
    (tryReadSuperblock .good ⟨some raw', none⟩).1 = none := by
  have h : ImageOf .v4 (Layout.v4.image { oldPair with version := 4 }) := imageOf_image .v4 rfl rfl
  have hlen : (Layout.v4.image { oldPair with version := 4 }).length = superblockSize := Layout.v4.image_length _
  generalize Layout.v4.image { oldPair with version := 4 } = raw at h hlen
  have hsize : raw.length = 828 := hlen
  have hfront : (raw.take 8).length = 8 := by rw [List.length_take]; omega
  cases hrest : raw.drop 8 with
  | nil =>
    have hnil := congrArg List.length hrest
    rw [List.length_drop, List.length_nil] at hnil
    omega
  | cons c rest =>
    have hraw : raw = raw.take 8 ++ c :: rest := by rw [← hrest, List.take_append_drop]
    have hother : raw.take 8 ++ (c + 1) :: rest ≠ raw := by
      intro he
      have hc := congrArg UInt8.toNat (List.cons.inj (List.append_cancel_left (he.trans hraw))).1
      have hone : (1 : UInt8).toNat = 1 := rfl
      have hlt := c.toNat_lt
      rw [UInt8.toNat_add] at hc
      omega
    refine ⟨raw, _, h, hother, tryReadSuperblock_burst .good raw _ 8 h hlen ?_ hother (Nat.le_refl 8) ?_ ?_⟩
    · conv_rhs => rw [hraw]
      simp only [List.length_append, List.length_cons]
    · exact List.take_left' hfront
    · conv_rhs => rw [hraw]
      rw [List.drop_append, List.drop_append, hfront, List.drop_eq_nil_of_le (by omega)]
      rfl

end RaidTest.Metadata
