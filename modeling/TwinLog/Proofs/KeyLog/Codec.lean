/-
  TwinLog.Proofs.KeyLog.Codec — a header and its 44 bytes determine each other.

  The layout of a header is said here without reading or writing one: `Written h bs` cuts 44
  bytes into five slices and says of each what stands there. An integer stands in its slice as
  its residue modulo 256 for each byte (`Residue`), so a negative one as its two's complement.

  A slice of the right length stands for one signed word and no other (`int64OfBytes_eq_iff`,
  `int32OfBytes_eq_iff`). From this both functions of the codec are the same relation read in
  either direction (`encode_eq_iff`, `decode_eq_iff`): a bound that is off in one of them, or a
  sign that is lost, would break it. That they are inverse to each other is `codec_bijective`.
-/

import Mathlib.Algebra.Ring.Int.Defs
import Mathlib.Algebra.Ring.Nat
import TwinLog.KeyLog.Header

namespace TwinLog

/-! ## Signed words in their bytes -/

/-- The bytes, lowest first, are those of `x` modulo what as many bytes can tell apart. -/
def Residue (x : Int) (bs : List UInt8) : Prop := (ofLe bs : Int) = x % 2 ^ (8 * bs.length)

instance (x : Int) (bs : List UInt8) : Decidable (Residue x bs) := inferInstanceAs (Decidable (_ = _))

theorem toInt_residue {n : Nat} (x : BitVec n) : x.toInt % ((2 ^ n : Nat) : Int) = x.toNat := by
  rw [BitVec.toInt_eq_toNat_bmod, Int.bmod_emod]
  exact Int.emod_eq_of_lt (Int.natCast_nonneg _) (Int.ofNat_lt.mpr x.isLt)

/-- A signed word is the one number of its range with the residue of its bytes. -/
theorem toInt64_eq_iff (u : UInt64) (x : Int64) : u.toInt64 = x ↔ (u.toNat : Int) = x.toInt % 2 ^ 64 := by
  have hx : x.toInt % 2 ^ 64 = x.toUInt64.toNat := toInt_residue x.toBitVec
  rw [hx, Int.ofNat_inj, UInt64.toNat_inj]
  constructor
  · rintro rfl
    exact (UInt64.toUInt64_toInt64 u).symm
  · rintro rfl
    exact Int64.toInt64_toUInt64 x

theorem toInt32_eq_iff (u : UInt32) (x : Int32) : u.toInt32 = x ↔ (u.toNat : Int) = x.toInt % 2 ^ 32 := by
  have hx : x.toInt % 2 ^ 32 = x.toUInt32.toNat := toInt_residue x.toBitVec
  rw [hx, Int.ofNat_inj, UInt32.toNat_inj]
  constructor
  · rintro rfl
    exact (UInt32.toUInt32_toInt32 u).symm
  · rintro rfl
    exact Int32.toInt32_toUInt32 x

theorem int64OfBytes_eq_iff {bs : List UInt8} (h : bs.length = 8) (x : Int64) :
    int64OfBytes bs = x ↔ Residue x.toInt bs := by
  have hlt : ofLe bs < 2 ^ 64 := by
    have := ofLe_lt bs
    rw [h] at this
    exact this
  rw [int64OfBytes, toInt64_eq_iff, UInt64.toNat_ofNat_of_lt' hlt, Residue, h]

theorem int32OfBytes_eq_iff {bs : List UInt8} (h : bs.length = 4) (x : Int32) :
    int32OfBytes bs = x ↔ Residue x.toInt bs := by
  have hlt : ofLe bs < 2 ^ 32 := by
    have := ofLe_lt bs
    rw [h] at this
    exact this
  rw [int32OfBytes, toInt32_eq_iff, UInt32.toNat_ofNat_of_lt' hlt, Residue, h]

namespace Header

/-! ## The layout -/

def slice (bs : List UInt8) (offset n : Nat) : List UInt8 := (bs.drop offset).take n

structure Written (h : Header) (bs : List UInt8) : Prop where
  length : bs.length = width
  keyOffset : Residue h.keyOffset.toInt (slice bs 0 8)
  keySize : Residue h.keySize.toInt (slice bs 8 4)
  size : Residue h.size.toInt (slice bs 12 8)
  offset : Residue h.offset.toInt (slice bs 20 8)
  checksum : slice bs 28 16 = h.checksum.toBytes

theorem length_slice {bs : List UInt8} {offset n : Nat} (h : bs.length = width) (hin : offset + n ≤ width) :
    (slice bs offset n).length = n := by
  rw [slice, List.length_take, List.length_drop]
  omega

theorem ofBytes_eq_iff {bs : List UInt8} (h : bs.length = 16) (c : Checksum) :
    Checksum.ofBytes bs = c ↔ bs = c.toBytes := by
  constructor
  · rintro rfl
    exact (Checksum.toBytes_ofBytes h).symm
  · rintro rfl
    exact Checksum.ofBytes_toBytes c

theorem decode_eq_iff {h : Header} {bs : List UInt8} (hlen : bs.length = width) : decode bs = h ↔ h.Written bs := by
  have len {offset n : Nat} (hin : offset + n ≤ width) : (slice bs offset n).length = n := length_slice hlen hin
  have fields : decode bs = h ↔ int64OfBytes (slice bs 0 8) = h.keyOffset ∧ int32OfBytes (slice bs 8 4) = h.keySize ∧
      int64OfBytes (slice bs 12 8) = h.size ∧ int64OfBytes (slice bs 20 8) = h.offset ∧
      Checksum.ofBytes (slice bs 28 16) = h.checksum := by
    obtain ⟨keyOffset, keySize, size, offset, checksum⟩ := h
    exact Header.mk.injEq .. ▸ Iff.rfl
  rw [fields, int64OfBytes_eq_iff (len (by decide)), int32OfBytes_eq_iff (len (by decide)),
    int64OfBytes_eq_iff (len (by decide)), int64OfBytes_eq_iff (len (by decide)), ofBytes_eq_iff (len (by decide))]
  constructor
  · rintro ⟨hkeyOffset, hkeySize, hsize, hoffset, hchecksum⟩
    exact ⟨hlen, hkeyOffset, hkeySize, hsize, hoffset, hchecksum⟩
  · intro hw
    exact ⟨hw.keyOffset, hw.keySize, hw.size, hw.offset, hw.checksum⟩

theorem encode_eq_iff {h : Header} {bs : List UInt8} : h.encode = bs ↔ h.Written bs := by
  constructor
  · rintro rfl
    exact (decode_eq_iff h.length_encode).mp h.decode_encode
  · intro hw
    rw [← (decode_eq_iff hw.length).mpr hw, encode_decode hw.length]

/-- Every header is read back as it was written, every 44 bytes are written back as they were
    read, and both follow the layout: each integer, negative ones included, is the signed number
    with the residue of its slice, and no two headers or byte lists share a counterpart. -/
theorem codec_bijective :
    (∀ h : Header, h.encode.length = width ∧ decode h.encode = h) ∧
    (∀ bs : List UInt8, bs.length = width → (decode bs).encode = bs) ∧
    ∀ (h : Header) (bs : List UInt8), (h.encode = bs ↔ h.Written bs) ∧
      (bs.length = width → (decode bs = h ↔ h.Written bs)) :=
  ⟨fun h => ⟨h.length_encode, h.decode_encode⟩, fun _ hlen => encode_decode hlen,
    fun _ _ => ⟨encode_eq_iff, decode_eq_iff⟩⟩

/-- The least numbers of 8 and of 4 bytes, -1, the largest number of 8 bytes, and 16 times 0xab. -/
def extremeBytes : List UInt8 :=
  [0, 0, 0, 0, 0, 0, 0, 128] ++ [0, 0, 0, 128] ++ List.replicate 8 255 ++
    [255, 255, 255, 255, 255, 255, 255, 127] ++ List.replicate 16 171

theorem extreme_bytes_read_back : extremeBytes.length = width ∧ (decode extremeBytes).encode = extremeBytes ∧
    decode extremeBytes = ⟨Int64.minValue, Int32.minValue, -1, Int64.maxValue, .ofBytes (List.replicate 16 171)⟩ := by
  have hlen : extremeBytes.length = width := by decide
  obtain ⟨-, hback, hlayout⟩ := codec_bijective
  refine ⟨hlen, hback _ hlen, ((hlayout _ _).2 hlen).mpr ⟨hlen, ?_, ?_, ?_, ?_, ?_⟩⟩
  all_goals decide +kernel

end Header

end TwinLog
