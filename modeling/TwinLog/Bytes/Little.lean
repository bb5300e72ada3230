/-
  TwinLog.Bytes.Little — little-endian numerals of a fixed width, and the signed words
  that the logs keep.

  `leBytes n v` writes the low `n` bytes of `v`, lowest first; `ofLe` reads such bytes.
  - `ofLe_leBytes`: what is read back is `v` modulo `leBound n`.
  - `leBytes_ofLe`: every byte list is the numeral of what it reads as.
  Signed words go through their unsigned value of the same width, so a word and its
  bytes determine each other (`int64_round_trip`, `int64_bytes_round_trip` and the
  same for 32 bits).

  These are the numerals of the cursor header and of `RawHeader`.
-/

namespace TwinLog

def leBytes : Nat → Nat → List UInt8
  | 0, _ => []
  | n + 1, v => UInt8.ofNat v :: leBytes n (v / 256)

def ofLe : List UInt8 → Nat
  | [] => 0
  | b :: r => b.toNat + 256 * ofLe r

/-- One more than the largest number that `n` bytes stand for. -/
def leBound : Nat → Nat
  | 0 => 1
  | n + 1 => 256 * leBound n

@[simp] theorem length_leBytes (n v : Nat) : (leBytes n v).length = n := by
  induction n generalizing v with
  | zero => rfl
  | succ n ih => simp [leBytes, ih]

theorem ofLe_leBytes (n v : Nat) : ofLe (leBytes n v) = v % leBound n := by
  induction n generalizing v with
  | zero => simp [leBytes, ofLe, leBound, Nat.mod_one]
  | succ n ih =>
    rw [leBytes, ofLe, ih, leBound, Nat.mod_mul]
    simp

theorem ofLe_lt (bs : List UInt8) : ofLe bs < leBound bs.length := by
  induction bs with
  | nil => simp [ofLe, leBound]
  | cons b r ih =>
    have hb := b.toNat_lt
    rw [ofLe, List.length_cons, leBound]
    omega

theorem leBytes_ofLe (bs : List UInt8) : leBytes bs.length (ofLe bs) = bs := by
  induction bs with
  | nil => rfl
  | cons b r ih =>
    have hb := b.toNat_lt
    have low : UInt8.ofNat (b.toNat + 256 * ofLe r) = b := by
      apply UInt8.toNat_inj.mp
      rw [UInt8.toNat_ofNat']
      omega
    have high : (b.toNat + 256 * ofLe r) / 256 = ofLe r := by omega
    rw [List.length_cons, ofLe, leBytes, low, high, ih]

/-! ## Signed words -/

def int64Bytes (x : Int64) : List UInt8 := leBytes 8 x.toUInt64.toNat

def int64OfBytes (bs : List UInt8) : Int64 := (UInt64.ofNat (ofLe bs)).toInt64

def int32Bytes (x : Int32) : List UInt8 := leBytes 4 x.toUInt32.toNat

def int32OfBytes (bs : List UInt8) : Int32 := (UInt32.ofNat (ofLe bs)).toInt32

@[simp] theorem length_int64Bytes (x : Int64) : (int64Bytes x).length = 8 := length_leBytes ..

@[simp] theorem length_int32Bytes (x : Int32) : (int32Bytes x).length = 4 := length_leBytes ..

theorem int64_round_trip (x : Int64) : int64OfBytes (int64Bytes x) = x := by
  have h : x.toUInt64.toNat % leBound 8 = x.toUInt64.toNat := Nat.mod_eq_of_lt x.toUInt64.toNat_lt
  rw [int64OfBytes, int64Bytes, ofLe_leBytes, h, UInt64.ofNat_toNat, Int64.toInt64_toUInt64]

theorem int32_round_trip (x : Int32) : int32OfBytes (int32Bytes x) = x := by
  have h : x.toUInt32.toNat % leBound 4 = x.toUInt32.toNat := Nat.mod_eq_of_lt x.toUInt32.toNat_lt
  rw [int32OfBytes, int32Bytes, ofLe_leBytes, h, UInt32.ofNat_toNat, Int32.toInt32_toUInt32]

theorem int64_bytes_round_trip {bs : List UInt8} (h : bs.length = 8) : int64Bytes (int64OfBytes bs) = bs := by
  have hlt : ofLe bs < 2 ^ 64 := by have := ofLe_lt bs; rw [h] at this; exact this
  rw [int64OfBytes, int64Bytes, UInt64.toUInt64_toInt64, UInt64.toNat_ofNat_of_lt' hlt, ← h, leBytes_ofLe]

theorem int32_bytes_round_trip {bs : List UInt8} (h : bs.length = 4) : int32Bytes (int32OfBytes bs) = bs := by
  have hlt : ofLe bs < 2 ^ 32 := by have := ofLe_lt bs; rw [h] at this; exact this
  rw [int32OfBytes, int32Bytes, UInt32.toUInt32_toInt32, UInt32.toNat_ofNat_of_lt' hlt, ← h, leBytes_ofLe]

end TwinLog
