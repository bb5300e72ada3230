/-
  TwinLog.KeyLog.Header — the fixed part of a key record.

  A record is a header of 44 bytes followed by the key's UTF-8 bytes. The header holds
  five fields back to back, integers signed and little-endian:

    key offset (8)   key size (4)   content size (8)   content offset (8)   checksum (16)

  The key offset is absolute, so it always equals the record's position plus 44; a zero
  there marks the end of the log. `encode` and `decode` are inverse to each other on
  headers and on 44-byte lists (`decode_encode`, `encode_decode`): whether the fields
  make sense is decided by whoever reads them.

  It follows `RawHeader`.
-/

import TwinLog.Bytes.Little
import TwinLog.Location

namespace TwinLog

structure Header where
  keyOffset : Int64
  keySize : Int32
  size : Int64
  offset : Int64
  checksum : Checksum
  deriving DecidableEq

namespace Header

def width : Nat := 44

def isEnd (h : Header) : Bool := h.keyOffset == 0

def encode (h : Header) : List UInt8 :=
  int64Bytes h.keyOffset ++ int32Bytes h.keySize ++ int64Bytes h.size ++ int64Bytes h.offset ++ h.checksum.toBytes

def decode (bs : List UInt8) : Header where
  keyOffset := int64OfBytes (bs.take 8)
  keySize := int32OfBytes ((bs.drop 8).take 4)
  size := int64OfBytes ((bs.drop 12).take 8)
  offset := int64OfBytes ((bs.drop 20).take 8)
  checksum := Checksum.ofBytes ((bs.drop 28).take 16)

def listed (h : Header) : String :=
  "RawHeader \x7b key_offset: " ++ toString h.keyOffset.toInt ++ ", key_size: " ++ toString h.keySize.toInt ++
    ", size: " ++ toString h.size.toInt ++ ", offset: " ++ toString h.offset.toInt ++
    ", checksum: " ++ h.checksum.listed ++ " \x7d"

@[simp] theorem length_encode (h : Header) : h.encode.length = 44 := by simp [encode]

theorem decode_encode (h : Header) : decode h.encode = h := by
  obtain ⟨keyOffset, keySize, size, offset, checksum⟩ := h
  have past8 (x : Int64) (r : List UInt8) (n : Nat) : (int64Bytes x ++ r).drop (8 + n) = r.drop n := by
    rw [← List.drop_drop, List.drop_left' (length_int64Bytes x)]
  have past4 (x : Int32) (r : List UInt8) (n : Nat) : (int32Bytes x ++ r).drop (4 + n) = r.drop n := by
    rw [← List.drop_drop, List.drop_left' (length_int32Bytes x)]
  have at8 (x : Int64) (r : List UInt8) : (int64Bytes x ++ r).take 8 = int64Bytes x :=
    List.take_left' (length_int64Bytes x)
  have at4 (x : Int32) (r : List UInt8) : (int32Bytes x ++ r).take 4 = int32Bytes x :=
    List.take_left' (length_int32Bytes x)
  simp only [decode, encode, List.append_assoc, at8]
  rw [past8 keyOffset _ 0, past8 keyOffset _ 4, past8 keyOffset _ 12, past8 keyOffset _ 20, past4 keySize _ 0,
    past4 keySize _ 8, past4 keySize _ 16, past8 size _ 0, past8 size _ 8, past8 offset _ 0]
  simp only [List.drop_zero, at8, at4, List.take_of_length_le (Nat.le_of_eq checksum.length_toBytes),
    int64_round_trip, int32_round_trip, Checksum.ofBytes_toBytes]

theorem encode_decode {bs : List UInt8} (h : bs.length = 44) : (decode bs).encode = bs := by
  have h16 : ((bs.drop 28).take 16).length = 16 := by simp; omega
  simp only [decode, encode, Checksum.toBytes_ofBytes h16]
  rw [int64_bytes_round_trip (by simp; omega), int32_bytes_round_trip (by simp; omega),
    int64_bytes_round_trip (by simp; omega), int64_bytes_round_trip (by simp; omega)]
  have cut (n m : Nat) : (bs.drop n).take m ++ bs.drop (n + m) = bs.drop n := by
    rw [← List.drop_drop, List.take_append_drop]
  have last : (bs.drop 28).take 16 = bs.drop 28 := List.take_of_length_le (by simp; omega)
  rw [last, List.append_assoc, List.append_assoc, List.append_assoc, cut 20 8, cut 12 8, cut 8 4,
    List.take_append_drop]

end Header

end TwinLog
