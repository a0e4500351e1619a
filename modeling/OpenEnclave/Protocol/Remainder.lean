import OpenEnclave.Lib.Remainder
import OpenEnclave.Protocol.Checksum

/-!
# Remainder — the checksum is the standard CRC-32

The constant `0xEDB88320` is the generator polynomial of CRC-32 without
its leading term, reflected (`crcPoly_eq_modulus`). `CalculateCRC32` is
therefore the textbook checksum: append 32 zeros to the message, invert
its first 32 bits, divide, and invert the remainder. The loop takes every
byte from its least significant bit, so the remainder comes out reversed.
-/

namespace OpenEnclave.Protocol

open ByteCodec Polynomial

/-- The generator polynomial of CRC-32. -/
noncomputable def crcPoly : (ZMod 2)[X] :=
  X ^ 32 + X ^ 26 + X ^ 23 + X ^ 22 + X ^ 16 + X ^ 12 + X ^ 11 + X ^ 10 + X ^ 8 + X ^ 7 + X ^ 5 +
    X ^ 4 + X ^ 2 + X + 1

/-- A byte with its least significant bit in the highest degree. -/
noncomputable def bytePoly (byte : UInt8) : (ZMod 2)[X] :=
  ∑ i ∈ Finset.range 8, Lfsr.bit (byte.toBitVec.getLsbD i) * X ^ (7 - i)

/-- A message with its first byte in the highest degrees. -/
noncomputable def messagePoly : Bytes → (ZMod 2)[X]
  | [] => 0
  | byte :: data => bytePoly byte * X ^ (8 * data.length) + messagePoly data

theorem bytePoly_eq (byte : UInt8) :
    bytePoly byte = Lfsr.poly (Lfsr.lowBits 8 byte.toBitVec) := by
  have hrange : List.range 8 = [0, 1, 2, 3, 4, 5, 6, 7] := rfl
  simp only [bytePoly, Finset.sum_range_succ, Finset.range_zero, Finset.sum_empty, Lfsr.lowBits,
    hrange, List.map_cons, List.map_nil, Lfsr.poly, List.length_cons, List.length_nil]
  ring

theorem messagePoly_eq (data : Bytes) : messagePoly data = Lfsr.poly (bits data) := by
  induction data with
  | nil => rfl
  | cons byte data ih =>
      rw [messagePoly, ih, bits_cons, Lfsr.poly_append, bits_length, bytePoly_eq, mul_comm]

theorem crcPoly_eq_modulus : crcPoly = Lfsr.modulus crcTaps := by
  have hbits : Lfsr.lowBits 32 crcTaps =
      [false, false, false, false, false, true, false, false,
        true, true, false, false, false, false, false, true,
        false, false, false, true, true, true, false, true,
        true, false, true, true, false, true, true, true] := by decide
  simp only [crcPoly, Lfsr.modulus, Lfsr.wordPoly, hbits, Lfsr.poly, List.length_cons,
    List.length_nil, Lfsr.bit_false, Lfsr.bit_true]
  ring

theorem wordPoly_allOnes :
    Lfsr.wordPoly (BitVec.allOnes 32) = ∑ i ∈ Finset.range 32, X ^ i := by
  have hbits : Lfsr.lowBits 32 (BitVec.allOnes 32) = List.replicate 32 true := by decide
  rw [Lfsr.wordPoly, hbits, Lfsr.poly_replicate_true]

/-- **`CalculateCRC32` is CRC-32.** -/
theorem calculateCRC32_eq_remainder (data : Bytes) :
    (calculateCRC32 data).toBitVec =
      ~~~(Lfsr.ofPoly 32 ((X ^ 32 * messagePoly data +
        X ^ (8 * data.length) * ∑ i ∈ Finset.range 32, X ^ i) %ₘ crcPoly)).reverse := by
  have hrun := Lfsr.poly_run crcTaps (BitVec.allOnes 32) (bits data)
  rw [bits_length, wordPoly_allOnes, ← messagePoly_eq, ← crcPoly_eq_modulus] at hrun
  rw [calculateCRC32_toBitVec, ← hrun, Lfsr.ofPoly_wordPoly]

-- the published check value, for the digits from one to nine
example :
    calculateCRC32 [0x31, 0x32, 0x33, 0x34, 0x35, 0x36, 0x37, 0x38, 0x39] = 0xCBF43926 := by
  decide +kernel

end OpenEnclave.Protocol
