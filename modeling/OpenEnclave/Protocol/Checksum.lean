import OpenEnclave.Lib.Lfsr
import OpenEnclave.Protocol.Message

/-!
# Checksum — the CRC loop as a shift register

`CalculateCRC32` adds a byte to the low end of its register and takes
eight steps of `crc = (crc >> 1) ^ (0xEDB88320 & -(crc & 1))`. One such
step is the step of a 32-bit register with the taps `0xEDB88320`, the
negated low bit being the mask that adds them, so the byte loop feeds
the message in bit by bit, the least significant bit of each byte first
(`calculateCRC32_toBitVec`). The top tap is set, which is all a burst
needs to be detected.
-/

namespace OpenEnclave.Protocol

open ByteCodec Word

/-- The constant of the bit loop. -/
def crcTaps : BitVec 32 := 0xEDB88320#32

/-- The bits of a byte string in the order the loop takes them: bit `j`
is bit `j % 8`, from the least significant one, of byte `j / 8`. -/
def bits (data : Bytes) : List Bool := data.flatMap fun byte => Lfsr.lowBits 8 byte.toBitVec

@[simp] theorem bits_cons (byte : UInt8) (data : Bytes) :
    bits (byte :: data) = Lfsr.lowBits 8 byte.toBitVec ++ bits data := rfl

theorem bits_append (data data' : Bytes) : bits (data ++ data') = bits data ++ bits data' :=
  List.flatMap_append

@[simp] theorem bits_length (data : Bytes) : (bits data).length = 8 * data.length := by
  induction data with
  | nil => rfl
  | cons byte data ih =>
      rw [bits_cons, List.length_append, ih, Lfsr.lowBits_length, List.length_cons]
      omega

theorem lowBits_byte_injective {byte byte' : UInt8}
    (h : Lfsr.lowBits 8 byte.toBitVec = Lfsr.lowBits 8 byte'.toBitVec) : byte = byte' := by
  apply UInt8.toBitVec_inj.mp
  apply BitVec.eq_of_getLsbD_eq
  intro i hi
  have hbit := congrArg (·[i]?) h
  simp only [Lfsr.lowBits_getElem? _ hi, Option.some.injEq] at hbit
  exact hbit

theorem bits_injective {data data' : Bytes} (h : bits data = bits data') : data = data' := by
  induction data generalizing data' with
  | nil =>
      have hlen := congrArg List.length h
      simp only [bits_length, List.length_nil] at hlen
      exact (List.eq_nil_of_length_eq_zero (by omega)).symm
  | cons byte data ih =>
      cases data' with
      | nil =>
          have hlen := congrArg List.length h
          simp only [bits_length, List.length_nil, List.length_cons] at hlen
          omega
      | cons byte' data' =>
          rw [bits_cons, bits_cons] at h
          obtain ⟨hbyte, hrest⟩ := List.append_inj h (by simp)
          rw [lowBits_byte_injective hbyte, ih hrest]

/-! ## The bit loop -/

/-- `-(crc & 1)` is all ones or zero. -/
theorem neg_low_bit (r : BitVec 32) :
    -(r &&& 1#32) = if r.getLsbD 0 then BitVec.allOnes 32 else 0#32 := by
  have hand : r &&& 1#32 = if r.getLsbD 0 then 1#32 else 0#32 := by
    rw [BitVec.and_one_eq_setWidth_ofBool_getLsbD]
    cases r.getLsbD 0 <;> rfl
  rw [hand]
  cases r.getLsbD 0 <;> rfl

theorem crcBit_toBitVec (crc : UInt32) :
    (crcBit crc).toBitVec = Lfsr.shift crcTaps crc.toBitVec := by
  have hmask : (0xEDB88320 &&& -(crc &&& 1) : UInt32).toBitVec =
      if crc.toBitVec.getLsbD 0 then crcTaps else 0#32 := by
    rw [UInt32.toBitVec_and, UInt32.toBitVec_neg, UInt32.toBitVec_and,
      show (1 : UInt32).toBitVec = 1#32 from rfl, neg_low_bit]
    split
    · exact BitVec.and_allOnes
    · exact BitVec.and_zero
  rw [crcBit, UInt32.toBitVec_xor, hmask, Lfsr.shift]
  rfl

theorem iterate_crcBit_toBitVec (n : Nat) (crc : UInt32) :
    (crcBit^[n] crc).toBitVec = (Lfsr.shift crcTaps)^[n] crc.toBitVec := by
  induction n generalizing crc with
  | zero => rfl
  | succ n ih =>
      rw [Function.iterate_succ_apply, Function.iterate_succ_apply, ih, crcBit_toBitVec]

/-- One turn of the byte loop feeds in the eight bits of the byte. -/
theorem crcByte_toBitVec (crc : UInt32) (byte : UInt8) :
    (crcByte crc byte).toBitVec =
      Lfsr.run crcTaps crc.toBitVec (Lfsr.lowBits 8 byte.toBitVec) := by
  have hword : byte.toUInt32.toBitVec = byte.toBitVec.setWidth 32 := rfl
  have hbits : Lfsr.lowBits 8 (byte.toBitVec.setWidth 32) = Lfsr.lowBits 8 byte.toBitVec := by
    apply List.map_congr_left
    intro i hi
    have hi : i < 32 := by
      have := List.mem_range.mp hi
      omega
    simp [hi]
  -- no bit of the byte stands above the eight that are fed in
  have hrest : byte.toBitVec.setWidth 32 >>> 8 = 0#32 := by
    apply BitVec.eq_of_getLsbD_eq
    intro i _
    simp
  rw [crcByte, iterate_crcBit_toBitVec, UInt32.toBitVec_xor, hword, Lfsr.iterate_shift_xor,
    hbits, hrest, BitVec.xor_zero]

theorem foldl_crcByte_toBitVec (data : Bytes) (crc : UInt32) :
    (data.foldl crcByte crc).toBitVec = Lfsr.run crcTaps crc.toBitVec (bits data) := by
  induction data generalizing crc with
  | nil => rfl
  | cons byte data ih =>
      rw [List.foldl_cons, ih, crcByte_toBitVec, bits_cons, Lfsr.run_append]

/-- **The checksum is the register's.** It starts with all ones, takes
the message bit by bit, and is complemented. -/
theorem calculateCRC32_toBitVec (data : Bytes) :
    (calculateCRC32 data).toBitVec =
      ~~~(Lfsr.run crcTaps (BitVec.allOnes 32) (bits data)) := by
  rw [calculateCRC32, UInt32.toBitVec_not, foldl_crcByte_toBitVec]
  rfl

theorem calculateCRC32_eq_iff (data data' : Bytes) :
    calculateCRC32 data = calculateCRC32 data' ↔
      Lfsr.run crcTaps (BitVec.allOnes 32) (bits data) =
        Lfsr.run crcTaps (BitVec.allOnes 32) (bits data') := by
  rw [← UInt32.toBitVec_inj, calculateCRC32_toBitVec, calculateCRC32_toBitVec, BitVec.not_inj]

theorem crcTaps_msb : crcTaps.msb = true := by decide

/-- **Every burst of at most 32 bits changes the checksum**, in payloads
of any length and at any bit position. -/
theorem calculateCRC32_ne_of_burst {data data' : Bytes} {start : Nat} (hne : data' ≠ data)
    (hburst : DiffersOnlyAt (fun j => start ≤ j ∧ j < start + 32) (bits data) (bits data')) :
    calculateCRC32 data' ≠ calculateCRC32 data := by
  intro h
  have hbits : bits data' ≠ bits data := fun hb => hne (bits_injective hb)
  exact Lfsr.run_ne_of_burst crcTaps_msb _ hbits hburst ((calculateCRC32_eq_iff _ _).mp h)

end OpenEnclave.Protocol
