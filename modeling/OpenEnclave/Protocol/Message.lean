import OpenEnclave.Lib.Bytes
import Mathlib.Logic.Function.Iterate
import Mathlib.Tactic.Common

/-!
# Message — the wire format

The protocol of `protocol.hpp` and `protocol.cpp`: the 16-byte header,
requests and responses framed by it, the payloads of the five commands,
the checksum, and message validation. Serializers append to a vector,
readers work at an offset, as in the source.

Payload sizes are 32-bit and the framing checks add to them in 32-bit
unsigned arithmetic (`16 + payload_size`), which is why the fields are
`UInt32` and not numbers.
-/

namespace OpenEnclave.Protocol

open ByteCodec

/-! ## Commands and status codes -/

inductive CommandType where
  | loadModule
  | invokeFunction
  | storeData
  | retrieveData
  | getAttestation
  | shutdown
deriving DecidableEq, Repr

def CommandType.toByte : CommandType → UInt8
  | .loadModule => 1
  | .invokeFunction => 2
  | .storeData => 3
  | .retrieveData => 4
  | .getAttestation => 5
  | .shutdown => 255

/-- The `switch` over a command byte; `none` is its default case. -/
def CommandType.ofByte? : UInt8 → Option CommandType
  | 1 => some .loadModule
  | 2 => some .invokeFunction
  | 3 => some .storeData
  | 4 => some .retrieveData
  | 5 => some .getAttestation
  | 255 => some .shutdown
  | _ => none

@[simp] theorem CommandType.ofByte?_toByte (c : CommandType) :
    CommandType.ofByte? c.toByte = some c := by
  cases c <;> rfl

/-- An `enum class : uint8_t` that is also cast from bytes off the wire,
so every byte is a value of it. -/
structure ResponseStatus where
  code : UInt8
deriving DecidableEq, Repr

namespace ResponseStatus

def success : ResponseStatus := ⟨0⟩
def errorInvalidCommand : ResponseStatus := ⟨1⟩
def errorInvalidParams : ResponseStatus := ⟨2⟩
def errorExecutionFailed : ResponseStatus := ⟨3⟩
def errorNotFound : ResponseStatus := ⟨4⟩
def errorInternal : ResponseStatus := ⟨255⟩

end ResponseStatus

/-! ## The checksum -/

/-- One turn of the bit loop:
`crc = (crc >> 1) ^ (0xEDB88320 & -(crc & 1))`. -/
def crcBit (crc : UInt32) : UInt32 := (crc >>> 1) ^^^ (0xEDB88320 &&& -(crc &&& 1))

/-- One turn of the byte loop. -/
def crcByte (crc : UInt32) (byte : UInt8) : UInt32 := crcBit^[8] (crc ^^^ byte.toUInt32)

def calculateCRC32 (data : Bytes) : UInt32 := ~~~(data.foldl crcByte 0xFFFFFFFF)

/-- The checksum of the empty payload is the constant error replies
carry. -/
@[simp] theorem calculateCRC32_nil : calculateCRC32 [] = 0 := by decide

/-! ## Writers and readers -/

section
variable [Host]

def writeUInt32 (vec : Bytes) (value : UInt32) : Bytes := vec ++ nativeBytes 4 value.toNat
def writeUInt16 (vec : Bytes) (value : UInt16) : Bytes := vec ++ nativeBytes 2 value.toNat
def writeUInt64 (vec : Bytes) (value : UInt64) : Bytes := vec ++ nativeBytes 8 value.toNat

omit [Host] in
def writeUInt8 (vec : Bytes) (value : UInt8) : Bytes := vec ++ [value]

/-- The length is cast to 32 bits. -/
def writeBytes (vec bytes : Bytes) : Bytes :=
  writeUInt32 vec (UInt32.ofNat bytes.length) ++ bytes

def writeString (vec str : Bytes) : Bytes := writeBytes vec str

def readUInt32 : Reader UInt32 := (readNative 4).map UInt32.ofNat
def readUInt16 : Reader UInt16 := (readNative 2).map UInt16.ofNat

/-- Its bound check is `offset >= size`, and it indexes the vector. -/
def readUInt8 : Reader UInt8 := fun vec offset =>
  if offset ≥ vec.length then .error .rejected
  else match vec[offset]? with
    | some value => .ok (value, offset + 1)
    | none => .error .outOfBounds

/-- "Sanity check: max 1MB". -/
def maxStringSize : Nat := 1024 * 1024

/-- "Sanity check: max 10MB". -/
def maxBytesSize : Nat := 10 * 1024 * 1024

def readString : Reader Bytes := readSized 4 maxStringSize
def readBytes : Reader Bytes := readSized 4 maxBytesSize

theorem writeBytes_eq (vec bytes : Bytes) : writeBytes vec bytes = vec ++ sized 4 bytes := by
  rw [writeBytes, writeUInt32, UInt32.toNat_ofNat', sized, List.append_assoc,
    show (2 : Nat) ^ 32 = 256 ^ 4 by norm_num, nativeBytes_mod]

theorem writeString_eq (vec str : Bytes) : writeString vec str = vec ++ sized 4 str :=
  writeBytes_eq vec str

theorem exact_readUInt32 :
    Exact readUInt32 (fun v => nativeBytes 4 v.toNat) (fun _ => True) :=
  ((exact_readNative (by decide)).map (fun _ => UInt32.ofNat_toNat)
    (fun n hn => by rw [UInt32.toNat_ofNat']; omega)).congr (fun _ => rfl)
    (fun v => (iff_true_intro v.toNat_lt).symm)

theorem exact_readUInt16 :
    Exact readUInt16 (fun v => nativeBytes 2 v.toNat) (fun _ => True) :=
  ((exact_readNative (by decide)).map (fun _ => UInt16.ofNat_toNat)
    (fun n hn => by rw [UInt16.toNat_ofNat']; omega)).congr (fun _ => rfl)
    (fun v => (iff_true_intro v.toNat_lt).symm)

omit [Host] in
theorem exact_readUInt8 : Exact readUInt8 (fun v => [v]) (fun _ => True) where
  ok_iff := by
    intro vec offset v offset'
    simp only [readUInt8, true_and, List.length_singleton]
    by_cases h : offset < vec.length
    · rw [if_neg (by omega), List.getElem?_eq_getElem h]
      simp only [Except.ok.injEq, Prod.mk.injEq]
      rw [List.drop_eq_getElem_cons h]
      constructor
      · intro hr
        obtain ⟨rfl, rfl⟩ := hr
        exact ⟨rfl, rfl⟩
      · intro hr
        obtain ⟨rfl, hd⟩ := hr
        rw [List.singleton_append, List.cons.injEq] at hd
        exact ⟨hd.1, rfl⟩
    · rw [if_pos (by omega)]
      constructor
      · intro hc; cases hc
      · intro hr
        obtain ⟨-, hd⟩ := hr
        rw [List.drop_eq_nil_of_le (by omega)] at hd
        cases hd
  inBounds := by
    intro vec offset
    rw [readUInt8]
    split
    · simp
    · rw [List.getElem?_eq_getElem (by omega)]
      simp

theorem exact_readString : Exact readString (sized 4) (·.length ≤ maxStringSize) :=
  exact_readSized (by decide) (by decide)

theorem exact_readBytes : Exact readBytes (sized 4) (·.length ≤ maxBytesSize) :=
  exact_readSized (by decide) (by decide)

end

/-! ## The header -/

@[ext] structure MessageHeader where
  magic : UInt32
  version : UInt16
  commandType : UInt8
  flags : UInt8
  payloadSize : UInt32
  checksum : UInt32
deriving DecidableEq, Repr

namespace MessageHeader

/-- "OESK". -/
def MAGIC : UInt32 := 0x4F45534B
def VERSION : UInt16 := 1

variable [Host]

def serialize (h : MessageHeader) : Bytes :=
  let result := writeUInt32 [] h.magic
  let result := writeUInt16 result h.version
  let result := writeUInt8 result h.commandType
  let result := writeUInt8 result h.flags
  let result := writeUInt32 result h.payloadSize
  writeUInt32 result h.checksum

def deserialize (data : Bytes) : Except ReadFault MessageHeader :=
  if data.length < 16 then .error .rejected else do
    let (magic, offset) ← readUInt32 data 0
    let (version, offset) ← readUInt16 data offset
    let (commandType, offset) ← readUInt8 data offset
    let (flags, offset) ← readUInt8 data offset
    let (payloadSize, offset) ← readUInt32 data offset
    let (checksum, _) ← readUInt32 data offset
    return { magic, version, commandType, flags, payloadSize, checksum }

@[simp] theorem serialize_length (h : MessageHeader) : h.serialize.length = 16 := by
  simp [serialize, writeUInt32, writeUInt16, writeUInt8]

/-- The six field readers, one after the other. -/
def readFields : Reader (UInt32 × UInt16 × UInt8 × UInt8 × UInt32 × UInt32) :=
  readUInt32.pair (readUInt16.pair (readUInt8.pair (readUInt8.pair
    (readUInt32.pair readUInt32))))

theorem exact_readFields :
    Exact readFields
      (fun p => serialize ⟨p.1, p.2.1, p.2.2.1, p.2.2.2.1, p.2.2.2.2.1, p.2.2.2.2.2⟩)
      (fun _ => True) :=
  (exact_readUInt32.pair (exact_readUInt16.pair (exact_readUInt8.pair
    (exact_readUInt8.pair (exact_readUInt32.pair exact_readUInt32))))).congr
    (fun p => by
      simp only [serialize, writeUInt32, writeUInt16, writeUInt8, List.nil_append,
        List.append_assoc])
    (fun p => by simp)

theorem deserialize_eq (data : Bytes) :
    deserialize data =
      if data.length < 16 then .error .rejected else do
        let (p, _) ← readFields data 0
        return ⟨p.1, p.2.1, p.2.2.1, p.2.2.2.1, p.2.2.2.2.1, p.2.2.2.2.2⟩ := by
  rw [deserialize]
  split
  · rfl
  · simp only [readFields, Reader.pair, bind, Except.bind, pure, Except.pure]
    cases readUInt32 data 0 with
    | error e => rfl
    | ok p₁ =>
    simp only
    cases readUInt16 data p₁.2 with
    | error e => rfl
    | ok p₂ =>
    simp only
    cases readUInt8 data p₂.2 with
    | error e => rfl
    | ok p₃ =>
    simp only
    cases readUInt8 data p₃.2 with
    | error e => rfl
    | ok p₄ =>
    simp only
    cases readUInt32 data p₄.2 with
    | error e => rfl
    | ok p₅ =>
    simp only
    cases readUInt32 data p₅.2 with
    | error e => rfl
    | ok p₆ => rfl

/-- **The header decoder is exact**: it accepts what starts with a
serialized header, whatever follows. -/
theorem deserialize_ok_iff {data : Bytes} {h : MessageHeader} :
    deserialize data = .ok h ↔ data = h.serialize ++ data.drop 16 := by
  rw [deserialize_eq]
  split
  · rename_i hlt
    constructor
    · intro hc; cases hc
    · intro hd
      have hlen := congrArg List.length hd
      simp only [List.length_append, serialize_length] at hlen
      omega
  · simp only [bind_ok_iff, Prod.exists, pure, Except.pure, Except.ok.injEq,
      exact_readFields.ok_iff, true_and, Nat.zero_add, List.drop_zero, serialize_length]
    constructor
    · intro hr
      obtain ⟨m, v, c, f, p, k, off, ⟨rfl, hd⟩, rfl⟩ := hr
      exact hd
    · intro hd
      exact ⟨h.magic, h.version, h.commandType, h.flags, h.payloadSize, h.checksum, 16,
        ⟨rfl, hd⟩, rfl⟩

theorem deserialize_ne_outOfBounds (data : Bytes) :
    deserialize data ≠ .error .outOfBounds := by
  rw [deserialize_eq]
  split
  · simp
  · exact bind_ne_error (exact_readFields.inBounds data 0) (fun p _ => by
      simp [pure, Except.pure])

theorem serialize_inj {h h' : MessageHeader} {rest rest' : Bytes}
    (heq : h.serialize ++ rest = h'.serialize ++ rest') : h = h' ∧ rest = rest' := by
  have hlen : h.serialize.length = h'.serialize.length := by simp
  obtain ⟨hh, hr⟩ := List.append_inj heq hlen
  have h₁ : deserialize h.serialize = .ok h := deserialize_ok_iff.mpr (by simp)
  have h₂ : deserialize h'.serialize = .ok h' := deserialize_ok_iff.mpr (by simp)
  rw [hh, h₂] at h₁
  exact ⟨(Except.ok.inj h₁).symm, hr⟩

end MessageHeader

end OpenEnclave.Protocol
