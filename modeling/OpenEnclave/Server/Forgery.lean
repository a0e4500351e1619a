import OpenEnclave.Server.Secrets
import Mathlib.Data.FinEnum
import Mathlib.Data.Fintype.BigOperators
import Mathlib.Data.Set.Card

/-!
# Forgery — the payloads a header lets through

The checksum finds every short burst, and by the same argument it stands
in nobody's way. Four payload bytes in a row drive the register to any
value, each to its own (`calculateCRC32_window_bijective`). Whoever
rewrites a payload has to give up four bytes of it, anywhere, and the old
header validates the result. Counted over a whole length, a header lets
through one payload in `2 ^ 32`, no more and no fewer
(`validate_ncard`).

For the server this means that a store can be rewritten on its way
(`store_rewritten`): the header, the key and the size stay, and all of
the data but four bytes is the rewriter's choice.
-/

namespace OpenEnclave.Protocol

open ByteCodec

/-! ## Four bytes against the register -/

/-- At most four bytes can be read back from the checksum, if the rest of
the payload is known. -/
theorem window_eq_of_crc {front window window' back : Bytes}
    (hlen : window'.length = window.length) (hle : window.length ≤ 4)
    (h : calculateCRC32 (front ++ (window ++ back)) =
      calculateCRC32 (front ++ (window' ++ back))) : window = window' := by
  rw [calculateCRC32_eq_iff] at h
  simp only [bits_append, Lfsr.run_append] at h
  have hwindow := Lfsr.run_injective crcTaps_msb _ h
  refine bits_injective (Lfsr.run_injective_bits crcTaps_msb _ ?_ ?_ hwindow)
  · rw [bits_length, bits_length, hlen]
  · rw [bits_length]
    omega

theorem card_byte : Fintype.card UInt8 = 256 := by
  rw [← FinEnum.card_eq_fintypeCard]
  rfl

/-- **Every checksum is reached by exactly one choice of four bytes**,
whatever stands before and after them. -/
theorem calculateCRC32_window_bijective (front back : Bytes) :
    Function.Bijective fun window : List.Vector UInt8 4 =>
      calculateCRC32 (front ++ (window.toList ++ back)) := by
  rw [Fintype.bijective_iff_injective_and_card]
  constructor
  · intro window window' h
    apply List.Vector.toList_injective
    exact window_eq_of_crc (by simp) (by simp) h
  · have hword : Fintype.card UInt32 = 2 ^ 32 := by
      rw [← FinEnum.card_eq_fintypeCard]
      rfl
    rw [card_vector, card_byte, hword]
    norm_num

/-! ## What a header lets through -/

/-- A payload of the announced length is validated if its checksum is the
header's. -/
theorem validate_iff_crc {header : MessageHeader} {payload payload' : Bytes}
    (hv : validate header payload = true) (hlen : payload'.length = payload.length) :
    validate header payload' = true ↔ calculateCRC32 payload' = header.checksum := by
  obtain ⟨hmagic, hversion, hsize, -⟩ := validate_iff.mp hv
  rw [validate_iff, hlen]
  exact ⟨fun h => h.2.2.2, fun h => ⟨hmagic, hversion, hsize, h⟩⟩

/-- **A payload can be rewritten under its header**: with any bytes before
and after, there is exactly one choice of the four bytes in between that
the header validates. -/
theorem exists_unique_window {header : MessageHeader} {payload : Bytes}
    (hv : validate header payload = true) (front back : Bytes)
    (hlen : front.length + 4 + back.length = payload.length) :
    ∃! window : List.Vector UInt8 4,
      validate header (front ++ (window.toList ++ back)) = true := by
  have hiff : ∀ window : List.Vector UInt8 4,
      validate header (front ++ (window.toList ++ back)) = true ↔
        calculateCRC32 (front ++ (window.toList ++ back)) = header.checksum := by
    intro window
    apply validate_iff_crc hv
    simp only [List.length_append, List.Vector.toList_length]
    omega
  simp only [hiff]
  exact (calculateCRC32_window_bijective front back).existsUnique header.checksum

/-- All but at most four bytes determine the rest of a validated
payload. -/
theorem eq_of_validate {header : MessageHeader} {front tail tail' : Bytes}
    (hv : validate header (front ++ tail) = true) (hv' : validate header (front ++ tail') = true)
    (hle : tail.length ≤ 4) : tail' = tail := by
  obtain ⟨-, -, hsize, hcrc⟩ := validate_iff.mp hv
  obtain ⟨-, -, hsize', hcrc'⟩ := validate_iff.mp hv'
  rw [List.length_append] at hsize hsize'
  have hsame := hcrc.trans hcrc'.symm
  rw [← List.append_nil tail, ← List.append_nil tail'] at hsame
  exact (window_eq_of_crc (by omega) hle hsame).symm

/-- There are `256 ^ n` byte strings of length `n`. -/
theorem ncard_length (n : Nat) : {bytes : Bytes | bytes.length = n}.ncard = 256 ^ n := by
  rw [← Nat.card_coe_set_eq]
  show Nat.card (List.Vector UInt8 n) = 256 ^ n
  rw [Nat.card_eq_fintype_card, card_vector, card_byte]

/-- **One payload in `2 ^ 32`.** Under a header that validates some
payload, exactly `256 ^ (n - 4)` of the `256 ^ n` payloads of its length
are validated; up to four bytes, that one only. -/
theorem validate_ncard {header : MessageHeader} {payload : Bytes}
    (hv : validate header payload = true) :
    {other : Bytes | validate header other = true}.ncard = 256 ^ (payload.length - 4) := by
  have hlength : ∀ {other : Bytes}, validate header other = true →
      other.length = payload.length := by
    intro other hother
    rw [(validate_iff.mp hother).2.2.1, (validate_iff.mp hv).2.2.1]
  rw [← ncard_length]
  -- all but the last four bytes can be anything, and they determine the rest
  refine Set.BijOn.ncard_eq (f := List.take (payload.length - 4)) ⟨?_, ?_, ?_⟩
  · intro other hother
    show (other.take _).length = _
    rw [List.length_take, hlength hother]
    omega
  · intro other hother other' hother' heq
    have hv₁ : validate header (other.take (payload.length - 4) ++
        other.drop (payload.length - 4)) = true := by rwa [List.take_append_drop]
    have hv₂ : validate header (other.take (payload.length - 4) ++
        other'.drop (payload.length - 4)) = true := by
      rw [show other.take _ = other'.take _ from heq, List.take_append_drop]
      exact hother'
    have htail := eq_of_validate hv₁ hv₂ (by rw [List.length_drop, hlength hother]; omega)
    rw [← List.take_append_drop (payload.length - 4) other,
      ← List.take_append_drop (payload.length - 4) other', htail, heq]
  · intro front hfront
    have hfront : front.length = payload.length - 4 := hfront
    by_cases hfour : 4 ≤ payload.length
    · obtain ⟨window, hwindow, -⟩ := exists_unique_window hv front []
        (by rw [List.length_nil, hfront]; omega)
      exact ⟨_, hwindow, by rw [← hfront, List.take_left]⟩
    · have hnil : front = [] := List.eq_nil_of_length_eq_zero (by omega)
      have hzero : payload.length - 4 = 0 := by omega
      exact ⟨payload, hv, by rw [hzero, hnil, List.take_zero]⟩

/-- The four zero bytes: no other payload of that length has their
header. -/
theorem validate_ncard_four_zeros :
    let payload : Bytes := [0, 0, 0, 0]
    let header : MessageHeader :=
      ⟨MessageHeader.MAGIC, MessageHeader.VERSION, 1, 0, 4, calculateCRC32 payload⟩
    {other : Bytes | validate header other = true}.ncard = 1 := by
  intro payload header
  have hv : validate header payload = true := by decide +kernel
  exact validate_ncard hv

end OpenEnclave.Protocol

/-! ## A store rewritten on its way -/

namespace OpenEnclave.Server

open ByteCodec Protocol

section
variable [Host]

/-- The data stands at the end of a store's payload, behind its size. -/
theorem storeData_serialize (key data : Bytes) :
    StoreDataRequest.serialize { key, data } =
      (sized 4 key ++ nativeBytes 4 data.length) ++ data := by
  rw [StoreDataRequest.serialize, writeBytes_eq, writeString_eq]
  simp [sized]

/-- What the server makes of a frame with the header of a store and
another payload that validates; what stands behind the store is ignored. -/
theorem commandOf_store {header : MessageHeader} {key data trailing : Bytes}
    {incoming : Chunked UInt8} (hfilled : HeaderFilled incoming)
    (helems : incoming.elems =
      header.serialize ++ (StoreDataRequest.serialize { key, data } ++ trailing))
    (hcommand : CommandType.ofByte? header.commandType = some .storeData)
    (hkey : key.length ≤ maxStringSize) (hdata : data.length ≤ maxBytesSize)
    (hmax : header.payloadSize.toNat ≤ MAX_MESSAGE_SIZE)
    (hv : validate header (StoreDataRequest.serialize { key, data } ++ trailing) = true) :
    commandOf incoming = .ok (.call (.storeData key data)) := by
  have hlen := (validate_iff.mp hv).2.2.1
  have hframe : Framed incoming.elems incoming.elems
      ⟨header, StoreDataRequest.serialize { key, data } ++ trailing⟩ := by
    have hcap : MAX_MESSAGE_SIZE < 2 ^ 32 - 16 := by decide
    refine ⟨List.prefix_refl _, Request.deserialize_ok_iff.mpr ⟨?_, hlen.symm, ?_⟩, hv, hmax⟩
    · rw [helems, Request.serialize]
    · show (StoreDataRequest.serialize { key, data } ++ trailing).length < _
      omega
  have hdecode : StoreDataRequest.deserialize
      (StoreDataRequest.serialize { key, data } ++ trailing) = .ok { key, data } :=
    StoreDataRequest.exact.decode_append (a := { key, data }) trailing ⟨hkey, hdata⟩
  rw [commandOf, receive_of_headerFilled hfilled, parseStream_ok_iff.mpr ⟨_, hframe⟩]
  show decodeCommand _ = _
  simp only [decodeCommand, hcommand, callOf, hdecode]

/-- A frame that comes to a command has been validated. -/
theorem validate_of_commandOf {header : MessageHeader} {payload : Bytes} {command : Command}
    (hmagic : header.magic = MessageHeader.MAGIC)
    (hversion : header.version = MessageHeader.VERSION)
    (hsize : payload.length = header.payloadSize.toNat)
    (h : commandOf (.whole (header.serialize ++ payload)) = .ok command) :
    validate header payload = true := by
  have hdrop : (header.serialize ++ payload).drop 16 = payload :=
    List.drop_left' (MessageHeader.serialize_length _)
  have hheaded : Headed (header.serialize ++ payload) header :=
    ⟨deserialize_header_take.mpr (by rw [hdrop]), hmagic, hversion⟩
  have hannounced : announced (header.serialize ++ payload) header = ⟨header, payload⟩ := by
    rw [announced, hdrop, ← hsize, List.take_length]
  rw [commandOf, receive_of_headerFilled (headerFilled_whole _), Chunked.elems_whole,
    parseStream_of_headed hheaded, hannounced] at h
  split at h
  · rename_i hvalid
    exact hvalid.2
  · cases h

/-- **A store can be rewritten on its way.** Under the header and the key
of a store the server accepts, with any data of its size around them and
whatever it carries behind the data, there is exactly one choice of four
bytes with which the server executes the rewritten store. -/
theorem store_rewritten {request : Request} {key data trailing front back : Bytes}
    (hv : validateRequest request = true)
    (hcommand : CommandType.ofByte? request.header.commandType = some .storeData)
    (hpayload : request.payload = StoreDataRequest.serialize { key, data } ++ trailing)
    (hmax : request.payload.length ≤ MAX_MESSAGE_SIZE)
    (hkey : key.length ≤ maxStringSize) (hdata : data.length ≤ maxBytesSize)
    (hlen : front.length + 4 + back.length = data.length) :
    ∃! window : List.Vector UInt8 4, ∀ incoming : Chunked UInt8, HeaderFilled incoming →
      incoming.elems = request.header.serialize ++
        (StoreDataRequest.serialize { key, data := front ++ (window.toList ++ back) } ++
          trailing) →
      commandOf incoming = .ok (.call (.storeData key (front ++ (window.toList ++ back)))) := by
  have hsame : ∀ window : List.Vector UInt8 4,
      (front ++ (window.toList ++ back)).length = data.length := by
    intro window
    simp only [List.length_append, List.Vector.toList_length]
    omega
  have hwindow : ∀ window : List.Vector UInt8 4,
      StoreDataRequest.serialize { key, data := front ++ (window.toList ++ back) } ++ trailing =
        (sized 4 key ++ nativeBytes 4 data.length ++ front) ++
          (window.toList ++ (back ++ trailing)) := by
    intro window
    rw [storeData_serialize, hsame]
    simp only [List.append_assoc]
  have hvalid : validate request.header request.payload = true := hv
  obtain ⟨hmagic, hversion, hsize, -⟩ := validate_iff.mp hvalid
  obtain ⟨window, hforged, hunique⟩ := exists_unique_window hvalid
    (sized 4 key ++ nativeBytes 4 data.length ++ front) (back ++ trailing) (by
      rw [hpayload, storeData_serialize]
      simp only [List.length_append, sized_length, nativeBytes_length]
      omega)
  refine ⟨window, fun incoming hfilled helems => ?_, fun other hother => hunique other ?_⟩
  · refine commandOf_store hfilled helems hcommand hkey ?_ (hsize ▸ hmax) ?_
    · rw [hsame]
      exact hdata
    · rw [hwindow]
      exact hforged
  · -- a dispatched store has been validated
    have hdispatched := hother (.whole _) (headerFilled_whole _) (Chunked.elems_whole _)
    rw [hwindow other] at hdispatched
    refine validate_of_commandOf hmagic hversion ?_ hdispatched
    rw [← hsize, hpayload, storeData_serialize]
    simp only [List.length_append, List.Vector.toList_length, sized_length, nativeBytes_length]
    omega

end

/-- A store of `"Hello"` with a byte too many behind it can be turned into
one of a word with `J` in front. -/
theorem store_rewritten_hello :
    letI := Host.littleEndian
    let payload := StoreDataRequest.serialize
      { key := [0x6B], data := [0x48, 0x65, 0x6C, 0x6C, 0x6F] } ++ [0xFF]
    let request := sampleRequest .storeData payload
    validateRequest request = true ∧
      ∃! window : List.Vector UInt8 4, ∀ incoming : Chunked UInt8, HeaderFilled incoming →
        incoming.elems = request.header.serialize ++ (StoreDataRequest.serialize
          { key := [0x6B], data := [0x4A] ++ (window.toList ++ []) } ++ [0xFF]) →
        commandOf incoming =
          .ok (.call (.storeData [0x6B] ([0x4A] ++ (window.toList ++ [])))) := by
  let := Host.littleEndian
  intro payload request
  have hv : validateRequest request = true := by decide +kernel
  exact ⟨hv, store_rewritten hv rfl rfl (by decide +kernel) (by decide) (by decide) rfl⟩

end OpenEnclave.Server
