import OpenEnclave.Protocol.Message

/-!
# Payload — the command payloads

The payload codecs of the five commands (`protocol.cpp`). Each decoder
reads its fields from the front and ignores what follows them, and it is
exact: a reader of the fields, one after the other, for which `Exact`
holds (`payload_decoders_accept_exactly`). For every message whose
fields can be written with 32-bit lengths, decoding its own
serialization is settled in both directions: it gives the message back
when the fields are within the reader's caps and rejects it when one of
them is not.
-/

namespace OpenEnclave.Protocol

open ByteCodec

structure LoadModuleRequest where
  moduleData : Bytes
deriving DecidableEq, Repr

structure LoadModuleResponse where
  moduleHandle : UInt64
deriving DecidableEq, Repr

structure InvokeFunctionRequest where
  moduleHandle : UInt64
  functionName : Bytes
  params : Bytes
deriving DecidableEq, Repr

structure StoreDataRequest where
  key : Bytes
  data : Bytes
deriving DecidableEq, Repr

structure RetrieveDataRequest where
  key : Bytes
deriving DecidableEq, Repr

section
variable [Host]

def LoadModuleRequest.serialize (m : LoadModuleRequest) : Bytes :=
  writeBytes [] m.moduleData

def LoadModuleRequest.deserialize (data : Bytes) : Except ReadFault LoadModuleRequest := do
  let (moduleData, _) ← readBytes data 0
  return { moduleData }

def LoadModuleResponse.serialize (m : LoadModuleResponse) : Bytes :=
  writeUInt64 [] m.moduleHandle

def LoadModuleResponse.deserialize (data : Bytes) : Except ReadFault LoadModuleResponse :=
  if data.length < 8 then .error .rejected else do
    return { moduleHandle := UInt64.ofNat (← load data 0 8) }

def InvokeFunctionRequest.serialize (m : InvokeFunctionRequest) : Bytes :=
  let result := writeUInt64 [] m.moduleHandle
  let result := writeString result m.functionName
  writeBytes result m.params

def InvokeFunctionRequest.deserialize (data : Bytes) :
    Except ReadFault InvokeFunctionRequest :=
  if data.length < 8 then .error .rejected else do
    let moduleHandle := UInt64.ofNat (← load data 0 8)
    let (functionName, offset) ← readString data 8
    let (params, _) ← readBytes data offset
    return { moduleHandle, functionName, params }

def StoreDataRequest.serialize (m : StoreDataRequest) : Bytes :=
  let result := writeString [] m.key
  writeBytes result m.data

def StoreDataRequest.deserialize (data : Bytes) : Except ReadFault StoreDataRequest := do
  let (key, offset) ← readString data 0
  let (data, _) ← readBytes data offset
  return { key, data }

def RetrieveDataRequest.serialize (m : RetrieveDataRequest) : Bytes :=
  writeString [] m.key

def RetrieveDataRequest.deserialize (data : Bytes) :
    Except ReadFault RetrieveDataRequest := do
  let (key, _) ← readString data 0
  return { key }

/-! ## The grammars -/

/-- The module handle, behind the check for its eight bytes. -/
def readUInt64 : Reader UInt64 := (readNative 8).map UInt64.ofNat

theorem exact_readUInt64 :
    Exact readUInt64 (fun v => nativeBytes 8 v.toNat) (fun _ => True) :=
  ((exact_readNative (by decide)).map (fun _ => UInt64.ofNat_toNat)
    (fun n hn => by rw [UInt64.toNat_ofNat']; omega)).congr (fun _ => rfl)
    (fun v => (iff_true_intro v.toNat_lt).symm)

theorem LoadModuleRequest.exact :
    ExactDecoder LoadModuleRequest.deserialize LoadModuleRequest.serialize
      (fun m => m.moduleData.length ≤ maxBytesSize) := by
  refine Exact.message exact_readBytes .mk
    LoadModuleRequest.moduleData (fun _ => rfl) (fun _ => rfl) (fun data => ?_)
    (fun m => ?_) (fun _ => .rfl)
  · rw [deserialize, Reader.decode, Reader.map]
    cases readBytes data 0 <;> rfl
  · rw [serialize, writeBytes_eq, List.nil_append]

theorem LoadModuleResponse.exact :
    ExactDecoder LoadModuleResponse.deserialize LoadModuleResponse.serialize
      (fun _ => True) := by
  refine Exact.message exact_readUInt64 .mk
    LoadModuleResponse.moduleHandle (fun _ => rfl) (fun _ => rfl) (fun data => ?_)
    (fun m => ?_) (fun _ => .rfl)
  · rw [deserialize, Reader.decode, Reader.map, readUInt64, Reader.map, readNative, Nat.zero_add]
    by_cases hlen : data.length < 8
    · rw [if_pos hlen, if_pos hlen]
      rfl
    · rw [if_neg hlen, if_neg hlen]
      cases load data 0 8 <;> rfl
  · rw [serialize, writeUInt64, List.nil_append]

theorem RetrieveDataRequest.exact :
    ExactDecoder RetrieveDataRequest.deserialize RetrieveDataRequest.serialize
      (fun m => m.key.length ≤ maxStringSize) := by
  refine Exact.message exact_readString .mk
    RetrieveDataRequest.key (fun _ => rfl) (fun _ => rfl) (fun data => ?_)
    (fun m => ?_) (fun _ => .rfl)
  · rw [deserialize, Reader.decode, Reader.map]
    cases readString data 0 <;> rfl
  · rw [serialize, writeString_eq, List.nil_append]

theorem StoreDataRequest.exact :
    ExactDecoder StoreDataRequest.deserialize StoreDataRequest.serialize
      (fun m => m.key.length ≤ maxStringSize ∧ m.data.length ≤ maxBytesSize) := by
  refine Exact.message (exact_readString.pair exact_readBytes)
    (fun p => ⟨p.1, p.2⟩) (fun m => (m.key, m.data))
    (fun _ => rfl) (fun _ => rfl) (fun data => ?_) (fun m => ?_) (fun _ => .rfl)
  · rw [deserialize, Reader.decode, Reader.map, Reader.pair]
    cases readString data 0 with
    | error fault => rfl
    | ok p =>
        simp only [bind, Except.bind]
        cases readBytes data p.2 <;> rfl
  · rw [serialize, writeBytes_eq, writeString_eq, List.nil_append]

theorem InvokeFunctionRequest.exact :
    ExactDecoder InvokeFunctionRequest.deserialize InvokeFunctionRequest.serialize
      (fun m => m.functionName.length ≤ maxStringSize ∧ m.params.length ≤ maxBytesSize) := by
  refine Exact.message (exact_readUInt64.pair (exact_readString.pair exact_readBytes))
    (fun p => ⟨p.1, p.2.1, p.2.2⟩) (fun m => (m.moduleHandle, m.functionName, m.params))
    (fun _ => rfl) (fun _ => rfl) (fun data => ?_) (fun m => ?_) (fun m => ?_)
  · simp only [deserialize, Reader.decode, Reader.map, Reader.pair, readUInt64, readNative,
      Nat.zero_add]
    by_cases hlen : data.length < 8
    · rw [if_pos hlen, if_pos hlen]
      rfl
    · rw [if_neg hlen, if_neg hlen]
      cases load data 0 8 with
      | error fault => rfl
      | ok handle =>
          simp only [bind, Except.bind, pure, Except.pure]
          cases readString data 8 with
          | error fault => rfl
          | ok p =>
              simp only
              cases readBytes data p.2 <;> rfl
  · rw [serialize, writeBytes_eq, writeString_eq, writeUInt64, List.nil_append,
      List.append_assoc]
  · exact (iff_of_eq (true_and _)).symm

/-- **The payload decoders accept exactly their grammar**: the messages
whose strings have at most 1 MiB and whose byte fields at most 10 MiB,
each behind its own encoding and before anything at all. -/
theorem payload_decoders_accept_exactly :
    ExactDecoder LoadModuleRequest.deserialize LoadModuleRequest.serialize
        (fun m => m.moduleData.length ≤ maxBytesSize) ∧
      ExactDecoder LoadModuleResponse.deserialize LoadModuleResponse.serialize
        (fun _ => True) ∧
      ExactDecoder InvokeFunctionRequest.deserialize InvokeFunctionRequest.serialize
        (fun m => m.functionName.length ≤ maxStringSize ∧ m.params.length ≤ maxBytesSize) ∧
      ExactDecoder StoreDataRequest.deserialize StoreDataRequest.serialize
        (fun m => m.key.length ≤ maxStringSize ∧ m.data.length ≤ maxBytesSize) ∧
      ExactDecoder RetrieveDataRequest.deserialize RetrieveDataRequest.serialize
        (fun m => m.key.length ≤ maxStringSize) :=
  ⟨LoadModuleRequest.exact, LoadModuleResponse.exact, InvokeFunctionRequest.exact,
    StoreDataRequest.exact, RetrieveDataRequest.exact⟩

/-! ## Decoding a serialization -/

/-- A length-prefixed field read where it was written: the field, or a
rejection above the cap. -/
theorem readSized_field {max : Nat} (hmax : max < 256 ^ 4) {field : Bytes}
    (hfit : field.length < 2 ^ 32) {vec rest : Bytes} {off : Nat}
    (h : vec.drop off = sized 4 field ++ rest) :
    readSized 4 max vec off =
      if field.length ≤ max then .ok (field, off + (4 + field.length))
      else .error .rejected := by
  split
  · rename_i hle
    refine (exact_readSized (by decide) hmax).ok_iff.mpr ⟨hle, by simp, ?_⟩
    rw [← List.drop_drop, h, List.drop_left' (sized_length 4 field)]
  · exact readSized_long (by decide) (by omega) (by omega) h

theorem readString_field {field : Bytes} (hfit : field.length < 2 ^ 32) {vec rest : Bytes}
    {off : Nat} (h : vec.drop off = sized 4 field ++ rest) :
    readString vec off =
      if field.length ≤ maxStringSize then .ok (field, off + (4 + field.length))
      else .error .rejected :=
  readSized_field (by decide) hfit h

theorem readBytes_field {field : Bytes} (hfit : field.length < 2 ^ 32) {vec rest : Bytes}
    {off : Nat} (h : vec.drop off = sized 4 field ++ rest) :
    readBytes vec off =
      if field.length ≤ maxBytesSize then .ok (field, off + (4 + field.length))
      else .error .rejected :=
  readSized_field (by decide) hfit h

theorem LoadModuleRequest.deserialize_serialize {m : LoadModuleRequest}
    (hfit : m.moduleData.length < 2 ^ 32) :
    deserialize m.serialize =
      if m.moduleData.length ≤ maxBytesSize then .ok m else .error .rejected := by
  have hs : m.serialize.drop 0 = sized 4 m.moduleData ++ [] := by
    rw [serialize, writeBytes_eq, List.drop_zero, List.nil_append, List.append_nil]
  rw [deserialize, readBytes_field hfit hs]
  split <;> rfl

theorem RetrieveDataRequest.deserialize_serialize {m : RetrieveDataRequest}
    (hfit : m.key.length < 2 ^ 32) :
    deserialize m.serialize =
      if m.key.length ≤ maxStringSize then .ok m else .error .rejected := by
  have hs : m.serialize.drop 0 = sized 4 m.key ++ [] := by
    rw [serialize, writeString_eq, List.drop_zero, List.nil_append, List.append_nil]
  rw [deserialize, readString_field hfit hs]
  split <;> rfl

theorem StoreDataRequest.deserialize_serialize {m : StoreDataRequest}
    (hkey : m.key.length < 2 ^ 32) (hdata : m.data.length < 2 ^ 32) :
    deserialize m.serialize =
      if m.key.length ≤ maxStringSize ∧ m.data.length ≤ maxBytesSize then .ok m
      else .error .rejected := by
  have hs : m.serialize.drop 0 = sized 4 m.key ++ sized 4 m.data := by
    rw [serialize, writeBytes_eq, writeString_eq, List.drop_zero, List.nil_append]
  have hrest : m.serialize.drop (0 + (4 + m.key.length)) = sized 4 m.data ++ [] := by
    rw [← List.drop_drop, hs, List.drop_left' (sized_length 4 m.key), List.append_nil]
  rw [deserialize, readString_field hkey hs]
  -- the data is reached only behind a key that was accepted
  by_cases hk : m.key.length ≤ maxStringSize
  · rw [if_pos hk]
    simp only [bind, Except.bind, readBytes_field hdata hrest, hk, true_and]
    by_cases hd : m.data.length ≤ maxBytesSize
    · rw [if_pos hd, if_pos hd]
      rfl
    · rw [if_neg hd, if_neg hd]
  · rw [if_neg hk, if_neg (fun h => hk h.1)]
    rfl

theorem InvokeFunctionRequest.deserialize_serialize {m : InvokeFunctionRequest}
    (hname : m.functionName.length < 2 ^ 32) (hparams : m.params.length < 2 ^ 32) :
    deserialize m.serialize =
      if m.functionName.length ≤ maxStringSize ∧ m.params.length ≤ maxBytesSize then .ok m
      else .error .rejected := by
  have hs : m.serialize = nativeBytes 8 m.moduleHandle.toNat ++
      (sized 4 m.functionName ++ sized 4 m.params) := by
    simp only [serialize, writeBytes_eq, writeString_eq, writeUInt64, List.nil_append,
      List.append_assoc]
  have hlen : ¬ m.serialize.length < 8 := by
    rw [hs]
    simp
  have hload : load m.serialize 0 8 = .ok m.moduleHandle.toNat := by
    rw [load_of_le (by omega), List.drop_zero, hs, List.take_left' (nativeBytes_length 8 _),
      nativeNat_nativeBytes m.moduleHandle.toNat_lt]
  have hfields : m.serialize.drop 8 = sized 4 m.functionName ++ sized 4 m.params := by
    rw [hs, List.drop_left' (nativeBytes_length 8 _)]
  have hrest : m.serialize.drop (8 + (4 + m.functionName.length)) =
      sized 4 m.params ++ [] := by
    rw [← List.drop_drop, hfields, List.drop_left' (sized_length 4 m.functionName),
      List.append_nil]
  rw [deserialize, if_neg hlen, hload]
  simp only [bind, Except.bind, readString_field hname hfields]
  by_cases hn : m.functionName.length ≤ maxStringSize
  · rw [if_pos hn]
    simp only [readBytes_field hparams hrest, hn, true_and, UInt64.ofNat_toNat]
    by_cases hp : m.params.length ≤ maxBytesSize
    · rw [if_pos hp, if_pos hp]
      rfl
    · rw [if_neg hp, if_neg hp]
  · rw [if_neg hn, if_neg (fun h => hn h.1)]

theorem InvokeFunctionRequest.params_length_le {data : Bytes} {m : InvokeFunctionRequest}
    (h : deserialize data = .ok m) : m.params.length ≤ maxBytesSize :=
  (InvokeFunctionRequest.exact.ok_iff.mp h).1.2

@[simp] theorem LoadModuleResponse.serialize_length (m : LoadModuleResponse) :
    m.serialize.length = 8 := by
  simp [serialize, writeUInt64]

theorem LoadModuleResponse.deserialize_serialize (m : LoadModuleResponse) :
    deserialize m.serialize = .ok m := by
  have h := LoadModuleResponse.exact.decode_append (a := m) [] trivial
  rwa [List.append_nil] at h

end

end OpenEnclave.Protocol
