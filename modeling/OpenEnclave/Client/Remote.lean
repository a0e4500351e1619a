import OpenEnclave.Client.Basic
import OpenEnclave.Server.Reply

/-!
# Remote — remote calls equal local calls

A method of the client against the enclave method it stands for. The
frame the client builds parses and decodes to the call it was built
from, unless a field exceeds what the readers accept
(`commandOf_requestOf`); and every call that does not get through for
that reason is one the enclave itself refuses (`perform_of_not_fits`),
because the enclave's own limits are the tighter ones. The reply carries
the result back unchanged (`resultOf_callReply`).
-/

namespace OpenEnclave.Client

open ByteCodec Protocol EnclaveImpl Server

section
variable [Host]

/-! ## The client's frame at the server -/

omit [Host] in
def commandType : EnclaveOp → CommandType
  | .loadModule _ => .loadModule
  | .invokeFunction .. => .invokeFunction
  | .storeData .. => .storeData
  | .retrieveData _ => .retrieveData
  | .getAttestation => .getAttestation

/-- The constants of `GetAttestation` are the size and checksum of its
empty payload. -/
theorem requestOf_eq (op : EnclaveOp) :
    requestOf op = buildRequest (commandType op) (requestOf op).payload := by
  cases op with
  | getAttestation =>
      show getAttestationRequest = buildRequest .getAttestation []
      decide +kernel
  | loadModule data => rfl
  | invokeFunction handle name params => rfl
  | storeData key data => rfl
  | retrieveData key => rfl

/-- A built request is a frame of itself, unless it is too large. -/
theorem parseStream_buildRequest (command : CommandType) {payload : Bytes}
    (h : payload.length < 2 ^ 32) :
    parseStream (buildRequest command payload).serialize =
      if payload.length ≤ MAX_MESSAGE_SIZE then .ok (buildRequest command payload)
      else .error .errorInvalidParams := by
  have hsize : (buildRequest command payload).header.payloadSize.toNat = payload.length := by
    rw [buildRequest, UInt32.toNat_ofNat']
    omega
  have hdrop : (buildRequest command payload).serialize.drop 16 = payload :=
    List.drop_left' (MessageHeader.serialize_length _)
  have hheaded : Headed (buildRequest command payload).serialize
      (buildRequest command payload).header :=
    ⟨deserialize_header_take.mpr (by rw [hdrop]; rfl), rfl, rfl⟩
  have hself : announced (buildRequest command payload).serialize
      (buildRequest command payload).header = buildRequest command payload := by
    rw [announced, hdrop, hsize, List.take_length]
    rfl
  have hvalid : validateRequest (buildRequest command payload) = true :=
    validate_iff.mpr ⟨rfl, rfl, hsize.symm, rfl⟩
  rw [parseStream_of_headed hheaded, hself, hsize]
  simp only [hvalid, and_true]

/-- The field sizes the payload readers accept. -/
def FieldsFit : EnclaveOp → Prop
  | .loadModule moduleData => moduleData.length ≤ maxBytesSize
  | .invokeFunction _ name params => name.length ≤ maxStringSize ∧ params.length ≤ maxBytesSize
  | .storeData key data => key.length ≤ maxStringSize ∧ data.length ≤ maxBytesSize
  | .retrieveData key => key.length ≤ maxStringSize
  | .getAttestation => True

instance : (op : EnclaveOp) → Decidable (FieldsFit op)
  | .loadModule _ => inferInstanceAs (Decidable (_ ≤ _))
  | .invokeFunction .. => inferInstanceAs (Decidable (_ ∧ _))
  | .storeData .. => inferInstanceAs (Decidable (_ ∧ _))
  | .retrieveData _ => inferInstanceAs (Decidable (_ ≤ _))
  | .getAttestation => inferInstanceAs (Decidable True)

/-- The call gets through to the enclave. -/
def Fits (op : EnclaveOp) : Prop :=
  (requestOf op).payload.length ≤ MAX_MESSAGE_SIZE ∧ FieldsFit op

instance (op : EnclaveOp) : Decidable (Fits op) := inferInstanceAs (Decidable (_ ∧ _))

/-- The length of a request's payload, field by field. -/
theorem requestOf_payload_length (op : EnclaveOp) :
    (requestOf op).payload.length =
      match op with
      | .loadModule moduleData => 4 + moduleData.length
      | .invokeFunction _ name params => 8 + (4 + name.length) + (4 + params.length)
      | .storeData key data => 4 + key.length + (4 + data.length)
      | .retrieveData key => 4 + key.length
      | .getAttestation => 0 := by
  cases op <;>
    simp [requestOf, loadModuleRequest, invokeFunctionRequest, storeDataRequest,
      retrieveDataRequest, getAttestationRequest, buildRequest, LoadModuleRequest.serialize,
      InvokeFunctionRequest.serialize, StoreDataRequest.serialize,
      RetrieveDataRequest.serialize, writeBytes_eq, writeString_eq, writeUInt64, Nat.add_assoc]

omit [Host] in
theorem callOf_ite {α : Type} {p q : Prop} [Decidable p] [Decidable q] (hpq : p ↔ q)
    {message : Except ReadFault α} {m : α}
    (h : message = if p then .ok m else .error .rejected) (op : α → EnclaveOp) :
    callOf message op = if q then .ok (.call (op m)) else .error .errorInvalidParams := by
  subst h
  by_cases hp : p
  · rw [if_pos hp, if_pos (hpq.mp hp)]
    rfl
  · rw [if_neg hp, if_neg (fun hq => hp (hpq.mpr hq))]
    rfl

theorem decodeCommand_requestOf {op : EnclaveOp}
    (h : (requestOf op).payload.length < 2 ^ 32) :
    decodeCommand (requestOf op) =
      if FieldsFit op then .ok (.call op) else .error .errorInvalidParams := by
  have hcommand : CommandType.ofByte? (requestOf op).header.commandType =
      some (commandType op) := by
    rw [requestOf_eq op]
    exact CommandType.ofByte?_toByte _
  rw [requestOf_payload_length] at h
  rw [decodeCommand, hcommand]
  cases op with
  | loadModule data =>
      simp only at h
      exact callOf_ite .rfl (LoadModuleRequest.deserialize_serialize (m := ⟨data⟩)
        (by simp only; omega)) _
  | invokeFunction handle name params =>
      simp only at h
      exact callOf_ite .rfl
        (InvokeFunctionRequest.deserialize_serialize (m := ⟨handle, name, params⟩)
          (by simp only; omega) (by simp only; omega)) _
  | storeData key data =>
      simp only at h
      exact callOf_ite .rfl (StoreDataRequest.deserialize_serialize (m := ⟨key, data⟩)
        (by simp only; omega) (by simp only; omega)) _
  | retrieveData key =>
      simp only at h
      exact callOf_ite .rfl (RetrieveDataRequest.deserialize_serialize (m := ⟨key⟩)
        (by simp only; omega)) _
  | getAttestation => rfl

/-- **What the server makes of the client's frame**: the call it was
built from, or a refusal. -/
theorem commandOf_requestOf {op : EnclaveOp} (h : (requestOf op).payload.length < 2 ^ 32)
    {incoming : Chunked UInt8} (helems : incoming.elems = (requestOf op).serialize)
    (hfilled : HeaderFilled incoming) :
    commandOf incoming = if Fits op then .ok (.call op) else .error .errorInvalidParams := by
  have hparse := parseStream_buildRequest (commandType op) h
  rw [← requestOf_eq] at hparse
  rw [commandOf, receive_of_headerFilled hfilled, helems, hparse]
  by_cases hsize : (requestOf op).payload.length ≤ MAX_MESSAGE_SIZE
  · rw [if_pos hsize]
    refine (decodeCommand_requestOf h).trans ?_
    simp only [Fits, hsize, true_and]
  · rw [if_neg hsize, if_neg (fun hc => hsize hc.1)]
    rfl

/-! ## Calls that do not get through -/

/-- The readers' caps are looser than the enclave's limits, but for the
parameters of a call, which the enclave does not limit. -/
theorem perform_of_not_fits (ssl : Crypto.OpenSSL) (calls : Calls) {e : EnclaveImpl}
    (hinit : e.initialized = true) {op : EnclaveOp} (hparams : ParamsFit op)
    (h : ¬ Fits op) : e.perform ssl calls op = (.error .errorInvalidParameter, e) := by
  have hcaps : maxStringSize = 1048576 ∧ maxBytesSize = 10485760 ∧ maxDataSize = 10485760 ∧
      MAX_MESSAGE_SIZE = 16777216 := by decide
  rw [Fits, requestOf_payload_length] at h
  cases op with
  | loadModule data =>
      simp only [FieldsFit] at h
      rw [perform, loadModule_eq ssl calls data hinit, if_neg]
      intro hd
      have := hd.2
      omega
  | invokeFunction handle name params =>
      simp only [FieldsFit, ParamsFit] at h hparams
      rw [perform, EnclaveImpl.invokeFunction, dif_pos hinit, if_pos (.inr (by omega))]
  | storeData key data =>
      simp only [FieldsFit] at h
      rw [perform, storeData_eq ssl calls key data hinit, if_neg]
      intro hr
      obtain ⟨⟨-, hk⟩, -, hd⟩ := hr
      omega
  | retrieveData key =>
      simp only [FieldsFit] at h
      rw [perform, retrieveData_eq ssl calls key hinit, if_neg]
      intro hk
      have := hk.2
      omega
  | getAttestation => exact absurd ⟨Nat.zero_le _, trivial⟩ h

/-! ## The reply at the client -/

/-- Every method fails on a response without success. -/
theorem resultOf_of_status_ne {op : EnclaveOp} {response : Response}
    (h : response.status ≠ .success) : resultOf op (some response) = none := by
  have hnone : successPayload (some response) = none := if_pos h
  cases op <;> simp [resultOf, hnone]

/-- A method reads out of the reply what the handler put in. -/
theorem resultOf_callReply (op : EnclaveOp) (result : Result op.Output) :
    resultOf op (some (callReply op result)) = result.toOption := by
  cases result with
  | error status => exact resultOf_of_status_ne (failureStatus_ne_success op)
  | ok out =>
      have hsome : successPayload (some (callReply op (.ok out))) =
          some (replyPayload op out) := by
        simp [successPayload, callReply, successResponse]
      cases op with
      | loadModule data =>
          simp only [resultOf, hsome, replyPayload, LoadModuleResponse.deserialize_serialize]
          rfl
      | invokeFunction handle name params => exact hsome
      | storeData key data => simp only [resultOf, hsome]; rfl
      | retrieveData key => exact hsome
      | getAttestation => exact hsome

/-- The client's side of a call whose reply is `response`. -/
theorem exec_call_of_reply {clientFd : Int} (hfd : 0 ≤ clientFd) (op : EnclaveOp)
    {response : Response} (h : WellFormed response) {replies : Chunked UInt8}
    (hreplies : replies.elems = response.serialize) :
    ∃ rest, (call clientFd op).exec act ⟨replies, true, []⟩ =
      .ok (resultOf op (some response), ⟨rest, true, [(requestOf op).serialize]⟩) := by
  obtain ⟨rest, hcall⟩ := exec_call hfd op replies []
  have hparse := parseReply_serialize h.size []
  rw [List.append_nil] at hparse
  rw [hreplies, hparse] at hcall
  exact ⟨rest, hcall⟩

/-- **Remote calls equal local calls.** On a fresh connection to a
server in any reachable state, with the frame in any cut that fills the
first receive and the reply in any cut at all, a method of the client
succeeds exactly when the enclave's method does, with the same value and
the same state after it. -/
theorem remote_call_eq_local_call (ssl : Crypto.OpenSSL) (n : Nat) (e : EnclaveImpl)
    (hreach : EnclaveImpl.Reachable ssl n e) (calls : Calls) (serverFd : Int) (running : Bool)
    (clientFd : Int) (hfd : 0 ≤ clientFd) (op : EnclaveOp)
    (hsize : (requestOf op).payload.length < 2 ^ 32) (hparams : ParamsFit op)
    (incoming : Chunked UInt8) (helems : incoming.elems = (requestOf op).serialize)
    (hfilled : HeaderFilled incoming) :
    ∃ reply, outcome ssl calls ⟨some e, serverFd, running⟩ incoming true =
        .ok ([reply], ⟨some (e.perform ssl calls op).2, serverFd, running⟩) ∧
      ∀ replies : Chunked UInt8, replies.elems = reply →
        ∃ rest, (call clientFd op).exec act ⟨replies, true, []⟩ =
          .ok ((e.perform ssl calls op).1.toOption, ⟨rest, true, [incoming.elems]⟩) := by
  obtain ⟨key, hI⟩ := hreach.inv
  have hcommand := commandOf_requestOf hsize helems hfilled
  rw [outcome_eq, hcommand, helems]
  by_cases hfits : Fits op
  · rw [if_pos hfits]
    have hwf : WellFormed (callReply op (e.perform ssl calls op).1) :=
      wellFormed_callReply calls hI hparams
    refine ⟨_, rfl, fun replies hreplies => ?_⟩
    rw [← resultOf_callReply]
    exact exec_call_of_reply hfd op hwf hreplies
  · -- refused on the way, and the enclave would have refused as well
    rw [if_neg hfits, perform_of_not_fits ssl calls hI.init hparams hfits]
    refine ⟨_, rfl, fun replies hreplies => ?_⟩
    have hnone : resultOf op (some (errorResponse .errorInvalidParams)) = none :=
      resultOf_of_status_ne (by decide)
    have hcall := exec_call_of_reply hfd op (wellFormed_errorResponse _) hreplies
    rw [hnone] at hcall
    exact hcall

end

/-- A store of `"Hi"` through the client, and the state it leaves. -/
theorem remote_call_eq_local_call_store :
    letI := Host.littleEndian
    let calls : Calls := ⟨.succeed Crypto.zeroIV, .succeed⟩
    let op : EnclaveOp := .storeData [0x6B] [0x48, 0x69]
    ∃ e, Enclave.create (some Crypto.zeroKey) = .ok e ∧
      ∃ reply, outcome Crypto.sampleGcm calls ⟨some e, 3, true⟩
          (.whole (requestOf op).serialize) true =
          .ok ([reply], ⟨some (e.perform Crypto.sampleGcm calls op).2, 3, true⟩) ∧
        ∃ rest, (call 4 op).exec act ⟨.whole reply, true, []⟩ =
          .ok (some (), ⟨rest, true, [(requestOf op).serialize]⟩) := by
  let := Host.littleEndian
  intro calls op
  have hcreate : Enclave.create (some Crypto.zeroKey) =
      .ok (EnclaveImpl.new.initializeEnclave (some Crypto.zeroKey)).2 := rfl
  refine ⟨_, hcreate, ?_⟩
  obtain ⟨reply, hout, hclient⟩ := remote_call_eq_local_call Crypto.sampleGcm 0 _ (.create hcreate)
    calls 3 true 4 (by decide) op (by decide +kernel) trivial (.whole (requestOf op).serialize)
    (Chunked.elems_whole _) (headerFilled_whole _)
  obtain ⟨rest, hcall⟩ := hclient (.whole reply) (Chunked.elems_whole _)
  rw [Chunked.elems_whole] at hcall
  exact ⟨reply, hout, rest, hcall⟩

end OpenEnclave.Client
