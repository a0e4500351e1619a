import OpenEnclave.Server.Receive
import OpenEnclave.Enclave.Invariant

/-!
# Reply — the one reply of a connection

What a client can rely on, in every state the server reaches without
signals: each connection is answered with one buffer, and the buffer
decodes and validates (`one_wellFormed_reply`). It comes from
`performed`: a call either fails, or succeeds with a value of known
size.
-/

namespace OpenEnclave.Server

open ByteCodec Protocol EnclaveImpl

section
variable [Host]

/-! ## Reachable servers -/

/-- The server states reached by an initialized server that serves one
connection after the other while `running_` is set. -/
inductive Reachable (ssl : Crypto.OpenSSL) : EnclaveServer → Prop where
  | start {rand : Option Crypto.Key} {sockets : SocketCalls} {server : EnclaveServer} :
      EnclaveServer.new.initializeServer rand sockets = (true, server) →
      Reachable ssl { server with running := true }
  | connection {server server' : EnclaveServer} {sent : List Bytes} (calls : Calls)
      (incoming : Chunked UInt8) (peerOpen : Bool) :
      Reachable ssl server → server.running = true →
      outcome ssl calls server incoming peerOpen = .ok (sent, server') →
      Reachable ssl server'

omit [Host] in
theorem initializeServer_enclave {rand : Option Crypto.Key} {sockets : SocketCalls}
    {server : EnclaveServer}
    (h : EnclaveServer.new.initializeServer rand sockets = (true, server)) :
    ∃ e, Enclave.create rand = .ok e ∧ server.enclave = some e := by
  rw [EnclaveServer.initializeServer] at h
  split at h
  · cases h
  · rename_i e he
    split at h
    · cases h
    · split at h
      · cases h
      · cases h
        exact ⟨e, he, rfl⟩

theorem outcome_ok {ssl : Crypto.OpenSSL} {calls : Calls} {server server' : EnclaveServer}
    {incoming : Chunked UInt8} {peerOpen : Bool} {sent : List Bytes}
    (h : outcome ssl calls server incoming peerOpen = .ok (sent, server')) :
    peerOpen = true ∧ ∃ reply, sent = [reply.serialize] ∧
      serve ssl calls server (commandOf incoming) = .ok (reply, server') := by
  rw [outcome_eq] at h
  cases hserve : serve ssl calls server (commandOf incoming) with
  | error fault => rw [hserve] at h; cases h
  | ok p =>
      rw [hserve] at h
      cases peerOpen with
      | false => cases h
      | true => cases h; exact ⟨rfl, p.1, rfl, rfl⟩

/-- Serving a command is at most one call of the enclave. -/
theorem serve_enclave {ssl : Crypto.OpenSSL} {calls : Calls} {server server' : EnclaveServer}
    {command : Except ResponseStatus Command} {reply : Response} {e : EnclaveImpl}
    (he : server.enclave = some e)
    (h : serve ssl calls server command = .ok (reply, server')) :
    server'.enclave = some e ∨
      ∃ op, server'.enclave = some (e.perform ssl calls op).2 := by
  cases command with
  | error status => cases h; exact .inl he
  | ok command =>
      cases command with
      | shutdown => cases h; exact .inl he
      | call op =>
          simp only [serve, he] at h
          cases h
          exact .inr ⟨op, rfl⟩

/-- **A server that no signal has reached has its enclave**, in a state
that calls of its interface lead to. -/
theorem Reachable.enclave {ssl : Crypto.OpenSSL} {server : EnclaveServer}
    (h : Reachable ssl server) :
    ∃ e n, server.enclave = some e ∧ EnclaveImpl.Reachable ssl n e := by
  induction h with
  | start hinit =>
      obtain ⟨e, hcreate, he⟩ := initializeServer_enclave hinit
      exact ⟨e, 0, he, .create hcreate⟩
  | connection calls incoming peerOpen _ _ hout ih =>
      obtain ⟨e, n, he, hreach⟩ := ih
      obtain ⟨-, reply, -, hserve⟩ := outcome_ok hout
      rcases serve_enclave he hserve with he' | ⟨op, he'⟩
      · exact ⟨e, n, he', hreach⟩
      · exact ⟨_, _, he', hreach.perform calls op⟩

/-! ## Statuses -/

theorem decodeCommand_error {request : Request} {status : ResponseStatus}
    (h : decodeCommand request = .error status) : status ≠ .success := by
  have hd := decoded request
  rw [h] at hd
  cases hd with
  | unknown hcommand => decide
  | malformed hcommand => decide

theorem receive_error {incoming : Chunked UInt8} {status : ResponseStatus}
    (h : receive incoming = .error status) : status ≠ .success := by
  rw [receive] at h
  split at h
  · cases h; decide
  · by_cases hh : ∃ header, Headed incoming.elems header
    · obtain ⟨header, hh⟩ := hh
      rw [parseStream_of_headed hh] at h
      split at h
      · cases h
      · cases h; decide
    · rw [parseStream_of_not_headed hh] at h
      cases h
      decide

/-- A request that is turned down is not turned down with success. -/
theorem commandOf_error {incoming : Chunked UInt8} {status : ResponseStatus}
    (h : commandOf incoming = .error status) : status ≠ .success := by
  rw [commandOf] at h
  cases hr : receive incoming with
  | error status' =>
      rw [hr] at h
      cases h
      exact receive_error hr
  | ok request =>
      rw [hr] at h
      exact decodeCommand_error h

omit [Host] in
theorem failureStatus_ne_success (op : EnclaveOp) : failureStatus op ≠ .success := by
  cases op <;> simp [failureStatus, ResponseStatus.success, ResponseStatus.errorExecutionFailed,
    ResponseStatus.errorNotFound, ResponseStatus.errorInternal]

end

theorem sampleServer_initialized :
    EnclaveServer.new.initializeServer (some Crypto.zeroKey) ⟨3, true, true⟩ =
      (true, { sampleServer with running := false }) := rfl

theorem sampleServer_reachable :
    letI := Host.littleEndian
    Reachable Crypto.sampleGcm sampleServer := by
  let := Host.littleEndian
  exact .start sampleServer_initialized

/-- A validated request. -/
def sampleRequest [Host] (command : CommandType) (payload : Bytes) : Request :=
  { header :=
      { magic := MessageHeader.MAGIC
        version := MessageHeader.VERSION
        commandType := command.toByte
        flags := 0
        payloadSize := UInt32.ofNat payload.length
        checksum := calculateCRC32 payload }
    payload := payload }

def sampleStore [Host] (key data : Bytes) : Request :=
  sampleRequest .storeData (StoreDataRequest.serialize { key, data })

/-! ## Well-formed replies -/

section
variable [Host]

/-- A reply the client can decode and validate, whose size field is true
and which carries a payload only with success. -/
structure WellFormed (reply : Response) : Prop where
  decodes : Response.deserialize reply.serialize = .ok reply
  valid : validateResponse reply = true
  size : reply.header.payloadSize.toNat = reply.payload.length
  payload_of_success : reply.status ≠ .success → reply.payload = []

/-- The size cast loses nothing below the frame limit. -/
theorem wellFormed_successResponse {payload : Bytes} (h : payload.length < 2 ^ 32 - 17) :
    WellFormed (successResponse payload) := by
  have hsize : (UInt32.ofNat payload.length).toNat = payload.length := by
    rw [UInt32.toNat_ofNat']
    omega
  exact ⟨Response.deserialize_ok_iff.mpr ⟨rfl, hsize, h⟩,
    validate_iff.mpr ⟨rfl, rfl, hsize.symm, rfl⟩, hsize, fun hs => absurd rfl hs⟩

/-- The hard-coded checksum is that of the empty payload. -/
theorem wellFormed_errorResponse (status : ResponseStatus) :
    WellFormed (errorResponse status) :=
  ⟨Response.deserialize_ok_iff.mpr ⟨rfl, rfl, (by decide : 0 < 2 ^ 32 - 17)⟩,
    validate_iff.mpr ⟨rfl, rfl, rfl, calculateCRC32_nil⟩, rfl, fun _ => rfl⟩

theorem decodeCommand_params {request : Request} {op : EnclaveOp}
    (h : decodeCommand request = .ok (.call op)) : ParamsFit op := by
  have hd := decoded request
  rw [h] at hd
  cases hd with
  | call hcommand hfit => exact hfit

/-- Every payload the enclave returns fits its frame: the parameters are
capped by the reader, stored values by the enclave's own limit. -/
theorem wellFormed_callReply {ssl : Crypto.OpenSSL} (calls : Calls) {e : EnclaveImpl}
    {key : Crypto.Key} {n : Nat} (hI : Inv ssl key n e) {op : EnclaveOp}
    (hparams : ParamsFit op) :
    WellFormed (callReply op (e.perform ssl calls op).1) := by
  have hcap : maxBytesSize + 1 < 2 ^ 32 - 17 := by decide
  have hdata : maxDataSize < 2 ^ 32 - 17 := by decide
  have h := performed ssl calls op hI.init
  generalize e.perform ssl calls op = r at h ⊢
  obtain ⟨result, e'⟩ := r
  cases h with
  | failed status => exact wellFormed_errorResponse _
  | loaded iv hd =>
      refine wellFormed_successResponse ?_
      rw [replyPayload, LoadModuleResponse.serialize_length]
      decide
  | invoked =>
      refine wellFormed_successResponse ?_
      rw [replyPayload, List.length_append, List.length_singleton]
      rw [ParamsFit] at hparams
      omega
  | stored iv hd => exact wellFormed_successResponse (show 0 < 2 ^ 32 - 17 by decide)
  | retrieved hb hv =>
      -- as long as what was stored, which the enclave has limited
      have hle := hI.decryptBlob_length hb hv
      exact wellFormed_successResponse (Nat.lt_of_le_of_lt hle hdata)
  | attested =>
      refine wellFormed_successResponse ?_
      rw [replyPayload]
      simp only [List.length_append, nativeBytes_length, List.Vector.toList_length]
      decide

/-- Whatever a connection carries, it is served, and the reply is well
formed. -/
theorem serve_wellFormed {ssl : Crypto.OpenSSL} {server : EnclaveServer}
    (hreach : Reachable ssl server) (calls : Calls) (incoming : Chunked UInt8) :
    ∃ reply server', serve ssl calls server (commandOf incoming) = .ok (reply, server') ∧
      WellFormed reply := by
  obtain ⟨e, n, he, hre⟩ := hreach.enclave
  obtain ⟨key, hI⟩ := hre.inv
  cases hc : commandOf incoming with
  | error status => exact ⟨_, _, rfl, wellFormed_errorResponse status⟩
  | ok command =>
      cases command with
      | shutdown => exact ⟨_, _, rfl, wellFormed_successResponse (by decide)⟩
      | call op =>
          simp only [serve, he]
          obtain ⟨request, -, hdec⟩ := bind_ok_iff.mp hc
          exact ⟨_, _, rfl, wellFormed_callReply calls hI (decodeCommand_params hdec)⟩

/-- A client that is there gets the reply. -/
theorem exists_sent {ssl : Crypto.OpenSSL} {server : EnclaveServer}
    (hreach : Reachable ssl server) (calls : Calls) (incoming : Chunked UInt8) :
    ∃ reply server', outcome ssl calls server incoming true = .ok ([reply.serialize], server') ∧
      WellFormed reply := by
  obtain ⟨reply, server', hserve, hwf⟩ := serve_wellFormed hreach calls incoming
  refine ⟨reply, server', ?_, hwf⟩
  rw [outcome_eq, hserve]
  rfl

/-- **Every connection gets exactly one well-formed reply.** -/
theorem one_wellFormed_reply (ssl : Crypto.OpenSSL) (server : EnclaveServer)
    (hreach : Reachable ssl server) (calls : Calls) (incoming : Chunked UInt8)
    (peerOpen : Bool) :
    ∃ reply server', outcome ssl calls server incoming peerOpen =
        deliver peerOpen reply server' ∧ WellFormed reply := by
  obtain ⟨reply, server', hserve, hwf⟩ := serve_wellFormed hreach calls incoming
  refine ⟨reply, server', ?_, hwf⟩
  rw [outcome_eq, hserve]

end

/-- A request for attestation, on a server that has just started. -/
theorem one_wellFormed_reply_attestation :
    letI := Host.littleEndian
    let calls : Calls := ⟨.succeed Crypto.zeroIV, .succeed⟩
    ∃ reply server', outcome Crypto.sampleGcm calls sampleServer (.whole attestationFrame) true =
        .ok ([reply.serialize], server') ∧ WellFormed reply := by
  let := Host.littleEndian
  exact one_wellFormed_reply Crypto.sampleGcm sampleServer sampleServer_reachable _
    (.whole attestationFrame) true

end OpenEnclave.Server
