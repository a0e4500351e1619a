import OpenEnclave.Server.Basic

/-!
# Serve — what a connection comes to

`HandleClient` as a function. `parseStream` is the request a byte stream
carries once its first sixteen bytes have arrived together, `decodeCommand`
what the request asks for, and `serve` the one reply and the next server
state. `outcome_eq` ties the three to the handler programs: whatever the
stream, its cut and the server state, running `HandleClient` is parsing,
decoding and serving, and handing the reply to the socket. Every later
result about a connection starts from there and never looks at the
handlers again.
-/

namespace OpenEnclave.Server

open ByteCodec Protocol Effect

/-- What a valid request asks for: a call of the enclave's interface, or
the end of the server. -/
inductive Command where
  | call (op : EnclaveOp)
  | shutdown
deriving DecidableEq, Repr

section
variable [Host]

/-! ## The command of a request -/

/-- The call a parsed payload asks for. -/
def callOf {α : Type} (message : Except ReadFault α) (op : α → EnclaveOp) :
    Except ResponseStatus Command :=
  match message with
  | .error _ => .error .errorInvalidParams
  | .ok m => .ok (.call (op m))

/-- The switch of `DispatchCommand` and the payload parser of each
handler. -/
def decodeCommand (request : Request) : Except ResponseStatus Command :=
  match CommandType.ofByte? request.header.commandType with
  | some .loadModule =>
      callOf (LoadModuleRequest.deserialize request.payload) fun m => .loadModule m.moduleData
  | some .invokeFunction =>
      callOf (InvokeFunctionRequest.deserialize request.payload) fun m =>
        .invokeFunction m.moduleHandle m.functionName m.params
  | some .storeData =>
      callOf (StoreDataRequest.deserialize request.payload) fun m => .storeData m.key m.data
  | some .retrieveData =>
      callOf (RetrieveDataRequest.deserialize request.payload) fun m => .retrieveData m.key
  | some .getAttestation => .ok (.call .getAttestation)
  | some .shutdown => .ok .shutdown
  | none => .error .errorInvalidCommand

/-- The parameters of a call are within the payload reader's cap; the
enclave itself does not limit them. -/
def ParamsFit : EnclaveOp → Prop
  | .invokeFunction _ _ params => params.length ≤ maxBytesSize
  | _ => True

/-- What the decoder can make of a request. -/
inductive Decoded (request : Request) : Except ResponseStatus Command → Prop where
  | unknown : CommandType.ofByte? request.header.commandType = none →
      Decoded request (.error .errorInvalidCommand)
  | malformed {command : CommandType} :
      CommandType.ofByte? request.header.commandType = some command →
      Decoded request (.error .errorInvalidParams)
  | call {command : CommandType} {op : EnclaveOp} :
      CommandType.ofByte? request.header.commandType = some command → ParamsFit op →
      Decoded request (.ok (.call op))
  | shutdown : CommandType.ofByte? request.header.commandType = some .shutdown →
      Decoded request (.ok .shutdown)

omit [Host] in
theorem decoded_callOf {request : Request} {command : CommandType} {α : Type}
    (hcommand : CommandType.ofByte? request.header.commandType = some command)
    {message : Except ReadFault α} {op : α → EnclaveOp}
    (hfit : ∀ m, message = .ok m → ParamsFit (op m)) :
    Decoded request (callOf message op) := by
  cases message with
  | error fault => exact .malformed hcommand
  | ok m => exact .call hcommand (hfit m rfl)

/-- **What the decoder can do**, once for all. -/
theorem decoded (request : Request) : Decoded request (decodeCommand request) := by
  rw [decodeCommand]
  cases hcommand : CommandType.ofByte? request.header.commandType with
  | none => exact .unknown hcommand
  | some command =>
      cases command with
      | loadModule => exact decoded_callOf hcommand fun _ _ => trivial
      | invokeFunction =>
          exact decoded_callOf hcommand fun _ => InvokeFunctionRequest.params_length_le
      | storeData => exact decoded_callOf hcommand fun _ _ => trivial
      | retrieveData => exact decoded_callOf hcommand fun _ _ => trivial
      | getAttestation => exact .call hcommand trivial
      | shutdown => exact .shutdown hcommand

/-- The status with which a failed call is answered. -/
def failureStatus : EnclaveOp → ResponseStatus
  | .loadModule _ => .errorExecutionFailed
  | .invokeFunction .. => .errorExecutionFailed
  | .storeData .. => .errorExecutionFailed
  | .retrieveData _ => .errorNotFound
  | .getAttestation => .errorInternal

/-- The payload with which a successful call is answered. -/
def replyPayload : (op : EnclaveOp) → op.Output → Bytes
  | .loadModule _, id => LoadModuleResponse.serialize { moduleHandle := id }
  | .invokeFunction .., value => value
  | .storeData .., _ => []
  | .retrieveData _, value => value
  | .getAttestation, value => value

def callReply (op : EnclaveOp) : Result op.Output → Response
  | .ok out => successResponse (replyPayload op out)
  | .error _ => errorResponse (failureStatus op)

/-- The handlers and the error exits, as one program. -/
def execute : Except ResponseStatus Command → ServerProg Unit
  | .error status => sendErrorResponse status
  | .ok (.call op) => do
      let result ← callEnclave op
      send (callReply op result).serialize
  | .ok .shutdown => do
      sendSuccessResponse []
      stopRunning

theorem handleLoadModule_eq (request : Request) :
    handleLoadModule request =
      execute (callOf (LoadModuleRequest.deserialize request.payload) fun m =>
        .loadModule m.moduleData) := by
  rw [handleLoadModule]
  cases LoadModuleRequest.deserialize request.payload with
  | error fault => rfl
  | ok m => exact congrArg (Prog.op _) (funext fun r => by cases r <;> rfl)

theorem handleInvokeFunction_eq (request : Request) :
    handleInvokeFunction request =
      execute (callOf (InvokeFunctionRequest.deserialize request.payload) fun m =>
        .invokeFunction m.moduleHandle m.functionName m.params) := by
  rw [handleInvokeFunction]
  cases InvokeFunctionRequest.deserialize request.payload with
  | error fault => rfl
  | ok m => exact congrArg (Prog.op _) (funext fun r => by cases r <;> rfl)

theorem handleStoreData_eq (request : Request) :
    handleStoreData request =
      execute (callOf (StoreDataRequest.deserialize request.payload) fun m =>
        .storeData m.key m.data) := by
  rw [handleStoreData]
  cases StoreDataRequest.deserialize request.payload with
  | error fault => rfl
  | ok m => exact congrArg (Prog.op _) (funext fun r => by cases r <;> rfl)

theorem handleRetrieveData_eq (request : Request) :
    handleRetrieveData request =
      execute (callOf (RetrieveDataRequest.deserialize request.payload) fun m =>
        .retrieveData m.key) := by
  rw [handleRetrieveData]
  cases RetrieveDataRequest.deserialize request.payload with
  | error fault => rfl
  | ok m => exact congrArg (Prog.op _) (funext fun r => by cases r <;> rfl)

theorem handleGetAttestation_eq (request : Request) :
    handleGetAttestation request = execute (.ok (.call .getAttestation)) :=
  congrArg (Prog.op _) (funext fun r => by cases r <;> rfl)

/-- **The handlers differ only in their data.** -/
theorem dispatchCommand_eq (request : Request) :
    dispatchCommand request = execute (decodeCommand request) := by
  rw [dispatchCommand, decodeCommand]
  cases CommandType.ofByte? request.header.commandType with
  | none => rfl
  | some command =>
      cases command with
      | loadModule => exact handleLoadModule_eq request
      | invokeFunction => exact handleInvokeFunction_eq request
      | storeData => exact handleStoreData_eq request
      | retrieveData => exact handleRetrieveData_eq request
      | getAttestation => exact handleGetAttestation_eq request
      | shutdown => rfl

/-! ## The request of a stream -/

/-- The request a stream carries, or the status of the reply that turns
it down. -/
def parseStream (s : Bytes) : Except ResponseStatus Request :=
  match MessageHeader.deserialize (s.take 16) with
  | .error _ => .error .errorInvalidCommand
  | .ok header =>
    if header.magic ≠ MessageHeader.MAGIC ∨ header.version ≠ MessageHeader.VERSION then
      .error .errorInvalidCommand
    else if header.payloadSize.toNat > MAX_MESSAGE_SIZE then .error .errorInvalidParams
    else
      let payload := (s.drop 16).take header.payloadSize.toNat
      if payload.length ≠ header.payloadSize.toNat then .error .errorInvalidParams
      else if validateRequest { header, payload } then .ok { header, payload }
      else .error .errorInvalidParams

/-- What the receive path makes of a stream in its cut: the plain receive
of the header is turned down when fewer than sixteen bytes are there. -/
def receive (incoming : Chunked UInt8) : Except ResponseStatus Request :=
  if incoming.available < 16 then .error .errorInvalidCommand
  else parseStream incoming.elems

theorem exec_recv (ssl : Crypto.OpenSSL) (calls : Calls) {α : Type} (n : Nat)
    (k : Bytes → ServerProg α) (w : World) :
    (recv n false >>= k).exec (act ssl calls) w =
      (k (w.conn.incoming.recv n).1).exec (act ssl calls)
        { w with conn := { w.conn with incoming := (w.conn.incoming.recv n).2 } } := rfl

theorem exec_recvAll (ssl : Crypto.OpenSSL) (calls : Calls) {α : Type} (n : Nat)
    (k : Bytes → ServerProg α) (w : World) :
    (recv n true >>= k).exec (act ssl calls) w =
      (k (w.conn.incoming.recvAll n).1).exec (act ssl calls)
        { w with conn := { w.conn with incoming := (w.conn.incoming.recvAll n).2 } } := rfl

/-- **Receiving is parsing**, whatever the cut: beyond the first chunk
only the stream itself matters. -/
theorem exec_receiveRequest (ssl : Crypto.OpenSSL) (calls : Calls) (w : World) :
    ∃ rest, receiveRequest.exec (act ssl calls) w =
      .ok (receive w.conn.incoming, { w with conn := { w.conn with incoming := rest } }) := by
  have hfst := w.conn.incoming.recv_fst 16
  have hsnd := w.conn.incoming.recv_snd_elems 16
  have hle := w.conn.incoming.available_le
  rw [receiveRequest, exec_recv, receive]
  by_cases hav : w.conn.incoming.available < 16
  · have hlen : (w.conn.incoming.recv 16).1.length ≠ 16 := by
      rw [hfst, List.length_take]
      omega
    -- turned down before anything else is read
    rw [if_pos hlen, if_pos hav]
    exact ⟨_, rfl⟩
  · have hmin : min 16 w.conn.incoming.available = 16 := by omega
    rw [hmin] at hfst hsnd
    have hlen : ¬ (w.conn.incoming.recv 16).1.length ≠ 16 := by
      rw [hfst, List.length_take]
      omega
    rw [if_neg hlen, if_neg hav, parseStream, hfst]
    cases MessageHeader.deserialize (w.conn.incoming.elems.take 16) with
    | error fault => exact ⟨_, rfl⟩
    | ok header =>
        simp only
        split
        · exact ⟨_, rfl⟩
        split
        · exact ⟨_, rfl⟩
        split
        · rw [exec_recvAll, Chunked.recvAll_fst, hsnd]
          split
          · exact ⟨_, rfl⟩
          split
          · exact ⟨_, rfl⟩
          · exact ⟨_, rfl⟩
        · -- an empty payload is not received at all
          have hzero : header.payloadSize.toNat = 0 := by omega
          rw [Prog.pure_eq, Prog.ret_bind, hzero, List.take_zero, List.length_nil,
            if_neg (not_not.mpr rfl)]
          split
          · exact ⟨_, rfl⟩
          · exact ⟨_, rfl⟩

/-! ## The reply and the next state -/

/-- The reply to a command and the server after it; a call of a null
`enclave_` has neither. -/
def serve (ssl : Crypto.OpenSSL) (calls : Calls) (server : EnclaveServer) :
    Except ResponseStatus Command → Except Fault (Response × EnclaveServer)
  | .error status => .ok (errorResponse status, server)
  | .ok (.call op) =>
    match server.enclave with
    | none => .error .nullEnclave
    | some e =>
      let r := e.perform ssl calls op
      .ok (callReply op r.1, { server with enclave := some r.2 })
  | .ok .shutdown => .ok (successResponse [], { server with running := false })

/-- A command fails to be served only by a null `enclave_`. -/
theorem serve_error {ssl : Crypto.OpenSSL} {calls : Calls} {server : EnclaveServer}
    {command : Except ResponseStatus Command} {fault : Fault}
    (h : serve ssl calls server command = .error fault) :
    server.enclave = none ∧ fault = .nullEnclave := by
  cases command with
  | error status => cases h
  | ok command =>
      cases command with
      | shutdown => cases h
      | call op =>
          rw [serve] at h
          split at h
          · rename_i he
            cases h
            exact ⟨he, rfl⟩
          · cases h

/-- One buffer goes to the client; if it has gone, the process ends. -/
def deliver (peerOpen : Bool) (reply : Response) (server : EnclaveServer) :
    Except Fault (List Bytes × EnclaveServer) :=
  if peerOpen then .ok ([reply.serialize], server) else .error (.sigpipe reply.serialize)

/-- What the receive path makes of a connection's stream: a command, or
the status of the error reply. -/
def commandOf (incoming : Chunked UInt8) : Except ResponseStatus Command :=
  receive incoming >>= decodeCommand

/-- Run `HandleClient` on a connection: the buffers sent and the server
after it. -/
def outcome (ssl : Crypto.OpenSSL) (calls : Calls) (server : EnclaveServer)
    (incoming : Chunked UInt8) (peerOpen : Bool) :
    Except Fault (List Bytes × EnclaveServer) :=
  match handleClient.exec (act ssl calls) ⟨server, ⟨incoming, peerOpen, []⟩⟩ with
  | .error fault => .error fault
  | .ok ((), w) => .ok (w.conn.sent, w.server)

theorem handleClient_eq :
    handleClient = receiveRequest >>= fun r => execute (r >>= decodeCommand) := by
  refine congrArg (receiveRequest >>= ·) (funext fun r => ?_)
  cases r with
  | error status => rfl
  | ok request => exact dispatchCommand_eq request

theorem exec_send (ssl : Crypto.OpenSSL) (calls : Calls) {α : Type} (data : Bytes)
    (k : Unit → ServerProg α) (server : EnclaveServer) (conn : Connection) :
    (send data >>= k).exec (act ssl calls) ⟨server, conn⟩ =
      if conn.peerOpen then
        (k ()).exec (act ssl calls) ⟨server, { conn with sent := conn.sent ++ [data] }⟩
      else .error (.sigpipe data) := by
  by_cases h : conn.peerOpen = true
  · rw [if_pos h]
    exact Prog.exec_op_ok (if_pos h)
  · rw [if_neg h]
    exact Prog.exec_op_error (if_neg h)

theorem exec_execute (ssl : Crypto.OpenSSL) (calls : Calls)
    (command : Except ResponseStatus Command) (server : EnclaveServer) (conn : Connection) :
    (execute command).exec (act ssl calls) ⟨server, conn⟩ =
      match serve ssl calls server command with
      | .error fault => .error fault
      | .ok (reply, server') =>
        if conn.peerOpen then
          .ok ((), ⟨server', { conn with sent := conn.sent ++ [reply.serialize] }⟩)
        else .error (.sigpipe reply.serialize) := by
  cases command with
  | error status => exact exec_send ssl calls _ Prog.ret server conn
  | ok command =>
      cases command with
      | shutdown => exact exec_send ssl calls _ (fun _ => stopRunning) server conn
      | call op =>
          cases he : server.enclave with
          | none =>
              have hact : act ssl calls (.callEnclave op) ⟨server, conn⟩ =
                  .error .nullEnclave := by
                simp only [act, he]
              simp only [serve, he]
              exact Prog.exec_op_error hact
          | some e =>
              have hact : act ssl calls (.callEnclave op) ⟨server, conn⟩ =
                  .ok ((e.perform ssl calls op).1,
                    ⟨{ server with enclave := some (e.perform ssl calls op).2 }, conn⟩) := by
                simp only [act, he]
              simp only [serve, he]
              exact (Prog.exec_op_ok hact).trans (exec_send ssl calls _ Prog.ret _ conn)

/-- **`HandleClient` parses, decodes, serves and replies once.** -/
theorem exec_handleClient (ssl : Crypto.OpenSSL) (calls : Calls) (server : EnclaveServer)
    (conn : Connection) :
    ∃ rest, handleClient.exec (act ssl calls) ⟨server, conn⟩ =
      match serve ssl calls server (commandOf conn.incoming) with
      | .error fault => .error fault
      | .ok (reply, server') =>
        if conn.peerOpen then
          .ok ((), ⟨server', ⟨rest, conn.peerOpen, conn.sent ++ [reply.serialize]⟩⟩)
        else .error (.sigpipe reply.serialize) := by
  obtain ⟨rest, hrecv⟩ := exec_receiveRequest ssl calls ⟨server, conn⟩
  refine ⟨rest, ?_⟩
  rw [handleClient_eq, Prog.exec_bind, hrecv]
  exact exec_execute ssl calls _ server _

theorem outcome_eq (ssl : Crypto.OpenSSL) (calls : Calls) (server : EnclaveServer)
    (incoming : Chunked UInt8) (peerOpen : Bool) :
    outcome ssl calls server incoming peerOpen =
      match serve ssl calls server (commandOf incoming) with
      | .error fault => .error fault
      | .ok (reply, server') => deliver peerOpen reply server' := by
  obtain ⟨rest, hexec⟩ := exec_handleClient ssl calls server ⟨incoming, peerOpen, []⟩
  rw [outcome, hexec]
  cases serve ssl calls server (commandOf incoming) with
  | error fault => rfl
  | ok p => cases peerOpen <;> rfl

end

end OpenEnclave.Server
