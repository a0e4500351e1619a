import OpenEnclave.Lib.Chunked
import OpenEnclave.Lib.Effect
import OpenEnclave.Protocol.Frame
import OpenEnclave.Protocol.Payload
import OpenEnclave.Enclave.Basic

/-!
# Server — the request handlers

`EnclaveServer::HandleClient` and everything it calls (`server.cpp`), as
programs over the operations through which the handlers touch anything
shared: receiving and sending on the client socket, dereferencing
`enclave_` to call the enclave, and clearing `running_`. Each handler is
the source's, branch by branch.

`act` is what an operation does: a receive takes from the connection's
stream, a call on a null `enclave_` and a send to a peer that has closed
its end are faults — the latter because `send` is called without
`MSG_NOSIGNAL` and nothing handles `SIGPIPE`.
-/

namespace OpenEnclave.Server

open ByteCodec Protocol Effect

/-- 16 MiB. -/
def MAX_MESSAGE_SIZE : Nat := 16 * 1024 * 1024

/-! ## Operations -/

inductive ServerOp where
  /-- `recv` on the client socket, with or without `MSG_WAITALL`. A call
  that fails delivers nothing: the code takes `-1` for a short count. -/
  | recv (n : Nat) (waitAll : Bool)
  | send (data : Bytes)
  /-- `enclave_->...`. -/
  | callEnclave (op : EnclaveOp)
  /-- `running_ = false`. -/
  | stopRunning

@[reducible] def ServerOp.Res : ServerOp → Type
  | .recv .. => Bytes
  | .send _ => Unit
  | .callEnclave op => Result op.Output
  | .stopRunning => Unit

abbrev ServerProg (α : Type) := Prog ServerOp ServerOp.Res α

def recv (n : Nat) (waitAll : Bool) : ServerProg Bytes := Prog.perform (ServerOp.recv n waitAll)
def send (data : Bytes) : ServerProg Unit := Prog.perform (ServerOp.send data)
def callEnclave (op : EnclaveOp) : ServerProg (Result op.Output) :=
  Prog.perform (ServerOp.callEnclave op)
def stopRunning : ServerProg Unit := Prog.perform ServerOp.stopRunning

/-! ## Handlers -/

section
variable [Host]

/-- The message `SendSuccessResponse` builds; the size is cast to 32
bits. -/
def successResponse (payload : Bytes) : Response where
  header :=
    { magic := MessageHeader.MAGIC
      version := MessageHeader.VERSION
      commandType := 0
      flags := 0
      payloadSize := UInt32.ofNat payload.length
      checksum := calculateCRC32 payload }
  status := .success
  payload := payload

/-- The message `SendErrorResponse` builds, with size and checksum
zero. -/
def errorResponse (status : ResponseStatus) : Response where
  header :=
    { magic := MessageHeader.MAGIC
      version := MessageHeader.VERSION
      commandType := 0
      flags := 0
      payloadSize := 0
      checksum := 0 }
  status := status
  payload := []

def sendSuccessResponse (payload : Bytes) : ServerProg Unit :=
  send (successResponse payload).serialize

def sendErrorResponse (status : ResponseStatus) : ServerProg Unit :=
  send (errorResponse status).serialize

def handleLoadModule (request : Request) : ServerProg Unit :=
  match LoadModuleRequest.deserialize request.payload with
  | .error _ => sendErrorResponse .errorInvalidParams
  | .ok req => do
    match ← callEnclave (.loadModule req.moduleData) with
    | .error _ => sendErrorResponse .errorExecutionFailed
    | .ok id => sendSuccessResponse (LoadModuleResponse.serialize { moduleHandle := id })

def handleInvokeFunction (request : Request) : ServerProg Unit :=
  match InvokeFunctionRequest.deserialize request.payload with
  | .error _ => sendErrorResponse .errorInvalidParams
  | .ok req => do
    match ← callEnclave (.invokeFunction req.moduleHandle req.functionName req.params) with
    | .error _ => sendErrorResponse .errorExecutionFailed
    | .ok value => sendSuccessResponse value

def handleStoreData (request : Request) : ServerProg Unit :=
  match StoreDataRequest.deserialize request.payload with
  | .error _ => sendErrorResponse .errorInvalidParams
  | .ok req => do
    match ← callEnclave (.storeData req.key req.data) with
    | .error _ => sendErrorResponse .errorExecutionFailed
    | .ok _ => sendSuccessResponse []

def handleRetrieveData (request : Request) : ServerProg Unit :=
  match RetrieveDataRequest.deserialize request.payload with
  | .error _ => sendErrorResponse .errorInvalidParams
  | .ok req => do
    match ← callEnclave (.retrieveData req.key) with
    -- every enclave error is answered as "not found"
    | .error _ => sendErrorResponse .errorNotFound
    | .ok value => sendSuccessResponse value

def handleGetAttestation (_request : Request) : ServerProg Unit := do
  match ← callEnclave .getAttestation with
  | .error _ => sendErrorResponse .errorInternal
  | .ok value => sendSuccessResponse value

/-- The reply goes out before `running_` is cleared. -/
def handleShutdown (_request : Request) : ServerProg Unit := do
  sendSuccessResponse []
  stopRunning

def dispatchCommand (request : Request) : ServerProg Unit :=
  match CommandType.ofByte? request.header.commandType with
  | some .loadModule => handleLoadModule request
  | some .invokeFunction => handleInvokeFunction request
  | some .storeData => handleStoreData request
  | some .retrieveData => handleRetrieveData request
  | some .getAttestation => handleGetAttestation request
  | some .shutdown => handleShutdown request
  | none => sendErrorResponse .errorInvalidCommand

/-- `HandleClient` up to the dispatch: the request, or the status of the
error reply with which it returns early. -/
def receiveRequest : ServerProg (Except ResponseStatus Request) := do
  -- the header is read without `MSG_WAITALL`
  let headerBuf ← recv 16 false
  if headerBuf.length ≠ 16 then return .error .errorInvalidCommand
  else match MessageHeader.deserialize headerBuf with
    | .error _ => return .error .errorInvalidCommand
    | .ok header =>
      if header.magic ≠ MessageHeader.MAGIC ∨ header.version ≠ MessageHeader.VERSION then
        return .error .errorInvalidCommand
      else if header.payloadSize.toNat > MAX_MESSAGE_SIZE then
        return .error .errorInvalidParams
      else do
        let payload ← if header.payloadSize.toNat > 0 then recv header.payloadSize.toNat true
          else pure []
        if payload.length ≠ header.payloadSize.toNat then return .error .errorInvalidParams
        else
          let request : Request := { header, payload }
          if validateRequest request then return .ok request
          else return .error .errorInvalidParams

def handleClient : ServerProg Unit := do
  match ← receiveRequest with
  | .error status => sendErrorResponse status
  | .ok request => dispatchCommand request

end

/-! ## What the operations do -/

/-- The server object: `unique_ptr<Enclave>`, the listening socket, and
the loop flag. -/
structure EnclaveServer where
  enclave : Option EnclaveImpl
  socketFd : Int
  running : Bool

/-- How the socket calls of `Initialize` turn out. -/
structure SocketCalls where
  socket : Int
  bind : Bool
  listen : Bool

namespace EnclaveServer

/-- The constructor. -/
def new : EnclaveServer where
  enclave := none
  socketFd := -1
  running := false

/-- `Initialize`; a failure leaves behind what was set up before it. -/
def initializeServer (rand : Option Crypto.Key) (calls : SocketCalls) (s : EnclaveServer) :
    Bool × EnclaveServer :=
  match Enclave.create rand with
  | .error _ => (false, s)
  | .ok e =>
    if calls.socket < 0 then (false, { s with enclave := some e, socketFd := calls.socket })
    else if calls.bind = false ∨ calls.listen = false then
      (false, { s with enclave := some e, socketFd := -1 })
    else (true, { s with enclave := some e, socketFd := calls.socket })

/-- `Shutdown`, in whichever flow of control it is called. -/
def shutdown (s : EnclaveServer) : EnclaveServer where
  enclave := none
  socketFd := if s.socketFd ≥ 0 then -1 else s.socketFd
  running := false

end EnclaveServer

/-- A client connection: what the client sends before it ends the stream,
whether it can still receive when the server calls `send` (its end neither
closed nor shut down for reading), and the buffers the server has sent. -/
structure Connection where
  incoming : Chunked UInt8
  peerOpen : Bool
  sent : List Bytes

structure World where
  server : EnclaveServer
  conn : Connection

inductive Fault where
  /-- `enclave_` is dereferenced while it is null. -/
  | nullEnclave
  /-- `send` of these bytes to a closed peer raised `SIGPIPE`. -/
  | sigpipe (data : Bytes)
deriving DecidableEq, Repr

def act [Host] (ssl : Crypto.OpenSSL) (calls : Calls) :
    (o : ServerOp) → World → Except Fault (o.Res × World)
  | .recv n waitAll, w =>
      let r := if waitAll then w.conn.incoming.recvAll n else w.conn.incoming.recv n
      .ok (r.1, { w with conn := { w.conn with incoming := r.2 } })
  | .send data, w =>
      if w.conn.peerOpen then
        .ok ((), { w with conn := { w.conn with sent := w.conn.sent ++ [data] } })
      else .error (.sigpipe data)
  | .callEnclave op, w =>
      match w.server.enclave with
      | none => .error .nullEnclave
      | some e =>
        let r := e.perform ssl calls op
        .ok (r.1, { w with server := { w.server with enclave := some r.2 } })
  | .stopRunning, w => .ok ((), { w with server := { w.server with running := false } })

end OpenEnclave.Server
