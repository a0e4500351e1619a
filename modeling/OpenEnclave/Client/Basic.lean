import OpenEnclave.Lib.Chunked
import OpenEnclave.Lib.Effect
import OpenEnclave.Protocol.Frame
import OpenEnclave.Protocol.Payload
import OpenEnclave.Enclave.Basic

/-!
# Client — `EnclaveClient`

The client of `client_example.cpp`: five methods that each build a
request, pass it to `SendRequest` and take their result from the
response. `SendRequest` is a program over the two socket operations it
uses. All its receives are made with `MSG_WAITALL`, so the cut of the
reply stream plays no role: `exec_sendRequest` reduces it to
`parseReply`, a function of the stream. It checks neither magic nor
version nor checksum.

A method that returns `true` and sets its output parameter is `some` of
the output here, and `false` is `none`.
-/

namespace OpenEnclave.Client

open ByteCodec Protocol Effect

/-! ## Operations -/

inductive ClientOp where
  | send (data : Bytes)
  /-- `recv` with `MSG_WAITALL`. -/
  | recv (n : Nat)

/-- `send` tells whether it succeeded. -/
@[reducible] def ClientOp.Res : ClientOp → Type
  | .send _ => Bool
  | .recv _ => Bytes

abbrev ClientProg (α : Type) := Prog ClientOp ClientOp.Res α

def send (data : Bytes) : ClientProg Bool := Prog.perform (ClientOp.send data)
def recv (n : Nat) : ClientProg Bytes := Prog.perform (ClientOp.recv n)

section
variable [Host]

/-! ## Requests -/

/-- The header the methods put before a payload; size and checksum are
taken from it. -/
def buildRequest (command : CommandType) (payload : Bytes) : Request where
  header :=
    { magic := MessageHeader.MAGIC
      version := MessageHeader.VERSION
      commandType := command.toByte
      flags := 0
      payloadSize := UInt32.ofNat payload.length
      checksum := calculateCRC32 payload }
  payload := payload

def loadModuleRequest (moduleData : Bytes) : Request :=
  buildRequest .loadModule (LoadModuleRequest.serialize { moduleData })

def invokeFunctionRequest (moduleHandle : UInt64) (functionName params : Bytes) : Request :=
  buildRequest .invokeFunction
    (InvokeFunctionRequest.serialize { moduleHandle, functionName, params })

def storeDataRequest (key data : Bytes) : Request :=
  buildRequest .storeData (StoreDataRequest.serialize { key, data })

def retrieveDataRequest (key : Bytes) : Request :=
  buildRequest .retrieveData (RetrieveDataRequest.serialize { key })

omit [Host] in
/-- `GetAttestation` writes size and checksum as constants. -/
def getAttestationRequest : Request where
  header :=
    { magic := MessageHeader.MAGIC
      version := MessageHeader.VERSION
      commandType := CommandType.toByte .getAttestation
      flags := 0
      payloadSize := 0
      checksum := 0 }
  payload := []

/-! ## `SendRequest` -/

def sendRequest (socketFd : Int) (request : Request) : ClientProg (Option Response) :=
  if socketFd < 0 then return none
  else do
    if (← send request.serialize) = false then return none
    else
      let headerBuf ← recv 16
      if headerBuf.length ≠ 16 then return none
      else match MessageHeader.deserialize headerBuf with
        | .error _ => return none
        | .ok header => do
          match ← recv 1 with
          | [code] =>
            if header.payloadSize.toNat > 0 then
              let payload ← recv header.payloadSize.toNat
              if payload.length ≠ header.payloadSize.toNat then return none
              else return some { header, status := ⟨code⟩, payload }
            else return some { header, status := ⟨code⟩, payload := [] }
          | _ => return none

/-! ## The methods -/

def loadModule (socketFd : Int) (moduleData : Bytes) : ClientProg (Option UInt64) := do
  match ← sendRequest socketFd (loadModuleRequest moduleData) with
  | none => return none
  | some response =>
    if response.status ≠ .success then return none
    else match LoadModuleResponse.deserialize response.payload with
      | .error _ => return none
      | .ok resp => return some resp.moduleHandle

/-- The payload of a successful response, which is what three of the
methods return. -/
def payloadOf (request : ClientProg (Option Response)) : ClientProg (Option Bytes) := do
  match ← request with
  | none => return none
  | some response =>
    if response.status ≠ .success then return none else return some response.payload

def invokeFunction (socketFd : Int) (moduleHandle : UInt64) (functionName params : Bytes) :
    ClientProg (Option Bytes) :=
  payloadOf (sendRequest socketFd (invokeFunctionRequest moduleHandle functionName params))

def storeData (socketFd : Int) (key data : Bytes) : ClientProg (Option Unit) := do
  match ← sendRequest socketFd (storeDataRequest key data) with
  | none => return none
  | some response => if response.status = .success then return some () else return none

def retrieveData (socketFd : Int) (key : Bytes) : ClientProg (Option Bytes) :=
  payloadOf (sendRequest socketFd (retrieveDataRequest key))

def getAttestation (socketFd : Int) : ClientProg (Option Bytes) :=
  payloadOf (sendRequest socketFd getAttestationRequest)

/-- The request of a call. -/
def requestOf : EnclaveOp → Request
  | .loadModule moduleData => loadModuleRequest moduleData
  | .invokeFunction handle name params => invokeFunctionRequest handle name params
  | .storeData key data => storeDataRequest key data
  | .retrieveData key => retrieveDataRequest key
  | .getAttestation => getAttestationRequest

/-- The method of a call. -/
def call (socketFd : Int) : (op : EnclaveOp) → ClientProg (Option op.Output)
  | .loadModule moduleData => loadModule socketFd moduleData
  | .invokeFunction handle name params => invokeFunction socketFd handle name params
  | .storeData key data => storeData socketFd key data
  | .retrieveData key => retrieveData socketFd key
  | .getAttestation => getAttestation socketFd

end

/-! ## What the operations do -/

/-- The client's end of a connection: the reply stream, whether the
server still has its end open, and what the client has sent. -/
structure Link where
  replies : Chunked UInt8
  peerOpen : Bool
  sent : List Bytes

/-- The client leaves `SIGPIPE` at its default, too. -/
inductive Fault where
  | sigpipe
deriving DecidableEq, Repr

def act : (o : ClientOp) → Link → Except Fault (o.Res × Link)
  | .send data, link =>
      if link.peerOpen then .ok (true, { link with sent := link.sent ++ [data] })
      else .error .sigpipe
  | .recv n, link =>
      .ok ((link.replies.recvAll n).1, { link with replies := (link.replies.recvAll n).2 })

section
variable [Host]

/-- The response at the front of a reply stream. -/
def parseReply (s : Bytes) : Option Response :=
  match MessageHeader.deserialize (s.take 16) with
  | .error _ => none
  | .ok header =>
    match s[16]? with
    | none => none
    | some code =>
      let payload := (s.drop 17).take header.payloadSize.toNat
      if payload.length ≠ header.payloadSize.toNat then none
      else some { header, status := ⟨code⟩, payload }

omit [Host] in
theorem exec_send {α : Type} (data : Bytes) (k : Bool → ClientProg α)
    (replies : Chunked UInt8) (sent : List Bytes) :
    (send data >>= k).exec act ⟨replies, true, sent⟩ =
      (k true).exec act ⟨replies, true, sent ++ [data]⟩ := rfl

omit [Host] in
theorem exec_recv {α : Type} (n : Nat) (k : Bytes → ClientProg α) (replies : Chunked UInt8)
    (sent : List Bytes) :
    (recv n >>= k).exec act ⟨replies, true, sent⟩ =
      (k (replies.elems.take n)).exec act ⟨(replies.recvAll n).2, true, sent⟩ := rfl

/-- **`SendRequest` sends one buffer and parses the reply stream.** -/
theorem exec_sendRequest {socketFd : Int} (hfd : 0 ≤ socketFd) (request : Request)
    (replies : Chunked UInt8) (sent : List Bytes) :
    ∃ rest, (sendRequest socketFd request).exec act ⟨replies, true, sent⟩ =
      .ok (parseReply replies.elems, ⟨rest, true, sent ++ [request.serialize]⟩) := by
  rw [sendRequest, if_neg (by omega), exec_send, if_neg (by decide), exec_recv, parseReply]
  by_cases hlen : (replies.elems.take 16).length ≠ 16
  · -- a truncated header does not deserialize either
    have hshort : (replies.elems.take 16).length < 16 := by
      rw [List.length_take] at hlen ⊢
      omega
    rw [if_pos hlen, MessageHeader.deserialize, if_pos hshort]
    exact ⟨_, rfl⟩
  · rw [if_neg hlen]
    cases MessageHeader.deserialize (replies.elems.take 16) with
    | error fault => exact ⟨_, rfl⟩
    | ok header =>
        have h16 : replies.elems[16]? = (replies.elems.drop 16)[0]? := by
          rw [List.getElem?_drop]
        have h17 : replies.elems.drop 17 = (replies.elems.drop 16).drop 1 := by
          rw [List.drop_drop]
        simp only [exec_recv, Chunked.recvAll_snd_elems, h16, h17]
        cases hdrop : replies.elems.drop 16 with
        | nil => exact ⟨_, rfl⟩
        | cons code rest =>
            simp only [List.take_succ_cons, List.take_zero, List.getElem?_cons_zero,
              List.drop_succ_cons, List.drop_zero]
            by_cases hpos : header.payloadSize.toNat > 0
            · rw [if_pos hpos, exec_recv]
              simp only [Chunked.recvAll_snd_elems, hdrop, List.drop_succ_cons, List.drop_zero]
              split
              · exact ⟨_, rfl⟩
              · exact ⟨_, rfl⟩
            · have hzero : header.payloadSize.toNat = 0 := by omega
              rw [if_neg hpos, hzero, List.take_zero, if_neg (by simp)]
              exact ⟨_, rfl⟩

/-- The parser reads a serialized response back, whatever follows. -/
theorem parseReply_serialize {r : Response}
    (hsize : r.header.payloadSize.toNat = r.payload.length) (rest : Bytes) :
    parseReply (r.serialize ++ rest) = some r := by
  have hs : r.serialize ++ rest = r.header.serialize ++ (r.status.code :: (r.payload ++ rest)) := by
    simp [Response.serialize]
  have hlen := MessageHeader.serialize_length r.header
  have hheader : MessageHeader.deserialize (r.header.serialize) = .ok r.header :=
    MessageHeader.deserialize_ok_iff.mpr (by simp)
  rw [hs, parseReply, List.take_left' hlen, hheader]
  have h16 : (r.header.serialize ++ (r.status.code :: (r.payload ++ rest)))[16]? =
      some r.status.code := by
    rw [List.getElem?_append_right (by omega), hlen]
    rfl
  have h17 : (r.header.serialize ++ (r.status.code :: (r.payload ++ rest))).drop 17 =
      r.payload ++ rest := by
    rw [show 17 = 16 + 1 from rfl, ← List.drop_drop, List.drop_left' hlen]
    rfl
  simp only [h16, h17, hsize, List.take_left', ne_eq, not_true_eq_false, if_false]

/-- The payload of an answer with status `SUCCESS`. -/
def successPayload (answer : Option Response) : Option Bytes :=
  match answer with
  | none => none
  | some response => if response.status ≠ .success then none else some response.payload

/-- What a method takes from the answer of `SendRequest`. -/
def resultOf : (op : EnclaveOp) → Option Response → Option op.Output
  | .loadModule _, answer =>
      match successPayload answer with
      | none => none
      | some payload =>
        match LoadModuleResponse.deserialize payload with
        | .error _ => none
        | .ok resp => some resp.moduleHandle
  | .invokeFunction .., answer => successPayload answer
  | .storeData .., answer => (successPayload answer).map fun _ => ()
  | .retrieveData _, answer => successPayload answer
  | .getAttestation, answer => successPayload answer

omit [Host] in
theorem payloadOf_eq (request : ClientProg (Option Response)) :
    payloadOf request = request >>= fun answer => .ret (successPayload answer) := by
  refine congrArg (request >>= ·) (funext fun answer => ?_)
  cases answer with
  | none => rfl
  | some response =>
      simp only [successPayload]
      split <;> rfl

/-- The methods differ only in their request and in what they take from
the response. -/
theorem call_eq (socketFd : Int) (op : EnclaveOp) :
    call socketFd op =
      sendRequest socketFd (requestOf op) >>= fun answer => .ret (resultOf op answer) := by
  cases op with
  | loadModule data =>
      refine congrArg (sendRequest socketFd _ >>= ·) (funext fun answer => ?_)
      cases answer with
      | none => rfl
      | some response =>
          simp only [resultOf, successPayload]
          split
          · rfl
          · simp only
            split <;> rfl
  | storeData key data =>
      refine congrArg (sendRequest socketFd _ >>= ·) (funext fun answer => ?_)
      cases answer with
      | none => rfl
      | some response =>
          simp only [resultOf, successPayload]
          by_cases h : response.status = .success
          · rw [if_pos h, if_neg (not_not.mpr h)]
            rfl
          · rw [if_neg h, if_pos h]
            rfl
  | invokeFunction handle name params => exact payloadOf_eq _
  | retrieveData key => exact payloadOf_eq _
  | getAttestation => exact payloadOf_eq _

theorem exec_call {socketFd : Int} (hfd : 0 ≤ socketFd) (op : EnclaveOp)
    (replies : Chunked UInt8) (sent : List Bytes) :
    ∃ rest, (call socketFd op).exec act ⟨replies, true, sent⟩ =
      .ok (resultOf op (parseReply replies.elems),
        ⟨rest, true, sent ++ [(requestOf op).serialize]⟩) := by
  obtain ⟨rest, hsend⟩ := exec_sendRequest hfd (requestOf op) replies sent
  refine ⟨rest, ?_⟩
  rw [call_eq, Prog.exec_bind, hsend]
  rfl

end

end OpenEnclave.Client
