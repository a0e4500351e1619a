import OpenEnclave.Client.Remote
import OpenEnclave.Enclave.Store
import OpenEnclave.Lib.Transition

/-!
# Session — several requests over one connection

`EnclaveClient` keeps its connection from `Connect` to `Disconnect` and
issues request after request over it; the server handles one request on
a connection and closes it. The two parties and the bytes between them
are a step relation here: the client's sends and receives interleave
freely with the server's handling and closing. `session_somes_le_one`
is what holds in every state of every run — one request of the session
is answered, no more — and `session_served_iff` says which sessions are
served as separate connections would be.
-/

namespace OpenEnclave.Client

open ByteCodec Protocol Server Relation Transition

/-! ## The two parties -/

inductive ClientPhase where
  | idle
  /-- In the receives of `SendRequest`; the OpenSSL calls made for the
  request will turn out so. -/
  | awaiting (calls : Calls)
  /-- Ended by `SIGPIPE`. -/
  | ended

/-- The server on this connection: in `HandleClient`, before the close,
or back in `accept`. -/
inductive HandlerPhase where
  | serving
  | replied
  | closed
deriving DecidableEq

structure Session where
  /-- The requests the client has yet to issue. -/
  pending : List Input
  client : ClientPhase
  /-- What `SendRequest` returned, request by request, and the server at
  that time. -/
  answers : List (Option Response × EnclaveServer)
  toServer : Bytes
  toClient : Bytes
  handler : HandlerPhase
  server : EnclaveServer

def Session.init (server : EnclaveServer) (requests : List Input) : Session where
  pending := requests
  client := .idle
  answers := []
  toServer := []
  toClient := []
  handler := .serving
  server := server

section
variable [Host]

/-- The receives of `HandleClient` find what they wait for. -/
def Arrived (s : Bytes) : Prop :=
  ∃ header, MessageHeader.deserialize (s.take 16) = .ok header ∧
    16 + header.payloadSize.toNat ≤ s.length

/-- One step of either party. A connection is accepted, and so handled, only
while `running_` is set. -/
inductive SessionStep (ssl : Crypto.OpenSSL) : Session → Session → Prop where
  | send {s : Session} {op : EnclaveOp} {calls : Calls} {rest : List Input} :
      s.client = .idle → s.pending = (op, calls) :: rest → s.handler ≠ .closed →
      SessionStep ssl s { s with
        pending := rest
        client := .awaiting calls
        toServer := s.toServer ++ (requestOf op).serialize }
  /-- `send` to a server that has closed the connection. -/
  | sendClosed {s : Session} :
      s.client = .idle → s.pending ≠ [] → s.handler = .closed →
      SessionStep ssl s { s with client := .ended }
  | handle {s : Session} {calls : Calls} {incoming : Chunked UInt8} {sent : List Bytes}
      {server' : EnclaveServer} :
      s.handler = .serving → s.server.running = true → s.client = .awaiting calls →
      Arrived s.toServer → incoming.elems = s.toServer → HeaderFilled incoming →
      outcome ssl calls s.server incoming true = .ok (sent, server') →
      SessionStep ssl s { s with
        handler := .replied
        server := server'
        toClient := s.toClient ++ sent.flatten }
  | close {s : Session} :
      s.handler = .replied → SessionStep ssl s { s with handler := .closed }
  | receive {s : Session} {calls : Calls} {response : Response} :
      s.client = .awaiting calls → parseReply s.toClient = some response →
      SessionStep ssl s { s with
        client := .idle
        toClient := s.toClient.drop (17 + response.payload.length)
        answers := s.answers ++ [(some response, s.server)] }
  /-- The stream ends before a response; `SendRequest` returns null. -/
  | receiveEnd {s : Session} {calls : Calls} :
      s.client = .awaiting calls → s.handler = .closed → parseReply s.toClient = none →
      SessionStep ssl s { s with
        client := .idle
        toClient := []
        answers := s.answers ++ [(none, s.server)] }

/-! ## What a session should come to -/

/-- A request on a connection of its own. -/
def separately (ssl : Crypto.OpenSSL) (server : EnclaveServer) (request : Input) :
    (Option Response × EnclaveServer) × EnclaveServer :=
  match outcome ssl request.2 server (.whole (requestOf request.1).serialize) true with
  | .error _ => ((none, server), server)
  | .ok (sent, server') => ((parseReply sent.flatten, server'), server')

/-- **The session is served**: every run of the two parties comes to a
state in which every request has its response, and responses and server
states are those of separate connections. -/
def Served (ssl : Crypto.OpenSSL) (server : EnclaveServer) (requests : List Input) : Prop :=
  Eventually (SessionStep ssl)
    (fun s => s.answers = (Mealy.run (separately ssl) server requests).1 ∧
      ∀ a ∈ s.answers, a.1 ≠ none)
    (Session.init server requests)

/-! ## One response per connection -/

/-- How many requests have their response. -/
def Session.somes (s : Session) : Nat := s.answers.countP (·.1.isSome)

/-- The reply channel is empty, or holds the one reply there is. -/
inductive Session.Inv (ssl : Crypto.OpenSSL) (s : Session) : Prop where
  | before : s.handler = .serving → Server.Reachable ssl s.server → s.toClient = [] →
      s.somes = 0 → Session.Inv ssl s
  | underway (reply : Response) : s.handler ≠ .serving → WellFormed reply →
      s.toClient = reply.serialize → s.somes = 0 → Session.Inv ssl s
  | after : s.handler ≠ .serving → s.toClient = [] → s.somes ≤ 1 → Session.Inv ssl s

omit [Host] in
theorem somes_snoc (answers : List (Option Response × EnclaveServer))
    (a : Option Response × EnclaveServer) :
    (answers ++ [a]).countP (·.1.isSome) =
      answers.countP (·.1.isSome) + if a.1.isSome then 1 else 0 := by
  rw [List.countP_append, List.countP_singleton]

theorem parseReply_nil : parseReply [] = none := by
  rw [parseReply, MessageHeader.deserialize, if_pos (by decide)]

theorem parseReply_reply {reply : Response} (h : WellFormed reply) :
    parseReply reply.serialize = some reply := by
  have hparse := parseReply_serialize h.size []
  rwa [List.append_nil] at hparse

theorem Session.inv_init {ssl : Crypto.OpenSSL} {server : EnclaveServer}
    (hreach : Server.Reachable ssl server) (requests : List Input) :
    (Session.init server requests).Inv ssl :=
  .before rfl hreach rfl rfl

/-- **One step keeps the invariant.** -/
theorem Session.Inv.step {ssl : Crypto.OpenSSL} {s s' : Session} (hI : s.Inv ssl)
    (h : SessionStep ssl s s') : s'.Inv ssl := by
  cases h with
  | send hclient hpending hopen =>
      cases hI with
      | before hs hr ht hc => exact .before hs hr ht hc
      | underway reply hs hwf ht hc => exact .underway reply hs hwf ht hc
      | after hs ht hc => exact .after hs ht hc
  | sendClosed hclient hpending hclosed =>
      cases hI with
      | before hs hr ht hc => exact .before hs hr ht hc
      | underway reply hs hwf ht hc => exact .underway reply hs hwf ht hc
      | after hs ht hc => exact .after hs ht hc
  | @handle calls incoming sent server' hserving _ hclient harrived helems hfilled hout =>
      cases hI with
      | before hs hr ht hc =>
          -- the one time this connection is handled
          obtain ⟨reply, server₁, hserve, hwf⟩ := serve_wellFormed hr calls incoming
          obtain ⟨-, reply', rfl, hserve'⟩ := outcome_ok hout
          rw [hserve] at hserve'
          cases hserve'
          exact .underway reply (by simp) hwf (by simp [ht]) hc
      | underway reply hs hwf ht hc => exact absurd hserving hs
      | after hs ht hc => exact absurd hserving hs
  | close hreplied =>
      cases hI with
      | before hs hr ht hc => rw [hs] at hreplied; cases hreplied
      | underway reply hs hwf ht hc => exact .underway reply (by simp) hwf ht hc
      | after hs ht hc => exact .after (by simp) ht hc
  | receive hclient hparse =>
      cases hI with
      | before hs hr ht hc => rw [ht, parseReply_nil] at hparse; cases hparse
      | underway reply hs hwf ht hc =>
          rw [ht, parseReply_reply hwf] at hparse
          cases hparse
          -- the receive takes the whole reply, and the server sends no other
          refine .after hs ?_ ?_
          · simp [ht]
          · simp only [Session.somes, somes_snoc] at hc ⊢
            simp [hc]
      | after hs ht hc => rw [ht, parseReply_nil] at hparse; cases hparse
  | receiveEnd hclient hclosed hparse =>
      cases hI with
      | before hs hr ht hc => rw [hs] at hclosed; cases hclosed
      | underway reply hs hwf ht hc => rw [ht, parseReply_reply hwf] at hparse; cases hparse
      | after hs ht hc =>
          refine .after hs rfl ?_
          simp only [Session.somes, somes_snoc] at hc ⊢
          simpa using hc

/-- **At most one request of a session is answered**, in every state of
every run. -/
theorem session_somes_le_one {ssl : Crypto.OpenSSL} {server : EnclaveServer}
    (hreach : Server.Reachable ssl server) {requests : List Input} {s : Session}
    (hrun : ReflTransGen (SessionStep ssl) (Session.init server requests) s) :
    s.somes ≤ 1 := by
  have hI : s.Inv ssl :=
    Transition.invariant (fun _ _ h hI => Session.Inv.step hI h) hrun
      (Session.inv_init hreach requests)
  cases hI with
  | before hs hr ht hc => omega
  | underway reply hs hwf ht hc => omega
  | after hs ht hc => exact hc

theorem not_served_of_two {ssl : Crypto.OpenSSL} {server : EnclaveServer}
    (hreach : Server.Reachable ssl server) {requests : List Input}
    (hlen : 2 ≤ requests.length) : ¬ Served ssl server requests := by
  intro h
  obtain ⟨s, hrun, heq, hsome⟩ := Eventually.reaches h
  have hle := session_somes_le_one hreach hrun
  have hall : s.somes = s.answers.length := by
    refine List.countP_eq_length.mpr fun a ha => ?_
    exact Option.isSome_iff_ne_none.mpr (hsome a ha)
  rw [hall, heq, Mealy.run_length] at hle
  omega

/-! ## One request is served -/

/-- The reply is on its way and the client waits for it. -/
structure Session.Replied (reply : Response) (s : Session) : Prop where
  client : ∃ calls, s.client = .awaiting calls
  handler : s.handler ≠ .serving
  toClient : s.toClient = reply.serialize
  answers : s.answers = []

theorem Session.Replied.step {ssl : Crypto.OpenSSL} {reply : Response} (hwf : WellFormed reply)
    {s s' : Session} (h : s.Replied reply) (hstep : SessionStep ssl s s') :
    s'.answers = [(some reply, s.server)] ∨
      (s.handler = .replied ∧ s'.handler = .closed ∧ s'.server = s.server ∧
        s'.Replied reply) := by
  obtain ⟨calls, hclient⟩ := h.client
  have hparse : parseReply s.toClient = some reply := by
    rw [h.toClient, parseReply_reply hwf]
  cases hstep with
  | send hidle hpending hopen => rw [hclient] at hidle; cases hidle
  | sendClosed hidle hpending hclosed => rw [hclient] at hidle; cases hidle
  | handle hserving _ _ _ _ _ _ => exact absurd hserving h.handler
  | close hreplied =>
      exact .inr ⟨hreplied, rfl, rfl, ⟨⟨calls, hclient⟩, by simp, h.toClient, h.answers⟩⟩
  | receive _ hparse' =>
      rw [hparse] at hparse'
      cases hparse'
      exact .inl (by simp [h.answers])
  | receiveEnd _ _ hnone => rw [hparse] at hnone; cases hnone

/-- Whether the server closes before or after, the client receives. -/
theorem Session.Replied.eventually {ssl : Crypto.OpenSSL} {reply : Response}
    (hwf : WellFormed reply) {s : Session} (h : s.Replied reply) :
    Eventually (SessionStep ssl) (fun t => t.answers = [(some reply, s.server)]) s := by
  have henabled : ∀ t : Session, t.Replied reply → ∃ t', SessionStep ssl t t' := by
    intro t ht
    obtain ⟨calls, hclient⟩ := ht.client
    exact ⟨_, .receive hclient (by rw [ht.toClient, parseReply_reply hwf])⟩
  refine .later (henabled s h) fun s₁ h₁ => ?_
  rcases h.step hwf h₁ with hdone | ⟨-, hclosed, hserver, hreplied₁⟩
  · exact .now hdone
  · -- after the close only the receive is left
    refine .later (henabled s₁ hreplied₁) fun s₂ h₂ => ?_
    rcases hreplied₁.step hwf h₂ with hdone | ⟨hreplied, -⟩
    · rw [hserver] at hdone
      exact .now hdone
    · rw [hclosed] at hreplied
      cases hreplied

/-- The outcome of a connection whose header arrives whole is that of the
stream. -/
theorem outcome_of_headerFilled (ssl : Crypto.OpenSSL) (calls : Calls)
    (server : EnclaveServer) {incoming : Chunked UInt8} (h : HeaderFilled incoming)
    (peerOpen : Bool) :
    outcome ssl calls server incoming peerOpen =
      outcome ssl calls server (.whole incoming.elems) peerOpen := by
  rw [outcome_eq, outcome_eq, commandOf, commandOf, receive_of_headerFilled h,
    receive_of_headerFilled (headerFilled_whole _), Chunked.elems_whole]

/-- A client's frame has all its header announces. -/
theorem arrived_requestOf (op : EnclaveOp) : Arrived (requestOf op).serialize := by
  have hsize : (requestOf op).header.payloadSize.toNat ≤ (requestOf op).payload.length := by
    rw [requestOf_eq op]
    simp only [buildRequest, UInt32.toNat_ofNat']
    exact Nat.mod_le _ _
  refine ⟨(requestOf op).header, ?_, ?_⟩
  · rw [Request.serialize, List.take_left' (MessageHeader.serialize_length _)]
    exact MessageHeader.deserialize_ok_iff.mpr (by simp)
  · rw [Request.serialize_length]
    omega

/-- The request is on its way. -/
structure Session.Sent (op : EnclaveOp) (calls : Calls) (server : EnclaveServer) (s : Session) :
    Prop where
  client : s.client = .awaiting calls
  handler : s.handler = .serving
  toServer : s.toServer = (requestOf op).serialize
  toClient : s.toClient = []
  answers : s.answers = []
  server : s.server = server

/-- All that can happen to a request on its way is that it is handled. -/
theorem Session.Sent.eventually {ssl : Crypto.OpenSSL} {op : EnclaveOp} {calls : Calls}
    {server server' : EnclaveServer} {reply : Response} (hrunning : server.running = true)
    (hwf : WellFormed reply)
    (hout : outcome ssl calls server (.whole (requestOf op).serialize) true =
      .ok ([reply.serialize], server')) {s : Session} (h : s.Sent op calls server) :
    Eventually (SessionStep ssl) (fun t => t.answers = [(some reply, server')]) s := by
  have harrived : Arrived s.toServer := by
    rw [h.toServer]
    exact arrived_requestOf op
  refine .later ⟨_, .handle h.handler (h.server ▸ hrunning) h.client harrived
    (by rw [Chunked.elems_whole, h.toServer]) (headerFilled_whole _)
    (by rw [h.server]; exact hout)⟩ fun s₁ h₁ => ?_
  cases h₁ with
  | send hidle hpending hopen => rw [h.client] at hidle; cases hidle
  | sendClosed hidle hpending hclosed => rw [h.client] at hidle; cases hidle
  | @handle calls₁ incoming sent server₁ hserving _ hclient _ helems hfilled hout₁ =>
      rw [h.client] at hclient
      cases hclient
      rw [h.server, outcome_of_headerFilled ssl calls server hfilled, helems, h.toServer,
        hout] at hout₁
      cases hout₁
      have hreplied : Session.Replied reply { s with
          handler := .replied
          server := server'
          toClient := s.toClient ++ [reply.serialize].flatten } :=
        ⟨⟨calls, h.client⟩, by simp, by simp [h.toClient], h.answers⟩
      exact hreplied.eventually hwf
  | close hreplied => rw [h.handler] at hreplied; cases hreplied
  | receive _ hparse => rw [h.toClient, parseReply_nil] at hparse; cases hparse
  | receiveEnd _ hclosed _ => rw [h.handler] at hclosed; cases hclosed

theorem served_singleton {ssl : Crypto.OpenSSL} {server : EnclaveServer}
    (hreach : Server.Reachable ssl server) (hrunning : server.running = true) (request : Input) :
    Served ssl server [request] := by
  obtain ⟨op, calls⟩ := request
  obtain ⟨reply, server', hout, hwf⟩ :=
    exists_sent hreach calls (.whole (requestOf op).serialize)
  have hexpected : (Mealy.run (separately ssl) server [(op, calls)]).1 =
      [(some reply, server')] := by
    simp [separately, hout, parseReply_reply hwf]
  rw [Served, hexpected]
  refine Eventually.mono (P := fun t => t.answers = [(some reply, server')])
    (fun t ht => ⟨ht, by simp [ht]⟩) ?_
  refine .later ⟨_, .send rfl rfl (by simp [Session.init])⟩ fun s₁ h₁ => ?_
  cases h₁ with
  | send hidle hpending hopen =>
      cases hpending
      exact Session.Sent.eventually hrunning hwf hout ⟨rfl, rfl, rfl, rfl, rfl, rfl⟩
  | sendClosed hidle hpending hclosed => cases hclosed
  | handle _ _ hclient _ _ _ _ => cases hclient
  | close hreplied => cases hreplied
  | receive hclient _ => cases hclient
  | receiveEnd hclient _ _ => cases hclient

/-- **Which sessions are served** while the server is running: those of at
most one request. The server closes the connection after its first
reply. -/
theorem session_served_iff (ssl : Crypto.OpenSSL) (server : EnclaveServer)
    (hreach : Server.Reachable ssl server) (hrunning : server.running = true)
    (requests : List Input) :
    Served ssl server requests ↔ requests.length ≤ 1 := by
  constructor
  · intro h
    by_contra hlen
    exact not_served_of_two hreach (by omega) h
  · intro hlen
    cases requests with
    | nil => exact .now ⟨rfl, by simp [Session.init]⟩
    | cons request rest =>
        have hrest : rest = [] := by
          rw [← List.length_eq_zero_iff]
          simp only [List.length_cons] at hlen
          omega
        subst hrest
        exact served_singleton hreach hrunning request

end

/-- A session of one request for attestation. -/
theorem session_served_iff_attestation :
    letI := Host.littleEndian
    Served Crypto.sampleGcm sampleServer
      [(.getAttestation, ⟨.succeed Crypto.zeroIV, .succeed⟩)] := by
  let := Host.littleEndian
  exact (session_served_iff Crypto.sampleGcm sampleServer sampleServer_reachable rfl _).mpr
    (by simp)

/-- A client that asks for attestation twice is left without its second
response. -/
theorem second_request_unanswered :
    letI := Host.littleEndian
    ¬ Served Crypto.sampleGcm sampleServer
      [(.getAttestation, ⟨.succeed Crypto.zeroIV, .succeed⟩),
        (.getAttestation, ⟨.succeed Crypto.zeroIV, .succeed⟩)] := by
  let := Host.littleEndian
  exact not_served_of_two sampleServer_reachable (by simp)

end OpenEnclave.Client
