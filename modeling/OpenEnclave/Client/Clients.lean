import OpenEnclave.Lib.Linearizable
import OpenEnclave.Client.Session

/-!
# Clients — many clients of one server

Any number of clients, each with a connection of its own, and the one
thread of the server that accepts, handles and closes one connection
after the other. The clients' connects, sends and receives interleave
freely with the server's steps. What the clients get is what calls of
the enclave itself, made one after the other, would have given them
(`clients_linearizable`): the framing, the checksum, the reply and the
order in which connections are accepted leave no other trace. Every call
is answered if no client connects without calling (`clients_return`);
one that does, and is next, stops the service for all
(`silent_client_blocks`).

A client here makes one call and stays until it is answered; the header
of its request is there at the server's first receive; and no signals
come.
-/

namespace OpenEnclave.Client

open ByteCodec Protocol Server Relation Transition EnclaveImpl
open Family
open Linearizable (Event Atomic Phase Reached)

/-! ## Clients and server -/

inductive Place where
  | away
  /-- After `Connect`, before a method is called. -/
  | connected
  /-- In the receives of `SendRequest`; the OpenSSL calls made for the
  request will turn out so. -/
  | calling (op : EnclaveOp) (calls : Calls)
  | finished

/-- A client and the bytes under way on its connection. -/
structure Peer where
  place : Place
  toServer : Bytes
  toClient : Bytes
  /-- The server has closed its end. -/
  closed : Bool

/-- Where the thread of the server is in `Run`. -/
inductive Service (τ : Type) where
  | accepting
  | handling (t : τ)
  | closing (t : τ)

/-- What a client's method returned. -/
abbrev Answer := Σ op : EnclaveOp, Option op.Output

structure Clients (τ : Type) where
  peer : τ → Peer
  /-- The connections made and not yet accepted. -/
  backlog : List τ
  service : Service τ
  server : EnclaveServer
  history : List (Event τ Input Answer)

def Clients.init (τ : Type) (server : EnclaveServer) : Clients τ where
  peer := fun _ => ⟨.away, [], [], false⟩
  backlog := []
  service := .accepting
  server := server
  history := []

/-- The connection in service, and those behind it. -/
def Service.line {τ : Type} (backlog : List τ) : Service τ → List τ
  | .accepting => backlog
  | .handling t => t :: backlog
  | .closing _ => backlog

theorem Service.line_append {τ : Type} (backlog rest : List τ) (service : Service τ) :
    service.line (backlog ++ rest) = service.line backlog ++ rest := by
  cases service <;> rfl

/-- The connections the server has yet to answer, in their order. -/
def Clients.line {τ : Type} (s : Clients τ) : List τ := s.service.line s.backlog

section
variable [Host] {τ : Type} [DecidableEq τ]

/-- A step that needs no new call. -/
inductive ServiceStep (ssl : Crypto.OpenSSL) : Clients τ → Clients τ → Prop where
  | accept {s : Clients τ} {t : τ} {rest : List τ} :
      s.service = .accepting → s.server.running = true → s.backlog = t :: rest →
      ServiceStep ssl s { s with service := .handling t, backlog := rest }
  /-- `HandleClient` returns once the receives have found what they wait
  for. -/
  | handle {s : Clients τ} {t : τ} {op : EnclaveOp} {calls : Calls} {incoming : Chunked UInt8}
      {sent : List Bytes} {server' : EnclaveServer} :
      s.service = .handling t → (s.peer t).place = .calling op calls →
      Arrived (s.peer t).toServer → incoming.elems = (s.peer t).toServer →
      HeaderFilled incoming →
      outcome ssl calls s.server incoming true = .ok (sent, server') →
      ServiceStep ssl s { s with
        service := .closing t
        server := server'
        peer := Function.update s.peer t
          { s.peer t with toServer := [], toClient := (s.peer t).toClient ++ sent.flatten } }
  | close {s : Clients τ} {t : τ} : s.service = .closing t →
      ServiceStep ssl s { s with
        service := .accepting
        peer := Function.update s.peer t { s.peer t with closed := true } }
  | receive {s : Clients τ} {t : τ} {op : EnclaveOp} {calls : Calls} {response : Response} :
      (s.peer t).place = .calling op calls →
      parseReply (s.peer t).toClient = some response →
      ServiceStep ssl s { s with
        peer := Function.update s.peer t { s.peer t with
          place := .finished
          toClient := (s.peer t).toClient.drop (17 + response.payload.length) }
        history := s.history ++ [.ret t ⟨op, resultOf op (some response)⟩] }
  /-- The stream ends before a response. -/
  | receiveEnd {s : Clients τ} {t : τ} {op : EnclaveOp} {calls : Calls} :
      (s.peer t).place = .calling op calls → (s.peer t).closed = true →
      parseReply (s.peer t).toClient = none →
      ServiceStep ssl s { s with
        peer := Function.update s.peer t { s.peer t with place := .finished, toClient := [] }
        history := s.history ++ [.ret t ⟨op, resultOf op none⟩] }

/-- A step of the clients and the server. A request is below 4 GiB, which
is what its header can say. -/
inductive ClientsStep (ssl : Crypto.OpenSSL) : Clients τ → Clients τ → Prop where
  | connect {s : Clients τ} {t : τ} : (s.peer t).place = .away →
      ClientsStep ssl s { s with
        peer := Function.update s.peer t { s.peer t with place := .connected }
        backlog := s.backlog ++ [t] }
  | call {s : Clients τ} {t : τ} (op : EnclaveOp) (calls : Calls) :
      (s.peer t).place = .connected → (requestOf op).payload.length < 2 ^ 32 →
      ClientsStep ssl s { s with
        peer := Function.update s.peer t
          { s.peer t with place := .calling op calls, toServer := (requestOf op).serialize }
        history := s.history ++ [.call t (op, calls)] }
  | served {s s' : Clients τ} : ServiceStep ssl s s' → ClientsStep ssl s s'

/-! ## The calls one after the other -/

/-- A call through a client, made alone: the enclave's own, except that
one that exceeds the caps of the protocol does not reach it. -/
def remoteStep (ssl : Crypto.OpenSSL) (e : EnclaveImpl) (i : Input) : Answer × EnclaveImpl :=
  if Fits i.1 then
    (⟨i.1, (e.perform ssl i.2 i.1).1.toOption⟩, (e.perform ssl i.2 i.1).2)
  else (⟨i.1, none⟩, e)

omit [DecidableEq τ] in
/-- **What `HandleClient` does with a client's frame**: the reply carries
the result, and the enclave moves on. -/
theorem outcome_requestOf {ssl : Crypto.OpenSSL} {server server' : EnclaveServer}
    {e : EnclaveImpl} (hreach : Server.Reachable ssl server) (he : server.enclave = some e)
    {op : EnclaveOp} {calls : Calls} (hsize : (requestOf op).payload.length < 2 ^ 32)
    {incoming : Chunked UInt8} (helems : incoming.elems = (requestOf op).serialize)
    (hfilled : HeaderFilled incoming) {sent : List Bytes}
    (hout : outcome ssl calls server incoming true = .ok (sent, server')) :
    ∃ reply, sent.flatten = reply.serialize ∧ WellFormed reply ∧
      (remoteStep ssl e (op, calls)).1 = ⟨op, resultOf op (some reply)⟩ ∧
      server'.enclave = some (remoteStep ssl e (op, calls)).2 ∧
      server'.running = server.running := by
  obtain ⟨reply, server₁, hserve, hwf⟩ := serve_wellFormed hreach calls incoming
  obtain ⟨-, reply', rfl, hserve'⟩ := outcome_ok hout
  rw [hserve] at hserve'
  cases hserve'
  rw [commandOf_requestOf hsize helems hfilled] at hserve
  refine ⟨reply, by simp, hwf, ?_⟩
  rw [remoteStep]
  by_cases hfits : Fits op
  · rw [if_pos hfits] at hserve ⊢
    simp only [serve, he, Except.ok.injEq, Prod.mk.injEq] at hserve
    obtain ⟨rfl, rfl⟩ := hserve
    exact ⟨by rw [resultOf_callReply], rfl, rfl⟩
  · rw [if_neg hfits] at hserve ⊢
    simp only [serve, Except.ok.injEq, Prod.mk.injEq] at hserve
    obtain ⟨rfl, rfl⟩ := hserve
    exact ⟨by rw [resultOf_of_status_ne (by decide)], he, rfl⟩

/-! ## The simulation -/

/-- A client and the atomic object at the same point of its call, which
takes effect as the server handles the connection. -/
inductive Follows (inLine : Prop) : Peer → Phase Input Answer → Prop where
  | away : ¬ inLine → Follows inLine ⟨.away, [], [], false⟩ .idle
  | connected : inLine → Follows inLine ⟨.connected, [], [], false⟩ .idle
  | asking {op : EnclaveOp} {calls : Calls} : inLine →
      (requestOf op).payload.length < 2 ^ 32 →
      Follows inLine ⟨.calling op calls, (requestOf op).serialize, [], false⟩ (.called (op, calls))
  | answered {op : EnclaveOp} {calls : Calls} {toServer : Bytes} {closed : Bool}
      (reply : Response) : ¬ inLine → WellFormed reply →
      Follows inLine ⟨.calling op calls, toServer, reply.serialize, closed⟩
        (.done ⟨op, resultOf op (some reply)⟩)
  | finished {toServer toClient : Bytes} {closed : Bool} : ¬ inLine →
      Follows inLine ⟨.finished, toServer, toClient, closed⟩ .idle

/-- The enclave behind the server is the atomic object's state. -/
structure Clients.Sim (ssl : Crypto.OpenSSL) (s : Clients τ)
    (a : Atomic τ Input Answer EnclaveImpl) : Prop where
  history : s.history = a.history
  reachable : Server.Reachable ssl s.server
  running : s.server.running = true
  enclave : s.server.enclave = some a.state
  line : s.line.Nodup
  closing : ∀ t, s.service = .closing t → (s.peer t).place ≠ .away ∧ t ∉ s.line
  peers : ∀ t, Follows (t ∈ s.line) (s.peer t) (a.phase t)

omit [DecidableEq τ] in
theorem Clients.sim_init {ssl : Crypto.OpenSSL} {server : EnclaveServer} {e : EnclaveImpl}
    (hreach : Server.Reachable ssl server) (hrun : server.running = true)
    (he : server.enclave = some e) :
    (Clients.init τ server).Sim ssl (Atomic.init τ Input Answer e) where
  history := rfl
  reachable := hreach
  running := hrun
  enclave := he
  line := List.nodup_nil
  closing := fun t ht => by cases ht
  peers := fun t => .away (by simp [Clients.line, Clients.init, Service.line])

omit [DecidableEq τ] in
theorem Follows.congr {p q : Prop} (hpq : p ↔ q) {peer : Peer} {φ : Phase Input Answer}
    (h : Follows p peer φ) : Follows q peer φ :=
  propext hpq ▸ h

variable {ssl : Crypto.OpenSSL} {s s' : Clients τ} {a : Atomic τ Input Answer EnclaveImpl} {t : τ}

/-- The connection that is being closed is neither away nor in line,
whatever else changes at a client. -/
theorem Clients.Sim.closing_update (hS : s.Sim ssl a) {p : Peer} (hp : p.place ≠ .away) {u : τ}
    (hu : s.service = .closing u) :
    (Function.update s.peer t p u).place ≠ .away ∧ u ∉ s.line := by
  obtain ⟨hgone, hnot⟩ := hS.closing u hu
  refine ⟨?_, hnot⟩
  by_cases h : u = t
  · subst h
    rwa [Function.update_self]
  · rwa [Function.update_of_ne h]

theorem Clients.Sim.connect (hS : s.Sim ssl a) (ht : (s.peer t).place = .away) :
    Clients.Sim ssl { s with
      peer := Function.update s.peer t { s.peer t with place := .connected }
      backlog := s.backlog ++ [t] } a := by
  have hline : s.service.line (s.backlog ++ [t]) = s.line ++ [t] :=
    Service.line_append s.backlog [t] s.service
  have hfollows := hS.peers t
  have hplace := ht
  generalize hp : s.peer t = p at hfollows ht
  generalize hφ : a.phase t = φ at hfollows
  cases hfollows with
  | away hnot =>
      refine ⟨hS.history, hS.reachable, hS.running, hS.enclave, ?_, fun u hu => ?_,
        update_related_left ?_ fun u hu => ?_⟩
      · show (s.service.line (s.backlog ++ [t])).Nodup
        rw [hline, List.nodup_append]
        refine ⟨hS.line, by simp, fun u hu v hv huv => hnot ?_⟩
        rw [List.mem_singleton] at hv
        rwa [← hv, ← huv]
      · show _ ∧ u ∉ s.service.line (s.backlog ++ [t])
        obtain ⟨hgone, hout⟩ := hS.closing u hu
        have hut : u ≠ t := by
          rintro rfl
          exact hgone hplace
        refine ⟨(hS.closing_update (by simp) hu).1, ?_⟩
        rw [hline]
        simp [hout, hut]
      · show Follows (t ∈ s.service.line (s.backlog ++ [t])) _ _
        rw [hline, hφ]
        exact .connected (by simp)
      · show Follows (u ∈ s.service.line (s.backlog ++ [t])) _ _
        rw [hline]
        exact (hS.peers u).congr (by simp [hu])
  | connected _ => cases ht
  | asking _ _ => cases ht
  | answered _ _ _ => cases ht
  | finished _ => cases ht

theorem Clients.Sim.call (hS : s.Sim ssl a) {op : EnclaveOp} {calls : Calls}
    (ht : (s.peer t).place = .connected) (hsize : (requestOf op).payload.length < 2 ^ 32) :
    ∃ a', ReflTransGen (Linearizable.Step (remoteStep ssl)) a a' ∧
      Clients.Sim ssl { s with
        peer := Function.update s.peer t
          { s.peer t with place := .calling op calls, toServer := (requestOf op).serialize }
        history := s.history ++ [.call t (op, calls)] } a' := by
  have hfollows := hS.peers t
  generalize hp : s.peer t = p at hfollows ht
  generalize hφ : a.phase t = φ at hfollows
  cases hfollows with
  | connected hin =>
      exact ⟨_, .single (.call (op, calls) hφ), by simp only [hS.history], hS.reachable,
        hS.running, hS.enclave, hS.line, fun u hu => hS.closing_update (by simp) hu,
        update_related (.asking hin hsize) fun u _ => hS.peers u⟩
  | away _ => cases ht
  | asking _ _ => cases ht
  | answered _ _ _ => cases ht
  | finished _ => cases ht

omit [DecidableEq τ] in
theorem Clients.Sim.accept (hS : s.Sim ssl a) {rest : List τ} (hservice : s.service = .accepting)
    (hbacklog : s.backlog = t :: rest) :
    Clients.Sim ssl { s with service := .handling t, backlog := rest } a := by
  have hline : s.line = t :: rest := by rw [Clients.line, hservice, hbacklog]; rfl
  refine ⟨hS.history, hS.reachable, hS.running, hS.enclave, ?_, (fun u hu => by cases hu),
    fun u => ?_⟩
  · have hnodup := hS.line
    rwa [hline] at hnodup
  · have hfollows := hS.peers u
    rwa [hline] at hfollows

/-- **The call takes effect as the server handles the connection.** -/
theorem Clients.Sim.handle (hS : s.Sim ssl a) {op : EnclaveOp} {calls : Calls}
    {incoming : Chunked UInt8} {sent : List Bytes} {server' : EnclaveServer}
    (hservice : s.service = .handling t) (ht : (s.peer t).place = .calling op calls)
    (helems : incoming.elems = (s.peer t).toServer) (hfilled : HeaderFilled incoming)
    (hout : outcome ssl calls s.server incoming true = .ok (sent, server')) :
    ∃ a', ReflTransGen (Linearizable.Step (remoteStep ssl)) a a' ∧
      Clients.Sim ssl { s with
        service := .closing t
        server := server'
        peer := Function.update s.peer t { s.peer t with
          toServer := []
          toClient := (s.peer t).toClient ++ sent.flatten } } a' := by
  have hline : s.line = t :: s.backlog := by rw [Clients.line, hservice]; rfl
  have hnodup := hS.line
  rw [hline, List.nodup_cons] at hnodup
  have hfollows := hS.peers t
  rw [hline] at hfollows
  generalize hp : s.peer t = p at hfollows ht helems
  generalize hφ : a.phase t = φ at hfollows
  cases hfollows with
  | asking hin hsize =>
      cases ht
      obtain ⟨reply, hsent, hwf, hresult, henclave, hrunning⟩ :=
        outcome_requestOf hS.reachable hS.enclave hsize helems hfilled hout
      refine ⟨_, .single (.effect hφ), hS.history,
        .connection calls incoming true hS.reachable hS.running hout, hrunning.trans hS.running,
        henclave, hnodup.2, fun u hu => ?_, update_related ?_ fun u hu => ?_⟩
      · cases hu
        exact ⟨by simp, hnodup.1⟩
      · rw [hresult, hsent, List.nil_append]
        exact .answered reply hnodup.1 hwf
      · have hu' := hS.peers u
        rw [hline] at hu'
        exact hu'.congr (by simp [Clients.line, Service.line, hu])
  | answered _ hnot _ => exact absurd (by simp) hnot
  | away _ => cases ht
  | connected _ => cases ht
  | finished _ => cases ht

theorem Clients.Sim.close (hS : s.Sim ssl a) (hservice : s.service = .closing t) :
    Clients.Sim ssl { s with
      service := .accepting
      peer := Function.update s.peer t { s.peer t with closed := true } } a := by
  have hline : s.line = s.backlog := by rw [Clients.line, hservice]; rfl
  obtain ⟨hgone, hnot⟩ := hS.closing t hservice
  have hfollows := hS.peers t
  rw [hline] at hfollows hnot
  refine ⟨hS.history, hS.reachable, hS.running, hS.enclave, ?_, (fun u hu => by cases hu),
    update_related_left ?_ fun u hu => ?_⟩
  · have hnodup := hS.line
    rwa [hline] at hnodup
  · generalize hp : s.peer t = p at hfollows hgone
    generalize a.phase t = φ at hfollows
    cases hfollows with
    | away _ => exact absurd rfl hgone
    | connected hin => exact absurd hin hnot
    | asking hin _ => exact absurd hin hnot
    | answered reply _ hwf => exact .answered reply hnot hwf
    | finished _ => exact .finished hnot
  · have h := hS.peers u
    rwa [hline] at h

theorem Clients.Sim.receive (hS : s.Sim ssl a) {op : EnclaveOp} {calls : Calls}
    {response : Response} (ht : (s.peer t).place = .calling op calls)
    (hparse : parseReply (s.peer t).toClient = some response) :
    ∃ a', ReflTransGen (Linearizable.Step (remoteStep ssl)) a a' ∧
      Clients.Sim ssl { s with
        peer := Function.update s.peer t { s.peer t with
          place := .finished
          toClient := (s.peer t).toClient.drop (17 + response.payload.length) }
        history := s.history ++ [.ret t ⟨op, resultOf op (some response)⟩] } a' := by
  have hfollows := hS.peers t
  generalize hp : s.peer t = p at hfollows ht hparse
  generalize hφ : a.phase t = φ at hfollows
  cases hfollows with
  | asking _ _ => rw [parseReply_nil] at hparse; cases hparse
  | answered reply hnot hwf =>
      cases ht
      rw [parseReply_reply hwf] at hparse
      cases hparse
      exact ⟨_, .single (.ret hφ), by simp only [hS.history], hS.reachable, hS.running,
        hS.enclave, hS.line, fun u hu => hS.closing_update (by simp) hu,
        update_related (.finished hnot) fun u _ => hS.peers u⟩
  | away _ => cases ht
  | connected _ => cases ht
  | finished _ => cases ht

omit [DecidableEq τ] in
/-- No client sees its stream end before its reply. -/
theorem Clients.Sim.not_receiveEnd (hS : s.Sim ssl a) {op : EnclaveOp} {calls : Calls}
    (ht : (s.peer t).place = .calling op calls) (hclosed : (s.peer t).closed = true) :
    parseReply (s.peer t).toClient ≠ none := by
  have hfollows := hS.peers t
  generalize s.peer t = p at hfollows ht hclosed
  generalize a.phase t = φ at hfollows
  cases hfollows with
  | asking _ _ => cases hclosed
  | answered reply _ hwf => simp [parseReply_reply hwf]
  | away _ => cases ht
  | connected _ => cases ht
  | finished _ => cases ht

/-- **One step**: the atomic object follows. -/
theorem Clients.Sim.serviceStep (hS : s.Sim ssl a) (h : ServiceStep ssl s s') :
    ∃ a', ReflTransGen (Linearizable.Step (remoteStep ssl)) a a' ∧ s'.Sim ssl a' := by
  cases h with
  | accept hservice _ hbacklog => exact ⟨a, .refl, hS.accept hservice hbacklog⟩
  | handle hservice ht _ helems hfilled hout => exact hS.handle hservice ht helems hfilled hout
  | close hservice => exact ⟨a, .refl, hS.close hservice⟩
  | receive ht hparse => exact hS.receive ht hparse
  | receiveEnd ht hclosed hparse => exact absurd hparse (hS.not_receiveEnd ht hclosed)

theorem Clients.Sim.step (hS : s.Sim ssl a) (h : ClientsStep ssl s s') :
    ∃ a', ReflTransGen (Linearizable.Step (remoteStep ssl)) a a' ∧ s'.Sim ssl a' := by
  cases h with
  | connect ht => exact ⟨a, .refl, hS.connect ht⟩
  | call op calls ht hsize => exact hS.call ht hsize
  | served hstep => exact hS.serviceStep hstep

/-- The states that clients and a server reach. -/
def Clients.Runs (ssl : Crypto.OpenSSL) (server : EnclaveServer) (s : Clients τ) : Prop :=
  ReflTransGen (ClientsStep ssl) (Clients.init τ server) s

theorem Clients.Runs.sim {server : EnclaveServer} {e : EnclaveImpl}
    (hreach : Server.Reachable ssl server) (hrun : server.running = true)
    (he : server.enclave = some e) (h : Clients.Runs ssl server s) :
    ∃ a, Reached (remoteStep ssl) e a ∧ s.Sim ssl a ∧ a.history = s.history := by
  have hhist : ∀ (s : Clients τ) a, s.Sim ssl a → s.history = a.history :=
    fun _ _ hS => hS.history
  exact Linearizable.of_simulation hhist (fun _ _ _ hstep hS => hS.step hstep)
    (Clients.sim_init hreach hrun he) h

def sampleStore : Input :=
  (.storeData [0x6B] [0x48, 0x69], ⟨.succeed Crypto.zeroIV, .succeed⟩)

/-- The next in line is accepted, handled and closed, and its reply is on
its way. -/
theorem exists_served {e : EnclaveImpl} {rest : List τ} {op : EnclaveOp} {calls : Calls}
    (hreach : Server.Reachable ssl s.server) (hrun : s.server.running = true)
    (he : s.server.enclave = some e) (hservice : s.service = .accepting)
    (hbacklog : s.backlog = t :: rest)
    (hpeer : s.peer t = ⟨.calling op calls, (requestOf op).serialize, [], false⟩)
    (hsize : (requestOf op).payload.length < 2 ^ 32) :
    ∃ s' reply, ReflTransGen (ServiceStep ssl) s s' ∧ Server.Reachable ssl s'.server ∧
      s'.server.running = true ∧ s'.server.enclave = some (remoteStep ssl e (op, calls)).2 ∧
      s'.service = .accepting ∧ s'.backlog = rest ∧ s'.history = s.history ∧
      s'.peer = Function.update s.peer t ⟨.calling op calls, [], reply.serialize, true⟩ ∧
      WellFormed reply ∧ (remoteStep ssl e (op, calls)).1 = ⟨op, resultOf op (some reply)⟩ := by
  obtain ⟨_, server', hout, -⟩ := exists_sent hreach calls (.whole (requestOf op).serialize)
  obtain ⟨reply, hsent, hwf, hresult, he', hrun'⟩ :=
    outcome_requestOf hreach he hsize (Chunked.elems_whole _) (headerFilled_whole _) hout
  let s₁ : Clients τ := { s with service := .handling t, backlog := rest }
  have haccept : ServiceStep ssl s s₁ := .accept hservice hrun hbacklog
  have hplace : (s₁.peer t).place = .calling op calls := by rw [hpeer]
  have hsends : (s₁.peer t).toServer = (requestOf op).serialize := by rw [hpeer]
  have hhandle := ServiceStep.handle (s := s₁) (t := t) rfl hplace
    (hsends ▸ arrived_requestOf op) ((Chunked.elems_whole _).trans hsends.symm)
    (headerFilled_whole _) hout
  refine ⟨_, reply, .head haccept (.head hhandle (.single (.close (t := t) rfl))),
    .connection calls _ true hreach hrun hout, hrun'.trans hrun, he', rfl, rfl, rfl, ?_, hwf,
    hresult⟩
  simp [s₁, hpeer, hsent]

/-- The client receives it, and for the others nothing changes. -/
theorem exists_received {op : EnclaveOp} {calls : Calls} {reply : Response}
    (hpeer : s.peer t = ⟨.calling op calls, [], reply.serialize, true⟩) (hwf : WellFormed reply) :
    ∃ s', ServiceStep ssl s s' ∧ (∀ u ≠ t, s'.peer u = s.peer u) ∧
      s'.history = s.history ++ [.ret t ⟨op, resultOf op (some reply)⟩] := by
  have hparse : parseReply (s.peer t).toClient = some reply := by
    rw [hpeer]
    exact parseReply_reply hwf
  exact ⟨_, .receive (by rw [hpeer]) hparse, fun _ hu => Function.update_of_ne hu _ _, rfl⟩

def sampleRetrieve : Input := (.retrieveData [0x6B], ⟨.succeed Crypto.zeroIV, .succeed⟩)

def sampleEnclave : EnclaveImpl := (EnclaveImpl.new.initializeEnclave (some Crypto.zeroKey)).2

omit [Host] in
/-- One call after the other, the retrieval gives back what was stored. -/
theorem sampleEnclave_answers :
    letI := Host.littleEndian
    (remoteStep Crypto.sampleGcm sampleEnclave sampleStore).1 = ⟨sampleStore.1, some ()⟩ ∧
      (remoteStep Crypto.sampleGcm (remoteStep Crypto.sampleGcm sampleEnclave sampleStore).2
        sampleRetrieve).1 = ⟨sampleRetrieve.1, some [0x48, 0x69]⟩ := by
  let := Host.littleEndian
  rw [remoteStep, remoteStep, if_pos (by decide +kernel), if_pos (by decide +kernel)]
  have hstored : (sampleEnclave.perform Crypto.sampleGcm sampleStore.2
      (.storeData [0x6B] [0x48, 0x69])).1.toOption = some () := by decide +kernel
  have hretrieved : ((sampleEnclave.perform Crypto.sampleGcm sampleStore.2 sampleStore.1).2.perform
      Crypto.sampleGcm sampleRetrieve.2 (.retrieveData [0x6B])).1.toOption =
        some [0x48, 0x69] := by decide +kernel
  exact ⟨congrArg (Sigma.mk sampleStore.1) hstored,
    congrArg (Sigma.mk sampleRetrieve.1) hretrieved⟩

omit [Host] [DecidableEq τ] in
/-- Two clients wait: the first in line stores, the other retrieves. -/
theorem sampleClients_waiting :
    letI := Host.littleEndian
    ∃ s : Clients Bool, Clients.Runs Crypto.sampleGcm sampleServer s ∧ s.server = sampleServer ∧
      s.service = .accepting ∧ s.backlog = [true, false] ∧
      s.peer true = ⟨.calling sampleStore.1 sampleStore.2, (requestOf sampleStore.1).serialize,
        [], false⟩ ∧
      s.peer false = ⟨.calling sampleRetrieve.1 sampleRetrieve.2,
        (requestOf sampleRetrieve.1).serialize, [], false⟩ ∧
      s.history = [.call true sampleStore, .call false sampleRetrieve] := by
  let := Host.littleEndian
  have h₀ : Clients.Runs Crypto.sampleGcm sampleServer (Clients.init Bool sampleServer) := .refl
  have h₁ := ReflTransGen.tail h₀ (ClientsStep.connect (t := true) rfl)
  have h₂ := h₁.tail (.connect (t := false) rfl)
  have h₃ := h₂.tail (.call (t := true) sampleStore.1 sampleStore.2 rfl (by decide +kernel))
  have h₄ := h₃.tail (.call (t := false) sampleRetrieve.1 sampleRetrieve.2 rfl (by decide +kernel))
  exact ⟨_, h₄, rfl, rfl, rfl, rfl, rfl, rfl⟩

omit [Host] [DecidableEq τ] in
/-- The calls of both are under way at the same time, and the second in
line is the first to receive. -/
theorem sampleClients_overlap :
    letI := Host.littleEndian
    ∃ s : Clients Bool, Clients.Runs Crypto.sampleGcm sampleServer s ∧
      s.history = [.call true sampleStore, .call false sampleRetrieve,
        .ret false ⟨sampleRetrieve.1, some [0x48, 0x69]⟩, .ret true ⟨sampleStore.1, some ()⟩] := by
  let := Host.littleEndian
  obtain ⟨hstored, hretrieved⟩ := sampleEnclave_answers
  obtain ⟨s, hcalled, hserver, hservice, hbacklog, hpeer, hpeer', hhist⟩ := sampleClients_waiting
  have he : s.server.enclave = some sampleEnclave := by rw [hserver]; rfl
  obtain ⟨s₁, reply₁, hserve₁, hreach₁, hrun₁, he₁, hservice₁, hbacklog₁, hhist₁, hpeers₁, hwf₁,
      hanswer₁⟩ := exists_served (by rw [hserver]; exact sampleServer_reachable)
    (by rw [hserver]; rfl) he hservice hbacklog hpeer (by decide +kernel)
  obtain ⟨s₂, reply₂, hserve₂, -, -, -, -, -, hhist₂, hpeers₂, hwf₂, hanswer₂⟩ :=
    exists_served hreach₁ hrun₁ he₁ hservice₁ hbacklog₁
      (by rw [hpeers₁, Function.update_of_ne (by decide), hpeer']) (by decide +kernel)
  replace hanswer₁ := hanswer₁.symm.trans hstored
  replace hanswer₂ := hanswer₂.symm.trans hretrieved
  have hserved : Clients.Runs Crypto.sampleGcm sampleServer s₂ :=
    (hcalled.trans (hserve₁.lift id fun _ _ => .served)).trans
      (hserve₂.lift id fun _ _ => .served)
  have hfalse : s₂.peer false = ⟨.calling sampleRetrieve.1 sampleRetrieve.2, [],
      reply₂.serialize, true⟩ := by rw [hpeers₂, Function.update_self]
  have htrue : s₂.peer true = ⟨.calling sampleStore.1 sampleStore.2, [],
      reply₁.serialize, true⟩ := by
    rw [hpeers₂, Function.update_of_ne (by decide), hpeers₁, Function.update_self]
  obtain ⟨s₃, hreceive₃, hsame, hhist₃⟩ := exists_received hfalse hwf₂
  obtain ⟨s₄, hreceive₄, -, hhist₄⟩ :=
    exists_received ((hsame true (by decide)).trans htrue) hwf₁
  refine ⟨s₄, (hserved.tail (.served hreceive₃)).tail (.served hreceive₄), ?_⟩
  rw [hhist₄, hhist₃, hhist₂, hhist₁, hhist, hanswer₁, hanswer₂]
  rfl

omit [Host] [DecidableEq τ] in
/-- A client that says nothing is in service, and behind it one that
calls. -/
theorem sampleClients_silent :
    letI := Host.littleEndian
    ∃ s : Clients Bool, Clients.Runs Crypto.sampleGcm sampleServer s ∧
      s.service = .handling false ∧ (s.peer false).place = .connected ∧
      true ∈ s.line ∧ (s.peer true).place = .calling sampleStore.1 sampleStore.2 := by
  let := Host.littleEndian
  have h₀ : Clients.Runs Crypto.sampleGcm sampleServer (Clients.init Bool sampleServer) := .refl
  have h₁ := ReflTransGen.tail h₀ (ClientsStep.connect (t := false) rfl)
  have h₂ := h₁.tail (.connect (t := true) rfl)
  have h₃ := h₂.tail (.call (t := true) sampleStore.1 sampleStore.2 rfl (by decide +kernel))
  have h₄ := h₃.tail (.served (.accept (t := false) rfl rfl rfl))
  exact ⟨_, h₄, rfl, rfl, by simp [Clients.line, Service.line], rfl⟩

/-- **Clients see one call after the other.** Whatever the order in which
clients connect, call and receive, from any state of the server, the
calls of all clients are linearizable, with the enclave's operations as
the sequential machine. -/
theorem clients_linearizable (ssl : Crypto.OpenSSL) (server : EnclaveServer)
    (hreach : Server.Reachable ssl server) (hrun : server.running = true) (e : EnclaveImpl)
    (he : server.enclave = some e) (s : Clients τ) (h : Clients.Runs ssl server s) :
    Linearizable (remoteStep ssl) e s.history := by
  obtain ⟨a, ha, -, hhist⟩ := h.sim hreach hrun he
  exact ⟨a, ha, hhist⟩

omit [Host] [DecidableEq τ] in
theorem clients_linearizable_store :
    letI := Host.littleEndian
    ∃ e, sampleServer.enclave = some e ∧
      Linearizable (remoteStep Crypto.sampleGcm) e [.call true sampleStore,
        .call false sampleRetrieve, .ret false ⟨sampleRetrieve.1, some [0x48, 0x69]⟩,
        .ret true ⟨sampleStore.1, some ()⟩] := by
  let := Host.littleEndian
  obtain ⟨s, h, hhist⟩ := sampleClients_overlap
  refine ⟨_, rfl, ?_⟩
  rw [← hhist]
  exact clients_linearizable Crypto.sampleGcm sampleServer sampleServer_reachable rfl _ rfl s h

/-! ## Who waits for whom -/

/-- No client has connected without calling. -/
def NoneSilent (s : Clients τ) : Prop := ∀ t, (s.peer t).place ≠ .connected

/-- No client waits for a reply. -/
def AllAnswered (s : Clients τ) : Prop := ∀ t op calls, (s.peer t).place ≠ .calling op calls

theorem Clients.Sim.exists_handle (hS : s.Sim ssl a) (hnone : NoneSilent s)
    (hservice : s.service = .handling t) : ∃ s', ServiceStep ssl s s' := by
  have hline : s.line = t :: s.backlog := by rw [Clients.line, hservice]; rfl
  have hfollows := hS.peers t
  have hplace := hnone t
  rw [hline] at hfollows
  generalize hp : s.peer t = p at hfollows hplace
  generalize hφ : a.phase t = φ at hfollows
  cases hfollows with
  | @asking op calls _ _ =>
      obtain ⟨_, _, hout, -⟩ :=
        exists_sent hS.reachable calls (.whole (requestOf op).serialize)
      exact ⟨_, .handle hservice (by rw [hp]) (by rw [hp]; exact arrived_requestOf op)
        (by rw [hp]; exact Chunked.elems_whole _) (headerFilled_whole _) hout⟩
  | connected _ => exact absurd rfl hplace
  | away hnot => exact absurd (by simp) hnot
  | answered _ hnot _ => exact absurd (by simp) hnot
  | finished hnot => exact absurd (by simp) hnot

/-- While a client waits, and none is silent, somebody can go on. -/
theorem Clients.Sim.exists_step (hS : s.Sim ssl a) (hnone : NoneSilent s) {op : EnclaveOp}
    {calls : Calls} (ht : (s.peer t).place = .calling op calls) :
    ∃ s', ServiceStep ssl s s' := by
  cases hservice : s.service with
  | handling u => exact hS.exists_handle hnone hservice
  | closing u => exact ⟨_, .close hservice⟩
  | accepting =>
      have hfollows := hS.peers t
      have hplace := ht
      generalize hp : s.peer t = p at hfollows ht
      generalize hφ : a.phase t = φ at hfollows
      cases hfollows with
      | asking hin _ =>
          -- the client is in the backlog, so there is somebody to accept
          rw [Clients.line, hservice] at hin
          cases hb : s.backlog with
          | nil => rw [hb] at hin; cases hin
          | cons u rest => exact ⟨_, .accept hservice hS.running hb⟩
      | answered reply _ hwf =>
          exact ⟨_, .receive hplace (by rw [hp]; exact parseReply_reply hwf)⟩
      | away _ => cases ht
      | connected _ => cases ht
      | finished _ => cases ht

omit [Host] in
theorem NoneSilent.update (hnone : NoneSilent s) {p : Peer} (hp : p.place ≠ .connected) (u : τ) :
    (Function.update s.peer t p u).place ≠ .connected :=
  update_forall (P := fun _ (p : Peer) => p.place ≠ .connected) hp (fun u _ => hnone u) u

theorem ServiceStep.noneSilent (h : ServiceStep ssl s s') (hnone : NoneSilent s) :
    NoneSilent s' := by
  cases h with
  | accept _ _ _ => exact hnone
  | @handle t _ _ _ _ _ _ _ _ _ _ _ => exact hnone.update (hnone t)
  | @close t _ => exact hnone.update (hnone t)
  | receive _ _ => exact hnone.update (by simp)
  | receiveEnd _ _ _ => exact hnone.update (by simp)

/-- The steps the server has left on a connection. -/
def Service.left : Service τ → Nat
  | .accepting => 0
  | .handling _ => 2
  | .closing _ => 1

/-- The step a waiting client has left. -/
def Peer.left (p : Peer) : Nat :=
  match p.place with
  | .calling _ _ => 1
  | _ => 0

/-- The steps left until all is answered. -/
def Clients.left [Fintype τ] (s : Clients τ) : Nat :=
  3 * s.backlog.length + s.service.left + ∑ t, (s.peer t).left

omit [Host] in
theorem sum_left_update [Fintype τ] {p : Peer} (h : p.left < (s.peer t).left) :
    ∑ u, (Function.update s.peer t p u).left < ∑ u, (s.peer u).left := by
  have hsum := sum_update_lt (n := fun u => (s.peer u).left) h
  refine lt_of_eq_of_lt (Finset.sum_congr rfl fun u _ => ?_) hsum
  exact update_related (F := fun _ (p : Peer) n => p.left = n) rfl (fun _ _ => rfl) u

omit [Host] in
theorem sum_left_update_eq [Fintype τ] {p : Peer} (h : p.left = (s.peer t).left) :
    ∑ u, (Function.update s.peer t p u).left = ∑ u, (s.peer u).left :=
  Finset.sum_congr rfl fun u _ =>
    update_forall (P := fun u (p : Peer) => p.left = (s.peer u).left) h (fun _ _ => rfl) u

theorem ServiceStep.left_lt [Fintype τ] (h : ServiceStep ssl s s') : s'.left < s.left := by
  cases h with
  | accept hservice _ hbacklog =>
      simp only [Clients.left, Service.left, hservice, hbacklog, List.length_cons]
      omega
  | @handle t op calls _ _ _ hservice ht _ _ _ _ =>
      simp only [Clients.left, Service.left, hservice]
      rw [sum_left_update_eq]
      · omega
      · rfl
  | @close t hservice =>
      simp only [Clients.left, Service.left, hservice]
      rw [sum_left_update_eq]
      · omega
      · rfl
  | receive ht _ =>
      refine Nat.add_lt_add_left (sum_left_update ?_) _
      simp [Peer.left, ht]
  | receiveEnd ht _ _ =>
      refine Nat.add_lt_add_left (sum_left_update ?_) _
      simp [Peer.left, ht]

/-- **Every client is answered**, if none connects without calling: from
any point of any run, in any order of the steps, and without a standstill
before. -/
theorem clients_return [Fintype τ] (ssl : Crypto.OpenSSL) (server : EnclaveServer)
    (hreach : Server.Reachable ssl server) (hrun : server.running = true) (s : Clients τ)
    (h : Clients.Runs ssl server s) (hnone : NoneSilent s) :
    Eventually (ServiceStep ssl) AllAnswered s := by
  obtain ⟨e, -, he, -⟩ := hreach.enclave
  obtain ⟨a, -, hS, -⟩ := h.sim hreach hrun he
  clear h
  -- on the number of steps that are left
  generalize hn : s.left = n
  induction n using Nat.strong_induction_on generalizing s a with
  | _ n ih =>
      by_cases hall : AllAnswered s
      · exact .now hall
      · simp only [AllAnswered, not_forall, not_not] at hall
        obtain ⟨t, op, calls, ht⟩ := hall
        refine .later (hS.exists_step hnone ht) fun s' hstep => ?_
        obtain ⟨a', -, hS'⟩ := hS.serviceStep hstep
        exact ih _ (hn ▸ hstep.left_lt) s' (hstep.noneSilent hnone) a' hS' rfl

omit [Host] [DecidableEq τ] in
theorem clients_return_store :
    letI := Host.littleEndian
    ∃ s : Clients Bool, Clients.Runs Crypto.sampleGcm sampleServer s ∧ ¬ AllAnswered s ∧
      Eventually (ServiceStep Crypto.sampleGcm) AllAnswered s := by
  let := Host.littleEndian
  obtain ⟨s, h, -, -, -, hpeer, hpeer', -⟩ := sampleClients_waiting
  have hnone : NoneSilent s := by
    intro t
    cases t with
    | false => simp [hpeer']
    | true => simp [hpeer]
  refine ⟨s, h, fun hall => hall true sampleStore.1 sampleStore.2 (by rw [hpeer]), ?_⟩
  exact clients_return Crypto.sampleGcm sampleServer sampleServer_reachable rfl s h hnone

/-! ## A silent client -/

/-- Service stands still at a client that has not called. -/
structure Blocked (t : τ) (s₀ s : Clients τ) : Prop where
  service : s.service = .handling t
  server : s.server = s₀.server
  line : s₀.line <+: s.line

/-- A client is on its way from `Connect` to its answer and never back. -/
def Peer.Onward (p q : Peer) : Prop :=
  p.place ≠ .away → q.place ≠ .away ∧ (q.place = .connected → p.place = .connected)

omit [Host] in
theorem onward_update {p : Peer} (hp : (s.peer t).Onward p) (u : τ) :
    (s.peer u).Onward (Function.update s.peer t p u) :=
  update_forall (P := fun u p => (s.peer u).Onward p) hp (fun _ _ h => ⟨h, id⟩) u

theorem ClientsStep.onward (h : ClientsStep ssl s s') (u : τ) :
    (s.peer u).Onward (s'.peer u) := by
  cases h with
  | connect ht => exact onward_update (fun h => absurd ht h) u
  | call op calls _ _ => exact onward_update (fun _ => by simp) u
  | served hstep =>
      cases hstep with
      | accept _ _ _ => exact fun h => ⟨h, id⟩
      | handle _ _ _ _ _ _ => exact onward_update (by exact fun h => ⟨h, id⟩) u
      | close _ => exact onward_update (by exact fun h => ⟨h, id⟩) u
      | receive _ _ => exact onward_update (fun _ => by simp) u
      | receiveEnd _ _ _ => exact onward_update (fun _ => by simp) u

theorem Blocked.step {s₀ : Clients τ} (hB : Blocked t s₀ s)
    (hsilent : (s.peer t).place = .connected) (h : ClientsStep ssl s s') : Blocked t s₀ s' := by
  have hservice := hB.service
  cases h with
  | connect _ =>
      refine ⟨hservice, hB.server, hB.line.trans ?_⟩
      show s.service.line s.backlog <+: s.service.line (s.backlog ++ _)
      rw [Service.line_append]
      exact List.prefix_append _ _
  | call op calls _ _ => exact ⟨hservice, hB.server, hB.line⟩
  | served hstep =>
      cases hstep with
      | accept haccepting _ _ => rw [hservice] at haccepting; cases haccepting
      | handle hhandling ht _ _ _ _ =>
          rw [hservice] at hhandling
          cases hhandling
          rw [hsilent] at ht
          cases ht
      | close hclosing => rw [hservice] at hclosing; cases hclosing
      | receive _ _ => exact ⟨hservice, hB.server, hB.line⟩
      | receiveEnd _ _ _ => exact ⟨hservice, hB.server, hB.line⟩

theorem blocked_run {s₀ : Clients τ} (hservice : s₀.service = .handling t)
    (hsilent : (s₀.peer t).place = .connected) (hlater : ReflTransGen (ClientsStep ssl) s₀ s) :
    (s.peer t).place ≠ .away ∧ ((s.peer t).place = .connected → Blocked t s₀ s) := by
  induction hlater with
  | refl => exact ⟨by simp [hsilent], fun _ => ⟨hservice, rfl, List.prefix_refl _⟩⟩
  | tail _ hlast ih =>
      obtain ⟨hgone, hblocked⟩ := ih
      obtain ⟨hgone', hback⟩ := hlast.onward t hgone
      exact ⟨hgone', fun hc => (hblocked (hback hc)).step (hback hc) hlast⟩

/-- **One silent client stops the service.** Once a client that has not
called is in service, then as long as it does not call, whatever else
happens, the server stays with it, the enclave executes nothing, and no
client that was in line gets its answer. -/
theorem silent_client_blocks (ssl : Crypto.OpenSSL) (server : EnclaveServer)
    (hreach : Server.Reachable ssl server) (hrun : server.running = true) (s s' : Clients τ)
    (h : Clients.Runs ssl server s) (t : τ) (hservice : s.service = .handling t)
    (hsilent : (s.peer t).place = .connected) (hlater : ReflTransGen (ClientsStep ssl) s s')
    (hstill : (s'.peer t).place = .connected) :
    s'.service = .handling t ∧ s'.server = s.server ∧
      ∀ u ∈ s.line, (s'.peer u).place ≠ .finished := by
  have hB := (blocked_run hservice hsilent hlater).2 hstill
  refine ⟨hB.service, hB.server, fun u hu => ?_⟩
  obtain ⟨e, -, he, -⟩ := hreach.enclave
  obtain ⟨a, -, hS, -⟩ := Clients.Runs.sim hreach hrun he (h.trans hlater)
  have hfollows := hS.peers u
  have hin : u ∈ s'.line := hB.line.subset hu
  generalize s'.peer u = p at hfollows
  generalize a.phase u = φ at hfollows
  cases hfollows with
  | away hnot => exact absurd hin hnot
  | connected _ => simp
  | asking _ _ => simp
  | answered _ hnot _ => exact absurd hin hnot
  | finished hnot => exact absurd hin hnot

omit [Host] [DecidableEq τ] in
theorem silent_client_blocks_store :
    letI := Host.littleEndian
    ∃ s : Clients Bool, Clients.Runs Crypto.sampleGcm sampleServer s ∧
      (s.peer true).place = .calling sampleStore.1 sampleStore.2 ∧
      ∀ s', ReflTransGen (ClientsStep Crypto.sampleGcm) s s' →
        (s'.peer false).place = .connected → (s'.peer true).place ≠ .finished := by
  let := Host.littleEndian
  obtain ⟨s, h, hservice, hsilent, hline, hplace⟩ := sampleClients_silent
  refine ⟨s, h, hplace, fun s' hlater hstill => ?_⟩
  obtain ⟨-, -, hwait⟩ := silent_client_blocks Crypto.sampleGcm sampleServer
    sampleServer_reachable rfl s s' h false hservice hsilent hlater hstill
  exact hwait true hline

/-! ## The whole system as a map -/

/-- What a client learns of the store. -/
inductive RemoteReply where
  | stored (done : Bool)
  | retrieved (data : Option Bytes)
  | other

def remoteView : Answer → RemoteReply
  | ⟨.storeData .., r⟩ => .stored r.isSome
  | ⟨.retrieveData _, r⟩ => .retrieved r
  | _ => .other

def remoteReply : StoreReply → RemoteReply
  | .stored r => .stored r.toOption.isSome
  | .retrieved r => .retrieved r.toOption
  | .other => .other

/-- The plain map, with as much of its answers as a client learns. -/
def remotePlainStep (σ : PlainStore) (i : Input) : RemoteReply × PlainStore :=
  (remoteReply (PlainStore.step σ i).1, (PlainStore.step σ i).2)

omit [DecidableEq τ] in
/-- A remote call the protocol carries is a local one. -/
theorem remoteStep_of_paramsFit (ssl : Crypto.OpenSSL) {e : EnclaveImpl}
    (hinit : e.initialized = true) {op : EnclaveOp} (hparams : ParamsFit op) (calls : Calls) :
    Client.remoteStep ssl e (op, calls) =
      (⟨op, (e.perform ssl calls op).1.toOption⟩, (e.perform ssl calls op).2) := by
  rw [Client.remoteStep]
  by_cases hfits : Fits op
  · rw [if_pos hfits]
  · rw [if_neg hfits, perform_of_not_fits ssl calls hinit hparams hfits]
    rfl

omit [Host] [DecidableEq τ] in
theorem remoteView_toOption (op : EnclaveOp) (r : Result op.Output) :
    remoteView ⟨op, r.toOption⟩ = remoteReply (storeView ⟨op, r⟩) := by
  cases op <;> rfl

omit [DecidableEq τ] in
/-- One remote call is one step of the map. -/
theorem remoteStep_represents {ssl : Crypto.OpenSSL} (hssl : ssl.Lawful) {key : Crypto.Key}
    {e : EnclaveImpl} {σ : PlainStore} {i : Input} (hdec : i.2.decrypt.success = true)
    (hR : Represents ssl key e σ) :
    remoteView (remoteStep ssl e i).1 = (remotePlainStep σ i).1 ∧
      Represents ssl key (remoteStep ssl e i).2 (remotePlainStep σ i).2 := by
  obtain ⟨op, calls⟩ := i
  obtain ⟨n, hI⟩ := hR.inv
  by_cases hparams : ParamsFit op
  · obtain ⟨hview, hR'⟩ := step_represents hssl hdec hR
    rw [remoteStep_of_paramsFit ssl hI.init hparams, remoteView_toOption]
    exact ⟨congrArg remoteReply hview, hR'⟩
  · -- parameters too long for the protocol: nothing happens, and not to the store either
    cases op with
    | invokeFunction handle name params =>
        have hfits : ¬ Fits (.invokeFunction handle name params) :=
          fun hf => hparams hf.2.2
        rw [remoteStep, if_neg hfits]
        exact ⟨rfl, hR⟩
    | loadModule data => exact absurd trivial hparams
    | storeData k data => exact absurd trivial hparams
    | retrieveData k => exact absurd trivial hparams
    | getAttestation => exact absurd trivial hparams

/-- **The whole system is an atomic map.** From a fresh server, the
stores and retrievals of all clients are linearizable against a plain
map: framing, checksums, the accept loop, encryption and serialization
included. -/
theorem clients_store_atomic (ssl : Crypto.OpenSSL) (hssl : ssl.Lawful)
    (rand : Option Crypto.Key) (sockets : SocketCalls) (server : EnclaveServer)
    (hinit : EnclaveServer.new.initializeServer rand sockets = (true, server)) (s : Clients τ)
    (h : Clients.Runs ssl { server with running := true } s)
    (hdec : ∀ t i, .call t i ∈ s.history → i.2.decrypt.success = true) :
    Linearizable remotePlainStep .empty (s.history.map (Event.map remoteView)) := by
  obtain ⟨e, hcreate, he⟩ := initializeServer_enclave hinit
  obtain ⟨key, hR⟩ := represents_create ssl hcreate
  obtain ⟨a, ha, -, hhist⟩ := h.sim (.start hinit) rfl he
  have hstep : ∀ (e : EnclaveImpl) (σ : PlainStore) (i : Input),
      i.2.decrypt.success = true → Represents ssl key e σ →
      remoteView (remoteStep ssl e i).1 = (remotePlainStep σ i).1 ∧
        Represents ssl key (remoteStep ssl e i).2 (remotePlainStep σ i).2 :=
    fun e σ i hadm hR => remoteStep_represents hssl hadm hR
  exact Linearizable.view hstep hR hdec ⟨a, ha, hhist⟩

omit [Host] [DecidableEq τ] in
theorem clients_store_atomic_store :
    Linearizable remotePlainStep .empty
      [.call true sampleStore, .call false sampleRetrieve,
        .ret false (.retrieved (some [0x48, 0x69])), .ret true (.stored true)] := by
  let := Host.littleEndian
  obtain ⟨s, h, hhist⟩ := sampleClients_overlap
  have hdec : ∀ t i, .call t i ∈ s.history → i.2.decrypt.success = true := by
    intro t i hi
    simp only [hhist, List.mem_cons, Event.call.injEq, reduceCtorEq, List.not_mem_nil,
      or_false] at hi
    rcases hi with ⟨-, rfl⟩ | ⟨-, rfl⟩ <;> rfl
  have hmap := clients_store_atomic Crypto.sampleGcm Crypto.sampleGcm_lawful _ _ _
    sampleServer_initialized s h hdec
  rw [hhist] at hmap
  exact hmap

end

end OpenEnclave.Client
