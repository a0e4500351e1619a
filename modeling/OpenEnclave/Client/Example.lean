import OpenEnclave.Client.Session

/-!
# Example — programs over one connection

`Session` issues a fixed list of requests; a program decides on its next
call by the results it has. Here it is a tree of calls, and runs against
the server with the same steps. `Dialog.At` is all that such a run can
come to: up to the first reply everything is in order, and from then on
every call is declined, because the server has closed the connection or
is about to. `only_first_call_succeeds` says so for every program.

`main` of `client_example.cpp` is such a program. It makes five calls
over one connection, so it never gets past the second one
(`main_never_passes`).
-/

namespace OpenEnclave.Client

open ByteCodec Protocol Server Effect Relation Transition

/-! ## Programs and their runs -/

/-- Programs over the methods of a connected `EnclaveClient`, where
`none` is a method that returned `false`. -/
abbrev App (α : Type) := Prog EnclaveOp (fun op => Option op.Output) α

/-- A program at one end of a connection and the server at the other. -/
structure Dialog (α : Type) where
  /-- The rest of the program; a call under way is still at its head. -/
  prog : App α
  client : ClientPhase
  toServer : Bytes
  toClient : Bytes
  handler : HandlerPhase
  server : EnclaveServer

def Dialog.init {α : Type} (server : EnclaveServer) (prog : App α) : Dialog α where
  prog := prog
  client := .idle
  toServer := []
  toClient := []
  handler := .serving
  server := server

section
variable [Host] {α : Type}

/-- One step of either party, as in `SessionStep`. -/
inductive DialogStep (ssl : Crypto.OpenSSL) : Dialog α → Dialog α → Prop where
  | send {d : Dialog α} {op : EnclaveOp} {k : Option op.Output → App α} (calls : Calls) :
      d.client = .idle → d.prog = .op op k → d.handler ≠ .closed →
      DialogStep ssl d { d with
        client := .awaiting calls
        toServer := d.toServer ++ (requestOf op).serialize }
  | sendClosed {d : Dialog α} {op : EnclaveOp} {k : Option op.Output → App α} :
      d.client = .idle → d.prog = .op op k → d.handler = .closed →
      DialogStep ssl d { d with client := .ended }
  | handle {d : Dialog α} {calls : Calls} {incoming : Chunked UInt8} {sent : List Bytes}
      {server' : EnclaveServer} :
      d.handler = .serving → d.server.running = true → d.client = .awaiting calls →
      Arrived d.toServer → incoming.elems = d.toServer → HeaderFilled incoming →
      outcome ssl calls d.server incoming true = .ok (sent, server') →
      DialogStep ssl d { d with
        handler := .replied
        server := server'
        toClient := d.toClient ++ sent.flatten }
  | close {d : Dialog α} :
      d.handler = .replied → DialogStep ssl d { d with handler := .closed }
  | receive {d : Dialog α} {calls : Calls} {response : Response} {op : EnclaveOp}
      {k : Option op.Output → App α} :
      d.client = .awaiting calls → d.prog = .op op k → parseReply d.toClient = some response →
      DialogStep ssl d { d with
        prog := k (resultOf op (some response))
        client := .idle
        toClient := d.toClient.drop (17 + response.payload.length) }
  | receiveEnd {d : Dialog α} {calls : Calls} {op : EnclaveOp} {k : Option op.Output → App α} :
      d.client = .awaiting calls → d.prog = .op op k → d.handler = .closed →
      parseReply d.toClient = none →
      DialogStep ssl d { d with
        prog := k (resultOf op none)
        client := .idle
        toClient := [] }

/-! ## What a run can come to -/

omit [Host] in
/-- What is left of a program all of whose calls return `false`. -/
inductive Declined (prog : App α) : App α → Prop where
  | refl : Declined prog prog
  | step {op : EnclaveOp} {k : Option op.Output → App α} :
      Declined prog (.op op k) → Declined prog (k none)

omit [Host] in
theorem Declined.of_ret {a : α} {prog : App α} (h : Declined (.ret a) prog) :
    prog = .ret a := by
  induction h with
  | refl => rfl
  | step _ ih => cases ih

omit [Host] in
theorem Declined.of_op {op : EnclaveOp} {k : Option op.Output → App α}
    {prog : App α} (h : Declined (.op op k) prog) : prog = .op op k ∨ Declined (k none) prog := by
  induction h with
  | refl => exact .inl rfl
  | step _ ih =>
      rcases ih with heq | hdeclined
      · cases heq
        exact .inr .refl
      · exact .inr hdeclined.step

theorem resultOf_none (op : EnclaveOp) : resultOf op none = none := by
  cases op <;> rfl

/-- The states of a run, by what has become of the first call. -/
inductive Dialog.At (ssl : Crypto.OpenSSL) (server : EnclaveServer) (prog : App α)
    (d : Dialog α) : Prop where
  | fresh (hprog : d.prog = prog) (hclient : d.client = .idle) (hhandler : d.handler = .serving)
      (hto : d.toServer = []) (hfrom : d.toClient = []) (hserver : d.server = server)
  | sent {op : EnclaveOp} {k : Option op.Output → App α} {calls : Calls} (hprog : d.prog = prog)
      (hop : prog = .op op k) (hclient : d.client = .awaiting calls)
      (hhandler : d.handler = .serving) (hto : d.toServer = (requestOf op).serialize)
      (hfrom : d.toClient = []) (hserver : d.server = server)
  | replied {op : EnclaveOp} {k : Option op.Output → App α} {calls : Calls} {reply : Response}
      (hprog : d.prog = prog) (hop : prog = .op op k) (hclient : d.client = .awaiting calls)
      (hhandler : d.handler ≠ .serving) (hfrom : d.toClient = reply.serialize)
      (hwf : WellFormed reply) (hreply : (separately ssl server (op, calls)).1.1 = some reply)
  -- the one reply is gone, and there will be no other
  | after {op : EnclaveOp} {k : Option op.Output → App α} {calls : Calls} (hop : prog = .op op k)
      (hrest : Declined (k (resultOf op (separately ssl server (op, calls)).1.1)) d.prog)
      (hhandler : d.handler ≠ .serving) (hfrom : d.toClient = [])

variable {ssl : Crypto.OpenSSL} {server : EnclaveServer} {prog : App α} {d d' : Dialog α}

/-- The reply to a request on its way is that of a connection of its
own. -/
theorem separately_of_outcome (hreach : Server.Reachable ssl server) {op : EnclaveOp}
    {calls : Calls} {incoming : Chunked UInt8} {sent : List Bytes} {server' : EnclaveServer}
    (helems : incoming.elems = (requestOf op).serialize) (hfilled : HeaderFilled incoming)
    (hout : outcome ssl calls server incoming true = .ok (sent, server')) :
    ∃ reply, sent = [reply.serialize] ∧ WellFormed reply ∧
      (separately ssl server (op, calls)).1.1 = some reply := by
  obtain ⟨reply, server₁, hserve, hwf⟩ := serve_wellFormed hreach calls incoming
  obtain ⟨-, reply', rfl, hserve'⟩ := outcome_ok hout
  rw [hserve] at hserve'
  cases hserve'
  refine ⟨reply, rfl, hwf, ?_⟩
  rw [outcome_of_headerFilled ssl calls server hfilled, helems] at hout
  simp only [separately, hout, List.flatten_cons, List.flatten_nil, List.append_nil,
    parseReply_reply hwf]

/-- What that reply carries is the result of the enclave's own method. -/
theorem resultOf_separately {e : EnclaveImpl} (hreach : Server.Reachable ssl server)
    (he : server.enclave = some e) {op : EnclaveOp} {calls : Calls}
    (hsize : (requestOf op).payload.length < 2 ^ 32) (hfits : Fits op) :
    resultOf op (separately ssl server (op, calls)).1.1 =
      (e.perform ssl calls op).1.toOption := by
  obtain ⟨reply, server', hserve, hwf⟩ :=
    serve_wellFormed hreach calls (.whole (requestOf op).serialize)
  have hout : outcome ssl calls server (.whole (requestOf op).serialize) true =
      .ok ([reply.serialize], server') := by
    rw [outcome_eq, hserve]
    rfl
  rw [commandOf_requestOf hsize (Chunked.elems_whole _) (headerFilled_whole _), if_pos hfits]
    at hserve
  simp only [serve, he, Except.ok.injEq, Prod.mk.injEq] at hserve
  simp only [separately, hout, List.flatten_cons, List.flatten_nil, List.append_nil,
    parseReply_reply hwf]
  rw [← hserve.1, resultOf_callReply]

/-- **One step stays within it.** -/
theorem Dialog.At.step (hreach : Server.Reachable ssl server) (h : d.At ssl server prog)
    (hstep : DialogStep ssl d d') : d'.At ssl server prog := by
  cases h with
  | fresh hprog hclient hhandler hto hfrom hserver =>
      cases hstep with
      | send calls hidle hcall hopen =>
          exact .sent hprog (hprog ▸ hcall) rfl hhandler (by simp [hto]) hfrom hserver
      | sendClosed hidle hcall hclosed => rw [hhandler] at hclosed; cases hclosed
      | handle hserving _ hawait _ _ _ _ => rw [hclient] at hawait; cases hawait
      | close hreplied => rw [hhandler] at hreplied; cases hreplied
      | receive hawait _ _ => rw [hclient] at hawait; cases hawait
      | receiveEnd hawait _ _ _ => rw [hclient] at hawait; cases hawait
  | @sent op k calls hprog hop hclient hhandler hto hfrom hserver =>
      cases hstep with
      | send calls hidle hcall hopen => rw [hclient] at hidle; cases hidle
      | sendClosed hidle hcall hclosed => rw [hhandler] at hclosed; cases hclosed
      | handle hserving _ hawait harrived helems hfilled hout =>
          rw [hclient] at hawait
          cases hawait
          rw [hserver] at hout
          obtain ⟨reply, rfl, hwf, hreply⟩ :=
            separately_of_outcome hreach (helems.trans hto) hfilled hout
          exact .replied hprog hop hclient (by simp) (by simp [hfrom]) hwf hreply
      | close hreplied => rw [hhandler] at hreplied; cases hreplied
      | receive _ _ hparse => rw [hfrom, parseReply_nil] at hparse; cases hparse
      | receiveEnd _ _ hclosed _ => rw [hhandler] at hclosed; cases hclosed
  | @replied op k calls reply hprog hop hclient hhandler hfrom hwf hreply =>
      have hparse := parseReply_reply hwf
      cases hstep with
      | send calls hidle hcall hopen => rw [hclient] at hidle; cases hidle
      | sendClosed hidle hcall hclosed => rw [hclient] at hidle; cases hidle
      | handle hserving _ _ _ _ _ _ => exact absurd hserving hhandler
      | close hreplied => exact .replied hprog hop hclient (by simp) hfrom hwf hreply
      | @receive calls' response op' k' _ hcall hresponse =>
          rw [hfrom, hparse] at hresponse
          cases hresponse
          rw [hprog, hop] at hcall
          cases hcall
          have hrest : Declined (k (resultOf op (separately ssl server (op, calls)).1.1))
              (k (resultOf op (some reply))) := by
            rw [hreply]
            exact .refl
          exact .after hop hrest hhandler (by simp [hfrom])
      | receiveEnd _ _ _ hnone => rw [hfrom, hparse] at hnone; cases hnone
  | @after op k calls hop hrest hhandler hfrom =>
      cases hstep with
      | send calls hidle hcall hopen => exact .after hop hrest hhandler hfrom
      | sendClosed hidle hcall hclosed => exact .after hop hrest hhandler hfrom
      | handle hserving _ _ _ _ _ _ => exact absurd hserving hhandler
      | close hreplied => exact .after hop hrest (by simp) hfrom
      | receive _ _ hparse => rw [hfrom, parseReply_nil] at hparse; cases hparse
      | receiveEnd _ hcall _ _ =>
          rw [hcall] at hrest
          have hdeclined := hrest.step
          rw [← resultOf_none] at hdeclined
          exact .after hop hdeclined hhandler rfl

theorem Dialog.At.run (hreach : Server.Reachable ssl server)
    (hrun : ReflTransGen (DialogStep ssl) (Dialog.init server prog) d) :
    d.At ssl server prog :=
  Transition.invariant (fun _ _ hstep h => h.step hreach hstep) hrun
    (.fresh rfl rfl rfl rfl rfl rfl)

/-! ## Every run ends -/

omit [Host] in
/-- The program has returned, or was ended by `SIGPIPE`. -/
def Dialog.Done (d : Dialog α) : Prop := (∃ a, d.prog = .ret a) ∨ d.client = .ended

omit [Host] in
/-- The one reply is gone. -/
structure Dialog.Spent (d : Dialog α) : Prop where
  handler : d.handler ≠ .serving
  toClient : d.toClient = []

omit [Host] in
/-- The steps left until the next call of a spent dialog fails: the send
and the close, in either order. -/
def Dialog.remaining (d : Dialog α) : Nat :=
  (match d.client with | .idle => 1 | .awaiting _ => 0 | .ended => 0) +
    (match d.handler with | .serving => 0 | .replied => 1 | .closed => 0)

section
variable {op : EnclaveOp} {k : Option op.Output → App α}

theorem Dialog.Spent.enabled (h : d.Spent) (hprog : d.prog = .op op k)
    (hclient : d.client ≠ .ended) : ∃ d', DialogStep ssl d d' := by
  cases hhandler : d.handler with
  | serving => exact absurd hhandler h.handler
  | replied => exact ⟨_, .close hhandler⟩
  | closed =>
      cases hc : d.client with
      | idle => exact ⟨_, .sendClosed hc hprog hhandler⟩
      | awaiting calls =>
          exact ⟨_, .receiveEnd hc hprog hhandler (by rw [h.toClient, parseReply_nil])⟩
      | ended => exact absurd hc hclient

/-- A spent dialog comes closer to the failure of its next call. -/
theorem Dialog.Spent.step (h : d.Spent) (hprog : d.prog = .op op k)
    (hstep : DialogStep ssl d d') :
    d'.Spent ∧ (d'.client = .ended ∨ d'.prog = k none ∨
      d'.prog = .op op k ∧ d'.remaining < d.remaining) := by
  cases hstep with
  | send calls hidle _ _ =>
      refine ⟨⟨h.handler, h.toClient⟩, .inr (.inr ⟨hprog, ?_⟩)⟩
      simp [remaining, hidle]
  | sendClosed _ _ _ => exact ⟨⟨h.handler, h.toClient⟩, .inl rfl⟩
  | handle hserving _ _ _ _ _ _ => exact absurd hserving h.handler
  | close hreplied =>
      refine ⟨⟨by simp, h.toClient⟩, .inr (.inr ⟨hprog, ?_⟩)⟩
      simp [remaining, hreplied]
  | receive _ _ hparse => rw [h.toClient, parseReply_nil] at hparse; cases hparse
  | receiveEnd _ hcall _ _ =>
      rw [hprog] at hcall
      cases hcall
      exact ⟨⟨h.handler, rfl⟩, .inr (.inl (congrArg k (resultOf_none op)))⟩

end

/-- Every program comes to its end once the reply is gone. -/
theorem Dialog.Spent.eventually (h : d.Spent) : Eventually (DialogStep ssl) Dialog.Done d := by
  generalize hprog : d.prog = p
  induction p generalizing d with
  | ret a => exact .now (.inl ⟨a, hprog⟩)
  | op o k ih =>
      -- the next call fails after at most two more steps
      induction hn : d.remaining using Nat.strong_induction_on generalizing d with
      | h n ihn =>
          by_cases hclient : d.client = .ended
          · exact .now (.inr hclient)
          · refine .later (h.enabled hprog hclient) fun d' hstep => ?_
            obtain ⟨h', hcase⟩ := h.step hprog hstep
            rcases hcase with hended | hfailed | ⟨hprog', hlt⟩
            · exact .now (.inr hended)
            · exact ih none h' hfailed
            · exact ihn d'.remaining (hn ▸ hlt) h' hprog' rfl

omit [Host] in
/-- The reply is on its way, and the call waits for it. -/
structure Dialog.Answered (reply : Response) (d : Dialog α) : Prop where
  call : ∃ op k, d.prog = .op op k
  client : ∃ calls, d.client = .awaiting calls
  handler : d.handler ≠ .serving
  toClient : d.toClient = reply.serialize

section
variable {reply : Response} (hwf : WellFormed reply)
include hwf

theorem Dialog.Answered.enabled (h : d.Answered reply) : ∃ d', DialogStep ssl d d' := by
  obtain ⟨op, k, hcall⟩ := h.call
  obtain ⟨calls, hclient⟩ := h.client
  exact ⟨_, .receive hclient hcall (by rw [h.toClient, parseReply_reply hwf])⟩

/-- The reply is received, before or after the server closes. -/
theorem Dialog.Answered.step (h : d.Answered reply) (hstep : DialogStep ssl d d') :
    d'.Spent ∨ d.handler = .replied ∧ d'.handler = .closed ∧ d'.Answered reply := by
  obtain ⟨calls, hclient⟩ := h.client
  cases hstep with
  | send _ hidle _ _ => rw [hclient] at hidle; cases hidle
  | sendClosed hidle _ _ => rw [hclient] at hidle; cases hidle
  | handle hserving _ _ _ _ _ _ => exact absurd hserving h.handler
  | close hreplied =>
      exact .inr ⟨hreplied, rfl, ⟨h.call, ⟨calls, hclient⟩, by simp, h.toClient⟩⟩
  | receive _ _ hparse =>
      rw [h.toClient, parseReply_reply hwf] at hparse
      cases hparse
      exact .inl ⟨h.handler, by simp [h.toClient]⟩
  | receiveEnd _ _ _ hnone => rw [h.toClient, parseReply_reply hwf] at hnone; cases hnone

theorem Dialog.Answered.eventually (h : d.Answered reply) :
    Eventually (DialogStep ssl) Dialog.Done d := by
  refine .later (h.enabled hwf) fun d₁ h₁ => ?_
  rcases h.step hwf h₁ with hspent | ⟨-, hclosed, hanswered⟩
  · exact hspent.eventually
  · refine .later (hanswered.enabled hwf) fun d₂ h₂ => ?_
    rcases hanswered.step hwf h₂ with hspent | ⟨hreplied, -⟩
    · exact hspent.eventually
    · rw [hclosed] at hreplied
      cases hreplied

end

/-- A request on its way can be handled, and nothing else can happen. -/
theorem exists_handle (hreach : Server.Reachable ssl server) (hrunning : server.running = true)
    {op : EnclaveOp} {calls : Calls} (hclient : d.client = .awaiting calls)
    (hhandler : d.handler = .serving)
    (hto : d.toServer = (requestOf op).serialize) (hserver : d.server = server) :
    ∃ d', DialogStep ssl d d' := by
  obtain ⟨reply, server', hout, -⟩ :=
    exists_sent hreach calls (.whole (requestOf op).serialize)
  have harrived : Arrived d.toServer := by
    rw [hto]
    exact arrived_requestOf op
  have helems : (Chunked.whole (requestOf op).serialize).elems = d.toServer := by
    rw [Chunked.elems_whole, hto]
  exact ⟨_, .handle hhandler (hserver ▸ hrunning) hclient harrived helems (headerFilled_whole _)
    (hserver ▸ hout)⟩

theorem handler_of_step {calls : Calls} (hclient : d.client = .awaiting calls)
    (hhandler : d.handler = .serving) (hfrom : d.toClient = []) (hstep : DialogStep ssl d d') :
    d'.handler = .replied := by
  cases hstep with
  | send _ hidle _ _ => rw [hclient] at hidle; cases hidle
  | sendClosed hidle _ _ => rw [hclient] at hidle; cases hidle
  | handle _ _ _ _ _ _ _ => rfl
  | close hreplied => rw [hhandler] at hreplied; cases hreplied
  | receive _ _ hparse => rw [hfrom, parseReply_nil] at hparse; cases hparse
  | receiveEnd _ _ hclosed _ => rw [hhandler] at hclosed; cases hclosed

/-- An idle client before a serving server can only send. -/
theorem client_of_step (hclient : d.client = .idle) (hhandler : d.handler = .serving)
    (hstep : DialogStep ssl d d') :
    d'.handler = .serving ∧ ∃ calls, d'.client = .awaiting calls := by
  cases hstep with
  | send calls _ _ _ => exact ⟨hhandler, calls, rfl⟩
  | sendClosed _ _ hclosed => rw [hhandler] at hclosed; cases hclosed
  | handle _ _ hawait _ _ _ _ => rw [hclient] at hawait; cases hawait
  | close hreplied => rw [hhandler] at hreplied; cases hreplied
  | receive hawait _ _ => rw [hclient] at hawait; cases hawait
  | receiveEnd hawait _ _ _ => rw [hclient] at hawait; cases hawait

namespace Dialog.At

theorem eventually_of_handler (h : d.At ssl server prog) (hhandler : d.handler ≠ .serving) :
    Eventually (DialogStep ssl) Dialog.Done d := by
  cases h with
  | fresh _ _ hserving _ _ _ => exact absurd hserving hhandler
  | sent _ _ _ hserving _ _ _ => exact absurd hserving hhandler
  | replied hprog hop hclient _ hfrom hwf _ =>
      exact Dialog.Answered.eventually hwf
        ⟨⟨_, _, hprog.trans hop⟩, ⟨_, hclient⟩, hhandler, hfrom⟩
  | after _ _ _ hfrom => exact Dialog.Spent.eventually ⟨hhandler, hfrom⟩

variable (hreach : Server.Reachable ssl server) (hrunning : server.running = true)
include hreach hrunning

theorem eventually_of_awaiting (h : d.At ssl server prog) {calls : Calls}
    (hclient : d.client = .awaiting calls) : Eventually (DialogStep ssl) Dialog.Done d := by
  have hat := h
  cases h with
  | fresh _ hidle _ _ _ _ => rw [hclient] at hidle; cases hidle
  | sent _ _ _ hserving hto hfrom hserver =>
      refine .later (exists_handle hreach hrunning hclient hserving hto hserver) fun d' hstep => ?_
      have hreplied := handler_of_step hclient hserving hfrom hstep
      exact (hat.step hreach hstep).eventually_of_handler (by simp [hreplied])
  | replied _ _ _ hhandler _ _ _ => exact hat.eventually_of_handler hhandler
  | after _ _ hhandler _ => exact hat.eventually_of_handler hhandler

/-- **Every program comes to its end**, whatever the order of steps. -/
theorem eventually (h : d.At ssl server prog) : Eventually (DialogStep ssl) Dialog.Done d := by
  have hat := h
  cases h with
  | fresh _ hclient hserving _ _ _ =>
      cases hp : d.prog with
      | ret a => exact .now (.inl ⟨a, hp⟩)
      | op o k =>
          refine .later ⟨_, .send ⟨.succeed Crypto.zeroIV, .succeed⟩ hclient hp
            (by simp [hserving])⟩ fun d' hstep => ?_
          obtain ⟨-, calls, hawait⟩ := client_of_step hclient hserving hstep
          exact (hat.step hreach hstep).eventually_of_awaiting hreach hrunning hawait
  | sent _ _ hclient _ _ _ _ => exact hat.eventually_of_awaiting hreach hrunning hclient
  | replied _ _ _ hhandler _ _ _ => exact hat.eventually_of_handler hhandler
  | after _ _ hhandler _ => exact hat.eventually_of_handler hhandler

end Dialog.At

/-- **Over one connection only the first call gets a result.** For every
program, every order of steps and every running server: the first call
returns what it returns on a connection of its own, every later one fails,
and the program returns or is ended by `SIGPIPE`. -/
theorem only_first_call_succeeds (hreach : Server.Reachable ssl server)
    (hrunning : server.running = true) (prog : App α) :
    (∀ d, ReflTransGen (DialogStep ssl) (Dialog.init server prog) d →
      d.prog = prog ∨ ∃ op k calls, prog = .op op k ∧
        Declined (k (resultOf op (separately ssl server (op, calls)).1.1)) d.prog) ∧
    Eventually (DialogStep ssl) Dialog.Done (Dialog.init server prog) := by
  refine ⟨fun d hrun => ?_, (Dialog.At.run hreach .refl).eventually hreach hrunning⟩
  cases Dialog.At.run hreach hrun with
  | fresh hprog _ _ _ _ _ => exact .inl hprog
  | sent hprog _ _ _ _ _ _ => exact .inl hprog
  | replied hprog _ _ _ _ _ _ => exact .inl hprog
  | after hop hrest _ _ => exact .inr ⟨_, _, _, hop, hrest⟩

end

/-- Attestation, and then a retrieval. -/
def twoCalls : App (Bool × Bool) := do
  let attestation ← Prog.perform EnclaveOp.getAttestation
  let value ← Prog.perform (EnclaveOp.retrieveData [0x6B])
  return (attestation.isSome, value.isSome)

theorem sampleServer_attests (calls : Calls) :
    letI := Host.littleEndian
    (resultOf .getAttestation
      (separately Crypto.sampleGcm sampleServer (.getAttestation, calls)).1.1).isSome = true := by
  let := Host.littleEndian
  rw [resultOf_separately sampleServer_reachable rfl (by decide +kernel) (by decide +kernel)]
  rfl

/-- The attestation comes, and the retrieval fails. -/
theorem only_first_call_succeeds_attestation :
    letI := Host.littleEndian
    (∀ d r, ReflTransGen (DialogStep Crypto.sampleGcm) (Dialog.init sampleServer twoCalls) d →
      d.prog = .ret r → r = (true, false)) ∧
    Eventually (DialogStep Crypto.sampleGcm) Dialog.Done (Dialog.init sampleServer twoCalls) := by
  let := Host.littleEndian
  obtain ⟨hruns, hends⟩ := only_first_call_succeeds sampleServer_reachable rfl twoCalls
  refine ⟨fun d r hrun hret => ?_, hends⟩
  rcases hruns d hrun with hprog | ⟨op, k, calls, hop, hrest⟩
  · rw [hret] at hprog
    cases hprog
  · cases hop
    rw [hret] at hrest
    rcases hrest.of_op with hcall | hdeclined
    · cases hcall
    · have hattested := sampleServer_attests calls
      rw [Prog.ret.inj hdeclined.of_ret, hattested]
      rfl

/-! ## `main` of the example -/

/-- The exit code, and what was printed last. -/
structure Exit where
  code : Nat
  message : String
deriving DecidableEq, Repr

/-- The bytes of `"my_secret"`. -/
def mySecret : Bytes := [0x6D, 0x79, 0x5F, 0x73, 0x65, 0x63, 0x72, 0x65, 0x74]

/-- The bytes of `"Hello Enclave"`. -/
def helloEnclave : Bytes :=
  [0x48, 0x65, 0x6C, 0x6C, 0x6F, 0x20, 0x45, 0x6E, 0x63, 0x6C, 0x61, 0x76, 0x65]

/-- `main`, with what `Connect` returned. -/
def exampleMain (connected : Bool) : App Exit :=
  if connected = false then
    return ⟨1, "Failed to connect. Make sure the server is running."⟩
  else do
    match ← Prog.perform (EnclaveOp.loadModule [0x01, 0x02, 0x03, 0x04, 0x05]) with
    | none => return ⟨1, "Failed to load module"⟩
    | some moduleHandle =>
      let params := [0x10, 0x20, 0x30]
      match ← Prog.perform (EnclaveOp.invokeFunction moduleHandle testFunction params) with
      | none => return ⟨1, "Failed to invoke function"⟩
      | some _ =>
        match ← Prog.perform (EnclaveOp.storeData mySecret helloEnclave) with
        | none => return ⟨1, "Failed to store data"⟩
        | some _ =>
          match ← Prog.perform (EnclaveOp.retrieveData mySecret) with
          | none => return ⟨1, "Failed to retrieve data"⟩
          | some _ =>
            match ← Prog.perform EnclaveOp.getAttestation with
            | none => return ⟨1, "Failed to get attestation"⟩
            | some _ => return ⟨0, "\nAll tests passed!"⟩

section
variable [Host]

/-- **The example never passes.** Once it has connected to a running server,
in whatever state, `main` ends, whatever the order of steps and however
the server's OpenSSL calls turn out, and where it returns it has failed
to load the module or to invoke its function. -/
theorem main_never_passes {ssl : Crypto.OpenSSL} {server : EnclaveServer}
    (hreach : Server.Reachable ssl server) (hrunning : server.running = true) :
    (∀ d exit, ReflTransGen (DialogStep ssl) (Dialog.init server (exampleMain true)) d →
      d.prog = .ret exit →
        exit = ⟨1, "Failed to load module"⟩ ∨ exit = ⟨1, "Failed to invoke function"⟩) ∧
    Eventually (DialogStep ssl) Dialog.Done (Dialog.init server (exampleMain true)) := by
  refine ⟨fun d exit hrun hret => ?_, (Dialog.At.run hreach .refl).eventually hreach hrunning⟩
  have hfirst : exampleMain true ≠ .ret exit := by
    intro h
    cases h
  cases Dialog.At.run hreach hrun with
  | fresh hprog _ _ _ _ _ => exact absurd (hprog.symm.trans hret) hfirst
  | sent hprog _ _ _ _ _ _ => exact absurd (hprog.symm.trans hret) hfirst
  | replied hprog _ _ _ _ _ _ => exact absurd (hprog.symm.trans hret) hfirst
  | @after op k calls hop hrest _ _ =>
      rw [hret] at hrest
      cases hop
      cases hload : resultOf (.loadModule [0x01, 0x02, 0x03, 0x04, 0x05])
          (separately ssl server (.loadModule [0x01, 0x02, 0x03, 0x04, 0x05], calls)).1.1 with
      | none =>
          rw [hload] at hrest
          cases hrest.of_ret
          exact .inl rfl
      | some moduleHandle =>
          rw [hload] at hrest
          -- the function is invoked, in vain
          rcases hrest.of_op with hcall | hdeclined
          · cases hcall
          · cases hdeclined.of_ret
            exact .inr rfl

end

/-- Against a server that has just started. -/
theorem main_never_passes_started :
    letI := Host.littleEndian
    (∀ d exit, ReflTransGen (DialogStep Crypto.sampleGcm)
        (Dialog.init sampleServer (exampleMain true)) d → d.prog = .ret exit → exit.code = 1) ∧
    Eventually (DialogStep Crypto.sampleGcm) Dialog.Done
      (Dialog.init sampleServer (exampleMain true)) := by
  let := Host.littleEndian
  obtain ⟨hruns, hends⟩ := main_never_passes sampleServer_reachable rfl
  refine ⟨fun d exit hrun hret => ?_, hends⟩
  rcases hruns d exit hrun hret with rfl | rfl
  · rfl
  · rfl

end OpenEnclave.Client
