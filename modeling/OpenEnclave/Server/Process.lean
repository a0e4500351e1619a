import OpenEnclave.Server.Reply
import OpenEnclave.Lib.Transition

/-!
# Process — the server process and its signals

`main` after a successful `Initialize`, one step at a time: the checks
and the loop of `Run`, the accept, the operations of `HandleClient`, and
the way out. `SIGINT` and `SIGTERM` run `signal_handler` between any two
steps; it calls `Shutdown`, which destroys the enclave under the feet of
whatever the main flow is doing.

`enclave_` is checked once, at the start of `Run`. What protects the
handlers afterwards is that a server without an enclave has no
listening socket either (`Process.Inv`), so no connection is accepted
any more. A connection that has already been accepted is not protected:
`pendingCall` is the state in which a signal does harm.
-/

namespace OpenEnclave.Server

open ByteCodec Protocol Effect Relation

/-! ## The main flow -/

/-- Where the main flow is. -/
inductive Pc where
  /-- `if (socket_fd_ < 0 || !enclave_)` at the start of `Run`. -/
  | checkInitialized
  /-- `running_ = true`. -/
  | setRunning
  /-- `while (running_)`. -/
  | loopTest
  /-- In `accept`. -/
  | accept
  /-- In `HandleClient`, with this much of it still to do. -/
  | handle (calls : Calls) (prog : ServerProg Unit) (conn : Connection)
  /-- `close(client_fd)`. -/
  | closeClient
  /-- `Run` has returned to `main`. -/
  | returned
  /-- `g_server` is null; `~EnclaveServer` is next. -/
  | cleared
  | exited
  /-- The process was ended by a fault. -/
  | ended (fault : Fault)

structure Process where
  pc : Pc
  server : EnclaveServer
  /-- `g_server` points to the server. -/
  gServer : Bool

section
variable [Host]

/-- One step of `main`. The environment chooses whether an accept brings
a connection and which. -/
inductive MainStep (ssl : Crypto.OpenSSL) : Process → Process → Prop where
  | initialized {s g} : 0 ≤ s.socketFd → s.enclave ≠ none →
      MainStep ssl ⟨.checkInitialized, s, g⟩ ⟨.setRunning, s, g⟩
  | notInitialized {s g} : s.socketFd < 0 ∨ s.enclave = none →
      MainStep ssl ⟨.checkInitialized, s, g⟩ ⟨.returned, s, g⟩
  | setRunning {s g} :
      MainStep ssl ⟨.setRunning, s, g⟩ ⟨.loopTest, { s with running := true }, g⟩
  | iterate {s g} : s.running = true → MainStep ssl ⟨.loopTest, s, g⟩ ⟨.accept, s, g⟩
  | leave {s g} : s.running = false → MainStep ssl ⟨.loopTest, s, g⟩ ⟨.returned, s, g⟩
  | accepted {s g} (calls : Calls) (incoming : Chunked UInt8) (peerOpen : Bool) :
      0 ≤ s.socketFd →
      MainStep ssl ⟨.accept, s, g⟩ ⟨.handle calls handleClient ⟨incoming, peerOpen, []⟩, s, g⟩
  -- always possible, and all that is possible on a closed socket
  | acceptFailed {s g} : MainStep ssl ⟨.accept, s, g⟩ ⟨.loopTest, s, g⟩
  | perform {s g calls conn o r w} {k : ServerOp.Res o → ServerProg Unit} :
      act ssl calls o ⟨s, conn⟩ = .ok (r, w) →
      MainStep ssl ⟨.handle calls (.op o k) conn, s, g⟩ ⟨.handle calls (k r) w.conn, w.server, g⟩
  | fault {s g calls conn o fault} {k : ServerOp.Res o → ServerProg Unit} :
      act ssl calls o ⟨s, conn⟩ = .error fault →
      MainStep ssl ⟨.handle calls (.op o k) conn, s, g⟩ ⟨.ended fault, s, g⟩
  | handled {s g calls conn} :
      MainStep ssl ⟨.handle calls (.ret ()) conn, s, g⟩ ⟨.closeClient, s, g⟩
  | closed {s g} : MainStep ssl ⟨.closeClient, s, g⟩ ⟨.loopTest, s, g⟩
  | clear {s g} : MainStep ssl ⟨.returned, s, g⟩ ⟨.cleared, s, false⟩
  | destroy {s g} : MainStep ssl ⟨.cleared, s, g⟩ ⟨.exited, s.shutdown, g⟩

omit [Host] in
/-- The process is there to receive signals. -/
def Process.Live (p : Process) : Prop := p.pc ≠ .exited ∧ ∀ fault, p.pc ≠ .ended fault

omit [Host] in
/-- `signal_handler`. -/
def Process.signalHandler (p : Process) : Process :=
  if p.gServer then { p with server := p.server.shutdown } else p

/-- A step of the main flow, or a signal between two of them. -/
inductive Step (ssl : Crypto.OpenSSL) : Process → Process → Prop where
  | main {p p'} : MainStep ssl p p' → Step ssl p p'
  | signal {p} : p.Live → Step ssl p p.signalHandler

/-- `main` once `Initialize` has returned `true`. -/
def Process.Initial (p : Process) : Prop :=
  p.pc = .checkInitialized ∧ p.gServer = true ∧
    ∃ rand sockets, EnclaveServer.new.initializeServer rand sockets = (true, p.server)

/-! ## Calls ahead -/

/-- The rest of the handler, on the rest of this connection, comes to a
dereference of `enclave_`. -/
def callAhead : ServerProg Unit → Connection → Prop
  | .ret _, _ => False
  | .op (.callEnclave _) _, _ => True
  | .op (.recv n false) k, conn =>
      callAhead (k (conn.incoming.recv n).1) { conn with incoming := (conn.incoming.recv n).2 }
  | .op (.recv n true) k, conn =>
      callAhead (k (conn.incoming.recvAll n).1)
        { conn with incoming := (conn.incoming.recvAll n).2 }
  | .op (.send data) k, conn =>
      conn.peerOpen = true ∧ callAhead (k ()) { conn with sent := conn.sent ++ [data] }
  | .op .stopRunning k, conn => callAhead (k ()) conn

theorem callAhead_of_act {ssl : Crypto.OpenSSL} {calls : Calls} {o : ServerOp} {w w' : World}
    {r : o.Res} {k : o.Res → ServerProg Unit} (h : act ssl calls o w = .ok (r, w'))
    (hk : callAhead (k r) w'.conn) : callAhead (.op o k) w.conn := by
  cases o with
  | recv n waitAll => cases waitAll <;> cases h <;> exact hk
  | send data =>
      by_cases hopen : w.conn.peerOpen = true
      · simp only [act, if_pos hopen] at h
        cases h
        exact ⟨hopen, hk⟩
      · simp only [act, if_neg hopen] at h
        cases h
  | callEnclave op => trivial
  | stopRunning => cases h; exact hk

/-- No operation of a handler takes the enclave away or opens the
socket. -/
theorem act_server {ssl : Crypto.OpenSSL} {calls : Calls} {o : ServerOp} {w w' : World}
    {r : o.Res} (h : act ssl calls o w = .ok (r, w')) :
    w'.server.socketFd = w.server.socketFd ∧
      (w.server.enclave ≠ none → w'.server.enclave ≠ none) := by
  cases o with
  | recv n waitAll => cases h; exact ⟨rfl, id⟩
  | send data =>
      rw [act] at h
      split at h
      · cases h; exact ⟨rfl, id⟩
      · cases h
  | callEnclave op =>
      rw [act] at h
      split at h
      · cases h
      · cases h
        exact ⟨rfl, fun _ => Option.some_ne_none _⟩
  | stopRunning => cases h; exact ⟨rfl, id⟩

/-- Without its enclave, a handler with a call ahead ends there. -/
theorem callAhead_iff_exec (ssl : Crypto.OpenSSL) (calls : Calls) (server : EnclaveServer)
    (hnone : server.enclave = none) (prog : ServerProg Unit) (conn : Connection) :
    callAhead prog conn ↔ prog.exec (act ssl calls) ⟨server, conn⟩ = .error .nullEnclave := by
  induction prog generalizing server conn with
  | ret a => exact ⟨False.elim, fun h => by cases h⟩
  | op o k ih =>
      cases o with
      | recv n waitAll => cases waitAll <;> exact ih _ server hnone _
      | send data =>
          by_cases hopen : conn.peerOpen = true
          · rw [Prog.exec_op_ok (if_pos hopen), ← ih () server hnone]
            exact ⟨fun h => h.2, fun h => ⟨hopen, h⟩⟩
          · rw [Prog.exec_op_error (if_neg hopen)]
            exact ⟨fun h => absurd h.1 hopen, fun h => by cases h⟩
      | callEnclave op =>
          have hact : act ssl calls (.callEnclave op) ⟨server, conn⟩ = .error .nullEnclave := by
            simp only [act, hnone]
          rw [Prog.exec_op_error hact]
          exact ⟨fun _ => rfl, fun _ => trivial⟩
      | stopRunning =>
          exact ih () { server with running := false } hnone conn

/-- At the accept, the request decides. -/
theorem callAhead_handleClient (ssl : Crypto.OpenSSL) (calls : Calls) (conn : Connection) :
    callAhead handleClient conn ↔ ∃ op, commandOf conn.incoming = .ok (.call op) := by
  obtain ⟨rest, hexec⟩ := exec_handleClient ssl calls .new conn
  rw [callAhead_iff_exec ssl calls .new rfl, hexec]
  cases commandOf conn.incoming with
  | error status => cases conn.peerOpen <;> simp [serve]
  | ok command =>
      cases command with
      | shutdown => cases conn.peerOpen <;> simp [serve]
      | call op => simp [serve, EnclaveServer.new]

/-! ## Safety of the handlers -/

/-- A handler is under way and has a call ahead. -/
def Process.PendingCall (p : Process) : Prop :=
  ∃ calls prog conn, p.pc = .handle calls prog conn ∧ callAhead prog conn

/-- The next step of the main flow dereferences `enclave_`. -/
def Process.AtCall (p : Process) : Prop :=
  ∃ calls op k conn, p.pc = .handle calls (.op (.callEnclave op) k) conn

/-- A step in which no signal arrives while a call is ahead. -/
inductive GuardedStep (ssl : Crypto.OpenSSL) : Process → Process → Prop where
  | main {p p'} : MainStep ssl p p' → GuardedStep ssl p p'
  | signal {p} : p.Live → ¬ p.PendingCall → GuardedStep ssl p p.signalHandler

/-- Without an enclave there is no socket to accept on, and no handler
with a call ahead. -/
structure Process.Inv (p : Process) : Prop where
  socket : 0 ≤ p.server.socketFd → p.server.enclave ≠ none
  handler : p.PendingCall → p.server.enclave ≠ none

omit [Host] in
theorem Process.Initial.inv {p : Process} (h : p.Initial) : p.Inv := by
  obtain ⟨-, -, rand, sockets, hinit⟩ := h
  obtain ⟨e, -, he⟩ := initializeServer_enclave hinit
  exact ⟨fun _ => by simp [he], fun _ => by simp [he]⟩

omit [Host] in
/-- Outside a handler only the socket matters. -/
theorem Process.inv_outside {p : Process}
    (hsocket : 0 ≤ p.server.socketFd → p.server.enclave ≠ none)
    (hpc : ∀ calls prog conn, p.pc ≠ .handle calls prog conn) : p.Inv :=
  ⟨hsocket, fun h => by
    obtain ⟨calls, prog, conn, h, -⟩ := h
    exact absurd h (hpc calls prog conn)⟩

omit [Host] in
theorem shutdown_socketFd (s : EnclaveServer) : s.shutdown.socketFd < 0 := by
  rw [EnclaveServer.shutdown]
  simp only
  split <;> omega

theorem Process.Inv.mainStep {ssl : Crypto.OpenSSL} {p p' : Process} (hI : p.Inv)
    (h : MainStep ssl p p') : p'.Inv := by
  cases h with
  | initialized hfd he => exact inv_outside hI.socket (by simp)
  | notInitialized hc => exact inv_outside hI.socket (by simp)
  | setRunning => exact inv_outside hI.socket (by simp)
  | iterate hr => exact inv_outside hI.socket (by simp)
  | leave hr => exact inv_outside hI.socket (by simp)
  | accepted calls incoming peerOpen hfd => exact ⟨hI.socket, fun _ => hI.socket hfd⟩
  | acceptFailed => exact inv_outside hI.socket (by simp)
  | perform hact =>
      obtain ⟨hfd, henclave⟩ := act_server hact
      refine ⟨fun h => henclave (hI.socket (hfd ▸ h)), ?_⟩
      -- a call ahead after the operation was ahead before it
      intro hx
      obtain ⟨calls, prog, conn, hpc, hahead⟩ := hx
      cases hpc
      exact henclave (hI.handler ⟨_, _, _, rfl, callAhead_of_act hact hahead⟩)
  | fault hact => exact inv_outside hI.socket (by simp)
  | handled => exact inv_outside hI.socket (by simp)
  | closed => exact inv_outside hI.socket (by simp)
  | clear => exact inv_outside hI.socket (by simp)
  | @destroy s g =>
      have hfd := shutdown_socketFd s
      exact inv_outside (fun h => absurd hfd (by simpa using h)) (by simp)

omit [Host] in
/-- A signal keeps the invariant where no call is ahead. -/
theorem Process.Inv.signalHandler {p : Process} (hI : p.Inv) (hcall : ¬ p.PendingCall) :
    p.signalHandler.Inv := by
  rw [Process.signalHandler]
  split
  · have hfd := shutdown_socketFd p.server
    exact ⟨fun h => absurd hfd (by simpa using h), fun hp => absurd hp hcall⟩
  · exact hI

theorem Process.Inv.run {ssl : Crypto.OpenSSL} {p p' : Process} (hI : p.Inv)
    (hrun : ReflTransGen (GuardedStep ssl) p p') : p'.Inv := by
  refine Transition.invariant ?_ hrun hI
  intro q q' hstep hq
  cases hstep with
  | main h => exact hq.mainStep h
  | signal hlive hcall => exact hq.signalHandler hcall

/-- A handler with a call ahead gets there, with the enclave it has now. -/
theorem run_to_call (ssl : Crypto.OpenSSL) (calls : Calls) (g : Bool) (prog : ServerProg Unit)
    (conn : Connection) (hahead : callAhead prog conn) (s : EnclaveServer) :
    ∃ p, ReflTransGen (MainStep ssl) ⟨.handle calls prog conn, s, g⟩ p ∧ p.AtCall ∧
      p.server.enclave = s.enclave := by
  -- on the rest of the program: up to the call, no operation faults or
  -- touches the enclave
  induction prog generalizing conn s with
  | ret a => exact hahead.elim
  | op o k ih =>
      cases o with
      | recv n waitAll =>
          cases waitAll with
          | false =>
              obtain ⟨p, hrun, hp⟩ := ih _ _ hahead s
              exact ⟨p, .head (.perform rfl) hrun, hp⟩
          | true =>
              obtain ⟨p, hrun, hp⟩ := ih _ _ hahead s
              exact ⟨p, .head (.perform rfl) hrun, hp⟩
      | send data =>
          obtain ⟨hopen, hahead⟩ := hahead
          obtain ⟨p, hrun, hp⟩ := ih () _ hahead s
          exact ⟨p, .head (.perform (if_pos hopen)) hrun, hp⟩
      | callEnclave op => exact ⟨_, .refl, ⟨calls, op, k, conn, rfl⟩, rfl⟩
      | stopRunning =>
          obtain ⟨p, hrun, hp⟩ := ih () conn hahead { s with running := false }
          exact ⟨p, .head (.perform rfl) hrun, hp⟩

/-- **When handlers find their enclave.** In every run in which no signal
arrives while a call is ahead, `enclave_` is there whenever it is
dereferenced. The condition cannot be weakened: from a state with a call
ahead, a signal makes the main flow dereference null. -/
theorem enclave_nonnull_at_calls (ssl : Crypto.OpenSSL) (p : Process) (hinit : p.Initial) :
    (∀ p', ReflTransGen (GuardedStep ssl) p p' → p'.AtCall → p'.server.enclave ≠ none) ∧
    (∀ p' : Process, p'.gServer = true → p'.PendingCall →
      ∃ p'', ReflTransGen (MainStep ssl) p'.signalHandler p'' ∧ p''.AtCall ∧
        p''.server.enclave = none) := by
  constructor
  · intro p' hrun hcall
    obtain ⟨calls, op, k, conn, hpc⟩ := hcall
    exact (hinit.inv.run hrun).handler ⟨calls, _, conn, hpc, trivial⟩
  · -- the handler of the signal leaves the main flow where it was
    intro p' hg hpending
    obtain ⟨calls, prog, conn, hpc, hahead⟩ := hpending
    obtain ⟨pc, s, g⟩ := p'
    cases hpc
    cases hg
    exact run_to_call ssl calls true prog conn hahead s.shutdown

end

/-! ## A signal during a request for attestation -/

/-- The process with the zero-key enclave, about to run. -/
def sampleProcess : Process :=
  ⟨.checkInitialized, { sampleServer with running := false }, true⟩

theorem sampleProcess_initial : sampleProcess.Initial :=
  ⟨rfl, rfl, _, _, sampleServer_initialized⟩

/-- The process once it has accepted a request for attestation. -/
def sampleProcessAccepted [Host] : Process :=
  ⟨.handle ⟨.succeed Crypto.zeroIV, .succeed⟩ handleClient
    ⟨.whole attestationFrame, true, []⟩, sampleServer, true⟩

theorem sampleProcess_accepts :
    letI := Host.littleEndian
    ReflTransGen (MainStep Crypto.sampleGcm) sampleProcess sampleProcessAccepted := by
  let := Host.littleEndian
  refine .head (.initialized (by decide) (Option.some_ne_none _)) (.head .setRunning
    (.head (.iterate rfl) (.head (.accepted _ _ _ (by decide)) .refl)))

theorem sampleProcessAccepted_callAhead :
    letI := Host.littleEndian
    callAhead handleClient ⟨.whole attestationFrame, true, []⟩ := by
  let := Host.littleEndian
  refine (callAhead_handleClient Crypto.sampleGcm ⟨.succeed Crypto.zeroIV, .succeed⟩ _).mpr
    ⟨.getAttestation, ?_⟩
  decide +kernel

/-- The run without signals dereferences a live enclave. -/
theorem enclave_nonnull_at_calls_attestation :
    letI := Host.littleEndian
    ∃ p, ReflTransGen (GuardedStep Crypto.sampleGcm) sampleProcess p ∧ p.AtCall ∧
      p.server.enclave ≠ none := by
  let := Host.littleEndian
  obtain ⟨p, hrun, hcall, -⟩ := run_to_call Crypto.sampleGcm _ true _ _
    sampleProcessAccepted_callAhead sampleServer
  have hguarded : ReflTransGen (GuardedStep Crypto.sampleGcm) sampleProcess p :=
    (sampleProcess_accepts.trans hrun).lift id fun _ _ => .main
  exact ⟨p, hguarded, hcall,
    (enclave_nonnull_at_calls Crypto.sampleGcm _ sampleProcess_initial).1 p hguarded hcall⟩

/-- With a signal after the accept, the same request dereferences null. -/
theorem signal_during_request_dereferences_null :
    letI := Host.littleEndian
    ∃ p, sampleProcess.Initial ∧ ReflTransGen (Step Crypto.sampleGcm) sampleProcess p ∧
      p.AtCall ∧ p.server.enclave = none := by
  let := Host.littleEndian
  obtain ⟨p, hrun, hcall, hnone⟩ := run_to_call Crypto.sampleGcm _ true _ _
    sampleProcessAccepted_callAhead sampleServer.shutdown
  have hlive : sampleProcessAccepted.Live := ⟨by simp [sampleProcessAccepted],
    by simp [sampleProcessAccepted]⟩
  have hsignal : Step Crypto.sampleGcm sampleProcessAccepted
      ⟨sampleProcessAccepted.pc, sampleServer.shutdown, true⟩ := .signal hlive
  have hbefore : ReflTransGen (Step Crypto.sampleGcm) sampleProcess sampleProcessAccepted :=
    sampleProcess_accepts.lift id fun _ _ => .main
  have hafter := hrun.lift id fun _ _ => Step.main
  exact ⟨p, sampleProcess_initial, (hbefore.tail hsignal).trans hafter, hcall, hnone⟩

end OpenEnclave.Server
