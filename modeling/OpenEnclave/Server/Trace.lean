import OpenEnclave.Server.Loop

/-!
# Trace — what a request leaves behind

The status of a reply tells whether anything changed. This holds in every
state a server gets into, also in those that the `Shutdown` of a signal
leaves: where `enclave_` is gone a call is not answered at all, and what
is answered without a call changes no more than elsewhere
(`failed_request_leaves_no_trace`).
-/

namespace OpenEnclave.Server

open ByteCodec Protocol Effect Relation EnclaveImpl

section
variable [Host]

/-! ## Servers under signals -/

/-- The enclave, if there is one, is in a state that calls of its interface
lead to. -/
def EnclaveServer.Sound (ssl : Crypto.OpenSSL) (s : EnclaveServer) : Prop :=
  ∀ e, s.enclave = some e → ∃ n, EnclaveImpl.Reachable ssl n e

variable {ssl : Crypto.OpenSSL}

theorem EnclaveServer.sound_shutdown (s : EnclaveServer) : s.shutdown.Sound ssl := by
  intro e he
  cases he

theorem act_sound {calls : Calls} {o : ServerOp} {w w' : World} {r : o.Res}
    (h : act ssl calls o w = .ok (r, w')) (hs : w.server.Sound ssl) : w'.server.Sound ssl := by
  cases o with
  | recv n waitAll =>
      cases h
      exact hs
  | send data =>
      rw [act] at h
      split at h
      · cases h
        exact hs
      · cases h
  | callEnclave op =>
      rw [act] at h
      split at h
      · cases h
      · rename_i e he
        cases h
        intro e' he'
        cases he'
        obtain ⟨n, hreach⟩ := hs e he
        exact ⟨_, hreach.perform calls op⟩
  | stopRunning =>
      cases h
      exact hs

theorem MainStep.sound {p p' : Process} (h : MainStep ssl p p') (hs : p.server.Sound ssl) :
    p'.server.Sound ssl := by
  cases h with
  | perform hact => exact act_sound hact hs
  | @destroy s g => exact s.sound_shutdown
  | _ => exact hs

theorem Step.sound {p p' : Process} (h : Step ssl p p') (hs : p.server.Sound ssl) :
    p'.server.Sound ssl := by
  cases h with
  | main hmain => exact hmain.sound hs
  | signal _ =>
      rw [Process.signalHandler]
      split
      · exact p.server.sound_shutdown
      · exact hs

theorem sound_of_run {p p' : Process} (hinit : p.Initial) (hrun : ReflTransGen (Step ssl) p p') :
    p'.server.Sound ssl := by
  induction hrun with
  | refl =>
      obtain ⟨-, -, rand, sockets, hserver⟩ := hinit
      obtain ⟨e₀, hcreate, he₀⟩ := initializeServer_enclave hserver
      intro e he
      rw [he₀] at he
      cases he
      exact ⟨0, .create hcreate⟩
  | tail _ hlast ih => exact hlast.sound ih

/-! ## Changes -/

omit [Host] in
/-- What a successful command may change, and nothing else. -/
def Changes : Command → EnclaveServer → EnclaveServer → Prop
  | .call (.loadModule _), s, s' =>
      ∃ e module, s.enclave = some e ∧
        s' = { s with enclave := some { e with
          nextModuleId := e.nextModuleId + 1
          modules := Function.update e.modules e.nextModuleId (some module) } } ∧
        -- fresh: the entry replaces none, as long as any id is free
        ((∃ id, e.modules id = none) → e.modules e.nextModuleId = none)
  | .call (.storeData key _), s, s' =>
      ∃ e blob, s.enclave = some e ∧
        s' = { s with enclave := some { e with
          secureStorage := Function.update e.secureStorage key (some blob) } }
  | .shutdown, s, s' => s' = { s with running := false }
  | .call _, s, s' => s' = s

/-- A served call, by its result. -/
theorem serve_call_changes {ssl : Crypto.OpenSSL} {calls : Calls} {server : EnclaveServer}
    {e : EnclaveImpl} {key : Crypto.Key} {n : Nat} (he : server.enclave = some e)
    (hI : Inv ssl key n e) (op : EnclaveOp) :
    ∃ reply server', serve ssl calls server (.ok (.call op)) = .ok (reply, server') ∧
      (reply.status ≠ .success → server' = server) ∧
      (reply.status = .success → Changes (.call op) server server') := by
  have hself : { server with enclave := some e } = server := by rw [← he]
  refine ⟨_, _, by simp only [serve, he]; rfl, ?_⟩
  have h := performed ssl calls op hI.init
  generalize e.perform ssl calls op = r at h ⊢
  obtain ⟨result, e'⟩ := r
  cases h with
  | failed status =>
      exact ⟨fun _ => hself, fun hs => absurd hs (failureStatus_ne_success op)⟩
  | loaded iv hd =>
      refine ⟨fun hs => absurd rfl hs, fun _ => ⟨e, _, he, rfl, ?_⟩⟩
      -- the counter is ahead of every id in use until it has gone round
      intro hfree
      obtain ⟨id, hid⟩ := hfree
      exact hI.fresh (hI.lt_of_free hid)
  | invoked => exact ⟨fun _ => hself, fun _ => hself⟩
  | stored iv hd => exact ⟨fun hs => absurd rfl hs, fun _ => ⟨e, _, he, rfl⟩⟩
  | retrieved hb hv => exact ⟨fun _ => hself, fun _ => hself⟩
  | attested => exact ⟨fun _ => hself, fun _ => hself⟩

/-- A server without its enclave answers what needs none. -/
theorem serve_changes {server : EnclaveServer} (hs : server.Sound ssl) (calls : Calls)
    (incoming : Chunked UInt8) :
    (serve ssl calls server (commandOf incoming) = .error .nullEnclave ∧
      server.enclave = none ∧ ∃ op, commandOf incoming = .ok (.call op)) ∨
    ∃ reply server', serve ssl calls server (commandOf incoming) = .ok (reply, server') ∧
      (reply.status ≠ .success → server' = server) ∧
      (reply.status = .success →
        ∃ command, commandOf incoming = .ok command ∧ Changes command server server') := by
  cases hc : commandOf incoming with
  | error status =>
      exact .inr ⟨_, _, rfl, fun _ => rfl, fun hsucc => absurd hsucc (commandOf_error hc)⟩
  | ok command =>
      cases command with
      | shutdown =>
          exact .inr ⟨_, _, rfl, fun hsucc => absurd rfl hsucc, fun _ => ⟨_, rfl, rfl⟩⟩
      | call op =>
          cases he : server.enclave with
          | none =>
              refine .inl ⟨?_, rfl, op, rfl⟩
              simp only [serve, he]
          | some e =>
              obtain ⟨n, hreach⟩ := hs e he
              obtain ⟨key, hI⟩ := hreach.inv
              obtain ⟨reply, server', hserve, hfail, hsucc⟩ := serve_call_changes he hI op
              exact .inr ⟨reply, server', hserve, hfail, fun hs => ⟨_, rfl, hsucc hs⟩⟩

/-- **A failed request leaves no trace**, and a successful one only the
change its command stands for: in every state of a process that signals
may reach at any time, for every stream in every cut and every outcome of
the OpenSSL calls. No reply at all is sent only where a signal has taken
the enclave away and the request calls it. -/
theorem failed_request_leaves_no_trace (ssl : Crypto.OpenSSL) (p₀ p : Process)
    (hinit : p₀.Initial) (hrun : ReflTransGen (Step ssl) p₀ p) (calls : Calls)
    (incoming : Chunked UInt8) (peerOpen : Bool) :
    (outcome ssl calls p.server incoming peerOpen = .error .nullEnclave ∧
      p.server.enclave = none ∧ ∃ op, commandOf incoming = .ok (.call op)) ∨
    ∃ reply server', outcome ssl calls p.server incoming peerOpen =
        deliver peerOpen reply server' ∧
      (reply.status ≠ .success → server' = p.server) ∧
      (reply.status = .success →
        ∃ command, commandOf incoming = .ok command ∧ Changes command p.server server') := by
  rw [outcome_eq]
  rcases serve_changes (sound_of_run hinit hrun) calls incoming with
    ⟨hnull, hnone, hcall⟩ | ⟨reply, server', hserve, hchanges⟩
  · rw [hnull]
    exact .inl ⟨rfl, hnone, hcall⟩
  · rw [hserve]
    exact .inr ⟨reply, server', rfl, hchanges⟩

theorem status_of_outcome {calls : Calls} {server server' : EnclaveServer}
    {incoming : Chunked UInt8} {peerOpen : Bool} {reply : Response} {status : ResponseStatus}
    (hout : outcome ssl calls server incoming peerOpen = deliver peerOpen reply server')
    (hstatus : (serve ssl calls server (commandOf incoming)).map (·.1.status) = .ok status) :
    reply.status = status := by
  cases hserve : serve ssl calls server (commandOf incoming) with
  | error fault =>
      rw [hserve] at hstatus
      cases hstatus
  | ok p =>
      rw [outcome_eq, hserve] at hout
      rw [hserve] at hstatus
      rw [← deliver_reply_inj hout]
      exact Except.ok.inj hstatus

end

theorem sampleStored_reached :
    letI := Host.littleEndian
    ReflTransGen (Step Crypto.sampleGcm) sampleProcess ⟨.loopTest, sampleStored, true⟩ := by
  let := Host.littleEndian
  have hstart : ReflTransGen (MainStep Crypto.sampleGcm) sampleProcess
      ⟨.loopTest, sampleServer, true⟩ :=
    .head (.initialized (by decide) (Option.some_ne_none _)) (.head .setRunning .refl)
  have hserved := serveAll_ok_run true (show 0 ≤ sampleServer.socketFd by decide)
    sampleStored_served
  exact (hstart.trans hserved).lift id fun _ _ => Step.main

/-- A store for which there are no random bytes fails and leaves the old
value and the module where they are; a second load adds its entry. -/
theorem failed_request_leaves_no_trace_stored :
    letI := Host.littleEndian
    let calls : Calls := ⟨.succeed Crypto.zeroIV, .succeed⟩
    let failing : Calls := ⟨{ calls.encrypt with randBytes := none }, .succeed⟩
    (∃ e, sampleStored.enclave = some e ∧ (e.modules 1).isSome = true ∧
      e.retrieveData Crypto.sampleGcm calls [0x6B] = .ok [0x48, 0x69]) ∧
    (∃ reply, outcome Crypto.sampleGcm failing sampleStored
        (.whole (sampleStore [0x6B] [0x48]).serialize) true = deliver true reply sampleStored ∧
      reply.status = .errorExecutionFailed) ∧
    (∃ reply server', outcome Crypto.sampleGcm calls sampleStored
        sampleLoadVisit.incoming true = deliver true reply server' ∧
      reply.status = .success ∧
      Changes (.call (.loadModule [0x48, 0x69])) sampleStored server') := by
  let := Host.littleEndian
  intro calls failing
  have hsome : sampleStored.enclave ≠ none := by
    rw [sampleStored]
    exact Option.some_ne_none _
  refine ⟨⟨_, rfl, by decide +kernel, by decide +kernel⟩, ?_, ?_⟩
  · rcases failed_request_leaves_no_trace Crypto.sampleGcm sampleProcess _ sampleProcess_initial
      sampleStored_reached failing (.whole (sampleStore [0x6B] [0x48]).serialize) true with
      ⟨-, hnone, -⟩ | ⟨reply, server', hout, hfail, -⟩
    · exact absurd hnone hsome
    · have hstatus : reply.status = .errorExecutionFailed :=
        status_of_outcome hout (by decide +kernel)
      have hne : reply.status ≠ .success := by
        rw [hstatus]
        decide
      rw [hfail hne] at hout
      exact ⟨reply, hout, hstatus⟩
  · rcases failed_request_leaves_no_trace Crypto.sampleGcm sampleProcess _ sampleProcess_initial
      sampleStored_reached calls sampleLoadVisit.incoming true with
      ⟨-, hnone, -⟩ | ⟨reply, server', hout, -, hsucc⟩
    · exact absurd hnone hsome
    · have hstatus : reply.status = .success := status_of_outcome hout (by decide +kernel)
      obtain ⟨command, hcommand, hchanges⟩ := hsucc hstatus
      have hload : command = .call (.loadModule [0x48, 0x69]) :=
        Except.ok.inj (hcommand.symm.trans sampleLoadVisit_command)
      rw [hload] at hchanges
      exact ⟨reply, server', hout, hstatus, hchanges⟩

end OpenEnclave.Server
