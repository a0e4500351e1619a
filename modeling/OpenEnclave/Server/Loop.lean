import OpenEnclave.Server.Process
import OpenEnclave.Enclave.Store

/-!
# Loop — one client after the other

The accept loop of `Run` over a whole sequence of clients, without
signals. `serveAll` is the loop as a function; `serveAll_ok_run` and
`serveAll_error_run` show that the process of `Process.lean` takes the
same way. What the clients have stored stays retrievable along the way
(`serveAll_represents`), and the one thing that can end the process is a
client that is gone when its reply is written (`server_survives_iff`).
-/

namespace OpenEnclave.Server

open ByteCodec Protocol Effect Relation EnclaveImpl

/-- A client's visit: what it sends and in which cut, whether it can still
receive when the server calls `send` (its end neither closed nor shut down
for reading), and how the OpenSSL calls made on its behalf turn out. -/
structure Visit where
  incoming : Chunked UInt8
  peerOpen : Bool
  calls : Calls

section
variable [Host]

/-! ## The loop -/

/-- `while (running_)`, over the clients that come. -/
def serveAll (ssl : Crypto.OpenSSL) : EnclaveServer → List Visit → Except Fault EnclaveServer
  | server, [] => .ok server
  | server, v :: visits =>
    if server.running then
      match outcome ssl v.calls server v.incoming v.peerOpen with
      | .error fault => .error fault
      | .ok (_, server') => serveAll ssl server' visits
    else .ok server

/-- A handler's own steps are steps of the process. -/
theorem handler_run {ssl : Crypto.OpenSSL} {calls : Calls} (g : Bool)
    {p p' : ServerProg Unit} {w w' : World}
    (h : ReflTransGen (Prog.Step (act ssl calls)) (p, w) (p', w')) :
    ReflTransGen (MainStep ssl) ⟨.handle calls p w.conn, w.server, g⟩
      ⟨.handle calls p' w'.conn, w'.server, g⟩ := by
  refine h.lift (fun x : ServerProg Unit × World =>
    (⟨.handle calls x.1 x.2.conn, x.2.server, g⟩ : Process)) ?_
  rintro _ _ ⟨hact⟩
  exact .perform hact

/-- One connection, from the test of the loop to the next one. -/
theorem outcome_ok_run {ssl : Crypto.OpenSSL} {calls : Calls} {server server' : EnclaveServer}
    {incoming : Chunked UInt8} {peerOpen g : Bool} {sent : List Bytes}
    (hfd : 0 ≤ server.socketFd) (hrun : server.running = true)
    (h : outcome ssl calls server incoming peerOpen = .ok (sent, server')) :
    ReflTransGen (MainStep ssl) ⟨.loopTest, server, g⟩ ⟨.loopTest, server', g⟩ := by
  rw [outcome] at h
  split at h
  · cases h
  · rename_i w hexec
    cases h
    exact .head (.iterate hrun) (.head (.accepted calls incoming peerOpen hfd)
      ((handler_run g (Prog.exec_ok_iff.mp hexec)).trans
        (.head .handled (.head .closed .refl))))

theorem outcome_error_run {ssl : Crypto.OpenSSL} {calls : Calls} {server : EnclaveServer}
    {incoming : Chunked UInt8} {peerOpen g : Bool} {fault : Fault}
    (hfd : 0 ≤ server.socketFd) (hrun : server.running = true)
    (h : outcome ssl calls server incoming peerOpen = .error fault) :
    ∃ s, ReflTransGen (MainStep ssl) ⟨.loopTest, server, g⟩ ⟨.ended fault, s, g⟩ := by
  rw [outcome] at h
  split at h
  · rename_i fault' hexec
    cases h
    obtain ⟨o, k, w, hsteps, hfault⟩ := Prog.exec_error_iff.mp hexec
    exact ⟨w.server, .head (.iterate hrun) (.head (.accepted calls incoming peerOpen hfd)
      ((handler_run g hsteps).tail (.fault hfault)))⟩
  · cases h

/-- Serving leaves the socket alone, and the flag except for
`SHUTDOWN`. -/
theorem serve_frame {ssl : Crypto.OpenSSL} {calls : Calls} {server server' : EnclaveServer}
    {command : Except ResponseStatus Command} {reply : Response}
    (h : serve ssl calls server command = .ok (reply, server')) :
    server'.socketFd = server.socketFd ∧
      (command ≠ .ok .shutdown → server'.running = server.running) := by
  cases command with
  | error status => cases h; exact ⟨rfl, fun _ => rfl⟩
  | ok command =>
      cases command with
      | shutdown => cases h; exact ⟨rfl, fun hc => absurd rfl hc⟩
      | call op =>
          rw [serve] at h
          split at h
          · cases h
          · cases h; exact ⟨rfl, fun _ => rfl⟩

/-- **The loop of the process is `serveAll`**: where that comes to a
state, so does the process. -/
theorem serveAll_ok_run {ssl : Crypto.OpenSSL} {server server' : EnclaveServer} (g : Bool)
    (hfd : 0 ≤ server.socketFd) {visits : List Visit}
    (h : serveAll ssl server visits = .ok server') :
    ReflTransGen (MainStep ssl) ⟨.loopTest, server, g⟩ ⟨.loopTest, server', g⟩ := by
  induction visits generalizing server with
  | nil => cases h; exact .refl
  | cons v visits ih =>
      rw [serveAll] at h
      split at h
      · rename_i hrun
        split at h
        · cases h
        · rename_i sent server₁ hout
          obtain ⟨-, reply, -, hserve⟩ := outcome_ok hout
          have hfd₁ : 0 ≤ server₁.socketFd := by rw [(serve_frame hserve).1]; exact hfd
          exact (outcome_ok_run hfd hrun hout).trans (ih hfd₁ h)
      · cases h; exact .refl

/-- Where `serveAll` faults, the process ends by that fault. -/
theorem serveAll_error_run {ssl : Crypto.OpenSSL} {server : EnclaveServer} (g : Bool)
    (hfd : 0 ≤ server.socketFd) {visits : List Visit} {fault : Fault}
    (h : serveAll ssl server visits = .error fault) :
    ∃ s, ReflTransGen (MainStep ssl) ⟨.loopTest, server, g⟩ ⟨.ended fault, s, g⟩ := by
  induction visits generalizing server with
  | nil => cases h
  | cons v visits ih =>
      rw [serveAll] at h
      split at h
      · rename_i hrun
        split at h
        · rename_i fault' hout
          cases h
          exact outcome_error_run hfd hrun hout
        · rename_i sent server₁ hout
          obtain ⟨-, reply, -, hserve⟩ := outcome_ok hout
          have hfd₁ : 0 ≤ server₁.socketFd := by rw [(serve_frame hserve).1]; exact hfd
          obtain ⟨s, hs⟩ := ih hfd₁ h
          exact ⟨s, (outcome_ok_run hfd hrun hout).trans hs⟩
      · cases h

/-! ## Shutdown frames -/

/-- The stream starts with a valid `SHUTDOWN` frame. -/
def CarriesShutdown (s : Bytes) : Prop :=
  ∃ f request, Framed s f request ∧
    CommandType.ofByte? request.header.commandType = some .shutdown

theorem receive_ok {incoming : Chunked UInt8} {request : Request}
    (h : receive incoming = .ok request) : ∃ f, Framed incoming.elems f request := by
  rw [receive] at h
  split at h
  · cases h
  · exact parseStream_ok_iff.mp h

/-- Only a valid `SHUTDOWN` frame is a shutdown. -/
theorem carriesShutdown_of_commandOf {incoming : Chunked UInt8}
    (h : commandOf incoming = .ok .shutdown) : CarriesShutdown incoming.elems := by
  obtain ⟨request, hreceive, hdecode⟩ := bind_ok_iff.mp h
  obtain ⟨f, hf⟩ := receive_ok hreceive
  refine ⟨f, request, hf, ?_⟩
  have hd := decoded request
  rw [hdecode] at hd
  cases hd with
  | shutdown hcommand => exact hcommand

/-- And it is one, if its header arrives whole. -/
theorem commandOf_of_carriesShutdown {incoming : Chunked UInt8} (hfilled : HeaderFilled incoming)
    (h : CarriesShutdown incoming.elems) : commandOf incoming = .ok .shutdown := by
  obtain ⟨f, request, hf, hcommand⟩ := h
  rw [commandOf, receive_of_headerFilled hfilled, parseStream_ok_iff.mpr ⟨f, hf⟩]
  show decodeCommand request = _
  rw [decodeCommand, hcommand]

/-! ## The data of a whole sequence -/

/-- A visit that calls the enclave. -/
theorem serveAll_of_call {ssl : Crypto.OpenSSL} {server : EnclaveServer} {e : EnclaveImpl}
    {v : Visit} {op : EnclaveOp} (hrun : server.running = true) (he : server.enclave = some e)
    (hopen : v.peerOpen = true) (hcommand : commandOf v.incoming = .ok (.call op))
    (visits : List Visit) :
    serveAll ssl server (v :: visits) =
      serveAll ssl { server with enclave := some (e.perform ssl v.calls op).2 } visits := by
  rw [serveAll, if_pos hrun, outcome_eq, hcommand, hopen]
  simp only [serve, he, deliver, if_true]

/-- The call of the enclave that a visit leads to. -/
def Visit.input (v : Visit) : Option Input :=
  match commandOf v.incoming with
  | .ok (.call op) => some (op, v.calls)
  | _ => none

/-- **One visit keeps what is stored**: while the client is there, the
server goes on, and the enclave takes the step of the reference map. -/
theorem outcome_represents {ssl : Crypto.OpenSSL} {server : EnclaveServer} {e : EnclaveImpl}
    {key : Crypto.Key} {σ : PlainStore} (he : server.enclave = some e)
    (hR : Represents ssl key e σ) {v : Visit} (hopen : v.peerOpen = true)
    (hno : ¬ CarriesShutdown v.incoming.elems) :
    ∃ sent server' e', outcome ssl v.calls server v.incoming v.peerOpen = .ok (sent, server') ∧
      server'.running = server.running ∧ server'.enclave = some e' ∧
      Represents ssl key e' (Mealy.run PlainStore.step σ v.input.toList).2 := by
  rw [outcome_eq, hopen, Visit.input]
  cases hc : commandOf v.incoming with
  | error status => exact ⟨_, _, e, rfl, rfl, he, hR⟩
  | ok command =>
      cases command with
      | shutdown => exact absurd (carriesShutdown_of_commandOf hc) hno
      | call op =>
          simp only [serve, he]
          exact ⟨_, _, _, rfl, rfl, rfl, hR.step (op, v.calls)⟩

/-- The run lemma: the reference map of all visits is represented after
them. -/
theorem serveAll_represents {ssl : Crypto.OpenSSL} {server : EnclaveServer} {e : EnclaveImpl}
    {key : Crypto.Key} {σ : PlainStore} (hrun : server.running = true)
    (he : server.enclave = some e) (hR : Represents ssl key e σ) {visits : List Visit}
    (hopen : ∀ v ∈ visits, v.peerOpen = true)
    (hno : ∀ v ∈ visits, ¬ CarriesShutdown v.incoming.elems) :
    ∃ server' e', serveAll ssl server visits = .ok server' ∧ server'.running = true ∧
      server'.enclave = some e' ∧
      Represents ssl key e'
        (Mealy.run PlainStore.step σ (visits.flatMap fun v => v.input.toList)).2 := by
  induction visits generalizing server e σ with
  | nil => exact ⟨server, e, rfl, hrun, he, hR⟩
  | cons v visits ih =>
      obtain ⟨sent, server₁, e₁, hout, hrun₁, he₁, hR₁⟩ := outcome_represents he hR
        (hopen v (by simp)) (hno v (by simp))
      obtain ⟨server', e', hall, hrun', he', hR'⟩ := ih (hrun₁.trans hrun) he₁ hR₁
        (fun u hu => hopen u (by simp [hu])) (fun u hu => hno u (by simp [hu]))
      refine ⟨server', e', ?_, hrun', he', ?_⟩
      · rw [serveAll, if_pos hrun, hout]
        exact hall
      · rw [List.flatMap_cons, Mealy.run_append]
        exact hR'

/-- Whoever leaves before its reply ends the process. -/
theorem peerOpen_of_serveAll {ssl : Crypto.OpenSSL} {server server' : EnclaveServer}
    (hrun : server.running = true) {visits : List Visit}
    (hno : ∀ v ∈ visits, ¬ CarriesShutdown v.incoming.elems)
    (h : serveAll ssl server visits = .ok server') : ∀ v ∈ visits, v.peerOpen = true := by
  induction visits generalizing server with
  | nil => simp
  | cons v visits ih =>
      rw [serveAll, if_pos hrun] at h
      split at h
      · cases h
      · rename_i sent server₁ hout
        obtain ⟨hopen, reply, -, hserve⟩ := outcome_ok hout
        -- without a shutdown the flag stays set, and the next client is served
        have hrun₁ : server₁.running = true := by
          rw [(serve_frame hserve).2 fun hc =>
            hno v (by simp) (carriesShutdown_of_commandOf hc)]
          exact hrun
        intro u hu
        rcases List.mem_cons.mp hu with rfl | hu
        · exact hopen
        · exact ih hrun₁ (fun u hu => hno u (by simp [hu])) h u hu

/-- A store is a successful one in the reference exactly if its reply
says so. -/
theorem storedBy_iff_success (ssl : Crypto.OpenSSL) (calls : Calls) {e : EnclaveImpl}
    (h : e.initialized = true) (k data : Bytes) :
    PlainStore.storedBy k (.storeData k data, calls) = some data ↔
      (callReply (.storeData k data) (e.perform ssl calls (.storeData k data)).1).status =
        .success := by
  have hfail : ∀ status, (callReply (.storeData k data) (.error status)).status ≠ .success :=
    fun _ => failureStatus_ne_success (.storeData k data)
  rw [perform, storeData_eq ssl calls k data h, PlainStore.storedBy]
  by_cases hv : ValidKey k ∧ ValidData data
  · cases calls.encrypt.success with
    | none => simp [hv, hfail]
    | some iv => simp [hv, callReply, successResponse]
  · rw [if_neg hv, if_neg (fun hc => hv ⟨hc.2.1, hc.2.2.1⟩)]
    simp [hfail]

/-- After the visits the process is alive, still accepts, and gives back
what was stored last under each key. -/
def Survives (ssl : Crypto.OpenSSL) (server : EnclaveServer) (visits : List Visit) : Prop :=
  ∃ server' e, serveAll ssl server visits = .ok server' ∧ server'.running = true ∧
    server'.enclave = some e ∧
    ∀ calls : Calls, calls.decrypt.success = true → ∀ k data,
      PlainStore.latestStore k (visits.flatMap fun v => v.input.toList) = some data →
      e.retrieveData ssl calls k = .ok data

/-- **What a client can do to the server.** Over every sequence of
clients without a valid `SHUTDOWN` frame, the server survives exactly if
every client has its end open when its reply is written: the replies go
out with `SIGPIPE` at its default. -/
theorem server_survives_iff (ssl : Crypto.OpenSSL) (hssl : ssl.Lawful)
    (rand : Option Crypto.Key) (sockets : SocketCalls) (server : EnclaveServer)
    (hinit : EnclaveServer.new.initializeServer rand sockets = (true, server))
    (visits : List Visit) (hno : ∀ v ∈ visits, ¬ CarriesShutdown v.incoming.elems) :
    Survives ssl { server with running := true } visits ↔ ∀ v ∈ visits, v.peerOpen = true := by
  constructor
  · intro h
    obtain ⟨server', e, hall, -⟩ := h
    exact peerOpen_of_serveAll rfl hno hall
  · intro hopen
    obtain ⟨e₀, hcreate, he₀⟩ := initializeServer_enclave hinit
    obtain ⟨key, hR₀⟩ := represents_create ssl hcreate
    have hrun₀ : EnclaveServer.running { server with running := true } = true := rfl
    obtain ⟨server', e, hall, hrun, he, hR⟩ :=
      serveAll_represents hrun₀ he₀ hR₀ hopen hno
    refine ⟨server', e, hall, hrun, he, fun calls hdec k data hlatest => ?_⟩
    rw [hR.retrieveData_latest hssl hdec k, if_pos (PlainStore.latestStore_validKey hlatest),
      hlatest]

end

/-- A client that connects and leaves. -/
def silentVisit : Visit := ⟨.whole [], false, ⟨.succeed Crypto.zeroIV, .succeed⟩⟩

theorem silentVisit_no_shutdown :
    letI := Host.littleEndian
    ¬ CarriesShutdown silentVisit.incoming.elems := by
  let := Host.littleEndian
  intro h
  obtain ⟨f, request, hf, -⟩ := h
  have hlen := hf.isPrefix.length_le
  rw [← hf.serialize, Request.serialize_length] at hlen
  exact absurd hlen (by simp [silentVisit])

/-- A client that sends a request in one piece and stays for the reply. -/
def visitWith [Host] (request : Request) : Visit :=
  ⟨.whole request.serialize, true, ⟨.succeed Crypto.zeroIV, .succeed⟩⟩

def sampleLoadVisit [Host] : Visit :=
  visitWith (sampleRequest .loadModule
    (LoadModuleRequest.serialize { moduleData := [0x48, 0x69] }))

def sampleStoreVisit [Host] : Visit := visitWith (sampleStore [0x6B] [0x48, 0x69])

theorem sampleLoadVisit_command :
    letI := Host.littleEndian
    commandOf sampleLoadVisit.incoming = .ok (.call (.loadModule [0x48, 0x69])) := by
  decide +kernel

theorem sampleStoreVisit_command :
    letI := Host.littleEndian
    commandOf sampleStoreVisit.incoming = .ok (.call (.storeData [0x6B] [0x48, 0x69])) := by
  decide +kernel

theorem visitWith_no_shutdown [Host] {request : Request} {op : EnclaveOp}
    (h : commandOf (visitWith request).incoming = .ok (.call op)) :
    ¬ CarriesShutdown (visitWith request).incoming.elems := by
  intro hshutdown
  have hfilled : HeaderFilled (visitWith request).incoming := headerFilled_whole _
  rw [commandOf_of_carriesShutdown hfilled hshutdown] at h
  cases h

/-- A module, a stored value and a client without a request: the server
goes on and gives the value back. -/
theorem server_survives_iff_stored :
    letI := Host.littleEndian
    ∃ server' e, serveAll Crypto.sampleGcm sampleServer
        [sampleLoadVisit, sampleStoreVisit, { silentVisit with peerOpen := true }] =
          .ok server' ∧
      server'.running = true ∧ server'.enclave = some e ∧
      e.retrieveData Crypto.sampleGcm ⟨.succeed Crypto.zeroIV, .succeed⟩ [0x6B] =
        .ok [0x48, 0x69] := by
  let := Host.littleEndian
  let visits : List Visit :=
    [sampleLoadVisit, sampleStoreVisit, { silentVisit with peerOpen := true }]
  have hno : ∀ v ∈ visits, ¬ CarriesShutdown v.incoming.elems := by
    intro v hv
    simp only [visits, List.mem_cons, List.not_mem_nil, or_false] at hv
    rcases hv with rfl | rfl | rfl
    · exact visitWith_no_shutdown sampleLoadVisit_command
    · exact visitWith_no_shutdown sampleStoreVisit_command
    · exact silentVisit_no_shutdown
  have hopen : ∀ v ∈ visits, v.peerOpen = true := by
    intro v hv
    simp only [visits, List.mem_cons, List.not_mem_nil, or_false] at hv
    rcases hv with rfl | rfl | rfl <;> rfl
  obtain ⟨server', e, hall, hrun, he, hdata⟩ := (server_survives_iff Crypto.sampleGcm
    Crypto.sampleGcm_lawful _ _ _ sampleServer_initialized visits hno).mpr hopen
  refine ⟨server', e, hall, hrun, he, hdata _ rfl _ _ ?_⟩
  decide +kernel

/-- The server after the first two of them. -/
def sampleStored [Host] : EnclaveServer :=
  let calls : Calls := ⟨.succeed Crypto.zeroIV, .succeed⟩
  let e := (EnclaveImpl.new.initializeEnclave (some Crypto.zeroKey)).2
  let e' := (e.perform Crypto.sampleGcm calls (.loadModule [0x48, 0x69])).2
  { sampleServer with
    enclave := some (e'.perform Crypto.sampleGcm calls (.storeData [0x6B] [0x48, 0x69])).2 }

theorem sampleStored_served :
    letI := Host.littleEndian
    serveAll Crypto.sampleGcm sampleServer [sampleLoadVisit, sampleStoreVisit] =
      .ok sampleStored := by
  let := Host.littleEndian
  rw [serveAll_of_call (v := sampleLoadVisit) rfl rfl rfl sampleLoadVisit_command,
    serveAll_of_call (v := sampleStoreVisit) rfl rfl rfl sampleStoreVisit_command]
  rfl

/-- A client that connects, sends nothing and leaves takes the server
down. -/
theorem silent_client_ends_server :
    letI := Host.littleEndian
    (∃ rand sockets, EnclaveServer.new.initializeServer rand sockets =
        (true, { sampleServer with running := false })) ∧
      ¬ CarriesShutdown silentVisit.incoming.elems ∧
      ¬ Survives Crypto.sampleGcm sampleServer [silentVisit] ∧
      ∃ reply s, ReflTransGen (MainStep Crypto.sampleGcm) ⟨.loopTest, sampleServer, true⟩
        ⟨.ended (.sigpipe reply), s, true⟩ := by
  let := Host.littleEndian
  have hall : serveAll Crypto.sampleGcm sampleServer [silentVisit] =
      .error (.sigpipe (errorResponse .errorInvalidCommand).serialize) := by
    rw [serveAll, if_pos (show sampleServer.running = true from rfl), outcome_of_short _ _ _ _
      (show ¬ 16 ≤ silentVisit.incoming.available by decide)]
    rfl
  refine ⟨⟨_, _, sampleServer_initialized⟩, silentVisit_no_shutdown, ?_,
    _, serveAll_error_run true (by decide) hall⟩
  intro h
  obtain ⟨server', e, hok, -⟩ := h
  rw [hall] at hok
  cases hok

end OpenEnclave.Server
