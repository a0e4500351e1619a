import OpenEnclave.Server.Process

/-!
# Shutdown — whether a shutdown stays in force

`Shutdown` clears `running_`, and three places write that flag: it,
`HandleShutdown`, and `Run`, which sets it after its check of the socket
and the enclave. `Reached` follows a run of the process together with
whether `Shutdown` has run in it. A shutdown that falls between the
check and the assignment is overwritten; one that falls anywhere else
stays in force, because a `Shutdown` before the check makes the check
fail (`shutdown_never_lost`).
-/

namespace OpenEnclave.Server

open ByteCodec Protocol Effect Relation

/-- The next step is the destructor, which calls `Shutdown`. -/
def Process.destroys (p : Process) : Bool :=
  match p.pc with
  | .cleared => true
  | _ => false

section
variable [Host]

/-- The states of a run from `p₀` whose signals arrive in admitted states
only, with whether `Shutdown` has run. -/
inductive Reached (ssl : Crypto.OpenSSL) (Admits : Process → Prop) (p₀ : Process) :
    Bool → Process → Prop where
  | start : Reached ssl Admits p₀ false p₀
  | main {shut p p'} : Reached ssl Admits p₀ shut p → MainStep ssl p p' →
      Reached ssl Admits p₀ (shut || p.destroys) p'
  -- `signal_handler` does nothing once `g_server` is null
  | signal {shut p} : Reached ssl Admits p₀ shut p → p.Live → Admits p →
      Reached ssl Admits p₀ (shut || p.gServer) p.signalHandler

/-- With every signal admitted these are the runs of the process. -/
theorem exists_reached_iff {ssl : Crypto.OpenSSL} {p₀ p : Process} :
    (∃ shut, Reached ssl (fun _ => True) p₀ shut p) ↔ ReflTransGen (Step ssl) p₀ p := by
  constructor
  · intro h
    obtain ⟨shut, h⟩ := h
    induction h with
    | start => exact .refl
    | main _ hstep ih => exact ih.tail (.main hstep)
    | signal _ hlive _ ih => exact ih.tail (.signal hlive)
  · intro h
    induction h with
    | refl => exact ⟨false, .start⟩
    | tail _ hstep ih =>
        obtain ⟨shut, hreached⟩ := ih
        cases hstep with
        | main hmain => exact ⟨_, hreached.main hmain⟩
        | signal hlive => exact ⟨_, hreached.signal hlive trivial⟩

/-- No operation of a handler sets the flag. -/
theorem act_running {ssl : Crypto.OpenSSL} {calls : Calls} {o : ServerOp} {w w' : World}
    {r : o.Res} (h : act ssl calls o w = .ok (r, w')) (hrun : w.server.running = false) :
    w'.server.running = false := by
  cases o with
  | recv n waitAll => cases h; exact hrun
  | send data =>
      rw [act] at h
      split at h
      · cases h; exact hrun
      · cases h
  | callEnclave op =>
      rw [act] at h
      split at h
      · cases h
      · cases h; exact hrun
  | stopRunning => cases h; rfl

/-- The server is shut down, and the main flow is not about to set the
flag. -/
structure Process.Down (p : Process) : Prop where
  running : p.server.running = false
  socket : p.server.socketFd < 0
  pc : p.pc ≠ .setRunning

omit [Host] in
theorem shutdown_down {pc : Pc} (s : EnclaveServer) (g : Bool) (hpc : pc ≠ .setRunning) :
    Process.Down ⟨pc, s.shutdown, g⟩ :=
  ⟨rfl, shutdown_socketFd s, hpc⟩

/-- **What is down stays down.** -/
theorem Process.Down.mainStep {ssl : Crypto.OpenSSL} {p p' : Process} (h : p.Down)
    (hstep : MainStep ssl p p') : p'.Down := by
  obtain ⟨hrun, hsocket, hpc⟩ := h
  cases hstep with
  -- the check fails on the closed socket
  | initialized hfd he => exact absurd hsocket (by simpa using hfd)
  | notInitialized hc => exact ⟨hrun, hsocket, by simp⟩
  | setRunning => exact absurd rfl hpc
  | iterate hr => rw [hrun] at hr; cases hr
  | leave hr => exact ⟨hrun, hsocket, by simp⟩
  | accepted calls incoming peerOpen hfd => exact absurd hsocket (by simpa using hfd)
  | acceptFailed => exact ⟨hrun, hsocket, by simp⟩
  | perform hact =>
      refine ⟨act_running hact hrun, ?_, by simp⟩
      rw [(act_server hact).1]
      exact hsocket
  | fault hact => exact ⟨hrun, hsocket, by simp⟩
  | handled => exact ⟨hrun, hsocket, by simp⟩
  | closed => exact ⟨hrun, hsocket, by simp⟩
  | clear => exact ⟨hrun, hsocket, by simp⟩
  | @destroy s g => exact shutdown_down s g (by simp)

omit [Host] in
theorem Process.Down.signalHandler {p : Process} (h : p.Down) : p.signalHandler.Down := by
  rw [Process.signalHandler]
  split
  · exact shutdown_down p.server p.gServer h.pc
  · exact h

/-- A step that destroys the server shuts it down. -/
theorem down_of_destroys {ssl : Crypto.OpenSSL} {p p' : Process} (hd : p.destroys = true)
    (hstep : MainStep ssl p p') : p'.Down := by
  cases hstep with
  | @destroy s g => exact shutdown_down s g (by simp)
  | _ => cases hd

/-- The run lemma: once `Shutdown` has run, the server is down. -/
theorem Reached.down {ssl : Crypto.OpenSSL} {p₀ p : Process} {shut : Bool}
    (h : Reached ssl (fun p => p.pc ≠ .setRunning) p₀ shut p) (hshut : shut = true) :
    p.Down := by
  induction h with
  | start => cases hshut
  | main _ hstep ih =>
      rcases Bool.or_eq_true_iff.mp hshut with hshut | hd
      · exact (ih hshut).mainStep hstep
      · exact down_of_destroys hd hstep
  | @signal shut p _ _ hadmits ih =>
      rcases Bool.or_eq_true_iff.mp hshut with hshut | hg
      · exact (ih hshut).signalHandler
      · rw [Process.signalHandler, if_pos hg]
        exact shutdown_down p.server p.gServer hadmits

/-- **When a shutdown stays in force.** In every run in which no signal
arrives between `Run`'s check and its `running_ = true`, the flag is
clear in every state after `Shutdown` has run, and no further iteration
of the loop is started. The condition cannot be weakened: a signal in
between is overwritten, and the loop goes round on a closed socket with
no enclave. -/
theorem shutdown_never_lost (ssl : Crypto.OpenSSL) :
    (∀ p₀ shut p, p₀.Initial → Reached ssl (fun p => p.pc ≠ .setRunning) p₀ shut p →
      shut = true →
      p.server.running = false ∧ ∀ p', MainStep ssl p p' → p'.pc ≠ .accept) ∧
    (∀ p : Process, p.pc = .setRunning → p.gServer = true →
      ∃ p', MainStep ssl p.signalHandler p' ∧ p'.server.running = true ∧
        p'.server.socketFd < 0 ∧ p'.server.enclave = none ∧
        ∃ p'', MainStep ssl p' p'' ∧ p''.pc = .accept) := by
  constructor
  · intro p₀ shut p _ hreached hshut
    have hdown := hreached.down hshut
    refine ⟨hdown.running, fun p' hstep hpc => ?_⟩
    cases hstep with
    | iterate hr => rw [hdown.running] at hr; cases hr
    | _ => cases hpc
  · intro p hpc hg
    obtain ⟨pc, s, g⟩ := p
    cases hpc
    cases hg
    have hfd := shutdown_socketFd s
    exact ⟨_, .setRunning, rfl, hfd, rfl, _, .iterate rfl, rfl⟩

end

/-- A signal right after the check: the shutdown is overwritten. -/
theorem signal_before_run_is_lost :
    letI := Host.littleEndian
    ∃ p, sampleProcess.Initial ∧
      Reached Crypto.sampleGcm (fun _ => True) sampleProcess true p ∧
      p.server.running = true ∧ p.server.socketFd < 0 ∧ p.server.enclave = none := by
  let := Host.littleEndian
  have hchecked : Reached Crypto.sampleGcm (fun _ => True) sampleProcess false
      ⟨.setRunning, { sampleServer with running := false }, true⟩ :=
    Reached.start.main (.initialized (by decide) (Option.some_ne_none _))
  have hlive : Process.Live ⟨.setRunning, { sampleServer with running := false }, true⟩ :=
    ⟨by simp, by simp⟩
  have hsignal := hchecked.signal hlive trivial
  exact ⟨_, sampleProcess_initial, hsignal.main .setRunning, rfl, by decide, rfl⟩

end OpenEnclave.Server
