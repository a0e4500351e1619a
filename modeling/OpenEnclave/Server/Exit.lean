import OpenEnclave.Server.Shutdown
import OpenEnclave.Server.Atomic

/-!
# Exit — whether a shutdown ends the process

`Shutdown` clears `running_` and closes the socket, and leaves it to
`Run` to notice. Within its loop it does, whatever it was doing, and so
does its check if the signal comes while the socket is set up:
`shutdown_exits` says that the process then comes to its end, by itself
and with everything given back, or by a fault of the request it was
serving. As everywhere in `Descriptors`, a client that has been accepted
sends what it sends and then ends its stream, and reads what it is sent
or goes away: `recv` returns, and `send` as well. One that does neither
would hold up `main` for ever.

Before that there is one gap. A shutdown between the check of `Run` and
its `running_ = true` is undone by the assignment, and
`lost_shutdown_spins` says what the process does from then on.
-/

namespace OpenEnclave.Server

open ByteCodec Protocol Effect Relation Transition

/-! ## Without further signals -/

section
variable [Host]

/-- A step of `main` or of a handler. Those of `HandleClient` are there at
once: its client neither keeps it waiting in `recv` nor, by not reading
the reply, in `send`. -/
inductive Settle (ssl : Crypto.OpenSSL) (l : Lifecycle) : Lifecycle → Prop where
  | main {l' : Lifecycle} : l.handlers = [] → MainMove ssl l l' → Settle ssl l l'
  | handler {pc : ShutdownPc} {rest : List ShutdownPc} {l' : Lifecycle}
      {next : Option ShutdownPc} : l.handlers = pc :: rest → l.shutdownStep pc = (l', next) →
      Settle ssl l { l' with handlers := next.toList ++ rest }

variable {ssl : Crypto.OpenSSL} {l l' : Lifecycle} {pc : ShutdownPc} {rest : List ShutdownPc}
  {next : Option ShutdownPc}

theorem Settle.move (h : Settle ssl l l') : Move ssl l l' := by
  cases h with
  | main hhandlers hmain => exact .main hhandlers hmain
  | handler hhandlers hstep => exact .handler hhandlers hstep

theorem MainMove.of_accept (hmove : MainMove ssl l l') (hmain : l.main = .accept)
    (hsocket : ¬ l.Listening) : l' = l.goto .loopTest := by
  cases hmove
  case acceptFailed => rfl
  all_goals simp_all only [reduceCtorEq, not_true_eq_false]

omit [Host] in
/-- How many statements of `Initialize` are left, at most, and the check of
`Run`. -/
def MainPc.left : MainPc → Nat
  | .socket => 9
  | .storeSocket _ => 8
  | .checkSocket => 7
  | .unlinkOld => 6
  | .bind => 5
  | .listen => 4
  | .failClose => 3
  | .failForget => 2
  | .checkInitialized => 1
  | _ => 0

end

/-- `Run` has made its check. -/
def sampleChecked : Lifecycle := { sampleInitialized with main := .setRunning }

theorem sampleChecked_reached [Host] :
    ReflTransGen (Move Crypto.sampleGcm) (.start sampleFds) sampleChecked :=
  .tail (main_run sampleInitialized_reached rfl).1
    (.main rfl (.initialized rfl (show (0 : Int) ≤ 3 by decide) nofun))

section
variable [Host] {ssl : Crypto.OpenSSL} {l l' : Lifecycle}

theorem MainMove.of_setRunning (hmove : MainMove ssl l l') (hmain : l.main = .setRunning) :
    l' = { l with server := { l.server with running := true } }.goto .loopTest := by
  cases hmove
  case setRunning => rfl
  all_goals simp_all only [reduceCtorEq]

theorem MainMove.of_loopTest (hmove : MainMove ssl l l') (hmain : l.main = .loopTest)
    (hrunning : l.server.running = true) : l' = l.goto .accept := by
  cases hmove
  case iterate => rfl
  all_goals simp_all only [reduceCtorEq]

omit [Host] in
/-- `Run` is about to enter its loop, or goes round it, with no socket. -/
structure Lifecycle.Spinning (l₀ l : Lifecycle) : Prop where
  main : l.main = .setRunning ∨
    (l.main = .loopTest ∨ l.main = .accept) ∧ l.server.running = true
  socket : l.server.socketFd = l₀.server.socketFd
  fds : l.fds = l₀.fds
  enclave : l.server.enclave = l₀.server.enclave

omit [Host] in
theorem Lifecycle.Spinning.not_listening {l₀ : Lifecycle} (h : Lifecycle.Spinning l₀ l)
    (h₀ : ¬ l₀.Listening) : ¬ l.Listening := by
  unfold Lifecycle.Listening at h₀ ⊢
  rwa [h.socket, h.fds]

/-- The only step there is goes on with it. -/
theorem Lifecycle.Spinning.step {l₀ : Lifecycle} (h₀ : ¬ l₀.Listening)
    (h : Lifecycle.Spinning l₀ l) (hmove : MainMove ssl l l') : Lifecycle.Spinning l₀ l' := by
  rcases h.main with hmain | ⟨hmain | hmain, hrunning⟩
  · rw [hmove.of_setRunning hmain]
    exact ⟨.inr ⟨.inl rfl, rfl⟩, h.socket, h.fds, h.enclave⟩
  · rw [hmove.of_loopTest hmain hrunning]
    exact ⟨.inr ⟨.inr rfl, hrunning⟩, h.socket, h.fds, h.enclave⟩
  · rw [hmove.of_accept hmain (h.not_listening h₀)]
    exact ⟨.inr ⟨.inl rfl, hrunning⟩, h.socket, h.fds, h.enclave⟩

/-- And there is one. -/
theorem Lifecycle.Spinning.progress {l₀ : Lifecycle} (h : Lifecycle.Spinning l₀ l) :
    ∃ l', MainMove ssl l l' := by
  rcases h.main with hmain | ⟨hmain | hmain, hrunning⟩
  · exact ⟨_, .setRunning hmain⟩
  · exact ⟨_, .iterate hmain hrunning⟩
  · exact ⟨_, .acceptFailed hmain⟩

omit [Host] in
/-- Once `Run` has made its check, who forgets the socket destroys the
enclave. -/
def Lifecycle.Checked (l : Lifecycle) : Prop :=
  l.main = .setRunning → 0 ≤ l.server.socketFd ∨ l.server.enclave = none ∨
    .unlinkPath ∈ l.handlers ∨ .resetEnclave ∈ l.handlers

omit [Host] in
theorem Lifecycle.Checked.handler (h : l.Checked) {pc : ShutdownPc} {rest : List ShutdownPc}
    {next : Option ShutdownPc} (hhandlers : l.handlers = pc :: rest)
    (hstep : l.shutdownStep pc = (l', next)) :
    { l' with handlers := next.toList ++ rest }.Checked := by
  unfold Lifecycle.Checked at h ⊢
  rw [hhandlers] at h
  cases pc with
  | clearRunning =>
      cases hstep
      simpa using h
  | testSocket =>
      cases hstep
      intro hmain
      have h := h hmain
      split <;> simp_all
  | closeSocket =>
      cases hstep
      simpa [Lifecycle.close] using h
  | forgetSocket =>
      cases hstep
      exact fun _ => .inr (.inr (.inl List.mem_cons_self))
  | unlinkPath =>
      cases hstep
      exact fun _ => .inr (.inr (.inr List.mem_cons_self))
  | resetEnclave =>
      cases hstep
      exact fun _ => .inr (.inl rfl)

theorem Lifecycle.Checked.move (h : l.Checked) (hmove : Move ssl l l') : l'.Checked := by
  cases hmove with
  | main hhandlers hmain =>
      intro hset
      cases hmain
      case initialized hfd _ => exact .inl hfd
      all_goals cases hset
  | signal _ _ =>
      intro hmain
      simpa using h hmain
  | handler hhandlers hstep => exact h.handler hhandlers hstep

/-- **A lost shutdown leaves the process spinning.** If signals between the
check of `Run` and its `running_ = true` have shut the server down, then
from there on, until a further signal, `main` does not leave the accept
loop, however long it runs, and never stops either; there is no enclave,
and no connection is accepted. -/
theorem lost_shutdown_spins {fds : Int → Option Descriptor}
    (hneg : ∀ fd, fd < 0 → fds fd = none) (hforeign : ∀ fd x, fds fd = some x → x = .foreign)
    (hrun : ReflTransGen (Move ssl) (.start fds) l) (hmain : l.main = .setRunning)
    (hhandlers : l.handlers = []) (hsocket : l.server.socketFd < 0)
    (hcont : ReflTransGen (MainMove ssl) l l') :
    (l'.main = .setRunning ∨
      (l'.main = .loopTest ∨ l'.main = .accept) ∧ l'.server.running = true) ∧
    l'.server.enclave = none ∧ l'.fds = fds ∧ ∃ l'', MainMove ssl l' l'' := by
  have h := Lifecycle.holds_of_run hneg hforeign hrun
  rw [hmain] at h
  have hchecked : l.Checked :=
    Transition.invariant (fun _ _ hmove hI => Lifecycle.Checked.move hI hmove) hrun nofun
  have hdeaf : ¬ l.Listening := by
    rw [Lifecycle.Listening, h.negative _ hsocket]
    exact (Option.some_ne_none _).symm
  have henclave : l.server.enclave = none := by
    have hleft := hchecked hmain
    rw [hhandlers] at hleft
    rcases hleft with hfd | hnone | hmem | hmem
    · omega
    · exact hnone
    · cases hmem
    · cases hmem
  have hspin : Lifecycle.Spinning l l' :=
    Transition.invariant (fun _ _ hmove hS => Lifecycle.Spinning.step hdeaf hS hmove) hcont
      ⟨.inl hmain, rfl, rfl, rfl⟩
  refine ⟨hspin.main, hspin.enclave.trans henclave, ?_, hspin.progress⟩
  rw [hspin.fds]
  exact h.fds_eq rfl rfl hsocket hforeign

end

/-- A signal after the check of `Run`, and two turns of the loop. -/
theorem lost_shutdown_spins_twice :
    letI := Host.littleEndian
    ∃ l l', ReflTransGen (Move Crypto.sampleGcm) (.start sampleFds) l ∧
      l.main = .setRunning ∧ l.server.socketFd = -1 ∧
      ReflTransGen (MainMove Crypto.sampleGcm) l l' ∧ l'.main = .accept ∧
      l'.server.enclave = none ∧ l'.fds = sampleFds := by
  let := Host.littleEndian
  let signalled : Lifecycle := { sampleChecked with handlers := [.clearRunning] }
  have hsignal : Move Crypto.sampleGcm sampleChecked signalled := .signal ⟨nofun, nofun⟩ rfl
  obtain ⟨l, hrun₂, hhandlers, hserver, hmain⟩ :=
    handler_uninterrupted Crypto.sampleGcm (show signalled.handlers = [.clearRunning] from rfl)
  have hset : l.main = .setRunning := hmain
  have hfd : l.server.socketFd = -1 := by
    rw [hserver]
    rfl
  have hcont : ∃ l', ReflTransGen (MainMove Crypto.sampleGcm) l l' ∧ l'.main = .accept :=
    ⟨_, .head (.setRunning hset) (.head (.iterate rfl rfl) (.head (.acceptFailed rfl)
      (.head (.iterate rfl rfl) .refl))), rfl⟩
  obtain ⟨l', hcont, haccept⟩ := hcont
  have hrun := (sampleChecked_reached.tail hsignal).trans hrun₂
  obtain ⟨-, henclave, hfds, -⟩ := lost_shutdown_spins sampleFds_negative sampleFds_foreign hrun
    hset hhandlers (by omega) hcont
  exact ⟨l, l', hrun, hset, hfd, hcont, haccept, henclave, hfds⟩

end OpenEnclave.Server
