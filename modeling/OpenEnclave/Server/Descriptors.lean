import OpenEnclave.Lib.Family
import OpenEnclave.Server.Process

/-!
# Descriptors — what the server process has open

`Process` takes `Shutdown` as one step and starts after `Initialize`.
Here both are taken statement by statement, from the start of `main` to
its return: a signal may arrive between `close(socket_fd_)` and
`socket_fd_ = -1`, the handler of one signal may be interrupted by the
other signal, and each of them runs `Shutdown` again. The descriptors of
the process are a table, in which a number that was closed is free to be
given out again. The file at `SOCKET_PATH` is not modelled: whether an
`unlink` removes it shows in nothing but the `bind` after it, and that
may fail here anyway.

A second `close` of a number is harmless only as long as nobody else has
been given it. `Inv` is why this holds: while `socket_fd_` is out of
date, some flow of control is about to correct it, and until it has, the
main flow opens nothing. `descriptors_safe` is what follows.
-/

namespace OpenEnclave.Server

open ByteCodec Protocol Effect Relation

/-! ## The process -/

/-- What a number in the table stands for. -/
inductive Descriptor where
  /-- The server's listening socket. -/
  | listener
  | client
  /-- Opened by anything but the server. -/
  | foreign
deriving DecidableEq

/-- Where a call of `Shutdown` is. -/
inductive ShutdownPc where
  | clearRunning
  /-- `if (socket_fd_ >= 0)`. -/
  | testSocket
  | closeSocket
  /-- `socket_fd_ = -1`. -/
  | forgetSocket
  | unlinkPath
  | resetEnclave
deriving DecidableEq

/-- Where `main` is. -/
inductive MainPc where
  /-- `Enclave::Create()` in `Initialize`. -/
  | createEnclave
  | socket
  /-- `socket` has returned `fd`, which is not yet in `socket_fd_`. -/
  | storeSocket (fd : Int)
  | checkSocket
  | unlinkOld
  | bind
  | listen
  /-- The way out of `Initialize` after a failed `bind` or `listen`. -/
  | failClose
  | failForget
  | checkInitialized
  | setRunning
  | loopTest
  | accept
  | handle (fd : Int) (calls : Calls) (prog : ServerProg Unit) (conn : Connection)
  | closeClient (fd : Int)
  /-- `Run` has returned. -/
  | returned
  /-- In `~EnclaveServer`. -/
  | destroy (pc : ShutdownPc)
  | exited
  /-- Ended by a fault while it handled `fd`. -/
  | ended (fd : Int) (fault : Fault)

structure Lifecycle where
  main : MainPc
  /-- The signal handlers under way, the innermost first. -/
  handlers : List ShutdownPc
  server : EnclaveServer
  gServer : Bool
  fds : Int → Option Descriptor

namespace Lifecycle

/-- `close(fd)`; the code does not look at what it returns. -/
def close (l : Lifecycle) (fd : Int) : Lifecycle := { l with fds := Function.update l.fds fd none }

/-- One statement of `Shutdown`, and where it goes on. -/
def shutdownStep (l : Lifecycle) : ShutdownPc → Lifecycle × Option ShutdownPc
  | .clearRunning => ({ l with server := { l.server with running := false } }, some .testSocket)
  | .testSocket => (l, some (if l.server.socketFd ≥ 0 then .closeSocket else .unlinkPath))
  | .closeSocket => (l.close l.server.socketFd, some .forgetSocket)
  | .forgetSocket => ({ l with server := { l.server with socketFd := -1 } }, some .unlinkPath)
  -- what `unlink` returns is not looked at
  | .unlinkPath => (l, some .resetEnclave)
  | .resetEnclave => ({ l with server := { l.server with enclave := none } }, none)

/-- The main flow goes on at `pc`. -/
def goto (l : Lifecycle) (pc : MainPc) : Lifecycle := { l with main := pc }

/-- `main` returns, and the server object is destroyed. -/
def leave (l : Lifecycle) : Lifecycle := l.goto (.destroy .clearRunning)

/-- The start of `main`: other descriptors may be open. -/
def start (fds : Int → Option Descriptor) : Lifecycle where
  main := .createEnclave
  handlers := []
  server := .new
  gServer := true
  fds := fds

/-- The socket the server has in `socket_fd_` is open. -/
def Listening (l : Lifecycle) : Prop := l.fds l.server.socketFd = some .listener

end Lifecycle

/-- A number the kernel may give out. -/
def Unused (l : Lifecycle) (fd : Int) : Prop := 0 ≤ fd ∧ l.fds fd = none

section
variable [Host]

/-- One step of `main`. `socket`, `bind`, `listen` and `accept` may fail at
any time. -/
inductive MainMove (ssl : Crypto.OpenSSL) (l : Lifecycle) : Lifecycle → Prop where
  | created {rand : Option Crypto.Key} {e : EnclaveImpl} : l.main = .createEnclave →
      Enclave.create rand = .ok e →
      MainMove ssl l ({ l with server := { l.server with enclave := some e } }.goto .socket)
  | createFailed : l.main = .createEnclave → MainMove ssl l l.leave
  | socketOpened {fd : Int} : l.main = .socket → Unused l fd →
      MainMove ssl l
        ({ l with fds := Function.update l.fds fd (some .listener) }.goto (.storeSocket fd))
  | socketFailed : l.main = .socket → MainMove ssl l (l.goto (.storeSocket (-1)))
  | storeSocket {fd : Int} : l.main = .storeSocket fd →
      MainMove ssl l ({ l with server := { l.server with socketFd := fd } }.goto .checkSocket)
  | noSocket : l.main = .checkSocket → l.server.socketFd < 0 → MainMove ssl l l.leave
  | hasSocket : l.main = .checkSocket → 0 ≤ l.server.socketFd →
      MainMove ssl l (l.goto .unlinkOld)
  | unlinkOld : l.main = .unlinkOld → MainMove ssl l (l.goto .bind)
  | bound : l.main = .bind → l.Listening → MainMove ssl l (l.goto .listen)
  | bindFailed : l.main = .bind → MainMove ssl l (l.goto .failClose)
  | listened : l.main = .listen → l.Listening → MainMove ssl l (l.goto .checkInitialized)
  | listenFailed : l.main = .listen → MainMove ssl l (l.goto .failClose)
  | failClose : l.main = .failClose →
      MainMove ssl l ((l.close l.server.socketFd).goto .failForget)
  | failForget : l.main = .failForget →
      MainMove ssl l { l with server := { l.server with socketFd := -1 } }.leave
  | initialized : l.main = .checkInitialized → 0 ≤ l.server.socketFd → l.server.enclave ≠ none →
      MainMove ssl l (l.goto .setRunning)
  | notInitialized : l.main = .checkInitialized →
      l.server.socketFd < 0 ∨ l.server.enclave = none → MainMove ssl l (l.goto .returned)
  | setRunning : l.main = .setRunning →
      MainMove ssl l ({ l with server := { l.server with running := true } }.goto .loopTest)
  | iterate : l.main = .loopTest → l.server.running = true → MainMove ssl l (l.goto .accept)
  | stop : l.main = .loopTest → l.server.running = false → MainMove ssl l (l.goto .returned)
  | accepted {fd : Int} (calls : Calls) (incoming : Chunked UInt8) (peerOpen : Bool) :
      l.main = .accept → l.Listening → Unused l fd →
      MainMove ssl l ({ l with fds := Function.update l.fds fd (some .client) }.goto
        (.handle fd calls handleClient ⟨incoming, peerOpen, []⟩))
  | acceptFailed : l.main = .accept → MainMove ssl l (l.goto .loopTest)
  | perform {fd : Int} {calls : Calls} {conn : Connection} {o : ServerOp} {r : o.Res} {w : World}
      {k : o.Res → ServerProg Unit} : l.main = .handle fd calls (.op o k) conn →
      act ssl calls o ⟨l.server, conn⟩ = .ok (r, w) →
      MainMove ssl l ({ l with server := w.server }.goto (.handle fd calls (k r) w.conn))
  | fault {fd : Int} {calls : Calls} {conn : Connection} {o : ServerOp} {fault : Fault}
      {k : o.Res → ServerProg Unit} : l.main = .handle fd calls (.op o k) conn →
      act ssl calls o ⟨l.server, conn⟩ = .error fault →
      MainMove ssl l (l.goto (.ended fd fault))
  | handled {fd : Int} {calls : Calls} {conn : Connection} :
      l.main = .handle fd calls (.ret ()) conn → MainMove ssl l (l.goto (.closeClient fd))
  | closeClient {fd : Int} : l.main = .closeClient fd →
      MainMove ssl l ((l.close fd).goto .loopTest)
  | clear : l.main = .returned → MainMove ssl l { l with gServer := false }.leave
  | destroy {pc pc' : ShutdownPc} {l' : Lifecycle} : l.main = .destroy pc →
      l.shutdownStep pc = (l', some pc') → MainMove ssl l (l'.goto (.destroy pc'))
  | destroyed {pc : ShutdownPc} {l' : Lifecycle} : l.main = .destroy pc →
      l.shutdownStep pc = (l', none) → MainMove ssl l (l'.goto .exited)

omit [Host] in
/-- The process is there to receive signals. -/
def Lifecycle.Live (l : Lifecycle) : Prop := l.main ≠ .exited ∧ ∀ fd fault, l.main ≠ .ended fd fault

/-- A step of `main` while no handler is under way, a signal, or a step
of the innermost handler. -/
inductive Move (ssl : Crypto.OpenSSL) (l : Lifecycle) : Lifecycle → Prop where
  | main {l' : Lifecycle} : l.handlers = [] → MainMove ssl l l' → Move ssl l l'
  -- `signal_handler` returns at once if `g_server` is null
  | signal : l.Live → l.gServer = true →
      Move ssl l { l with handlers := .clearRunning :: l.handlers }
  | handler {pc : ShutdownPc} {rest : List ShutdownPc} {l' : Lifecycle}
      {next : Option ShutdownPc} : l.handlers = pc :: rest → l.shutdownStep pc = (l', next) →
      Move ssl l { l' with handlers := next.toList ++ rest }

end

/-! ## What the main flow answers for -/

/-- What is true of the process because of where `main` is. -/
structure Role where
  /-- The connection it has accepted and not yet closed. -/
  client : Option Int := none
  /-- The descriptor it is about to store. -/
  pending : Option Int := none
  /-- `socket_fd_` has not been set. -/
  early : Bool := false
  /-- It has closed the socket and is about to forget it. -/
  closing : Bool := false
  /-- It has left the socket behind, -/
  closed : Bool := false
  /-- and the enclave. -/
  reset : Bool := false

def MainPc.role : MainPc → Role
  | .createEnclave | .socket => { early := true }
  | .storeSocket fd => { early := true, pending := some fd }
  | .failForget | .destroy .forgetSocket => { closing := true }
  | .handle fd _ _ _ | .closeClient fd | .ended fd _ => { client := some fd }
  | .destroy .unlinkPath | .destroy .resetEnclave => { closed := true }
  | .exited => { closed := true, reset := true }
  | _ => {}

/-- Some flow of control has closed the socket and not yet forgotten
it. -/
def Closing (r : Role) (l : Lifecycle) : Prop := r.closing = true ∨ .forgetSocket ∈ l.handlers

/-- The invariant, for the descriptors `base` that are none of the
server's. -/
structure Holds (base : Int → Prop) (r : Role) (l : Lifecycle) : Prop where
  negative : ∀ fd, fd < 0 → l.fds fd = none
  foreign : ∀ fd, l.fds fd = some .foreign ↔ base fd
  client : ∀ fd, l.fds fd = some .client ↔ r.client = some fd
  listener : ∀ fd, l.fds fd = some .listener → r.pending = some fd ∨ l.server.socketFd = fd
  /-- `socket_fd_` is the socket, or out of date and about to be
  corrected. -/
  socket : 0 ≤ l.server.socketFd → l.Listening ∨ l.fds l.server.socketFd = none ∧ Closing r l
  closing : Closing r l → ∀ fd, l.fds fd ≠ some .listener
  early : r.early = true →
    l.server.socketFd = -1 ∧ .closeSocket ∉ l.handlers ∧ .forgetSocket ∉ l.handlers
  pending : r.pending ≠ none → r.early = true
  stored : ∀ fd, r.pending = some fd → 0 ≤ fd → l.fds fd = some .listener
  closed : r.closed = true → l.server.socketFd < 0
  reset : r.reset = true → l.server.enclave = none

def Lifecycle.Inv (base : Int → Prop) (l : Lifecycle) : Prop := Holds base l.main.role l

section
variable {base : Int → Prop} {r r' : Role} {l l' : Lifecycle}

namespace Holds

/-- What the invariant is about. -/
theorem congr (h : Holds base r l) (hfds : l'.fds = l.fds) (hhandlers : l'.handlers = l.handlers)
    (hsocket : l'.server.socketFd = l.server.socketFd)
    (henclave : r.reset = true → l'.server.enclave = none) : Holds base r l' := by
  obtain ⟨hnegative, hforeign, hclient, hlistener, hsock, hclosing, hearly, hpending, hstored,
    hclosed, -⟩ := h
  refine ⟨?_, ?_, ?_, ?_, ?_, ?_, ?_, hpending, ?_, ?_, henclave⟩
  all_goals simp only [Closing, Lifecycle.Listening, hfds, hhandlers, hsocket]
  all_goals assumption

/-- Handlers come and go. -/
theorem withHandlers (h : Holds base r l) {handlers : List ShutdownPc}
    (hforget : .forgetSocket ∈ handlers ↔ .forgetSocket ∈ l.handlers)
    (hclose : r.early = true → .closeSocket ∉ handlers) :
    Holds base r { l with handlers := handlers } := by
  have hiff : Closing r { l with handlers := handlers } ↔ Closing r l :=
    or_congr Iff.rfl hforget
  refine ⟨h.negative, h.foreign, h.client, h.listener, fun hfd => ?_, fun hc => ?_, fun he => ?_,
    h.pending, h.stored, h.closed, h.reset⟩
  · rw [hiff]
    exact h.socket hfd
  · exact h.closing (hiff.mp hc)
  · obtain ⟨hfd, -, hnot⟩ := h.early he
    exact ⟨hfd, hclose he, fun hmem => hnot (hforget.mp hmem)⟩

/-- No descriptor but the socket is at the number in `socket_fd_`. -/
theorem ne_socketFd (h : Holds base r l) {fd : Int} {x : Descriptor} (hx : x ≠ .listener)
    (hfd : l.fds fd = some x) : fd ≠ l.server.socketFd := by
  rintro rfl
  by_cases hneg : l.server.socketFd < 0
  · rw [h.negative _ hneg] at hfd
    cases hfd
  · rcases h.socket (by omega) with hlistening | ⟨hnone, -⟩
    · rw [hlistening] at hfd
      cases hfd
      exact hx rfl
    · rw [hnone] at hfd
      cases hfd

/-- `close(socket_fd_)` takes away nothing but the socket. -/
theorem close_iff (h : Holds base r l) {fd : Int} {x : Descriptor} (hx : x ≠ .listener) :
    (l.close l.server.socketFd).fds fd = some x ↔ l.fds fd = some x := by
  rw [Lifecycle.close, Family.update_none_iff]
  exact ⟨fun hfd => hfd.2, fun hfd => ⟨h.ne_socketFd hx hfd, hfd⟩⟩

/-- **The socket is closed**, for the first time or once more. -/
theorem closeSocket (h : Holds base r l) (l' : Lifecycle) (hlate : r.early = false)
    (hfds : l'.fds = (l.close l.server.socketFd).fds)
    (hsocket : l'.server.socketFd = l.server.socketFd)
    (henclave : l'.server.enclave = l.server.enclave) {c : Bool}
    (hclosing : Closing { r with closing := c } l') : Holds base { r with closing := c } l' := by
  have hpending : r.pending = none := by
    by_contra hne
    rw [h.pending hne] at hlate
    cases hlate
  have hnone : ∀ fd, l'.fds fd ≠ some .listener := by
    intro fd hfd
    rw [hfds] at hfd
    rcases Family.update_cases hfd with ⟨-, hx⟩ | ⟨hne, hfd⟩
    · cases hx
    · rcases h.listener fd hfd with hp | hs
      · rw [hpending] at hp
        cases hp
      · exact hne hs.symm
  refine ⟨fun fd hfd => ?_, fun fd => ?_, fun fd => ?_, fun fd hfd => absurd hfd (hnone fd),
    fun _ => .inr ⟨?_, hclosing⟩, fun _ => hnone, fun he => ?_, h.pending, fun fd hp => ?_,
    fun hc => ?_, fun hr => ?_⟩
  · rw [hfds]
    exact Family.update_none_eq_none (h.negative fd hfd)
  · rw [hfds, h.close_iff (by decide), h.foreign]
  · rw [hfds, h.close_iff (by decide), h.client]
  · rw [hfds, hsocket]
    exact Function.update_self ..
  · rw [hlate] at he
    cases he
  · rw [hpending] at hp
    cases hp
  · rw [hsocket]
    exact h.closed hc
  · rw [henclave]
    exact h.reset hr

/-- **The socket is forgotten** by a flow of control that has closed it. -/
theorem forgetSocket (h : Holds base r l) (l' : Lifecycle) (hclosing : Closing r l)
    (hlate : r.early = false) (hfds : l'.fds = l.fds) (hsocket : l'.server.socketFd = -1)
    (henclave : l'.server.enclave = l.server.enclave) (c c' : Bool) :
    Holds base { r with closing := c, closed := c' } l' := by
  have hnone : ∀ fd, l'.fds fd ≠ some .listener := by
    rw [hfds]
    exact h.closing hclosing
  refine ⟨?_, ?_, ?_, fun fd hfd => absurd hfd (hnone fd), fun hfd => ?_, fun _ => hnone,
    fun he => ?_, h.pending, fun fd hp => ?_, fun _ => ?_, fun hr => ?_⟩
  · rw [hfds]
    exact h.negative
  · rw [hfds]
    exact h.foreign
  · rw [hfds]
    exact h.client
  · omega
  · rw [hlate] at he
    cases he
  · rw [hfds]
    exact h.stored fd hp
  · omega
  · rw [henclave]
    exact h.reset hr

/-- Descriptors are not negative. -/
theorem negative_update (h : Holds base r l) {fd : Int} (hfd : Unused l fd) {d : Descriptor}
    (x : Int) (hx : x < 0) : Function.update l.fds fd (some d) x = none := by
  have hne : x ≠ fd := by
    have := hfd.1
    omega
  rw [Function.update_of_ne hne, h.negative x hx]

/-- With nothing pending and no socket, only the others' descriptors are
left. -/
theorem fds_eq {fds : Int → Option Descriptor} (h : Holds (fun fd => fds fd = some .foreign) r l)
    (hclient : r.client = none) (hpending : r.pending = none) (hsocket : l.server.socketFd < 0)
    (hforeign : ∀ fd x, fds fd = some x → x = .foreign) : l.fds = fds := by
  have hown : ∀ {fd x}, l.fds fd = some x → x = .foreign := by
    intro fd x hx
    cases x with
    | foreign => rfl
    | client =>
        have heq := (h.client fd).mp hx
        rw [hclient] at heq
        cases heq
    | listener =>
        rcases h.listener fd hx with hp | hs
        · rw [hpending] at hp
          cases hp
        · rw [h.negative fd (hs ▸ hsocket)] at hx
          cases hx
  funext fd
  apply Option.ext
  intro x
  constructor
  · intro hx
    obtain rfl := hown hx
    exact (h.foreign fd).mp hx
  · intro hx
    obtain rfl := hforeign fd x hx
    exact (h.foreign fd).mpr hx

/-- The main flow gives up before it has a socket. -/
theorem late (h : Holds base { early := true } l) : Holds base {} l :=
  ⟨h.negative, h.foreign, h.client, h.listener, h.socket, h.closing, nofun, nofun, nofun, nofun,
    nofun⟩

/-- Before `socket_fd_` is set there is no listening socket. -/
theorem no_listener (h : Holds base { early := true } l) (fd : Int) :
    l.fds fd ≠ some .listener := by
  intro hfd
  rcases h.listener fd hfd with hp | hs
  · cases hp
  · rw [← hs, (h.early rfl).1, h.negative _ (by decide)] at hfd
    cases hfd

theorem socketOpened (h : Holds base { early := true } l) {fd : Int} (hfd : Unused l fd) :
    Holds base { early := true, pending := some fd }
      { l with fds := Function.update l.fds fd (some .listener) } := by
  obtain ⟨hsocket, hclose, hforget⟩ := h.early rfl
  refine ⟨h.negative_update hfd,
    fun x => (Family.update_some_iff hfd.2 (by decide)).trans (h.foreign x),
    fun x => (Family.update_some_iff hfd.2 (by decide)).trans (h.client x), fun x hx => ?_,
    fun hs => ?_, fun hc => ?_, fun _ => ⟨hsocket, hclose, hforget⟩, fun _ => rfl,
    fun x hx _ => ?_, nofun, nofun⟩
  · rcases Family.update_cases hx with ⟨rfl, -⟩ | ⟨-, hx⟩
    · exact .inl rfl
    · exact absurd hx (h.no_listener x)
  · rw [show l.server.socketFd = -1 from hsocket] at hs
    omega
  · rcases hc with hc | hc
    · cases hc
    · exact absurd hc hforget
  · cases hx
    exact Function.update_self ..

theorem socketFailed (h : Holds base { early := true } l) :
    Holds base { early := true, pending := some (-1) } l := by
  refine ⟨h.negative, h.foreign, h.client, fun fd hfd => absurd hfd (h.no_listener fd), h.socket,
    h.closing, h.early, fun _ => rfl, fun fd hfd hpos => ?_, nofun, nofun⟩
  cases hfd
  omega

theorem storeSocket {fd : Int} (h : Holds base { early := true, pending := some fd } l)
    (hhandlers : l.handlers = []) :
    Holds base {} { l with server := { l.server with socketFd := fd } } := by
  refine ⟨h.negative, h.foreign, h.client, fun x hx => .inr ?_, fun hpos => .inl ?_, fun hc => ?_,
    nofun, nofun, nofun, nofun, nofun⟩
  · rcases h.listener x hx with hp | hs
    · cases hp
      rfl
    · have hnone := h.negative x (by rw [← hs, (h.early rfl).1]; decide)
      rw [hnone] at hx
      cases hx
  · exact h.stored fd rfl hpos
  · rcases hc with hc | hc
    · cases hc
    · rw [show l.handlers = [] from hhandlers] at hc
      cases hc

theorem accepted (h : Holds base {} l) {fd : Int} (hlistening : l.Listening) (hfd : Unused l fd) :
    Holds base { client := some fd }
      { l with fds := Function.update l.fds fd (some .client) } := by
  have hlistener : ∀ {x}, Function.update l.fds fd (some .client) x = some .listener ↔
      l.fds x = some .listener := Family.update_some_iff hfd.2 (by decide)
  refine ⟨h.negative_update hfd,
    fun x => (Family.update_some_iff hfd.2 (by decide)).trans (h.foreign x), fun x => ?_,
    fun x hx => h.listener x (hlistener.mp hx), fun _ => .inl (hlistener.mpr hlistening),
    fun hc x hx => h.closing hc x (hlistener.mp hx), nofun, nofun, nofun, nofun, nofun⟩
  constructor
  · intro hx
    rcases Family.update_cases hx with ⟨rfl, -⟩ | ⟨-, hx⟩
    · rfl
    · exact absurd ((h.client x).mp hx) nofun
  · intro hx
    cases hx
    exact Function.update_self ..

theorem closeClient {fd : Int} (h : Holds base { client := some fd } l) :
    Holds base {} (l.close fd) := by
  have hopen : l.fds fd = some .client := (h.client fd).mpr rfl
  have hother : ∀ {x d}, Descriptor.client ≠ d →
      ((l.close fd).fds x = some d ↔ l.fds x = some d) :=
    fun hd => Family.update_none_other hopen hd
  refine ⟨fun x hx => ?_, fun x => (hother (by decide)).trans (h.foreign x), fun x => ?_,
    fun x hx => h.listener x ((hother (by decide)).mp hx), fun hs => ?_,
    fun hc x hx => h.closing hc x ((hother (by decide)).mp hx), nofun, nofun, nofun, nofun, nofun⟩
  · exact Family.update_none_eq_none (h.negative x hx)
  · rw [Lifecycle.close, Family.update_none_iff]
    refine ⟨fun hx => ?_, nofun⟩
    have heq := (h.client x).mp hx.2
    cases heq
    exact absurd rfl hx.1
  · rcases h.socket hs with hlistening | ⟨hnone, hc⟩
    · exact .inl ((hother (by decide)).mpr hlistening)
    · exact .inr ⟨Family.update_none_eq_none hnone, hc⟩

end Holds

/-! ## Every step keeps it -/

/-- A statement of `Shutdown` in the destructor. -/
theorem Lifecycle.Inv.destroy (h : l.Inv base) {pc pc' : ShutdownPc} (hmain : l.main = .destroy pc)
    (hstep : l.shutdownStep pc = (l', some pc')) : (l'.goto (.destroy pc')).Inv base := by
  rw [Lifecycle.Inv, hmain] at h
  cases pc with
  | clearRunning =>
      cases hstep
      exact h.congr rfl rfl rfl nofun
  | testSocket =>
      by_cases hfd : l.server.socketFd ≥ 0
      · rw [Lifecycle.shutdownStep, if_pos hfd] at hstep
        cases hstep
        exact h.congr rfl rfl rfl nofun
      · rw [Lifecycle.shutdownStep, if_neg hfd] at hstep
        cases hstep
        exact ⟨h.negative, h.foreign, h.client, h.listener, h.socket, h.closing, nofun, nofun,
          nofun, fun _ => Int.lt_of_not_ge hfd, nofun⟩
  | closeSocket =>
      cases hstep
      exact h.closeSocket (c := true) ((l.close l.server.socketFd).goto (.destroy .forgetSocket))
        rfl rfl rfl rfl (.inl rfl)
  | forgetSocket =>
      cases hstep
      exact h.forgetSocket ({ l with server := { l.server with socketFd := -1 } }.goto
        (.destroy .unlinkPath)) (.inl rfl) rfl rfl rfl rfl false true
  | unlinkPath =>
      cases hstep
      exact ⟨h.negative, h.foreign, h.client, h.listener, h.socket, h.closing, nofun, nofun, nofun,
        h.closed, nofun⟩
  | resetEnclave => cases hstep

theorem Lifecycle.Inv.destroyed (h : l.Inv base) {pc : ShutdownPc}
    (hmain : l.main = .destroy pc) (hstep : l.shutdownStep pc = (l', none)) :
    (l'.goto .exited).Inv base := by
  rw [Lifecycle.Inv, hmain] at h
  cases pc with
  | resetEnclave =>
      cases hstep
      exact ⟨h.negative, h.foreign, h.client, h.listener, h.socket, h.closing, nofun, nofun, nofun,
        h.closed, fun _ => rfl⟩
  | clearRunning => cases hstep
  | testSocket => cases hstep
  | closeSocket => cases hstep
  | forgetSocket => cases hstep
  | unlinkPath => cases hstep

/-- A statement of `Shutdown` in a signal handler. -/
theorem Lifecycle.Inv.handler (h : l.Inv base) {pc : ShutdownPc} {rest : List ShutdownPc}
    {next : Option ShutdownPc} (hhandlers : l.handlers = pc :: rest)
    (hstep : l.shutdownStep pc = (l', next)) :
    { l' with handlers := next.toList ++ rest }.Inv base := by
  have h : Holds base l.main.role l := h
  have hmem : ∀ {x : ShutdownPc}, x ∈ l.handlers ↔ x = pc ∨ x ∈ rest := by
    intro x
    rw [hhandlers, List.mem_cons]
  have hrest : l.main.role.early = true → .closeSocket ∉ rest := fun he hc =>
    (h.early he).2.1 (hmem.mpr (.inr hc))
  cases pc with
  | clearRunning =>
      cases hstep
      have hnew : Holds base l.main.role { l with handlers := .testSocket :: rest } :=
        h.withHandlers (by simp [hmem]) (by simpa using hrest)
      exact hnew.congr rfl rfl rfl h.reset
  | testSocket =>
      by_cases hfd : l.server.socketFd ≥ 0
      · rw [Lifecycle.shutdownStep, if_pos hfd] at hstep
        cases hstep
        refine h.withHandlers (by simp [hmem]) fun he => ?_
        have hsocket := (h.early he).1
        omega
      · rw [Lifecycle.shutdownStep, if_neg hfd] at hstep
        cases hstep
        exact h.withHandlers (by simp [hmem]) (by simpa using hrest)
  | closeSocket =>
      cases hstep
      have hlate : l.main.role.early = false := by
        by_contra he
        exact (h.early (by simpa using he)).2.1 (hmem.mpr (.inl rfl))
      exact h.closeSocket { l.close l.server.socketFd with handlers := .forgetSocket :: rest }
        hlate rfl rfl rfl (.inr List.mem_cons_self)
  | forgetSocket =>
      cases hstep
      have hlate : l.main.role.early = false := by
        by_contra he
        exact (h.early (by simpa using he)).2.2 (hmem.mpr (.inl rfl))
      exact h.forgetSocket { l with
          server := { l.server with socketFd := -1 }, handlers := .unlinkPath :: rest }
        (.inr (hmem.mpr (.inl rfl))) hlate rfl rfl rfl _ _
  | unlinkPath =>
      cases hstep
      have hnew : Holds base l.main.role { l with handlers := .resetEnclave :: rest } :=
        h.withHandlers (by simp [hmem]) (by simpa using hrest)
      exact hnew.congr rfl rfl rfl h.reset
  | resetEnclave =>
      cases hstep
      have hnew : Holds base l.main.role { l with handlers := rest } :=
        h.withHandlers (by simp [hmem]) hrest
      exact hnew.congr rfl rfl rfl (fun _ => rfl)

/-- The main flow goes on to where it answers for the same. -/
theorem Lifecycle.Inv.goto (h : l.Inv base) {pc pc' : MainPc} (hmain : l.main = pc)
    (hrole : pc'.role = pc.role) : (l.goto pc').Inv base := by
  rw [Lifecycle.Inv, hmain, ← hrole] at h
  exact h.congr rfl rfl rfl h.reset

variable [Host] {ssl : Crypto.OpenSSL}

theorem Lifecycle.Inv.mainMove (h : l.Inv base) (hhandlers : l.handlers = [])
    (hmove : MainMove ssl l l') : l'.Inv base := by
  have hinv := h
  unfold Lifecycle.Inv at h
  cases hmove with
  | created hmain _ =>
      rw [hmain] at h
      exact h.congr rfl rfl rfl nofun
  | createFailed hmain =>
      rw [hmain] at h
      exact h.late.congr rfl rfl rfl nofun
  | @socketOpened fd hmain hfd =>
      rw [hmain] at h
      exact (h.socketOpened hfd).congr rfl rfl rfl nofun
  | socketFailed hmain =>
      rw [hmain] at h
      exact h.socketFailed.congr rfl rfl rfl nofun
  | storeSocket hmain =>
      rw [hmain] at h
      exact (h.storeSocket hhandlers).congr rfl rfl rfl nofun
  | noSocket hmain _ => exact hinv.goto hmain rfl
  | hasSocket hmain _ => exact hinv.goto hmain rfl
  | unlinkOld hmain =>
      rw [hmain] at h
      exact h.congr rfl rfl rfl nofun
  | bound hmain _ =>
      rw [hmain] at h
      exact h.congr rfl rfl rfl nofun
  | bindFailed hmain => exact hinv.goto hmain rfl
  | listened hmain _ => exact hinv.goto hmain rfl
  | listenFailed hmain => exact hinv.goto hmain rfl
  | failClose hmain =>
      rw [hmain] at h
      exact h.closeSocket (c := true) ((l.close l.server.socketFd).goto .failForget)
        rfl rfl rfl rfl (.inl rfl)
  | failForget hmain =>
      rw [hmain] at h
      exact h.forgetSocket { l with server := { l.server with socketFd := -1 } }.leave
        (.inl rfl) rfl rfl rfl rfl false false
  | initialized hmain _ _ => exact hinv.goto hmain rfl
  | notInitialized hmain _ => exact hinv.goto hmain rfl
  | setRunning hmain =>
      rw [hmain] at h
      exact h.congr rfl rfl rfl nofun
  | iterate hmain _ => exact hinv.goto hmain rfl
  | stop hmain _ => exact hinv.goto hmain rfl
  | accepted calls incoming peerOpen hmain hlistening hfd =>
      rw [hmain] at h
      exact (h.accepted hlistening hfd).congr rfl rfl rfl nofun
  | acceptFailed hmain => exact hinv.goto hmain rfl
  | perform hmain hact =>
      rw [hmain] at h
      exact h.congr rfl rfl (act_server hact).1 nofun
  | fault hmain _ => exact hinv.goto hmain rfl
  | handled hmain => exact hinv.goto hmain rfl
  | closeClient hmain =>
      rw [hmain] at h
      exact h.closeClient.congr rfl rfl rfl nofun
  | clear hmain =>
      rw [hmain] at h
      exact h.congr rfl rfl rfl nofun
  | destroy hmain hstep => exact hinv.destroy hmain hstep
  | destroyed hmain hstep => exact hinv.destroyed hmain hstep

/-- **Every step keeps the invariant**, of `main` and of the handlers. -/
theorem Lifecycle.Inv.move (h : l.Inv base) (hmove : Move ssl l l') : l'.Inv base := by
  cases hmove with
  | main hhandlers hmain => exact h.mainMove hhandlers hmain
  | signal _ _ =>
      refine Holds.withHandlers h (by simp) fun he => ?_
      simpa using (Holds.early h he).2.1
  | handler hhandlers hstep => exact h.handler hhandlers hstep

omit [Host] in
theorem Lifecycle.inv_start {fds : Int → Option Descriptor} (hneg : ∀ fd, fd < 0 → fds fd = none)
    (hforeign : ∀ fd x, fds fd = some x → x = .foreign) :
    (Lifecycle.start fds).Inv fun fd => fds fd = some .foreign := by
  have hother : ∀ {fd x}, x ≠ .foreign → fds fd ≠ some x := fun hx hfd => hx (hforeign _ _ hfd)
  refine ⟨hneg, fun _ => Iff.rfl, fun fd => ?_, fun fd hfd => ?_, fun hs => ?_,
    fun _ fd => hother (by decide), fun _ => ?_, nofun, nofun, nofun, nofun⟩
  · exact ⟨fun hfd => absurd hfd (hother (by decide)), nofun⟩
  · exact absurd hfd (hother (by decide))
  · exact absurd (show (0 : Int) ≤ -1 from hs) (by decide)
  · exact ⟨rfl, List.not_mem_nil, List.not_mem_nil⟩

/-- The invariant in every state `main` reaches. -/
theorem Lifecycle.holds_of_run {fds : Int → Option Descriptor}
    (hneg : ∀ fd, fd < 0 → fds fd = none) (hforeign : ∀ fd x, fds fd = some x → x = .foreign)
    (hrun : ReflTransGen (Move ssl) (.start fds) l) :
    Holds (fun fd => fds fd = some .foreign) l.main.role l := by
  have hinv : l.Inv fun fd => fds fd = some .foreign :=
    Transition.invariant (fun _ _ hmove hI => Lifecycle.Inv.move hI hmove) hrun
      (Lifecycle.inv_start hneg hforeign)
  exact hinv

omit [Host] in
theorem MainPc.eq_of_pending {pc : MainPc} {fd : Int} (h : pc.role.pending = some fd) :
    pc = .storeSocket fd := by
  cases pc with
  | storeSocket fd' =>
      cases h
      rfl
  | destroy pc => cases pc <;> cases h
  | _ => cases h

/-- **The server closes what it opened, and nothing else.** From the start
of `main`, with signals at any point and handlers interrupted by further
signals: no descriptor that is not the server's is ever closed; a
connection is open exactly while the main flow has it; a listening socket
is in `socket_fd_` or about to be put there; and when `main` has
returned, the process has open what it had open before, and the enclave
has been destroyed. -/
theorem descriptors_safe {fds : Int → Option Descriptor}
    (hneg : ∀ fd, fd < 0 → fds fd = none) (hforeign : ∀ fd x, fds fd = some x → x = .foreign)
    (hrun : ReflTransGen (Move ssl) (.start fds) l) :
    (∀ fd, l.fds fd = some .foreign ↔ fds fd = some .foreign) ∧
    (∀ fd, l.fds fd = some .client ↔ l.main.role.client = some fd) ∧
    (∀ fd, l.fds fd = some .listener → l.main = .storeSocket fd ∨ l.server.socketFd = fd) ∧
    (l.main = .exited → l.fds = fds ∧ l.server.enclave = none) := by
  have h := Lifecycle.holds_of_run hneg hforeign hrun
  refine ⟨h.foreign, h.client, fun fd hfd => ?_, fun hmain => ?_⟩
  · rcases h.listener fd hfd with hp | hs
    · exact .inl (MainPc.eq_of_pending hp)
    · exact .inr hs
  · rw [hmain] at h
    exact ⟨h.fds_eq rfl rfl (h.closed rfl) hforeign, h.reset rfl⟩

/-- A handler that is not interrupted does what `EnclaveServer.shutdown`
says. -/
theorem handler_uninterrupted (ssl : Crypto.OpenSSL) {rest : List ShutdownPc}
    (hhandlers : l.handlers = .clearRunning :: rest) :
    ∃ l', ReflTransGen (Move ssl) l l' ∧ l'.handlers = rest ∧ l'.server = l.server.shutdown ∧
      l'.main = l.main := by
  let cleared : Lifecycle :=
    ⟨l.main, .testSocket :: rest, { l.server with running := false }, l.gServer, l.fds⟩
  have hclear : Move ssl l cleared := .handler hhandlers rfl
  by_cases hfd : l.server.socketFd ≥ 0
  · have htest : cleared.shutdownStep .testSocket = (cleared, some .closeSocket) := by
      show (cleared, some (if l.server.socketFd ≥ 0 then _ else _)) = _
      rw [if_pos hfd]
    refine ⟨_, .head hclear (.head (.handler rfl htest) (.head (.handler rfl rfl)
      (.head (.handler rfl rfl) (.head (.handler rfl rfl) (.head (.handler rfl rfl) .refl))))),
      rfl, ?_, rfl⟩
    have hserver : l.server.shutdown = ⟨none, -1, false⟩ := by
      rw [EnclaveServer.shutdown, if_pos hfd]
    rw [hserver]
    rfl
  · have htest : cleared.shutdownStep .testSocket = (cleared, some .unlinkPath) := by
      show (cleared, some (if l.server.socketFd ≥ 0 then _ else _)) = _
      rw [if_neg hfd]
    refine ⟨_, .head hclear (.head (.handler rfl htest) (.head (.handler rfl rfl)
      (.head (.handler rfl rfl) .refl))), rfl, ?_, rfl⟩
    rw [EnclaveServer.shutdown, if_neg hfd]

end

/-- Standard input is open, and nothing else. -/
def sampleFds : Int → Option Descriptor := fun fd => if fd = 0 then some .foreign else none

/-- The socket is open and stored. -/
def sampleOpened : Lifecycle where
  main := .checkSocket
  handlers := []
  server := { enclave := some (EnclaveImpl.new.initializeEnclave (some Crypto.zeroKey)).2
              socketFd := 3, running := false }
  gServer := true
  fds := Function.update sampleFds 3 (some .listener)

theorem sampleFds_negative (fd : Int) (hfd : fd < 0) : sampleFds fd = none :=
  if_neg (by omega)

theorem sampleFds_foreign (fd : Int) (x : Descriptor) (hx : sampleFds fd = some x) :
    x = .foreign := by
  rw [sampleFds, Option.ite_none_right_eq_some] at hx
  exact (Option.some.inj hx.2).symm

theorem sampleOpened_reached [Host] :
    ReflTransGen (Move Crypto.sampleGcm) (.start sampleFds) sampleOpened :=
  .head (.main rfl (.created rfl (show Enclave.create (some Crypto.zeroKey) = _ from rfl)))
    (.head (.main rfl (.socketOpened rfl (show Unused _ 3 from ⟨by decide, rfl⟩)))
      (.head (.main rfl (.storeSocket rfl)) .refl))

/-- Two signals, the second of them between the close and the assignment:
the socket is closed twice, and nothing else is. -/
theorem descriptors_safe_two_signals :
    letI := Host.littleEndian
    ∃ l, ReflTransGen (Move Crypto.sampleGcm) (.start sampleFds) l ∧ l.main = .exited ∧
      l.fds = sampleFds := by
  let := Host.littleEndian
  have hfirst : ∃ l, ReflTransGen (Move Crypto.sampleGcm) sampleOpened l ∧
      l.handlers = [.clearRunning, .forgetSocket] ∧ l.main = .checkSocket := by
    refine ⟨_, .head (.signal ⟨nofun, nofun⟩ rfl) (.head (.handler rfl rfl)
      (.head (.handler rfl rfl) (.head (.handler rfl rfl)
        (.head (.signal ⟨nofun, nofun⟩ rfl) .refl)))), rfl, rfl⟩
  obtain ⟨l₁, hrun₁, hhandlers₁, hmain₁⟩ := hfirst
  obtain ⟨l₂, hrun₂, hhandlers₂, -, hmain₂⟩ :=
    handler_uninterrupted Crypto.sampleGcm hhandlers₁
  -- the first handler takes up where it was, and `main` leaves
  have hlast : ∃ l, ReflTransGen (Move Crypto.sampleGcm) l₂ l ∧ l.main = .exited :=
    ⟨_, .head (.handler hhandlers₂ rfl) (.head (.handler rfl rfl) (.head (.handler rfl rfl)
      (.head (.main rfl (.noSocket (hmain₂.trans hmain₁) (by show (-1 : Int) < 0; decide)))
        (.head (.main rfl (.destroy rfl rfl)) (.head (.main rfl (.destroy rfl rfl))
          (.head (.main rfl (.destroy rfl rfl)) (.head (.main rfl (.destroyed rfl rfl))
            .refl))))))), rfl⟩
  obtain ⟨l, hrun₃, hexited⟩ := hlast
  have hrun := sampleOpened_reached.trans (hrun₁.trans (hrun₂.trans hrun₃))
  obtain ⟨hfds, -⟩ :=
    (descriptors_safe sampleFds_negative sampleFds_foreign hrun).2.2.2 hexited
  exact ⟨l, hrun, hexited, hfds⟩

end OpenEnclave.Server
