import OpenEnclave.Server.Descriptors

/-!
# Atomic — a signal handler as one step

`Process` takes `signal_handler` as one step between two steps of the
main flow. `Descriptors` takes it statement by statement, and a second
signal may interrupt it. As far as the main flow can tell there is no
difference: `signals_atomic` says that, once `Initialize` has returned,
every run in the small steps is followed by a run in the large ones,
with the same server whenever no handler is under way, until
`~EnclaveServer` begins.

The large step is taken when the first of a pile of handlers starts.
`Abstracts` is the relation from there on, and `Regular` is why it is in
order when the last of them returns.
-/

namespace OpenEnclave.Server

open ByteCodec Protocol Effect Relation

/-! ## What a statement of `Shutdown` does -/

section
variable {l l' : Lifecycle} {pc : ShutdownPc} {rest : List ShutdownPc} {next : Option ShutdownPc}

/-- The socket is still to be closed, or to be forgotten. -/
def ShutdownPc.closes : ShutdownPc → Bool
  | .clearRunning | .testSocket | .closeSocket | .forgetSocket => true
  | .unlinkPath | .resetEnclave => false

namespace Lifecycle

theorem shutdownStep_handlers (l : Lifecycle) (pc : ShutdownPc) :
    (l.shutdownStep pc).1.handlers = l.handlers := by
  cases pc <;> rfl

theorem shutdownStep_main (h : l.shutdownStep pc = (l', next)) : l'.main = l.main := by
  cases pc <;> cases h <;> rfl

theorem shutdownStep_gServer (h : l.shutdownStep pc = (l', next)) : l'.gServer = l.gServer := by
  cases pc <;> cases h <;> rfl

theorem shutdownStep_running (h : l.shutdownStep pc = (l', next))
    (hcleared : pc ≠ .clearRunning → l.server.running = false) : l'.server.running = false := by
  cases pc with
  | clearRunning =>
      cases h
      rfl
  | _ =>
      cases h
      exact hcleared (by decide)

/-- `socket_fd_` is left alone or set back. -/
theorem shutdownStep_socketFd (h : l.shutdownStep pc = (l', next)) :
    l'.server.socketFd = l.server.socketFd ∨ l'.server.socketFd = -1 := by
  cases pc with
  | forgetSocket =>
      cases h
      exact .inr rfl
  | _ =>
      cases h
      exact .inl rfl

/-- Who has the socket behind him has forgotten it. -/
theorem shutdownStep_forgot (h : l.shutdownStep pc = (l', next))
    (hforgot : pc.closes = false → l.server.socketFd < 0) {pc' : ShutdownPc}
    (hpc' : pc' ∈ next.toList) (hcloses : pc'.closes = false) : l'.server.socketFd < 0 := by
  cases pc with
  | testSocket =>
      cases h
      by_cases hfd : l.server.socketFd ≥ 0
      · simp_all [ShutdownPc.closes]
      · exact Int.not_le.mp hfd
  | forgetSocket =>
      cases h
      exact show (-1 : Int) < 0 by decide
  | clearRunning =>
      cases h
      simp_all [ShutdownPc.closes]
  | closeSocket =>
      cases h
      simp_all [ShutdownPc.closes]
  | unlinkPath =>
      cases h
      exact hforgot rfl
  | resetEnclave =>
      cases h
      cases hpc'

/-- What `Shutdown` makes of the server does not depend on how far it has
come. -/
theorem shutdownStep_shutdown (h : l.shutdownStep pc = (l', next)) (hlow : -1 ≤ l.server.socketFd) :
    l'.server.shutdown = l.server.shutdown := by
  cases pc with
  | forgetSocket =>
      cases h
      simp only [EnclaveServer.shutdown, EnclaveServer.mk.injEq, true_and, and_true]
      split <;> split <;> omega
  | _ =>
      cases h
      rfl

end Lifecycle

theorem MainMove.handlers_eq [Host] {ssl : Crypto.OpenSSL} (h : MainMove ssl l l') :
    l'.handlers = l.handlers := by
  cases h
  case destroy pc _ l₁ _ hstep =>
    have heq := l.shutdownStep_handlers pc
    rwa [hstep] at heq
  case destroyed pc l₁ _ hstep =>
    have heq := l.shutdownStep_handlers pc
    rwa [hstep] at heq
  all_goals rfl

/-! ## The flows of control in `Shutdown` -/

/-- A handler, or the destructor, is at this statement. -/
def Lifecycle.InShutdown (l : Lifecycle) (pc : ShutdownPc) : Prop :=
  pc ∈ l.handlers ∨ l.main = .destroy pc

/-- What the flows of control in `Shutdown` have done is not undone while
they are there. -/
structure Lifecycle.Regular (l : Lifecycle) : Prop where
  low : -1 ≤ l.server.socketFd
  pending : ∀ fd, l.main = .storeSocket fd → -1 ≤ fd
  cleared : ∀ pc, l.InShutdown pc → pc ≠ .clearRunning → l.server.running = false
  forgot : ∀ pc, l.InShutdown pc → pc.closes = false → l.server.socketFd < 0

namespace Lifecycle.Regular

/-- Nobody has got anywhere in `Shutdown` yet. -/
theorem of_fresh (hlow : -1 ≤ l.server.socketFd)
    (hpending : ∀ fd, l.main = .storeSocket fd → -1 ≤ fd)
    (hfresh : ∀ pc, l.InShutdown pc → pc = .clearRunning) : l.Regular := by
  refine ⟨hlow, hpending, fun pc hpc hne => absurd (hfresh pc hpc) hne, fun pc hpc hcloses => ?_⟩
  rw [hfresh pc hpc] at hcloses
  cases hcloses

/-- One flow of control goes on by a statement. -/
theorem advance (h : l.Regular) (hpc : l.InShutdown pc) (hstep : l.shutdownStep pc = (l', next))
    {k : Lifecycle} (hserver : k.server = l'.server)
    (hpending : ∀ fd, k.main = .storeSocket fd → -1 ≤ fd)
    (hflows : ∀ pc', k.InShutdown pc' → pc' ∈ next.toList ∨ l.InShutdown pc') : k.Regular := by
  have hfd := Lifecycle.shutdownStep_socketFd hstep
  refine ⟨?_, hpending, fun pc' hpc' hne => ?_, fun pc' hpc' hcloses => ?_⟩
  · rw [hserver]
    have hlow := h.low
    omega
  · rw [hserver]
    exact Lifecycle.shutdownStep_running hstep (h.cleared pc hpc)
  · rw [hserver]
    rcases hflows pc' hpc' with hnext | hold
    · exact Lifecycle.shutdownStep_forgot hstep (h.forgot pc hpc) hnext hcloses
    · have hneg := h.forgot pc' hold hcloses
      omega

theorem handler (h : l.Regular) (hhandlers : l.handlers = pc :: rest)
    (hstep : l.shutdownStep pc = (l', next)) :
    { l' with handlers := next.toList ++ rest }.Regular := by
  have hmain := Lifecycle.shutdownStep_main hstep
  have hpc : l.InShutdown pc := .inl (hhandlers ▸ List.mem_cons_self)
  refine h.advance hpc hstep rfl (fun fd hfd => h.pending fd (hmain ▸ hfd)) fun pc' hpc' => ?_
  rcases hpc' with hmem | hdestroy
  · rcases List.mem_append.mp hmem with hnext | hrest
    · exact .inl hnext
    · exact .inr (.inl (hhandlers ▸ List.mem_cons_of_mem _ hrest))
  · exact .inr (.inr (hmain ▸ hdestroy))

/-- After the last statement nothing is left to do. -/
theorem last (h : l.Regular) (hpc : l.InShutdown pc) (hstep : l.shutdownStep pc = (l', none)) :
    l'.server = l.server.shutdown := by
  cases pc with
  | resetEnclave =>
      cases hstep
      have hrunning := h.cleared _ hpc (by decide)
      have hfd := h.forgot _ hpc rfl
      rw [EnclaveServer.shutdown, if_neg (Int.not_le.mpr hfd), ← hrunning]
  | _ => cases hstep

/-- The last of the handlers returns. -/
theorem last_handler (h : l.Regular) (hhandlers : l.handlers = pc :: rest)
    (hstep : l.shutdownStep pc = (l', next)) (hnil : next.toList ++ rest = []) :
    l'.server = l.server.shutdown := by
  cases next with
  | none => exact h.last (.inl (hhandlers ▸ List.mem_cons_self)) hstep
  | some pc' => cases hnil

variable [Host] {ssl : Crypto.OpenSSL}

theorem mainMove (h : l.Regular) (hhandlers : l.handlers = []) (hmove : MainMove ssl l l') :
    l'.Regular := by
  have hnone : ∀ pc, pc ∉ l'.handlers := by
    rw [hmove.handlers_eq, hhandlers]
    exact fun _ => List.not_mem_nil
  cases hmove
  case destroy pc pc' l₁ hmain hstep =>
    refine h.advance (.inr hmain) hstep rfl nofun fun pc₁ hpc₁ => ?_
    rcases hpc₁ with hmem | hdestroy
    · exact absurd hmem (hnone pc₁)
    · cases hdestroy
      exact .inl List.mem_cons_self
  case destroyed pc l₁ hmain hstep =>
    refine h.advance (.inr hmain) hstep rfl nofun fun pc₁ hpc₁ => ?_
    rcases hpc₁ with hmem | hdestroy
    · exact absurd hmem (hnone pc₁)
    · cases hdestroy
  case socketOpened fd _ hfd =>
    refine of_fresh h.low (fun fd' hfd' => ?_) fun pc hpc => ?_
    · cases hfd'
      have := hfd.1
      omega
    · exact hpc.elim (fun hmem => absurd hmem (hnone pc)) nofun
  case socketFailed =>
    refine of_fresh h.low (fun fd' hfd' => ?_) fun pc hpc => ?_
    · cases hfd'
      decide
    · exact hpc.elim (fun hmem => absurd hmem (hnone pc)) nofun
  case storeSocket fd hmain =>
    exact of_fresh (h.pending fd hmain) nofun
      fun pc hpc => hpc.elim (fun hmem => absurd hmem (hnone pc)) nofun
  case perform hact =>
    exact of_fresh (le_of_le_of_eq h.low (act_server hact).1.symm) nofun
      fun pc hpc => hpc.elim (fun hmem => absurd hmem (hnone pc)) nofun
  case failForget =>
    refine of_fresh (show (-1 : Int) ≤ -1 by decide) nofun fun pc hpc => ?_
    rcases hpc with hmem | hdestroy
    · exact absurd hmem (hnone pc)
    · cases hdestroy
      rfl
  all_goals
    refine of_fresh h.low nofun fun pc hpc => ?_
    rcases hpc with hmem | hdestroy
    · exact absurd hmem (hnone pc)
    · cases hdestroy <;> rfl

theorem move (h : l.Regular) (hmove : Move ssl l l') : l'.Regular := by
  cases hmove with
  | main hhandlers hmain => exact h.mainMove hhandlers hmain
  | signal _ _ =>
      refine ⟨h.low, h.pending, fun pc hpc hne => ?_, fun pc hpc hcloses => ?_⟩
      · refine h.cleared pc (hpc.imp_left fun hmem => ?_) hne
        exact (List.mem_cons.mp hmem).resolve_left hne
      · refine h.forgot pc (hpc.imp_left fun hmem => ?_) hcloses
        refine (List.mem_cons.mp hmem).resolve_left ?_
        rintro rfl
        cases hcloses
  | handler hhandlers hstep => exact h.handler hhandlers hstep

end Lifecycle.Regular

/-! ## The process in large steps -/

/-- Where `Process` has the main flow; there `Initialize` is over and
`~EnclaveServer` is one step. -/
def MainPc.coarse : MainPc → Option Pc
  | .checkInitialized => some .checkInitialized
  | .setRunning => some .setRunning
  | .loopTest => some .loopTest
  | .accept => some .accept
  | .handle _ calls prog conn => some (.handle calls prog conn)
  | .closeClient _ => some .closeClient
  | .returned => some .returned
  | .destroy _ => some .cleared
  | .exited => some .exited
  | .ended _ fault => some (.ended fault)
  | _ => none

/-- The server as it will be when the handlers under way have returned. -/
def Lifecycle.settled (l : Lifecycle) : EnclaveServer :=
  if l.handlers = [] then l.server else l.server.shutdown

/-- The process in large steps that goes with one in small steps. In the
destructor the two need only agree on what `Shutdown` is going to leave. -/
structure Lifecycle.Abstracts (l : Lifecycle) (p : Process) : Prop where
  pc : l.main.coarse = some p.pc
  gServer : l.gServer = p.gServer
  server : p.pc ≠ .cleared → p.server = l.settled
  destroying : p.pc = .cleared →
    p.server.shutdown = l.server.shutdown ∧ l.handlers = [] ∧ l.gServer = false

namespace Lifecycle.Abstracts

variable {p : Process}

/-- No handler is under way, and `main` has not returned. -/
theorem eq_mk (h : l.Abstracts p) (hhandlers : l.handlers = []) {c : Pc}
    (hc : l.main.coarse = some c) (hne : c ≠ .cleared) : p = ⟨c, l.server, l.gServer⟩ := by
  obtain ⟨pc, server, g⟩ := p
  have hpc : pc = c := Option.some.inj (h.pc.symm.trans hc)
  subst hpc
  have hserver : server = l.settled := h.server hne
  have hg : l.gServer = g := h.gServer
  rw [hserver, hg, Lifecycle.settled, if_pos hhandlers]

theorem of_quiet (hhandlers : l.handlers = []) {c : Pc} (hc : l.main.coarse = some c)
    (hne : c ≠ .cleared) : l.Abstracts ⟨c, l.server, l.gServer⟩ := by
  refine ⟨hc, rfl, fun _ => ?_, fun heq => absurd heq hne⟩
  rw [Lifecycle.settled, if_pos hhandlers]

variable [Host] {ssl : Crypto.OpenSSL}

/-- A step of the main flow that is a step in `Process` as well. -/
theorem follow (h : l.Abstracts p) (hhandlers : l.handlers = []) (hhandlers' : l'.handlers = [])
    {c c' : Pc} (hc : l.main.coarse = some c) (hc' : l'.main.coarse = some c')
    (hstep : MainStep ssl ⟨c, l.server, l.gServer⟩ ⟨c', l'.server, l'.gServer⟩)
    (hne : c ≠ .cleared) (hne' : c' ≠ .cleared) :
    ∃ p', ReflTransGen (Step ssl) p p' ∧ l'.Abstracts p' := by
  rw [h.eq_mk hhandlers hc hne]
  exact ⟨_, .single (.main hstep), of_quiet hhandlers' hc' hne'⟩

/-- The destructor has come to its end. -/
theorem destroyed (h : l.Abstracts p) (hreg : l.Regular) (hhandlers : l.handlers = [])
    (hmain : l.main = .destroy pc) (hstep : l.shutdownStep pc = (l', none)) :
    ∃ p', ReflTransGen (Step ssl) p p' ∧ (l'.goto .exited).Abstracts p' := by
  have hlast := hreg.last (.inr hmain) hstep
  have hhandlers' : l'.handlers = [] := by
    have heq := l.shutdownStep_handlers pc
    rw [hstep] at heq
    exact heq.trans hhandlers
  obtain ⟨ppc, server, g⟩ := p
  have hpc : ppc = .cleared := by
    have hcoarse := h.pc
    rw [hmain] at hcoarse
    exact (Option.some.inj hcoarse).symm
  subst hpc
  refine ⟨_, .single (.main .destroy), rfl, ?_, fun _ => ?_, nofun⟩
  · exact (Lifecycle.shutdownStep_gServer hstep).trans h.gServer
  · rw [Lifecycle.settled, if_pos (show (l'.goto .exited).handlers = [] from hhandlers')]
    exact (h.destroying rfl).1.trans hlast.symm

theorem mainMove (h : l.Abstracts p) (hreg : l.Regular) (hneg : ∀ fd, fd < 0 → l.fds fd = none)
    (hhandlers : l.handlers = []) (hmove : MainMove ssl l l') :
    ∃ p', ReflTransGen (Step ssl) p p' ∧ l'.Abstracts p' := by
  have hhandlers' : l'.handlers = [] := hmove.handlers_eq.trans hhandlers
  have hpc := h.pc
  cases hmove
  case initialized hmain hfd henclave =>
    exact h.follow hhandlers hhandlers' (congrArg _ hmain) rfl (.initialized hfd henclave)
      (by simp) (by simp)
  case notInitialized hmain hor =>
    exact h.follow hhandlers hhandlers' (congrArg _ hmain) rfl (.notInitialized hor)
      (by simp) (by simp)
  case setRunning hmain =>
    exact h.follow hhandlers hhandlers' (congrArg _ hmain) rfl .setRunning (by simp) (by simp)
  case iterate hmain hrunning =>
    exact h.follow hhandlers hhandlers' (congrArg _ hmain) rfl (.iterate hrunning)
      (by simp) (by simp)
  case stop hmain hrunning =>
    exact h.follow hhandlers hhandlers' (congrArg _ hmain) rfl (.leave hrunning)
      (by simp) (by simp)
  case accepted fd calls incoming peerOpen hmain hlistening _ =>
    have hfd : 0 ≤ l.server.socketFd := by
      by_contra hlt
      have hnone := hneg l.server.socketFd (Int.not_le.mp hlt)
      rw [Lifecycle.Listening, hnone] at hlistening
      cases hlistening
    exact h.follow hhandlers hhandlers' (congrArg _ hmain) rfl
      (.accepted calls incoming peerOpen hfd) (by simp) (by simp)
  case acceptFailed hmain =>
    exact h.follow hhandlers hhandlers' (congrArg _ hmain) rfl .acceptFailed (by simp) (by simp)
  case perform hmain hact =>
    exact h.follow hhandlers hhandlers' (congrArg _ hmain) rfl (.perform hact) (by simp) (by simp)
  case fault hmain hact =>
    exact h.follow hhandlers hhandlers' (congrArg _ hmain) rfl (.fault hact) (by simp) (by simp)
  case handled hmain =>
    exact h.follow hhandlers hhandlers' (congrArg _ hmain) rfl .handled (by simp) (by simp)
  case closeClient hmain =>
    exact h.follow hhandlers hhandlers' (congrArg _ hmain) rfl .closed (by simp) (by simp)
  case clear hmain =>
    rw [h.eq_mk hhandlers (congrArg _ hmain) (by simp)]
    exact ⟨_, .single (.main .clear), rfl, rfl, fun hne => absurd rfl hne,
      fun _ => ⟨rfl, hhandlers', rfl⟩⟩
  case destroy pc pc' l₁ hmain hstep =>
    rw [hmain] at hpc
    obtain ⟨hshutdown, -, hg⟩ := h.destroying (Option.some.inj hpc).symm
    refine ⟨p, .refl, hpc, ?_, fun hne => absurd (Option.some.inj hpc).symm hne, fun _ => ?_⟩
    · exact (Lifecycle.shutdownStep_gServer hstep).trans h.gServer
    · refine ⟨?_, hhandlers', (Lifecycle.shutdownStep_gServer hstep).trans hg⟩
      exact hshutdown.trans (Lifecycle.shutdownStep_shutdown hstep hreg.low).symm
  case destroyed pc l₁ hmain hstep => exact h.destroyed hreg hhandlers hmain hstep
  -- what is left are the statements of `Initialize`, which `Process` does not have
  all_goals simp_all [MainPc.coarse]

omit [Host] in
theorem live (h : l.Abstracts p) (hlive : l.Live) : p.Live := by
  have hpc := h.pc
  refine ⟨fun hexited => ?_, fun fault hended => ?_⟩
  · rw [hexited] at hpc
    refine hlive.1 ?_
    cases hmain : l.main <;> simp_all [MainPc.coarse]
  · rw [hended] at hpc
    cases hmain : l.main with
    | ended fd fault' => exact hlive.2 fd fault' hmain
    | _ => simp_all [MainPc.coarse]

/-- The first signal is one of the large steps, and a signal to a handler
is none. -/
theorem signal (h : l.Abstracts p) (hlive : l.Live) (hg : l.gServer = true) :
    ∃ p', ReflTransGen (Step ssl) p p' ∧
      { l with handlers := .clearRunning :: l.handlers }.Abstracts p' := by
  have hne : p.pc ≠ .cleared := by
    intro hcleared
    rw [(h.destroying hcleared).2.2] at hg
    cases hg
  have hsettled : { l with handlers := .clearRunning :: l.handlers }.settled =
      l.server.shutdown := if_neg (List.cons_ne_nil _ _)
  by_cases hhandlers : l.handlers = []
  · have hstep : Step ssl p { p with server := p.server.shutdown } := by
      have hsignal : Step ssl p p.signalHandler := .signal (h.live hlive)
      rwa [Process.signalHandler, if_pos (h.gServer ▸ hg)] at hsignal
    refine ⟨_, .single hstep, h.pc, h.gServer, fun _ => ?_, fun hcleared => absurd hcleared hne⟩
    have hserver := h.server hne
    rw [Lifecycle.settled, if_pos hhandlers] at hserver
    rw [hsettled, ← hserver]
  · refine ⟨p, .refl, h.pc, h.gServer, fun _ => ?_, fun hcleared => absurd hcleared hne⟩
    rw [hsettled, h.server hne, Lifecycle.settled, if_neg hhandlers]

omit [Host] in
/-- A statement of a handler is none either. -/
theorem handler (h : l.Abstracts p) (hreg : l.Regular) (hhandlers : l.handlers = pc :: rest)
    (hstep : l.shutdownStep pc = (l', next)) :
    { l' with handlers := next.toList ++ rest }.Abstracts p := by
  have hcons : l.handlers ≠ [] := by
    rw [hhandlers]
    exact List.cons_ne_nil _ _
  have hne : p.pc ≠ .cleared := fun hcleared => hcons (h.destroying hcleared).2.1
  have hmain := Lifecycle.shutdownStep_main hstep
  refine ⟨?_, (Lifecycle.shutdownStep_gServer hstep).trans h.gServer, fun _ => ?_,
    fun hcleared => absurd hcleared hne⟩
  · show l'.main.coarse = _
    rw [hmain]
    exact h.pc
  · rw [h.server hne, Lifecycle.settled, if_neg hcons]
    by_cases hnil : next.toList ++ rest = []
    · rw [Lifecycle.settled, if_pos hnil]
      exact (hreg.last_handler hhandlers hstep hnil).symm
    · rw [Lifecycle.settled, if_neg hnil]
      exact (Lifecycle.shutdownStep_shutdown hstep hreg.low).symm

/-- **Every small step is followed.** -/
theorem move (h : l.Abstracts p) (hreg : l.Regular) (hneg : ∀ fd, fd < 0 → l.fds fd = none)
    (hmove : Move ssl l l') : ∃ p', ReflTransGen (Step ssl) p p' ∧ l'.Abstracts p' := by
  cases hmove with
  | main hhandlers hmain => exact h.mainMove hreg hneg hhandlers hmain
  | signal hlive hg => exact h.signal hlive hg
  | handler hhandlers hstep => exact ⟨p, .refl, h.handler hreg hhandlers hstep⟩

end Lifecycle.Abstracts

/-! ## From the start of `main` -/

/-- The enclave has been created, and `Run` has not been called. -/
def EnclaveServer.Begun (s : EnclaveServer) : Prop :=
  ∃ rand e, Enclave.create rand = .ok e ∧ s = ⟨some e, s.socketFd, false⟩

/-- What `Initialize` has done so far, if no signal has come. -/
def Lifecycle.Started (l : Lifecycle) : Prop :=
  match l.main with
  | .createEnclave => l.gServer = true ∧ l.server = .new
  | .socket | .storeSocket _ | .checkSocket => l.gServer = true ∧ l.server.Begun
  | .unlinkOld | .bind | .listen | .checkInitialized =>
      l.gServer = true ∧ l.server.Begun ∧ 0 ≤ l.server.socketFd
  | _ => True

variable [Host] {ssl : Crypto.OpenSSL}

theorem Lifecycle.Started.mainMove (h : l.Started) (hmove : MainMove ssl l l') : l'.Started := by
  unfold Lifecycle.Started at h
  cases hmove
  case created rand e hmain hcreate =>
    rw [hmain] at h
    obtain ⟨hg, hserver⟩ := h
    refine ⟨hg, rand, e, hcreate, ?_⟩
    show EnclaveServer.mk (some e) l.server.socketFd l.server.running = _
    rw [hserver]
    rfl
  case socketOpened hmain _ =>
    rw [hmain] at h
    exact h
  case socketFailed hmain =>
    rw [hmain] at h
    exact h
  case storeSocket fd hmain =>
    rw [hmain] at h
    obtain ⟨hg, rand, e, hcreate, hserver⟩ := h
    refine ⟨hg, rand, e, hcreate, ?_⟩
    show EnclaveServer.mk l.server.enclave fd l.server.running = _
    rw [hserver]
    rfl
  case hasSocket hmain hfd =>
    rw [hmain] at h
    exact ⟨h.1, h.2, hfd⟩
  case unlinkOld hmain =>
    rw [hmain] at h
    exact h
  case bound hmain _ =>
    rw [hmain] at h
    exact h
  case listened hmain _ =>
    rw [hmain] at h
    exact h
  all_goals trivial

theorem main_run (hrun : ReflTransGen (MainMove ssl) l l') (hhandlers : l.handlers = []) :
    ReflTransGen (Move ssl) l l' ∧ l'.handlers = [] := by
  induction hrun with
  | refl => exact ⟨.refl, hhandlers⟩
  | tail _ hlast ih => exact ⟨ih.1.tail (.main ih.2 hlast), hlast.handlers_eq.trans ih.2⟩

theorem Lifecycle.regular_of_run {fds : Int → Option Descriptor}
    (hrun : ReflTransGen (Move ssl) (.start fds) l) : l.Regular := by
  have hstart : (Lifecycle.start fds).Regular := by
    refine .of_fresh (show (-1 : Int) ≤ -1 by decide) nofun fun pc hpc => ?_
    exact hpc.elim (fun hmem => absurd hmem List.not_mem_nil) nofun
  exact Transition.invariant (fun _ _ hmove hR => Lifecycle.Regular.move hR hmove) hrun hstart

/-- **Signals may be taken as atomic.** If `Initialize` has succeeded
without a signal, then whatever `main`, the handlers and further signals
do from there on, in whatever order: the large steps of `Process` lead
from an initial state to one where the main flow is at the same place,
`g_server` is the same, and the server is what it is in the small steps,
or what it will be when the handlers under way have returned; of a server
inside its destructor, which is one large step, this says nothing. -/
theorem signals_atomic {fds : Int → Option Descriptor} {l₀ : Lifecycle}
    (hneg : ∀ fd, fd < 0 → fds fd = none) (hforeign : ∀ fd x, fds fd = some x → x = .foreign)
    (hinit : ReflTransGen (MainMove ssl) (.start fds) l₀)
    (hmain : l₀.main = .checkInitialized) (hrun : ReflTransGen (Move ssl) l₀ l) :
    ∃ p₀ p : Process, p₀.Initial ∧ ReflTransGen (Step ssl) p₀ p ∧ l.main.coarse = some p.pc ∧
      l.gServer = p.gServer ∧
      (p.pc ≠ .cleared → p.server = if l.handlers = [] then l.server else l.server.shutdown) := by
  obtain ⟨hstart, hhandlers⟩ := main_run hinit rfl
  have hstarted : l₀.Started :=
    Transition.invariant (fun _ _ hmove hS => Lifecycle.Started.mainMove hS hmove) hinit
      ⟨rfl, rfl⟩
  have hkeep : ∀ k k', Move ssl k k' → ReflTransGen (Move ssl) (.start fds) k →
      ReflTransGen (Move ssl) (.start fds) k' := fun _ _ hmove hreach => hreach.tail hmove
  have hsim : ∀ k k' p, ReflTransGen (Move ssl) (.start fds) k → k.Abstracts p →
      Move ssl k k' → ∃ p', ReflTransGen (Step ssl) p p' ∧ k'.Abstracts p' := by
    intro k k' p hreach habs hmove
    exact habs.move (Lifecycle.regular_of_run hreach)
      (Lifecycle.holds_of_run hneg hforeign hreach).negative hmove
  have habs₀ : l₀.Abstracts ⟨.checkInitialized, l₀.server, l₀.gServer⟩ :=
    .of_quiet hhandlers (congrArg _ hmain) nofun
  obtain ⟨p, hsteps, habs⟩ := Transition.simulation hkeep hsim hrun hstart habs₀
  refine ⟨_, p, ?_, hsteps, habs.pc, habs.gServer, habs.server⟩
  rw [Lifecycle.Started, hmain] at hstarted
  obtain ⟨hg, ⟨rand, e, hcreate, hserver⟩, hfd⟩ := hstarted
  refine ⟨rfl, hg, rand, ⟨l₀.server.socketFd, true, true⟩, ?_⟩
  have hok : EnclaveServer.new.initializeServer rand ⟨l₀.server.socketFd, true, true⟩ =
      (true, ⟨some e, l₀.server.socketFd, false⟩) := by
    simp only [EnclaveServer.initializeServer, hcreate]
    rw [if_neg (Int.not_lt.mpr hfd), if_neg (by decide)]
    rfl
  rw [hok, ← hserver]

end

/-- `Initialize` has succeeded. -/
def sampleInitialized : Lifecycle := { sampleOpened with main := .checkInitialized }

theorem sampleInitialized_reached [Host] :
    ReflTransGen (MainMove Crypto.sampleGcm) (.start sampleFds) sampleInitialized :=
  .head (.created rfl (show Enclave.create (some Crypto.zeroKey) = _ from rfl))
    (.head (.socketOpened rfl (show Unused _ 3 from ⟨by decide, rfl⟩))
      (.head (.storeSocket rfl) (.head (.hasSocket rfl (show (0 : Int) ≤ 3 by decide))
        (.head (.unlinkOld rfl) (.head (.bound rfl rfl) (.head (.listened rfl rfl) .refl))))))

/-- A signal after the check of `Run`, interrupted by another: to `Process`
the server has been shut down. -/
theorem signals_atomic_nested :
    letI := Host.littleEndian
    ∃ l, ReflTransGen (Move Crypto.sampleGcm) sampleInitialized l ∧
      l.handlers = [.clearRunning, .closeSocket] ∧ l.server.enclave ≠ none ∧
      ∃ p₀ p : Process, p₀.Initial ∧ ReflTransGen (Step Crypto.sampleGcm) p₀ p ∧
        p.server.enclave = none := by
  let := Host.littleEndian
  have hnested : ∃ l, ReflTransGen (Move Crypto.sampleGcm) sampleInitialized l ∧
      l.handlers = [.clearRunning, .closeSocket] ∧ l.server.enclave ≠ none ∧
      l.main = .setRunning :=
    ⟨_, .head (.main rfl (.initialized rfl (show (0 : Int) ≤ 3 by decide) nofun))
      (.head (.signal ⟨nofun, nofun⟩ rfl) (.head (.handler rfl rfl) (.head (.handler rfl rfl)
        (.head (.signal ⟨nofun, nofun⟩ rfl) .refl)))), rfl, nofun, rfl⟩
  obtain ⟨l, hrun, hhandlers, henclave, hmain⟩ := hnested
  obtain ⟨p₀, p, hinitial, hsteps, hpc, -, hserver⟩ := signals_atomic sampleFds_negative
    sampleFds_foreign sampleInitialized_reached rfl hrun
  refine ⟨l, hrun, hhandlers, henclave, p₀, p, hinitial, hsteps, ?_⟩
  have hne : p.pc ≠ .cleared := by
    rw [hmain] at hpc
    rw [← Option.some.inj hpc]
    exact nofun
  rw [hserver hne, hhandlers]
  rfl

end OpenEnclave.Server
