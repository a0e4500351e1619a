import OpenEnclave.Lib.Family
import OpenEnclave.Client.Basic

/-!
# Sockets — the descriptors `EnclaveClient` objects open and close

`Connect`, `Disconnect` and the destructor, statement by statement, for
any number of `EnclaveClient` objects. Each object is used by one thread;
the threads, and the rest of the process, take turns at every statement,
and a number that was closed may be given out to any of them before
`socket_fd_` has been set back.

`connections_owned` says which descriptors are open on behalf of an
object: the one in `socket_fd_`, and every one that a `Connect` found
there and wrote over. The class leaves its copy operations to the
compiler. A copy closes the descriptor of its original, so the result is
about programs that make none.
-/

namespace OpenEnclave.Client

/-! ## The objects -/

/-- Who has opened a descriptor. -/
inductive Opener (ι : Type) where
  | client (this : ι)
  | foreign
deriving DecidableEq

/-- The statement an object is about to execute. In `Disconnect` it is
kept whether the destructor has called it. -/
inductive ClientPc where
  /-- No call is under way but possibly `SendRequest`. -/
  | idle
  /-- `if (socket_fd_ < 0)` in `Connect`. -/
  | checkSocket
  | connect
  /-- `close(socket_fd_)` after a failed `connect`. -/
  | failClose
  | failForget
  /-- `if (socket_fd_ >= 0)` in `Disconnect`. -/
  | testSocket (destroying : Bool)
  | close (destroying : Bool)
  /-- `socket_fd_ = -1`. -/
  | forget (destroying : Bool)
deriving DecidableEq

structure EnclaveClient where
  pc : ClientPc
  socketFd : Int
deriving DecidableEq

/-- The objects that are alive, and the descriptors of the process. -/
structure Sockets (ι : Type) where
  clients : ι → Option EnclaveClient
  fds : Int → Option (Opener ι)

inductive SocketOp (ι : Type) where
  | construct (this : ι)
  /-- The copy constructor and the copy assignment the compiler
  provides. -/
  | copyConstruct (this other : ι)
  | copyAssign (this other : ι)
  /-- `Connect` is called: `socket` returns a descriptor, or fails. -/
  | socket (this : ι) (fd : Option Int)
  | disconnect (this : ι)
  | destroy (this : ι)
  /-- The next statement of the call under way. `ok` tells whether
  `connect` succeeds. -/
  | proceed (this : ι) (ok : Bool)
  | foreignOpen (fd : Int)
  | foreignClose (fd : Int)
deriving DecidableEq

def SocketOp.copies {ι : Type} : SocketOp ι → Bool
  | .copyConstruct _ _ | .copyAssign _ _ => true
  | _ => false

section
variable {ι : Type} [DecidableEq ι]

namespace Sockets

def set (s : Sockets ι) (this : ι) (c : Option EnclaveClient) : Sockets ι :=
  { s with clients := Function.update s.clients this c }

/-- A number the kernel may give out becomes a descriptor. -/
def openFd (s : Sockets ι) (fd : Int) (opener : Opener ι) : Option (Sockets ι) :=
  if 0 ≤ fd ∧ s.fds fd = none then
    some { s with fds := Function.update s.fds fd (some opener) }
  else none

def closeFd (s : Sockets ι) (fd : Int) : Sockets ι :=
  { s with fds := Function.update s.fds fd none }

/-- `Disconnect` returns, in the destructor to where the object ends. -/
def returned (fd : Int) : Bool → Option EnclaveClient
  | false => some ⟨.idle, fd⟩
  | true => none

/-- One statement of the call that is under way at `this`. -/
def proceed (s : Sockets ι) (this : ι) (ok : Bool) (fd : Int) : ClientPc → Option (Sockets ι)
  | .idle => none
  | .checkSocket => some (s.set this (some ⟨if fd < 0 then .idle else .connect, fd⟩))
  | .connect => some (s.set this (some ⟨if ok then .idle else .failClose, fd⟩))
  | .failClose => some ((s.closeFd fd).set this (some ⟨.failForget, fd⟩))
  | .failForget => some (s.set this (some ⟨.idle, -1⟩))
  | .testSocket d =>
      some (s.set this (if fd ≥ 0 then some ⟨.close d, fd⟩ else returned fd d))
  | .close d => some ((s.closeFd fd).set this (some ⟨.forget d, fd⟩))
  | .forget d => some (s.set this (returned (-1) d))

/-- A method of `this` is called while no other is under way. -/
def call (s : Sockets ι) (this : ι) (pc : ClientPc) : Option (Sockets ι) :=
  match s.clients this with
  | some ⟨.idle, fd⟩ => some (s.set this (some ⟨pc, fd⟩))
  | _ => none

/-- The first statement of `Connect`. -/
def socket (s : Sockets ι) (this : ι) (fd : Option Int) : Option (Sockets ι) :=
  match s.clients this, fd with
  | some ⟨.idle, _⟩, none => some (s.set this (some ⟨.checkSocket, -1⟩))
  | some ⟨.idle, _⟩, some fd =>
      (s.openFd fd (.client this)).map (·.set this (some ⟨.checkSocket, fd⟩))
  | _, _ => none

def step (s : Sockets ι) : SocketOp ι → Option (Sockets ι)
  | .construct this =>
      if s.clients this = none then some (s.set this (some ⟨.idle, -1⟩)) else none
  | .copyConstruct this other =>
      match s.clients this, s.clients other with
      | none, some ⟨.idle, fd⟩ => some (s.set this (some ⟨.idle, fd⟩))
      | _, _ => none
  | .copyAssign this other =>
      match s.clients this, s.clients other with
      | some ⟨.idle, _⟩, some ⟨.idle, fd⟩ => some (s.set this (some ⟨.idle, fd⟩))
      | _, _ => none
  | .socket this fd => s.socket this fd
  | .disconnect this => s.call this (.testSocket false)
  | .destroy this => s.call this (.testSocket true)
  | .proceed this ok => (s.clients this).bind fun c => s.proceed this ok c.socketFd c.pc
  | .foreignOpen fd => s.openFd fd .foreign
  | .foreignClose fd => if s.fds fd = some .foreign then some (s.closeFd fd) else none

/-- There are no objects, and the rest of the process has `table` open. -/
def init (table : Int → Bool) : Sockets ι where
  clients := fun _ => none
  fds := fun fd => if table fd then some .foreign else none

def run (s : Sockets ι) (ops : List (SocketOp ι)) : Option (Sockets ι) := ops.foldlM step s

/-! ## What an object answers for -/

end Sockets

namespace EnclaveClient

/-- The descriptor in `socket_fd_`, unless it has been closed already. -/
def held (c : EnclaveClient) : Option Int :=
  match c.pc with
  | .failForget | .forget _ => none
  | _ => if 0 ≤ c.socketFd then some c.socketFd else none

/-- The next system call is made on `socket_fd_`: that of the statement,
or a `send` or `recv` of a `SendRequest`. -/
def Uses (c : EnclaveClient) : Prop :=
  match c.pc with
  | .connect | .failClose | .close _ => True
  | .idle => 0 ≤ c.socketFd
  | _ => False

/-- Between the calls these are the objects whose `SendRequest` does not
return at once. -/
theorem uses_idle_iff [ByteCodec.Host] (fd : Int) (request : Protocol.Request) :
    Uses ⟨.idle, fd⟩ ↔ sendRequest fd request ≠ .ret none := by
  show 0 ≤ fd ↔ _
  by_cases hfd : fd < 0
  · rw [sendRequest, if_pos hfd]
    exact ⟨fun hpos => absurd hfd (Int.not_lt.mpr hpos), fun hne => absurd rfl hne⟩
  · rw [sendRequest, if_neg hfd]
    refine ⟨fun _ heq => ?_, fun _ => Int.not_lt.mp hfd⟩
    cases heq

/-- The calls on `socket_fd_` come after a test of it. -/
def Tested (c : EnclaveClient) : Prop := c.Uses → 0 ≤ c.socketFd

theorem held_of_uses {c : EnclaveClient} (huses : c.Uses) (htested : c.Tested) :
    c.held = some c.socketFd := by
  have hpos := htested huses
  obtain ⟨pc, fd⟩ := c
  cases pc with
  | failForget => exact huses.elim
  | forget d => exact huses.elim
  | _ => exact if_pos hpos

end EnclaveClient

namespace Sockets

/-- The descriptor the object `this` has in its `socket_fd_`. -/
def held (s : Sockets ι) (this : ι) : Option Int := (s.clients this).bind EnclaveClient.held

/-- What `Connect` finds in `socket_fd_` and writes over. -/
def overwritten (s : Sockets ι) : SocketOp ι → List (ι × Int)
  | .socket this _ => (s.held this).toList.map fun fd => (this, fd)
  | _ => []

/-- What is written over in a run. -/
def lost (s : Sockets ι) : List (SocketOp ι) → List (ι × Int)
  | [] => []
  | op :: ops =>
    match s.step op with
    | none => []
    | some s' => s.overwritten op ++ s'.lost ops

end Sockets

/-- The descriptors of the rest of the process, as it has opened and
closed them itself. -/
def SocketOp.foreign (table : Int → Bool) : SocketOp ι → Int → Bool
  | .foreignOpen fd => Function.update table fd true
  | .foreignClose fd => Function.update table fd false
  | _ => table

/-- The invariant: every descriptor is accounted for. -/
structure Owned (s : Sockets ι) (lost : List (ι × Int)) (foreign : Int → Bool) : Prop where
  negative : ∀ fd, fd < 0 → s.fds fd = none
  foreign : ∀ fd, s.fds fd = some .foreign ↔ foreign fd = true
  client : ∀ this fd, s.fds fd = some (.client this) ↔ s.held this = some fd ∨ (this, fd) ∈ lost
  apart : ∀ this fd, s.held this = some fd → (this, fd) ∉ lost
  nodup : lost.Nodup
  tested : ∀ this c, s.clients this = some c → c.Tested

section
variable {s s' : Sockets ι} {lost : List (ι × Int)} {foreign : Int → Bool} {this u : ι}
  {x : Option EnclaveClient} {fd : Int} {op : SocketOp ι} {ops : List (SocketOp ι)}

@[simp] theorem Sockets.held_set_self :
    (s.set this x).held this = x.bind EnclaveClient.held := by
  show (Function.update s.clients this x this).bind _ = _
  rw [Function.update_self]

theorem Sockets.held_set_of_ne (hu : u ≠ this) : (s.set this x).held u = s.held u := by
  show (Function.update s.clients this x u).bind _ = _
  rw [Function.update_of_ne hu, held]

theorem Sockets.held_set_cases {v : Option Int} (h : (s.set this x).held u = v) :
    (u = this ∧ x.bind EnclaveClient.held = v) ∨ (u ≠ this ∧ s.held u = v) := by
  by_cases hu : u = this
  · subst hu
    rw [held_set_self] at h
    exact .inl ⟨rfl, h⟩
  · rw [held_set_of_ne hu] at h
    exact .inr ⟨hu, h⟩

@[simp] theorem Sockets.fds_set : (s.set this x).fds = s.fds := rfl

@[simp] theorem Sockets.set_set {y : Option EnclaveClient} :
    (s.set this x).set this y = s.set this y := by
  rw [set, set, set, Function.update_idem]

namespace Owned

theorem tested_set (h : Owned s lost foreign) (hx : ∀ c, x = some c → c.Tested) (u : ι)
    (c : EnclaveClient) (hc : (s.set this x).clients u = some c) : c.Tested := by
  rcases Family.update_cases hc with ⟨-, heq⟩ | ⟨-, hc⟩
  · exact hx c heq
  · exact h.tested u c hc

/-- `socket_fd_` is set, and what was in it is lost. -/
theorem forgotten (h : Owned s lost foreign) (hheld : x.bind EnclaveClient.held = none)
    (hx : ∀ c, x = some c → c.Tested) :
    Owned (s.set this x) (lost ++ (s.held this).toList.map fun fd => (this, fd)) foreign := by
  have hmem : ∀ {u fd}, (u, fd) ∈ (s.held this).toList.map (fun fd => (this, fd)) ↔
      u = this ∧ s.held this = some fd := by
    intro u fd
    simp only [List.mem_map, Option.mem_toList, Prod.mk.injEq]
    constructor
    · rintro ⟨fd', hfd', rfl, rfl⟩
      exact ⟨rfl, hfd'⟩
    · rintro ⟨rfl, hfd⟩
      exact ⟨fd, hfd, rfl, rfl⟩
  refine ⟨h.negative, h.foreign, fun u fd => ?_, fun u fd hu => ?_, ?_, h.tested_set hx⟩
  · rw [Sockets.fds_set, h.client u fd, List.mem_append, hmem]
    by_cases hu : u = this
    · subst hu
      rw [Sockets.held_set_self, hheld]
      tauto
    · rw [Sockets.held_set_of_ne hu]
      tauto
  · rw [List.mem_append, hmem, not_or]
    rcases Sockets.held_set_cases hu with ⟨-, heq⟩ | ⟨hne, hu⟩
    · rw [hheld] at heq
      cases heq
    · exact ⟨h.apart u fd hu, fun hthis => hne hthis.1⟩
  · cases hthis : s.held this with
    | none => simpa using h.nodup
    | some fd =>
        refine List.nodup_append.mpr ⟨h.nodup, List.nodup_singleton _, ?_⟩
        rintro a ha b hb rfl
        rw [List.mem_singleton.mp hb] at ha
        exact h.apart this fd hthis ha

/-- `socket_fd_` has been read, or set to what makes no difference. -/
theorem kept (h : Owned s lost foreign) (hheld : x.bind EnclaveClient.held = s.held this)
    (hx : ∀ c, x = some c → c.Tested) : Owned (s.set this x) lost foreign := by
  have heq : ∀ u, (s.set this x).held u = s.held u := by
    intro u
    by_cases hu : u = this
    · rw [hu, Sockets.held_set_self, hheld]
    · exact Sockets.held_set_of_ne hu
  refine ⟨h.negative, h.foreign, fun u fd => ?_, fun u fd hu => ?_, h.nodup, h.tested_set hx⟩
  · rw [heq]
    exact h.client u fd
  · rw [heq] at hu
    exact h.apart u fd hu

omit [DecidableEq ι] in
/-- Descriptors are not negative. -/
theorem negative_update (h : Owned s lost foreign) (hfd : 0 ≤ fd) (o : Option (Opener ι))
    (y : Int) (hy : y < 0) : Function.update s.fds fd o y = none := by
  rw [Function.update_of_ne (by omega), h.negative y hy]

/-- A new descriptor goes to an object that has none. -/
theorem opened (h : Owned s lost foreign) (hthis : s.held this = none) (hfd : 0 ≤ fd)
    (hnone : s.fds fd = none) (hheld : x.bind EnclaveClient.held = some fd)
    (hx : ∀ c, x = some c → c.Tested) :
    Owned (Sockets.set { s with fds := Function.update s.fds fd (some (.client this)) } this x)
      lost foreign := by
  have hfresh : ∀ {u}, s.held u ≠ some fd ∧ (u, fd) ∉ lost := by
    intro u
    rw [← not_or, ← h.client u fd, hnone]
    exact nofun
  have hset : ∀ {u}, u ≠ this → (Sockets.set { s with
      fds := Function.update s.fds fd (some (.client this)) } this x).held u = s.held u :=
    fun hu => Sockets.held_set_of_ne hu
  refine ⟨h.negative_update hfd _,
    fun y => (Family.update_some_iff hnone (by simp)).trans (h.foreign y), fun u y => ?_,
    fun u y hy => ?_, h.nodup, h.tested_set hx⟩
  · by_cases hu : u = this
    · subst hu
      rw [Sockets.held_set_self, hheld]
      by_cases hy : y = fd
      · subst hy
        simp
      · have hclient := h.client u y
        rw [hthis] at hclient
        simp only [Sockets.fds_set, Function.update_of_ne hy, hclient]
        constructor
        · rintro (hx | hx)
          · cases hx
          · exact .inr hx
        · rintro (hx | hx)
          · exact absurd (Option.some.inj hx).symm hy
          · exact .inr hx
    · rw [hset hu, ← h.client u y]
      exact Family.update_some_iff hnone fun heq => hu (Opener.client.inj heq).symm
  · rcases Sockets.held_set_cases hy with ⟨rfl, heq⟩ | ⟨-, hy⟩
    · rw [hheld] at heq
      cases heq
      exact hfresh.2
    · exact h.apart u y hy

/-- **An object closes the descriptor it has**, and no other. -/
theorem closed (h : Owned s lost foreign) (hthis : s.held this = some fd)
    (hheld : x.bind EnclaveClient.held = none) (hx : ∀ c, x = some c → c.Tested) :
    Owned ((s.closeFd fd).set this x) lost foreign := by
  have hopen : s.fds fd = some (.client this) := (h.client this fd).mpr (.inl hthis)
  have hother : ∀ {y o}, Opener.client this ≠ o →
      ((s.closeFd fd).fds y = some o ↔ s.fds y = some o) :=
    fun ho => Family.update_none_other hopen ho
  refine ⟨fun y hy => ?_, fun y => (hother (by simp)).trans (h.foreign y), fun u y => ?_,
    fun u y hy => ?_, h.nodup, h.tested_set hx⟩
  · exact Family.update_none_eq_none (h.negative y hy)
  · by_cases hu : u = this
    · subst hu
      rw [Sockets.held_set_self, hheld, Sockets.fds_set, Sockets.closeFd, Family.update_none_iff,
        h.client u y, hthis]
      constructor
      · rintro ⟨hne, hy | hy⟩
        · exact absurd (Option.some.inj hy).symm hne
        · exact .inr hy
      · rintro (hy | hy)
        · cases hy
        · refine ⟨?_, .inr hy⟩
          rintro rfl
          exact h.apart u y hthis hy
    · have hset : ((s.closeFd fd).set this x).held u = s.held u := Sockets.held_set_of_ne hu
      rw [hset, ← h.client u y]
      exact hother fun heq => hu (Opener.client.inj heq).symm
  · rcases Sockets.held_set_cases hy with ⟨-, heq⟩ | ⟨-, hy⟩
    · rw [hheld] at heq
      cases heq
    · exact h.apart u y hy

/-! ## Every statement keeps it -/

omit [DecidableEq ι] in
theorem foreignOpened (h : Owned s lost foreign) (hfd : 0 ≤ fd) (hnone : s.fds fd = none) :
    Owned { s with fds := Function.update s.fds fd (some .foreign) } lost
      (Function.update foreign fd true) := by
  refine ⟨h.negative_update hfd _, fun y => ?_,
    fun u y => (Family.update_some_iff hnone (by simp)).trans (h.client u y), h.apart, h.nodup,
    h.tested⟩
  exact Family.update_related (F := fun _ o b => o = some Opener.foreign ↔ b = true) (by simp)
    (fun y _ => h.foreign y) y

omit [DecidableEq ι] in
theorem foreignClosed (h : Owned s lost foreign) (hfd : s.fds fd = some .foreign) :
    Owned (s.closeFd fd) lost (Function.update foreign fd false) := by
  refine ⟨fun y hy => ?_, fun y => ?_, fun u y => ?_, h.apart, h.nodup, h.tested⟩
  · exact Family.update_none_eq_none (h.negative y hy)
  · exact Family.update_related (F := fun _ o b => o = some Opener.foreign ↔ b = true) (by simp)
      (fun y _ => h.foreign y) y
  · exact (Family.update_none_other hfd (by simp)).trans (h.client u y)

/-- A statement that touches no descriptor. -/
theorem moved {pc pc' : ClientPc} (h : Owned s lost foreign)
    (hthis : s.clients this = some ⟨pc, fd⟩)
    (hheld : EnclaveClient.held ⟨pc', fd⟩ = EnclaveClient.held ⟨pc, fd⟩)
    (htested : EnclaveClient.Tested ⟨pc', fd⟩) :
    Owned (s.set this (some ⟨pc', fd⟩)) lost foreign := by
  refine h.kept ?_ (fun c hc => ?_)
  · rw [Sockets.held, hthis]
    exact hheld
  · cases hc
    exact htested

/-- An object without a descriptor goes on with none in `socket_fd_`, or
comes to its end. -/
theorem emptied {c : EnclaveClient} (h : Owned s lost foreign) (hthis : s.clients this = some c)
    (hc : c.held = none) (hfd : fd < 0) (d : Bool) :
    Owned (s.set this (Sockets.returned fd d)) lost foreign := by
  refine h.kept ?_ (fun c' hc' => ?_)
  · rw [Sockets.held, hthis, Option.bind_some, hc]
    cases d with
    | false => exact if_neg (Int.not_le.mpr hfd)
    | true => rfl
  · cases d with
    | false =>
        cases hc'
        exact id
    | true => cases hc'

theorem proceed {pc : ClientPc} {ok : Bool} (h : Owned s lost foreign)
    (hthis : s.clients this = some ⟨pc, fd⟩) (hstep : s.proceed this ok fd pc = some s') :
    Owned s' lost foreign := by
  have htested : EnclaveClient.Tested ⟨pc, fd⟩ := h.tested this _ hthis
  have hheld : EnclaveClient.Uses ⟨pc, fd⟩ → s.held this = some fd := by
    intro huses
    rw [Sockets.held, hthis]
    exact EnclaveClient.held_of_uses huses htested
  cases pc with
  | idle => cases hstep
  | checkSocket =>
      cases hstep
      by_cases hfd : fd < 0
      · rw [if_pos hfd]
        exact h.moved hthis rfl id
      · rw [if_neg hfd]
        exact h.moved hthis rfl fun _ => Int.not_lt.mp hfd
  | connect =>
      cases hstep
      have hpos : 0 ≤ fd := htested trivial
      cases ok with
      | true => exact h.moved hthis rfl fun _ => hpos
      | false => exact h.moved hthis rfl fun _ => hpos
  | failClose =>
      cases hstep
      refine h.closed (hheld trivial) rfl fun c hc => ?_
      cases hc
      exact False.elim
  | failForget =>
      cases hstep
      exact h.emptied hthis rfl (by decide) false
  | testSocket d =>
      cases hstep
      by_cases hfd : fd ≥ 0
      · rw [if_pos hfd]
        exact h.moved hthis rfl fun _ => hfd
      · rw [if_neg hfd]
        exact h.emptied hthis (if_neg hfd) (Int.not_le.mp hfd) d
  | close d =>
      cases hstep
      refine h.closed (hheld trivial) rfl fun c hc => ?_
      cases hc
      exact False.elim
  | forget d =>
      cases hstep
      exact h.emptied hthis rfl (by decide) d

/-- A call starts in an object that has none under way. -/
theorem call {pc : ClientPc} (h : Owned s lost foreign) (hstep : s.call this pc = some s')
    (hheld : ∀ fd, EnclaveClient.held ⟨pc, fd⟩ = EnclaveClient.held ⟨.idle, fd⟩)
    (htested : ∀ fd, EnclaveClient.Tested ⟨pc, fd⟩) : Owned s' lost foreign := by
  unfold Sockets.call at hstep
  split at hstep
  · rename_i fd hthis
    cases hstep
    exact h.moved hthis (hheld fd) (htested fd)
  · cases hstep

/-- `Connect` gives up what is in `socket_fd_` and takes what it gets. -/
theorem socket {newFd : Option Int} (h : Owned s lost foreign)
    (hstep : s.socket this newFd = some s') :
    Owned s' (lost ++ (s.held this).toList.map fun fd => (this, fd)) foreign := by
  have hchecked : ∀ fd c, some (EnclaveClient.mk .checkSocket fd) = some c → c.Tested := by
    intro fd c hc
    cases hc
    exact False.elim
  unfold Sockets.socket at hstep
  split at hstep
  · cases hstep
    exact h.forgotten rfl (hchecked _)
  · rename_i fd _
    simp only [Sockets.openFd, Option.map_eq_some_iff, Option.ite_none_right_eq_some] at hstep
    obtain ⟨s₁, ⟨⟨hfd, hnone⟩, heq⟩, rfl⟩ := hstep
    cases heq
    have hforgot : Owned (s.set this none)
        (lost ++ (s.held this).toList.map fun fd => (this, fd)) foreign :=
      h.forgotten rfl nofun
    have hopened := hforgot.opened (x := some ⟨.checkSocket, fd⟩) Sockets.held_set_self hfd hnone
      (if_pos hfd) (hchecked fd)
    let opened : Sockets ι := { s with fds := Function.update s.fds fd (some (.client this)) }
    have hset : (opened.set this none).set this (some ⟨.checkSocket, fd⟩) =
        opened.set this (some ⟨.checkSocket, fd⟩) := Sockets.set_set
    exact hset ▸ hopened
  · cases hstep

/-- **Every step keeps the account.** -/
theorem step (h : Owned s lost foreign) (hop : op.copies = false) (hstep : s.step op = some s') :
    Owned s' (lost ++ s.overwritten op) (op.foreign foreign) := by
  have hnil : lost ++ [] = lost := List.append_nil lost
  cases op with
  | construct this =>
      simp only [Sockets.step, Option.ite_none_right_eq_some] at hstep
      obtain ⟨hnone, heq⟩ := hstep
      cases heq
      show Owned _ (lost ++ []) _
      rw [hnil]
      refine h.kept ?_ (fun c hc => ?_)
      · rw [Sockets.held, hnone]
        rfl
      · cases hc
        exact id
  | copyConstruct this other => cases hop
  | copyAssign this other => cases hop
  | socket this fd => exact h.socket hstep
  | disconnect this =>
      show Owned _ (lost ++ []) _
      rw [hnil]
      exact h.call hstep (fun _ => rfl) fun _ => False.elim
  | destroy this =>
      show Owned _ (lost ++ []) _
      rw [hnil]
      exact h.call hstep (fun _ => rfl) fun _ => False.elim
  | proceed this ok =>
      show Owned _ (lost ++ []) _
      rw [hnil]
      obtain ⟨c, hthis, hproceed⟩ := Option.bind_eq_some_iff.mp hstep
      exact h.proceed hthis hproceed
  | foreignOpen fd =>
      show Owned _ (lost ++ []) _
      rw [hnil]
      simp only [Sockets.step, Sockets.openFd, Option.ite_none_right_eq_some] at hstep
      obtain ⟨⟨hfd, hnone⟩, heq⟩ := hstep
      cases heq
      exact h.foreignOpened hfd hnone
  | foreignClose fd =>
      show Owned _ (lost ++ []) _
      rw [hnil]
      simp only [Sockets.step, Option.ite_none_right_eq_some] at hstep
      obtain ⟨hfd, heq⟩ := hstep
      cases heq
      exact h.foreignClosed hfd

/-- Over a run, by induction on the operations: the rest of the run starts
from an account that is in order. -/
theorem run (h : Owned s lost foreign) (hops : ∀ op ∈ ops, op.copies = false)
    (hrun : s.run ops = some s') :
    Owned s' (lost ++ s.lost ops) (ops.foldl SocketOp.foreign foreign) := by
  induction ops generalizing s lost foreign with
  | nil =>
      cases hrun
      rw [Sockets.lost, List.append_nil]
      exact h
  | cons op ops ih =>
      rw [Sockets.run, List.foldlM_cons] at hrun
      obtain ⟨s₁, hstep, hrest⟩ := Option.bind_eq_some_iff.mp hrun
      have hop := h.step (hops op List.mem_cons_self) hstep
      have hlost : s.lost (op :: ops) = s.overwritten op ++ s₁.lost ops := by
        rw [Sockets.lost, hstep]
      rw [hlost, ← List.append_assoc]
      exact ih hop (fun o ho => hops o (List.mem_cons_of_mem op ho)) hrest

end Owned

omit [DecidableEq ι] in
theorem Owned.init {table : Int → Bool} (hneg : ∀ fd, fd < 0 → table fd = false) :
    Owned (Sockets.init table : Sockets ι) [] table := by
  have hnone : ∀ {fd}, table fd = false → (Sockets.init table : Sockets ι).fds fd = none :=
    fun hfd => if_neg (by simp [hfd])
  refine ⟨fun fd hfd => hnone (hneg fd hfd), fun fd => ?_, fun this fd => ?_, nofun, .nil, nofun⟩
  · cases hfd : table fd with
    | false => simp [hnone hfd]
    | true => simp [Sockets.init, hfd]
  · cases hfd : table fd with
    | false => simp [Sockets.held, Sockets.init, hfd]
    | true => simp [Sockets.held, Sockets.init, hfd]

/-- **Every descriptor a client opens is accounted for.** Over any run of
any number of objects, in any interleaving with each other and with the
rest of the process, as long as no object is copied: each system call on
`socket_fd_`, `close` above all, is made on a descriptor the object has
opened and nobody has closed since; the rest of the process has open what
it has opened and not closed itself; and what is open on behalf of an
object is the descriptor in its `socket_fd_` and the ones that a
`Connect` has written over, each of them once and for ever. -/
theorem connections_owned {table : Int → Bool} (hneg : ∀ fd, fd < 0 → table fd = false)
    (hops : ∀ op ∈ ops, op.copies = false) (hrun : (Sockets.init table).run ops = some s) :
    (∀ this c, s.clients this = some c → c.Uses →
      s.fds c.socketFd = some (.client this)) ∧
    (∀ fd, s.fds fd = some .foreign ↔ ops.foldl SocketOp.foreign table fd = true) ∧
    (∀ this fd, s.fds fd = some (.client this) ↔
      s.held this = some fd ∨ (this, fd) ∈ (Sockets.init table).lost ops) ∧
    (∀ this fd, s.held this = some fd → (this, fd) ∉ (Sockets.init table).lost ops) ∧
    ((Sockets.init table).lost ops).Nodup := by
  have h := (Owned.init hneg).run hops hrun
  refine ⟨fun this c hthis huses => ?_, h.foreign, h.client, h.apart, h.nodup⟩
  have hheld : s.held this = some c.socketFd := by
    rw [Sockets.held, hthis]
    exact EnclaveClient.held_of_uses huses (h.tested this c hthis)
  exact (h.client this c.socketFd).mpr (.inl hheld)

end

end

/-- A second `Connect`, which fails, and somebody else is given the number
it had before the object forgets it. -/
def sampleReconnect : List (SocketOp Nat) :=
  [.construct 0, .socket 0 (some 3), .proceed 0 true, .proceed 0 true, .socket 0 (some 4),
    .proceed 0 true, .proceed 0 false, .proceed 0 true, .foreignOpen 4, .proceed 0 true,
    .destroy 0, .proceed 0 true]

/-- The first connection stays open when the object is gone, and the
foreign descriptor has not been touched. -/
theorem connections_owned_reconnect :
    ∃ s, (Sockets.init fun _ => false).run sampleReconnect = some s ∧ s.clients 0 = none ∧
      s.fds 3 = some (.client 0) ∧ s.fds 4 = some .foreign := by
  have hsome : ((Sockets.init fun _ => false).run sampleReconnect).isSome = true := by decide
  obtain ⟨s, hrun⟩ := Option.isSome_iff_exists.mp hsome
  have hgone : ((Sockets.init fun _ => false).run sampleReconnect).map (fun s => s.clients 0) =
      some none := by decide
  obtain ⟨-, hforeign, hclient, -, -⟩ :=
    connections_owned (fun _ _ => rfl) (by decide) hrun
  refine ⟨s, hrun, ?_, (hclient 0 3).mpr (.inr (by decide)), (hforeign 4).mpr (by decide)⟩
  rw [hrun] at hgone
  exact Option.some.inj hgone

/-- With a copy: the original is destroyed while the copy has its
descriptor, and the number goes to somebody else, from whom the copy takes
it. -/
example : ((Sockets.init fun _ => false : Sockets Nat).run
    [.construct 0, .socket 0 (some 3), .proceed 0 true, .proceed 0 true, .copyConstruct 1 0,
      .destroy 0, .proceed 0 true, .proceed 0 true, .proceed 0 true, .foreignOpen 3,
      .disconnect 1, .proceed 1 true, .proceed 1 true]).map (fun s => s.fds 3) = some none := by
  decide

end OpenEnclave.Client
