import OpenEnclave.Lib.Effect
import OpenEnclave.Lib.Linearizable
import OpenEnclave.Lib.Transition
import OpenEnclave.Lib.Family

/-!
# Monitor — threads that share a state under one mutex

Threads call methods, and a method is a program (`Effect`) whose
operations are accesses to a shared state and the acquisition and
release of a mutex. The scheduler may switch between any two operations
of any two threads.

`Bracketed` is the discipline of a method with a scoped lock: checks
first, which read what never changes; then the lock, accesses under it,
its release, and the return. For methods of that form the sequential
meaning of the methods is also their concurrent one
(`Guarded.linearizable`): a call takes effect when it acquires the
mutex, because from there on nobody else can change what it sees. Two
threads are never at accesses of which neither is a check
(`Sim.holds_or_check`), and no thread is left waiting for ever
(`Guarded.eventually_idle`).
-/

namespace Monitor

open Effect Relation Linearizable Transition Family

/-! ## Methods -/

/-- The operations of a method: those of the mutex, and the accesses. -/
inductive Sync (Op : Type) where
  | acquire
  | release
  | access (o : Op)

@[reducible] def Sync.Res {Op : Type} (Res : Op → Type) : Sync Op → Type
  | .acquire => Unit
  | .release => Unit
  | .access o => Res o

abbrev Method (Op : Type) (Res : Op → Type) (ο : Type) := Prog (Sync Op) (Sync.Res Res) ο

variable {Op : Type} {Res : Op → Type} {τ ι ο σ ε : Type}

def access (o : Op) : Method Op Res (Res o) := Prog.perform (Sync.access o)

/-- A scope with a lock guard: the mutex is released at its end, whatever
the value it returns. -/
def lockGuard (body : Method Op Res ο) : Method Op Res ο :=
  Prog.op .acquire fun _ => body >>= fun r => Prog.op .release fun _ => .ret r

/-- What the operations do to the shared state; the mutex is not part of
it. -/
def seqAct (act : (o : Op) → σ → Except ε (Res o × σ)) :
    (o : Sync Op) → σ → Except ε (Sync.Res Res o × σ)
  | .acquire, s => .ok ((), s)
  | .release, s => .ok ((), s)
  | .access o, s => act o s

/-- Where a thread is with respect to the mutex. -/
inductive Section where
  | before
  | inside
  | after

/-- Checks, then one critical section, then the return; at most `n`
operations in all. -/
inductive Bracketed (Check : Op → Prop) : Section → Nat → Method Op Res ο → Prop where
  | early {n : Nat} (r : ο) : Bracketed Check .before n (.ret r)
  | check {n : Nat} {o : Op} {k : Res o → Method Op Res ο} : Check o →
      (∀ r, Bracketed Check .before n (k r)) → Bracketed Check .before (n + 1) (.op (.access o) k)
  | acquire {n : Nat} {k : Unit → Method Op Res ο} : Bracketed Check .inside n (k ()) →
      Bracketed Check .before (n + 1) (.op .acquire k)
  | access {n : Nat} {o : Op} {k : Res o → Method Op Res ο} :
      (∀ r, Bracketed Check .inside n (k r)) → Bracketed Check .inside (n + 1) (.op (.access o) k)
  | release {n : Nat} {k : Unit → Method Op Res ο} : Bracketed Check .after n (k ()) →
      Bracketed Check .inside (n + 1) (.op .release k)
  | done {n : Nat} (r : ο) : Bracketed Check .after n (.ret r)

/-- A body that only accesses, at most `n` times. -/
inductive Accesses : Nat → Method Op Res ο → Prop where
  | ret {n : Nat} (r : ο) : Accesses n (.ret r)
  | access {n : Nat} {o : Op} {k : Res o → Method Op Res ο} : (∀ r, Accesses n (k r)) →
      Accesses (n + 1) (.op (.access o) k)

theorem Accesses.bind {n : Nat} {o : Op} {k : Res o → Method Op Res ο}
    (h : ∀ r, Accesses n (k r)) : Accesses (n + 1) (Monitor.access o >>= k) :=
  .access h

theorem Bracketed.bind {Check : Op → Prop} {n : Nat} {o : Op} {k : Res o → Method Op Res ο}
    (ho : Check o) (h : ∀ r, Bracketed Check .before n (k r)) :
    Bracketed Check .before (n + 1) (Monitor.access o >>= k) :=
  .check ho h

theorem Bracketed.lockGuard {Check : Op → Prop} {n : Nat} {body : Method Op Res ο}
    (h : Accesses n body) : Bracketed Check .before (n + 2) (lockGuard body) := by
  refine .acquire ?_
  induction h with
  | ret r => exact .release (.done r)
  | access _ ih => exact .access ih

theorem Bracketed.map {Check : Op → Prop} {place : Section} {n : Nat} {p : Method Op Res ο}
    (h : Bracketed Check place n p) {α : Type} (f : ο → α) :
    Bracketed Check place n (p >>= fun r => .ret (f r)) := by
  induction h with
  | early r => exact .early (f r)
  | check hcheck _ ih => exact .check hcheck ih
  | acquire _ ih => exact .acquire ih
  | access _ ih => exact .access ih
  | release _ ih => exact .release ih
  | done r => exact .done (f r)

/-- The program ends after at most `n` operations. -/
inductive Within : Nat → Method Op Res ο → Prop where
  | ret {n : Nat} (r : ο) : Within n (.ret r)
  | op {n : Nat} {o : Sync Op} {k : Sync.Res Res o → Method Op Res ο} :
      (∀ r, Within n (k r)) → Within (n + 1) (.op o k)

theorem Bracketed.within {Check : Op → Prop} {place : Section} {n : Nat} {p : Method Op Res ο}
    (h : Bracketed Check place n p) : Within n p := by
  induction h with
  | early r => exact .ret r
  | check _ _ ih => exact .op ih
  | acquire _ ih => exact .op fun _ => ih
  | access _ ih => exact .op ih
  | release _ ih => exact .op fun _ => ih
  | done r => exact .ret r

/-! ## Threads -/

/-- The mutex, the shared state, and each thread's call with what is left
of its method. -/
structure Config (τ ι ο σ Op : Type) (Res : Op → Type) where
  holder : Option τ
  shared : σ
  thread : τ → Option (ι × Method Op Res ο)
  history : List (Event τ ι ο)

/-- No thread is in a call. -/
def Config.init (τ ι ο Op : Type) (Res : Op → Type) {σ : Type} (s : σ) :
    Config τ ι ο σ Op Res :=
  ⟨none, s, fun _ => none, []⟩

section
variable [DecidableEq τ]

/-- The thread goes on with `p`. -/
def Config.goOn (c : Config τ ι ο σ Op Res) (t : τ) (i : ι) (p : Method Op Res ο) :
    Config τ ι ο σ Op Res :=
  { c with thread := Function.update c.thread t (some (i, p)) }

/-- A step of a thread inside its call. -/
inductive Inner (act : (o : Op) → σ → Except ε (Res o × σ)) :
    Config τ ι ο σ Op Res → Config τ ι ο σ Op Res → Prop where
  | access {c : Config τ ι ο σ Op Res} {t : τ} {i : ι} {o : Op}
      {k : Res o → Method Op Res ο} {r : Res o} {s : σ} :
      c.thread t = some (i, .op (.access o) k) → act o c.shared = .ok (r, s) →
      Inner act c ({ c with shared := s }.goOn t i (k r))
  | acquire {c : Config τ ι ο σ Op Res} {t : τ} {i : ι} {k : Unit → Method Op Res ο} :
      c.thread t = some (i, .op .acquire k) → c.holder = none →
      Inner act c ({ c with holder := some t }.goOn t i (k ()))
  | release {c : Config τ ι ο σ Op Res} {t : τ} {i : ι} {k : Unit → Method Op Res ο} :
      c.thread t = some (i, .op .release k) → c.holder = some t →
      Inner act c ({ c with holder := none }.goOn t i (k ()))
  | ret {c : Config τ ι ο σ Op Res} {t : τ} {i : ι} {o : ο} :
      c.thread t = some (i, .ret o) →
      Inner act c { c with
        thread := Function.update c.thread t none
        history := c.history ++ [.ret t o] }

inductive Step (act : (o : Op) → σ → Except ε (Res o × σ)) (method : ι → Method Op Res ο) :
    Config τ ι ο σ Op Res → Config τ ι ο σ Op Res → Prop where
  | call {c : Config τ ι ο σ Op Res} {t : τ} (i : ι) : c.thread t = none →
      Step act method c { c with
        thread := Function.update c.thread t (some (i, method i))
        history := c.history ++ [.call t i] }
  | inner {c c' : Config τ ι ο σ Op Res} : Inner act c c' → Step act method c c'

end

/-! ## The discipline -/

/-- Methods of the bracketed form, with `spec` as their sequential
meaning. `Stable` is what every access keeps, and all that the answer of
a check depends on. -/
structure Guarded (act : (o : Op) → σ → Except ε (Res o × σ)) (method : ι → Method Op Res ο)
    (Check : Op → Prop) (Stable : σ → Prop) (spec : σ → ι → ο × σ) : Prop where
  stable : ∀ o s r s', Stable s → act o s = .ok (r, s') → Stable s'
  check : ∀ o, Check o → ∃ r, ∀ s, Stable s → act o s = .ok (r, s)
  bracketed : ∀ i, ∃ n, Bracketed Check .before n (method i)
  meaning : ∀ i s, Stable s → (method i).exec (seqAct act) s = .ok (spec s i)

/-- A thread and the atomic object at the same point of its call. Before
the critical section the call has not taken effect, and whatever the
state will be, what is left of the method does it all; inside, the call
has taken effect, and what is left leads to the atomic object's result
and state. -/
inductive Follows (act : (o : Op) → σ → Except ε (Res o × σ)) (Check : Op → Prop)
    (Stable : σ → Prop) (spec : σ → ι → ο × σ) (shared state : σ) (holds : Prop) :
    Option (ι × Method Op Res ο) → Phase ι ο → Prop where
  | idle : ¬ holds → Follows act Check Stable spec shared state holds none .idle
  | before {i : ι} {n : Nat} {p : Method Op Res ο} : ¬ holds → Bracketed Check .before n p →
      (∀ s, Stable s → p.exec (seqAct act) s = .ok (spec s i)) →
      Follows act Check Stable spec shared state holds (some (i, p)) (.called i)
  | inside {i : ι} {n : Nat} {p : Method Op Res ο} {o : ο} : holds →
      Bracketed Check .inside n p →
      p.exec (seqAct act) shared = .ok (o, state) →
      Follows act Check Stable spec shared state holds (some (i, p)) (.done o)
  | after {i : ι} (o : ο) : ¬ holds →
      Follows act Check Stable spec shared state holds (some (i, .ret o)) (.done o)

/-- The simulation: while the mutex is free the two states are equal. -/
structure Sim (act : (o : Op) → σ → Except ε (Res o × σ)) (Check : Op → Prop)
    (Stable : σ → Prop) (spec : σ → ι → ο × σ) (c : Config τ ι ο σ Op Res)
    (a : Atomic τ ι ο σ) : Prop where
  history : c.history = a.history
  shared : Stable c.shared
  state : Stable a.state
  free : c.holder = none → a.state = c.shared
  threads : ∀ t, Follows act Check Stable spec c.shared a.state (c.holder = some t)
    (c.thread t) (a.phase t)

section
variable {act : (o : Op) → σ → Except ε (Res o × σ)} {method : ι → Method Op Res ο}
  {Check : Op → Prop} {Stable : σ → Prop} {spec : σ → ι → ο × σ}

theorem exec_access_ok {o : Op} {k : Res o → Method Op Res ο} {s s' : σ} {r : Res o}
    (h : act o s = .ok (r, s')) :
    Prog.exec (seqAct act) (.op (.access o) k) s = (k r).exec (seqAct act) s' :=
  Prog.exec_op_ok h

theorem exec_access_error {o : Op} {k : Res o → Method Op Res ο} {s : σ} {e : ε}
    (h : act o s = .error e) :
    Prog.exec (seqAct act) (.op (.access o) k) s = .error e :=
  Prog.exec_op_error h

theorem exec_access_bind {o : Op} (k : Res o → Method Op Res ο) (s : σ) :
    (access o >>= k).exec (seqAct act) s =
      match act o s with
      | .error e => .error e
      | .ok (r, s') => (k r).exec (seqAct act) s' := by
  cases h : act o s with
  | error e => exact exec_access_error h
  | ok q => exact exec_access_ok h

/-- Run alone, a locked scope is its body. -/
theorem exec_lockGuard (body : Method Op Res ο) (s : σ) :
    (lockGuard body).exec (seqAct act) s = body.exec (seqAct act) s := by
  have hbody : (lockGuard body).exec (seqAct act) s =
      (body >>= fun r => Prog.op .release fun _ => .ret r).exec (seqAct act) s := rfl
  rw [hbody, Prog.exec_bind]
  cases body.exec (seqAct act) s <;> rfl

/-- Only a thread that holds the mutex depends on the states. -/
theorem Follows.frame {shared shared' state state' : σ} {holds holds' : Prop}
    {x : Option (ι × Method Op Res ο)} {φ : Phase ι ο}
    (h : Follows act Check Stable spec shared state holds x φ) (hn : ¬ holds) (hn' : ¬ holds') :
    Follows act Check Stable spec shared' state' holds' x φ := by
  cases h with
  | idle _ => exact .idle hn'
  | before _ hb hexec => exact .before hn' hb hexec
  | inside hh _ _ => exact absurd hh hn
  | after o _ => exact .after o hn'

theorem exec_stable (hstable : ∀ o s r s', Stable s → act o s = .ok (r, s') → Stable s')
    {p : Method Op Res ο} {s s' : σ} {o : ο} (hs : Stable s)
    (h : p.exec (seqAct act) s = .ok (o, s')) : Stable s' := by
  induction p generalizing s with
  | ret r => cases h; exact hs
  | op o' k ih =>
      cases o' with
      | acquire => exact ih () hs h
      | release => exact ih () hs h
      | access o' =>
          cases hact : act o' s with
          | error e => rw [exec_access_error hact] at h; cases h
          | ok q =>
              obtain ⟨r, s₁⟩ := q
              rw [exec_access_ok hact] at h
              exact ih r (hstable o' s r s₁ hs hact) h

variable [DecidableEq τ] {c c' : Config τ ι ο σ Op Res} {a : Atomic τ ι ο σ} {t : τ} {i : ι}

omit [DecidableEq τ] in
theorem not_holds_of_ne {u : τ} (hh : c.holder = some t) (hu : u ≠ t) :
    ¬ c.holder = some u := by
  rw [hh, Option.some.injEq]
  exact fun hc => hu hc.symm

theorem Guarded.sim_access (hG : Guarded act method Check Stable spec)
    (hS : Sim act Check Stable spec c a) {o : Op} {k : Res o → Method Op Res ο} {r : Res o}
    {s : σ} (ht : c.thread t = some (i, .op (.access o) k)) (hact : act o c.shared = .ok (r, s)) :
    Sim act Check Stable spec ({ c with shared := s }.goOn t i (k r)) a := by
  have hfollows := hS.threads t
  rw [ht] at hfollows
  generalize hφ : a.phase t = φ at hfollows
  cases hfollows with
  | before hn hb hexec =>
      cases hb with
      | check hcheck hk =>
          -- its answer does not depend on when it is made
          obtain ⟨r', hr'⟩ := hG.check o hcheck
          rw [hr' c.shared hS.shared] at hact
          cases hact
          refine ⟨hS.history, hS.shared, hS.state, hS.free,
            update_related_left ?_ fun u _ => hS.threads u⟩
          rw [hφ]
          refine .before hn (hk r) fun s hs => ?_
          rw [← hexec s hs, exec_access_ok (hr' s hs)]
  | inside hh hb hexec =>
      cases hb with
      | access hk =>
          refine ⟨hS.history, hG.stable o _ r s hS.shared hact, hS.state, fun hfree => ?_,
            update_related_left ?_ fun u hu => ?_⟩
          · rw [show c.holder = none from hfree] at hh
            cases hh
          · rw [hφ]
            exact .inside hh (hk r) ((exec_access_ok hact).symm.trans hexec)
          · exact (hS.threads u).frame (not_holds_of_ne hh hu) (not_holds_of_ne hh hu)

/-- **The call takes effect as it acquires the mutex.** -/
theorem Guarded.sim_acquire (hG : Guarded act method Check Stable spec)
    (hS : Sim act Check Stable spec c a) {k : Unit → Method Op Res ο}
    (ht : c.thread t = some (i, .op .acquire k)) (hfree : c.holder = none) :
    ∃ a', ReflTransGen (Linearizable.Step spec) a a' ∧
      Sim act Check Stable spec ({ c with holder := some t }.goOn t i (k ())) a' := by
  have hfollows := hS.threads t
  rw [ht] at hfollows
  generalize hφ : a.phase t = φ at hfollows
  cases hfollows with
  | inside hh _ _ => rw [hfree] at hh; cases hh
  | before hn hb hexec =>
      cases hb with
      | acquire hk =>
          have hstate := hS.free hfree
          have hrest : (k ()).exec (seqAct act) c.shared = .ok (spec c.shared i) :=
            hexec c.shared hS.shared
          have hstable : Stable (spec a.state i).2 := by
            rw [hstate]
            exact exec_stable hG.stable hS.shared hrest
          refine ⟨_, .single (.effect hφ), hS.history, hS.shared, hstable,
            (fun hc => by cases hc), update_related ?_ fun u hu => ?_⟩
          · exact .inside rfl hk (by rw [hstate]; exact hrest)
          · refine (hS.threads u).frame ?_ (not_holds_of_ne rfl hu)
            rw [hfree]
            exact fun hc => by cases hc

theorem Guarded.sim_release (hS : Sim act Check Stable spec c a)
    {k : Unit → Method Op Res ο} (ht : c.thread t = some (i, .op .release k))
    (hheld : c.holder = some t) :
    Sim act Check Stable spec ({ c with holder := none }.goOn t i (k ())) a := by
  have hfollows := hS.threads t
  rw [ht] at hfollows
  generalize hφ : a.phase t = φ at hfollows
  cases hfollows with
  | before hn _ _ => exact absurd hheld hn
  | @inside _ _ _ o hh hb hexec =>
      cases hb with
      | release hk =>
          have hrest : (k ()).exec (seqAct act) c.shared = .ok (o, a.state) := hexec
          generalize k () = p at hk hrest
          cases hk with
          | done r =>
              -- nothing is left but the return, so the states have met
              rw [Prog.exec_ret, Except.ok.injEq, Prod.mk.injEq] at hrest
              obtain ⟨rfl, hshared⟩ := hrest
              refine ⟨hS.history, hS.shared, hS.state, fun _ => hshared.symm,
                update_related_left ?_ fun u hu => ?_⟩
              · rw [hφ]
                exact .after r (fun hc => by cases hc)
              · exact (hS.threads u).frame (not_holds_of_ne hh hu) (fun hc => by cases hc)

theorem Guarded.sim_ret (hS : Sim act Check Stable spec c a) {o : ο}
    (ht : c.thread t = some (i, .ret o)) :
    ∃ a', ReflTransGen (Linearizable.Step spec) a a' ∧
      Sim act Check Stable spec { c with
        thread := Function.update c.thread t none
        history := c.history ++ [.ret t o] } a' := by
  have hfollows := hS.threads t
  rw [ht] at hfollows
  generalize hφ : a.phase t = φ at hfollows
  cases hfollows with
  | before hn hb hexec =>
      -- turned down by a check: the call takes effect as it returns
      have hspec : spec a.state i = (o, a.state) := by
        have hret := hexec a.state hS.state
        rw [Prog.exec_ret, Except.ok.injEq] at hret
        exact hret.symm
      have hdone : Function.update a.phase t (.done (spec a.state i).1) t = .done o := by
        rw [Function.update_self, hspec]
      refine ⟨_, .tail (.single (.effect hφ)) (.ret hdone), ?_, hS.shared, ?_, ?_, ?_⟩
      · simp only [hS.history]
      · simp only [hspec]
        exact hS.state
      · simp only [hspec]
        exact hS.free
      · simp only [hspec, Function.update_idem]
        exact update_related (.idle hn) fun u _ => hS.threads u
  | inside _ hb _ => cases hb
  | after _ hn =>
      refine ⟨_, .single (.ret hφ), ?_, hS.shared, hS.state, hS.free,
        update_related (.idle hn) fun u _ => hS.threads u⟩
      simp only [hS.history]

/-- **One step inside a call**: the atomic object follows. -/
theorem Guarded.sim_inner (hG : Guarded act method Check Stable spec)
    (hS : Sim act Check Stable spec c a) (h : Inner act c c') :
    ∃ a', ReflTransGen (Linearizable.Step spec) a a' ∧ Sim act Check Stable spec c' a' := by
  cases h with
  | access ht hact => exact ⟨a, .refl, hG.sim_access hS ht hact⟩
  | acquire ht hfree => exact hG.sim_acquire hS ht hfree
  | release ht hheld => exact ⟨a, .refl, sim_release hS ht hheld⟩
  | ret ht => exact sim_ret hS ht

theorem Guarded.sim_step (hG : Guarded act method Check Stable spec)
    (hS : Sim act Check Stable spec c a) (h : Step act method c c') :
    ∃ a', ReflTransGen (Linearizable.Step spec) a a' ∧ Sim act Check Stable spec c' a' := by
  cases h with
  | inner hinner => exact hG.sim_inner hS hinner
  | @call t i ht =>
      have hfollows := hS.threads t
      rw [ht] at hfollows
      generalize hφ : a.phase t = φ at hfollows
      cases hfollows with
      | idle hn =>
          obtain ⟨n, hb⟩ := hG.bracketed i
          refine ⟨_, .single (.call i hφ), ?_, hS.shared, hS.state, hS.free,
            update_related (.before hn hb (hG.meaning i)) fun u _ => hS.threads u⟩
          simp only [hS.history]

omit [DecidableEq τ] in
theorem sim_init {s : σ} (hs : Stable s) :
    Sim act Check Stable spec (Config.init τ ι ο Op Res s) (Atomic.init τ ι ο s) :=
  ⟨rfl, hs, hs, fun _ => rfl, fun _ => .idle fun hc => by cases hc⟩

/-- Every run of the threads is one of the atomic object. -/
theorem Guarded.exists_sim (hG : Guarded act method Check Stable spec) {s : σ} (hs : Stable s)
    (hrun : ReflTransGen (Step act method) (Config.init τ ι ο Op Res s) c) :
    ∃ a, Reached spec s a ∧ Sim act Check Stable spec c a ∧ a.history = c.history := by
  have hhist : ∀ (c : Config τ ι ο σ Op Res) a, Sim act Check Stable spec c a →
      c.history = a.history := fun _ _ hS => hS.history
  exact of_simulation hhist (fun c c' a hstep hS => hG.sim_step hS hstep) (sim_init hs) hrun

/-- **Methods under one mutex are atomic.** -/
theorem Guarded.linearizable (hG : Guarded act method Check Stable spec) {s : σ} (hs : Stable s)
    (hrun : ReflTransGen (Step act method) (Config.init τ ι ο Op Res s) c) :
    Linearizable spec s c.history := by
  obtain ⟨a, ha, -, hhist⟩ := hG.exists_sim hs hrun
  exact ⟨a, ha, hhist⟩

/-! ## No two threads at once -/

omit [DecidableEq τ] in
/-- **Mutual exclusion**: a thread at an access holds the mutex, unless
the access is a check. -/
theorem Sim.holds_or_check (hS : Sim act Check Stable spec c a) {o : Op}
    {k : Res o → Method Op Res ο} (ht : c.thread t = some (i, .op (.access o) k)) :
    c.holder = some t ∨ Check o := by
  have hfollows := hS.threads t
  rw [ht] at hfollows
  generalize a.phase t = φ at hfollows
  cases hfollows with
  | before _ hb _ =>
      cases hb with
      | check hcheck _ => exact .inr hcheck
  | inside hh _ _ => exact .inl hh

/-! ## Progress -/

/-- While any thread is in a call, some thread can go on. -/
theorem Guarded.exists_inner (hG : Guarded act method Check Stable spec)
    (hS : Sim act Check Stable spec c a) (hbusy : c.thread t ≠ none) :
    ∃ c', Inner act c c' := by
  cases hholder : c.holder with
  | none =>
      have hfollows := hS.threads t
      generalize hx : c.thread t = x at hfollows hbusy
      generalize a.phase t = φ at hfollows
      cases hfollows with
      | idle _ => exact absurd rfl hbusy
      | before _ hb _ =>
          cases hb with
          | early r => exact ⟨_, .ret hx⟩
          | check hcheck _ =>
              obtain ⟨r, hr⟩ := hG.check _ hcheck
              exact ⟨_, .access hx (hr c.shared hS.shared)⟩
          | acquire _ => exact ⟨_, .acquire hx hholder⟩
      | inside hh _ _ => rw [hholder] at hh; cases hh
      | after o _ => exact ⟨_, .ret hx⟩
  | some u =>
      -- the others may have to wait, but the holder never does
      have hfollows := hS.threads u
      generalize hx : c.thread u = x at hfollows
      generalize a.phase u = φ at hfollows
      cases hfollows with
      | idle hn => exact absurd hholder hn
      | before hn _ _ => exact absurd hholder hn
      | after o hn => exact absurd hholder hn
      | inside _ hb hexec =>
          cases hb with
          | release _ => exact ⟨_, .release hx hholder⟩
          | @access _ o k _ =>
              cases hact : act o c.shared with
              | error e => rw [exec_access_error hact] at hexec; cases hexec
              | ok q => exact ⟨_, .access hx hact⟩

/-- How many steps a thread has left at most. -/
inductive Leaves : Nat → Option (ι × Method Op Res ο) → Prop where
  | idle : Leaves 0 none
  | running {n : Nat} {i : ι} {p : Method Op Res ο} : Within n p → Leaves (n + 1) (some (i, p))

theorem Leaves.next {m : Nat} {o : Sync Op} {k : Sync.Res Res o → Method Op Res ο}
    (h : Leaves m (some (i, .op o k))) : ∃ m' < m, ∀ r, Leaves m' (some (i, k r)) := by
  cases h with
  | running hw =>
      cases hw with
      | @op n _ _ hk => exact ⟨n + 1, by omega, fun r => .running (hk r)⟩

/-- A step takes one of the steps its thread has left. -/
theorem Leaves.inner {n : τ → Nat} (hn : ∀ t, Leaves (n t) (c.thread t)) (h : Inner act c c') :
    ∃ t, ∃ m < n t, ∀ u, Leaves (Function.update n t m u) (c'.thread u) := by
  cases h with
  | @access t i o k r s ht hact =>
      obtain ⟨m, hm, hk⟩ := Leaves.next (ht ▸ hn t)
      exact ⟨t, m, hm, update_related (hk r) fun u _ => hn u⟩
  | @acquire t i k ht hfree =>
      obtain ⟨m, hm, hk⟩ := Leaves.next (ht ▸ hn t)
      exact ⟨t, m, hm, update_related (hk ()) fun u _ => hn u⟩
  | @release t i k ht hheld =>
      obtain ⟨m, hm, hk⟩ := Leaves.next (ht ▸ hn t)
      exact ⟨t, m, hm, update_related (hk ()) fun u _ => hn u⟩
  | @ret t i o ht =>
      have hpos : 0 < n t := by
        have hleaves := hn t
        rw [ht] at hleaves
        generalize n t = m at hleaves
        cases hleaves with
        | running _ => omega
      exact ⟨t, 0, hpos, update_related .idle fun u _ => hn u⟩

theorem Guarded.exists_leaves (hG : Guarded act method Check Stable spec) {s : σ}
    (hrun : ReflTransGen (Step act method) (Config.init τ ι ο Op Res s) c) :
    ∃ n : τ → Nat, ∀ t, Leaves (n t) (c.thread t) := by
  induction hrun with
  | refl => exact ⟨fun _ => 0, fun _ => .idle⟩
  | tail _ hlast ih =>
      obtain ⟨n, hn⟩ := ih
      cases hlast with
      | call i ht =>
          obtain ⟨m, hm⟩ := hG.bracketed i
          exact ⟨_, update_related (.running hm.within) fun u _ => hn u⟩
      | inner hinner =>
          obtain ⟨t, m, -, hm⟩ := Leaves.inner hn hinner
          exact ⟨_, hm⟩

/-- **Every call returns.** Whatever the schedule, once no new calls are
made all threads come back to idle, and until then some thread can
step. -/
theorem Guarded.eventually_idle [Fintype τ] (hG : Guarded act method Check Stable spec)
    (hS : Sim act Check Stable spec c a) {n : τ → Nat}
    (hn : ∀ t, Leaves (n t) (c.thread t)) :
    Eventually (Inner act) (fun c' => ∀ t, c'.thread t = none) c := by
  -- on the number of steps all threads have left together
  generalize hN : ∑ t, n t = N
  induction N using Nat.strong_induction_on generalizing c a n with
  | _ N ih =>
      by_cases hidle : ∀ t, c.thread t = none
      · exact .now hidle
      · rw [not_forall] at hidle
        obtain ⟨t, ht⟩ := hidle
        refine .later (hG.exists_inner hS ht) fun c' hstep => ?_
        obtain ⟨a', -, hS'⟩ := hG.sim_inner hS hstep
        obtain ⟨u, m, hm, hn'⟩ := Leaves.inner hn hstep
        exact ih _ (hN ▸ sum_update_lt hm) hS' hn' rfl

end

end Monitor
