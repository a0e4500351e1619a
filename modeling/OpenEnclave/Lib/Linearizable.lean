import OpenEnclave.Lib.Family
import OpenEnclave.Lib.Mealy
import Mathlib.Data.List.Nodup
import Mathlib.Data.List.Perm.Subperm
import Mathlib.Logic.Function.Basic
import Mathlib.Tactic.Common

/-!
# Linearizable — concurrent histories against a sequential machine

What callers see of a shared object is a history of calls and returns.
The atomic object of a machine is the one in which a call takes effect
at one instant, at some point between its call and its return; a history
is linearizable if the atomic object has it as well. The instants give
the sequential order: it is a run of the machine (`Reached.run`), it
contains every returned result once (`Reached.returns_subperm`), and a
call that has returned comes before every call made later, since the
order only grows at its end.

`of_simulation` is the rule by which a concurrent system is shown
linearizable, `Linearizable.view` composes it with a refinement of the
sequential machine.
-/

namespace Linearizable

open Relation

/-- What is seen of an object from outside: caller `t` calls, or is given
a result. -/
inductive Event (τ ι ο : Type) where
  | call (t : τ) (i : ι)
  | ret (t : τ) (o : ο)

/-- The event with its result as `view` shows it. -/
def Event.map {τ ι ο ω : Type} (view : ο → ω) : Event τ ι ο → Event τ ι ω
  | .call t i => .call t i
  | .ret t o => .ret t (view o)

/-- The calls made, in their order. -/
def calls {τ ι ο : Type} (h : List (Event τ ι ο)) : List (τ × ι) :=
  h.filterMap fun
    | .call t i => some (t, i)
    | .ret _ _ => none

/-- The results given to callers, in the order of the returns. -/
def returns {τ ι ο : Type} (h : List (Event τ ι ο)) : List (τ × ο) :=
  h.filterMap fun
    | .call _ _ => none
    | .ret t o => some (t, o)

/-! ## The atomic object -/

/-- How far a caller's call has come. -/
inductive Phase (ι ο : Type) where
  | idle
  | called (i : ι)
  | done (o : ο)

structure Atomic (τ ι ο σ : Type) where
  phase : τ → Phase ι ο
  state : σ
  /-- The calls that have taken effect, with their results. -/
  order : List (τ × ι × ο)
  history : List (Event τ ι ο)

def Atomic.init (τ ι ο : Type) {σ : Type} (s : σ) : Atomic τ ι ο σ :=
  ⟨fun _ => .idle, s, [], []⟩

variable {τ ι ο σ ω : Type} [DecidableEq τ]

inductive Step (spec : σ → ι → ο × σ) : Atomic τ ι ο σ → Atomic τ ι ο σ → Prop where
  | call {a : Atomic τ ι ο σ} {t : τ} (i : ι) : a.phase t = .idle →
      Step spec a { a with
        phase := Function.update a.phase t (.called i)
        history := a.history ++ [.call t i] }
  /-- The call takes effect. -/
  | effect {a : Atomic τ ι ο σ} {t : τ} {i : ι} : a.phase t = .called i →
      Step spec a { a with
        phase := Function.update a.phase t (.done (spec a.state i).1)
        state := (spec a.state i).2
        order := a.order ++ [(t, i, (spec a.state i).1)] }
  | ret {a : Atomic τ ι ο σ} {t : τ} {o : ο} : a.phase t = .done o →
      Step spec a { a with
        phase := Function.update a.phase t .idle
        history := a.history ++ [.ret t o] }

/-- The states of the atomic object that starts from `s`. -/
def Reached (spec : σ → ι → ο × σ) (s : σ) (a : Atomic τ ι ο σ) : Prop :=
  ReflTransGen (Step spec) (Atomic.init τ ι ο s) a

end Linearizable

open Linearizable in
/-- **Linearizability**: the atomic object has the history too. -/
def Linearizable {τ ι ο σ : Type} [DecidableEq τ] (spec : σ → ι → ο × σ) (s : σ)
    (h : List (Event τ ι ο)) : Prop :=
  ∃ a : Atomic τ ι ο σ, Reached spec s a ∧ a.history = h

namespace Linearizable

open Relation Family

variable {τ ι ο σ ω : Type} [DecidableEq τ]

/-- **Simulation rule**: a system each of whose steps the atomic object
can follow, with the same history, is linearizable. -/
theorem of_simulation {spec : σ → ι → ο × σ} {s : σ} {κ : Type} {step : κ → κ → Prop}
    {history : κ → List (Event τ ι ο)} {R : κ → Atomic τ ι ο σ → Prop}
    (hhist : ∀ c a, R c a → history c = a.history)
    (hstep : ∀ c c' a, step c c' → R c a → ∃ a', ReflTransGen (Step spec) a a' ∧ R c' a')
    {c₀ c : κ} (hinit : R c₀ (Atomic.init τ ι ο s)) (hrun : ReflTransGen step c₀ c) :
    ∃ a, Reached spec s a ∧ R c a ∧ a.history = history c := by
  have hfollow : ∃ a, Reached spec s a ∧ R c a := by
    induction hrun with
    | refl => exact ⟨_, .refl, hinit⟩
    | tail _ hlast ih =>
        obtain ⟨a, ha, hR⟩ := ih
        obtain ⟨a', hsteps, hR'⟩ := hstep _ _ _ hlast hR
        exact ⟨a', ha.trans hsteps, hR'⟩
  obtain ⟨a, ha, hR⟩ := hfollow
  exact ⟨a, ha, hR, (hhist c a hR).symm⟩

/-! ## The sequential order -/

/-- **The order is a run of the machine.** -/
theorem Reached.run {spec : σ → ι → ο × σ} {s : σ} {a : Atomic τ ι ο σ}
    (h : Reached spec s a) :
    Mealy.run spec s (a.order.map (·.2.1)) = (a.order.map (·.2.2), a.state) := by
  induction h with
  | refl => rfl
  | tail _ hlast ih =>
      cases hlast with
      | call i hidle => exact ih
      | effect hcalled =>
          simp only [List.map_append, List.map_cons, List.map_nil]
          rw [Mealy.run_append, ih]
          rfl
      | ret hdone => exact ih

/-- `l` lists the callers for which `P` holds of some value, each of them
once. -/
structure Tracks {α : Type} (P : τ → α → Prop) (l : List (τ × α)) : Prop where
  mem : ∀ t x, (t, x) ∈ l ↔ P t x
  nodup : (l.map Prod.fst).Nodup

omit [DecidableEq τ] in
theorem Tracks.congr {α : Type} {P Q : τ → α → Prop} {l : List (τ × α)} (h : Tracks P l)
    (hPQ : ∀ t x, P t x ↔ Q t x) : Tracks Q l :=
  ⟨fun t x => (h.mem t x).trans (hPQ t x), h.nodup⟩

omit [DecidableEq τ] in
theorem Tracks.add {α : Type} {P Q : τ → α → Prop} {l : List (τ × α)} {t : τ} {x : α}
    (h : Tracks P l) (hnot : ∀ y, ¬ P t y) (hQ : ∀ u y, Q u y ↔ P u y ∨ (u = t ∧ y = x)) :
    Tracks Q (l ++ [(t, x)]) := by
  refine ⟨fun u y => ?_, ?_⟩
  · rw [hQ, List.mem_append, h.mem, List.mem_singleton, Prod.mk.injEq]
  · rw [List.map_append, List.nodup_append]
    refine ⟨h.nodup, by simp, ?_⟩
    intro u hu v hv huv
    rw [List.map_cons, List.map_nil, List.mem_singleton] at hv
    subst hv huv
    obtain ⟨⟨_, y⟩, hy, rfl⟩ := List.mem_map.mp hu
    exact hnot y ((h.mem _ y).mp hy)

omit [DecidableEq τ] in
theorem Tracks.remove {α : Type} {P Q : τ → α → Prop} {l : List (τ × α)} {t : τ} {x : α}
    (h : Tracks P l) (hx : P t x) (hQ : ∀ u y, Q u y ↔ u ≠ t ∧ P u y) :
    ∃ l', Tracks Q l' ∧ l.Perm ((t, x) :: l') := by
  obtain ⟨before, after, rfl⟩ := List.append_of_mem ((h.mem t x).mpr hx)
  have hnodup : (t :: (before ++ after).map Prod.fst).Nodup := by
    have hmap := h.nodup
    rw [List.map_append, List.map_cons, List.nodup_middle] at hmap
    rwa [List.map_append]
  refine ⟨before ++ after, ⟨fun u y => ?_, hnodup.of_cons⟩, List.perm_middle⟩
  rw [hQ, ← h.mem]
  constructor
  · intro hu
    refine ⟨?_, List.perm_middle.mem_iff.mpr (List.mem_cons_of_mem _ hu)⟩
    rintro rfl
    exact hnodup.notMem (List.mem_map.mpr ⟨_, hu, rfl⟩)
  · intro hu
    rcases List.mem_cons.mp (List.perm_middle.mem_iff.mp hu.2) with hut | hu'
    · rw [Prod.mk.injEq] at hut
      exact absurd hut.1 hu.1
    · exact hu'

/-- The calls that wait for their effect and the results that wait for
their return, with the order between them. -/
structure Pending (a : Atomic τ ι ο σ) (called : List (τ × ι)) (done : List (τ × ο)) : Prop where
  isCalled : Tracks (fun t i => a.phase t = .called i) called
  isDone : Tracks (fun t o => a.phase t = .done o) done
  effects : (calls a.history).Perm (called ++ a.order.map fun x => (x.1, x.2.1))
  results : (returns a.history ++ done).Perm (a.order.map fun x => (x.1, x.2.2))

omit [DecidableEq τ] in
theorem calls_append (h h' : List (Event τ ι ο)) : calls (h ++ h') = calls h ++ calls h' :=
  List.filterMap_append

omit [DecidableEq τ] in
theorem returns_append (h h' : List (Event τ ι ο)) :
    returns (h ++ h') = returns h ++ returns h' :=
  List.filterMap_append

theorem Pending.step {spec : σ → ι → ο × σ} {a a' : Atomic τ ι ο σ} {called : List (τ × ι)}
    {done : List (τ × ο)} (hp : Pending a called done) (h : Step spec a a') :
    ∃ called' done', Pending a' called' done' := by
  cases h with
  | @call t i hidle =>
      refine ⟨called ++ [(t, i)], done, ?_, ?_, ?_, ?_⟩
      · refine hp.isCalled.add (by simp [hidle]) fun u j => ?_
        by_cases hu : u = t
        · subst hu
          simp [hidle, eq_comm]
        · simp [hu]
      · refine hp.isDone.congr fun u o => ?_
        by_cases hu : u = t
        · subst hu
          simp [hidle]
        · simp [hu]
      · rw [calls_append, List.append_assoc]
        refine (hp.effects.append_right _).trans ?_
        rw [List.append_assoc]
        exact List.perm_append_comm.append_left _
      · rw [returns_append]
        simpa [returns] using hp.results
  | @effect t i hcalled =>
      obtain ⟨called', htracks, hperm⟩ := hp.isCalled.remove hcalled (Q := fun u j =>
        Function.update a.phase t (.done (spec a.state i).1) u = .called j) fun u j => by
          by_cases hu : u = t
          · subst hu
            simp
          · simp [hu]
      refine ⟨called', done ++ [(t, (spec a.state i).1)], htracks, ?_, ?_, ?_⟩
      · refine hp.isDone.add (by simp [hcalled]) fun u o => ?_
        by_cases hu : u = t
        · subst hu
          simp [hcalled, eq_comm]
        · simp [hu]
      · -- the call moves from those waiting into the order
        refine hp.effects.trans ((hperm.append_right _).trans ?_)
        rw [List.map_append, ← List.append_assoc]
        exact (List.perm_append_singleton (t, i) _).symm
      · rw [List.map_append, ← List.append_assoc]
        exact hp.results.append_right _
  | @ret t o hdone =>
      obtain ⟨done', htracks, hperm⟩ := hp.isDone.remove hdone (Q := fun u o' =>
        Function.update a.phase t .idle u = .done o') fun u o' => by
          by_cases hu : u = t
          · subst hu
            simp
          · simp [hu]
      refine ⟨called, done', ?_, htracks, ?_, ?_⟩
      · refine hp.isCalled.congr fun u j => ?_
        by_cases hu : u = t
        · subst hu
          simp [hdone]
        · simp [hu]
      · rw [calls_append]
        simpa [calls] using hp.effects
      · -- the result moves from those waiting to those returned
        refine List.Perm.trans ?_ hp.results
        have hret : returns [(.ret t o : Event τ ι ο)] = [(t, o)] := rfl
        rw [returns_append, List.append_assoc, hret, List.singleton_append]
        exact hperm.symm.append_left _

theorem Reached.pending {spec : σ → ι → ο × σ} {s : σ} {a : Atomic τ ι ο σ}
    (h : Reached spec s a) : ∃ called done, Pending a called done := by
  induction h with
  | refl =>
      exact ⟨[], [], ⟨by simp [Atomic.init], by simp⟩, ⟨by simp [Atomic.init], by simp⟩,
        by simp [Atomic.init, calls], by simp [Atomic.init, returns]⟩
  | tail _ hlast ih =>
      obtain ⟨called, done, hp⟩ := ih
      exact hp.step hlast

/-- **Every call takes effect at most once.** -/
theorem Reached.order_subperm {spec : σ → ι → ο × σ} {s : σ} {a : Atomic τ ι ο σ}
    (h : Reached spec s a) :
    (a.order.map fun x => (x.1, x.2.1)).Subperm (calls a.history) := by
  obtain ⟨called, done, hp⟩ := h.pending
  exact (List.sublist_append_right _ _).subperm.trans hp.effects.symm.subperm

/-- **Every returned result is one of the order's**, and none is returned
twice. -/
theorem Reached.returns_subperm {spec : σ → ι → ο × σ} {s : σ} {a : Atomic τ ι ο σ}
    (h : Reached spec s a) :
    (returns a.history).Subperm (a.order.map fun x => (x.1, x.2.2)) := by
  obtain ⟨called, done, hp⟩ := h.pending
  exact (List.sublist_append_left _ _).subperm.trans hp.results.subperm

/-! ## Refining the machine -/

/-- A caller whose call has not yet taken effect has made it. -/
theorem Reached.called_mem {spec : σ → ι → ο × σ} {s : σ} {a : Atomic τ ι ο σ}
    (h : Reached spec s a) : ∀ t i, a.phase t = .called i → .call t i ∈ a.history := by
  induction h with
  | refl => exact fun t i hc => by cases hc
  | tail _ hlast ih =>
      intro u j hu
      cases hlast with
      | call i hidle =>
          rcases update_cases hu with ⟨rfl, hi⟩ | ⟨-, hu⟩
          · cases hi
            simp
          · exact List.mem_append_left _ (ih u j hu)
      | effect hcalled =>
          rcases update_cases hu with ⟨-, ho⟩ | ⟨-, hu⟩
          · cases ho
          · exact ih u j hu
      | ret hdone =>
          rcases update_cases hu with ⟨-, hi⟩ | ⟨-, hu⟩
          · cases hi
          · exact List.mem_append_left _ (ih u j hu)

def Phase.map (view : ο → ω) : Phase ι ο → Phase ι ω
  | .idle => .idle
  | .called i => .called i
  | .done o => .done (view o)

omit [DecidableEq τ] in
/-- Two atomic objects at the same point of the same calls. -/
structure Views {ρ : Type} (R : σ → ρ → Prop) (view : ο → ω) (a : Atomic τ ι ο σ)
    (b : Atomic τ ι ω ρ) : Prop where
  phase : ∀ t, b.phase t = (a.phase t).map view
  state : R a.state b.state
  history : b.history = a.history.map (Event.map view)

theorem views_update {view : ο → ω} {f : τ → Phase ι ο} {g : τ → Phase ι ω}
    (h : ∀ t, g t = (f t).map view) (t : τ) (p : Phase ι ο) (u : τ) :
    Function.update g t (p.map view) u = (Function.update f t p u).map view := by
  by_cases hu : u = t
  · subst hu
    simp
  · rw [Function.update_of_ne hu, Function.update_of_ne hu, h]

/-- **Composition**: if one machine simulates another step by step, the
histories of the first, seen through the view, are linearizable for the
second. -/
theorem view {ρ : Type} {spec : σ → ι → ο × σ} {spec' : ρ → ι → ω × ρ} {Adm : ι → Prop}
    {R : σ → ρ → Prop} {view : ο → ω}
    (hstep : ∀ s r i, Adm i → R s r →
      view (spec s i).1 = (spec' r i).1 ∧ R (spec s i).2 (spec' r i).2)
    {s : σ} {r : ρ} (hR : R s r) {h : List (Event τ ι ο)}
    (hadm : ∀ t i, .call t i ∈ h → Adm i) (hlin : Linearizable spec s h) :
    Linearizable spec' r (h.map (Event.map view)) := by
  obtain ⟨a, ha, rfl⟩ := hlin
  -- along the run of the first object, as long as its calls are admitted
  have hfollow : ∀ a : Atomic τ ι ο σ, Reached spec s a →
      (∀ t i, .call t i ∈ a.history → Adm i) →
      ∃ b, Reached spec' r b ∧ Views R view a b := by
    clear hadm ha a
    intro a ha hadm
    induction ha with
    | refl => exact ⟨Atomic.init τ ι ω r, .refl, fun t => rfl, hR, rfl⟩
    | @tail a a' hrun hlast ih =>
        cases hlast with
        | @call t i hidle =>
            obtain ⟨b, hb, hv⟩ := ih fun u j hj => hadm u j (List.mem_append_left _ hj)
            have hidle' : b.phase t = .idle := by rw [hv.phase, hidle]; rfl
            exact ⟨_, hb.tail (.call i hidle'), views_update hv.phase t (.called i), hv.state,
              by simp [hv.history, Event.map]⟩
        | @effect t i hcalled =>
            obtain ⟨b, hb, hv⟩ := ih hadm
            have hcalled' : b.phase t = .called i := by rw [hv.phase, hcalled]; rfl
            obtain ⟨hout, hR'⟩ := hstep a.state b.state i
              (hadm t i (Reached.called_mem hrun t i hcalled)) hv.state
            refine ⟨_, hb.tail (.effect hcalled'), fun u => ?_, hR', hv.history⟩
            rw [← hout]
            exact views_update hv.phase t (.done (spec a.state i).1) u
        | @ret t o hdone =>
            obtain ⟨b, hb, hv⟩ := ih fun u j hj => hadm u j (List.mem_append_left _ hj)
            have hdone' : b.phase t = .done (view o) := by rw [hv.phase, hdone]; rfl
            exact ⟨_, hb.tail (.ret hdone'), views_update hv.phase t .idle, hv.state,
              by simp [hv.history, Event.map]⟩
  obtain ⟨b, hb, hv⟩ := hfollow a ha hadm
  exact ⟨b, hb, hv.history⟩

end Linearizable
