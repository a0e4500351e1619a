import Mathlib.Logic.Relation

/-!
# Effect — programs over operations on a world

Imperative code whose steps touch shared state is a tree: it returns, or
performs an operation and continues with the operation's result. The
tree can be run to its end (`exec`), or one operation at a time
(`Step`), which is the granularity at which something else can
interfere. `exec_ok_iff` says that the two agree: a program ends
normally in a world exactly if its steps lead there. `observe` is what
somebody who sees the operations, or a part of them, sees of a run.
-/

namespace Effect

/-- Programs over the operations `Op`, where `o` answers with a
`Res o`. -/
inductive Prog (Op : Type) (Res : Op → Type) (α : Type) : Type where
  | ret (a : α)
  | op (o : Op) (k : Res o → Prog Op Res α)

namespace Prog

variable {Op : Type} {Res : Op → Type} {α β σ ε : Type}

def bind : Prog Op Res α → (α → Prog Op Res β) → Prog Op Res β
  | .ret a, f => f a
  | .op o k, f => .op o fun r => (k r).bind f

instance : Monad (Prog Op Res) where
  pure := .ret
  bind := Prog.bind

/-- The program that performs one operation. -/
def perform (o : Op) : Prog Op Res (Res o) := .op o .ret

@[simp] theorem pure_eq (a : α) : (pure a : Prog Op Res α) = .ret a := rfl

@[simp] theorem ret_bind (a : α) (f : α → Prog Op Res β) : (ret a >>= f) = f a := rfl

@[simp] theorem op_bind (o : Op) (k : Res o → Prog Op Res α) (f : α → Prog Op Res β) :
    (op o k >>= f) = op o fun r => k r >>= f := rfl

@[simp] theorem perform_bind (o : Op) (f : Res o → Prog Op Res α) :
    (perform o >>= f) = op o f := rfl

/-! ## Running a program -/

/-- Run to the end; `act` is what an operation does to the world, or the
fault it ends in. -/
def exec (act : (o : Op) → σ → Except ε (Res o × σ)) :
    Prog Op Res α → σ → Except ε (α × σ)
  | .ret a, s => .ok (a, s)
  | .op o k, s =>
    match act o s with
    | .error e => .error e
    | .ok (r, s') => exec act (k r) s'

variable {act : (o : Op) → σ → Except ε (Res o × σ)}

@[simp] theorem exec_ret (a : α) (s : σ) : exec act (ret a : Prog Op Res α) s = .ok (a, s) :=
  rfl

theorem exec_op_ok {o : Op} {k : Res o → Prog Op Res α} {s s' : σ} {r : Res o}
    (h : act o s = .ok (r, s')) : exec act (op o k) s = exec act (k r) s' := by
  simp [exec, h]

theorem exec_op_error {o : Op} {k : Res o → Prog Op Res α} {s : σ} {e : ε}
    (h : act o s = .error e) : exec act (op o k) s = .error e := by
  simp [exec, h]

theorem exec_bind (p : Prog Op Res α) (f : α → Prog Op Res β) (s : σ) :
    exec act (p >>= f) s =
      match exec act p s with
      | .error e => .error e
      | .ok (a, s') => exec act (f a) s' := by
  induction p generalizing s with
  | ret a => rfl
  | op o k ih =>
      rw [op_bind]
      cases h : act o s with
      | error e => rw [exec_op_error h, exec_op_error h]
      | ok p =>
          obtain ⟨r, s'⟩ := p
          rw [exec_op_ok h, exec_op_ok h, ih]

/-! ## What can be seen of a run -/

/-- The operations performed, of which an observer has the `view`. -/
def observe {ω : Type} (act : (o : Op) → σ → Except ε (Res o × σ)) (view : Op → ω) :
    Prog Op Res α → σ → List ω
  | .ret _, _ => []
  | .op o k, s => view o ::
    match act o s with
    | .error _ => []
    | .ok (r, s') => observe act view (k r) s'

theorem observe_op_ok {ω : Type} {view : Op → ω} {o : Op} {k : Res o → Prog Op Res α} {s s' : σ}
    {r : Res o} (h : act o s = .ok (r, s')) :
    observe act view (op o k) s = view o :: observe act view (k r) s' := by
  simp [observe, h]

theorem observe_bind {ω : Type} {view : Op → ω} {p : Prog Op Res α} (f : α → Prog Op Res β)
    {s s' : σ} {a : α} (h : exec act p s = .ok (a, s')) :
    observe act view (p >>= f) s = observe act view p s ++ observe act view (f a) s' := by
  induction p generalizing s with
  | ret b =>
      rw [exec_ret, Except.ok.injEq, Prod.mk.injEq] at h
      obtain ⟨rfl, rfl⟩ := h
      rfl
  | op o k ih =>
      cases ho : act o s with
      | error e => rw [exec_op_error ho] at h; cases h
      | ok q =>
          obtain ⟨r, s₁⟩ := q
          rw [exec_op_ok ho] at h
          rw [op_bind, observe_op_ok ho, observe_op_ok ho, ih r h, List.cons_append]

/-! ## One operation at a time -/

/-- One operation of the program, performed on the world. -/
inductive Step (act : (o : Op) → σ → Except ε (Res o × σ)) :
    Prog Op Res α × σ → Prog Op Res α × σ → Prop where
  | op {o : Op} {k : Res o → Prog Op Res α} {s s' : σ} {r : Res o} :
      act o s = .ok (r, s') → Step act (.op o k, s) (k r, s')

/-- **The two ways of running agree.** -/
theorem exec_ok_iff {p : Prog Op Res α} {s s' : σ} {a : α} :
    exec act p s = .ok (a, s') ↔ Relation.ReflTransGen (Step act) (p, s) (.ret a, s') := by
  constructor
  · intro h
    induction p generalizing s with
    | ret b =>
        rw [exec_ret, Except.ok.injEq, Prod.mk.injEq] at h
        obtain ⟨rfl, rfl⟩ := h
        exact .refl
    | op o k ih =>
        cases ho : act o s with
        | error e => rw [exec_op_error ho] at h; cases h
        | ok q =>
            obtain ⟨r, s₁⟩ := q
            rw [exec_op_ok ho] at h
            exact .head (.op ho) (ih r h)
  · intro h
    generalize hx : (p, s) = x at h
    induction h using Relation.ReflTransGen.head_induction_on generalizing p s with
    | refl => cases hx; rfl
    | head hstep _ ih =>
        subst hx
        cases hstep with
        | op ho => rw [exec_op_ok ho]; exact ih rfl

/-- A program faults exactly if its steps lead to an operation that
does. -/
theorem exec_error_iff {p : Prog Op Res α} {s : σ} {e : ε} :
    exec act p s = .error e ↔
      ∃ (o : Op) (k : Res o → Prog Op Res α) (s' : σ),
        Relation.ReflTransGen (Step act) (p, s) (.op o k, s') ∧ act o s' = .error e := by
  constructor
  · intro h
    induction p generalizing s with
    | ret a => rw [exec_ret] at h; cases h
    | op o k ih =>
        cases ho : act o s with
        | error e' =>
            rw [exec_op_error ho] at h
            cases h
            exact ⟨o, k, s, .refl, ho⟩
        | ok q =>
            obtain ⟨r, s₁⟩ := q
            rw [exec_op_ok ho] at h
            obtain ⟨o', k', s', hrun, hfault⟩ := ih r h
            exact ⟨o', k', s', .head (.op ho) hrun, hfault⟩
  · -- backwards along the steps: each of them is the head of a run
    intro hr
    obtain ⟨o, k, s', h, hfault⟩ := hr
    generalize hx : (p, s) = x at h
    induction h using Relation.ReflTransGen.head_induction_on generalizing p s with
    | refl => cases hx; exact exec_op_error hfault
    | head hstep _ ih =>
        subst hx
        cases hstep with
        | op ho => rw [exec_op_ok ho]; exact ih rfl

end Prog

end Effect
