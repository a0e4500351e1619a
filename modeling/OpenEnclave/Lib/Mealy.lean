import Mathlib.Data.List.Forall2

/-!
# Mealy — deterministic machines with outputs, over whole runs

A machine takes an input, gives an output and moves to its next state;
`run` feeds it a finite list of inputs. The rules here turn a fact
about ONE step into a fact about every run: `run_view` for the agreement
of two machines step by step through a simulation relation, `run_log` for
a state against the record of its outputs, `run_pair` for two runs of one
machine side by side. Inputs may be restricted by a predicate, which is
how assumptions about the environment enter a run.
-/

namespace Mealy

variable {σ τ ι ο ω : Type}

/-- The outputs of a run, in order, and the state it ends in. -/
def run (step : σ → ι → ο × σ) : σ → List ι → List ο × σ
  | s, [] => ([], s)
  | s, i :: is =>
      let r := run step (step s i).2 is
      ((step s i).1 :: r.1, r.2)

@[simp] theorem run_nil (step : σ → ι → ο × σ) (s : σ) : run step s [] = ([], s) := rfl

@[simp] theorem run_cons (step : σ → ι → ο × σ) (s : σ) (i : ι) (is : List ι) :
    run step s (i :: is) =
      ((step s i).1 :: (run step (step s i).2 is).1, (run step (step s i).2 is).2) := rfl

theorem run_append (step : σ → ι → ο × σ) (s : σ) (is js : List ι) :
    run step s (is ++ js) =
      ((run step s is).1 ++ (run step (run step s is).2 js).1,
        (run step (run step s is).2 js).2) := by
  induction is generalizing s with
  | nil => rfl
  | cons i is ih => simp [ih]

@[simp] theorem run_length (step : σ → ι → ο × σ) (s : σ) (is : List ι) :
    (run step s is).1.length = is.length := by
  induction is generalizing s with
  | nil => rfl
  | cons i is ih => simp [ih]

/-- **Simulation rule**: machines whose single steps show the same view
and keep `R` show the same views along every run, and end related. -/
theorem run_view {step : σ → ι → ο × σ} {spec : τ → ι → ω × τ} {Adm : ι → Prop}
    {R : σ → τ → Prop} {view : ο → ω}
    (hstep : ∀ s t i, Adm i → R s t →
      view (step s i).1 = (spec t i).1 ∧ R (step s i).2 (spec t i).2)
    {s : σ} {t : τ} (hR : R s t) {is : List ι} (his : ∀ i ∈ is, Adm i) :
    (run step s is).1.map view = (run spec t is).1 ∧
      R (run step s is).2 (run spec t is).2 := by
  induction is generalizing s t with
  | nil => exact ⟨rfl, hR⟩
  | cons i is ih =>
      obtain ⟨hv, hR'⟩ := hstep s t i (his i (by simp)) hR
      obtain ⟨hvs, hR''⟩ := ih hR' (fun j hj => his j (by simp [hj]))
      exact ⟨by simp [hv, hvs], hR''⟩

/-- **Log rule**: a relation between the state and what the outputs have
entered into a log, kept by every step, is kept by every run. -/
theorem run_log {ε : Type} {step : σ → ι → ο × σ} {emit : ο → List ε}
    {R : σ → List ε → Prop}
    (hstep : ∀ s log i, R s log → R (step s i).2 (log ++ emit (step s i).1))
    {s : σ} {log : List ε} (hR : R s log) (is : List ι) :
    R (run step s is).2 (log ++ (run step s is).1.flatMap emit) := by
  induction is generalizing s log with
  | nil => simpa using hR
  | cons i is ih =>
      have h := ih (hstep s log i hR)
      rwa [List.append_assoc] at h

/-- **Two-run rule**: related states that answer related inputs alike, and
stay related, answer alike along two runs. `O` may look at the input. -/
theorem run_pair {step : σ → ι → ο × σ} {I : ι → ι → Prop} {R : σ → σ → Prop}
    {O : ι → ο → ο → Prop}
    (hstep : ∀ s t i j, I i j → R s t →
      O i (step s i).1 (step t j).1 ∧ R (step s i).2 (step t j).2)
    {s t : σ} (hR : R s t) {is js : List ι} (hI : List.Forall₂ I is js) :
    List.Forall₂ (fun p o => O p.1 p.2 o) (is.zip (run step s is).1) (run step t js).1 ∧
      R (run step s is).2 (run step t js).2 := by
  induction hI generalizing s t with
  | nil => exact ⟨.nil, hR⟩
  | cons hij _ ih =>
      obtain ⟨hO, hR'⟩ := hstep _ _ _ _ hij hR
      obtain ⟨hOs, hR''⟩ := ih hR'
      exact ⟨.cons hO hOs, hR''⟩

end Mealy
