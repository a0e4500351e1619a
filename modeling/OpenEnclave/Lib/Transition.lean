import Mathlib.Logic.Relation

/-!
# Transition — runs of a step relation

Nondeterministic systems: what holds in every state of every run
(`invariant`), when the runs of one follow those of another
(`simulation`), and what every run comes to sooner or later
(`Eventually`). The latter includes that the runs do not end before: a
state with no successor that does not satisfy the goal is not on the
way to it.
-/

namespace Transition

open Relation

variable {σ : Type} {step : σ → σ → Prop} {P Inv : σ → Prop} {s s' : σ}

/-- **Invariant rule**: what one step preserves, every run preserves. -/
theorem invariant (hstep : ∀ s s', step s s' → Inv s → Inv s')
    (hrun : ReflTransGen step s s') (hs : Inv s) : Inv s' := by
  induction hrun with
  | refl => exact hs
  | tail _ hlast ih => exact hstep _ _ hlast ih

/-- **Simulation rule**: a system whose single steps another one follows,
by no step or by several, is followed along every run. -/
theorem simulation {τ : Type} {step' : τ → τ → Prop} {R : σ → τ → Prop} {t : τ}
    (hinv : ∀ s s', step s s' → Inv s → Inv s')
    (hsim : ∀ s s' t, Inv s → R s t → step s s' → ∃ t', ReflTransGen step' t t' ∧ R s' t')
    (hrun : ReflTransGen step s s') (hs : Inv s) (hR : R s t) :
    ∃ t', ReflTransGen step' t t' ∧ R s' t' := by
  induction hrun with
  | refl => exact ⟨t, .refl, hR⟩
  | tail hfirst hlast ih =>
      obtain ⟨t₁, hrun₁, hR₁⟩ := ih
      obtain ⟨t₂, hrun₂, hR₂⟩ := hsim _ _ t₁ (invariant hinv hfirst hs) hR₁ hlast
      exact ⟨t₂, hrun₁.trans hrun₂, hR₂⟩

/-- Every run from `s` reaches a state with `P`, after finitely many
steps and without getting stuck before. -/
inductive Eventually (step : σ → σ → Prop) (P : σ → Prop) : σ → Prop where
  | now {s : σ} : P s → Eventually step P s
  | later {s : σ} : (∃ s', step s s') → (∀ s', step s s' → Eventually step P s') →
      Eventually step P s

theorem Eventually.mono {Q : σ → Prop} (hPQ : ∀ s, P s → Q s) (h : Eventually step P s) :
    Eventually step Q s := by
  induction h with
  | now hs => exact .now (hPQ _ hs)
  | later hnext _ ih => exact .later hnext ih

/-- What is inevitable from everything inevitable is inevitable. -/
theorem Eventually.trans {Q : σ → Prop} (h : Eventually step P s)
    (hPQ : ∀ s', P s' → Eventually step Q s') : Eventually step Q s := by
  induction h with
  | now hs => exact hPQ _ hs
  | later hnext _ ih => exact .later hnext ih

/-- What is inevitable is possible. -/
theorem Eventually.reaches (h : Eventually step P s) :
    ∃ s', ReflTransGen step s s' ∧ P s' := by
  induction h with
  | now hs => exact ⟨_, .refl, hs⟩
  | later hnext _ ih =>
      obtain ⟨t, ht⟩ := hnext
      obtain ⟨s', hrun, hs'⟩ := ih t ht
      exact ⟨s', .head ht hrun, hs'⟩

end Transition
