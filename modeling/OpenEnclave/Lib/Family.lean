import Mathlib.Algebra.BigOperators.Group.Finset.Basic
import Mathlib.Algebra.Order.BigOperators.Group.Finset
import Mathlib.Logic.Function.Basic

/-!
# Family — parties of a system, one of which moves

A system of parties is a function from their names to their states, and
a step of one party an update of that function at one name. What such a
step does to a relation between two families, and to a sum over one, is
said here once.
-/

namespace Family

variable {τ : Type} [DecidableEq τ] {t u : τ}

theorem update_cases {α : Type} {f : τ → α} {x y : α} (h : Function.update f t x u = y) :
    (u = t ∧ x = y) ∨ (u ≠ t ∧ f u = y) := by
  by_cases hu : u = t
  · subst hu
    rw [Function.update_self] at h
    exact .inl ⟨rfl, h⟩
  · rw [Function.update_of_ne hu] at h
    exact .inr ⟨hu, h⟩

/-- An entry added to a table is no other entry. -/
theorem update_some_iff {α : Type} {f : τ → Option α} {x y : α} (ht : f t = none) (hne : x ≠ y) :
    Function.update f t (some x) u = some y ↔ f u = some y := by
  constructor
  · intro h
    rcases update_cases h with ⟨-, heq⟩ | ⟨-, h⟩
    · exact absurd (Option.some.inj heq) hne
    · exact h
  · intro h
    have hu : u ≠ t := by
      rintro rfl
      rw [ht] at h
      cases h
    rw [Function.update_of_ne hu, h]

/-- The entries after one was removed. -/
theorem update_none_iff {α : Type} {f : τ → Option α} {y : α} :
    Function.update f t none u = some y ↔ u ≠ t ∧ f u = some y := by
  constructor
  · intro h
    rcases update_cases h with ⟨-, heq⟩ | hu
    · cases heq
    · exact hu
  · rintro ⟨hu, h⟩
    rw [Function.update_of_ne hu, h]

/-- An entry that is removed is no other entry. -/
theorem update_none_other {α : Type} {f : τ → Option α} {x y : α} (ht : f t = some x)
    (hne : x ≠ y) : Function.update f t none u = some y ↔ f u = some y := by
  rw [update_none_iff]
  refine ⟨fun h => h.2, fun h => ⟨?_, h⟩⟩
  rintro rfl
  rw [ht] at h
  exact hne (Option.some.inj h)

/-- Where there is no entry, none appears by removing one. -/
theorem update_none_eq_none {α : Type} {f : τ → Option α} (h : f u = none) :
    Function.update f t none u = none := by
  by_cases hu : u = t
  · rw [hu, Function.update_self]
  · rw [Function.update_of_ne hu, h]

/-- What holds of the party that moves and of all others holds of all. -/
theorem update_forall {α : Type} {P : τ → α → Prop} {f : τ → α} {x : α} (ht : P t x)
    (hother : ∀ u, u ≠ t → P u (f u)) (u : τ) : P u (Function.update f t x u) := by
  by_cases hu : u = t
  · subst hu
    rwa [Function.update_self]
  · rw [Function.update_of_ne hu]
    exact hother u hu

/-- A relation between two families that both move at `t`. -/
theorem update_related {α β : Type} {F : τ → α → β → Prop} {f : τ → α} {g : τ → β} {x : α}
    {y : β} (ht : F t x y) (hother : ∀ u, u ≠ t → F u (f u) (g u)) (u : τ) :
    F u (Function.update f t x u) (Function.update g t y u) := by
  by_cases hu : u = t
  · subst hu
    rwa [Function.update_self, Function.update_self]
  · rw [Function.update_of_ne hu, Function.update_of_ne hu]
    exact hother u hu

/-- The same, when only the first of them moves. -/
theorem update_related_left {α β : Type} {F : τ → α → β → Prop} {f : τ → α} {g : τ → β}
    {x : α} (ht : F t x (g t)) (hother : ∀ u, u ≠ t → F u (f u) (g u)) (u : τ) :
    F u (Function.update f t x u) (g u) := by
  have h := update_related ht hother u
  rwa [Function.update_eq_self] at h

/-- A party that comes down brings the sum down. -/
theorem sum_update_lt [Fintype τ] {n : τ → Nat} {m : Nat} (hm : m < n t) :
    ∑ u, Function.update n t m u < ∑ u, n u := by
  refine Finset.sum_lt_sum (fun u _ => ?_) ⟨t, Finset.mem_univ t, ?_⟩
  · exact update_forall (P := fun u x => x ≤ n u) hm.le (fun u _ => le_rfl) u
  · rw [Function.update_self]
    exact hm

end Family
