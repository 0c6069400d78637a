import Mathlib.Tactic

/-!
# Times at a distance

A list of times is spaced when its first one is not before a given time and each later one
follows the one before at a given distance or later.
-/

namespace LibNetToy

section Spacing

variable {α : Type} [AddCommMonoid α] [PartialOrder α] [IsOrderedAddMonoid α]

/-- The first time is `base` or later, the others follow each other at the distance `p` or
later. -/
def Spaced (p : α) : α → List α → Prop
  | _, [] => True
  | base, τ :: l => base ≤ τ ∧ Spaced p (τ + p) l

/-- The earliest time that may come next. -/
def earliest (p : α) : α → List α → α
  | base, [] => base
  | _, τ :: l => earliest p (τ + p) l

variable {p base σ τ : α} {l : List α} {k : Nat}

omit [PartialOrder α] [IsOrderedAddMonoid α] in
theorem earliest_concat : earliest p base (l ++ [τ]) = τ + p := by
  induction l generalizing base with
  | nil => rfl
  | cons σ l ih => exact ih

omit [IsOrderedAddMonoid α] in
theorem spaced_concat : Spaced p base (l ++ [τ]) ↔ Spaced p base l ∧ earliest p base l ≤ τ := by
  induction l generalizing base with
  | nil => simp [Spaced, earliest]
  | cons σ l ih =>
    simp only [List.cons_append, Spaced, earliest, ih]
    exact and_assoc.symm

/-- The `k`-th time is at `k` distances from the base or later. -/
theorem Spaced.le_getElem? (h : Spaced p base l) (hk : l[k]? = some τ) : base + k • p ≤ τ := by
  induction l generalizing base k with
  | nil => simp at hk
  | cons σ l ih =>
    cases k with
    | zero =>
      obtain rfl := Option.some.inj hk
      simpa using h.1
    | succ k =>
      have hrest : σ + p + k • p ≤ τ := ih h.2 hk
      calc base + (k + 1) • p = base + p + k • p := by rw [succ_nsmul', add_assoc]
        _ ≤ σ + p + k • p := by gcongr; exact h.1
        _ ≤ τ := hrest

omit [IsOrderedAddMonoid α] in
/-- Two times that follow each other are at a distance. -/
theorem Spaced.add_le (h : Spaced p base l) (hσ : l[k]? = some σ) (hτ : l[k + 1]? = some τ) :
    σ + p ≤ τ := by
  induction l generalizing base k with
  | nil => simp at hσ
  | cons ρ l ih =>
    cases k with
    | zero =>
      obtain rfl := Option.some.inj hσ
      cases l with
      | nil => simp at hτ
      | cons ρ' l =>
        obtain rfl := Option.some.inj hτ
        exact h.2.1
    | succ k => exact ih h.2 hσ hτ

end Spacing

end LibNetToy
