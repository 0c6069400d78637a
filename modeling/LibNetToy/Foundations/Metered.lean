import LibNetToy.Foundations.Machine

/-!
# Steps that are paid for

Some steps a machine takes on its own, and the others are input.  When every own step lowers a rank
and an input raises it by at most a price, the inputs of a run pay for its own steps, and without
input the machine comes to rest.
-/

namespace LibNetToy

/-- A state, and how many own steps and inputs have led to it. -/
structure Metered (σ : Type) where
  state : σ
  own : Nat
  inputs : Nat

namespace Machine

variable {σ Λ φ : Type}

/-- The machine that counts its steps. -/
def metered (M : Machine σ Λ φ) (own : Λ → Bool) : Machine (Metered σ) Λ φ where
  init m := M.init m.state ∧ m.own = 0 ∧ m.inputs = 0
  step l m := Halt.within (M.step l m.state) fun s =>
    { state := s
      own := m.own + if own l then 1 else 0
      inputs := m.inputs + if own l then 0 else 1 }

/-- The machine cannot do anything on its own. -/
def Resting (M : Machine σ Λ φ) (own : Λ → Bool) (s : σ) : Prop :=
  ∀ l, own l = true → M.step l s = .error .disabled

/-- Own steps lower the rank, and an input raises it by at most the price. -/
structure Ranked (M : Machine σ Λ φ) (own : Λ → Bool) (rank : σ → Nat) (price : Nat) : Prop where
  own_lt : ∀ {l s s'}, own l = true → M.step l s = .ok s' → rank s' < rank s
  input_le : ∀ {l s s'}, own l = false → M.step l s = .ok s' → rank s' ≤ rank s + price

variable {M : Machine σ Λ φ} {own : Λ → Bool} {rank : σ → Nat} {price : Nat}

/-- Counting changes nothing. -/
theorem metered_reachable {m : Metered σ} (hm : (M.metered own).Reachable m) :
    M.Reachable m.state := by
  induction hm with
  | init hinit => exact .init hinit.1
  | step _ _ hstep ih =>
    obtain ⟨s, hs, rfl⟩ := Halt.within_eq_ok.1 hstep
    exact .step ih trivial hs

/-- A run that is counted starts somewhere. -/
theorem exists_startedAt {m : Metered σ} (hm : (M.metered own).Reachable m) :
    ∃ s, M.init s ∧ ((M.startedAt s).metered own).Reachable m := by
  induction hm with
  | @init m hinit => exact ⟨m.state, hinit.1, .init ⟨rfl, hinit.2⟩⟩
  | step _ _ hstep ih =>
    obtain ⟨s, hs, hm⟩ := ih
    exact ⟨s, hs, .step hm trivial hstep⟩

namespace Ranked

/-- In every run the rank and the own steps are what the start and the inputs have paid. -/
theorem own_add_rank_le (h : M.Ranked own rank price) {s : σ} {m : Metered σ}
    (hm : ((M.startedAt s).metered own).Reachable m) :
    m.own + rank m.state ≤ rank s + price * m.inputs := by
  induction hm with
  | @init m hinit =>
    obtain ⟨hs, hown, hinputs⟩ := hinit
    have hs : m.state = s := hs
    rw [hs, hown, hinputs]
    omega
  | @step m m' l _ _ hstep ih =>
    obtain ⟨s', hs', rfl⟩ := Halt.within_eq_ok.1 hstep
    cases hl : own l with
    | true =>
      have hlt := h.own_lt hl hs'
      simp only [if_true, Nat.add_zero]
      omega
    | false =>
      have hle := h.input_le hl hs'
      simp only [Bool.false_eq_true, if_false, Nat.mul_add, Nat.mul_one]
      omega

/-- By own steps the machine comes to rest, unless one of them fails. -/
theorem exists_resting (h : M.Ranked own rank price) (s : σ) :
    ∃ t, (M.startedAt s).ReachableUnder (fun _ l => own l = true) t ∧
      (M.Resting own t ∨ ∃ l f, own l = true ∧ M.step l t = .error (.fault f)) := by
  induction hn : rank s using Nat.strong_induction_on generalizing s with
  | _ n ih =>
    by_cases hrest : M.Resting own s
    · exact ⟨s, .init rfl, Or.inl hrest⟩
    · obtain ⟨l, hl, hstep⟩ : ∃ l, own l = true ∧ M.step l s ≠ .error .disabled := by
        by_contra hno
        refine hrest fun l hl => ?_
        by_contra hstep
        exact hno ⟨l, hl, hstep⟩
      cases hs : M.step l s with
      | error e =>
        cases e with
        | disabled => exact absurd hs hstep
        | fault f => exact ⟨s, .init rfl, Or.inr ⟨l, f, hl, hs⟩⟩
      | ok s' =>
        have hlt : rank s' < n := hn ▸ h.own_lt hl hs
        obtain ⟨t, ht, hend⟩ := ih (rank s') hlt s' rfl
        exact ⟨t, ReachableUnder.goOn (M := M.startedAt s) (.step (.init rfl) hl hs) ht, hend⟩

end Ranked

end Machine

end LibNetToy
