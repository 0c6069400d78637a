import LibNetToy.Foundations.Machine

/-!
# Parties that run a machine

Every party has a state of its own, and a step is a step of one party.  What lies between the
parties says which steps may be taken, looking at all states, and remembers what it needs.  What
holds in the runs of one party alone holds of each of them.
-/

namespace LibNetToy

/-- The states of the parties, and what is remembered between them. -/
structure Parties (ι σ α : Type) where
  party : ι → σ
  between : α

namespace Machine

variable {ι σ Λ φ α : Type} [DecidableEq ι]

/-- All runs of parties that each run the machine `M`. -/
def parties (M : Machine σ Λ φ) (allows : Parties ι σ α → ι → Λ → Bool)
    (note : α → ι → Λ → α) (start : α) : Machine (Parties ι σ α) (ι × Λ) φ where
  init s := (∀ i, M.init (s.party i)) ∧ s.between = start
  step l s :=
    Halt.guard (allows s l.1 l.2)
      (Halt.within (M.step l.2 (s.party l.1)) fun t =>
        { party := Function.update s.party l.1 t, between := note s.between l.1 l.2 })

variable {M : Machine σ Λ φ} {allows : Parties ι σ α → ι → Λ → Bool} {note : α → ι → Λ → α}
  {start : α} {C : ι → σ → Λ → Prop} {s s' : Parties ι σ α} {i : ι} {l : Λ}

theorem parties_step_eq_ok : (M.parties allows note start).step (i, l) s = .ok s' ↔
    allows s i l = true ∧ ∃ t, M.step l (s.party i) = .ok t ∧
      s' = { party := Function.update s.party i t, between := note s.between i l } := by
  simp [parties]

/-- A party takes steps of its machine only, and they meet the conditions on this party. -/
theorem ReachableUnder.party
    (h : (M.parties allows note start).ReachableUnder (fun s l => C l.1 (s.party l.1) l.2) s)
    (i : ι) : M.ReachableUnder (C i) (s.party i) := by
  induction h with
  | init hinit => exact .init (hinit.1 i)
  | @step s s' l _ hC hstep ih =>
    obtain ⟨j, l⟩ := l
    obtain ⟨-, t, ht, rfl⟩ := parties_step_eq_ok.1 hstep
    by_cases hij : i = j
    · subst hij
      simpa using .step ih hC ht
    · simpa [Function.update_of_ne hij] using ih

end Machine

end LibNetToy
