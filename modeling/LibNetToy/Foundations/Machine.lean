import Mathlib.Tactic

/-!
# Labelled machines with faults

A machine is a set of initial states and a partial step function: under a label
the step is disabled, ends in a fault, or leads to the next state.  Everything
nondeterministic in a system (which thread runs next, what the kernel delivers,
what a user callback does) is put into the label, so a run is a list of labels
and can be evaluated.

`ReachableUnder C` collects the states of the runs whose every step meets the
condition `C` on the state before the step and the label; `Reachable` is the case
without a condition.  `ReachableUnder.invariant` is the induction rule used for
every invariant of the development.
-/

namespace LibNetToy

/-- Why a step leads to no next state: the label does not apply, or executing it
ends in a fault. -/
inductive Halt (φ : Type)
  | disabled
  | fault (f : φ)
  deriving DecidableEq, Repr

namespace Halt

variable {σ φ α : Type}

/-- The step continues with the value of a call that returns, and faults with the call. -/
def ofCall (x : Except φ α) (f : α → σ) : Except (Halt φ) σ :=
  match x with
  | .ok a => .ok (f a)
  | .error e => .error (.fault e)

/-- The step is disabled when there is no value. -/
def ofOption (x : Option α) (f : α → σ) : Except (Halt φ) σ :=
  match x with
  | some a => .ok (f a)
  | none => .error .disabled

/-- The step is disabled unless `p` holds. -/
def guard (p : Prop) [Decidable p] (x : Except (Halt φ) σ) : Except (Halt φ) σ :=
  if p then x else .error .disabled

/-- A step of a part of a system is a step of the system. -/
def within (x : Except (Halt φ) α) (f : α → σ) : Except (Halt φ) σ :=
  match x with
  | .ok a => .ok (f a)
  | .error h => .error h

/-- The same for a part that has faults of its own. -/
def inside {ψ : Type} (g : φ → ψ) (x : Except (Halt φ) α) (f : α → σ) : Except (Halt ψ) σ :=
  match x with
  | .ok a => .ok (f a)
  | .error .disabled => .error .disabled
  | .error (.fault e) => .error (.fault (g e))

/-- The step leads on where the call returns. -/
@[simp]
theorem ofCall_eq_ok {x : Except φ α} {f : α → σ} {s : σ} :
    ofCall x f = .ok s ↔ ∃ a, x = .ok a ∧ s = f a := by
  cases x with
  | error e => simp [ofCall]
  | ok a => simp [ofCall, eq_comm]

/-- The step faults where the call faults. -/
@[simp]
theorem ofCall_eq_fault {x : Except φ α} {f : α → σ} {e : φ} :
    ofCall x f = .error (.fault e) ↔ x = .error e := by
  cases x <;> simp [ofCall]

/-- The step leads on where there is a value. -/
@[simp]
theorem ofOption_eq_ok {x : Option α} {f : α → σ} {s : σ} :
    (ofOption x f : Except (Halt φ) σ) = .ok s ↔ ∃ a, x = some a ∧ s = f a := by
  cases x with
  | none => simp [ofOption]
  | some a => simp [ofOption, eq_comm]

/-- A step that takes a value never faults. -/
@[simp]
theorem ofOption_ne_fault {x : Option α} {f : α → σ} {e : φ} :
    ofOption x f ≠ .error (.fault e) := by
  cases x <;> simp [ofOption]

/-- The system takes the steps of the part. -/
@[simp]
theorem within_eq_ok {x : Except (Halt φ) α} {f : α → σ} {s : σ} :
    within x f = .ok s ↔ ∃ a, x = .ok a ∧ s = f a := by
  cases x with
  | error h => simp [within]
  | ok a => simp [within, eq_comm]

/-- The system has the faults of the part. -/
@[simp]
theorem within_eq_fault {x : Except (Halt φ) α} {f : α → σ} {e : φ} :
    within x f = .error (.fault e) ↔ x = .error (.fault e) := by
  cases x <;> simp [within]

/-- The system takes the steps of the part. -/
@[simp]
theorem inside_eq_ok {ψ : Type} {g : φ → ψ} {x : Except (Halt φ) α} {f : α → σ} {s : σ} :
    inside g x f = .ok s ↔ ∃ a, x = .ok a ∧ s = f a := by
  rcases x with (_ | e) | a <;> simp [inside, eq_comm]

/-- The step is taken where the condition holds. -/
@[simp]
theorem guard_eq_ok {p : Prop} [Decidable p] {x : Except (Halt φ) σ} {s : σ} :
    guard p x = .ok s ↔ p ∧ x = .ok s := by
  by_cases hp : p <;> simp [guard, hp]

/-- The step faults only where the condition holds. -/
@[simp]
theorem guard_eq_fault {p : Prop} [Decidable p] {x : Except (Halt φ) σ} {e : φ} :
    guard p x = .error (.fault e) ↔ p ∧ x = .error (.fault e) := by
  by_cases hp : p <;> simp [guard, hp]

end Halt

/-- A labelled machine with states `σ`, labels `Λ` and faults `φ`. -/
structure Machine (σ Λ φ : Type) where
  /-- The states a run may start in. -/
  init : σ → Prop
  /-- The step under a label. -/
  step : Λ → σ → Except (Halt φ) σ

namespace Machine

variable {σ Λ φ : Type}

/-- The states of the runs whose steps all meet the condition `C`. -/
inductive ReachableUnder (M : Machine σ Λ φ) (C : σ → Λ → Prop) : σ → Prop
  | init {s : σ} : M.init s → ReachableUnder M C s
  | step {s s' : σ} {l : Λ} :
      ReachableUnder M C s → C s l → M.step l s = .ok s' → ReachableUnder M C s'

/-- The states of all runs. -/
def Reachable (M : Machine σ Λ φ) : σ → Prop :=
  M.ReachableUnder fun _ _ => True

/-- No step from `s` that meets `C` ends in the fault `f`. -/
def NeverFaults (M : Machine σ Λ φ) (C : σ → Λ → Prop) (s : σ) (f : φ) : Prop :=
  ∀ l, C s l → M.step l s ≠ .error (.fault f)

variable {M : Machine σ Λ φ} {C D : σ → Λ → Prop}

/-- A predicate that holds initially and is kept by every step meeting the condition
holds in every state reached. -/
theorem ReachableUnder.invariant {I : σ → Prop} (hinit : ∀ s, M.init s → I s)
    (hstep : ∀ s l s', I s → C s l → M.step l s = .ok s' → I s') {s : σ}
    (hs : M.ReachableUnder C s) : I s := by
  induction hs with
  | init h => exact hinit _ h
  | step _ hC hl ih => exact hstep _ _ _ ih hC hl

/-- Runs under a stronger condition are runs under a weaker one. -/
theorem ReachableUnder.mono (hCD : ∀ s l, C s l → D s l) {s : σ}
    (hs : M.ReachableUnder C s) : M.ReachableUnder D s := by
  induction hs with
  | init h => exact .init h
  | step _ hC hl ih => exact .step ih (hCD _ _ hC) hl

/-- Every state reached under a condition is reachable. -/
theorem ReachableUnder.reachable {s : σ} (hs : M.ReachableUnder C s) : M.Reachable s :=
  hs.mono fun _ _ _ => trivial

/-- The machine whose runs start in the state `s`. -/
def startedAt (M : Machine σ Λ φ) (s : σ) : Machine σ Λ φ :=
  { M with init := (· = s) }

/-- A run that goes on from a reached state. -/
theorem ReachableUnder.goOn {s t : σ} (hs : M.ReachableUnder C s)
    (ht : (M.startedAt s).ReachableUnder C t) : M.ReachableUnder C t := by
  induction ht with
  | init h =>
    obtain rfl := h
    exact hs
  | step _ hC hl ih => exact .step ih hC hl

/-! ## Evaluating a run -/

/-- Execute a list of labels; a step that violates the condition is disabled. -/
def run (M : Machine σ Λ φ) (C : σ → Λ → Prop) [∀ s l, Decidable (C s l)] :
    List Λ → σ → Except (Halt φ) σ
  | [], s => .ok s
  | l :: ls, s =>
    if C s l then
      match M.step l s with
      | .ok s' => run M C ls s'
      | .error e => .error e
    else .error .disabled

/-- Executing labels from a reached state leads to a reached state. -/
theorem ReachableUnder.run [∀ s l, Decidable (C s l)] {s s' : σ} {ls : List Λ}
    (hs : M.ReachableUnder C s) (hrun : M.run C ls s = .ok s') : M.ReachableUnder C s' := by
  induction ls generalizing s with
  | nil =>
    simp only [Machine.run, Except.ok.injEq] at hrun
    exact hrun ▸ hs
  | cons l ls ih =>
    simp only [Machine.run] at hrun
    split_ifs at hrun with hC
    cases hl : M.step l s with
    | error e => simp [hl] at hrun
    | ok t =>
      rw [hl] at hrun
      exact ih (.step hs hC hl) hrun

/-- Evaluations one after the other. -/
theorem bind_eq_ok {ε α β : Type} {x : Except ε α} {f : α → Except ε β} {b : β}
    (h : x.bind f = .ok b) : ∃ a, x = .ok a ∧ f a = .ok b := by
  cases x with
  | error e => cases h
  | ok a => exact ⟨a, rfl, h⟩

/-- What is observed at the end of an evaluated run is observed in a reached state. -/
theorem exists_of_run [∀ s l, Decidable (C s l)] {α : Type} {s : σ} {l : List Λ} {f : σ → α}
    {a : α} (hinit : M.init s) (hrun : (M.run C l s).map f = .ok a) :
    ∃ s', M.ReachableUnder C s' ∧ f s' = a := by
  cases hr : M.run C l s with
  | error e => simp [hr, Except.map] at hrun
  | ok s' =>
    rw [hr] at hrun
    exact ⟨s', ReachableUnder.run (.init hinit) hr, Except.ok.inj hrun⟩

end Machine

end LibNetToy
