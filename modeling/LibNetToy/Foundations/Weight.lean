import Mathlib.Tactic

/-!
# Weighing a list

`weigh f ts` is the sum of the weights `f t` of the members of `ts`.  Invariants about pending
work are stated with it: a weight says how much of something a task stands for (bytes to be
acknowledged, a read that will be started again, a reference it holds), and what is pending
altogether is the weight of the list.
-/

namespace LibNetToy

variable {α : Type}

/-- The sum of the weights of the members of a list. -/
def weigh (f : α → Nat) (ts : List α) : Nat :=
  (ts.map f).sum

@[simp] theorem weigh_nil (f : α → Nat) : weigh f [] = 0 := rfl

@[simp] theorem weigh_cons (f : α → Nat) (t : α) (ts : List α) :
    weigh f (t :: ts) = f t + weigh f ts := by
  simp [weigh]

@[simp] theorem weigh_append (f : α → Nat) (ts us : List α) :
    weigh f (ts ++ us) = weigh f ts + weigh f us := by
  simp [weigh]

/-- The weight is zero exactly when every member weighs nothing. -/
theorem weigh_eq_zero {f : α → Nat} {ts : List α} : weigh f ts = 0 ↔ ∀ t ∈ ts, f t = 0 := by
  induction ts with
  | nil => simp
  | cons t ts ih => simp [ih]

/-- A member weighs at most as much as the list. -/
theorem le_weigh {f : α → Nat} {ts : List α} {t : α} (h : t ∈ ts) : f t ≤ weigh f ts := by
  induction ts with
  | nil => cases h
  | cons u ts ih =>
    rw [weigh_cons]
    rcases List.mem_cons.1 h with rfl | h
    · exact Nat.le_add_right _ _
    · exact Nat.le_trans (ih h) (Nat.le_add_left _ _)

theorem weigh_mono {f g : α → Nat} {ts : List α} (h : ∀ t ∈ ts, f t ≤ g t) :
    weigh f ts ≤ weigh g ts := by
  induction ts with
  | nil => exact Nat.le_refl _
  | cons t ts ih =>
    rw [weigh_cons, weigh_cons]
    exact Nat.add_le_add (h t (List.mem_cons_self ..))
      (ih fun u hu => h u (List.mem_cons_of_mem _ hu))

/-- A list of positive weight has a member of positive weight. -/
theorem exists_of_weigh_pos {f : α → Nat} {ts : List α} (h : 0 < weigh f ts) :
    ∃ t ∈ ts, 0 < f t := by
  by_contra hno
  have hzero : weigh f ts = 0 := by
    apply weigh_eq_zero.2
    intro t ht
    by_contra hpos
    exact hno ⟨t, ht, Nat.pos_of_ne_zero hpos⟩
  omega

end LibNetToy
