import LibNetToy.Foundations.Weight

/-!
# Sequences that share one list

A list of pairs holds one sequence for each key: `ofKey k l` is the sequence of the key `k`.
Stacks and first-in first-out queues of any number of threads are kept in this way: a stack
grows in front and a queue behind, and both lose the first entry of a key (`takeFirst`).
What is pending altogether is one finite list, so it can be weighed.
-/

namespace LibNetToy

namespace Keyed

variable {κ α : Type} [DecidableEq κ]

/-- The sequence of the key `k`. -/
def ofKey (k : κ) (l : List (κ × α)) : List α :=
  (l.filter fun e => e.1 = k).map Prod.snd

/-- The first entry of the key `k`, and the list without it. -/
def takeFirst (k : κ) : List (κ × α) → Option (α × List (κ × α))
  | [] => none
  | e :: l =>
    if e.1 = k then some (e.2, l)
    else (takeFirst k l).map fun r => (r.1, e :: r.2)

variable {k k' : κ} {a : α} {l l' : List (κ × α)}

@[simp] theorem ofKey_nil (k : κ) : ofKey k ([] : List (κ × α)) = [] := rfl

@[simp] theorem ofKey_append (k : κ) (l l' : List (κ × α)) :
    ofKey k (l ++ l') = ofKey k l ++ ofKey k l' := by
  simp [ofKey]

theorem ofKey_cons_self (k : κ) (a : α) (l : List (κ × α)) :
    ofKey k ((k, a) :: l) = a :: ofKey k l := by
  simp [ofKey]

theorem ofKey_cons_of_ne (h : k' ≠ k) (a : α) (l : List (κ × α)) :
    ofKey k ((k', a) :: l) = ofKey k l := by
  simp [ofKey, h]

/-- Entries of one key make up its sequence. -/
@[simp] theorem ofKey_map_self (k : κ) (as : List α) : ofKey k (as.map fun a => (k, a)) = as := by
  induction as with
  | nil => rfl
  | cons a as ih => rw [List.map_cons, ofKey_cons_self, ih]

/-- Entries of one key do not show in the sequence of another. -/
theorem ofKey_map_of_ne (h : k' ≠ k) (as : List α) :
    ofKey k (as.map fun a => (k', a)) = [] := by
  induction as with
  | nil => rfl
  | cons a as ih => rw [List.map_cons, ofKey_cons_of_ne h, ih]

theorem mem_ofKey : a ∈ ofKey k l ↔ (k, a) ∈ l := by
  simp [ofKey]

/-- A list without a sequence that has entries is empty. -/
theorem eq_nil_of_ofKey (h : ∀ k, ofKey k l = []) : l = [] := by
  apply List.eq_nil_iff_forall_not_mem.2
  rintro ⟨k, a⟩ hmem
  have ha := mem_ofKey.2 hmem
  rw [h k] at ha
  cases ha

/-- The first entry of a key stands behind entries of other keys. -/
theorem takeFirst_eq_some : takeFirst k l = some (a, l') ↔
    ∃ front back, l = front ++ (k, a) :: back ∧ ofKey k front = [] ∧ l' = front ++ back := by
  induction l generalizing l' with
  | nil =>
    constructor
    · intro h
      cases h
    · rintro ⟨front, back, h, -, -⟩
      cases front <;> cases h
  | cons e l ih =>
    obtain ⟨j, b⟩ := e
    by_cases hj : j = k
    · subst hj
      simp only [takeFirst, if_true]
      constructor
      · intro h
        obtain ⟨rfl, rfl⟩ := Prod.mk.inj (Option.some.inj h)
        exact ⟨[], l, rfl, rfl, rfl⟩
      · rintro ⟨front, back, h, hfront, rfl⟩
        rcases front with _ | ⟨e, front⟩
        · obtain ⟨he, rfl⟩ := List.cons.inj h
          obtain ⟨-, rfl⟩ := Prod.mk.inj he
          rfl
        · obtain ⟨rfl, -⟩ := List.cons.inj h
          rw [ofKey_cons_self] at hfront
          cases hfront
    · simp only [takeFirst, if_neg hj]
      constructor
      · intro h
        obtain ⟨⟨b', l''⟩, hr, he⟩ := Option.map_eq_some_iff.1 h
        obtain ⟨rfl, rfl⟩ := Prod.mk.inj he
        obtain ⟨front, back, rfl, hfront, rfl⟩ := ih.1 hr
        exact ⟨(j, b) :: front, back, rfl, by rw [ofKey_cons_of_ne hj, hfront], rfl⟩
      · rintro ⟨front, back, h, hfront, rfl⟩
        rcases front with _ | ⟨e, front⟩
        · obtain ⟨he, -⟩ := List.cons.inj h
          exact absurd (Prod.mk.inj he).1 hj
        · obtain ⟨rfl, rfl⟩ := List.cons.inj h
          rw [ofKey_cons_of_ne hj] at hfront
          rw [ih.2 ⟨front, back, rfl, hfront, rfl⟩]
          rfl

/-- The sequence of the key loses its head. -/
theorem ofKey_takeFirst (h : takeFirst k l = some (a, l')) : ofKey k l = a :: ofKey k l' := by
  obtain ⟨front, back, rfl, hfront, rfl⟩ := takeFirst_eq_some.1 h
  rw [ofKey_append, ofKey_append, hfront, ofKey_cons_self, List.nil_append, List.nil_append]

/-- The sequences of other keys stay. -/
theorem ofKey_takeFirst_of_ne (h : takeFirst k l = some (a, l')) (hk : k ≠ k') :
    ofKey k' l = ofKey k' l' := by
  obtain ⟨front, back, rfl, -, rfl⟩ := takeFirst_eq_some.1 h
  rw [ofKey_append, ofKey_append, ofKey_cons_of_ne hk]

/-- There is a first entry exactly when the sequence is not empty. -/
theorem takeFirst_eq_none : takeFirst k l = none ↔ ofKey k l = [] := by
  induction l with
  | nil => exact ⟨fun _ => rfl, fun _ => rfl⟩
  | cons e l ih =>
    obtain ⟨j, b⟩ := e
    by_cases hj : j = k
    · subst hj
      simp [takeFirst, ofKey_cons_self]
    · rw [ofKey_cons_of_ne hj, ← ih]
      simp [takeFirst, hj]

/-- A sequence that is not empty has a first entry. -/
theorem exists_takeFirst {as : List α} (h : ofKey k l = a :: as) :
    ∃ l', takeFirst k l = some (a, l') ∧ ofKey k l' = as := by
  cases ht : takeFirst k l with
  | none =>
    rw [takeFirst_eq_none.1 ht] at h
    cases h
  | some r =>
    obtain ⟨b, l'⟩ := r
    have hat := ofKey_takeFirst ht
    rw [h] at hat
    obtain ⟨rfl, rfl⟩ := List.cons.inj hat
    exact ⟨l', rfl, rfl⟩

/-- The entries of a list are its first one of a key and the remaining ones. -/
theorem mem_of_takeFirst (h : takeFirst k l = some (a, l')) {e : κ × α} :
    e ∈ l ↔ e = (k, a) ∨ e ∈ l' := by
  obtain ⟨front, back, rfl, -, rfl⟩ := takeFirst_eq_some.1 h
  simp only [List.mem_append, List.mem_cons]
  constructor
  · rintro (h | h | h)
    · exact Or.inr (Or.inl h)
    · exact Or.inl h
    · exact Or.inr (Or.inr h)
  · rintro (h | h | h)
    · exact Or.inr (Or.inl h)
    · exact Or.inl h
    · exact Or.inr (Or.inr h)

/-- Taking an entry makes the list shorter. -/
theorem length_takeFirst (h : takeFirst k l = some (a, l')) : l.length = l'.length + 1 := by
  obtain ⟨front, back, rfl, -, rfl⟩ := takeFirst_eq_some.1 h
  simp only [List.length_append, List.length_cons]
  omega

/-- Taking an entry takes its weight. -/
theorem weigh_takeFirst (w : α → Nat) (h : takeFirst k l = some (a, l')) :
    weigh w (l.map Prod.snd) = w a + weigh w (l'.map Prod.snd) := by
  obtain ⟨front, back, rfl, -, rfl⟩ := takeFirst_eq_some.1 h
  simp only [List.map_append, List.map_cons, weigh_append, weigh_cons]
  omega

omit [DecidableEq κ] in
/-- The weight of entries of one key. -/
theorem weigh_map_key (w : α → Nat) (k : κ) (as : List α) :
    weigh w ((as.map fun a => (k, a)).map Prod.snd) = weigh w as := by
  rw [List.map_map]
  congr 1
  exact List.map_id' as

end Keyed

end LibNetToy
