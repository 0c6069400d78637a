import Mathlib.Tactic
import LibNetToy.Foundations.Memory

/-!
# Splitting a list at a pattern

`leftmost pat l` is the first place where `pat` stands in `l`, and `split pat l` cuts `l` at its
successive leftmost, non-overlapping occurrences of `pat`, into the parts before them and the
rest.  A place found in `l` is still the first one when more is added at the back, so splitting
`l ++ m` is splitting `l` and then its rest followed by `m` (`split_append`): what was split off
does not depend on where the input was cut.

`search` is the same search inside a vector, between two indices; it reads nothing beyond the
second.
-/

namespace LibNetToy

namespace Splitting

variable {α : Type} [DecidableEq α]

/-- `pat` stands in `l` at index `i`. -/
def occursAt (pat l : List α) (i : Nat) : Bool :=
  (l.drop i).take pat.length = pat

/-- The first index at which `pat` stands in `l`. -/
def leftmost (pat l : List α) : Option Nat :=
  (List.range (l.length + 1 - pat.length)).find? (occursAt pat l)

/-- At most `n` parts of `l` before occurrences of `pat`, and the rest. -/
def splitWith (pat : List α) : Nat → List α → List (List α) × List α
  | 0, l => ([], l)
  | n + 1, l =>
    match leftmost pat l with
    | none => ([], l)
    | some i =>
      let rest := splitWith pat n (l.drop (i + pat.length))
      (l.take i :: rest.1, rest.2)

/-- The parts of `l` before its successive occurrences of `pat`, and the rest. -/
def split (pat l : List α) : List (List α) × List α :=
  splitWith pat l.length l

/-- The first index from `first` on at which `pat` stands in the vector before `last`, and
`last` when there is none. -/
def search (v pat : List α) (first last : Nat) : Nat :=
  match (List.range (last - first + 1 - pat.length)).find? fun i =>
      decide (Memory.slice v (first + i) (first + i + pat.length) = pat) with
  | some i => first + i
  | none => last

variable {pat l m : List α} {i : Nat}

/-! ## The first occurrence -/

theorem leftmost_eq_some : leftmost pat l = some i ↔
    i + pat.length < l.length + 1 ∧ occursAt pat l i = true ∧
      ∀ j < i, occursAt pat l j = false := by
  unfold leftmost
  rw [List.find?_range_eq_some, List.mem_range]
  constructor
  · rintro ⟨hi, hlen, hfirst⟩
    exact ⟨by omega, hi, fun j hj => by simpa using hfirst j hj⟩
  · rintro ⟨hlen, hi, hfirst⟩
    exact ⟨hi, by omega, fun j hj => by simpa using hfirst j hj⟩

/-- Whether `pat` stands at an index depends only on the elements up to its end. -/
theorem occursAt_append (h : i + pat.length ≤ l.length) :
    occursAt pat (l ++ m) i = occursAt pat l i := by
  have hlen : pat.length ≤ (l.drop i).length := by
    rw [List.length_drop]
    omega
  unfold occursAt
  rw [List.drop_append_of_le_length (by omega), List.take_append_of_le_length hlen]

/-- The first occurrence stays the first when more is added at the back. -/
theorem leftmost_append (h : leftmost pat l = some i) : leftmost pat (l ++ m) = some i := by
  obtain ⟨hlen, hi, hfirst⟩ := leftmost_eq_some.1 h
  refine leftmost_eq_some.2 ⟨?_, ?_, fun j hj => ?_⟩
  · rw [List.length_append]
    omega
  · rw [occursAt_append (by omega)]
    exact hi
  · rw [occursAt_append (by omega)]
    exact hfirst j hj

/-! ## Splitting -/

theorem splitWith_of_none (h : leftmost pat l = none) (n : Nat) :
    splitWith pat n l = ([], l) := by
  cases n with
  | zero => rfl
  | succ n => simp only [splitWith, h]

theorem splitWith_of_some (h : leftmost pat l = some i) (n : Nat) :
    splitWith pat (n + 1) l =
      (l.take i :: (splitWith pat n (l.drop (i + pat.length))).1,
        (splitWith pat n (l.drop (i + pat.length))).2) := by
  simp only [splitWith, h]

/-- A list is at least as long as its first occurrence of a pattern ends. -/
theorem le_length_of_leftmost (h : leftmost pat l = some i) : i + pat.length ≤ l.length :=
  Nat.le_of_lt_succ (leftmost_eq_some.1 h).1

/-- As many turns as the list has elements are enough. -/
theorem splitWith_eq_split (hpat : pat ≠ []) {n : Nat} (hn : l.length ≤ n) :
    splitWith pat n l = split pat l := by
  have hpos : 0 < pat.length := List.length_pos_of_ne_nil hpat
  suffices ∀ n k : Nat, ∀ l : List α, l.length ≤ n → l.length ≤ k →
      splitWith pat n l = splitWith pat k l from this n l.length l hn le_rfl
  intro n
  induction n with
  | zero =>
    intro k l hl _
    have hnone : leftmost pat l = none := by
      cases hi : leftmost pat l with
      | none => rfl
      | some i =>
        have hle := le_length_of_leftmost hi
        omega
    rw [splitWith_of_none hnone, splitWith_of_none hnone]
  | succ n ih =>
    intro k l hl hk
    cases hi : leftmost pat l with
    | none => rw [splitWith_of_none hi, splitWith_of_none hi]
    | some i =>
      have hle := le_length_of_leftmost hi
      obtain ⟨k, rfl⟩ : ∃ k', k = k' + 1 := ⟨k - 1, by omega⟩
      have hdrop : (l.drop (i + pat.length)).length = l.length - (i + pat.length) :=
        List.length_drop
      rw [splitWith_of_some hi, splitWith_of_some hi, ih k _ (by omega) (by omega)]

theorem split_of_none (h : leftmost pat l = none) : split pat l = ([], l) :=
  splitWith_of_none h _

theorem split_of_some (hpat : pat ≠ []) (h : leftmost pat l = some i) :
    split pat l = (l.take i :: (split pat (l.drop (i + pat.length))).1,
      (split pat (l.drop (i + pat.length))).2) := by
  have hpos : 0 < pat.length := List.length_pos_of_ne_nil hpat
  have hle := le_length_of_leftmost h
  have hdrop : (l.drop (i + pat.length)).length ≤ l.length - 1 := by
    rw [List.length_drop]
    omega
  obtain ⟨n, hn⟩ : ∃ n, l.length = n + 1 := ⟨l.length - 1, by omega⟩
  rw [split, hn, splitWith_of_some h, splitWith_eq_split hpat (by omega)]

/-- Splitting with more at the back is splitting the list and then its rest with what is
added. -/
theorem split_append (hpat : pat ≠ []) (l m : List α) :
    split pat (l ++ m) = ((split pat l).1 ++ (split pat ((split pat l).2 ++ m)).1,
      (split pat ((split pat l).2 ++ m)).2) := by
  have hpos : 0 < pat.length := List.length_pos_of_ne_nil hpat
  induction hlen : l.length using Nat.strongRecOn generalizing l with
  | _ n ih =>
    cases hi : leftmost pat l with
    | none => rw [split_of_none hi, List.nil_append]
    | some i =>
      have hle := le_length_of_leftmost hi
      have hdrop : (l.drop (i + pat.length)).length < n := by
        rw [List.length_drop]
        omega
      have hrest : (l ++ m).drop (i + pat.length) = l.drop (i + pat.length) ++ m :=
        List.drop_append_of_le_length hle
      have hpart : (l ++ m).take i = l.take i := List.take_append_of_le_length (by omega)
      rw [split_of_some hpat (leftmost_append hi), split_of_some hpat hi, hrest, hpart,
        ih _ hdrop _ rfl, List.cons_append]

example : split [1, 2] [5, 1, 1, 2, 1, 2, 3, 1] = ([[5, 1], []], [3, 1]) := by decide

/-! ## Searching in a vector -/

/-- The search sees the elements between the two indices only. -/
theorem search_eq {v : List α} {first last : Nat} (h : first ≤ last) (hlast : last ≤ v.length) :
    search v pat first last = match leftmost pat (Memory.slice v first last) with
      | some i => first + i
      | none => last := by
  have hsize : (Memory.slice v first last).length = last - first := Memory.length_slice hlast
  have hfind : (List.range (last - first + 1 - pat.length)).find? (fun i =>
      decide (Memory.slice v (first + i) (first + i + pat.length) = pat)) =
        leftmost pat (Memory.slice v first last) := by
    unfold leftmost
    rw [hsize]
    refine List.find?_congr fun i hi => ?_
    have hi' := List.mem_range.1 hi
    unfold occursAt
    rw [Memory.drop_slice, Memory.take_slice (by omega)]
  unfold search
  rw [hfind]

end Splitting

end LibNetToy
