import Mathlib.Tactic

/-!
# Regions of a contiguous memory

A contiguous memory is a list; a region of it is given by two indices.  `slice` reads a
region, `overwrite` stores a list of values at an index, and `copyForward` is the
element-by-element loop of `std::copy`, which may have overlapping source and
destination.  The lemmas say how reading a region behaves under these writes; all of
them come from the pointwise descriptions `getElem?_slice`, `getElem?_overwrite` and
`getElem?_copyForward`.
-/

namespace LibNetToy

namespace Memory

variable {α : Type}

/-- The values at the indices `a, …, b - 1`. -/
def slice (v : List α) (a b : Nat) : List α :=
  (v.take b).drop a

/-- The memory after storing `xs` from index `off` on. -/
def overwrite (v : List α) (off : Nat) (xs : List α) : List α :=
  v.take off ++ xs ++ v.drop (off + xs.length)

/-- The loop of `std::copy(first, last, d_first)` over `n` elements, front to back. -/
def copyForward (v : List α) (src dst : Nat) : Nat → List α
  | 0 => v
  | n + 1 =>
    copyForward (match v[src]? with | some x => v.set dst x | none => v) (src + 1) (dst + 1) n

/-! ## Reading a region -/

/-- A region read pointwise. -/
theorem getElem?_slice (v : List α) (a b i : Nat) :
    (slice v a b)[i]? = if a + i < b then v[a + i]? else none := by
  simp only [slice, List.getElem?_drop, List.getElem?_take]

/-- The length of a region inside the memory. -/
theorem length_slice {v : List α} {a b : Nat} (hb : b ≤ v.length) :
    (slice v a b).length = b - a := by
  simp only [slice, List.length_drop, List.length_take]
  omega

/-- A region whose bounds coincide or are swapped is empty. -/
theorem slice_eq_nil {v : List α} {a b : Nat} (h : b ≤ a) : slice v a b = [] := by
  refine List.eq_nil_of_length_eq_zero ?_
  simp only [slice, List.length_drop, List.length_take]
  omega

/-- Dropping from a region moves its left end. -/
theorem drop_slice (v : List α) (a b n : Nat) : (slice v a b).drop n = slice v (a + n) b := by
  simp only [slice, List.drop_drop]

/-- Taking from a region moves its right end. -/
theorem take_slice {v : List α} {a b n : Nat} (h : a + n ≤ b) :
    (slice v a b).take n = slice v a (a + n) := by
  refine List.ext_getElem? fun i => ?_
  rw [List.getElem?_take, getElem?_slice, getElem?_slice]
  split_ifs <;> first | rfl | omega

/-- Two adjacent regions make one region. -/
theorem slice_append_slice {v : List α} {a b c : Nat} (hab : a ≤ b) (hbc : b ≤ c)
    (hc : c ≤ v.length) : slice v a b ++ slice v b c = slice v a c := by
  have hlen : (slice v a b).length = b - a := length_slice (Nat.le_trans hbc hc)
  refine List.ext_getElem? fun i => ?_
  by_cases hi : i < b - a
  · rw [List.getElem?_append_left (by omega), getElem?_slice, getElem?_slice,
      if_pos (by omega), if_pos (by omega)]
  · rw [List.getElem?_append_right (by omega), hlen, getElem?_slice, getElem?_slice,
      show b + (i - (b - a)) = a + i by omega]

/-- A region of the front part of a memory does not see what follows. -/
theorem slice_append_left {v w : List α} {a b : Nat} (hb : b ≤ v.length) :
    slice (v ++ w) a b = slice v a b := by
  simp only [slice, List.take_append_of_le_length hb]

/-! ## Writing a region -/

/-- Storing inside the memory keeps its size. -/
theorem length_overwrite {v xs : List α} {off : Nat} (h : off + xs.length ≤ v.length) :
    (overwrite v off xs).length = v.length := by
  simp only [overwrite, List.length_append, List.length_take, List.length_drop]
  omega

/-- The memory after a store, pointwise. -/
theorem getElem?_overwrite {v xs : List α} {off : Nat} (h : off + xs.length ≤ v.length)
    (i : Nat) : (overwrite v off xs)[i]? =
      if off ≤ i ∧ i < off + xs.length then xs[i - off]? else v[i]? := by
  have htake : (v.take off).length = off := by
    rw [List.length_take]
    omega
  unfold overwrite
  rcases lt_or_ge i off with hlt | hge
  · rw [List.append_assoc, List.getElem?_append_left (by omega), if_neg (by omega),
      List.getElem?_take, if_pos hlt]
  · rcases lt_or_ge i (off + xs.length) with hin | hout
    · rw [List.append_assoc, List.getElem?_append_right (by omega),
        List.getElem?_append_left (by omega), if_pos ⟨hge, hin⟩, htake]
    · rw [List.getElem?_append_right (by rw [List.length_append]; omega), if_neg (by omega),
        List.getElem?_drop, List.length_append, htake]
      congr 1
      omega

/-- A region before the stored values is unchanged. -/
theorem slice_overwrite_of_le {v xs : List α} {off a b : Nat}
    (h : off + xs.length ≤ v.length) (hb : b ≤ off) :
    slice (overwrite v off xs) a b = slice v a b := by
  refine List.ext_getElem? fun i => ?_
  simp only [getElem?_slice, getElem?_overwrite h]
  split_ifs <;> first | rfl | omega

/-- A region after the stored values is unchanged. -/
theorem slice_overwrite_of_ge {v xs : List α} {off a b : Nat}
    (h : off + xs.length ≤ v.length) (ha : off + xs.length ≤ a) :
    slice (overwrite v off xs) a b = slice v a b := by
  refine List.ext_getElem? fun i => ?_
  simp only [getElem?_slice, getElem?_overwrite h]
  split_ifs <;> first | rfl | omega

/-- The region just stored holds the stored values. -/
theorem slice_overwrite_self {v xs : List α} {off : Nat} (h : off + xs.length ≤ v.length) :
    slice (overwrite v off xs) off (off + xs.length) = xs := by
  refine List.ext_getElem? fun i => ?_
  simp only [getElem?_slice, getElem?_overwrite h]
  rcases lt_or_ge i xs.length with hi | hi
  · rw [if_pos (by omega), if_pos (by omega), Nat.add_sub_cancel_left]
  · rw [if_neg (by omega), List.getElem?_eq_none hi]

/-- Storing nothing changes nothing. -/
@[simp] theorem overwrite_nil (v : List α) (off : Nat) : overwrite v off [] = v := by
  simp [overwrite]

/-- The regions `[a, b)` and `[c, d)` have no index in common. -/
def Apart (a b c d : Nat) : Prop :=
  b ≤ a ∨ d ≤ c ∨ b ≤ c ∨ d ≤ a

instance (a b c d : Nat) : Decidable (Apart a b c d) :=
  inferInstanceAs (Decidable (_ ∨ _ ∨ _ ∨ _))

/-- A smaller region has no more indices in common. -/
theorem Apart.mono {a b c d c' d' : Nat} (h : Apart a b c d) (hc : c ≤ c') (hd : d' ≤ d) :
    Apart a b c' d' := by
  unfold Apart at h ⊢
  omega

/-- Reading a region that was not written. -/
theorem slice_overwrite_of_apart {v xs : List α} {off a b : Nat}
    (h : off + xs.length ≤ v.length) (hapart : Apart a b off (off + xs.length)) :
    slice (overwrite v off xs) a b = slice v a b := by
  rcases hapart with hempty | hnothing | hbefore | hbehind
  · rw [slice_eq_nil hempty, slice_eq_nil hempty]
  · have hxs : xs = [] := List.eq_nil_of_length_eq_zero (by omega)
    rw [hxs, overwrite_nil]
  · exact slice_overwrite_of_le h hbefore
  · exact slice_overwrite_of_ge h hbehind

/-! ## Copying a region to the front -/

/-- The loop of `std::copy` towards the front, pointwise: no element is overwritten
before it is read, because the destination never runs ahead of the source. -/
theorem getElem?_copyForward (n : Nat) (v : List α) (src dst : Nat) (hds : dst ≤ src)
    (hn : src + n ≤ v.length) (i : Nat) : (copyForward v src dst n)[i]? =
      if dst ≤ i ∧ i < dst + n then v[src + (i - dst)]? else v[i]? := by
  induction n generalizing v src dst with
  | zero => rw [copyForward, if_neg (by omega)]
  | succ n ih =>
    have hsrc : src < v.length := by omega
    rw [copyForward, List.getElem?_eq_getElem hsrc]
    rw [ih (v.set dst v[src]) (src + 1) (dst + 1) (by omega)
      (by rw [List.length_set]; omega)]
    simp only [List.getElem?_set]
    rcases lt_trichotomy i dst with hi | rfl | hi
    · rw [if_neg (by omega), if_neg (by omega), if_neg (by omega)]
    · rw [if_neg (by omega), if_pos rfl, if_pos (by omega), if_pos (by omega), Nat.sub_self,
        Nat.add_zero, List.getElem?_eq_getElem hsrc]
    · rw [if_neg (show ¬dst = src + 1 + (i - (dst + 1)) by omega),
        if_neg (show ¬dst = i by omega),
        show src + 1 + (i - (dst + 1)) = src + (i - dst) by omega]
      split_ifs <;> first | rfl | omega

/-- Copying a region towards the front stores the region as it was before the copy. -/
theorem copyForward_eq_overwrite {v : List α} {src dst n : Nat} (hds : dst ≤ src)
    (hn : src + n ≤ v.length) :
    copyForward v src dst n = overwrite v dst (slice v src (src + n)) := by
  have hlen : (slice v src (src + n)).length = n := by
    rw [length_slice hn]
    omega
  refine List.ext_getElem? fun i => ?_
  rw [getElem?_copyForward n v src dst hds hn, getElem?_overwrite (by omega), hlen,
    getElem?_slice]
  split_ifs <;> first | rfl | omega

end Memory

end LibNetToy
