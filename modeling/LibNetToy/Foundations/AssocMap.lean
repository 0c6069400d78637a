import LibNetToy.Foundations.Weight

/-!
# Ordered maps

`std::map` as the list of its entries in the order of their keys.  `assign` is
`m[k] = v`, which replaces the value under a key that is there, and `erase` removes a key
and reports how many entries that were.  The order only decides where a new entry stands, so
what is proved here needs nothing of it.
-/

namespace LibNetToy

/-- The entries of a map, in the order of their keys. -/
abbrev AssocMap (κ β : Type) := List (κ × β)

namespace AssocMap

variable {κ β : Type} [DecidableEq κ] [LT κ] [DecidableRel (· < · : κ → κ → Prop)]

/-- The keys of the entries. -/
def keys (m : AssocMap κ β) : List κ :=
  m.map Prod.fst

/-- `m[k] = v`. -/
def assign (k : κ) (v : β) : AssocMap κ β → AssocMap κ β
  | [] => [(k, v)]
  | e :: m =>
    if e.1 = k then (k, v) :: m
    else if k < e.1 then (k, v) :: e :: m
    else e :: assign k v m

/-- The value under a key. -/
def lookup (k : κ) : AssocMap κ β → Option β
  | [] => none
  | e :: m => if e.1 = k then some e.2 else lookup k m

/-- `m.erase(k)`. -/
def erase (k : κ) (m : AssocMap κ β) : AssocMap κ β :=
  m.filter fun e => e.1 ≠ k

/-- `it->second = v` for the entry under the key. -/
def adjust (k : κ) (v : β) (m : AssocMap κ β) : AssocMap κ β :=
  m.map fun e => if e.1 = k then (e.1, v) else e

/-- The number of entries `m.erase(k)` removes. -/
def count (k : κ) (m : AssocMap κ β) : Nat :=
  (m.filter fun e => e.1 = k).length

variable {k k' : κ} {v v' : β} {m : AssocMap κ β}

omit [LT κ] [DecidableRel (· < · : κ → κ → Prop)] in
/-- A key without an entry is not found. -/
theorem lookup_eq_none : lookup k m = none ↔ k ∉ keys m := by
  induction m with
  | nil => simp [lookup, keys]
  | cons e m ih =>
    by_cases he : e.1 = k
    · simp [lookup, keys, he]
    · have hk : k ≠ e.1 := fun h => he h.symm
      rw [lookup, if_neg he, ih]
      simp [keys, hk]

omit [LT κ] [DecidableRel (· < · : κ → κ → Prop)] in
/-- What is found is an entry. -/
theorem mem_of_lookup (h : lookup k m = some v) : (k, v) ∈ m := by
  induction m with
  | nil => cases h
  | cons e m ih =>
    rw [lookup] at h
    split_ifs at h with he
    · obtain rfl := Option.some.inj h
      rw [← he]
      exact List.mem_cons_self ..
    · exact List.mem_cons_of_mem _ (ih h)

/-- A new key is added and nothing else changes. -/
theorem mem_assign (hk : k ∉ keys m) {e : κ × β} : e ∈ assign k v m ↔ e = (k, v) ∨ e ∈ m := by
  induction m with
  | nil => simp [assign]
  | cons f m ih =>
    rw [keys, List.map_cons, List.mem_cons, not_or] at hk
    rw [assign, if_neg (fun h => hk.1 h.symm)]
    split_ifs
    · simp
    · rw [List.mem_cons, ih hk.2, List.mem_cons]
      tauto

/-- An entry afterwards is the new one or was there. -/
theorem mem_of_mem_assign {e : κ × β} (h : e ∈ assign k v m) : e = (k, v) ∨ e ∈ m := by
  induction m with
  | nil => exact Or.inl (List.mem_singleton.1 h)
  | cons f m ih =>
    rw [assign] at h
    split_ifs at h
    · rcases List.mem_cons.1 h with h | h
      · exact Or.inl h
      · exact Or.inr (List.mem_cons_of_mem _ h)
    · exact List.mem_cons.1 h
    · rcases List.mem_cons.1 h with rfl | h
      · exact Or.inr (List.mem_cons_self ..)
      · rcases ih h with h | h
        · exact Or.inl h
        · exact Or.inr (List.mem_cons_of_mem _ h)

/-- The key is among the keys afterwards. -/
theorem mem_keys_assign : k' ∈ keys (assign k v m) ↔ k' = k ∨ k' ∈ keys m := by
  induction m with
  | nil => simp [assign, keys]
  | cons f m ih =>
    rw [assign]
    split_ifs with hf
    · simp [keys, hf]
    · simp [keys]
    · have hsplit : k' ∈ keys (f :: assign k v m) ↔ k' = f.1 ∨ k' ∈ keys (assign k v m) := by
        simp [keys]
      rw [hsplit, ih]
      simp only [keys, List.map_cons, List.mem_cons]
      tauto

/-- A new key joins the keys. -/
theorem nodup_keys_assign (hk : k ∉ keys m) (hm : (keys m).Nodup) :
    (keys (assign k v m)).Nodup := by
  induction m with
  | nil => simp [assign, keys]
  | cons f m ih =>
    rw [keys, List.map_cons, List.mem_cons, not_or] at hk
    rw [keys, List.map_cons, List.nodup_cons] at hm
    rw [assign, if_neg (fun h => hk.1 h.symm)]
    split_ifs
    · rw [keys, List.map_cons, List.map_cons, List.nodup_cons, List.nodup_cons]
      refine ⟨?_, hm⟩
      rw [List.mem_cons, not_or]
      exact hk
    · rw [keys, List.map_cons, List.nodup_cons]
      refine ⟨?_, ih hk.2 hm.2⟩
      intro hf
      obtain ⟨e, he, hef⟩ := List.mem_map.1 hf
      rcases (mem_assign hk.2).1 he with rfl | he
      · exact hk.1 hef
      · exact hm.1 (List.mem_map.2 ⟨e, he, hef⟩)

/-- The weight of a map with a new key. -/
theorem weigh_assign (hk : k ∉ keys m) (w : κ × β → Nat) :
    weigh w (assign k v m) = w (k, v) + weigh w m := by
  induction m with
  | nil => simp [assign]
  | cons f m ih =>
    rw [keys, List.map_cons, List.mem_cons, not_or] at hk
    rw [assign, if_neg (fun h => hk.1 h.symm)]
    split_ifs
    · rw [weigh_cons]
    · rw [weigh_cons, ih hk.2, weigh_cons]
      omega

/-- An assignment adds at most the weight of the new entry. -/
theorem weigh_assign_le (w : κ × β → Nat) :
    weigh w (assign k v m) ≤ w (k, v) + weigh w m := by
  induction m with
  | nil => simp [assign]
  | cons f m ih =>
    rw [assign]
    split_ifs
    · rw [weigh_cons, weigh_cons]
      omega
    · rw [weigh_cons]
    · rw [weigh_cons, weigh_cons]
      omega

omit [LT κ] [DecidableRel (· < · : κ → κ → Prop)] in
/-- Erasing a key takes its entries out, and no others. -/
theorem mem_erase {e : κ × β} : e ∈ erase k m ↔ e ∈ m ∧ e.1 ≠ k := by
  simp [erase]

omit [LT κ] [DecidableRel (· < · : κ → κ → Prop)] in
/-- Erasing a key takes it from the keys, and no other. -/
theorem mem_keys_erase : k' ∈ keys (erase k m) ↔ k' ∈ keys m ∧ k' ≠ k := by
  constructor
  · intro h
    obtain ⟨e, he, rfl⟩ := List.mem_map.1 h
    obtain ⟨hmem, hne⟩ := mem_erase.1 he
    exact ⟨List.mem_map.2 ⟨e, hmem, rfl⟩, hne⟩
  · rintro ⟨h, hne⟩
    obtain ⟨e, he, rfl⟩ := List.mem_map.1 h
    exact List.mem_map.2 ⟨e, mem_erase.2 ⟨he, hne⟩, rfl⟩

omit [LT κ] [DecidableRel (· < · : κ → κ → Prop)] in
/-- Erasing keeps the keys different. -/
theorem nodup_keys_erase (hm : (keys m).Nodup) : (keys (erase k m)).Nodup :=
  hm.sublist (List.filter_sublist.map Prod.fst)

omit [LT κ] [DecidableRel (· < · : κ → κ → Prop)] in
/-- With distinct keys, erasing a key that is there removes one entry. -/
theorem count_eq_one (hm : (keys m).Nodup) (h : (k, v) ∈ m) : count k m = 1 := by
  induction m with
  | nil => cases h
  | cons f m ih =>
    rw [keys, List.map_cons, List.nodup_cons] at hm
    rcases List.mem_cons.1 h with rfl | h
    · have hnone : (m.filter fun e => e.1 = k) = [] := by
        apply List.filter_eq_nil_iff.2
        intro e he hek
        exact hm.1 (List.mem_map.2 ⟨e, he, by simpa using hek⟩)
      rw [count, List.filter_cons_of_pos (by simp), hnone]
      rfl
    · have hfk : f.1 ≠ k := by
        rintro rfl
        exact hm.1 (List.mem_map.2 ⟨_, h, rfl⟩)
      rw [count, List.filter_cons_of_neg (by simpa using hfk)]
      exact ih hm.2 h

omit [LT κ] [DecidableRel (· < · : κ → κ → Prop)] in
/-- With distinct keys, the value found is the one that is there. -/
theorem lookup_of_mem (hm : (keys m).Nodup) (h : (k, v) ∈ m) : lookup k m = some v := by
  induction m with
  | nil => cases h
  | cons f m ih =>
    rw [keys, List.map_cons, List.nodup_cons] at hm
    rcases List.mem_cons.1 h with rfl | h
    · simp [lookup]
    · have hfk : f.1 ≠ k := by
        rintro rfl
        exact hm.1 (List.mem_map.2 ⟨_, h, rfl⟩)
      rw [lookup, if_neg hfk]
      exact ih hm.2 h

omit [LT κ] [DecidableRel (· < · : κ → κ → Prop)] in
/-- With distinct keys, erasing a key that is there takes the weight of its entry. -/
theorem weigh_erase (hm : (keys m).Nodup) (h : (k, v) ∈ m) (w : κ × β → Nat) :
    weigh w m = w (k, v) + weigh w (erase k m) := by
  induction m with
  | nil => cases h
  | cons f m ih =>
    rw [keys, List.map_cons, List.nodup_cons] at hm
    rcases List.mem_cons.1 h with rfl | h
    · have hall : erase k m = m := by
        apply List.filter_eq_self.2
        intro e he
        have hne : e.1 ≠ k := by
          intro hek
          exact hm.1 (List.mem_map.2 ⟨e, he, hek⟩)
        simpa using hne
      have herase : erase k ((k, v) :: m) = erase k m :=
        List.filter_cons_of_neg (by simp)
      rw [weigh_cons, herase, hall]
    · have hfk : f.1 ≠ k := by
        rintro rfl
        exact hm.1 (List.mem_map.2 ⟨_, h, rfl⟩)
      have herase : erase k (f :: m) = f :: erase k m :=
        List.filter_cons_of_pos (by simpa using hfk)
      rw [weigh_cons, ih hm.2 h, herase, weigh_cons]
      omega

omit [LT κ] [DecidableRel (· < · : κ → κ → Prop)] in
/-- Erasing adds no weight. -/
theorem weigh_erase_le (w : κ × β → Nat) : weigh w (erase k m) ≤ weigh w m :=
  (List.filter_sublist.map w).sum_le_sum fun _ _ => Nat.zero_le _

omit [LT κ] [DecidableRel (· < · : κ → κ → Prop)] in
/-- Adjusting a value keeps the keys. -/
@[simp] theorem keys_adjust : keys (adjust k v m) = keys m := by
  rw [keys, adjust, List.map_map]
  apply List.map_congr_left
  intro e _
  simp only [Function.comp_apply]
  split_ifs <;> rfl

omit [LT κ] [DecidableRel (· < · : κ → κ → Prop)] in
/-- Adjusting a value changes the entry of its key only. -/
theorem mem_adjust {e : κ × β} :
    e ∈ adjust k v m ↔ (e = (k, v) ∧ k ∈ keys m) ∨ (e.1 ≠ k ∧ e ∈ m) := by
  constructor
  · intro h
    obtain ⟨f, hf, rfl⟩ := List.mem_map.1 h
    split_ifs with hk
    · left
      exact ⟨by rw [hk], List.mem_map.2 ⟨f, hf, hk⟩⟩
    · exact Or.inr ⟨hk, hf⟩
  · rintro (⟨rfl, hk⟩ | ⟨hk, he⟩)
    · obtain ⟨f, hf, rfl⟩ := List.mem_map.1 hk
      exact List.mem_map.2 ⟨f, hf, if_pos rfl⟩
    · exact List.mem_map.2 ⟨e, he, if_neg hk⟩

omit [LT κ] [DecidableRel (· < · : κ → κ → Prop)] in
/-- With distinct keys, one entry changes its weight. -/
theorem weigh_adjust (hm : (keys m).Nodup) (h : (k, v') ∈ m) (w : κ × β → Nat) :
    weigh w (adjust k v m) + w (k, v') = weigh w m + w (k, v) := by
  induction m with
  | nil => cases h
  | cons f m ih =>
    rw [keys, List.map_cons, List.nodup_cons] at hm
    have hcons : adjust k v (f :: m) = (if f.1 = k then (f.1, v) else f) :: adjust k v m := rfl
    rw [hcons, weigh_cons, weigh_cons]
    rcases List.mem_cons.1 h with rfl | h
    · have hall : adjust k v m = m := by
        apply (List.map_congr_left _).trans (List.map_id m)
        intro e he
        rw [if_neg fun hek => hm.1 (List.mem_map.2 ⟨e, he, hek⟩)]
        rfl
      rw [hall, if_pos rfl]
      show w (k, v) + weigh w m + w (k, v') = w (k, v') + weigh w m + w (k, v)
      omega
    · have hfk : f.1 ≠ k := by
        rintro rfl
        exact hm.1 (List.mem_map.2 ⟨_, h, rfl⟩)
      have hrest := ih hm.2 h
      rw [if_neg hfk]
      omega

omit [LT κ] [DecidableRel (· < · : κ → κ → Prop)] in
/-- A value that weighs least takes the weight of the entry whose place it takes. -/
theorem weigh_adjust_le {w : κ × β → Nat} (h : (k, v') ∈ m) (hleast : ∀ u, w (k, v) ≤ w (k, u)) :
    weigh w (adjust k v m) + w (k, v') ≤ weigh w m + w (k, v) := by
  have hentry : ∀ f : κ × β, w (if f.1 = k then (f.1, v) else f) ≤ w f := by
    intro f
    split_ifs with hf
    · subst hf
      exact hleast f.2
    · exact Nat.le_refl _
  have hall : ∀ n : AssocMap κ β, weigh w (adjust k v n) ≤ weigh w n := by
    intro n
    unfold weigh adjust
    rw [List.map_map]
    exact List.sum_le_sum fun f _ => hentry f
  induction m with
  | nil => cases h
  | cons f m ih =>
    have hcons : adjust k v (f :: m) = (if f.1 = k then (f.1, v) else f) :: adjust k v m := rfl
    rw [hcons, weigh_cons, weigh_cons]
    rcases List.mem_cons.1 h with rfl | h
    · have hm := hall m
      rw [if_pos rfl]
      show w (k, v) + weigh w (adjust k v m) + w (k, v') ≤ w (k, v') + weigh w m + w (k, v)
      omega
    · have hm := ih h
      have hf := hentry f
      omega

end AssocMap

/-! ## The order of the keys -/

namespace AssocMap

variable {κ β : Type} [LT κ] {k : κ} {v : β} {m : AssocMap κ β}

/-- The entries are in the order of their keys. -/
def Sorted (m : AssocMap κ β) : Prop :=
  (keys m).Pairwise (· < ·)

/-- The first key is the smallest. -/
theorem sorted_cons {e : κ × β} :
    Sorted (e :: m) ↔ (∀ k ∈ keys m, e.1 < k) ∧ Sorted m := by
  rw [Sorted, keys, List.map_cons, List.pairwise_cons]
  rfl

/-- Keys in order are different. -/
theorem Sorted.nodup [Std.Asymm (· < · : κ → κ → Prop)] (h : Sorted m) : (keys m).Nodup := by
  refine List.Pairwise.imp ?_ h
  rintro a _ hlt rfl
  exact Std.Asymm.asymm a a hlt hlt

section DecidableEq

variable [DecidableEq κ]

/-- Erasing keeps the order. -/
theorem Sorted.erase (h : Sorted m) : Sorted (AssocMap.erase k m) :=
  h.sublist (List.filter_sublist.map Prod.fst)

/-- Adjusting keeps the order. -/
theorem Sorted.adjust (h : Sorted m) : Sorted (AssocMap.adjust k v m) := by
  rw [Sorted, keys_adjust]
  exact h

/-- A key smaller than the first one is not there. -/
theorem Sorted.lookup_eq_none [Std.Asymm (· < · : κ → κ → Prop)] {e : κ × β}
    (h : Sorted (e :: m)) (hk : k < e.1) : lookup k (e :: m) = none := by
  obtain ⟨hfirst, -⟩ := sorted_cons.1 h
  rw [AssocMap.lookup_eq_none]
  intro hmem
  rw [keys, List.map_cons] at hmem
  rcases List.mem_cons.1 hmem with rfl | hmem
  · exact Std.Asymm.asymm _ _ hk hk
  · exact Std.Asymm.asymm _ _ hk (hfirst k hmem)

variable [DecidableRel (· < · : κ → κ → Prop)]

/-- What was under the key makes way for the new value. -/
theorem Sorted.weigh_assign [Std.Asymm (· < · : κ → κ → Prop)] (h : Sorted m)
    (w : κ × β → Nat) : weigh w (assign k v m) + (lookup k m).elim 0 (fun u => w (k, u)) =
      weigh w m + w (k, v) := by
  induction m with
  | nil => simp [assign, lookup]
  | cons e m ih =>
    obtain ⟨j, u⟩ := e
    rw [assign]
    split_ifs with heq hlt
    · obtain rfl : j = k := heq
      simp only [lookup, if_true, weigh_cons, Option.elim_some]
      omega
    · rw [h.lookup_eq_none hlt, weigh_cons, Option.elim_none]
      omega
    · rw [lookup, if_neg heq, weigh_cons, weigh_cons]
      have hrest := ih (sorted_cons.1 h).2
      omega

/-- Assigning keeps the order. -/
theorem Sorted.assign [IsTrans κ (· < ·)] [Std.Trichotomous (· < · : κ → κ → Prop)]
    (h : Sorted m) : Sorted (AssocMap.assign k v m) := by
  induction m with
  | nil => exact List.pairwise_singleton _ _
  | cons e m ih =>
    obtain ⟨hfirst, hrest⟩ := sorted_cons.1 h
    rw [AssocMap.assign]
    split_ifs with heq hlt
    · subst heq
      exact sorted_cons.2 ⟨hfirst, hrest⟩
    · refine sorted_cons.2 ⟨?_, h⟩
      intro j hj
      rw [keys, List.map_cons] at hj
      rcases List.mem_cons.1 hj with rfl | hj
      · exact hlt
      · exact IsTrans.trans _ _ _ hlt (hfirst j hj)
    · refine sorted_cons.2 ⟨?_, ih hrest⟩
      intro j hj
      rcases mem_keys_assign.1 hj with rfl | hj
      · by_contra hno
        exact heq (Std.Trichotomous.trichotomous _ _ hno hlt)
      · exact hfirst j hj

end DecidableEq

end AssocMap

end LibNetToy
