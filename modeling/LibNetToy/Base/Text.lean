import Mathlib.Tactic

/-!
# Decimal numbers in text

What a stream prints for an `int`, and what `snprintf` leaves in a buffer.  The names of
connections end in such a number; two numbers have the same text only if they are equal.
-/

namespace LibNetToy

namespace Text

/-- The character of a decimal digit. -/
def digitChar (d : Nat) : Char :=
  Char.ofNat ('0'.toNat + d)

/-- The digits of a natural number, with fuel for their number. -/
def decimalAux : Nat → Nat → List Char
  | 0, _ => []
  | fuel + 1, n =>
    if n < 10 then [digitChar n] else decimalAux fuel (n / 10) ++ [digitChar (n % 10)]

/-- The decimal text of a natural number. -/
def decimal (n : Nat) : List Char :=
  decimalAux (n + 1) n

/-- `os << x` for an `int`. -/
def ofInt (x : Int) : List Char :=
  if x < 0 then '-' :: decimal x.natAbs else decimal x.natAbs

/-- What `snprintf(buf, size, ...)` leaves in `buf` of a text, without the terminator. -/
def snprintf (size : Nat) (text : List Char) : List Char :=
  text.take (size - 1)

/-- The value of a text of digits. -/
def value (cs : List Char) : Nat :=
  cs.foldl (fun n c => 10 * n + (c.toNat - '0'.toNat)) 0

theorem value_append (cs : List Char) (c : Char) :
    value (cs ++ [c]) = 10 * value cs + (c.toNat - '0'.toNat) := by
  rw [value, List.foldl_append]
  rfl

theorem toNat_digitChar {d : Nat} (h : d < 10) : (digitChar d).toNat - '0'.toNat = d := by
  have hall : ∀ d < 10, (digitChar d).toNat - '0'.toNat = d := by decide
  exact hall d h

theorem value_decimalAux (fuel n : Nat) (h : n < fuel) : value (decimalAux fuel n) = n := by
  induction fuel generalizing n with
  | zero => exact absurd h (Nat.not_lt_zero n)
  | succ fuel ih =>
    rw [decimalAux]
    by_cases hn : n < 10
    · rw [if_pos hn]
      show 10 * 0 + ((digitChar n).toNat - '0'.toNat) = n
      rw [toNat_digitChar hn]
      omega
    · rw [if_neg hn, value_append, ih (n / 10) (by omega),
        toNat_digitChar (Nat.mod_lt n (by decide))]
      exact Nat.div_add_mod n 10

/-- The text of a natural number determines it. -/
theorem decimal_injective : Function.Injective decimal := by
  intro m n h
  have hm : value (decimal m) = m := value_decimalAux (m + 1) m (Nat.lt_succ_self m)
  have hn : value (decimal n) = n := value_decimalAux (n + 1) n (Nat.lt_succ_self n)
  rw [← hm, h, hn]

/-- On the numbers that are not negative the text of an `int` determines it. -/
theorem ofInt_injOn {x y : Int} (hx : 0 ≤ x) (hy : 0 ≤ y) (h : ofInt x = ofInt y) : x = y := by
  rw [ofInt, ofInt, if_neg (by omega), if_neg (by omega)] at h
  have habs := decimal_injective h
  omega

theorem ofInt_natCast (n : Nat) : ofInt (n : Int) = decimal n :=
  if_neg (by omega)

/-- More fuel than the number changes nothing. -/
theorem decimalAux_eq {m k n : Nat} (hm : n < m) (hk : n < k) :
    decimalAux m n = decimalAux k n := by
  induction m generalizing k n with
  | zero => exact absurd hm (Nat.not_lt_zero n)
  | succ m ih =>
    obtain ⟨k, rfl⟩ : ∃ k', k = k' + 1 := ⟨k - 1, by omega⟩
    rw [decimalAux, decimalAux]
    split_ifs with hn
    · rfl
    · rw [@ih k (n / 10) (by omega) (by omega)]

/-- The last digit stands after the text of the others. -/
theorem decimal_eq {n : Nat} (h : 10 ≤ n) :
    decimal n = decimal (n / 10) ++ [digitChar (n % 10)] := by
  rw [decimal, decimalAux, if_neg (by omega), decimal, @decimalAux_eq n (n / 10 + 1) (n / 10)
    (by omega) (by omega)]

theorem decimal_of_lt {n : Nat} (h : n < 10) : decimal n = [digitChar n] :=
  if_pos h

/-- A number below `10 ^ k` has at most `k` digits. -/
theorem length_decimal_le {k n : Nat} (hk : 0 < k) (h : n < 10 ^ k) :
    (decimal n).length ≤ k := by
  induction k generalizing n with
  | zero => exact absurd hk (Nat.lt_irrefl 0)
  | succ k ih =>
    by_cases hn : n < 10
    · rw [decimal_of_lt hn, List.length_singleton]
      omega
    · have hpos : 0 < k := by
        by_contra hzero
        obtain rfl : k = 0 := by omega
        omega
      have hdiv : n / 10 < 10 ^ k := by
        rw [Nat.pow_succ] at h
        omega
      have hlen := ih hpos hdiv
      rw [decimal_eq (by omega), List.length_append, List.length_singleton]
      omega

/-- A number from `10 ^ k` on has more than `k` digits. -/
theorem lt_length_decimal {k n : Nat} (h : 10 ^ k ≤ n) : k < (decimal n).length := by
  induction k generalizing n with
  | zero =>
    by_cases hn : n < 10
    · rw [decimal_of_lt hn]
      exact Nat.one_pos
    · rw [decimal_eq (by omega), List.length_append, List.length_singleton]
      omega
  | succ k ih =>
    have hpow : 1 ≤ 10 ^ k := Nat.one_le_pow _ _ (by decide)
    rw [Nat.pow_succ] at h
    have hlen := @ih (n / 10) (by omega)
    rw [decimal_eq (by omega), List.length_append, List.length_singleton]
    omega

example : ofInt 2047 = ['2', '0', '4', '7'] := by decide

end Text

end LibNetToy
