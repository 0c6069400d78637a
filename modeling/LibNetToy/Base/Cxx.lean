import Mathlib.Tactic

/-!
# The parts of C++ and of asio the sources rely on

`size_t` is 64 bits wide and its arithmetic wraps.  A call ends normally, in a failed
`assert`, or in the `std::length_error` that a `std::vector<char>` raises when it is asked
for more than `max_size()` elements; the vector is unchanged in that case.  Loops and timers
are called by names.
-/

namespace LibNetToy

/-- The name of an event loop and of the thread running it. -/
abbrev LoopId := Nat

/-- The name of a `deadline_timer`. -/
abbrev TimerId := Nat

/-- The errors an asynchronous operation may end with. -/
inductive ErrorCode
  | eof
  | operationAborted
  | other
  deriving DecidableEq, Repr

/-! ## Arithmetic of `size_t` -/

namespace SizeT

/-- Addition of two values of type `size_t`. -/
def add (a b : Nat) : Nat :=
  (a + b) % 2 ^ 64

/-- Subtraction of two values of type `size_t`. -/
def sub (a b : Nat) : Nat :=
  (a + (2 ^ 64 - b)) % 2 ^ 64

/-- Addition is the one of the natural numbers while it stays below `2 ^ 64`. -/
theorem add_of_lt {a b : Nat} (h : a + b < 2 ^ 64) : add a b = a + b :=
  Nat.mod_eq_of_lt h

/-- An addition that passes `2 ^ 64` loses exactly one turn. -/
theorem add_of_wrap {a b : Nat} (ha : a < 2 ^ 64) (hb : b < 2 ^ 64) (h : 2 ^ 64 ≤ a + b) :
    add a b = a + b - 2 ^ 64 := by
  unfold add
  omega

/-- Subtraction is the one of the natural numbers when it does not go below zero. -/
theorem sub_of_le {a b : Nat} (h : b ≤ a) (ha : a < 2 ^ 64) : sub a b = a - b := by
  unfold sub
  omega

/-- Subtraction of the larger value gives the difference one turn further. -/
theorem sub_of_wrap {a b : Nat} (h : a < b) (hb : b < 2 ^ 64) :
    sub a b = a + 2 ^ 64 - b := by
  unfold sub
  omega

end SizeT

/-! ## Failed assertions and exceptions -/

/-- The `assert`s of the sources. -/
inductive Assertion
  -- `Buffer`
  | bufferReadable
  | bufferWritable
  | bufferPrependable
  | retrieve
  | retrieveUntilBegin
  | retrieveUntilEnd
  | retrieveAsString
  | ensureWritableBytes
  | hasWritten
  | unwrite
  | peekInt
  | prepend
  | makeSpaceReader
  | makeSpaceReadable
  -- `EventLoop` and `EventLoopThreadPool`
  | assertInLoopThread
  | poolStart
  | getNextLoop
  -- `TimerQueue`
  | handleTimer
  -- `TcpConnection`
  | handleClose
  | connectEstablished
  | destructor
  -- `TcpServer`
  | serverStart
  | newConnection
  | removeConnectionInLoop
  -- `Connector` and `TcpClient`
  | startInLoop
  | retry
  | clientDestructorLoop
  | removeConnectionLoop
  | removeConnection
  deriving DecidableEq, Repr

/-- The ways a call ends other than by returning.  A call on an object that was destroyed, an
access outside a vector and the use of an iterator of an erased entry have no defined
behaviour.  `lengthError` and `systemError` are exceptions that nobody catches: a vector that
gets too long, and an operation on a socket that was closed. -/
inductive Fault
  | assertion (a : Assertion)
  | lengthError
  | systemError
  | useAfterDestruction
  | outOfRange
  | invalidIterator
  deriving DecidableEq, Repr

/-- What follows a call that returned runs on the returned value. -/
theorem ok_bind {α β : Type} (a : α) (f : α → Except Fault β) :
    ((Except.ok a : Except Fault α) >>= f) = f a := rfl

/-- A call returns `r` exactly when its parts return. -/
theorem bind_eq_ok {α β : Type} {x : Except Fault α} {f : α → Except Fault β} {r : β} :
    (x >>= f) = .ok r ↔ ∃ a, x = .ok a ∧ f a = .ok r := by
  cases x with
  | error e =>
    constructor
    · intro h
      cases h
    · rintro ⟨a, h, -⟩
      cases h
  | ok a =>
    constructor
    · intro h
      exact ⟨a, rfl, h⟩
    · rintro ⟨a', h, hf⟩
      obtain rfl := Except.ok.inj h
      exact hf

theorem pure_eq_ok {α : Type} {a r : α} : (pure a : Except Fault α) = .ok r ↔ r = a :=
  ⟨fun h => (Except.ok.inj h).symm, fun h => congrArg Except.ok h.symm⟩

/-- `assert(p)`. -/
def check (p : Prop) [Decidable p] (a : Assertion) : Except Fault Unit :=
  if p then .ok () else .error (.assertion a)

/-- An assertion that holds does nothing. -/
theorem check_of {p : Prop} [Decidable p] {a : Assertion} (h : p) : check p a = .ok () :=
  if_pos h

/-- What follows an assertion runs exactly when the assertion holds. -/
theorem check_bind_eq_ok {p : Prop} [Decidable p] {a : Assertion} {α : Type}
    {f : Unit → Except Fault α} {r : α} :
    (check p a >>= f) = .ok r ↔ p ∧ f () = .ok r := by
  unfold check
  by_cases hp : p
  · rw [if_pos hp]
    exact ⟨fun h => ⟨hp, h⟩, fun h => h.2⟩
  · rw [if_neg hp]
    exact ⟨fun h => by simp [bind, Except.bind] at h, fun h => absurd h.1 hp⟩

/-- A call fails exactly when one of its parts does. -/
theorem bind_eq_error {α β : Type} {x : Except Fault α} {f : α → Except Fault β} {e : Fault} :
    (x >>= f) = .error e ↔ x = .error e ∨ ∃ a, x = .ok a ∧ f a = .error e := by
  cases x with
  | error e' =>
    constructor
    · intro h
      exact .inl (congrArg Except.error (Except.error.inj h))
    · rintro (h | ⟨a, h, -⟩)
      · exact congrArg Except.error (Except.error.inj h)
      · cases h
  | ok a =>
    constructor
    · intro h
      exact .inr ⟨a, rfl, h⟩
    · rintro (h | ⟨a', h, hf⟩)
      · cases h
      · obtain rfl := Except.ok.inj h
        exact hf

theorem pure_ne_error {α : Type} {a : α} {e : Fault} : (pure a : Except Fault α) ≠ .error e :=
  nofun

/-- An assertion that fails names itself. -/
theorem check_eq_error {p : Prop} [Decidable p] {a : Assertion} {e : Fault} :
    check p a = .error e ↔ ¬ p ∧ e = .assertion a := by
  unfold check
  by_cases hp : p
  · simp [hp]
  · simp [hp, eq_comm]

/-- A call that starts with an assertion fails with it, or later. -/
theorem check_bind_eq_error {p : Prop} [Decidable p] {a : Assertion} {α : Type}
    {f : Unit → Except Fault α} {e : Fault} :
    (check p a >>= f) = .error e ↔ (¬ p ∧ e = .assertion a) ∨ (p ∧ f () = .error e) := by
  unfold check
  by_cases hp : p
  · rw [if_pos hp]
    exact ⟨fun h => .inr ⟨hp, h⟩, fun h => h.elim (fun h => absurd hp h.1) fun h => h.2⟩
  · rw [if_neg hp]
    constructor
    · intro h
      exact .inl ⟨hp, (Except.error.inj h).symm⟩
    · rintro (⟨-, rfl⟩ | ⟨h, -⟩)
      · rfl
      · exact absurd h hp

/-! ## `std::vector` and `std::string` -/

/-- `std::vector<char>::max_size()` with a 64-bit `ptrdiff_t`. -/
def maxSize : Nat :=
  2 ^ 63 - 1

/-- A `std::string`; it is never longer than the largest vector. -/
structure StdString where
  bytes : List UInt8
  length_le : bytes.length ≤ maxSize
  deriving DecidableEq, Repr

/-- The constructor `std::vector<char>(n)`. -/
def vectorOfSize (n : Nat) : Except Fault (List UInt8) :=
  if maxSize < n then .error .lengthError else .ok (List.replicate n 0)

/-- `resize(n)` of a `std::vector<char>`. -/
def vectorResize (v : List UInt8) (n : Nat) : Except Fault (List UInt8) :=
  if maxSize < n then .error .lengthError
  else .ok (v.take n ++ List.replicate (n - v.length) 0)

/-- `v[i]`. -/
def vectorAt {α : Type} (v : List α) (i : Int) : Except Fault α :=
  if i < 0 then .error .outOfRange
  else match v[i.toNat]? with
    | some a => .ok a
    | none => .error .outOfRange

theorem vectorAt_of_getElem? {α : Type} {v : List α} {n : Nat} {a : α} (h : v[n]? = some a) :
    vectorAt v n = .ok a := by
  rw [vectorAt, if_neg (by omega), Int.toNat_natCast, h]

/-- A vector resized to an allowed size has that size. -/
theorem vectorResize_length (v : List UInt8) {n : Nat} (hn : n ≤ maxSize) :
    ∃ v', vectorResize v n = .ok v' ∧ v'.length = n := by
  refine ⟨_, if_neg (by omega), ?_⟩
  simp only [List.length_append, List.length_take, List.length_replicate]
  omega

/-- Growing a vector keeps its elements and adds zero bytes. -/
theorem vectorResize_of_le {v : List UInt8} {n : Nat} (hv : v.length ≤ n) (hn : n ≤ maxSize) :
    vectorResize v n = .ok (v ++ List.replicate (n - v.length) 0) := by
  rw [vectorResize, if_neg (by omega), List.take_of_length_le hv]

end LibNetToy
