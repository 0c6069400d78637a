import LibNetToy.Base.Cxx

/-!
# The loops of a thread pool

The member functions of `base/EventLoopThreadPool.cpp`.  The pool starts a number of threads
with a loop each and hands their loops out in turn; without threads it hands out the base
loop.  `next_` is an `int` and stays below the number of loops, so its increment does not
overflow.
-/

namespace LibNetToy

/-- The fields of class `EventLoopThreadPool`; `loops_` also stands for `threads_`. -/
structure EventLoopThreadPool where
  baseLoop_ : LoopId
  started_ : Bool
  numThreads_ : Int
  next_ : Int
  loops_ : List LoopId
  deriving DecidableEq, Repr

namespace EventLoopThreadPool

/-- The constructor. -/
def make (baseLoop : LoopId) : EventLoopThreadPool where
  baseLoop_ := baseLoop
  started_ := false
  numThreads_ := 0
  next_ := 0
  loops_ := []

def setThreadNum (pool : EventLoopThreadPool) (numThreads : Int) : EventLoopThreadPool :=
  { pool with numThreads_ := numThreads }

/-- `startLoop` of the `i`-th thread returns the loop `fresh i`. -/
def start (pool : EventLoopThreadPool) (here : Option LoopId) (fresh : Nat → LoopId) :
    Except Fault EventLoopThreadPool := do
  check (pool.started_ = false) .poolStart
  check (here = some pool.baseLoop_) .assertInLoopThread
  pure { pool with
    started_ := true
    loops_ := pool.loops_ ++ (List.range pool.numThreads_.toNat).map fresh }

/-- The comparison with the size converts `next_` to `size_t`. -/
def getNextLoop (pool : EventLoopThreadPool) (here : Option LoopId) :
    Except Fault (LoopId × EventLoopThreadPool) := do
  check (here = some pool.baseLoop_) .assertInLoopThread
  check (pool.started_ = true) .getNextLoop
  if pool.loops_ = [] then
    pure (pool.baseLoop_, pool)
  else do
    let loop ← vectorAt pool.loops_ pool.next_
    let next := pool.next_ + 1
    pure (loop, { pool with
      next_ := if next < 0 ∨ (pool.loops_.length : Int) ≤ next then 0 else next })

variable {pool q : EventLoopThreadPool} {here : Option LoopId}

/-- `start` is called once, on the thread of the base loop. -/
theorem start_eq_ok {fresh : Nat → LoopId} : pool.start here fresh = .ok q ↔
    pool.started_ = false ∧ here = some pool.baseLoop_ ∧ q = { pool with
      started_ := true
      loops_ := pool.loops_ ++ (List.range pool.numThreads_.toNat).map fresh } := by
  simp only [start, check_bind_eq_ok, pure_eq_ok]

/-- `getNextLoop` returns the base loop, or the loop at its position and goes on to the next. -/
theorem getNextLoop_eq_ok {l : LoopId} : pool.getNextLoop here = .ok (l, q) ↔
    here = some pool.baseLoop_ ∧ pool.started_ = true ∧
      ((pool.loops_ = [] ∧ l = pool.baseLoop_ ∧ q = pool) ∨
        (pool.loops_ ≠ [] ∧ vectorAt pool.loops_ pool.next_ = .ok l ∧ q = { pool with
          next_ := if pool.next_ + 1 < 0 ∨ (pool.loops_.length : Int) ≤ pool.next_ + 1 then 0
            else pool.next_ + 1 })) := by
  simp only [getNextLoop, check_bind_eq_ok]
  by_cases h : pool.loops_ = []
  · simp [h, pure_eq_ok]
  · simp only [h, if_false, bind_eq_ok, pure_eq_ok, Prod.mk.injEq]
    simp [h]

/-- Only the position of the next turn changes. -/
theorem getNextLoop_next {l : LoopId} (h : pool.getNextLoop here = .ok (l, q)) :
    ∃ next, q = { pool with next_ := next } := by
  rcases (getNextLoop_eq_ok.1 h).2.2 with ⟨-, -, rfl⟩ | ⟨-, -, rfl⟩
  · exact ⟨_, rfl⟩
  · exact ⟨_, rfl⟩

/-! ## Taking turns -/

/-- The loop whose turn it is after `i` calls of `getNextLoop`. -/
def turn (pool : EventLoopThreadPool) (i : Nat) : LoopId :=
  (pool.loops_[i % pool.loops_.length]?).getD pool.baseLoop_

/-- The pool was started and `getNextLoop` was called `n` times since. -/
structure Turned (pool : EventLoopThreadPool) (n : Nat) : Prop where
  started : pool.started_ = true
  next : pool.next_ = (n % max 1 pool.loops_.length : Nat)

/-- Without threads it is always the turn of the base loop. -/
theorem turn_nil (h : pool.loops_ = []) (i : Nat) : pool.turn i = pool.baseLoop_ := by
  simp [turn, h]

/-- The turn as a position in the list. -/
theorem getElem?_turn (h : pool.loops_ ≠ []) (i : Nat) :
    pool.loops_[i % pool.loops_.length]? = some (pool.turn i) := by
  have hlt : i % pool.loops_.length < pool.loops_.length :=
    Nat.mod_lt _ (List.length_pos_iff.2 h)
  simp [turn, hlt]

/-- The turn is one of the loops. -/
theorem turn_mem (h : pool.loops_ ≠ []) (i : Nat) : pool.turn i ∈ pool.loops_ :=
  List.mem_of_getElem? (getElem?_turn h i)

/-- The position is always one of a loop. -/
theorem Turned.next_lt {n : Nat} (h : pool.Turned n) :
    0 ≤ pool.next_ ∧ pool.next_ < max 1 (pool.loops_.length : Int) := by
  have hlt : n % max 1 pool.loops_.length < max 1 pool.loops_.length :=
    Nat.mod_lt _ (by omega)
  have hnext := h.next
  omega

/-- Counting up and starting again at the end is counting modulo the length. -/
theorem succ_mod_eq {n k : Nat} (hk : 0 < k) :
    (n + 1) % k = if k ≤ n % k + 1 then 0 else n % k + 1 := by
  have hlt := Nat.mod_lt n hk
  rw [Nat.add_mod]
  rcases Nat.lt_or_ge 1 k with h1 | h1
  · rw [Nat.mod_eq_of_lt h1]
    split_ifs with h
    · have heq : n % k + 1 = k := by omega
      rw [heq, Nat.mod_self]
    · exact Nat.mod_eq_of_lt (by omega)
  · obtain rfl : k = 1 := by omega
    simp [Nat.mod_one]

/-- A call in turn returns the loop whose turn it is. -/
theorem Turned.getNextLoop {n : Nat} {l : LoopId} (h : pool.Turned n)
    (hcall : pool.getNextLoop here = .ok (l, q)) :
    l = pool.turn n ∧ q.Turned (n + 1) ∧ q.loops_ = pool.loops_ ∧
      q.baseLoop_ = pool.baseLoop_ := by
  have hnext := h.next
  rcases (getNextLoop_eq_ok.1 hcall).2.2 with ⟨hnil, rfl, rfl⟩ | ⟨hloops, hat, rfl⟩
  · refine ⟨(turn_nil hnil n).symm, ⟨h.started, ?_⟩, rfl, rfl⟩
    rw [hnext, hnil]
    simp [Nat.mod_one]
  · have hpos : 0 < pool.loops_.length := List.length_pos_iff.2 hloops
    have hmax : max 1 pool.loops_.length = pool.loops_.length := by omega
    rw [hmax] at hnext
    rw [hnext, vectorAt_of_getElem? (getElem?_turn hloops n)] at hat
    refine ⟨(Except.ok.inj hat).symm, ⟨h.started, ?_⟩, rfl, rfl⟩
    have hsucc := succ_mod_eq (n := n) hpos
    simp only [hnext, hmax, hsucc]
    split_ifs <;> omega

end EventLoopThreadPool

end LibNetToy
