import LibNetToy.Base.EventLoopThread
import LibNetToy.Base.EventLoopThreadPool

/-!
# Which loop a pool hands out

The other lookups of `base/EventLoopThreadPool.cpp`, and the runs of a pool on which its member
functions are called one after the other, by threads that may be the wrong ones.  `start` takes
its steps one by one: it makes an `EventLoopThread`, waits in `startLoop` for the loop of the new
thread and goes on to the next one, while all threads made so far take their own steps.  It may
return before `threadFunc` has called the callback that was given to `start`.  A pool whose
`start` has returned has a fixed list of loops; all three lookups read from it.
-/

namespace LibNetToy

/-- The ways a call on a pool fails: those of the functions modelled before, the assertion of
`getAllLoops`, and those of the threads of the pool. -/
inductive PoolFault
  | call (f : Fault)
  | getAllLoops
  | thread (f : ThreadFault)
  deriving DecidableEq, Repr

namespace EventLoopThreadPool

def getLoopForHash (pool : EventLoopThreadPool) (here : Option LoopId) (hashCode : Nat) :
    Except Fault LoopId := do
  check (here = some pool.baseLoop_) .assertInLoopThread
  if pool.loops_ = [] then
    pure pool.baseLoop_
  else
    vectorAt pool.loops_ (hashCode % pool.loops_.length : Nat)

def getAllLoops (pool : EventLoopThreadPool) (here : Option LoopId) :
    Except PoolFault (List LoopId) :=
  if here ≠ some pool.baseLoop_ then .error (.call (.assertion .assertInLoopThread))
  else if pool.started_ = false then .error .getAllLoops
  else if pool.loops_ = [] then .ok [pool.baseLoop_]
  else .ok pool.loops_

/-- What `start` does before its loop. -/
def enterStart (pool : EventLoopThreadPool) (here : Option LoopId) :
    Except Fault EventLoopThreadPool := do
  check (pool.started_ = false) .poolStart
  check (here = some pool.baseLoop_) .assertInLoopThread
  pure { pool with started_ := true }

/-- The loops a started pool has. -/
def allLoops (pool : EventLoopThreadPool) : List LoopId :=
  if pool.loops_ = [] then [pool.baseLoop_] else pool.loops_

variable {pool q : EventLoopThreadPool} {here : Option LoopId}

/-- What is found when the loop of `start` is entered. -/
theorem enterStart_eq_ok : pool.enterStart here = .ok q ↔
    pool.started_ = false ∧ here = some pool.baseLoop_ ∧ q = { pool with started_ := true } := by
  simp only [enterStart, check_bind_eq_ok, pure_eq_ok]

/-- The turn of `getNextLoop` as a position in the list. -/
theorem getElem?_allLoops_turn (pool : EventLoopThreadPool) (i : Nat) :
    pool.allLoops[i % pool.allLoops.length]? = some (pool.turn i) := by
  unfold allLoops
  split_ifs with h
  · rw [turn_nil h]
    simp [Nat.mod_one]
  · exact getElem?_turn h i

/-- A hash code gets the loop at its position in the list. -/
theorem getLoopForHash_eq_ok {hashCode : Nat} {l : LoopId}
    (h : pool.getLoopForHash here hashCode = .ok l) :
    here = some pool.baseLoop_ ∧
      pool.allLoops[hashCode % pool.allLoops.length]? = some l := by
  simp only [getLoopForHash, check_bind_eq_ok] at h
  obtain ⟨hhere, h⟩ := h
  refine ⟨hhere, ?_⟩
  by_cases hloops : pool.loops_ = []
  · rw [if_pos hloops, pure_eq_ok] at h
    rw [getElem?_allLoops_turn, turn_nil hloops, h]
  · rw [if_neg hloops, vectorAt_of_getElem? (getElem?_turn hloops hashCode)] at h
    rw [getElem?_allLoops_turn]
    exact congrArg some (Except.ok.inj h)

/-- The list is returned as it is. -/
theorem getAllLoops_eq_ok {ls : List LoopId} (h : pool.getAllLoops here = .ok ls) :
    here = some pool.baseLoop_ ∧ pool.started_ = true ∧ ls = pool.allLoops := by
  unfold getAllLoops at h
  split at h
  · cases h
  rename_i hhere
  split at h
  · cases h
  rename_i hstarted
  refine ⟨not_not.1 hhere, by simpa using hstarted, ?_⟩
  unfold allLoops
  split_ifs at h ⊢ <;> exact (Except.ok.inj h).symm

/-- Naming the faults of a call anew does not change when it returns. -/
theorem mapError_eq_ok {ε ε' α : Type} {x : Except ε α} {f : ε → ε'} {a : α} :
    x.mapError f = .ok a ↔ x = .ok a := by
  cases x <;> simp [Except.mapError]

end EventLoopThreadPool

/-- How far `start` has come. -/
inductive PoolStage
  | constructed
  /-- Between two threads. -/
  | starting
  /-- In `startLoop` of the youngest thread. -/
  | inStartLoop
  | started
  deriving DecidableEq, Repr

/-- `start` was called and has not returned. -/
def PoolStage.inStart : PoolStage → Bool
  | .starting | .inStartLoop => true
  | _ => false

/-- A pool, its threads, and what was seen of it. -/
structure PoolUse where
  pool : EventLoopThreadPool
  stage : PoolStage
  /-- The pool when `start` was called. -/
  before : EventLoopThreadPool
  /-- Whether `start` was given a callback. -/
  callback : Bool
  /-- `threads_`. -/
  threads : List EventLoopThread
  /-- The number of times `start` itself has called the callback. -/
  baseCallbacks : Nat
  /-- The results of `getLoopForHash` before `start`. -/
  early : List LoopId
  /-- The results of `getNextLoop`, oldest first. -/
  turns : List LoopId
  /-- The hash codes given to `getLoopForHash` since `start`, and its results. -/
  hashed : List (Nat × LoopId)
  /-- The results of `getAllLoops`. -/
  listed : List (List LoopId)
  deriving DecidableEq

/-- The calls, with the loop of the calling thread, and the steps of `start` and of the threads
of the pool. -/
inductive PoolEvent
  | setThreadNum (numThreads : Int)
  | start (here : Option LoopId) (cb : Bool)
  /-- `new EventLoopThread`, and `startLoop` makes its thread. -/
  | newThread
  /-- A step of one of the `EventLoopThread`s. -/
  | thread (i : Nat) (l : LoopThreadEvent)
  /-- `startLoop` has returned `loop`. -/
  | pushBack (loop : LoopId)
  /-- `start` leaves its loop and returns. -/
  | startReturns
  | getNextLoop (here : Option LoopId)
  | getLoopForHash (here : Option LoopId) (hashCode : Nat)
  | getAllLoops (here : Option LoopId)

/-- The steps that `start` waits for: its own, and those of `startLoop` and of the thread that
it has made. -/
def PoolEvent.OfStart : PoolEvent → Prop
  | .newThread | .pushBack _ | .startReturns | .thread _ .owner | .thread _ .thread => True
  | _ => False

namespace PoolUse

/-- A new pool. -/
def initial (baseLoop : LoopId) : PoolUse where
  pool := EventLoopThreadPool.make baseLoop
  stage := .constructed
  before := EventLoopThreadPool.make baseLoop
  callback := false
  threads := []
  baseCallbacks := 0
  early := []
  turns := []
  hashed := []
  listed := []

/-- The thread of the base loop makes no other call while it is in `start`. -/
def mayCall (u : PoolUse) (here : Option LoopId) : Bool :=
  !(u.stage.inStart && decide (here = some u.pool.baseLoop_))

/-- The position in the loop of `start` is the number of threads made so far. -/
def step : PoolEvent → PoolUse → Except (Halt PoolFault) PoolUse
  | .setThreadNum n, u =>
    Halt.guard (u.stage.inStart = false) (.ok { u with pool := u.pool.setThreadNum n })
  | .start here cb, u =>
    Halt.guard (u.mayCall here = true)
      (Halt.ofCall ((u.pool.enterStart here).mapError .call) fun pool => { u with
        pool := pool
        stage := .starting
        before := u.pool
        callback := cb })
  | .newThread, u =>
    Halt.guard (u.stage = .starting ∧ (u.threads.length : Int) < u.pool.numThreads_)
      (Halt.inside .thread (EventLoopThread.step .startLoop (EventLoopThread.make u.callback))
        fun t => { u with stage := .inStartLoop, threads := u.threads ++ [t] })
  | .thread i l, u =>
    match u.threads[i]? with
    | none => .error .disabled
    | some t =>
      -- the pool keeps its threads
      Halt.guard (l ≠ .destroy)
        (Halt.inside .thread (EventLoopThread.step l t) fun t =>
          { u with threads := u.threads.set i t })
  | .pushBack loop, u =>
    Halt.guard (u.stage = .inStartLoop ∧ u.threads.getLast?.map EventLoopThread.owner =
        some .started)
      (.ok { u with
        pool := { u.pool with loops_ := u.pool.loops_ ++ [loop] }
        stage := .starting })
  | .startReturns, u =>
    Halt.guard (u.stage = .starting ∧ ¬ (u.threads.length : Int) < u.pool.numThreads_)
      (.ok { u with
        stage := .started
        baseCallbacks := u.baseCallbacks +
          if u.pool.numThreads_ = 0 ∧ u.callback = true then 1 else 0 })
  | .getNextLoop here, u =>
    Halt.guard (u.mayCall here = true)
      (Halt.ofCall ((u.pool.getNextLoop here).mapError .call) fun r =>
        { u with pool := r.2, turns := u.turns ++ [r.1] })
  | .getLoopForHash here hashCode, u =>
    Halt.guard (u.mayCall here = true)
      (Halt.ofCall ((u.pool.getLoopForHash here hashCode).mapError .call) fun l =>
        if u.pool.started_ then { u with hashed := u.hashed ++ [(hashCode, l)] }
        else { u with early := u.early ++ [l] })
  | .getAllLoops here, u =>
    Halt.guard (u.mayCall here = true)
      (Halt.ofCall (u.pool.getAllLoops here) fun ls => { u with listed := u.listed ++ [ls] })

end PoolUse

/-- All runs of a pool. -/
def poolMachine : Machine PoolUse PoolEvent PoolFault where
  init u := ∃ baseLoop, u = PoolUse.initial baseLoop
  step := PoolUse.step

namespace PoolUse

variable {u v : PoolUse} {e : PoolEvent}

/-! ## What the steps do -/

/-- The steps, with what they find and what they change. -/
inductive Moves (u : PoolUse) : PoolUse → Prop
  | setThreadNum {n : Int} (hstage : u.stage.inStart = false) :
      Moves u { u with pool := u.pool.setThreadNum n }
  | start {cb : Bool} (hstarted : u.pool.started_ = false) :
      Moves u { u with
        pool := { u.pool with started_ := true }
        stage := .starting
        before := u.pool
        callback := cb }
  | newThread {t : EventLoopThread} (hstage : u.stage = .starting)
      (hlt : (u.threads.length : Int) < u.pool.numThreads_)
      (ht : loopThreadMachine.Reachable t) (hcallback : t.callback_ = u.callback)
      (howner : t.owner = .locking) :
      Moves u { u with stage := .inStartLoop, threads := u.threads ++ [t] }
  | thread {i : Nat} {l : LoopThreadEvent} {t t' : EventLoopThread}
      (hi : u.threads[i]? = some t) (hl : l ≠ .destroy)
      (hstep : EventLoopThread.step l t = .ok t') :
      Moves u { u with threads := u.threads.set i t' }
  | pushBack {loop : LoopId} {t : EventLoopThread} (hstage : u.stage = .inStartLoop)
      (hlast : u.threads.getLast? = some t) (howner : t.owner = .started) :
      Moves u { u with
        pool := { u.pool with loops_ := u.pool.loops_ ++ [loop] }
        stage := .starting }
  | startReturns (hstage : u.stage = .starting)
      (hge : u.pool.numThreads_ ≤ u.threads.length) :
      Moves u { u with
        stage := .started
        baseCallbacks := u.baseCallbacks +
          if u.pool.numThreads_ = 0 ∧ u.callback = true then 1 else 0 }
  | getNextLoop {here : Option LoopId} {l : LoopId} {next : Int}
      (hstage : u.stage.inStart = false)
      (hcall : u.pool.getNextLoop here = .ok (l, { u.pool with next_ := next })) :
      Moves u { u with pool := { u.pool with next_ := next }, turns := u.turns ++ [l] }
  | hashed {hashCode : Nat} {l : LoopId} (hstage : u.stage.inStart = false)
      (hstarted : u.pool.started_ = true)
      (hl : u.pool.allLoops[hashCode % u.pool.allLoops.length]? = some l) :
      Moves u { u with hashed := u.hashed ++ [(hashCode, l)] }
  | early {hashCode : Nat} {l : LoopId} (hstarted : u.pool.started_ = false)
      (hl : u.pool.allLoops[hashCode % u.pool.allLoops.length]? = some l) :
      Moves u { u with early := u.early ++ [l] }
  | getAllLoops (hstage : u.stage.inStart = false) (hstarted : u.pool.started_ = true) :
      Moves u { u with listed := u.listed ++ [u.pool.allLoops] }

/-- A call that passes `assertInLoopThread` is not made inside `start`. -/
theorem inStart_of_mayCall (h : u.mayCall (some u.pool.baseLoop_) = true) :
    u.stage.inStart = false := by
  simpa [mayCall] using h

/-- Every step is one of the list. -/
theorem moves_of_step (h : step e u = .ok v) : Moves u v := by
  cases e with
  | setThreadNum n =>
    obtain ⟨hstage, h⟩ := Halt.guard_eq_ok.1 h
    obtain rfl := Except.ok.inj h
    exact .setThreadNum hstage
  | start here cb =>
    obtain ⟨-, h⟩ := Halt.guard_eq_ok.1 h
    obtain ⟨pool, hcall, rfl⟩ := Halt.ofCall_eq_ok.1 h
    obtain ⟨hstarted, -, rfl⟩ :=
      EventLoopThreadPool.enterStart_eq_ok.1 (EventLoopThreadPool.mapError_eq_ok.1 hcall)
    exact .start hstarted
  | newThread =>
    obtain ⟨⟨hstage, hlt⟩, h⟩ := Halt.guard_eq_ok.1 h
    obtain ⟨t, hstep, rfl⟩ := Halt.inside_eq_ok.1 h
    have ht : loopThreadMachine.Reachable t :=
      .step (l := .startLoop) (.init ⟨u.callback, rfl⟩) trivial hstep
    have hm := EventLoopThread.moves_of_step hstep
    have howner : t.owner = .locking := by
      cases hm
      rfl
    exact .newThread hstage hlt ht (EventLoopThread.callback_of_moves hm) howner
  | thread i l =>
    simp only [step] at h
    cases hi : u.threads[i]? with
    | none =>
      rw [hi] at h
      cases h
    | some t =>
      rw [hi] at h
      obtain ⟨hl, h⟩ := Halt.guard_eq_ok.1 h
      obtain ⟨t', hstep, rfl⟩ := Halt.inside_eq_ok.1 h
      exact .thread hi hl hstep
  | pushBack loop =>
    obtain ⟨⟨hstage, hlast⟩, h⟩ := Halt.guard_eq_ok.1 h
    obtain rfl := Except.ok.inj h
    obtain ⟨t, ht, howner⟩ := Option.map_eq_some_iff.1 hlast
    exact .pushBack hstage ht howner
  | startReturns =>
    obtain ⟨⟨hstage, hge⟩, h⟩ := Halt.guard_eq_ok.1 h
    obtain rfl := Except.ok.inj h
    exact .startReturns hstage (not_lt.1 hge)
  | getNextLoop here =>
    obtain ⟨hmay, h⟩ := Halt.guard_eq_ok.1 h
    obtain ⟨⟨l, pool⟩, hcall, rfl⟩ := Halt.ofCall_eq_ok.1 h
    have hcall := EventLoopThreadPool.mapError_eq_ok.1 hcall
    obtain ⟨rfl, -⟩ := EventLoopThreadPool.getNextLoop_eq_ok.1 hcall
    obtain ⟨next, rfl⟩ := EventLoopThreadPool.getNextLoop_next hcall
    exact .getNextLoop (inStart_of_mayCall hmay) hcall
  | getLoopForHash here hashCode =>
    obtain ⟨hmay, h⟩ := Halt.guard_eq_ok.1 h
    obtain ⟨l, hcall, rfl⟩ := Halt.ofCall_eq_ok.1 h
    have hcall := EventLoopThreadPool.mapError_eq_ok.1 hcall
    obtain ⟨rfl, hl⟩ := EventLoopThreadPool.getLoopForHash_eq_ok hcall
    cases hstarted : u.pool.started_ with
    | false => exact .early hstarted hl
    | true => exact .hashed (inStart_of_mayCall hmay) hstarted hl
  | getAllLoops here =>
    obtain ⟨hmay, h⟩ := Halt.guard_eq_ok.1 h
    obtain ⟨ls, hcall, rfl⟩ := Halt.ofCall_eq_ok.1 h
    obtain ⟨rfl, hstarted, rfl⟩ := EventLoopThreadPool.getAllLoops_eq_ok hcall
    exact .getAllLoops (inStart_of_mayCall hmay) hstarted

/-! ## The threads -/

/-- One thread for each loop of the list, and one more while `startLoop` has not returned. -/
structure Staffed (u : PoolUse) : Prop where
  flag : u.pool.started_ = decide (u.stage ≠ .constructed)
  constructed : u.stage = .constructed → u.pool.loops_ = []
  began : u.stage ≠ .constructed → u.before.started_ = false ∧ u.before.loops_ = [] ∧
    u.before.baseLoop_ = u.pool.baseLoop_
  length : u.threads.length = u.pool.loops_.length + if u.stage = .inStartLoop then 1 else 0
  runs : ∀ t ∈ u.threads, loopThreadMachine.Reachable t ∧ t.callback_ = u.callback
  called : ∀ t ∈ u.threads, t.inStartLoop ∨ t.owner = .started
  started : ∀ i t, u.threads[i]? = some t → i < u.pool.loops_.length → t.owner = .started
  asking : u.stage.inStart = true → u.pool.numThreads_ = u.before.numThreads_ ∧
    u.threads.length ≤ u.before.numThreads_.toNat
  asked : u.stage = .started → u.threads.length = u.before.numThreads_.toNat
  base : u.baseCallbacks =
    if u.stage = .started ∧ u.before.numThreads_ = 0 ∧ u.callback = true then 1 else 0

/-- `start` is entered once. -/
theorem Staffed.stage_of_flag (h : u.Staffed) (hstarted : u.pool.started_ = false) :
    u.stage = .constructed := by
  have hflag := h.flag
  rw [hstarted] at hflag
  simpa using hflag.symm

/-- A pool that is not started has no thread. -/
theorem Staffed.threads_nil (h : u.Staffed) (hstage : u.stage = .constructed) :
    u.threads = [] := by
  have hlength := h.length
  rw [h.constructed hstage, hstage] at hlength
  exact List.eq_nil_of_length_eq_zero hlength

/-- The number of threads keeps pace with `start`. -/
theorem Staffed.length_step (h : u.Staffed) (hm : Moves u v) :
    v.threads.length = v.pool.loops_.length + if v.stage = .inStartLoop then 1 else 0 := by
  have hlength := h.length
  cases hm with
  | start hstarted =>
    rw [h.stage_of_flag hstarted] at hlength
    exact hlength
  | newThread hstage =>
    rw [hstage] at hlength
    simp at hlength
    simp [hlength]
  | thread => simpa using hlength
  | pushBack hstage =>
    rw [hstage] at hlength
    simpa using hlength
  | startReturns hstage =>
    rw [hstage] at hlength
    exact hlength
  | setThreadNum | getNextLoop | hashed | early | getAllLoops => exact hlength

/-- The threads are those of `EventLoopThread`s, with the callback given to `start`. -/
theorem Staffed.runs_step (h : u.Staffed) (hm : Moves u v) :
    ∀ t ∈ v.threads, loopThreadMachine.Reachable t ∧ t.callback_ = v.callback := by
  have hruns := h.runs
  cases hm with
  | start hstarted =>
    intro t ht
    rw [h.threads_nil (h.stage_of_flag hstarted)] at ht
    cases ht
  | newThread hstage hlt hreach hcallback howner =>
    intro t ht
    rcases List.mem_append.1 ht with ht | ht
    · exact hruns t ht
    · obtain rfl := List.mem_singleton.1 ht
      exact ⟨hreach, hcallback⟩
  | @thread i l t t' hi hl hstep =>
    intro t'' ht
    rcases List.mem_or_eq_of_mem_set ht with ht | rfl
    · exact hruns t'' ht
    · obtain ⟨hreach, hcallback⟩ := hruns t (List.mem_of_getElem? hi)
      have hkept := EventLoopThread.callback_of_moves (EventLoopThread.moves_of_step hstep)
      exact ⟨.step hreach trivial hstep, hkept.trans hcallback⟩
  | setThreadNum | pushBack | startReturns | getNextLoop | hashed | early | getAllLoops =>
    exact hruns

/-- A loop is in the list once `startLoop` has returned it. -/
theorem Staffed.started_step (h : u.Staffed) (hm : Moves u v) :
    ∀ i t, v.threads[i]? = some t → i < v.pool.loops_.length → t.owner = .started := by
  have hstarted := h.started
  cases hm with
  | newThread hstage =>
    intro i t hi hlt
    have hlength := h.length
    simp only [hstage, reduceCtorEq, if_false, Nat.add_zero] at hlength
    rw [List.getElem?_append_left (hlength ▸ hlt)] at hi
    exact hstarted i t hi hlt
  | @thread j l t t' hj hl hstep =>
    intro i t'' hi hlt
    rw [List.getElem?_set] at hi
    split_ifs at hi with hij
    · obtain rfl := hij
      obtain rfl := Option.some.inj hi
      exact EventLoopThread.owner_of_moves (EventLoopThread.moves_of_step hstep)
        (hstarted j t hj hlt) hl
    · exact hstarted i t'' hi hlt
  | @pushBack loop t hstage hlast howner =>
    intro i t' hi hlt
    have hlength := h.length
    simp only [hstage, if_true] at hlength
    rw [List.getLast?_eq_getElem?] at hlast
    rcases Nat.lt_or_ge i u.pool.loops_.length with hlt' | hge
    · exact hstarted i t' hi hlt'
    · obtain rfl : i = u.threads.length - 1 := by
        simp only [List.length_append, List.length_singleton] at hlt
        omega
      rw [hlast] at hi
      exact Option.some.inj hi ▸ howner
  | setThreadNum | start | startReturns | getNextLoop | hashed | early | getAllLoops =>
    exact hstarted

/-- Every step of a pool keeps its threads in order. -/
theorem Staffed.step (h : u.Staffed) (hm : Moves u v) : v.Staffed where
  flag := by
    have hflag := h.flag
    cases hm with
    | newThread hstage | pushBack hstage | startReturns hstage =>
      rw [hstage] at hflag
      exact hflag
    | start => rfl
    | setThreadNum | thread | getNextLoop | hashed | early | getAllLoops => exact hflag
  constructed := by
    have hconstructed := h.constructed
    cases hm with
    | start | newThread | pushBack | startReturns => nofun
    | setThreadNum | thread | getNextLoop | hashed | early | getAllLoops => exact hconstructed
  began := by
    have hbegan := h.began
    cases hm with
    | start hstarted =>
      exact fun _ => ⟨hstarted, h.constructed (h.stage_of_flag hstarted), rfl⟩
    | newThread hstage | pushBack hstage | startReturns hstage =>
      rw [hstage] at hbegan
      exact fun _ => hbegan nofun
    | setThreadNum | thread | getNextLoop | hashed | early | getAllLoops => exact hbegan
  length := h.length_step hm
  runs := h.runs_step hm
  called := by
    have hcalled := h.called
    cases hm with
    | newThread hstage hlt hreach hcallback howner =>
      intro t ht
      rcases List.mem_append.1 ht with ht | ht
      · exact hcalled t ht
      · obtain rfl := List.mem_singleton.1 ht
        exact .inl (.inl howner)
    | @thread i l t t' hi hl hstep =>
      intro t'' ht
      rcases List.mem_or_eq_of_mem_set ht with ht | rfl
      · exact hcalled t'' ht
      · exact EventLoopThread.inStartLoop_of_moves (EventLoopThread.moves_of_step hstep)
          (hcalled t (List.mem_of_getElem? hi)) hl
    | setThreadNum | start | pushBack | startReturns | getNextLoop | hashed | early
    | getAllLoops => exact hcalled
  started := h.started_step hm
  asking := by
    have hasking := h.asking
    cases hm with
    | start hstarted =>
      rw [h.threads_nil (h.stage_of_flag hstarted)]
      exact fun _ => ⟨rfl, Nat.zero_le _⟩
    | newThread hstage hlt =>
      rw [hstage] at hasking
      obtain ⟨hnum, -⟩ := hasking rfl
      refine fun _ => ⟨hnum, ?_⟩
      simp only [List.length_append, List.length_singleton]
      omega
    | setThreadNum hstage => simp [hstage]
    | getNextLoop hstage => simp [hstage]
    | pushBack hstage =>
      rw [hstage] at hasking
      exact fun _ => hasking rfl
    | startReturns => nofun
    | thread => simpa using hasking
    | hashed | early | getAllLoops => exact hasking
  asked := by
    have hasked := h.asked
    cases hm with
    | start | newThread | pushBack => nofun
    | startReturns hstage hge =>
      have hasking := h.asking
      rw [hstage] at hasking
      obtain ⟨hnum, hle⟩ := hasking rfl
      refine fun _ => ?_
      change u.threads.length = u.before.numThreads_.toNat
      omega
    | thread => simpa using hasked
    | setThreadNum | getNextLoop | hashed | early | getAllLoops => exact hasked
  base := by
    have hbase := h.base
    cases hm with
    | start hstarted =>
      rw [h.stage_of_flag hstarted] at hbase
      exact hbase
    | newThread hstage | pushBack hstage =>
      rw [hstage] at hbase
      exact hbase
    | startReturns hstage hge =>
      have hasking := h.asking
      rw [hstage] at hasking hbase
      simp [hbase, (hasking rfl).1]
    | setThreadNum | thread | getNextLoop | hashed | early | getAllLoops => exact hbase

/-! ## The lookups -/

/-- What the lookups returned, and where the next one of `getNextLoop` reads. -/
structure Looked (u : PoolUse) : Prop where
  early : ∀ l ∈ u.early, l = u.pool.baseLoop_
  turns : ∀ i l, u.turns[i]? = some l → u.pool.allLoops[i % u.pool.allLoops.length]? = some l
  hashed : ∀ h l, (h, l) ∈ u.hashed → u.pool.allLoops[h % u.pool.allLoops.length]? = some l
  listed : ∀ ls ∈ u.listed, ls = u.pool.allLoops
  unseen : u.stage ≠ .started →
    u.turns = [] ∧ u.hashed = [] ∧ u.listed = [] ∧ u.pool.next_ = 0
  turned : u.stage = .started → u.pool.Turned u.turns.length

/-- `getNextLoop` in turn: the list stays as it is. -/
theorem Looked.getNextLoop_step {here : Option LoopId} {l : LoopId} {pool : EventLoopThreadPool}
    (h : u.Looked) (hstage : u.stage = .started)
    (hcall : u.pool.getNextLoop here = .ok (l, pool)) :
    Looked { u with pool := pool, turns := u.turns ++ [l] } := by
  obtain ⟨rfl, hturned, hloops, hbase⟩ := (h.turned hstage).getNextLoop hcall
  have hall : pool.allLoops = u.pool.allLoops := by
    unfold EventLoopThreadPool.allLoops
    rw [hloops, hbase]
  refine ⟨?_, ?_, ?_, ?_, fun hne => absurd hstage hne, fun _ => ?_⟩
  · simpa only [hbase] using h.early
  · intro i l hi
    rw [hall]
    rcases Nat.lt_or_ge i u.turns.length with hlt | hge
    · rw [List.getElem?_append_left hlt] at hi
      exact h.turns i l hi
    · obtain rfl : i = u.turns.length := by
        have hlt := (List.getElem?_eq_some_iff.1 hi).1
        simp only [List.length_append, List.length_singleton] at hlt
        omega
      simp only [List.getElem?_concat_length, Option.some.injEq] at hi
      rw [← hi]
      exact EventLoopThreadPool.getElem?_allLoops_turn _ _
  · simpa only [hall] using h.hashed
  · simpa only [hall] using h.listed
  · simpa using hturned

/-- While nothing was looked up yet, the list may still grow. -/
theorem Looked.of_unseen (h : u.Looked) (hearly : v.early = u.early)
    (hbase : v.pool.baseLoop_ = u.pool.baseLoop_) (hnext : v.pool.next_ = u.pool.next_)
    (hturns : v.turns = u.turns) (hhashed : v.hashed = u.hashed) (hlisted : v.listed = u.listed)
    (hstage : u.stage ≠ .started) (hturned : v.stage = .started → v.pool.started_ = true) :
    v.Looked := by
  obtain ⟨hturns', hhashed', hlisted', hnext'⟩ := h.unseen hstage
  rw [hturns'] at hturns
  rw [hhashed'] at hhashed
  rw [hlisted'] at hlisted
  rw [hnext'] at hnext
  refine ⟨?_, ?_, ?_, ?_, fun _ => ⟨hturns, hhashed, hlisted, hnext⟩, fun hv => ?_⟩
  · rw [hearly, hbase]
    exact h.early
  · simp [hturns]
  · simp [hhashed]
  · simp [hlisted]
  · refine ⟨hturned hv, ?_⟩
    rw [hnext, hturns, List.length_nil, Nat.zero_mod, Nat.cast_zero]

/-- Before `start` there is no loop but the base loop. -/
theorem Staffed.eq_baseLoop (h : u.Staffed) {i : Nat} {l : LoopId}
    (hstarted : u.pool.started_ = false)
    (hl : u.pool.allLoops[i % u.pool.allLoops.length]? = some l) : l = u.pool.baseLoop_ := by
  have hloops := h.constructed (h.stage_of_flag hstarted)
  rw [EventLoopThreadPool.getElem?_allLoops_turn, EventLoopThreadPool.turn_nil hloops] at hl
  exact (Option.some.inj hl).symm

/-- A call that is made outside `start` on a started pool is made after it. -/
theorem Staffed.stage_of_started (h : u.Staffed) (hstage : u.stage.inStart = false)
    (hstarted : u.pool.started_ = true) : u.stage = .started := by
  have hflag := h.flag
  cases hu : u.stage with
  | constructed =>
    rw [hu, hstarted] at hflag
    cases hflag
  | starting | inStartLoop =>
    rw [hu] at hstage
    cases hstage
  | started => rfl

/-- Every step of a pool keeps what was looked up right. -/
theorem Looked.step (h : u.Looked) (hstaff : u.Staffed) (hm : Moves u v) : v.Looked := by
  cases hm with
  | setThreadNum =>
    refine ⟨h.early, h.turns, h.hashed, h.listed, h.unseen, fun hstage => ?_⟩
    exact ⟨(h.turned hstage).started, (h.turned hstage).next⟩
  | start hstarted =>
    have hstage := hstaff.stage_of_flag hstarted
    exact h.of_unseen rfl rfl rfl rfl rfl rfl (by simp [hstage]) nofun
  | newThread hstage | pushBack hstage =>
    exact h.of_unseen rfl rfl rfl rfl rfl rfl (by simp [hstage]) nofun
  | startReturns hstage =>
    refine h.of_unseen rfl rfl rfl rfl rfl rfl (by simp [hstage]) fun _ => ?_
    change u.pool.started_ = true
    rw [hstaff.flag, hstage]
    rfl
  | thread => exact ⟨h.early, h.turns, h.hashed, h.listed, h.unseen, h.turned⟩
  | getNextLoop hstage hcall =>
    have hstarted := (EventLoopThreadPool.getNextLoop_eq_ok.1 hcall).2.1
    exact h.getNextLoop_step (hstaff.stage_of_started hstage hstarted) hcall
  | @hashed hashCode l hstage hstarted hl =>
    have hstage := hstaff.stage_of_started hstage hstarted
    refine ⟨h.early, h.turns, ?_, h.listed, fun hne => absurd hstage hne, h.turned⟩
    intro k l' hmem
    rcases List.mem_append.1 hmem with hmem | hmem
    · exact h.hashed k l' hmem
    · obtain ⟨rfl, rfl⟩ := Prod.mk.inj (List.mem_singleton.1 hmem)
      exact hl
  | early hstarted hl =>
    refine ⟨?_, h.turns, h.hashed, h.listed, h.unseen, h.turned⟩
    intro l' hmem
    rcases List.mem_append.1 hmem with hmem | hmem
    · exact h.early l' hmem
    · obtain rfl := List.mem_singleton.1 hmem
      exact hstaff.eq_baseLoop hstarted hl
  | getAllLoops hstage hstarted =>
    have hstage := hstaff.stage_of_started hstage hstarted
    refine ⟨h.early, h.turns, h.hashed, ?_, fun hne => absurd hstage hne, h.turned⟩
    intro ls hmem
    rcases List.mem_append.1 hmem with hmem | hmem
    · exact h.listed ls hmem
    · exact List.mem_singleton.1 hmem

/-- Both hold in every run. -/
theorem staffed_of_reachable (h : poolMachine.Reachable u) : u.Staffed ∧ u.Looked := by
  refine h.invariant (I := fun u => u.Staffed ∧ u.Looked) ?_ ?_
  · rintro _ ⟨baseLoop, rfl⟩
    constructor <;> constructor <;>
      simp [initial, EventLoopThreadPool.make, PoolStage.inStart]
  · rintro u e v ⟨hstaff, hlooked⟩ - hstep
    have hm := moves_of_step hstep
    exact ⟨hstaff.step hm, hlooked.step hstaff hm⟩

/-- The steps of `start` lead to what the function `EventLoopThreadPool.start` returns at once,
which is the one that the servers call. -/
theorem start_eq_ok_of_reachable (h : poolMachine.Reachable u) (hstage : u.stage = .started) :
    ∃ fresh q, u.before.start (some u.pool.baseLoop_) fresh = .ok q ∧
      q.loops_ = u.pool.loops_ ∧ q.started_ = u.pool.started_ ∧
        q.baseLoop_ = u.pool.baseLoop_ := by
  obtain ⟨hstaff, -⟩ := staffed_of_reachable h
  obtain ⟨hstarted, hloops, hbase⟩ := hstaff.began (by simp [hstage])
  have hlength := hstaff.length
  simp only [hstaff.asked hstage, hstage, reduceCtorEq, if_false, Nat.add_zero] at hlength
  refine ⟨fun i => (u.pool.loops_[i]?).getD 0, _, EventLoopThreadPool.start_eq_ok.2
    ⟨hstarted, by rw [hbase], rfl⟩, ?_, ?_, hbase⟩
  · refine List.ext_getElem (by simp [hloops, hlength]) fun i hi hi' => ?_
    simp [hloops, hi']
  · rw [hstaff.flag, hstage]
    rfl

/-- The lookups of a pool read one list.  Its loops are those that the calls of `startLoop`
returned, and each thread calls the callback once, when `threadFunc` comes to it. -/
structure Assigned (u : PoolUse) : Prop where
  early : ∀ l ∈ u.early, l = u.pool.baseLoop_
  turns : ∀ i l, u.turns[i]? = some l → u.pool.allLoops[i % u.pool.allLoops.length]? = some l
  hashed : ∀ h l, (h, l) ∈ u.hashed → u.pool.allLoops[h % u.pool.allLoops.length]? = some l
  listed : ∀ ls ∈ u.listed, ls = u.pool.allLoops
  length : u.stage = .started → u.threads.length = u.before.numThreads_.toNat ∧
    u.pool.loops_.length = u.threads.length
  returned : ∀ i t, u.threads[i]? = some t → i < u.pool.loops_.length →
    t.loop_ ≠ none ∧ t.returned = some t.loop_
  callbacks : ∀ t ∈ u.threads,
    t.callbacks = if t.thread.calledBack = true ∧ u.callback = true then 1 else 0
  baseCallbacks : u.baseCallbacks =
    if u.stage = .started ∧ u.before.numThreads_ = 0 ∧ u.callback = true then 1 else 0

/-- The number of steps of `start`: the threads made, the loops put into the list, the steps of
the calls of `startLoop`, and the return. -/
def progress (u : PoolUse) : Nat :=
  u.threads.length + u.pool.loops_.length + (u.threads.map EventLoopThread.handshakes).sum +
    if u.stage = .started then 1 else 0

/-- The times `cv_.wait` woke up by itself. -/
def wakeups (u : PoolUse) : Nat :=
  (u.threads.map EventLoopThread.wakeups).sum

/-- The calls of `startLoop` take few steps each. -/
theorem Staffed.handshakes_le (h : u.Staffed) :
    (u.threads.map EventLoopThread.handshakes).sum ≤ 8 * u.threads.length + 2 * u.wakeups := by
  have hruns := h.runs
  unfold wakeups
  generalize u.threads = ts at hruns ⊢
  induction ts with
  | nil => simp
  | cons t ts ih =>
    obtain ⟨hreach, -⟩ := hruns t List.mem_cons_self
    have hle := EventLoopThread.handshakes_of_reachable hreach
    have htail := ih fun t ht => hruns t (List.mem_cons_of_mem _ ht)
    simp only [List.map_cons, List.sum_cons, List.length_cons]
    omega

/-- `start` is never stuck. -/
theorem Staffed.exists_step (h : u.Staffed) (hstage : u.stage.inStart = true) :
    ∃ e v, e.OfStart ∧ PoolUse.step e u = .ok v ∧ v.progress = u.progress + 1 := by
  have hlength := h.length
  cases hu : u.stage with
  | constructed | started =>
    rw [hu] at hstage
    cases hstage
  | starting =>
    by_cases hlt : (u.threads.length : Int) < u.pool.numThreads_
    · refine ⟨.newThread, _, trivial, Halt.guard_eq_ok.2 ⟨⟨hu, hlt⟩, rfl⟩, ?_⟩
      simp [progress, hu, EventLoopThread.make]
      omega
    · refine ⟨.startReturns, _, trivial, Halt.guard_eq_ok.2 ⟨⟨hu, hlt⟩, rfl⟩, ?_⟩
      simp [progress, hu]
  | inStartLoop =>
    rw [hu, if_pos rfl] at hlength
    have hne : u.threads ≠ [] := by
      intro hnil
      simp [hnil] at hlength
    obtain ⟨ts, t, hts⟩ : ∃ ts t, u.threads = ts ++ [t] :=
      ⟨_, _, (List.dropLast_concat_getLast hne).symm⟩
    have hmem : t ∈ u.threads := by simp [hts]
    rcases h.called t hmem with hcalled | howner
    · -- the two threads go on in `startLoop`
      have hhand := EventLoopThread.handshake_of_reachable (h.runs t hmem).1
      obtain ⟨l, t', hl, hm, hcount⟩ := hhand.exists_step hcalled
      have hstep := EventLoopThread.step_of_moves hm
      refine ⟨.thread ts.length l, { u with threads := ts ++ [t'] }, ?_, ?_, ?_⟩
      · rcases hl with rfl | rfl <;> trivial
      · have hne : l ≠ .destroy := by
          rcases hl with rfl | rfl
          · simp
          · simp
        simp [PoolUse.step, hts, hstep, hne]
      · simp [progress, hts, hcount]
        omega
    · refine ⟨.pushBack 0, _, trivial, Halt.guard_eq_ok.2 ⟨⟨hu, ?_⟩, rfl⟩, ?_⟩
      · simp [hts, howner]
      · simp [progress, hu]
        omega

/-- As long as `start` has not returned, it can go on, or one of the two threads in `startLoop`
can, and the number of these steps is bounded. -/
theorem start_returns (h : poolMachine.Reachable u) (hstage : u.stage.inStart = true) :
    u.progress < 10 * u.before.numThreads_.toNat + 1 + 2 * u.wakeups ∧
      ∃ e v, e.OfStart ∧ poolMachine.step e u = .ok v ∧
        v.progress = u.progress + 1 := by
  obtain ⟨hstaff, -⟩ := staffed_of_reachable h
  refine ⟨?_, hstaff.exists_step hstage⟩
  have hle := hstaff.handshakes_le
  have hthreads := (hstaff.asking hstage).2
  have hlength := hstaff.length
  have hne : u.stage ≠ .started := by
    intro hu
    rw [hu] at hstage
    cases hstage
  unfold progress
  rw [if_neg hne]
  omega

/-- The first of two threads is waited for. -/
theorem start_returns_waiting : ∃ u : PoolUse,
    (u.stage = .inStartLoop ∧ u.before.numThreads_ = 2) ∧
      u.progress < 10 * u.before.numThreads_.toNat + 1 + 2 * u.wakeups ∧
        ∃ e v, e.OfStart ∧ poolMachine.step e u = .ok v ∧
          v.progress = u.progress + 1 := by
  obtain ⟨u, hu, hseen⟩ := Machine.exists_of_run (M := poolMachine) (C := fun _ _ => True)
    ⟨1, rfl⟩ (l := [.setThreadNum 2, .start (some 1) true, .newThread, .thread 0 .owner,
      .thread 0 .owner, .thread 0 .wakeup])
    (f := fun u => (u.stage, u.before.numThreads_)) (a := (.inStartLoop, 2)) (by decide +kernel)
  obtain ⟨hstage, hnum⟩ := Prod.mk.inj hseen
  exact ⟨u, ⟨hstage, hnum⟩, start_returns hu (by rw [hstage]; rfl)⟩

end PoolUse

end LibNetToy
