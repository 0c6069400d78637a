import LibNetToy.Base.EventLoopThreadPool
import LibNetToy.Foundations.Machine
import LibNetToy.Foundations.Weight

/-!
# `Acceptor`

The member functions of `net/Acceptor.cpp`, and the runs of an acceptor in its loop.  A socket
is recorded by the loop whose `io_service` it was constructed with: `async_accept` keeps the
socket until its handler runs, and the handler hands it to `newConnectionCallback_` together
with what `newSockBindedLoop_` holds then.

Only `acceptHandler` starts the next `async_accept`, and only when it was called without an
error, so an acceptor keeps accepting as long as no accept fails.
-/

namespace LibNetToy

/-- The fields of class `Acceptor`.  The callback is recorded by whether it is set. -/
structure Acceptor where
  loop_ : LoopId
  newConnectionCallback_ : Bool
  listenning_ : Bool
  pool_ : Option EventLoopThreadPool
  newSockBindedLoop_ : Option LoopId
  deriving DecidableEq, Repr

/-- What the thread of the loop still has to do for the acceptor. -/
inductive AcceptorTask
  | listen
  | listenInLoop
  | acceptHandler (newSock : LoopId) (error : Option ErrorCode)
  | newConnectionCallback (newSock : LoopId) (sockBindedLoop : Option LoopId)
  deriving DecidableEq, Repr

/-- What a member function does: the acceptor afterwards, the calls the thread makes next and
the sockets it starts to accept on. -/
structure AcceptorEffect where
  acceptor : Acceptor
  calls : List AcceptorTask
  accepts : List LoopId

namespace Acceptor

/-- The constructor. -/
def make (loop : LoopId) (ioPool : Option EventLoopThreadPool) (newConnectionCallback : Bool) :
    Acceptor where
  loop_ := loop
  newConnectionCallback_ := newConnectionCallback
  listenning_ := false
  pool_ := ioPool
  newSockBindedLoop_ := none

/-- `runInLoop` on the thread of the loop. -/
def listen (a : Acceptor) : AcceptorEffect :=
  ⟨a, [.listenInLoop], []⟩

def listenInLoop (a : Acceptor) : Except Fault AcceptorEffect :=
  match a.pool_ with
  | some pool => do
    let (ioLoop, pool) ← pool.getNextLoop (some a.loop_)
    pure ⟨{ a with
      listenning_ := true
      pool_ := some pool
      newSockBindedLoop_ := some ioLoop }, [], [ioLoop]⟩
  | none =>
    pure ⟨{ a with listenning_ := true, newSockBindedLoop_ := some a.loop_ }, [], [a.loop_]⟩

def acceptHandler (a : Acceptor) (newSock : LoopId) (error : Option ErrorCode) :
    AcceptorEffect :=
  match error with
  | none =>
    ⟨a, (if a.newConnectionCallback_ then [.newConnectionCallback newSock a.newSockBindedLoop_]
      else []) ++ [.listen], []⟩
  | some _ => ⟨a, [], []⟩

/-- Run a task on the thread of the loop.  What the callback does is not the acceptor's. -/
def exec (a : Acceptor) : AcceptorTask → Except Fault AcceptorEffect
  | .listen => pure a.listen
  | .listenInLoop => a.listenInLoop
  | .acceptHandler newSock error => pure (a.acceptHandler newSock error)
  | .newConnectionCallback _ _ => pure ⟨a, [], []⟩

variable {a : Acceptor} {eff : AcceptorEffect}

/-- `listenInLoop` starts an accept, for the loop whose turn it is if there is a pool. -/
theorem listenInLoop_eq_ok : a.listenInLoop = .ok eff ↔
    (∃ pool ioLoop pool', a.pool_ = some pool ∧
        pool.getNextLoop (some a.loop_) = .ok (ioLoop, pool') ∧
        eff = ⟨{ a with
          listenning_ := true
          pool_ := some pool'
          newSockBindedLoop_ := some ioLoop }, [], [ioLoop]⟩) ∨
      (a.pool_ = none ∧
        eff = ⟨{ a with listenning_ := true, newSockBindedLoop_ := some a.loop_ }, [],
          [a.loop_]⟩) := by
  unfold listenInLoop
  cases a.pool_ with
  | none => simp [pure_eq_ok]
  | some pool =>
    simp only [bind_eq_ok, pure_eq_ok, Prod.exists]
    simp

end Acceptor

/-- An acceptor in its loop: what the thread of the loop is doing for it, innermost first, the
queue of the loop, and the sockets of the outstanding `async_accept` operations, oldest
first. -/
structure Accepting where
  acceptor : Acceptor
  stack : List AcceptorTask
  queue : List AcceptorTask
  accepts : List LoopId
  /-- `listen` was called from outside. -/
  called : Bool
  deriving DecidableEq, Repr

/-- What happens next. -/
inductive AcceptorEvent
  /-- `listen` is called from outside on the thread of the loop `here`, or on a thread without
  a loop. -/
  | listen (here : Option LoopId)
  /-- The loop takes the oldest entry of its queue. -/
  | dequeue
  /-- The thread does the next thing. -/
  | run
  /-- The oldest `async_accept` completes. -/
  | acceptDone (error : Option ErrorCode)
  deriving DecidableEq, Repr

namespace Accepting

/-- An acceptor that was just made. -/
def initial (a : Acceptor) : Accepting where
  acceptor := a
  stack := []
  queue := []
  accepts := []
  called := false

/-- `loop_->runInLoop(t)`. -/
def runInLoop (s : Accepting) (here : Option LoopId) (t : AcceptorTask) : Accepting :=
  if here = some s.acceptor.loop_ then { s with stack := t :: s.stack }
  else { s with queue := s.queue ++ [t] }

/-- The effect of a member function that runs on the thread of the loop. -/
def applyEffect (s : Accepting) (e : AcceptorEffect) : Accepting :=
  { s with
    acceptor := e.acceptor
    stack := e.calls ++ s.stack
    accepts := s.accepts ++ e.accepts }

/-- One step of an acceptor on which `listen` is called once. -/
def step : AcceptorEvent → Accepting → Except (Halt Fault) Accepting
  | .listen here, s =>
    Halt.guard (s.called = false ∧ (here = some s.acceptor.loop_ → s.stack = []))
      (.ok ({ s with called := true }.runInLoop here .listenInLoop))
  | .dequeue, s =>
    match s.stack, s.queue with
    | [], t :: queue => .ok { s with stack := [t], queue := queue }
    | _, _ => .error .disabled
  | .run, s =>
    match s.stack with
    | [] => .error .disabled
    | t :: stack =>
      Halt.ofCall (s.acceptor.exec t) fun e => { s with stack := stack }.applyEffect e
  | .acceptDone error, s =>
    match s.accepts with
    | [] => .error .disabled
    | newSock :: accepts =>
      .ok { s with accepts := accepts, queue := s.queue ++ [.acceptHandler newSock error] }

variable {s s' : Accepting}

/-! ## What the events do -/

/-- `listen` is called once. -/
theorem listen_eq_ok {here : Option LoopId} : step (.listen here) s = .ok s' ↔
    (s.called = false ∧ (here = some s.acceptor.loop_ → s.stack = [])) ∧
      s' = { s with called := true }.runInLoop here .listenInLoop := by
  simp [step, @eq_comm _ _ s']

/-- The base loop takes the next functor when the last one is done. -/
theorem dequeue_eq_ok : step .dequeue s = .ok s' ↔
    ∃ t queue, s.stack = [] ∧ s.queue = t :: queue ∧
      s' = { s with stack := [t], queue := queue } := by
  cases hstack : s.stack <;> cases hqueue : s.queue <;>
    simp [step, hstack, hqueue, @eq_comm _ _ s']

/-- The base loop does what is next on its stack. -/
theorem run_eq_ok : step .run s = .ok s' ↔
    ∃ t stack e, s.stack = t :: stack ∧ s.acceptor.exec t = .ok e ∧
      s' = { s with stack := stack }.applyEffect e := by
  cases hstack : s.stack <;> simp [step, hstack]

/-- The kernel completes the oldest accept. -/
theorem acceptDone_eq_ok {error : Option ErrorCode} : step (.acceptDone error) s = .ok s' ↔
    ∃ newSock accepts, s.accepts = newSock :: accepts ∧
      s' = { s with
        accepts := accepts
        queue := s.queue ++ [.acceptHandler newSock error] } := by
  cases haccepts : s.accepts <;> simp [step, haccepts, @eq_comm _ _ s']

/-! ## Accepting goes on -/

/-- The task is the handler of an accept that failed. -/
def isFailure : AcceptorTask → Bool
  | .acceptHandler _ (some _) => true
  | _ => false

/-- A call after which an accept is started. -/
def begins : AcceptorTask → Nat
  | .listen => 1
  | .listenInLoop => 1
  | _ => 0

/-- The handler of an accept. -/
def handles : AcceptorTask → Nat
  | .acceptHandler _ _ => 1
  | _ => 0

/-- The number of `async_accept` operations whose handler was not called. -/
def outstanding (s : Accepting) : Nat :=
  s.accepts.length + weigh handles s.queue

/-- Between handlers a listening acceptor has one outstanding `async_accept`. -/
def KeepsAccepting (s : Accepting) : Prop :=
  s.stack = [] → s.acceptor.listenning_ = true → s.outstanding = 1

/-- No handler of an accept that failed runs. -/
def Succeeds (s : Accepting) : AcceptorEvent → Prop
  | .run => ∀ t ∈ s.stack.head?, isFailure t = false
  | _ => True

instance (s : Accepting) (e : AcceptorEvent) : Decidable (s.Succeeds e) := by
  unfold Succeeds
  split <;> infer_instance

/-- Once `listen` was called there is one call that will start an accept, or one accept, and a
call waits in the queue only before the acceptor listens. -/
structure Kept (s : Accepting) : Prop where
  one : weigh begins s.stack + weigh begins s.queue + weigh handles s.stack +
    weigh handles s.queue + s.accepts.length = s.called.toNat
  silent : s.called = false → s.acceptor.listenning_ = false
  queued : 0 < weigh begins s.queue → s.acceptor.listenning_ = false

/-- The call of `listen` starts the chain of accepts. -/
theorem Kept.listen {here : Option LoopId} (h : Kept s) (hcalled : s.called = false) :
    Kept ({ s with called := true }.runInLoop here .listenInLoop) := by
  have hone := h.one
  have hsilent := h.silent hcalled
  rw [hcalled, Bool.toNat_false] at hone
  unfold runInLoop
  split_ifs
  · refine ⟨?_, nofun, fun _ => hsilent⟩
    simp only [weigh_cons, begins, handles, Bool.toNat_true]
    omega
  · refine ⟨?_, nofun, fun _ => hsilent⟩
    simp only [weigh_append, weigh_cons, weigh_nil, begins, handles, Bool.toNat_true]
    omega

/-- A functor that is taken from the queue is the one link of the chain. -/
theorem Kept.dequeue {t : AcceptorTask} {queue : List AcceptorTask} (h : Kept s)
    (hstack : s.stack = []) (hqueue : s.queue = t :: queue) :
    Kept { s with stack := [t], queue := queue } := by
  obtain ⟨hone, hsilent, hqueued⟩ := h
  rw [hstack, hqueue] at hone
  rw [hqueue] at hqueued
  simp only [weigh_cons, weigh_nil] at hone hqueued
  constructor
  · simp only [weigh_cons, weigh_nil]
    omega
  · exact hsilent
  · intro hpos
    exact hqueued (Nat.lt_of_lt_of_le hpos (Nat.le_add_left _ _))

/-- A link of the chain that has not failed starts the next accept. -/
theorem Kept.run {t : AcceptorTask} {stack : List AcceptorTask} {e : AcceptorEffect}
    (h : Kept s) (hstack : s.stack = t :: stack) (ht : isFailure t = false)
    (hexec : s.acceptor.exec t = .ok e) : Kept ({ s with stack := stack }.applyEffect e) := by
  obtain ⟨hone, hsilent, hqueued⟩ := h
  rw [hstack] at hone
  simp only [weigh_cons] at hone
  cases t with
  | listen =>
    obtain rfl := pure_eq_ok.1 hexec
    refine ⟨?_, hsilent, hqueued⟩
    simp only [begins, handles] at hone
    simp only [applyEffect, Acceptor.listen, List.cons_append, List.nil_append, List.append_nil,
      weigh_cons, begins, handles]
    omega
  | listenInLoop =>
    simp only [begins, handles] at hone
    -- the call was the only one, so none is in the queue
    have hcalled : s.called = true := by
      by_contra hno
      rw [Bool.eq_false_iff.2 hno, Bool.toNat_false] at hone
      omega
    have hqueue : weigh begins s.queue = 0 := by
      rw [hcalled, Bool.toNat_true] at hone
      omega
    have heff : e.calls = [] ∧ e.accepts.length = 1 := by
      rcases Acceptor.listenInLoop_eq_ok.1 hexec with ⟨pool, ioLoop, pool', -, -, rfl⟩ | ⟨-, rfl⟩
      · exact ⟨rfl, rfl⟩
      · exact ⟨rfl, rfl⟩
    constructor
    · simp only [applyEffect, heff.1, List.nil_append, List.length_append, heff.2]
      omega
    · intro hno
      rw [show s.called = false from hno] at hcalled
      cases hcalled
    · intro hpos
      exact absurd hpos (Nat.not_lt.2 (Nat.le_of_eq hqueue))
  | acceptHandler newSock error =>
    obtain rfl := pure_eq_ok.1 hexec
    cases error with
    | some e => cases ht
    | none =>
      simp only [begins, handles] at hone
      refine ⟨?_, hsilent, hqueued⟩
      simp only [applyEffect, Acceptor.acceptHandler]
      split_ifs
      · simp only [List.cons_append, List.nil_append, List.append_nil, weigh_cons, begins, handles]
        omega
      · simp only [List.cons_append, List.nil_append, List.append_nil, weigh_cons, begins, handles]
        omega
  | newConnectionCallback newSock sockBindedLoop =>
    obtain rfl := pure_eq_ok.1 hexec
    simp only [begins, handles] at hone
    refine ⟨?_, hsilent, hqueued⟩
    simp only [applyEffect, List.nil_append, List.append_nil]
    omega

/-- Every step that succeeds keeps the chain going. -/
theorem Kept.step {e : AcceptorEvent} (h : Kept s) (he : s.Succeeds e)
    (hstep : step e s = .ok s') : Kept s' := by
  cases e with
  | listen here =>
    obtain ⟨⟨hcalled, -⟩, rfl⟩ := listen_eq_ok.1 hstep
    exact h.listen hcalled
  | dequeue =>
    obtain ⟨t, queue, hstack, hqueue, rfl⟩ := dequeue_eq_ok.1 hstep
    exact h.dequeue hstack hqueue
  | run =>
    obtain ⟨t, stack, eff, hstack, hexec, rfl⟩ := run_eq_ok.1 hstep
    exact h.run hstack (he t (by simp [hstack])) hexec
  | acceptDone error =>
    obtain ⟨newSock, accepts, haccepts, rfl⟩ := acceptDone_eq_ok.1 hstep
    obtain ⟨hone, hsilent, hqueued⟩ := h
    rw [haccepts, List.length_cons] at hone
    refine ⟨?_, hsilent, ?_⟩
    · simp only [weigh_append, weigh_cons, weigh_nil, begins, handles]
      omega
    · intro hpos
      apply hqueued
      simpa [begins] using hpos

end Accepting

/-- All runs of an acceptor. -/
def acceptorMachine : Machine Accepting AcceptorEvent Fault where
  init s := ∃ loop ioPool newConnectionCallback,
    s = Accepting.initial (Acceptor.make loop ioPool newConnectionCallback)
  step := Accepting.step

namespace Accepting

variable {s : Accepting}

/-- There is no accept before `listen`. -/
theorem kept_initial (hs : acceptorMachine.init s) : Kept s := by
  obtain ⟨loop, ioPool, newConnectionCallback, rfl⟩ := hs
  exact ⟨rfl, fun _ => rfl, fun _ => rfl⟩

/-- While no failed accept is handled, a listening acceptor keeps accepting. -/
theorem keepsAccepting_of_succeeds (hs : acceptorMachine.ReachableUnder Succeeds s) :
    s.KeepsAccepting := by
  have h : Kept s :=
    hs.invariant (fun _ => kept_initial) fun _ _ _ h hC hstep => h.step hC hstep
  intro hstack hlistenning
  have hone := h.one
  have hcalled : s.called = true := by
    by_contra hno
    rw [h.silent (by simpa using hno)] at hlistenning
    cases hlistenning
  have hqueue : weigh begins s.queue = 0 := by
    by_contra hno
    rw [h.queued (Nat.pos_of_ne_zero hno)] at hlistenning
    cases hlistenning
  rw [hcalled, hstack, hqueue, weigh_nil, weigh_nil, Bool.toNat_true] at hone
  unfold outstanding
  omega

/-- An accept succeeds and the next one is outstanding. -/
theorem keepsAccepting_twice : ∃ s : Accepting,
    (s.stack, s.acceptor.listenning_, s.accepts) = ([], true, [0]) ∧ s.KeepsAccepting := by
  have hinit : acceptorMachine.init (initial (Acceptor.make 0 none true)) := ⟨0, none, true, rfl⟩
  obtain ⟨s, hs, hobs⟩ := Machine.exists_of_run (C := Succeeds) hinit
    (l := [.listen none, .dequeue, .run, .acceptDone none, .dequeue, .run, .run, .run, .run])
    (f := fun s => (s.stack, s.acceptor.listenning_, s.accepts)) (a := ([], true, [0]))
    (by decide +kernel)
  exact ⟨s, hobs, keepsAccepting_of_succeeds hs⟩

/-- One accept fails: the acceptor still listens and no accept is outstanding. -/
theorem not_keepsAccepting : ¬ ∀ s, acceptorMachine.Reachable s → s.KeepsAccepting := by
  intro hall
  have hinit : acceptorMachine.init (initial (Acceptor.make 0 none true)) := ⟨0, none, true, rfl⟩
  obtain ⟨s, hs, hobs⟩ := Machine.exists_of_run (C := fun _ _ => True) hinit
    (l := [.listen (some 0), .run, .acceptDone (some .other), .dequeue, .run])
    (f := fun s => (s.stack, s.acceptor.listenning_, s.outstanding)) (a := ([], true, 0))
    (by decide +kernel)
  obtain ⟨hstack, hrest⟩ := Prod.mk.inj hobs
  obtain ⟨hlistenning, hout⟩ := Prod.mk.inj hrest
  have hone := hall s hs hstack hlistenning
  omega

end Accepting

end LibNetToy
