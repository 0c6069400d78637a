import LibNetToy.Net.Serving

/-!
# Starting a server again

The header of `TcpServer` calls it harmless to call `start` multiple times.  `start` hands over
to the pool first, and the pool asserts that it was not started; nothing ever sets `started_`
back.  So from the first call on every further call of `start` fails the assertion, whatever was
accepted or closed in between.
-/

namespace LibNetToy

namespace Serving

/-- What the header promises of a call of `start` on the thread of the base loop: no assertion
fails, the pool keeps its loops and its position, and the acceptor its outstanding accepts and
the loop of the socket under way. -/
def StartHarmless (s : Serving) : Prop :=
  ∃ s', s.start s.process.server.loop_ = .ok s' ∧
    s'.threadPool.loops_ = s.threadPool.loops_ ∧ s'.threadPool.next_ = s.threadPool.next_ ∧
    s'.accepting.outstanding = s.accepting.outstanding ∧
    s'.accepting.acceptor.newSockBindedLoop_ = s.accepting.acceptor.newSockBindedLoop_

/-- The acceptor points to a pool that was started. -/
def PoolStarted (a : Acceptor) : Prop :=
  ∃ pool, a.pool_ = some pool ∧ pool.started_ = true

variable {s s' : Serving} {t : ThreadId}

/-- The next accept leaves the pool started. -/
theorem PoolStarted.listenInLoop {a : Acceptor} {eff : AcceptorEffect} (h : PoolStarted a)
    (hlisten : a.listenInLoop = .ok eff) : PoolStarted eff.acceptor := by
  obtain ⟨pool, hpool, hstarted⟩ := h
  rcases Acceptor.listenInLoop_eq_ok.1 hlisten with ⟨pool₀, ioLoop, pool', hp, hcall, rfl⟩ |
    ⟨hno, -⟩
  · obtain rfl := Option.some.inj (hpool.symm.trans hp)
    refine ⟨pool', rfl, ?_⟩
    rcases (EventLoopThreadPool.getNextLoop_eq_ok.1 hcall).2.2 with ⟨-, -, rfl⟩ | ⟨-, -, rfl⟩
    · exact hstarted
    · exact hstarted
  · rw [hno] at hpool
    cases hpool

/-- No task of the acceptor stops the pool. -/
theorem PoolStarted.exec {a : Acceptor} {eff : AcceptorEffect} {task : AcceptorTask}
    (h : PoolStarted a) (hexec : a.exec task = .ok eff) : PoolStarted eff.acceptor := by
  cases task with
  | listen =>
    obtain rfl := pure_eq_ok.1 hexec
    exact h
  | listenInLoop => exact h.listenInLoop hexec
  | acceptHandler newSock error =>
    obtain rfl := pure_eq_ok.1 hexec
    cases error with
    | none => exact h
    | some e => exact h
  | newConnectionCallback newSock sockBindedLoop =>
    obtain rfl := pure_eq_ok.1 hexec
    exact h

/-- A call of `start` that returns leaves the pool started. -/
theorem poolStarted_of_start (h : s.start t = .ok s') : PoolStarted s'.accepting.acceptor := by
  obtain ⟨pool, hpool, hrest⟩ := bind_eq_ok.1 h
  obtain ⟨-, -, rfl⟩ := EventLoopThreadPool.start_eq_ok.1 hpool
  obtain ⟨-, hrest⟩ := check_bind_eq_ok.1 hrest
  split_ifs at hrest
  · obtain ⟨eff, heff, hrest⟩ := bind_eq_ok.1 hrest
    obtain rfl := pure_eq_ok.1 hrest
    exact PoolStarted.listenInLoop ⟨_, rfl, rfl⟩ heff
  · obtain rfl := pure_eq_ok.1 hrest
    exact ⟨_, rfl, rfl⟩

/-- Every step leaves a server that was started with a pool that was started. -/
theorem step_poolStarted {e : ServingEvent}
    (h : s.accepting.called = true → PoolStarted s.accepting.acceptor)
    (hstep : step e s = .ok s') (hcalled : s'.accepting.called = true) :
    PoolStarted s'.accepting.acceptor := by
  cases e with
  | start t => exact poolStarted_of_start (start_eq_ok.1 hstep).2
  | dequeue =>
    obtain ⟨-, a, ha, rfl⟩ := dequeue_eq_ok.1 hstep
    obtain ⟨task, queue, -, -, rfl⟩ := Accepting.dequeue_eq_ok.1 ha
    exact h hcalled
  | run =>
    obtain ⟨-, r, -, a, ha, rfl⟩ := run_eq_ok.1 hstep
    obtain ⟨task, stack, eff, -, hexec, rfl⟩ := Accepting.run_eq_ok.1 ha
    exact (h hcalled).exec hexec
  | acceptDone error =>
    obtain ⟨a, ha, rfl⟩ := acceptDone_eq_ok.1 hstep
    obtain ⟨newSock, accepts, -, rfl⟩ := Accepting.acceptDone_eq_ok.1 ha
    exact h hcalled
  | process e =>
    obtain ⟨-, p, -, rfl⟩ := process_eq_ok.1 hstep
    exact h hcalled

theorem poolStarted_of_reachable (hs : servingMachine.Reachable s)
    (hcalled : s.accepting.called = true) : PoolStarted s.accepting.acceptor := by
  induction hs with
  | init hinit =>
    obtain ⟨p, -, rfl⟩ := hinit
    cases hcalled
  | step _ _ hstep ih => exact step_poolStarted ih hstep hcalled

/-- The first thing `start` does on a started server is to fail the assertion of the pool. -/
theorem start_of_poolStarted (h : PoolStarted s.accepting.acceptor) (t : ThreadId) :
    s.start t = .error (.assertion .poolStart) := by
  obtain ⟨pool, hpool, hstarted⟩ := h
  have hthreads : s.threadPool = pool := by
    rw [threadPool, hpool, Option.getD_some]
  have hfalse : ¬ pool.started_ = false := by
    rw [hstarted]
    decide
  refine bind_eq_error.2 (.inl ?_)
  rw [hthreads]
  exact check_bind_eq_error.2 (.inl ⟨hfalse, rfl⟩)

/-- With any number of threads and in every state reached since the first call of `start`, a
further call is not harmless: on every thread it fails the assertion of the pool. -/
theorem start_again (hs : servingMachine.Reachable s) (hcalled : s.accepting.called = true) :
    ¬ s.StartHarmless ∧ ∀ t, s.start t = .error (.assertion .poolStart) := by
  have hfails := start_of_poolStarted (poolStarted_of_reachable hs hcalled)
  refine ⟨?_, hfails⟩
  rintro ⟨s', hreturns, -⟩
  rw [hfails] at hreturns
  cases hreturns

/-- A server with two threads that was started and has accepted one connection. -/
theorem exists_started : ∃ s : Serving,
    (servingMachine.Reachable s ∧ s.accepted = [0]) ∧ s.accepting.called = true := by
  have hinit : servingMachine.init (initial (Process.initial 0 [1, 2] 3 [] [] [] true true)) :=
    ⟨_, ⟨0, [1, 2], 3, [], [], [], true, true, by decide, by decide, rfl⟩, rfl⟩
  obtain ⟨s, hs, hobs⟩ := Machine.exists_of_run (C := fun _ _ => True) hinit
    (l := [.start 0, .acceptDone none, .dequeue, .run, .run, .process (.run 0 []), .run, .run])
    (f := fun s => (s.accepted, s.accepting.called)) (a := ([0], true)) (by decide +kernel)
  exact ⟨s, ⟨hs, congrArg Prod.fst hobs⟩, congrArg Prod.snd hobs⟩

theorem start_again_two : ∃ s : Serving,
    s.accepted = [0] ∧ s.start 0 = .error (.assertion .poolStart) := by
  obtain ⟨s, ⟨hs, haccepted⟩, hcalled⟩ := exists_started
  exact ⟨s, haccepted, (start_again hs hcalled).2 0⟩

/-- It is not harmless to start a server again. -/
theorem not_startHarmless : ¬ ∀ s : Serving, servingMachine.Reachable s →
    s.accepting.called = true → s.StartHarmless := by
  intro h
  obtain ⟨s, ⟨hs, -⟩, hcalled⟩ := exists_started
  obtain ⟨s', hreturns, -⟩ := h s hs hcalled
  rw [start_of_poolStarted (poolStarted_of_reachable hs hcalled)] at hreturns
  cases hreturns

end Serving

end LibNetToy
