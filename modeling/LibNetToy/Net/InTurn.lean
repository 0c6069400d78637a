import LibNetToy.Net.Serving
import Mathlib.Data.Int.CardIntervalMod

/-!
# Connections are spread in turn

The acceptor asks the pool for one loop for each `async_accept`, and a call of
`newConnectionCallback_` follows each accept that succeeds.  Between two accepts the acceptor is
in one of few phases, and in every phase the socket under way was constructed for the loop in
`newSockBindedLoop_`, whose turn it is.
-/

namespace LibNetToy

/-! ## Turns of the pool -/

namespace EventLoopThreadPool

variable {pool q : EventLoopThreadPool}

/-- The loops decide whose turn it is. -/
theorem turn_congr (hloops : q.loops_ = pool.loops_) (hbase : q.baseLoop_ = pool.baseLoop_) :
    q.turn = pool.turn := by
  funext i
  simp only [turn, hloops, hbase]

/-- Among the first `n` turns a loop has its share, rounded up for the loops in front. -/
theorem countP_turn {k : Nat} {l : LoopId} (hnodup : pool.loops_.Nodup)
    (hk : pool.loops_[k]? = some l) (n : Nat) :
    (List.range n).countP (fun i => pool.turn i = l) =
      n / pool.loops_.length + if k < n % pool.loops_.length then 1 else 0 := by
  obtain ⟨hlt, hget⟩ := List.getElem?_eq_some_iff.1 hk
  have hpos : 0 < pool.loops_.length := by omega
  have hloops : pool.loops_ ≠ [] := List.length_pos_iff.1 hpos
  have hturn : ∀ i, pool.turn i = l ↔ i ≡ k [MOD pool.loops_.length] := by
    intro i
    have hi := getElem?_turn hloops i
    rw [Nat.ModEq, Nat.mod_eq_of_lt hlt]
    constructor
    · intro h
      rw [h, ← hk] at hi
      exact (List.getElem?_inj (Nat.mod_lt _ hpos) hnodup).1 hi
    · intro h
      rw [h, hk] at hi
      exact (Option.some.inj hi).symm
  simp only [hturn]
  rw [← Nat.mod_eq_of_lt hlt, ← Nat.count_modEq_card n hpos k, Nat.mod_eq_of_lt hlt]
  exact List.countP_congr fun i _ => by simp

end EventLoopThreadPool

/-! ## Phases of the acceptor -/

/-- How far the acceptor is when `n` connections were accepted: how many loops it has asked for,
what the thread of its loop does, what is queued and the sockets of the outstanding accepts. -/
inductive Phase (turn : Nat → LoopId) (bound : Option LoopId) (n : Nat) :
    Nat → List AcceptorTask → List AcceptorTask → List LoopId → Prop
  /-- An accept failed. -/
  | idle {calls : Nat} : Phase turn bound n calls [] [] []
  | waiting : bound = some (turn n) → Phase turn bound n (n + 1) [] [] [turn n]
  | done {error : Option ErrorCode} : bound = some (turn n) →
      Phase turn bound n (n + 1) [] [.acceptHandler (turn n) error] []
  | handling {error : Option ErrorCode} : bound = some (turn n) →
      Phase turn bound n (n + 1) [.acceptHandler (turn n) error] [] []
  | calling : Phase turn bound n (n + 1)
      [.newConnectionCallback (turn n) (some (turn n)), .listen] [] []
  | listen : Phase turn bound n n [.listen] [] []
  | listenInLoop : Phase turn bound n n [.listenInLoop] [] []

namespace Phase

variable {turn : Nat → LoopId} {bound : Option LoopId} {n calls : Nat}
  {stack queue : List AcceptorTask} {accepts : List LoopId}

/-- A functor that is taken is the one link of the chain. -/
theorem dequeue {t : AcceptorTask} {rest : List AcceptorTask}
    (h : Phase turn bound n calls stack queue accepts) (hstack : stack = [])
    (hqueue : queue = t :: rest) : Phase turn bound n calls [t] rest accepts := by
  cases h with
  | idle | waiting => cases hqueue
  | done hbound =>
    cases hqueue
    exact .handling hbound
  | handling | calling | listen | listenInLoop => cases hstack

/-- A completed accept is the one link of the chain. -/
theorem acceptDone {newSock : LoopId} {rest : List LoopId} {error : Option ErrorCode}
    (h : Phase turn bound n calls stack queue accepts) (haccepts : accepts = newSock :: rest) :
    Phase turn bound n calls stack (queue ++ [.acceptHandler newSock error]) rest := by
  cases h with
  | waiting hbound =>
    cases haccepts
    exact .done hbound
  | idle | done | handling | calling | listen | listenInLoop => cases haccepts

/-- What the thread can do next, and how far the acceptor is then. -/
theorem run {t : AcceptorTask} {rest : List AcceptorTask}
    (h : Phase turn bound n calls stack queue accepts) (hstack : stack = t :: rest) :
    queue = [] ∧ accepts = [] ∧
      ((∃ error, t = .acceptHandler (turn n) error ∧ rest = [] ∧ calls = n + 1 ∧
          bound = some (turn n)) ∨
        (t = .newConnectionCallback (turn n) (some (turn n)) ∧ rest = [.listen] ∧
          calls = n + 1) ∨
        (t = .listen ∧ rest = [] ∧ calls = n) ∨
        (t = .listenInLoop ∧ rest = [] ∧ calls = n)) := by
  cases h with
  | idle | waiting | done => cases hstack
  | handling hbound =>
    cases hstack
    exact ⟨rfl, rfl, .inl ⟨_, rfl, rfl, rfl, hbound⟩⟩
  | calling =>
    cases hstack
    exact ⟨rfl, rfl, .inr (.inl ⟨rfl, rfl, rfl⟩)⟩
  | listen =>
    cases hstack
    exact ⟨rfl, rfl, .inr (.inr (.inl ⟨rfl, rfl, rfl⟩))⟩
  | listenInLoop =>
    cases hstack
    exact ⟨rfl, rfl, .inr (.inr (.inr ⟨rfl, rfl, rfl⟩))⟩

end Phase

namespace Process

variable {p q : Process}

/-- The loops of the pool are the loops of different threads. -/
theorem nodup_pool_of_reachable (hp : processMachine.Reachable p) : p.server.pool.Nodup := by
  have h : Placed p ∧ p.server.pool.Nodup := by
    refine hp.invariant (I := fun p => Placed p ∧ p.server.pool.Nodup) ?_ ?_
    · intro s hs
      refine ⟨placed_initial hs, ?_⟩
      obtain ⟨baseLoop, pool, clientLoop, ipPort, serverName, clientName, m, w, hnodup, -, rfl⟩ :=
        hs
      exact hnodup
    · rintro s e s' ⟨hplaced, hnodup⟩ - hstep
      have hmove := Moves.step hplaced hstep
      exact ⟨hmove.placed, hmove.follows.pool ▸ hnodup⟩
  exact h.2

/-- The loop whose turn it is is one that sockets are bound to. -/
theorem turn_mem_ioLoops {pool : EventLoopThreadPool} (hloops : pool.loops_ = p.server.pool)
    (hbase : pool.baseLoop_ = p.server.loop_) (i : Nat) : pool.turn i ∈ p.ioLoops := by
  unfold ioLoops
  split_ifs with hnil
  · rw [EventLoopThreadPool.turn_nil (hloops.trans hnil), hbase]
    exact List.mem_singleton_self _
  · rw [← hloops] at hnil ⊢
    exact EventLoopThreadPool.turn_mem hnil i

end Process

namespace Serving

variable {s s' : Serving} {pool : EventLoopThreadPool}

/-! ## The invariant -/

/-- The server, its acceptor and its pool belong to one loop. -/
structure Fits (s : Serving) (pool : EventLoopThreadPool) : Prop where
  reachable : processMachine.Reachable s.process
  loop : s.accepting.acceptor.loop_ = s.process.server.loop_
  threadPool : s.accepting.acceptor.pool_ = some pool
  baseLoop : pool.baseLoop_ = s.process.server.loop_
  callback : s.accepting.acceptor.newConnectionCallback_ = true

/-- `start` was not called. -/
structure Unstarted (s : Serving) (pool : EventLoopThreadPool) : Prop where
  started : pool.started_ = false
  numThreads : pool.numThreads_ = s.process.server.pool.length
  loops : pool.loops_ = []
  next : pool.next_ = 0
  stack : s.accepting.stack = []
  queue : s.accepting.queue = []
  accepts : s.accepting.accepts = []
  accepted : s.accepted = []

/-- `start` was called, and the acceptor has asked the pool for `calls` loops since. -/
structure Started (s : Serving) (pool : EventLoopThreadPool) (calls : Nat) : Prop where
  turned : pool.Turned calls
  loops : pool.loops_ = s.process.server.pool
  phase : Phase pool.turn s.accepting.acceptor.newSockBindedLoop_ s.accepted.length calls
    s.accepting.stack s.accepting.queue s.accepting.accepts
  accepted : ∀ i c, s.accepted[i]? = some c →
    c < s.process.nextConn ∧ (s.process.conns c).conn.loop_ = pool.turn i

/-- The acceptor serves in turn. -/
def InTurn (s : Serving) : Prop :=
  ∃ pool, Fits s pool ∧ (Unstarted s pool ∨ ∃ calls, Started s pool calls)

/-- The server has the pool that was started. -/
theorem Fits.threadPool_eq (h : Fits s pool) : s.threadPool = pool := by
  rw [Serving.threadPool, h.threadPool, Option.getD_some]

/-! ## Steps of the process -/

/-- Nothing that a step of the process changes matters to the acceptor. -/
theorem Fits.process {e : ProcessEvent} {p : Process} (h : Fits s pool)
    (hstep : Process.step e s.process = .ok p) :
    Fits { s with process := p } pool ∧ Process.Follows s.process p := by
  have hfollows := (Process.Moves.step (Process.placed_of_reachable h.reachable) hstep).follows
  refine ⟨⟨.step h.reachable trivial hstep, ?_, h.threadPool, ?_, h.callback⟩, hfollows⟩
  · exact h.loop.trans hfollows.server.symm
  · exact h.baseLoop.trans hfollows.server.symm

/-- What the process does besides accepting leaves the turns alone. -/
theorem Started.process {p : Process} {calls : Nat} (h : Started s pool calls)
    (hfollows : Process.Follows s.process p) : Started { s with process := p } pool calls := by
  refine ⟨h.turned, h.loops.trans hfollows.pool.symm, h.phase, ?_⟩
  intro i c hc
  obtain ⟨hlt, hloop⟩ := h.accepted i c hc
  exact ⟨Nat.lt_of_lt_of_le hlt hfollows.nextConn, (hfollows.setup c hlt).loop.trans hloop⟩

/-- Every other step of the process leaves the turns alone. -/
theorem InTurn.process {e : ProcessEvent} {p : Process} (h : InTurn s)
    (hstep : Process.step e s.process = .ok p) : InTurn { s with process := p } := by
  obtain ⟨pool, hfits, hturn⟩ := h
  obtain ⟨hfits', hfollows⟩ := hfits.process hstep
  refine ⟨pool, hfits', ?_⟩
  rcases hturn with hun | ⟨calls, hst⟩
  · refine .inl ⟨hun.started, ?_, hun.loops, hun.next, hun.stack, hun.queue, hun.accepts,
      hun.accepted⟩
    rw [hun.numThreads]
    exact congrArg (fun l : List LoopId => (l.length : Int)) hfollows.pool.symm
  · exact .inr ⟨calls, hst.process hfollows⟩

/-! ## Steps of the acceptor -/

/-- The loops that the threads start are the ones of the pool. -/
theorem map_getD_range (ls : List LoopId) :
    (List.range ls.length).map (fun i => ls.getD i 0) = ls := by
  apply List.ext_getElem
  · simp
  · intro i hi hi'
    simp [hi']

/-- `listenInLoop` asks for the loop whose turn it is and constructs the socket for it. -/
theorem listenInLoop_turn {a : Acceptor} {eff : AcceptorEffect} {calls : Nat}
    (hpool : a.pool_ = some pool) (hturned : pool.Turned calls)
    (h : a.listenInLoop = .ok eff) : ∃ pool', eff = ⟨{ a with
        listenning_ := true
        pool_ := some pool'
        newSockBindedLoop_ := some (pool'.turn calls) }, [], [pool'.turn calls]⟩ ∧
      pool'.Turned (calls + 1) ∧ pool'.loops_ = pool.loops_ ∧
      pool'.baseLoop_ = pool.baseLoop_ := by
  rcases Acceptor.listenInLoop_eq_ok.1 h with ⟨pool₀, ioLoop, pool', hp, hcall, rfl⟩ | ⟨hno, -⟩
  · obtain rfl := Option.some.inj (hpool.symm.trans hp)
    obtain ⟨rfl, hturned', hloops, hbase⟩ := hturned.getNextLoop hcall
    rw [← EventLoopThreadPool.turn_congr hloops hbase]
    exact ⟨pool', rfl, hturned', hloops, hbase⟩
  · rw [hno] at hpool
    cases hpool

/-- `start` starts the pool and the chain of accepts. -/
theorem InTurn.start {t : ThreadId} (h : InTurn s) (hstart : s.start t = .ok s') :
    InTurn s' := by
  obtain ⟨pool, hfits, hturn⟩ := h
  rw [Serving.start, hfits.threadPool_eq] at hstart
  obtain ⟨pool₁, hpool, hstart⟩ := bind_eq_ok.1 hstart
  obtain ⟨hstarted, hhere, rfl⟩ := EventLoopThreadPool.start_eq_ok.1 hpool
  obtain ⟨-, hstart⟩ := check_bind_eq_ok.1 hstart
  rcases hturn with hun | ⟨calls, hst⟩
  · rw [if_pos ((Option.some.inj hhere).trans hfits.baseLoop)] at hstart
    obtain ⟨eff, heff, hstart⟩ := bind_eq_ok.1 hstart
    obtain rfl := pure_eq_ok.1 hstart
    have hturned : EventLoopThreadPool.Turned { pool with
        started_ := true
        loops_ := pool.loops_ ++ (List.range pool.numThreads_.toNat).map
          fun i => s.process.server.pool.getD i 0 } 0 := by
      refine ⟨rfl, ?_⟩
      simp [hun.next]
    obtain ⟨pool', rfl, hturned', hloops, hbase⟩ := listenInLoop_turn rfl hturned heff
    refine ⟨pool', ⟨hfits.reachable, hfits.loop, rfl, hbase.trans hfits.baseLoop,
      hfits.callback⟩, .inr ⟨1, hturned', ?_, ?_, ?_⟩⟩
    · rw [hloops, hun.loops, hun.numThreads, Int.toNat_natCast, List.nil_append, map_getD_range]
    · simp only [Accepting.applyEffect, hun.stack, hun.queue, hun.accepts, hun.accepted]
      exact .waiting rfl
    · intro i c hc
      rw [show s.accepted = [] from hun.accepted] at hc
      cases hc
  · rw [hst.turned.started] at hstarted
    cases hstarted

/-- A part of the step that only moves entries of the acceptor. -/
theorem InTurn.acceptor {stack queue : List AcceptorTask} {accepts : List LoopId} (h : InTurn s)
    (hphase : ∀ turn calls,
      Phase turn s.accepting.acceptor.newSockBindedLoop_ s.accepted.length calls
        s.accepting.stack s.accepting.queue s.accepting.accepts →
      Phase turn s.accepting.acceptor.newSockBindedLoop_ s.accepted.length calls
        stack queue accepts)
    (hidle : s.accepting.stack = [] → s.accepting.queue = [] → s.accepting.accepts = [] →
      stack = [] ∧ queue = [] ∧ accepts = []) :
    InTurn { s with accepting := { s.accepting with
      stack := stack
      queue := queue
      accepts := accepts } } := by
  obtain ⟨pool, hfits, hturn⟩ := h
  refine ⟨pool, ⟨hfits.reachable, hfits.loop, hfits.threadPool, hfits.baseLoop, hfits.callback⟩,
    ?_⟩
  rcases hturn with hun | ⟨calls, hst⟩
  · obtain ⟨hstack, hqueue, haccepts⟩ := hidle hun.stack hun.queue hun.accepts
    exact .inl ⟨hun.started, hun.numThreads, hun.loops, hun.next, hstack, hqueue, haccepts,
      hun.accepted⟩
  · exact .inr ⟨calls, hst.turned, hst.loops, hphase _ _ hst.phase, hst.accepted⟩

/-- The base loop takes a functor of the acceptor. -/
theorem InTurn.dequeue {a : Accepting} (h : InTurn s)
    (hstep : Accepting.step .dequeue s.accepting = .ok a) :
    InTurn { s with accepting := a } := by
  obtain ⟨t, queue, hstack, hqueue, rfl⟩ := Accepting.dequeue_eq_ok.1 hstep
  refine h.acceptor (fun turn calls hphase => hphase.dequeue hstack hqueue) ?_
  intro _ hnil
  rw [hqueue] at hnil
  cases hnil

/-- The kernel completes the outstanding accept. -/
theorem InTurn.acceptDone {error : Option ErrorCode} {a : Accepting} (h : InTurn s)
    (hstep : Accepting.step (.acceptDone error) s.accepting = .ok a) :
    InTurn { s with accepting := a } := by
  obtain ⟨newSock, accepts, haccepts, rfl⟩ := Accepting.acceptDone_eq_ok.1 hstep
  refine h.acceptor (fun turn calls hphase => hphase.acceptDone haccepts) ?_
  intro _ _ hnil
  rw [haccepts] at hnil
  cases hnil

/-- The connection that `newConnection` makes is bound to the loop it is given. -/
theorem newConnection_conns (p : Process) (ioLoop : LoopId) :
    (TcpServer.newConnection p ioLoop).nextConn = p.nextConn + 1 ∧
      ((TcpServer.newConnection p ioLoop).conns p.nextConn).conn.loop_ = ioLoop := by
  simp [TcpServer.newConnection, Process.schedule, Connection.make, TcpConnection.make]

/-- The server takes the socket that was accepted. -/
theorem Started.newConnection {calls : Nat} {a : Accepting} (hfits : Fits s pool)
    (h : Started s pool calls) (hproceeds : s.proceeds)
    (hacceptor : a.acceptor = s.accepting.acceptor)
    (hphase : Phase pool.turn a.acceptor.newSockBindedLoop_ (s.accepted.length + 1) calls
      a.stack a.queue a.accepts) :
    InTurn {
      accepting := a
      process := TcpServer.newConnection s.process (pool.turn s.accepted.length)
      accepted := s.accepted ++ [s.process.nextConn] } := by
  have hmem := Process.turn_mem_ioLoops h.loops hfits.baseLoop s.accepted.length
  have hstep : Process.step (.accept (pool.turn s.accepted.length)) s.process =
      .ok (TcpServer.newConnection s.process (pool.turn s.accepted.length)) :=
    Process.accept_eq_ok.2 ⟨⟨hproceeds.1, hproceeds.2.1, hproceeds.2.2, hmem⟩, rfl⟩
  obtain ⟨hfits', hfollows⟩ := hfits.process hstep
  obtain ⟨hnext, hloop⟩ := newConnection_conns s.process (pool.turn s.accepted.length)
  have hst := h.process hfollows
  refine ⟨pool, ⟨hfits'.reachable, ?_, ?_, hfits'.baseLoop, ?_⟩, .inr ⟨calls, hst.turned,
    hst.loops, ?_, ?_⟩⟩
  · exact hacceptor ▸ hfits'.loop
  · exact hacceptor ▸ hfits'.threadPool
  · exact hacceptor ▸ hfits'.callback
  · rw [List.length_append, List.length_singleton]
    exact hphase
  · intro i c hc
    rcases Nat.lt_or_ge i s.accepted.length with hi | hi
    · rw [List.getElem?_append_left hi] at hc
      exact hst.accepted i c hc
    · rw [List.getElem?_append_right hi] at hc
      rw [List.getElem?_singleton] at hc
      split_ifs at hc with hzero
      obtain rfl := Option.some.inj hc
      obtain rfl : i = s.accepted.length := by omega
      exact ⟨by rw [hnext]; exact Nat.lt_succ_self _, hloop⟩

/-- The acceptor hands the socket over and takes the next turn. -/
theorem InTurn.run {r : Serving} {a : Accepting} (h : InTurn s) (hproceeds : s.proceeds)
    (hcall : s.callback s.accepting.stack = .ok r)
    (hstep : Accepting.step .run s.accepting = .ok a) : InTurn { r with accepting := a } := by
  obtain ⟨t, rest, eff, hstack, hexec, rfl⟩ := Accepting.run_eq_ok.1 hstep
  rw [hstack] at hcall
  obtain ⟨pool, hfits, hun | ⟨calls, hst⟩⟩ := h
  · rw [hun.stack] at hstack
    cases hstack
  obtain ⟨hqueue, haccepts, ⟨error, rfl, rfl, rfl, hbound⟩ | ⟨rfl, rfl, rfl⟩ | ⟨rfl, rfl, rfl⟩ |
    ⟨rfl, rfl, rfl⟩⟩ := hst.phase.run hstack
  · -- the handler of an accept
    obtain rfl := pure_eq_ok.1 hcall
    obtain rfl := pure_eq_ok.1 hexec
    cases error with
    | none =>
      refine ⟨pool, ⟨hfits.reachable, hfits.loop, hfits.threadPool, hfits.baseLoop,
        hfits.callback⟩, .inr ⟨_, hst.turned, hst.loops, ?_, hst.accepted⟩⟩
      simp only [Accepting.applyEffect, Acceptor.acceptHandler, hfits.callback, if_true, hbound,
        hqueue, haccepts]
      exact .calling
    | some e =>
      refine ⟨pool, ⟨hfits.reachable, hfits.loop, hfits.threadPool, hfits.baseLoop,
        hfits.callback⟩, .inr ⟨_, hst.turned, hst.loops, ?_, hst.accepted⟩⟩
      simp only [Accepting.applyEffect, Acceptor.acceptHandler, hqueue, haccepts]
      exact .idle
  · -- the callback
    rw [callback] at hcall
    obtain ⟨-, ioLoop, hio, rfl⟩ := newConnection_eq_ok.1 hcall
    obtain rfl := Option.some.inj hio
    obtain rfl := pure_eq_ok.1 hexec
    refine hst.newConnection hfits hproceeds rfl ?_
    simp only [Accepting.applyEffect, hqueue, haccepts]
    exact .listen
  · obtain rfl := pure_eq_ok.1 hcall
    obtain rfl := pure_eq_ok.1 hexec
    refine ⟨pool, ⟨hfits.reachable, hfits.loop, hfits.threadPool, hfits.baseLoop,
      hfits.callback⟩, .inr ⟨_, hst.turned, hst.loops, ?_, hst.accepted⟩⟩
    simp only [Accepting.applyEffect, Acceptor.listen, hqueue, haccepts]
    exact .listenInLoop
  · -- the next accept
    obtain rfl := pure_eq_ok.1 hcall
    obtain ⟨pool', rfl, hturned, hloops, hbase⟩ :=
      listenInLoop_turn hfits.threadPool hst.turned hexec
    refine ⟨pool', ⟨hfits.reachable, hfits.loop, rfl, hbase.trans hfits.baseLoop,
      hfits.callback⟩, .inr ⟨_, hturned, hloops.trans hst.loops, ?_, ?_⟩⟩
    · simp only [Accepting.applyEffect, hqueue, haccepts]
      exact .waiting rfl
    · rw [EventLoopThreadPool.turn_congr hloops hbase]
      exact hst.accepted

/-- Every step keeps the turns. -/
theorem InTurn.step {e : ServingEvent} (h : InTurn s) (hstep : step e s = .ok s') :
    InTurn s' := by
  cases e with
  | start t => exact h.start (start_eq_ok.1 hstep).2
  | dequeue =>
    obtain ⟨-, a, ha, rfl⟩ := dequeue_eq_ok.1 hstep
    exact h.dequeue ha
  | run =>
    obtain ⟨hproceeds, r, hr, a, ha, rfl⟩ := run_eq_ok.1 hstep
    exact h.run hproceeds hr ha
  | acceptDone error =>
    obtain ⟨a, ha, rfl⟩ := acceptDone_eq_ok.1 hstep
    exact h.acceptDone ha
  | process e =>
    obtain ⟨-, p, hp, rfl⟩ := process_eq_ok.1 hstep
    exact h.process hp

/-- No turn was taken at first. -/
theorem inTurn_initial (hs : servingMachine.init s) : InTurn s := by
  obtain ⟨p, hp, rfl⟩ := hs
  exact ⟨_, ⟨.init hp, rfl, rfl, rfl, rfl⟩, .inl ⟨rfl, rfl, rfl, rfl, rfl, rfl, rfl, rfl⟩⟩

/-- In every run the loops take turns. -/
theorem inTurn_of_reachable (hs : servingMachine.Reachable s) : InTurn s :=
  hs.invariant (fun _ => inTurn_initial) fun _ _ _ h _ hstep => h.step hstep

/-! ## No check of the acceptor fails -/

/-- `getNextLoop` does not assert the thread on that of the base loop. -/
theorem getNextLoop_inLoop {here : Option LoopId} (h : here = some pool.baseLoop_) :
    pool.getNextLoop here ≠ .error (.assertion .assertInLoopThread) := by
  intro hcall
  rcases check_bind_eq_error.1 hcall with ⟨hno, -⟩ | ⟨-, hcall⟩
  · exact hno h
  rcases check_bind_eq_error.1 hcall with ⟨-, hf⟩ | ⟨-, hcall⟩
  · cases hf
  split_ifs at hcall
  · exact pure_ne_error hcall
  · rcases bind_eq_error.1 hcall with hat | ⟨l, -, hcall⟩
    · unfold vectorAt at hat
      split_ifs at hat
      · cases hat
      · split at hat <;> cases hat
    · exact pure_ne_error hcall

/-- `listenInLoop` does not fail that assertion either. -/
theorem listenInLoop_inLoop {a : Acceptor} (hpool : a.pool_ = some pool)
    (hloop : a.loop_ = pool.baseLoop_) :
    a.listenInLoop ≠ .error (.assertion .assertInLoopThread) := by
  intro h
  simp only [Acceptor.listenInLoop, hpool] at h
  rcases bind_eq_error.1 h with h | ⟨r, -, h⟩
  · exact getNextLoop_inLoop (congrArg some hloop) h
  · exact pure_ne_error h

/-- `start` fails that assertion on another thread only. -/
theorem Fits.start_inLoop {t : ThreadId} (h : Fits s pool)
    (hstart : s.start t = .error (.assertion .assertInLoopThread)) :
    t ≠ s.process.server.loop_ := by
  rw [start, h.threadPool_eq] at hstart
  rcases bind_eq_error.1 hstart with hpool | ⟨pool', hpool, hstart⟩
  · rcases check_bind_eq_error.1 hpool with ⟨-, hf⟩ | ⟨-, hpool⟩
    · cases hf
    rcases check_bind_eq_error.1 hpool with ⟨hno, -⟩ | ⟨-, hpool⟩
    · rintro rfl
      exact hno (congrArg some h.baseLoop.symm)
    · exact absurd hpool pure_ne_error
  · obtain ⟨-, -, rfl⟩ := EventLoopThreadPool.start_eq_ok.1 hpool
    rcases check_bind_eq_error.1 hstart with ⟨-, hf⟩ | ⟨-, hstart⟩
    · cases hf
    split_ifs at hstart
    · rcases bind_eq_error.1 hstart with hlisten | ⟨e, -, hstart⟩
      · exact absurd hlisten (listenInLoop_inLoop rfl (h.loop.trans h.baseLoop.symm))
      · exact absurd hstart pure_ne_error
    · exact absurd hstart pure_ne_error

/-- The acceptor runs on the thread of the base loop. -/
theorem Fits.run_inLoop (h : Fits s pool) :
    step .run s ≠ .error (.fault (.assertion .assertInLoopThread)) := by
  intro hstep
  rcases (run_eq_fault.1 hstep).2 with hcall | ⟨r, -, hrun⟩
  · unfold Serving.callback at hcall
    split at hcall
    · rcases check_bind_eq_error.1 hcall with ⟨hno, -⟩ | ⟨-, hcall⟩
      · exact hno h.loop
      · split at hcall
        · exact pure_ne_error hcall
        · cases hcall
    · exact pure_ne_error hcall
  · cases hstack : s.accepting.stack with
    | nil => simp [Accepting.step, hstack] at hrun
    | cons t rest =>
      simp only [Accepting.step, hstack, Halt.ofCall_eq_fault] at hrun
      cases t with
      | listenInLoop => exact listenInLoop_inLoop h.threadPool (h.loop.trans h.baseLoop.symm) hrun
      | listen | acceptHandler | newConnectionCallback => exact pure_ne_error hrun

/-- Only the user can call on the wrong thread. -/
theorem Fits.step_inLoop {e : ServingEvent} (h : Fits s pool)
    (hstep : step e s = .error (.fault (.assertion .assertInLoopThread))) :
    ∃ t, (e = .start t ∨ e = .process (.destroyServer t)) ∧ t ≠ s.process.server.loop_ := by
  cases e with
  | start t =>
    obtain ⟨-, hstart⟩ := Halt.guard_eq_fault.1 hstep
    exact ⟨t, .inl rfl, h.start_inLoop (Halt.ofCall_eq_fault.1 hstart)⟩
  | dequeue =>
    obtain ⟨-, hdeq⟩ := Halt.guard_eq_fault.1 hstep
    cases hstack : s.accepting.stack <;> cases hqueue : s.accepting.queue <;>
      simp [Accepting.step, hstack, hqueue] at hdeq
  | run => exact absurd hstep h.run_inLoop
  | acceptDone error =>
    cases haccepts : s.accepting.accepts <;> simp [step, Accepting.step, haccepts] at hstep
  | process e =>
    obtain ⟨-, hproc⟩ := Halt.guard_eq_fault.1 hstep
    obtain ⟨t, rfl, ht⟩ := (Process.placed_of_reachable h.reachable).step_inLoop
      (Halt.within_eq_fault.1 hproc)
    exact ⟨t, .inr rfl, ht⟩

/-! ## Turns and loops -/

/-- The number of accepted connections that are bound to the loop. -/
def load (s : Serving) (l : LoopId) : Nat :=
  s.accepted.countP fun c => (s.process.conns c).conn.loop_ = l

/-- Connections are assigned to the loops of the pool in turn, and everything a connection does
happens on the thread of its loop. -/
structure ServesInTurn (s : Serving) : Prop where
  /-- The pool has started its threads. -/
  loops : s.threadPool.started_ = true → s.threadPool.loops_ = s.process.server.pool
  /-- The `i`-th connection is bound to the `i`-th loop, modulo their number. -/
  assigned : ∀ i c, s.accepted[i]? = some c →
    if s.process.server.pool = [] then
      (s.process.conns c).conn.loop_ = s.process.server.loop_
    else
      s.process.server.pool[i % s.process.server.pool.length]? =
        some (s.process.conns c).conn.loop_
  balanced : ∀ l ∈ s.process.ioLoops, ∀ l' ∈ s.process.ioLoops, s.load l ≤ s.load l' + 1
  next : 0 ≤ s.threadPool.next_ ∧
    s.threadPool.next_ < max 1 (s.process.server.pool.length : Int)
  /-- `newConnection` gets the loop that the socket was constructed with. -/
  socket : ∀ newSock bound,
    s.accepting.stack.head? = some (.newConnectionCallback newSock bound) →
      bound = some newSock
  /-- Member functions run on the thread of their loop. -/
  affinity : ∀ t c k, k ≠ .release →
    (s.process.stackOf t).head? = some (.conn c k) ∨
      (s.process.stackOf t).head? = some (.bound c k) →
    t = (s.process.conns c).conn.loop_
  /-- `assertInLoopThread` fails only where the user calls the server on another thread. -/
  inLoop : ∀ e, step e s = .error (.fault (.assertion .assertInLoopThread)) →
    ∃ t, (e = .start t ∨ e = .process (.destroyServer t)) ∧ t ≠ s.process.server.loop_

/-- The accepted connections are bound to the first turns. -/
theorem Started.load_eq {calls : Nat} (h : Started s pool calls) (l : LoopId) :
    s.load l = (List.range s.accepted.length).countP fun i => pool.turn i = l := by
  have hmap : s.accepted.map (fun c => (s.process.conns c).conn.loop_) =
      (List.range s.accepted.length).map pool.turn := by
    apply List.ext_getElem
    · simp
    · intro i hi hi'
      simp only [List.length_map] at hi
      simp only [List.getElem_map, List.getElem_range]
      exact (h.accepted i _ (List.getElem?_eq_getElem hi)).2
  have hcount := congrArg (List.countP fun l' => decide (l' = l)) hmap
  rw [List.countP_map, List.countP_map] at hcount
  exact hcount

/-- No loop has two connections more than another. -/
theorem Started.balanced {calls : Nat} {l l' : LoopId} (hfits : Fits s pool)
    (h : Started s pool calls) (hl : l ∈ s.process.ioLoops) (hl' : l' ∈ s.process.ioLoops) :
    s.load l ≤ s.load l' + 1 := by
  unfold Process.ioLoops at hl hl'
  split_ifs at hl hl' with hnil
  · rw [List.mem_singleton.1 hl, List.mem_singleton.1 hl']
    exact Nat.le_succ _
  · have hnodup : pool.loops_.Nodup :=
      h.loops ▸ Process.nodup_pool_of_reachable hfits.reachable
    obtain ⟨k, hk⟩ := List.getElem?_of_mem (h.loops ▸ hl)
    obtain ⟨k', hk'⟩ := List.getElem?_of_mem (h.loops ▸ hl')
    rw [h.load_eq, h.load_eq, EventLoopThreadPool.countP_turn hnodup hk,
      EventLoopThreadPool.countP_turn hnodup hk']
    split_ifs <;> omega

/-- The `i`-th connection is on the loop whose turn it was. -/
theorem Started.assigned {calls i : Nat} {c : ConnId} (hfits : Fits s pool)
    (h : Started s pool calls) (hc : s.accepted[i]? = some c) :
    if s.process.server.pool = [] then
      (s.process.conns c).conn.loop_ = s.process.server.loop_
    else
      s.process.server.pool[i % s.process.server.pool.length]? =
        some (s.process.conns c).conn.loop_ := by
  rw [(h.accepted i c hc).2]
  split_ifs with hnil
  · rw [EventLoopThreadPool.turn_nil (h.loops.trans hnil), hfits.baseLoop]
  · rw [← h.loops] at hnil ⊢
    exact EventLoopThreadPool.getElem?_turn hnil i

/-- In every run the server serves in turn. -/
theorem servesInTurn (hs : servingMachine.Reachable s) : s.ServesInTurn := by
  obtain ⟨pool, hfits, hturn⟩ := inTurn_of_reachable hs
  have hplaced := Process.placed_of_reachable hfits.reachable
  refine ⟨?_, ?_, ?_, ?_, ?_, ?_, fun e => hfits.step_inLoop⟩
  · rw [hfits.threadPool_eq]
    rcases hturn with hun | ⟨calls, hst⟩
    · rw [hun.started]
      exact nofun
    · exact fun _ => hst.loops
  · intro i c hc
    rcases hturn with hun | ⟨calls, hst⟩
    · rw [hun.accepted] at hc
      cases hc
    · exact hst.assigned hfits hc
  · intro l hl l' hl'
    rcases hturn with hun | ⟨calls, hst⟩
    · simp [load, hun.accepted]
    · exact hst.balanced hfits hl hl'
  · rw [hfits.threadPool_eq]
    rcases hturn with hun | ⟨calls, hst⟩
    · rw [hun.next]
      omega
    · rw [← hst.loops]
      exact hst.turned.next_lt
  · intro newSock bound hhead
    rcases hturn with hun | ⟨calls, hst⟩
    · rw [hun.stack] at hhead
      cases hhead
    · obtain ⟨rest, hstack⟩ := List.head?_eq_some_iff.1 hhead
      obtain ⟨-, -, ⟨error, ht, -⟩ | ⟨ht, -⟩ | ⟨ht, -⟩ | ⟨ht, -⟩⟩ := hst.phase.run hstack <;>
        cases ht
      rfl
  · intro t c k hk hhead
    rcases hhead with hhead | hhead
    · have hb := hplaced.stack _ (Keyed.mem_ofKey.1 (List.mem_of_head? hhead))
      refine hb.place _ ?_
      unfold Process.place
      split <;> simp_all
    · have hb := hplaced.stack _ (Keyed.mem_ofKey.1 (List.mem_of_head? hhead))
      exact hb.place _ rfl

/-- Three connections are accepted by a server with two threads. -/
theorem servesInTurn_three : ∃ s : Serving,
    s.accepted.map (fun c => (s.process.conns c).conn.loop_) = [1, 2, 1] ∧ s.ServesInTurn := by
  have hinit : servingMachine.init (initial (Process.initial 0 [1, 2] 3 [] [] [] true true)) :=
    ⟨_, ⟨0, [1, 2], 3, [], [], [], true, true, by decide, by decide, rfl⟩, rfl⟩
  obtain ⟨s, hs, hobs⟩ := Machine.exists_of_run (C := fun _ _ => True) hinit
    (l := .start 0 :: (List.replicate 3 [.acceptDone none, .dequeue, .run, .run,
      .process (.run 0 []), .run, .run]).flatten)
    (f := fun s => s.accepted.map (fun c => (s.process.conns c).conn.loop_)) (a := [1, 2, 1])
    (by decide +kernel)
  exact ⟨s, hobs, servesInTurn hs⟩

end Serving

end LibNetToy
