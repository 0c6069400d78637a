import LibNetToy.Net.Acceptor
import LibNetToy.Net.InLoopThread

/-!
# A server that accepts connections

A process together with the acceptor of its server.  The acceptor lives in the base loop, which
takes the functors and handlers of the acceptor from its queue as it takes all others: they are
kept in a queue of their own, and the loop may take from either.  What `newConnectionCallback_`
does is `TcpServer::newConnection`, and the thread goes on with the work of the acceptor when
it has done what `newConnection` called.

The pool hands out its loops in turn and the acceptor asks for one loop for each
`async_accept`, so the connections are spread over the loops in turn, and the loop that
`newSockBindedLoop_` holds when an accept completes is the one its socket was constructed for.
-/

namespace LibNetToy

/-- The thread that an event happens on, if it is not the kernel's or the loop's. -/
def ProcessEvent.thread : ProcessEvent → Option ThreadId
  | .dequeue l => some l
  | .run t _ => some t
  | .return_ t => some t
  | .call t _ _ => some t
  | .keep t _ => some t
  | .keepConnection t => some t
  | .drop t _ => some t
  | .consume t _ _ => some t
  | .destroyServer t => some t
  | .clientCall t _ => some t
  | .connectorCall t _ => some t
  | .destroyClient t => some t
  | _ => none

/-- The acceptor hands over a socket. -/
def ProcessEvent.isAccept : ProcessEvent → Bool
  | .accept _ => true
  | _ => false

/-- A process with the acceptor of its server, and the connections of the server in the order
in which they were made. -/
structure Serving where
  accepting : Accepting
  process : Process
  accepted : List ConnId

/-- What happens next. -/
inductive ServingEvent
  /-- `TcpServer::start` is called. -/
  | start (t : ThreadId)
  /-- The base loop takes the oldest entry for the acceptor. -/
  | dequeue
  /-- The thread of the base loop does the next thing for the acceptor. -/
  | run
  /-- The oldest `async_accept` completes. -/
  | acceptDone (error : Option ErrorCode)
  /-- Anything else. -/
  | process (e : ProcessEvent)

namespace Serving

/-- The thread is not in the middle of something the acceptor does. -/
def free (s : Serving) (t : ThreadId) : Prop :=
  t = s.process.server.loop_ → s.process.stackOf t = [] → s.accepting.stack = []

instance (s : Serving) (t : ThreadId) : Decidable (s.free t) := by
  unfold free
  infer_instance

/-- The thread of the base loop can go on with the acceptor. -/
def proceeds (s : Serving) : Prop :=
  s.process.server.life = .alive ∧ s.process.stopped s.process.server.loop_ = false ∧
    s.process.stackOf s.process.server.loop_ = []

instance (s : Serving) : Decidable s.proceeds := by
  unfold proceeds
  infer_instance

/-- `threadPool_`, which the acceptor points to. -/
def threadPool (s : Serving) : EventLoopThreadPool :=
  s.accepting.acceptor.pool_.getD (.make s.process.server.loop_)

/-- `TcpServer::start`.  On the thread of the base loop `listen` runs inline. -/
def start (s : Serving) (t : ThreadId) : Except Fault Serving := do
  let pool ← s.threadPool.start (some t) fun i => s.process.server.pool.getD i 0
  let acceptor := { s.accepting.acceptor with pool_ := some pool }
  check (acceptor.listenning_ = false) .serverStart
  if t = s.process.server.loop_ then do
    let e ← acceptor.listenInLoop
    pure { s with accepting := { s.accepting with called := true }.applyEffect e }
  else
    pure { s with accepting := { s.accepting with
      acceptor := acceptor
      called := true
      queue := s.accepting.queue ++ [.listen] } }

/-- `TcpServer::newConnection` on the thread of the acceptor. -/
def newConnection (s : Serving) (sockBindedLoop : Option LoopId) : Except Fault Serving := do
  check (s.accepting.acceptor.loop_ = s.process.server.loop_) .assertInLoopThread
  match sockBindedLoop with
  | some ioLoop =>
    pure { s with
      process := TcpServer.newConnection s.process ioLoop
      accepted := s.accepted ++ [s.process.nextConn] }
  | none => .error (.assertion .newConnection)

/-- What the callback of the acceptor does besides the acceptor's own work. -/
def callback (s : Serving) : List AcceptorTask → Except Fault Serving
  | .newConnectionCallback _ sockBindedLoop :: _ => s.newConnection sockBindedLoop
  | _ => pure s

/-- One step of a process with a server. -/
def step : ServingEvent → Serving → Except (Halt Fault) Serving
  | .start t, s =>
    Halt.guard (s.process.userRuns t ∧ s.process.server.life = .alive ∧ s.free t)
      (Halt.ofCall (s.start t) fun s' => s')
  | .dequeue, s =>
    Halt.guard s.proceeds
      (Halt.within (Accepting.step .dequeue s.accepting) fun a => { s with accepting := a })
  | .run, s =>
    Halt.guard s.proceeds
      (match s.callback s.accepting.stack with
      | .ok s' => Halt.within (Accepting.step .run s.accepting) fun a => { s' with accepting := a }
      | .error e => .error (.fault e))
  | .acceptDone error, s =>
    Halt.within (Accepting.step (.acceptDone error) s.accepting) fun a => { s with accepting := a }
  | .process e, s =>
    Halt.guard (e.isAccept = false ∧ ∀ t ∈ e.thread, s.free t)
      (Halt.within (Process.step e s.process) fun p => { s with process := p })

variable {s s' : Serving}

/-! ## What the events do -/

/-- The server is handed a socket that was accepted for one of its loops. -/
theorem newConnection_eq_ok {sockBindedLoop : Option LoopId} :
    s.newConnection sockBindedLoop = .ok s' ↔
      s.accepting.acceptor.loop_ = s.process.server.loop_ ∧ ∃ ioLoop,
        sockBindedLoop = some ioLoop ∧ s' = { s with
          process := TcpServer.newConnection s.process ioLoop
          accepted := s.accepted ++ [s.process.nextConn] } := by
  simp only [newConnection, check_bind_eq_ok]
  cases sockBindedLoop with
  | none => simp
  | some ioLoop => simp [pure_eq_ok]

/-- Code of the user starts the server. -/
theorem start_eq_ok {t : ThreadId} : step (.start t) s = .ok s' ↔
    (s.process.userRuns t ∧ s.process.server.life = .alive ∧ s.free t) ∧
      s.start t = .ok s' := by
  simp [step]

/-- The base loop takes a functor of the acceptor. -/
theorem dequeue_eq_ok : step .dequeue s = .ok s' ↔
    s.proceeds ∧ ∃ a, Accepting.step .dequeue s.accepting = .ok a ∧
      s' = { s with accepting := a } := by
  simp [step]

/-- The acceptor goes on, and the server with it where it is called back. -/
theorem run_eq_ok : step .run s = .ok s' ↔
    s.proceeds ∧ ∃ r, s.callback s.accepting.stack = .ok r ∧ ∃ a,
      Accepting.step .run s.accepting = .ok a ∧ s' = { r with accepting := a } := by
  cases hcall : s.callback s.accepting.stack <;> simp [step, hcall]

/-- What the acceptor or the server asserts may fail. -/
theorem run_eq_fault {f : Fault} : step .run s = .error (.fault f) ↔
    s.proceeds ∧ (s.callback s.accepting.stack = .error f ∨
      ∃ r, s.callback s.accepting.stack = .ok r ∧
        Accepting.step .run s.accepting = .error (.fault f)) := by
  cases hcall : s.callback s.accepting.stack <;> simp [step, hcall]

/-- The kernel completes the outstanding accept. -/
theorem acceptDone_eq_ok {error : Option ErrorCode} : step (.acceptDone error) s = .ok s' ↔
    ∃ a, Accepting.step (.acceptDone error) s.accepting = .ok a ∧
      s' = { s with accepting := a } := by
  simp [step]

/-- Anything else that happens is a step of the process. -/
theorem process_eq_ok {e : ProcessEvent} : step (.process e) s = .ok s' ↔
    (e.isAccept = false ∧ ∀ t ∈ e.thread, s.free t) ∧
      ∃ p, Process.step e s.process = .ok p ∧ s' = { s with process := p } := by
  simp [step]

/-- `setThreadNum` was called with the number of loops that the threads will have. -/
def initial (p : Process) : Serving where
  accepting := .initial (.make p.server.loop_
    (some ((EventLoopThreadPool.make p.server.loop_).setThreadNum p.server.pool.length)) true)
  process := p
  accepted := []

end Serving

/-- All runs of a process with a server. -/
def servingMachine : Machine Serving ServingEvent Fault where
  init s := ∃ p, processMachine.init p ∧ s = Serving.initial p
  step := Serving.step

end LibNetToy
