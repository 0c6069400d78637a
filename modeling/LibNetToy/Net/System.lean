import LibNetToy.Net.TcpServer
import LibNetToy.Net.TcpClient
import LibNetToy.Foundations.Machine

/-!
# Runs of a process

The steps of a process: a loop takes a functor from its queue, a thread does the next thing on
its stack, a callback returns, code of the user calls the library, the kernel completes an
operation or a timer expires.  Code of the user runs on a thread that has nothing else to do
and inside the callbacks of connections; it reaches the connections it holds a pointer to and
the one whose callback is running.

A call made by another thread is one step, also where the function tests and sets `state_`
without a lock, as `forceClose` and `shutdown` do.  The handler of an operation whose socket was
closed is queued at any later time here, where `close()` queues the handlers of the operations it
aborts before it returns; the runs in which they come at once are those of `abortingMachine`.
-/

namespace LibNetToy

namespace Process

/-! ## Running the work of a thread -/

/-- Run a work item that was taken from the stack of the thread `t`.  The address of the peer
of a new connection of the client is given by `peer`.  A failed send touches no member of its
connection. -/
def exec (p : Process) (t : ThreadId) (peer : List Char) : Work → Except Fault Process
  | .conn c .release => p.release c
  | .conn c (.callback .close) =>
    if (p.conns c).destroyed then .error .useAfterDestruction
    else pure (p.schedule t [(p.conns c).closeTask c] [])
  | .conn _ (.writeHandler (some _) _) => pure p
  | .conn c k => p.execConn t c k []
  | .bound c k => p.execConn t c k [.conn c .release]
  | .setCloseCallback c =>
    pure ((p.update c fun r => { r with closeCallback_ := .client }).schedule t
      [.conn c .release] [])
  | .server k => TcpServer.exec p t k
  | .client k =>
    if p.client.life = .dead then .error .useAfterDestruction
    else match k with
      | .newConnection socket => TcpClient.newConnection p t socket peer
      | .removeConnection c => TcpClient.removeConnection p t c
      | .destroyed => pure (TcpClient.destroyed p t)
  | .connector k => Connector.exec p t k
  | .handleTimer timer error => pure (TimerQueue.handleTimer p t timer error)
  | .eraseTimer timer => pure { p with timers := p.timers.erase timer }

end Process

/-- The functions of the client that the user calls. -/
inductive ClientCall
  | connect
  | disconnect
  | stop
  | enableRetry
  deriving DecidableEq, Repr

/-- The functions of a connector that its user calls. -/
inductive ConnectorCall
  | start
  | stop
  | restart
  deriving DecidableEq, Repr

/-- What happens next in a process. -/
inductive ProcessEvent
  /-- The loop takes the oldest entry of its queue. -/
  | dequeue (l : LoopId)
  /-- The thread does the next thing on its stack. -/
  | run (t : ThreadId) (peer : List Char)
  /-- The running callback returns. -/
  | return_ (t : ThreadId)
  /-- The user calls a connection. -/
  | call (t : ThreadId) (c : ConnId) (x : ConnCall)
  /-- The user copies the pointer that a callback was given. -/
  | keep (t : ThreadId) (c : ConnId)
  /-- The user calls `TcpClient::connection()` and keeps the result. -/
  | keepConnection (t : ThreadId)
  /-- The user releases a pointer. -/
  | drop (t : ThreadId) (c : ConnId)
  /-- The message callback retrieves bytes. -/
  | consume (t : ThreadId) (c : ConnId) (len : Nat)
  | receive (c : ConnId) (data : List UInt8)
  | readFails (c : ConnId) (e : ErrorCode)
  | transmit (c : ConnId) (k : Nat) (stale : List UInt8)
  | sendFails (c : ConnId) (e : ErrorCode)
  /-- The acceptor hands a new socket of the loop `ioLoop` to the server. -/
  | accept (ioLoop : LoopId)
  | destroyServer (t : ThreadId)
  | clientCall (t : ThreadId) (x : ClientCall)
  | connectorCall (t : ThreadId) (x : ConnectorCall)
  | destroyClient (t : ThreadId)
  /-- The oldest `async_connect` of a socket completes. -/
  | connectDone (socket : SockId) (error : Option ErrorCode)
  /-- The wait of a timer completes. -/
  | timerExpires (timer : TimerId)

namespace Process

/-- The thread can do the work item now: the code of a callback returns by itself, and a join
waits until the thread of the loop has ended. -/
def ready (p : Process) : Work → Bool
  | .conn _ (.inCallback _) => false
  | .server (.joinLoop l) => (p.stackOf l).isEmpty
  | _ => true

/-- The thread is running the code of a callback of the connection. -/
def inCallbackOf (p : Process) (t : ThreadId) (c : ConnId) : Bool :=
  match p.stackOf t with
  | .conn d (.inCallback _) :: _ => decide (d = c)
  | _ => false

/-- Code of the user running on the thread can use the connection. -/
def reaches (p : Process) (t : ThreadId) (c : ConnId) : Bool :=
  p.userRuns t && decide (0 < (p.conns c).refs) || p.inCallbackOf t c

/-- The socket of the connection is open. -/
def socketOpen (p : Process) (c : ConnId) : Bool :=
  !(p.conns c).destroyed &&
    match (p.conns c).socket with
    | some k => !p.sockets.closed.contains k
    | none => true

/-- Operations on a socket that was closed or destroyed are aborted. -/
def mayFail (p : Process) (c : ConnId) (e : ErrorCode) : Bool :=
  p.socketOpen c || decide (e = .operationAborted)

/-- The kernel queues a completion of the connection. -/
def complete (p : Process) (c : ConnId) (r : TcpConnection × ConnTask) : Process :=
  let q := p.update c fun s => { s with conn := r.1 }
  { q with queue := q.queue ++ [(r.1.loop_, .conn c r.2)] }

/-- The loops that accepted sockets are bound to. -/
def ioLoops (p : Process) : List LoopId :=
  if p.server.pool = [] then [p.server.loop_] else p.server.pool

def clientCall (p : Process) (t : ThreadId) : ClientCall → Process
  | .connect => TcpClient.connect p t
  | .disconnect => TcpClient.disconnect p t
  | .stop => TcpClient.stop p
  | .enableRetry => TcpClient.enableRetry p

/-- `start` and `stop` can be called in any thread, `restart` must be called in the thread of
the loop. -/
def mayCall (p : Process) (t : ThreadId) : ConnectorCall → Bool
  | .start | .stop => true
  | .restart => decide (t = p.connector.loop_)

def connectorCall (p : Process) (t : ThreadId) : ConnectorCall → Process
  | .start => Connector.start p t
  | .stop => Connector.stop p
  | .restart => p.schedule t [.connector .restart] []

/-- One step of a process. -/
def step : ProcessEvent → Process → Except (Halt Fault) Process
  | .dequeue l, p =>
    Halt.guard (p.stopped l = false ∧ p.stackOf l = [])
      (Halt.ofOption (Keyed.takeFirst l p.queue) fun r =>
        { p with stack := (l, r.1) :: p.stack, queue := r.2 })
  | .run t peer, p =>
    match Keyed.takeFirst t p.stack with
    | none => .error .disabled
    | some (w, rest) =>
      Halt.guard (p.ready w)
        (Halt.ofCall (({ p with stack := rest } : Process).exec t peer w) fun q => q)
  | .return_ t, p =>
    match Keyed.takeFirst t p.stack with
    | some (.conn _ (.inCallback _), rest) => .ok { p with stack := rest }
    | _ => .error .disabled
  | .call t c x, p =>
    Halt.guard (p.reaches t c)
      (Halt.ofCall ((p.conns c).conn.call (some t) x) fun e => p.applyEffect t c e [])
  | .keep t c, p =>
    Halt.guard (p.inCallbackOf t c)
      (.ok (p.update c fun r => { r with refs := r.refs + 1 }))
  | .keepConnection t, p =>
    Halt.guard (p.userRuns t ∧ p.client.life = .alive)
      (Halt.ofOption p.client.connection_ fun c =>
        p.update c fun r => { r with refs := r.refs + 1 })
  | .drop t c, p =>
    Halt.guard (p.userRuns t ∧ 0 < (p.conns c).refs)
      (.ok ((p.update c fun r => { r with refs := r.refs - 1 }).schedule t [.conn c .release] []))
  | .consume t c len, p =>
    Halt.guard ((p.stackOf t).head? = some (.conn c (.inCallback .message)) ∧
        len ≤ (p.conns c).conn.inputBuffer_.readableBytes)
      (Halt.ofCall ((p.conns c).conn.inputBuffer_.retrieve len) fun b =>
        p.update c fun r => { r with conn := { r.conn with inputBuffer_ := b } })
  | .receive c data, p =>
    Halt.guard (p.socketOpen c)
      (Halt.ofOption ((p.conns c).conn.receive data) fun r => p.complete c r)
  | .readFails c e, p =>
    Halt.guard (p.mayFail c e)
      (Halt.ofOption ((p.conns c).conn.readFails e) fun r => p.complete c r)
  | .transmit c k stale, p =>
    Halt.guard (p.socketOpen c)
      (Halt.ofOption ((p.conns c).conn.transmit k stale) fun r => p.complete c (r.1, r.2.2))
  | .sendFails c e, p =>
    Halt.guard (p.mayFail c e)
      (Halt.ofOption ((p.conns c).conn.sendFails e) fun r => p.complete c r)
  | .accept ioLoop, p =>
    Halt.guard (p.server.life = .alive ∧ p.stopped p.server.loop_ = false ∧
        p.stackOf p.server.loop_ = [] ∧ ioLoop ∈ p.ioLoops)
      (.ok (TcpServer.newConnection p ioLoop))
  | .destroyServer t, p =>
    Halt.guard (p.userRuns t ∧ p.server.life = .alive)
      (Halt.ofCall (TcpServer.destructor p t) fun q => q)
  | .clientCall t x, p =>
    Halt.guard (p.userRuns t ∧ p.client.life = .alive) (.ok (p.clientCall t x))
  | .connectorCall t x, p =>
    Halt.guard (p.userRuns t ∧ p.client.life = .alive ∧ p.mayCall t x)
      (.ok (p.connectorCall t x))
  | .destroyClient t, p =>
    Halt.guard (p.userRuns t ∧ p.client.life = .alive)
      (Halt.ofCall (TcpClient.destructor p t) fun q => q)
  | .connectDone socket error, p =>
    Halt.guard (socket ∈ p.sockets.connecting ∧
        (socket ∈ p.sockets.closed → error = some .operationAborted))
      (.ok { p with
        sockets := { p.sockets with connecting := p.sockets.connecting.erase socket }
        queue := p.queue ++ [(p.connector.loop_, .connector (.handleConnect socket error))] })
  | .timerExpires timer, p =>
    Halt.guard (p.timers.status timer = some .waiting)
      (.ok { p with
        timers := p.timers.setStatus timer .expired
        queue := p.queue ++ [(p.connector.loop_, .handleTimer timer none)] })

/-- A process in which nothing has happened yet. -/
def initial (baseLoop : LoopId) (pool : List LoopId) (clientLoop : LoopId)
    (ipPort serverName clientName : List Char) (messageCallback writeCompleteCallback : Bool) :
    Process where
  stack := []
  queue := []
  stopped := fun _ => false
  conns := fun _ => Connection.make (TcpConnection.make baseLoop [] false false) .server none
  nextConn := 0
  server :=
    { loop_ := baseLoop
      ipPort_ := ipPort
      name_ := serverName
      pool := pool
      messageCallback_ := messageCallback
      writeCompleteCallback_ := writeCompleteCallback
      nextConnId_ := 1
      connections_ := []
      life := .alive }
  client :=
    { loop_ := clientLoop
      name_ := clientName
      messageCallback_ := messageCallback
      writeCompleteCallback_ := writeCompleteCallback
      retry_ := false
      connect_ := true
      nextConnId_ := 1
      connection_ := none
      life := .alive }
  connector :=
    { loop_ := clientLoop
      connect_ := false
      state_ := .kDisconnected
      retryDelayMs_ := Connector.kInitRetryDelayMs
      socketWeakPtr_ := none
      reConnectTimer_ := none }
  timers := { timerQueue_ := [], nextTimer := 0 }
  sockets := { nextSocket := 0, connecting := [], closed := [] }

end Process

/-- All runs of a process whose pool has threads of its own. -/
def processMachine : Machine Process ProcessEvent Fault where
  init p := ∃ baseLoop pool clientLoop ipPort serverName clientName m w,
    pool.Nodup ∧ baseLoop ∉ pool ∧
      p = Process.initial baseLoop pool clientLoop ipPort serverName clientName m w
  step := Process.step

namespace Process

variable {p q : Process}

/-! ## What the events do -/

/-- A loop that runs and is done with its last functor takes the next one. -/
theorem dequeue_eq_ok {l : LoopId} : step (.dequeue l) p = .ok q ↔
    (p.stopped l = false ∧ p.stackOf l = []) ∧ ∃ w rest,
      Keyed.takeFirst l p.queue = some (w, rest) ∧
        q = { p with stack := (l, w) :: p.stack, queue := rest } := by
  simp [step, Prod.exists]

/-- A thread runs what is next on its stack, once that is ready. -/
theorem run_eq_ok {t : ThreadId} {peer : List Char} : step (.run t peer) p = .ok q ↔
    ∃ w rest, Keyed.takeFirst t p.stack = some (w, rest) ∧ p.ready w = true ∧
      ({ p with stack := rest } : Process).exec t peer w = .ok q := by
  rcases htake : Keyed.takeFirst t p.stack with _ | ⟨w, rest⟩
  · simp [step, htake]
  · simp [step, htake]

/-- A thread that does what is next on its stack may fail. -/
theorem run_eq_fault {t : ThreadId} {peer : List Char} {f : Fault} :
    step (.run t peer) p = .error (.fault f) ↔
      ∃ w rest, Keyed.takeFirst t p.stack = some (w, rest) ∧ p.ready w = true ∧
        ({ p with stack := rest } : Process).exec t peer w = .error f := by
  rcases htake : Keyed.takeFirst t p.stack with _ | ⟨w, rest⟩
  · simp [step, htake]
  · simp [step, htake]

/-- A callback of a connection returns. -/
theorem return_eq_ok {t : ThreadId} : step (.return_ t) p = .ok q ↔
    ∃ c k rest, Keyed.takeFirst t p.stack = some (.conn c (.inCallback k), rest) ∧
      q = { p with stack := rest } := by
  rcases htake : Keyed.takeFirst t p.stack with _ | ⟨w, rest⟩
  · simp [step, htake]
  · cases w with
    | conn c k => cases k <;> simp [step, htake, @eq_comm _ _ q]
    | bound | setCloseCallback | server | client | connector | handleTimer | eraseTimer =>
      simp [step, htake]

/-- Code of the user calls a member function of a connection it reaches. -/
theorem call_eq_ok {t : ThreadId} {c : ConnId} {x : ConnCall} :
    step (.call t c x) p = .ok q ↔ p.reaches t c = true ∧
      ∃ e, (p.conns c).conn.call (some t) x = .ok e ∧ q = p.applyEffect t c e [] := by
  simp [step]

/-- A callback keeps the `shared_ptr` it was given. -/
theorem keep_eq_ok {t : ThreadId} {c : ConnId} : step (.keep t c) p = .ok q ↔
    p.inCallbackOf t c = true ∧ q = p.update c fun r => { r with refs := r.refs + 1 } := by
  simp [step, @eq_comm _ _ q]

/-- Code of the user takes a `shared_ptr` from `connection`. -/
theorem keepConnection_eq_ok {t : ThreadId} : step (.keepConnection t) p = .ok q ↔
    (p.userRuns t = true ∧ p.client.life = .alive) ∧ ∃ c, p.client.connection_ = some c ∧
      q = p.update c fun r => { r with refs := r.refs + 1 } := by
  simp [step]

/-- Code of the user gives up a `shared_ptr`. -/
theorem drop_eq_ok {t : ThreadId} {c : ConnId} : step (.drop t c) p = .ok q ↔
    (p.userRuns t = true ∧ 0 < (p.conns c).refs) ∧
      q = (p.update c fun r => { r with refs := r.refs - 1 }).schedule t [.conn c .release] [] := by
  simp [step, @eq_comm _ _ q]

/-- The message callback retrieves bytes from the buffer it was given. -/
theorem consume_eq_ok {t : ThreadId} {c : ConnId} {len : Nat} :
    step (.consume t c len) p = .ok q ↔
      ((p.stackOf t).head? = some (.conn c (.inCallback .message)) ∧
        len ≤ (p.conns c).conn.inputBuffer_.readableBytes) ∧
      ∃ b, (p.conns c).conn.inputBuffer_.retrieve len = .ok b ∧
        q = p.update c fun r => { r with conn := { r.conn with inputBuffer_ := b } } := by
  simp [step]

/-- The kernel completes the oldest read of an open socket. -/
theorem receive_eq_ok {c : ConnId} {data : List UInt8} : step (.receive c data) p = .ok q ↔
    p.socketOpen c = true ∧
      ∃ r, (p.conns c).conn.receive data = some r ∧ q = p.complete c r := by
  simp [step]

/-- The kernel fails the oldest read, with an error that it may have. -/
theorem readFails_eq_ok {c : ConnId} {e : ErrorCode} : step (.readFails c e) p = .ok q ↔
    p.mayFail c e = true ∧
      ∃ r, (p.conns c).conn.readFails e = some r ∧ q = p.complete c r := by
  simp [step]

/-- The kernel completes the oldest send of an open socket. -/
theorem transmit_eq_ok {c : ConnId} {k : Nat} {stale : List UInt8} :
    step (.transmit c k stale) p = .ok q ↔ p.socketOpen c = true ∧
      ∃ r, (p.conns c).conn.transmit k stale = some r ∧ q = p.complete c (r.1, r.2.2) := by
  simp [step]

/-- The kernel fails the oldest send, with an error that it may have. -/
theorem sendFails_eq_ok {c : ConnId} {e : ErrorCode} : step (.sendFails c e) p = .ok q ↔
    p.mayFail c e = true ∧
      ∃ r, (p.conns c).conn.sendFails e = some r ∧ q = p.complete c r := by
  simp [step]

/-- The acceptor hands a socket to the server, bound to one of the loops. -/
theorem accept_eq_ok {ioLoop : LoopId} : step (.accept ioLoop) p = .ok q ↔
    (p.server.life = .alive ∧ p.stopped p.server.loop_ = false ∧
        p.stackOf p.server.loop_ = [] ∧ ioLoop ∈ p.ioLoops) ∧
      q = TcpServer.newConnection p ioLoop := by
  simp [step, @eq_comm _ _ q]

/-- Code of the user destroys the server. -/
theorem destroyServer_eq_ok {t : ThreadId} : step (.destroyServer t) p = .ok q ↔
    (p.userRuns t = true ∧ p.server.life = .alive) ∧ TcpServer.destructor p t = .ok q := by
  simp [step]

/-- Code of the user calls a function of the client. -/
theorem clientCall_eq_ok {t : ThreadId} {x : ClientCall} : step (.clientCall t x) p = .ok q ↔
    (p.userRuns t = true ∧ p.client.life = .alive) ∧ q = p.clientCall t x := by
  simp [step, @eq_comm _ _ q]

/-- Code of the user calls a function of the connector, on a thread that may. -/
theorem connectorCall_eq_ok {t : ThreadId} {x : ConnectorCall} :
    step (.connectorCall t x) p = .ok q ↔
      (p.userRuns t = true ∧ p.client.life = .alive ∧ p.mayCall t x = true) ∧
        q = p.connectorCall t x := by
  simp [step, @eq_comm _ _ q]

/-- Code of the user destroys the client. -/
theorem destroyClient_eq_ok {t : ThreadId} : step (.destroyClient t) p = .ok q ↔
    (p.userRuns t = true ∧ p.client.life = .alive) ∧ TcpClient.destructor p t = .ok q := by
  simp [step]

/-- The kernel completes an attempt, with an abort if the socket was closed before. -/
theorem connectDone_eq_ok {socket : SockId} {error : Option ErrorCode} :
    step (.connectDone socket error) p = .ok q ↔
      (socket ∈ p.sockets.connecting ∧
        (socket ∈ p.sockets.closed → error = some .operationAborted)) ∧
      q = { p with
        sockets := { p.sockets with connecting := p.sockets.connecting.erase socket }
        queue := p.queue ++ [(p.connector.loop_, .connector (.handleConnect socket error))] } := by
  simp [step, @eq_comm _ _ q]

/-- A timer expires, and its handler is queued. -/
theorem timerExpires_eq_ok {timer : TimerId} : step (.timerExpires timer) p = .ok q ↔
    p.timers.status timer = some .waiting ∧
      q = { p with
        timers := p.timers.setStatus timer .expired
        queue := p.queue ++ [(p.connector.loop_, .handleTimer timer none)] } := by
  simp [step, @eq_comm _ _ q]

/-- What a thread does next is the head of its stack. -/
theorem head_stackOf {t : ThreadId} {w : Work} {rest : List (ThreadId × Work)}
    (h : Keyed.takeFirst t p.stack = some (w, rest)) : (p.stackOf t).head? = some w := by
  rw [stackOf, Keyed.ofKey_takeFirst h]
  rfl

/-- What is next on a stack is pending. -/
theorem mem_pending_of_head {t : ThreadId} {w : Work} (h : (p.stackOf t).head? = some w) :
    w ∈ p.pending := by
  have hstack : w ∈ p.stackOf t := List.mem_of_head? h
  have hentry := Keyed.mem_ofKey.1 hstack
  exact List.mem_append_left _ (List.mem_map.2 ⟨(t, w), hentry, rfl⟩)

/-- A call to a connection runs a member function of it, with three exceptions. -/
theorem exec_conn_eq_ok {t : ThreadId} {peer : List Char} {c : ConnId} {k : ConnTask} :
    p.exec t peer (.conn c k) = .ok q ↔
      (k = .release ∧ p.release c = .ok q) ∨
      (k = .callback .close ∧ (p.conns c).destroyed = false ∧
        q = p.schedule t [(p.conns c).closeTask c] []) ∨
      ((∃ e n, k = .writeHandler (some e) n) ∧ q = p) ∨
      (k ≠ .release ∧ k ≠ .callback .close ∧ (∀ e n, k ≠ .writeHandler (some e) n) ∧
        p.execConn t c k [] = .ok q) := by
  cases k with
  | release => simp [exec]
  | callback k =>
    cases k with
    | close => cases h : (p.conns c).destroyed <;> simp [exec, h, pure_eq_ok]
    | connection | message | writeComplete => simp [exec]
  | writeHandler error n =>
    cases error with
    | none => simp [exec]
    | some e => simp [exec, pure_eq_ok]
  | readHandler | startReadInLoop | stopReadInLoop | shutdownInLoop | forceCloseInLoop
  | connectEstablished | connectDestroyed | inCallback | readAgain => simp [exec]

/-- A task of the client runs while there is a client. -/
theorem exec_client_eq_ok {t : ThreadId} {peer : List Char} {k : ClientTask} :
    p.exec t peer (.client k) = .ok q ↔ p.client.life ≠ .dead ∧
      match k with
      | .newConnection socket => TcpClient.newConnection p t socket peer = .ok q
      | .removeConnection c => TcpClient.removeConnection p t c = .ok q
      | .destroyed => q = TcpClient.destroyed p t := by
  unfold exec
  by_cases h : p.client.life = .dead
  · simp [h]
  · cases k <;> simp [h, pure_eq_ok]

/-! ## The weight of what is pending -/

section Weight

variable (f : Work → Nat)

/-- What is put in adds its weight. -/
theorem weigh_schedule (p : Process) (t : ThreadId) (calls : List Work)
    (posts : List (LoopId × Work)) : weigh f (p.schedule t calls posts).pending =
      weigh f p.pending + weigh f calls + weigh f (posts.map Prod.snd) := by
  simp only [pending, schedule, List.map_append, weigh_append, Keyed.weigh_map_key]
  omega

/-- What is taken from a stack takes its weight along. -/
theorem weigh_pop {t : ThreadId} {w : Work} {rest : List (ThreadId × Work)}
    (h : Keyed.takeFirst t p.stack = some (w, rest)) :
    weigh f p.pending = f w + weigh f ({ p with stack := rest } : Process).pending := by
  simp only [pending, weigh_append, Keyed.weigh_takeFirst f h]
  omega

/-- Going from the queue to the stack does not change the weight. -/
theorem weigh_dequeue {l : LoopId} {w : Work} {rest : List (LoopId × Work)}
    (h : Keyed.takeFirst l p.queue = some (w, rest)) :
    weigh f ({ p with stack := (l, w) :: p.stack, queue := rest } : Process).pending =
      weigh f p.pending := by
  simp only [pending, List.map_cons, weigh_append, weigh_cons, Keyed.weigh_takeFirst f h]
  omega

/-- A queued functor adds its weight. -/
theorem weigh_post (p : Process) (l : LoopId) (w : Work) :
    weigh f ({ p with queue := p.queue ++ [(l, w)] } : Process).pending =
      weigh f p.pending + f w := by
  simp [pending, Nat.add_assoc]

/-- `runInLoop` makes the call or posts the functor. -/
theorem weigh_runInLoop (t l : LoopId) (w : Work) :
    weigh f (callIf t l w) + weigh f ((postIf t l w).map Prod.snd) = f w := by
  unfold callIf postIf
  split_ifs <;> simp

end Weight

end Process

end LibNetToy
