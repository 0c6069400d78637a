import LibNetToy.Net.TcpConnection
import LibNetToy.Foundations.Keyed
import LibNetToy.Foundations.AssocMap
import LibNetToy.Base.Text

/-!
# A process that uses the library

The state of a process with any number of threads, some of which run an event loop, one
`TcpServer`, one `TcpClient` with its `Connector`, and any number of connections.

Every thread has a stack of things it still has to do, and every loop a queue of functors and
completion handlers that its thread runs first-in first-out when the stack is empty.  A loop
has the name of its thread.  All stacks are kept in one list and all queues in another; an
entry says whose it is.

A `shared_ptr` to a connection is held by an entry of `TcpServer::connections_`, by
`TcpClient::connection_`, by the user, by a functor, and by a local variable or an argument
of running code; the last two are work items that release the pointer when they are done, so
the number of owners is a weight.
-/

namespace LibNetToy

abbrev ThreadId := LoopId

abbrev ConnId := Nat

/-- The socket of an `async_connect`. -/
abbrev SockId := Nat

/-! ## Things to do -/

inductive ServerTask
  /-- The close callback of the connections of the server. -/
  | removeConnection (c : ConnId)
  /-- A functor that holds the connection. -/
  | removeConnectionInLoop (c : ConnId)
  /-- A round of the loop of the destructor. -/
  | destroyNext
  /-- The end of the body of the destructor. -/
  | quit
  /-- `loop_->quit()` in the destructor of an `EventLoopThread`. -/
  | quitLoop (l : LoopId)
  /-- `thread_->join()`. -/
  | joinLoop (l : LoopId)
  /-- All members are destroyed. -/
  | destroyed
  deriving DecidableEq, Repr

inductive ClientTask
  /-- `newConnectionCallback_` of the connector. -/
  | newConnection (socket : SockId)
  /-- The close callback of the connections of the client. -/
  | removeConnection (c : ConnId)
  /-- The end of the destructor. -/
  | destroyed
  deriving DecidableEq, Repr

inductive ConnectorTask
  | startInLoop
  | stopInLoop
  | restart
  /-- A completion handler that holds the socket. -/
  | handleConnect (socket : SockId) (error : Option ErrorCode)
  deriving DecidableEq, Repr

/-- What a thread still has to do. -/
inductive Work
  /-- A member function of a connection, called through a raw pointer or by code that holds a
  pointer of its own. -/
  | conn (c : ConnId) (t : ConnTask)
  /-- A functor that holds the connection and calls a member function. -/
  | bound (c : ConnId) (t : ConnTask)
  /-- `TcpConnection::setCloseCallback`, a functor that holds the connection. -/
  | setCloseCallback (c : ConnId)
  | server (t : ServerTask)
  | client (t : ClientTask)
  | connector (t : ConnectorTask)
  | handleTimer (timer : TimerId) (error : Option ErrorCode)
  /-- `timerQueue_.erase(it)` at the end of `handleTimer`. -/
  | eraseTimer (timer : TimerId)
  deriving DecidableEq, Repr

/-! ## The objects -/

/-- An object is alive until its destructor starts, and dead when it has ended. -/
inductive Life
  | alive
  | destructing
  | dead
  deriving DecidableEq, Repr

/-- The fields of class `TcpServer`.  `pool` holds the loops of the threads of `threadPool_`. -/
structure TcpServer where
  loop_ : LoopId
  ipPort_ : List Char
  name_ : List Char
  pool : List LoopId
  messageCallback_ : Bool
  writeCompleteCallback_ : Bool
  nextConnId_ : Int
  connections_ : AssocMap (List Char) (Option ConnId)
  life : Life

/-- `Connector::States`. -/
inductive States
  | kDisconnected
  | kConnecting
  | kConnected
  deriving DecidableEq, Repr

/-- The fields of class `Connector`. -/
structure Connector where
  loop_ : LoopId
  connect_ : Bool
  state_ : States
  retryDelayMs_ : Nat
  socketWeakPtr_ : Option SockId
  reConnectTimer_ : Option TimerId

/-- The fields of class `TcpClient`. -/
structure TcpClient where
  loop_ : LoopId
  name_ : List Char
  messageCallback_ : Bool
  writeCompleteCallback_ : Bool
  retry_ : Bool
  connect_ : Bool
  nextConnId_ : Int
  connection_ : Option ConnId
  life : Life

/-- A timer in the map of the queue: its `async_wait` is outstanding, completed, or its
handler is running the callback. -/
inductive TimerStatus
  | waiting
  | expired
  | running
  deriving DecidableEq, Repr

/-- Class `TimerQueue` of the loop of the connector.  The callback of every timer in it is
`Connector::startInLoop`. -/
structure TimerQueue where
  timerQueue_ : AssocMap TimerId TimerStatus
  nextTimer : TimerId

/-- The sockets the connector has made: the outstanding `async_connect` operations and the
sockets that were closed. -/
structure Sockets where
  nextSocket : SockId
  connecting : List SockId
  closed : List SockId

/-- Whose member function the `closeCallback_` of a connection calls. -/
inductive CloseCallback
  | server
  | client
  deriving DecidableEq, Repr

/-- A connection, and what happened to it. -/
structure Connection where
  conn : TcpConnection
  closeCallback_ : CloseCallback
  /-- The socket it was made from, when the connector made it. -/
  socket : Option SockId
  /-- The number of pointers held by the user. -/
  refs : Nat
  destroyed : Bool
  /-- The number of calls of `connectionCallback_` that report the connection up. -/
  ups : Nat
  /-- The number of calls of `connectionCallback_` that report it down. -/
  downs : Nat
  /-- The number of times `connectEstablished` started. -/
  established : Nat
  /-- The number of times `connectDestroyed` started. -/
  destroys : Nat
  /-- The number of times `removeConnectionInLoop` ran for it. -/
  removed : Nat
  /-- The destructor of the server has taken it from the map. -/
  taken : Bool

/-- The state of a process. -/
structure Process where
  stack : List (ThreadId × Work)
  queue : List (LoopId × Work)
  stopped : LoopId → Bool
  conns : ConnId → Connection
  nextConn : ConnId
  server : TcpServer
  client : TcpClient
  connector : Connector
  timers : TimerQueue
  sockets : Sockets

/-- A connection that was just made. -/
def Connection.make (conn : TcpConnection) (closeCallback : CloseCallback)
    (socket : Option SockId) : Connection where
  conn := conn
  closeCallback_ := closeCallback
  socket := socket
  refs := 0
  destroyed := false
  ups := 0
  downs := 0
  established := 0
  destroys := 0
  removed := 0
  taken := false

/-- What is remembered of a connection when one of its tasks starts. -/
def Connection.note (r : Connection) : ConnTask → Connection
  | .connectEstablished => { r with established := r.established + 1 }
  | .connectDestroyed => { r with destroys := r.destroys + 1 }
  | .callback (.connection true) => { r with ups := r.ups + 1 }
  | .callback (.connection false) => { r with downs := r.downs + 1 }
  | _ => r

/-- `closeCallback_(conn)`. -/
def Connection.closeTask (r : Connection) (c : ConnId) : Work :=
  match r.closeCallback_ with
  | .server => .server (.removeConnection c)
  | .client => .client (.removeConnection c)

/-- A functor of a connection as a thing to do. -/
def Functor.work (c : ConnId) : Functor → Work
  | .raw t => .conn c t
  | .bound t => .bound c t

/-- `++nextConnId_`. -/
def nextInt (x : Int) : Int :=
  Int.bmod (x + 1) (2 ^ 32)

namespace Process

/-! ## Stacks and queues -/

/-- What the thread still has to do, innermost first. -/
def stackOf (p : Process) (t : ThreadId) : List Work :=
  Keyed.ofKey t p.stack

/-- The queue of a loop, oldest first. -/
def queueOf (p : Process) (l : LoopId) : List Work :=
  Keyed.ofKey l p.queue

/-- Everything that is still to be done in the process. -/
def pending (p : Process) : List Work :=
  p.stack.map Prod.snd ++ p.queue.map Prod.snd

/-- The thread makes calls, in this order, and hands functors to loops. -/
def schedule (p : Process) (t : ThreadId) (calls : List Work) (posts : List (LoopId × Work)) :
    Process :=
  { p with stack := calls.map (fun w => (t, w)) ++ p.stack, queue := p.queue ++ posts }

/-- The call that `l->runInLoop(w)` makes on the thread `t`. -/
def callIf (t : ThreadId) (l : LoopId) (w : Work) : List Work :=
  if t = l then [w] else []

/-- What `l->runInLoop(w)` posts when it is called on the thread `t`. -/
def postIf (t : ThreadId) (l : LoopId) (w : Work) : List (LoopId × Work) :=
  if t = l then [] else [(l, w)]

/-- The releases of pointers to the connections. -/
def releases (cs : List ConnId) : List Work :=
  cs.map fun c => .conn c .release

/-- Code of the user is running on the thread.  A thread of the pool has ended when its loop
was stopped. -/
def userRuns (p : Process) (t : ThreadId) : Bool :=
  match p.stackOf t with
  | [] => !(p.stopped t && p.server.pool.contains t)
  | .conn _ (.inCallback _) :: _ => true
  | _ => false

/-! ## Owners of a connection -/

/-- The work item holds a pointer to the connection. -/
def holds (c : ConnId) : Work → Nat
  | .conn d .release => if d = c then 1 else 0
  | .bound d _ => if d = c then 1 else 0
  | .setCloseCallback d => if d = c then 1 else 0
  | .server (.removeConnectionInLoop d) => if d = c then 1 else 0
  | _ => 0

/-- An entry of `connections_` holds a pointer to the connection. -/
def entryHolds (c : ConnId) (e : List Char × Option ConnId) : Nat :=
  if e.2 = some c then 1 else 0

/-- `use_count()` of the pointers to the connection. -/
def owners (p : Process) (c : ConnId) : Nat :=
  weigh (holds c) p.pending + weigh (entryHolds c) p.server.connections_ +
    (if p.client.connection_ = some c then 1 else 0) + (p.conns c).refs

/-! ## Running the tasks of a connection -/

/-- Change what is kept of a connection. -/
def update (p : Process) (c : ConnId) (f : Connection → Connection) : Process :=
  { p with conns := Function.update p.conns c (f (p.conns c)) }

/-- The effect of a member function called on the thread `t`, and what the caller does after
it. -/
def applyEffect (p : Process) (t : ThreadId) (c : ConnId) (e : Effect) (after : List Work) :
    Process :=
  (p.update c fun r => { r with conn := e.conn }).schedule t (e.calls.map (Work.conn c) ++ after)
    (e.posts.map fun f => (e.conn.loop_, f.work c))

/-- A member function of a connection runs on the thread `t`. -/
def execConn (p : Process) (t : ThreadId) (c : ConnId) (k : ConnTask) (after : List Work) :
    Except Fault Process :=
  if (p.conns c).destroyed then .error .useAfterDestruction
  else do
    let e ← (p.conns c).conn.exec (some t) k
    pure ((p.update c fun r => r.note k).applyEffect t c e after)

/-- A pointer to a connection was released; the last one destroys the connection. -/
def release (p : Process) (c : ConnId) : Except Fault Process :=
  if p.owners c = 0 then do
    check ((p.conns c).conn.state_ = .kDisconnected) .destructor
    pure (p.update c fun r => { r with destroyed := true })
  else pure p

end Process

end LibNetToy
