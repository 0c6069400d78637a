import LibNetToy.Net.Connector

/-!
# `TcpClient`

The member functions of `net/TcpClient.cpp`.  The destructor runs as two steps: its body,
which may make calls that run before it goes on, and the destruction of the members.
-/

namespace LibNetToy

namespace TcpClient

open Process

/-- The name of the next connection to the peer; it is cut to the buffer of 32 bytes. -/
def connName (s : TcpClient) (peer : List Char) : List Char :=
  s.name_ ++ Text.snprintf 32 ([':'] ++ peer ++ ['#'] ++ Text.ofInt s.nextConnId_)

/-- `remote_endpoint()` throws when the socket was closed.  The assignment to `connection_`
releases what was there.  The last release is the one of the local `conn`. -/
def newConnection (p : Process) (t : ThreadId) (socket : SockId) (peer : List Char) :
    Except Fault Process := do
  let s := p.client
  let c := p.nextConn
  check (t = s.loop_) .assertInLoopThread
  if socket ∈ p.sockets.closed then .error .systemError
  else
    let conn := TcpConnection.make s.loop_ (s.connName peer) s.messageCallback_
      s.writeCompleteCallback_
    let q : Process := { p with
      conns := Function.update p.conns c (Connection.make conn .client (some socket))
      nextConn := c + 1
      client := { s with
        nextConnId_ := nextInt s.nextConnId_
        connection_ := some c } }
    pure (q.schedule t
      (releases s.connection_.toList ++ [.conn c .connectEstablished, .conn c .release]) [])

/-- `connection_.reset()` releases its pointer. -/
def removeConnection (p : Process) (t : ThreadId) (c : ConnId) : Except Fault Process := do
  let s := p.client
  check (t = s.loop_) .assertInLoopThread
  check (s.loop_ = (p.conns c).conn.loop_) .removeConnectionLoop
  check (s.connection_ = some c) .removeConnection
  let q : Process := { p with client := { s with connection_ := none } }
  pure (q.schedule t
    (.conn c .release :: if s.retry_ && s.connect_ then [.connector .restart] else [])
    [(s.loop_, .bound c .connectDestroyed)])

def connect (p : Process) (t : ThreadId) : Process :=
  Connector.start { p with client := { p.client with connect_ := true } } t

def disconnect (p : Process) (t : ThreadId) : Process :=
  let q : Process := { p with client := { p.client with connect_ := false } }
  match p.client.connection_ with
  | some c => q.applyEffect t c ((p.conns c).conn.shutdown (some t)) []
  | none => q

def stop (p : Process) : Process :=
  Connector.stop { p with client := { p.client with connect_ := false } }

def enableRetry (p : Process) : Process :=
  { p with client := { p.client with retry_ := true } }

/-- The destructor, up to the destruction of the members.  `setCloseCallback` sets the callback
that is there already; the release is the one of the local `conn`. -/
def destructor (p : Process) (t : ThreadId) : Except Fault Process :=
  let q : Process := { p with client := { p.client with life := .destructing } }
  match p.client.connection_ with
  | some c => do
    let unique : Bool := p.owners c = 1
    let conn := (p.conns c).conn
    check (p.client.loop_ = conn.loop_) .clientDestructorLoop
    let q := if t = p.client.loop_ then q.update c fun r => { r with closeCallback_ := .client }
      else q.schedule t [] [(p.client.loop_, .setCloseCallback c)]
    let after : List Work := [.conn c .release, .client .destroyed]
    if unique then pure (q.applyEffect t c (conn.forceClose (some t)) after)
    else pure (q.schedule t after [])
  | none => pure ((Connector.stop q).schedule t [.client .destroyed] [])

/-- The members are destroyed. -/
def destroyed (p : Process) (t : ThreadId) : Process :=
  let q : Process := { p with client := { p.client with connection_ := none, life := .dead } }
  q.schedule t (releases p.client.connection_.toList) []

variable {p q : Process} {t : ThreadId}

/-- What a call of `newConnection` that returns has done. -/
theorem newConnection_eq_ok {socket : SockId} {peer : List Char} :
    newConnection p t socket peer = .ok q ↔
      (t = p.client.loop_ ∧ socket ∉ p.sockets.closed) ∧ q = ({ p with
        conns := Function.update p.conns p.nextConn
          (Connection.make (TcpConnection.make p.client.loop_ (p.client.connName peer)
            p.client.messageCallback_ p.client.writeCompleteCallback_) .client (some socket))
        nextConn := p.nextConn + 1
        client := { p.client with
          nextConnId_ := nextInt p.client.nextConnId_
          connection_ := some p.nextConn } } : Process).schedule t
        (releases p.client.connection_.toList ++
          [.conn p.nextConn .connectEstablished, .conn p.nextConn .release]) [] := by
  simp only [newConnection, check_bind_eq_ok, and_assoc]
  refine and_congr_right fun _ => ?_
  by_cases hclosed : socket ∈ p.sockets.closed
  · simp [hclosed]
  · simp only [if_neg hclosed, pure_eq_ok]
    simp [hclosed]

/-- `removeConnection` asserts that the connection is the one it knows, forgets it, and has it
destroyed and another one made if that is wanted. -/
theorem removeConnection_eq_ok {c : ConnId} : removeConnection p t c = .ok q ↔
    t = p.client.loop_ ∧ p.client.loop_ = (p.conns c).conn.loop_ ∧
      p.client.connection_ = some c ∧
      q = ({ p with client := { p.client with connection_ := none } } : Process).schedule t
        (.conn c .release ::
          if p.client.retry_ && p.client.connect_ then [.connector .restart] else [])
        [(p.client.loop_, .bound c .connectDestroyed)] := by
  simp only [removeConnection, check_bind_eq_ok, pure_eq_ok]

/-- The destructor with `conn` sets the close callback, inline or by a functor. -/
def setCloseCallback (p : Process) (t : ThreadId) (c : ConnId) : Process :=
  let q : Process := { p with client := { p.client with life := .destructing } }
  if t = p.client.loop_ then q.update c fun r => { r with closeCallback_ := .client }
  else q.schedule t [] [(p.client.loop_, .setCloseCallback c)]

/-- The destructor stops the connector when there is no connection, and otherwise makes the
connection close. -/
theorem destructor_eq_ok : destructor p t = .ok q ↔
    (p.client.connection_ = none ∧ q = (Connector.stop { p with
        client := { p.client with life := .destructing } }).schedule t [.client .destroyed] []) ∨
      ∃ c, p.client.connection_ = some c ∧ p.client.loop_ = (p.conns c).conn.loop_ ∧
        ((p.owners c = 1 ∧ q = (setCloseCallback p t c).applyEffect t c
            ((p.conns c).conn.forceClose (some t)) [.conn c .release, .client .destroyed]) ∨
          (p.owners c ≠ 1 ∧ q = (setCloseCallback p t c).schedule t
            [.conn c .release, .client .destroyed] [])) := by
  unfold destructor
  cases hc : p.client.connection_ with
  | none => simp [pure_eq_ok]
  | some c =>
    simp only [check_bind_eq_ok]
    by_cases howners : p.owners c = 1
    · simp [howners, pure_eq_ok, setCloseCallback]
    · simp [howners, pure_eq_ok, setCloseCallback]

end TcpClient

end LibNetToy
