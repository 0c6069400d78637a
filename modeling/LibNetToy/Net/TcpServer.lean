import LibNetToy.Net.Process

/-!
# `TcpServer`

The member functions of `net/TcpServer.cpp` and the destructor, which runs as a number of
steps of the thread of the base loop: one round of its loop for each connection, then the
end of its body, then the threads of the pool are told to quit and joined one after another.
-/

namespace LibNetToy

namespace TcpServer

open Process

/-- The name of the next connection. -/
def connName (s : TcpServer) : List Char :=
  s.name_ ++ s.ipPort_ ++ ['#'] ++ Text.ofInt s.nextConnId_

/-- The assignment to `connections_[connName]` releases what was there.  The last release is
the one of the local `conn`. -/
def newConnection (p : Process) (ioLoop : LoopId) : Process :=
  let s := p.server
  let c := p.nextConn
  let conn := TcpConnection.make ioLoop s.connName s.messageCallback_ s.writeCompleteCallback_
  let replaced := (AssocMap.lookup s.connName s.connections_).join.toList
  let q : Process := { p with
    conns := Function.update p.conns c (Connection.make conn .server none)
    nextConn := c + 1
    server := { s with
      nextConnId_ := nextInt s.nextConnId_
      connections_ := AssocMap.assign s.connName (some c) s.connections_ } }
  q.schedule s.loop_
    (releases replaced ++ callIf s.loop_ ioLoop (.bound c .connectEstablished) ++
      [.conn c .release])
    (postIf s.loop_ ioLoop (.bound c .connectEstablished))

def removeConnection (p : Process) (t : ThreadId) (c : ConnId) : Process :=
  p.schedule t (callIf t p.server.loop_ (.server (.removeConnectionInLoop c)))
    (postIf t p.server.loop_ (.server (.removeConnectionInLoop c)))

/-- The erased entry releases its pointer; the last release is the one of the functor. -/
def removeConnectionInLoop (p : Process) (t : ThreadId) (c : ConnId) : Except Fault Process := do
  let s := p.server
  let conn := (p.conns c).conn
  check (t = s.loop_) .assertInLoopThread
  check (AssocMap.count conn.name_ s.connections_ = 1) .removeConnectionInLoop
  let erased := (AssocMap.lookup conn.name_ s.connections_).join.toList
  let q : Process := { p with server := { s with
    connections_ := AssocMap.erase conn.name_ s.connections_ } }
  pure ((q.update c fun r => { r with removed := r.removed + 1 }).schedule t
    (releases erased ++ callIf t conn.loop_ (.bound c .connectDestroyed) ++ [.conn c .release])
    (postIf t conn.loop_ (.bound c .connectDestroyed)))

/-- The entry the iterator of the destructor stands at: the ones it has passed are reset. -/
def nextEntry : AssocMap (List Char) (Option ConnId) → Option (List Char × ConnId)
  | [] => none
  | (k, some c) :: _ => some (k, c)
  | (_, none) :: m => nextEntry m

/-- `it->second.reset()`. -/
def resetEntry (k : List Char) (m : AssocMap (List Char) (Option ConnId)) :
    AssocMap (List Char) (Option ConnId) :=
  AssocMap.adjust k none m

/-- One connection in the loop of the destructor; `conn.reset()` is the release. -/
def destroyNext (p : Process) (t : ThreadId) : Process :=
  match nextEntry p.server.connections_ with
  | some (k, c) =>
    let ioLoop := (p.conns c).conn.loop_
    let q : Process := { p with server := { p.server with
      connections_ := resetEntry k p.server.connections_ } }
    (q.update c fun r => { r with taken := true }).schedule t
      (callIf t ioLoop (.bound c .connectDestroyed) ++ [.conn c .release, .server .destroyNext])
      (postIf t ioLoop (.bound c .connectDestroyed))
  | none => p.schedule t [.server .quit] []

/-- What the destructor of the thread pool does. -/
def joinPool (pool : List LoopId) : List Work :=
  pool.flatMap fun l => [.server (.quitLoop l), .server (.joinLoop l)]

/-- The body of the destructor ends with `loop_->quit()`, unless the loop was stopped; then the
map and the thread pool are destroyed. -/
def quit (p : Process) (t : ThreadId) : Process :=
  let q : Process := { p with
    stopped := Function.update p.stopped p.server.loop_ true
    server := { p.server with connections_ := [] } }
  q.schedule t (joinPool p.server.pool ++ [.server .destroyed]) []

/-- Run a task of the server. -/
def exec (p : Process) (t : ThreadId) (k : ServerTask) : Except Fault Process :=
  if p.server.life = .dead then .error .useAfterDestruction
  else match k with
    | .removeConnection c => pure (removeConnection p t c)
    | .removeConnectionInLoop c => removeConnectionInLoop p t c
    | .destroyNext => pure (destroyNext p t)
    | .quit => pure (quit p t)
    | .quitLoop l => pure { p with stopped := Function.update p.stopped l true }
    | .joinLoop _ => pure p
    | .destroyed => pure { p with server := { p.server with life := .dead } }

/-- The destructor starts. -/
def destructor (p : Process) (t : ThreadId) : Except Fault Process := do
  check (t = p.server.loop_) .assertInLoopThread
  let q : Process := { p with server := { p.server with life := .destructing } }
  pure (q.schedule t [.server .destroyNext] [])

variable {p q : Process} {t : ThreadId}

/-- `removeConnectionInLoop` asserts that the name is in the map, erases it and has the connection
destroyed. -/
theorem removeConnectionInLoop_eq_ok {c : ConnId} : removeConnectionInLoop p t c = .ok q ↔
    t = p.server.loop_ ∧ AssocMap.count (p.conns c).conn.name_ p.server.connections_ = 1 ∧
      q = (({ p with server := { p.server with
          connections_ := AssocMap.erase (p.conns c).conn.name_ p.server.connections_ } } :
          Process).update c fun r => { r with removed := r.removed + 1 }).schedule t
        (releases (AssocMap.lookup (p.conns c).conn.name_ p.server.connections_).join.toList ++
          callIf t (p.conns c).conn.loop_ (.bound c .connectDestroyed) ++ [.conn c .release])
        (postIf t (p.conns c).conn.loop_ (.bound c .connectDestroyed)) := by
  simp only [removeConnectionInLoop, check_bind_eq_ok, pure_eq_ok]

/-- The destructor runs on the thread of the base loop. -/
theorem destructor_eq_ok : destructor p t = .ok q ↔ t = p.server.loop_ ∧
    q = ({ p with server := { p.server with life := .destructing } } : Process).schedule t
      [.server .destroyNext] [] := by
  simp only [destructor, check_bind_eq_ok, pure_eq_ok]

/-- The destructor takes the next entry of the map, or quits the loops. -/
theorem destroyNext_cases (p : Process) (t : ThreadId) :
    (nextEntry p.server.connections_ = none ∧ destroyNext p t = p.schedule t [.server .quit] []) ∨
      ∃ k c, nextEntry p.server.connections_ = some (k, c) ∧
        destroyNext p t = (({ p with server := { p.server with
            connections_ := resetEntry k p.server.connections_ } } : Process).update c
            fun r => { r with taken := true }).schedule t
          (callIf t (p.conns c).conn.loop_ (.bound c .connectDestroyed) ++
            [.conn c .release, .server .destroyNext])
          (postIf t (p.conns c).conn.loop_ (.bound c .connectDestroyed)) := by
  cases h : nextEntry p.server.connections_ with
  | none => exact Or.inl ⟨rfl, by simp [destroyNext, h]⟩
  | some e => exact Or.inr ⟨e.1, e.2, rfl, by simp [destroyNext, h]⟩

/-- A task of the server runs while there is a server. -/
theorem exec_eq_ok {k : ServerTask} : exec p t k = .ok q ↔ p.server.life ≠ .dead ∧
    match k with
    | .removeConnection c => q = removeConnection p t c
    | .removeConnectionInLoop c => removeConnectionInLoop p t c = .ok q
    | .destroyNext => q = destroyNext p t
    | .quit => q = quit p t
    | .quitLoop l => q = { p with stopped := Function.update p.stopped l true }
    | .joinLoop _ => q = p
    | .destroyed => q = { p with server := { p.server with life := .dead } } := by
  unfold exec
  by_cases h : p.server.life = .dead
  · simp [h]
  · cases k <;> simp [h, pure_eq_ok]

end TcpServer

end LibNetToy
