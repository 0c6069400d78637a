import LibNetToy.Net.Process

/-!
# `Connector` and the timers of its loop

The member functions of `net/Connector.cpp`, and those of `base/TimerQueue.cpp` as far as the
connector uses them: its timers fire once.  The functions read and write the connector, the
timers and the sockets it has made, and queue work.
-/

namespace LibNetToy

/-! ## `TimerQueue` -/

namespace TimerQueue

/-- The status of a timer that is in the map. -/
def status (q : TimerQueue) (timer : TimerId) : Option TimerStatus :=
  AssocMap.lookup timer q.timerQueue_

def erase (q : TimerQueue) (timer : TimerId) : TimerQueue :=
  { q with timerQueue_ := AssocMap.erase timer q.timerQueue_ }

def setStatus (q : TimerQueue) (timer : TimerId) (s : TimerStatus) : TimerQueue :=
  { q with timerQueue_ := AssocMap.adjust timer s q.timerQueue_ }

def addTimer (q : TimerQueue) : TimerQueue :=
  { timerQueue_ := q.timerQueue_ ++ [(q.nextTimer, .waiting)], nextTimer := q.nextTimer + 1 }

/-- A timer that is in the map is cancelled and removed; an outstanding wait is aborted. -/
def cancel (p : Process) (timer : Option TimerId) : Process :=
  match timer with
  | none => p
  | some id =>
    match p.timers.status id with
    | none => p
    | some .waiting =>
      { p with
        timers := p.timers.erase id
        queue := p.queue ++ [(p.connector.loop_, .handleTimer id (some .operationAborted))] }
    | some _ => { p with timers := p.timers.erase id }

/-- The handler does nothing for a timer that was removed. -/
def handleTimer (p : Process) (t : ThreadId) (id : TimerId) (error : Option ErrorCode) :
    Process :=
  match p.timers.status id with
  | none => p
  | some _ =>
    match error with
    | none =>
      let q : Process := { p with timers := p.timers.setStatus id .running }
      q.schedule t [.connector .startInLoop, .eraseTimer id] []
    | some _ => { p with timers := p.timers.erase id }

/-- `cancel` of an unknown timer does nothing; that of a waiting timer erases it and queues its
handler with an error, and that of any other timer only erases it. -/
theorem cancel_cases (p : Process) (timer : Option TimerId) :
    cancel p timer = p ∨
      (∃ id, timer = some id ∧ p.timers.status id = some .waiting ∧
        cancel p timer = { p with
          timers := p.timers.erase id
          queue := p.queue ++
            [(p.connector.loop_, .handleTimer id (some .operationAborted))] }) ∨
      ∃ id s, timer = some id ∧ p.timers.status id = some s ∧ s ≠ .waiting ∧
        cancel p timer = { p with timers := p.timers.erase id } := by
  cases timer with
  | none => exact Or.inl rfl
  | some id =>
    cases hs : p.timers.status id with
    | none => exact Or.inl (by simp [cancel, hs])
    | some s =>
      cases s with
      | waiting => exact Or.inr (Or.inl ⟨id, rfl, hs, by simp [cancel, hs]⟩)
      | expired | running =>
        exact Or.inr (Or.inr ⟨id, _, rfl, hs, by simp, by simp [cancel, hs]⟩)

/-- The handler of an unknown timer returns at once; without an error it makes the callback run,
with one it erases the timer. -/
theorem handleTimer_cases (p : Process) (t : ThreadId) (id : TimerId)
    (error : Option ErrorCode) :
    (p.timers.status id = none ∧ handleTimer p t id error = p) ∨
      (p.timers.status id ≠ none ∧ error = none ∧ handleTimer p t id error =
        ({ p with timers := p.timers.setStatus id .running } : Process).schedule t
          [.connector .startInLoop, .eraseTimer id] []) ∨
      (p.timers.status id ≠ none ∧ error ≠ none ∧
        handleTimer p t id error = { p with timers := p.timers.erase id }) := by
  cases hs : p.timers.status id with
  | none => exact Or.inl ⟨rfl, by simp [handleTimer, hs]⟩
  | some s =>
    cases error with
    | none => exact Or.inr (Or.inl ⟨by simp, rfl, by simp [handleTimer, hs]⟩)
    | some e => exact Or.inr (Or.inr ⟨by simp, by simp, by simp [handleTimer, hs]⟩)

end TimerQueue

/-! ## `Connector` -/

namespace Connector

def kMaxRetryDelayMs : Nat := 30 * 1000

def kInitRetryDelayMs : Nat := 500

/-- A handler that holds the socket is queued or running, or the client is about to make a
connection of it. -/
def holdsSocket (k : SockId) : Work → Nat
  | .connector (.handleConnect j _) => if j = k then 1 else 0
  | .client (.newConnection j) => if j = k then 1 else 0
  | _ => 0

/-- Some `shared_ptr` to the socket exists, so that `socketWeakPtr_.lock()` succeeds. -/
def socketAlive (p : Process) (k : SockId) : Bool :=
  p.sockets.connecting.contains k || decide (0 < weigh (holdsSocket k) p.pending) ||
    (List.range p.nextConn).any fun c =>
      decide ((p.conns c).socket = some k) && !(p.conns c).destroyed

def startInLoop (p : Process) (t : ThreadId) : Except Fault Process := do
  check (p.connector.state_ = .kDisconnected) .startInLoop
  if p.connector.connect_ then do
    check (t = p.connector.loop_) .assertInLoopThread
    pure { p with
      connector := { p.connector with
        socketWeakPtr_ := some p.sockets.nextSocket
        state_ := .kConnecting }
      sockets := { p.sockets with
        nextSocket := p.sockets.nextSocket + 1
        connecting := p.sockets.connecting ++ [p.sockets.nextSocket] } }
  else pure p

/-- `held` is the socket the caller holds a pointer to. -/
def retry (p : Process) (held : Option SockId) : Except Fault Process :=
  match p.connector.socketWeakPtr_ with
  | none => pure p
  | some k =>
    if held = some k ∨ socketAlive p k then do
      let p := { p with sockets := { p.sockets with closed := k :: p.sockets.closed } }
      check (p.connector.state_ = .kDisconnected) .retry
      if p.connector.connect_ then
        pure { p with
          timers := p.timers.addTimer
          connector := { p.connector with
            reConnectTimer_ := some p.timers.nextTimer
            retryDelayMs_ := min (p.connector.retryDelayMs_ * 2) kMaxRetryDelayMs } }
      else pure p
    else pure p

def handleConnect (p : Process) (t : ThreadId) (socket : SockId) (error : Option ErrorCode) :
    Except Fault Process :=
  match error with
  | none =>
    let q : Process := { p with connector := { p.connector with state_ := .kConnected } }
    pure (q.schedule t [.client (.newConnection socket)] [])
  | some _ =>
    retry { p with connector := { p.connector with state_ := .kDisconnected } } (some socket)

def restart (p : Process) (t : ThreadId) : Except Fault Process := do
  check (t = p.connector.loop_) .assertInLoopThread
  startInLoop { p with connector := { p.connector with
    state_ := .kDisconnected
    retryDelayMs_ := kInitRetryDelayMs
    connect_ := true } } t

def start (p : Process) (t : ThreadId) : Process :=
  let q : Process := { p with connector := { p.connector with connect_ := true } }
  q.schedule t (Process.callIf t p.connector.loop_ (.connector .startInLoop))
    (Process.postIf t p.connector.loop_ (.connector .startInLoop))

def stop (p : Process) : Process :=
  TimerQueue.cancel { p with
    connector := { p.connector with connect_ := false }
    queue := p.queue ++ [(p.connector.loop_, .connector .stopInLoop)] }
    p.connector.reConnectTimer_

def stopInLoop (p : Process) (t : ThreadId) : Except Fault Process := do
  check (t = p.connector.loop_) .assertInLoopThread
  if p.connector.state_ = .kConnecting then
    retry { p with connector := { p.connector with state_ := .kDisconnected } } none
  else pure p

variable {p q : Process} {t : ThreadId}

/-- `startInLoop` asserts that the connector is disconnected, and starts an attempt if `connect_` is
set. -/
theorem startInLoop_eq_ok : startInLoop p t = .ok q ↔ p.connector.state_ = .kDisconnected ∧
    ((p.connector.connect_ = true ∧ t = p.connector.loop_ ∧ q = { p with
        connector := { p.connector with
          socketWeakPtr_ := some p.sockets.nextSocket
          state_ := .kConnecting }
        sockets := { p.sockets with
          nextSocket := p.sockets.nextSocket + 1
          connecting := p.sockets.connecting ++ [p.sockets.nextSocket] } }) ∨
      (p.connector.connect_ = false ∧ q = p)) := by
  unfold startInLoop
  cases p.connector.connect_
  · simp only [check_bind_eq_ok, Bool.false_eq_true, if_false, pure_eq_ok]
    simp
  · simp only [check_bind_eq_ok, if_true, pure_eq_ok]
    simp

/-- `retry` does nothing when the last socket is gone; otherwise it closes that socket and, if
`connect_` is set, arms a timer with the delay and doubles the delay. -/
theorem retry_eq_ok {held : Option SockId} : retry p held = .ok q ↔
    ((∀ k, p.connector.socketWeakPtr_ = some k → held ≠ some k ∧ socketAlive p k = false) ∧
        q = p) ∨
      ∃ k, p.connector.socketWeakPtr_ = some k ∧ (held = some k ∨ socketAlive p k = true) ∧
        p.connector.state_ = .kDisconnected ∧
        ((p.connector.connect_ = true ∧ q = { p with
            sockets := { p.sockets with closed := k :: p.sockets.closed }
            timers := p.timers.addTimer
            connector := { p.connector with
              reConnectTimer_ := some p.timers.nextTimer
              retryDelayMs_ := min (p.connector.retryDelayMs_ * 2) kMaxRetryDelayMs } }) ∨
          (p.connector.connect_ = false ∧
            q = { p with sockets := { p.sockets with closed := k :: p.sockets.closed } })) := by
  unfold retry
  cases hk : p.connector.socketWeakPtr_ with
  | none => simp [pure_eq_ok]
  | some k =>
    by_cases halive : held = some k ∨ socketAlive p k = true
    · have hno : ¬(held ≠ some k ∧ socketAlive p k = false) := by
        rintro ⟨hheld, hdead⟩
        rcases halive with halive | halive
        · exact hheld halive
        · rw [hdead] at halive
          cases halive
      simp only [halive, if_true]
      cases p.connector.connect_
      · simp only [check_bind_eq_ok, Bool.false_eq_true, if_false, pure_eq_ok]
        simp [halive, hno]
      · simp only [check_bind_eq_ok, if_true, pure_eq_ok]
        simp [halive, hno]
    · have hdead : held ≠ some k ∧ socketAlive p k = false := by
        rw [not_or] at halive
        exact ⟨halive.1, by simpa using halive.2⟩
      simp [hdead, pure_eq_ok]

/-- `restart` begins anew with the initial delay. -/
theorem restart_eq_ok : restart p t = .ok q ↔ t = p.connector.loop_ ∧
    q = { p with
      connector := { p.connector with
        state_ := .kConnecting
        retryDelayMs_ := kInitRetryDelayMs
        connect_ := true
        socketWeakPtr_ := some p.sockets.nextSocket }
      sockets := { p.sockets with
        nextSocket := p.sockets.nextSocket + 1
        connecting := p.sockets.connecting ++ [p.sockets.nextSocket] } } := by
  unfold restart
  simp only [check_bind_eq_ok, startInLoop_eq_ok]
  constructor
  · rintro ⟨ht, -, ⟨-, -, rfl⟩ | ⟨h, -⟩⟩
    · exact ⟨ht, rfl⟩
    · cases h
  · rintro ⟨ht, rfl⟩
    exact ⟨ht, trivial, Or.inl ⟨trivial, ht, rfl⟩⟩

/-- `stopInLoop` abandons an attempt that is not completed. -/
theorem stopInLoop_eq_ok : stopInLoop p t = .ok q ↔ t = p.connector.loop_ ∧
    ((p.connector.state_ = .kConnecting ∧
        retry { p with connector := { p.connector with state_ := .kDisconnected } } none =
          .ok q) ∨
      (p.connector.state_ ≠ .kConnecting ∧ q = p)) := by
  unfold stopInLoop
  simp only [check_bind_eq_ok]
  by_cases h : p.connector.state_ = .kConnecting <;> simp [h, pure_eq_ok]

/-- Run a task of the connector. -/
def exec (p : Process) (t : ThreadId) (k : ConnectorTask) : Except Fault Process :=
  if p.client.life = .dead then .error .useAfterDestruction
  else match k with
    | .startInLoop => startInLoop p t
    | .stopInLoop => stopInLoop p t
    | .restart => restart p t
    | .handleConnect socket error => handleConnect p t socket error

/-- A task of the connector runs while there is a connector. -/
theorem exec_eq_ok {k : ConnectorTask} : exec p t k = .ok q ↔ p.client.life ≠ .dead ∧
    match k with
    | .startInLoop => startInLoop p t = .ok q
    | .stopInLoop => stopInLoop p t = .ok q
    | .restart => restart p t = .ok q
    | .handleConnect socket error => handleConnect p t socket error = .ok q := by
  unfold exec
  by_cases h : p.client.life = .dead
  · simp [h]
  · cases k <;> simp [h]

end Connector

end LibNetToy
