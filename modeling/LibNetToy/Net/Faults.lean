import LibNetToy.Net.Frame

/-!
# Where the assertions of the owners fail

The assertions of `TcpServer`, `TcpClient`, `Connector` and of the destructor of a connection
fail in one place each: a step that ends in one of them ran a known work item, in a known
situation.
-/

namespace LibNetToy

/-- The assertions that are not made by the member functions of a connection, by a buffer or
by a loop. -/
def Assertion.ofOwner : Assertion → Bool
  | .destructor => true
  | .removeConnectionInLoop => true
  | .startInLoop => true
  | .retry => true
  | .clientDestructorLoop => true
  | .removeConnectionLoop => true
  | .removeConnection => true
  | _ => false

namespace Buffer

variable {b : Buffer} {a : Assertion}

/-- The assertion of `retrieve` is one of the buffer. -/
theorem retrieve_ofOwner {len : Nat} (h : b.retrieve len = .error (.assertion a)) :
    a.ofOwner = false := by
  obtain rfl := Fault.assertion.inj (retrieve_fault h)
  rfl

/-- The assertion of `hasWritten` is one of the buffer. -/
theorem hasWritten_ofOwner {len : Nat} (h : b.hasWritten len = .error (.assertion a)) :
    a.ofOwner = false := by
  obtain rfl := Fault.assertion.inj (hasWritten_fault h)
  rfl

/-- The assertion of `ensureWritableBytes` is one of the buffer. -/
theorem ensureWritableBytes_ofOwner {len : Nat}
    (h : b.ensureWritableBytes len = .error (.assertion a)) : a.ofOwner = false := by
  rcases ensureWritableBytes_fault h with hf | hf | hf | hf <;> cases hf <;> rfl

/-- The assertions of `append` are those of the buffer. -/
theorem append_ofOwner {data : List UInt8} (h : b.append data = .error (.assertion a)) :
    a.ofOwner = false := by
  rcases append_fault h with hf | hf | hf | hf | hf <;> cases hf <;> rfl

end Buffer

namespace TcpConnection

variable {c : TcpConnection} {here : Option LoopId} {a : Assertion}

/-- The assertion of `handleClose` is one of the connection. -/
theorem handleClose_ofOwner (h : c.handleClose here = .error (.assertion a)) :
    a.ofOwner = false := by
  rcases check_bind_eq_error.1 h with ⟨-, hf⟩ | ⟨-, h⟩
  · cases hf
    rfl
  · rcases check_bind_eq_error.1 h with ⟨-, hf⟩ | ⟨-, h⟩
    · cases hf
      rfl
    · exact absurd h pure_ne_error

/-- A member function of a connection never fails an assertion of its owner. -/
theorem exec_ofOwner {k : ConnTask} (h : c.exec here k = .error (.assertion a)) :
    a.ofOwner = false := by
  cases k with
  | readHandler error n =>
    rcases error with _ | _ | _ | _
    · rcases bind_eq_error.1 h with h | ⟨b, -, h⟩
      · exact Buffer.hasWritten_ofOwner h
      · exact absurd h pure_ne_error
    · exact handleClose_ofOwner h
    all_goals
      rcases bind_eq_error.1 h with h | ⟨e, -, h⟩
      · exact handleClose_ofOwner h
      · exact absurd h pure_ne_error
  | writeHandler error n =>
    cases error with
    | none =>
      rcases bind_eq_error.1 h with h | ⟨b, -, h⟩
      · exact Buffer.retrieve_ofOwner h
      · exact absurd h pure_ne_error
    | some e => exact absurd h pure_ne_error
  | readAgain n =>
    unfold exec readAgain at h
    split_ifs at h
    · rcases bind_eq_error.1 h with h | ⟨b, -, h⟩
      · exact Buffer.ensureWritableBytes_ofOwner h
      · exact absurd h pure_ne_error
    · exact absurd h pure_ne_error
  | shutdownInLoop =>
    rcases check_bind_eq_error.1 h with ⟨-, hf⟩ | ⟨-, h⟩
    · cases hf
      rfl
    · exact absurd h pure_ne_error
  | forceCloseInLoop =>
    rcases check_bind_eq_error.1 h with ⟨-, hf⟩ | ⟨-, h⟩
    · cases hf
      rfl
    · split_ifs at h
      · exact handleClose_ofOwner h
      · exact absurd h pure_ne_error
  | connectEstablished =>
    rcases check_bind_eq_error.1 h with ⟨-, hf⟩ | ⟨-, h⟩
    · cases hf
      rfl
    · rcases check_bind_eq_error.1 h with ⟨-, hf⟩ | ⟨-, h⟩
      · cases hf
        rfl
      · exact absurd h pure_ne_error
  | connectDestroyed =>
    rcases check_bind_eq_error.1 h with ⟨-, hf⟩ | ⟨-, h⟩
    · cases hf
      rfl
    · split_ifs at h <;> exact absurd h pure_ne_error
  | startReadInLoop | stopReadInLoop | callback | inCallback | release =>
    exact absurd h pure_ne_error

/-- The assertions of a call from outside are those of the connection and its buffers. -/
theorem call_ofOwner {x : ConnCall} (h : c.call here x = .error (.assertion a)) :
    a.ofOwner = false := by
  cases x with
  | send message =>
    rcases bind_eq_error.1 h with h | ⟨b, -, h⟩
    · exact Buffer.append_ofOwner h
    · exact absurd h pure_ne_error
  | shutdown | forceClose | startRead | stopRead => exact absurd h pure_ne_error

end TcpConnection

namespace Process

variable {p q : Process} {a : Assertion}

/-- A work item of a connection fails no assertion of an owner. -/
theorem execConn_ofOwner {t : ThreadId} {c : ConnId} {k : ConnTask} {after : List Work}
    (h : p.execConn t c k after = .error (.assertion a)) : a.ofOwner = false := by
  unfold execConn at h
  split_ifs at h
  · cases h
  · rcases bind_eq_error.1 h with h | ⟨e, -, h⟩
    · exact TcpConnection.exec_ofOwner h
    · exact absurd h pure_ne_error

/-- The work item and the situation in which an assertion of an owner fails. -/
inductive OwnerFails (p : Process) : Work → Assertion → Prop
  | destructor {c : ConnId} : p.owners c = 0 → (p.conns c).conn.state_ ≠ .kDisconnected →
      OwnerFails p (.conn c .release) .destructor
  | removeConnectionInLoop {c : ConnId} :
      AssocMap.count (p.conns c).conn.name_ p.server.connections_ ≠ 1 →
      OwnerFails p (.server (.removeConnectionInLoop c)) .removeConnectionInLoop
  | startInLoop : p.connector.state_ ≠ .kDisconnected →
      OwnerFails p (.connector .startInLoop) .startInLoop
  | removeConnectionLoop {c : ConnId} : p.client.loop_ ≠ (p.conns c).conn.loop_ →
      OwnerFails p (.client (.removeConnection c)) .removeConnectionLoop
  | removeConnection {c : ConnId} : p.client.connection_ ≠ some c →
      OwnerFails p (.client (.removeConnection c)) .removeConnection

/-- Only the destructor of a connection asserts something when a pointer is given up. -/
theorem release_fails {c : ConnId} (h : p.release c = .error (.assertion a)) :
    OwnerFails p (.conn c .release) a := by
  unfold release at h
  split_ifs at h with howners
  · rcases check_bind_eq_error.1 h with ⟨hstate, hf⟩ | ⟨-, h⟩
    · cases hf
      exact .destructor howners hstate
    · exact absurd h pure_ne_error
  · exact absurd h pure_ne_error

/-- `startInLoop` fails its own assertion, on a connector that is not disconnected. -/
theorem startInLoop_fails {t : ThreadId}
    (h : Connector.startInLoop p t = .error (.assertion a)) (ha : a.ofOwner = true) :
    p.connector.state_ ≠ .kDisconnected ∧ a = .startInLoop := by
  rcases check_bind_eq_error.1 h with ⟨hstate, hf⟩ | ⟨-, h⟩
  · exact ⟨hstate, Fault.assertion.inj hf⟩
  · split_ifs at h
    · rcases check_bind_eq_error.1 h with ⟨-, hf⟩ | ⟨-, h⟩
      · cases hf
        cases ha
      · exact absurd h pure_ne_error
    · exact absurd h pure_ne_error

/-- Both callers of `retry` have set the state to `kDisconnected`. -/
theorem retry_fails {held : Option SockId} (hstate : p.connector.state_ = .kDisconnected)
    {f : Fault} : Connector.retry p held ≠ .error f := by
  intro h
  unfold Connector.retry at h
  cases hweak : p.connector.socketWeakPtr_ with
  | none =>
    rw [hweak] at h
    exact absurd h pure_ne_error
  | some k =>
    simp only [hweak] at h
    by_cases halive : held = some k ∨ Connector.socketAlive p k = true
    · rw [if_pos halive] at h
      rcases check_bind_eq_error.1 h with ⟨hno, -⟩ | ⟨-, h⟩
      · exact hno hstate
      · split_ifs at h <;> exact absurd h pure_ne_error
    · rw [if_neg halive] at h
      exact absurd h pure_ne_error

/-- A task of the connector fails only the assertions named here. -/
theorem execConnector_fails {t : ThreadId} {k : ConnectorTask}
    (h : Connector.exec p t k = .error (.assertion a)) (ha : a.ofOwner = true) :
    OwnerFails p (.connector k) a := by
  unfold Connector.exec at h
  split_ifs at h
  · cases h
  cases k with
  | startInLoop =>
    obtain ⟨hstate, rfl⟩ := startInLoop_fails h ha
    exact .startInLoop hstate
  | stopInLoop =>
    rcases check_bind_eq_error.1 h with ⟨-, hf⟩ | ⟨-, h⟩
    · cases hf
      cases ha
    · split_ifs at h
      · exact absurd h (retry_fails rfl)
      · exact absurd h pure_ne_error
  | restart =>
    rcases check_bind_eq_error.1 h with ⟨-, hf⟩ | ⟨-, h⟩
    · cases hf
      cases ha
    · exact absurd rfl (startInLoop_fails h ha).1
  | handleConnect socket error =>
    cases error with
    | none => exact absurd h pure_ne_error
    | some e => exact absurd h (retry_fails rfl)

/-- A task of the server fails only the assertions named here. -/
theorem execServer_fails {t : ThreadId} {k : ServerTask}
    (h : TcpServer.exec p t k = .error (.assertion a)) (ha : a.ofOwner = true) :
    OwnerFails p (.server k) a := by
  unfold TcpServer.exec at h
  split_ifs at h
  · cases h
  cases k with
  | removeConnectionInLoop c =>
    rcases check_bind_eq_error.1 h with ⟨-, hf⟩ | ⟨-, h⟩
    · cases hf
      cases ha
    · rcases check_bind_eq_error.1 h with ⟨hcount, hf⟩ | ⟨-, h⟩
      · cases hf
        exact .removeConnectionInLoop hcount
      · exact absurd h pure_ne_error
  | removeConnection | destroyNext | quit | quitLoop | joinLoop | destroyed =>
    exact absurd h pure_ne_error

/-- Running a work item fails an assertion of an owner only as listed. -/
theorem exec_fails {t : ThreadId} {peer : List Char} {w : Work}
    (h : p.exec t peer w = .error (.assertion a)) (ha : a.ofOwner = true) :
    OwnerFails p w a := by
  have hconn : ∀ {c k after}, p.execConn t c k after ≠ .error (.assertion a) := by
    intro c k after h
    rw [execConn_ofOwner h] at ha
    cases ha
  cases w with
  | conn c k =>
    cases k with
    | release => exact release_fails h
    | callback k =>
      cases k with
      | close =>
        simp only [exec] at h
        split_ifs at h
        · cases h
        · exact absurd h pure_ne_error
      | connection | message | writeComplete => exact absurd h hconn
    | writeHandler error n =>
      cases error with
      | none => exact absurd h hconn
      | some e => exact absurd h pure_ne_error
    | readHandler | startReadInLoop | stopReadInLoop | shutdownInLoop | forceCloseInLoop
    | connectEstablished | connectDestroyed | inCallback | readAgain => exact absurd h hconn
  | bound c k => exact absurd h hconn
  | setCloseCallback c => exact absurd h pure_ne_error
  | server k => exact execServer_fails h ha
  | client k =>
    simp only [exec] at h
    split_ifs at h
    · cases h
    cases k with
    | newConnection socket =>
      rcases check_bind_eq_error.1 h with ⟨-, hf⟩ | ⟨-, h⟩
      · cases hf
        cases ha
      · split_ifs at h
        · cases h
        · exact absurd h pure_ne_error
    | removeConnection c =>
      rcases check_bind_eq_error.1 h with ⟨-, hf⟩ | ⟨-, h⟩
      · cases hf
        cases ha
      · rcases check_bind_eq_error.1 h with ⟨hloop, hf⟩ | ⟨-, h⟩
        · cases hf
          exact .removeConnectionLoop hloop
        · rcases check_bind_eq_error.1 h with ⟨hconnection, hf⟩ | ⟨-, h⟩
          · cases hf
            exact .removeConnection hconnection
          · exact absurd h pure_ne_error
    | destroyed => exact absurd h pure_ne_error
  | connector k => exact execConnector_fails h ha
  | handleTimer timer error => exact absurd h pure_ne_error
  | eraseTimer timer => exact absurd h pure_ne_error

/-- A step fails an assertion of an owner, other than the one of the destructor of the client,
only by running a work item in a situation that is listed. -/
theorem step_fails {e : ProcessEvent} (h : step e p = .error (.fault (.assertion a)))
    (ha : a.ofOwner = true) (hclient : a ≠ .clientDestructorLoop) :
    ∃ t peer w rest, e = .run t peer ∧ Keyed.takeFirst t p.stack = some (w, rest) ∧
      OwnerFails { p with stack := rest } w a := by
  cases e with
  | run t peer =>
    obtain ⟨w, rest, htake, -, hexec⟩ := run_eq_fault.1 h
    exact ⟨t, peer, w, rest, rfl, htake, exec_fails hexec ha⟩
  | return_ t =>
    rcases htake : Keyed.takeFirst t p.stack with _ | ⟨w, rest⟩
    · simp [step, htake] at h
    · cases w with
      | conn c k => cases k <;> simp [step, htake] at h
      | bound | setCloseCallback | server | client | connector | handleTimer | eraseTimer =>
        simp [step, htake] at h
  | call t c x =>
    obtain ⟨-, h⟩ := Halt.guard_eq_fault.1 h
    rw [TcpConnection.call_ofOwner (Halt.ofCall_eq_fault.1 h)] at ha
    cases ha
  | consume t c len =>
    obtain ⟨-, h⟩ := Halt.guard_eq_fault.1 h
    rw [Buffer.retrieve_ofOwner (Halt.ofCall_eq_fault.1 h)] at ha
    cases ha
  | destroyServer t =>
    obtain ⟨-, h⟩ := Halt.guard_eq_fault.1 h
    rcases check_bind_eq_error.1 (Halt.ofCall_eq_fault.1 h) with ⟨-, hf⟩ | ⟨-, h⟩
    · cases hf
      cases ha
    · exact absurd h pure_ne_error
  | destroyClient t =>
    obtain ⟨-, h⟩ := Halt.guard_eq_fault.1 h
    have h := Halt.ofCall_eq_fault.1 h
    unfold TcpClient.destructor at h
    cases hc : p.client.connection_ with
    | none =>
      rw [hc] at h
      exact absurd h pure_ne_error
    | some c =>
      simp only [hc] at h
      rcases check_bind_eq_error.1 h with ⟨-, hf⟩ | ⟨-, h⟩
      · exact absurd (Fault.assertion.inj hf) hclient
      · split_ifs at h <;> exact absurd h pure_ne_error
  | dequeue | keep | keepConnection | drop | receive | readFails | transmit | sendFails | accept
  | clientCall | connectorCall | connectDone | timerExpires => simp [step] at h

end Process

end LibNetToy
