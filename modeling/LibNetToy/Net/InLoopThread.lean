import LibNetToy.Net.Affinity

/-!
# `assertInLoopThread`

The member functions that have to run on the thread of their loop check this.  Since every work
item is at its place, none of these checks fails, except the one of the destructor of the
server, which the user calls.
-/

namespace LibNetToy

namespace TcpConnection

variable {c : TcpConnection}

/-- On the thread of the loop the check does not fail. -/
theorem assertInLoopThread_loop {α : Type} {f : Unit → Except Fault α} {e : Fault}
    (h : (c.assertInLoopThread (some c.loop_) >>= f) = .error e) : f () = .error e := by
  rcases check_bind_eq_error.1 h with ⟨hno, -⟩ | ⟨-, h⟩
  · exact absurd rfl hno
  · exact h

theorem handleClose_inLoop :
    c.handleClose (some c.loop_) ≠ .error (.assertion .assertInLoopThread) := by
  intro h
  rcases check_bind_eq_error.1 (assertInLoopThread_loop h) with ⟨-, hf⟩ | ⟨-, h⟩
  · cases hf
  · exact pure_ne_error h

theorem exec_inLoop {t : ConnTask} :
    c.exec (some c.loop_) t ≠ .error (.assertion .assertInLoopThread) := by
  intro h
  cases t with
  | readHandler error n =>
    cases error with
    | none =>
      rcases bind_eq_error.1 h with h | ⟨b, -, h⟩
      · cases Buffer.hasWritten_fault h
      · exact pure_ne_error h
    | some e =>
      cases e with
      | eof => exact handleClose_inLoop h
      | operationAborted | other =>
        rcases bind_eq_error.1 h with h | ⟨b, -, h⟩
        · exact handleClose_inLoop h
        · exact pure_ne_error h
  | writeHandler error n =>
    cases error with
    | none =>
      rcases bind_eq_error.1 h with h | ⟨b, -, h⟩
      · cases Buffer.retrieve_fault h
      · exact pure_ne_error h
    | some e => exact pure_ne_error h
  | readAgain n =>
    simp only [exec, readAgain] at h
    split_ifs at h
    · rcases bind_eq_error.1 h with h | ⟨b, -, h⟩
      · rcases Buffer.ensureWritableBytes_fault h with hf | hf | hf | hf <;> cases hf
      · exact pure_ne_error h
    · exact pure_ne_error h
  | shutdownInLoop =>
    rcases check_bind_eq_error.1 h with ⟨hno, -⟩ | ⟨-, h⟩
    · exact hno rfl
    · exact pure_ne_error h
  | forceCloseInLoop =>
    have h := assertInLoopThread_loop h
    split_ifs at h
    · exact handleClose_inLoop h
    · exact pure_ne_error h
  | connectEstablished =>
    rcases check_bind_eq_error.1 (assertInLoopThread_loop h) with ⟨-, hf⟩ | ⟨-, h⟩
    · cases hf
    · exact pure_ne_error h
  | connectDestroyed =>
    have h := assertInLoopThread_loop h
    split_ifs at h <;> exact pure_ne_error h
  | startReadInLoop | stopReadInLoop | callback | inCallback | release => exact pure_ne_error h

theorem call_ne_assertInLoopThread {here : Option LoopId} {x : ConnCall} :
    c.call here x ≠ .error (.assertion .assertInLoopThread) := by
  intro h
  cases x with
  | send message =>
    rcases bind_eq_error.1 h with h | ⟨b, -, h⟩
    · rcases Buffer.append_fault h with hf | hf | hf | hf | hf <;> cases hf
    · exact pure_ne_error h
  | shutdown | forceClose | startRead | stopRead => exact pure_ne_error h

end TcpConnection

namespace Process

variable {p : Process}

theorem execConn_inLoop {t : ThreadId} {c : ConnId} {k : ConnTask} {after : List Work}
    (ht : t = (p.conns c).conn.loop_) :
    p.execConn t c k after ≠ .error (.assertion .assertInLoopThread) := by
  intro h
  unfold execConn at h
  split_ifs at h
  · cases h
  · rcases bind_eq_error.1 h with h | ⟨e, -, h⟩
    · rw [ht] at h
      exact TcpConnection.exec_inLoop h
    · exact pure_ne_error h

theorem startInLoop_inLoop {t : ThreadId} (ht : t = p.connector.loop_) :
    Connector.startInLoop p t ≠ .error (.assertion .assertInLoopThread) := by
  intro h
  rcases check_bind_eq_error.1 h with ⟨-, hf⟩ | ⟨-, h⟩
  · cases hf
  · split_ifs at h
    · rcases check_bind_eq_error.1 h with ⟨hno, -⟩ | ⟨-, h⟩
      · exact hno ht
      · exact pure_ne_error h
    · exact pure_ne_error h

theorem execConnector_inLoop {t : ThreadId} {k : ConnectorTask} (ht : t = p.connector.loop_) :
    Connector.exec p t k ≠ .error (.assertion .assertInLoopThread) := by
  intro h
  unfold Connector.exec at h
  split_ifs at h
  · cases h
  cases k with
  | startInLoop => exact startInLoop_inLoop ht h
  | stopInLoop =>
    rcases check_bind_eq_error.1 h with ⟨hno, -⟩ | ⟨-, h⟩
    · exact hno ht
    · split_ifs at h
      · exact retry_fails rfl h
      · exact pure_ne_error h
  | restart =>
    rcases check_bind_eq_error.1 h with ⟨hno, -⟩ | ⟨-, h⟩
    · exact hno ht
    · exact startInLoop_inLoop (p := { p with connector := { p.connector with
        state_ := .kDisconnected
        retryDelayMs_ := Connector.kInitRetryDelayMs
        connect_ := true } }) ht h
  | handleConnect socket error =>
    cases error with
    | none => exact pure_ne_error h
    | some e => exact retry_fails rfl h

/-- A work item that belongs to the thread does not fail the check. -/
theorem exec_inLoop {t : ThreadId} {peer : List Char} {w : Work} (hb : p.Belongs (t, w)) :
    p.exec t peer w ≠ .error (.assertion .assertInLoopThread) := by
  intro h
  cases w with
  | conn c k =>
    cases k with
    | release =>
      simp only [exec, Process.release] at h
      split_ifs at h
      · rcases check_bind_eq_error.1 h with ⟨-, hf⟩ | ⟨-, h⟩
        · cases hf
        · exact pure_ne_error h
      · exact pure_ne_error h
    | callback k =>
      cases k with
      | close =>
        simp only [exec] at h
        split_ifs at h
        · cases h
        · exact pure_ne_error h
      | connection | message | writeComplete => exact execConn_inLoop (hb.place _ rfl) h
    | writeHandler error n =>
      cases error with
      | none => exact execConn_inLoop (hb.place _ rfl) h
      | some e => exact pure_ne_error h
    | readHandler | startReadInLoop | stopReadInLoop | shutdownInLoop | forceCloseInLoop
    | connectEstablished | connectDestroyed | inCallback | readAgain =>
      exact execConn_inLoop (hb.place _ rfl) h
  | bound c k => exact execConn_inLoop (hb.place _ rfl) h
  | setCloseCallback c => exact pure_ne_error h
  | server k =>
    simp only [exec, TcpServer.exec] at h
    split_ifs at h
    · cases h
    cases k with
    | removeConnectionInLoop c =>
      rcases check_bind_eq_error.1 h with ⟨hno, -⟩ | ⟨-, h⟩
      · exact hno (hb.place _ rfl)
      · rcases check_bind_eq_error.1 h with ⟨-, hf⟩ | ⟨-, h⟩
        · cases hf
        · exact pure_ne_error h
    | removeConnection | destroyNext | quit | quitLoop | joinLoop | destroyed =>
      exact pure_ne_error h
  | client k =>
    simp only [exec] at h
    split_ifs at h
    · cases h
    cases k with
    | newConnection socket =>
      rcases check_bind_eq_error.1 h with ⟨hno, -⟩ | ⟨-, h⟩
      · exact hno (hb.place _ rfl)
      · split_ifs at h
        · cases h
        · exact pure_ne_error h
    | removeConnection c =>
      rcases check_bind_eq_error.1 h with ⟨hno, -⟩ | ⟨-, h⟩
      · exact hno (hb.place _ rfl)
      · rcases check_bind_eq_error.1 h with ⟨-, hf⟩ | ⟨-, h⟩
        · cases hf
        · rcases check_bind_eq_error.1 h with ⟨-, hf⟩ | ⟨-, h⟩
          · cases hf
          · exact pure_ne_error h
    | destroyed => exact pure_ne_error h
  | connector k => exact execConnector_inLoop (hb.place _ rfl) h
  | handleTimer timer error => exact pure_ne_error h
  | eraseTimer timer => exact pure_ne_error h

/-- The check fails only when the destructor of the server is called on another thread. -/
theorem Placed.step_inLoop {e : ProcessEvent} (h : Placed p)
    (hstep : step e p = .error (.fault (.assertion .assertInLoopThread))) :
    ∃ t, e = .destroyServer t ∧ t ≠ p.server.loop_ := by
  cases e with
  | run t peer =>
    obtain ⟨w, rest, htake, -, hexec⟩ := run_eq_fault.1 hstep
    exact absurd hexec (exec_inLoop (h.pop htake).2)
  | return_ t =>
    rcases htake : Keyed.takeFirst t p.stack with _ | ⟨w, rest⟩
    · simp [step, htake] at hstep
    · cases w with
      | conn c k => cases k <;> simp [step, htake] at hstep
      | bound | setCloseCallback | server | client | connector | handleTimer | eraseTimer =>
        simp [step, htake] at hstep
  | call t c x =>
    obtain ⟨-, hcall⟩ := Halt.guard_eq_fault.1 hstep
    exact absurd (Halt.ofCall_eq_fault.1 hcall) TcpConnection.call_ne_assertInLoopThread
  | consume t c len =>
    obtain ⟨-, hcall⟩ := Halt.guard_eq_fault.1 hstep
    cases Buffer.retrieve_fault (Halt.ofCall_eq_fault.1 hcall)
  | destroyServer t =>
    obtain ⟨-, hcall⟩ := Halt.guard_eq_fault.1 hstep
    rcases check_bind_eq_error.1 (Halt.ofCall_eq_fault.1 hcall) with ⟨hno, -⟩ | ⟨-, hf⟩
    · exact ⟨t, rfl, hno⟩
    · exact absurd hf pure_ne_error
  | destroyClient t =>
    obtain ⟨-, hcall⟩ := Halt.guard_eq_fault.1 hstep
    have hcall := Halt.ofCall_eq_fault.1 hcall
    unfold TcpClient.destructor at hcall
    cases hc : p.client.connection_ with
    | none =>
      rw [hc] at hcall
      exact absurd hcall pure_ne_error
    | some c =>
      simp only [hc] at hcall
      rcases check_bind_eq_error.1 hcall with ⟨-, hf⟩ | ⟨-, hf⟩
      · cases hf
      · split_ifs at hf <;> exact absurd hf pure_ne_error
  | dequeue | keep | keepConnection | drop | receive | readFails | transmit | sendFails | accept
  | clientCall | connectorCall | connectDone | timerExpires => simp [step] at hstep

end Process

end LibNetToy
