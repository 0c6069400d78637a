import LibNetToy.Net.System

/-!
# Operations that are aborted

`close()` aborts the operations that are outstanding on a socket, and so does the destruction of
the socket: before it returns their handlers are queued with `operation_aborted`.  A step of a
process leaves open when such a handler is queued.  In the runs here nothing else happens before:
while an operation is outstanding on a socket that is no longer open, the next event completes
one.

These runs are runs of a process, so whatever holds in every run of a process holds in them.
-/

namespace LibNetToy

namespace Process

/-- The connection has operations on a socket that is no longer open. -/
def abortsOf (p : Process) (c : ConnId) : Bool :=
  !p.socketOpen c &&
    !((p.conns c).conn.socket_.reads.isEmpty && (p.conns c).conn.socket_.sends.isEmpty)

/-- Some operation is outstanding on a socket that is no longer open. -/
def aborting (p : Process) : Bool :=
  p.sockets.connecting.any (fun k => p.sockets.closed.contains k) ||
    (List.range p.nextConn).any p.abortsOf

/-- The event completes an operation on a socket that is no longer open. -/
def aborts (p : Process) : ProcessEvent → Bool
  | .connectDone k _ => p.sockets.closed.contains k
  | .readFails c _ => !p.socketOpen c
  | .sendFails c _ => !p.socketOpen c
  | _ => false

end Process

/-- The runs of a process in which operations are aborted at once. -/
def abortingMachine : Machine Process ProcessEvent Fault where
  init := processMachine.init
  step e p := Halt.guard (p.aborting = true → p.aborts e = true) (Process.step e p)

namespace Process

variable {p q : Process} {e : ProcessEvent}

/-- A step is a step of a process; it completes an operation that is aborted if there is one. -/
theorem abortingMachine_step_eq_ok : abortingMachine.step e p = .ok q ↔
    (p.aborting = true → p.aborts e = true) ∧ step e p = .ok q :=
  Halt.guard_eq_ok

/-- The states reached here are reached by a process. -/
theorem reachable_of_aborting {C : Process → ProcessEvent → Prop}
    (hp : abortingMachine.ReachableUnder C p) : processMachine.ReachableUnder C p := by
  induction hp with
  | init hinit => exact .init hinit
  | step _ hC hstep ih => exact .step ih hC (abortingMachine_step_eq_ok.1 hstep).2

/-- While no operation is to be aborted every outstanding attempt has an open socket. -/
theorem not_mem_closed_of_aborting {k : SockId} (h : p.aborting = false)
    (hk : k ∈ p.sockets.connecting) : k ∉ p.sockets.closed := by
  unfold aborting at h
  have hany := (Bool.or_eq_false_iff.1 h).1
  have hone := List.any_eq_false.1 hany k hk
  simpa using hone

/-- An operation that is to be aborted can be completed, so the process goes on. -/
theorem exists_abort (h : p.aborting = true) :
    ∃ e q, p.aborts e = true ∧ abortingMachine.step e p = .ok q := by
  have hgo : ∀ {e q}, p.aborts e = true → step e p = .ok q →
      ∃ e q, p.aborts e = true ∧ abortingMachine.step e p = .ok q :=
    fun he hstep => ⟨_, _, he, abortingMachine_step_eq_ok.2 ⟨fun _ => he, hstep⟩⟩
  rcases Bool.or_eq_true_iff.1 h with h | h
  · obtain ⟨k, hk, hclosed⟩ := List.any_eq_true.1 h
    exact hgo (e := .connectDone k (some .operationAborted)) hclosed
      (connectDone_eq_ok.2 ⟨⟨hk, fun _ => rfl⟩, rfl⟩)
  · obtain ⟨c, -, hc⟩ := List.any_eq_true.1 h
    obtain ⟨hclosed, hsome⟩ := Bool.and_eq_true_iff.1 hc
    have hmay : p.mayFail c .operationAborted = true := by simp [mayFail]
    cases hreads : (p.conns c).conn.socket_.reads with
    | cons region rest =>
      have hread : (p.conns c).conn.readFails .operationAborted = some
          ({ (p.conns c).conn with socket_ := { (p.conns c).conn.socket_ with reads := rest } },
            .readHandler (some .operationAborted) 0) := by
        simp only [TcpConnection.readFails, hreads]
      exact hgo (e := .readFails c .operationAborted) hclosed
        (readFails_eq_ok.2 ⟨hmay, _, hread, rfl⟩)
    | nil =>
      cases hsends : (p.conns c).conn.socket_.sends with
      | cons region rest =>
        have hsend : (p.conns c).conn.sendFails .operationAborted = some
            ({ (p.conns c).conn with socket_ := { (p.conns c).conn.socket_ with sends := rest } },
              .writeHandler (some .operationAborted) 0) := by
          simp only [TcpConnection.sendFails, hsends]
        exact hgo (e := .sendFails c .operationAborted) hclosed
          (sendFails_eq_ok.2 ⟨hmay, _, hsend, rfl⟩)
      | nil => simp [hreads, hsends] at hsome

end Process

end LibNetToy
