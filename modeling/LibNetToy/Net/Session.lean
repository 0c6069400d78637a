import LibNetToy.Net.TcpConnection
import LibNetToy.Foundations.Machine
import LibNetToy.Foundations.Weight

/-!
# One connection on its event loop

`Session` is a connection with the thread of its loop and everything that can happen to it.
The thread has a stack of things it still has to do, innermost first, and a queue of functors
and completion handlers that it runs first-in first-out when the stack is empty.  While the
code of a callback is on top of the stack, or nothing is, code of the user runs on the loop's
thread and may call the connection; at any moment another thread may call it and the kernel
may complete an operation.  An object owning the connection keeps it alive throughout and may
ask for `connectDestroyed`.

A session also records what went over the wire, what was accepted, acknowledged, received and
consumed, and how often the connection was reported down and handed to `closeCallback_`.
-/

namespace LibNetToy

/-- A connection, its loop and its history. -/
structure Session where
  conn : TcpConnection
  stack : List ConnTask
  queue : List Functor
  /-- The bytes transferred by sends. -/
  wire : List UInt8
  /-- The messages of all calls of `send`, concatenated. -/
  accepted : List UInt8
  /-- The number of bytes acknowledged by `writeHandler`. -/
  acknowledged : Nat
  /-- The bytes the kernel delivered to reads. -/
  received : List UInt8
  /-- The bytes that message callbacks retrieved. -/
  consumed : List UInt8
  /-- The number of calls of `connectionCallback_` that report the end. -/
  downs : Nat
  /-- The number of calls of `closeCallback_`. -/
  closes : Nat
  deriving DecidableEq

/-- What happens next in a session. -/
inductive SessionEvent
  /-- The loop takes the oldest functor from its queue. -/
  | dequeue
  /-- The loop's thread does the next thing on its stack. -/
  | run
  /-- The running callback returns. -/
  | return_
  /-- Code of the user calls the connection on the loop's thread. -/
  | call (x : ConnCall)
  /-- Another thread calls the connection. -/
  | callFrom (x : ConnCall)
  /-- The owner calls `connectDestroyed` on the loop's thread, or queues it. -/
  | destroy (inline : Bool)
  /-- The message callback retrieves bytes. -/
  | consume (len : Nat)
  | receive (data : List UInt8)
  | readFails (e : ErrorCode)
  | transmit (k : Nat) (stale : List UInt8)
  | sendFails (e : ErrorCode)

namespace Session

/-- Code of the user is running on the loop's thread. -/
def userRuns (s : Session) : Bool :=
  match s.stack with
  | [] => true
  | .inCallback _ :: _ => true
  | _ => false

/-- Everything the thread will do, in this order as far as nothing is added. -/
def tasks (s : Session) : List ConnTask :=
  s.stack ++ s.queue.flatMap Functor.body

/-- The effect of a member function on the session. -/
def apply (s : Session) (e : Effect) : Session :=
  { s with conn := e.conn, stack := e.calls ++ s.stack, queue := s.queue ++ e.posts }

/-- The history after running a task. -/
def noteTask (s : Session) : ConnTask → Session
  | .writeHandler none n => { s with acknowledged := s.acknowledged + n }
  | .callback (.connection false) => { s with downs := s.downs + 1 }
  | .callback .close => { s with closes := s.closes + 1 }
  | _ => s

/-- The history after a call. -/
def noteCall (s : Session) : ConnCall → Session
  | .send message => { s with accepted := s.accepted ++ message.bytes }
  | _ => s

/-- A completion queued by the kernel. -/
def complete (s : Session) (r : TcpConnection × ConnTask) : Session :=
  { s with conn := r.1, queue := s.queue ++ [.raw r.2] }

/-- One step of a session. -/
def step : SessionEvent → Session → Except (Halt Fault) Session
  | .dequeue, s =>
    match s.stack, s.queue with
    | [], f :: q => .ok { s with stack := f.body, queue := q }
    | _, _ => .error .disabled
  | .run, s =>
    match s.stack with
    | [] => .error .disabled
    | .inCallback _ :: _ => .error .disabled
    | t :: rest =>
      Halt.ofCall (s.conn.exec (some s.conn.loop_) t)
        fun e => (noteTask { s with stack := rest } t).apply e
  | .return_, s =>
    match s.stack with
    | .inCallback _ :: rest => .ok { s with stack := rest }
    | _ => .error .disabled
  | .call x, s =>
    Halt.guard s.userRuns
      (Halt.ofCall (s.conn.call (some s.conn.loop_) x) fun e => (s.noteCall x).apply e)
  | .callFrom x, s => Halt.ofCall (s.conn.call none x) fun e => (s.noteCall x).apply e
  | .destroy inline, s =>
    if inline then
      Halt.guard s.userRuns (.ok { s with stack := [.connectDestroyed, .release] ++ s.stack })
    else .ok { s with queue := s.queue ++ [.bound .connectDestroyed] }
  | .consume len, s =>
    Halt.guard (s.stack.head? = some (.inCallback .message) ∧
        len ≤ s.conn.inputBuffer_.readableBytes)
      (Halt.ofCall (s.conn.inputBuffer_.retrieve len) fun b => { s with
        conn := { s.conn with inputBuffer_ := b }
        consumed := s.consumed ++ s.conn.inputBuffer_.content.take len })
  | .receive data, s =>
    Halt.ofOption (s.conn.receive data) fun r =>
      { s.complete r with received := s.received ++ data }
  | .readFails e, s => Halt.ofOption (s.conn.readFails e) s.complete
  | .transmit k stale, s =>
    Halt.ofOption (s.conn.transmit k stale) fun r =>
      { s.complete (r.1, r.2.2) with wire := s.wire ++ r.2.1 }
  | .sendFails e, s => Halt.ofOption (s.conn.sendFails e) s.complete

/-- A new connection on the loop `loop`, about to be established. -/
def initial (loop : LoopId) (name : List Char) (messageCallback writeCompleteCallback : Bool) :
    Session where
  conn := TcpConnection.make loop name messageCallback writeCompleteCallback
  stack := [.connectEstablished, .release]
  queue := []
  wire := []
  accepted := []
  acknowledged := 0
  received := []
  consumed := []
  downs := 0
  closes := 0

end Session

/-- All runs of a connection that gets established. -/
def sessionMachine : Machine Session SessionEvent Fault where
  init s := ∃ loop name m w, s = Session.initial loop name m w
  step := Session.step

namespace Session

variable {s s' : Session}

/-! ## What the events do -/

/-- The loop takes the next functor when the last one is done. -/
theorem dequeue_eq_ok : step .dequeue s = .ok s' ↔
    ∃ f q, s.stack = [] ∧ s.queue = f :: q ∧ s' = { s with stack := f.body, queue := q } := by
  unfold step
  rcases hs : s.stack with _ | ⟨t, rest⟩ <;> rcases hq : s.queue with _ | ⟨f, q⟩ <;>
    simp [hs, hq, eq_comm]

/-- The thread of the loop does what is next on its stack, unless that is a callback that has not
returned. -/
theorem run_eq_ok : step .run s = .ok s' ↔
    ∃ t rest e, s.stack = t :: rest ∧ (∀ k, t ≠ .inCallback k) ∧
      s.conn.exec (some s.conn.loop_) t = .ok e ∧
      s' = (noteTask { s with stack := rest } t).apply e := by
  unfold step
  rcases hs : s.stack with _ | ⟨t, rest⟩
  · simp [hs]
  · cases t <;> simp [hs]

/-- What is next on the stack fails where its member function fails. -/
theorem run_eq_fault {f : Fault} : step .run s = .error (.fault f) ↔
    ∃ t rest, s.stack = t :: rest ∧ s.conn.exec (some s.conn.loop_) t = .error f := by
  unfold step
  rcases hs : s.stack with _ | ⟨t, rest⟩
  · simp [hs]
  · cases t with
    | inCallback k => simp [hs, TcpConnection.exec, pure_ne_error]
    | _ => simp [hs]

/-- A callback returns. -/
theorem return_eq_ok : step .return_ s = .ok s' ↔
    ∃ k rest, s.stack = .inCallback k :: rest ∧ s' = { s with stack := rest } := by
  unfold step
  rcases hs : s.stack with _ | ⟨t, rest⟩
  · simp [hs]
  · cases t <;> simp [hs, eq_comm]

/-- Code of the user calls a member function on the thread of the loop. -/
theorem call_eq_ok {x : ConnCall} : step (.call x) s = .ok s' ↔
    s.userRuns = true ∧ ∃ e, s.conn.call (some s.conn.loop_) x = .ok e ∧
      s' = (s.noteCall x).apply e := by
  simp [step]

/-- Code of the user calls a member function on another thread. -/
theorem callFrom_eq_ok {x : ConnCall} : step (.callFrom x) s = .ok s' ↔
    ∃ e, s.conn.call none x = .ok e ∧ s' = (s.noteCall x).apply e := by
  simp [step]

/-- The owner has the connection destroyed, at once or by a functor. -/
theorem destroy_eq_ok {inline : Bool} : step (.destroy inline) s = .ok s' ↔
    (inline = true ∧ s.userRuns = true ∧
      s' = { s with stack := [.connectDestroyed, .release] ++ s.stack }) ∨
    (inline = false ∧ s' = { s with queue := s.queue ++ [.bound .connectDestroyed] }) := by
  cases inline with
  | true =>
    simp only [step, if_true, Halt.guard_eq_ok, Except.ok.injEq]
    constructor
    · rintro ⟨hu, rfl⟩
      exact .inl ⟨trivial, hu, rfl⟩
    · rintro (⟨-, hu, rfl⟩ | ⟨h, -⟩)
      · exact ⟨hu, rfl⟩
      · exact absurd h (by decide)
  | false =>
    simp only [step, Bool.false_eq_true, if_false, Except.ok.injEq]
    constructor
    · rintro rfl
      exact .inr ⟨trivial, rfl⟩
    · rintro (⟨h, -⟩ | ⟨-, rfl⟩)
      · exact absurd h (by decide)
      · rfl

/-- The message callback retrieves bytes from the buffer it was given. -/
theorem consume_eq_ok {len : Nat} : step (.consume len) s = .ok s' ↔
    (s.stack.head? = some (.inCallback .message) ∧ len ≤ s.conn.inputBuffer_.readableBytes) ∧
      ∃ b, s.conn.inputBuffer_.retrieve len = .ok b ∧ s' = { s with
        conn := { s.conn with inputBuffer_ := b }
        consumed := s.consumed ++ s.conn.inputBuffer_.content.take len } := by
  simp [step]

/-- The kernel completes the oldest read, and its bytes are received. -/
theorem receive_eq_ok {data : List UInt8} : step (.receive data) s = .ok s' ↔
    ∃ r, s.conn.receive data = some r ∧
      s' = { s.complete r with received := s.received ++ data } := by
  simp [step]

/-- The kernel fails the oldest read. -/
theorem readFails_eq_ok {e : ErrorCode} : step (.readFails e) s = .ok s' ↔
    ∃ r, s.conn.readFails e = some r ∧ s' = s.complete r := by
  simp [step]

/-- The kernel completes the oldest send, and its bytes are on the wire. -/
theorem transmit_eq_ok {k : Nat} {stale : List UInt8} : step (.transmit k stale) s = .ok s' ↔
    ∃ r, s.conn.transmit k stale = some r ∧
      s' = { s.complete (r.1, r.2.2) with wire := s.wire ++ r.2.1 } := by
  simp [step]

/-- The kernel fails the oldest send. -/
theorem sendFails_eq_ok {e : ErrorCode} : step (.sendFails e) s = .ok s' ↔
    ∃ r, s.conn.sendFails e = some r ∧ s' = s.complete r := by
  simp [step]

/-! ## The fields after an event -/

section Fields

variable (s : Session) (e : Effect) (r : TcpConnection × ConnTask) (t : ConnTask)

/-- An effect replaces the connection. -/
@[simp] theorem apply_conn : (s.apply e).conn = e.conn := rfl
@[simp] theorem apply_stack : (s.apply e).stack = e.calls ++ s.stack := rfl
@[simp] theorem apply_queue : (s.apply e).queue = s.queue ++ e.posts := rfl
@[simp] theorem apply_wire : (s.apply e).wire = s.wire := rfl
@[simp] theorem apply_accepted : (s.apply e).accepted = s.accepted := rfl
@[simp] theorem apply_acknowledged : (s.apply e).acknowledged = s.acknowledged := rfl
@[simp] theorem apply_received : (s.apply e).received = s.received := rfl
@[simp] theorem apply_consumed : (s.apply e).consumed = s.consumed := rfl
@[simp] theorem apply_downs : (s.apply e).downs = s.downs := rfl
@[simp] theorem apply_closes : (s.apply e).closes = s.closes := rfl

/-- Noting a task that is run changes what is remembered only. -/
@[simp] theorem noteTask_conn : (s.noteTask t).conn = s.conn := by
  unfold noteTask
  split <;> rfl

@[simp] theorem noteTask_stack : (s.noteTask t).stack = s.stack := by
  unfold noteTask
  split <;> rfl

@[simp] theorem noteTask_queue : (s.noteTask t).queue = s.queue := by
  unfold noteTask
  split <;> rfl

@[simp] theorem noteTask_wire : (s.noteTask t).wire = s.wire := by
  unfold noteTask
  split <;> rfl

@[simp] theorem noteTask_accepted : (s.noteTask t).accepted = s.accepted := by
  unfold noteTask
  split <;> rfl

@[simp] theorem noteTask_received : (s.noteTask t).received = s.received := by
  unfold noteTask
  split <;> rfl

@[simp] theorem noteTask_consumed : (s.noteTask t).consumed = s.consumed := by
  unfold noteTask
  split <;> rfl

variable (x : ConnCall)

/-- Noting a call changes what is remembered only. -/
@[simp] theorem noteCall_stack : (s.noteCall x).stack = s.stack := by
  cases x <;> rfl

@[simp] theorem noteCall_queue : (s.noteCall x).queue = s.queue := by
  cases x <;> rfl

@[simp] theorem noteCall_wire : (s.noteCall x).wire = s.wire := by
  cases x <;> rfl

@[simp] theorem noteCall_acknowledged : (s.noteCall x).acknowledged = s.acknowledged := by
  cases x <;> rfl

@[simp] theorem noteCall_received : (s.noteCall x).received = s.received := by
  cases x <;> rfl

@[simp] theorem noteCall_consumed : (s.noteCall x).consumed = s.consumed := by
  cases x <;> rfl

@[simp] theorem noteCall_downs : (s.noteCall x).downs = s.downs := by
  cases x <;> rfl

@[simp] theorem noteCall_closes : (s.noteCall x).closes = s.closes := by
  cases x <;> rfl

end Fields

/-! ## The pending tasks -/

/-- An effect puts its calls in front of the pending tasks and its functors behind them. -/
theorem tasks_apply (s : Session) (e : Effect) :
    (s.apply e).tasks = e.calls ++ s.tasks ++ e.posts.flatMap Functor.body := by
  simp [apply, tasks]

/-- A completion is the last of the pending tasks. -/
theorem tasks_complete (s : Session) (r : TcpConnection × ConnTask) :
    (s.complete r).tasks = s.tasks ++ [r.2] := by
  simp [complete, tasks, Functor.body]

/-- The pending tasks before and after running the one on top of the stack. -/
theorem tasks_cons {t : ConnTask} {rest : List ConnTask} (hs : s.stack = t :: rest) :
    s.tasks = t :: { s with stack := rest }.tasks := by
  simp [tasks, hs]

/-- A completion handler that is pending after an effect without handlers was pending before. -/
theorem handler_mem_tasks {t : ConnTask} {eff : Effect} (ht : t.isHandler = true)
    (htasks : ∀ u ∈ eff.tasks, u.isHandler = false) (h : t ∈ (s.apply eff).tasks) :
    t ∈ s.tasks := by
  have hno : t ∉ eff.tasks := by
    intro hmem
    rw [htasks t hmem] at ht
    cases ht
  rw [Effect.tasks, List.mem_append, not_or] at hno
  rw [tasks_apply] at h
  rcases List.mem_append.1 h with h | h
  · rcases List.mem_append.1 h with h | h
    · exact absurd h hno.1
    · exact h
  · exact absurd h hno.2

/-- Taking a functor from the queue leaves the pending tasks as they are. -/
theorem tasks_dequeue {f : Functor} {q : List Functor} (hs : s.stack = [])
    (hq : s.queue = f :: q) : { s with stack := f.body, queue := q }.tasks = s.tasks := by
  simp [tasks, hs, hq]

section Weight

variable (w : ConnTask → Nat)

/-- An effect adds the weight of its tasks. -/
theorem weigh_apply (s : Session) (e : Effect) :
    weigh w (s.apply e).tasks = weigh w s.tasks + weigh w e.tasks := by
  rw [tasks_apply, Effect.tasks, weigh_append, weigh_append, weigh_append]
  omega

/-- A completion adds the weight of its handler. -/
theorem weigh_complete (s : Session) (c : TcpConnection) (t : ConnTask) :
    weigh w (s.complete (c, t)).tasks = weigh w s.tasks + w t := by
  rw [tasks_complete, weigh_append, weigh_cons, weigh_nil, Nat.add_zero]

/-- Running a task takes away its weight and adds the weight of the tasks it creates. -/
theorem weigh_run {t : ConnTask} {rest : List ConnTask} (hs : s.stack = t :: rest) (e : Effect) :
    w t + weigh w ((noteTask { s with stack := rest } t).apply e).tasks =
      weigh w s.tasks + weigh w e.tasks := by
  have htasks : (noteTask { s with stack := rest } t).tasks = { s with stack := rest }.tasks := by
    simp [tasks]
  rw [weigh_apply, htasks, tasks_cons hs, weigh_cons, Nat.add_assoc]

end Weight

end Session

end LibNetToy
