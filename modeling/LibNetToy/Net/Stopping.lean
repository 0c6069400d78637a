import LibNetToy.Net.Frame

/-!
# A stopped connector

`Connector::stop` clears `connect_` and queues `stopInLoop`, and `start` and `restart` set
`connect_` again.  A success completion that is already queued when `stop` is called, or that
the kernel queues before `stopInLoop` has closed the socket, is delivered all the same:
`handleConnect` looks at the error only.

The runs in which this does not happen are those whose steps are `Timely`; in them nothing is
delivered after `stop`, and no closed socket is ever handed to the client.
-/

namespace LibNetToy

/-- The socket a work item hands to the client: the completion handler of a successful
attempt, or the callback it makes. -/
def Work.delivered : Work → Option SockId
  | .connector (.handleConnect k none) => some k
  | .client (.newConnection k) => some k
  | _ => none

namespace Process

/-- A work item that delivers the socket `k`. -/
def delivers (k : SockId) (w : Work) : Nat :=
  if w.delivered = some k then 1 else 0

/-- A work item that delivers some socket. -/
def deliversAny (w : Work) : Nat :=
  if w.delivered = none then 0 else 1

/-- A call of `start`, or `restart` sets `connect_`. -/
def starts (p : Process) : ProcessEvent → Prop
  | .clientCall _ .connect => True
  | .connectorCall _ .start => True
  | .run t _ => (p.stackOf t).head? = some (.connector .restart)
  | _ => False

/-- A call of `stop`. -/
def stops : ProcessEvent → Prop
  | .clientCall _ .stop | .connectorCall _ .stop => True
  | _ => False

/-- Whatever a thread is about to deliver, the connector was not stopped since it was started
last, and the socket was not closed. -/
structure DeliversNothingStopped (p : Process) : Prop where
  delivers : ∀ t w k, (p.stackOf t).head? = some w → w.delivered = some k →
    p.connector.connect_ = true ∧ k ∉ p.sockets.closed
  /-- A call of `stop` clears `connect_`. -/
  stopped : ∀ e q, stops e → processMachine.step e p = .ok q → q.connector.connect_ = false
  /-- Nothing sets `connect_` again but `start` and `restart`. -/
  lasts : ∀ e q, p.connector.connect_ = false → ¬ p.starts e →
    processMachine.step e p = .ok q → q.connector.connect_ = false

/-- No pending work delivers the socket that `retry` would close. -/
def RetriesUndelivered (p : Process) : Prop :=
  ∀ k ∈ p.connector.socketWeakPtr_, weigh (delivers k) p.pending = 0

instance (p : Process) : Decidable p.RetriesUndelivered :=
  inferInstanceAs (Decidable (∀ k ∈ p.connector.socketWeakPtr_, _ = 0))

/-- The work item abandons an attempt only if that has not succeeded. -/
def AbandonsTimely (p : Process) : Option Work → Prop
  | some (.connector .stopInLoop) =>
    p.connector.state_ = .kConnecting → p.RetriesUndelivered
  | some (.connector (.handleConnect _ (some _))) => p.RetriesUndelivered
  | _ => True

instance (p : Process) (w : Option Work) : Decidable (p.AbandonsTimely w) :=
  match w with
  | some (.connector .stopInLoop) => inferInstanceAs (Decidable (_ → p.RetriesUndelivered))
  | some (.connector (.handleConnect _ (some _))) =>
    inferInstanceAs (Decidable p.RetriesUndelivered)
  | some (.connector (.handleConnect _ none)) | some (.connector .startInLoop)
  | some (.connector .restart)
  | none | some (.conn _ _) | some (.bound _ _) | some (.setCloseCallback _)
  | some (.server _) | some (.client _) | some (.handleTimer _ _) | some (.eraseTimer _) =>
    isTrue trivial

/-- `stop` is called while no success is pending, an attempt succeeds only while the connector
is not stopped, and no attempt is abandoned whose success is pending. -/
def Timely (p : Process) : ProcessEvent → Prop
  | .clientCall _ .stop => weigh deliversAny p.pending = 0
  | .connectorCall _ .stop => weigh deliversAny p.pending = 0
  | .destroyClient _ => p.client.connection_ = none → weigh deliversAny p.pending = 0
  | .connectDone _ none => p.connector.connect_ = true
  | .run t _ => p.AbandonsTimely (p.stackOf t).head?
  | _ => True

instance (p : Process) (e : ProcessEvent) : Decidable (p.Timely e) :=
  match e with
  | .clientCall _ .stop | .connectorCall _ .stop => inferInstanceAs (Decidable (_ = 0))
  | .destroyClient _ => inferInstanceAs (Decidable (_ → _ = 0))
  | .connectDone _ none => inferInstanceAs (Decidable (p.connector.connect_ = true))
  | .run t _ => inferInstanceAs (Decidable (p.AbandonsTimely (p.stackOf t).head?))
  | .clientCall _ .connect | .clientCall _ .disconnect | .clientCall _ .enableRetry
  | .connectorCall _ .start | .connectorCall _ .restart | .connectDone _ (some _)
  | .dequeue _ | .return_ _ | .call _ _ _ | .keep _ _ | .keepConnection _ | .drop _ _
  | .consume _ _ _ | .receive _ _ | .readFails _ _ | .transmit _ _ _ | .sendFails _ _
  | .accept _ | .destroyServer _ | .timerExpires _ =>
    isTrue trivial

/-- No success is pending when the connector is stopped, nor for a closed socket. -/
structure Undelivered (p : Process) : Prop where
  stopped : p.connector.connect_ = false → weigh deliversAny p.pending = 0
  closed : ∀ k ∈ p.sockets.closed, weigh (delivers k) p.pending = 0

variable {p q : Process}

/-! ## Steps -/

/-- Work of others delivers no socket. -/
theorem delivers_ofConnector {k : SockId} {w : Work} (hw : w.ofConnector = false) :
    delivers k w = 0 := by
  have hnone : w.delivered = none := by
    unfold Work.delivered
    split
    · cases hw
    · cases hw
    · rfl
  simp [delivers, hnone]

/-- Work of others delivers nothing. -/
theorem deliversAny_ofConnector {w : Work} (hw : w.ofConnector = false) : deliversAny w = 0 := by
  have hnone : w.delivered = none := by
    unfold Work.delivered
    split
    · cases hw
    · cases hw
    · rfl
  simp [deliversAny, hnone]

/-- Nothing that matters has been added. -/
theorem Undelivered.mono (h : Undelivered p)
    (hconnect : q.connector.connect_ = p.connector.connect_)
    (hclosed : q.sockets.closed = p.sockets.closed)
    (hany : weigh deliversAny q.pending ≤ weigh deliversAny p.pending)
    (hone : ∀ k, weigh (delivers k) q.pending ≤ weigh (delivers k) p.pending) :
    Undelivered q := by
  constructor
  · intro hq
    have hp := h.stopped (hconnect ▸ hq)
    omega
  · intro k hk
    have hp := h.closed k (hclosed ▸ hk)
    have hle := hone k
    omega

/-- What the connector does not see delivers nothing. -/
theorem Undelivered.apart (h : Undelivered p) (ha : Apart p q) : Undelivered q := by
  apply h.mono
  · rw [ha.connector]
  · rw [ha.sockets]
  · exact Nat.le_of_eq (ha.pending deliversAny fun w => deliversAny_ofConnector)
  · intro k
    exact Nat.le_of_eq (ha.pending (delivers k) fun w => delivers_ofConnector)

/-- The other fields of the client deliver nothing. -/
theorem Undelivered.client (h : Undelivered p) (s : TcpClient) :
    Undelivered { p with client := s } :=
  ⟨h.stopped, h.closed⟩

/-- Beginning a work item delivers nothing. -/
theorem Undelivered.pop {t : ThreadId} {w : Work} {rest : List (ThreadId × Work)}
    (h : Undelivered p) (htake : Keyed.takeFirst t p.stack = some (w, rest)) :
    Undelivered { p with stack := rest } := by
  refine h.mono rfl rfl ?_ ?_
  · rw [weigh_pop deliversAny htake]
    exact Nat.le_add_left _ _
  · intro k
    rw [weigh_pop (delivers k) htake]
    exact Nat.le_add_left _ _

/-- Setting `connect_` leaves the closed sockets undelivered. -/
theorem Undelivered.start (h : Undelivered p) (hconnect : q.connector.connect_ = true)
    (hclosed : q.sockets.closed = p.sockets.closed)
    (hone : ∀ k, weigh (delivers k) q.pending ≤ weigh (delivers k) p.pending) :
    Undelivered q := by
  constructor
  · intro hq
    rw [hconnect] at hq
    cases hq
  · intro k hk
    have hp := h.closed k (hclosed ▸ hk)
    have hle := hone k
    omega

/-- A new attempt has not succeeded yet. -/
theorem Undelivered.startInLoop {t : ThreadId} (h : Undelivered p)
    (hrun : Connector.startInLoop p t = .ok q) : Undelivered q := by
  rcases Connector.startInLoop_eq_ok.1 hrun with ⟨-, ⟨-, -, rfl⟩ | ⟨-, rfl⟩⟩
  · exact h.mono rfl rfl (Nat.le_refl _) fun k => Nat.le_refl _
  · exact h

/-- `retry` closes a socket that nothing delivers. -/
theorem Undelivered.retry {held : Option SockId} (h : Undelivered p)
    (hweak : p.RetriesUndelivered) (hrun : Connector.retry p held = .ok q) : Undelivered q := by
  rcases Connector.retry_eq_ok.1 hrun with ⟨-, rfl⟩ | ⟨k, hk, -, -, ⟨-, rfl⟩ | ⟨-, rfl⟩⟩
  · exact h
  all_goals
    constructor
    · exact h.stopped
    · intro j hj
      rcases List.mem_cons.1 hj with rfl | hj
      · exact hweak j hk
      · exact h.closed j hj

/-- Cancelling a timer delivers nothing. -/
theorem Undelivered.cancel {timer : Option TimerId} (h : Undelivered p) :
    Undelivered (TimerQueue.cancel p timer) := by
  rcases TimerQueue.cancel_cases p timer with hc | ⟨id, -, -, hc⟩ | ⟨id, s, -, -, -, hc⟩
  · rw [hc]
    exact h
  · rw [hc]
    refine h.mono rfl rfl ?_ ?_
    · exact Nat.le_of_eq (weigh_post deliversAny _ _ _)
    · intro k
      exact Nat.le_of_eq (weigh_post (delivers k) _ _ _)
  · rw [hc]
    exact h.mono rfl rfl (Nat.le_refl _) fun k => Nat.le_refl _

/-- `stop` is called when nothing is to be delivered. -/
theorem Undelivered.stop (h : Undelivered p) (hnone : weigh deliversAny p.pending = 0) :
    Undelivered (Connector.stop p) := by
  refine Undelivered.cancel ⟨fun _ => ?_, ?_⟩
  · exact (weigh_post deliversAny p _ _).trans hnone
  · intro k hk
    exact (weigh_post (delivers k) p _ _).trans (h.closed k hk)

/-- `start` delivers nothing. -/
theorem Undelivered.of_start (h : Undelivered p) (t : ThreadId) :
    Undelivered (Connector.start p t) := by
  refine h.start rfl rfl ?_
  intro k
  unfold Connector.start
  rw [weigh_schedule, Nat.add_assoc, weigh_runInLoop]
  exact Nat.le_refl _

/-- The head of the stack that delivers nothing can be taken away. -/
theorem RetriesUndelivered.pop {t : ThreadId} {w : Work} {rest : List (ThreadId × Work)}
    (h : p.RetriesUndelivered) (htake : Keyed.takeFirst t p.stack = some (w, rest)) :
    ({ p with stack := rest } : Process).RetriesUndelivered := by
  intro k hk
  have hp := h k hk
  rw [weigh_pop (delivers k) htake] at hp
  omega

/-- The tasks of the connector deliver what they may. -/
theorem Undelivered.execConnector {t : ThreadId} {k : ConnectorTask}
    {rest : List (ThreadId × Work)} (h : Undelivered p)
    (htake : Keyed.takeFirst t p.stack = some (.connector k, rest))
    (htimely : p.AbandonsTimely (some (.connector k)))
    (hexec : Connector.exec { p with stack := rest } t k = .ok q) : Undelivered q := by
  obtain ⟨-, hexec⟩ := Connector.exec_eq_ok.1 hexec
  have hpop := h.pop htake
  cases k with
  | startInLoop => exact hpop.startInLoop hexec
  | stopInLoop =>
    obtain ⟨-, ⟨hstate, hexec⟩ | ⟨-, rfl⟩⟩ := Connector.stopInLoop_eq_ok.1 hexec
    · refine Undelivered.retry ?_ ?_ hexec
      · exact ⟨hpop.stopped, hpop.closed⟩
      · exact (htimely hstate).pop htake
    · exact hpop
  | restart =>
    obtain ⟨-, rfl⟩ := Connector.restart_eq_ok.1 hexec
    exact hpop.start rfl rfl fun k => Nat.le_refl _
  | handleConnect socket error =>
    cases error with
    | none =>
      obtain rfl := pure_eq_ok.1 hexec
      -- the callback delivers what the handler delivers
      refine h.mono rfl rfl ?_ ?_
      · rw [weigh_schedule, weigh_pop deliversAny htake]
        simp only [weigh_cons, weigh_nil, List.map_nil]
        have hsame : deliversAny (.client (.newConnection socket)) =
          deliversAny (.connector (.handleConnect socket none)) := rfl
        have hpending : ∀ x : Connector, weigh deliversAny
            ({ p with stack := rest, connector := x } : Process).pending =
              weigh deliversAny ({ p with stack := rest } : Process).pending := fun _ => rfl
        rw [hpending]
        omega
      · intro k
        rw [weigh_schedule, weigh_pop (delivers k) htake]
        simp only [weigh_cons, weigh_nil, List.map_nil]
        have hsame : delivers k (.client (.newConnection socket)) =
          delivers k (.connector (.handleConnect socket none)) := rfl
        have hpending : ∀ x : Connector, weigh (delivers k)
            ({ p with stack := rest, connector := x } : Process).pending =
              weigh (delivers k) ({ p with stack := rest } : Process).pending := fun _ => rfl
        rw [hpending]
        omega
    | some e =>
      refine Undelivered.retry ?_ ?_ hexec
      · exact ⟨hpop.stopped, hpop.closed⟩
      · exact RetriesUndelivered.pop htimely htake

/-- A work item delivers what it may. -/
theorem Undelivered.exec {t : ThreadId} {peer : List Char} {w : Work}
    {rest : List (ThreadId × Work)} (h : Undelivered p)
    (htake : Keyed.takeFirst t p.stack = some (w, rest))
    (htimely : p.AbandonsTimely (some w))
    (hexec : ({ p with stack := rest } : Process).exec t peer w = .ok q) : Undelivered q := by
  have hpop := h.pop htake
  by_cases hside : w.ofConnector = false
  · by_cases hremove : ∃ c, w = .client (.removeConnection c)
    · obtain ⟨c, rfl⟩ := hremove
      obtain ⟨-, hexec⟩ := exec_client_eq_ok.1 hexec
      obtain ⟨hconnector, -, hsockets, hpending⟩ := removeConnection_connector hexec
      refine hpop.mono (by rw [hconnector]) (by rw [hsockets]) ?_ ?_
      · rw [hpending deliversAny fun w => deliversAny_ofConnector]
        have hzero : deliversAny (.connector .restart) = 0 := rfl
        simp [hzero]
      · intro k
        rw [hpending (delivers k) fun w => delivers_ofConnector]
        have hzero : delivers k (.connector .restart) = 0 := rfl
        simp [hzero]
    · exact hpop.apart (exec_apart hexec hside fun c hc => hremove ⟨c, hc⟩)
  cases w with
  | conn | bound | setCloseCallback | server => exact absurd rfl hside
  | connector k => exact h.execConnector htake htimely hexec
  | client k =>
    obtain ⟨-, hexec⟩ := exec_client_eq_ok.1 hexec
    cases k with
    | removeConnection c => exact absurd rfl hside
    | destroyed => exact absurd rfl hside
    | newConnection socket =>
      obtain ⟨-, rfl⟩ := TcpClient.newConnection_eq_ok.1 hexec
      have hcalls : ∀ w ∈ releases p.client.connection_.toList ++
          [.conn p.nextConn .connectEstablished, .conn p.nextConn .release],
          w.ofConnector = false := by
        intro w hw
        rcases List.mem_append.1 hw with hw | hw
        · exact releases_ofConnector _ w hw
        · simp only [List.mem_cons, List.not_mem_nil, or_false] at hw
          rcases hw with rfl | rfl <;> rfl
      refine Undelivered.apart ?_ (Apart.schedule hcalls (by simp))
      exact ⟨hpop.stopped, hpop.closed⟩
  | handleTimer timer error =>
    obtain rfl := pure_eq_ok.1 hexec
    rcases TimerQueue.handleTimer_cases { p with stack := rest } t timer error with
      ⟨-, hq⟩ | ⟨-, -, hq⟩ | ⟨-, -, hq⟩
    · rw [hq]
      exact hpop
    · rw [hq]
      refine hpop.mono rfl rfl ?_ ?_
      · exact Nat.le_of_eq (weigh_schedule deliversAny _ _ _ _)
      · intro k
        exact Nat.le_of_eq (weigh_schedule (delivers k) _ _ _ _)
    · rw [hq]
      exact ⟨hpop.stopped, hpop.closed⟩
  | eraseTimer timer =>
    obtain rfl := pure_eq_ok.1 hexec
    exact ⟨hpop.stopped, hpop.closed⟩

/-- A timely step keeps the successes undelivered. -/
theorem Undelivered.step {e : ProcessEvent} (h : Undelivered p) (htimely : p.Timely e)
    (hstep : Process.step e p = .ok q) : Undelivered q := by
  by_cases he : e.onConnector = false
  · exact h.apart (step_apart hstep he)
  cases e with
  | run t peer =>
    obtain ⟨w, rest, htake, -, hexec⟩ := run_eq_ok.1 hstep
    have hw : p.AbandonsTimely (p.stackOf t).head? := htimely
    rw [head_stackOf htake] at hw
    exact h.exec htake hw hexec
  | clientCall t x =>
    obtain ⟨-, rfl⟩ := clientCall_eq_ok.1 hstep
    cases x with
    | connect => exact (h.client _).of_start t
    | stop => exact (h.client _).stop htimely
    | disconnect | enableRetry => exact absurd rfl he
  | connectorCall t x =>
    obtain ⟨-, rfl⟩ := connectorCall_eq_ok.1 hstep
    cases x with
    | start => exact h.of_start t
    | stop => exact h.stop htimely
    | restart =>
      refine h.mono rfl rfl ?_ ?_
      · exact Nat.le_of_eq (weigh_schedule deliversAny p t _ _)
      · intro k
        exact Nat.le_of_eq (weigh_schedule (delivers k) p t _ _)
  | destroyClient t =>
    obtain ⟨-, hstep⟩ := destroyClient_eq_ok.1 hstep
    cases hc : p.client.connection_ with
    | some c => exact h.apart (destructor_apart hc hstep)
    | none =>
      rcases TcpClient.destructor_eq_ok.1 hstep with ⟨-, rfl⟩ | ⟨c, hsome, -⟩
      · refine Undelivered.apart ?_ (Apart.schedule ?_ ?_)
        · exact (h.client _).stop (htimely hc)
        · simp [Work.ofConnector]
        · simp
      · rw [hc] at hsome
        cases hsome
  | connectDone socket error =>
    obtain ⟨⟨-, hclosed⟩, rfl⟩ := connectDone_eq_ok.1 hstep
    cases error with
    | none =>
      constructor
      · intro hq
        rw [show p.connector.connect_ = true from htimely] at hq
        cases hq
      · intro k hk
        have hne : socket ≠ k := by
          rintro rfl
          cases hclosed hk
        refine (weigh_post (delivers k) p _ _).trans ?_
        rw [h.closed k hk]
        simp [delivers, Work.delivered, hne]
    | some e =>
      refine h.mono rfl rfl ?_ ?_
      · exact Nat.le_of_eq (weigh_post deliversAny p _ _)
      · intro k
        exact Nat.le_of_eq (weigh_post (delivers k) p _ _)
  | timerExpires timer =>
    obtain ⟨-, rfl⟩ := timerExpires_eq_ok.1 hstep
    refine h.mono rfl rfl ?_ ?_
    · exact Nat.le_of_eq (weigh_post deliversAny p _ _)
    · intro k
      exact Nat.le_of_eq (weigh_post (delivers k) p _ _)
  | dequeue | return_ | call | keep | keepConnection | drop | consume | receive | readFails
  | transmit | sendFails | accept | destroyServer => exact absurd rfl he

/-! ## What `connect_` records -/

/-- `cancel` does not change the connector. -/
theorem cancel_connector (p : Process) (timer : Option TimerId) :
    (TimerQueue.cancel p timer).connector = p.connector := by
  rcases TimerQueue.cancel_cases p timer with hc | ⟨id, -, -, hc⟩ | ⟨id, s, -, -, -, hc⟩ <;>
    rw [hc]

/-- `stop` clears `connect_`. -/
theorem connect_stop (p : Process) : (Connector.stop p).connector.connect_ = false := by
  unfold Connector.stop
  rw [cancel_connector]

/-- `retry` leaves `connect_` alone. -/
theorem connect_retry {held : Option SockId} (h : Connector.retry p held = .ok q) :
    q.connector.connect_ = p.connector.connect_ := by
  rcases Connector.retry_eq_ok.1 h with ⟨-, rfl⟩ | ⟨k, -, -, -, ⟨-, rfl⟩ | ⟨-, rfl⟩⟩ <;> rfl

/-- So do all tasks of the connector but `restart`. -/
theorem connect_execConnector {t : ThreadId} {k : ConnectorTask}
    (h : Connector.exec p t k = .ok q) (hk : k ≠ .restart) :
    q.connector.connect_ = p.connector.connect_ := by
  obtain ⟨-, h⟩ := Connector.exec_eq_ok.1 h
  cases k with
  | startInLoop =>
    rcases Connector.startInLoop_eq_ok.1 h with ⟨-, ⟨-, -, rfl⟩ | ⟨-, rfl⟩⟩ <;> rfl
  | stopInLoop =>
    rcases Connector.stopInLoop_eq_ok.1 h with ⟨-, ⟨-, h⟩ | ⟨-, rfl⟩⟩
    · exact (connect_retry h).trans rfl
    · rfl
  | restart => exact absurd rfl hk
  | handleConnect socket error =>
    cases error with
    | none =>
      obtain rfl := pure_eq_ok.1 h
      rfl
    | some e =>
      have hretry : Connector.retry { p with connector :=
        { p.connector with state_ := .kDisconnected } } (some socket) = .ok q := h
      exact (connect_retry hretry).trans rfl

/-- A call of `stop` that has returned. -/
theorem connect_of_stops {e : ProcessEvent} (hstops : stops e)
    (hstep : Process.step e p = .ok q) : q.connector.connect_ = false := by
  cases e with
  | clientCall t x =>
    obtain ⟨-, rfl⟩ := clientCall_eq_ok.1 hstep
    cases x with
    | stop => exact connect_stop _
    | connect | disconnect | enableRetry => cases hstops
  | connectorCall t x =>
    obtain ⟨-, rfl⟩ := connectorCall_eq_ok.1 hstep
    cases x with
    | stop => exact connect_stop _
    | start | restart => cases hstops
  | _ => cases hstops

/-- From a call of `stop` on until the next call of `start` or `restart`, `connect_` is
false. -/
theorem connect_stays_false {e : ProcessEvent} (hfalse : p.connector.connect_ = false)
    (hstarts : ¬ p.starts e) (hstep : Process.step e p = .ok q) :
    q.connector.connect_ = false := by
  by_cases he : e.onConnector = false
  · rw [(step_apart hstep he).connector]
    exact hfalse
  cases e with
  | run t peer =>
    obtain ⟨w, rest, htake, -, hexec⟩ := run_eq_ok.1 hstep
    by_cases hside : w.ofConnector = false
    · by_cases hremove : ∃ c, w = .client (.removeConnection c)
      · obtain ⟨c, rfl⟩ := hremove
        obtain ⟨-, hexec⟩ := exec_client_eq_ok.1 hexec
        rw [(removeConnection_connector hexec).1]
        exact hfalse
      · rw [(exec_apart hexec hside fun c hc => hremove ⟨c, hc⟩).connector]
        exact hfalse
    cases w with
    | conn | bound | setCloseCallback | server => exact absurd rfl hside
    | connector k =>
      have hk : k ≠ .restart := by
        rintro rfl
        exact hstarts (head_stackOf htake)
      exact (connect_execConnector hexec hk).trans hfalse
    | client k =>
      obtain ⟨-, hexec⟩ := exec_client_eq_ok.1 hexec
      cases k with
      | removeConnection c => exact absurd rfl hside
      | destroyed => exact absurd rfl hside
      | newConnection socket =>
        obtain ⟨-, rfl⟩ := TcpClient.newConnection_eq_ok.1 hexec
        exact hfalse
    | handleTimer timer error =>
      obtain rfl := pure_eq_ok.1 hexec
      rcases TimerQueue.handleTimer_cases { p with stack := rest } t timer error with
        ⟨-, hq⟩ | ⟨-, -, hq⟩ | ⟨-, -, hq⟩ <;>
        · rw [hq]
          exact hfalse
    | eraseTimer timer =>
      obtain rfl := pure_eq_ok.1 hexec
      exact hfalse
  | clientCall t x =>
    obtain ⟨-, rfl⟩ := clientCall_eq_ok.1 hstep
    cases x with
    | connect => exact absurd trivial hstarts
    | stop => exact connect_stop _
    | disconnect | enableRetry => exact absurd rfl he
  | connectorCall t x =>
    obtain ⟨-, rfl⟩ := connectorCall_eq_ok.1 hstep
    cases x with
    | start => exact absurd trivial hstarts
    | stop => exact connect_stop _
    | restart => exact hfalse
  | destroyClient t =>
    obtain ⟨-, hstep⟩ := destroyClient_eq_ok.1 hstep
    cases hc : p.client.connection_ with
    | some c =>
      rw [(destructor_apart hc hstep).connector]
      exact hfalse
    | none =>
      rcases TcpClient.destructor_eq_ok.1 hstep with ⟨-, rfl⟩ | ⟨c, hsome, -⟩
      · exact connect_stop _
      · rw [hc] at hsome
        cases hsome
  | connectDone socket error =>
    obtain ⟨-, rfl⟩ := connectDone_eq_ok.1 hstep
    exact hfalse
  | timerExpires timer =>
    obtain ⟨-, rfl⟩ := timerExpires_eq_ok.1 hstep
    exact hfalse
  | dequeue | return_ | call | keep | keepConnection | drop | consume | receive | readFails
  | transmit | sendFails | accept | destroyServer => exact absurd rfl he

/-! ## The results -/

/-- Nothing is to be delivered at first. -/
theorem undelivered_initial (hp : processMachine.init p) : Undelivered p := by
  obtain ⟨baseLoop, pool, clientLoop, ipPort, serverName, clientName, m, w, -, -, rfl⟩ := hp
  constructor
  · intro _
    rfl
  · intro k hk
    cases hk

/-- In a run whose steps are timely nothing is delivered from a call of `stop` on until the next
call of `start` or `restart`, and no closed socket is. -/
theorem deliversNothingStopped_of_timely (hp : processMachine.ReachableUnder Timely p) :
    p.DeliversNothingStopped := by
  have h : Undelivered p :=
    hp.invariant (fun _ => undelivered_initial) fun _ _ _ h hC hstep => h.step hC hstep
  refine ⟨fun t w k hhead hw => ?_, fun _ _ => connect_of_stops,
    fun _ _ hfalse hstarts => connect_stays_false hfalse hstarts⟩
  have hmem := mem_pending_of_head hhead
  constructor
  · by_contra hconnect
    have hzero := weigh_eq_zero.1 (h.stopped (by simpa using hconnect)) w hmem
    simp [deliversAny, hw] at hzero
  · intro hclosed
    have hzero := weigh_eq_zero.1 (h.closed k hclosed) w hmem
    simp [Process.delivers, hw] at hzero

/-- An attempt is stopped and its completion is an abort; the next one is delivered. -/
theorem deliversNothingStopped_restarted : ∃ p : Process,
    (p.stackOf 0).head? = some (.connector (.handleConnect 1 none)) ∧
      p.DeliversNothingStopped := by
  have hinit : processMachine.init (initial 1 [] 0 [] [] [] false false) :=
    ⟨1, [], 0, [], [], [], false, false, by simp, by simp, rfl⟩
  obtain ⟨p, hp, hobs⟩ := Machine.exists_of_run (C := Timely) hinit
    (l := [.clientCall 0 .connect, .run 0 [], .clientCall 0 .stop, .dequeue 0, .run 0 [],
      .connectDone 0 (some .operationAborted), .dequeue 0, .run 0 [], .clientCall 0 .connect,
      .run 0 [], .connectDone 1 none, .dequeue 0])
    (f := fun p => (p.stackOf 0).head?) (a := some (.connector (.handleConnect 1 none)))
    (by decide +kernel)
  exact ⟨p, hobs, deliversNothingStopped_of_timely hp⟩

/-- An attempt succeeds after `stop` was called and before `stopInLoop` runs: the completion
is not an abort, and it hands the socket over that `stopInLoop` has closed. -/
theorem not_deliversNothingStopped :
    ¬ ∀ p, processMachine.Reachable p → p.DeliversNothingStopped := by
  intro hall
  have hinit : processMachine.init (initial 1 [] 0 [] [] [] false false) :=
    ⟨1, [], 0, [], [], [], false, false, by simp, by simp, rfl⟩
  obtain ⟨p, hp, hobs⟩ := Machine.exists_of_run (C := fun _ _ => True) hinit
    (l := [.clientCall 0 .connect, .run 0 [], .clientCall 0 .stop, .connectDone 0 none,
      .dequeue 0, .run 0 [], .dequeue 0])
    (f := fun p => ((p.stackOf 0).head?, p.connector.connect_, p.sockets.closed))
    (a := (some (.connector (.handleConnect 0 none)), false, [0])) (by decide +kernel)
  obtain ⟨hhead, hrest⟩ := Prod.mk.inj hobs
  obtain ⟨hconnect, -⟩ := Prod.mk.inj hrest
  have htrue := ((hall p hp).delivers 0 _ 0 hhead rfl).1
  rw [hconnect] at htrue
  cases htrue

end Process

end LibNetToy
