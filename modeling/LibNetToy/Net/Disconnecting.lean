import LibNetToy.Net.ConnectAttempts
import LibNetToy.Net.Stopping

/-!
# A client that was disconnected

`TcpClient::disconnect` clears the `connect_` of the client, so the client does not reconnect when
its connection is removed.  The connector has a `connect_` of its own that only `stop` clears:
an attempt, a timer or a call of `startInLoop` that is under way when `disconnect` is called goes
on, and leads to a connection.  `disconnect` lasts when the connector is `Settled`.
-/

namespace LibNetToy

/-- The user asks for a connection. -/
def ProcessEvent.connects : ProcessEvent → Bool
  | .clientCall _ .connect => true
  | .connectorCall _ .start => true
  | .connectorCall _ .restart => true
  | _ => false

/-- The work item can lead to an attempt or a connection. -/
def Work.leads : Work → Bool
  | .connector .startInLoop => true
  | .connector .restart => true
  | .connector (.handleConnect _ _) => true
  | .client (.newConnection _) => true
  | .handleTimer _ none => true
  | _ => false

namespace Process

/-- No thread is about to make a connection, and the next step starts no attempt unless the
user asks for it. -/
structure DisconnectLasts (p : Process) : Prop where
  noConnection : ∀ t k, (p.stackOf t).head? ≠ some (.client (.newConnection k))
  noAttempt : ∀ e q, e.connects = false → step e p = .ok q →
    q.sockets.nextSocket = p.sockets.nextSocket

/-- When `disconnect` is called it lasts until the user asks for a connection. -/
def DisconnectIsLasting (p : Process) : Prop :=
  ∀ t q r, step (.clientCall t .disconnect) p = .ok q →
    (processMachine.startedAt q).ReachableUnder (fun _ e => e.connects = false) r →
    r.DisconnectLasts

/-- No call of `startInLoop`, no attempt and no timer is under way. -/
def Quiet (p : Process) : Prop :=
  weigh starting p.pending = 0 ∧ p.outstanding (fun _ => true) = 0 ∧
    p.connector.state_ ≠ .kConnecting ∧
    ∀ e ∈ p.timers.timerQueue_, e.2 = .running ∧ weigh (fires e.1) p.pending = 0

instance (p : Process) : Decidable p.Quiet :=
  inferInstanceAs (Decidable (_ ∧ _))

/-- No `restart` is to be made, every attempt is abandoned and none has succeeded, and the
connector is stopped or has nothing under way. -/
def Settled (p : Process) : Prop :=
  weigh restarting p.pending = 0 ∧ weigh deliversAny p.pending = 0 ∧
    (∀ k ∈ p.sockets.connecting, k ∈ p.sockets.closed) ∧
    (p.connector.connect_ = true → p.Quiet)

instance (p : Process) : Decidable p.Settled :=
  inferInstanceAs (Decidable (_ ∧ _))

variable {p q : Process}

/-! ## Steps of a settled connector -/

/-- Nothing that can lead to an attempt has been added. -/
def Fewer (p q : Process) : Prop :=
  ∀ f : Work → Nat, (∀ w, w.leads = false → f w = 0) → weigh f q.pending ≤ weigh f p.pending

/-- Only work of the connector leads to an attempt. -/
theorem leads_ofConnector {w : Work} (hw : w.ofConnector = false) : w.leads = false := by
  unfold Work.leads
  split <;> first | cases hw | rfl

/-- Work that does not lead to an attempt is no call of `startInLoop`. -/
theorem starting_leads {w : Work} (hw : w.leads = false) : starting w = 0 := by
  unfold starting
  split
  · cases hw
  · rfl

/-- Work that does not lead to an attempt is no call of `restart`. -/
theorem restarting_leads {w : Work} (hw : w.leads = false) : restarting w = 0 := by
  unfold restarting
  split
  · cases hw
  · rfl

/-- Work that does not lead to an attempt completes none. -/
theorem completes_leads {P : SockId → Bool} {w : Work} (hw : w.leads = false) :
    completes P w = 0 := by
  unfold completes
  split
  · cases hw
  · rfl

/-- Work that does not lead to an attempt is no handler of a timer. -/
theorem fires_leads {id : TimerId} {w : Work} (hw : w.leads = false) : fires id w = 0 := by
  unfold fires
  split
  · cases hw
  · rfl

/-- Work that does not lead to an attempt delivers nothing. -/
theorem deliversAny_leads {w : Work} (hw : w.leads = false) : deliversAny w = 0 := by
  have hnone : w.delivered = none := by
    unfold Work.delivered
    split
    · cases hw
    · cases hw
    · rfl
  simp [deliversAny, hnone]

/-- Less is pending when a work item is taken from its stack. -/
theorem Fewer.pop {t : ThreadId} {w : Work} {rest : List (ThreadId × Work)}
    (htake : Keyed.takeFirst t p.stack = some (w, rest)) : Fewer p { p with stack := rest } := by
  intro f _
  rw [weigh_pop f htake]
  exact Nat.le_add_left _ _

/-- Work is put in that does not lead to an attempt. -/
theorem Fewer.schedule {t : ThreadId} {calls : List Work} {posts : List (LoopId × Work)}
    (hcalls : ∀ w ∈ calls, w.leads = false) (hposts : ∀ e ∈ posts, e.2.leads = false) :
    Fewer p (p.schedule t calls posts) := by
  have hsame : SamePending Work.leads p (p.schedule t calls posts) :=
    SamePending.schedule hcalls hposts
  exact fun f hf => Nat.le_of_eq (hsame f hf)

/-- What the connector does not see adds nothing that leads to an attempt. -/
theorem Fewer.apart (h : Apart p q) : Fewer p q :=
  fun f hf => Nat.le_of_eq (h.pending f fun w hw => hf w (leads_ofConnector hw))

/-- A stopped connector stays settled. -/
theorem Settled.off (h : Settled p) (hconnect : q.connector.connect_ = false)
    (hrestart : weigh restarting q.pending ≤ weigh restarting p.pending)
    (hdelivers : weigh deliversAny q.pending ≤ weigh deliversAny p.pending)
    (hclosed : ∀ k ∈ q.sockets.connecting, k ∈ q.sockets.closed) : Settled q := by
  obtain ⟨hr, hd, -, -⟩ := h
  refine ⟨by omega, by omega, hclosed, ?_⟩
  rw [hconnect]
  exact nofun

/-- The attempts stay as they are, and no timer is added. -/
theorem Settled.fewer (h : Settled p) (hconnector : q.connector = p.connector)
    (hsockets : q.sockets = p.sockets)
    (htimers : ∀ e ∈ q.timers.timerQueue_, e ∈ p.timers.timerQueue_)
    (hfewer : Fewer p q) : Settled q := by
  obtain ⟨hr, hd, hclosed, hquiet⟩ := h
  have hle := fun f hf => hfewer f hf
  refine ⟨?_, ?_, ?_, ?_⟩
  · exact Nat.le_zero.1 (hr ▸ hle restarting fun w => restarting_leads)
  · exact Nat.le_zero.1 (hd ▸ hle deliversAny fun w => deliversAny_leads)
  · rw [hsockets]
    exact hclosed
  · rw [hconnector]
    intro hconnect
    obtain ⟨hstarting, hout, hstate, hrunning⟩ := hquiet hconnect
    refine ⟨?_, ?_, ?_, ?_⟩
    · exact Nat.le_zero.1 (hstarting ▸ hle starting fun w => starting_leads)
    · unfold outstanding at hout ⊢
      have hcompletes := hle (completes fun _ => true) fun w => completes_leads
      rw [hsockets]
      omega
    · rw [hconnector]
      exact hstate
    · intro e he
      obtain ⟨hrun, hfires⟩ := hrunning e (htimers e he)
      exact ⟨hrun, Nat.le_zero.1 (hfires ▸ hle (fires e.1) fun w => fires_leads)⟩

/-- What the connector does not see does not unsettle it. -/
theorem Settled.apart (h : Settled p) (ha : Apart p q) : Settled q :=
  h.fewer ha.connector ha.sockets (fun _ he => ha.timers ▸ he) (Fewer.apart ha)

/-- Beginning a work item does not unsettle the connector. -/
theorem Settled.pop {t : ThreadId} {w : Work} {rest : List (ThreadId × Work)} (h : Settled p)
    (htake : Keyed.takeFirst t p.stack = some (w, rest)) : Settled { p with stack := rest } :=
  h.fewer rfl rfl (fun _ he => he) (Fewer.pop htake)

/-- Cancelling a timer adds no timer and no call. -/
theorem fewer_cancel (p : Process) (timer : Option TimerId) :
    Fewer p (TimerQueue.cancel p timer) ∧
      (∀ e ∈ (TimerQueue.cancel p timer).timers.timerQueue_, e ∈ p.timers.timerQueue_) ∧
      (TimerQueue.cancel p timer).sockets = p.sockets := by
  rcases TimerQueue.cancel_cases p timer with hc | ⟨id, -, -, hc⟩ | ⟨id, s, -, -, -, hc⟩
  · rw [hc]
    exact ⟨fun _ _ => Nat.le_refl _, fun _ he => he, rfl⟩
  · rw [hc]
    refine ⟨?_, fun e he => (AssocMap.mem_erase.1 he).1, rfl⟩
    intro f hf
    refine Nat.le_of_eq ((weigh_post f p _ _).trans ?_)
    rw [hf _ rfl, Nat.add_zero]
  · rw [hc]
    exact ⟨fun _ _ => Nat.le_refl _, fun e he => (AssocMap.mem_erase.1 he).1, rfl⟩

/-- `stop` does not unsettle the connector. -/
theorem Settled.stop (h : Settled p) :
    Settled (Connector.stop p) ∧ (Connector.stop p).sockets = p.sockets := by
  obtain ⟨hfewer, -, hsockets⟩ := fewer_cancel { p with
      connector := { p.connector with connect_ := false }
      queue := p.queue ++ [(p.connector.loop_, .connector .stopInLoop)] }
      p.connector.reConnectTimer_
  have hpost : ∀ f : Work → Nat, (∀ w, w.leads = false → f w = 0) →
      weigh f (Connector.stop p).pending ≤ weigh f p.pending := by
    intro f hf
    refine Nat.le_trans (hfewer f hf) (Nat.le_of_eq ((weigh_post f p _ _).trans ?_))
    rw [hf _ rfl, Nat.add_zero]
  refine ⟨?_, hsockets⟩
  refine h.off (connect_stop p) (hpost _ fun w => restarting_leads)
    (hpost _ fun w => deliversAny_leads) ?_
  rw [show (Connector.stop p).sockets = p.sockets from hsockets]
  exact h.2.2.1

/-- The only attempt that a stopped connector makes with `retry` is to close a socket. -/
theorem Settled.retry {held : Option SockId} (h : Settled p)
    (hconnect : p.connector.connect_ = false) (hretry : Connector.retry p held = .ok q) :
    Settled q ∧ q.sockets.nextSocket = p.sockets.nextSocket := by
  rcases Connector.retry_eq_ok.1 hretry with ⟨-, rfl⟩ | ⟨k, -, -, -, ⟨hyes, -⟩ | ⟨-, rfl⟩⟩
  · exact ⟨h, rfl⟩
  · rw [hconnect] at hyes
    cases hyes
  · refine ⟨h.off hconnect (Nat.le_refl _) (Nat.le_refl _) ?_, rfl⟩
    exact fun j hj => List.mem_cons_of_mem _ (h.2.2.1 j hj)

/-- A task of a settled connector starts no attempt. -/
theorem Settled.execConnector {t : ThreadId} {k : ConnectorTask}
    {rest : List (ThreadId × Work)} (h : Settled p)
    (htake : Keyed.takeFirst t p.stack = some (.connector k, rest))
    (hexec : Connector.exec { p with stack := rest } t k = .ok q) :
    Settled q ∧ q.sockets.nextSocket = p.sockets.nextSocket := by
  obtain ⟨-, hexec⟩ := Connector.exec_eq_ok.1 hexec
  have hmem := mem_pending_of_head (head_stackOf htake)
  have hpop := h.pop htake
  obtain ⟨hrestart, hdelivers, -, hquiet⟩ := h
  cases k with
  | startInLoop =>
    rcases Connector.startInLoop_eq_ok.1 hexec with ⟨-, ⟨hconnect, -⟩ | ⟨-, rfl⟩⟩
    · have hzero := weigh_eq_zero.1 (hquiet hconnect).1 _ hmem
      cases hzero
    · exact ⟨hpop, rfl⟩
  | stopInLoop =>
    obtain ⟨-, ⟨hstate, hretry⟩ | ⟨-, rfl⟩⟩ := Connector.stopInLoop_eq_ok.1 hexec
    · have hconnect : p.connector.connect_ = false := by
        by_contra hyes
        exact (hquiet (by simpa using hyes)).2.2.1 hstate
      refine Settled.retry (p := { p with
        stack := rest
        connector := { p.connector with state_ := .kDisconnected } }) ?_ hconnect hretry
      exact hpop.off hconnect (Nat.le_refl _) (Nat.le_refl _) hpop.2.2.1
    · exact ⟨hpop, rfl⟩
  | restart =>
    have hzero := weigh_eq_zero.1 hrestart _ hmem
    cases hzero
  | handleConnect socket error =>
    cases error with
    | none =>
      have hzero := weigh_eq_zero.1 hdelivers _ hmem
      simp [deliversAny, Work.delivered] at hzero
    | some e =>
      have hconnect : p.connector.connect_ = false := by
        by_contra hyes
        have hout := (hquiet (by simpa using hyes)).2.1
        have hzero : weigh (completes fun _ => true) p.pending = 0 := by
          unfold outstanding at hout
          omega
        have hone := weigh_eq_zero.1 hzero _ hmem
        simp [completes] at hone
      refine Settled.retry (p := { p with
        stack := rest
        connector := { p.connector with state_ := .kDisconnected } }) ?_ hconnect hexec
      exact hpop.off hconnect (Nat.le_refl _) (Nat.le_refl _) hpop.2.2.1

/-- Without an armed timer the handler of one starts no attempt. -/
theorem Settled.handleTimer {t : ThreadId} {id : TimerId} {error : Option ErrorCode}
    {rest : List (ThreadId × Work)} (h : Settled p)
    (htake : Keyed.takeFirst t p.stack = some (.handleTimer id error, rest)) :
    Settled (TimerQueue.handleTimer { p with stack := rest } t id error) ∧
      (TimerQueue.handleTimer { p with stack := rest } t id error).sockets = p.sockets := by
  have hpop := h.pop htake
  rcases TimerQueue.handleTimer_cases { p with stack := rest } t id error with
    ⟨-, hq⟩ | ⟨hsome, rfl, hq⟩ | ⟨-, -, hq⟩
  · rw [hq]
    exact ⟨hpop, rfl⟩
  · rw [hq]
    have hconnect : p.connector.connect_ = false := by
      by_contra hyes
      obtain ⟨s, hs⟩ := Option.ne_none_iff_exists'.1 hsome
      have hfires := ((h.2.2.2 (by simpa using hyes)).2.2.2 _ (AssocMap.mem_of_lookup hs)).2
      have hone := weigh_eq_zero.1 hfires _ (mem_pending_of_head (head_stackOf htake))
      simp [fires] at hone
    refine ⟨hpop.off hconnect ?_ ?_ hpop.2.2.1, rfl⟩
    · rw [weigh_schedule]
      exact Nat.le_refl _
    · rw [weigh_schedule]
      exact Nat.le_refl _
  · rw [hq]
    refine ⟨hpop.fewer rfl rfl (fun e he => (AssocMap.mem_erase.1 he).1) ?_, rfl⟩
    exact fun _ _ => Nat.le_refl _

/-- Running a work item of a settled connector whose client does not reconnect. -/
theorem Settled.exec {t : ThreadId} {peer : List Char} {w : Work}
    {rest : List (ThreadId × Work)} (h : Settled p) (hclient : p.client.connect_ = false)
    (htake : Keyed.takeFirst t p.stack = some (w, rest))
    (hexec : ({ p with stack := rest } : Process).exec t peer w = .ok q) :
    Settled q ∧ q.sockets.nextSocket = p.sockets.nextSocket := by
  have hpop := h.pop htake
  by_cases hside : w.ofConnector = false
  · by_cases hremove : ∃ c, w = .client (.removeConnection c)
    · obtain ⟨c, rfl⟩ := hremove
      obtain ⟨-, hexec⟩ := exec_client_eq_ok.1 hexec
      obtain ⟨hconnector, htimers, hsockets, hpending⟩ := removeConnection_connector hexec
      refine ⟨hpop.fewer hconnector hsockets (fun _ he => htimers ▸ he) ?_, by rw [hsockets]⟩
      intro f hf
      rw [hpending f fun w hw => hf w (leads_ofConnector hw)]
      simp [hclient]
    · have hapart := exec_apart hexec hside fun c hc => hremove ⟨c, hc⟩
      exact ⟨hpop.apart hapart, by rw [hapart.sockets]⟩
  cases w with
  | conn | bound | setCloseCallback | server => exact absurd rfl hside
  | connector k => exact h.execConnector htake hexec
  | client k =>
    cases k with
    | removeConnection c => exact absurd rfl hside
    | destroyed => exact absurd rfl hside
    | newConnection socket =>
      have hmem := mem_pending_of_head (head_stackOf htake)
      have hzero := weigh_eq_zero.1 h.2.1 _ hmem
      simp [deliversAny, Work.delivered] at hzero
  | handleTimer timer error =>
    obtain rfl := pure_eq_ok.1 hexec
    obtain ⟨hsettled, hsockets⟩ := h.handleTimer htake
    exact ⟨hsettled, by rw [hsockets]⟩
  | eraseTimer timer =>
    obtain rfl := pure_eq_ok.1 hexec
    refine ⟨hpop.fewer rfl rfl (fun e he => (AssocMap.mem_erase.1 he).1) ?_, rfl⟩
    exact fun _ _ => Nat.le_refl _

/-- A settled connector stays settled and starts no attempt until `connect` is called. -/
theorem Settled.step {e : ProcessEvent} (h : Settled p) (hclient : p.client.connect_ = false)
    (he : e.connects = false) (hstep : Process.step e p = .ok q) :
    Settled q ∧ q.sockets.nextSocket = p.sockets.nextSocket := by
  by_cases hon : e.onConnector = false
  · have hapart := step_apart hstep hon
    exact ⟨h.apart hapart, by rw [hapart.sockets]⟩
  cases e with
  | run t peer =>
    obtain ⟨w, rest, htake, -, hexec⟩ := run_eq_ok.1 hstep
    exact h.exec hclient htake hexec
  | clientCall t x =>
    obtain ⟨-, rfl⟩ := clientCall_eq_ok.1 hstep
    cases x with
    | connect => cases he
    | stop =>
      have hset := h.apart (Apart.client (s := { p.client with connect_ := false }))
      obtain ⟨hsettled, hsockets⟩ := hset.stop
      exact ⟨hsettled, congrArg Sockets.nextSocket hsockets⟩
    | disconnect | enableRetry => exact absurd rfl hon
  | connectorCall t x =>
    obtain ⟨-, rfl⟩ := connectorCall_eq_ok.1 hstep
    cases x with
    | start | restart => cases he
    | stop =>
      obtain ⟨hsettled, hsockets⟩ := h.stop
      exact ⟨hsettled, congrArg Sockets.nextSocket hsockets⟩
  | destroyClient t =>
    obtain ⟨-, hstep⟩ := destroyClient_eq_ok.1 hstep
    cases hc : p.client.connection_ with
    | some c =>
      have hapart := destructor_apart hc hstep
      exact ⟨h.apart hapart, by rw [hapart.sockets]⟩
    | none =>
      rcases TcpClient.destructor_eq_ok.1 hstep with ⟨-, rfl⟩ | ⟨c, hsome, -⟩
      · have hset := h.apart (Apart.client (s := { p.client with life := .destructing }))
        obtain ⟨hsettled, hsockets⟩ := hset.stop
        refine ⟨hsettled.apart (Apart.schedule ?_ nofun), congrArg Sockets.nextSocket hsockets⟩
        simp [Work.ofConnector]
      · rw [hc] at hsome
        cases hsome
  | connectDone socket error =>
    obtain ⟨⟨hmem, habort⟩, rfl⟩ := connectDone_eq_ok.1 hstep
    obtain rfl := habort (h.2.2.1 socket hmem)
    have hconnect : p.connector.connect_ = false := by
      by_contra hyes
      have hout := (h.2.2.2 (by simpa using hyes)).2.1
      have hpos : 0 < p.sockets.connecting.countP fun _ => true :=
        List.countP_pos_iff.2 ⟨socket, hmem, rfl⟩
      unfold outstanding at hout
      omega
    refine ⟨h.off hconnect ?_ ?_ ?_, rfl⟩
    · exact Nat.le_of_eq (weigh_post restarting p _ _)
    · exact Nat.le_of_eq (weigh_post deliversAny p _ _)
    · exact fun k hk => h.2.2.1 k (List.mem_of_mem_erase hk)
  | timerExpires timer =>
    obtain ⟨hwaiting, rfl⟩ := timerExpires_eq_ok.1 hstep
    have hconnect : p.connector.connect_ = false := by
      by_contra hyes
      have hrun := (h.2.2.2 (by simpa using hyes)).2.2.2 _ (AssocMap.mem_of_lookup hwaiting)
      cases hrun.1
    refine ⟨h.off hconnect ?_ ?_ h.2.2.1, rfl⟩
    · exact Nat.le_of_eq (weigh_post restarting p _ _)
    · exact Nat.le_of_eq (weigh_post deliversAny p _ _)
  | dequeue | return_ | call | keep | keepConnection | drop | consume | receive | readFails
  | transmit | sendFails | accept | destroyServer => exact absurd rfl hon

/-! ## The wish of the client -/

/-- `retry` does not change the client. -/
theorem client_retry {held : Option SockId} (h : Connector.retry p held = .ok q) :
    q.client = p.client := by
  rcases Connector.retry_eq_ok.1 h with ⟨-, rfl⟩ | ⟨k, -, -, -, ⟨-, rfl⟩ | ⟨-, rfl⟩⟩ <;> rfl

/-- `cancel` does not change the client. -/
theorem client_cancel (p : Process) (timer : Option TimerId) :
    (TimerQueue.cancel p timer).client = p.client := by
  rcases TimerQueue.cancel_cases p timer with hc | ⟨id, -, -, hc⟩ | ⟨id, s, -, -, -, hc⟩ <;>
    rw [hc]

/-- The tasks of the connector do not change the client. -/
theorem client_execConnector {t : ThreadId} {k : ConnectorTask}
    (h : Connector.exec p t k = .ok q) : q.client = p.client := by
  obtain ⟨-, h⟩ := Connector.exec_eq_ok.1 h
  cases k with
  | startInLoop =>
    rcases Connector.startInLoop_eq_ok.1 h with ⟨-, ⟨-, -, rfl⟩ | ⟨-, rfl⟩⟩ <;> rfl
  | stopInLoop =>
    rcases Connector.stopInLoop_eq_ok.1 h with ⟨-, ⟨-, h⟩ | ⟨-, rfl⟩⟩
    · exact (client_retry h).trans rfl
    · rfl
  | restart =>
    obtain ⟨-, rfl⟩ := Connector.restart_eq_ok.1 h
    rfl
  | handleConnect socket error =>
    cases error with
    | none =>
      obtain rfl := pure_eq_ok.1 h
      rfl
    | some e => exact (client_retry (p := { p with connector :=
        { p.connector with state_ := .kDisconnected } }) h).trans rfl

/-- Only the user changes the wish of the client. -/
theorem connect_exec {t : ThreadId} {peer : List Char} {w : Work}
    (h : p.exec t peer w = .ok q) : q.client.connect_ = p.client.connect_ := by
  cases w with
  | conn c k =>
    rcases exec_conn_eq_ok.1 h with ⟨-, h⟩ | ⟨-, -, rfl⟩ | ⟨-, rfl⟩ | ⟨-, -, -, h⟩
    · rcases release_eq_ok.1 h with ⟨-, -, rfl⟩ | ⟨-, rfl⟩ <;> rfl
    · rfl
    · rfl
    · obtain ⟨-, e, -, rfl⟩ := execConn_eq_ok.1 h
      rfl
  | bound c k =>
    obtain ⟨-, e, -, rfl⟩ := execConn_eq_ok.1 h
    rfl
  | setCloseCallback c =>
    obtain rfl := pure_eq_ok.1 h
    rfl
  | server k =>
    obtain ⟨-, h⟩ := TcpServer.exec_eq_ok.1 h
    cases k with
    | removeConnectionInLoop c =>
      obtain ⟨-, -, rfl⟩ := TcpServer.removeConnectionInLoop_eq_ok.1 h
      rfl
    | destroyNext =>
      obtain rfl := h
      rcases TcpServer.destroyNext_cases p t with ⟨-, h⟩ | ⟨k, c, -, h⟩ <;>
        · rw [h]
          rfl
    | removeConnection | quit | quitLoop | joinLoop | destroyed =>
      obtain rfl := h
      rfl
  | client k =>
    obtain ⟨-, h⟩ := exec_client_eq_ok.1 h
    cases k with
    | newConnection socket =>
      obtain ⟨-, rfl⟩ := TcpClient.newConnection_eq_ok.1 h
      rfl
    | removeConnection c =>
      obtain ⟨-, -, -, rfl⟩ := TcpClient.removeConnection_eq_ok.1 h
      rfl
    | destroyed =>
      obtain rfl := h
      rfl
  | connector k => rw [client_execConnector h]
  | handleTimer timer error =>
    obtain rfl := pure_eq_ok.1 h
    rcases TimerQueue.handleTimer_cases p t timer error with ⟨-, hq⟩ | ⟨-, -, hq⟩ | ⟨-, -, hq⟩
    · rw [hq]
    · rw [hq]
      rfl
    · rw [hq]
  | eraseTimer timer =>
    obtain rfl := pure_eq_ok.1 h
    rfl

/-- Setting the close callback leaves the wish of the client alone. -/
theorem connect_setCloseCallback {t : ThreadId} {c : ConnId} :
    (TcpClient.setCloseCallback p t c).client.connect_ = p.client.connect_ := by
  unfold TcpClient.setCloseCallback
  split_ifs <;> rfl

/-- The wish of the client is cleared until the user asks for a connection. -/
theorem connect_step {e : ProcessEvent} (hclient : p.client.connect_ = false)
    (he : e.connects = false) (hstep : Process.step e p = .ok q) :
    q.client.connect_ = false := by
  cases e with
  | dequeue l =>
    obtain ⟨-, w, rest, -, rfl⟩ := dequeue_eq_ok.1 hstep
    exact hclient
  | run t peer =>
    obtain ⟨w, rest, -, -, hexec⟩ := run_eq_ok.1 hstep
    exact (connect_exec hexec).trans hclient
  | return_ t =>
    obtain ⟨c, k, rest, -, rfl⟩ := return_eq_ok.1 hstep
    exact hclient
  | call t c x =>
    obtain ⟨-, e, -, rfl⟩ := call_eq_ok.1 hstep
    exact hclient
  | keep t c =>
    obtain ⟨-, rfl⟩ := keep_eq_ok.1 hstep
    exact hclient
  | keepConnection t =>
    obtain ⟨-, c, -, rfl⟩ := keepConnection_eq_ok.1 hstep
    exact hclient
  | drop t c =>
    obtain ⟨-, rfl⟩ := drop_eq_ok.1 hstep
    exact hclient
  | consume t c len =>
    obtain ⟨-, b, -, rfl⟩ := consume_eq_ok.1 hstep
    exact hclient
  | receive c data =>
    obtain ⟨-, r, -, rfl⟩ := receive_eq_ok.1 hstep
    exact hclient
  | readFails c e =>
    obtain ⟨-, r, -, rfl⟩ := readFails_eq_ok.1 hstep
    exact hclient
  | transmit c k stale =>
    obtain ⟨-, r, -, rfl⟩ := transmit_eq_ok.1 hstep
    exact hclient
  | sendFails c e =>
    obtain ⟨-, r, -, rfl⟩ := sendFails_eq_ok.1 hstep
    exact hclient
  | accept ioLoop =>
    obtain ⟨-, rfl⟩ := accept_eq_ok.1 hstep
    exact hclient
  | destroyServer t =>
    obtain ⟨-, hstep⟩ := destroyServer_eq_ok.1 hstep
    obtain ⟨-, rfl⟩ := TcpServer.destructor_eq_ok.1 hstep
    exact hclient
  | clientCall t x =>
    obtain ⟨-, rfl⟩ := clientCall_eq_ok.1 hstep
    cases x with
    | connect => cases he
    | disconnect =>
      unfold clientCall TcpClient.disconnect
      cases p.client.connection_ <;> rfl
    | stop =>
      unfold clientCall TcpClient.stop Connector.stop
      rw [client_cancel]
    | enableRetry => exact hclient
  | connectorCall t x =>
    obtain ⟨-, rfl⟩ := connectorCall_eq_ok.1 hstep
    cases x with
    | start | restart => cases he
    | stop =>
      unfold connectorCall Connector.stop
      rw [client_cancel]
      exact hclient
  | destroyClient t =>
    obtain ⟨-, hstep⟩ := destroyClient_eq_ok.1 hstep
    rcases TcpClient.destructor_eq_ok.1 hstep with ⟨-, rfl⟩ | ⟨c, -, -, ⟨-, rfl⟩ | ⟨-, rfl⟩⟩
    · unfold Connector.stop
      rw [schedule, client_cancel]
      exact hclient
    · exact connect_setCloseCallback.trans hclient
    · exact connect_setCloseCallback.trans hclient
  | connectDone socket error =>
    obtain ⟨-, rfl⟩ := connectDone_eq_ok.1 hstep
    exact hclient
  | timerExpires timer =>
    obtain ⟨-, rfl⟩ := timerExpires_eq_ok.1 hstep
    exact hclient

/-! ## The results -/

/-- From a settled state on, nothing leads to an attempt until `connect` is called. -/
theorem Settled.disconnectLasts (h : Settled p) (hclient : p.client.connect_ = false) :
    p.DisconnectLasts := by
  constructor
  · intro t k hhead
    have hzero := weigh_eq_zero.1 h.2.1 _ (mem_pending_of_head hhead)
    simp [deliversAny, Work.delivered] at hzero
  · intro e q he hstep
    exact (h.step hclient he hstep).2

/-- `disconnect` lasts when it is called while the connector is settled. -/
theorem disconnectIsLasting_of_settled (h : p.Settled) : p.DisconnectIsLasting := by
  intro t q r hstep hr
  have hq : q.Settled ∧ q.client.connect_ = false := by
    refine ⟨h.apart (step_apart hstep rfl), ?_⟩
    obtain ⟨-, rfl⟩ := clientCall_eq_ok.1 hstep
    unfold clientCall TcpClient.disconnect
    cases p.client.connection_ <;> rfl
  have hlasting : r.Settled ∧ r.client.connect_ = false := by
    refine hr.invariant (I := fun r => r.Settled ∧ r.client.connect_ = false) ?_ ?_
    · rintro s rfl
      exact hq
    · rintro s e s' ⟨hs, hclient⟩ he hs'
      exact ⟨(hs.step hclient he hs').1, connect_step hclient he hs'⟩
  exact hlasting.1.disconnectLasts hlasting.2

/-- A client with a connection that reconnects is settled. -/
theorem disconnectIsLasting_connected : ∃ p : Process,
    (p.client.connection_, p.client.retry_) = (some 0, true) ∧ p.DisconnectIsLasting := by
  have hinit : processMachine.init (initial 1 [] 0 [] [] [] false false) :=
    ⟨1, [], 0, [], [], [], false, false, by simp, by simp, rfl⟩
  obtain ⟨p, hp, hobs⟩ := Machine.exists_of_run (C := fun _ _ => True) hinit
    (l := [.clientCall 2 .enableRetry, .clientCall 2 .connect, .dequeue 0, .run 0 [],
      .connectDone 0 none, .dequeue 0, .run 0 [], .run 0 []])
    (f := fun p : Process => (p.client.connection_, p.client.retry_, decide p.Settled))
    (a := (some 0, true, true)) (by decide +kernel)
  simp only [Prod.mk.injEq, decide_eq_true_eq] at hobs
  obtain ⟨hconnection, hretry, hsettled⟩ := hobs
  exact ⟨p, by rw [hconnection, hretry], disconnectIsLasting_of_settled hsettled⟩

/-- `disconnect` is called while the connector waits to retry: the timer starts an attempt. -/
theorem not_disconnectIsLasting :
    ¬ ∀ p, processMachine.Reachable p → p.DisconnectIsLasting := by
  intro hall
  have hinit : processMachine.init (initial 1 [] 0 [] [] [] false false) :=
    ⟨1, [], 0, [], [], [], false, false, by simp, by simp, rfl⟩
  have hrun : ((processMachine.run (fun _ _ => True) [.clientCall 0 .connect, .run 0 [],
        .connectDone 0 (some .other), .dequeue 0, .run 0 []]
        (initial 1 [] 0 [] [] [] false false)).bind fun p =>
      (step (.clientCall 0 .disconnect) p).bind fun q =>
      ((processMachine.startedAt q).run (fun _ e => e.connects = false)
        [.timerExpires 0, .dequeue 0, .run 0 []] q).bind fun r =>
      (step (.run 0 []) r).map fun r' => (r.sockets.nextSocket, r'.sockets.nextSocket)) =
      .ok (1, 2) := by decide +kernel
  obtain ⟨p, hp, hrun⟩ := Machine.bind_eq_ok hrun
  obtain ⟨q, hq, hrun⟩ := Machine.bind_eq_ok hrun
  obtain ⟨r, hr, hrun⟩ := Machine.bind_eq_ok hrun
  have hlasts := hall p (.run (.init hinit) hp) 0 q r hq (.run (.init rfl) hr)
  cases hr' : step (.run 0 []) r with
  | error e =>
    rw [hr'] at hrun
    cases hrun
  | ok r' =>
    rw [hr'] at hrun
    simp only [Except.map, Except.ok.injEq, Prod.mk.injEq] at hrun
    obtain ⟨hbefore, hafter⟩ := hrun
    have hsame := hlasts.noAttempt (.run 0 []) r' rfl hr'
    rw [hbefore, hafter] at hsame
    cases hsame

end Process

end LibNetToy
