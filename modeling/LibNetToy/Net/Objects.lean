import LibNetToy.Net.Affinity

/-!
# The server and the client in a step

Each of the two objects is changed by few steps.  `ServerStep` and `ClientStep` list them, with
what was at the top of the stack of the thread that made the change.  The connector works
aside: it changes neither of them and no connection.
-/

namespace LibNetToy

namespace Process

variable {p q r : Process}

/-! ## The connector -/

/-- The work item is about some connection. -/
def aboutConnection (w : Work) : Bool :=
  w.connId.isSome

/-- The connections, the server, the client and the work that is about connections stay. -/
structure Aside (p q : Process) : Prop where
  conns : q.conns = p.conns
  nextConn : q.nextConn = p.nextConn
  server : q.server = p.server
  client : q.client = p.client
  pending : SamePending aboutConnection p q

namespace Aside

/-- Nothing changes. -/
theorem refl (p : Process) : Aside p p :=
  ⟨rfl, rfl, rfl, rfl, SamePending.refl _ p⟩

/-- Two changes after each other. -/
theorem trans (hpq : Aside p q) (hqr : Aside q r) : Aside p r :=
  ⟨hqr.conns.trans hpq.conns, hqr.nextConn.trans hpq.nextConn, hqr.server.trans hpq.server,
    hqr.client.trans hpq.client, hpq.pending.trans hqr.pending⟩

/-- The connector, the timers and the sockets change. -/
theorem attempts {c : Connector} {u : TimerQueue} {k : Sockets} :
    Aside p { p with connector := c, timers := u, sockets := k } :=
  ⟨rfl, rfl, rfl, rfl, SamePending.of_eq rfl rfl⟩

/-- A functor that is about no connection is queued. -/
theorem post {l : LoopId} {w : Work} (hw : aboutConnection w = false) :
    Aside p { p with queue := p.queue ++ [(l, w)] } :=
  ⟨rfl, rfl, rfl, rfl, SamePending.post hw⟩

/-- Calls and functors that are about no connection are put in. -/
theorem schedule {t : ThreadId} {calls : List Work} {posts : List (LoopId × Work)}
    (hcalls : ∀ w ∈ calls, aboutConnection w = false)
    (hposts : ∀ e ∈ posts, aboutConnection e.2 = false) : Aside p (p.schedule t calls posts) :=
  ⟨rfl, rfl, rfl, rfl, SamePending.schedule hcalls hposts⟩

/-- `Connector::start` changes neither the server, the client nor a connection. -/
theorem start {t : ThreadId} : Aside p (Connector.start p t) := by
  refine Aside.trans (attempts (c := { p.connector with connect_ := true }) (u := p.timers)
    (k := p.sockets)) (schedule ?_ ?_)
  · intro w hw
    rw [mem_callIf hw]
    rfl
  · intro e he
    rw [mem_postIf he]
    rfl

/-- `TimerQueue::cancel` changes neither the server, the client nor a connection. -/
theorem cancel {timer : Option TimerId} : Aside p (TimerQueue.cancel p timer) := by
  rcases TimerQueue.cancel_cases p timer with hq | ⟨id, -, -, hq⟩ | ⟨id, s, -, -, -, hq⟩
  · rw [hq]
    exact refl p
  · rw [hq]
    exact ⟨rfl, rfl, rfl, rfl, SamePending.post rfl⟩
  · rw [hq]
    exact attempts

/-- `Connector::stop` changes neither the server, the client nor a connection. -/
theorem stop : Aside p (Connector.stop p) := by
  have hpost : Aside p { p with
      connector := { p.connector with connect_ := false }
      queue := p.queue ++ [(p.connector.loop_, .connector .stopInLoop)] } :=
    ⟨rfl, rfl, rfl, rfl, SamePending.post rfl⟩
  exact hpost.trans cancel

/-- `Connector::retry` changes neither the server, the client nor a connection. -/
theorem retry {held : Option SockId} (h : Connector.retry p held = .ok q) : Aside p q := by
  rcases Connector.retry_eq_ok.1 h with ⟨-, rfl⟩ | ⟨k, -, -, -, ⟨-, rfl⟩ | ⟨-, rfl⟩⟩
  · exact refl q
  · exact attempts
  · exact attempts

/-- A task of the connector changes neither the server, the client nor a connection. -/
theorem execConnector {t : ThreadId} {k : ConnectorTask} (h : Connector.exec p t k = .ok q) :
    Aside p q := by
  obtain ⟨-, h⟩ := Connector.exec_eq_ok.1 h
  cases k with
  | startInLoop =>
    rcases Connector.startInLoop_eq_ok.1 h with ⟨-, ⟨-, -, rfl⟩ | ⟨-, rfl⟩⟩
    · exact attempts
    · exact refl q
  | stopInLoop =>
    rcases Connector.stopInLoop_eq_ok.1 h with ⟨-, ⟨-, h⟩ | ⟨-, rfl⟩⟩
    · exact (attempts (u := p.timers) (k := p.sockets)).trans (retry h)
    · exact refl q
  | restart =>
    obtain ⟨-, rfl⟩ := Connector.restart_eq_ok.1 h
    exact attempts
  | handleConnect socket error =>
    cases error with
    | none =>
      obtain rfl := pure_eq_ok.1 h
      refine Aside.trans (attempts (c := { p.connector with state_ := .kConnected })
        (u := p.timers) (k := p.sockets)) (schedule ?_ nofun)
      intro w hw
      rw [List.mem_singleton.1 hw]
      rfl
    | some e => exact (attempts (u := p.timers) (k := p.sockets)).trans (retry h)

/-- The handler of a timer changes neither the server, the client nor a connection. -/
theorem handleTimer {t : ThreadId} {id : TimerId} {error : Option ErrorCode} :
    Aside p (TimerQueue.handleTimer p t id error) := by
  rcases TimerQueue.handleTimer_cases p t id error with ⟨-, hq⟩ | ⟨-, -, hq⟩ | ⟨-, -, hq⟩
  · rw [hq]
    exact refl p
  · rw [hq]
    refine Aside.trans (attempts (c := p.connector) (u := p.timers.setStatus id .running)
      (k := p.sockets)) (schedule ?_ nofun)
    intro w hw
    simp only [List.mem_cons, List.not_mem_nil, or_false] at hw
    rcases hw with rfl | rfl <;> rfl
  · rw [hq]
    exact attempts

end Aside

/-! ## The server -/

/-- How the server is after a step. -/
inductive ServerStep (p : Process) : ProcessEvent → TcpServer → Prop
  | same {e : ProcessEvent} : ServerStep p e p.server
  | accepts {ioLoop : LoopId} (hlife : p.server.life = .alive) :
      ServerStep p (.accept ioLoop) { p.server with
        nextConnId_ := nextInt p.server.nextConnId_
        connections_ := AssocMap.assign p.server.connName (some p.nextConn)
          p.server.connections_ }
  | removes {t : ThreadId} {peer : List Char} {c : ConnId}
      (hhead : (p.stackOf t).head? = some (.server (.removeConnectionInLoop c)))
      (hcount : AssocMap.count (p.conns c).conn.name_ p.server.connections_ = 1) :
      ServerStep p (.run t peer) { p.server with
        connections_ := AssocMap.erase (p.conns c).conn.name_ p.server.connections_ }
  | resets {t : ThreadId} {peer : List Char} {k : List Char} {c : ConnId}
      (hhead : (p.stackOf t).head? = some (.server .destroyNext))
      (hnext : TcpServer.nextEntry p.server.connections_ = some (k, c)) :
      ServerStep p (.run t peer) { p.server with
        connections_ := TcpServer.resetEntry k p.server.connections_ }
  | quits {t : ThreadId} {peer : List Char}
      (hhead : (p.stackOf t).head? = some (.server .quit)) :
      ServerStep p (.run t peer) { p.server with connections_ := [] }
  | dies {t : ThreadId} {peer : List Char}
      (hhead : (p.stackOf t).head? = some (.server .destroyed)) :
      ServerStep p (.run t peer) { p.server with life := .dead }
  | destructs {t : ThreadId} (hlife : p.server.life = .alive) :
      ServerStep p (.destroyServer t) { p.server with life := .destructing }

/-- How the client is after a step. -/
inductive ClientStep (p : Process) : ProcessEvent → TcpClient → Prop
  | same {e : ProcessEvent} : ClientStep p e p.client
  | makes {t : ThreadId} {peer : List Char} {socket : SockId}
      (hhead : (p.stackOf t).head? = some (.client (.newConnection socket))) :
      ClientStep p (.run t peer) { p.client with
        nextConnId_ := nextInt p.client.nextConnId_
        connection_ := some p.nextConn }
  | removes {t : ThreadId} {peer : List Char} {c : ConnId}
      (hhead : (p.stackOf t).head? = some (.client (.removeConnection c)))
      (hconnection : p.client.connection_ = some c) :
      ClientStep p (.run t peer) { p.client with connection_ := none }
  | dies {t : ThreadId} {peer : List Char}
      (hhead : (p.stackOf t).head? = some (.client .destroyed)) :
      ClientStep p (.run t peer) { p.client with connection_ := none, life := .dead }
  | connects {t : ThreadId} :
      ClientStep p (.clientCall t .connect) { p.client with connect_ := true }
  | disconnects {t : ThreadId} :
      ClientStep p (.clientCall t .disconnect) { p.client with connect_ := false }
  | stops {t : ThreadId} : ClientStep p (.clientCall t .stop) { p.client with connect_ := false }
  | enablesRetry {t : ThreadId} :
      ClientStep p (.clientCall t .enableRetry) { p.client with retry_ := true }
  | destructs {t : ThreadId} (hlife : p.client.life = .alive) :
      ClientStep p (.destroyClient t) { p.client with life := .destructing }

/-- Work of other objects leaves the server. -/
theorem exec_server {t : ThreadId} {peer : List Char} {w : Work} (h : p.exec t peer w = .ok q)
    (hw : ∀ k, w ≠ .server k) : q.server = p.server := by
  cases w with
  | conn c k =>
    rcases exec_conn_eq_ok.1 h with ⟨-, h⟩ | ⟨-, -, rfl⟩ | ⟨-, rfl⟩ | ⟨-, -, -, h⟩
    · rcases release_eq_ok.1 h with ⟨-, -, rfl⟩ | ⟨-, rfl⟩ <;> rfl
    · rfl
    · rfl
    · obtain ⟨-, e, -, rfl⟩ := execConn_eq_ok.1 h
      rfl
  | bound c k =>
    obtain ⟨-, e, -, rfl⟩ := execConn_eq_ok.1 h
    rfl
  | setCloseCallback c =>
    obtain rfl := pure_eq_ok.1 h
    rfl
  | server k => exact absurd rfl (hw k)
  | client k =>
    obtain ⟨-, h⟩ := exec_client_eq_ok.1 h
    cases k with
    | newConnection socket =>
      obtain ⟨-, rfl⟩ := TcpClient.newConnection_eq_ok.1 h
      rfl
    | removeConnection c =>
      obtain ⟨-, -, -, rfl⟩ := TcpClient.removeConnection_eq_ok.1 h
      rfl
    | destroyed =>
      obtain rfl := h
      rfl
  | connector k => exact (Aside.execConnector h).server
  | handleTimer timer error =>
    obtain rfl := pure_eq_ok.1 h
    exact Aside.handleTimer.server
  | eraseTimer timer =>
    obtain rfl := pure_eq_ok.1 h
    rfl

/-- Work of other objects leaves the client. -/
theorem exec_client {t : ThreadId} {peer : List Char} {w : Work} (h : p.exec t peer w = .ok q)
    (hw : ∀ k, w ≠ .client k) : q.client = p.client := by
  cases w with
  | conn c k =>
    rcases exec_conn_eq_ok.1 h with ⟨-, h⟩ | ⟨-, -, rfl⟩ | ⟨-, rfl⟩ | ⟨-, -, -, h⟩
    · rcases release_eq_ok.1 h with ⟨-, -, rfl⟩ | ⟨-, rfl⟩ <;> rfl
    · rfl
    · rfl
    · obtain ⟨-, e, -, rfl⟩ := execConn_eq_ok.1 h
      rfl
  | bound c k =>
    obtain ⟨-, e, -, rfl⟩ := execConn_eq_ok.1 h
    rfl
  | setCloseCallback c =>
    obtain rfl := pure_eq_ok.1 h
    rfl
  | server k =>
    obtain ⟨-, h⟩ := TcpServer.exec_eq_ok.1 h
    cases k with
    | removeConnectionInLoop c =>
      obtain ⟨-, -, rfl⟩ := TcpServer.removeConnectionInLoop_eq_ok.1 h
      rfl
    | destroyNext =>
      obtain rfl := h
      rcases TcpServer.destroyNext_cases p t with ⟨-, hq⟩ | ⟨k, c, -, hq⟩
      · rw [hq]
        rfl
      · rw [hq]
        rfl
    | removeConnection | quit | quitLoop | joinLoop | destroyed =>
      obtain rfl := h
      rfl
  | client k => exact absurd rfl (hw k)
  | connector k => exact (Aside.execConnector h).client
  | handleTimer timer error =>
    obtain rfl := pure_eq_ok.1 h
    exact Aside.handleTimer.client
  | eraseTimer timer =>
    obtain rfl := pure_eq_ok.1 h
    rfl

/-- What running a work item does to the server. -/
theorem server_of_run {t : ThreadId} {peer : List Char}
    (h : step (.run t peer) p = .ok q) : ServerStep p (.run t peer) q.server := by
  obtain ⟨w, rest, htake, -, hexec⟩ := run_eq_ok.1 h
  have hhead := head_stackOf htake
  by_cases hw : ∃ k, w = .server k
  · obtain ⟨k, rfl⟩ := hw
    obtain ⟨-, hexec⟩ := TcpServer.exec_eq_ok.1 hexec
    cases k with
    | removeConnectionInLoop c =>
      obtain ⟨-, hcount, rfl⟩ := TcpServer.removeConnectionInLoop_eq_ok.1 hexec
      exact .removes hhead hcount
    | destroyNext =>
      obtain rfl := hexec
      rcases TcpServer.destroyNext_cases { p with stack := rest } t with
        ⟨-, hq⟩ | ⟨k, c, hnext, hq⟩
      · rw [hq]
        exact .same
      · rw [hq]
        exact .resets hhead hnext
    | quit =>
      obtain rfl := hexec
      exact .quits hhead
    | destroyed =>
      obtain rfl := hexec
      exact .dies hhead
    | removeConnection | quitLoop | joinLoop =>
      obtain rfl := hexec
      exact .same
  · have hsame := exec_server hexec fun k hk => hw ⟨k, hk⟩
    rw [hsame]
    exact .same

/-- Every step changes the server as listed. -/
theorem server_of_step {e : ProcessEvent} (h : step e p = .ok q) :
    ServerStep p e q.server := by
  cases e with
  | run t peer => exact server_of_run h
  | accept ioLoop =>
    obtain ⟨⟨hlife, -⟩, rfl⟩ := accept_eq_ok.1 h
    exact .accepts hlife
  | destroyServer t =>
    obtain ⟨⟨-, hlife⟩, h⟩ := destroyServer_eq_ok.1 h
    obtain ⟨-, rfl⟩ := TcpServer.destructor_eq_ok.1 h
    exact .destructs hlife
  | dequeue l =>
    obtain ⟨-, w, rest, -, rfl⟩ := dequeue_eq_ok.1 h
    exact .same
  | return_ t =>
    obtain ⟨c, k, rest, -, rfl⟩ := return_eq_ok.1 h
    exact .same
  | call t c x =>
    obtain ⟨-, e, -, rfl⟩ := call_eq_ok.1 h
    exact .same
  | keep t c =>
    obtain ⟨-, rfl⟩ := keep_eq_ok.1 h
    exact .same
  | keepConnection t =>
    obtain ⟨-, c, -, rfl⟩ := keepConnection_eq_ok.1 h
    exact .same
  | drop t c =>
    obtain ⟨-, rfl⟩ := drop_eq_ok.1 h
    exact .same
  | consume t c len =>
    obtain ⟨-, b, -, rfl⟩ := consume_eq_ok.1 h
    exact .same
  | receive c data =>
    obtain ⟨-, r, -, rfl⟩ := receive_eq_ok.1 h
    exact .same
  | readFails c e =>
    obtain ⟨-, r, -, rfl⟩ := readFails_eq_ok.1 h
    exact .same
  | transmit c k stale =>
    obtain ⟨-, r, -, rfl⟩ := transmit_eq_ok.1 h
    exact .same
  | sendFails c e =>
    obtain ⟨-, r, -, rfl⟩ := sendFails_eq_ok.1 h
    exact .same
  | clientCall t x =>
    obtain ⟨-, rfl⟩ := clientCall_eq_ok.1 h
    have hserver : (p.clientCall t x).server = p.server := by
      cases x with
      | connect => exact Aside.start.server
      | disconnect =>
        unfold clientCall TcpClient.disconnect
        cases p.client.connection_ <;> rfl
      | stop => exact Aside.stop.server
      | enableRetry => rfl
    rw [hserver]
    exact .same
  | connectorCall t x =>
    obtain ⟨-, rfl⟩ := connectorCall_eq_ok.1 h
    have hserver : (p.connectorCall t x).server = p.server := by
      cases x with
      | start => exact Aside.start.server
      | stop => exact Aside.stop.server
      | restart => rfl
    rw [hserver]
    exact .same
  | destroyClient t =>
    obtain ⟨-, h⟩ := destroyClient_eq_ok.1 h
    have hset : ∀ c, (TcpClient.setCloseCallback p t c).server = p.server := by
      intro c
      unfold TcpClient.setCloseCallback
      split_ifs <;> rfl
    have hserver : q.server = p.server := by
      rcases TcpClient.destructor_eq_ok.1 h with ⟨-, rfl⟩ | ⟨c, -, -, ⟨-, rfl⟩ | ⟨-, rfl⟩⟩
      · exact Aside.stop.server
      · exact hset c
      · exact hset c
    rw [hserver]
    exact .same
  | connectDone socket error =>
    obtain ⟨-, rfl⟩ := connectDone_eq_ok.1 h
    exact .same
  | timerExpires timer =>
    obtain ⟨-, rfl⟩ := timerExpires_eq_ok.1 h
    exact .same

/-- What running a work item does to the client. -/
theorem client_of_run {t : ThreadId} {peer : List Char}
    (h : step (.run t peer) p = .ok q) : ClientStep p (.run t peer) q.client := by
  obtain ⟨w, rest, htake, -, hexec⟩ := run_eq_ok.1 h
  have hhead := head_stackOf htake
  by_cases hw : ∃ k, w = .client k
  · obtain ⟨k, rfl⟩ := hw
    obtain ⟨-, hexec⟩ := exec_client_eq_ok.1 hexec
    cases k with
    | newConnection socket =>
      obtain ⟨-, rfl⟩ := TcpClient.newConnection_eq_ok.1 hexec
      exact .makes hhead
    | removeConnection c =>
      obtain ⟨-, -, hconnection, rfl⟩ := TcpClient.removeConnection_eq_ok.1 hexec
      exact .removes hhead hconnection
    | destroyed =>
      obtain rfl := hexec
      exact .dies hhead
  · have hsame := exec_client hexec fun k hk => hw ⟨k, hk⟩
    rw [hsame]
    exact .same

/-- The destructor of the client has begun when it sets the close callback. -/
theorem setCloseCallback_client (p : Process) (t : ThreadId) (c : ConnId) :
    (TcpClient.setCloseCallback p t c).client = { p.client with life := .destructing } := by
  unfold TcpClient.setCloseCallback
  split_ifs <;> rfl

/-- Every step changes the client as listed. -/
theorem client_of_step {e : ProcessEvent} (h : step e p = .ok q) :
    ClientStep p e q.client := by
  cases e with
  | run t peer => exact client_of_run h
  | clientCall t x =>
    obtain ⟨-, rfl⟩ := clientCall_eq_ok.1 h
    cases x with
    | connect =>
      have hclient : (p.clientCall t .connect).client = { p.client with connect_ := true } :=
        Aside.start.client
      rw [hclient]
      exact .connects
    | disconnect =>
      have hclient : (p.clientCall t .disconnect).client =
          { p.client with connect_ := false } := by
        unfold clientCall TcpClient.disconnect
        cases p.client.connection_ <;> rfl
      rw [hclient]
      exact .disconnects
    | stop =>
      have hclient : (p.clientCall t .stop).client = { p.client with connect_ := false } :=
        Aside.stop.client
      rw [hclient]
      exact .stops
    | enableRetry => exact .enablesRetry
  | connectorCall t x =>
    obtain ⟨-, rfl⟩ := connectorCall_eq_ok.1 h
    have hclient : (p.connectorCall t x).client = p.client := by
      cases x with
      | start => exact Aside.start.client
      | stop => exact Aside.stop.client
      | restart => rfl
    rw [hclient]
    exact .same
  | destroyClient t =>
    obtain ⟨⟨-, hlife⟩, h⟩ := destroyClient_eq_ok.1 h
    have hclient : q.client = { p.client with life := .destructing } := by
      rcases TcpClient.destructor_eq_ok.1 h with ⟨-, rfl⟩ | ⟨c, -, -, ⟨-, rfl⟩ | ⟨-, rfl⟩⟩
      · exact Aside.stop.client
      · exact setCloseCallback_client p t c
      · exact setCloseCallback_client p t c
    rw [hclient]
    exact .destructs hlife
  | accept ioLoop =>
    obtain ⟨-, rfl⟩ := accept_eq_ok.1 h
    exact .same
  | destroyServer t =>
    obtain ⟨-, h⟩ := destroyServer_eq_ok.1 h
    obtain ⟨-, rfl⟩ := TcpServer.destructor_eq_ok.1 h
    exact .same
  | dequeue l =>
    obtain ⟨-, w, rest, -, rfl⟩ := dequeue_eq_ok.1 h
    exact .same
  | return_ t =>
    obtain ⟨c, k, rest, -, rfl⟩ := return_eq_ok.1 h
    exact .same
  | call t c x =>
    obtain ⟨-, e, -, rfl⟩ := call_eq_ok.1 h
    exact .same
  | keep t c =>
    obtain ⟨-, rfl⟩ := keep_eq_ok.1 h
    exact .same
  | keepConnection t =>
    obtain ⟨-, c, -, rfl⟩ := keepConnection_eq_ok.1 h
    exact .same
  | drop t c =>
    obtain ⟨-, rfl⟩ := drop_eq_ok.1 h
    exact .same
  | consume t c len =>
    obtain ⟨-, b, -, rfl⟩ := consume_eq_ok.1 h
    exact .same
  | receive c data =>
    obtain ⟨-, r, -, rfl⟩ := receive_eq_ok.1 h
    exact .same
  | readFails c e =>
    obtain ⟨-, r, -, rfl⟩ := readFails_eq_ok.1 h
    exact .same
  | transmit c k stale =>
    obtain ⟨-, r, -, rfl⟩ := transmit_eq_ok.1 h
    exact .same
  | sendFails c e =>
    obtain ⟨-, r, -, rfl⟩ := sendFails_eq_ok.1 h
    exact .same
  | connectDone socket error =>
    obtain ⟨-, rfl⟩ := connectDone_eq_ok.1 h
    exact .same
  | timerExpires timer =>
    obtain ⟨-, rfl⟩ := timerExpires_eq_ok.1 h
    exact .same

/-! ## The map of the server -/

/-- The map is in order at first. -/
theorem sorted_initial (hp : processMachine.init p) : p.server.connections_.Sorted := by
  obtain ⟨baseLoop, pool, clientLoop, ipPort, serverName, clientName, m, w, -, -, rfl⟩ := hp
  exact List.Pairwise.nil

/-- Every step keeps the map in order. -/
theorem sorted_step {e : ProcessEvent} (h : p.server.connections_.Sorted)
    (hstep : step e p = .ok q) : q.server.connections_.Sorted := by
  have hserver := server_of_step hstep
  generalize q.server = s at hserver
  cases hserver with
  | same | dies | destructs => exact h
  | accepts => exact h.assign
  | removes => exact h.erase
  | resets => exact h.adjust
  | quits => exact List.Pairwise.nil

end Process

end LibNetToy
