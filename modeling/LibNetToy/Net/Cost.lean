import LibNetToy.Net.Objects
import LibNetToy.Foundations.Metered

/-!
# What the threads of a process cost

The loops take functors and handlers from their queues and run them, which calls and posts further
ones.  What a work item can lead to has a bounded number of steps, so the calls of the user and the
completions pay for all steps that the threads of the process take: no loop is ever busy with work
that it makes for itself.
-/

namespace LibNetToy

/-- A step that a thread takes by itself. -/
def ProcessEvent.isOwn : ProcessEvent → Bool
  | .dequeue _ => true
  | .run _ _ => true
  | .return_ _ => true
  | _ => false

/-- The number of steps that a task of a connection can lead to. -/
def ConnTask.cost : ConnTask → Nat
  | .readHandler none _ => 5
  | .readHandler (some _) _ => 17
  | .writeHandler none _ => 4
  | .forceCloseInLoop => 16
  | .connectEstablished => 4
  | .connectDestroyed => 4
  | .callback .close => 12
  | .callback _ => 2
  | _ => 1

/-- No task leads to more steps than a read that fails. -/
theorem ConnTask.cost_le (k : ConnTask) : k.cost ≤ 17 := by
  unfold cost
  split <;> decide

/-- The number of steps that a work item can lead to when the pool has `n` loops. -/
def Work.cost (n : Nat) : Work → Nat
  | .conn _ k => k.cost
  | .bound _ k => k.cost + 1
  | .setCloseCallback _ => 2
  | .server (.removeConnection _) => 11
  | .server (.removeConnectionInLoop _) => 9
  | .server .destroyNext => 2 * n + 3
  | .server .quit => 2 * n + 2
  | .server _ => 1
  | .client (.newConnection _) => 7
  | .client (.removeConnection _) => 8
  | .client .destroyed => 1
  | .connector (.handleConnect _ _) => 8
  | .connector _ => 1
  | .handleTimer _ _ => 3
  | .eraseTimer _ => 1

namespace TcpServer

/-- The steps that the destructor takes for an entry of the map. -/
def entryCost (e : List Char × Option ConnId) : Nat :=
  if e.2 = none then 0 else 8

/-- The steps that the destructor takes when it is called. -/
def cost (s : TcpServer) : Nat :=
  weigh entryCost s.connections_ + if s.life = .alive then 2 * s.pool.length + 3 else 0

/-- What the map costs is the sum over its entries. -/
theorem cost_connections (s : TcpServer) (m : AssocMap (List Char) (Option ConnId)) :
    ({ s with connections_ := m } : TcpServer).cost + weigh entryCost s.connections_ =
      s.cost + weigh entryCost m := by
  unfold cost
  simp only
  omega

end TcpServer

/-- The step that releases the connection of the client. -/
def TcpClient.cost (s : TcpClient) : Nat :=
  if s.connection_ = none then 0 else 1

namespace Process

/-- The number of steps that the threads can take by themselves. -/
def rank (p : Process) : Nat :=
  weigh (Work.cost p.server.pool.length) p.pending + p.queue.length + p.server.cost + p.client.cost

variable {p q r : Process} {t : ThreadId}

/-- A posted functor costs one step more than a call: it is taken from the queue. -/
theorem weigh_posted (n : Nat) (posts : List (LoopId × Work)) :
    weigh (fun e : LoopId × Work => e.2.cost n + 1) posts =
      weigh (Work.cost n) (posts.map Prod.snd) + posts.length := by
  induction posts with
  | nil => rfl
  | cons e posts ih =>
    rw [List.map_cons, weigh_cons, weigh_cons, ih, List.length_cons]
    omega

/-- What a thread calls and posts is added, and a functor is taken from its queue first. -/
theorem rank_change {calls : List Work} {posts : List (LoopId × Work)}
    (hstack : q.stack = calls.map (fun w => (t, w)) ++ p.stack)
    (hqueue : q.queue = p.queue ++ posts) (hpool : q.server.pool = p.server.pool) :
    q.rank + (p.server.cost + p.client.cost) = p.rank + (q.server.cost + q.client.cost) +
      weigh (Work.cost p.server.pool.length) calls +
      weigh (fun e : LoopId × Work => e.2.cost p.server.pool.length + 1) posts := by
  rw [weigh_posted]
  unfold rank pending
  rw [hstack, hqueue, hpool, List.map_append, List.map_append, List.length_append]
  simp only [weigh_append, Keyed.weigh_map_key]
  omega

/-- Calls and functors that are put in add their cost. -/
theorem rank_schedule (p : Process) (t : ThreadId) (calls : List Work)
    (posts : List (LoopId × Work)) : (p.schedule t calls posts).rank = p.rank +
      weigh (Work.cost p.server.pool.length) calls +
      weigh (fun e : LoopId × Work => e.2.cost p.server.pool.length + 1) posts := by
  have hchange := rank_change (p := p) (q := p.schedule t calls posts) rfl rfl rfl
  change _ = p.rank + (p.server.cost + p.client.cost) + _ + _ at hchange
  omega

/-- A posted functor adds its cost. -/
theorem rank_post (p : Process) (l : LoopId) (w : Work) :
    ({ p with queue := p.queue ++ [(l, w)] } : Process).rank =
      p.rank + w.cost p.server.pool.length + 1 :=
  rank_schedule p l [] [(l, w)]

/-- The objects change while nothing is called or posted. -/
theorem rank_objects (hstack : q.stack = p.stack) (hqueue : q.queue = p.queue)
    (hpool : q.server.pool = p.server.pool) :
    q.rank + (p.server.cost + p.client.cost) = p.rank + (q.server.cost + q.client.cost) := by
  have hposts : q.queue = p.queue ++ [] := by rw [hqueue, List.append_nil]
  have hcalls : q.stack = ([] : List Work).map (fun w => (p.server.loop_, w)) ++ p.stack := hstack
  exact rank_change hcalls hposts hpool

/-- `runInLoop` takes one more step when it posts. -/
theorem weigh_runInLoop_le (n : Nat) (t l : LoopId) (w : Work) :
    weigh (Work.cost n) (callIf t l w) +
      weigh (fun e : LoopId × Work => e.2.cost n + 1) (postIf t l w) ≤ w.cost n + 1 := by
  unfold callIf postIf
  split_ifs <;> simp

/-- Giving up a pointer takes one step. -/
theorem weigh_releases (n : Nat) (cs : List ConnId) :
    weigh (Work.cost n) (releases cs) = cs.length := by
  induction cs with
  | nil => rfl
  | cons c cs ih =>
    rw [releases, List.map_cons, weigh_cons, ← releases, ih, List.length_cons]
    exact Nat.add_comm _ _

/-- Taking a work item takes its cost. -/
theorem rank_pop {w : Work} {rest : List (ThreadId × Work)}
    (htake : Keyed.takeFirst t p.stack = some (w, rest)) :
    p.rank = w.cost p.server.pool.length + ({ p with stack := rest } : Process).rank := by
  unfold rank
  rw [weigh_pop _ htake]
  simp only
  omega

/-! ## The connections -/

/-- What a member function calls is part of its cost. -/
theorem cost_exec {c : TcpConnection} {here : Option LoopId} {k : ConnTask} {eff : Effect}
    (h : c.exec here k = .ok eff) (d : ConnId) (n : Nat) :
    eff.posts = [] ∧ weigh (Work.cost n) (eff.calls.map (Work.conn d)) < k.cost := by
  cases TcpConnection.exec_runs h with
  | received _ | sent _ => split_ifs <;> simp [Work.cost, ConnTask.cost]
  | @readFailed e _ _ _ => split_ifs <;> simp [Work.cost, ConnTask.cost]
  | @calls k => cases k <;> simp [Work.cost, ConnTask.cost]
  | @sendFailed e _ => simp [ConnTask.cost]
  | _ => simp [Work.cost, ConnTask.cost]

/-- What a call from outside leads to. -/
theorem cost_call {c : TcpConnection} {here : Option LoopId} {x : ConnCall} {eff : Effect}
    (h : c.call here x = .ok eff) (d : ConnId) (n : Nat) (l : LoopId) :
    weigh (Work.cost n) (eff.calls.map (Work.conn d)) +
      weigh (fun e : LoopId × Work => e.2.cost n + 1) (eff.posts.map fun f => (l, f.work d)) ≤
        18 := by
  cases x with
  | send message =>
    obtain ⟨b, -, rfl⟩ := TcpConnection.send_eq_ok.1 h
    simp
  | shutdown | forceClose | startRead | stopRead =>
    obtain rfl := pure_eq_ok.1 h
    simp only [TcpConnection.shutdown, TcpConnection.forceClose, TcpConnection.startRead,
      TcpConnection.stopRead, TcpConnection.runInLoop]
    split_ifs <;> simp [Functor.body, Functor.work, Work.cost, ConnTask.cost]

/-- The effect of a member function adds the cost of what it has left to do. -/
theorem rank_applyEffect (p : Process) (t : ThreadId) (c : ConnId) (eff : Effect)
    (after : List Work) : (p.applyEffect t c eff after).rank = p.rank +
      (weigh (Work.cost p.server.pool.length) (eff.calls.map (Work.conn c)) +
        weigh (fun e : LoopId × Work => e.2.cost p.server.pool.length + 1)
          (eff.posts.map fun f => (eff.conn.loop_, f.work c))) +
      weigh (Work.cost p.server.pool.length) after := by
  unfold applyEffect
  rw [rank_schedule, weigh_append]
  show p.rank + _ + _ = _
  have hpool : (p.update c fun r => { r with conn := eff.conn }).server.pool = p.server.pool := rfl
  rw [hpool]
  omega

/-- A member function leaves less to do than it costs. -/
theorem rank_execConn {c : ConnId} {k : ConnTask} {after : List Work}
    (h : p.execConn t c k after = .ok q) :
    q.rank < p.rank + k.cost + weigh (Work.cost p.server.pool.length) after := by
  obtain ⟨-, eff, heff, rfl⟩ := execConn_eq_ok.1 h
  obtain ⟨hposts, hcalls⟩ := cost_exec heff c p.server.pool.length
  rw [rank_applyEffect, hposts]
  have hrank : (p.update c fun r => r.note k).rank = p.rank := rfl
  have hpool : (p.update c fun r => r.note k).server.pool = p.server.pool := rfl
  rw [hrank, hpool, List.map_nil, weigh_nil]
  omega

/-! ## The server and the client -/

/-- The destructor of the server gives up the entry it stands at. -/
theorem weigh_resetEntry {m : AssocMap (List Char) (Option ConnId)} {k : List Char} {c : ConnId}
    (h : TcpServer.nextEntry m = some (k, c)) :
    weigh TcpServer.entryCost (TcpServer.resetEntry k m) + 8 ≤ weigh TcpServer.entryCost m := by
  have hle := AssocMap.weigh_adjust_le (w := TcpServer.entryCost) (v := none) (nextEntry_mem h)
    fun u => Nat.zero_le _
  have hnone : TcpServer.entryCost (k, none) = 0 := rfl
  have hsome : TcpServer.entryCost (k, some c) = 8 := rfl
  unfold TcpServer.resetEntry
  omega

/-- There is one pointer at most. -/
theorem length_toList_le {α : Type} (x : Option α) : x.toList.length ≤ 1 := by
  cases x <;> simp

/-- Every loop of the pool is told to quit and joined. -/
theorem weigh_joinPool (n : Nat) (pool : List LoopId) :
    weigh (Work.cost n) (TcpServer.joinPool pool) = 2 * pool.length := by
  induction pool with
  | nil => rfl
  | cons l pool ih =>
    rw [TcpServer.joinPool, List.flatMap_cons, weigh_append, ← TcpServer.joinPool, ih,
      List.length_cons]
    simp only [Work.cost, weigh_cons, weigh_nil]
    omega

/-- A task of the server leaves less to do than it costs. -/
theorem rank_execServer {k : ServerTask} (h : TcpServer.exec p t k = .ok q) :
    q.rank < p.rank + (Work.server k).cost p.server.pool.length := by
  obtain ⟨-, h⟩ := TcpServer.exec_eq_ok.1 h
  cases k with
  | removeConnection c =>
    obtain rfl := h
    have hrun := weigh_runInLoop_le p.server.pool.length t p.server.loop_
      (.server (.removeConnectionInLoop c))
    rw [TcpServer.removeConnection, rank_schedule]
    simp only [Work.cost] at hrun ⊢
    omega
  | removeConnectionInLoop c =>
    obtain ⟨-, -, rfl⟩ := TcpServer.removeConnectionInLoop_eq_ok.1 h
    have hcost := TcpServer.cost_connections p.server
      (AssocMap.erase (p.conns c).conn.name_ p.server.connections_)
    have herase := AssocMap.weigh_erase_le (k := (p.conns c).conn.name_)
      (m := p.server.connections_) TcpServer.entryCost
    set s : TcpServer := { p.server with
      connections_ := AssocMap.erase (p.conns c).conn.name_ p.server.connections_ }
    have hobjects : (({ p with server := s } : Process).update c fun r =>
        { r with removed := r.removed + 1 }).rank + (p.server.cost + p.client.cost) =
          p.rank + (s.cost + p.client.cost) := rank_objects rfl rfl rfl
    have hrun := weigh_runInLoop_le p.server.pool.length t (p.conns c).conn.loop_
      (.bound c .connectDestroyed)
    have hreleases := length_toList_le
      (AssocMap.lookup (p.conns c).conn.name_ p.server.connections_).join
    rw [rank_schedule, weigh_append, weigh_append, weigh_releases]
    change _ + (_ + weigh (Work.cost p.server.pool.length) _ +
      weigh (Work.cost p.server.pool.length) _) +
      weigh (fun e : LoopId × Work => e.2.cost p.server.pool.length + 1) _ < _
    simp only [Work.cost, ConnTask.cost, weigh_cons, weigh_nil] at hrun ⊢
    omega
  | destroyNext =>
    obtain rfl := h
    rcases TcpServer.destroyNext_cases p t with ⟨-, hq⟩ | ⟨k, c, hnext, hq⟩
    · rw [hq, rank_schedule]
      simp [Work.cost]
    · have hcost := TcpServer.cost_connections p.server
        (TcpServer.resetEntry k p.server.connections_)
      have hreset := weigh_resetEntry hnext
      set s : TcpServer := { p.server with
        connections_ := TcpServer.resetEntry k p.server.connections_ }
      have hobjects : (({ p with server := s } : Process).update c fun r =>
          { r with taken := true }).rank + (p.server.cost + p.client.cost) =
            p.rank + (s.cost + p.client.cost) := rank_objects rfl rfl rfl
      have hrun := weigh_runInLoop_le p.server.pool.length t (p.conns c).conn.loop_
        (.bound c .connectDestroyed)
      rw [hq, rank_schedule, weigh_append]
      change _ + (weigh (Work.cost p.server.pool.length) _ +
        weigh (Work.cost p.server.pool.length) _) +
        weigh (fun e : LoopId × Work => e.2.cost p.server.pool.length + 1) _ < _
      simp only [Work.cost, ConnTask.cost, weigh_cons, weigh_nil] at hrun ⊢
      omega
  | quit =>
    obtain rfl := h
    rw [TcpServer.quit, rank_schedule, weigh_append, weigh_joinPool]
    have hcost := TcpServer.cost_connections p.server []
    set s : TcpServer := { p.server with connections_ := [] }
    have hobjects : ({ p with
        stopped := Function.update p.stopped p.server.loop_ true
        server := s } : Process).rank + (p.server.cost + p.client.cost) =
          p.rank + (s.cost + p.client.cost) := rank_objects rfl rfl rfl
    simp only [Work.cost, weigh_cons, weigh_nil] at hcost ⊢
    omega
  | quitLoop l | joinLoop l =>
    obtain rfl := h
    exact Nat.lt_succ_self _
  | destroyed =>
    obtain rfl := h
    set s : TcpServer := { p.server with life := .dead }
    have hcost : s.cost ≤ p.server.cost := Nat.add_le_add_left (Nat.zero_le _) _
    have hobjects : ({ p with server := s } : Process).rank + (p.server.cost + p.client.cost) =
        p.rank + (s.cost + p.client.cost) := rank_objects rfl rfl rfl
    simp only [Work.cost]
    omega

/-- A task of the client leaves less to do than it costs. -/
theorem rank_execClient {peer : List Char} {k : ClientTask}
    (h : p.exec t peer (.client k) = .ok q) :
    q.rank < p.rank + (Work.client k).cost p.server.pool.length := by
  obtain ⟨-, h⟩ := exec_client_eq_ok.1 h
  cases k with
  | newConnection socket =>
    obtain ⟨-, rfl⟩ := TcpClient.newConnection_eq_ok.1 h
    rw [rank_schedule, weigh_append, weigh_releases]
    set c : TcpClient := { p.client with
      nextConnId_ := nextInt p.client.nextConnId_
      connection_ := some p.nextConn }
    have hobjects : ({ p with
        conns := Function.update p.conns p.nextConn
          (Connection.make (TcpConnection.make p.client.loop_ (p.client.connName peer)
            p.client.messageCallback_ p.client.writeCompleteCallback_) .client (some socket))
        nextConn := p.nextConn + 1
        client := c } : Process).rank + (p.server.cost + p.client.cost) =
          p.rank + (p.server.cost + c.cost) := rank_objects rfl rfl rfl
    have hnew : c.cost = 1 := rfl
    have hreleases : p.client.connection_.toList.length = p.client.cost := by
      unfold TcpClient.cost
      cases p.client.connection_ <;> rfl
    simp only [Work.cost, ConnTask.cost, weigh_cons, weigh_nil]
    omega
  | removeConnection c =>
    obtain ⟨-, -, hconnection, rfl⟩ := TcpClient.removeConnection_eq_ok.1 h
    rw [rank_schedule]
    set s : TcpClient := { p.client with connection_ := none }
    have hobjects : ({ p with client := s } : Process).rank + (p.server.cost + p.client.cost) =
        p.rank + (p.server.cost + s.cost) := rank_objects rfl rfl rfl
    have hold : p.client.cost = 1 := by
      unfold TcpClient.cost
      rw [hconnection]
      rfl
    have hnew : s.cost = 0 := rfl
    split_ifs <;> simp only [Work.cost, ConnTask.cost, weigh_cons, weigh_nil] <;> omega
  | destroyed =>
    obtain rfl := h
    rw [TcpClient.destroyed, rank_schedule, weigh_releases]
    set s : TcpClient := { p.client with connection_ := none, life := .dead }
    have hobjects : ({ p with client := s } : Process).rank + (p.server.cost + p.client.cost) =
        p.rank + (p.server.cost + s.cost) := rank_objects rfl rfl rfl
    have hnew : s.cost = 0 := rfl
    have hreleases : p.client.connection_.toList.length = p.client.cost := by
      unfold TcpClient.cost
      cases p.client.connection_ <;> rfl
    simp only [Work.cost, weigh_nil]
    omega

/-! ## The connector -/

/-- `retry` adds nothing to do. -/
theorem rank_retry {held : Option SockId} (h : Connector.retry p held = .ok q) :
    q.rank = p.rank := by
  rcases Connector.retry_eq_ok.1 h with ⟨-, rfl⟩ | ⟨k, -, -, -, ⟨-, rfl⟩ | ⟨-, rfl⟩⟩ <;> rfl

/-- A task of the connector leaves less to do than it costs. -/
theorem rank_execConnector {k : ConnectorTask} (h : Connector.exec p t k = .ok q) :
    q.rank < p.rank + (Work.connector k).cost p.server.pool.length := by
  obtain ⟨-, h⟩ := Connector.exec_eq_ok.1 h
  cases k with
  | startInLoop =>
    rcases Connector.startInLoop_eq_ok.1 h with ⟨-, ⟨-, -, rfl⟩ | ⟨-, rfl⟩⟩ <;>
      exact Nat.lt_succ_self _
  | stopInLoop =>
    rcases Connector.stopInLoop_eq_ok.1 h with ⟨-, ⟨-, h⟩ | ⟨-, rfl⟩⟩
    · rw [rank_retry h]
      exact Nat.lt_succ_self _
    · exact Nat.lt_succ_self _
  | restart =>
    obtain ⟨-, rfl⟩ := Connector.restart_eq_ok.1 h
    exact Nat.lt_succ_self _
  | handleConnect socket error =>
    cases error with
    | none =>
      obtain rfl := pure_eq_ok.1 h
      rw [rank_schedule]
      change p.rank + _ + _ < _
      simp [Work.cost]
    | some e =>
      rw [rank_retry h]
      exact Nat.lt_add_of_pos_right (Nat.succ_pos _)

/-- The handler of a timer leaves two steps to do at most. -/
theorem rank_handleTimer (p : Process) (t : ThreadId) (id : TimerId) (error : Option ErrorCode) :
    (TimerQueue.handleTimer p t id error).rank ≤ p.rank + 2 := by
  rcases TimerQueue.handleTimer_cases p t id error with ⟨-, hq⟩ | ⟨-, -, hq⟩ | ⟨-, -, hq⟩
  · rw [hq]
    exact Nat.le_add_right _ _
  · rw [hq, rank_schedule]
    exact Nat.le_refl _
  · rw [hq]
    exact Nat.le_add_right _ _

/-! ## Steps of the threads -/

/-- Running a work item costs at least one step. -/
theorem rank_exec {peer : List Char} {w : Work} (h : p.exec t peer w = .ok q) :
    q.rank < p.rank + w.cost p.server.pool.length := by
  cases w with
  | conn c k =>
    rcases exec_conn_eq_ok.1 h with ⟨rfl, h⟩ | ⟨rfl, -, rfl⟩ | ⟨⟨e, n, rfl⟩, rfl⟩ | ⟨-, -, -, h⟩
    · rcases release_eq_ok.1 h with ⟨-, -, rfl⟩ | ⟨-, rfl⟩ <;> exact Nat.lt_succ_self _
    · rw [rank_schedule]
      unfold Connection.closeTask
      cases (p.conns c).closeCallback_ <;> simp [Work.cost, ConnTask.cost]
    · exact Nat.lt_succ_self _
    · exact rank_execConn h
  | bound c k =>
    have hlt := rank_execConn h
    simp only [Work.cost, ConnTask.cost, weigh_cons, weigh_nil] at hlt ⊢
    omega
  | setCloseCallback c =>
    obtain rfl := pure_eq_ok.1 h
    rw [rank_schedule]
    exact Nat.lt_succ_self _
  | server k => exact rank_execServer h
  | client k => exact rank_execClient h
  | connector k => exact rank_execConnector h
  | handleTimer timer error =>
    obtain rfl := pure_eq_ok.1 h
    exact Nat.lt_succ_of_le (rank_handleTimer p t timer error)
  | eraseTimer timer =>
    obtain rfl := pure_eq_ok.1 h
    exact Nat.lt_succ_self _

/-- Every step of a thread lowers the rank. -/
theorem rank_own {e : ProcessEvent} (he : e.isOwn = true) (hstep : step e p = .ok q) :
    q.rank < p.rank := by
  cases e with
  | dequeue l =>
    obtain ⟨-, w, rest, htake, rfl⟩ := dequeue_eq_ok.1 hstep
    have hlength := Keyed.length_takeFirst htake
    unfold rank
    rw [weigh_dequeue _ htake]
    simp only
    omega
  | run u peer =>
    obtain ⟨w, rest, htake, -, hexec⟩ := run_eq_ok.1 hstep
    rw [rank_pop htake, Nat.add_comm]
    exact rank_exec hexec
  | return_ u =>
    obtain ⟨c, k, rest, htake, rfl⟩ := return_eq_ok.1 hstep
    rw [rank_pop htake]
    exact Nat.lt_add_of_pos_left Nat.one_pos
  | _ => cases he

/-! ## Input -/

/-- The handler of a completed operation costs 23 steps at most. -/
theorem rank_complete (p : Process) (c : ConnId) (r : TcpConnection × ConnTask) :
    (p.complete c r).rank ≤ p.rank + 23 := by
  have hcost := r.2.cost_le
  unfold complete
  rw [rank_post]
  change p.rank + r.2.cost + 1 ≤ _
  omega

/-- A call of `start` costs 23 steps at most. -/
theorem rank_start (p : Process) (t : ThreadId) : (Connector.start p t).rank ≤ p.rank + 23 := by
  have hrun := weigh_runInLoop_le p.server.pool.length t p.connector.loop_ (.connector .startInLoop)
  unfold Connector.start
  rw [rank_schedule]
  change p.rank + weigh (Work.cost p.server.pool.length) _ +
    weigh (fun e : LoopId × Work => e.2.cost p.server.pool.length + 1) _ ≤ _
  simp only [Work.cost] at hrun ⊢
  omega

/-- A cancelled timer costs the steps of its handler. -/
theorem rank_cancel (p : Process) (timer : Option TimerId) :
    (TimerQueue.cancel p timer).rank ≤ p.rank + 4 := by
  rcases TimerQueue.cancel_cases p timer with hq | ⟨id, -, -, hq⟩ | ⟨id, s, -, -, -, hq⟩
  · rw [hq]
    exact Nat.le_add_right _ _
  · rw [hq]
    have hpost := rank_post { p with timers := p.timers.erase id } p.connector.loop_
      (.handleTimer id (some .operationAborted))
    exact Nat.le_of_eq hpost
  · rw [hq]
    exact Nat.le_add_right _ _

/-- A call of `stop` costs its functor and its timer. -/
theorem rank_stop (p : Process) : (Connector.stop p).rank ≤ p.rank + 6 := by
  have hpost := rank_post { p with connector := { p.connector with connect_ := false } }
    p.connector.loop_ (.connector .stopInLoop)
  have hcancel := rank_cancel { p with
    connector := { p.connector with connect_ := false }
    queue := p.queue ++ [(p.connector.loop_, .connector .stopInLoop)] } p.connector.reConnectTimer_
  unfold Connector.stop
  refine Nat.le_trans hcancel (Nat.add_le_add_right (m := p.rank + 2) ?_ 4)
  exact Nat.le_of_eq hpost

/-- An accepted connection costs the steps that establish it. -/
theorem rank_accept (p : Process) (ioLoop : LoopId) :
    (TcpServer.newConnection p ioLoop).rank ≤ p.rank + 23 := by
  have hchange := rank_change (p := p) (q := TcpServer.newConnection p ioLoop) rfl rfl rfl
  have hserver : (TcpServer.newConnection p ioLoop).server.cost = weigh TcpServer.entryCost
      (AssocMap.assign p.server.connName (some p.nextConn) p.server.connections_) +
        if p.server.life = .alive then 2 * p.server.pool.length + 3 else 0 := rfl
  have hclient : (TcpServer.newConnection p ioLoop).client.cost = p.client.cost := rfl
  have hold : p.server.cost = weigh TcpServer.entryCost p.server.connections_ +
      if p.server.life = .alive then 2 * p.server.pool.length + 3 else 0 := rfl
  have hassign := AssocMap.weigh_assign_le (k := p.server.connName) (v := some p.nextConn)
    (m := p.server.connections_) TcpServer.entryCost
  have hentry : TcpServer.entryCost (p.server.connName, some p.nextConn) = 8 := rfl
  have hreleases := length_toList_le
    (AssocMap.lookup p.server.connName p.server.connections_).join
  have hrun := weigh_runInLoop_le p.server.pool.length p.server.loop_ ioLoop
    (.bound p.nextConn .connectEstablished)
  have hbound : (Work.bound p.nextConn .connectEstablished).cost p.server.pool.length = 5 := rfl
  have hrelease : weigh (Work.cost p.server.pool.length) [.conn p.nextConn .release] = 1 := rfl
  rw [weigh_append, weigh_append, weigh_releases] at hchange
  omega

/-- A call of `disconnect` costs 23 steps at most. -/
theorem rank_disconnect (p : Process) (t : ThreadId) :
    (TcpClient.disconnect p t).rank ≤ p.rank + 23 := by
  unfold TcpClient.disconnect
  cases p.client.connection_ with
  | none => exact Nat.le_add_right _ _
  | some c =>
    have heff : (p.conns c).conn.call (some t) .shutdown =
        .ok ((p.conns c).conn.shutdown (some t)) := rfl
    have hcost := cost_call heff c p.server.pool.length
      ((p.conns c).conn.shutdown (some t)).conn.loop_
    refine Nat.le_trans (Nat.le_of_eq (rank_applyEffect _ t c _ [])) ?_
    change p.rank + (weigh (Work.cost p.server.pool.length) _ +
      weigh (fun e : LoopId × Work => e.2.cost p.server.pool.length + 1) _) + 0 ≤ _
    omega

/-- Setting the close callback costs three steps at most. -/
theorem rank_setCloseCallback (p : Process) (t : ThreadId) (c : ConnId) :
    (TcpClient.setCloseCallback p t c).rank ≤ p.rank + 3 ∧
      (TcpClient.setCloseCallback p t c).server.pool = p.server.pool := by
  unfold TcpClient.setCloseCallback
  split_ifs
  · exact ⟨Nat.le_add_right _ _, rfl⟩
  · rw [rank_schedule]
    exact ⟨Nat.le_refl _, rfl⟩

/-- The destructor of the client costs 23 steps at most. -/
theorem rank_destroyClient (h : TcpClient.destructor p t = .ok q) : q.rank ≤ p.rank + 23 := by
  rcases TcpClient.destructor_eq_ok.1 h with ⟨-, rfl⟩ | ⟨c, -, -, ⟨-, rfl⟩ | ⟨-, rfl⟩⟩
  · refine Nat.le_trans (Nat.le_of_eq (rank_schedule _ _ _ _)) ?_
    refine Nat.le_trans (Nat.add_le_add_right (Nat.add_le_add_right (rank_stop _) _) _) ?_
    change p.rank + 6 + 1 + 0 ≤ _
    omega
  · have heff : (p.conns c).conn.call (some t) .forceClose =
        .ok ((p.conns c).conn.forceClose (some t)) := rfl
    have hcost := cost_call heff c p.server.pool.length
      ((p.conns c).conn.forceClose (some t)).conn.loop_
    have hafter : weigh (Work.cost p.server.pool.length)
        [.conn c .release, .client .destroyed] = 2 := rfl
    obtain ⟨hset, hpool⟩ := rank_setCloseCallback p t c
    rw [rank_applyEffect, hpool]
    omega
  · have hafter : weigh (Work.cost p.server.pool.length)
        [.conn c .release, .client .destroyed] = 2 := rfl
    obtain ⟨hset, hpool⟩ := rank_setCloseCallback p t c
    rw [rank_schedule, hpool, weigh_nil]
    omega

/-- The destructor of the server costs 23 steps at most, and what the map costs already. -/
theorem rank_destroyServer (hlife : p.server.life = .alive)
    (h : TcpServer.destructor p t = .ok q) : q.rank ≤ p.rank + 23 := by
  obtain ⟨-, hq⟩ := TcpServer.destructor_eq_ok.1 h
  have hstack : q.stack = [.server .destroyNext].map (fun w => (t, w)) ++ p.stack := by
    rw [hq]
    rfl
  have hqueue : q.queue = p.queue ++ [] := by
    rw [hq]
    rfl
  have hpool : q.server.pool = p.server.pool := by
    rw [hq]
    rfl
  have hchange := rank_change hstack hqueue hpool
  have hserver : q.server.cost = weigh TcpServer.entryCost p.server.connections_ := by
    rw [hq]
    rfl
  have hclient : q.client.cost = p.client.cost := by
    rw [hq]
    rfl
  have hold : p.server.cost =
      weigh TcpServer.entryCost p.server.connections_ + (2 * p.server.pool.length + 3) := by
    unfold TcpServer.cost
    rw [if_pos hlife]
  simp only [Work.cost, weigh_cons, weigh_nil] at hchange
  omega

/-- An input is paid for by at most so many steps. -/
theorem rank_input {e : ProcessEvent} (he : e.isOwn = false) (hstep : step e p = .ok q) :
    q.rank ≤ p.rank + 23 := by
  cases e with
  | dequeue | run | return_ => cases he
  | call u c x =>
    obtain ⟨-, eff, heff, rfl⟩ := call_eq_ok.1 hstep
    have hcost := cost_call heff c p.server.pool.length eff.conn.loop_
    rw [rank_applyEffect, weigh_nil]
    omega
  | keep u c =>
    obtain ⟨-, rfl⟩ := keep_eq_ok.1 hstep
    exact Nat.le_add_right _ _
  | keepConnection u =>
    obtain ⟨-, c, -, rfl⟩ := keepConnection_eq_ok.1 hstep
    exact Nat.le_add_right _ _
  | drop u c =>
    obtain ⟨-, rfl⟩ := drop_eq_ok.1 hstep
    rw [rank_schedule]
    change p.rank + 1 + 0 ≤ _
    omega
  | consume u c len =>
    obtain ⟨-, b, -, rfl⟩ := consume_eq_ok.1 hstep
    exact Nat.le_add_right _ _
  | receive c data =>
    obtain ⟨-, r, -, rfl⟩ := receive_eq_ok.1 hstep
    exact rank_complete p c r
  | readFails c e =>
    obtain ⟨-, r, -, rfl⟩ := readFails_eq_ok.1 hstep
    exact rank_complete p c r
  | transmit c k stale =>
    obtain ⟨-, r, -, rfl⟩ := transmit_eq_ok.1 hstep
    exact rank_complete p c (r.1, r.2.2)
  | sendFails c e =>
    obtain ⟨-, r, -, rfl⟩ := sendFails_eq_ok.1 hstep
    exact rank_complete p c r
  | accept ioLoop =>
    obtain ⟨-, rfl⟩ := accept_eq_ok.1 hstep
    exact rank_accept p ioLoop
  | destroyServer u =>
    obtain ⟨⟨-, hlife⟩, h⟩ := destroyServer_eq_ok.1 hstep
    exact rank_destroyServer hlife h
  | clientCall u x =>
    obtain ⟨-, rfl⟩ := clientCall_eq_ok.1 hstep
    cases x with
    | connect => exact rank_start { p with client := { p.client with connect_ := true } } u
    | disconnect => exact rank_disconnect p u
    | stop =>
      have hstop := rank_stop { p with client := { p.client with connect_ := false } }
      exact Nat.le_trans hstop (Nat.add_le_add_left (by decide) p.rank)
    | enableRetry => exact Nat.le_add_right _ _
  | connectorCall u x =>
    obtain ⟨-, rfl⟩ := connectorCall_eq_ok.1 hstep
    cases x with
    | start => exact rank_start p u
    | stop => exact Nat.le_trans (rank_stop p) (Nat.add_le_add_left (by decide) p.rank)
    | restart =>
      unfold connectorCall
      rw [rank_schedule]
      change p.rank + 1 + 0 ≤ _
      omega
  | destroyClient u =>
    obtain ⟨-, h⟩ := destroyClient_eq_ok.1 hstep
    exact rank_destroyClient h
  | connectDone socket error =>
    obtain ⟨-, rfl⟩ := connectDone_eq_ok.1 hstep
    have hpost := rank_post { p with sockets := { p.sockets with
      connecting := p.sockets.connecting.erase socket } } p.connector.loop_
      (.connector (.handleConnect socket error))
    exact Nat.le_trans (Nat.le_of_eq hpost) (Nat.add_le_add_left (by decide : 9 ≤ 23) p.rank)
  | timerExpires timer =>
    obtain ⟨-, rfl⟩ := timerExpires_eq_ok.1 hstep
    have hpost := rank_post { p with timers := p.timers.setStatus timer .expired }
      p.connector.loop_ (.handleTimer timer none)
    exact Nat.le_trans (Nat.le_of_eq hpost) (Nat.add_le_add_left (by decide : 4 ≤ 23) p.rank)

/-- The threads of a process are paid for by its input. -/
theorem ranked : processMachine.Ranked ProcessEvent.isOwn rank 23 :=
  ⟨rank_own, rank_input⟩

/-! ## Runs -/

/-- A new process has the loops of its pool to end. -/
theorem rank_initial (hp : processMachine.init p) : p.rank = 2 * p.server.pool.length + 3 := by
  obtain ⟨baseLoop, pool, clientLoop, ipPort, serverName, clientName, m, w, -, -, rfl⟩ := hp
  show 0 + 0 + (0 + (2 * pool.length + 3)) + 0 = 2 * pool.length + 3
  omega

/-- No step moves the server to another loop or changes its pool. -/
theorem loops_of_step {e : ProcessEvent} (hstep : step e p = .ok q) :
    q.server.loop_ = p.server.loop_ ∧ q.server.pool = p.server.pool := by
  have hserver := server_of_step hstep
  generalize q.server = s at hserver
  cases hserver <;> exact ⟨rfl, rfl⟩

end Process

end LibNetToy
