import LibNetToy.Net.System

/-!
# What a step leaves alone

The connector with its timers and sockets is changed by few steps.  A step is apart from it
when it changes none of these and the pending work that belongs to the connector stays as
it is; `step_apart` says that every step which is not one of the few is apart.
-/

namespace LibNetToy

namespace Process

variable {p q r : Process}

/-! ## Pending work of one kind -/

/-- Pending work of a kind is the same, by any weight of it. -/
def SamePending (kind : Work → Bool) (p q : Process) : Prop :=
  ∀ f : Work → Nat, (∀ w, kind w = false → f w = 0) → weigh f q.pending = weigh f p.pending

namespace SamePending

variable {kind : Work → Bool}

/-- Nothing happens to the work of the kind when nothing happens. -/
theorem refl (kind : Work → Bool) (p : Process) : SamePending kind p p :=
  fun _ _ => rfl

/-- Two changes after each other that leave the work of the kind alone. -/
theorem trans (hpq : SamePending kind p q) (hqr : SamePending kind q r) :
    SamePending kind p r :=
  fun f hf => (hqr f hf).trans (hpq f hf)

/-- The stacks and the queues stay as they are. -/
theorem of_eq (hstack : q.stack = p.stack) (hqueue : q.queue = p.queue) :
    SamePending kind p q := by
  intro f _
  rw [pending, pending, hstack, hqueue]

/-- Calls and functors of other kinds are put in. -/
theorem schedule {t : ThreadId} {calls : List Work} {posts : List (LoopId × Work)}
    (hcalls : ∀ w ∈ calls, kind w = false) (hposts : ∀ e ∈ posts, kind e.2 = false) :
    SamePending kind p (p.schedule t calls posts) := by
  intro f hf
  have hc : weigh f calls = 0 := weigh_eq_zero.2 fun w hw => hf w (hcalls w hw)
  have hp : weigh f (posts.map Prod.snd) = 0 := by
    apply weigh_eq_zero.2
    intro w hw
    obtain ⟨e, he, rfl⟩ := List.mem_map.1 hw
    exact hf e.2 (hposts e he)
  rw [weigh_schedule, hc, hp]
  rfl

/-- A functor of another kind is queued. -/
theorem post {l : LoopId} {w : Work} (hw : kind w = false) :
    SamePending kind p { p with queue := p.queue ++ [(l, w)] } := by
  intro f hf
  rw [weigh_post, hf w hw, Nat.add_zero]

/-- A work item of another kind is taken from a stack. -/
theorem pop {t : ThreadId} {w : Work} {rest : List (ThreadId × Work)}
    (h : Keyed.takeFirst t p.stack = some (w, rest)) (hw : kind w = false) :
    SamePending kind p { p with stack := rest } := by
  intro f hf
  rw [weigh_pop f h, hf w hw, Nat.zero_add]

/-- A functor goes from the queue to the stack of its loop. -/
theorem dequeue {l : LoopId} {w : Work} {rest : List (LoopId × Work)}
    (h : Keyed.takeFirst l p.queue = some (w, rest)) :
    SamePending kind p { p with stack := (l, w) :: p.stack, queue := rest } :=
  fun f _ => weigh_dequeue f h

end SamePending

/-- `runInLoop` neither calls nor posts anything but the functor. -/
theorem mem_callIf {t l : LoopId} {w w' : Work} (h : w' ∈ callIf t l w) : w' = w := by
  unfold callIf at h
  split_ifs at h
  · exact List.mem_singleton.1 h
  · cases h

/-- A posted functor, if any, is the one that was given. -/
theorem mem_postIf {t l : LoopId} {w : Work} {e : LoopId × Work} (h : e ∈ postIf t l w) :
    e = (l, w) := by
  unfold postIf at h
  split_ifs at h
  · cases h
  · exact List.mem_singleton.1 h

/-- The releases are those of the given pointers. -/
theorem mem_releases {cs : List ConnId} {w : Work} (h : w ∈ releases cs) :
    ∃ c ∈ cs, w = .conn c .release := by
  obtain ⟨c, hc, rfl⟩ := List.mem_map.1 h
  exact ⟨c, hc, rfl⟩

/-- A member function of a connection runs on a connection that still exists. -/
theorem execConn_eq_ok {t : ThreadId} {c : ConnId} {k : ConnTask} {after : List Work} :
    p.execConn t c k after = .ok q ↔ (p.conns c).destroyed = false ∧
      ∃ e, (p.conns c).conn.exec (some t) k = .ok e ∧
        q = (p.update c fun r => r.note k).applyEffect t c e after := by
  unfold execConn
  cases (p.conns c).destroyed
  · simp only [Bool.false_eq_true, if_false, bind_eq_ok, pure_eq_ok, true_and]
  · simp

/-- The last `shared_ptr` destroys the connection, which must be disconnected by then. -/
theorem release_eq_ok {c : ConnId} : p.release c = .ok q ↔
    (p.owners c = 0 ∧ (p.conns c).conn.state_ = .kDisconnected ∧
        q = p.update c fun r => { r with destroyed := true }) ∨
      (p.owners c ≠ 0 ∧ q = p) := by
  unfold release
  by_cases h : p.owners c = 0
  · simp only [h, if_true, check_bind_eq_ok, pure_eq_ok]
    simp
  · simp [h, pure_eq_ok]

/-! ## The connector -/

end Process

/-- The work that belongs to the connector. -/
def Work.ofConnector : Work → Bool
  | .connector _ => true
  | .handleTimer _ _ => true
  | .eraseTimer _ => true
  | .client (.newConnection _) => true
  | _ => false

/-- The events that may act on the connector. -/
def ProcessEvent.onConnector : ProcessEvent → Bool
  | .run _ _ => true
  | .clientCall _ .connect => true
  | .clientCall _ .stop => true
  | .connectorCall _ _ => true
  | .destroyClient _ => true
  | .connectDone _ _ => true
  | .timerExpires _ => true
  | _ => false

namespace Process

/-- The connector, its timers and sockets and its pending work are the same. -/
structure Apart (p q : Process) : Prop where
  connector : q.connector = p.connector
  timers : q.timers = p.timers
  sockets : q.sockets = p.sockets
  pending : SamePending Work.ofConnector p q

variable {p q r : Process}

namespace Apart

/-- Nothing is what the connector sees. -/
theorem refl (p : Process) : Apart p p :=
  ⟨rfl, rfl, rfl, SamePending.refl _ p⟩

/-- Two changes after each other that the connector does not see. -/
theorem trans (hpq : Apart p q) (hqr : Apart q r) : Apart p r :=
  ⟨hqr.connector.trans hpq.connector, hqr.timers.trans hpq.timers,
    hqr.sockets.trans hpq.sockets, hpq.pending.trans hqr.pending⟩

/-- The connector does not see the calls and functors of others. -/
theorem schedule {t : ThreadId} {calls : List Work} {posts : List (LoopId × Work)}
    (hcalls : ∀ w ∈ calls, w.ofConnector = false)
    (hposts : ∀ e ∈ posts, e.2.ofConnector = false) : Apart p (p.schedule t calls posts) :=
  ⟨rfl, rfl, rfl, SamePending.schedule hcalls hposts⟩

/-- The connector does not see that another one's work item is begun. -/
theorem pop {t : ThreadId} {w : Work} {rest : List (ThreadId × Work)}
    (h : Keyed.takeFirst t p.stack = some (w, rest)) (hw : w.ofConnector = false) :
    Apart p { p with stack := rest } :=
  ⟨rfl, rfl, rfl, SamePending.pop h hw⟩

/-- The connector does not see a connection change. -/
theorem update {c : ConnId} {f : Connection → Connection} : Apart p (p.update c f) :=
  ⟨rfl, rfl, rfl, SamePending.of_eq rfl rfl⟩

/-- The connector does not see the server change. -/
theorem server {s : TcpServer} : Apart p { p with server := s } :=
  ⟨rfl, rfl, rfl, SamePending.of_eq rfl rfl⟩

/-- The connector does not see the other fields of the client change. -/
theorem client {s : TcpClient} : Apart p { p with client := s } :=
  ⟨rfl, rfl, rfl, SamePending.of_eq rfl rfl⟩

/-- The connector does not see a loop being stopped. -/
theorem stopped {f : LoopId → Bool} : Apart p { p with stopped := f } :=
  ⟨rfl, rfl, rfl, SamePending.of_eq rfl rfl⟩

/-- The connector does not see the effect of a connection's function. -/
theorem applyEffect {t : ThreadId} {c : ConnId} {e : Effect} {after : List Work}
    (hafter : ∀ w ∈ after, w.ofConnector = false) : Apart p (p.applyEffect t c e after) := by
  refine update.trans (schedule ?_ ?_)
  · intro w hw
    rcases List.mem_append.1 hw with hw | hw
    · obtain ⟨k, -, rfl⟩ := List.mem_map.1 hw
      rfl
    · exact hafter w hw
  · intro e' he
    obtain ⟨f, -, rfl⟩ := List.mem_map.1 he
    cases f <;> rfl

/-- The connector does not see a connection's function run. -/
theorem execConn {t : ThreadId} {c : ConnId} {k : ConnTask} {after : List Work}
    (hafter : ∀ w ∈ after, w.ofConnector = false) (h : p.execConn t c k after = .ok q) :
    Apart p q := by
  obtain ⟨-, e, -, rfl⟩ := execConn_eq_ok.1 h
  exact update.trans (applyEffect hafter)

/-- The connector does not see the kernel complete an operation of a connection. -/
theorem complete {c : ConnId} {r : TcpConnection × ConnTask} : Apart p (p.complete c r) :=
  update.trans ⟨rfl, rfl, rfl, SamePending.post rfl⟩

/-- The connector does not see a close callback being set. -/
theorem setCloseCallback {t : ThreadId} {c : ConnId} :
    Apart p (TcpClient.setCloseCallback p t c) := by
  unfold TcpClient.setCloseCallback
  split_ifs
  · exact client.trans update
  · refine client.trans (schedule ?_ ?_)
    · intro w hw
      cases hw
    · intro e he
      obtain rfl := List.mem_singleton.1 he
      rfl

end Apart

/-- A call made at once is none of the connector's if the given one is not. -/
theorem callIf_ofConnector {t l : LoopId} {w : Work} (hw : w.ofConnector = false) :
    ∀ w' ∈ callIf t l w, w'.ofConnector = false := by
  intro w' h
  rw [mem_callIf h]
  exact hw

/-- A posted functor is none of the connector's if the given one is not. -/
theorem postIf_ofConnector {t l : LoopId} {w : Work} (hw : w.ofConnector = false) :
    ∀ e ∈ postIf t l w, e.2.ofConnector = false := by
  intro e h
  rw [mem_postIf h]
  exact hw

/-- Giving up a pointer to a connection is none of the connector's work. -/
theorem releases_ofConnector (cs : List ConnId) : ∀ w ∈ releases cs, w.ofConnector = false := by
  intro w h
  obtain ⟨c, -, rfl⟩ := mem_releases h
  rfl

/-- The server is apart from the connector. -/
theorem Apart.execServer {t : ThreadId} {k : ServerTask} (h : TcpServer.exec p t k = .ok q) :
    Apart p q := by
  obtain ⟨-, h⟩ := TcpServer.exec_eq_ok.1 h
  cases k with
  | removeConnection c =>
    obtain rfl := h
    exact Apart.schedule (callIf_ofConnector rfl) (postIf_ofConnector rfl)
  | removeConnectionInLoop c =>
    obtain ⟨-, -, rfl⟩ := TcpServer.removeConnectionInLoop_eq_ok.1 h
    refine Apart.server.trans (Apart.update.trans (Apart.schedule ?_ (postIf_ofConnector rfl)))
    intro w hw
    rcases List.mem_append.1 hw with hw | hw
    · rcases List.mem_append.1 hw with hw | hw
      · exact releases_ofConnector _ w hw
      · exact callIf_ofConnector rfl w hw
    · obtain rfl := List.mem_singleton.1 hw
      rfl
  | destroyNext =>
    obtain rfl := h
    rcases TcpServer.destroyNext_cases p t with ⟨-, h⟩ | ⟨k, c, -, h⟩
    · rw [h]
      exact Apart.schedule (by simp [Work.ofConnector]) (by simp)
    · rw [h]
      refine Apart.server.trans (Apart.update.trans (Apart.schedule ?_ (postIf_ofConnector rfl)))
      intro w hw
      rcases List.mem_append.1 hw with hw | hw
      · exact callIf_ofConnector rfl w hw
      · simp only [List.mem_cons, List.not_mem_nil, or_false] at hw
        rcases hw with rfl | rfl <;> rfl
  | quit =>
    obtain rfl := h
    unfold TcpServer.quit
    refine Apart.trans ?_ (Apart.schedule ?_ (by simp))
    · exact ⟨rfl, rfl, rfl, SamePending.of_eq rfl rfl⟩
    intro w hw
    rcases List.mem_append.1 hw with hw | hw
    · obtain ⟨l, -, hw⟩ := List.mem_flatMap.1 hw
      simp only [List.mem_cons, List.not_mem_nil, or_false] at hw
      rcases hw with rfl | rfl <;> rfl
    · obtain rfl := List.mem_singleton.1 hw
      rfl
  | quitLoop l =>
    obtain rfl := h
    exact Apart.stopped
  | joinLoop l =>
    obtain rfl := h
    exact Apart.refl q
  | destroyed =>
    obtain rfl := h
    exact Apart.server

/-- Work that does not belong to the connector leaves it alone, unless the client removes a
connection and may reconnect. -/
theorem exec_apart {t : ThreadId} {peer : List Char} {w : Work} (h : p.exec t peer w = .ok q)
    (hw : w.ofConnector = false) (hremove : ∀ c, w ≠ .client (.removeConnection c)) :
    Apart p q := by
  cases w with
  | conn c k =>
    rcases exec_conn_eq_ok.1 h with ⟨-, h⟩ | ⟨-, -, rfl⟩ | ⟨-, rfl⟩ | ⟨-, -, -, h⟩
    · rcases release_eq_ok.1 h with ⟨-, -, rfl⟩ | ⟨-, rfl⟩
      · exact Apart.update
      · exact Apart.refl q
    · refine Apart.schedule ?_ (by simp)
      intro w hw
      obtain rfl := List.mem_singleton.1 hw
      unfold Connection.closeTask
      cases (p.conns c).closeCallback_ <;> rfl
    · exact Apart.refl q
    · exact Apart.execConn (by simp) h
  | bound c k => exact Apart.execConn (by simp [Work.ofConnector]) h
  | setCloseCallback c =>
    obtain rfl := pure_eq_ok.1 h
    exact Apart.update.trans (Apart.schedule (by simp [Work.ofConnector]) (by simp))
  | server k => exact Apart.execServer h
  | client k =>
    obtain ⟨-, h⟩ := exec_client_eq_ok.1 h
    cases k with
    | newConnection socket => cases hw
    | removeConnection c => exact absurd rfl (hremove c)
    | destroyed =>
      obtain rfl := h
      exact Apart.client.trans (Apart.schedule (releases_ofConnector _) (by simp))
  | connector k => cases hw
  | handleTimer timer error => cases hw
  | eraseTimer timer => cases hw

/-- Events that do not act on the connector leave it alone. -/
theorem step_apart {e : ProcessEvent} (h : step e p = .ok q) (he : e.onConnector = false) :
    Apart p q := by
  cases e with
  | dequeue l =>
    obtain ⟨-, w, rest, htake, rfl⟩ := dequeue_eq_ok.1 h
    exact ⟨rfl, rfl, rfl, SamePending.dequeue htake⟩
  | return_ t =>
    obtain ⟨c, k, rest, htake, rfl⟩ := return_eq_ok.1 h
    exact Apart.pop htake rfl
  | call t c x =>
    obtain ⟨-, e, -, rfl⟩ := call_eq_ok.1 h
    exact Apart.applyEffect (by simp)
  | keep t c =>
    obtain ⟨-, rfl⟩ := keep_eq_ok.1 h
    exact Apart.update
  | keepConnection t =>
    obtain ⟨-, c, -, rfl⟩ := keepConnection_eq_ok.1 h
    exact Apart.update
  | drop t c =>
    obtain ⟨-, rfl⟩ := drop_eq_ok.1 h
    exact Apart.update.trans (Apart.schedule (by simp [Work.ofConnector]) (by simp))
  | consume t c len =>
    obtain ⟨-, b, -, rfl⟩ := consume_eq_ok.1 h
    exact Apart.update
  | receive c data =>
    obtain ⟨-, r, -, rfl⟩ := receive_eq_ok.1 h
    exact Apart.complete
  | readFails c e =>
    obtain ⟨-, r, -, rfl⟩ := readFails_eq_ok.1 h
    exact Apart.complete
  | transmit c k stale =>
    obtain ⟨-, r, -, rfl⟩ := transmit_eq_ok.1 h
    exact Apart.complete
  | sendFails c e =>
    obtain ⟨-, r, -, rfl⟩ := sendFails_eq_ok.1 h
    exact Apart.complete
  | accept ioLoop =>
    obtain ⟨-, rfl⟩ := accept_eq_ok.1 h
    unfold TcpServer.newConnection
    refine Apart.trans ?_ (Apart.schedule ?_ (postIf_ofConnector rfl))
    · exact ⟨rfl, rfl, rfl, SamePending.of_eq rfl rfl⟩
    intro w hw
    rcases List.mem_append.1 hw with hw | hw
    · rcases List.mem_append.1 hw with hw | hw
      · exact releases_ofConnector _ w hw
      · exact callIf_ofConnector rfl w hw
    · obtain rfl := List.mem_singleton.1 hw
      rfl
  | destroyServer t =>
    obtain ⟨-, h⟩ := destroyServer_eq_ok.1 h
    obtain ⟨-, rfl⟩ := TcpServer.destructor_eq_ok.1 h
    exact Apart.server.trans (Apart.schedule (by simp [Work.ofConnector]) (by simp))
  | clientCall t x =>
    obtain ⟨-, rfl⟩ := clientCall_eq_ok.1 h
    cases x with
    | connect => cases he
    | stop => cases he
    | enableRetry => exact Apart.client
    | disconnect =>
      unfold clientCall TcpClient.disconnect
      cases p.client.connection_ with
      | none => exact Apart.client
      | some c => exact Apart.client.trans (Apart.applyEffect (by simp))
  | run | connectorCall | destroyClient | connectDone | timerExpires => cases he

/-- The client removes a connection: the connector may be told to reconnect. -/
theorem removeConnection_connector {t : ThreadId} {c : ConnId}
    (h : TcpClient.removeConnection p t c = .ok q) :
    q.connector = p.connector ∧ q.timers = p.timers ∧ q.sockets = p.sockets ∧
      ∀ f : Work → Nat, (∀ w, w.ofConnector = false → f w = 0) →
        weigh f q.pending = weigh f p.pending +
          if p.client.retry_ && p.client.connect_ then f (.connector .restart) else 0 := by
  obtain ⟨-, -, -, rfl⟩ := TcpClient.removeConnection_eq_ok.1 h
  refine ⟨rfl, rfl, rfl, ?_⟩
  intro f hf
  rw [weigh_schedule]
  have hrelease : f (.conn c .release) = 0 := hf _ rfl
  have hbound : f (.bound c .connectDestroyed) = 0 := hf _ rfl
  have hsame : weigh f ({ p with client := { p.client with connection_ := none } } :
      Process).pending = weigh f p.pending := rfl
  rw [hsame]
  split_ifs <;> simp [hrelease, hbound]

/-- The destructor of a client with a connection leaves the connector alone. -/
theorem destructor_apart {t : ThreadId} {c : ConnId} (hc : p.client.connection_ = some c)
    (h : TcpClient.destructor p t = .ok q) : Apart p q := by
  rcases TcpClient.destructor_eq_ok.1 h with ⟨hnone, -⟩ | ⟨d, -, -, ⟨-, rfl⟩ | ⟨-, rfl⟩⟩
  · rw [hc] at hnone
    cases hnone
  · exact Apart.setCloseCallback.trans (Apart.applyEffect (by simp [Work.ofConnector]))
  · exact Apart.setCloseCallback.trans
      (Apart.schedule (by simp [Work.ofConnector]) (by simp))

end Process

end LibNetToy
