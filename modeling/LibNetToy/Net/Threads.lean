import LibNetToy.Net.Affinity

/-!
# Stacks and queues

Code makes calls and posts functors, and the kernel queues completions; a loop takes an entry
of its queue only when its thread has nothing else to do.  Hence a completion handler is alone
on its stack, and only functors and completion handlers are ever queued.
-/

namespace LibNetToy

/-- A completion handler. -/
def Work.isCompletion : Work → Bool
  | .conn _ k => k.isHandler
  | .connector (.handleConnect _ _) => true
  | .handleTimer _ _ => true
  | _ => false

/-- A part of the destructor of the server. -/
def Work.endsServer : Work → Bool
  | .server .destroyNext => true
  | .server .quit => true
  | .server (.quitLoop _) => true
  | .server (.joinLoop _) => true
  | .server .destroyed => true
  | _ => false

/-- The end of the destructor of the client. -/
def Work.endsClient : Work → Bool
  | .client .destroyed => true
  | _ => false

/-- What code calls that is not part of a destructor. -/
def Work.isCalled : Work → Bool
  | .conn _ k => !k.isHandler
  | .connector (.handleConnect _ _) => false
  | .handleTimer _ _ => false
  | .client .destroyed => false
  | .server k => !(Work.server k).endsServer
  | _ => true

/-- What running the work item `w` can call. -/
def Work.mayCall (w v : Work) : Bool :=
  v.isCalled || (w.endsServer && v.endsServer)

/-- What can be in a queue. -/
def Work.isQueued : Work → Bool
  | .conn _ k => k.isHandler || k.isInLoop
  | .bound _ _ => true
  | .setCloseCallback _ => true
  | .server (.removeConnectionInLoop _) => true
  | .connector .restart => false
  | .connector _ => true
  | .handleTimer _ _ => true
  | _ => false

/-- A member function of a connection may be called by anything that runs. -/
theorem Work.isCalled_conn {c : ConnId} {k : ConnTask} (hk : k.isHandler = false) :
    (Work.conn c k).isCalled = true :=
  congrArg not hk

/-- What anything may call, every work item may call. -/
theorem Work.mayCall_of_isCalled (w : Work) {v : Work} (hv : v.isCalled = true) :
    w.mayCall v = true :=
  Bool.or_eq_true_iff.2 (Or.inl hv)

/-- The end of the server is no completion handler. -/
theorem Work.not_isCompletion_of_endsServer {w : Work} (hw : w.endsServer = true) :
    w.isCompletion = false := by
  cases w with
  | server k => rfl
  | conn | bound | setCloseCallback | client | connector | handleTimer | eraseTimer => cases hw

/-- The end of the client is no completion handler. -/
theorem Work.not_isCompletion_of_endsClient {w : Work} (hw : w.endsClient = true) :
    w.isCompletion = false := by
  cases w with
  | client k => rfl
  | conn | bound | setCloseCallback | server | connector | handleTimer | eraseTimer => cases hw

/-- The end of the server is never queued. -/
theorem Work.not_isQueued_of_endsServer {w : Work} (hw : w.endsServer = true) :
    w.isQueued = false := by
  cases w with
  | server k =>
    cases k with
    | removeConnection | removeConnectionInLoop => cases hw
    | destroyNext | quit | quitLoop | joinLoop | destroyed => rfl
  | conn | bound | setCloseCallback | client | connector | handleTimer | eraseTimer => cases hw

/-- A completion handler is not called. -/
theorem Work.not_isCompletion {w : Work} (hw : w.isCalled = true) : w.isCompletion = false := by
  cases w with
  | conn c k => exact (Bool.not_eq_true' _).mp hw
  | connector k =>
    cases k with
    | handleConnect socket error => cases hw
    | startInLoop | stopInLoop | restart => rfl
  | handleTimer timer error => cases hw
  | bound c k => rfl
  | setCloseCallback c => rfl
  | server k => rfl
  | client k => rfl
  | eraseTimer timer => rfl

namespace Process

variable {p q r : Process} {t : ThreadId}

/-- The thread makes calls of the given kind, and functors are queued. -/
structure Pushes (called : Work → Bool) (t : ThreadId) (p q : Process) : Prop where
  stack : ∃ calls : List Work, q.stack = calls.map (fun w => (t, w)) ++ p.stack ∧
    ∀ w ∈ calls, called w = true
  queue : ∃ posts : List (LoopId × Work), q.queue = p.queue ++ posts ∧
    ∀ e ∈ posts, e.2.isQueued = true

namespace Pushes

variable {called : Work → Bool}

/-- Nothing is pushed when the stacks and queues stay. -/
theorem of_eq (hstack : q.stack = p.stack) (hqueue : q.queue = p.queue) : Pushes called t p q :=
  ⟨⟨[], hstack, nofun⟩, ⟨[], by rw [hqueue, List.append_nil], nofun⟩⟩

/-- More may be called. -/
theorem mono {called' : Work → Bool} (h : Pushes called t p q)
    (hcalled : ∀ w, called w = true → called' w = true) : Pushes called' t p q := by
  obtain ⟨⟨calls, hstack, hcalls⟩, hqueue⟩ := h
  exact ⟨⟨calls, hstack, fun w hw => hcalled w (hcalls w hw)⟩, hqueue⟩

/-- Pushes after pushes on one thread. -/
theorem trans (hpq : Pushes called t p q) (hqr : Pushes called t q r) : Pushes called t p r := by
  obtain ⟨⟨calls, hstack, hcalls⟩, posts, hqueue, hposts⟩ := hpq
  obtain ⟨⟨calls', hstack', hcalls'⟩, posts', hqueue', hposts'⟩ := hqr
  refine ⟨⟨calls' ++ calls, ?_, ?_⟩, posts ++ posts', ?_, ?_⟩
  · rw [hstack', hstack, List.map_append, List.append_assoc]
  · intro w hw
    rcases List.mem_append.1 hw with hw | hw
    · exact hcalls' w hw
    · exact hcalls w hw
  · rw [hqueue', hqueue, List.append_assoc]
  · intro e he
    rcases List.mem_append.1 he with he | he
    · exact hposts e he
    · exact hposts' e he

/-- Calls on top of the stack, and functors behind the queues. -/
theorem schedule {calls : List Work} {posts : List (LoopId × Work)}
    (hcalls : ∀ w ∈ calls, called w = true) (hposts : ∀ e ∈ posts, e.2.isQueued = true) :
    Pushes called t p (p.schedule t calls posts) :=
  ⟨⟨calls, rfl, hcalls⟩, posts, rfl, hposts⟩

/-- A functor is queued. -/
theorem post {l : LoopId} {w : Work} (hw : w.isQueued = true) :
    Pushes called t p { p with queue := p.queue ++ [(l, w)] } := by
  refine ⟨⟨[], rfl, nofun⟩, [(l, w)], rfl, ?_⟩
  intro e he
  rw [List.mem_singleton.1 he]
  exact hw

/-- A call made at once is one of those that may be made. -/
theorem callIf {l : LoopId} {w : Work} (hw : w.isCalled = true) :
    ∀ w' ∈ Process.callIf t l w, w'.isCalled = true := by
  intro w' h
  rw [mem_callIf h]
  exact hw

/-- A functor posted instead is one of those that are queued. -/
theorem postIf {l : LoopId} {w : Work} (hw : w.isQueued = true) :
    ∀ e ∈ Process.postIf t l w, e.2.isQueued = true := by
  intro e he
  rw [mem_postIf he]
  exact hw

/-- Pointers are given up by calls. -/
theorem releases (cs : List ConnId) : ∀ w ∈ Process.releases cs, w.isCalled = true := by
  intro w hw
  obtain ⟨c, -, rfl⟩ := mem_releases hw
  rfl

/-- The effect of a member function. -/
theorem applyEffect {c : ConnId} {eff : Effect} {after : List Work}
    (hcalled : ∀ w : Work, w.isCalled = true → called w = true)
    (hcalls : ∀ k ∈ eff.calls, k.isHandler = false)
    (hposts : ∀ f ∈ eff.posts, (f.work c).isQueued = true)
    (hafter : ∀ w ∈ after, called w = true) :
    Pushes called t p (p.applyEffect t c eff after) := by
  refine trans (of_eq (q := p.update c fun r => { r with conn := eff.conn }) rfl rfl)
    (schedule ?_ ?_)
  · intro w hw
    rcases List.mem_append.1 hw with hw | hw
    · obtain ⟨k, hk, rfl⟩ := List.mem_map.1 hw
      exact hcalled _ (Work.isCalled_conn (hcalls k hk))
    · exact hafter w hw
  · intro e he
    obtain ⟨f, hf, rfl⟩ := List.mem_map.1 he
    exact hposts f hf

/-- A call from outside pushes what the function has left to do. -/
theorem call {c : ConnId} {x : ConnCall} {eff : Effect} {after : List Work}
    {d : TcpConnection} (hcalled : ∀ w : Work, w.isCalled = true → called w = true)
    (heff : d.call (some t) x = .ok eff) (hafter : ∀ w ∈ after, called w = true) :
    Pushes called t p (p.applyEffect t c eff after) := by
  obtain ⟨hcalls, hposts⟩ := TcpConnection.call_inLoop heff
  refine applyEffect hcalled ?_ ?_ hafter
  · intro k hk
    rcases hcalls k hk with hk | rfl
    · cases k <;> first | rfl | cases hk
    · rfl
  · intro f hf
    have hk := hposts f hf
    cases f with
    | raw k => exact Bool.or_eq_true_iff.2 (Or.inr hk)
    | bound k => rfl

/-- A member function of a connection pushes what it has left to do. -/
theorem execConn {c : ConnId} {k : ConnTask} {after : List Work}
    (hafter : ∀ w ∈ after, w.isCalled = true) (h : p.execConn t c k after = .ok q) :
    Pushes Work.isCalled t p q := by
  obtain ⟨-, eff, heff, rfl⟩ := execConn_eq_ok.1 h
  obtain ⟨hposts, hcalls⟩ := TcpConnection.exec_followUp heff
  refine trans (of_eq (q := p.update c fun r => r.note k) rfl rfl)
    (applyEffect (fun _ => id) ?_ ?_ hafter)
  · intro k hk
    have hfollow := hcalls k hk
    cases k <;> first | rfl | cases hfollow
  · rw [hposts]
    exact nofun

/-- The close callback of the server calls or posts the rest of its work. -/
theorem removeConnection {c : ConnId} :
    Pushes Work.isCalled t p (TcpServer.removeConnection p t c) :=
  schedule (callIf rfl) (postIf rfl)

/-- The server has the connection destroyed by a functor. -/
theorem removeConnectionInLoop {c : ConnId} (h : TcpServer.removeConnectionInLoop p t c = .ok q) :
    Pushes Work.isCalled t p q := by
  obtain ⟨-, -, rfl⟩ := TcpServer.removeConnectionInLoop_eq_ok.1 h
  refine ⟨⟨_, rfl, ?_⟩, _, rfl, postIf rfl⟩
  intro w hw
  rcases List.mem_append.1 hw with hw | hw
  · rcases List.mem_append.1 hw with hw | hw
    · exact releases _ w hw
    · exact callIf rfl w hw
  · rw [List.mem_singleton.1 hw]
    rfl

/-- What the tasks of the server push. -/
theorem execServer {k : ServerTask} (h : TcpServer.exec p t k = .ok q) :
    Pushes (Work.mayCall (.server k)) t p q := by
  obtain ⟨-, h⟩ := TcpServer.exec_eq_ok.1 h
  cases k with
  | removeConnection c =>
    obtain rfl := h
    exact removeConnection.mono fun v => Work.mayCall_of_isCalled _
  | removeConnectionInLoop c =>
    exact (removeConnectionInLoop h).mono fun v => Work.mayCall_of_isCalled _
  | destroyNext =>
    obtain rfl := h
    rcases TcpServer.destroyNext_cases p t with ⟨-, h⟩ | ⟨k, c, -, h⟩
    · rw [h]
      refine schedule ?_ nofun
      intro w hw
      rw [List.mem_singleton.1 hw]
      rfl
    · rw [h]
      refine ⟨⟨_, rfl, ?_⟩, _, rfl, postIf rfl⟩
      intro w hw
      rcases List.mem_append.1 hw with hw | hw
      · exact Work.mayCall_of_isCalled _ (callIf rfl w hw)
      · simp only [List.mem_cons, List.not_mem_nil, or_false] at hw
        rcases hw with rfl | rfl <;> rfl
  | quit =>
    obtain rfl := h
    refine ⟨⟨_, rfl, ?_⟩, [], rfl, nofun⟩
    intro w hw
    rcases List.mem_append.1 hw with hw | hw
    · obtain ⟨l, -, hw⟩ := List.mem_flatMap.1 hw
      simp only [List.mem_cons, List.not_mem_nil, or_false] at hw
      rcases hw with rfl | rfl <;> rfl
    · rw [List.mem_singleton.1 hw]
      rfl
  | quitLoop l | joinLoop l | destroyed =>
    obtain rfl := h
    exact of_eq rfl rfl

/-- What the tasks of the client push. -/
theorem execClient {peer : List Char} {k : ClientTask} (h : p.exec t peer (.client k) = .ok q) :
    Pushes Work.isCalled t p q := by
  obtain ⟨-, h⟩ := exec_client_eq_ok.1 h
  cases k with
  | newConnection socket =>
    obtain ⟨-, rfl⟩ := TcpClient.newConnection_eq_ok.1 h
    refine ⟨⟨_, rfl, ?_⟩, [], rfl, nofun⟩
    intro w hw
    rcases List.mem_append.1 hw with hw | hw
    · exact releases _ w hw
    · simp only [List.mem_cons, List.not_mem_nil, or_false] at hw
      rcases hw with rfl | rfl <;> rfl
  | removeConnection c =>
    obtain ⟨-, -, -, rfl⟩ := TcpClient.removeConnection_eq_ok.1 h
    refine ⟨⟨_, rfl, ?_⟩, _, rfl, by simp [Work.isQueued]⟩
    intro w hw
    rcases List.mem_cons.1 hw with rfl | hw
    · rfl
    · split_ifs at hw
      · rw [List.mem_singleton.1 hw]
        rfl
      · cases hw
  | destroyed =>
    obtain rfl := h
    exact ⟨⟨_, rfl, releases _⟩, [], rfl, nofun⟩

/-- `retry` calls nothing. -/
theorem retry {held : Option SockId} (h : Connector.retry p held = .ok q) :
    Pushes Work.isCalled t p q := by
  rcases Connector.retry_eq_ok.1 h with ⟨-, rfl⟩ | ⟨k, -, -, -, ⟨-, rfl⟩ | ⟨-, rfl⟩⟩ <;>
    exact of_eq rfl rfl

/-- What the tasks of the connector push. -/
theorem execConnector {k : ConnectorTask} (h : Connector.exec p t k = .ok q) :
    Pushes Work.isCalled t p q := by
  obtain ⟨-, h⟩ := Connector.exec_eq_ok.1 h
  cases k with
  | startInLoop =>
    rcases Connector.startInLoop_eq_ok.1 h with ⟨-, ⟨-, -, rfl⟩ | ⟨-, rfl⟩⟩ <;>
      exact of_eq rfl rfl
  | stopInLoop =>
    rcases Connector.stopInLoop_eq_ok.1 h with ⟨-, ⟨-, h⟩ | ⟨-, rfl⟩⟩
    · exact trans (of_eq (q := { p with connector := { p.connector with
        state_ := .kDisconnected } }) rfl rfl) (retry h)
    · exact of_eq rfl rfl
  | restart =>
    obtain ⟨-, rfl⟩ := Connector.restart_eq_ok.1 h
    exact of_eq rfl rfl
  | handleConnect socket error =>
    cases error with
    | none =>
      obtain rfl := pure_eq_ok.1 h
      exact ⟨⟨_, rfl, by simp [Work.isCalled]⟩, [], rfl, nofun⟩
    | some e =>
      exact trans (of_eq (q := { p with connector := { p.connector with
        state_ := .kDisconnected } }) rfl rfl) (retry h)

/-- A work item pushes only what it may call. -/
theorem exec {peer : List Char} {w : Work} (h : p.exec t peer w = .ok q) :
    Pushes w.mayCall t p q := by
  cases w with
  | conn c k =>
    rcases exec_conn_eq_ok.1 h with ⟨-, h⟩ | ⟨-, -, rfl⟩ | ⟨-, rfl⟩ | ⟨-, -, -, h⟩
    · rcases release_eq_ok.1 h with ⟨-, -, rfl⟩ | ⟨-, rfl⟩ <;> exact of_eq rfl rfl
    · refine ⟨⟨_, rfl, ?_⟩, [], rfl, nofun⟩
      intro w hw
      rw [List.mem_singleton.1 hw]
      unfold Connection.closeTask
      split <;> rfl
    · exact of_eq rfl rfl
    · have hafter : ∀ w ∈ ([] : List Work), w.isCalled = true := nofun
      exact (execConn hafter h).mono fun v => Work.mayCall_of_isCalled _
  | bound c k =>
    have hafter : ∀ w ∈ [Work.conn c .release], w.isCalled = true := by
      intro w hw
      rw [List.mem_singleton.1 hw]
      rfl
    exact (execConn hafter h).mono fun v => Work.mayCall_of_isCalled _
  | setCloseCallback c =>
    obtain rfl := pure_eq_ok.1 h
    refine ⟨⟨_, rfl, ?_⟩, [], rfl, nofun⟩
    intro w hw
    rw [List.mem_singleton.1 hw]
    rfl
  | server k => exact execServer h
  | client k => exact (execClient h).mono fun v => Work.mayCall_of_isCalled _
  | connector k => exact (execConnector h).mono fun v => Work.mayCall_of_isCalled _
  | handleTimer timer error =>
    obtain rfl := pure_eq_ok.1 h
    rcases TimerQueue.handleTimer_cases p t timer error with ⟨-, hq⟩ | ⟨-, -, hq⟩ | ⟨-, -, hq⟩
    · rw [hq]
      exact of_eq rfl rfl
    · rw [hq]
      refine ⟨⟨_, rfl, ?_⟩, [], rfl, nofun⟩
      intro w hw
      simp only [List.mem_cons, List.not_mem_nil, or_false] at hw
      rcases hw with rfl | rfl <;> rfl
    · rw [hq]
      exact of_eq rfl rfl
  | eraseTimer timer =>
    obtain rfl := pure_eq_ok.1 h
    exact of_eq rfl rfl

/-- `Connector::start` calls or posts `startInLoop`. -/
theorem start : Pushes Work.isCalled t p (Connector.start p t) :=
  ⟨⟨_, rfl, callIf rfl⟩, _, rfl, postIf rfl⟩

/-- `Connector::stop` posts `stopInLoop`. -/
theorem stop : Pushes Work.isCalled t p (Connector.stop p) := by
  have hpost : Pushes Work.isCalled t p { p with
      connector := { p.connector with connect_ := false }
      queue := p.queue ++ [(p.connector.loop_, .connector .stopInLoop)] } :=
    trans (of_eq (q := { p with connector := { p.connector with connect_ := false } }) rfl rfl)
      (post rfl)
  refine hpost.trans ?_
  unfold Connector.stop
  rcases TimerQueue.cancel_cases { p with
      connector := { p.connector with connect_ := false }
      queue := p.queue ++ [(p.connector.loop_, .connector .stopInLoop)] }
      p.connector.reConnectTimer_ with hq | ⟨id, -, -, hq⟩ | ⟨id, s, -, -, -, hq⟩
  · rw [hq]
    exact of_eq rfl rfl
  · rw [hq]
    exact ⟨⟨[], rfl, nofun⟩, _, rfl, by simp [Work.isQueued]⟩
  · rw [hq]
    exact of_eq rfl rfl

/-- The kernel queues a handler. -/
theorem complete {c : ConnId} {s : TcpConnection × ConnTask} (hs : s.2.isHandler = true) :
    Pushes Work.isCalled t p (p.complete c s) := by
  refine ⟨⟨[], rfl, nofun⟩, _, rfl, ?_⟩
  intro e he
  rw [List.mem_singleton.1 he]
  exact Bool.or_eq_true_iff.2 (Or.inl hs)

/-- What the destructor of the client pushes. -/
theorem destructor (h : TcpClient.destructor p t = .ok q) :
    Pushes (fun w => w.isCalled || w.endsClient) t p q := by
  have hweak : ∀ w : Work, w.isCalled = true → (w.isCalled || w.endsClient) = true :=
    fun w hw => Bool.or_eq_true_iff.2 (Or.inl hw)
  have hset : ∀ c, Pushes (fun w => w.isCalled || w.endsClient) t p
      (TcpClient.setCloseCallback p t c) := by
    intro c
    unfold TcpClient.setCloseCallback
    split_ifs
    · exact of_eq rfl rfl
    · exact ⟨⟨[], rfl, nofun⟩, _, rfl, by simp [Work.isQueued]⟩
  have hafter : ∀ c, ∀ w ∈ [Work.conn c .release, .client .destroyed],
      (w.isCalled || w.endsClient) = true := by
    intro c w hw
    simp only [List.mem_cons, List.not_mem_nil, or_false] at hw
    rcases hw with rfl | rfl <;> rfl
  rcases TcpClient.destructor_eq_ok.1 h with ⟨-, rfl⟩ | ⟨c, -, -, ⟨-, rfl⟩ | ⟨-, rfl⟩⟩
  · have hstop : Pushes Work.isCalled t p (Connector.stop { p with client := { p.client with
        life := .destructing } }) :=
      trans (of_eq (q := { p with client := { p.client with life := .destructing } }) rfl rfl)
        stop
    refine (hstop.mono hweak).trans (schedule ?_ nofun)
    intro w hw
    rw [List.mem_singleton.1 hw]
    rfl
  · exact (hset c).trans (call (x := .forceClose) (d := (p.conns c).conn) hweak rfl (hafter c))
  · exact (hset c).trans (schedule (hafter c) nofun)

end Pushes

/-! ## Steps -/

/-- Who reaches a connection is code of the user. -/
theorem userRuns_of_reaches {c : ConnId} (h : p.reaches t c = true) : p.userRuns t = true := by
  unfold reaches at h
  rw [Bool.or_eq_true, Bool.and_eq_true] at h
  rcases h with ⟨h, -⟩ | h
  · exact h
  · unfold inCallbackOf at h
    unfold userRuns
    split at h
    · rename_i d k rest hstack
      rw [hstack]
    · cases h

/-- What a step does to stacks and queues. -/
inductive Shifts (called : Work → Bool) (p q : Process) : Prop
  | takes {l : LoopId} {w : Work} {rest : List (LoopId × Work)} (hempty : p.stackOf l = [])
      (htake : Keyed.takeFirst l p.queue = some (w, rest)) (hstack : q.stack = (l, w) :: p.stack)
      (hqueue : q.queue = rest) : Shifts called p q
  | runs {t : ThreadId} {w : Work} {rest : List (ThreadId × Work)}
      (htake : Keyed.takeFirst t p.stack = some (w, rest))
      (hrun : (∃ peer, step (.run t peer) p = .ok q) ∨ ∃ c k, w = .conn c (.inCallback k))
      (hpushes : Pushes called t { p with stack := rest } q) : Shifts called p q
  | calls {t : ThreadId} (hready : p.userRuns t = true ∨ p.stackOf t = [])
      (hpushes : Pushes called t p q) : Shifts called p q
  | completes (hstack : q.stack = p.stack) (hpushes : Pushes called p.server.loop_ p q) :
      Shifts called p q

/-- More may be called. -/
theorem Shifts.mono {called called' : Work → Bool} (h : Shifts called p q)
    (hcalled : ∀ w, called w = true → called' w = true) : Shifts called' p q := by
  cases h with
  | takes hempty htake hstack hqueue => exact .takes hempty htake hstack hqueue
  | runs htake hrun hpushes => exact .runs htake hrun (hpushes.mono hcalled)
  | calls hready hpushes => exact .calls hready (hpushes.mono hcalled)
  | completes hstack hpushes => exact .completes hstack (hpushes.mono hcalled)

/-- What weighs nothing when it is called or queued is not added. -/
theorem Pushes.weigh_eq {called : Work → Bool} {f : Work → Nat} (h : Pushes called t p q)
    (hf : ∀ w, called w = true ∨ w.isQueued = true → f w = 0) :
    weigh f q.pending = weigh f p.pending := by
  obtain ⟨⟨calls, hstack, hcalls⟩, posts, hqueue, hposts⟩ := h
  have hcallsZero : weigh f calls = 0 := weigh_eq_zero.2 fun w hw => hf w (Or.inl (hcalls w hw))
  have hpostsZero : weigh f (posts.map Prod.snd) = 0 := by
    apply weigh_eq_zero.2
    intro w hw
    obtain ⟨e, he, rfl⟩ := List.mem_map.1 hw
    exact hf e.2 (Or.inr (hposts e he))
  unfold pending
  rw [hstack, hqueue]
  simp only [List.map_append, weigh_append, Keyed.weigh_map_key]
  omega

/-- Work that is neither called nor queued does not become more. -/
theorem Shifts.weigh_le {called : Work → Bool} {f : Work → Nat} (h : Shifts called p q)
    (hf : ∀ w, called w = true ∨ w.isQueued = true → f w = 0) :
    weigh f q.pending ≤ weigh f p.pending := by
  cases h with
  | takes hempty htake hstack hqueue =>
    have hsame := weigh_dequeue f htake
    unfold pending at hsame ⊢
    rw [hstack, hqueue]
    exact Nat.le_of_eq hsame
  | runs htake hrun hpushes =>
    rw [hpushes.weigh_eq hf, weigh_pop f htake]
    exact Nat.le_add_left _ _
  | calls hready hpushes => exact Nat.le_of_eq (hpushes.weigh_eq hf)
  | completes hstack hpushes => exact Nat.le_of_eq (hpushes.weigh_eq hf)

/-- What is pending after a step was pending before, is called or is queued. -/
theorem Shifts.mem {called : Work → Bool} (h : Shifts called p q) {w : Work}
    (hw : w ∈ q.pending) : w ∈ p.pending ∨ called w = true ∨ w.isQueued = true := by
  by_contra hno
  rw [not_or, not_or] at hno
  have hle := h.weigh_le (f := fun v => if v = w then 1 else 0) (by
    intro v hv
    refine if_neg ?_
    rintro rfl
    rcases hv with hv | hv
    · exact hno.2.1 hv
    · exact hno.2.2 hv)
  have hone := le_weigh (f := fun v => if v = w then 1 else 0) hw
  rw [if_pos rfl] at hone
  obtain ⟨v, hv, hpos⟩ := exists_of_weigh_pos (Nat.lt_of_lt_of_le hone hle)
  split_ifs at hpos with heq
  · exact hno.1 (heq ▸ hv)
  · exact absurd hpos (Nat.lt_irrefl 0)

/-- What a step can call: parts of a destructor follow its start only. -/
def calledBy (p : Process) (e : ProcessEvent) (v : Work) : Bool :=
  v.isCalled || match e with
    | .run t _ => ((p.stackOf t).head?.any Work.endsServer) && v.endsServer
    | .destroyServer _ => v.endsServer
    | .destroyClient _ => v.endsClient
    | _ => false

/-- What anything may call, every event may call. -/
theorem calledBy_of_isCalled (p : Process) (e : ProcessEvent) {v : Work}
    (hv : v.isCalled = true) : p.calledBy e v = true :=
  Bool.or_eq_true_iff.2 (Or.inl hv)

/-- No event calls a completion handler. -/
theorem not_isCompletion_of_calledBy {e : ProcessEvent} {v : Work}
    (hv : p.calledBy e v = true) : v.isCompletion = false := by
  rcases Bool.or_eq_true_iff.1 hv with hv | hv
  · exact Work.not_isCompletion hv
  · split at hv
    · exact Work.not_isCompletion_of_endsServer (Bool.and_eq_true_iff.1 hv).2
    · exact Work.not_isCompletion_of_endsServer hv
    · exact Work.not_isCompletion_of_endsClient hv
    · cases hv

/-- The end of the destructor of the client is called by the destructor. -/
theorem destroyClient_of_calledBy {e : ProcessEvent}
    (h : p.calledBy e (.client .destroyed) = true) : ∃ t, e = .destroyClient t := by
  cases e with
  | destroyClient t => exact ⟨t, rfl⟩
  | run t peer =>
    have hno := (Bool.and_eq_true_iff.1 h).2
    cases hno
  | dequeue | return_ | call | keep | keepConnection | drop | consume | receive | readFails
  | transmit | sendFails | accept | destroyServer | clientCall | connectorCall | connectDone
  | timerExpires => cases h

/-- The parts of the destructor of the server are called by the destructor. -/
theorem serverEnds_of_calledBy {e : ProcessEvent} {w : Work} (hw : w.endsServer = true)
    (h : p.calledBy e w = true) : (∃ t peer v, e = .run t peer ∧
      (p.stackOf t).head? = some v ∧ v.endsServer = true) ∨ ∃ t, e = .destroyServer t := by
  have hcalled : w.isCalled = false := by
    cases w with
    | server k => exact congrArg not hw
    | conn | bound | setCloseCallback | client | connector | handleTimer | eraseTimer => cases hw
  have hclient : w.endsClient = false := by
    cases w with
    | client k => cases hw
    | conn | bound | setCloseCallback | server | connector | handleTimer | eraseTimer => rfl
  unfold calledBy at h
  rw [hcalled, Bool.false_or] at h
  cases e with
  | destroyServer t => exact Or.inr ⟨t, rfl⟩
  | destroyClient t =>
    have hends : w.endsClient = true := h
    rw [hclient] at hends
    cases hends
  | run t peer =>
    obtain ⟨v, hhead, hv⟩ := (Option.any_eq_true _ _).1 (Bool.and_eq_true_iff.1 h).1
    exact Or.inl ⟨t, peer, v, rfl, hhead, hv⟩
  | dequeue | return_ | call | keep | keepConnection | drop | consume | receive | readFails
  | transmit | sendFails | accept | clientCall | connectorCall | connectDone | timerExpires =>
    cases h

/-- How a step goes: a loop takes an entry of its queue, a thread does the next thing on its stack,
a callback returns, or a thread that is free to makes calls and functors and completions are
queued. -/
inductive Course (p q : Process) : ProcessEvent → Prop
  | dequeues {l : LoopId} {w : Work} {rest : List (LoopId × Work)} (hlive : p.stopped l = false)
      (hempty : p.stackOf l = []) (htake : Keyed.takeFirst l p.queue = some (w, rest))
      (hq : q = { p with stack := (l, w) :: p.stack, queue := rest }) : Course p q (.dequeue l)
  | runs {t : ThreadId} {peer : List Char} {w : Work} {rest : List (ThreadId × Work)}
      (htake : Keyed.takeFirst t p.stack = some (w, rest)) (hready : p.ready w = true)
      (hexec : ({ p with stack := rest } : Process).exec t peer w = .ok q) :
      Course p q (.run t peer)
  | returns {t : ThreadId} {c : ConnId} {k : Callback} {rest : List (ThreadId × Work)}
      (htake : Keyed.takeFirst t p.stack = some (.conn c (.inCallback k), rest))
      (hq : q = { p with stack := rest }) : Course p q (.return_ t)
  | calls {e : ProcessEvent} {t : ThreadId} (hrun : ∀ u peer, e ≠ .run u peer)
      (hready : p.userRuns t = true ∨ p.stackOf t = [])
      (hpushes : Pushes (p.calledBy e) t p q) : Course p q e
  | completes {e : ProcessEvent} (hrun : ∀ u peer, e ≠ .run u peer) (hstack : q.stack = p.stack)
      (hpushes : Pushes (p.calledBy e) p.server.loop_ p q) : Course p q e

/-- Code that is no part of a destructor makes calls. -/
theorem Course.called {e : ProcessEvent} (hrun : ∀ u peer, e ≠ .run u peer)
    (hready : p.userRuns t = true ∨ p.stackOf t = []) (hpushes : Pushes Work.isCalled t p q) :
    Course p q e :=
  .calls hrun hready (hpushes.mono fun _ => calledBy_of_isCalled p e)

/-- Completions are queued, or nothing is. -/
theorem Course.queued {e : ProcessEvent} (hrun : ∀ u peer, e ≠ .run u peer)
    (hstack : q.stack = p.stack) (hpushes : Pushes Work.isCalled p.server.loop_ p q) :
    Course p q e :=
  .completes hrun hstack (hpushes.mono fun _ => calledBy_of_isCalled p e)

/-- Every step takes one of the courses. -/
theorem course_of_step {e : ProcessEvent} (hstep : step e p = .ok q) : Course p q e := by
  cases e with
  | dequeue l =>
    obtain ⟨⟨hlive, hempty⟩, w, rest, htake, hq⟩ := dequeue_eq_ok.1 hstep
    exact .dequeues hlive hempty htake hq
  | run t peer =>
    obtain ⟨w, rest, htake, hready, hexec⟩ := run_eq_ok.1 hstep
    exact .runs htake hready hexec
  | return_ t =>
    obtain ⟨c, k, rest, htake, hq⟩ := return_eq_ok.1 hstep
    exact .returns htake hq
  | call t c x =>
    obtain ⟨hreaches, eff, heff, rfl⟩ := call_eq_ok.1 hstep
    exact .called nofun (Or.inl (userRuns_of_reaches hreaches))
      (Pushes.call (fun _ => id) heff nofun)
  | keep t c =>
    obtain ⟨-, rfl⟩ := keep_eq_ok.1 hstep
    exact .queued nofun rfl (Pushes.of_eq rfl rfl)
  | keepConnection t =>
    obtain ⟨-, c, -, rfl⟩ := keepConnection_eq_ok.1 hstep
    exact .queued nofun rfl (Pushes.of_eq rfl rfl)
  | drop t c =>
    obtain ⟨⟨huser, -⟩, rfl⟩ := drop_eq_ok.1 hstep
    refine .called nofun (Or.inl huser) ⟨⟨_, rfl, ?_⟩, [], rfl, nofun⟩
    intro w hw
    rw [List.mem_singleton.1 hw]
    rfl
  | consume t c len =>
    obtain ⟨-, b, -, rfl⟩ := consume_eq_ok.1 hstep
    exact .queued nofun rfl (Pushes.of_eq rfl rfl)
  | receive c data =>
    obtain ⟨-, r, hr, rfl⟩ := receive_eq_ok.1 hstep
    obtain ⟨region, rs, -, -, -, rfl⟩ := TcpConnection.receive_eq_some hr
    exact .queued nofun rfl (Pushes.complete rfl)
  | readFails c e =>
    obtain ⟨-, r, hr, rfl⟩ := readFails_eq_ok.1 hstep
    obtain ⟨region, rs, -, rfl⟩ := TcpConnection.readFails_eq_some hr
    exact .queued nofun rfl (Pushes.complete rfl)
  | transmit c k stale =>
    obtain ⟨-, r, hr, rfl⟩ := transmit_eq_ok.1 hstep
    obtain ⟨region, rs, -, -, -, rfl⟩ := TcpConnection.transmit_eq_some hr
    exact .queued nofun rfl (Pushes.complete rfl)
  | sendFails c e =>
    obtain ⟨-, r, hr, rfl⟩ := sendFails_eq_ok.1 hstep
    obtain ⟨region, rs, -, rfl⟩ := TcpConnection.sendFails_eq_some hr
    exact .queued nofun rfl (Pushes.complete rfl)
  | accept ioLoop =>
    obtain ⟨⟨-, -, hempty, -⟩, rfl⟩ := accept_eq_ok.1 hstep
    refine .called nofun (Or.inr hempty) ⟨⟨_, rfl, ?_⟩, _, rfl, Pushes.postIf rfl⟩
    intro w hw
    rcases List.mem_append.1 hw with hw | hw
    · rcases List.mem_append.1 hw with hw | hw
      · exact Pushes.releases _ w hw
      · exact Pushes.callIf rfl w hw
    · rw [List.mem_singleton.1 hw]
      rfl
  | destroyServer t =>
    obtain ⟨⟨huser, -⟩, hexec⟩ := destroyServer_eq_ok.1 hstep
    obtain ⟨-, rfl⟩ := TcpServer.destructor_eq_ok.1 hexec
    refine .calls nofun (Or.inl huser) ⟨⟨_, rfl, ?_⟩, [], rfl, nofun⟩
    intro w hw
    rw [List.mem_singleton.1 hw]
    rfl
  | clientCall t x =>
    obtain ⟨⟨huser, -⟩, rfl⟩ := clientCall_eq_ok.1 hstep
    refine .called (t := t) nofun (Or.inl huser) ?_
    cases x with
    | connect =>
      exact Pushes.trans (Pushes.of_eq (q := { p with client := { p.client with
        connect_ := true } }) rfl rfl) Pushes.start
    | disconnect =>
      unfold clientCall TcpClient.disconnect
      cases p.client.connection_ with
      | none => exact Pushes.of_eq rfl rfl
      | some c =>
        exact Pushes.trans (Pushes.of_eq (q := { p with client := { p.client with
          connect_ := false } }) rfl rfl)
          (Pushes.call (x := .shutdown) (d := (p.conns c).conn) (fun _ => id) rfl nofun)
    | stop =>
      exact Pushes.trans (Pushes.of_eq (q := { p with client := { p.client with
        connect_ := false } }) rfl rfl) Pushes.stop
    | enableRetry => exact Pushes.of_eq rfl rfl
  | connectorCall t x =>
    obtain ⟨⟨huser, -⟩, rfl⟩ := connectorCall_eq_ok.1 hstep
    refine .called (t := t) nofun (Or.inl huser) ?_
    cases x with
    | start => exact Pushes.start
    | stop => exact Pushes.stop
    | restart => exact Pushes.schedule (fun w hw => List.mem_singleton.1 hw ▸ rfl) nofun
  | destroyClient t =>
    obtain ⟨⟨huser, -⟩, hexec⟩ := destroyClient_eq_ok.1 hstep
    exact .calls nofun (Or.inl huser) (Pushes.destructor hexec)
  | connectDone socket error =>
    obtain ⟨-, rfl⟩ := connectDone_eq_ok.1 hstep
    exact .queued nofun rfl ⟨⟨[], rfl, nofun⟩, _, rfl, by simp [Work.isQueued]⟩
  | timerExpires timer =>
    obtain ⟨-, rfl⟩ := timerExpires_eq_ok.1 hstep
    exact .queued nofun rfl ⟨⟨[], rfl, nofun⟩, _, rfl, by simp [Work.isQueued]⟩

/-- A thread that runs a work item calls what this can call. -/
theorem Pushes.calledBy {peer : List Char} {w : Work} {rest : List (ThreadId × Work)}
    (htake : Keyed.takeFirst t p.stack = some (w, rest))
    (h : Pushes w.mayCall t { p with stack := rest } q) :
    Pushes (p.calledBy (.run t peer)) t { p with stack := rest } q := by
  refine h.mono fun v hv => ?_
  show (v.isCalled || ((p.stackOf t).head?.any Work.endsServer && v.endsServer)) = true
  rw [head_stackOf htake]
  exact hv

/-- Every step shifts stacks and queues. -/
theorem step_shifts {e : ProcessEvent} (hstep : step e p = .ok q) :
    Shifts (p.calledBy e) p q := by
  cases course_of_step hstep with
  | dequeues hlive hempty htake hq =>
    subst hq
    exact .takes hempty htake rfl rfl
  | @runs t peer w rest htake hready hexec =>
    exact .runs htake (Or.inl ⟨peer, hstep⟩) ((Pushes.exec hexec).calledBy htake)
  | @returns t c k rest htake hq =>
    subst hq
    exact .runs htake (Or.inr ⟨c, k, rfl⟩) (Pushes.of_eq rfl rfl)
  | calls hrun hready hpushes => exact .calls hready hpushes
  | completes hrun hstack hpushes => exact .completes hstack hpushes

/-! ## Completion handlers -/

/-- A completion handler is alone on its stack, and nothing else than functors and completion
handlers is queued. -/
structure Sequenced (p : Process) : Prop where
  alone : ∀ t w, w ∈ p.stackOf t → w.isCompletion = true → p.stackOf t = [w]
  queued : ∀ e ∈ p.queue, e.2.isQueued = true

/-- The calls lie on top of what was on the stack. -/
theorem Pushes.stackOf_self {called : Work → Bool} (h : Pushes called t p q) :
    ∃ calls, q.stackOf t = calls ++ p.stackOf t ∧ ∀ w ∈ calls, called w = true := by
  obtain ⟨⟨calls, hstack, hcalls⟩, -⟩ := h
  refine ⟨calls, ?_, hcalls⟩
  rw [stackOf, hstack, Keyed.ofKey_append, Keyed.ofKey_map_self]
  rfl

/-- The stacks of other threads stay. -/
theorem Pushes.stackOf_other {called : Work → Bool} (h : Pushes called t p q) {u : ThreadId}
    (hu : u ≠ t) : q.stackOf u = p.stackOf u := by
  obtain ⟨⟨calls, hstack, hcalls⟩, -⟩ := h
  rw [stackOf, hstack, Keyed.ofKey_append, Keyed.ofKey_map_of_ne (Ne.symm hu)]
  rfl

namespace Sequenced

/-- A thread whose stack has no completion handler makes calls. -/
theorem pushes (h : Sequenced p) (hpushes : Pushes (fun w => !w.isCompletion) t p q)
    (hnone : ∀ w ∈ p.stackOf t, w.isCompletion = false) : Sequenced q := by
  constructor
  · intro u w hw hcompletion
    by_cases hu : u = t
    · subst hu
      obtain ⟨calls, hstack, hcalls⟩ := hpushes.stackOf_self
      rw [hstack] at hw
      have hno : w.isCompletion = false := by
        rcases List.mem_append.1 hw with hw | hw
        · exact (Bool.not_eq_true' _).mp (hcalls w hw)
        · exact hnone w hw
      rw [hno] at hcompletion
      cases hcompletion
    · rw [hpushes.stackOf_other hu] at hw ⊢
      exact h.alone u w hw hcompletion
  · obtain ⟨-, posts, hqueue, hposts⟩ := hpushes
    intro e he
    rw [hqueue] at he
    rcases List.mem_append.1 he with he | he
    · exact h.queued e he
    · exact hposts e he

/-- What is below the top of a stack is no completion handler, nor is the top if there is
more. -/
theorem pop {w : Work} {rest : List (ThreadId × Work)} (h : Sequenced p)
    (htake : Keyed.takeFirst t p.stack = some (w, rest)) :
    Sequenced { p with stack := rest } ∧
      ∀ v ∈ ({ p with stack := rest } : Process).stackOf t, v.isCompletion = false := by
  have hself : p.stackOf t = w :: ({ p with stack := rest } : Process).stackOf t :=
    Keyed.ofKey_takeFirst htake
  have hother : ∀ u, u ≠ t → ({ p with stack := rest } : Process).stackOf u = p.stackOf u :=
    fun u hu => (Keyed.ofKey_takeFirst_of_ne htake (Ne.symm hu)).symm
  have hrest : ∀ v ∈ ({ p with stack := rest } : Process).stackOf t, v.isCompletion = false := by
    intro v hv
    by_contra hcompletion
    have hmem : v ∈ p.stackOf t := by
      rw [hself]
      exact List.mem_cons_of_mem _ hv
    have halone := h.alone t v hmem (by simpa using hcompletion)
    rw [hself] at halone
    rw [(List.cons.inj halone).2] at hv
    cases hv
  refine ⟨⟨?_, h.queued⟩, hrest⟩
  intro u v hv hcompletion
  by_cases hu : u = t
  · subst hu
    rw [hrest v hv] at hcompletion
    cases hcompletion
  · rw [hother u hu] at hv ⊢
    exact h.alone u v hv hcompletion

/-- Where code of the user runs there is no completion handler. -/
theorem userRuns (h : Sequenced p) (ht : p.userRuns t = true) :
    ∀ w ∈ p.stackOf t, w.isCompletion = false := by
  intro w hw
  by_contra hcompletion
  have halone := h.alone t w hw (by simpa using hcompletion)
  unfold Process.userRuns at ht
  rw [halone] at ht
  cases w with
  | conn c k =>
    cases k with
    | inCallback k => exact hcompletion rfl
    | _ => cases ht
  | _ => cases ht

/-- Every step but a dequeue makes calls, and a thread makes them that has no completion
handler on its stack. -/
theorem step {e : ProcessEvent} (h : Sequenced p) (hstep : Process.step e p = .ok q) :
    Sequenced q := by
  cases (step_shifts hstep).mono fun w hw => congrArg not (not_isCompletion_of_calledBy hw) with
  | @takes l w rest hempty htake hstack hqueue =>
    refine ⟨?_, ?_⟩
    · intro u v hv hcompletion
      by_cases hu : u = l
      · subst hu
        have hself : q.stackOf u = [w] := by
          rw [stackOf, hstack, Keyed.ofKey_cons_self]
          exact congrArg (List.cons w) hempty
        rw [hself] at hv ⊢
        rw [List.mem_singleton.1 hv]
      · have hother : q.stackOf u = p.stackOf u := by
          rw [stackOf, hstack]
          exact Keyed.ofKey_cons_of_ne (Ne.symm hu) w p.stack
        rw [hother] at hv ⊢
        exact h.alone u v hv hcompletion
    · intro e he
      rw [hqueue] at he
      exact h.queued e ((Keyed.mem_of_takeFirst htake).2 (Or.inr he))
  | runs htake hrun hpushes =>
    obtain ⟨hpop, hnone⟩ := h.pop htake
    exact hpop.pushes hpushes hnone
  | @calls t hready hpushes =>
    refine h.pushes hpushes ?_
    rcases hready with huser | hempty
    · exact h.userRuns huser
    · rw [hempty]
      exact List.forall_mem_nil _
  | completes hstack hpushes =>
    obtain ⟨-, posts, hqueue, hposts⟩ := hpushes
    refine ⟨?_, ?_⟩
    · intro t w hw hcompletion
      rw [stackOf, hstack] at hw ⊢
      exact h.alone t w hw hcompletion
    · intro e he
      rw [hqueue] at he
      rcases List.mem_append.1 he with he | he
      · exact h.queued e he
      · exact hposts e he

end Sequenced

/-- Nothing is pending at first. -/
theorem sequenced_initial (hp : processMachine.init p) : Sequenced p := by
  obtain ⟨baseLoop, pool, clientLoop, ipPort, serverName, clientName, m, w, -, -, rfl⟩ := hp
  exact ⟨nofun, nofun⟩

end Process

end LibNetToy
