import LibNetToy.Net.Stages
import LibNetToy.Net.Threads

/-!
# The destruction of a client

What is bound to a client and its connector is bound to raw pointers, and the destructor leaves
it where it is: queued functors, an outstanding attempt, a timer and the close callbacks of
connections.  Without a connection it even posts `stopInLoop` itself, and closing the connection
on the thread of the loop restarts the connector when the client reconnects.

A client is never called back after it is gone when its destructor runs on the thread of its
loop, the client has exactly one connection, which nobody else owns and which is open, it does
not reconnect, and nothing else of the client or the connector is under way.
-/

namespace LibNetToy

/-- The work item is a member function of the client or of its connector. -/
def Work.callsClient : Work → Bool
  | .client (.newConnection _) => true
  | .client (.removeConnection _) => true
  | .connector _ => true
  | _ => false

namespace Process

/-- The connection was made by the client. -/
def Dials (p : Process) (c : ConnId) : Prop :=
  c < p.nextConn ∧ (p.conns c).closeCallback_ = .client

/-- A client that is gone is not called, and its destructor starts no attempt. -/
structure LeftAlone (p : Process) : Prop where
  notCalled : p.client.life = .dead → ∀ t w, (p.stackOf t).head? = some w →
    w.callsClient = false
  startsNone : ∀ t, .client .destroyed ∈ p.stackOf t →
    (p.stackOf t).head? ≠ some (.connector .startInLoop) ∧
      (p.stackOf t).head? ≠ some (.connector .restart)

/-- The destructor of the client closes its last connection, and there is nothing else. -/
structure EndsQuietly (p : Process) (t : ThreadId) : Prop where
  thread : t = p.client.loop_
  retry : (p.client.retry_ && p.client.connect_) = false
  pending : ∀ w ∈ p.pending, w.callsClient = false
  connecting : p.sockets.connecting = []
  timers : p.timers.timerQueue_ = []
  connection : ∃ c ∈ p.client.connection_, p.owners c = 1 ∧
    ((p.conns c).conn.state_ = .kConnected ∨ (p.conns c).conn.state_ = .kDisconnecting)
  closed : ∀ c < p.nextConn, (p.conns c).closeCallback_ = .client →
    p.client.connection_ ≠ some c → (p.conns c).conn.state_ = .kDisconnected
  callbacks : ∀ c < p.nextConn, (p.conns c).closeCallback_ = .client →
    .conn c (.callback .close) ∉ p.pending

instance (p : Process) (t : ThreadId) : Decidable (p.EndsQuietly t) :=
  decidable_of_iff (t = p.client.loop_ ∧ (p.client.retry_ && p.client.connect_) = false ∧
      (∀ w ∈ p.pending, w.callsClient = false) ∧ p.sockets.connecting = [] ∧
      p.timers.timerQueue_ = [] ∧
      (∃ c ∈ p.client.connection_, p.owners c = 1 ∧ ((p.conns c).conn.state_ = .kConnected ∨
        (p.conns c).conn.state_ = .kDisconnecting)) ∧
      (∀ c < p.nextConn, (p.conns c).closeCallback_ = .client →
        p.client.connection_ ≠ some c → (p.conns c).conn.state_ = .kDisconnected) ∧
      ∀ c < p.nextConn, (p.conns c).closeCallback_ = .client →
        .conn c (.callback .close) ∉ p.pending)
    ⟨fun ⟨h₁, h₂, h₃, h₄, h₅, h₆, h₇, h₈⟩ => ⟨h₁, h₂, h₃, h₄, h₅, h₆, h₇, h₈⟩,
      fun ⟨h₁, h₂, h₃, h₄, h₅, h₆, h₇, h₈⟩ => ⟨h₁, h₂, h₃, h₄, h₅, h₆, h₇, h₈⟩⟩

/-- The client is destroyed only in a quiet state. -/
def LeavesQuietly (p : Process) : ProcessEvent → Prop
  | .destroyClient t => p.EndsQuietly t
  | _ => True

instance (p : Process) (e : ProcessEvent) : Decidable (p.LeavesQuietly e) :=
  match e with
  | .destroyClient t => inferInstanceAs (Decidable (p.EndsQuietly t))
  | .dequeue _ | .run _ _ | .return_ _ | .call _ _ _ | .keep _ _ | .keepConnection _ | .drop _ _
  | .consume _ _ _ | .receive _ _ | .readFails _ _ | .transmit _ _ _ | .sendFails _ _
  | .accept _ | .destroyServer _ | .timerExpires _ | .clientCall _ _ | .connectorCall _ _
  | .connectDone _ _ => isTrue trivial

variable {p q : Process} {c : ConnId}

/-! ## The connector at rest -/

/-- A part of an attempt to connect. -/
def attempting : Work → Nat
  | .connector _ => 1
  | .client (.newConnection _) => 1
  | _ => 0

/-- The end of the destructor of the client. -/
def ending : Work → Nat
  | .client .destroyed => 1
  | _ => 0

/-- The connector has nothing under way. -/
structure Still (p : Process) : Prop where
  connecting : p.sockets.connecting = []
  timers : p.timers.timerQueue_ = []
  pending : weigh attempting p.pending = 0

/-- Work of others is no attempt. -/
theorem attempting_ofConnector {w : Work} (hw : w.ofConnector = false) : attempting w = 0 := by
  unfold attempting
  split
  · cases hw
  · cases hw
  · rfl

/-- Nothing pending is an attempt. -/
theorem Still.not_attempting (h : Still p) {w : Work} (hw : w ∈ p.pending) : attempting w = 0 :=
  weigh_eq_zero.1 h.pending w hw

/-- What the connector does not see starts no attempt. -/
theorem Still.apart (h : Still p) (ha : Apart p q) : Still q := by
  refine ⟨?_, ?_, ?_⟩
  · rw [ha.sockets]
    exact h.connecting
  · rw [ha.timers]
    exact h.timers
  · rw [ha.pending attempting fun w => attempting_ofConnector]
    exact h.pending

/-- Beginning a work item starts no attempt. -/
theorem Still.pop {t : ThreadId} {w : Work} {rest : List (ThreadId × Work)} (h : Still p)
    (htake : Keyed.takeFirst t p.stack = some (w, rest)) : Still { p with stack := rest } := by
  have hpop := weigh_pop attempting htake
  have hpending := h.pending
  exact ⟨h.connecting, h.timers, by omega⟩

/-- A client that is being destroyed or gone, and does not reconnect, keeps its connector at
rest. -/
theorem Still.step {e : ProcessEvent} (h : Still p) (hlife : p.client.life ≠ .alive)
    (hretry : (p.client.retry_ && p.client.connect_) = false ∨
      ∀ c, .client (.removeConnection c) ∉ p.pending)
    (hstep : Process.step e p = .ok q) : Still q := by
  by_cases he : e.onConnector = false
  · exact h.apart (step_apart hstep he)
  cases e with
  | run t peer =>
    obtain ⟨w, rest, htake, -, hexec⟩ := run_eq_ok.1 hstep
    have hmem := mem_pending_of_head (head_stackOf htake)
    have hquiet := h.not_attempting hmem
    have hpop := h.pop htake
    cases w with
    | connector k => cases hquiet
    | client k =>
      cases k with
      | newConnection socket => cases hquiet
      | destroyed => exact hpop.apart (exec_apart hexec rfl nofun)
      | removeConnection c =>
        obtain ⟨-, hexec⟩ := exec_client_eq_ok.1 hexec
        obtain ⟨-, htimers, hsockets, hpending⟩ := removeConnection_connector hexec
        have hno : (p.client.retry_ && p.client.connect_) = false := by
          rcases hretry with hretry | hretry
          · exact hretry
          · exact absurd hmem (hretry c)
        refine ⟨?_, ?_, ?_⟩
        · rw [hsockets]
          exact h.connecting
        · rw [htimers]
          exact h.timers
        · rw [hpending attempting fun w => attempting_ofConnector, hpop.pending]
          simp [hno]
    | handleTimer timer error =>
      obtain rfl := pure_eq_ok.1 hexec
      have hnone : p.timers.status timer = none := by
        unfold TimerQueue.status
        rw [h.timers]
        rfl
      rcases TimerQueue.handleTimer_cases { p with stack := rest } t timer error with
        ⟨-, hq⟩ | ⟨hsome, -, -⟩ | ⟨hsome, -, -⟩
      · rw [hq]
        exact hpop
      · exact absurd hnone hsome
      · exact absurd hnone hsome
    | eraseTimer timer =>
      obtain rfl := pure_eq_ok.1 hexec
      refine ⟨h.connecting, ?_, hpop.pending⟩
      show AssocMap.erase timer p.timers.timerQueue_ = []
      rw [h.timers]
      rfl
    | conn | bound | setCloseCallback | server => exact hpop.apart (exec_apart hexec rfl nofun)
  | clientCall t x =>
    obtain ⟨⟨-, halive⟩, -⟩ := clientCall_eq_ok.1 hstep
    exact absurd halive hlife
  | connectorCall t x =>
    obtain ⟨⟨-, halive, -⟩, -⟩ := connectorCall_eq_ok.1 hstep
    exact absurd halive hlife
  | destroyClient t =>
    obtain ⟨⟨-, halive⟩, -⟩ := destroyClient_eq_ok.1 hstep
    exact absurd halive hlife
  | connectDone socket error =>
    obtain ⟨⟨hmem, -⟩, -⟩ := connectDone_eq_ok.1 hstep
    rw [h.connecting] at hmem
    cases hmem
  | timerExpires timer =>
    obtain ⟨hwaiting, -⟩ := timerExpires_eq_ok.1 hstep
    unfold TimerQueue.status at hwaiting
    rw [h.timers] at hwaiting
    cases hwaiting
  | dequeue | return_ | call | keep | keepConnection | drop | consume | receive | readFails
  | transmit | sendFails | accept | destroyServer => exact absurd rfl he

/-! ## The connections -/

/-- A connection of the client was one before. -/
theorem Dials.of_follows (hf : Follows p q) (hc : c < p.nextConn) (h : q.Dials c) :
    p.Dials c := by
  refine ⟨hc, ?_⟩
  rw [← hf.maker c hc]
  exact h.2

/-- The ways of a closed connection to its owner. -/
theorem closing_cases {w : Work} (h : closing c w ≠ 0) : w = .conn c (.callback .close) ∨
    w = .server (.removeConnection c) ∨ w = .server (.removeConnectionInLoop c) ∨
      w = .client (.removeConnection c) := by
  unfold closing at h
  split at h
  · split_ifs at h with hd
    · exact Or.inl (by rw [hd])
    · exact absurd rfl h
  · split_ifs at h with hd
    · exact Or.inr (Or.inl (by rw [hd]))
    · exact absurd rfl h
  · split_ifs at h with hd
    · exact Or.inr (Or.inr (Or.inl (by rw [hd])))
    · exact absurd rfl h
  · split_ifs at h with hd
    · exact Or.inr (Or.inr (Or.inr (by rw [hd])))
    · exact absurd rfl h
  · exact absurd rfl h

/-- What the server removes is none of the connections of the client. -/
theorem Placed.not_server_removes (h : Placed p) (hc : p.Dials c) {w : Work}
    (hw : w ∈ p.pending) (hmaker : w.maker = some .server) : w.connId ≠ some c := by
  intro hconn
  rcases List.mem_append.1 hw with hw | hw
  · obtain ⟨e, he, rfl⟩ := List.mem_map.1 hw
    have hserver := (h.stack e he).maker c hconn _ hmaker
    rw [hc.2] at hserver
    cases hserver
  · obtain ⟨e, he, rfl⟩ := List.mem_map.1 hw
    have hserver := (h.queue e he).maker c hconn _ hmaker
    rw [hc.2] at hserver
    cases hserver

/-- The way of a connection of the client to its owner leads over the thread of the loop. -/
theorem mem_loop_of_closing (hplaced : Placed p) (hseq : Sequenced p) (hc : p.Dials c) {w : Work}
    (hw : w ∈ p.pending) (hclosing : closing c w ≠ 0) : w ∈ p.stackOf p.client.loop_ := by
  have hcase : w = .conn c (.callback .close) ∨ w = .client (.removeConnection c) := by
    rcases closing_cases hclosing with rfl | rfl | rfl | rfl
    · exact Or.inl rfl
    · exact absurd rfl (hplaced.not_server_removes hc hw rfl)
    · exact absurd rfl (hplaced.not_server_removes hc hw rfl)
    · exact Or.inr rfl
  rcases List.mem_append.1 hw with hw | hw
  · obtain ⟨⟨t, v⟩, he, rfl⟩ := List.mem_map.1 hw
    have hb := hplaced.stack _ he
    have ht : t = p.client.loop_ := by
      rcases hcase with rfl | rfl
      · exact (hb.place _ rfl).trans (hplaced.clientLoop c hc.2)
      · exact hb.place _ rfl
    rw [← ht]
    exact Keyed.mem_ofKey.2 he
  · obtain ⟨⟨l, v⟩, he, rfl⟩ := List.mem_map.1 hw
    have hqueued := hseq.queued _ he
    rcases hcase with rfl | rfl
    · cases hqueued
    · cases hqueued

/-- `forceCloseInLoop` closes a connection that was established. -/
theorem closed_of_forceCloseInLoop {t : ThreadId} {peer : List Char}
    (hhead : (p.stackOf t).head? = some (.conn c .forceCloseInLoop))
    (hstate : (p.conns c).conn.state_ ≠ .kConnecting)
    (hstep : step (.run t peer) p = .ok q) : (q.conns c).conn.state_ = .kDisconnected := by
  obtain ⟨w, rest, htake, -, hexec⟩ := run_eq_ok.1 hstep
  have hw := head_stackOf htake
  rw [hhead] at hw
  obtain rfl := Option.some.inj hw
  obtain ⟨-, eff, heff, rfl⟩ := execConn_eq_ok.1 hexec
  rw [applyEffect_conn]
  exact TcpConnection.state_of_forceCloseInLoop hstate heff

/-- Every connection of the client is at some stage. -/
def AllStaged (p : Process) : Prop :=
  ∀ c, p.Dials c → ∃ n, Staged p c n

/-- Every step leaves the connections at their stages. -/
theorem AllStaged.step {e : ProcessEvent} (h : AllStaged p) (hplaced : Placed p)
    (hsorted : p.server.connections_.Sorted) (hstep : Process.step e p = .ok q) :
    AllStaged q := by
  intro c hc
  obtain ⟨-, hfollows⟩ := Moves.step hplaced hstep
  rcases old_or_born hplaced hsorted hstep hc.1 with hmade | ⟨rfl, d, k, m, hm, hb⟩
  · have hdials := Dials.of_follows hfollows hmade hc
    obtain ⟨n, hn⟩ := h c hdials
    obtain ⟨taken, d, htouches, halters⟩ := step_touches hplaced hsorted hmade hstep
    exact ⟨_, hn.touches (hplaced.untaken hdials.2) htouches halters⟩
  · exact ⟨0, Staged.born hm hb⟩

/-! ## A client that is gone -/

/-- The connections of the client were all closed and removed, and its connector is at rest. -/
structure Left (p : Process) : Prop where
  still : Still p
  staged : ∀ c, p.Dials c → Staged p c 1

/-- While the connector is at rest the client makes no connection. -/
theorem Still.dials_of_step {e : ProcessEvent} (h : Still p) (hplaced : Placed p)
    (hsorted : p.server.connections_.Sorted) (hstep : Process.step e p = .ok q)
    (hc : q.Dials c) : p.Dials c := by
  obtain ⟨-, hfollows⟩ := Moves.step hplaced hstep
  rcases old_or_born hplaced hsorted hstep hc.1 with hmade | ⟨rfl, d, k, m, hm, hb⟩
  · exact Dials.of_follows hfollows hmade hc
  · have hclient := hc.2
    rw [hb.record] at hclient
    cases hm with
    | accepts => cases hclient
    | connects hhead =>
      have hzero := h.not_attempting (mem_pending_of_head hhead)
      cases hzero

/-- A connection that was removed is not removed again. -/
theorem Staged.not_closing {w : Work} (h : Staged p c 1) (hw : w ∈ p.pending) :
    closing c w = 0 := by
  have hle := le_weigh (f := closing c) hw
  have hdisconnected := h.disconnected
  split_ifs at hdisconnected
  omega

/-- A connection that was left stays left. -/
theorem Left.step {e : ProcessEvent} (h : Left p) (hplaced : Placed p)
    (hsorted : p.server.connections_.Sorted) (hlife : p.client.life ≠ .alive)
    (hstep : Process.step e p = .ok q) : Left q := by
  have hnone : ∀ c, .client (.removeConnection c) ∉ p.pending := by
    intro c hmem
    obtain ⟨hmade, hmaker⟩ := hplaced.client_removes hmem
    have hzero := (h.staged c ⟨hmade, hmaker⟩).not_closing hmem
    have hone : closing c (.client (.removeConnection c)) = 1 := if_pos rfl
    omega
  refine ⟨h.still.step hlife (Or.inr hnone) hstep, ?_⟩
  intro c hc
  have hdials := h.still.dials_of_step hplaced hsorted hstep hc
  obtain ⟨taken, d, htouches, halters⟩ := step_touches hplaced hsorted hdials.1 hstep
  exact (h.staged c hdials).closed_touches (hplaced.untaken hdials.2) htouches halters

/-- Nothing that is pending calls a client that is gone. -/
theorem Left.not_callsClient (h : Left p) (hplaced : Placed p) {w : Work} (hw : w ∈ p.pending) :
    w.callsClient = false := by
  cases w with
  | connector k =>
    have hzero := h.still.not_attempting hw
    cases hzero
  | client k =>
    cases k with
    | newConnection socket =>
      have hzero := h.still.not_attempting hw
      cases hzero
    | removeConnection c =>
      obtain ⟨hmade, hmaker⟩ := hplaced.client_removes hw
      have hzero := (h.staged c ⟨hmade, hmaker⟩).not_closing hw
      have hone : closing c (.client (.removeConnection c)) = 1 := if_pos rfl
      omega
    | destroyed => rfl
  | conn | bound | setCloseCallback | server | handleTimer | eraseTimer => rfl

/-! ## The destructor -/

/-- The destructor of the client is running on the thread of the loop; it has the items `above`
to do before its end, and closes the connection with them. -/
structure Leaving (p : Process) (c : ConnId) (above below : List Work) : Prop where
  still : Still p
  retry : (p.client.retry_ && p.client.connect_) = false
  once : weigh ending p.pending ≤ 1
  dials : p.Dials c
  others : ∀ d, p.Dials d → d ≠ c → Staged p d 1
  opened : (p.conns c).conn.state_ ≠ .kConnecting
  stack : p.stackOf p.client.loop_ = above ++ .client .destroyed :: below
  closes : (p.conns c).conn.state_ ≠ .kDisconnected → .conn c .forceCloseInLoop ∈ above
  below : ∀ w ∈ below, closing c w = 0

/-- What does not call the client is no attempt. -/
theorem attempting_of_callsClient {w : Work} (hw : w.callsClient = false) :
    attempting w = 0 := by
  unfold attempting
  split
  · cases hw
  · cases hw
  · rfl

/-- Whether the client reconnects is up to its user. -/
theorem retry_of_step {e : ProcessEvent} (he : ∀ t x, e ≠ .clientCall t x)
    (hstep : Process.step e p = .ok q) :
    (q.client.retry_ && q.client.connect_) = (p.client.retry_ && p.client.connect_) := by
  have hclient := client_of_step hstep
  generalize q.client = s at hclient
  cases hclient with
  | same | makes | removes | dies | destructs => rfl
  | connects | disconnects | stops | enablesRetry => exact absurd rfl (he _ _)

/-- A closed connection of the client is over when its callback is not pending. -/
theorem EndsQuietly.staged {t : ThreadId} {d : ConnId} {n : Nat} (h : p.EndsQuietly t)
    (hplaced : Placed p) (hd : p.Dials d) (hconnection : p.client.connection_ ≠ some d)
    (hstaged : Staged p d n) : Staged p d 1 := by
  have hzero : weigh (closing d) p.pending = 0 := by
    apply weigh_eq_zero.2
    intro w hw
    by_contra hclosing
    rcases closing_cases hclosing with rfl | rfl | rfl | rfl
    · exact h.callbacks d hd.1 hd.2 hw
    · exact hplaced.not_server_removes hd hw rfl rfl
    · exact hplaced.not_server_removes hd hw rfl rfl
    · have hcalls := h.pending _ hw
      cases hcalls
  have hdisconnected := hstaged.disconnected
  rw [hzero, if_pos (h.closed d hd.1 hd.2 hconnection), Nat.zero_add] at hdisconnected
  rwa [hdisconnected] at hstaged

/-- A destructor that is called quietly leaves its one connection to close. -/
theorem Leaving.begin {t : ThreadId} (hplaced : Placed p)
    (hsorted : p.server.connections_.Sorted) (hstaged : AllStaged p)
    (hends : weigh ending p.pending = 0) (h : p.EndsQuietly t)
    (hstep : step (.destroyClient t) p = .ok q) : ∃ c above below, Leaving q c above below := by
  have hstill : Still p := ⟨h.connecting, h.timers,
    weigh_eq_zero.2 fun w hw => attempting_of_callsClient (h.pending w hw)⟩
  obtain ⟨c, hc, howners, hopen⟩ := h.connection
  have hdials : p.Dials c := hplaced.connection c hc
  obtain ⟨n, hn⟩ := hstaged c hdials
  obtain ⟨-, hfollows⟩ := Moves.step hplaced hstep
  have hstillq : Still q := hstill.apart (destructor_apart hc (destroyClient_eq_ok.1 hstep).2)
  have hretry := retry_of_step (e := .destroyClient t) nofun hstep
  have hothers : ∀ d, q.Dials d → d ≠ c → Staged q d 1 := by
    intro d hd hne
    have hdialsp := hstill.dials_of_step hplaced hsorted hstep hd
    obtain ⟨m, hm⟩ := hstaged d hdialsp
    have hnot : p.client.connection_ ≠ some d := by
      rw [Option.mem_def.1 hc]
      exact fun h => hne (Option.some.inj h).symm
    have hdone := h.staged hplaced hdialsp hnot hm
    obtain ⟨taken, change, htouches, halters⟩ := step_touches hplaced hsorted hdialsp.1 hstep
    exact hdone.closed_touches (hplaced.untaken hdialsp.2) htouches halters
  have hloop : t = (p.conns c).conn.loop_ := h.thread.trans (hplaced.clientLoop c hdials.2).symm
  have hforce : (p.conns c).conn.forceClose (some t) =
      ⟨{ (p.conns c).conn with state_ := .kDisconnecting }, [.forceCloseInLoop, .release], []⟩ := by
    unfold TcpConnection.forceClose TcpConnection.runInLoop
    rw [if_pos hopen, if_pos (congrArg some hloop)]
    rfl
  have hnotClosed : (p.conns c).conn.state_ ≠ .kDisconnected := by
    intro hclosed
    rw [hclosed] at hopen
    rcases hopen with hopen | hopen <;> cases hopen
  have hdisconnected := hn.disconnected
  rw [if_neg hnotClosed] at hdisconnected
  rcases TcpClient.destructor_eq_ok.1 (destroyClient_eq_ok.1 hstep).2 with
    ⟨hnone, -⟩ | ⟨b, hb, -, ⟨-, rfl⟩ | ⟨hno, -⟩⟩
  · rw [Option.mem_def.1 hc] at hnone
    cases hnone
  · obtain rfl : b = c := Option.some.inj (hb.symm.trans hc)
    have hset : (TcpClient.setCloseCallback p t b).stack = p.stack ∧
        weigh ending (TcpClient.setCloseCallback p t b).pending = 0 := by
      unfold TcpClient.setCloseCallback
      rw [if_pos h.thread]
      exact ⟨rfl, hends⟩
    refine ⟨b, [.conn b .forceCloseInLoop, .conn b .release, .conn b .release],
      p.stackOf p.client.loop_, ?_⟩
    constructor
    · exact hstillq
    · exact hretry.trans h.retry
    · rw [hforce]
      unfold applyEffect
      rw [weigh_schedule]
      have hzero : weigh ending (((TcpClient.setCloseCallback p t b).update b fun r =>
          { r with conn := { (p.conns b).conn with state_ := .kDisconnecting } }).pending) = 0 :=
        hset.2
      rw [hzero]
      exact Nat.le_refl 1
    · refine ⟨Nat.lt_of_lt_of_le hdials.1 hfollows.nextConn, ?_⟩
      rw [hfollows.maker b hdials.1]
      exact hdials.2
    · exact hothers
    · rw [applyEffect_conn, hforce]
      exact nofun
    · rw [hfollows.client, ← h.thread, hforce]
      unfold stackOf applyEffect schedule
      simp only [Keyed.ofKey_append, Keyed.ofKey_map_self]
      show _ ++ Keyed.ofKey t (TcpClient.setCloseCallback p t b).stack = _
      rw [hset.1]
      rfl
    · exact fun _ => List.mem_cons_self
    · intro w hw
      have hmem : w ∈ p.pending :=
        List.mem_append_left _ (List.mem_map.2 ⟨_, Keyed.mem_ofKey.1 hw, rfl⟩)
      have hle := le_weigh (f := closing b) hmem
      omega
  · obtain rfl : b = c := Option.some.inj (hb.symm.trans hc)
    exact absurd howners hno

/-- The end of the destructor. -/
theorem dead_of_destroyed {t : ThreadId} {peer : List Char} {rest : List (ThreadId × Work)}
    (htake : Keyed.takeFirst t p.stack = some (.client .destroyed, rest))
    (hstep : Process.step (.run t peer) p = .ok q) : q.client.life = .dead := by
  obtain ⟨w, rest', htake', -, hexec⟩ := run_eq_ok.1 hstep
  rw [htake] at htake'
  obtain ⟨rfl, rfl⟩ := Prod.mk.inj (Option.some.inj htake')
  obtain ⟨-, rfl⟩ := exec_client_eq_ok.1 hexec
  rfl

/-- The stack of the loop while the destructor is running. -/
theorem Leaving.stack_step {e : ProcessEvent} {above below : List Work}
    (h : Leaving p c above below) (hlife : q.client.life ≠ .dead)
    (hstep : Process.step e p = .ok q) :
    ∃ above', q.stackOf p.client.loop_ = above' ++ .client .destroyed :: below ∧
      (.conn c .forceCloseInLoop ∈ above → .conn c .forceCloseInLoop ∈ above' ∨
        (q.conns c).conn.state_ = .kDisconnected) := by
  cases step_shifts hstep with
  | @takes l w rest hempty htake hstack hqueue =>
    have hl : l ≠ p.client.loop_ := by
      rintro rfl
      rw [h.stack] at hempty
      exact absurd hempty (by simp)
    refine ⟨above, ?_, Or.inl⟩
    rw [stackOf, hstack, Keyed.ofKey_cons_of_ne hl]
    exact h.stack
  | @runs t w rest htake hrun hpushes =>
    by_cases ht : t = p.client.loop_
    · obtain ⟨calls, hcalls, -⟩ := hpushes.stackOf_self
      have hself : p.stackOf t = w :: ({ p with stack := rest } : Process).stackOf t :=
        Keyed.ofKey_takeFirst htake
      have hstack := h.stack
      rw [← ht, hself] at hstack
      cases above with
      | nil =>
        obtain ⟨rfl, -⟩ := List.cons.inj hstack
        rcases hrun with ⟨peer, hrun⟩ | ⟨b, k, hback⟩
        · exact absurd (dead_of_destroyed htake hrun) hlife
        · cases hback
      | cons v above =>
        obtain ⟨rfl, hrest⟩ := List.cons.inj hstack
        refine ⟨calls ++ above, ?_, ?_⟩
        · rw [← ht, hcalls, hrest, List.append_assoc]
          rfl
        · intro hmem
          rcases List.mem_cons.1 hmem with rfl | hmem
          · rcases hrun with ⟨peer, hrun⟩ | ⟨b, k, hback⟩
            · exact Or.inr (closed_of_forceCloseInLoop (head_stackOf htake) h.opened hrun)
            · cases hback
          · exact Or.inl (List.mem_append_right _ hmem)
    · refine ⟨above, ?_, Or.inl⟩
      rw [hpushes.stackOf_other (Ne.symm ht)]
      exact (Keyed.ofKey_takeFirst_of_ne htake ht).symm.trans h.stack
  | @calls t hready hpushes =>
    by_cases ht : t = p.client.loop_
    · obtain ⟨calls, hcalls, -⟩ := hpushes.stackOf_self
      refine ⟨calls ++ above, ?_, fun hmem => Or.inl (List.mem_append_right _ hmem)⟩
      rw [← ht, hcalls, ht, h.stack, List.append_assoc]
    · refine ⟨above, ?_, Or.inl⟩
      rw [hpushes.stackOf_other (Ne.symm ht)]
      exact h.stack
  | completes hstack hpushes =>
    refine ⟨above, ?_, Or.inl⟩
    rw [stackOf, hstack]
    exact h.stack

/-- The destructor goes on. -/
theorem Leaving.step {e : ProcessEvent} {above below : List Work} (h : Leaving p c above below)
    (hplaced : Placed p) (hsorted : p.server.connections_.Sorted)
    (hlife : p.client.life = .destructing) (hlifeq : q.client.life ≠ .dead)
    (hstep : Process.step e p = .ok q) : ∃ above, Leaving q c above below := by
  have hnotAlive : p.client.life ≠ .alive := by
    rw [hlife]
    exact nofun
  obtain ⟨-, hfollows⟩ := Moves.step hplaced hstep
  obtain ⟨taken, change, htouches, halters⟩ := step_touches hplaced hsorted h.dials.1 hstep
  obtain ⟨hopened, hclosed⟩ := htouches.state
  rw [← halters.record] at hopened hclosed
  obtain ⟨above', hstack, hcloses⟩ := h.stack_step hlifeq hstep
  refine ⟨above', ?_⟩
  constructor
  · exact h.still.step hnotAlive (Or.inl h.retry) hstep
  · rw [retry_of_step ?_ hstep]
    · exact h.retry
    · rintro t x rfl
      exact absurd (clientCall_eq_ok.1 hstep).1.2 hnotAlive
  · refine Nat.le_trans ((step_shifts hstep).weigh_le ?_) h.once
    intro w hw
    unfold ending
    split
    · rcases hw with hw | hw
      · obtain ⟨t, rfl⟩ := destroyClient_of_calledBy hw
        exact absurd (destroyClient_eq_ok.1 hstep).1.2 hnotAlive
      · cases hw
    · rfl
  · refine ⟨Nat.lt_of_lt_of_le h.dials.1 hfollows.nextConn, ?_⟩
    rw [hfollows.maker c h.dials.1]
    exact h.dials.2
  · intro d hd hne
    have hdials := h.still.dials_of_step hplaced hsorted hstep hd
    obtain ⟨taken, change, htouches, halters⟩ := step_touches hplaced hsorted hdials.1 hstep
    exact (h.others d hdials hne).closed_touches (hplaced.untaken hdials.2) htouches halters
  · exact fun hconnecting => h.opened (hopened hconnecting)
  · rw [hfollows.client]
    exact hstack
  · intro hopen
    rcases hcloses (h.closes fun hold => hopen (hclosed hold)) with hmem | hnew
    · exact hmem
    · exact absurd hnew hopen
  · exact h.below

/-- When the destructor ends, the connection was closed and removed. -/
theorem Leaving.left {t : ThreadId} {above below : List Work} (h : Leaving p c above below)
    (hplaced : Placed p) (hseq : Sequenced p) (hstaged : AllStaged p)
    (hhead : (p.stackOf t).head? = some (.client .destroyed)) : Left p := by
  have hnil : above = [] := by
    cases hstack : p.stackOf t with
    | nil =>
      rw [hstack] at hhead
      cases hhead
    | cons w ws =>
      rw [hstack] at hhead
      obtain rfl := Option.some.inj hhead
      obtain ⟨rest, htake, -⟩ := Keyed.exists_takeFirst hstack
      have hpop := weigh_pop ending htake
      have hone : ending (.client .destroyed) = 1 := rfl
      have honce := h.once
      -- the end of the destructor is pending once
      have hother : .client .destroyed ∉
          ({ p with stack := rest } : Process).stackOf p.client.loop_ := by
        intro hmem
        have hpending : Work.client .destroyed ∈ ({ p with stack := rest } : Process).pending :=
          List.mem_append_left _ (List.mem_map.2 ⟨_, Keyed.mem_ofKey.1 hmem, rfl⟩)
        have hle := le_weigh (f := ending) hpending
        omega
      cases above with
      | nil => rfl
      | cons v above =>
        refine absurd ?_ hother
        by_cases ht : t = p.client.loop_
        · have hself : p.stackOf t = .client .destroyed ::
              ({ p with stack := rest } : Process).stackOf t := Keyed.ofKey_takeFirst htake
          have hloop := h.stack
          rw [← ht, hself] at hloop
          rw [← ht, (List.cons.inj hloop).2]
          exact List.mem_append_right _ List.mem_cons_self
        · have hsame : ({ p with stack := rest } : Process).stackOf p.client.loop_ =
              p.stackOf p.client.loop_ := (Keyed.ofKey_takeFirst_of_ne htake ht).symm
          rw [hsame, h.stack]
          exact List.mem_append_right _ List.mem_cons_self
  subst hnil
  have hclosed : (p.conns c).conn.state_ = .kDisconnected := by
    by_contra hopen
    cases h.closes hopen
  have hzero : weigh (closing c) p.pending = 0 := by
    apply weigh_eq_zero.2
    intro w hw
    by_contra hclosing
    have hmem := mem_loop_of_closing hplaced hseq h.dials hw hclosing
    rw [h.stack] at hmem
    rcases List.mem_cons.1 hmem with rfl | hmem
    · exact hclosing rfl
    · exact hclosing (h.below w hmem)
  refine ⟨h.still, ?_⟩
  intro d hd
  by_cases hdc : d = c
  · subst hdc
    obtain ⟨n, hn⟩ := hstaged d hd
    have hdisconnected := hn.disconnected
    rw [hzero, if_pos hclosed, Nat.zero_add] at hdisconnected
    rwa [hdisconnected] at hn
  · exact h.others d hd hdc

/-! ## Runs -/

/-- What every step keeps when the client is destroyed in a quiet state only. -/
structure Quieted (p : Process) : Prop where
  placed : Placed p
  sorted : p.server.connections_.Sorted
  sequenced : Sequenced p
  staged : AllStaged p
  alive : p.client.life = .alive → weigh ending p.pending = 0
  leaving : p.client.life = .destructing → ∃ c above below, Leaving p c above below
  left : p.client.life = .dead → Left p

/-- The life of the client after a step. -/
theorem life_of_step {e : ProcessEvent} (hstep : Process.step e p = .ok q) :
    q.client.life = p.client.life ∨
      (q.client.life = .dead ∧ ∃ t, (p.stackOf t).head? = some (.client .destroyed)) ∨
      (q.client.life = .destructing ∧ p.client.life = .alive ∧ ∃ t, e = .destroyClient t) := by
  have hclient := client_of_step hstep
  generalize q.client = s at hclient
  cases hclient with
  | same | makes | removes | connects | disconnects | stops | enablesRetry => exact Or.inl rfl
  | dies hhead => exact Or.inr (Or.inl ⟨rfl, _, hhead⟩)
  | destructs hlife => exact Or.inr (Or.inr ⟨rfl, hlife, _, rfl⟩)

/-- The destructor has begun. -/
theorem destructing_of_destroyClient {t : ThreadId} (h : step (.destroyClient t) p = .ok q) :
    q.client.life = .destructing := by
  rcases TcpClient.destructor_eq_ok.1 (destroyClient_eq_ok.1 h).2 with
    ⟨-, rfl⟩ | ⟨c, -, -, ⟨-, rfl⟩ | ⟨-, rfl⟩⟩
  · exact congrArg TcpClient.life Aside.stop.client
  · exact congrArg TcpClient.life (setCloseCallback_client p t c)
  · exact congrArg TcpClient.life (setCloseCallback_client p t c)

/-- The end of the destructor is pending. -/
theorem ending_of_mem {t : ThreadId} (hhead : (p.stackOf t).head? = some (.client .destroyed)) :
    weigh ending p.pending ≠ 0 := by
  intro hzero
  have hone := weigh_eq_zero.1 hzero _ (mem_pending_of_head hhead)
  cases hone

/-- The destructor of the client has not started. -/
theorem Quieted.alive_step {e : ProcessEvent} (h : Quieted p) (he : ∀ t, e ≠ .destroyClient t)
    (hlife : p.client.life = .alive) (hstep : Process.step e p = .ok q) :
    weigh ending q.pending = 0 := by
  refine Nat.le_zero.1 (Nat.le_trans ((step_shifts hstep).weigh_le ?_)
    (Nat.le_of_eq (h.alive hlife)))
  intro w hw
  unfold ending
  split
  · rcases hw with hw | hw
    · obtain ⟨t, rfl⟩ := destroyClient_of_calledBy hw
      exact absurd rfl (he t)
    · cases hw
  · rfl

/-- Every step keeps the client quiet. -/
theorem Quieted.step {e : ProcessEvent} (h : Quieted p) (hquiet : p.LeavesQuietly e)
    (hstep : Process.step e p = .ok q) : Quieted q := by
  obtain ⟨hplaced, hfollows⟩ := Moves.step h.placed hstep
  have hlife := life_of_step hstep
  constructor
  · exact hplaced
  · exact sorted_step h.sorted hstep
  · exact h.sequenced.step hstep
  · exact h.staged.step h.placed h.sorted hstep
  · intro halive
    rw [halive] at hlife
    rcases hlife with hsame | ⟨hdead, -⟩ | ⟨hdestructing, -⟩
    · refine h.alive_step ?_ hsame.symm hstep
      rintro t rfl
      rw [destructing_of_destroyClient hstep] at halive
      cases halive
    · cases hdead
    · cases hdestructing
  · intro hdestructing
    rw [hdestructing] at hlife
    rcases hlife with hsame | ⟨hdead, -⟩ | ⟨-, halive, t, rfl⟩
    · obtain ⟨c, above, below, hleaving⟩ := h.leaving hsame.symm
      have hnotDead : q.client.life ≠ .dead := by
        rw [hdestructing]
        exact nofun
      obtain ⟨above', hnext⟩ := hleaving.step h.placed h.sorted hsame.symm hnotDead hstep
      exact ⟨c, above', below, hnext⟩
    · cases hdead
    · exact Leaving.begin h.placed h.sorted h.staged (h.alive halive) hquiet hstep
  · intro hdead
    rw [hdead] at hlife
    rcases hlife with hsame | ⟨-, t, hhead⟩ | ⟨hdestructing, -⟩
    · have hnotAlive : p.client.life ≠ .alive := by
        rw [← hsame]
        exact nofun
      exact (h.left hsame.symm).step h.placed h.sorted hnotAlive hstep
    · cases hold : p.client.life with
      | alive => exact absurd (h.alive hold) (ending_of_mem hhead)
      | destructing =>
        obtain ⟨c, above, below, hleaving⟩ := h.leaving hold
        have hleft := hleaving.left h.placed h.sequenced h.staged hhead
        exact hleft.step h.placed h.sorted (by rw [hold]; exact nofun) hstep
      | dead => exact (h.left hold).step h.placed h.sorted (by rw [hold]; exact nofun) hstep
    · cases hdestructing

/-- A new client is quiet. -/
theorem quieted_initial (hp : processMachine.init p) : Quieted p := by
  have hplaced := placed_initial hp
  have hsorted := sorted_initial hp
  have hsequenced := sequenced_initial hp
  obtain ⟨baseLoop, pool, clientLoop, ipPort, serverName, clientName, m, w, -, -, rfl⟩ := hp
  refine ⟨hplaced, hsorted, hsequenced, ?_, fun _ => rfl, nofun, nofun⟩
  intro c hc
  exact absurd hc.1 (Nat.not_lt_zero c)

/-- An attempt is started by the connector only. -/
theorem Still.starts_none (h : Still p) {t : ThreadId} {k : ConnectorTask} :
    (p.stackOf t).head? ≠ some (.connector k) := by
  intro hhead
  have hzero := h.not_attempting (mem_pending_of_head hhead)
  cases hzero

/-- Nothing that is pending reaches a client that is gone. -/
theorem Quieted.leftAlone (h : Quieted p) : p.LeftAlone := by
  constructor
  · intro hdead t w hhead
    exact (h.left hdead).not_callsClient h.placed (mem_pending_of_head hhead)
  · intro t hmem
    have hpending : Work.client .destroyed ∈ p.pending :=
      List.mem_append_left _ (List.mem_map.2 ⟨_, Keyed.mem_ofKey.1 hmem, rfl⟩)
    cases hlife : p.client.life with
    | alive =>
      have hzero := weigh_eq_zero.1 (h.alive hlife) _ hpending
      cases hzero
    | destructing =>
      obtain ⟨c, above, below, hleaving⟩ := h.leaving hlife
      exact ⟨hleaving.still.starts_none, hleaving.still.starts_none⟩
    | dead => exact ⟨(h.left hlife).still.starts_none, (h.left hlife).still.starts_none⟩

/-- A client that is destroyed in a quiet state only is left alone. -/
theorem leftAlone_of_leavesQuietly (hp : processMachine.ReachableUnder LeavesQuietly p) :
    p.LeftAlone := by
  have h : Quieted p :=
    hp.invariant (fun _ => quieted_initial) fun _ _ _ h hquiet hstep => h.step hquiet hstep
  exact h.leftAlone

/-- The client is destroyed while it is connected, and the loop goes on. -/
theorem leftAlone_connected : ∃ p : Process,
    (p.client.life, (p.conns 0).destroyed) = (.dead, true) ∧ p.LeftAlone := by
  have hinit : processMachine.init (initial 1 [] 0 [] [] [] false false) :=
    ⟨1, [], 0, [], [], [], false, false, by simp, by simp, rfl⟩
  obtain ⟨p, hp, hobs⟩ := Machine.exists_of_run (C := LeavesQuietly) hinit
    (l := [.clientCall 0 .connect, .run 0 [], .connectDone 0 none, .dequeue 0, .run 0 [],
      .run 0 [], .run 0 [], .run 0 [], .return_ 0, .run 0 [], .run 0 [], .destroyClient 0,
      .run 0 [],
      .run 0 [], .return_ 0, .run 0 [], .run 0 [], .run 0 [], .run 0 [], .run 0 [], .run 0 [],
      .run 0 [], .dequeue 0, .run 0 [], .run 0 []])
    (f := fun p => (p.client.life, (p.conns 0).destroyed)) (a := (.dead, true))
    (by decide +kernel)
  exact ⟨p, hobs, leftAlone_of_leavesQuietly hp⟩

/-- The destructor of a client that has no connection posts `stopInLoop`, which the loop calls
when the client is gone. -/
theorem not_leftAlone : ¬ ∀ p, processMachine.Reachable p → p.LeftAlone := by
  intro hall
  have hinit : processMachine.init (initial 1 [] 0 [] [] [] false false) :=
    ⟨1, [], 0, [], [], [], false, false, by simp, by simp, rfl⟩
  obtain ⟨p, hp, hobs⟩ := Machine.exists_of_run (C := fun _ _ => True) hinit
    (l := [.destroyClient 0, .run 0 [], .dequeue 0])
    (f := fun p => (p.client.life, (p.stackOf 0).head?))
    (a := (.dead, some (.connector .stopInLoop))) (by decide +kernel)
  obtain ⟨hlife, hhead⟩ := Prod.mk.inj hobs
  have hcalls := (hall p hp).notCalled hlife 0 _ hhead
  cases hcalls

end Process

end LibNetToy
