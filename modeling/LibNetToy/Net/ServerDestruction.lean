import LibNetToy.Net.Threads
import LibNetToy.Net.Lifecycle

/-!
# The phases of the destructor of the server

The destructor of the server goes through its map, stops the loop of the server, and then stops
the loops of the pool one after another and waits for their threads.  What is left of it is on the
stack of the loop of the server, with the work it has called above.  A fact about a loop that
holds from the time it was stopped, and one that holds from the time its thread was joined, are
carried along.
-/

namespace LibNetToy

namespace Process

/-- What is left to do of the destructor of the server. -/
def destruction (p : Process) : List Work :=
  (p.stackOf p.server.loop_).filter Work.endsServer

/-- The phases of the destructor: `Q` is known of a loop of the pool that was told to quit, and `J`
of one whose thread was joined, and of the loop of the server once that was stopped. -/
inductive Phase (p : Process) (Q J : LoopId → Prop) : List Work → Prop
  | alive (hlife : p.server.life = .alive) : Phase p Q J []
  | clearing (hlife : p.server.life = .destructing) : Phase p Q J [.server .destroyNext]
  | leaving (hlife : p.server.life = .destructing) : Phase p Q J [.server .quit]
  | quitting {joined todo : List LoopId} (hlife : p.server.life = .destructing)
      (hempty : p.server.connections_ = []) (hpool : p.server.pool = joined ++ todo)
      (hbase : J p.server.loop_) (hjoined : ∀ l ∈ joined, J l) :
      Phase p Q J (TcpServer.joinPool todo ++ [.server .destroyed])
  | joining {joined todo : List LoopId} {l : LoopId} (hlife : p.server.life = .destructing)
      (hempty : p.server.connections_ = []) (hpool : p.server.pool = joined ++ l :: todo)
      (hbase : J p.server.loop_) (hjoined : ∀ l ∈ joined, J l) (hl : Q l) :
      Phase p Q J (.server (.joinLoop l) :: (TcpServer.joinPool todo ++ [.server .destroyed]))
  | dead (hlife : p.server.life = .dead) (hbase : J p.server.loop_)
      (hjoined : ∀ l ∈ p.server.pool, J l) : Phase p Q J []

variable {p q : Process} {t : ThreadId}

/-! ## Loops that were stopped -/

/-- A loop that was stopped stays so. -/
def Halts (p q : Process) : Prop :=
  ∀ l, p.stopped l = true → q.stopped l = true

/-- One more loop was stopped. -/
def StopsOne (p q : Process) : Prop :=
  ∃ l, q.stopped = Function.update p.stopped l true

namespace Halts

/-- No loop is stopped. -/
theorem of_eq (h : q.stopped = p.stopped) : Halts p q := by
  intro l hl
  rw [h]
  exact hl

/-- One loop is stopped. -/
theorem of_stopsOne (h : StopsOne p q) : Halts p q := by
  obtain ⟨l, h⟩ := h
  intro b hb
  rw [h]
  by_cases hl : b = l
  · rw [hl, Function.update_self]
  · rw [Function.update_of_ne hl]
    exact hb

/-- `cancel` stops no loop. -/
theorem cancel (timer : Option TimerId) : (TimerQueue.cancel p timer).stopped = p.stopped := by
  rcases TimerQueue.cancel_cases p timer with hq | ⟨id, -, -, hq⟩ | ⟨id, s, -, -, -, hq⟩ <;> rw [hq]

/-- `retry` stops no loop. -/
theorem retry {held : Option SockId} (h : Connector.retry p held = .ok q) :
    q.stopped = p.stopped := by
  rcases Connector.retry_eq_ok.1 h with ⟨-, rfl⟩ | ⟨k, -, -, -, ⟨-, rfl⟩ | ⟨-, rfl⟩⟩ <;> rfl

/-- A task of the connector stops no loop. -/
theorem execConnector {k : ConnectorTask} (h : Connector.exec p t k = .ok q) :
    q.stopped = p.stopped := by
  obtain ⟨-, h⟩ := Connector.exec_eq_ok.1 h
  cases k with
  | startInLoop =>
    rcases Connector.startInLoop_eq_ok.1 h with ⟨-, ⟨-, -, rfl⟩ | ⟨-, rfl⟩⟩ <;> rfl
  | stopInLoop =>
    rcases Connector.stopInLoop_eq_ok.1 h with ⟨-, ⟨-, h⟩ | ⟨-, rfl⟩⟩
    · exact (retry h).trans rfl
    · rfl
  | restart =>
    obtain ⟨-, rfl⟩ := Connector.restart_eq_ok.1 h
    rfl
  | handleConnect socket error =>
    cases error with
    | none =>
      obtain rfl := pure_eq_ok.1 h
      rfl
    | some e => exact (retry h).trans rfl

/-- The tasks that end the server stop one loop each. -/
theorem execServer {k : ServerTask} (h : TcpServer.exec p t k = .ok q) :
    q.stopped = p.stopped ∨ ((Work.server k).endsServer = true ∧ StopsOne p q) := by
  obtain ⟨-, h⟩ := TcpServer.exec_eq_ok.1 h
  cases k with
  | removeConnection c =>
    obtain rfl := h
    exact Or.inl rfl
  | removeConnectionInLoop c =>
    obtain ⟨-, -, rfl⟩ := TcpServer.removeConnectionInLoop_eq_ok.1 h
    exact Or.inl rfl
  | destroyNext =>
    obtain rfl := h
    rcases TcpServer.destroyNext_cases p t with ⟨-, hq⟩ | ⟨k, c, -, hq⟩
    · rw [hq]
      exact Or.inl rfl
    · rw [hq]
      exact Or.inl rfl
  | quit =>
    obtain rfl := h
    exact Or.inr ⟨rfl, p.server.loop_, rfl⟩
  | quitLoop l =>
    obtain rfl := h
    exact Or.inr ⟨rfl, l, rfl⟩
  | joinLoop l | destroyed =>
    obtain rfl := h
    exact Or.inl rfl

/-- Only the end of the server stops a loop. -/
theorem exec {peer : List Char} {w : Work} (h : p.exec t peer w = .ok q) :
    q.stopped = p.stopped ∨ (w.endsServer = true ∧ StopsOne p q) := by
  cases w with
  | conn c k =>
    rcases exec_conn_eq_ok.1 h with ⟨-, h⟩ | ⟨-, -, rfl⟩ | ⟨-, rfl⟩ | ⟨-, -, -, h⟩
    · rcases release_eq_ok.1 h with ⟨-, -, rfl⟩ | ⟨-, rfl⟩ <;> exact Or.inl rfl
    · exact Or.inl rfl
    · exact Or.inl rfl
    · obtain ⟨-, e, -, rfl⟩ := execConn_eq_ok.1 h
      exact Or.inl rfl
  | bound c k =>
    obtain ⟨-, e, -, rfl⟩ := execConn_eq_ok.1 h
    exact Or.inl rfl
  | setCloseCallback c =>
    obtain rfl := pure_eq_ok.1 h
    exact Or.inl rfl
  | server k => exact execServer h
  | client k =>
    obtain ⟨-, h⟩ := exec_client_eq_ok.1 h
    cases k with
    | newConnection socket =>
      obtain ⟨-, rfl⟩ := TcpClient.newConnection_eq_ok.1 h
      exact Or.inl rfl
    | removeConnection c =>
      obtain ⟨-, -, -, rfl⟩ := TcpClient.removeConnection_eq_ok.1 h
      exact Or.inl rfl
    | destroyed =>
      obtain rfl := h
      exact Or.inl rfl
  | connector k => exact Or.inl (execConnector h)
  | handleTimer timer error =>
    obtain rfl := pure_eq_ok.1 h
    rcases TimerQueue.handleTimer_cases p t timer error with ⟨-, hq⟩ | ⟨-, -, hq⟩ | ⟨-, -, hq⟩ <;>
    · rw [hq]
      exact Or.inl rfl
  | eraseTimer timer =>
    obtain rfl := pure_eq_ok.1 h
    exact Or.inl rfl

/-- The destructor of the client stops no loop. -/
theorem destructor (h : TcpClient.destructor p t = .ok q) : q.stopped = p.stopped := by
  have hset : ∀ c, (TcpClient.setCloseCallback p t c).stopped = p.stopped := by
    intro c
    unfold TcpClient.setCloseCallback
    split_ifs <;> rfl
  rcases TcpClient.destructor_eq_ok.1 h with ⟨-, rfl⟩ | ⟨c, -, -, ⟨-, rfl⟩ | ⟨-, rfl⟩⟩
  · exact cancel _
  · exact hset c
  · exact hset c

/-- Only the destructor of the server stops loops. -/
theorem stopped_of_step {e : ProcessEvent} (hstep : Process.step e p = .ok q) :
    q.stopped = p.stopped ∨ ((∃ u peer w, e = .run u peer ∧ (p.stackOf u).head? = some w ∧
      w.endsServer = true) ∧ StopsOne p q) := by
  cases e with
  | run t peer =>
    obtain ⟨w, rest, htake, -, hexec⟩ := run_eq_ok.1 hstep
    refine (exec (p := { p with stack := rest }) hexec).imp_right ?_
    rintro ⟨hw, hstops⟩
    exact ⟨⟨t, peer, w, rfl, head_stackOf htake, hw⟩, hstops⟩
  | dequeue l =>
    obtain ⟨-, w, rest, -, rfl⟩ := dequeue_eq_ok.1 hstep
    exact Or.inl rfl
  | return_ t =>
    obtain ⟨b, k, rest, -, rfl⟩ := return_eq_ok.1 hstep
    exact Or.inl rfl
  | call t b x =>
    obtain ⟨-, eff, -, rfl⟩ := call_eq_ok.1 hstep
    exact Or.inl rfl
  | keep t b =>
    obtain ⟨-, rfl⟩ := keep_eq_ok.1 hstep
    exact Or.inl rfl
  | keepConnection t =>
    obtain ⟨-, b, -, rfl⟩ := keepConnection_eq_ok.1 hstep
    exact Or.inl rfl
  | drop t b =>
    obtain ⟨-, rfl⟩ := drop_eq_ok.1 hstep
    exact Or.inl rfl
  | consume t b len =>
    obtain ⟨-, r, -, rfl⟩ := consume_eq_ok.1 hstep
    exact Or.inl rfl
  | receive b data =>
    obtain ⟨-, r, -, rfl⟩ := receive_eq_ok.1 hstep
    exact Or.inl rfl
  | readFails b e =>
    obtain ⟨-, r, -, rfl⟩ := readFails_eq_ok.1 hstep
    exact Or.inl rfl
  | transmit b k stale =>
    obtain ⟨-, r, -, rfl⟩ := transmit_eq_ok.1 hstep
    exact Or.inl rfl
  | sendFails b e =>
    obtain ⟨-, r, -, rfl⟩ := sendFails_eq_ok.1 hstep
    exact Or.inl rfl
  | accept ioLoop =>
    obtain ⟨-, rfl⟩ := accept_eq_ok.1 hstep
    exact Or.inl rfl
  | destroyServer t =>
    obtain ⟨-, hexec⟩ := destroyServer_eq_ok.1 hstep
    obtain ⟨-, rfl⟩ := TcpServer.destructor_eq_ok.1 hexec
    exact Or.inl rfl
  | clientCall t x =>
    obtain ⟨-, rfl⟩ := clientCall_eq_ok.1 hstep
    cases x with
    | connect | enableRetry => exact Or.inl rfl
    | disconnect =>
      unfold clientCall TcpClient.disconnect
      cases p.client.connection_ <;> exact Or.inl rfl
    | stop => exact Or.inl (cancel _)
  | connectorCall t x =>
    obtain ⟨-, rfl⟩ := connectorCall_eq_ok.1 hstep
    cases x with
    | start | restart => exact Or.inl rfl
    | stop => exact Or.inl (cancel _)
  | destroyClient t =>
    obtain ⟨-, hexec⟩ := destroyClient_eq_ok.1 hstep
    exact Or.inl (destructor hexec)
  | connectDone socket error =>
    obtain ⟨-, rfl⟩ := connectDone_eq_ok.1 hstep
    exact Or.inl rfl
  | timerExpires timer =>
    obtain ⟨-, rfl⟩ := timerExpires_eq_ok.1 hstep
    exact Or.inl rfl

/-- Every step stops one loop at most. -/
theorem step {e : ProcessEvent} (hstep : Process.step e p = .ok q) : Halts p q := by
  rcases stopped_of_step hstep with hsame | ⟨-, hstops⟩
  · exact of_eq hsame
  · exact of_stopsOne hstops

end Halts

/-! ## What is left to do -/

/-- A thread that calls no part of the destructor. -/
theorem Pushes.destruction {called : Work → Bool} (h : Pushes called t p q)
    (hcalled : ∀ w, called w = true → w.endsServer = false)
    (hloop : q.server.loop_ = p.server.loop_) : q.destruction = p.destruction := by
  unfold Process.destruction
  rw [hloop]
  by_cases ht : p.server.loop_ = t
  · subst ht
    obtain ⟨calls, hstack, hcalls⟩ := h.stackOf_self
    have hnone : calls.filter Work.endsServer = [] := by
      apply List.filter_eq_nil_iff.2
      intro w hw
      rw [hcalled w (hcalls w hw)]
      exact Bool.false_ne_true
    rw [hstack, List.filter_append, hnone]
    rfl
  · rw [h.stackOf_other ht]

/-- A thread takes a work item that is no part of the destructor. -/
theorem destruction_pop {w : Work} {rest : List (ThreadId × Work)}
    (htake : Keyed.takeFirst t p.stack = some (w, rest)) (hw : w.endsServer = false) :
    ({ p with stack := rest } : Process).destruction = p.destruction := by
  unfold destruction
  by_cases ht : p.server.loop_ = t
  · subst ht
    have hself : p.stackOf p.server.loop_ =
        w :: ({ p with stack := rest } : Process).stackOf p.server.loop_ :=
      Keyed.ofKey_takeFirst htake
    rw [hself, List.filter_cons_of_neg (by rw [hw]; exact Bool.false_ne_true)]
  · have hother : p.stackOf p.server.loop_ =
        ({ p with stack := rest } : Process).stackOf p.server.loop_ :=
      Keyed.ofKey_takeFirst_of_ne htake (Ne.symm ht)
    rw [hother]

/-- Nothing but the destructor calls its parts. -/
theorem not_endsServer_of_calledBy {e : ProcessEvent} (hends : ∀ u peer w, e = .run u peer →
      (p.stackOf u).head? = some w → w.endsServer = false)
    (hdestroy : ∀ u, e ≠ .destroyServer u) {w : Work} (h : p.calledBy e w = true) :
    w.endsServer = false := by
  rw [← Bool.not_eq_true]
  intro hw
  rcases serverEnds_of_calledBy hw h with ⟨u, peer, v, rfl, hhead, hv⟩ | ⟨u, rfl⟩
  · rw [hends u peer v rfl hhead] at hv
    cases hv
  · exact hdestroy u rfl

/-- What is left to do of the destructor changes when it goes on. -/
theorem destruction_step {e : ProcessEvent} (hseq : Sequenced p) (hstep : step e p = .ok q)
    (hloop : q.server.loop_ = p.server.loop_)
    (hends : ∀ u peer w, e = .run u peer → (p.stackOf u).head? = some w → w.endsServer = false)
    (hdestroy : ∀ u, e ≠ .destroyServer u) : q.destruction = p.destruction := by
  have hcalled : ∀ w, p.calledBy e w = true → w.endsServer = false :=
    fun w => not_endsServer_of_calledBy hends hdestroy
  cases course_of_step hstep with
  | @dequeues l w rest hlive hempty htake hq =>
    have hw : w.endsServer = false := by
      have hqueued := hseq.queued (l, w) ((Keyed.mem_of_takeFirst htake).2 (Or.inl rfl))
      by_contra hw
      rw [Work.not_isQueued_of_endsServer (by simpa using hw)] at hqueued
      cases hqueued
    have htop : Keyed.takeFirst l q.stack = some (w, p.stack) := by
      rw [hq]
      exact if_pos rfl
    have hpop := destruction_pop htop hw
    rw [← hpop, hq]
    rfl
  | @runs u peer w rest htake hready hexec =>
    have hw := hends u peer w rfl (head_stackOf htake)
    rw [((Pushes.exec hexec).calledBy htake).destruction hcalled hloop]
    exact destruction_pop htake hw
  | @returns u b k rest htake hq =>
    rw [hq]
    exact destruction_pop htake rfl
  | calls hrun hready hpushes => exact hpushes.destruction hcalled hloop
  | completes hrun hstack hpushes => exact hpushes.destruction hcalled hloop

/-- The server is left as it is, but for the map, as long as the destructor neither starts nor goes
on. -/
theorem server_step {e : ProcessEvent} (hstep : step e p = .ok q)
    (hends : ∀ u peer w, e = .run u peer → (p.stackOf u).head? = some w → w.endsServer = false)
    (hdestroy : ∀ u, e ≠ .destroyServer u) : q.server.life = p.server.life ∧
      (p.server.life ≠ .alive → p.server.connections_ = [] → q.server.connections_ = []) := by
  have hserver := server_of_step hstep
  generalize q.server = s at hserver
  cases hserver with
  | same => exact ⟨rfl, fun _ hempty => hempty⟩
  | accepts hlife => exact ⟨rfl, fun hdying => absurd hlife hdying⟩
  | removes =>
    refine ⟨rfl, fun _ hempty => ?_⟩
    show AssocMap.erase _ p.server.connections_ = []
    rw [hempty]
    rfl
  | destructs hlife => exact absurd rfl (hdestroy _)
  | resets hhead | quits hhead | dies hhead =>
    have hno := hends _ _ _ rfl hhead
    cases hno

/-! ## Steps -/

/-- The thread takes a part of the destructor. -/
theorem destruction_take {w : Work} {rest : List (ThreadId × Work)}
    (htake : Keyed.takeFirst p.server.loop_ p.stack = some (w, rest)) (hw : w.endsServer = true) :
    p.destruction = w :: ({ p with stack := rest } : Process).destruction := by
  have hself : p.stackOf p.server.loop_ =
      w :: ({ p with stack := rest } : Process).stackOf p.server.loop_ :=
    Keyed.ofKey_takeFirst htake
  unfold destruction
  rw [hself, List.filter_cons_of_pos hw]

/-- What is left of the destruction lies on the stack of the base loop. -/
theorem destruction_schedule (calls : List Work) (posts : List (LoopId × Work)) :
    (p.schedule p.server.loop_ calls posts).destruction =
      calls.filter Work.endsServer ++ p.destruction := by
  have hself : (p.schedule p.server.loop_ calls posts).stackOf p.server.loop_ =
      calls ++ p.stackOf p.server.loop_ := by
    simp [stackOf, schedule]
  have hloop : (p.schedule p.server.loop_ calls posts).server.loop_ = p.server.loop_ := rfl
  unfold destruction
  rw [hloop, hself, List.filter_append]

/-- All of it ends the server. -/
theorem filter_joinPool (pool : List LoopId) :
    (TcpServer.joinPool pool).filter Work.endsServer = TcpServer.joinPool pool := by
  apply List.filter_eq_self.2
  intro w hw
  obtain ⟨l, -, hw⟩ := List.mem_flatMap.1 hw
  simp only [List.mem_cons, List.not_mem_nil, or_false] at hw
  rcases hw with rfl | rfl <;> rfl

/-- A round of the destructor is followed by the next one or by the end. -/
theorem destruction_destroyNext (h : p.destruction = []) :
    (TcpServer.destroyNext p p.server.loop_).destruction = [.server .quit] ∨
      (TcpServer.destroyNext p p.server.loop_).destruction = [.server .destroyNext] := by
  rcases TcpServer.destroyNext_cases p p.server.loop_ with ⟨-, hq⟩ | ⟨k, c, -, hq⟩
  · left
    rw [hq, destruction_schedule, h]
    rfl
  · right
    have hcalls : (callIf p.server.loop_ (p.conns c).conn.loop_ (.bound c .connectDestroyed) ++
        [Work.conn c .release, .server .destroyNext]).filter Work.endsServer =
        [.server .destroyNext] := by
      unfold callIf
      split_ifs <;> rfl
    have hrest : (({ p with server := { p.server with
        connections_ := TcpServer.resetEntry k p.server.connections_ } } : Process).update c
        fun r => { r with taken := true }).destruction = [] := h
    have hdestruction := destruction_schedule (p := ({ p with server := { p.server with
        connections_ := TcpServer.resetEntry k p.server.connections_ } } : Process).update c
        fun r => { r with taken := true })
      (callIf p.server.loop_ (p.conns c).conn.loop_ (.bound c .connectDestroyed) ++
        [.conn c .release, .server .destroyNext])
      (postIf p.server.loop_ (p.conns c).conn.loop_ (.bound c .connectDestroyed))
    rw [hrest, hcalls] at hdestruction
    rw [hq]
    exact hdestruction

/-- Then the pool is left. -/
theorem destruction_quit (h : p.destruction = []) : (TcpServer.quit p p.server.loop_).destruction =
    TcpServer.joinPool p.server.pool ++ [.server .destroyed] := by
  have hrest : ({ p with
      stopped := Function.update p.stopped p.server.loop_ true
      server := { p.server with connections_ := [] } } : Process).destruction = [] := h
  have hdestruction := destruction_schedule (p := { p with
      stopped := Function.update p.stopped p.server.loop_ true
      server := { p.server with connections_ := [] } })
    (TcpServer.joinPool p.server.pool ++ [.server .destroyed]) []
  rw [hrest, List.append_nil, List.filter_append, filter_joinPool] at hdestruction
  exact hdestruction

/-- A part of the destructor is done by the thread of the loop of the server. -/
theorem Placed.ends (h : Placed p) {w : Work} (hhead : (p.stackOf t).head? = some w)
    (hw : w.endsServer = true) : t = p.server.loop_ := by
  have hentry := Keyed.mem_ofKey.1 (List.mem_of_head? hhead)
  refine (h.stack _ hentry).place _ ?_
  cases w with
  | server k => cases k <;> first | rfl | cases hw
  | conn | bound | setCloseCallback | client | connector | handleTimer | eraseTimer => cases hw

namespace Phase

variable {Q J Q' J' : LoopId → Prop} {ws : List Work}

/-- The destructor does not go on. -/
theorem keep (h : Phase p Q J ws) (hlife : q.server.life = p.server.life)
    (hpool : q.server.pool = p.server.pool) (hloop : q.server.loop_ = p.server.loop_)
    (hempty : p.server.life ≠ .alive → p.server.connections_ = [] → q.server.connections_ = [])
    (hQ : p.server.life ≠ .alive → ∀ l, Q l → Q' l)
    (hJ : p.server.life ≠ .alive → ∀ l, J l → J' l) : Phase q Q' J' ws := by
  cases h with
  | alive halive => exact .alive (hlife.trans halive)
  | clearing hdying => exact .clearing (hlife.trans hdying)
  | leaving hdying => exact .leaving (hlife.trans hdying)
  | quitting hdying hmap hloops hbase hjoined =>
    have hnot : p.server.life ≠ .alive := by
      rw [hdying]
      exact nofun
    exact .quitting (hlife.trans hdying) (hempty hnot hmap) (hpool.trans hloops)
      (hloop ▸ hJ hnot _ hbase) fun l hl => hJ hnot l (hjoined l hl)
  | joining hdying hmap hloops hbase hjoined hl =>
    have hnot : p.server.life ≠ .alive := by
      rw [hdying]
      exact nofun
    exact .joining (hlife.trans hdying) (hempty hnot hmap) (hpool.trans hloops)
      (hloop ▸ hJ hnot _ hbase) (fun l hl => hJ hnot l (hjoined l hl)) (hQ hnot _ hl)
  | dead hdead hbase hjoined =>
    have hnot : p.server.life ≠ .alive := by
      rw [hdead]
      exact nofun
    exact .dead (hlife.trans hdead) (hloop ▸ hJ hnot _ hbase)
      fun l hl => hJ hnot l (hjoined l (hpool ▸ hl))

/-- The destructor goes on. -/
theorem advance {peer : List Char} {w : Work} {rest : List (ThreadId × Work)}
    (h : Phase p Q J p.destruction)
    (htake : Keyed.takeFirst p.server.loop_ p.stack = some (w, rest)) (hw : w.endsServer = true)
    (hexec : ({ p with stack := rest } : Process).exec p.server.loop_ peer w = .ok q)
    (hJ : p.server.life ≠ .alive → ∀ l, J l → J' l)
    (hquit : w = .server .quit → J' p.server.loop_)
    (hquitLoop : ∀ l, w = .server (.quitLoop l) → p.server.connections_ = [] → Q' l)
    (hjoinLoop : ∀ l, w = .server (.joinLoop l) → p.server.life ≠ .alive → Q l → J' l) :
    Phase q Q' J' q.destruction := by
  rw [destruction_take htake hw] at h
  generalize hbelow : ({ p with stack := rest } : Process).destruction = below at h
  have hserver : ∀ k, w = .server k →
      TcpServer.exec { p with stack := rest } p.server.loop_ k = .ok q := by
    rintro k rfl
    exact hexec
  generalize hwork : w :: below = work at h
  cases h with
  | alive | dead => cases hwork
  | clearing hlife =>
    obtain ⟨rfl, rfl⟩ := List.cons.inj hwork
    obtain rfl := (TcpServer.exec_eq_ok.1 (hserver _ rfl)).2
    have hserved : (TcpServer.destroyNext { p with stack := rest } p.server.loop_).server.life =
        .destructing := by
      rcases TcpServer.destroyNext_cases { p with stack := rest } p.server.loop_ with
        ⟨-, hq⟩ | ⟨k, c, -, hq⟩
      · rw [hq]
        exact hlife
      · rw [hq]
        exact hlife
    rcases destruction_destroyNext (p := { p with stack := rest }) hbelow with hq | hq
    · rw [hq]
      exact .leaving hserved
    · rw [hq]
      exact .clearing hserved
  | leaving hlife =>
    obtain ⟨rfl, rfl⟩ := List.cons.inj hwork
    obtain rfl := (TcpServer.exec_eq_ok.1 (hserver _ rfl)).2
    rw [destruction_quit (p := { p with stack := rest }) hbelow]
    exact .quitting hlife rfl (List.nil_append _).symm (hquit rfl) (List.forall_mem_nil _)
  | @quitting joined todo hlife hempty hpool hbase hjoined =>
    have hnot : p.server.life ≠ .alive := by
      rw [hlife]
      exact nofun
    cases todo with
    | nil =>
      obtain ⟨rfl, rfl⟩ := List.cons.inj hwork
      have hq := (TcpServer.exec_eq_ok.1 (hserver _ rfl)).2
      have hdestruction : q.destruction = [] := by
        rw [hq]
        exact hbelow
      rw [hdestruction]
      subst hq
      refine .dead rfl (hJ hnot _ hbase) ?_
      intro l hl
      rw [hpool, List.append_nil] at hl
      exact hJ hnot l (hjoined l hl)
    | cons l todo =>
      obtain ⟨rfl, rfl⟩ := List.cons.inj hwork
      have hq := (TcpServer.exec_eq_ok.1 (hserver _ rfl)).2
      have hdestruction : q.destruction =
          .server (.joinLoop l) :: (TcpServer.joinPool todo ++ [.server .destroyed]) := by
        rw [hq]
        exact hbelow
      rw [hdestruction]
      subst hq
      exact .joining hlife hempty hpool (hJ hnot _ hbase) (fun b hb => hJ hnot b (hjoined b hb))
        (hquitLoop l rfl hempty)
  | @joining joined todo l hlife hempty hpool hbase hjoined hl =>
    have hnot : p.server.life ≠ .alive := by
      rw [hlife]
      exact nofun
    obtain ⟨rfl, rfl⟩ := List.cons.inj hwork
    obtain rfl := (TcpServer.exec_eq_ok.1 (hserver _ rfl)).2
    rw [hbelow]
    have hloops : p.server.pool = (joined ++ [l]) ++ todo := by
      rw [List.append_assoc]
      exact hpool
    refine .quitting hlife hempty hloops (hJ hnot _ hbase) ?_
    intro b hb
    rcases List.mem_append.1 hb with hb | hb
    · exact hJ hnot b (hjoined b hb)
    · rw [List.mem_singleton.1 hb]
      exact hjoinLoop l rfl hnot hl

/-- The destructor starts. -/
theorem start (h : Phase p Q J p.destruction) (hstep : Process.step (.destroyServer t) p = .ok q) :
    Phase q Q' J' q.destruction := by
  obtain ⟨⟨-, hlife⟩, hexec⟩ := destroyServer_eq_ok.1 hstep
  obtain ⟨rfl, hq⟩ := TcpServer.destructor_eq_ok.1 hexec
  have hnone : p.destruction = [] := by
    generalize p.destruction = ws at h
    cases h with
    | alive | dead => rfl
    | clearing hdying | leaving hdying | quitting hdying | joining hdying =>
      rw [hlife] at hdying
      cases hdying
  have hrest : ({ p with server := { p.server with
      life := .destructing } } : Process).destruction = [] := hnone
  have hdestruction := destruction_schedule
    (p := { p with server := { p.server with life := .destructing } }) [.server .destroyNext] []
  rw [hrest, List.append_nil] at hdestruction
  subst hq
  rw [show Process.destruction _ = _ from hdestruction]
  exact .clearing rfl

/-- Every step goes on with the destructor or leaves it where it is. -/
theorem step {e : ProcessEvent} (h : Phase p Q J p.destruction) (hplaced : Placed p)
    (hseq : Sequenced p) (hstep : Process.step e p = .ok q)
    (hQ : p.server.life ≠ .alive → ∀ l, Q l → Q' l)
    (hJ : p.server.life ≠ .alive → ∀ l, J l → J' l)
    (hquit : ∀ u peer, e = .run u peer → (p.stackOf u).head? = some (.server .quit) →
      u = p.server.loop_ → J' u)
    (hquitLoop : ∀ u peer l, e = .run u peer →
      (p.stackOf u).head? = some (.server (.quitLoop l)) → p.server.connections_ = [] → Q' l)
    (hjoinLoop : ∀ l, p.server.life ≠ .alive → p.stackOf l = [] → Q l → J' l) :
    Phase q Q' J' q.destruction := by
  have hf := (Moves.step hplaced hstep).follows
  by_cases hdestroy : ∃ u, e = .destroyServer u
  · obtain ⟨u, rfl⟩ := hdestroy
    exact h.start hstep
  by_cases hends : ∃ u peer w, e = .run u peer ∧ (p.stackOf u).head? = some w ∧ w.endsServer = true
  · obtain ⟨u, peer, w, rfl, hhead, hw⟩ := hends
    obtain ⟨v, rest, htake, hready, hexec⟩ := run_eq_ok.1 hstep
    have hv := head_stackOf htake
    rw [hhead] at hv
    obtain rfl := Option.some.inj hv
    obtain rfl := hplaced.ends hhead hw
    refine h.advance htake hw hexec hJ ?_ ?_ ?_
    · rintro rfl
      exact hquit _ peer rfl hhead rfl
    · rintro l rfl hempty
      exact hquitLoop _ peer l rfl hhead hempty
    · rintro l rfl hlife hl
      exact hjoinLoop l hlife (List.isEmpty_iff.1 hready) hl
  · have hnone : ∀ u peer w, e = .run u peer → (p.stackOf u).head? = some w →
        w.endsServer = false := by
      intro u peer w he hhead
      by_contra hw
      exact hends ⟨u, peer, w, he, hhead, by simpa using hw⟩
    have hother : ∀ u, e ≠ .destroyServer u := fun u he => hdestroy ⟨u, he⟩
    obtain ⟨hlife, hempty⟩ := server_step hstep hnone hother
    rw [destruction_step hseq hstep hf.server hnone hother]
    exact h.keep hlife hf.pool hf.server hempty hQ hJ

end Phase

/-- The destructor has not started. -/
theorem phase_initial {Q J : LoopId → Prop} (hp : processMachine.init p) :
    Phase p Q J p.destruction := by
  obtain ⟨baseLoop, pool, clientLoop, ipPort, serverName, clientName, m, w, -, -, rfl⟩ := hp
  exact .alive rfl

end Process

end LibNetToy
