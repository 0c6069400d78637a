import LibNetToy.Net.Lifecycle

/-!
# The stages of a connection

A connection is established, closed, removed by its owner and told that it was removed.  Each
stage is a call that is pending exactly once, and the state of the connection says which stages
are over; the exception is the destructor of the server, which tells connections so that were
not closed.
-/

namespace LibNetToy

namespace Process

/-- A call that establishes the connection. -/
def establishing (c : ConnId) : Work → Nat
  | .conn d .connectEstablished => if d = c then 1 else 0
  | .bound d .connectEstablished => if d = c then 1 else 0
  | _ => 0

/-- A call on the way of a closed connection to its owner. -/
def closing (c : ConnId) : Work → Nat
  | .conn d (.callback .close) => if d = c then 1 else 0
  | .server (.removeConnection d) => if d = c then 1 else 0
  | .server (.removeConnectionInLoop d) => if d = c then 1 else 0
  | .client (.removeConnection d) => if d = c then 1 else 0
  | _ => 0

/-- A call that tells the connection that it was removed. -/
def destroying (c : ConnId) : Work → Nat
  | .conn d .connectDestroyed => if d = c then 1 else 0
  | .bound d .connectDestroyed => if d = c then 1 else 0
  | _ => 0

/-- The call by which the owner removes the connection. -/
def removing (c : ConnId) : Work → Nat
  | .server (.removeConnectionInLoop d) => if d = c then 1 else 0
  | .client (.removeConnection d) => if d = c then 1 else 0
  | _ => 0

/-- The work item is part of none of the stages. -/
def Offstage (w : Work) : Prop :=
  ∀ c, establishing c w = 0 ∧ closing c w = 0 ∧ destroying c w = 0

/-- The stages of the connection that its owner has removed `n` times. -/
structure Staged (p : Process) (c : ConnId) (n : Nat) : Prop where
  established : weigh (establishing c) p.pending + (p.conns c).established = 1
  connecting : (p.conns c).conn.state_ = .kConnecting ↔ (p.conns c).established = 0
  disconnected : weigh (closing c) p.pending + n =
    if (p.conns c).conn.state_ = .kDisconnected then 1 else 0
  destroys : weigh (destroying c) p.pending + (p.conns c).destroys ≤ n

variable {p q : Process} {c : ConnId} {n : Nat}

/-! ## Weights -/

/-- Work about something else does not establish the connection. -/
theorem establishing_about {w : Work} (hw : w.connId ≠ some c) : establishing c w = 0 := by
  unfold establishing
  split
  · exact if_neg fun h => hw (congrArg some h)
  · exact if_neg fun h => hw (congrArg some h)
  · rfl

/-- Work about something else does not close the connection. -/
theorem closing_about {w : Work} (hw : w.connId ≠ some c) : closing c w = 0 := by
  unfold closing
  split
  · exact if_neg fun h => hw (congrArg some h)
  · exact if_neg fun h => hw (congrArg some h)
  · exact if_neg fun h => hw (congrArg some h)
  · exact if_neg fun h => hw (congrArg some h)
  · rfl

/-- Work about something else does not destroy the connection. -/
theorem destroying_about {w : Work} (hw : w.connId ≠ some c) : destroying c w = 0 := by
  unfold destroying
  split
  · exact if_neg fun h => hw (congrArg some h)
  · exact if_neg fun h => hw (congrArg some h)
  · rfl

/-- The tasks of a connection weigh what they weigh as work. -/
theorem weigh_map_conn (f : Work → Nat) (c : ConnId) (ts : List ConnTask) :
    weigh f (ts.map (Work.conn c)) = weigh (fun t => f (.conn c t)) ts := by
  unfold weigh
  rw [List.map_map]
  rfl

/-- A task of the connection closes it as the session counts it. -/
theorem closing_conn (c : ConnId) (k : ConnTask) :
    closing c (.conn c k) = TcpConnection.closeOf k := by
  unfold closing TcpConnection.closeOf
  split <;> simp_all

/-- Giving up a pointer is no stage. -/
theorem offstage_release (d : ConnId) : Offstage (.conn d .release) :=
  fun _ => ⟨rfl, rfl, rfl⟩

/-- The rest of a call of the user is no stage. -/
theorem offstage_inLoop {k : ConnTask} (hk : k.isInLoop = true) (d : ConnId) :
    Offstage (.conn d k) ∧ Offstage (.bound d k) := by
  cases k <;> first | exact ⟨fun _ => ⟨rfl, rfl, rfl⟩, fun _ => ⟨rfl, rfl, rfl⟩⟩ | cases hk

/-- What a call from outside leads to. -/
theorem offstage_call {x : ConnCall} {here : Option LoopId} {d : TcpConnection} {eff : Effect}
    (h : d.call here x = .ok eff) (c : ConnId) :
    ∀ w ∈ eff.calls.map (Work.conn c) ++ eff.posts.map (Functor.work c), Offstage w := by
  obtain ⟨hcalls, hposts⟩ := TcpConnection.call_inLoop h
  intro w hw
  rcases List.mem_append.1 hw with hw | hw
  · obtain ⟨k, hk, rfl⟩ := List.mem_map.1 hw
    rcases hcalls k hk with hk | rfl
    · exact (offstage_inLoop hk c).1
    · exact offstage_release c
  · obtain ⟨g, hg, rfl⟩ := List.mem_map.1 hw
    have hk := hposts g hg
    cases g with
    | raw k => exact (offstage_inLoop hk c).1
    | bound k => exact (offstage_inLoop hk c).2

/-- A completion handler is no stage. -/
theorem offstage_handler {k : ConnTask} (hk : k.isHandler = true) (d : ConnId) :
    Offstage (.conn d k) := by
  cases k <;> first | exact fun _ => ⟨rfl, rfl, rfl⟩ | cases hk

/-- Work that is no stage establishes no connection. -/
theorem weigh_establishing_offstage {ws : List Work} (hws : ∀ w ∈ ws, Offstage w) (c : ConnId) :
    weigh (establishing c) ws = 0 :=
  weigh_eq_zero.2 fun w hw => (hws w hw c).1

/-- Work that is no stage closes no connection. -/
theorem weigh_closing_offstage {ws : List Work} (hws : ∀ w ∈ ws, Offstage w) (c : ConnId) :
    weigh (closing c) ws = 0 :=
  weigh_eq_zero.2 fun w hw => (hws w hw c).2.1

/-- Work that is no stage destroys no connection. -/
theorem weigh_destroying_offstage {ws : List Work} (hws : ∀ w ∈ ws, Offstage w) (c : ConnId) :
    weigh (destroying c) ws = 0 :=
  weigh_eq_zero.2 fun w hw => (hws w hw c).2.2

/-- The calls of `connectEstablished` are counted. -/
theorem note_established (r : Connection) (c : ConnId) (k : ConnTask) :
    (r.note k).established = r.established + establishing c (.conn c k) := by
  cases k with
  | callback k =>
    cases k with
    | connection up => cases up <;> rfl
    | message | writeComplete | close => rfl
  | connectEstablished => simp [Connection.note, establishing]
  | _ => rfl

/-- The calls of `connectDestroyed` are counted. -/
theorem note_destroys (r : Connection) (c : ConnId) (k : ConnTask) :
    (r.note k).destroys = r.destroys + destroying c (.conn c k) := by
  cases k with
  | callback k =>
    cases k with
    | connection up => cases up <;> rfl
    | message | writeComplete | close => rfl
  | connectDestroyed => simp [Connection.note, destroying]
  | _ => rfl

/-- What follows a task is not a stage, but for the call of the close callback. -/
theorem weigh_followUps {here : Option LoopId} {d : TcpConnection} {k : ConnTask} {eff : Effect}
    (h : d.exec here k = .ok eff) (c : ConnId) :
    weigh (establishing c) (eff.calls.map (Work.conn c)) = 0 ∧
      weigh (destroying c) (eff.calls.map (Work.conn c)) = 0 ∧
      weigh (closing c) (eff.calls.map (Work.conn c)) = weigh TcpConnection.closeOf eff.tasks := by
  obtain ⟨hposts, hcalls⟩ := TcpConnection.exec_followUp h
  refine ⟨?_, ?_, ?_⟩
  · apply weigh_eq_zero.2
    intro w hw
    obtain ⟨k, hk, rfl⟩ := List.mem_map.1 hw
    have hfollow := hcalls k hk
    cases k <;> first | rfl | cases hfollow
  · apply weigh_eq_zero.2
    intro w hw
    obtain ⟨k, hk, rfl⟩ := List.mem_map.1 hw
    have hfollow := hcalls k hk
    cases k <;> first | rfl | cases hfollow
  · rw [weigh_map_conn, Effect.tasks, hposts, List.flatMap_nil, List.append_nil]
    simp only [closing_conn]

/-! ## Steps -/

/-- The stages stay as they are. -/
theorem Staged.frame {taken : List Work} {d : Change} (h : Staged p c n)
    (ha : Alters p q c taken d) (htaken : ∀ w ∈ taken, Offstage w)
    (hadded : ∀ w ∈ d.added, Offstage w)
    (hestablished : d.record.established = (p.conns c).established)
    (hdestroys : d.record.destroys = (p.conns c).destroys)
    (hconnecting : d.record.conn.state_ = .kConnecting ↔
      (p.conns c).conn.state_ = .kConnecting)
    (hdisconnected : d.record.conn.state_ = .kDisconnected ↔
      (p.conns c).conn.state_ = .kDisconnected) : Staged q c n := by
  have hest := ha.pending (establishing c) fun w => establishing_about
  have hclose := ha.pending (closing c) fun w => closing_about
  have hdestroy := ha.pending (destroying c) fun w => destroying_about
  rw [weigh_establishing_offstage htaken, weigh_establishing_offstage hadded] at hest
  rw [weigh_closing_offstage htaken, weigh_closing_offstage hadded] at hclose
  rw [weigh_destroying_offstage htaken, weigh_destroying_offstage hadded] at hdestroy
  constructor
  · have hold := h.established
    rw [ha.record, hestablished]
    omega
  · rw [ha.record, hestablished, hconnecting]
    exact h.connecting
  · have hold := h.disconnected
    rw [ha.record]
    simp only [hdisconnected]
    omega
  · have hold := h.destroys
    rw [ha.record, hdestroys]
    omega

/-- A member function runs, called directly or through a functor `w`. -/
theorem Staged.task {t : ThreadId} {w : Work} {k : ConnTask} {eff : Effect} {after : List Work}
    {d : Change} (h : Staged p c n) (ha : Alters p q c [w] d)
    (hwEst : establishing c w = establishing c (.conn c k)) (hwClose : closing c w = 0)
    (hwDestroy : destroying c w = destroying c (.conn c k)) (hafter : ∀ w ∈ after, Offstage w)
    (heff : (p.conns c).conn.exec (some t) k = .ok eff)
    (hadded : d.added = eff.calls.map (Work.conn c) ++ after)
    (hrecord : d.record = { (p.conns c).note k with conn := eff.conn }) : Staged q c n := by
  obtain ⟨hcallsEst, hcallsDestroy, hcallsClose⟩ := weigh_followUps heff c
  have hest := ha.pending (establishing c) fun w => establishing_about
  have hclosing := ha.pending (closing c) fun w => closing_about
  have hdestroy := ha.pending (destroying c) fun w => destroying_about
  simp only [hadded, weigh_append, weigh_cons, weigh_nil, hwEst,
    weigh_establishing_offstage hafter, hcallsEst] at hest
  simp only [hadded, weigh_append, weigh_cons, weigh_nil, hwClose,
    weigh_closing_offstage hafter, hcallsClose] at hclosing
  simp only [hadded, weigh_append, weigh_cons, weigh_nil, hwDestroy,
    weigh_destroying_offstage hafter, hcallsDestroy] at hdestroy
  have hrec : q.conns c = { (p.conns c).note k with conn := eff.conn } := ha.record.trans hrecord
  have hestOld := h.established
  have hdestroyOld := h.destroys
  have hclosedOld := h.disconnected
  constructor
  · rw [hrec]
    simp only [note_established _ c]
    omega
  · rw [hrec]
    simp only [note_established _ c]
    rcases TcpConnection.exec_state heff with ⟨rfl, hold, hnew⟩ | ⟨hold, hnew⟩ | ⟨hk, hsame⟩
    · simp [hnew, establishing]
    · have hopen : (p.conns c).established ≠ 0 := by
        intro hzero
        rw [h.connecting.2 hzero] at hold
        rcases hold with hold | hold <;> cases hold
      rw [hnew]
      constructor
      · exact nofun
      · intro hzero
        omega
    · have hzero : establishing c (.conn c k) = 0 := by
        unfold establishing
        split <;> simp_all
      rw [hsame, hzero]
      exact h.connecting
  · rw [hrec]
    rcases TcpConnection.exec_closing heff with ⟨hopen, hnew, -, hcount⟩ | ⟨hsame, -, hcount⟩
    · rw [if_neg hopen] at hclosedOld
      have hk : k ≠ .connectDestroyed := by
        rintro rfl
        have hone : destroying c (.conn c .connectDestroyed) = 1 := by simp [destroying]
        omega
      rw [if_neg hk] at hcount
      simp only [hnew, if_true]
      omega
    · simp only [hsame]
      omega
  · rw [hrec]
    simp only [note_destroys _ c]
    omega

/-- The destructor of the server does not take the connection. -/
def Untaken (p : Process) (c : ConnId) : Prop :=
  ∀ t k, (p.stackOf t).head? = some (.server .destroyNext) →
    TcpServer.nextEntry p.server.connections_ ≠ some (k, c)

/-- The server does not take connections of the client from its map. -/
theorem Placed.untaken (h : Placed p) {c : ConnId}
    (hclient : (p.conns c).closeCallback_ = .client) : p.Untaken c := by
  intro t k _ hnext
  have hserver := (h.entries _ (nextEntry_mem hnext) c rfl).2
  rw [hclient] at hserver
  cases hserver

/-- What the client removes is one of its connections. -/
theorem Placed.client_removes (h : Placed p) {c : ConnId}
    (hmem : Work.client (.removeConnection c) ∈ p.pending) :
    c < p.nextConn ∧ (p.conns c).closeCallback_ = .client := by
  rcases List.mem_append.1 hmem with hw | hw
  · obtain ⟨e, he, hwork⟩ := List.mem_map.1 hw
    have hb := h.stack e he
    rw [← Prod.mk.eta (p := e), hwork] at hb
    exact ⟨hb.made c rfl, hb.maker c rfl _ rfl⟩
  · obtain ⟨e, he, hwork⟩ := List.mem_map.1 hw
    have hb := h.queue e he
    rw [← Prod.mk.eta (p := e), hwork] at hb
    exact ⟨hb.made c rfl, hb.maker c rfl _ rfl⟩

/-- Work that changes nothing of the stages. -/
theorem Staged.same {taken : List Work} {d : Change} (h : Staged p c n)
    (ha : Alters p q c taken d) (htaken : ∀ w ∈ taken, Offstage w)
    (hadded : ∀ w ∈ d.added, Offstage w)
    (hconn : d.record.conn.state_ = (p.conns c).conn.state_)
    (hestablished : d.record.established = (p.conns c).established)
    (hdestroys : d.record.destroys = (p.conns c).destroys) : Staged q c n := by
  refine h.frame ha htaken hadded hestablished hdestroys ?_ ?_
  · rw [hconn]
  · rw [hconn]

/-- A stage makes way for the next one. -/
theorem Staged.advance {w : Work} {d : Change} {m : Nat} (h : Staged p c n)
    (ha : Alters p q c [w] d)
    (hest : establishing c w = weigh (establishing c) d.added)
    (hclosing : closing c w + n = weigh (closing c) d.added + m)
    (hdestroy : weigh (destroying c) d.added + n ≤ destroying c w + m)
    (hstate : d.record.conn.state_ = (p.conns c).conn.state_)
    (hestablished : d.record.established = (p.conns c).established)
    (hdestroys : d.record.destroys = (p.conns c).destroys) : Staged q c m := by
  have hpendingEst := ha.pending (establishing c) fun w => establishing_about
  have hpendingClose := ha.pending (closing c) fun w => closing_about
  have hpendingDestroy := ha.pending (destroying c) fun w => destroying_about
  rw [weigh_cons, weigh_nil] at hpendingEst hpendingClose hpendingDestroy
  constructor
  · have hold := h.established
    rw [ha.record, hestablished]
    omega
  · rw [ha.record, hstate, hestablished]
    exact h.connecting
  · have hold := h.disconnected
    rw [ha.record, hstate]
    omega
  · have hold := h.destroys
    rw [ha.record, hdestroys]
    omega

/-- A work item about the connection runs. -/
theorem Staged.performs {t : ThreadId} {w : Work} {rest : List (ThreadId × Work)} {d : Change}
    (h : Staged p c n) (hp : Performs { p with stack := rest } c t w d)
    (ha : Alters p q c [w] d) : Staged q c (n + removing c w) := by
  cases hp with
  | @task k eff hrelease hclose hwrite hlive heff =>
    have hnotClose : closing c (.conn c k) = 0 := by
      rw [closing_conn]
      unfold TcpConnection.closeOf
      split
      · exact absurd rfl hclose
      · rfl
    refine h.task ha rfl hnotClose rfl ?_ heff (List.append_nil _).symm rfl
    exact nofun
  | @bound k eff hlive heff =>
    have hest : establishing c (.bound c k) = establishing c (.conn c k) := by
      cases k <;> rfl
    have hdestroy : destroying c (.bound c k) = destroying c (.conn c k) := by
      cases k <;> rfl
    refine h.task ha hest rfl hdestroy ?_ heff rfl rfl
    intro w hw
    rw [List.mem_singleton.1 hw]
    exact offstage_release c
  | writeFailed =>
    refine h.same ha ?_ nofun rfl rfl rfl
    intro w hw
    rw [List.mem_singleton.1 hw]
    exact offstage_handler rfl c
  | closed hlive =>
    refine h.advance ha ?_ ?_ ?_ rfl rfl rfl
    · unfold Connection.closeTask
      split <;> rfl
    · unfold Connection.closeTask
      split <;> simp [closing, removing]
    · unfold Connection.closeTask
      split <;> simp [destroying, removing]
  | released howners | destroyed howners hstate =>
    refine h.same ha ?_ nofun rfl rfl rfl
    intro w hw
    rw [List.mem_singleton.1 hw]
    exact offstage_release c
  | setCloseCallback =>
    refine h.advance ha rfl ?_ ?_ rfl rfl rfl
    · rfl
    · simp [destroying, removing]
  | removeConnection =>
    refine h.advance ha rfl ?_ ?_ rfl rfl rfl
    · simp [closing, removing]
    · simp [destroying, removing]
  | @removeConnectionInLoop m hm =>
    have hoff : ∀ w ∈ List.replicate m (Work.conn c .release), Offstage w := by
      intro w hw
      rw [List.eq_of_mem_replicate hw]
      exact offstage_release c
    refine h.advance ha ?_ ?_ ?_ rfl rfl rfl
    · rw [weigh_append, weigh_establishing_offstage hoff]
      rfl
    · rw [weigh_append, weigh_closing_offstage hoff]
      simp [closing, removing, Nat.add_comm]
    · rw [weigh_append, weigh_destroying_offstage hoff]
      simp [destroying, removing, Nat.add_comm]
  | clientRemoves hconnection =>
    refine h.advance ha rfl ?_ ?_ rfl rfl rfl
    · simp [closing, removing, Nat.add_comm]
    · simp [destroying, removing, Nat.add_comm]

/-- A work item runs that is not about the connection. -/
theorem Staged.meanwhile {t : ThreadId} {w : Work} {rest : List (ThreadId × Work)} {d : Change}
    (h : Staged p c n) (hnext : p.Untaken c) (htake : Keyed.takeFirst t p.stack = some (w, rest))
    (hm : Meanwhile { p with stack := rest } c w d) (ha : Alters p q c [] d) :
    Staged q c n := by
  have hrelease : ∀ w ∈ [Work.conn c .release], Offstage w := by
    intro w hw
    rw [List.mem_singleton.1 hw]
    exact offstage_release c
  cases hm with
  | erased | replaced | clientDestroyed => exact h.same ha nofun hrelease rfl rfl rfl
  | destroyNext htaken => exact absurd htaken (hnext t _ (head_stackOf htake))
  | quit | nothing => exact h.same ha nofun nofun rfl rfl rfl

/-- Setting the close callback is no stage. -/
theorem offstage_setter {t : ThreadId} :
    ∀ w ∈ p.closeCallbackSetter t c ++ [.conn c .release], Offstage w := by
  intro w hw
  unfold closeCallbackSetter at hw
  rcases List.mem_append.1 hw with hw | hw
  · split_ifs at hw
    · cases hw
    · rw [List.mem_singleton.1 hw]
      exact fun _ => ⟨rfl, rfl, rfl⟩
  · rw [List.mem_singleton.1 hw]
    exact offstage_release c

/-- The handler the kernel queues is no stage. -/
theorem offstage_completion {k : ConnTask} (hk : k.isHandler = true) :
    ∀ w ∈ [Work.conn c k], Offstage w := by
  intro w hw
  rw [List.mem_singleton.1 hw]
  exact offstage_handler hk c

/-- The number of stages that are over is told by the steps that removed the connection. -/
theorem Staged.touches {e : ProcessEvent} {taken : List Work} {d : Change} (h : Staged p c n)
    (hnext : p.Untaken c) (ht : Touches p c e taken d) (ha : Alters p q c taken d) :
    Staged q c (n + weigh (removing c) taken) := by
  cases ht with
  | run htake hperforms =>
    rw [weigh_cons, weigh_nil, Nat.add_zero]
    exact h.performs hperforms ha
  | meanwhile htake hmeanwhile => exact h.meanwhile hnext htake hmeanwhile ha
  | returned hhead =>
    refine h.same ha ?_ nofun rfl rfl rfl
    intro w hw
    rw [List.mem_singleton.1 hw]
    exact fun _ => ⟨rfl, rfl, rfl⟩
  | called hreaches heff =>
    exact h.frame ha nofun (offstage_call heff c) rfl rfl
      (TcpConnection.call_connecting heff) (TcpConnection.call_closing heff).1
  | disconnected hconnection heff =>
    exact h.frame ha nofun (offstage_call heff c) rfl rfl
      (TcpConnection.call_connecting heff) (TcpConnection.call_closing heff).1
  | forced hconnection howners heff =>
    refine h.frame ha nofun ?_ rfl rfl
      (TcpConnection.call_connecting heff) (TcpConnection.call_closing heff).1
    intro w hw
    rw [List.append_assoc] at hw
    rcases List.mem_append.1 hw with hw | hw
    · exact offstage_call heff c w hw
    · exact offstage_setter w hw
  | spared hconnection howners => exact h.same ha nofun offstage_setter rfl rfl rfl
  | kept | keptConnection | consumed | nothing => exact h.same ha nofun nofun rfl rfl rfl
  | dropped | replaced =>
    refine h.same ha nofun ?_ rfl rfl rfl
    intro w hw
    rw [List.mem_singleton.1 hw]
    exact offstage_release c
  | received hr =>
    obtain ⟨region, rs, -, -, -, rfl⟩ := TcpConnection.receive_eq_some hr
    exact h.same ha nofun (offstage_completion rfl) rfl rfl rfl
  | readFailed hr =>
    obtain ⟨region, rs, -, rfl⟩ := TcpConnection.readFails_eq_some hr
    exact h.same ha nofun (offstage_completion rfl) rfl rfl rfl
  | transmitted hr =>
    obtain ⟨region, rs, -, -, -, rfl⟩ := TcpConnection.transmit_eq_some hr
    exact h.same ha nofun (offstage_completion rfl) rfl rfl rfl
  | sendFailed hr =>
    obtain ⟨region, rs, -, rfl⟩ := TcpConnection.sendFails_eq_some hr
    exact h.same ha nofun (offstage_completion rfl) rfl rfl rfl

/-- A connection that was established does not go back, and one that was closed stays so. -/
theorem Touches.state {e : ProcessEvent} {taken : List Work} {d : Change}
    (h : Touches p c e taken d) :
    (d.record.conn.state_ = .kConnecting → (p.conns c).conn.state_ = .kConnecting) ∧
      ((p.conns c).conn.state_ = .kDisconnected → d.record.conn.state_ = .kDisconnected) := by
  have hexec : ∀ {here : Option LoopId} {k : ConnTask} {eff : Effect},
      (p.conns c).conn.exec here k = .ok eff →
      (eff.conn.state_ = .kConnecting → (p.conns c).conn.state_ = .kConnecting) ∧
        ((p.conns c).conn.state_ = .kDisconnected → eff.conn.state_ = .kDisconnected) := by
    intro here k eff heff
    rcases TcpConnection.exec_state heff with ⟨-, hold, hnew⟩ | ⟨hold, hnew⟩ | ⟨-, hsame⟩
    · rw [hold, hnew]
      exact ⟨nofun, nofun⟩
    · rw [hnew]
      exact ⟨nofun, fun _ => rfl⟩
    · rw [hsame]
      exact ⟨id, id⟩
  have hcall : ∀ {here : Option LoopId} {x : ConnCall} {eff : Effect},
      (p.conns c).conn.call here x = .ok eff →
      (eff.conn.state_ = .kConnecting → (p.conns c).conn.state_ = .kConnecting) ∧
        ((p.conns c).conn.state_ = .kDisconnected → eff.conn.state_ = .kDisconnected) :=
    fun heff => ⟨(TcpConnection.call_connecting heff).1, (TcpConnection.call_closing heff).1.2⟩
  cases h with
  | run htake hperforms =>
    cases hperforms with
    | task hrelease hclose hwrite hlive heff => exact hexec heff
    | bound hlive heff => exact hexec heff
    | writeFailed | closed | released | destroyed | setCloseCallback | removeConnection
    | removeConnectionInLoop | clientRemoves => exact ⟨id, id⟩
  | meanwhile htake hmeanwhile => cases hmeanwhile <;> exact ⟨id, id⟩
  | called hreaches heff => exact hcall heff
  | disconnected hconnection heff => exact hcall heff
  | forced hconnection howners heff => exact hcall heff
  | returned | spared | kept | keptConnection | dropped | consumed | replaced | nothing =>
    exact ⟨id, id⟩
  | received hr =>
    obtain ⟨region, rs, -, -, -, rfl⟩ := TcpConnection.receive_eq_some hr
    exact ⟨id, id⟩
  | readFailed hr =>
    obtain ⟨region, rs, -, rfl⟩ := TcpConnection.readFails_eq_some hr
    exact ⟨id, id⟩
  | transmitted hr =>
    obtain ⟨region, rs, -, -, -, rfl⟩ := TcpConnection.transmit_eq_some hr
    exact ⟨id, id⟩
  | sendFailed hr =>
    obtain ⟨region, rs, -, rfl⟩ := TcpConnection.sendFails_eq_some hr
    exact ⟨id, id⟩

/-- A connection that was removed stays closed, and is removed no more. -/
theorem Staged.closed_touches {e : ProcessEvent} {taken : List Work} {d : Change}
    (h : Staged p c 1) (hnext : p.Untaken c) (ht : Touches p c e taken d)
    (ha : Alters p q c taken d) : Staged q c 1 := by
  have hnew := h.touches hnext ht ha
  have hdisconnected := hnew.disconnected
  have hzero : weigh (removing c) taken = 0 := by
    split_ifs at hdisconnected <;> omega
  rwa [hzero] at hnew

/-- A new connection is about to be established. -/
theorem Staged.born {e : ProcessEvent} {d : Change} {k m : Nat} (hm : Makes p e d k m)
    (hb : Born q p.nextConn d k m) : Staged q p.nextConn 0 := by
  have hest := hb.pending (establishing p.nextConn) fun w => establishing_about
  have hclose := hb.pending (closing p.nextConn) fun w => closing_about
  have hdestroy := hb.pending (destroying p.nextConn) fun w => destroying_about
  have hrecord := hb.record
  cases hm with
  | accepts | connects =>
    constructor
    · rw [hest, hrecord]
      simp [establishing, Connection.make]
    · rw [hrecord]
      simp [Connection.make, TcpConnection.make]
    · rw [hclose, hrecord]
      simp [closing, Connection.make, TcpConnection.make]
    · rw [hdestroy, hrecord]
      simp [destroying, Connection.make]

end Process

end LibNetToy
