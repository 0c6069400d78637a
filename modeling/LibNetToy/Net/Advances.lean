import LibNetToy.Net.Nesting
import LibNetToy.Net.ReportOrder

/-!
# Every connection of a process is a session

What a step of a process does to one connection, on the thread of its loop or on any other, a
session does as well: a member function that runs, a call from the thread of the loop or from
another one, a completion, or the owner that destroys the connection.  So what holds of every run
of a session holds of every connection in every run of a process.
-/

namespace LibNetToy

namespace Process

/-- The transcript of a connection after a step. -/
def record (p : Process) (c : ConnId) (e : ProcessEvent) (h : Transcript) : Transcript :=
  match e with
  | .call _ d x => if d = c then Part.noteCall h x else h
  | .consume _ d len =>
    if d = c then
      { h with consumed := h.consumed ++ (p.conns c).conn.inputBuffer_.content.take len }
    else h
  | .receive d data => if d = c then { h with received := h.received ++ data } else h
  | .transmit d k stale =>
    if d = c then
      match (p.conns c).conn.transmit k stale with
      | some r => { h with wire := h.wire ++ r.2.1 }
      | none => h
    else h
  | _ => h

/-- What the step has the connection do when its part is `v`. -/
def Causes (p : Process) (c : ConnId) (e : ProcessEvent) (h : Transcript) (v : Part) :
    SessionEvent → Prop
  | .run => v = p.part c h ∧ ∃ t peer w k, e = .run t peer ∧ (p.stackOf t).head? = some w ∧
    w.tasks c = [k] ∧ v.stack.head? = some k
  | .call x => v = p.part c h ∧ ∀ message, x = .send message → ∃ t, e = .call t c x
  | .callFrom x => v = p.part c h ∧ ∀ message, x = .send message → ∃ t, e = .call t c x
  | .sendFails er => e = .sendFails c er
  | _ => True

/-- The work of the loop of a connection is layered, and a connection that is not established is
reached by nobody. -/
structure Shown (p : Process) (c : ConnId) : Prop where
  stacked : Stacked (p.conns c).conn c (p.stackOf (p.conns c).conn.loop_)
  starting : (p.part c .empty).Starting
  aloof : (p.conns c).conn.state_ = .kConnecting → (p.part c .empty).stack = [] →
    (p.conns c).refs = 0 ∧ (p.conns c).closeCallback_ = .server ∧
      p.server.loop_ ≠ (p.conns c).conn.loop_

/-- The part of a connection moves on in a step, and the work of its loop stays layered. -/
structure Advances (p : Process) (c : ConnId) (e : ProcessEvent) (q : Process) : Prop where
  stacked : Stacked (q.conns c).conn c (q.stackOf (p.conns c).conn.loop_)
  moves : ∀ h, Part.Moves (p.Causes c e h) (p.part c h)
    (partOf (q.conns c).conn c (q.stackOf (p.conns c).conn.loop_)
      (q.queueOf (p.conns c).conn.loop_) (p.record c e h))

variable {p q : Process} {c : ConnId} {t : ThreadId} {e : ProcessEvent}

/-! ## What is pushed -/

/-- The stacks after something was scheduled. -/
theorem stackOf_schedule (l : LoopId) {calls : List Work}
    (hstack : q.stack = calls.map (fun w => (t, w)) ++ p.stack) :
    q.stackOf l = (if t = l then calls else []) ++ p.stackOf l := by
  rw [stackOf, hstack, Keyed.ofKey_append]
  split_ifs with ht
  · rw [ht, Keyed.ofKey_map_self]
    rfl
  · rw [Keyed.ofKey_map_of_ne ht]
    rfl

/-- The queues after something was scheduled. -/
theorem queueOf_schedule (l : LoopId) {posts : List (LoopId × Work)}
    (hqueue : q.queue = p.queue ++ posts) :
    q.queueOf l = p.queueOf l ++ Keyed.ofKey l posts := by
  rw [queueOf, hqueue, Keyed.ofKey_append]
  rfl

/-- What is pushed and does not occupy a connection leaves its part. -/
theorem Pushes.views {called : Work → Bool} (hpushes : Pushes called t p q) (l : LoopId)
    (hsame : weigh (occupying c) q.pending = weigh (occupying c) p.pending) :
    ∃ calls, q.stackOf l = calls ++ p.stackOf l ∧ (∀ w ∈ calls, called w = true) ∧
      (∀ conn, tasksOf conn c calls = []) ∧
      (q.queueOf l).flatMap (Work.functors c) = (p.queueOf l).flatMap (Work.functors c) := by
  obtain ⟨⟨calls, hstack, hcalls⟩, posts, hqueue, hposts⟩ := hpushes
  have hpending : weigh (occupying c) q.pending = weigh (occupying c) p.pending +
      weigh (occupying c) calls + weigh (occupying c) (posts.map Prod.snd) := by
    rw [← weigh_schedule (occupying c) p t calls posts]
    unfold pending Process.schedule
    rw [hstack, hqueue]
  have hcallsZero : weigh (occupying c) calls = 0 := by omega
  have hpostsZero : weigh (occupying c) (posts.map Prod.snd) = 0 := by omega
  refine ⟨if t = l then calls else [], stackOf_schedule l hstack, ?_, ?_, ?_⟩
  · intro w hw
    split_ifs at hw
    · exact hcalls w hw
    · cases hw
  · intro conn
    split_ifs
    · exact tasksOf_of_not_occupying hcallsZero
    · rfl
  · rw [queueOf_schedule l hqueue, List.flatMap_append]
    refine (List.append_right_eq_self).2 ?_
    apply List.flatMap_eq_nil_iff.2
    intro w hw
    have he : (l, w) ∈ posts := Keyed.mem_ofKey.1 hw
    exact functors_of_not_occupying
      (weigh_eq_zero.1 hpostsZero w (List.mem_map.2 ⟨_, he, rfl⟩)) (hposts _ he)

/-- A member function of a connection makes calls about it. -/
theorem Pushes.own_execConn {d : ConnId} {k : ConnTask} {after : List Work} {own : Work → Bool}
    (hconn : ∀ j, own (.conn d j) = true) (hafter : ∀ w ∈ after, own w = true)
    (h : p.execConn t d k after = .ok q) :
    ∃ calls : List Work, q.stack = calls.map (fun w => (t, w)) ++ p.stack ∧
      ∀ w ∈ calls, own w = true := by
  obtain ⟨-, eff, -, rfl⟩ := execConn_eq_ok.1 h
  refine ⟨_, rfl, ?_⟩
  intro w hw
  rcases List.mem_append.1 hw with hw | hw
  · obtain ⟨j, -, rfl⟩ := List.mem_map.1 hw
    exact hconn j
  · exact hafter w hw

/-- A work item of the connection, or passive work, calls nothing else. -/
theorem Pushes.own {peer : List Char} {w : Work} (h : p.exec t peer w = .ok q)
    (hw : w.isOwn c = true) : Pushes (Work.isOwn c) t p q := by
  refine ⟨?_, (Pushes.exec h).queue⟩
  have hreleases : ∀ cs : List ConnId, ∀ w ∈ Process.releases cs, Work.isOwn c w = true := by
    intro cs w hw
    obtain ⟨d, -, rfl⟩ := mem_releases hw
    exact isOwn_of_isPassive rfl
  have hcallIf : ∀ (u l : LoopId) (v : Work), v.connId = some c →
      ∀ w ∈ Process.callIf u l v, Work.isOwn c w = true := by
    intro u l v hv w hw
    rw [mem_callIf hw]
    exact isOwn_of_connId hv
  cases w with
  | conn d k =>
    rcases exec_conn_eq_ok.1 h with ⟨-, h⟩ | ⟨rfl, -, rfl⟩ | ⟨-, rfl⟩ | ⟨hk, -, -, h⟩
    · rcases release_eq_ok.1 h with ⟨-, -, rfl⟩ | ⟨-, rfl⟩ <;> exact ⟨[], rfl, nofun⟩
    · have hd : d = c := by simpa [Work.isOwn, Work.connId, Work.isPassive] using hw
      refine ⟨_, rfl, ?_⟩
      intro w hw
      rw [List.mem_singleton.1 hw]
      unfold Connection.closeTask
      split <;> exact isOwn_of_connId (congrArg some hd)
    · exact ⟨[], rfl, nofun⟩
    · have hd : d = c := by
        cases k with
        | release => exact absurd rfl hk
        | _ => simpa [Work.isOwn, Work.connId, Work.isPassive] using hw
      exact own_execConn (fun j => isOwn_of_connId (congrArg some hd)) (List.forall_mem_nil _) h
  | bound d k =>
    have hd : d = c := by simpa [Work.isOwn, Work.connId, Work.isPassive] using hw
    refine own_execConn (fun j => isOwn_of_connId (congrArg some hd)) ?_ h
    intro w hw
    rw [List.mem_singleton.1 hw]
    exact isOwn_of_isPassive rfl
  | setCloseCallback d =>
    obtain rfl := pure_eq_ok.1 h
    refine ⟨_, rfl, ?_⟩
    intro w hw
    rw [List.mem_singleton.1 hw]
    exact isOwn_of_isPassive rfl
  | server k =>
    obtain ⟨-, h⟩ := TcpServer.exec_eq_ok.1 h
    cases k with
    | removeConnection d =>
      obtain rfl := h
      have hd : d = c := by simpa [Work.isOwn, Work.connId, Work.isPassive] using hw
      exact ⟨_, rfl, hcallIf _ _ (.server (.removeConnectionInLoop d)) (congrArg some hd)⟩
    | removeConnectionInLoop d =>
      obtain ⟨-, -, rfl⟩ := TcpServer.removeConnectionInLoop_eq_ok.1 h
      have hd : d = c := by simpa [Work.isOwn, Work.connId, Work.isPassive] using hw
      refine ⟨_, rfl, ?_⟩
      intro w hw
      rcases List.mem_append.1 hw with hw | hw
      · rcases List.mem_append.1 hw with hw | hw
        · exact hreleases _ w hw
        · exact hcallIf _ _ (.bound d .connectDestroyed) (congrArg some hd) w hw
      · rw [List.mem_singleton.1 hw]
        exact isOwn_of_isPassive rfl
    | destroyNext => cases hw
    | quit =>
      obtain rfl := h
      refine ⟨_, rfl, ?_⟩
      intro w hw
      rcases List.mem_append.1 hw with hw | hw
      · obtain ⟨l, -, hw⟩ := List.mem_flatMap.1 hw
        simp only [List.mem_cons, List.not_mem_nil, or_false] at hw
        rcases hw with rfl | rfl <;> exact isOwn_of_isPassive rfl
      · rw [List.mem_singleton.1 hw]
        exact isOwn_of_isPassive rfl
    | quitLoop l | joinLoop l | destroyed =>
      obtain rfl := h
      exact ⟨[], rfl, nofun⟩
  | client k =>
    obtain ⟨-, h⟩ := exec_client_eq_ok.1 h
    cases k with
    | newConnection socket => cases hw
    | removeConnection d =>
      obtain ⟨-, -, -, rfl⟩ := TcpClient.removeConnection_eq_ok.1 h
      refine ⟨_, rfl, ?_⟩
      intro w hw
      rcases List.mem_cons.1 hw with rfl | hw
      · exact isOwn_of_isPassive rfl
      · split_ifs at hw
        · rw [List.mem_singleton.1 hw]
          exact isOwn_of_isPassive rfl
        · cases hw
    | destroyed =>
      obtain rfl := h
      exact ⟨_, rfl, hreleases _⟩
  | connector k =>
    have hretry : ∀ {p : Process}, Connector.retry p none = .ok q → q.stack = p.stack := by
      intro p h
      rcases Connector.retry_eq_ok.1 h with ⟨-, rfl⟩ | ⟨j, -, -, -, ⟨-, rfl⟩ | ⟨-, rfl⟩⟩ <;> rfl
    have hexec : Connector.exec p t k = .ok q := h
    have hsame : q.stack = p.stack := by
      obtain ⟨-, h⟩ := Connector.exec_eq_ok.1 hexec
      cases k with
      | startInLoop =>
        rcases Connector.startInLoop_eq_ok.1 h with ⟨-, ⟨-, -, rfl⟩ | ⟨-, rfl⟩⟩ <;> rfl
      | stopInLoop =>
        rcases Connector.stopInLoop_eq_ok.1 h with ⟨-, ⟨-, h⟩ | ⟨-, rfl⟩⟩
        · have hstack := hretry h
          exact hstack
        · rfl
      | restart =>
        obtain ⟨-, rfl⟩ := Connector.restart_eq_ok.1 h
        rfl
      | handleConnect socket error => cases hw
    exact ⟨[], hsame, nofun⟩
  | handleTimer timer error => cases hw
  | eraseTimer timer =>
    obtain rfl := pure_eq_ok.1 h
    exact ⟨[], rfl, nofun⟩

/-! ## Steps that leave the part -/

/-- Where code of the user can run. -/
theorem ready_cases (hready : p.userRuns t = true ∨ p.stackOf t = []) :
    p.stackOf t = [] ∨ ∃ b k rest, p.stackOf t = .conn b (.inCallback k) :: rest := by
  rcases hready with huser | hempty
  · unfold userRuns at huser
    split at huser
    · rename_i hstack
      exact Or.inl hstack
    · rename_i b k rest hstack
      exact Or.inr ⟨b, k, rest, hstack⟩
    · cases huser
  · exact Or.inl hempty

namespace Advances

/-- Nothing happens on the thread of the loop. -/
theorem elsewhere (h : Stacked (p.conns c).conn c (p.stackOf (p.conns c).conn.loop_))
    (hconn : (q.conns c).conn = (p.conns c).conn) (hrecord : ∀ h, p.record c e h = h)
    (hstack : q.stackOf (p.conns c).conn.loop_ = p.stackOf (p.conns c).conn.loop_)
    (hqueue : (q.queueOf (p.conns c).conn.loop_).flatMap (Work.functors c) =
      (p.queueOf (p.conns c).conn.loop_).flatMap (Work.functors c)) : Advances p c e q := by
  constructor
  · rw [hconn, hstack]
    exact h
  · intro h
    rw [hrecord, hconn, hstack]
    have hsame : partOf (p.conns c).conn c (p.stackOf (p.conns c).conn.loop_)
        (q.queueOf (p.conns c).conn.loop_) h = p.part c h := by
      unfold part partOf
      rw [hqueue]
    rw [hsame]
    exact .refl

/-- `connectDestroyed` is posted to the loop. -/
theorem posted (h : Stacked (p.conns c).conn c (p.stackOf (p.conns c).conn.loop_))
    (hconn : (q.conns c).conn = (p.conns c).conn) (hrecord : ∀ h, p.record c e h = h)
    (hstack : q.stackOf (p.conns c).conn.loop_ = p.stackOf (p.conns c).conn.loop_)
    (hqueue : (q.queueOf (p.conns c).conn.loop_).flatMap (Work.functors c) =
      (p.queueOf (p.conns c).conn.loop_).flatMap (Work.functors c) ++
        [.bound .connectDestroyed]) : Advances p c e q := by
  constructor
  · rw [hconn, hstack]
    exact h
  · intro h
    rw [hrecord, hconn, hstack]
    have hpart : partOf (p.conns c).conn c (p.stackOf (p.conns c).conn.loop_)
        (q.queueOf (p.conns c).conn.loop_) h =
        { p.part c h with queue := (p.part c h).queue ++ [.bound .connectDestroyed] } := by
      unfold part partOf
      rw [hqueue]
    rw [hpart]
    exact .step (l := .destroy false) .refl trivial .destroyLater

/-- The thread of the loop does something that leaves the part; `below` is the stack that is
left. -/
theorem beside {calls below : List Work} (h : Layered (p.conns c).conn c below)
    (hsingle : .connectDestroyed ∉ tasksOf (p.conns c).conn c below)
    (hconn : (q.conns c).conn = (p.conns c).conn) (hrecord : ∀ h, p.record c e h = h)
    (hold : tasksOf (p.conns c).conn c (p.stackOf (p.conns c).conn.loop_) =
      tasksOf (p.conns c).conn c below)
    (hstack : q.stackOf (p.conns c).conn.loop_ = calls ++ below)
    (hcalls : tasksOf (p.conns c).conn c calls = [])
    (hqueue : (q.queueOf (p.conns c).conn.loop_).flatMap (Work.functors c) =
      (p.queueOf (p.conns c).conn.loop_).flatMap (Work.functors c))
    (hown : (∀ w ∈ calls, w.isOwn c = true) ∨ Part.Calm (tasksOf (p.conns c).conn c below)) :
    Advances p c e q := by
  have htail : ∀ k, k ∉ tasksOf (p.conns c).conn c calls.tail := by
    intro k hk
    have hmem := mem_of_mem_tail hk
    rw [hcalls] at hmem
    cases hmem
  constructor
  · rw [hconn, hstack]
    refine Stacked.push h hsingle id (htail _) ?_
    rcases hown with hown | hcalm
    · exact Or.inl hown
    · exact Or.inr ⟨List.eq_nil_iff_forall_not_mem.2 htail, hcalm⟩
  · intro h
    rw [hrecord, hconn, hstack]
    have hsame : partOf (p.conns c).conn c (calls ++ below)
        (q.queueOf (p.conns c).conn.loop_) h = p.part c h := by
      unfold part partOf
      rw [hqueue, tasksOf_append, hcalls, hold]
      rfl
    rw [hsame]
    exact .refl

/-- A thread takes a work item and does something that leaves the part. -/
theorem pop_beside {w : Work} {rest : List (ThreadId × Work)} {called : Work → Bool}
    (h : Stacked (p.conns c).conn c (p.stackOf (p.conns c).conn.loop_))
    (htake : Keyed.takeFirst t p.stack = some (w, rest))
    (hpushes : Pushes called t { p with stack := rest } q)
    (hown : (∀ v, called v = true → v.isOwn c = true) ∨ w.isOwn c = false)
    (htasks : t = (p.conns c).conn.loop_ → (w.tasks c).filter (p.conns c).conn.heeds = [])
    (hsame : weigh (occupying c) q.pending =
      weigh (occupying c) ({ p with stack := rest } : Process).pending)
    (hconn : (q.conns c).conn = (p.conns c).conn) (hrecord : ∀ h, p.record c e h = h) :
    Advances p c e q := by
  obtain ⟨calls, hstack, hcalled, hnone, hqueue⟩ := hpushes.views (p.conns c).conn.loop_ hsame
  by_cases ht : t = (p.conns c).conn.loop_
  · have hself : p.stackOf t = w :: ({ p with stack := rest } : Process).stackOf t :=
      Keyed.ofKey_takeFirst htake
    rw [← ht] at h hstack
    rw [hself] at h
    obtain ⟨hsingle, hstacked⟩ := h.pop
    refine beside hstacked.layered hsingle hconn hrecord ?_ (ht ▸ hstack) (hnone _) hqueue ?_
    · rw [← ht, hself, tasksOf_cons, htasks ht]
      rfl
    · rcases hown with hown | hother
      · exact Or.inl fun v hv => hown v (hcalled v hv)
      · exact Or.inr (h.layered.1 hother)
  · refine elsewhere h hconn hrecord ?_ hqueue
    have hother : q.stackOf (p.conns c).conn.loop_ =
        ({ p with stack := rest } : Process).stackOf (p.conns c).conn.loop_ :=
      hpushes.stackOf_other (Ne.symm ht)
    have hrest : p.stackOf (p.conns c).conn.loop_ =
        ({ p with stack := rest } : Process).stackOf (p.conns c).conn.loop_ :=
      Keyed.ofKey_takeFirst_of_ne htake ht
    rw [hother, hrest]

/-- Code of the user makes calls that leave the part. -/
theorem call_beside {called : Work → Bool}
    (h : Stacked (p.conns c).conn c (p.stackOf (p.conns c).conn.loop_))
    (hready : p.userRuns t = true ∨ p.stackOf t = []) (hpushes : Pushes called t p q)
    (hsame : weigh (occupying c) q.pending = weigh (occupying c) p.pending)
    (hconn : (q.conns c).conn = (p.conns c).conn) (hrecord : ∀ h, p.record c e h = h) :
    Advances p c e q := by
  obtain ⟨calls, hstack, -, hnone, hqueue⟩ := hpushes.views (p.conns c).conn.loop_ hsame
  by_cases ht : t = (p.conns c).conn.loop_
  · rw [← ht] at h
    obtain ⟨hcalm, hsingle⟩ := h.calm (ready_cases hready)
    refine beside h.layered hsingle hconn hrecord ?_ (ht ▸ hstack) (hnone _) hqueue (Or.inr hcalm)
    rw [← ht]
  · exact elsewhere h hconn hrecord (hpushes.stackOf_other (Ne.symm ht)) hqueue

/-- The thread of the loop runs a task of the connection; `below` is the stack that is left. -/
theorem task {peer : List Char} {w : Work} {k : ConnTask} {eff : Effect}
    {calls below : List Work}
    (h : Stacked (p.conns c).conn c (p.stackOf (p.conns c).conn.loop_))
    (ht : t = (p.conns c).conn.loop_) (hself : p.stackOf t = w :: below) (hw : w.tasks c = [k])
    (hk : ∀ b, k ≠ .inCallback b) (heff : (p.conns c).conn.exec (some t) k = .ok eff)
    (hconn : (q.conns c).conn = eff.conn) (hstack : q.stackOf t = calls ++ below)
    (hqueue : q.queueOf t = p.queueOf t)
    (hcalls : tasksOf eff.conn c calls = eff.calls.filter eff.conn.heeds)
    (hown : ∀ w ∈ calls, w.isOwn c = true) : Advances p c (.run t peer) q := by
  have hclosed : (p.conns c).conn.state_ = .kDisconnected →
      eff.conn.state_ = .kDisconnected := by
    intro hstate
    rcases TcpConnection.exec_state heff with ⟨-, hold, -⟩ | ⟨-, hnew⟩ | ⟨-, hsame⟩
    · rw [hstate] at hold
      cases hold
    · exact hnew
    · exact hsame.trans hstate
  have hfollow : .connectDestroyed ∉ tasksOf eff.conn c calls := by
    rw [hcalls]
    intro hmem
    cases (TcpConnection.exec_followUp heff).2 _ (List.mem_of_mem_filter hmem)
  rw [← ht, hself] at h
  obtain ⟨hsingle, hstacked⟩ := h.pop
  have hbelow := tasksOf_congr hclosed hsingle
  constructor
  · rw [hconn, ← ht, hstack]
    exact Stacked.push hstacked.layered hsingle hclosed
      (fun hmem => hfollow (mem_of_mem_tail hmem)) (Or.inl hown)
  · intro h
    rw [hconn, ← ht, hstack, hqueue]
    have hnew : partOf eff.conn c (calls ++ below) (p.queueOf t) h = { p.part c h with
        conn := eff.conn
        stack := eff.calls.filter eff.conn.heeds ++ tasksOf (p.conns c).conn c below } := by
      unfold part partOf
      rw [tasksOf_append, hcalls, hbelow, ← ht]
    show Part.Moves _ _ (partOf eff.conn c _ _ h)
    rw [hnew]
    cases hheeds : (p.conns c).conn.heeds k with
    | true =>
      have hold : (p.part c h).stack = k :: tasksOf (p.conns c).conn c below := by
        show tasksOf _ c (p.stackOf _) = _
        rw [← ht, hself, tasksOf_cons, hw, List.filter_cons_of_pos hheeds]
        rfl
      refine .step (l := .run) .refl ⟨rfl, t, peer, w, k, rfl, by rw [hself]; rfl, hw, ?_⟩
        (.run hold hk hsingle (ht ▸ heff))
      rw [hold]
      rfl
    | false =>
      -- The task is not heeded, and does nothing.
      have hnothing := TcpConnection.exec_of_not_heeds hheeds
      rw [← ht, heff] at hnothing
      obtain rfl := Except.ok.inj hnothing
      have hsame : { p.part c h with stack := tasksOf (p.conns c).conn c below } =
          p.part c h := by
        unfold part partOf
        rw [← ht, hself, tasksOf_cons, hw, List.filter_cons_of_neg (by simp [hheeds])]
        rfl
      show Part.Moves _ _ { p.part c h with stack := tasksOf (p.conns c).conn c below }
      rw [hsame]
      exact .refl

/-- The thread of the loop goes on after a callback of the connection, and may leave it to the
loop to destroy it. -/
theorem leave {w : Work} {b : Callback} {calls below : List Work} {fs : List Functor}
    (h : Stacked (p.conns c).conn c (p.stackOf (p.conns c).conn.loop_))
    (ht : t = (p.conns c).conn.loop_) (hself : p.stackOf t = w :: below)
    (hw : w.tasks c = [.inCallback b]) (hconn : (q.conns c).conn = (p.conns c).conn)
    (hrecord : ∀ h, p.record c e h = h) (hstack : q.stackOf t = calls ++ below)
    (hcalls : tasksOf (p.conns c).conn c calls = []) (hown : ∀ w ∈ calls, w.isOwn c = true)
    (hqueue : (q.queueOf t).flatMap (Work.functors c) =
      (p.queueOf t).flatMap (Work.functors c) ++ fs)
    (hfs : fs = [] ∨ fs = [.bound .connectDestroyed]) : Advances p c e q := by
  rw [← ht, hself] at h
  obtain ⟨hsingle, hstacked⟩ := h.pop
  constructor
  · rw [hconn, ← ht, hstack]
    refine Stacked.push hstacked.layered hsingle id ?_ (Or.inl hown)
    intro hmem
    have hin := mem_of_mem_tail hmem
    rw [hcalls] at hin
    cases hin
  · intro h
    rw [hrecord, hconn, ← ht, hstack]
    have hold : (p.part c h).stack = .inCallback b :: tasksOf (p.conns c).conn c below := by
      show tasksOf _ c (p.stackOf _) = _
      rw [← ht, hself, tasksOf_cons, hw]
      rfl
    have hreturn := Part.Moves.step (P := p.Causes c e h) (l := .return_) .refl trivial
      (.return_ hold)
    have hnew : partOf (p.conns c).conn c (calls ++ below) (q.queueOf t) h = { p.part c h with
        stack := tasksOf (p.conns c).conn c below
        queue := (p.part c h).queue ++ fs } := by
      unfold part partOf
      rw [hqueue, tasksOf_append, hcalls, ← ht]
      rfl
    rw [hnew]
    rcases hfs with rfl | rfl
    · rw [List.append_nil]
      exact hreturn
    · exact .step (l := .destroy false) hreturn trivial .destroyLater

end Advances

/-! ## Steps of the threads -/

/-- What a step adds when it leaves the pending work of a connection. -/
theorem Alters.occupying_eq {d : Change} (h : Alters p q c [] d)
    (hadded : weigh (occupying c) d.added = 0) :
    weigh (occupying c) q.pending = weigh (occupying c) p.pending := by
  have hpending := h.pending (occupying c) fun w => occupying_about
  rw [weigh_nil, hadded] at hpending
  exact hpending

theorem occupying_release (d : ConnId) : occupying c (.conn d .release) = 0 := by
  simp [occupying]

theorem tasksOf_releases (conn : TcpConnection) (cs : List ConnId) :
    tasksOf conn c (releases cs) = [] := by
  apply tasksOf_of_not_occupying
  apply weigh_eq_zero.2
  intro w hw
  obtain ⟨d, -, rfl⟩ := mem_releases hw
  exact occupying_release d

/-- A work item that is about the connection, and leaves its part. -/
theorem Advances.run_own {peer : List Char} {w : Work} {rest : List (ThreadId × Work)}
    (h : Stacked (p.conns c).conn c (p.stackOf (p.conns c).conn.loop_))
    (htake : Keyed.takeFirst t p.stack = some (w, rest))
    (hexec : ({ p with stack := rest } : Process).exec t peer w = .ok q)
    (hown : w.isOwn c = true)
    (htasks : t = (p.conns c).conn.loop_ → (w.tasks c).filter (p.conns c).conn.heeds = [])
    (hsame : weigh (occupying c) q.pending =
      weigh (occupying c) ({ p with stack := rest } : Process).pending)
    (hconn : (q.conns c).conn = (p.conns c).conn) : Advances p c (.run t peer) q :=
  .pop_beside h htake (Pushes.own hexec hown) (Or.inl fun _ => id) htasks hsame hconn fun _ => rfl

/-- A member function of the connection runs. -/
theorem Advances.execConn {peer : List Char} {w : Work} {rest : List (ThreadId × Work)}
    {k : ConnTask} {after : List Work} (hplaced : Placed p)
    (h : Stacked (p.conns c).conn c (p.stackOf (p.conns c).conn.loop_))
    (htake : Keyed.takeFirst t p.stack = some (w, rest))
    (hplace : p.place w = some (p.conns c).conn.loop_) (hw : w.tasks c = [k])
    (hk : ∀ b, k ≠ .inCallback b) (hafter : ∀ v ∈ after, v = .conn c .release)
    (hexec : ({ p with stack := rest } : Process).execConn t c k after = .ok q) :
    Advances p c (.run t peer) q := by
  have hhead := head_stackOf htake
  have hself : p.stackOf t = w :: ({ p with stack := rest } : Process).stackOf t :=
    Keyed.ofKey_takeFirst htake
  obtain ⟨-, eff, heff, rfl⟩ := execConn_eq_ok.1 hexec
  have hposts := (TcpConnection.exec_followUp heff).1
  have hafterNone : tasksOf eff.conn c after = [] := by
    apply tasksOf_of_not_occupying
    apply weigh_eq_zero.2
    intro v hv
    rw [hafter v hv]
    exact occupying_release c
  let r : Process := (({ p with stack := rest } : Process).update c fun r =>
    r.note k).applyEffect t c eff after
  have hstack : r.stackOf t = eff.calls.map (Work.conn c) ++ after ++
      ({ p with stack := rest } : Process).stackOf t := by
    have hpushed : r.stack = (eff.calls.map (Work.conn c) ++ after).map (fun w => (t, w)) ++
      rest := rfl
    have hall := stackOf_schedule (p := { p with stack := rest }) t hpushed
    rwa [if_pos rfl] at hall
  have hqueue : r.queueOf t = p.queueOf t := by
    have hall := queueOf_schedule (p := p) (q := r) t rfl
    rw [hposts] at hall
    exact hall.trans (List.append_nil _)
  refine .task h (hplaced.here hhead hplace) hself hw hk heff applyEffect_conn hstack hqueue ?_ ?_
  · rw [tasksOf_append, tasksOf_map_conn, hafterNone, List.append_nil]
  · intro v hv
    rcases List.mem_append.1 hv with hv | hv
    · obtain ⟨j, -, rfl⟩ := List.mem_map.1 hv
      exact isOwn_of_connId rfl
    · rw [hafter v hv]
      exact isOwn_of_connId rfl

/-- The close callback takes the place of the call of it. -/
theorem tasks_closeTask (conn : TcpConnection) (c : ConnId) (r : Connection) :
    tasksOf conn c [r.closeTask c] = [.inCallback .close] := by
  rw [tasksOf_cons, tasksOf_nil, List.append_nil]
  unfold Connection.closeTask
  split <;> simp [Work.tasks, TcpConnection.heeds]

theorem isOwn_closeTask (c : ConnId) (r : Connection) : (r.closeTask c).isOwn c = true := by
  unfold Connection.closeTask
  split <;> exact isOwn_of_connId rfl

/-- The server removes a connection on the thread of the base loop. -/
theorem Advances.removedInLoop {peer : List Char} {rest : List (ThreadId × Work)}
    (hann : Announces p) (hc : c < p.nextConn)
    (h : Stacked (p.conns c).conn c (p.stackOf (p.conns c).conn.loop_))
    (htake : Keyed.takeFirst t p.stack = some (.server (.removeConnectionInLoop c), rest))
    (hexec : TcpServer.removeConnectionInLoop { p with stack := rest } t c = .ok q) :
    Advances p c (.run t peer) q := by
  have hself : p.stackOf t = .server (.removeConnectionInLoop c) ::
      ({ p with stack := rest } : Process).stackOf t := Keyed.ofKey_takeFirst htake
  obtain ⟨-, -, rfl⟩ := TcpServer.removeConnectionInLoop_eq_ok.1 hexec
  let erased := (AssocMap.lookup (p.conns c).conn.name_ p.server.connections_).join.toList
  let calls : List Work := releases erased ++
    callIf t (p.conns c).conn.loop_ (.bound c .connectDestroyed) ++ [.conn c .release]
  let r : Process := (({ p with
    stack := rest
    server := { p.server with
      connections_ := AssocMap.erase (p.conns c).conn.name_ p.server.connections_ } } :
    Process).update c fun r => { r with removed := r.removed + 1 }).schedule t calls
      (postIf t (p.conns c).conn.loop_ (.bound c .connectDestroyed))
  have hrecord : r.conns c = { p.conns c with removed := (p.conns c).removed + 1 } :=
    Function.update_self ..
  have hconn : (r.conns c).conn = (p.conns c).conn := by rw [hrecord]
  have hstack : ∀ l, r.stackOf l = (if t = l then calls else []) ++
      ({ p with stack := rest } : Process).stackOf l := fun l => stackOf_schedule l rfl
  have hqueue : ∀ l, r.queueOf l = p.queueOf l ++
      Keyed.ofKey l (postIf t (p.conns c).conn.loop_ (.bound c .connectDestroyed)) := fun l =>
    queueOf_schedule l rfl
  show Advances p c (.run t peer) r
  by_cases ht : t = (p.conns c).conn.loop_
  · -- `connectDestroyed` is called, but the connection is closed.
    have hclosed : (p.conns c).conn.state_ = .kDisconnected := by
      have hclosing := (hann.reported c hc).closed
      have hmem := le_weigh (f := closing c) (mem_pending_of_head (head_stackOf htake))
      have hone : closing c (.server (.removeConnectionInLoop c)) = 1 := if_pos rfl
      by_contra hopen
      rw [if_neg hopen] at hclosing
      omega
    have hcalls : tasksOf (p.conns c).conn c calls = [] := by
      apply List.filter_eq_nil_iff.2
      intro k hk
      obtain ⟨w, hw, hk⟩ := List.mem_flatMap.1 hk
      rcases List.mem_append.1 hw with hw | hw
      · rcases List.mem_append.1 hw with hw | hw
        · obtain ⟨d, -, rfl⟩ := mem_releases hw
          by_cases hd : d = c <;> simp [Work.tasks, hd] at hk
          simp [TcpConnection.heeds, hk]
        · rw [mem_callIf hw] at hk
          simp [Work.tasks] at hk
          simp [TcpConnection.heeds, hk, hclosed]
      · rw [List.mem_singleton.1 hw] at hk
        simp [Work.tasks] at hk
        simp [TcpConnection.heeds, hk]
    have hown : ∀ w ∈ calls, w.isOwn c = true := by
      intro w hw
      rcases List.mem_append.1 hw with hw | hw
      · rcases List.mem_append.1 hw with hw | hw
        · obtain ⟨d, -, rfl⟩ := mem_releases hw
          exact isOwn_of_isPassive rfl
        · rw [mem_callIf hw]
          exact isOwn_of_connId rfl
      · rw [List.mem_singleton.1 hw]
        exact isOwn_of_connId rfl
    have hpushed := hstack (p.conns c).conn.loop_
    rw [if_pos ht] at hpushed
    rw [ht] at hself
    rw [hself] at h
    obtain ⟨hsingle, hstacked⟩ := h.pop
    refine .beside hstacked.layered hsingle hconn (fun _ => rfl) ?_ hpushed hcalls ?_ (Or.inl hown)
    · rw [hself, tasksOf_cons]
      rfl
    · rw [hqueue, postIf, if_pos ht]
      exact congrArg _ (List.append_nil _)
  · have hpushed := hstack (p.conns c).conn.loop_
    rw [if_neg ht] at hpushed
    refine .posted h hconn (fun _ => rfl) ?_ ?_
    · exact hpushed.trans (Keyed.ofKey_takeFirst_of_ne htake ht).symm
    · rw [hqueue, List.flatMap_append, postIf, if_neg ht, Keyed.ofKey_cons_self]
      simp [Work.functors, Keyed.ofKey]

/-- A work item about the connection runs. -/
theorem Advances.performs {peer : List Char} {w : Work} {rest : List (ThreadId × Work)}
    {d : Change} (hann : Announces p) (hc : c < p.nextConn)
    (h : Stacked (p.conns c).conn c (p.stackOf (p.conns c).conn.loop_))
    (htake : Keyed.takeFirst t p.stack = some (w, rest)) (hready : p.ready w = true)
    (hexec : ({ p with stack := rest } : Process).exec t peer w = .ok q)
    (hp : Performs { p with stack := rest } c t w d)
    (ha : Alters { p with stack := rest } q c [] d) : Advances p c (.run t peer) q := by
  have hhead := head_stackOf htake
  have hmem := mem_pending_of_head hhead
  have hself : p.stackOf t = w :: ({ p with stack := rest } : Process).stackOf t :=
    Keyed.ofKey_takeFirst htake
  cases hp with
  | @task k eff hrelease hclose hwrite hlive heff =>
    rcases exec_conn_eq_ok.1 hexec with ⟨rfl, -⟩ | ⟨rfl, -⟩ | ⟨⟨e, n, rfl⟩, -⟩ | ⟨-, -, -, hexec⟩
    · exact absurd rfl hrelease
    · exact absurd rfl hclose
    · exact absurd rfl (hwrite e n)
    · refine .execConn hann.placed h htake ?_ (by simp [Work.tasks]) ?_ (List.forall_mem_nil _)
        hexec
      · cases k <;> first | rfl | exact absurd rfl hrelease
      · rintro b rfl
        cases hready
  | @bound k eff hlive heff =>
    have hk : k.isBound = true := by
      have hzero := weigh_eq_zero.1 (hann.reported c hc).bound _ hmem
      by_contra hk
      simp [stray, hk] at hzero
    refine .execConn hann.placed h htake rfl (by simp [Work.tasks]) ?_
      (fun v hv => List.mem_singleton.1 hv) hexec
    rintro b rfl
    cases hk
  | @writeFailed e n =>
    obtain rfl := pure_eq_ok.1 hexec
    have heff : (p.conns c).conn.exec (some t) (.writeHandler (some e) n) =
        .ok ⟨(p.conns c).conn, [], []⟩ := rfl
    have hwrite : ∀ b, ConnTask.writeHandler (some e) n ≠ .inCallback b := by rintro b ⟨⟩
    have hcalls : tasksOf (p.conns c).conn c [] = [] := rfl
    exact .task h (hann.placed.here hhead rfl) hself (by simp [Work.tasks]) hwrite heff rfl
      (List.nil_append _).symm rfl hcalls (List.forall_mem_nil _)
  | closed hlive =>
    rcases exec_conn_eq_ok.1 hexec with ⟨hno, -⟩ | ⟨-, -, rfl⟩ | ⟨⟨e, n, hno⟩, -⟩ | ⟨-, hno, -⟩
    · cases hno
    · have heff : (p.conns c).conn.exec (some t) (.callback .close) =
          .ok ⟨(p.conns c).conn, [.inCallback .close], []⟩ := rfl
      have hstack := stackOf_schedule (p := { p with stack := rest })
        (q := ({ p with stack := rest } : Process).schedule t [(p.conns c).closeTask c] []) t rfl
      have hqueue := queueOf_schedule (p := p)
        (q := ({ p with stack := rest } : Process).schedule t [(p.conns c).closeTask c] []) t rfl
      rw [if_pos rfl] at hstack
      have hclose : ∀ b, ConnTask.callback .close ≠ .inCallback b := by rintro b ⟨⟩
      refine .task h (hann.placed.here hhead rfl) hself (by simp [Work.tasks]) hclose heff rfl
        hstack (hqueue.trans (List.append_nil _)) (tasks_closeTask _ c _) ?_
      intro v hv
      rw [List.mem_singleton.1 hv]
      exact isOwn_closeTask c _
    · cases hno
    · exact absurd rfl hno
  | released howners | destroyed howners hstate =>
    have hconn : (q.conns c).conn = (p.conns c).conn := by rw [ha.record]
    refine .run_own h htake hexec (isOwn_of_connId rfl) (fun _ => ?_)
      (ha.occupying_eq (weigh_nil _)) hconn
    simp [Work.tasks, TcpConnection.heeds]
  | setCloseCallback =>
    have hconn : (q.conns c).conn = (p.conns c).conn := by rw [ha.record]
    exact .run_own h htake hexec (isOwn_of_connId rfl) (fun _ => rfl)
      (ha.occupying_eq (by simp [occupying])) hconn
  | removeConnection =>
    have hconn : (q.conns c).conn = (p.conns c).conn := by rw [ha.record]
    have hserver : TcpServer.exec { p with stack := rest } t (.removeConnection c) = .ok q := hexec
    obtain ⟨-, hq⟩ := TcpServer.exec_eq_ok.1 hserver
    obtain rfl : q = TcpServer.removeConnection { p with stack := rest } t c := hq
    by_cases ht : t = (p.conns c).conn.loop_
    · have hstack := stackOf_schedule (p := { p with stack := rest })
        (q := TcpServer.removeConnection { p with stack := rest } t c) t rfl
      have hqueue := queueOf_schedule (p := p)
        (q := TcpServer.removeConnection { p with stack := rest } t c) t rfl
      rw [if_pos rfl] at hstack
      have htasks : Work.tasks c (.server (.removeConnection c)) = [.inCallback .close] :=
        if_pos rfl
      refine .leave h ht hself htasks hconn (fun _ => rfl) hstack ?_ ?_ ?_
        (Or.inl rfl)
      · apply tasksOf_of_not_occupying
        apply weigh_eq_zero.2
        intro v hv
        rw [mem_callIf hv]
        rfl
      · intro v hv
        rw [mem_callIf hv]
        exact isOwn_of_connId rfl
      · rw [hqueue, List.flatMap_append]
        refine congrArg _ (List.flatMap_eq_nil_iff.2 ?_)
        intro v hv
        obtain ⟨-, rfl⟩ := Prod.mk.inj (mem_postIf (Keyed.mem_ofKey.1 hv))
        rfl
    · exact .run_own h htake hexec (isOwn_of_connId rfl) (fun hno => absurd hno ht)
        (ha.occupying_eq (by simp [occupying])) hconn
  | removeConnectionInLoop =>
    have hserver : TcpServer.exec { p with stack := rest } t (.removeConnectionInLoop c) = .ok q :=
      hexec
    exact .removedInLoop hann hc h htake (TcpServer.exec_eq_ok.1 hserver).2
  | clientRemoves hconnection =>
    have hconn : (q.conns c).conn = (p.conns c).conn := by rw [ha.record]
    obtain ⟨-, hq⟩ := exec_client_eq_ok.1 hexec
    obtain ⟨hclient, hloop, -, rfl⟩ := TcpClient.removeConnection_eq_ok.1 hq
    let calls : List Work := .conn c .release ::
      if p.client.retry_ && p.client.connect_ then [.connector .restart] else []
    let r : Process := ({ p with
      stack := rest
      client := { p.client with connection_ := none } } : Process).schedule t calls
        [(p.client.loop_, .bound c .connectDestroyed)]
    have hpushed : r.stack = calls.map (fun w => (t, w)) ++ rest := rfl
    have hstack := stackOf_schedule (p := { p with stack := rest }) t hpushed
    have hqueue := queueOf_schedule (p := p) (q := r) t rfl
    rw [if_pos rfl] at hstack
    have hpassive : ∀ v ∈ calls, v.isPassive = true ∧ occupying c v = 0 := by
      intro v hv
      rcases List.mem_cons.1 hv with rfl | hv
      · exact ⟨rfl, occupying_release c⟩
      · split_ifs at hv
        · rw [List.mem_singleton.1 hv]
          exact ⟨rfl, rfl⟩
        · cases hv
    have htasks : Work.tasks c (.client (.removeConnection c)) = [.inCallback .close] := if_pos rfl
    refine .leave h (hclient.trans hloop) hself htasks hconn (fun _ => rfl) hstack
      ?_ ?_ ?_ (Or.inr rfl)
    · exact tasksOf_of_not_occupying (weigh_eq_zero.2 fun v hv => (hpassive v hv).2)
    · exact fun v hv => isOwn_of_isPassive (hpassive v hv).1
    · have hkey : Keyed.ofKey t [(p.client.loop_, Work.bound c .connectDestroyed)] =
          [.bound c .connectDestroyed] := by
        have hclient : t = p.client.loop_ := hclient
        rw [← hclient]
        exact Keyed.ofKey_cons_self ..
      rw [hqueue, List.flatMap_append, hkey]
      simp [Work.functors]

/-- Code of the user that runs on the thread of the loop finds the connection established. -/
theorem Shown.not_connecting (h : Shown p c) (hcalm : Part.Calm (p.part c .empty).stack)
    (haway : (p.part c .empty).stack = [] → (p.conns c).refs = 0 →
      (p.conns c).closeCallback_ = .server → p.server.loop_ = (p.conns c).conn.loop_) :
    (p.conns c).conn.state_ ≠ .kConnecting := by
  intro hstate
  rcases h.starting hstate with hone | ⟨hnil, -⟩
  · obtain ⟨b, hb⟩ := hcalm .connectEstablished (by rw [hone]; rfl)
    cases hb
  · obtain ⟨hrefs, hmaker, hloop⟩ := h.aloof hstate hnil
    exact hloop (haway hnil hrefs hmaker)

/-- The destructor of the server destroys the connection. -/
theorem Advances.destroyNext {peer : List Char} {rest : List (ThreadId × Work)} {k : List Char}
    (hplaced : Placed p) (h : Shown p c)
    (htake : Keyed.takeFirst t p.stack = some (.server .destroyNext, rest))
    (hnext : TcpServer.nextEntry p.server.connections_ = some (k, c))
    (hq : q = TcpServer.destroyNext { p with stack := rest } t) :
    Advances p c (.run t peer) q := by
  have hself : p.stackOf t = .server .destroyNext ::
      ({ p with stack := rest } : Process).stackOf t := Keyed.ofKey_takeFirst htake
  have hbase : t = p.server.loop_ :=
    (hplaced.stack _ (Keyed.mem_ofKey.1 (List.mem_of_head? (head_stackOf htake)))).place _ rfl
  let calls : List Work := callIf t (p.conns c).conn.loop_ (.bound c .connectDestroyed) ++
    [.conn c .release, .server .destroyNext]
  let r : Process := (({ p with
    stack := rest
    server := { p.server with
      connections_ := TcpServer.resetEntry k p.server.connections_ } } :
    Process).update c fun r => { r with taken := true }).schedule t calls
      (postIf t (p.conns c).conn.loop_ (.bound c .connectDestroyed))
  have hr : q = r := by
    rcases TcpServer.destroyNext_cases { p with stack := rest } t with
      ⟨hnone, -⟩ | ⟨j, d, hsome, heq⟩
    · have hno : some (k, c) = none := hnext.symm.trans hnone
      cases hno
    · have hsame : some (k, c) = some (j, d) := hnext.symm.trans hsome
      obtain ⟨rfl, rfl⟩ := Prod.mk.inj (Option.some.inj hsame)
      exact hq.trans heq
  have hrecord : r.conns c = { p.conns c with taken := true } := Function.update_self ..
  have hconn : (r.conns c).conn = (p.conns c).conn := by rw [hrecord]
  have hstack : ∀ l, r.stackOf l = (if t = l then calls else []) ++
      ({ p with stack := rest } : Process).stackOf l := fun l => stackOf_schedule l rfl
  have hqueue : ∀ l, r.queueOf l = p.queueOf l ++
      Keyed.ofKey l (postIf t (p.conns c).conn.loop_ (.bound c .connectDestroyed)) := fun l =>
    queueOf_schedule l rfl
  have hpushed := hstack (p.conns c).conn.loop_
  have hposted := hqueue (p.conns c).conn.loop_
  rw [hr]
  by_cases ht : t = (p.conns c).conn.loop_
  · rw [if_pos ht] at hpushed
    rw [postIf, if_pos ht] at hposted
    have hstacked := h.stacked
    rw [← ht, hself] at hstacked
    have hcalm : Part.Calm (tasksOf (p.conns c).conn c
        (({ p with stack := rest } : Process).stackOf t)) := hstacked.layered.1 rfl
    obtain ⟨hsingle, hbelow⟩ := hstacked.pop
    have hold : ∀ h, (p.part c h).stack = tasksOf (p.conns c).conn c
        (({ p with stack := rest } : Process).stackOf t) := by
      intro h
      show tasksOf _ c (p.stackOf _) = _
      rw [← ht, hself, tasksOf_cons]
      rfl
    have hcalls : tasksOf (p.conns c).conn c calls =
        [ConnTask.connectDestroyed].filter (p.conns c).conn.heeds := by
      show tasksOf _ c (callIf t (p.conns c).conn.loop_ (.bound c .connectDestroyed) ++ _) = _
      rw [callIf, if_pos ht]
      simp [tasksOf, Work.tasks, List.filter_cons, TcpConnection.heeds]
    have htail : tasksOf (p.conns c).conn c calls.tail = [] := by
      show tasksOf _ c (callIf t (p.conns c).conn.loop_ (.bound c .connectDestroyed) ++ _).tail = _
      rw [callIf, if_pos ht]
      simp [tasksOf, Work.tasks, TcpConnection.heeds]
    have hopen : (p.conns c).conn.state_ ≠ .kConnecting :=
      h.not_connecting (hold .empty ▸ hcalm) fun _ _ _ => hbase.symm.trans ht
    constructor
    · rw [hconn, hpushed, ← ht]
      exact Stacked.push hbelow.layered hsingle id (by rw [htail]; exact List.not_mem_nil)
        (Or.inr ⟨htail, hcalm⟩)
    · intro h
      have hnew : partOf (p.conns c).conn c (calls ++
          ({ p with stack := rest } : Process).stackOf (p.conns c).conn.loop_)
          (p.queueOf (p.conns c).conn.loop_) h = { p.part c h with
            stack := [ConnTask.connectDestroyed].filter (p.conns c).conn.heeds ++
              (p.part c h).stack } := by
        rw [hold h]
        unfold part partOf
        rw [tasksOf_append, hcalls, ← ht]
      rw [hconn, hpushed, hposted, show Keyed.ofKey (p.conns c).conn.loop_ [] = ([] : List Work)
        from rfl, List.append_nil]
      show Part.Moves _ _ (partOf _ c _ _ h)
      rw [hnew]
      exact .step (l := .destroy true) .refl trivial (.destroyInline (hold h ▸ hcalm) hopen)
  · rw [if_neg ht] at hpushed
    refine .posted h.stacked hconn (fun _ => rfl) ?_ ?_
    · exact hpushed.trans (Keyed.ofKey_takeFirst_of_ne htake ht).symm
    · rw [hposted, List.flatMap_append, postIf, if_neg ht, Keyed.ofKey_cons_self]
      simp [Work.functors, Keyed.ofKey]

/-- A work item that is not about the connection runs. -/
theorem Advances.meanwhile {peer : List Char} {w : Work} {rest : List (ThreadId × Work)}
    {d : Change} (hplaced : Placed p) (h : Shown p c)
    (htake : Keyed.takeFirst t p.stack = some (w, rest))
    (hexec : ({ p with stack := rest } : Process).exec t peer w = .ok q)
    (hm : Meanwhile { p with stack := rest } c w d)
    (ha : Alters { p with stack := rest } q c [] d) : Advances p c (.run t peer) q := by
  have htasks : (w.tasks c).filter (p.conns c).conn.heeds = [] := by
    rw [tasks_about hm.connId]
    rfl
  have hbeside : weigh (occupying c) d.added = 0 → d.record.conn = (p.conns c).conn →
      Advances p c (.run t peer) q := by
    intro hadded hsame
    have hconn : (q.conns c).conn = (p.conns c).conn := by rw [ha.record, hsame]
    by_cases hown : w.isOwn c = true
    · exact .run_own h.stacked htake hexec hown (fun _ => htasks) (ha.occupying_eq hadded) hconn
    · exact .pop_beside h.stacked htake (Pushes.exec hexec) (Or.inr (Bool.not_eq_true _ ▸ hown))
        (fun _ => htasks) (ha.occupying_eq hadded) hconn fun _ => rfl
  cases hm with
  | destroyNext hnext =>
    have hserver : TcpServer.exec { p with stack := rest } t .destroyNext = .ok q := hexec
    exact .destroyNext hplaced h htake hnext (TcpServer.exec_eq_ok.1 hserver).2
  | erased | replaced | clientDestroyed => exact hbeside (by simp [occupying]) rfl
  | quit | nothing => exact hbeside (weigh_nil _) rfl

/-- A thread does the next thing on its stack. -/
theorem Advances.run {peer : List Char} (hann : Announces p) (hc : c < p.nextConn)
    (h : Shown p c) (hstep : step (.run t peer) p = .ok q) : Advances p c (.run t peer) q := by
  obtain ⟨w, rest, htake, hready, hexec⟩ := run_eq_ok.1 hstep
  rcases exec_performs (p := { p with stack := rest }) hc hann.sorted hexec with
    ⟨d, hperforms, halters⟩ | ⟨d, hmeanwhile, halters⟩
  · exact .performs hann hc h.stacked htake hready hexec hperforms halters
  · exact .meanwhile hann.placed h htake hexec hmeanwhile halters

end Process

end LibNetToy
