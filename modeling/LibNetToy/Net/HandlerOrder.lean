import LibNetToy.Net.ConnectAttempts
import LibNetToy.Net.Threads

/-!
# The order of the attempts

The handler of an attempt is queued when the attempt completes, and the loop of the connector runs
its queue first-in first-out.  So the attempts whose handlers have not run stand in a line: the one
whose handler runs next comes first, and behind those that have completed are those that have not.
A step takes an attempt from the front of the line when it runs its handler, and changes nothing
else about it but that a new attempt goes to the end.
-/

namespace LibNetToy

/-- The attempt whose completion handler the work item is. -/
def Work.handled : Work → Option SockId
  | .connector (.handleConnect k _) => some k
  | _ => none

/-- The work item is the completion handler of an attempt. -/
def Work.handles (w : Work) : Bool :=
  w.handled.isSome

namespace Process

/-- The attempts that have completed and whose handlers have not run, in the order in which these
will run. -/
def handling (p : Process) : List SockId :=
  p.pending.filterMap Work.handled

/-- The attempts whose handlers have not run. -/
def inFlight (p : Process) : List SockId :=
  p.handling ++ p.sockets.connecting

variable {p q : Process} {t : ThreadId} {w : Work} {k : SockId}

/-! ## Handlers -/

/-- Only a handler of an attempt handles one. -/
theorem handled_of_handles (hw : w.handles = false) : w.handled = none :=
  Option.not_isSome_iff_eq_none.1 (by simpa [Work.handles] using hw)

/-- Only a completion handler handles an attempt. -/
theorem handled_of_isCompletion (hw : w.isCompletion = false) : w.handled = none := by
  unfold Work.handled
  split
  · cases hw
  · rfl

/-- Only work of the connector handles an attempt. -/
theorem handles_of_ofConnector (hw : w.ofConnector = false) : w.handles = false := by
  unfold Work.handles Work.handled
  split
  · cases hw
  · rfl

/-- Every handler counts as an outstanding attempt. -/
theorem completes_eq_ite (w : Work) :
    completes (fun _ => true) w = if w.handles = true then 1 else 0 := by
  rcases completes_cases w with ⟨k, e, rfl⟩ | hzero
  · rfl
  · rw [hzero, if_neg]
    intro hw
    unfold Work.handles Work.handled at hw
    split at hw
    · cases hzero fun _ => true
    · cases hw

/-- Only a handler of an attempt completes one. -/
theorem completes_handles (hw : w.handles = false) : completes (fun _ => true) w = 0 := by
  rw [completes_eq_ite, hw]
  rfl

/-- The handlers are as many as the completed attempts. -/
theorem length_handling (p : Process) :
    p.handling.length = weigh (completes fun _ => true) p.pending := by
  unfold handling
  induction p.pending with
  | nil => rfl
  | cons w ws ih =>
    rw [weigh_cons, completes_eq_ite]
    cases hw : w.handled with
    | none => simp [hw, Work.handles, ih]
    | some k => simp [hw, Work.handles, ih, Nat.add_comm]

/-- What is in the line counts as outstanding. -/
theorem outstanding_of_inFlight (hk : k ∈ p.inFlight) : 0 < p.outstanding (· == k) := by
  unfold outstanding
  rcases List.mem_append.1 hk with hk | hk
  · obtain ⟨w, hw, hwk⟩ := List.mem_filterMap.1 hk
    have hle := le_weigh (f := completes (· == k)) hw
    have hone : completes (· == k) w = 1 := by
      unfold Work.handled at hwk
      split at hwk
      · obtain rfl := Option.some.inj hwk
        simp [completes]
      · cases hwk
    omega
  · have hpos : 0 < p.sockets.connecting.countP (· == k) :=
      List.countP_pos_iff.2 ⟨k, hk, beq_self_eq_true k⟩
    exact Nat.lt_of_lt_of_le hpos (Nat.le_add_right _ _)

/-- Every handler is with the thread of the loop. -/
theorem loop_of_handled {e : LoopId × Work} (h : p.Belongs e) (hsome : e.2.handled ≠ none) :
    e.1 = p.connector.loop_ := by
  refine h.place _ ?_
  obtain ⟨u, v⟩ := e
  cases v with
  | connector => rfl
  | conn | bound | setCloseCallback | server | client | handleTimer | eraseTimer =>
    exact absurd rfl hsome

/-- Where there is nothing for the thread of the loop there are no handlers. -/
theorem handled_of_ofKey {l : List (LoopId × Work)} (h : ∀ e ∈ l, p.Belongs e)
    (hkey : Keyed.ofKey p.connector.loop_ l = []) :
    (l.map Prod.snd).filterMap Work.handled = [] := by
  apply List.filterMap_eq_nil_iff.2
  intro v hv
  obtain ⟨⟨u, v⟩, he, rfl⟩ := List.mem_map.1 hv
  by_contra hsome
  obtain rfl : u = p.connector.loop_ := loop_of_handled (h _ he) hsome
  have hmem := Keyed.mem_ofKey.2 he
  rw [hkey] at hmem
  cases hmem

/-! ## Taking a handler -/

/-- The work item that a thread takes from its stack is the first in the line, if it is a
handler. -/
theorem handling_pop {rest : List (ThreadId × Work)} (h : Placed p)
    (htake : Keyed.takeFirst t p.stack = some (w, rest)) :
    p.handling = w.handled.toList ++ handling { p with stack := rest } := by
  obtain ⟨front, back, hstack, hfront, rfl⟩ := Keyed.takeFirst_eq_some.1 htake
  have hnone : w.handled ≠ none → (front.map Prod.snd).filterMap Work.handled = [] := by
    intro hsome
    obtain rfl : t = p.connector.loop_ :=
      loop_of_handled (h.stack (t, w) (by simp [hstack])) hsome
    exact handled_of_ofKey (fun e he => h.stack e (by simp [hstack, he])) hfront
  unfold handling pending
  rw [hstack]
  cases hw : w.handled with
  | none => simp [hw]
  | some k => simp [hw, hnone (by simp [hw])]

/-- A loop takes the handlers from its queue in the order of the line. -/
theorem handling_dequeue {rest : List (LoopId × Work)} (h : Placed p)
    (hempty : p.stackOf t = []) (htake : Keyed.takeFirst t p.queue = some (w, rest)) :
    handling { p with stack := (t, w) :: p.stack, queue := rest } = p.handling := by
  obtain ⟨front, back, hqueue, hfront, rfl⟩ := Keyed.takeFirst_eq_some.1 htake
  unfold handling pending
  rw [hqueue]
  cases hw : w.handled with
  | none => simp [hw]
  | some k =>
    obtain rfl : t = p.connector.loop_ :=
      loop_of_handled (h.queue (t, w) (by simp [hqueue])) (by simp [hw])
    have hstack := handled_of_ofKey h.stack hempty
    have hpassed := handled_of_ofKey (fun e he => h.queue e (by simp [hqueue, he])) hfront
    simp [hw, hstack, hpassed]

/-! ## What a step does to the line -/

/-- `retry` puts no work anywhere. -/
theorem retry_pending {held : Option SockId} (h : Connector.retry p held = .ok q) :
    q.stack = p.stack ∧ q.queue = p.queue := by
  rcases Connector.retry_eq_ok.1 h with ⟨-, rfl⟩ | ⟨k, -, -, -, ⟨-, rfl⟩ | ⟨-, rfl⟩⟩ <;>
    exact ⟨rfl, rfl⟩

/-- Less is asked of the work that stays. -/
theorem SamePending.mono {kind kind' : Work → Bool} (h : SamePending kind p q)
    (hkind : ∀ w, kind w = false → kind' w = false) : SamePending kind' p q :=
  fun f hf => h f fun w hw => hf w (hkind w hw)

/-- The tasks of the connector queue no handler of an attempt. -/
theorem SamePending.execConnector {k : ConnectorTask} (h : Connector.exec p t k = .ok q) :
    SamePending Work.handles p q := by
  obtain ⟨-, h⟩ := Connector.exec_eq_ok.1 h
  cases k with
  | startInLoop =>
    rcases Connector.startInLoop_eq_ok.1 h with ⟨-, ⟨-, -, rfl⟩ | ⟨-, rfl⟩⟩ <;>
      exact SamePending.of_eq rfl rfl
  | stopInLoop =>
    rcases Connector.stopInLoop_eq_ok.1 h with ⟨-, ⟨-, h⟩ | ⟨-, rfl⟩⟩
    · exact SamePending.of_eq (retry_pending h).1 (retry_pending h).2
    · exact SamePending.refl _ _
  | restart =>
    obtain ⟨-, rfl⟩ := Connector.restart_eq_ok.1 h
    exact SamePending.of_eq rfl rfl
  | handleConnect socket error =>
    cases error with
    | none =>
      obtain rfl := pure_eq_ok.1 h
      refine SamePending.trans (SamePending.of_eq rfl rfl) (SamePending.schedule ?_ nofun)
      intro w hw
      rw [List.mem_singleton.1 hw]
      rfl
    | some e =>
      have hretry : Connector.retry { p with connector :=
        { p.connector with state_ := .kDisconnected } } (some socket) = .ok q := h
      exact SamePending.of_eq (retry_pending hretry).1 (retry_pending hretry).2

/-- Code that runs queues no handler. -/
theorem SamePending.exec {peer : List Char} (h : p.exec t peer w = .ok q) :
    SamePending Work.handles p q := by
  by_cases hremove : ∃ c, w = .client (.removeConnection c)
  · obtain ⟨c, rfl⟩ := hremove
    obtain ⟨-, h⟩ := exec_client_eq_ok.1 h
    obtain ⟨-, -, -, hpending⟩ := removeConnection_connector h
    intro f hf
    rw [hpending f fun w hw => hf w (handles_of_ofConnector hw)]
    split_ifs
    · rw [hf (.connector .restart) rfl, Nat.add_zero]
    · rfl
  by_cases hside : w.ofConnector = false
  · exact (exec_apart h hside fun c hc => hremove ⟨c, hc⟩).pending.mono
      fun v => handles_of_ofConnector
  cases w with
  | conn | bound | setCloseCallback | server => exact absurd rfl hside
  | client k =>
    obtain ⟨-, h⟩ := exec_client_eq_ok.1 h
    cases k with
    | removeConnection c => exact absurd rfl hside
    | destroyed => exact absurd rfl hside
    | newConnection socket =>
      obtain ⟨-, rfl⟩ := TcpClient.newConnection_eq_ok.1 h
      refine SamePending.trans (SamePending.of_eq rfl rfl) (SamePending.schedule ?_ nofun)
      intro w hw
      rcases List.mem_append.1 hw with hw | hw
      · obtain ⟨c, -, rfl⟩ := mem_releases hw
        rfl
      · simp only [List.mem_cons, List.not_mem_nil, or_false] at hw
        rcases hw with rfl | rfl <;> rfl
  | connector k => exact SamePending.execConnector h
  | handleTimer timer error =>
    obtain rfl := pure_eq_ok.1 h
    rcases TimerQueue.handleTimer_cases p t timer error with ⟨-, hq⟩ | ⟨-, -, hq⟩ | ⟨-, -, hq⟩
    · rw [hq]
      exact SamePending.refl _ _
    · rw [hq]
      refine SamePending.trans (SamePending.of_eq rfl rfl) (SamePending.schedule ?_ nofun)
      intro w hw
      simp only [List.mem_cons, List.not_mem_nil, or_false] at hw
      rcases hw with rfl | rfl <;> rfl
    · rw [hq]
      exact SamePending.of_eq rfl rfl
  | eraseTimer timer =>
    obtain rfl := pure_eq_ok.1 h
    exact SamePending.of_eq rfl rfl

/-- `start` queues no handler of an attempt. -/
theorem SamePending.start : SamePending Work.handles p (Connector.start p t) := by
  refine SamePending.trans (SamePending.of_eq rfl rfl) (SamePending.schedule ?_ ?_)
  · intro w hw
    rw [mem_callIf hw]
    rfl
  · intro e he
    rw [mem_postIf he]
    rfl

/-- `stop` queues no handler of an attempt. -/
theorem SamePending.stop : SamePending Work.handles p (Connector.stop p) := by
  have hstopped : SamePending Work.handles p ({ p with
      connector := { p.connector with connect_ := false }
      queue := p.queue ++ [(p.connector.loop_, .connector .stopInLoop)] } : Process) :=
    SamePending.post rfl
  unfold Connector.stop
  rcases TimerQueue.cancel_cases { p with
      connector := { p.connector with connect_ := false }
      queue := p.queue ++ [(p.connector.loop_, .connector .stopInLoop)] }
      p.connector.reConnectTimer_ with hc | ⟨id, -, -, hc⟩ | ⟨id, s, -, -, -, hc⟩
  · rw [hc]
    exact hstopped
  · rw [hc]
    exact hstopped.trans (SamePending.post rfl)
  · rw [hc]
    exact hstopped.trans (SamePending.of_eq rfl rfl)

/-- Whatever happens, only a completion queues a handler. -/
theorem SamePending.step {e : ProcessEvent} (hstep : Process.step e p = .ok q)
    (hrun : ∀ u peer, e ≠ .run u peer) (hdone : ∀ k error, e ≠ .connectDone k error) :
    SamePending Work.handles p q := by
  by_cases he : e.onConnector = false
  · exact (step_apart hstep he).pending.mono fun v => handles_of_ofConnector
  cases e with
  | run u peer => exact absurd rfl (hrun u peer)
  | connectDone k error => exact absurd rfl (hdone k error)
  | clientCall u x =>
    obtain ⟨-, rfl⟩ := clientCall_eq_ok.1 hstep
    cases x with
    | connect => exact SamePending.trans (SamePending.of_eq rfl rfl) SamePending.start
    | stop => exact SamePending.trans (SamePending.of_eq rfl rfl) SamePending.stop
    | disconnect | enableRetry => exact absurd rfl he
  | connectorCall u x =>
    obtain ⟨-, rfl⟩ := connectorCall_eq_ok.1 hstep
    cases x with
    | start => exact SamePending.start
    | stop => exact SamePending.stop
    | restart =>
      refine SamePending.schedule ?_ nofun
      intro w hw
      rw [List.mem_singleton.1 hw]
      rfl
  | destroyClient u =>
    obtain ⟨-, h⟩ := destroyClient_eq_ok.1 hstep
    cases hc : p.client.connection_ with
    | some c => exact (destructor_apart hc h).pending.mono fun v => handles_of_ofConnector
    | none =>
      rcases TcpClient.destructor_eq_ok.1 h with ⟨-, rfl⟩ | ⟨c, hsome, -⟩
      · refine SamePending.trans ?_ (SamePending.schedule ?_ ?_)
        · exact SamePending.trans (SamePending.of_eq rfl rfl) SamePending.stop
        · intro w hw
          rw [List.mem_singleton.1 hw]
          rfl
        · exact List.forall_mem_nil _
      · rw [hc] at hsome
        cases hsome
  | timerExpires timer =>
    obtain ⟨-, rfl⟩ := timerExpires_eq_ok.1 hstep
    exact SamePending.trans (SamePending.of_eq rfl rfl) (SamePending.post rfl)
  | dequeue | return_ | call | keep | keepConnection | drop | consume | receive | readFails
  | transmit | sendFails | accept | destroyServer => exact absurd rfl he

/-- A thread that calls no handler leaves the line as it is, if it queues none. -/
theorem Pushes.handling_eq {called : Work → Bool} (h : Pushes called t p q)
    (hcalled : ∀ v, called v = true → v.isCompletion = false)
    (hsame : SamePending Work.handles p q) : q.handling = p.handling := by
  have hlength : q.handling.length = p.handling.length := by
    rw [length_handling, length_handling]
    exact hsame _ fun v => completes_handles
  obtain ⟨⟨calls, hstack, hcalls⟩, posts, hqueue, -⟩ := h
  have hnone : calls.filterMap Work.handled = [] :=
    List.filterMap_eq_nil_iff.2 fun v hv => handled_of_isCompletion (hcalled v (hcalls v hv))
  have hall : q.handling = p.handling ++ (posts.map Prod.snd).filterMap Work.handled := by
    have hmap : (calls.map fun v => (t, v)).map Prod.snd = calls := by
      rw [List.map_map]
      exact List.map_id' calls
    unfold handling pending
    rw [hstack, hqueue]
    simp only [List.map_append, List.filterMap_append, hmap, hnone, List.nil_append,
      List.append_assoc]
  have hposts : (posts.map Prod.snd).filterMap Work.handled = [] := by
    rw [hall, List.length_append] at hlength
    exact List.length_eq_zero_iff.1 (Nat.add_eq_left.1 hlength)
  rw [hall, hposts, List.append_nil]

/-- A thread that runs a work item takes it from the front of the line, if it is a handler. -/
theorem handling_run {peer : List Char} {rest : List (ThreadId × Work)} (h : Placed p)
    (htake : Keyed.takeFirst t p.stack = some (w, rest))
    (hexec : ({ p with stack := rest } : Process).exec t peer w = .ok q) :
    p.handling = w.handled.toList ++ q.handling := by
  have hpushes : Pushes (p.calledBy (.run t peer)) t { p with stack := rest } q :=
    (Pushes.exec hexec).calledBy htake
  rw [handling_pop h htake, hpushes.handling_eq (fun v => not_isCompletion_of_calledBy)
    (SamePending.exec hexec)]

/-- All other steps leave the line as it is, or put an attempt that completes to its end. -/
theorem handling_step {e : ProcessEvent} (h : Placed p) (hstep : step e p = .ok q)
    (hrun : ∀ u peer, e ≠ .run u peer) (hdone : ∀ k error, e ≠ .connectDone k error) :
    q.handling = p.handling := by
  have hsame := SamePending.step hstep hrun hdone
  cases course_of_step hstep with
  | dequeues hlive hempty htake hq =>
    subst hq
    exact handling_dequeue h hempty htake
  | @runs u peer => exact absurd rfl (hrun u peer)
  | returns htake hq =>
    subst hq
    exact (handling_pop h htake).symm
  | calls _ hready hpushes =>
    exact hpushes.handling_eq (fun v => not_isCompletion_of_calledBy) hsame
  | completes _ hstack hpushes =>
    exact hpushes.handling_eq (fun v => not_isCompletion_of_calledBy) hsame

/-- An attempt that completes stays where it is in the line, if no other one is outstanding. -/
theorem inFlight_connectDone {error : Option ErrorCode}
    (hone : p.sockets.connecting = [k]) (hstep : step (.connectDone k error) p = .ok q) :
    q.inFlight = p.inFlight := by
  obtain ⟨-, rfl⟩ := connectDone_eq_ok.1 hstep
  unfold inFlight handling pending
  simp [hone, Work.handled]

end Process

end LibNetToy
