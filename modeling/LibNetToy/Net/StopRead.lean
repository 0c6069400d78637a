import LibNetToy.Net.InputStream

/-!
# Stopping and starting to read

`stopReadInLoop` clears `reading_`, which is what `readHandler` tests before it starts the next
read.  It cancels nothing, and `readHandler` calls `messageCallback_` without looking at
`reading_`: a read that is outstanding, or whose handler is queued, when reading is stopped is
still delivered.  No other read is started until `startReadInLoop` is executed, so there is at
most one more call of `messageCallback_` for each of them, and everything else stays with the
kernel.

A `Pause` keeps the session as it was when reading was stopped beside the session as it is,
with the number of calls of `messageCallback_` between the two.
-/

namespace LibNetToy

namespace TcpConnection

/-- One for a call of the message callback. -/
def messageOf : ConnTask → Nat
  | .callback .message => 1
  | _ => 0

variable {c : TcpConnection} {here : Option LoopId} {eff : Effect}

/-- A task outside the message callback does not call it. -/
theorem messageOf_eq_zero {t : ConnTask} (h : inMessage t = false) : messageOf t = 0 := by
  cases t with
  | callback k =>
    cases k with
    | message => cases h
    | _ => rfl
  | _ => rfl

/-- The message callback is called by a `readHandler`, before anything else. -/
theorem exec_message {t : ConnTask} (h : c.exec here t = .ok eff) :
    weigh messageOf eff.calls ≤ handlerOf t ∧ ∀ u ∈ eff.calls.tail, messageOf u = 0 := by
  cases exec_runs h with
  | received _ | readFailed _ _ | sent _ => split_ifs <;> simp [messageOf, handlerOf]
  | _ => simp [messageOf]

/-- Only `startReadInLoop` sets `reading_`. -/
theorem exec_reading {t : ConnTask} (h : c.exec here t = .ok eff) (ht : t ≠ .startReadInLoop)
    (hreading : c.reading_ = false) : eff.conn.reading_ = false := by
  cases exec_runs h with
  | readFailed _ _ | closes _ _ | stopsReading _ => rfl
  | startsReading _ | isReading _ => exact absurd rfl ht
  | _ => exact hreading

/-- `stopReadInLoop` clears `reading_`, and no more. -/
theorem stopReadInLoop_eq : c.stopReadInLoop = ⟨{ c with reading_ := false }, [], []⟩ := by
  obtain ⟨_, _, _, reading, _, _, _, _, _⟩ := c
  cases reading <;> rfl

/-- The calls from outside leave it to the functors. -/
theorem call_reading {x : ConnCall} (h : c.call here x = .ok eff) :
    eff.conn.reading_ = c.reading_ := by
  cases x with
  | send message =>
    obtain ⟨b, -, rfl⟩ := send_eq_ok.1 h
    rfl
  | shutdown | forceClose | startRead | stopRead =>
    obtain rfl := pure_eq_ok.1 h
    simp only [shutdown, forceClose, startRead, stopRead, runInLoop]
    split_ifs <;> rfl

end TcpConnection

namespace Session

open TcpConnection

variable {s s' : Session}

/-! ## Where the message callback is called -/

/-- A call of the message callback is the next thing the thread does. -/
def MessageOnTop (s : Session) : Prop :=
  ∀ t ∈ s.stack.tail ++ s.queue.flatMap Functor.body, messageOf t = 0

/-- Running a task. -/
theorem MessageOnTop.run (h : MessageOnTop s) {t : ConnTask} {rest : List ConnTask} {eff : Effect}
    (hs : s.stack = t :: rest) (he : s.conn.exec (some s.conn.loop_) t = .ok eff) :
    MessageOnTop ((noteTask { s with stack := rest } t).apply eff) := by
  obtain ⟨hposts, -⟩ := exec_followUp he
  obtain ⟨-, htail⟩ := exec_message he
  unfold MessageOnTop at h
  rw [hs, List.tail_cons] at h
  intro u hu
  have hu : u ∈ (eff.calls ++ rest).tail ++ s.queue.flatMap Functor.body := by
    simpa [hposts] using hu
  rcases List.mem_append.1 hu with hu | hu
  · cases hcalls : eff.calls with
    | nil =>
      rw [hcalls] at hu
      exact h u (List.mem_append_left _ (List.mem_of_mem_tail hu))
    | cons v vs =>
      rw [hcalls] at hu htail
      rcases List.mem_append.1 hu with hu | hu
      · exact htail u hu
      · exact h u (List.mem_append_left _ hu)
  · exact h u (List.mem_append_right _ hu)

/-- Code of the user that runs on the thread is not on its way to a message callback. -/
theorem messageOf_of_userRuns (hu : s.userRuns = true) {t : ConnTask} (ht : t ∈ s.stack)
    (h : MessageOnTop s) : messageOf t = 0 := by
  unfold userRuns at hu
  cases hs : s.stack with
  | nil =>
    rw [hs] at ht
    cases ht
  | cons v vs =>
    rw [hs] at ht hu
    rcases List.mem_cons.1 ht with rfl | ht
    · cases t with
      | inCallback k => rfl
      | _ => cases hu
    · apply h
      rw [hs]
      exact List.mem_append_left _ ht

/-- Tasks that are put in front while code of the user runs, and functors that are queued. -/
theorem MessageOnTop.push (h : MessageOnTop s) (calls : List ConnTask) (posts : List Functor)
    (hu : calls = [] ∨ s.userRuns = true) (hcalls : ∀ t ∈ calls, messageOf t = 0)
    (hposts : ∀ t ∈ posts.flatMap Functor.body, messageOf t = 0)
    (hstack : s'.stack = calls ++ s.stack) (hqueue : s'.queue = s.queue ++ posts) :
    MessageOnTop s' := by
  intro u hmem
  rw [hstack, hqueue, List.flatMap_append] at hmem
  rcases List.mem_append.1 hmem with hmem | hmem
  · rcases hu with rfl | hu
    · exact h u (List.mem_append_left _ hmem)
    · rcases List.mem_append.1 (List.mem_of_mem_tail hmem) with hmem | hmem
      · exact hcalls u hmem
      · exact messageOf_of_userRuns hu hmem h
  · rcases List.mem_append.1 hmem with hmem | hmem
    · exact h u (List.mem_append_right _ hmem)
    · exact hposts u hmem

/-- A call of the connection by the user. -/
theorem MessageOnTop.call (h : MessageOnTop s) {x : ConnCall} {here : Option LoopId}
    {eff : Effect} (he : s.conn.call here x = .ok eff) (hu : eff.calls = [] ∨ s.userRuns = true) :
    MessageOnTop ((s.noteCall x).apply eff) := by
  obtain ⟨-, -, -, -, hmessage⟩ := call_input he
  refine h.push eff.calls eff.posts hu ?_ ?_ (by simp) (by simp)
  · intro t ht
    exact messageOf_eq_zero (hmessage t (List.mem_append_left _ ht))
  · intro t ht
    exact messageOf_eq_zero (hmessage t (List.mem_append_right _ ht))

/-- Every event leaves the calls of the message callback on top. -/
theorem MessageOnTop.step (h : MessageOnTop s) {l : SessionEvent}
    (hl : Session.step l s = .ok s') : MessageOnTop s' := by
  cases l with
  | dequeue =>
    obtain ⟨f, q, hs, hq, rfl⟩ := dequeue_eq_ok.1 hl
    unfold MessageOnTop at h ⊢
    rw [hs, hq] at h
    intro u hu
    refine h u ?_
    rcases List.mem_append.1 hu with hu | hu
    · exact List.mem_append_right _ (List.mem_append_left _ (List.mem_of_mem_tail hu))
    · exact List.mem_append_right _ (List.mem_append_right _ hu)
  | run =>
    obtain ⟨t, rest, e, hs, -, he, rfl⟩ := run_eq_ok.1 hl
    exact h.run hs he
  | return_ =>
    obtain ⟨k, rest, hs, rfl⟩ := return_eq_ok.1 hl
    unfold MessageOnTop at h ⊢
    rw [hs, List.tail_cons] at h
    intro u hu
    refine h u ?_
    rcases List.mem_append.1 hu with hu | hu
    · exact List.mem_append_left _ (List.mem_of_mem_tail hu)
    · exact List.mem_append_right _ hu
  | call x =>
    obtain ⟨hu, e, he, rfl⟩ := call_eq_ok.1 hl
    exact h.call he (Or.inr hu)
  | callFrom x =>
    obtain ⟨e, he, rfl⟩ := callFrom_eq_ok.1 hl
    exact h.call he (Or.inl (call_none_calls he))
  | destroy inline =>
    rcases destroy_eq_ok.1 hl with ⟨-, hu, rfl⟩ | ⟨-, rfl⟩
    · exact h.push [.connectDestroyed, .release] [] (Or.inr hu) (by simp [messageOf]) (by simp)
        rfl (List.append_nil _).symm
    · exact h.push [] [.bound .connectDestroyed] (Or.inl rfl) (by simp)
        (by simp [Functor.body, messageOf]) rfl rfl
  | consume len =>
    obtain ⟨-, b, -, rfl⟩ := consume_eq_ok.1 hl
    exact h
  | receive data =>
    obtain ⟨r, hr, rfl⟩ := receive_eq_ok.1 hl
    obtain ⟨region, rest, -, -, -, rfl⟩ := receive_eq_some hr
    exact h.push [] [.raw (.readHandler none data.length)] (Or.inl rfl) (by simp)
      (by simp [Functor.body, messageOf]) rfl rfl
  | readFails e =>
    obtain ⟨r, hr, rfl⟩ := readFails_eq_ok.1 hl
    obtain ⟨region, rest, -, rfl⟩ := readFails_eq_some hr
    exact h.push [] [.raw (.readHandler (some e) 0)] (Or.inl rfl) (by simp)
      (by simp [Functor.body, messageOf]) rfl rfl
  | transmit k stale =>
    obtain ⟨r, hr, rfl⟩ := transmit_eq_ok.1 hl
    obtain ⟨region, rest, -, -, -, rfl⟩ := transmit_eq_some hr
    exact h.push [] [.raw (.writeHandler none k)] (Or.inl rfl) (by simp)
      (by simp [Functor.body, messageOf]) rfl rfl
  | sendFails e =>
    obtain ⟨r, hr, rfl⟩ := sendFails_eq_ok.1 hl
    obtain ⟨region, rest, -, rfl⟩ := sendFails_eq_some hr
    exact h.push [] [.raw (.writeHandler (some e) 0)] (Or.inl rfl) (by simp)
      (by simp [Functor.body, messageOf]) rfl rfl

/-- In every run a message callback that is due is called next. -/
theorem messageOnTop_of_reachable (hs : sessionMachine.Reachable s) : MessageOnTop s := by
  refine hs.invariant (I := MessageOnTop) ?_ ?_
  · rintro _ ⟨loop, name, m, w, rfl⟩
    simp [MessageOnTop, initial, messageOf]
  · intro s l s' h _ hl
    exact h.step hl

/-! ## Steps without `startReadInLoop` -/

/-- The message callbacks called in a step. -/
def messageCalls (s : Session) : SessionEvent → Nat
  | .run => if s.stack.head? = some (.callback .message) then 1 else 0
  | _ => 0

/-- The calls of the message callback that the reads under way may lead to. -/
def pendingMessages (s : Session) : Nat :=
  s.conn.socket_.reads.length + weigh handlerOf s.tasks + weigh messageOf s.tasks

/-- A step in which reading stays stopped, no read is started, and `n` of the calls of the
message callback that were pending are made. -/
structure StaysPaused (s s' : Session) (n : Nat) : Prop where
  not_reading : s'.conn.reading_ = false
  established : s'.conn.state_ ≠ .kConnecting
  no_read_started : s'.conn.socket_.reads <:+ s.conn.socket_.reads
  pending_le : n + s'.pendingMessages ≤ s.pendingMessages

/-- Running the callback is calling it. -/
theorem messageCalls_run {t : ConnTask} {rest : List ConnTask} (hs : s.stack = t :: rest) :
    s.messageCalls .run = messageOf t := by
  have hhead : s.stack.head? = some t := by
    rw [hs]
    rfl
  unfold messageCalls
  rw [hhead]
  cases t with
  | callback k => cases k <;> rfl
  | _ => rfl

/-- Without a completion handler no read is completed. -/
theorem weigh_handlerOf_eq_zero {ts : List ConnTask} (h : ∀ t ∈ ts, t.isHandler = false) :
    weigh handlerOf ts = 0 := by
  apply weigh_eq_zero.2
  intro t ht
  have hno := h t ht
  cases t with
  | readHandler error n => cases hno
  | _ => rfl

/-- Nothing that has to do with reads changes. -/
theorem StaysPaused.frame (hreading : s'.conn.reading_ = false)
    (hstate : s'.conn.state_ ≠ .kConnecting)
    (hreads : s'.conn.socket_.reads = s.conn.socket_.reads)
    (hhandler : weigh handlerOf s'.tasks = weigh handlerOf s.tasks)
    (hmessage : weigh messageOf s'.tasks = weigh messageOf s.tasks) : StaysPaused s s' 0 := by
  refine ⟨hreading, hstate, ?_, ?_⟩
  · rw [hreads]
  · rw [pendingMessages, pendingMessages, hreads, hhandler, hmessage, Nat.zero_add]

/-- The kernel completes the oldest read. -/
theorem StaysPaused.complete {region : Region} {rest : List Region}
    (hreads : s.conn.socket_.reads = region :: rest) (hreads' : s'.conn.socket_.reads = rest)
    (hreading : s'.conn.reading_ = false) (hstate : s'.conn.state_ ≠ .kConnecting)
    {error : Option ErrorCode} {n : Nat} (htasks : s'.tasks = s.tasks ++ [.readHandler error n]) :
    StaysPaused s s' 0 := by
  refine ⟨hreading, hstate, ?_, ?_⟩
  · rw [hreads, hreads']
    exact List.suffix_cons ..
  · rw [pendingMessages, pendingMessages, htasks, hreads, hreads', weigh_append, weigh_append,
      List.length_cons]
    simp only [weigh_cons, weigh_nil, handlerOf, messageOf]
    omega

/-- Running a task: a `readHandler` may call the message callback. -/
theorem StaysPaused.run (hreading : s.conn.reading_ = false)
    (hstate : s.conn.state_ ≠ .kConnecting)
    {t : ConnTask} {rest : List ConnTask} {eff : Effect} (hs : s.stack = t :: rest)
    (ht : t ≠ .startReadInLoop) (he : s.conn.exec (some s.conn.loop_) t = .ok eff) :
    StaysPaused s ((noteTask { s with stack := rest } t).apply eff) (messageOf t) := by
  have hreads : eff.conn.socket_.reads = s.conn.socket_.reads := by
    rcases exec_reads he with hsame | ⟨-, ⟨-, hk, -⟩ | ⟨hstart, -⟩ | ⟨n, -, hr, -⟩⟩
    · exact hsame
    · exact absurd hk hstate
    · exact absurd hstart ht
    · rw [hreading] at hr
      cases hr
  refine ⟨exec_reading he ht hreading, ?_, ?_, ?_⟩
  · exact exec_connecting he fun hk => absurd hk hstate
  · rw [apply_conn, hreads]
  · have hhandler := weigh_run handlerOf hs eff
    have hmessage := weigh_run messageOf hs eff
    have hnew : weigh messageOf eff.tasks ≤ handlerOf t := by
      rw [Effect.tasks, (exec_followUp he).1, List.flatMap_nil, List.append_nil]
      exact (exec_message he).1
    rw [weigh_handlerOf_eq_zero (exec_tasks he)] at hhandler
    rw [pendingMessages, pendingMessages, apply_conn, hreads]
    omega

/-- A call of the connection by the user. -/
theorem StaysPaused.call (hreading : s.conn.reading_ = false)
    (hstate : s.conn.state_ ≠ .kConnecting)
    {x : ConnCall} {here : Option LoopId} {eff : Effect} (he : s.conn.call here x = .ok eff) :
    StaysPaused s ((s.noteCall x).apply eff) 0 := by
  obtain ⟨-, hreads, hhandler, -, hmessage⟩ := call_input he
  have htasks : (s.noteCall x).tasks = s.tasks := by
    simp [tasks]
  refine StaysPaused.frame ?_ (fun hk => hstate ((call_connecting he).1 hk)) hreads ?_ ?_
  · exact (call_reading he).trans hreading
  · rw [weigh_apply, htasks, hhandler, Nat.add_zero]
  · rw [weigh_apply, htasks, weigh_eq_zero.2 fun t ht => messageOf_eq_zero (hmessage t ht),
      Nat.add_zero]

/-- Every event but the execution of `startReadInLoop` leaves reading stopped. -/
theorem staysPaused_step (hreading : s.conn.reading_ = false)
    (hstate : s.conn.state_ ≠ .kConnecting)
    {l : SessionEvent} (hl : Session.step l s = .ok s')
    (hno : l = .run → s.stack.head? ≠ some .startReadInLoop) :
    StaysPaused s s' (s.messageCalls l) := by
  cases l with
  | dequeue =>
    obtain ⟨f, q, hs, hq, rfl⟩ := dequeue_eq_ok.1 hl
    have htasks := tasks_dequeue hs hq
    exact StaysPaused.frame hreading hstate rfl (congrArg _ htasks) (congrArg _ htasks)
  | run =>
    obtain ⟨t, rest, e, hs, -, he, rfl⟩ := run_eq_ok.1 hl
    rw [messageCalls_run hs]
    refine StaysPaused.run hreading hstate hs ?_ he
    rintro rfl
    apply hno rfl
    rw [hs]
    rfl
  | return_ =>
    obtain ⟨k, rest, hs, rfl⟩ := return_eq_ok.1 hl
    refine StaysPaused.frame hreading hstate rfl ?_ ?_
    · rw [tasks_cons hs, weigh_cons]
      exact (Nat.zero_add _).symm
    · rw [tasks_cons hs, weigh_cons]
      exact (Nat.zero_add _).symm
  | call x =>
    obtain ⟨-, e, he, rfl⟩ := call_eq_ok.1 hl
    exact StaysPaused.call hreading hstate he
  | callFrom x =>
    obtain ⟨e, he, rfl⟩ := callFrom_eq_ok.1 hl
    exact StaysPaused.call hreading hstate he
  | destroy inline =>
    rcases destroy_eq_ok.1 hl with ⟨-, -, rfl⟩ | ⟨-, rfl⟩
    · exact StaysPaused.frame hreading hstate rfl (by simp [tasks, handlerOf])
        (by simp [tasks, messageOf])
    · exact StaysPaused.frame hreading hstate rfl (by simp [tasks, Functor.body, handlerOf])
        (by simp [tasks, Functor.body, messageOf])
  | consume len =>
    obtain ⟨-, b, -, rfl⟩ := consume_eq_ok.1 hl
    exact StaysPaused.frame hreading hstate rfl rfl rfl
  | receive data =>
    obtain ⟨r, hr, rfl⟩ := receive_eq_ok.1 hl
    obtain ⟨region, rest, hreads, -, -, rfl⟩ := receive_eq_some hr
    exact StaysPaused.complete hreads rfl hreading hstate
      (tasks_complete s (_, .readHandler none _))
  | readFails e =>
    obtain ⟨r, hr, rfl⟩ := readFails_eq_ok.1 hl
    obtain ⟨region, rest, hreads, rfl⟩ := readFails_eq_some hr
    exact StaysPaused.complete hreads rfl hreading hstate (tasks_complete s _)
  | transmit k stale =>
    obtain ⟨r, hr, rfl⟩ := transmit_eq_ok.1 hl
    obtain ⟨region, rest, -, -, -, rfl⟩ := transmit_eq_some hr
    exact StaysPaused.frame hreading hstate rfl
      (weigh_complete handlerOf s _ (.writeHandler none k))
      (weigh_complete messageOf s _ (.writeHandler none k))
  | sendFails e =>
    obtain ⟨r, hr, rfl⟩ := sendFails_eq_ok.1 hl
    obtain ⟨region, rest, -, rfl⟩ := sendFails_eq_some hr
    exact StaysPaused.frame hreading hstate rfl
      (weigh_complete handlerOf s _ (.writeHandler (some e) 0))
      (weigh_complete messageOf s _ (.writeHandler (some e) 0))

end Session

/-! ## Pauses -/

/-- A session that was told to stop reading: right after `stopReadInLoop`, and now. -/
structure Pause where
  stopped : Session
  now : Session
  /-- The number of calls of `messageCallback_` between the two. -/
  messages : Nat

namespace Pause

open TcpConnection Session

/-- One step of the session. -/
def step (l : SessionEvent) (p : Pause) : Except (Halt Fault) Pause :=
  Halt.within (Session.step l p.now)
    fun s => { p with now := s, messages := p.messages + p.now.messageCalls l }

end Pause

/-- What follows a `stopReadInLoop` in any run. -/
def pauseMachine : Machine Pause SessionEvent Fault where
  init p := ∃ s, sessionMachine.Reachable s ∧ s.stack.head? = some .stopReadInLoop ∧
    sessionMachine.step .run s = .ok p.stopped ∧ p.now = p.stopped ∧ p.messages = 0
  step := Pause.step

namespace Pause

open TcpConnection Session

/-- `startReadInLoop` is not executed. -/
def Lasts (p : Pause) : SessionEvent → Prop
  | .run => p.now.stack.head? ≠ some .startReadInLoop
  | _ => True

instance (p : Pause) (l : SessionEvent) : Decidable (Lasts p l) :=
  match l with
  | .run => inferInstanceAs (Decidable (p.now.stack.head? ≠ some .startReadInLoop))
  | .call _ | .callFrom _ | .transmit _ _ | .sendFails _ | .dequeue | .return_ | .destroy _
  | .consume _ | .receive _ | .readFails _ => isTrue trivial

/-- No read is started in a pause, by none of its steps, and the message callback is called at
most once for each read that was outstanding, or completed and not handled, when reading was
stopped. -/
structure HeldBack (p : Pause) : Prop where
  not_reading : p.now.conn.reading_ = false
  no_read_started : p.now.conn.socket_.reads <:+ p.stopped.conn.socket_.reads
  starts_no_read : ∀ l p', Lasts p l → pauseMachine.step l p = .ok p' →
    p'.now.conn.socket_.reads <:+ p.now.conn.socket_.reads
  messages_le : p.messages ≤
    p.stopped.conn.socket_.reads.length + weigh handlerOf p.stopped.tasks

/-- Everything that was received and not consumed is readable, in order, when the message
callback is called. -/
structure DeliversInOrder (s : Session) : Prop where
  stream : s.consumed ++ s.conn.inputBuffer_.content ++ s.unhandled = s.received
  delivered : ∀ n rest s', s.stack = .readHandler none n :: rest →
    s.conn.messageCallback_ = true → sessionMachine.step .run s = .ok s' →
    s'.stack.head? = some (.callback .message) ∧
      s'.consumed ++ s'.conn.inputBuffer_.content = s'.received

/-- `startReadInLoop` ends the pause: a read is started behind what is readable. -/
def Resumes (s : Session) : Prop :=
  ∀ s', s.stack.head? = some .startReadInLoop → sessionMachine.step .run s = .ok s' →
    s'.conn.reading_ = true ∧ s'.conn.inputBuffer_ = s.conn.inputBuffer_ ∧
      s'.conn.socket_.reads = s.conn.socket_.reads ++ [s.conn.inputBuffer_.writeRegion]

/-! ## The invariant -/

/-- What is left of the calls that were pending when reading was stopped. -/
structure Holding (p : Pause) : Prop where
  not_reading : p.now.conn.reading_ = false
  established : p.now.conn.state_ ≠ .kConnecting
  no_read_started : p.now.conn.socket_.reads <:+ p.stopped.conn.socket_.reads
  budget : p.messages + p.now.pendingMessages ≤
    p.stopped.conn.socket_.reads.length + weigh handlerOf p.stopped.tasks

variable {p p' : Pause}

/-- Every step of a pause leaves reading stopped. -/
theorem Holding.staysPaused (h : Holding p) {l : SessionEvent} (hC : Lasts p l)
    (hl : pauseMachine.step l p = .ok p') :
    p'.stopped = p.stopped ∧ p'.messages = p.messages + p.now.messageCalls l ∧
      StaysPaused p.now p'.now (p.now.messageCalls l) := by
  obtain ⟨s, hs, rfl⟩ := Halt.within_eq_ok.1 hl
  have hno : l = .run → p.now.stack.head? ≠ some .startReadInLoop := by
    rintro rfl
    exact hC
  exact ⟨rfl, rfl, staysPaused_step h.not_reading h.established hs hno⟩

/-- The invariant says what is wanted. -/
theorem Holding.heldBack (h : Holding p) : HeldBack p where
  not_reading := h.not_reading
  no_read_started := h.no_read_started
  starts_no_read _ _ hC hl := (h.staysPaused hC hl).2.2.no_read_started
  messages_le := Nat.le_trans (Nat.le_add_right _ _) h.budget

/-- `stopReadInLoop` clears `reading_`, and no message callback is about to be called. -/
theorem holding_of_init (h : pauseMachine.init p) : Holding p := by
  obtain ⟨s, hs, hhead, hrun, hnow, hmessages⟩ := h
  obtain ⟨t, rest, e, hstack, -, he, hstopped⟩ := run_eq_ok.1 hrun
  rw [hstack] at hhead
  obtain rfl := Option.some.inj hhead
  have hstate : s.conn.state_ ≠ .kConnecting := by
    intro hk
    have hclosing := (closing_of_reachable hs).connecting hk
    rw [hstack] at hclosing
    cases hclosing
  have he : e = s.conn.stopReadInLoop := pure_eq_ok.1 he
  rw [stopReadInLoop_eq] at he
  subst he
  have htasks : p.stopped.tasks = rest ++ s.queue.flatMap Functor.body := by
    rw [hstopped]
    simp [tasks]
  have hnone : weigh messageOf p.stopped.tasks = 0 := by
    have htop := messageOnTop_of_reachable hs
    unfold MessageOnTop at htop
    rw [hstack, List.tail_cons] at htop
    rw [htasks]
    exact weigh_eq_zero.2 htop
  have hconn : p.stopped.conn = { s.conn with reading_ := false } := by
    rw [hstopped, apply_conn]
  constructor
  · rw [hnow, hconn]
  · rw [hnow, hconn]
    exact hstate
  · rw [hnow]
  · rw [hmessages, hnow, pendingMessages, hnone]
    omega

/-- A pause that lasts. -/
theorem Holding.step (h : Holding p) {l : SessionEvent} (hC : Lasts p l)
    (hl : pauseMachine.step l p = .ok p') : Holding p' := by
  obtain ⟨hstopped, hmessages, hreading, hstate, hreads, hpending⟩ := h.staysPaused hC hl
  refine ⟨hreading, hstate, ?_, ?_⟩
  · rw [hstopped]
    exact hreads.trans h.no_read_started
  · rw [hstopped, hmessages]
    calc p.messages + p.now.messageCalls l + p'.now.pendingMessages
        = p.messages + (p.now.messageCalls l + p'.now.pendingMessages) := Nat.add_assoc ..
      _ ≤ p.messages + p.now.pendingMessages := Nat.add_le_add_left hpending _
      _ ≤ p.stopped.conn.socket_.reads.length + weigh handlerOf p.stopped.tasks := h.budget

/-- Without overlapping reads the message callback is given everything in order. -/
theorem deliversInOrder_of_serialReads {s : Session}
    (hs : sessionMachine.ReachableUnder SerialReads s) : DeliversInOrder s := by
  have hin := incoming_of_serialReads hs
  refine ⟨hin.stream, ?_⟩
  intro n rest s' hstack hset hl
  have hserial : SerialReads s .run := by
    intro hhead
    rw [hstack] at hhead
    cases hhead
  have hin' := incoming_of_serialReads (.step hs hserial hl)
  obtain ⟨t, rest', e, hstack', -, he, rfl⟩ := run_eq_ok.1 hl
  rw [hstack] at hstack'
  obtain ⟨rfl, rfl⟩ := List.cons.inj hstack'
  have he : s.conn.readHandler (some s.conn.loop_) none n = .ok e := he
  rcases readHandler_eq_ok.1 he with ⟨-, b, -, rfl⟩ | ⟨hne, -⟩
  · rw [hset, if_pos rfl] at hin' ⊢
    refine ⟨rfl, hin'.stream_of_handled ?_⟩
    -- the handler has not ended, so no other read is completed
    have hle := hin'.underWay_le
    rw [readsUnderWay, tasks_run] at hle
    rw [tasks_run]
    simp only [List.cons_append, List.nil_append, List.flatMap_nil, List.append_nil, weigh_cons,
      handlerOf, againOf] at hle ⊢
    omega
  · exact absurd rfl hne

/-- `startReadInLoop` starts a read when reading is stopped. -/
theorem resumes (s : Session) (hreading : s.conn.reading_ = false) : Resumes s := by
  intro s' hhead hl
  obtain ⟨t, rest, e, hstack, -, he, rfl⟩ := run_eq_ok.1 hl
  rw [hstack] at hhead
  obtain rfl := Option.some.inj hhead
  obtain rfl := pure_eq_ok.1 he
  rw [apply_conn, startReadInLoop, hreading]
  exact ⟨rfl, rfl, rfl⟩

/-- The steps of a pause do not start a read, so they do not make reads overlap. -/
theorem serial_of_lasts (hp : pauseMachine.ReachableUnder Lasts p)
    (hs : sessionMachine.ReachableUnder SerialReads p.stopped) :
    sessionMachine.ReachableUnder SerialReads p.now := by
  induction hp with
  | init h =>
    obtain ⟨-, -, -, -, hnow, -⟩ := h
    rw [hnow]
    exact hs
  | step hp hC hl ih =>
    obtain ⟨s, hnow, rfl⟩ := Halt.within_eq_ok.1 hl
    refine .step (ih hs) ?_ hnow
    rename_i l
    cases l with
    | run => exact fun hhead => absurd hhead hC
    | _ => trivial

/-- A connection with a message callback right after it was established. -/
def established : Session where
  __ := Session.initial 0 [] true false
  conn := { TcpConnection.make 0 [] true false with state_ := .kConnected }.beginFirstRead
  stack := []

/-- Its reading is stopped with the first read outstanding. -/
def pausing : Pause where
  stopped := { established with conn := { established.conn with reading_ := false } }
  now := { established with conn := { established.conn with reading_ := false } }
  messages := 0

/-- The connection is reached without overlapping reads. -/
theorem established_serial : sessionMachine.ReachableUnder SerialReads
    { established with stack := [.stopReadInLoop] } := by
  have hinit : sessionMachine.ReachableUnder SerialReads (Session.initial 0 [] true false) :=
    .init ⟨_, _, _, _, rfl⟩
  have hrun : sessionMachine.run SerialReads
      [.run, .run, .return_, .run, .run, .callFrom .stopRead, .dequeue]
      (Session.initial 0 [] true false) = .ok { established with stack := [.stopReadInLoop] } := rfl
  exact hinit.run hrun

/-- The pause is reached without overlapping reads. -/
theorem pausing_serial : sessionMachine.ReachableUnder SerialReads pausing.stopped :=
  .step (l := .run) established_serial (by decide) rfl

/-- A pause begins when `stopReadInLoop` has run. -/
theorem pausing_init : pauseMachine.init pausing :=
  ⟨_, established_serial.reachable, rfl, rfl, rfl, rfl⟩

/-- The outstanding read receives two bytes and its handler calls the message callback. -/
theorem exists_delivered : ∃ p, pauseMachine.ReachableUnder Lasts p ∧
    p.stopped = pausing.stopped ∧ p.messages = 1 := by
  have hstart : pauseMachine.ReachableUnder Lasts pausing := .init pausing_init
  obtain ⟨p, hp, hmessages⟩ := Machine.exists_of_run (M := pauseMachine.startedAt pausing)
    (C := Lasts) rfl (l := [.receive [1, 2], .dequeue, .run, .run]) (f := Pause.messages) (a := 1)
    (by decide +kernel)
  refine ⟨p, hstart.goOn hp, ?_, hmessages⟩
  refine hp.invariant (I := fun p => p.stopped = pausing.stopped) ?_ ?_
  · rintro _ rfl
    rfl
  · intro p l p' h _ hl
    obtain ⟨s, -, rfl⟩ := Halt.within_eq_ok.1 hl
    exact h

/-! ## The results -/

/-- Until `startReadInLoop` is executed, no step starts a read and the message callback is called at
most once for each read that was under way.  `startReadInLoop` starts a read, and from then on
the message callback is given in order what was received and not consumed, provided that reads
do not overlap. -/
theorem heldBack_of_lasts {p : Pause} (hp : pauseMachine.ReachableUnder Lasts p) :
    HeldBack p ∧ Resumes p.now ∧
      (sessionMachine.ReachableUnder SerialReads p.stopped → ∀ s,
        (sessionMachine.startedAt p.now).ReachableUnder SerialReads s → DeliversInOrder s) := by
  have hholding : Holding p := by
    refine hp.invariant (I := Holding) ?_ ?_
    · intro p h
      exact holding_of_init h
    · intro p l p' h hC hl
      exact h.step hC hl
  refine ⟨hholding.heldBack, resumes _ hholding.not_reading, ?_⟩
  intro hserial s hs
  exact deliversInOrder_of_serialReads ((serial_of_lasts hp hserial).goOn hs)

/-- The outstanding read is delivered in the pause. -/
theorem heldBack_one_message :
    ∃ p : Pause, p.messages = 1 ∧ HeldBack p ∧ Resumes p.now ∧ DeliversInOrder p.now := by
  obtain ⟨p, hp, hstopped, hmessages⟩ := exists_delivered
  obtain ⟨hheld, hresumes, horder⟩ := heldBack_of_lasts hp
  refine ⟨p, hmessages, hheld, hresumes, horder ?_ p.now (.init rfl)⟩
  rw [hstopped]
  exact pausing_serial

/-- The read that was outstanding when reading was stopped is completed and its data is handed
to the message callback, with reading still stopped. -/
theorem not_silent : ¬ ∀ p, pauseMachine.ReachableUnder Lasts p → p.messages = 0 := by
  intro hall
  obtain ⟨p, hp, -, hmessages⟩ := exists_delivered
  rw [hall p hp] at hmessages
  cases hmessages

end Pause

end LibNetToy
