import LibNetToy.Net.OutputStream
import LibNetToy.Net.Transitions

/-!
# Shutting down after sending

`shutdown` lets `shutdownInLoop` shut the sending side of the socket down, at once on the thread
of the loop and by a functor on any other.  Neither looks at the output, so the bytes that were
accepted and not transferred yet are lost.  They are transferred before when there are none at
the time `shutdown` is called, since nothing is sent afterwards.
-/

namespace LibNetToy

namespace Session

/-- The connection was not asked to disconnect yet. -/
def Sending (s : Session) : Prop :=
  s.conn.state_ = .kConnecting ∨ s.conn.state_ = .kConnected

instance (s : Session) : Decidable s.Sending :=
  inferInstanceAs (Decidable (_ ∨ _))

/-- All calls of `send` come before the connection is asked to disconnect. -/
def SendsFirst (s : Session) : SessionEvent → Prop
  | .call (.send _) => s.Sending
  | .callFrom (.send _) => s.Sending
  | _ => True

instance (s : Session) (l : SessionEvent) : Decidable (SendsFirst s l) :=
  match l with
  | .call (.send _) | .callFrom (.send _) => inferInstanceAs (Decidable s.Sending)
  | .call .shutdown | .call .forceClose | .call .startRead | .call .stopRead
  | .callFrom .shutdown | .callFrom .forceClose | .callFrom .startRead | .callFrom .stopRead
  | .transmit _ _ | .sendFails _ | .dequeue | .run | .return_ | .destroy _ | .consume _
  | .receive _ | .readFails _ => isTrue trivial

/-- Every byte in the buffer was transferred, and no outstanding send has bytes to transfer. -/
def Drained (s : Session) : Prop :=
  s.conn.outputBuffer_.content.length ≤ weigh ackOf s.tasks ∧
    ∀ r ∈ s.conn.socket_.sends, r.len = 0

instance (s : Session) : Decidable s.Drained :=
  inferInstanceAs (Decidable (_ ∧ _))

/-- `shutdown` is called when everything was transferred, and the sends before it do not
overlap. -/
def ShutsDownLate (s : Session) : SessionEvent → Prop
  | .call (.send _) => s.Sending ∧ s.Quiet
  | .callFrom (.send _) => s.Sending ∧ s.Quiet
  | .call .shutdown => s.conn.state_ = .kConnected → s.Drained
  | .callFrom .shutdown => s.conn.state_ = .kConnected → s.Drained
  | _ => True

instance (s : Session) (l : SessionEvent) : Decidable (ShutsDownLate s l) :=
  match l with
  | .call (.send _) | .callFrom (.send _) => inferInstanceAs (Decidable (_ ∧ _))
  | .call .shutdown | .callFrom .shutdown => inferInstanceAs (Decidable (_ → _))
  | .call .forceClose | .call .startRead | .call .stopRead
  | .callFrom .forceClose | .callFrom .startRead | .callFrom .stopRead
  | .transmit _ _ | .sendFails _ | .dequeue | .run | .return_ | .destroy _ | .consume _
  | .receive _ | .readFails _ => isTrue trivial

/-- When the sending side is about to be shut down, all accepted bytes are on the wire, and none
is in the buffer or with an outstanding send that was not transferred. -/
def ShutsDownDrained (s : Session) : Prop :=
  ∀ rest, s.stack = .shutdownInLoop :: rest → s.wire = s.accepted ∧ s.Drained

/-- A call of `shutdownInLoop` that is still to be made. -/
def shuts : ConnTask → Nat
  | .shutdownInLoop => 1
  | _ => 0

/-- While the sending side is to be shut down, nothing is sent and nothing is left to
transfer. -/
def ShutdownDrained (s : Session) : Prop :=
  0 < weigh shuts s.tasks → ¬ s.Sending ∧ s.Drained

end Session

namespace TcpConnection

variable {c : TcpConnection} {here : Option LoopId} {eff : Effect}

theorem exec_shuts {t : ConnTask} (h : c.exec here t = .ok eff) :
    weigh Session.shuts eff.tasks = 0 := by
  obtain ⟨hposts, hcalls⟩ := exec_followUp h
  rw [Effect.tasks, hposts, List.flatMap_nil, List.append_nil]
  apply weigh_eq_zero.2
  intro t' ht'
  have hfollow := hcalls t' ht'
  cases t' <;> first | rfl | cases hfollow

/-- Only `shutdown` on a connected connection lets the sending side be shut down. -/
theorem call_shuts {x : ConnCall} (h : c.call here x = .ok eff) :
    (x = .shutdown ∧ c.state_ = .kConnected ∧ eff.conn.state_ = .kDisconnecting) ∨
      weigh Session.shuts eff.tasks = 0 := by
  cases x with
  | send message =>
    obtain ⟨b, -, rfl⟩ := send_eq_ok.1 h
    exact Or.inr rfl
  | shutdown =>
    obtain rfl := pure_eq_ok.1 h
    unfold shutdown
    by_cases hstate : c.state_ = .kConnected
    · rw [if_pos hstate]
      unfold runInLoop
      split_ifs <;> exact Or.inl ⟨rfl, hstate, rfl⟩
    · rw [if_neg hstate]
      exact Or.inr rfl
  | forceClose | startRead | stopRead =>
    obtain rfl := pure_eq_ok.1 h
    simp only [forceClose, startRead, stopRead, runInLoop]
    split_ifs <;> exact Or.inr rfl

end TcpConnection

namespace Session

variable {s s' : Session}

theorem Drained.frame (h : s.Drained) (hbuffer : s'.conn.outputBuffer_ = s.conn.outputBuffer_)
    (hsends : ∀ r ∈ s'.conn.socket_.sends, r ∈ s.conn.socket_.sends)
    (hacks : weigh ackOf s.tasks ≤ weigh ackOf s'.tasks) : s'.Drained := by
  constructor
  · rw [hbuffer]
    exact Nat.le_trans h.1 hacks
  · intro r hr
    exact h.2 r (hsends r hr)

/-- A `writeHandler` takes transferred bytes out of the buffer. -/
theorem Drained.run (h : s.Drained) (hvalid : s.conn.outputBuffer_.Valid) {t : ConnTask}
    {rest : List ConnTask} {eff : Effect} (hs : s.stack = t :: rest)
    (he : s.conn.exec (some s.conn.loop_) t = .ok eff) :
    ((noteTask { s with stack := rest } t).apply eff).Drained := by
  have hrun := weigh_run ackOf hs eff
  rw [weigh_ackOf_eq_zero (TcpConnection.exec_tasks he)] at hrun
  by_cases ht : ∃ n, t = .writeHandler none n
  · obtain ⟨n, rfl⟩ := ht
    have hack : ackOf (.writeHandler none n) = n := rfl
    rw [hack] at hrun
    have he : s.conn.writeHandler none n = .ok eff := he
    rcases TcpConnection.writeHandler_eq_ok.1 he with ⟨-, b, hb, rfl⟩ | ⟨hne, -⟩
    · obtain ⟨-, -, hcontent, -⟩ := Buffer.retrieve_spec hvalid hb
      have hlen : b.content.length = s.conn.outputBuffer_.content.length - n := by
        rw [hcontent, List.length_drop]
      have hle := h.1
      refine ⟨?_, h.2⟩
      show b.content.length ≤ _
      omega
    · exact absurd rfl hne
  · have ht' : ∀ n, t ≠ .writeHandler none n := fun n hn => ht ⟨n, hn⟩
    obtain ⟨hbuffer, hsends⟩ := TcpConnection.exec_output he ht'
    rw [ackOf_eq_zero ht'] at hrun
    apply h.frame hbuffer
    · intro r hr
      rw [← hsends]
      exact hr
    · omega

/-- The state after a task that is not `connectEstablished`, or that is. -/
theorem not_sending_run (hsending : ¬ s.Sending) {t : ConnTask} {rest : List ConnTask}
    {eff : Effect} (he : s.conn.exec (some s.conn.loop_) t = .ok eff) :
    ¬ ((noteTask { s with stack := rest } t).apply eff).Sending := by
  intro hnew
  apply hsending
  have hnew : eff.conn.state_ = .kConnecting ∨ eff.conn.state_ = .kConnected := hnew
  rcases TcpConnection.exec_state he with ⟨-, hstate, -⟩ | ⟨-, hstate⟩ | ⟨-, hstate⟩
  · exact Or.inl hstate
  · rw [hstate] at hnew
    rcases hnew with hnew | hnew <;> cases hnew
  · rw [hstate] at hnew
    exact hnew

theorem ShutdownDrained.call (h : ShutdownDrained s) {x : ConnCall} {here : Option LoopId}
    {eff : Effect} (hsend : ∀ message, x = .send message → s.Sending)
    (hshutdown : x = .shutdown → s.conn.state_ = .kConnected → s.Drained)
    (he : s.conn.call here x = .ok eff) : ShutdownDrained ((s.noteCall x).apply eff) := by
  intro hpos
  rw [weigh_apply] at hpos
  have htasks : (s.noteCall x).tasks = s.tasks := by simp [tasks]
  have hack : weigh ackOf s.tasks ≤ weigh ackOf ((s.noteCall x).apply eff).tasks := by
    rw [weigh_apply, htasks]
    exact Nat.le_add_right _ _
  rw [htasks] at hpos
  rcases TcpConnection.call_shuts he with ⟨rfl, hstate, hnew⟩ | hzero
  · obtain ⟨hbuffer, hsends⟩ := TcpConnection.call_output he (by simp)
    constructor
    · rintro (hc | hc)
      · cases hc.symm.trans hnew
      · cases hc.symm.trans hnew
    · refine (hshutdown rfl hstate).frame hbuffer ?_ hack
      intro r hr
      rw [← hsends]
      exact hr
  · rw [hzero, Nat.add_zero] at hpos
    obtain ⟨hsending, hdrained⟩ := h hpos
    have hx : ∀ message, x ≠ .send message := fun message hm => hsending (hsend message hm)
    obtain ⟨hbuffer, hsends⟩ := TcpConnection.call_output he hx
    constructor
    · intro hc
      apply hsending
      rcases TcpConnection.call_state he with ⟨hstate, -, -⟩ | hstate
      · exact Or.inr hstate
      · have hc : eff.conn.state_ = .kConnecting ∨ eff.conn.state_ = .kConnected := hc
        rw [hstate] at hc
        exact hc
    · refine hdrained.frame hbuffer ?_ hack
      intro r hr
      rw [← hsends]
      exact hr

/-- An event that changes neither the state nor the output, and shuts nothing down. -/
theorem ShutdownDrained.frame (h : ShutdownDrained s) (hstate : s'.conn.state_ = s.conn.state_)
    (hbuffer : s'.conn.outputBuffer_ = s.conn.outputBuffer_)
    (hsends : ∀ r ∈ s'.conn.socket_.sends, r ∈ s.conn.socket_.sends)
    (hacks : weigh ackOf s.tasks ≤ weigh ackOf s'.tasks)
    (hshuts : weigh shuts s'.tasks ≤ weigh shuts s.tasks) : ShutdownDrained s' := by
  intro hpos
  obtain ⟨hsending, hdrained⟩ := h (Nat.lt_of_lt_of_le hpos hshuts)
  refine ⟨?_, hdrained.frame hbuffer hsends hacks⟩
  unfold Sending at hsending ⊢
  rw [hstate]
  exact hsending

/-- Every event keeps a shutdown drained. -/
theorem ShutdownDrained.step (h : ShutdownDrained s) (hvalid : s.conn.outputBuffer_.Valid)
    {l : SessionEvent} (hC : ShutsDownLate s l) (hl : Session.step l s = .ok s') :
    ShutdownDrained s' := by
  cases l with
  | dequeue =>
    obtain ⟨f, q, hs, hq, rfl⟩ := dequeue_eq_ok.1 hl
    have htasks := tasks_dequeue hs hq
    exact h.frame rfl rfl (fun r hr => hr) (Nat.le_of_eq (by rw [htasks]))
      (Nat.le_of_eq (by rw [htasks]))
  | run =>
    obtain ⟨t, rest, e, hs, -, he, rfl⟩ := run_eq_ok.1 hl
    intro hpos
    have hrun := weigh_run shuts hs e
    rw [TcpConnection.exec_shuts he, Nat.add_zero] at hrun
    obtain ⟨hsending, hdrained⟩ := h (by omega)
    exact ⟨not_sending_run hsending he, hdrained.run hvalid hs he⟩
  | return_ =>
    obtain ⟨k, rest, hs, rfl⟩ := return_eq_ok.1 hl
    refine h.frame rfl rfl (fun r hr => hr) ?_ ?_
    · rw [tasks_cons hs, weigh_cons, ackOf_eq_zero (by simp), Nat.zero_add]
    · rw [tasks_cons hs, weigh_cons]
      exact Nat.le_add_left _ _
  | call x =>
    obtain ⟨-, e, he, rfl⟩ := call_eq_ok.1 hl
    refine h.call ?_ ?_ he
    · rintro message rfl
      exact hC.1
    · rintro rfl
      exact hC
  | callFrom x =>
    obtain ⟨e, he, rfl⟩ := callFrom_eq_ok.1 hl
    refine h.call ?_ ?_ he
    · rintro message rfl
      exact hC.1
    · rintro rfl
      exact hC
  | destroy inline =>
    rcases destroy_eq_ok.1 hl with ⟨-, -, rfl⟩ | ⟨-, rfl⟩
    · exact h.frame rfl rfl (fun r hr => hr) (by simp [tasks, ackOf]) (by simp [tasks, shuts])
    · exact h.frame rfl rfl (fun r hr => hr) (by simp [tasks])
        (by simp [tasks, Functor.body, shuts])
  | consume len =>
    obtain ⟨-, b, -, rfl⟩ := consume_eq_ok.1 hl
    exact h.frame rfl rfl (fun r hr => hr) (Nat.le_refl _) (Nat.le_refl _)
  | receive data =>
    obtain ⟨r, hr, rfl⟩ := receive_eq_ok.1 hl
    obtain ⟨region, rest, -, -, -, rfl⟩ := TcpConnection.receive_eq_some hr
    refine h.frame rfl rfl (fun r hr => hr) ?_ ?_
    · exact Nat.le_of_eq (weigh_complete ackOf s _ (.readHandler none data.length)).symm
    · exact Nat.le_of_eq (weigh_complete shuts s _ (.readHandler none data.length))
  | readFails e =>
    obtain ⟨r, hr, rfl⟩ := readFails_eq_ok.1 hl
    obtain ⟨region, rest, -, rfl⟩ := TcpConnection.readFails_eq_some hr
    refine h.frame rfl rfl (fun r hr => hr) ?_ ?_
    · exact Nat.le_of_eq (weigh_complete ackOf s _ (.readHandler (some e) 0)).symm
    · exact Nat.le_of_eq (weigh_complete shuts s _ (.readHandler (some e) 0))
  | transmit k stale =>
    obtain ⟨r, hr, rfl⟩ := transmit_eq_ok.1 hl
    obtain ⟨region, rest, hsends, -, -, rfl⟩ := TcpConnection.transmit_eq_some hr
    refine h.frame rfl rfl ?_ ?_ ?_
    · intro r hr
      rw [hsends]
      exact List.mem_cons_of_mem _ hr
    · refine Nat.le_trans (Nat.le_add_right _ k) ?_
      exact Nat.le_of_eq (weigh_complete ackOf s _ (.writeHandler none k)).symm
    · exact Nat.le_of_eq (weigh_complete shuts s _ (.writeHandler none k))
  | sendFails e =>
    obtain ⟨r, hr, rfl⟩ := sendFails_eq_ok.1 hl
    obtain ⟨region, rest, hsends, rfl⟩ := TcpConnection.sendFails_eq_some hr
    refine h.frame rfl rfl ?_ ?_ ?_
    · intro r hr
      rw [hsends]
      exact List.mem_cons_of_mem _ hr
    · exact Nat.le_of_eq (weigh_complete ackOf s _ (.writeHandler (some e) 0)).symm
    · exact Nat.le_of_eq (weigh_complete shuts s _ (.writeHandler (some e) 0))

/-! ## The results -/

/-- In a run in which `shutdown` is called when everything was transferred, the sending side is
shut down with every accepted byte on the wire. -/
theorem shutsDownDrained_of_late {s : Session}
    (hs : sessionMachine.ReachableUnder ShutsDownLate s) : ShutsDownDrained s := by
  have hinv : Outgoing s ∧ ShutdownDrained s := by
    refine hs.invariant (I := fun s => Outgoing s ∧ ShutdownDrained s) ?_ ?_
    · rintro _ ⟨loop, name, m, w, rfl⟩
      refine ⟨outgoing_initial loop name m w, ?_⟩
      intro hpos
      exact absurd hpos (Nat.lt_irrefl 0)
    · intro s l s' h hC hl
      refine ⟨h.1.step ?_ hl, h.2.step h.1.valid hC hl⟩
      rintro message (rfl | rfl)
      · exact hC.2
      · exact hC.2
  obtain ⟨hout, hshut⟩ := hinv
  intro rest hstack
  have hpos : 0 < weigh shuts s.tasks := by
    rw [tasks_cons hstack, weigh_cons]
    exact Nat.lt_of_lt_of_le Nat.one_pos (Nat.le_add_right _ _)
  obtain ⟨-, hdrained⟩ := hshut hpos
  refine ⟨?_, hdrained⟩
  have hle := hdrained.1
  rw [hout.length_content] at hle
  rw [hout.wire_eq]
  apply List.take_of_length_le
  omega

/-- A message is transferred before `shutdown` is called on another thread. -/
theorem shutsDownDrained_transferred : ∃ s, (s.stack = [.shutdownInLoop] ∧ s.wire = [1, 2]) ∧
    ShutsDownDrained s := by
  have hinit : sessionMachine.init (Session.initial 0 [] false false) := ⟨_, _, _, _, rfl⟩
  obtain ⟨s, hs, hobs⟩ := Machine.exists_of_run (C := ShutsDownLate) hinit
    (l := [.run, .run, .call (.send ⟨[1, 2], by decide⟩), .return_, .run, .run,
      .transmit 2 [0, 0], .callFrom .shutdown, .dequeue, .run, .dequeue])
    (f := fun s => (s.stack, s.wire)) (a := ([.shutdownInLoop], [1, 2])) (by decide +kernel)
  obtain ⟨hstack, hwire⟩ := Prod.mk.inj hobs
  exact ⟨s, ⟨hstack, hwire⟩, shutsDownDrained_of_late hs⟩

/-- A callback sends a message and shuts down: the sending side is shut down before a byte is
transferred. -/
theorem not_shutsDownDrained :
    ¬ ∀ s, sessionMachine.ReachableUnder SendsFirst s → ShutsDownDrained s := by
  intro hall
  have hinit : sessionMachine.init (Session.initial 0 [] false false) := ⟨_, _, _, _, rfl⟩
  obtain ⟨s, hs, hobs⟩ := Machine.exists_of_run (C := SendsFirst) hinit
    (l := [.run, .run, .call (.send ⟨[1], by decide⟩), .call .shutdown])
    (f := fun s => (s.stack.head?, s.wire, s.accepted))
    (a := (some .shutdownInLoop, [], [1])) (by decide +kernel)
  obtain ⟨hhead, hrest⟩ := Prod.mk.inj hobs
  obtain ⟨hwire, haccepted⟩ := Prod.mk.inj hrest
  obtain ⟨rest, hstack⟩ : ∃ rest, s.stack = .shutdownInLoop :: rest := by
    cases hs : s.stack with
    | nil =>
      rw [hs] at hhead
      cases hhead
    | cons t rest =>
      rw [hs] at hhead
      obtain rfl := Option.some.inj hhead
      exact ⟨rest, rfl⟩
  have heq := (hall s hs rest hstack).1
  rw [hwire, haccepted] at heq
  cases heq

end Session

end LibNetToy
