import LibNetToy.Foundations.Parties
import LibNetToy.Net.GracefulShutdown
import LibNetToy.Net.InputStream

/-!
# Two connections at the ends of one stream

A connection of a server and one of a client, each on its own loop, with a TCP stream in each
direction between their sockets.  A read delivers the next bytes that the other end has put on
the wire, and reports the end of the stream when the other end has shut its sending side down
and all its bytes were delivered; operations may fail with any other error at any time.

What one end consumes is what the other end was asked to send, as far as sends and reads do not
overlap, and all of it has arrived when the end of the stream is reported, if the other end was
shut down after everything was transferred.
-/

namespace LibNetToy

/-! ## The two ends -/

inductive Side
  | near
  | far
  deriving DecidableEq, Repr

def Side.other : Side → Side
  | .near => .far
  | .far => .near

/-- The other side of the other side. -/
@[simp] theorem Side.other_other (i : Side) : i.other.other = i := by
  cases i <;> rfl

/-- A side is not the other one. -/
theorem Side.other_ne (i : Side) : i.other ≠ i := by
  cases i <;> decide

/-- There are two sides. -/
theorem Side.eq_or_other (i j : Side) : i = j ∨ i = j.other := by
  cases i <;> cases j <;> decide

/-- Two sessions, and at which end the end of the stream was reported. -/
abbrev Link :=
  Parties Side Session (Side → Bool)

namespace Link

/-- What the stream from the other end allows. -/
def allows (l : Link) (i : Side) : SessionEvent → Bool
  | .receive data => decide ((l.party i).received ++ data <+: (l.party i.other).wire)
  | .readFails .eof =>
    decide ((l.party i.other).conn.socket_.sendShutdown = true ∧
      (l.party i).received = (l.party i.other).wire)
  | _ => true

def note (ended : Side → Bool) (i : Side) : SessionEvent → Side → Bool
  | .readFails .eof => Function.update ended i true
  | _ => ended

end Link

/-- All runs of two connected sessions. -/
def linkMachine : Machine Link (Side × SessionEvent) Fault :=
  sessionMachine.parties Link.allows Link.note fun _ => false

namespace TcpConnection

variable {c : TcpConnection} {here : Option LoopId} {eff : Effect}

/-- Only `shutdownInLoop` shuts the sending side down. -/
theorem exec_sendShutdown {t : ConnTask} (h : c.exec here t = .ok eff)
    (ht : t ≠ .shutdownInLoop) :
    eff.conn.socket_.sendShutdown = c.socket_.sendShutdown := by
  cases exec_runs h with
  | shutsDown => exact absurd rfl ht
  | _ => rfl

/-- `shutdownInLoop` shuts the sending side down. -/
theorem exec_shutdownInLoop (h : c.exec here .shutdownInLoop = .ok eff) :
    eff.conn.socket_.sendShutdown = true := by
  cases exec_runs h
  rfl

/-- No call from outside does it by itself. -/
theorem call_sendShutdown {x : ConnCall} (h : c.call here x = .ok eff) :
    eff.conn.socket_.sendShutdown = c.socket_.sendShutdown := by
  cases x with
  | send message =>
    obtain ⟨b, -, rfl⟩ := send_eq_ok.1 h
    rfl
  | shutdown | forceClose | startRead | stopRead =>
    obtain rfl := pure_eq_ok.1 h
    simp only [shutdown, forceClose, startRead, stopRead, runInLoop]
    split_ifs <;> rfl

/-- Nothing is sent after it. -/
theorem transmit_sendShutdown {k : Nat} {stale : List UInt8}
    {r : TcpConnection × List UInt8 × ConnTask} (h : c.transmit k stale = some r) :
    c.socket_.sendShutdown = false := by
  unfold transmit at h
  split at h
  · cases h
  · rename_i region rest hsends
    by_contra hopen
    rw [if_neg fun hcond => hopen hcond.2.2.2] at h
    cases h

end TcpConnection

namespace Session

variable {s s' : Session} {e : SessionEvent}

/-! ## What a step does to the stream -/

/-- Only completions move bytes. -/
theorem stream_step (h : step e s = .ok s') (htransmit : ∀ k stale, e ≠ .transmit k stale)
    (hreceive : ∀ data, e ≠ .receive data) : s'.wire = s.wire ∧ s'.received = s.received := by
  cases e with
  | transmit k stale => exact absurd rfl (htransmit k stale)
  | receive data => exact absurd rfl (hreceive data)
  | dequeue =>
    obtain ⟨f, q, -, -, rfl⟩ := dequeue_eq_ok.1 h
    exact ⟨rfl, rfl⟩
  | run =>
    obtain ⟨t, rest, eff, -, -, -, rfl⟩ := run_eq_ok.1 h
    simp
  | return_ =>
    obtain ⟨k, rest, -, rfl⟩ := return_eq_ok.1 h
    exact ⟨rfl, rfl⟩
  | call x =>
    obtain ⟨-, eff, -, rfl⟩ := call_eq_ok.1 h
    simp
  | callFrom x =>
    obtain ⟨eff, -, rfl⟩ := callFrom_eq_ok.1 h
    simp
  | destroy inline => obtain ⟨-, -, rfl⟩ | ⟨-, rfl⟩ := destroy_eq_ok.1 h <;> exact ⟨rfl, rfl⟩
  | consume len =>
    obtain ⟨-, b, -, rfl⟩ := consume_eq_ok.1 h
    exact ⟨rfl, rfl⟩
  | readFails e =>
    obtain ⟨r, -, rfl⟩ := readFails_eq_ok.1 h
    exact ⟨rfl, rfl⟩
  | sendFails e =>
    obtain ⟨r, -, rfl⟩ := sendFails_eq_ok.1 h
    exact ⟨rfl, rfl⟩

/-- Nothing goes over the wire, or more does while the sending side is open. -/
theorem wire_step (h : step e s = .ok s') :
    s'.wire = s.wire ∨ (s.conn.socket_.sendShutdown = false ∧ s.wire <+: s'.wire) := by
  by_cases htransmit : ∃ k stale, e = .transmit k stale
  · obtain ⟨k, stale, rfl⟩ := htransmit
    obtain ⟨r, hr, rfl⟩ := transmit_eq_ok.1 h
    exact .inr ⟨TcpConnection.transmit_sendShutdown hr, List.prefix_append _ _⟩
  · by_cases hreceive : ∃ data, e = .receive data
    · obtain ⟨data, rfl⟩ := hreceive
      obtain ⟨r, -, rfl⟩ := receive_eq_ok.1 h
      exact .inl rfl
    · exact .inl (stream_step h (fun k stale he => htransmit ⟨k, stale, he⟩)
        fun data he => hreceive ⟨data, he⟩).1

/-- Only a read delivers bytes. -/
theorem received_step (h : step e s = .ok s') :
    s'.received = s.received ∨ ∃ data, e = .receive data ∧ s'.received = s.received ++ data := by
  by_cases hreceive : ∃ data, e = .receive data
  · obtain ⟨data, rfl⟩ := hreceive
    obtain ⟨r, -, rfl⟩ := receive_eq_ok.1 h
    exact .inr ⟨data, rfl, rfl⟩
  · by_cases htransmit : ∃ k stale, e = .transmit k stale
    · obtain ⟨k, stale, rfl⟩ := htransmit
      obtain ⟨r, -, rfl⟩ := transmit_eq_ok.1 h
      exact .inl rfl
    · exact .inl (stream_step h (fun k stale he => htransmit ⟨k, stale, he⟩)
        fun data he => hreceive ⟨data, he⟩).2

/-- A sending side that is shut down stays so. -/
theorem sendShutdown_step (h : step e s = .ok s') (hs : s.conn.socket_.sendShutdown = true) :
    s'.conn.socket_.sendShutdown = true := by
  cases e with
  | run =>
    obtain ⟨t, rest, eff, -, -, he, rfl⟩ := run_eq_ok.1 h
    by_cases ht : t = .shutdownInLoop
    · subst ht
      exact TcpConnection.exec_shutdownInLoop he
    · exact (TcpConnection.exec_sendShutdown he ht).trans hs
  | call x =>
    obtain ⟨-, eff, he, rfl⟩ := call_eq_ok.1 h
    exact (TcpConnection.call_sendShutdown he).trans hs
  | callFrom x =>
    obtain ⟨eff, he, rfl⟩ := callFrom_eq_ok.1 h
    exact (TcpConnection.call_sendShutdown he).trans hs
  | dequeue =>
    obtain ⟨f, q, -, -, rfl⟩ := dequeue_eq_ok.1 h
    exact hs
  | return_ =>
    obtain ⟨k, rest, -, rfl⟩ := return_eq_ok.1 h
    exact hs
  | destroy inline =>
    obtain ⟨-, -, rfl⟩ | ⟨-, rfl⟩ := destroy_eq_ok.1 h <;> exact hs
  | consume len =>
    obtain ⟨-, b, -, rfl⟩ := consume_eq_ok.1 h
    exact hs
  | receive data =>
    obtain ⟨r, hr, rfl⟩ := receive_eq_ok.1 h
    obtain ⟨region, rest, -, -, -, rfl⟩ := TcpConnection.receive_eq_some hr
    exact hs
  | readFails e =>
    obtain ⟨r, hr, rfl⟩ := readFails_eq_ok.1 h
    obtain ⟨region, rest, -, rfl⟩ := TcpConnection.readFails_eq_some hr
    exact hs
  | transmit k stale =>
    obtain ⟨r, hr, rfl⟩ := transmit_eq_ok.1 h
    obtain ⟨region, rest, -, -, -, rfl⟩ := TcpConnection.transmit_eq_some hr
    exact hs
  | sendFails e =>
    obtain ⟨r, hr, rfl⟩ := sendFails_eq_ok.1 h
    obtain ⟨region, rest, -, rfl⟩ := TcpConnection.sendFails_eq_some hr
    exact hs

/-! ## Shutting down when everything was transferred -/

/-- The whole output is on the wire and nothing is sent any more. -/
structure Complete (s : Session) : Prop where
  idle : ¬ s.Sending
  wire_eq : s.wire = s.accepted

/-- What leaves the wire and the accepted bytes alone leaves them complete. -/
theorem Complete.frame (h : s.Complete) (hstate : s'.conn.state_ = s.conn.state_)
    (hwire : s'.wire = s.wire) (haccepted : s'.accepted = s.accepted) : s'.Complete := by
  refine ⟨?_, by rw [hwire, haccepted, h.wire_eq]⟩
  unfold Sending
  rw [hstate]
  exact h.idle

/-- So does a call that sends nothing. -/
theorem Complete.call (h : s.Complete) {x : ConnCall} {here : Option LoopId} {eff : Effect}
    (hx : ∀ message, x = .send message → s.Sending) (he : s.conn.call here x = .ok eff) :
    ((s.noteCall x).apply eff).Complete := by
  have haccepted : (s.noteCall x).accepted = s.accepted := by
    cases x with
    | send message => exact absurd (hx message rfl) h.idle
    | shutdown | forceClose | startRead | stopRead => rfl
  refine ⟨?_, by simp [haccepted, h.wire_eq]⟩
  rintro (hc | hc)
  · obtain ⟨-, hnew, -⟩ | hnew := TcpConnection.call_state he
    · cases hc.symm.trans hnew
    · exact h.idle (.inl (hnew.symm.trans hc))
  · obtain ⟨-, hnew, -⟩ | hnew := TcpConnection.call_state he
    · cases hc.symm.trans hnew
    · exact h.idle (.inr (hnew.symm.trans hc))

/-- A connection that is about to shut its sending side down has everything on the wire. -/
theorem complete_of_shuts (hout : Outgoing s) (hshut : ShutdownDrained s)
    (hpos : 0 < weigh shuts s.tasks) : s.Complete := by
  obtain ⟨hidle, hdrained⟩ := hshut hpos
  refine ⟨hidle, ?_⟩
  have hle := hdrained.1
  rw [hout.length_content] at hle
  rw [hout.wire_eq]
  apply List.take_of_length_le
  omega

/-- Once the sending side is shut down, the whole output is on the wire. -/
structure Sealed (s : Session) : Prop where
  outgoing : Outgoing s
  drained : ShutdownDrained s
  complete : s.conn.socket_.sendShutdown = true → s.Complete

/-- The output is complete when `shutdownInLoop` runs, and stays so. -/
theorem Sealed.run (h : s.Sealed) {t : ConnTask} {rest : List ConnTask} {eff : Effect}
    (hs : s.stack = t :: rest) (he : s.conn.exec (some s.conn.loop_) t = .ok eff)
    (hshut : eff.conn.socket_.sendShutdown = true) :
    ((noteTask { s with stack := rest } t).apply eff).Complete := by
  have hcomplete : s.Complete := by
    by_cases ht : t = .shutdownInLoop
    · subst ht
      refine complete_of_shuts h.outgoing h.drained ?_
      rw [tasks_cons hs, weigh_cons]
      exact Nat.lt_of_lt_of_le Nat.one_pos (Nat.le_add_right _ _)
    · exact h.complete ((TcpConnection.exec_sendShutdown he ht).symm.trans hshut)
  exact ⟨not_sending_run hcomplete.idle he, by simpa using hcomplete.wire_eq⟩

/-- Every event of a run in which `shutdown` is called late. -/
theorem Sealed.step (h : s.Sealed) (hC : ShutsDownLate s e) (hstep : Session.step e s = .ok s') :
    s'.Sealed := by
  refine ⟨h.outgoing.step ?_ hstep, h.drained.step h.outgoing.valid hC hstep, ?_⟩
  · rintro message (rfl | rfl)
    · exact hC.2
    · exact hC.2
  intro hshut
  cases e with
  | run =>
    obtain ⟨t, rest, eff, hs, -, he, rfl⟩ := run_eq_ok.1 hstep
    exact h.run hs he hshut
  | call x =>
    obtain ⟨-, eff, he, rfl⟩ := call_eq_ok.1 hstep
    refine (h.complete ((TcpConnection.call_sendShutdown he).symm.trans hshut)).call ?_ he
    rintro message rfl
    exact hC.1
  | callFrom x =>
    obtain ⟨eff, he, rfl⟩ := callFrom_eq_ok.1 hstep
    refine (h.complete ((TcpConnection.call_sendShutdown he).symm.trans hshut)).call ?_ he
    rintro message rfl
    exact hC.1
  | transmit k stale =>
    obtain ⟨r, hr, rfl⟩ := transmit_eq_ok.1 hstep
    have hopen := TcpConnection.transmit_sendShutdown hr
    obtain ⟨region, rest, -, -, -, rfl⟩ := TcpConnection.transmit_eq_some hr
    rw [show s.conn.socket_.sendShutdown = true from hshut] at hopen
    cases hopen
  | dequeue =>
    obtain ⟨f, q, -, -, rfl⟩ := dequeue_eq_ok.1 hstep
    exact (h.complete hshut).frame rfl rfl rfl
  | return_ =>
    obtain ⟨k, rest, -, rfl⟩ := return_eq_ok.1 hstep
    exact (h.complete hshut).frame rfl rfl rfl
  | destroy inline =>
    obtain ⟨-, -, rfl⟩ | ⟨-, rfl⟩ := destroy_eq_ok.1 hstep <;>
      exact (h.complete hshut).frame rfl rfl rfl
  | consume len =>
    obtain ⟨-, b, -, rfl⟩ := consume_eq_ok.1 hstep
    exact (h.complete hshut).frame rfl rfl rfl
  | receive data =>
    obtain ⟨r, hr, rfl⟩ := receive_eq_ok.1 hstep
    obtain ⟨region, rest, -, -, -, rfl⟩ := TcpConnection.receive_eq_some hr
    exact (h.complete hshut).frame rfl rfl rfl
  | readFails e =>
    obtain ⟨r, hr, rfl⟩ := readFails_eq_ok.1 hstep
    obtain ⟨region, rest, -, rfl⟩ := TcpConnection.readFails_eq_some hr
    exact (h.complete hshut).frame rfl rfl rfl
  | sendFails e =>
    obtain ⟨r, hr, rfl⟩ := sendFails_eq_ok.1 hstep
    obtain ⟨region, rest, -, rfl⟩ := TcpConnection.sendFails_eq_some hr
    exact (h.complete hshut).frame rfl rfl rfl

/-- In every run of late shutdowns the output is sealed. -/
theorem sealed_of_late (hs : sessionMachine.ReachableUnder ShutsDownLate s) : s.Sealed := by
  refine hs.invariant (I := Sealed) ?_ fun _ _ _ h hC hstep => h.step hC hstep
  rintro _ ⟨loop, name, m, w, rfl⟩
  refine ⟨outgoing_initial loop name m w, ?_, nofun⟩
  intro hpos
  exact absurd hpos (Nat.lt_irrefl 0)

end Session

namespace Link

open Session

variable {l l' : Link} {i : Side}

/-! ## The stream between the ends -/

/-- One direction of the stream. -/
structure Channel (sender receiver : Session) (ended : Bool) : Prop where
  received : receiver.received <+: sender.wire
  ended : ended = true →
    sender.conn.socket_.sendShutdown = true ∧ receiver.received = sender.wire

/-- A step of the sender. -/
theorem Channel.send {sender sender' receiver : Session} {ended : Bool} {e : SessionEvent}
    (h : Channel sender receiver ended) (hstep : Session.step e sender = .ok sender') :
    Channel sender' receiver ended := by
  refine ⟨?_, ?_⟩
  · obtain hwire | ⟨-, hwire⟩ := wire_step hstep
    · rw [hwire]
      exact h.received
    · exact h.received.trans hwire
  · intro hended
    obtain ⟨hshut, heq⟩ := h.ended hended
    refine ⟨sendShutdown_step hstep hshut, ?_⟩
    obtain hwire | ⟨hopen, -⟩ := wire_step hstep
    · rw [hwire]
      exact heq
    · rw [hshut] at hopen
      cases hopen

/-- A step of the receiver that the stream allows. -/
theorem Channel.receive {s' : Session} {e : SessionEvent}
    (h : Channel (l.party i.other) (l.party i) (l.between i)) (hallows : l.allows i e = true)
    (hstep : Session.step e (l.party i) = .ok s') :
    Channel (l.party i.other) s' (note l.between i e i) := by
  obtain hsame | ⟨data, rfl, hmore⟩ := received_step hstep
  · refine ⟨by rw [hsame]; exact h.received, ?_⟩
    rw [hsame]
    intro hended
    by_cases he : e = .readFails .eof
    · subst he
      exact of_decide_eq_true hallows
    · have hnote : note l.between i e = l.between := by
        unfold note
        split
        · exact absurd rfl he
        · rfl
      rw [hnote] at hended
      exact h.ended hended
  · have hprefix : (l.party i).received ++ data <+: (l.party i.other).wire :=
      of_decide_eq_true hallows
    refine ⟨by rw [hmore]; exact hprefix, ?_⟩
    intro hended
    obtain ⟨hshut, heq⟩ := h.ended hended
    refine ⟨hshut, ?_⟩
    -- nothing is left to deliver
    rw [heq] at hprefix
    have hle := hprefix.length_le
    rw [List.length_append] at hle
    have hnil : data = [] := List.eq_nil_of_length_eq_zero (by omega)
    rw [hmore, hnil, List.append_nil, heq]

/-- What happens at one end is not noted at the other. -/
theorem note_of_ne {ended : Side → Bool} {i j : Side} {e : SessionEvent} (hij : i ≠ j) :
    note ended i e j = ended j := by
  unfold note
  split
  · exact Function.update_of_ne hij.symm _ _
  · rfl

/-- Both directions of the stream, in every run. -/
theorem channel_of_reachable {C : Link → Side × SessionEvent → Prop}
    (h : linkMachine.ReachableUnder C l) (i : Side) :
    Channel (l.party i.other) (l.party i) (l.between i) := by
  refine h.invariant (I := fun l => ∀ i, Channel (l.party i.other) (l.party i) (l.between i))
    ?_ ?_ i
  · rintro l ⟨hinit, hstart⟩ i
    obtain ⟨loop, name, m, w, hi⟩ := hinit i
    refine ⟨by rw [hi]; exact List.nil_prefix, ?_⟩
    rw [hstart]
    exact nofun
  · rintro l ⟨j, e⟩ l' h - hstep i
    obtain ⟨hallows, s', hs', rfl⟩ := Machine.parties_step_eq_ok.1 hstep
    obtain rfl | rfl := Side.eq_or_other i j
    · have hother : Function.update l.party i s' i.other = l.party i.other :=
        Function.update_of_ne i.other_ne _ _
      simp only [Function.update_self, hother]
      exact (h i).receive hallows hs'
    · have hother : Function.update l.party j s' j.other = l.party j.other :=
        Function.update_of_ne j.other_ne _ _
      have hchannel := h j.other
      rw [Side.other_other] at hchannel
      simp only [Side.other_other, Function.update_self, hother, note_of_ne j.other_ne.symm]
      exact hchannel.send hs'

/-! ## The results -/

/-- At both ends sends and reads do not overlap. -/
def Serial (l : Link) (e : Side × SessionEvent) : Prop :=
  SerialSends (l.party e.1) e.2 ∧ SerialReads (l.party e.1) e.2

/-- Besides, each end is shut down only when everything was transferred, and sends nothing after
that. -/
def Late (l : Link) (e : Side × SessionEvent) : Prop :=
  ShutsDownLate (l.party e.1) e.2 ∧ SerialReads (l.party e.1) e.2

instance (l : Link) (e : Side × SessionEvent) : Decidable (l.Serial e) :=
  inferInstanceAs (Decidable (_ ∧ _))

instance (l : Link) (e : Side × SessionEvent) : Decidable (l.Late e) :=
  inferInstanceAs (Decidable (_ ∧ _))

/-- What was consumed at one end and what is to be read next there. -/
def delivered (l : Link) (i : Side) : List UInt8 :=
  (l.party i).consumed ++ (l.party i).conn.inputBuffer_.content ++ (l.party i).unhandled

/-- In every run without overlapping sends and reads, each end has been delivered a prefix of
what the other end put on the wire, and that is a prefix of what the other end was asked to
send. -/
theorem delivered_isPrefix (h : linkMachine.ReachableUnder Serial l) (i : Side) :
    l.delivered i <+: (l.party i.other).wire ∧
      (l.party i.other).wire <+: (l.party i.other).accepted := by
  have hparty : ∀ j, sessionMachine.ReachableUnder
      (fun s e => SerialSends s e ∧ SerialReads s e) (l.party j) :=
    Machine.ReachableUnder.party (C := fun _ s e => SerialSends s e ∧ SerialReads s e) h
  have hin : Incoming (l.party i) :=
    incoming_of_serialReads ((hparty i).mono fun _ _ hC => hC.2)
  have hout : Outgoing (l.party i.other) := by
    refine (hparty i.other).invariant (I := Outgoing) ?_ ?_
    · rintro _ ⟨loop, name, m, w, rfl⟩
      exact outgoing_initial loop name m w
    · intro s e s' hs hC hstep
      refine hs.step ?_ hstep
      rintro message (rfl | rfl)
      · exact hC.1
      · exact hC.1
  refine ⟨?_, hout.integrity.wire_isPrefix⟩
  have hreceived := (channel_of_reachable h i).received
  rw [← hin.stream] at hreceived
  exact hreceived

/-- Two new sessions with message callbacks. -/
def initial : Link where
  party _ := Session.initial 0 [] true false
  between _ := false

/-- Two new sessions are a new link. -/
theorem initial_init : linkMachine.init initial :=
  ⟨fun _ => ⟨_, _, _, _, rfl⟩, rfl⟩

/-- The near end sends a message in two parts, of which the first has arrived. -/
theorem delivered_isPrefix_part : ∃ l : Link,
    ((l.party .far).consumed = [1] ∧ (l.party .near).accepted = [1, 2, 3]) ∧
    l.delivered .far <+: (l.party Side.far.other).wire ∧
      (l.party Side.far.other).wire <+: (l.party Side.far.other).accepted := by
  obtain ⟨l, hl, hseen⟩ := Machine.exists_of_run (M := linkMachine) (C := Serial) initial_init
    (l := [(.near, .run), (.near, .run), (.near, .call (.send ⟨[1, 2, 3], by decide⟩)),
      (.far, .run), (.far, .run), (.far, .return_), (.far, .run), (.far, .run),
      (.near, .transmit 2 [0, 0]), (.far, .receive [1]), (.far, .dequeue), (.far, .run),
      (.far, .run), (.far, .consume 1)])
    (f := fun l => ((l.party .far).consumed, (l.party .near).accepted))
    (a := ([1], [1, 2, 3])) (by decide +kernel)
  exact ⟨l, Prod.mk.inj hseen, delivered_isPrefix hl .far⟩

end Link

end LibNetToy
