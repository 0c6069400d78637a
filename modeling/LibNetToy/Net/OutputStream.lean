import LibNetToy.Net.Session

/-!
# The output stream of a connection

`send` appends to `outputBuffer_` and starts an `async_send` over all its readable bytes,
also those an operation that is still under way was given.  When no two operations overlap
the bytes on the wire are a prefix of the accepted ones, the buffer holds exactly the bytes
not yet acknowledged, and `retrieve` in `writeHandler` is always within bounds.  Two calls of
`send` in one callback already put bytes on the wire twice.
-/

namespace LibNetToy

open Memory

namespace Session

/-! ## Bytes under way -/

/-- The bytes a task will acknowledge. -/
def ackOf : ConnTask → Nat
  | .writeHandler none n => n
  | _ => 0

/-- No byte is under way: the outstanding operations have empty regions and no pending
`writeHandler` has anything to acknowledge. -/
def Quiet (s : Session) : Prop :=
  (∀ r ∈ s.conn.socket_.sends, r.len = 0) ∧ weigh ackOf s.tasks = 0

instance (s : Session) : Decidable s.Quiet :=
  inferInstanceAs (Decidable (_ ∧ _))

/-- No send ends with an error. -/
def NoWriteError (_ : Session) : SessionEvent → Prop
  | .sendFails _ => False
  | _ => True

/-- `send` is called only when no byte is under way. -/
def SerialSends (s : Session) : SessionEvent → Prop
  | .call (.send _) => s.Quiet
  | .callFrom (.send _) => s.Quiet
  | _ => True

instance (s : Session) (l : SessionEvent) : Decidable (NoWriteError s l) :=
  match l with
  | .sendFails _ => isFalse id
  | .call _ | .callFrom _ | .transmit _ _ | .dequeue | .run | .return_ | .destroy _ | .consume _
  | .receive _ | .readFails _ => isTrue trivial

instance (s : Session) (l : SessionEvent) : Decidable (SerialSends s l) :=
  match l with
  | .call (.send _) | .callFrom (.send _) => inferInstanceAs (Decidable s.Quiet)
  | .call .shutdown | .call .forceClose | .call .startRead | .call .stopRead
  | .callFrom .shutdown | .callFrom .forceClose | .callFrom .startRead | .callFrom .stopRead
  | .transmit _ _ | .dequeue | .run | .return_ | .destroy _ | .consume _ | .receive _
  | .readFails _ | .sendFails _ => isTrue trivial

/-- The integrity of the output: what is on the wire is a prefix of what was accepted, the
buffer holds what is not acknowledged, and the next `writeHandler` retrieves no more than is
there. -/
structure OutputIntegrity (s : Session) : Prop where
  wire_isPrefix : s.wire <+: s.accepted
  content_eq : s.conn.outputBuffer_.content = s.accepted.drop s.acknowledged
  retrieve_le : ∀ k rest, s.stack = .writeHandler none k :: rest →
    k ≤ s.conn.outputBuffer_.readableBytes

/-! ## Counting acknowledgements -/

/-- Only a successful `writeHandler` acknowledges bytes. -/
theorem ackOf_eq_zero {t : ConnTask} (ht : ∀ n, t ≠ .writeHandler none n) : ackOf t = 0 := by
  cases t with
  | writeHandler error n =>
    cases error with
    | none => exact absurd rfl (ht n)
    | some e => rfl
  | _ => rfl

/-- Tasks that are not completion handlers acknowledge nothing. -/
theorem weigh_ackOf_eq_zero {ts : List ConnTask} (h : ∀ t ∈ ts, t.isHandler = false) :
    weigh ackOf ts = 0 := by
  apply weigh_eq_zero.2
  intro t ht
  apply ackOf_eq_zero
  intro n hn
  have hhandler := h t ht
  rw [hn] at hhandler
  cases hhandler

/-- Running a task acknowledges its bytes. -/
theorem noteTask_acknowledged (s : Session) (t : ConnTask) :
    (s.noteTask t).acknowledged = s.acknowledged + ackOf t := by
  unfold noteTask
  split
  · rfl
  · rfl
  · rfl
  · rename_i h _ _
    rw [ackOf_eq_zero fun n hn => h n hn, Nat.add_zero]

/-! ## The invariant -/

/-- The output side of a session in which operations do not overlap: at most the newest
operation has a region that is not empty, and it is the whole readable region. -/
structure Outgoing (s : Session) : Prop where
  valid : s.conn.outputBuffer_.Valid
  content_eq : s.conn.outputBuffer_.content = s.accepted.drop s.acknowledged
  wire_eq : s.wire = s.accepted.take (s.acknowledged + weigh ackOf s.tasks)
  acks_le : s.acknowledged + weigh ackOf s.tasks ≤ s.accepted.length
  serial : (∀ r ∈ s.conn.socket_.sends, r.len = 0) ∨
    (weigh ackOf s.tasks = 0 ∧ ∃ front, (∀ r ∈ front, r.len = 0) ∧
      s.conn.socket_.sends = front ++ [s.conn.outputBuffer_.readRegion])

variable {s s' : Session}

/-- The invariant speaks about the output side only. -/
theorem Outgoing.frame (h : Outgoing s)
    (hbuffer : s'.conn.outputBuffer_ = s.conn.outputBuffer_)
    (hsends : s'.conn.socket_.sends = s.conn.socket_.sends) (hwire : s'.wire = s.wire)
    (haccepted : s'.accepted = s.accepted) (hack : s'.acknowledged = s.acknowledged)
    (hacks : weigh ackOf s'.tasks = weigh ackOf s.tasks) : Outgoing s' := by
  obtain ⟨hvalid, hcontent, hw, hle, hserial⟩ := h
  constructor
  · rw [hbuffer]
    exact hvalid
  · rw [hbuffer, haccepted, hack]
    exact hcontent
  · rw [hwire, haccepted, hack, hacks]
    exact hw
  · rw [haccepted, hack, hacks]
    exact hle
  · rw [hbuffer, hsends, hacks]
    exact hserial

/-- The unacknowledged bytes are as many as the buffer holds. -/
theorem Outgoing.length_content (h : Outgoing s) :
    s.conn.outputBuffer_.content.length = s.accepted.length - s.acknowledged := by
  rw [h.content_eq, List.length_drop]

/-- What is acknowledged next is in the buffer. -/
theorem Outgoing.acks_le_content (h : Outgoing s) :
    weigh ackOf s.tasks ≤ s.conn.outputBuffer_.content.length := by
  have hle := h.acks_le
  rw [h.length_content]
  omega

theorem Outgoing.integrity (h : Outgoing s) : OutputIntegrity s := by
  refine ⟨?_, h.content_eq, ?_⟩
  · rw [h.wire_eq]
    exact List.take_prefix _ _
  · intro k rest hs
    have hk : k ≤ weigh ackOf s.tasks := by
      rw [tasks_cons hs, weigh_cons]
      exact Nat.le_add_right _ _
    rw [Buffer.readableBytes_eq_length h.valid]
    exact Nat.le_trans hk h.acks_le_content

/-! ## What the events keep -/

/-- A send over a quiet connection. -/
theorem Outgoing.send (h : Outgoing s) (hquiet : s.Quiet) {message : StdString} {eff : Effect}
    (he : s.conn.send message = .ok eff) :
    Outgoing ((s.noteCall (.send message)).apply eff) := by
  obtain ⟨b, hb, rfl⟩ := TcpConnection.send_eq_ok.1 he
  obtain ⟨hempty, hacks⟩ := hquiet
  have hno := Buffer.noOverflow_of_le h.valid message.length_le
  have hle := h.acks_le
  have hwire := h.wire_eq
  rw [hacks, Nat.add_zero] at hle hwire
  rcases Buffer.append_cases h.valid hno with ⟨b', hb', hvalid, hcontent⟩ | ⟨herr, -⟩
  · rw [hb] at hb'
    obtain rfl := Except.ok.inj hb'
    have htasks : weigh ackOf ((s.noteCall (.send message)).apply
        ⟨{ s.conn with
          outputBuffer_ := b
          socket_ := { s.conn.socket_ with sends := s.conn.socket_.sends ++ [b.readRegion] } },
          [], []⟩).tasks = 0 := by
      rw [weigh_apply]
      exact hacks
    refine ⟨hvalid, ?_, ?_, ?_, ?_⟩
    · show b.content = (s.accepted ++ message.bytes).drop s.acknowledged
      rw [hcontent, h.content_eq, List.drop_append_of_le_length hle]
    · rw [htasks]
      show s.wire = (s.accepted ++ message.bytes).take s.acknowledged
      rw [List.take_append_of_le_length hle]
      exact hwire
    · rw [htasks]
      show s.acknowledged ≤ (s.accepted ++ message.bytes).length
      rw [List.length_append]
      exact Nat.le_trans hle (Nat.le_add_right _ _)
    · right
      exact ⟨htasks, s.conn.socket_.sends, hempty, rfl⟩
  · rw [hb] at herr
    cases herr

/-- Retrieving nothing leaves the readable region as it is, or empty. -/
theorem retrieve_zero {b b' : Buffer} (hv : b.Valid) (h : b.retrieve 0 = .ok b') :
    b'.readRegion = b.readRegion ∨ b.readRegion.len = 0 := by
  have hr := hv.reader_le
  rw [Buffer.retrieve_eq hv (Nat.zero_le _)] at h
  split_ifs at h with hlt
  · obtain rfl := Except.ok.inj h
    exact Or.inl rfl
  · right
    show b.readableBytes = 0
    rw [Buffer.readableBytes_eq hv]
    exact Nat.eq_zero_of_not_pos hlt

/-- A `writeHandler` without an error acknowledges bytes of the front of the buffer. -/
theorem Outgoing.acknowledge (h : Outgoing s) {k : Nat} {rest : List ConnTask} {eff : Effect}
    (hs : s.stack = .writeHandler none k :: rest)
    (he : s.conn.writeHandler none k = .ok eff) :
    Outgoing ((noteTask { s with stack := rest } (.writeHandler none k)).apply eff) := by
  obtain ⟨pending, hpending⟩ : ∃ n, weigh ackOf { s with stack := rest }.tasks = n := ⟨_, rfl⟩
  have htasks : weigh ackOf s.tasks = k + pending := by
    rw [tasks_cons hs, weigh_cons, hpending]
    rfl
  have hnew : weigh ackOf
      ((noteTask { s with stack := rest } (.writeHandler none k)).apply eff).tasks = pending := by
    have hexec : s.conn.exec (some s.conn.loop_) (.writeHandler none k) = .ok eff := he
    rw [weigh_apply, weigh_ackOf_eq_zero (TcpConnection.exec_tasks hexec), ← hpending]
    rfl
  have hle := h.acks_le
  have hwire := h.wire_eq
  rcases TcpConnection.writeHandler_eq_ok.1 he with ⟨-, b, hb, rfl⟩ | ⟨hne, -⟩
  · obtain ⟨-, hvalid, hcontent, -⟩ := Buffer.retrieve_spec h.valid hb
    refine ⟨hvalid, ?_, ?_, ?_, ?_⟩
    · show b.content = s.accepted.drop (s.acknowledged + k)
      rw [hcontent, h.content_eq, List.drop_drop]
    · rw [hnew]
      show s.wire = s.accepted.take (s.acknowledged + k + pending)
      rw [hwire, htasks, Nat.add_assoc]
    · rw [hnew]
      show s.acknowledged + k + pending ≤ s.accepted.length
      rw [htasks] at hle
      omega
    · rw [hnew]
      show (∀ r ∈ s.conn.socket_.sends, r.len = 0) ∨ (_ ∧ ∃ front, _ ∧
        s.conn.socket_.sends = front ++ [b.readRegion])
      rcases h.serial with hempty | ⟨hzero, front, hfront, hsends⟩
      · exact Or.inl hempty
      · rw [htasks] at hzero
        obtain ⟨rfl, hzero⟩ := Nat.eq_zero_of_add_eq_zero hzero
        rcases retrieve_zero h.valid hb with hsame | hlen
        · right
          refine ⟨by rw [← hzero, Nat.zero_add], front, hfront, ?_⟩
          rw [hsame]
          exact hsends
        · left
          intro r hr
          rw [hsends, List.mem_append, List.mem_singleton] at hr
          rcases hr with hr | rfl
          · exact hfront r hr
          · exact hlen
  · exact absurd rfl hne

/-- The oldest send has an empty region, or is the only one and covers the readable bytes, and
nothing waits to be acknowledged. -/
theorem Outgoing.oldest (h : Outgoing s) {region : Region} {rest : List Region}
    (hsends : s.conn.socket_.sends = region :: rest) :
    (region.len = 0 ∧ ((∀ r ∈ rest, r.len = 0) ∨ (weigh ackOf s.tasks = 0 ∧ ∃ front,
      (∀ r ∈ front, r.len = 0) ∧ rest = front ++ [s.conn.outputBuffer_.readRegion]))) ∨
    (region = s.conn.outputBuffer_.readRegion ∧ rest = [] ∧ weigh ackOf s.tasks = 0) := by
  rcases h.serial with hempty | ⟨hzero, front, hfront, heq⟩
  · rw [hsends] at hempty
    refine Or.inl ⟨hempty region (List.mem_cons_self ..), Or.inl ?_⟩
    intro r hr
    exact hempty r (List.mem_cons_of_mem _ hr)
  · rw [hsends] at heq
    rcases front with _ | ⟨first, front⟩
    · obtain ⟨hregion, hrest⟩ := List.cons.inj heq
      exact Or.inr ⟨hregion, hrest, hzero⟩
    · obtain ⟨rfl, hrest⟩ := List.cons.inj heq
      refine Or.inl ⟨hfront region (List.mem_cons_self ..), Or.inr ⟨hzero, front, ?_, hrest⟩⟩
      intro r hr
      exact hfront r (List.mem_cons_of_mem _ hr)

/-- A transfer continues the wire with bytes of the front of the buffer. -/
theorem Outgoing.transmit (h : Outgoing s) {k : Nat} {stale : List UInt8}
    {r : TcpConnection × List UInt8 × ConnTask} (hr : s.conn.transmit k stale = some r) :
    Outgoing { s.complete (r.1, r.2.2) with wire := s.wire ++ r.2.1 } := by
  obtain ⟨region, rest, hsends, hk, hstale, rfl⟩ := TcpConnection.transmit_eq_some hr
  have hacks : ∀ w, weigh ackOf ({ s.complete
      ({ s.conn with socket_ := { s.conn.socket_ with sends := rest } },
        .writeHandler none k) with wire := w } : Session).tasks = weigh ackOf s.tasks + k := by
    intro w
    exact weigh_complete ackOf s _ (.writeHandler none k)
  have hle := h.acks_le
  have hwire := h.wire_eq
  rcases h.oldest hsends with ⟨hlen, hserial⟩ | ⟨rfl, rfl, hzero⟩
  · -- nothing is transferred for an empty region
    obtain rfl : k = 0 := by omega
    have hnil : (if region.size = s.conn.outputBuffer_.buffer_.length
        then slice s.conn.outputBuffer_.buffer_ region.off (region.off + 0) else stale) = [] := by
      split_ifs
      · exact slice_eq_nil le_rfl
      · exact List.eq_nil_of_length_eq_zero hstale
    refine ⟨h.valid, h.content_eq, ?_, ?_, ?_⟩
    · rw [hacks]
      show s.wire ++ _ = _
      rw [hnil, List.append_nil]
      exact hwire
    · rw [hacks]
      exact hle
    · rw [hacks]
      exact hserial
  · -- the region is the whole readable region
    have hk' : k ≤ s.conn.outputBuffer_.content.length := by
      rw [← Buffer.readableBytes_eq_length h.valid]
      exact hk
    have hsent : slice s.conn.outputBuffer_.buffer_ s.conn.outputBuffer_.readerIndex_
        (s.conn.outputBuffer_.readerIndex_ + k) = (s.accepted.drop s.acknowledged).take k := by
      have hvalid := h.valid
      have hreader := hvalid.reader_le
      rw [Buffer.length_content hvalid] at hk'
      rw [← h.content_eq, Buffer.content, take_slice (by omega)]
    rw [hzero, Nat.add_zero] at hle hwire
    rw [h.length_content] at hk'
    refine ⟨h.valid, h.content_eq, ?_, ?_, ?_⟩
    · rw [hacks, hzero, Nat.zero_add]
      have hfresh : (if s.conn.outputBuffer_.readRegion.size = s.conn.outputBuffer_.buffer_.length
          then slice s.conn.outputBuffer_.buffer_ s.conn.outputBuffer_.readerIndex_
            (s.conn.outputBuffer_.readerIndex_ + k) else stale) =
          (s.accepted.drop s.acknowledged).take k :=
        (if_pos rfl).trans hsent
      show s.wire ++ _ = s.accepted.take (s.acknowledged + k)
      rw [List.take_add, ← hwire, ← hfresh]
      rfl
    · rw [hacks, hzero]
      show s.acknowledged + _ ≤ s.accepted.length
      omega
    · left
      intro r hr
      cases hr

/-- Running a task. -/
theorem Outgoing.run (h : Outgoing s) {t : ConnTask} {rest : List ConnTask} {eff : Effect}
    (hs : s.stack = t :: rest) (he : s.conn.exec (some s.conn.loop_) t = .ok eff) :
    Outgoing ((noteTask { s with stack := rest } t).apply eff) := by
  by_cases ht : ∃ n, t = .writeHandler none n
  · obtain ⟨n, rfl⟩ := ht
    exact h.acknowledge hs he
  · have ht' : ∀ n, t ≠ .writeHandler none n := fun n hn => ht ⟨n, hn⟩
    obtain ⟨hbuffer, hsends⟩ := TcpConnection.exec_output he ht'
    have hack : (noteTask { s with stack := rest } t).acknowledged = s.acknowledged := by
      rw [noteTask_acknowledged, ackOf_eq_zero ht']
      rfl
    have hacks : weigh ackOf ((noteTask { s with stack := rest } t).apply eff).tasks =
        weigh ackOf s.tasks := by
      have hrun := weigh_run ackOf hs eff
      rw [ackOf_eq_zero ht', weigh_ackOf_eq_zero (TcpConnection.exec_tasks he)] at hrun
      omega
    apply h.frame hbuffer hsends
    · simp
    · simp
    · exact hack
    · exact hacks

/-- A call other than `send`. -/
theorem Outgoing.call (h : Outgoing s) {x : ConnCall} {here : Option LoopId} {eff : Effect}
    (hx : ∀ message, x ≠ .send message) (he : s.conn.call here x = .ok eff) :
    Outgoing ((s.noteCall x).apply eff) := by
  obtain ⟨hbuffer, hsends⟩ := TcpConnection.call_output he hx
  have hnote : s.noteCall x = s := by
    cases x with
    | send message => exact absurd rfl (hx message)
    | _ => rfl
  rw [hnote]
  have hacks : weigh ackOf (s.apply eff).tasks = weigh ackOf s.tasks := by
    rw [weigh_apply, weigh_ackOf_eq_zero (TcpConnection.call_tasks he), Nat.add_zero]
  exact h.frame hbuffer hsends rfl rfl rfl hacks

/-- A send that fails transfers nothing, and its bytes stay in the buffer. -/
theorem Outgoing.sendFails (h : Outgoing s) {e : ErrorCode} {r : TcpConnection × ConnTask}
    (hr : s.conn.sendFails e = some r) : Outgoing (s.complete r) := by
  obtain ⟨region, rest, hsends, rfl⟩ := TcpConnection.sendFails_eq_some hr
  have hacks : weigh ackOf (s.complete
      ({ s.conn with socket_ := { s.conn.socket_ with sends := rest } },
        .writeHandler (some e) 0)).tasks = weigh ackOf s.tasks :=
    weigh_complete ackOf s _ (.writeHandler (some e) 0)
  refine ⟨h.valid, h.content_eq, ?_, ?_, ?_⟩
  · rw [hacks]
    exact h.wire_eq
  · rw [hacks]
    exact h.acks_le
  · rw [hacks]
    rcases h.serial with hempty | ⟨hzero, front, hfront, heq⟩
    · left
      intro r hr
      exact hempty r (by rw [hsends]; exact List.mem_cons_of_mem _ hr)
    · rw [hsends] at heq
      rcases front with _ | ⟨first, front⟩
      · obtain ⟨-, rfl⟩ := List.cons.inj heq
        left
        intro r hr
        cases hr
      · obtain ⟨-, rfl⟩ := List.cons.inj heq
        exact Or.inr ⟨hzero, front, fun r hr => hfront r (List.mem_cons_of_mem _ hr), rfl⟩

/-- Every event keeps the invariant, if `send` is called while no byte is under way. -/
theorem Outgoing.step (h : Outgoing s) {l : SessionEvent}
    (hC : ∀ message, l = .call (.send message) ∨ l = .callFrom (.send message) → s.Quiet)
    (hl : Session.step l s = .ok s') : Outgoing s' := by
  cases l with
  | dequeue =>
    obtain ⟨f, q, hs, hq, rfl⟩ := dequeue_eq_ok.1 hl
    exact h.frame rfl rfl rfl rfl rfl (congrArg (weigh ackOf) (tasks_dequeue hs hq))
  | run =>
    obtain ⟨t, rest, e, hs, -, he, rfl⟩ := run_eq_ok.1 hl
    exact h.run hs he
  | return_ =>
    obtain ⟨k, rest, hs, rfl⟩ := return_eq_ok.1 hl
    have hacks : weigh ackOf { s with stack := rest }.tasks = weigh ackOf s.tasks := by
      rw [tasks_cons hs, weigh_cons, ackOf_eq_zero (by simp), Nat.zero_add]
    exact h.frame rfl rfl rfl rfl rfl hacks
  | call x =>
    obtain ⟨-, e, he, rfl⟩ := call_eq_ok.1 hl
    cases x with
    | send message => exact h.send (hC message (Or.inl rfl)) he
    | _ => exact h.call (by simp) he
  | callFrom x =>
    obtain ⟨e, he, rfl⟩ := callFrom_eq_ok.1 hl
    cases x with
    | send message => exact h.send (hC message (Or.inr rfl)) he
    | _ => exact h.call (by simp) he
  | destroy inline =>
    rcases destroy_eq_ok.1 hl with ⟨-, -, rfl⟩ | ⟨-, rfl⟩
    · exact h.frame rfl rfl rfl rfl rfl (by simp [tasks, ackOf])
    · exact h.frame rfl rfl rfl rfl rfl (by simp [tasks, Functor.body, ackOf])
  | consume len =>
    obtain ⟨-, b, -, rfl⟩ := consume_eq_ok.1 hl
    exact h.frame rfl rfl rfl rfl rfl rfl
  | receive data =>
    obtain ⟨r, hr, rfl⟩ := receive_eq_ok.1 hl
    obtain ⟨region, rest, -, -, -, rfl⟩ := TcpConnection.receive_eq_some hr
    exact h.frame rfl rfl rfl rfl rfl (weigh_complete ackOf s _ (.readHandler none data.length))
  | readFails e =>
    obtain ⟨r, hr, rfl⟩ := readFails_eq_ok.1 hl
    obtain ⟨region, rest, -, rfl⟩ := TcpConnection.readFails_eq_some hr
    exact h.frame rfl rfl rfl rfl rfl (weigh_complete ackOf s _ (.readHandler (some e) 0))
  | transmit k stale =>
    obtain ⟨r, hr, rfl⟩ := transmit_eq_ok.1 hl
    exact h.transmit hr
  | sendFails e =>
    obtain ⟨r, hr, rfl⟩ := sendFails_eq_ok.1 hl
    exact h.sendFails hr

theorem outgoing_initial (loop : LoopId) (name : List Char) (m w : Bool) :
    Outgoing (Session.initial loop name m w) := by
  refine ⟨Buffer.initial_valid, Buffer.initial_content, rfl, Nat.le_refl _, Or.inl ?_⟩
  intro r hr
  cases hr

/-! ## The results -/

/-- In a run without overlapping sends the output is intact in every state. -/
theorem outputIntegrity_of_serialSends {s : Session}
    (hs : sessionMachine.ReachableUnder SerialSends s) : OutputIntegrity s := by
  have hout : Outgoing s := by
    refine hs.invariant (I := Outgoing) ?_ ?_
    · rintro _ ⟨loop, name, m, w, rfl⟩
      exact outgoing_initial loop name m w
    · intro s l s' h hC hl
      refine h.step ?_ hl
      rintro message (rfl | rfl)
      · exact hC
      · exact hC
  exact hout.integrity

/-- Two messages, the first transferred in part: its rest goes out with the second message. -/
theorem outputIntegrity_two_messages : ∃ s, (s.wire = [1, 2, 3, 4] ∧ s.acknowledged = 2) ∧
    OutputIntegrity s := by
  have hinit : sessionMachine.init (Session.initial 0 [] false false) := ⟨_, _, _, _, rfl⟩
  obtain ⟨s, hs, hobs⟩ := Machine.exists_of_run (C := SerialSends) hinit
    (l := [.run, .run, .call (.send ⟨[1, 2, 3], by decide⟩), .return_, .run, .run,
      .transmit 2 [0, 0], .dequeue, .run, .callFrom (.send ⟨[4], by decide⟩),
      .transmit 2 [0, 0]])
    (f := fun s => (s.wire, s.acknowledged)) (a := ([1, 2, 3, 4], 2)) (by decide +kernel)
  obtain ⟨hwire, hack⟩ := Prod.mk.inj hobs
  exact ⟨s, ⟨hwire, hack⟩, outputIntegrity_of_serialSends hs⟩

/-- A callback that sends twice puts the first message on the wire twice. -/
theorem not_outputIntegrity :
    ¬ ∀ s, sessionMachine.ReachableUnder NoWriteError s → OutputIntegrity s := by
  intro hall
  have hinit : sessionMachine.init (Session.initial 0 [] false false) := ⟨_, _, _, _, rfl⟩
  obtain ⟨s, hs, hobs⟩ := Machine.exists_of_run (C := NoWriteError) hinit
    (l := [.run, .run, .call (.send ⟨[1], by decide⟩), .call (.send ⟨[2], by decide⟩),
      .transmit 1 [0], .transmit 2 [0, 0]])
    (f := fun s => (s.wire, s.accepted)) (a := ([1, 1, 2], [1, 2])) (by decide +kernel)
  obtain ⟨hwire, haccepted⟩ := Prod.mk.inj hobs
  have hprefix := (hall s hs).wire_isPrefix
  rw [hwire, haccepted] at hprefix
  exact absurd hprefix (by decide)

end Session

end LibNetToy
