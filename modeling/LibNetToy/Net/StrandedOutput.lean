import LibNetToy.Net.OutputStream
import LibNetToy.Net.Transitions

/-!
# Output that is left behind

`async_send` may transfer fewer bytes than it was given.  `writeHandler` retrieves what was
transferred and does not send the rest, so the rest stays in `outputBuffer_` until the next
`send`; it calls `writeCompleteCallback_` in any case.

The newest operation was given everything the buffer held, so it covers the unsent bytes until
it completes; nothing is left behind when the last outstanding operation transfers its whole
region.
-/

namespace LibNetToy

namespace Session

/-- A completion handler of a successful send. -/
def writes : ConnTask → Nat
  | .writeHandler none _ => 1
  | _ => 0

/-- No send is under way: none is outstanding and no completion waits for its handler. -/
def NoSend (s : Session) : Prop :=
  s.conn.socket_.sends = [] ∧ weigh writes s.tasks = 0

instance (s : Session) : Decidable s.NoSend :=
  inferInstanceAs (Decidable (_ ∧ _))

/-- The message is empty or sent while no send is under way, when somebody waits for the output
to be complete. -/
def SentAlone (s : Session) (message : StdString) : Prop :=
  s.conn.writeCompleteCallback_ = true → message.bytes = [] ∨ s.NoSend

instance (s : Session) (message : StdString) : Decidable (s.SentAlone message) :=
  inferInstanceAs (Decidable (_ → _ ∨ _))

/-- The oldest send transfers its whole region, unless another one is outstanding and nobody
waits for the output to be complete. -/
def TransfersWhole (s : Session) (k : Nat) : Prop :=
  match s.conn.socket_.sends with
  | [] => True
  | r :: rest => s.conn.writeCompleteCallback_ = true ∨ rest = [] → k = r.len

instance (s : Session) (k : Nat) : Decidable (s.TransfersWhole k) := by
  unfold TransfersWhole
  split <;> infer_instance

/-- The condition under which no output is left behind. -/
def WholeSends (s : Session) : SessionEvent → Prop
  | .call (.send message) => s.SentAlone message
  | .callFrom (.send message) => s.SentAlone message
  | .transmit k _ => s.TransfersWhole k
  | .sendFails _ => False
  | _ => True

instance (s : Session) (l : SessionEvent) : Decidable (WholeSends s l) :=
  match l with
  | .call (.send message) | .callFrom (.send message) =>
    inferInstanceAs (Decidable (s.SentAlone message))
  | .transmit k _ => inferInstanceAs (Decidable (s.TransfersWhole k))
  | .sendFails _ => isFalse id
  | .call .shutdown | .call .forceClose | .call .startRead | .call .stopRead
  | .callFrom .shutdown | .callFrom .forceClose | .callFrom .startRead | .callFrom .stopRead
  | .dequeue | .run | .return_ | .destroy _ | .consume _ | .receive _ | .readFails _ =>
    isTrue trivial

/-- Between handlers an outstanding send covers the bytes that were not transferred yet, those
of `outputBuffer_` without the ones a completed send will acknowledge; and a `writeHandler`
that goes on to call `writeCompleteCallback_` has emptied the buffer. -/
structure NotStranded (s : Session) : Prop where
  covered : s.stack = [] → s.conn.outputBuffer_.content.drop (weigh ackOf s.tasks) ≠ [] →
    ∃ r ∈ s.conn.socket_.sends, r.size = s.conn.outputBuffer_.buffer_.length ∧
      r.off ≤ s.conn.outputBuffer_.readerIndex_ + weigh ackOf s.tasks ∧
      s.conn.outputBuffer_.writerIndex_ ≤ r.off + r.len
  emptied : ∀ n rest s', s.stack = .writeHandler none n :: rest →
    s.conn.writeCompleteCallback_ = true → step .run s = .ok s' →
    s'.conn.outputBuffer_.content = []

/-- The newest send was given everything in the buffer, unless all of it was transferred, and
with a `writeCompleteCallback_` every send covers the buffer. -/
structure Covering (s : Session) : Prop where
  valid : s.conn.outputBuffer_.Valid
  covers : s.conn.outputBuffer_.content.length ≤ weigh ackOf s.tasks ∨
    ∃ front r, s.conn.socket_.sends = front ++ [r] ∧
      r.size = s.conn.outputBuffer_.buffer_.length ∧
      r.off ≤ s.conn.outputBuffer_.readerIndex_ ∧
      s.conn.outputBuffer_.writerIndex_ = r.off + r.len
  outstanding : s.conn.writeCompleteCallback_ = true → ∀ r ∈ s.conn.socket_.sends,
    s.conn.outputBuffer_.content.length ≤ r.len
  completed : s.conn.writeCompleteCallback_ = true → ∀ n, .writeHandler none n ∈ s.tasks →
    s.conn.outputBuffer_.content.length ≤ n

variable {s s' : Session}

/-- The invariant speaks about the output side only. -/
theorem Covering.frame (h : Covering s)
    (hbuffer : s'.conn.outputBuffer_ = s.conn.outputBuffer_)
    (hsends : s'.conn.socket_.sends = s.conn.socket_.sends)
    (hset : s'.conn.writeCompleteCallback_ = s.conn.writeCompleteCallback_)
    (hacks : weigh ackOf s'.tasks = weigh ackOf s.tasks)
    (hwrites : ∀ n, .writeHandler none n ∈ s'.tasks → .writeHandler none n ∈ s.tasks) :
    Covering s' := by
  constructor
  · rw [hbuffer]
    exact h.valid
  · rw [hbuffer, hsends, hacks]
    exact h.covers
  · rw [hbuffer, hsends, hset]
    exact h.outstanding
  · rw [hbuffer, hset]
    intro hcallback n hn
    exact h.completed hcallback n (hwrites n hn)

theorem Covering.notStranded (h : Covering s) : NotStranded s := by
  constructor
  · intro _ hunsent
    have hlt : weigh ackOf s.tasks < s.conn.outputBuffer_.content.length := by
      by_contra hle
      exact hunsent (List.drop_eq_nil_of_le (Nat.not_lt.1 hle))
    rcases h.covers with hle | ⟨front, r, hsends, hsize, hoff, hwriter⟩
    · omega
    · refine ⟨r, ?_, hsize, Nat.le_trans hoff (Nat.le_add_right _ _), Nat.le_of_eq hwriter⟩
      rw [hsends]
      exact List.mem_append_right _ (List.mem_singleton_self r)
  · intro n rest s' hs hcallback hrun
    obtain ⟨t, rest', e, hs', -, he, rfl⟩ := run_eq_ok.1 hrun
    rw [hs] at hs'
    obtain ⟨rfl, rfl⟩ := List.cons.inj hs'
    have he : s.conn.writeHandler none n = .ok e := he
    rcases TcpConnection.writeHandler_eq_ok.1 he with ⟨-, b, hb, rfl⟩ | ⟨hne, -⟩
    · obtain ⟨-, -, hcontent, -⟩ := Buffer.retrieve_spec h.valid hb
      have hmem : ConnTask.writeHandler none n ∈ s.tasks := by
        rw [tasks_cons hs]
        exact List.mem_cons_self ..
      show b.content = []
      rw [hcontent]
      exact List.drop_eq_nil_of_le (h.completed hcallback n hmem)
    · exact absurd rfl hne

/-! ## What the events keep -/

/-- The region of a new send is everything in the buffer. -/
theorem Covering.send (h : Covering s) {message : StdString} (halone : s.SentAlone message)
    {eff : Effect} (he : s.conn.send message = .ok eff) :
    Covering ((s.noteCall (.send message)).apply eff) := by
  obtain ⟨b, hb, rfl⟩ := TcpConnection.send_eq_ok.1 he
  have hno := Buffer.noOverflow_of_le h.valid message.length_le
  rcases Buffer.append_cases h.valid hno with ⟨b', hb', hvalid, hcontent⟩ | ⟨herr, -⟩
  · rw [hb] at hb'
    obtain rfl := Except.ok.inj hb'
    have hreader := hvalid.reader_le
    have hlen : b.readRegion.len = b.content.length := Buffer.readableBytes_eq_length hvalid
    have htasks : ((s.noteCall (.send message)).apply ⟨{ s.conn with
        outputBuffer_ := b
        socket_ := { s.conn.socket_ with sends := s.conn.socket_.sends ++ [b.readRegion] } },
        [], []⟩).tasks = s.tasks := by
      simp [tasks]
    have hsame : message.bytes = [] → b.content = s.conn.outputBuffer_.content := by
      intro hempty
      rw [hcontent, hempty, List.append_nil]
    refine ⟨hvalid, Or.inr ⟨s.conn.socket_.sends, b.readRegion, rfl, rfl, le_rfl, ?_⟩, ?_, ?_⟩
    · show b.writerIndex_ = b.readerIndex_ + b.readRegion.len
      rw [hlen, Buffer.length_content hvalid]
      omega
    · intro hcallback r hr
      show b.content.length ≤ r.len
      rcases List.mem_append.1 hr with hr | hr
      · rcases halone hcallback with hempty | ⟨hnone, -⟩
        · rw [hsame hempty]
          exact h.outstanding hcallback r hr
        · have hr : r ∈ s.conn.socket_.sends := hr
          rw [hnone] at hr
          cases hr
      · obtain rfl := List.mem_singleton.1 hr
        exact Nat.le_of_eq hlen.symm
    · intro hcallback n hn
      show b.content.length ≤ n
      rw [htasks] at hn
      rcases halone hcallback with hempty | ⟨-, hnone⟩
      · rw [hsame hempty]
        exact h.completed hcallback n hn
      · have hzero := weigh_eq_zero.1 hnone _ hn
        cases hzero
  · rw [hb] at herr
    cases herr

/-- A `writeHandler` takes the acknowledged bytes out of the buffer. -/
theorem Covering.acknowledge (h : Covering s) {k : Nat} {rest : List ConnTask} {eff : Effect}
    (hs : s.stack = .writeHandler none k :: rest)
    (he : s.conn.writeHandler none k = .ok eff) :
    Covering ((noteTask { s with stack := rest } (.writeHandler none k)).apply eff) := by
  have htasks : weigh ackOf s.tasks = k + weigh ackOf
      ((noteTask { s with stack := rest } (.writeHandler none k)).apply eff).tasks := by
    have hexec : s.conn.exec (some s.conn.loop_) (.writeHandler none k) = .ok eff := he
    have hrun := weigh_run ackOf hs eff
    rw [weigh_ackOf_eq_zero (TcpConnection.exec_tasks hexec)] at hrun
    exact hrun.symm
  rcases TcpConnection.writeHandler_eq_ok.1 he with ⟨-, b, hb, rfl⟩ | ⟨hne, -⟩
  · obtain ⟨hk, hvalid, hcontent, hbuffer⟩ := Buffer.retrieve_spec h.valid hb
    have hshrinks : b.content.length = s.conn.outputBuffer_.content.length - k := by
      rw [hcontent, List.length_drop]
    have hreader := h.valid.reader_le
    have hlen := Buffer.length_content h.valid
    refine ⟨hvalid, ?_, ?_, ?_⟩
    · rcases h.covers with hle | ⟨front, r, hsends, hsize, hoff, hwriter⟩
      · left
        show b.content.length ≤ _
        omega
      · rw [Buffer.retrieve_eq h.valid (by omega)] at hb
        split_ifs at hb with hlt
        · obtain rfl := Except.ok.inj hb
          right
          exact ⟨front, r, hsends, hsize, Nat.le_trans hoff (Nat.le_add_right _ _), hwriter⟩
        · left
          show b.content.length ≤ _
          omega
    · intro hcallback r hr
      have hle := h.outstanding hcallback r hr
      show b.content.length ≤ r.len
      omega
    · intro hcallback n hn
      have hmem : ConnTask.writeHandler none n ∈ s.tasks := by
        rw [tasks_cons hs]
        rw [tasks_apply] at hn
        rcases List.mem_append.1 hn with hn | hn
        · rcases List.mem_append.1 hn with hn | hn
          · have hn : ConnTask.writeHandler none n ∈
                (if s.conn.writeCompleteCallback_ then
                  [ConnTask.callback .writeComplete, ConnTask.release] else []) := hn
            split_ifs at hn
            · simp at hn
            · cases hn
          · exact List.mem_cons_of_mem _ hn
        · cases hn
      have hle := h.completed hcallback n hmem
      show b.content.length ≤ n
      omega
  · exact absurd rfl hne

/-- The last outstanding send transfers everything. -/
theorem Covering.transmit (h : Covering s) {k : Nat} {stale : List UInt8}
    {r : TcpConnection × List UInt8 × ConnTask} (hwhole : s.TransfersWhole k)
    (hr : s.conn.transmit k stale = some r) :
    Covering { s.complete (r.1, r.2.2) with wire := s.wire ++ r.2.1 } := by
  obtain ⟨region, rest, hsends, -, -, rfl⟩ := TcpConnection.transmit_eq_some hr
  unfold TransfersWhole at hwhole
  rw [hsends] at hwhole
  have htasks : ∀ w, ({ s.complete
      ({ s.conn with socket_ := { s.conn.socket_ with sends := rest } },
        .writeHandler none k) with wire := w } : Session).tasks =
      s.tasks ++ [.writeHandler none k] := fun w => tasks_complete s _
  have hacks : ∀ w, weigh ackOf ({ s.complete
      ({ s.conn with socket_ := { s.conn.socket_ with sends := rest } },
        .writeHandler none k) with wire := w } : Session).tasks = weigh ackOf s.tasks + k :=
    fun w => weigh_complete ackOf s _ (.writeHandler none k)
  have hreader := h.valid.reader_le
  have hlen := Buffer.length_content h.valid
  refine ⟨h.valid, ?_, ?_, ?_⟩
  · rw [hacks]
    rcases h.covers with hle | ⟨front, last, heq, hsize, hoff, hwriter⟩
    · exact Or.inl (Nat.le_trans hle (Nat.le_add_right _ _))
    · rw [hsends] at heq
      rcases front with _ | ⟨first, front⟩
      · obtain ⟨rfl, rfl⟩ := List.cons.inj heq
        have hk := hwhole (Or.inr rfl)
        left
        show s.conn.outputBuffer_.content.length ≤ _
        omega
      · obtain ⟨-, rfl⟩ := List.cons.inj heq
        exact Or.inr ⟨front, last, rfl, hsize, hoff, hwriter⟩
  · intro hcallback r hr
    apply h.outstanding hcallback r
    rw [hsends]
    exact List.mem_cons_of_mem _ hr
  · intro hcallback n hn
    rw [htasks] at hn
    rcases List.mem_append.1 hn with hn | hn
    · exact h.completed hcallback n hn
    · obtain ⟨-, rfl⟩ := ConnTask.writeHandler.inj (List.mem_singleton.1 hn)
      rw [hwhole (Or.inl hcallback)]
      apply h.outstanding hcallback region
      rw [hsends]
      exact List.mem_cons_self ..

/-- Running a task. -/
theorem Covering.run (h : Covering s) {t : ConnTask} {rest : List ConnTask} {eff : Effect}
    (hs : s.stack = t :: rest) (he : s.conn.exec (some s.conn.loop_) t = .ok eff) :
    Covering ((noteTask { s with stack := rest } t).apply eff) := by
  by_cases ht : ∃ n, t = .writeHandler none n
  · obtain ⟨n, rfl⟩ := ht
    exact h.acknowledge hs he
  · have ht' : ∀ n, t ≠ .writeHandler none n := fun n hn => ht ⟨n, hn⟩
    obtain ⟨hbuffer, hsends⟩ := TcpConnection.exec_output he ht'
    refine h.frame hbuffer hsends (TcpConnection.exec_setup he).writeCompleteCallback ?_ ?_
    · have hrun := weigh_run ackOf hs eff
      rw [ackOf_eq_zero ht', weigh_ackOf_eq_zero (TcpConnection.exec_tasks he)] at hrun
      omega
    · intro n hn
      have hn := handler_mem_tasks rfl (TcpConnection.exec_tasks he) hn
      have hsame :
          (noteTask { s with stack := rest } t).tasks = { s with stack := rest }.tasks := by
        simp [tasks]
      rw [hsame] at hn
      rw [tasks_cons hs]
      exact List.mem_cons_of_mem _ hn

/-- A call other than `send`. -/
theorem Covering.call (h : Covering s) {x : ConnCall} {here : Option LoopId} {eff : Effect}
    (hx : ∀ message, x ≠ .send message) (he : s.conn.call here x = .ok eff) :
    Covering ((s.noteCall x).apply eff) := by
  obtain ⟨hbuffer, hsends⟩ := TcpConnection.call_output he hx
  have hnote : s.noteCall x = s := by
    cases x with
    | send message => exact absurd rfl (hx message)
    | _ => rfl
  rw [hnote]
  refine h.frame hbuffer hsends (TcpConnection.call_setup he).1.writeCompleteCallback ?_ ?_
  · rw [weigh_apply, weigh_ackOf_eq_zero (TcpConnection.call_tasks he), Nat.add_zero]
  · intro n hn
    exact handler_mem_tasks rfl (TcpConnection.call_tasks he) hn

/-- Every event of a run of whole sends keeps the buffer covered. -/
theorem Covering.step (h : Covering s) {l : SessionEvent} (hC : WholeSends s l)
    (hl : Session.step l s = .ok s') : Covering s' := by
  cases l with
  | dequeue =>
    obtain ⟨f, q, hs, hq, rfl⟩ := dequeue_eq_ok.1 hl
    have htasks := tasks_dequeue hs hq
    refine h.frame rfl rfl rfl (congrArg (weigh ackOf) htasks) ?_
    intro n hn
    rw [htasks] at hn
    exact hn
  | run =>
    obtain ⟨t, rest, e, hs, -, he, rfl⟩ := run_eq_ok.1 hl
    exact h.run hs he
  | return_ =>
    obtain ⟨k, rest, hs, rfl⟩ := return_eq_ok.1 hl
    refine h.frame rfl rfl rfl ?_ ?_
    · rw [tasks_cons hs, weigh_cons, ackOf_eq_zero (by simp), Nat.zero_add]
    · intro n hn
      rw [tasks_cons hs]
      exact List.mem_cons_of_mem _ hn
  | call x =>
    obtain ⟨-, e, he, rfl⟩ := call_eq_ok.1 hl
    cases x with
    | send message => exact h.send hC he
    | _ => exact h.call (by simp) he
  | callFrom x =>
    obtain ⟨e, he, rfl⟩ := callFrom_eq_ok.1 hl
    cases x with
    | send message => exact h.send hC he
    | _ => exact h.call (by simp) he
  | destroy inline =>
    rcases destroy_eq_ok.1 hl with ⟨-, -, rfl⟩ | ⟨-, rfl⟩
    · exact h.frame rfl rfl rfl (by simp [tasks, ackOf]) (by simp [tasks])
    · exact h.frame rfl rfl rfl (by simp [tasks, Functor.body, ackOf])
        (by simp [tasks, Functor.body])
  | consume len =>
    obtain ⟨-, b, -, rfl⟩ := consume_eq_ok.1 hl
    exact h.frame rfl rfl rfl rfl fun n hn => hn
  | receive data =>
    obtain ⟨r, hr, rfl⟩ := receive_eq_ok.1 hl
    obtain ⟨region, rest, -, -, -, rfl⟩ := TcpConnection.receive_eq_some hr
    refine h.frame rfl rfl rfl (weigh_complete ackOf s _ (.readHandler none data.length)) ?_
    intro n hn
    have hn : ConnTask.writeHandler none n ∈ s.tasks ++ [.readHandler none data.length] := by
      rw [← tasks_complete s (_, .readHandler none data.length)]
      exact hn
    simpa using hn
  | readFails e =>
    obtain ⟨r, hr, rfl⟩ := readFails_eq_ok.1 hl
    obtain ⟨region, rest, -, rfl⟩ := TcpConnection.readFails_eq_some hr
    refine h.frame rfl rfl rfl (weigh_complete ackOf s _ (.readHandler (some e) 0)) ?_
    intro n hn
    rw [tasks_complete] at hn
    simpa using hn
  | transmit k stale =>
    obtain ⟨r, hr, rfl⟩ := transmit_eq_ok.1 hl
    exact h.transmit hC hr
  | sendFails e => exact absurd hC id

theorem covering_initial (loop : LoopId) (name : List Char) (m w : Bool) :
    Covering (Session.initial loop name m w) := by
  refine ⟨Buffer.initial_valid, Or.inl ?_, ?_, ?_⟩
  · exact Nat.le_of_eq (congrArg List.length Buffer.initial_content)
  · intro _ r hr
    cases hr
  · intro _ n hn
    simp [tasks, initial] at hn

/-! ## The results -/

/-- In a run of whole sends no output is left behind. -/
theorem notStranded_of_wholeSends {s : Session}
    (hs : sessionMachine.ReachableUnder WholeSends s) : NotStranded s := by
  have hcovering : Covering s := by
    refine hs.invariant (I := Covering) ?_ ?_
    · rintro _ ⟨loop, name, m, w, rfl⟩
      exact covering_initial loop name m w
    · intro s l s' h hC hl
      exact h.step hC hl
  exact hcovering.notStranded

/-- Two messages that overlap and nobody waits for; the first is transferred in part. -/
theorem notStranded_overlapping : ∃ s, (s.stack = [] ∧
    s.conn.outputBuffer_.content.drop (weigh ackOf s.tasks) = [3, 4]) ∧ NotStranded s := by
  have hinit : sessionMachine.init (Session.initial 0 [] false false) := ⟨_, _, _, _, rfl⟩
  obtain ⟨s, hs, hobs⟩ := Machine.exists_of_run (C := WholeSends) hinit
    (l := [.run, .run, .call (.send ⟨[1, 2, 3], by decide⟩), .return_, .run, .run,
      .callFrom (.send ⟨[4], by decide⟩), .transmit 2 [0, 0], .dequeue, .run])
    (f := fun s => (s.stack, s.conn.outputBuffer_.content.drop (weigh ackOf s.tasks)))
    (a := ([], [3, 4])) (by decide +kernel)
  obtain ⟨hstack, hunsent⟩ := Prod.mk.inj hobs
  exact ⟨s, ⟨hstack, hunsent⟩, notStranded_of_wholeSends hs⟩

/-- A message is transferred in part and its rest stays in the buffer. -/
theorem not_notStranded :
    ¬ ∀ s, sessionMachine.ReachableUnder NoWriteError s → NotStranded s := by
  intro hall
  have hinit : sessionMachine.init (Session.initial 0 [] false false) := ⟨_, _, _, _, rfl⟩
  obtain ⟨s, hs, hobs⟩ := Machine.exists_of_run (C := NoWriteError) hinit
    (l := [.run, .run, .call (.send ⟨[1, 2], by decide⟩), .return_, .run, .run,
      .transmit 1 [0], .dequeue, .run])
    (f := fun s => (s.stack, s.conn.outputBuffer_.content.drop (weigh ackOf s.tasks),
      s.conn.socket_.sends)) (a := ([], [2], [])) (by decide +kernel)
  obtain ⟨hstack, hrest⟩ := Prod.mk.inj hobs
  obtain ⟨hunsent, hsends⟩ := Prod.mk.inj hrest
  obtain ⟨r, hr, -⟩ := (hall s hs).covered hstack (by rw [hunsent]; simp)
  rw [hsends] at hr
  cases hr

end Session

end LibNetToy
