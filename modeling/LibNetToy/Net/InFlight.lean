import LibNetToy.Net.OutputStream

/-!
# Output that is in flight

`send` gives an `async_send` the readable bytes of `outputBuffer_` where they are.  Until the
`writeHandler` of the operation runs, later calls of `send` go on using the buffer: `makeSpace`
may resize the vector or move the readable bytes to its front, and after `retrieve` has reset
the indices new bytes are stored where those of an operation still are.  `retrieve` itself
touches no byte.

A `SendLog` keeps beside a session what every operation in flight was given and the bytes that
were there.  They stay as they were as long as `send` stores its bytes away from them.
-/

namespace LibNetToy

open Memory

namespace Buffer

/-- `makeSpace` resizes the vector for an `append` of `len` bytes. -/
def resizes (b : Buffer) (len : Nat) : Bool :=
  b.writableBytes < len &&
    SizeT.add b.writableBytes b.prependableBytes < SizeT.add len kCheapPrepend

/-- Where an `append` that does not resize the vector begins to store bytes: `makeSpace` moves
the readable bytes to the front first when the message does not fit behind them. -/
def storesFrom (b : Buffer) (len : Nat) : Nat :=
  if b.writableBytes < len then kCheapPrepend else b.writerIndex_

/-- Where it ends. -/
def storesTo (b : Buffer) (len : Nat) : Nat :=
  if b.writableBytes < len then kCheapPrepend + b.readableBytes + len else b.writerIndex_ + len

/-- An `append` of `len` bytes keeps the vector and stores nothing in the region. -/
def Spares (b : Buffer) (len : Nat) (r : Region) : Prop :=
  b.resizes len = false ∧ Apart r.off (r.off + r.len) (b.storesFrom len) (b.storesTo len)

instance (b : Buffer) (len : Nat) (r : Region) : Decidable (b.Spares len r) :=
  inferInstanceAs (Decidable (_ ∧ _))

variable {b b' : Buffer}

/-- The bytes that are appended are stored behind the readable ones. -/
theorem append_stores {data : List UInt8} (h : b.append data = .ok b') :
    ∃ b₁, b.ensureWritableBytes data.length = .ok b₁ ∧
      b'.buffer_ = overwrite b₁.buffer_ b₁.writerIndex_ data := by
  obtain ⟨b₁, hb₁, hwritten⟩ := bind_eq_ok.1 h
  obtain ⟨-, hb'⟩ := check_bind_eq_ok.1 hwritten
  obtain rfl := pure_eq_ok.1 hb'
  exact ⟨b₁, hb₁, rfl⟩

/-- An `append` that does not resize the vector changes no byte outside of what it stores. -/
theorem append_outside (hv : b.Valid) {data : List UInt8} (hno : b.NoOverflow data.length)
    (h : b.append data = .ok b') (hkeeps : b.resizes data.length = false) :
    b'.buffer_.length = b.buffer_.length ∧ ∀ i j,
      Apart i j (b.storesFrom data.length) (b.storesTo data.length) →
        slice b'.buffer_ i j = slice b.buffer_ i j := by
  obtain ⟨b₁, hb₁, hbuffer⟩ := append_stores h
  have hrw := hv.reader_le
  have hw := hv.writer_le
  have hfits := (ensureWritableBytes_spec hv hno hb₁).2.2
  have hno' := hno
  unfold NoOverflow at hno'
  unfold resizes at hkeeps
  unfold storesFrom storesTo
  rw [writableBytes_eq hv] at hno' hkeeps ⊢
  rw [ensureWritableBytes_eq hv hno] at hb₁
  split_ifs at hb₁ with hlen hfull hmax
  · -- the vector would have been resized
    rw [← writableBytes_eq hv, freeBytes_eq hv, writableBytes_eq hv,
      SizeT.add_of_lt (hno' hlen).1] at hkeeps
    simp [hlen, hfull] at hkeeps
  · obtain rfl := Except.ok.inj hb₁
    have hlen' := length_content hv
    have hfront : kCheapPrepend + b.content.length ≤ b.buffer_.length := by omega
    have hsize : b.compacted.buffer_.length = b.buffer_.length :=
      (compacted_valid hv (by omega)).2.2
    have hback : b.compacted.writerIndex_ + data.length ≤ b.compacted.buffer_.length := by
      rw [hsize] at hfits ⊢
      simp only [compacted] at hfits ⊢
      omega
    rw [if_pos hlen, if_pos hlen, readableBytes_eq hv, hbuffer]
    refine ⟨(length_overwrite hback).trans hsize, ?_⟩
    intro i j hapart
    rw [slice_overwrite_of_apart hback (hapart.mono (Nat.le_add_right _ _) (Nat.le_refl _))]
    apply slice_overwrite_of_apart hfront
    exact hapart.mono (Nat.le_refl _) (by omega)
  · obtain rfl := Except.ok.inj hb₁
    have hback : b.writerIndex_ + data.length ≤ b.buffer_.length := by omega
    rw [if_neg hlen, if_neg hlen, hbuffer]
    exact ⟨length_overwrite hback, fun i j hapart => slice_overwrite_of_apart hback hapart⟩

end Buffer

namespace TcpConnection

/-- One for the completion handler of a send. -/
def sentOf : ConnTask → Nat
  | .writeHandler _ _ => 1
  | _ => 0

variable {c : TcpConnection} {here : Option LoopId} {eff : Effect}

theorem weigh_sentOf_eq_zero {ts : List ConnTask} (h : ∀ t ∈ ts, t.isHandler = false) :
    weigh sentOf ts = 0 := by
  apply weigh_eq_zero.2
  intro t ht
  have hno := h t ht
  cases t with
  | writeHandler error n => cases hno
  | _ => rfl

/-- No task stores a byte in `outputBuffer_`. -/
theorem exec_outputVector {t : ConnTask} (hv : c.outputBuffer_.Valid)
    (h : c.exec here t = .ok eff) : eff.conn.outputBuffer_.Valid ∧
      eff.conn.outputBuffer_.buffer_ = c.outputBuffer_.buffer_ ∧
      eff.conn.socket_.sends = c.socket_.sends := by
  by_cases ht : ∃ n, t = .writeHandler none n
  · obtain ⟨n, rfl⟩ := ht
    have h : c.writeHandler none n = .ok eff := h
    rcases writeHandler_eq_ok.1 h with ⟨-, b, hb, rfl⟩ | ⟨hne, -⟩
    · obtain ⟨-, hvalid, -, hbuffer⟩ := Buffer.retrieve_spec hv hb
      exact ⟨hvalid, hbuffer, rfl⟩
    · exact absurd rfl hne
  · obtain ⟨hbuffer, hsends⟩ := exec_output h fun n hn => ht ⟨n, hn⟩
    rw [hbuffer]
    exact ⟨hv, rfl, hsends⟩

end TcpConnection

/-! ## The log of the sends -/

/-- What an `async_send` was given: the region, and the bytes that were there. -/
structure Flight where
  region : Region
  bytes : List UInt8
  deriving DecidableEq, Repr

/-- The send that is started over the readable bytes. -/
def Buffer.flight (b : Buffer) : Flight :=
  ⟨b.readRegion, b.content⟩

/-- A session and the sends whose `writeHandler` has not run, oldest first. -/
structure SendLog where
  session : Session
  inFlight : List Flight

namespace SendLog

open TcpConnection Session

/-- A call of `send` starts one, and a `writeHandler` ends the oldest. -/
def note (s s' : Session) (fs : List Flight) : SessionEvent → List Flight
  | .call (.send _) => fs ++ [s'.conn.outputBuffer_.flight]
  | .callFrom (.send _) => fs ++ [s'.conn.outputBuffer_.flight]
  | .run =>
    match s.stack with
    | t :: _ => fs.drop (sentOf t)
    | [] => fs
  | _ => fs

/-- One step of the session. -/
def step (l : SessionEvent) (p : SendLog) : Except (Halt Fault) SendLog :=
  Halt.within (Session.step l p.session) fun s => ⟨s, note p.session s p.inFlight l⟩

end SendLog

/-- All runs of a connection, with what is in flight. -/
def sendMachine : Machine SendLog SessionEvent Fault where
  init p := sessionMachine.init p.session ∧ p.inFlight = []
  step := SendLog.step

namespace SendLog

open TcpConnection Session

/-- The sends in flight are undisturbed: the vector is the one they were given and the bytes of
their regions are those that were there.  The sends that are outstanding are the newest. -/
structure Undisturbed (p : SendLog) : Prop where
  outstanding : p.session.conn.socket_.sends <:+ p.inFlight.map Flight.region
  vector : ∀ f ∈ p.inFlight, f.region.size = p.session.conn.outputBuffer_.buffer_.length
  bytes : ∀ f ∈ p.inFlight, slice p.session.conn.outputBuffer_.buffer_ f.region.off
    (f.region.off + f.region.len) = f.bytes

/-- The message is stored away from everything in flight. -/
def SparesFlights (p : SendLog) (message : StdString) : Prop :=
  ∀ f ∈ p.inFlight, p.session.conn.outputBuffer_.Spares message.bytes.length f.region

instance (p : SendLog) (message : StdString) : Decidable (p.SparesFlights message) :=
  inferInstanceAs (Decidable (∀ f ∈ p.inFlight, _))

/-- `send` stores its message away from everything in flight. -/
def SendsAside (p : SendLog) : SessionEvent → Prop
  | .call (.send message) => p.SparesFlights message
  | .callFrom (.send message) => p.SparesFlights message
  | _ => True

instance (p : SendLog) (l : SessionEvent) : Decidable (SendsAside p l) :=
  match l with
  | .call (.send message) | .callFrom (.send message) =>
    inferInstanceAs (Decidable (p.SparesFlights message))
  | .call .shutdown | .call .forceClose | .call .startRead | .call .stopRead
  | .callFrom .shutdown | .callFrom .forceClose | .callFrom .startRead | .callFrom .stopRead
  | .transmit _ _ | .sendFails _ | .dequeue | .run | .return_ | .destroy _ | .consume _
  | .receive _ | .readFails _ => isTrue trivial

/-! ## The invariant -/

/-- The log is in step with the session, and nothing in it was disturbed. -/
structure Flying (p : SendLog) : Prop where
  valid : p.session.conn.outputBuffer_.Valid
  split : ∃ completed outstanding, p.inFlight = completed ++ outstanding ∧
    completed.length = weigh sentOf p.session.tasks ∧
    outstanding.map Flight.region = p.session.conn.socket_.sends
  vector : ∀ f ∈ p.inFlight, f.region.size = p.session.conn.outputBuffer_.buffer_.length
  bytes : ∀ f ∈ p.inFlight, slice p.session.conn.outputBuffer_.buffer_ f.region.off
    (f.region.off + f.region.len) = f.bytes

variable {p : SendLog} {s' : Session}

theorem Flying.undisturbed (h : Flying p) : Undisturbed p := by
  refine ⟨?_, h.vector, h.bytes⟩
  obtain ⟨completed, outstanding, hsplit, -, hsends⟩ := h.split
  rw [hsplit, List.map_append, hsends]
  exact List.suffix_append _ _

/-- The invariant speaks about the output side only. -/
theorem Flying.frame (h : Flying p)
    (hbuffer : s'.conn.outputBuffer_ = p.session.conn.outputBuffer_)
    (hsends : s'.conn.socket_.sends = p.session.conn.socket_.sends)
    (hsent : weigh sentOf s'.tasks = weigh sentOf p.session.tasks) : Flying ⟨s', p.inFlight⟩ := by
  obtain ⟨hvalid, hsplit, hvector, hbytes⟩ := h
  constructor
  · rw [hbuffer]
    exact hvalid
  · rw [hsent, hsends]
    exact hsplit
  · rw [hbuffer]
    exact hvector
  · rw [hbuffer]
    exact hbytes

/-! ## What the events keep -/

/-- The kernel completes the oldest send; its handler has still to run. -/
theorem Flying.complete (h : Flying p) {region : Region} {rest : List Region}
    (hsends : p.session.conn.socket_.sends = region :: rest)
    (hbuffer : s'.conn.outputBuffer_ = p.session.conn.outputBuffer_)
    (hrest : s'.conn.socket_.sends = rest) {error : Option ErrorCode} {n : Nat}
    (htasks : s'.tasks = p.session.tasks ++ [.writeHandler error n]) :
    Flying ⟨s', p.inFlight⟩ := by
  obtain ⟨hvalid, ⟨completed, outstanding, hsplit, hlength, hout⟩, hvector, hbytes⟩ := h
  rw [hsends] at hout
  obtain ⟨f, fs, rfl, -, hfs⟩ := List.map_eq_cons_iff.1 hout
  constructor
  · rw [hbuffer]
    exact hvalid
  · refine ⟨completed ++ [f], fs, ?_, ?_, ?_⟩
    · rw [hsplit, List.append_assoc]
      rfl
    · rw [htasks, weigh_append, ← hlength, List.length_append]
      rfl
    · rw [hrest]
      exact hfs
  · rw [hbuffer]
    exact hvector
  · rw [hbuffer]
    exact hbytes

/-- Running a task: a `writeHandler` ends the oldest send in flight. -/
theorem Flying.run {s : Session} {fs : List Flight} (h : Flying ⟨s, fs⟩) {t : ConnTask}
    {rest : List ConnTask} {eff : Effect} (hs : s.stack = t :: rest)
    (he : s.conn.exec (some s.conn.loop_) t = .ok eff) :
    Flying ⟨(noteTask { s with stack := rest } t).apply eff, fs.drop (sentOf t)⟩ := by
  obtain ⟨hvalid, ⟨completed, outstanding, hsplit, hlength, hout⟩, hvector, hbytes⟩ := h
  obtain ⟨hvalid', hbuffer, hsends⟩ := exec_outputVector hvalid he
  have hrun := weigh_run sentOf hs eff
  rw [weigh_sentOf_eq_zero (exec_tasks he), Nat.add_zero, ← hlength] at hrun
  constructor
  · exact hvalid'
  · refine ⟨completed.drop (sentOf t), outstanding, ?_, ?_, hsends ▸ hout⟩
    · show fs.drop (sentOf t) = _
      rw [show fs = completed ++ outstanding from hsplit]
      exact List.drop_append_of_le_length (by omega)
    · show _ = weigh sentOf ((noteTask { s with stack := rest } t).apply eff).tasks
      rw [List.length_drop]
      omega
  · intro f hf
    rw [apply_conn, hbuffer]
    exact hvector f (List.mem_of_mem_drop hf)
  · intro f hf
    rw [apply_conn, hbuffer]
    exact hbytes f (List.mem_of_mem_drop hf)

/-- A message that is stored away from everything in flight. -/
theorem Flying.send (h : Flying p) {message : StdString} (hC : p.SparesFlights message)
    {eff : Effect} (he : p.session.conn.send message = .ok eff) :
    Flying ⟨(p.session.noteCall (.send message)).apply eff,
      p.inFlight ++ [eff.conn.outputBuffer_.flight]⟩ := by
  obtain ⟨hvalid, ⟨completed, outstanding, hsplit, hlength, hout⟩, hvector, hbytes⟩ := h
  obtain ⟨b, hb, rfl⟩ := send_eq_ok.1 he
  have hno := Buffer.noOverflow_of_le hvalid message.length_le
  have hvalid' : b.Valid := by
    rcases Buffer.append_cases hvalid hno with ⟨b', hb', hvalid', -⟩ | ⟨herr, -⟩
    · rw [hb] at hb'
      obtain rfl := Except.ok.inj hb'
      exact hvalid'
    · rw [hb] at herr
      cases herr
  have hold : ∀ f ∈ p.inFlight, b.buffer_.length = p.session.conn.outputBuffer_.buffer_.length ∧
      slice b.buffer_ f.region.off (f.region.off + f.region.len) =
        slice p.session.conn.outputBuffer_.buffer_ f.region.off
          (f.region.off + f.region.len) := by
    intro f hf
    obtain ⟨hkeeps, hapart⟩ := hC f hf
    obtain ⟨hsize, houtside⟩ := Buffer.append_outside hvalid hno hb hkeeps
    exact ⟨hsize, houtside _ _ hapart⟩
  constructor
  · exact hvalid'
  · refine ⟨completed, outstanding ++ [b.flight], ?_, ?_, ?_⟩
    · rw [hsplit, List.append_assoc]
    · rw [weigh_apply]
      exact hlength
    · rw [List.map_append, hout]
      rfl
  · intro f hf
    show f.region.size = b.buffer_.length
    rcases List.mem_append.1 hf with hf | hf
    · rw [(hold f hf).1]
      exact hvector f hf
    · rw [List.mem_singleton.1 hf]
      rfl
  · intro f hf
    show slice b.buffer_ _ _ = _
    rcases List.mem_append.1 hf with hf | hf
    · rw [(hold f hf).2]
      exact hbytes f hf
    · rw [List.mem_singleton.1 hf]
      have hwriter : b.readerIndex_ + b.readableBytes = b.writerIndex_ := by
        have hreader := hvalid'.reader_le
        rw [Buffer.readableBytes_eq hvalid']
        omega
      show slice b.buffer_ b.readerIndex_ (b.readerIndex_ + b.readableBytes) = b.content
      rw [hwriter]
      rfl

/-- A call other than `send`. -/
theorem Flying.call (h : Flying p) {x : ConnCall} {here : Option LoopId} {eff : Effect}
    (hx : ∀ message, x ≠ .send message) (he : p.session.conn.call here x = .ok eff) :
    Flying ⟨(p.session.noteCall x).apply eff, p.inFlight⟩ := by
  obtain ⟨hbuffer, hsends⟩ := call_output he hx
  refine h.frame hbuffer hsends ?_
  have hsame : (p.session.noteCall x).tasks = p.session.tasks := by
    simp [tasks]
  rw [weigh_apply, hsame, weigh_sentOf_eq_zero (call_tasks he), Nat.add_zero]

/-- Every event of a run in which messages are stored aside. -/
theorem Flying.step (h : Flying p) {l : SessionEvent} {p' : SendLog} (hC : SendsAside p l)
    (hl : sendMachine.step l p = .ok p') : Flying p' := by
  obtain ⟨s', hstep, rfl⟩ := Halt.within_eq_ok.1 hl
  cases l with
  | dequeue =>
    obtain ⟨f, q, hs, hq, rfl⟩ := dequeue_eq_ok.1 hstep
    exact h.frame rfl rfl (congrArg _ (tasks_dequeue hs hq))
  | run =>
    obtain ⟨t, rest, e, hs, -, he, rfl⟩ := run_eq_ok.1 hstep
    unfold note
    rw [hs]
    exact h.run hs he
  | return_ =>
    obtain ⟨k, rest, hs, rfl⟩ := return_eq_ok.1 hstep
    refine h.frame rfl rfl ?_
    rw [tasks_cons hs, weigh_cons]
    exact (Nat.zero_add _).symm
  | call x =>
    obtain ⟨-, e, he, rfl⟩ := call_eq_ok.1 hstep
    cases x with
    | send message => exact h.send hC he
    | _ => exact h.call (by simp) he
  | callFrom x =>
    obtain ⟨e, he, rfl⟩ := callFrom_eq_ok.1 hstep
    cases x with
    | send message => exact h.send hC he
    | _ => exact h.call (by simp) he
  | destroy inline =>
    rcases destroy_eq_ok.1 hstep with ⟨-, -, rfl⟩ | ⟨-, rfl⟩
    · exact h.frame rfl rfl (by simp [tasks, sentOf])
    · exact h.frame rfl rfl (by simp [tasks, Functor.body, sentOf])
  | consume len =>
    obtain ⟨-, b, -, rfl⟩ := consume_eq_ok.1 hstep
    exact h.frame rfl rfl rfl
  | receive data =>
    obtain ⟨r, hr, rfl⟩ := receive_eq_ok.1 hstep
    obtain ⟨region, rest, -, -, -, rfl⟩ := receive_eq_some hr
    exact h.frame rfl rfl (weigh_complete sentOf p.session _ (.readHandler none _))
  | readFails e =>
    obtain ⟨r, hr, rfl⟩ := readFails_eq_ok.1 hstep
    obtain ⟨region, rest, -, rfl⟩ := readFails_eq_some hr
    exact h.frame rfl rfl (weigh_complete sentOf p.session _ (.readHandler (some e) 0))
  | transmit k stale =>
    obtain ⟨r, hr, rfl⟩ := transmit_eq_ok.1 hstep
    obtain ⟨region, rest, hsends, -, -, rfl⟩ := transmit_eq_some hr
    exact h.complete hsends rfl rfl (tasks_complete p.session (_, .writeHandler none k))
  | sendFails e =>
    obtain ⟨r, hr, rfl⟩ := sendFails_eq_ok.1 hstep
    obtain ⟨region, rest, hsends, rfl⟩ := sendFails_eq_some hr
    exact h.complete hsends rfl rfl (tasks_complete p.session (_, .writeHandler (some e) 0))

theorem flying_of_init (h : sendMachine.init p) : Flying p := by
  obtain ⟨⟨loop, name, m, w, hsession⟩, hnone⟩ := h
  have hempty : ∀ f, f ∉ p.inFlight := by
    intro f hf
    rw [hnone] at hf
    cases hf
  refine ⟨?_, ⟨[], [], hnone, ?_, ?_⟩, fun f hf => absurd hf (hempty f),
    fun f hf => absurd hf (hempty f)⟩
  · rw [hsession]
    exact Buffer.initial_valid
  · rw [hsession]
    rfl
  · rw [hsession]
    rfl

/-! ## The results -/

/-- When `send` never stores its message where something is in flight, and never resizes the
vector then, everything in flight is undisturbed. -/
theorem undisturbed_of_sendsAside {p : SendLog} (hp : sendMachine.ReachableUnder SendsAside p) :
    Undisturbed p := by
  have hflying : Flying p := by
    refine hp.invariant (I := Flying) ?_ ?_
    · intro p h
      exact flying_of_init h
    · intro p l p' h hC hl
      exact h.step hC hl
  exact hflying.undisturbed

/-- A message is sent while another one is in flight, and a third one after the first one was
acknowledged. -/
theorem undisturbed_three : ∃ p, p.inFlight.map Flight.bytes = [[1, 2, 3], [3, 4, 5]] ∧
    Undisturbed p := by
  have hinit : sendMachine.init ⟨Session.initial 0 [] false false, []⟩ :=
    ⟨⟨_, _, _, _, rfl⟩, rfl⟩
  obtain ⟨p, hp, hobs⟩ := Machine.exists_of_run (C := SendsAside) hinit
    (l := [.run, .run, .call (.send ⟨[1, 2], by decide⟩), .call (.send ⟨[3], by decide⟩), .return_,
      .run, .run, .transmit 2 [0, 0], .dequeue, .run, .callFrom (.send ⟨[4, 5], by decide⟩)])
    (f := fun p => p.inFlight.map Flight.bytes) (a := [[1, 2, 3], [3, 4, 5]]) (by decide +kernel)
  exact ⟨p, hobs, undisturbed_of_sendsAside hp⟩

/-- Three messages are sent at once.  The first two sends transfer two bytes each, which empties
the buffer and resets its indices; the next message is stored where the third send still is. -/
theorem not_undisturbed : ¬ ∀ p, sendMachine.Reachable p → Undisturbed p := by
  intro hall
  have hinit : sendMachine.init ⟨Session.initial 0 [] false false, []⟩ :=
    ⟨⟨_, _, _, _, rfl⟩, rfl⟩
  have hrun : (sendMachine.run (fun _ _ => True)
      [.run, .run, .call (.send ⟨[1, 2], by decide⟩), .call (.send ⟨[3], by decide⟩),
        .call (.send ⟨[4], by decide⟩), .return_, .run, .run, .transmit 2 [0, 0],
        .transmit 2 [0, 0], .dequeue, .run, .dequeue, .run,
        .callFrom (.send ⟨[9], by decide⟩)] ⟨Session.initial 0 [] false false, []⟩).map
      (fun p => (p.inFlight, slice p.session.conn.outputBuffer_.buffer_ 8 12)) =
      .ok ([⟨⟨4104, 8, 4⟩, [1, 2, 3, 4]⟩, ⟨⟨4104, 8, 1⟩, [9]⟩], [9, 2, 3, 4]) := by
    decide +kernel
  obtain ⟨p, hp, hobs⟩ := Machine.exists_of_run hinit hrun
  obtain ⟨hflights, hslice⟩ := Prod.mk.inj hobs
  have hthird : ⟨⟨4104, 8, 4⟩, [1, 2, 3, 4]⟩ ∈ p.inFlight := by
    rw [hflights]
    exact List.mem_cons_self ..
  have hbytes : slice p.session.conn.outputBuffer_.buffer_ 8 12 = [1, 2, 3, 4] :=
    (hall p hp).bytes _ hthird
  rw [hslice] at hbytes
  exact absurd hbytes (by decide)

end SendLog

end LibNetToy
