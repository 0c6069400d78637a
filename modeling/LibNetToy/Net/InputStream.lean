import LibNetToy.Net.CloseOnce

/-!
# The input stream of a connection

Every read is aimed at the writable region of `inputBuffer_` as it is when the read is
started, and its handler starts the next one.  A read is under way from its start until its
handler has decided about the next one.  `startReadInLoop` looks at `reading_` only, which
does not say whether a read is under way: a `stopRead` followed by a `startRead` starts a
second read on the same region.  When reads do not overlap in this way, nothing that was
received is lost, reordered or overwritten.
-/

namespace LibNetToy

open Memory

namespace TcpConnection

/-! ## Weights of reads -/

/-- One for a read that was completed and is not handled yet. -/
def handlerOf : ConnTask → Nat
  | .readHandler _ _ => 1
  | _ => 0

/-- One for the end of a `readHandler`, which may start the next read. -/
def againOf : ConnTask → Nat
  | .readAgain _ => 1
  | _ => 0

/-- The bytes of a completed read that its handler will count. -/
def arrivedOf : ConnTask → Nat
  | .readHandler none n => n
  | _ => 0

/-- The `bytes_transferred` of a read that is under way. -/
def bytesOf : ConnTask → Nat
  | .readHandler _ n => n
  | .readAgain n => n
  | _ => 0

/-- The message callback is called or running. -/
def inMessage : ConnTask → Bool
  | .callback .message => true
  | .inCallback .message => true
  | _ => false

/-- A message callback is followed by the end of the `readHandler` that called it. -/
def Nested : List ConnTask → Prop
  | [] => True
  | t :: ts => (inMessage t = true → ∃ n, ConnTask.readAgain n ∈ ts) ∧ Nested ts

/-- The task starts, continues or ends a read. -/
def touchesRead : ConnTask → Bool
  | .readHandler _ _ => true
  | .startReadInLoop => true
  | .connectEstablished => true
  | .readAgain _ => true
  | _ => false

variable {c : TcpConnection} {here : Option LoopId} {eff : Effect}

theorem bytesOf_eq_zero {t : ConnTask} (hh : handlerOf t = 0) (ha : againOf t = 0) :
    bytesOf t = 0 := by
  cases t with
  | readHandler error n => cases hh
  | readAgain n => cases ha
  | _ => rfl

theorem arrivedOf_eq_zero {t : ConnTask} (h : handlerOf t = 0) : arrivedOf t = 0 := by
  cases t with
  | readHandler error n => cases h
  | _ => rfl

/-- Without a read under way there are no bytes either. -/
theorem weigh_bytesOf_eq_zero {ts : List ConnTask} (hh : weigh handlerOf ts = 0)
    (ha : weigh againOf ts = 0) : weigh bytesOf ts = 0 := by
  apply weigh_eq_zero.2
  intro t ht
  exact bytesOf_eq_zero (weigh_eq_zero.1 hh t ht) (weigh_eq_zero.1 ha t ht)

theorem weigh_arrivedOf_eq_zero {ts : List ConnTask} (h : weigh handlerOf ts = 0) :
    weigh arrivedOf ts = 0 := by
  apply weigh_eq_zero.2
  intro t ht
  exact arrivedOf_eq_zero (weigh_eq_zero.1 h t ht)

/-! ## Nesting -/

/-- Tasks without a message callback may stand in front. -/
theorem Nested.prepend {ts : List ConnTask} (us : List ConnTask) (h : Nested ts)
    (hus : ∀ u ∈ us, inMessage u = false) : Nested (us ++ ts) := by
  induction us with
  | nil => exact h
  | cons u us ih =>
    refine ⟨?_, ih fun v hv => hus v (List.mem_cons_of_mem _ hv)⟩
    intro hu
    rw [hus u (List.mem_cons_self ..)] at hu
    cases hu

/-- Tasks without a message callback may follow. -/
theorem Nested.append {ts : List ConnTask} (us : List ConnTask) (h : Nested ts)
    (hus : ∀ u ∈ us, inMessage u = false) : Nested (ts ++ us) := by
  induction ts with
  | nil =>
    rw [List.nil_append, ← List.append_nil us]
    exact Nested.prepend us trivial hus
  | cons t ts ih =>
    obtain ⟨ht, hts⟩ := h
    refine ⟨?_, ih hts⟩
    intro hmessage
    obtain ⟨n, hn⟩ := ht hmessage
    exact ⟨n, List.mem_append_left _ hn⟩

/-! ## What running a task does to the input -/

/-- A task that has nothing to do with reads leaves the input alone, and the only message
callback it creates is the one it calls. -/
theorem exec_input {t : ConnTask} (h : c.exec here t = .ok eff) (ht : touchesRead t = false) :
    eff.conn.inputBuffer_ = c.inputBuffer_ ∧ eff.conn.socket_.reads = c.socket_.reads ∧
      weigh handlerOf eff.tasks = 0 ∧ weigh againOf eff.tasks = 0 ∧
      (∀ u ∈ eff.tasks, inMessage u = true →
        inMessage t = true ∧ eff.calls = [u] ∧ eff.posts = []) := by
  cases exec_runs h with
  | received _ | readFailed _ _ | startsReading _ | isReading _ | establishes _ _
  | readsAgain _ _ | endsReading _ => cases ht
  | sent _ =>
    refine ⟨rfl, rfl, ?_⟩
    unfold Effect.tasks
    split_ifs <;> simp [handlerOf, againOf, inMessage]
  | @calls k =>
    refine ⟨rfl, rfl, by simp [Effect.tasks, handlerOf], by simp [Effect.tasks, againOf], ?_⟩
    cases k <;> simp [Effect.tasks, inMessage]
  | _ => exact ⟨rfl, rfl, by simp [Effect.tasks, handlerOf, againOf, inMessage]⟩

/-- Three functions start a read, and only the end of `readHandler` asks for room first. -/
theorem exec_reads {t : ConnTask} (h : c.exec here t = .ok eff) :
    eff.conn.socket_.reads = c.socket_.reads ∨
      eff.conn.socket_.reads = c.socket_.reads ++ [eff.conn.inputBuffer_.writeRegion] ∧
        ((t = .connectEstablished ∧ c.state_ = .kConnecting ∧
            eff.conn.inputBuffer_ = c.inputBuffer_) ∨
          (t = .startReadInLoop ∧ c.reading_ = false ∧ eff.conn.inputBuffer_ = c.inputBuffer_) ∨
          ∃ n, t = .readAgain n ∧ c.reading_ = true ∧
            c.inputBuffer_.ensureWritableBytes n = .ok eff.conn.inputBuffer_) := by
  cases exec_runs h with
  | establishes _ hstate => exact Or.inr ⟨rfl, Or.inl ⟨rfl, hstate, rfl⟩⟩
  | startsReading hreading => exact Or.inr ⟨rfl, Or.inr (Or.inl ⟨rfl, hreading, rfl⟩)⟩
  | readsAgain hreading hb => exact Or.inr ⟨rfl, Or.inr (Or.inr ⟨_, rfl, hreading, hb⟩)⟩
  | _ => exact Or.inl rfl

/-- No call from outside touches the input. -/
theorem call_input {x : ConnCall} (h : c.call here x = .ok eff) :
    eff.conn.inputBuffer_ = c.inputBuffer_ ∧ eff.conn.socket_.reads = c.socket_.reads ∧
      weigh handlerOf eff.tasks = 0 ∧ weigh againOf eff.tasks = 0 ∧
      ∀ u ∈ eff.tasks, inMessage u = false := by
  cases x with
  | send message =>
    obtain ⟨b, -, rfl⟩ := send_eq_ok.1 h
    exact ⟨rfl, rfl, by simp [Effect.tasks]⟩
  | shutdown | forceClose | startRead | stopRead =>
    obtain rfl := pure_eq_ok.1 h
    simp only [shutdown, forceClose, startRead, stopRead, runInLoop]
    split_ifs <;>
      exact ⟨rfl, rfl, by simp [Effect.tasks, Functor.body, handlerOf, againOf, inMessage]⟩

end TcpConnection

namespace Session

open TcpConnection

/-! ## The property -/

/-- The reads that are under way: outstanding, completed and not handled, or handled by a
`readHandler` that has not ended. -/
def readsUnderWay (s : Session) : Nat :=
  s.conn.socket_.reads.length + weigh handlerOf s.tasks + weigh againOf s.tasks

/-- `startReadInLoop` finds `reading_` false only when no read is under way. -/
def SerialReads (s : Session) : SessionEvent → Prop
  | .run => s.stack.head? = some .startReadInLoop → s.conn.reading_ = false → s.readsUnderWay = 0
  | _ => True

instance (s : Session) (l : SessionEvent) : Decidable (SerialReads s l) := by
  cases l <;> unfold SerialReads <;> infer_instance

/-- The bytes of a completed read that its handler has not counted: they lie behind the
readable bytes. -/
def unhandled (s : Session) : List UInt8 :=
  slice s.conn.inputBuffer_.buffer_ s.conn.inputBuffer_.writerIndex_
    (s.conn.inputBuffer_.writerIndex_ + weigh arrivedOf s.tasks)

/-- The integrity of the input: one read at a time, aimed at the writable region; the next
`readHandler` counts no more than was writable; and what was consumed, what is readable and
what a completed read has left to be counted are what was received. -/
structure InputIntegrity (s : Session) : Prop where
  one_read : s.conn.socket_.reads.length ≤ 1
  region : ∀ r ∈ s.conn.socket_.reads, r.off = s.conn.inputBuffer_.writerIndex_ ∧
    r.len = s.conn.inputBuffer_.writableBytes
  written_le : ∀ n rest, s.stack = .readHandler none n :: rest →
    n ≤ s.conn.inputBuffer_.writableBytes
  stream : s.consumed ++ s.conn.inputBuffer_.content ++ s.unhandled = s.received

/-! ## The invariant -/

/-- The input side of a session in which reads do not overlap. -/
structure Incoming (s : Session) : Prop where
  valid : s.conn.inputBuffer_.Valid
  underWay_le : s.readsUnderWay ≤ 1
  region : ∀ r ∈ s.conn.socket_.reads, r = s.conn.inputBuffer_.writeRegion
  room : weigh arrivedOf s.tasks ≤
    s.conn.inputBuffer_.buffer_.length - s.conn.inputBuffer_.writerIndex_
  bytes_le : weigh bytesOf s.tasks ≤ maxSize
  stream : s.consumed ++ s.conn.inputBuffer_.content ++ s.unhandled = s.received
  nested : Nested s.tasks
  connecting : s.conn.state_ = .kConnecting → s.readsUnderWay = 0

variable {s s' : Session}

/-- Nothing is unhandled when no bytes have arrived. -/
theorem unhandled_eq_nil (h : weigh arrivedOf s.tasks = 0) : s.unhandled = [] := by
  rw [unhandled, h]
  exact slice_eq_nil (Nat.le_refl _)

/-- The parts of a number of reads under way that is zero. -/
theorem of_underWay_eq_zero (h : s.readsUnderWay = 0) :
    s.conn.socket_.reads = [] ∧ weigh handlerOf s.tasks = 0 ∧ weigh againOf s.tasks = 0 := by
  unfold readsUnderWay at h
  refine ⟨List.eq_nil_of_length_eq_zero ?_, ?_, ?_⟩ <;> omega

theorem Incoming.integrity (h : Incoming s) : InputIntegrity s := by
  have hle := h.underWay_le
  refine ⟨?_, ?_, ?_, h.stream⟩
  · unfold readsUnderWay at hle
    omega
  · intro r hr
    rw [h.region r hr]
    exact ⟨rfl, rfl⟩
  · intro n rest hs
    have hroom := h.room
    rw [tasks_cons hs, weigh_cons] at hroom
    rw [Buffer.writableBytes_eq h.valid]
    exact Nat.le_trans (Nat.le_add_right _ _) hroom

/-- The invariant speaks about the input side only. -/
theorem Incoming.frame (h : Incoming s)
    (hbuffer : s'.conn.inputBuffer_ = s.conn.inputBuffer_)
    (hreads : s'.conn.socket_.reads = s.conn.socket_.reads) (hconsumed : s'.consumed = s.consumed)
    (hreceived : s'.received = s.received)
    (hhandler : weigh handlerOf s'.tasks = weigh handlerOf s.tasks)
    (hagain : weigh againOf s'.tasks = weigh againOf s.tasks)
    (harrived : weigh arrivedOf s'.tasks = weigh arrivedOf s.tasks)
    (hbytes : weigh bytesOf s'.tasks = weigh bytesOf s.tasks) (hnested : Nested s'.tasks)
    (hconnecting : s'.conn.state_ = .kConnecting → s.conn.state_ = .kConnecting) :
    Incoming s' := by
  have hunder : s'.readsUnderWay = s.readsUnderWay := by
    rw [readsUnderWay, hreads, hhandler, hagain]
    rfl
  obtain ⟨hvalid, hle, hregion, hroom, hbytes_le, hstream, -, hzero⟩ := h
  constructor
  · rw [hbuffer]
    exact hvalid
  · rw [hunder]
    exact hle
  · rw [hbuffer, hreads]
    exact hregion
  · rw [hbuffer, harrived]
    exact hroom
  · rw [hbytes]
    exact hbytes_le
  · rw [unhandled, hbuffer, harrived, hconsumed, hreceived]
    exact hstream
  · exact hnested
  · intro hnew
    rw [hunder]
    exact hzero (hconnecting hnew)

/-! ## What the events keep -/

/-- A read is started when none is under way; the buffer may have made room for it. -/
theorem Incoming.start (hvalid : s'.conn.inputBuffer_.Valid)
    (hreads : s'.conn.socket_.reads = [s'.conn.inputBuffer_.writeRegion])
    (hhandler : weigh handlerOf s'.tasks = 0) (hagain : weigh againOf s'.tasks = 0)
    (hstream : s'.consumed ++ s'.conn.inputBuffer_.content = s'.received)
    (hnested : Nested s'.tasks) (hconnecting : s'.conn.state_ ≠ .kConnecting) : Incoming s' := by
  have harrived := weigh_arrivedOf_eq_zero hhandler
  constructor
  · exact hvalid
  · rw [readsUnderWay, hreads, hhandler, hagain]
    exact Nat.le_refl _
  · intro r hr
    rw [hreads, List.mem_singleton] at hr
    exact hr
  · rw [harrived]
    exact Nat.zero_le _
  · rw [weigh_bytesOf_eq_zero hhandler hagain]
    exact Nat.zero_le _
  · rw [unhandled_eq_nil harrived, List.append_nil]
    exact hstream
  · exact hnested
  · exact fun hnew => absurd hnew hconnecting

/-- The stream when no completed read is unhandled. -/
theorem Incoming.stream_of_handled (h : Incoming s) (hhandler : weigh handlerOf s.tasks = 0) :
    s.consumed ++ s.conn.inputBuffer_.content = s.received := by
  have hstream := h.stream
  rw [unhandled_eq_nil (weigh_arrivedOf_eq_zero hhandler), List.append_nil] at hstream
  exact hstream

/-- The rest of the pending tasks is nested as well. -/
theorem Incoming.nested_rest (h : Incoming s) {t : ConnTask} {rest : List ConnTask}
    (hs : s.stack = t :: rest) : Nested { s with stack := rest }.tasks := by
  have hnested := h.nested
  rw [tasks_cons hs] at hnested
  exact hnested.2

theorem tasks_run {t : ConnTask} {rest : List ConnTask} (e : Effect) :
    ((noteTask { s with stack := rest } t).apply e).tasks =
      e.calls ++ { s with stack := rest }.tasks ++ e.posts.flatMap Functor.body := by
  rw [tasks_apply]
  simp [tasks]

/-- No read is outstanding and none is completed, but a `readHandler` may not have ended. -/
theorem Incoming.handled (hvalid : s'.conn.inputBuffer_.Valid)
    (hreads : s'.conn.socket_.reads = []) (hhandler : weigh handlerOf s'.tasks = 0)
    (hagain : weigh againOf s'.tasks ≤ 1) (hbytes : weigh bytesOf s'.tasks ≤ maxSize)
    (hstream : s'.consumed ++ s'.conn.inputBuffer_.content = s'.received)
    (hnested : Nested s'.tasks) (hconnecting : s'.conn.state_ ≠ .kConnecting) : Incoming s' := by
  have harrived := weigh_arrivedOf_eq_zero hhandler
  constructor
  · exact hvalid
  · rw [readsUnderWay, hreads, hhandler, List.length_nil]
    omega
  · intro r hr
    rw [hreads] at hr
    cases hr
  · rw [harrived]
    exact Nat.zero_le _
  · exact hbytes
  · rw [unhandled_eq_nil harrived, List.append_nil]
    exact hstream
  · exact hnested
  · exact fun hnew => absurd hnew hconnecting

/-- A `readHandler` that starts or ends is the only read under way. -/
theorem Incoming.alone (h : Incoming s) {t : ConnTask} {rest : List ConnTask}
    (hs : s.stack = t :: rest) (ht : handlerOf t + againOf t = 1) :
    s.conn.socket_.reads = [] ∧ weigh handlerOf { s with stack := rest }.tasks = 0 ∧
      weigh againOf { s with stack := rest }.tasks = 0 := by
  have hle := h.underWay_le
  rw [readsUnderWay, tasks_cons hs, weigh_cons, weigh_cons] at hle
  refine ⟨List.eq_nil_of_length_eq_zero ?_, ?_, ?_⟩ <;> omega

/-- A `readHandler` without an error counts the bytes of its read. -/
theorem Incoming.written (h : Incoming s) {n : Nat} {rest : List ConnTask} {eff : Effect}
    (hs : s.stack = .readHandler none n :: rest)
    (he : s.conn.readHandler (some s.conn.loop_) none n = .ok eff)
    (hconnecting : eff.conn.state_ ≠ .kConnecting) :
    Incoming ((noteTask { s with stack := rest } (.readHandler none n)).apply eff) := by
  obtain ⟨hreads, hhandler, hagain⟩ := h.alone hs rfl
  have harrived := weigh_arrivedOf_eq_zero hhandler
  have hroom := h.room
  have hbytes := h.bytes_le
  have hstream := h.stream
  rw [tasks_cons hs, weigh_cons, harrived] at hroom
  rw [tasks_cons hs, weigh_cons] at hbytes
  rw [unhandled, tasks_cons hs, weigh_cons, harrived] at hstream
  have hroom : n ≤ s.conn.inputBuffer_.buffer_.length - s.conn.inputBuffer_.writerIndex_ := hroom
  rcases readHandler_eq_ok.1 he with ⟨-, b, hb, rfl⟩ | ⟨hne, -⟩
  · obtain ⟨calls, hcalls⟩ : ∃ calls, (if s.conn.messageCallback_ then
        [ConnTask.callback .message, .release] else []) = calls := ⟨_, rfl⟩
    rw [hcalls]
    have hplain : weigh handlerOf calls = 0 ∧ weigh againOf calls = 0 ∧ weigh bytesOf calls = 0 ∧
        ∀ ts m, Nested ts → ConnTask.readAgain m ∈ ts → Nested (calls ++ ts) := by
      subst hcalls
      split_ifs
      · refine ⟨rfl, rfl, rfl, fun ts m hts hm => ⟨fun _ => ⟨m, ?_⟩, fun hr => ?_, hts⟩⟩
        · exact List.mem_cons_of_mem _ hm
        · cases hr
      · exact ⟨rfl, rfl, rfl, fun ts m hts hm => hts⟩
    obtain ⟨hch, hca, hcb, hcn⟩ := hplain
    have hrest : ∀ w : ConnTask → Nat, weigh w ((noteTask { s with stack := rest }
        (.readHandler none n)).apply ⟨{ s.conn with inputBuffer_ := b },
          calls ++ [.readAgain n], []⟩).tasks =
        weigh w calls + (w (.readAgain n) + weigh w { s with stack := rest }.tasks) := by
      intro w
      rw [tasks_run]
      simp
    -- the bytes move from behind the readable bytes into them
    rw [Buffer.hasWritten_eq h.valid hroom] at hb
    obtain rfl := Except.ok.inj hb
    have hwriter := h.valid.writer_le
    have hreader := h.valid.reader_le
    have hcontent : s.conn.inputBuffer_.content ++ slice s.conn.inputBuffer_.buffer_
        s.conn.inputBuffer_.writerIndex_ (s.conn.inputBuffer_.writerIndex_ + n) =
        slice s.conn.inputBuffer_.buffer_ s.conn.inputBuffer_.readerIndex_
          (s.conn.inputBuffer_.writerIndex_ + n) :=
      slice_append_slice hreader (Nat.le_add_right _ _) (by omega)
    apply Incoming.handled
    · refine ⟨?_, ?_, h.valid.reserve, h.valid.size_le⟩
      · exact Nat.le_trans hreader (Nat.le_add_right _ _)
      · show s.conn.inputBuffer_.writerIndex_ + n ≤ s.conn.inputBuffer_.buffer_.length
        omega
    · exact hreads
    · rw [hrest, hch, hhandler]
      rfl
    · rw [hrest, hca, hagain]
      exact Nat.le_refl 1
    · rw [hrest, hcb, Nat.zero_add]
      exact hbytes
    · show (noteTask { s with stack := rest } (.readHandler none n)).consumed ++ slice
        s.conn.inputBuffer_.buffer_ s.conn.inputBuffer_.readerIndex_
          (s.conn.inputBuffer_.writerIndex_ + n) = _
      rw [← hcontent, noteTask_consumed, apply_received, noteTask_received, ← List.append_assoc]
      exact hstream
    · rw [tasks_run, List.flatMap_nil, List.append_nil, List.append_assoc]
      refine hcn _ n ⟨?_, h.nested_rest hs⟩ (List.mem_cons_self ..)
      intro hr
      cases hr
    · exact hconnecting
  · exact absurd rfl hne

/-- A `readHandler` with an error counts nothing. -/
theorem Incoming.failed (h : Incoming s) {e : ErrorCode} {n : Nat} {rest : List ConnTask}
    {eff : Effect} (hs : s.stack = .readHandler (some e) n :: rest)
    (he : s.conn.readHandler (some s.conn.loop_) (some e) n = .ok eff)
    (hconnecting : eff.conn.state_ ≠ .kConnecting) :
    Incoming ((noteTask { s with stack := rest } (.readHandler (some e) n)).apply eff) := by
  obtain ⟨hreads, hhandler, hagain⟩ := h.alone hs rfl
  have hbytes := h.bytes_le
  rw [tasks_cons hs, weigh_cons] at hbytes
  rcases readHandler_eq_ok.1 he with ⟨hnone, -⟩ | ⟨-, -, -, rfl⟩
  · cases hnone
  · obtain ⟨again, hcalls⟩ : ∃ again, (if some e = some ErrorCode.eof then [] else
        [ConnTask.readAgain n]) = again := ⟨_, rfl⟩
    rw [hcalls]
    have hplain : weigh handlerOf again = 0 ∧ weigh againOf again ≤ 1 ∧
        weigh bytesOf again ≤ n ∧ ∀ u ∈ again, inMessage u = false := by
      subst hcalls
      split_ifs <;> simp [handlerOf, againOf, bytesOf, inMessage]
    obtain ⟨hah, haa, hab, ham⟩ := hplain
    have hrest : ∀ w : ConnTask → Nat, w (.callback (.connection false)) = 0 →
        w (.callback .close) = 0 → w .release = 0 →
        weigh w ((noteTask { s with stack := rest } (.readHandler (some e) n)).apply
          ⟨{ s.conn with state_ := .kDisconnected, reading_ := false },
            [.callback (.connection false), .callback .close, .release] ++ again, []⟩).tasks =
        weigh w again + weigh w { s with stack := rest }.tasks := by
      intro w hdown hclose hrelease
      rw [tasks_run]
      simp [hdown, hclose, hrelease]
    apply Incoming.handled
    · exact h.valid
    · exact hreads
    · rw [hrest handlerOf rfl rfl rfl, hah, hhandler]
    · rw [hrest againOf rfl rfl rfl, hagain]
      exact haa
    · rw [hrest bytesOf rfl rfl rfl]
      exact Nat.le_trans (Nat.add_le_add_right hab _) hbytes
    · have hstream := h.stream
      have harr : weigh arrivedOf s.tasks = 0 := by
        rw [tasks_cons hs, weigh_cons, weigh_arrivedOf_eq_zero hhandler]
        rfl
      rw [unhandled_eq_nil harr, List.append_nil] at hstream
      exact hstream
    · rw [tasks_run, List.flatMap_nil, List.append_nil]
      refine (h.nested_rest hs).prepend _ ?_
      intro u hu
      rcases List.mem_append.1 hu with hu | hu
      · simp only [List.mem_cons, List.not_mem_nil, or_false] at hu
        rcases hu with rfl | rfl | rfl <;> rfl
      · exact ham u hu
    · exact hconnecting

/-- The end of a `readHandler`. -/
theorem Incoming.again (h : Incoming s) {n : Nat} {rest : List ConnTask} {eff : Effect}
    (hs : s.stack = .readAgain n :: rest) (he : s.conn.readAgain n = .ok eff)
    (hconnecting : eff.conn.state_ ≠ .kConnecting) :
    Incoming ((noteTask { s with stack := rest } (.readAgain n)).apply eff) := by
  obtain ⟨hreads, hhandler, hagain⟩ := h.alone hs rfl
  have hbytes := h.bytes_le
  rw [tasks_cons hs, weigh_cons] at hbytes
  have hold : weigh handlerOf s.tasks = 0 := by
    rw [tasks_cons hs, weigh_cons, hhandler]
    rfl
  have hstream := h.stream_of_handled hold
  have htasks : ∀ c : TcpConnection, ((noteTask { s with stack := rest } (.readAgain n)).apply
      ⟨c, [], []⟩).tasks = { s with stack := rest }.tasks := by
    intro c
    rw [tasks_run]
    simp
  rcases readAgain_eq_ok.1 he with ⟨-, b, hb, rfl⟩ | ⟨-, rfl⟩
  · -- the next read, into the room the buffer has made
    have hno : s.conn.inputBuffer_.NoOverflow n :=
      Buffer.noOverflow_of_le h.valid (Nat.le_trans (Nat.le_add_right _ _) hbytes)
    obtain ⟨hvalid, hcontent, -⟩ := Buffer.ensureWritableBytes_spec h.valid hno hb
    apply Incoming.start
    · exact hvalid
    · show s.conn.socket_.reads ++ [b.writeRegion] = [b.writeRegion]
      rw [hreads, List.nil_append]
    · rw [htasks]
      exact hhandler
    · rw [htasks]
      exact hagain
    · rw [← hcontent] at hstream
      exact hstream
    · rw [htasks]
      exact h.nested_rest hs
    · exact hconnecting
  · apply Incoming.handled
    · exact h.valid
    · exact hreads
    · rw [htasks]
      exact hhandler
    · rw [htasks, hagain]
      exact Nat.zero_le 1
    · rw [htasks, weigh_bytesOf_eq_zero hhandler hagain]
      exact Nat.zero_le _
    · exact hstream
    · rw [htasks]
      exact h.nested_rest hs
    · exact hconnecting

/-- A task that starts a read while none is under way. -/
theorem Incoming.fresh (h : Incoming s) {t : ConnTask} {rest calls : List ConnTask}
    {c : TcpConnection} (hs : s.stack = t :: rest) (hzero : s.readsUnderWay = 0)
    (hbuffer : c.inputBuffer_ = s.conn.inputBuffer_)
    (hreads : c.socket_.reads = s.conn.socket_.reads ++ [c.inputBuffer_.writeRegion])
    (hconnecting : c.state_ ≠ .kConnecting)
    (hcalls : weigh handlerOf calls = 0 ∧ weigh againOf calls = 0 ∧
      ∀ u ∈ calls, inMessage u = false) :
    Incoming ((noteTask { s with stack := rest } t).apply ⟨c, calls, []⟩) := by
  obtain ⟨hnil, hhandler, hagain⟩ := of_underWay_eq_zero hzero
  obtain ⟨hch, hca, hcm⟩ := hcalls
  have hrun : ∀ w : ConnTask → Nat, w t +
      weigh w ((noteTask { s with stack := rest } t).apply ⟨c, calls, []⟩).tasks =
        weigh w s.tasks + weigh w calls := by
    intro w
    rw [weigh_run w hs, Effect.tasks, List.flatMap_nil, List.append_nil]
  have hrunh := hrun handlerOf
  have hruna := hrun againOf
  rw [hhandler, hch] at hrunh
  rw [hagain, hca] at hruna
  apply Incoming.start
  · show c.inputBuffer_.Valid
    rw [hbuffer]
    exact h.valid
  · show c.socket_.reads = _
    rw [hreads, hnil, List.nil_append]
    rfl
  · omega
  · omega
  · rw [apply_consumed, noteTask_consumed, apply_received, noteTask_received, apply_conn]
    show s.consumed ++ c.inputBuffer_.content = s.received
    rw [hbuffer]
    exact h.stream_of_handled hhandler
  · rw [tasks_run, List.flatMap_nil, List.append_nil]
    exact (h.nested_rest hs).prepend _ hcm
  · exact hconnecting

/-- A task that has nothing to do with reads. -/
theorem Incoming.other (h : Incoming s) {t : ConnTask} {rest : List ConnTask} {eff : Effect}
    (hs : s.stack = t :: rest) (he : s.conn.exec (some s.conn.loop_) t = .ok eff)
    (ht : touchesRead t = false) (hconnecting : eff.conn.state_ ≠ .kConnecting) :
    Incoming ((noteTask { s with stack := rest } t).apply eff) := by
  obtain ⟨hbuffer, hreads, hhandler, hagain, hmessage⟩ := exec_input he ht
  have hth : handlerOf t = 0 := by
    cases t with
    | readHandler error n => cases ht
    | _ => rfl
  have hta : againOf t = 0 := by
    cases t with
    | readAgain n => cases ht
    | _ => rfl
  have hrun : ∀ w : ConnTask → Nat, w t = 0 → weigh w eff.tasks = 0 →
      weigh w ((noteTask { s with stack := rest } t).apply eff).tasks = weigh w s.tasks := by
    intro w hwt hwe
    have hw := weigh_run w hs eff
    rw [hwt, hwe] at hw
    omega
  apply h.frame hbuffer hreads
  · simp
  · simp
  · exact hrun handlerOf hth hhandler
  · exact hrun againOf hta hagain
  · exact hrun arrivedOf (arrivedOf_eq_zero hth) (weigh_arrivedOf_eq_zero hhandler)
  · exact hrun bytesOf (bytesOf_eq_zero hth hta) (weigh_bytesOf_eq_zero hhandler hagain)
  · rw [tasks_run]
    by_cases hcall : ∃ u ∈ eff.tasks, inMessage u = true
    · -- the call of the message callback is replaced by its code
      obtain ⟨u, hu, hum⟩ := hcall
      obtain ⟨htm, hcalls, hposts⟩ := hmessage u hu hum
      have hnested := h.nested
      rw [tasks_cons hs] at hnested
      obtain ⟨hagain', hrest⟩ := hnested
      obtain ⟨n, hn⟩ := hagain' htm
      rw [hcalls, hposts, List.flatMap_nil, List.append_nil]
      exact ⟨fun _ => ⟨n, hn⟩, hrest⟩
    · have hplain : ∀ u ∈ eff.tasks, inMessage u = false := by
        intro u hu
        cases hum : inMessage u with
        | false => rfl
        | true => exact absurd ⟨u, hu, hum⟩ hcall
      refine Nested.append _ ((h.nested_rest hs).prepend _ ?_) ?_
      · exact fun u hu => hplain u (List.mem_append_left _ hu)
      · exact fun u hu => hplain u (List.mem_append_right _ hu)
  · exact fun hk => absurd hk hconnecting

/-- Running a task. -/
theorem Incoming.run (h : Incoming s) (hclosing : Closing s) (hC : SerialReads s .run)
    {t : ConnTask} {rest : List ConnTask} {eff : Effect} (hs : s.stack = t :: rest)
    (he : s.conn.exec (some s.conn.loop_) t = .ok eff) :
    Incoming ((noteTask { s with stack := rest } t).apply eff) := by
  have hconnecting : eff.conn.state_ ≠ .kConnecting := by
    apply exec_connecting he
    intro hstate
    have hstack := hclosing.connecting hstate
    rw [hs] at hstack
    exact (List.cons.inj hstack).1
  by_cases ht : touchesRead t = false
  · exact h.other hs he ht hconnecting
  · cases t with
    | readHandler error n =>
      cases error with
      | none => exact h.written hs he hconnecting
      | some e => exact h.failed hs he hconnecting
    | readAgain n => exact h.again hs he hconnecting
    | startReadInLoop =>
      obtain rfl := pure_eq_ok.1 he
      unfold startReadInLoop at hconnecting ⊢
      cases hreading : s.conn.reading_ with
      | false =>
        have hzero : s.readsUnderWay = 0 := hC (by rw [hs]; rfl) hreading
        rw [hreading] at hconnecting
        exact h.fresh hs hzero rfl rfl hconnecting ⟨rfl, rfl, nofun⟩
      | true =>
        have hnone : ∀ w : ConnTask → Nat, w .startReadInLoop = 0 →
            weigh w ((noteTask { s with stack := rest } .startReadInLoop).apply
              ⟨s.conn, [], []⟩).tasks = weigh w s.tasks := by
          intro w hw
          have hrun := weigh_run w hs ⟨s.conn, [], []⟩
          rw [hw, Nat.zero_add] at hrun
          exact hrun
        show Incoming ((noteTask { s with stack := rest } .startReadInLoop).apply ⟨s.conn, [], []⟩)
        refine h.frame rfl rfl rfl rfl ?_ ?_ ?_ ?_ ?_ ?_
        · exact hnone handlerOf rfl
        · exact hnone againOf rfl
        · exact hnone arrivedOf rfl
        · exact hnone bytesOf rfl
        · rw [tasks_run, List.flatMap_nil, List.append_nil]
          exact h.nested_rest hs
        · exact fun hk => hk
    | connectEstablished =>
      obtain ⟨-, hstate, rfl⟩ := connectEstablished_eq_ok.1 he
      exact h.fresh hs (h.connecting hstate) rfl rfl hconnecting
        ⟨rfl, rfl, by simp [inMessage]⟩
    | _ => exact absurd rfl ht

/-- A call of the connection by the user. -/
theorem Incoming.call (h : Incoming s) {x : ConnCall} {here : Option LoopId} {eff : Effect}
    (he : s.conn.call here x = .ok eff) : Incoming ((s.noteCall x).apply eff) := by
  obtain ⟨hbuffer, hreads, hhandler, hagain, hmessage⟩ := call_input he
  have htasks : (s.noteCall x).tasks = s.tasks := by
    simp [tasks]
  have hsame : ∀ w, weigh w eff.tasks = 0 →
      weigh w ((s.noteCall x).apply eff).tasks = weigh w s.tasks := by
    intro w hw
    rw [weigh_apply, htasks, hw, Nat.add_zero]
  apply h.frame hbuffer hreads
  · simp
  · simp
  · exact hsame handlerOf hhandler
  · exact hsame againOf hagain
  · exact hsame arrivedOf (weigh_arrivedOf_eq_zero hhandler)
  · exact hsame bytesOf (weigh_bytesOf_eq_zero hhandler hagain)
  · rw [tasks_apply, htasks]
    refine Nested.append _ (h.nested.prepend _ ?_) ?_
    · exact fun u hu => hmessage u (List.mem_append_left _ hu)
    · exact fun u hu => hmessage u (List.mem_append_right _ hu)
  · exact fun hk => (call_connecting he).1 hk

/-- Tasks of no weight may come and go. -/
theorem Incoming.retask (h : Incoming s) {stack : List ConnTask} {queue : List Functor}
    (hw : ∀ w : ConnTask → Nat, w .connectDestroyed = 0 → w .release = 0 →
      (∀ k, w (.inCallback k) = 0) →
      weigh w { s with stack := stack, queue := queue }.tasks = weigh w s.tasks)
    (hnested : Nested { s with stack := stack, queue := queue }.tasks) :
    Incoming { s with stack := stack, queue := queue } :=
  h.frame rfl rfl rfl rfl (hw _ rfl rfl fun _ => rfl) (hw _ rfl rfl fun _ => rfl)
    (hw _ rfl rfl fun _ => rfl) (hw _ rfl rfl fun _ => rfl) hnested fun hk => hk

/-- The kernel delivers data to the read that is outstanding. -/
theorem Incoming.receive (h : Incoming s) {data : List UInt8} {r : TcpConnection × ConnTask}
    (hr : s.conn.receive data = some r) :
    Incoming { s.complete r with received := s.received ++ data } := by
  obtain ⟨region, rest, hreads, hlen, -, rfl⟩ := receive_eq_some hr
  have hregion : region = s.conn.inputBuffer_.writeRegion :=
    h.region region (by rw [hreads]; exact List.mem_cons_self ..)
  have hle := h.underWay_le
  rw [readsUnderWay, hreads, List.length_cons] at hle
  have hrest : rest = [] := List.eq_nil_of_length_eq_zero (by omega)
  have hhandler : weigh handlerOf s.tasks = 0 := by omega
  have hagain : weigh againOf s.tasks = 0 := by omega
  subst hregion hrest
  have hfresh : (if s.conn.inputBuffer_.writeRegion.size = s.conn.inputBuffer_.buffer_.length
      then s.conn.inputBuffer_.store s.conn.inputBuffer_.writeRegion.off data
      else s.conn.inputBuffer_) =
      s.conn.inputBuffer_.store s.conn.inputBuffer_.writerIndex_ data := if_pos rfl
  rw [hfresh]
  have hwritable : data.length ≤ s.conn.inputBuffer_.writableBytes := hlen
  rw [Buffer.writableBytes_eq h.valid] at hwritable
  have hwriter := h.valid.writer_le
  have hfit : s.conn.inputBuffer_.writerIndex_ + data.length ≤
      s.conn.inputBuffer_.buffer_.length := by omega
  have hsize : (s.conn.inputBuffer_.store s.conn.inputBuffer_.writerIndex_ data).buffer_.length =
      s.conn.inputBuffer_.buffer_.length := length_overwrite hfit
  obtain ⟨hvalid, hcontent⟩ := Buffer.store_valid h.valid (Nat.le_refl _) hfit
  have hstream := h.stream_of_handled hhandler
  have hw : ∀ (w : ConnTask → Nat) (c : TcpConnection) (received : List UInt8),
      weigh w ({ s.complete (c, .readHandler none data.length) with
        received := received } : Session).tasks =
      weigh w s.tasks + w (.readHandler none data.length) := by
    intro w c received
    exact weigh_complete w s c (.readHandler none data.length)
  constructor
  · exact hvalid
  · rw [readsUnderWay, hw, hw, hhandler, hagain]
    exact Nat.le_refl _
  · intro r hr'
    cases hr'
  · rw [hw, weigh_arrivedOf_eq_zero hhandler]
    show 0 + data.length ≤
      (s.conn.inputBuffer_.store s.conn.inputBuffer_.writerIndex_ data).buffer_.length -
        s.conn.inputBuffer_.writerIndex_
    rw [hsize]
    omega
  · rw [hw, weigh_bytesOf_eq_zero hhandler hagain]
    have hs := h.valid.size_le
    show 0 + data.length ≤ maxSize
    omega
  · rw [unhandled, hw, weigh_arrivedOf_eq_zero hhandler]
    show s.consumed ++ (s.conn.inputBuffer_.store s.conn.inputBuffer_.writerIndex_ data).content ++
      slice (overwrite s.conn.inputBuffer_.buffer_ s.conn.inputBuffer_.writerIndex_ data)
        s.conn.inputBuffer_.writerIndex_
        (s.conn.inputBuffer_.writerIndex_ + (0 + data.length)) = s.received ++ data
    rw [hcontent, hstream, Nat.zero_add, slice_overwrite_self hfit]
  · show Nested (s.complete _).tasks
    rw [tasks_complete]
    exact h.nested.append _ (by simp [inMessage])
  · intro hk
    have hzero := h.connecting hk
    rw [readsUnderWay, hreads, List.length_singleton] at hzero
    omega

/-- The outstanding read ends with an error. -/
theorem Incoming.readFails (h : Incoming s) {e : ErrorCode} {r : TcpConnection × ConnTask}
    (hr : s.conn.readFails e = some r) : Incoming (s.complete r) := by
  obtain ⟨region, rest, hreads, rfl⟩ := readFails_eq_some hr
  have hle := h.underWay_le
  rw [readsUnderWay, hreads, List.length_cons] at hle
  have hrest : rest = [] := List.eq_nil_of_length_eq_zero (by omega)
  have hhandler : weigh handlerOf s.tasks = 0 := by omega
  have hagain : weigh againOf s.tasks = 0 := by omega
  subst hrest
  constructor
  · exact h.valid
  · rw [readsUnderWay, weigh_complete, weigh_complete, hhandler, hagain]
    exact Nat.le_refl _
  · intro r hr'
    cases hr'
  · rw [weigh_complete]
    exact h.room
  · rw [weigh_complete]
    exact h.bytes_le
  · rw [unhandled, weigh_complete]
    exact h.stream
  · rw [tasks_complete]
    exact h.nested.append _ (by simp [inMessage])
  · intro hk
    have hzero := h.connecting hk
    rw [readsUnderWay, hreads, List.length_singleton] at hzero
    omega

/-- The message callback retrieves bytes. -/
theorem Incoming.consume (h : Incoming s) {len : Nat} {b : Buffer}
    (htop : s.stack.head? = some (.inCallback .message))
    (hb : s.conn.inputBuffer_.retrieve len = .ok b) :
    Incoming { s with
      conn := { s.conn with inputBuffer_ := b }
      consumed := s.consumed ++ s.conn.inputBuffer_.content.take len } := by
  obtain ⟨rest, hs⟩ : ∃ rest, s.stack = .inCallback .message :: rest := by
    cases hstack : s.stack with
    | nil =>
      rw [hstack] at htop
      cases htop
    | cons t rest =>
      rw [hstack] at htop
      exact ⟨rest, by rw [Option.some.inj htop]⟩
  -- the `readHandler` that made the call is the only read under way
  have hnested := h.nested
  rw [tasks_cons hs] at hnested
  obtain ⟨n, hn⟩ := hnested.1 rfl
  have hagain : 1 ≤ weigh againOf s.tasks := by
    rw [tasks_cons hs, weigh_cons]
    exact Nat.le_trans (le_weigh (f := againOf) hn) (Nat.le_add_left _ _)
  have hle := h.underWay_le
  rw [readsUnderWay] at hle
  have hreads : s.conn.socket_.reads = [] := List.eq_nil_of_length_eq_zero (by omega)
  have hhandler : weigh handlerOf s.tasks = 0 := by omega
  have harrived := weigh_arrivedOf_eq_zero hhandler
  obtain ⟨-, hvalid, hcontent, -⟩ := Buffer.retrieve_spec h.valid hb
  constructor
  · exact hvalid
  · exact h.underWay_le
  · intro r hr
    have hr' : r ∈ s.conn.socket_.reads := hr
    rw [hreads] at hr'
    cases hr'
  · show weigh arrivedOf s.tasks ≤ _
    rw [harrived]
    exact Nat.zero_le _
  · exact h.bytes_le
  · rw [unhandled_eq_nil (s := { s with
        conn := { s.conn with inputBuffer_ := b }
        consumed := s.consumed ++ s.conn.inputBuffer_.content.take len }) harrived,
      List.append_nil]
    show s.consumed ++ s.conn.inputBuffer_.content.take len ++ b.content = s.received
    rw [hcontent, List.append_assoc, List.take_append_drop]
    exact h.stream_of_handled hhandler
  · exact h.nested
  · exact h.connecting

/-- Every event of a run without overlapping reads keeps the invariant. -/
theorem Incoming.step (h : Incoming s) (hclosing : Closing s) {l : SessionEvent}
    (hC : SerialReads s l) (hl : Session.step l s = .ok s') : Incoming s' := by
  cases l with
  | dequeue =>
    obtain ⟨f, q, hs, hq, rfl⟩ := dequeue_eq_ok.1 hl
    have htasks := tasks_dequeue hs hq
    refine h.retask (fun w _ _ _ => congrArg (weigh w) htasks) ?_
    rw [htasks]
    exact h.nested
  | run =>
    obtain ⟨t, rest, e, hs, -, he, rfl⟩ := run_eq_ok.1 hl
    exact h.run hclosing hC hs he
  | return_ =>
    obtain ⟨k, rest, hs, rfl⟩ := return_eq_ok.1 hl
    refine h.retask (fun w _ _ hk => ?_) (h.nested_rest hs)
    rw [tasks_cons hs, weigh_cons, hk, Nat.zero_add]
  | call x =>
    obtain ⟨-, e, he, rfl⟩ := call_eq_ok.1 hl
    exact h.call he
  | callFrom x =>
    obtain ⟨e, he, rfl⟩ := callFrom_eq_ok.1 hl
    exact h.call he
  | destroy inline =>
    rcases destroy_eq_ok.1 hl with ⟨-, -, rfl⟩ | ⟨-, rfl⟩
    · refine h.retask (fun w hd hr _ => by simp [tasks, hd, hr]) ?_
      exact h.nested.prepend [.connectDestroyed, .release] (by simp [inMessage])
    · refine h.retask (fun w hd hr _ => by simp [tasks, Functor.body, hd, hr]) ?_
      have hnested := h.nested.append [.connectDestroyed, .release] (by simp [inMessage])
      simpa [tasks, Functor.body] using hnested
  | consume len =>
    obtain ⟨⟨htop, -⟩, b, hb, rfl⟩ := consume_eq_ok.1 hl
    exact h.consume htop hb
  | receive data =>
    obtain ⟨r, hr, rfl⟩ := receive_eq_ok.1 hl
    exact h.receive hr
  | readFails e =>
    obtain ⟨r, hr, rfl⟩ := readFails_eq_ok.1 hl
    exact h.readFails hr
  | transmit k stale =>
    obtain ⟨r, hr, rfl⟩ := transmit_eq_ok.1 hl
    obtain ⟨region, rest, -, -, -, rfl⟩ := transmit_eq_some hr
    have hw : ∀ w : ConnTask → Nat, w (.writeHandler none k) = 0 →
        weigh w (s.complete ({ s.conn with socket_ := { s.conn.socket_ with sends := rest } },
          .writeHandler none k)).tasks = weigh w s.tasks := by
      intro w hw
      rw [weigh_complete, hw, Nat.add_zero]
    refine h.frame rfl rfl rfl rfl (hw handlerOf rfl) (hw againOf rfl) (hw arrivedOf rfl)
      (hw bytesOf rfl) ?_ fun hk => hk
    show Nested (s.complete _).tasks
    rw [tasks_complete]
    exact h.nested.append _ (by simp [inMessage])
  | sendFails e =>
    obtain ⟨r, hr, rfl⟩ := sendFails_eq_ok.1 hl
    obtain ⟨region, rest, -, rfl⟩ := sendFails_eq_some hr
    have hw : ∀ w : ConnTask → Nat, w (.writeHandler (some e) 0) = 0 →
        weigh w (s.complete ({ s.conn with socket_ := { s.conn.socket_ with sends := rest } },
          .writeHandler (some e) 0)).tasks = weigh w s.tasks := by
      intro w hw
      rw [weigh_complete, hw, Nat.add_zero]
    refine h.frame rfl rfl rfl rfl (hw handlerOf rfl) (hw againOf rfl) (hw arrivedOf rfl)
      (hw bytesOf rfl) ?_ fun hk => hk
    rw [tasks_complete]
    exact h.nested.append _ (by simp [inMessage])

theorem incoming_initial (loop : LoopId) (name : List Char) (m w : Bool) :
    Incoming (Session.initial loop name m w) := by
  refine ⟨Buffer.initial_valid, Nat.zero_le _, nofun, Nat.zero_le _, Nat.zero_le _, rfl, ?_,
    fun _ => rfl⟩
  exact ⟨nofun, nofun, trivial⟩

/-- The invariant holds in every state of a run without overlapping reads. -/
theorem incoming_of_serialReads (hs : sessionMachine.ReachableUnder SerialReads s) :
    Incoming s := by
  induction hs with
  | init hinit =>
    obtain ⟨loop, name, m, w, rfl⟩ := hinit
    exact incoming_initial loop name m w
  | step hs hC hl ih => exact ih.step (closing_of_reachable hs.reachable) hC hl

/-! ## The results -/

/-- In a run without overlapping reads the input is intact in every state. -/
theorem inputIntegrity_of_serialReads {s : Session}
    (hs : sessionMachine.ReachableUnder SerialReads s) : InputIntegrity s :=
  (incoming_of_serialReads hs).integrity

/-- A message consumed in part, and another that arrives after reading was stopped. -/
theorem inputIntegrity_two_reads : ∃ s, (s.consumed = [1, 2] ∧ s.received = [1, 2, 3, 4]) ∧
    InputIntegrity s := by
  have hinit : sessionMachine.init (Session.initial 0 [] true false) := ⟨_, _, _, _, rfl⟩
  obtain ⟨s, hs, hobs⟩ := Machine.exists_of_run (C := SerialReads) hinit
    (l := [.run, .run, .return_, .run, .run, .receive [1, 2, 3], .dequeue, .run, .run,
      .consume 2, .return_, .run, .run, .callFrom .stopRead, .dequeue, .run, .receive [4]])
    (f := fun s => (s.consumed, s.received)) (a := ([1, 2], [1, 2, 3, 4])) (by decide +kernel)
  obtain ⟨hconsumed, hreceived⟩ := Prod.mk.inj hobs
  exact ⟨s, ⟨hconsumed, hreceived⟩, inputIntegrity_of_serialReads hs⟩

/-- A callback that stops and starts reading leaves two reads on one region: the second byte
received overwrites the first. -/
theorem not_inputIntegrity :
    ¬ ∀ s, sessionMachine.Reachable s → s.conn.state_ ≠ .kDisconnected → InputIntegrity s := by
  intro hall
  have hinit : sessionMachine.init (Session.initial 0 [] false false) := ⟨_, _, _, _, rfl⟩
  obtain ⟨s, hs, hobs⟩ := Machine.exists_of_run (C := fun _ _ => True) hinit
    (l := [.run, .run, .call .stopRead, .run, .call .startRead, .run, .return_, .run, .run,
      .receive [1], .receive [2], .dequeue, .run, .run, .dequeue, .run])
    (f := fun s => (s.conn.state_, s.consumed ++ s.conn.inputBuffer_.content ++ s.unhandled,
      s.received))
    (a := (.kConnected, [2, 0], [1, 2])) (by decide +kernel)
  obtain ⟨hstate, hrest⟩ := Prod.mk.inj hobs
  obtain ⟨hstream, hreceived⟩ := Prod.mk.inj hrest
  have hopen : s.conn.state_ ≠ .kDisconnected := by
    rw [hstate]
    decide
  have heq := (hall s hs hopen).stream
  rw [hstream, hreceived] at heq
  exact absurd heq (by decide)

end Session

end LibNetToy
