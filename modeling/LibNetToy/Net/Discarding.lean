import LibNetToy.Net.InputStream
import LibNetToy.Net.Transitions

/-!
# Connections that discard what they receive

Servers and clients are made with `defaultMessageCallback`, which empties the input buffer.  A
connection whose message callback does so keeps the buffer as it was made: it never grows,
whatever the peer sends and however reads were started, every completed read fits in, and
nothing stays in it but while the callback is about to run.
-/

namespace LibNetToy

open Memory

namespace Buffer

variable {b b' : Buffer} {n : Nat}

def defaultMessageCallback (b : Buffer) : Buffer :=
  b.retrieveAll

/-- Retrieving all readable bytes is what the default callback does. -/
theorem retrieve_readableBytes (hv : b.Valid) :
    b.retrieve b.readableBytes = .ok b.defaultMessageCallback := by
  have hlen : b.readableBytes = b.writerIndex_ - b.readerIndex_ := readableBytes_eq hv
  rw [hlen, retrieve_eq hv (Nat.le_refl _), if_neg (Nat.lt_irrefl _)]
  rfl

/-- There is room already. -/
theorem ensureWritableBytes_of_le (hv : b.Valid) (hn : n ≤ b.buffer_.length - b.writerIndex_) :
    b.ensureWritableBytes n = .ok b := by
  have hmax := hv.size_le
  have hno : b.NoOverflow n := noOverflow_of_le hv (by omega)
  rw [ensureWritableBytes_eq hv hno, if_neg (by omega)]

end Buffer

namespace Session

open TcpConnection

/-! ## The property -/

/-- The message callback empties the buffer and does not take a part of it. -/
def Discards (s : Session) : SessionEvent → Prop
  | .consume len => len = s.conn.inputBuffer_.readableBytes
  | .return_ =>
    s.stack.head? = some (.inCallback .message) → s.conn.inputBuffer_.readableBytes = 0
  | _ => True

instance (s : Session) (e : SessionEvent) : Decidable (Discards s e) :=
  match e with
  | .consume _ => inferInstanceAs (Decidable (_ = _))
  | .return_ => inferInstanceAs (Decidable (_ → _))
  | .call _ | .callFrom _ | .transmit _ _ | .sendFails _ | .dequeue | .run | .destroy _
  | .receive _ | .readFails _ => isTrue trivial

/-- The task handles a completed read or asks for room for the next one. -/
def handlesInput : ConnTask → Bool
  | .readHandler _ _ => true
  | .readAgain _ => true
  | _ => false

/-- The input buffer is as large as it was made, holds bytes only while the message callback is
about to run or running, and has room for every completed read and for the next one. -/
structure InputDiscarded (s : Session) : Prop where
  size : s.conn.inputBuffer_.buffer_.length = Buffer.kCheapPrepend + Buffer.kInitialSize
  left : s.conn.inputBuffer_.content ≠ [] → ∃ t ∈ s.stack, inMessage t = true
  written : ∀ n rest, s.stack = .readHandler none n :: rest →
    n ≤ s.conn.inputBuffer_.writableBytes
  room : ∀ n rest, s.stack = .readAgain n :: rest →
    s.conn.inputBuffer_.ensureWritableBytes n = .ok s.conn.inputBuffer_

/-! ## The invariant -/

/-- What handles input is the last thing on a stack. -/
def Last : List ConnTask → Prop
  | [] => True
  | t :: rest => (handlesInput t = true → rest = []) ∧ Last rest

theorem Last.prepend {ts : List ConnTask} (us : List ConnTask) (h : Last ts)
    (hus : ∀ u ∈ us, handlesInput u = false) : Last (us ++ ts) := by
  induction us with
  | nil => exact h
  | cons u us ih =>
    refine ⟨?_, ih fun v hv => hus v (List.mem_cons_of_mem _ hv)⟩
    intro hu
    rw [hus u (List.mem_cons_self ..)] at hu
    cases hu

theorem last_body {f : Functor} (hf : handlesInput f.task = false) : Last f.body := by
  have hbody : ∀ u ∈ f.body, handlesInput u = false := by
    intro u hu
    cases f with
    | raw t =>
      obtain rfl := List.mem_singleton.1 hu
      exact hf
    | bound t =>
      obtain rfl | hu := List.mem_cons.1 hu
      · exact hf
      · obtain rfl := List.mem_singleton.1 hu
        rfl
  have hnone : Last [] := trivial
  simpa using hnone.prepend f.body hbody

/-- The input side of a session whose message callback discards. -/
structure Discarding (s : Session) : Prop where
  valid : s.conn.inputBuffer_.Valid
  size : s.conn.inputBuffer_.buffer_.length = Buffer.kCheapPrepend + Buffer.kInitialSize
  reader : s.conn.inputBuffer_.readerIndex_ = Buffer.kCheapPrepend
  regions : ∀ r ∈ s.conn.socket_.reads, Buffer.kCheapPrepend ≤ r.off ∧
    r.off + r.len ≤ Buffer.kCheapPrepend + Buffer.kInitialSize
  bytes : ∀ t ∈ s.tasks, bytesOf t ≤ Buffer.kInitialSize
  stack : Last s.stack
  queue : ∀ f ∈ s.queue, Last f.body
  left : s.conn.inputBuffer_.writerIndex_ ≠ Buffer.kCheapPrepend →
    ∃ t ∈ s.stack, inMessage t = true

variable {s s' : Session}

/-- Without a message callback there is nothing in the buffer. -/
theorem Discarding.writer_eq (h : Discarding s) (hno : ∀ t ∈ s.stack, inMessage t = false) :
    s.conn.inputBuffer_.writerIndex_ = Buffer.kCheapPrepend := by
  by_contra hne
  obtain ⟨t, ht, hmessage⟩ := h.left hne
  rw [hno t ht] at hmessage
  cases hmessage

/-- Below a task that handles input there is nothing. -/
theorem Discarding.alone (h : Discarding s) {t : ConnTask} {rest : List ConnTask}
    (hs : s.stack = t :: rest) (ht : handlesInput t = true) : rest = [] := by
  have hlast := h.stack
  rw [hs] at hlast
  exact hlast.1 ht

/-- A task that handles input finds the buffer empty and has room. -/
theorem Discarding.empty (h : Discarding s) {t : ConnTask} {rest : List ConnTask}
    (hs : s.stack = t :: rest) (ht : handlesInput t = true) :
    s.conn.inputBuffer_.writerIndex_ = Buffer.kCheapPrepend ∧
      bytesOf t ≤ s.conn.inputBuffer_.buffer_.length - s.conn.inputBuffer_.writerIndex_ := by
  have hwriter : s.conn.inputBuffer_.writerIndex_ = Buffer.kCheapPrepend := by
    apply h.writer_eq
    rw [hs, h.alone hs ht]
    intro u hu
    obtain rfl := List.mem_singleton.1 hu
    cases u <;> first | rfl | cases ht
  refine ⟨hwriter, ?_⟩
  have hbytes := h.bytes t (by rw [tasks_cons hs]; exact List.mem_cons_self ..)
  rw [hwriter, h.size]
  omega

theorem Discarding.inputDiscarded (h : Discarding s) : InputDiscarded s := by
  refine ⟨h.size, ?_, ?_, ?_⟩
  · intro hcontent
    apply h.left
    intro hwriter
    apply hcontent
    rw [Buffer.content, hwriter, h.reader]
    exact slice_eq_nil (Nat.le_refl _)
  · intro n rest hs
    rw [Buffer.writableBytes_eq h.valid]
    exact (h.empty hs rfl).2
  · intro n rest hs
    exact Buffer.ensureWritableBytes_of_le h.valid (h.empty hs rfl).2

/-! ## What the events keep -/

/-- The buffer and the reads are the same, and no task that handles input is added. -/
theorem Discarding.frame (h : Discarding s)
    (hbuffer : s'.conn.inputBuffer_ = s.conn.inputBuffer_)
    (hreads : s'.conn.socket_.reads = s.conn.socket_.reads)
    (htasks : ∀ t ∈ s'.tasks, t ∈ s.tasks ∨ bytesOf t = 0) (hstack : Last s'.stack)
    (hqueue : ∀ f ∈ s'.queue, Last f.body)
    (hmessage : ∀ t ∈ s.stack, inMessage t = true → ∃ u ∈ s'.stack, inMessage u = true) :
    Discarding s' := by
  constructor
  · rw [hbuffer]
    exact h.valid
  · rw [hbuffer]
    exact h.size
  · rw [hbuffer]
    exact h.reader
  · rw [hreads]
    exact h.regions
  · intro t ht
    obtain hold | hzero := htasks t ht
    · exact h.bytes t hold
    · rw [hzero]
      exact Nat.zero_le _
  · exact hstack
  · exact hqueue
  · rw [hbuffer]
    intro hne
    obtain ⟨t, ht, htrue⟩ := h.left hne
    exact hmessage t ht htrue

/-- A read that is started lies behind the reserve. -/
theorem writeRegion_bounds {b : Buffer} (hv : b.Valid)
    (hsize : b.buffer_.length = Buffer.kCheapPrepend + Buffer.kInitialSize)
    (hreader : b.readerIndex_ = Buffer.kCheapPrepend) :
    Buffer.kCheapPrepend ≤ b.writeRegion.off ∧
      b.writeRegion.off + b.writeRegion.len ≤ Buffer.kCheapPrepend + Buffer.kInitialSize := by
  have hr := hv.reader_le
  have hw := hv.writer_le
  have hlen : b.writeRegion.len = b.buffer_.length - b.writerIndex_ :=
    Buffer.writableBytes_eq hv
  have hoff : b.writeRegion.off = b.writerIndex_ := rfl
  rw [hlen, hoff]
  omega

/-- After running a task that posts nothing. -/
theorem Discarding.ran (h : Discarding s) {t : ConnTask} {rest : List ConnTask} {eff : Effect}
    (hs : s.stack = t :: rest) (hvalid : eff.conn.inputBuffer_.Valid)
    (hsize : eff.conn.inputBuffer_.buffer_.length = Buffer.kCheapPrepend + Buffer.kInitialSize)
    (hreader : eff.conn.inputBuffer_.readerIndex_ = Buffer.kCheapPrepend)
    (hregions : ∀ r ∈ eff.conn.socket_.reads, r ∈ s.conn.socket_.reads ∨
      r = eff.conn.inputBuffer_.writeRegion)
    (hbytes : ∀ u ∈ eff.calls, bytesOf u ≤ Buffer.kInitialSize)
    (hlast : Last (eff.calls ++ rest)) (hposts : eff.posts = [])
    (hleft : eff.conn.inputBuffer_.writerIndex_ ≠ Buffer.kCheapPrepend →
      ∃ u ∈ eff.calls ++ rest, inMessage u = true) :
    Discarding ((noteTask { s with stack := rest } t).apply eff) := by
  constructor
  · exact hvalid
  · exact hsize
  · exact hreader
  · intro r hr
    obtain hold | rfl := hregions r hr
    · exact h.regions r hold
    · exact writeRegion_bounds hvalid hsize hreader
  · intro u hu
    rw [tasks_run, hposts, List.flatMap_nil, List.append_nil] at hu
    obtain hnew | hold := List.mem_append.1 hu
    · exact hbytes u hnew
    · apply h.bytes
      rw [tasks_cons hs]
      exact List.mem_cons_of_mem _ hold
  · simpa using hlast
  · simpa [hposts] using h.queue
  · simpa using hleft

/-- A task that does not handle input and leaves the buffer alone. -/
theorem Discarding.other (h : Discarding s) {t : ConnTask} {rest : List ConnTask} {eff : Effect}
    (hs : s.stack = t :: rest) (hbuffer : eff.conn.inputBuffer_ = s.conn.inputBuffer_)
    (hregions : ∀ r ∈ eff.conn.socket_.reads, r ∈ s.conn.socket_.reads ∨
      r = s.conn.inputBuffer_.writeRegion)
    (hcalls : ∀ u ∈ eff.calls, bytesOf u = 0 ∧ handlesInput u = false) (hposts : eff.posts = [])
    (hmessage : inMessage t = true → ∃ u ∈ eff.calls, inMessage u = true) :
    Discarding ((noteTask { s with stack := rest } t).apply eff) := by
  have hlast := h.stack
  rw [hs] at hlast
  refine h.ran hs ?_ ?_ ?_ ?_ ?_ ?_ hposts ?_
  · rw [hbuffer]
    exact h.valid
  · rw [hbuffer]
    exact h.size
  · rw [hbuffer]
    exact h.reader
  · rw [hbuffer]
    exact hregions
  · intro u hu
    rw [(hcalls u hu).1]
    exact Nat.zero_le _
  · exact Last.prepend _ hlast.2 fun u hu => (hcalls u hu).2
  · rw [hbuffer]
    intro hne
    obtain ⟨u, hu, htrue⟩ := h.left hne
    rw [hs] at hu
    obtain rfl | hrest := List.mem_cons.1 hu
    · obtain ⟨v, hv, hvtrue⟩ := hmessage htrue
      exact ⟨v, List.mem_append_left _ hv, hvtrue⟩
    · exact ⟨u, List.mem_append_right _ hrest, htrue⟩

/-- Running a task. -/
theorem Discarding.run (h : Discarding s) (hm : s.conn.messageCallback_ = true) {t : ConnTask}
    {rest : List ConnTask} {eff : Effect} (hs : s.stack = t :: rest)
    (ht : ∀ k, t ≠ .inCallback k) (he : s.conn.exec (some s.conn.loop_) t = .ok eff) :
    Discarding ((noteTask { s with stack := rest } t).apply eff) := by
  have hsame : ∀ r ∈ s.conn.socket_.reads, r ∈ s.conn.socket_.reads ∨
      r = s.conn.inputBuffer_.writeRegion := fun r hr => .inl hr
  have hmore : ∀ r ∈ s.conn.socket_.reads ++ [s.conn.inputBuffer_.writeRegion],
      r ∈ s.conn.socket_.reads ∨ r = s.conn.inputBuffer_.writeRegion :=
    fun r hr => (List.mem_append.1 hr).imp_right List.mem_singleton.1
  have hquiet : false = true → ∃ u ∈ eff.calls, inMessage u = true := by
    intro hfalse
    cases hfalse
  cases exec_runs he with
  | @received n b hb =>
    obtain ⟨hwriter, hroom⟩ := h.empty hs rfl
    have hbytes : n ≤ Buffer.kInitialSize :=
      h.bytes (.readHandler none n) (by rw [tasks_cons hs]; exact List.mem_cons_self ..)
    obtain rfl := h.alone hs rfl
    have hroom : n ≤ s.conn.inputBuffer_.buffer_.length - s.conn.inputBuffer_.writerIndex_ := hroom
    have hvalid := h.valid
    have hwritten := hvalid.writer_le
    have hreader := hvalid.reader_le
    rw [Buffer.hasWritten_eq h.valid hroom] at hb
    obtain rfl := Except.ok.inj hb
    refine h.ran hs ⟨?_, ?_, hvalid.reserve, hvalid.size_le⟩ h.size h.reader ?_ ?_ ?_ rfl ?_
    · show s.conn.inputBuffer_.readerIndex_ ≤ s.conn.inputBuffer_.writerIndex_ + n
      omega
    · show s.conn.inputBuffer_.writerIndex_ + n ≤ s.conn.inputBuffer_.buffer_.length
      omega
    · exact fun r hr => .inl hr
    · simp [hm, bytesOf, hbytes]
    · simp [hm, Last, handlesInput]
    · intro _
      exact ⟨.callback .message, by simp [hm], rfl⟩
  | @readFailed e n hhere hopen =>
    obtain ⟨hwriter, -⟩ := h.empty hs rfl
    have hbytes : n ≤ Buffer.kInitialSize :=
      h.bytes (.readHandler (some e) n) (by rw [tasks_cons hs]; exact List.mem_cons_self ..)
    obtain rfl := h.alone hs rfl
    refine h.ran hs h.valid h.size h.reader (fun r hr => .inl hr) ?_ ?_ rfl ?_
    · split_ifs <;> simp [bytesOf, hbytes]
    · split_ifs <;> simp [Last, handlesInput]
    · exact fun hne => absurd hwriter hne
  | sent hb =>
    refine h.other hs rfl hsame ?_ rfl hquiet
    split_ifs <;> simp [bytesOf, handlesInput]
  | sendFailed | isReading | stopsReading | isStopped | shutsDown | isClosed | isDestroyed
  | releases => exact h.other hs rfl hsame (by simp) rfl hquiet
  | startsReading => exact h.other hs rfl hmore (by simp) rfl hquiet
  | closes | destroys => exact h.other hs rfl hsame (by simp [bytesOf, handlesInput]) rfl hquiet
  | establishes => exact h.other hs rfl hmore (by simp [bytesOf, handlesInput]) rfl hquiet
  | @readsAgain n b hreading hb =>
    obtain ⟨hwriter, hroom⟩ := h.empty hs rfl
    obtain rfl := h.alone hs rfl
    rw [Buffer.ensureWritableBytes_of_le (n := n) h.valid hroom] at hb
    obtain rfl := Except.ok.inj hb
    exact h.ran hs h.valid h.size h.reader hmore (by simp) trivial rfl
      fun hne => absurd hwriter hne
  | endsReading =>
    obtain ⟨hwriter, -⟩ := h.empty hs rfl
    obtain rfl := h.alone hs rfl
    exact h.ran hs h.valid h.size h.reader hsame (by simp) trivial rfl
      fun hne => absurd hwriter hne
  | @calls k =>
    refine h.other hs rfl hsame (by simp [bytesOf, handlesInput]) rfl ?_
    intro hmessage
    exact ⟨.inCallback k, by simp, by cases k <;> first | rfl | cases hmessage⟩
  | returns => exact absurd rfl (ht _)

/-- A call of the connection by the user. -/
theorem Discarding.call (h : Discarding s) {x : ConnCall} {here : Option LoopId} {eff : Effect}
    (he : s.conn.call here x = .ok eff) : Discarding ((s.noteCall x).apply eff) := by
  obtain ⟨hbuffer, hreads, hhandler, hagain, -⟩ := call_input he
  have hnone : ∀ u ∈ eff.tasks, handlesInput u = false ∧ bytesOf u = 0 := by
    intro u hu
    have hh := weigh_eq_zero.1 hhandler u hu
    have ha := weigh_eq_zero.1 hagain u hu
    refine ⟨?_, bytesOf_eq_zero hh ha⟩
    cases u <;> first
      | rfl
      | exact absurd hh Nat.one_ne_zero
      | exact absurd ha Nat.one_ne_zero
  refine h.frame hbuffer hreads ?_ ?_ ?_ ?_
  · intro u hu
    have htasks : (s.noteCall x).tasks = s.tasks := by simp [tasks]
    rw [tasks_apply, htasks] at hu
    simp only [List.mem_append] at hu
    obtain (hu | hu) | hu := hu
    · exact .inr (hnone u (List.mem_append_left _ hu)).2
    · exact .inl hu
    · exact .inr (hnone u (List.mem_append_right _ hu)).2
  · rw [apply_stack, noteCall_stack]
    exact Last.prepend _ h.stack fun u hu => (hnone u (List.mem_append_left _ hu)).1
  · intro f hf
    rw [apply_queue, noteCall_queue] at hf
    obtain hf | hf := List.mem_append.1 hf
    · exact h.queue f hf
    · apply last_body
      refine (hnone f.task (List.mem_append_right _ (List.mem_flatMap.2 ⟨f, hf, ?_⟩))).1
      cases f <;> simp [Functor.body, Functor.task]
  · intro t ht htrue
    exact ⟨t, by rw [apply_stack, noteCall_stack]; exact List.mem_append_right _ ht, htrue⟩

/-- A completion whose handler counts no more than the region that was read into. -/
theorem Discarding.complete (h : Discarding s) {c : TcpConnection} {t : ConnTask}
    (hvalid : c.inputBuffer_.Valid)
    (hsize : c.inputBuffer_.buffer_.length = s.conn.inputBuffer_.buffer_.length)
    (hreader : c.inputBuffer_.readerIndex_ = s.conn.inputBuffer_.readerIndex_)
    (hwriter : c.inputBuffer_.writerIndex_ = s.conn.inputBuffer_.writerIndex_)
    (hreads : ∀ r ∈ c.socket_.reads, r ∈ s.conn.socket_.reads)
    (hbytes : bytesOf t ≤ Buffer.kInitialSize) : Discarding (s.complete (c, t)) := by
  constructor
  · exact hvalid
  · exact hsize.trans h.size
  · exact hreader.trans h.reader
  · exact fun r hr => h.regions r (hreads r hr)
  · intro u hu
    rw [tasks_complete] at hu
    obtain hu | hu := List.mem_append.1 hu
    · exact h.bytes u hu
    · obtain rfl := List.mem_singleton.1 hu
      exact hbytes
  · exact h.stack
  · intro f hf
    obtain hf | hf := List.mem_append.1 hf
    · exact h.queue f hf
    · obtain rfl := List.mem_singleton.1 hf
      exact ⟨fun _ => rfl, trivial⟩
  · intro hne
    exact h.left fun heq => hne (hwriter.trans heq)

/-- Every event keeps a session that discards as it is. -/
theorem Discarding.step (h : Discarding s) (hm : s.conn.messageCallback_ = true)
    {e : SessionEvent} (hC : Discards s e) (hstep : Session.step e s = .ok s') :
    Discarding s' := by
  cases e with
  | dequeue =>
    obtain ⟨f, q, hs, hq, rfl⟩ := dequeue_eq_ok.1 hstep
    refine h.frame rfl rfl ?_ ?_ ?_ ?_
    · intro t ht
      rw [tasks_dequeue hs hq] at ht
      exact .inl ht
    · exact h.queue f (by rw [hq]; exact List.mem_cons_self ..)
    · exact fun g hg => h.queue g (by rw [hq]; exact List.mem_cons_of_mem _ hg)
    · rw [hs]
      exact nofun
  | run =>
    obtain ⟨t, rest, eff, hs, ht, he, rfl⟩ := run_eq_ok.1 hstep
    exact h.run hm hs ht he
  | return_ =>
    obtain ⟨k, rest, hs, rfl⟩ := return_eq_ok.1 hstep
    have hlast := h.stack
    rw [hs] at hlast
    refine ⟨h.valid, h.size, h.reader, h.regions, ?_, hlast.2, h.queue, ?_⟩
    · intro t ht
      apply h.bytes
      rw [tasks_cons hs]
      exact List.mem_cons_of_mem _ ht
    · intro hne
      obtain ⟨t, ht, htrue⟩ := h.left hne
      rw [hs] at ht
      obtain rfl | ht := List.mem_cons.1 ht
      · -- the message callback has returned
        obtain rfl : k = .message := by cases k <;> first | rfl | cases htrue
        have hempty : s.conn.inputBuffer_.readableBytes = 0 := hC (by rw [hs]; rfl)
        rw [Buffer.readableBytes_eq h.valid, h.reader] at hempty
        have hr := h.valid.reader_le
        rw [h.reader] at hr
        exact absurd (Nat.le_antisymm (Nat.sub_eq_zero_iff_le.1 hempty) hr) hne
      · exact ⟨t, ht, htrue⟩
  | call x =>
    obtain ⟨-, eff, he, rfl⟩ := call_eq_ok.1 hstep
    exact h.call he
  | callFrom x =>
    obtain ⟨eff, he, rfl⟩ := callFrom_eq_ok.1 hstep
    exact h.call he
  | destroy inline =>
    obtain ⟨-, -, rfl⟩ | ⟨-, rfl⟩ := destroy_eq_ok.1 hstep
    · refine h.frame rfl rfl ?_ ?_ h.queue ?_
      · intro t ht
        simp only [tasks, List.cons_append, List.nil_append,
          List.mem_cons] at ht
        obtain rfl | rfl | ht := ht
        · exact .inr rfl
        · exact .inr rfl
        · exact .inl ht
      · exact Last.prepend [.connectDestroyed, .release] h.stack (by simp [handlesInput])
      · exact fun t ht htrue => ⟨t, List.mem_append_right _ ht, htrue⟩
    · refine h.frame rfl rfl ?_ h.stack ?_ fun t ht htrue => ⟨t, ht, htrue⟩
      · intro t ht
        simp only [tasks, List.flatMap_append, List.mem_append] at ht
        obtain ht | ht | ht := ht
        · exact .inl (List.mem_append_left _ ht)
        · exact .inl (List.mem_append_right _ ht)
        · simp only [List.flatMap_singleton, Functor.body, List.mem_cons, List.not_mem_nil,
            or_false] at ht
          obtain rfl | rfl := ht <;> exact .inr rfl
      · intro f hf
        obtain hf | hf := List.mem_append.1 hf
        · exact h.queue f hf
        · obtain rfl := List.mem_singleton.1 hf
          exact last_body rfl
  | consume len =>
    obtain ⟨-, b, hb, rfl⟩ := consume_eq_ok.1 hstep
    obtain rfl : len = s.conn.inputBuffer_.readableBytes := hC
    rw [Buffer.retrieve_readableBytes h.valid] at hb
    obtain rfl := Except.ok.inj hb
    exact ⟨Buffer.retrieveAll_valid h.valid, h.size, rfl, h.regions, h.bytes, h.stack, h.queue,
      fun hne => absurd rfl hne⟩
  | receive data =>
    obtain ⟨r, hr, rfl⟩ := receive_eq_ok.1 hstep
    obtain ⟨region, rest, hreads, hlen, -, rfl⟩ := receive_eq_some hr
    obtain ⟨hoff, hregion⟩ := h.regions region (by rw [hreads]; exact List.mem_cons_self ..)
    have hfit : region.off + data.length ≤ s.conn.inputBuffer_.buffer_.length := by
      rw [h.size]
      omega
    have hlength : (s.conn.inputBuffer_.store region.off data).buffer_.length =
        s.conn.inputBuffer_.buffer_.length := length_overwrite hfit
    have hvalid := h.valid
    have hcomplete : Discarding (s.complete ({ s.conn with
        socket_ := { s.conn.socket_ with reads := rest }
        inputBuffer_ := if region.size = s.conn.inputBuffer_.buffer_.length
          then s.conn.inputBuffer_.store region.off data else s.conn.inputBuffer_ },
        .readHandler none data.length)) := by
      refine h.complete ?_ ?_ ?_ ?_ ?_ ?_
      · split_ifs
        · exact ⟨hvalid.reader_le, hlength.symm ▸ hvalid.writer_le, hlength.symm ▸ hvalid.reserve,
            hlength.symm ▸ hvalid.size_le⟩
        · exact hvalid
      · split_ifs
        · exact hlength
        · rfl
      · split_ifs <;> rfl
      · split_ifs <;> rfl
      · intro r hr
        rw [hreads]
        exact List.mem_cons_of_mem _ hr
      · show data.length ≤ Buffer.kInitialSize
        omega
    exact ⟨hcomplete.valid, hcomplete.size, hcomplete.reader, hcomplete.regions,
      hcomplete.bytes, hcomplete.stack, hcomplete.queue, hcomplete.left⟩
  | readFails e =>
    obtain ⟨r, hr, rfl⟩ := readFails_eq_ok.1 hstep
    obtain ⟨region, rest, hreads, rfl⟩ := readFails_eq_some hr
    refine h.complete h.valid rfl rfl rfl ?_ (Nat.zero_le _)
    intro r hr
    rw [hreads]
    exact List.mem_cons_of_mem _ hr
  | transmit k stale =>
    obtain ⟨r, hr, rfl⟩ := transmit_eq_ok.1 hstep
    obtain ⟨region, rest, -, -, -, rfl⟩ := transmit_eq_some hr
    have hcomplete : Discarding (s.complete ({ s.conn with
        socket_ := { s.conn.socket_ with sends := rest } }, .writeHandler none k)) :=
      h.complete h.valid rfl rfl rfl (fun r hr => hr) (Nat.zero_le _)
    exact ⟨hcomplete.valid, hcomplete.size, hcomplete.reader, hcomplete.regions,
      hcomplete.bytes, hcomplete.stack, hcomplete.queue, hcomplete.left⟩
  | sendFails e =>
    obtain ⟨r, hr, rfl⟩ := sendFails_eq_ok.1 hstep
    obtain ⟨region, rest, -, rfl⟩ := sendFails_eq_some hr
    exact h.complete h.valid rfl rfl rfl (fun r hr => hr) (Nat.zero_le _)

theorem discarding_initial (loop : LoopId) (name : List Char) (m w : Bool) :
    Discarding (Session.initial loop name m w) := by
  refine ⟨Buffer.initial_valid, List.length_replicate, rfl, nofun, ?_, ?_, nofun,
    fun hne => absurd rfl hne⟩
  · simp [tasks, initial, bytesOf]
  · have hnone : Last [] := trivial
    exact hnone.prepend [.connectEstablished, .release] (by simp [handlesInput])

/-- What was set when the connection was made stays. -/
theorem setup_step {e : SessionEvent} (hstep : Session.step e s = .ok s') :
    SameSetup s.conn s'.conn := by
  cases e with
  | dequeue =>
    obtain ⟨f, q, -, -, rfl⟩ := dequeue_eq_ok.1 hstep
    exact SameSetup.refl _
  | run =>
    obtain ⟨t, rest, eff, -, -, he, rfl⟩ := run_eq_ok.1 hstep
    exact exec_setup he
  | return_ =>
    obtain ⟨k, rest, -, rfl⟩ := return_eq_ok.1 hstep
    exact SameSetup.refl _
  | call x =>
    obtain ⟨-, eff, he, rfl⟩ := call_eq_ok.1 hstep
    exact (call_setup he).1
  | callFrom x =>
    obtain ⟨eff, he, rfl⟩ := callFrom_eq_ok.1 hstep
    exact (call_setup he).1
  | destroy inline =>
    obtain ⟨-, -, rfl⟩ | ⟨-, rfl⟩ := destroy_eq_ok.1 hstep <;> exact SameSetup.refl _
  | consume len =>
    obtain ⟨-, b, -, rfl⟩ := consume_eq_ok.1 hstep
    exact ⟨rfl, rfl, rfl, rfl⟩
  | receive data =>
    obtain ⟨r, hr, rfl⟩ := receive_eq_ok.1 hstep
    obtain ⟨region, rest, -, -, -, rfl⟩ := receive_eq_some hr
    exact ⟨rfl, rfl, rfl, rfl⟩
  | readFails e =>
    obtain ⟨r, hr, rfl⟩ := readFails_eq_ok.1 hstep
    obtain ⟨region, rest, -, rfl⟩ := readFails_eq_some hr
    exact ⟨rfl, rfl, rfl, rfl⟩
  | transmit k stale =>
    obtain ⟨r, hr, rfl⟩ := transmit_eq_ok.1 hstep
    obtain ⟨region, rest, -, -, -, rfl⟩ := transmit_eq_some hr
    exact ⟨rfl, rfl, rfl, rfl⟩
  | sendFails e =>
    obtain ⟨r, hr, rfl⟩ := sendFails_eq_ok.1 hstep
    obtain ⟨region, rest, -, rfl⟩ := sendFails_eq_some hr
    exact ⟨rfl, rfl, rfl, rfl⟩

/-! ## The results -/

/-- In every run whose message callback discards, the input buffer keeps its size and is empty
between the callbacks, and no completed read is too large for it. -/
theorem inputDiscarded_of_discards {s : Session}
    (hs : sessionMachine.ReachableUnder Discards s) (hm : s.conn.messageCallback_ = true) :
    InputDiscarded s := by
  have hinv : s.conn.messageCallback_ = true → Discarding s := by
    refine hs.invariant (I := fun s => s.conn.messageCallback_ = true → Discarding s) ?_ ?_
    · rintro _ ⟨loop, name, m, w, rfl⟩ -
      exact discarding_initial loop name m w
    · intro s e s' h hC hstep hm
      have hsame : s'.conn.messageCallback_ = s.conn.messageCallback_ :=
        (setup_step hstep).messageCallback
      exact (h (hsame ▸ hm)).step (hsame ▸ hm) hC hstep
  exact (hinv hm).inputDiscarded

/-- Two reads are outstanding; each fills the buffer, and the callback empties it. -/
theorem inputDiscarded_two_reads : ∃ s : Session,
    (s.conn.messageCallback_ = true ∧ s.consumed.length = 8192) ∧ InputDiscarded s := by
  have hinit : sessionMachine.init (Session.initial 0 [] true false) := ⟨_, _, _, _, rfl⟩
  obtain ⟨s, hs, hobs⟩ := Machine.exists_of_run (C := Discards) hinit
    (l := [.run, .run, .call .stopRead, .run, .call .startRead, .run, .return_, .run, .run,
      .receive (List.replicate 4096 7), .receive (List.replicate 4096 7), .dequeue, .run, .run,
      .consume 4096, .return_, .run, .run, .dequeue, .run, .run, .consume 4096, .return_])
    (f := fun s => (s.conn.messageCallback_, s.consumed.length)) (a := (true, 8192))
    (by decide +kernel)
  obtain ⟨hm, hlength⟩ := Prod.mk.inj hobs
  exact ⟨s, ⟨hm, hlength⟩, inputDiscarded_of_discards hs hm⟩

end Session

end LibNetToy
