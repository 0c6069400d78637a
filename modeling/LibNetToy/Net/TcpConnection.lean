import LibNetToy.Base.Buffer

/-!
# `TcpConnection`

The member functions of `net/TcpConnection.cpp`.  A member function changes the fields of
the connection, calls callbacks of the user and of the owner, hands functors to the loop and
starts operations on the socket.  It is modelled by an `Effect`: the connection afterwards,
the calls the executing thread makes next (in program order, the code that follows a callback
included) and the functors posted to the loop.  A callback runs arbitrary code of the user,
so what a function does after it is a `ConnTask` of its own and reads the fields as they are
then.

The socket keeps the operations that were started and are not completed; `receive`,
`readFails`, `transmit` and `sendFails` are the steps by which the kernel completes the oldest
of them and queues its handler.  A region handed to the kernel is a pointer into the vector of
a buffer, which is lost when the vector is resized.
-/

namespace LibNetToy

open Memory

/-- `TcpConnection::StateE`. -/
inductive StateE
  | kDisconnected
  | kConnecting
  | kConnected
  | kDisconnecting
  deriving DecidableEq, Repr

/-- The memory given to an operation on the socket: an index and a length in a vector that
had the given size. -/
structure Region where
  size : Nat
  off : Nat
  len : Nat
  deriving DecidableEq, Repr

/-- The asio socket: the started `async_read_some` and `async_send` operations that are not
completed, oldest first, and whether the sending side is shut down. -/
structure Socket where
  reads : List Region
  sends : List Region
  sendShutdown : Bool
  deriving DecidableEq, Repr

/-- The fields of class `TcpConnection`.  The callbacks that the code tests before calling
them are recorded by whether they are set. -/
structure TcpConnection where
  loop_ : LoopId
  name_ : List Char
  state_ : StateE
  reading_ : Bool
  socket_ : Socket
  messageCallback_ : Bool
  writeCompleteCallback_ : Bool
  inputBuffer_ : Buffer
  outputBuffer_ : Buffer
  deriving DecidableEq, Repr

/-- The callbacks of a connection.  `connection true` is the call of `connectionCallback_` in
`connectEstablished`, `connection false` the ones that report the end of the connection. -/
inductive Callback
  | connection (up : Bool)
  | message
  | writeComplete
  | close
  deriving DecidableEq, Repr

/-- What a thread still has to do for a connection. -/
inductive ConnTask
  | readHandler (error : Option ErrorCode) (bytes_transferred : Nat)
  | writeHandler (error : Option ErrorCode) (bytes_transferred : Nat)
  | startReadInLoop
  | stopReadInLoop
  | shutdownInLoop
  | forceCloseInLoop
  | connectEstablished
  | connectDestroyed
  /-- The call of a callback. -/
  | callback (k : Callback)
  /-- The code of a callback is running. -/
  | inCallback (k : Callback)
  /-- `if(reading_)` and what follows, at the end of `readHandler`. -/
  | readAgain (bytes_transferred : Nat)
  /-- A `shared_ptr` to the connection leaves its scope. -/
  | release
  deriving DecidableEq, Repr

/-- The completion handlers, which only the kernel queues. -/
def ConnTask.isHandler : ConnTask → Bool
  | .readHandler _ _ => true
  | .writeHandler _ _ => true
  | _ => false

/-- A functor made by `boost::bind`, with the raw pointer or with a `shared_ptr` to the
connection. -/
inductive Functor
  | raw (t : ConnTask)
  | bound (t : ConnTask)
  deriving DecidableEq, Repr

/-- The member function a functor calls. -/
def Functor.task : Functor → ConnTask
  | .raw t => t
  | .bound t => t

/-- Calling a functor: the member function, then the functor with its pointer is destroyed. -/
def Functor.body : Functor → List ConnTask
  | .raw t => [t]
  | .bound t => [t, .release]

/-- What a member function does. -/
structure Effect where
  conn : TcpConnection
  calls : List ConnTask
  posts : List Functor

/-- All tasks an effect creates, in the order in which they will run. -/
def Effect.tasks (e : Effect) : List ConnTask :=
  e.calls ++ e.posts.flatMap Functor.body

/-- The functions that other code calls on a connection. -/
inductive ConnCall
  | send (message : StdString)
  | shutdown
  | forceClose
  | startRead
  | stopRead
  deriving DecidableEq, Repr

/-- A buffer of the default initial size. -/
def Buffer.initial : Buffer :=
  ⟨List.replicate (Buffer.kCheapPrepend + Buffer.kInitialSize) 0, Buffer.kCheapPrepend,
    Buffer.kCheapPrepend⟩

/-- The buffer of a new connection is valid. -/
theorem Buffer.initial_valid : Buffer.initial.Valid := by
  have hsize : Buffer.initial.buffer_.length = Buffer.kCheapPrepend + Buffer.kInitialSize :=
    List.length_replicate
  constructor
  · exact Nat.le_refl _
  · rw [hsize]
    exact Nat.le_add_right _ _
  · rw [hsize]
    exact Nat.le_add_right _ _
  · rw [hsize]
    decide

/-- The buffer of a new connection is empty. -/
theorem Buffer.initial_content : Buffer.initial.content = [] :=
  Memory.slice_eq_nil (Nat.le_refl _)

/-- The memory handed to `async_read_some`. -/
def Buffer.writeRegion (b : Buffer) : Region :=
  ⟨b.buffer_.length, b.writerIndex_, b.writableBytes⟩

/-- The memory handed to `async_send`. -/
def Buffer.readRegion (b : Buffer) : Region :=
  ⟨b.buffer_.length, b.readerIndex_, b.readableBytes⟩

namespace TcpConnection

/-! ## The member functions -/

/-- The constructor. -/
def make (loop : LoopId) (name : List Char) (messageCallback writeCompleteCallback : Bool) :
    TcpConnection where
  loop_ := loop
  name_ := name
  state_ := .kConnecting
  reading_ := true
  socket_ := ⟨[], [], false⟩
  messageCallback_ := messageCallback
  writeCompleteCallback_ := writeCompleteCallback
  inputBuffer_ := Buffer.initial
  outputBuffer_ := Buffer.initial

/-- `socket_->async_read_some(buffer(inputBuffer_.beginWrite(), …), readHandler)`. -/
def asyncReadSome (c : TcpConnection) : TcpConnection :=
  { c with socket_ :=
    { c.socket_ with reads := c.socket_.reads ++ [c.inputBuffer_.writeRegion] } }

/-- `loop_->runInLoop(f)` on the thread of the loop `here`, or on a thread without a loop:
inline on the thread of the loop, posted on any other. -/
def runInLoop (c : TcpConnection) (here : Option LoopId) (f : Functor) : Effect :=
  if here = some c.loop_ then ⟨c, f.body, []⟩ else ⟨c, [], [f]⟩

def assertInLoopThread (c : TcpConnection) (here : Option LoopId) : Except Fault Unit :=
  check (here = some c.loop_) .assertInLoopThread

def beginFirstRead (c : TcpConnection) : TcpConnection :=
  c.asyncReadSome

/-- The local `guardThis` outlives the two callbacks. -/
def handleClose (c : TcpConnection) (here : Option LoopId) : Except Fault Effect := do
  c.assertInLoopThread here
  check (c.state_ = .kConnected ∨ c.state_ = .kDisconnecting) .handleClose
  pure ⟨{ c with state_ := .kDisconnected, reading_ := false },
    [.callback (.connection false), .callback .close, .release], []⟩

def handleError (c : TcpConnection) (here : Option LoopId) : Except Fault Effect :=
  c.handleClose here

/-- The end of `readHandler`: another read, unless reading was stopped. -/
def readAgain (c : TcpConnection) (bytes_transferred : Nat) : Except Fault Effect :=
  if c.reading_ then do
    let b ← c.inputBuffer_.ensureWritableBytes bytes_transferred
    pure ⟨{ c with inputBuffer_ := b }.asyncReadSome, [], []⟩
  else
    pure ⟨c, [], []⟩

def readHandler (c : TcpConnection) (here : Option LoopId) (error : Option ErrorCode)
    (bytes_transferred : Nat) : Except Fault Effect :=
  match error with
  | none => do
    let b ← c.inputBuffer_.hasWritten bytes_transferred
    pure ⟨{ c with inputBuffer_ := b },
      (if c.messageCallback_ then [.callback .message, .release] else []) ++
        [.readAgain bytes_transferred], []⟩
  | some .eof => c.handleClose here
  | some _ => do
    let e ← c.handleError here
    pure { e with calls := e.calls ++ [.readAgain bytes_transferred] }

def writeHandler (c : TcpConnection) (error : Option ErrorCode) (bytes_transferred : Nat) :
    Except Fault Effect :=
  match error with
  | none => do
    let b ← c.outputBuffer_.retrieve bytes_transferred
    pure ⟨{ c with outputBuffer_ := b },
      if c.writeCompleteCallback_ then [.callback .writeComplete, .release] else [], []⟩
  | some _ => pure ⟨c, [], []⟩

def startRead (c : TcpConnection) (here : Option LoopId) : Effect :=
  c.runInLoop here (.raw .startReadInLoop)

def startReadInLoop (c : TcpConnection) : Effect :=
  if !c.reading_ then ⟨{ c with reading_ := true }.asyncReadSome, [], []⟩ else ⟨c, [], []⟩

def stopRead (c : TcpConnection) (here : Option LoopId) : Effect :=
  c.runInLoop here (.raw .stopReadInLoop)

def stopReadInLoop (c : TcpConnection) : Effect :=
  if c.reading_ then ⟨{ c with reading_ := false }, [], []⟩ else ⟨c, [], []⟩

def connectEstablished (c : TcpConnection) (here : Option LoopId) : Except Fault Effect := do
  c.assertInLoopThread here
  check (c.state_ = .kConnecting) .connectEstablished
  pure ⟨{ c with state_ := .kConnected }.beginFirstRead,
    [.callback (.connection true), .release], []⟩

def connectDestroyed (c : TcpConnection) (here : Option LoopId) : Except Fault Effect := do
  c.assertInLoopThread here
  if c.state_ = .kConnected then
    pure ⟨{ c with state_ := .kDisconnected }, [.callback (.connection false), .release], []⟩
  else
    pure ⟨c, [], []⟩

/-- `send(const std::string& message)`. -/
def send (c : TcpConnection) (message : StdString) : Except Fault Effect := do
  let b ← c.outputBuffer_.append message.bytes
  pure ⟨{ c with
    outputBuffer_ := b
    socket_ := { c.socket_ with sends := c.socket_.sends ++ [b.readRegion] } }, [], []⟩

def shutdown (c : TcpConnection) (here : Option LoopId) : Effect :=
  if c.state_ = .kConnected then
    { c with state_ := .kDisconnecting }.runInLoop here (.raw .shutdownInLoop)
  else ⟨c, [], []⟩

def shutdownInLoop (c : TcpConnection) (here : Option LoopId) : Except Fault Effect := do
  c.assertInLoopThread here
  pure ⟨{ c with socket_ := { c.socket_ with sendShutdown := true } }, [], []⟩

def forceClose (c : TcpConnection) (here : Option LoopId) : Effect :=
  if c.state_ = .kConnected ∨ c.state_ = .kDisconnecting then
    { c with state_ := .kDisconnecting }.runInLoop here (.bound .forceCloseInLoop)
  else ⟨c, [], []⟩

def forceCloseInLoop (c : TcpConnection) (here : Option LoopId) : Except Fault Effect := do
  c.assertInLoopThread here
  if c.state_ = .kConnected ∨ c.state_ = .kDisconnecting then
    c.handleClose here
  else
    pure ⟨c, [], []⟩

/-- Run a task of the connection.  Calling a callback starts its code; the code itself and
the release of a pointer are not the connection's. -/
def exec (c : TcpConnection) (here : Option LoopId) : ConnTask → Except Fault Effect
  | .readHandler error n => c.readHandler here error n
  | .writeHandler error n => c.writeHandler error n
  | .startReadInLoop => pure c.startReadInLoop
  | .stopReadInLoop => pure c.stopReadInLoop
  | .shutdownInLoop => c.shutdownInLoop here
  | .forceCloseInLoop => c.forceCloseInLoop here
  | .connectEstablished => c.connectEstablished here
  | .connectDestroyed => c.connectDestroyed here
  | .callback k => pure ⟨c, [.inCallback k], []⟩
  | .inCallback _ => pure ⟨c, [], []⟩
  | .readAgain n => c.readAgain n
  | .release => pure ⟨c, [], []⟩

/-- A call from outside. -/
def call (c : TcpConnection) (here : Option LoopId) : ConnCall → Except Fault Effect
  | .send message => c.send message
  | .shutdown => pure (c.shutdown here)
  | .forceClose => pure (c.forceClose here)
  | .startRead => pure (c.startRead here)
  | .stopRead => pure (c.stopRead here)

/-! ## Completions -/

/-- The oldest read receives `data`: at least one byte when its region is not empty.  The
bytes go to freed memory when the vector was resized since the read was started. -/
def receive (c : TcpConnection) (data : List UInt8) : Option (TcpConnection × ConnTask) :=
  match c.socket_.reads with
  | [] => none
  | r :: rs =>
    if data.length ≤ r.len ∧ (0 < r.len → 0 < data.length) then
      some ({ c with
        socket_ := { c.socket_ with reads := rs }
        inputBuffer_ := if r.size = c.inputBuffer_.buffer_.length
          then c.inputBuffer_.store r.off data else c.inputBuffer_ },
        .readHandler none data.length)
    else none

/-- The oldest read ends with an error. -/
def readFails (c : TcpConnection) (e : ErrorCode) : Option (TcpConnection × ConnTask) :=
  match c.socket_.reads with
  | [] => none
  | _ :: rs =>
    some ({ c with socket_ := { c.socket_ with reads := rs } }, .readHandler (some e) 0)

/-- The oldest send transfers `k` bytes of its region, at least one when it is not empty.
What is transferred from freed memory is arbitrary and is given by `stale`. -/
def transmit (c : TcpConnection) (k : Nat) (stale : List UInt8) :
    Option (TcpConnection × List UInt8 × ConnTask) :=
  match c.socket_.sends with
  | [] => none
  | r :: rs =>
    if k ≤ r.len ∧ (0 < r.len → 0 < k) ∧ stale.length = k ∧ c.socket_.sendShutdown = false then
      some ({ c with socket_ := { c.socket_ with sends := rs } },
        if r.size = c.outputBuffer_.buffer_.length
          then slice c.outputBuffer_.buffer_ r.off (r.off + k) else stale,
        .writeHandler none k)
    else none

/-- The oldest send ends with an error. -/
def sendFails (c : TcpConnection) (e : ErrorCode) : Option (TcpConnection × ConnTask) :=
  match c.socket_.sends with
  | [] => none
  | _ :: rs =>
    some ({ c with socket_ := { c.socket_ with sends := rs } }, .writeHandler (some e) 0)

/-! ## What the member functions do -/

variable {c : TcpConnection} {here : Option LoopId} {eff : Effect}

/-- `handleClose` asserts the thread and the state, and reports the connection down. -/
theorem handleClose_eq_ok : c.handleClose here = .ok eff ↔
    here = some c.loop_ ∧ (c.state_ = .kConnected ∨ c.state_ = .kDisconnecting) ∧
      eff = ⟨{ c with state_ := .kDisconnected, reading_ := false },
        [.callback (.connection false), .callback .close, .release], []⟩ := by
  simp only [handleClose, assertInLoopThread, check_bind_eq_ok, pure_eq_ok]

/-- `connectEstablished` asserts the thread and the state, starts the first read and reports the
connection up. -/
theorem connectEstablished_eq_ok : c.connectEstablished here = .ok eff ↔
    here = some c.loop_ ∧ c.state_ = .kConnecting ∧
      eff = ⟨{ c with state_ := .kConnected }.beginFirstRead,
        [.callback (.connection true), .release], []⟩ := by
  simp only [connectEstablished, assertInLoopThread, check_bind_eq_ok, pure_eq_ok]

/-- `connectDestroyed` reports the connection down if it is connected. -/
theorem connectDestroyed_eq_ok : c.connectDestroyed here = .ok eff ↔
    here = some c.loop_ ∧ eff = if c.state_ = .kConnected then
        ⟨{ c with state_ := .kDisconnected }, [.callback (.connection false), .release], []⟩
      else ⟨c, [], []⟩ := by
  simp only [connectDestroyed, assertInLoopThread, check_bind_eq_ok]
  split_ifs <;> simp only [pure_eq_ok]

/-- `shutdownInLoop` shuts the sending side down, whatever is to be sent. -/
theorem shutdownInLoop_eq_ok : c.shutdownInLoop here = .ok eff ↔
    here = some c.loop_ ∧
      eff = ⟨{ c with socket_ := { c.socket_ with sendShutdown := true } }, [], []⟩ := by
  simp only [shutdownInLoop, assertInLoopThread, check_bind_eq_ok, pure_eq_ok]

/-- `forceCloseInLoop` is `handleClose` on a connection that is not closed. -/
theorem forceCloseInLoop_eq_ok : c.forceCloseInLoop here = .ok eff ↔
    here = some c.loop_ ∧
      eff = if c.state_ = .kConnected ∨ c.state_ = .kDisconnecting then
        ⟨{ c with state_ := .kDisconnected, reading_ := false },
          [.callback (.connection false), .callback .close, .release], []⟩
      else ⟨c, [], []⟩ := by
  simp only [forceCloseInLoop, assertInLoopThread, check_bind_eq_ok]
  split_ifs with h
  · simp only [handleClose_eq_ok, h, true_and, and_self_left]
  · simp only [pure_eq_ok]

/-- `send` appends the message and starts a send of all that is readable. -/
theorem send_eq_ok {message : StdString} : c.send message = .ok eff ↔
    ∃ b, c.outputBuffer_.append message.bytes = .ok b ∧ eff = ⟨{ c with
      outputBuffer_ := b
      socket_ := { c.socket_ with sends := c.socket_.sends ++ [b.readRegion] } }, [], []⟩ := by
  simp only [send, bind_eq_ok, pure_eq_ok]

/-- `writeHandler` retrieves the bytes transferred, and does nothing after an error. -/
theorem writeHandler_eq_ok {error : Option ErrorCode} {n : Nat} :
    c.writeHandler error n = .ok eff ↔
      (error = none ∧ ∃ b, c.outputBuffer_.retrieve n = .ok b ∧
        eff = ⟨{ c with outputBuffer_ := b },
          if c.writeCompleteCallback_ then [.callback .writeComplete, .release] else [], []⟩) ∨
      (error ≠ none ∧ eff = ⟨c, [], []⟩) := by
  cases error <;> simp only [writeHandler, bind_eq_ok, pure_eq_ok] <;> simp

/-- After the message callback the next read is started if reading is wanted. -/
theorem readAgain_eq_ok {n : Nat} : c.readAgain n = .ok eff ↔
    (c.reading_ = true ∧ ∃ b, c.inputBuffer_.ensureWritableBytes n = .ok b ∧
        eff = ⟨{ c with inputBuffer_ := b }.asyncReadSome, [], []⟩) ∨
      (c.reading_ = false ∧ eff = ⟨c, [], []⟩) := by
  unfold readAgain
  cases c.reading_ <;> simp only [if_true, Bool.false_eq_true, if_false, bind_eq_ok, pure_eq_ok] <;>
    simp

/-- `readHandler` makes the received bytes readable and calls back, and closes the connection after
an error. -/
theorem readHandler_eq_ok {error : Option ErrorCode} {n : Nat} :
    c.readHandler here error n = .ok eff ↔
      (error = none ∧ ∃ b, c.inputBuffer_.hasWritten n = .ok b ∧
        eff = ⟨{ c with inputBuffer_ := b },
          (if c.messageCallback_ then [.callback .message, .release] else []) ++
            [.readAgain n], []⟩) ∨
      (error ≠ none ∧ here = some c.loop_ ∧
        (c.state_ = .kConnected ∨ c.state_ = .kDisconnecting) ∧
        eff = ⟨{ c with state_ := .kDisconnected, reading_ := false },
          [.callback (.connection false), .callback .close, .release] ++
            (if error = some .eof then [] else [.readAgain n]), []⟩) := by
  rcases error with _ | _ | _ | _
  · simp only [readHandler, bind_eq_ok, pure_eq_ok]
    simp
  · simp [readHandler, handleClose_eq_ok]
  · simp only [readHandler, handleError, bind_eq_ok, handleClose_eq_ok, pure_eq_ok]
    simp [and_assoc]
  · simp only [readHandler, handleError, bind_eq_ok, handleClose_eq_ok, pure_eq_ok]
    simp [and_assoc]

/-- The oldest read is completed with bytes that fit into its region. -/
theorem receive_eq_some {data : List UInt8} {r : TcpConnection × ConnTask}
    (h : c.receive data = some r) :
    ∃ region rest, c.socket_.reads = region :: rest ∧ data.length ≤ region.len ∧
      (0 < region.len → 0 < data.length) ∧
      r = ({ c with
        socket_ := { c.socket_ with reads := rest }
        inputBuffer_ := if region.size = c.inputBuffer_.buffer_.length
          then c.inputBuffer_.store region.off data else c.inputBuffer_ },
        .readHandler none data.length) := by
  unfold receive at h
  split at h
  · cases h
  · rename_i region rest hreads
    by_cases hcond : data.length ≤ region.len ∧ (0 < region.len → 0 < data.length)
    · rw [if_pos hcond] at h
      exact ⟨region, rest, hreads, hcond.1, hcond.2, (Option.some.inj h).symm⟩
    · rw [if_neg hcond] at h
      cases h

/-- The oldest read is completed with an error. -/
theorem readFails_eq_some {e : ErrorCode} {r : TcpConnection × ConnTask}
    (h : c.readFails e = some r) :
    ∃ region rest, c.socket_.reads = region :: rest ∧
      r = ({ c with socket_ := { c.socket_ with reads := rest } }, .readHandler (some e) 0) := by
  unfold readFails at h
  split at h
  · cases h
  · rename_i region rest hreads
    exact ⟨region, rest, hreads, (Option.some.inj h).symm⟩

/-- The oldest send is completed with bytes of its region as they are now. -/
theorem transmit_eq_some {k : Nat} {stale : List UInt8}
    {r : TcpConnection × List UInt8 × ConnTask} (h : c.transmit k stale = some r) :
    ∃ region rest, c.socket_.sends = region :: rest ∧ k ≤ region.len ∧ stale.length = k ∧
      r = ({ c with socket_ := { c.socket_ with sends := rest } },
        if region.size = c.outputBuffer_.buffer_.length
          then slice c.outputBuffer_.buffer_ region.off (region.off + k) else stale,
        .writeHandler none k) := by
  unfold transmit at h
  split at h
  · cases h
  · rename_i region rest hsends
    by_cases hcond : k ≤ region.len ∧ (0 < region.len → 0 < k) ∧ stale.length = k ∧
        c.socket_.sendShutdown = false
    · rw [if_pos hcond] at h
      obtain ⟨hk, -, hstale, -⟩ := hcond
      exact ⟨region, rest, hsends, hk, hstale, (Option.some.inj h).symm⟩
    · rw [if_neg hcond] at h
      cases h

/-- The oldest send is completed with an error. -/
theorem sendFails_eq_some {e : ErrorCode} {r : TcpConnection × ConnTask}
    (h : c.sendFails e = some r) :
    ∃ region rest, c.socket_.sends = region :: rest ∧
      r = ({ c with socket_ := { c.socket_ with sends := rest } }, .writeHandler (some e) 0) := by
  unfold sendFails at h
  split at h
  · cases h
  · rename_i region rest hsends
    exact ⟨region, rest, hsends, (Option.some.inj h).symm⟩

/-! ## Ways through a task -/

/-- What running a task does, with one case for each way through its member function. -/
inductive Runs (c : TcpConnection) (here : Option LoopId) : ConnTask → Effect → Prop
  | received {n : Nat} {b : Buffer} (hb : c.inputBuffer_.hasWritten n = .ok b) :
      Runs c here (.readHandler none n) ⟨{ c with inputBuffer_ := b },
        (if c.messageCallback_ then [.callback .message, .release] else []) ++ [.readAgain n], []⟩
  | readFailed {e : ErrorCode} {n : Nat} (hhere : here = some c.loop_)
      (hopen : c.state_ = .kConnected ∨ c.state_ = .kDisconnecting) :
      Runs c here (.readHandler (some e) n)
        ⟨{ c with state_ := .kDisconnected, reading_ := false },
          [.callback (.connection false), .callback .close, .release] ++
            (if e = .eof then [] else [.readAgain n]), []⟩
  | sent {n : Nat} {b : Buffer} (hb : c.outputBuffer_.retrieve n = .ok b) :
      Runs c here (.writeHandler none n) ⟨{ c with outputBuffer_ := b },
        if c.writeCompleteCallback_ then [.callback .writeComplete, .release] else [], []⟩
  | sendFailed {e : ErrorCode} {n : Nat} : Runs c here (.writeHandler (some e) n) ⟨c, [], []⟩
  | startsReading (hreading : c.reading_ = false) :
      Runs c here .startReadInLoop ⟨{ c with reading_ := true }.asyncReadSome, [], []⟩
  | isReading (hreading : c.reading_ = true) : Runs c here .startReadInLoop ⟨c, [], []⟩
  | stopsReading (hreading : c.reading_ = true) :
      Runs c here .stopReadInLoop ⟨{ c with reading_ := false }, [], []⟩
  | isStopped (hreading : c.reading_ = false) : Runs c here .stopReadInLoop ⟨c, [], []⟩
  | shutsDown (hhere : here = some c.loop_) : Runs c here .shutdownInLoop
      ⟨{ c with socket_ := { c.socket_ with sendShutdown := true } }, [], []⟩
  | closes (hhere : here = some c.loop_)
      (hopen : c.state_ = .kConnected ∨ c.state_ = .kDisconnecting) :
      Runs c here .forceCloseInLoop ⟨{ c with state_ := .kDisconnected, reading_ := false },
        [.callback (.connection false), .callback .close, .release], []⟩
  | isClosed (hhere : here = some c.loop_)
      (hclosed : ¬ (c.state_ = .kConnected ∨ c.state_ = .kDisconnecting)) :
      Runs c here .forceCloseInLoop ⟨c, [], []⟩
  | establishes (hhere : here = some c.loop_) (hstate : c.state_ = .kConnecting) :
      Runs c here .connectEstablished ⟨{ c with state_ := .kConnected }.beginFirstRead,
        [.callback (.connection true), .release], []⟩
  | destroys (hhere : here = some c.loop_) (hstate : c.state_ = .kConnected) :
      Runs c here .connectDestroyed ⟨{ c with state_ := .kDisconnected },
        [.callback (.connection false), .release], []⟩
  | isDestroyed (hhere : here = some c.loop_) (hstate : c.state_ ≠ .kConnected) :
      Runs c here .connectDestroyed ⟨c, [], []⟩
  | readsAgain {n : Nat} {b : Buffer} (hreading : c.reading_ = true)
      (hb : c.inputBuffer_.ensureWritableBytes n = .ok b) :
      Runs c here (.readAgain n) ⟨{ c with inputBuffer_ := b }.asyncReadSome, [], []⟩
  | endsReading {n : Nat} (hreading : c.reading_ = false) :
      Runs c here (.readAgain n) ⟨c, [], []⟩
  | calls {k : Callback} : Runs c here (.callback k) ⟨c, [.inCallback k], []⟩
  | returns {k : Callback} : Runs c here (.inCallback k) ⟨c, [], []⟩
  | releases : Runs c here .release ⟨c, [], []⟩

/-- A task goes one of these ways. -/
theorem exec_runs {t : ConnTask} (h : c.exec here t = .ok eff) : Runs c here t eff := by
  cases t with
  | readHandler error n =>
    rcases readHandler_eq_ok.1 h with ⟨rfl, b, hb, rfl⟩ | ⟨hne, hhere, hopen, rfl⟩
    · exact .received hb
    · cases error with
      | none => exact absurd rfl hne
      | some e =>
        simp only [Option.some.injEq]
        exact .readFailed hhere hopen
  | writeHandler error n =>
    rcases writeHandler_eq_ok.1 h with ⟨rfl, b, hb, rfl⟩ | ⟨hne, rfl⟩
    · exact .sent hb
    · cases error with
      | none => exact absurd rfl hne
      | some e => exact .sendFailed
  | startReadInLoop =>
    obtain rfl := pure_eq_ok.1 h
    unfold startReadInLoop
    cases hreading : c.reading_ with
    | true => exact .isReading hreading
    | false => exact .startsReading hreading
  | stopReadInLoop =>
    obtain rfl := pure_eq_ok.1 h
    unfold stopReadInLoop
    split_ifs with hreading
    · exact .stopsReading hreading
    · exact .isStopped (Bool.eq_false_iff.2 hreading)
  | shutdownInLoop =>
    obtain ⟨hhere, rfl⟩ := shutdownInLoop_eq_ok.1 h
    exact .shutsDown hhere
  | forceCloseInLoop =>
    obtain ⟨hhere, rfl⟩ := forceCloseInLoop_eq_ok.1 h
    split_ifs with hopen
    · exact .closes hhere hopen
    · exact .isClosed hhere hopen
  | connectEstablished =>
    obtain ⟨hhere, hstate, rfl⟩ := connectEstablished_eq_ok.1 h
    exact .establishes hhere hstate
  | connectDestroyed =>
    obtain ⟨hhere, rfl⟩ := connectDestroyed_eq_ok.1 h
    split_ifs with hstate
    · exact .destroys hhere hstate
    · exact .isDestroyed hhere hstate
  | callback k =>
    obtain rfl := pure_eq_ok.1 h
    exact .calls
  | inCallback k =>
    obtain rfl := pure_eq_ok.1 h
    exact .returns
  | readAgain n =>
    rcases readAgain_eq_ok.1 h with ⟨hreading, b, hb, rfl⟩ | ⟨hreading, rfl⟩
    · exact .readsAgain hreading hb
    · exact .endsReading hreading
  | release =>
    obtain rfl := pure_eq_ok.1 h
    exact .releases

/-- Running a task leaves the output side alone, unless it acknowledges a send. -/
theorem exec_output {t : ConnTask} (h : c.exec here t = .ok eff)
    (ht : ∀ n, t ≠ .writeHandler none n) :
    eff.conn.outputBuffer_ = c.outputBuffer_ ∧ eff.conn.socket_.sends = c.socket_.sends := by
  cases exec_runs h with
  | sent hb => exact absurd rfl (ht _)
  | _ => exact ⟨rfl, rfl⟩

/-- The calls other than `send` leave the output side alone. -/
theorem call_output {x : ConnCall} (h : c.call here x = .ok eff)
    (hx : ∀ message, x ≠ .send message) :
    eff.conn.outputBuffer_ = c.outputBuffer_ ∧ eff.conn.socket_.sends = c.socket_.sends := by
  cases x with
  | send message => exact absurd rfl (hx message)
  | shutdown | forceClose | startRead | stopRead =>
    obtain rfl := pure_eq_ok.1 h
    simp only [shutdown, forceClose, startRead, stopRead, runInLoop]
    split_ifs <;> exact ⟨rfl, rfl⟩

/-- The member functions never queue a completion handler. -/
theorem exec_tasks {t : ConnTask} (h : c.exec here t = .ok eff) :
    ∀ t' ∈ eff.tasks, t'.isHandler = false := by
  unfold Effect.tasks
  cases exec_runs h with
  | received _ | readFailed _ _ | sent _ => split_ifs <;> simp [ConnTask.isHandler]
  | _ => simp [ConnTask.isHandler]

/-- Neither do the calls from outside. -/
theorem call_tasks {x : ConnCall} (h : c.call here x = .ok eff) :
    ∀ t' ∈ eff.tasks, t'.isHandler = false := by
  cases x with
  | send message =>
    obtain ⟨b, -, rfl⟩ := send_eq_ok.1 h
    simp [Effect.tasks]
  | shutdown | forceClose | startRead | stopRead =>
    obtain rfl := pure_eq_ok.1 h
    simp only [shutdown, forceClose, startRead, stopRead, runInLoop]
    split_ifs <;> simp [Effect.tasks, Functor.body, ConnTask.isHandler]

end TcpConnection

end LibNetToy
