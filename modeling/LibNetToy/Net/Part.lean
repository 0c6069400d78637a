import LibNetToy.Net.Process
import LibNetToy.Net.Session
import LibNetToy.Net.Transitions

/-!
# The part of a process that one connection takes

Of the stack and the queue of its loop a connection sees the tasks that are its own: `Part` is what
is left of a process when everything else is taken away, together with the releases of pointers,
which do nothing to a connection that is held.  `Part.Acts` is how a part changes, and a session
that the part represents can always do the same.
-/

namespace LibNetToy

/-- The bytes that went over the wire, that were accepted by `send`, that the kernel delivered and
that message callbacks retrieved. -/
structure Transcript where
  wire : List UInt8
  accepted : List UInt8
  received : List UInt8
  consumed : List UInt8
  deriving DecidableEq

/-- Nothing was sent or received yet. -/
def Transcript.empty : Transcript :=
  ⟨[], [], [], []⟩

def Session.transcript (s : Session) : Transcript :=
  ⟨s.wire, s.accepted, s.received, s.consumed⟩

namespace TcpConnection

/-- The task can do something to the connection: releasing a pointer does not, and nor does
`connectDestroyed` once the connection is closed. -/
def heeds (c : TcpConnection) : ConnTask → Bool
  | .release => false
  | .connectDestroyed => decide (c.state_ ≠ .kDisconnected)
  | _ => true

end TcpConnection

/-- What is to be done for a connection on the thread of its loop. -/
structure Part where
  conn : TcpConnection
  stack : List ConnTask
  queue : List Functor
  transcript : Transcript

/-- The tasks of the connection in a work item on the stack of its loop.  What the owner does to
remove the connection is part of the close callback. -/
def Work.tasks (c : ConnId) : Work → List ConnTask
  | .conn d k => if d = c then [k] else []
  | .bound d k => if d = c then [k] else []
  | .server (.removeConnection d) => if d = c then [.inCallback .close] else []
  | .client (.removeConnection d) => if d = c then [.inCallback .close] else []
  | _ => []

/-- The functor of the connection in a work item in the queue of its loop. -/
def Work.functors (c : ConnId) : Work → List Functor
  | .conn d k => if d = c then [.raw k] else []
  | .bound d k => if d = c then [.bound k] else []
  | _ => []

/-- The tasks of the connection in a stack. -/
def tasksOf (conn : TcpConnection) (c : ConnId) (ws : List Work) : List ConnTask :=
  (ws.flatMap (Work.tasks c)).filter conn.heeds

/-- The part of a connection whose loop has this stack and this queue. -/
def partOf (conn : TcpConnection) (c : ConnId) (stack queue : List Work) (h : Transcript) :
    Part where
  conn := conn
  stack := tasksOf conn c stack
  queue := queue.flatMap (Work.functors c)
  transcript := h

/-- The part of a connection in a process. -/
def Process.part (p : Process) (c : ConnId) (h : Transcript) : Part :=
  partOf (p.conns c).conn c (p.stackOf (p.conns c).conn.loop_)
    (p.queueOf (p.conns c).conn.loop_) h

namespace Part

/-- Code of the user is running, or can run, on the thread of the loop. -/
def Calm (ks : List ConnTask) : Prop :=
  ∀ k ∈ ks.head?, ∃ b, k = .inCallback b

/-- The transcript after a call. -/
def noteCall (h : Transcript) : ConnCall → Transcript
  | .send message => { h with accepted := h.accepted ++ message.bytes }
  | _ => h

/-- How a part changes when the connection acts. -/
inductive Acts (v : Part) : SessionEvent → Part → Prop
  | dequeue {f : Functor} {q : List Functor} (hstack : v.stack = []) (hqueue : v.queue = f :: q) :
      Acts v .dequeue { v with stack := [f.task].filter v.conn.heeds, queue := q }
  | run {k : ConnTask} {rest : List ConnTask} {eff : Effect} (hstack : v.stack = k :: rest)
      (hk : ∀ b, k ≠ .inCallback b) (hrest : .connectDestroyed ∉ rest)
      (heff : v.conn.exec (some v.conn.loop_) k = .ok eff) :
      Acts v .run { v with conn := eff.conn, stack := eff.calls.filter eff.conn.heeds ++ rest }
  | return_ {b : Callback} {rest : List ConnTask} (hstack : v.stack = .inCallback b :: rest) :
      Acts v .return_ { v with stack := rest }
  | call {x : ConnCall} {eff : Effect} (hcalm : Calm v.stack)
      (hstate : v.conn.state_ ≠ .kConnecting)
      (heff : v.conn.call (some v.conn.loop_) x = .ok eff) :
      Acts v (.call x) ⟨eff.conn, eff.calls.filter eff.conn.heeds ++ v.stack, v.queue ++ eff.posts,
        noteCall v.transcript x⟩
  | callFrom {x : ConnCall} {eff : Effect} (heff : v.conn.call none x = .ok eff) :
      Acts v (.callFrom x) ⟨eff.conn, v.stack, v.queue ++ eff.posts, noteCall v.transcript x⟩
  | destroyInline (hcalm : Calm v.stack) (hstate : v.conn.state_ ≠ .kConnecting) :
      Acts v (.destroy true)
        { v with stack := [ConnTask.connectDestroyed].filter v.conn.heeds ++ v.stack }
  | destroyLater :
      Acts v (.destroy false) { v with queue := v.queue ++ [.bound .connectDestroyed] }
  | consume {len : Nat} {b : Buffer} (hstack : v.stack.head? = some (.inCallback .message))
      (hlen : len ≤ v.conn.inputBuffer_.readableBytes)
      (hb : v.conn.inputBuffer_.retrieve len = .ok b) :
      Acts v (.consume len) { v with
        conn := { v.conn with inputBuffer_ := b }
        transcript := { v.transcript with
          consumed := v.transcript.consumed ++ v.conn.inputBuffer_.content.take len } }
  | receive {data : List UInt8} {r : TcpConnection × ConnTask}
      (hr : v.conn.receive data = some r) :
      Acts v (.receive data) { v with
        conn := r.1
        queue := v.queue ++ [.raw r.2]
        transcript := { v.transcript with received := v.transcript.received ++ data } }
  | readFails {e : ErrorCode} {r : TcpConnection × ConnTask} (hr : v.conn.readFails e = some r) :
      Acts v (.readFails e) { v with conn := r.1, queue := v.queue ++ [.raw r.2] }
  | transmit {k : Nat} {stale : List UInt8} {r : TcpConnection × List UInt8 × ConnTask}
      (hr : v.conn.transmit k stale = some r) :
      Acts v (.transmit k stale) { v with
        conn := r.1
        queue := v.queue ++ [.raw r.2.2]
        transcript := { v.transcript with wire := v.transcript.wire ++ r.2.1 } }
  | sendFails {e : ErrorCode} {r : TcpConnection × ConnTask} (hr : v.conn.sendFails e = some r) :
      Acts v (.sendFails e) { v with conn := r.1, queue := v.queue ++ [.raw r.2] }

end Part

/-- Acts that follow from what happens, one after the other. -/
inductive Part.Moves (P : Part → SessionEvent → Prop) (v : Part) : Part → Prop
  | refl : Moves P v v
  | step {u w : Part} {l : SessionEvent} (hmoves : Moves P v u) (hl : P u l) (hact : u.Acts l w) :
      Moves P v w

/-- Before a connection is established, `connectEstablished` is the next it has to do. -/
def Part.Starting (v : Part) : Prop :=
  v.conn.state_ = .kConnecting → v.stack = [.connectEstablished] ∨
    (v.stack = [] ∧ v.queue.head? = some (.bound .connectEstablished))

/-! ## What a connection does not heed -/

namespace TcpConnection

variable {c d : TcpConnection} {here : Option LoopId} {eff : Effect}

/-- What a connection heeds depends on whether it is closed. -/
theorem heeds_congr (h : d.state_ = .kDisconnected ↔ c.state_ = .kDisconnected) :
    d.heeds = c.heeds := by
  funext k
  cases k with
  | connectDestroyed => simp [heeds, h]
  | _ => rfl

/-- A task that is not heeded leaves the connection as it is. -/
theorem exec_of_not_heeds {k : ConnTask} (hk : c.heeds k = false) :
    c.exec (some c.loop_) k = .ok ⟨c, [], []⟩ := by
  cases k with
  | release => rfl
  | connectDestroyed =>
    have hstate : c.state_ = .kDisconnected := by simpa [heeds] using hk
    apply connectDestroyed_eq_ok.2
    rw [hstate]
    exact ⟨rfl, rfl⟩
  | _ => cases hk

/-- Of a functor only its member function is heeded. -/
theorem filter_body (f : Functor) : f.body.filter c.heeds = [f.task].filter c.heeds := by
  cases f with
  | raw k => rfl
  | bound k =>
    show List.filter c.heeds ([k] ++ [.release]) = [k].filter c.heeds
    rw [List.filter_append]
    exact List.append_nil _

/-- What is heeded after a task was heeded before, apart from `connectDestroyed`. -/
theorem filter_exec {k : ConnTask} (h : c.exec here k = .ok eff) {ks : List ConnTask}
    (hks : .connectDestroyed ∉ ks.filter c.heeds) :
    ks.filter eff.conn.heeds = ks.filter c.heeds := by
  apply List.filter_congr
  intro j hj
  cases j with
  | connectDestroyed =>
    have hclosed : c.state_ = .kDisconnected := by
      by_contra hopen
      exact hks (List.mem_filter.2 ⟨hj, by simpa [heeds] using hopen⟩)
    have hstate : eff.conn.state_ = .kDisconnected := by
      rcases exec_state h with ⟨-, hold, -⟩ | ⟨-, hnew⟩ | ⟨-, hsame⟩
      · rw [hclosed] at hold
        cases hold
      · exact hnew
      · exact hsame.trans hclosed
    simp [heeds, hclosed, hstate]
  | _ => rfl

end TcpConnection

/-! ## Sessions of a part -/

/-- The session runs something that its connection does not heed. -/
def Session.Idles (s : Session) (l : SessionEvent) : Prop :=
  l = .run ∧ ∃ k ∈ s.stack.head?, s.conn.heeds k = false

/-- The session does what the part has to do.  Before `connectEstablished` is taken from the queue
of the loop, the session has it on its stack already. -/
structure Represents (v : Part) (s : Session) : Prop where
  conn : s.conn = v.conn
  transcript : s.transcript = v.transcript
  settled : ∀ k ∈ s.stack.head?, v.conn.heeds k = true
  phase : (s.stack.filter v.conn.heeds = v.stack ∧ s.queue = v.queue) ∨
    (v.conn.state_ = .kConnecting ∧ v.stack = [] ∧
      v.queue = .bound .connectEstablished :: s.queue ∧
      s.stack = [.connectEstablished, .release])

variable {v v' : Part} {s s' : Session} {C : Session → SessionEvent → Prop}

namespace Session

/-- A session runs what its connection does not heed until something else is on top. -/
theorem exists_settled (hC : ∀ u l, u.Idles l → C u l) (s : Session) (stack : List ConnTask) :
    ∃ rest, (sessionMachine.startedAt { s with stack := stack }).ReachableUnder C
        { s with stack := rest } ∧
      (∀ k ∈ rest.head?, s.conn.heeds k = true) ∧
      rest.filter s.conn.heeds = stack.filter s.conn.heeds := by
  induction stack with
  | nil => exact ⟨[], .init rfl, nofun, rfl⟩
  | cons k stack ih =>
    cases hk : s.conn.heeds k with
    | true =>
      refine ⟨k :: stack, .init rfl, ?_, rfl⟩
      intro j hj
      obtain rfl := Option.some.inj hj
      exact hk
    | false =>
      obtain ⟨rest, hreach, hsettled, hfilter⟩ := ih
      refine ⟨rest, ?_, hsettled, ?_⟩
      · have hstep : sessionMachine.step .run { s with stack := k :: stack } =
            .ok { s with stack := stack } := by
          apply run_eq_ok.2
          refine ⟨k, stack, _, rfl, ?_, TcpConnection.exec_of_not_heeds hk, ?_⟩
          · rintro b rfl
            cases hk
          · cases k with
            | release | connectDestroyed => simp [apply, noteTask]
            | _ => cases hk
        have hrun : (sessionMachine.startedAt { s with stack := k :: stack }).ReachableUnder C
            { s with stack := stack } :=
          .step (.init rfl) (hC _ _ ⟨rfl, k, rfl, hk⟩) hstep
        exact hrun.goOn hreach
      · rw [hfilter, List.filter_cons_of_neg (by simp [hk])]

end Session

namespace Represents

/-- A session that agrees with the part but for what is not heeded goes on to one that the part
represents. -/
theorem of_filter (hC : ∀ u l, u.Idles l → C u l) {r : Session}
    (hr : (sessionMachine.startedAt s).ReachableUnder C r) (hconn : r.conn = v.conn)
    (htranscript : r.transcript = v.transcript)
    (hstack : r.stack.filter v.conn.heeds = v.stack) (hqueue : r.queue = v.queue) :
    ∃ s', (sessionMachine.startedAt s).ReachableUnder C s' ∧ Represents v s' := by
  obtain ⟨rest, hreach, hsettled, hfilter⟩ := Session.exists_settled hC r r.stack
  rw [hconn] at hsettled hfilter
  exact ⟨_, hr.goOn hreach, hconn, htranscript, hsettled, Or.inl ⟨hfilter.trans hstack, hqueue⟩⟩

/-- The top of the stack of the part is the top of the stack of the session. -/
theorem stack_eq_cons (h : Represents v s) {k : ConnTask} {rest : List ConnTask}
    (hstack : v.stack = k :: rest) : ∃ below, s.stack = k :: below ∧
      below.filter v.conn.heeds = rest ∧ s.queue = v.queue := by
  rcases h.phase with ⟨hfilter, hqueue⟩ | ⟨-, hempty, -⟩
  · rw [hstack] at hfilter
    cases hs : s.stack with
    | nil =>
      rw [hs] at hfilter
      cases hfilter
    | cons j below =>
      have hj : v.conn.heeds j = true := h.settled j (by rw [hs]; rfl)
      rw [hs, List.filter_cons_of_pos hj] at hfilter
      obtain ⟨rfl, hrest⟩ := List.cons.inj hfilter
      exact ⟨below, rfl, hrest, hqueue⟩
  · rw [hstack] at hempty
    cases hempty

/-- The stack of the session is empty when that of the part is. -/
theorem stack_eq_nil (h : Represents v s) (hfilter : s.stack.filter v.conn.heeds = []) :
    s.stack = [] := by
  cases hs : s.stack with
  | nil => rfl
  | cons j below =>
    have hj : v.conn.heeds j = true := h.settled j (by rw [hs]; rfl)
    rw [hs, List.filter_cons_of_pos hj] at hfilter
    cases hfilter

/-- Code of the user runs in the session where it can run on the thread of the loop. -/
theorem userRuns (h : Represents v s) (hcalm : Part.Calm v.stack)
    (hstate : v.conn.state_ ≠ .kConnecting) :
    s.userRuns = true ∧ s.stack.filter v.conn.heeds = v.stack ∧ s.queue = v.queue := by
  rcases h.phase with ⟨hfilter, hqueue⟩ | ⟨hno, -⟩
  · refine ⟨?_, hfilter, hqueue⟩
    cases hs : v.stack with
    | nil =>
      have hnil := h.stack_eq_nil (hfilter.trans hs)
      unfold Session.userRuns
      rw [hnil]
    | cons k rest =>
      obtain ⟨below, hstack, -, -⟩ := h.stack_eq_cons hs
      obtain ⟨b, rfl⟩ := hcalm k (by rw [hs]; rfl)
      unfold Session.userRuns
      rw [hstack]
  · exact absurd hno hstate

end Represents

theorem Session.transcript_noteTask (s : Session) (k : ConnTask) :
    (s.noteTask k).transcript = s.transcript := by
  unfold Session.transcript
  simp

theorem Session.transcript_noteCall (s : Session) (x : ConnCall) :
    (s.noteCall x).transcript = Part.noteCall s.transcript x := by
  cases x <;> rfl

namespace Part

/-- Something that adds to the queue at most is done in both phases alike. -/
theorem Acts.queued {l : SessionEvent} {r : Session} (fs : List Functor)
    (hl : C s l) (hR : Represents v s) (hstep : sessionMachine.step l s = .ok r)
    (hconn : r.conn = v'.conn) (htranscript : r.transcript = v'.transcript)
    (hheeds : v'.conn.state_ = v.conn.state_ ∨ (v.conn.state_ ≠ .kConnecting ∧
      (v'.conn.state_ = .kDisconnected ↔ v.conn.state_ = .kDisconnected)))
    (hstack : r.stack = s.stack) (hqueue : r.queue = s.queue ++ fs)
    (hv : v'.stack = v.stack ∧ v'.queue = v.queue ++ fs) :
    ∃ s', (sessionMachine.startedAt s).ReachableUnder C s' ∧ Represents v' s' := by
  have hsame : v'.conn.heeds = v.conn.heeds := by
    apply TcpConnection.heeds_congr
    rcases hheeds with heq | ⟨-, hiff⟩
    · rw [heq]
    · exact hiff
  refine ⟨r, .step (.init rfl) hl hstep, hconn, htranscript, ?_, ?_⟩
  · rw [hstack, hsame]
    exact hR.settled
  · rw [hstack, hqueue, hsame, hv.1, hv.2]
    rcases hR.phase with ⟨hfilter, hold⟩ | ⟨hstate, hempty, hold, hfull⟩
    · exact Or.inl ⟨hfilter, by rw [hold]⟩
    · rcases hheeds with heq | ⟨hno, -⟩
      · exact Or.inr ⟨heq.trans hstate, hempty, by rw [hold]; rfl, hfull⟩
      · exact absurd hstate hno

/-- A session that the part represents can do what the part does. -/
theorem Acts.answered {l : SessionEvent} (ha : Acts v l v') (hC : ∀ u m, u.Idles m → C u m)
    (hl : C s l) (hR : Represents v s) :
    ∃ s', (sessionMachine.startedAt s).ReachableUnder C s' ∧ Represents v' s' := by
  have hconn := hR.conn
  have htranscript := hR.transcript
  cases ha with
  | @dequeue f q hstack hqueue =>
    rcases hR.phase with ⟨hfilter, hold⟩ | ⟨hstate, -, hold, hfull⟩
    · have hnil := hR.stack_eq_nil (hfilter.trans hstack)
      have hstep : sessionMachine.step .dequeue s = .ok { s with stack := f.body, queue := q } :=
        Session.dequeue_eq_ok.2 ⟨f, q, hnil, hold.trans hqueue, rfl⟩
      exact Represents.of_filter hC (.step (.init rfl) hl hstep) hconn htranscript
        (TcpConnection.filter_body f) rfl
    · -- The session has `connectEstablished` on its stack already.
      rw [hqueue] at hold
      obtain ⟨rfl, rfl⟩ := List.cons.inj hold
      refine ⟨s, .init rfl, hconn, htranscript, hR.settled, Or.inl ⟨?_, rfl⟩⟩
      rw [hfull]
      rfl
  | @run k rest eff hstack hk hrest heff =>
    obtain ⟨below, hs, hbelow, hqueue⟩ := hR.stack_eq_cons hstack
    rw [← hconn] at heff
    have hstep : sessionMachine.step .run s =
        .ok ((Session.noteTask { s with stack := below } k).apply eff) :=
      Session.run_eq_ok.2 ⟨k, below, eff, hs, hk, heff, rfl⟩
    refine Represents.of_filter hC (.step (.init rfl) hl hstep) rfl ?_ ?_ ?_
    · exact (Session.transcript_noteTask { s with stack := below } k).trans htranscript
    · have hkeep : below.filter eff.conn.heeds = rest := by
        rw [← hbelow, ← hconn] at hrest ⊢
        exact TcpConnection.filter_exec heff hrest
      simp [hkeep]
    · have hposts := (TcpConnection.exec_followUp heff).1
      simp [hposts, hqueue]
  | @return_ b rest hstack =>
    obtain ⟨below, hs, hbelow, hqueue⟩ := hR.stack_eq_cons hstack
    have hstep : sessionMachine.step .return_ s = .ok { s with stack := below } :=
      Session.return_eq_ok.2 ⟨b, below, hs, rfl⟩
    exact Represents.of_filter hC (.step (.init rfl) hl hstep) hconn htranscript hbelow hqueue
  | @call x eff hcalm hstate heff =>
    obtain ⟨huser, hfilter, hqueue⟩ := hR.userRuns hcalm hstate
    rw [← hconn] at heff
    have hstep : sessionMachine.step (.call x) s = .ok ((s.noteCall x).apply eff) :=
      Session.call_eq_ok.2 ⟨huser, eff, heff, rfl⟩
    have hheeds : eff.conn.heeds = v.conn.heeds := by
      rw [← hconn]
      exact TcpConnection.heeds_congr (TcpConnection.call_closing heff).1
    refine Represents.of_filter hC (.step (.init rfl) hl hstep) rfl ?_ ?_ ?_
    · rw [← htranscript]
      exact Session.transcript_noteCall s x
    · simp [hheeds, hfilter]
    · simp [hqueue]
  | @callFrom x eff heff =>
    rw [← hconn] at heff
    have hstep : sessionMachine.step (.callFrom x) s = .ok ((s.noteCall x).apply eff) :=
      Session.callFrom_eq_ok.2 ⟨eff, heff, rfl⟩
    have hcalls : eff.calls = [] := by
      by_contra hne
      cases (TcpConnection.call_setup heff).2 hne
    refine Acts.queued (v := v) eff.posts hl hR hstep rfl ?_ ?_ ?_ ?_ ⟨rfl, rfl⟩
    · rw [← htranscript]
      exact Session.transcript_noteCall s x
    · rw [← hconn]
      by_cases hconnecting : s.conn.state_ = .kConnecting
      · have hnew := (TcpConnection.call_connecting heff).2 hconnecting
        exact Or.inl (hnew.trans hconnecting.symm)
      · exact Or.inr ⟨hconnecting, (TcpConnection.call_closing heff).1⟩
    · simp [hcalls]
    · simp
  | destroyInline hcalm hstate =>
    obtain ⟨huser, hfilter, hqueue⟩ := hR.userRuns hcalm hstate
    have hstep : sessionMachine.step (.destroy true) s =
        .ok { s with stack := [.connectDestroyed, .release] ++ s.stack } :=
      Session.destroy_eq_ok.2 (Or.inl ⟨rfl, huser, rfl⟩)
    refine Represents.of_filter hC (.step (.init rfl) hl hstep) hconn htranscript ?_ hqueue
    have hbody := TcpConnection.filter_body (c := v.conn) (.bound .connectDestroyed)
    exact (List.filter_append _ _).trans (congr (congrArg _ hbody) hfilter)
  | destroyLater =>
    have hstep : sessionMachine.step (.destroy false) s =
        .ok { s with queue := s.queue ++ [.bound .connectDestroyed] } :=
      Session.destroy_eq_ok.2 (Or.inr ⟨rfl, rfl⟩)
    exact Acts.queued _ hl hR hstep hconn htranscript (Or.inl rfl) rfl rfl ⟨rfl, rfl⟩
  | @consume len b hstack hlen hb =>
    obtain ⟨rest, hv⟩ := List.head?_eq_some_iff.1 hstack
    obtain ⟨below, hs, hbelow, hqueue⟩ := hR.stack_eq_cons hv
    rw [← hconn] at hlen hb
    have hstep : sessionMachine.step (.consume len) s = .ok { s with
        conn := { s.conn with inputBuffer_ := b }
        consumed := s.consumed ++ s.conn.inputBuffer_.content.take len } :=
      Session.consume_eq_ok.2 ⟨⟨by rw [hs]; rfl, hlen⟩, b, hb, rfl⟩
    refine Represents.of_filter hC (.step (.init rfl) hl hstep) ?_ ?_ ?_ hqueue
    · simp only [hconn]
    · simp only [← htranscript, ← hconn]
      rfl
    · rw [hv]
      show s.stack.filter v.conn.heeds = _
      rw [hs, ← hbelow]
      rfl
  | @receive data r hr =>
    rw [← hconn] at hr
    obtain ⟨region, rs, -, -, -, rfl⟩ := TcpConnection.receive_eq_some hr
    have hstep := Session.receive_eq_ok.2 ⟨_, hr, rfl⟩
    refine Acts.queued [.raw (.readHandler none data.length)] hl hR hstep rfl ?_ ?_ rfl rfl
      ⟨rfl, rfl⟩
    · rw [← htranscript]
      rfl
    · exact Or.inl (by rw [← hconn])
  | @readFails e r hr =>
    rw [← hconn] at hr
    obtain ⟨region, rs, -, rfl⟩ := TcpConnection.readFails_eq_some hr
    have hstep := Session.readFails_eq_ok.2 ⟨_, hr, rfl⟩
    exact Acts.queued [.raw (.readHandler (some e) 0)] hl hR hstep rfl htranscript
      (Or.inl (by rw [← hconn])) rfl rfl ⟨rfl, rfl⟩
  | @transmit k stale r hr =>
    rw [← hconn] at hr
    obtain ⟨region, rs, -, -, -, rfl⟩ := TcpConnection.transmit_eq_some hr
    have hstep := Session.transmit_eq_ok.2 ⟨_, hr, rfl⟩
    refine Acts.queued [.raw (.writeHandler none k)] hl hR hstep rfl ?_ ?_ rfl rfl
      ⟨rfl, rfl⟩
    · rw [← htranscript]
      rfl
    · exact Or.inl (by rw [← hconn])
  | @sendFails e r hr =>
    rw [← hconn] at hr
    obtain ⟨region, rs, -, rfl⟩ := TcpConnection.sendFails_eq_some hr
    have hstep := Session.sendFails_eq_ok.2 ⟨_, hr, rfl⟩
    exact Acts.queued [.raw (.writeHandler (some e) 0)] hl hR hstep rfl htranscript
      (Or.inl (by rw [← hconn])) rfl rfl ⟨rfl, rfl⟩

/-- So it can do what the part does one after the other. -/
theorem Moves.answered {P : Part → SessionEvent → Prop} (hm : Moves P v v')
    (hC : ∀ u m, u.Idles m → C u m)
    (hP : ∀ u m s, P u m → Represents u s → C s m) (hR : Represents v s) :
    ∃ s', (sessionMachine.startedAt s).ReachableUnder C s' ∧ Represents v' s' := by
  induction hm with
  | refl => exact ⟨s, .init rfl, hR⟩
  | step hmoves hl hact ih =>
    obtain ⟨r, hr, hrep⟩ := ih
    obtain ⟨s', hs', hrep'⟩ := hact.answered hC (hP _ _ _ hl hrep) hrep
    exact ⟨s', hr.goOn hs', hrep'⟩

/-! ## Before a connection is established -/

/-- An act of a connection that is not established leaves `connectEstablished` the next. -/
theorem Acts.starting {l : SessionEvent} (ha : Acts v l v') (h : v.Starting)
    (hstate : v'.conn.state_ = .kConnecting) : v.conn.state_ = .kConnecting ∧
      (v'.stack = [] → v.stack = []) ∧ (v'.stack = [.connectEstablished] ∨
        (v'.stack = [] ∧ v'.queue.head? = some (.bound .connectEstablished))) := by
  -- Something is done to the queue at most, behind what is there.
  have hqueued : ∀ fs, v.conn.state_ = .kConnecting → v'.stack = v.stack →
      v'.queue = v.queue ++ fs → v.conn.state_ = .kConnecting ∧ (v'.stack = [] → v.stack = []) ∧
        (v'.stack = [.connectEstablished] ∨
          (v'.stack = [] ∧ v'.queue.head? = some (.bound .connectEstablished))) := by
    intro fs hold hstack hqueue
    refine ⟨hold, fun hnil => hstack ▸ hnil, ?_⟩
    rw [hstack, hqueue]
    rcases h hold with hone | ⟨hnil, hhead⟩
    · exact Or.inl hone
    · refine Or.inr ⟨hnil, ?_⟩
      rw [List.head?_append, hhead]
      rfl
  cases ha with
  | dequeue hstack hqueue =>
    refine ⟨hstate, fun _ => hstack, ?_⟩
    rcases h hstate with hone | ⟨-, hhead⟩
    · rw [hstack] at hone
      cases hone
    · rw [hqueue] at hhead
      obtain rfl := Option.some.inj hhead
      exact Or.inl rfl
  | @run k rest eff hstack hk hrest heff =>
    exfalso
    rcases TcpConnection.exec_state heff with ⟨-, -, hnew⟩ | ⟨-, hnew⟩ | ⟨hne, hsame⟩
    · rw [hnew] at hstate
      cases hstate
    · rw [hnew] at hstate
      cases hstate
    · rcases h (hsame.symm.trans hstate) with hone | ⟨hnil, -⟩
      · rw [hstack] at hone
        exact hne (List.cons.inj hone).1
      · rw [hstack] at hnil
        cases hnil
  | return_ hstack =>
    exfalso
    rcases h hstate with hone | ⟨hnil, -⟩
    · rw [hstack] at hone
      cases hone
    · rw [hstack] at hnil
      cases hnil
  | call hcalm hopen heff =>
    exact absurd ((TcpConnection.call_connecting heff).1 hstate) hopen
  | callFrom heff =>
    exact hqueued _ ((TcpConnection.call_connecting heff).1 hstate) rfl rfl
  | destroyInline hcalm hopen => exact absurd hstate hopen
  | destroyLater => exact hqueued _ hstate rfl rfl
  | consume hstack hlen hb =>
    exfalso
    rcases h hstate with hone | ⟨hnil, -⟩
    · rw [hone] at hstack
      cases hstack
    · rw [hnil] at hstack
      cases hstack
  | receive hr =>
    obtain ⟨region, rs, -, -, -, rfl⟩ := TcpConnection.receive_eq_some hr
    exact hqueued _ hstate rfl rfl
  | readFails hr =>
    obtain ⟨region, rs, -, rfl⟩ := TcpConnection.readFails_eq_some hr
    exact hqueued _ hstate rfl rfl
  | transmit hr =>
    obtain ⟨region, rs, -, -, -, rfl⟩ := TcpConnection.transmit_eq_some hr
    exact hqueued _ hstate rfl rfl
  | sendFails hr =>
    obtain ⟨region, rs, -, rfl⟩ := TcpConnection.sendFails_eq_some hr
    exact hqueued _ hstate rfl rfl

theorem Moves.starting {P : Part → SessionEvent → Prop} (hm : Moves P v v') (h : v.Starting) :
    v'.Starting ∧ (v'.conn.state_ = .kConnecting → v.conn.state_ = .kConnecting ∧
      (v'.stack = [] → v.stack = [])) := by
  induction hm with
  | refl => exact ⟨h, fun hstate => ⟨hstate, id⟩⟩
  | step hmoves hl hact ih =>
    refine ⟨fun hstate => (hact.starting ih.1 hstate).2.2, ?_⟩
    intro hstate
    obtain ⟨hmid, hempty, -⟩ := hact.starting ih.1 hstate
    exact ⟨(ih.2 hmid).1, fun hnil => (ih.2 hmid).2 (hempty hnil)⟩

end Part

end LibNetToy
