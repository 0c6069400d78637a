import LibNetToy.Net.Session
import LibNetToy.Net.Transitions

/-!
# Closing a connection

`handleClose` is entered from `forceCloseInLoop`, which tests the state first, and from a
`readHandler` that is given an error, which does not.  Closing leaves the socket open and a
read outstanding, so the read can still end with an error after the connection is
disconnected; this is the only way to reach the assertion of `handleClose`, and the callbacks
that report the end are called at most once in every run.
-/

namespace LibNetToy

namespace TcpConnection

variable {c : TcpConnection} {here : Option LoopId} {eff : Effect}

/-- No task puts a connection back to `kConnecting`, and `connectEstablished` takes it out. -/
theorem exec_connecting {t : ConnTask} (h : c.exec here t = .ok eff)
    (hstate : c.state_ = .kConnecting → t = .connectEstablished) :
    eff.conn.state_ ≠ .kConnecting := by
  rcases exec_state h with ⟨-, -, hnew⟩ | ⟨-, hnew⟩ | ⟨ht, hsame⟩
  · rw [hnew]
    decide
  · rw [hnew]
    decide
  · rw [hsame]
    exact fun hold => ht (hstate hold)

/-- A call from another thread leaves nothing to do on that thread. -/
theorem call_none_calls {x : ConnCall} (h : c.call none x = .ok eff) : eff.calls = [] := by
  cases x with
  | send message =>
    obtain ⟨b, -, rfl⟩ := send_eq_ok.1 h
    rfl
  | shutdown | forceClose | startRead | stopRead =>
    obtain rfl := pure_eq_ok.1 h
    simp only [shutdown, forceClose, startRead, stopRead, runInLoop]
    split_ifs <;> first | rfl | simp_all

theorem handleClose_fails {f : Fault} : c.handleClose (some c.loop_) = .error f ↔
    ¬ (c.state_ = .kConnected ∨ c.state_ = .kDisconnecting) ∧ f = .assertion .handleClose := by
  simp only [handleClose, assertInLoopThread, check_bind_eq_error, not_true_eq_false, false_and,
    false_or, true_and, pure_ne_error, and_false, or_false]

/-- On the loop's thread the assertion of `handleClose` fails exactly when a `readHandler` with
an error runs while the connection is not open. -/
theorem exec_handleClose_fails {t : ConnTask} :
    c.exec (some c.loop_) t = .error (.assertion .handleClose) ↔
      (∃ e n, t = .readHandler (some e) n) ∧
        ¬ (c.state_ = .kConnected ∨ c.state_ = .kDisconnecting) := by
  constructor
  · intro h
    cases t with
    | readHandler error n =>
      rcases error with _ | _ | _ | _
      · rcases bind_eq_error.1 h with hwritten | ⟨b, -, hrest⟩
        · cases Buffer.hasWritten_fault hwritten
        · cases hrest
      · exact ⟨⟨_, _, rfl⟩, (handleClose_fails.1 h).1⟩
      · rcases bind_eq_error.1 h with hclose | ⟨e, -, hrest⟩
        · exact ⟨⟨_, _, rfl⟩, (handleClose_fails.1 hclose).1⟩
        · cases hrest
      · rcases bind_eq_error.1 h with hclose | ⟨e, -, hrest⟩
        · exact ⟨⟨_, _, rfl⟩, (handleClose_fails.1 hclose).1⟩
        · cases hrest
    | writeHandler error n =>
      cases error with
      | none =>
        rcases bind_eq_error.1 h with hretrieve | ⟨b, -, hrest⟩
        · cases Buffer.retrieve_fault hretrieve
        · cases hrest
      | some e => cases h
    | readAgain n =>
      simp only [exec, readAgain] at h
      split_ifs at h
      · rcases bind_eq_error.1 h with hspace | ⟨b, -, hrest⟩
        · rcases Buffer.ensureWritableBytes_fault hspace with hf | hf | hf | hf <;> cases hf
        · cases hrest
      · cases h
    | shutdownInLoop =>
      rcases check_bind_eq_error.1 h with ⟨-, hf⟩ | ⟨-, hrest⟩
      · cases hf
      · cases hrest
    | forceCloseInLoop =>
      rcases check_bind_eq_error.1 h with ⟨-, hf⟩ | ⟨-, hrest⟩
      · cases hf
      · split_ifs at hrest with hstate
        · exact absurd hstate (handleClose_fails.1 hrest).1
        · cases hrest
    | connectEstablished =>
      rcases check_bind_eq_error.1 h with ⟨-, hf⟩ | ⟨-, hrest⟩
      · cases hf
      · rcases check_bind_eq_error.1 hrest with ⟨-, hf⟩ | ⟨-, hrest'⟩
        · cases hf
        · cases hrest'
    | connectDestroyed =>
      rcases check_bind_eq_error.1 h with ⟨-, hf⟩ | ⟨-, hrest⟩
      · cases hf
      · split_ifs at hrest <;> cases hrest
    | startReadInLoop | stopReadInLoop | callback k | inCallback k | release => cases h
  · rintro ⟨⟨e, n, rfl⟩, hstate⟩
    have hclose : c.handleClose (some c.loop_) = .error (.assertion .handleClose) :=
      handleClose_fails.2 ⟨hstate, rfl⟩
    cases e with
    | eof => exact hclose
    | operationAborted | other =>
      simp only [exec, readHandler, handleError, hclose]
      rfl

/-- A call from outside never fails the assertion of `handleClose`. -/
theorem call_fault {x : ConnCall} {f : Fault} (h : c.call here x = .error f) :
    f ≠ .assertion .handleClose := by
  cases x with
  | send message =>
    rcases bind_eq_error.1 h with happend | ⟨b, -, hrest⟩
    · rcases Buffer.append_fault happend with rfl | rfl | rfl | rfl | rfl <;> decide
    · exact absurd hrest pure_ne_error
  | shutdown | forceClose | startRead | stopRead => exact absurd h pure_ne_error

end TcpConnection

namespace Session

open TcpConnection (downOf closeOf)

/-- A read that ended with an error is about to be handled after the connection was
disconnected. -/
def LateError (s : Session) : Prop :=
  s.conn.state_ = .kDisconnected ∧ ∃ e n rest, s.stack = .readHandler (some e) n :: rest

/-- The connection was closed at most once so far, and the next step does not enter
`handleClose` in a state in which its assertion fails. -/
structure ClosesOnce (s : Session) : Prop where
  assertion_holds : ∀ l, sessionMachine.step l s ≠ .error (.fault (.assertion .handleClose))
  downs_le : s.downs ≤ 1
  closes_le : s.closes ≤ 1

/-- How often the end of the connection may have been reported. -/
def ends (s : Session) : Nat :=
  if s.conn.state_ = .kDisconnected then 1 else 0

/-- The end is reported, or about to be reported, only of a disconnected connection and only
once; a connection that is not yet established is about to be. -/
structure Closing (s : Session) : Prop where
  downs_le : s.downs + weigh downOf s.tasks ≤ s.ends
  closes_le : s.closes + weigh closeOf s.tasks ≤ s.ends
  connecting : s.conn.state_ = .kConnecting → s.stack = [.connectEstablished, .release]

variable {s s' : Session}

/-! ## Counting reports -/

theorem ends_eq {s s' : Session}
    (h : s'.conn.state_ = .kDisconnected ↔ s.conn.state_ = .kDisconnected) : s'.ends = s.ends := by
  unfold ends
  by_cases hs : s.conn.state_ = .kDisconnected
  · rw [if_pos hs, if_pos (h.2 hs)]
  · rw [if_neg hs, if_neg fun hs' => hs (h.1 hs')]

theorem noteTask_downs (s : Session) (t : ConnTask) :
    (s.noteTask t).downs = s.downs + downOf t := by
  unfold noteTask downOf
  split <;> simp_all

theorem noteTask_closes (s : Session) (t : ConnTask) :
    (s.noteTask t).closes = s.closes + closeOf t := by
  unfold noteTask closeOf
  split <;> simp_all

/-! ## What the events keep -/

/-- The invariant is kept by what neither reports anything nor changes the state or the stack
of a connection that is not established. -/
theorem Closing.frame (h : Closing s)
    (hstate : s'.conn.state_ = .kDisconnected ↔ s.conn.state_ = .kDisconnected)
    (hdowns : s'.downs + weigh downOf s'.tasks =
      s.downs + weigh downOf s.tasks)
    (hcloses : s'.closes + weigh closeOf s'.tasks =
      s.closes + weigh closeOf s.tasks)
    (hconnecting : s'.conn.state_ = .kConnecting → s.conn.state_ = .kConnecting ∧
      (s.stack = [.connectEstablished, .release] → s'.stack = s.stack)) : Closing s' := by
  obtain ⟨hd, hc, hk⟩ := h
  constructor
  · rw [hdowns, ends_eq hstate]
    exact hd
  · rw [hcloses, ends_eq hstate]
    exact hc
  · intro hnew
    obtain ⟨hold, hstack⟩ := hconnecting hnew
    rw [hstack (hk hold)]
    exact hk hold

/-- Running a task. -/
theorem Closing.run (h : Closing s) {t : ConnTask} {rest : List ConnTask} {eff : Effect}
    (hs : s.stack = t :: rest) (he : s.conn.exec (some s.conn.loop_) t = .ok eff) :
    Closing ((noteTask { s with stack := rest } t).apply eff) := by
  have hdown' := weigh_run downOf hs eff
  have hclose' := weigh_run closeOf hs eff
  have hdowns : ((noteTask { s with stack := rest } t).apply eff).downs =
      s.downs + downOf t := by
    rw [apply_downs, noteTask_downs]
  have hcloses : ((noteTask { s with stack := rest } t).apply eff).closes =
      s.closes + closeOf t := by
    rw [apply_closes, noteTask_closes]
  have hconnecting : eff.conn.state_ ≠ .kConnecting := by
    apply TcpConnection.exec_connecting he
    intro hstate
    have hstack := h.connecting hstate
    rw [hs] at hstack
    exact (List.cons.inj hstack).1
  have hd := h.downs_le
  have hc := h.closes_le
  rcases TcpConnection.exec_closing he with ⟨hopen, hclosed, hdown, hclose⟩ | ⟨hsame, hdown, hclose⟩
  · -- the task closes the connection, so nothing was reported before
    have hends : s.ends = 0 := if_neg hopen
    have hends' : ((noteTask { s with stack := rest } t).apply eff).ends = 1 := if_pos hclosed
    constructor
    · rw [hends', hdowns]
      omega
    · have hle : weigh closeOf eff.tasks ≤ 1 := by
        rw [hclose]
        split_ifs <;> decide
      rw [hends', hcloses]
      omega
    · exact fun hnew => absurd hnew hconnecting
  · have hends : ((noteTask { s with stack := rest } t).apply eff).ends = s.ends :=
      ends_eq (s := s) hsame
    constructor
    · rw [hends, hdowns]
      omega
    · rw [hends, hcloses]
      omega
    · exact fun hnew => absurd hnew hconnecting

/-- A call of the connection by the user. -/
theorem Closing.call (h : Closing s) {x : ConnCall} {here : Option LoopId} {eff : Effect}
    (he : s.conn.call here x = .ok eff)
    (hcalls : s.stack = [.connectEstablished, .release] → eff.calls = []) :
    Closing ((s.noteCall x).apply eff) := by
  obtain ⟨hsame, hdown, hclose⟩ := TcpConnection.call_closing he
  have htasks : (s.noteCall x).tasks = s.tasks := by
    simp [tasks]
  refine Closing.frame h hsame ?_ ?_ ?_
  · rw [weigh_apply, htasks, hdown, apply_downs, noteCall_downs]
    rfl
  · rw [weigh_apply, htasks, hclose, apply_closes, noteCall_closes]
    rfl
  · intro hnew
    refine ⟨(TcpConnection.call_connecting he).1 hnew, ?_⟩
    intro hstack
    rw [apply_stack, noteCall_stack, hcalls hstack]
    rfl

/-- Every event keeps the invariant. -/
theorem Closing.step (h : Closing s) {l : SessionEvent} (hl : Session.step l s = .ok s') :
    Closing s' := by
  cases l with
  | dequeue =>
    obtain ⟨f, q, hs, hq, rfl⟩ := dequeue_eq_ok.1 hl
    have htasks := tasks_dequeue hs hq
    refine h.frame Iff.rfl (by rw [htasks]) (by rw [htasks]) fun hstate => ⟨hstate, ?_⟩
    intro hstack
    rw [hs] at hstack
    cases hstack
  | run =>
    obtain ⟨t, rest, e, hs, -, he, rfl⟩ := run_eq_ok.1 hl
    exact h.run hs he
  | return_ =>
    obtain ⟨k, rest, hs, rfl⟩ := return_eq_ok.1 hl
    refine h.frame Iff.rfl (by simp [tasks_cons hs, downOf]) (by simp [tasks_cons hs, closeOf])
      fun hstate => ⟨hstate, ?_⟩
    intro hstack
    rw [hs] at hstack
    cases hstack
  | call x =>
    obtain ⟨hu, e, he, rfl⟩ := call_eq_ok.1 hl
    refine h.call he fun hstack => ?_
    rw [userRuns, hstack] at hu
    cases hu
  | callFrom x =>
    obtain ⟨e, he, rfl⟩ := callFrom_eq_ok.1 hl
    exact h.call he fun _ => TcpConnection.call_none_calls he
  | destroy inline =>
    rcases destroy_eq_ok.1 hl with ⟨-, hu, rfl⟩ | ⟨-, rfl⟩
    · refine h.frame Iff.rfl (by simp [tasks, downOf]) (by simp [tasks, closeOf])
        fun hstate => ⟨hstate, ?_⟩
      intro hstack
      rw [userRuns, hstack] at hu
      cases hu
    · exact h.frame Iff.rfl (by simp [tasks, Functor.body, downOf])
        (by simp [tasks, Functor.body, closeOf]) fun hstate => ⟨hstate, fun _ => rfl⟩
  | consume len =>
    obtain ⟨-, b, -, rfl⟩ := consume_eq_ok.1 hl
    exact h.frame Iff.rfl rfl rfl fun hstate => ⟨hstate, fun _ => rfl⟩
  | receive data =>
    obtain ⟨r, hr, rfl⟩ := receive_eq_ok.1 hl
    obtain ⟨region, rest, -, -, -, rfl⟩ := TcpConnection.receive_eq_some hr
    exact h.frame Iff.rfl (congrArg (s.downs + ·) (weigh_complete downOf s _ _))
      (congrArg (s.closes + ·) (weigh_complete closeOf s _ _))
      fun hstate => ⟨hstate, fun _ => rfl⟩
  | readFails e =>
    obtain ⟨r, hr, rfl⟩ := readFails_eq_ok.1 hl
    obtain ⟨region, rest, -, rfl⟩ := TcpConnection.readFails_eq_some hr
    exact h.frame Iff.rfl (congrArg (s.downs + ·) (weigh_complete downOf s _ _))
      (congrArg (s.closes + ·) (weigh_complete closeOf s _ _))
      fun hstate => ⟨hstate, fun _ => rfl⟩
  | transmit k stale =>
    obtain ⟨r, hr, rfl⟩ := transmit_eq_ok.1 hl
    obtain ⟨region, rest, -, -, -, rfl⟩ := TcpConnection.transmit_eq_some hr
    exact h.frame Iff.rfl (congrArg (s.downs + ·) (weigh_complete downOf s _ _))
      (congrArg (s.closes + ·) (weigh_complete closeOf s _ _))
      fun hstate => ⟨hstate, fun _ => rfl⟩
  | sendFails e =>
    obtain ⟨r, hr, rfl⟩ := sendFails_eq_ok.1 hl
    obtain ⟨region, rest, -, rfl⟩ := TcpConnection.sendFails_eq_some hr
    exact h.frame Iff.rfl (congrArg (s.downs + ·) (weigh_complete downOf s _ _))
      (congrArg (s.closes + ·) (weigh_complete closeOf s _ _))
      fun hstate => ⟨hstate, fun _ => rfl⟩

theorem closing_initial (loop : LoopId) (name : List Char) (m w : Bool) :
    Closing (Session.initial loop name m w) :=
  ⟨Nat.le_refl _, Nat.le_refl _, fun _ => rfl⟩

theorem closing_of_reachable (hs : sessionMachine.Reachable s) : Closing s := by
  refine hs.invariant (I := Closing) ?_ ?_
  · rintro _ ⟨loop, name, m, w, rfl⟩
    exact closing_initial loop name m w
  · intro s l s' h _ hl
    exact h.step hl

/-- The assertion of `handleClose` fails in the steps that handle a late error and in no
others. -/
theorem step_handleClose_fails (h : Closing s) {l : SessionEvent} :
    Session.step l s = .error (.fault (.assertion .handleClose)) ↔ l = .run ∧ s.LateError := by
  constructor
  · intro hl
    cases l with
    | run =>
      obtain ⟨t, rest, hs, he⟩ := run_eq_fault.1 hl
      obtain ⟨⟨e, n, rfl⟩, hstate⟩ := TcpConnection.exec_handleClose_fails.1 he
      refine ⟨rfl, ?_, e, n, rest, hs⟩
      have hconnecting : s.conn.state_ ≠ .kConnecting := by
        intro hk
        have hstack := h.connecting hk
        rw [hs] at hstack
        cases hstack
      cases hst : s.conn.state_ with
      | kDisconnected => rfl
      | kConnecting => exact absurd hst hconnecting
      | kConnected => exact absurd (Or.inl hst) hstate
      | kDisconnecting => exact absurd (Or.inr hst) hstate
    | call x =>
      simp only [Session.step, Halt.guard_eq_fault, Halt.ofCall_eq_fault] at hl
      exact absurd rfl (TcpConnection.call_fault hl.2)
    | callFrom x =>
      simp only [Session.step, Halt.ofCall_eq_fault] at hl
      exact absurd rfl (TcpConnection.call_fault hl)
    | consume len =>
      simp only [Session.step, Halt.guard_eq_fault, Halt.ofCall_eq_fault] at hl
      cases Buffer.retrieve_fault hl.2
    | dequeue | return_ =>
      simp only [Session.step] at hl
      split at hl <;> cases hl
    | destroy inline =>
      simp only [Session.step] at hl
      split_ifs at hl
      rw [Halt.guard_eq_fault] at hl
      cases hl.2
    | receive data | readFails e | transmit k stale | sendFails e =>
      simp only [Session.step] at hl
      exact absurd hl Halt.ofOption_ne_fault
  · rintro ⟨rfl, hstate, e, n, rest, hs⟩
    refine run_eq_fault.2 ⟨_, rest, hs, TcpConnection.exec_handleClose_fails.2 ⟨⟨e, n, rfl⟩, ?_⟩⟩
    rw [hstate]
    decide

theorem ends_le_one (s : Session) : s.ends ≤ 1 := by
  unfold ends
  split_ifs
  · exact Nat.le_refl _
  · exact Nat.zero_le _

/-! ## The results -/

/-- In every state of every run the callbacks that report the end were called at most once,
and the next step closes correctly exactly when it does not handle a late error. -/
theorem closesOnce_iff {s : Session} (hs : sessionMachine.Reachable s) :
    s.downs ≤ 1 ∧ s.closes ≤ 1 ∧ (ClosesOnce s ↔ ¬ s.LateError) := by
  have h := closing_of_reachable hs
  have hends := s.ends_le_one
  have hd : s.downs ≤ 1 := by
    have hle := h.downs_le
    omega
  have hc : s.closes ≤ 1 := by
    have hle := h.closes_le
    omega
  refine ⟨hd, hc, ?_, ?_⟩
  · intro hclose hlate
    exact hclose.assertion_holds .run ((step_handleClose_fails h).2 ⟨rfl, hlate⟩)
  · intro hlate
    refine ⟨?_, hd, hc⟩
    intro l hl
    exact hlate ((step_handleClose_fails h).1 hl).2

/-- A connection closed by `forceClose` whose outstanding read is not completed yet. -/
theorem closesOnce_forceClose : ∃ s, (s.downs = 1 ∧ s.closes = 1) ∧ ClosesOnce s := by
  have hinit : sessionMachine.init (Session.initial 0 [] false false) := ⟨_, _, _, _, rfl⟩
  obtain ⟨s, hs, hobs⟩ := Machine.exists_of_run (C := fun _ _ => True) hinit
    (l := [.run, .run, .return_, .run, .run, .callFrom .forceClose, .dequeue, .run, .run,
      .return_, .run, .return_])
    (f := fun s => (s.downs, s.closes, s.stack.head?)) (a := (1, 1, some .release))
    (by decide +kernel)
  obtain ⟨hd, hrest⟩ := Prod.mk.inj hobs
  obtain ⟨hc, hhead⟩ := Prod.mk.inj hrest
  refine ⟨s, ⟨hd, hc⟩, (closesOnce_iff hs).2.2.2 ?_⟩
  rintro ⟨-, e, n, rest, hstack⟩
  rw [hstack] at hhead
  cases hhead

/-- The peer closes after `forceClose`: the outstanding read ends with `eof` and its handler
enters `handleClose` again. -/
theorem not_closesOnce : ¬ ∀ s, sessionMachine.Reachable s → ClosesOnce s := by
  intro hall
  have hinit : sessionMachine.init (Session.initial 0 [] false false) := ⟨_, _, _, _, rfl⟩
  obtain ⟨s, hs, hobs⟩ := Machine.exists_of_run (C := fun _ _ => True) hinit
    (l := [.run, .run, .return_, .run, .run, .callFrom .forceClose, .dequeue, .run, .run,
      .return_, .run, .return_, .run, .run, .readFails .eof, .dequeue])
    (f := fun s => (s.conn.state_, s.stack)) (a := (.kDisconnected, [.readHandler (some .eof) 0]))
    (by decide +kernel)
  obtain ⟨hstate, hstack⟩ := Prod.mk.inj hobs
  have hlate : s.LateError := ⟨hstate, .eof, 0, [], hstack⟩
  exact (hall s hs).assertion_holds .run
    ((step_handleClose_fails (closing_of_reachable hs)).2 ⟨rfl, hlate⟩)

end Session

end LibNetToy
