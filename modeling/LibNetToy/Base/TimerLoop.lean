import LibNetToy.Base.Cxx
import LibNetToy.Foundations.AssocMap
import LibNetToy.Foundations.Machine

/-!
# `TimerQueue` in its loop

The member functions of `base/TimerQueue.cpp`, for timers that fire once or periodically.  A
`deadline_timer` is owned by its entry of the map and by the local `deadTimer` of a running
`handleTimer`; the handlers of its waits hold a `weak_ptr`.  Cancelling, re-arming and
destroying a timer aborts its pending waits, whose handlers are then queued with an error; a
completion that is queued already stays as it is.

`handleTimer` takes several steps of the thread of the loop, because the callback and other
threads may call `addTimer` and `cancel` in between.
-/

namespace LibNetToy

/-- The name of a function that is called when a timer fires. -/
abbrev TimerCallback := Nat

/-- An `async_wait` that is not completed, with the interval bound into its handler. -/
structure Wait where
  timer : TimerId
  interval : Int
  deriving DecidableEq, Repr

/-- A handler that waits in the queue of the loop. -/
structure Completion where
  timer : TimerId
  interval : Int
  error : Option ErrorCode
  deriving DecidableEq, Repr

/-- How far a `handleTimer` that has locked its pointer has come. -/
inductive Stage
  /-- `lock` has returned the timer. -/
  | locked
  /-- `it` is the entry of the timer. -/
  | found
  /-- The callback is running. -/
  | inCallback
  /-- What is left is to erase the entry or to wait again. -/
  | returned
  /-- `deadTimer` leaves its scope. -/
  | leaving
  deriving DecidableEq, Repr

/-- A running `handleTimer`. -/
structure Handler where
  timer : TimerId
  interval : Int
  error : Option ErrorCode
  stage : Stage
  deriving DecidableEq, Repr

/-- What happened to a timer: it was added, its callback started, `cancel` returned. -/
inductive TimerRecord
  | added (t : TimerId) (interval : Int)
  | started (t : TimerId)
  | cancelled (t : TimerId)
  deriving DecidableEq, Repr

/-- A timer queue, the operations on its timers and the thread of its loop. -/
structure TimerLoop where
  timerQueue_ : AssocMap TimerId TimerCallback
  waits : List Wait
  queue : List Completion
  running : Option Handler
  nextTimer : TimerId
  log : List TimerRecord
  deriving DecidableEq, Repr

/-- The handler of an aborted wait. -/
def Wait.aborted (w : Wait) : Completion :=
  ⟨w.timer, w.interval, some .operationAborted⟩

/-- The handler of a wait that is over. -/
def Wait.expired (w : Wait) : Completion :=
  ⟨w.timer, w.interval, none⟩

/-- What happens next. -/
inductive TimerEvent
  /-- Some thread adds a timer. -/
  | addTimer (cb : TimerCallback) (interval : Int)
  /-- Some thread cancels a timer, or calls `cancel` with an empty pointer. -/
  | cancel (timer : Option TimerId)
  /-- A wait is over. -/
  | expires (w : Wait)
  /-- The loop takes the oldest handler of its queue. -/
  | dequeue
  /-- The running handler goes on. -/
  | run
  /-- The running callback returns. -/
  | return_
  deriving DecidableEq, Repr

namespace TimerLoop

/-- A queue without timers. -/
def initial : TimerLoop where
  timerQueue_ := []
  waits := []
  queue := []
  running := none
  nextTimer := 0
  log := []

/-- The timers in the map. -/
def timers (s : TimerLoop) : List TimerId :=
  AssocMap.keys s.timerQueue_

/-- The handler that is running is one of the timer. -/
def isRunning (s : TimerLoop) (t : TimerId) : Prop :=
  ∃ h ∈ s.running, h.timer = t

instance (s : TimerLoop) (t : TimerId) : Decidable (s.isRunning t) :=
  decidable_of_iff (s.running.any fun h => h.timer = t) (by
    simp [isRunning, Option.any_eq_true])

/-- Some `shared_ptr` to the timer exists. -/
def alive (s : TimerLoop) (t : TimerId) : Prop :=
  t ∈ s.timers ∨ s.isRunning t

instance (s : TimerLoop) (t : TimerId) : Decidable (s.alive t) :=
  inferInstanceAs (Decidable (_ ∨ _))

/-- The pending waits of a timer are aborted. -/
def abort (s : TimerLoop) (t : TimerId) : TimerLoop :=
  { s with
    waits := s.waits.filter fun w => w.timer ≠ t
    queue := s.queue ++ (s.waits.filter fun w => w.timer = t).map Wait.aborted }

/-- `expires_from_now` and `async_wait`. -/
def waitAgain (s : TimerLoop) (w : Wait) : TimerLoop :=
  { s.abort w.timer with waits := (s.abort w.timer).waits ++ [w] }

/-- The entry of a timer is erased. -/
def erase (s : TimerLoop) (t : TimerId) : TimerLoop :=
  { s with timerQueue_ := AssocMap.erase t s.timerQueue_ }

def addTimer (s : TimerLoop) (cb : TimerCallback) (interval : Int) : TimerLoop :=
  { s with
    timerQueue_ := AssocMap.assign s.nextTimer cb s.timerQueue_
    waits := s.waits ++ [⟨s.nextTimer, interval⟩]
    nextTimer := s.nextTimer + 1
    log := s.log ++ [.added s.nextTimer interval] }

/-- The local `timerToKill` may be the last pointer to the timer, whose waits are aborted
already. -/
def cancel (s : TimerLoop) (t : TimerId) : TimerLoop :=
  if s.alive t then (s.abort t).erase t else s

/-- The beginning of `handleTimer`: an expired pointer is not locked. -/
def handleTimer (s : TimerLoop) (c : Completion) : TimerLoop :=
  if s.alive c.timer then { s with running := some ⟨c.timer, c.interval, c.error, .locked⟩ }
  else s

/-- `handleTimer` goes on. -/
def proceed (s : TimerLoop) (h : Handler) (stage : Stage) : TimerLoop :=
  { s with running := some { h with stage := stage } }

/-- `timerQueue_.erase(it)`. -/
def eraseIterator (s : TimerLoop) (t : TimerId) : Except Fault TimerLoop :=
  if t ∈ s.timers then pure (s.erase t) else .error .invalidIterator

/-- The next step of `handleTimer`.  The callback returns by itself.  The function object it is
called through is a member of the entry; when `cancel` erases the entry of a timer whose callback
is running, that object is destroyed while it is in use, which is not modelled: what is followed
here is the iterator. -/
def goOn (s : TimerLoop) (h : Handler) : Except (Halt Fault) TimerLoop :=
  match h.stage with
  | .locked => Halt.ofCall (check (h.timer ∈ s.timers) .handleTimer) fun _ => s.proceed h .found
  | .found =>
    match h.error with
    | none =>
      if h.timer ∈ s.timers then
        .ok { s.proceed h .inCallback with log := s.log ++ [.started h.timer] }
      else .error (.fault .invalidIterator)
    | some _ => .ok ((s.abort h.timer).proceed h .returned)
  | .inCallback => .error .disabled
  | .returned =>
    if h.error = none ∧ h.interval ≠ 0 then
      .ok ((s.waitAgain ⟨h.timer, h.interval⟩).proceed h .leaving)
    else Halt.ofCall (s.eraseIterator h.timer) fun q => q.proceed h .leaving
  | .leaving =>
    let q := { s with running := none }
    .ok (if h.timer ∈ s.timers then q else q.abort h.timer)

/-- One step.  `cancel` is called with a pointer that `addTimer` has returned, or with an empty
one. -/
def step : TimerEvent → TimerLoop → Except (Halt Fault) TimerLoop
  | .addTimer cb interval, s => .ok (s.addTimer cb interval)
  | .cancel none, s => .ok s
  | .cancel (some t), s =>
    Halt.guard (t < s.nextTimer) (.ok { s.cancel t with log := s.log ++ [.cancelled t] })
  | .expires w, s =>
    Halt.guard (w ∈ s.waits)
      (.ok { s with waits := s.waits.erase w, queue := s.queue ++ [w.expired] })
  | .dequeue, s =>
    match s.running, s.queue with
    | none, c :: queue => .ok ({ s with queue := queue }.handleTimer c)
    | _, _ => .error .disabled
  | .run, s =>
    match s.running with
    | none => .error .disabled
    | some h => s.goOn h
  | .return_, s =>
    match s.running with
    | some h => Halt.guard (h.stage = .inCallback) (.ok (s.proceed h .returned))
    | none => .error .disabled

end TimerLoop

/-- All runs of a timer queue. -/
def timerMachine : Machine TimerLoop TimerEvent Fault where
  init s := s = TimerLoop.initial
  step := TimerLoop.step

namespace TimerLoop

variable {s s' : TimerLoop}

/-! ## The timers in the map -/

/-- Aborting waits leaves the map alone. -/
@[simp] theorem timers_abort (t : TimerId) : (s.abort t).timers = s.timers := rfl

/-- Starting a wait leaves the map alone. -/
@[simp] theorem timers_waitAgain (w : Wait) : (s.waitAgain w).timers = s.timers := rfl

/-- A handler that goes on leaves the map alone. -/
@[simp] theorem timers_proceed (h : Handler) (stage : Stage) :
    (s.proceed h stage).timers = s.timers := rfl

/-- `addTimer` puts the new timer into the map. -/
theorem mem_timers_addTimer {cb : TimerCallback} {interval : Int} {t : TimerId} :
    t ∈ (s.addTimer cb interval).timers ↔ t = s.nextTimer ∨ t ∈ s.timers :=
  AssocMap.mem_keys_assign

/-- The erased timer is the only one that leaves the map. -/
theorem mem_timers_erase {t t' : TimerId} : t' ∈ (s.erase t).timers ↔ t' ∈ s.timers ∧ t' ≠ t :=
  AssocMap.mem_keys_erase

/-- Cancelling a timer removes it and no other one. -/
theorem mem_timers_cancel {t t' : TimerId} :
    t' ∈ (s.cancel t).timers ↔ t' ∈ s.timers ∧ t' ≠ t := by
  unfold cancel
  split_ifs with halive
  · exact mem_timers_erase
  · constructor
    · intro h
      refine ⟨h, ?_⟩
      rintro rfl
      exact halive (Or.inl h)
    · exact fun h => h.1

/-- A handler that begins leaves the map alone. -/
@[simp] theorem timers_handleTimer (c : Completion) : (s.handleTimer c).timers = s.timers := by
  unfold handleTimer
  split_ifs <;> rfl

/-! ## What the events do -/

/-- `addTimer` always returns. -/
theorem addTimer_eq_ok {cb : TimerCallback} {interval : Int} :
    step (.addTimer cb interval) s = .ok s' ↔ s' = s.addTimer cb interval := by
  simp [step, @eq_comm _ _ s']

/-- `cancel` is called with a pointer that `addTimer` has returned, or an empty one. -/
theorem cancel_eq_ok {timer : Option TimerId} : step (.cancel timer) s = .ok s' ↔
    (timer = none ∧ s' = s) ∨ ∃ t, timer = some t ∧ t < s.nextTimer ∧
      s' = { s.cancel t with log := s.log ++ [.cancelled t] } := by
  cases timer <;> simp [step, @eq_comm _ _ s']

/-- A pending wait is over, and its handler is queued. -/
theorem expires_eq_ok {w : Wait} : step (.expires w) s = .ok s' ↔ w ∈ s.waits ∧
    s' = { s with waits := s.waits.erase w, queue := s.queue ++ [w.expired] } := by
  simp [step, @eq_comm _ _ s']

/-- The loop takes the next handler when the last one is done. -/
theorem dequeue_eq_ok : step .dequeue s = .ok s' ↔ s.running = none ∧
    ∃ c queue, s.queue = c :: queue ∧ s' = { s with queue := queue }.handleTimer c := by
  cases hrunning : s.running <;> cases hqueue : s.queue <;>
    simp [step, hrunning, hqueue, @eq_comm _ _ s']

/-- The callback of the running handler returns. -/
theorem return_eq_ok : step .return_ s = .ok s' ↔ ∃ h, s.running = some h ∧
    h.stage = .inCallback ∧ s' = s.proceed h .returned := by
  cases hrunning : s.running <;> simp [step, hrunning, @eq_comm _ _ s']

/-- The running handler goes on. -/
theorem run_eq_ok : step .run s = .ok s' ↔
    ∃ h, s.running = some h ∧ s.goOn h = .ok s' := by
  cases hrunning : s.running <;> simp [step, hrunning]

/-- The steps of `handleTimer`. -/
theorem goOn_cases {h : Handler} (hstep : s.goOn h = .ok s') :
    (h.stage = .locked ∧ h.timer ∈ s.timers ∧ s' = s.proceed h .found) ∨
    (h.stage = .found ∧ h.error = none ∧ h.timer ∈ s.timers ∧
      s' = { s.proceed h .inCallback with log := s.log ++ [.started h.timer] }) ∨
    (h.stage = .found ∧ h.error ≠ none ∧ s' = (s.abort h.timer).proceed h .returned) ∨
    (h.stage = .returned ∧ h.error = none ∧ h.interval ≠ 0 ∧
      s' = (s.waitAgain ⟨h.timer, h.interval⟩).proceed h .leaving) ∨
    (h.stage = .returned ∧ (h.error = none → h.interval = 0) ∧ h.timer ∈ s.timers ∧
      s' = (s.erase h.timer).proceed h .leaving) ∨
    (h.stage = .leaving ∧ h.timer ∈ s.timers ∧ s' = { s with running := none }) ∨
    (h.stage = .leaving ∧ h.timer ∉ s.timers ∧
      s' = ({ s with running := none } : TimerLoop).abort h.timer) := by
  unfold goOn at hstep
  cases hstage : h.stage <;> simp only [hstage] at hstep
  case locked =>
    obtain ⟨_, hcheck, rfl⟩ := Halt.ofCall_eq_ok.1 hstep
    unfold check at hcheck
    split_ifs at hcheck with hmem
    exact Or.inl ⟨rfl, hmem, rfl⟩
  case found =>
    cases herror : h.error <;> simp only [herror] at hstep
    · split_ifs at hstep with hmem
      obtain rfl := Except.ok.inj hstep
      exact Or.inr (Or.inl ⟨rfl, rfl, hmem, rfl⟩)
    · obtain rfl := Except.ok.inj hstep
      exact Or.inr (Or.inr (Or.inl ⟨rfl, nofun, rfl⟩))
  case inCallback => cases hstep
  case returned =>
    right; right; right
    split_ifs at hstep with hperiodic
    · obtain rfl := Except.ok.inj hstep
      exact Or.inl ⟨rfl, hperiodic.1, hperiodic.2, rfl⟩
    · obtain ⟨q, herase, rfl⟩ := Halt.ofCall_eq_ok.1 hstep
      unfold eraseIterator at herase
      split_ifs at herase with hmem
      obtain rfl := pure_eq_ok.1 herase
      refine Or.inr (Or.inl ⟨rfl, ?_, hmem, rfl⟩)
      intro herror
      by_contra hne
      exact hperiodic ⟨herror, hne⟩
  case leaving =>
    right; right; right; right; right
    split_ifs at hstep with hmem
    · obtain rfl := Except.ok.inj hstep
      exact Or.inl ⟨rfl, hmem, rfl⟩
    · obtain rfl := Except.ok.inj hstep
      exact Or.inr ⟨rfl, hmem, rfl⟩

end TimerLoop

end LibNetToy
