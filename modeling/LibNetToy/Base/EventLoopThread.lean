import LibNetToy.Foundations.Machine

/-!
# `EventLoopThread`

The inline functions of `base/EventLoop.h` and the member functions of
`base/EventLoopThread.cpp`.  `startLoop` makes a thread and waits on a condition variable until
that thread has made its loop; the destructor stops the loop and joins the thread.  The two
threads take their steps in any order, `cv_.wait` may wake up by itself, and any thread that
was given the loop may hand functors to it and stop it.

An `io_service` that was stopped stays stopped: `run` returns at once, and what is left in its
queue is never called.
-/

namespace LibNetToy

/-- The thread that uses an `EventLoopThread`, and the thread that it starts. -/
inductive Party
  | owner
  | thread
  deriving DecidableEq, Repr

/-- The name of a functor that is handed to a loop. -/
abbrev Posted := Nat

/-- The fields of class `EventLoop` and of the `io_service` it is. -/
structure EventLoop where
  threadId_ : Party
  work_ : Bool
  stopped : Bool
  queue : List Posted
  deriving DecidableEq, Repr

namespace EventLoop

/-- The constructor, called on the thread `here`. -/
def make (here : Party) : EventLoop :=
  ⟨here, false, false, []⟩

/-- What `loop` does before it calls `run`. -/
def loop (e : EventLoop) : EventLoop :=
  { e with work_ := true }

def quit (e : EventLoop) : EventLoop :=
  { e with stopped := true }

def queueInLoop (e : EventLoop) (cb : Posted) : EventLoop :=
  { e with queue := e.queue ++ [cb] }

end EventLoop

/-- How far the user of an `EventLoopThread` has come. -/
inductive OwnerStage
  | constructed
  /-- The thread was made; the mutex is taken next. -/
  | locking
  /-- `while(!loop_)`. -/
  | testing
  /-- In `cv_.wait(lock)`, which has released the mutex. -/
  | waiting
  /-- `cv_.wait(lock)` takes the mutex back. -/
  | woken
  /-- `startLoop` has returned. -/
  | started
  /-- `if(loop_)` in the destructor. -/
  | destructing
  /-- `thread_->join()`. -/
  | joining
  | destroyed
  deriving DecidableEq, Repr

/-- `cv_.notify_one()`. -/
def OwnerStage.notified : OwnerStage → OwnerStage
  | .waiting => .woken
  | o => o

/-- After a notification the user does not wait. -/
theorem OwnerStage.notified_ne_waiting (o : OwnerStage) : o.notified ≠ .waiting := by
  cases o <;> nofun

/-- How far `threadFunc` has come. -/
inductive ThreadStage
  | absent
  /-- The mutex is taken next. -/
  | locking
  /-- `loop_.reset(new EventLoop)`. -/
  | making
  /-- `if(!loop_)`. -/
  | testing
  /-- The mutex is released next. -/
  | unlocking
  /-- `if(callback_)`. -/
  | callingBack
  | inCallback
  /-- `loop_->loop()`. -/
  | looping
  /-- In `run`, between two functors. -/
  | running
  | handling (cb : Posted)
  | exited
  deriving DecidableEq, Repr

/-- `threadFunc` has not made the loop yet. -/
def ThreadStage.early : ThreadStage → Bool
  | .absent | .locking | .making => true
  | _ => false

/-- `threadFunc` holds the mutex. -/
def ThreadStage.locked : ThreadStage → Bool
  | .making | .testing | .unlocking => true
  | _ => false

/-- `callback_` was called, when there is one. -/
def ThreadStage.calledBack : ThreadStage → Bool
  | .inCallback | .looping | .running | .handling _ | .exited => true
  | _ => false

/-- `run` was called. -/
def ThreadStage.serving : ThreadStage → Bool
  | .running | .handling _ | .exited => true
  | _ => false

/-- The turns that the thread takes before it ends, once its loop is stopped. -/
def ThreadStage.left : ThreadStage → Nat
  | .testing => 6
  | .unlocking => 5
  | .callingBack => 4
  | .inCallback => 3
  | .looping | .handling _ => 2
  | .running => 1
  | _ => 0

/-- The ways `threadFunc` may fail. -/
inductive ThreadFault
  /-- `assert(false)`. -/
  | newEventLoop
  /-- `loop_` is empty when it is used. -/
  | emptyLoop
  deriving DecidableEq, Repr

/-- An `EventLoopThread`, the two threads, and all loops that were made.  `loop_` is a position
in `loops`. -/
structure EventLoopThread where
  loop_ : Option Nat
  mutex_ : Option Party
  callback_ : Bool
  loops : List EventLoop
  owner : OwnerStage
  thread : ThreadStage
  /-- What `startLoop` returned. -/
  returned : Option (Option Nat)
  /-- The number of calls of `callback_`. -/
  callbacks : Nat
  /-- The functors handed to the loop, and the ones it called. -/
  posted : List Posted
  ran : List Posted
  /-- The steps of `startLoop` and of the locked part of `threadFunc`. -/
  handshakes : Nat
  /-- The times `cv_.wait` woke up by itself. -/
  wakeups : Nat
  /-- The steps of `threadFunc`, its callback and its functors. -/
  turns : Nat
  deriving DecidableEq, Repr

/-- What happens next. -/
inductive LoopThreadEvent
  | startLoop
  /-- The user goes on in `startLoop` or in the destructor. -/
  | owner
  /-- The thread goes on. -/
  | thread
  /-- The callback or the functor that the thread is running returns. -/
  | return_
  /-- `cv_.wait` wakes up by itself. -/
  | wakeup
  /-- Some thread calls `queueInLoop`. -/
  | queueInLoop (cb : Posted)
  /-- Some thread calls `quit`. -/
  | quit
  | destroy
  deriving DecidableEq, Repr

namespace EventLoopThread

/-- The constructor. -/
def make (callback : Bool) : EventLoopThread where
  loop_ := none
  mutex_ := none
  callback_ := callback
  loops := []
  owner := .constructed
  thread := .absent
  returned := none
  callbacks := 0
  posted := []
  ran := []
  handshakes := 0
  wakeups := 0
  turns := 0

/-- The loop that `loop_` points to. -/
def loop? (s : EventLoopThread) : Option EventLoop :=
  s.loop_.bind fun i => s.loops[i]?

/-- A member function is called on `*loop_`. -/
def onLoop (s : EventLoopThread) (f : EventLoop → EventLoop) : EventLoopThread :=
  { s with loops := s.loop_.elim s.loops fun i => s.loops.modify i f }

/-- The next step of the user's thread. -/
def ownerStep (s : EventLoopThread) : Except (Halt ThreadFault) EventLoopThread :=
  match s.owner with
  | .locking | .woken =>
    Halt.guard (s.mutex_ = none) (.ok { s with
      mutex_ := some .owner
      owner := .testing
      handshakes := s.handshakes + 1 })
  | .testing =>
    if s.loop_ = none then
      .ok { s with mutex_ := none, owner := .waiting, handshakes := s.handshakes + 1 }
    else
      .ok { s with
        mutex_ := none
        owner := .started
        returned := some s.loop_
        handshakes := s.handshakes + 1 }
  | .destructing =>
    if s.loop_ = none then .ok { s with owner := .destroyed }
    else .ok { s.onLoop EventLoop.quit with owner := .joining }
  | .joining => Halt.guard (s.thread = .exited) (.ok { s with owner := .destroyed })
  | .constructed | .waiting | .started | .destroyed => .error .disabled

/-- `run`: the thread waits when the queue is empty and there is work left. -/
def runStep (s : EventLoopThread) (e : EventLoop) : Except (Halt ThreadFault) EventLoopThread :=
  if e.stopped then .ok { s with thread := .exited }
  else match e.queue with
    | [] => Halt.guard (e.work_ = false) (.ok { s with thread := .exited })
    | cb :: rest =>
      .ok { s.onLoop (fun e => { e with queue := rest }) with
        thread := .handling cb
        ran := s.ran ++ [cb] }

/-- The next step of `threadFunc`. -/
def threadStep (s : EventLoopThread) : Except (Halt ThreadFault) EventLoopThread :=
  match s.thread with
  | .locking =>
    Halt.guard (s.mutex_ = none) (.ok { s with
      mutex_ := some .thread
      thread := .making
      handshakes := s.handshakes + 1 })
  | .making =>
    .ok { s with
      loop_ := some s.loops.length
      loops := s.loops ++ [EventLoop.make .thread]
      thread := .testing
      handshakes := s.handshakes + 1 }
  | .testing =>
    if s.loop_ = none then .error (.fault .newEventLoop)
    else .ok { s with
      owner := s.owner.notified
      thread := .unlocking
      handshakes := s.handshakes + 1 }
  | .unlocking =>
    .ok { s with mutex_ := none, thread := .callingBack, handshakes := s.handshakes + 1 }
  | .callingBack =>
    if s.callback_ then .ok { s with thread := .inCallback, callbacks := s.callbacks + 1 }
    else .ok { s with thread := .looping }
  | .looping =>
    if s.loop_ = none then .error (.fault .emptyLoop)
    else .ok { s.onLoop EventLoop.loop with thread := .running }
  | .running =>
    match s.loop? with
    | none => .error (.fault .emptyLoop)
    | some e => s.runStep e
  | .absent | .inCallback | .handling _ | .exited => .error .disabled

/-- A callback or a functor returns. -/
def returnStep (s : EventLoopThread) : Except (Halt ThreadFault) EventLoopThread :=
  match s.thread with
  | .inCallback => .ok { s with thread := .looping }
  | .handling _ => .ok { s with thread := .running }
  | _ => .error .disabled

/-- One step. -/
def step : LoopThreadEvent → EventLoopThread → Except (Halt ThreadFault) EventLoopThread
  | .startLoop, s =>
    Halt.guard (s.owner = .constructed) (.ok { s with owner := .locking, thread := .locking })
  | .owner, s => s.ownerStep
  | .thread, s => Halt.within s.threadStep fun q => { q with turns := s.turns + 1 }
  | .return_, s => Halt.within s.returnStep fun q => { q with turns := s.turns + 1 }
  | .wakeup, s =>
    Halt.guard (s.owner = .waiting)
      (.ok { s with owner := .woken, wakeups := s.wakeups + 1 })
  | .queueInLoop cb, s =>
    Halt.guard (s.loop_ ≠ none)
      (.ok { s.onLoop (fun e => e.queueInLoop cb) with posted := s.posted ++ [cb] })
  | .quit, s => Halt.guard (s.loop_ ≠ none) (.ok (s.onLoop EventLoop.quit))
  | .destroy, s =>
    Halt.guard (s.owner = .constructed ∨ s.owner = .started)
      (.ok { s with owner := .destructing })

end EventLoopThread

/-- All runs of an `EventLoopThread` on which `startLoop` is called at most once. -/
def loopThreadMachine : Machine EventLoopThread LoopThreadEvent ThreadFault where
  init s := ∃ callback, s = EventLoopThread.make callback
  step := EventLoopThread.step

namespace EventLoopThread

variable {s s' : EventLoopThread} {l : LoopThreadEvent}

/-! ## What the steps do -/

/-- `startLoop` was called and has not returned. -/
def inStartLoop (s : EventLoopThread) : Prop :=
  s.owner = .locking ∨ s.owner = .testing ∨ s.owner = .waiting ∨ s.owner = .woken

/-- The steps, with what they find and what they change. -/
inductive Moves (s : EventLoopThread) : LoopThreadEvent → EventLoopThread → Prop
  | startLoop (howner : s.owner = .constructed) :
      Moves s .startLoop { s with owner := .locking, thread := .locking }
  | ownerLocks (howner : s.owner = .locking ∨ s.owner = .woken) (hmutex : s.mutex_ = none) :
      Moves s .owner { s with
        mutex_ := some .owner
        owner := .testing
        handshakes := s.handshakes + 1 }
  | waits (howner : s.owner = .testing) (hloop : s.loop_ = none) :
      Moves s .owner { s with
        mutex_ := none
        owner := .waiting
        handshakes := s.handshakes + 1 }
  | returns (howner : s.owner = .testing) (hloop : s.loop_ ≠ none) :
      Moves s .owner { s with
        mutex_ := none
        owner := .started
        returned := some s.loop_
        handshakes := s.handshakes + 1 }
  | nothingToStop (howner : s.owner = .destructing) (hloop : s.loop_ = none) :
      Moves s .owner { s with owner := .destroyed }
  | stops (howner : s.owner = .destructing) (hloop : s.loop_ ≠ none) :
      Moves s .owner { s.onLoop EventLoop.quit with owner := .joining }
  | joins (howner : s.owner = .joining) (hthread : s.thread = .exited) :
      Moves s .owner { s with owner := .destroyed }
  | threadLocks (hthread : s.thread = .locking) (hmutex : s.mutex_ = none) :
      Moves s .thread { s with
        mutex_ := some .thread
        thread := .making
        handshakes := s.handshakes + 1
        turns := s.turns + 1 }
  | makes (hthread : s.thread = .making) :
      Moves s .thread { s with
        loop_ := some s.loops.length
        loops := s.loops ++ [EventLoop.make .thread]
        thread := .testing
        handshakes := s.handshakes + 1
        turns := s.turns + 1 }
  | notifies (hthread : s.thread = .testing) (hloop : s.loop_ ≠ none) :
      Moves s .thread { s with
        owner := s.owner.notified
        thread := .unlocking
        handshakes := s.handshakes + 1
        turns := s.turns + 1 }
  | unlocks (hthread : s.thread = .unlocking) :
      Moves s .thread { s with
        mutex_ := none
        thread := .callingBack
        handshakes := s.handshakes + 1
        turns := s.turns + 1 }
  | callsBack (hthread : s.thread = .callingBack) (hcallback : s.callback_ = true) :
      Moves s .thread { s with
        thread := .inCallback
        callbacks := s.callbacks + 1
        turns := s.turns + 1 }
  | noCallback (hthread : s.thread = .callingBack) (hcallback : s.callback_ = false) :
      Moves s .thread { s with thread := .looping, turns := s.turns + 1 }
  | loops (hthread : s.thread = .looping) (hloop : s.loop_ ≠ none) :
      Moves s .thread { s.onLoop EventLoop.loop with
        thread := .running
        turns := s.turns + 1 }
  | exits {e : EventLoop} (hthread : s.thread = .running) (hloop : s.loop? = some e)
      (hexit : e.stopped = true ∨ (e.queue = [] ∧ e.work_ = false)) :
      Moves s .thread { s with thread := .exited, turns := s.turns + 1 }
  | calls {e : EventLoop} {cb : Posted} {rest : List Posted} (hthread : s.thread = .running)
      (hloop : s.loop? = some e) (hstopped : e.stopped = false) (hqueue : e.queue = cb :: rest) :
      Moves s .thread { s.onLoop (fun e => { e with queue := rest }) with
        thread := .handling cb
        ran := s.ran ++ [cb]
        turns := s.turns + 1 }
  | callbackReturns (hthread : s.thread = .inCallback) :
      Moves s .return_ { s with thread := .looping, turns := s.turns + 1 }
  | functorReturns {cb : Posted} (hthread : s.thread = .handling cb) :
      Moves s .return_ { s with thread := .running, turns := s.turns + 1 }
  | wakesUp (howner : s.owner = .waiting) :
      Moves s .wakeup { s with owner := .woken, wakeups := s.wakeups + 1 }
  | posts {cb : Posted} (hloop : s.loop_ ≠ none) :
      Moves s (.queueInLoop cb)
        { s.onLoop (fun e => e.queueInLoop cb) with posted := s.posted ++ [cb] }
  | quits (hloop : s.loop_ ≠ none) : Moves s .quit (s.onLoop EventLoop.quit)
  | destroys (howner : s.owner = .constructed ∨ s.owner = .started) :
      Moves s .destroy { s with owner := .destructing }

/-- Every step of the user's thread is one of the list. -/
theorem moves_of_ownerStep (h : s.ownerStep = .ok s') : Moves s .owner s' := by
  unfold ownerStep at h
  cases howner : s.owner <;> simp only [howner] at h
  case locking =>
    obtain ⟨hmutex, h⟩ := Halt.guard_eq_ok.1 h
    obtain rfl := Except.ok.inj h
    exact .ownerLocks (.inl howner) hmutex
  case woken =>
    obtain ⟨hmutex, h⟩ := Halt.guard_eq_ok.1 h
    obtain rfl := Except.ok.inj h
    exact .ownerLocks (.inr howner) hmutex
  case testing =>
    split_ifs at h with hloop
    · obtain rfl := Except.ok.inj h
      exact .waits howner hloop
    · obtain rfl := Except.ok.inj h
      exact .returns howner hloop
  case destructing =>
    split_ifs at h with hloop
    · obtain rfl := Except.ok.inj h
      exact .nothingToStop howner hloop
    · obtain rfl := Except.ok.inj h
      exact .stops howner hloop
  case joining =>
    obtain ⟨hthread, h⟩ := Halt.guard_eq_ok.1 h
    obtain rfl := Except.ok.inj h
    exact .joins howner hthread
  case constructed | waiting | started | destroyed => cases h

/-- Every step of the new thread is one of the list. -/
theorem moves_of_threadStep (h : s.threadStep = .ok s') :
    Moves s .thread { s' with turns := s.turns + 1 } := by
  unfold threadStep at h
  cases hthread : s.thread <;> simp only [hthread] at h
  case locking =>
    obtain ⟨hmutex, h⟩ := Halt.guard_eq_ok.1 h
    obtain rfl := Except.ok.inj h
    exact .threadLocks hthread hmutex
  case making =>
    obtain rfl := Except.ok.inj h
    exact .makes hthread
  case testing =>
    split_ifs at h with hloop
    obtain rfl := Except.ok.inj h
    exact .notifies hthread hloop
  case unlocking =>
    obtain rfl := Except.ok.inj h
    exact .unlocks hthread
  case callingBack =>
    split_ifs at h with hcallback
    · obtain rfl := Except.ok.inj h
      exact .callsBack hthread hcallback
    · obtain rfl := Except.ok.inj h
      exact .noCallback hthread (Bool.eq_false_iff.2 hcallback)
  case looping =>
    split_ifs at h with hloop
    obtain rfl := Except.ok.inj h
    exact .loops hthread hloop
  case running =>
    cases hloop : s.loop? with
    | none =>
      rw [hloop] at h
      cases h
    | some e =>
      simp only [hloop, runStep] at h
      split_ifs at h with hstopped
      · obtain rfl := Except.ok.inj h
        exact .exits hthread hloop (.inl hstopped)
      · cases hqueue : e.queue with
        | nil =>
          rw [hqueue] at h
          obtain ⟨hwork, h⟩ := Halt.guard_eq_ok.1 h
          obtain rfl := Except.ok.inj h
          exact .exits hthread hloop (.inr ⟨hqueue, hwork⟩)
        | cons cb rest =>
          rw [hqueue] at h
          obtain rfl := Except.ok.inj h
          exact .calls hthread hloop (Bool.eq_false_iff.2 hstopped) hqueue
  case absent | inCallback | handling | exited => cases h

/-- Every step is one of the list. -/
theorem moves_of_step (h : step l s = .ok s') : Moves s l s' := by
  cases l with
  | startLoop =>
    obtain ⟨howner, h⟩ := Halt.guard_eq_ok.1 h
    obtain rfl := Except.ok.inj h
    exact .startLoop howner
  | owner => exact moves_of_ownerStep h
  | thread =>
    obtain ⟨q, hstep, rfl⟩ := Halt.within_eq_ok.1 h
    exact moves_of_threadStep hstep
  | return_ =>
    obtain ⟨q, hstep, rfl⟩ := Halt.within_eq_ok.1 h
    unfold returnStep at hstep
    cases hthread : s.thread <;> simp only [hthread] at hstep
    case inCallback =>
      obtain rfl := Except.ok.inj hstep
      exact .callbackReturns hthread
    case handling =>
      obtain rfl := Except.ok.inj hstep
      exact .functorReturns hthread
    all_goals cases hstep
  | wakeup =>
    obtain ⟨howner, h⟩ := Halt.guard_eq_ok.1 h
    obtain rfl := Except.ok.inj h
    exact .wakesUp howner
  | queueInLoop cb =>
    obtain ⟨hloop, h⟩ := Halt.guard_eq_ok.1 h
    obtain rfl := Except.ok.inj h
    exact .posts hloop
  | quit =>
    obtain ⟨hloop, h⟩ := Halt.guard_eq_ok.1 h
    obtain rfl := Except.ok.inj h
    exact .quits hloop
  | destroy =>
    obtain ⟨howner, h⟩ := Halt.guard_eq_ok.1 h
    obtain rfl := Except.ok.inj h
    exact .destroys howner

/-- Every step of the list can be taken. -/
theorem step_of_moves (hm : Moves s l s') : step l s = .ok s' := by
  cases hm with
  | startLoop howner | wakesUp howner => simp [step, howner]
  | ownerLocks howner hmutex =>
    rcases howner with howner | howner <;> simp [step, ownerStep, howner, hmutex]
  | waits howner hloop | nothingToStop howner hloop => simp [step, ownerStep, howner, hloop]
  | returns howner hloop | stops howner hloop => simp [step, ownerStep, howner, hloop]
  | joins howner hthread => simp [step, ownerStep, howner, hthread]
  | threadLocks hthread hmutex => simp [step, threadStep, hthread, hmutex, Halt.guard, Halt.within]
  | makes hthread | unlocks hthread => simp [step, threadStep, hthread, Halt.within]
  | notifies hthread hloop => simp [step, threadStep, hthread, hloop, Halt.within]
  | callsBack hthread hcallback | noCallback hthread hcallback =>
    simp [step, threadStep, hthread, hcallback, Halt.within]
  | loops hthread hloop => simp [step, threadStep, hthread, hloop, Halt.within]
  | @exits e hthread hloop hexit =>
    rcases hexit with hstopped | ⟨hqueue, hwork⟩
    · simp [step, threadStep, runStep, hthread, hloop, hstopped, Halt.within]
    · cases hstopped : e.stopped <;>
        simp [step, threadStep, runStep, hthread, hloop, hstopped, hqueue, hwork, Halt.within,
          Halt.guard]
  | calls hthread hloop hstopped hqueue =>
    simp [step, threadStep, runStep, hthread, hloop, hstopped, hqueue, Halt.within]
  | callbackReturns hthread | functorReturns hthread =>
    simp [step, returnStep, hthread, Halt.within]
  | posts hloop | quits hloop => simp [step, hloop]
  | destroys howner => simp [step, howner]

/-- The callback is never replaced. -/
theorem callback_of_moves (hm : Moves s l s') : s'.callback_ = s.callback_ := by
  cases hm <;> rfl

/-- Once `startLoop` has returned, the user does nothing until the destructor. -/
theorem owner_of_moves (hm : Moves s l s') (howner : s.owner = .started) (hl : l ≠ .destroy) :
    s'.owner = .started := by
  cases hm <;> grind [onLoop, OwnerStage.notified]

/-- `startLoop` goes on until it has returned. -/
theorem inStartLoop_of_moves (hm : Moves s l s') (h : s.inStartLoop ∨ s.owner = .started)
    (hl : l ≠ .destroy) : s'.inStartLoop ∨ s'.owner = .started := by
  cases hm <;> grind [onLoop, inStartLoop, OwnerStage.notified]

/-! ## The hand-over of the loop -/

/-- There is a loop exactly when the thread has made it, and never a second one. -/
def Made (s : EventLoopThread) : Prop :=
  (s.loop_ = none ∧ s.loops = [] ∧ s.thread.early = true) ∨
    ∃ e, s.loop_ = some 0 ∧ s.loops = [e] ∧ e.threadId_ = .thread ∧ s.thread.early = false

/-- What does not touch the loops makes none. -/
theorem Made.congr (h : s.Made) (hloop : s'.loop_ = s.loop_) (hloops : s'.loops = s.loops)
    (hearly : s'.thread.early = s.thread.early) : s'.Made := by
  unfold Made at h ⊢
  rwa [hloop, hloops, hearly]

/-- A call on the loop does not change which thread runs it. -/
theorem Made.onLoop {f : EventLoop → EventLoop} (h : s.Made)
    (hf : ∀ e, (f e).threadId_ = e.threadId_) : (s.onLoop f).Made := by
  obtain ⟨hloop, hloops, hearly⟩ | ⟨e, hloop, hloops, hthread, hearly⟩ := h
  · exact .inl ⟨hloop, by simp [EventLoopThread.onLoop, hloop, hloops], hearly⟩
  · exact .inr ⟨f e, hloop, by simp [EventLoopThread.onLoop, hloop, hloops],
      (hf e).trans hthread, hearly⟩

/-- What holds while the two threads take their steps. -/
structure Handshake (s : EventLoopThread) : Prop where
  made : s.Made
  constructed : s.owner = .constructed → s.thread = .absent
  called : s.inStartLoop → s.thread ≠ .absent
  ownerHolds : s.mutex_ = some .owner ↔ s.owner = .testing
  threadHolds : s.mutex_ = some .thread ↔ s.thread.locked = true
  /-- The notification is still to come. -/
  waiting : s.owner = .waiting → s.thread = .locking ∨ s.thread = .making ∨ s.thread = .testing
  returned : ∀ p, s.returned = some p → p ≠ none ∧ p = s.loop_
  started : s.owner = .started → s.returned ≠ none

/-- Every step makes one loop at most, and only the new thread makes it. -/
theorem Handshake.made_step (h : s.Handshake) (hm : Moves s l s') : s'.Made := by
  have hmade := h.made
  cases hm with
  | startLoop howner =>
    refine hmade.congr rfl rfl ?_
    rw [h.constructed howner]
    rfl
  | ownerLocks | waits | returns | nothingToStop | joins | wakesUp | destroys =>
    exact hmade.congr rfl rfl rfl
  | makes hthread =>
    obtain ⟨-, hloops, -⟩ | ⟨e, -, -, -, hearly⟩ := hmade
    · exact .inr ⟨EventLoop.make .thread, by simp [hloops], by simp [hloops], rfl, rfl⟩
    · rw [hthread] at hearly
      cases hearly
  | threadLocks hthread | notifies hthread | unlocks hthread | callsBack hthread
  | noCallback hthread | exits hthread | callbackReturns hthread | functorReturns hthread =>
    refine hmade.congr rfl rfl ?_
    rw [hthread]
    rfl
  | stops | quits => exact (hmade.onLoop (f := EventLoop.quit) fun _ => rfl).congr rfl rfl rfl
  | @posts cb =>
    exact (hmade.onLoop (f := fun e => e.queueInLoop cb) fun _ => rfl).congr rfl rfl rfl
  | loops hthread =>
    refine (hmade.onLoop (f := EventLoop.loop) fun _ => rfl).congr rfl rfl ?_
    change _ = s.thread.early
    rw [hthread]
    rfl
  | @calls _ _ rest hthread =>
    refine (hmade.onLoop (f := fun e => { e with queue := rest }) fun _ => rfl).congr rfl rfl ?_
    change _ = s.thread.early
    rw [hthread]
    rfl

/-- Every step keeps to the hand-over. -/
theorem Handshake.step (h : s.Handshake) (hm : Moves s l s') : s'.Handshake where
  made := h.made_step hm
  constructed := by
    have hconstructed := h.constructed
    cases hm <;> grind [onLoop, OwnerStage.notified]
  called := by
    have hcalled := h.called
    cases hm <;> grind [onLoop, inStartLoop, OwnerStage.notified]
  ownerHolds := by
    have hownerHolds := h.ownerHolds
    have hthreadHolds := h.threadHolds
    cases hm <;> grind [onLoop, ThreadStage.locked, OwnerStage.notified]
  threadHolds := by
    have hownerHolds := h.ownerHolds
    have hthreadHolds := h.threadHolds
    have hconstructed := h.constructed
    cases hm <;> grind [onLoop, ThreadStage.locked]
  waiting := by
    have hwaiting := h.waiting
    cases hm with
    | waits howner hloop =>
      -- the thread is before its critical section, and was started
      have hthread := h.called (.inr (.inl howner))
      have hheld := h.ownerHolds.2 howner
      have hfree := h.threadHolds
      have hmade := h.made
      grind [Made, ThreadStage.early, ThreadStage.locked]
    | _ => grind [onLoop, OwnerStage.notified_ne_waiting]
  returned := by
    have hreturned := h.returned
    have hmade := h.made
    cases hm <;> grind [onLoop, Made, ThreadStage.early]
  started := by
    have hstarted := h.started
    cases hm <;> grind [onLoop, OwnerStage.notified]

/-- The two threads keep to the hand-over in every run. -/
theorem handshake_of_reachable (h : loopThreadMachine.Reachable s) : s.Handshake := by
  refine h.invariant ?_ fun _ _ _ h _ hstep => h.step (moves_of_step hstep)
  rintro _ ⟨callback, rfl⟩
  constructor <;> simp [make, Made, inStartLoop, ThreadStage.early, ThreadStage.locked]

/-- A step fails only where `threadFunc` uses `loop_`. -/
theorem thread_of_fault {f : ThreadFault} (h : step l s = .error (.fault f)) :
    (s.thread = .testing ∧ s.loop_ = none) ∨ (s.thread = .looping ∧ s.loop_ = none) ∨
      (s.thread = .running ∧ s.loop? = none) := by
  cases l with
  | startLoop | wakeup | queueInLoop | quit | destroy => simp [step] at h
  | owner =>
    simp only [step, ownerStep] at h
    cases howner : s.owner <;> simp only [howner] at h
    case testing | destructing => split_ifs at h
    all_goals simp at h
  | return_ =>
    rw [step, Halt.within_eq_fault] at h
    unfold returnStep at h
    cases hthread : s.thread <;> simp [hthread] at h
  | thread =>
    rw [step, Halt.within_eq_fault] at h
    unfold threadStep at h
    cases hthread : s.thread <;> simp only [hthread] at h
    case testing =>
      split_ifs at h with hloop
      exact .inl ⟨rfl, hloop⟩
    case looping =>
      split_ifs at h with hloop
      exact .inr (.inl ⟨rfl, hloop⟩)
    case running =>
      cases hloop : s.loop? with
      | none => exact .inr (.inr ⟨rfl, rfl⟩)
      | some e =>
        simp only [hloop, runStep] at h
        cases hqueue : e.queue <;> split_ifs at h <;> simp [hqueue] at h
    case callingBack => split_ifs at h
    all_goals simp at h

/-- The loop is there when `threadFunc` uses it. -/
theorem Handshake.neverFaults (h : s.Handshake) (l : LoopThreadEvent) (f : ThreadFault) :
    EventLoopThread.step l s ≠ .error (.fault f) := by
  intro hfault
  have hearly : s.thread.early = false ∧ (s.loop_ = none ∨ s.loop? = none) := by
    obtain ⟨hthread, hloop⟩ | ⟨hthread, hloop⟩ | ⟨hthread, hloop⟩ := thread_of_fault hfault
    · exact ⟨by rw [hthread]; rfl, .inl hloop⟩
    · exact ⟨by rw [hthread]; rfl, .inl hloop⟩
    · exact ⟨by rw [hthread]; rfl, .inr hloop⟩
  obtain ⟨-, -, hmade⟩ | ⟨e, hloop, hloops, -⟩ := h.made
  · rw [hearly.1] at hmade
    cases hmade
  · simp [loop?, hloop, hloops] at hearly

/-- The steps that are left until `startLoop` returns, when `cv_.wait` does not wake up by
itself. -/
def remaining (s : EventLoopThread) : Nat :=
  let early := if s.loop_ = none then 2 else 0
  let owner := match s.owner with
    | .constructed => 4
    | .locking | .woken => 2 + early
    | .testing => 1 + early
    | .waiting => 2
    | _ => 0
  let thread := match s.thread with
    | .absent | .locking => 4
    | .making => 3
    | .testing => 2
    | .unlocking => 1
    | _ => 0
  owner + thread

/-- A step of the hand-over brings its end closer. -/
theorem Handshake.remaining_step (h : s.Handshake) (hm : Moves s l s') :
    s'.handshakes + s'.remaining + 2 * s.wakeups ≤
      s.handshakes + s.remaining + 2 * s'.wakeups := by
  have hconstructed := h.constructed
  cases hm <;> grind [onLoop, remaining, OwnerStage.notified]

/-- The steps of the hand-over are bounded, but for those that wake up by themselves. -/
theorem handshakes_of_reachable (h : loopThreadMachine.Reachable s) :
    s.handshakes + s.remaining ≤ 8 + 2 * s.wakeups := by
  suffices hboth : s.Handshake ∧ s.handshakes + s.remaining ≤ 8 + 2 * s.wakeups from hboth.2
  refine h.invariant (I := fun s => s.Handshake ∧ s.handshakes + s.remaining ≤ 8 + 2 * s.wakeups)
    ?_ ?_
  · rintro _ ⟨callback, rfl⟩
    exact ⟨handshake_of_reachable (.init ⟨callback, rfl⟩), by simp [make, remaining]⟩
  · rintro s l s' ⟨hhand, hle⟩ - hstep
    have hmoves := moves_of_step hstep
    have hremaining := hhand.remaining_step hmoves
    exact ⟨hhand.step hmoves, by omega⟩

/-- The thread does not wait inside its critical section. -/
theorem Handshake.threadStep_of_locked (h : s.Handshake) (hlocked : s.thread.locked = true) :
    ∃ s', Moves s .thread s' ∧ s'.handshakes = s.handshakes + 1 := by
  cases hthread : s.thread <;> rw [hthread] at hlocked
  case making => exact ⟨_, .makes hthread, rfl⟩
  case testing =>
    refine ⟨_, .notifies hthread ?_, rfl⟩
    obtain ⟨-, -, hearly⟩ | ⟨e, hloop, -⟩ := h.made
    · rw [hthread] at hearly
      cases hearly
    · rw [hloop]
      nofun
  case unlocking => exact ⟨_, .unlocks hthread, rfl⟩
  all_goals cases hlocked

/-- One of the two threads can take a step of the hand-over. -/
theorem Handshake.exists_step (h : s.Handshake) (hcalled : s.inStartLoop) :
    ∃ l s', (l = .owner ∨ l = .thread) ∧ Moves s l s' ∧ s'.handshakes = s.handshakes + 1 := by
  rcases hmutex : s.mutex_ with _ | party
  · rcases hcalled with howner | howner | howner | howner
    · exact ⟨.owner, _, .inl rfl, .ownerLocks (.inl howner) hmutex, rfl⟩
    · rw [h.ownerHolds.2 howner] at hmutex
      cases hmutex
    · have hunlocked : s.thread.locked ≠ true := by
        intro hlocked
        rw [h.threadHolds.2 hlocked] at hmutex
        cases hmutex
      obtain hthread | hthread | hthread := h.waiting howner
      · exact ⟨.thread, _, .inr rfl, .threadLocks hthread hmutex, rfl⟩
      · exact absurd (by rw [hthread]; rfl) hunlocked
      · exact absurd (by rw [hthread]; rfl) hunlocked
    · exact ⟨.owner, _, .inl rfl, .ownerLocks (.inr howner) hmutex, rfl⟩
  · cases party with
    | owner =>
      have howner := h.ownerHolds.1 hmutex
      by_cases hloop : s.loop_ = none
      · exact ⟨.owner, _, .inl rfl, .waits howner hloop, rfl⟩
      · exact ⟨.owner, _, .inl rfl, .returns howner hloop, rfl⟩
    | thread =>
      obtain ⟨s', hm, hcount⟩ := h.threadStep_of_locked (h.threadHolds.1 hmutex)
      exact ⟨.thread, s', .inr rfl, hm, hcount⟩

/-- What `startLoop` returned is the loop that runs on the new thread, and there is no other. -/
structure Delivered (s : EventLoopThread) : Prop where
  returned : ∀ p, s.returned = some p → ∃ i e, p = some i ∧ s.loops[i]? = some e ∧
    e.threadId_ = .thread ∧ s.loop_ = some i
  started : s.owner = .started → s.returned ≠ none
  single : s.loops.length ≤ 1

/-- `startLoop` returns the loop that runs on the new thread, and no assertion fails. -/
theorem startLoop_delivers (h : loopThreadMachine.Reachable s) :
    s.Delivered ∧ ∀ f, loopThreadMachine.NeverFaults (fun _ _ => True) s f := by
  have hhand := handshake_of_reachable h
  refine ⟨⟨?_, hhand.started, ?_⟩, fun f l _ => hhand.neverFaults l f⟩
  · intro p hp
    obtain ⟨hsome, hloop⟩ := hhand.returned p hp
    obtain ⟨hnone, -⟩ | ⟨e, hzero, hloops, hthread, -⟩ := hhand.made
    · exact absurd (hloop.trans hnone) hsome
    · exact ⟨0, e, hloop.trans hzero, by rw [hloops]; rfl, hthread, hzero⟩
  · obtain ⟨-, hloops, -⟩ | ⟨e, -, hloops, -⟩ := hhand.made <;> simp [hloops]

/-- The user waits, wakes up by itself and waits again before the thread has made the loop. -/
theorem startLoop_delivers_wakeup : ∃ s : EventLoopThread, (s.owner = .started ∧ s.wakeups = 1) ∧
    s.Delivered ∧ ∀ f, loopThreadMachine.NeverFaults (fun _ _ => True) s f := by
  obtain ⟨s, hs, hseen⟩ := Machine.exists_of_run (M := loopThreadMachine)
    (C := fun _ _ => True) ⟨false, rfl⟩ (l := [.startLoop, .owner, .owner, .wakeup, .owner,
      .owner, .thread, .thread, .thread, .thread, .owner, .owner])
    (f := fun s => (s.owner, s.wakeups)) (a := (.started, 1)) (by decide +kernel)
  exact ⟨s, Prod.mk.inj hseen, startLoop_delivers hs⟩

/-- `startLoop` is never stuck, and returns after a bounded number of steps of the two threads
that count to the hand-over, whatever else happens meanwhile. -/
theorem startLoop_returns (h : loopThreadMachine.Reachable s) (hcalled : s.inStartLoop) :
    s.handshakes < 8 + 2 * s.wakeups ∧ ∃ l s', (l = .owner ∨ l = .thread) ∧
      loopThreadMachine.step l s = .ok s' ∧ s'.handshakes = s.handshakes + 1 := by
  have hhand := handshake_of_reachable h
  have hle := handshakes_of_reachable h
  obtain ⟨l, s', hparty, hm, hcount⟩ := hhand.exists_step hcalled
  refine ⟨?_, l, s', hparty, step_of_moves hm, hcount⟩
  have hpos : 0 < s.remaining := by
    rcases hcalled with howner | howner | howner | howner <;> simp [remaining, howner]
  omega

/-- The user waits and the thread has not made the loop. -/
theorem startLoop_returns_waiting : ∃ s : EventLoopThread, s.owner = .waiting ∧
    s.handshakes < 8 + 2 * s.wakeups ∧ ∃ l s', (l = .owner ∨ l = .thread) ∧
      loopThreadMachine.step l s = .ok s' ∧ s'.handshakes = s.handshakes + 1 := by
  obtain ⟨s, hs, howner⟩ := Machine.exists_of_run (M := loopThreadMachine)
    (C := fun _ _ => True) ⟨false, rfl⟩ (l := [.startLoop, .owner, .owner])
    (f := EventLoopThread.owner) (a := .waiting) (by decide +kernel)
  exact ⟨s, howner, startLoop_returns hs (.inr (.inr (.inl howner)))⟩

/-! ## The functors -/

/-- The functors that were handed to the loop and not called. -/
def unserved (s : EventLoopThread) : List Posted :=
  s.loop?.elim [] EventLoop.queue

/-- The loop has been stopped. -/
def isStopped (s : EventLoopThread) : Prop :=
  ∃ e, s.loop? = some e ∧ e.stopped = true

/-- A call on the loop changes the loop that `loop_` points to. -/
@[simp]
theorem loop?_onLoop (f : EventLoop → EventLoop) : (s.onLoop f).loop? = s.loop?.map f := by
  unfold loop? onLoop
  cases s.loop_ <;> simp

/-- `loop_` points to a loop once it is set. -/
theorem Handshake.exists_loop (h : s.Handshake) (hloop : s.loop_ ≠ none) :
    ∃ e, s.loop? = some e := by
  obtain ⟨hnone, -⟩ | ⟨e, hsome, hloops, -⟩ := h.made
  · exact absurd hnone hloop
  · exact ⟨e, by simp [loop?, hsome, hloops]⟩

/-- A call that leaves the queue alone. -/
theorem unserved_onLoop {f : EventLoop → EventLoop} (hf : ∀ e, (f e).queue = e.queue) :
    (s.onLoop f).unserved = s.unserved := by
  unfold unserved
  rw [loop?_onLoop]
  cases s.loop? with
  | none => rfl
  | some e => exact hf e

/-- The functors of the loop are called in turn, after the callback. -/
structure Served (s : EventLoopThread) : Prop where
  posted : s.posted = s.ran ++ s.unserved
  callbacks : s.callbacks = if s.thread.calledBack = true ∧ s.callback_ = true then 1 else 0
  ran : s.ran ≠ [] → s.thread.serving = true

/-- What touches neither the queue nor the records keeps them in order. -/
theorem Served.congr (h : s.Served) (hposted : s'.posted = s.posted) (hran : s'.ran = s.ran)
    (hunserved : s'.unserved = s.unserved) : s'.posted = s'.ran ++ s'.unserved := by
  rw [hposted, hran, hunserved]
  exact h.posted

/-- The functors that were handed over were called or are in the queue. -/
theorem Served.posted_step (h : s.Served) (hhand : s.Handshake) (hm : Moves s l s') :
    s'.posted = s'.ran ++ s'.unserved := by
  cases hm with
  | startLoop | ownerLocks | waits | returns | nothingToStop | joins | wakesUp | destroys
  | threadLocks | notifies | unlocks | callsBack | noCallback | exits | callbackReturns
  | functorReturns => exact h.congr rfl rfl rfl
  | makes hthread =>
    refine h.congr rfl rfl ?_
    obtain ⟨hloop, hloops, -⟩ | ⟨e, -, -, -, hearly⟩ := hhand.made
    · simp [unserved, loop?, hloop, hloops, EventLoop.make]
    · rw [hthread] at hearly
      cases hearly
  | stops | quits =>
    exact h.congr rfl rfl (unserved_onLoop (s := s) (f := EventLoop.quit) fun _ => rfl)
  | loops => exact h.congr rfl rfl (unserved_onLoop (s := s) (f := EventLoop.loop) fun _ => rfl)
  | @calls e cb rest hthread hloop hstopped hqueue =>
    have hbefore : s.unserved = cb :: rest := by
      simp [unserved, hloop, hqueue]
    have hafter : (s.onLoop fun e => { e with queue := rest }).unserved = rest := by
      simp [unserved, hloop]
    change s.posted = (s.ran ++ [cb]) ++ (s.onLoop fun e => { e with queue := rest }).unserved
    rw [hafter, h.posted, hbefore, List.append_assoc]
    rfl
  | @posts cb hloop =>
    obtain ⟨e, he⟩ := hhand.exists_loop hloop
    have hbefore : s.unserved = e.queue := by
      simp [unserved, he]
    have hafter : (s.onLoop fun e => e.queueInLoop cb).unserved = e.queue ++ [cb] := by
      simp [unserved, he, EventLoop.queueInLoop]
    change s.posted ++ [cb] = s.ran ++ (s.onLoop fun e => e.queueInLoop cb).unserved
    rw [hafter, h.posted, hbefore, List.append_assoc]

/-- Every step calls the functors in turn, after the callback. -/
theorem Served.step (h : s.Served) (hhand : s.Handshake) (hm : Moves s l s') : s'.Served where
  posted := h.posted_step hhand hm
  callbacks := by
    have hcallbacks := h.callbacks
    have hconstructed := hhand.constructed
    cases hm <;> grind [onLoop, ThreadStage.calledBack]
  ran := by
    have hran := h.ran
    have hconstructed := hhand.constructed
    cases hm <;> grind [onLoop, ThreadStage.serving]

/-- In every run the functors are called in turn. -/
theorem served_of_reachable (h : loopThreadMachine.Reachable s) : s.Handshake ∧ s.Served := by
  refine h.invariant (I := fun s => s.Handshake ∧ s.Served) ?_ ?_
  · rintro _ ⟨callback, rfl⟩
    refine ⟨handshake_of_reachable (.init ⟨callback, rfl⟩), rfl, ?_, ?_⟩ <;>
      simp [make, ThreadStage.calledBack]
  · rintro s l s' ⟨hhand, hserved⟩ - hstep
    have hm := moves_of_step hstep
    exact ⟨hhand.step hm, hserved.step hhand hm⟩

/-- The functors are called in the order in which they were handed to the loop, each at most
once, and the first one after the callback has returned, which is called once. -/
theorem functors_in_order (h : loopThreadMachine.Reachable s) :
    s.posted = s.ran ++ s.unserved ∧ s.callbacks ≤ 1 ∧ (s.ran ≠ [] →
      s.thread.serving = true ∧ s.callbacks = if s.callback_ = true then 1 else 0) := by
  obtain ⟨-, hserved⟩ := served_of_reachable h
  have hcallbacks := hserved.callbacks
  refine ⟨hserved.posted, ?_, fun hran => ⟨hserved.ran hran, ?_⟩⟩
  · rw [hcallbacks]
    split_ifs <;> omega
  · have hserving := hserved.ran hran
    have hcalled : s.thread.calledBack = true := by
      cases hthread : s.thread <;> rw [hthread] at hserving <;> first | rfl | cases hserving
    rw [hcallbacks]
    simp [hcalled]

/-- Two functors are handed to the loop while the callback runs, and the first is called. -/
theorem functors_in_order_two : ∃ s : EventLoopThread, (s.posted = [5, 7] ∧ s.ran = [5]) ∧
    s.posted = s.ran ++ s.unserved ∧ s.callbacks ≤ 1 ∧ (s.ran ≠ [] →
      s.thread.serving = true ∧ s.callbacks = if s.callback_ = true then 1 else 0) := by
  obtain ⟨s, hs, hseen⟩ := Machine.exists_of_run (M := loopThreadMachine)
    (C := fun _ _ => True) ⟨true, rfl⟩ (l := [.startLoop, .thread, .thread, .thread, .thread,
      .thread, .queueInLoop 5, .queueInLoop 7, .return_, .thread, .thread])
    (f := fun s => (s.posted, s.ran)) (a := ([5, 7], [5])) (by decide +kernel)
  exact ⟨s, Prod.mk.inj hseen, functors_in_order hs⟩

/-! ## Stopping the loop -/

/-- A call that does not start the loop again. -/
theorem isStopped_onLoop {f : EventLoop → EventLoop} (h : s.isStopped)
    (hf : ∀ e, e.stopped = true → (f e).stopped = true) : (s.onLoop f).isStopped := by
  obtain ⟨e, he, hstopped⟩ := h
  exact ⟨f e, by simp [he], hf e hstopped⟩

/-- A loop that was stopped calls nothing more, and its thread is about to end. -/
theorem isStopped.step (h : s.isStopped) (hhand : s.Handshake) (hm : Moves s l s') :
    s'.isStopped ∧ s'.ran = s.ran ∧
      s'.turns + s'.thread.left ≤ s.turns + s.thread.left := by
  have hmade : s.thread.early = false := by
    obtain ⟨hloop, -⟩ | ⟨_, -, -, -, hearly⟩ := hhand.made
    · obtain ⟨e, he, -⟩ := h
      simp [loop?, hloop] at he
    · exact hearly
  cases hm with
  | startLoop howner =>
    rw [hhand.constructed howner] at hmade
    cases hmade
  | ownerLocks | waits | returns | nothingToStop | joins | wakesUp | destroys =>
    exact ⟨h, rfl, Nat.le_refl _⟩
  | threadLocks hthread | makes hthread =>
    rw [hthread] at hmade
    cases hmade
  | notifies hthread | unlocks hthread | callsBack hthread | noCallback hthread | exits hthread
  | callbackReturns hthread | functorReturns hthread =>
    refine ⟨h, rfl, ?_⟩
    simp only [hthread, ThreadStage.left]
    omega
  | stops | quits =>
    exact ⟨isStopped_onLoop (f := EventLoop.quit) h fun _ _ => rfl, rfl, Nat.le_refl _⟩
  | loops hthread =>
    refine ⟨isStopped_onLoop (f := EventLoop.loop) h fun _ he => he, rfl, ?_⟩
    simp only [hthread, ThreadStage.left]
    omega
  | @posts cb =>
    exact ⟨isStopped_onLoop (f := fun e => e.queueInLoop cb) h fun _ he => he, rfl,
      Nat.le_refl _⟩
  | calls hthread hloop hstopped =>
    obtain ⟨e, he, htrue⟩ := h
    rw [hloop] at he
    obtain rfl := Option.some.inj he
    rw [hstopped] at htrue
    cases htrue

/-- A stopped loop takes six more turns at most. -/
theorem left_le (t : ThreadStage) : t.left ≤ 6 := by
  cases t <;> simp [ThreadStage.left]

/-- What a stopped loop and its thread do from now on. -/
theorem isStopped.run {t : EventLoopThread} (h : s.isStopped) (hhand : s.Handshake)
    (ht : (loopThreadMachine.startedAt s).Reachable t) :
    t.ran = s.ran ∧ t.turns ≤ s.turns + 6 := by
  have hinvariant : t.Handshake ∧ t.isStopped ∧ t.ran = s.ran ∧
      t.turns + t.thread.left ≤ s.turns + s.thread.left := by
    refine ht.invariant (I := fun t => t.Handshake ∧ t.isStopped ∧ t.ran = s.ran ∧
      t.turns + t.thread.left ≤ s.turns + s.thread.left) ?_ ?_
    · rintro _ rfl
      exact ⟨hhand, h, rfl, Nat.le_refl _⟩
    · rintro u l v ⟨hu, hstopped, hran, hturns⟩ - hstep
      have hm := moves_of_step hstep
      obtain ⟨hv, hsame, hle⟩ := hstopped.step hu hm
      exact ⟨hu.step hm, hv, hsame.trans hran, by omega⟩
  obtain ⟨-, -, hran, hturns⟩ := hinvariant
  have hleft := left_le s.thread
  exact ⟨hran, by omega⟩

/-- `quit` is final: whatever happens afterwards, no functor is called any more, and the thread
takes at most six more turns. -/
theorem quit_is_final {t : EventLoopThread} (h : loopThreadMachine.Reachable s)
    (hstopped : s.isStopped) (ht : (loopThreadMachine.startedAt s).Reachable t) :
    t.ran = s.ran ∧ t.turns ≤ s.turns + 6 :=
  hstopped.run (handshake_of_reachable h) ht

/-- The loop was stopped while the callback is running and a functor is in the queue. -/
def stoppedEarly : EventLoopThread :=
  { make true with
    loop_ := some 0
    loops := [⟨.thread, false, true, [5]⟩]
    owner := .locking
    thread := .inCallback
    callbacks := 1
    posted := [5]
    handshakes := 4
    turns := 5 }

/-- The functor is never called: the loop was stopped before the thread called `loop`. -/
theorem quit_is_final_callback : ∃ s t : EventLoopThread,
    (s.posted = [5] ∧ s.thread = .inCallback ∧ t.thread = .exited) ∧
      t.ran = s.ran ∧ t.turns ≤ s.turns + 6 := by
  obtain ⟨s, hs, hseen⟩ := Machine.exists_of_run (M := loopThreadMachine)
    (C := fun _ _ => True) ⟨true, rfl⟩ (l := [.startLoop, .thread, .thread, .thread, .thread,
      .thread, .queueInLoop 5, .quit]) (f := id) (a := stoppedEarly) (by decide +kernel)
  obtain rfl : s = stoppedEarly := hseen
  obtain ⟨t, ht, hexited⟩ := Machine.exists_of_run (M := loopThreadMachine.startedAt stoppedEarly)
    (C := fun _ _ => True) rfl (l := [.return_, .thread, .thread])
    (f := EventLoopThread.thread) (a := .exited) (by decide +kernel)
  exact ⟨stoppedEarly, t, ⟨rfl, rfl, hexited⟩, quit_is_final hs ⟨_, rfl, rfl⟩ ht⟩

/-- When `startLoop` has returned there is a loop. -/
theorem Handshake.loop_of_started (h : s.Handshake) (howner : s.owner = .started) :
    s.loop_ ≠ none := by
  obtain ⟨p, hp⟩ := Option.ne_none_iff_exists'.1 (h.started howner)
  obtain ⟨hsome, hloop⟩ := h.returned p hp
  exact hloop ▸ hsome

/-- What holds in the destructor. -/
structure Joining (s : EventLoopThread) : Prop where
  destructing : s.owner = .destructing → s.thread = .absent ∨ s.loop_ ≠ none
  joining : s.owner = .joining → s.isStopped
  destroyed : s.owner = .destroyed → s.thread = .absent ∨ s.thread = .exited

/-- Every step keeps the destructor to its order. -/
theorem Joining.step (h : s.Joining) (hhand : s.Handshake) (hm : Moves s l s') : s'.Joining where
  destructing := by
    have hdestructing := h.destructing
    have hconstructed := hhand.constructed
    have hstarted := hhand.loop_of_started
    cases hm <;> grind [onLoop, OwnerStage.notified]
  joining := by
    intro howner
    by_cases hbefore : s.owner = .joining
    · exact ((h.joining hbefore).step hhand hm).1
    · cases hm with
      | stops hdestructing hloop =>
        obtain ⟨e, he⟩ := hhand.exists_loop hloop
        have hafter : (s.onLoop EventLoop.quit).loop? = some e.quit := by
          rw [loop?_onLoop, he]
          rfl
        exact ⟨e.quit, hafter, rfl⟩
      | _ => grind [onLoop, OwnerStage.notified]
  destroyed := by
    have hdestroyed := h.destroyed
    have hdestructing := h.destructing
    cases hm <;> grind [onLoop, OwnerStage.notified]

/-- In every run the destructor joins a thread whose loop it has stopped. -/
theorem joining_of_reachable (h : loopThreadMachine.Reachable s) : s.Handshake ∧ s.Joining := by
  refine h.invariant (I := fun s => s.Handshake ∧ s.Joining) ?_ ?_
  · rintro _ ⟨callback, rfl⟩
    exact ⟨handshake_of_reachable (.init ⟨callback, rfl⟩), nofun, nofun, nofun⟩
  · rintro s l s' ⟨hhand, hjoining⟩ - hstep
    have hm := moves_of_step hstep
    exact ⟨hhand.step hm, hjoining.step hhand hm⟩

/-- The thread of a stopped loop ends, waits for the mutex or can go on. -/
theorem isStopped.exists_step (h : s.isStopped) (hhand : s.Handshake) :
    s.thread = .exited ∨ ∃ l s', (l = .thread ∨ l = .return_) ∧ Moves s l s' := by
  obtain ⟨e, he, hstopped⟩ := h
  have hloop : s.loop_ ≠ none := by
    intro hnone
    simp [loop?, hnone] at he
  have hearly : s.thread.early = false := by
    obtain ⟨hnone, -⟩ | ⟨_, -, -, -, hearly⟩ := hhand.made
    · exact absurd hnone hloop
    · exact hearly
  cases hthread : s.thread with
  | absent | locking | making =>
    rw [hthread] at hearly
    cases hearly
  | testing => exact .inr ⟨_, _, .inl rfl, .notifies hthread hloop⟩
  | unlocking => exact .inr ⟨_, _, .inl rfl, .unlocks hthread⟩
  | callingBack =>
    cases hcallback : s.callback_ with
    | true => exact .inr ⟨_, _, .inl rfl, .callsBack hthread hcallback⟩
    | false => exact .inr ⟨_, _, .inl rfl, .noCallback hthread hcallback⟩
  | inCallback => exact .inr ⟨_, _, .inr rfl, .callbackReturns hthread⟩
  | looping => exact .inr ⟨_, _, .inl rfl, .loops hthread hloop⟩
  | running => exact .inr ⟨_, _, .inl rfl, .exits hthread he (.inl hstopped)⟩
  | handling cb => exact .inr ⟨_, _, .inr rfl, .functorReturns hthread⟩
  | exited => exact .inl rfl

/-- The destructor joins: while it waits for the thread, the thread has ended or can go on, and
it takes at most six more turns whatever the other threads do.  When the destructor has
returned, the thread has ended or was never made. -/
theorem destructor_joins (h : loopThreadMachine.Reachable s) :
    (s.owner = .joining → (∃ l s', (l = .owner ∨ l = .thread ∨ l = .return_) ∧
        loopThreadMachine.step l s = .ok s') ∧
      ∀ t, (loopThreadMachine.startedAt s).Reachable t → t.turns ≤ s.turns + 6) ∧
    (s.owner = .destroyed → s.thread = .absent ∨ s.thread = .exited) := by
  obtain ⟨hhand, hjoining⟩ := joining_of_reachable h
  refine ⟨fun howner => ⟨?_, ?_⟩, hjoining.destroyed⟩
  · obtain hexited | ⟨l, s', hl, hm⟩ := (hjoining.joining howner).exists_step hhand
    · exact ⟨.owner, _, .inl rfl, step_of_moves (.joins howner hexited)⟩
    · exact ⟨l, s', .inr hl, step_of_moves hm⟩
  · intro t ht
    exact ((hjoining.joining howner).run hhand ht).2

/-- The destructor is called while the callback is running. -/
theorem destructor_joins_callback : ∃ s : EventLoopThread,
    (s.owner = .joining ∧ s.thread = .inCallback) ∧
    (s.owner = .joining → (∃ l s', (l = .owner ∨ l = .thread ∨ l = .return_) ∧
        loopThreadMachine.step l s = .ok s') ∧
      ∀ t, (loopThreadMachine.startedAt s).Reachable t → t.turns ≤ s.turns + 6) ∧
    (s.owner = .destroyed → s.thread = .absent ∨ s.thread = .exited) := by
  obtain ⟨s, hs, hseen⟩ := Machine.exists_of_run (M := loopThreadMachine)
    (C := fun _ _ => True) ⟨true, rfl⟩ (l := [.startLoop, .thread, .thread, .thread, .thread,
      .thread, .owner, .owner, .destroy, .owner])
    (f := fun s => (s.owner, s.thread)) (a := (.joining, .inCallback)) (by decide +kernel)
  exact ⟨s, Prod.mk.inj hseen, destructor_joins hs⟩

end EventLoopThread

end LibNetToy
