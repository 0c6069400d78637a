import LibNetToy.Base.TimerFires
import LibNetToy.Foundations.Spacing

/-!
# Timers and the clock

`runAfter` and `runEvery` of `base/EventLoop.h` on a timer queue with a clock.  A timer has an
expiry time: `addTimer` sets it, and `handleTimer` sets it again after the callback of a periodic
timer.  A wait is over when its timer has expired, and some time later, when the thread of the
loop gets to it, the callback starts.

Waits that are over may complete in any order, where asio takes them in the order of their expiry
times.  Without its clock a run is a run of the timer queue, in which a wait may complete at any
time, and every run of that queue is obtained in this way.
-/

namespace LibNetToy

/-- A timer queue with a clock, and what is remembered of each timer. -/
structure TimedLoop where
  loop : TimerLoop
  now : Int
  /-- The expiry time. -/
  deadline : TimerId → Int
  /-- The first expiry time. -/
  first : TimerId → Int
  /-- The interval the timer was added with. -/
  period : TimerId → Int
  /-- The times at which the callback started, oldest first. -/
  starts : TimerId → List Int

/-- What happens next. -/
inductive TimedEvent
  /-- Time passes. -/
  | tick (d : Nat)
  | runAfter (delayMs : Int) (cb : TimerCallback)
  | runEvery (intervalMs : Int) (cb : TimerCallback)
  | cancel (timer : Option TimerId)
  | expires (w : Wait)
  | dequeue
  | run
  | return_
  deriving DecidableEq, Repr

namespace TimedLoop

/-- A queue without timers. -/
def initial : TimedLoop where
  loop := TimerLoop.initial
  now := 0
  deadline := fun _ => 0
  first := fun _ => 0
  period := fun _ => 0
  starts := fun _ => []

/-- `addTimer(cb, milliseconds(when), interval)`. -/
def addTimer (s : TimedLoop) (cb : TimerCallback) (when interval : Int) : TimedLoop :=
  { s with
    loop := s.loop.addTimer cb interval
    deadline := Function.update s.deadline s.loop.nextTimer (s.now + when)
    first := Function.update s.first s.loop.nextTimer (s.now + when)
    period := Function.update s.period s.loop.nextTimer interval }

def runAfter (s : TimedLoop) (delayMs : Int) (cb : TimerCallback) : TimedLoop :=
  s.addTimer cb delayMs 0

def runEvery (s : TimedLoop) (intervalMs : Int) (cb : TimerCallback) : TimedLoop :=
  s.addTimer cb intervalMs intervalMs

/-- What the next step of the running `handleTimer` does with the clock: it is read when the
callback starts, and `expires_from_now(milliseconds(interval))` reads it afterwards. -/
def stamp (s : TimedLoop) (h : Handler) : TimedLoop :=
  if h.stage = .found ∧ h.error = none then
    { s with starts := Function.update s.starts h.timer (s.starts h.timer ++ [s.now]) }
  else if h.stage = .returned ∧ h.error = none ∧ h.interval ≠ 0 then
    { s with deadline := Function.update s.deadline h.timer (s.now + h.interval) }
  else s

/-- A step of the timer queue that does not read the clock. -/
def plain (s : TimedLoop) (e : TimerEvent) : Except (Halt Fault) TimedLoop :=
  Halt.within (TimerLoop.step e s.loop) fun l => { s with loop := l }

def step : TimedEvent → TimedLoop → Except (Halt Fault) TimedLoop
  | .tick d, s => .ok { s with now := s.now + d }
  | .runAfter delayMs cb, s => .ok (s.runAfter delayMs cb)
  | .runEvery intervalMs cb, s => .ok (s.runEvery intervalMs cb)
  | .cancel timer, s => s.plain (.cancel timer)
  | .expires w, s => Halt.guard (s.deadline w.timer ≤ s.now) (s.plain (.expires w))
  | .dequeue, s => s.plain .dequeue
  | .run, s =>
    match s.loop.running with
    | none => .error .disabled
    | some h => Halt.within (s.loop.goOn h) fun l => { s.stamp h with loop := l }
  | .return_, s => s.plain .return_

end TimedLoop

/-- All runs of a timer queue with a clock. -/
def timedMachine : Machine TimedLoop TimedEvent Fault where
  init s := s = TimedLoop.initial
  step := TimedLoop.step

/-- While the handler of a timer in the map has not started the next wait, no completion of the
timer is queued. -/
theorem TimerLoop.Tracked.no_completion {s : TimerLoop} {r : Handler} (h : Tracked s)
    (hrunning : s.running = some r) (hstage : r.stage ≠ .leaving) (hmem : r.timer ∈ s.timers) :
    ∀ c ∈ s.queue, c.timer ≠ r.timer := by
  intro c hc hkey
  have hone := h.one _ hmem
  rw [holding_of_running hrunning, if_pos ⟨rfl, hstage⟩] at hone
  have hpos : 0 < s.queue.countP fun c => c.timer = r.timer :=
    List.countP_pos_iff.2 ⟨c, hc, by simpa using hkey⟩
  unfold pendingOf at hone
  omega

namespace TimedLoop

variable {s s' : TimedLoop}

/-- The running handler goes on, and a start of its callback is noted with its time. -/
theorem run_eq_ok : step .run s = .ok s' ↔ ∃ h l, s.loop.running = some h ∧
    s.loop.goOn h = .ok l ∧ s' = { s.stamp h with loop := l } := by
  cases hrunning : s.loop.running <;> simp [step, hrunning]

/-! ## Forgetting the clock -/

/-- A step is one of the timer queue, or time passes. -/
theorem loop_step {e : TimedEvent} (hstep : step e s = .ok s') :
    s'.loop = s.loop ∨ ∃ x, TimerLoop.step x s.loop = .ok s'.loop := by
  cases e with
  | tick d =>
    obtain rfl := Except.ok.inj hstep
    exact .inl rfl
  | runAfter delayMs cb =>
    obtain rfl := Except.ok.inj hstep
    exact .inr ⟨.addTimer cb 0, rfl⟩
  | runEvery intervalMs cb =>
    obtain rfl := Except.ok.inj hstep
    exact .inr ⟨.addTimer cb intervalMs, rfl⟩
  | cancel timer =>
    obtain ⟨l, hl, rfl⟩ := Halt.within_eq_ok.1 hstep
    exact .inr ⟨.cancel timer, hl⟩
  | expires w =>
    obtain ⟨-, hstep⟩ := Halt.guard_eq_ok.1 hstep
    obtain ⟨l, hl, rfl⟩ := Halt.within_eq_ok.1 hstep
    exact .inr ⟨.expires w, hl⟩
  | dequeue =>
    obtain ⟨l, hl, rfl⟩ := Halt.within_eq_ok.1 hstep
    exact .inr ⟨.dequeue, hl⟩
  | run =>
    obtain ⟨h, l, hrunning, hl, rfl⟩ := run_eq_ok.1 hstep
    exact .inr ⟨.run, TimerLoop.run_eq_ok.2 ⟨h, hrunning, hl⟩⟩
  | return_ =>
    obtain ⟨l, hl, rfl⟩ := Halt.within_eq_ok.1 hstep
    exact .inr ⟨.return_, hl⟩

/-- Without its clock a run is a run of the timer queue. -/
theorem reachable_loop (h : timedMachine.Reachable s) : timerMachine.Reachable s.loop := by
  refine h.invariant (I := fun s => timerMachine.Reachable s.loop) ?_ ?_
  · rintro _ rfl
    exact .init rfl
  · rintro s e s' h - hstep
    obtain hsame | ⟨x, hx⟩ := loop_step hstep
    · rw [hsame]
      exact h
    · exact .step h trivial hx

/-- Every run of the timer queue is one with a clock, when enough time passes before a wait is
over. -/
theorem exists_timed {l : TimerLoop} (h : timerMachine.Reachable l) :
    ∃ s, timedMachine.Reachable s ∧ s.loop = l := by
  refine h.invariant (I := fun l => ∃ s, timedMachine.Reachable s ∧ s.loop = l) ?_ ?_
  · rintro _ rfl
    exact ⟨initial, .init rfl, rfl⟩
  · rintro _ x l' ⟨s, hs, rfl⟩ - hx
    cases x with
    | addTimer cb interval =>
      obtain rfl := Except.ok.inj hx
      by_cases hzero : interval = 0
      · subst hzero
        exact ⟨s.runAfter 0 cb, .step hs trivial (l := .runAfter 0 cb) rfl, rfl⟩
      · exact ⟨s.runEvery interval cb, .step hs trivial (l := .runEvery interval cb) rfl, rfl⟩
    | cancel timer =>
      exact ⟨{ s with loop := l' }, .step hs trivial (l := .cancel timer)
        (Halt.within_eq_ok.2 ⟨l', hx, rfl⟩), rfl⟩
    | expires w =>
      let late : TimedLoop := { s with now := s.now + (s.deadline w.timer - s.now).toNat }
      have hlate : timedMachine.Reachable late :=
        .step hs trivial (l := .tick (s.deadline w.timer - s.now).toNat) rfl
      have hdue : late.deadline w.timer ≤ late.now := by
        have htime := Int.self_le_toNat (s.deadline w.timer - s.now)
        simp only [late]
        omega
      exact ⟨{ late with loop := l' }, .step hlate trivial (l := .expires w)
        (Halt.guard_eq_ok.2 ⟨hdue, Halt.within_eq_ok.2 ⟨l', hx, rfl⟩⟩), rfl⟩
    | dequeue =>
      exact ⟨{ s with loop := l' }, .step hs trivial (l := .dequeue)
        (Halt.within_eq_ok.2 ⟨l', hx, rfl⟩), rfl⟩
    | run =>
      obtain ⟨h, hrunning, hgo⟩ := TimerLoop.run_eq_ok.1 hx
      exact ⟨{ s.stamp h with loop := l' }, .step hs trivial (l := .run)
        (run_eq_ok.2 ⟨h, l', hrunning, hgo, rfl⟩), rfl⟩
    | return_ =>
      exact ⟨{ s with loop := l' }, .step hs trivial (l := .return_)
        (Halt.within_eq_ok.2 ⟨l', hx, rfl⟩), rfl⟩

/-- The model of the timer queue is the one with a clock without its clock, so that what holds in
the runs of the one holds in those of the other. -/
theorem timer_reachable_iff {l : TimerLoop} :
    timerMachine.Reachable l ↔ ∃ s, timedMachine.Reachable s ∧ s.loop = l := by
  constructor
  · exact exists_timed
  · rintro ⟨s, hs, rfl⟩
    exact reachable_loop hs

/-! ## Firing on time -/

/-- The earliest time at which the callback of the timer may start next. -/
def next (s : TimedLoop) (t : TimerId) : Int :=
  earliest (s.period t) (s.first t) (s.starts t)

/-- The handler has not come to the callback. -/
def beforeCall (h : Handler) : Prop :=
  h.stage = .locked ∨ h.stage = .found

/-- A wait is not over before the callback may start, and what follows from it comes later. -/
structure Timely (s : TimedLoop) : Prop where
  waits : ∀ w ∈ s.loop.waits, s.next w.timer ≤ s.deadline w.timer
  queue : ∀ c ∈ s.loop.queue, c.error = none → s.next c.timer ≤ s.now
  before : ∀ h ∈ s.loop.running, beforeCall h → s.next h.timer ≤ s.now
  called : ∀ h ∈ s.loop.running, h.hasCalled → s.next h.timer ≤ s.now + s.period h.timer
  spaced : ∀ t, Spaced (s.period t) (s.first t) (s.starts t)
  fresh : ∀ t, s.loop.nextTimer ≤ t → s.starts t = []
  period : ∀ t i, .added t i ∈ s.loop.log → s.period t = i
  counted : ∀ t, (s.starts t).length = s.loop.log.count (.started t)

/-- A step that starts no callback and no wait.  A completion that is new comes from a wait whose
timer has expired, a handler that is new from a completion. -/
theorem Timely.quiet {l : TimerLoop} (h : Timely s)
    (hwaits : ∀ w ∈ l.waits, w ∈ s.loop.waits)
    (hqueue : ∀ c ∈ l.queue, c.error = none → c ∈ s.loop.queue ∨
      ∃ w ∈ s.loop.waits, w.timer = c.timer ∧ s.deadline w.timer ≤ s.now)
    (hbefore : ∀ r ∈ l.running, beforeCall r →
      (∃ r' ∈ s.loop.running, r'.timer = r.timer ∧ beforeCall r') ∨
      ∃ c ∈ s.loop.queue, c.timer = r.timer ∧ c.error = none)
    (hcalled : ∀ r ∈ l.running, r.hasCalled →
      ∃ r' ∈ s.loop.running, r'.timer = r.timer ∧ r'.hasCalled)
    (hnext : l.nextTimer = s.loop.nextTimer)
    (hadded : ∀ t i, .added t i ∈ l.log → .added t i ∈ s.loop.log)
    (hcount : ∀ t, l.log.count (.started t) = s.loop.log.count (.started t)) :
    Timely { s with loop := l } where
  waits w hw := h.waits w (hwaits w hw)
  queue c hc herror := by
    rcases hqueue c hc herror with hc | ⟨w, hw, hkey, hdue⟩
    · exact h.queue c hc herror
    · have hwait := h.waits w hw
      rw [hkey] at hwait hdue
      exact hwait.trans hdue
  before r hr hat := by
    rcases hbefore r hr hat with ⟨r', hr', hkey, hat'⟩ | ⟨c, hc, hkey, herror⟩
    · exact hkey ▸ h.before r' hr' hat'
    · exact hkey ▸ h.queue c hc herror
  called r hr hat := by
    obtain ⟨r', hr', hkey, hat'⟩ := hcalled r hr hat
    exact hkey ▸ h.called r' hr' hat'
  spaced := h.spaced
  fresh t ht := h.fresh t (hnext ▸ ht)
  period t i hmem := h.period t i (hadded t i hmem)
  counted t := (h.counted t).trans (hcount t).symm

/-- Time may pass. -/
theorem Timely.tick (h : Timely s) (d : Nat) : Timely { s with now := s.now + d } where
  waits := h.waits
  queue c hc herror := by
    have hle : s.next c.timer ≤ s.now := h.queue c hc herror
    change s.next c.timer ≤ s.now + d
    omega
  before r hr hat := by
    have hle : s.next r.timer ≤ s.now := h.before r hr hat
    change s.next r.timer ≤ s.now + d
    omega
  called r hr hat := by
    have hle : s.next r.timer ≤ s.now + s.period r.timer := h.called r hr hat
    change s.next r.timer ≤ s.now + d + s.period r.timer
    omega
  spaced := h.spaced
  fresh := h.fresh
  period := h.period
  counted := h.counted

/-- A new timer has not fired, and the others are as before. -/
theorem next_addTimer {cb : TimerCallback} {when interval : Int} {t : TimerId}
    (ht : t ≠ s.loop.nextTimer) : (s.addTimer cb when interval).next t = s.next t := by
  simp [next, addTimer, ht]

/-- A new timer may fire when it expires. -/
theorem Timely.addTimer {cb : TimerCallback} {when interval : Int} (h : Timely s)
    (hr : TimerLoop.Recorded s.loop) : Timely (s.addTimer cb when interval) := by
  have hold : ∀ {t i}, s.loop.Known t i → t ≠ s.loop.nextTimer := by
    intro t i hknown
    exact (hr.lt t i (hr.known t i hknown)).ne
  constructor
  · intro w hw
    rcases List.mem_append.1 hw with hw | hw
    · have hne := hold (.inl ⟨w, hw, rfl, rfl⟩)
      rw [next_addTimer hne]
      simpa [TimedLoop.addTimer, hne] using h.waits w hw
    · rw [List.mem_singleton.1 hw]
      simp [next, TimedLoop.addTimer, h.fresh _ (Nat.le_refl _), earliest]
  · intro c hc herror
    rw [next_addTimer (hold (.inr (.inl ⟨c, hc, rfl, rfl⟩)))]
    exact h.queue c hc herror
  · intro r hrunning hat
    rw [next_addTimer (hold (.inr (.inr ⟨r, hrunning, rfl, rfl⟩)))]
    exact h.before r hrunning hat
  · intro r hrunning hat
    have hne := hold (.inr (.inr ⟨r, hrunning, rfl, rfl⟩))
    rw [next_addTimer hne]
    simpa [TimedLoop.addTimer, hne] using h.called r hrunning hat
  · intro t
    by_cases ht : t = s.loop.nextTimer
    · subst ht
      simp [TimedLoop.addTimer, h.fresh _ (Nat.le_refl _), Spaced]
    · simpa [TimedLoop.addTimer, ht] using h.spaced t
  · intro t ht
    exact h.fresh t (Nat.le_of_succ_le ht)
  · intro t i hmem
    rcases List.mem_append.1 hmem with hmem | hmem
    · have hne := (hr.lt t i hmem).ne
      simpa [TimedLoop.addTimer, hne] using h.period t i hmem
    · obtain ⟨rfl, rfl⟩ := TimerRecord.added.inj (List.mem_singleton.1 hmem)
      simp [TimedLoop.addTimer]
  · intro t
    have hcount : (s.addTimer cb when interval).loop.log.count (.started t) =
        s.loop.log.count (.started t) := by
      simp [TimedLoop.addTimer, TimerLoop.addTimer]
    rw [hcount]
    exact h.counted t

/-- The callback of the timer of the running handler starts. -/
theorem Timely.start {r : Handler} (h : Timely s) (hr : TimerLoop.Recorded s.loop)
    (ht : TimerLoop.Tracked s.loop)
    (hrunning : s.loop.running = some r) (hstage : r.stage = .found)
    (hmem : r.timer ∈ s.loop.timers) :
    Timely { s with
      loop := { s.loop.proceed r .inCallback with log := s.loop.log ++ [.started r.timer] }
      starts := Function.update s.starts r.timer (s.starts r.timer ++ [s.now]) } := by
  have hnot : r.stage ≠ .leaving := by
    rw [hstage]
    nofun
  have hdue : s.next r.timer ≤ s.now := h.before r hrunning (.inr hstage)
  constructor
  · intro w hw
    have hne := ht.no_wait hrunning hnot hmem w hw
    simpa [next, hne] using h.waits w hw
  · intro c hc herror
    have hne := ht.no_completion hrunning hnot hmem c hc
    simpa [next, hne] using h.queue c hc herror
  · intro r' hr hat
    obtain rfl := Option.some.inj hr
    rcases hat with hat | hat <;> cases hat
  · intro r' hr _
    obtain rfl := Option.some.inj hr
    simp [next, earliest_concat]
  · intro t
    by_cases hkey : t = r.timer
    · subst hkey
      simpa [spaced_concat] using ⟨h.spaced r.timer, hdue⟩
    · simpa [hkey] using h.spaced t
  · intro t hlt
    have hne : t ≠ r.timer := fun hkey => absurd (hr.timers _ hmem) (Nat.not_lt.2 (hkey ▸ hlt))
    simpa [hne] using h.fresh t hlt
  · intro t i hadded
    exact h.period t i ((TimerLoop.mem_append_record (by simp)).1 hadded)
  · intro t
    have hcounted := h.counted t
    by_cases hkey : t = r.timer
    · subst hkey
      simp [hcounted]
    · have hne : r.timer ≠ t := Ne.symm hkey
      simp [hkey, hne, hcounted]

/-- The timer of the running handler is set again. -/
theorem Timely.rearm {r : Handler} (h : Timely s) (hr : TimerLoop.Recorded s.loop)
    (hrunning : s.loop.running = some r) (hstage : r.stage = .returned) :
    Timely { s with
      loop := (s.loop.waitAgain ⟨r.timer, r.interval⟩).proceed r .leaving
      deadline := Function.update s.deadline r.timer (s.now + r.interval) } := by
  have hperiod : s.period r.timer = r.interval :=
    h.period _ _ (hr.known _ _ (.inr (.inr ⟨r, hrunning, rfl, rfl⟩)))
  have hlast : s.next r.timer ≤ s.now + r.interval := hperiod ▸ h.called r hrunning (.inr hstage)
  constructor
  · intro w hw
    rcases List.mem_append.1 hw with hw | hw
    · obtain ⟨hw, hne⟩ := TimerLoop.mem_waits_abort.1 hw
      simpa [next, hne] using h.waits w hw
    · rw [List.mem_singleton.1 hw]
      simpa [next] using hlast
  · intro c hc herror
    rcases TimerLoop.mem_queue_abort.1 hc with hc | ⟨w, -, -, rfl⟩
    · exact h.queue c hc herror
    · cases herror
  · intro r' hr' hat
    obtain rfl := Option.some.inj hr'
    rcases hat with hat | hat <;> cases hat
  · intro r' hr' hat
    obtain rfl := Option.some.inj hr'
    rcases hat with hat | hat <;> cases hat
  · exact h.spaced
  · exact h.fresh
  · exact h.period
  · exact h.counted

/-- The steps of `handleTimer` keep the times. -/
theorem Timely.goOn {r : Handler} {l : TimerLoop} (h : Timely s) (hr : TimerLoop.Recorded s.loop)
    (ht : TimerLoop.Tracked s.loop) (hrunning : s.loop.running = some r)
    (hstep : s.loop.goOn r = .ok l) : Timely { s.stamp r with loop := l } := by
  have herror := ht.running r hrunning
  rcases TimerLoop.goOn_cases hstep with ⟨hstage, -, rfl⟩ | ⟨hstage, -, hmem, rfl⟩ | ⟨-, hno, -⟩ |
    ⟨hstage, -, hinterval, rfl⟩ | ⟨hstage, hinterval, -, rfl⟩ | ⟨hstage, -, rfl⟩ |
    ⟨hstage, -, rfl⟩
  · have hstamp : s.stamp r = s := by simp [stamp, hstage]
    rw [hstamp]
    refine h.quiet (fun _ hw => hw) (fun _ hc _ => .inl hc) ?_ ?_ rfl (fun _ _ h => h) fun _ => rfl
    · intro r' hr' _
      obtain rfl := Option.some.inj hr'
      exact .inl ⟨r, hrunning, rfl, .inl hstage⟩
    · intro r' hr' hat
      obtain rfl := Option.some.inj hr'
      rcases hat with hat | hat <;> cases hat
  · have hstamp : s.stamp r =
        { s with starts := Function.update s.starts r.timer (s.starts r.timer ++ [s.now]) } := by
      simp [stamp, hstage, herror]
    rw [hstamp]
    exact h.start hr ht hrunning hstage hmem
  · exact absurd herror hno
  · have hstamp : s.stamp r =
        { s with deadline := Function.update s.deadline r.timer (s.now + r.interval) } := by
      simp [stamp, hstage, herror, hinterval]
    rw [hstamp]
    exact h.rearm hr hrunning hstage
  · have hstamp : s.stamp r = s := by simp [stamp, hstage, herror, hinterval herror]
    rw [hstamp]
    refine h.quiet (fun _ hw => hw) (fun _ hc _ => .inl hc) ?_ ?_ rfl (fun _ _ h => h) fun _ => rfl
    all_goals
      intro r' hr' hat
      obtain rfl := Option.some.inj hr'
      rcases hat with hat | hat <;> cases hat
  · have hstamp : s.stamp r = s := by simp [stamp, hstage]
    rw [hstamp]
    exact h.quiet (fun _ hw => hw) (fun _ hc _ => .inl hc) nofun nofun rfl (fun _ _ h => h)
      fun _ => rfl
  · have hstamp : s.stamp r = s := by simp [stamp, hstage]
    rw [hstamp]
    refine h.quiet (fun _ hw => (TimerLoop.mem_waits_abort.1 hw).1) ?_ nofun nofun rfl
      (fun _ _ h => h) fun _ => rfl
    intro c hc herror
    rcases TimerLoop.mem_queue_abort.1 hc with hc | ⟨w, -, -, rfl⟩
    · exact .inl hc
    · cases herror

/-- Cancelling starts nothing. -/
theorem Timely.cancel {t : TimerId} (h : Timely s) :
    Timely { s with loop := { s.loop.cancel t with log := s.loop.log ++ [.cancelled t] } } := by
  have hrunning := TimerLoop.running_cancel (s := s.loop) t
  refine h.quiet ?_ ?_ ?_ ?_ (TimerLoop.nextTimer_cancel t) ?_ ?_
  · intro w hw
    change w ∈ (s.loop.cancel t).waits at hw
    unfold TimerLoop.cancel at hw
    split_ifs at hw
    · exact (TimerLoop.mem_waits_abort.1 hw).1
    · exact hw
  · intro c hc herror
    change c ∈ (s.loop.cancel t).queue at hc
    unfold TimerLoop.cancel at hc
    split_ifs at hc
    · rcases TimerLoop.mem_queue_abort.1 hc with hc | ⟨w, -, -, rfl⟩
      · exact .inl hc
      · cases herror
    · exact .inl hc
  · intro r hr hat
    exact .inl ⟨r, hrunning ▸ hr, rfl, hat⟩
  · intro r hr hat
    exact ⟨r, hrunning ▸ hr, rfl, hat⟩
  · intro t' i hmem
    exact (TimerLoop.mem_append_record (by simp)).1 hmem
  · intro t'
    simp

/-- A handler that begins was queued in time. -/
theorem Timely.dequeue {l : TimerLoop} (h : Timely s) (ht : TimerLoop.Tracked l)
    (hstep : TimerLoop.step .dequeue s.loop = .ok l) : Timely { s with loop := l } := by
  obtain ⟨hrunning, c, queue, hqueue, rfl⟩ := TimerLoop.dequeue_eq_ok.1 hstep
  have hmem : ∀ c' ∈ queue, c' ∈ s.loop.queue := by
    intro c' hc'
    rw [hqueue]
    exact List.mem_cons_of_mem c hc'
  have hhead : c ∈ s.loop.queue := by
    rw [hqueue]
    exact List.mem_cons_self
  unfold TimerLoop.handleTimer at ht ⊢
  split_ifs at ht ⊢
  · refine h.quiet (fun _ hw => hw) (fun c' hc' _ => .inl (hmem c' hc')) ?_ ?_ rfl
      (fun _ _ h => h) fun _ => rfl
    · intro r hr _
      have herror := ht.running r hr
      obtain rfl := Option.some.inj hr
      exact .inr ⟨c, hhead, rfl, herror⟩
    · intro r hr hat
      obtain rfl := Option.some.inj hr
      rcases hat with hat | hat <;> cases hat
  · refine h.quiet (fun _ hw => hw) (fun c' hc' _ => .inl (hmem c' hc')) ?_ ?_ rfl
      (fun _ _ h => h) fun _ => rfl
    · intro r hr
      exact absurd (hrunning.symm.trans hr) nofun
    · intro r hr
      exact absurd (hrunning.symm.trans hr) nofun

/-- Every step is timely. -/
theorem Timely.step {e : TimedEvent} (h : Timely s) (hs : timedMachine.Reachable s)
    (hstep : TimedLoop.step e s = .ok s') : Timely s' := by
  obtain ⟨hr, ht, -⟩ := TimerLoop.invariants (reachable_loop hs)
  have hnext : TimerLoop.Tracked s'.loop :=
    (TimerLoop.invariants (reachable_loop (.step hs trivial hstep))).2.1
  cases e with
  | tick d =>
    obtain rfl := Except.ok.inj hstep
    exact h.tick d
  | runAfter delayMs cb =>
    obtain rfl := Except.ok.inj hstep
    exact h.addTimer hr
  | runEvery intervalMs cb =>
    obtain rfl := Except.ok.inj hstep
    exact h.addTimer hr
  | cancel timer =>
    obtain ⟨l, hl, rfl⟩ := Halt.within_eq_ok.1 hstep
    rcases TimerLoop.cancel_eq_ok.1 hl with ⟨-, rfl⟩ | ⟨t, -, -, rfl⟩
    · exact h
    · exact h.cancel
  | expires w =>
    obtain ⟨hdue, hstep⟩ := Halt.guard_eq_ok.1 hstep
    obtain ⟨l, hl, rfl⟩ := Halt.within_eq_ok.1 hstep
    obtain ⟨hw, rfl⟩ := TimerLoop.expires_eq_ok.1 hl
    refine h.quiet (fun _ hw => List.mem_of_mem_erase hw) ?_
      (fun r hr hat => .inl ⟨r, hr, rfl, hat⟩) (fun r hr hat => ⟨r, hr, rfl, hat⟩) rfl
      (fun _ _ h => h) fun _ => rfl
    intro c hc _
    rcases List.mem_append.1 hc with hc | hc
    · exact .inl hc
    · rw [List.mem_singleton.1 hc]
      exact .inr ⟨w, hw, rfl, hdue⟩
  | dequeue =>
    obtain ⟨l, hl, rfl⟩ := Halt.within_eq_ok.1 hstep
    exact h.dequeue hnext hl
  | run =>
    obtain ⟨r, l, hrunning, hl, rfl⟩ := run_eq_ok.1 hstep
    exact h.goOn hr ht hrunning hl
  | return_ =>
    obtain ⟨l, hl, rfl⟩ := Halt.within_eq_ok.1 hstep
    obtain ⟨r, hrunning, hstage, rfl⟩ := TimerLoop.return_eq_ok.1 hl
    refine h.quiet (fun _ hw => hw) (fun _ hc _ => .inl hc) ?_ ?_ rfl (fun _ _ h => h)
      fun _ => rfl
    · intro r' hr' hat
      obtain rfl := Option.some.inj hr'
      rcases hat with hat | hat <;> cases hat
    · intro r' hr' _
      obtain rfl := Option.some.inj hr'
      exact ⟨r, hrunning, rfl, .inl hstage⟩

/-- Every run is timely. -/
theorem timely_of_reachable (h : timedMachine.Reachable s) : Timely s := by
  suffices hboth : timedMachine.Reachable s ∧ Timely s from hboth.2
  refine h.invariant (I := fun s => timedMachine.Reachable s ∧ Timely s) ?_ ?_
  · rintro _ rfl
    refine ⟨.init rfl, nofun, nofun, nofun, nofun, fun _ => trivial, fun _ _ => rfl, nofun,
      fun _ => rfl⟩
  · rintro s e s' ⟨hs, h⟩ - hstep
    exact ⟨.step hs trivial hstep, h.step hs hstep⟩

/-- No callback is early, those of a periodic timer keep their distance, a timer without an
interval fires once, and an expired timer in the map is not forgotten.  While a handler of the
timer runs, it is that handler which lets the timer wait again. -/
structure FiresOnTime (s : TimedLoop) : Prop where
  early : ∀ t (k : Nat) τ, (s.starts t)[k]? = some τ → s.first t + k * s.period t ≤ τ
  apart : ∀ t (k : Nat) σ τ, (s.starts t)[k]? = some σ → (s.starts t)[k + 1]? = some τ →
    σ + s.period t ≤ τ
  once : ∀ t, .added t 0 ∈ s.loop.log → (s.starts t).length ≤ 1
  ready : ∀ t ∈ s.loop.timers, ¬ s.loop.isRunning t → s.deadline t ≤ s.now →
    (∃ c ∈ s.loop.queue, c.timer = t) ∨
      ∃ w s', w.timer = t ∧ TimedLoop.step (.expires w) s = .ok s'

/-- In every run with a clock the timers fire on time. -/
theorem firesOnTime (h : timedMachine.Reachable s) : s.FiresOnTime := by
  obtain ⟨hr, ht, hf⟩ := TimerLoop.invariants (reachable_loop h)
  have htimely := timely_of_reachable h
  refine ⟨?_, ?_, ?_, ?_⟩
  · intro t k τ hk
    have hle := (htimely.spaced t).le_getElem? hk
    rwa [nsmul_eq_mul] at hle
  · intro t k σ τ hσ hτ
    exact (htimely.spaced t).add_le hσ hτ
  · intro t hadded
    rw [htimely.counted]
    exact hf.once t hadded
  · intro t hmem hidle hdue
    have hone := ht.one t hmem
    rw [TimerLoop.holding_eq_zero hidle] at hone
    by_cases hqueued : ∃ c ∈ s.loop.queue, c.timer = t
    · exact .inl hqueued
    · have hzero : s.loop.queue.countP (fun c => c.timer = t) = 0 := by
        simpa [List.countP_eq_zero] using hqueued
      have hpos : 0 < s.loop.waits.countP (fun w => w.timer = t) := by
        unfold TimerLoop.pendingOf at hone
        omega
      obtain ⟨w, hw, hkey⟩ := List.countP_pos_iff.1 hpos
      have hkey : w.timer = t := by simpa using hkey
      refine .inr ⟨w, _, hkey, Halt.guard_eq_ok.2 ⟨hkey ▸ hdue, Halt.within_eq_ok.2
        ⟨_, TimerLoop.expires_eq_ok.2 ⟨hw, rfl⟩, rfl⟩⟩⟩

/-- A periodic timer whose first callback starts late and takes long. -/
theorem firesOnTime_periodic : ∃ s : TimedLoop,
    (s.first 0 = 5 ∧ s.period 0 = 5 ∧ s.starts 0 = [7, 16]) ∧ s.FiresOnTime := by
  obtain ⟨s, hs, hseen⟩ := Machine.exists_of_run (M := timedMachine) (C := fun _ _ => True)
    (s := initial) rfl (l := [.runEvery 5 0, .tick 7, .expires ⟨0, 5⟩, .dequeue, .run, .run,
      .tick 4, .return_, .run, .run, .tick 5, .expires ⟨0, 5⟩, .dequeue, .run, .run])
    (f := fun s => (s.first 0, s.period 0, s.starts 0)) (a := (5, 5, [7, 16])) (by decide +kernel)
  obtain ⟨hfirst, hrest⟩ := Prod.mk.inj hseen
  obtain ⟨hperiod, hstarts⟩ := Prod.mk.inj hrest
  exact ⟨s, ⟨hfirst, hperiod, hstarts⟩, firesOnTime hs⟩

end TimedLoop

end LibNetToy
