import LibNetToy.Base.TimerLoop

/-!
# The iterator of `handleTimer`

`handleTimer` finds the entry of its timer, runs the callback and may erase the entry
afterwards.  `cancel` erases the entry too: called by the callback, or by another thread while
`handleTimer` runs, it leaves the iterator without an entry.  A periodic timer that was waited
for without an error is not erased after its callback, so it can be cancelled from there on.

In the runs that spare the iterator every use of it finds the entry.
-/

namespace LibNetToy

/-- The handler will look for the entry of its timer or use the iterator. -/
def Handler.usesIterator (h : Handler) : Bool :=
  match h.stage with
  | .locked => true
  | .found => true
  | .inCallback => decide (h.error ≠ none ∨ h.interval = 0)
  | .returned => decide (h.error ≠ none ∨ h.interval = 0)
  | .leaving => false

namespace TimerLoop

/-- No step of `handleTimer` fails the assertion or uses an iterator without an entry, and the
entry that is erased is the only one of the timer. -/
structure TouchesLive (s : TimerLoop) : Prop where
  found : ∀ e, step e s ≠ .error (.fault (.assertion .handleTimer))
  valid : ∀ e, step e s ≠ .error (.fault .invalidIterator)
  erased : ∀ h ∈ s.running, h.stage = .returned → h.usesIterator = true →
    AssocMap.count h.timer s.timerQueue_ = 1

/-- A timer is cancelled only while no handler of it will use its iterator. -/
def SparesIterator (s : TimerLoop) : TimerEvent → Prop
  | .cancel (some t) => ∀ h ∈ s.running, h.timer = t → h.usesIterator = false
  | _ => True

instance (s : TimerLoop) (e : TimerEvent) : Decidable (s.SparesIterator e) := by
  unfold SparesIterator
  split <;> infer_instance

/-- The iterator of the running handler has its entry. -/
structure IteratorLive (s : TimerLoop) : Prop where
  nodup : s.timers.Nodup
  lt : ∀ t ∈ s.timers, t < s.nextTimer
  live : ∀ h ∈ s.running, h.usesIterator = true → h.timer ∈ s.timers

variable {s s' : TimerLoop}

theorem IteratorLive.addTimer {cb : TimerCallback} {interval : Int} (h : IteratorLive s) :
    IteratorLive (s.addTimer cb interval) := by
  have hnew : s.nextTimer ∉ AssocMap.keys s.timerQueue_ := by
    intro hmem
    exact Nat.lt_irrefl _ (h.lt _ hmem)
  constructor
  · exact AssocMap.nodup_keys_assign hnew h.nodup
  · intro t ht
    rcases mem_timers_addTimer.1 ht with rfl | ht
    · exact Nat.lt_succ_self _
    · exact Nat.lt_succ_of_lt (h.lt t ht)
  · intro r hr huses
    exact mem_timers_addTimer.2 (Or.inr (h.live r hr huses))

/-- Erasing the entry of a timer whose iterator is not used. -/
theorem IteratorLive.erase {t : TimerId} (h : IteratorLive s)
    (hspare : ∀ r ∈ s.running, r.timer = t → r.usesIterator = false) :
    IteratorLive (s.erase t) := by
  constructor
  · exact AssocMap.nodup_keys_erase h.nodup
  · intro t' ht
    exact h.lt t' (mem_timers_erase.1 ht).1
  · intro r hr huses
    refine mem_timers_erase.2 ⟨h.live r hr huses, ?_⟩
    intro heq
    rw [hspare r hr heq] at huses
    cases huses

/-- The handler goes on with an iterator that has its entry. -/
theorem IteratorLive.proceed {r : Handler} {stage : Stage} (h : IteratorLive s)
    (hlive : { r with stage := stage }.usesIterator = true → r.timer ∈ s.timers) :
    IteratorLive (s.proceed r stage) := by
  refine ⟨h.nodup, h.lt, ?_⟩
  intro r' hr huses
  obtain rfl := Option.some.inj hr
  exact hlive huses

theorem IteratorLive.goOn {r : Handler} (h : IteratorLive s) (hrunning : s.running = some r)
    (hstep : s.goOn r = .ok s') : IteratorLive s' := by
  have hlive := h.live r hrunning
  rcases goOn_cases hstep with ⟨-, hmem, rfl⟩ | ⟨-, -, hmem, rfl⟩ | ⟨hstage, -, rfl⟩ |
    ⟨-, -, -, rfl⟩ | ⟨-, -, -, rfl⟩ | ⟨-, -, rfl⟩ | ⟨-, -, rfl⟩
  · exact h.proceed fun _ => hmem
  · have hcalled : IteratorLive (s.proceed r .inCallback) := h.proceed fun _ => hmem
    exact ⟨hcalled.nodup, hcalled.lt, hcalled.live⟩
  · refine IteratorLive.proceed ⟨h.nodup, h.lt, h.live⟩ fun _ => hlive ?_
    simp [Handler.usesIterator, hstage]
  · exact IteratorLive.proceed ⟨h.nodup, h.lt, h.live⟩ nofun
  · -- from here on the iterator is not used
    refine ⟨AssocMap.nodup_keys_erase h.nodup, ?_, ?_⟩
    · intro t ht
      exact h.lt t (mem_timers_erase.1 ht).1
    · intro r' hr huses
      obtain rfl := Option.some.inj hr
      cases huses
  · exact ⟨h.nodup, h.lt, nofun⟩
  · exact ⟨h.nodup, h.lt, nofun⟩

theorem IteratorLive.step {e : TimerEvent} (h : IteratorLive s) (he : s.SparesIterator e)
    (hstep : TimerLoop.step e s = .ok s') : IteratorLive s' := by
  cases e with
  | addTimer cb interval =>
    obtain rfl := addTimer_eq_ok.1 hstep
    exact h.addTimer
  | cancel timer =>
    rcases cancel_eq_ok.1 hstep with ⟨-, rfl⟩ | ⟨t, rfl, -, rfl⟩
    · exact h
    · have hcancel : IteratorLive (s.cancel t) := by
        unfold cancel
        split_ifs
        · exact IteratorLive.erase ⟨h.nodup, h.lt, h.live⟩ he
        · exact h
      exact ⟨hcancel.nodup, hcancel.lt, hcancel.live⟩
  | expires w =>
    obtain ⟨-, rfl⟩ := expires_eq_ok.1 hstep
    exact ⟨h.nodup, h.lt, h.live⟩
  | dequeue =>
    obtain ⟨hrunning, c, queue, -, rfl⟩ := dequeue_eq_ok.1 hstep
    unfold handleTimer
    split_ifs with halive
    · refine ⟨h.nodup, h.lt, ?_⟩
      intro r hr _
      obtain rfl := Option.some.inj hr
      rcases halive with hmem | ⟨r, hr, -⟩
      · exact hmem
      · rw [show s.running = some r from hr] at hrunning
        cases hrunning
    · exact ⟨h.nodup, h.lt, h.live⟩
  | run =>
    obtain ⟨r, hrunning, hstep⟩ := run_eq_ok.1 hstep
    exact h.goOn hrunning hstep
  | return_ =>
    obtain ⟨r, hrunning, hstage, rfl⟩ := return_eq_ok.1 hstep
    refine h.proceed fun huses => h.live r hrunning ?_
    simpa [Handler.usesIterator, hstage] using huses

/-- The steps that fail. -/
theorem step_eq_fault {e : TimerEvent} {f : Fault} (hstep : step e s = .error (.fault f)) :
    ∃ r, s.running = some r ∧ r.usesIterator = true ∧ r.timer ∉ s.timers := by
  cases e with
  | addTimer | expires => simp [step] at hstep
  | cancel timer => cases timer <;> simp [step] at hstep
  | dequeue =>
    cases hrunning : s.running <;> cases hqueue : s.queue <;>
      simp [step, hrunning, hqueue] at hstep
  | return_ =>
    cases hrunning : s.running <;> simp [step, hrunning] at hstep
  | run =>
    cases hrunning : s.running with
    | none => simp [step, hrunning] at hstep
    | some r =>
      simp only [step, hrunning] at hstep
      refine ⟨r, rfl, ?_⟩
      unfold goOn at hstep
      cases hstage : r.stage <;> simp only [hstage] at hstep
      case locked =>
        obtain ⟨hno, -⟩ := check_eq_error.1 (Halt.ofCall_eq_fault.1 hstep)
        exact ⟨by simp [Handler.usesIterator, hstage], hno⟩
      case found =>
        cases herror : r.error <;> simp only [herror] at hstep
        · split_ifs at hstep with hmem
          · exact ⟨by simp [Handler.usesIterator, hstage], hmem⟩
        · cases hstep
      case inCallback => cases hstep
      case returned =>
        split_ifs at hstep with hperiodic
        · have herase := Halt.ofCall_eq_fault.1 hstep
          unfold eraseIterator at herase
          split_ifs at herase with hmem
          · exact absurd herase pure_ne_error
          · refine ⟨?_, hmem⟩
            rw [Classical.not_and_iff_not_or_not, not_not] at hperiodic
            simpa [Handler.usesIterator, hstage] using hperiodic
      case leaving => cases hstep

/-- With the iterator live, everything that is used is there. -/
theorem IteratorLive.touchesLive (h : IteratorLive s) : s.TouchesLive := by
  constructor
  · intro e he
    obtain ⟨r, hr, huses, hno⟩ := step_eq_fault he
    exact hno (h.live r hr huses)
  · intro e he
    obtain ⟨r, hr, huses, hno⟩ := step_eq_fault he
    exact hno (h.live r hr huses)
  · intro r hr _ huses
    obtain ⟨entry, hmem, hkey⟩ := List.mem_map.1 (h.live r hr huses)
    obtain ⟨t, cb⟩ := entry
    obtain rfl : t = r.timer := hkey
    exact AssocMap.count_eq_one h.nodup hmem

theorem iteratorLive_initial (hs : timerMachine.init s) : IteratorLive s := by
  obtain rfl : s = initial := hs
  exact ⟨List.nodup_nil, nofun, nofun⟩

/-- In a run that spares the iterators, `handleTimer` only touches live entries. -/
theorem touchesLive_of_sparing (hs : timerMachine.ReachableUnder SparesIterator s) :
    s.TouchesLive := by
  have h : IteratorLive s :=
    hs.invariant (fun _ => iteratorLive_initial) fun _ _ _ h hC hstep => h.step hC hstep
  exact h.touchesLive

/-- A periodic timer cancels itself in its callback, and the queue goes on. -/
theorem touchesLive_periodic : ∃ s : TimerLoop,
    (s.timers, s.log) = ([], [.added 0 5, .started 0, .cancelled 0]) ∧ s.TouchesLive := by
  obtain ⟨s, hs, hobs⟩ := Machine.exists_of_run (M := timerMachine) (C := SparesIterator)
    (s := initial) rfl
    (l := [.addTimer 0 5, .expires ⟨0, 5⟩, .dequeue, .run, .run, .cancel (some 0), .return_, .run])
    (f := fun s => (s.timers, s.log)) (a := ([], [.added 0 5, .started 0, .cancelled 0]))
    (by decide +kernel)
  exact ⟨s, hobs, touchesLive_of_sparing hs⟩

/-- A timer that fires once cancels itself in its callback: `handleTimer` erases its entry a
second time. -/
theorem not_touchesLive : ¬ ∀ s, timerMachine.Reachable s → s.TouchesLive := by
  intro hall
  obtain ⟨s, hs, hobs⟩ := Machine.exists_of_run (M := timerMachine) (C := fun _ _ => True)
    (s := initial) rfl
    (l := [.addTimer 0 0, .expires ⟨0, 0⟩, .dequeue, .run, .run, .cancel (some 0), .return_])
    (f := fun s => decide (step .run s = .error (.fault .invalidIterator))) (a := true)
    (by decide +kernel)
  exact (hall s hs).valid .run (of_decide_eq_true hobs)

end TimerLoop

end LibNetToy
