import LibNetToy.Net.Frame

/-!
# How long a connector waits

`retry` arms a timer with the current delay and doubles the delay up to a bound; only `restart`
goes back to the first delay.  The delays are kept beside the process: those of the timers armed
since the connector was last restarted, whatever made `retry` run and however often the
connector was stopped and started meanwhile.
-/

namespace LibNetToy

/-- The `n`-th value of a delay that is doubled up to a bound. -/
def doubled (init bound n : Nat) : Nat :=
  min (init * 2 ^ n) bound

/-- The first delay is the initial one. -/
theorem doubled_zero {init bound : Nat} (h : init ≤ bound) : doubled init bound 0 = init := by
  rw [doubled, pow_zero, mul_one]
  exact Nat.min_eq_left h

/-- No delay is over the bound. -/
theorem doubled_le (init bound n : Nat) : doubled init bound n ≤ bound :=
  Nat.min_le_right _ _

/-- A value that has met the bound stays there. -/
theorem doubled_succ (init bound n : Nat) :
    doubled init bound (n + 1) = min (doubled init bound n * 2) bound := by
  have hpow : init * 2 ^ (n + 1) = init * 2 ^ n * 2 := by rw [pow_succ, mul_assoc]
  rw [doubled, doubled, hpow]
  omega

/-- A process, and the delays of the timers that the connector has armed since it was last
restarted, oldest first. -/
structure Backoff where
  process : Process
  delays : List Nat

namespace Backoff

open Process

variable {p q r : Process} {s : Backoff}

/-- The step runs `restart`. -/
def restarts (p : Process) : ProcessEvent → Bool
  | .run t _ => decide ((p.stackOf t).head? = some (.connector .restart))
  | _ => false

/-- The delays after a step from `p` to `q`: a timer that was made has got the delay as it was
before the step. -/
def delaysAfter (e : ProcessEvent) (p q : Process) (delays : List Nat) : List Nat :=
  if restarts p e then []
  else if q.timers.nextTimer = p.timers.nextTimer then delays
  else delays ++ [p.connector.retryDelayMs_]

def step (e : ProcessEvent) (s : Backoff) : Except (Halt Fault) Backoff :=
  Halt.within (Process.step e s.process) fun q =>
    { process := q, delays := delaysAfter e s.process q s.delays }

end Backoff

/-- All runs of a process, with the delays of its connector. -/
def backoffMachine : Machine Backoff ProcessEvent Fault where
  init s := processMachine.init s.process ∧ s.delays = []
  step := Backoff.step

namespace Backoff

open Process

variable {p q r : Process} {s : Backoff}

/-! ## What a step does to the delay -/

/-- Neither the delay nor the timers made so far have changed. -/
structure Steady (p q : Process) : Prop where
  delay : q.connector.retryDelayMs_ = p.connector.retryDelayMs_
  next : q.timers.nextTimer = p.timers.nextTimer

/-- A timer was made, and the delay has been doubled. -/
structure Doubles (p q : Process) : Prop where
  delay : q.connector.retryDelayMs_ =
    min (p.connector.retryDelayMs_ * 2) Connector.kMaxRetryDelayMs
  next : q.timers.nextTimer = p.timers.nextTimer + 1

/-- The connector waits as it did, or once more. -/
def Waits (p q : Process) : Prop :=
  Steady p q ∨ Doubles p q

/-- Doing nothing keeps the delay. -/
theorem Steady.refl (p : Process) : Steady p p :=
  ⟨rfl, rfl⟩

/-- What the connector does not see does not change the delay. -/
theorem Steady.of_apart (h : Apart p q) : Steady p q :=
  ⟨by rw [h.connector], by rw [h.timers]⟩

/-- Two changes after each other that leave the delay alone. -/
theorem Steady.trans (hpq : Steady p q) (hqr : Steady q r) : Steady p r :=
  ⟨hqr.delay.trans hpq.delay, hqr.next.trans hpq.next⟩

/-- A timer that is cancelled keeps its number. -/
theorem steady_cancel (p : Process) (timer : Option TimerId) :
    Steady p (TimerQueue.cancel p timer) := by
  obtain hc | ⟨id, -, -, hc⟩ | ⟨id, s, -, -, -, hc⟩ := TimerQueue.cancel_cases p timer <;>
    rw [hc] <;> exact ⟨rfl, rfl⟩

/-- `stop` leaves the delay alone. -/
theorem steady_stop (p : Process) : Steady p (Connector.stop p) := by
  unfold Connector.stop
  exact ⟨(steady_cancel _ _).delay, (steady_cancel _ _).next⟩

/-- The handler of a timer leaves the delay alone. -/
theorem steady_handleTimer (p : Process) (t : ThreadId) (id : TimerId)
    (error : Option ErrorCode) : Steady p (TimerQueue.handleTimer p t id error) := by
  obtain ⟨-, hq⟩ | ⟨-, -, hq⟩ | ⟨-, -, hq⟩ := TimerQueue.handleTimer_cases p t id error <;>
    rw [hq] <;> exact ⟨rfl, rfl⟩

/-- `startInLoop` leaves the delay alone. -/
theorem steady_startInLoop {t : ThreadId} (h : Connector.startInLoop p t = .ok q) :
    Steady p q := by
  obtain ⟨-, ⟨-, -, rfl⟩ | ⟨-, rfl⟩⟩ := Connector.startInLoop_eq_ok.1 h
  · exact ⟨rfl, rfl⟩
  · exact Steady.refl q

/-- `retry` is the one function that makes a timer. -/
theorem waits_retry {held : Option SockId} (h : Connector.retry p held = .ok q) : Waits p q := by
  obtain ⟨-, rfl⟩ | ⟨k, -, -, -, ⟨-, rfl⟩ | ⟨-, rfl⟩⟩ := Connector.retry_eq_ok.1 h
  · exact .inl (Steady.refl q)
  · exact .inr ⟨rfl, rfl⟩
  · exact .inl ⟨rfl, rfl⟩

/-- `stopInLoop` waits once more at most. -/
theorem waits_stopInLoop {t : ThreadId} (h : Connector.stopInLoop p t = .ok q) : Waits p q := by
  obtain ⟨-, ⟨-, hretry⟩ | ⟨-, rfl⟩⟩ := Connector.stopInLoop_eq_ok.1 h
  · exact (waits_retry hretry).imp (fun h => ⟨h.delay, h.next⟩) fun h => ⟨h.delay, h.next⟩
  · exact .inl (Steady.refl q)

/-- `handleConnect` arms a timer with the next delay, if any. -/
theorem waits_handleConnect {t : ThreadId} {k : SockId} {error : Option ErrorCode}
    (h : Connector.handleConnect p t k error = .ok q) : Waits p q := by
  cases error with
  | none =>
    obtain rfl := pure_eq_ok.1 h
    exact .inl ⟨rfl, rfl⟩
  | some e => exact (waits_retry h).imp (fun h => ⟨h.delay, h.next⟩) fun h => ⟨h.delay, h.next⟩

/-- Work other than `restart` lets the connector wait as it did, or once more. -/
theorem waits_exec {t : ThreadId} {peer : List Char} {w : Work} (h : p.exec t peer w = .ok q)
    (hw : w ≠ .connector .restart) : Waits p q := by
  cases w with
  | conn | bound | setCloseCallback | server =>
    exact .inl (Steady.of_apart (exec_apart h rfl nofun))
  | client k =>
    obtain ⟨-, hk⟩ := exec_client_eq_ok.1 h
    cases k with
    | newConnection socket =>
      obtain ⟨-, rfl⟩ := TcpClient.newConnection_eq_ok.1 hk
      exact .inl ⟨rfl, rfl⟩
    | removeConnection c =>
      obtain ⟨hconnector, htimers, -, -⟩ := removeConnection_connector hk
      exact .inl ⟨by rw [hconnector], by rw [htimers]⟩
    | destroyed => exact .inl (Steady.of_apart (exec_apart h rfl nofun))
  | connector k =>
    obtain ⟨-, hk⟩ := Connector.exec_eq_ok.1 h
    cases k with
    | startInLoop => exact .inl (steady_startInLoop hk)
    | stopInLoop => exact waits_stopInLoop hk
    | restart => exact absurd rfl hw
    | handleConnect k error => exact waits_handleConnect hk
  | handleTimer timer error =>
    obtain rfl := pure_eq_ok.1 h
    exact .inl (steady_handleTimer _ _ _ _)
  | eraseTimer timer =>
    obtain rfl := pure_eq_ok.1 h
    exact .inl ⟨rfl, rfl⟩

/-- `restart` goes back to the first delay. -/
theorem delay_restart {t : ThreadId} {peer : List Char}
    (h : p.exec t peer (.connector .restart) = .ok q) :
    q.connector.retryDelayMs_ = Connector.kInitRetryDelayMs := by
  have hexec : Connector.exec p t .restart = .ok q := h
  obtain ⟨-, hrestart⟩ := Connector.exec_eq_ok.1 hexec
  obtain ⟨-, rfl⟩ := Connector.restart_eq_ok.1 hrestart
  rfl

/-- A step restarts the connector, or lets it wait as it did or once more. -/
theorem step_waits {e : ProcessEvent} (h : Process.step e p = .ok q) :
    (restarts p e = true ∧ q.connector.retryDelayMs_ = Connector.kInitRetryDelayMs) ∨
      (restarts p e = false ∧ Waits p q) := by
  by_cases he : e.onConnector = false
  · refine .inr ⟨?_, .inl (Steady.of_apart (step_apart h he))⟩
    cases e <;> first | rfl | cases he
  cases e with
  | run t peer =>
    obtain ⟨w, rest, htake, -, hexec⟩ := run_eq_ok.1 h
    have hhead := head_stackOf htake
    by_cases hw : w = .connector .restart
    · subst hw
      exact .inl ⟨by simp [restarts, hhead], delay_restart hexec⟩
    · refine .inr ⟨by simp [restarts, hhead, hw], ?_⟩
      exact (waits_exec hexec hw).imp (fun h => ⟨h.delay, h.next⟩) fun h => ⟨h.delay, h.next⟩
  | clientCall t x =>
    obtain ⟨-, rfl⟩ := clientCall_eq_ok.1 h
    refine .inr ⟨rfl, .inl ?_⟩
    cases x with
    | connect => exact ⟨rfl, rfl⟩
    | stop => exact (Steady.of_apart Apart.client).trans (steady_stop _)
    | disconnect | enableRetry => exact absurd rfl he
  | connectorCall t x =>
    obtain ⟨-, rfl⟩ := connectorCall_eq_ok.1 h
    refine .inr ⟨rfl, .inl ?_⟩
    cases x with
    | start | restart => exact ⟨rfl, rfl⟩
    | stop => exact steady_stop _
  | destroyClient t =>
    obtain ⟨-, hdestroy⟩ := destroyClient_eq_ok.1 h
    refine .inr ⟨rfl, .inl ?_⟩
    cases hc : p.client.connection_ with
    | some c => exact Steady.of_apart (destructor_apart hc hdestroy)
    | none =>
      obtain ⟨-, rfl⟩ | ⟨c, hsome, -⟩ := TcpClient.destructor_eq_ok.1 hdestroy
      · have hstop := (Steady.of_apart Apart.client).trans
          (steady_stop { p with client := { p.client with life := .destructing } })
        exact ⟨hstop.delay, hstop.next⟩
      · rw [hc] at hsome
        cases hsome
  | connectDone socket error =>
    obtain ⟨-, rfl⟩ := connectDone_eq_ok.1 h
    exact .inr ⟨rfl, .inl ⟨rfl, rfl⟩⟩
  | timerExpires timer =>
    obtain ⟨-, rfl⟩ := timerExpires_eq_ok.1 h
    exact .inr ⟨rfl, .inl ⟨rfl, rfl⟩⟩
  | dequeue | return_ | call | keep | keepConnection | drop | consume | receive | readFails
  | transmit | sendFails | accept | destroyServer => exact absurd rfl he

/-! ## The delays of a run -/

/-- The delay before the `n`-th new attempt. -/
def delay (n : Nat) : Nat :=
  doubled Connector.kInitRetryDelayMs Connector.kMaxRetryDelayMs n

/-- The delays are doubled one after the other, and the next one is the delay of the connector. -/
structure BacksOff (s : Backoff) : Prop where
  delays : s.delays = (List.range s.delays.length).map delay
  next : s.process.connector.retryDelayMs_ = delay s.delays.length

/-- Every step keeps the sequence of the delays. -/
theorem BacksOff.step {t : Backoff} {e : ProcessEvent} (h : s.BacksOff)
    (hstep : Backoff.step e s = .ok t) : t.BacksOff := by
  obtain ⟨q, hq, rfl⟩ := Halt.within_eq_ok.1 hstep
  obtain ⟨hrestarts, hdelay⟩ | ⟨hrestarts, hsteady | hdoubles⟩ := step_waits hq
  · have hnil : delaysAfter e s.process q s.delays = [] := if_pos hrestarts
    refine ⟨?_, ?_⟩
    · rw [hnil]
      rfl
    · rw [hnil]
      exact hdelay.trans (doubled_zero (by decide)).symm
  · have hsame : delaysAfter e s.process q s.delays = s.delays := by
      simp [delaysAfter, hrestarts, hsteady.next]
    refine ⟨?_, ?_⟩
    · rw [hsame]
      exact h.delays
    · rw [hsame]
      exact hsteady.delay.trans h.next
  · have hmore : delaysAfter e s.process q s.delays = s.delays ++ [delay s.delays.length] := by
      simp [delaysAfter, hrestarts, hdoubles.next, h.next]
    refine ⟨?_, ?_⟩
    · rw [hmore, List.length_append, List.length_singleton, List.range_succ, List.map_append,
        ← h.delays]
      rfl
    · rw [hmore, List.length_append, List.length_singleton]
      have hnext := hdoubles.delay
      rw [h.next] at hnext
      exact hnext.trans (doubled_succ _ _ _).symm

/-- In every run the `n`-th timer after a restart waits for half a second doubled `n` times, or
for half a minute if that is less, and so will the next one; the doubling stays far below the
largest `int`. -/
theorem backsOff_of_reachable (h : backoffMachine.Reachable s) :
    s.BacksOff ∧ s.process.connector.retryDelayMs_ * 2 < 2 ^ 31 := by
  have hbacks : s.BacksOff := by
    refine h.invariant ?_ fun _ _ _ h _ hstep => h.step hstep
    rintro ⟨p, delays⟩ ⟨⟨baseLoop, pool, clientLoop, ipPort, serverName, clientName, m, w, -, -,
      rfl⟩, rfl⟩
    exact ⟨rfl, rfl⟩
  refine ⟨hbacks, ?_⟩
  have hle : s.process.connector.retryDelayMs_ ≤ Connector.kMaxRetryDelayMs := by
    rw [hbacks.next]
    exact doubled_le _ _ _
  have hmax : Connector.kMaxRetryDelayMs = 30000 := rfl
  omega

/-- Two attempts fail; the connector is stopped and started, and the third fails too. -/
theorem backsOff_three : ∃ s : Backoff, s.delays = [500, 1000, 2000] ∧
    s.BacksOff ∧ s.process.connector.retryDelayMs_ * 2 < 2 ^ 31 := by
  obtain ⟨s, hs, hseen⟩ := Machine.exists_of_run (M := backoffMachine) (C := fun _ _ => True)
    (s := ⟨Process.initial 1 [] 0 [] [] [] false false, []⟩)
    ⟨⟨1, [], 0, [], [], [], false, false, by simp, by simp, rfl⟩, rfl⟩
    (l := [.clientCall 2 .connect, .dequeue 0, .run 0 [], .connectDone 0 (some .other),
      .dequeue 0, .run 0 [], .timerExpires 0, .dequeue 0, .run 0 [], .run 0 [], .run 0 [],
      .connectDone 1 (some .other), .dequeue 0, .run 0 [], .clientCall 2 .stop, .dequeue 0,
      .run 0 [], .dequeue 0, .run 0 [], .clientCall 2 .connect, .dequeue 0, .run 0 [],
      .connectDone 2 (some .other), .dequeue 0, .run 0 []])
    (f := Backoff.delays) (a := [500, 1000, 2000]) (by decide +kernel)
  exact ⟨s, hseen, backsOff_of_reachable hs⟩

end Backoff

end LibNetToy
