import LibNetToy.Net.Faults

/-!
# One attempt at a time

A connector is meant to have one attempt to connect under way, or one retry timer, and to be
in the state `kConnecting` while the attempt lasts.  It keeps only the last socket and the last
timer, and neither `start` nor `restart` looks at what is under way, so this depends on when
they are called: an attempt or a timer may be left over, and an abandoned attempt whose abort is
still outstanding comes back to `retry`.

In a run whose steps are `Orderly` there is never more than one, and the assertion of
`startInLoop` holds.
-/

namespace LibNetToy

namespace Process

/-! ## Attempts and timers -/

/-- The completion handler of an attempt whose socket satisfies `P`. -/
def completes (P : SockId → Bool) : Work → Nat
  | .connector (.handleConnect k _) => if P k then 1 else 0
  | _ => 0

/-- The number of attempts that were started and whose completion handler was not, among
those whose socket satisfies `P`. -/
def outstanding (p : Process) (P : SockId → Bool) : Nat :=
  p.sockets.connecting.countP P + weigh (completes P) p.pending

/-- The number of outstanding attempts that were not abandoned. -/
def attempts (p : Process) : Nat :=
  p.outstanding fun k => !p.sockets.closed.contains k

/-- The callback of an armed timer has not started. -/
def armed (e : TimerId × TimerStatus) : Nat :=
  if e.2 = .running then 0 else 1

def armedTimers (p : Process) : Nat :=
  weigh armed p.timers.timerQueue_

/-- A call of `startInLoop` that is still to be made. -/
def starting : Work → Nat
  | .connector .startInLoop => 1
  | _ => 0

/-- A call of `restart` that is still to be made. -/
def restarting : Work → Nat
  | .connector .restart => 1
  | _ => 0

/-- The handler of a timer that has expired. -/
def fires (id : TimerId) : Work → Nat
  | .handleTimer j none => if j = id then 1 else 0
  | _ => 0

/-- There is at most one attempt or timer, the state tells whether there is an attempt, and the
next step fails no assertion of the connector. -/
structure SingleAttempt (p : Process) : Prop where
  atMostOne : p.attempts + p.armedTimers ≤ 1
  connecting_iff : p.connector.state_ = .kConnecting ↔ 0 < p.attempts
  startInLoop_holds : ∀ e, step e p ≠ .error (.fault (.assertion .startInLoop))
  retry_holds : ∀ e, step e p ≠ .error (.fault (.assertion .retry))

/-- Nothing is under way: no call of `startInLoop`, no attempt, abandoned or not, and no
timer. -/
def Idle (p : Process) : Prop :=
  weigh starting p.pending = 0 ∧ p.outstanding (fun _ => true) = 0 ∧ p.armedTimers = 0

instance (p : Process) : Decidable p.Idle :=
  inferInstanceAs (Decidable (_ ∧ _))

/-- `restart` runs while nothing is under way, and `stopInLoop` finds an attempt only if the
connector was not started again. -/
def RunsOrderly (p : Process) : Option Work → Prop
  | some (.connector .restart) => p.Idle
  | some (.connector .stopInLoop) =>
    p.connector.state_ = .kConnecting → p.connector.connect_ = false
  | _ => True

instance (p : Process) (w : Option Work) : Decidable (p.RunsOrderly w) := by
  unfold RunsOrderly
  split <;> infer_instance

/-- `start` is called on a disconnected connector with nothing under way. -/
def Orderly (p : Process) : ProcessEvent → Prop
  | .clientCall _ .connect => p.connector.state_ = .kDisconnected ∧ p.Idle
  | .connectorCall _ .start => p.connector.state_ = .kDisconnected ∧ p.Idle
  | .run t _ => p.RunsOrderly (p.stackOf t).head?
  | _ => True

instance (p : Process) (e : ProcessEvent) : Decidable (p.Orderly e) := by
  unfold Orderly
  split <;> infer_instance

variable {p q : Process}

/-- Only a completion handler completes an attempt. -/
theorem completes_cases (w : Work) :
    (∃ k e, w = .connector (.handleConnect k e)) ∨ ∀ P, completes P w = 0 := by
  unfold completes
  split
  · exact Or.inl ⟨_, _, rfl⟩
  · exact Or.inr fun _ => rfl

/-- More sockets make more attempts. -/
theorem outstanding_mono {P Q : SockId → Bool} (h : ∀ k, P k = true → Q k = true) :
    p.outstanding P ≤ p.outstanding Q := by
  apply Nat.add_le_add
  · exact List.countP_mono_left fun k _ hk => h k hk
  · apply weigh_mono
    intro w _
    rcases completes_cases w with ⟨k, e, rfl⟩ | hzero
    · cases hP : P k
      · simp [completes, hP]
      · simp [completes, hP, h k hP]
    · rw [hzero P, hzero Q]

/-- Some socket is the one of an outstanding attempt. -/
theorem exists_outstanding {P : SockId → Bool} (h : 0 < p.outstanding P) :
    ∃ k, P k = true ∧ 0 < p.outstanding (· == k) := by
  have hsplit : 0 < p.sockets.connecting.countP P ∨ 0 < weigh (completes P) p.pending := by
    unfold outstanding at h
    omega
  rcases hsplit with h | h
  · obtain ⟨k, hk, hP⟩ := List.countP_pos_iff.1 h
    have hpos : 0 < p.sockets.connecting.countP (· == k) :=
      List.countP_pos_iff.2 ⟨k, hk, beq_self_eq_true k⟩
    exact ⟨k, hP, Nat.lt_of_lt_of_le hpos (Nat.le_add_right _ _)⟩
  · obtain ⟨w, hw, hpos⟩ := exists_of_weigh_pos h
    rcases completes_cases w with ⟨k, e, rfl⟩ | hzero
    · have hP : P k = true := by
        by_contra hno
        simp [completes, hno] at hpos
      have hone : completes (· == k) (.connector (.handleConnect k e)) = 1 := by
        simp [completes]
      have hle := le_weigh (f := completes (· == k)) hw
      rw [hone] at hle
      exact ⟨k, hP, Nat.lt_of_lt_of_le hle (Nat.le_add_left _ _)⟩
    · rw [hzero P] at hpos
      exact absurd hpos (Nat.lt_irrefl 0)

/-- A socket with an outstanding attempt is alive. -/
theorem socketAlive_of_outstanding {k : SockId} (h : 0 < p.outstanding (· == k)) :
    Connector.socketAlive p k = true := by
  have hsplit : 0 < p.sockets.connecting.countP (· == k) ∨
      0 < weigh (completes (· == k)) p.pending := by
    unfold outstanding at h
    omega
  unfold Connector.socketAlive
  rcases hsplit with h | h
  · obtain ⟨j, hj, hjk⟩ := List.countP_pos_iff.1 h
    obtain rfl := beq_iff_eq.1 hjk
    simp [hj]
  · have hle : weigh (completes (· == k)) p.pending ≤
        weigh (Connector.holdsSocket k) p.pending := by
      apply weigh_mono
      intro w _
      rcases completes_cases w with ⟨j, e, rfl⟩ | hzero
      · simp [completes, Connector.holdsSocket]
      · rw [hzero]
        exact Nat.zero_le _
    simp [Nat.lt_of_lt_of_le h hle]

/-! ## The timers -/

/-- Timers have names of their own, and the handler of an expired timer is pending once. -/
structure TimersTracked (p : Process) : Prop where
  nodup : (AssocMap.keys p.timers.timerQueue_).Nodup
  lt : ∀ e ∈ p.timers.timerQueue_, e.1 < p.timers.nextTimer
  once : ∀ id, weigh (fires id) p.pending ≤ 1
  quiet : ∀ e ∈ p.timers.timerQueue_, e.2 ≠ .expired → weigh (fires e.1) p.pending = 0
  fresh : ∀ id, p.timers.nextTimer ≤ id → weigh (fires id) p.pending = 0

namespace TimersTracked

/-- The timers stay, and no handler is added. -/
theorem mono (h : TimersTracked p) (htimers : q.timers = p.timers)
    (hfires : ∀ id, weigh (fires id) q.pending ≤ weigh (fires id) p.pending) :
    TimersTracked q := by
  constructor
  · rw [htimers]
    exact h.nodup
  · rw [htimers]
    exact h.lt
  · intro id
    exact Nat.le_trans (hfires id) (h.once id)
  · intro e he hstatus
    rw [htimers] at he
    exact Nat.le_zero.1 ((h.quiet e he hstatus) ▸ hfires e.1)
  · intro id hid
    rw [htimers] at hid
    exact Nat.le_zero.1 ((h.fresh id hid) ▸ hfires id)

/-- A new timer has no handler yet. -/
theorem addTimer (h : TimersTracked p) (htimers : q.timers = p.timers.addTimer)
    (hpending : q.pending = p.pending) : TimersTracked q := by
  have hkey : p.timers.nextTimer ∉ AssocMap.keys p.timers.timerQueue_ := by
    intro hmem
    obtain ⟨e, he, hek⟩ := List.mem_map.1 hmem
    exact Nat.lt_irrefl _ (hek ▸ h.lt e he)
  constructor
  · rw [htimers]
    rw [TimerQueue.addTimer, AssocMap.keys, List.map_append]
    refine List.nodup_append.2 ⟨h.nodup, by simp, ?_⟩
    intro a ha b hb
    obtain rfl : b = p.timers.nextTimer := List.mem_singleton.1 hb
    rintro rfl
    exact hkey ha
  · rw [htimers]
    intro e he
    rcases List.mem_append.1 he with he | he
    · exact Nat.lt_succ_of_lt (h.lt e he)
    · obtain rfl := List.mem_singleton.1 he
      exact Nat.lt_succ_self _
  · rw [hpending]
    exact h.once
  · rw [htimers, hpending]
    intro e he hstatus
    rcases List.mem_append.1 he with he | he
    · exact h.quiet e he hstatus
    · obtain rfl := List.mem_singleton.1 he
      exact h.fresh _ (Nat.le_refl _)
  · rw [htimers, hpending]
    intro id hid
    exact h.fresh id (Nat.le_of_succ_le hid)

/-- A timer is erased, and no handler is added. -/
theorem erase {id : TimerId} (h : TimersTracked p) (htimers : q.timers = p.timers.erase id)
    (hfires : ∀ id, weigh (fires id) q.pending ≤ weigh (fires id) p.pending) :
    TimersTracked q := by
  have hmem : ∀ e ∈ q.timers.timerQueue_, e ∈ p.timers.timerQueue_ := by
    intro e he
    rw [htimers] at he
    exact (AssocMap.mem_erase.1 he).1
  constructor
  · rw [htimers]
    exact AssocMap.nodup_keys_erase h.nodup
  · intro e he
    rw [htimers]
    exact h.lt e (hmem e he)
  · intro id
    exact Nat.le_trans (hfires id) (h.once id)
  · intro e he hstatus
    exact Nat.le_zero.1 ((h.quiet e (hmem e he) hstatus) ▸ hfires e.1)
  · intro id hid
    rw [htimers] at hid
    exact Nat.le_zero.1 ((h.fresh id hid) ▸ hfires id)

/-- A timer in the map has its status changed, with its handler pending exactly when it has
expired. -/
theorem setStatus {id : TimerId} {s : TimerStatus} (h : TimersTracked p)
    (hid : id ∈ AssocMap.keys p.timers.timerQueue_) (htimers : q.timers = p.timers.setStatus id s)
    (hself : weigh (fires id) q.pending ≤ if s = .expired then 1 else 0)
    (hother : ∀ j, j ≠ id → weigh (fires j) q.pending = weigh (fires j) p.pending) :
    TimersTracked q := by
  have hlt : id < p.timers.nextTimer := by
    obtain ⟨e, he, rfl⟩ := List.mem_map.1 hid
    exact h.lt e he
  constructor
  · rw [htimers]
    unfold TimerQueue.setStatus
    rw [AssocMap.keys_adjust]
    exact h.nodup
  · rw [htimers]
    intro e he
    rcases AssocMap.mem_adjust.1 he with ⟨rfl, -⟩ | ⟨-, he⟩
    · exact hlt
    · exact h.lt e he
  · intro j
    by_cases hj : j = id
    · subst hj
      refine Nat.le_trans hself ?_
      split_ifs <;> omega
    · rw [hother j hj]
      exact h.once j
  · rw [htimers]
    intro e he hstatus
    rcases AssocMap.mem_adjust.1 he with ⟨rfl, -⟩ | ⟨hne, he⟩
    · rw [if_neg hstatus] at hself
      exact Nat.le_zero.1 hself
    · rw [hother e.1 hne]
      exact h.quiet e he hstatus
  · rw [htimers]
    intro j hj
    have hne : j ≠ id := by
      rintro rfl
      exact Nat.lt_irrefl _ (Nat.lt_of_lt_of_le hlt hj)
    rw [hother j hne]
    exact h.fresh j hj

end TimersTracked

/-- A new timer is armed. -/
theorem armedTimers_addTimer (htimers : q.timers = p.timers.addTimer) :
    q.armedTimers = p.armedTimers + 1 := by
  unfold armedTimers
  rw [htimers, TimerQueue.addTimer, weigh_append]
  rfl

/-- Erasing a timer arms none. -/
theorem armedTimers_erase (id : TimerId) :
    weigh armed (p.timers.erase id).timerQueue_ ≤ p.armedTimers := by
  unfold armedTimers TimerQueue.erase AssocMap.erase
  induction p.timers.timerQueue_ with
  | nil => exact Nat.le_refl _
  | cons e l ih =>
    rw [List.filter_cons]
    split_ifs
    · rw [weigh_cons, weigh_cons]
      exact Nat.add_le_add_left ih _
    · rw [weigh_cons]
      exact Nat.le_trans ih (Nat.le_add_left _ _)

/-- Only the timer whose status is set counts differently. -/
theorem armedTimers_setStatus {id : TimerId} {s s' : TimerStatus}
    (h : (AssocMap.keys p.timers.timerQueue_).Nodup) (hs : p.timers.status id = some s) :
    weigh armed (p.timers.setStatus id s').timerQueue_ + armed (id, s) =
      p.armedTimers + armed (id, s') :=
  AssocMap.weigh_adjust h (AssocMap.mem_of_lookup hs) armed

/-! ## The invariant -/

/-- A call of `startInLoop`, an attempt or a timer: there is one at most, and the connector
knows of it. -/
structure Single (p : Process) : Prop where
  timers : TimersTracked p
  one : weigh starting p.pending + p.outstanding (fun _ => true) + p.armedTimers ≤ 1
  idle : 0 < weigh starting p.pending + p.armedTimers → p.connector.state_ = .kDisconnected
  weak : ∀ k, 0 < p.outstanding (· == k) → p.connector.socketWeakPtr_ = some k
  connecting : p.connector.state_ = .kConnecting ↔ 0 < p.attempts
  weak_lt : ∀ k, p.connector.socketWeakPtr_ = some k → k < p.sockets.nextSocket
  closed_lt : ∀ k ∈ p.sockets.closed, k < p.sockets.nextSocket

/-- The attempts are counted by their sockets and pending completions. -/
theorem outstanding_congr (hsockets : q.sockets = p.sockets)
    (hcompletes : ∀ P, weigh (completes P) q.pending = weigh (completes P) p.pending)
    (P : SockId → Bool) : q.outstanding P = p.outstanding P := by
  unfold outstanding
  rw [hsockets, hcompletes]

/-- A step that leaves the connector and its attempts as they are and adds no timer. -/
theorem Single.same (h : Single p) (htimers : TimersTracked q)
    (hstate : q.connector.state_ = p.connector.state_)
    (hweak : q.connector.socketWeakPtr_ = p.connector.socketWeakPtr_)
    (hsockets : q.sockets = p.sockets)
    (hcompletes : ∀ P, weigh (completes P) q.pending = weigh (completes P) p.pending)
    (hidle : weigh starting q.pending + q.armedTimers ≤
      weigh starting p.pending + p.armedTimers) : Single q := by
  have hout := outstanding_congr hsockets hcompletes
  constructor
  · exact htimers
  · have hone := h.one
    rw [hout]
    omega
  · intro hpos
    rw [hstate]
    exact h.idle (by omega)
  · intro k hk
    rw [hout] at hk
    rw [hweak]
    exact h.weak k hk
  · rw [hstate, attempts, hout, hsockets]
    exact h.connecting
  · rw [hweak, hsockets]
    exact h.weak_lt
  · rw [hsockets]
    exact h.closed_lt

/-! ## Steps -/

/-- Work of others is no call of `startInLoop`. -/
theorem starting_ofConnector {w : Work} (hw : w.ofConnector = false) : starting w = 0 := by
  unfold starting
  split
  · cases hw
  · rfl

/-- Work of others completes no attempt. -/
theorem completes_ofConnector {P : SockId → Bool} {w : Work} (hw : w.ofConnector = false) :
    completes P w = 0 := by
  unfold completes
  split
  · cases hw
  · rfl

/-- Work of others is no handler of a timer. -/
theorem fires_ofConnector {id : TimerId} {w : Work} (hw : w.ofConnector = false) :
    fires id w = 0 := by
  unfold fires
  split
  · cases hw
  · rfl

/-- The work item neither starts nor completes an attempt. -/
def IsQuiet (w : Work) : Prop :=
  starting w = 0 ∧ (∀ P, completes P w = 0) ∧ ∀ id, fires id w = 0

/-- Taking a work item away that does not complete an attempt. -/
theorem Single.pop {t : ThreadId} {w : Work} {rest : List (ThreadId × Work)} (h : Single p)
    (htake : Keyed.takeFirst t p.stack = some (w, rest)) (hw : ∀ P, completes P w = 0) :
    Single { p with stack := rest } := by
  refine h.same ?_ rfl rfl rfl ?_ ?_
  · refine h.timers.mono rfl ?_
    intro id
    rw [weigh_pop (fires id) htake]
    exact Nat.le_add_left _ _
  · intro P
    rw [weigh_pop (completes P) htake, hw P, Nat.zero_add]
  · rw [weigh_pop starting htake, Nat.add_assoc]
    exact Nat.le_add_left _ _

/-- Scheduling quiet work changes nothing. -/
theorem Single.schedule {t : ThreadId} {calls : List Work} {posts : List (LoopId × Work)}
    (h : Single p) (hcalls : ∀ w ∈ calls, IsQuiet w) (hposts : ∀ e ∈ posts, IsQuiet e.2) :
    Single (p.schedule t calls posts) := by
  have hzero : ∀ f : Work → Nat, (∀ w, IsQuiet w → f w = 0) →
      weigh f (p.schedule t calls posts).pending = weigh f p.pending := by
    intro f hf
    have hc : weigh f calls = 0 := weigh_eq_zero.2 fun w hw => hf w (hcalls w hw)
    have hp : weigh f (posts.map Prod.snd) = 0 := by
      apply weigh_eq_zero.2
      intro w hw
      obtain ⟨e, he, rfl⟩ := List.mem_map.1 hw
      exact hf e.2 (hposts e he)
    rw [weigh_schedule, hc, hp]
    rfl
  refine h.same ?_ rfl rfl rfl ?_ ?_
  · refine h.timers.mono rfl ?_
    intro id
    exact Nat.le_of_eq (hzero _ fun w hw => hw.2.2 id)
  · intro P
    exact hzero _ fun w hw => hw.2.1 P
  · rw [hzero _ fun w hw => hw.1]
    exact Nat.le_refl _

/-- Work of others is quiet. -/
theorem isQuiet_ofConnector {w : Work} (hw : w.ofConnector = false) : IsQuiet w :=
  ⟨starting_ofConnector hw, fun _ => completes_ofConnector hw, fun _ => fires_ofConnector hw⟩

/-- What the connector does not see starts no attempt. -/
theorem Single.apart (h : Single p) (ha : Apart p q) : Single q := by
  have hconnector := ha.connector
  refine h.same ?_ (by rw [hconnector]) (by rw [hconnector]) ha.sockets ?_ ?_
  · apply h.timers.mono ha.timers
    intro id
    exact Nat.le_of_eq (ha.pending (fires id) fun w => fires_ofConnector)
  · intro P
    exact ha.pending (completes P) fun w => completes_ofConnector
  · unfold armedTimers
    rw [ha.timers, ha.pending starting fun w => starting_ofConnector]

/-- Fields of the client, and those of the connector that decide when to retry, do not
matter. -/
theorem Single.client (h : Single p) (s : TcpClient) : Single { p with client := s } :=
  h.apart Apart.client

/-- Setting `connect_` starts no attempt. -/
theorem Single.connect (h : Single p) (b : Bool) :
    Single { p with connector := { p.connector with connect_ := b } } :=
  h.same (h.timers.mono rfl fun _ => Nat.le_refl _) rfl rfl rfl (fun _ => rfl) (Nat.le_refl _)

/-- `stop` adds nothing, and it may take a timer away. -/
theorem Single.stop (h : Single p) : Single (Connector.stop p) := by
  have hstopped : Single ({ p with
      connector := { p.connector with connect_ := false }
      queue := p.queue ++ [(p.connector.loop_, .connector .stopInLoop)] } : Process) := by
    refine h.same ?_ rfl rfl rfl ?_ ?_
    · refine h.timers.mono rfl ?_
      intro id
      exact Nat.le_of_eq (weigh_post (fires id) p _ _)
    · intro P
      exact weigh_post (completes P) p _ _
    · exact Nat.add_le_add_right (Nat.le_of_eq (weigh_post starting p _ _)) _
  unfold Connector.stop
  rcases TimerQueue.cancel_cases { p with
      connector := { p.connector with connect_ := false }
      queue := p.queue ++ [(p.connector.loop_, .connector .stopInLoop)] }
      p.connector.reConnectTimer_ with hc | ⟨id, -, -, hc⟩ | ⟨id, s, -, -, -, hc⟩
  · rw [hc]
    exact hstopped
  · rw [hc]
    refine hstopped.same ?_ rfl rfl rfl ?_ ?_
    · refine hstopped.timers.erase rfl ?_
      intro j
      exact Nat.le_of_eq (weigh_post (fires j) _ _ _)
    · intro P
      exact weigh_post (completes P) _ _ _
    · exact Nat.add_le_add (Nat.le_of_eq (weigh_post starting _ _ _)) (armedTimers_erase id)
  · rw [hc]
    refine hstopped.same ?_ rfl rfl rfl (fun _ => rfl) ?_
    · exact hstopped.timers.erase rfl fun j => Nat.le_refl _
    · exact Nat.add_le_add_left (armedTimers_erase id) _

/-- `start` is called while nothing is under way. -/
theorem Single.start (h : Single p) (hstate : p.connector.state_ = .kDisconnected)
    (hidle : p.Idle) (t : ThreadId) : Single (Connector.start p t) := by
  obtain ⟨hstarting, hout, harmed⟩ := hidle
  have hadd : ∀ f : Work → Nat, weigh f (Connector.start p t).pending =
      weigh f p.pending + f (.connector .startInLoop) := by
    intro f
    unfold Connector.start
    rw [weigh_schedule, Nat.add_assoc, weigh_runInLoop]
    rfl
  have hcompletes : ∀ P, weigh (completes P) (Connector.start p t).pending =
      weigh (completes P) p.pending := fun P => hadd _
  have houtq := outstanding_congr (p := p) (q := Connector.start p t) rfl hcompletes
  constructor
  · refine h.timers.mono rfl ?_
    intro id
    exact Nat.le_of_eq (hadd _)
  · have hq : (Connector.start p t).armedTimers = p.armedTimers := rfl
    rw [hadd, houtq, hq, hstarting, hout, harmed]
    exact Nat.le_refl _
  · intro _
    exact hstate
  · intro k hk
    rw [houtq] at hk
    exact h.weak k hk
  · rw [attempts, houtq]
    exact h.connecting
  · exact h.weak_lt
  · exact h.closed_lt

/-- Nothing is outstanding for any socket when nothing is outstanding. -/
theorem outstanding_eq_zero (h : p.outstanding (fun _ => true) = 0) (P : SockId → Bool) :
    p.outstanding P = 0 :=
  Nat.le_zero.1 (h ▸ outstanding_mono fun _ _ => rfl)

/-- An attempt is started while nothing is under way. -/
theorem Single.beginAttempt {c : Connector} (h : Single p) (hidle : p.Idle)
    (hstate : c.state_ = .kConnecting) (hweak : c.socketWeakPtr_ = some p.sockets.nextSocket) :
    Single { p with
      connector := c
      sockets := { p.sockets with
        nextSocket := p.sockets.nextSocket + 1
        connecting := p.sockets.connecting ++ [p.sockets.nextSocket] } } := by
  obtain ⟨hstarting, hout, harmed⟩ := hidle
  have hnew : ∀ P, Process.outstanding { p with
      connector := c
      sockets := { p.sockets with
        nextSocket := p.sockets.nextSocket + 1
        connecting := p.sockets.connecting ++ [p.sockets.nextSocket] } } P =
      if P p.sockets.nextSocket = true then 1 else 0 := by
    intro P
    have hzero := outstanding_eq_zero hout P
    unfold outstanding at hzero ⊢
    rw [List.countP_append, List.countP_singleton]
    have hpending : weigh (completes P) (Process.pending { p with
      connector := c
      sockets := { p.sockets with
        nextSocket := p.sockets.nextSocket + 1
        connecting := p.sockets.connecting ++ [p.sockets.nextSocket] } }) =
      weigh (completes P) p.pending := rfl
    rw [hpending]
    omega
  constructor
  · exact h.timers.mono rfl fun _ => Nat.le_refl _
  · rw [hnew]
    show weigh starting p.pending + 1 + p.armedTimers ≤ 1
    omega
  · intro hpos
    have hzero : weigh starting p.pending + p.armedTimers = 0 := by omega
    exact absurd hpos (Nat.not_lt.2 (Nat.le_of_eq hzero))
  · intro k hk
    rw [hnew] at hk
    split_ifs at hk with hkey
    · rw [← beq_iff_eq.1 hkey]
      exact hweak
    · exact absurd hk (Nat.lt_irrefl 0)
  · constructor
    · intro _
      rw [attempts, hnew]
      have hopen : p.sockets.nextSocket ∉ p.sockets.closed := by
        intro hmem
        exact Nat.lt_irrefl _ (h.closed_lt _ hmem)
      simp [hopen]
    · intro _
      exact hstate
  · intro k hk
    rw [hweak] at hk
    obtain rfl := Option.some.inj hk
    exact Nat.lt_succ_self _
  · intro k hk
    exact Nat.lt_succ_of_lt (h.closed_lt k hk)

/-- `startInLoop` makes an attempt of the call that is pending. -/
theorem Single.startInLoop {t : ThreadId} {rest : List (ThreadId × Work)} (h : Single p)
    (htake : Keyed.takeFirst t p.stack = some (.connector .startInLoop, rest))
    (hexec : Connector.startInLoop { p with stack := rest } t = .ok q) : Single q := by
  have hpop := h.pop htake fun _ => rfl
  have hone := h.one
  rw [weigh_pop starting htake] at hone
  have hstart : starting (.connector .startInLoop) = 1 := rfl
  have hidle : Idle { p with stack := rest } := by
    have hout := h.one
    have hsame : Process.outstanding { p with stack := rest } (fun _ => true) =
        p.outstanding fun _ => true := by
      unfold outstanding
      rw [weigh_pop (completes _) htake]
      exact congrArg _ (Nat.zero_add _).symm
    have harmed : Process.armedTimers { p with stack := rest } = p.armedTimers := rfl
    unfold Idle
    rw [hsame, harmed]
    omega
  rcases Connector.startInLoop_eq_ok.1 hexec with ⟨-, ⟨-, -, rfl⟩ | ⟨-, rfl⟩⟩
  · exact hpop.beginAttempt hidle rfl rfl
  · exact hpop

/-- Nothing but a timer may be under way, and the connector is not connecting. -/
theorem Single.settled (htimers : TimersTracked q) (hstarting : weigh starting q.pending = 0)
    (hout : q.outstanding (fun _ => true) = 0) (harmed : q.armedTimers ≤ 1)
    (hstate : q.connector.state_ ≠ .kConnecting)
    (hidle : 0 < q.armedTimers → q.connector.state_ = .kDisconnected)
    (hweak : ∀ k, q.connector.socketWeakPtr_ = some k → k < q.sockets.nextSocket)
    (hclosed : ∀ k ∈ q.sockets.closed, k < q.sockets.nextSocket) : Single q := by
  constructor
  · exact htimers
  · omega
  · intro hpos
    exact hidle (by omega)
  · intro k hk
    rw [outstanding_eq_zero hout] at hk
    exact absurd hk (Nat.lt_irrefl 0)
  · rw [attempts, outstanding_eq_zero hout]
    constructor
    · intro hc
      exact absurd hc hstate
    · intro hc
      exact absurd hc (Nat.lt_irrefl 0)
  · exact hweak
  · exact hclosed

/-- The completion of the only attempt leaves nothing under way. -/
theorem Single.idle_of_handleConnect {t : ThreadId} {k : SockId} {error : Option ErrorCode}
    {rest : List (ThreadId × Work)} (h : Single p)
    (htake : Keyed.takeFirst t p.stack = some (.connector (.handleConnect k error), rest)) :
    Idle { p with stack := rest } := by
  have hone := h.one
  have hout : p.outstanding (fun _ => true) =
      Process.outstanding { p with stack := rest } (fun _ => true) + 1 := by
    unfold outstanding
    rw [weigh_pop (completes _) htake]
    simp only [completes, if_true]
    omega
  have hstarting : weigh starting p.pending =
      weigh starting ({ p with stack := rest } : Process).pending := by
    rw [weigh_pop starting htake]
    exact Nat.zero_add _
  have harmed : Process.armedTimers { p with stack := rest } = p.armedTimers := rfl
  unfold Idle
  rw [harmed]
  omega

/-- `handleConnect` ends the attempt, and may arm a timer. -/
theorem Single.handleConnect {t : ThreadId} {k : SockId} {error : Option ErrorCode}
    {rest : List (ThreadId × Work)} (h : Single p)
    (htake : Keyed.takeFirst t p.stack = some (.connector (.handleConnect k error), rest))
    (hexec : Connector.handleConnect { p with stack := rest } t k error = .ok q) :
    Single q := by
  obtain ⟨hstarting, hout, harmed⟩ := h.idle_of_handleConnect htake
  have htimers : TimersTracked { p with stack := rest } := by
    refine h.timers.mono rfl ?_
    intro id
    rw [weigh_pop (fires id) htake]
    exact Nat.le_add_left _ _
  cases error with
  | none =>
    obtain rfl := pure_eq_ok.1 hexec
    refine Single.settled ?_ ?_ ?_ ?_ ?_ ?_ h.weak_lt h.closed_lt
    · refine htimers.mono rfl ?_
      intro id
      rw [weigh_schedule]
      exact Nat.le_refl _
    · rw [weigh_schedule]
      exact hstarting
    · unfold outstanding
      rw [weigh_schedule]
      exact hout
    · exact Nat.le_trans (Nat.le_of_eq harmed) (Nat.zero_le _)
    · intro hc
      cases hc
    · intro hpos
      exact absurd harmed (Nat.ne_of_gt hpos)
  | some e =>
    have hretry : Connector.retry { p with
      stack := rest
      connector := { p.connector with state_ := .kDisconnected } } (some k) = .ok q := hexec
    rcases Connector.retry_eq_ok.1 hretry with ⟨-, rfl⟩ | ⟨j, hj, -, -, ⟨-, rfl⟩ | ⟨-, rfl⟩⟩
    · refine Single.settled ?_ hstarting hout ?_ ?_ (fun _ => rfl) h.weak_lt h.closed_lt
      · exact htimers.mono rfl fun _ => Nat.le_refl _
      · exact Nat.le_trans (Nat.le_of_eq harmed) (Nat.zero_le _)
      · intro hc
        cases hc
    · refine Single.settled ?_ hstarting hout ?_ ?_ (fun _ => rfl) h.weak_lt ?_
      · exact htimers.addTimer rfl rfl
      · have hadd := armedTimers_addTimer (p := { p with stack := rest })
          (q := { p with timers := p.timers.addTimer }) rfl
        rw [harmed] at hadd
        exact Nat.le_of_eq hadd
      · intro hc
        cases hc
      · intro i hi
        rcases List.mem_cons.1 hi with rfl | hi
        · exact h.weak_lt i hj
        · exact h.closed_lt i hi
    · refine Single.settled ?_ hstarting hout ?_ ?_ (fun _ => rfl) h.weak_lt ?_
      · exact htimers.mono rfl fun _ => Nat.le_refl _
      · exact Nat.le_trans (Nat.le_of_eq harmed) (Nat.zero_le _)
      · intro hc
        cases hc
      · intro i hi
        rcases List.mem_cons.1 hi with rfl | hi
        · exact h.weak_lt i hj
        · exact h.closed_lt i hi

/-- `stopInLoop` abandons the attempt; its completion stays outstanding. -/
theorem Single.stopInLoop {t : ThreadId} (h : Single p)
    (hstopped : p.connector.state_ = .kConnecting → p.connector.connect_ = false)
    (hexec : Connector.stopInLoop p t = .ok q) : Single q := by
  obtain ⟨-, ⟨hstate, hretry⟩ | ⟨-, rfl⟩⟩ := Connector.stopInLoop_eq_ok.1 hexec
  · obtain ⟨k, hkopen, hk⟩ := exists_outstanding (h.connecting.1 hstate)
    have hweak := h.weak k hk
    have hone := h.one
    have htotal : p.outstanding (· == k) ≤ p.outstanding fun _ => true :=
      outstanding_mono fun _ _ => rfl
    rcases Connector.retry_eq_ok.1 hretry with ⟨hdead, -⟩ |
      ⟨j, hj, -, -, ⟨hconnect, -⟩ | ⟨-, rfl⟩⟩
    · have hno := (hdead k hweak).2
      rw [show Connector.socketAlive { p with
        connector := { p.connector with state_ := .kDisconnected } } k = true from
          socketAlive_of_outstanding (p := p) hk] at hno
      cases hno
    · rw [show p.connector.connect_ = true from hconnect] at hstopped
      cases hstopped hstate
    · have hjk : j = k := Option.some.inj (hj.symm.trans hweak)
      subst hjk
      constructor
      · exact h.timers.mono rfl fun _ => Nat.le_refl _
      · exact hone
      · intro _
        rfl
      · exact h.weak
      · constructor
        · intro hc
          cases hc
        · intro hpos
          obtain ⟨i, hi, hpos⟩ := exists_outstanding hpos
          have hij : some j = some i := hweak.symm.trans (h.weak i hpos)
          obtain rfl := Option.some.inj hij
          simp at hi
      · exact h.weak_lt
      · intro i hi
        rcases List.mem_cons.1 hi with rfl | hi
        · exact h.weak_lt i hweak
        · exact h.closed_lt i hi
  · exact h

/-- The handler of a timer calls `startInLoop`. -/
theorem Single.handleTimer {t : ThreadId} {id : TimerId} {error : Option ErrorCode}
    {rest : List (ThreadId × Work)} (h : Single p)
    (htake : Keyed.takeFirst t p.stack = some (.handleTimer id error, rest)) :
    Single (TimerQueue.handleTimer { p with stack := rest } t id error) := by
  have hpop := h.pop htake fun _ => rfl
  rcases TimerQueue.handleTimer_cases { p with stack := rest } t id error with
    ⟨-, hq⟩ | ⟨hsome, rfl, hq⟩ | ⟨-, -, hq⟩
  · rw [hq]
    exact hpop
  · rw [hq]
    obtain ⟨s, hs⟩ := Option.ne_none_iff_exists'.1 hsome
    have hmem := AssocMap.mem_of_lookup hs
    have hfires : weigh (fires id) p.pending =
        weigh (fires id) ({ p with stack := rest } : Process).pending + 1 := by
      rw [weigh_pop (fires id) htake]
      simp [fires, Nat.add_comm]
    have honce := h.timers.once id
    have hexpired : s = .expired := by
      by_contra hne
      have hzero : weigh (fires id) p.pending = 0 := h.timers.quiet (id, s) hmem hne
      omega
    subst hexpired
    have hself : weigh (fires id) ({ p with stack := rest } : Process).pending = 0 := by omega
    refine hpop.same ?_ rfl rfl rfl ?_ ?_
    · refine hpop.timers.setStatus (s := .running) (List.mem_map.2 ⟨_, hmem, rfl⟩) rfl ?_ ?_
      · rw [weigh_schedule]
        exact Nat.le_of_eq hself
      · intro j _
        rw [weigh_schedule]
        rfl
    · intro P
      rw [weigh_schedule]
      rfl
    · have hset : weigh armed (p.timers.setStatus id .running).timerQueue_ + 1 =
          p.armedTimers + 0 := armedTimers_setStatus hpop.timers.nodup hs
      have hsum : weigh starting ({ p with stack := rest } : Process).pending + 1 + 0 +
            weigh armed (p.timers.setStatus id .running).timerQueue_ ≤
          weigh starting ({ p with stack := rest } : Process).pending + p.armedTimers := by
        omega
      rw [weigh_schedule]
      exact hsum
  · rw [hq]
    refine hpop.same ?_ rfl rfl rfl (fun _ => rfl) ?_
    · exact hpop.timers.erase rfl fun j => Nat.le_refl _
    · exact Nat.add_le_add_left (armedTimers_erase id) _

/-- A timer that expires is armed no more, and its handler is queued. -/
theorem Single.timerExpires {id : TimerId} (h : Single p)
    (hwaiting : p.timers.status id = some .waiting) : Single { p with
      timers := p.timers.setStatus id .expired
      queue := p.queue ++ [(p.connector.loop_, .handleTimer id none)] } := by
  have hmem := AssocMap.mem_of_lookup hwaiting
  refine h.same ?_ rfl rfl rfl ?_ ?_
  · refine h.timers.setStatus (s := .expired) (List.mem_map.2 ⟨_, hmem, rfl⟩) rfl ?_ ?_
    · have hquiet : weigh (fires id) p.pending = 0 :=
        h.timers.quiet (id, .waiting) hmem (by simp)
      refine Nat.le_of_eq ((weigh_post (fires id) p _ _).trans ?_)
      rw [hquiet]
      simp [fires]
    · intro j hj
      refine (weigh_post (fires j) p _ _).trans ?_
      simp [fires, hj.symm]
  · intro P
    exact weigh_post (completes P) p _ _
  · have hset : weigh armed (p.timers.setStatus id .expired).timerQueue_ + 1 =
        p.armedTimers + 1 := armedTimers_setStatus h.timers.nodup hwaiting
    have hsum : weigh starting p.pending + 0 +
          weigh armed (p.timers.setStatus id .expired).timerQueue_ ≤
        weigh starting p.pending + p.armedTimers := by
      omega
    refine Nat.le_trans (Nat.le_of_eq ?_) hsum
    exact congrArg (· + weigh armed (p.timers.setStatus id .expired).timerQueue_)
      (weigh_post starting p _ _)

/-- An attempt that completes is outstanding until its handler runs. -/
theorem outstanding_connectDone {k : SockId} (error : Option ErrorCode)
    (hk : k ∈ p.sockets.connecting) (P : SockId → Bool) : Process.outstanding { p with
      sockets := { p.sockets with connecting := p.sockets.connecting.erase k }
      queue := p.queue ++ [(p.connector.loop_, .connector (.handleConnect k error))] } P =
      p.outstanding P := by
  have hperm := (List.perm_cons_erase hk).countP_eq P
  have hpending := weigh_post (completes P) p p.connector.loop_
    (.connector (.handleConnect k error))
  have hweight : completes P (.connector (.handleConnect k error)) =
      if P k = true then 1 else 0 := rfl
  rw [List.countP_cons] at hperm
  rw [hweight] at hpending
  show (p.sockets.connecting.erase k).countP P + weigh (completes P) _ =
    p.sockets.connecting.countP P + weigh (completes P) p.pending
  refine (congrArg _ hpending).trans ?_
  omega

/-- An attempt that is completed has its handler queued. -/
theorem Single.connectDone {k : SockId} {error : Option ErrorCode} (h : Single p)
    (hk : k ∈ p.sockets.connecting) : Single { p with
      sockets := { p.sockets with connecting := p.sockets.connecting.erase k }
      queue := p.queue ++ [(p.connector.loop_, .connector (.handleConnect k error))] } := by
  have hout := outstanding_connectDone error hk
  constructor
  · refine h.timers.mono rfl ?_
    intro id
    exact Nat.le_of_eq (weigh_post (fires id) p _ _)
  · rw [hout]
    refine Nat.le_trans (Nat.le_of_eq ?_) h.one
    exact congrArg (· + p.outstanding (fun _ => true) + p.armedTimers)
      (weigh_post starting p _ _)
  · intro hpos
    apply h.idle
    refine Nat.lt_of_lt_of_eq hpos ?_
    exact congrArg (· + p.armedTimers) (weigh_post starting p _ _)
  · intro j hj
    rw [hout] at hj
    exact h.weak j hj
  · rw [attempts, hout]
    exact h.connecting
  · exact h.weak_lt
  · exact h.closed_lt

/-- `restart` on an idle connector starts the only attempt. -/
theorem Single.restart {t : ThreadId} {rest : List (ThreadId × Work)} (h : Single p)
    (hidle : p.Idle) (htake : Keyed.takeFirst t p.stack = some (.connector .restart, rest))
    (hexec : Connector.restart { p with stack := rest } t = .ok q) : Single q := by
  obtain ⟨-, rfl⟩ := Connector.restart_eq_ok.1 hexec
  have hpop := h.pop htake fun _ => rfl
  refine hpop.beginAttempt ?_ rfl rfl
  obtain ⟨hstarting, hout, harmed⟩ := hidle
  refine ⟨?_, ?_, harmed⟩
  · rw [weigh_pop starting htake] at hstarting
    omega
  · unfold outstanding at hout ⊢
    rw [weigh_pop (completes _) htake] at hout
    have hsockets : ({ p with stack := rest } : Process).sockets = p.sockets := rfl
    rw [hsockets]
    omega

/-- Running a work item keeps the attempts single. -/
theorem Single.exec {t : ThreadId} {peer : List Char} {w : Work}
    {rest : List (ThreadId × Work)} (h : Single p)
    (htake : Keyed.takeFirst t p.stack = some (w, rest)) (horderly : p.RunsOrderly (some w))
    (hexec : ({ p with stack := rest } : Process).exec t peer w = .ok q) : Single q := by
  by_cases hside : w.ofConnector = false
  · have hpop := h.pop htake fun _ => completes_ofConnector hside
    by_cases hremove : ∃ c, w = .client (.removeConnection c)
    · obtain ⟨c, rfl⟩ := hremove
      obtain ⟨-, hexec⟩ := exec_client_eq_ok.1 hexec
      obtain ⟨-, -, -, rfl⟩ := TcpClient.removeConnection_eq_ok.1 hexec
      refine Single.schedule (hpop.client _) ?_ ?_
      · intro w hw
        rcases List.mem_cons.1 hw with rfl | hw
        · exact isQuiet_ofConnector rfl
        · split_ifs at hw
          · obtain rfl := List.mem_singleton.1 hw
            exact ⟨rfl, fun _ => rfl, fun _ => rfl⟩
          · cases hw
      · intro e he
        obtain rfl := List.mem_singleton.1 he
        exact isQuiet_ofConnector rfl
    · exact hpop.apart (exec_apart hexec hside fun c hc => hremove ⟨c, hc⟩)
  cases w with
  | conn | bound | setCloseCallback | server => exact absurd rfl hside
  | connector k =>
    obtain ⟨-, hexec⟩ := Connector.exec_eq_ok.1 hexec
    cases k with
    | startInLoop => exact h.startInLoop htake hexec
    | stopInLoop => exact (h.pop htake fun _ => rfl).stopInLoop horderly hexec
    | restart => exact h.restart horderly htake hexec
    | handleConnect k error => exact h.handleConnect htake hexec
  | client k =>
    obtain ⟨-, hexec⟩ := exec_client_eq_ok.1 hexec
    cases k with
    | removeConnection c => exact absurd rfl hside
    | destroyed => exact absurd rfl hside
    | newConnection socket =>
      have hpop := h.pop htake fun _ => rfl
      obtain ⟨-, rfl⟩ := TcpClient.newConnection_eq_ok.1 hexec
      have hmade : Single { p with
          stack := rest
          conns := Function.update p.conns p.nextConn (Connection.make
            (TcpConnection.make p.client.loop_ (p.client.connName peer)
              p.client.messageCallback_ p.client.writeCompleteCallback_) .client (some socket))
          nextConn := p.nextConn + 1
          client := { p.client with
            nextConnId_ := nextInt p.client.nextConnId_
            connection_ := some p.nextConn } } :=
        hpop.apart ⟨rfl, rfl, rfl, SamePending.of_eq rfl rfl⟩
      refine Single.schedule hmade ?_ (by simp)
      intro w hw
      rcases List.mem_append.1 hw with hw | hw
      · exact isQuiet_ofConnector (releases_ofConnector _ w hw)
      · simp only [List.mem_cons, List.not_mem_nil, or_false] at hw
        rcases hw with rfl | rfl <;> exact isQuiet_ofConnector rfl
  | handleTimer timer error =>
    obtain rfl := pure_eq_ok.1 hexec
    exact h.handleTimer htake
  | eraseTimer timer =>
    obtain rfl := pure_eq_ok.1 hexec
    have hpop := h.pop htake fun _ => rfl
    refine hpop.same ?_ rfl rfl rfl (fun _ => rfl) ?_
    · exact hpop.timers.erase rfl fun j => Nat.le_refl _
    · exact Nat.add_le_add_left (armedTimers_erase timer) _

/-- An orderly step keeps the attempts single. -/
theorem Single.step {e : ProcessEvent} (h : Single p) (horderly : p.Orderly e)
    (hstep : Process.step e p = .ok q) : Single q := by
  by_cases he : e.onConnector = false
  · exact h.apart (step_apart hstep he)
  cases e with
  | run t peer =>
    obtain ⟨w, rest, htake, -, hexec⟩ := run_eq_ok.1 hstep
    have hw : p.RunsOrderly (p.stackOf t).head? := horderly
    rw [head_stackOf htake] at hw
    exact h.exec htake hw hexec
  | clientCall t x =>
    obtain ⟨-, rfl⟩ := clientCall_eq_ok.1 hstep
    cases x with
    | connect =>
      obtain ⟨hstate, hidle⟩ := horderly
      have hclient := h.client { p.client with connect_ := true }
      exact hclient.start hstate hidle t
    | stop => exact (h.client _).stop
    | disconnect | enableRetry => exact absurd rfl he
  | connectorCall t x =>
    obtain ⟨-, rfl⟩ := connectorCall_eq_ok.1 hstep
    cases x with
    | start =>
      obtain ⟨hstate, hidle⟩ := horderly
      exact h.start hstate hidle t
    | stop => exact h.stop
    | restart =>
      refine h.schedule ?_ nofun
      intro w hw
      rw [List.mem_singleton.1 hw]
      exact ⟨rfl, fun _ => rfl, fun _ => rfl⟩
  | destroyClient t =>
    obtain ⟨-, hstep⟩ := destroyClient_eq_ok.1 hstep
    cases hc : p.client.connection_ with
    | some c => exact h.apart (destructor_apart hc hstep)
    | none =>
      rcases TcpClient.destructor_eq_ok.1 hstep with ⟨-, rfl⟩ | ⟨c, hsome, -⟩
      · refine Single.apart ?_ (Apart.schedule ?_ ?_)
        · exact (h.client _).stop
        · simp [Work.ofConnector]
        · simp
      · rw [hc] at hsome
        cases hsome
  | connectDone socket error =>
    obtain ⟨⟨hmem, -⟩, rfl⟩ := connectDone_eq_ok.1 hstep
    exact h.connectDone hmem
  | timerExpires timer =>
    obtain ⟨hwaiting, rfl⟩ := timerExpires_eq_ok.1 hstep
    exact h.timerExpires hwaiting
  | dequeue | return_ | call | keep | keepConnection | drop | consume | receive | readFails
  | transmit | sendFails | accept | destroyServer => exact absurd rfl he

/-! ## The results -/

/-- There is no attempt at first. -/
theorem single_initial (hp : processMachine.init p) : Single p := by
  obtain ⟨baseLoop, pool, clientLoop, ipPort, serverName, clientName, m, w, -, -, rfl⟩ := hp
  refine Single.settled ?_ rfl rfl (Nat.zero_le 1) ?_ (fun _ => rfl) ?_ ?_
  · constructor
    · exact List.nodup_nil
    · intro e he
      cases he
    · intro id
      exact Nat.zero_le 1
    · intro e he
      cases he
    · intro id _
      rfl
  · intro h
    cases h
  · intro k hk
    cases hk
  · intro k hk
    cases hk

/-- At most one of the things that lead to an attempt is there. -/
theorem Single.singleAttempt (h : Single p) : p.SingleAttempt := by
  constructor
  · have hone := h.one
    have hle : p.attempts ≤ p.outstanding fun _ => true := outstanding_mono fun _ _ => rfl
    omega
  · exact h.connecting
  · intro e he
    obtain ⟨t, peer, w, rest, -, htake, hfails⟩ := step_fails he rfl (by simp)
    cases hfails with
    | startInLoop hstate =>
      apply hstate
      apply h.idle
      rw [weigh_pop starting htake]
      simp only [starting]
      omega
  · intro e he
    obtain ⟨t, peer, w, rest, -, htake, hfails⟩ := step_fails he rfl (by simp)
    cases hfails

/-- In an orderly run there is at most one attempt or timer in every state, and no assertion of
the connector fails. -/
theorem singleAttempt_of_orderly (hp : processMachine.ReachableUnder Orderly p) :
    p.SingleAttempt := by
  have h : Single p :=
    hp.invariant (fun _ => single_initial) fun _ _ _ h hC hstep => h.step hC hstep
  exact h.singleAttempt

/-- An attempt fails and is retried when the timer has expired. -/
theorem singleAttempt_retried : ∃ p : Process,
    (p.attempts, p.armedTimers, p.connector.state_) = (1, 0, .kConnecting) ∧
      p.SingleAttempt := by
  have hinit : processMachine.init (initial 1 [] 0 [] [] [] false false) :=
    ⟨1, [], 0, [], [], [], false, false, by simp, by simp, rfl⟩
  obtain ⟨p, hp, hobs⟩ := Machine.exists_of_run (C := Orderly) hinit
    (l := [.clientCall 2 .connect, .dequeue 0, .run 0 [], .connectDone 0 (some .other),
      .dequeue 0, .run 0 [], .timerExpires 0, .dequeue 0, .run 0 [], .run 0 []])
    (f := fun p => (p.attempts, p.armedTimers, p.connector.state_))
    (a := (1, 0, .kConnecting)) (by decide +kernel)
  exact ⟨p, hobs, singleAttempt_of_orderly hp⟩

/-- `start` is called while the connector waits to retry: the timer stays armed and there is an
attempt besides it. -/
theorem not_singleAttempt : ¬ ∀ p, processMachine.Reachable p → p.SingleAttempt := by
  intro hall
  have hinit : processMachine.init (initial 1 [] 0 [] [] [] false false) :=
    ⟨1, [], 0, [], [], [], false, false, by simp, by simp, rfl⟩
  obtain ⟨p, hp, hobs⟩ := Machine.exists_of_run (C := fun _ _ => True) hinit
    (l := [.clientCall 0 .connect, .run 0 [], .connectDone 0 (some .other), .dequeue 0,
      .run 0 [], .clientCall 0 .connect, .run 0 []])
    (f := fun p => (p.attempts, p.armedTimers)) (a := (1, 1)) (by decide +kernel)
  obtain ⟨hattempts, harmed⟩ := Prod.mk.inj hobs
  have hone := (hall p hp).atMostOne
  omega

end Process

end LibNetToy
