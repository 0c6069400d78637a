import LibNetToy.Net.Aborts
import LibNetToy.Net.ConnectAttempts

/-!
# A connector that wants a connection

While `connect_` is set something has to be under way: a call of `startInLoop`, an attempt or a
timer, unless the connector has delivered a connection.  `retry` arms the timer after an attempt
has failed, but only if it can lock `socketWeakPtr_`, which is the socket of the last attempt and
not that of the attempt that has failed.  `restart` starts an attempt while another one may be
outstanding; when the older one fails after the connection of the last one was destroyed, `retry`
gives up.
-/

namespace LibNetToy

namespace Process

/-- A connector that wants a connection has a call of `startInLoop`, a completion or a timer
ahead, or is connected. -/
def KeepsTrying (p : Process) : Prop :=
  p.connector.connect_ = true →
    0 < weigh starting p.pending ∨ 0 < p.outstanding (fun _ => true) ∨
      p.timers.timerQueue_ ≠ [] ∨ p.connector.state_ = .kConnected

/-- The number of things under way that may lead to a connection. -/
def sources (p : Process) : Nat :=
  weigh starting p.pending + p.outstanding (fun _ => true) + p.armedTimers

/-- The failure of an attempt finds the socket of the last one alive, or something else under
way. -/
def RetriesAlive (p : Process) : Option Work → Prop
  | some (.connector (.handleConnect _ (some _))) =>
    p.connector.connect_ = true →
      p.connector.socketWeakPtr_.any (Connector.socketAlive p) = true ∨ 1 < p.sources
  | _ => True

instance (p : Process) (w : Option Work) : Decidable (p.RetriesAlive w) :=
  match w with
  | some (.connector (.handleConnect _ (some _))) => inferInstanceAs (Decidable (_ → _ ∨ _))
  | some (.connector (.handleConnect _ none)) | some (.connector .startInLoop)
  | some (.connector .stopInLoop) | some (.connector .restart)
  | none | some (.conn _ _) | some (.bound _ _) | some (.setCloseCallback _)
  | some (.server _) | some (.client _) | some (.handleTimer _ _) | some (.eraseTimer _) =>
    isTrue trivial

/-- No failure of an attempt is the last thing under way when the socket of the last attempt is
gone. -/
def Persists (p : Process) : ProcessEvent → Prop
  | .run t _ => p.RetriesAlive (p.stackOf t).head?
  | _ => True

instance (p : Process) (e : ProcessEvent) : Decidable (p.Persists e) :=
  match e with
  | .run t _ => inferInstanceAs (Decidable (p.RetriesAlive (p.stackOf t).head?))
  | .dequeue _ | .return_ _ | .call _ _ _ | .keep _ _ | .keepConnection _ | .drop _ _
  | .consume _ _ _ | .receive _ _ | .readFails _ _ | .transmit _ _ _ | .sendFails _ _
  | .accept _ | .destroyServer _ | .timerExpires _ | .clientCall _ _ | .connectorCall _ _
  | .destroyClient _ | .connectDone _ _ => isTrue trivial

variable {p q : Process}

/-! ## Timers and their handlers -/

/-- The work item will take the entry of the timer away. -/
def removes (id : TimerId) : Work → Nat
  | .handleTimer j (some _) => if j = id then 1 else 0
  | .eraseTimer j => if j = id then 1 else 0
  | _ => 0

/-- Work of others erases no timer. -/
theorem removes_ofConnector {id : TimerId} {w : Work} (hw : w.ofConnector = false) :
    removes id w = 0 := by
  unfold removes
  split
  · cases hw
  · cases hw
  · rfl

/-- Nothing pending takes an armed timer away. -/
structure TimersHeld (p : Process) : Prop where
  nodup : (AssocMap.keys p.timers.timerQueue_).Nodup
  lt : ∀ e ∈ p.timers.timerQueue_, e.1 < p.timers.nextTimer
  armed : ∀ e ∈ p.timers.timerQueue_, e.2 ≠ .running → weigh (removes e.1) p.pending = 0
  fresh : ∀ id, p.timers.nextTimer ≤ id → weigh (removes id) p.pending = 0

namespace TimersHeld

/-- The timers stay, and no work that erases one is added. -/
theorem same (h : TimersHeld p) (htimers : q.timers = p.timers)
    (hremoves : ∀ id, weigh (removes id) q.pending ≤ weigh (removes id) p.pending) :
    TimersHeld q := by
  constructor
  · rw [htimers]
    exact h.nodup
  · rw [htimers]
    exact h.lt
  · intro e he hs
    exact Nat.le_zero.1 ((h.armed e (htimers ▸ he) hs) ▸ hremoves e.1)
  · intro id hid
    exact Nat.le_zero.1 ((h.fresh id (htimers ▸ hid)) ▸ hremoves id)

/-- A new timer is not about to be erased. -/
theorem addTimer (h : TimersHeld p) (htimers : q.timers = p.timers.addTimer)
    (hpending : q.pending = p.pending) : TimersHeld q := by
  have hkey : p.timers.nextTimer ∉ AssocMap.keys p.timers.timerQueue_ := by
    intro hmem
    obtain ⟨e, he, hek⟩ := List.mem_map.1 hmem
    exact Nat.lt_irrefl _ (hek ▸ h.lt e he)
  have hcases : ∀ e ∈ q.timers.timerQueue_,
      e ∈ p.timers.timerQueue_ ∨ e = (p.timers.nextTimer, .waiting) := by
    intro e he
    rw [htimers] at he
    exact (List.mem_append.1 he).imp_right List.mem_singleton.1
  constructor
  · rw [htimers, TimerQueue.addTimer, AssocMap.keys, List.map_append]
    refine List.nodup_append.2 ⟨h.nodup, by simp, ?_⟩
    intro a ha b hb
    obtain rfl : b = p.timers.nextTimer := List.mem_singleton.1 hb
    rintro rfl
    exact hkey ha
  · intro e he
    rw [htimers]
    rcases hcases e he with he | rfl
    · exact Nat.lt_succ_of_lt (h.lt e he)
    · exact Nat.lt_succ_self _
  · intro e he hs
    rw [hpending]
    rcases hcases e he with he | rfl
    · exact h.armed e he hs
    · exact h.fresh _ (Nat.le_refl _)
  · intro id hid
    rw [htimers] at hid
    rw [hpending]
    exact h.fresh id (Nat.le_of_succ_le hid)

/-- The entry of one timer has changed: it is gone, its callback is running, or nothing takes
it away. -/
theorem leave {id : TimerId} (h : TimersHeld p) (hid : id < p.timers.nextTimer)
    (hnodup : (AssocMap.keys q.timers.timerQueue_).Nodup)
    (hnext : q.timers.nextTimer = p.timers.nextTimer)
    (hmem : ∀ e ∈ q.timers.timerQueue_,
      (e.1 = id ∧ (e.2 = .running ∨ weigh (removes id) q.pending = 0)) ∨
        (e.1 ≠ id ∧ e ∈ p.timers.timerQueue_))
    (hremoves : ∀ j, j ≠ id → weigh (removes j) q.pending = weigh (removes j) p.pending) :
    TimersHeld q := by
  constructor
  · exact hnodup
  · intro e he
    rw [hnext]
    rcases hmem e he with ⟨hself, -⟩ | ⟨-, he⟩
    · exact hself ▸ hid
    · exact h.lt e he
  · intro e he hs
    rcases hmem e he with ⟨hself, hrun | hzero⟩ | ⟨hne, he⟩
    · exact absurd hrun hs
    · rw [hself]
      exact hzero
    · rw [hremoves _ hne]
      exact h.armed e he hs
  · intro j hj
    rw [hnext] at hj
    have hne : j ≠ id := by
      rintro rfl
      exact Nat.lt_irrefl _ (Nat.lt_of_lt_of_le hid hj)
    rw [hremoves j hne]
    exact h.fresh j hj

/-- What takes the entry of a timer away finds its callback running. -/
theorem running_of_removes {id : TimerId} {w : Work} {s : TimerStatus} (h : TimersHeld p)
    (hw : w ∈ p.pending) (hremoves : removes id w = 1) (hs : p.timers.status id = some s) :
    s = .running := by
  by_contra hno
  have hzero : weigh (removes id) p.pending = 0 := h.armed _ (AssocMap.mem_of_lookup hs) hno
  have hle := le_weigh (f := removes id) hw
  omega

end TimersHeld

/-- Taking a timer away whose callback runs, or that is not there, disarms nothing. -/
theorem armedTimers_erase_running {id : TimerId}
    (h : (AssocMap.keys p.timers.timerQueue_).Nodup)
    (hs : ∀ s, p.timers.status id = some s → s = .running) :
    weigh armed (p.timers.erase id).timerQueue_ = p.armedTimers := by
  unfold armedTimers
  cases hstatus : p.timers.status id with
  | none =>
    have hnot := AssocMap.lookup_eq_none.1 hstatus
    have hall : (p.timers.erase id).timerQueue_ = p.timers.timerQueue_ := by
      apply List.filter_eq_self.2
      intro e he
      have hne : e.1 ≠ id := by
        rintro rfl
        exact hnot (List.mem_map.2 ⟨e, he, rfl⟩)
      simpa using hne
    rw [hall]
  | some s =>
    have hmem := AssocMap.mem_of_lookup hstatus
    rw [AssocMap.weigh_erase h hmem armed, hs s hstatus]
    exact (Nat.zero_add _).symm

/-! ## The invariant -/

/-- The timers are held, the attempt of a connecting connector is outstanding, and something is
under way. -/
structure Trying (p : Process) : Prop where
  held : TimersHeld p
  connecting : p.connector.state_ = .kConnecting →
    ∃ k, p.connector.socketWeakPtr_ = some k ∧ 0 < p.outstanding (· == k)
  wants : p.connector.connect_ = true → 0 < p.sources ∨ p.connector.state_ = .kConnected

/-- The attempts, the timers and the calls of `startInLoop` are what is counted. -/
theorem sources_congr (hsockets : q.sockets = p.sockets) (htimers : q.armedTimers = p.armedTimers)
    (hcompletes : ∀ P, weigh (completes P) q.pending = weigh (completes P) p.pending)
    (hstarting : weigh starting q.pending = weigh starting p.pending) :
    q.sources = p.sources := by
  unfold sources
  rw [outstanding_congr hsockets hcompletes, htimers, hstarting]

/-- The connector is the same, and nothing under way is gone. -/
theorem Trying.same (h : Trying p) (hheld : TimersHeld q) (hconnector : q.connector = p.connector)
    (hout : ∀ P, q.outstanding P = p.outstanding P) (hsources : p.sources ≤ q.sources) :
    Trying q := by
  refine ⟨hheld, ?_, ?_⟩
  · rw [hconnector]
    intro hstate
    obtain ⟨k, hk, hpos⟩ := h.connecting hstate
    exact ⟨k, hk, by rwa [hout]⟩
  · rw [hconnector]
    intro hconnect
    exact (h.wants hconnect).imp_left fun hpos => Nat.lt_of_lt_of_le hpos hsources

/-- What the connector does not see leaves it trying. -/
theorem Trying.apart (h : Trying p) (ha : Apart p q) : Trying q := by
  have hcompletes : ∀ P, weigh (completes P) q.pending = weigh (completes P) p.pending :=
    fun P => ha.pending (completes P) fun w => completes_ofConnector
  refine h.same ?_ ha.connector (outstanding_congr ha.sockets hcompletes) (Nat.le_of_eq ?_)
  · apply h.held.same ha.timers
    intro id
    exact Nat.le_of_eq (ha.pending (removes id) fun w => removes_ofConnector)
  · refine (sources_congr ha.sockets ?_ hcompletes ?_).symm
    · unfold armedTimers
      rw [ha.timers]
    · exact ha.pending starting fun w => starting_ofConnector

/-! ## Steps -/

/-- The work item has nothing to do with attempts or timers. -/
structure IsIdle (w : Work) : Prop where
  starting : starting w = 0
  completes : ∀ P, completes P w = 0
  removes : ∀ id, removes id w = 0

/-- Work of others has nothing to do with it. -/
theorem isIdle_ofConnector {w : Work} (hw : w.ofConnector = false) : IsIdle w :=
  ⟨starting_ofConnector hw, fun _ => completes_ofConnector hw, fun _ => removes_ofConnector hw⟩

/-- What is pending changes by idle work only. -/
theorem Trying.idle (h : Trying p) (hconnector : q.connector = p.connector)
    (htimers : q.timers = p.timers) (hsockets : q.sockets = p.sockets)
    (hpending : ∀ f : Work → Nat, (∀ w, IsIdle w → f w = 0) →
      weigh f q.pending = weigh f p.pending) : Trying q := by
  have hcompletes : ∀ P, weigh (completes P) q.pending = weigh (completes P) p.pending :=
    fun P => hpending _ fun w hw => hw.completes P
  refine h.same ?_ hconnector (outstanding_congr hsockets hcompletes) (Nat.le_of_eq ?_)
  · apply h.held.same htimers
    intro id
    exact Nat.le_of_eq (hpending _ fun w hw => hw.removes id)
  · refine (sources_congr hsockets ?_ hcompletes ?_).symm
    · unfold armedTimers
      rw [htimers]
    · exact hpending _ fun w hw => hw.starting

/-- Beginning such work leaves the connector trying. -/
theorem Trying.pop {t : ThreadId} {w : Work} {rest : List (ThreadId × Work)} (h : Trying p)
    (htake : Keyed.takeFirst t p.stack = some (w, rest)) (hw : IsIdle w) :
    Trying { p with stack := rest } := by
  refine h.idle rfl rfl rfl ?_
  intro f hf
  rw [weigh_pop f htake, hf w hw, Nat.zero_add]

/-- Putting such work in leaves the connector trying. -/
theorem Trying.schedule {t : ThreadId} {calls : List Work} {posts : List (LoopId × Work)}
    (h : Trying p) (hcalls : ∀ w ∈ calls, IsIdle w) (hposts : ∀ e ∈ posts, IsIdle e.2) :
    Trying (p.schedule t calls posts) := by
  refine h.idle rfl rfl rfl ?_
  intro f hf
  have hc : weigh f calls = 0 := weigh_eq_zero.2 fun w hw => hf w (hcalls w hw)
  have hp : weigh f (posts.map Prod.snd) = 0 := by
    apply weigh_eq_zero.2
    intro w hw
    obtain ⟨e, he, rfl⟩ := List.mem_map.1 hw
    exact hf e.2 (hposts e he)
  rw [weigh_schedule, hc, hp]
  rfl

/-- A connector that does not want a connection. -/
theorem Trying.unwanted (h : Trying p) (hheld : TimersHeld q)
    (hconnect : q.connector.connect_ = false)
    (hstate : q.connector.state_ = p.connector.state_)
    (hweak : q.connector.socketWeakPtr_ = p.connector.socketWeakPtr_)
    (hout : ∀ P, q.outstanding P = p.outstanding P) : Trying q := by
  refine ⟨hheld, ?_, ?_⟩
  · rw [hstate, hweak]
    intro hc
    obtain ⟨k, hk, hpos⟩ := h.connecting hc
    exact ⟨k, hk, by rwa [hout]⟩
  · rw [hconnect]
    exact nofun

/-- `cancel` erases a timer at once. -/
theorem TimersHeld.cancel {timer : Option TimerId} (h : TimersHeld p) :
    TimersHeld (TimerQueue.cancel p timer) := by
  have herase : ∀ id s, p.timers.status id = some s → id < p.timers.nextTimer ∧
      ∀ e ∈ (p.timers.erase id).timerQueue_, e.1 ≠ id ∧ e ∈ p.timers.timerQueue_ := by
    intro id s hs
    refine ⟨h.lt _ (AssocMap.mem_of_lookup hs), ?_⟩
    intro e he
    exact (AssocMap.mem_erase.1 he).symm
  rcases TimerQueue.cancel_cases p timer with hc | ⟨id, -, hs, hc⟩ | ⟨id, s, -, hs, -, hc⟩
  · rw [hc]
    exact h
  · rw [hc]
    obtain ⟨hlt, hmem⟩ := herase id _ hs
    refine h.leave hlt (AssocMap.nodup_keys_erase h.nodup) rfl (fun e he => .inr (hmem e he))
      ?_
    intro j hj
    refine (weigh_post (removes j) p _ _).trans ?_
    simp [removes, hj.symm]
  · rw [hc]
    obtain ⟨hlt, hmem⟩ := herase id _ hs
    exact h.leave hlt (AssocMap.nodup_keys_erase h.nodup) rfl (fun e he => .inr (hmem e he))
      fun _ _ => rfl

/-- Cancelling a timer neither adds nor takes an attempt. -/
theorem outstanding_cancel (timer : Option TimerId) (P : SockId → Bool) :
    (TimerQueue.cancel p timer).outstanding P = p.outstanding P ∧
      (TimerQueue.cancel p timer).connector = p.connector := by
  rcases TimerQueue.cancel_cases p timer with hc | ⟨id, -, -, hc⟩ | ⟨id, s, -, -, -, hc⟩
  · rw [hc]
    exact ⟨rfl, rfl⟩
  · rw [hc]
    refine ⟨?_, rfl⟩
    unfold outstanding
    exact congrArg _ (weigh_post (completes P) p _ _)
  · rw [hc]
    exact ⟨rfl, rfl⟩

/-- A stopped connector wants nothing. -/
theorem Trying.stop (h : Trying p) : Trying (Connector.stop p) := by
  have hpost : ∀ f : Work → Nat, f (.connector .stopInLoop) = 0 →
      weigh f ({ p with
        connector := { p.connector with connect_ := false }
        queue := p.queue ++ [(p.connector.loop_, .connector .stopInLoop)] } : Process).pending =
      weigh f p.pending := by
    intro f hf
    exact (weigh_post f p _ _).trans (by rw [hf, Nat.add_zero])
  have hheld : TimersHeld ({ p with
      connector := { p.connector with connect_ := false }
      queue := p.queue ++ [(p.connector.loop_, .connector .stopInLoop)] } : Process) :=
    h.held.same rfl fun id => Nat.le_of_eq (hpost _ rfl)
  unfold Connector.stop
  refine h.unwanted hheld.cancel ?_ ?_ ?_ ?_
  · rw [(outstanding_cancel _ fun _ => true).2]
  · rw [(outstanding_cancel _ fun _ => true).2]
  · rw [(outstanding_cancel _ fun _ => true).2]
  · intro P
    rw [(outstanding_cancel _ P).1]
    unfold outstanding
    exact congrArg _ (hpost _ rfl)

/-- `start` makes or queues a call of `startInLoop`. -/
theorem Trying.start (h : Trying p) (t : ThreadId) : Trying (Connector.start p t) := by
  have hadd : ∀ f : Work → Nat, weigh f (Connector.start p t).pending =
      weigh f p.pending + f (.connector .startInLoop) := by
    intro f
    unfold Connector.start
    rw [weigh_schedule, Nat.add_assoc, weigh_runInLoop]
    rfl
  refine ⟨h.held.same rfl fun id => Nat.le_of_eq (hadd _), ?_, ?_⟩
  · intro hstate
    obtain ⟨k, hk, hpos⟩ := h.connecting hstate
    refine ⟨k, hk, ?_⟩
    rw [outstanding_congr (p := p) (q := Connector.start p t) rfl fun P => hadd _]
    exact hpos
  · intro _
    left
    unfold sources
    rw [hadd]
    simp only [starting]
    omega

/-- An attempt is started. -/
theorem Trying.beginAttempt {c : Connector} (hheld : TimersHeld p)
    (hweak : c.socketWeakPtr_ = some p.sockets.nextSocket) :
    Trying { p with
      connector := c
      sockets := { p.sockets with
        nextSocket := p.sockets.nextSocket + 1
        connecting := p.sockets.connecting ++ [p.sockets.nextSocket] } } := by
  have hnew : ∀ P : SockId → Bool, P p.sockets.nextSocket = true →
      0 < Process.outstanding { p with
        connector := c
        sockets := { p.sockets with
          nextSocket := p.sockets.nextSocket + 1
          connecting := p.sockets.connecting ++ [p.sockets.nextSocket] } } P := by
    intro P hP
    unfold outstanding
    rw [List.countP_append, List.countP_singleton, if_pos hP]
    omega
  refine ⟨hheld.same rfl fun _ => Nat.le_refl _, ?_, ?_⟩
  · intro _
    exact ⟨_, hweak, hnew _ (beq_self_eq_true _)⟩
  · intro _
    left
    have hpos := hnew (fun _ => true) rfl
    unfold sources
    omega

/-- Taking an item away leaves the timers held. -/
theorem TimersHeld.pop {t : ThreadId} {w : Work} {rest : List (ThreadId × Work)}
    (h : TimersHeld p) (htake : Keyed.takeFirst t p.stack = some (w, rest)) :
    TimersHeld { p with stack := rest } := by
  refine h.same rfl ?_
  intro id
  rw [weigh_pop (removes id) htake]
  exact Nat.le_add_left _ _

/-- `startInLoop` starts an attempt in place of itself. -/
theorem Trying.startInLoop {t : ThreadId} {rest : List (ThreadId × Work)} (h : Trying p)
    (htake : Keyed.takeFirst t p.stack = some (.connector .startInLoop, rest))
    (hexec : Connector.startInLoop { p with stack := rest } t = .ok q) : Trying q := by
  have hheld := h.held.pop htake
  rcases Connector.startInLoop_eq_ok.1 hexec with ⟨-, ⟨-, -, rfl⟩ | ⟨hconnect, rfl⟩⟩
  · exact Trying.beginAttempt hheld rfl
  · refine h.unwanted hheld hconnect rfl rfl ?_
    intro P
    unfold outstanding
    rw [weigh_pop (completes P) htake]
    exact congrArg _ (Nat.zero_add _).symm

/-- The state after an attempt was abandoned or has failed: with a timer added, or with
something else under way. -/
theorem Trying.settled (hheld : TimersHeld q) (hstate : q.connector.state_ = .kDisconnected)
    (hwants : q.connector.connect_ = true → 0 < q.sources) : Trying q := by
  refine ⟨hheld, ?_, fun hconnect => .inl (hwants hconnect)⟩
  rw [hstate]
  exact nofun

/-- `retry` adds a timer, or gives up. -/
theorem Trying.retry {held : Option SockId} (hheld : TimersHeld p)
    (hstate : p.connector.state_ = .kDisconnected)
    (hwants : p.connector.connect_ = true →
      (∃ k, p.connector.socketWeakPtr_ = some k ∧
        (held = some k ∨ Connector.socketAlive p k = true)) ∨ 0 < p.sources)
    (hretry : Connector.retry p held = .ok q) : Trying q := by
  rcases Connector.retry_eq_ok.1 hretry with ⟨hdead, rfl⟩ | ⟨k, -, -, -, ⟨-, rfl⟩ | ⟨hno, rfl⟩⟩
  · refine Trying.settled hheld hstate ?_
    intro hconnect
    rcases hwants hconnect with ⟨k, hk, halive⟩ | hpos
    · obtain ⟨hheld, hnot⟩ := hdead k hk
      rcases halive with halive | halive
      · exact absurd halive hheld
      · rw [hnot] at halive
        cases halive
    · exact hpos
  · refine Trying.settled (hheld.addTimer rfl rfl) hstate ?_
    intro _
    have hadd := armedTimers_addTimer (p := p) (q := { p with timers := p.timers.addTimer }) rfl
    have hsum : 0 < weigh starting p.pending + p.outstanding (fun _ => true) +
        Process.armedTimers { p with timers := p.timers.addTimer } := by
      omega
    exact hsum
  · refine Trying.settled (hheld.same rfl fun _ => Nat.le_refl _) hstate ?_
    intro hconnect
    rw [show p.connector.connect_ = true from hconnect] at hno
    cases hno

/-- `stopInLoop` abandons the attempt; its completion stays outstanding. -/
theorem Trying.stopInLoop {t : ThreadId} (h : Trying p)
    (hexec : Connector.stopInLoop p t = .ok q) : Trying q := by
  obtain ⟨-, ⟨hstate, hretry⟩ | ⟨-, rfl⟩⟩ := Connector.stopInLoop_eq_ok.1 hexec
  · obtain ⟨k, hk, hpos⟩ := h.connecting hstate
    have halive := socketAlive_of_outstanding hpos
    exact Trying.retry (p := { p with
      connector := { p.connector with state_ := .kDisconnected } })
      (h.held.same rfl fun _ => Nat.le_refl _) rfl (fun _ => .inl ⟨k, hk, .inr halive⟩) hretry
  · exact h

/-- The socket that was alive while its handler was pending is held by it or still alive. -/
theorem socketAlive_pop {t : ThreadId} {j k : SockId} {error : Option ErrorCode}
    {rest : List (ThreadId × Work)}
    (htake : Keyed.takeFirst t p.stack = some (.connector (.handleConnect j error), rest))
    (halive : Connector.socketAlive p k = true) :
    some j = some k ∨ Connector.socketAlive { p with stack := rest } k = true := by
  by_cases hjk : j = k
  · exact .inl (congrArg some hjk)
  · right
    have hholds : Connector.holdsSocket k (.connector (.handleConnect j error)) = 0 :=
      if_neg hjk
    have hweigh := weigh_pop (Connector.holdsSocket k) htake
    rw [hholds, Nat.zero_add] at hweigh
    unfold Connector.socketAlive at halive ⊢
    rw [hweigh] at halive
    exact halive

/-- `handleConnect` connects, or arms a timer for the next attempt. -/
theorem Trying.handleConnect {t : ThreadId} {k : SockId} {error : Option ErrorCode}
    {rest : List (ThreadId × Work)} (h : Trying p)
    (htake : Keyed.takeFirst t p.stack = some (.connector (.handleConnect k error), rest))
    (halive : p.RetriesAlive (some (.connector (.handleConnect k error))))
    (hexec : Connector.handleConnect { p with stack := rest } t k error = .ok q) :
    Trying q := by
  have hheld := h.held.pop htake
  cases error with
  | none =>
    obtain rfl := pure_eq_ok.1 hexec
    refine ⟨?_, nofun, fun _ => .inr rfl⟩
    refine hheld.same rfl ?_
    intro id
    exact Nat.le_of_eq (weigh_schedule (removes id) _ _ _ _)
  | some e =>
    refine Trying.retry (p := { p with
      stack := rest
      connector := { p.connector with state_ := .kDisconnected } })
      (hheld.same rfl fun _ => Nat.le_refl _) rfl ?_ hexec
    intro hconnect
    rcases halive hconnect with hany | hother
    · obtain ⟨j, hj, hj'⟩ := (Option.any_eq_true _ _).1 hany
      exact .inl ⟨j, hj, socketAlive_pop htake hj'⟩
    · right
      -- the handler was one of the things under way
      have hout : p.outstanding (fun _ => true) =
          Process.outstanding { p with stack := rest } (fun _ => true) + 1 := by
        unfold outstanding
        rw [weigh_pop (completes _) htake]
        simp only [completes, if_true]
        omega
      have hstarting : weigh starting p.pending =
          weigh starting ({ p with stack := rest } : Process).pending := by
        rw [weigh_pop starting htake]
        exact Nat.zero_add _
      have hsum : 0 < weigh starting ({ p with stack := rest } : Process).pending +
          Process.outstanding { p with stack := rest } (fun _ => true) + p.armedTimers := by
        unfold sources at hother
        omega
      exact hsum

/-- `restart` starts an attempt. -/
theorem Trying.restart {t : ThreadId} {rest : List (ThreadId × Work)} (h : Trying p)
    (htake : Keyed.takeFirst t p.stack = some (.connector .restart, rest))
    (hexec : Connector.restart { p with stack := rest } t = .ok q) : Trying q := by
  obtain ⟨-, rfl⟩ := Connector.restart_eq_ok.1 hexec
  exact Trying.beginAttempt (h.held.pop htake) rfl

/-- The entry of a timer is taken away that is running or gone. -/
theorem Trying.eraseTimer {id : TimerId} (h : Trying p)
    (hs : ∀ s, p.timers.status id = some s → s = .running) :
    Trying { p with timers := p.timers.erase id } := by
  refine h.same ?_ rfl (fun _ => rfl) (Nat.le_of_eq ?_)
  · constructor
    · exact AssocMap.nodup_keys_erase h.held.nodup
    · exact fun e he => h.held.lt e (AssocMap.mem_erase.1 he).1
    · exact fun e he => h.held.armed e (AssocMap.mem_erase.1 he).1
    · exact h.held.fresh
  · have harmed := armedTimers_erase_running h.held.nodup hs
    exact congrArg (weigh starting p.pending + p.outstanding (fun _ => true) + ·) harmed.symm

/-- The handler of a timer calls `startInLoop`, and erases the timer behind it. -/
theorem Trying.handleTimer {t : ThreadId} {id : TimerId} {error : Option ErrorCode}
    {rest : List (ThreadId × Work)} (h : Trying p)
    (htake : Keyed.takeFirst t p.stack = some (.handleTimer id error, rest)) :
    Trying (TimerQueue.handleTimer { p with stack := rest } t id error) := by
  have hheld := h.held.pop htake
  have hpop : ∀ f : Work → Nat, f (.handleTimer id error) = 0 →
      weigh f ({ p with stack := rest } : Process).pending = weigh f p.pending := by
    intro f hf
    rw [weigh_pop f htake, hf, Nat.zero_add]
  have hout : ∀ P, Process.outstanding { p with stack := rest } P = p.outstanding P := by
    intro P
    unfold outstanding
    rw [hpop _ rfl]
  have hsources : Process.sources { p with stack := rest } = p.sources := by
    unfold sources
    rw [hout, hpop _ rfl]
    rfl
  have hrest : Trying { p with stack := rest } :=
    h.same hheld rfl hout (Nat.le_of_eq hsources.symm)
  rcases TimerQueue.handleTimer_cases { p with stack := rest } t id error with
    ⟨-, hq⟩ | ⟨hsome, rfl, hq⟩ | ⟨hsome, herror, hq⟩
  · rw [hq]
    exact hrest
  · rw [hq]
    obtain ⟨s, hs⟩ := Option.ne_none_iff_exists'.1 hsome
    have hmem := AssocMap.mem_of_lookup hs
    have hset : weigh armed (p.timers.setStatus id .running).timerQueue_ + armed (id, s) =
        Process.armedTimers { p with stack := rest } + 0 :=
      armedTimers_setStatus hheld.nodup hs
    have harmed : armed (id, s) ≤ 1 := by
      unfold armed
      split_ifs <;> omega
    refine hrest.same ?_ rfl ?_ ?_
    · refine hheld.leave (hheld.lt _ hmem) ?_ rfl ?_ ?_
      · exact (AssocMap.keys_adjust (k := id)).symm ▸ hheld.nodup
      · intro e he
        rcases AssocMap.mem_adjust.1 he with ⟨rfl, -⟩ | ⟨hne, he⟩
        · exact .inl ⟨rfl, .inl rfl⟩
        · exact .inr ⟨hne, he⟩
      · intro j hj
        rw [weigh_schedule]
        simp only [weigh_cons, weigh_nil, removes, if_neg hj.symm, List.map_nil, Nat.add_zero]
        rfl
    · intro P
      unfold outstanding
      rw [weigh_schedule]
      rfl
    · -- the timer is no longer armed, and the call is still to be made
      have hnew : Process.sources (({ p with
          stack := rest
          timers := p.timers.setStatus id .running } : Process).schedule t
            [.connector .startInLoop, .eraseTimer id] []) =
          weigh starting ({ p with stack := rest } : Process).pending + 1 +
            Process.outstanding { p with stack := rest } (fun _ => true) +
            weigh armed (p.timers.setStatus id .running).timerQueue_ := by
        unfold sources outstanding
        rw [weigh_schedule, weigh_schedule]
        rfl
      refine Nat.le_trans ?_ (Nat.le_of_eq hnew.symm)
      unfold sources
      omega
  · rw [hq]
    obtain ⟨s, hs⟩ := Option.ne_none_iff_exists'.1 hsome
    obtain ⟨e, rfl⟩ := Option.ne_none_iff_exists'.1 herror
    have hw : Work.handleTimer id (some e) ∈ p.pending :=
      mem_pending_of_head (head_stackOf htake)
    exact hrest.eraseTimer fun s hs =>
      h.held.running_of_removes hw (by simp [removes]) hs

/-- A timer that expires has its handler queued. -/
theorem Trying.timerExpires {id : TimerId} (h : Trying p)
    (hwaiting : p.timers.status id = some .waiting) : Trying { p with
      timers := p.timers.setStatus id .expired
      queue := p.queue ++ [(p.connector.loop_, .handleTimer id none)] } := by
  have hmem := AssocMap.mem_of_lookup hwaiting
  have hpost : ∀ f : Work → Nat, f (.handleTimer id none) = 0 →
      weigh f ({ p with
        timers := p.timers.setStatus id .expired
        queue := p.queue ++ [(p.connector.loop_, .handleTimer id none)] } : Process).pending =
      weigh f p.pending := by
    intro f hf
    exact (weigh_post f p _ _).trans (by rw [hf, Nat.add_zero])
  have hset : weigh armed (p.timers.setStatus id .expired).timerQueue_ + 1 =
      p.armedTimers + 1 := armedTimers_setStatus h.held.nodup hwaiting
  refine h.same ?_ rfl (outstanding_congr rfl fun P => hpost _ rfl) (Nat.le_of_eq ?_)
  · refine h.held.leave (h.held.lt _ hmem) ?_ rfl ?_ fun j _ => hpost _ rfl
    · exact (AssocMap.keys_adjust (k := id)).symm ▸ h.held.nodup
    · intro e he
      rcases AssocMap.mem_adjust.1 he with ⟨rfl, -⟩ | ⟨hne, he⟩
      · refine .inl ⟨rfl, .inr ((hpost _ rfl).trans ?_)⟩
        exact h.held.armed (id, .waiting) hmem nofun
      · exact .inr ⟨hne, he⟩
  · refine Eq.symm (sources_congr rfl ?_ (fun P => hpost _ rfl) (hpost _ rfl))
    exact Nat.add_right_cancel hset

/-- An attempt that completes is outstanding until its handler runs. -/
theorem Trying.connectDone {k : SockId} {error : Option ErrorCode} (h : Trying p)
    (hk : k ∈ p.sockets.connecting) : Trying { p with
      sockets := { p.sockets with connecting := p.sockets.connecting.erase k }
      queue := p.queue ++ [(p.connector.loop_, .connector (.handleConnect k error))] } := by
  have hout := outstanding_connectDone error hk
  refine h.same ?_ rfl hout (Nat.le_of_eq ?_)
  · refine h.held.same rfl ?_
    intro id
    exact Nat.le_of_eq (weigh_post (removes id) p _ _)
  · unfold sources
    rw [hout]
    exact (congrArg (· + p.outstanding (fun _ => true) + p.armedTimers)
      (weigh_post starting p p.connector.loop_ (.connector (.handleConnect k error)))).symm

/-- Running a work item keeps the connector trying. -/
theorem Trying.exec {t : ThreadId} {peer : List Char} {w : Work}
    {rest : List (ThreadId × Work)} (h : Trying p)
    (htake : Keyed.takeFirst t p.stack = some (w, rest)) (halive : p.RetriesAlive (some w))
    (hexec : ({ p with stack := rest } : Process).exec t peer w = .ok q) : Trying q := by
  by_cases hside : w.ofConnector = false
  · have hpop := h.pop htake (isIdle_ofConnector hside)
    by_cases hremove : ∃ c, w = .client (.removeConnection c)
    · obtain ⟨c, rfl⟩ := hremove
      obtain ⟨-, hexec⟩ := exec_client_eq_ok.1 hexec
      obtain ⟨hconnector, htimers, hsockets, hpending⟩ := removeConnection_connector hexec
      refine hpop.idle hconnector htimers hsockets ?_
      intro f hf
      rw [hpending f fun w hw => hf w (isIdle_ofConnector hw)]
      split_ifs
      · rw [hf _ ⟨rfl, fun _ => rfl, fun _ => rfl⟩, Nat.add_zero]
      · rfl
    · exact hpop.apart (exec_apart hexec hside fun c hc => hremove ⟨c, hc⟩)
  cases w with
  | conn | bound | setCloseCallback | server => exact absurd rfl hside
  | connector k =>
    obtain ⟨-, hexec⟩ := Connector.exec_eq_ok.1 hexec
    cases k with
    | startInLoop => exact h.startInLoop htake hexec
    | stopInLoop => exact (h.pop htake ⟨rfl, fun _ => rfl, fun _ => rfl⟩).stopInLoop hexec
    | restart => exact h.restart htake hexec
    | handleConnect k error => exact h.handleConnect htake halive hexec
  | client k =>
    obtain ⟨-, hexec⟩ := exec_client_eq_ok.1 hexec
    cases k with
    | removeConnection c => exact absurd rfl hside
    | destroyed => exact absurd rfl hside
    | newConnection socket =>
      have hpop := h.pop htake ⟨rfl, fun _ => rfl, fun _ => rfl⟩
      obtain ⟨-, rfl⟩ := TcpClient.newConnection_eq_ok.1 hexec
      have hcalls : ∀ w ∈ releases p.client.connection_.toList ++
          [.conn p.nextConn .connectEstablished, .conn p.nextConn .release],
          w.ofConnector = false := by
        intro w hw
        rcases List.mem_append.1 hw with hw | hw
        · exact releases_ofConnector _ w hw
        · simp only [List.mem_cons, List.not_mem_nil, or_false] at hw
          rcases hw with rfl | rfl <;> rfl
      refine Trying.schedule ?_ (fun w hw => isIdle_ofConnector (hcalls w hw)) nofun
      exact hpop.apart ⟨rfl, rfl, rfl, SamePending.of_eq rfl rfl⟩
  | handleTimer timer error =>
    obtain rfl := pure_eq_ok.1 hexec
    exact h.handleTimer htake
  | eraseTimer timer =>
    obtain rfl := pure_eq_ok.1 hexec
    have hw : Work.eraseTimer timer ∈ p.pending := mem_pending_of_head (head_stackOf htake)
    have hrun : ∀ s, p.timers.status timer = some s → s = .running :=
      fun s hs => h.held.running_of_removes hw (by simp [removes]) hs
    have hpop : Trying { p with stack := rest } := by
      have hsame : ∀ f : Work → Nat, f (.eraseTimer timer) = 0 →
          weigh f ({ p with stack := rest } : Process).pending = weigh f p.pending := by
        intro f hf
        rw [weigh_pop f htake, hf, Nat.zero_add]
      refine h.same (h.held.pop htake) rfl (outstanding_congr rfl fun P => hsame _ rfl) ?_
      exact Nat.le_of_eq
        (Eq.symm (sources_congr rfl rfl (fun P => hsame _ rfl) (hsame _ rfl)))
    exact hpop.eraseTimer hrun

/-- A step that does not give up keeps the connector trying. -/
theorem Trying.step {e : ProcessEvent} (h : Trying p) (hpersists : p.Persists e)
    (hstep : Process.step e p = .ok q) : Trying q := by
  by_cases he : e.onConnector = false
  · exact h.apart (step_apart hstep he)
  cases e with
  | run t peer =>
    obtain ⟨w, rest, htake, -, hexec⟩ := run_eq_ok.1 hstep
    have hw : p.RetriesAlive (p.stackOf t).head? := hpersists
    rw [head_stackOf htake] at hw
    exact h.exec htake hw hexec
  | clientCall t x =>
    obtain ⟨-, rfl⟩ := clientCall_eq_ok.1 hstep
    cases x with
    | connect => exact (h.apart (Apart.client (s := { p.client with connect_ := true }))).start t
    | stop => exact (h.apart (Apart.client (s := { p.client with connect_ := false }))).stop
    | disconnect | enableRetry => exact absurd rfl he
  | connectorCall t x =>
    obtain ⟨-, rfl⟩ := connectorCall_eq_ok.1 hstep
    cases x with
    | start => exact h.start t
    | stop => exact h.stop
    | restart =>
      refine h.schedule ?_ nofun
      intro w hw
      rw [List.mem_singleton.1 hw]
      exact ⟨rfl, fun _ => rfl, fun _ => rfl⟩
  | destroyClient t =>
    obtain ⟨-, hstep⟩ := destroyClient_eq_ok.1 hstep
    cases hc : p.client.connection_ with
    | some c => exact h.apart (destructor_apart hc hstep)
    | none =>
      rcases TcpClient.destructor_eq_ok.1 hstep with ⟨-, rfl⟩ | ⟨c, hsome, -⟩
      · refine Trying.apart ?_ (Apart.schedule ?_ ?_)
        · exact (h.apart (Apart.client (s := { p.client with life := .destructing }))).stop
        · simp [Work.ofConnector]
        · simp
      · rw [hc] at hsome
        cases hsome
  | connectDone socket error =>
    obtain ⟨⟨hmem, -⟩, rfl⟩ := connectDone_eq_ok.1 hstep
    exact h.connectDone hmem
  | timerExpires timer =>
    obtain ⟨hwaiting, rfl⟩ := timerExpires_eq_ok.1 hstep
    exact h.timerExpires hwaiting
  | dequeue | return_ | call | keep | keepConnection | drop | consume | receive | readFails
  | transmit | sendFails | accept | destroyServer => exact absurd rfl he

/-! ## The results -/

/-- A new connector wants nothing. -/
theorem trying_initial (hp : processMachine.init p) : Trying p := by
  obtain ⟨baseLoop, pool, clientLoop, ipPort, serverName, clientName, m, w, -, -, rfl⟩ := hp
  exact ⟨⟨List.nodup_nil, nofun, nofun, fun _ _ => rfl⟩, nofun, nofun⟩

/-- Something is under way when the connector wants a connection. -/
theorem Trying.keepsTrying (h : Trying p) : p.KeepsTrying := by
  intro hconnect
  rcases h.wants hconnect with hpos | hstate
  · have hsplit : 0 < weigh starting p.pending ∨ 0 < p.outstanding (fun _ => true) ∨
        0 < p.armedTimers := by
      unfold sources at hpos
      omega
    refine hsplit.imp_right fun h => h.imp_right fun harmed => .inl ?_
    intro hnil
    rw [armedTimers, hnil] at harmed
    exact Nat.lt_irrefl 0 harmed
  · exact .inr (.inr (.inr hstate))

/-- In a run in which `retry` does not give up, a connector that wants a connection has
something under way. -/
theorem keepsTrying_of_persists (hp : processMachine.ReachableUnder Persists p) :
    p.KeepsTrying := by
  have h : Trying p :=
    hp.invariant (fun _ => trying_initial) fun _ _ _ h hC hstep => h.step hC hstep
  exact h.keepsTrying

/-- An attempt fails and its timer is armed. -/
theorem keepsTrying_waiting : ∃ p : Process,
    (p.connector.connect_, p.outstanding (fun _ => true), p.armedTimers) = (true, 0, 1) ∧
      p.KeepsTrying := by
  have hinit : processMachine.init (initial 1 [] 0 [] [] [] false false) :=
    ⟨1, [], 0, [], [], [], false, false, by simp, by simp, rfl⟩
  obtain ⟨p, hp, hobs⟩ := Machine.exists_of_run (C := Persists) hinit
    (l := [.clientCall 2 .connect, .dequeue 0, .run 0 [], .connectDone 0 (some .other),
      .dequeue 0, .run 0 []])
    (f := fun p => (p.connector.connect_, p.outstanding (fun _ => true), p.armedTimers))
    (a := (true, 0, 1)) (by decide +kernel)
  exact ⟨p, hobs, keepsTrying_of_persists hp⟩

/-- `restart` is called while an attempt is outstanding.  The second attempt succeeds and its
connection is closed; then the first one fails, and `retry` finds the socket of the second one
gone: the connector is disconnected and waits for nothing. -/
theorem not_keepsTrying : ¬ ∀ p, abortingMachine.Reachable p → p.KeepsTrying := by
  intro hall
  have hinit : abortingMachine.init (initial 1 [] 0 [] [] [] false false) :=
    ⟨1, [], 0, [], [], [], false, false, by simp, by simp, rfl⟩
  obtain ⟨p, hp, hobs⟩ := Machine.exists_of_run (C := fun _ _ => True) hinit
    (l := [.connectorCall 0 .start, .run 0 [], .connectorCall 0 .restart, .run 0 [],
      .connectDone 1 none, .dequeue 0, .run 0 [], .run 0 [], .run 0 [], .run 0 [], .return_ 0,
      .run 0 [], .run 0 [], .readFails 0 .eof, .dequeue 0, .run 0 [], .run 0 [], .return_ 0,
      .run 0 [], .run 0 [], .run 0 [], .run 0 [], .dequeue 0, .run 0 [], .run 0 [],
      .connectDone 0 (some .other), .dequeue 0, .run 0 []])
    (f := fun p => (p.connector.connect_, weigh starting p.pending,
      p.outstanding (fun _ => true), p.timers.timerQueue_.length, p.connector.state_))
    (a := (true, 0, 0, 0, .kDisconnected)) (by decide +kernel)
  simp only [Prod.mk.injEq] at hobs
  obtain ⟨hconnect, hstarting, hout, htimers, hstate⟩ := hobs
  have hkeeps := hall p hp hconnect
  rw [hstarting, hout, hstate, List.length_eq_zero_iff.1 htimers] at hkeeps
  simp at hkeeps

end Process

end LibNetToy
