import LibNetToy.Net.Aborts
import LibNetToy.Net.HandlerOrder
import LibNetToy.Net.Stages

/-!
# One connection of the client at a time

`connection_` is the one connection of the client that was not removed.  The client takes what the
connector delivers without looking, so this depends on the attempts.  A new one is started only
when the state is `kDisconnected`, and then the sockets of all others are closed: `retry` has
closed the last one.  `close()` queues the handler of an attempt it aborts, so the handlers of
abandoned attempts run before that of the new one.  A success whose socket is open is therefore the
last of the attempts; one that was queued before its socket was closed makes no connection, as
`remote_endpoint()` throws.
-/

namespace LibNetToy

/-- A process, and the connections that went through `TcpClient::removeConnection`. -/
structure ClientRun where
  process : Process
  removed : List ConnId

namespace Process

/-- The connections that the step takes through `TcpClient::removeConnection`. -/
def removedBy (p : Process) : ProcessEvent → List ConnId
  | .run t _ =>
    match (p.stackOf t).head? with
    | some (.client (.removeConnection c)) => [c]
    | _ => []
  | _ => []

end Process

/-- The runs of a process with what its client has removed. -/
def clientMachine : Machine ClientRun ProcessEvent Fault where
  init s := processMachine.init s.process ∧ s.removed = []
  step e s := Halt.within (abortingMachine.step e s.process) fun q =>
    { process := q, removed := s.process.removedBy e ++ s.removed }

namespace ClientRun

/-- The connection was made by the client and did not go through `removeConnection`. -/
def Remains (s : ClientRun) (c : ConnId) : Prop :=
  c < s.process.nextConn ∧ (s.process.conns c).closeCallback_ = .client ∧ c ∉ s.removed

/-- The client has one connection at most, `connection_` is that one, nobody is about to
overwrite it, and the next step does not fail the assertion of `removeConnection`. -/
structure OneConnection (s : ClientRun) : Prop where
  atMostOne : ∀ c d, s.Remains c → s.Remains d → c = d
  designated : ∀ c, s.process.client.connection_ = some c ↔ s.Remains c
  overwritesNone : ∀ t k, (s.process.stackOf t).head? = some (.client (.newConnection k)) →
    s.process.client.connection_ = none
  removeConnection_holds : ∀ e,
    Process.step e s.process ≠ .error (.fault (.assertion .removeConnection))

end ClientRun

/-- The client stays, and `restart` is called by the client only. -/
def ProcessEvent.KeepsClient : ProcessEvent → Prop
  | .destroyClient _ => False
  | .connectorCall _ .restart => False
  | _ => True

instance (e : ProcessEvent) : Decidable e.KeepsClient :=
  match e with
  | .destroyClient _ | .connectorCall _ .restart => isFalse id
  | .connectorCall _ .start | .connectorCall _ .stop
  | .dequeue _ | .run _ _ | .return_ _ | .call _ _ _ | .keep _ _ | .keepConnection _ | .drop _ _
  | .consume _ _ _ | .receive _ _ | .readFails _ _ | .transmit _ _ _ | .sendFails _ _
  | .accept _ | .destroyServer _ | .timerExpires _ | .clientCall _ _ | .connectDone _ _ =>
    isTrue trivial

namespace Process

variable {p q : Process}

/-! ## The attempts in line -/

/-- The attempts in line are in the order in which they were started, one at most is outstanding,
and all but the last one started were abandoned. -/
structure Lined (p : Process) : Prop where
  sorted : p.inFlight.Pairwise (· < ·)
  fresh : ∀ k ∈ p.inFlight, k < p.sockets.nextSocket
  latest : ∀ k, p.connector.socketWeakPtr_ = some k ↔ k + 1 = p.sockets.nextSocket
  abandoned : ∀ k ∈ p.inFlight, p.connector.socketWeakPtr_ ≠ some k → k ∈ p.sockets.closed
  one : p.sockets.connecting.length ≤ 1

/-- What touches neither the attempts nor the sockets leaves the line alone. -/
theorem Lined.same (h : Lined p) (hin : q.inFlight = p.inFlight)
    (hweak : q.connector.socketWeakPtr_ = p.connector.socketWeakPtr_)
    (hnext : q.sockets.nextSocket = p.sockets.nextSocket)
    (hclosed : q.sockets.closed = p.sockets.closed)
    (hone : q.sockets.connecting.length ≤ 1) : Lined q := by
  constructor
  · rw [hin]
    exact h.sorted
  · rw [hin, hnext]
    exact h.fresh
  · rw [hweak, hnext]
    exact h.latest
  · rw [hin, hweak, hclosed]
    exact h.abandoned
  · exact hone

/-- The first of the line is handled. -/
theorem Lined.tail {k : SockId} (h : Lined p) (hin : p.inFlight = k :: q.inFlight)
    (hweak : q.connector.socketWeakPtr_ = p.connector.socketWeakPtr_)
    (hsockets : q.sockets = p.sockets) : Lined q := by
  have hmem : ∀ j ∈ q.inFlight, j ∈ p.inFlight := by
    intro j hj
    rw [hin]
    exact List.mem_cons_of_mem _ hj
  constructor
  · have hsorted := h.sorted
    rw [hin] at hsorted
    exact (List.pairwise_cons.1 hsorted).2
  · rw [hsockets]
    exact fun j hj => h.fresh j (hmem j hj)
  · rw [hweak, hsockets]
    exact h.latest
  · rw [hweak, hsockets]
    exact fun j hj => h.abandoned j (hmem j hj)
  · rw [hsockets]
    exact h.one

/-- An open socket at the front of the line is the last one: nothing is behind it. -/
theorem Lined.tail_eq_nil {k : SockId} {ks : List SockId} (h : Lined p)
    (hin : p.inFlight = k :: ks) (hopen : k ∉ p.sockets.closed) : ks = [] := by
  have hk : k ∈ p.inFlight := by
    rw [hin]
    exact List.mem_cons_self ..
  have hweak : p.connector.socketWeakPtr_ = some k := by
    by_contra hne
    exact hopen (h.abandoned k hk hne)
  have hlast := (h.latest k).1 hweak
  apply List.eq_nil_iff_forall_not_mem.2
  intro j hj
  have hsorted := h.sorted
  rw [hin] at hsorted
  have hlt : k < j := (List.pairwise_cons.1 hsorted).1 j hj
  have hfresh : j < k + 1 := by
    rw [hlast]
    exact h.fresh j (by rw [hin]; exact List.mem_cons_of_mem _ hj)
  exact Nat.lt_irrefl k (Nat.lt_of_lt_of_le hlt (Nat.le_of_lt_succ hfresh))

/-- An attempt is started when all others are abandoned and have completed. -/
theorem Lined.begin {c : Connector} (h : Lined p)
    (hweak : c.socketWeakPtr_ = some p.sockets.nextSocket)
    (hclosed : ∀ k ∈ p.inFlight, k ∈ p.sockets.closed) (hnone : p.sockets.connecting = []) :
    Lined { p with
      connector := c
      sockets := { p.sockets with
        nextSocket := p.sockets.nextSocket + 1
        connecting := p.sockets.connecting ++ [p.sockets.nextSocket] } } := by
  have hin : inFlight { p with
      connector := c
      sockets := { p.sockets with
        nextSocket := p.sockets.nextSocket + 1
        connecting := p.sockets.connecting ++ [p.sockets.nextSocket] } } =
      p.inFlight ++ [p.sockets.nextSocket] := (List.append_assoc _ _ _).symm
  have hcases : ∀ k ∈ p.inFlight ++ [p.sockets.nextSocket],
      k ∈ p.inFlight ∨ k = p.sockets.nextSocket :=
    fun k hk => (List.mem_append.1 hk).imp_right List.mem_singleton.1
  constructor
  · rw [hin]
    refine List.pairwise_append.2 ⟨h.sorted, List.pairwise_singleton _ _, ?_⟩
    intro j hj k hk
    rw [List.mem_singleton.1 hk]
    exact h.fresh j hj
  · rw [hin]
    intro k hk
    rcases hcases k hk with hk | rfl
    · exact Nat.lt_succ_of_lt (h.fresh k hk)
    · exact Nat.lt_succ_self _
  · intro k
    rw [hweak, Option.some.injEq]
    exact ⟨fun hk => congrArg (· + 1) hk.symm, fun hk => (Nat.succ.inj hk).symm⟩
  · rw [hin]
    intro k hk hne
    rcases hcases k hk with hk | rfl
    · exact hclosed k hk
    · exact absurd hweak hne
  · rw [hnone]
    exact Nat.le_refl 1

/-- After `retry` every attempt in line is abandoned. -/
theorem Lined.retry {held : Option SockId} (h : Lined p)
    (hexec : Connector.retry p held = .ok q) :
    Lined q ∧ ∀ k ∈ q.inFlight, k ∈ q.sockets.closed := by
  have hcloses : ∀ k, p.connector.socketWeakPtr_ = some k →
      ∀ j ∈ p.inFlight, j ∈ k :: p.sockets.closed := by
    intro k hk j hj
    by_cases hj' : p.connector.socketWeakPtr_ = some j
    · rw [hk] at hj'
      rw [Option.some.inj hj']
      exact List.mem_cons_self ..
    · exact List.mem_cons_of_mem _ (h.abandoned j hj hj')
  rcases Connector.retry_eq_ok.1 hexec with ⟨hdead, rfl⟩ | ⟨k, hk, -, -, ⟨-, rfl⟩ | ⟨-, rfl⟩⟩
  · refine ⟨h, ?_⟩
    intro k hk
    refine h.abandoned k hk ?_
    intro hweak
    have halive := socketAlive_of_outstanding (outstanding_of_inFlight hk)
    rw [(hdead k hweak).2] at halive
    cases halive
  · exact ⟨⟨h.sorted, h.fresh, h.latest, fun j hj _ => hcloses k hk j hj, h.one⟩, hcloses k hk⟩
  · exact ⟨⟨h.sorted, h.fresh, h.latest, fun j hj _ => hcloses k hk j hj, h.one⟩, hcloses k hk⟩

/-! ## Attempts and the connection -/

/-- A success that is about to be delivered. -/
def making : Work → Nat
  | .client (.newConnection _) => 1
  | _ => 0

/-- A success that is about to be delivered and whose socket is open. -/
def opening (closed : List SockId) : Work → Nat
  | .client (.newConnection k) => if k ∈ closed then 0 else 1
  | _ => 0

/-- Whether the client has a connection. -/
def connected (p : Process) : Nat :=
  p.client.connection_.toList.length

/-- The work that leads to a connection of the client. -/
def Work.connects : Work → Bool
  | .connector .restart => true
  | .client (.newConnection _) => true
  | _ => false

/-- The successes that are about to be delivered, the connection and the calls of `restart`. -/
def engaged (p : Process) : Nat :=
  weigh making p.pending + p.connected + weigh restarting p.pending

/-- Those of them that the client can make a connection of. -/
def committed (p : Process) : Nat :=
  weigh (opening p.sockets.closed) p.pending + p.connected + weigh restarting p.pending

/-- There is one success, connection or call of `restart` at most, the connector knows of it, and
no attempt is in line besides. -/
structure Sole (p : Process) : Prop where
  lined : Lined p
  disconnected : p.connector.state_ = .kDisconnected → ∀ k ∈ p.inFlight, k ∈ p.sockets.closed
  one : p.engaged ≤ 1
  delivered : 0 < p.engaged → p.connector.state_ = .kConnected
  alone : 0 < p.committed → p.inFlight = []

/-- Only work that connects makes a connection. -/
theorem making_connects {w : Work} (hw : Work.connects w = false) : making w = 0 := by
  unfold making
  split
  · cases hw
  · rfl

/-- Only work that connects hands an open socket over. -/
theorem opening_connects {closed : List SockId} {w : Work} (hw : Work.connects w = false) :
    opening closed w = 0 := by
  unfold opening
  split
  · cases hw
  · rfl

/-- Only work that connects restarts the connector. -/
theorem restarting_connects {w : Work} (hw : Work.connects w = false) : restarting w = 0 := by
  unfold restarting
  split
  · cases hw
  · rfl

/-- Only work of the connector connects. -/
theorem connects_ofConnector {w : Work} (hw : w.ofConnector = false) :
    Work.connects w = false := by
  unfold Work.connects
  split <;> first | rfl | cases hw

/-- Handing an open socket over is making a connection. -/
theorem opening_le_making (closed : List SockId) (w : Work) : opening closed w ≤ making w := by
  unfold opening making
  cases w with
  | client k =>
    cases k with
    | newConnection k =>
      simp only
      split_ifs <;> omega
    | removeConnection | destroyed => exact Nat.le_refl 0
  | conn | bound | setCloseCallback | server | connector | handleTimer | eraseTimer =>
    exact Nat.le_refl 0

/-- What is committed is engaged. -/
theorem committed_le_engaged (p : Process) : p.committed ≤ p.engaged := by
  have hle : weigh (opening p.sockets.closed) p.pending ≤ weigh making p.pending :=
    weigh_mono fun w _ => opening_le_making _ w
  unfold committed engaged
  omega

/-- A step that leaves what is counted as it is. -/
theorem Sole.same (h : Sole p) (hstate : q.connector.state_ = p.connector.state_)
    (hclosed : q.sockets.closed = p.sockets.closed)
    (hconnection : q.client.connection_ = p.client.connection_)
    (hin : q.inFlight = p.inFlight) (hlined : Lined q)
    (hpending : SamePending Work.connects p q) : Sole q := by
  have hconnected : q.connected = p.connected := by
    unfold connected
    rw [hconnection]
  have hengaged : q.engaged = p.engaged := by
    unfold engaged
    rw [hconnected, hpending making fun w => making_connects,
      hpending restarting fun w => restarting_connects]
  have hcommitted : q.committed = p.committed := by
    unfold committed
    rw [hclosed, hconnected, hpending _ fun w => opening_connects,
      hpending restarting fun w => restarting_connects]
  constructor
  · exact hlined
  · rw [hstate, hin, hclosed]
    exact h.disconnected
  · rw [hengaged]
    exact h.one
  · rw [hengaged, hstate]
    exact h.delivered
  · rw [hcommitted, hin]
    exact h.alone

/-- The connector and its sockets are the same. -/
theorem Sole.still (h : Sole p) (hconnector : q.connector.state_ = p.connector.state_)
    (hweak : q.connector.socketWeakPtr_ = p.connector.socketWeakPtr_)
    (hsockets : q.sockets = p.sockets)
    (hconnection : q.client.connection_ = p.client.connection_)
    (hhandling : q.handling = p.handling) (hpending : SamePending Work.connects p q) :
    Sole q := by
  have hin : q.inFlight = p.inFlight := by
    unfold inFlight
    rw [hhandling, hsockets]
  refine h.same hconnector (by rw [hsockets]) hconnection hin ?_ hpending
  exact h.lined.same hin hweak (by rw [hsockets]) (by rw [hsockets]) (by
    rw [hsockets]
    exact h.lined.one)

/-- What neither the connector nor the client sees keeps the one connection. -/
theorem Sole.apart (h : Sole p) (ha : Apart p q)
    (hconnection : q.client.connection_ = p.client.connection_)
    (hhandling : q.handling = p.handling) : Sole q :=
  h.still (by rw [ha.connector]) (by rw [ha.connector]) ha.sockets hconnection hhandling
    (ha.pending.mono fun w => connects_ofConnector)

/-- Nothing was delivered in a state in which the connector is not connected. -/
theorem Sole.none_of_state (h : Sole p) (hstate : p.connector.state_ ≠ .kConnected) :
    p.engaged = 0 := by
  by_contra hpos
  exact hstate (h.delivered (Nat.pos_of_ne_zero hpos))

/-- There is no success, no connection and no call of `restart`. -/
theorem Sole.of_none (hlined : Lined q)
    (hclosed : q.connector.state_ = .kDisconnected → ∀ k ∈ q.inFlight, k ∈ q.sockets.closed)
    (hengaged : q.engaged = 0) : Sole q := by
  have hle := committed_le_engaged q
  refine ⟨hlined, hclosed, by omega, ?_, ?_⟩
  · intro hpos
    omega
  · intro hpos
    omega

/-! ## Steps -/

/-- `retry` neither delivers nor removes anything. -/
theorem engaged_retry {held : Option SockId} (h : Connector.retry p held = .ok q) :
    q.engaged = p.engaged := by
  rcases Connector.retry_eq_ok.1 h with ⟨-, rfl⟩ | ⟨k, -, -, -, ⟨-, rfl⟩ | ⟨-, rfl⟩⟩ <;> rfl

/-- A work item is taken that does not count. -/
theorem Sole.pop {t : ThreadId} {w : Work} {rest : List (ThreadId × Work)} (h : Sole p)
    (hplaced : Placed p) (htake : Keyed.takeFirst t p.stack = some (w, rest))
    (hw : Work.connects w = false) (hhandled : w.handled = none) :
    Sole { p with stack := rest } := by
  have hhandling := handling_pop hplaced htake
  rw [hhandled] at hhandling
  exact h.still rfl rfl rfl rfl hhandling.symm (SamePending.pop htake hw)

/-- An attempt is started: all others are abandoned, and as no operation is to be aborted they
have completed. -/
theorem Sole.startInLoop {t : ThreadId} (h : Sole p)
    (hquiet : ∀ k ∈ p.sockets.connecting, k ∉ p.sockets.closed)
    (hexec : Connector.startInLoop p t = .ok q) : Sole q := by
  obtain ⟨hstate, ⟨-, -, rfl⟩ | ⟨-, rfl⟩⟩ := Connector.startInLoop_eq_ok.1 hexec
  · have hclosed := h.disconnected hstate
    have hnone : p.sockets.connecting = [] := by
      apply List.eq_nil_iff_forall_not_mem.2
      intro k hk
      exact hquiet k hk (hclosed k (List.mem_append_right _ hk))
    have hengaged : p.engaged = 0 := h.none_of_state (by rw [hstate]; decide)
    exact Sole.of_none (h.lined.begin rfl hclosed hnone) nofun hengaged
  · exact h

/-- When the connector is restarted nothing is in line. -/
theorem Sole.restart {t : ThreadId} {rest : List (ThreadId × Work)} (h : Sole p)
    (hplaced : Placed p)
    (htake : Keyed.takeFirst t p.stack = some (.connector .restart, rest))
    (hexec : Connector.restart { p with stack := rest } t = .ok q) : Sole q := by
  obtain ⟨-, rfl⟩ := Connector.restart_eq_ok.1 hexec
  have hrestarting := weigh_pop restarting htake
  have hmaking := weigh_pop making htake
  have hcounted : restarting (.connector .restart) = 1 := rfl
  have hone := h.one
  unfold engaged at hone
  have hnil : p.inFlight = [] := by
    apply h.alone
    unfold committed
    omega
  have hhandling : p.handling = handling { p with stack := rest } := handling_pop hplaced htake
  have hin : inFlight { p with stack := rest } = [] := by
    unfold inFlight
    rw [← hhandling]
    exact hnil
  have hlined : Lined { p with stack := rest } :=
    h.lined.same (hin.trans hnil.symm) rfl rfl rfl h.lined.one
  have hengaged : engaged { p with stack := rest } = 0 := by
    show weigh making ({ p with stack := rest } : Process).pending + p.connected +
      weigh restarting ({ p with stack := rest } : Process).pending = 0
    omega
  refine Sole.of_none (hlined.begin rfl ?_ (List.append_eq_nil_iff.1 hin).2) nofun hengaged
  rw [hin]
  exact List.forall_mem_nil _

/-- While a handler runs, nothing is pending that is only ever done on its thread and is not
queued. -/
theorem weigh_of_handleConnect {t : ThreadId} {k : SockId} {error : Option ErrorCode}
    {rest : List (ThreadId × Work)} {f : Work → Nat} (hplaced : Placed p) (hseq : Sequenced p)
    (htake : Keyed.takeFirst t p.stack = some (.connector (.handleConnect k error), rest))
    (hf : ∀ w, f w ≠ 0 →
      w.isQueued = false ∧ p.place w = some p.connector.loop_ ∧ w.handled = none) :
    weigh f ({ p with stack := rest } : Process).pending = 0 := by
  have hmem := (Keyed.mem_of_takeFirst htake).2 (Or.inl rfl)
  have hloop : t = p.connector.loop_ := (hplaced.stack _ hmem).place _ rfl
  have hzero : weigh f p.pending = 0 := by
    apply weigh_eq_zero.2
    intro w hw
    by_contra hpos
    obtain ⟨hqueued, hplace, hhandled⟩ := hf w hpos
    rcases List.mem_append.1 hw with hw | hw
    · obtain ⟨⟨u, v⟩, he, rfl⟩ := List.mem_map.1 hw
      have hu : u = p.connector.loop_ := (hplaced.stack _ he).place _ hplace
      have halone := hseq.alone t _ (Keyed.mem_ofKey.2 hmem) rfl
      have hin : v ∈ p.stackOf t := by
        rw [hloop, ← hu]
        exact Keyed.mem_ofKey.2 he
      rw [halone] at hin
      obtain rfl := List.mem_singleton.1 hin
      cases hhandled
    · obtain ⟨e, he, rfl⟩ := List.mem_map.1 hw
      rw [hseq.queued e he] at hqueued
      cases hqueued
  have hpop := weigh_pop f htake
  omega

/-- While a handler runs, its attempt is the first in line, and there is no connection and nothing
that makes one. -/
theorem Sole.none_of_handleConnect {t : ThreadId} {k : SockId} {error : Option ErrorCode}
    {rest : List (ThreadId × Work)} (h : Sole p) (hplaced : Placed p) (hseq : Sequenced p)
    (htake : Keyed.takeFirst t p.stack = some (.connector (.handleConnect k error), rest)) :
    p.inFlight = k :: inFlight { p with stack := rest } ∧ p.connected = 0 ∧
      weigh making ({ p with stack := rest } : Process).pending = 0 ∧
      weigh restarting ({ p with stack := rest } : Process).pending = 0 := by
  have hhandling : p.handling = k :: handling { p with stack := rest } :=
    handling_pop hplaced htake
  have hin : p.inFlight = k :: inFlight { p with stack := rest } := by
    unfold inFlight
    rw [hhandling]
    rfl
  refine ⟨hin, ?_, ?_, ?_⟩
  · by_contra hpos
    have hnil : p.inFlight = [] := by
      apply h.alone
      unfold committed
      omega
    rw [hin] at hnil
    cases hnil
  · refine weigh_of_handleConnect hplaced hseq htake ?_
    intro w hw
    unfold making at hw
    split at hw
    · exact ⟨rfl, congrArg some hplaced.connectorLoop.symm, rfl⟩
    · exact absurd rfl hw
  · refine weigh_of_handleConnect hplaced hseq htake ?_
    intro w hw
    unfold restarting at hw
    split at hw
    · exact ⟨rfl, rfl, rfl⟩
    · exact absurd rfl hw

/-- The success that a handler delivers is the last attempt, unless its socket was closed. -/
theorem Lined.succeeds {t : ThreadId} {k : SockId} (h : Lined p)
    {rest : List (ThreadId × Work)} (hin : p.inFlight = k :: inFlight { p with stack := rest })
    (hconnected : p.connected = 0)
    (hmaking : weigh making ({ p with stack := rest } : Process).pending = 0)
    (hrestarting : weigh restarting ({ p with stack := rest } : Process).pending = 0) :
    Sole (Process.schedule { p with
      stack := rest
      connector := { p.connector with state_ := .kConnected } } t
      [.client (.newConnection k)] []) := by
  have hweigh : ∀ f : Work → Nat, weigh f (Process.schedule { p with
      stack := rest
      connector := { p.connector with state_ := .kConnected } } t
      [.client (.newConnection k)] []).pending =
      weigh f ({ p with stack := rest } : Process).pending + f (.client (.newConnection k)) := by
    intro f
    rw [weigh_schedule]
    rfl
  have hsame : inFlight (Process.schedule { p with
      stack := rest
      connector := { p.connector with state_ := .kConnected } } t
      [.client (.newConnection k)] []) = inFlight { p with stack := rest } := by
    unfold inFlight handling pending Process.schedule
    rw [List.append_nil]
    rfl
  constructor
  · exact h.tail (hin.trans (congrArg (k :: ·) hsame.symm)) rfl rfl
  · intro hstate
    cases hstate
  · unfold engaged
    rw [hweigh, hweigh, hmaking, hrestarting]
    show 0 + 1 + p.connected + (0 + 0) ≤ 1
    omega
  · intro _
    rfl
  · intro hpos
    rw [hsame]
    refine h.tail_eq_nil hin ?_
    intro hclosed
    -- the socket was closed, so the client will not make a connection of it
    have hle : weigh (opening p.sockets.closed) ({ p with stack := rest } : Process).pending ≤
        weigh making ({ p with stack := rest } : Process).pending :=
      weigh_mono fun w _ => opening_le_making _ w
    unfold committed at hpos
    rw [hweigh, hweigh, hrestarting] at hpos
    have hzero : opening p.sockets.closed (.client (.newConnection k)) = 0 := if_pos hclosed
    have hpos' : 0 < weigh (opening p.sockets.closed)
        ({ p with stack := rest } : Process).pending +
        opening p.sockets.closed (.client (.newConnection k)) + p.connected + (0 + 0) := hpos
    omega

/-- A handler delivers the success of its attempt; after a failure all attempts in line are
abandoned. -/
theorem Sole.handleConnect {t : ThreadId} {k : SockId} {error : Option ErrorCode}
    {rest : List (ThreadId × Work)} (h : Sole p) (hplaced : Placed p) (hseq : Sequenced p)
    (htake : Keyed.takeFirst t p.stack = some (.connector (.handleConnect k error), rest))
    (hexec : Connector.handleConnect { p with stack := rest } t k error = .ok q) : Sole q := by
  obtain ⟨hin, hconnected, hmaking, hrestarting⟩ := h.none_of_handleConnect hplaced hseq htake
  cases error with
  | none =>
    obtain rfl := pure_eq_ok.1 hexec
    exact h.lined.succeeds hin hconnected hmaking hrestarting
  | some e =>
    have hlined : Lined { p with
        stack := rest
        connector := { p.connector with state_ := .kDisconnected } } :=
      h.lined.tail hin rfl rfl
    obtain ⟨hq, hclosed⟩ := hlined.retry hexec
    refine Sole.of_none hq (fun _ => hclosed) ?_
    rw [engaged_retry hexec]
    show weigh making ({ p with stack := rest } : Process).pending + p.connected +
      weigh restarting ({ p with stack := rest } : Process).pending = 0
    omega

/-- `stopInLoop` abandons the attempts, and does nothing to a connection that is established. -/
theorem Sole.stopInLoop {t : ThreadId} (h : Sole p)
    (hexec : Connector.stopInLoop p t = .ok q) : Sole q := by
  obtain ⟨-, ⟨hstate, hretry⟩ | ⟨-, rfl⟩⟩ := Connector.stopInLoop_eq_ok.1 hexec
  · have hengaged : p.engaged = 0 := h.none_of_state (by rw [hstate]; decide)
    have hlined : Lined { p with connector := { p.connector with state_ := .kDisconnected } } :=
      h.lined.same rfl rfl rfl rfl h.lined.one
    obtain ⟨hq, hclosed⟩ := hlined.retry hretry
    refine Sole.of_none hq (fun _ => hclosed) ?_
    rw [engaged_retry hretry]
    exact hengaged
  · exact h

/-- A success whose socket is open becomes the connection. -/
theorem Sole.newConnection {t : ThreadId} {peer : List Char} {k : SockId}
    {rest : List (ThreadId × Work)} (h : Sole p)
    (htake : Keyed.takeFirst t p.stack = some (.client (.newConnection k), rest))
    (hhandling : p.handling = q.handling)
    (hexec : TcpClient.newConnection { p with stack := rest } t k peer = .ok q) : Sole q := by
  obtain ⟨⟨-, hopen⟩, rfl⟩ := TcpClient.newConnection_eq_ok.1 hexec
  have hmaking := weigh_pop making htake
  have hrestarting := weigh_pop restarting htake
  have hcounted : making (.client (.newConnection k)) = 1 := rfl
  have hone := h.one
  unfold engaged at hone
  have hstate : p.connector.state_ = .kConnected := by
    apply h.delivered
    unfold engaged
    omega
  have hnil : p.inFlight = [] := by
    apply h.alone
    have hpositive := le_weigh (f := opening p.sockets.closed)
      (mem_pending_of_head (head_stackOf htake))
    have hopening : opening p.sockets.closed (.client (.newConnection k)) = 1 := if_neg hopen
    unfold committed
    omega
  have hreleases : ∀ f : Work → Nat, (∀ w, Work.connects w = false → f w = 0) →
      weigh f (releases p.client.connection_.toList ++
        [.conn p.nextConn .connectEstablished, .conn p.nextConn .release]) = 0 := by
    intro f hf
    apply weigh_eq_zero.2
    intro w hw
    rcases List.mem_append.1 hw with hw | hw
    · obtain ⟨c, -, rfl⟩ := mem_releases hw
      exact hf _ rfl
    · simp only [List.mem_cons, List.not_mem_nil, or_false] at hw
      rcases hw with rfl | rfl <;> exact hf _ rfl
  have hpending : ∀ f : Work → Nat, (∀ w, Work.connects w = false → f w = 0) →
      ∀ (g : ConnId → Connection) (n : ConnId) (u : TcpClient),
      weigh f (Process.schedule { p with
        stack := rest, conns := g, nextConn := n, client := u } t
          (releases p.client.connection_.toList ++
            [.conn p.nextConn .connectEstablished, .conn p.nextConn .release]) []).pending =
        weigh f ({ p with stack := rest } : Process).pending := by
    intro f hf g n u
    rw [weigh_schedule, hreleases f hf]
    rfl
  constructor
  · exact h.lined.same (congrArg (· ++ p.sockets.connecting) hhandling.symm) rfl rfl rfl
      h.lined.one
  · intro hdisconnected
    rw [show p.connector.state_ = .kDisconnected from hdisconnected] at hstate
    cases hstate
  · unfold engaged
    rw [hpending making fun w => making_connects,
      hpending restarting fun w => restarting_connects]
    show _ + 1 + _ ≤ 1
    have hzero : restarting (.client (.newConnection k)) = 0 := rfl
    omega
  · intro _
    exact hstate
  · intro _
    exact (congrArg (· ++ p.sockets.connecting) hhandling.symm).trans hnil

/-- The connection goes; the connector may be restarted. -/
theorem Sole.removeConnection {t : ThreadId} {c : ConnId} (h : Sole p)
    (hhandling : p.handling = q.handling)
    (hexec : TcpClient.removeConnection p t c = .ok q) : Sole q := by
  obtain ⟨-, -, hconnection, rfl⟩ := TcpClient.removeConnection_eq_ok.1 hexec
  have hconnected : p.connected = 1 := by
    unfold connected
    rw [hconnection]
    rfl
  have hone := h.one
  unfold engaged at hone
  have hstate : p.connector.state_ = .kConnected := by
    apply h.delivered
    unfold engaged
    omega
  have hnil : p.inFlight = [] := by
    apply h.alone
    unfold committed
    omega
  have hadded : ∀ f : Work → Nat, f (.conn c .release) = 0 →
      f (.bound c .connectDestroyed) = 0 → ∀ u : TcpClient,
      weigh f (Process.schedule { p with client := u } t (.conn c .release ::
          if p.client.retry_ && p.client.connect_ then [.connector .restart] else [])
        [(p.client.loop_, .bound c .connectDestroyed)]).pending ≤
      weigh f p.pending + f (.connector .restart) := by
    intro f hrelease hbound u
    rw [weigh_schedule]
    have hsame : weigh f ({ p with client := u } : Process).pending = weigh f p.pending := rfl
    rw [hsame]
    split_ifs <;> simp [hrelease, hbound]
  have hmakes := hadded making rfl rfl { p.client with connection_ := none }
  have hrestarts := hadded restarting rfl rfl { p.client with connection_ := none }
  have hmaking : making (.connector .restart) = 0 := rfl
  have hrestarting : restarting (.connector .restart) = 1 := rfl
  constructor
  · exact h.lined.same (congrArg (· ++ p.sockets.connecting) hhandling.symm) rfl rfl rfl
      h.lined.one
  · intro hdisconnected
    rw [show p.connector.state_ = .kDisconnected from hdisconnected] at hstate
    cases hstate
  · unfold engaged
    show _ + 0 + _ ≤ 1
    omega
  · intro _
    exact hstate
  · intro _
    exact (congrArg (· ++ p.sockets.connecting) hhandling.symm).trans hnil

/-- Running a work item keeps the one connection. -/
theorem Sole.exec {t : ThreadId} {peer : List Char} {w : Work}
    {rest : List (ThreadId × Work)} (h : Sole p) (hplaced : Placed p) (hseq : Sequenced p)
    (hquiet : ∀ k ∈ p.sockets.connecting, k ∉ p.sockets.closed)
    (hstays : ∀ w ∈ p.pending, w ≠ .client .destroyed)
    (htake : Keyed.takeFirst t p.stack = some (w, rest))
    (hexec : ({ p with stack := rest } : Process).exec t peer w = .ok q) : Sole q := by
  have hline := handling_run hplaced htake hexec
  by_cases hclient : ∃ k, w = .client k
  · obtain ⟨k, rfl⟩ := hclient
    obtain ⟨-, hexec⟩ := exec_client_eq_ok.1 hexec
    cases k with
    | newConnection socket => exact h.newConnection htake hline hexec
    | removeConnection c =>
      have hpop : p.handling = handling { p with stack := rest } := handling_pop hplaced htake
      exact (h.pop hplaced htake rfl rfl).removeConnection (hpop.symm.trans hline) hexec
    | destroyed => exact absurd rfl (hstays _ (mem_pending_of_head (head_stackOf htake)))
  have hconnection := exec_client hexec fun k hk => hclient ⟨k, hk⟩
  by_cases hside : w.ofConnector = false
  · have hnone : w.handled = none := handled_of_handles (handles_of_ofConnector hside)
    have hpop := handling_pop hplaced htake
    rw [hnone] at hline hpop
    refine (h.pop hplaced htake (connects_ofConnector hside) hnone).apart
      (exec_apart hexec hside ?_) ?_ ?_
    · intro c hc
      exact hclient ⟨_, hc⟩
    · rw [hconnection]
    · exact hline.symm.trans hpop
  cases w with
  | conn | bound | setCloseCallback | server => exact absurd rfl hside
  | client k => exact absurd ⟨k, rfl⟩ hclient
  | connector k =>
    obtain ⟨-, hexec⟩ := Connector.exec_eq_ok.1 hexec
    cases k with
    | startInLoop => exact (h.pop hplaced htake rfl rfl).startInLoop hquiet hexec
    | stopInLoop => exact (h.pop hplaced htake rfl rfl).stopInLoop hexec
    | restart => exact h.restart hplaced htake hexec
    | handleConnect k error => exact h.handleConnect hplaced hseq htake hexec
  | handleTimer timer error =>
    have hpop := h.pop hplaced htake rfl rfl
    have hpopped : p.handling = handling { p with stack := rest } := handling_pop hplaced htake
    obtain rfl := pure_eq_ok.1 hexec
    rcases TimerQueue.handleTimer_cases { p with stack := rest } t timer error with
      ⟨-, hq⟩ | ⟨-, -, hq⟩ | ⟨-, -, hq⟩
    · rw [hq]
      exact hpop
    · rw [hq] at hline ⊢
      refine hpop.still rfl rfl rfl rfl (hline.symm.trans hpopped)
        (SamePending.trans (SamePending.of_eq rfl rfl) (SamePending.schedule ?_ nofun))
      intro w hw
      simp only [List.mem_cons, List.not_mem_nil, or_false] at hw
      rcases hw with rfl | rfl <;> rfl
    · rw [hq]
      exact hpop.still rfl rfl rfl rfl rfl (SamePending.of_eq rfl rfl)
  | eraseTimer timer =>
    obtain rfl := pure_eq_ok.1 hexec
    exact (h.pop hplaced htake rfl rfl).still rfl rfl rfl rfl rfl (SamePending.of_eq rfl rfl)

/-- A call of `start` sets `connect_` and makes or posts a call of `startInLoop`. -/
theorem Sole.start {t : ThreadId} (h : Sole p)
    (hhandling : (Connector.start p t).handling = p.handling) : Sole (Connector.start p t) := by
  refine h.still rfl rfl rfl rfl hhandling (SamePending.trans (SamePending.of_eq rfl rfl)
    (SamePending.schedule ?_ ?_))
  · intro w hw
    rw [mem_callIf hw]
    rfl
  · intro e he
    rw [mem_postIf he]
    rfl

/-- A call of `stop` clears `connect_`, posts `stopInLoop` and cancels the timer. -/
theorem Sole.stop (h : Sole p) (hhandling : (Connector.stop p).handling = p.handling) :
    Sole (Connector.stop p) := by
  have hstopped : SamePending Work.connects p ({ p with
      connector := { p.connector with connect_ := false }
      queue := p.queue ++ [(p.connector.loop_, .connector .stopInLoop)] } : Process) :=
    SamePending.post rfl
  unfold Connector.stop at hhandling ⊢
  rcases TimerQueue.cancel_cases { p with
      connector := { p.connector with connect_ := false }
      queue := p.queue ++ [(p.connector.loop_, .connector .stopInLoop)] }
      p.connector.reConnectTimer_ with hc | ⟨id, -, -, hc⟩ | ⟨id, s, -, -, -, hc⟩
  · rw [hc] at hhandling ⊢
    exact h.still rfl rfl rfl rfl hhandling hstopped
  · rw [hc] at hhandling ⊢
    exact h.still rfl rfl rfl rfl hhandling (hstopped.trans (SamePending.post rfl))
  · rw [hc] at hhandling ⊢
    exact h.still rfl rfl rfl rfl hhandling (hstopped.trans (SamePending.of_eq rfl rfl))

/-- A step of a process in which operations are aborted at once. -/
theorem Sole.step {e : ProcessEvent} (h : Sole p) (hplaced : Placed p) (hseq : Sequenced p)
    (hstays : ∀ w ∈ p.pending, w ≠ .client .destroyed) (hkeeps : e.KeepsClient)
    (haborts : p.aborting = true → p.aborts e = true)
    (hstep : Process.step e p = .ok q) : Sole q := by
  by_cases he : e.onConnector = false
  · have hclient := client_of_step hstep
    have hrun : ∀ u peer, e ≠ .run u peer := by
      rintro u peer rfl
      cases he
    have hdone : ∀ k error, e ≠ .connectDone k error := by
      rintro k error rfl
      cases he
    refine h.apart (step_apart hstep he) ?_ (handling_step hplaced hstep hrun hdone)
    generalize q.client = u at hclient
    cases hclient with
    | same | disconnects | enablesRetry => rfl
    | makes | removes | dies | connects | stops | destructs => cases he
  cases e with
  | run t peer =>
    obtain ⟨w, rest, htake, -, hexec⟩ := run_eq_ok.1 hstep
    have hnone : p.aborting = false := by
      by_contra hsome
      cases haborts (by simpa using hsome)
    exact h.exec hplaced hseq (fun k => not_mem_closed_of_aborting hnone) hstays htake hexec
  | clientCall t x =>
    have hhandling := handling_step hplaced hstep nofun nofun
    obtain ⟨-, rfl⟩ := clientCall_eq_ok.1 hstep
    have hclient : ∀ b, Sole { p with client := { p.client with connect_ := b } } :=
      fun b => h.still rfl rfl rfl rfl rfl (SamePending.of_eq rfl rfl)
    cases x with
    | connect => exact (hclient true).start hhandling
    | stop => exact (hclient false).stop hhandling
    | disconnect | enableRetry => exact absurd rfl he
  | connectorCall t x =>
    have hhandling := handling_step hplaced hstep nofun nofun
    obtain ⟨-, rfl⟩ := connectorCall_eq_ok.1 hstep
    cases x with
    | start => exact h.start hhandling
    | stop => exact h.stop hhandling
    | restart => cases hkeeps
  | destroyClient t => cases hkeeps
  | connectDone socket error =>
    obtain ⟨⟨hmem, -⟩, hq⟩ := connectDone_eq_ok.1 hstep
    have honly : p.sockets.connecting = [socket] := by
      obtain ⟨ks, js, hsplit⟩ := List.append_of_mem hmem
      have hone := h.lined.one
      rw [hsplit, List.length_append, List.length_cons] at hone
      rw [hsplit, List.length_eq_zero_iff.1 (show ks.length = 0 by omega),
        List.length_eq_zero_iff.1 (show js.length = 0 by omega)]
      rfl
    have hin := inFlight_connectDone honly hstep
    subst hq
    refine h.same rfl rfl rfl hin (h.lined.same hin rfl rfl rfl ?_)
      (SamePending.trans (SamePending.of_eq (q := { p with sockets := { p.sockets with
        connecting := p.sockets.connecting.erase socket } }) rfl rfl) (SamePending.post rfl))
    exact Nat.le_trans (List.length_erase_le ..) h.lined.one
  | timerExpires timer =>
    have hhandling := handling_step hplaced hstep nofun nofun
    obtain ⟨-, rfl⟩ := timerExpires_eq_ok.1 hstep
    exact h.still rfl rfl rfl rfl hhandling (SamePending.trans (SamePending.of_eq (q := { p with
      timers := p.timers.setStatus timer .expired }) rfl rfl) (SamePending.post rfl))
  | dequeue | return_ | call | keep | keepConnection | drop | consume | receive | readFails
  | transmit | sendFails | accept | destroyServer => exact absurd rfl he

/-! ## The connections of the client -/

/-- A client that is kept is not about to be destroyed. -/
theorem stays_step {e : ProcessEvent} (h : ∀ w ∈ p.pending, w ≠ .client .destroyed)
    (hkeeps : e.KeepsClient) (hstep : Process.step e p = .ok q) :
    ∀ w ∈ q.pending, w ≠ .client .destroyed := by
  intro w hw
  rintro rfl
  rcases (step_shifts hstep).mem hw with hold | hnew | hnew
  · exact h _ hold rfl
  · obtain ⟨t, rfl⟩ := destroyClient_of_calledBy hnew
    exact hkeeps
  · cases hnew

/-- What a step removes is seen from what runs. -/
theorem removedBy_run {t : ThreadId} {w : Work} (hhead : (p.stackOf t).head? = some w)
    (peer : List Char) : p.removedBy (.run t peer) = match some w with
      | some (.client (.removeConnection c)) => [c]
      | _ => [] := by
  rw [← hhead, removedBy]

/-- What the step removes is a connection of the client. -/
theorem Placed.of_removedBy (h : Placed p) {e : ProcessEvent} {c : ConnId}
    (hc : c ∈ p.removedBy e) : c < p.nextConn ∧ (p.conns c).closeCallback_ = .client := by
  unfold removedBy at hc
  split at hc
  · split at hc
    · rename_i hhead
      obtain rfl := List.mem_singleton.1 hc
      have hb := h.stack _ (Keyed.mem_ofKey.1 (List.mem_of_head? hhead))
      exact ⟨hb.made c rfl, hb.maker c rfl _ rfl⟩
    · cases hc
  · cases hc

/-- A connection of the client leaves `connection_` when it is removed, and only then. -/
theorem undesignated_of_touches {c : ConnId} {e : ProcessEvent} {taken : List Work} {d : Change}
    (hplaced : Placed p) (hsole : Sole p) (hstays : ∀ w ∈ p.pending, w ≠ .client .destroyed)
    (hclient : (p.conns c).closeCallback_ = .client) (h : Touches p c e taken d) :
    weigh (removing c) taken = (if c ∈ p.removedBy e then 1 else 0) ∧
      d.undesignated = if c ∈ p.removedBy e then 1 else 0 := by
  cases h with
  | @run t peer w rest d htake hperforms =>
    have hremoved := removedBy_run (head_stackOf htake) peer
    cases hperforms with
    | clientRemoves => simp [hremoved, removing]
    | removeConnectionInLoop =>
      have hmem := (Keyed.mem_of_takeFirst htake).2 (Or.inl rfl)
      have hserver := (hplaced.stack _ hmem).maker c rfl _ rfl
      rw [hclient] at hserver
      cases hserver
    | task | bound | writeFailed | closed | released | destroyed | setCloseCallback
    | removeConnection => simp [hremoved, removing]
  | @meanwhile t peer w rest d htake hmeanwhile =>
    have hhead := head_stackOf htake
    have hmem := mem_pending_of_head hhead
    have hremoved : c ∉ p.removedBy (.run t peer) := by
      rw [removedBy_run hhead]
      split
      · rename_i b hb
        intro hc
        obtain rfl := Option.some.inj hb
        obtain rfl := List.mem_singleton.1 hc
        exact hmeanwhile.connId rfl
      · exact List.not_mem_nil
    rw [if_neg hremoved]
    cases hmeanwhile with
    | replaced hconnection =>
      have hmaking := le_weigh (f := making) hmem
      have hconnected : p.connected = 1 := by
        unfold connected
        rw [show p.client.connection_ = some c from hconnection]
        rfl
      have hone := hsole.one
      unfold engaged at hone
      have hcounted : ∀ k, making (.client (.newConnection k)) = 1 := fun _ => rfl
      rw [hcounted] at hmaking
      omega
    | clientDestroyed => exact absurd rfl (hstays _ hmem)
    | erased | destroyNext | quit | nothing => exact ⟨rfl, rfl⟩
  | returned => exact ⟨rfl, rfl⟩
  | nothing he =>
    have hremoved : p.removedBy e = [] := by
      unfold removedBy
      split
      · exact absurd rfl (he _ _)
      · rfl
    rw [hremoved]
    exact ⟨rfl, rfl⟩
  | called | disconnected | forced | spared | kept | keptConnection | dropped | consumed | received
  | readFailed | transmitted | sendFailed | replaced => exact ⟨rfl, rfl⟩

end Process

namespace ClientRun

open Process

variable {s s' : ClientRun}

/-- How many times the connection was removed. -/
def removals (s : ClientRun) (c : ConnId) : Nat :=
  if c ∈ s.removed then 1 else 0

/-- What every step of a client that stays keeps. -/
structure Kept (s : ClientRun) : Prop where
  placed : Placed s.process
  sorted : s.process.server.connections_.Sorted
  sequenced : Sequenced s.process
  stays : ∀ w ∈ s.process.pending, w ≠ .client .destroyed
  sole : Sole s.process
  removed : ∀ c ∈ s.removed,
    c < s.process.nextConn ∧ (s.process.conns c).closeCallback_ = .client
  staged : ∀ c < s.process.nextConn, (s.process.conns c).closeCallback_ = .client →
    Staged s.process c (s.removals c)
  held : ∀ c < s.process.nextConn, (s.process.conns c).closeCallback_ = .client →
    s.process.designates c + s.removals c = 1

/-- A connection that was there before the step. -/
theorem Kept.old {e : ProcessEvent} {c : ConnId} (h : Kept s)
    (hstep : clientMachine.step e s = .ok s') (hc : c < s.process.nextConn)
    (hclient : (s.process.conns c).closeCallback_ = .client) :
    Staged s'.process c (s'.removals c) ∧ s'.process.designates c + s'.removals c = 1 := by
  obtain ⟨q, habort, rfl⟩ := Halt.within_eq_ok.1 hstep
  have hrun := (abortingMachine_step_eq_ok.1 habort).2
  obtain ⟨taken, d, htouches, halters⟩ := step_touches h.placed h.sorted hc hrun
  obtain ⟨hremoving, hundesignated⟩ :=
    undesignated_of_touches h.placed h.sole h.stays hclient htouches
  have hstaged := (h.staged c hc hclient).touches (h.placed.untaken hclient) htouches halters
  have hheld := h.held c hc hclient
  have hconnection := halters.connection
  rw [hremoving] at hstaged
  rw [hundesignated] at hconnection
  have hsum : (if c ∈ s.process.removedBy e ++ s.removed then 1 else 0) =
      s.removals c + if c ∈ s.process.removedBy e then 1 else 0 := by
    unfold removals at hheld ⊢
    by_cases hnew : c ∈ s.process.removedBy e
    · rw [if_pos hnew] at hconnection ⊢
      have hold : c ∉ s.removed := by
        intro hold
        rw [if_pos hold] at hheld
        omega
      rw [if_neg hold, if_pos (List.mem_append_left _ hnew)]
    · rw [if_neg hnew]
      simp [hnew]
  unfold removals
  rw [hsum]
  refine ⟨hstaged, ?_⟩
  show q.designates c + _ = 1
  omega

/-- The connection that the step makes. -/
theorem Kept.born {e : ProcessEvent} {q : Process} {d : Change} {n m : Nat} (h : Kept s)
    (hm : Makes s.process e d n m) (hb : Born q s.process.nextConn d n m)
    (hclient : (q.conns s.process.nextConn).closeCallback_ = .client) :
    q.designates s.process.nextConn = 1 ∧
      s.process.nextConn ∉ s.process.removedBy e ++ s.removed := by
  constructor
  · rw [hb.connection]
    rw [hb.record] at hclient
    cases hm with
    | accepts => cases hclient
    | connects => rfl
  · intro hmem
    rcases List.mem_append.1 hmem with hmem | hmem
    · exact Nat.lt_irrefl _ (h.placed.of_removedBy hmem).1
    · exact Nat.lt_irrefl _ (h.removed _ hmem).1

/-- Every step of a kept client keeps its one connection. -/
theorem Kept.step {e : ProcessEvent} (h : Kept s) (hkeeps : e.KeepsClient)
    (hstep : clientMachine.step e s = .ok s') : Kept s' := by
  have hold := fun c => h.old (c := c) hstep
  obtain ⟨q, habort, rfl⟩ := Halt.within_eq_ok.1 hstep
  obtain ⟨haborts, hrun⟩ := abortingMachine_step_eq_ok.1 habort
  obtain ⟨hplaced, hfollows⟩ := Moves.step h.placed hrun
  have hconns : ∀ c < q.nextConn, (q.conns c).closeCallback_ = .client →
      Staged q c (ClientRun.removals ⟨q, s.process.removedBy e ++ s.removed⟩ c) ∧
        q.designates c + ClientRun.removals ⟨q, s.process.removedBy e ++ s.removed⟩ c = 1 := by
    intro c hc hclient
    rcases old_or_born h.placed h.sorted hrun hc with hmade | ⟨rfl, d, n, m, hm, hb⟩
    · rw [hfollows.maker c hmade] at hclient
      exact hold c hmade hclient
    · obtain ⟨hdesignates, hfresh⟩ := h.born hm hb hclient
      have hzero : ClientRun.removals ⟨q, s.process.removedBy e ++ s.removed⟩
          s.process.nextConn = 0 := if_neg hfresh
      rw [hzero]
      exact ⟨Staged.born hm hb, hdesignates⟩
  constructor
  · exact hplaced
  · exact sorted_step h.sorted hrun
  · exact h.sequenced.step hrun
  · exact stays_step h.stays hkeeps hrun
  · exact h.sole.step h.placed h.sequenced h.stays hkeeps haborts hrun
  · intro c hc
    have hmade : c < s.process.nextConn ∧ (s.process.conns c).closeCallback_ = .client := by
      rcases List.mem_append.1 hc with hc | hc
      · exact h.placed.of_removedBy hc
      · exact h.removed c hc
    refine ⟨Nat.lt_of_lt_of_le hmade.1 hfollows.nextConn, ?_⟩
    rw [hfollows.maker c hmade.1]
    exact hmade.2
  · exact fun c hc hclient => (hconns c hc hclient).1
  · exact fun c hc hclient => (hconns c hc hclient).2

/-- A new client has no connection. -/
theorem kept_initial (hs : clientMachine.init s) : Kept s := by
  obtain ⟨hp, hremoved⟩ := hs
  have hplaced := placed_initial hp
  have hsorted := sorted_initial hp
  have hsequenced := sequenced_initial hp
  obtain ⟨p, removed⟩ := s
  obtain ⟨baseLoop, pool, clientLoop, ipPort, serverName, clientName, m, w, -, -, rfl⟩ := hp
  subst hremoved
  have hlined : Lined (Process.initial baseLoop pool clientLoop ipPort serverName clientName m w) :=
    ⟨.nil, nofun, fun k => ⟨nofun, nofun⟩, nofun, Nat.zero_le 1⟩
  exact ⟨hplaced, hsorted, hsequenced, nofun, Sole.of_none hlined nofun rfl, nofun, nofun, nofun⟩

/-- `connection_` tells which connection remains. -/
theorem Kept.designated (h : Kept s) (c : ConnId) :
    s.process.client.connection_ = some c ↔ s.Remains c := by
  constructor
  · intro hconnection
    obtain ⟨hc, hclient⟩ := h.placed.connection c hconnection
    refine ⟨hc, hclient, ?_⟩
    intro hremoved
    have hheld := h.held c hc hclient
    unfold designates removals at hheld
    rw [if_pos hconnection, if_pos hremoved] at hheld
    omega
  · rintro ⟨hc, hclient, hremoved⟩
    have hheld := h.held c hc hclient
    unfold designates removals at hheld
    rw [if_neg hremoved] at hheld
    by_contra hconnection
    rw [if_neg hconnection] at hheld
    omega

/-- A call of `removeConnection` is pending only for a connection that was not removed. -/
theorem Kept.remains_of_removing {c : ConnId} (h : Kept s)
    (hmem : Work.client (.removeConnection c) ∈ s.process.pending) : s.Remains c := by
  have hmade := h.placed.client_removes hmem
  refine ⟨hmade.1, hmade.2, ?_⟩
  intro hremoved
  have hclosing := le_weigh (f := closing c) hmem
  have hone : closing c (.client (.removeConnection c)) = 1 := if_pos rfl
  have hdisconnected := (h.staged c hmade.1 hmade.2).disconnected
  unfold removals at hdisconnected
  rw [if_pos hremoved] at hdisconnected
  split_ifs at hdisconnected
  omega

/-- The invariant says what is wanted. -/
theorem Kept.oneConnection (h : Kept s) : s.OneConnection := by
  constructor
  · intro c d hc hd
    have hsome := (h.designated c).2 hc
    rw [(h.designated d).2 hd] at hsome
    exact (Option.some.inj hsome).symm
  · exact h.designated
  · intro t k hhead
    have hmaking := le_weigh (f := making) (mem_pending_of_head hhead)
    have hone := h.sole.one
    unfold engaged at hone
    have hcounted : making (.client (.newConnection k)) = 1 := rfl
    have hzero : s.process.connected = 0 := by omega
    exact Option.toList_eq_nil_iff.1 (List.length_eq_zero_iff.1 hzero)
  · intro e he
    obtain ⟨t, peer, w, rest, -, htake, hfails⟩ := step_fails he rfl (by simp)
    cases hfails with
    | @removeConnection c hconnection =>
      apply hconnection
      exact (h.designated c).2 (h.remains_of_removing (mem_pending_of_head (head_stackOf htake)))

/-- In every run of a client that stays and is used through its own functions, it has one
connection at a time. -/
theorem oneConnection_of_keepsClient
    (hs : clientMachine.ReachableUnder (fun _ e => e.KeepsClient) s) : s.OneConnection := by
  have h : Kept s :=
    hs.invariant (fun _ => kept_initial) fun _ _ _ h hkeeps hstep => h.step hkeeps hstep
  exact h.oneConnection

/-- The connection is closed by the peer, and the client reconnects. -/
theorem oneConnection_reconnected : ∃ s : ClientRun,
    (s.process.client.connection_, s.removed) = (some 1, [0]) ∧ s.OneConnection := by
  have hinit : clientMachine.init ⟨initial 1 [] 0 [] [] [] false false, []⟩ :=
    ⟨⟨1, [], 0, [], [], [], false, false, by simp, by simp, rfl⟩, rfl⟩
  obtain ⟨s, hs, hobs⟩ := Machine.exists_of_run (C := fun _ e => e.KeepsClient) hinit
    (l := [.clientCall 0 .enableRetry, .clientCall 0 .connect, .run 0 [], .connectDone 0 none,
      .dequeue 0, .run 0 [], .run 0 [], .run 0 [], .run 0 [], .return_ 0, .run 0 [], .run 0 [],
      .readFails 0 .eof, .dequeue 0, .run 0 [], .run 0 [], .return_ 0, .run 0 [], .run 0 [],
      .run 0 [], .run 0 [], .run 0 [], .connectDone 1 none, .dequeue 0, .run 0 [], .run 0 [],
      .dequeue 0, .run 0 [], .run 0 []])
    (f := fun s => (s.process.client.connection_, s.removed)) (a := (some 1, [0]))
    (by decide +kernel)
  exact ⟨s, hobs, oneConnection_of_keepsClient hs⟩

end ClientRun

end LibNetToy
