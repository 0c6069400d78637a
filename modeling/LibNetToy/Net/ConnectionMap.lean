import LibNetToy.Net.Stages
import LibNetToy.Net.Threads

/-!
# The map of the connections of a server

As long as a server is not destroyed, its map holds the connections it has made and not removed,
each under its own name.  The names are numbered, so they are different while the numbers are
not used up.  A connection is established once and before anything else happens to it, and it
is told once that it was removed, after the map let it go.
-/

namespace LibNetToy

/-- The name of the connection with the number `i`. -/
def TcpServer.nameAt (s : TcpServer) (i : Nat) : List Char :=
  s.name_ ++ s.ipPort_ ++ ['#'] ++ Text.ofInt i

namespace Process

/-- The number of connections that were passed to `TcpServer::newConnection`. -/
def accepted (p : Process) : Nat :=
  (List.range p.nextConn).countP fun c => (p.conns c).closeCallback_ = .server

/-- The connection was passed to `TcpServer::newConnection`. -/
def Serves (p : Process) (c : ConnId) : Prop :=
  c < p.nextConn ∧ (p.conns c).closeCallback_ = .server

/-- The steps of a connection come in their order: `connectEstablished` is first, and
`connectDestroyed` follows the removal from the map. -/
structure InOrder (p : Process) (c : ConnId) : Prop where
  establishedOnce : (p.conns c).established ≤ 1
  establishedFirst : (p.conns c).established = 0 →
    (p.conns c).conn.socket_.reads = [] ∧ (∀ e n, .conn c (.readHandler e n) ∉ p.pending) ∧
      (p.conns c).destroys = 0
  destroyedOnce : (p.conns c).destroys ≤ 1
  destroyedLast : 0 < (p.conns c).destroys → (p.conns c).removed = 1

/-- The map holds the connections that were not removed, each under its name, no name is used
twice, and the next step does not fail the assertion of `removeConnectionInLoop`. -/
structure MapProtocol (p : Process) : Prop where
  entries : ∀ k v, (k, v) ∈ p.server.connections_ ↔
    ∃ c, v = some c ∧ p.Serves c ∧ (p.conns c).removed = 0 ∧ k = (p.conns c).conn.name_
  nodup : (AssocMap.keys p.server.connections_).Nodup
  overwritesNone : p.server.connName ∉ AssocMap.keys p.server.connections_
  removeConnectionInLoop_holds : ∀ e,
    step e p ≠ .error (.fault (.assertion .removeConnectionInLoop))
  inOrder : ∀ c, p.Serves c → p.InOrder c

/-- The server is not destroyed, and it accepts fewer than `2^31 - 1` connections. -/
def ServesOn (p : Process) : ProcessEvent → Prop
  | .accept _ => p.accepted + 1 < 2 ^ 31 - 1
  | .destroyServer _ => False
  | _ => True

instance (p : Process) (e : ProcessEvent) : Decidable (p.ServesOn e) :=
  match e with
  | .accept _ => inferInstanceAs (Decidable (_ < _))
  | .destroyServer _ => isFalse id
  | .dequeue _ | .run _ _ | .return_ _ | .call _ _ _ | .keep _ _ | .keepConnection _ | .drop _ _
  | .consume _ _ _ | .receive _ _ | .readFails _ _ | .transmit _ _ _ | .sendFails _ _
  | .destroyClient _ | .timerExpires _ | .clientCall _ _ | .connectorCall _ _
  | .connectDone _ _ => isTrue trivial

variable {p q : Process} {c : ConnId}

/-! ## The numbers of the connections -/

/-- The names of the connections of the server are numbered. -/
structure Numbered (p : Process) : Prop where
  next : p.server.nextConnId_ = p.accepted + 1
  few : p.accepted < 2 ^ 31 - 1
  name : ∀ c, p.Serves c → ∃ i ≤ p.accepted, (p.conns c).conn.name_ = p.server.nameAt i
  distinct : ∀ c d, p.Serves c → p.Serves d →
    (p.conns c).conn.name_ = (p.conns d).conn.name_ → c = d

/-- Different numbers give different names. -/
theorem nameAt_injective (s : TcpServer) : Function.Injective s.nameAt := by
  intro i j h
  have hint := Text.ofInt_injOn (Int.natCast_nonneg i) (Int.natCast_nonneg j)
    (List.append_cancel_left h)
  exact Int.natCast_inj.1 hint

/-- The next name is that of the number after the accepted ones. -/
theorem Numbered.connName (h : Numbered p) :
    p.server.connName = p.server.nameAt (p.accepted + 1) := by
  unfold TcpServer.connName TcpServer.nameAt
  rw [h.next]
  rfl

/-- The next name is none of those that are in use. -/
theorem Numbered.connName_ne (h : Numbered p) (hc : p.Serves c) :
    (p.conns c).conn.name_ ≠ p.server.connName := by
  obtain ⟨i, hi, hname⟩ := h.name c hc
  rw [hname, h.connName]
  intro heq
  have hij := nameAt_injective p.server heq
  omega

/-- A connection of the server was one before. -/
theorem Serves.of_follows (hf : Follows p q) (hc : c < p.nextConn) (h : q.Serves c) :
    p.Serves c := by
  refine ⟨hc, ?_⟩
  rw [← hf.maker c hc]
  exact h.2

/-- Without a new connection no more are accepted. -/
theorem accepted_same (hf : Follows p q) (hnext : q.nextConn = p.nextConn) :
    q.accepted = p.accepted := by
  unfold accepted
  rw [hnext]
  apply List.countP_congr
  intro c hc
  rw [hf.maker c (List.mem_range.1 hc)]

/-- A new connection counts if the server made it. -/
theorem accepted_succ (hf : Follows p q) (hnext : q.nextConn = p.nextConn + 1) :
    q.accepted = p.accepted +
      if (q.conns p.nextConn).closeCallback_ = .server then 1 else 0 := by
  unfold accepted
  rw [hnext, List.range_succ, List.countP_append, List.countP_singleton]
  congr 1
  · apply List.countP_congr
    intro c hc
    rw [hf.maker c (List.mem_range.1 hc)]
  · simp

/-- A step that makes no connection of the server. -/
theorem Numbered.same (h : Numbered p) (hf : Follows p q)
    (hnext : q.server.nextConnId_ = p.server.nextConnId_)
    (hname : q.server.nameAt = p.server.nameAt) (haccepted : q.accepted = p.accepted)
    (hold : ∀ c, q.Serves c → c < p.nextConn) : Numbered q := by
  have hsame : ∀ c, q.Serves c → p.Serves c ∧ (q.conns c).conn.name_ = (p.conns c).conn.name_ := by
    intro c hc
    exact ⟨hc.of_follows hf (hold c hc), (hf.setup c (hold c hc)).name⟩
  constructor
  · rw [hnext, haccepted]
    exact h.next
  · rw [haccepted]
    exact h.few
  · intro c hc
    obtain ⟨hserves, hc'⟩ := hsame c hc
    rw [haccepted, hname, hc']
    exact h.name c hserves
  · intro c d hc hd heq
    obtain ⟨hserves, hc'⟩ := hsame c hc
    obtain ⟨hserves', hd'⟩ := hsame d hd
    rw [hc', hd'] at heq
    exact h.distinct c d hserves hserves' heq

/-- The counter does not wrap before its last value. -/
theorem nextInt_natCast {n : Nat} (h : n + 1 < 2 ^ 31) : nextInt n = (n + 1 : Nat) := by
  unfold nextInt
  rw [Int.bmod_eq_of_le] <;> push_cast <;> omega

/-- The server makes a connection. -/
theorem Numbered.accept {ioLoop : LoopId} (h : Numbered p)
    (hf : Follows p (TcpServer.newConnection p ioLoop)) (hfew : p.accepted + 1 < 2 ^ 31 - 1) :
    Numbered (TcpServer.newConnection p ioLoop) := by
  have hnew : (TcpServer.newConnection p ioLoop).conns p.nextConn =
      Connection.make (TcpConnection.make ioLoop p.server.connName p.server.messageCallback_
        p.server.writeCompleteCallback_) .server none := Function.update_self ..
  have haccepted : (TcpServer.newConnection p ioLoop).accepted = p.accepted + 1 := by
    rw [accepted_succ hf rfl, hnew]
    rfl
  have hcase : ∀ c, (TcpServer.newConnection p ioLoop).Serves c →
      (p.Serves c ∧ ((TcpServer.newConnection p ioLoop).conns c).conn.name_ =
        (p.conns c).conn.name_) ∨
      (c = p.nextConn ∧ ((TcpServer.newConnection p ioLoop).conns c).conn.name_ =
        p.server.connName) := by
    intro c hc
    rcases Nat.lt_succ_iff_lt_or_eq.1 hc.1 with hlt | rfl
    · exact Or.inl ⟨hc.of_follows hf hlt, (hf.setup c hlt).name⟩
    · refine Or.inr ⟨rfl, ?_⟩
      rw [hnew]
      rfl
  constructor
  · have hnext : (TcpServer.newConnection p ioLoop).server.nextConnId_ =
        nextInt p.server.nextConnId_ := rfl
    rw [hnext, haccepted, h.next]
    have hint := nextInt_natCast (n := p.accepted + 1) (by omega)
    push_cast at hint ⊢
    exact hint
  · rw [haccepted]
    exact hfew
  · intro c hc
    rw [haccepted]
    rcases hcase c hc with ⟨hserves, hname⟩ | ⟨-, hname⟩
    · obtain ⟨i, hi, hold⟩ := h.name c hserves
      exact ⟨i, Nat.le_succ_of_le hi, hname.trans hold⟩
    · exact ⟨p.accepted + 1, Nat.le_refl _, hname.trans h.connName⟩
  · intro c d hc hd heq
    rcases hcase c hc with ⟨hserves, hname⟩ | ⟨hnext, hname⟩
    · rcases hcase d hd with ⟨hserves', hname'⟩ | ⟨hnext', hname'⟩
      · rw [hname, hname'] at heq
        exact h.distinct c d hserves hserves' heq
      · rw [hname, hname'] at heq
        exact absurd heq (h.connName_ne hserves)
    · rcases hcase d hd with ⟨hserves', hname'⟩ | ⟨hnext', hname'⟩
      · rw [hname, hname'] at heq
        exact absurd heq.symm (h.connName_ne hserves')
      · rw [hnext, hnext']

/-- Every step keeps the numbers. -/
theorem Numbered.step {e : ProcessEvent} (h : Numbered p) (hplaced : Placed p)
    (hsorted : p.server.connections_.Sorted) (hserves : p.ServesOn e)
    (hstep : Process.step e p = .ok q) : Numbered q := by
  have hf := (Moves.step hplaced hstep).follows
  by_cases he : ∃ ioLoop, e = .accept ioLoop
  · obtain ⟨ioLoop, rfl⟩ := he
    obtain ⟨-, rfl⟩ := accept_eq_ok.1 hstep
    exact h.accept hf hserves
  have hfields : q.server.nextConnId_ = p.server.nextConnId_ ∧
      q.server.nameAt = p.server.nameAt := by
    have hserver := server_of_step hstep
    generalize q.server = s at hserver
    cases hserver with
    | accepts => exact absurd ⟨_, rfl⟩ he
    | same | removes | resets | quits | dies | destructs => exact ⟨rfl, rfl⟩
  rcases step_makes hplaced hsorted hstep with hnext | ⟨hnext, d, n, m, hm, hb⟩
  · refine h.same hf hfields.1 hfields.2 (accepted_same hf hnext) ?_
    intro c hc
    exact Nat.lt_of_lt_of_eq hc.1 hnext
  · have hclient : (q.conns p.nextConn).closeCallback_ = .client := by
      rw [hb.record]
      cases hm with
      | accepts => exact absurd ⟨_, rfl⟩ he
      | connects => rfl
    have haccepted := accepted_succ hf hnext
    rw [hclient] at haccepted
    refine h.same hf hfields.1 hfields.2 haccepted ?_
    intro c hc
    rcases Nat.lt_succ_iff_lt_or_eq.1 (Nat.lt_of_lt_of_eq hc.1 hnext) with hlt | rfl
    · exact hlt
    · rw [hc.2] at hclient
      cases hclient

/-! ## Before a connection is established -/

/-- Work about the connection, other than what establishes it and releases of pointers. -/
def engaging (c : ConnId) (w : Work) : Nat :=
  if w.connId = some c ∧ w ≠ .conn c .release ∧ establishing c w = 0 then 1 else 0

/-- Work about something else does not establish or destroy the connection. -/
theorem engaging_about {w : Work} (hw : w.connId ≠ some c) : engaging c w = 0 :=
  if_neg fun h => hw h.1

/-- Giving up a pointer does not establish or destroy it. -/
theorem engaging_release (c : ConnId) : engaging c (.conn c .release) = 0 :=
  if_neg fun h => h.2.1 rfl

/-- Nothing has happened to the connection: nobody reached it and no operation was started. -/
structure Unopened (p : Process) (c : ConnId) : Prop where
  refs : (p.conns c).refs = 0
  reads : (p.conns c).conn.socket_.reads = []
  sends : (p.conns c).conn.socket_.sends = []
  quiet : weigh (engaging c) p.pending = 0

namespace Unopened

/-- What is pending about the connection releases a pointer or establishes it. -/
theorem cases (h : Unopened p c) {w : Work} (hw : w ∈ p.pending) (hc : w.connId = some c) :
    w = .conn c .release ∨ w = .conn c .connectEstablished ∨
      w = .bound c .connectEstablished := by
  have hzero := weigh_eq_zero.1 h.quiet w hw
  by_contra hno
  rw [not_or, not_or] at hno
  have hest : establishing c w = 0 := by
    unfold establishing
    split
    · refine if_neg ?_
      rintro rfl
      exact hno.2.1 rfl
    · refine if_neg ?_
      rintro rfl
      exact hno.2.2 rfl
    · rfl
  have hone : engaging c w = 1 := if_pos ⟨hc, hno.1, hest⟩
  omega

/-- No callback of a connection that is not established is running. -/
theorem not_inCallbackOf (h : Unopened p c) {t : ThreadId} : p.inCallbackOf t c = false := by
  unfold inCallbackOf
  split
  · rename_i d k rest hstack
    rw [decide_eq_false_iff_not]
    rintro rfl
    have hhead : (p.stackOf t).head? = some (.conn d (.inCallback k)) := by
      rw [hstack]
      rfl
    rcases h.cases (mem_pending_of_head hhead) rfl with hw | hw | hw <;> cases hw
  · rfl

/-- Code of the user does not reach a connection that is not established. -/
theorem not_reaches (h : Unopened p c) {t : ThreadId} : p.reaches t c = false := by
  unfold reaches
  rw [h.not_inCallbackOf, h.refs]
  simp

/-- A step that neither opens the connection nor adds work to it. -/
theorem frame {taken : List Work} {d : Change} (h : Unopened p c) (ha : Alters p q c taken d)
    (hrefs : d.record.refs = (p.conns c).refs)
    (hsocket : d.record.conn.socket_ = (p.conns c).conn.socket_)
    (hadded : weigh (engaging c) d.added = 0) : Unopened q c := by
  have hpending := ha.pending (engaging c) fun w => engaging_about
  have hquiet := h.quiet
  constructor
  · rw [ha.record, hrefs]
    exact h.refs
  · rw [ha.record, hsocket]
    exact h.reads
  · rw [ha.record, hsocket]
    exact h.sends
  · omega

/-- A step after which the connection is still not established. -/
theorem touches {e : ProcessEvent} {taken : List Work} {d : Change}
    (h : (p.conns c).established = 0 → Unopened p c) (hplaced : Placed p)
    (hserver : (p.conns c).closeCallback_ = .server) (hnext : p.Untaken c)
    (ht : Touches p c e taken d) (ha : Alters p q c taken d)
    (hq : (q.conns c).established = 0) : Unopened q c := by
  rw [ha.record] at hq
  have hclient : p.client.connection_ ≠ some c := by
    intro hconnection
    rw [(hplaced.connection c hconnection).2] at hserver
    cases hserver
  have hrelease : weigh (engaging c) [.conn c .release] = 0 := by
    rw [weigh_cons, engaging_release, weigh_nil]
  cases ht with
  | @run t peer w rest d htake hperforms =>
    have hmem := mem_pending_of_head (head_stackOf htake)
    have hconn := hperforms.connId
    cases hperforms with
    | @task k eff hrel hclose hwrite hlive heff =>
      rw [show Connection.established { (p.conns c).note k with conn := eff.conn } =
        (p.conns c).established + establishing c (.conn c k) from note_established _ c k] at hq
      rcases (h (by omega)).cases hmem hconn with hw | hw | hw
      · exact absurd (Work.conn.inj hw).2 hrel
      · rw [hw] at hq
        simp [establishing] at hq
      · cases hw
    | @bound k eff hlive heff =>
      rw [show Connection.established { (p.conns c).note k with conn := eff.conn } =
        (p.conns c).established + establishing c (.conn c k) from note_established _ c k] at hq
      rcases (h (by omega)).cases hmem hconn with hw | hw | hw
      · cases hw
      · cases hw
      · cases hw
        simp [establishing] at hq
    | released | destroyed => exact (h hq).frame ha rfl rfl (weigh_nil _)
    | writeFailed | closed | setCloseCallback | removeConnection | removeConnectionInLoop
    | clientRemoves => rcases (h hq).cases hmem hconn with hw | hw | hw <;> cases hw
  | meanwhile htake hmeanwhile =>
    cases hmeanwhile with
    | erased | replaced | clientDestroyed => exact (h hq).frame ha rfl rfl hrelease
    | destroyNext htaken => exact absurd htaken (hnext _ _ (head_stackOf htake))
    | quit | nothing => exact (h hq).frame ha rfl rfl (weigh_nil _)
  | returned hhead =>
    rcases (h hq).cases (mem_pending_of_head hhead) rfl with hw | hw | hw <;> cases hw
  | called hreaches =>
    rw [(h hq).not_reaches] at hreaches
    cases hreaches
  | disconnected hconnection | forced hconnection | spared hconnection
  | keptConnection hconnection => exact absurd hconnection hclient
  | kept hin =>
    rw [(h hq).not_inCallbackOf] at hin
    cases hin
  | dropped hrefs =>
    rw [(h hq).refs] at hrefs
    exact absurd hrefs (Nat.lt_irrefl 0)
  | consumed | nothing => exact (h hq).frame ha rfl rfl (weigh_nil _)
  | received hr =>
    obtain ⟨region, rs, hreads, -⟩ := TcpConnection.receive_eq_some hr
    rw [(h hq).reads] at hreads
    cases hreads
  | readFailed hr =>
    obtain ⟨region, rs, hreads, -⟩ := TcpConnection.readFails_eq_some hr
    rw [(h hq).reads] at hreads
    cases hreads
  | transmitted hr =>
    obtain ⟨region, rs, hsends, -⟩ := TcpConnection.transmit_eq_some hr
    rw [(h hq).sends] at hsends
    cases hsends
  | sendFailed hr =>
    obtain ⟨region, rs, hsends, -⟩ := TcpConnection.sendFails_eq_some hr
    rw [(h hq).sends] at hsends
    cases hsends
  | replaced => exact (h hq).frame ha rfl rfl hrelease

/-- A connection that is made is not established. -/
theorem born {e : ProcessEvent} {d : Change} {n m : Nat} (hm : Makes p e d n m)
    (hb : Born q p.nextConn d n m) : Unopened q p.nextConn := by
  have hpending := hb.pending (engaging p.nextConn) fun w => engaging_about
  have hrecord := hb.record
  cases hm with
  | accepts | connects =>
    refine ⟨by rw [hrecord]; rfl, by rw [hrecord]; rfl, by rw [hrecord]; rfl, ?_⟩
    rw [hpending, weigh_cons, weigh_cons, engaging_release, weigh_nil]
    simp [engaging, establishing]

end Unopened

/-! ## The invariant -/

/-- Every connection of the server is in the map or was removed, and its stages tell which. -/
structure Listed (p : Process) : Prop where
  placed : Placed p
  sorted : p.server.connections_.Sorted
  unending : ∀ w ∈ p.pending, w.endsServer = false
  numbered : Numbered p
  keyed : ∀ k v, (k, v) ∈ p.server.connections_ → ∃ c, v = some c ∧ k = (p.conns c).conn.name_
  held : ∀ c, p.Serves c → p.entriesOf c + (p.conns c).removed = 1
  staged : ∀ c, p.Serves c → Staged p c (p.conns c).removed
  unopened : ∀ c, p.Serves c → (p.conns c).established = 0 → Unopened p c

namespace Listed

/-- An entry is that of a connection of the server, under its own name. -/
theorem serves_of_entry (h : Listed p) {k : List Char}
    (hmem : (k, some c) ∈ p.server.connections_) : p.Serves c ∧ k = (p.conns c).conn.name_ := by
  obtain ⟨d, hd, hk⟩ := h.keyed k _ hmem
  obtain rfl := Option.some.inj hd
  exact ⟨h.placed.entries _ hmem c rfl, hk⟩

/-- A connection that was not removed is under its name. -/
theorem entry_of_removed (h : Listed p) (hc : p.Serves c) (hremoved : (p.conns c).removed = 0) :
    ((p.conns c).conn.name_, some c) ∈ p.server.connections_ := by
  have hheld := h.held c hc
  have hpos : 0 < p.entriesOf c := by omega
  obtain ⟨⟨k, v⟩, hmem, hweight⟩ := exists_of_weigh_pos hpos
  have hv : v = some c := by
    by_contra hv
    have hzero : entryHolds c (k, v) = 0 := if_neg hv
    omega
  subst hv
  obtain ⟨-, rfl⟩ := h.serves_of_entry hmem
  exact hmem

/-- The call that removes a connection is pending only as long as it was not removed. -/
theorem removed_of_removing (h : Listed p)
    (hmem : Work.server (.removeConnectionInLoop c) ∈ p.pending) :
    p.Serves c ∧ (p.conns c).removed = 0 := by
  have hserves : p.Serves c := by
    rcases List.mem_append.1 hmem with hw | hw
    · obtain ⟨⟨t, w⟩, he, rfl⟩ := List.mem_map.1 hw
      exact ⟨(h.placed.stack _ he).made c rfl, (h.placed.stack _ he).maker c rfl _ rfl⟩
    · obtain ⟨⟨l, w⟩, he, rfl⟩ := List.mem_map.1 hw
      exact ⟨(h.placed.queue _ he).made c rfl, (h.placed.queue _ he).maker c rfl _ rfl⟩
  refine ⟨hserves, ?_⟩
  have hclosing := le_weigh (f := closing c) hmem
  have hone : closing c (.server (.removeConnectionInLoop c)) = 1 := if_pos rfl
  have hdisconnected := (h.staged c hserves).disconnected
  split_ifs at hdisconnected <;> omega

/-- A connection that was not removed is found under its name. -/
theorem lookup_of_removed (h : Listed p) (hc : p.Serves c) (hremoved : (p.conns c).removed = 0) :
    AssocMap.lookup (p.conns c).conn.name_ p.server.connections_ = some (some c) :=
  AssocMap.lookup_of_mem h.sorted.nodup (h.entry_of_removed hc hremoved)

/-- The name of a new connection is not in the map. -/
theorem untaken (h : Listed p) (c : ConnId) : p.Untaken c := by
  intro t k hhead
  have hno := h.unending _ (mem_pending_of_head hhead)
  cases hno

/-- The map lets a connection go when it is removed, and only then. -/
theorem removed_of_touches {e : ProcessEvent} {taken : List Work} {d : Change} (h : Listed p)
    (hc : p.Serves c) (ht : Touches p c e taken d) :
    d.record.removed = (p.conns c).removed + d.unlisted ∧
      weigh (removing c) taken = d.unlisted := by
  have hclient : p.client.connection_ ≠ some c := by
    intro hconnection
    have hmaker := (h.placed.connection c hconnection).2
    rw [hc.2] at hmaker
    cases hmaker
  have hnote : ∀ k, ((p.conns c).note k).removed = (p.conns c).removed := by
    intro k
    unfold Connection.note
    split <;> rfl
  cases ht with
  | @run t peer w rest d htake hperforms =>
    have hmem := mem_pending_of_head (head_stackOf htake)
    cases hperforms with
    | task | bound => exact ⟨hnote _, rfl⟩
    | removeConnectionInLoop hn =>
      have hlookup := h.lookup_of_removed hc (h.removed_of_removing hmem).2
      rw [if_pos hlookup] at hn
      subst hn
      exact ⟨rfl, by simp [removing]⟩
    | clientRemoves hconnection => exact absurd hconnection hclient
    | writeFailed | closed | released | destroyed | setCloseCallback | removeConnection =>
      exact ⟨rfl, rfl⟩
  | @meanwhile t peer w rest d htake hmeanwhile =>
    have hmem := mem_pending_of_head (head_stackOf htake)
    cases hmeanwhile with
    | @erased b hb hlookup =>
      have hname := (h.serves_of_entry (AssocMap.mem_of_lookup hlookup)).2
      exact absurd (h.numbered.distinct b c (h.removed_of_removing hmem).1 hc hname) hb
    | destroyNext | quit =>
      have hno := h.unending _ hmem
      cases hno
    | replaced | clientDestroyed | nothing => exact ⟨rfl, rfl⟩
  | replaced hlife hlookup =>
    have hname := (h.serves_of_entry (AssocMap.mem_of_lookup hlookup)).2
    exact absurd hname.symm (h.numbered.connName_ne hc)
  | returned | called | disconnected | forced | spared | kept | keptConnection | dropped
  | consumed | received | readFailed | transmitted | sendFailed | nothing => exact ⟨rfl, rfl⟩

/-- A connection that was there before the step. -/
theorem old {e : ProcessEvent} (h : Listed p) (hstep : Process.step e p = .ok q)
    (hc : p.Serves c) : q.entriesOf c + (q.conns c).removed = 1 ∧
      Staged q c (q.conns c).removed ∧ ((q.conns c).established = 0 → Unopened q c) := by
  obtain ⟨taken, d, htouches, halters⟩ := step_touches h.placed h.sorted hc.1 hstep
  obtain ⟨hremoved, hremoving⟩ := h.removed_of_touches hc htouches
  have hheld := h.held c hc
  have hentries := halters.entries
  refine ⟨?_, ?_, ?_⟩
  · rw [halters.record, hremoved]
    omega
  · rw [halters.record, hremoved, ← hremoving]
    exact (h.staged c hc).touches (h.untaken c) htouches halters
  · exact Unopened.touches (h.unopened c hc) h.placed hc.2 (h.untaken c) htouches halters

/-- The connection that the step makes. -/
theorem born {e : ProcessEvent} {d : Change} {n m : Nat} (hm : Makes p e d n m)
    (hb : Born q p.nextConn d n m) (hserver : (q.conns p.nextConn).closeCallback_ = .server) :
    q.entriesOf p.nextConn + (q.conns p.nextConn).removed = 1 ∧
      Staged q p.nextConn (q.conns p.nextConn).removed ∧ Unopened q p.nextConn := by
  have hstaged := Staged.born hm hb
  have hunopened := Unopened.born hm hb
  have hentries := hb.entries
  rw [hb.record] at hserver ⊢
  cases hm with
  | accepts => exact ⟨by rw [hentries]; rfl, hstaged, hunopened⟩
  | connects => cases hserver

/-- Every step keeps the names and the entries together. -/
theorem keyed_step {e : ProcessEvent} (h : Listed p) (hstep : Process.step e p = .ok q) :
    ∀ k v, (k, v) ∈ q.server.connections_ → ∃ c, v = some c ∧ k = (q.conns c).conn.name_ := by
  have hf := (Moves.step h.placed hstep).follows
  have hold : ∀ k v, (k, v) ∈ p.server.connections_ →
      ∃ c, v = some c ∧ k = (q.conns c).conn.name_ := by
    intro k v hmem
    obtain ⟨c, rfl, hk⟩ := h.keyed k v hmem
    have hc := (h.serves_of_entry hmem).1
    exact ⟨c, rfl, hk.trans (hf.setup c hc.1).name.symm⟩
  by_cases he : ∃ ioLoop, e = .accept ioLoop
  · obtain ⟨ioLoop, rfl⟩ := he
    obtain ⟨-, rfl⟩ := accept_eq_ok.1 hstep
    intro k v hmem
    rcases AssocMap.mem_of_mem_assign hmem with hnew | hmem
    · obtain ⟨rfl, rfl⟩ := Prod.mk.inj hnew
      refine ⟨p.nextConn, rfl, ?_⟩
      have hconn : (TcpServer.newConnection p ioLoop).conns p.nextConn =
          Connection.make (TcpConnection.make ioLoop p.server.connName p.server.messageCallback_
            p.server.writeCompleteCallback_) .server none := Function.update_self ..
      rw [hconn]
      rfl
    · exact hold k v hmem
  have hserver := server_of_step hstep
  generalize q.server = s at hserver
  cases hserver with
  | accepts => exact absurd ⟨_, rfl⟩ he
  | same | dies | destructs => exact hold
  | removes =>
    intro k v hmem
    exact hold k v (AssocMap.mem_erase.1 hmem).1
  | resets hhead | quits hhead =>
    have hno := h.unending _ (mem_pending_of_head hhead)
    cases hno

/-- A server that serves on does not end. -/
theorem unending_step {e : ProcessEvent} (h : Listed p) (hserves : p.ServesOn e)
    (hstep : Process.step e p = .ok q) : ∀ w ∈ q.pending, w.endsServer = false := by
  intro w hw
  rw [← Bool.not_eq_true]
  intro hends
  rcases (step_shifts hstep).mem hw with hold | hnew | hnew
  · rw [h.unending w hold] at hends
    cases hends
  · rcases serverEnds_of_calledBy hends hnew with ⟨t, peer, v, rfl, hhead, hv⟩ | ⟨t, rfl⟩
    · rw [h.unending v (mem_pending_of_head hhead)] at hv
      cases hv
    · exact hserves
  · rw [Work.not_isQueued_of_endsServer hends] at hnew
    cases hnew

/-- Every step of a server that serves on keeps the map right. -/
theorem step {e : ProcessEvent} (h : Listed p) (hserves : p.ServesOn e)
    (hstep : Process.step e p = .ok q) : Listed q := by
  obtain ⟨hplaced, hf⟩ := Moves.step h.placed hstep
  have hconns : ∀ c, q.Serves c → q.entriesOf c + (q.conns c).removed = 1 ∧
      Staged q c (q.conns c).removed ∧ ((q.conns c).established = 0 → Unopened q c) := by
    intro c hc
    rcases old_or_born h.placed h.sorted hstep hc.1 with hmade | ⟨rfl, d, n, m, hm, hb⟩
    · exact h.old hstep (hc.of_follows hf hmade)
    · obtain ⟨hheld, hstaged, hunopened⟩ := born hm hb hc.2
      exact ⟨hheld, hstaged, fun _ => hunopened⟩
  exact ⟨hplaced, sorted_step h.sorted hstep, h.unending_step hserves hstep,
    h.numbered.step h.placed h.sorted hserves hstep, h.keyed_step hstep,
    fun c hc => (hconns c hc).1, fun c hc => (hconns c hc).2.1, fun c hc => (hconns c hc).2.2⟩

/-- A connection is established before it is destroyed. -/
theorem inOrder (h : Listed p) (hc : p.Serves c) : p.InOrder c := by
  have hstaged := h.staged c hc
  have hheld := h.held c hc
  have hestablished := hstaged.established
  have hdestroys := hstaged.destroys
  have hdisconnected := hstaged.disconnected
  constructor
  · omega
  · intro hnone
    have hunopened := h.unopened c hc hnone
    refine ⟨hunopened.reads, ?_, ?_⟩
    · intro e n hmem
      rcases hunopened.cases hmem rfl with hw | hw | hw <;> cases hw
    · rw [hstaged.connecting.2 hnone] at hdisconnected
      rw [if_neg nofun] at hdisconnected
      omega
  · omega
  · intro hpos
    omega

/-- The map is used as it should be. -/
theorem mapProtocol (h : Listed p) : p.MapProtocol := by
  constructor
  · intro k v
    constructor
    · intro hmem
      obtain ⟨c, rfl, hk⟩ := h.keyed k v hmem
      have hc := (h.serves_of_entry hmem).1
      have hweight := le_weigh (f := entryHolds c) hmem
      have hone : entryHolds c (k, some c) = 1 := if_pos rfl
      have hheld := h.held c hc
      unfold entriesOf at hheld
      exact ⟨c, rfl, hc, by omega, hk⟩
    · rintro ⟨c, rfl, hc, hremoved, rfl⟩
      exact h.entry_of_removed hc hremoved
  · exact h.sorted.nodup
  · intro hmem
    obtain ⟨⟨k, v⟩, hentry, hk⟩ := List.mem_map.1 hmem
    obtain ⟨c, rfl, hname⟩ := h.keyed k v hentry
    exact h.numbered.connName_ne (h.serves_of_entry hentry).1 (hname.symm.trans hk)
  · intro e he
    obtain ⟨t, peer, w, rest, -, htake, hfails⟩ := step_fails he rfl (by simp)
    cases hfails with
    | removeConnectionInLoop hcount =>
      obtain ⟨hc, hremoved⟩ := h.removed_of_removing (mem_pending_of_head (head_stackOf htake))
      exact hcount (AssocMap.count_eq_one h.sorted.nodup (h.entry_of_removed hc hremoved))
  · exact fun c hc => h.inOrder hc

end Listed

/-- There is no connection at first. -/
theorem listed_initial (hp : processMachine.init p) : Listed p := by
  have hplaced := placed_initial hp
  have hsorted := sorted_initial hp
  obtain ⟨baseLoop, pool, clientLoop, ipPort, serverName, clientName, m, w, -, -, rfl⟩ := hp
  have hnone : ∀ c, ¬ Serves (initial baseLoop pool clientLoop ipPort serverName clientName m w)
      c := fun c hc => Nat.not_lt_zero c hc.1
  exact ⟨hplaced, hsorted, nofun,
    ⟨rfl, Nat.lt_of_le_of_lt (Nat.le_refl 0) (by decide), fun c hc => absurd hc (hnone c),
      fun c _ hc => absurd hc (hnone c)⟩, nofun,
    fun c hc => absurd hc (hnone c), fun c hc => absurd hc (hnone c),
    fun c hc => absurd hc (hnone c)⟩

/-- In every run of a server that accepts fewer than `2^31 - 1` connections and is not
destroyed, the map holds the connections that were not removed. -/
theorem mapProtocol_of_servesOn (hp : processMachine.ReachableUnder ServesOn p) :
    p.MapProtocol := by
  have h : Listed p :=
    hp.invariant (fun _ => listed_initial) fun _ _ _ h hserves hstep => h.step hserves hstep
  exact h.mapProtocol

/-- Two connections are accepted for another loop, and the first one is closed and removed. -/
theorem mapProtocol_removed : ∃ p : Process,
    ((p.conns 0).removed, (p.conns 0).destroys, p.server.connections_.length) = (1, 1, 1) ∧
      p.MapProtocol := by
  have hinit : processMachine.init (initial 1 [0] 2 [] [] [] false false) :=
    ⟨1, [0], 2, [], [], [], false, false, by simp, by simp, rfl⟩
  obtain ⟨p, hp, hobs⟩ := Machine.exists_of_run (C := ServesOn) hinit
    (l := [.accept 0, .run 1 [], .dequeue 0, .run 0 [], .run 0 [], .return_ 0, .run 0 [],
      .run 0 [], .accept 0, .run 1 [], .readFails 0 .eof, .dequeue 0, .run 0 [], .run 0 [],
      .return_ 0, .run 0 [], .run 0 [], .dequeue 0, .run 0 [], .run 0 [], .return_ 0, .run 0 [],
      .run 0 [], .run 0 [], .dequeue 1, .run 1 [], .dequeue 0, .run 0 []])
    (f := fun p => ((p.conns 0).removed, (p.conns 0).destroys, p.server.connections_.length))
    (a := (1, 1, 1)) (by decide +kernel)
  exact ⟨p, hobs, mapProtocol_of_servesOn hp⟩

end Process

end LibNetToy
