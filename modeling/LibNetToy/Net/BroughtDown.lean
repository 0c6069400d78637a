import LibNetToy.Net.ConnectionMap
import LibNetToy.Net.Ownership
import LibNetToy.Net.Promptness
import LibNetToy.Net.ServerDestruction

/-!
# Connections are brought down

The last pointer to a connection that was established is to be dropped when the connection is
closed, and a server that was destroyed has reported every connection down that it reported up.
The owner of an open connection goes on holding it until `connectDestroyed` is on its way, so this
fails where `connectDestroyed` does nothing, which it does for a connection that `shutdown` has
left in `kDisconnecting`, or where it is never called, since its loop is told to quit while it is
queued.  A name that is given twice, and a client that gives up a connection which is still open,
lose the pointer as well.
-/

namespace LibNetToy

/-- The connection that the functor is to destroy. -/
def Work.destroys : Work → Option ConnId
  | .bound c .connectDestroyed => some c
  | _ => none

namespace Process

/-- The last pointer to a connection that was established is dropped only when it is closed, and a
server that was destroyed has reported every connection of its own down once, if it was reported
up. -/
structure BroughtDown (p : Process) : Prop where
  dropped : ∀ t c, (p.stackOf t).head? = some (.conn c .release) → p.owners c = 1 →
    0 < (p.conns c).established → (p.conns c).conn.state_ = .kDisconnected
  reported : p.server.life = .dead → ∀ c, p.Serves c → 0 < (p.conns c).ups →
    (p.conns c).downs = 1

/-- What is to be destroyed by a functor in the queue of the loop is closed, or the functor that is
to establish it is in the queue too. -/
def Cleared (p : Process) (l : LoopId) : Prop :=
  ∀ w ∈ p.queueOf l, ∀ c ∈ w.destroys, (p.conns c).conn.state_ = .kDisconnected ∨
    .bound c .connectEstablished ∈ p.queueOf l

instance (p : Process) (l : LoopId) : Decidable (p.Cleared l) :=
  inferInstanceAs (Decidable (∀ w ∈ p.queueOf l, ∀ c ∈ w.destroys, _ ∨ _))

/-- The work item destroys no connection that is about to be closed, tells no loop to quit before
that has destroyed its open connections, and gives up no pointer of the client to a connection
that is open. -/
def BringsDownBy (p : Process) : Option Work → Prop
  | some (.bound c .connectDestroyed) =>
    (p.conns c).conn.state_ = .kConnected ∨ (p.conns c).conn.state_ = .kDisconnected
  | some (.server .quit) => p.Cleared p.server.loop_
  | some (.server (.quitLoop l)) => p.Cleared l
  | some (.client (.newConnection _)) =>
    ∀ c ∈ p.client.connection_, (p.conns c).conn.state_ = .kDisconnected
  | some (.client .destroyed) =>
    ∀ c ∈ p.client.connection_, (p.conns c).conn.state_ = .kDisconnected ∨
      .bound c .forceCloseInLoop ∈ p.pending
  | _ => True

instance (p : Process) (w : Option Work) : Decidable (p.BringsDownBy w) :=
  match w with
  | some (.bound _ .connectDestroyed) => inferInstanceAs (Decidable (_ ∨ _))
  | some (.server .quit) => inferInstanceAs (Decidable (p.Cleared _))
  | some (.server (.quitLoop l)) => inferInstanceAs (Decidable (p.Cleared l))
  | some (.client (.newConnection _)) =>
    inferInstanceAs (Decidable (∀ c ∈ p.client.connection_, _))
  | some (.client .destroyed) => inferInstanceAs (Decidable (∀ c ∈ p.client.connection_, _ ∨ _))
  | some (.bound _ .connectEstablished) | some (.bound _ .forceCloseInLoop)
  | some (.bound _ .shutdownInLoop) | some (.bound _ .startReadInLoop)
  | some (.bound _ .stopReadInLoop) | some (.bound _ (.readHandler _ _))
  | some (.bound _ (.writeHandler _ _)) | some (.bound _ (.callback _))
  | some (.bound _ (.inCallback _)) | some (.bound _ (.readAgain _)) | some (.bound _ .release)
  | some (.server (.removeConnection _)) | some (.server (.removeConnectionInLoop _))
  | some (.server .destroyNext) | some (.server (.joinLoop _)) | some (.server .destroyed)
  | some (.client (.removeConnection _)) | none | some (.conn _ _) | some (.setCloseCallback _)
  | some (.connector _) | some (.handleTimer _ _) | some (.eraseTimer _) => isTrue trivial

/-- No connection gets a name that is in use, and the work of the threads brings connections
down. -/
def BringsDown (p : Process) : ProcessEvent → Prop
  | .accept _ => p.server.connName ∉ AssocMap.keys p.server.connections_
  | .run t _ => p.BringsDownBy (p.stackOf t).head?
  | _ => True

instance (p : Process) (e : ProcessEvent) : Decidable (p.BringsDown e) :=
  match e with
  | .accept _ => inferInstanceAs (Decidable (¬ _ ∈ _))
  | .run t _ => inferInstanceAs (Decidable (p.BringsDownBy (p.stackOf t).head?))
  | .dequeue _ | .return_ _ | .call _ _ _ | .keep _ _ | .keepConnection _ | .drop _ _
  | .consume _ _ _ | .receive _ _ | .readFails _ _ | .transmit _ _ _ | .sendFails _ _
  | .destroyServer _ | .destroyClient _ | .timerExpires _ | .clientCall _ _
  | .connectorCall _ _ | .connectDone _ _ => isTrue trivial

/-- A functor that destroys the connection. -/
def parting (c : ConnId) : Work → Nat
  | .bound d .connectDestroyed => if d = c then 1 else 0
  | _ => 0

variable {p q : Process} {c : ConnId} {t : ThreadId}

/-- Work about something else does not destroy the connection. -/
theorem parting_about {w : Work} (hw : w.connId ≠ some c) : parting c w = 0 := by
  unfold parting
  split
  · exact if_neg fun h => hw (congrArg some h)
  · rfl

/-- The functor that destroys the connection. -/
theorem parting_pos {w : Work} (h : 0 < parting c w) : w = .bound c .connectDestroyed := by
  unfold parting at h
  split at h
  · split_ifs at h with hd
    · rw [hd]
    · exact absurd h (Nat.lt_irrefl 0)
  · exact absurd h (Nat.lt_irrefl 0)

/-- The functor that closes the connection. -/
theorem forcing_pos {w : Work} (h : 0 < forcing c w) : w = .bound c .forceCloseInLoop := by
  unfold forcing at h
  split at h
  · split_ifs at h with hd
    · rw [hd]
    · exact absurd h (Nat.lt_irrefl 0)
  · exact absurd h (Nat.lt_irrefl 0)

/-! ## What a connection keeps -/

/-- A connection that was reported down is not reported down less often. -/
theorem Touches.downs_le {e : ProcessEvent} {taken : List Work} {d : Change}
    (h : Touches p c e taken d) : (p.conns c).downs ≤ d.record.downs := by
  have hnote : ∀ k, (p.conns c).downs ≤ ((p.conns c).note k).downs := by
    intro k
    rw [note_downs _ c]
    exact Nat.le_add_right _ _
  cases h with
  | run htake hperforms =>
    cases hperforms with
    | task | bound => exact hnote _
    | writeFailed | closed | released | destroyed | setCloseCallback | removeConnection
    | removeConnectionInLoop | clientRemoves => exact Nat.le_refl _
  | meanwhile htake hmeanwhile => cases hmeanwhile <;> exact Nat.le_refl _
  | returned | called | disconnected | forced | spared | kept | keptConnection | dropped
  | consumed | received | readFailed | transmitted | sendFailed | replaced | nothing =>
    exact Nat.le_refl _

/-- A connection that was not removed by a step was not removed before, and the step does not
remove it. -/
theorem Touches.removed {e : ProcessEvent} {taken : List Work} {d : Change}
    (h : Touches p c e taken d) (hremoved : d.record.removed = 0) :
    (p.conns c).removed = 0 ∧ ∀ u peer, e = .run u peer →
      (p.stackOf u).head? ≠ some (.server (.removeConnectionInLoop c)) := by
  cases h with
  | @run u peer w rest d htake hperforms =>
    have hhead := head_stackOf htake
    refine ⟨?_, ?_⟩
    · cases hperforms with
      | task | bound => exact (note_removed _ _).symm.trans hremoved
      | removeConnectionInLoop => exact absurd hremoved (Nat.succ_ne_zero _)
      | writeFailed | closed | released | destroyed | setCloseCallback | removeConnection
      | clientRemoves => exact hremoved
    · rintro v peer' ⟨⟩ hremove
      rw [hhead] at hremove
      obtain rfl := Option.some.inj hremove
      cases hperforms with
      | removeConnectionInLoop => exact absurd hremoved (Nat.succ_ne_zero _)
  | @meanwhile u peer w rest d htake hmeanwhile =>
    have hhead := head_stackOf htake
    refine ⟨?_, ?_⟩
    · cases hmeanwhile <;> exact hremoved
    · rintro v peer' ⟨⟩ hremove
      rw [hhead] at hremove
      obtain rfl := Option.some.inj hremove
      cases hmeanwhile with
      | erased hd => exact hd rfl
      | nothing hw => exact hw rfl
  | nothing he => exact ⟨hremoved, fun u peer h => absurd h (he u peer)⟩
  | returned | called | disconnected | forced | spared | kept | keptConnection | dropped
  | consumed | received | readFailed | transmitted | sendFailed | replaced =>
    exact ⟨hremoved, nofun⟩

/-! ## The names of the connections -/

/-- As long as the server is not destroyed, its map holds a connection that was not removed under
its name; nothing else is under this name then or later. -/
structure Mapped (p : Process) : Prop where
  listed : p.server.life = .alive → ∀ c, p.Serves c → (p.conns c).removed = 0 →
    ((p.conns c).conn.name_, some c) ∈ p.server.connections_
  own : ∀ c, p.Serves c → (p.conns c).removed = 0 → ∀ d,
    ((p.conns c).conn.name_, some d) ∈ p.server.connections_ → d = c

/-- What is to be removed by the server is one of its connections, was not removed and is
closed. -/
theorem removing_of_reported (hplaced : Placed p) (hreported : ∀ c < p.nextConn, Reported p c)
    (hmem : Work.server (.removeConnectionInLoop c) ∈ p.pending) :
    p.Serves c ∧ (p.conns c).removed = 0 := by
  have hserves : p.Serves c := by
    rcases List.mem_append.1 hmem with hw | hw
    · obtain ⟨⟨t, w⟩, he, rfl⟩ := List.mem_map.1 hw
      exact ⟨(hplaced.stack _ he).made c rfl, (hplaced.stack _ he).maker c rfl _ rfl⟩
    · obtain ⟨⟨l, w⟩, he, rfl⟩ := List.mem_map.1 hw
      exact ⟨(hplaced.queue _ he).made c rfl, (hplaced.queue _ he).maker c rfl _ rfl⟩
  refine ⟨hserves, ?_⟩
  have hclosing := le_weigh (f := closing c) hmem
  have hone : closing c (.server (.removeConnectionInLoop c)) = 1 := if_pos rfl
  have hclosed := (hreported c hserves.1).closed
  split_ifs at hclosed <;> omega

namespace Mapped

/-- The connections that were there keep their places. -/
theorem old {e : ProcessEvent} (h : Mapped p) (hplaced : Placed p)
    (hreported : ∀ c < p.nextConn, Reported p c) (hemptied : Emptied p)
    (hdown : p.BringsDown e) (hstep : Process.step e p = .ok q) (hc : p.Serves c)
    (hremoved : (p.conns c).removed = 0)
    (hremove : ∀ u peer, e = .run u peer →
      (p.stackOf u).head? ≠ some (.server (.removeConnectionInLoop c))) :
    (q.server.life = .alive →
        ((p.conns c).conn.name_, some c) ∈ q.server.connections_) ∧
      ∀ d, ((p.conns c).conn.name_, some d) ∈ q.server.connections_ → d = c := by
  have hown := h.own c hc hremoved
  have hserver := server_of_step hstep
  generalize q.server = s at hserver
  cases hserver with
  | same => exact ⟨fun hlife => h.listed hlife c hc hremoved, hown⟩
  | accepts hlife =>
    have hlisted := h.listed hlife c hc hremoved
    have hname : p.server.connName ≠ (p.conns c).conn.name_ := by
      intro heq
      exact hdown (heq ▸ List.mem_map.2 ⟨_, hlisted, rfl⟩)
    refine ⟨fun _ => (AssocMap.mem_assign hdown).2 (Or.inr hlisted), ?_⟩
    intro d hd
    rcases (AssocMap.mem_assign hdown).1 hd with hnew | hold
    · exact absurd (Prod.mk.inj hnew).1.symm hname
    · exact hown d hold
  | @removes u peer b hhead hcount =>
    have hb : b ≠ c := by
      rintro rfl
      exact hremove u peer rfl hhead
    obtain ⟨hserves, hkept⟩ := removing_of_reported hplaced hreported (mem_pending_of_head hhead)
    refine ⟨?_, fun d hd => hown d (AssocMap.mem_erase.1 hd).1⟩
    intro hlife
    refine AssocMap.mem_erase.2 ⟨h.listed hlife c hc hremoved, ?_⟩
    intro hname
    have hother := h.listed hlife b hserves hkept
    rw [← show (p.conns c).conn.name_ = (p.conns b).conn.name_ from hname] at hother
    exact hb (hown b hother)
  | resets hhead hnext =>
    refine ⟨fun hlife => absurd hlife (hemptied.ending _ (mem_pending_of_head hhead) rfl), ?_⟩
    intro d hd
    rcases AssocMap.mem_adjust.1 hd with ⟨hreset, -⟩ | ⟨-, hold⟩
    · cases (Prod.mk.inj hreset).2
    · exact hown d hold
  | quits hhead =>
    exact ⟨fun hlife => absurd hlife (hemptied.ending _ (mem_pending_of_head hhead) rfl), nofun⟩
  | dies => exact ⟨nofun, hown⟩
  | destructs => exact ⟨nofun, hown⟩

/-- Every step that gives no name twice keeps the connections in their places. -/
theorem step {e : ProcessEvent} (h : Mapped p) (hplaced : Placed p)
    (hsorted : p.server.connections_.Sorted) (hreported : ∀ c < p.nextConn, Reported p c)
    (hemptied : Emptied p) (hdown : p.BringsDown e) (hstep : Process.step e p = .ok q) :
    Mapped q := by
  have hf := (Moves.step hplaced hstep).follows
  have hconns : ∀ c, q.Serves c → (q.conns c).removed = 0 →
      (q.server.life = .alive → ((q.conns c).conn.name_, some c) ∈ q.server.connections_) ∧
        ∀ d, ((q.conns c).conn.name_, some d) ∈ q.server.connections_ → d = c := by
    intro c hc hremoved
    rcases old_or_born hplaced hsorted hstep hc.1 with hmade | ⟨rfl, d, n, m, hm, hb⟩
    · obtain ⟨taken, d, htouches, halters⟩ := step_touches hplaced hsorted hmade hstep
      rw [halters.record] at hremoved
      obtain ⟨hkept, hremove⟩ := htouches.removed hremoved
      rw [(hf.setup c hmade).name]
      exact h.old hplaced hreported hemptied hdown hstep (hc.of_follows hf hmade) hkept hremove
    · cases hm with
      | accepts hlife =>
        obtain ⟨-, rfl⟩ := accept_eq_ok.1 hstep
        rw [hb.record]
        refine ⟨fun _ => (AssocMap.mem_assign hdown).2 (Or.inl rfl), ?_⟩
        intro d hd
        rcases (AssocMap.mem_assign hdown).1 hd with hnew | hold
        · exact Option.some.inj (Prod.mk.inj hnew).2
        · exact absurd (List.mem_map.2 ⟨_, hold, rfl⟩) hdown
      | connects hhead =>
        have hmaker := hc.2
        rw [hb.record] at hmaker
        cases hmaker
  exact ⟨fun hlife c hc hremoved => (hconns c hc hremoved).1 hlife,
    fun c hc hremoved => (hconns c hc hremoved).2⟩

end Mapped

/-! ## Who holds an open connection -/

/-- An open connection is held by its owner, or by a functor that closes it. -/
structure Attended (p : Process) (c : ConnId) : Prop where
  server : (p.conns c).closeCallback_ = .server → (p.conns c).conn.state_ ≠ .kDisconnected →
    0 < p.entriesOf c + weigh (parting c) p.pending
  client : (p.conns c).closeCallback_ = .client → (p.conns c).conn.state_ ≠ .kDisconnected →
    0 < p.designates c + weigh (forcing c) p.pending

namespace Attended

/-- The connection is closed by the step. -/
theorem of_closed (h : (q.conns c).conn.state_ = .kDisconnected) : Attended q c :=
  ⟨fun _ hopen => absurd h hopen, fun _ hopen => absurd h hopen⟩

/-- Who lets the connection go leaves it to a functor. -/
theorem keep {e : ProcessEvent} {taken : List Work} {d : Change} (h : Attended p c)
    (ht : Touches p c e taken d) (ha : Alters p q c taken d)
    (hmaker : (q.conns c).closeCallback_ = (p.conns c).closeCallback_)
    (hserver : (p.conns c).closeCallback_ = .server →
      d.unlisted + weigh (parting c) taken ≤ weigh (parting c) d.added)
    (hclient : (p.conns c).closeCallback_ = .client →
      d.undesignated + weigh (forcing c) taken ≤ weigh (forcing c) d.added) : Attended q c := by
  have hopen : (q.conns c).conn.state_ ≠ .kDisconnected →
      (p.conns c).conn.state_ ≠ .kDisconnected := by
    intro hq hp
    rw [ha.record] at hq
    exact hq (ht.state.2 hp)
  have hentries := ha.entries
  have hconnection := ha.connection
  have hparting := ha.pending (parting c) fun w => parting_about
  have hforcing := ha.pending (forcing c) fun w => forcing_about
  constructor
  · intro hmade hq
    rw [hmaker] at hmade
    have hold := h.server hmade (hopen hq)
    have hbalance := hserver hmade
    omega
  · intro hmade hq
    rw [hmaker] at hmade
    have hold := h.client hmade (hopen hq)
    have hbalance := hclient hmade
    omega

/-- A work item about the connection runs. -/
theorem performs {peer : List Char} {w : Work} {rest : List (ThreadId × Work)} {d : Change}
    (h : Attended p c) (hr : Reported p c)
    (hmaker : (q.conns c).closeCallback_ = (p.conns c).closeCallback_)
    (hdown : p.BringsDown (.run t peer)) (htake : Keyed.takeFirst t p.stack = some (w, rest))
    (hp : Performs { p with stack := rest } c t w d) (ha : Alters p q c [w] d) :
    Attended q c := by
  have ht : Touches p c (.run t peer) [w] d := .run htake hp
  have hhead := head_stackOf htake
  have hmem := mem_pending_of_head hhead
  have hclosed : closing c w ≠ 0 → (p.conns c).conn.state_ = .kDisconnected := by
    intro hne
    by_contra hopen
    have hle := le_weigh (f := closing c) hmem
    have hold := hr.closed
    rw [if_neg hopen] at hold
    omega
  cases hp with
  | task hrelease hclose hwrite hlive heff =>
    exact h.keep ht ha hmaker (fun _ => Nat.zero_le _) fun _ => Nat.zero_le _
  | @bound k eff hlive heff =>
    by_cases hdestroy : k = .connectDestroyed
    · subst hdestroy
      have hstate : p.BringsDownBy (p.stackOf t).head? := hdown
      rw [hhead] at hstate
      refine of_closed ?_
      rw [ha.record]
      exact TcpConnection.state_of_connectDestroyed hstate heff
    by_cases hforce : k = .forceCloseInLoop
    · subst hforce
      have hstate : (p.conns c).conn.state_ ≠ .kConnecting := by
        refine hr.forced ?_
        have hle := le_weigh (f := forcing c) hmem
        have hone : forcing c (.bound c .forceCloseInLoop) = 1 := if_pos rfl
        omega
      refine of_closed ?_
      rw [ha.record]
      exact TcpConnection.state_of_forceCloseInLoop hstate heff
    · have hparting : parting c (.bound c k) = 0 := by
        by_contra hne
        exact hdestroy (Work.bound.inj (parting_pos (Nat.pos_of_ne_zero hne))).2
      have hforcing : forcing c (.bound c k) = 0 := by
        by_contra hne
        exact hforce (Work.bound.inj (forcing_pos (Nat.pos_of_ne_zero hne))).2
      refine h.keep ht ha hmaker (fun _ => ?_) fun _ => ?_
      · rw [weigh_cons, hparting]
        exact Nat.zero_le _
      · rw [weigh_cons, hforcing]
        exact Nat.zero_le _
  | writeFailed | closed | released | destroyed | setCloseCallback | removeConnection =>
    exact h.keep ht ha hmaker (fun _ => Nat.zero_le _) fun _ => Nat.zero_le _
  | removeConnectionInLoop | clientRemoves =>
    refine of_closed ?_
    rw [ha.record]
    exact hclosed (by simp [closing])

/-- A work item runs that is not about the connection. -/
theorem meanwhile {peer : List Char} {w : Work} {rest : List (ThreadId × Work)} {d : Change}
    (h : Attended p c) (hplaced : Placed p) (hmapped : Mapped p) (hemptied : Emptied p)
    (hreported : ∀ c < p.nextConn, Reported p c)
    (hmaker : (q.conns c).closeCallback_ = (p.conns c).closeCallback_)
    (hdown : p.BringsDown (.run t peer)) (htake : Keyed.takeFirst t p.stack = some (w, rest))
    (hm : Meanwhile { p with stack := rest } c w d) (ha : Alters p q c [] d) :
    Attended q c := by
  have ht : Touches p c (.run t peer) [] d := .meanwhile htake hm
  have hhead := head_stackOf htake
  have hmem := mem_pending_of_head hhead
  have hstate : p.BringsDownBy (p.stackOf t).head? := hdown
  rw [hhead] at hstate
  cases hm with
  | @erased b hb hlookup =>
    obtain ⟨hserves, hkept⟩ := removing_of_reported hplaced hreported hmem
    exact absurd (hmapped.own b hserves hkept c (AssocMap.mem_of_lookup hlookup)).symm hb
  | destroyNext hnext =>
    refine h.keep ht ha hmaker (fun _ => ?_) fun _ => Nat.zero_le _
    simp [parting]
  | quit =>
    have hnone := nextEntry_eq_none.1 (hemptied.emptied hmem)
    have hentries : p.entriesOf c = 0 := by
      apply weigh_eq_zero.2
      intro e he
      unfold entryHolds
      rw [hnone e he]
      rfl
    refine h.keep ht ha hmaker (fun _ => ?_) fun _ => Nat.zero_le _
    exact Nat.le_of_eq hentries
  | replaced hconnection =>
    refine of_closed ?_
    rw [ha.record]
    exact hstate c hconnection
  | clientDestroyed hconnection =>
    rcases hstate c hconnection with hclosed | hforce
    · refine of_closed ?_
      rw [ha.record]
      exact hclosed
    · have hmade := (hplaced.connection c hconnection).2
      have hpending := ha.pending (forcing c) fun w => forcing_about
      have hle := le_weigh (f := forcing c) hforce
      have hone : forcing c (.bound c .forceCloseInLoop) = 1 := if_pos rfl
      refine ⟨fun hserver => ?_, fun _ _ => ?_⟩
      · rw [hmaker, hmade] at hserver
        cases hserver
      · rw [weigh_nil] at hpending
        omega
  | nothing => exact h.keep ht ha hmaker (fun _ => Nat.zero_le _) fun _ => Nat.zero_le _

/-- Every step that brings connections down keeps them attended. -/
theorem touches {e : ProcessEvent} {taken : List Work} {d : Change} (h : Attended p c)
    (hc : c < p.nextConn) (hplaced : Placed p) (hmapped : Mapped p) (hemptied : Emptied p)
    (hreported : ∀ c < p.nextConn, Reported p c)
    (hmaker : (q.conns c).closeCallback_ = (p.conns c).closeCallback_)
    (hdown : p.BringsDown e) (ht : Touches p c e taken d) (ha : Alters p q c taken d) :
    Attended q c := by
  have htouches := ht
  cases ht with
  | run htake hperforms => exact h.performs (hreported c hc) hmaker hdown htake hperforms ha
  | meanwhile htake hmeanwhile =>
    exact h.meanwhile hplaced hmapped hemptied hreported hmaker hdown htake hmeanwhile ha
  | replaced hlife hlookup =>
    exact absurd (List.mem_map.2 ⟨_, AssocMap.mem_of_lookup hlookup, rfl⟩) hdown
  | returned | called | disconnected | forced | spared | kept | keptConnection | dropped | consumed
  | received | readFailed | transmitted | sendFailed | nothing =>
    exact h.keep htouches ha hmaker (fun _ => Nat.zero_le _) fun _ => Nat.zero_le _

end Attended

/-! ## Connections on loops that were stopped -/

/-- The connection will not be established: its loop was stopped before. -/
def Stranded (p : Process) (c : ConnId) : Prop :=
  p.stopped (p.conns c).conn.loop_ = true ∧
    0 < weigh (establishing c) (p.queue.map Prod.snd)

/-- The connection was reported down, or will never be reported up. -/
def Accounted (p : Process) (c : ConnId) : Prop :=
  (p.conns c).downs = 1 ∨ p.Stranded c

/-- The connection is closed, or its thread is about to destroy it, or it will never be
established. -/
def Handled (p : Process) (c : ConnId) : Prop :=
  (p.conns c).conn.state_ = .kDisconnected ∨
    0 < weigh (parting c) (p.stackOf (p.conns c).conn.loop_) ∨ p.Stranded c

/-- Where a functor that establishes a connection is, the loop is the one of the connection. -/
theorem Placed.place_establishing (h : Placed p) {l : LoopId} {w : Work}
    (hmem : (l, w) ∈ p.queue) (hw : establishing c w ≠ 0) : l = (p.conns c).conn.loop_ := by
  refine (h.queue _ hmem).place _ ?_
  unfold establishing at hw
  split at hw
  · split_ifs at hw with hd
    · rw [hd]
      rfl
    · exact absurd rfl hw
  · split_ifs at hw with hd
    · rw [hd]
      rfl
    · exact absurd rfl hw
  · exact absurd rfl hw

/-- The queues lose nothing when work is pushed. -/
theorem Pushes.weigh_queue_le {called : Work → Bool} (f : Work → Nat) (h : Pushes called t p q) :
    weigh f (p.queue.map Prod.snd) ≤ weigh f (q.queue.map Prod.snd) := by
  obtain ⟨-, posts, hqueue, -⟩ := h
  rw [hqueue, List.map_append, weigh_append]
  exact Nat.le_add_right _ _

/-- No stack loses anything when work is pushed. -/
theorem Pushes.weigh_stackOf_le {called : Work → Bool} (f : Work → Nat) (h : Pushes called t p q)
    (l : LoopId) : weigh f (p.stackOf l) ≤ weigh f (q.stackOf l) := by
  by_cases hl : l = t
  · subst hl
    obtain ⟨calls, hstack, -⟩ := h.stackOf_self
    rw [hstack, weigh_append]
    exact Nat.le_add_left _ _
  · rw [h.stackOf_other hl]

/-- A thread takes work that weighs nothing. -/
theorem weigh_stackOf_pop {f : Work → Nat} {w : Work} {rest : List (ThreadId × Work)}
    (htake : Keyed.takeFirst t p.stack = some (w, rest)) (hw : f w = 0) (l : LoopId) :
    weigh f (({ p with stack := rest } : Process).stackOf l) = weigh f (p.stackOf l) := by
  by_cases hl : t = l
  · subst hl
    have hself : p.stackOf t = w :: ({ p with stack := rest } : Process).stackOf t :=
      Keyed.ofKey_takeFirst htake
    rw [hself, weigh_cons, hw, Nat.zero_add]
  · have hother : p.stackOf l = ({ p with stack := rest } : Process).stackOf l :=
      Keyed.ofKey_takeFirst_of_ne htake hl
    rw [hother]

/-- A connection on a loop that was quit stays stranded. -/
theorem Stranded.step {e : ProcessEvent} (h : Stranded p c) (hplaced : Placed p)
    (hc : c < p.nextConn) (hstep : Process.step e p = .ok q) : Stranded q c := by
  obtain ⟨hstopped, hqueue⟩ := h
  have hf := (Moves.step hplaced hstep).follows
  refine ⟨?_, Nat.lt_of_lt_of_le hqueue ?_⟩
  · rw [(hf.setup c hc).loop]
    exact Halts.step hstep _ hstopped
  · cases course_of_step hstep with
    | @dequeues l w rest hlive hempty htake hq =>
      have hw : establishing c w = 0 := by
        by_contra hne
        have hmem : (l, w) ∈ p.queue := (Keyed.mem_of_takeFirst htake).2 (Or.inl rfl)
        rw [hplaced.place_establishing hmem hne, hstopped] at hlive
        cases hlive
      rw [hq, Keyed.weigh_takeFirst _ htake, hw, Nat.zero_add]
    | runs htake hready hexec => exact (Pushes.exec hexec).weigh_queue_le _
    | returns htake hq =>
      rw [hq]
    | calls hrun hready hpushes => exact hpushes.weigh_queue_le _
    | completes hrun hstack hpushes => exact hpushes.weigh_queue_le _

/-- A connection that is accounted for stays so. -/
theorem Accounted.step {e : ProcessEvent} (h : Accounted p c) (hplaced : Placed p)
    (hsorted : p.server.connections_.Sorted) (hc : c < p.nextConn) (hreported : Reported q c)
    (hstep : Process.step e p = .ok q) : Accounted q c := by
  rcases h with hdowns | hstranded
  · left
    obtain ⟨taken, d, htouches, halters⟩ := step_touches hplaced hsorted hc hstep
    have hle := htouches.downs_le
    rw [← halters.record] at hle
    have hlowered := hreported.lowered
    split_ifs at hlowered <;> omega
  · exact Or.inr (hstranded.step hplaced hc hstep)

/-- A connection that was handled stays so. -/
theorem Handled.step {e : ProcessEvent} (h : Handled p c) (hplaced : Placed p)
    (hsorted : p.server.connections_.Sorted) (hc : c < p.nextConn) (hdown : p.BringsDown e)
    (hstep : Process.step e p = .ok q) : Handled q c := by
  have hf := (Moves.step hplaced hstep).follows
  obtain ⟨taken, d, htouches, halters⟩ := step_touches hplaced hsorted hc hstep
  rcases h with hclosed | hparting | hstranded
  · left
    rw [halters.record]
    exact htouches.state.2 hclosed
  · have hkeep : weigh (parting c) (p.stackOf (p.conns c).conn.loop_) ≤
        weigh (parting c) (q.stackOf (p.conns c).conn.loop_) → Handled q c := by
      intro hle
      right
      left
      rw [(hf.setup c hc).loop]
      exact Nat.lt_of_lt_of_le hparting hle
    cases course_of_step hstep with
    | @dequeues l w rest hlive hempty htake hq =>
      refine hkeep ?_
      rw [hq]
      by_cases hl : l = (p.conns c).conn.loop_
      · rw [← hl, hempty]
        exact Nat.zero_le _
      · rw [stackOf, stackOf, Keyed.ofKey_cons_of_ne hl]
    | @runs u peer w rest htake hready hexec =>
      by_cases hw : parting c w = 0
      · refine hkeep ?_
        rw [← weigh_stackOf_pop htake hw]
        exact (Pushes.exec hexec).weigh_stackOf_le _ _
      · obtain rfl := parting_pos (Nat.pos_of_ne_zero hw)
        have hstate : p.BringsDownBy (p.stackOf u).head? := hdown
        rw [head_stackOf htake] at hstate
        obtain ⟨-, eff, heff, rfl⟩ := execConn_eq_ok.1 hexec
        left
        rw [applyEffect_conn]
        exact TcpConnection.state_of_connectDestroyed hstate heff
    | returns htake hq =>
      refine hkeep ?_
      rw [hq, weigh_stackOf_pop htake rfl]
    | calls hrun hready hpushes => exact hkeep (hpushes.weigh_stackOf_le _ _)
    | completes hrun hstack hpushes => exact hkeep (hpushes.weigh_stackOf_le _ _)
  · exact Or.inr (Or.inr (hstranded.step hplaced hc hstep))

/-- The server has let go an open connection: a functor of its loop is to destroy it. -/
theorem Attended.parted (h : Attended p c) (hplaced : Placed p) (hc : p.Serves c)
    (hentries : p.entriesOf c = 0) (hopen : (p.conns c).conn.state_ ≠ .kDisconnected) :
    .bound c .connectDestroyed ∈ p.stackOf (p.conns c).conn.loop_ ∨
      .bound c .connectDestroyed ∈ p.queueOf (p.conns c).conn.loop_ := by
  have hpos := h.server hc.2 hopen
  rw [hentries, Nat.zero_add] at hpos
  obtain ⟨w, hw, hparting⟩ := exists_of_weigh_pos hpos
  obtain rfl := parting_pos hparting
  rcases List.mem_append.1 hw with hw | hw
  · obtain ⟨⟨u, w⟩, he, rfl⟩ := List.mem_map.1 hw
    obtain rfl := (hplaced.stack _ he).place _ rfl
    exact Or.inl (Keyed.mem_ofKey.2 he)
  · obtain ⟨⟨l, w⟩, he, rfl⟩ := List.mem_map.1 hw
    obtain rfl := (hplaced.queue _ he).place _ rfl
    exact Or.inr (Keyed.mem_ofKey.2 he)

/-- An open connection that is left in a cleared queue was not established. -/
theorem Cleared.establishing_pos {l : LoopId} (h : p.Cleared l)
    (hmem : .bound c .connectDestroyed ∈ p.queueOf l)
    (hopen : (p.conns c).conn.state_ ≠ .kDisconnected) :
    0 < weigh (establishing c) (p.queue.map Prod.snd) := by
  rcases h _ hmem c rfl with hclosed | hestablish
  · exact absurd hclosed hopen
  · have hentry := Keyed.mem_ofKey.1 hestablish
    have hle := le_weigh (f := establishing c) (List.mem_map_of_mem (f := Prod.snd) hentry)
    have hone : establishing c (.bound c .connectEstablished) = 1 := if_pos rfl
    exact Nat.lt_of_lt_of_le Nat.one_pos (hone ▸ hle)

/-- A connection is reported down by the thread of its loop. -/
theorem Placed.weigh_lowering (h : Placed p) (hseq : Sequenced p)
    (hstack : weigh (lowering c) (p.stackOf (p.conns c).conn.loop_) = 0) :
    weigh (lowering c) p.pending = 0 := by
  apply weigh_eq_zero.2
  intro w hw
  by_contra hne
  have hwork : w = .conn c (.callback (.connection false)) := by
    unfold lowering at hne
    split at hne
    · split_ifs at hne with hd
      · rw [hd]
      · exact absurd rfl hne
    · exact absurd rfl hne
  subst hwork
  rcases List.mem_append.1 hw with hw | hw
  · obtain ⟨⟨u, w⟩, he, rfl⟩ := List.mem_map.1 hw
    obtain rfl := (h.stack _ he).place _ rfl
    exact hne (weigh_eq_zero.1 hstack _ (Keyed.mem_ofKey.2 he))
  · obtain ⟨⟨l, w⟩, he, rfl⟩ := List.mem_map.1 hw
    have hqueued := hseq.queued _ he
    cases hqueued

/-- A closed connection is accounted for when its thread has nothing to report of it. -/
theorem Reported.accounted (h : Reported p c) (hplaced : Placed p) (hseq : Sequenced p)
    (hclosed : (p.conns c).conn.state_ = .kDisconnected)
    (hstack : weigh (lowering c) (p.stackOf (p.conns c).conn.loop_) = 0) : Accounted p c := by
  left
  have hnone := hplaced.weigh_lowering hseq hstack
  have hlowered := h.lowered
  rw [if_pos hclosed] at hlowered
  omega

/-- The thread of the loop has ended. -/
theorem Handled.accounted (h : Handled p c) (hreported : Reported p c) (hplaced : Placed p)
    (hseq : Sequenced p) (hempty : p.stackOf (p.conns c).conn.loop_ = []) : Accounted p c := by
  rcases h with hclosed | hparting | hstranded
  · refine hreported.accounted hplaced hseq hclosed ?_
    rw [hempty]
    rfl
  · rw [hempty] at hparting
    exact absurd hparting (Nat.lt_irrefl 0)
  · exact Or.inr hstranded

/-! ## The invariant -/

/-- Every connection is on its way down, as far as the destructor of the server has come. -/
structure Descending (p : Process) : Prop where
  placed : Placed p
  sorted : p.server.connections_.Sorted
  sequenced : Sequenced p
  emptied : Emptied p
  mapped : Mapped p
  reported : ∀ c < p.nextConn, Reported p c
  prompt : ∀ c < p.nextConn, Prompt p c
  attended : ∀ c < p.nextConn, Attended p c
  loops : ∀ c, p.Serves c →
    (p.conns c).conn.loop_ = p.server.loop_ ∨ (p.conns c).conn.loop_ ∈ p.server.pool
  phase : Phase p (fun l => ∀ c, p.Serves c → (p.conns c).conn.loop_ = l → p.Handled c)
    (fun l => ∀ c, p.Serves c → (p.conns c).conn.loop_ = l → p.Accounted c) p.destruction

namespace Descending

/-- What is urgent is not below the part of the destructor that the thread is about to do. -/
theorem urgent_base (h : Descending p) (hc : c < p.nextConn) {w : Work}
    (hhead : (p.stackOf t).head? = some w) (hw : urgent (p.conns c).conn.state_ c w = 0) :
    ∀ v ∈ p.stackOf t, urgent (p.conns c).conn.state_ c v = 0 := by
  obtain ⟨below, hstack⟩ := List.head?_eq_some_iff.1 hhead
  have htail := h.prompt c hc t
  rw [hstack, List.tail_cons] at htail
  intro v hv
  rw [hstack] at hv
  rcases List.mem_cons.1 hv with rfl | hv
  · exact hw
  · exact weigh_eq_zero.1 htail v hv

/-- The loop of the server is stopped. -/
theorem accounted_of_quit {peer : List Char} (h : Descending p)
    (hhead : (p.stackOf p.server.loop_).head? = some (.server .quit))
    (hdown : p.BringsDown (.run p.server.loop_ peer))
    (hstep : Process.step (.run p.server.loop_ peer) p = .ok q) (hreported : Reported q c)
    (hc : p.Serves c) (hloop : (p.conns c).conn.loop_ = p.server.loop_) : Accounted q c := by
  have hurgent := h.urgent_base hc.1 hhead rfl
  by_cases hopen : (p.conns c).conn.state_ = .kDisconnected
  · have hlowering : weigh (lowering c) (p.stackOf (p.conns c).conn.loop_) = 0 := by
      apply weigh_eq_zero.2
      intro v hv
      rw [hloop] at hv
      have hzero := hurgent v hv
      unfold lowering
      split <;> simp_all [urgent]
    exact ((h.reported c hc.1).accounted h.placed h.sequenced hopen hlowering).step h.placed
      h.sorted hc.1 hreported hstep
  · have hentries : p.entriesOf c = 0 := by
      have hnone := nextEntry_eq_none.1 (h.emptied.emptied (mem_pending_of_head hhead))
      apply weigh_eq_zero.2
      intro e he
      unfold entryHolds
      rw [hnone e he]
      rfl
    rcases (h.attended c hc.1).parted h.placed hc hentries hopen with hmem | hmem
    · rw [hloop] at hmem
      have hzero := hurgent _ hmem
      simp [urgent, hopen] at hzero
    · have hcleared : p.BringsDownBy (p.stackOf p.server.loop_).head? := hdown
      rw [hhead] at hcleared
      rw [hloop] at hmem
      obtain ⟨w, rest, htake, -, hexec⟩ := run_eq_ok.1 hstep
      have hw := head_stackOf htake
      rw [hhead] at hw
      obtain rfl := Option.some.inj hw
      have hserver : TcpServer.exec { p with stack := rest } p.server.loop_ .quit = .ok q := hexec
      obtain rfl := (TcpServer.exec_eq_ok.1 hserver).2
      have hpos := Cleared.establishing_pos hcleared hmem hopen
      right
      constructor
      · show Function.update p.stopped p.server.loop_ true (p.conns c).conn.loop_ = true
        rw [hloop, Function.update_self]
      · show 0 < weigh (establishing c) ((p.queue ++ []).map Prod.snd)
        rw [List.append_nil]
        exact hpos

/-- A loop of the pool is told to quit. -/
theorem handled_of_quitLoop {peer : List Char} {l : LoopId} (h : Descending p)
    (hhead : (p.stackOf t).head? = some (.server (.quitLoop l)))
    (hempty : p.server.connections_ = []) (hdown : p.BringsDown (.run t peer))
    (hstep : Process.step (.run t peer) p = .ok q) (hc : p.Serves c)
    (hloop : (p.conns c).conn.loop_ = l) : Handled q c := by
  obtain ⟨w, rest, htake, -, hexec⟩ := run_eq_ok.1 hstep
  have hw := head_stackOf htake
  rw [hhead] at hw
  obtain rfl := Option.some.inj hw
  have hserver : TcpServer.exec { p with stack := rest } t (.quitLoop l) = .ok q := hexec
  obtain rfl := (TcpServer.exec_eq_ok.1 hserver).2
  by_cases hopen : (p.conns c).conn.state_ = .kDisconnected
  · exact Or.inl hopen
  · have hentries : p.entriesOf c = 0 := by
      unfold entriesOf
      rw [hempty]
      rfl
    rcases (h.attended c hc.1).parted h.placed hc hentries hopen with hmem | hmem
    · right
      left
      have hle := le_weigh (f := parting c) hmem
      have hone : parting c (.bound c .connectDestroyed) = 1 := if_pos rfl
      have hpop := weigh_stackOf_pop (f := parting c) htake rfl (p.conns c).conn.loop_
      show 0 < weigh (parting c)
        (({ p with stack := rest } : Process).stackOf (p.conns c).conn.loop_)
      rw [hpop]
      exact Nat.lt_of_lt_of_le Nat.one_pos (hone ▸ hle)
    · have hcleared : p.BringsDownBy (p.stackOf t).head? := hdown
      rw [hhead] at hcleared
      rw [hloop] at hmem
      right
      right
      constructor
      · show Function.update p.stopped l true (p.conns c).conn.loop_ = true
        rw [hloop, Function.update_self]
      · exact Cleared.establishing_pos hcleared hmem hopen

/-- What establishes a new connection of the server is done first. -/
theorem prompt_born {e : ProcessEvent} {d : Change} {n m : Nat} (hplaced : Placed p)
    (hdown : p.BringsDown e) (hm : Makes p e d n m) (hb : Born q p.nextConn d n m)
    (hstep : Process.step e p = .ok q) : Prompt q p.nextConn := by
  have hfresh : ∀ s, weigh (urgent s p.nextConn) p.pending = 0 :=
    fun s => hplaced.weigh_fresh (Nat.le_refl _) fun w => urgent_about
  unfold Prompt
  generalize (q.conns p.nextConn).conn.state_ = s
  cases hm with
  | @accepts ioLoop hlife =>
    obtain ⟨-, rfl⟩ := accept_eq_ok.1 hstep
    have hstacks := Foremost.of_weigh (hfresh s)
    have hnone : AssocMap.lookup p.server.connName p.server.connections_ = none :=
      AssocMap.lookup_eq_none.2 hdown
    have hset : Foremost (urgent s p.nextConn) ({ p with
        conns := Function.update p.conns p.nextConn (Connection.make (TcpConnection.make ioLoop
          p.server.connName p.server.messageCallback_ p.server.writeCompleteCallback_) .server none)
        nextConn := p.nextConn + 1
        server := { p.server with
          nextConnId_ := nextInt p.server.nextConnId_
          connections_ := AssocMap.assign p.server.connName (some p.nextConn)
            p.server.connections_ } } : Process) := (Foremost.of_stacks hstacks).of_stack rfl
    refine hset.schedule (hstacks p.server.loop_) ?_
    rw [hnone]
    unfold callIf
    split_ifs <;> simp [releases, urgent]
  | connects hhead =>
    refine Foremost.of_stacks (Foremost.of_weigh ?_)
    rw [hb.pending _ fun w => urgent_about]
    simp [urgent]

/-- A new connection is held by its owner. -/
theorem attended_born {e : ProcessEvent} {d : Change} {n m : Nat} (hm : Makes p e d n m)
    (hb : Born q p.nextConn d n m) : Attended q p.nextConn := by
  have hentries := hb.entries
  have hconnection := hb.connection
  have hrecord := hb.record
  cases hm with
  | accepts hlife =>
    refine ⟨fun _ _ => by omega, fun hmade _ => ?_⟩
    rw [hrecord] at hmade
    cases hmade
  | connects hhead =>
    refine ⟨fun hmade _ => ?_, fun _ _ => by omega⟩
    rw [hrecord] at hmade
    cases hmade

/-- A server that is being destroyed gets no connections. -/
theorem serves_of_dying {e : ProcessEvent} (h : Descending p) (hlife : p.server.life ≠ .alive)
    (hstep : Process.step e p = .ok q) (hc : q.Serves c) :
    p.Serves c ∧ (q.conns c).conn.loop_ = (p.conns c).conn.loop_ := by
  have hf := (Moves.step h.placed hstep).follows
  rcases old_or_born h.placed h.sorted hstep hc.1 with hmade | ⟨rfl, d, n, m, hm, hb⟩
  · exact ⟨hc.of_follows hf hmade, (hf.setup c hmade).loop⟩
  · have hmaker := hc.2
    rw [hb.record] at hmaker
    cases hm with
    | accepts halive => exact absurd halive hlife
    | connects hhead => cases hmaker

/-- The connections of the server are on its loops. -/
theorem loops_step {e : ProcessEvent} (h : Descending p) (hstep : Process.step e p = .ok q)
    (hc : q.Serves c) : (q.conns c).conn.loop_ = q.server.loop_ ∨
      (q.conns c).conn.loop_ ∈ q.server.pool := by
  have hf := (Moves.step h.placed hstep).follows
  rw [hf.server, hf.pool]
  rcases old_or_born h.placed h.sorted hstep hc.1 with hmade | ⟨rfl, d, n, m, hm, hb⟩
  · rw [(hf.setup c hmade).loop]
    exact h.loops c (hc.of_follows hf hmade)
  · have hmaker := hc.2
    rw [hb.record] at hmaker ⊢
    cases hm with
    | @accepts ioLoop hlife =>
      obtain ⟨⟨-, -, -, hloop⟩, -⟩ := accept_eq_ok.1 hstep
      unfold ioLoops at hloop
      split_ifs at hloop
      · exact Or.inl (List.mem_singleton.1 hloop)
      · exact Or.inr hloop
    | connects hhead => cases hmaker

/-- Every step takes the destruction of the server to its next phase or leaves it there. -/
theorem phase_step {e : ProcessEvent} (h : Descending p) (hdown : p.BringsDown e)
    (hstep : Process.step e p = .ok q) (hreported : ∀ c < q.nextConn, Reported q c) :
    Phase q (fun l => ∀ c, q.Serves c → (q.conns c).conn.loop_ = l → q.Handled c)
      (fun l => ∀ c, q.Serves c → (q.conns c).conn.loop_ = l → q.Accounted c) q.destruction := by
  refine h.phase.step h.placed h.sequenced hstep ?_ ?_ ?_ ?_ ?_
  · intro hlife l hl c hc hloop
    obtain ⟨hold, hsame⟩ := h.serves_of_dying hlife hstep hc
    exact (hl c hold (hsame ▸ hloop)).step h.placed h.sorted hold.1 hdown hstep
  · intro hlife l hl c hc hloop
    obtain ⟨hold, hsame⟩ := h.serves_of_dying hlife hstep hc
    exact (hl c hold (hsame ▸ hloop)).step h.placed h.sorted hold.1 (hreported c hc.1) hstep
  · rintro u peer rfl hhead rfl c hc hloop
    have hlife := h.emptied.ending _ (mem_pending_of_head hhead) rfl
    obtain ⟨hold, hsame⟩ := h.serves_of_dying hlife hstep hc
    exact h.accounted_of_quit hhead hdown hstep (hreported c hc.1) hold (hsame ▸ hloop)
  · rintro u peer l rfl hhead hempty c hc hloop
    have hlife := h.emptied.ending _ (mem_pending_of_head hhead) rfl
    obtain ⟨hold, hsame⟩ := h.serves_of_dying hlife hstep hc
    exact h.handled_of_quitLoop hhead hempty hdown hstep hold (hsame ▸ hloop)
  · rintro l hlife hempty hl c hc hloop
    obtain ⟨hold, hsame⟩ := h.serves_of_dying hlife hstep hc
    have hat : (p.conns c).conn.loop_ = l := hsame ▸ hloop
    have haccounted := (hl c hold hat).accounted (h.reported c hold.1) h.placed h.sequenced
      (by rw [hat]; exact hempty)
    exact haccounted.step h.placed h.sorted hold.1 (hreported c hc.1) hstep

/-- Every step that brings connections down keeps them on their way. -/
theorem step {e : ProcessEvent} (h : Descending p) (hdown : p.BringsDown e)
    (hstep : Process.step e p = .ok q) : Descending q := by
  obtain ⟨hplaced, hf⟩ := Moves.step h.placed hstep
  have hconns : ∀ c < q.nextConn, Reported q c ∧ Prompt q c ∧ Attended q c := by
    intro c hc
    rcases old_or_born h.placed h.sorted hstep hc with hmade | ⟨rfl, d, n, m, hm, hb⟩
    · obtain ⟨taken, d, htouches, halters⟩ := step_touches h.placed h.sorted hmade hstep
      have hreported := h.reported c hmade
      exact ⟨hreported.touches htouches halters,
        (h.prompt c hmade).step hreported h.placed h.sorted hmade hstep,
        (h.attended c hmade).touches hmade h.placed h.mapped h.emptied h.reported
          (hf.maker c hmade) hdown htouches halters⟩
    · exact ⟨Reported.born hm hb, prompt_born h.placed hdown hm hb hstep, attended_born hm hb⟩
  exact ⟨hplaced, sorted_step h.sorted hstep, h.sequenced.step hstep, h.emptied.step hstep,
    h.mapped.step h.placed h.sorted h.reported h.emptied hdown hstep,
    fun c hc => (hconns c hc).1, fun c hc => (hconns c hc).2.1, fun c hc => (hconns c hc).2.2,
    fun c => h.loops_step hstep, h.phase_step hdown hstep fun c hc => (hconns c hc).1⟩

/-- A connection that is released for the last time is held by nobody else. -/
theorem dropped (h : Descending p) (hhead : (p.stackOf t).head? = some (.conn c .release))
    (howners : p.owners c = 1) : (p.conns c).conn.state_ = .kDisconnected := by
  obtain ⟨below, hstack⟩ := List.head?_eq_some_iff.1 hhead
  obtain ⟨rest, htake, -⟩ := Keyed.exists_takeFirst hstack
  have hmem := List.mem_of_head? hhead
  have hc : c < p.nextConn := (h.placed.stack _ (Keyed.mem_ofKey.1 hmem)).made c rfl
  have hpop := weigh_pop (holds c) htake
  have hone : holds c (.conn c .release) = 1 := if_pos rfl
  rw [owners_eq, hpop, hone] at howners
  have hheld : ∀ f : Work → Nat, (∀ w, f w ≤ holds c w) → f (.conn c .release) = 0 →
      weigh f p.pending = 0 := by
    intro f hf hrelease
    have hrest := weigh_pop f htake
    have hle : weigh f ({ p with stack := rest } : Process).pending ≤
        weigh (holds c) ({ p with stack := rest } : Process).pending := weigh_mono fun w _ => hf w
    omega
  have hparting := hheld (parting c) (by
    intro w
    by_cases hw : 0 < parting c w
    · rw [parting_pos hw]
      simp [parting, holds]
    · omega) rfl
  have hforcing := hheld (forcing c) (by
    intro w
    by_cases hw : 0 < forcing c w
    · rw [forcing_pos hw]
      simp [forcing, holds]
    · omega) rfl
  by_contra hopen
  cases hmade : (p.conns c).closeCallback_ with
  | server =>
    have hpos := (h.attended c hc).server hmade hopen
    omega
  | client =>
    have hpos := (h.attended c hc).client hmade hopen
    omega

/-- At the end every connection was brought down. -/
theorem broughtDown (h : Descending p) : p.BroughtDown := by
  refine ⟨fun t c hhead howners _ => h.dropped hhead howners, ?_⟩
  intro hlife c hc hups
  have haccounted : p.Accounted c := by
    have hphase := h.phase
    generalize p.destruction = ws at hphase
    cases hphase with
    | dead hdead hbase hjoined =>
      rcases h.loops c hc with hloop | hloop
      · exact hbase c hc hloop
      · exact hjoined _ hloop c hc rfl
    | alive hother | clearing hother | leaving hother | quitting hother | joining hother =>
      rw [hlife] at hother
      cases hother
  rcases haccounted with hdowns | ⟨-, hqueue⟩
  · exact hdowns
  · exfalso
    have hreported := h.reported c hc.1
    have hestablished := hreported.established
    have hpending : weigh (establishing c) (p.queue.map Prod.snd) ≤
        weigh (establishing c) p.pending := by
      unfold pending
      rw [weigh_append]
      exact Nat.le_add_left _ _
    have hconnecting : (p.conns c).conn.state_ = .kConnecting := by
      by_contra hother
      rw [if_neg hother] at hestablished
      omega
    have hraised := hreported.raised hconnecting
    omega

end Descending

/-- There is no connection at first. -/
theorem descending_initial (hp : processMachine.init p) : Descending p := by
  have hplaced := placed_initial hp
  have hsorted := sorted_initial hp
  have hseq := sequenced_initial hp
  have hemptied := Emptied.initial hp
  have hphase := phase_initial (Q := fun l => ∀ c, p.Serves c → (p.conns c).conn.loop_ = l →
    p.Handled c) (J := fun l => ∀ c, p.Serves c → (p.conns c).conn.loop_ = l → p.Accounted c) hp
  obtain ⟨baseLoop, pool, clientLoop, ipPort, serverName, clientName, m, w, -, -, rfl⟩ := hp
  have hnone : ∀ c, ¬ c < (initial baseLoop pool clientLoop ipPort serverName clientName m
      w).nextConn := fun c => Nat.not_lt_zero c
  exact ⟨hplaced, hsorted, hseq, hemptied,
    ⟨fun _ c hc => absurd hc.1 (hnone c), fun c hc => absurd hc.1 (hnone c)⟩,
    fun c hc => absurd hc (hnone c), fun c hc => absurd hc (hnone c),
    fun c hc => absurd hc (hnone c), fun c hc => absurd hc.1 (hnone c), hphase⟩

/-- In every run whose steps bring connections down, connections are closed before they are
destroyed, and a destroyed server has reported them down. -/
theorem broughtDown_of_bringsDown (hp : processMachine.ReachableUnder BringsDown p) :
    p.BroughtDown := by
  have h : Descending p :=
    hp.invariant (fun _ => descending_initial) fun _ _ _ h hdown hstep => h.step hdown hstep
  exact h.broughtDown

/-- A server with a pool is destroyed while a connection is open. -/
theorem broughtDown_pool : ∃ p : Process, (p.server.life, (p.conns 0).ups, (p.conns 0).downs,
    (p.conns 0).destroyed) = (.dead, 1, 1, true) ∧ p.BroughtDown := by
  have hinit : processMachine.init (initial 1 [0] 2 [] [] [] false false) :=
    ⟨1, [0], 2, [], [], [], false, false, by simp, by simp, rfl⟩
  obtain ⟨p, hp, hobs⟩ := Machine.exists_of_run (C := BringsDown) hinit
    (l := [.accept 0, .run 1 [], .dequeue 0, .run 0 [], .run 0 [], .return_ 0, .run 0 [],
      .run 0 [], .destroyServer 1, .run 1 [], .run 1 [], .dequeue 0, .run 0 [], .run 0 [],
      .return_ 0, .run 0 [], .run 0 [], .run 1 [], .run 1 [], .run 1 [], .run 1 [], .run 1 []])
    (f := fun p => (p.server.life, (p.conns 0).ups, (p.conns 0).downs, (p.conns 0).destroyed))
    (a := (.dead, 1, 1, true)) (by decide +kernel)
  exact ⟨p, hobs, broughtDown_of_bringsDown hp⟩

/-- The user calls `shutdown` in the callback of a new connection, and the server is destroyed:
`connectDestroyed` finds the connection in `kDisconnecting` and leaves it so, and the last pointer
is dropped. -/
theorem not_broughtDown : ¬ ∀ p, processMachine.Reachable p → p.BroughtDown := by
  intro hall
  have hinit : processMachine.init (initial 1 [] 0 [] [] [] false false) :=
    ⟨1, [], 0, [], [], [], false, false, by simp, by simp, rfl⟩
  obtain ⟨p, hp, hobs⟩ := Machine.exists_of_run (C := fun _ _ => True) hinit
    (l := [.accept 1, .run 1 [], .run 1 [], .call 1 0 .shutdown, .run 1 [], .return_ 1, .run 1 [],
      .run 1 [], .run 1 [], .destroyServer 1, .run 1 [], .run 1 [], .run 1 []])
    (f := fun p => ((p.stackOf 1).head?, p.owners 0, (p.conns 0).established,
      (p.conns 0).conn.state_))
    (a := (some (.conn 0 .release), 1, 1, .kDisconnecting)) (by decide +kernel)
  obtain ⟨hhead, hrest⟩ := Prod.mk.inj hobs
  obtain ⟨howners, hrest⟩ := Prod.mk.inj hrest
  obtain ⟨hestablished, hstate⟩ := Prod.mk.inj hrest
  have hclosed := (hall p hp).dropped 1 0 hhead howners (by rw [hestablished]; exact Nat.one_pos)
  rw [hstate] at hclosed
  cases hclosed

end Process

end LibNetToy
