import LibNetToy.Net.ConnectionMap
import LibNetToy.Net.Ownership
import LibNetToy.Net.ReportOrder
import LibNetToy.Net.Settling

/-!
# What remains when a server has settled

A connection that has no owner left is destroyed, since whoever gives up a pointer releases it.
When a server has nothing left to do, its map holds the connections that are open and no others.
Each of them was reported up; the closed ones were reported down too and are destroyed as soon as
the user holds no pointer to them.
-/

namespace LibNetToy

namespace Process

/-- A connection that nobody owns is destroyed. -/
def Freed (p : Process) (c : ConnId) : Prop :=
  p.owners c = 0 → (p.conns c).destroyed = true

/-- The connection is open. -/
def IsUp (p : Process) (c : ConnId) : Prop :=
  (p.conns c).conn.state_ = .kConnected ∨ (p.conns c).conn.state_ = .kDisconnecting

/-- The map of the server holds the open connections, each connection was reported as often as its
state tells, and only the user keeps closed ones. -/
structure Tidy (p : Process) : Prop where
  entries : ∀ k v, (k, v) ∈ p.server.connections_ ↔
    ∃ c, v = some c ∧ p.Serves c ∧ p.IsUp c ∧ k = (p.conns c).conn.name_
  opened : ∀ c, p.Serves c → (p.conns c).conn.state_ ≠ .kConnecting ∧ (p.conns c).ups = 1
  closed : ∀ c, p.Serves c →
    (p.conns c).downs = if (p.conns c).conn.state_ = .kDisconnected then 1 else 0
  freed : ∀ c, p.Serves c → (p.conns c).conn.state_ = .kDisconnected → (p.conns c).refs = 0 →
    (p.conns c).destroyed = true

variable {p q : Process} {c : ConnId} {t : ThreadId}

/-! ## Connections without an owner -/

theorem note_destroyed (r : Connection) (k : ConnTask) : (r.note k).destroyed = r.destroyed := by
  cases k with
  | callback k =>
    cases k with
    | connection up => cases up <;> rfl
    | message | writeComplete | close => rfl
  | _ => rfl

namespace Freed

/-- The step gives up no pointer without a release. -/
theorem frame {taken : List Work} {d : Change} (h : Freed p c) (ha : Alters p q c taken d)
    (hsame : d.record.destroyed = (p.conns c).destroyed)
    (hholds : weigh (holds c) taken + d.unlisted + d.undesignated + (p.conns c).refs ≤
      weigh (holds c) d.added + d.record.refs) : Freed q c := by
  intro hq
  have howners := ha.owners
  rw [ha.record, hsame]
  exact h (by omega)

theorem performs {w : Work} {rest : List (ThreadId × Work)} {d : Change}
    (h : Freed p c) (htake : Keyed.takeFirst t p.stack = some (w, rest))
    (hp : Performs { p with stack := rest } c t w d) (ha : Alters p q c [w] d) : Freed q c := by
  have hpopped : p.owners c = holds c w + ({ p with stack := rest } : Process).owners c := by
    have hpop := weigh_pop (holds c) htake
    rw [owners_eq, owners_eq, hpop]
    simp only [entriesOf, designates]
    omega
  have howners := ha.owners
  cases hp with
  | task hnot hclose hwrite hlive heff =>
    refine h.frame ha (note_destroyed _ _) ?_
    simp [holds_task hnot, note_refs]
  | bound hlive heff =>
    refine h.frame ha (note_destroyed _ _) ?_
    simp only [holds, if_true, weigh_append, weigh_cons, weigh_nil, note_refs]
    omega
  | writeFailed | closed => exact h.frame ha rfl (by simp [holds])
  | released hother =>
    intro hq
    simp only [holds, if_true, weigh_cons, weigh_nil] at howners hpopped
    omega
  | destroyed hnone hstate =>
    intro _
    rw [ha.record]
  | setCloseCallback | removeConnection | clientRemoves =>
    exact h.frame ha rfl (by simp [holds])
  | @removeConnectionInLoop n hn =>
    have hreplicate : weigh (holds c) (List.replicate n (.conn c .release)) = n := by
      simp [weigh, holds]
    refine h.frame ha rfl ?_
    simp only [holds, if_true, weigh_append, weigh_cons, weigh_nil, hreplicate]
    omega

theorem meanwhile {w : Work} {rest : List (ThreadId × Work)} {d : Change} (h : Freed p c)
    (hemptied : Emptied p) (htake : Keyed.takeFirst t p.stack = some (w, rest))
    (hm : Meanwhile { p with stack := rest } c w d) (ha : Alters p q c [] d) : Freed q c := by
  cases hm with
  | erased | destroyNext | replaced | clientDestroyed => exact h.frame ha rfl (by simp [holds])
  | quit =>
    have hnone := hemptied.emptied (mem_pending_of_head (head_stackOf htake))
    have hentries : ({ p with stack := rest } : Process).entriesOf c = 0 := by
      apply weigh_eq_zero.2
      intro e he
      refine if_neg fun hsome => ?_
      rw [nextEntry_eq_none.1 hnone e he] at hsome
      cases hsome
    exact h.frame ha rfl (by simp [hentries])
  | nothing hw => exact h.frame ha rfl (by simp)

theorem touches {e : ProcessEvent} {taken : List Work} {d : Change} (h : Freed p c)
    (hemptied : Emptied p) (ht : Touches p c e taken d) (ha : Alters p q c taken d) :
    Freed q c := by
  cases ht with
  | run htake hperforms => exact h.performs htake hperforms ha
  | meanwhile htake hmeanwhile => exact h.meanwhile hemptied htake hmeanwhile ha
  | dropped hrefs =>
    refine h.frame ha rfl ?_
    simp only [holds, if_true, weigh_cons, weigh_nil]
    omega
  | returned | replaced => exact h.frame ha rfl (by simp [holds])
  | _ => exact h.frame ha rfl (by simp)

/-- A connection that was just made has an owner. -/
theorem born {e : ProcessEvent} {d : Change} {n m : Nat} (hm : Makes p e d n m)
    (hb : Born q p.nextConn d n m) : Freed q p.nextConn := by
  intro hnone
  have hpending := hb.pending (holds p.nextConn) fun w => holds_about
  have hcount := owners_eq q p.nextConn
  cases hm with
  | accepts | connects =>
    simp only [holds, if_true, weigh_cons, weigh_nil] at hpending
    omega

end Freed

/-- In every run a connection that nobody owns is destroyed. -/
theorem freed_of_reachable (hp : processMachine.Reachable p) (hc : c < p.nextConn) : Freed p c := by
  have h : Placed p ∧ p.server.connections_.Sorted ∧ Emptied p ∧ ∀ c < p.nextConn, Freed p c := by
    refine hp.invariant (I := fun p => Placed p ∧ p.server.connections_.Sorted ∧ Emptied p ∧
      ∀ c < p.nextConn, Freed p c) ?_ ?_
    · intro s hs
      refine ⟨placed_initial hs, sorted_initial hs, Emptied.initial hs, ?_⟩
      obtain ⟨baseLoop, pool, clientLoop, ipPort, serverName, clientName, m, w, -, -, rfl⟩ := hs
      intro c hc
      exact absurd hc (Nat.not_lt_zero c)
    · rintro s e s' ⟨hplaced, hsorted, hemptied, hfreed⟩ - hstep
      refine ⟨(Moves.step hplaced hstep).placed, sorted_step hsorted hstep, hemptied.step hstep, ?_⟩
      intro c hc
      rcases old_or_born hplaced hsorted hstep hc with hmade | ⟨rfl, d, n, m, hm, hb⟩
      · obtain ⟨taken, d, htouches, halters⟩ := step_touches hplaced hsorted hmade hstep
        exact (hfreed c hmade).touches hemptied htouches halters
      · exact .born hm hb
  exact h.2.2.2 c hc

/-! ## A server that is not destroyed -/

/-- As long as the server is not destroyed, no loop is stopped. -/
theorem listed_of_servesOn (hp : processMachine.ReachableUnder ServesOn p) :
    Listed p ∧ ∀ l, p.stopped l = false := by
  refine hp.invariant (I := fun p => Listed p ∧ ∀ l, p.stopped l = false) ?_ ?_
  · intro s hs
    refine ⟨listed_initial hs, ?_⟩
    obtain ⟨baseLoop, pool, clientLoop, ipPort, serverName, clientName, m, w, -, -, rfl⟩ := hs
    intro l
    rfl
  · rintro s e s' ⟨hlisted, hrun⟩ hserves hstep
    refine ⟨hlisted.step hserves hstep, ?_⟩
    rcases Halts.stopped_of_step hstep with hsame | ⟨⟨u, peer, w, -, hhead, hw⟩, -⟩
    · rw [hsame]
      exact hrun
    · rw [hlisted.unending w (mem_pending_of_head hhead)] at hw
      cases hw

/-- Then nothing is pending when the threads can do nothing by themselves. -/
theorem pending_of_resting (hp : processMachine.ReachableUnder ServesOn p)
    (hrest : processMachine.Resting ProcessEvent.isOwn p) : p.pending = [] := by
  obtain ⟨hstack, hqueue, -, -⟩ := drained_of_resting hp.reachable hrest
  have hnone : p.queue = [] :=
    Keyed.eq_nil_of_ofKey fun l => hqueue l ((listed_of_servesOn hp).2 l)
  rw [pending, hstack, hnone]
  rfl

/-- A connection was removed when it is closed and nothing of this is pending. -/
theorem Listed.removed_eq (h : Listed p) (hpending : p.pending = []) (hc : p.Serves c) :
    (p.conns c).removed = if (p.conns c).conn.state_ = .kDisconnected then 1 else 0 := by
  have hdisconnected := (h.staged c hc).disconnected
  rw [hpending, weigh_nil, Nat.zero_add] at hdisconnected
  exact hdisconnected

/-- In every run of a server that accepts fewer than `2^31 - 1` connections and is not destroyed,
the map holds the open connections whenever the threads can do nothing by themselves. -/
theorem tidy_of_resting (hp : processMachine.ReachableUnder ServesOn p)
    (hrest : processMachine.Resting ProcessEvent.isOwn p) : Tidy p := by
  have hpending := pending_of_resting hp hrest
  have hlisted := (listed_of_servesOn hp).1
  have hannounces := announces_of_reachable hp.reachable
  have hopened : ∀ c, p.Serves c → (p.conns c).conn.state_ ≠ .kConnecting := by
    intro c hc hstate
    have hestablished := (hlisted.staged c hc).established
    rw [hpending, weigh_nil, (hlisted.staged c hc).connecting.1 hstate] at hestablished
    cases hestablished
  have hremoved : ∀ c, p.Serves c → ((p.conns c).removed = 0 ↔ p.IsUp c) := by
    intro c hc
    have hne := hopened c hc
    rw [hlisted.removed_eq hpending hc]
    unfold IsUp
    cases hstate : (p.conns c).conn.state_ <;> simp_all
  constructor
  · intro k v
    rw [hlisted.mapProtocol.entries]
    constructor
    · rintro ⟨c, rfl, hc, hnot, hk⟩
      exact ⟨c, rfl, hc, (hremoved c hc).1 hnot, hk⟩
    · rintro ⟨c, rfl, hc, hopen, hk⟩
      exact ⟨c, rfl, hc, (hremoved c hc).2 hopen, hk⟩
  · intro c hc
    have hdue := (hannounces.announced c hc.1).due
    rw [hpending, weigh_nil, if_neg (hopened c hc)] at hdue
    exact ⟨hopened c hc, by omega⟩
  · intro c hc
    have hlowered := (hannounces.reported c hc.1).lowered
    rw [hpending, weigh_nil, Nat.zero_add] at hlowered
    exact hlowered
  · intro c hc hstate hrefs
    apply freed_of_reachable hp.reachable hc.1
    have hheld := hlisted.held c hc
    have hgone := hlisted.removed_eq hpending hc
    rw [if_pos hstate] at hgone
    have hclient : p.designates c = 0 := by
      refine if_neg fun hconnection => ?_
      have hmaker := (hlisted.placed.connection c hconnection).2
      rw [hc.2] at hmaker
      cases hmaker
    rw [owners_eq, hpending, weigh_nil, hrefs, hclient]
    omega

/-- Two connections are accepted for another loop; the first one is closed, removed and destroyed,
and the second one stays open. -/
theorem tidy_of_resting_closed : ∃ p : Process,
    (p.nextConn, (p.conns 0).destroyed, (p.conns 1).ups, p.server.connections_.length) =
      (2, true, 1, 1) ∧ Tidy p := by
  have hinit : processMachine.init (initial 1 [0] 2 [] [] [] false false) :=
    ⟨1, [0], 2, [], [], [], false, false, by simp, by simp, rfl⟩
  obtain ⟨p, hp, hobs⟩ := Machine.exists_of_run (C := ServesOn) hinit
    (l := [.accept 0, .run 1 [], .dequeue 0, .run 0 [], .run 0 [], .return_ 0, .run 0 [],
      .run 0 [], .accept 0, .run 1 [], .readFails 0 .eof, .dequeue 0, .run 0 [], .run 0 [],
      .return_ 0, .run 0 [], .run 0 [], .dequeue 0, .run 0 [], .run 0 [], .return_ 0, .run 0 [],
      .run 0 [], .run 0 [], .dequeue 1, .run 1 [], .dequeue 0, .run 0 [], .run 0 [], .run 1 [],
      .run 1 []])
    (f := fun p => ((p.nextConn, (p.conns 0).destroyed, (p.conns 1).ups,
      p.server.connections_.length), p.stack.length, p.queue.length, p.server.life,
      p.client.life))
    (a := ((2, true, 1, 1), 0, 0, .alive, .alive)) (by decide +kernel)
  obtain ⟨hobs, hrest⟩ := Prod.mk.inj hobs
  obtain ⟨hstack, hrest⟩ := Prod.mk.inj hrest
  obtain ⟨hqueue, hlives⟩ := Prod.mk.inj hrest
  obtain ⟨hserver, hclient⟩ := Prod.mk.inj hlives
  have hdrained : Drained p := by
    refine ⟨List.eq_nil_of_length_eq_zero hstack, ?_, ?_, ?_⟩
    · intro l _
      rw [queueOf, List.eq_nil_of_length_eq_zero hqueue]
      rfl
    · rw [hserver]
      decide
    · rw [hclient]
      decide
  exact ⟨p, hobs, tidy_of_resting hp hdrained.resting⟩

end Process

end LibNetToy
