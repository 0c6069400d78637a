import LibNetToy.Net.Cost
import LibNetToy.Net.ServerDestruction
import LibNetToy.Net.ClientDestruction

/-!
# A process settles

When there is no input, the threads of a process come to rest.  Then nothing is left to do: all
stacks are empty and so are the queues of the loops that run.  No thread waits for another one for
ever, and the destructors have returned.
-/

namespace LibNetToy

namespace Process

variable {p q : Process} {t : ThreadId}

/-- Nothing is left to do: no thread is running, the loops that run have empty queues, and the
destructors have returned. -/
structure Drained (p : Process) : Prop where
  stack : p.stack = []
  queue : ∀ l, p.stopped l = false → p.queueOf l = []
  server : p.server.life ≠ .destructing
  client : p.client.life ≠ .destructing

/-- The loop of the server is none of the loops of its pool. -/
theorem loop_notMem_pool_of_reachable (hp : processMachine.Reachable p) :
    p.server.loop_ ∉ p.server.pool := by
  refine hp.invariant (I := fun p => p.server.loop_ ∉ p.server.pool) ?_ ?_
  · rintro s ⟨baseLoop, pool, clientLoop, ipPort, serverName, clientName, m, w, -, hbase, rfl⟩
    exact hbase
  · intro s e s' hs _ hstep
    obtain ⟨hloop, hpool⟩ := loops_of_step hstep
    rw [hloop, hpool]
    exact hs

/-- The phases of the destructor of the server, and nothing more. -/
theorem phase_of_reachable (hp : processMachine.Reachable p) :
    Placed p ∧ Sequenced p ∧ Phase p (fun _ => True) (fun _ => True) p.destruction := by
  refine hp.invariant (I := fun p => Placed p ∧ Sequenced p ∧
    Phase p (fun _ => True) (fun _ => True) p.destruction) ?_ ?_
  · intro s hs
    exact ⟨placed_initial hs, sequenced_initial hs, phase_initial hs⟩
  · rintro s e s' ⟨hplaced, hseq, hphase⟩ - hstep
    exact ⟨(Moves.step hplaced hstep).placed, hseq.step hstep,
      hphase.step hplaced hseq hstep (fun _ _ _ => trivial) (fun _ _ _ => trivial)
        (fun _ _ _ _ _ => trivial) (fun _ _ _ _ _ _ => trivial) fun _ _ _ _ => trivial⟩

/-- What a thread has to do stays until the thread does it. -/
theorem mem_stack_of_step {e : ProcessEvent} {w : Work} (hstep : step e p = .ok q)
    (hmem : (t, w) ∈ p.stack) : (t, w) ∈ q.stack ∨ ((p.stackOf t).head? = some w ∧
      ((∃ peer, e = .run t peer) ∨ e = .return_ t)) := by
  have hpop : ∀ {u v rest}, Keyed.takeFirst u p.stack = some (v, rest) →
      (t, w) ∈ rest ∨ (u = t ∧ (p.stackOf t).head? = some w) := by
    intro u v rest htake
    rcases (Keyed.mem_of_takeFirst htake).1 hmem with heq | hrest
    · obtain ⟨rfl, rfl⟩ := Prod.mk.inj heq
      exact Or.inr ⟨rfl, head_stackOf htake⟩
    · exact Or.inl hrest
  cases course_of_step hstep with
  | dequeues hlive hempty htake hq =>
    rw [hq]
    exact Or.inl (List.mem_cons_of_mem _ hmem)
  | @runs u peer v rest htake hready hexec =>
    obtain ⟨⟨calls, hstack, -⟩, -⟩ := Pushes.exec hexec
    rcases hpop htake with hrest | ⟨rfl, hhead⟩
    · rw [hstack]
      exact Or.inl (List.mem_append_right _ hrest)
    · exact Or.inr ⟨hhead, Or.inl ⟨peer, rfl⟩⟩
  | returns htake hq =>
    rcases hpop htake with hrest | ⟨rfl, hhead⟩
    · rw [hq]
      exact Or.inl hrest
    · exact Or.inr ⟨hhead, Or.inr rfl⟩
  | calls hrun hready hpushes =>
    obtain ⟨⟨calls, hstack, -⟩, -⟩ := hpushes
    rw [hstack]
    exact Or.inl (List.mem_append_right _ hmem)
  | completes hrun hstack hpushes =>
    rw [hstack]
    exact Or.inl hmem

/-- The destructor of the client ends with the destruction of the members. -/
theorem ending_of_destructor (h : TcpClient.destructor p t = .ok q) :
    (t, .client .destroyed) ∈ q.stack := by
  rcases TcpClient.destructor_eq_ok.1 h with ⟨-, rfl⟩ | ⟨c, -, -, ⟨-, rfl⟩ | ⟨-, rfl⟩⟩
  · exact List.mem_cons_self ..
  · refine List.mem_append_left _ (List.mem_map.2 ⟨_, List.mem_append_right _ ?_, rfl⟩)
    exact List.mem_cons_of_mem _ (List.mem_cons_self ..)
  · exact List.mem_cons_of_mem _ (List.mem_cons_self ..)

/-- The destructor of the client is on a stack until it has ended. -/
theorem ending_of_reachable (hp : processMachine.Reachable p)
    (hlife : p.client.life = .destructing) : ∃ t, (t, .client .destroyed) ∈ p.stack := by
  revert hlife
  refine hp.invariant (I := fun p => p.client.life = .destructing →
    ∃ t, (t, .client .destroyed) ∈ p.stack) ?_ ?_
  · rintro s ⟨baseLoop, pool, clientLoop, ipPort, serverName, clientName, m, w, -, -, rfl⟩ hlife
    cases hlife
  · intro s e s' hs _ hstep hlife
    rcases life_of_step hstep with hsame | ⟨hdead, -⟩ | ⟨-, -, t, rfl⟩
    · obtain ⟨t, hmem⟩ := hs (hsame.symm.trans hlife)
      rcases mem_stack_of_step hstep hmem with hstays | ⟨hhead, ⟨peer, rfl⟩ | rfl⟩
      · exact ⟨t, hstays⟩
      · obtain ⟨w, rest, htake, -, hexec⟩ := run_eq_ok.1 hstep
        obtain rfl := Option.some.inj ((head_stackOf htake).symm.trans hhead)
        have hdead := (exec_client_eq_ok.1 hexec).2
        rw [hdead] at hlife
        cases hlife
      · obtain ⟨c, k, rest, htake, -⟩ := return_eq_ok.1 hstep
        cases (head_stackOf htake).symm.trans hhead
    · rw [hdead] at hlife
      cases hlife
    · exact ⟨t, ending_of_destructor (destroyClient_eq_ok.1 hstep).2⟩

/-- A thread that cannot go on waits for a thread of the pool. -/
theorem joins_of_resting (hrest : processMachine.Resting ProcessEvent.isOwn p) {w : Work}
    (hhead : (p.stackOf t).head? = some w) :
    ∃ l, w = .server (.joinLoop l) ∧ p.stackOf l ≠ [] := by
  obtain ⟨ws, hws⟩ : ∃ ws, p.stackOf t = w :: ws := List.head?_eq_some_iff.1 hhead
  obtain ⟨rest, htake, -⟩ := Keyed.exists_takeFirst hws
  have hready : p.ready w = false := by
    by_contra hready
    have hrun := hrest (.run t []) rfl
    change step (.run t []) p = _ at hrun
    simp only [step, htake, Halt.guard, if_pos (Bool.not_eq_false _ ▸ hready)] at hrun
    cases hexec : ({ p with stack := rest } : Process).exec t [] w <;>
      simp [hexec, Halt.ofCall] at hrun
  unfold ready at hready
  split at hready
  · have hreturn := hrest (.return_ t) rfl
    change step (.return_ t) p = _ at hreturn
    simp [step, htake] at hreturn
  · rename_i l
    refine ⟨l, rfl, ?_⟩
    intro hempty
    rw [hempty] at hready
    cases hready
  · cases hready

/-- The destructor of the server joins the threads of its pool. -/
theorem Phase.mem_pool {Q J : LoopId → Prop} {l : LoopId} (h : Phase p Q J p.destruction)
    (hhead : (p.stackOf p.server.loop_).head? = some (.server (.joinLoop l))) :
    l ∈ p.server.pool := by
  obtain ⟨ws, hws⟩ := List.head?_eq_some_iff.1 hhead
  have hdestruction : p.destruction = .server (.joinLoop l) :: ws.filter Work.endsServer := by
    rw [destruction, hws]
    rfl
  rw [hdestruction] at h
  generalize hwork : Work.server (.joinLoop l) :: ws.filter Work.endsServer = work at h
  cases h with
  | alive | dead | clearing | leaving => cases hwork
  | @quitting joined todo => cases todo <;> cases hwork
  | joining hlife hempty hpool =>
    obtain ⟨hw, -⟩ := List.cons.inj hwork
    cases hw
    rw [hpool]
    exact List.mem_append_right _ (List.mem_cons_self ..)

theorem stack_of_resting (hp : processMachine.Reachable p)
    (hrest : processMachine.Resting ProcessEvent.isOwn p) : p.stack = [] := by
  obtain ⟨hplaced, hseq, hphase⟩ := phase_of_reachable hp
  have hnone : ∀ t, p.stackOf t = [] := by
    intro t
    by_contra hne
    obtain ⟨w, ws, hws⟩ := List.exists_cons_of_ne_nil hne
    have hhead : (p.stackOf t).head? = some w := by
      rw [hws]
      rfl
    -- The thread of the loop of the server waits for the thread of a loop of the pool, and that
    -- would have to wait for another one itself.
    obtain ⟨l, rfl, hl⟩ := joins_of_resting hrest hhead
    obtain rfl := hplaced.ends hhead rfl
    obtain ⟨v, vs, hvs⟩ := List.exists_cons_of_ne_nil hl
    have hhead' : (p.stackOf l).head? = some v := by
      rw [hvs]
      rfl
    obtain ⟨l', rfl, -⟩ := joins_of_resting hrest hhead'
    obtain rfl := hplaced.ends hhead' rfl
    exact loop_notMem_pool_of_reachable hp (hphase.mem_pool hhead)
  exact Keyed.eq_nil_of_ofKey hnone

/-- When the threads can do nothing by themselves, nothing is left to do. -/
theorem drained_of_resting (hp : processMachine.Reachable p)
    (hrest : processMachine.Resting ProcessEvent.isOwn p) : Drained p := by
  have hstack := stack_of_resting hp hrest
  have hempty : ∀ t, p.stackOf t = [] := by
    intro t
    rw [stackOf, hstack]
    rfl
  constructor
  · exact hstack
  · intro l hlive
    have hdequeue := hrest (.dequeue l) rfl
    change step (.dequeue l) p = _ at hdequeue
    simp only [step, Halt.guard, if_pos (And.intro hlive (hempty l))] at hdequeue
    cases htake : Keyed.takeFirst l p.queue with
    | none => exact Keyed.takeFirst_eq_none.1 htake
    | some r => simp [htake, Halt.ofOption] at hdequeue
  · intro hlife
    have hphase := (phase_of_reachable hp).2.2
    have hnone : p.destruction = [] := by
      rw [destruction, hempty]
      rfl
    rw [hnone] at hphase
    generalize hws : ([] : List Work) = ws at hphase
    cases hphase with
    | alive halive => cases halive.symm.trans hlife
    | dead hdead => cases hdead.symm.trans hlife
    | clearing | leaving | joining => cases hws
    | @quitting joined todo => cases todo <;> cases hws
  · intro hlife
    obtain ⟨t, hmem⟩ := ending_of_reachable hp hlife
    rw [hstack] at hmem
    cases hmem

/-- Where nothing is left to do, the threads can do nothing by themselves. -/
theorem Drained.resting (h : Drained p) : processMachine.Resting ProcessEvent.isOwn p := by
  have hnone : ∀ t, Keyed.takeFirst t p.stack = none := by
    intro t
    rw [h.stack]
    rfl
  intro e he
  show step e p = .error .disabled
  cases e with
  | dequeue l =>
    cases hstopped : p.stopped l with
    | true => simp [step, hstopped, Halt.guard]
    | false =>
      have hqueue := Keyed.takeFirst_eq_none.2 (h.queue l hstopped)
      simp [step, hqueue, Halt.guard, Halt.ofOption]
  | run t peer | return_ t => simp [step, hnone]
  | _ => cases he

end Process

end LibNetToy
