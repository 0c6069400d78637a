import LibNetToy.Net.Reports
import LibNetToy.Net.Threads

/-!
# What a thread does at once

A thread that closes a connection reports it down before anything else, and so does one that is to
establish a connection, or to destroy one that is still open, before it goes on: such work is never
below other work on a stack.  Where the code of the user starts something, nothing of the kind is
left to do on the thread.
-/

namespace LibNetToy

namespace Process

/-- Work that is done at once, for a connection in the given state. -/
def urgent (s : StateE) (c : ConnId) : Work → Nat
  | .conn d (.callback (.connection false)) => if d = c then 1 else 0
  | .bound d .connectEstablished => if d = c then 1 else 0
  | .bound d .connectDestroyed => if d = c ∧ s ≠ .kDisconnected then 1 else 0
  | _ => 0

/-- Work of this weight is on top of a stack, if it is on one. -/
def Foremost (f : Work → Nat) (p : Process) : Prop :=
  ∀ t, weigh f (p.stackOf t).tail = 0

/-- What is urgent about the connection is on top of a stack, if it is on one. -/
def Prompt (p : Process) (c : ConnId) : Prop :=
  Foremost (urgent (p.conns c).conn.state_ c) p

variable {p q : Process} {c : ConnId} {t : ThreadId}

/-! ## The tops of the stacks -/

namespace Foremost

variable {f g : Work → Nat}

theorem mono (h : Foremost f p) (hle : ∀ w, g w ≤ f w) : Foremost g p := by
  intro t
  apply weigh_eq_zero.2
  intro w hw
  have hzero := weigh_eq_zero.1 (h t) w hw
  exact Nat.le_zero.1 (hzero ▸ hle w)

theorem of_stack (h : Foremost f p) (hstack : q.stack = p.stack) : Foremost f q := by
  intro t
  unfold stackOf
  rw [hstack]
  exact h t

/-- The thread takes what is on top of its stack. -/
theorem pop {w : Work} {rest : List (ThreadId × Work)} (h : Foremost f p)
    (htake : Keyed.takeFirst t p.stack = some (w, rest)) :
    Foremost f { p with stack := rest } ∧
      weigh f (({ p with stack := rest } : Process).stackOf t) = 0 := by
  have hself : p.stackOf t = w :: ({ p with stack := rest } : Process).stackOf t :=
    Keyed.ofKey_takeFirst htake
  have hzero := h t
  rw [hself, List.tail_cons] at hzero
  refine ⟨?_, hzero⟩
  intro u
  by_cases hu : u = t
  · subst hu
    exact weigh_eq_zero.2 fun v hv => weigh_eq_zero.1 hzero v (List.mem_of_mem_tail hv)
  · have hother : p.stackOf u = ({ p with stack := rest } : Process).stackOf u :=
      Keyed.ofKey_takeFirst_of_ne htake (Ne.symm hu)
    rw [← hother]
    exact h u

/-- Nothing of the kind is pending. -/
theorem of_weigh (h : weigh f p.pending = 0) : ∀ t, weigh f (p.stackOf t) = 0 := by
  intro t
  apply weigh_eq_zero.2
  intro w hw
  refine weigh_eq_zero.1 h w (List.mem_append_left _ ?_)
  exact List.mem_map.2 ⟨_, Keyed.mem_ofKey.1 hw, rfl⟩

theorem of_stacks (h : ∀ t, weigh f (p.stackOf t) = 0) : Foremost f p := by
  intro t
  exact weigh_eq_zero.2 fun w hw => weigh_eq_zero.1 (h t) w (List.mem_of_mem_tail hw)

/-- A thread with nothing of the kind on its stack makes calls, and it comes first. -/
theorem schedule {calls : List Work} {posts : List (LoopId × Work)} (h : Foremost f p)
    (hstack : weigh f (p.stackOf t) = 0) (hcalls : weigh f calls.tail = 0) :
    Foremost f (p.schedule t calls posts) := by
  intro u
  by_cases hu : u = t
  · subst hu
    have hself : (p.schedule u calls posts).stackOf u = calls ++ p.stackOf u := by
      simp [stackOf, Process.schedule]
    rw [hself]
    cases calls with
    | nil => exact h u
    | cons w calls =>
      rw [List.cons_append, List.tail_cons, weigh_append, hstack]
      exact hcalls
  · have hother : (p.schedule t calls posts).stackOf u = p.stackOf u := by
      simp [stackOf, Process.schedule, Keyed.ofKey_map_of_ne (Ne.symm hu)]
    rw [hother]
    exact h u

/-- A thread with nothing of the kind on its stack makes calls that add nothing of it. -/
theorem pushes {called : Work → Bool} (h : Foremost f p) (hstack : weigh f (p.stackOf t) = 0)
    (hpushes : Pushes called t p q) (hle : weigh f q.pending ≤ weigh f p.pending) :
    Foremost f q := by
  obtain ⟨⟨calls, hq, -⟩, posts, hqueue, -⟩ := hpushes
  have hpending : weigh f q.pending =
      weigh f p.pending + weigh f calls + weigh f (posts.map Prod.snd) := by
    rw [← weigh_schedule f p t calls posts]
    unfold pending Process.schedule
    rw [hq, hqueue]
  have hcalls : weigh f calls = 0 := by omega
  have htail : weigh f calls.tail = 0 :=
    weigh_eq_zero.2 fun w hw => weigh_eq_zero.1 hcalls w (List.mem_of_mem_tail hw)
  have hschedule : Foremost f (p.schedule t calls posts) := h.schedule hstack htail
  exact hschedule.of_stack hq

/-- A loop takes an entry of its queue when its thread has nothing to do. -/
theorem dequeue {l : LoopId} {w : Work} {rest : List (LoopId × Work)} (h : Foremost f p)
    (hempty : p.stackOf l = []) :
    Foremost f { p with stack := (l, w) :: p.stack, queue := rest } := by
  have hschedule : Foremost f (p.schedule l [w] []) := by
    refine h.schedule ?_ rfl
    rw [hempty]
    rfl
  exact hschedule.of_stack rfl

/-- Where code of the user runs there is nothing of the kind to do. -/
theorem of_ready (h : Foremost f p) (hcallback : ∀ b k, f (.conn b (.inCallback k)) = 0)
    (hready : p.userRuns t = true ∨ p.stackOf t = []) : weigh f (p.stackOf t) = 0 := by
  rcases hready with huser | hempty
  · have htail := h t
    unfold userRuns at huser
    split at huser
    · rename_i hstack
      rw [hstack]
      rfl
    · rename_i b k rest hstack
      rw [hstack, List.tail_cons] at htail
      rw [hstack, weigh_cons, hcallback, htail]
    · cases huser
  · rw [hempty]
    rfl

end Foremost

/-! ## Urgent work -/

variable {s : StateE}

theorem urgent_about {w : Work} (hw : w.connId ≠ some c) : urgent s c w = 0 := by
  unfold urgent
  split
  · exact if_neg fun h => hw (congrArg some h)
  · exact if_neg fun h => hw (congrArg some h)
  · exact if_neg fun h => hw (congrArg some h.1)
  · rfl

/-- Nothing gets urgent when a connection is closed. -/
theorem urgent_mono {s' : StateE} (h : s = .kDisconnected → s' = .kDisconnected) (w : Work) :
    urgent s' c w ≤ urgent s c w := by
  unfold urgent
  split <;> first | exact Nat.le_refl _ | (split_ifs <;> simp_all)

/-- Work that reports nothing, and is no stage but the way of a closed connection to its owner. -/
theorem urgent_eq_zero {w : Work} (h : Silent w) (hdestroy : destroying c w = 0) :
    urgent s c w = 0 := by
  obtain ⟨hest, -, hlower, -⟩ := h c
  unfold urgent
  split <;> simp_all [establishing, lowering, destroying]

/-- What a member function calls is urgent only at the beginning. -/
theorem urgent_exec {here : Option LoopId} {d : TcpConnection} {k : ConnTask} {eff : Effect}
    (h : d.exec here k = .ok eff) {after : List Work} (hafter : ∀ w ∈ after, urgent s c w = 0) :
    weigh (urgent s c) (eff.calls.map (Work.conn c) ++ after).tail = 0 := by
  have hzero : weigh (urgent s c) after = 0 := weigh_eq_zero.2 hafter
  have htail : weigh (urgent s c) after.tail = 0 :=
    weigh_eq_zero.2 fun w hw => hafter w (List.mem_of_mem_tail hw)
  cases TcpConnection.exec_runs h with
  | received _ | readFailed _ _ | sent _ => split_ifs <;> simp [urgent, hzero, htail]
  | _ => simp [urgent, hzero, htail]

/-- A call from outside starts nothing urgent. -/
theorem urgent_call {x : ConnCall} {here : Option LoopId} {d : TcpConnection} {eff : Effect}
    (h : d.call here x = .ok eff) :
    ∀ w ∈ eff.calls.map (Work.conn c) ++ eff.posts.map (Functor.work c), urgent s c w = 0 :=
  fun w hw => urgent_eq_zero (silent_call h c w hw) (offstage_call h c w hw c).2.2

theorem urgent_setter :
    ∀ w ∈ p.closeCallbackSetter t c ++ [.conn c .release], urgent s c w = 0 :=
  fun w hw => urgent_eq_zero (Reported.silent_setter w hw).1 (offstage_setter w hw c).2.2

theorem urgent_single {w : Work} (hw : urgent s c w = 0) : weigh (urgent s c) [w] = 0 := by
  rw [weigh_cons, weigh_nil, hw]

/-- A step that is no work adds nothing urgent. -/
theorem urgent_touches {e : ProcessEvent} {taken : List Work} {d : Change}
    (ht : Touches p c e taken d) (hrun : ∀ u peer, e ≠ .run u peer) :
    weigh (urgent s c) d.added = 0 := by
  cases ht with
  | run | meanwhile => exact absurd rfl (hrun _ _)
  | called hreaches heff | disconnected hconnection heff => exact weigh_eq_zero.2 (urgent_call heff)
  | forced hconnection howners heff =>
    apply weigh_eq_zero.2
    intro w hw
    rw [List.append_assoc] at hw
    rcases List.mem_append.1 hw with hw | hw
    · exact urgent_call heff w hw
    · exact urgent_setter w hw
  | spared => exact weigh_eq_zero.2 urgent_setter
  | returned | kept | keptConnection | consumed | nothing => exact weigh_nil _
  | dropped | replaced => exact urgent_single rfl
  | received hr =>
    obtain ⟨region, rs, -, -, -, rfl⟩ := TcpConnection.receive_eq_some hr
    exact urgent_single rfl
  | readFailed hr =>
    obtain ⟨region, rs, -, rfl⟩ := TcpConnection.readFails_eq_some hr
    exact urgent_single rfl
  | transmitted hr =>
    obtain ⟨region, rs, -, -, -, rfl⟩ := TcpConnection.transmit_eq_some hr
    exact urgent_single rfl
  | sendFailed hr =>
    obtain ⟨region, rs, -, rfl⟩ := TcpConnection.sendFails_eq_some hr
    exact urgent_single rfl

namespace Prompt

/-- A member function of the connection runs. -/
theorem execConn {k : ConnTask} {after : List Work} (h : Foremost (urgent s c) p)
    (hstack : weigh (urgent s c) (p.stackOf t) = 0) (hafter : ∀ w ∈ after, urgent s c w = 0)
    (hexec : p.execConn t c k after = .ok q) : Foremost (urgent s c) q := by
  obtain ⟨-, eff, heff, rfl⟩ := execConn_eq_ok.1 hexec
  have hnote : Foremost (urgent s c) ((p.update c fun r => r.note k).update c
      fun r => { r with conn := eff.conn }) := h.of_stack rfl
  exact hnote.schedule hstack (urgent_exec heff hafter)

/-- A work item runs. -/
theorem run {peer : List Char} {w : Work} {rest : List (ThreadId × Work)} (h : Prompt p c)
    (hr : Reported p c) (hc : c < p.nextConn) (hsorted : p.server.connections_.Sorted)
    (htake : Keyed.takeFirst t p.stack = some (w, rest))
    (hexec : ({ p with stack := rest } : Process).exec t peer w = .ok q) :
    Foremost (urgent (p.conns c).conn.state_ c) q := by
  obtain ⟨hpop, hstack⟩ := h.pop htake
  have hmem := mem_pending_of_head (head_stackOf htake)
  have hadds : ∀ d, Alters { p with stack := rest } q c [] d →
      weigh (urgent (p.conns c).conn.state_ c) d.added = 0 →
      Foremost (urgent (p.conns c).conn.state_ c) q := by
    intro d halters hzero
    refine hpop.pushes hstack (Pushes.exec hexec) ?_
    have hpending := halters.pending (urgent (p.conns c).conn.state_ c) fun w => urgent_about
    rw [weigh_nil, hzero] at hpending
    exact Nat.le_of_eq hpending
  -- The connection is closed when its owner removes it.
  have hclosed : ∀ v ∈ p.pending, closing c v ≠ 0 → (p.conns c).conn.state_ = .kDisconnected := by
    intro v hv hne
    by_contra hopen
    have hle := le_weigh (f := closing c) hv
    have hold := hr.closed
    rw [if_neg hopen] at hold
    omega
  rcases exec_performs (p := { p with stack := rest }) hc hsorted hexec with
    ⟨d, hperforms, halters⟩ | ⟨d, hmeanwhile, halters⟩
  · cases hperforms with
    | @task k eff hnot hclose hwrite hlive heff =>
      rcases exec_conn_eq_ok.1 hexec with ⟨rfl, -⟩ | ⟨rfl, -⟩ | ⟨⟨e, n, rfl⟩, -⟩ | ⟨-, -, -, hexec⟩
      · exact absurd rfl hnot
      · exact absurd rfl hclose
      · exact absurd rfl (hwrite e n)
      · exact execConn hpop hstack (List.forall_mem_nil _) hexec
    | bound hlive heff =>
      refine execConn hpop hstack ?_ hexec
      intro v hv
      rw [List.mem_singleton.1 hv]
      rfl
    | closed hlive =>
      refine hadds _ halters (urgent_single ?_)
      unfold Connection.closeTask
      split <;> rfl
    | removeConnectionInLoop =>
      refine hadds _ halters (weigh_eq_zero.2 ?_)
      intro v hv
      rcases List.mem_append.1 hv with hv | hv
      · rw [List.eq_of_mem_replicate hv]
        rfl
      · simp only [List.mem_cons, List.not_mem_nil, or_false] at hv
        rcases hv with rfl | rfl
        · simp [urgent, hclosed _ hmem (by simp [closing])]
        · rfl
    | clientRemoves =>
      refine hadds _ halters ?_
      simp [urgent, hclosed _ hmem (by simp [closing])]
    | writeFailed | released | destroyed => exact hadds _ halters (weigh_nil _)
    | setCloseCallback | removeConnection => exact hadds _ halters (urgent_single rfl)
  · cases hmeanwhile with
    | destroyNext hnext =>
      have hserver : TcpServer.exec { p with stack := rest } t .destroyNext = .ok q := hexec
      obtain rfl := (TcpServer.exec_eq_ok.1 hserver).2
      rcases TcpServer.destroyNext_cases { p with stack := rest } t with ⟨hnone, -⟩ | ⟨k, b, -, hq⟩
      · rw [hnone] at hnext
        cases hnext
      · rw [hq]
        have hset : Foremost (urgent (p.conns c).conn.state_ c)
            (({ p with
              stack := rest
              server := { p.server with
                connections_ := TcpServer.resetEntry k p.server.connections_ } } :
              Process).update b fun r => { r with taken := true }) := hpop.of_stack rfl
        refine hset.schedule hstack ?_
        unfold callIf
        split_ifs <;> simp [urgent]
    | erased | replaced | clientDestroyed => exact hadds _ halters (urgent_single rfl)
    | quit | nothing => exact hadds _ halters (weigh_nil _)

/-- Every step leaves what is urgent on top. -/
theorem step {e : ProcessEvent} (h : Prompt p c) (hr : Reported p c) (hplaced : Placed p)
    (hsorted : p.server.connections_.Sorted) (hc : c < p.nextConn)
    (hstep : Process.step e p = .ok q) : Prompt q c := by
  obtain ⟨taken, d, htouches, halters⟩ := step_touches hplaced hsorted hc hstep
  have hforemost : Foremost (urgent (p.conns c).conn.state_ c) q := by
    have hle : (∀ u peer, e ≠ .run u peer) → weigh (urgent (p.conns c).conn.state_ c) q.pending ≤
        weigh (urgent (p.conns c).conn.state_ c) p.pending := by
      intro hrun
      have hpending := halters.pending (urgent (p.conns c).conn.state_ c) fun w => urgent_about
      rw [urgent_touches htouches hrun] at hpending
      omega
    cases course_of_step hstep with
    | dequeues hlive hempty htake hq =>
      rw [hq]
      exact Foremost.dequeue h hempty
    | runs htake hready hexec => exact h.run hr hc hsorted htake hexec
    | returns htake hq =>
      rw [hq]
      exact (Foremost.pop h htake).1
    | calls hrun hready hpushes =>
      exact Foremost.pushes h (Foremost.of_ready h (fun _ _ => rfl) hready) hpushes (hle hrun)
    | completes hrun hstack hpushes => exact Foremost.of_stack h hstack
  refine hforemost.mono (urgent_mono ?_)
  rw [halters.record]
  exact htouches.state.2

end Prompt

end Process

end LibNetToy
