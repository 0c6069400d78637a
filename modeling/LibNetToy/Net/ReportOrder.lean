import LibNetToy.Net.BroughtDown

/-!
# The order of the reports

In every run of a process, and whatever the threads do, a connection is reported up at most once,
and down at most once and only after that.  The report is due as soon as the connection is
established, it is foremost on the thread of the loop until it is made, and only that thread
closes a connection, so nothing gets between.  A call of a member function is one step, on
whatever thread it is made.
-/

namespace LibNetToy

namespace TcpConnection

/-- How far a connection has come on its way from `kConnecting` to `kDisconnected`. -/
def progress : StateE → Nat
  | .kConnecting => 0
  | .kConnected => 1
  | .kDisconnecting => 2
  | .kDisconnected => 3

variable {c : TcpConnection} {here : Option LoopId} {eff : Effect}

/-- A member function takes a connection no step back. -/
theorem progress_exec {k : ConnTask} (h : c.exec here k = .ok eff) :
    progress c.state_ ≤ progress eff.conn.state_ := by
  rcases exec_state h with ⟨-, hold, hnew⟩ | ⟨hold | hold, hnew⟩ | ⟨-, hsame⟩
  · rw [hold, hnew]
    decide
  · rw [hold, hnew]
    decide
  · rw [hold, hnew]
    decide
  · exact Nat.le_of_eq (congrArg progress hsame.symm)

/-- Nor does a call from outside. -/
theorem progress_call {x : ConnCall} (h : c.call here x = .ok eff) :
    progress c.state_ ≤ progress eff.conn.state_ := by
  rcases call_state h with ⟨hold, hnew, -⟩ | hsame
  · rw [hold, hnew]
    decide
  · exact Nat.le_of_eq (congrArg progress hsame.symm)

/-- The connection reports itself up when it leaves `kConnecting`. -/
theorem exec_establishes {k : ConnTask} (h : c.exec here k = .ok eff) :
    weigh upOf eff.calls + (if eff.conn.state_ = .kConnecting then 1 else 0) =
      if c.state_ = .kConnecting then 1 else 0 := by
  rw [exec_up h]
  rcases exec_state h with ⟨hk, hold, hnew⟩ | ⟨hold, hnew⟩ | ⟨hk, hsame⟩
  · rw [if_pos hk, hold, hnew]
    decide
  · have hne : c.state_ ≠ .kConnecting := by
      rcases hold with hold | hold <;> rw [hold] <;> decide
    have hk : k ≠ .connectEstablished := by
      rintro rfl
      cases exec_runs h with
      | establishes _ hstate => exact hne hstate
    rw [if_neg hk, if_neg hne, hnew]
    rfl
  · rw [if_neg hk, hsame, Nat.zero_add]

/-- A task that closes the connection calls no callback. -/
theorem exec_closes {k : ConnTask} (h : c.exec here k = .ok eff)
    (hclosed : eff.conn.state_ = .kDisconnected) (hopen : c.state_ ≠ .kDisconnected) :
    k ≠ .connectEstablished ∧ upOf k = 0 := by
  cases exec_runs h with
  | establishes _ hstate => cases hclosed
  | _ => first | exact absurd hclosed hopen | exact ⟨nofun, rfl⟩

end TcpConnection

namespace Process

/-- A connection is reported up at most once, and down at most once and only after that, and its
state goes with the reports. -/
structure ReportedInOrder (p : Process) (c : ConnId) : Prop where
  ups_le : (p.conns c).ups ≤ 1
  downs_le : (p.conns c).downs ≤ (p.conns c).ups
  connecting : (p.conns c).conn.state_ = .kConnecting → (p.conns c).ups = 0
  down : 0 < (p.conns c).downs → (p.conns c).conn.state_ = .kDisconnected
  raising : Work.conn c (.callback (.connection true)) ∈ p.pending →
    (p.conns c).ups = 0 ∧
      ((p.conns c).conn.state_ = .kConnected ∨ (p.conns c).conn.state_ = .kDisconnecting)
  lowering : Work.conn c (.callback (.connection false)) ∈ p.pending →
    (p.conns c).ups = 1 ∧ (p.conns c).downs = 0 ∧ (p.conns c).conn.state_ = .kDisconnected

/-- What was reported of a connection stays reported, and the connection goes no step back. -/
structure GoesOn (p q : Process) (c : ConnId) : Prop where
  progress : TcpConnection.progress (p.conns c).conn.state_ ≤
    TcpConnection.progress (q.conns c).conn.state_
  ups : (p.conns c).ups ≤ (q.conns c).ups
  downs : (p.conns c).downs ≤ (q.conns c).downs

/-- The report that a connection is up is due once it is established, and is made at once; it is
not closed before that. -/
structure Announced (p : Process) (c : ConnId) : Prop where
  due : weigh (raising c) p.pending + (p.conns c).ups =
    if (p.conns c).conn.state_ = .kConnecting then 0 else 1
  unclosed : weigh (raising c) p.pending ≠ 0 → (p.conns c).conn.state_ ≠ .kDisconnected
  foremost : Foremost (raising c) p

/-- What a step changes of the reports that a connection is up. -/
structure Raises (p : Process) (c : ConnId) (taken : List Work) (d : Change) : Prop where
  ups : (p.conns c).ups ≤ d.record.ups
  progress : TcpConnection.progress (p.conns c).conn.state_ ≤
    TcpConnection.progress d.record.conn.state_
  due : weigh (raising c) d.added + d.record.ups +
      (if d.record.conn.state_ = .kConnecting then 1 else 0) =
    weigh (raising c) taken + (p.conns c).ups +
      (if (p.conns c).conn.state_ = .kConnecting then 1 else 0)

/-- The step is a member function that closes the connection on the thread of its loop. -/
structure Closes (p : Process) (c : ConnId) (e : ProcessEvent) (d : Change) : Prop where
  quiet : weigh (raising c) d.added = 0
  runs : ∃ t peer w, e = .run t peer ∧ (p.stackOf t).head? = some w ∧ raising c w = 0 ∧
    t = (p.conns c).conn.loop_

variable {p q r : Process} {c : ConnId} {t : ThreadId}

theorem GoesOn.refl (p : Process) (c : ConnId) : GoesOn p p c :=
  ⟨Nat.le_refl _, Nat.le_refl _, Nat.le_refl _⟩

theorem GoesOn.trans (h : GoesOn p q c) (h' : GoesOn q r c) : GoesOn p r c :=
  ⟨h.progress.trans h'.progress, h.ups.trans h'.ups, h.downs.trans h'.downs⟩

/-! ## What a step reports -/

/-- What a member function calls reports the connection up only at the beginning. -/
theorem raising_exec {here : Option LoopId} {d : TcpConnection} {k : ConnTask} {eff : Effect}
    (h : d.exec here k = .ok eff) {after : List Work} (hafter : ∀ w ∈ after, raising c w = 0) :
    weigh (raising c) (eff.calls.map (Work.conn c) ++ after) =
        weigh TcpConnection.upOf eff.calls ∧
      weigh (raising c) (eff.calls.map (Work.conn c) ++ after).tail = 0 := by
  have hzero : weigh (raising c) after = 0 := weigh_eq_zero.2 hafter
  have htail : weigh (raising c) after.tail = 0 :=
    weigh_eq_zero.2 fun w hw => hafter w (List.mem_of_mem_tail hw)
  constructor
  · rw [weigh_append, hzero, weigh_map_conn, Nat.add_zero]
    simp only [raising_conn]
  · cases TcpConnection.exec_runs h with
    | received _ | readFailed _ _ | sent _ => split_ifs <;> simp [raising, hzero, htail]
    | _ => simp [raising, hzero, htail]

namespace Raises

/-- Nothing is reported, and the state stays. -/
theorem same {taken : List Work} {d : Change} (htaken : ∀ w ∈ taken, Silent w)
    (hadded : ∀ w ∈ d.added, Silent w)
    (hstate : d.record.conn.state_ = (p.conns c).conn.state_)
    (hups : d.record.ups = (p.conns c).ups) : Raises p c taken d := by
  refine ⟨Nat.le_of_eq hups.symm, ?_, ?_⟩
  · rw [hstate]
  · rw [Silent.raising_eq htaken, Silent.raising_eq hadded, hstate, hups]

/-- A call from outside. -/
theorem call {x : ConnCall} {here : Option LoopId} {eff : Effect} {after : List Work}
    {d : Change} (heff : (p.conns c).conn.call here x = .ok eff)
    (hafter : ∀ w ∈ after, Silent w)
    (hadded : d.added = eff.calls.map (Work.conn c) ++ eff.posts.map (Functor.work c) ++ after)
    (hrecord : d.record = { p.conns c with conn := eff.conn }) : Raises p c [] d := by
  have hstate : d.record.conn.state_ = eff.conn.state_ := by rw [hrecord]
  have hups : d.record.ups = (p.conns c).ups := by rw [hrecord]
  have hquiet : weigh (raising c) d.added = 0 := by
    rw [hadded, weigh_append, Silent.raising_eq (silent_call heff c), Silent.raising_eq hafter]
  refine ⟨Nat.le_of_eq hups.symm, ?_, ?_⟩
  · rw [hstate]
    exact TcpConnection.progress_call heff
  · rw [hquiet, weigh_nil, hstate, hups]
    simp only [TcpConnection.call_connecting heff]

/-- A member function runs, called directly or through a functor `w`. -/
theorem task {w : Work} {k : ConnTask} {eff : Effect} {after : List Work} {d : Change}
    (hw : raising c w = raising c (.conn c k)) (hafter : ∀ w ∈ after, Silent w)
    (heff : (p.conns c).conn.exec (some t) k = .ok eff)
    (hadded : d.added = eff.calls.map (Work.conn c) ++ after)
    (hrecord : d.record = { (p.conns c).note k with conn := eff.conn }) :
    Raises p c [w] d := by
  have hraise := (raising_exec heff fun v hv => (hafter v hv c).2.1).1
  have hestablishes := TcpConnection.exec_establishes heff
  have hstate : d.record.conn.state_ = eff.conn.state_ := by rw [hrecord]
  have hups : d.record.ups = (p.conns c).ups + raising c w := by
    rw [hw, ← note_ups, hrecord]
  refine ⟨?_, ?_, ?_⟩
  · rw [hups]
    exact Nat.le_add_right _ _
  · rw [hstate]
    exact TcpConnection.progress_exec heff
  · rw [hadded, hraise, hups, hstate, weigh_cons, weigh_nil]
    omega

/-- Work that leaves the state and what was reported makes no report due. -/
theorem quiet {taken : List Work} {d : Change} (h : Raises p c taken d)
    (htaken : weigh (raising c) taken = 0)
    (hstate : d.record.conn.state_ = (p.conns c).conn.state_)
    (hups : d.record.ups = (p.conns c).ups) : weigh (raising c) d.added = 0 := by
  have hdue := h.due
  rw [htaken, hstate, hups] at hdue
  omega

end Raises

/-- A functor holds a member function that reports nothing itself. -/
theorem raising_bound (hr : Reported p c) {k : ConnTask} (hmem : Work.bound c k ∈ p.pending) :
    raising c (.bound c k) = raising c (.conn c k) := by
  have hk : k.isBound = true := by
    have hzero := weigh_eq_zero.1 hr.bound _ hmem
    by_contra hk
    simp [stray, hk] at hzero
  cases k <;> first | rfl | cases hk

/-- A functor that holds a connection calls no callback of it. -/
theorem Touches.raises {e : ProcessEvent} {taken : List Work} {d : Change}
    (ht : Touches p c e taken d) (hr : Reported p c) : Raises p c taken d := by
  cases ht with
  | run htake hperforms =>
    have hmem := mem_pending_of_head (head_stackOf htake)
    cases hperforms with
    | task hrelease hclose hwrite hlive heff =>
      exact .task rfl silent_nil heff (List.append_nil _).symm rfl
    | bound hlive heff =>
      exact .task (raising_bound hr hmem) (silent_single (silent_release c)) heff rfl rfl
    | writeFailed => exact .same (silent_single (silent_handler rfl c)) silent_nil rfl rfl
    | closed hlive =>
      refine .same (silent_single fun _ => ⟨rfl, rfl, rfl, rfl⟩) (silent_single ?_) rfl rfl
      unfold Connection.closeTask
      split <;> exact fun _ => ⟨rfl, rfl, rfl, rfl⟩
    | released | destroyed => exact .same (silent_single (silent_release c)) silent_nil rfl rfl
    | setCloseCallback =>
      exact .same (silent_single fun _ => ⟨rfl, rfl, rfl, rfl⟩)
        (silent_single (silent_release c)) rfl rfl
    | removeConnection =>
      exact .same (silent_single fun _ => ⟨rfl, rfl, rfl, rfl⟩)
        (silent_single fun _ => ⟨rfl, rfl, rfl, rfl⟩) rfl rfl
    | removeConnectionInLoop =>
      refine .same (silent_single fun _ => ⟨rfl, rfl, rfl, rfl⟩) ?_ rfl rfl
      intro w hw
      rcases List.mem_append.1 hw with hw | hw
      · rw [List.eq_of_mem_replicate hw]
        exact silent_release c
      · simp only [List.mem_cons, List.not_mem_nil, or_false] at hw
        rcases hw with rfl | rfl
        · exact silent_destroyed c
        · exact silent_release c
    | clientRemoves =>
      refine .same (silent_single fun _ => ⟨rfl, rfl, rfl, rfl⟩) ?_ rfl rfl
      intro w hw
      simp only [List.mem_cons, List.not_mem_nil, or_false] at hw
      rcases hw with rfl | rfl
      · exact silent_release c
      · exact silent_destroyed c
  | meanwhile htake hmeanwhile =>
    cases hmeanwhile with
    | erased | replaced | clientDestroyed =>
      exact .same silent_nil (silent_single (silent_release c)) rfl rfl
    | destroyNext =>
      refine .same silent_nil ?_ rfl rfl
      intro w hw
      simp only [List.mem_cons, List.not_mem_nil, or_false] at hw
      rcases hw with rfl | rfl
      · exact silent_destroyed c
      · exact silent_release c
    | quit | nothing => exact .same silent_nil silent_nil rfl rfl
  | returned => exact .same (silent_single fun _ => ⟨rfl, rfl, rfl, rfl⟩) silent_nil rfl rfl
  | called hreaches heff | disconnected hconnection heff =>
    exact .call heff silent_nil (List.append_nil _).symm rfl
  | forced hconnection howners heff =>
    exact .call heff (fun w hw => (Reported.silent_setter w hw).1) (List.append_assoc _ _ _) rfl
  | spared => exact .same silent_nil (fun w hw => (Reported.silent_setter w hw).1) rfl rfl
  | kept | keptConnection | consumed | nothing => exact .same silent_nil silent_nil rfl rfl
  | dropped | replaced => exact .same silent_nil (silent_single (silent_release c)) rfl rfl
  | received hr =>
    obtain ⟨region, rs, -, -, -, rfl⟩ := TcpConnection.receive_eq_some hr
    exact .same silent_nil (silent_single (silent_handler rfl c)) rfl rfl
  | readFailed hr =>
    obtain ⟨region, rs, -, rfl⟩ := TcpConnection.readFails_eq_some hr
    exact .same silent_nil (silent_single (silent_handler rfl c)) rfl rfl
  | transmitted hr =>
    obtain ⟨region, rs, -, -, -, rfl⟩ := TcpConnection.transmit_eq_some hr
    exact .same silent_nil (silent_single (silent_handler rfl c)) rfl rfl
  | sendFailed hr =>
    obtain ⟨region, rs, -, rfl⟩ := TcpConnection.sendFails_eq_some hr
    exact .same silent_nil (silent_single (silent_handler rfl c)) rfl rfl

/-- A step that is no work reports nothing. -/
theorem Touches.silent {e : ProcessEvent} {taken : List Work} {d : Change}
    (ht : Touches p c e taken d) (hrun : ∀ u peer, e ≠ .run u peer) : ∀ w ∈ d.added, Silent w := by
  cases ht with
  | run | meanwhile => exact absurd rfl (hrun _ _)
  | called hreaches heff | disconnected hconnection heff => exact silent_call heff c
  | forced hconnection howners heff =>
    intro w hw
    rw [List.append_assoc] at hw
    rcases List.mem_append.1 hw with hw | hw
    · exact silent_call heff c w hw
    · exact (Reported.silent_setter w hw).1
  | spared => exact fun w hw => (Reported.silent_setter w hw).1
  | returned | kept | keptConnection | consumed | nothing => exact silent_nil
  | dropped | replaced => exact silent_single (silent_release c)
  | received hr =>
    obtain ⟨region, rs, -, -, -, rfl⟩ := TcpConnection.receive_eq_some hr
    exact silent_single (silent_handler rfl c)
  | readFailed hr =>
    obtain ⟨region, rs, -, rfl⟩ := TcpConnection.readFails_eq_some hr
    exact silent_single (silent_handler rfl c)
  | transmitted hr =>
    obtain ⟨region, rs, -, -, -, rfl⟩ := TcpConnection.transmit_eq_some hr
    exact silent_single (silent_handler rfl c)
  | sendFailed hr =>
    obtain ⟨region, rs, -, rfl⟩ := TcpConnection.sendFails_eq_some hr
    exact silent_single (silent_handler rfl c)

/-! ## What closes a connection -/

/-- The member functions of a connection run on the thread of its loop. -/
theorem Placed.here {w : Work} (h : Placed p) (hhead : (p.stackOf t).head? = some w)
    (hplace : p.place w = some (p.conns c).conn.loop_) : t = (p.conns c).conn.loop_ :=
  (h.stack _ (Keyed.mem_ofKey.1 (List.mem_of_head? hhead))).place _ hplace

/-- A connection is closed by a member function that runs on the thread of its loop and reports
nothing up. -/
theorem Touches.closes {e : ProcessEvent} {taken : List Work} {d : Change}
    (ht : Touches p c e taken d) (hplaced : Placed p)
    (hclosed : d.record.conn.state_ = .kDisconnected)
    (hopen : (p.conns c).conn.state_ ≠ .kDisconnected) : Closes p c e d := by
  have hcall : ∀ {here : Option LoopId} {x : ConnCall} {eff : Effect},
      (p.conns c).conn.call here x = .ok eff → eff.conn.state_ ≠ .kDisconnected :=
    fun heff hno => hopen ((TcpConnection.call_closing heff).1.1 hno)
  cases ht with
  | run htake hperforms =>
    have hhead := head_stackOf htake
    cases hperforms with
    | @task k eff hrelease hclose hwrite hlive heff =>
      obtain ⟨hk, hup⟩ := TcpConnection.exec_closes heff hclosed hopen
      refine ⟨?_, _, _, _, rfl, hhead, ?_, ?_⟩
      · have hraise := (raising_exec (c := c) heff (List.forall_mem_nil _)).1
        rw [List.append_nil, TcpConnection.exec_up heff, if_neg hk] at hraise
        exact hraise
      · rw [raising_conn, hup]
      · refine hplaced.here hhead ?_
        cases k <;> first | rfl | exact absurd rfl hrelease
    | bound hlive heff =>
      obtain ⟨hk, hup⟩ := TcpConnection.exec_closes heff hclosed hopen
      refine ⟨?_, _, _, _, rfl, hhead, rfl, hplaced.here hhead rfl⟩
      have hraise := (raising_exec (c := c) heff fun v hv =>
        (silent_single (silent_release c) v hv c).2.1).1
      rw [TcpConnection.exec_up heff, if_neg hk] at hraise
      exact hraise
    | writeFailed | closed | released | destroyed | setCloseCallback | removeConnection
    | removeConnectionInLoop | clientRemoves => exact absurd hclosed hopen
  | meanwhile htake hmeanwhile => cases hmeanwhile <;> exact absurd hclosed hopen
  | called hreaches heff | disconnected hconnection heff | forced hconnection howners heff =>
    exact absurd hclosed (hcall heff)
  | returned | spared | kept | keptConnection | dropped | consumed | replaced | nothing =>
    exact absurd hclosed hopen
  | received hr =>
    obtain ⟨region, rs, -, -, -, rfl⟩ := TcpConnection.receive_eq_some hr
    exact absurd hclosed hopen
  | readFailed hr =>
    obtain ⟨region, rs, -, rfl⟩ := TcpConnection.readFails_eq_some hr
    exact absurd hclosed hopen
  | transmitted hr =>
    obtain ⟨region, rs, -, -, -, rfl⟩ := TcpConnection.transmit_eq_some hr
    exact absurd hclosed hopen
  | sendFailed hr =>
    obtain ⟨region, rs, -, rfl⟩ := TcpConnection.sendFails_eq_some hr
    exact absurd hclosed hopen

/-- A report that is due is on the stack of the thread of the loop. -/
theorem raising_eq_zero (hplaced : Placed p) (hseq : Sequenced p)
    (h : weigh (raising c) (p.stackOf (p.conns c).conn.loop_) = 0) :
    weigh (raising c) p.pending = 0 := by
  apply weigh_eq_zero.2
  intro w hw
  by_contra hne
  obtain rfl : w = .conn c (.callback (.connection true)) := by
    unfold raising at hne
    split at hne
    · split_ifs at hne with hd
      · rw [hd]
      · exact absurd rfl hne
    · exact absurd rfl hne
  rcases List.mem_append.1 hw with hw | hw
  · obtain ⟨⟨t, w⟩, he, rfl⟩ := List.mem_map.1 hw
    obtain rfl : t = (p.conns c).conn.loop_ := (hplaced.stack _ he).place _ rfl
    exact hne (weigh_eq_zero.1 h _ (Keyed.mem_ofKey.2 he))
  · obtain ⟨⟨l, w⟩, he, rfl⟩ := List.mem_map.1 hw
    cases hseq.queued _ he

/-! ## Steps -/

namespace Announced

/-- A member function of the connection runs. -/
theorem execConn {k : ConnTask} {after : List Work} (h : Foremost (raising c) p)
    (hstack : weigh (raising c) (p.stackOf t) = 0) (hafter : ∀ w ∈ after, raising c w = 0)
    (hexec : p.execConn t c k after = .ok q) : Foremost (raising c) q := by
  obtain ⟨-, eff, heff, rfl⟩ := execConn_eq_ok.1 hexec
  have hnote : Foremost (raising c) ((p.update c fun r => r.note k).update c
      fun r => { r with conn := eff.conn }) := h.of_stack rfl
  exact hnote.schedule hstack (raising_exec heff hafter).2

/-- A work item runs: no report is due below it, and what gets due is on top. -/
theorem run {peer : List Char} {w : Work} {rest : List (ThreadId × Work)} (h : Announced p c)
    (hr : Reported p c) (hc : c < p.nextConn) (hsorted : p.server.connections_.Sorted)
    (htake : Keyed.takeFirst t p.stack = some (w, rest))
    (hexec : ({ p with stack := rest } : Process).exec t peer w = .ok q) :
    Foremost (raising c) q := by
  obtain ⟨hpop, hstack⟩ := h.foremost.pop htake
  have hadds : ∀ d, Alters { p with stack := rest } q c [] d → weigh (raising c) d.added = 0 →
      Foremost (raising c) q := by
    intro d halters hzero
    refine hpop.pushes hstack (Pushes.exec hexec) ?_
    have hpending := halters.pending (raising c) fun w => raising_about
    rw [weigh_nil, hzero] at hpending
    exact Nat.le_of_eq hpending
  rcases exec_performs (p := { p with stack := rest }) hc hsorted hexec with
    ⟨d, hperforms, halters⟩ | ⟨d, hmeanwhile, halters⟩
  · have htouches : Touches p c (.run t peer) [w] d := .run htake hperforms
    have hraises := htouches.raises hr
    cases hperforms with
    | @task k eff hrelease hclose hwrite hlive heff =>
      rcases exec_conn_eq_ok.1 hexec with ⟨rfl, -⟩ | ⟨rfl, -⟩ | ⟨⟨e, n, rfl⟩, -⟩ | ⟨-, -, -, hexec⟩
      · exact absurd rfl hrelease
      · exact absurd rfl hclose
      · exact absurd rfl (hwrite e n)
      · exact execConn hpop hstack (List.forall_mem_nil _) hexec
    | bound hlive heff =>
      refine execConn hpop hstack ?_ hexec
      intro v hv
      rw [List.mem_singleton.1 hv]
      rfl
    | writeFailed | closed | released | destroyed | setCloseCallback | removeConnection
    | removeConnectionInLoop | clientRemoves =>
      exact hadds _ halters (hraises.quiet rfl rfl rfl)
  · have htouches : Touches p c (.run t peer) [] d := .meanwhile htake hmeanwhile
    have hraises := htouches.raises hr
    cases hmeanwhile with
    | erased | destroyNext | quit | replaced | clientDestroyed | nothing =>
      exact hadds _ halters (hraises.quiet rfl rfl rfl)

/-- Every step leaves a report that is due on top. -/
theorem tops {e : ProcessEvent} {taken : List Work} {d : Change} (h : Announced p c)
    (hr : Reported p c) (hsorted : p.server.connections_.Sorted) (hc : c < p.nextConn)
    (ht : Touches p c e taken d) (ha : Alters p q c taken d) (hstep : step e p = .ok q) :
    Foremost (raising c) q := by
  cases course_of_step hstep with
  | dequeues hlive hempty htake hq =>
    rw [hq]
    exact Foremost.dequeue h.foremost hempty
  | runs htake hready hexec => exact h.run hr hc hsorted htake hexec
  | returns htake hq =>
    rw [hq]
    exact (Foremost.pop h.foremost htake).1
  | calls hrun hready hpushes =>
    refine h.foremost.pushes (h.foremost.of_ready (fun _ _ => rfl) hready) hpushes ?_
    have hpending := ha.pending (raising c) fun w => raising_about
    rw [Silent.raising_eq (ht.silent hrun)] at hpending
    omega
  | completes hrun hstack hpushes => exact h.foremost.of_stack hstack

/-- Every step keeps the report that a connection is up in line with its state. -/
theorem touches {e : ProcessEvent} {taken : List Work} {d : Change} (h : Announced p c)
    (hr : Reported p c) (hplaced : Placed p) (hseq : Sequenced p)
    (hsorted : p.server.connections_.Sorted) (hc : c < p.nextConn) (ht : Touches p c e taken d)
    (ha : Alters p q c taken d) (hstep : step e p = .ok q) : Announced q c := by
  have hraises := ht.raises hr
  have hpending := ha.pending (raising c) fun w => raising_about
  refine ⟨?_, ?_, h.tops hr hsorted hc ht ha hstep⟩
  · have hdue := hraises.due
    have hold := h.due
    rw [ha.record]
    split_ifs at hdue hold ⊢ <;> omega
  · rw [ha.record]
    intro hne hclosed
    apply hne
    by_cases hopen : (p.conns c).conn.state_ = .kDisconnected
    · -- A closed connection has nothing due, and gets nothing due.
      have hnone : weigh (raising c) p.pending = 0 := by
        by_contra hdue
        exact h.unclosed hdue hopen
      have hdue := hraises.due
      have hups := hraises.ups
      rw [hclosed, hopen] at hdue
      simp only [reduceCtorEq, if_false] at hdue
      omega
    · -- The thread that closes it has nothing due on its stack.
      obtain ⟨hquiet, u, peer, w, rfl, hhead, hw, hloop⟩ := ht.closes hplaced hclosed hopen
      have hstack : weigh (raising c) (p.stackOf u) = 0 := by
        obtain ⟨below, hstack⟩ := List.head?_eq_some_iff.1 hhead
        have htail := h.foremost u
        rw [hstack, List.tail_cons] at htail
        rw [hstack, weigh_cons, hw, htail]
      rw [hloop] at hstack
      have hnone := raising_eq_zero hplaced hseq hstack
      omega

/-- A new connection has nothing to report. -/
theorem born {e : ProcessEvent} {d : Change} {n m : Nat} (hm : Makes p e d n m)
    (hb : Born q p.nextConn d n m) : Announced q p.nextConn := by
  have hraise := hb.pending (raising p.nextConn) fun w => raising_about
  have hrecord := hb.record
  have hnone : weigh (raising p.nextConn) q.pending = 0 ∧ (q.conns p.nextConn).ups = 0 ∧
      (q.conns p.nextConn).conn.state_ = .kConnecting := by
    cases hm with
    | accepts | connects =>
      rw [hraise, hrecord]
      simp [raising, Connection.make, TcpConnection.make]
  obtain ⟨hpending, hups, hstate⟩ := hnone
  refine ⟨?_, fun hne => absurd hpending hne, Foremost.of_stacks (Foremost.of_weigh hpending)⟩
  rw [hpending, hups, hstate]
  rfl

end Announced

/-! ## Runs -/

/-- What holds of all connections in every run. -/
structure Announces (p : Process) : Prop where
  placed : Placed p
  sorted : p.server.connections_.Sorted
  sequenced : Sequenced p
  reported : ∀ c < p.nextConn, Reported p c
  announced : ∀ c < p.nextConn, Announced p c

/-- A step takes the connections on. -/
theorem Announces.goesOn {e : ProcessEvent} (h : Announces p) (hc : c < p.nextConn)
    (hstep : step e p = .ok q) : GoesOn p q c := by
  obtain ⟨taken, d, htouches, halters⟩ := step_touches h.placed h.sorted hc hstep
  have hraises := htouches.raises (h.reported c hc)
  refine ⟨?_, ?_, ?_⟩
  · rw [halters.record]
    exact hraises.progress
  · rw [halters.record]
    exact hraises.ups
  · rw [halters.record]
    exact htouches.downs_le

theorem Announces.step {e : ProcessEvent} (h : Announces p) (hstep : Process.step e p = .ok q) :
    Announces q := by
  have hconns : ∀ c < q.nextConn, Reported q c ∧ Announced q c := by
    intro c hc
    rcases old_or_born h.placed h.sorted hstep hc with hmade | ⟨rfl, d, n, m, hm, hb⟩
    · obtain ⟨taken, d, htouches, halters⟩ := step_touches h.placed h.sorted hmade hstep
      have hreported := h.reported c hmade
      exact ⟨hreported.touches htouches halters, (h.announced c hmade).touches hreported h.placed
        h.sequenced h.sorted hmade htouches halters hstep⟩
    · exact ⟨Reported.born hm hb, Announced.born hm hb⟩
  exact ⟨(Moves.step h.placed hstep).placed, sorted_step h.sorted hstep, h.sequenced.step hstep,
    fun c hc => (hconns c hc).1, fun c hc => (hconns c hc).2⟩

theorem announces_initial (hp : processMachine.init p) : Announces p := by
  have hplaced := placed_initial hp
  have hsorted := sorted_initial hp
  have hseq := sequenced_initial hp
  obtain ⟨baseLoop, pool, clientLoop, ipPort, serverName, clientName, m, w, -, -, rfl⟩ := hp
  exact ⟨hplaced, hsorted, hseq, fun c hc => absurd hc (Nat.not_lt_zero c),
    fun c hc => absurd hc (Nat.not_lt_zero c)⟩

theorem announces_of_reachable (hp : processMachine.Reachable p) : Announces p :=
  hp.invariant (fun _ => announces_initial) fun _ _ _ h _ hstep => h.step hstep

/-- What is due and what was reported go together. -/
theorem Announces.inOrder (h : Announces p) (hc : c < p.nextConn) : ReportedInOrder p c := by
  obtain ⟨-, -, hlowered, -, -, -⟩ := h.reported c hc
  obtain ⟨hdue, hunclosed, -⟩ := h.announced c hc
  have hclosed : (p.conns c).conn.state_ = .kDisconnected →
      weigh (raising c) p.pending = 0 ∧ (p.conns c).ups = 1 := by
    intro hstate
    have hnone : weigh (raising c) p.pending = 0 := by
      by_contra hne
      exact hunclosed hne hstate
    rw [hnone, hstate, if_neg (by decide)] at hdue
    exact ⟨hnone, by omega⟩
  constructor
  · split_ifs at hdue <;> omega
  · split_ifs at hlowered with hstate
    · have hups := (hclosed hstate).2
      omega
    · omega
  · intro hstate
    rw [if_pos hstate] at hdue
    omega
  · intro hdown
    by_contra hopen
    rw [if_neg hopen] at hlowered
    omega
  · intro hmem
    have hle := le_weigh (f := raising c) hmem
    have hone : raising c (.conn c (.callback (.connection true))) = 1 := if_pos rfl
    have hopen := hunclosed (by omega)
    split_ifs at hdue with hstate
    · omega
    · refine ⟨by omega, ?_⟩
      cases hs : (p.conns c).conn.state_ with
      | kConnecting => exact absurd hs hstate
      | kConnected => exact Or.inl rfl
      | kDisconnecting => exact Or.inr rfl
      | kDisconnected => exact absurd hs hopen
  · intro hmem
    have hle := le_weigh (f := lowering c) hmem
    have hone : lowering c (.conn c (.callback (.connection false))) = 1 := if_pos rfl
    split_ifs at hlowered with hstate
    · exact ⟨(hclosed hstate).2, by omega, hstate⟩
    · omega

/-- In every run, and however it goes on, every connection is reported up at most once, and down at
most once and only after that. -/
theorem reportedInOrder_of_reachable (hp : processMachine.Reachable p) (hc : c < p.nextConn) :
    ReportedInOrder p c ∧ ∀ q, (processMachine.startedAt p).Reachable q →
      GoesOn p q c ∧ ReportedInOrder q c := by
  have h := announces_of_reachable hp
  refine ⟨h.inOrder hc, ?_⟩
  intro q hq
  have hon : Announces q ∧ c < q.nextConn ∧ GoesOn p q c := by
    refine hq.invariant (I := fun q => Announces q ∧ c < q.nextConn ∧ GoesOn p q c) ?_ ?_
    · rintro _ rfl
      exact ⟨h, hc, .refl _ c⟩
    · rintro q e r ⟨hq, hmade, hon⟩ - hstep
      have hfollows := (Moves.step hq.placed hstep).follows
      exact ⟨hq.step hstep, Nat.lt_of_lt_of_le hmade hfollows.nextConn,
        hon.trans (hq.goesOn hmade hstep)⟩
  exact ⟨hon.2.2, hon.1.inOrder hon.2.1⟩

/-- The peer closes a connection of a server with a pool while its thread reports it up. -/
theorem reportedInOrder_closing : ∃ p : Process, (p.nextConn, (p.conns 0).ups,
    (p.queueOf 0).length) = (1, 1, 1) ∧ ReportedInOrder p 0 ∧
      ∀ q, (processMachine.startedAt p).Reachable q → GoesOn p q 0 ∧ ReportedInOrder q 0 := by
  have hinit : processMachine.init (initial 1 [0] 2 [] [] [] false false) :=
    ⟨1, [0], 2, [], [], [], false, false, by simp, by simp, rfl⟩
  obtain ⟨p, hp, hobs⟩ := Machine.exists_of_run (C := fun _ _ => True) hinit
    (l := [.accept 0, .run 1 [], .dequeue 0, .run 0 [], .run 0 [], .readFails 0 .eof])
    (f := fun p => (p.nextConn, (p.conns 0).ups, (p.queueOf 0).length))
    (a := (1, 1, 1)) (by decide +kernel)
  have hc : 0 < p.nextConn := by
    rw [(Prod.mk.inj hobs).1]
    decide
  exact ⟨p, hobs, reportedInOrder_of_reachable hp hc⟩

end Process

end LibNetToy
