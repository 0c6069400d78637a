import LibNetToy.Net.Lifecycle
import LibNetToy.Net.Threads

/-!
# The owners of a connection

The completion handlers and the functors of `startRead`, `stopRead` and `shutdown` are bound to
a raw `this`, so nothing they hold keeps the connection alive.  The callbacks do: whoever calls
one holds a pointer until it has returned.  A connection whose last owner lets it go while an
operation is outstanding, or while such a functor or handler is still to run, is used after it
was destroyed; the destruction of the socket itself makes the kernel queue the handlers.
-/

namespace LibNetToy

/-- A member function that is bound to a raw `this`, or the end of one. -/
def ConnTask.isRaw : ConnTask → Bool
  | .readHandler _ _ => true
  | .writeHandler _ _ => true
  | .startReadInLoop => true
  | .stopReadInLoop => true
  | .shutdownInLoop => true
  | .readAgain _ => true
  | _ => false

/-- A member function bound to a raw `this` starts, or goes on after a callback: at the end of
`readHandler`, and where `handleClose` reads `closeCallback_`. -/
def ConnTask.usesThis : ConnTask → Bool
  | .callback .close => true
  | k => k.isRaw

namespace Process

/-- Work that holds no pointer and does not rely on one. -/
def raw (c : ConnId) : Work → Nat
  | .conn d k => if d = c ∧ k.isRaw = true then 1 else 0
  | _ => 0

/-- Work that relies on a pointer which the same thread holds. -/
def relying (c : ConnId) : Work → Nat
  | .conn d k => if d = c ∧ k.isRaw = false ∧ k ≠ .release then 1 else 0
  | _ => 0

/-- No operation of the connection is outstanding, and nothing is to run on it that is bound to
a raw `this`. -/
structure AtRest (p : Process) (c : ConnId) : Prop where
  reads : (p.conns c).conn.socket_.reads = []
  sends : (p.conns c).conn.socket_.sends = []
  quiet : weigh (raw c) p.pending = 0

instance (p : Process) (c : ConnId) : Decidable (p.AtRest c) :=
  decidable_of_iff ((p.conns c).conn.socket_.reads = [] ∧ (p.conns c).conn.socket_.sends = [] ∧
    weigh (raw c) p.pending = 0)
    ⟨fun ⟨h₁, h₂, h₃⟩ => ⟨h₁, h₂, h₃⟩, fun ⟨h₁, h₂, h₃⟩ => ⟨h₁, h₂, h₃⟩⟩

/-- Whatever is about to use a connection through a raw `this`, the connection has an owner. -/
def HandlersOwned (p : Process) : Prop :=
  ∀ t c k, (p.stackOf t).head? = some (.conn c k) → k.usesThis = true → 0 < p.owners c

/-- The connection that a thread is about to release a pointer to. -/
def released : Option Work → Option ConnId
  | some (.conn c .release) => some c
  | _ => none

/-- The last pointer to a connection is released only when the connection is at rest. -/
def DropsAtRest (p : Process) : ProcessEvent → Prop
  | .run t _ => ∀ c ∈ released (p.stackOf t).head?, p.owners c = 1 → p.AtRest c
  | _ => True

instance (p : Process) (e : ProcessEvent) : Decidable (p.DropsAtRest e) :=
  match e with
  | .run t _ => inferInstanceAs
      (Decidable (∀ c ∈ released (p.stackOf t).head?, p.owners c = 1 → p.AtRest c))
  | .dequeue _ | .return_ _ | .call _ _ _ | .keep _ _ | .keepConnection _ | .drop _ _
  | .consume _ _ _ | .receive _ _ | .readFails _ _ | .transmit _ _ _ | .sendFails _ _
  | .accept _ | .destroyServer _ | .destroyClient _ | .timerExpires _ | .clientCall _ _
  | .connectorCall _ _ | .connectDone _ _ => isTrue trivial

variable {p q : Process} {c : ConnId} {t : ThreadId}

/-! ## Pointers held by callers -/

/-- Work about something else does not rely on the connection. -/
theorem relying_about {w : Work} (hw : w.connId ≠ some c) : relying c w = 0 := by
  unfold relying
  split
  · exact if_neg fun h => hw (congrArg some h.1)
  · rfl

/-- Work about something else holds no raw pointer to the connection. -/
theorem raw_about {w : Work} (hw : w.connId ≠ some c) : raw c w = 0 := by
  unfold raw
  split
  · exact if_neg fun h => hw (congrArg some h.1)
  · rfl

/-- Work about something else holds no `shared_ptr` to the connection. -/
theorem holds_about {w : Work} (hw : w.connId ≠ some c) : holds c w = 0 := by
  unfold holds
  split
  · exact if_neg fun h => hw (congrArg some h)
  · exact if_neg fun h => hw (congrArg some h)
  · exact if_neg fun h => hw (congrArg some h)
  · exact if_neg fun h => hw (congrArg some h)
  · rfl

/-- Below work that relies on a pointer, the thread releases one. -/
def Covered (c : ConnId) : List Work → Prop
  | [] => True
  | w :: ws => (relying c w ≠ 0 → .conn c .release ∈ ws) ∧ Covered c ws

namespace Covered

variable {ws : List Work}

/-- Calls that do not rely on the connection need no owner. -/
theorem append {calls : List Work} (h : Covered c ws) (hcalls : ∀ w ∈ calls, relying c w = 0) :
    Covered c (calls ++ ws) := by
  induction calls with
  | nil => exact h
  | cons w calls ih =>
    constructor
    · intro hne
      exact absurd (hcalls w (List.mem_cons_self ..)) hne
    · exact ih fun v hv => hcalls v (List.mem_cons_of_mem _ hv)

/-- What relies on the connection has an owner behind it on the stack. -/
theorem release_mem {w : Work} (h : Covered c ws) (hw : w ∈ ws) (hne : relying c w ≠ 0) :
    .conn c .release ∈ ws := by
  induction ws with
  | nil => cases hw
  | cons v ws ih =>
    rcases List.mem_cons.1 hw with rfl | hw
    · exact List.mem_cons_of_mem _ (h.1 hne)
    · exact List.mem_cons_of_mem _ (ih h.2 hw)

/-- What a member function leaves to do: a callback is followed by the release of the pointer
that was taken for it, or takes the place of the call that relied on a pointer. -/
theorem exec {here : Option LoopId} {d : TcpConnection} {k : ConnTask} {eff : Effect}
    (h : Covered c ws) (heff : d.exec here k = .ok eff)
    (hrelease : k.isRaw = false → .conn c .release ∈ ws) :
    Covered c (eff.calls.map (Work.conn c) ++ ws) := by
  cases TcpConnection.exec_runs heff with
  | received _ | readFailed _ _ | sent _ =>
    split_ifs <;> simp [Covered, relying, ConnTask.isRaw, h]
  | calls => exact ⟨fun _ => hrelease rfl, h⟩
  | _ => simp [Covered, relying, ConnTask.isRaw, h]

/-- A call from outside takes a pointer for what closes the connection. -/
theorem call {here : Option LoopId} {d : TcpConnection} {x : ConnCall} {eff : Effect}
    (h : Covered c ws) (heff : d.call here x = .ok eff) :
    Covered c (eff.calls.map (Work.conn c) ++ ws) ∧ ∀ f ∈ eff.posts, relying c (f.work c) = 0 := by
  cases x with
  | send message =>
    obtain ⟨b, -, rfl⟩ := TcpConnection.send_eq_ok.1 heff
    exact ⟨h, List.forall_mem_nil _⟩
  | shutdown | forceClose | startRead | stopRead =>
    obtain rfl := pure_eq_ok.1 heff
    simp only [TcpConnection.shutdown, TcpConnection.forceClose, TcpConnection.startRead,
      TcpConnection.stopRead, TcpConnection.runInLoop]
    split_ifs <;> simp [Covered, relying, ConnTask.isRaw, Functor.body, Functor.work, h]

end Covered

/-- On every stack the work that relies on a pointer to the connection has one, and none of it is
in a queue. -/
structure Sheltered (p : Process) (c : ConnId) : Prop where
  stack : ∀ t, Covered c (p.stackOf t)
  queue : ∀ e ∈ p.queue, relying c e.2 = 0

namespace Sheltered

/-- The stacks and queues stay as they are. -/
theorem of_eq (h : Sheltered p c) (hstack : q.stack = p.stack) (hqueue : q.queue = p.queue) :
    Sheltered q c := by
  constructor
  · intro t
    rw [stackOf, hstack]
    exact h.stack t
  · rw [hqueue]
    exact h.queue

/-- The thread makes calls that find the pointers they rely on. -/
theorem schedule {calls : List Work} {posts : List (LoopId × Work)} (h : Sheltered p c)
    (hcalls : Covered c (calls ++ p.stackOf t)) (hposts : ∀ e ∈ posts, relying c e.2 = 0) :
    Sheltered (p.schedule t calls posts) c := by
  constructor
  · intro u
    by_cases hu : u = t
    · subst hu
      have hself : (p.schedule u calls posts).stackOf u = calls ++ p.stackOf u := by
        simp [stackOf, Process.schedule]
      rw [hself]
      exact hcalls
    · have hother : (p.schedule t calls posts).stackOf u = p.stackOf u := by
        simp [stackOf, Process.schedule, Keyed.ofKey_map_of_ne (Ne.symm hu)]
      rw [hother]
      exact h.stack u
  · intro e he
    rcases List.mem_append.1 he with he | he
    · exact h.queue e he
    · exact hposts e he

/-- A step that adds no work which relies on a pointer. -/
theorem pushes {called : Work → Bool} (h : Sheltered p c) (hpushes : Pushes called t p q)
    (hweigh : weigh (relying c) q.pending ≤ weigh (relying c) p.pending) : Sheltered q c := by
  obtain ⟨⟨calls, hstack, -⟩, posts, hqueue, -⟩ := hpushes
  have hpending : weigh (relying c) q.pending = weigh (relying c) p.pending +
      weigh (relying c) calls + weigh (relying c) (posts.map Prod.snd) := by
    rw [← weigh_schedule (relying c) p t calls posts]
    unfold pending Process.schedule
    rw [hstack, hqueue]
  have hcalls : weigh (relying c) calls = 0 := by omega
  have hposts : weigh (relying c) (posts.map Prod.snd) = 0 := by omega
  have hschedule : Sheltered (p.schedule t calls posts) c := by
    refine h.schedule ((h.stack t).append (weigh_eq_zero.1 hcalls)) ?_
    intro e he
    exact weigh_eq_zero.1 hposts _ (List.mem_map_of_mem he)
  exact hschedule.of_eq hstack hqueue

/-- The thread takes a work item from its stack. -/
theorem pop {w : Work} {rest : List (ThreadId × Work)} (h : Sheltered p c)
    (htake : Keyed.takeFirst t p.stack = some (w, rest)) :
    Sheltered { p with stack := rest } c ∧
      (relying c w ≠ 0 → .conn c .release ∈ ({ p with stack := rest } : Process).stackOf t) := by
  have hself : p.stackOf t = w :: ({ p with stack := rest } : Process).stackOf t :=
    Keyed.ofKey_takeFirst htake
  have htop := h.stack t
  rw [hself] at htop
  refine ⟨⟨?_, h.queue⟩, htop.1⟩
  intro u
  by_cases hu : u = t
  · subst hu
    exact htop.2
  · have hother : ({ p with stack := rest } : Process).stackOf u = p.stackOf u :=
      (Keyed.ofKey_takeFirst_of_ne htake (Ne.symm hu)).symm
    rw [hother]
    exact h.stack u

/-- A loop takes an entry of its queue. -/
theorem dequeue {l : LoopId} {w : Work} {rest : List (LoopId × Work)} (h : Sheltered p c)
    (htake : Keyed.takeFirst l p.queue = some (w, rest)) :
    Sheltered { p with stack := (l, w) :: p.stack, queue := rest } c := by
  have hmem := fun e => Keyed.mem_of_takeFirst (e := e) htake
  have hrest : Sheltered { p with queue := rest } c :=
    ⟨h.stack, fun e he => h.queue e ((hmem e).2 (Or.inr he))⟩
  have hw : relying c w = 0 := h.queue (l, w) ((hmem _).2 (Or.inl rfl))
  have hsingle : ∀ v ∈ [w], relying c v = 0 := by
    intro v hv
    rw [List.mem_singleton.1 hv]
    exact hw
  have hschedule : Sheltered (({ p with queue := rest } : Process).schedule l [w] []) c :=
    hrest.schedule ((hrest.stack l).append hsingle) nofun
  exact hschedule.of_eq rfl (List.append_nil _).symm

/-- A member function of the connection runs. -/
theorem execConn {k : ConnTask} {after : List Work} (h : Sheltered p c)
    (hafter : Covered c (after ++ p.stackOf t))
    (hrelease : k.isRaw = false → .conn c .release ∈ after ++ p.stackOf t)
    (hexec : p.execConn t c k after = .ok q) : Sheltered q c := by
  obtain ⟨-, eff, heff, rfl⟩ := execConn_eq_ok.1 hexec
  obtain ⟨hposts, -⟩ := TcpConnection.exec_followUp heff
  have hnote : Sheltered ((p.update c fun r => r.note k).update c
      fun r => { r with conn := eff.conn }) c := h.of_eq rfl rfl
  refine hnote.schedule ?_ ?_
  · rw [List.append_assoc]
    exact hafter.exec heff hrelease
  · rw [hposts]
    exact nofun

/-- A work item runs. -/
theorem run {peer : List Char} (h : Sheltered p c) (hc : c < p.nextConn)
    (hsorted : p.server.connections_.Sorted) (hstep : step (.run t peer) p = .ok q) :
    Sheltered q c := by
  obtain ⟨w, rest, htake, -, hexec⟩ := run_eq_ok.1 hstep
  obtain ⟨hpop, hrelease⟩ := h.pop htake
  have hadds : ∀ d, Alters { p with stack := rest } q c [] d → weigh (relying c) d.added = 0 →
      Sheltered q c := by
    intro d halters hzero
    refine hpop.pushes (Pushes.exec hexec) ?_
    have hpending := halters.pending (relying c) fun w => relying_about
    rw [weigh_nil, hzero] at hpending
    exact Nat.le_of_eq hpending
  rcases exec_performs (p := { p with stack := rest }) hc hsorted hexec with
    ⟨d, hperforms, halters⟩ | ⟨d, hmeanwhile, halters⟩
  · cases hperforms with
    | @task k eff hnot hclose hwrite hlive heff =>
      rcases exec_conn_eq_ok.1 hexec with ⟨rfl, -⟩ | ⟨rfl, -⟩ | ⟨⟨e, n, rfl⟩, -⟩ | ⟨-, -, -, hexec⟩
      · exact absurd rfl hnot
      · exact absurd rfl hclose
      · exact absurd rfl (hwrite e n)
      · refine hpop.execConn (hpop.stack t) ?_ hexec
        intro hraw
        exact hrelease (by simp [relying, hraw, hnot])
    | bound hlive heff =>
      have hcovered : Covered c ([.conn c .release] ++
          ({ p with stack := rest } : Process).stackOf t) :=
        (hpop.stack t).append (by simp [relying])
      exact hpop.execConn hcovered (fun _ => List.mem_append_left _ (List.mem_singleton_self _))
        hexec
    | closed hlive =>
      refine hadds _ halters ?_
      unfold Connection.closeTask
      split <;> rfl
    | removeConnectionInLoop =>
      refine hadds _ halters (weigh_eq_zero.2 ?_)
      intro w hw
      rcases List.mem_append.1 hw with hw | hw
      · rw [List.eq_of_mem_replicate hw]
        simp [relying]
      · simp only [List.mem_cons, List.not_mem_nil, or_false] at hw
        rcases hw with rfl | rfl <;> simp [relying]
    | writeFailed | released | destroyed | setCloseCallback | removeConnection | clientRemoves =>
      exact hadds _ halters (by simp [relying])
  · cases hmeanwhile <;> exact hadds _ halters (by simp [relying])

/-- The parts of the process that are not connections change, and the connector works. -/
theorem aside {called : Work → Bool} (h : Sheltered p c) (ha : Aside p q)
    (hpushes : Pushes called t p q) : Sheltered q c := by
  refine h.pushes hpushes (Nat.le_of_eq (ha.pending _ ?_))
  intro w hw
  refine relying_about ?_
  intro hconn
  rw [aboutConnection, hconn] at hw
  cases hw

/-- A completion is queued. -/
theorem post {l : LoopId} {w : Work} (h : Sheltered p c) (hw : relying c w = 0) :
    Sheltered { p with queue := p.queue ++ [(l, w)] } c := by
  refine ⟨h.stack, ?_⟩
  intro e he
  rcases List.mem_append.1 he with he | he
  · exact h.queue e he
  · rw [List.mem_singleton.1 he]
    exact hw

/-- The handler of an operation relies on the connection's socket only. -/
theorem complete {b : ConnId} {r : TcpConnection × ConnTask} (h : Sheltered p c)
    (hr : r.2.isRaw = true) : Sheltered (p.complete b r) c := by
  have hset : Sheltered (p.update b fun s => { s with conn := r.1 }) c := h.of_eq rfl rfl
  exact hset.post (by simp [relying, hr])

/-- A call of a connection from outside. -/
theorem call {b : ConnId} {d : TcpConnection} {x : ConnCall} {eff : Effect} {after : List Work}
    (h : Sheltered p c) (hafter : ∀ w ∈ after, relying c w = 0)
    (heff : d.call (some t) x = .ok eff) : Sheltered (p.applyEffect t b eff after) c := by
  have hset : Sheltered (p.update b fun r => { r with conn := eff.conn }) c := h.of_eq rfl rfl
  have hcovered : Covered c (after ++ p.stackOf t) := (h.stack t).append hafter
  by_cases hb : b = c
  · subst hb
    obtain ⟨hcalls, hposts⟩ := hcovered.call heff
    refine hset.schedule ?_ ?_
    · rw [List.append_assoc]
      exact hcalls
    · intro e he
      obtain ⟨f, hf, rfl⟩ := List.mem_map.1 he
      exact hposts f hf
  · have hother : ∀ w : Work, w.connId = some b → relying c w = 0 := by
      intro w hw
      refine relying_about ?_
      rw [hw]
      exact fun h => hb (Option.some.inj h)
    refine hset.schedule ?_ ?_
    · rw [List.append_assoc]
      refine hcovered.append ?_
      intro w hw
      obtain ⟨k, -, rfl⟩ := List.mem_map.1 hw
      exact hother _ rfl
    · intro e he
      obtain ⟨f, -, rfl⟩ := List.mem_map.1 he
      exact hother _ (connId_functor b f)

/-- The destructor of the client keeps what it relies on. -/
theorem destructor (h : Sheltered p c) (hexec : TcpClient.destructor p t = .ok q) :
    Sheltered q c := by
  have hset : ∀ b, Sheltered (TcpClient.setCloseCallback p t b) c := by
    intro b
    unfold TcpClient.setCloseCallback
    split_ifs
    · exact h.of_eq rfl rfl
    · have hlife : Sheltered { p with client := { p.client with life := .destructing } } c :=
        h.of_eq rfl rfl
      exact hlife.schedule (hlife.stack t) (by simp [relying])
  have hafter : ∀ b, ∀ w ∈ [Work.conn b .release, .client .destroyed], relying c w = 0 := by
    intro b
    simp [relying]
  rcases TcpClient.destructor_eq_ok.1 hexec with ⟨-, rfl⟩ | ⟨b, -, -, ⟨-, rfl⟩ | ⟨-, rfl⟩⟩
  · have hlife : Sheltered { p with client := { p.client with life := .destructing } } c :=
      h.of_eq rfl rfl
    have hstop := hlife.aside Aside.stop (Pushes.stop (t := t))
    exact hstop.schedule ((hstop.stack t).append (by simp [relying])) nofun
  · exact (hset b).call (d := (p.conns b).conn) (x := .forceClose) (hafter b) rfl
  · exact (hset b).schedule (((hset b).stack t).append (hafter b)) nofun

/-- Every step keeps the pointers that a connection relies on. -/
theorem step {e : ProcessEvent} (h : Sheltered p c) (hc : c < p.nextConn)
    (hsorted : p.server.connections_.Sorted) (hstep : Process.step e p = .ok q) :
    Sheltered q c := by
  cases e with
  | dequeue l =>
    obtain ⟨-, w, rest, htake, rfl⟩ := dequeue_eq_ok.1 hstep
    exact h.dequeue htake
  | run t peer => exact h.run hc hsorted hstep
  | return_ t =>
    obtain ⟨b, k, rest, htake, rfl⟩ := return_eq_ok.1 hstep
    exact (h.pop htake).1
  | call t b x =>
    obtain ⟨-, eff, heff, rfl⟩ := call_eq_ok.1 hstep
    exact h.call nofun heff
  | keep t b =>
    obtain ⟨-, rfl⟩ := keep_eq_ok.1 hstep
    exact h.of_eq rfl rfl
  | keepConnection t =>
    obtain ⟨-, b, -, rfl⟩ := keepConnection_eq_ok.1 hstep
    exact h.of_eq rfl rfl
  | drop t b =>
    obtain ⟨-, rfl⟩ := drop_eq_ok.1 hstep
    have hset : Sheltered (p.update b fun r => { r with refs := r.refs - 1 }) c := h.of_eq rfl rfl
    exact hset.schedule ((hset.stack t).append (by simp [relying])) nofun
  | consume t b len =>
    obtain ⟨-, r, -, rfl⟩ := consume_eq_ok.1 hstep
    exact h.of_eq rfl rfl
  | receive b data =>
    obtain ⟨-, r, hr, rfl⟩ := receive_eq_ok.1 hstep
    obtain ⟨region, rs, -, -, -, rfl⟩ := TcpConnection.receive_eq_some hr
    exact h.complete rfl
  | readFails b e =>
    obtain ⟨-, r, hr, rfl⟩ := readFails_eq_ok.1 hstep
    obtain ⟨region, rs, -, rfl⟩ := TcpConnection.readFails_eq_some hr
    exact h.complete rfl
  | transmit b k stale =>
    obtain ⟨-, r, hr, rfl⟩ := transmit_eq_ok.1 hstep
    obtain ⟨region, rs, -, -, -, rfl⟩ := TcpConnection.transmit_eq_some hr
    exact h.complete rfl
  | sendFails b e =>
    obtain ⟨-, r, hr, rfl⟩ := sendFails_eq_ok.1 hstep
    obtain ⟨region, rs, -, rfl⟩ := TcpConnection.sendFails_eq_some hr
    exact h.complete rfl
  | accept ioLoop =>
    obtain ⟨-, rfl⟩ := accept_eq_ok.1 hstep
    have hset : Sheltered { p with
        conns := Function.update p.conns p.nextConn (Connection.make (TcpConnection.make ioLoop
          p.server.connName p.server.messageCallback_ p.server.writeCompleteCallback_) .server none)
        nextConn := p.nextConn + 1
        server := { p.server with
          nextConnId_ := nextInt p.server.nextConnId_
          connections_ := AssocMap.assign p.server.connName (some p.nextConn)
            p.server.connections_ } } c := h.of_eq rfl rfl
    refine hset.schedule ((hset.stack _).append ?_) ?_
    · intro w hw
      rcases List.mem_append.1 hw with hw | hw
      · rcases List.mem_append.1 hw with hw | hw
        · obtain ⟨b, -, rfl⟩ := mem_releases hw
          simp [relying]
        · rw [mem_callIf hw]
          rfl
      · rw [List.mem_singleton.1 hw]
        simp [relying]
    · intro e he
      rw [mem_postIf he]
      rfl
  | destroyServer t =>
    obtain ⟨-, hexec⟩ := destroyServer_eq_ok.1 hstep
    obtain ⟨-, rfl⟩ := TcpServer.destructor_eq_ok.1 hexec
    have hlife : Sheltered { p with server := { p.server with life := .destructing } } c :=
      h.of_eq rfl rfl
    exact hlife.schedule ((hlife.stack t).append (by simp [relying])) nofun
  | clientCall t x =>
    obtain ⟨-, rfl⟩ := clientCall_eq_ok.1 hstep
    have hset : ∀ u, Sheltered { p with client := u } c := fun u => h.of_eq rfl rfl
    cases x with
    | connect => exact (hset { p.client with connect_ := true }).aside Aside.start Pushes.start
    | disconnect =>
      unfold clientCall TcpClient.disconnect
      cases p.client.connection_ with
      | none => exact hset _
      | some b => exact (hset _).call (d := (p.conns b).conn) (x := .shutdown) nofun rfl
    | stop => exact (hset _).aside Aside.stop (Pushes.stop (t := t))
    | enableRetry => exact hset _
  | connectorCall t x =>
    obtain ⟨-, rfl⟩ := connectorCall_eq_ok.1 hstep
    cases x with
    | start => exact h.aside Aside.start Pushes.start
    | stop => exact h.aside Aside.stop (Pushes.stop (t := t))
    | restart => exact h.schedule ((h.stack t).append (by simp [relying])) nofun
  | destroyClient t =>
    obtain ⟨-, hexec⟩ := destroyClient_eq_ok.1 hstep
    exact h.destructor hexec
  | connectDone socket error =>
    obtain ⟨-, rfl⟩ := connectDone_eq_ok.1 hstep
    have hset : Sheltered { p with sockets := { p.sockets with
        connecting := p.sockets.connecting.erase socket } } c := h.of_eq rfl rfl
    exact hset.post rfl
  | timerExpires timer =>
    obtain ⟨-, rfl⟩ := timerExpires_eq_ok.1 hstep
    have hset : Sheltered { p with timers := p.timers.setStatus timer .expired } c :=
      h.of_eq rfl rfl
    exact hset.post rfl

/-- Nothing that relies on a pointer is pending. -/
theorem of_weigh (h : weigh (relying c) p.pending = 0) : Sheltered p c := by
  have hzero := weigh_eq_zero.1 h
  constructor
  · intro t
    have hstack : ∀ w ∈ p.stackOf t, relying c w = 0 := by
      intro w hw
      apply hzero
      exact List.mem_append_left _ (List.mem_map.2 ⟨(t, w), Keyed.mem_ofKey.1 hw, rfl⟩)
    have hcovered : Covered c (p.stackOf t ++ []) := Covered.append trivial hstack
    rwa [List.append_nil] at hcovered
  · intro e he
    exact hzero _ (List.mem_append_right _ (List.mem_map_of_mem he))

/-- The client relies on the pointer of `TcpClient::newConnection`. -/
theorem born {e : ProcessEvent} {d : Change} {n m : Nat} (hplaced : Placed p)
    (hm : Makes p e d n m) (hb : Born q p.nextConn d n m) (hstep : Process.step e p = .ok q) :
    Sheltered q p.nextConn := by
  have hfresh : weigh (relying p.nextConn) p.pending = 0 :=
    hplaced.weigh_fresh (Nat.le_refl _) fun w => relying_about
  cases hm with
  | accepts hlife =>
    refine of_weigh ?_
    rw [hb.pending _ fun w => relying_about]
    simp [relying]
  | @connects t peer socket hhead =>
    obtain ⟨w, rest, htake, -, hexec⟩ := run_eq_ok.1 hstep
    rw [head_stackOf htake] at hhead
    obtain rfl := Option.some.inj hhead
    obtain ⟨-, hexec⟩ := exec_client_eq_ok.1 hexec
    obtain ⟨-, rfl⟩ := TcpClient.newConnection_eq_ok.1 hexec
    have hpop := ((of_weigh hfresh).pop htake).1
    have hset : Sheltered ({ p with
        stack := rest
        conns := Function.update p.conns p.nextConn
          (Connection.make (TcpConnection.make p.client.loop_ (p.client.connName peer)
            p.client.messageCallback_ p.client.writeCompleteCallback_) .client (some socket))
        nextConn := p.nextConn + 1
        client := { p.client with
          nextConnId_ := nextInt p.client.nextConnId_
          connection_ := some p.nextConn } } : Process) p.nextConn := hpop.of_eq rfl rfl
    refine hset.schedule ?_ nofun
    rw [List.append_assoc]
    refine Covered.append ?_ ?_
    · exact ⟨fun _ => List.mem_cons_self .., fun hne => absurd (by simp [relying]) hne,
        hpop.stack t⟩
    · intro w hw
      obtain ⟨b, -, rfl⟩ := mem_releases hw
      simp [relying]

end Sheltered

/-! ## The end of the destructor of the server -/

/-- There is no next entry when all are empty. -/
theorem nextEntry_eq_none {m : AssocMap (List Char) (Option ConnId)} :
    TcpServer.nextEntry m = none ↔ ∀ e ∈ m, e.2 = none := by
  induction m with
  | nil => simp [TcpServer.nextEntry]
  | cons e m ih =>
    obtain ⟨k, _ | d⟩ := e
    · simp [TcpServer.nextEntry, ih]
    · simp [TcpServer.nextEntry]

/-- The destructor of the server ends when all entries of the map are reset, and there will be no
new ones. -/
structure Emptied (p : Process) : Prop where
  ending : ∀ w ∈ p.pending, w.endsServer = true → p.server.life ≠ .alive
  emptied : .server .quit ∈ p.pending → TcpServer.nextEntry p.server.connections_ = none

/-- What is pending and was not put in was pending before. -/
theorem mem_of_schedule {calls : List Work} {posts : List (LoopId × Work)} {w : Work}
    (h : w ∈ (p.schedule t calls posts).pending) (hcalls : w ∉ calls)
    (hposts : w ∉ posts.map Prod.snd) : w ∈ p.pending := by
  simp only [pending, schedule, List.map_append, List.mem_append] at h ⊢
  rcases h with (h | h) | h | h
  · obtain ⟨e, he, rfl⟩ := List.mem_map.1 h
    obtain ⟨v, hv, rfl⟩ := List.mem_map.1 he
    exact absurd hv hcalls
  · exact Or.inl h
  · exact Or.inr h
  · exact absurd h hposts

/-- What is pending after a work item was taken was pending before. -/
theorem mem_of_pop {w v : Work} {rest : List (ThreadId × Work)}
    (htake : Keyed.takeFirst t p.stack = some (w, rest))
    (h : v ∈ ({ p with stack := rest } : Process).pending) : v ∈ p.pending := by
  rcases List.mem_append.1 h with h | h
  · obtain ⟨e, he, rfl⟩ := List.mem_map.1 h
    exact List.mem_append_left _
      (List.mem_map_of_mem ((Keyed.mem_of_takeFirst htake).2 (Or.inr he)))
  · exact List.mem_append_right _ h

/-- A server whose destructor has started is not alive again. -/
theorem life_step {e : ProcessEvent} (hstep : step e p = .ok q) (h : p.server.life ≠ .alive) :
    q.server.life ≠ .alive := by
  have hserver := server_of_step hstep
  generalize q.server = s at hserver
  cases hserver with
  | same | removes | resets | quits => exact h
  | accepts hlife | destructs hlife => exact absurd hlife h
  | dies => exact nofun

namespace Emptied

/-- Nothing is pending at first. -/
theorem initial (hp : processMachine.init p) : Emptied p := by
  obtain ⟨baseLoop, pool, clientLoop, ipPort, serverName, clientName, m, w, -, -, rfl⟩ := hp
  exact ⟨nofun, nofun⟩

/-- Only a server that ends has work to end it. -/
theorem ending_step {e : ProcessEvent} (h : Emptied p) (hstep : Process.step e p = .ok q) :
    ∀ w ∈ q.pending, w.endsServer = true → q.server.life ≠ .alive := by
  intro w hw hends
  rcases (step_shifts hstep).mem hw with hold | hnew | hnew
  · exact life_step hstep (h.ending w hold hends)
  · rcases serverEnds_of_calledBy hends hnew with ⟨t, peer, v, rfl, hhead, hv⟩ | ⟨t, rfl⟩
    · exact life_step hstep (h.ending v (mem_pending_of_head hhead) hv)
    · obtain ⟨-, hexec⟩ := destroyServer_eq_ok.1 hstep
      obtain ⟨-, rfl⟩ := TcpServer.destructor_eq_ok.1 hexec
      exact nofun
  · rw [Work.not_isQueued_of_endsServer hends] at hnew
    cases hnew

/-- The end is called by the round of the destructor that finds no connection. -/
theorem quit_of_exec {k : ServerTask} (hexec : TcpServer.exec p t k = .ok q)
    (hquit : .server .quit ∈ q.pending) : .server .quit ∈ p.pending ∨
      (TcpServer.nextEntry p.server.connections_ = none ∧ q.server = p.server) := by
  obtain ⟨-, hexec⟩ := TcpServer.exec_eq_ok.1 hexec
  cases k with
  | removeConnection b =>
    obtain rfl := hexec
    refine Or.inl (mem_of_schedule hquit ?_ ?_) <;>
      simp only [callIf, postIf] <;> split_ifs <;> simp
  | removeConnectionInLoop b =>
    obtain ⟨-, -, rfl⟩ := TcpServer.removeConnectionInLoop_eq_ok.1 hexec
    refine Or.inl (mem_of_schedule hquit ?_ ?_) <;>
      simp only [callIf, postIf, releases] <;> split_ifs <;> simp
  | destroyNext =>
    obtain rfl := hexec
    rcases TcpServer.destroyNext_cases p t with ⟨hnext, hq⟩ | ⟨k, b, -, hq⟩
    · right
      rw [hq]
      exact ⟨hnext, rfl⟩
    · rw [hq] at hquit
      refine Or.inl (mem_of_schedule hquit ?_ ?_) <;>
        simp only [callIf, postIf] <;> split_ifs <;> simp
  | quit =>
    obtain rfl := hexec
    exact Or.inl (mem_of_schedule hquit (by simp [TcpServer.joinPool]) (by simp))
  | quitLoop l | joinLoop l | destroyed =>
    obtain rfl := hexec
    exact Or.inl hquit

/-- The loops are quit when the map is empty. -/
theorem emptied_step {e : ProcessEvent} (h : Emptied p) (hstep : Process.step e p = .ok q)
    (hquit : .server .quit ∈ q.pending) : TcpServer.nextEntry q.server.connections_ = none := by
  have hold : .server .quit ∈ p.pending → TcpServer.nextEntry q.server.connections_ = none := by
    intro hmem
    have hnone := h.emptied hmem
    have hlife := h.ending _ hmem rfl
    have hserver := server_of_step hstep
    generalize q.server = s at hserver
    cases hserver with
    | same | dies | destructs => exact hnone
    | accepts halive => exact absurd halive hlife
    | removes =>
      apply nextEntry_eq_none.2
      intro e he
      exact nextEntry_eq_none.1 hnone e (AssocMap.mem_erase.1 he).1
    | resets hhead hnext =>
      rw [hnone] at hnext
      cases hnext
    | quits => rfl
  rcases (step_shifts hstep).mem hquit with hmem | hnew | hnew
  · exact hold hmem
  · rcases serverEnds_of_calledBy rfl hnew with ⟨t, peer, v, rfl, hhead, hv⟩ | ⟨t, rfl⟩
    · obtain ⟨w, rest, htake, -, hexec⟩ := run_eq_ok.1 hstep
      rw [head_stackOf htake] at hhead
      obtain rfl := Option.some.inj hhead
      cases w with
      | server k =>
        rcases quit_of_exec hexec hquit with hmem | ⟨hnext, hserver⟩
        · exact hold (mem_of_pop htake hmem)
        · rw [hserver]
          exact hnext
      | conn | bound | setCloseCallback | client | connector | handleTimer | eraseTimer => cases hv
    · obtain ⟨-, hexec⟩ := destroyServer_eq_ok.1 hstep
      obtain ⟨-, rfl⟩ := TcpServer.destructor_eq_ok.1 hexec
      exact hold (mem_of_schedule hquit (by simp) (by simp))
  · cases hnew

/-- Every step keeps both. -/
theorem step {e : ProcessEvent} (h : Emptied p) (hstep : Process.step e p = .ok q) : Emptied q :=
  ⟨h.ending_step hstep, h.emptied_step hstep⟩

end Emptied

/-! ## Owners -/

/-- What a step does to the number of owners. -/
theorem Alters.owners {taken : List Work} {d : Change} (h : Alters p q c taken d) :
    q.owners c + weigh (holds c) taken + d.unlisted + d.undesignated + (p.conns c).refs =
      p.owners c + weigh (holds c) d.added + d.record.refs := by
  have hpending := h.pending (holds c) fun w => holds_about
  have hentries := h.entries
  have hconnection := h.connection
  rw [owners_eq, owners_eq, h.record]
  omega

/-- What leaves the socket and the raw pointers alone leaves the connection at rest. -/
theorem AtRest.frame {taken : List Work} {d : Change} (h : AtRest p c)
    (ha : Alters p q c taken d) (hsocket : d.record.conn.socket_ = (p.conns c).conn.socket_)
    (hadded : weigh (raw c) d.added = 0) : AtRest q c := by
  have hpending := ha.pending (raw c) fun w => raw_about
  have hquiet := h.quiet
  constructor
  · rw [ha.record, hsocket]
    exact h.reads
  · rw [ha.record, hsocket]
    exact h.sends
  · omega

/-- Only a release holds a pointer. -/
theorem holds_task {k : ConnTask} (hk : k ≠ .release) (d : ConnId) : holds c (.conn d k) = 0 := by
  cases k <;> first | rfl | exact absurd rfl hk

/-- Noting a task leaves the pointers of the user alone. -/
theorem note_refs (r : Connection) (k : ConnTask) : (r.note k).refs = r.refs := by
  unfold Connection.note
  split <;> rfl

/-- A work item that holds a pointer is an owner. -/
theorem owners_pos_of_holds {w : Work} (hw : w ∈ p.pending) (hholds : holds c w ≠ 0) :
    0 < p.owners c := by
  have hle := le_weigh (f := holds c) hw
  rw [owners_eq]
  omega

/-- Whatever relies on the connection, an owner is there. -/
theorem Sheltered.owners_pos {w : Work} (h : Sheltered p c) (hw : w ∈ p.stackOf t)
    (hrelying : relying c w ≠ 0) : 0 < p.owners c := by
  have hmem := (h.stack t).release_mem hw hrelying
  refine owners_pos_of_holds (w := .conn c .release) ?_ (by simp [holds])
  exact List.mem_append_left _ (List.mem_map.2 ⟨_, Keyed.mem_ofKey.1 hmem, rfl⟩)

/-- Who reaches a connection has a pointer to it. -/
theorem Sheltered.owners_pos_of_reaches (h : Sheltered p c) (hreaches : p.reaches t c = true) :
    0 < p.owners c := by
  unfold reaches at hreaches
  rcases Bool.or_eq_true_iff.1 hreaches with huser | hin
  · have hrefs := of_decide_eq_true (Bool.and_eq_true_iff.1 huser).2
    rw [owners_eq]
    omega
  · unfold inCallbackOf at hin
    split at hin
    · rename_i d k rest hstack
      obtain rfl := of_decide_eq_true hin
      refine h.owners_pos (t := t) (w := .conn d (.inCallback k)) ?_
        (by simp [relying, ConnTask.isRaw])
      rw [hstack]
      exact List.mem_cons_self ..
    · cases hin

/-- A connection that nobody owns is at rest. -/
structure Owning (p : Process) : Prop where
  placed : Placed p
  sorted : p.server.connections_.Sorted
  emptied : Emptied p
  sheltered : ∀ c, Sheltered p c
  atRest : ∀ c, p.owners c = 0 → p.AtRest c

namespace Owning

/-- Every handler that touches the connection has an owner of it. -/
theorem handlersOwned (h : Owning p) : p.HandlersOwned := by
  intro t c k hhead huses
  cases hraw : k.isRaw with
  | true =>
    apply Nat.pos_of_ne_zero
    intro hnone
    have hzero := weigh_eq_zero.1 (h.atRest c hnone).quiet _ (mem_pending_of_head hhead)
    simp [raw, hraw] at hzero
  | false =>
    have hk : k = .callback .close := by
      unfold ConnTask.usesThis at huses
      split at huses
      · rfl
      · rw [hraw] at huses
        cases huses
    subst hk
    exact (h.sheltered c).owners_pos (List.mem_of_head? hhead) (by simp [relying, ConnTask.isRaw])

/-- A work item about the connection runs, and the connection has no owner afterwards. -/
theorem performs {peer : List Char} {w : Work} {rest : List (ThreadId × Work)} {d : Change}
    (h : Owning p) (hdrops : p.DropsAtRest (.run t peer))
    (htake : Keyed.takeFirst t p.stack = some (w, rest))
    (hp : Performs { p with stack := rest } c t w d) (ha : Alters p q c [w] d)
    (hq : q.owners c = 0) : q.AtRest c := by
  have hhead := head_stackOf htake
  have hmem := mem_pending_of_head hhead
  have howners := ha.owners
  rw [hq, weigh_cons, weigh_nil] at howners
  have hpopped : p.owners c = holds c w + ({ p with stack := rest } : Process).owners c := by
    have hpop := weigh_pop (holds c) htake
    rw [owners_eq, owners_eq, hpop]
    simp only [entriesOf, designates]
    omega
  have hpos : holds c w ≠ 0 → 0 < p.owners c := owners_pos_of_holds hmem
  cases hp with
  | @task k eff hnot hclose hwrite hlive heff =>
    exfalso
    have hnone : p.owners c = 0 := by
      simp only [holds_task hnot, note_refs] at howners
      omega
    cases hraw : k.isRaw with
    | true =>
      have hzero := weigh_eq_zero.1 (h.atRest c hnone).quiet _ hmem
      simp [raw, hraw] at hzero
    | false =>
      have hown := (h.sheltered c).owners_pos (List.mem_of_head? hhead)
        (by simp [relying, hraw, hnot])
      omega
  | bound hlive heff =>
    exfalso
    simp only [holds, if_true, weigh_append, weigh_cons, weigh_nil, note_refs] at howners hpos
    omega
  | writeFailed =>
    exfalso
    simp only [holds, weigh_nil] at howners
    have hzero := weigh_eq_zero.1 (h.atRest c (by omega)).quiet _ hmem
    simp [raw, ConnTask.isRaw] at hzero
  | closed hlive =>
    exfalso
    have hown := (h.sheltered c).owners_pos (List.mem_of_head? hhead)
      (by simp [relying, ConnTask.isRaw])
    simp only [holds, weigh_cons, weigh_nil] at howners
    omega
  | released hother =>
    exfalso
    simp only [weigh_nil] at howners
    omega
  | destroyed hnone hstate =>
    have hone : p.owners c = 1 := by
      rw [hpopped, hnone]
      exact if_pos rfl
    have hlast : c ∈ released (p.stackOf t).head? := by
      rw [hhead]
      rfl
    exact (hdrops c hlast hone).frame ha rfl (weigh_nil _)
  | setCloseCallback =>
    exfalso
    simp only [holds, if_true, weigh_cons, weigh_nil] at howners hpos
    omega
  | removeConnection =>
    exfalso
    simp only [holds, if_true, weigh_cons, weigh_nil] at howners
    omega
  | @removeConnectionInLoop n hn =>
    exfalso
    have hreplicate : weigh (holds c) (List.replicate n (.conn c .release)) = n := by
      simp [weigh, holds]
    simp only [holds, if_true, weigh_append, weigh_cons, weigh_nil, hreplicate] at howners
    omega
  | clientRemoves hconnection =>
    exfalso
    simp only [holds, if_true, weigh_cons, weigh_nil] at howners
    omega

/-- A step that is no work about the connection, which has no owner afterwards. -/
theorem meanwhile {w : Work} {rest : List (ThreadId × Work)} {d : Change} (h : Owning p)
    (htake : Keyed.takeFirst t p.stack = some (w, rest))
    (hm : Meanwhile { p with stack := rest } c w d) (ha : Alters p q c [] d)
    (hq : q.owners c = 0) : q.AtRest c := by
  have howners := ha.owners
  rw [hq, weigh_nil] at howners
  have hreleased : holds c (.conn c .release) = 1 := if_pos rfl
  cases hm with
  | erased | replaced | clientDestroyed =>
    simp only [weigh_cons, weigh_nil] at howners
    exact (h.atRest c (by omega)).frame ha rfl (by simp [raw, ConnTask.isRaw])
  | destroyNext hnext =>
    exfalso
    have hbound : holds c (.bound c .connectDestroyed) = 1 := if_pos rfl
    simp only [weigh_cons, weigh_nil] at howners
    omega
  | quit =>
    have hnone := nextEntry_eq_none.1 (h.emptied.emptied (mem_pending_of_head (head_stackOf htake)))
    have hentries : p.entriesOf c = 0 := by
      apply weigh_eq_zero.2
      intro e he
      unfold entryHolds
      rw [hnone e he]
      rfl
    have hunlisted : ({ p with stack := rest } : Process).entriesOf c = 0 := hentries
    simp only [weigh_nil, hunlisted] at howners
    exact (h.atRest c (by omega)).frame ha rfl (weigh_nil _)
  | nothing =>
    simp only [weigh_nil] at howners
    exact (h.atRest c (by omega)).frame ha rfl (weigh_nil _)

/-- A connection that has no owner after a step is at rest. -/
theorem touches {e : ProcessEvent} {taken : List Work} {d : Change} (h : Owning p)
    (hdrops : p.DropsAtRest e) (ht : Touches p c e taken d) (ha : Alters p q c taken d)
    (hq : q.owners c = 0) : q.AtRest c := by
  have howners := ha.owners
  rw [hq] at howners
  have hreleased : holds c (.conn c .release) = 1 := if_pos rfl
  cases ht with
  | run htake hperforms => exact h.performs hdrops htake hperforms ha hq
  | meanwhile htake hmeanwhile => exact h.meanwhile htake hmeanwhile ha hq
  | returned =>
    simp only [holds, weigh_cons, weigh_nil] at howners
    exact (h.atRest c (by omega)).frame ha rfl (weigh_nil _)
  | called hreaches heff =>
    exfalso
    have hpos := (h.sheltered c).owners_pos_of_reaches hreaches
    simp only [weigh_nil] at howners
    omega
  | disconnected hconnection heff =>
    exfalso
    have hpos : p.designates c = 1 := if_pos hconnection
    have hcount := owners_eq p c
    simp only [weigh_nil] at howners
    omega
  | forced hconnection | spared hconnection =>
    exfalso
    simp only [weigh_append, weigh_cons, weigh_nil] at howners
    omega
  | kept | keptConnection =>
    exfalso
    simp only [weigh_nil] at howners
    omega
  | dropped hrefs =>
    exfalso
    have hcount := owners_eq p c
    simp only [weigh_cons, weigh_nil] at howners
    omega
  | consumed | nothing =>
    simp only [weigh_nil] at howners
    exact (h.atRest c (by omega)).frame ha rfl (weigh_nil _)
  | replaced hlife hlookup =>
    simp only [weigh_cons, weigh_nil] at howners
    exact (h.atRest c (by omega)).frame ha rfl (by simp [raw, ConnTask.isRaw])
  | received hr =>
    obtain ⟨region, rs, hreads, -, -, rfl⟩ := TcpConnection.receive_eq_some hr
    simp only [holds, weigh_cons, weigh_nil] at howners
    have hnone := (h.atRest c (by omega)).reads
    rw [hreads] at hnone
    cases hnone
  | readFailed hr =>
    obtain ⟨region, rs, hreads, rfl⟩ := TcpConnection.readFails_eq_some hr
    simp only [holds, weigh_cons, weigh_nil] at howners
    have hnone := (h.atRest c (by omega)).reads
    rw [hreads] at hnone
    cases hnone
  | transmitted hr =>
    obtain ⟨region, rs, hsends, -, -, rfl⟩ := TcpConnection.transmit_eq_some hr
    simp only [holds, weigh_cons, weigh_nil] at howners
    have hnone := (h.atRest c (by omega)).sends
    rw [hsends] at hnone
    cases hnone
  | sendFailed hr =>
    obtain ⟨region, rs, hsends, rfl⟩ := TcpConnection.sendFails_eq_some hr
    simp only [holds, weigh_cons, weigh_nil] at howners
    have hnone := (h.atRest c (by omega)).sends
    rw [hsends] at hnone
    cases hnone

/-- A connection that was not made yet. -/
theorem fresh (hplaced : Placed p) (hc : p.nextConn ≤ c) : Sheltered p c ∧ AtRest p c := by
  obtain ⟨-, hreads, hsends⟩ := hplaced.fresh c hc
  exact ⟨Sheltered.of_weigh (hplaced.weigh_fresh hc fun w => relying_about),
    hreads, hsends, hplaced.weigh_fresh hc fun w => raw_about⟩

/-- Every step whose releases are at rest keeps the owners. -/
theorem step {e : ProcessEvent} (h : Owning p) (hdrops : p.DropsAtRest e)
    (hstep : Process.step e p = .ok q) : Owning q := by
  have hplaced := (Moves.step h.placed hstep).placed
  have hconns : ∀ c, Sheltered q c ∧ (q.owners c = 0 → q.AtRest c) := by
    intro c
    by_cases hc : c < q.nextConn
    · rcases old_or_born h.placed h.sorted hstep hc with hmade | ⟨rfl, d, n, m, hm, hb⟩
      · obtain ⟨taken, d, htouches, halters⟩ := step_touches h.placed h.sorted hmade hstep
        exact ⟨(h.sheltered c).step hmade h.sorted hstep, h.touches hdrops htouches halters⟩
      · refine ⟨Sheltered.born h.placed hm hb hstep, fun hnone => ?_⟩
        have hpending := hb.pending (holds p.nextConn) fun w => holds_about
        have hcount := owners_eq q p.nextConn
        cases hm with
        | accepts | connects =>
          simp only [holds, if_true, weigh_cons, weigh_nil] at hpending
          omega
    · obtain ⟨hsheltered, hrest⟩ := fresh hplaced (Nat.not_lt.1 hc)
      exact ⟨hsheltered, fun _ => hrest⟩
  exact ⟨hplaced, sorted_step h.sorted hstep, h.emptied.step hstep, fun c => (hconns c).1,
    fun c => (hconns c).2⟩

end Owning

/-- There is no connection at first. -/
theorem owning_initial (hp : processMachine.init p) : Owning p := by
  have hplaced := placed_initial hp
  have hfresh := fun c => Owning.fresh (c := c) hplaced (by
    obtain ⟨baseLoop, pool, clientLoop, ipPort, serverName, clientName, m, w, -, -, rfl⟩ := hp
    exact Nat.zero_le c)
  exact ⟨hplaced, sorted_initial hp, Emptied.initial hp, fun c => (hfresh c).1,
    fun c _ => (hfresh c).2⟩

/-- In a run that lets connections go only when they are at rest, no handler runs on a connection
that nobody owns. -/
theorem handlersOwned_of_dropsAtRest (hp : processMachine.ReachableUnder DropsAtRest p) :
    p.HandlersOwned := by
  have h : Owning p :=
    hp.invariant (fun _ => owning_initial) fun _ _ _ h hdrops hstep => h.step hdrops hstep
  exact h.handlersOwned

/-- The peer closes a connection; it is removed and destroyed. -/
theorem handlersOwned_closed : ∃ p : Process,
    ((p.conns 0).destroyed, p.owners 0) = (true, 0) ∧ p.HandlersOwned := by
  have hinit : processMachine.init (initial 1 [] 0 [] [] [] false false) :=
    ⟨1, [], 0, [], [], [], false, false, by simp, by simp, rfl⟩
  obtain ⟨p, hp, hobs⟩ := Machine.exists_of_run (C := DropsAtRest) hinit
    (l := [.accept 1, .run 1 [], .run 1 [], .return_ 1, .run 1 [], .run 1 [], .run 1 [],
      .readFails 0 .eof, .dequeue 1, .run 1 [], .run 1 [], .return_ 1, .run 1 [], .run 1 [],
      .run 1 [], .run 1 [], .run 1 [], .run 1 [], .run 1 [], .run 1 []])
    (f := fun p => ((p.conns 0).destroyed, p.owners 0)) (a := (true, 0)) (by decide +kernel)
  exact ⟨p, hobs, handlersOwned_of_dropsAtRest hp⟩

/-- The user closes a connection in its own callback, with the first read outstanding: the last
owner lets it go, its socket is closed, and `readHandler` is called for the aborted read. -/
theorem not_handlersOwned : ¬ ∀ p, processMachine.Reachable p → p.HandlersOwned := by
  intro hall
  have hinit : processMachine.init (initial 1 [] 0 [] [] [] false false) :=
    ⟨1, [], 0, [], [], [], false, false, by simp, by simp, rfl⟩
  obtain ⟨p, hp, hobs⟩ := Machine.exists_of_run (C := fun _ _ => True) hinit
    (l := [.accept 1, .run 1 [], .run 1 [], .call 1 0 .forceClose, .run 1 [], .run 1 [],
      .return_ 1, .run 1 [], .run 1 [], .run 1 [], .run 1 [], .run 1 [], .run 1 [], .run 1 [],
      .run 1 [], .run 1 [], .return_ 1, .run 1 [], .run 1 [], .run 1 [],
      .readFails 0 .operationAborted, .dequeue 1])
    (f := fun p => ((p.stackOf 1).head?, p.owners 0))
    (a := (some (.conn 0 (.readHandler (some .operationAborted) 0)), 0)) (by decide +kernel)
  obtain ⟨hhead, hnone⟩ := Prod.mk.inj hobs
  have hpos := hall p hp 1 0 _ hhead rfl
  rw [hnone] at hpos
  exact Nat.lt_irrefl 0 hpos

end Process

end LibNetToy
