import LibNetToy.Net.Advances

/-!
# Sessions of a process

Every step of a process takes the part of a connection on, and a connection that is made starts
like a session does.  So the part of every connection is represented by a session that can be
reached, with the bytes that the process has transferred for it.
-/

namespace LibNetToy

namespace TcpConnection

/-- A call on any other thread than that of the loop has the same effect. -/
theorem call_elsewhere {c : TcpConnection} {t : LoopId} (ht : t ≠ c.loop_) (x : ConnCall) :
    c.call (some t) x = c.call none x := by
  have hsame : ∀ (d : TcpConnection) (f : Functor), d.loop_ = c.loop_ →
      d.runInLoop (some t) f = d.runInLoop none f := by
    intro d f hd
    simp [runInLoop, hd, ht]
  cases x with
  | send message => rfl
  | shutdown | forceClose =>
    simp only [call, shutdown, forceClose]
    split_ifs
    · exact congrArg pure (hsame _ _ rfl)
    · rfl
  | startRead | stopRead => exact congrArg pure (hsame _ _ rfl)

end TcpConnection

theorem Work.functors_work (c : ConnId) (f : Functor) : (f.work c).functors c = [f] := by
  cases f <;> simp [Functor.work, Work.functors]

/-- What is heeded is all that counts for the tasks. -/
theorem tasksOf_heeds {c : ConnId} {conn conn' : TcpConnection} (h : conn'.heeds = conn.heeds)
    (ws : List Work) : tasksOf conn' c ws = tasksOf conn c ws := by
  rw [tasksOf, h]
  rfl

theorem Layered.heeds {c : ConnId} {conn conn' : TcpConnection} {ws : List Work}
    (h : Layered conn c ws) (hheeds : conn'.heeds = conn.heeds) : Layered conn' c ws := by
  induction ws with
  | nil => trivial
  | cons w ws ih =>
    refine ⟨?_, ih h.2⟩
    rw [tasksOf_heeds hheeds]
    exact h.1

theorem Stacked.heeds {c : ConnId} {conn conn' : TcpConnection} {ws : List Work}
    (h : Stacked conn c ws) (hheeds : conn'.heeds = conn.heeds) : Stacked conn' c ws :=
  ⟨by rw [tasksOf_heeds hheeds]; exact h.single, h.layered.heeds hheeds⟩

namespace Process

variable {p q : Process} {c : ConnId} {t : ThreadId} {e : ProcessEvent}

/-! ## Steps that spare a connection -/

/-- The step is none of the work, and is not done to the connection. -/
def Spares (p : Process) (c : ConnId) : ProcessEvent → Prop
  | .dequeue _ | .run _ _ | .return_ _ => False
  | .call _ d _ | .consume _ d _ | .receive d _ | .readFails d _ | .transmit d _ _
  | .sendFails d _ => d ≠ c
  | .clientCall _ .disconnect => p.client.connection_ ≠ some c
  | .destroyClient _ => p.client.connection_ ≠ some c ∨ p.owners c ≠ 1
  | _ => True

/-- A step that spares a connection adds nothing to its transcript. -/
theorem Spares.record (h : p.Spares c e) (τ : Transcript) : p.record c e τ = τ := by
  cases e with
  | dequeue | run | return_ => cases h
  | call | consume | receive | transmit => exact if_neg h
  | readFails | sendFails | keep | keepConnection | drop | accept | destroyServer | clientCall
  | connectorCall | destroyClient | connectDone | timerExpires => rfl

/-- Nor does it give the connection anything to do. -/
theorem Touches.leaves {taken : List Work} {d : Change} (ht : Touches p c e taken d)
    (h : p.Spares c e) :
    taken = [] ∧ weigh (occupying c) d.added = 0 ∧ d.record.conn = (p.conns c).conn := by
  cases ht with
  | run | meanwhile | returned => cases h
  | called | consumed | received | readFailed | transmitted | sendFailed => exact absurd rfl h
  | disconnected hconnection => exact absurd hconnection h
  | forced hconnection howners =>
    rcases h with hno | hno
    · exact absurd hconnection hno
    · exact absurd howners hno
  | spared =>
    refine ⟨rfl, ?_, rfl⟩
    unfold closeCallbackSetter
    split_ifs <;> simp [occupying]
  | kept | keptConnection | nothing => exact ⟨rfl, rfl, rfl⟩
  | dropped | replaced => exact ⟨rfl, by simp [occupying], rfl⟩

/-- While a callback of the connection runs, there is something on its stack. -/
theorem Placed.stack_ne_nil (hplaced : Placed p) (h : p.inCallbackOf t c = true) :
    (p.part c .empty).stack ≠ [] := by
  unfold inCallbackOf at h
  split at h
  · rename_i d k below hstack
    obtain rfl := of_decide_eq_true h
    have ht : t = (p.conns d).conn.loop_ := hplaced.here (by rw [hstack]; rfl) rfl
    have htop : (p.part d .empty).stack =
        tasksOf (p.conns d).conn d (.conn d (.inCallback k) :: below) := by
      rw [← hstack, ht]
      rfl
    rw [htop, tasksOf_cons]
    simp [Work.tasks, TcpConnection.heeds]
  · cases h

namespace Advances

/-- A step that spares the connection leaves its part. -/
theorem spared (hplaced : Placed p) (hsorted : p.server.connections_.Sorted)
    (hc : c < p.nextConn) (h : Shown p c) (hspares : p.Spares c e)
    (hstep : step e p = .ok q) : Advances p c e q := by
  obtain ⟨taken, d, htouches, halters⟩ := step_touches hplaced hsorted hc hstep
  obtain ⟨rfl, hadded, hsame⟩ := htouches.leaves hspares
  have hconn : (q.conns c).conn = (p.conns c).conn := by rw [halters.record, hsame]
  have hpending := halters.occupying_eq hadded
  cases course_of_step hstep with
  | dequeues | runs | returns => cases hspares
  | calls hrun hready hpushes =>
    exact call_beside h.stacked hready hpushes hpending hconn hspares.record
  | completes hrun hstack hpushes =>
    obtain ⟨calls, -, -, -, hqueue⟩ := hpushes.views (p.conns c).conn.loop_ hpending
    have hsame : q.stackOf (p.conns c).conn.loop_ = p.stackOf (p.conns c).conn.loop_ := by
      rw [stackOf, hstack]
      rfl
    exact elsewhere h.stacked hconn hspares.record hsame hqueue

/-! ## Steps that are done to a connection -/

/-- Code of the user calls the connection, on the thread of its loop or on another one. -/
theorem call {x : ConnCall} {eff : Effect} {after : List Work} (posts : List (LoopId × Work))
    (h : Shown p c) (hready : p.userRuns t = true ∨ p.stackOf t = [])
    (haway : (p.part c .empty).stack = [] → (p.conns c).refs = 0 →
      (p.conns c).closeCallback_ ≠ .server)
    (heff : (p.conns c).conn.call (some t) x = .ok eff) (hconn : (q.conns c).conn = eff.conn)
    (hstack : q.stack =
      (eff.calls.map (Work.conn c) ++ after).map (fun w => (t, w)) ++ p.stack)
    (hqueue : q.queue = p.queue ++ posts ++ eff.posts.map fun f => (eff.conn.loop_, f.work c))
    (hafter : ∀ w ∈ after, w.isPassive = true ∧ occupying c w = 0)
    (hposts : ∀ l, (Keyed.ofKey l posts).flatMap (Work.functors c) = [])
    (hrecord : ∀ h, p.record c e h = Part.noteCall h x)
    (hsend : ∀ message, x = .send message → ∃ t, e = .call t c x) : Advances p c e q := by
  obtain ⟨hsetup, hcallsHere⟩ := TcpConnection.call_setup heff
  have hloop : eff.conn.loop_ = (p.conns c).conn.loop_ := hsetup.loop
  have hheeds : eff.conn.heeds = (p.conns c).conn.heeds :=
    TcpConnection.heeds_congr (TcpConnection.call_closing heff).1
  have hpushed := stackOf_schedule (p := p) (p.conns c).conn.loop_ hstack
  have hposted : (q.queueOf (p.conns c).conn.loop_).flatMap (Work.functors c) =
      (p.queueOf (p.conns c).conn.loop_).flatMap (Work.functors c) ++ eff.posts := by
    have hall := queueOf_schedule (p := p) (p.conns c).conn.loop_
      (hqueue.trans (List.append_assoc _ _ _))
    have hmap : Keyed.ofKey (p.conns c).conn.loop_
        (eff.posts.map fun f => (eff.conn.loop_, f.work c)) = eff.posts.map (Functor.work c) := by
      rw [← hloop]
      exact (congrArg _ (List.map_map ..).symm).trans (Keyed.ofKey_map_self ..)
    rw [hall, Keyed.ofKey_append, hmap, List.flatMap_append, List.flatMap_append, hposts,
      List.flatMap_map]
    simp [Work.functors_work]
  have hnone : ∀ conn, tasksOf conn c after = [] := fun conn =>
    tasksOf_of_not_occupying (weigh_eq_zero.2 fun w hw => (hafter w hw).2)
  by_cases ht : t = (p.conns c).conn.loop_
  · rw [if_pos ht] at hpushed
    obtain ⟨hcalm, hsingle⟩ := Stacked.calm (ht ▸ h.stacked) (ready_cases hready)
    rw [ht] at hcalm hsingle
    have hcalls : ∀ conn, tasksOf conn c (eff.calls.map (Work.conn c) ++ after) =
        eff.calls.filter conn.heeds := by
      intro conn
      rw [tasksOf_append, tasksOf_map_conn, hnone, List.append_nil]
    have hopen : (p.conns c).conn.state_ ≠ .kConnecting :=
      h.not_connecting hcalm fun hnil hrefs hmaker => absurd hmaker (haway hnil hrefs)
    constructor
    · rw [hconn, hpushed]
      refine Stacked.push h.stacked.layered hsingle (TcpConnection.call_closing heff).1.2 ?_
        (Or.inl ?_)
      · intro hmem
        have hcall := mem_of_mem_tail hmem
        rw [hcalls] at hcall
        rcases (TcpConnection.call_inLoop heff).1 _ (List.mem_of_mem_filter hcall) with hin | hin
        · cases hin
        · cases hin
      · intro w hw
        rcases List.mem_append.1 hw with hw | hw
        · obtain ⟨k, -, rfl⟩ := List.mem_map.1 hw
          exact isOwn_of_connId rfl
        · exact isOwn_of_isPassive (hafter w hw).1
    · intro h
      have hnew : partOf eff.conn c (q.stackOf (p.conns c).conn.loop_)
          (q.queueOf (p.conns c).conn.loop_) (p.record c e h) =
          ⟨eff.conn, eff.calls.filter eff.conn.heeds ++ (p.part c h).stack,
            (p.part c h).queue ++ eff.posts, Part.noteCall (p.part c h).transcript x⟩ := by
        unfold partOf
        rw [hpushed, tasksOf_append, hcalls, tasksOf_heeds hheeds, hposted, hrecord]
        rfl
      rw [hconn, hnew]
      exact .step (l := .call x) .refl ⟨rfl, hsend⟩ (.call hcalm hopen (ht ▸ heff))
  · rw [if_neg ht, List.nil_append] at hpushed
    have hfrom : (p.conns c).conn.call none x = .ok eff := by
      rw [← TcpConnection.call_elsewhere ht]
      exact heff
    constructor
    · rw [hconn, hpushed]
      exact h.stacked.heeds hheeds
    · intro h
      have hnew : partOf eff.conn c (q.stackOf (p.conns c).conn.loop_)
          (q.queueOf (p.conns c).conn.loop_) (p.record c e h) =
          ⟨eff.conn, (p.part c h).stack, (p.part c h).queue ++ eff.posts,
            Part.noteCall (p.part c h).transcript x⟩ := by
        unfold partOf
        rw [hpushed, tasksOf_heeds hheeds, hposted, hrecord]
        rfl
      rw [hconn, hnew]
      exact .step (l := .callFrom x) .refl ⟨rfl, hsend⟩ (.callFrom hfrom)

/-- An operation of the connection is completed. -/
theorem complete {r : TcpConnection × ConnTask} {l : SessionEvent} (h : Shown p c)
    (hsetup : r.1.loop_ = (p.conns c).conn.loop_ ∧ r.1.state_ = (p.conns c).conn.state_)
    (hcauses : ∀ τ, p.Causes c e τ (p.part c τ) l)
    (hacts : ∀ τ, (p.part c τ).Acts l ⟨r.1, (p.part c τ).stack, (p.part c τ).queue ++ [.raw r.2],
      p.record c e τ⟩) : Advances p c e (p.complete c r) := by
  obtain ⟨hloop, hstate⟩ := hsetup
  have hheeds : r.1.heeds = (p.conns c).conn.heeds := TcpConnection.heeds_congr (by rw [hstate])
  have hrecord : (p.complete c r).conns c = { p.conns c with conn := r.1 } :=
    Function.update_self ..
  have hconn : ((p.complete c r).conns c).conn = r.1 := by rw [hrecord]
  have hstack : (p.complete c r).stackOf (p.conns c).conn.loop_ =
      p.stackOf (p.conns c).conn.loop_ := rfl
  have hqueue : (p.complete c r).queueOf (p.conns c).conn.loop_ =
      p.queueOf (p.conns c).conn.loop_ ++ [.conn c r.2] := by
    have hall := queueOf_schedule (p := p) (q := p.complete c r) (p.conns c).conn.loop_ rfl
    rw [hall, hloop, Keyed.ofKey_cons_self]
    rfl
  constructor
  · rw [hconn, hstack]
    exact h.stacked.heeds hheeds
  · intro τ
    have hnew : partOf r.1 c (p.stackOf (p.conns c).conn.loop_)
        (p.queueOf (p.conns c).conn.loop_ ++ [.conn c r.2]) (p.record c e τ) =
        ⟨r.1, (p.part c τ).stack, (p.part c τ).queue ++ [.raw r.2], p.record c e τ⟩ := by
      unfold partOf
      rw [tasksOf_heeds hheeds, List.flatMap_append]
      simp [Work.functors, part, partOf]
    rw [hconn, hstack, hqueue, hnew]
    exact .step .refl (hcauses τ) (hacts τ)

/-- The loop takes the oldest entry of its queue. -/
theorem dequeue {l : LoopId} (hseq : Sequenced p) (h : Shown p c)
    (hstep : step (.dequeue l) p = .ok q) : Advances p c (.dequeue l) q := by
  obtain ⟨⟨-, hempty⟩, w, rest, htake, rfl⟩ := dequeue_eq_ok.1 hstep
  by_cases hl : l = (p.conns c).conn.loop_
  · subst hl
    have hqueue : p.queueOf (p.conns c).conn.loop_ =
        w :: Keyed.ofKey (p.conns c).conn.loop_ rest := Keyed.ofKey_takeFirst htake
    have hqueued : w.isQueued = true := by
      have hmem : w ∈ p.queueOf (p.conns c).conn.loop_ := by
        rw [hqueue]
        exact List.mem_cons_self
      exact hseq.queued _ (Keyed.mem_ofKey.1 hmem)
    have hstack : Keyed.ofKey (p.conns c).conn.loop_
        (((p.conns c).conn.loop_, w) :: p.stack) = [w] := by
      rw [Keyed.ofKey_cons_self]
      exact congrArg _ hempty
    have hold : ∀ τ, (p.part c τ).stack = [] := by
      intro τ
      show tasksOf _ c (p.stackOf _) = []
      rw [hempty]
      rfl
    constructor
    · show Stacked _ c (Keyed.ofKey _ (_ :: p.stack))
      rw [hstack]
      exact ⟨List.not_mem_nil, fun _ => nofun, trivial⟩
    · intro τ
      show Part.Moves _ _ (partOf _ c (Keyed.ofKey _ (_ :: p.stack)) (Keyed.ofKey _ rest) τ)
      rw [hstack]
      by_cases hw : w.connId = some c ∧ occupying c w ≠ 0
      · obtain ⟨f, hf, htasks⟩ : ∃ f, w.functors c = [f] ∧ w.tasks c = [f.task] := by
          obtain ⟨hc, hoccupying⟩ := hw
          cases w with
          | conn d k =>
            obtain rfl := Option.some.inj hc
            exact ⟨.raw k, if_pos rfl, if_pos rfl⟩
          | bound d k =>
            obtain rfl := Option.some.inj hc
            exact ⟨.bound k, if_pos rfl, if_pos rfl⟩
          | setCloseCallback d => exact absurd rfl hoccupying
          | server k =>
            cases k with
            | removeConnection d => cases hqueued
            | _ => exact absurd rfl hoccupying
          | client k =>
            cases k with
            | removeConnection d => cases hqueued
            | _ => exact absurd rfl hoccupying
          | connector | handleTimer | eraseTimer => cases hc
        have hqueues : (p.part c τ).queue =
            f :: (Keyed.ofKey (p.conns c).conn.loop_ rest).flatMap (Work.functors c) := by
          show (p.queueOf _).flatMap _ = _
          rw [hqueue, List.flatMap_cons, hf]
          rfl
        refine .step (l := .dequeue) .refl trivial ?_
        have hnew : partOf (p.conns c).conn c [w] (Keyed.ofKey (p.conns c).conn.loop_ rest) τ =
            { p.part c τ with
              stack := [f.task].filter (p.conns c).conn.heeds
              queue := (Keyed.ofKey (p.conns c).conn.loop_ rest).flatMap (Work.functors c) } := by
          unfold partOf
          rw [tasksOf_cons, htasks, tasksOf_nil, List.append_nil]
          rfl
        rw [hnew]
        exact .dequeue (hold τ) hqueues
      · have hzero : occupying c w = 0 := by
          by_contra hno
          refine hw ⟨?_, hno⟩
          by_contra habout
          exact hno (occupying_about habout)
        have hsame : partOf (p.conns c).conn c [w] (Keyed.ofKey (p.conns c).conn.loop_ rest) τ =
            p.part c τ := by
          unfold part partOf
          rw [tasksOf_cons, tasks_of_not_occupying hzero, hqueue, List.flatMap_cons,
            functors_of_not_occupying hzero hqueued, hempty]
          rfl
        rw [hsame]
        exact .refl
  · have hstack : Keyed.ofKey (p.conns c).conn.loop_ ((l, w) :: p.stack) =
        p.stackOf (p.conns c).conn.loop_ := Keyed.ofKey_cons_of_ne hl ..
    refine elsewhere h.stacked rfl (fun _ => rfl) hstack ?_
    exact congrArg _ (Keyed.ofKey_takeFirst_of_ne htake hl).symm

/-- A callback returns. -/
theorem return_ (hplaced : Placed p) (h : Shown p c) (hstep : step (.return_ t) p = .ok q) :
    Advances p c (.return_ t) q := by
  obtain ⟨b, k, rest, htake, rfl⟩ := return_eq_ok.1 hstep
  have hself : p.stackOf t = .conn b (.inCallback k) ::
      ({ p with stack := rest } : Process).stackOf t := Keyed.ofKey_takeFirst htake
  by_cases hb : b = c
  · subst hb
    have htasks : Work.tasks b (.conn b (.inCallback k)) = [.inCallback k] := if_pos rfl
    have hnone : tasksOf (p.conns b).conn b [] = [] := rfl
    exact leave h.stacked (hplaced.here (head_stackOf htake) rfl) hself htasks rfl (fun _ => rfl)
      (List.nil_append _).symm hnone (List.forall_mem_nil _) (List.append_nil _).symm (Or.inl rfl)
  · have hpushes : Pushes (fun _ => false) t { p with stack := rest } { p with stack := rest } :=
      .of_eq rfl rfl
    have hno : ∀ v : Work, false = true → v.isOwn c = true := by
      rintro v ⟨⟩
    refine pop_beside h.stacked htake hpushes (Or.inl hno) (fun _ => ?_) rfl rfl fun _ => rfl
    rw [tasks_about]
    · rfl
    · exact fun hno => hb (Option.some.inj hno)

/-- The message callback retrieves bytes. -/
theorem consume {len : Nat} (hplaced : Placed p) (h : Shown p c)
    (hstep : step (.consume t c len) p = .ok q) : Advances p c (.consume t c len) q := by
  obtain ⟨⟨hhead, hlen⟩, b, hb, rfl⟩ := consume_eq_ok.1 hstep
  have ht : t = (p.conns c).conn.loop_ := hplaced.here hhead rfl
  let r : Process := p.update c fun r => { r with conn := { r.conn with inputBuffer_ := b } }
  have hrecord : r.conns c = { p.conns c with
      conn := { (p.conns c).conn with inputBuffer_ := b } } := Function.update_self ..
  have hconn : (r.conns c).conn = { (p.conns c).conn with inputBuffer_ := b } := by rw [hrecord]
  have hheeds : ({ (p.conns c).conn with inputBuffer_ := b } : TcpConnection).heeds =
      (p.conns c).conn.heeds := TcpConnection.heeds_congr Iff.rfl
  constructor
  · show Stacked (r.conns c).conn c (p.stackOf _)
    rw [hconn]
    exact h.stacked.heeds hheeds
  · intro τ
    have htop : (p.part c τ).stack.head? = some (.inCallback .message) := by
      obtain ⟨below, hbelow⟩ := List.head?_eq_some_iff.1 hhead
      have hstack : (p.part c τ).stack = tasksOf (p.conns c).conn c (p.stackOf t) := by
        rw [ht]
        rfl
      rw [hstack, hbelow, tasksOf_cons]
      simp [Work.tasks, TcpConnection.heeds]
    have hnew : partOf (r.conns c).conn c (p.stackOf (p.conns c).conn.loop_)
        (p.queueOf (p.conns c).conn.loop_) (p.record c (.consume t c len) τ) = { p.part c τ with
          conn := { (p.conns c).conn with inputBuffer_ := b }
          transcript := { τ with
            consumed := τ.consumed ++ (p.conns c).conn.inputBuffer_.content.take len } } := by
      unfold partOf
      rw [hconn, tasksOf_heeds hheeds, record, if_pos rfl]
      rfl
    show Part.Moves _ _ (partOf (r.conns c).conn c (p.stackOf _) (p.queueOf _) _)
    rw [hnew]
    exact .step (l := .consume len) .refl trivial (.consume htop hlen hb)

/-- Code of the user that reaches the connection calls it. -/
theorem called {x : ConnCall} (hplaced : Placed p) (h : Shown p c)
    (hstep : step (.call t c x) p = .ok q) : Advances p c (.call t c x) q := by
  obtain ⟨hreaches, eff, heff, rfl⟩ := call_eq_ok.1 hstep
  have hqueue : (p.applyEffect t c eff []).queue =
      p.queue ++ [] ++ eff.posts.map fun f => (eff.conn.loop_, f.work c) := by
    rw [List.append_nil]
    rfl
  refine call [] h (Or.inl (userRuns_of_reaches hreaches)) ?_ heff applyEffect_conn rfl hqueue
    (List.forall_mem_nil _) (fun _ => rfl) (fun _ => if_pos rfl) fun _ _ => ⟨t, rfl⟩
  intro hnil hrefs
  have hin : p.inCallbackOf t c = true := by
    simpa [reaches, hrefs] using hreaches
  exact absurd hnil (hplaced.stack_ne_nil hin)

/-- `TcpClient::disconnect` shuts the connection of the client down. -/
theorem disconnected (hplaced : Placed p) (h : Shown p c) (hclient : p.client.connection_ = some c)
    (hstep : step (.clientCall t .disconnect) p = .ok q) :
    Advances p c (.clientCall t .disconnect) q := by
  obtain ⟨⟨huser, -⟩, rfl⟩ := clientCall_eq_ok.1 hstep
  let r : Process := ({ p with client := { p.client with connect_ := false } } :
    Process).applyEffect t c ((p.conns c).conn.shutdown (some t)) []
  have hr : p.clientCall t .disconnect = r := by
    show TcpClient.disconnect p t = r
    unfold TcpClient.disconnect
    rw [hclient]
  rw [hr]
  have hqueue : r.queue = p.queue ++ [] ++ ((p.conns c).conn.shutdown (some t)).posts.map
      fun f => (((p.conns c).conn.shutdown (some t)).conn.loop_, f.work c) := by
    rw [List.append_nil]
    rfl
  have hmaker := (hplaced.connection c hclient).2
  refine call (x := .shutdown) [] h (Or.inl huser) ?_ rfl applyEffect_conn rfl hqueue
    (List.forall_mem_nil _) (fun _ => rfl) (fun _ => rfl) ?_
  · rw [hmaker]
    exact fun _ _ => nofun
  · exact fun _ => nofun

/-- The destructor of the client closes a connection that nobody else holds. -/
theorem forced (hplaced : Placed p) (h : Shown p c) (hclient : p.client.connection_ = some c)
    (howners : p.owners c = 1) (hstep : step (.destroyClient t) p = .ok q) :
    Advances p c (.destroyClient t) q := by
  obtain ⟨⟨huser, -⟩, hexec⟩ := destroyClient_eq_ok.1 hstep
  rcases TcpClient.destructor_eq_ok.1 hexec with ⟨hnone, -⟩ | ⟨d, hsome, -, ⟨-, rfl⟩ | ⟨hno, -⟩⟩
  · rw [hclient] at hnone
    cases hnone
  · obtain rfl := Option.some.inj (hclient.symm.trans hsome)
    let posts : List (LoopId × Work) :=
      if t = p.client.loop_ then [] else [(p.client.loop_, .setCloseCallback c)]
    have hsetter : (TcpClient.setCloseCallback p t c).stack = p.stack ∧
        (TcpClient.setCloseCallback p t c).queue = p.queue ++ posts := by
      unfold TcpClient.setCloseCallback posts
      split_ifs
      · exact ⟨rfl, (List.append_nil _).symm⟩
      · exact ⟨rfl, rfl⟩
    have hposts : ∀ l, (Keyed.ofKey l posts).flatMap (Work.functors c) = [] := by
      intro l
      apply List.flatMap_eq_nil_iff.2
      intro w hw
      have hmem := Keyed.mem_ofKey.1 hw
      unfold posts at hmem
      split_ifs at hmem
      · cases hmem
      · obtain ⟨-, rfl⟩ := Prod.mk.inj (List.mem_singleton.1 hmem)
        rfl
    have hafter : ∀ w ∈ ([.conn c .release, .client .destroyed] : List Work),
        w.isPassive = true ∧ occupying c w = 0 := by
      intro w hw
      simp only [List.mem_cons, List.not_mem_nil, or_false] at hw
      rcases hw with rfl | rfl
      · exact ⟨rfl, occupying_release c⟩
      · exact ⟨rfl, rfl⟩
    have hmaker := (hplaced.connection c hclient).2
    refine call (x := .forceClose) posts h (Or.inl huser) ?_ rfl applyEffect_conn ?_ ?_
      hafter hposts (fun _ => rfl) ?_
    · rw [hmaker]
      exact fun _ _ => nofun
    · exact congrArg _ hsetter.1
    · exact congrArg (· ++ _) hsetter.2
    · exact fun _ => nofun
  · obtain rfl := Option.some.inj (hclient.symm.trans hsome)
    exact absurd howners hno

/-- The part of a connection moves on in every step. -/
theorem step (hann : Announces p) (hc : c < p.nextConn) (h : Shown p c)
    (hstep : Process.step e p = .ok q) : Advances p c e q := by
  by_cases hspares : p.Spares c e
  · exact spared hann.placed hann.sorted hc h hspares hstep
  · cases e with
    | dequeue l => exact dequeue hann.sequenced h hstep
    | run t peer => exact run hann hc h hstep
    | return_ t => exact return_ hann.placed h hstep
    | call t d x =>
      obtain rfl := Decidable.not_not.1 hspares
      exact called hann.placed h hstep
    | consume t d len =>
      obtain rfl := Decidable.not_not.1 hspares
      exact consume hann.placed h hstep
    | receive d data =>
      obtain rfl := Decidable.not_not.1 hspares
      obtain ⟨-, r, hr, rfl⟩ := receive_eq_ok.1 hstep
      obtain ⟨region, rest, -, -, -, rfl⟩ := TcpConnection.receive_eq_some hr
      refine complete (l := .receive data) h ⟨rfl, rfl⟩ (fun _ => trivial) fun τ => ?_
      rw [record, if_pos rfl]
      exact .receive hr
    | readFails d error =>
      obtain rfl := Decidable.not_not.1 hspares
      obtain ⟨-, r, hr, rfl⟩ := readFails_eq_ok.1 hstep
      obtain ⟨region, rest, -, rfl⟩ := TcpConnection.readFails_eq_some hr
      exact complete (l := .readFails error) h ⟨rfl, rfl⟩ (fun _ => trivial)
        fun τ => .readFails hr
    | transmit d k stale =>
      obtain rfl := Decidable.not_not.1 hspares
      obtain ⟨-, r, hr, rfl⟩ := transmit_eq_ok.1 hstep
      obtain ⟨region, rest, -, -, -, rfl⟩ := TcpConnection.transmit_eq_some hr
      refine complete (l := .transmit k stale) h ⟨rfl, rfl⟩ (fun _ => trivial) fun τ => ?_
      have hpart : (p.part d τ).conn.transmit k stale = some _ := hr
      simp only [record, if_true, hr]
      exact .transmit hpart
    | sendFails d error =>
      obtain rfl := Decidable.not_not.1 hspares
      obtain ⟨-, r, hr, rfl⟩ := sendFails_eq_ok.1 hstep
      obtain ⟨region, rest, -, rfl⟩ := TcpConnection.sendFails_eq_some hr
      exact complete (l := .sendFails error) h ⟨rfl, rfl⟩ (fun _ => rfl) fun τ => .sendFails hr
    | clientCall t x =>
      cases x with
      | disconnect => exact disconnected hann.placed h (Decidable.not_not.1 hspares) hstep
      | connect | stop | enableRetry => exact absurd trivial hspares
    | destroyClient t =>
      obtain ⟨hclient, howners⟩ := not_or.1 hspares
      exact forced hann.placed h (Decidable.not_not.1 hclient) (Decidable.not_not.1 howners) hstep
    | keep | keepConnection | drop | accept | destroyServer | connectorCall | connectDone
    | timerExpires => exact absurd trivial hspares

end Advances

/-! ## Connections of a process -/

/-- A pointer to a connection is copied in a callback of it, or the client has it. -/
theorem Touches.refs_le {taken : List Work} {d : Change} (ht : Touches p c e taken d) :
    d.record.refs ≤ (p.conns c).refs ∨ (∃ t, p.inCallbackOf t c = true) ∨
      p.client.connection_ = some c := by
  cases ht with
  | run htake hperforms =>
    cases hperforms with
    | task | bound => exact Or.inl (Nat.le_of_eq (note_refs _ _))
    | _ => exact Or.inl (Nat.le_refl _)
  | meanwhile htake hmeanwhile => cases hmeanwhile <;> exact Or.inl (Nat.le_refl _)
  | kept hin => exact Or.inr (Or.inl ⟨_, hin⟩)
  | keptConnection hclient => exact Or.inr (Or.inr hclient)
  | dropped => exact Or.inl (Nat.sub_le _ _)
  | _ => exact Or.inl (Nat.le_refl _)

/-- Every step leaves the work of the loop of a connection layered, and a connection that is not
established out of reach. -/
theorem Shown.step (hann : Announces p) (hc : c < p.nextConn) (h : Shown p c)
    (hstep : Process.step e p = .ok q) : Shown q c := by
  have hadvances := Advances.step hann hc h hstep
  have hfollows := (Moves.step hann.placed hstep).follows
  have hloop : (q.conns c).conn.loop_ = (p.conns c).conn.loop_ := (hfollows.setup c hc).loop
  obtain ⟨hstarting, hback⟩ := (hadvances.moves .empty).starting h.starting
  rw [← hloop] at hstarting hback
  refine ⟨hloop ▸ hadvances.stacked, hstarting, ?_⟩
  intro hstate hnil
  obtain ⟨hold, hempty⟩ := hback hstate
  obtain ⟨hrefs, hmaker, haway⟩ := h.aloof hold (hempty hnil)
  refine ⟨?_, (hfollows.maker c hc).trans hmaker, ?_⟩
  · obtain ⟨taken, d, htouches, halters⟩ := step_touches hann.placed hann.sorted hc hstep
    rw [halters.record]
    rcases htouches.refs_le with hle | ⟨t, hin⟩ | hclient
    · rw [hrefs] at hle
      exact Nat.le_zero.1 hle
    · exact absurd (hempty hnil) (hann.placed.stack_ne_nil hin)
    · have hother := (hann.placed.connection c hclient).2
      rw [hmaker] at hother
      cases hother
  · rw [hfollows.server, hloop]
    exact haway

/-- A connection that was just made is about to be established: its owner calls
`connectEstablished`, or the server has handed it to another loop. -/
structure Appears (q : Process) (c : ConnId) : Prop where
  made : ∃ loop name m w, (q.conns c).conn = TcpConnection.make loop name m w
  stacked : Stacked (q.conns c).conn c (q.stackOf (q.conns c).conn.loop_)
  next : ((q.part c .empty).stack = [.connectEstablished] ∧ (q.part c .empty).queue = []) ∨
    ((q.part c .empty).stack = [] ∧
      (q.part c .empty).queue = [.bound .connectEstablished] ∧ (q.conns c).refs = 0 ∧
      (q.conns c).closeCallback_ = .server ∧ q.server.loop_ ≠ (q.conns c).conn.loop_)

theorem Appears.shown (h : Appears q c) : Shown q c := by
  refine ⟨h.stacked, fun _ => ?_, fun _ hnil => ?_⟩
  · rcases h.next with ⟨hstack, -⟩ | ⟨hstack, hqueue, -⟩
    · exact Or.inl hstack
    · exact Or.inr ⟨hstack, by rw [hqueue]; rfl⟩
  · rcases h.next with ⟨hstack, -⟩ | ⟨-, -, haway⟩
    · rw [hstack] at hnil
      cases hnil
    · exact haway

/-- A session that starts represents the part of a connection that was just made. -/
theorem Appears.represented (h : Appears q c) :
    ∃ s, sessionMachine.init s ∧ Represents (q.part c .empty) s := by
  obtain ⟨loop, name, m, w, hconn⟩ := h.made
  have hpart : (q.part c .empty).conn = TcpConnection.make loop name m w := hconn
  refine ⟨Session.initial loop name m w, ⟨loop, name, m, w, rfl⟩, hconn.symm, rfl, ?_, ?_⟩
  · intro k hk
    obtain rfl := Option.some.inj hk
    rfl
  · rcases h.next with ⟨hstack, hqueue⟩ | ⟨hstack, hqueue, -⟩
    · refine Or.inl ⟨?_, hqueue.symm⟩
      rw [hstack]
      rfl
    · refine Or.inr ⟨?_, hstack, hqueue, rfl⟩
      rw [hpart]
      rfl

/-- Nothing in the process is about a connection that was not made. -/
theorem Announces.fresh (h : Announces p) (hc : p.nextConn ≤ c) (l : LoopId) :
    (∀ conn, tasksOf conn c (p.stackOf l) = []) ∧
      (p.queueOf l).flatMap (Work.functors c) = [] := by
  have hzero := weigh_eq_zero.1 (h.placed.weigh_fresh hc fun w => occupying_about)
  constructor
  · intro conn
    apply tasksOf_of_not_occupying
    apply weigh_eq_zero.2
    intro w hw
    exact hzero w (List.mem_append_left _ (List.mem_map.2 ⟨_, Keyed.mem_ofKey.1 hw, rfl⟩))
  · apply List.flatMap_eq_nil_iff.2
    intro w hw
    have hmem := Keyed.mem_ofKey.1 hw
    exact functors_of_not_occupying
      (hzero w (List.mem_append_right _ (List.mem_map.2 ⟨_, hmem, rfl⟩)))
      (h.sequenced.queued _ hmem)

/-- Work is layered where there is nothing to do for the connection. -/
theorem layered_of_tasksOf {conn : TcpConnection} {ws : List Work} (h : tasksOf conn c ws = []) :
    Layered conn c ws := by
  induction ws with
  | nil => trivial
  | cons w ws ih =>
    rw [tasksOf_cons, List.append_eq_nil_iff] at h
    refine ⟨fun _ => ?_, ih h.2⟩
    rw [h.2]
    exact nofun

/-- What a loop has to do once the connection was made. -/
theorem Appears.of_calls {loop : LoopId} {name : List Char} {m w : Bool} {calls below : List Work}
    (hconn : (q.conns c).conn = TcpConnection.make loop name m w)
    (hstack : q.stackOf loop = calls ++ below) (hown : ∀ v ∈ calls, v.isOwn c = true)
    (hbelow : tasksOf (q.conns c).conn c below = [])
    (hnext : (tasksOf (q.conns c).conn c calls = [.connectEstablished] ∧
        (q.queueOf loop).flatMap (Work.functors c) = []) ∨
      (tasksOf (q.conns c).conn c calls = [] ∧
        (q.queueOf loop).flatMap (Work.functors c) = [.bound .connectEstablished] ∧
        (q.conns c).refs = 0 ∧ (q.conns c).closeCallback_ = .server ∧ q.server.loop_ ≠ loop)) :
    Appears q c := by
  have hloop : (q.conns c).conn.loop_ = loop := by rw [hconn]; rfl
  have hpart : (q.part c .empty).stack = tasksOf (q.conns c).conn c calls := by
    show tasksOf _ c (q.stackOf _) = _
    rw [hloop, hstack, tasksOf_append, hbelow, List.append_nil]
  have hqueue : (q.part c .empty).queue = (q.queueOf loop).flatMap (Work.functors c) := by
    rw [← hloop]
    rfl
  refine ⟨⟨loop, name, m, w, hconn⟩, ?_, ?_⟩
  · rw [hloop, hstack]
    refine Stacked.push (layered_of_tasksOf hbelow) (by rw [hbelow]; exact List.not_mem_nil) id ?_
      (Or.inl hown)
    intro hmem
    have hin := mem_of_mem_tail hmem
    rcases hnext with ⟨hone, -⟩ | ⟨hnone, -⟩
    · rw [hone] at hin
      cases List.mem_singleton.1 hin
    · rw [hnone] at hin
      cases hin
  · rw [hpart, hqueue, hloop]
    exact hnext

/-- The server makes a connection. -/
theorem Appears.accepted {ioLoop : LoopId} (h : Announces p) :
    Appears (TcpServer.newConnection p ioLoop) p.nextConn := by
  let q := TcpServer.newConnection p ioLoop
  have hrecord : q.conns p.nextConn = Connection.make (TcpConnection.make ioLoop
      p.server.connName p.server.messageCallback_ p.server.writeCompleteCallback_) .server none :=
    Function.update_self ..
  obtain ⟨htasks, hfunctors⟩ := h.fresh (Nat.le_refl _) ioLoop
  have hstack := stackOf_schedule (p := p) (q := q) (t := p.server.loop_) ioLoop rfl
  have hqueue := queueOf_schedule (p := p) (q := q) ioLoop rfl
  have hconn : (q.conns p.nextConn).conn = TcpConnection.make ioLoop p.server.connName
      p.server.messageCallback_ p.server.writeCompleteCallback_ := by
    rw [hrecord]
    rfl
  refine .of_calls hconn hstack ?_ (htasks _) ?_
  · intro v hv
    split_ifs at hv
    · rcases List.mem_append.1 hv with hv | hv
      · rcases List.mem_append.1 hv with hv | hv
        · obtain ⟨d, -, rfl⟩ := mem_releases hv
          exact isOwn_of_isPassive rfl
        · rw [mem_callIf hv]
          exact isOwn_of_connId rfl
      · rw [List.mem_singleton.1 hv]
        exact isOwn_of_isPassive rfl
    · cases hv
  · rw [hqueue, List.flatMap_append, hfunctors, List.nil_append]
    by_cases hl : p.server.loop_ = ioLoop
    · left
      rw [if_pos hl, tasksOf_append, tasksOf_append, tasksOf_releases, callIf, if_pos hl, postIf,
        if_pos hl]
      exact ⟨by simp [tasksOf, Work.tasks, TcpConnection.heeds], rfl⟩
    · right
      rw [if_neg hl, postIf, if_neg hl, Keyed.ofKey_cons_self, hrecord]
      exact ⟨rfl, by simp [Work.functors, Keyed.ofKey], rfl, rfl, hl⟩

theorem tasksOf_establishing (conn : TcpConnection) (c : ConnId) :
    tasksOf conn c [.conn c .connectEstablished, .conn c .release] = [.connectEstablished] := by
  simp [tasksOf, Work.tasks, List.filter_cons, TcpConnection.heeds]

/-- The client makes a connection. -/
theorem Appears.connected {peer : List Char} {socket : SockId} (h : Announces p)
    (hhead : (p.stackOf t).head? = some (.client (.newConnection socket)))
    (hstep : Process.step (.run t peer) p = .ok q) : Appears q p.nextConn := by
  obtain ⟨w, rest, htake, -, hexec⟩ := run_eq_ok.1 hstep
  obtain rfl := Option.some.inj (hhead.symm.trans (head_stackOf htake))
  obtain ⟨-, hnew⟩ := exec_client_eq_ok.1 hexec
  obtain ⟨⟨ht, -⟩, rfl⟩ := TcpClient.newConnection_eq_ok.1 hnew
  let calls : List Work := releases p.client.connection_.toList ++
    [.conn p.nextConn .connectEstablished, .conn p.nextConn .release]
  let conn : TcpConnection := TcpConnection.make p.client.loop_ (p.client.connName peer)
    p.client.messageCallback_ p.client.writeCompleteCallback_
  let r : Process := ({ p with
    stack := rest
    conns := Function.update p.conns p.nextConn (Connection.make conn .client (some socket))
    nextConn := p.nextConn + 1
    client := { p.client with
      nextConnId_ := nextInt p.client.nextConnId_
      connection_ := some p.nextConn } } : Process).schedule t calls []
  show Appears r p.nextConn
  have hrecord : r.conns p.nextConn = Connection.make conn .client (some socket) :=
    Function.update_self ..
  have hconn : (r.conns p.nextConn).conn = conn := by
    rw [hrecord]
    rfl
  obtain ⟨htasks, hfunctors⟩ := h.fresh (Nat.le_refl _) p.client.loop_
  have hstack : r.stackOf p.client.loop_ =
      calls ++ ({ p with stack := rest } : Process).stackOf p.client.loop_ := by
    have hall := stackOf_schedule (p := { p with stack := rest }) (q := r) (t := t)
      p.client.loop_ rfl
    rwa [if_pos ht] at hall
  have hqueue : r.queueOf p.client.loop_ = p.queueOf p.client.loop_ := by
    have hall := queueOf_schedule (p := p) (q := r) p.client.loop_ rfl
    exact hall.trans (List.append_nil _)
  refine .of_calls hconn hstack ?_ ?_ (Or.inl ⟨?_, ?_⟩)
  · intro v hv
    rcases List.mem_append.1 hv with hv | hv
    · obtain ⟨d, -, rfl⟩ := mem_releases hv
      exact isOwn_of_isPassive rfl
    · simp only [List.mem_cons, List.not_mem_nil, or_false] at hv
      rcases hv with rfl | rfl <;> exact isOwn_of_connId rfl
  · have hall := htasks (r.conns p.nextConn).conn
    rw [← ht] at hall ⊢
    rw [show p.stackOf t = _ from Keyed.ofKey_takeFirst htake, tasksOf_cons,
      List.append_eq_nil_iff] at hall
    exact hall.2
  · refine tasksOf_append.trans ?_
    rw [tasksOf_releases, tasksOf_establishing]
    rfl
  · rw [hqueue]
    exact hfunctors

/-- A connection that a step makes starts like a session. -/
theorem Appears.of_makes {d : Change} {n m : Nat} (h : Announces p)
    (hm : Makes p e d n m) (hstep : Process.step e p = .ok q) : Appears q p.nextConn := by
  cases hm with
  | accepts hlife =>
    obtain ⟨-, rfl⟩ := accept_eq_ok.1 hstep
    exact .accepted h
  | connects hhead => exact .connected h hhead hstep

end Process

end LibNetToy
