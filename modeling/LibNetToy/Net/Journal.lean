import LibNetToy.Net.Refinement
import LibNetToy.Net.OutputStream
import LibNetToy.Net.InputStream

/-!
# The bytes of a process

A process with the transcript of every connection.  Each connection is represented by a session,
so what holds of the bytes of every session holds of the bytes of every connection, whatever the
other threads, connections and owners do meanwhile.  A call of a member function is one step, on
whatever thread it is made.
-/

namespace LibNetToy

/-- A process, and the transcripts of its connections. -/
structure Journal where
  process : Process
  transcripts : ConnId → Transcript

def Journal.step (e : ProcessEvent) (j : Journal) : Except (Halt Fault) Journal :=
  Halt.within (Process.step e j.process) fun q =>
    { process := q, transcripts := fun c => j.process.record c e (j.transcripts c) }

/-- All runs of a process, with what was transferred. -/
def journalMachine : Machine Journal ProcessEvent Fault where
  init j := processMachine.init j.process ∧ j.transcripts = fun _ => .empty
  step := Journal.step

namespace Part

/-- Everything that is still to be done for the connection. -/
def tasks (v : Part) : List ConnTask :=
  v.stack ++ v.queue.flatMap Functor.body

/-- No byte of the connection is on its way out. -/
def Quiet (v : Part) : Prop :=
  (∀ r ∈ v.conn.socket_.sends, r.len = 0) ∧ weigh Session.ackOf v.tasks = 0

/-- The reads of the connection that are outstanding or not handled to their end. -/
def readsUnderWay (v : Part) : Nat :=
  v.conn.socket_.reads.length + weigh TcpConnection.handlerOf v.tasks +
    weigh TcpConnection.againOf v.tasks

instance (v : Part) : Decidable v.Quiet :=
  inferInstanceAs (Decidable (_ ∧ _))

/-- The bytes in the output buffer that have not been transferred yet. -/
def unsent (v : Part) : List UInt8 :=
  v.conn.outputBuffer_.content.drop (weigh Session.ackOf v.tasks)

/-- The bytes of a completed read that its handler has not counted. -/
def unhandled (v : Part) : List UInt8 :=
  Memory.slice v.conn.inputBuffer_.buffer_ v.conn.inputBuffer_.writerIndex_
    (v.conn.inputBuffer_.writerIndex_ + weigh TcpConnection.arrivedOf v.tasks)

end Part

namespace Process

/-- `send` is called on the connection only when no byte is on its way out. -/
def SendsSerially (c : ConnId) (p : Process) : ProcessEvent → Prop
  | .call _ d (.send _) => d = c → (p.part c .empty).Quiet
  | _ => True

/-- `startReadInLoop` finds `reading_` false only when no read of the connection is under way. -/
def ReadsSerially (c : ConnId) (p : Process) : ProcessEvent → Prop
  | .run t _ => ∀ w ∈ (p.stackOf t).head?, w.tasks c = [.startReadInLoop] →
    (p.conns c).conn.reading_ = false → (p.part c .empty).readsUnderWay = 0
  | _ => True

instance (c : ConnId) (p : Process) (e : ProcessEvent) : Decidable (SendsSerially c p e) :=
  match e with
  | .call _ _ (.send _) => inferInstanceAs (Decidable (_ = c → _))
  | .call _ _ .shutdown | .call _ _ .forceClose | .call _ _ .startRead | .call _ _ .stopRead
  | .dequeue _ | .run _ _ | .return_ _ | .keep _ _ | .keepConnection _ | .drop _ _
  | .consume _ _ _ | .receive _ _ | .readFails _ _ | .transmit _ _ _ | .sendFails _ _ | .accept _
  | .destroyServer _ | .clientCall _ _ | .connectorCall _ _ | .destroyClient _
  | .connectDone _ _ | .timerExpires _ => isTrue trivial

instance (c : ConnId) (p : Process) (e : ProcessEvent) : Decidable (ReadsSerially c p e) :=
  match e with
  | .run t _ => inferInstanceAs (Decidable (∀ w ∈ (p.stackOf t).head?, _ → _ → _))
  | .call _ _ _ | .dequeue _ | .return_ _ | .keep _ _ | .keepConnection _ | .drop _ _
  | .consume _ _ _ | .receive _ _ | .readFails _ _ | .transmit _ _ _ | .sendFails _ _ | .accept _
  | .destroyServer _ | .clientCall _ _ | .connectorCall _ _ | .destroyClient _
  | .connectDone _ _ | .timerExpires _ => isTrue trivial

end Process

/-! ## What a session and the part it represents have in common -/

section Represents

variable {v : Part} {s : Session}

theorem weigh_filter {α : Type} {f : α → Nat} {keep : α → Bool} {ts : List α}
    (h : ∀ t ∈ ts, keep t = false → f t = 0) : weigh f (ts.filter keep) = weigh f ts := by
  induction ts with
  | nil => rfl
  | cons t ts ih =>
    have hrest := ih fun u hu => h u (List.mem_cons_of_mem _ hu)
    cases hkeep : keep t with
    | true => rw [List.filter_cons_of_pos hkeep, weigh_cons, weigh_cons, hrest]
    | false =>
      rw [List.filter_cons_of_neg (by simp [hkeep]), weigh_cons, hrest,
        h t List.mem_cons_self hkeep, Nat.zero_add]

/-- What establishes, destroys or releases a connection aside, the tasks are the same. -/
theorem Represents.weigh_tasks (h : Represents v s) {f : ConnTask → Nat} (hrelease : f .release = 0)
    (hestablish : f .connectEstablished = 0) (hdestroy : f .connectDestroyed = 0) :
    weigh f v.tasks = weigh f s.tasks := by
  unfold Part.tasks Session.tasks
  rw [weigh_append, weigh_append]
  rcases h.phase with ⟨hstack, hqueue⟩ | ⟨-, hstack, hqueue, hfull⟩
  · rw [← hstack, hqueue, weigh_filter]
    intro t _ ht
    cases t with
    | release => exact hrelease
    | connectDestroyed => exact hdestroy
    | _ => cases ht
  · rw [hstack, hqueue, hfull, List.flatMap_cons, weigh_append]
    simp [Functor.body, hrelease, hestablish]

theorem Represents.quiet (h : Represents v s) (hquiet : v.Quiet) : s.Quiet := by
  obtain ⟨hsends, hacks⟩ := hquiet
  rw [← h.conn] at hsends
  exact ⟨hsends, (h.weigh_tasks rfl rfl rfl).symm.trans hacks⟩

theorem Represents.readsUnderWay (h : Represents v s) : v.readsUnderWay = s.readsUnderWay := by
  unfold Part.readsUnderWay Session.readsUnderWay
  rw [h.conn, h.weigh_tasks rfl rfl rfl, h.weigh_tasks rfl rfl rfl]

/-- What a session has accepted is on the wire or in the output buffer. -/
theorem Represents.accepted (h : Represents v s) (hout : Session.Outgoing s) :
    v.transcript.accepted = v.transcript.wire ++ v.unsent := by
  have hunsent : v.unsent =
      s.accepted.drop (s.acknowledged + weigh Session.ackOf s.tasks) := by
    unfold Part.unsent
    rw [h.weigh_tasks rfl rfl rfl, ← h.conn, hout.content_eq, List.drop_drop]
  rw [hunsent, ← h.transcript]
  show s.accepted = s.wire ++ _
  rw [hout.wire_eq, List.take_append_drop]

/-- What a session has received was retrieved or is in the input buffer. -/
theorem Represents.received (h : Represents v s) (hin : Session.Incoming s) :
    v.transcript.received =
      v.transcript.consumed ++ v.conn.inputBuffer_.content ++ v.unhandled := by
  have hunhandled : v.unhandled = s.unhandled := by
    unfold Part.unhandled Session.unhandled
    rw [h.weigh_tasks rfl rfl rfl, ← h.conn]
  rw [hunhandled, ← h.transcript, ← h.conn]
  exact hin.stream.symm

end Represents

namespace Process

variable {p : Process} {c : ConnId} {e : ProcessEvent} {τ : Transcript} {v : Part}
  {m : SessionEvent} {s : Session}

/-- Sends that do not overlap in the process do not overlap in the session. -/
theorem SendsSerially.serialSends (h : SendsSerially c p e) (hcauses : p.Causes c e τ v m)
    (hrep : Represents v s) : Session.SerialSends s m := by
  have hsend : ∀ message, (v = p.part c τ ∧ ∀ m, ConnCall.send message = .send m →
      ∃ t, e = .call t c (.send message)) → s.Quiet := by
    rintro message ⟨rfl, hcall⟩
    obtain ⟨t, rfl⟩ := hcall message rfl
    exact hrep.quiet (h rfl)
  cases m with
  | call x =>
    cases x with
    | send message => exact hsend message hcauses
    | shutdown | forceClose | startRead | stopRead => trivial
  | callFrom x =>
    cases x with
    | send message => exact hsend message hcauses
    | shutdown | forceClose | startRead | stopRead => trivial
  | dequeue | run | return_ | destroy | consume | receive | readFails | transmit | sendFails =>
    trivial

/-- Nor do reads. -/
theorem ReadsSerially.serialReads (h : ReadsSerially c p e) (hcauses : p.Causes c e τ v m)
    (hrep : Represents v s) : Session.SerialReads s m := by
  cases m with
  | run =>
    obtain ⟨rfl, t, peer, w, k, rfl, hhead, hw, htop⟩ := hcauses
    intro hs hreading
    obtain ⟨rest, hstack⟩ := List.head?_eq_some_iff.1 htop
    obtain ⟨below, hbelow, -⟩ := hrep.stack_eq_cons hstack
    rw [hbelow] at hs
    obtain rfl := Option.some.inj hs
    rw [hrep.conn] at hreading
    rw [← hrep.readsUnderWay]
    exact h w hhead hw hreading
  | dequeue | return_ | call | callFrom | destroy | consume | receive | readFails | transmit
  | sendFails => trivial

end Process

namespace Journal

open Process

variable {j k : Journal} {c : ConnId}

/-! ## The sessions of a process -/

/-- What holds of a process and its transcripts in every run. -/
structure Keeps (j : Journal) : Prop where
  announces : Announces j.process
  shown : ∀ c < j.process.nextConn, Shown j.process c
  unwritten : ∀ c, j.process.nextConn ≤ c → j.transcripts c = .empty

/-- Nothing is written of a connection that was not made. -/
theorem record_fresh {p : Process} {e : ProcessEvent} {q : Process} (h : Placed p)
    (hc : p.nextConn ≤ c) (hstep : Process.step e p = .ok q) (τ : Transcript) :
    p.record c e τ = τ := by
  have hno : ¬ c < p.nextConn := Nat.not_lt.2 hc
  cases e with
  | call t d x =>
    refine if_neg ?_
    rintro rfl
    exact hno (h.made_of_reaches (call_eq_ok.1 hstep).1)
  | consume t d len =>
    refine if_neg ?_
    rintro rfl
    obtain ⟨⟨hhead, -⟩, -⟩ := consume_eq_ok.1 hstep
    have hmem := Keyed.mem_ofKey.1 (List.mem_of_head? hhead)
    exact hno ((h.stack _ hmem).made d rfl)
  | receive d data =>
    refine if_neg ?_
    rintro rfl
    obtain ⟨-, r, hr, -⟩ := receive_eq_ok.1 hstep
    obtain ⟨region, rest, hreads, -⟩ := TcpConnection.receive_eq_some hr
    exact hno (h.made_of_reads hreads)
  | transmit d n stale =>
    refine if_neg ?_
    rintro rfl
    obtain ⟨-, r, hr, -⟩ := transmit_eq_ok.1 hstep
    obtain ⟨region, rest, hsends, -⟩ := TcpConnection.transmit_eq_some hr
    exact hno (h.made_of_sends hsends)
  | dequeue | run | return_ | keep | keepConnection | drop | readFails | sendFails | accept
  | destroyServer | clientCall | connectorCall | destroyClient | connectDone | timerExpires => rfl

theorem Keeps.step {e : ProcessEvent} (h : Keeps j) (hstep : Journal.step e j = .ok k) :
    Keeps k := by
  obtain ⟨q, hq, rfl⟩ := Halt.within_eq_ok.1 hstep
  refine ⟨h.announces.step hq, ?_, ?_⟩
  · intro c hc
    rcases old_or_born h.announces.placed h.announces.sorted hq hc with hold | ⟨rfl, d, n, m, hm, -⟩
    · exact (h.shown c hold).step h.announces hold hq
    · exact (Appears.of_makes h.announces hm hq).shown
  · intro c hc
    have hnext := (Moves.step h.announces.placed hq).follows.nextConn
    have hfresh := Nat.le_trans hnext hc
    exact (record_fresh h.announces.placed hfresh hq _).trans (h.unwritten c hfresh)

theorem keeps_of_reachable (hj : journalMachine.Reachable j) : Keeps j := by
  refine hj.invariant ?_ fun _ _ _ h _ hstep => h.step hstep
  rintro ⟨p, transcripts⟩ ⟨hinit, htranscripts⟩
  refine ⟨announces_initial hinit, ?_, fun c _ => congrFun htranscripts c⟩
  obtain ⟨baseLoop, pool, clientLoop, ipPort, serverName, clientName, m, w, -, -, rfl⟩ := hinit
  exact fun c hc => absurd hc (Nat.not_lt_zero c)

/-- Each connection is represented by a session, in which what the connection does meets the
conditions that the process meets. -/
theorem exists_session {C : Session → SessionEvent → Prop} {D : Process → ProcessEvent → Prop}
    (hC : ∀ u m, u.Idles m → C u m)
    (hD : ∀ p e τ v m u, D p e → p.Causes c e τ v m → Represents v u → C u m)
    (hj : journalMachine.ReachableUnder (fun j e => D j.process e) j)
    (hc : c < j.process.nextConn) :
    ∃ s, sessionMachine.ReachableUnder C s ∧
      Represents (j.process.part c (j.transcripts c)) s := by
  induction hj with
  | init hinit =>
    obtain ⟨⟨baseLoop, pool, clientLoop, ipPort, serverName, clientName, m, w, -, -, hp⟩, -⟩ :=
      hinit
    rw [hp] at hc
    exact absurd hc (Nat.not_lt_zero c)
  | @step j k e hj hDe hstep ih =>
    have hkeeps := keeps_of_reachable hj.reachable
    have hann := hkeeps.announces
    obtain ⟨q, hq, rfl⟩ := Halt.within_eq_ok.1 hstep
    rcases old_or_born hann.placed hann.sorted hq hc with hold | ⟨rfl, d, n, m, hm, -⟩
    · obtain ⟨s, hs, hrep⟩ := ih hold
      have hadvances := Advances.step hann hold (hkeeps.shown c hold) hq
      obtain ⟨s', hs', hrep'⟩ := (hadvances.moves (j.transcripts c)).answered hC
        (fun v m u hcauses hu => hD _ _ _ v m u hDe hcauses hu) hrep
      have hloop : (q.conns c).conn.loop_ = (j.process.conns c).conn.loop_ :=
        ((Moves.step hann.placed hq).follows.setup c hold).loop
      rw [← hloop] at hrep'
      exact ⟨s', hs.goOn hs', hrep'⟩
    · obtain ⟨s, hinit, hrep⟩ := (Appears.of_makes hann hm hq).represented
      refine ⟨s, .init hinit, ?_⟩
      have hempty : j.process.record j.process.nextConn e (j.transcripts j.process.nextConn) =
          .empty := by
        rw [record_fresh hann.placed (Nat.le_refl _) hq]
        exact hkeeps.unwritten _ (Nat.le_refl _)
      show Represents (q.part _ (j.process.record _ e _)) s
      rw [hempty]
      exact hrep

/-- A connection whose sends do not overlap is a session whose output is intact. -/
theorem exists_outgoing
    (hj : journalMachine.ReachableUnder (fun j e => SendsSerially c j.process e) j)
    (hc : c < j.process.nextConn) :
    ∃ s, Session.Outgoing s ∧ Represents (j.process.part c (j.transcripts c)) s := by
  have hidle : ∀ u m, u.Idles m → Session.SerialSends u m := by
    rintro u m ⟨rfl, -⟩
    trivial
  obtain ⟨s, hs, hrep⟩ := exists_session hidle
    (fun _ _ _ _ _ _ hD hcauses hu => hD.serialSends hcauses hu) hj hc
  refine ⟨s, ?_, hrep⟩
  refine hs.invariant (I := Session.Outgoing) ?_ ?_
  · rintro _ ⟨loop, name, m, w, rfl⟩
    exact Session.outgoing_initial loop name m w
  · intro s l s' h hC hl
    refine h.step ?_ hl
    rintro message (rfl | rfl)
    · exact hC
    · exact hC

/-- A connection whose reads do not overlap is a session whose input is intact. -/
theorem exists_incoming
    (hj : journalMachine.ReachableUnder (fun j e => ReadsSerially c j.process e) j)
    (hc : c < j.process.nextConn) :
    ∃ s, Session.Incoming s ∧ Represents (j.process.part c (j.transcripts c)) s := by
  have hidle : ∀ u m, u.Idles m → Session.SerialReads u m := by
    rintro u m ⟨rfl, k, hk, hno⟩ htop
    rw [htop] at hk
    obtain rfl := Option.some.inj hk
    cases hno
  obtain ⟨s, hs, hrep⟩ := exists_session hidle
    (fun _ _ _ _ _ _ hD hcauses hu => hD.serialReads hcauses hu) hj hc
  exact ⟨s, Session.incoming_of_serialReads hs, hrep⟩

/-! ## The results -/

/-- A process runs as it does without the transcripts. -/
theorem journal_of_reachable {p : Process} (hp : processMachine.Reachable p) :
    ∃ τ, journalMachine.Reachable ⟨p, τ⟩ := by
  induction hp with
  | init hinit => exact ⟨fun _ => .empty, .init ⟨hinit, rfl⟩⟩
  | @step p q e hp _ hstep ih =>
    obtain ⟨τ, hτ⟩ := ih
    exact ⟨_, .step hτ trivial (Halt.within_eq_ok.2 ⟨q, hstep, rfl⟩)⟩

/-- In every run of a process in which the sends of a connection do not overlap, the messages sent
on it are what its socket has transferred and what its output buffer has left, in this order. -/
theorem accepted_of_sendsSerially
    (hj : journalMachine.ReachableUnder (fun j e => SendsSerially c j.process e) j)
    (hc : c < j.process.nextConn) :
    (j.transcripts c).accepted =
      (j.transcripts c).wire ++ (j.process.part c (j.transcripts c)).unsent := by
  obtain ⟨s, hout, hrep⟩ := exists_outgoing hj hc
  exact hrep.accepted hout

/-- A message sent in the callback that reports the connection up is transferred in part; the rest
goes out with the message that another thread sends. -/
theorem accepted_of_sendsSerially_two : ∃ j : Journal,
    (j.process.nextConn, (j.transcripts 0).wire, (j.transcripts 0).accepted) =
      (1, [1, 2, 3], [1, 2, 3, 4]) ∧ (j.transcripts 0).accepted =
        (j.transcripts 0).wire ++ (j.process.part 0 (j.transcripts 0)).unsent := by
  have hinit : journalMachine.init ⟨initial 1 [0] 2 [] [] [] false false, fun _ => .empty⟩ :=
    ⟨⟨1, [0], 2, [], [], [], false, false, by simp, by simp, rfl⟩, rfl⟩
  obtain ⟨j, hj, hobs⟩ := Machine.exists_of_run
    (C := fun j e => SendsSerially 0 j.process e) hinit
    (l := [.accept 0, .run 1 [], .dequeue 0, .run 0 [], .run 0 [], .keep 0 0,
      .call 0 0 (.send ⟨[1, 2, 3], by decide⟩), .return_ 0, .run 0 [], .run 0 [],
      .transmit 0 2 [0, 0], .dequeue 0, .run 0 [], .call 3 0 (.send ⟨[4], by decide⟩),
      .transmit 0 1 [0]])
    (f := fun j => (j.process.nextConn, (j.transcripts 0).wire, (j.transcripts 0).accepted))
    (a := (1, [1, 2, 3], [1, 2, 3, 4])) (by decide +kernel)
  have hc : 0 < j.process.nextConn := by
    rw [(Prod.mk.inj hobs).1]
    decide
  exact ⟨j, hobs, accepted_of_sendsSerially hj hc⟩

/-- In every run of a process in which the reads of a connection do not overlap, the bytes received
on it are what message callbacks retrieved, what is readable and what a completed read has left to
be counted, in this order. -/
theorem received_of_readsSerially
    (hj : journalMachine.ReachableUnder (fun j e => ReadsSerially c j.process e) j)
    (hc : c < j.process.nextConn) :
    (j.transcripts c).received =
      (j.transcripts c).consumed ++ (j.process.conns c).conn.inputBuffer_.content ++
        (j.process.part c (j.transcripts c)).unhandled := by
  obtain ⟨s, hin, hrep⟩ := exists_incoming hj hc
  exact hrep.received hin

/-- Two reads of a connection of the client, the first consumed in part, while the destructor of
the client closes it. -/
theorem received_of_readsSerially_two : ∃ j : Journal,
    (j.process.nextConn, (j.transcripts 0).received, (j.transcripts 0).consumed) =
      (1, [1, 2, 3, 4], [1, 2]) ∧ (j.transcripts 0).received =
        (j.transcripts 0).consumed ++ (j.process.conns 0).conn.inputBuffer_.content ++
          (j.process.part 0 (j.transcripts 0)).unhandled := by
  have hinit : journalMachine.init ⟨initial 1 [] 0 [] [] [] true false, fun _ => .empty⟩ :=
    ⟨⟨1, [], 0, [], [], [], true, false, by simp, by simp, rfl⟩, rfl⟩
  obtain ⟨j, hj, hobs⟩ := Machine.exists_of_run
    (C := fun j e => ReadsSerially 0 j.process e) hinit
    (l := [.clientCall 2 .connect, .dequeue 0, .run 0 [], .connectDone 0 none, .dequeue 0,
      .run 0 [], .run 0 [], .run 0 [], .run 0 [], .return_ 0, .run 0 [], .run 0 [],
      .receive 0 [1, 2, 3], .dequeue 0, .run 0 [], .run 0 [], .consume 0 0 2, .return_ 0,
      .run 0 [], .run 0 [], .destroyClient 2, .receive 0 [4]])
    (f := fun j => (j.process.nextConn, (j.transcripts 0).received, (j.transcripts 0).consumed))
    (a := (1, [1, 2, 3, 4], [1, 2])) (by decide +kernel)
  have hc : 0 < j.process.nextConn := by
    rw [(Prod.mk.inj hobs).1]
    decide
  exact ⟨j, hobs, received_of_readsSerially hj hc⟩

end Journal

end LibNetToy
