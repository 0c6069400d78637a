import LibNetToy.Net.InputStream

/-!
# Room for reads

A read is given the bytes of `inputBuffer_` behind `writerIndex_`, and the kernel completes a
read of an empty region at once, without a byte.  `readHandler` asks the buffer for as many
bytes as it was given before it starts the next read, so after a read that brought something
there is room.  `startReadInLoop` does not ask: when the message callback left the buffer full
and stopped reading, the read it starts is empty.  The same holds for the read that
`readHandler` starts after an error, when the callbacks that report the end started reading
again.  In all other cases a read has room.
-/

namespace LibNetToy

namespace Buffer

variable {b b' : Buffer} {n : Nat}

/-- `ensureWritableBytes` checks what it promises. -/
theorem le_writableBytes_of_ensure (h : b.ensureWritableBytes n = .ok b') :
    n ≤ b'.writableBytes := by
  unfold ensureWritableBytes at h
  split_ifs at h
  · obtain ⟨b'', -, hrest⟩ := bind_eq_ok.1 h
    obtain ⟨hle, hb'⟩ := check_bind_eq_ok.1 hrest
    obtain rfl := pure_eq_ok.1 hb'
    exact hle
  · obtain ⟨hle, hb'⟩ := check_bind_eq_ok.1 h
    obtain rfl := pure_eq_ok.1 hb'
    exact hle

/-- Asking for nothing changes nothing. -/
theorem eq_of_ensure_zero (h : b.ensureWritableBytes 0 = .ok b') : b' = b := by
  unfold ensureWritableBytes at h
  rw [if_neg (Nat.not_lt_zero _)] at h
  obtain ⟨b'', hb'', hrest⟩ := bind_eq_ok.1 h
  obtain ⟨-, hb'⟩ := check_bind_eq_ok.1 hrest
  obtain rfl := pure_eq_ok.1 hb''
  exact pure_eq_ok.1 hb'

end Buffer

namespace Session

open TcpConnection

/-! ## The property -/

/-- The reads that were started have room, and a read that was completed brought a byte. -/
structure ReadsHaveRoom (s : Session) : Prop where
  outstanding : ∀ r ∈ s.conn.socket_.reads, 0 < r.len
  completed : ∀ n, .readHandler none n ∈ s.tasks → 0 < n

/-- The next task does not start a read without asking for a byte, unless there is room. -/
def StartsWithRoom (s : Session) : SessionEvent → Prop
  | .run =>
    (s.stack.head? = some .startReadInLoop → s.conn.reading_ = false →
      0 < s.conn.inputBuffer_.writableBytes) ∧
    (s.stack.head? = some (.readAgain 0) → s.conn.reading_ = true →
      0 < s.conn.inputBuffer_.writableBytes)
  | _ => True

instance (s : Session) (l : SessionEvent) : Decidable (StartsWithRoom s l) :=
  match l with
  | .run => inferInstanceAs (Decidable ((_ → _ → _) ∧ (_ → _ → _)))
  | .call _ | .callFrom _ | .transmit _ _ | .sendFails _ | .dequeue | .return_ | .destroy _
  | .consume _ | .receive _ | .readFails _ => isTrue trivial

/-! ## The invariant -/

/-- The reads have room, and the buffer has room for the first of them. -/
structure Roomy (s : Session) : Prop where
  room : ReadsHaveRoom s
  connecting : s.conn.state_ = .kConnecting →
    s.conn.socket_.reads = [] ∧ 0 < s.conn.inputBuffer_.writableBytes

variable {s s' : Session}

/-- The invariant speaks about the reads, and about the buffer of a connection that is not yet
established. -/
theorem Roomy.frame (h : Roomy s) (hreads : s'.conn.socket_.reads = s.conn.socket_.reads)
    (htasks : ∀ n, .readHandler none n ∈ s'.tasks → .readHandler none n ∈ s.tasks)
    (hconnecting : s'.conn.state_ = .kConnecting →
      s.conn.state_ = .kConnecting ∧ s'.conn.inputBuffer_ = s.conn.inputBuffer_) : Roomy s' := by
  refine ⟨⟨?_, ?_⟩, ?_⟩
  · rw [hreads]
    exact h.room.outstanding
  · intro n hn
    exact h.room.completed n (htasks n hn)
  · intro hnew
    obtain ⟨hold, hbuffer⟩ := hconnecting hnew
    rw [hreads, hbuffer]
    exact h.connecting hold

/-- A read that a task starts has room. -/
theorem Roomy.started (h : Roomy s) (hC : StartsWithRoom s .run) {t : ConnTask}
    {rest : List ConnTask} {eff : Effect} (hs : s.stack = t :: rest)
    (he : s.conn.exec (some s.conn.loop_) t = .ok eff) :
    ∀ r ∈ eff.conn.socket_.reads, 0 < r.len := by
  have hhead : s.stack.head? = some t := by
    rw [hs]
    rfl
  obtain ⟨hstart, hagain⟩ := hC
  rcases exec_reads he with hsame | ⟨happended, hcases⟩
  · rw [hsame]
    exact h.room.outstanding
  · have hroom : 0 < eff.conn.inputBuffer_.writableBytes := by
      rcases hcases with ⟨-, hstate, hb⟩ | ⟨rfl, hreading, hb⟩ | ⟨n, rfl, hreading, hb⟩
      · rw [hb]
        exact (h.connecting hstate).2
      · rw [hb]
        exact hstart hhead hreading
      · -- after a read that brought something the buffer was asked for room
        rcases Nat.eq_zero_or_pos n with rfl | hn
        · rw [Buffer.eq_of_ensure_zero hb]
          exact hagain hhead hreading
        · exact Nat.lt_of_lt_of_le hn (Buffer.le_writableBytes_of_ensure hb)
    intro r hr
    rw [happended] at hr
    rcases List.mem_append.1 hr with hr | hr
    · exact h.room.outstanding r hr
    · rw [List.mem_singleton.1 hr]
      exact hroom

/-- Running a task. -/
theorem Roomy.run (h : Roomy s) (hclosing : Closing s) (hC : StartsWithRoom s .run)
    {t : ConnTask} {rest : List ConnTask} {eff : Effect} (hs : s.stack = t :: rest)
    (he : s.conn.exec (some s.conn.loop_) t = .ok eff) :
    Roomy ((noteTask { s with stack := rest } t).apply eff) := by
  refine ⟨⟨h.started hC hs he, ?_⟩, ?_⟩
  · intro n hn
    apply h.room.completed n
    have hrest := handler_mem_tasks rfl (exec_tasks he) hn
    have hsame : (noteTask { s with stack := rest } t).tasks = { s with stack := rest }.tasks := by
      simp [tasks]
    rw [hsame] at hrest
    rw [tasks_cons hs]
    exact List.mem_cons_of_mem _ hrest
  · intro hnew
    refine absurd hnew (exec_connecting he fun hstate => ?_)
    have hstack := hclosing.connecting hstate
    rw [hs] at hstack
    exact (List.cons.inj hstack).1

/-- A call of the connection by the user. -/
theorem Roomy.call (h : Roomy s) {x : ConnCall} {here : Option LoopId} {eff : Effect}
    (he : s.conn.call here x = .ok eff) : Roomy ((s.noteCall x).apply eff) := by
  obtain ⟨hbuffer, hreads, -⟩ := call_input he
  refine h.frame hreads ?_ fun hnew => ⟨(call_connecting he).1 hnew, hbuffer⟩
  intro n hn
  have hmem := handler_mem_tasks rfl (call_tasks he) hn
  have hsame : (s.noteCall x).tasks = s.tasks := by
    simp [tasks]
  rw [hsame] at hmem
  exact hmem

/-- A read that is completed is no longer outstanding, and a read with room brought a byte. -/
theorem Roomy.complete (h : Roomy s) {c : TcpConnection} {t : ConnTask} {region : Region}
    {rest : List Region} (hreads : s.conn.socket_.reads = region :: rest)
    (hrest : c.socket_.reads = rest) (hstate : c.state_ = s.conn.state_)
    (hbrings : ∀ n, t = .readHandler none n → 0 < region.len → 0 < n) :
    Roomy (s.complete (c, t)) := by
  refine ⟨⟨?_, ?_⟩, ?_⟩
  · intro r hr
    apply h.room.outstanding
    rw [hreads]
    have hr : r ∈ c.socket_.reads := hr
    rw [hrest] at hr
    exact List.mem_cons_of_mem _ hr
  · intro n hn
    rw [tasks_complete] at hn
    rcases List.mem_append.1 hn with hn | hn
    · exact h.room.completed n hn
    · refine hbrings n (List.mem_singleton.1 hn).symm (h.room.outstanding region ?_)
      rw [hreads]
      exact List.mem_cons_self ..
  · intro hnew
    have hnone := (h.connecting (hstate.symm.trans hnew)).1
    rw [hreads] at hnone
    cases hnone

/-- Every event keeps the reads roomy. -/
theorem Roomy.step (h : Roomy s) (hclosing : Closing s) {l : SessionEvent}
    (hC : StartsWithRoom s l) (hl : Session.step l s = .ok s') : Roomy s' := by
  cases l with
  | dequeue =>
    obtain ⟨f, q, hs, hq, rfl⟩ := dequeue_eq_ok.1 hl
    refine h.frame rfl ?_ fun hstate => ⟨hstate, rfl⟩
    intro n hn
    rw [tasks_dequeue hs hq] at hn
    exact hn
  | run =>
    obtain ⟨t, rest, e, hs, -, he, rfl⟩ := run_eq_ok.1 hl
    exact h.run hclosing hC hs he
  | return_ =>
    obtain ⟨k, rest, hs, rfl⟩ := return_eq_ok.1 hl
    refine h.frame rfl ?_ fun hstate => ⟨hstate, rfl⟩
    intro n hn
    rw [tasks_cons hs]
    exact List.mem_cons_of_mem _ hn
  | call x =>
    obtain ⟨-, e, he, rfl⟩ := call_eq_ok.1 hl
    exact h.call he
  | callFrom x =>
    obtain ⟨e, he, rfl⟩ := callFrom_eq_ok.1 hl
    exact h.call he
  | destroy inline =>
    rcases destroy_eq_ok.1 hl with ⟨-, -, rfl⟩ | ⟨-, rfl⟩
    · exact h.frame rfl (by simp [tasks]) fun hstate => ⟨hstate, rfl⟩
    · exact h.frame rfl (by simp [tasks, Functor.body]) fun hstate => ⟨hstate, rfl⟩
  | consume len =>
    obtain ⟨⟨hhead, -⟩, b, -, rfl⟩ := consume_eq_ok.1 hl
    refine h.frame rfl (fun _ hn => hn) fun hstate => ?_
    rw [hclosing.connecting hstate] at hhead
    cases hhead
  | receive data =>
    obtain ⟨r, hr, rfl⟩ := receive_eq_ok.1 hl
    obtain ⟨region, rest, hreads, -, hbrings, rfl⟩ := receive_eq_some hr
    have hcomplete : Roomy (s.complete ({ s.conn with
        socket_ := { s.conn.socket_ with reads := rest }
        inputBuffer_ := if region.size = s.conn.inputBuffer_.buffer_.length
          then s.conn.inputBuffer_.store region.off data else s.conn.inputBuffer_ },
        .readHandler none data.length)) := by
      refine h.complete hreads rfl rfl ?_
      intro n hn
      obtain ⟨-, rfl⟩ := ConnTask.readHandler.inj hn
      exact hbrings
    exact hcomplete.frame rfl (fun _ hn => hn) fun hstate => ⟨hstate, rfl⟩
  | readFails e =>
    obtain ⟨r, hr, rfl⟩ := readFails_eq_ok.1 hl
    obtain ⟨region, rest, hreads, rfl⟩ := readFails_eq_some hr
    refine h.complete hreads rfl rfl ?_
    intro n hn
    cases hn
  | transmit k stale =>
    obtain ⟨r, hr, rfl⟩ := transmit_eq_ok.1 hl
    obtain ⟨region, rest, -, -, -, rfl⟩ := transmit_eq_some hr
    refine h.frame rfl ?_ fun hstate => ⟨hstate, rfl⟩
    intro n hn
    have hn : ConnTask.readHandler none n ∈ s.tasks ++ [.writeHandler none k] := by
      rw [← tasks_complete s (_, .writeHandler none k)]
      exact hn
    simpa using hn
  | sendFails e =>
    obtain ⟨r, hr, rfl⟩ := sendFails_eq_ok.1 hl
    obtain ⟨region, rest, -, rfl⟩ := sendFails_eq_some hr
    refine h.frame rfl ?_ fun hstate => ⟨hstate, rfl⟩
    intro n hn
    rw [tasks_complete] at hn
    simpa using hn

theorem roomy_initial (loop : LoopId) (name : List Char) (m w : Bool) :
    Roomy (Session.initial loop name m w) := by
  refine ⟨⟨?_, ?_⟩, ?_⟩
  · intro r hr
    cases hr
  · intro n hn
    simp [tasks, initial] at hn
  · intro _
    refine ⟨rfl, ?_⟩
    show 0 < Buffer.initial.writableBytes
    rw [Buffer.writableBytes_eq Buffer.initial_valid, Buffer.initial, List.length_replicate]
    decide

/-- The first read that is started without room where the code does not ask for it is empty. -/
theorem startsWithRoom_of_room (h : ReadsHaveRoom s') {l : SessionEvent}
    (hl : Session.step l s = .ok s') : StartsWithRoom s l := by
  cases l with
  | run =>
    obtain ⟨t, rest, e, hs, -, he, rfl⟩ := run_eq_ok.1 hl
    constructor
    · intro hhead hreading
      rw [hs] at hhead
      obtain rfl := Option.some.inj hhead
      obtain rfl := pure_eq_ok.1 he
      apply h.outstanding s.conn.inputBuffer_.writeRegion
      rw [apply_conn, startReadInLoop, hreading]
      exact List.mem_append_right _ (List.mem_singleton_self _)
    · intro hhead hreading
      rw [hs] at hhead
      obtain rfl := Option.some.inj hhead
      rcases readAgain_eq_ok.1 he with ⟨-, b, hb, rfl⟩ | ⟨hstopped, -⟩
      · obtain rfl := Buffer.eq_of_ensure_zero hb
        apply h.outstanding s.conn.inputBuffer_.writeRegion
        exact List.mem_append_right _ (List.mem_singleton_self _)
      · rw [hreading] at hstopped
        cases hstopped
  | _ => trivial

/-! ## The results -/

/-- As long as every read that is started without asking for room finds room, every read has room
and brings at least one byte; and the first step that does not find room starts an empty read. -/
theorem readsHaveRoom_iff {s : Session} (hs : sessionMachine.ReachableUnder StartsWithRoom s) :
    ReadsHaveRoom s ∧ ∀ l s', sessionMachine.step l s = .ok s' →
      (ReadsHaveRoom s' ↔ StartsWithRoom s l) := by
  have hroomy : Closing s ∧ Roomy s := by
    refine hs.invariant (I := fun s => Closing s ∧ Roomy s) ?_ ?_
    · rintro _ ⟨loop, name, m, w, rfl⟩
      exact ⟨closing_initial loop name m w, roomy_initial loop name m w⟩
    · rintro s l s' ⟨hclosing, hroomy⟩ hC hl
      exact ⟨hclosing.step hl, hroomy.step hclosing hC hl⟩
  obtain ⟨hclosing, hroomy⟩ := hroomy
  refine ⟨hroomy.room, ?_⟩
  intro l s' hl
  constructor
  · intro h
    exact startsWithRoom_of_room h hl
  · intro hC
    exact (hroomy.step hclosing hC hl).room

/-- A message callback that leaves everything in the buffer stops reading and reading is started
again while there is room. -/
theorem readsHaveRoom_paused : ∃ s, s.conn.socket_.reads.map Region.len = [4093] ∧
    ReadsHaveRoom s := by
  have hinit : sessionMachine.init (Session.initial 0 [] true false) := ⟨_, _, _, _, rfl⟩
  obtain ⟨s, hs, hobs⟩ := Machine.exists_of_run (C := StartsWithRoom) hinit
    (l := [.run, .run, .return_, .run, .run, .receive [1, 2, 3], .dequeue, .run, .run,
      .call .stopRead, .run, .return_, .run, .run, .callFrom .startRead, .dequeue, .run])
    (f := fun s => s.conn.socket_.reads.map Region.len) (a := [4093]) (by decide +kernel)
  exact ⟨s, hobs, (readsHaveRoom_iff hs).1⟩

/-- The message callback stops reading and leaves a full buffer; the read that `startRead`
starts is given an empty region. -/
theorem not_readsHaveRoom : ¬ ∀ s, sessionMachine.Reachable s → ReadsHaveRoom s := by
  intro hall
  have hinit : sessionMachine.init (Session.initial 0 [] true false) := ⟨_, _, _, _, rfl⟩
  obtain ⟨s, hs, hobs⟩ := Machine.exists_of_run (C := fun _ _ => True) hinit
    (l := [.run, .run, .return_, .run, .run, .receive (List.replicate 4096 7), .dequeue, .run,
      .run, .call .stopRead, .run, .return_, .run, .run, .callFrom .startRead, .dequeue, .run])
    (f := fun s => s.conn.socket_.reads) (a := [⟨4104, 4104, 0⟩]) (by decide +kernel)
  have hroom := (hall s hs).outstanding ⟨4104, 4104, 0⟩
  rw [hobs] at hroom
  exact absurd (hroom (List.mem_singleton_self _)) (Nat.lt_irrefl 0)

end Session

end LibNetToy
