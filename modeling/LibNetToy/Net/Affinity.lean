import LibNetToy.Net.Faults
import LibNetToy.Net.Transitions

/-!
# Where work is done

Every loop has objects of its own: a connection, the connector, the client and the server are
used on the thread of their loop.  In every run each pending work item is on the stack or in the
queue of the loop it belongs to, and it speaks about a connection that was made by the object it
is for.
-/

namespace LibNetToy

/-- The connection a work item is about. -/
def Work.connId : Work → Option ConnId
  | .conn c _ => some c
  | .bound c _ => some c
  | .setCloseCallback c => some c
  | .server (.removeConnection c) => some c
  | .server (.removeConnectionInLoop c) => some c
  | .client (.removeConnection c) => some c
  | _ => none

/-- The object that has made the connection of the work item. -/
def Work.maker : Work → Option CloseCallback
  | .setCloseCallback _ => some .client
  | .server (.removeConnection _) => some .server
  | .server (.removeConnectionInLoop _) => some .server
  | .client (.removeConnection _) => some .client
  | _ => none

namespace Process

/-- The loop on whose thread the work item has to be done. -/
def place (p : Process) : Work → Option LoopId
  | .conn _ .release => none
  | .conn c _ => some (p.conns c).conn.loop_
  | .bound c _ => some (p.conns c).conn.loop_
  | .setCloseCallback _ => some p.client.loop_
  | .server (.removeConnection _) => none
  | .server _ => some p.server.loop_
  | .client .destroyed => none
  | .client _ => some p.client.loop_
  | .connector _ => some p.connector.loop_
  | .handleTimer _ _ => some p.connector.loop_
  | .eraseTimer _ => some p.connector.loop_

/-- The work item is at the right place and about a connection that was made by the right
object. -/
structure Belongs (p : Process) (e : ThreadId × Work) : Prop where
  made : ∀ c ∈ e.2.connId, c < p.nextConn
  maker : ∀ c ∈ e.2.connId, ∀ m ∈ e.2.maker, (p.conns c).closeCallback_ = m
  place : ∀ l ∈ p.place e.2, e.1 = l

/-- Everything pending is at its place, and so is everything that can become pending. -/
structure Placed (p : Process) : Prop where
  stack : ∀ e ∈ p.stack, p.Belongs e
  queue : ∀ e ∈ p.queue, p.Belongs e
  entries : ∀ e ∈ p.server.connections_, ∀ c ∈ e.2,
    c < p.nextConn ∧ (p.conns c).closeCallback_ = .server
  connection : ∀ c ∈ p.client.connection_, c < p.nextConn ∧ (p.conns c).closeCallback_ = .client
  clientLoop : ∀ c, (p.conns c).closeCallback_ = .client → (p.conns c).conn.loop_ = p.client.loop_
  connectorLoop : p.connector.loop_ = p.client.loop_
  fresh : ∀ c, p.nextConn ≤ c → (p.conns c).refs = 0 ∧ (p.conns c).conn.socket_.reads = [] ∧
    (p.conns c).conn.socket_.sends = []

/-- What stays as it is in every step: the loops, and how the connections were made. -/
structure Follows (p q : Process) : Prop where
  nextConn : p.nextConn ≤ q.nextConn
  setup : ∀ c < p.nextConn, TcpConnection.SameSetup (p.conns c).conn (q.conns c).conn
  maker : ∀ c < p.nextConn, (q.conns c).closeCallback_ = (p.conns c).closeCallback_
  server : q.server.loop_ = p.server.loop_
  client : q.client.loop_ = p.client.loop_
  connector : q.connector.loop_ = p.connector.loop_
  pool : q.server.pool = p.server.pool

variable {p q r : Process}

/-- Every process follows itself. -/
theorem Follows.refl (p : Process) : Follows p p :=
  ⟨Nat.le_refl _, fun _ _ => .refl _, fun _ _ => rfl, rfl, rfl, rfl, rfl⟩

/-- What follows a process that follows is one that follows. -/
theorem Follows.trans (hpq : Follows p q) (hqr : Follows q r) : Follows p r := by
  constructor
  · exact Nat.le_trans hpq.nextConn hqr.nextConn
  · intro c hc
    have hp := hpq.setup c hc
    have hq := hqr.setup c (Nat.lt_of_lt_of_le hc hpq.nextConn)
    exact ⟨hq.loop.trans hp.loop, hq.name.trans hp.name,
      hq.messageCallback.trans hp.messageCallback,
      hq.writeCompleteCallback.trans hp.writeCompleteCallback⟩
  · intro c hc
    exact (hqr.maker c (Nat.lt_of_lt_of_le hc hpq.nextConn)).trans (hpq.maker c hc)
  · exact hqr.server.trans hpq.server
  · exact hqr.client.trans hpq.client
  · exact hqr.connector.trans hpq.connector
  · exact hqr.pool.trans hpq.pool

/-- Connections, and the loops of the objects, decide where a work item belongs. -/
theorem Belongs.follows {e : ThreadId × Work} (h : p.Belongs e) (hf : Follows p q) :
    q.Belongs e := by
  constructor
  · intro c hc
    exact Nat.lt_of_lt_of_le (h.made c hc) hf.nextConn
  · intro c hc m hm
    rw [hf.maker c (h.made c hc)]
    exact h.maker c hc m hm
  · have hplace : q.place e.2 = p.place e.2 := by
      have hloop : ∀ c ∈ e.2.connId, (q.conns c).conn.loop_ = (p.conns c).conn.loop_ :=
        fun c hc => (hf.setup c (h.made c hc)).loop
      generalize e.2 = w at hloop
      unfold Process.place
      split <;>
        first
        | rfl
        | rw [hloop _ rfl]
        | rw [hf.server]
        | rw [hf.client]
        | rw [hf.connector]
    rw [hplace]
    exact h.place

/-! ## Parts of steps -/

/-- New work that belongs where it is put. -/
theorem Placed.schedule {t : ThreadId} {calls : List Work} {posts : List (LoopId × Work)}
    (h : Placed p) (hcalls : ∀ w ∈ calls, p.Belongs (t, w)) (hposts : ∀ e ∈ posts, p.Belongs e) :
    Placed (p.schedule t calls posts) := by
  refine ⟨?_, ?_, h.entries, h.connection, h.clientLoop, h.connectorLoop, h.fresh⟩
  · intro e he
    rcases List.mem_append.1 he with he | he
    · obtain ⟨w, hw, rfl⟩ := List.mem_map.1 he
      exact ⟨(hcalls w hw).made, (hcalls w hw).maker, (hcalls w hw).place⟩
    · exact ⟨(h.stack e he).made, (h.stack e he).maker, (h.stack e he).place⟩
  · intro e he
    rcases List.mem_append.1 he with he | he
    · exact ⟨(h.queue e he).made, (h.queue e he).maker, (h.queue e he).place⟩
    · exact ⟨(hposts e he).made, (hposts e he).maker, (hposts e he).place⟩

/-- Work that is put in changes no object. -/
theorem Follows.schedule {t : ThreadId} {calls : List Work} {posts : List (LoopId × Work)} :
    Follows p (p.schedule t calls posts) :=
  ⟨Nat.le_refl _, fun _ _ => .refl _, fun _ _ => rfl, rfl, rfl, rfl, rfl⟩

/-- The work item that a thread takes from its stack belongs to it. -/
theorem Placed.pop {t : ThreadId} {w : Work} {rest : List (ThreadId × Work)} (h : Placed p)
    (htake : Keyed.takeFirst t p.stack = some (w, rest)) :
    Placed { p with stack := rest } ∧ ({ p with stack := rest } : Process).Belongs (t, w) := by
  have hmem := fun e => Keyed.mem_of_takeFirst (e := e) htake
  have hhead := h.stack (t, w) ((hmem _).2 (Or.inl rfl))
  refine ⟨⟨?_, ?_, h.entries, h.connection, h.clientLoop, h.connectorLoop, h.fresh⟩,
    hhead.made, hhead.maker, hhead.place⟩
  · intro e he
    have hb := h.stack e ((hmem e).2 (Or.inr he))
    exact ⟨hb.made, hb.maker, hb.place⟩
  · intro e he
    exact ⟨(h.queue e he).made, (h.queue e he).maker, (h.queue e he).place⟩

/-- A connection that was made changes, but not how it was made. -/
theorem Follows.update {c : ConnId} {f : Connection → Connection}
    (hsetup : TcpConnection.SameSetup (p.conns c).conn (f (p.conns c)).conn)
    (hmaker : (f (p.conns c)).closeCallback_ = (p.conns c).closeCallback_) :
    Follows p (p.update c f) := by
  refine ⟨Nat.le_refl _, ?_, ?_, rfl, rfl, rfl, rfl⟩
  · intro d _
    by_cases hd : d = c
    · subst hd
      simpa [Process.update] using hsetup
    · simpa [Process.update, hd] using TcpConnection.SameSetup.refl _
  · intro d _
    by_cases hd : d = c
    · subst hd
      simpa [Process.update] using hmaker
    · simp [Process.update, hd]

/-- A connection that keeps its loop and its maker changes. -/
theorem Placed.update {c : ConnId} {f : Connection → Connection} (h : Placed p)
    (hc : c < p.nextConn)
    (hsetup : TcpConnection.SameSetup (p.conns c).conn (f (p.conns c)).conn)
    (hmaker : (f (p.conns c)).closeCallback_ = (p.conns c).closeCallback_) :
    Placed (p.update c f) := by
  have hf : Follows p (p.update c f) := Follows.update hsetup hmaker
  have hother : ∀ d, d ≠ c → (p.update c f).conns d = p.conns d := by
    intro d hd
    simp [Process.update, hd]
  refine ⟨?_, ?_, ?_, ?_, ?_, h.connectorLoop, ?_⟩
  · intro e he
    exact (h.stack e he).follows hf
  · intro e he
    exact (h.queue e he).follows hf
  · intro e he d hd
    obtain ⟨hlt, hm⟩ := h.entries e he d hd
    exact ⟨hlt, (hf.maker d hlt).trans hm⟩
  · intro d hd
    obtain ⟨hlt, hm⟩ := h.connection d hd
    exact ⟨hlt, (hf.maker d hlt).trans hm⟩
  · intro d hd
    by_cases hdc : d = c
    · subst hdc
      rw [hf.maker d hc] at hd
      exact (hf.setup d hc).loop.trans (h.clientLoop d hd)
    · rw [hother d hdc] at hd ⊢
      exact h.clientLoop d hd
  · intro d hd
    have hne : d ≠ c := by
      rintro rfl
      exact absurd hc (Nat.not_lt.2 hd)
    rw [hother d hne]
    exact h.fresh d hd

/-- The parts of a process that do not matter change. -/
theorem Placed.same (h : Placed p) (hstack : q.stack = p.stack) (hqueue : q.queue = p.queue)
    (hf : Follows p q) (hconns : q.conns = p.conns) (hnext : q.nextConn = p.nextConn)
    (hentries : ∀ e ∈ q.server.connections_, ∀ c ∈ e.2,
      ∃ k, (k, some c) ∈ p.server.connections_)
    (hconnection : ∀ c ∈ q.client.connection_, p.client.connection_ = some c) : Placed q := by
  refine ⟨?_, ?_, ?_, ?_, ?_, ?_, ?_⟩
  · intro e he
    exact (h.stack e (hstack ▸ he)).follows hf
  · intro e he
    exact (h.queue e (hqueue ▸ he)).follows hf
  · intro e he c hc
    obtain ⟨k, hk⟩ := hentries e he c hc
    rw [hconns, hnext]
    exact h.entries _ hk c rfl
  · intro c hc
    rw [hconns, hnext]
    exact h.connection c (hconnection c hc)
  · rw [hconns, hf.client]
    exact h.clientLoop
  · rw [hf.connector, hf.client]
    exact h.connectorLoop
  · rw [hconns, hnext]
    exact h.fresh

/-! ## Steps -/

/-- A step that keeps everything placed. -/
structure Moves (p q : Process) : Prop where
  placed : Placed q
  follows : Follows p q

/-- Two moves after each other are a move. -/
theorem Moves.trans (hpq : Moves p q) (hqr : Moves q r) : Moves p r :=
  ⟨hqr.placed, hpq.follows.trans hqr.follows⟩

/-- Work is put in where it belongs. -/
theorem Moves.schedule {t : ThreadId} {calls : List Work} {posts : List (LoopId × Work)}
    (h : Placed p) (hcalls : ∀ w ∈ calls, p.Belongs (t, w)) (hposts : ∀ e ∈ posts, p.Belongs e) :
    Moves p (p.schedule t calls posts) :=
  ⟨h.schedule hcalls hposts, .schedule⟩

/-- A connection that keeps its loop and its maker changes. -/
theorem Moves.update {c : ConnId} {f : Connection → Connection} (h : Placed p)
    (hc : c < p.nextConn)
    (hsetup : TcpConnection.SameSetup (p.conns c).conn (f (p.conns c)).conn)
    (hmaker : (f (p.conns c)).closeCallback_ = (p.conns c).closeCallback_) :
    Moves p (p.update c f) :=
  ⟨h.update hc hsetup hmaker, .update hsetup hmaker⟩

/-- A pointer to a connection may be given up on any thread. -/
theorem belongs_release {t : ThreadId} {c : ConnId} (hc : c < p.nextConn) :
    p.Belongs (t, .conn c .release) := by
  refine ⟨?_, ?_, nofun⟩
  · rintro d ⟨⟩
    exact hc
  · nofun

/-- A task of a connection belongs on the thread of its loop. -/
theorem belongs_conn {t : ThreadId} {c : ConnId} {k : ConnTask} (hc : c < p.nextConn)
    (ht : t = (p.conns c).conn.loop_) : p.Belongs (t, .conn c k) := by
  refine ⟨?_, nofun, ?_⟩
  · rintro d ⟨⟩
    exact hc
  · intro l hl
    unfold Process.place at hl
    split at hl <;> simp_all

/-- A functor of a connection belongs on the thread of its loop. -/
theorem belongs_bound {t : ThreadId} {c : ConnId} {k : ConnTask} (hc : c < p.nextConn)
    (ht : t = (p.conns c).conn.loop_) : p.Belongs (t, .bound c k) := by
  refine ⟨?_, nofun, ?_⟩
  · rintro d ⟨⟩
    exact hc
  · rintro l ⟨⟩
    exact ht

/-- Work that is about no connection belongs to the thread of its loop. -/
theorem belongs_other {t : ThreadId} {w : Work} (hw : w.connId = none)
    (ht : ∀ l ∈ p.place w, t = l) : p.Belongs (t, w) := by
  refine ⟨?_, ?_, ht⟩
  · intro c hc
    rw [hw] at hc
    cases hc
  · intro c hc
    rw [hw] at hc
    cases hc

/-- What `runInLoop` calls or posts is at the place of its loop. -/
theorem belongs_callIf {t l : LoopId} {w : Work} (h : p.Belongs (l, w)) :
    ∀ w' ∈ callIf t l w, p.Belongs (t, w') := by
  intro w' hw
  unfold callIf at hw
  split_ifs at hw with hl
  · rw [List.mem_singleton.1 hw, hl]
    exact h
  · cases hw

/-- What is posted belongs to the loop it is posted to. -/
theorem belongs_postIf {t l : LoopId} {w : Work} (h : p.Belongs (l, w)) :
    ∀ e ∈ postIf t l w, p.Belongs e := by
  intro e he
  rw [mem_postIf he]
  exact h

/-- The pointers that are given up belong to connections that were made. -/
theorem belongs_releases {t : ThreadId} {cs : List ConnId} (h : ∀ c ∈ cs, c < p.nextConn) :
    ∀ w ∈ releases cs, p.Belongs (t, w) := by
  intro w hw
  obtain ⟨c, hc, rfl⟩ := mem_releases hw
  exact belongs_release (h c hc)

/-- Noting a task leaves the connection alone. -/
theorem note_conn (r : Connection) (k : ConnTask) : (r.note k).conn = r.conn := by
  unfold Connection.note
  split <;> rfl

/-- Noting a task leaves the maker of the connection alone. -/
theorem note_maker (r : Connection) (k : ConnTask) :
    (r.note k).closeCallback_ = r.closeCallback_ := by
  unfold Connection.note
  split <;> rfl

/-- The effect of a member function that runs on the thread of the loop, or makes no calls. -/
theorem Moves.applyEffect {t : ThreadId} {c : ConnId} {e : Effect} {after : List Work}
    (h : Placed p) (hc : c < p.nextConn) (hsetup : TcpConnection.SameSetup (p.conns c).conn e.conn)
    (ht : e.calls ≠ [] → t = (p.conns c).conn.loop_) (hafter : ∀ w ∈ after, p.Belongs (t, w)) :
    Moves p (p.applyEffect t c e after) := by
  have hupdate : Moves p (p.update c fun r => { r with conn := e.conn }) :=
    Moves.update h hc hsetup rfl
  have hconn : ((p.update c fun r => { r with conn := e.conn }).conns c).conn = e.conn := by
    simp [Process.update]
  refine hupdate.trans (Moves.schedule hupdate.placed ?_ ?_)
  · intro w hw
    rcases List.mem_append.1 hw with hw | hw
    · obtain ⟨k, hk, rfl⟩ := List.mem_map.1 hw
      refine belongs_conn hc ?_
      rw [hconn, hsetup.loop]
      exact ht (List.ne_nil_of_mem hk)
    · exact (hafter w hw).follows hupdate.follows
  · intro e' he
    obtain ⟨f, -, rfl⟩ := List.mem_map.1 he
    cases f with
    | raw k => exact belongs_conn hc (by rw [hconn])
    | bound k => exact belongs_bound hc (by rw [hconn])

/-- A member function runs on the thread of its loop. -/
theorem Moves.execConn {t : ThreadId} {c : ConnId} {k : ConnTask} {after : List Work}
    (h : Placed p) (hc : c < p.nextConn) (ht : t = (p.conns c).conn.loop_)
    (hafter : ∀ w ∈ after, p.Belongs (t, w)) (hexec : p.execConn t c k after = .ok q) :
    Moves p q := by
  obtain ⟨-, e, he, rfl⟩ := execConn_eq_ok.1 hexec
  have hconn : ((p.conns c).note k).conn = (p.conns c).conn := note_conn _ _
  have hnote : Moves p (p.update c fun r => r.note k) := by
    refine Moves.update h hc ?_ (note_maker _ _)
    rw [hconn]
    exact .refl _
  have hsame : ((p.update c fun r => r.note k).conns c).conn = (p.conns c).conn := by
    simp [Process.update, hconn]
  refine hnote.trans (Moves.applyEffect hnote.placed hc ?_ ?_ ?_)
  · rw [hsame]
    exact TcpConnection.exec_setup he
  · intro _
    rw [hsame]
    exact ht
  · intro w hw
    exact (hafter w hw).follows hnote.follows

/-- The server and the client change in other respects than their loops. -/
theorem Moves.objects {s : TcpServer} {u : TcpClient} {f : LoopId → Bool} (h : Placed p)
    (hs : s.loop_ = p.server.loop_ ∧ s.pool = p.server.pool) (hu : u.loop_ = p.client.loop_)
    (hentries : ∀ e ∈ s.connections_, ∀ c ∈ e.2, ∃ k, (k, some c) ∈ p.server.connections_)
    (hconnection : ∀ c ∈ u.connection_, p.client.connection_ = some c) :
    Moves p { p with server := s, client := u, stopped := f } := by
  have hf : Follows p { p with server := s, client := u, stopped := f } :=
    ⟨Nat.le_refl _, fun _ _ => .refl _, fun _ _ => rfl, hs.1, hu, rfl, hs.2⟩
  exact ⟨h.same rfl rfl hf rfl rfl hentries hconnection, hf⟩

/-- The entries stay. -/
theorem entries_self (p : Process) : ∀ e ∈ p.server.connections_, ∀ c ∈ e.2,
    ∃ k, (k, some c) ∈ p.server.connections_ := by
  rintro ⟨k, v⟩ he c rfl
  exact ⟨k, he⟩

/-- The destructor of the client sets the close callback on the loop of the connection. -/
theorem Moves.setCloseCallback {t : ThreadId} {c : ConnId} (h : Placed p)
    (hconnection : p.client.connection_ = some c) :
    Moves p (TcpClient.setCloseCallback p t c) := by
  obtain ⟨hc, hmaker⟩ := h.connection c hconnection
  have hlife : Moves p { p with client := { p.client with life := .destructing } } :=
    Moves.objects h ⟨rfl, rfl⟩ rfl (entries_self p) fun _ hd => hd
  unfold TcpClient.setCloseCallback
  split_ifs with ht
  · exact hlife.trans (Moves.update hlife.placed hc (.refl _) hmaker.symm)
  · refine hlife.trans (Moves.schedule hlife.placed nofun ?_)
    intro e he
    obtain rfl := List.mem_singleton.1 he
    refine ⟨?_, ?_, ?_⟩
    · rintro d ⟨⟩
      exact hc
    · rintro d ⟨⟩ m ⟨⟩
      exact hmaker
    · rintro l ⟨⟩
      rfl

/-- The connector, its timers and sockets change. -/
theorem Moves.attempts {c : Connector} {u : TimerQueue} {k : Sockets} (h : Placed p)
    (hc : c.loop_ = p.connector.loop_) :
    Moves p { p with connector := c, timers := u, sockets := k } := by
  have hf : Follows p { p with connector := c, timers := u, sockets := k } :=
    ⟨Nat.le_refl _, fun _ _ => .refl _, fun _ _ => rfl, rfl, rfl, hc, rfl⟩
  exact ⟨h.same rfl rfl hf rfl rfl (entries_self p) fun _ hd => hd, hf⟩

/-- A connection is made. -/
theorem Moves.make {conn : TcpConnection} {m : CloseCallback} {k : Option SockId}
    {s : TcpServer} {u : TcpClient} (h : Placed p)
    (hloop : m = .client → conn.loop_ = p.client.loop_)
    (hs : s.loop_ = p.server.loop_ ∧ s.pool = p.server.pool) (hu : u.loop_ = p.client.loop_)
    (hentries : ∀ e ∈ s.connections_, ∀ c ∈ e.2, (c = p.nextConn ∧ m = .server) ∨
      ∃ k, (k, some c) ∈ p.server.connections_)
    (hconnection : ∀ c ∈ u.connection_, (c = p.nextConn ∧ m = .client) ∨
      p.client.connection_ = some c) :
    Moves p { p with
      conns := Function.update p.conns p.nextConn (Connection.make conn m k)
      nextConn := p.nextConn + 1
      server := s
      client := u } := by
  have hold : ∀ c < p.nextConn,
      Function.update p.conns p.nextConn (Connection.make conn m k) c = p.conns c :=
    fun c hc => Function.update_of_ne (Nat.ne_of_lt hc) _ _
  have hnew : Function.update p.conns p.nextConn (Connection.make conn m k) p.nextConn =
      Connection.make conn m k := Function.update_self ..
  have hf : Follows p { p with
      conns := Function.update p.conns p.nextConn (Connection.make conn m k)
      nextConn := p.nextConn + 1
      server := s
      client := u } := by
    refine ⟨Nat.le_succ _, ?_, ?_, hs.1, hu, rfl, hs.2⟩
    · intro c hc
      simp only [hold c hc]
      exact .refl _
    · intro c hc
      simp only [hold c hc]
  have hmade : ∀ c m', c < p.nextConn ∧ (p.conns c).closeCallback_ = m' →
      c < p.nextConn + 1 ∧
        (Function.update p.conns p.nextConn (Connection.make conn m k) c).closeCallback_ = m' := by
    rintro c m' ⟨hlt, hm⟩
    rw [hold c hlt]
    exact ⟨Nat.lt_succ_of_lt hlt, hm⟩
  refine ⟨⟨?_, ?_, ?_, ?_, ?_, ?_, ?_⟩, hf⟩
  · intro e he
    exact (h.stack e he).follows hf
  · intro e he
    exact (h.queue e he).follows hf
  · intro e he c hc
    rcases hentries e he c hc with ⟨rfl, rfl⟩ | ⟨j, hj⟩
    · exact ⟨Nat.lt_succ_self _, congrArg Connection.closeCallback_ hnew⟩
    · exact hmade c _ (h.entries _ hj c rfl)
  · intro c hc
    rcases hconnection c hc with ⟨rfl, rfl⟩ | hc
    · exact ⟨Nat.lt_succ_self _, congrArg Connection.closeCallback_ hnew⟩
    · exact hmade c _ (h.connection c hc)
  · intro c hc
    show (Function.update p.conns p.nextConn (Connection.make conn m k) c).conn.loop_ = u.loop_
    rw [hu]
    by_cases hcn : c = p.nextConn
    · subst hcn
      simp only [hnew] at hc ⊢
      exact hloop hc
    · simp only [Function.update_of_ne hcn] at hc ⊢
      exact h.clientLoop c hc
  · exact h.connectorLoop.trans hu.symm
  · intro c hc
    have hne : c ≠ p.nextConn := by
      rintro rfl
      exact absurd hc (Nat.not_succ_le_self _)
    simp only [Function.update_of_ne hne]
    exact h.fresh c (Nat.le_of_succ_le hc)

/-- Erasing and resetting entries. -/
theorem entries_erase (k : List Char) : ∀ e ∈ AssocMap.erase k p.server.connections_,
    ∀ c ∈ e.2, ∃ k, (k, some c) ∈ p.server.connections_ := by
  rintro ⟨j, v⟩ he c rfl
  exact ⟨j, (AssocMap.mem_erase.1 he).1⟩

/-- Emptying an entry puts no connection into the map. -/
theorem entries_reset (k : List Char) : ∀ e ∈ TcpServer.resetEntry k p.server.connections_,
    ∀ c ∈ e.2, ∃ k, (k, some c) ∈ p.server.connections_ := by
  rintro ⟨j, v⟩ he c rfl
  rcases AssocMap.mem_adjust.1 he with ⟨heq, -⟩ | ⟨-, he⟩
  · cases heq
  · exact ⟨j, he⟩

/-- The entry the destructor of the server takes is one of the map. -/
theorem nextEntry_mem {m : AssocMap (List Char) (Option ConnId)} {k : List Char} {c : ConnId}
    (h : TcpServer.nextEntry m = some (k, c)) : (k, some c) ∈ m := by
  induction m with
  | nil => cases h
  | cons e m ih =>
    obtain ⟨j, v⟩ := e
    cases v with
    | none => exact List.mem_cons_of_mem _ (ih h)
    | some d =>
      obtain ⟨rfl, rfl⟩ := Prod.mk.inj (Option.some.inj h)
      exact List.mem_cons_self ..

/-- A connection found under a key is one of the entries. -/
theorem mem_entry_of_lookup {k : List Char} {c : ConnId}
    (h : c ∈ (AssocMap.lookup k p.server.connections_).join.toList) :
    (k, some c) ∈ p.server.connections_ := by
  apply AssocMap.mem_of_lookup
  cases hl : AssocMap.lookup k p.server.connections_ with
  | none => simp [hl] at h
  | some v =>
    cases v with
    | none => simp [hl] at h
    | some d =>
      rw [hl] at h
      rw [List.mem_singleton.1 h]

/-- The server puts a new connection on one of its loops. -/
theorem Moves.newConnection {ioLoop : LoopId} (h : Placed p) :
    Moves p (TcpServer.newConnection p ioLoop) := by
  have hmake : Moves p { p with
      conns := Function.update p.conns p.nextConn (Connection.make
        (TcpConnection.make ioLoop p.server.connName p.server.messageCallback_
          p.server.writeCompleteCallback_) .server none)
      nextConn := p.nextConn + 1
      server := { p.server with
        nextConnId_ := nextInt p.server.nextConnId_
        connections_ := AssocMap.assign p.server.connName (some p.nextConn)
          p.server.connections_ } } := by
    refine Moves.make (u := p.client) h nofun ⟨rfl, rfl⟩ rfl ?_ fun c hc => Or.inr hc
    rintro ⟨k, v⟩ he c rfl
    rcases AssocMap.mem_of_mem_assign he with heq | he
    · obtain ⟨-, hv⟩ := Prod.mk.inj heq
      exact Or.inl ⟨Option.some.inj hv, rfl⟩
    · exact Or.inr ⟨k, he⟩
  refine hmake.trans (Moves.schedule hmake.placed ?_ ?_)
  · intro w hw
    rcases List.mem_append.1 hw with hw | hw
    · rcases List.mem_append.1 hw with hw | hw
      · refine belongs_releases ?_ w hw
        intro c hc
        exact Nat.lt_succ_of_lt (h.entries _ (mem_entry_of_lookup hc) c rfl).1
      · refine belongs_callIf (belongs_bound (Nat.lt_succ_self _) ?_) w hw
        simp [Connection.make, TcpConnection.make]
    · rw [List.mem_singleton.1 hw]
      exact belongs_release (Nat.lt_succ_self _)
  · refine belongs_postIf (belongs_bound (Nat.lt_succ_self _) ?_)
    simp [Connection.make, TcpConnection.make]

/-- The tasks of the server put work where it belongs. -/
theorem Moves.execServer {t : ThreadId} {k : ServerTask} (h : Placed p)
    (hb : p.Belongs (t, .server k)) (hexec : TcpServer.exec p t k = .ok q) : Moves p q := by
  obtain ⟨-, hexec⟩ := TcpServer.exec_eq_ok.1 hexec
  cases k with
  | removeConnection c =>
    obtain rfl := hexec
    have hloop : p.Belongs (p.server.loop_, .server (.removeConnectionInLoop c)) := by
      refine ⟨hb.made, hb.maker, ?_⟩
      rintro l ⟨⟩
      rfl
    exact Moves.schedule h (belongs_callIf hloop) (belongs_postIf hloop)
  | removeConnectionInLoop c =>
    obtain ⟨-, -, rfl⟩ := TcpServer.removeConnectionInLoop_eq_ok.1 hexec
    have hc : c < p.nextConn := hb.made c rfl
    have herase : Moves p { p with server := { p.server with
        connections_ := AssocMap.erase (p.conns c).conn.name_ p.server.connections_ } } :=
      Moves.objects (u := p.client) (f := p.stopped) h ⟨rfl, rfl⟩ rfl (entries_erase _)
        fun _ hd => hd
    have hremoved := herase.trans (Moves.update (c := c)
      (f := fun r => { r with removed := r.removed + 1 }) herase.placed hc (.refl _) rfl)
    refine hremoved.trans (Moves.schedule hremoved.placed ?_ ?_)
    · intro w hw
      rcases List.mem_append.1 hw with hw | hw
      · rcases List.mem_append.1 hw with hw | hw
        · refine belongs_releases ?_ w hw
          intro d hd
          exact (h.entries _ (mem_entry_of_lookup hd) d rfl).1
        · exact belongs_callIf ((belongs_bound hc rfl).follows hremoved.follows) w hw
      · rw [List.mem_singleton.1 hw]
        exact belongs_release hc
    · exact belongs_postIf ((belongs_bound hc rfl).follows hremoved.follows)
  | destroyNext =>
    obtain rfl := hexec
    have ht : t = p.server.loop_ := hb.place _ rfl
    rcases TcpServer.destroyNext_cases p t with ⟨-, hq⟩ | ⟨k, c, hnext, hq⟩
    · rw [hq]
      refine Moves.schedule h ?_ nofun
      intro w hw
      rw [List.mem_singleton.1 hw]
      refine belongs_other rfl ?_
      rintro l ⟨⟩
      exact ht
    · rw [hq]
      have hc := (h.entries _ (nextEntry_mem hnext) c rfl).1
      have hreset : Moves p { p with server := { p.server with
          connections_ := TcpServer.resetEntry k p.server.connections_ } } :=
        Moves.objects (u := p.client) (f := p.stopped) h ⟨rfl, rfl⟩ rfl (entries_reset k)
          fun _ hd => hd
      have htaken := hreset.trans (Moves.update (c := c)
        (f := fun r => { r with taken := true }) hreset.placed hc (.refl _) rfl)
      refine htaken.trans (Moves.schedule htaken.placed ?_ ?_)
      · intro w hw
        rcases List.mem_append.1 hw with hw | hw
        · exact belongs_callIf ((belongs_bound hc rfl).follows htaken.follows) w hw
        · simp only [List.mem_cons, List.not_mem_nil, or_false] at hw
          rcases hw with rfl | rfl
          · exact belongs_release hc
          · refine belongs_other rfl ?_
            rintro l ⟨⟩
            exact ht
      · exact belongs_postIf ((belongs_bound hc rfl).follows htaken.follows)
  | quit =>
    obtain rfl := hexec
    have ht : t = p.server.loop_ := hb.place _ rfl
    have hstopped : Moves p { p with
        stopped := Function.update p.stopped p.server.loop_ true
        server := { p.server with connections_ := [] } } :=
      Moves.objects (u := p.client) h ⟨rfl, rfl⟩ rfl nofun fun _ hd => hd
    refine hstopped.trans (Moves.schedule hstopped.placed ?_ nofun)
    have hserver : ∀ j : ServerTask, Work.connId (.server j) = none →
        ({ p with
          stopped := Function.update p.stopped p.server.loop_ true
          server := { p.server with connections_ := [] } } : Process).Belongs
            (t, .server j) := by
      intro j hj
      refine belongs_other hj ?_
      intro l hl
      unfold place at hl
      split at hl <;> simp_all
    intro w hw
    rcases List.mem_append.1 hw with hw | hw
    · obtain ⟨l, -, hw⟩ := List.mem_flatMap.1 hw
      simp only [List.mem_cons, List.not_mem_nil, or_false] at hw
      rcases hw with rfl | rfl <;> exact hserver _ rfl
    · rw [List.mem_singleton.1 hw]
      exact hserver _ rfl
  | quitLoop l =>
    obtain rfl := hexec
    exact Moves.objects (s := p.server) (u := p.client) h ⟨rfl, rfl⟩ rfl (entries_self p)
      fun _ hd => hd
  | joinLoop l =>
    obtain rfl := hexec
    exact ⟨h, .refl _⟩
  | destroyed =>
    obtain rfl := hexec
    exact Moves.objects (u := p.client) (f := p.stopped) h ⟨rfl, rfl⟩ rfl (entries_self p)
      fun _ hd => hd

/-- The tasks of the client put work where it belongs. -/
theorem Moves.execClient {t : ThreadId} {peer : List Char} {k : ClientTask} (h : Placed p)
    (hb : p.Belongs (t, .client k)) (hexec : p.exec t peer (.client k) = .ok q) :
    Moves p q := by
  obtain ⟨-, hexec⟩ := exec_client_eq_ok.1 hexec
  cases k with
  | newConnection socket =>
    obtain ⟨⟨ht, -⟩, rfl⟩ := TcpClient.newConnection_eq_ok.1 hexec
    have hmake : Moves p { p with
        conns := Function.update p.conns p.nextConn (Connection.make
          (TcpConnection.make p.client.loop_ (p.client.connName peer) p.client.messageCallback_
            p.client.writeCompleteCallback_) .client (some socket))
        nextConn := p.nextConn + 1
        client := { p.client with
          nextConnId_ := nextInt p.client.nextConnId_
          connection_ := some p.nextConn } } := by
      refine Moves.make (s := p.server) h (fun _ => rfl) ⟨rfl, rfl⟩ rfl ?_ ?_
      · exact fun e he c hc => Or.inr (entries_self p e he c hc)
      · rintro c ⟨⟩
        exact Or.inl ⟨rfl, rfl⟩
    refine hmake.trans (Moves.schedule hmake.placed ?_ nofun)
    intro w hw
    rcases List.mem_append.1 hw with hw | hw
    · refine belongs_releases ?_ w hw
      intro c hc
      exact Nat.lt_succ_of_lt (h.connection c (Option.mem_toList.1 hc)).1
    · simp only [List.mem_cons, List.not_mem_nil, or_false] at hw
      rcases hw with rfl | rfl
      · refine belongs_conn (Nat.lt_succ_self _) ?_
        simpa [Connection.make, TcpConnection.make] using ht
      · exact belongs_release (Nat.lt_succ_self _)
  | removeConnection c =>
    obtain ⟨ht, hloop, -, rfl⟩ := TcpClient.removeConnection_eq_ok.1 hexec
    have hc : c < p.nextConn := hb.made c rfl
    have hreset : Moves p { p with client := { p.client with connection_ := none } } :=
      Moves.objects (s := p.server) (f := p.stopped) h ⟨rfl, rfl⟩ rfl (entries_self p) nofun
    refine hreset.trans (Moves.schedule hreset.placed ?_ ?_)
    · intro w hw
      rcases List.mem_cons.1 hw with rfl | hw
      · exact belongs_release hc
      · split_ifs at hw
        · rw [List.mem_singleton.1 hw]
          refine belongs_other rfl ?_
          rintro l ⟨⟩
          exact ht.trans h.connectorLoop.symm
        · cases hw
    · intro e he
      rw [List.mem_singleton.1 he]
      exact belongs_bound hc hloop
  | destroyed =>
    obtain rfl := hexec
    have hdead : Moves p { p with client := { p.client with
        connection_ := none
        life := .dead } } :=
      Moves.objects (s := p.server) (f := p.stopped) h ⟨rfl, rfl⟩ rfl (entries_self p) nofun
    refine hdead.trans (Moves.schedule hdead.placed ?_ nofun)
    refine belongs_releases ?_
    intro c hc
    exact (h.connection c (Option.mem_toList.1 hc)).1

/-- `retry` puts no work anywhere. -/
theorem Moves.retry {held : Option SockId} (h : Placed p) (hexec : Connector.retry p held = .ok q) :
    Moves p q := by
  rcases Connector.retry_eq_ok.1 hexec with ⟨-, rfl⟩ | ⟨k, -, -, -, ⟨-, rfl⟩ | ⟨-, rfl⟩⟩
  · exact ⟨h, .refl _⟩
  · exact Moves.attempts h rfl
  · exact Moves.attempts (u := p.timers) h rfl

/-- `startInLoop` puts no work anywhere. -/
theorem Moves.startInLoop {t : ThreadId} (h : Placed p)
    (hexec : Connector.startInLoop p t = .ok q) : Moves p q := by
  rcases Connector.startInLoop_eq_ok.1 hexec with ⟨-, ⟨-, -, rfl⟩ | ⟨-, rfl⟩⟩
  · exact Moves.attempts (u := p.timers) h rfl
  · exact ⟨h, .refl _⟩

/-- The tasks of the connector put work on its loop. -/
theorem Moves.execConnector {t : ThreadId} {k : ConnectorTask} (h : Placed p)
    (hb : p.Belongs (t, .connector k)) (hexec : Connector.exec p t k = .ok q) : Moves p q := by
  obtain ⟨-, hexec⟩ := Connector.exec_eq_ok.1 hexec
  have hstate : ∀ c : Connector, c.loop_ = p.connector.loop_ →
      Moves p { p with connector := c } :=
    fun c hc => Moves.attempts (u := p.timers) (k := p.sockets) h hc
  cases k with
  | startInLoop => exact Moves.startInLoop h hexec
  | stopInLoop =>
    obtain ⟨-, ⟨-, hexec⟩ | ⟨-, rfl⟩⟩ := Connector.stopInLoop_eq_ok.1 hexec
    · have hset := hstate { p.connector with state_ := .kDisconnected } rfl
      exact hset.trans (Moves.retry hset.placed hexec)
    · exact ⟨h, .refl _⟩
  | restart =>
    obtain ⟨-, rfl⟩ := Connector.restart_eq_ok.1 hexec
    exact Moves.attempts (u := p.timers) h rfl
  | handleConnect socket error =>
    cases error with
    | none =>
      obtain rfl := pure_eq_ok.1 hexec
      have hset := hstate { p.connector with state_ := .kConnected } rfl
      refine hset.trans (Moves.schedule hset.placed ?_ nofun)
      intro w hw
      rw [List.mem_singleton.1 hw]
      refine belongs_other rfl ?_
      rintro l ⟨⟩
      exact (hb.place _ rfl).trans h.connectorLoop
    | some e =>
      have hset := hstate { p.connector with state_ := .kDisconnected } rfl
      exact hset.trans (Moves.retry hset.placed hexec)

/-- Running a work item at its place keeps everything placed. -/
theorem Moves.exec {t : ThreadId} {peer : List Char} {w : Work} (h : Placed p)
    (hb : p.Belongs (t, w)) (hexec : p.exec t peer w = .ok q) : Moves p q := by
  cases w with
  | conn c k =>
    have hc : c < p.nextConn := hb.made c rfl
    rcases exec_conn_eq_ok.1 hexec with ⟨-, hexec⟩ | ⟨rfl, -, rfl⟩ | ⟨-, rfl⟩ | ⟨hk, -, -, hexec⟩
    · rcases release_eq_ok.1 hexec with ⟨-, -, rfl⟩ | ⟨-, rfl⟩
      · exact Moves.update h hc (.refl _) rfl
      · exact ⟨h, .refl _⟩
    · refine Moves.schedule h ?_ nofun
      intro w hw
      rw [List.mem_singleton.1 hw]
      have ht : t = (p.conns c).conn.loop_ := hb.place _ rfl
      unfold Connection.closeTask
      cases hm : (p.conns c).closeCallback_ with
      | server =>
        refine ⟨?_, ?_, nofun⟩
        · rintro d ⟨⟩
          exact hc
        · rintro d ⟨⟩ m ⟨⟩
          exact hm
      | client =>
        refine ⟨?_, ?_, ?_⟩
        · rintro d ⟨⟩
          exact hc
        · rintro d ⟨⟩ m ⟨⟩
          exact hm
        · rintro l ⟨⟩
          exact ht.trans (h.clientLoop c hm)
    · exact ⟨h, .refl _⟩
    · have hplace : p.place (.conn c k) = some (p.conns c).conn.loop_ := by
        unfold place
        split <;> simp_all
      exact Moves.execConn h hc (hb.place _ hplace) (by simp) hexec
  | bound c k =>
    have hc : c < p.nextConn := hb.made c rfl
    refine Moves.execConn h hc (hb.place _ rfl) ?_ hexec
    intro w hw
    rw [List.mem_singleton.1 hw]
    exact belongs_release hc
  | setCloseCallback c =>
    obtain rfl := pure_eq_ok.1 hexec
    have hc : c < p.nextConn := hb.made c rfl
    have hset : Moves p (p.update c fun r => { r with closeCallback_ := .client }) :=
      Moves.update h hc (.refl _) (hb.maker c rfl _ rfl).symm
    refine hset.trans (Moves.schedule hset.placed ?_ nofun)
    intro w hw
    rw [List.mem_singleton.1 hw]
    exact belongs_release hc
  | server k => exact Moves.execServer h hb hexec
  | client k => exact Moves.execClient h hb hexec
  | connector k => exact Moves.execConnector h hb hexec
  | handleTimer timer error =>
    obtain rfl := pure_eq_ok.1 hexec
    have ht : t = p.connector.loop_ := hb.place _ rfl
    rcases TimerQueue.handleTimer_cases p t timer error with ⟨-, hq⟩ | ⟨-, -, hq⟩ | ⟨-, -, hq⟩
    · rw [hq]
      exact ⟨h, .refl _⟩
    · rw [hq]
      have hset : Moves p { p with timers := p.timers.setStatus timer .running } :=
        Moves.attempts (c := p.connector) (k := p.sockets) h rfl
      refine hset.trans (Moves.schedule hset.placed ?_ nofun)
      intro w hw
      simp only [List.mem_cons, List.not_mem_nil, or_false] at hw
      rcases hw with rfl | rfl
      · refine belongs_other rfl ?_
        rintro l ⟨⟩
        exact ht
      · refine belongs_other rfl ?_
        rintro l ⟨⟩
        exact ht
    · rw [hq]
      exact Moves.attempts (c := p.connector) (k := p.sockets) h rfl
  | eraseTimer timer =>
    obtain rfl := pure_eq_ok.1 hexec
    exact Moves.attempts (c := p.connector) (k := p.sockets) h rfl

/-- Posting work to the loop it belongs to. -/
theorem Moves.post {l : LoopId} {w : Work} (h : Placed p) (hb : p.Belongs (l, w)) :
    Moves p { p with queue := p.queue ++ [(l, w)] } := by
  have hpost : Moves p (p.schedule l [] [(l, w)]) := by
    refine Moves.schedule h nofun ?_
    intro e he
    rw [List.mem_singleton.1 he]
    exact hb
  exact hpost

/-- The tasks of the connector belong on its loop. -/
theorem belongs_connector {k : ConnectorTask} : p.Belongs (p.connector.loop_, .connector k) := by
  refine belongs_other rfl ?_
  rintro l ⟨⟩
  rfl

/-- The handlers of its timers belong on its loop too. -/
theorem belongs_handleTimer {timer : TimerId} {error : Option ErrorCode} :
    p.Belongs (p.connector.loop_, .handleTimer timer error) := by
  refine belongs_other rfl ?_
  rintro l ⟨⟩
  rfl

/-- `start` posts to the loop of the connector, or calls on its thread. -/
theorem Moves.start {t : ThreadId} (h : Placed p) : Moves p (Connector.start p t) := by
  have hset : Moves p { p with connector := { p.connector with connect_ := true } } :=
    Moves.attempts (u := p.timers) (k := p.sockets) h rfl
  exact hset.trans (Moves.schedule hset.placed (belongs_callIf belongs_connector)
    (belongs_postIf belongs_connector))

/-- `stop` posts to the loop of the connector. -/
theorem Moves.stop (h : Placed p) : Moves p (Connector.stop p) := by
  have hset : Moves p { p with connector := { p.connector with connect_ := false } } :=
    Moves.attempts (u := p.timers) (k := p.sockets) h rfl
  have hstop := hset.trans (Moves.post (l := p.connector.loop_) (w := .connector .stopInLoop)
    hset.placed belongs_connector)
  refine hstop.trans ?_
  unfold Connector.stop
  rcases TimerQueue.cancel_cases { p with
      connector := { p.connector with connect_ := false }
      queue := p.queue ++ [(p.connector.loop_, .connector .stopInLoop)] }
      p.connector.reConnectTimer_ with hq | ⟨id, -, -, hq⟩ | ⟨id, s, -, -, -, hq⟩
  · rw [hq]
    exact ⟨hstop.placed, .refl _⟩
  · rw [hq]
    have herase := Moves.attempts (c := { p.connector with connect_ := false })
      (u := p.timers.erase id) (k := p.sockets) hstop.placed rfl
    exact herase.trans (Moves.post herase.placed belongs_handleTimer)
  · rw [hq]
    exact Moves.attempts (c := { p.connector with connect_ := false }) (k := p.sockets)
      hstop.placed rfl

/-- The kernel queues the handler of an operation on the loop of the connection. -/
theorem Moves.complete {c : ConnId} {s : TcpConnection × ConnTask} (h : Placed p)
    (hc : c < p.nextConn) (hsetup : TcpConnection.SameSetup (p.conns c).conn s.1) :
    Moves p (p.complete c s) := by
  have hupdate : Moves p (p.update c fun r => { r with conn := s.1 }) :=
    Moves.update h hc hsetup rfl
  refine hupdate.trans (Moves.post hupdate.placed (belongs_conn hc ?_))
  simp [Process.update]

/-- Only connections that were made have operations outstanding. -/
theorem Placed.made_of_reads (h : Placed p) {c : ConnId} {x : Region} {xs : List Region}
    (hreads : (p.conns c).conn.socket_.reads = x :: xs) : c < p.nextConn := by
  by_contra hno
  rw [(h.fresh c (Nat.not_lt.1 hno)).2.1] at hreads
  cases hreads

/-- A connection with an outstanding send was made. -/
theorem Placed.made_of_sends (h : Placed p) {c : ConnId} {x : Region} {xs : List Region}
    (hsends : (p.conns c).conn.socket_.sends = x :: xs) : c < p.nextConn := by
  by_contra hno
  rw [(h.fresh c (Nat.not_lt.1 hno)).2.2] at hsends
  cases hsends

/-- What the user reaches was made. -/
theorem Placed.made_of_inCallback (h : Placed p) {t : ThreadId} {c : ConnId}
    (hin : p.inCallbackOf t c = true) : c < p.nextConn := by
  unfold inCallbackOf at hin
  split at hin
  · rename_i d k rest hstack
    obtain rfl := of_decide_eq_true hin
    have hmem : (t, Work.conn d (.inCallback k)) ∈ p.stack := by
      apply Keyed.mem_ofKey.1
      rw [show Keyed.ofKey t p.stack = _ from hstack]
      exact List.mem_cons_self ..
    exact (h.stack _ hmem).made d rfl
  · cases hin

/-- A connection that code of the user reaches was made. -/
theorem Placed.made_of_reaches (h : Placed p) {t : ThreadId} {c : ConnId}
    (hreaches : p.reaches t c = true) : c < p.nextConn := by
  unfold reaches at hreaches
  rw [Bool.or_eq_true, Bool.and_eq_true] at hreaches
  rcases hreaches with ⟨-, hrefs⟩ | hin
  · by_contra hno
    have hzero := (h.fresh c (Nat.not_lt.1 hno)).1
    have hpos := of_decide_eq_true hrefs
    omega
  · exact h.made_of_inCallback hin

/-- `disconnect` has the connection shut down on its loop. -/
theorem Moves.disconnect {t : ThreadId} (h : Placed p) : Moves p (TcpClient.disconnect p t) := by
  have hset : Moves p { p with client := { p.client with connect_ := false } } :=
    Moves.objects (s := p.server) (f := p.stopped) h ⟨rfl, rfl⟩ rfl (entries_self p) fun _ hd => hd
  unfold TcpClient.disconnect
  cases hc : p.client.connection_ with
  | none => exact hset
  | some c =>
    have hcall : (p.conns c).conn.call (some t) .shutdown =
      .ok ((p.conns c).conn.shutdown (some t)) := rfl
    obtain ⟨hsetup, hcalls⟩ := TcpConnection.call_setup hcall
    refine hset.trans (Moves.applyEffect hset.placed (h.connection c hc).1 hsetup ?_ nofun)
    intro hne
    exact Option.some.inj (hcalls hne)

/-- The destructor of the client puts work where it belongs. -/
theorem Moves.destructor {t : ThreadId} (h : Placed p)
    (hexec : TcpClient.destructor p t = .ok q) : Moves p q := by
  have hdestroyed : ∀ r : Process, r.Belongs (t, .client .destroyed) :=
    fun r => belongs_other rfl nofun
  rcases TcpClient.destructor_eq_ok.1 hexec with ⟨-, rfl⟩ | ⟨c, hconnection, -, hcase⟩
  · have hlife : Moves p { p with client := { p.client with life := .destructing } } :=
      Moves.objects (s := p.server) (f := p.stopped) h ⟨rfl, rfl⟩ rfl (entries_self p)
        fun _ hd => hd
    have hstop := hlife.trans (Moves.stop hlife.placed)
    refine hstop.trans (Moves.schedule hstop.placed ?_ nofun)
    intro w hw
    rw [List.mem_singleton.1 hw]
    exact hdestroyed _
  · have hset := Moves.setCloseCallback (t := t) h hconnection
    have hc := (h.connection c hconnection).1
    have hafter : ∀ w ∈ [Work.conn c .release, .client .destroyed],
        (TcpClient.setCloseCallback p t c).Belongs (t, w) := by
      intro w hw
      simp only [List.mem_cons, List.not_mem_nil, or_false] at hw
      rcases hw with rfl | rfl
      · exact (belongs_release hc).follows hset.follows
      · exact hdestroyed _
    rcases hcase with ⟨-, rfl⟩ | ⟨-, rfl⟩
    · have hcall : (p.conns c).conn.call (some t) .forceClose =
        .ok ((p.conns c).conn.forceClose (some t)) := rfl
      obtain ⟨hsetup, hcalls⟩ := TcpConnection.call_setup hcall
      have hsame : ((TcpClient.setCloseCallback p t c).conns c).conn = (p.conns c).conn := by
        unfold TcpClient.setCloseCallback
        split_ifs
        · simp [Process.update]
        · rfl
      refine hset.trans (Moves.applyEffect hset.placed
        (Nat.lt_of_lt_of_le hc hset.follows.nextConn) ?_ ?_ hafter)
      · rw [hsame]
        exact hsetup
      · intro hne
        rw [hsame]
        exact Option.some.inj (hcalls hne)
    · exact hset.trans (Moves.schedule hset.placed hafter nofun)

/-- Every step keeps everything placed. -/
theorem Moves.step {e : ProcessEvent} (h : Placed p) (hstep : Process.step e p = .ok q) :
    Moves p q := by
  cases e with
  | dequeue l =>
    obtain ⟨-, w, rest, htake, rfl⟩ := dequeue_eq_ok.1 hstep
    have hmem := fun e => Keyed.mem_of_takeFirst (e := e) htake
    have hf : Follows p { p with stack := (l, w) :: p.stack, queue := rest } :=
      ⟨Nat.le_refl _, fun _ _ => .refl _, fun _ _ => rfl, rfl, rfl, rfl, rfl⟩
    refine ⟨⟨?_, ?_, h.entries, h.connection, h.clientLoop, h.connectorLoop, h.fresh⟩, hf⟩
    · intro e he
      rcases List.mem_cons.1 he with rfl | he
      · exact (h.queue _ ((hmem _).2 (Or.inl rfl))).follows hf
      · exact (h.stack e he).follows hf
    · intro e he
      exact (h.queue e ((hmem e).2 (Or.inr he))).follows hf
  | run t peer =>
    obtain ⟨w, rest, htake, -, hexec⟩ := run_eq_ok.1 hstep
    obtain ⟨hpop, hb⟩ := h.pop htake
    have hmove := Moves.exec hpop hb hexec
    exact ⟨hmove.placed, Follows.trans (p := p) (q := { p with stack := rest })
      ⟨Nat.le_refl _, fun _ _ => .refl _, fun _ _ => rfl, rfl, rfl, rfl, rfl⟩ hmove.follows⟩
  | return_ t =>
    obtain ⟨c, k, rest, htake, rfl⟩ := return_eq_ok.1 hstep
    exact ⟨(h.pop htake).1, Nat.le_refl _, fun _ _ => .refl _, fun _ _ => rfl, rfl, rfl, rfl, rfl⟩
  | call t c x =>
    obtain ⟨hreaches, e, he, rfl⟩ := call_eq_ok.1 hstep
    obtain ⟨hsetup, hcalls⟩ := TcpConnection.call_setup he
    refine Moves.applyEffect h (h.made_of_reaches hreaches) hsetup ?_ nofun
    intro hne
    exact Option.some.inj (hcalls hne)
  | keep t c =>
    obtain ⟨hin, rfl⟩ := keep_eq_ok.1 hstep
    exact Moves.update h (h.made_of_inCallback hin) (.refl _) rfl
  | keepConnection t =>
    obtain ⟨-, c, hc, rfl⟩ := keepConnection_eq_ok.1 hstep
    exact Moves.update h (h.connection c hc).1 (.refl _) rfl
  | drop t c =>
    obtain ⟨⟨-, hrefs⟩, rfl⟩ := drop_eq_ok.1 hstep
    have hc : c < p.nextConn := by
      by_contra hno
      rw [(h.fresh c (Nat.not_lt.1 hno)).1] at hrefs
      exact Nat.lt_irrefl 0 hrefs
    have hupdate : Moves p (p.update c fun r => { r with refs := r.refs - 1 }) :=
      Moves.update h hc (.refl _) rfl
    refine hupdate.trans (Moves.schedule hupdate.placed ?_ nofun)
    intro w hw
    rw [List.mem_singleton.1 hw]
    exact belongs_release hc
  | consume t c len =>
    obtain ⟨⟨hhead, -⟩, b, -, rfl⟩ := consume_eq_ok.1 hstep
    have hc : c < p.nextConn := by
      have hmem : (t, Work.conn c (.inCallback .message)) ∈ p.stack :=
        Keyed.mem_ofKey.1 (List.mem_of_head? hhead)
      exact (h.stack _ hmem).made c rfl
    exact Moves.update h hc ⟨rfl, rfl, rfl, rfl⟩ rfl
  | receive c data =>
    obtain ⟨-, r, hr, rfl⟩ := receive_eq_ok.1 hstep
    obtain ⟨region, rest, hreads, -, -, rfl⟩ := TcpConnection.receive_eq_some hr
    exact Moves.complete h (h.made_of_reads hreads) ⟨rfl, rfl, rfl, rfl⟩
  | readFails c e =>
    obtain ⟨-, r, hr, rfl⟩ := readFails_eq_ok.1 hstep
    obtain ⟨region, rest, hreads, rfl⟩ := TcpConnection.readFails_eq_some hr
    exact Moves.complete h (h.made_of_reads hreads) ⟨rfl, rfl, rfl, rfl⟩
  | transmit c k stale =>
    obtain ⟨-, r, hr, rfl⟩ := transmit_eq_ok.1 hstep
    obtain ⟨region, rest, hsends, -, -, rfl⟩ := TcpConnection.transmit_eq_some hr
    exact Moves.complete h (h.made_of_sends hsends) ⟨rfl, rfl, rfl, rfl⟩
  | sendFails c e =>
    obtain ⟨-, r, hr, rfl⟩ := sendFails_eq_ok.1 hstep
    obtain ⟨region, rest, hsends, rfl⟩ := TcpConnection.sendFails_eq_some hr
    exact Moves.complete h (h.made_of_sends hsends) ⟨rfl, rfl, rfl, rfl⟩
  | accept ioLoop =>
    obtain ⟨-, rfl⟩ := accept_eq_ok.1 hstep
    exact Moves.newConnection h
  | destroyServer t =>
    obtain ⟨-, hexec⟩ := destroyServer_eq_ok.1 hstep
    obtain ⟨ht, rfl⟩ := TcpServer.destructor_eq_ok.1 hexec
    have hlife : Moves p { p with server := { p.server with life := .destructing } } :=
      Moves.objects (u := p.client) (f := p.stopped) h ⟨rfl, rfl⟩ rfl (entries_self p)
        fun _ hd => hd
    refine hlife.trans (Moves.schedule hlife.placed ?_ nofun)
    intro w hw
    rw [List.mem_singleton.1 hw]
    refine belongs_other rfl ?_
    rintro l ⟨⟩
    exact ht
  | clientCall t x =>
    obtain ⟨-, rfl⟩ := clientCall_eq_ok.1 hstep
    have hclient : ∀ u : TcpClient, u.loop_ = p.client.loop_ →
        u.connection_ = p.client.connection_ → Moves p { p with client := u } := by
      intro u hu hconnection
      exact Moves.objects (s := p.server) (f := p.stopped) h ⟨rfl, rfl⟩ hu (entries_self p)
        fun c hc => hconnection ▸ hc
    cases x with
    | connect =>
      have hset := hclient { p.client with connect_ := true } rfl rfl
      exact hset.trans (Moves.start hset.placed)
    | disconnect => exact Moves.disconnect h
    | stop =>
      have hset := hclient { p.client with connect_ := false } rfl rfl
      exact hset.trans (Moves.stop hset.placed)
    | enableRetry => exact hclient _ rfl rfl
  | connectorCall t x =>
    obtain ⟨⟨-, -, hmay⟩, rfl⟩ := connectorCall_eq_ok.1 hstep
    cases x with
    | start => exact Moves.start h
    | stop => exact Moves.stop h
    | restart =>
      obtain rfl : t = p.connector.loop_ := of_decide_eq_true hmay
      refine Moves.schedule h ?_ nofun
      intro w hw
      rw [List.mem_singleton.1 hw]
      exact belongs_connector
  | destroyClient t =>
    obtain ⟨-, hexec⟩ := destroyClient_eq_ok.1 hstep
    exact Moves.destructor h hexec
  | connectDone socket error =>
    obtain ⟨-, rfl⟩ := connectDone_eq_ok.1 hstep
    have hset : Moves p { p with sockets := { p.sockets with
        connecting := p.sockets.connecting.erase socket } } :=
      Moves.attempts (c := p.connector) (u := p.timers) h rfl
    exact hset.trans (Moves.post hset.placed belongs_connector)
  | timerExpires timer =>
    obtain ⟨-, rfl⟩ := timerExpires_eq_ok.1 hstep
    have hset : Moves p { p with timers := p.timers.setStatus timer .expired } :=
      Moves.attempts (c := p.connector) (k := p.sockets) h rfl
    exact hset.trans (Moves.post hset.placed belongs_handleTimer)

/-- Nothing is pending at first. -/
theorem placed_initial (hp : processMachine.init p) : Placed p := by
  obtain ⟨baseLoop, pool, clientLoop, ipPort, serverName, clientName, m, w, -, -, rfl⟩ := hp
  exact ⟨nofun, nofun, nofun, nofun, nofun, rfl, fun _ _ => ⟨rfl, rfl, rfl⟩⟩

/-- In every run everything is placed. -/
theorem placed_of_reachable (hp : processMachine.Reachable p) : Placed p :=
  hp.invariant (fun _ => placed_initial) fun _ _ _ h _ hstep => (Moves.step h hstep).placed

end Process

end LibNetToy
