import LibNetToy.Net.Objects

/-!
# A step as one connection sees it

Of a connection there are its record, the work that is about it, the entries of the map that
hold it and the pointer of the client.  `Touches` lists what a step can change of these:
`step_touches` says so for a connection that was made, and `step_makes` for the one that the
step makes.
-/

namespace LibNetToy

/-- What is different about a connection after a step: the work that was added, the record, and
how many entries of the map and pointers of the client hold it no more. -/
structure Change where
  added : List Work
  record : Connection
  unlisted : Nat
  undesignated : Nat

/-- The work item is about no connection. -/
theorem Work.not_about {w : Work} (hw : w.connId = none) (c : ConnId) : w.connId ≠ some c := by
  rw [hw]
  exact Option.some_ne_none c |>.symm

namespace Process

/-- The number of entries of the map that hold the connection. -/
def entriesOf (p : Process) (c : ConnId) : Nat :=
  weigh (entryHolds c) p.server.connections_

/-- Whether the client holds the connection. -/
def designates (p : Process) (c : ConnId) : Nat :=
  if p.client.connection_ = some c then 1 else 0

/-- The owners of a connection are pending work, entries of the map, `connection_` and the pointers
that the user holds. -/
theorem owners_eq (p : Process) (c : ConnId) : p.owners c =
    weigh (holds c) p.pending + p.entriesOf c + p.designates c + (p.conns c).refs :=
  rfl

/-- Running a work item about the connection on the thread `t`. -/
inductive Performs (p : Process) (c : ConnId) (t : ThreadId) : Work → Change → Prop
  | task {k : ConnTask} {eff : Effect} (hrelease : k ≠ .release) (hclose : k ≠ .callback .close)
      (hwrite : ∀ e n, k ≠ .writeHandler (some e) n) (hlive : (p.conns c).destroyed = false)
      (heff : (p.conns c).conn.exec (some t) k = .ok eff) :
      Performs p c t (.conn c k)
        ⟨eff.calls.map (Work.conn c), { (p.conns c).note k with conn := eff.conn }, 0, 0⟩
  | bound {k : ConnTask} {eff : Effect} (hlive : (p.conns c).destroyed = false)
      (heff : (p.conns c).conn.exec (some t) k = .ok eff) :
      Performs p c t (.bound c k) ⟨eff.calls.map (Work.conn c) ++ [.conn c .release],
        { (p.conns c).note k with conn := eff.conn }, 0, 0⟩
  | writeFailed {e : ErrorCode} {n : Nat} :
      Performs p c t (.conn c (.writeHandler (some e) n)) ⟨[], p.conns c, 0, 0⟩
  | closed (hlive : (p.conns c).destroyed = false) :
      Performs p c t (.conn c (.callback .close)) ⟨[(p.conns c).closeTask c], p.conns c, 0, 0⟩
  | released (howners : p.owners c ≠ 0) :
      Performs p c t (.conn c .release) ⟨[], p.conns c, 0, 0⟩
  | destroyed (howners : p.owners c = 0) (hstate : (p.conns c).conn.state_ = .kDisconnected) :
      Performs p c t (.conn c .release) ⟨[], { p.conns c with destroyed := true }, 0, 0⟩
  | setCloseCallback :
      Performs p c t (.setCloseCallback c)
        ⟨[.conn c .release], { p.conns c with closeCallback_ := .client }, 0, 0⟩
  | removeConnection :
      Performs p c t (.server (.removeConnection c))
        ⟨[.server (.removeConnectionInLoop c)], p.conns c, 0, 0⟩
  | removeConnectionInLoop {n : Nat}
      (hn : n = if AssocMap.lookup (p.conns c).conn.name_ p.server.connections_ = some (some c)
        then 1 else 0) :
      Performs p c t (.server (.removeConnectionInLoop c))
        ⟨List.replicate n (.conn c .release) ++ [.bound c .connectDestroyed, .conn c .release],
          { p.conns c with removed := (p.conns c).removed + 1 }, n, 0⟩
  | clientRemoves (hconnection : p.client.connection_ = some c) :
      Performs p c t (.client (.removeConnection c))
        ⟨[.conn c .release, .bound c .connectDestroyed], p.conns c, 0, 1⟩

/-- Running a work item that is not about the connection, as the connection sees it. -/
inductive Meanwhile (p : Process) (c : ConnId) : Work → Change → Prop
  | erased {d : ConnId} (hd : d ≠ c)
      (hlookup : AssocMap.lookup (p.conns d).conn.name_ p.server.connections_ = some (some c)) :
      Meanwhile p c (.server (.removeConnectionInLoop d)) ⟨[.conn c .release], p.conns c, 1, 0⟩
  | destroyNext {k : List Char}
      (hnext : TcpServer.nextEntry p.server.connections_ = some (k, c)) :
      Meanwhile p c (.server .destroyNext)
        ⟨[.bound c .connectDestroyed, .conn c .release], { p.conns c with taken := true }, 1, 0⟩
  | quit : Meanwhile p c (.server .quit) ⟨[], p.conns c, p.entriesOf c, 0⟩
  | replaced {socket : SockId} (hconnection : p.client.connection_ = some c) :
      Meanwhile p c (.client (.newConnection socket)) ⟨[.conn c .release], p.conns c, 0, 1⟩
  | clientDestroyed (hconnection : p.client.connection_ = some c) :
      Meanwhile p c (.client .destroyed) ⟨[.conn c .release], p.conns c, 0, 1⟩
  | nothing {w : Work} (hw : w.connId ≠ some c) : Meanwhile p c w ⟨[], p.conns c, 0, 0⟩

/-- What the destructor of the client posts to set the close callback. -/
def closeCallbackSetter (p : Process) (t : ThreadId) (c : ConnId) : List Work :=
  if t = p.client.loop_ then [] else [.setCloseCallback c]

/-- A step, as the connection sees it; the list is the work it takes away. -/
inductive Touches (p : Process) (c : ConnId) : ProcessEvent → List Work → Change → Prop
  | run {t : ThreadId} {peer : List Char} {w : Work} {rest : List (ThreadId × Work)} {d : Change}
      (htake : Keyed.takeFirst t p.stack = some (w, rest))
      (hperforms : Performs { p with stack := rest } c t w d) :
      Touches p c (.run t peer) [w] d
  | meanwhile {t : ThreadId} {peer : List Char} {w : Work} {rest : List (ThreadId × Work)}
      {d : Change} (htake : Keyed.takeFirst t p.stack = some (w, rest))
      (hmeanwhile : Meanwhile { p with stack := rest } c w d) :
      Touches p c (.run t peer) [] d
  | returned {t : ThreadId} {k : Callback}
      (hhead : (p.stackOf t).head? = some (.conn c (.inCallback k))) :
      Touches p c (.return_ t) [.conn c (.inCallback k)] ⟨[], p.conns c, 0, 0⟩
  | called {t : ThreadId} {x : ConnCall} {eff : Effect} (hreaches : p.reaches t c = true)
      (heff : (p.conns c).conn.call (some t) x = .ok eff) :
      Touches p c (.call t c x) []
        ⟨eff.calls.map (Work.conn c) ++ eff.posts.map (Functor.work c),
          { p.conns c with conn := eff.conn }, 0, 0⟩
  | disconnected {t : ThreadId} {eff : Effect} (hconnection : p.client.connection_ = some c)
      (heff : (p.conns c).conn.call (some t) .shutdown = .ok eff) :
      Touches p c (.clientCall t .disconnect) []
        ⟨eff.calls.map (Work.conn c) ++ eff.posts.map (Functor.work c),
          { p.conns c with conn := eff.conn }, 0, 0⟩
  | forced {t : ThreadId} {eff : Effect} (hconnection : p.client.connection_ = some c)
      (howners : p.owners c = 1)
      (heff : (p.conns c).conn.call (some t) .forceClose = .ok eff) :
      Touches p c (.destroyClient t) []
        ⟨eff.calls.map (Work.conn c) ++ eff.posts.map (Functor.work c) ++
          p.closeCallbackSetter t c ++ [.conn c .release],
          { p.conns c with conn := eff.conn }, 0, 0⟩
  | spared {t : ThreadId} (hconnection : p.client.connection_ = some c)
      (howners : p.owners c ≠ 1) :
      Touches p c (.destroyClient t) []
        ⟨p.closeCallbackSetter t c ++ [.conn c .release], p.conns c, 0, 0⟩
  | kept {t : ThreadId} (hin : p.inCallbackOf t c = true) :
      Touches p c (.keep t c) [] ⟨[], { p.conns c with refs := (p.conns c).refs + 1 }, 0, 0⟩
  | keptConnection {t : ThreadId} (hconnection : p.client.connection_ = some c) :
      Touches p c (.keepConnection t) []
        ⟨[], { p.conns c with refs := (p.conns c).refs + 1 }, 0, 0⟩
  | dropped {t : ThreadId} (hrefs : 0 < (p.conns c).refs) :
      Touches p c (.drop t c) []
        ⟨[.conn c .release], { p.conns c with refs := (p.conns c).refs - 1 }, 0, 0⟩
  | consumed {t : ThreadId} {len : Nat} {b : Buffer} :
      Touches p c (.consume t c len) []
        ⟨[], { p.conns c with conn := { (p.conns c).conn with inputBuffer_ := b } }, 0, 0⟩
  | received {data : List UInt8} {r : TcpConnection × ConnTask}
      (hr : (p.conns c).conn.receive data = some r) :
      Touches p c (.receive c data) [] ⟨[.conn c r.2], { p.conns c with conn := r.1 }, 0, 0⟩
  | readFailed {e : ErrorCode} {r : TcpConnection × ConnTask}
      (hr : (p.conns c).conn.readFails e = some r) :
      Touches p c (.readFails c e) [] ⟨[.conn c r.2], { p.conns c with conn := r.1 }, 0, 0⟩
  | transmitted {k : Nat} {stale : List UInt8} {r : TcpConnection × List UInt8 × ConnTask}
      (hr : (p.conns c).conn.transmit k stale = some r) :
      Touches p c (.transmit c k stale) []
        ⟨[.conn c r.2.2], { p.conns c with conn := r.1 }, 0, 0⟩
  | sendFailed {e : ErrorCode} {r : TcpConnection × ConnTask}
      (hr : (p.conns c).conn.sendFails e = some r) :
      Touches p c (.sendFails c e) [] ⟨[.conn c r.2], { p.conns c with conn := r.1 }, 0, 0⟩
  | replaced {ioLoop : LoopId} (hlife : p.server.life = .alive)
      (hlookup : AssocMap.lookup p.server.connName p.server.connections_ = some (some c)) :
      Touches p c (.accept ioLoop) [] ⟨[.conn c .release], p.conns c, 1, 0⟩
  | nothing {e : ProcessEvent} (he : ∀ t peer, e ≠ .run t peer) :
      Touches p c e [] ⟨[], p.conns c, 0, 0⟩

/-- The change is what happens to the connection from one state to the next. -/
structure Alters (p q : Process) (c : ConnId) (taken : List Work) (d : Change) : Prop where
  record : q.conns c = d.record
  pending : ∀ f : Work → Nat, (∀ w, w.connId ≠ some c → f w = 0) →
    weigh f q.pending + weigh f taken = weigh f p.pending + weigh f d.added
  entries : q.entriesOf c + d.unlisted = p.entriesOf c
  connection : q.designates c + d.undesignated = p.designates c

variable {p q r : Process} {c : ConnId}

namespace Alters

/-- What leaves all connections alone alters none. -/
theorem of_aside (h : Aside p q) : Alters p q c [] ⟨[], p.conns c, 0, 0⟩ := by
  constructor
  · rw [h.conns]
  · intro f hf
    refine congrArg (· + 0) (h.pending f ?_)
    intro w hw
    apply hf
    intro hc
    rw [aboutConnection, hc] at hw
    cases hw
  · rw [entriesOf, h.server]
    rfl
  · rw [designates, h.client]
    rfl

/-- The objects change, and work is added. -/
theorem of_schedule {t : ThreadId} {calls : List Work} {posts : List (LoopId × Work)}
    {d : Change} (hstack : r.stack = p.stack) (hqueue : r.queue = p.queue)
    (hrecord : r.conns c = d.record)
    (hadded : ∀ f : Work → Nat, (∀ w, w.connId ≠ some c → f w = 0) →
      weigh f calls + weigh f (posts.map Prod.snd) = weigh f d.added)
    (hentries : r.entriesOf c + d.unlisted = p.entriesOf c)
    (hconnection : r.designates c + d.undesignated = p.designates c) :
    Alters p (r.schedule t calls posts) c [] d := by
  refine ⟨hrecord, ?_, hentries, hconnection⟩
  intro f hf
  have hpending : r.pending = p.pending := by
    rw [Process.pending, Process.pending, hstack, hqueue]
  have hweigh := hadded f hf
  rw [weigh_schedule, hpending, weigh_nil]
  omega

end Alters

/-- The connection that is updated. -/
theorem update_self (p : Process) (c : ConnId) (g : Connection → Connection) :
    (p.update c g).conns c = g (p.conns c) :=
  Function.update_self ..

/-- The other connections stay. -/
theorem update_other {d : ConnId} (h : d ≠ c) (g : Connection → Connection) :
    (p.update d g).conns c = p.conns c :=
  Function.update_of_ne (Ne.symm h) _ _

/-- The effect of a member function on the connection it is called on. -/
theorem applyEffect_conn {t : ThreadId} {eff : Effect} {after : List Work} :
    ((p.applyEffect t c eff after).conns c).conn = eff.conn := by
  show ((p.update c fun r => { r with conn := eff.conn }).conns c).conn = eff.conn
  rw [update_self]

/-- Work about another connection weighs nothing. -/
theorem weigh_other {f : Work → Nat} {d : ConnId} {ws : List Work} (hd : d ≠ c)
    (hf : ∀ w, w.connId ≠ some c → f w = 0)
    (hws : ∀ w ∈ ws, w.connId = some d ∨ w.connId = none) : weigh f ws = 0 := by
  apply weigh_eq_zero.2
  intro w hw
  apply hf
  rcases hws w hw with h | h
  · rw [h]
    exact fun h => hd (Option.some.inj h)
  · rw [h]
    exact nofun

/-- The posted functors weigh what they weigh as work. -/
theorem weigh_posts (f : Work → Nat) (l : LoopId) (c : ConnId) (fs : List Functor) :
    weigh f ((fs.map fun g => (l, Functor.work c g)).map Prod.snd) =
      weigh f (fs.map (Functor.work c)) := by
  rw [List.map_map]
  rfl

/-- A functor of a connection is about that connection. -/
theorem connId_functor (c : ConnId) (g : Functor) : (g.work c).connId = some c := by
  cases g <;> rfl

/-- A member function changes its connection only. -/
theorem Alters.applyEffect {t : ThreadId} {d : ConnId} {eff : Effect} {after : List Work}
    (hafter : ∀ w ∈ after, w.connId = some d ∨ w.connId = none) :
    Alters p (p.applyEffect t d eff after) c []
      (if d = c then ⟨eff.calls.map (Work.conn c) ++ eff.posts.map (Functor.work c) ++ after,
          { p.conns c with conn := eff.conn }, 0, 0⟩
        else ⟨[], p.conns c, 0, 0⟩) := by
  split_ifs with hd
  · subst hd
    refine of_schedule rfl rfl (update_self ..) ?_ rfl rfl
    intro f _
    simp only [weigh_posts, weigh_append]
    omega
  · refine of_schedule rfl rfl (update_other hd _) ?_ rfl rfl
    intro f hf
    rw [weigh_posts, weigh_other hd hf, weigh_other hd hf]
    · rfl
    · intro w hw
      obtain ⟨g, -, rfl⟩ := List.mem_map.1 hw
      exact Or.inl (connId_functor d g)
    · intro w hw
      rcases List.mem_append.1 hw with hw | hw
      · obtain ⟨k, -, rfl⟩ := List.mem_map.1 hw
        exact Or.inl rfl
      · exact hafter w hw

/-- One alteration after another one that adds no work and moves no pointer. -/
theorem Alters.after_update {g : Connection → Connection} {taken : List Work} {d : Change}
    {b : ConnId} (h : Alters (p.update b g) q c taken d) : Alters p q c taken d :=
  ⟨h.record, h.pending, h.entries, h.connection⟩

/-- Running a member function. -/
theorem Alters.execConn {t : ThreadId} {d : ConnId} {k : ConnTask} {after : List Work}
    (hafter : ∀ w ∈ after, w.connId = some d ∨ w.connId = none)
    (h : p.execConn t d k after = .ok q) :
    (d = c ∧ (p.conns c).destroyed = false ∧ ∃ eff, (p.conns c).conn.exec (some t) k = .ok eff ∧
        Alters p q c [] ⟨eff.calls.map (Work.conn c) ++ after,
          { (p.conns c).note k with conn := eff.conn }, 0, 0⟩) ∨
      (d ≠ c ∧ Alters p q c [] ⟨[], p.conns c, 0, 0⟩) := by
  obtain ⟨hlive, eff, heff, rfl⟩ := execConn_eq_ok.1 h
  have heffect : Alters (p.update d fun r => r.note k)
      ((p.update d fun r => r.note k).applyEffect t d eff after) c [] _ := applyEffect hafter
  have halters := heffect.after_update
  by_cases hd : d = c
  · subst hd
    obtain ⟨hposts, -⟩ := TcpConnection.exec_followUp heff
    rw [if_pos rfl, hposts, List.map_nil, List.append_nil, update_self] at halters
    exact Or.inl ⟨rfl, hlive, eff, heff, halters⟩
  · rw [if_neg hd, update_other hd] at halters
    exact Or.inr ⟨hd, halters⟩

/-! ## Entries of the map -/

/-- The pointers that an entry releases, when it holds the connection. -/
theorem weigh_releases_lookup {f : Work → Nat} (hf : ∀ w, w.connId ≠ some c → f w = 0)
    (v : Option (Option ConnId)) : weigh f (releases v.join.toList) =
      if v = some (some c) then f (.conn c .release) else 0 := by
  rcases v with _ | _ | d
  · rfl
  · rfl
  · have hone : weigh f (releases (some (some d)).join.toList) = f (.conn d .release) :=
      Nat.add_zero _
    rw [hone]
    by_cases hd : d = c
    · rw [if_pos (by rw [hd]), hd]
    · rw [if_neg (by simpa using hd)]
      exact hf _ fun h => hd (Option.some.inj h)

/-- Erasing an entry gives up the pointer in it. -/
theorem entries_erase_eq {m : AssocMap (List Char) (Option ConnId)} (h : m.Sorted)
    (k : List Char) (c : ConnId) : weigh (entryHolds c) (AssocMap.erase k m) +
      (if AssocMap.lookup k m = some (some c) then 1 else 0) = weigh (entryHolds c) m := by
  cases hv : AssocMap.lookup k m with
  | none =>
    have hsame : AssocMap.erase k m = m := by
      apply List.filter_eq_self.2
      intro e he
      have hne : e.1 ≠ k := by
        rintro rfl
        exact AssocMap.lookup_eq_none.1 hv (List.mem_map.2 ⟨e, he, rfl⟩)
      simpa using hne
    rw [hsame]
    rfl
  | some v =>
    rw [AssocMap.weigh_erase h.nodup (AssocMap.mem_of_lookup hv) (entryHolds c)]
    simp [entryHolds, Nat.add_comm]

/-- Assigning an entry gives up the pointer in it and takes another. -/
theorem entries_assign_eq {m : AssocMap (List Char) (Option ConnId)} (h : m.Sorted)
    (k : List Char) (c d : ConnId) : weigh (entryHolds c) (AssocMap.assign k (some d) m) +
      (if AssocMap.lookup k m = some (some c) then 1 else 0) =
        weigh (entryHolds c) m + if d = c then 1 else 0 := by
  have hweigh := h.weigh_assign (k := k) (v := some d) (entryHolds c)
  cases hv : AssocMap.lookup k m with
  | none => simpa [hv, entryHolds] using hweigh
  | some v => simpa [hv, entryHolds] using hweigh

/-- Emptying the next entry gives up the pointer in it. -/
theorem entries_reset_eq {m : AssocMap (List Char) (Option ConnId)} {k : List Char}
    {d : ConnId} (h : m.Sorted) (hnext : TcpServer.nextEntry m = some (k, d)) (c : ConnId) :
    weigh (entryHolds c) (TcpServer.resetEntry k m) + (if d = c then 1 else 0) =
      weigh (entryHolds c) m := by
  have hweigh := AssocMap.weigh_adjust (v := none) h.nodup (nextEntry_mem hnext) (entryHolds c)
  simpa [entryHolds, TcpServer.resetEntry] using hweigh

/-! ## Running a work item -/

/-- What the tasks of the server do to the connection. -/
theorem performs_server {t : ThreadId} {k : ServerTask} (h : p.server.connections_.Sorted)
    (hexec : TcpServer.exec p t k = .ok q) :
    (∃ d, Performs p c t (.server k) d ∧ Alters p q c [] d) ∨
      ∃ d, Meanwhile p c (.server k) d ∧ Alters p q c [] d := by
  obtain ⟨-, hexec⟩ := TcpServer.exec_eq_ok.1 hexec
  cases k with
  | removeConnection b =>
    obtain rfl := hexec
    by_cases hb : b = c
    · subst hb
      refine Or.inl ⟨_, .removeConnection, Alters.of_schedule rfl rfl rfl ?_ rfl rfl⟩
      intro f _
      rw [weigh_runInLoop]
      simp
    · refine Or.inr ⟨_, .nothing (by simpa [Work.connId] using hb),
        Alters.of_schedule rfl rfl rfl ?_ rfl rfl⟩
      intro f hf
      rw [weigh_runInLoop]
      exact hf _ (by simpa [Work.connId] using hb)
  | removeConnectionInLoop b =>
    obtain ⟨-, -, rfl⟩ := TcpServer.removeConnectionInLoop_eq_ok.1 hexec
    have hentries := entries_erase_eq h (p.conns b).conn.name_ c
    have hadded : ∀ f : Work → Nat, (∀ w, w.connId ≠ some c → f w = 0) →
        weigh f (releases (AssocMap.lookup (p.conns b).conn.name_
            p.server.connections_).join.toList ++
          callIf t (p.conns b).conn.loop_ (.bound b .connectDestroyed) ++
            [.conn b .release]) +
          weigh f ((postIf t (p.conns b).conn.loop_ (.bound b .connectDestroyed)).map
            Prod.snd) =
        (if AssocMap.lookup (p.conns b).conn.name_ p.server.connections_ = some (some c)
          then f (.conn c .release) else 0) + f (.bound b .connectDestroyed) +
            f (.conn b .release) := by
      intro f hf
      have hrun := weigh_runInLoop f t (p.conns b).conn.loop_ (.bound b .connectDestroyed)
      simp only [weigh_append, weigh_releases_lookup hf, weigh_cons, weigh_nil]
      omega
    by_cases hb : b = c
    · subst hb
      refine Or.inl ⟨_, .removeConnectionInLoop rfl,
        Alters.of_schedule rfl rfl (update_self ..) ?_ hentries rfl⟩
      intro f hf
      rw [hadded f hf]
      split_ifs <;> simp [Nat.add_assoc]
    · have hzero : ∀ f : Work → Nat, (∀ w, w.connId ≠ some c → f w = 0) →
          f (.bound b .connectDestroyed) = 0 ∧ f (.conn b .release) = 0 := by
        intro f hf
        exact ⟨hf _ (by simpa [Work.connId] using hb), hf _ (by simpa [Work.connId] using hb)⟩
      by_cases hlookup : AssocMap.lookup (p.conns b).conn.name_ p.server.connections_ =
          some (some c)
      · rw [if_pos hlookup] at hentries
        refine Or.inr ⟨_, .erased hb hlookup,
          Alters.of_schedule rfl rfl (update_other hb _) ?_ hentries rfl⟩
        intro f hf
        rw [hadded f hf, if_pos hlookup, (hzero f hf).1, (hzero f hf).2]
        simp
      · rw [if_neg hlookup] at hentries
        refine Or.inr ⟨_, .nothing (by simpa [Work.connId] using hb),
          Alters.of_schedule rfl rfl (update_other hb _) ?_ hentries rfl⟩
        intro f hf
        rw [hadded f hf, if_neg hlookup, (hzero f hf).1, (hzero f hf).2]
        rfl
  | destroyNext =>
    obtain rfl := hexec
    rcases TcpServer.destroyNext_cases p t with ⟨-, hq⟩ | ⟨k, b, hnext, hq⟩
    · rw [hq]
      refine Or.inr ⟨_, .nothing (Work.not_about rfl c), Alters.of_schedule rfl rfl rfl ?_ rfl rfl⟩
      intro f hf
      simp [hf (.server .quit) (Work.not_about rfl c)]
    · rw [hq]
      have hentries := entries_reset_eq h hnext c
      have hdestroy : ∀ f : Work → Nat, (∀ w, w.connId ≠ some c → f w = 0) →
          f (.server .destroyNext) = 0 := fun f hf => hf _ (Work.not_about rfl c)
      by_cases hb : b = c
      · subst hb
        rw [if_pos rfl] at hentries
        refine Or.inr ⟨_, .destroyNext hnext,
          Alters.of_schedule rfl rfl (update_self ..) ?_ hentries rfl⟩
        intro f hf
        have hrun := weigh_runInLoop f t (p.conns b).conn.loop_ (.bound b .connectDestroyed)
        simp only [weigh_append, weigh_cons, weigh_nil, hdestroy f hf]
        omega
      · rw [if_neg hb] at hentries
        refine Or.inr ⟨_, .nothing (Work.not_about rfl c),
          Alters.of_schedule rfl rfl (update_other hb _) ?_ hentries rfl⟩
        intro f hf
        have hrun := weigh_runInLoop f t (p.conns b).conn.loop_ (.bound b .connectDestroyed)
        have hbound : f (.bound b .connectDestroyed) = 0 := hf _ (by simpa [Work.connId] using hb)
        have hrelease : f (.conn b .release) = 0 := hf _ (by simpa [Work.connId] using hb)
        simp only [weigh_append, weigh_cons, weigh_nil, hdestroy f hf]
        omega
  | quit =>
    obtain rfl := hexec
    refine Or.inr ⟨_, .quit, Alters.of_schedule rfl rfl rfl ?_ (Nat.zero_add _) rfl⟩
    intro f hf
    have hnone : ∀ w ∈ TcpServer.joinPool p.server.pool ++ [.server .destroyed], f w = 0 := by
      intro w hw
      apply hf
      rcases List.mem_append.1 hw with hw | hw
      · obtain ⟨l, -, hw⟩ := List.mem_flatMap.1 hw
        simp only [List.mem_cons, List.not_mem_nil, or_false] at hw
        rcases hw with rfl | rfl <;> exact Work.not_about rfl c
      · rw [List.mem_singleton.1 hw]
        exact Work.not_about rfl c
    rw [weigh_eq_zero.2 hnone]
    rfl
  | quitLoop l =>
    obtain rfl := hexec
    exact Or.inr ⟨_, .nothing (Work.not_about rfl c), rfl, fun _ _ => rfl, rfl, rfl⟩
  | joinLoop l =>
    obtain rfl := hexec
    exact Or.inr ⟨_, .nothing (Work.not_about rfl c), rfl, fun _ _ => rfl, rfl, rfl⟩
  | destroyed =>
    obtain rfl := hexec
    exact Or.inr ⟨_, .nothing (Work.not_about rfl c), rfl, fun _ _ => rfl, rfl, rfl⟩

/-- The pointer of the client, when it holds the connection. -/
theorem weigh_releases_connection {f : Work → Nat} (hf : ∀ w, w.connId ≠ some c → f w = 0)
    (v : Option ConnId) : weigh f (releases v.toList) =
      if v = some c then f (.conn c .release) else 0 := by
  cases v with
  | none => rfl
  | some d => exact weigh_releases_lookup hf (some (some d)) |>.trans (by simp)

/-- What the tasks of the client do to the connection. -/
theorem performs_client {t : ThreadId} {peer : List Char} {k : ClientTask}
    (hc : c < p.nextConn) (hexec : p.exec t peer (.client k) = .ok q) :
    (∃ d, Performs p c t (.client k) d ∧ Alters p q c [] d) ∨
      ∃ d, Meanwhile p c (.client k) d ∧ Alters p q c [] d := by
  obtain ⟨-, hexec⟩ := exec_client_eq_ok.1 hexec
  cases k with
  | newConnection socket =>
    obtain ⟨-, rfl⟩ := TcpClient.newConnection_eq_ok.1 hexec
    have hnew : p.nextConn ≠ c := Ne.symm (Nat.ne_of_lt hc)
    have hadded : ∀ f : Work → Nat, (∀ w, w.connId ≠ some c → f w = 0) →
        weigh f (releases p.client.connection_.toList ++
          [.conn p.nextConn .connectEstablished, .conn p.nextConn .release]) =
        if p.client.connection_ = some c then f (.conn c .release) else 0 := by
      intro f hf
      rw [weigh_append, weigh_releases_connection hf, weigh_other hnew hf]
      · rfl
      · intro w hw
        simp only [List.mem_cons, List.not_mem_nil, or_false] at hw
        rcases hw with rfl | rfl <;> exact Or.inl rfl
    by_cases hconnection : p.client.connection_ = some c
    · refine Or.inr ⟨_, .replaced hconnection,
        Alters.of_schedule rfl rfl (Function.update_of_ne (Ne.symm hnew) _ _) ?_ rfl ?_⟩
      · intro f hf
        rw [hadded f hf, if_pos hconnection]
        simp
      · simp [designates, hconnection, hnew]
    · refine Or.inr ⟨_, .nothing nofun,
        Alters.of_schedule rfl rfl (Function.update_of_ne (Ne.symm hnew) _ _) ?_ rfl ?_⟩
      · intro f hf
        rw [hadded f hf, if_neg hconnection]
        rfl
      · simp [designates, hconnection, hnew]
  | removeConnection b =>
    obtain ⟨-, -, hconnection, rfl⟩ := TcpClient.removeConnection_eq_ok.1 hexec
    have hrestart : ∀ f : Work → Nat, (∀ w, w.connId ≠ some c → f w = 0) →
        weigh f (if p.client.retry_ && p.client.connect_ then [.connector .restart] else []) =
          0 := by
      intro f hf
      split_ifs
      · simp [hf (.connector .restart) nofun]
      · rfl
    by_cases hb : b = c
    · subst hb
      refine Or.inl ⟨_, .clientRemoves hconnection, Alters.of_schedule rfl rfl rfl ?_ rfl ?_⟩
      · intro f hf
        rw [weigh_cons, hrestart f hf]
        simp
      · simp [designates, hconnection]
    · refine Or.inr ⟨_, .nothing (by simpa [Work.connId] using hb),
        Alters.of_schedule rfl rfl rfl ?_ rfl ?_⟩
      · intro f hf
        rw [weigh_cons, hrestart f hf, hf (.conn b .release) (by simpa [Work.connId] using hb)]
        simpa using hf (.bound b .connectDestroyed) (by simpa [Work.connId] using hb)
      · simp [designates, hconnection, hb]
  | destroyed =>
    obtain rfl := hexec
    by_cases hconnection : p.client.connection_ = some c
    · refine Or.inr ⟨_, .clientDestroyed hconnection, Alters.of_schedule rfl rfl rfl ?_ rfl ?_⟩
      · intro f hf
        rw [weigh_releases_connection hf, if_pos hconnection]
        simp
      · simp [designates, hconnection]
    · refine Or.inr ⟨_, .nothing nofun, Alters.of_schedule rfl rfl rfl ?_ rfl ?_⟩
      · intro f hf
        rw [weigh_releases_connection hf, if_neg hconnection]
        rfl
      · simp [designates, hconnection]

/-- Running a work item, as the connection sees it. -/
theorem exec_performs {t : ThreadId} {peer : List Char} {w : Work} (hc : c < p.nextConn)
    (h : p.server.connections_.Sorted) (hexec : p.exec t peer w = .ok q) :
    (∃ d, Performs p c t w d ∧ Alters p q c [] d) ∨
      ∃ d, Meanwhile p c w d ∧ Alters p q c [] d := by
  cases w with
  | conn b k =>
    rcases exec_conn_eq_ok.1 hexec with ⟨rfl, hexec⟩ | ⟨rfl, hlive, rfl⟩ | ⟨⟨e, n, rfl⟩, rfl⟩ |
      ⟨hrelease, hclose, hwrite, hexec⟩
    · by_cases hb : b = c
      · subst hb
        rcases release_eq_ok.1 hexec with ⟨howners, hstate, rfl⟩ | ⟨howners, rfl⟩
        · exact Or.inl ⟨_, .destroyed howners hstate, update_self .., fun _ _ => rfl, rfl, rfl⟩
        · exact Or.inl ⟨_, .released howners, rfl, fun _ _ => rfl, rfl, rfl⟩
      · refine Or.inr ⟨_, .nothing (by simpa [Work.connId] using hb), ?_⟩
        rcases release_eq_ok.1 hexec with ⟨-, -, rfl⟩ | ⟨-, rfl⟩
        · exact ⟨update_other hb _, fun _ _ => rfl, rfl, rfl⟩
        · exact ⟨rfl, fun _ _ => rfl, rfl, rfl⟩
    · by_cases hb : b = c
      · subst hb
        exact Or.inl ⟨_, .closed hlive, Alters.of_schedule rfl rfl rfl (fun _ _ => rfl) rfl rfl⟩
      · refine Or.inr ⟨_, .nothing (by simpa [Work.connId] using hb),
          Alters.of_schedule rfl rfl rfl ?_ rfl rfl⟩
        intro f hf
        rw [weigh_other hb hf]
        · rfl
        · intro w hw
          rw [List.mem_singleton.1 hw]
          unfold Connection.closeTask
          split <;> exact Or.inl rfl
    · by_cases hb : b = c
      · subst hb
        exact Or.inl ⟨_, .writeFailed, rfl, fun _ _ => rfl, rfl, rfl⟩
      · exact Or.inr ⟨_, .nothing (by simpa [Work.connId] using hb), rfl, fun _ _ => rfl, rfl, rfl⟩
    · rcases Alters.execConn (c := c) (by simp) hexec with
        ⟨rfl, hlive, eff, heff, halters⟩ | ⟨hb, halters⟩
      · rw [List.append_nil] at halters
        exact Or.inl ⟨_, .task hrelease hclose hwrite hlive heff, halters⟩
      · exact Or.inr ⟨_, .nothing (by simpa [Work.connId] using hb), halters⟩
  | bound b k =>
    have hafter : ∀ w ∈ [Work.conn b .release], w.connId = some b ∨ w.connId = none := by
      intro w hw
      rw [List.mem_singleton.1 hw]
      exact Or.inl rfl
    rcases Alters.execConn (c := c) hafter hexec with
      ⟨rfl, hlive, eff, heff, halters⟩ | ⟨hb, halters⟩
    · exact Or.inl ⟨_, .bound hlive heff, halters⟩
    · exact Or.inr ⟨_, .nothing (by simpa [Work.connId] using hb), halters⟩
  | setCloseCallback b =>
    obtain rfl := pure_eq_ok.1 hexec
    by_cases hb : b = c
    · subst hb
      exact Or.inl ⟨_, .setCloseCallback,
        Alters.of_schedule rfl rfl (update_self ..) (fun _ _ => rfl) rfl rfl⟩
    · refine Or.inr ⟨_, .nothing (by simpa [Work.connId] using hb),
        Alters.of_schedule rfl rfl (update_other hb _) ?_ rfl rfl⟩
      intro f hf
      simpa using hf (.conn b .release) (by simpa [Work.connId] using hb)
  | server k => exact performs_server h hexec
  | client k => exact performs_client hc hexec
  | connector k => exact Or.inr ⟨_, .nothing nofun, Alters.of_aside (Aside.execConnector hexec)⟩
  | handleTimer timer error =>
    obtain rfl := pure_eq_ok.1 hexec
    exact Or.inr ⟨_, .nothing nofun, Alters.of_aside Aside.handleTimer⟩
  | eraseTimer timer =>
    obtain rfl := pure_eq_ok.1 hexec
    exact Or.inr ⟨_, .nothing nofun, rfl, fun _ _ => rfl, rfl, rfl⟩

/-! ## Steps -/

/-- Two alterations of the connection add up. -/
theorem Alters.trans {taken : List Work} {d e : Change} (h : Alters p q c taken d)
    (h' : Alters q r c [] e) : Alters p r c taken ⟨d.added ++ e.added, e.record,
      d.unlisted + e.unlisted, d.undesignated + e.undesignated⟩ := by
  refine ⟨h'.record, ?_, ?_, ?_⟩
  · intro f hf
    have hfirst := h.pending f hf
    have hsecond := h'.pending f hf
    rw [weigh_nil] at hsecond
    rw [weigh_append]
    omega
  · have hfirst := h.entries
    have hsecond := h'.entries
    show r.entriesOf c + (d.unlisted + e.unlisted) = p.entriesOf c
    omega
  · have hfirst := h.connection
    have hsecond := h'.connection
    show r.designates c + (d.undesignated + e.undesignated) = p.designates c
    omega

/-- Of the added work only its weight matters. -/
theorem Alters.congr {taken : List Work} {d e : Change} (h : Alters p q c taken d)
    (hadded : ∀ f : Work → Nat, (∀ w, w.connId ≠ some c → f w = 0) →
      weigh f d.added = weigh f e.added)
    (hrecord : d.record = e.record) (hunlisted : d.unlisted = e.unlisted)
    (hundesignated : d.undesignated = e.undesignated) : Alters p q c taken e := by
  refine ⟨h.record.trans hrecord, ?_, hunlisted ▸ h.entries, hundesignated ▸ h.connection⟩
  intro f hf
  rw [← hadded f hf]
  exact h.pending f hf

/-- What leaves all connections alone adds nothing. -/
theorem Alters.then_aside {taken : List Work} {d : Change} (h : Alters p q c taken d)
    (ha : Aside q r) : Alters p r c taken d := by
  refine (h.trans (of_aside ha)).congr ?_ h.record rfl rfl
  intro f _
  rw [List.append_nil]

/-- What is performed for the connection is about it. -/
theorem Performs.connId {t : ThreadId} {w : Work} {d : Change} (h : Performs p c t w d) :
    w.connId = some c := by
  cases h <;> rfl

/-- What happens meanwhile is about something else. -/
theorem Meanwhile.connId {w : Work} {d : Change} (h : Meanwhile p c w d) :
    w.connId ≠ some c := by
  cases h with
  | erased hd => exact fun h => hd (Option.some.inj h)
  | destroyNext | quit | replaced | clientDestroyed => exact nofun
  | nothing hw => exact hw

/-- What running a work item does to the connection. -/
theorem touches_run {t : ThreadId} {peer : List Char} (hc : c < p.nextConn)
    (h : p.server.connections_.Sorted) (hstep : step (.run t peer) p = .ok q) :
    ∃ taken d, Touches p c (.run t peer) taken d ∧ Alters p q c taken d := by
  obtain ⟨w, rest, htake, -, hexec⟩ := run_eq_ok.1 hstep
  rcases exec_performs (p := { p with stack := rest }) hc h hexec with
    ⟨d, hperforms, halters⟩ | ⟨d, hmeanwhile, halters⟩
  · refine ⟨_, d, .run htake hperforms, halters.record, ?_, halters.entries, halters.connection⟩
    intro f hf
    have hpop := weigh_pop f htake
    have hadded := halters.pending f hf
    rw [weigh_nil] at hadded
    rw [weigh_cons, weigh_nil]
    omega
  · refine ⟨_, d, .meanwhile htake hmeanwhile, halters.record, ?_, halters.entries,
      halters.connection⟩
    intro f hf
    have hpop := weigh_pop f htake
    have hadded := halters.pending f hf
    rw [hf w hmeanwhile.connId] at hpop
    rw [weigh_nil] at hadded ⊢
    omega

/-- What the return of a callback does to the connection. -/
theorem touches_return {t : ThreadId} (hstep : step (.return_ t) p = .ok q) :
    ∃ taken d, Touches p c (.return_ t) taken d ∧ Alters p q c taken d := by
  obtain ⟨b, k, rest, htake, rfl⟩ := return_eq_ok.1 hstep
  by_cases hb : b = c
  · subst hb
    refine ⟨_, _, .returned (head_stackOf htake), rfl, ?_, rfl, rfl⟩
    intro f _
    have hpop := weigh_pop f htake
    simp only [weigh_cons, weigh_nil]
    omega
  · refine ⟨_, _, .nothing nofun, rfl, ?_, rfl, rfl⟩
    intro f hf
    have hpop := weigh_pop f htake
    have hzero := hf (.conn b (.inCallback k)) (by simpa [Work.connId] using hb)
    simp only [weigh_nil]
    omega

/-- The kernel completes an operation of some connection. -/
theorem alters_complete {b : ConnId} {s : TcpConnection × ConnTask} :
    Alters p (p.complete b s) c [] (if b = c then
      ⟨[.conn c s.2], { p.conns c with conn := s.1 }, 0, 0⟩ else ⟨[], p.conns c, 0, 0⟩) := by
  have hpending : ∀ f : Work → Nat, weigh f (p.complete b s).pending =
      weigh f p.pending + f (.conn b s.2) :=
    fun f => weigh_post f (p.update b fun r => { r with conn := s.1 }) s.1.loop_ (.conn b s.2)
  split_ifs with hb
  · subst hb
    refine ⟨update_self p b fun r => { r with conn := s.1 }, ?_, rfl, rfl⟩
    intro f _
    rw [hpending]
    simp
  · refine ⟨update_other (p := p) hb fun r => { r with conn := s.1 }, ?_, rfl, rfl⟩
    intro f hf
    rw [hpending, hf (.conn b s.2) (by simpa [Work.connId] using hb)]
    rfl

/-- The destructor of the client takes a pointer to its connection along. -/
theorem alters_setCloseCallback {t : ThreadId} {b : ConnId} (h : Placed p)
    (hconnection : p.client.connection_ = some b) :
    Alters p (TcpClient.setCloseCallback p t b) c []
      ⟨if b = c then p.closeCallbackSetter t c else [], p.conns c, 0, 0⟩ := by
  unfold TcpClient.setCloseCallback closeCallbackSetter
  by_cases ht : t = p.client.loop_
  · simp only [if_pos ht, ite_self]
    refine ⟨?_, fun _ _ => rfl, rfl, rfl⟩
    by_cases hb : b = c
    · subst hb
      refine (update_self ..).trans ?_
      rw [← (h.connection b hconnection).2]
    · exact update_other hb _
  · simp only [if_neg ht]
    refine Alters.of_schedule rfl rfl rfl ?_ rfl rfl
    intro f hf
    by_cases hb : b = c
    · subst hb
      simp
    · rw [if_neg hb]
      simpa using hf (.setCloseCallback b) (by simpa [Work.connId] using hb)

/-- What the destructor of the client does to the connection. -/
theorem touches_destroyClient {t : ThreadId} (h : Placed p)
    (hstep : step (.destroyClient t) p = .ok q) :
    ∃ taken d, Touches p c (.destroyClient t) taken d ∧ Alters p q c taken d := by
  obtain ⟨-, hexec⟩ := destroyClient_eq_ok.1 hstep
  rcases TcpClient.destructor_eq_ok.1 hexec with ⟨-, rfl⟩ | ⟨b, hconnection, -, hcase⟩
  · have hlife : Alters p { p with client := { p.client with life := .destructing } } c []
        ⟨[], p.conns c, 0, 0⟩ := ⟨rfl, fun _ _ => rfl, rfl, rfl⟩
    refine ⟨_, _, .nothing nofun, hlife.then_aside (Aside.stop.trans (Aside.schedule ?_ nofun))⟩
    intro w hw
    rw [List.mem_singleton.1 hw]
    rfl
  · have hset := alters_setCloseCallback (t := t) (c := c) h hconnection
    have hafter : ∀ w ∈ [Work.conn b .release, .client .destroyed],
        w.connId = some b ∨ w.connId = none := by
      intro w hw
      simp only [List.mem_cons, List.not_mem_nil, or_false] at hw
      rcases hw with rfl | rfl
      · exact Or.inl rfl
      · exact Or.inr rfl
    rcases hcase with ⟨howners, rfl⟩ | ⟨howners, rfl⟩
    · have heffect : Alters (TcpClient.setCloseCallback p t b)
          ((TcpClient.setCloseCallback p t b).applyEffect t b
            ((p.conns b).conn.forceClose (some t)) [.conn b .release, .client .destroyed]) c [] _ :=
        Alters.applyEffect hafter
      have hforce := hset.trans heffect
      by_cases hb : b = c
      · subst hb
        simp only [if_pos] at hforce
        refine ⟨_, _, .forced hconnection howners rfl, hforce.congr ?_ ?_ rfl rfl⟩
        · intro f hf
          simp only [weigh_append, weigh_cons, weigh_nil, hf (.client .destroyed) nofun]
          omega
        · rw [hset.record]
      · simp only [if_neg hb] at hforce
        exact ⟨_, _, .nothing nofun, hforce.congr (fun _ _ => rfl) hset.record rfl rfl⟩
    · have hrelease : Alters (TcpClient.setCloseCallback p t b)
          ((TcpClient.setCloseCallback p t b).schedule t
            [.conn b .release, .client .destroyed] []) c []
          ⟨if b = c then [.conn c .release] else [], p.conns c, 0, 0⟩ := by
        refine Alters.of_schedule rfl rfl hset.record ?_ rfl rfl
        intro f hf
        by_cases hb : b = c
        · subst hb
          simp [hf (.client .destroyed) nofun]
        · rw [weigh_other hb hf hafter, if_neg hb]
          rfl
      have hspare := hset.trans hrelease
      by_cases hb : b = c
      · subst hb
        simp only [if_pos] at hspare
        exact ⟨_, _, .spared hconnection howners, hspare⟩
      · simp only [if_neg hb] at hspare
        exact ⟨_, _, .nothing nofun, hspare⟩

/-- What `disconnect` does to the connection. -/
theorem touches_disconnect {t : ThreadId} :
    ∃ taken d, Touches p c (.clientCall t .disconnect) taken d ∧
      Alters p (TcpClient.disconnect p t) c taken d := by
  unfold TcpClient.disconnect
  cases hconnection : p.client.connection_ with
  | none => exact ⟨_, _, .nothing nofun, rfl, fun _ _ => rfl, rfl, rfl⟩
  | some b =>
    have hset : Alters p { p with client := { p.client with connect_ := false } } c []
        ⟨[], p.conns c, 0, 0⟩ := ⟨rfl, fun _ _ => rfl, rfl, rfl⟩
    have heffect : Alters { p with client := { p.client with connect_ := false } }
        (Process.applyEffect { p with client := { p.client with connect_ := false } } t b
          ((p.conns b).conn.shutdown (some t)) []) c [] _ :=
      Alters.applyEffect nofun
    have hshutdown := hset.trans heffect
    by_cases hb : b = c
    · subst hb
      simp only [if_pos, List.append_nil] at hshutdown
      exact ⟨_, _, .disconnected hconnection rfl, hshutdown⟩
    · simp only [if_neg hb] at hshutdown
      exact ⟨_, _, .nothing nofun, hshutdown⟩

/-- A step changes a connection that was made as listed. -/
theorem step_touches {e : ProcessEvent} (h : Placed p) (hsorted : p.server.connections_.Sorted)
    (hc : c < p.nextConn) (hstep : step e p = .ok q) :
    ∃ taken d, Touches p c e taken d ∧ Alters p q c taken d := by
  cases e with
  | dequeue l =>
    obtain ⟨-, w, rest, htake, rfl⟩ := dequeue_eq_ok.1 hstep
    exact ⟨_, _, .nothing (by rintro _ _ ⟨⟩), rfl, fun f _ => weigh_dequeue f htake, rfl, rfl⟩
  | run t peer => exact touches_run hc hsorted hstep
  | return_ t => exact touches_return hstep
  | call t b x =>
    obtain ⟨hreaches, eff, heff, rfl⟩ := call_eq_ok.1 hstep
    have hcall : Alters p (p.applyEffect t b eff []) c [] _ :=
      Alters.applyEffect (List.forall_mem_nil _)
    by_cases hb : b = c
    · subst hb
      simp only [if_pos, List.append_nil] at hcall
      exact ⟨_, _, .called hreaches heff, hcall⟩
    · simp only [if_neg hb] at hcall
      exact ⟨_, _, .nothing (by rintro _ _ ⟨⟩), hcall⟩
  | keep t b =>
    obtain ⟨hin, rfl⟩ := keep_eq_ok.1 hstep
    by_cases hb : b = c
    · subst hb
      exact ⟨_, _, .kept hin, update_self .., fun _ _ => rfl, rfl, rfl⟩
    · exact ⟨_, _, .nothing (by rintro _ _ ⟨⟩), update_other hb _, fun _ _ => rfl, rfl, rfl⟩
  | keepConnection t =>
    obtain ⟨-, b, hconnection, rfl⟩ := keepConnection_eq_ok.1 hstep
    by_cases hb : b = c
    · subst hb
      exact ⟨_, _, .keptConnection hconnection, update_self .., fun _ _ => rfl, rfl, rfl⟩
    · exact ⟨_, _, .nothing (by rintro _ _ ⟨⟩), update_other hb _, fun _ _ => rfl, rfl, rfl⟩
  | drop t b =>
    obtain ⟨⟨-, hrefs⟩, rfl⟩ := drop_eq_ok.1 hstep
    by_cases hb : b = c
    · subst hb
      exact ⟨_, _, .dropped hrefs,
        Alters.of_schedule rfl rfl (update_self ..) (fun _ _ => rfl) rfl rfl⟩
    · refine ⟨_, _, .nothing (by rintro _ _ ⟨⟩),
        Alters.of_schedule rfl rfl (update_other hb _) ?_ rfl rfl⟩
      intro f hf
      simpa using hf (.conn b .release) (by simpa [Work.connId] using hb)
  | consume t b len =>
    obtain ⟨-, r, -, rfl⟩ := consume_eq_ok.1 hstep
    by_cases hb : b = c
    · subst hb
      exact ⟨_, _, .consumed, update_self .., fun _ _ => rfl, rfl, rfl⟩
    · exact ⟨_, _, .nothing (by rintro _ _ ⟨⟩), update_other hb _, fun _ _ => rfl, rfl, rfl⟩
  | receive b data =>
    obtain ⟨-, r, hr, rfl⟩ := receive_eq_ok.1 hstep
    have hcomplete := alters_complete (p := p) (c := c) (b := b) (s := r)
    by_cases hb : b = c
    · subst hb
      exact ⟨_, _, .received hr, by simpa only [if_pos] using hcomplete⟩
    · exact ⟨_, _, .nothing (by rintro _ _ ⟨⟩), by simpa only [if_neg hb] using hcomplete⟩
  | readFails b e =>
    obtain ⟨-, r, hr, rfl⟩ := readFails_eq_ok.1 hstep
    have hcomplete := alters_complete (p := p) (c := c) (b := b) (s := r)
    by_cases hb : b = c
    · subst hb
      exact ⟨_, _, .readFailed hr, by simpa only [if_pos] using hcomplete⟩
    · exact ⟨_, _, .nothing (by rintro _ _ ⟨⟩), by simpa only [if_neg hb] using hcomplete⟩
  | transmit b k stale =>
    obtain ⟨-, r, hr, rfl⟩ := transmit_eq_ok.1 hstep
    have hcomplete := alters_complete (p := p) (c := c) (b := b) (s := (r.1, r.2.2))
    by_cases hb : b = c
    · subst hb
      exact ⟨_, _, .transmitted hr, by simpa only [if_pos] using hcomplete⟩
    · exact ⟨_, _, .nothing (by rintro _ _ ⟨⟩), by simpa only [if_neg hb] using hcomplete⟩
  | sendFails b e =>
    obtain ⟨-, r, hr, rfl⟩ := sendFails_eq_ok.1 hstep
    have hcomplete := alters_complete (p := p) (c := c) (b := b) (s := r)
    by_cases hb : b = c
    · subst hb
      exact ⟨_, _, .sendFailed hr, by simpa only [if_pos] using hcomplete⟩
    · exact ⟨_, _, .nothing (by rintro _ _ ⟨⟩), by simpa only [if_neg hb] using hcomplete⟩
  | accept ioLoop =>
    obtain ⟨⟨hlife, -⟩, rfl⟩ := accept_eq_ok.1 hstep
    have hnew : p.nextConn ≠ c := Ne.symm (Nat.ne_of_lt hc)
    have hentries := entries_assign_eq hsorted p.server.connName c p.nextConn
    rw [if_neg hnew] at hentries
    have hadded : ∀ f : Work → Nat, (∀ w, w.connId ≠ some c → f w = 0) →
        weigh f (releases (AssocMap.lookup p.server.connName p.server.connections_).join.toList ++
          callIf p.server.loop_ ioLoop (.bound p.nextConn .connectEstablished) ++
            [.conn p.nextConn .release]) +
          weigh f ((postIf p.server.loop_ ioLoop (.bound p.nextConn .connectEstablished)).map
            Prod.snd) =
        if AssocMap.lookup p.server.connName p.server.connections_ = some (some c)
          then f (.conn c .release) else 0 := by
      intro f hf
      have hrun := weigh_runInLoop f p.server.loop_ ioLoop
        (.bound p.nextConn .connectEstablished)
      have hbound : f (.bound p.nextConn .connectEstablished) = 0 :=
        hf _ (by simpa [Work.connId] using hnew)
      have hrelease : f (.conn p.nextConn .release) = 0 :=
        hf _ (by simpa [Work.connId] using hnew)
      simp only [weigh_append, weigh_releases_lookup hf, weigh_cons, weigh_nil]
      omega
    by_cases hlookup : AssocMap.lookup p.server.connName p.server.connections_ = some (some c)
    · rw [if_pos hlookup] at hentries
      refine ⟨_, _, .replaced hlife hlookup,
        Alters.of_schedule rfl rfl (Function.update_of_ne (Ne.symm hnew) _ _) ?_ hentries rfl⟩
      intro f hf
      rw [hadded f hf, if_pos hlookup]
      simp
    · rw [if_neg hlookup] at hentries
      refine ⟨_, _, .nothing (by rintro _ _ ⟨⟩),
        Alters.of_schedule rfl rfl (Function.update_of_ne (Ne.symm hnew) _ _) ?_ hentries rfl⟩
      intro f hf
      rw [hadded f hf, if_neg hlookup]
      rfl
  | destroyServer t =>
    obtain ⟨-, hexec⟩ := destroyServer_eq_ok.1 hstep
    obtain ⟨-, rfl⟩ := TcpServer.destructor_eq_ok.1 hexec
    refine ⟨_, _, .nothing (by rintro _ _ ⟨⟩), Alters.of_schedule rfl rfl rfl ?_ rfl rfl⟩
    intro f hf
    simp [hf (.server .destroyNext) (Work.not_about rfl c)]
  | clientCall t x =>
    obtain ⟨-, rfl⟩ := clientCall_eq_ok.1 hstep
    have hclient : ∀ u : TcpClient, u.connection_ = p.client.connection_ →
        Alters p { p with client := u } c [] ⟨[], p.conns c, 0, 0⟩ := by
      intro u hu
      refine ⟨rfl, fun _ _ => rfl, rfl, ?_⟩
      unfold designates
      rw [← hu]
      rfl
    cases x with
    | connect =>
      exact ⟨_, _, .nothing (by rintro _ _ ⟨⟩),
        (hclient { p.client with connect_ := true } rfl).then_aside Aside.start⟩
    | disconnect => exact touches_disconnect
    | stop =>
      exact ⟨_, _, .nothing (by rintro _ _ ⟨⟩),
        (hclient { p.client with connect_ := false } rfl).then_aside Aside.stop⟩
    | enableRetry => exact ⟨_, _, .nothing (by rintro _ _ ⟨⟩), hclient _ rfl⟩
  | connectorCall t x =>
    obtain ⟨-, rfl⟩ := connectorCall_eq_ok.1 hstep
    cases x with
    | start => exact ⟨_, _, .nothing (by rintro _ _ ⟨⟩), Alters.of_aside Aside.start⟩
    | stop => exact ⟨_, _, .nothing (by rintro _ _ ⟨⟩), Alters.of_aside Aside.stop⟩
    | restart =>
      refine ⟨_, _, .nothing (by rintro _ _ ⟨⟩), Alters.of_schedule rfl rfl rfl ?_ rfl rfl⟩
      intro f hf
      simp [hf (.connector .restart) (Work.not_about rfl c)]
  | destroyClient t => exact touches_destroyClient h hstep
  | connectDone socket error =>
    obtain ⟨-, rfl⟩ := connectDone_eq_ok.1 hstep
    have hset : Aside p { p with sockets := { p.sockets with
        connecting := p.sockets.connecting.erase socket } } := Aside.attempts
    exact ⟨_, _, .nothing (by rintro _ _ ⟨⟩), Alters.of_aside (hset.trans (Aside.post rfl))⟩
  | timerExpires timer =>
    obtain ⟨-, rfl⟩ := timerExpires_eq_ok.1 hstep
    have hset : Aside p { p with timers := p.timers.setStatus timer .expired } :=
      Aside.attempts
    exact ⟨_, _, .nothing (by rintro _ _ ⟨⟩), Alters.of_aside (hset.trans (Aside.post rfl))⟩

/-! ## New connections -/

/-- A step makes a connection, with what establishes it as the first work about it; the numbers
say whether the map and the client hold it. -/
inductive Makes (p : Process) : ProcessEvent → Change → Nat → Nat → Prop
  | accepts {ioLoop : LoopId} (hlife : p.server.life = .alive) :
      Makes p (.accept ioLoop)
        ⟨[.bound p.nextConn .connectEstablished, .conn p.nextConn .release],
          Connection.make (TcpConnection.make ioLoop p.server.connName p.server.messageCallback_
            p.server.writeCompleteCallback_) .server none, 0, 0⟩ 1 0
  | connects {t : ThreadId} {peer : List Char} {socket : SockId}
      (hhead : (p.stackOf t).head? = some (.client (.newConnection socket))) :
      Makes p (.run t peer)
        ⟨[.conn p.nextConn .connectEstablished, .conn p.nextConn .release],
          Connection.make (TcpConnection.make p.client.loop_ (p.client.connName peer)
            p.client.messageCallback_ p.client.writeCompleteCallback_) .client (some socket),
          0, 0⟩ 0 1

/-- The connection has come into being. -/
structure Born (q : Process) (c : ConnId) (d : Change) (n m : Nat) : Prop where
  record : q.conns c = d.record
  pending : ∀ f : Work → Nat, (∀ w, w.connId ≠ some c → f w = 0) →
    weigh f q.pending = weigh f d.added
  entries : q.entriesOf c = n
  connection : q.designates c = m

/-- Nothing pending is about a connection that was not made. -/
theorem Placed.weigh_fresh (h : Placed p) (hc : p.nextConn ≤ c) {f : Work → Nat}
    (hf : ∀ w, w.connId ≠ some c → f w = 0) : weigh f p.pending = 0 := by
  apply weigh_eq_zero.2
  intro w hw
  apply hf
  intro hconn
  have hlt : c < p.nextConn := by
    rcases List.mem_append.1 hw with hw | hw
    · obtain ⟨e, he, rfl⟩ := List.mem_map.1 hw
      exact (h.stack e he).made c hconn
    · obtain ⟨e, he, rfl⟩ := List.mem_map.1 hw
      exact (h.queue e he).made c hconn
  exact Nat.not_lt.2 hc hlt

/-- A connection that was not made has no entry. -/
theorem Placed.entriesOf_fresh (h : Placed p) (hc : p.nextConn ≤ c) : p.entriesOf c = 0 := by
  apply weigh_eq_zero.2
  rintro ⟨k, v⟩ he
  have hne : v ≠ some c := by
    rintro rfl
    exact Nat.not_lt.2 hc (h.entries _ he c rfl).1
  exact if_neg hne

/-- Work leaves the number of connections, unless the client makes one. -/
theorem exec_nextConn {t : ThreadId} {peer : List Char} {w : Work}
    (h : p.exec t peer w = .ok q) (hw : ∀ k, w ≠ .client (.newConnection k)) :
    q.nextConn = p.nextConn := by
  cases w with
  | conn b k =>
    rcases exec_conn_eq_ok.1 h with ⟨-, h⟩ | ⟨-, -, rfl⟩ | ⟨-, rfl⟩ | ⟨-, -, -, h⟩
    · rcases release_eq_ok.1 h with ⟨-, -, rfl⟩ | ⟨-, rfl⟩ <;> rfl
    · rfl
    · rfl
    · obtain ⟨-, e, -, rfl⟩ := execConn_eq_ok.1 h
      rfl
  | bound b k =>
    obtain ⟨-, e, -, rfl⟩ := execConn_eq_ok.1 h
    rfl
  | setCloseCallback b =>
    obtain rfl := pure_eq_ok.1 h
    rfl
  | server k =>
    obtain ⟨-, h⟩ := TcpServer.exec_eq_ok.1 h
    cases k with
    | removeConnectionInLoop b =>
      obtain ⟨-, -, rfl⟩ := TcpServer.removeConnectionInLoop_eq_ok.1 h
      rfl
    | destroyNext =>
      obtain rfl := h
      rcases TcpServer.destroyNext_cases p t with ⟨-, hq⟩ | ⟨k, b, -, hq⟩
      · rw [hq]
        rfl
      · rw [hq]
        rfl
    | removeConnection | quit | quitLoop | joinLoop | destroyed =>
      obtain rfl := h
      rfl
  | client k =>
    obtain ⟨-, h⟩ := exec_client_eq_ok.1 h
    cases k with
    | newConnection socket => exact absurd rfl (hw socket)
    | removeConnection b =>
      obtain ⟨-, -, -, rfl⟩ := TcpClient.removeConnection_eq_ok.1 h
      rfl
    | destroyed =>
      obtain rfl := h
      rfl
  | connector k => exact (Aside.execConnector h).nextConn
  | handleTimer timer error =>
    obtain rfl := pure_eq_ok.1 h
    exact Aside.handleTimer.nextConn
  | eraseTimer timer =>
    obtain rfl := pure_eq_ok.1 h
    rfl

/-- Running a work item makes one connection at most. -/
theorem makes_run {t : ThreadId} {peer : List Char} (h : Placed p)
    (hstep : step (.run t peer) p = .ok q) : q.nextConn = p.nextConn ∨
      (q.nextConn = p.nextConn + 1 ∧
        ∃ d n m, Makes p (.run t peer) d n m ∧ Born q p.nextConn d n m) := by
  obtain ⟨w, rest, htake, -, hexec⟩ := run_eq_ok.1 hstep
  by_cases hw : ∃ socket, w = .client (.newConnection socket)
  · obtain ⟨socket, rfl⟩ := hw
    obtain ⟨-, hexec⟩ := exec_client_eq_ok.1 hexec
    obtain ⟨-, rfl⟩ := TcpClient.newConnection_eq_ok.1 hexec
    refine Or.inr ⟨rfl, _, _, _, .connects (head_stackOf htake), ?_, ?_, ?_, ?_⟩
    · exact Function.update_self ..
    · intro f hf
      have hold := h.weigh_fresh (Nat.le_refl _) hf
      have hpop := weigh_pop f htake
      have hadded := weigh_schedule f ({ p with
        stack := rest
        conns := Function.update p.conns p.nextConn
          (Connection.make (TcpConnection.make p.client.loop_ (p.client.connName peer)
            p.client.messageCallback_ p.client.writeCompleteCallback_) .client (some socket))
        nextConn := p.nextConn + 1
        client := { p.client with
          nextConnId_ := nextInt p.client.nextConnId_
          connection_ := some p.nextConn } } : Process) t
        (releases p.client.connection_.toList ++
          [.conn p.nextConn .connectEstablished, .conn p.nextConn .release]) []
      have hreleases : weigh f (releases p.client.connection_.toList) = 0 := by
        rw [weigh_releases_connection hf, if_neg]
        intro hconnection
        exact Nat.lt_irrefl _ (h.connection _ hconnection).1
      refine hadded.trans ?_
      have hsame : weigh f ({ p with stack := rest } : Process).pending = 0 := by omega
      have hrest : weigh f ({ p with
        stack := rest
        conns := Function.update p.conns p.nextConn
          (Connection.make (TcpConnection.make p.client.loop_ (p.client.connName peer)
            p.client.messageCallback_ p.client.writeCompleteCallback_) .client (some socket))
        nextConn := p.nextConn + 1
        client := { p.client with
          nextConnId_ := nextInt p.client.nextConnId_
          connection_ := some p.nextConn } } : Process).pending = 0 := hsame
      rw [hrest, weigh_append, hreleases]
      simp
    · exact h.entriesOf_fresh (Nat.le_refl _)
    · exact if_pos rfl
  · exact Or.inl ((exec_nextConn hexec fun k hk => hw ⟨k, hk⟩).trans rfl)

/-- A step makes no connection, or one as listed. -/
theorem step_makes {e : ProcessEvent} (h : Placed p) (hsorted : p.server.connections_.Sorted)
    (hstep : step e p = .ok q) : q.nextConn = p.nextConn ∨
      (q.nextConn = p.nextConn + 1 ∧
        ∃ d n m, Makes p e d n m ∧ Born q p.nextConn d n m) := by
  cases e with
  | run t peer => exact makes_run h hstep
  | accept ioLoop =>
    obtain ⟨⟨hlife, -⟩, rfl⟩ := accept_eq_ok.1 hstep
    refine Or.inr ⟨rfl, _, _, _, .accepts hlife, ?_, ?_, ?_, ?_⟩
    · exact Function.update_self ..
    · intro f hf
      have hold := h.weigh_fresh (Nat.le_refl _) hf
      have hrun := weigh_runInLoop f p.server.loop_ ioLoop
        (.bound p.nextConn .connectEstablished)
      have hreleases : weigh f (releases (AssocMap.lookup p.server.connName
          p.server.connections_).join.toList) = 0 := by
        rw [weigh_releases_lookup hf, if_neg]
        intro hlookup
        exact Nat.lt_irrefl _ (h.entries _ (AssocMap.mem_of_lookup hlookup) _ rfl).1
      unfold TcpServer.newConnection
      rw [weigh_schedule]
      have hsame : ∀ (g : ConnId → Connection) (n : ConnId) (s : TcpServer),
          weigh f ({ p with conns := g, nextConn := n, server := s } : Process).pending = 0 :=
        fun _ _ _ => hold
      simp only [hsame, weigh_append, hreleases, weigh_cons, weigh_nil]
      omega
    · have hentries := entries_assign_eq hsorted p.server.connName p.nextConn p.nextConn
      have hnone : AssocMap.lookup p.server.connName p.server.connections_ ≠
          some (some p.nextConn) := by
        intro hlookup
        exact Nat.lt_irrefl _ (h.entries _ (AssocMap.mem_of_lookup hlookup) _ rfl).1
      have hfresh : weigh (entryHolds p.nextConn) p.server.connections_ = 0 :=
        h.entriesOf_fresh (Nat.le_refl _)
      rw [if_neg hnone, if_pos rfl, hfresh] at hentries
      exact hentries
    · unfold designates
      rw [if_neg]
      intro hconnection
      exact Nat.lt_irrefl _ (h.connection _ hconnection).1
  | dequeue l =>
    obtain ⟨-, w, rest, -, rfl⟩ := dequeue_eq_ok.1 hstep
    exact Or.inl rfl
  | return_ t =>
    obtain ⟨b, k, rest, -, rfl⟩ := return_eq_ok.1 hstep
    exact Or.inl rfl
  | call t b x =>
    obtain ⟨-, eff, -, rfl⟩ := call_eq_ok.1 hstep
    exact Or.inl rfl
  | keep t b =>
    obtain ⟨-, rfl⟩ := keep_eq_ok.1 hstep
    exact Or.inl rfl
  | keepConnection t =>
    obtain ⟨-, b, -, rfl⟩ := keepConnection_eq_ok.1 hstep
    exact Or.inl rfl
  | drop t b =>
    obtain ⟨-, rfl⟩ := drop_eq_ok.1 hstep
    exact Or.inl rfl
  | consume t b len =>
    obtain ⟨-, r, -, rfl⟩ := consume_eq_ok.1 hstep
    exact Or.inl rfl
  | receive b data =>
    obtain ⟨-, r, -, rfl⟩ := receive_eq_ok.1 hstep
    exact Or.inl rfl
  | readFails b e =>
    obtain ⟨-, r, -, rfl⟩ := readFails_eq_ok.1 hstep
    exact Or.inl rfl
  | transmit b k stale =>
    obtain ⟨-, r, -, rfl⟩ := transmit_eq_ok.1 hstep
    exact Or.inl rfl
  | sendFails b e =>
    obtain ⟨-, r, -, rfl⟩ := sendFails_eq_ok.1 hstep
    exact Or.inl rfl
  | destroyServer t =>
    obtain ⟨-, hexec⟩ := destroyServer_eq_ok.1 hstep
    obtain ⟨-, rfl⟩ := TcpServer.destructor_eq_ok.1 hexec
    exact Or.inl rfl
  | clientCall t x =>
    obtain ⟨-, rfl⟩ := clientCall_eq_ok.1 hstep
    cases x with
    | connect => exact Or.inl Aside.start.nextConn
    | disconnect =>
      left
      unfold clientCall TcpClient.disconnect
      cases p.client.connection_ <;> rfl
    | stop => exact Or.inl Aside.stop.nextConn
    | enableRetry => exact Or.inl rfl
  | connectorCall t x =>
    obtain ⟨-, rfl⟩ := connectorCall_eq_ok.1 hstep
    cases x with
    | start => exact Or.inl Aside.start.nextConn
    | stop => exact Or.inl Aside.stop.nextConn
    | restart => exact Or.inl rfl
  | destroyClient t =>
    obtain ⟨-, hexec⟩ := destroyClient_eq_ok.1 hstep
    have hset : ∀ b, (TcpClient.setCloseCallback p t b).nextConn = p.nextConn := by
      intro b
      unfold TcpClient.setCloseCallback
      split_ifs <;> rfl
    rcases TcpClient.destructor_eq_ok.1 hexec with ⟨-, rfl⟩ | ⟨b, -, -, ⟨-, rfl⟩ | ⟨-, rfl⟩⟩
    · exact Or.inl Aside.stop.nextConn
    · exact Or.inl (hset b)
    · exact Or.inl (hset b)
  | connectDone socket error =>
    obtain ⟨-, rfl⟩ := connectDone_eq_ok.1 hstep
    exact Or.inl rfl
  | timerExpires timer =>
    obtain ⟨-, rfl⟩ := timerExpires_eq_ok.1 hstep
    exact Or.inl rfl

/-- A connection there is after a step was there before it, or is the one that the step makes. -/
theorem old_or_born {e : ProcessEvent} (h : Placed p) (hsorted : p.server.connections_.Sorted)
    (hstep : step e p = .ok q) (hc : c < q.nextConn) : c < p.nextConn ∨
      (c = p.nextConn ∧ ∃ d n m, Makes p e d n m ∧ Born q c d n m) := by
  rcases step_makes h hsorted hstep with hsame | ⟨hnext, d, n, m, hm, hb⟩
  · exact Or.inl (Nat.lt_of_lt_of_eq hc hsame)
  · rcases Nat.lt_succ_iff_lt_or_eq.1 (Nat.lt_of_lt_of_eq hc hnext) with hold | hself
    · exact Or.inl hold
    · exact Or.inr ⟨hself, d, n, m, hm, hself ▸ hb⟩

end Process

end LibNetToy
