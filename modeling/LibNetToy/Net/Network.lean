import LibNetToy.Net.Journal
import LibNetToy.Foundations.Parties

/-!
# Processes that are connected

Any number of processes, each with all its threads and connections, and for each connection the one
at the other end of its stream.  A read delivers the next bytes that the other end has put on the
wire; operations may fail at any time, and what other connections and processes do is arbitrary.
-/

namespace LibNetToy

/-- A process among others, and a connection of it. -/
abbrev Terminal (ι : Type) :=
  ι × ConnId

/-- Processes with their transcripts. -/
abbrev Network (ι : Type) :=
  Parties ι Journal Unit

namespace Network

variable {ι : Type}

/-- The bytes transferred for a connection of a process. -/
def transcript (n : Network ι) (x : Terminal ι) : Transcript :=
  (n.party x.1).transcripts x.2

/-- The connection was made. -/
def Made (n : Network ι) (x : Terminal ι) : Prop :=
  x.2 < (n.party x.1).process.nextConn

/-- What the streams allow. -/
def allows (peer : Terminal ι → Terminal ι) (n : Network ι) (i : ι) : ProcessEvent → Bool
  | .receive c data =>
    decide ((n.transcript (i, c)).received ++ data <+: (n.transcript (peer (i, c))).wire)
  | _ => true

end Network

/-- All runs of processes that are connected like this. -/
def networkMachine {ι : Type} [DecidableEq ι] (peer : Terminal ι → Terminal ι) :
    Machine (Network ι) (ι × ProcessEvent) Fault :=
  journalMachine.parties (Network.allows peer) (fun _ _ _ => ()) ()

namespace Process

variable {p : Process} {c : ConnId} {e : ProcessEvent}

/-- Only a read that is completed adds to what was received. -/
theorem record_received (τ : Transcript) (he : ∀ data, e ≠ .receive c data) :
    (p.record c e τ).received = τ.received := by
  cases e with
  | call t d x =>
    simp only [record]
    split_ifs
    · cases x <;> rfl
    · rfl
  | consume t d len =>
    simp only [record]
    split_ifs <;> rfl
  | receive d data =>
    refine congrArg Transcript.received (if_neg ?_)
    rintro rfl
    exact he data rfl
  | transmit d k stale =>
    simp only [record]
    split_ifs
    · split <;> rfl
    · rfl
  | dequeue | run | return_ | keep | keepConnection | drop | readFails | sendFails | accept
  | destroyServer | clientCall | connectorCall | destroyClient | connectDone | timerExpires => rfl

/-- What was put on the wire stays there. -/
theorem wire_isPrefix_record (τ : Transcript) : τ.wire <+: (p.record c e τ).wire := by
  cases e with
  | call t d x =>
    simp only [record]
    split_ifs
    · cases x <;> exact List.prefix_rfl
    · exact List.prefix_rfl
  | consume t d len | receive d data =>
    simp only [record]
    split_ifs <;> exact List.prefix_rfl
  | transmit d k stale =>
    simp only [record]
    split_ifs
    · split
      · exact List.prefix_append _ _
      · exact List.prefix_rfl
    · exact List.prefix_rfl
  | dequeue | run | return_ | keep | keepConnection | drop | readFails | sendFails | accept
  | destroyServer | clientCall | connectorCall | destroyClient | connectDone | timerExpires =>
    exact List.prefix_rfl

end Process

namespace Network

open Process

variable {ι : Type} [DecidableEq ι] {peer : Terminal ι → Terminal ι} {n : Network ι}

/-- At both ends of a stream its own operations do not overlap: the sends where the bytes come from
and the reads where they go to. -/
def Serial (peer : Terminal ι → Terminal ι) (x : Terminal ι) (n : Network ι)
    (e : ι × ProcessEvent) : Prop :=
  (e.1 = x.1 → ReadsSerially x.2 (n.party e.1).process e.2) ∧
    (e.1 = (peer x).1 → SendsSerially (peer x).2 (n.party e.1).process e.2)

instance (x : Terminal ι) (n : Network ι) (e : ι × ProcessEvent) :
    Decidable (Serial peer x n e) :=
  inferInstanceAs (Decidable ((_ → _) ∧ (_ → _)))

/-- What a connection has been given of its stream: what message callbacks retrieved, what is
readable and what a completed read has left to be counted. -/
def delivered (n : Network ι) (x : Terminal ι) : List UInt8 :=
  (n.transcript x).consumed ++ ((n.party x.1).process.conns x.2).conn.inputBuffer_.content ++
    ((n.party x.1).process.part x.2 (n.transcript x)).unhandled

/-- The transcripts after a step of a process. -/
theorem transcript_step {i : ι} {e : ProcessEvent} {m : Network ι}
    (hstep : (networkMachine peer).step (i, e) n = .ok m) (x : Terminal ι) :
    m.transcript x =
      if x.1 = i then (n.party i).process.record x.2 e (n.transcript x) else n.transcript x := by
  obtain ⟨-, k, hk, rfl⟩ := Machine.parties_step_eq_ok.1 hstep
  obtain ⟨q, -, rfl⟩ := Halt.within_eq_ok.1 hk
  by_cases hi : x.1 = i
  · subst hi
    simp [transcript]
  · simp [transcript, hi]

/-- In every run a read delivers what was put on the wire at the other end. -/
theorem received_isPrefix {C : Network ι → ι × ProcessEvent → Prop}
    (h : (networkMachine peer).ReachableUnder C n) (x : Terminal ι) :
    (n.transcript x).received <+: (n.transcript (peer x)).wire := by
  induction h with
  | @init n hinit =>
    have hempty : (n.transcript x).received = [] := by
      unfold transcript
      rw [(hinit.1 x.1).2]
      rfl
    rw [hempty]
    exact List.nil_prefix
  | @step n m l hn _ hstep ih =>
    obtain ⟨i, e⟩ := l
    have hwire : (n.transcript (peer x)).wire <+: (m.transcript (peer x)).wire := by
      rw [transcript_step hstep]
      split_ifs
      · exact wire_isPrefix_record _
      · exact List.prefix_rfl
    refine List.IsPrefix.trans ?_ hwire
    rw [transcript_step hstep]
    by_cases hreceives : x.1 = i ∧ ∃ data, e = .receive x.2 data
    · obtain ⟨rfl, data, rfl⟩ := hreceives
      have hallows := (Machine.parties_step_eq_ok.1 hstep).1
      rw [if_pos rfl]
      simp only [record, if_true]
      exact of_decide_eq_true hallows
    · split_ifs with hi
      · rw [record_received]
        · exact ih
        · rintro data rfl
          exact hreceives ⟨hi, data, rfl⟩
      · exact ih

/-- In every run of any number of connected processes, however their other connections are used,
what a connection has been given is a prefix of what the other end has put on the wire, and that is
a prefix of what was sent there, as far as the sends there and the reads here do not overlap. -/
theorem delivered_isPrefix_accepted {x : Terminal ι}
    (h : (networkMachine peer).ReachableUnder (Serial peer x) n) (hx : n.Made x)
    (hpeer : n.Made (peer x)) : n.delivered x <+: (n.transcript (peer x)).wire ∧
      (n.transcript (peer x)).wire <+: (n.transcript (peer x)).accepted := by
  have hparty : ∀ i, journalMachine.ReachableUnder
      (fun j e => (i = x.1 → ReadsSerially x.2 j.process e) ∧
        (i = (peer x).1 → SendsSerially (peer x).2 j.process e)) (n.party i) :=
    Machine.ReachableUnder.party (C := fun i (j : Journal) e =>
      (i = x.1 → ReadsSerially x.2 j.process e) ∧
        (i = (peer x).1 → SendsSerially (peer x).2 j.process e)) h
  obtain ⟨s, hin, hx⟩ := Journal.exists_incoming ((hparty x.1).mono fun _ _ hC => hC.1 rfl) hx
  obtain ⟨s', hout, hy⟩ :=
    Journal.exists_outgoing ((hparty (peer x).1).mono fun _ _ hC => hC.2 rfl) hpeer
  have hreceived : (n.transcript x).received = n.delivered x := hx.received hin
  have haccepted : (n.transcript (peer x)).accepted = (n.transcript (peer x)).wire ++ _ :=
    hy.accepted hout
  rw [← hreceived, haccepted]
  exact ⟨received_isPrefix h x, List.prefix_append _ _⟩

/-- A process with a server and one with a client, in which nothing has happened yet. -/
def initial : Network Bool where
  party i := ⟨Process.initial 1 (if i then [0] else []) 0 [] [] [] true false, fun _ => .empty⟩
  between := ()

/-- The first connection of each of two processes is at the other end of that of the other. -/
def acrossFrom (x : Terminal Bool) : Terminal Bool :=
  (!x.1, x.2)

theorem initial_init : (networkMachine acrossFrom).init initial := by
  refine ⟨fun i => ⟨⟨1, _, 0, [], [], [], true, false, ?_, ?_, rfl⟩, rfl⟩, rfl⟩ <;>
    cases i <;> simp

/-- The thread of the pool of the server sends a message when the connection is reported up; the
client has been given the first byte. -/
theorem delivered_isPrefix_accepted_server : ∃ n : Network Bool,
    (((n.party false).process.nextConn, (n.party true).process.nextConn),
      (n.transcript (false, 0)).consumed, (n.transcript (true, 0)).accepted) =
        ((1, 1), [1], [1, 2, 3]) ∧
    n.delivered (false, 0) <+: (n.transcript (acrossFrom (false, 0))).wire ∧
      (n.transcript (acrossFrom (false, 0))).wire <+:
        (n.transcript (acrossFrom (false, 0))).accepted := by
  obtain ⟨n, hn, hobs⟩ := Machine.exists_of_run (C := Serial acrossFrom (false, 0)) initial_init
    (l := [(true, .accept 0), (true, .run 1 []), (true, .dequeue 0), (true, .run 0 []),
      (true, .run 0 []), (false, .clientCall 2 .connect), (false, .dequeue 0), (false, .run 0 []),
      (false, .connectDone 0 none), (false, .dequeue 0), (false, .run 0 []), (false, .run 0 []),
      (false, .run 0 []), (true, .call 0 0 (.send ⟨[1, 2, 3], by decide⟩)),
      (false, .run 0 []), (false, .return_ 0), (false, .run 0 []), (false, .run 0 []),
      (true, .transmit 0 2 [0, 0]), (false, .receive 0 [1]), (false, .dequeue 0),
      (false, .run 0 []), (false, .run 0 []), (false, .consume 0 0 1)])
    (f := fun n => (((n.party false).process.nextConn, (n.party true).process.nextConn),
      (n.transcript (false, 0)).consumed, (n.transcript (true, 0)).accepted))
    (a := ((1, 1), [1], [1, 2, 3])) (by decide +kernel)
  obtain ⟨hmade, -⟩ := Prod.mk.inj hobs
  obtain ⟨hclient, hserver⟩ := Prod.mk.inj hmade
  have hx : n.Made (false, 0) := by
    show 0 < (n.party false).process.nextConn
    rw [hclient]
    decide
  have hpeer : n.Made (acrossFrom (false, 0)) := by
    show 0 < (n.party true).process.nextConn
    rw [hserver]
    decide
  exact ⟨n, hobs, delivered_isPrefix_accepted hn hx hpeer⟩

end Network

end LibNetToy
