import LibNetToy.Net.Part
import LibNetToy.Net.Promptness

/-!
# How the work of a thread is layered

A callback is called by a member function, and what the member function does after it is below it
on the stack of the thread.  Code of the user that runs in a callback may start work for any other
connection of the loop, so that work ends up above this one.  It is above a callback then: whatever
a connection still has to do below the work of others, a callback of it comes first.
-/

namespace LibNetToy

/-- Running the work item calls no callback and no function of a connection. -/
def Work.isPassive : Work → Bool
  | .conn _ .release => true
  | .setCloseCallback _ => true
  | .server .quit => true
  | .server (.quitLoop _) => true
  | .server (.joinLoop _) => true
  | .server .destroyed => true
  | .client .destroyed => true
  | .connector .startInLoop => true
  | .connector .stopInLoop => true
  | .connector .restart => true
  | .eraseTimer _ => true
  | _ => false

/-- The work item is about the connection, or passive. -/
def Work.isOwn (c : ConnId) (w : Work) : Bool :=
  decide (w.connId = some c) || w.isPassive

/-- The work item gives the connection something to do. -/
def occupying (c : ConnId) : Work → Nat
  | .conn d k => if d = c ∧ k ≠ .release then 1 else 0
  | .bound d _ => if d = c then 1 else 0
  | .server (.removeConnection d) => if d = c then 1 else 0
  | .client (.removeConnection d) => if d = c then 1 else 0
  | _ => 0

/-- Work of others has a callback of the connection next below it, or nothing of the connection. -/
def Layered (conn : TcpConnection) (c : ConnId) : List Work → Prop
  | [] => True
  | w :: ws => (w.isOwn c = false → Part.Calm (tasksOf conn c ws)) ∧ Layered conn c ws

/-- The stack of the loop of a connection: work is layered, and `connectDestroyed` is on top if it
has something to do. -/
structure Stacked (conn : TcpConnection) (c : ConnId) (ws : List Work) : Prop where
  single : .connectDestroyed ∉ tasksOf conn c ws.tail
  layered : Layered conn c ws

variable {c : ConnId} {conn conn' : TcpConnection} {w : Work} {ws calls : List Work}

/-! ## Tasks -/

theorem tasksOf_nil : tasksOf conn c [] = [] := rfl

theorem tasksOf_cons : tasksOf conn c (w :: ws) =
    (w.tasks c).filter conn.heeds ++ tasksOf conn c ws := by
  simp [tasksOf]

theorem tasksOf_append :
    tasksOf conn c (calls ++ ws) = tasksOf conn c calls ++ tasksOf conn c ws := by
  simp [tasksOf]

/-- The tasks of the connection itself. -/
theorem tasksOf_map_conn (ks : List ConnTask) :
    tasksOf conn c (ks.map (Work.conn c)) = ks.filter conn.heeds := by
  induction ks with
  | nil => rfl
  | cons k ks ih =>
    rw [List.map_cons, tasksOf_cons, ih, ← List.filter_append]
    simp [Work.tasks]

theorem tasks_about (hw : w.connId ≠ some c) : w.tasks c = [] := by
  unfold Work.tasks
  split
  · exact if_neg fun h => hw (congrArg some h)
  · exact if_neg fun h => hw (congrArg some h)
  · exact if_neg fun h => hw (congrArg some h)
  · exact if_neg fun h => hw (congrArg some h)
  · rfl

theorem occupying_about (hw : w.connId ≠ some c) : occupying c w = 0 := by
  unfold occupying
  split
  · exact if_neg fun h => hw (congrArg some h.1)
  · exact if_neg fun h => hw (congrArg some h)
  · exact if_neg fun h => hw (congrArg some h)
  · exact if_neg fun h => hw (congrArg some h)
  · rfl

/-- Work that does not occupy the connection has no task for it. -/
theorem tasks_of_not_occupying (h : occupying c w = 0) : (w.tasks c).filter conn.heeds = [] := by
  unfold Work.tasks
  split
  · rename_i d k
    split_ifs with hd
    · have hk : k = .release := by
        by_contra hk
        simp [occupying, hd, hk] at h
      rw [hk]
      rfl
    · rfl
  · rename_i d k
    simp [occupying] at h
    rw [if_neg h]
    rfl
  · rename_i d
    simp [occupying] at h
    rw [if_neg h]
    rfl
  · rename_i d
    simp [occupying] at h
    rw [if_neg h]
    rfl
  · rfl

theorem tasksOf_of_not_occupying (h : weigh (occupying c) ws = 0) : tasksOf conn c ws = [] := by
  induction ws with
  | nil => rfl
  | cons w ws ih =>
    rw [weigh_cons] at h
    rw [tasksOf_cons, tasks_of_not_occupying (by omega), ih (by omega)]
    rfl

/-- Nor has it a functor, if it is something that is queued. -/
theorem functors_of_not_occupying (h : occupying c w = 0) (hqueued : w.isQueued = true) :
    w.functors c = [] := by
  unfold Work.functors
  split
  · rename_i d k
    refine if_neg ?_
    rintro rfl
    have hk : k = .release := by
      by_contra hk
      simp [occupying, hk] at h
    rw [hk] at hqueued
    cases hqueued
  · rename_i d k
    simp [occupying] at h
    exact if_neg h
  · rfl

/-- The tail of a stack has no other tasks. -/
theorem mem_of_mem_tail {k : ConnTask} (h : k ∈ tasksOf conn c ws.tail) :
    k ∈ tasksOf conn c ws := by
  cases ws with
  | nil => exact h
  | cons w ws =>
    rw [tasksOf_cons]
    exact List.mem_append_right _ h

/-- What is heeded stays heeded, apart from `connectDestroyed`. -/
theorem tasksOf_congr (hclosed : conn.state_ = .kDisconnected → conn'.state_ = .kDisconnected)
    (hws : .connectDestroyed ∉ tasksOf conn c ws) : tasksOf conn' c ws = tasksOf conn c ws := by
  apply List.filter_congr
  intro k hk
  cases k with
  | connectDestroyed =>
    have hstate : conn.state_ = .kDisconnected := by
      by_contra hopen
      exact hws (List.mem_filter.2 ⟨hk, by simpa [TcpConnection.heeds] using hopen⟩)
    simp [TcpConnection.heeds, hstate, hclosed hstate]
  | _ => rfl

/-! ## Nesting -/

theorem isOwn_of_connId (h : w.connId = some c) : w.isOwn c = true := by
  simp [Work.isOwn, h]

theorem isOwn_of_isPassive (h : w.isPassive = true) : w.isOwn c = true := by
  simp [Work.isOwn, h]

namespace Layered

/-- Work of the connection and passive work needs no callback below it. -/
theorem own (h : Layered conn c ws) (hcalls : ∀ w ∈ calls, w.isOwn c = true) :
    Layered conn c (calls ++ ws) := by
  induction calls with
  | nil => exact h
  | cons w calls ih =>
    refine ⟨?_, ih fun v hv => hcalls v (List.mem_cons_of_mem _ hv)⟩
    intro hno
    rw [hcalls w List.mem_cons_self] at hno
    cases hno

/-- Other work may be put above a callback. -/
theorem calm (h : Layered conn c ws) (hcalm : Part.Calm (tasksOf conn c ws))
    (hcalls : tasksOf conn c calls.tail = []) : Layered conn c (calls ++ ws) := by
  induction calls with
  | nil => exact h
  | cons w calls ih =>
    rw [List.tail_cons] at hcalls
    refine ⟨fun _ => ?_, ih ?_⟩
    · show Part.Calm (tasksOf conn c (calls ++ ws))
      rw [tasksOf_append, hcalls]
      exact hcalm
    · apply List.eq_nil_iff_forall_not_mem.2
      intro k hk
      have hmem := mem_of_mem_tail hk
      rw [hcalls] at hmem
      cases hmem

/-- The nesting depends on the tasks only. -/
theorem congr (h : Layered conn c ws)
    (hclosed : conn.state_ = .kDisconnected → conn'.state_ = .kDisconnected)
    (hsingle : .connectDestroyed ∉ tasksOf conn c ws.tail) : Layered conn' c ws := by
  induction ws with
  | nil => trivial
  | cons w ws ih =>
    rw [List.tail_cons] at hsingle
    refine ⟨?_, ih h.2 fun hmem => hsingle (mem_of_mem_tail hmem)⟩
    rw [tasksOf_congr hclosed hsingle]
    exact h.1

end Layered

namespace Stacked

/-- The thread takes what is on top of its stack. -/
theorem pop (h : Stacked conn c (w :: ws)) :
    .connectDestroyed ∉ tasksOf conn c ws ∧ Stacked conn c ws :=
  ⟨h.single, fun hmem => h.single (mem_of_mem_tail hmem), h.layered.2⟩

/-- The connection goes on, and calls are made on top of a stack. -/
theorem push (h : Layered conn c ws) (hws : .connectDestroyed ∉ tasksOf conn c ws)
    (hclosed : conn.state_ = .kDisconnected → conn'.state_ = .kDisconnected)
    (htail : .connectDestroyed ∉ tasksOf conn' c calls.tail)
    (hcalls : (∀ w ∈ calls, w.isOwn c = true) ∨
      (tasksOf conn' c calls.tail = [] ∧ Part.Calm (tasksOf conn c ws))) :
    Stacked conn' c (calls ++ ws) := by
  have hsame : tasksOf conn' c ws = tasksOf conn c ws := tasksOf_congr hclosed hws
  have hlayered : Layered conn' c ws := h.congr hclosed fun hmem => hws (mem_of_mem_tail hmem)
  constructor
  · rw [← hsame] at hws
    cases calls with
    | nil => exact fun hmem => hws (mem_of_mem_tail hmem)
    | cons w calls =>
      rw [List.cons_append, List.tail_cons, tasksOf_append, List.mem_append, not_or]
      exact ⟨htail, hws⟩
  · rcases hcalls with hown | ⟨hnone, hcalm⟩
    · exact hlayered.own hown
    · exact hlayered.calm (hsame ▸ hcalm) hnone

/-- Code of the user runs where the connection has a callback on top, or nothing. -/
theorem calm (h : Stacked conn c ws)
    (hready : ws = [] ∨ ∃ b k rest, ws = .conn b (.inCallback k) :: rest) :
    Part.Calm (tasksOf conn c ws) ∧ .connectDestroyed ∉ tasksOf conn c ws := by
  rcases hready with rfl | ⟨b, k, rest, rfl⟩
  · exact ⟨by simp [Part.Calm, tasksOf_nil], by simp [tasksOf_nil]⟩
  · have hsingle := h.pop.1
    rw [tasksOf_cons]
    by_cases hb : b = c
    · subst hb
      have htop : (Work.tasks b (.conn b (.inCallback k))).filter conn.heeds = [.inCallback k] := by
        simp [Work.tasks, TcpConnection.heeds]
      rw [htop]
      refine ⟨?_, ?_⟩
      · intro j hj
        exact ⟨k, (Option.some.inj hj).symm⟩
      · intro hmem
        rcases List.mem_cons.1 hmem with hmem | hmem
        · cases hmem
        · exact hsingle hmem
    · have hnone : (Work.tasks c (.conn b (.inCallback k))).filter conn.heeds = [] := by
        simp [Work.tasks, hb]
      rw [hnone, List.nil_append]
      refine ⟨h.layered.1 ?_, hsingle⟩
      simp [Work.isOwn, Work.connId, Work.isPassive, hb]

end Stacked

end LibNetToy
