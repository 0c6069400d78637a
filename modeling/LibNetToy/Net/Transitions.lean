import LibNetToy.Net.TcpConnection
import LibNetToy.Foundations.Weight

/-!
# What the member functions of a connection do next

The state of a connection only moves forward, and running a task leads to callbacks, releases
and the end of `readHandler`; the functors are posted by the functions that are called from
outside.
-/

namespace LibNetToy

/-- What a member function leaves for its caller to run. -/
def ConnTask.isFollowUp : ConnTask → Bool
  | .callback _ => true
  | .inCallback _ => true
  | .readAgain _ => true
  | .release => true
  | _ => false

/-- The functors of the functions that are called from outside. -/
def ConnTask.isInLoop : ConnTask → Bool
  | .startReadInLoop => true
  | .stopReadInLoop => true
  | .shutdownInLoop => true
  | .forceCloseInLoop => true
  | _ => false

namespace TcpConnection

/-- What is set when a connection is made and stays. -/
structure SameSetup (c d : TcpConnection) : Prop where
  loop : d.loop_ = c.loop_
  name : d.name_ = c.name_
  messageCallback : d.messageCallback_ = c.messageCallback_
  writeCompleteCallback : d.writeCompleteCallback_ = c.writeCompleteCallback_

theorem SameSetup.refl (c : TcpConnection) : SameSetup c c :=
  ⟨rfl, rfl, rfl, rfl⟩

variable {c : TcpConnection} {here : Option LoopId} {eff : Effect}

/-- Running a task leaves what was set. -/
theorem exec_setup {t : ConnTask} (h : c.exec here t = .ok eff) : SameSetup c eff.conn := by
  cases exec_runs h <;> exact ⟨rfl, rfl, rfl, rfl⟩

/-- So does a call from outside, and what it calls is called on the thread of the loop. -/
theorem call_setup {x : ConnCall} (h : c.call here x = .ok eff) :
    SameSetup c eff.conn ∧ (eff.calls ≠ [] → here = some c.loop_) := by
  cases x with
  | send message =>
    obtain ⟨b, -, rfl⟩ := send_eq_ok.1 h
    exact ⟨⟨rfl, rfl, rfl, rfl⟩, fun hno => absurd rfl hno⟩
  | shutdown | forceClose | startRead | stopRead =>
    obtain rfl := pure_eq_ok.1 h
    simp only [shutdown, forceClose, startRead, stopRead, runInLoop]
    split_ifs <;> refine ⟨⟨rfl, rfl, rfl, rfl⟩, fun hcalls => ?_⟩ <;>
      first | assumption | exact absurd rfl hcalls

/-- Running a task posts nothing, and calls what follows the task. -/
theorem exec_followUp {t : ConnTask} (h : c.exec here t = .ok eff) :
    eff.posts = [] ∧ ∀ t' ∈ eff.calls, t'.isFollowUp = true := by
  cases exec_runs h with
  | received _ | readFailed _ _ | sent _ =>
    refine ⟨rfl, ?_⟩
    split_ifs <;> simp [ConnTask.isFollowUp]
  | _ => exact ⟨rfl, by simp [ConnTask.isFollowUp]⟩

/-- A call from outside calls or posts one of the functors. -/
theorem call_inLoop {x : ConnCall} (h : c.call here x = .ok eff) :
    (∀ t ∈ eff.calls, t.isInLoop = true ∨ t = .release) ∧
      ∀ f ∈ eff.posts, f.task.isInLoop = true := by
  cases x with
  | send message =>
    obtain ⟨b, -, rfl⟩ := send_eq_ok.1 h
    exact ⟨by simp, by simp⟩
  | shutdown | forceClose | startRead | stopRead =>
    obtain rfl := pure_eq_ok.1 h
    simp only [shutdown, forceClose, startRead, stopRead, runInLoop]
    split_ifs <;> simp [Functor.body, Functor.task, ConnTask.isInLoop]

/-- A task establishes the connection, closes it, or leaves its state. -/
theorem exec_state {t : ConnTask} (h : c.exec here t = .ok eff) :
    (t = .connectEstablished ∧ c.state_ = .kConnecting ∧ eff.conn.state_ = .kConnected) ∨
      ((c.state_ = .kConnected ∨ c.state_ = .kDisconnecting) ∧
        eff.conn.state_ = .kDisconnected) ∨
      (t ≠ .connectEstablished ∧ eff.conn.state_ = c.state_) := by
  cases exec_runs h with
  | establishes _ hstate => exact Or.inl ⟨rfl, hstate, rfl⟩
  | readFailed _ hopen | closes _ hopen => exact Or.inr (Or.inl ⟨hopen, rfl⟩)
  | destroys _ hstate => exact Or.inr (Or.inl ⟨Or.inl hstate, rfl⟩)
  | _ => exact Or.inr (Or.inr ⟨by simp, rfl⟩)

/-- A call from outside starts to disconnect, or leaves the state. -/
theorem call_state {x : ConnCall} (h : c.call here x = .ok eff) :
    (c.state_ = .kConnected ∧ eff.conn.state_ = .kDisconnecting ∧
        (x = .shutdown ∨ x = .forceClose)) ∨ eff.conn.state_ = c.state_ := by
  cases x with
  | send message =>
    obtain ⟨b, -, rfl⟩ := send_eq_ok.1 h
    exact Or.inr rfl
  | shutdown =>
    obtain rfl := pure_eq_ok.1 h
    unfold shutdown
    by_cases hstate : c.state_ = .kConnected
    · rw [if_pos hstate]
      unfold runInLoop
      split_ifs <;> exact Or.inl ⟨hstate, rfl, Or.inl rfl⟩
    · rw [if_neg hstate]
      exact Or.inr rfl
  | forceClose =>
    obtain rfl := pure_eq_ok.1 h
    unfold forceClose
    by_cases hstate : c.state_ = .kConnected ∨ c.state_ = .kDisconnecting
    · rw [if_pos hstate]
      unfold runInLoop
      rcases hstate with hstate | hstate
      · split_ifs <;> exact Or.inl ⟨hstate, rfl, Or.inr rfl⟩
      · split_ifs <;> exact Or.inr hstate.symm
    · rw [if_neg hstate]
      exact Or.inr rfl
  | startRead | stopRead =>
    obtain rfl := pure_eq_ok.1 h
    simp only [startRead, stopRead, runInLoop]
    split_ifs <;> exact Or.inr rfl

/-- `forceCloseInLoop` closes a connection that was established. -/
theorem state_of_forceCloseInLoop (hstate : c.state_ ≠ .kConnecting)
    (h : c.forceCloseInLoop here = .ok eff) : eff.conn.state_ = .kDisconnected := by
  obtain ⟨-, rfl⟩ := forceCloseInLoop_eq_ok.1 h
  split_ifs with hopen
  · rfl
  · cases hold : c.state_ with
    | kConnecting => exact absurd hold hstate
    | kConnected => exact absurd (Or.inl hold) hopen
    | kDisconnecting => exact absurd (Or.inr hold) hopen
    | kDisconnected => rfl

/-- `connectDestroyed` closes a connection that is neither closed nor about to be. -/
theorem state_of_connectDestroyed (hstate : c.state_ = .kConnected ∨ c.state_ = .kDisconnected)
    (h : c.exec here .connectDestroyed = .ok eff) : eff.conn.state_ = .kDisconnected := by
  cases exec_runs h with
  | destroys => rfl
  | isDestroyed _ hother =>
    rcases hstate with hold | hold
    · exact absurd hold hother
    · exact hold

/-- No call from outside enters or leaves `kConnecting`. -/
theorem call_connecting {x : ConnCall} (h : c.call here x = .ok eff) :
    eff.conn.state_ = .kConnecting ↔ c.state_ = .kConnecting := by
  rcases call_state h with ⟨hold, hnew, -⟩ | hsame
  · rw [hold, hnew]
    simp
  · rw [hsame]

/-- One for the call of `connectionCallback_` that reports the end of a connection. -/
def downOf : ConnTask → Nat
  | .callback (.connection false) => 1
  | _ => 0

/-- One for the call of `closeCallback_`. -/
def closeOf : ConnTask → Nat
  | .callback .close => 1
  | _ => 0

/-- An open connection is not disconnected. -/
theorem ne_of_open (h : c.state_ = .kConnected ∨ c.state_ = .kDisconnecting) :
    c.state_ ≠ .kDisconnected := by
  rcases h with h | h <;> rw [h] <;> decide

/-- Running a task closes the connection and reports so, to the owner too unless that has asked
for it, or neither enters nor leaves `kDisconnected` and reports nothing. -/
theorem exec_closing {t : ConnTask} (h : c.exec here t = .ok eff) :
    (c.state_ ≠ .kDisconnected ∧ eff.conn.state_ = .kDisconnected ∧
      weigh downOf eff.tasks = 1 ∧
      weigh closeOf eff.tasks = if t = .connectDestroyed then 0 else 1) ∨
    ((eff.conn.state_ = .kDisconnected ↔ c.state_ = .kDisconnected) ∧
      weigh downOf eff.tasks = 0 ∧ weigh closeOf eff.tasks = 0) := by
  unfold Effect.tasks
  cases exec_runs h with
  | readFailed _ hopen =>
    left
    refine ⟨ne_of_open hopen, rfl, ?_⟩
    split_ifs <;> simp_all [downOf, closeOf]
  | closes _ hopen =>
    left
    exact ⟨ne_of_open hopen, rfl, by simp [downOf, closeOf]⟩
  | destroys _ hstate =>
    left
    exact ⟨ne_of_open (Or.inl hstate), rfl, by simp [downOf, closeOf]⟩
  | establishes _ hstate =>
    right
    refine ⟨?_, by simp [downOf, closeOf]⟩
    rw [hstate]
    simp [beginFirstRead, asyncReadSome]
  | received _ | sent _ =>
    right
    refine ⟨Iff.rfl, ?_⟩
    split_ifs <;> simp [downOf, closeOf]
  | _ =>
    right
    exact ⟨Iff.rfl, by simp [downOf, closeOf]⟩

/-- No call from outside enters or leaves `kDisconnected`, and none reports anything. -/
theorem call_closing {x : ConnCall} (h : c.call here x = .ok eff) :
    (eff.conn.state_ = .kDisconnected ↔ c.state_ = .kDisconnected) ∧
      weigh downOf eff.tasks = 0 ∧ weigh closeOf eff.tasks = 0 := by
  cases x with
  | send message =>
    obtain ⟨b, -, rfl⟩ := send_eq_ok.1 h
    exact ⟨Iff.rfl, by simp [Effect.tasks]⟩
  | shutdown =>
    obtain rfl := pure_eq_ok.1 h
    unfold shutdown
    by_cases hstate : c.state_ = .kConnected
    · rw [if_pos hstate, hstate]
      unfold runInLoop
      split_ifs <;> simp [Effect.tasks, Functor.body, downOf, closeOf]
    · rw [if_neg hstate]
      exact ⟨Iff.rfl, by simp [Effect.tasks]⟩
  | forceClose =>
    obtain rfl := pure_eq_ok.1 h
    unfold forceClose
    by_cases hstate : c.state_ = .kConnected ∨ c.state_ = .kDisconnecting
    · rw [if_pos hstate]
      unfold runInLoop
      rcases hstate with hstate | hstate <;> rw [hstate] <;> split_ifs <;>
        simp [Effect.tasks, Functor.body, downOf, closeOf]
    · rw [if_neg hstate]
      exact ⟨Iff.rfl, by simp [Effect.tasks]⟩
  | startRead | stopRead =>
    obtain rfl := pure_eq_ok.1 h
    simp only [startRead, stopRead, runInLoop]
    split_ifs <;> simp [Effect.tasks, Functor.body, downOf, closeOf]

end TcpConnection

end LibNetToy
