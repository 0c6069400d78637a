import LibNetToy.Base.TimerLoop

/-!
# Entries and waits

What holds in every run of a timer queue.  An entry of the map has one wait, which is pending,
or completed and queued, or is being handled; the handler of a periodic timer replaces it by the
next one.  A timer that left the map never comes back, and only cancelled timers have aborted
waits.  So a cancelled timer never fires again, a timer that fires once does so at most once,
and the branch of `handleTimer` for errors is never taken.
-/

namespace LibNetToy

namespace TimerLoop

/-! ## What is known of a timer -/

/-- A wait, a queued completion or the running handler was made for the timer with the
interval. -/
def Known (s : TimerLoop) (t : TimerId) (i : Int) : Prop :=
  (∃ w ∈ s.waits, w.timer = t ∧ w.interval = i) ∨
    (∃ c ∈ s.queue, c.timer = t ∧ c.interval = i) ∨
    ∃ h ∈ s.running, h.timer = t ∧ h.interval = i

/-- The log tells of everything that was added, with one interval for each timer. -/
structure Recorded (s : TimerLoop) : Prop where
  timers : ∀ t ∈ s.timers, t < s.nextTimer
  lt : ∀ t i, .added t i ∈ s.log → t < s.nextTimer
  same : ∀ t i j, .added t i ∈ s.log → .added t j ∈ s.log → i = j
  known : ∀ t i, s.Known t i → .added t i ∈ s.log
  started : ∀ t, .started t ∈ s.log → t < s.nextTimer
  cancelled : ∀ t, .cancelled t ∈ s.log → t < s.nextTimer

variable {s s' : TimerLoop}

/-- The waits of the timer are pending no more. -/
theorem mem_waits_abort {t : TimerId} {w : Wait} :
    w ∈ (s.abort t).waits ↔ w ∈ s.waits ∧ w.timer ≠ t := by
  simp [abort]

/-- Their handlers are queued. -/
theorem mem_queue_abort {t : TimerId} {c : Completion} :
    c ∈ (s.abort t).queue ↔ c ∈ s.queue ∨ ∃ w ∈ s.waits, w.timer = t ∧ c = w.aborted := by
  simp only [abort, List.mem_append, List.mem_map, List.mem_filter, decide_eq_true_eq]
  constructor
  · rintro (h | ⟨w, ⟨hw, ht⟩, rfl⟩)
    · exact Or.inl h
    · exact Or.inr ⟨w, hw, ht, rfl⟩
  · rintro (h | ⟨w, hw, ht, rfl⟩)
    · exact Or.inl h
    · exact Or.inr ⟨w, ⟨hw, ht⟩, rfl⟩

/-- An aborted wait is known by its completion. -/
theorem known_abort {t t' : TimerId} {i : Int} (h : (s.abort t).Known t' i) : s.Known t' i := by
  rcases h with ⟨w, hw, hkey⟩ | ⟨c, hc, hkey⟩ | hrunning
  · exact Or.inl ⟨w, (mem_waits_abort.1 hw).1, hkey⟩
  · rcases mem_queue_abort.1 hc with hc | ⟨w, hw, -, rfl⟩
    · exact Or.inr (Or.inl ⟨c, hc, hkey⟩)
    · exact Or.inl ⟨w, hw, hkey⟩
  · exact Or.inr (Or.inr hrunning)

/-- A step that adds no timer. -/
theorem Recorded.mono {l : List TimerRecord} (h : Recorded s)
    (hknown : ∀ t i, s'.Known t i → s.Known t i) (htimers : ∀ t ∈ s'.timers, t ∈ s.timers)
    (hnext : s'.nextTimer = s.nextTimer) (hlog : s'.log = s.log ++ l)
    (hl : ∀ r ∈ l, ∃ t < s.nextTimer, r = .started t ∨ r = .cancelled t) : Recorded s' := by
  have hadded : ∀ {t i}, .added t i ∈ s'.log → .added t i ∈ s.log := by
    intro t i hmem
    rw [hlog] at hmem
    rcases List.mem_append.1 hmem with hmem | hmem
    · exact hmem
    · obtain ⟨t', -, hr | hr⟩ := hl _ hmem <;> cases hr
  constructor
  · intro t ht
    rw [hnext]
    exact h.timers t (htimers t ht)
  · intro t i hmem
    rw [hnext]
    exact h.lt t i (hadded hmem)
  · intro t i j hi hj
    exact h.same t i j (hadded hi) (hadded hj)
  · intro t i hk
    rw [hlog]
    exact List.mem_append_left _ (h.known t i (hknown t i hk))
  · intro t hmem
    rw [hlog] at hmem
    rw [hnext]
    rcases List.mem_append.1 hmem with hmem | hmem
    · exact h.started t hmem
    · obtain ⟨t', hlt, hr | hr⟩ := hl _ hmem
      · obtain rfl := TimerRecord.started.inj hr
        exact hlt
      · cases hr
  · intro t hmem
    rw [hlog] at hmem
    rw [hnext]
    rcases List.mem_append.1 hmem with hmem | hmem
    · exact h.cancelled t hmem
    · obtain ⟨t', hlt, hr | hr⟩ := hl _ hmem
      · cases hr
      · obtain rfl := TimerRecord.cancelled.inj hr
        exact hlt

/-- A step that adds no timer and records nothing. -/
theorem Recorded.quiet (h : Recorded s) (hknown : ∀ t i, s'.Known t i → s.Known t i)
    (htimers : ∀ t ∈ s'.timers, t ∈ s.timers) (hnext : s'.nextTimer = s.nextTimer)
    (hlog : s'.log = s.log) : Recorded s' := by
  refine h.mono (l := []) hknown htimers hnext ?_ nofun
  rw [hlog, List.append_nil]

/-- A new timer is recorded. -/
theorem Recorded.addTimer {cb : TimerCallback} {interval : Int} (h : Recorded s) :
    Recorded (s.addTimer cb interval) := by
  have hadded : ∀ {t i}, .added t i ∈ (s.addTimer cb interval).log →
      .added t i ∈ s.log ∨ (t = s.nextTimer ∧ i = interval) := by
    intro t i hmem
    rcases List.mem_append.1 hmem with hmem | hmem
    · exact Or.inl hmem
    · obtain ⟨rfl, rfl⟩ := TimerRecord.added.inj (List.mem_singleton.1 hmem)
      exact Or.inr ⟨rfl, rfl⟩
  constructor
  · intro t ht
    rcases mem_timers_addTimer.1 ht with rfl | ht
    · exact Nat.lt_succ_self _
    · exact Nat.lt_succ_of_lt (h.timers t ht)
  · intro t i hmem
    rcases hadded hmem with hmem | ⟨rfl, -⟩
    · exact Nat.lt_succ_of_lt (h.lt t i hmem)
    · exact Nat.lt_succ_self _
  · intro t i j hi hj
    rcases hadded hi with hi | ⟨ht, rfl⟩
    · rcases hadded hj with hj | ⟨ht, -⟩
      · exact h.same t i j hi hj
      · have hlt := h.lt t i hi
        rw [ht] at hlt
        exact absurd hlt (Nat.lt_irrefl _)
    · rcases hadded hj with hj | ⟨-, rfl⟩
      · have hlt := h.lt t j hj
        rw [ht] at hlt
        exact absurd hlt (Nat.lt_irrefl _)
      · rfl
  · rintro t i (⟨w, hw, hkey⟩ | ⟨c, hc, hkey⟩ | ⟨r, hr, hkey⟩)
    · rcases List.mem_append.1 hw with hw | hw
      · exact List.mem_append_left _ (h.known t i (Or.inl ⟨w, hw, hkey⟩))
      · obtain rfl := List.mem_singleton.1 hw
        obtain ⟨rfl, rfl⟩ := hkey
        exact List.mem_append_right _ (List.mem_singleton.2 rfl)
    · exact List.mem_append_left _ (h.known t i (Or.inr (Or.inl ⟨c, hc, hkey⟩)))
    · exact List.mem_append_left _ (h.known t i (Or.inr (Or.inr ⟨r, hr, hkey⟩)))
  · intro t hmem
    rcases List.mem_append.1 hmem with hmem | hmem
    · exact Nat.lt_succ_of_lt (h.started t hmem)
    · cases List.mem_singleton.1 hmem
  · intro t hmem
    rcases List.mem_append.1 hmem with hmem | hmem
    · exact Nat.lt_succ_of_lt (h.cancelled t hmem)
    · cases List.mem_singleton.1 hmem

/-- The running handler is known while it goes on. -/
theorem known_proceed {r : Handler} {stage : Stage} {t : TimerId} {i : Int}
    (hrunning : s.running = some r) (h : (s.proceed r stage).Known t i) : s.Known t i := by
  rcases h with hw | hc | ⟨r', hr, hkey⟩
  · exact Or.inl hw
  · exact Or.inr (Or.inl hc)
  · obtain rfl := Option.some.inj hr
    exact Or.inr (Or.inr ⟨r, hrunning, hkey⟩)

/-- A handler that goes on records the start of its callback. -/
theorem Recorded.goOn {r : Handler} (h : Recorded s) (hrunning : s.running = some r)
    (hstep : s.goOn r = .ok s') : Recorded s' := by
  have hknown : ∀ stage t i, (s.proceed r stage).Known t i → s.Known t i :=
    fun stage t i => known_proceed hrunning
  rcases goOn_cases hstep with ⟨-, -, rfl⟩ | ⟨-, -, hmem, rfl⟩ | ⟨-, -, rfl⟩ |
    ⟨-, -, -, rfl⟩ | ⟨-, -, -, rfl⟩ | ⟨-, -, rfl⟩ | ⟨-, -, rfl⟩
  · exact h.quiet (hknown _) (fun _ => id) rfl rfl
  · refine h.mono (l := [.started r.timer]) (hknown _) (fun _ => id) rfl rfl ?_
    intro x hx
    exact ⟨r.timer, h.timers _ hmem, Or.inl (List.mem_singleton.1 hx)⟩
  · refine h.quiet ?_ (fun _ => id) rfl rfl
    intro t i hk
    exact known_abort (known_proceed (s := s.abort r.timer) hrunning hk)
  · refine h.quiet ?_ (fun _ => id) rfl rfl
    intro t i hk
    rcases known_proceed (s := s.waitAgain ⟨r.timer, r.interval⟩) hrunning hk with
      ⟨w, hw, hkey⟩ | hrest
    · rcases List.mem_append.1 hw with hw | hw
      · exact known_abort (Or.inl ⟨w, hw, hkey⟩)
      · obtain rfl := List.mem_singleton.1 hw
        exact Or.inr (Or.inr ⟨r, hrunning, hkey⟩)
    · exact known_abort (t := r.timer) (Or.inr hrest)
  · refine h.quiet ?_ ?_ rfl rfl
    · exact hknown .leaving
    · intro t ht
      exact (mem_timers_erase.1 ht).1
  · refine h.quiet ?_ (fun _ => id) rfl rfl
    rintro t i (hw | hc | ⟨r', hr, -⟩)
    · exact Or.inl hw
    · exact Or.inr (Or.inl hc)
    · cases hr
  · refine h.quiet ?_ (fun _ => id) rfl rfl
    intro t i hk
    rcases known_abort (t := r.timer) hk with hw | hc | ⟨r', hr, -⟩
    · exact Or.inl hw
    · exact Or.inr (Or.inl hc)
    · cases hr

/-- `cancel` makes no timer. -/
theorem nextTimer_cancel (t : TimerId) : (s.cancel t).nextTimer = s.nextTimer := by
  unfold cancel
  split_ifs <;> rfl

/-- `cancel` leaves the running handler alone. -/
theorem running_cancel (t : TimerId) : (s.cancel t).running = s.running := by
  unfold cancel
  split_ifs <;> rfl

/-- What is known after `cancel` was known before. -/
theorem known_cancel {t t' : TimerId} {i : Int} (h : (s.cancel t).Known t' i) :
    s.Known t' i := by
  unfold cancel at h
  split_ifs at h
  · exact known_abort (t := t) h
  · exact h

/-- Every step keeps the records right. -/
theorem Recorded.step {e : TimerEvent} (h : Recorded s) (hstep : TimerLoop.step e s = .ok s') :
    Recorded s' := by
  cases e with
  | addTimer cb interval =>
    obtain rfl := addTimer_eq_ok.1 hstep
    exact h.addTimer
  | cancel timer =>
    rcases cancel_eq_ok.1 hstep with ⟨-, rfl⟩ | ⟨t, -, hlt, rfl⟩
    · exact h
    · refine h.mono (l := [.cancelled t]) (fun _ _ => known_cancel) ?_ (nextTimer_cancel t) rfl ?_
      · intro t' ht
        exact (mem_timers_cancel.1 ht).1
      · intro x hx
        exact ⟨t, hlt, Or.inr (List.mem_singleton.1 hx)⟩
  | expires w =>
    obtain ⟨hw, rfl⟩ := expires_eq_ok.1 hstep
    refine h.quiet ?_ (fun _ => id) rfl rfl
    rintro t i (⟨v, hv, hkey⟩ | ⟨c, hc, hkey⟩ | hrunning)
    · exact Or.inl ⟨v, List.mem_of_mem_erase hv, hkey⟩
    · rcases List.mem_append.1 hc with hc | hc
      · exact Or.inr (Or.inl ⟨c, hc, hkey⟩)
      · obtain rfl := List.mem_singleton.1 hc
        exact Or.inl ⟨w, hw, hkey⟩
    · exact Or.inr (Or.inr hrunning)
  | dequeue =>
    obtain ⟨-, c, queue, hqueue, rfl⟩ := dequeue_eq_ok.1 hstep
    have hrest : ∀ d ∈ queue, d ∈ s.queue := by
      intro d hd
      rw [hqueue]
      exact List.mem_cons_of_mem _ hd
    have hhead : c ∈ s.queue := by
      rw [hqueue]
      exact List.mem_cons_self ..
    unfold handleTimer
    split_ifs
    · refine h.quiet ?_ (fun _ => id) rfl rfl
      rintro t i (hw | ⟨d, hd, hkey⟩ | ⟨r, hr, hkey⟩)
      · exact Or.inl hw
      · exact Or.inr (Or.inl ⟨d, hrest d hd, hkey⟩)
      · obtain rfl := Option.some.inj hr
        exact Or.inr (Or.inl ⟨c, hhead, hkey⟩)
    · refine h.quiet ?_ (fun _ => id) rfl rfl
      rintro t i (hw | ⟨d, hd, hkey⟩ | hrunning)
      · exact Or.inl hw
      · exact Or.inr (Or.inl ⟨d, hrest d hd, hkey⟩)
      · exact Or.inr (Or.inr hrunning)
  | run =>
    obtain ⟨r, hrunning, hstep⟩ := run_eq_ok.1 hstep
    exact h.goOn hrunning hstep
  | return_ =>
    obtain ⟨r, hrunning, -, rfl⟩ := return_eq_ok.1 hstep
    exact h.quiet (fun _ _ => known_proceed hrunning) (fun _ => id) rfl rfl

/-! ## One wait for each entry -/

/-- The number of waits of a timer that are pending or queued. -/
def pendingOf (s : TimerLoop) (t : TimerId) : Nat :=
  s.waits.countP (fun w => w.timer = t) + s.queue.countP (fun c => c.timer = t)

/-- The running handler is one of the timer and has not started the next wait. -/
def holding (s : TimerLoop) (t : TimerId) : Nat :=
  match s.running with
  | some h => if h.timer = t ∧ h.stage ≠ .leaving then 1 else 0
  | none => 0

/-- An entry has one wait; a pending wait belongs to an entry, or to a timer about to be
destroyed; and no error is about to be handled for a timer in the map. -/
structure Tracked (s : TimerLoop) : Prop where
  one : ∀ t ∈ s.timers, s.pendingOf t + s.holding t = 1
  waits : ∀ w ∈ s.waits, w.timer ∈ s.timers ∨
    ∃ h ∈ s.running, h.timer = w.timer ∧ h.stage = .leaving ∧ h.interval ≠ 0
  queue : ∀ c ∈ s.queue, c.error ≠ none → c.timer ∉ s.timers
  running : ∀ h ∈ s.running, h.error = none

/-- Aborting moves waits from one place to the other. -/
theorem pendingOf_abort (t t' : TimerId) : (s.abort t).pendingOf t' = s.pendingOf t' := by
  have haborted : ((s.waits.filter fun w => w.timer = t).map Wait.aborted).countP
      (fun c => c.timer = t') =
        (s.waits.filter fun w => w.timer = t).countP fun w => w.timer = t' := by
    rw [List.countP_map]
    rfl
  have hsplit : s.waits.countP (fun w => w.timer = t') =
      (s.waits.filter fun w => w.timer = t).countP (fun w => w.timer = t') +
        (s.waits.filter fun w => w.timer ≠ t).countP (fun w => w.timer = t') := by
    rw [List.countP_eq_countP_filter_add _ _ fun w => w.timer = t]
    simp
  unfold pendingOf
  simp only [abort, List.countP_append, haborted]
  omega

/-- Waiting again adds a wait. -/
theorem pendingOf_waitAgain (w : Wait) (t : TimerId) :
    (s.waitAgain w).pendingOf t = s.pendingOf t + if w.timer = t then 1 else 0 := by
  have habort := pendingOf_abort (s := s) w.timer t
  simp only [pendingOf] at habort
  simp only [pendingOf, waitAgain, List.countP_append, List.countP_singleton, decide_eq_true_eq]
  omega

/-- A running handler holds the wait of its timer until it leaves. -/
theorem holding_of_running {h : Handler} {t : TimerId} (hrunning : s.running = some h) :
    s.holding t = if h.timer = t ∧ h.stage ≠ .leaving then 1 else 0 := by
  simp [holding, hrunning]

/-- No handler holds the wait of a timer when none of the timer runs. -/
theorem holding_eq_zero {t : TimerId} (h : ¬ s.isRunning t) : s.holding t = 0 := by
  cases hrunning : s.running with
  | none => simp [holding, hrunning]
  | some r =>
    rw [holding_of_running hrunning, if_neg]
    exact fun hr => h ⟨r, hrunning, hr.1⟩

/-- The handler that goes on is the one that is running. -/
theorem holding_proceed {r : Handler} {stage : Stage} {t : TimerId} :
    (s.proceed r stage).holding t = if r.timer = t ∧ stage ≠ .leaving then 1 else 0 := rfl

/-- A handler that goes on before its timer waits again. -/
theorem Tracked.proceed {r : Handler} {stage : Stage} (h : Tracked s)
    (hrunning : s.running = some r) (hstage : r.stage ≠ .leaving) (hnew : stage ≠ .leaving) :
    Tracked (s.proceed r stage) := by
  constructor
  · intro t ht
    have hone := h.one t ht
    rw [holding_of_running hrunning] at hone
    simp only [hstage, ne_eq, not_false_eq_true, and_true] at hone
    rw [holding_proceed]
    simp only [hnew, ne_eq, not_false_eq_true, and_true]
    exact hone
  · intro w hw
    rcases h.waits w hw with hmem | ⟨r', hr, -, hleaving, -⟩
    · exact Or.inl hmem
    · obtain rfl := Option.some.inj (hrunning.symm.trans hr)
      exact absurd hleaving hstage
  · exact h.queue
  · intro r' hr
    obtain rfl := Option.some.inj hr
    exact h.running r hrunning

/-- While the handler of a timer in the map has not started the next wait, the timer has no
other. -/
theorem Tracked.no_wait {r : Handler} (h : Tracked s) (hrunning : s.running = some r)
    (hstage : r.stage ≠ .leaving) (hmem : r.timer ∈ s.timers) :
    ∀ w ∈ s.waits, w.timer ≠ r.timer := by
  intro w hw hkey
  have hone := h.one _ hmem
  rw [holding_of_running hrunning, if_pos ⟨rfl, hstage⟩] at hone
  have hpos : 0 < s.waits.countP fun w => w.timer = r.timer :=
    List.countP_pos_iff.2 ⟨w, hw, by simpa using hkey⟩
  unfold pendingOf at hone
  omega

/-- A handler that goes on keeps the one wait of each entry. -/
theorem Tracked.goOn {r : Handler} (h : Tracked s) (hrunning : s.running = some r)
    (hstep : s.goOn r = .ok s') : Tracked s' := by
  have herror := h.running r hrunning
  rcases goOn_cases hstep with ⟨hstage, -, rfl⟩ | ⟨hstage, -, hmem, rfl⟩ | ⟨-, hno, -⟩ |
    ⟨hstage, -, hinterval, rfl⟩ | ⟨hstage, -, hmem, rfl⟩ | ⟨hstage, hmem, rfl⟩ |
    ⟨hstage, hmem, rfl⟩
  · exact h.proceed hrunning (by simp [hstage]) (by simp)
  · have hcalled : Tracked (s.proceed r .inCallback) :=
      h.proceed hrunning (by simp [hstage]) (by simp)
    exact ⟨hcalled.one, hcalled.waits, hcalled.queue, hcalled.running⟩
  · exact absurd herror hno
  · -- the wait that was handled is replaced by the next one
    have hbusy : r.stage ≠ .leaving := by simp [hstage]
    constructor
    · intro t ht
      have hone := h.one t ht
      rw [holding_of_running hrunning] at hone
      simp only [hbusy, ne_eq, not_false_eq_true, and_true] at hone
      rw [holding_proceed]
      have hsame : ((s.waitAgain ⟨r.timer, r.interval⟩).proceed r .leaving).pendingOf t =
          (s.waitAgain ⟨r.timer, r.interval⟩).pendingOf t := rfl
      rw [hsame, pendingOf_waitAgain]
      simpa using hone
    · intro w hw
      rcases List.mem_append.1 hw with hw | hw
      · obtain ⟨hw, -⟩ := mem_waits_abort.1 hw
        rcases h.waits w hw with hmem | ⟨r', hr, -, hleaving, -⟩
        · exact Or.inl hmem
        · obtain rfl := Option.some.inj (hrunning.symm.trans hr)
          exact absurd hleaving hbusy
      · obtain rfl := List.mem_singleton.1 hw
        exact Or.inr ⟨_, rfl, rfl, rfl, hinterval⟩
    · intro c hc hfailed hmem
      rcases mem_queue_abort.1 hc with hc | ⟨w, hw, hkey, rfl⟩
      · exact h.queue c hc hfailed hmem
      · have ht : r.timer ∈ s.timers := by
          rw [show r.timer = w.timer from hkey.symm]
          exact hmem
        exact h.no_wait hrunning hbusy ht w hw hkey
    · intro r' hr
      obtain rfl := Option.some.inj hr
      exact herror
  · have hbusy : r.stage ≠ .leaving := by simp [hstage]
    constructor
    · intro t ht
      obtain ⟨ht, hne⟩ := mem_timers_erase.1 ht
      have hone := h.one t ht
      rw [holding_of_running hrunning, if_neg fun hc => hne hc.1.symm] at hone
      rw [holding_proceed, if_neg fun hc => hne hc.1.symm]
      exact hone
    · intro w hw
      rcases h.waits w hw with ht | ⟨r', hr, -, hleaving, -⟩
      · exact Or.inl (mem_timers_erase.2 ⟨ht, h.no_wait hrunning hbusy hmem w hw⟩)
      · obtain rfl := Option.some.inj (hrunning.symm.trans hr)
        exact absurd hleaving hbusy
    · intro c hc hfailed ht
      exact h.queue c hc hfailed (mem_timers_erase.1 ht).1
    · intro r' hr
      obtain rfl := Option.some.inj hr
      exact herror
  · constructor
    · intro t ht
      have hone := h.one t ht
      rw [holding_of_running hrunning, if_neg fun hc => hc.2 hstage] at hone
      exact hone
    · intro w hw
      rcases h.waits w hw with ht | ⟨r', hr, hkey, -, -⟩
      · exact Or.inl ht
      · obtain rfl := Option.some.inj (hrunning.symm.trans hr)
        exact Or.inl (hkey ▸ hmem)
    · exact h.queue
    · nofun
  · constructor
    · intro t ht
      have hone := h.one t ht
      rw [holding_of_running hrunning, if_neg fun hc => hc.2 hstage] at hone
      rw [pendingOf_abort]
      exact hone
    · intro w hw
      obtain ⟨hw, hne⟩ := mem_waits_abort.1 hw
      rcases h.waits w hw with ht | ⟨r', hr, hkey, -, -⟩
      · exact Or.inl ht
      · obtain rfl := Option.some.inj (hrunning.symm.trans hr)
        exact absurd hkey.symm hne
    · intro c hc hfailed ht
      rcases mem_queue_abort.1 hc with hc | ⟨w, hw, hkey, rfl⟩
      · exact h.queue c hc hfailed ht
      · exact hmem (hkey ▸ ht)
    · nofun

/-- A new timer gets an entry and a wait. -/
theorem Tracked.addTimer {cb : TimerCallback} {interval : Int} (h : Tracked s)
    (hr : Recorded s) : Tracked (s.addTimer cb interval) := by
  constructor
  · intro t ht
    have hpending : (s.addTimer cb interval).pendingOf t =
        s.pendingOf t + if s.nextTimer = t then 1 else 0 := by
      simp only [pendingOf, TimerLoop.addTimer, List.countP_append, List.countP_singleton,
        decide_eq_true_eq]
      omega
    have hholding : (s.addTimer cb interval).holding t = s.holding t := rfl
    rw [hpending, hholding]
    rcases mem_timers_addTimer.1 ht with rfl | ht
    · -- nothing is known of a timer that was not added
      have hunknown : ∀ i, ¬ s.Known s.nextTimer i := by
        intro i hk
        exact Nat.lt_irrefl _ (hr.lt _ _ (hr.known _ _ hk))
      have hwaits : s.waits.countP (fun w => w.timer = s.nextTimer) = 0 := by
        apply List.countP_eq_zero.2
        intro w hw hkey
        exact hunknown w.interval (Or.inl ⟨w, hw, by simpa using hkey, rfl⟩)
      have hqueue : s.queue.countP (fun c => c.timer = s.nextTimer) = 0 := by
        apply List.countP_eq_zero.2
        intro c hc hkey
        exact hunknown c.interval (Or.inr (Or.inl ⟨c, hc, by simpa using hkey, rfl⟩))
      have hzero : s.holding s.nextTimer = 0 := by
        apply holding_eq_zero
        rintro ⟨r, hr, hkey⟩
        exact hunknown r.interval (Or.inr (Or.inr ⟨r, hr, hkey, rfl⟩))
      rw [pendingOf, hwaits, hqueue, hzero, if_pos rfl]
    · have hne : s.nextTimer ≠ t := by
        rintro rfl
        exact Nat.lt_irrefl _ (hr.timers _ ht)
      rw [if_neg hne]
      exact h.one t ht
  · intro w hw
    rcases List.mem_append.1 hw with hw | hw
    · rcases h.waits w hw with ht | hleaving
      · exact Or.inl (mem_timers_addTimer.2 (Or.inr ht))
      · exact Or.inr hleaving
    · obtain rfl := List.mem_singleton.1 hw
      exact Or.inl (mem_timers_addTimer.2 (Or.inl rfl))
  · intro c hc hfailed ht
    rcases mem_timers_addTimer.1 ht with hkey | ht
    · have hlt := hr.lt _ _ (hr.known _ _ (Or.inr (Or.inl ⟨c, hc, hkey, rfl⟩)))
      exact Nat.lt_irrefl _ hlt
    · exact h.queue c hc hfailed ht
  · exact h.running

/-- A cancelled timer loses its entry, and its waits are aborted. -/
theorem Tracked.cancel {t : TimerId} (h : Tracked s) : Tracked (s.cancel t) := by
  unfold TimerLoop.cancel
  split_ifs
  · constructor
    · intro t' ht
      obtain ⟨ht, -⟩ := mem_timers_erase.1 ht
      exact (congrArg (· + s.holding t') (pendingOf_abort t t')).trans (h.one t' ht)
    · intro w hw
      obtain ⟨hw, hne⟩ := mem_waits_abort.1 hw
      rcases h.waits w hw with ht | hleaving
      · exact Or.inl (mem_timers_erase.2 ⟨ht, hne⟩)
      · exact Or.inr hleaving
    · intro c hc hfailed ht
      obtain ⟨ht, hne⟩ := mem_timers_erase.1 ht
      rcases mem_queue_abort.1 hc with hc | ⟨w, -, hkey, rfl⟩
      · exact h.queue c hc hfailed ht
      · exact hne hkey
    · exact h.running
  · exact h

/-- Every step keeps the one wait of each entry. -/
theorem Tracked.step {e : TimerEvent} (h : Tracked s) (hr : Recorded s)
    (hstep : TimerLoop.step e s = .ok s') : Tracked s' := by
  cases e with
  | addTimer cb interval =>
    obtain rfl := addTimer_eq_ok.1 hstep
    exact h.addTimer hr
  | cancel timer =>
    rcases cancel_eq_ok.1 hstep with ⟨-, rfl⟩ | ⟨t, -, -, rfl⟩
    · exact h
    · have hcancel : Tracked (s.cancel t) := h.cancel
      exact ⟨hcancel.one, hcancel.waits, hcancel.queue, hcancel.running⟩
  | expires w =>
    obtain ⟨hw, rfl⟩ := expires_eq_ok.1 hstep
    constructor
    · intro t ht
      have hperm := (List.perm_cons_erase hw).countP_eq fun w => decide (w.timer = t)
      have hone := h.one t ht
      rw [List.countP_cons] at hperm
      have hpending : pendingOf { s with
          waits := s.waits.erase w, queue := s.queue ++ [w.expired] } t = s.pendingOf t := by
        simp only [pendingOf, List.countP_append, List.countP_singleton, Wait.expired]
        omega
      rw [hpending]
      exact hone
    · intro v hv
      exact h.waits v (List.mem_of_mem_erase hv)
    · intro c hc hfailed
      rcases List.mem_append.1 hc with hc | hc
      · exact h.queue c hc hfailed
      · obtain rfl := List.mem_singleton.1 hc
        exact absurd rfl hfailed
    · exact h.running
  | dequeue =>
    obtain ⟨hrunning, c, queue, hqueue, rfl⟩ := dequeue_eq_ok.1 hstep
    have hwaits : ∀ w ∈ s.waits, w.timer ∈ s.timers := by
      intro w hw
      rcases h.waits w hw with ht | ⟨r, hr, -⟩
      · exact ht
      · rw [show s.running = some r from hr] at hrunning
        cases hrunning
    have hone : ∀ t ∈ s.timers, s.waits.countP (fun w => w.timer = t) +
        (queue.countP (fun c => c.timer = t) + if c.timer = t then 1 else 0) = 1 := by
      intro t ht
      have hone := h.one t ht
      simp only [pendingOf, holding, hrunning, hqueue, List.countP_cons, decide_eq_true_eq] at hone
      omega
    have hrest : ∀ d ∈ queue, d.error ≠ none → d.timer ∉ s.timers := by
      intro d hd
      apply h.queue d
      rw [hqueue]
      exact List.mem_cons_of_mem _ hd
    unfold handleTimer
    split_ifs with halive
    · have hmem : c.timer ∈ s.timers := by
        rcases halive with hmem | ⟨r, hr, -⟩
        · exact hmem
        · rw [show s.running = some r from hr] at hrunning
          cases hrunning
      refine ⟨?_, fun w hw => Or.inl (hwaits w hw), hrest, ?_⟩
      · intro t ht
        rw [holding_of_running rfl]
        simpa [pendingOf, Nat.add_assoc] using hone t ht
      · intro r hr
        obtain rfl := Option.some.inj hr
        by_contra hfailed
        refine h.queue c ?_ hfailed hmem
        rw [hqueue]
        exact List.mem_cons_self ..
    · refine ⟨?_, fun w hw => Or.inl (hwaits w hw), hrest, h.running⟩
      intro t ht
      have hne : c.timer ≠ t := by
        rintro rfl
        exact halive (Or.inl ht)
      have hpending := hone t ht
      rw [if_neg hne] at hpending
      simpa [pendingOf, holding, hrunning] using hpending
  | run =>
    obtain ⟨r, hrunning, hstep⟩ := run_eq_ok.1 hstep
    exact h.goOn hrunning hstep
  | return_ =>
    obtain ⟨r, hrunning, hstage, rfl⟩ := return_eq_ok.1 hstep
    exact h.proceed hrunning (by simp [hstage]) (by simp)

end TimerLoop

end LibNetToy
