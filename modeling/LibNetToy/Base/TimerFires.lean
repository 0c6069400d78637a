import LibNetToy.Base.TimerWaits

/-!
# When timers fire

A timer that was cancelled has left the map for good, so its callback does not start again.  A
timer that fires once is in the map after its callback has started only while the handler that
called it runs, so there is no second call.  A periodic timer stays in the map until it is
cancelled, and between handlers every entry has one wait.
-/

namespace LibNetToy

/-- The handler is at or behind the callback and has not left. -/
def Handler.hasCalled (h : Handler) : Prop :=
  h.stage = .inCallback ∨ h.stage = .returned

namespace TimerLoop

/-- What the log says about the timers in the map and about those that left it. -/
structure Fired (s : TimerLoop) : Prop where
  gone : ∀ t, .cancelled t ∈ s.log → t ∉ s.timers
  final : s.log.Pairwise fun r r' => ∀ t, r = .cancelled t → r' ≠ .started t
  called : ∀ h ∈ s.running, h.hasCalled → .started h.timer ∈ s.log
  calling : ∀ t ∈ s.timers, .added t 0 ∈ s.log → .started t ∈ s.log →
    ∃ h ∈ s.running, h.timer = t ∧ h.hasCalled
  once : ∀ t, .added t 0 ∈ s.log → s.log.count (.started t) ≤ 1
  stays : ∀ t i, .added t i ∈ s.log → .cancelled t ∉ s.log → i ≠ 0 ∨ .started t ∉ s.log →
    t ∈ s.timers

variable {s s' : TimerLoop}

/-- A new record is the only one that is new. -/
theorem mem_append_record {l : List TimerRecord} {x y : TimerRecord} (h : y ≠ x) :
    y ∈ l ++ [x] ↔ y ∈ l := by
  simp [h]

/-- A step that records nothing and erases no entry. -/
theorem Fired.quiet (h : Fired s) (hlog : s'.log = s.log)
    (htimers : ∀ t, t ∈ s'.timers ↔ t ∈ s.timers)
    (hcalled : ∀ r ∈ s'.running, r.hasCalled → .started r.timer ∈ s.log)
    (hcalling : ∀ r ∈ s.running, r.hasCalled → .added r.timer 0 ∈ s.log →
      ∃ r' ∈ s'.running, r'.timer = r.timer ∧ r'.hasCalled) : Fired s' := by
  constructor
  · intro t ht
    rw [hlog] at ht
    rw [htimers]
    exact h.gone t ht
  · rw [hlog]
    exact h.final
  · rw [hlog]
    exact hcalled
  · intro t ht hadded hstarted
    rw [hlog] at hadded hstarted
    obtain ⟨r, hr, rfl, hat⟩ := h.calling t ((htimers t).1 ht) hadded hstarted
    exact hcalling r hr hat hadded
  · rw [hlog]
    exact h.once
  · intro t i
    rw [hlog, htimers]
    exact h.stays t i

theorem Fired.addTimer {cb : TimerCallback} {interval : Int} (h : Fired s) (hr : Recorded s) :
    Fired (s.addTimer cb interval) := by
  have hadded : ∀ {t i}, .added t i ∈ (s.addTimer cb interval).log →
      .added t i ∈ s.log ∨ t = s.nextTimer := by
    intro t i hmem
    rcases List.mem_append.1 hmem with hmem | hmem
    · exact Or.inl hmem
    · exact Or.inr (TimerRecord.added.inj (List.mem_singleton.1 hmem)).1
  constructor
  · intro t ht hmem
    have ht := (mem_append_record (by simp)).1 ht
    rcases mem_timers_addTimer.1 hmem with rfl | hmem
    · exact Nat.lt_irrefl _ (hr.cancelled _ ht)
    · exact h.gone t ht hmem
  · refine List.pairwise_append.2 ⟨h.final, List.pairwise_singleton _ _, ?_⟩
    intro x _ y hy t _
    rw [List.mem_singleton.1 hy]
    nofun
  · intro r hr hat
    exact (mem_append_record (by simp)).2 (h.called r hr hat)
  · intro t ht htadded hstarted
    have hstarted := (mem_append_record (by simp)).1 hstarted
    rcases mem_timers_addTimer.1 ht with rfl | ht
    · exact absurd (hr.started _ hstarted) (Nat.lt_irrefl _)
    · rcases hadded htadded with htadded | rfl
      · exact h.calling t ht htadded hstarted
      · exact absurd (hr.started _ hstarted) (Nat.lt_irrefl _)
  · intro t ht
    have hcount : (s.addTimer cb interval).log.count (.started t) = s.log.count (.started t) := by
      simp [TimerLoop.addTimer]
    rw [hcount]
    rcases hadded ht with ht | rfl
    · exact h.once t ht
    · have hnone : s.log.count (.started s.nextTimer) = 0 := by
        apply List.count_eq_zero.2
        intro hmem
        exact Nat.lt_irrefl _ (hr.started _ hmem)
      rw [hnone]
      exact Nat.zero_le _
  · intro t i ht hcancelled hwhy
    have hwhy' : i ≠ 0 ∨ .started t ∉ s.log :=
      hwhy.imp_right fun hno hmem => hno (List.mem_append_left _ hmem)
    rcases hadded ht with ht | rfl
    · refine mem_timers_addTimer.2 (Or.inr (h.stays t i ht ?_ hwhy'))
      exact fun hmem => hcancelled (List.mem_append_left _ hmem)
    · exact mem_timers_addTimer.2 (Or.inl rfl)

theorem Fired.cancel {t : TimerId} (h : Fired s) :
    Fired { s.cancel t with log := s.log ++ [.cancelled t] } := by
  constructor
  · intro t' ht hmem
    obtain ⟨hmem, hne⟩ := mem_timers_cancel.1 hmem
    rcases List.mem_append.1 ht with ht | ht
    · exact h.gone t' ht hmem
    · exact hne (TimerRecord.cancelled.inj (List.mem_singleton.1 ht))
  · refine List.pairwise_append.2 ⟨h.final, List.pairwise_singleton _ _, ?_⟩
    intro x _ y hy t' _
    rw [List.mem_singleton.1 hy]
    nofun
  · intro r hr hat
    have hrunning : r ∈ s.running := (running_cancel (s := s) t) ▸ hr
    exact (mem_append_record (by simp)).2 (h.called r hrunning hat)
  · intro t' ht hadded hstarted
    obtain ⟨r, hr, hkey⟩ := h.calling t' (mem_timers_cancel.1 ht).1
      ((mem_append_record (by simp)).1 hadded)
      ((mem_append_record (by simp)).1 hstarted)
    exact ⟨r, (running_cancel (s := s) t).symm ▸ hr, hkey⟩
  · intro t' ht
    have hcount : (s.log ++ [TimerRecord.cancelled t]).count (.started t') =
        s.log.count (.started t') := by
      simp
    rw [hcount]
    exact h.once t' ((mem_append_record (by simp)).1 ht)
  · intro t' i ht hcancelled hwhy
    have ht := (mem_append_record (by simp)).1 ht
    have hwhy' : i ≠ 0 ∨ .started t' ∉ s.log :=
      hwhy.imp_right fun hno hmem => hno (List.mem_append_left _ hmem)
    have hne : t' ≠ t := by
      rintro rfl
      exact hcancelled (List.mem_append_right _ (List.mem_singleton.2 rfl))
    refine mem_timers_cancel.2 ⟨h.stays t' i ht ?_ hwhy', hne⟩
    exact fun hmem => hcancelled (List.mem_append_left _ hmem)

/-- The callback of the timer of the running handler starts. -/
theorem Fired.start {r : Handler} (h : Fired s) (hrunning : s.running = some r)
    (hstage : r.stage = .found) (hmem : r.timer ∈ s.timers) :
    Fired { s.proceed r .inCallback with log := s.log ++ [.started r.timer] } := by
  have hnot : ¬ r.hasCalled := by
    rintro (hc | hc) <;> rw [hstage] at hc <;> cases hc
  -- no timer that fires once has started its callback before
  have hfirst : ∀ t ∈ s.timers, .added t 0 ∈ s.log → .started t ∉ s.log := by
    intro t ht hadded hstarted
    obtain ⟨r', hr, -, hat⟩ := h.calling t ht hadded hstarted
    obtain rfl := Option.some.inj (hrunning.symm.trans hr)
    exact hnot hat
  constructor
  · intro t ht
    exact h.gone t ((mem_append_record (by simp)).1 ht)
  · refine List.pairwise_append.2 ⟨h.final, List.pairwise_singleton _ _, ?_⟩
    rintro x hx y hy t rfl hstarted
    obtain rfl := List.mem_singleton.1 hy
    obtain rfl := TimerRecord.started.inj hstarted
    exact h.gone _ hx hmem
  · intro r' hr _
    obtain rfl := Option.some.inj hr
    exact List.mem_append_right _ (List.mem_singleton.2 rfl)
  · intro t ht hadded hstarted
    rcases List.mem_append.1 hstarted with hstarted | hstarted
    · exact absurd hstarted (hfirst t ht ((mem_append_record (by simp)).1 hadded))
    · obtain rfl := TimerRecord.started.inj (List.mem_singleton.1 hstarted)
      exact ⟨_, rfl, rfl, Or.inl rfl⟩
  · intro t ht
    have ht := (mem_append_record (by simp)).1 ht
    rw [List.count_append, List.count_singleton]
    by_cases hkey : r.timer = t
    · subst hkey
      have hzero := List.count_eq_zero.2 (hfirst _ hmem ht)
      simp [hzero]
    · have hone := h.once t ht
      simp [hkey, hone]
  · intro t i ht hcancelled hwhy
    refine h.stays t i ((mem_append_record (by simp)).1 ht) ?_ ?_
    · exact fun hc => hcancelled (List.mem_append_left _ hc)
    · rcases hwhy with hwhy | hwhy
      · exact Or.inl hwhy
      · exact Or.inr fun hc => hwhy (List.mem_append_left _ hc)

/-- The entry of a timer that fires once is erased after its callback. -/
theorem Fired.erase {r : Handler} (h : Fired s) (hr : Recorded s)
    (hrunning : s.running = some r) (hstage : r.stage = .returned) (hinterval : r.interval = 0) :
    Fired ((s.erase r.timer).proceed r .leaving) := by
  have hadded : .added r.timer 0 ∈ s.log := by
    have hknown := hr.known r.timer r.interval (Or.inr (Or.inr ⟨r, hrunning, rfl, rfl⟩))
    rwa [hinterval] at hknown
  constructor
  · intro t ht hmem
    exact h.gone t ht (mem_timers_erase.1 hmem).1
  · exact h.final
  · intro r' hr' hat
    obtain rfl := Option.some.inj hr'
    rcases hat with hat | hat <;> cases hat
  · intro t ht htadded hstarted
    obtain ⟨ht, hne⟩ := mem_timers_erase.1 ht
    obtain ⟨r', hr', hkey, -⟩ := h.calling t ht htadded hstarted
    obtain rfl := Option.some.inj (hrunning.symm.trans hr')
    exact absurd hkey.symm hne
  · exact h.once
  · intro t i ht hcancelled hwhy
    refine mem_timers_erase.2 ⟨h.stays t i ht hcancelled hwhy, ?_⟩
    rintro rfl
    rcases hwhy with hwhy | hwhy
    · exact hwhy (hr.same _ _ _ ht hadded)
    · exact hwhy (h.called r hrunning (Or.inr hstage))

theorem Fired.goOn {r : Handler} (h : Fired s) (hr : Recorded s) (ht : Tracked s)
    (hrunning : s.running = some r) (hstep : s.goOn r = .ok s') : Fired s' := by
  have hother : ∀ {stage}, r.stage = stage → stage ≠ .inCallback → stage ≠ .returned →
      ∀ r' ∈ s.running, ¬ r'.hasCalled := by
    intro stage hstage hno hno' r' hr' hat
    obtain rfl := Option.some.inj (hrunning.symm.trans hr')
    rw [Handler.hasCalled, hstage] at hat
    exact hat.elim hno hno'
  have herror := ht.running r hrunning
  rcases goOn_cases hstep with ⟨hstage, -, rfl⟩ | ⟨hstage, -, hmem, rfl⟩ | ⟨-, hno, -⟩ |
    ⟨hstage, -, hinterval, rfl⟩ | ⟨hstage, hinterval, -, rfl⟩ | ⟨hstage, -, rfl⟩ |
    ⟨hstage, -, rfl⟩
  · refine h.quiet rfl (fun _ => Iff.rfl) ?_ ?_
    · intro r' hr' hat
      obtain rfl := Option.some.inj hr'
      rcases hat with hat | hat <;> cases hat
    · intro r' hr' hat
      exact absurd hat (hother hstage nofun nofun r' hr')
  · exact h.start hrunning hstage hmem
  · exact absurd herror hno
  · refine h.quiet rfl (fun _ => Iff.rfl) ?_ ?_
    · intro r' hr' hat
      obtain rfl := Option.some.inj hr'
      rcases hat with hat | hat <;> cases hat
    · intro r' hr' _ hadded
      obtain rfl := Option.some.inj (hrunning.symm.trans hr')
      have hknown := hr.known r.timer r.interval (Or.inr (Or.inr ⟨r, hrunning, rfl, rfl⟩))
      exact absurd (hr.same _ _ _ hknown hadded) hinterval
  · exact h.erase hr hrunning hstage (hinterval herror)
  · refine h.quiet rfl (fun _ => Iff.rfl) nofun ?_
    intro r' hr' hat
    exact absurd hat (hother hstage nofun nofun r' hr')
  · refine h.quiet rfl (fun _ => Iff.rfl) nofun ?_
    intro r' hr' hat
    exact absurd hat (hother hstage nofun nofun r' hr')

theorem Fired.step {e : TimerEvent} (h : Fired s) (hr : Recorded s) (ht : Tracked s)
    (hstep : TimerLoop.step e s = .ok s') : Fired s' := by
  cases e with
  | addTimer cb interval =>
    obtain rfl := addTimer_eq_ok.1 hstep
    exact h.addTimer hr
  | cancel timer =>
    rcases cancel_eq_ok.1 hstep with ⟨-, rfl⟩ | ⟨t, -, -, rfl⟩
    · exact h
    · exact h.cancel
  | expires w =>
    obtain ⟨-, rfl⟩ := expires_eq_ok.1 hstep
    exact h.quiet rfl (fun _ => Iff.rfl) h.called fun r hr hat _ => ⟨r, hr, rfl, hat⟩
  | dequeue =>
    obtain ⟨hrunning, c, queue, -, rfl⟩ := dequeue_eq_ok.1 hstep
    have hnone : ∀ r ∈ s.running, ¬ r.hasCalled := by
      intro r hr
      rw [hrunning] at hr
      cases hr
    unfold handleTimer
    split_ifs
    · refine h.quiet rfl (fun _ => Iff.rfl) ?_ ?_
      · intro r hr hat
        obtain rfl := Option.some.inj hr
        rcases hat with hat | hat <;> cases hat
      · intro r hr hat
        exact absurd hat (hnone r hr)
    · exact h.quiet rfl (fun _ => Iff.rfl) h.called fun r hr hat _ => ⟨r, hr, rfl, hat⟩
  | run =>
    obtain ⟨r, hrunning, hstep⟩ := run_eq_ok.1 hstep
    exact h.goOn hr ht hrunning hstep
  | return_ =>
    obtain ⟨r, hrunning, hstage, rfl⟩ := return_eq_ok.1 hstep
    refine h.quiet rfl (fun _ => Iff.rfl) ?_ ?_
    · intro r' hr' _
      obtain rfl := Option.some.inj hr'
      exact h.called r hrunning (Or.inl hstage)
    · intro r' hr' _ _
      obtain rfl := Option.some.inj (hrunning.symm.trans hr')
      exact ⟨_, rfl, rfl, Or.inr rfl⟩

/-! ## The results -/

/-- The invariants of a timer queue hold in every run. -/
theorem invariants (hs : timerMachine.Reachable s) : Recorded s ∧ Tracked s ∧ Fired s := by
  refine hs.invariant (I := fun s => Recorded s ∧ Tracked s ∧ Fired s) ?_ ?_
  · rintro s rfl
    refine ⟨⟨nofun, nofun, nofun, ?_, nofun, nofun⟩, ⟨nofun, nofun, nofun, nofun⟩,
      ⟨nofun, List.Pairwise.nil, nofun, nofun, nofun, nofun⟩⟩
    rintro t i (⟨w, hw, -⟩ | ⟨c, hc, -⟩ | ⟨r, hr, -⟩)
    · cases hw
    · cases hc
    · cases hr
  · rintro s e s' ⟨hr, ht, hf⟩ - hstep
    exact ⟨hr.step hstep, ht.step hr hstep, hf.step hr ht hstep⟩

/-- No handler of the timer runs, and it was cancelled or has fired for the only time. -/
def Finished (s : TimerLoop) (t : TimerId) : Prop :=
  ¬ s.isRunning t ∧
    (.cancelled t ∈ s.log ∨ (.added t 0 ∈ s.log ∧ .started t ∈ s.log))

/-- Cancelling is final, timers without an interval fire once, and cancelling a finished timer
changes nothing. -/
structure CancelsFinally (s : TimerLoop) : Prop where
  final : s.log.Pairwise fun r r' => ∀ t, r = .cancelled t → r' ≠ .started t
  once : ∀ t, .added t 0 ∈ s.log → s.log.count (.started t) ≤ 1
  finished : ∀ t, s.Finished t →
    step (.cancel (some t)) s = .ok { s with log := s.log ++ [.cancelled t] }

/-- In every run of a timer queue cancelling is final. -/
theorem cancelsFinally (hs : timerMachine.Reachable s) : s.CancelsFinally := by
  obtain ⟨hr, -, hf⟩ := invariants hs
  refine ⟨hf.final, hf.once, ?_⟩
  rintro t ⟨hrunning, hover⟩
  have hgone : t ∉ s.timers := by
    intro hmem
    rcases hover with hcancelled | ⟨hadded, hstarted⟩
    · exact hf.gone t hcancelled hmem
    · obtain ⟨r, hr, hkey, -⟩ := hf.calling t hmem hadded hstarted
      exact hrunning ⟨r, hr, hkey⟩
  have hlt : t < s.nextTimer := by
    rcases hover with hcancelled | ⟨hadded, -⟩
    · exact hr.cancelled t hcancelled
    · exact hr.lt t 0 hadded
  have hdead : ¬ s.alive t := by
    rintro (hmem | hrun)
    · exact hgone hmem
    · exact hrunning hrun
  simp [step, TimerLoop.cancel, hdead, hlt]

/-- A timer fires once while a second one is cancelled by its own callback. -/
theorem cancelsFinally_both : ∃ s : TimerLoop,
    s.log = [.added 0 0, .added 1 5, .started 1, .cancelled 1, .started 0] ∧
      s.CancelsFinally := by
  obtain ⟨s, hs, hobs⟩ := Machine.exists_of_run (M := timerMachine) (C := fun _ _ => True)
    (s := initial) rfl
    (l := [.addTimer 0 0, .addTimer 0 5, .expires ⟨1, 5⟩, .dequeue, .run, .run,
      .cancel (some 1), .expires ⟨0, 0⟩, .return_, .run, .run, .dequeue, .run, .run])
    (f := fun s => s.log) (a := [.added 0 0, .added 1 5, .started 1, .cancelled 1, .started 0])
    (by decide +kernel)
  exact ⟨s, hobs, cancelsFinally hs⟩

/-- Between handlers entries and waits correspond, timers leave the map when they should and no
other time, and no handler takes the branch for errors. -/
structure WaitsMatch (s : TimerLoop) : Prop where
  entry : s.running = none → ∀ t ∈ s.timers, s.pendingOf t = 1
  wait : s.running = none → ∀ w ∈ s.waits, w.timer ∈ s.timers
  queued : s.running = none → ∀ c ∈ s.queue, s.alive c.timer → c.timer ∈ s.timers
  fired : s.running = none → ∀ t, .added t 0 ∈ s.log → .started t ∈ s.log → t ∉ s.timers
  periodic : ∀ t i, .added t i ∈ s.log → i ≠ 0 → .cancelled t ∉ s.log → t ∈ s.timers
  error : ∀ h ∈ s.running, h.error = none

/-- In every run of a timer queue entries and waits correspond. -/
theorem waitsMatch (hs : timerMachine.Reachable s) : s.WaitsMatch := by
  obtain ⟨-, ht, hf⟩ := invariants hs
  constructor
  · intro hrunning t hmem
    have hone := ht.one t hmem
    simpa [holding, hrunning] using hone
  · intro hrunning w hw
    rcases ht.waits w hw with hmem | ⟨r, hr, -⟩
    · exact hmem
    · rw [hrunning] at hr
      cases hr
  · rintro hrunning c - (hmem | ⟨r, hr, -⟩)
    · exact hmem
    · rw [hrunning] at hr
      cases hr
  · intro hrunning t hadded hstarted hmem
    obtain ⟨r, hr, -⟩ := hf.calling t hmem hadded hstarted
    rw [hrunning] at hr
    cases hr
  · intro t i hadded hinterval hcancelled
    exact hf.stays t i hadded hcancelled (Or.inl hinterval)
  · exact ht.running

/-- A periodic timer waits again after its callback. -/
theorem waitsMatch_periodic : ∃ s : TimerLoop,
    (s.running, s.waits, s.log) = (none, [⟨0, 5⟩], [.added 0 5, .started 0]) ∧
      s.WaitsMatch := by
  obtain ⟨s, hs, hobs⟩ := Machine.exists_of_run (M := timerMachine) (C := fun _ _ => True)
    (s := initial) rfl
    (l := [.addTimer 0 5, .expires ⟨0, 5⟩, .dequeue, .run, .run, .return_, .run, .run])
    (f := fun s => (s.running, s.waits, s.log))
    (a := (none, [⟨0, 5⟩], [.added 0 5, .started 0])) (by decide +kernel)
  exact ⟨s, hobs, waitsMatch hs⟩

end TimerLoop

end LibNetToy
