import RobomasterFirmware.Kernel.Threads

/-!
# Sleeping Threads

What the timers of threads promise to a thread that sleeps, whatever the other threads, the
interrupts and the timeout functions of the other timers do.

## Main Results
- `rtThreadTimeout_suspended`: the timer of a thread runs only while the thread is suspended, so the
  assertion of `rt_thread_timeout` never fails
- `rtThreadSleep_wakes`: who sleeps is suspended until as many ticks have passed, and no longer
-/

namespace RobomasterFirmware.Kernel

open RobomasterFirmware.Lib

namespace KernelState

variable {τ κ : Type*} [DecidableEq τ] [DecidableEq κ] {k : KernelState τ κ} {t : τ}

/-! ## The timers of threads -/

/-- The timer of a thread runs only while the thread is suspended, and then its flag says so. -/
structure Timed (t : τ) (k : KernelState τ κ) : Prop where
  linked : .inl t ∈ k.timers.rtTimerList →
    (k.timers.timer (.inl t)).activated = true ∧ k.scheduler.Suspended t
  oneshot : (k.timers.timer (.inl t)).periodic = false

/-- The scheduler and the timers are in order, and so are the timers of the threads. -/
structure Valid (k : KernelState τ κ) : Prop where
  scheduler : k.scheduler.Valid
  timers : ∃ c, Refines k.timers c
  timed : ∀ t, Timed t k

omit [DecidableEq τ] [DecidableEq κ] in
theorem Valid.nodup (h : k.Valid) : k.timers.rtTimerList.Nodup := by
  obtain ⟨c, hc⟩ := h.timers
  exact TimerSystem.nodup_of_refines hc

omit [DecidableEq τ] [DecidableEq κ] in
theorem Timed.of_same {k' : KernelState τ κ} (h : Timed t k)
    (hsame : TimerSystem.Same (.inl t) k.timers k'.timers)
    (hsuspended : k'.scheduler.Suspended t ↔ k.scheduler.Suspended t) : Timed t k' where
  linked hmem := by
    rw [hsame.activated, hsuspended]
    exact h.linked (hsame.mem.mp hmem)
  oneshot := hsame.periodic.trans h.oneshot

omit [DecidableEq τ] [DecidableEq κ] in
/-- What the timers do, each thread's own being left alone or no longer linked. -/
theorem Valid.of_timers (h : k.Valid) {s : TimerSystem (τ ⊕ κ)} (hs : ∃ c, Refines s c)
    (hsame : ∀ t, TimerSystem.Same (.inl t) k.timers s ∨
      .inl t ∉ s.rtTimerList ∧ (s.timer (.inl t)).periodic = false) :
    Valid ⟨s, k.scheduler⟩ where
  scheduler := h.scheduler
  timers := hs
  timed t := by
    -- a timer that is not linked says nothing about its thread
    rcases hsame t with hsame | ⟨hnot, hperiodic⟩
    · exact (h.timed t).of_same hsame Iff.rfl
    · exact ⟨fun hmem => absurd hmem hnot, hperiodic⟩

theorem periodic_rtTimerStop (s : TimerSystem (τ ⊕ κ)) (i j : τ ⊕ κ) :
    ((s.rtTimerStop i).timer j).periodic = (s.timer j).periodic := by
  unfold TimerSystem.rtTimerStop
  split
  -- only the other flag is cleared, and of one timer
  · by_cases heq : j = i
    · subst heq
      simp [TimerSystem.deactivate, TimerSystem.remove]
    · rw [TimerSystem.deactivate, TimerSystem.timer_modify_of_ne heq]
      rfl
  · rfl

/-- The timer of a thread is stopped, whatever the scheduler does to the thread. -/
theorem Valid.timed_stop (h : k.Valid) (t : τ) (s : Scheduler τ) :
    Timed t (⟨k.timers.rtTimerStop (.inl t), s⟩ : KernelState τ κ) where
  linked hmem :=
    absurd hmem (TimerSystem.not_mem_stop h.nodup fun hi => ((h.timed t).linked hi).1)
  oneshot := (periodic_rtTimerStop k.timers _ _).trans (h.timed t).oneshot

/-- The timer of a thread is detached. -/
theorem Valid.timed_remove (h : k.Valid) (t : τ) (s : Scheduler τ) :
    Timed t (⟨k.timers.remove (.inl t), s⟩ : KernelState τ κ) where
  linked hmem := absurd hmem (TimerSystem.not_mem_remove h.nodup)
  oneshot := (h.timed t).oneshot

omit [DecidableEq κ] in
/-- The timer of a thread that has not been started is not linked. -/
theorem Valid.timed_startup (h : k.Valid) (t : τ) :
    Timed t { k with scheduler := k.scheduler.rtThreadStartup t } where
  linked hmem := by
    obtain ⟨hactivated, hsuspended⟩ := (h.timed t).linked hmem
    refine ⟨hactivated, ?_⟩
    -- a suspended thread has been started before: nothing happens
    have hsame : k.scheduler.rtThreadStartup t = k.scheduler := by
      unfold Scheduler.rtThreadStartup
      rw [hsuspended]
    rw [hsame]
    exact hsuspended
  oneshot := (h.timed t).oneshot

/-- **Step lemma**: what an operation does to the scheduler. -/
theorem scheduler_op (k : KernelState τ κ) (o : KernelOp τ κ) :
    (k.op o).scheduler = k.scheduler ∨
      ∃ e, (k.op o).scheduler = (schedulerMachine τ).next k.scheduler e ∧
        ∀ t, o.LeavesAlone t → k.scheduler.LeavesAlone t e := by
  cases hphase : k.timers.phase with
  | stuck => exact .inl (by simp [op, hphase])
  | idle | checking =>
    -- each operation is an event of the scheduler, or does nothing to it
    cases o with
    | startup u => exact .inr ⟨.startup u, by simp only [op, hphase]; rfl, fun _ => id⟩
    | suspend u =>
      simp only [op, hphase, rtThreadSuspend]
      split
      · exact .inr ⟨.suspend u, rfl, fun _ => id⟩
      · exact .inr ⟨.suspend u, rfl, fun _ => id⟩
      · exact .inl rfl
    | resume u =>
      simp only [op, hphase, rtThreadResume]
      split
      · exact .inr ⟨.resume u, rfl, fun _ => id⟩
      · exact .inl rfl
    | changePriority u p =>
      exact .inr ⟨.changePriority u p, by simp only [op, hphase]; rfl, fun _ => id⟩
    | detach u =>
    exact .inr ⟨.detach u, by simp only [op, hphase, rtThreadDetach]; rfl, fun _ => id⟩
    | schedule => exact .inr ⟨.schedule, by simp only [op, hphase]; rfl, fun _ => id⟩
    | enterCritical => exact .inr ⟨.enterCritical, by simp only [op, hphase]; rfl, fun _ => id⟩
    | exitCritical => exact .inr ⟨.exitCritical, by simp only [op, hphase]; rfl, fun _ => id⟩
    | timer o => exact .inl (by simp only [op, hphase])

theorem Valid.suspended_op (h : k.Valid) {o : KernelOp τ κ} (ho : o.LeavesAlone t) :
    (k.op o).scheduler.Suspended t ↔ k.scheduler.Suspended t := by
  rcases scheduler_op k o with hsame | ⟨e, hnext, he⟩
  · rw [hsame]
  · rw [hnext]
    exact h.scheduler.suspended_next (he t ho)

/-- An operation on the thread itself stops its timer or takes it from the list, if it does anything
to a thread that has been started. -/
theorem Valid.timed_op_self (h : k.Valid) {o : KernelOp τ κ} (ho : ¬ o.LeavesAlone t) :
    Timed t (k.op o) := by
  cases hphase : k.timers.phase with
  | stuck => simpa [op, hphase] using h.timed t
  | idle | checking =>
    cases o with
    | startup u =>
      obtain rfl : u = t := not_not.mp ho
      simpa only [op, hphase] using h.timed_startup u
    | suspend u =>
      obtain rfl : u = t := not_not.mp ho
      simp only [op, hphase, rtThreadSuspend]
      split
      · exact h.timed_stop u _
      · exact h.timed_stop u _
      · exact h.timed u
    | resume u =>
      obtain rfl : u = t := not_not.mp ho
      simp only [op, hphase, rtThreadResume]
      split
      · exact h.timed_stop u _
      · exact h.timed u
    | detach u =>
      obtain rfl : u = t := not_not.mp ho
      simpa only [op, hphase, rtThreadDetach] using h.timed_remove u _
    | changePriority u p | schedule | enterCritical | exitCritical | timer o =>
      exact absurd trivial ho

/-- **Step lemma** for the operations. -/
theorem Valid.op (h : k.Valid) (o : KernelOp τ κ) : (k.op o).Valid := by
  obtain ⟨c, hc⟩ := h.timers
  have hrefines := hc.foldl_op (k.timerOps o)
  rw [← timers_op] at hrefines
  refine ⟨?_, ⟨_, hrefines⟩, fun t => ?_⟩
  · rcases scheduler_op k o with hsame | ⟨e, hnext, -⟩
    · rw [hsame]
      exact h.scheduler
    · rw [hnext]
      exact h.scheduler.next e
  -- the calendar keeps the timers of the other threads; the own one needs a look at the operation
  · by_cases ho : o.LeavesAlone t
    · have hkeeps := Calendar.keeps_foldl_op (i := .inl t) c
        fun o' => timer_of_mem_timerOps (k := k) ho
      exact (h.timed t).of_same (hc.same hrefines hkeeps) (h.suspended_op ho)
    · exact h.timed_op_self ho

/-- **Run lemma** for a timeout function. -/
theorem Valid.foldl_op (h : k.Valid) (os : List (KernelOp τ κ)) :
    (os.foldl KernelState.op k).Valid ∧
      ∀ t, (∀ o ∈ os, o.LeavesAlone t) →
        ((os.foldl KernelState.op k).scheduler.Suspended t ↔ k.scheduler.Suspended t) := by
  -- the operations come one by one, and none is about the threads in question
  induction os generalizing k with
  | nil => exact ⟨h, fun _ _ => Iff.rfl⟩
  | cons o os ih =>
    obtain ⟨hvalid, hrest⟩ := ih (h.op o)
    refine ⟨hvalid, fun t hos => ?_⟩
    obtain ⟨ho, hos⟩ := List.forall_mem_cons.mp hos
    exact (hrest t hos).trans (h.suspended_op ho)

/-! ## Timeouts -/

/-- The timer whose timeout it is leaves the list. -/
theorem Valid.remove (h : k.Valid) (i : τ ⊕ κ) :
    Valid { k with timers := k.timers.remove i } := by
  obtain ⟨c, hc⟩ := h.timers
  refine h.of_timers ⟨_, hc.remove i⟩ fun t => ?_
  -- unlinked itself, or kept by the calendar
  by_cases heq : .inl t = i
  · subst heq
    exact .inr ⟨TimerSystem.not_mem_remove h.nodup, (h.timed t).oneshot⟩
  · exact .inl (hc.same (hc.remove i) (Calendar.keeps_remove c heq))

/-- What `rt_timer_check` does after the call of the timeout function. -/
theorem Valid.finish (h : k.Valid) {i : τ ⊕ κ} (hi : ∀ t, i = .inl t → i ∉ k.timers.rtTimerList) :
    Valid { k with timers := k.timers.finish i } := by
  obtain ⟨c, hc⟩ := h.timers
  refine h.of_timers ⟨_, hc.finish i⟩ fun t => ?_
  -- the timer of a thread is oneshot and not linked again; the others are kept
  by_cases heq : .inl t = i
  · subst heq
    have honeshot := (h.timed t).oneshot
    refine .inr ?_
    unfold TimerSystem.finish
    split
    · exact ⟨hi t rfl, honeshot⟩
    · -- it is not periodic, so it is not started again
      rw [if_neg (by simp [honeshot])]
      refine ⟨hi t rfl, ?_⟩
      rw [TimerSystem.deactivate, TimerSystem.timer_modify_self]
      exact honeshot
  · exact .inl (hc.same (hc.finish i) (Calendar.keeps_finish c heq))

theorem stat_insertThread_self (s : Scheduler τ) (t : τ) :
    ¬ (s.insertThread t).Suspended t := by
  unfold Scheduler.Suspended Scheduler.insertThread
  split
  · rw [Scheduler.setStat, Scheduler.thread_modify, if_pos rfl]
    exact ThreadStat.noConfusion
  · rw [Scheduler.thread_enlist, if_pos rfl]
    exact ThreadStat.noConfusion

omit [DecidableEq κ] in
/-- **Step lemma** for `rt_thread_timeout`, called for a thread that is suspended. -/
theorem Valid.rtThreadTimeout (h : k.Valid) (hsuspended : k.scheduler.Suspended t)
    (hnot : .inl t ∉ k.timers.rtTimerList) :
    (k.rtThreadTimeout t).timers = k.timers ∧ (k.rtThreadTimeout t).Valid ∧
      ∀ u, (k.rtThreadTimeout t).scheduler.Suspended u ↔ k.scheduler.Suspended u ∧ u ≠ t := by
  have htimeout : k.rtThreadTimeout t =
      { k with scheduler := (k.scheduler.insertThread t).rtSchedule } := by
    unfold KernelState.rtThreadTimeout
    rw [hsuspended]
  have hinserted : (k.scheduler.insertThread t).Valid :=
    h.scheduler.insertThread (by rw [hsuspended]; exact ThreadStat.noConfusion)
  -- the thread is ready or running now, and `rt_schedule` suspends nobody
  have hall : ∀ u, (k.scheduler.insertThread t).rtSchedule.Suspended u ↔
      k.scheduler.Suspended u ∧ u ≠ t := by
    intro u
    rw [hinserted.suspended_rtSchedule]
    by_cases hut : u = t
    · subst hut
      exact iff_of_false (stat_insertThread_self _ u) fun hu => hu.2 rfl
    · rw [Scheduler.Suspended, Scheduler.stat_insertThread_of_ne hut]
      exact (and_iff_left hut).symm
  rw [htimeout]
  refine ⟨rfl, ⟨hinserted.rtSchedule, h.timers, fun u => ?_⟩, hall⟩
  by_cases hut : u = t
  · subst hut
    exact ⟨fun hmem => absurd hmem hnot, (h.timed u).oneshot⟩
  · exact (h.timed u).of_same ⟨Iff.rfl, rfl, rfl⟩ ((hall u).trans (and_iff_left hut))

/-- **Step lemma** for the call of a timeout function. -/
theorem Valid.timeout (h : k.Valid) {i : τ ⊕ κ} (hi : i ∈ k.timers.rtTimerList)
    (os : List (KernelOp τ κ)) :
    let k' := { k with timers := k.timers.remove i }.timeout i os
    k'.Valid ∧ (∀ t, i = .inl t → i ∉ k'.timers.rtTimerList) ∧
      (∃ timeoutFunc : List (TimerOp (τ ⊕ κ)),
        k'.timers = timeoutFunc.foldl TimerSystem.op (k.timers.remove i) ∧
          ∀ t, (∀ o ∈ os, o.LeavesAlone t) → ∀ o ∈ timeoutFunc, o.timer ≠ .inl t) ∧
      ∀ t, (∀ o ∈ os, o.LeavesAlone t) →
        (k'.scheduler.Suspended t ↔ k.scheduler.Suspended t ∧ i ≠ .inl t) := by
  have hremoved := h.remove i
  cases i with
  -- the timer of a thread is linked only while it is suspended, so the assertion holds
  | inl t =>
    have hsuspended := ((h.timed t).linked hi).2
    obtain ⟨htimers, hvalid, hall⟩ :=
      hremoved.rtThreadTimeout hsuspended (TimerSystem.not_mem_remove h.nodup)
    dsimp only [KernelState.timeout]
    refine ⟨hvalid, fun _ _ => ?_, ⟨[], htimers, fun _ _ => List.forall_mem_nil _⟩, fun u _ => ?_⟩
    · rw [htimers]
      exact TimerSystem.not_mem_remove h.nodup
    · rw [hall u]
      exact and_congr_right fun _ => not_congr (by rw [Sum.inl.injEq, eq_comm])
  -- any other function is a list of operations
  | inr j =>
    obtain ⟨hvalid, hsuspended⟩ := hremoved.foldl_op os
    refine ⟨hvalid, fun _ heq => absurd heq Sum.inr_ne_inl, timers_foldl_op _ os, fun t hos => ?_⟩
    exact (hsuspended t hos).trans (and_iff_left Sum.inr_ne_inl).symm

/-! ## Steps -/

/-- Nobody starts, suspends, resumes or detaches the thread, and it neither sleeps
nor ends itself. -/
def LeavesAlone (t : τ) (k : KernelState τ κ) : KernelEvent τ κ → Prop
  | .op o => o.LeavesAlone t
  | .sleep _ | .exit => k.scheduler.current ≠ t
  | .tick => True
  | .check os => ∀ o ∈ os, o.LeavesAlone t

/-- What a step is to the timers and to the threads it leaves alone: some events of the timers, and
a thread is suspended afterwards if it was and this was not its timeout. -/
structure Follows (k : KernelState τ κ) (e : KernelEvent τ κ) (k' : KernelState τ κ)
    (obs : List (TimerObs (τ ⊕ κ))) : Prop where
  valid : k'.Valid
  timers : ∃ es : List (TimerEvent (τ ⊕ κ)),
    k'.timers = (timerMachine (τ ⊕ κ)).run k.timers es ∧
      obs = (timerMachine (τ ⊕ κ)).trace k.timers es ∧
      ∀ t, LeavesAlone t k e → ∀ e' ∈ es, e'.Spares (.inl t)
  suspended : ∀ t, LeavesAlone t k e →
    (k'.scheduler.Suspended t ↔ k.scheduler.Suspended t ∧ .timeout (.inl t) ∉ obs)

theorem Valid.follows_refl (h : k.Valid) (e : KernelEvent τ κ) : Follows k e k [] where
  valid := h
  timers := ⟨[], rfl, rfl, fun _ _ => List.forall_mem_nil _⟩
  suspended _ _ := (and_iff_left List.not_mem_nil).symm

/-- A step that uses some timers. -/
theorem follows_of_ops {k' : KernelState τ κ} {e : KernelEvent τ κ} (hvalid : k'.Valid)
    (os : List (TimerOp (τ ⊕ κ))) (htimers : k'.timers = os.foldl TimerSystem.op k.timers)
    (hother : ∀ t, LeavesAlone t k e → ∀ o ∈ os, o.timer ≠ .inl t)
    (hsuspended : ∀ t, LeavesAlone t k e →
      (k'.scheduler.Suspended t ↔ k.scheduler.Suspended t)) : Follows k e k' [] := by
  obtain ⟨hrun, htrace⟩ := TimerSystem.run_map_op k.timers os
  refine ⟨hvalid, ⟨os.map .op, htimers.trans hrun.symm, htrace.symm, fun t ht e' he' => ?_⟩,
    fun t ht => (hsuspended t ht).trans (and_iff_left List.not_mem_nil).symm⟩
  obtain ⟨o, ho, rfl⟩ := List.mem_map.mp he'
  exact hother t ht o ho

theorem periodic_rtTimerStart (s : TimerSystem (τ ⊕ κ)) (i : τ ⊕ κ) :
    ((s.rtTimerStart i).timer i).periodic = (s.timer i).periodic := by
  -- a failed assertion changes no timer
  have hassert : ∀ s : TimerSystem (τ ⊕ κ), s.assertFailed.timer = s.timer := by
    intro s
    unfold TimerSystem.assertFailed
    split <;> rfl
  unfold TimerSystem.rtTimerStart
  dsimp only
  split
  · simp [TimerSystem.startInsert, TimerSystem.startTimeout, TimerSystem.startRemove,
      TimerSystem.deactivate, TimerSystem.remove]
  · rw [hassert, TimerSystem.startRemove, TimerSystem.deactivate, TimerSystem.timer_modify_self]
    rfl

theorem suspended_rtThreadSuspend
    (halive : (k.scheduler.thread t).stat = .running ∨ (k.scheduler.thread t).stat = .suspend) :
    (k.rtThreadSuspend t).scheduler.Suspended t := by
  rcases halive with hstat | hstat
  · simp [rtThreadSuspend, Scheduler.rtThreadSuspend, hstat, Scheduler.Suspended, Scheduler.setStat]
  · simp [rtThreadSuspend, hstat, Scheduler.Suspended]

/-- What a thread does with its own timer when it sleeps. -/
def sleepOps (t : τ) (tick : UInt32) : List (TimerOp (τ ⊕ κ)) :=
  [.setTime (.inl t) tick, .start (.inl t)]

theorem foldl_sleepOps {s : TimerSystem (τ ⊕ κ)} (hidle : s.phase = .idle) (t : τ) (tick : UInt32) :
    (sleepOps t tick).foldl TimerSystem.op s =
      (s.modify (.inl t) fun timer => { timer with initTick := tick }).rtTimerStart (.inl t) := by
  simp [sleepOps, TimerSystem.op, hidle, TimerSystem.modify]

omit [DecidableEq τ] [DecidableEq κ] in
theorem timer_of_mem_sleepOps {u : τ} (hne : u ≠ t) {tick : UInt32} {o : TimerOp (τ ⊕ κ)}
    (ho : o ∈ sleepOps u tick) : o.timer ≠ .inl t := by
  simp only [sleepOps, List.mem_cons, List.not_mem_nil, or_false] at ho
  rcases ho with rfl | rfl <;> exact fun heq => hne (Sum.inl_injective heq)

/-- A thread that is suspended starts its timer. -/
theorem Valid.start_timer (h : k.Valid) (hidle : k.timers.phase = .idle)
    (hsuspended : k.scheduler.Suspended t) (tick : UInt32) :
    Valid ⟨(sleepOps t tick).foldl TimerSystem.op k.timers, k.scheduler⟩ := by
  obtain ⟨c, hc⟩ := h.timers
  have hrefines := hc.foldl_op (sleepOps t tick)
  refine ⟨h.scheduler, ⟨_, hrefines⟩, fun u => ?_⟩
  by_cases hut : t = u
  · subst hut
    -- the timer is linked if its flag is set, and the thread is suspended anyway
    have hagrees := TimerSystem.agrees_start
      (s := k.timers.modify (.inl t) fun timer => { timer with initTick := tick }) h.nodup (.inl t)
    rw [foldl_sleepOps hidle]
    refine ⟨fun hmem => ⟨hagrees.mp hmem, hsuspended⟩, ?_⟩
    rw [periodic_rtTimerStart, TimerSystem.timer_modify_self]
    exact (h.timed t).oneshot
  -- the two uses are of one timer
  · have hother : ∀ o ∈ sleepOps t tick, o.timer ≠ (.inl u : τ ⊕ κ) :=
      fun o ho => timer_of_mem_sleepOps hut ho
    exact (h.timed u).of_same (hc.same hrefines (Calendar.keeps_foldl_op c hother)) Iff.rfl

theorem op_suspend (hidle : k.timers.phase = .idle) (t : τ) :
    k.op (.suspend t) = k.rtThreadSuspend t := by simp [op, hidle]

theorem phase_rtThreadSuspend (hidle : k.timers.phase = .idle) (t : τ) :
    (k.rtThreadSuspend t).timers.phase = .idle := by
  rw [← op_suspend hidle, timers_op]
  exact TimerSystem.phase_foldl_op hidle _

theorem rtThreadSleep_eq (hidle : k.timers.phase = .idle) (tick : UInt32) :
    k.rtThreadSleep tick =
      ⟨(sleepOps k.scheduler.current tick).foldl TimerSystem.op
          (k.rtThreadSuspend k.scheduler.current).timers,
        (k.rtThreadSuspend k.scheduler.current).scheduler⟩ := by
  rw [foldl_sleepOps (phase_rtThreadSuspend hidle _)]
  rfl

/-- **Step lemma** for `rt_thread_sleep` by a thread that has not ended. -/
theorem Valid.follows_sleep (h : k.Valid) (hidle : k.timers.phase = .idle)
    (halive : (k.scheduler.thread k.scheduler.current).stat ≠ .close) (tick : UInt32) :
    Follows k (.sleep tick) (k.rtThreadSleep tick) [] := by
  -- the suspension is the one that any thread may do
  have hop := op_suspend hidle k.scheduler.current
  have hvalid : (k.rtThreadSuspend k.scheduler.current).Valid := hop ▸ h.op _
  -- it runs, or has been suspended and not yet been left
  have hstat : (k.scheduler.thread k.scheduler.current).stat = .running ∨
      (k.scheduler.thread k.scheduler.current).stat = .suspend := by
    have hready := h.scheduler.current
    have hstarted := h.scheduler.started
    cases hstat : (k.scheduler.thread k.scheduler.current).stat <;> simp_all
  rw [rtThreadSleep_eq hidle]
  -- the suspension, as of any thread, then the two uses of its timer
  refine follows_of_ops
    (hvalid.start_timer (phase_rtThreadSuspend hidle _) (suspended_rtThreadSuspend hstat) tick)
    (k.timerOps (.suspend k.scheduler.current) ++ sleepOps k.scheduler.current tick) ?_
    (fun t ht o ho => ?_) fun t ht => ?_
  · rw [List.foldl_append, ← timers_op, hop]
  · rcases List.mem_append.mp ho with ho | ho
    · exact timer_of_mem_timerOps (k := k) (o := .suspend k.scheduler.current) ht ho
    · exact timer_of_mem_sleepOps ht ho
  · rw [← hop]
    exact h.suspended_op (o := .suspend k.scheduler.current) ht

/-- **Step lemma** for `rt_thread_exit`. -/
theorem Valid.follows_exit (h : k.Valid) (hidle : k.timers.phase = .idle) :
    Follows k .exit k.rtThreadExit [] := by
  obtain ⟨c, hc⟩ := h.timers
  set u := k.scheduler.current
  -- to the timers the end of a thread is a detachment
  have hdetach : k.rtThreadExit.timers = [.detach (.inl u)].foldl TimerSystem.op k.timers := by
    simp [rtThreadExit, TimerSystem.op, hidle, u]
  have hother : ∀ t, u ≠ t → ∀ o ∈ [TimerOp.detach (.inl u)], o.timer ≠ (.inl t : τ ⊕ κ) := by
    intro t hut o ho
    rw [List.mem_singleton.mp ho]
    exact fun heq => hut (Sum.inl_injective heq)
  have hrefines : Refines k.rtThreadExit.timers _ := hdetach ▸ hc.foldl_op [.detach (.inl u)]
  have hsuspended : ∀ t, u ≠ t → (k.scheduler.rtThreadExit.Suspended t ↔ k.scheduler.Suspended t) :=
    fun t hut => h.scheduler.suspended_next (e := .exit) hut
  refine follows_of_ops ⟨h.scheduler.next .exit, ⟨_, hrefines⟩, fun t => ?_⟩ [.detach (.inl u)]
    hdetach hother hsuspended
  -- the timer of the current thread is unlinked, the others are kept
  by_cases hut : u = t
  · subst hut
    exact h.timed_remove u _
  · have hkeeps := Calendar.keeps_foldl_op (i := .inl t) c (hother t hut)
    exact (h.timed t).of_same (hc.same hrefines hkeeps) (hsuspended t hut)

/-- **Step lemma** for the tick. -/
theorem Valid.follows_tick (h : k.Valid) (hidle : k.timers.phase = .idle) :
    Follows k .tick k.rtTickIncrease [.tick] := by
  obtain ⟨c, hc⟩ := h.timers
  have hstep : (timerMachine (τ ⊕ κ)).step k.timers .tick =
      ({ k.timers with rtTick := k.timers.rtTick + 1, phase := .checking }, [.tick]) := by
    simp [timerMachine, hidle]
  -- a tick suspends nobody and wakes nobody before its check
  have hsuspended : ∀ t, k.scheduler.rtTickIncrease.Suspended t ↔ k.scheduler.Suspended t :=
    fun t => h.scheduler.suspended_next (e := .tick) trivial
  have hnext := (hc.next .tick).1
  rw [Machine.next, hstep] at hnext
  refine ⟨⟨h.scheduler.next .tick, ⟨_, hnext⟩, fun t => ?_⟩, ⟨[.tick], ?_, ?_, fun t _ => ?_⟩,
    fun t _ => ?_⟩
  · exact (h.timed t).of_same ⟨Iff.rfl, rfl, rfl⟩ (hsuspended t)
  · simp [Machine.next, hstep, rtTickIncrease]
  · simp [Machine.emit, hstep]
  · simp [TimerEvent.Spares]
  · exact (hsuspended t).trans (and_iff_left (by simp)).symm

/-- **Step lemma** for `rt_timer_check`. -/
theorem Valid.follows_check (h : k.Valid) (hchecking : k.timers.phase = .checking)
    (os : List (KernelOp τ κ)) :
    Follows k (.check os) (k.rtTimerCheck os).1 (k.rtTimerCheck os).2 := by
  obtain ⟨c, hc⟩ := h.timers
  have hstep : ∀ timeoutFunc, (timerMachine (τ ⊕ κ)).step k.timers (.check timeoutFunc) =
      k.timers.rtTimerCheck timeoutFunc := by
    simp [timerMachine, hchecking]
  -- nothing is due
  have hends : k.timers.rtTimerCheck [] = ({ k.timers with phase := .idle }, []) →
      Follows k (.check os) { k with timers := { k.timers with phase := .idle } } [] := by
    intro hcheck
    have hnext := (hc.next (.check [])).1
    rw [Machine.next, hstep, hcheck] at hnext
    refine ⟨h.of_timers ⟨_, hnext⟩ fun t => .inl ⟨Iff.rfl, rfl, rfl⟩, ⟨[.check []], ?_, ?_, ?_⟩,
      fun t _ => (and_iff_left List.not_mem_nil).symm⟩
    · simp [Machine.next, hstep, hcheck]
    · simp [Machine.emit, hstep, hcheck]
    · simp [TimerEvent.Spares]
  unfold KernelState.rtTimerCheck
  cases hlist : k.timers.rtTimerList with
  | nil => exact hends (TimerSystem.rtTimerCheck_of_nil hlist [])
  | cons i rest =>
    dsimp only
    have hcheck := TimerSystem.rtTimerCheck_of_cons hlist
    -- the first timer has its timeout, or nothing more is due
    by_cases hdue : k.timers.rtTick - (k.timers.timer i).timeoutTick < tickHalf
    · have hi : i ∈ k.timers.rtTimerList := hlist ▸ List.mem_cons_self
      obtain ⟨hvalid, hnot, ⟨timeoutFunc, htimers, hother⟩, hsuspended⟩ := h.timeout hi os
      rw [if_pos hdue]
      refine ⟨hvalid.finish hnot, ⟨[.check timeoutFunc], ?_, ?_, fun t hos => ?_⟩, fun t hos => ?_⟩
      · simp [Machine.next, hstep, hcheck, hdue, htimers]
      · simp [Machine.emit, hstep, hcheck, hdue]
      · simpa [TimerEvent.Spares] using hother t hos
      · refine (hsuspended t hos).trans (and_congr_right fun _ => ?_)
        simp [eq_comm]
    · rw [if_neg hdue]
      refine hends ((hcheck []).trans (if_neg hdue))

/-- **Step lemma.** -/
theorem Valid.follows (h : k.Valid) (e : KernelEvent τ κ) :
    Follows k e ((kernelMachine τ κ).next k e) ((kernelMachine τ κ).emit k e) := by
  unfold Machine.next Machine.emit kernelMachine
  dsimp only
  have hop (o : KernelOp τ κ) : Follows k (.op o) (k.op o) [] :=
    follows_of_ops (h.op o) (k.timerOps o) (timers_op k o)
      (fun t ht o' => timer_of_mem_timerOps (k := k) ht) fun t ht => h.suspended_op ht
  -- the events that the phase allows; the others change nothing
  cases hphase : k.timers.phase with
  | idle =>
    cases e with
    | op o => exact hop o
    | sleep tick =>
      dsimp only
      split
      · exact h.follows_sleep hphase (by assumption) tick
      · exact h.follows_refl _
    | exit => exact h.follows_exit hphase
    | tick => exact h.follows_tick hphase
    | check os => exact h.follows_refl _
  | checking =>
    cases e with
    | check os => exact h.follows_check hphase os
    | op o => exact hop o
    | sleep tick | exit | tick => exact h.follows_refl _
  | stuck => exact h.follows_refl e

/-- Only a timer that is linked has its timeout. -/
theorem mem_of_mem_emit {e : KernelEvent τ κ} {i : τ ⊕ κ}
    (hi : .timeout i ∈ (kernelMachine τ κ).emit k e) : i ∈ k.timers.rtTimerList := by
  unfold Machine.emit kernelMachine at hi
  dsimp only at hi
  -- timeouts are shown in checks only
  cases hphase : k.timers.phase with
  | idle =>
    rw [hphase] at hi
    cases e with
    | sleep tick =>
      dsimp only at hi
      split at hi <;> simp at hi
    | op o | exit | tick | check os => simp at hi
  | checking =>
    rw [hphase] at hi
    cases e with
    | check os =>
      dsimp only at hi
      unfold rtTimerCheck at hi
      split at hi
      · simp at hi
      · rename_i hlist
        split at hi
        · -- the timeout of the first timer in the list
          simp only [List.mem_singleton, TimerObs.timeout.injEq] at hi
          rw [hlist, hi]
          exact List.mem_cons_self
        · simp at hi
    | op o | sleep tick | exit | tick => simp at hi
  | stuck =>
    rw [hphase] at hi
    simp at hi

/-! ## Runs -/

omit [DecidableEq κ] in
theorem valid_init (idle : τ) (priority : τ → Fin 32) (tick : τ → UInt32) (time : κ → UInt32)
    (periodic : κ → Bool) : (init idle priority tick time periodic).Valid where
  scheduler := Scheduler.valid_init idle priority tick
  timers := ⟨_, refines_init _ _⟩
  timed _ := ⟨fun hmem => absurd hmem List.not_mem_nil, rfl⟩

/-- **Run lemma.** -/
theorem valid_run (idle : τ) (priority : τ → Fin 32) (tick : τ → UInt32) (time : κ → UInt32)
    (periodic : κ → Bool) (es : List (KernelEvent τ κ)) :
    ((kernelMachine τ κ).run (init idle priority tick time periodic) es).Valid :=
  Machine.run_invariant (I := Valid) (fun _ e h => (h.follows e).valid)
    (valid_init idle priority tick time periodic) es

/-- **Run lemma.** What a run does to the timers, timers can do; and who is left alone has its own
left alone. -/
theorem Valid.exists_timers (h : k.Valid) {es : List (KernelEvent τ κ)}
    (hes : (kernelMachine τ κ).Along (LeavesAlone t) k es) :
    ∃ fs : List (TimerEvent (τ ⊕ κ)),
      ((kernelMachine τ κ).run k es).timers = (timerMachine (τ ⊕ κ)).run k.timers fs ∧
        (kernelMachine τ κ).trace k es = (timerMachine (τ ⊕ κ)).trace k.timers fs ∧
        ∀ f ∈ fs, f.Spares (.inl t) :=
  -- each step of the kernel is some steps of the timers
  Machine.exists_run_of_step (n := timerMachine (τ ⊕ κ)) (v := KernelState.timers) (I := Valid)
    (fun _ e h => (h.follows e).valid)
    (fun _ e h he => by
      obtain ⟨fs, hrun, htrace, hother⟩ := (h.follows e).timers
      exact ⟨fs, hrun, htrace, hother t he⟩) h hes

/-- **Run lemma.** Timers alone reach what they reach in the kernel. -/
theorem exists_timers_init (idle : τ) (priority : τ → Fin 32) (tick : τ → UInt32)
    (time : κ → UInt32) (periodic : κ → Bool) (es : List (KernelEvent τ κ)) :
    ∃ fs, (timerMachine (τ ⊕ κ)).run
        (.init (Sum.elim (fun _ => 0) time) (Sum.elim (fun _ => false) periodic)) fs =
      ((kernelMachine τ κ).run (init idle priority tick time periodic) es).timers := by
  obtain ⟨fs, hrun, -, -⟩ := Machine.exists_run_of_step (n := timerMachine (τ ⊕ κ))
    (v := KernelState.timers) (I := Valid) (P := fun _ _ => True) (Q := fun _ => True)
    (fun _ e h => (h.follows e).valid)
    (fun _ e h _ => by
      obtain ⟨fs, hrun, htrace, -⟩ := (h.follows e).timers
      exact ⟨fs, hrun, htrace, fun _ _ => trivial⟩)
    (valid_init idle priority tick time periodic)
    ((Machine.along_of_forall fun _ _ => trivial) _ : (kernelMachine τ κ).Along _ _ es)
  exact ⟨fs, hrun.symm⟩

/-- **Run lemma.** A thread that is left alone is suspended until its timeout. -/
theorem Valid.suspended_run (h : k.Valid) {es : List (KernelEvent τ κ)}
    (hes : (kernelMachine τ κ).Along (LeavesAlone t) k es) :
    ((kernelMachine τ κ).run k es).scheduler.Suspended t ↔
      k.scheduler.Suspended t ∧ .timeout (.inl t) ∉ (kernelMachine τ κ).trace k es := by
  -- induction on the run: what a step does to the thread is known
  induction es generalizing k with
  | nil => exact (and_iff_left List.not_mem_nil).symm
  | cons e es ih =>
    obtain ⟨he, hes⟩ := hes
    have hfollows := h.follows e
    rw [Machine.run_cons, ih hfollows.valid hes, hfollows.suspended t he, Machine.trace_cons,
      List.mem_append, not_or, and_assoc]

/-- **Step lemma** for `rt_thread_sleep` by a thread that runs: it is suspended, and timers alone
can come to where it starts its own. -/
theorem Valid.sleep_start (h : k.Valid) (hidle : k.timers.phase = .idle)
    (ht : k.scheduler.current = t) (hrunning : (k.scheduler.thread t).stat = .running)
    (n : UInt32) : (k.rtThreadSleep n).scheduler.Suspended t ∧ ∃ (fs : List (TimerEvent (τ ⊕ κ)))
      (s : TimerSystem (τ ⊕ κ)), (timerMachine (τ ⊕ κ)).run k.timers fs = s ∧ s.phase = .idle ∧
        (s.timer (.inl t)).initTick = n ∧ (s.timer (.inl t)).periodic = false ∧
        (k.rtThreadSleep n).timers = s.rtTimerStart (.inl t) := by
  subst ht
  have hop := op_suspend hidle k.scheduler.current
  have hphase := phase_rtThreadSuspend hidle k.scheduler.current
  have hvalid : (k.rtThreadSuspend k.scheduler.current).Valid := hop ▸ h.op _
  -- the thread sets its delay
  have hset : (k.rtThreadSuspend k.scheduler.current).timers.op
      (.setTime (.inl k.scheduler.current) n) =
        (k.rtThreadSuspend k.scheduler.current).timers.modify (.inl k.scheduler.current)
          fun timer => { timer with initTick := n } := by
    simp [TimerSystem.op, hphase]
  rw [rtThreadSleep_eq hidle n, foldl_sleepOps hphase]
  refine ⟨suspended_rtThreadSuspend (.inl hrunning),
    (k.timerOps (.suspend k.scheduler.current) ++
      [TimerOp.setTime (Sum.inl k.scheduler.current) n]).map .op, _, ?_, ?_, ?_, ?_, rfl⟩
  · rw [(TimerSystem.run_map_op _ _).1, List.foldl_append, ← timers_op, hop]
    exact hset
  · exact hphase
  · rw [TimerSystem.timer_modify_self]
  · rw [TimerSystem.timer_modify_self]
    exact (hvalid.timed _).oneshot

end KernelState

variable {τ κ : Type*} [DecidableEq τ] [DecidableEq κ]

open KernelState in
/-- **Run lemma.** In every run the timer of a thread is linked only while the thread is suspended;
so it is when `rt_thread_timeout` is called for it. -/
theorem rtThreadTimeout_suspended (idle : τ) (priority : τ → Fin 32) (tick : τ → UInt32)
    (time : κ → UInt32) (periodic : κ → Bool) (es : List (KernelEvent τ κ)) {k : KernelState τ κ}
    (hk : (kernelMachine τ κ).run (init idle priority tick time periodic) es = k) (t : τ) :
    (.inl t ∈ k.timers.rtTimerList → (k.scheduler.thread t).stat = .suspend) ∧
      ∀ e, .timeout (.inl t) ∈ (kernelMachine τ κ).emit k e →
        (k.scheduler.thread t).stat = .suspend := by
  have hvalid : k.Valid := hk ▸ valid_run idle priority tick time periodic es
  have hlinked := fun hmem => ((hvalid.timed t).linked hmem).2
  exact ⟨hlinked, fun e he => hlinked (mem_of_mem_emit he)⟩

/-- A thread has gone to sleep. -/
theorem rtThreadTimeout_suspended_sleep :
    (((kernelMachine Bool Unit).run
      (.init false (fun t => if t then 10 else 31) (fun _ => 20) (fun _ => 1) fun _ => true)
      [.op (.startup true), .op (.resume true), .op .schedule, .sleep 2]).scheduler.thread
        true).stat = .suspend :=
  (rtThreadTimeout_suspended _ _ _ _ _ _ rfl true).1
    (show (.inl true : Bool ⊕ Unit) ∈ [.inl true] from List.mem_singleton.mpr rfl)

open KernelState in
/-- **Run lemma.** A thread that runs sleeps for some ticks, and then nobody starts, suspends,
resumes or detaches it, and it neither sleeps again nor ends. Between two checks, and whatever else
happens, it is suspended exactly as long as fewer ticks have passed. -/
theorem rtThreadSleep_wakes {idle : τ} {priority : τ → Fin 32} {tick : τ → UInt32}
    {time : κ → UInt32} {periodic : κ → Bool} {before after : List (KernelEvent τ κ)}
    {k : KernelState τ κ}
    (hk : (kernelMachine τ κ).run (init idle priority tick time periodic) before = k)
    (hidle : k.timers.phase = .idle) {t : τ} (ht : k.scheduler.current = t)
    (hrunning : (k.scheduler.thread t).stat = .running) {n : UInt32} (hpos : 0 < n)
    (hlimit : n < tickHalf)
    (hafter : (kernelMachine τ κ).Along (LeavesAlone t) (k.rtThreadSleep n) after)
    (hend : ((kernelMachine τ κ).run k (.sleep n :: after)).timers.phase = .idle) :
    (((kernelMachine τ κ).run k (.sleep n :: after)).scheduler.thread t).stat = .suspend ↔
      ((kernelMachine τ κ).trace k (.sleep n :: after)).count .tick < n.toNat := by
  have hvalid : k.Valid := hk ▸ valid_run idle priority tick time periodic before
  obtain ⟨fs, hfs⟩ := exists_timers_init idle priority tick time periodic before
  obtain ⟨hsuspended, fs', s, hs, hsidle, htime, honeshot, hsleep⟩ :=
    hvalid.sleep_start hidle ht hrunning n
  rw [← hk, ← hfs, ← Machine.run_append] at hs
  have halive : (k.scheduler.thread k.scheduler.current).stat ≠ .close := by
    rw [ht, hrunning]
    exact ThreadStat.noConfusion
  have hslept : (k.rtThreadSleep n).Valid := (hvalid.follows_sleep hidle halive n).valid
  -- seen from the timers, the rest of the run spares the timer of the thread
  obtain ⟨gs, hrun, htrace, hspares⟩ := hslept.exists_timers hafter
  have hnext : (kernelMachine τ κ).step k (.sleep n) = (k.rtThreadSleep n, []) := by
    simp [kernelMachine, hidle, halive]
  have hstart : (timerMachine (τ ⊕ κ)).step s (.op (.start (.inl t))) =
      ((k.rtThreadSleep n).timers, []) := by
    simp [timerMachine, hsidle, TimerSystem.op, hsleep]
  rw [Machine.run_cons, Machine.next, hnext] at hend ⊢
  rw [Machine.trace_cons, Machine.emit, Machine.next, hnext, List.nil_append]
  -- the thread's own timer is on time
  have hcount := rtTimer_onTime hs hsidle (i := .inl t) (by rwa [htime]) (by rwa [htime]) hspares
    rfl (by rwa [Machine.run_cons, Machine.next, hstart, ← hrun])
  rw [Machine.trace_cons, Machine.emit, Machine.next, hstart, List.nil_append, ← htrace, htime,
    honeshot, if_neg Bool.false_ne_true] at hcount
  refine (hslept.suspended_run hafter).trans ?_
  rw [and_iff_right hsuspended, ← List.count_eq_zero, hcount]
  -- no timeout in `x` ticks means that the delay has not passed
  have hmin (x : ℕ) : min 1 (x / n.toNat) = 0 ↔ x < n.toNat := by
    have hdiv : x / n.toNat = 0 ↔ x < n.toNat := Nat.div_eq_zero_iff_lt hpos
    omega
  exact hmin _

/-- A thread sleeps for two ticks beside the idle thread; the second one is over. -/
theorem rtThreadSleep_wakes_two :
    ¬ (((kernelMachine Bool Unit).run
      ((kernelMachine Bool Unit).run
        (.init false (fun t => if t then 10 else 31) (fun _ => 20) (fun _ => 1) fun _ => true)
        [.op (.startup true), .op (.resume true), .op .schedule])
      (.sleep 2 :: [.op .schedule, .op (.timer (.start ())), .tick, .check [.resume false],
        .check [], .tick, .check [], .check [.suspend false],
        .check []])).scheduler.thread true).stat = .suspend := by
  refine (not_congr (rtThreadSleep_wakes rfl rfl (t := true) (by decide) (by decide) (by decide)
    (by decide) ?_ rfl)).mpr (by decide)
  have hresume : ∀ o ∈ [KernelOp.resume false], (o : KernelOp Bool Unit).LeavesAlone true :=
    List.forall_mem_singleton.mpr Bool.false_ne_true
  have hsuspend : ∀ o ∈ [KernelOp.suspend false], (o : KernelOp Bool Unit).LeavesAlone true :=
    List.forall_mem_singleton.mpr Bool.false_ne_true
  have hnil := List.forall_mem_nil fun o : KernelOp Bool Unit => o.LeavesAlone true
  exact ⟨trivial, trivial, trivial, hresume, hnil, trivial, hnil, hsuspend, hnil, trivial⟩

end RobomasterFirmware.Kernel
