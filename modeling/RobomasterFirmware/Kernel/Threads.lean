import RobomasterFirmware.Kernel.Fairness
import RobomasterFirmware.Kernel.TimerFlag
import RobomasterFirmware.Kernel.Timeouts

/-!
# Threads and Timers

The scheduler and the timers together. Each thread has its own timer (`thread_timer`):
`rt_thread_sleep`, and the waits with a timeout of `ipc.c`, suspend the current thread and start it,
and its timeout function `rt_thread_timeout` makes the thread ready again. `rt_thread_suspend` and
`rt_thread_resume` stop it, `rt_thread_exit` and `rt_thread_detach` take it from the list. There are
other timers too, whose timeout functions may do anything to threads and to these timers.

As for the scheduler and the timers alone, each event is one call that nothing interrupts half way.
A thread sleeps with the interrupts off, up to the call of `rt_schedule`, before which interrupts
may come.

Not modelled: the sleep of a thread that has ended or been detached and goes on until `rt_schedule`,
and the error number a thread is woken with.

## Main Results
- `Scheduler.Valid.suspended_next`: only the events of a thread suspend it or make it ready again
- `KernelState.timers_op`: what an operation on threads is to the timers
-/

namespace RobomasterFirmware.Kernel

open RobomasterFirmware.Lib

/-! ## State -/

/-- The timers, those of the threads before the others, and the scheduler. -/
structure KernelState (τ κ : Type*) where
  timers : TimerSystem (τ ⊕ κ)
  scheduler : Scheduler τ

/-- What threads, interrupts and the timeout functions of the other timers do. -/
inductive KernelOp (τ κ : Type*) where
  | startup (t : τ)
  | suspend (t : τ)
  | resume (t : τ)
  | changePriority (t : τ) (priority : Fin 32)
  | detach (t : τ)
  | schedule
  | enterCritical
  | exitCritical
  | timer (o : TimerOp κ)

/-- What happens in the kernel; the current thread sleeps or ends. -/
inductive KernelEvent (τ κ : Type*) where
  | op (o : KernelOp τ κ)
  /-- `rt_thread_sleep` up to its `rt_schedule`, or a wait with a timeout -/
  | sleep (tick : UInt32)
  | exit
  /-- `rt_tick_increase` up to its `rt_timer_check` -/
  | tick
  /-- once through the loop of `rt_timer_check` -/
  | check (timeoutFunc : List (KernelOp τ κ))

/-- The use of a timer that is not a thread's. -/
def TimerOp.other {τ κ : Type*} : TimerOp κ → TimerOp (τ ⊕ κ)
  | start i => .start (.inr i)
  | stop i => .stop (.inr i)
  | detach i => .detach (.inr i)
  | setTime i tick => .setTime (.inr i) tick
  | setOneshot i => .setOneshot (.inr i)
  | setPeriodic i => .setPeriodic (.inr i)

namespace KernelState

variable {τ κ : Type*} [DecidableEq τ] [DecidableEq κ]

/-- The idle thread runs; the timers of threads are not periodic. -/
def init (idle : τ) (priority : τ → Fin 32) (tick : τ → UInt32) (time : κ → UInt32)
    (periodic : κ → Bool) : KernelState τ κ where
  timers := .init (Sum.elim (fun _ => 0) time) (Sum.elim (fun _ => false) periodic)
  scheduler := .init idle priority tick

/-- `rt_thread_suspend` -/
def rtThreadSuspend (k : KernelState τ κ) (t : τ) : KernelState τ κ :=
  match (k.scheduler.thread t).stat with
  -- `rt_schedule_remove_thread`, the new state, and `rt_timer_stop(&(thread->thread_timer))`
  | .ready | .running => ⟨k.timers.rtTimerStop (.inl t), k.scheduler.rtThreadSuspend t⟩
  | _ => k

/-- `rt_thread_resume` -/
def rtThreadResume (k : KernelState τ κ) (t : τ) : KernelState τ κ :=
  match (k.scheduler.thread t).stat with
  | .suspend => ⟨k.timers.rtTimerStop (.inl t), k.scheduler.rtThreadResume t⟩
  | _ => k

/-- `rt_thread_detach` -/
def rtThreadDetach (k : KernelState τ κ) (t : τ) : KernelState τ κ :=
  -- `rt_timer_detach` unlinks the timer and leaves its flag
  ⟨k.timers.remove (.inl t), k.scheduler.rtThreadDetach t⟩

/-- `rt_thread_sleep` up to its `rt_schedule` -/
def rtThreadSleep (k : KernelState τ κ) (tick : UInt32) : KernelState τ κ :=
  let thread := k.scheduler.current
  -- the result of `rt_thread_suspend` is not looked at
  let k := k.rtThreadSuspend thread
  let timers := k.timers.modify (.inl thread) fun timer => { timer with initTick := tick }
  { k with timers := timers.rtTimerStart (.inl thread) }

/-- `rt_thread_exit` -/
def rtThreadExit (k : KernelState τ κ) : KernelState τ κ :=
  ⟨k.timers.remove (.inl k.scheduler.current), k.scheduler.rtThreadExit⟩

/-- `rt_thread_timeout` -/
def rtThreadTimeout (k : KernelState τ κ) (t : τ) : KernelState τ κ :=
  match (k.scheduler.thread t).stat with
  | .suspend => { k with scheduler := (k.scheduler.insertThread t).rtSchedule }
  -- `RT_ASSERT((thread->stat & RT_THREAD_STAT_MASK) == RT_THREAD_SUSPEND)`
  | _ => { k with timers := k.timers.assertFailed }

/-- Nothing more happens where an assertion has failed in the check. -/
def op (k : KernelState τ κ) (o : KernelOp τ κ) : KernelState τ κ :=
  match k.timers.phase, o with
  | .stuck, _ => k
  | _, .startup t => { k with scheduler := k.scheduler.rtThreadStartup t }
  | _, .suspend t => k.rtThreadSuspend t
  | _, .resume t => k.rtThreadResume t
  | _, .changePriority t priority => { k with scheduler := k.scheduler.changePriority t priority }
  | _, .detach t => k.rtThreadDetach t
  | _, .schedule => { k with scheduler := k.scheduler.rtSchedule }
  | _, .enterCritical => { k with scheduler := k.scheduler.rtEnterCritical }
  | _, .exitCritical => { k with scheduler := k.scheduler.rtExitCritical }
  | _, .timer o => { k with timers := k.timers.op o.other }

/-- The call of the timeout function of a timer. -/
def timeout (k : KernelState τ κ) (i : τ ⊕ κ) (timeoutFunc : List (KernelOp τ κ)) :
    KernelState τ κ :=
  match i with
  | .inl t => k.rtThreadTimeout t
  | .inr _ => timeoutFunc.foldl op k

/-- Once through the loop of `rt_timer_check`. -/
def rtTimerCheck (k : KernelState τ κ) (timeoutFunc : List (KernelOp τ κ)) :
    KernelState τ κ × List (TimerObs (τ ⊕ κ)) :=
  match k.timers.rtTimerList with
  | [] => ({ k with timers := { k.timers with phase := .idle } }, [])
  | i :: _ =>
    if k.timers.rtTick - (k.timers.timer i).timeoutTick < tickHalf then
      let k := { k with timers := k.timers.remove i }
      let k := k.timeout i timeoutFunc
      ({ k with timers := k.timers.finish i }, [.timeout i])
    else ({ k with timers := { k.timers with phase := .idle } }, [])

/-- `rt_tick_increase` up to its `rt_timer_check` -/
def rtTickIncrease (k : KernelState τ κ) : KernelState τ κ :=
  ⟨{ k.timers with rtTick := k.timers.rtTick + 1, phase := .checking }, k.scheduler.rtTickIncrease⟩

end KernelState

/-- Threads and timers; what cannot happen in a phase of the check changes nothing, nor does a
thread sleep that has ended. -/
def kernelMachine (τ κ : Type*) [DecidableEq τ] [DecidableEq κ] :
    Machine (KernelState τ κ) (KernelEvent τ κ) (TimerObs (τ ⊕ κ)) where
  step k e :=
    match k.timers.phase, e with
    | .idle, .op o | .checking, .op o => (k.op o, [])
    | .idle, .sleep tick =>
      if (k.scheduler.thread k.scheduler.current).stat ≠ .close then (k.rtThreadSleep tick, [])
      else (k, [])
    | .idle, .exit => (k.rtThreadExit, [])
    | .idle, .tick => (k.rtTickIncrease, [.tick])
    -- interrupts come between the turns of the loop
    | .checking, .check timeoutFunc => k.rtTimerCheck timeoutFunc
    | _, _ => (k, [])

/-- A thread sleeps for two ticks; the idle thread runs meanwhile. -/
example :
    ((kernelMachine Bool Empty).run
      (.init false (fun t => if t then 10 else 31) (fun _ => 20) (fun _ => 0) fun _ => false)
      [.op (.startup true), .op (.resume true), .op .schedule, .sleep 2, .op .schedule, .tick,
      .check [],
        .tick]).scheduler.current = false := by decide

/-! ## Who is suspended -/

namespace Scheduler

variable {τ : Type*} {s : Scheduler τ} {t u : τ}

def Suspended (t : τ) (s : Scheduler τ) : Prop := (s.thread t).stat = .suspend

/-- Nobody starts, suspends, resumes or detaches the thread, and it does not end. -/
def LeavesAlone (t : τ) (s : Scheduler τ) : SchedulerEvent τ → Prop
  | .startup u | .suspend u | .resume u | .detach u => u ≠ t
  | .exit => s.current ≠ t
  | _ => True

variable [DecidableEq τ]

theorem suspended_modify (s : Scheduler τ) (t u : τ) {f : RtThread → RtThread}
    (hf : t = u → ((f (s.thread u)).stat = .suspend ↔ (s.thread u).stat = .suspend)) :
    Suspended t (s.modify u f) ↔ Suspended t s := by
  unfold Suspended
  rw [thread_modify]
  -- a change of another thread, or one that keeps the answer
  split
  · rename_i heq
    rw [hf heq, heq]
  · rfl

/-- `rt_schedule` takes a thread that is ready and may put one back that runs. -/
theorem Valid.suspended_rtSchedule (h : s.Valid) (t : τ) :
    Suspended t s.rtSchedule ↔ Suspended t s := by
  -- the next thread was ready, so it was not suspended
  have hswitch : ∀ {s' : Scheduler τ} {u : τ}, (s'.thread u).stat = .ready →
      (Suspended t (s'.switchTo u) ↔ Suspended t s') := by
    intro s' u hu
    refine suspended_modify (s'.removeThread u) t u
      (f := fun thread => { thread with stat := .running }) fun _ => ?_
    simp [removeThread, hu]
  have hready : ∀ {u : τ}, (s.ready.table (s.thread u).currentPriority).head? = some u →
      (s.thread u).stat = .ready :=
    fun hhead => ((h.mem _ _).mp (List.mem_of_mem_head? hhead)).1
  have hmove := h.scheduleMove
  generalize s.rtSchedule = s' at hmove ⊢
  cases hmove with
  | stays _ => rfl
  | follows u _ _ hhead _ => exact hswitch (hready hhead)
  | preempts u _ hcurrent hhead _ _ =>
    have hne : u ≠ s.current := h.ne_current_of_ready (hready hhead)
    -- the last thread was running, so it was not suspended either
    have hrelisted : Suspended t s.relist ↔ Suspended t s := by
      unfold Suspended
      rw [thread_relist]
      split
      · rename_i heq
        simp [heq, hcurrent]
      · rfl
    refine (hswitch ?_).trans hrelisted
    rw [thread_relist, if_neg hne]
    exact hready hhead

/-- The tick changes slices, and may run `rt_schedule`. -/
theorem Valid.suspended_rtTickIncrease (h : s.Valid) (t : τ) :
    Suspended t s.rtTickIncrease ↔ Suspended t s := by
  have hticked := h.modify_current
    (f := fun thread => { thread with remainingTick := thread.remainingTick - 1 }) rfl rfl
  have hpaid := suspended_modify s t s.current
    (f := fun thread => { thread with remainingTick := thread.remainingTick - 1 })
    fun _ => Iff.rfl
  unfold Scheduler.rtTickIncrease
  dsimp only
  split
  · refine ((hticked.modify_current rfl rfl).suspended_rtSchedule t).trans ?_
    exact (suspended_modify _ t _ fun _ => Iff.rfl).trans hpaid
  · exact hpaid

/-- **Step lemma**: only its own events suspend a thread or make it ready again. -/
theorem Valid.suspended_next (h : s.Valid) {e : SchedulerEvent τ} (he : s.LeavesAlone t e) :
    Suspended t ((schedulerMachine τ).next s e) ↔ Suspended t s := by
  unfold Machine.next schedulerMachine
  cases e with
  | startup u =>
    have hne : t ≠ u := Ne.symm he
    show Suspended t (s.rtThreadStartup u) ↔ _
    unfold Scheduler.rtThreadStartup
    split
    · exact suspended_modify s t u fun heq => absurd heq hne
    · rfl
  | suspend u =>
    have hne : t ≠ u := Ne.symm he
    show Suspended t (s.rtThreadSuspend u) ↔ _
    have hother := suspended_modify (s.removeThread u) t u
      (f := fun thread => { thread with stat := .suspend }) fun heq => absurd heq hne
    unfold Scheduler.rtThreadSuspend
    split
    · exact hother
    · exact hother
    · rfl
  | resume u =>
    show Suspended t (s.rtThreadResume u) ↔ _
    rw [Suspended, stat_rtThreadResume_of_ne (Ne.symm he)]
    rfl
  -- a change of the priority keeps the state
  | changePriority u p =>
    show Suspended t (s.changePriority u p) ↔ _
    rw [Suspended, h.stat_changePriority]
    rfl
  | detach u =>
    have hne : t ≠ u := Ne.symm he
    show Suspended t (s.rtThreadDetach u) ↔ _
    unfold Scheduler.rtThreadDetach
    split
    · exact suspended_modify s t u fun heq => absurd heq hne
    · exact suspended_modify (s.removeThread u) t u fun heq => absurd heq hne
  -- the current thread is another one
  | exit =>
    refine (h.close.suspended_rtSchedule t).trans ?_
    exact suspended_modify (s.removeThread s.current) t s.current
      fun heq => absurd heq (Ne.symm he)
  | schedule => exact h.suspended_rtSchedule t
  | tick => exact h.suspended_rtTickIncrease t
  | enterCritical => rfl
  | exitCritical =>
    show Suspended t s.rtExitCritical ↔ _
    unfold Scheduler.rtExitCritical
    split <;> rfl

end Scheduler

/-! ## Who uses which timer -/

section

variable {ι : Type*}

/-- Timer `i` is where it was, and its flags are what they were. -/
structure TimerSystem.Same (i : ι) (s s' : TimerSystem ι) : Prop where
  mem : i ∈ s'.rtTimerList ↔ i ∈ s.rtTimerList
  activated : (s'.timer i).activated = (s.timer i).activated
  periodic : (s'.timer i).periodic = (s.timer i).periodic

variable {s s' : TimerSystem ι} {c c' : Calendar ι} {i : ι}

/-- What leaves an alarm alone on the calendar, leaves its timer alone. -/
theorem Refines.same (h : Refines s c) (h' : Refines s' c') (hkeeps : Calendar.Keeps i c c') :
    TimerSystem.Same i s s' := by
  have halarm : (s'.timer i).toAlarm = (s.timer i).toAlarm := by
    rw [h'.alarm, hkeeps.alarm, h.alarm]
  refine ⟨?_, congrArg Alarm.activated halarm, congrArg Alarm.periodic halarm⟩
  simp [h.list, h'.list, hkeeps.mem]

variable [DecidableEq ι]

theorem TimerSystem.not_mem_remove (hnodup : s.rtTimerList.Nodup) :
    i ∉ (s.remove i).rtTimerList := hnodup.not_mem_erase

/-- **Step lemma** for the stop of a timer that is not linked unless its flag says so. -/
theorem TimerSystem.not_mem_stop (hnodup : s.rtTimerList.Nodup)
    (hactivated : i ∈ s.rtTimerList → (s.timer i).activated = true) :
    i ∉ (s.rtTimerStop i).rtTimerList := by
  unfold rtTimerStop
  -- without its flag the timer is not linked
  split
  · exact not_mem_remove hnodup
  · exact mt hactivated ‹_›

/-- Between two checks no assertion stops the timers. -/
theorem TimerSystem.phase_op (hidle : s.phase = .idle) (o : TimerOp ι) :
    (s.op o).phase = .idle := by
  unfold op
  split
  · exact hidle
  · unfold rtTimerStart
    dsimp only
    split
    · exact hidle
    -- outside a check a failed assertion stops only its own caller
    · unfold assertFailed
      simp [startRemove, remove, deactivate, modify, hidle]
  · unfold rtTimerStop
    split <;> exact hidle
  · exact hidle
  · exact hidle
  · exact hidle
  · exact hidle

theorem TimerSystem.phase_foldl_op (hidle : s.phase = .idle) (os : List (TimerOp ι)) :
    (os.foldl op s).phase = .idle := by
  induction os generalizing s with
  | nil => exact hidle
  | cons o os ih => exact ih (phase_op hidle o)

/-- Uses of timers one after the other; where an assertion has failed, both sides stay. -/
theorem TimerSystem.run_map_op (s : TimerSystem ι) (os : List (TimerOp ι)) :
    (timerMachine ι).run s (os.map .op) = os.foldl op s ∧
      (timerMachine ι).trace s (os.map .op) = [] := by
  -- each use is one event, in whatever phase the timers are
  induction os generalizing s with
  | nil => exact ⟨rfl, rfl⟩
  | cons o os ih =>
    have hnext : (timerMachine ι).step s (.op o) = (s.op o, []) := by
      cases hphase : s.phase <;> simp [timerMachine, op, hphase]
    simpa [Machine.next, Machine.emit, hnext] using ih (s.op o)

end

namespace KernelOp

variable {τ κ : Type*}

/-- The operation is not about the thread. -/
def LeavesAlone (t : τ) : KernelOp τ κ → Prop
  | startup u | suspend u | resume u | detach u => u ≠ t
  | _ => True

end KernelOp

namespace KernelState

variable {τ κ : Type*} [DecidableEq τ] [DecidableEq κ] {k : KernelState τ κ} {t : τ}

/-- The timers that an operation uses. -/
def timerOps (k : KernelState τ κ) : KernelOp τ κ → List (TimerOp (τ ⊕ κ))
  | .suspend t =>
    if (k.scheduler.thread t).stat = .ready ∨ (k.scheduler.thread t).stat = .running then
      [.stop (.inl t)]
    else []
  | .resume t => if (k.scheduler.thread t).stat = .suspend then [.stop (.inl t)] else []
  | .detach t => [.detach (.inl t)]
  | .timer o => [o.other]
  | _ => []

omit [DecidableEq τ] [DecidableEq κ] in
theorem timer_of_mem_timerOps {o : KernelOp τ κ} (ho : o.LeavesAlone t) {o' : TimerOp (τ ⊕ κ)}
    (hmem : o' ∈ k.timerOps o) : o'.timer ≠ .inl t := by
  cases o with
  | suspend u | resume u =>
    simp only [timerOps] at hmem
    split at hmem
    · rw [List.mem_singleton.mp hmem]
      exact fun heq => ho (Sum.inl_injective heq)
    · contradiction
  | detach u =>
    rw [List.mem_singleton.mp hmem]
    exact fun heq => ho (Sum.inl_injective heq)
  | timer o =>
    rw [List.mem_singleton.mp hmem]
    -- not the timer of a thread at all
    cases o <;> exact Sum.inr_ne_inl
  | startup u | changePriority u p | schedule | enterCritical | exitCritical => contradiction

theorem foldl_op_of_stuck {ι : Type*} [DecidableEq ι] {s : TimerSystem ι}
    (hstuck : s.phase = .stuck) (os : List (TimerOp ι)) : os.foldl TimerSystem.op s = s := by
  -- each use is ignored
  induction os with
  | nil => rfl
  | cons o os ih =>
    have hop : s.op o = s := by simp [TimerSystem.op, hstuck]
    rw [List.foldl_cons, hop, ih]

/-- **Step lemma**: what an operation does to the timers. -/
theorem timers_op (k : KernelState τ κ) (o : KernelOp τ κ) :
    (k.op o).timers = (k.timerOps o).foldl TimerSystem.op k.timers := by
  cases hphase : k.timers.phase with
  | stuck =>
    rw [foldl_op_of_stuck hphase]
    simp [op, hphase]
  | idle | checking =>
    have hstop : ∀ i, k.timers.op (.stop i) = k.timers.rtTimerStop i := by
      simp [TimerSystem.op, hphase]
    -- suspension and resumption stop the timer only where they do anything
    cases o with
    | suspend t =>
      simp only [op, hphase, rtThreadSuspend, timerOps]
      cases (k.scheduler.thread t).stat <;> simp [hstop]
    | resume t =>
      simp only [op, hphase, rtThreadResume, timerOps]
      cases (k.scheduler.thread t).stat <;> simp [hstop]
    | detach t => simp [op, hphase, timerOps, rtThreadDetach, TimerSystem.op]
    | startup t | changePriority t p | timer o | schedule | enterCritical | exitCritical =>
      simp [op, hphase, timerOps]

/-- **Run lemma** for a timeout function. -/
theorem timers_foldl_op (k : KernelState τ κ) (os : List (KernelOp τ κ)) :
    ∃ timeoutFunc : List (TimerOp (τ ⊕ κ)),
      (os.foldl op k).timers = timeoutFunc.foldl TimerSystem.op k.timers ∧
      ∀ t, (∀ o ∈ os, o.LeavesAlone t) → ∀ o ∈ timeoutFunc, o.timer ≠ .inl t := by
  -- the uses of the first operation, then those of the rest
  induction os generalizing k with
  | nil => exact ⟨[], rfl, fun _ _ => List.forall_mem_nil _⟩
  | cons o os ih =>
    obtain ⟨rest, hrest, hother⟩ := ih (k.op o)
    refine ⟨k.timerOps o ++ rest, ?_, fun t hos => ?_⟩
    · rw [List.foldl_cons, hrest, timers_op, List.foldl_append]
    · obtain ⟨ho, hos⟩ := List.forall_mem_cons.mp hos
      intro o' ho'
      rcases List.mem_append.mp ho' with ho' | ho'
      · exact timer_of_mem_timerOps ho ho'
      · exact hother t hos o' ho'

end KernelState

end RobomasterFirmware.Kernel
