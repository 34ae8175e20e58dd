import RobomasterFirmware.Lib.Buckets
import RobomasterFirmware.Lib.Machine
import Mathlib.Tactic.Common

/-!
# The Scheduler

`rt-thread/src/scheduler.c` for one processor and the functions of `thread.c` and `clock.c` that use
it. There are 32 priorities, 0 being the highest (`RT_THREAD_PRIORITY_MAX`); threads of one priority
take turns by their time slices.

Threads and interrupts call these functions in any order. Each event is one call that nothing
interrupts half way, as is every call that is made with the interrupts off: those of `ipc.c` and
`completion.c`, and all of the timeout functions. Called with the interrupts on, `rt_thread_suspend`
and `rt_thread_resume` test the state before their sections, and `rt_thread_detach` and
`rt_thread_delete` change it after theirs; that is modelled where nothing comes between these parts,
and so is `rt_tick_increase`. Where an `rt_schedule` follows a section after an interrupt may have
come, it is an event of its own: after the resumption that ends `rt_thread_startup`, and after
`rt_exit_critical`.

The model starts when the idle thread runs alone. `rt_system_scheduler_start` leaves what the
startup of the other threads leaves here.

Not modelled: the lists in which suspended threads wait for something, the list of closed threads
and the use of a closed one for a new thread.

## Main Results
- `Scheduler.valid_run`: in every run the lists, their bits and the states of the threads agree
- `rtSchedule_prompt`: after `rt_schedule`, unless it is locked, nobody who is ready has a higher
  priority than the thread that runs
-/

namespace RobomasterFirmware.Kernel

open RobomasterFirmware.Lib

/-! ## State -/

/-- `RT_THREAD_INIT`, `RT_THREAD_READY`, `RT_THREAD_SUSPEND`, `RT_THREAD_RUNNING` and
`RT_THREAD_CLOSE` -/
inductive ThreadStat where
  | init
  | ready
  | suspend
  | running
  | close
  deriving DecidableEq

/-- `struct rt_thread`; `stat` and `yield` are `RT_THREAD_STAT_MASK` and `RT_THREAD_STAT_YIELD` of
its `stat`. -/
structure RtThread where
  stat : ThreadStat
  yield : Bool
  currentPriority : Fin 32
  initPriority : Fin 32
  initTick : UInt32
  remainingTick : UInt32

/-- `rt_current_thread`, `rt_thread_ready_priority_group` with `rt_thread_priority_table`, the
threads and `rt_scheduler_lock_nest`. -/
structure Scheduler (τ : Type*) where
  current : τ
  ready : Buckets 32 τ
  thread : τ → RtThread
  lockNest : Int16

/-- What threads and interrupts do to the scheduler. -/
inductive SchedulerEvent (τ : Type*) where
  /-- `rt_thread_startup` up to its `rt_thread_resume` -/
  | startup (t : τ)
  /-- `rt_thread_suspend` -/
  | suspend (t : τ)
  /-- `rt_thread_resume`, also where a timeout or a released resource calls it -/
  | resume (t : τ)
  /-- `RT_THREAD_CTRL_CHANGE_PRIORITY`, also where a mutex lends or takes back a priority -/
  | changePriority (t : τ) (priority : Fin 32)
  /-- `rt_thread_detach`, and `rt_thread_delete`, which does the same to the scheduler -/
  | detach (t : τ)
  /-- `rt_thread_exit` of the current thread -/
  | exit
  /-- `rt_schedule`, and `rt_thread_yield`, which is the same -/
  | schedule
  /-- the part of `rt_tick_increase` about time slices -/
  | tick
  | enterCritical
  /-- `rt_exit_critical` up to its `rt_schedule` -/
  | exitCritical

namespace Scheduler

variable {τ : Type*} [DecidableEq τ]

/-- Only the idle thread runs, and all the others are initialized. -/
def init (idle : τ) (priority : τ → Fin 32) (tick : τ → UInt32) : Scheduler τ where
  current := idle
  ready := .empty 32 τ
  thread t :=
    { stat := if t = idle then .running else .init
      yield := false
      currentPriority := priority t
      initPriority := priority t
      initTick := tick t
      remainingTick := tick t }
  lockNest := 0

/-- Changes one thread. -/
def modify (s : Scheduler τ) (t : τ) (f : RtThread → RtThread) : Scheduler τ :=
  { s with thread := Function.update s.thread t (f (s.thread t)) }

def setStat (s : Scheduler τ) (t : τ) (stat : ThreadStat) : Scheduler τ :=
  s.modify t fun thread => { thread with stat := stat }

def setPriority (s : Scheduler τ) (t : τ) (priority : Fin 32) : Scheduler τ :=
  s.modify t fun thread => { thread with currentPriority := priority }

/-- Puts a thread at the end of the list of its priority. -/
def enlist (s : Scheduler τ) (t : τ) : Scheduler τ :=
  let s := s.setStat t .ready
  { s with ready := s.ready.insert (s.thread t).currentPriority t }

/-- `rt_schedule_insert_thread` -/
def insertThread (s : Scheduler τ) (t : τ) : Scheduler τ :=
  if t = s.current then s.setStat t .running else s.enlist t

/-- `rt_schedule_remove_thread` -/
def removeThread (s : Scheduler τ) (t : τ) : Scheduler τ :=
  { s with ready := s.ready.remove (s.thread t).currentPriority t }

/-- The end of `rt_schedule`: the switch to a thread, or none. -/
def dispatch (s : Scheduler τ) (toThread : τ) (needInsertFromThread : Bool) : Scheduler τ :=
  if toThread ≠ s.current then
    let fromThread := s.current
    let s := { s with current := toThread }
    let s := if needInsertFromThread then s.insertThread fromThread else s
    (s.removeThread toThread).setStat toThread .running
  else (s.removeThread s.current).setStat s.current .running

/-- `rt_schedule` -/
def rtSchedule (s : Scheduler τ) : Scheduler τ :=
  if s.lockNest = 0 then
    match s.ready.top with
    | none => s
    | some (highestReadyPriority, toThread) =>
      if (s.thread s.current).stat = .running then
        if (s.thread s.current).currentPriority < highestReadyPriority then
          s.dispatch s.current false
        else if (s.thread s.current).currentPriority = highestReadyPriority ∧
            (s.thread s.current).yield = false then
          s.dispatch s.current false
        else
          (s.modify s.current fun thread => { thread with yield := false }).dispatch toThread true
      else s.dispatch toThread false
  else s

/-- `rt_thread_suspend` -/
def rtThreadSuspend (s : Scheduler τ) (t : τ) : Scheduler τ :=
  match (s.thread t).stat with
  | .ready | .running => (s.removeThread t).setStat t .suspend
  | _ => s

/-- `rt_thread_resume` -/
def rtThreadResume (s : Scheduler τ) (t : τ) : Scheduler τ :=
  match (s.thread t).stat with
  | .suspend => s.insertThread t
  | _ => s

/-- `rt_thread_startup` up to its `rt_thread_resume` -/
def rtThreadStartup (s : Scheduler τ) (t : τ) : Scheduler τ :=
  match (s.thread t).stat with
  | .init =>
    s.modify t fun thread =>
      { thread with currentPriority := thread.initPriority, stat := .suspend, yield := false }
  | _ => s

/-- `rt_thread_control` with `RT_THREAD_CTRL_CHANGE_PRIORITY` -/
def changePriority (s : Scheduler τ) (t : τ) (priority : Fin 32) : Scheduler τ :=
  match (s.thread t).stat with
  | .ready => ((s.removeThread t).setPriority t priority).insertThread t
  | _ => s.setPriority t priority

/-- `stat = RT_THREAD_CLOSE` -/
def close (s : Scheduler τ) (t : τ) : Scheduler τ :=
  s.modify t fun thread => { thread with stat := .close, yield := false }

/-- `rt_thread_detach` -/
def rtThreadDetach (s : Scheduler τ) (t : τ) : Scheduler τ :=
  match (s.thread t).stat with
  | .init => s.close t
  | _ => (s.removeThread t).close t

/-- `rt_thread_exit` -/
def rtThreadExit (s : Scheduler τ) : Scheduler τ :=
  ((s.removeThread s.current).close s.current).rtSchedule

/-- `rt_tick_increase` -/
def rtTickIncrease (s : Scheduler τ) : Scheduler τ :=
  let s := s.modify s.current fun thread =>
    { thread with remainingTick := thread.remainingTick - 1 }
  if (s.thread s.current).remainingTick = 0 then
    (s.modify s.current fun thread =>
      { thread with remainingTick := thread.initTick, yield := true }).rtSchedule
  else s

def rtEnterCritical (s : Scheduler τ) : Scheduler τ := { s with lockNest := s.lockNest + 1 }

/-- `rt_exit_critical` up to its `rt_schedule` -/
def rtExitCritical (s : Scheduler τ) : Scheduler τ :=
  if s.lockNest - 1 ≤ 0 then { s with lockNest := 0 } else { s with lockNest := s.lockNest - 1 }

end Scheduler

/-- The scheduler; it shows the priority of the thread that a tick is charged to. -/
def schedulerMachine (τ : Type*) [DecidableEq τ] :
    Machine (Scheduler τ) (SchedulerEvent τ) (Fin 32) where
  step s
    | .startup t => (s.rtThreadStartup t, [])
    | .suspend t => (s.rtThreadSuspend t, [])
    | .resume t => (s.rtThreadResume t, [])
    | .changePriority t priority => (s.changePriority t priority, [])
    | .detach t => (s.rtThreadDetach t, [])
    | .exit => (s.rtThreadExit, [])
    | .schedule => (s.rtSchedule, [])
    | .tick => (s.rtTickIncrease, [(s.thread s.current).currentPriority])
    | .enterCritical => (s.rtEnterCritical, [])
    | .exitCritical => (s.rtExitCritical, [])

/-! ## Lists and states agree -/

namespace Scheduler

variable {τ : Type*} {s : Scheduler τ} {t u : τ}

/-- A thread is in the list of its priority if it is ready, and in no other. -/
structure Listed (s : Scheduler τ) : Prop where
  exact : s.ready.Exact
  nodup : ∀ p, (s.ready.table p).Nodup
  mem : ∀ t p, t ∈ s.ready.table p ↔
    (s.thread t).stat = .ready ∧ (s.thread t).currentPriority = p

/-- The lists are right, the current thread has been started and is not in them, and no other thread
is running. -/
structure Valid (s : Scheduler τ) : Prop extends Listed s where
  current : (s.thread s.current).stat ≠ .ready
  started : (s.thread s.current).stat ≠ .init
  running : ∀ t, (s.thread t).stat = .running → t = s.current

theorem Valid.ne_current_of_ready (h : s.Valid) (ht : (s.thread t).stat = .ready) :
    t ≠ s.current := by
  rintro rfl
  exact h.current ht

theorem Valid.ne_current_of_init (h : s.Valid) (ht : (s.thread t).stat = .init) :
    t ≠ s.current := by
  rintro rfl
  exact h.started ht

variable [DecidableEq τ]

@[simp] theorem thread_modify (s : Scheduler τ) (t u : τ) (f : RtThread → RtThread) :
    (s.modify t f).thread u = if u = t then f (s.thread t) else s.thread u :=
  Function.update_apply ..

theorem valid_init (idle : τ) (priority : τ → Fin 32) (tick : τ → UInt32) :
    (init idle priority tick).Valid where
  exact := Buckets.exact_empty 32 τ
  nodup _ := List.nodup_nil
  mem t p := by
    by_cases ht : t = idle <;> simp [init, Buckets.empty, ht]
  current := by simp [init]
  started := by simp [init]
  running t := by
    by_cases ht : t = idle <;> simp [init, ht]

/-- A change that leaves the state and the priority as they are. -/
theorem Listed.modify (h : s.Listed) (t : τ) {f : RtThread → RtThread}
    (hstat : (f (s.thread t)).stat = .ready ↔ (s.thread t).stat = .ready)
    (hpriority : (f (s.thread t)).currentPriority = (s.thread t).currentPriority) :
    (s.modify t f).Listed where
  exact := h.exact
  nodup := h.nodup
  mem u p := by
    rw [thread_modify]
    split
    · rename_i heq
      rw [hstat, hpriority, heq]
      exact h.mem t p
    · exact h.mem u p

theorem ready_enlist (s : Scheduler τ) (t : τ) :
    (s.enlist t).ready = s.ready.insert (s.thread t).currentPriority t := by
  simp [enlist, setStat, modify]

theorem thread_enlist (s : Scheduler τ) (t u : τ) :
    (s.enlist t).thread u = if u = t then { s.thread t with stat := .ready } else s.thread u :=
  Function.update_apply ..

/-- A thread that was not ready is now. -/
theorem Listed.enlist (h : s.Listed) (ht : (s.thread t).stat ≠ .ready) : (s.enlist t).Listed := by
  have hnot : ∀ p, t ∉ s.ready.table p := fun p hmem => ht ((h.mem t p).mp hmem).1
  refine ⟨?_, fun p => ?_, fun u p => ?_⟩
  · rw [ready_enlist]
    exact h.exact.insert _ t
  · rw [ready_enlist]
    exact Buckets.nodup_insert (h.nodup p) (hnot _)
  -- the thread gains the list of its priority, the others keep theirs
  · rw [ready_enlist, Buckets.mem_insert, h.mem u p]
    rw [thread_enlist]
    rcases eq_or_ne u t with rfl | hne
    · simp [ht, eq_comm]
    · simp [hne]

/-- A thread that may have been ready is no longer. -/
theorem Listed.retire (h : s.Listed) (t : τ) {f : RtThread → RtThread}
    (hf : (f (s.thread t)).stat ≠ .ready) : ((s.removeThread t).modify t f).Listed where
  exact := h.exact.remove _ t
  nodup p := Buckets.nodup_remove (h.nodup p)
  mem u p := by
    rw [thread_modify]
    show u ∈ (s.ready.remove (s.thread t).currentPriority t).table p ↔ _
    rw [Buckets.mem_remove (h.nodup p), h.mem u p]
    -- the thread has lost the only list it was in
    rcases eq_or_ne u t with rfl | hne
    · simp only [if_true]
      refine iff_of_false (fun hmem => hmem.2 hmem.1.2.symm rfl) fun hmem => hf hmem.1
    · simp only [if_neg hne]
      exact and_iff_left fun _ => hne

/-- A thread that is not ready is in no list, whatever its priority becomes. -/
theorem Listed.modify_of_ne (h : s.Listed) (ht : (s.thread t).stat ≠ .ready)
    {f : RtThread → RtThread} (hf : (f (s.thread t)).stat ≠ .ready) : (s.modify t f).Listed where
  exact := h.exact
  nodup := h.nodup
  mem u p := by
    refine (h.mem u p).trans ?_
    rw [thread_modify]
    split
    · rename_i heq
      exact iff_of_false (fun hmem => ht (heq ▸ hmem.1)) fun hmem => hf hmem.1
    · rfl

/-! ## The moves of `rt_schedule` -/

/-- Switches to a thread that is ready. -/
def switchTo (s : Scheduler τ) (t : τ) : Scheduler τ :=
  ({ s with current := t }.removeThread t).setStat t .running

/-- The current thread is listed behind its equals, and its slice is no longer over. -/
def relist (s : Scheduler τ) : Scheduler τ :=
  (s.modify s.current fun thread => { thread with yield := false }).enlist s.current

theorem thread_relist (s : Scheduler τ) (u : τ) :
    s.relist.thread u =
      if u = s.current then { s.thread s.current with stat := .ready, yield := false }
      else s.thread u := by
  rw [relist, thread_enlist, thread_modify, thread_modify, if_pos rfl]
  split <;> rfl

/-- What `rt_schedule` does. The current thread stays because of the lock, or because it runs,
nobody who is ready has a higher priority, and its slice is not over if somebody has the same.
Otherwise the first of the highest priority comes next; the current thread, if it runs, is listed
behind its equals. -/
inductive ScheduleMove (s : Scheduler τ) : Scheduler τ → Prop
  | stays (hstays : s.lockNest = 0 → ∀ t, (s.thread t).stat = .ready →
      (s.thread s.current).stat = .running ∧
        (s.thread s.current).currentPriority ≤ (s.thread t).currentPriority ∧
        ((s.thread s.current).currentPriority = (s.thread t).currentPriority →
          (s.thread s.current).yield = false)) :
    ScheduleMove s s
  | follows (t : τ) (hlock : s.lockNest = 0) (hcurrent : (s.thread s.current).stat ≠ .running)
      (hhead : (s.ready.table (s.thread t).currentPriority).head? = some t)
      (htop : ∀ u, (s.thread u).stat = .ready →
        (s.thread t).currentPriority ≤ (s.thread u).currentPriority) :
    ScheduleMove s (s.switchTo t)
  | preempts (t : τ) (hlock : s.lockNest = 0) (hcurrent : (s.thread s.current).stat = .running)
      (hhead : (s.ready.table (s.thread t).currentPriority).head? = some t)
      (htop : ∀ u, (s.thread u).stat = .ready →
        (s.thread t).currentPriority ≤ (s.thread u).currentPriority)
      (hle : (s.thread t).currentPriority ≤ (s.thread s.current).currentPriority) :
    ScheduleMove s (s.relist.switchTo t)

/-- The current thread is in no list and stays. -/
theorem Valid.dispatch_current (h : s.Valid) (hcurrent : (s.thread s.current).stat = .running) :
    s.dispatch s.current false = s := by
  have hnot : s.current ∉ s.ready.table (s.thread s.current).currentPriority :=
    fun hmem => h.current ((h.mem _ _).mp hmem).1
  have hthread : Function.update s.thread s.current
      { s.thread s.current with stat := .running } = s.thread := by
    rw [← hcurrent, Function.update_eq_self]
  -- `to_thread == rt_current_thread`: nothing is removed and the state is written again
  rw [dispatch, if_neg (not_not_intro rfl), setStat, modify, removeThread]
  dsimp only
  rw [Buckets.remove_of_not_mem h.exact hnot, hthread]

/-- Another thread comes next. -/
theorem dispatch_of_ne (hne : t ≠ s.current) :
    s.dispatch t false = s.switchTo t ∧ s.dispatch t true = (s.enlist s.current).switchTo t := by
  unfold dispatch
  rw [if_pos hne, if_pos hne]
  dsimp only
  -- the second flag tells whether the current thread is put back
  rw [if_neg Bool.false_ne_true, if_pos rfl, insertThread, if_neg hne.symm]
  exact ⟨rfl, rfl⟩

theorem Valid.scheduleMove (h : s.Valid) : ScheduleMove s s.rtSchedule := by
  unfold rtSchedule
  -- the cases follow the branches of `rt_schedule`
  by_cases hlock : s.lockNest = 0
  · rw [if_pos hlock]
    cases htop : s.ready.top with
    -- no bit is set, so nobody is ready
    | none =>
      refine .stays fun _ t ht => ?_
      have hmem := (h.mem t _).mpr ⟨ht, rfl⟩
      rw [(Buckets.top_eq_none_iff h.exact).mp htop] at hmem
      exact absurd hmem List.not_mem_nil
    | some px =>
      obtain ⟨p, t⟩ := px
      obtain ⟨hhead, hnone⟩ := (Buckets.top_eq_some_iff h.exact).mp htop
      obtain ⟨hready, rfl⟩ := (h.mem t p).mp (List.mem_of_mem_head? hhead)
      -- a thread of higher priority would set a bit below
      have hleast : ∀ u, (s.thread u).stat = .ready →
          (s.thread t).currentPriority ≤ (s.thread u).currentPriority := by
        intro u hu
        by_contra hlt
        have hmem := (h.mem u _).mpr ⟨hu, rfl⟩
        rw [hnone _ (not_le.mp hlt)] at hmem
        exact List.not_mem_nil hmem
      have hne : t ≠ s.current := h.ne_current_of_ready hready
      dsimp only
      -- a current thread that runs competes with the first that is ready
      by_cases hrunning : (s.thread s.current).stat = .running
      · rw [if_pos hrunning]
        split
        -- it has the higher priority
        · rename_i hlt
          rw [h.dispatch_current hrunning]
          have hlt' : ∀ u, (s.thread u).stat = .ready →
              (s.thread s.current).currentPriority < (s.thread u).currentPriority :=
            fun u hu => hlt.trans_le (hleast u hu)
          exact .stays fun _ u hu =>
            ⟨hrunning, (hlt' u hu).le, fun heq => absurd heq (hlt' u hu).ne⟩
        · rename_i hge
          split
          -- it has the same, and its slice is not over
          · rename_i heq
            rw [h.dispatch_current hrunning]
            exact .stays fun _ u hu => ⟨hrunning, heq.1.le.trans (hleast u hu), fun _ => heq.2⟩
          -- it gives way, and its slice begins anew
          · rw [(dispatch_of_ne (s := s.modify s.current _) hne).2]
            exact .preempts t hlock hrunning hhead hleast (not_lt.mp hge)
      -- it is suspended or closed, so the first of the highest priority follows
      · rw [if_neg hrunning, (dispatch_of_ne hne).1]
        exact .follows t hlock hrunning hhead hleast
  · rw [if_neg hlock]
    exact .stays fun hlock' => absurd hlock' hlock

/-! ## The operations keep lists and states -/

theorem Listed.switchTo (h : s.Listed) (t : τ) : (s.switchTo t).Listed := by
  have hcurrent : Listed { s with current := t } := ⟨h.exact, h.nodup, h.mem⟩
  exact hcurrent.retire t (f := fun thread => { thread with stat := .running })
    ThreadStat.noConfusion

theorem thread_switchTo (s : Scheduler τ) (t u : τ) :
    (s.switchTo t).thread u = if u = t then { s.thread t with stat := .running } else s.thread u :=
  Function.update_apply ..

theorem Valid.relist (h : s.Valid) : s.relist.Listed := by
  -- the current thread was in no list
  refine (h.toListed.modify s.current Iff.rfl rfl).enlist ?_
  rw [thread_modify, if_pos rfl]
  exact h.current

/-- A switch to a thread that is ready, where none but the current one runs. -/
theorem Listed.valid_switchTo (h : s.Listed) (t : τ)
    (hrunning : ∀ u, (s.thread u).stat ≠ .running) : (s.switchTo t).Valid := by
  have hself : ((s.switchTo t).thread t).stat = .running := by
    rw [thread_switchTo, if_pos rfl]
  refine ⟨h.switchTo t, ?_, ?_, fun u hu => ?_⟩
  · exact hself.trans_ne ThreadStat.noConfusion
  · exact hself.trans_ne ThreadStat.noConfusion
  · rw [thread_switchTo] at hu
    split at hu
    · assumption
    · exact absurd hu (hrunning u)

/-- **Step lemma** for `rt_schedule`. -/
theorem Valid.rtSchedule (h : s.Valid) : s.rtSchedule.Valid := by
  have hmove := h.scheduleMove
  generalize s.rtSchedule = s' at hmove ⊢
  -- a switch needs that none but the current thread runs
  cases hmove with
  | stays _ => exact h
  | follows t _ hcurrent _ _ =>
    exact h.toListed.valid_switchTo t fun u hu => hcurrent (h.running u hu ▸ hu)
  | preempts t _ hcurrent _ _ _ =>
    refine h.relist.valid_switchTo t fun u hu => ?_
    rw [thread_relist] at hu
    split at hu
    · contradiction
    · exact absurd (h.running u hu) (by assumption)

omit [DecidableEq τ] in
/-- A change of one thread, the lists being right. -/
theorem Valid.of_thread {s' : Scheduler τ} (h : s.Valid) (hlisted : s'.Listed)
    (hcurrent : s'.current = s.current)
    (hother : ∀ u, u ≠ t → (s'.thread u).stat = (s.thread u).stat)
    (hself : t = s.current → (s'.thread t).stat ≠ .ready ∧ (s'.thread t).stat ≠ .init)
    (hrunning : (s'.thread t).stat = .running → t = s.current) : s'.Valid := by
  have hstat : (s'.thread s.current).stat ≠ .ready ∧ (s'.thread s.current).stat ≠ .init := by
    rcases eq_or_ne t s.current with rfl | hne
    · exact hself rfl
    · rw [hother _ hne.symm]
      exact ⟨h.current, h.started⟩
  refine ⟨hlisted, hcurrent ▸ hstat.1, hcurrent ▸ hstat.2, fun u hu => hcurrent ▸ ?_⟩
  rcases eq_or_ne u t with rfl | hne
  · exact hrunning hu
  · exact h.running u (hother u hne ▸ hu)

theorem stat_modify_of_ne (hne : u ≠ t) (f : RtThread → RtThread) :
    ((s.modify t f).thread u).stat = (s.thread u).stat := by
  rw [thread_modify, if_neg hne]

theorem thread_modify_self (s : Scheduler τ) (t : τ) (f : RtThread → RtThread) :
    (s.modify t f).thread t = f (s.thread t) := by
  rw [thread_modify, if_pos rfl]

/-- A change of the current thread that leaves its state as it is. -/
theorem Valid.modify_current (h : s.Valid) {f : RtThread → RtThread}
    (hf : (f (s.thread s.current)).stat = (s.thread s.current).stat)
    (hpriority : (f (s.thread s.current)).currentPriority = (s.thread s.current).currentPriority) :
    (s.modify s.current f).Valid := by
  refine h.of_thread (t := s.current) (h.toListed.modify s.current (by rw [hf]) hpriority) rfl
    (fun u hne => stat_modify_of_ne hne f) (fun _ => ?_) fun _ => rfl
  rw [thread_modify_self, hf]
  exact ⟨h.current, h.started⟩

/-- A thread is taken from the lists and is neither ready nor running. -/
theorem Valid.retire (h : s.Valid) (t : τ) {f : RtThread → RtThread}
    (hready : (f (s.thread t)).stat ≠ .ready) (hinit : (f (s.thread t)).stat ≠ .init)
    (hrunning : (f (s.thread t)).stat ≠ .running) : ((s.removeThread t).modify t f).Valid := by
  have hself := thread_modify_self (s.removeThread t) t f
  refine h.of_thread (t := t) (h.toListed.retire t hready) rfl
    (fun u hne => stat_modify_of_ne hne f) (fun _ => ?_) fun hrun => ?_
  · rw [hself]
    exact ⟨hready, hinit⟩
  · rw [hself] at hrun
    exact absurd hrun hrunning

/-- **Step lemma** for `rt_schedule_insert_thread`. -/
theorem Valid.insertThread (h : s.Valid) (ht : (s.thread t).stat ≠ .ready) :
    (s.insertThread t).Valid := by
  unfold Scheduler.insertThread
  -- `if (thread == rt_current_thread)`: the thread was suspended before the switch came
  split
  · rename_i heq
    have hself : ((s.setStat t .running).thread t).stat = .running := by
      rw [setStat, thread_modify_self]
    refine h.of_thread (t := t) (h.toListed.modify_of_ne ht ThreadStat.noConfusion) rfl
      (fun u hne => stat_modify_of_ne hne _) (fun _ => ⟨?_, ?_⟩) fun _ => heq
    · exact hself.trans_ne ThreadStat.noConfusion
    · exact hself.trans_ne ThreadStat.noConfusion
  · rename_i hne
    refine h.of_thread (t := t) (h.toListed.enlist ht) rfl (fun u hu => ?_)
      (fun heq => absurd heq hne) fun hrun => ?_
    · rw [thread_enlist, if_neg hu]
    · rw [thread_enlist, if_pos rfl] at hrun
      contradiction

theorem Valid.rtThreadSuspend (h : s.Valid) (t : τ) : (s.rtThreadSuspend t).Valid := by
  unfold Scheduler.rtThreadSuspend
  -- ready or running; else the call fails
  split
  · exact h.retire t ThreadStat.noConfusion ThreadStat.noConfusion ThreadStat.noConfusion
  · exact h.retire t ThreadStat.noConfusion ThreadStat.noConfusion ThreadStat.noConfusion
  · exact h

theorem Valid.rtThreadResume (h : s.Valid) (t : τ) : (s.rtThreadResume t).Valid := by
  unfold Scheduler.rtThreadResume
  split
  · rename_i hsuspend
    exact h.insertThread (by rw [hsuspend]; exact ThreadStat.noConfusion)
  · exact h

/-- A thread that is not the current one and in no list. -/
theorem Valid.modify_of_ne (h : s.Valid) (hne : t ≠ s.current) (ht : (s.thread t).stat ≠ .ready)
    {f : RtThread → RtThread} (hready : (f (s.thread t)).stat ≠ .ready)
    (hrunning : (f (s.thread t)).stat ≠ .running) : (s.modify t f).Valid := by
  refine h.of_thread (t := t) (h.toListed.modify_of_ne ht hready) rfl
    (fun u hu => stat_modify_of_ne hu f) (fun heq => absurd heq hne) fun hrun => ?_
  rw [thread_modify_self] at hrun
  exact absurd hrun hrunning

theorem Valid.rtThreadStartup (h : s.Valid) (t : τ) : (s.rtThreadStartup t).Valid := by
  unfold Scheduler.rtThreadStartup
  split
  · rename_i hinit
    exact h.modify_of_ne (h.ne_current_of_init hinit) (hinit.trans_ne ThreadStat.noConfusion)
      ThreadStat.noConfusion ThreadStat.noConfusion
  · exact h

theorem Valid.rtThreadDetach (h : s.Valid) (t : τ) : (s.rtThreadDetach t).Valid := by
  unfold Scheduler.rtThreadDetach
  -- a thread that was never started is in no list
  split
  · rename_i hinit
    exact h.modify_of_ne (h.ne_current_of_init hinit) (hinit.trans_ne ThreadStat.noConfusion)
      ThreadStat.noConfusion ThreadStat.noConfusion
  · exact h.retire t (f := fun thread => { thread with stat := .close, yield := false })
      ThreadStat.noConfusion ThreadStat.noConfusion ThreadStat.noConfusion

/-- The current thread is about to end. -/
theorem Valid.close (h : s.Valid) : ((s.removeThread s.current).close s.current).Valid :=
  h.retire s.current (f := fun thread => { thread with stat := .close, yield := false })
    ThreadStat.noConfusion ThreadStat.noConfusion ThreadStat.noConfusion

/-- A thread that is ready leaves its list for another one. -/
theorem Valid.changePriority_of_ready (h : s.Valid) (ht : (s.thread t).stat = .ready) (p : Fin 32) :
    s.changePriority t p = ((s.removeThread t).setPriority t p).enlist t := by
  have hne : t ≠ ((s.removeThread t).setPriority t p).current := h.ne_current_of_ready ht
  rw [Scheduler.changePriority, ht]
  exact if_neg hne

theorem changePriority_of_ne (ht : (s.thread t).stat ≠ .ready) (p : Fin 32) :
    s.changePriority t p = s.setPriority t p := by
  unfold changePriority
  split
  · contradiction
  · rfl

/-- The thread keeps its state. -/
theorem Valid.thread_changePriority (h : s.Valid) (t u : τ) (p : Fin 32) :
    (s.changePriority t p).thread u =
      if u = t then { s.thread t with currentPriority := p } else s.thread u := by
  by_cases ht : (s.thread t).stat = .ready
  · rw [h.changePriority_of_ready ht, thread_enlist, setPriority, thread_modify, if_pos rfl,
      thread_modify, ← ht]
    split <;> rfl
  · rw [changePriority_of_ne ht, setPriority, thread_modify]

theorem Valid.stat_changePriority (h : s.Valid) (t u : τ) (p : Fin 32) :
    ((s.changePriority t p).thread u).stat = (s.thread u).stat := by
  rw [h.thread_changePriority]
  split
  · rename_i heq
    rw [heq]
  · rfl

theorem Valid.current_changePriority (h : s.Valid) (t : τ) (p : Fin 32) :
    (s.changePriority t p).current = s.current := by
  by_cases ht : (s.thread t).stat = .ready
  · rw [h.changePriority_of_ready ht]
    rfl
  · rw [changePriority_of_ne ht]
    rfl

theorem Valid.listed_changePriority (h : s.Valid) (t : τ) (p : Fin 32) :
    (s.changePriority t p).Listed := by
  by_cases ht : (s.thread t).stat = .ready
  · -- between the two lists the thread is in none, as if it were suspended
    have hretired := h.toListed.retire t
      (f := fun thread => { thread with stat := .suspend, currentPriority := p })
      ThreadStat.noConfusion
    have hlisted := hretired.enlist (t := t)
      (by rw [thread_modify_self]; exact ThreadStat.noConfusion)
    rw [h.changePriority_of_ready ht]
    simpa [Scheduler.enlist, setStat, setPriority, modify] using hlisted
  · rw [changePriority_of_ne ht]
    exact h.toListed.modify_of_ne ht ht

theorem Valid.changePriority (h : s.Valid) (t : τ) (p : Fin 32) : (s.changePriority t p).Valid := by
  have hstat := h.stat_changePriority t
  -- only the priority and the list change
  refine h.of_thread (t := t) (h.listed_changePriority t p) (h.current_changePriority t p)
    (fun u _ => hstat u p) (fun heq => ?_) fun hrun => h.running t (hstat t p ▸ hrun)
  rw [hstat, heq]
  exact ⟨h.current, h.started⟩

omit [DecidableEq τ] in
theorem Valid.lockNest (h : s.Valid) (lockNest : Int16) : Valid { s with lockNest := lockNest } :=
  ⟨⟨h.exact, h.nodup, h.mem⟩, h.current, h.started, h.running⟩

omit [DecidableEq τ] in
theorem Valid.rtExitCritical (h : s.Valid) : s.rtExitCritical.Valid := by
  unfold Scheduler.rtExitCritical
  split
  · exact h.lockNest _
  · exact h.lockNest _

/-- **Step lemma** for the tick: the slice goes on, or a new one begins. -/
theorem Valid.rtTickIncrease (h : s.Valid) : s.rtTickIncrease.Valid := by
  unfold Scheduler.rtTickIncrease
  have hticked := h.modify_current
    (f := fun thread => { thread with remainingTick := thread.remainingTick - 1 }) rfl rfl
  dsimp only
  -- the slice is over: a new one, and `rt_thread_yield`
  split
  · exact (hticked.modify_current rfl rfl).rtSchedule
  · exact hticked

/-- **Step lemma.** -/
theorem Valid.next (h : s.Valid) (e : SchedulerEvent τ) :
    ((schedulerMachine τ).next s e).Valid := by
  unfold Machine.next schedulerMachine
  cases e with
  | startup t => exact h.rtThreadStartup t
  | suspend t => exact h.rtThreadSuspend t
  | resume t => exact h.rtThreadResume t
  | changePriority t p => exact h.changePriority t p
  | detach t => exact h.rtThreadDetach t
  | exit => exact h.close.rtSchedule
  | schedule => exact h.rtSchedule
  | tick => exact h.rtTickIncrease
  | enterCritical => exact h.lockNest _
  | exitCritical => exact h.rtExitCritical

/-- **Run lemma.** -/
theorem valid_run (idle : τ) (priority : τ → Fin 32) (tick : τ → UInt32)
    (es : List (SchedulerEvent τ)) :
    ((schedulerMachine τ).run (init idle priority tick) es).Valid :=
  Machine.run_invariant (I := Valid) (fun _ e h => h.next e) (valid_init idle priority tick) es

/-! ## Who runs -/

/-- What `rt_schedule` changes of no thread. -/
def plan (s : Scheduler τ) (t : τ) : Fin 32 × UInt32 × UInt32 :=
  ((s.thread t).currentPriority, (s.thread t).initTick, (s.thread t).remainingTick)

omit [DecidableEq τ] in
theorem priority_eq_of_plan {s' : Scheduler τ} (h : s'.plan t = s.plan t) :
    (s'.thread t).currentPriority = (s.thread t).currentPriority := congrArg Prod.fst h

theorem plan_modify (s : Scheduler τ) (t u : τ) {f : RtThread → RtThread}
    (hf : ∀ thread, (f thread).currentPriority = thread.currentPriority ∧
      (f thread).initTick = thread.initTick ∧ (f thread).remainingTick = thread.remainingTick) :
    (s.modify t f).plan u = s.plan u := by
  unfold plan
  rw [thread_modify]
  split
  · rename_i heq
    rw [(hf _).1, (hf _).2.1, (hf _).2.2, heq]
  · rfl

theorem plan_setStat (s : Scheduler τ) (t u : τ) (stat : ThreadStat) :
    (s.setStat t stat).plan u = s.plan u := plan_modify s t u fun _ => ⟨rfl, rfl, rfl⟩

theorem plan_enlist (s : Scheduler τ) (t u : τ) : (s.enlist t).plan u = s.plan u :=
  plan_setStat s t u .ready

theorem plan_switchTo (s : Scheduler τ) (t u : τ) : (s.switchTo t).plan u = s.plan u := by
  rw [switchTo, plan_setStat]
  rfl

theorem plan_relist (s : Scheduler τ) (u : τ) : s.relist.plan u = s.plan u := by
  rw [relist, plan_enlist, plan_modify s s.current u (by intro _; exact ⟨rfl, rfl, rfl⟩)]

theorem ScheduleMove.plan_eq {s' : Scheduler τ} (h : ScheduleMove s s') (u : τ) :
    s'.plan u = s.plan u := by
  -- a switch changes states and lists only
  cases h with
  | stays _ => rfl
  | follows t _ _ _ _ => exact plan_switchTo s t u
  | preempts t _ _ _ _ _ => rw [plan_switchTo, plan_relist]

/-- The current thread runs, and nobody who is ready has a higher priority. -/
structure Prompt (s : Scheduler τ) : Prop where
  running : (s.thread s.current).stat = .running
  le : ∀ t, (s.thread t).stat = .ready →
    (s.thread s.current).currentPriority ≤ (s.thread t).currentPriority

theorem prompt_switchTo (htop : ∀ u, (s.thread u).stat = .ready →
    (s.thread t).currentPriority ≤ (s.thread u).currentPriority) : (s.switchTo t).Prompt := by
  refine ⟨?_, fun u hu => ?_⟩
  · show ((s.switchTo t).thread t).stat = .running
    rw [thread_switchTo, if_pos rfl]
  · show ((s.switchTo t).thread t).currentPriority ≤ _
    rw [priority_eq_of_plan (plan_switchTo s t t), priority_eq_of_plan (plan_switchTo s t u)]
    rw [thread_switchTo] at hu
    -- who is still ready was so before
    split at hu
    · contradiction
    · exact htop u hu

/-- **Step lemma.** -/
theorem Valid.prompt_rtSchedule (h : s.Valid) (hlock : s.lockNest = 0)
    (ht : (s.thread t).stat = .ready ∨ (s.thread t).stat = .running) : s.rtSchedule.Prompt := by
  have hmove := h.scheduleMove
  generalize s.rtSchedule = s' at hmove ⊢
  cases hmove with
  | stays hstays =>
    refine ⟨?_, fun u hu => (hstays hlock u hu).2.1⟩
    -- a thread that runs is the current one
    rcases ht with ht | ht
    · exact (hstays hlock t ht).1
    · rw [← h.running t ht]
      exact ht
  | follows t' _ _ _ htop => exact prompt_switchTo htop
  | preempts t' _ hcurrent _ htop hle =>
    refine prompt_switchTo fun u hu => ?_
    rw [priority_eq_of_plan (plan_relist s t'), priority_eq_of_plan (plan_relist s u)]
    rw [thread_relist] at hu
    -- the current thread is ready now, and does not come before the next one
    split at hu
    · rename_i heq
      rw [heq]
      exact hle
    · exact htop u hu

end Scheduler

open Scheduler in
/-- **Run lemma.** After every run, each thread that is ready is in the list of its priority, once,
and in no other, the bits tell which lists are not empty, and if the scheduler is not locked and
anybody can run, then after `rt_schedule` a thread runs than which nobody who is ready has a higher
priority. -/
theorem rtSchedule_prompt {τ : Type*} [DecidableEq τ] (idle : τ) (priority : τ → Fin 32)
    (tick : τ → UInt32) (es : List (SchedulerEvent τ)) {s : Scheduler τ}
    (hs : (schedulerMachine τ).run (init idle priority tick) es = s) :
    (∀ p : Fin 32, s.ready.group.getLsbD p = true ↔
        ∃ t, (s.thread t).stat = .ready ∧ (s.thread t).currentPriority = p) ∧
      (∀ t p, (s.ready.table p).count t =
        if (s.thread t).stat = .ready ∧ (s.thread t).currentPriority = p then 1 else 0) ∧
      (s.lockNest = 0 → (∃ t, (s.thread t).stat = .ready ∨ (s.thread t).stat = .running) →
        s.rtSchedule.Prompt) := by
  have hvalid : s.Valid := hs ▸ valid_run idle priority tick es
  refine ⟨fun p => ?_, fun t p => ?_, fun hlock ⟨t, ht⟩ => hvalid.prompt_rtSchedule hlock ht⟩
  · rw [hvalid.exact p]
    -- a bit is set exactly where the list has somebody
    constructor
    · intro hcons
      obtain ⟨t, ht⟩ := List.exists_mem_of_ne_nil _ hcons
      exact ⟨t, (hvalid.mem t p).mp ht⟩
    · rintro ⟨t, ht⟩
      exact List.ne_nil_of_mem ((hvalid.mem t p).mpr ht)
  · rw [(hvalid.nodup p).count]
    exact if_congr (hvalid.mem t p) rfl rfl

/-- A thread is suspended; who is ready beside it is the idle thread. -/
theorem rtSchedule_prompt_idle :
    ((schedulerMachine Bool).run (.init false (fun t => if t then 15 else 31) fun _ => 20)
      [.startup true, .resume true, .schedule, .suspend true]).rtSchedule.Prompt :=
  (rtSchedule_prompt false _ _ [.startup true, .resume true, .schedule, .suspend true] rfl).2.2
    (by decide) ⟨false, by decide⟩

end RobomasterFirmware.Kernel
