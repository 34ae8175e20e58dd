import RobomasterFirmware.Kernel.Scheduler
import Mathlib.Algebra.BigOperators.Group.List.Basic
import Mathlib.Algebra.Ring.Nat

/-!
# Who Gets the Processor

What priorities and time slices promise to a thread that competes for the processor, and what they
deny to the threads below it.

## Main Results
- `lower_never_runs`: while a thread can run, and no change of a priority puts it above the current
  one, no thread of a lower priority runs
- `turn_comes`: a thread that can run does so before its equals have had more ticks than were left
  of the slices before its own
-/

namespace RobomasterFirmware.Kernel

open RobomasterFirmware.Lib

namespace Scheduler

variable {τ : Type*} {s s' : Scheduler τ} {t u : τ}

/-! ## The priorities below -/

/-- The thread is ready or runs. -/
def Competes (t : τ) (s : Scheduler τ) : Prop :=
  (s.thread t).stat = .ready ∨ (s.thread t).stat = .running

/-- The thread competes, and nobody below it runs. -/
structure Leads (t : τ) (s : Scheduler τ) : Prop where
  competes : s.Competes t
  le : (s.thread s.current).currentPriority ≤ (s.thread t).currentPriority

/-- Nobody suspends or detaches the thread, it does not end, and no change of a priority puts it
above the current thread. -/
def Spares [DecidableEq τ] (t : τ) (s : Scheduler τ) : SchedulerEvent τ → Prop
  | .suspend u | .detach u => u ≠ t
  | .exit => s.current ≠ t
  | .changePriority u p =>
    (if s.current = u then p else (s.thread s.current).currentPriority) ≤
      if t = u then p else (s.thread t).currentPriority
  | _ => True

instance decidableSpares [DecidableEq τ] (t : τ) (s : Scheduler τ) : ∀ e, Decidable (s.Spares t e)
  | .suspend _ | .detach _ => inferInstanceAs (Decidable (_ ≠ t))
  | .exit => inferInstanceAs (Decidable (s.current ≠ t))
  | .changePriority _ _ => inferInstanceAs (Decidable (_ ≤ _))
  | .startup _ | .resume _ | .schedule | .tick | .enterCritical | .exitCritical => isTrue trivial

/-- A step that changes neither the current thread nor a priority. -/
theorem Leads.of_eq (h : Leads t s) (hstat : (s'.thread t).stat = (s.thread t).stat)
    (hcurrent : s'.current = s.current)
    (hpriority : ∀ u, (s'.thread u).currentPriority = (s.thread u).currentPriority) :
    Leads t s' := by
  refine ⟨?_, ?_⟩
  · rw [Competes, hstat]
    exact h.competes
  · rw [hcurrent, hpriority, hpriority]
    exact h.le

variable [DecidableEq τ]

/-- **Step lemma** for `rt_schedule`: who competes goes on to compete. -/
theorem Valid.competes_rtSchedule (h : s.Valid) (ht : s.Competes t) : s.rtSchedule.Competes t := by
  have hmove := h.scheduleMove
  generalize s.rtSchedule = s' at hmove ⊢
  -- the states change for the next thread, which runs, and for the last one, which is ready
  cases hmove with
  | stays _ => exact ht
  | follows t' _ _ _ _ =>
    rw [Competes, thread_switchTo]
    split
    · exact .inr rfl
    · exact ht
  | preempts t' _ _ _ _ _ =>
    rw [Competes, thread_switchTo]
    by_cases hnext : t = t'
    · rw [if_pos hnext]
      exact .inr rfl
    · rw [if_neg hnext, thread_relist]
      split
      · exact .inl rfl
      · exact ht

/-- **Step lemma** for `rt_schedule`. -/
theorem Valid.leads_rtSchedule (h : s.Valid) (ht : s.Competes t)
    (hlock : s.lockNest = 0 ∨ Leads t s) : Leads t s.rtSchedule := by
  by_cases hzero : s.lockNest = 0
  · have hprompt := h.prompt_rtSchedule hzero ht
    have hcompetes := h.competes_rtSchedule ht
    refine ⟨hcompetes, ?_⟩
    -- ready: it is not below the current thread; running: it is the current thread
    rcases hcompetes with hready | hrunning
    · exact hprompt.le t hready
    · have hcurrent := h.rtSchedule.running t hrunning
      exact le_of_eq (congrArg (fun u => (s.rtSchedule.thread u).currentPriority) hcurrent.symm)
  · rw [Scheduler.rtSchedule, if_neg hzero]
    exact hlock.resolve_left hzero

/-- A change of one thread, which is another one or keeps its state. -/
theorem Leads.modify (h : Leads t s) (u : τ) {f : RtThread → RtThread}
    (hstat : t = u → (f (s.thread u)).stat = (s.thread u).stat)
    (hf : (f (s.thread u)).currentPriority = (s.thread u).currentPriority) :
    Leads t (s.modify u f) := by
  refine h.of_eq ?_ rfl fun u' => ?_
  · rw [thread_modify]
    split
    · rename_i heq
      rw [hstat heq, heq]
    · rfl
  · rw [thread_modify]
    split
    · rename_i heq
      rw [hf, heq]
    · rfl

/-- A change of one thread, which is neither this one nor the current one. -/
theorem Leads.modify_of_ne (h : Leads t s) (hne : t ≠ u) (hcurrent : s.current ≠ u)
    (f : RtThread → RtThread) : Leads t (s.modify u f) := by
  have ht : (s.modify u f).thread t = s.thread t := by rw [thread_modify, if_neg hne]
  have hc : (s.modify u f).thread s.current = s.thread s.current := by
    rw [thread_modify, if_neg hcurrent]
  refine ⟨?_, ?_⟩
  · rw [Competes, ht]
    exact h.competes
  · rw [ht]
    show ((s.modify u f).thread s.current).currentPriority ≤ _
    rw [hc]
    exact h.le

/-- Another thread is taken from the lists. -/
theorem Leads.retire (h : Leads t s) (hne : t ≠ u) {f : RtThread → RtThread}
    (hf : (f (s.thread u)).currentPriority = (s.thread u).currentPriority) :
    Leads t ((s.removeThread u).modify u f) := by
  have hremoved : Leads t (s.removeThread u) := h.of_eq rfl rfl fun _ => rfl
  exact hremoved.modify u (fun heq => absurd heq hne) hf

theorem Leads.insertThread (h : Leads t s) (hne : t ≠ u) : Leads t (s.insertThread u) := by
  unfold Scheduler.insertThread
  -- ready or running: another thread, and no change of a priority
  split
  · exact h.modify u (fun heq => absurd heq hne) rfl
  · have hstat := h.modify u (f := fun thread => { thread with stat := .ready })
      (fun heq => absurd heq hne) rfl
    exact hstat.of_eq rfl rfl fun _ => rfl

omit [DecidableEq τ] in
/-- A thread in a state in which it does not compete is another one. -/
theorem Leads.ne_of_stat (h : Leads t s) {stat : ThreadStat} (hu : (s.thread u).stat = stat)
    (hready : stat ≠ .ready) (hrunning : stat ≠ .running) : t ≠ u := by
  rintro rfl
  rcases h.competes with ht | ht
  · exact hready (hu.symm.trans ht)
  · exact hrunning (hu.symm.trans ht)

/-- **Step lemma** for the start of a thread, whose priority is set anew. -/
theorem Leads.rtThreadStartup (h : Leads t s) (hvalid : s.Valid) (u : τ) :
    Leads t (s.rtThreadStartup u) := by
  unfold Scheduler.rtThreadStartup
  split
  · rename_i hinit
    -- the current thread has been started before
    have hne : t ≠ u := h.ne_of_stat hinit ThreadStat.noConfusion ThreadStat.noConfusion
    exact h.modify_of_ne hne (hvalid.ne_current_of_init hinit).symm _
  · exact h

theorem Leads.rtThreadSuspend (h : Leads t s) (hne : t ≠ u) : Leads t (s.rtThreadSuspend u) := by
  unfold Scheduler.rtThreadSuspend
  -- suspended or not, it is another thread
  split
  · exact h.retire hne rfl
  · exact h.retire hne rfl
  · exact h

theorem Leads.rtThreadResume (h : Leads t s) (u : τ) : Leads t (s.rtThreadResume u) := by
  unfold Scheduler.rtThreadResume
  split
  · rename_i hsuspend
    exact h.insertThread (h.ne_of_stat hsuspend ThreadStat.noConfusion ThreadStat.noConfusion)
  · exact h

theorem Leads.rtThreadDetach (h : Leads t s) (hne : t ≠ u) : Leads t (s.rtThreadDetach u) := by
  unfold Scheduler.rtThreadDetach
  split
  · exact h.modify u (fun heq => absurd heq hne) rfl
  · exact h.retire hne (f := fun thread => { thread with stat := .close, yield := false }) rfl

/-- **Step lemma** for a change of a priority, be it the thread's own, the current one's or another
one's. -/
theorem Leads.changePriority (h : Leads t s) (hvalid : s.Valid) {p : Fin 32}
    (hp : s.Spares t (.changePriority u p)) : Leads t (s.changePriority u p) := by
  have hpriority (v : τ) : ((s.changePriority u p).thread v).currentPriority =
      if v = u then p else (s.thread v).currentPriority := by
    rw [hvalid.thread_changePriority]
    split <;> rfl
  refine ⟨?_, ?_⟩
  · rw [Competes, hvalid.stat_changePriority]
    exact h.competes
  · rw [hvalid.current_changePriority, hpriority, hpriority]
    exact hp

/-- **Step lemma** for the tick. -/
theorem Leads.rtTickIncrease (h : Leads t s) (hvalid : s.Valid) : Leads t s.rtTickIncrease := by
  have hticked := h.modify s.current
    (f := fun thread => { thread with remainingTick := thread.remainingTick - 1 })
    (fun _ => rfl) rfl
  have hvalid' := hvalid.modify_current
    (f := fun thread => { thread with remainingTick := thread.remainingTick - 1 }) rfl rfl
  unfold Scheduler.rtTickIncrease
  dsimp only
  -- the slice goes on, or `rt_thread_yield` runs
  split
  · have hexpired := hticked.modify s.current
      (f := fun thread => { thread with remainingTick := thread.initTick, yield := true })
      (fun _ => rfl) rfl
    exact (hvalid'.modify_current rfl rfl).leads_rtSchedule hexpired.competes (.inr hexpired)
  · exact hticked

/-- **Step lemma.** -/
theorem Leads.next (h : Leads t s) (hvalid : s.Valid) {e : SchedulerEvent τ} (he : s.Spares t e) :
    Leads t ((schedulerMachine τ).next s e) := by
  unfold Machine.next schedulerMachine
  cases e with
  | startup u => exact h.rtThreadStartup hvalid u
  | suspend u => exact h.rtThreadSuspend (Ne.symm he)
  | resume u => exact h.rtThreadResume u
  | changePriority u p => exact h.changePriority hvalid he
  | detach u => exact h.rtThreadDetach (Ne.symm he)
  | exit =>
    -- the current thread is another one, and goes before somebody else is chosen
    have hclosed : Leads t ((s.removeThread s.current).close s.current) :=
      h.retire (Ne.symm he) (f := fun thread => { thread with stat := .close, yield := false }) rfl
    exact hvalid.close.leads_rtSchedule hclosed.competes (.inr hclosed)
  | schedule => exact hvalid.leads_rtSchedule h.competes (.inr h)
  | tick => exact h.rtTickIncrease hvalid
  -- the lock moves no thread
  | enterCritical => exact h.of_eq rfl rfl fun _ => rfl
  | exitCritical =>
    show Leads t s.rtExitCritical
    unfold rtExitCritical
    split
    · exact h.of_eq rfl rfl fun _ => rfl
    · exact h.of_eq rfl rfl fun _ => rfl

end Scheduler

open Scheduler in
/-- **Run lemma.** A thread can run when `rt_schedule` runs unlocked. From then on, and for as long
as nobody suspends or detaches it, it does not end and no change of a priority puts it above the
current thread, no thread of a lower priority is the current one, whatever else happens. The threads
below it starve: `motionTask_entry` never waits, so the idle thread, which frees the threads that
have ended, does not run again. -/
theorem lower_never_runs {τ : Type*} [DecidableEq τ] {idle : τ} {priority : τ → Fin 32}
    {tick : τ → UInt32} {before : List (SchedulerEvent τ)} {s : Scheduler τ}
    (hs : (schedulerMachine τ).run (init idle priority tick) before = s) (hlock : s.lockNest = 0)
    {t : τ} (ht : s.Competes t) {after : List (SchedulerEvent τ)}
    (hafter : (schedulerMachine τ).Along (Spares t) s.rtSchedule after) {s' : Scheduler τ}
    (hs' : (schedulerMachine τ).run s (.schedule :: after) = s') :
    (s'.thread s'.current).currentPriority ≤ (s'.thread t).currentPriority := by
  have hvalid : s.Valid := hs ▸ valid_run idle priority tick before
  -- from the unlocked `rt_schedule` on both invariants hold
  have hrun : ((schedulerMachine τ).run s (.schedule :: after)).Valid ∧
      Leads t ((schedulerMachine τ).run s (.schedule :: after)) :=
    Machine.run_of_along (I := fun s => s.Valid ∧ Leads t s)
      (fun s e h he => ⟨h.1.next e, h.2.next h.1 he⟩)
      ⟨hvalid.rtSchedule, hvalid.leads_rtSchedule ht (.inl hlock)⟩ hafter
  rw [hs'] at hrun
  exact hrun.2.le

/-- The priority of the idle thread is raised, but not to that of the thread above. -/
theorem lower_never_runs_idle :
    ((schedulerMachine Bool).run
      ((schedulerMachine Bool).run (.init false (fun t => if t then 15 else 31) fun _ => 20)
        [.startup true, .resume true])
      [.schedule, .changePriority false 16, .tick, .schedule]).current ≠ false := by
  intro hidle
  have hle := @lower_never_runs Bool _ false (fun t => if t then 15 else 31) (fun _ => 20)
    [.startup true, .resume true] _ rfl rfl true (.inl (by decide))
    [.changePriority false 16, .tick, .schedule] (by decide) _ rfl
  -- if the idle thread were the current one, 16 would be at most 15
  rw [hidle] at hle
  exact absurd hle (by decide)

namespace Scheduler

variable {τ : Type*} {s s' : Scheduler τ} {t u : τ}

/-! ## Priorities and slices -/

/-- Nobody suspends or detaches the thread, it does not end, its priority stays, that of the current
thread is changed only to a higher one, and no tick comes while the scheduler is locked. -/
def KeepsTurn (t : τ) (s : Scheduler τ) : SchedulerEvent τ → Prop
  | .suspend u | .detach u => u ≠ t
  | .exit => s.current ≠ t
  | .changePriority u p => u ≠ t ∧ (s.current = u → p < (s.thread t).currentPriority)
  | .tick => s.lockNest = 0
  | _ => True

variable [DecidableEq τ]

theorem KeepsTurn.spares {e : SchedulerEvent τ} (he : s.KeepsTurn t e) (h : Leads t s) :
    s.Spares t e := by
  cases e with
  | suspend u | detach u => exact he
  | exit => exact he
  | changePriority u p =>
    obtain ⟨hne, hcurrent⟩ := he
    show (if s.current = u then p else _) ≤ if t = u then p else _
    rw [if_neg (Ne.symm hne)]
    -- the current thread has become more urgent still, or somebody else has changed
    split
    · exact (hcurrent ‹_›).le
    · exact h.le
  | startup u | resume u | schedule | tick | enterCritical | exitCritical => trivial

theorem plan_insertThread (s : Scheduler τ) (t u : τ) : (s.insertThread t).plan u = s.plan u := by
  unfold insertThread
  split
  · exact plan_setStat s t u .running
  · exact plan_enlist s t u

theorem plan_rtThreadResume (s : Scheduler τ) (t u : τ) :
    (s.rtThreadResume t).plan u = s.plan u := by
  unfold rtThreadResume
  split
  · exact plan_insertThread s t u
  · rfl

/-- **Step lemma**: only the tick changes what is left of a slice, and only the start of a thread
and a change of its priority change its priority. -/
theorem Valid.plan_next (h : s.Valid) {e : SchedulerEvent τ} (htick : e ≠ .tick)
    (hstartup : e ≠ .startup u) (hchange : ∀ p, e ≠ .changePriority u p) :
    ((schedulerMachine τ).next s e).plan u = s.plan u := by
  unfold Machine.next schedulerMachine
  cases e with
  | startup t =>
    have hne : u ≠ t := by
      rintro rfl
      exact hstartup rfl
    show (s.rtThreadStartup t).plan u = s.plan u
    unfold Scheduler.rtThreadStartup
    split
    · rw [plan, thread_modify, if_neg hne]
      rfl
    · rfl
  | suspend t =>
    show (s.rtThreadSuspend t).plan u = s.plan u
    unfold Scheduler.rtThreadSuspend
    split
    · exact plan_setStat (s.removeThread t) t u .suspend
    · exact plan_setStat (s.removeThread t) t u .suspend
    · rfl
  | resume t => exact plan_rtThreadResume s t u
  | changePriority t p =>
    have hne : u ≠ t := by
      rintro rfl
      exact hchange p rfl
    show (s.changePriority t p).plan u = s.plan u
    rw [plan, h.thread_changePriority, if_neg hne]
    rfl
  | detach t =>
    show (s.rtThreadDetach t).plan u = s.plan u
    unfold Scheduler.rtThreadDetach
    split
    · exact plan_modify s t u fun _ => ⟨rfl, rfl, rfl⟩
    · exact plan_modify (s.removeThread t) t u fun _ => ⟨rfl, rfl, rfl⟩
  -- the current thread leaves, and a switch follows
  | exit =>
    refine (h.close.scheduleMove.plan_eq u).trans ?_
    exact plan_modify (s.removeThread s.current) s.current u fun _ => ⟨rfl, rfl, rfl⟩
  | schedule => exact h.scheduleMove.plan_eq u
  | tick => exact absurd rfl htick
  | enterCritical => rfl
  | exitCritical =>
    show s.rtExitCritical.plan u = s.plan u
    unfold Scheduler.rtExitCritical
    split <;> rfl

/-- **Step lemma** for the tick: the current thread has one tick less, or a new slice. -/
theorem Valid.plan_tick (h : s.Valid) (u : τ) :
    s.rtTickIncrease.plan u =
      ((s.thread u).currentPriority, (s.thread u).initTick,
        if u = s.current then
          if (s.thread u).remainingTick - 1 = 0 then (s.thread u).initTick
          else (s.thread u).remainingTick - 1
        else (s.thread u).remainingTick) := by
  have hticked := h.modify_current
    (f := fun thread => { thread with remainingTick := thread.remainingTick - 1 }) rfl rfl
  have hcurrent : (s.modify s.current fun thread =>
      { thread with remainingTick := thread.remainingTick - 1 }).current = s.current := rfl
  unfold Scheduler.rtTickIncrease
  dsimp only
  rw [hcurrent, thread_modify, if_pos rfl]
  -- the last tick of the slice, or one of the others
  by_cases hzero : (s.thread s.current).remainingTick - 1 = 0
  · have hexpired := hticked.modify_current
      (f := fun thread => { thread with remainingTick := thread.initTick, yield := true }) rfl rfl
    rw [if_pos hzero]
    refine (hexpired.scheduleMove.plan_eq u).trans ?_
    rw [plan, thread_modify, hcurrent]
    by_cases hu : u = s.current
    · rw [if_pos hu, thread_modify, if_pos rfl, hu, if_pos rfl, if_pos hzero]
    · rw [if_neg hu, thread_modify, if_neg hu, if_neg hu]
  · rw [if_neg hzero, plan, thread_modify]
    by_cases hu : u = s.current
    · rw [if_pos hu, hu, if_pos rfl, if_neg hzero]
    · rw [if_neg hu, if_neg hu]

/-- **Step lemma**: a thread that competes keeps its priority. -/
theorem Valid.priority_next (h : s.Valid) (ht : s.Competes t) {e : SchedulerEvent τ}
    (he : s.KeepsTurn t e) :
    (((schedulerMachine τ).next s e).thread t).currentPriority = (s.thread t).currentPriority := by
  -- the tick gives and takes ticks, no priority
  by_cases htick : e = .tick
  · subst htick
    exact congrArg Prod.fst (h.plan_tick t)
  by_cases hstartup : e = .startup t
  · -- it has been started already
    subst hstartup
    show ((s.rtThreadStartup t).thread t).currentPriority = _
    unfold Scheduler.rtThreadStartup
    split
    · rename_i hinit
      rcases ht with ht | ht <;> rw [ht] at hinit <;> contradiction
    · rfl
  · refine priority_eq_of_plan (h.plan_next htick hstartup ?_)
    rintro p rfl
    exact he.1 rfl

/-! ## The turns of equals -/

/-- What is left of the slices of some threads. -/
def ticksLeft (s : Scheduler τ) (us : List τ) : ℕ :=
  (us.map fun u => (s.thread u).remainingTick.toNat).sum

/-- The threads of the same priority that come before. -/
def ahead (t : τ) (s : Scheduler τ) : List τ := s.ready.before (s.thread t).currentPriority t

/-- The ticks that the equals of a thread may have before its turn: what is left of the slice of the
current thread, if it is one of them, and of the slices of those that come before. -/
def wait (t : τ) (s : Scheduler τ) : ℕ :=
  (if (s.thread s.current).currentPriority = (s.thread t).currentPriority then
    (s.thread s.current).remainingTick.toNat else 0) + s.ticksLeft (s.ahead t)

omit [DecidableEq τ] in
theorem ticksLeft_congr {us : List τ}
    (h : ∀ u ∈ us, (s'.thread u).remainingTick = (s.thread u).remainingTick) :
    s'.ticksLeft us = s.ticksLeft us := by
  unfold ticksLeft
  rw [List.map_congr_left fun u hu => congrArg UInt32.toNat (h u hu)]

theorem ticksLeft_erase (s : Scheduler τ) {us : List τ} (hu : u ∈ us) :
    (s.thread u).remainingTick.toNat + s.ticksLeft (us.erase u) = s.ticksLeft us :=
  List.sum_map_erase (fun u => (s.thread u).remainingTick.toNat) hu

theorem ticksLeft_erase_le (s : Scheduler τ) (us : List τ) (u : τ) :
    s.ticksLeft (us.erase u) ≤ s.ticksLeft us := by
  -- one that is there pays, one that is not changes nothing
  by_cases hu : u ∈ us
  · exact Nat.le_of_add_left_le (ticksLeft_erase s hu).le
  · rw [List.erase_of_not_mem hu]

/-- Who comes before is ready, and so is not the current thread. -/
theorem Valid.not_mem_ahead (h : s.Valid) (t : τ) : s.current ∉ s.ahead t := by
  intro hmem
  exact h.current ((h.mem _ _).mp (Buckets.before_subset hmem)).1

/-- What changes no priority, no slice and not who comes before, changes nothing. -/
theorem wait_congr (hplan : ∀ u, s'.plan u = s.plan u) (hcurrent : s'.current = s.current)
    (hahead : s'.ahead t = s.ahead t) : s'.wait t = s.wait t := by
  have hticks : s'.ticksLeft (s.ahead t) = s.ticksLeft (s.ahead t) :=
    ticksLeft_congr fun u _ => congrArg (fun plan => plan.2.2) (hplan u)
  have hleft : (s'.thread s.current).remainingTick = (s.thread s.current).remainingTick :=
    congrArg (fun plan => plan.2.2) (hplan s.current)
  -- the two summands are equal one by one
  unfold wait
  rw [hcurrent, hahead, hticks, hleft, priority_eq_of_plan (hplan _), priority_eq_of_plan (hplan t)]

theorem ahead_enlist (h : s.Listed) (ht : (s.thread t).stat = .ready) (u : τ) :
    (s.enlist u).ahead t = s.ahead t := by
  unfold ahead
  rw [ready_enlist, priority_eq_of_plan (plan_enlist s u t)]
  exact Buckets.before_insert ((h.mem t _).mpr ⟨ht, rfl⟩) _ u

theorem Valid.ahead_relist (h : s.Valid) (ht : (s.thread t).stat = .ready) :
    s.relist.ahead t = s.ahead t := by
  have hmodified : (s.modify s.current fun thread => { thread with yield := false }).ahead t =
      s.ahead t := by
    unfold ahead
    rw [priority_eq_of_plan (plan_modify s s.current t (by intro _; exact ⟨rfl, rfl, rfl⟩))]
    rfl
  -- listing behind the equals puts nobody before `t`
  rw [Scheduler.relist, ahead_enlist (h.toListed.modify s.current Iff.rfl rfl) ?_, hmodified]
  rw [thread_modify, if_neg]
  · exact ht
  · rintro rfl
    exact h.current ht

/-- A switch to a thread that comes before, or has another priority. -/
theorem wait_switchTo (hne : u ≠ t)
    (hahead : (s.thread u).currentPriority = (s.thread t).currentPriority → u ∈ s.ahead t) :
    (s.switchTo u).wait t = s.ticksLeft (s.ahead t) := by
  have hplan := plan_switchTo s u
  have hticks (us : List τ) : (s.switchTo u).ticksLeft us = s.ticksLeft us :=
    ticksLeft_congr fun v _ => congrArg (fun plan => plan.2.2) (hplan v)
  have hleft : ((s.switchTo u).thread u).remainingTick = (s.thread u).remainingTick :=
    congrArg (fun plan => plan.2.2) (hplan u)
  have hbefore : (s.switchTo u).ahead t =
      if (s.thread t).currentPriority = (s.thread u).currentPriority then (s.ahead t).erase u
      else s.ahead t := by
    unfold ahead
    rw [priority_eq_of_plan (hplan t)]
    exact Buckets.before_remove hne _
  show (if ((s.switchTo u).thread u).currentPriority = _ then
    ((s.switchTo u).thread u).remainingTick.toNat else 0) + _ = _
  rw [hbefore, hticks, hleft, priority_eq_of_plan (hplan u), priority_eq_of_plan (hplan t)]
  -- the slice of an equal moves from the second summand to the first
  by_cases heq : (s.thread u).currentPriority = (s.thread t).currentPriority
  · rw [if_pos heq, if_pos heq.symm, ticksLeft_erase s (hahead heq)]
  · rw [if_neg heq, if_neg (Ne.symm heq), Nat.zero_add]

/-- **Step lemma** for `rt_schedule`: nothing changes, or the current thread has had its turn. -/
theorem Valid.wait_rtSchedule (h : s.Valid) (ht : (s.thread t).stat = .ready)
    (hne : s.rtSchedule.current ≠ t) :
    s.rtSchedule = s ∧ (s.lockNest = 0 →
        (s.thread s.current).currentPriority = (s.thread t).currentPriority →
          (s.thread s.current).yield = false) ∨
      s.rtSchedule.wait t = s.ticksLeft (s.ahead t) := by
  have hmove := h.scheduleMove
  -- the first of the list of `t` comes before `t`
  have hfirst : ∀ u, u ≠ t → (s.ready.table (s.thread u).currentPriority).head? = some u →
      (s.thread u).currentPriority = (s.thread t).currentPriority → u ∈ s.ahead t := by
    intro u hu hhead heq
    exact Buckets.mem_before_of_head? (heq ▸ hhead) hu
  generalize s.rtSchedule = s' at hmove hne ⊢
  -- where the current thread changes, what was left of its slice is no longer counted
  cases hmove with
  | stays hstays => exact .inl ⟨rfl, fun hlock => (hstays hlock t ht).2.2⟩
  | follows u _ _ hhead _ => exact .inr (wait_switchTo hne (hfirst u hne hhead))
  | preempts u _ hcurrent hhead _ _ =>
    refine .inr ((wait_switchTo (u := u) hne fun heq => ?_).trans ?_)
    · rw [priority_eq_of_plan (plan_relist s u), priority_eq_of_plan (plan_relist s t)] at heq
      rw [h.ahead_relist ht]
      exact hfirst u hne hhead heq
    · rw [h.ahead_relist ht]
      exact ticksLeft_congr fun v _ => congrArg (fun plan => plan.2.2) (plan_relist s v)

/-- Nobody has used up a slice without a new one. -/
def Slices (s : Scheduler τ) : Prop :=
  ∀ u, 0 < (s.thread u).initTick ∧ 0 < (s.thread u).remainingTick

theorem Valid.wait_rtSchedule_le (h : s.Valid) (ht : (s.thread t).stat = .ready)
    (hne : s.rtSchedule.current ≠ t) : s.rtSchedule.wait t ≤ s.wait t := by
  rcases h.wait_rtSchedule ht hne with ⟨hsame, -⟩ | hwait
  · rw [hsame]
  · rw [hwait]
    exact Nat.le_add_left _ _

/-- Another thread leaves. -/
theorem wait_removeThread_le (s : Scheduler τ) (hne : u ≠ t) :
    (s.removeThread u).wait t ≤ s.wait t := by
  have hahead : (s.removeThread u).ahead t =
      if (s.thread t).currentPriority = (s.thread u).currentPriority then (s.ahead t).erase u
      else s.ahead t := Buckets.before_remove hne _
  have hticks : s.ticksLeft ((s.removeThread u).ahead t) ≤ s.ticksLeft (s.ahead t) := by
    -- only an equal of `t` can have been before it
    rw [hahead]
    split
    · exact ticksLeft_erase_le s _ u
    · exact Nat.le_refl _
  exact Nat.add_le_add_left hticks _

theorem wait_modify (s : Scheduler τ) (t u : τ) {f : RtThread → RtThread}
    (hf : ∀ thread, (f thread).currentPriority = thread.currentPriority ∧
      (f thread).initTick = thread.initTick ∧ (f thread).remainingTick = thread.remainingTick) :
    (s.modify u f).wait t = s.wait t := by
  have hplan (v : τ) : (s.modify u f).plan v = s.plan v := plan_modify s u v hf
  refine wait_congr hplan rfl ?_
  unfold ahead
  rw [priority_eq_of_plan (hplan t)]
  rfl

theorem wait_insertThread (h : s.Listed) (ht : (s.thread t).stat = .ready) (u : τ) :
    (s.insertThread u).wait t = s.wait t := by
  unfold insertThread
  split
  · exact wait_modify s t u fun _ => ⟨rfl, rfl, rfl⟩
  · exact wait_congr (plan_enlist s u) rfl (ahead_enlist h ht u)

/-- Those that come before do not notice a change of the current thread. -/
theorem Valid.ticksLeft_modify_current (h : s.Valid) (hne : t ≠ s.current)
    (f : RtThread → RtThread) :
    (s.modify s.current f).ticksLeft ((s.modify s.current f).ahead t) =
      s.ticksLeft (s.ahead t) := by
  have hahead : (s.modify s.current f).ahead t = s.ahead t := by
    unfold ahead
    rw [thread_modify, if_neg hne]
    rfl
  rw [hahead]
  refine ticksLeft_congr fun u hu => ?_
  rw [thread_modify, if_neg]
  -- the current thread is not among them
  rintro rfl
  exact h.not_mem_ahead t hu

theorem Valid.wait_modify_current (h : s.Valid) (hne : t ≠ s.current) (f : RtThread → RtThread) :
    (s.modify s.current f).wait t =
      (if (f (s.thread s.current)).currentPriority = (s.thread t).currentPriority then
        (f (s.thread s.current)).remainingTick.toNat else 0) + s.ticksLeft (s.ahead t) := by
  unfold wait
  rw [h.ticksLeft_modify_current hne]
  show (if ((s.modify s.current f).thread s.current).currentPriority = _ then
    ((s.modify s.current f).thread s.current).remainingTick.toNat else 0) + _ = _
  rw [thread_modify, if_pos rfl, thread_modify, if_neg hne]

/-- The slice of the current thread is over, and it has had its turn. -/
theorem Valid.wait_expired (h : s.Valid) (ht : (s.thread t).stat = .ready) (hlock : s.lockNest = 0)
    {f : RtThread → RtThread} (hstat : (f (s.thread s.current)).stat = (s.thread s.current).stat)
    (hpriority : (f (s.thread s.current)).currentPriority = (s.thread s.current).currentPriority)
    (hyield : (f (s.thread s.current)).yield = true)
    (hne : (s.modify s.current f).rtSchedule.current ≠ t) :
    (s.modify s.current f).rtSchedule.wait t = s.ticksLeft (s.ahead t) := by
  have hother : t ≠ s.current := by
    rintro rfl
    exact h.current ht
  have hready : ((s.modify s.current f).thread t).stat = .ready := by
    rw [thread_modify, if_neg hother]
    exact ht
  rcases (h.modify_current hstat hpriority).wait_rtSchedule hready hne with ⟨hsame, hkept⟩ | hwait
  · -- it goes on, and so has another priority
    have hforeign : (s.thread s.current).currentPriority ≠ (s.thread t).currentPriority := by
      intro heq
      have hover := hkept hlock
      rw [show (s.modify s.current f).current = s.current from rfl, thread_modify, if_pos rfl,
        thread_modify, if_neg hother, hpriority, hyield] at hover
      exact Bool.noConfusion (hover heq)
    rw [hsame, h.wait_modify_current hother, hpriority, if_neg hforeign, Nat.zero_add]
  · rw [hwait, h.ticksLeft_modify_current hother]

/-- **Step lemma** for the tick: the equals of a thread that is ready pay for their ticks. -/
theorem Valid.wait_tick (h : s.Valid) (hslices : s.Slices) (ht : (s.thread t).stat = .ready)
    (hlock : s.lockNest = 0) (hne : s.rtTickIncrease.current ≠ t) :
    (if (s.thread s.current).currentPriority = (s.thread t).currentPriority then 1 else 0) +
      s.rtTickIncrease.wait t ≤ s.wait t := by
  have hother : t ≠ s.current := by
    rintro rfl
    exact h.current ht
  have hpos : 0 < (s.thread s.current).remainingTick.toNat := (hslices s.current).2
  -- an equal of `t` has a tick left to pay with
  have hpay :
      (if (s.thread s.current).currentPriority = (s.thread t).currentPriority then 1 else 0) ≤
      if (s.thread s.current).currentPriority = (s.thread t).currentPriority then
        (s.thread s.current).remainingTick.toNat else 0 := by
    split
    · exact hpos
    · exact Nat.le_refl _
  have hticked := h.modify_current
    (f := fun thread => { thread with remainingTick := thread.remainingTick - 1 }) rfl rfl
  have hahead := h.ticksLeft_modify_current hother
    fun thread => { thread with remainingTick := thread.remainingTick - 1 }
  unfold Scheduler.rtTickIncrease at hne ⊢
  dsimp only at hne ⊢
  -- the slice is over, or goes on with a tick less
  split at hne
  · rename_i hzero
    have hready : ((s.modify s.current fun thread =>
        { thread with remainingTick := thread.remainingTick - 1 }).thread t).stat = .ready := by
      rw [thread_modify, if_neg hother]
      exact ht
    rw [if_pos hzero, hticked.wait_expired hready hlock rfl rfl rfl hne, hahead]
    exact Nat.add_le_add_right hpay _
  · rename_i hnonzero
    have hwait := h.wait_modify_current hother
      fun thread => { thread with remainingTick := thread.remainingTick - 1 }
    have hminus : ((s.thread s.current).remainingTick - 1).toNat =
        (s.thread s.current).remainingTick.toNat - 1 := UInt32.toNat_sub_of_le _ _ hpos
    rw [if_neg hnonzero, hwait, hminus]
    unfold wait
    split
    · omega
    · omega

omit [DecidableEq τ] in
theorem slice_of_plan (hplan : s'.plan u = s.plan u)
    (h : 0 < (s.thread u).initTick ∧ 0 < (s.thread u).remainingTick) :
    0 < (s'.thread u).initTick ∧ 0 < (s'.thread u).remainingTick := by
  have hinit : (s'.thread u).initTick = (s.thread u).initTick :=
    congrArg (fun plan => plan.2.1) hplan
  have hleft : (s'.thread u).remainingTick = (s.thread u).remainingTick :=
    congrArg (fun plan => plan.2.2) hplan
  rw [hinit, hleft]
  exact h

/-- **Step lemma.** -/
theorem Slices.next (h : s.Slices) (hvalid : s.Valid) (e : SchedulerEvent τ) :
    ((schedulerMachine τ).next s e).Slices := by
  -- the tick renews a slice that is used up, and nothing else touches the slices
  by_cases htick : e = .tick
  · subst htick
    intro u
    have hplan := hvalid.plan_tick u
    have hinit : (s.rtTickIncrease.thread u).initTick = (s.thread u).initTick :=
      congrArg (fun plan => plan.2.1) hplan
    have hleft := congrArg (fun plan => plan.2.2) hplan
    refine ⟨hinit ▸ (h u).1, ?_⟩
    show 0 < (s.rtTickIncrease.thread u).remainingTick
    refine lt_of_lt_of_eq ?_ hleft.symm
    split
    · split
      · exact (h u).1
      · rename_i hnonzero
        exact UInt32.pos_iff_ne_zero.mpr hnonzero
    · exact (h u).2
  intro u
  by_cases hstartup : e = .startup u
  · subst hstartup
    show 0 < ((s.rtThreadStartup u).thread u).initTick ∧
      0 < ((s.rtThreadStartup u).thread u).remainingTick
    unfold Scheduler.rtThreadStartup
    split
    · rw [thread_modify, if_pos rfl]
      exact h u
    · exact h u
  by_cases hchange : ∃ p, e = .changePriority u p
  · obtain ⟨p, rfl⟩ := hchange
    show 0 < ((s.changePriority u p).thread u).initTick ∧
      0 < ((s.changePriority u p).thread u).remainingTick
    rw [hvalid.thread_changePriority, if_pos rfl]
    exact h u
  · exact slice_of_plan (hvalid.plan_next htick hstartup fun p hp => hchange ⟨p, hp⟩) (h u)

theorem stat_insertThread_of_ne (hne : t ≠ u) :
    ((s.insertThread u).thread t).stat = (s.thread t).stat := by
  unfold insertThread
  split
  · exact stat_modify_of_ne hne _
  · rw [thread_enlist, if_neg hne]

theorem stat_rtThreadResume_of_ne (hne : t ≠ u) :
    ((s.rtThreadResume u).thread t).stat = (s.thread t).stat := by
  unfold rtThreadResume
  split
  · exact stat_insertThread_of_ne hne
  · rfl

theorem wait_rtThreadResume (h : s.Listed) (ht : (s.thread t).stat = .ready) (u : τ) :
    (s.rtThreadResume u).wait t = s.wait t := by
  unfold rtThreadResume
  split
  · exact wait_insertThread h ht u
  · rfl

/-- A change of a thread that is not the current one and not this one. -/
theorem wait_modify_of_ne (hne : t ≠ u) (hcurrent : s.current ≠ u) {f : RtThread → RtThread}
    (hf : (f (s.thread u)).remainingTick = (s.thread u).remainingTick) :
    (s.modify u f).wait t = s.wait t := by
  have ht : (s.modify u f).thread t = s.thread t := by rw [thread_modify, if_neg hne]
  have hc : (s.modify u f).thread s.current = s.thread s.current := by
    rw [thread_modify, if_neg hcurrent]
  have hahead : (s.modify u f).ahead t = s.ahead t := by
    rw [ahead, ht]
    rfl
  have hticks : (s.modify u f).ticksLeft (s.ahead t) = s.ticksLeft (s.ahead t) := by
    refine ticksLeft_congr fun v _ => ?_
    rw [thread_modify]
    split
    · rename_i heq
      rw [hf, heq]
    · rfl
  unfold wait
  rw [hahead, hticks, ht]
  show (if ((s.modify u f).thread s.current).currentPriority = _ then
    ((s.modify u f).thread s.current).remainingTick.toNat else 0) + _ = _
  rw [hc]

theorem Valid.wait_rtThreadStartup (h : s.Valid) (ht : (s.thread t).stat = .ready) (u : τ) :
    (s.rtThreadStartup u).wait t = s.wait t := by
  unfold Scheduler.rtThreadStartup
  split
  · rename_i hinit
    refine wait_modify_of_ne ?_ (h.ne_current_of_init hinit).symm rfl
    -- `t` has been started already
    rintro rfl
    rw [ht] at hinit
    contradiction
  · rfl

/-- **Step lemma** for a change of the priority of another thread. One that is ready is listed
behind all of its new equals; the current one does not become an equal. -/
theorem Valid.wait_changePriority_le (h : s.Valid) (ht : (s.thread t).stat = .ready) (hne : u ≠ t)
    {p : Fin 32} (hcurrent : s.current = u → p < (s.thread t).currentPriority) :
    (s.changePriority u p).wait t ≤ s.wait t := by
  -- ready: from one list to another; else only the priority changes
  by_cases hu : (s.thread u).stat = .ready
  · have hother : s.current ≠ u := (h.ne_current_of_ready hu).symm
    -- between the two lists the thread is in none, as if it were suspended
    have hlisted := h.toListed.retire u
      (f := fun thread => { thread with stat := .suspend, currentPriority := p })
      ThreadStat.noConfusion
    have hready : (((s.removeThread u).modify u fun thread =>
        { thread with stat := .suspend, currentPriority := p }).thread t).stat = .ready := by
      rw [stat_modify_of_ne hne.symm]
      exact ht
    have hsame : s.changePriority u p = ((s.removeThread u).modify u fun thread =>
        { thread with stat := .suspend, currentPriority := p }).enlist u := by
      rw [h.changePriority_of_ready hu]
      simp [Scheduler.enlist, setStat, setPriority, modify]
    rw [hsame]
    calc _ = _ := wait_congr (plan_enlist _ u) rfl (ahead_enlist hlisted hready u)
      _ = (s.removeThread u).wait t := wait_modify_of_ne (s := s.removeThread u) hne.symm hother
        (f := fun thread => { thread with stat := .suspend, currentPriority := p }) rfl
      _ ≤ s.wait t := wait_removeThread_le s hne
  · rw [changePriority_of_ne hu, setPriority]
    -- the current thread goes above `t` and is not counted any more
    rcases eq_or_ne s.current u with rfl | hother
    · rw [h.wait_modify_current hne.symm, if_neg (hcurrent rfl).ne, Nat.zero_add]
      exact Nat.le_add_left _ _
    · exact (wait_modify_of_ne hne.symm hother rfl).le

theorem wait_rtThreadSuspend_le (s : Scheduler τ) (hne : u ≠ t) :
    (s.rtThreadSuspend u).wait t ≤ s.wait t := by
  have hsuspended : ((s.removeThread u).setStat u .suspend).wait t ≤ s.wait t :=
    (wait_modify _ t u (f := fun thread => { thread with stat := .suspend })
      fun _ => ⟨rfl, rfl, rfl⟩).trans_le (wait_removeThread_le s hne)
  unfold rtThreadSuspend
  split
  · exact hsuspended
  · exact hsuspended
  · exact Nat.le_refl _

theorem wait_close (s : Scheduler τ) (t u : τ) : (s.close u).wait t = s.wait t :=
  wait_modify s t u (f := fun thread => { thread with stat := .close, yield := false })
    fun _ => ⟨rfl, rfl, rfl⟩

theorem wait_rtThreadDetach_le (s : Scheduler τ) (hne : u ≠ t) :
    (s.rtThreadDetach u).wait t ≤ s.wait t := by
  unfold rtThreadDetach
  split
  · exact (wait_close s t u).le
  · exact (wait_close _ t u).trans_le (wait_removeThread_le s hne)

theorem Valid.wait_rtThreadExit_le (h : s.Valid) (ht : (s.thread t).stat = .ready)
    (hne : s.rtThreadExit.current ≠ t) : s.rtThreadExit.wait t ≤ s.wait t := by
  have hother : t ≠ s.current := h.ne_current_of_ready ht
  have hready := (stat_modify_of_ne (s := s.removeThread s.current) hother fun thread =>
    { thread with stat := .close, yield := false }).trans ht
  -- close, remove, schedule: none of them puts anybody before `t`
  calc _ ≤ _ := h.close.wait_rtSchedule_le hready hne
    _ = _ := wait_close _ t s.current
    _ ≤ s.wait t := wait_removeThread_le s hother.symm

theorem wait_rtExitCritical (s : Scheduler τ) (t : τ) : s.rtExitCritical.wait t = s.wait t := by
  unfold rtExitCritical
  split
  · exact wait_congr (fun _ => rfl) rfl rfl
  · exact wait_congr (fun _ => rfl) rfl rfl

/-- **Step lemma**: the equals of a thread that is ready pay for their ticks, and nothing takes it
further away from its turn. -/
theorem Valid.wait_next (h : s.Valid) (hslices : s.Slices) (ht : (s.thread t).stat = .ready)
    {e : SchedulerEvent τ} (he : s.KeepsTurn t e)
    (hne : ((schedulerMachine τ).next s e).current ≠ t) :
    ((schedulerMachine τ).emit s e).count (s.thread t).currentPriority +
      ((schedulerMachine τ).next s e).wait t ≤ s.wait t := by
  unfold Machine.next Machine.emit schedulerMachine at *
  cases e with
  -- only the tick shows anything; the others cost nothing
  | startup u => exact (Nat.zero_add _).le.trans (h.wait_rtThreadStartup ht u).le
  | suspend u => exact (Nat.zero_add _).le.trans (wait_rtThreadSuspend_le s he)
  | resume u => exact (Nat.zero_add _).le.trans (wait_rtThreadResume h.toListed ht u).le
  | changePriority u p =>
    exact (Nat.zero_add _).le.trans (h.wait_changePriority_le ht he.1 he.2)
  | detach u => exact (Nat.zero_add _).le.trans (wait_rtThreadDetach_le s he)
  | exit => exact (Nat.zero_add _).le.trans (h.wait_rtThreadExit_le ht hne)
  | schedule => exact (Nat.zero_add _).le.trans (h.wait_rtSchedule_le ht hne)
  | tick =>
    have htick := h.wait_tick hslices ht he hne
    have hpay : [(s.thread s.current).currentPriority].count (s.thread t).currentPriority =
        if (s.thread s.current).currentPriority = (s.thread t).currentPriority then 1 else 0 := by
      simp [List.count_singleton]
    exact (congrArg (· + s.rtTickIncrease.wait t) hpay).trans_le htick
  | enterCritical => exact (Nat.zero_add _).le.trans (wait_congr (fun _ => rfl) rfl rfl).le
  | exitCritical => exact (Nat.zero_add _).le.trans (wait_rtExitCritical s t).le

end Scheduler

open Scheduler in
/-- **Run lemma.** Time slices are not zero, and a thread can run when `rt_schedule` runs unlocked.
From then on nobody suspends or detaches it, it does not end, its priority stays, that of the
current thread is changed only to a higher one, and no tick comes while the scheduler is locked. As
soon as threads of its priority have had more ticks than were left of the slice of the current
thread, if it is one of them, and of the slices of those before it, it has been the current thread
itself, whatever else happens. -/
theorem turn_comes {τ : Type*} [DecidableEq τ] {idle : τ} {priority : τ → Fin 32}
    {tick : τ → UInt32} (htick : ∀ u, 0 < tick u) {before : List (SchedulerEvent τ)}
    {s : Scheduler τ} (hs : (schedulerMachine τ).run (init idle priority tick) before = s)
    (hlock : s.lockNest = 0) {t : τ} (ht : s.Competes t) {after : List (SchedulerEvent τ)}
    (hafter : (schedulerMachine τ).Along (KeepsTurn t) s.rtSchedule after)
    (hticks : s.rtSchedule.wait t <
      ((schedulerMachine τ).trace s.rtSchedule after).count (s.thread t).currentPriority) :
    ∃ turn, turn <+: after ∧ ((schedulerMachine τ).run s.rtSchedule turn).current = t := by
  have hvalid : s.Valid := hs ▸ valid_run idle priority tick before
  have hslices : s.Slices := by
    have hrun := Machine.run_invariant (m := schedulerMachine τ)
      (I := fun s => s.Valid ∧ s.Slices) (fun s e h => ⟨h.1.next e, h.2.next h.1 e⟩)
      ⟨valid_init idle priority tick, fun u => ⟨htick u, htick u⟩⟩ before
    exact (hs ▸ hrun).2
  have hplan := hvalid.scheduleMove.plan_eq
  generalize hpriority : (s.thread t).currentPriority = p at hticks
  -- suppose that `t` has not been the current thread
  by_contra hnever
  push Not at hnever
  -- it waits at every step, so each of the ticks is paid for
  have hwaits : (schedulerMachine τ).Along
      (fun s e => KeepsTurn t s e ∧ s.current ≠ t ∧ ((schedulerMachine τ).next s e).current ≠ t)
      s.rtSchedule after := by
    rw [Machine.along_iff_forall] at hafter ⊢
    rintro turn e rest rfl
    refine ⟨hafter turn e rest rfl, hnever turn (List.prefix_append _ _), ?_⟩
    have hnext := hnever (turn ++ [e]) ⟨rest, by simp⟩
    rwa [Machine.run_append] at hnext
  -- each tick of an equal takes one from `wait`, so there are too many of them
  have haccount := Machine.countP_trace_add_le (m := schedulerMachine τ)
    (I := fun s => s.Valid ∧ s.Slices ∧ Leads t s ∧ (s.thread t).currentPriority = p)
    (a := wait t) (p := (· == p)) ?_ ?_
    ⟨hvalid.rtSchedule, fun u => slice_of_plan (hplan u) (hslices u),
      hvalid.leads_rtSchedule ht (.inl hlock),
      (priority_eq_of_plan (hplan t)).trans hpriority⟩ hwaits
  · exact absurd hticks (Nat.not_lt.mpr (Nat.le_of_add_right_le haccount))
  · rintro s e ⟨hvalid, hslices, hleads, hpriority⟩ ⟨hkeeps, -, -⟩
    exact ⟨hvalid.next e, hslices.next hvalid e, hleads.next hvalid (hkeeps.spares hleads),
      (hvalid.priority_next hleads.competes hkeeps).trans hpriority⟩
  · rintro s e ⟨hvalid, hslices, hleads, hpriority⟩ ⟨hkeeps, hcurrent, hne⟩
    -- who competes and is not the current thread is ready
    have hready : (s.thread t).stat = .ready :=
      hleads.competes.resolve_right fun hrunning => hcurrent (hvalid.running t hrunning).symm
    rw [← hpriority]
    exact hvalid.wait_next hslices hready hkeeps hne

/-- The slice of the current thread has two ticks. -/
theorem turn_comes_third :
    ∃ turn, turn <+: [.tick, .tick, .tick] ∧ ((schedulerMachine Bool).run
      ((schedulerMachine Bool).run (.init false (fun _ => 31) fun _ => 2)
        [.startup true, .resume true]).rtSchedule turn).current = true :=
  @turn_comes Bool _ false (fun _ => 31) (fun _ => 2) (fun _ => by decide)
    [.startup true, .resume true] _ rfl rfl true (.inl (by decide)) _ ⟨rfl, rfl, rfl, trivial⟩
    (by decide)

end RobomasterFirmware.Kernel
