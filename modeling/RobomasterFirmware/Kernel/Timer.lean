import RobomasterFirmware.Lib.Machine
import Mathlib.Logic.Function.Basic

/-!
# The Kernel's Timers

`rt-thread/src/timer.c` under the tick of `rt-thread/src/clock.c`. The timers that run are linked
in one list (`RT_TIMER_SKIP_LIST_LEVEL` is 1), the earliest timeout first. The tick has 32 bits and
wraps; timeouts are compared by their difference, which the code takes for later if it is below
`RT_TICK_MAX / 2`.

The tick interrupt calls `rt_timer_check`, which runs with the interrupts off: threads and other
interrupts use the timers until it begins and after it ends. During a check the timeout functions
may use them too, each in any way.

Each use of a timer is one call that nothing interrupts half way, as is every call that is made with
the interrupts off: those of `thread.c`, `ipc.c` and `completion.c`, and all of the timeout
functions. Called with the interrupts on, `rt_timer_start` has two sections and reads `rt_tick`
between them, and `rt_timer_stop` clears the flag after its section; `rt_can_open`, `rt_can_close`
and `workqueue.c` call them so, which is modelled where nothing comes between these parts.

`RT_ASSERT` stops who fails it for good: a thread in its own loop, a timeout function with the whole
system.

Not modelled: soft timers (`RT_USING_TIMER_SOFT` is off), the object that holds a timer, and the
hooks.
-/

namespace RobomasterFirmware.Kernel

open RobomasterFirmware.Lib

/-! ## State -/

/-- `struct rt_timer`, with its flags `RT_TIMER_FLAG_PERIODIC` and `RT_TIMER_FLAG_ACTIVATED`. -/
structure RtTimer where
  initTick : UInt32
  timeoutTick : UInt32
  periodic : Bool
  activated : Bool
  deriving DecidableEq

/-- Whether `rt_timer_check` runs, and whether an assertion failed in it. -/
inductive CheckPhase where
  | idle
  | checking
  | stuck
  deriving DecidableEq

/-- `RT_TICK_MAX / 2` -/
def tickHalf : UInt32 := 0xffffffff / 2

/-- `rt_tick`, `rt_timer_list` and the timers. -/
structure TimerSystem (ι : Type*) where
  rtTick : UInt32
  phase : CheckPhase
  rtTimerList : List ι
  timer : ι → RtTimer

/-- A use of a timer. -/
inductive TimerOp (ι : Type*) where
  | start (i : ι)
  | stop (i : ι)
  /-- `rt_timer_detach`, and `rt_timer_delete`, which does the same to the list -/
  | detach (i : ι)
  /-- `rt_timer_control` with `RT_TIMER_CTRL_SET_TIME` -/
  | setTime (i : ι) (tick : UInt32)
  | setOneshot (i : ι)
  | setPeriodic (i : ι)

/-- The timer that is used. -/
def TimerOp.timer {ι : Type*} : TimerOp ι → ι
  | start i | stop i | detach i | setTime i _ | setOneshot i | setPeriodic i => i

/-- The tick interrupt comes, a timer is used outside the timeout functions, or the check goes once
through its loop; if it calls a timeout function, that uses timers in turn. -/
inductive TimerEvent (ι : Type*) where
  | tick
  | op (o : TimerOp ι)
  | check (timeoutFunc : List (TimerOp ι))

/-- A tick has passed, or the timeout function of a timer is called. -/
inductive TimerObs (ι : Type*) where
  | tick
  | timeout (i : ι)
  deriving DecidableEq

namespace TimerSystem

variable {ι : Type*} [DecidableEq ι]

/-- After `rt_timer_init` of every timer. -/
def init (time : ι → UInt32) (periodic : ι → Bool) : TimerSystem ι where
  rtTick := 0
  phase := .idle
  rtTimerList := []
  timer i := { initTick := time i, timeoutTick := 0, periodic := periodic i, activated := false }

/-- Changes one timer. -/
def modify (s : TimerSystem ι) (i : ι) (f : RtTimer → RtTimer) : TimerSystem ι :=
  { s with timer := Function.update s.timer i (f (s.timer i)) }

/-- `_rt_timer_remove` -/
def remove (s : TimerSystem ι) (i : ι) : TimerSystem ι :=
  { s with rtTimerList := s.rtTimerList.erase i }

/-- `flag &= ~RT_TIMER_FLAG_ACTIVATED` -/
def deactivate (s : TimerSystem ι) (i : ι) : TimerSystem ι :=
  s.modify i fun t => { t with activated := false }

/-- A failed `RT_ASSERT`. -/
def assertFailed (s : TimerSystem ι) : TimerSystem ι :=
  match s.phase with
  | .checking => { s with phase := .stuck }
  | _ => s

/-- The search of `rt_timer_start` for the place of timer `i`. -/
def insertTimer (timer : ι → RtTimer) (i : ι) : List ι → List ι
  | [] => [i]
  | t :: list =>
    if (timer t).timeoutTick - (timer i).timeoutTick = 0 then t :: insertTimer timer i list
    else if (timer t).timeoutTick - (timer i).timeoutTick < tickHalf then i :: t :: list
    else t :: insertTimer timer i list

/-- The first section of `rt_timer_start` -/
def startRemove (s : TimerSystem ι) (i : ι) : TimerSystem ι := (s.remove i).deactivate i

/-- `timeout_tick = rt_tick_get() + init_tick`, between the two sections of `rt_timer_start` -/
def startTimeout (s : TimerSystem ι) (i : ι) : TimerSystem ι :=
  s.modify i fun t => { t with timeoutTick := s.rtTick + t.initTick }

/-- The second section of `rt_timer_start` -/
def startInsert (s : TimerSystem ι) (i : ι) : TimerSystem ι :=
  { s with rtTimerList := insertTimer s.timer i s.rtTimerList }.modify i fun t =>
    { t with activated := true }

/-- `rt_timer_start` where nothing comes between its sections -/
def rtTimerStart (s : TimerSystem ι) (i : ι) : TimerSystem ι :=
  let s := s.startRemove i
  if (s.timer i).initTick < tickHalf then (s.startTimeout i).startInsert i else s.assertFailed

/-- `rt_timer_stop` where nothing comes between its section and the change of the flag -/
def rtTimerStop (s : TimerSystem ι) (i : ι) : TimerSystem ι :=
  if (s.timer i).activated then
    let s := s.remove i
    s.deactivate i
  else s

/-- A use of a timer; who is stuck does nothing more. -/
def op (s : TimerSystem ι) (o : TimerOp ι) : TimerSystem ι :=
  match s.phase, o with
  | .stuck, _ => s
  | _, .start i => s.rtTimerStart i
  | _, .stop i => s.rtTimerStop i
  | _, .detach i => s.remove i
  | _, .setTime i tick => s.modify i fun t => { t with initTick := tick }
  | _, .setOneshot i => s.modify i fun t => { t with periodic := false }
  | _, .setPeriodic i => s.modify i fun t => { t with periodic := true }

/-- What `rt_timer_check` does with a timer after the call of its timeout function. -/
def finish (s : TimerSystem ι) (i : ι) : TimerSystem ι :=
  match s.phase with
  | .stuck => s
  | _ =>
    if (s.timer i).periodic && (s.timer i).activated then (s.deactivate i).rtTimerStart i
    else s.deactivate i

/-- Once through the loop of `rt_timer_check`. -/
def rtTimerCheck (s : TimerSystem ι) (timeoutFunc : List (TimerOp ι)) :
    TimerSystem ι × List (TimerObs ι) :=
  match s.rtTimerList with
  | [] => ({ s with phase := .idle }, [])
  | t :: _ =>
    if s.rtTick - (s.timer t).timeoutTick < tickHalf then
      ((timeoutFunc.foldl op (s.remove t)).finish t, [.timeout t])
    else ({ s with phase := .idle }, [])

variable {s : TimerSystem ι} {i j : ι}

@[simp] theorem timer_modify_self (s : TimerSystem ι) (i : ι) (f : RtTimer → RtTimer) :
    (s.modify i f).timer i = f (s.timer i) := Function.update_self ..

theorem timer_modify_of_ne (hne : j ≠ i) (f : RtTimer → RtTimer) :
    (s.modify i f).timer j = s.timer j := Function.update_of_ne hne ..

theorem rtTimerCheck_of_nil (hlist : s.rtTimerList = []) (timeoutFunc : List (TimerOp ι)) :
    s.rtTimerCheck timeoutFunc = ({ s with phase := .idle }, []) := by
  unfold rtTimerCheck
  split
  · rfl
  · rename_i hcons
    exact absurd (hcons.symm.trans hlist) (List.cons_ne_nil _ _)

theorem rtTimerCheck_of_cons {t : ι} {list : List ι} (hlist : s.rtTimerList = t :: list)
    (timeoutFunc : List (TimerOp ι)) :
    s.rtTimerCheck timeoutFunc =
      if s.rtTick - (s.timer t).timeoutTick < tickHalf then
        ((timeoutFunc.foldl op (s.remove t)).finish t, [.timeout t])
      else ({ s with phase := .idle }, []) := by
  unfold rtTimerCheck
  split
  · rename_i hnil
    exact absurd (hlist.symm.trans hnil) (List.cons_ne_nil _ _)
  · rename_i hcons
    obtain ⟨rfl, -⟩ := List.cons.inj (hlist.symm.trans hcons)
    rfl

end TimerSystem

/-- The timers of the kernel; what cannot happen in a phase changes nothing. -/
def timerMachine (ι : Type*) [DecidableEq ι] :
    Machine (TimerSystem ι) (TimerEvent ι) (TimerObs ι) where
  step s e :=
    match s.phase, e with
    | .idle, .tick => ({ s with rtTick := s.rtTick + 1, phase := .checking }, [.tick])
    -- while the check has not begun, another interrupt may come in between
    | .idle, .op o | .checking, .op o => (s.op o, [])
    | .checking, .check timeoutFunc => s.rtTimerCheck timeoutFunc
    | _, _ => (s, [])

end RobomasterFirmware.Kernel
