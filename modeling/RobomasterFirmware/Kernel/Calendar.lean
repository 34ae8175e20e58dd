import RobomasterFirmware.Kernel.Timer
import RobomasterFirmware.Lib.Agenda
import Mathlib.Tactic.Common

/-!
# Timers as a Calendar

What the timers are for: a calendar of timeouts over a time that never wraps. `timer.c` refines it
in every run, for any number of ticks: nobody sees that `rt_tick` wraps.

## Main Results
- `Refines.next`: each step of the timers is a step of the calendar
- `timerMachine_refines`: the timers call the timeout functions of the calendar, in its order
-/

namespace RobomasterFirmware.Kernel

open RobomasterFirmware.Lib
open RobomasterFirmware.Lib.Agenda

/-! ## The calendar -/

/-- A timer but for its next timeout. -/
structure Alarm where
  delay : ℕ
  periodic : Bool
  activated : Bool

/-- The longest delay `rt_timer_start` accepts, and one more. -/
def delayLimit : ℕ := 2 ^ 31 - 1

/-- The time, the timeouts to come and the timers. -/
structure Calendar (ι : Type*) where
  now : ℕ
  phase : CheckPhase
  agenda : Agenda ι
  alarm : ι → Alarm

namespace Calendar

variable {ι : Type*} [DecidableEq ι]

def init (time : ι → UInt32) (periodic : ι → Bool) : Calendar ι where
  now := 0
  phase := .idle
  agenda := []
  alarm i := { delay := (time i).toNat, periodic := periodic i, activated := false }

def modify (c : Calendar ι) (i : ι) (f : Alarm → Alarm) : Calendar ι :=
  { c with alarm := Function.update c.alarm i (f (c.alarm i)) }

def remove (c : Calendar ι) (i : ι) : Calendar ι := { c with agenda := c.agenda.cancel i }

def deactivate (c : Calendar ι) (i : ι) : Calendar ι :=
  c.modify i fun t => { t with activated := false }

def assertFailed (c : Calendar ι) : Calendar ι :=
  match c.phase with
  | .checking => { c with phase := .stuck }
  | _ => c

/-- A started timer is due when its delay has passed. -/
def start (c : Calendar ι) (i : ι) : Calendar ι :=
  let c := (c.remove i).deactivate i
  -- `RT_ASSERT(timer->init_tick < RT_TICK_MAX / 2)`
  if (c.alarm i).delay < delayLimit then
    let c := { c with agenda := schedule (i, c.now + (c.alarm i).delay) c.agenda }
    c.modify i fun t => { t with activated := true }
  else c.assertFailed

def stop (c : Calendar ι) (i : ι) : Calendar ι :=
  -- a timer that is not activated is refused with `-RT_ERROR`
  if (c.alarm i).activated then (c.remove i).deactivate i else c

def op (c : Calendar ι) (o : TimerOp ι) : Calendar ι :=
  match c.phase, o with
  | .stuck, _ => c
  | _, .start i => c.start i
  | _, .stop i => c.stop i
  | _, .detach i => c.remove i
  | _, .setTime i tick => c.modify i fun t => { t with delay := tick.toNat }
  | _, .setOneshot i => c.modify i fun t => { t with periodic := false }
  | _, .setPeriodic i => c.modify i fun t => { t with periodic := true }

def finish (c : Calendar ι) (i : ι) : Calendar ι :=
  match c.phase with
  | .stuck => c
  | _ =>
    -- the timeout function may have stopped the timer, or made it oneshot
    if (c.alarm i).periodic && (c.alarm i).activated then (c.deactivate i).start i
    else c.deactivate i

/-- Once through the loop of a check: what is due first is due at all, or nothing is. -/
def check (c : Calendar ι) (timeoutFunc : List (TimerOp ι)) : Calendar ι × List (TimerObs ι) :=
  match c.agenda with
  | [] => ({ c with phase := .idle }, [])
  | e :: _ =>
    if e.2 ≤ c.now then ((timeoutFunc.foldl op (c.remove e.1)).finish e.1, [.timeout e.1])
    else ({ c with phase := .idle }, [])

end Calendar

/-- The calendar as time passes. -/
def calendarMachine (ι : Type*) [DecidableEq ι] :
    Machine (Calendar ι) (TimerEvent ι) (TimerObs ι) where
  step c e :=
    match c.phase, e with
    -- the next tick comes when the check of the last one has ended
    | .idle, .tick => ({ c with now := c.now + 1, phase := .checking }, [.tick])
    | .idle, .op o | .checking, .op o => (c.op o, [])
    | .checking, .check timeoutFunc => c.check timeoutFunc
    | _, _ => (c, [])

/-! ## What holds of a calendar -/

namespace Calendar

variable {ι : Type*} {c : Calendar ι} {i : ι}

/-- Nothing is overdue between two checks, and by one tick at most during one; nothing is due beyond
the longest delay. -/
structure Valid (c : Calendar ι) : Prop where
  sorted : c.agenda.Sorted
  single : c.agenda.Single
  now_le : ∀ e ∈ c.agenda, c.now ≤ e.2 + if c.phase = .idle then 0 else 1
  lt_limit : ∀ e ∈ c.agenda, e.2 < c.now + delayLimit

theorem valid_init (time : ι → UInt32) (periodic : ι → Bool) : (init time periodic).Valid where
  sorted := List.Pairwise.nil
  single := List.nodup_nil
  now_le := List.forall_mem_nil _
  lt_limit := List.forall_mem_nil _

theorem Valid.assertFailed (h : c.Valid) : c.assertFailed.Valid := by
  unfold Calendar.assertFailed
  split
  · rename_i hphase
    refine ⟨h.sorted, h.single, fun e he => ?_, h.lt_limit⟩
    -- a stuck check may be late by its tick, as a running one
    have hle := h.now_le e he
    rw [hphase] at hle
    exact hle
  · exact h

/-- The check ends: what is first is not due, so nothing is. -/
theorem Valid.idle (h : c.Valid) (hlt : ∀ e ∈ c.agenda.head?, c.now < e.2) :
    Valid { c with phase := .idle } ∧ ∀ e ∈ c.agenda, c.now < e.2 := by
  have hall : ∀ e ∈ c.agenda, c.now < e.2 := by
    cases hq : c.agenda with
    | nil => exact List.forall_mem_nil _
    | cons f q =>
      intro e he
      have hf : c.now < f.2 := hlt f (by rw [hq]; rfl)
      exact Nat.lt_of_lt_of_le hf ((hq ▸ h.sorted).head_le e he)
  exact ⟨⟨h.sorted, h.single, fun e he => Nat.le_of_lt (hall e he), h.lt_limit⟩, hall⟩

/-- A timeout within the longest delay is put on the agenda. -/
theorem Valid.insert (h : c.Valid) (hi : i ∉ c.agenda.map Prod.fst)
    (hdelay : (c.alarm i).delay < delayLimit) :
    Valid { c with agenda := schedule (i, c.now + (c.alarm i).delay) c.agenda } where
  sorted := h.sorted.schedule _
  single := h.single.schedule hi
  now_le e he := by
    -- the new timeout lies in the future, and less than the longest delay away
    rcases mem_schedule.mp he with rfl | he
    · exact Nat.le_add_right_of_le (Nat.le_add_right _ _)
    · exact h.now_le e he
  lt_limit e he := by
    rcases mem_schedule.mp he with rfl | he
    · exact Nat.add_lt_add_left hdelay _
    · exact h.lt_limit e he

variable [DecidableEq ι]

theorem Valid.modify (h : c.Valid) (i : ι) (f : Alarm → Alarm) : (c.modify i f).Valid :=
  ⟨h.sorted, h.single, h.now_le, h.lt_limit⟩

theorem Valid.remove (h : c.Valid) (i : ι) : (c.remove i).Valid where
  sorted := h.sorted.cancel i
  single := h.single.cancel i
  now_le e he := h.now_le e (mem_cancel.mp he).1
  lt_limit e he := h.lt_limit e (mem_cancel.mp he).1

theorem check_of_nil (hq : c.agenda = []) (timeoutFunc : List (TimerOp ι)) :
    c.check timeoutFunc = ({ c with phase := .idle }, []) := by
  unfold Calendar.check
  split
  · rfl
  · rename_i hcons
    exact absurd (hcons.symm.trans hq) (List.cons_ne_nil _ _)

theorem check_of_cons {e : ι × ℕ} {q : Agenda ι} (hq : c.agenda = e :: q)
    (timeoutFunc : List (TimerOp ι)) :
    c.check timeoutFunc =
      if e.2 ≤ c.now then ((timeoutFunc.foldl op (c.remove e.1)).finish e.1, [.timeout e.1])
      else ({ c with phase := .idle }, []) := by
  unfold Calendar.check
  split
  · rename_i hnil
    exact absurd (hq.symm.trans hnil) (List.cons_ne_nil _ _)
  · rename_i hcons
    obtain ⟨rfl, -⟩ := List.cons.inj (hq.symm.trans hcons)
    rfl

/-- **Step lemma** for `rt_timer_start`. -/
theorem Valid.start (h : c.Valid) (i : ι) : (c.start i).Valid := by
  have hremoved : ((c.remove i).deactivate i).Valid := (h.remove i).modify i _
  unfold Calendar.start
  dsimp only
  -- within the longest delay the timeout is scheduled, else an assertion fails
  split
  · rename_i hdelay
    exact (hremoved.insert (not_mem_cancel i c.agenda) hdelay).modify i _
  · exact hremoved.assertFailed

theorem Valid.op (h : c.Valid) (o : TimerOp ι) : (c.op o).Valid := by
  unfold Calendar.op
  split
  · exact h
  · exact h.start _
  · unfold Calendar.stop
    split
    · exact (h.remove _).modify _ _
    · exact h
  · exact h.remove _
  · exact h.modify _ _
  · exact h.modify _ _
  · exact h.modify _ _

theorem Valid.foldl_op (h : c.Valid) (os : List (TimerOp ι)) :
    (os.foldl Calendar.op c).Valid := by
  -- the uses come one after the other
  induction os generalizing c with
  | nil => exact h
  | cons o os ih => exact ih (h.op o)

theorem Valid.finish (h : c.Valid) (i : ι) : (c.finish i).Valid := by
  unfold Calendar.finish
  split
  · exact h
  -- a periodic timer is started again
  · split
    · exact (h.modify i _).start i
    · exact h.modify i _

/-- The moves of a calendar: the time passes, a timer is used, a check ends or calls a timeout
function, or nothing happens. -/
inductive Move (c : Calendar ι) : TimerEvent ι → Calendar ι → List (TimerObs ι) → Prop
  | tick (hphase : c.phase = .idle) :
    Move c .tick { c with now := c.now + 1, phase := .checking } [.tick]
  | op (hphase : c.phase ≠ .stuck) (o : TimerOp ι) : Move c (.op o) (c.op o) []
  | ends (hphase : c.phase = .checking) (hlt : ∀ e ∈ c.agenda.head?, c.now < e.2)
      (timeoutFunc : List (TimerOp ι)) :
    Move c (.check timeoutFunc) { c with phase := .idle } []
  | fires (hphase : c.phase = .checking) (e : ι × ℕ) (he : e ∈ c.agenda.head?) (hle : e.2 ≤ c.now)
      (timeoutFunc : List (TimerOp ι)) :
    Move c (.check timeoutFunc) ((timeoutFunc.foldl Calendar.op (c.remove e.1)).finish e.1)
      [.timeout e.1]
  | stay (e : TimerEvent ι) (hcheck : ∀ f, e = .check f → c.phase ≠ .checking) : Move c e c []

theorem move (c : Calendar ι) (e : TimerEvent ι) :
    Move c e ((calendarMachine ι).next c e) ((calendarMachine ι).emit c e) := by
  unfold Machine.next Machine.emit calendarMachine
  dsimp only
  cases hphase : c.phase with
  | idle =>
    cases e with
    | tick => exact .tick hphase
    | op o => exact .op (by simp [hphase]) o
    | check timeoutFunc => exact .stay _ (by simp [hphase])
  -- in a check the agenda decides: empty, first timeout due, or first timeout still ahead
  | checking =>
    cases e with
    | tick => exact .stay _ (by simp)
    | op o => exact .op (by simp [hphase]) o
    | check timeoutFunc =>
      dsimp only
      cases hq : c.agenda with
      | nil =>
        rw [check_of_nil hq]
        exact .ends hphase (by simp [hq]) timeoutFunc
      | cons e q =>
        rw [check_of_cons hq]
        by_cases hle : e.2 ≤ c.now
        · rw [if_pos hle]
          exact .fires hphase e (by simp [hq]) hle timeoutFunc
        · rw [if_neg hle]
          exact .ends hphase (by simpa [hq] using hle) timeoutFunc
  | stuck => exact .stay _ (by simp [hphase])

/-- **Step lemma.** -/
theorem Valid.next (h : c.Valid) (e : TimerEvent ι) : ((calendarMachine ι).next c e).Valid := by
  have hmove := c.move e
  generalize (calendarMachine ι).next c e = c', (calendarMachine ι).emit c e = os at hmove ⊢
  cases hmove with
  -- nothing was overdue, so a tick later it is so by one at most
  | tick hphase =>
    refine ⟨h.sorted, h.single, fun e he => ?_, fun e he => ?_⟩
    · have hle := h.now_le e he
      rw [hphase] at hle
      simpa using hle
    · exact Nat.lt_of_lt_of_le (h.lt_limit e he) (Nat.add_le_add_right (Nat.le_succ _) _)
  | op _ o => exact h.op o
  | ends _ hlt _ => exact (h.idle hlt).1
  -- the timeout leaves the agenda before its function runs
  | fires _ e _ _ timeoutFunc => exact ((h.remove e.1).foldl_op timeoutFunc).finish e.1
  | stay _ _ => exact h

end Calendar

/-! ## Refinement -/

/-- The half turn as a number. -/
theorem toNat_tickHalf : tickHalf.toNat = delayLimit := by decide

/-- The comparison of `timer.c` tells which of two times is later. -/
theorem sub_lt_tickHalf {a b : ℕ} (ha : a < b + delayLimit) (hb : b ≤ a + delayLimit) :
    UInt32.ofNat a - UInt32.ofNat b < tickHalf ↔ b ≤ a := by
  rw [UInt32.lt_iff_toNat_lt, toNat_tickHalf]
  unfold delayLimit at *
  -- the difference wraps if the first time is the earlier one, and is more than half a turn then
  rcases Nat.lt_or_ge a b with hlt | hle
  · rw [wrap_sub_of_lt hlt (by omega)]
    omega
  · rw [wrap_sub_of_le hle (by omega)]
    omega

theorem sub_eq_zero_iff {a b : ℕ} (ha : a < b + delayLimit) (hb : b ≤ a + delayLimit) :
    UInt32.ofNat a - UInt32.ofNat b = 0 ↔ a = b := by
  rw [← UInt32.toNat_inj, UInt32.toNat_zero]
  unfold delayLimit at *
  -- less than a full turn apart, so equal modulo the turn means equal
  rcases Nat.lt_or_ge a b with hlt | hle
  · rw [wrap_sub_of_lt hlt (by omega)]
    omega
  · rw [wrap_sub_of_le hle (by omega)]
    omega

/-- A timer without its next timeout. -/
def RtTimer.toAlarm (t : RtTimer) : Alarm where
  delay := t.initTick.toNat
  periodic := t.periodic
  activated := t.activated

section

variable {ι : Type*}

/-- The timers show the calendar, modulo `2 ^ 32`. -/
structure Refines (s : TimerSystem ι) (c : Calendar ι) : Prop where
  valid : c.Valid
  rtTick : s.rtTick = UInt32.ofNat c.now
  phase : s.phase = c.phase
  list : s.rtTimerList = c.agenda.map Prod.fst
  timeoutTick : ∀ e ∈ c.agenda, (s.timer e.1).timeoutTick = UInt32.ofNat e.2
  alarm : ∀ i, (s.timer i).toAlarm = c.alarm i

theorem refines_init (time : ι → UInt32) (periodic : ι → Bool) :
    Refines (.init time periodic) (.init time periodic) where
  valid := Calendar.valid_init time periodic
  rtTick := rfl
  phase := rfl
  list := rfl
  timeoutTick := List.forall_mem_nil _
  alarm _ := rfl

end

/-- The search of `rt_timer_start` finds the place on the agenda. -/
theorem insertTimer_eq {ι : Type*} {timer : ι → RtTimer} {i : ι} {d : ℕ} {q : Agenda ι}
    (hi : (timer i).timeoutTick = UInt32.ofNat d)
    (hq : ∀ e ∈ q, (timer e.1).timeoutTick = UInt32.ofNat e.2)
    (hlt : ∀ e ∈ q, e.2 < d + delayLimit) (hle : ∀ e ∈ q, d ≤ e.2 + delayLimit) :
    TimerSystem.insertTimer timer i (q.map Prod.fst) = (schedule (i, d) q).map Prod.fst := by
  -- induction on the agenda: all of it lies within half a turn of the new timeout
  induction q with
  | nil => rfl
  | cons e q ih =>
    obtain ⟨hqe, hq⟩ := List.forall_mem_cons.mp hq
    obtain ⟨hlte, hlt⟩ := List.forall_mem_cons.mp hlt
    obtain ⟨hlee, hle⟩ := List.forall_mem_cons.mp hle
    rw [List.map_cons, TimerSystem.insertTimer, schedule, ih hq hlt hle, hqe, hi]
    simp only [sub_eq_zero_iff hlte hlee, sub_lt_tickHalf hlte hlee]
    -- the code passes the equal and the earlier ones in two branches
    rcases Nat.lt_trichotomy e.2 d with h | h | h
    · rw [if_neg (Nat.ne_of_lt h), if_neg (Nat.not_le.mpr h), if_pos (Nat.le_of_lt h),
        List.map_cons]
    · rw [if_pos h, if_pos (Nat.le_of_eq h), List.map_cons]
    · rw [if_neg (Nat.ne_of_gt h), if_pos (Nat.le_of_lt h), if_neg (Nat.not_le.mpr h),
        List.map_cons, List.map_cons]

namespace Refines

variable {ι : Type*} {s : TimerSystem ι} {c : Calendar ι}

theorem assertFailed (h : Refines s c) : Refines s.assertFailed c.assertFailed := by
  have hvalid := h.valid.assertFailed
  unfold Calendar.assertFailed at hvalid ⊢
  unfold TimerSystem.assertFailed
  cases hphase : c.phase with
  | checking =>
    rw [hphase] at hvalid
    rw [h.phase, hphase]
    exact ⟨hvalid, h.rtTick, rfl, h.list, h.timeoutTick, h.alarm⟩
  | idle | stuck =>
    rw [h.phase, hphase]
    exact h

/-- The check ends. -/
theorem idle (h : Refines s c) (hlt : ∀ e ∈ c.agenda.head?, c.now < e.2) :
    Refines { s with phase := .idle } { c with phase := .idle } :=
  ⟨(h.valid.idle hlt).1, h.rtTick, rfl, h.list, h.timeoutTick, h.alarm⟩

variable [DecidableEq ι]

/-- A change of a timer that leaves its next timeout as it is. -/
theorem modify (h : Refines s c) (i : ι) {f : RtTimer → RtTimer} {g : Alarm → Alarm}
    (htimeout : ∀ t, (f t).timeoutTick = t.timeoutTick)
    (halarm : ∀ t, (f t).toAlarm = g t.toAlarm) :
    Refines (s.modify i f) (c.modify i g) where
  valid := h.valid.modify i g
  rtTick := h.rtTick
  phase := h.phase
  list := h.list
  timeoutTick e he := by
    rw [← h.timeoutTick e he]
    show (Function.update s.timer i (f (s.timer i)) e.1).timeoutTick = _
    -- the next timeout stays, for the changed timer too
    rcases eq_or_ne e.1 i with heq | hne
    · rw [heq, Function.update_self, htimeout]
    · rw [Function.update_of_ne hne]
  alarm j := by
    show (Function.update s.timer i (f (s.timer i)) j).toAlarm =
      Function.update c.alarm i (g (c.alarm i)) j
    rcases eq_or_ne j i with rfl | hne
    · rw [Function.update_self, Function.update_self, halarm, h.alarm]
    · rw [Function.update_of_ne hne, Function.update_of_ne hne, h.alarm]

theorem deactivate (h : Refines s c) (i : ι) : Refines (s.deactivate i) (c.deactivate i) :=
  h.modify i (fun _ => rfl) fun _ => rfl

theorem remove (h : Refines s c) (i : ι) : Refines (s.remove i) (c.remove i) where
  valid := h.valid.remove i
  rtTick := h.rtTick
  phase := h.phase
  list := by
    show s.rtTimerList.erase i = (cancel i c.agenda).map Prod.fst
    -- a timer is linked once, so unlinking and cancelling agree
    rw [map_cancel, h.list, List.Nodup.erase_eq_filter h.valid.single]
    exact List.filter_congr fun j _ => by rw [bne, beq_eq_decide, decide_not]
  timeoutTick e he := h.timeoutTick e (mem_cancel.mp he).1
  alarm := h.alarm

/-- A timer that is not linked is given its timeout and linked in its place. -/
theorem insert (h : Refines s c) {i : ι} (hi : i ∉ c.agenda.map Prod.fst)
    (hdelay : (c.alarm i).delay < delayLimit) (f : RtTimer → RtTimer)
    (hf : f (s.timer i) = { s.timer i with timeoutTick := s.rtTick + (s.timer i).initTick }) :
    Refines
      { s.modify i f with
        rtTimerList := TimerSystem.insertTimer (s.modify i f).timer i s.rtTimerList }
      { c with agenda := schedule (i, c.now + (c.alarm i).delay) c.agenda } := by
  have hself : (s.modify i f).timer i = f (s.timer i) := Function.update_self ..
  have hother : ∀ j, j ≠ i → (s.modify i f).timer j = s.timer j :=
    fun j hj => Function.update_of_ne hj ..
  have hnew : ((s.modify i f).timer i).timeoutTick = UInt32.ofNat (c.now + (c.alarm i).delay) := by
    have hdelay : UInt32.ofNat (c.alarm i).delay = (s.timer i).initTick := by
      rw [← h.alarm i]
      exact UInt32.ofNat_toNat
    rw [hself, hf, UInt32.ofNat_add, ← h.rtTick, hdelay]
  have hold : ∀ e ∈ c.agenda, ((s.modify i f).timer e.1).timeoutTick = UInt32.ofNat e.2 := by
    intro e he
    rw [hother e.1 fun heq => hi (heq ▸ List.mem_map_of_mem he), h.timeoutTick e he]
  refine ⟨h.valid.insert hi hdelay, h.rtTick, h.phase, ?_, ?_, ?_⟩
  · show TimerSystem.insertTimer (s.modify i f).timer i s.rtTimerList = _
    rw [h.list]
    -- half a turn bounds both what is due and the new timeout
    refine insertTimer_eq hnew hold (fun e he => ?_) fun e he => ?_
    · have hlt := h.valid.lt_limit e he
      omega
    · have hle := h.valid.now_le e he
      split at hle <;> omega
  · intro e he
    -- the new timer shows its own timeout, the others still show theirs
    rcases mem_schedule.mp he with rfl | he
    · exact hnew
    · exact hold e he
  · intro j
    rw [← h.alarm j]
    rcases eq_or_ne j i with rfl | hne
    · show ((s.modify j f).timer j).toAlarm = _
      rw [hself, hf]
      rfl
    · exact congrArg RtTimer.toAlarm (hother j hne)

/-- **Step lemma** for `rt_timer_start`. -/
theorem start (h : Refines s c) (i : ι) : Refines (s.rtTimerStart i) (c.start i) := by
  have hoff : Refines (s.startRemove i) _ := (h.remove i).deactivate i
  have hnot : i ∉ ((c.remove i).deactivate i).agenda.map Prod.fst := not_mem_cancel i c.agenda
  unfold TimerSystem.rtTimerStart Calendar.start
  dsimp only
  generalize s.startRemove i = s' at hoff ⊢
  generalize (c.remove i).deactivate i = c' at hoff hnot ⊢
  have hiff : (s'.timer i).initTick < tickHalf ↔ (c'.alarm i).delay < delayLimit := by
    rw [UInt32.lt_iff_toNat_lt, toNat_tickHalf, ← hoff.alarm i]
    rfl
  -- the two halves of `rt_timer_start` meet on the same test
  by_cases hlimit : (c'.alarm i).delay < delayLimit
  · rw [if_pos hlimit, if_pos (hiff.mpr hlimit)]
    exact (hoff.insert hnot hlimit _ rfl).modify (g := fun t => { t with activated := true }) i
      (fun _ => rfl) fun _ => rfl
  · rw [if_neg hlimit, if_neg (mt hiff.mp hlimit)]
    exact hoff.assertFailed

theorem stop (h : Refines s c) (i : ι) : Refines (s.rtTimerStop i) (c.stop i) := by
  have hactivated : (s.timer i).activated = (c.alarm i).activated :=
    congrArg Alarm.activated (h.alarm i)
  unfold TimerSystem.rtTimerStop Calendar.stop
  rw [hactivated]
  split
  · exact (h.remove i).deactivate i
  · exact h

theorem op (h : Refines s c) (o : TimerOp ι) : Refines (s.op o) (c.op o) := by
  unfold TimerSystem.op Calendar.op
  rw [h.phase]
  cases c.phase with
  | stuck => exact h
  | idle | checking =>
    cases o with
    | start i => exact h.start i
    | stop i => exact h.stop i
    | detach i => exact h.remove i
    | setTime i tick => exact h.modify i (fun _ => rfl) fun _ => rfl
    | setOneshot i => exact h.modify i (fun _ => rfl) fun _ => rfl
    | setPeriodic i => exact h.modify i (fun _ => rfl) fun _ => rfl

theorem foldl_op (h : Refines s c) (os : List (TimerOp ι)) :
    Refines (os.foldl TimerSystem.op s) (os.foldl Calendar.op c) := by
  -- the invariant goes from use to use
  induction os generalizing s c with
  | nil => exact h
  | cons o os ih => exact ih (h.op o)

theorem finish (h : Refines s c) (i : ι) : Refines (s.finish i) (c.finish i) := by
  have hflags : ((s.timer i).periodic && (s.timer i).activated) =
      ((c.alarm i).periodic && (c.alarm i).activated) := by
    rw [← h.alarm i]
    rfl
  unfold TimerSystem.finish Calendar.finish
  rw [h.phase, hflags]
  cases c.phase with
  | stuck => exact h
  | idle | checking =>
    dsimp only
    -- `RT_TIMER_FLAG_PERIODIC` and `RT_TIMER_FLAG_ACTIVATED`, tested after the timeout function
    split
    · exact (h.deactivate i).start i
    · exact h.deactivate i

omit [DecidableEq ι] in
/-- The comparison of `rt_timer_check` tells what is due. -/
theorem due_iff (h : Refines s c) {e : ι × ℕ} (he : e ∈ c.agenda) :
    s.rtTick - (s.timer e.1).timeoutTick < tickHalf ↔ e.2 ≤ c.now := by
  have hle := h.valid.now_le e he
  have hlt := h.valid.lt_limit e he
  rw [h.rtTick, h.timeoutTick e he, sub_lt_tickHalf _ (Nat.le_of_lt hlt)]
  unfold delayLimit
  -- a timeout is late by one tick at most, far from half a turn
  split at hle <;> omega

/-- **Step lemma** for `rt_timer_check`. -/
theorem check (h : Refines s c) (timeoutFunc : List (TimerOp ι)) :
    Refines (s.rtTimerCheck timeoutFunc).1 (c.check timeoutFunc).1 ∧
      (s.rtTimerCheck timeoutFunc).2 = (c.check timeoutFunc).2 := by
  -- the list is empty exactly where the agenda is
  cases hq : c.agenda with
  | nil =>
    have hlist : s.rtTimerList = [] := by rw [h.list, hq, List.map_nil]
    rw [TimerSystem.rtTimerCheck_of_nil hlist, Calendar.check_of_nil hq]
    exact ⟨h.idle (by simp [hq]), rfl⟩
  | cons e q =>
    have he : e ∈ c.agenda := hq ▸ List.mem_cons_self
    have hlist : s.rtTimerList = e.1 :: q.map Prod.fst := by rw [h.list, hq, List.map_cons]
    rw [TimerSystem.rtTimerCheck_of_cons hlist, Calendar.check_of_cons hq]
    -- the comparison modulo the turn agrees with the one of the calendar
    by_cases hle : e.2 ≤ c.now
    · rw [if_pos hle, if_pos ((h.due_iff he).mpr hle)]
      exact ⟨((h.remove e.1).foldl_op timeoutFunc).finish e.1, rfl⟩
    · rw [if_neg hle, if_neg (mt (h.due_iff he).mp hle)]
      exact ⟨h.idle (by simpa [hq] using hle), rfl⟩

/-- **Step lemma.** -/
theorem next (h : Refines s c) (e : TimerEvent ι) :
    Refines ((timerMachine ι).next s e) ((calendarMachine ι).next c e) ∧
      (timerMachine ι).emit s e = (calendarMachine ι).emit c e := by
  have hvalid := h.valid.next e
  unfold Machine.next Machine.emit timerMachine
  unfold Machine.next at hvalid
  unfold calendarMachine at hvalid ⊢
  dsimp only at hvalid ⊢
  rw [h.phase]
  -- the phases agree, so both machines take the same branch
  cases hphase : c.phase with
  | idle =>
    rw [hphase] at hvalid
    cases e with
    | tick =>
      refine ⟨⟨hvalid, ?_, rfl, h.list, h.timeoutTick, h.alarm⟩, rfl⟩
      rw [UInt32.ofNat_add, ← h.rtTick]
      rfl
    | op o => exact ⟨h.op o, rfl⟩
    | check timeoutFunc => exact ⟨h, rfl⟩
  | checking =>
    cases e with
    | tick => exact ⟨h, rfl⟩
    | op o => exact ⟨h.op o, rfl⟩
    | check timeoutFunc => exact h.check timeoutFunc
  | stuck => exact ⟨h, rfl⟩

end Refines

/-- **Run lemma.** -/
theorem Refines.run {ι : Type*} [DecidableEq ι] {s : TimerSystem ι} {c : Calendar ι}
    (h : Refines s c) (es : List (TimerEvent ι)) :
    Refines ((timerMachine ι).run s es) ((calendarMachine ι).run c es) ∧
      (timerMachine ι).trace s es = (calendarMachine ι).trace c es := by
  have hrun := Machine.simulates_of_along (n := calendarMachine ι) (R := Refines) (f := id)
    (P := fun _ _ => True) (fun s c e h _ => h.next e) h
    (show (timerMachine ι).Along _ s es from Machine.along_of_forall (fun _ _ => trivial) s)
  rwa [List.map_id] at hrun

/-- **Run lemma.** Over any number of ticks, and however threads and timeout functions use the
timers, the timeout functions are called that the calendar calls, in its order and between the same
ticks. -/
theorem timerMachine_refines {ι : Type*} [DecidableEq ι] (time : ι → UInt32) (periodic : ι → Bool)
    (es : List (TimerEvent ι)) :
    Refines ((timerMachine ι).run (.init time periodic) es)
        ((calendarMachine ι).run (.init time periodic) es) ∧
      (timerMachine ι).trace (.init time periodic) es =
        (calendarMachine ι).trace (.init time periodic) es :=
  (refines_init time periodic).run es

end RobomasterFirmware.Kernel
