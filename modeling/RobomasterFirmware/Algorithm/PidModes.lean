import RobomasterFirmware.Algorithm.Pid
import RobomasterFirmware.Lib.ControlLaw
import Mathlib.Tactic.Linarith

/-!
# The Two Modes of the PID Controller

`pid_calc` computes its output either from an accumulated integral (`POSITION_PID`) or by
accumulating increments (`DELTA_PID`). As long as no limit is active both compute the control law
of the errors accepted so far: each mode is shown to simulate the machine `controller`, with its
own account of what the record stores about the history. A sample that `max_err` or `deadband`
rejects is skipped by both, since both early returns come before the histories are shifted.

## Main Results
- `trace_eq_law`: either mode, while unsaturated, follows the control law
- `position_eq_delta`: hence the two return the same values
-/

namespace RobomasterFirmware.Algorithm

open RobomasterFirmware.Lib

/-! ## Limits -/

section Limits

variable {F : Type} [CFloat F]

/-- The calls of `abs_limit` that a control step makes: the argument, and the bound. -/
def Pid.controlLimits (pid : Pid F) : List (F × F) :=
  if pid.pidMode = POSITION_PID then
    [(pid.iout + pid.i * pid.err.now, CFloat.ofInt pid.integralLimit.toNat),
      ((positionStep pid).pout + (positionStep pid).iout + (positionStep pid).dout,
        CFloat.ofInt pid.maxOutput.toNat)]
  else if pid.pidMode = DELTA_PID then
    [(pid.i * pid.err.now, CFloat.ofInt pid.integralLimit.toNat),
      (pid.lastDeltaOut + (deltaStep pid).deltaU, CFloat.ofInt pid.maxOutput.toNat)]
  else []

/-- The calls of `abs_limit` that a call of `pid_calc` makes: none when it returns early. -/
def Pid.absLimitCalls (pid : Pid F) (s : Sample F) : List (F × F) :=
  if pid.rejects (s.set - s.get) then [] else (pid.sample s.get s.set).controlLimits

/-- No call of `abs_limit` changes its argument. -/
def Pid.Unsaturated (pid : Pid F) (s : Sample F) : Prop :=
  ∀ c ∈ pid.absLimitCalls s, absLimit c.1 c.2 = c.1

instance (pid : Pid ℚ) (s : Sample ℚ) : Decidable (pid.Unsaturated s) :=
  inferInstanceAs (Decidable (∀ c ∈ pid.absLimitCalls s, absLimit c.1 c.2 = c.1))

/-- A zeroed controller, configured. -/
def Pid.configured (mode : UInt32) (g : Gains F) (maxErr deadband : F)
    (maxOutput integralLimit : UInt32) : Pid F :=
  { Pid.zero with
    p := g.p, i := g.i, d := g.d, maxErr := maxErr, deadband := deadband, pidMode := mode,
    maxOutput := maxOutput, integralLimit := integralLimit }

end Limits

/-! ## What the record stores about the history -/

/-- The gains of a controller. -/
def Pid.gains (pid : Pid ℚ) : Gains ℚ := ⟨pid.p, pid.i, pid.d⟩

/-- The control law that a controller follows, with its early returns. -/
def Pid.law (pid : Pid ℚ) : Machine (List ℚ) ℚ ℚ := controller pid.gains pid.rejects

/-- What a controller configured as `pid₀` has stored after it has accepted the errors `es`: the
last two of them, and their integral or the last output, according to its mode. -/
structure Pid.Remembers (pid₀ pid : Pid ℚ) (es : List ℚ) : Prop where
  p : pid.p = pid₀.p
  i : pid.i = pid₀.i
  d : pid.d = pid₀.d
  maxErr : pid.maxErr = pid₀.maxErr
  deadband : pid.deadband = pid₀.deadband
  pidMode : pid.pidMode = pid₀.pidMode
  last : pid.err.last = recent es 0
  llast : pid.err.llast = recent es 1
  iout : pid₀.pidMode = POSITION_PID → pid.iout = pid₀.i * es.sum
  lastDeltaOut : pid₀.pidMode = DELTA_PID → pid.lastDeltaOut = controlLaw pid₀.gains es

variable {pid₀ pid : Pid ℚ} {es : List ℚ}

theorem Pid.remembers_nil (mode : UInt32) (g : Gains ℚ) (maxErr deadband : ℚ)
    (maxOutput integralLimit : UInt32) :
    (Pid.configured mode g maxErr deadband maxOutput integralLimit).Remembers
      (Pid.configured mode g maxErr deadband maxOutput integralLimit) [] where
  p := rfl
  i := rfl
  d := rfl
  maxErr := rfl
  deadband := rfl
  pidMode := rfl
  last := rfl
  llast := rfl
  iout _ := (mul_zero _).symm
  lastDeltaOut _ := (controlLaw_nil _).symm

/-- The decision to return early depends on the configuration only. -/
theorem Pid.Remembers.rejects (h : pid₀.Remembers pid es) (e : ℚ) :
    pid.rejects e = pid₀.rejects e := by
  unfold Pid.rejects
  rw [h.maxErr, h.deadband]

/-- A sample alone, without a shift, changes nothing that is remembered. -/
theorem Pid.Remembers.sample (h : pid₀.Remembers pid es) (get set : ℚ) :
    pid₀.Remembers (pid.sample get set) es := { h with }

/-! ## Unsaturated steps -/

/-- A position step without an active limit. -/
theorem positionStep_of_unsaturated (hmode : pid.pidMode = POSITION_PID)
    (h : ∀ c ∈ pid.controlLimits, absLimit c.1 c.2 = c.1) :
    (positionStep pid).iout = pid.iout + pid.i * pid.err.now ∧
      (positionStep pid).posOut =
        pid.p * pid.err.now + (pid.iout + pid.i * pid.err.now) +
          pid.d * (pid.err.now - pid.err.last) := by
  rw [Pid.controlLimits, if_pos hmode, List.forall_mem_cons, List.forall_mem_singleton] at h
  -- neither `abs_limit` changes anything: the integral and the output are what they were set to
  obtain ⟨hiout, hout⟩ := h
  have hiout' : (positionStep pid).iout = pid.iout + pid.i * pid.err.now := hiout
  have hposOut : (positionStep pid).posOut =
      (positionStep pid).pout + (positionStep pid).iout + (positionStep pid).dout := hout
  refine ⟨hiout', ?_⟩
  rw [hposOut, hiout']
  rfl

/-- An incremental step without an active limit. -/
theorem deltaStep_of_unsaturated (hmode : pid.pidMode = DELTA_PID)
    (h : ∀ c ∈ pid.controlLimits, absLimit c.1 c.2 = c.1) :
    (deltaStep pid).deltaOut =
      pid.lastDeltaOut +
        (pid.p * (pid.err.now - pid.err.last) + pid.i * pid.err.now +
          pid.d * (pid.err.now - 2 * pid.err.last + pid.err.llast)) := by
  rw [Pid.controlLimits, if_neg (ne_position_of_delta hmode), if_pos hmode, List.forall_mem_cons,
    List.forall_mem_singleton] at h
  -- the limits of the integral and of the output, in the order of their calls
  obtain ⟨hiout, hout⟩ := h
  have hiout' : (deltaStep pid).iout = pid.i * pid.err.now := hiout
  have hdeltaOut : (deltaStep pid).deltaOut = pid.lastDeltaOut + (deltaStep pid).deltaU := hout
  have hdeltaU : (deltaStep pid).deltaU =
      pid.p * (pid.err.now - pid.err.last) + (deltaStep pid).iout +
        pid.d * (pid.err.now - CFloat.ofInt 2 * pid.err.last + pid.err.llast) := rfl
  rw [hdeltaOut, hdeltaU, hiout', ofInt_rat, Int.cast_ofNat]

/-- A position step puts the new error into the history, and its output is the control law. -/
theorem Pid.Remembers.positionStep (h : pid₀.Remembers pid es) (hmode : pid₀.pidMode = POSITION_PID)
    (hlimits : ∀ c ∈ pid.controlLimits, absLimit c.1 c.2 = c.1) :
    pid₀.Remembers (positionStep pid).shift (pid.err.now :: es) ∧
      (Algorithm.positionStep pid).posOut = controlLaw pid₀.gains (pid.err.now :: es) := by
  obtain ⟨hiout, hout⟩ := positionStep_of_unsaturated (h.pidMode.trans hmode) hlimits
  rw [h.i, h.iout hmode] at hiout
  rw [h.p, h.i, h.d, h.iout hmode, h.last] at hout
  constructor
  -- the integral takes the new error in, and the history moves on by one
  · exact
      { h with
        last := rfl
        llast := h.last
        iout := fun _ => by
          rw [List.sum_cons, mul_add, add_comm]
          exact hiout
        lastDeltaOut := fun hdelta => absurd hmode (ne_position_of_delta hdelta) }
  -- the output is read off the history
  · rw [hout, controlLaw, recent_cons_zero, recent_cons_succ, List.sum_cons, Pid.gains]
    ring

/-- An incremental step does the same. -/
theorem Pid.Remembers.deltaStep (h : pid₀.Remembers pid es) (hmode : pid₀.pidMode = DELTA_PID)
    (hlimits : ∀ c ∈ pid.controlLimits, absLimit c.1 c.2 = c.1) :
    pid₀.Remembers (deltaStep pid).shift (pid.err.now :: es) ∧
      (Algorithm.deltaStep pid).deltaOut = controlLaw pid₀.gains (pid.err.now :: es) := by
  have hout := deltaStep_of_unsaturated (h.pidMode.trans hmode) hlimits
  rw [h.p, h.i, h.d, h.last, h.llast, h.lastDeltaOut hmode] at hout
  -- the increments so far add up to the control law, and so with the new one
  have hlaw : (Algorithm.deltaStep pid).deltaOut =
      controlLaw pid₀.gains (pid.err.now :: es) := hout.trans (controlLaw_cons _ _ _).symm
  refine ⟨?_, hlaw⟩
  exact
    { h with
      last := rfl
      llast := h.last
      iout := fun hpos => absurd hpos (ne_position_of_delta hmode)
      lastDeltaOut := fun _ => hlaw }

/-- Either way the output of an unsaturated control step is the control law. -/
theorem Pid.Remembers.control (h : pid₀.Remembers pid es)
    (hmode : pid₀.pidMode = POSITION_PID ∨ pid₀.pidMode = DELTA_PID)
    (hlimits : ∀ c ∈ pid.controlLimits, absLimit c.1 c.2 = c.1) :
    pid₀.Remembers pid.control.shift (pid.err.now :: es) ∧
      pid.control.output = controlLaw pid₀.gains (pid.err.now :: es) := by
  -- by the mode
  rcases hmode with hpos | hdelta
  · have hmode' := h.pidMode.trans hpos
    rw [Pid.control_of_position hmode', output_positionStep hmode']
    exact h.positionStep hpos hlimits
  · have hmode' := h.pidMode.trans hdelta
    rw [Pid.control_of_delta hmode', output_deltaStep hmode']
    exact h.deltaStep hdelta hlimits

/-! ## Simulation -/

/-- **Step lemma.** An unsaturated call is a step of the control law. -/
theorem Pid.Remembers.next (hmode : pid₀.pidMode = POSITION_PID ∨ pid₀.pidMode = DELTA_PID)
    (h : pid₀.Remembers pid es) {s : Sample ℚ} (hs : pid.Unsaturated s) :
    pid₀.Remembers (pidMachine.next pid s) (pid₀.law.next es s.err) ∧
      pidMachine.emit pid s = pid₀.law.emit es s.err := by
  have hrejects : pid.rejects s.err = pid₀.rejects s.err := h.rejects s.err
  unfold Pid.Unsaturated Pid.absLimitCalls at hs
  by_cases hrej : pid₀.rejects s.err = true
  · -- rejected: both leave the history as it is
    have hcalc : pidCalc pid s.get s.set = (pid.sample s.get s.set, 0) := by
      rw [pidCalc_eq]
      exact if_pos (hrejects.trans hrej)
    have hlaw : pid₀.law.step es s.err = (es, [0]) := step_controller_of_rejects hrej es
    simp only [Machine.next, Machine.emit, pidMachine, hcalc, hlaw]
    exact ⟨h.sample s.get s.set, trivial⟩
  · -- accepted: a control step, with its limits not active
    have hacc : ¬ pid.rejects (s.set - s.get) = true := fun hr => hrej (hrejects.symm.trans hr)
    have hcalc := pidCalc_of_accepts hacc
    have hlaw : pid₀.law.step es s.err = (s.err :: es, [controlLaw pid₀.gains (s.err :: es)]) :=
      step_controller_of_accepts hrej es
    rw [if_neg hacc] at hs
    obtain ⟨hnext, hout⟩ := (h.sample s.get s.set).control hmode hs
    simp only [Machine.next, Machine.emit, pidMachine, hcalc, hlaw, hout]
    exact ⟨hnext, rfl⟩

/-- **Run lemma.** While unsaturated, a controller in either mode follows the control law. -/
theorem trace_eq_law {mode : UInt32} (hmode : mode = POSITION_PID ∨ mode = DELTA_PID)
    (g : Gains ℚ) (maxErr deadband : ℚ) (maxOutput integralLimit : UInt32)
    {samples : List (Sample ℚ)}
    (h : pidMachine.Along Pid.Unsaturated
      (Pid.configured mode g maxErr deadband maxOutput integralLimit) samples) :
    pidMachine.trace (Pid.configured mode g maxErr deadband maxOutput integralLimit) samples =
      (Pid.configured mode g maxErr deadband maxOutput integralLimit).law.trace []
        (samples.map Sample.err) :=
  (Machine.simulates_of_along (fun _ _ _ hr hs => hr.next hmode hs)
    (Pid.remembers_nil mode g maxErr deadband maxOutput integralLimit) h).2

/-- **The modes agree.** While no limit is active in either, the position controller and the
incremental controller return the same value at every call. -/
theorem position_eq_delta (g : Gains ℚ) (maxErr deadband : ℚ) (maxOutput integralLimit : UInt32)
    (samples : List (Sample ℚ))
    (hposition : pidMachine.Along Pid.Unsaturated
      (Pid.configured POSITION_PID g maxErr deadband maxOutput integralLimit) samples)
    (hdelta : pidMachine.Along Pid.Unsaturated
      (Pid.configured DELTA_PID g maxErr deadband maxOutput integralLimit) samples) :
    pidMachine.trace (Pid.configured POSITION_PID g maxErr deadband maxOutput integralLimit)
        samples =
      pidMachine.trace (Pid.configured DELTA_PID g maxErr deadband maxOutput integralLimit)
        samples := by
  -- the two configurations have the same gains and reject the same errors
  rw [trace_eq_law (.inl rfl) g maxErr deadband maxOutput integralLimit hposition,
    trace_eq_law (.inr rfl) g maxErr deadband maxOutput integralLimit hdelta]
  rfl

/-- Six samples: one beyond `max_err`, one inside the dead band. -/
def mixedSamples : List (Sample ℚ) :=
  [⟨0, 10⟩, ⟨3, 10⟩, ⟨0, 200⟩, ⟨9, 10⟩, ⟨20, 10⟩, ⟨12, 10⟩]

theorem position_eq_delta_mixedSamples :
    pidMachine.trace (Pid.configured POSITION_PID ⟨5, 1 / 2, 1 / 10⟩ 100 2 30000 5000)
        mixedSamples =
      pidMachine.trace (Pid.configured DELTA_PID ⟨5, 1 / 2, 1 / 10⟩ 100 2 30000 5000)
        mixedSamples :=
  position_eq_delta ⟨5, 1 / 2, 1 / 10⟩ 100 2 30000 5000 mixedSamples (by decide +kernel)
    (by decide +kernel)

end RobomasterFirmware.Algorithm
