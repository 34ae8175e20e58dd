import RobomasterFirmware.Algorithm.Pid
import Mathlib.Tactic.Ring

/-!
# The Symmetry of the PID Controller

In exact arithmetic a controller treats both directions alike: with every signal negated, inputs,
memory and all, it computes the negated output. This holds in either mode, with limits active or
not, and for samples that are rejected.

## Main Results
- `pidCalc_mirror`: `pid_calc` commutes with the change of sign
-/

namespace RobomasterFirmware.Algorithm

open RobomasterFirmware.Lib

/-! ## Mirrored controllers -/

/-- A history with the sign changed. -/
def History.mirror (h : History ℚ) : History ℚ := ⟨-h.llast, -h.last, -h.now⟩

/-- A controller with the sign of every signal changed; gains, limits and mode are the same. -/
def Pid.mirror (pid : Pid ℚ) : Pid ℚ :=
  { pid with
    set := pid.set.mirror
    get := pid.get.mirror
    err := pid.err.mirror
    pout := -pid.pout
    iout := -pid.iout
    dout := -pid.dout
    posOut := -pid.posOut
    lastPosOut := -pid.lastPosOut
    deltaU := -pid.deltaU
    deltaOut := -pid.deltaOut
    lastDeltaOut := -pid.lastDeltaOut }

/-! ## The parts of a call -/

/-- The macro `ABS` is the absolute value. -/
theorem ABS_rat (x : ℚ) : ABS x = |x| := by
  unfold ABS
  split_ifs with h
  · exact (abs_of_pos h).symm
  · exact (abs_of_nonpos (not_lt.mp h)).symm

theorem absLimit_neg (a : ℚ) {m : ℚ} (hm : 0 ≤ m) : absLimit (-a) m = -absLimit a m := by
  rw [absLimit_eq_saturate _ hm, absLimit_eq_saturate _ hm, saturate_neg hm]

/-- Early returns look at the absolute value only. -/
theorem Pid.rejects_mirror (pid : Pid ℚ) (e : ℚ) : pid.mirror.rejects (-e) = pid.rejects e := by
  unfold Pid.rejects
  rw [ABS_rat, ABS_rat, abs_neg]
  rfl

theorem Pid.sample_mirror (pid : Pid ℚ) (get set : ℚ) :
    pid.mirror.sample (-get) (-set) = (pid.sample get set).mirror := by
  have herr : -set - -get = -(set - get) := by ring
  simp only [Pid.sample, Pid.mirror, History.mirror, herr]

theorem Pid.shift_mirror (pid : Pid ℚ) : pid.mirror.shift = pid.shift.mirror := rfl

theorem Pid.output_mirror (pid : Pid ℚ) : pid.mirror.output = -pid.output := by
  rw [Pid.output, Pid.output, apply_ite Neg.neg]
  rfl

theorem positionStep_mirror (pid : Pid ℚ) :
    positionStep pid.mirror = (positionStep pid).mirror := by
  have hI : (0 : ℚ) ≤ CFloat.ofInt pid.integralLimit.toNat := Nat.cast_nonneg _
  have hM : (0 : ℚ) ≤ CFloat.ofInt pid.maxOutput.toNat := Nat.cast_nonneg _
  -- each assignment in turn computes the negated value
  have hpout : pid.p * -pid.err.now = -(pid.p * pid.err.now) := mul_neg _ _
  have hiout : -pid.iout + pid.i * -pid.err.now = -(pid.iout + pid.i * pid.err.now) := by ring
  have hdout : pid.d * (-pid.err.now - -pid.err.last) =
      -(pid.d * (pid.err.now - pid.err.last)) := by ring
  have hsum (a b c : ℚ) : -a + -b + -c = -(a + b + c) := by ring
  simp only [positionStep, Pid.mirror, History.mirror, hpout, hiout, hdout, absLimit_neg _ hI, hsum,
    absLimit_neg _ hM]

theorem deltaStep_mirror (pid : Pid ℚ) : deltaStep pid.mirror = (deltaStep pid).mirror := by
  have hI : (0 : ℚ) ≤ CFloat.ofInt pid.integralLimit.toNat := Nat.cast_nonneg _
  have hM : (0 : ℚ) ≤ CFloat.ofInt pid.maxOutput.toNat := Nat.cast_nonneg _
  have hpout : pid.p * (-pid.err.now - -pid.err.last) =
      -(pid.p * (pid.err.now - pid.err.last)) := by ring
  have hiout : pid.i * -pid.err.now = -(pid.i * pid.err.now) := mul_neg _ _
  have hdout : pid.d * (-pid.err.now - CFloat.ofInt 2 * -pid.err.last + -pid.err.llast) =
      -(pid.d * (pid.err.now - CFloat.ofInt 2 * pid.err.last + pid.err.llast)) := by ring
  have hsum (a b c : ℚ) : -a + -b + -c = -(a + b + c) := by ring
  have hdeltaOut (u : ℚ) : -pid.lastDeltaOut + -u = -(pid.lastDeltaOut + u) := by ring
  simp only [deltaStep, Pid.mirror, History.mirror, hpout, hiout, hdout, absLimit_neg _ hI, hsum,
    hdeltaOut, absLimit_neg _ hM]

theorem Pid.control_mirror (pid : Pid ℚ) : pid.mirror.control = pid.control.mirror := by
  unfold Pid.control
  -- the mode is the same on both sides
  change (if pid.pidMode = POSITION_PID then _ else if pid.pidMode = DELTA_PID then _ else _) = _
  split_ifs
  · exact positionStep_mirror pid
  · exact deltaStep_mirror pid
  · rfl

/-! ## A call -/

/-- **Symmetry.** On negated inputs the mirrored controller returns the negated value, and is again
the mirror image afterwards. -/
theorem pidCalc_mirror (pid : Pid ℚ) (get set : ℚ) :
    pidCalc pid.mirror (-get) (-set) =
      ((pidCalc pid get set).1.mirror, -(pidCalc pid get set).2) := by
  have herr : -set - -get = -(set - get) := by ring
  rw [pidCalc_eq, pidCalc_eq, herr, Pid.rejects_mirror, Pid.sample_mirror, Pid.control_mirror,
    Pid.shift_mirror, Pid.output_mirror]
  split_ifs
  · rw [neg_zero]
  · rfl

end RobomasterFirmware.Algorithm
