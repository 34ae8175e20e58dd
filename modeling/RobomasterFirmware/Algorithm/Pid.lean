import RobomasterFirmware.Lib.CFloat
import RobomasterFirmware.Lib.Machine
import RobomasterFirmware.Lib.Saturate

/-!
# The PID Controller

`Algorithm/pid.c`: the controller record, its initialisation and one controller step, in position
and in incremental mode. The two function pointers of the record are left out: the initialisation
calls one of them right after setting it, and nothing calls the other.

## Main Results
- `abs_iout_pidCalc_le`, `abs_pidCalc_le`: a call in position mode leaves the integral within
  `IntegralLimit`, and returns a value within `MaxOutput`, whatever it is given
-/

namespace RobomasterFirmware.Algorithm

open RobomasterFirmware.Lib

/-! ## The controller record -/

/-- The positions `LLAST`, `LAST` and `NOW` of a history array. -/
structure History (F : Type) where
  llast : F
  last : F
  now : F
  deriving DecidableEq, Repr

/-- `uint32_t pid_mode`, of which `POSITION_PID` and `DELTA_PID` are named. -/
def POSITION_PID : UInt32 := 3

/-- The incremental mode. -/
def DELTA_PID : UInt32 := 4

/-- `pid_t`. -/
structure Pid (F : Type) where
  p : F
  i : F
  d : F
  set : History F
  get : History F
  err : History F
  pout : F
  iout : F
  dout : F
  posOut : F
  lastPosOut : F
  deltaU : F
  deltaOut : F
  lastDeltaOut : F
  maxErr : F
  deadband : F
  pidMode : UInt32
  maxOutput : UInt32
  integralLimit : UInt32
  deriving DecidableEq, Repr

section Controller

variable {F : Type} [CFloat F]

/-- A zero-initialised history array. -/
def History.zero : History F := ⟨0, 0, 0⟩

/-- A zero-initialised controller. -/
def Pid.zero : Pid F where
  p := 0
  i := 0
  d := 0
  set := .zero
  get := .zero
  err := .zero
  pout := 0
  iout := 0
  dout := 0
  posOut := 0
  lastPosOut := 0
  deltaU := 0
  deltaOut := 0
  lastDeltaOut := 0
  maxErr := 0
  deadband := 0
  pidMode := 0
  maxOutput := 0
  integralLimit := 0

/-- `pid_param_init`. -/
def pidParamInit (pid : Pid F) (mode maxout intergralLimit : UInt32) (kp ki kd : F) : Pid F :=
  { pid with
    integralLimit := intergralLimit, maxOutput := maxout, pidMode := mode, p := kp, i := ki,
    d := kd }

/-- `PID_struct_init`. -/
def pidStructInit (pid : Pid F) (mode maxout intergralLimit : UInt32) (kp ki kd : F) : Pid F :=
  pidParamInit pid mode maxout intergralLimit kp ki kd

/-- The macro `ABS`. -/
def ABS (x : F) : F := if x > 0 then x else -x

/-- `abs_limit`. -/
def absLimit (a absMax : F) : F :=
  let a := if a > absMax then absMax else a
  if a < -absMax then -absMax else a

/-- The `POSITION_PID` branch of `pid_calc`. -/
def positionStep (pid : Pid F) : Pid F :=
  let pid := { pid with pout := pid.p * pid.err.now }
  let pid := { pid with iout := pid.iout + pid.i * pid.err.now }
  let pid := { pid with dout := pid.d * (pid.err.now - pid.err.last) }
  let pid := { pid with iout := absLimit pid.iout (CFloat.ofInt pid.integralLimit.toNat) }
  let pid := { pid with posOut := pid.pout + pid.iout + pid.dout }
  let pid := { pid with posOut := absLimit pid.posOut (CFloat.ofInt pid.maxOutput.toNat) }
  { pid with lastPosOut := pid.posOut }

/-- The `DELTA_PID` branch of `pid_calc`. -/
def deltaStep (pid : Pid F) : Pid F :=
  let pid := { pid with pout := pid.p * (pid.err.now - pid.err.last) }
  let pid := { pid with iout := pid.i * pid.err.now }
  let pid := { pid with
    dout := pid.d * (pid.err.now - CFloat.ofInt 2 * pid.err.last + pid.err.llast) }
  let pid := { pid with iout := absLimit pid.iout (CFloat.ofInt pid.integralLimit.toNat) }
  let pid := { pid with deltaU := pid.pout + pid.iout + pid.dout }
  let pid := { pid with deltaOut := pid.lastDeltaOut + pid.deltaU }
  let pid := { pid with deltaOut := absLimit pid.deltaOut (CFloat.ofInt pid.maxOutput.toNat) }
  { pid with lastDeltaOut := pid.deltaOut }

/-- The assignments at the start of `pid_calc`: the new sample goes into the `NOW` positions. -/
def Pid.sample (pid : Pid F) (get set : F) : Pid F :=
  { pid with get.now := get, set.now := set, err.now := set - get }

/-- `h[LLAST] = h[LAST]; h[LAST] = h[NOW]`. -/
def History.shift (h : History F) : History F :=
  { h with llast := h.last, last := h.now }

/-- The assignments at the end of `pid_calc`: the three histories move by one position. -/
def Pid.shift (pid : Pid F) : Pid F :=
  { pid with err := pid.err.shift, get := pid.get.shift, set := pid.set.shift }

/-- The two branches of `pid_calc` on the mode. -/
def Pid.control (pid : Pid F) : Pid F :=
  if pid.pidMode = POSITION_PID then positionStep pid
  else if pid.pidMode = DELTA_PID then deltaStep pid
  else pid

/-- `pid_calc`: the controller after the call, and the value returned. -/
def pidCalc (pid : Pid F) (get set : F) : Pid F × F :=
  let pid := pid.sample get set
  -- the early returns keep the histories as they are
  if pid.maxErr != 0 && decide (ABS pid.err.now > pid.maxErr) then (pid, 0)
  else if pid.deadband != 0 && decide (ABS pid.err.now < pid.deadband) then (pid, 0)
  else
    let pid := pid.control.shift
    (pid, if pid.pidMode = POSITION_PID then pid.posOut else pid.deltaOut)

end Controller

/-! ## What a call does -/

section Calls

variable {F : Type} [CFloat F]

/-- The two comparisons that make `pid_calc` return early, for a new error `e`. -/
def Pid.rejects (pid : Pid F) (e : F) : Bool :=
  pid.maxErr != 0 && decide (ABS e > pid.maxErr) ||
    pid.deadband != 0 && decide (ABS e < pid.deadband)

/-- The value that `pid_calc` returns after a control step. -/
def Pid.output (pid : Pid F) : F :=
  if pid.pidMode = POSITION_PID then pid.posOut else pid.deltaOut

/-- A call either returns early with zero and only the sample stored, or makes a control step,
shifts the histories, and returns the output of its mode. -/
theorem pidCalc_eq (pid : Pid F) (get set : F) :
    pidCalc pid get set =
      if pid.rejects (set - get) then (pid.sample get set, 0)
      else ((pid.sample get set).control.shift, (pid.sample get set).control.output) := by
  -- the two comparisons in one
  unfold Pid.rejects
  simp only [Bool.or_eq_true, ite_or]
  rfl

theorem pidCalc_of_accepts {pid : Pid F} {get set : F} (h : ¬ pid.rejects (set - get) = true) :
    pidCalc pid get set =
      ((pid.sample get set).control.shift, (pid.sample get set).control.output) :=
  (pidCalc_eq pid get set).trans (if_neg h)

theorem Pid.control_of_position {pid : Pid F} (h : pid.pidMode = POSITION_PID) :
    pid.control = positionStep pid := if_pos h

theorem output_positionStep {pid : Pid F} (h : pid.pidMode = POSITION_PID) :
    (positionStep pid).output = (positionStep pid).posOut := if_pos h

/-- The two modes are different. -/
theorem ne_position_of_delta {mode : UInt32} (h : mode = DELTA_PID) : ¬ mode = POSITION_PID := by
  rw [h]
  decide

theorem Pid.control_of_delta {pid : Pid F} (h : pid.pidMode = DELTA_PID) :
    pid.control = deltaStep pid :=
  (if_neg (ne_position_of_delta h)).trans (if_pos h)

theorem output_deltaStep {pid : Pid F} (h : pid.pidMode = DELTA_PID) :
    (deltaStep pid).output = (deltaStep pid).deltaOut := if_neg (ne_position_of_delta h)

/-- A call in position mode either returns early with zero, or makes a position step and shifts the
histories. -/
theorem pidCalc_cases {pid : Pid F} (h : pid.pidMode = POSITION_PID) (get set : F) :
    pidCalc pid get set = (pid.sample get set, 0) ∨
      pidCalc pid get set =
        ((positionStep (pid.sample get set)).shift,
          (positionStep (pid.sample get set)).posOut) := by
  have hmode : (pid.sample get set).pidMode = POSITION_PID := h
  rw [pidCalc_eq, Pid.control_of_position hmode, output_positionStep hmode]
  -- an early return, or the position step
  split
  · exact .inl rfl
  · exact .inr rfl

theorem Pid.err_control (pid : Pid F) : pid.control.err = pid.err := by
  unfold Pid.control
  split_ifs <;> rfl

/-- Every call stores the new error, also when it returns early. -/
theorem err_now_pidCalc (pid : Pid F) (get set : F) :
    (pidCalc pid get set).1.err.now = set - get := by
  rw [pidCalc_eq]
  split
  · rfl
  · exact congrArg History.now (pid.sample get set).err_control

/-- The arguments of a call. -/
structure Sample (F : Type) where
  get : F
  set : F
  deriving DecidableEq, Repr

/-- The new error of a call. -/
def Sample.err (s : Sample F) : F := s.set - s.get

/-- A controller called again and again; it shows the values returned. -/
def pidMachine : Machine (Pid F) (Sample F) F where
  step pid s := ((pidCalc pid s.get s.set).1, [(pidCalc pid s.get s.set).2])

/-- The mode and the two limits are the same. -/
structure Pid.SameConfig (pid pid' : Pid F) : Prop where
  pidMode : pid'.pidMode = pid.pidMode
  maxOutput : pid'.maxOutput = pid.maxOutput
  integralLimit : pid'.integralLimit = pid.integralLimit

theorem Pid.sameConfig_control (pid : Pid F) : pid.SameConfig pid.control := by
  unfold Pid.control
  split_ifs <;> exact ⟨rfl, rfl, rfl⟩

theorem sameConfig_pidCalc (pid : Pid F) (get set : F) :
    pid.SameConfig (pidCalc pid get set).1 := by
  have hcontrol := (pid.sample get set).sameConfig_control
  rw [pidCalc_eq]
  -- an early return stores the sample only
  split
  · exact ⟨rfl, rfl, rfl⟩
  · exact ⟨hcontrol.pidMode, hcontrol.maxOutput, hcontrol.integralLimit⟩

end Calls

/-! ## Bounds in exact arithmetic -/

/-- `abs_limit` limits to `[-m, m]`. -/
theorem absLimit_eq_saturate (a : ℚ) {m : ℚ} (hm : 0 ≤ m) : absLimit a m = saturate m a := by
  unfold absLimit saturate
  dsimp only
  -- the second comparison sees the value that the first assignment left
  -- above the limit, and then above its negative as well; below it; within
  split_ifs with habove hbelow hbelow
  · exact absurd hbelow (neg_le_self hm).not_gt
  · rw [min_eq_left habove.le, max_eq_right (neg_le_self hm)]
  · rw [min_eq_right (not_lt.mp habove), max_eq_left hbelow.le]
  · rw [min_eq_right (not_lt.mp habove), max_eq_right (not_lt.mp hbelow)]

theorem abs_absLimit_le (a : ℚ) {m : ℚ} (hm : 0 ≤ m) : |absLimit a m| ≤ m :=
  (absLimit_eq_saturate a hm).symm ▸ abs_saturate_le hm a

/-- The integral stays within `IntegralLimit`. -/
theorem abs_iout_pidCalc_le {pid : Pid ℚ} (hmode : pid.pidMode = POSITION_PID)
    (hiout : |pid.iout| ≤ (pid.integralLimit.toNat : ℚ)) (get set : ℚ) :
    |(pidCalc pid get set).1.iout| ≤ (pid.integralLimit.toNat : ℚ) := by
  rcases pidCalc_cases hmode get set with h | h <;> rw [h]
  · exact hiout
  · exact abs_absLimit_le _ (Nat.cast_nonneg _)

/-- The output stays within `MaxOutput`. -/
theorem abs_pidCalc_le {pid : Pid ℚ} (hmode : pid.pidMode = POSITION_PID) (get set : ℚ) :
    |(pidCalc pid get set).2| ≤ (pid.maxOutput.toNat : ℚ) := by
  rcases pidCalc_cases hmode get set with h | h <;> rw [h]
  · exact abs_zero.trans_le (Nat.cast_nonneg _)
  · exact abs_absLimit_le _ (Nat.cast_nonneg _)

end RobomasterFirmware.Algorithm
