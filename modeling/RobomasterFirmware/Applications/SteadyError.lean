import RobomasterFirmware.Algorithm.PidSteady
import RobomasterFirmware.Applications.MotionTask
import Mathlib.Tactic.NormNum

/-!
# Steady Targets

What the controllers that `PID_Init` configures do about an error that stays the same, in exact
arithmetic. The wheel controllers have no integral gain and always push towards the target. The
gimbal and poke controllers have a negative one: for small errors their integral grows against the
proportional term until the output vanishes, and then pushes away.

## Main Results
- `pushesTowards_iff`: for which errors and calls a controller pushes towards the target
-/

namespace RobomasterFirmware.Applications

open RobomasterFirmware.Algorithm
open RobomasterFirmware.Lib

/-! ## The controllers -/

/-- The controllers of `motionTask.c`. -/
inductive ControllerId where
  | wheel (i : Fin 4)
  | yaw
  | pit
  | poke
  deriving DecidableEq, Repr

/-- The record of a controller. -/
def Globals.pid (g : Globals ℚ ℚ) : ControllerId → Pid ℚ
  | .wheel i => g.pidMacnum i
  | .yaw => g.pidYaw
  | .pit => g.pidPit
  | .poke => g.pidPoke

/-- The call with the sample `s`, after the calls with `samples`, gives an output with the sign of
the error `e`. -/
def PushesTowards (pid : Pid ℚ) (samples : List (Sample ℚ)) (s : Sample ℚ) (e : ℚ) : Prop :=
  SignType.sign (pidCalc (pidMachine.run pid samples) s.get s.set).2 = SignType.sign e

instance (pid : Pid ℚ) (samples : List (Sample ℚ)) (s : Sample ℚ) (e : ℚ) :
    Decidable (PushesTowards pid samples s e) :=
  inferInstanceAs (Decidable (_ = _))

/-- The errors and the numbers of calls for which the integral term does not catch up with the
proportional one. -/
def ControllerId.Outweighs : ControllerId → ℚ → ℕ → Prop
  | .wheel _, _, _ => True
  | .yaw, e, n => n < 200 ∨ 50 < |e|
  | .pit, e, n => n < 200 ∨ 50 < |e|
  | .poke, e, n => n < 100 ∨ 100 < |e|

/-! ## Their configuration -/

/-- `PID_Init` leaves every controller fresh. -/
theorem fresh_powerOn (c : ControllerId) : ((powerOn : Globals ℚ ℚ).pid c).Fresh := by
  cases c <;> exact ⟨rfl, rfl, rfl, rfl, rfl⟩

theorem opposed_pidStructInit (kp ki kd : ℚ) (hp : 0 < kp) (hi : ki ≤ 0) (hip : -ki < kp)
    (hd : 0 ≤ kd) : (pidStructInit Pid.zero POSITION_PID 30000 5000 kp ki kd).Opposed :=
  ⟨hp, hi, hip, hd, Nat.cast_pos.mpr (show 0 < (30000 : UInt32).toNat by decide)⟩

/-- No controller has a positive integral gain. -/
theorem opposed_powerOn (c : ControllerId) : ((powerOn : Globals ℚ ℚ).pid c).Opposed := by
  cases c with
  | wheel i =>
    exact opposed_pidStructInit 5 0 0.1 (by norm_num) (by norm_num) (by norm_num)
      (by norm_num)
  | yaw =>
    exact opposed_pidStructInit 100 (-0.5) 0.2 (by norm_num) (by norm_num) (by norm_num)
      (by norm_num)
  | pit =>
    exact opposed_pidStructInit 100 (-0.5) 0.1 (by norm_num) (by norm_num) (by norm_num)
      (by norm_num)
  | poke =>
    exact opposed_pidStructInit 50 (-0.5) 0.1 (by norm_num) (by norm_num) (by norm_num)
      (by norm_num)

/-- Half the calls against the proportional gain, the error against the limit of the integral. -/
private theorem outweighs_half (kp : ℚ) (calls n : ℕ) {bound e : ℚ}
    (hcalls : kp = calls / 2) (hbound : 5000 = kp * bound) (hkp : 0 < kp) :
    n * -(-0.5) < kp ∨ 5000 < kp * |e| ↔ n < calls ∨ bound < |e| := by
  have hhalf : (n : ℚ) * -(-0.5) < kp ↔ n < calls := by
    rw [hcalls, ← Nat.cast_lt (α := ℚ)]
    constructor <;> intro h <;> linarith
  rw [hhalf, hbound, mul_lt_mul_iff_right₀ hkp]

/-- The numbers behind `Outweighs` are those of the configuration. -/
theorem outweighs_iff (c : ControllerId) (e : ℚ) (n : ℕ) :
    n * -((powerOn : Globals ℚ ℚ).pid c).i < ((powerOn : Globals ℚ ℚ).pid c).p ∨
        (((powerOn : Globals ℚ ℚ).pid c).integralLimit.toNat : ℚ) <
          ((powerOn : Globals ℚ ℚ).pid c).p * |e| ↔
      c.Outweighs e n := by
  cases c with
  | wheel i =>
    refine iff_of_true (.inl ?_) trivial
    change (n : ℚ) * -0 < 5
    norm_num
  | yaw => exact outweighs_half 100 200 n (by norm_num) (by norm_num) (by norm_num)
  | pit => exact outweighs_half 100 200 n (by norm_num) (by norm_num) (by norm_num)
  | poke => exact outweighs_half 50 100 n (by norm_num) (by norm_num) (by norm_num)

/-! ## Steady errors -/

/-- **Steady errors.** While the error stays the same, a controller pushes towards its target
exactly in the calls in which the proportional term outweighs the integral. -/
theorem pushesTowards_iff (c : ControllerId) {e : ℚ} (he : e ≠ 0) (samples : List (Sample ℚ))
    (s : Sample ℚ) (h : ∀ s' ∈ samples ++ [s], s'.err = e) :
    PushesTowards ((powerOn : Globals ℚ ℚ).pid c) samples s e ↔
      c.Outweighs e (samples.length + 1) := by
  rw [PushesTowards, output_steady (fresh_powerOn c) h, ← outweighs_iff]
  exact (opposed_powerOn c).sign_steadyOutput_iff he (Nat.le_add_left 1 _)

/-- The second call of the pitch controller with the error -3. -/
theorem pushesTowards_second :
    PushesTowards ((powerOn : Globals ℚ ℚ).pid .pit) [⟨2903, 2900⟩] ⟨2904, 2901⟩ (-3) ↔
      2 < 200 ∨ (50 : ℚ) < |(-3)| :=
  pushesTowards_iff .pit (by decide) [⟨2903, 2900⟩] ⟨2904, 2901⟩ (by decide +kernel)

/-- An error of 1 for 201 calls: the yaw controller pushes away from its target. -/
theorem not_pushesTowards_yaw :
    ¬ PushesTowards ((powerOn : Globals ℚ ℚ).pid .yaw) (List.replicate 200 ⟨2690, 2691⟩)
      ⟨2690, 2691⟩ 1 := by
  have herr : ∀ s' ∈ List.replicate 200 ⟨2690, 2691⟩ ++ [⟨2690, 2691⟩],
      Sample.err s' = (1 : ℚ) := by
    decide +kernel
  -- 100 against 201 halves
  rw [PushesTowards, output_steady (fresh_powerOn .yaw) herr]
  decide +kernel

end RobomasterFirmware.Applications
