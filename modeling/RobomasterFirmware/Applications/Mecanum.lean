import RobomasterFirmware.Applications.CommandRange

/-!
# The Limits of the Wheel Speeds

`Mecanum_calc` takes a limit for the wheel speeds, `each_max_spd`, and does not apply it: the
rescaling of the four speeds is commented out. In exact arithmetic every speed is the mixed speed
of the clamped axes without its fraction, as long as `int16_t` can hold it. The limit is therefore
kept exactly where the mix keeps it by itself.

## Main Results
- `toInt_mecanumCalc`: what `Mecanum_calc` computes
- `mecanumCalc_limits`: where it respects the limit it is given
-/

namespace RobomasterFirmware.Applications

open RobomasterFirmware.Algorithm
open RobomasterFirmware.Lib

/-! ## The mixed speeds -/

/-- The wheel speeds for the three axes, each limited to its maximum. -/
def clampedMix (vx vy omega : ℚ) : Fin 4 → ℚ :=
  mecanumMix (saturate 14000 vx) (saturate 14000 vy) (saturate 10000 omega)

/-- The conversion of `q` to `int16_t` does not overflow. -/
def FitsInt16 (q : ℚ) : Prop := -2 ^ 15 ≤ truncate q ∧ truncate q < 2 ^ 15

instance (q : ℚ) : Decidable (FitsInt16 q) := inferInstanceAs (Decidable (_ ∧ _))

/-- `Mecanum_calc` keeps the wheel speeds within `each_max_spd` by scaling all four alike, and not
at all if they are within the limit already. -/
structure RespectsLimit (vx vy omega : ℚ) (eachMaxSpd : Int32) : Prop where
  fits (i : Fin 4) : FitsInt16 (clampedMix vx vy omega i)
  limited (i : Fin 4) : |(mecanumCalc vx vy omega eachMaxSpd i).toInt| ≤ eachMaxSpd.toInt
  scaled : ∃ c : ℚ, 0 < c ∧ c ≤ 1 ∧
    (∀ i, (mecanumCalc vx vy omega eachMaxSpd i).toInt = truncate (c * clampedMix vx vy omega i)) ∧
    ((∀ i, |clampedMix vx vy omega i| ≤ eachMaxSpd.toInt) → c = 1)

/-- A wheel speed is the mixed speed without its fraction, if `int16_t` can hold it. -/
theorem toInt_mecanumCalc {vx vy omega : ℚ} {i : Fin 4} (h : FitsInt16 (clampedMix vx vy omega i))
    (eachMaxSpd : Int32) :
    (mecanumCalc vx vy omega eachMaxSpd i).toInt = truncate (clampedMix vx vy omega i) := by
  -- the clamps are saturations, and the rescaling is commented out
  have hmix : mecanumCalc vx vy omega eachMaxSpd i =
      CFloat.toInt16 (clampedMix vx vy omega i) := by
    unfold mecanumCalc clampedMix
    rw [limitSpeed_eq_saturate vx (by decide), limitSpeed_eq_saturate vy (by decide),
      limitSpeed_eq_saturate omega (by decide)]
    rfl
  rw [hmix]
  exact toInt_toInt16_eq h.1 h.2

/-- **The limit of the wheel speeds.** Every output that `int16_t` can hold is the mixed speed
without its fraction, whatever the limit; and `Mecanum_calc` respects a limit exactly where all
four mixed speeds are less than one above it. -/
theorem mecanumCalc_limits (vx vy omega : ℚ) (eachMaxSpd : Int32) :
    (∀ i, FitsInt16 (clampedMix vx vy omega i) →
      (mecanumCalc vx vy omega eachMaxSpd i).toInt = truncate (clampedMix vx vy omega i)) ∧
    (1 ≤ eachMaxSpd.toInt → eachMaxSpd.toInt ≤ 32767 →
      (RespectsLimit vx vy omega eachMaxSpd ↔
        ∀ i, |clampedMix vx vy omega i| < eachMaxSpd.toInt + 1)) := by
  refine ⟨fun i hi => toInt_mecanumCalc hi eachMaxSpd, fun _ hmax => ⟨?_, ?_⟩⟩
  -- respected, so each speed without its fraction is within the limit
  · intro h i
    have hlimited := h.limited i
    rw [toInt_mecanumCalc (h.fits i)] at hlimited
    exact abs_truncate_le_iff.mp hlimited
  · intro h
    -- within the limit once the fraction is cut off, and so within `int16_t`
    have hle (i : Fin 4) : |truncate (clampedMix vx vy omega i)| ≤ eachMaxSpd.toInt :=
      abs_truncate_le_iff.mpr (h i)
    have hfits (i : Fin 4) : FitsInt16 (clampedMix vx vy omega i) := by
      obtain ⟨hlo, hhi⟩ := abs_le.mp (hle i)
      exact ⟨by omega, by omega⟩
    -- nothing is scaled: the common factor is 1
    refine ⟨hfits, fun i => ?_, 1, one_pos, le_rfl, fun i => ?_, fun _ => rfl⟩
    · rw [toInt_mecanumCalc (hfits i)]
      exact hle i
    · rw [toInt_mecanumCalc (hfits i), one_mul]

/-- The speeds of a diagonal drive within the limit of the motion task. -/
theorem mecanumCalc_limits_diagonal :
    RespectsLimit 2000 2500 (1 / 2) MAX_WHEEL_SPEED ↔
      ∀ i, |clampedMix 2000 2500 (1 / 2) i| < MAX_WHEEL_SPEED.toInt + 1 :=
  (mecanumCalc_limits 2000 2500 (1 / 2) MAX_WHEEL_SPEED).2 (by decide) (by decide)

/-- Two axes at 6000 give a wheel speed of 12000, and three axes at their maxima give one of 38000,
which `int16_t` cannot hold. -/
theorem not_respectsLimit_corners :
    ¬ RespectsLimit 6000 6000 0 MAX_WHEEL_SPEED ∧ ¬ RespectsLimit 14000 14000 (-10000) 32767 := by
  constructor
  · intro h
    have hlimited := h.limited 3
    revert hlimited
    decide +kernel
  · intro h
    have hfits := h.fits 3
    revert hfits
    decide +kernel

end RobomasterFirmware.Applications
