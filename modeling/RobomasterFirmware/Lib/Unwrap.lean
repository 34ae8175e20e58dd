import Mathlib.Algebra.Order.Group.Unbundled.Int
import Mathlib.Tactic.Linarith
import Mathlib.Tactic.Ring

/-!
# Unwrapping a Modular Counter

A sensor shows a position modulo `2 * h`. If the position moves by less than `h` between two
readings, comparing the readings with `h` tells exactly whether, and in which direction, the seam
was crossed. Whatever the readings, the position that they are unwrapped to moves by at most `h`
from one to the next, and by less than `2 * h` over any two movements in a row.
-/

namespace RobomasterFirmware.Lib

/-- The change of the turn count between two consecutive readings. -/
def seamStep (h prev cur : ℤ) : ℤ :=
  if cur - prev > h then -1 else if cur - prev < -h then 1 else 0

theorem seamStep_self {h : ℤ} (hh : 0 ≤ h) (r : ℤ) : seamStep h r r = 0 := by
  unfold seamStep
  rw [if_neg (by omega), if_neg (by omega)]

/-- A movement of less than half a turn changes the quotient by at most one. -/
private theorem ediv_sub_ediv_mem {h x y : ℤ} (hxy : |y - x| < h) :
    y / (2 * h) - x / (2 * h) = -1 ∨ y / (2 * h) - x / (2 * h) = 0 ∨
      y / (2 * h) - x / (2 * h) = 1 := by
  obtain ⟨hlo, hhi⟩ := abs_lt.mp hxy
  have hpos : 0 < 2 * h := by omega
  have hx := Int.mul_ediv_add_emod x (2 * h)
  have hy := Int.mul_ediv_add_emod y (2 * h)
  have hx0 := Int.emod_nonneg x hpos.ne'
  have hy0 := Int.emod_nonneg y hpos.ne'
  have hx1 := Int.emod_lt_of_pos x hpos
  have hy1 := Int.emod_lt_of_pos y hpos
  -- a quotient two larger would be a movement of more than a turn
  have hle : y / (2 * h) - x / (2 * h) < 2 := by
    by_contra hge
    nlinarith
  have hge : -2 < y / (2 * h) - x / (2 * h) := by
    by_contra hle
    nlinarith
  omega

/-- **Unwrapping rule.** After a movement of less than half a turn the turn count is the old one
plus the seam step of the two readings. -/
theorem ediv_eq_add_seamStep {h x y : ℤ} (hxy : |y - x| < h) :
    y / (2 * h) = x / (2 * h) + seamStep h (x % (2 * h)) (y % (2 * h)) := by
  obtain ⟨hlo, hhi⟩ := abs_lt.mp hxy
  -- the readings differ by the movement less the turns counted
  have hdiff : y % (2 * h) - x % (2 * h) =
      y - x - 2 * h * (y / (2 * h) - x / (2 * h)) := by
    have hx := Int.mul_ediv_add_emod x (2 * h)
    have hy := Int.mul_ediv_add_emod y (2 * h)
    linarith
  unfold seamStep
  rw [hdiff]
  -- backwards through the seam, within the turn, forwards through the seam
  rcases ediv_sub_ediv_mem hxy with hturn | hturn | hturn <;> rw [hturn]
  · rw [if_pos (by omega)]
    omega
  · rw [if_neg (by omega), if_neg (by omega)]
    omega
  · rw [if_neg (by omega), if_pos (by omega)]
    omega

/-! ## Arbitrary readings -/

/-- The movement that two consecutive readings are unwrapped to. -/
def movement (h prev cur : ℤ) : ℤ := cur - prev + 2 * h * seamStep h prev cur

theorem movement_cases (h prev cur : ℤ) :
    (h < cur - prev ∧ movement h prev cur = cur - prev - 2 * h) ∨
      (cur - prev < -h ∧ movement h prev cur = cur - prev + 2 * h) ∨
      ((-h ≤ cur - prev ∧ cur - prev ≤ h) ∧ movement h prev cur = cur - prev) := by
  unfold movement seamStep
  -- the three cases of the seam step
  split_ifs <;> omega

/-- Readings within one turn are unwrapped to a movement of at most half a turn. -/
theorem abs_movement_le {h prev cur : ℤ} (hprev : 0 ≤ prev ∧ prev < 2 * h)
    (hcur : 0 ≤ cur ∧ cur < 2 * h) : |movement h prev cur| ≤ h := by
  rw [abs_le]
  rcases movement_cases h prev cur with ⟨hseam, heq⟩ | ⟨hseam, heq⟩ | ⟨hseam, heq⟩ <;> omega

/-- After a movement of half a turn the next one in the same direction is shorter. -/
theorem abs_movement_add_lt {h a b c : ℤ} (ha : 0 ≤ a ∧ a < 2 * h) (hb : 0 ≤ b ∧ b < 2 * h)
    (hc : 0 ≤ c ∧ c < 2 * h) : |movement h a b + movement h b c| < 2 * h := by
  rw [abs_lt]
  -- two movements of half a turn one way would need readings a turn apart
  rcases movement_cases h a b with ⟨hab, heq⟩ | ⟨hab, heq⟩ | ⟨hab, heq⟩ <;>
    rcases movement_cases h b c with ⟨hbc, heq'⟩ | ⟨hbc, heq'⟩ | ⟨hbc, heq'⟩ <;>
    omega

/-- The turns counted over the first `n` movements. -/
def turnCount (h : ℤ) (r : ℕ → ℤ) : ℕ → ℤ
  | 0 => 0
  | n + 1 => turnCount h r n + seamStep h (r n) (r (n + 1))

/-- The position that the readings are unwrapped to. -/
def unwrapped (h : ℤ) (r : ℕ → ℤ) (n : ℕ) : ℤ := 2 * h * turnCount h r n + r n

theorem unwrapped_succ (h : ℤ) (r : ℕ → ℤ) (n : ℕ) :
    unwrapped h r (n + 1) = unwrapped h r n + movement h (r n) (r (n + 1)) := by
  rw [unwrapped, unwrapped, movement, turnCount]
  ring

section Bounds

variable {h : ℤ} {r : ℕ → ℤ} {n : ℕ}

/-- The position after an even number of movements. -/
private theorem abs_unwrapped_two_mul_le {k : ℕ} (hr : ∀ i ≤ 2 * k, 0 ≤ r i ∧ r i < 2 * h) :
    |unwrapped h r (2 * k) - r 0| ≤ (2 * h - 1) * k := by
  -- Induct on the pairs of movements.
  induction k with
  | zero => simp [unwrapped, turnCount]
  | succ k ih =>
    have hprev := ih fun i hi => hr i (by omega)
    have hpair := abs_movement_add_lt (hr (2 * k) (by omega)) (hr (2 * k + 1) (by omega))
      (hr (2 * k + 2) (by omega))
    have hstep : unwrapped h r (2 * (k + 1)) - r 0 = (unwrapped h r (2 * k) - r 0) +
        (movement h (r (2 * k)) (r (2 * k + 1)) + movement h (r (2 * k + 1)) (r (2 * k + 2))) := by
      change unwrapped h r (2 * k + 1 + 1) - r 0 = _
      rw [unwrapped_succ, unwrapped_succ]
      ring
    calc |unwrapped h r (2 * (k + 1)) - r 0|
        ≤ |unwrapped h r (2 * k) - r 0| +
            |movement h (r (2 * k)) (r (2 * k + 1)) +
              movement h (r (2 * k + 1)) (r (2 * k + 2))| := by
          rw [hstep]
          exact abs_add_le _ _
      _ ≤ (2 * h - 1) * k + (2 * h - 1) := add_le_add hprev (by omega)
      _ = (2 * h - 1) * (k + 1 : ℕ) := by push_cast; ring

/-- **Distance rule.** Over `n` readings the unwrapped position moves by one less than a turn for
every two of them, and by half a turn for the last one if their number is odd. -/
theorem abs_unwrapped_sub_le (hr : ∀ i ≤ n, 0 ≤ r i ∧ r i < 2 * h) :
    |unwrapped h r n - r 0| ≤ (2 * h - 1) * (n / 2 : ℕ) + h * (n % 2 : ℕ) := by
  -- pairs only, or pairs and a last movement
  rcases Nat.even_or_odd' n with ⟨k, rfl | rfl⟩
  · have heven := abs_unwrapped_two_mul_le hr
    simpa using heven
  · have heven := abs_unwrapped_two_mul_le fun i (hi : i ≤ 2 * k) => hr i (by omega)
    have hlast := abs_movement_le (hr (2 * k) (by omega)) (hr (2 * k + 1) le_rfl)
    have hdiv : (2 * k + 1) / 2 = k := by omega
    have hmod : (2 * k + 1) % 2 = 1 := by omega
    rw [unwrapped_succ, hdiv, hmod, add_sub_right_comm, Nat.cast_one, mul_one]
    exact (abs_add_le _ _).trans (add_le_add heven hlast)

end Bounds

end RobomasterFirmware.Lib
