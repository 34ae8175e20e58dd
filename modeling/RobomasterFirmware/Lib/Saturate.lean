import Mathlib.Algebra.Order.Group.Abs
import Mathlib.Algebra.Order.Group.MinMax

/-!
# Saturation

Limiting a signed quantity to `[-m, m]`. Controllers limit their outputs and their accumulated
terms this way, and what matters about the limit is that it is odd, keeps signs, and that an
accumulator limited at every step ends where a single limit of the total would put it, as long as
it is always pushed the same way.

## Contents
- `saturate`, and when it is the identity
- symmetry (`saturate_neg`) and sign (`saturate_pos_iff`)
- the limited accumulator (`saturate_saturate_add`, `saturate_nsmul_succ`)
-/

namespace RobomasterFirmware.Lib

universe u

variable {α : Type u} [AddCommGroup α] [LinearOrder α] [IsOrderedAddMonoid α]

/-- The value of `[-m, m]` closest to `x`. -/
def saturate (m x : α) : α := max (-m) (min m x)

variable {m x c : α}

theorem saturate_of_abs_le (h : |x| ≤ m) : saturate m x = x := by
  obtain ⟨hlo, hhi⟩ := abs_le.mp h
  rw [saturate, min_eq_right hhi, max_eq_right hlo]

theorem saturate_of_le (hm : 0 ≤ m) (h : m ≤ x) : saturate m x = m := by
  rw [saturate, min_eq_left h, max_eq_right (neg_le_self hm)]

theorem saturate_of_nonneg (hm : 0 ≤ m) (hx : 0 ≤ x) : saturate m x = min m x := by
  rw [saturate, max_eq_right]
  exact (neg_nonpos.mpr hm).trans (le_min hm hx)

theorem abs_saturate_le (hm : 0 ≤ m) (x : α) : |saturate m x| ≤ m :=
  abs_le.mpr ⟨le_max_left _ _, max_le (neg_le_self hm) (min_le_left _ _)⟩

/-! ## Symmetry and sign -/

/-- The limit is odd. -/
theorem saturate_neg (hm : 0 ≤ m) (x : α) : saturate m (-x) = -saturate m x := by
  -- the two limits swap their places, which is harmless since `-m ≤ m`
  have hswap : -saturate m x = min m (max (-m) (-x)) := by
    rw [saturate, ← min_neg_neg, neg_neg, ← max_neg_neg]
  rw [hswap, saturate, max_min_distrib_left, max_eq_right (neg_le_self hm)]

theorem saturate_pos_iff (hm : 0 < m) : 0 < saturate m x ↔ 0 < x := by
  rw [saturate, lt_max_iff, lt_min_iff]
  exact ⟨fun h => h.elim (fun hneg => absurd hneg (neg_neg_of_pos hm).not_gt) And.right,
    fun hx => .inr ⟨hm, hx⟩⟩

/-! ## The limited accumulator -/

/-- Limiting before a step in the same direction does not change the limited result. -/
theorem saturate_saturate_add (hm : 0 ≤ m) (h : 0 ≤ x ∧ 0 ≤ c ∨ x ≤ 0 ∧ c ≤ 0) :
    saturate m (saturate m x + c) = saturate m (x + c) := by
  -- by symmetry it is enough to look at steps upwards
  have hup : ∀ x c : α, 0 ≤ x → 0 ≤ c → saturate m (saturate m x + c) = saturate m (x + c) := by
    intro x c hx hc
    rcases le_total x m with hle | hge
    · rw [saturate_of_abs_le ((abs_of_nonneg hx).trans_le hle)]
    · rw [saturate_of_le hm hge, saturate_of_le hm (le_add_of_nonneg_right hc),
        saturate_of_le hm (hge.trans (le_add_of_nonneg_right hc))]
  rcases h with ⟨hx, hc⟩ | ⟨hx, hc⟩
  · exact hup x c hx hc
  · have hneg := hup (-x) (-c) (neg_nonneg.mpr hx) (neg_nonneg.mpr hc)
    rw [saturate_neg hm, ← neg_add, ← neg_add, saturate_neg hm, saturate_neg hm] at hneg
    exact neg_injective hneg

/-- A limited accumulator of equal steps is the limit of their number. -/
theorem saturate_nsmul_succ (hm : 0 ≤ m) (n : ℕ) (c : α) :
    saturate m (saturate m (n • c) + c) = saturate m ((n + 1) • c) := by
  rw [succ_nsmul]
  apply saturate_saturate_add hm
  rcases le_total 0 c with hc | hc
  · exact .inl ⟨nsmul_nonneg hc n, hc⟩
  · exact .inr ⟨nsmul_nonpos hc n, hc⟩

end RobomasterFirmware.Lib
