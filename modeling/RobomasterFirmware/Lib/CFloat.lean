import Mathlib.Algebra.Order.Floor.Ring
import Mathlib.Data.Rat.Floor

/-!
# Floating-Point Types of C

Code that computes with `float` and `double` is translated over an arbitrary type with the
operations of a C arithmetic type (`CFloat`), so that results about its data flow hold whatever the
rounding. Results about values instantiate it with the rationals, where every operation is exact
and the conversion to an integer discards the fraction.

## Contents
- `truncate`: rounding toward zero, over any ordered field with a floor
- `CFloat`, `CNarrow`: the operations of an arithmetic type, and the assignment of a `double` to a
  `float`
- the exact instance on `ℚ`
-/

namespace RobomasterFirmware.Lib

universe u

/-! ## Rounding toward zero -/

section Truncate

variable {R : Type u} [Field R] [LinearOrder R] [IsStrictOrderedRing R] [FloorRing R]

/-- Discard the fraction. -/
def truncate (q : R) : ℤ := if 0 ≤ q then ⌊q⌋ else ⌈q⌉

@[simp] theorem truncate_intCast (n : ℤ) : truncate (n : R) = n := by
  unfold truncate
  split <;> simp

/-- Rounding toward zero is odd. -/
theorem truncate_neg (q : R) : truncate (-q) = -truncate q := by
  unfold truncate
  rcases lt_trichotomy q 0 with hneg | rfl | hpos
  · rw [if_pos (neg_pos.mpr hneg).le, if_neg hneg.not_ge, Int.floor_neg]
  · simp
  · rw [if_neg (neg_neg_of_pos hpos).not_ge, if_pos hpos.le, Int.ceil_neg]

/-- Rounding toward zero stays between integer bounds, the upper one not negative. -/
theorem truncate_mem {a b : ℤ} (hb : 0 ≤ b) {q : R} (haq : (a : R) ≤ q)
    (hqb : q ≤ b) : a ≤ truncate q ∧ truncate q ≤ b := by
  unfold truncate
  split
  · exact ⟨Int.le_floor.mpr haq, Int.floor_le_iff.mpr (hqb.trans_lt (lt_add_one _))⟩
  · have hneg : ⌈q⌉ ≤ 0 := Int.ceil_le.mpr (by push_cast; linarith)
    exact ⟨Int.le_ceil_iff.mpr ((sub_one_lt _).trans_le haq), hneg.trans hb⟩

/-- The integer part is within a bound exactly if the operand is less than one above it. -/
theorem abs_truncate_le_iff {m : ℤ} {q : R} : |truncate q| ≤ m ↔ |q| < m + 1 := by
  -- both sides are symmetric, and above zero this is the floor
  have hpos : ∀ q : R, 0 ≤ q → (|truncate q| ≤ m ↔ |q| < m + 1) := by
    intro q hq
    rw [truncate, if_pos hq, abs_of_nonneg (Int.floor_nonneg.mpr hq), abs_of_nonneg hq,
      Int.floor_le_iff]
  rcases le_total 0 q with hq | hq
  · exact hpos q hq
  · rw [← abs_neg q, ← abs_neg (truncate q), ← truncate_neg]
    exact hpos (-q) (neg_nonneg.mpr hq)

end Truncate

/-! ## Arithmetic types -/

/-- The operations of a floating-point type. Comparisons are decidable but obey no law, as for
operands that are not a number. -/
class CFloat (F : Type u) extends Add F, Sub F, Mul F, Neg F, Zero F, LT F, BEq F where
  /-- The conversion from an integer type. -/
  ofInt : ℤ → F
  /-- The value of a literal. -/
  ofRat : ℚ → F
  /-- The conversion to `int16_t`. -/
  toInt16 : F → Int16
  decLT : DecidableLT F

instance CFloat.instDecidableLT (F : Type u) [CFloat F] : DecidableLT F := CFloat.decLT

/-- The assignment of a value of one floating-point type to a variable of another. -/
class CNarrow (D F : Type u) where
  narrow : D → F

/-! ## Exact arithmetic -/

instance : CFloat ℚ where
  ofInt n := n
  ofRat q := q
  toInt16 q := Int16.ofInt (truncate q)
  decLT := inferInstance

instance : CNarrow ℚ ℚ where
  narrow q := q

@[simp] theorem ofInt_rat (n : ℤ) : (CFloat.ofInt n : ℚ) = n := rfl

@[simp] theorem ofRat_rat (q : ℚ) : (CFloat.ofRat q : ℚ) = q := rfl

@[simp] theorem narrow_rat (q : ℚ) : (CNarrow.narrow q : ℚ) = q := rfl

/-- An operand whose integer part `int16_t` can hold converts to that part. -/
theorem toInt_toInt16_eq {q : ℚ} (hlo : -2 ^ 15 ≤ truncate q) (hhi : truncate q < 2 ^ 15) :
    (CFloat.toInt16 q).toInt = truncate q :=
  Int16.toInt_ofInt_of_le (by omega) (by omega)

/-- An operand within bounds that `int16_t` can hold is such an operand. -/
theorem toInt_toInt16_of_abs_le {q : ℚ} {m : ℤ} (hm : m < 2 ^ 15) (h : |q| ≤ m) :
    (CFloat.toInt16 q).toInt = truncate q ∧ |truncate q| ≤ m := by
  obtain ⟨hlo, hhi⟩ := abs_le.mp h
  have hm0 : 0 ≤ m := by exact_mod_cast (abs_nonneg q).trans h
  obtain ⟨hlo', hhi'⟩ := truncate_mem (a := -m) hm0 (by push_cast; exact hlo) hhi
  exact ⟨toInt_toInt16_eq (by omega) (by omega), abs_le.mpr ⟨hlo', hhi'⟩⟩

/-- It converts to a value within the same bounds. -/
theorem toInt_toInt16_rat {q : ℚ} {m : ℤ} (hm : m < 2 ^ 15) (h : |q| ≤ m) :
    |(CFloat.toInt16 q).toInt| ≤ m := by
  obtain ⟨hval, hle⟩ := toInt_toInt16_of_abs_le hm h
  rwa [hval]

/-- Within such bounds the conversion is odd. -/
theorem toInt_toInt16_neg {q : ℚ} {m : ℤ} (hm : m < 2 ^ 15) (h : |q| ≤ m) :
    (CFloat.toInt16 (-q)).toInt = -(CFloat.toInt16 q).toInt := by
  obtain ⟨hval, -⟩ := toInt_toInt16_of_abs_le hm h
  obtain ⟨hval', -⟩ := toInt_toInt16_of_abs_le hm ((abs_neg q).trans_le h)
  rw [hval', hval, truncate_neg]

/-- An integer operand that `int16_t` can hold converts to itself. -/
theorem toInt_toInt16_intCast {n : ℤ} (hlo : -2 ^ 15 ≤ n) (hhi : n < 2 ^ 15) :
    (CFloat.toInt16 (n : ℚ)).toInt = n := by
  have htruncate := truncate_intCast (R := ℚ) n
  rw [toInt_toInt16_eq (by omega) (by omega), htruncate]

end RobomasterFirmware.Lib
