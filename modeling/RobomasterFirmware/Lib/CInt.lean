import Mathlib.Data.Nat.Bitwise
import Mathlib.Data.Int.Basic
import Mathlib.Tactic.IntervalCases
import Mathlib.Tactic.Ring

/-!
# C Integer Conversions

The fixed-width types of the language are Lean's own (`UInt8`, `Int16`, `Int32`, ...), whose
arithmetic wraps as the target's does. This file collects what proofs about C code need on top:
shifts combined with bitwise or, masks, the conversion of an `int` to a byte, and the two-byte
big-endian format.
-/

namespace RobomasterFirmware.Lib

/-! ## Shifts and masks on non-negative operands -/

/-- `a | b << i` is a sum when `a` fits below bit `i`. -/
theorem lor_shiftLeft_eq_add {a i : ℕ} (ha : a < 2 ^ i) (b : ℕ) :
    a ||| b <<< i = a + 2 ^ i * b := by
  rw [Nat.lor_comm, ← Nat.shiftLeft_add_eq_or_of_lt ha, Nat.shiftLeft_eq]
  ring

/-- `b << i | a` is a sum when `a` fits below bit `i`. -/
theorem shiftLeft_lor_eq_add {a i : ℕ} (ha : a < 2 ^ i) (b : ℕ) :
    b <<< i ||| a = 2 ^ i * b + a := by
  rw [Nat.lor_comm, lor_shiftLeft_eq_add ha, Nat.add_comm]

/-- Masking with `w` ones keeps the remainder modulo `2 ^ w`. -/
theorem land_ones (n : ℕ) {k : ℕ} (w : ℕ) (hk : k = 2 ^ w - 1) : n &&& k = n % 2 ^ w := by
  rw [hk, Nat.and_two_pow_sub_one_eq_mod]

/-! ## Bytes of a 16-bit value -/

/-- The conversion of an `int` to `uint8_t`. -/
def toByte (x : Int32) : UInt8 := x.toUInt32.toUInt8

/-- The conversion to `uint8_t` already drops everything above bit 7, so masking first is idle. -/
theorem toByte_land_ff (x : Int32) : toByte (x &&& 0xff) = toByte x := by
  apply UInt8.toBitVec_inj.mp
  apply BitVec.eq_of_getLsbD_eq
  intro i hi
  simp only [toByte, UInt32.toBitVec_toUInt8, Int32.toBitVec_toUInt32, Int32.toBitVec_and,
    BitVec.getLsbD_setWidth, BitVec.getLsbD_and, hi, decide_true, Bool.true_and]
  -- the bits that survive the conversion are all set in the mask
  have hones : (Int32.toBitVec 0xff).getLsbD i = true := by
    interval_cases i <;> decide
  rw [hones, Bool.and_true]

private theorem toNat_toByte (x : Int32) : (toByte x).toNat = x.toBitVec.toNat % 256 := by
  rw [toByte, UInt32.toNat_toUInt8]
  rfl

private theorem getLsbD_toInt32 (x : Int16) {i : ℕ} (hi : i < 16) :
    x.toInt32.toBitVec.getLsbD i = x.toBitVec.getLsbD i := by
  simp only [Int16.toBitVec_toInt32, BitVec.getLsbD_signExtend, hi, if_true,
    show i < 32 by omega, decide_true, Bool.true_and]

/-- The low byte `(uint8_t)x`. -/
theorem toNat_toByte_int16 (x : Int16) :
    (toByte x.toInt32).toNat = x.toBitVec.toNat % 256 := by
  -- the sign extension does not reach the low byte
  have h : x.toInt32.toBitVec.setWidth 8 = x.toBitVec.setWidth 8 := by
    apply BitVec.eq_of_getLsbD_eq
    intro i hi
    simp only [BitVec.getLsbD_setWidth, hi, decide_true, Bool.true_and,
      getLsbD_toInt32 x (show i < 16 by omega)]
  have h' := congrArg BitVec.toNat h
  rw [toNat_toByte]
  simpa only [BitVec.toNat_setWidth] using h'

/-- The high byte `(uint8_t)(x >> 8)`, the shift being arithmetic. -/
theorem toNat_toByte_shiftRight (x : Int16) :
    (toByte (x.toInt32 >>> 8)).toNat = x.toBitVec.toNat / 256 := by
  -- the low byte of the shifted value is bits 8 to 15, below the extension
  have h : (x.toInt32 >>> 8).toBitVec.setWidth 8 = (x.toBitVec >>> 8).setWidth 8 := by
    apply BitVec.eq_of_getLsbD_eq
    intro i hi
    have hshift : (x.toInt32 >>> 8).toBitVec = x.toInt32.toBitVec.sshiftRight 8 := rfl
    simp only [hshift, BitVec.getLsbD_setWidth, hi, decide_true, Bool.true_and,
      BitVec.getLsbD_sshiftRight, BitVec.getLsbD_ushiftRight, show ¬ 32 ≤ i by omega,
      show 8 + i < 32 by omega, decide_false, Bool.not_false, if_true,
      getLsbD_toInt32 x (show 8 + i < 16 by omega)]
  have h' := congrArg BitVec.toNat h
  have hlt := x.toBitVec.isLt
  rw [toNat_toByte]
  simp only [BitVec.toNat_setWidth, BitVec.toNat_ushiftRight, Nat.shiftRight_eq_div_pow] at h'
  omega

/-- `(int16_t)(hi << 8 | lo)`: the big-endian two's complement value of two bytes. -/
def beInt16 (hi lo : UInt8) : Int16 := Int16.ofNat (hi.toNat <<< 8 ||| lo.toNat)

/-- Splitting a 16-bit value into its two bytes and reading them back big-endian is exact, negative
values included. -/
theorem beInt16_toByte (x : Int16) :
    beInt16 (toByte (x.toInt32 >>> 8)) (toByte x.toInt32) = x := by
  have hsplit : (toByte (x.toInt32 >>> 8)).toNat <<< 8 ||| (toByte x.toInt32).toNat =
      x.toBitVec.toNat := by
    rw [shiftLeft_lor_eq_add (UInt8.toNat_lt _), toNat_toByte_int16, toNat_toByte_shiftRight]
    omega
  rw [beInt16, hsplit]
  apply Int16.toBitVec_inj.mp
  simp

end RobomasterFirmware.Lib
