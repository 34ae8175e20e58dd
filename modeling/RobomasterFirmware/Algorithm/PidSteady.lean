import RobomasterFirmware.Algorithm.Pid
import Mathlib.Tactic.Linarith
import Mathlib.Data.Sign.Basic

/-!
# A Constant Error

A position controller without early returns, called again and again with the same error, in exact
arithmetic. Its integral is that of the calls so far, limited once; so the output after any number
of calls is known in closed form. With an integral gain opposed to the proportional one the two
terms work against each other, and the sign of the output depends on how long the error has lasted
and on whether the proportional term outweighs the limit of the integral.

## Main Results
- `output_steady`: the output of every call
- `sign_steadyOutput_iff`: when it has the sign of the error
-/

namespace RobomasterFirmware.Algorithm

open RobomasterFirmware.Lib

/-- A position controller before its first call that never returns early. -/
structure Pid.Fresh (pid : Pid ℚ) : Prop where
  pidMode : pid.pidMode = POSITION_PID
  maxErr : pid.maxErr = 0
  deadband : pid.deadband = 0
  iout : pid.iout = 0
  last : pid.err.last = 0

/-- The controller `pid₀` after `n` calls with the error `e`. -/
structure Pid.Steady (pid₀ : Pid ℚ) (e : ℚ) (n : ℕ) (pid : Pid ℚ) : Prop
    extends pid₀.SameConfig pid where
  p : pid.p = pid₀.p
  i : pid.i = pid₀.i
  d : pid.d = pid₀.d
  maxErr : pid.maxErr = pid₀.maxErr
  deadband : pid.deadband = pid₀.deadband
  last : pid.err.last = if n = 0 then 0 else e
  iout : pid.iout = saturate (pid₀.integralLimit.toNat : ℚ) (n • (pid₀.i * e))

/-- The output of the `n`-th call with the error `e`. -/
def Pid.steadyOutput (pid₀ : Pid ℚ) (e : ℚ) (n : ℕ) : ℚ :=
  saturate (pid₀.maxOutput.toNat : ℚ)
    (pid₀.p * e + saturate (pid₀.integralLimit.toNat : ℚ) (n • (pid₀.i * e)) +
      if n = 1 then pid₀.d * e else 0)

variable {pid₀ pid : Pid ℚ} {e : ℚ} {n : ℕ}

theorem Pid.Fresh.steady (h : pid₀.Fresh) (e : ℚ) : pid₀.Steady e 0 pid₀ where
  pidMode := rfl
  maxOutput := rfl
  integralLimit := rfl
  p := rfl
  i := rfl
  d := rfl
  maxErr := rfl
  deadband := rfl
  last := h.last
  iout := by
    rw [h.iout, zero_nsmul, saturate_of_abs_le]
    exact abs_zero.trans_le (Nat.cast_nonneg _)

/-- Without `max_err` and `deadband` no sample is rejected. -/
theorem Pid.not_rejects (hmaxErr : pid.maxErr = 0) (hdeadband : pid.deadband = 0) (e : ℚ) :
    ¬ pid.rejects e = true := by
  simp [Pid.rejects, hmaxErr, hdeadband]

/-- **Step lemma.** One more call with the same error. -/
theorem Pid.Steady.pidCalc (hfresh : pid₀.Fresh) (h : pid₀.Steady e n pid) {s : Sample ℚ}
    (hs : s.err = e) :
    pid₀.Steady e (n + 1) (pidCalc pid s.get s.set).1 ∧
      (pidCalc pid s.get s.set).2 = pid₀.steadyOutput e (n + 1) := by
  have hL : (0 : ℚ) ≤ pid₀.integralLimit.toNat := Nat.cast_nonneg _
  have hM : (0 : ℚ) ≤ pid₀.maxOutput.toNat := Nat.cast_nonneg _
  have hmode : (pid.sample s.get s.set).pidMode = POSITION_PID := h.pidMode.trans hfresh.pidMode
  have hnow : (pid.sample s.get s.set).err.now = e := hs
  have hcalc := pidCalc_of_accepts
    (Pid.not_rejects (h.maxErr.trans hfresh.maxErr) (h.deadband.trans hfresh.deadband)
      (s.set - s.get))
  rw [Pid.control_of_position hmode, output_positionStep hmode] at hcalc
  -- the integral of one more call, limited again
  have hiout : (positionStep (pid.sample s.get s.set)).iout =
      saturate (pid₀.integralLimit.toNat : ℚ) ((n + 1) • (pid₀.i * e)) := by
    change absLimit (pid.iout + pid.i * (pid.sample s.get s.set).err.now)
      (CFloat.ofInt pid.integralLimit.toNat) = _
    rw [hnow, h.iout, h.i, h.integralLimit, ← saturate_nsmul_succ hL]
    exact absLimit_eq_saturate _ hL
  -- the derivative term is that of the first call, or zero
  have hdout : (positionStep (pid.sample s.get s.set)).dout =
      if n + 1 = 1 then pid₀.d * e else 0 := by
    change pid.d * ((pid.sample s.get s.set).err.now - pid.err.last) = _
    rw [hnow, h.last, h.d]
    by_cases hn : n = 0
    · simp [hn]
    · simp [hn]
  have hposOut : (positionStep (pid.sample s.get s.set)).posOut = pid₀.steadyOutput e (n + 1) := by
    change absLimit (pid.p * (pid.sample s.get s.set).err.now +
      (positionStep (pid.sample s.get s.set)).iout + (positionStep (pid.sample s.get s.set)).dout)
      (CFloat.ofInt pid.maxOutput.toNat) = _
    rw [hnow, h.p, hiout, hdout, h.maxOutput]
    exact absLimit_eq_saturate _ hM
  have hlast : (positionStep (pid.sample s.get s.set)).shift.err.last =
      if n + 1 = 0 then 0 else e := by
    rw [if_neg (Nat.succ_ne_zero n)]
    exact hnow
  rw [hcalc]
  exact ⟨⟨⟨h.pidMode, h.maxOutput, h.integralLimit⟩, h.p, h.i, h.d, h.maxErr, h.deadband, hlast,
    hiout⟩, hposOut⟩

/-- **Run lemma.** After any number of calls with the same error. -/
theorem Pid.Fresh.steady_run (hfresh : pid₀.Fresh) {samples : List (Sample ℚ)}
    (h : ∀ s ∈ samples, s.err = e) :
    pid₀.Steady e samples.length (pidMachine.run pid₀ samples) := by
  -- Induct on the calls from the last.
  induction samples using List.reverseRecOn with
  | nil => exact hfresh.steady e
  | append_singleton samples s ih =>
    have hprev := ih fun s' hs' => h s' (List.mem_append_left _ hs')
    rw [Machine.run_append, List.length_append]
    exact (hprev.pidCalc hfresh (h s (by simp))).1

/-- The output of every call in closed form. -/
theorem output_steady (hfresh : pid₀.Fresh) {samples : List (Sample ℚ)} {s : Sample ℚ}
    (h : ∀ s' ∈ samples ++ [s], s'.err = e) :
    (pidCalc (pidMachine.run pid₀ samples) s.get s.set).2 =
      pid₀.steadyOutput e (samples.length + 1) :=
  ((hfresh.steady_run fun s' hs' => h s' (List.mem_append_left _ hs')).pidCalc hfresh
    (h s (by simp))).2

/-! ## The sign of the output -/

theorem Pid.steadyOutput_neg (pid₀ : Pid ℚ) (e : ℚ) (n : ℕ) :
    pid₀.steadyOutput (-e) n = -pid₀.steadyOutput e n := by
  have hL : (0 : ℚ) ≤ pid₀.integralLimit.toNat := Nat.cast_nonneg _
  have hM : (0 : ℚ) ≤ pid₀.maxOutput.toNat := Nat.cast_nonneg _
  unfold Pid.steadyOutput
  rw [← saturate_neg hM, mul_neg, mul_neg, mul_neg, neg_nsmul, saturate_neg hL]
  congr 1
  -- the derivative term is there in the first call only
  split_ifs <;> ring

/-- The gains: a positive proportional one, an opposed or no integral one that is smaller, a
derivative one that is not negative; and a positive limit of the output. -/
structure Pid.Opposed (pid₀ : Pid ℚ) : Prop where
  p_pos : 0 < pid₀.p
  i_nonpos : pid₀.i ≤ 0
  neg_i_lt : -pid₀.i < pid₀.p
  d_nonneg : 0 ≤ pid₀.d
  maxOutput_pos : 0 < (pid₀.maxOutput.toNat : ℚ)

/-- For a positive error the output is positive exactly while the integral is small, or if the
limit of the integral keeps it below the proportional term. -/
theorem Pid.Opposed.steadyOutput_pos_iff (h : pid₀.Opposed) (he : 0 < e) (hn : 1 ≤ n) :
    0 < pid₀.steadyOutput e n ↔
      n * -pid₀.i < pid₀.p ∨ (pid₀.integralLimit.toNat : ℚ) < pid₀.p * e := by
  have hL : (0 : ℚ) ≤ pid₀.integralLimit.toNat := Nat.cast_nonneg _
  -- the integral is opposed to the error
  have hstep : 0 ≤ n * -pid₀.i * e :=
    mul_nonneg (mul_nonneg (Nat.cast_nonneg n) (neg_nonneg.mpr h.i_nonpos)) he.le
  have hintegral : saturate (pid₀.integralLimit.toNat : ℚ) (n • (pid₀.i * e)) =
      -min (pid₀.integralLimit.toNat : ℚ) (n * -pid₀.i * e) := by
    have hneg : n • (pid₀.i * e) = -(n * -pid₀.i * e) := by
      rw [nsmul_eq_mul]
      ring
    rw [hneg, saturate_neg hL, saturate_of_nonneg hL hstep]
  have hcancel : n * -pid₀.i * e < pid₀.p * e ↔ n * -pid₀.i < pid₀.p := mul_lt_mul_iff_left₀ he
  unfold Pid.steadyOutput
  rw [saturate_pos_iff h.maxOutput_pos, hintegral]
  by_cases hone : n = 1
  · -- the first call: the integral is at most its gain times the error
    subst hone
    have hlt : ((1 : ℕ) : ℚ) * -pid₀.i < pid₀.p := by
      rw [Nat.cast_one, one_mul]
      exact h.neg_i_lt
    have hmin := min_le_right (pid₀.integralLimit.toNat : ℚ) (((1 : ℕ) : ℚ) * -pid₀.i * e)
    have hd : 0 ≤ pid₀.d * e := mul_nonneg h.d_nonneg he.le
    have hpos := hcancel.mpr hlt
    rw [if_pos rfl]
    exact iff_of_true (by linarith) (.inl hlt)
  -- later calls: no derivative term, so the integral against the proportional term
  · rw [if_neg hone, add_zero, ← sub_eq_add_neg, sub_pos, min_lt_iff, hcancel, or_comm]

/-- **Sign of the output** for any error. -/
theorem Pid.Opposed.sign_steadyOutput_iff (h : pid₀.Opposed) (he : e ≠ 0) (hn : 1 ≤ n) :
    SignType.sign (pid₀.steadyOutput e n) = SignType.sign e ↔
      n * -pid₀.i < pid₀.p ∨ (pid₀.integralLimit.toNat : ℚ) < pid₀.p * |e| := by
  -- a negative error is the mirror image of a positive one
  rcases lt_or_gt_of_ne he with hneg | hpos
  · rw [sign_neg hneg, sign_eq_neg_one_iff, ← neg_pos, ← Pid.steadyOutput_neg, abs_of_neg hneg]
    exact h.steadyOutput_pos_iff (neg_pos.mpr hneg) hn
  · rw [sign_pos hpos, sign_eq_one_iff, abs_of_pos hpos]
    exact h.steadyOutput_pos_iff hpos hn

end RobomasterFirmware.Algorithm
