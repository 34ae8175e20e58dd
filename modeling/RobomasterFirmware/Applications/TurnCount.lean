import RobomasterFirmware.Applications.Odometry

/-!
# The Range of the Turn Count

`get_moto_measure` counts turns in a 32-bit field and multiplies the count with 8192, and nothing
bounds the count: after 18 bits of turns the product overflows. No 524352 messages get that far,
and one more can.

## Main Results
- `neverOverflows_iff`: the computations overflow exactly when the turn count leaves 18 bits
- `not_neverOverflows_fastest`: the fastest motion overflows with message 524353
-/

namespace RobomasterFirmware.Applications

open RobomasterFirmware.Algorithm
open RobomasterFirmware.Lib

/-! ## One message -/

/-- `Counts t r moto`: the record shows `t` turns and the angle `r`, and has no offset. -/
structure Counts (t r : ℤ) (moto : MotoMeasure) : Prop where
  roundCnt : moto.roundCnt.toInt = t
  angle : (moto.angle.toNat : ℤ) = r
  offsetAngle : moto.offsetAngle = 0

/-- A call overflows exactly when its turn count leaves 18 bits. -/
theorem Counts.noOverflow_iff {t r : ℤ} {moto : MotoMeasure} {msg : RtCanMsg}
    (h : Counts t r moto) (hangle : angleField msg ≤ 8191) :
    NoOverflow moto msg ↔ -2 ^ 18 ≤ t + seamStep 4096 r (angleField msg) ∧
      t + seamStep 4096 r (angleField msg) < 2 ^ 18 := by
  simp only [NoOverflow, intermediates, h.roundCnt, h.angle, h.offsetAngle, UInt16.toNat_zero,
    List.forall_mem_cons, List.not_mem_nil, false_implies, implies_true, and_true]
  generalize t + seamStep 4096 r (angleField msg) = turns
  constructor
  · intro hrange
    omega
  · intro hturns
    omega

/-- **Step lemma.** -/
theorem Counts.getMotoMeasure {t r : ℤ} {moto : MotoMeasure} {msg : RtCanMsg}
    (h : Counts t r moto) (hno : NoOverflow moto msg) :
    Counts (t + seamStep 4096 r (angleField msg)) (angleField msg) (getMotoMeasure moto msg) where
  roundCnt := by rw [toInt_roundCnt_getMotoMeasure hno, h.roundCnt, h.angle]
  angle := by rw [angle_getMotoMeasure]
  offsetAngle := by rw [offsetAngle_getMotoMeasure, h.offsetAngle]

/-! ## A run -/

/-- The angle of the record after `n` messages: zero at first. -/
def reading (msg : ℕ → RtCanMsg) : ℕ → ℤ
  | 0 => 0
  | n + 1 => angleField (msg n)

/-- The turns counted after `n` messages. -/
def turns (msg : ℕ → RtCanMsg) : ℕ → ℤ := turnCount 4096 (reading msg)

/-- None of the first `n` calls on the zero record overflows. -/
def NeverOverflows (msg : ℕ → RtCanMsg) (n : ℕ) : Prop :=
  ∀ k < n, NoOverflow (measureRun MotoMeasure.zero msg k) (msg k)

section Run

variable {msg : ℕ → RtCanMsg} {n : ℕ}

/-- **Run lemma.** Without overflow the record shows the turns counted. -/
theorem counts_measureRun (h : NeverOverflows msg n) :
    Counts (turns msg n) (reading msg n) (measureRun MotoMeasure.zero msg n) := by
  induction n with
  | zero => exact ⟨rfl, rfl, rfl⟩
  | succ n ih =>
    have hprev := ih fun k hk => h k (Nat.lt_succ_of_lt hk)
    exact hprev.getMotoMeasure (h n (Nat.lt_succ_self n))

/-- The calls overflow exactly when a turn count leaves 18 bits. -/
theorem neverOverflows_iff_turns (hangle : ∀ k < n, angleField (msg k) ≤ 8191) :
    NeverOverflows msg n ↔ ∀ k ≤ n, -2 ^ 18 ≤ turns msg k ∧ turns msg k < 2 ^ 18 := by
  constructor
  · intro h k hk
    cases k with
    | zero => simp [turns, turnCount]
    | succ k =>
      have hprev : Counts _ _ _ := counts_measureRun fun i (hi : i < k) => h i (by omega)
      exact (hprev.noOverflow_iff (hangle k hk)).mp (h k hk)
  · intro h k hk
    -- the calls before `k` do not overflow, so that the record shows the turns counted
    induction k using Nat.strong_induction_on with
    | _ k ih =>
      have hprev : Counts _ _ _ := counts_measureRun fun i (hi : i < k) => ih i hi (by omega)
      exact (hprev.noOverflow_iff (hangle k hk)).mpr (h (k + 1) hk)

/-- The readings lie within one turn. -/
theorem reading_mem (hangle : ∀ k < n, angleField (msg k) ≤ 8191) (k : ℕ) (hk : k ≤ n) :
    0 ≤ reading msg k ∧ reading msg k < 2 * 4096 := by
  cases k with
  | zero => simp [reading]
  | succ k =>
    have hfield := hangle k hk
    simp only [reading]
    omega

/-- Over 524352 messages the turn count stays within 18 bits. -/
theorem turns_mem_of_le (hangle : ∀ k < n, angleField (msg k) ≤ 8191) (hn : n ≤ 524352) :
    -2 ^ 18 ≤ turns msg n ∧ turns msg n < 2 ^ 18 := by
  have hdist := abs_unwrapped_sub_le (reading_mem hangle)
  have hreading := reading_mem hangle n le_rfl
  have hzero : reading msg 0 = 0 := rfl
  have hturns : unwrapped 4096 (reading msg) n = 8192 * turns msg n + reading msg n := rfl
  rw [hzero, hturns, abs_le] at hdist
  omega

/-- **No overflow in time.** The computations of a run stay within 32 bits exactly as long as the
turn count stays within 18 bits, and 524352 messages are too few to leave them. -/
theorem neverOverflows_iff (hangle : ∀ k < n, angleField (msg k) ≤ 8191) :
    (NeverOverflows msg n ↔ ∀ k ≤ n, -2 ^ 18 ≤ turns msg k ∧ turns msg k < 2 ^ 18) ∧
      (n ≤ 524352 → NeverOverflows msg n) := by
  refine ⟨neverOverflows_iff_turns hangle, fun hn => ?_⟩
  rw [neverOverflows_iff_turns hangle]
  intro k hk
  exact turns_mem_of_le (fun i hi => hangle i (by omega)) (by omega)

end Run

/-- The messages of a shaft that turns by a third of a turn with each of them. -/
def turningMsg (k : ℕ) : RtCanMsg :=
  if k % 3 = 0 then angleMsg 11 184 else if k % 3 = 1 then angleMsg 23 112 else angleMsg 0 0

/-- The shaft turns 174784 times. -/
theorem neverOverflows_turning :
    (NeverOverflows turningMsg 524352 ↔
        ∀ k ≤ 524352, -2 ^ 18 ≤ turns turningMsg k ∧ turns turningMsg k < 2 ^ 18) ∧
      (524352 ≤ 524352 → NeverOverflows turningMsg 524352) :=
  neverOverflows_iff fun k _ => by
    unfold turningMsg
    split_ifs <;> decide

/-! ## The fastest motion -/

/-- The motion that is counted as the longest way: half a turn where it leads to the upper half of
the turn, and one less where it leads through the seam. -/
def fastest : ℕ → ℤ
  | 0 => 0
  | n + 1 => fastest n + if fastest n % 8192 < 4096 then 4096 else 4095

/-- Its messages. -/
def fastestMsg (n : ℕ) : RtCanMsg :=
  angleMsg (UInt8.ofNat ((fastest (n + 1) % 8192).toNat / 256))
    (UInt8.ofNat ((fastest (n + 1) % 8192).toNat % 256))

theorem angleField_fastestMsg (n : ℕ) :
    (angleField (fastestMsg n) : ℤ) = fastest (n + 1) % 8192 := by
  have hnonneg : 0 ≤ fastest (n + 1) % 8192 := by omega
  have hlt : fastest (n + 1) % 8192 < 8192 := by omega
  have hfield : angleField (fastestMsg n) = 256 *
      (UInt8.ofNat ((fastest (n + 1) % 8192).toNat / 256)).toNat +
        (UInt8.ofNat ((fastest (n + 1) % 8192).toNat % 256)).toNat := rfl
  rw [hfield, UInt8.toNat_ofNat', UInt8.toNat_ofNat']
  omega

theorem reading_fastestMsg (n : ℕ) : reading fastestMsg n = fastest n % 8192 := by
  cases n with
  | zero => rfl
  | succ n => exact angleField_fastestMsg n

/-- The turn count follows the fastest motion. -/
theorem turns_fastestMsg (n : ℕ) : turns fastestMsg n = fastest n / 8192 := by
  induction n with
  | zero => rfl
  | succ n ih =>
    have hsucc : turns fastestMsg (n + 1) = turns fastestMsg n +
        seamStep 4096 (reading fastestMsg n) (reading fastestMsg (n + 1)) := rfl
    rw [hsucc, ih, reading_fastestMsg, reading_fastestMsg, fastest, seamStep]
    -- half a turn stays within the turn, a shorter way passes the seam
    split_ifs <;> omega

/-- Two messages carry the motion one less than a turn, or two less where both pass the seam. -/
theorem fastest_add_two (n : ℕ) :
    fastest (n + 2) = fastest n + if fastest n % 8192 = 4096 then 8190 else 8191 := by
  rw [fastest, fastest]
  split_ifs <;> omega

/-- The shorter pairs are 8191 pairs apart. -/
theorem fastest_two_mul (k : ℕ) : fastest (2 * k) = 8191 * k - (k + 4094) / 8191 := by
  induction k with
  | zero => rfl
  | succ k ih =>
    have hpair : fastest (2 * (k + 1)) = _ := fastest_add_two (2 * k)
    -- where the pair starts in the turn
    have hstart : (8191 * (k : ℤ) - (k + 4094) / 8191) % 8192 =
        (4094 - ((k : ℤ) + 4094) % 8191) % 8192 := by
      omega
    rw [hpair, ih, hstart]
    push_cast
    split_ifs <;> omega

/-- The fastest motion leaves the 18 bits of turns with message 524353. -/
theorem not_neverOverflows_fastest :
    (∀ k, angleField (fastestMsg k) ≤ 8191) ∧ ¬ NeverOverflows fastestMsg 524353 := by
  have hangle (k : ℕ) : angleField (fastestMsg k) ≤ 8191 := by
    have hfield := angleField_fastestMsg k
    omega
  refine ⟨hangle, fun h => ?_⟩
  have hturns := (neverOverflows_iff_turns fun k _ => hangle k).mp h 524353 le_rfl
  have heven := fastest_two_mul 262176
  have hlast : fastest 524353 = fastest (2 * 262176) +
      if fastest (2 * 262176) % 8192 < 4096 then 4096 else 4095 := by
    rw [fastest]
  rw [turns_fastestMsg, hlast, heven] at hturns
  norm_num at hturns

end RobomasterFirmware.Applications
