import RobomasterFirmware.Applications.CanRw
import RobomasterFirmware.Lib.Unwrap

/-!
# Multi-Turn Positions

`get_moto_measure` unwraps the rotor angle: the turn count follows the true position of the shaft
as long as it moves by less than half a turn between two messages. The first message after power-on
is compared with an angle that was never measured, which is right only for half of the possible
start positions.

## Main Results
- `getMotoMeasure_unwraps`: the total angle moves exactly as the shaft does
- `powerOn_exact_iff`: from power-on the record is right exactly for start positions up to 4096
-/

namespace RobomasterFirmware.Applications

open RobomasterFirmware.Algorithm
open RobomasterFirmware.Lib

/-! ## One message -/

/-- The angle field of a feedback message. -/
def angleField (msg : RtCanMsg) : ℕ := 256 * (msg.data.get 0).toNat + (msg.data.get 1).toNat

/-- The exact values of the `int` computations of `get_moto_measure`. -/
def intermediates (moto : MotoMeasure) (msg : RtCanMsg) : List ℤ :=
  let roundCnt := moto.roundCnt.toInt + seamStep 4096 moto.angle.toNat (angleField msg)
  [roundCnt, roundCnt * 8192, roundCnt * 8192 + angleField msg,
    roundCnt * 8192 + angleField msg - moto.offsetAngle.toNat]

/-- No computation of the call overflows. -/
def NoOverflow (moto : MotoMeasure) (msg : RtCanMsg) : Prop :=
  ∀ v ∈ intermediates moto msg, -2 ^ 31 ≤ v ∧ v < 2 ^ 31

instance (moto : MotoMeasure) (msg : RtCanMsg) : Decidable (NoOverflow moto msg) :=
  inferInstanceAs (Decidable (∀ v ∈ intermediates moto msg, -2 ^ 31 ≤ v ∧ v < 2 ^ 31))

/-- The total angle is the one that turn count, angle and offset give. -/
def Consistent (moto : MotoMeasure) : Prop :=
  moto.totalAngle.toInt =
    moto.roundCnt.toInt * 8192 + moto.angle.toNat - moto.offsetAngle.toNat

instance (moto : MotoMeasure) : Decidable (Consistent moto) :=
  inferInstanceAs (Decidable (_ = _))

theorem lastAngle_getMotoMeasure (moto : MotoMeasure) (msg : RtCanMsg) :
    (getMotoMeasure moto msg).lastAngle = moto.angle := by
  unfold getMotoMeasure
  dsimp only
  -- the old angle is saved before the new one is read, in every branch
  split_ifs <;> rfl

theorem offsetAngle_getMotoMeasure (moto : MotoMeasure) (msg : RtCanMsg) :
    (getMotoMeasure moto msg).offsetAngle = moto.offsetAngle := by
  unfold getMotoMeasure
  dsimp only
  split_ifs <;> rfl

/-- The two bytes as `get_moto_measure` combines them. -/
private theorem toNat_angle (msg : RtCanMsg) :
    (UInt16.ofNat ((msg.data.get 0).toNat <<< 8 ||| (msg.data.get 1).toNat)).toNat =
      angleField msg := by
  have h0 := (msg.data.get 0).toNat_lt
  have h1 := (msg.data.get 1).toNat_lt
  rw [shiftLeft_lor_eq_add h1, UInt16.toNat_ofNat', angleField]
  omega

theorem angle_getMotoMeasure (moto : MotoMeasure) (msg : RtCanMsg) :
    (getMotoMeasure moto msg).angle.toNat = angleField msg := by
  rw [← toNat_angle]
  unfold getMotoMeasure
  dsimp only
  split_ifs <;> rfl

/-- The turn count after a message, as the machine computes it. -/
theorem roundCnt_getMotoMeasure (moto : MotoMeasure) (msg : RtCanMsg) :
    (getMotoMeasure moto msg).roundCnt =
      moto.roundCnt + Int32.ofInt (seamStep 4096 moto.angle.toNat (angleField msg)) := by
  unfold getMotoMeasure seamStep
  simp only [toNat_angle]
  -- `> 4096` takes a turn off, `< -4096` adds one
  split_ifs
  · exact Int32.sub_eq_add_neg _ 1
  · exact congrArg (moto.roundCnt + ·) (by decide)
  · exact (Int32.add_zero _).symm

/-- The total angle after a message, as the machine computes it. -/
theorem totalAngle_getMotoMeasure (moto : MotoMeasure) (msg : RtCanMsg) :
    (getMotoMeasure moto msg).totalAngle =
      (getMotoMeasure moto msg).roundCnt * 8192 + Int32.ofNat (angleField msg) -
        Int32.ofNat moto.offsetAngle.toNat := by
  rw [← angle_getMotoMeasure moto msg]
  unfold getMotoMeasure
  dsimp only
  split_ifs <;> rfl

/-- Without overflow the turn count changes by the seam step. -/
theorem toInt_roundCnt_getMotoMeasure {moto : MotoMeasure} {msg : RtCanMsg}
    (h : NoOverflow moto msg) :
    (getMotoMeasure moto msg).roundCnt.toInt =
      moto.roundCnt.toInt + seamStep 4096 moto.angle.toNat (angleField msg) := by
  obtain ⟨hlo, hhi⟩ := h (moto.roundCnt.toInt +
    seamStep 4096 moto.angle.toNat (angleField msg)) (by simp [intermediates])
  -- the step is -1, 0 or 1
  have hstep : (Int32.ofInt (seamStep 4096 moto.angle.toNat (angleField msg))).toInt =
      seamStep 4096 moto.angle.toNat (angleField msg) := by
    unfold seamStep
    split_ifs <;> rfl
  rw [roundCnt_getMotoMeasure, Int32.toInt_add, hstep]
  exact Int.bmod_eq_of_le (by omega) (by omega)

/-- Without overflow the total angle is consistent after every message. -/
theorem consistent_getMotoMeasure {moto : MotoMeasure} {msg : RtCanMsg}
    (h : NoOverflow moto msg) : Consistent (getMotoMeasure moto msg) := by
  have hround := toInt_roundCnt_getMotoMeasure h
  have hangle : angleField msg < 65536 := by
    rw [← angle_getMotoMeasure moto msg]
    exact UInt16.toNat_lt _
  have hoffset := moto.offsetAngle.toNat_lt
  simp only [NoOverflow, intermediates, ← hround, List.forall_mem_cons] at h
  -- the intermediate results in the order of the C expression
  obtain ⟨-, hturns, hsum, htotal, -⟩ := h
  have h8192 : (8192 : Int32).toInt = 8192 := rfl
  have hfield : (Int32.ofNat (angleField msg)).toInt = angleField msg :=
    Int32.toInt_ofNat_of_lt (by omega)
  have hoff : (Int32.ofNat moto.offsetAngle.toNat).toInt = moto.offsetAngle.toNat :=
    Int32.toInt_ofNat_of_lt (by omega)
  -- each operation in turn is exact
  have hmul : ((getMotoMeasure moto msg).roundCnt * 8192).toInt =
      (getMotoMeasure moto msg).roundCnt.toInt * 8192 := by
    rw [Int32.toInt_mul, h8192]
    exact Int.bmod_eq_of_le (by omega) (by omega)
  have hadd : ((getMotoMeasure moto msg).roundCnt * 8192 + Int32.ofNat (angleField msg)).toInt =
      (getMotoMeasure moto msg).roundCnt.toInt * 8192 + angleField msg := by
    rw [Int32.toInt_add, hmul, hfield]
    exact Int.bmod_eq_of_le (by omega) (by omega)
  rw [Consistent, totalAngle_getMotoMeasure, angle_getMotoMeasure, offsetAngle_getMotoMeasure,
    Int32.toInt_sub, hadd, hoff]
  exact Int.bmod_eq_of_le (by omega) (by omega)

/-- A repeated message changes neither the turn count nor the total angle. -/
theorem getMotoMeasure_repeat (moto : MotoMeasure) (msg : RtCanMsg) :
    (getMotoMeasure (getMotoMeasure moto msg) msg).roundCnt = (getMotoMeasure moto msg).roundCnt ∧
      (getMotoMeasure (getMotoMeasure moto msg) msg).totalAngle =
        (getMotoMeasure moto msg).totalAngle := by
  have hround : (getMotoMeasure (getMotoMeasure moto msg) msg).roundCnt =
      (getMotoMeasure moto msg).roundCnt := by
    -- the second time the angle is compared with itself
    rw [roundCnt_getMotoMeasure, angle_getMotoMeasure, seamStep_self (by decide)]
    exact Int32.add_zero _
  refine ⟨hround, ?_⟩
  rw [totalAngle_getMotoMeasure, hround, offsetAngle_getMotoMeasure, totalAngle_getMotoMeasure]

/-! ## A motion -/

/-- The record after the first `n` messages. -/
def measureRun (moto : MotoMeasure) (msg : ℕ → RtCanMsg) : ℕ → MotoMeasure
  | 0 => moto
  | n + 1 => getMotoMeasure (measureRun moto msg n) (msg n)

/-- The message carries the position `x` modulo one turn. -/
def Encodes (msg : RtCanMsg) (x : ℤ) : Prop := (angleField msg : ℤ) = x % 8192

instance (msg : RtCanMsg) (x : ℤ) : Decidable (Encodes msg x) :=
  inferInstanceAs (Decidable (_ = _))

/-- `Tracks c x moto`: the record shows the position `x`, with `c` turns too many. -/
structure Tracks (c x : ℤ) (moto : MotoMeasure) : Prop where
  angle : (moto.angle.toNat : ℤ) = x % 8192
  roundCnt : moto.roundCnt.toInt = x / 8192 + c
  consistent : Consistent moto

/-- The total angle of a tracking record is the position, up to offset and surplus turns. -/
theorem Tracks.totalAngle {c x : ℤ} {moto : MotoMeasure} (h : Tracks c x moto) :
    moto.totalAngle.toInt = x + c * 8192 - moto.offsetAngle.toNat := by
  have hconsistent := h.consistent
  rw [Consistent, h.roundCnt, h.angle] at hconsistent
  -- quotient and rest make up the position
  omega

/-- **Step lemma.** A message for a position less than half a turn away keeps the surplus. -/
theorem Tracks.getMotoMeasure {c x y : ℤ} {moto : MotoMeasure} {msg : RtCanMsg}
    (h : Tracks c x moto) (hxy : |y - x| < 4096) (henc : Encodes msg y)
    (hno : NoOverflow moto msg) : Tracks c y (getMotoMeasure moto msg) where
  angle := by rw [angle_getMotoMeasure, henc]
  roundCnt := by
    have hunwrap : y / 8192 = x / 8192 + seamStep 4096 (x % 8192) (y % 8192) :=
      ediv_eq_add_seamStep hxy
    rw [toInt_roundCnt_getMotoMeasure hno, h.roundCnt, h.angle, henc]
    -- the surplus is on both sides
    omega
  consistent := consistent_getMotoMeasure hno

/-- **Run lemma.** Along a slow motion the surplus never changes. -/
theorem Tracks.measureRun {c : ℤ} {x : ℕ → ℤ} {moto : MotoMeasure} {msg : ℕ → RtCanMsg} {n : ℕ}
    (h : Tracks c (x 0) moto) (hslow : ∀ k < n, |x (k + 1) - x k| < 4096)
    (henc : ∀ k < n, Encodes (msg k) (x (k + 1)))
    (hno : ∀ k < n, Tracks c (x k) (measureRun moto msg k) →
      NoOverflow (measureRun moto msg k) (msg k)) :
    Tracks c (x n) (measureRun moto msg n) := by
  -- induction on the messages; the hypothesis is about each record on the way
  induction n with
  | zero => exact h
  | succ n ih =>
    have hn := ih (fun k hk => hslow k (by omega)) (fun k hk => henc k (by omega))
      (fun k hk => hno k (by omega))
    exact hn.getMotoMeasure (hslow n (by omega)) (henc n (by omega)) (hno n (by omega) hn)

theorem offsetAngle_measureRun (moto : MotoMeasure) (msg : ℕ → RtCanMsg) (n : ℕ) :
    (measureRun moto msg n).offsetAngle = moto.offsetAngle := by
  induction n with
  | zero => rfl
  | succ n ih => rw [measureRun, offsetAngle_getMotoMeasure, ih]

/-- **Unwrapping is exact.** Over any slow motion the total angle changes by exactly the distance
the shaft has turned, and the record stays consistent; and a repeated message changes nothing. -/
theorem getMotoMeasure_unwraps :
    (∀ (moto : MotoMeasure) (x : ℕ → ℤ) (msg : ℕ → RtCanMsg) (n : ℕ),
      (moto.angle.toNat : ℤ) = x 0 % 8192 → Consistent moto →
      (∀ k < n, |x (k + 1) - x k| < 4096) → (∀ k < n, Encodes (msg k) (x (k + 1))) →
      (∀ k < n, NoOverflow (measureRun moto msg k) (msg k)) →
        (measureRun moto msg n).totalAngle.toInt - moto.totalAngle.toInt = x n - x 0 ∧
        (0 < n → ((measureRun moto msg n).lastAngle.toNat : ℤ) = x (n - 1) % 8192) ∧
        ((measureRun moto msg n).angle.toNat : ℤ) = x n % 8192 ∧
        Consistent (measureRun moto msg n)) ∧
    ∀ (moto : MotoMeasure) (msg : RtCanMsg),
      (getMotoMeasure (getMotoMeasure moto msg) msg).roundCnt = (getMotoMeasure moto msg).roundCnt ∧
      (getMotoMeasure (getMotoMeasure moto msg) msg).totalAngle =
        (getMotoMeasure moto msg).totalAngle := by
  refine ⟨?_, getMotoMeasure_repeat⟩
  intro moto x msg n hangle hconsistent hslow henc hno
  -- any record with the right angle tracks the position, with some surplus
  have hstart : Tracks (moto.roundCnt.toInt - x 0 / 8192) (x 0) moto :=
    ⟨hangle, by omega, hconsistent⟩
  have hrun (m : ℕ) (hm : m ≤ n) :
      Tracks (moto.roundCnt.toInt - x 0 / 8192) (x m) (measureRun moto msg m) :=
    hstart.measureRun (fun k hk => hslow k (by omega)) (fun k hk => henc k (by omega))
      (fun k hk _ => hno k (by omega))
  have htotal := (hrun n le_rfl).totalAngle
  rw [offsetAngle_measureRun] at htotal
  refine ⟨?_, ?_, (hrun n le_rfl).angle, (hrun n le_rfl).consistent⟩
  · rw [htotal, hstart.totalAngle]
    omega
  · intro hn
    obtain ⟨m, rfl⟩ : ∃ m, n = m + 1 := ⟨n - 1, by omega⟩
    rw [measureRun, lastAngle_getMotoMeasure]
    exact (hrun m (by omega)).angle

/-- A feedback message with the given angle bytes. -/
def angleMsg (hi lo : UInt8) : RtCanMsg :=
  { RtCanMsg.zero with len := 8, data := #v[hi, lo, 0, 0, 0, 0, 0, 0] }

/-- Forward through the seam and back again: 8190, 8195, 8180. -/
theorem getMotoMeasure_unwraps_seam :
    (measureRun { MotoMeasure.zero with angle := 8190, totalAngle := 8190 }
        (fun k => if k = 0 then angleMsg 0 3 else angleMsg 31 244) 2).totalAngle.toInt -
      (8190 : Int32).toInt = 8180 - 8190 :=
  (getMotoMeasure_unwraps.1 { MotoMeasure.zero with angle := 8190, totalAngle := 8190 }
    (fun k => if k = 0 then 8190 else if k = 1 then 8195 else 8180)
    (fun k => if k = 0 then angleMsg 0 3 else angleMsg 31 244) 2
    (by decide) (by decide) (by decide) (by decide) (by decide)).1

/-! ## Power-on -/

section PowerOn

variable {F D : Type} [CFloat F] [CFloat D]

/-- `PID_Init` leaves every feedback record at angle zero, with no turns counted. -/
theorem moto_powerOn (m : CanMessageId) :
    ((powerOn : Globals F D).moto m).angle = 0 ∧ ((powerOn : Globals F D).moto m).roundCnt = 0 ∧
      ((powerOn : Globals F D).moto m).offsetAngle = 0 := by
  cases m <;> exact ⟨rfl, rfl, rfl⟩

/-- The turns that the first message after power-on invents. -/
def inventedTurns (x : ℤ) : ℤ := if x ≤ 4096 then 0 else -1

/-- While the position stays below `2 ^ 30` and the surplus is at most one turn, nothing
overflows. -/
theorem noOverflow_of_eq {c y : ℤ} (hc : -1 ≤ c ∧ c ≤ 0) {moto : MotoMeasure} {msg : RtCanMsg}
    (hround : moto.roundCnt.toInt + seamStep 4096 moto.angle.toNat (angleField msg) = y / 8192 + c)
    (henc : Encodes msg y) (hy : |y| < 2 ^ 30) : NoOverflow moto msg := by
  obtain ⟨hlo, hhi⟩ := abs_lt.mp hy
  have hoffset := moto.offsetAngle.toNat_lt
  have hangle : (angleField msg : ℤ) = y % 8192 := henc
  simp only [NoOverflow, intermediates, hround, List.forall_mem_cons]
  -- turns, product, sum and difference, each within 32 bits
  refine ⟨by omega, by omega, by omega, by omega, ?_⟩
  exact List.forall_mem_nil _

theorem noOverflow_of_tracks {c x y : ℤ} (hc : -1 ≤ c ∧ c ≤ 0) {moto : MotoMeasure}
    {msg : RtCanMsg} (h : Tracks c x moto) (hxy : |y - x| < 4096) (henc : Encodes msg y)
    (hy : |y| < 2 ^ 30) : NoOverflow moto msg := by
  have hunwrap : y / 8192 = x / 8192 + seamStep 4096 (x % 8192) (y % 8192) :=
    ediv_eq_add_seamStep hxy
  refine noOverflow_of_eq hc ?_ henc hy
  rw [h.roundCnt, h.angle, henc]
  omega

theorem inventedTurns_mem (x : ℤ) : -1 ≤ inventedTurns x ∧ inventedTurns x ≤ 0 := by
  unfold inventedTurns
  split_ifs <;> decide

/-- After the first message the record tracks the start position, with the invented turn. -/
theorem tracks_first (m : CanMessageId) {x : ℤ} (hx : 0 ≤ x ∧ x ≤ 8191) {msg : RtCanMsg}
    (henc : Encodes msg x) :
    Tracks (inventedTurns x) x (getMotoMeasure ((powerOn : Globals F D).moto m) msg) := by
  obtain ⟨hangle, hround, -⟩ := moto_powerOn (F := F) (D := D) m
  have hstep : seamStep 4096 ((powerOn : Globals F D).moto m).angle.toNat (angleField msg) =
      x / 8192 + inventedTurns x := by
    have hfield : (angleField msg : ℤ) = x % 8192 := henc
    rw [hangle, hfield]
    -- the start position is compared with the angle zero
    unfold seamStep inventedTurns
    simp only [UInt16.toNat_zero, Nat.cast_zero]
    split_ifs <;> omega
  have hcount : ((powerOn : Globals F D).moto m).roundCnt.toInt = 0 := by
    rw [hround]
    rfl
  -- one message cannot overflow anything
  have hno : NoOverflow ((powerOn : Globals F D).moto m) msg :=
    noOverflow_of_eq (inventedTurns_mem x) (by rw [hcount, hstep, zero_add]) henc
      (abs_lt.mpr ⟨by omega, by omega⟩)
  exact
    { angle := by rw [angle_getMotoMeasure, henc]
      roundCnt := by rw [toInt_roundCnt_getMotoMeasure hno, hcount, hstep, zero_add]
      consistent := consistent_getMotoMeasure hno }

/-- The record of motor `m` after the messages for `x 0, ..., x n` shows the position `x n`. -/
def ExactAfter (g : Globals F D) (m : CanMessageId) (x : ℕ → ℤ) (msg : ℕ → RtCanMsg) (n : ℕ) :
    Prop :=
  (measureRun (g.moto m) msg (n + 1)).totalAngle.toInt = x n - (g.moto m).offsetAngle.toNat ∧
    (measureRun (g.moto m) msg (n + 1)).roundCnt.toInt = x n / 8192

instance (g : Globals F D) (m : CanMessageId) (x : ℕ → ℤ) (msg : ℕ → RtCanMsg) (n : ℕ) :
    Decidable (ExactAfter g m x msg n) :=
  inferInstanceAs (Decidable (_ ∧ _))

theorem measureRun_succ_shift (moto : MotoMeasure) (msg : ℕ → RtCanMsg) (n : ℕ) :
    measureRun moto msg (n + 1) =
      measureRun (getMotoMeasure moto (msg 0)) (fun k => msg (k + 1)) n := by
  -- the first message may as well be taken to the start
  induction n with
  | zero => rfl
  | succ n ih => rw [measureRun, ih, measureRun]

/-- **Power-on.** Whatever the motion, the record of each of the seven motors is right exactly if
the shaft started at most half a turn from the angle zero that the record was initialised with. -/
theorem powerOn_exact_iff (m : CanMessageId) (x : ℕ → ℤ) (msg : ℕ → RtCanMsg) (n : ℕ)
    (hstart : 0 ≤ x 0 ∧ x 0 ≤ 8191) (hslow : ∀ k < n, |x (k + 1) - x k| < 4096)
    (hsmall : ∀ k ≤ n, |x k| < 2 ^ 30) (henc : ∀ k ≤ n, Encodes (msg k) (x k)) :
    ExactAfter (powerOn : Globals F D) m x msg n ↔ x 0 ≤ 4096 := by
  have hrun : Tracks (inventedTurns (x 0)) (x n)
      (measureRun ((powerOn : Globals F D).moto m) msg (n + 1)) := by
    -- the first message invents the turn, the others keep it
    rw [measureRun_succ_shift]
    refine (tracks_first m hstart (henc 0 (by omega))).measureRun hslow
      (fun k hk => henc (k + 1) (by omega)) fun k hk hk' => ?_
    exact noOverflow_of_tracks (inventedTurns_mem _) hk' (hslow k hk) (henc (k + 1) (by omega))
      (hsmall (k + 1) (by omega))
  have htotal := hrun.totalAngle
  rw [offsetAngle_measureRun] at htotal
  rw [ExactAfter, htotal, hrun.roundCnt, inventedTurns]
  -- exact where no turn was invented, and one turn short where one was
  split_ifs with hle <;> simp only [hle, iff_true, iff_false] <;> omega

end PowerOn

/-- A shaft at rest at position 100. -/
theorem powerOn_exact_rest :
    ExactAfter (powerOn : Globals ℚ ℚ) .motorLF (fun _ => 100) (fun _ => angleMsg 0 100) 3 ↔
      (100 : ℤ) ≤ 4096 :=
  powerOn_exact_iff .motorLF (fun _ => 100) (fun _ => angleMsg 0 100) 3
    (by decide) (by decide) (by decide) (by decide)

/-- A shaft at rest at position 5000, encoded correctly, is shown one turn behind. -/
theorem powerOn_not_exact_rest :
    Encodes (angleMsg 19 136) 5000 ∧
      ¬ ExactAfter (powerOn : Globals ℚ ℚ) .yawFeedback (fun _ => 5000)
        (fun _ => angleMsg 19 136) 0 := by
  decide

end RobomasterFirmware.Applications
