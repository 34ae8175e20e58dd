import RobomasterFirmware.Applications.CommandRange
import RobomasterFirmware.Applications.Odometry

/-!
# The Error of the Gimbal Controllers

The yaw and the pitch controller are fed the angle of the last feedback frame, not the multi-turn
position that `get_moto_measure` derives from it. In exact arithmetic their error therefore follows
the shaft within a turn, and jumps by a turn where the shaft passes the 8191/0 seam.

## Main Results
- `angle_run`: the angle of a motor is that of the last frame for it
- `errNow_change`: how the error changes between two iterations with the same set point
-/

namespace RobomasterFirmware.Applications

open RobomasterFirmware.Algorithm
open RobomasterFirmware.Lib

/-! ## Feedback -/

/-- The frame for motor `m` that an event decodes. -/
def MotionEvent.frame? (m : CanMessageId) : MotionEvent → Option RtCanMsg
  | .measure m' rxmsg => if m' = m then some rxmsg else none
  | _ => none

/-- The frames for motor `m`, in order. -/
def frames (m : CanMessageId) (es : List MotionEvent) : List RtCanMsg :=
  es.filterMap (MotionEvent.frame? m)

theorem moto_execStmt (g : Globals ℚ ℚ) (st : MotionStmt) (m : CanMessageId) :
    (execStmt g st).moto m = g.moto m := by
  cases st <;> cases m <;> rfl

theorem globals_exec (s : MotionState) (st : MotionStmt) :
    (s.exec st).globals = execStmt s.globals st := by
  cases st <;> rfl

/-- A record changes with the frames for its motor only. -/
theorem moto_next (s : MotionState) (e : MotionEvent) (m : CanMessageId) :
    (motionMachine.next s e).globals.moto m =
      match e.frame? m with
      | some rxmsg => getMotoMeasure (s.globals.moto m) rxmsg
      | none => s.globals.moto m := by
  cases e with
  | rcProcess buffer => cases m <;> rfl
  | measure m' rxmsg =>
    -- a frame for another motor goes to another record
    by_cases hm : m' = m
    · subst hm
      simp only [MotionEvent.frame?, if_true]
      exact moto_measure_self s.globals rxmsg m'
    · simp only [MotionEvent.frame?, if_neg hm]
      exact moto_measure_of_ne s.globals rxmsg hm
  | stmt =>
    -- no statement of the loop writes a motor record
    change (s.exec s.stmt).globals.moto m = _
    rw [globals_exec]
    exact moto_execStmt s.globals s.stmt m

/-- **Run lemma.** The angle of a motor is that of the last frame for it. -/
theorem angle_run (s : MotionState) {es : List MotionEvent} {m : CanMessageId} {rxmsg : RtCanMsg}
    (hlast : (frames m es).getLast? = some rxmsg) :
    ((motionMachine.run s es).globals.moto m).angle.toNat = angleField rxmsg := by
  -- Induct on the run from its end, where the last frame may have come.
  induction es using List.reverseRecOn with
  | nil => cases hlast
  | append_singleton es e ih =>
    rw [Machine.run_append, Machine.run_cons, Machine.run_nil, moto_next]
    rw [frames, List.filterMap_append] at hlast
    cases hframe : e.frame? m with
    | none =>
      -- the last frame is an earlier one
      rw [List.filterMap_cons_none hframe, List.filterMap_nil, List.append_nil] at hlast
      exact ih hlast
    | some msg =>
      rw [List.filterMap_cons_some hframe, List.filterMap_nil, List.getLast?_append_of_ne_nil _
        (List.cons_ne_nil _ _), List.getLast?_singleton, Option.some_inj] at hlast
      rw [← hlast]
      exact angle_getMotoMeasure _ msg

/-! ## The two axes -/

/-- The axes of the gimbal. -/
inductive GimbalAxis where
  | yaw
  | pit
  deriving DecidableEq, Repr

namespace GimbalAxis

/-- The motor that the axis is driven by. -/
def motor : GimbalAxis → CanMessageId
  | .yaw => .yawFeedback
  | .pit => .pitFeedback

/-- The statement of the loop that calls the controller. -/
def stmt : GimbalAxis → MotionStmt
  | .yaw => .voltageYaw
  | .pit => .voltagePit

/-- The controller. -/
def pid (g : Globals ℚ ℚ) : GimbalAxis → Pid ℚ
  | .yaw => g.pidYaw
  | .pit => g.pidPit

/-- The field of the remote-control record that moves the set point. -/
def channel (rc : RcInfo) : GimbalAxis → Int16
  | .yaw => rc.sw
  | .pit => rc.ch4

end GimbalAxis

/-- `err[NOW]` after the next statement. -/
def errNow (axis : GimbalAxis) (s : MotionState) : ℚ :=
  (axis.pid (motionMachine.next s .stmt).globals).err.now

/-- The set point that the loop computes from the channel. -/
def setPoint (ch : Int16) : GimbalAxis → ℚ
  | .yaw => ((ch.toInt + 2690 : ℤ) : ℚ)
  | .pit => ch.toInt * 0.9 + 2900

/-- The controller compares the set point with the angle of the last frame. -/
theorem errNow_eq {axis : GimbalAxis} {s : MotionState} (h : s.stmt = axis.stmt) :
    errNow axis s =
      setPoint (axis.channel s.globals.rc) axis - (s.globals.moto axis.motor).angle.toNat := by
  have hglobals : (motionMachine.next s .stmt).globals = execStmt s.globals axis.stmt := by
    change (s.exec s.stmt).globals = _
    rw [globals_exec, h]
  rw [errNow, hglobals]
  -- each controller is given its set point and the angle as measured
  cases axis with
  | yaw => exact err_now_pidCalc _ _ _
  | pit => exact err_now_pidCalc _ _ _

/-! ## Two iterations -/

/-- Two iterations of a run from `s`, the second with the same set point as the first: after `pre`
the loop is about to call the controller and the last frame was number `j`, after `mid` again, and
the last frame was number `k`. Frame `n` carries the position `x n` modulo one turn. -/
structure TwoIterations (axis : GimbalAxis) (s : MotionState) (pre mid : List MotionEvent)
    (x : ℕ → ℤ) (j k : ℕ) : Prop where
  stmt_first : (motionMachine.run s pre).stmt = axis.stmt
  stmt_second : (motionMachine.run s (pre ++ mid)).stmt = axis.stmt
  frame_first : (frames axis.motor pre).length = j + 1
  frame_second : (frames axis.motor (pre ++ mid)).length = k + 1
  encodes (n : ℕ) (hn : n < (frames axis.motor (pre ++ mid)).length) :
    Encodes (frames axis.motor (pre ++ mid))[n] (x n)
  channel : axis.channel (motionMachine.run s (pre ++ mid)).globals.rc =
    axis.channel (motionMachine.run s pre).globals.rc

/-- After `j + 1` frames the angle is that of frame number `j`. -/
theorem angle_run_of_length (s : MotionState) {es : List MotionEvent} {m : CanMessageId} {j : ℕ}
    (hlen : (frames m es).length = j + 1) {y : ℤ}
    (henc : Encodes (frames m es)[j] y) :
    (((motionMachine.run s es).globals.moto m).angle.toNat : ℤ) = y % 8192 := by
  have hj : j < (frames m es).length := by omega
  have hindex : (frames m es).length - 1 = j := by omega
  have hlast : (frames m es).getLast? = some (frames m es)[j] := by
    simp only [List.getLast?_eq_getElem?, hindex]
    exact List.getElem?_eq_getElem hj
  rw [angle_run s hlast]
  exact henc

namespace TwoIterations

variable {axis : GimbalAxis} {s : MotionState} {pre mid : List MotionEvent} {x : ℕ → ℤ} {j k : ℕ}

theorem angle_first (h : TwoIterations axis s pre mid x j k) :
    (((motionMachine.run s pre).globals.moto axis.motor).angle.toNat : ℤ) = x j % 8192 := by
  have hj : j < (frames axis.motor pre).length := by
    rw [h.frame_first]
    exact Nat.lt_succ_self j
  have happend : frames axis.motor (pre ++ mid) = frames axis.motor pre ++ frames axis.motor mid :=
    List.filterMap_append
  have henc := h.encodes j (by rw [happend, List.length_append]; omega)
  -- frame `j` of the whole run is frame `j` of its first part
  simp only [happend, List.getElem_append_left hj] at henc
  exact angle_run_of_length s h.frame_first henc

theorem angle_second (h : TwoIterations axis s pre mid x j k) :
    (((motionMachine.run s (pre ++ mid)).globals.moto axis.motor).angle.toNat : ℤ) =
      x k % 8192 :=
  angle_run_of_length s h.frame_second
    (h.encodes k (by rw [h.frame_second]; exact Nat.lt_succ_self k))

/-- The change of the error is that of the angles. -/
theorem errNow_sub (h : TwoIterations axis s pre mid x j k) :
    errNow axis (motionMachine.run s (pre ++ mid)) - errNow axis (motionMachine.run s pre) =
      ((-(x k % 8192 - x j % 8192) : ℤ) : ℚ) := by
  rw [errNow_eq h.stmt_first, errNow_eq h.stmt_second, h.channel, ← h.angle_first, ← h.angle_second]
  push_cast
  ring

end TwoIterations

/-- **The error of the gimbal.** Between two iterations with the same set point the error changes
by the angle turned, counted within a turn; this is the way of the shaft exactly if both positions
lie in the same turn. -/
theorem errNow_change {axis : GimbalAxis} {s : MotionState} {pre mid : List MotionEvent}
    {x : ℕ → ℤ} {j k : ℕ} (h : TwoIterations axis s pre mid x j k) :
    errNow axis (motionMachine.run s (pre ++ mid)) - errNow axis (motionMachine.run s pre) =
        ((-(x k - x j) + 8192 * (x k / 8192 - x j / 8192) : ℤ) : ℚ) ∧
      (errNow axis (motionMachine.run s (pre ++ mid)) - errNow axis (motionMachine.run s pre) =
          ((-(x k - x j) : ℤ) : ℚ) ↔
        x j / 8192 = x k / 8192) := by
  rw [h.errNow_sub, Int.cast_inj, Int.cast_inj]
  -- the change within a turn is the way of the shaft less the turns between the positions
  constructor <;> omega

/-- The rest of an iteration after the yaw statement, a frame with the angle `lo`, and the next
iteration up to that statement. -/
def yawIterationWith (hi lo : UInt8) : List MotionEvent :=
  List.replicate 7 .stmt ++ [.measure .yawFeedback (angleMsg hi lo)] ++ List.replicate 3 .stmt

/-- The first iteration up to the yaw statement, after a frame with the angle 8190. -/
def yawStart : List MotionEvent :=
  [.measure .yawFeedback (angleMsg 31 254)] ++ List.replicate 3 .stmt

/-- The shaft turns by 100 within a turn. -/
theorem errNow_change_within :
    errNow .yaw (motionMachine.run .powerOn (yawStart ++ yawIterationWith 31 154)) -
        errNow .yaw (motionMachine.run .powerOn yawStart) =
      ((-((8090 : ℤ) - 8190) + 8192 * (8090 / 8192 - 8190 / 8192) : ℤ) : ℚ) :=
  (@errNow_change .yaw .powerOn yawStart (yawIterationWith 31 154)
    (fun n => if n = 0 then 8190 else 8090) 0 1
    { stmt_first := by decide +kernel
      stmt_second := by decide +kernel
      frame_first := by decide
      frame_second := by decide
      encodes := by decide
      channel := by decide +kernel }).1

/-- The shaft turns by 5 through the seam, and the error grows by 8187. -/
theorem not_errNow_follows_seam :
    TwoIterations .yaw .powerOn yawStart (yawIterationWith 0 3)
        (fun n => if n = 0 then 8190 else 8195) 0 1 ∧
      |(8195 : ℤ) - 8190| < 4096 ∧
      errNow .yaw (motionMachine.run .powerOn (yawStart ++ yawIterationWith 0 3)) -
        errNow .yaw (motionMachine.run .powerOn yawStart) ≠ ((-(8195 - 8190) : ℤ) : ℚ) := by
  refine ⟨?_, by decide, by decide +kernel⟩
  exact
    { stmt_first := by decide +kernel
      stmt_second := by decide +kernel
      frame_first := by decide
      frame_second := by decide
      encodes := by decide
      channel := by decide +kernel }

end RobomasterFirmware.Applications
