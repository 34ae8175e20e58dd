import RobomasterFirmware.Algorithm.PackageProcess
import RobomasterFirmware.Algorithm.Pid
import Mathlib.Data.Fin.VecNotation

/-!
# The Motion Task

`applications/motionTask.c` and the globals it shares with the other threads: `PID_Init`,
`Mecanum_calc`, and the loop of `motionTask_entry`, one definition for each of its statements, so
that the events of other threads can fall between any two of them.

`F` is the source's `float`, `D` its `double`.
-/

namespace RobomasterFirmware.Applications

open RobomasterFirmware.Algorithm
open RobomasterFirmware.Lib

/-! ## Globals -/

/-- The globals shared by the receive callback, the CAN thread and the motion task. -/
structure Globals (F D : Type) where
  rc : RcInfo
  motoMacnum : Fin 4 → MotoMeasure
  motoYaw : MotoMeasure
  motoPit : MotoMeasure
  motoPoke : MotoMeasure
  pidMacnum : Fin 4 → Pid F
  pidYaw : Pid F
  pidPit : Pid F
  pidPoke : Pid F
  rcch : Fin 3 → D
  setSpdMacnum : Fin 4 → Int16
  currentMacnum : Fin 4 → Int16
  voltageYaw : Int16
  voltagePit : Int16

section MotionTask

variable {F D : Type} [CFloat F] [CFloat D] [CNarrow D F]

/-- The globals before any code has run. -/
def Globals.zero : Globals F D where
  rc := .zero
  motoMacnum _ := .zero
  motoYaw := .zero
  motoPit := .zero
  motoPoke := .zero
  pidMacnum _ := .zero
  pidYaw := .zero
  pidPit := .zero
  pidPoke := .zero
  rcch _ := 0
  setSpdMacnum _ := 0
  currentMacnum _ := 0
  voltageYaw := 0
  voltagePit := 0

/-- `PID_Init`. -/
def pidInit (g : Globals F D) : Globals F D :=
  let g := { g with
    pidMacnum := fun i => pidStructInit (g.pidMacnum i) POSITION_PID 30000 5000
      (CFloat.ofRat 5) (CFloat.ofRat 0) (CFloat.ofRat 0.1) }
  let g := { g with
    pidYaw := pidStructInit g.pidYaw POSITION_PID 30000 5000
      (CFloat.ofRat 100) (CFloat.ofRat (-0.5)) (CFloat.ofRat 0.2) }
  let g := { g with
    pidPit := pidStructInit g.pidPit POSITION_PID 30000 5000
      (CFloat.ofRat 100) (CFloat.ofRat (-0.5)) (CFloat.ofRat 0.1) }
  let g := { g with
    pidPoke := pidStructInit g.pidPoke POSITION_PID 30000 5000
      (CFloat.ofRat 50) (CFloat.ofRat (-0.5)) (CFloat.ofRat 0.1) }
  let g := { g with motoYaw.correctingAngle := 5461 }
  let g := { g with motoPit.correctingAngle := 2730 }
  let g := { g with motoYaw.offsetAngle := 0 }
  { g with motoPit.offsetAngle := 0 }

/-- The globals when the threads start to interleave. -/
def powerOn : Globals F D := pidInit .zero

/-! ## `Mecanum_calc` -/

def MAX_CHASSIS_VX_SPEED : ℤ := 14000

def MAX_CHASSIS_VY_SPEED : ℤ := 14000

def MAX_CHASSIS_OMEGA_SPEED : ℤ := 10000

/-- `MAX_WHEEL_SPEED`, converted to `int` at the call. -/
def MAX_WHEEL_SPEED : Int32 := 6000

/-- The two assignments that clamp one axis of `Mecanum_calc`. -/
def limitSpeed (v : F) (bound : ℤ) : F :=
  let v := if v > CFloat.ofInt bound then CFloat.ofInt bound else v
  if v < CFloat.ofInt (-bound) then CFloat.ofInt (-bound) else v

/-- The four wheel speeds (`CHASSIS_OLD`), before the conversion to `int16_t`. -/
def mecanumMix (vx vy omega : F) : Fin 4 → F :=
  ![-vx + vy - omega, -vx - vy - omega, vx - vy - omega, vx + vy - omega]

/-- `Mecanum_calc`. The maximum over the wheels is computed and not used: the rescaling to
`each_max_spd` is commented out. -/
def mecanumCalc (vx vy omega : F) (_eachMaxSpd : Int32) : Fin 4 → Int16 :=
  let vx := limitSpeed vx MAX_CHASSIS_VX_SPEED
  let vy := limitSpeed vy MAX_CHASSIS_VY_SPEED
  let omega := limitSpeed omega MAX_CHASSIS_OMEGA_SPEED
  fun i => CFloat.toInt16 (mecanumMix vx vy omega i)

/-! ## The loop -/

/-- The three channels that drive the chassis. -/
def stick (rc : RcInfo) : Fin 3 → Int16 := ![rc.ch1, rc.ch2, rc.ch3]

/-- `-rc.ch1*9.0` and its two siblings. -/
def scaleStick (ch : Int16) : D := CFloat.ofInt (-ch.toInt) * CFloat.ofRat 9.0

/-- `pid_calc(&pid_yaw,moto_yaw.angle,rc.sw+2690)`. -/
def yawControl (g : Globals F D) : Pid F × F :=
  pidCalc g.pidYaw (CFloat.ofInt g.motoYaw.angle.toNat) (CFloat.ofInt (g.rc.sw.toInt + 2690))

/-- `pid_calc(&pid_pit,moto_pit.angle,rc.ch4*0.9+2900)`. -/
def pitControl (g : Globals F D) : Pid F × F :=
  let set : D := CFloat.ofInt g.rc.ch4.toInt * CFloat.ofRat 0.9 + CFloat.ofInt 2900
  pidCalc g.pidPit (CFloat.ofInt g.motoPit.angle.toNat) (CNarrow.narrow set)

/-- `pid_calc(&pid_macnum[i],moto_macnum[i].speed_rpm,set_spd_macnum[i])`. -/
def wheelControl (g : Globals F D) (i : Fin 4) : Pid F × F :=
  pidCalc (g.pidMacnum i) (CFloat.ofInt (g.motoMacnum i).speedRpm.toInt)
    (CFloat.ofInt (g.setSpdMacnum i).toInt)

/-- The statements of the loop of `motionTask_entry`. -/
inductive MotionStmt where
  | rcch (k : Fin 3)
  | voltageYaw
  | voltagePit
  | mecanumCalc
  | currentMacnum (i : Fin 4)
  deriving DecidableEq, Repr

/-- Execute one statement of the loop. -/
def execStmt (g : Globals F D) : MotionStmt → Globals F D
  | .rcch k => { g with rcch := Function.update g.rcch k (scaleStick (stick g.rc k)) }
  | .voltageYaw =>
    { g with pidYaw := (yawControl g).1, voltageYaw := CFloat.toInt16 (yawControl g).2 }
  | .voltagePit =>
    { g with pidPit := (pitControl g).1, voltagePit := CFloat.toInt16 (pitControl g).2 }
  | .mecanumCalc =>
    { g with
      setSpdMacnum := Applications.mecanumCalc (CNarrow.narrow (g.rcch 0) : F)
        (CNarrow.narrow (g.rcch 1)) (CNarrow.narrow (g.rcch 2)) MAX_WHEEL_SPEED }
  | .currentMacnum i =>
    { g with
      pidMacnum := Function.update g.pidMacnum i (wheelControl g i).1
      currentMacnum := Function.update g.currentMacnum i (CFloat.toInt16 (wheelControl g i).2) }

/-- A relation that every statement keeps is kept by any list of them. -/
theorem foldl_execStmt_related {R : Globals F D → Globals F D → Prop}
    (hstep : ∀ g h st, R g h → R (execStmt g st) (execStmt h st)) {g h : Globals F D}
    (hgh : R g h) (sts : List MotionStmt) : R (sts.foldl execStmt g) (sts.foldl execStmt h) := by
  induction sts generalizing g h with
  | nil => exact hgh
  | cons st sts ih => exact ih (hstep g h st hgh)

/-- The loop body, in order. -/
def loopBody : List MotionStmt :=
  [.rcch 0, .rcch 1, .rcch 2, .voltageYaw, .voltagePit, .mecanumCalc, .currentMacnum 0,
    .currentMacnum 1, .currentMacnum 2, .currentMacnum 3]

/-- One iteration of the loop without interruption. -/
def motionIteration (g : Globals F D) : Globals F D := loopBody.foldl execStmt g

end MotionTask

end RobomasterFirmware.Applications
