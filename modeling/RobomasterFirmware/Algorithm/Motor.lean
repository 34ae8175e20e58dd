import RobomasterFirmware.Algorithm.PackageProcess
import Mathlib.Data.Fin.VecNotation
import Mathlib.Data.Fintype.Basic
import Mathlib.Tactic.FinCases

/-!
# Command Frames

`Algorithm/motor.c`: the two functions that pack four 16-bit commands into a CAN frame. One masks
every byte with `0xff` before storing it, the other relies on the truncation of the assignment; the
bytes are the same (`data_setMotorCurrent`, `data_setMotorVoltage`), and each slot of either frame
reads back as its command (`slot_commandBytes`).
-/

namespace RobomasterFirmware.Algorithm

open RobomasterFirmware.Applications
open RobomasterFirmware.Lib

/-- `set_motor_current`: the message handed to `rt_device_write`. -/
def setMotorCurrent (id : Int8) (iq1 iq2 iq3 iq4 : Int16) : RtCanMsg :=
  { RtCanMsg.zero with
    id := if id = 0 then 0x200 else 0x1FF
    ide := 0
    rtr := 0
    len := 8
    data := #v[toByte (iq1.toInt32 >>> 8), toByte iq1.toInt32,
      toByte (iq2.toInt32 >>> 8), toByte iq2.toInt32,
      toByte (iq3.toInt32 >>> 8), toByte iq3.toInt32,
      toByte (iq4.toInt32 >>> 8), toByte iq4.toInt32] }

/-- `set_motor_voltage`: the message handed to `rt_device_write`. -/
def setMotorVoltage (idRange : UInt8) (v1 v2 v3 v4 : Int16) : RtCanMsg :=
  { RtCanMsg.zero with
    id := if idRange = 0 then 0x1FF else 0x2FF
    ide := 0
    rtr := 0
    len := 8
    data := #v[toByte ((v1.toInt32 >>> 8) &&& 0xff), toByte (v1.toInt32 &&& 0xff),
      toByte ((v2.toInt32 >>> 8) &&& 0xff), toByte (v2.toInt32 &&& 0xff),
      toByte ((v3.toInt32 >>> 8) &&& 0xff), toByte (v3.toInt32 &&& 0xff),
      toByte ((v4.toInt32 >>> 8) &&& 0xff), toByte (v4.toInt32 &&& 0xff)] }

/-! ## Slots -/

/-- Four commands, most significant byte first. -/
def commandBytes (v : Fin 4 → Int16) : Vector UInt8 8 :=
  #v[toByte ((v 0).toInt32 >>> 8), toByte (v 0).toInt32,
    toByte ((v 1).toInt32 >>> 8), toByte (v 1).toInt32,
    toByte ((v 2).toInt32 >>> 8), toByte (v 2).toInt32,
    toByte ((v 3).toInt32 >>> 8), toByte (v 3).toInt32]

/-- The `i`-th 16-bit slot of the data, read as `get_moto_measure` reads a slot. -/
def slot (data : Vector UInt8 8) (i : Fin 4) : Int16 := beInt16 data[2 * i.val] data[2 * i.val + 1]

theorem data_setMotorCurrent (id : Int8) (iq1 iq2 iq3 iq4 : Int16) :
    (setMotorCurrent id iq1 iq2 iq3 iq4).data = commandBytes ![iq1, iq2, iq3, iq4] := rfl

theorem data_setMotorVoltage (idRange : UInt8) (v1 v2 v3 v4 : Int16) :
    (setMotorVoltage idRange v1 v2 v3 v4).data = commandBytes ![v1, v2, v3, v4] := by
  simp only [setMotorVoltage, toByte_land_ff]
  rfl

/-- Every slot reads back as its command, negative values included. -/
@[simp] theorem slot_commandBytes (v : Fin 4 → Int16) (i : Fin 4) :
    slot (commandBytes v) i = v i := by
  fin_cases i <;> exact beInt16_toByte _

/-- A byte depends only on the command of its slot. -/
theorem commandBytes_congr {v w : Fin 4 → Int16} (k : Fin 8)
    (h : v ⟨k.val / 2, by omega⟩ = w ⟨k.val / 2, by omega⟩) :
    (commandBytes v).get k = (commandBytes w).get k := by
  have hbyte (x : Fin 4 → Int16) : (commandBytes x).get k =
      if k.val % 2 = 0 then toByte ((x ⟨k.val / 2, by omega⟩).toInt32 >>> 8)
      else toByte (x ⟨k.val / 2, by omega⟩).toInt32 := by
    fin_cases k <;> rfl
  rw [hbyte, hbyte, h]

end RobomasterFirmware.Algorithm
