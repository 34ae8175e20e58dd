import RobomasterFirmware.Applications.MyType
import RobomasterFirmware.Lib.CInt

/-!
# Frame Decoding

`Algorithm/packageProcess.c`: `RC_Process` decodes a DBUS frame into the remote-control record,
`get_moto_measure` decodes a motor feedback message and counts turns of the rotor.

## Reading the definitions
Operands of `|`, `&`, `<<` and `>>` are promoted to `int` in the source and never negative, so the
operators are those of `ℕ`; an assignment to a narrower field is `Int16.ofNat`, `UInt8.ofNat`, ...
-/

namespace RobomasterFirmware.Algorithm

open RobomasterFirmware.Applications
open RobomasterFirmware.Lib

/-! ## Remote control -/

/-- The range check of `RC_Process`: `abs(ch) > 660` for one of the four channels. -/
def channelOutOfRange (rc : RcInfo) : Bool :=
  rc.ch1.toInt.natAbs > 660 || rc.ch2.toInt.natAbs > 660 ||
    rc.ch3.toInt.natAbs > 660 || rc.ch4.toInt.natAbs > 660

/-- `RC_Process`. -/
def rcProcess (rc : RcInfo) (b : DbusFrame) : RcInfo :=
  let rc := { rc with ch1 := Int16.ofNat ((b.byte 0 ||| b.byte 1 <<< 8) &&& 0x07FF) }
  let rc := { rc with ch1 := rc.ch1 - 1024 }
  let rc := { rc with ch2 := Int16.ofNat ((b.byte 1 >>> 3 ||| b.byte 2 <<< 5) &&& 0x07FF) }
  let rc := { rc with ch2 := rc.ch2 - 1024 }
  let rc := { rc with
    ch3 := Int16.ofNat
      ((b.byte 2 >>> 6 ||| b.byte 3 <<< 2 ||| b.byte 4 <<< 10) &&& 0x07FF) }
  let rc := { rc with ch3 := rc.ch3 - 1024 }
  let rc := { rc with ch4 := Int16.ofNat ((b.byte 4 >>> 1 ||| b.byte 5 <<< 7) &&& 0x07FF) }
  let rc := { rc with ch4 := rc.ch4 - 1024 }
  let rc := { rc with sw1 := UInt8.ofNat (((b.byte 5 >>> 4) &&& 0x000C) >>> 2) }
  let rc := { rc with sw2 := UInt8.ofNat ((b.byte 5 >>> 4) &&& 0x0003) }
  -- the reject path clears the record and then falls through to the rest of the decoder
  let rc := if channelOutOfRange rc then RcInfo.zero else rc
  -- neither of these assignments is skipped for a rejected frame
  let rc := { rc with mouse.x := Int16.ofNat (b.byte 6 ||| b.byte 7 <<< 8) }
  let rc := { rc with mouse.y := Int16.ofNat (b.byte 8 ||| b.byte 9 <<< 8) }
  let rc := { rc with mouse.z := Int16.ofNat (b.byte 10 ||| b.byte 11 <<< 8) }
  let rc := { rc with mouse.pressL := b.get 12 }
  let rc := { rc with mouse.pressR := b.get 13 }
  let rc := { rc with key := UInt16.ofNat (b.byte 14 ||| b.byte 15 <<< 8) }
  let rc := { rc with sw := Int16.ofNat ((b.byte 16 ||| b.byte 17 <<< 8) &&& 0x07FF) }
  { rc with sw := rc.sw - 1024 }

/-! ## Motor feedback -/

/-- `get_moto_measure`. -/
def getMotoMeasure (moto : MotoMeasure) (msg : RtCanMsg) : MotoMeasure :=
  let moto := { moto with lastAngle := moto.angle }
  let moto := { moto with
    angle := UInt16.ofNat ((msg.data.get 0).toNat <<< 8 ||| (msg.data.get 1).toNat) }
  let moto := { moto with realCurrent := beInt16 (msg.data.get 2) (msg.data.get 3) }
  -- the wheel motors send their speed in this place
  let moto := { moto with speedRpm := moto.realCurrent }
  let moto := { moto with
    givenCurrent := Int16.ofInt ((beInt16 (msg.data.get 4) (msg.data.get 5)).toInt.tdiv (-5)) }
  let moto := { moto with hall := msg.data.get 6 }
  -- a difference of more than half a turn counts as a passage of the 8191/0 seam
  let moto :=
    if (moto.angle.toNat : ℤ) - moto.lastAngle.toNat > 4096 then
      { moto with roundCnt := moto.roundCnt - 1 }
    else if (moto.angle.toNat : ℤ) - moto.lastAngle.toNat < -4096 then
      { moto with roundCnt := moto.roundCnt + 1 }
    else moto
  { moto with
    totalAngle := moto.roundCnt * 8192 + Int32.ofNat moto.angle.toNat -
      Int32.ofNat moto.offsetAngle.toNat }

end RobomasterFirmware.Algorithm
