import Mathlib.Algebra.Ring.Nat
import Mathlib.Logic.Function.Basic
import Mathlib.Tactic.SplitIfs

/-!
# Data Types of the Application

`applications/mytype.h` and the CAN message of `drivers/can.h`: the remote-control record, the
feedback record of a motor, and the frame identifiers.

Integer fields keep the width of the source. Fields that no function of the firmware reads or
writes (`real_angle`, `buf_idx`, `angle_buf`, `fited_angle`, `msg_cnt`, and the reserved bits of a
CAN message) are left out.
-/

namespace RobomasterFirmware.Applications

/-! ## Array sizes

Arrays are indexed by `Fin`, whose literals need a size that is not zero. -/

instance neZero_three : NeZero 3 := ⟨by decide⟩

instance neZero_four : NeZero 4 := ⟨by decide⟩

instance neZero_eight : NeZero 8 := ⟨by decide⟩

instance neZero_eighteen : NeZero 18 := ⟨by decide⟩

/-! ## Remote control -/

/-- `uint8_t dbus_rx_buffer[18]`: one DBUS frame. -/
abbrev DbusFrame := Vector UInt8 18

/-- `dbus_rx_buffer[k]`, promoted to `int`. -/
def DbusFrame.byte (b : DbusFrame) (k : Fin 18) : ℕ := (b.get k).toNat

theorem DbusFrame.byte_lt (b : DbusFrame) (k : Fin 18) : b.byte k < 2 ^ 8 := (b.get k).toNat_lt

/-- `mouse_info_t`. -/
structure MouseInfo where
  x : Int16
  y : Int16
  z : Int16
  pressL : UInt8
  pressR : UInt8
  deriving DecidableEq, Repr

/-- `rc_info_t`: stick channels, the two switches, the wheel `sw`, mouse and keyboard. -/
structure RcInfo where
  ch1 : Int16
  ch2 : Int16
  ch3 : Int16
  ch4 : Int16
  sw1 : UInt8
  sw2 : UInt8
  sw : Int16
  mouse : MouseInfo
  key : UInt16
  deriving DecidableEq, Repr

/-- The all-zero record: a global at power-on, and what `rt_memset(rc, 0, sizeof(rc_info_t))`
writes. -/
def RcInfo.zero : RcInfo := ⟨0, 0, 0, 0, 0, 0, 0, ⟨0, 0, 0, 0, 0⟩, 0⟩

/-! ## Motor feedback -/

/-- `moto_measure_t`. -/
structure MotoMeasure where
  speedRpm : Int16
  realCurrent : Int16
  givenCurrent : Int16
  hall : UInt8
  angle : UInt16
  lastAngle : UInt16
  correctingAngle : UInt16
  offsetAngle : UInt16
  roundCnt : Int32
  totalAngle : Int32
  deriving DecidableEq, Repr

/-- A zero-initialised feedback record. -/
def MotoMeasure.zero : MotoMeasure := ⟨0, 0, 0, 0, 0, 0, 0, 0, 0, 0⟩

/-! ## CAN messages -/

/-- `struct rt_can_msg`. -/
structure RtCanMsg where
  id : BitVec 29
  ide : BitVec 1
  rtr : BitVec 1
  len : UInt8
  hdr : Int8
  data : Vector UInt8 8
  deriving DecidableEq, Repr

/-- `struct rt_can_msg msg = {0}`. -/
def RtCanMsg.zero : RtCanMsg := ⟨0, 0, 0, 0, 0, Vector.replicate 8 0⟩

/-- `CAN_Message_ID`: the feedback frames, one identifier for each motor. -/
inductive CanMessageId where
  | motorLF
  | motorRF
  | motorLB
  | motorRB
  | yawFeedback
  | pitFeedback
  | pokeFeedback
  deriving DecidableEq, Repr

namespace CanMessageId

/-- The identifier on the bus. -/
def value : CanMessageId → BitVec 29
  | .motorLF => 0x201
  | .motorRF => 0x202
  | .motorLB => 0x203
  | .motorRB => 0x204
  | .yawFeedback => 0x205
  | .pitFeedback => 0x206
  | .pokeFeedback => 0x207

/-- The case labels of `switch (rxmsg.id)`. -/
def ofValue? (id : BitVec 29) : Option CanMessageId :=
  if id = 0x201 then some .motorLF
  else if id = 0x202 then some .motorRF
  else if id = 0x203 then some .motorLB
  else if id = 0x204 then some .motorRB
  else if id = 0x205 then some .yawFeedback
  else if id = 0x206 then some .pitFeedback
  else if id = 0x207 then some .pokeFeedback
  else none

@[simp] theorem ofValue?_value (m : CanMessageId) : ofValue? m.value = some m := by
  cases m <;> rfl

theorem ofValue?_eq_some {id : BitVec 29} {m : CanMessageId} (h : ofValue? id = some m) :
    id = m.value := by
  unfold ofValue? at h
  split_ifs at h <;> cases h <;> assumption

end CanMessageId

end RobomasterFirmware.Applications
