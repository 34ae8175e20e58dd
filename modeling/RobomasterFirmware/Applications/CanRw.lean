import RobomasterFirmware.Algorithm.Motor
import RobomasterFirmware.Applications.MotionTask

/-!
# The CAN Thread

`applications/can_rw.c`: the body of the loop of `can_rx_thread`, from the dispatch of a received
frame on its identifier to the decision to transmit. How the frame gets from the receive interrupt
to the thread is the subject of `Drivers.Can` and `Applications.CanRx`.
-/

namespace RobomasterFirmware.Applications

open RobomasterFirmware.Algorithm
open RobomasterFirmware.Lib

section CanRw

variable {F D : Type}

/-- The feedback record of a motor. -/
def Globals.moto (g : Globals F D) : CanMessageId → MotoMeasure
  | .motorLF => g.motoMacnum 0
  | .motorRF => g.motoMacnum 1
  | .motorLB => g.motoMacnum 2
  | .motorRB => g.motoMacnum 3
  | .yawFeedback => g.motoYaw
  | .pitFeedback => g.motoPit
  | .pokeFeedback => g.motoPoke

/-- `get_moto_measure` on one of the four wheel records. -/
def measureWheel (g : Globals F D) (i : Fin 4) (rxmsg : RtCanMsg) : Globals F D :=
  { g with motoMacnum := Function.update g.motoMacnum i (getMotoMeasure (g.motoMacnum i) rxmsg) }

/-- The body of a case of `switch(rxmsg.id)`. -/
def measure (g : Globals F D) (rxmsg : RtCanMsg) : CanMessageId → Globals F D
  | .motorLF => measureWheel g 0 rxmsg
  | .motorRF => measureWheel g 1 rxmsg
  | .motorLB => measureWheel g 2 rxmsg
  | .motorRB => measureWheel g 3 rxmsg
  | .yawFeedback => { g with motoYaw := getMotoMeasure g.motoYaw rxmsg }
  | .pitFeedback => { g with motoPit := getMotoMeasure g.motoPit rxmsg }
  | .pokeFeedback => { g with motoPoke := getMotoMeasure g.motoPoke rxmsg }

/-- `switch(rxmsg.id)`: an identifier without a case changes nothing. -/
def dispatch (g : Globals F D) (rxmsg : RtCanMsg) : Globals F D :=
  match CanMessageId.ofValue? rxmsg.id with
  | some m => measure g rxmsg m
  | none => g

/-- The two command frames, in the order of their transmission. -/
def commandFrames (g : Globals F D) : List RtCanMsg :=
  [setMotorVoltage 0 g.voltageYaw g.voltagePit 0 0,
    setMotorCurrent 0 (g.currentMacnum 0) (g.currentMacnum 1) (g.currentMacnum 2)
      (g.currentMacnum 3)]

/-- The body of the loop of `can_rx_thread` on a received frame: `switch(rxmsg.id)`, then
`switch(rc.sw1)`. -/
def canRxBody (g : Globals F D) (rxmsg : RtCanMsg) : Globals F D × List RtCanMsg :=
  let g := dispatch g rxmsg
  -- the switch is read after the dispatch; no other value has a case
  (g, if g.rc.sw1 = 1 then commandFrames g else [])

/-! ## What dispatching leaves alone -/

@[simp] theorem rc_measure (g : Globals F D) (rxmsg : RtCanMsg) (m : CanMessageId) :
    (measure g rxmsg m).rc = g.rc := by
  cases m <;> rfl

/-- The remote-control record does not depend on the bus. -/
@[simp] theorem rc_dispatch (g : Globals F D) (rxmsg : RtCanMsg) :
    (dispatch g rxmsg).rc = g.rc := by
  unfold dispatch
  split
  · exact rc_measure ..
  · rfl

theorem moto_measure_self (g : Globals F D) (rxmsg : RtCanMsg) (m : CanMessageId) :
    (measure g rxmsg m).moto m = getMotoMeasure (g.moto m) rxmsg := by
  cases m <;> simp [measure, measureWheel, Globals.moto]

/-- The other records stay as they are. -/
theorem moto_measure_of_ne (g : Globals F D) (rxmsg : RtCanMsg) {m m' : CanMessageId}
    (h : m' ≠ m) : (measure g rxmsg m').moto m = g.moto m := by
  cases m <;> cases m' <;> first | exact absurd rfl h | rfl

end CanRw

end RobomasterFirmware.Applications
