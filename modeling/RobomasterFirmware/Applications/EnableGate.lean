import RobomasterFirmware.Algorithm.RcProcess
import RobomasterFirmware.Applications.CanRw
import RobomasterFirmware.Lib.Machine

/-!
# The Enable Switch

The CAN thread transmits only while `rc.sw1` is 1. Over whole runs from power-on this is a property
of the remote-control buffers alone: a CAN step transmits exactly if the last buffer was accepted
with the switch in position 1, whatever the bus and the motion task did in between.

## Main Results
- `sw1_rcProcess_iff`: which buffers enable transmission
- `emit_canRx_run`: transmission as a function of the history
-/

namespace RobomasterFirmware.Applications

open RobomasterFirmware.Algorithm
open RobomasterFirmware.Lib

/-! ## The system -/

/-- The atomic steps: a buffer decoded, one pass of the CAN thread, one iteration of the motion
task. -/
inductive GateEvent where
  | rcProcess (buffer : DbusFrame)
  | canRx (rxmsg : RtCanMsg)
  | motion

section Gate

variable {F D : Type} [CFloat F] [CFloat D] [CNarrow D F]

/-- The system over its atomic steps; it shows the transmitted frames. -/
def gateMachine : Machine (Globals F D) GateEvent RtCanMsg where
  step g
    | .rcProcess buffer => ({ g with rc := Algorithm.rcProcess g.rc buffer }, [])
    | .canRx rxmsg => canRxBody g rxmsg
    | .motion => (motionIteration g, [])

/-! ## History -/

/-- The buffer that a step decodes. -/
def GateEvent.buffer? : GateEvent → Option DbusFrame
  | .rcProcess buffer => some buffer
  | _ => none

/-- The most recent buffer of a history. -/
def lastBuffer (es : List GateEvent) : Option DbusFrame :=
  es.reverse.findSome? GateEvent.buffer?

/-- The buffer is accepted, with the switch in position 1. -/
def Enables (b : DbusFrame) : Prop := ChannelsInRange (decodeFrame b) ∧ b.byte 5 / 64 = 1

instance (b : DbusFrame) : Decidable (Enables b) := inferInstanceAs (Decidable (_ ∧ _))

/-- At least one buffer was decoded, and the last one enables. -/
def Enabled (es : List GateEvent) : Prop := ∃ b, lastBuffer es = some b ∧ Enables b

theorem lastBuffer_append_singleton (es : List GateEvent) (e : GateEvent) :
    lastBuffer (es ++ [e]) = e.buffer?.or (lastBuffer es) := by
  rw [lastBuffer, List.reverse_append]
  -- only `RC_Process` brings a buffer
  cases e <;> rfl

/-! ## The invariant -/

/-- After `RC_Process` the switch reads 1 exactly for enabling buffers: a rejected one leaves it
zero. -/
theorem sw1_rcProcess_iff (rc : RcInfo) (b : DbusFrame) :
    (Algorithm.rcProcess rc b).sw1 = 1 ↔ Enables b := by
  have hsw1 := sw1_decodeFrame b
  by_cases h : ChannelsInRange (decodeFrame b)
  -- the switch is decoded before the check, so the reject path clears it
  · rw [rcProcess_of_inRange rc h, ← UInt8.toNat_inj, hsw1]
    exact (and_iff_right h).symm
  · rw [rcProcess_of_not_inRange rc h]
    exact iff_of_false (by decide : ¬ (0 : UInt8) = 1) fun he => h he.1

@[simp] theorem rc_execStmt (g : Globals F D) (st : MotionStmt) : (execStmt g st).rc = g.rc := by
  cases st <;> rfl

/-- The motion task does not write the remote-control record. -/
@[simp] theorem rc_motionIteration (g : Globals F D) : (motionIteration g).rc = g.rc := by
  simp [motionIteration, loopBody]

/-- **Invariant.** The switch reads 1 exactly if the history enables. -/
theorem sw1_run_iff (es : List GateEvent) :
    (gateMachine.run (powerOn : Globals F D) es).rc.sw1 = 1 ↔ Enabled es := by
  -- induction on the history from its end: the last event decides
  induction es using List.reverseRecOn with
  | nil => exact iff_of_false (by decide : ¬ (0 : UInt8) = 1) (by simp [Enabled, lastBuffer])
  | append_singleton es e ih =>
    rw [Enabled, lastBuffer_append_singleton, Machine.run_append]
    cases e with
    | rcProcess buffer =>
      simp only [GateEvent.buffer?, Option.some_or, Option.some.injEq, exists_eq_left']
      exact sw1_rcProcess_iff _ _
    -- the other threads leave both the record and the history of buffers alone
    | canRx rxmsg =>
      have hrc := congrArg RcInfo.sw1 (rc_dispatch (gateMachine.run powerOn es : Globals F D) rxmsg)
      exact hrc ▸ ih
    | motion =>
      have hrc := congrArg RcInfo.sw1
        (rc_motionIteration (gateMachine.run powerOn es : Globals F D))
      exact hrc ▸ ih

/-! ## Transmission -/

/-- What a CAN step transmits. -/
theorem emit_canRx (g : Globals F D) (rxmsg : RtCanMsg) :
    gateMachine.emit g (.canRx rxmsg) =
      if g.rc.sw1 = 1 then commandFrames (dispatch g rxmsg) else [] := by
  have hrc := rc_dispatch g rxmsg
  -- the frames are sent behind the dispatch, which leaves the record alone
  change (if (dispatch g rxmsg).rc.sw1 = 1 then _ else _) = _
  rw [hrc]

/-- Transmission as a function of the history. -/
theorem emit_canRx_run (es : List GateEvent) (rxmsg : RtCanMsg) :
    (Enabled es → gateMachine.emit (gateMachine.run (powerOn : Globals F D) es) (.canRx rxmsg) =
        commandFrames (dispatch (gateMachine.run (powerOn : Globals F D) es) rxmsg)) ∧
      (¬ Enabled es →
        gateMachine.emit (gateMachine.run (powerOn : Globals F D) es) (.canRx rxmsg) = []) := by
  rw [emit_canRx, ← sw1_run_iff (F := F) (D := D)]
  exact ⟨fun h => if_pos h, fun h => if_neg h⟩

/-- Without an enabling buffer nothing is transmitted, for as long as none arrives. -/
theorem trace_eq_nil_of_not_enabled {pre : List GateEvent} (hpre : ¬ Enabled pre)
    {es : List GateEvent} (hes : ∀ b, .rcProcess b ∈ es → ¬ Enables b) :
    gateMachine.trace (gateMachine.run (powerOn : Globals F D) pre) es = [] := by
  induction es generalizing pre with
  | nil => rfl
  | cons e es ih =>
    -- only a CAN step transmits, and it does so only where the history enables
    have hemit : gateMachine.emit (gateMachine.run (powerOn : Globals F D) pre) e = [] := by
      cases e with
      | rcProcess buffer => rfl
      | canRx rxmsg => exact (emit_canRx_run pre rxmsg).2 hpre
      | motion => rfl
    -- the history stays without an enabling buffer at its end
    have hnext : ¬ Enabled (pre ++ [e]) := by
      rw [Enabled, lastBuffer_append_singleton]
      cases e with
      | rcProcess buffer =>
        simp only [GateEvent.buffer?, Option.some_or, Option.some.injEq, exists_eq_left']
        exact hes buffer List.mem_cons_self
      | canRx rxmsg => exact hpre
      | motion => exact hpre
    have htail := ih hnext fun b hb => hes b (List.mem_cons_of_mem _ hb)
    rw [Machine.run_append] at htail
    rw [Machine.trace_cons, hemit]
    exact htail

/-- **The enable switch gates every command.** In every run from power-on a CAN step transmits only
if the last buffer enables; while it does, every CAN step transmits both command frames; and after
a buffer with a channel out of range nothing is transmitted until an enabling one arrives. -/
theorem canRx_transmits_iff_enabled :
    (∀ (es : List GateEvent) (rxmsg : RtCanMsg),
      gateMachine.emit (gateMachine.run (powerOn : Globals F D) es) (.canRx rxmsg) ≠ [] →
        Enabled es) ∧
    (∀ (es : List GateEvent) (rxmsg : RtCanMsg), Enabled es →
      (gateMachine.emit (gateMachine.run (powerOn : Globals F D) es) (.canRx rxmsg)).map
        RtCanMsg.id = [0x1FF, 0x200]) ∧
    ∀ (pre es : List GateEvent) (b : DbusFrame), ¬ ChannelsInRange (decodeFrame b) →
      (∀ b', .rcProcess b' ∈ es → ¬ Enables b') →
        gateMachine.trace
          (gateMachine.run (powerOn : Globals F D) (pre ++ [.rcProcess b])) es = [] := by
  refine ⟨?_, ?_, ?_⟩
  · intro es rxmsg hemit
    -- what is not enabled transmits nothing
    by_contra hdisabled
    exact hemit ((emit_canRx_run es rxmsg).2 hdisabled)
  · intro es rxmsg henabled
    rw [(emit_canRx_run es rxmsg).1 henabled]
    rfl
  · intro pre es b hb hes
    -- a buffer out of range does not enable, so the gate is shut behind it
    refine trace_eq_nil_of_not_enabled ?_ hes
    rw [Enabled, lastBuffer_append_singleton]
    simp only [GateEvent.buffer?, Option.some_or, Option.some.injEq, exists_eq_left']
    exact fun henables => hb henables.1

end Gate

/-- A frame with centred sticks and switch 1 in position 1. -/
def enablingFrame : DbusFrame := #v[0, 4, 32, 0, 1, 88, 0, 0, 0, 0, 0, 0, 0, 0, 0, 0, 0, 4]

/-- An accepted frame switches the commands on. -/
theorem canRx_transmits_enabled :
    (gateMachine.emit (gateMachine.run (powerOn : Globals ℚ ℚ) [.rcProcess enablingFrame])
      (.canRx RtCanMsg.zero)).map RtCanMsg.id = [0x1FF, 0x200] :=
  canRx_transmits_iff_enabled.2.1 _ _ ⟨enablingFrame, rfl, by decide⟩

end RobomasterFirmware.Applications
