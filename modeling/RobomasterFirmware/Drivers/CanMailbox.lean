import RobomasterFirmware.Drivers.CanFrame
import RobomasterFirmware.Drivers.CanTx

/-!
# The CAN Transmit Mailbox

`libraries/HAL_Drivers/drv_can.c` below the send boxes of `can.c`: `_can_sendmsg` puts a frame into
the transmit mailbox of the peripheral, the peripheral finishes it, and the interrupt handlers
report it. `RT_CANSND_BOX_NUM` is one, so there is one box and mailbox `0`, which any number of
threads share. The peripheral finishes a frame at any time after its request; handlers and threads
interleave in any order. A message that fails an assertion of `_can_sendmsg` stops its thread there,
with the box in hand.

`CAN1_SCE_IRQHandler` runs `HAL_CAN_IRQHandler` first, which clears the flags of a finished frame;
the transmit handler then has nothing to report.

Not modelled: the handler state of the mailboxes `1` and `2`, `ErrorCode`, the error counters, the
commands that reconfigure the device, and what else of the system an assertion that fails brings to
a halt.

## Main Results
- `CanCall.follow`: what a caller of `rt_can_write` has to see, as a monitor of the run
- `SendStep`: what a call of `_can_sendmsg` comes to
- `canBusMove_step`: what an event does, case by case
- `canBus_served`: without error interrupts every call returns the number of its frames that reached
  the bus, each once and in order, `_can_sendmsg` never finds the mailbox occupied, and only
  messages that pass its assertions reach the bus
-/

namespace RobomasterFirmware.Drivers

open RobomasterFirmware.Applications
open RobomasterFirmware.Lib

universe u

variable {T : Type u}

/-! ## Data -/

/-- `HAL_CAN_StateTypeDef`. -/
inductive HalCanState where
  | reset
  | ready
  | listening
  | sleepPending
  | sleepActive
  | error
  deriving DecidableEq

/-- Transmit mailbox `0`. The frame it holds (`TXRQ`; the mailbox is empty, `TME0`, when there is
none) goes with the thread that wrote it, which the peripheral does not see; `RQCP0` and `TXOK0`
tell of the last one. -/
structure TxMailBox (T : Type u) where
  request : Option (T × RtCanMsg)
  rqcp : Bool
  txok : Bool

/-- `CAN_HandleTypeDef`. -/
structure CanHandle (T : Type u) where
  state : HalCanState
  mailbox : TxMailBox T

namespace CanHandle

/-- `_can_sendmsg` for box `0`: whether it returns `RT_EOK`, or `none` where an assertion fails. A
new request clears the flags of the last one. -/
def canSendmsg (hcan : CanHandle T) (t : T) (pmsg : RtCanMsg) : Option Bool × CanHandle T :=
  -- `RT_ASSERT(IS_CAN_DLC(pmsg->len))`
  if 8 < pmsg.len then (none, hcan)
  else if hcan.state = .ready ∨ hcan.state = .listening then
    -- mailbox `0` is the only one used; while it is occupied the call fails and the state is ERROR
    if hcan.mailbox.request.isSome then (some false, { hcan with state := .error })
    -- `RT_ASSERT(IS_CAN_STDID(pmsg->id))`; `IS_CAN_EXTID` holds of every 29-bit field
    else if pmsg.ide = 0 ∧ 0x7FF < pmsg.id then (none, hcan)
    else (some true, { hcan with mailbox := ⟨some (t, pmsg), false, false⟩ })
  else (some false, hcan)

/-- Clear `RQCP0`, and with it `TXOK0`. -/
def clearFlag (hcan : CanHandle T) : CanHandle T :=
  { hcan with mailbox := { hcan.mailbox with rqcp := false, txok := false } }

end CanHandle

/-- The device driver and the peripheral. -/
structure CanBus (T : Type u) where
  tx : CanTx 1 T
  hcan : CanHandle T

/-- What a run shows: the calls, and the frames as the peripheral finishes them. -/
inductive CanBusObs (T : Type u) where
  | tx (o : CanTxObs T)
  | frame (t : T) (msg : RtCanMsg) (ok : Bool)

namespace CanBus

/-- `rt_can_open` on a started peripheral. -/
def opened (T : Type u) : CanBus T where
  tx := .opened 1 T
  hcan := ⟨.listening, ⟨none, false, false⟩⟩

variable [DecidableEq T]

/-! ## Threads, peripheral and interrupts -/

/-- One step of `t`; only `sendmsg` reaches the peripheral. Where an assertion fails, the thread
stays in `sendmsg`. -/
def threadStep (s : CanBus T) (t : T) : CanBus T × List (CanBusObs T) :=
  match s.tx.pc t with
  | .send _ c =>
    match s.hcan.canSendmsg t c.data with
    | (some ok, hcan) =>
      let (tx, os) := s.tx.threadStep t ok
      (⟨tx, hcan⟩, os.map .tx)
    | (none, hcan) => ({ s with hcan := hcan }, [])
  | _ =>
    let (tx, os) := s.tx.threadStep t true
    ({ s with tx := tx }, os.map .tx)

/-- The peripheral finishes the frame in the mailbox, on the bus or without success
(`AutoRetransmission` is off). -/
def complete (s : CanBus T) (ok : Bool) : CanBus T × List (CanBusObs T) :=
  match s.hcan.mailbox.request with
  | some (t, msg) => ({ s with hcan.mailbox := ⟨none, true, ok⟩ }, [.frame t msg ok])
  | none => (s, [])

/-- `CAN1_TX_IRQHandler`. -/
def txIrqHandler (s : CanBus T) : CanBus T :=
  if s.hcan.mailbox.rqcp then
    { tx := s.tx.canIsr 0 s.hcan.mailbox.txok, hcan := s.hcan.clearFlag }
  else s

/-- `HAL_CAN_IRQHandler`, as far as the mailbox is concerned; the callbacks are empty. -/
def halIrqHandler (s : CanBus T) : CanBus T :=
  if s.hcan.mailbox.rqcp then { s with hcan := s.hcan.clearFlag } else s

/-- `CAN1_SCE_IRQHandler`; `ackErr` says that the last error is `RT_CAN_BUS_ACK_ERR`. The bits of
`TSR` that `CAN_FLAG_TXOK0` selects are `RQCP0` and two of mailbox `1`, which stay clear. -/
def sceIrqHandler (s : CanBus T) (ackErr : Bool) : CanBus T :=
  let s := s.halIrqHandler
  -- a lost acknowledgement is reported as `RT_CAN_EVENT_TX_FAIL`, whoever owns the box
  if ackErr ∧ ¬ s.hcan.mailbox.rqcp then { s with tx := s.tx.canIsr 0 false } else s

end CanBus

/-- A thread calls `rt_can_write` or makes a step, the peripheral finishes a frame, or an interrupt
handler runs. -/
inductive CanBusEvent (T : Type u) where
  | write (t : T) (data : RtCanMsg) (rest : List RtCanMsg)
  | run (t : T)
  | complete (ok : Bool)
  | txIrq
  | sceIrq (ackErr : Bool)

/-- Threads, peripheral and interrupts, interleaved. -/
def canBusMachine (T : Type u) [DecidableEq T] :
    Machine (CanBus T) (CanBusEvent T) (CanBusObs T) where
  step s
    | .write t data rest =>
      let (tx, os) := s.tx.write t data rest
      ({ s with tx := tx }, os.map .tx)
    | .run t => s.threadStep t
    | .complete ok => s.complete ok
    | .txIrq => (s.txIrqHandler, [])
    | .sceIrq ackErr => (s.sceIrqHandler ackErr, [])

/-! ## What a call has to show -/

/-- A call as its caller sees it: the messages that are left and the number sent, or only the number
when it is over. -/
inductive CanCall where
  | idle
  | busy (left : List RtCanMsg) (sent : ℕ)
  | ended (sent : ℕ)
  deriving DecidableEq

namespace CanCall

/-- A frame is finished: the next message is due, or the call is over. -/
def after (left : List RtCanMsg) (sent : ℕ) : Bool → CanCall
  | false => ended sent
  | true => if left = [] then ended (sent + 1) else busy left (sent + 1)

variable [DecidableEq T]

/-- The monitor of thread `t`. A call puts its messages on the bus one by one, in order, each once,
and up to the first that fails; then it returns how many were sent. No check fails. -/
def follow (t : T) : CanCall → CanBusObs T → Option CanCall
  | call, .tx (.called u msgs) =>
    if u = t then
      match call with
      | idle => some (busy msgs 0)
      | _ => none
    else some call
  -- a frame has to be the next message of the call
  | call, .frame u msg ok =>
    if u = t then
      match call with
      | busy (m :: left) sent => if msg = m then some (after left sent ok) else none
      | _ => none
    else some call
  -- a call returns when it is over, and with the number of frames that were sent
  | call, .tx (.returned u sent) =>
    if u = t then
      match call with
      | ended k => if sent = k then some idle else none
      | _ => none
    else some call
  | _, .tx .assertion => none
  | _, .tx .corrupted => none

end CanCall

namespace CanTxPc

/-- The call whose frame the thread has handed over and whose result it has not read. -/
def inFlight : CanTxPc 1 → Option CanTxCall
  | wait _ c => some c
  | suspended _ c => some c
  | clean _ c => some c
  | _ => none

/-- The thread has no frame at the peripheral and no result to read. -/
def AtRest : CanTxPc 1 → Prop
  | wait _ _ => False
  | suspended _ _ => False
  | clean _ _ => False
  | finish _ _ => False
  | _ => True

/-- The call of a thread at rest. -/
def callView : CanTxPc 1 → CanCall
  | idle => .idle
  | take c => .busy (c.data :: c.rest) c.sent
  | asleep c => .busy (c.data :: c.rest) c.sent
  | unlink c => .busy (c.data :: c.rest) c.sent
  | mark _ c => .busy (c.data :: c.rest) c.sent
  | send _ c => .busy (c.data :: c.rest) c.sent
  | relink _ c => .busy (c.data :: c.rest) c.sent
  | retry c => .busy (c.data :: c.rest) c.sent
  -- the result has been read, so the frame counts
  | post result c => .after c.rest c.sent (result = .ok)
  | check result c => .after c.rest c.sent (result = .ok)
  | _ => .idle

end CanTxPc

namespace CanBus

/-- The flag of the only box. -/
def flag (s : CanBus T) : Bool := (s.tx.buffer 0).completion.flag

/-- The result that is on its way to the thread in flight: with the peripheral until it is reported,
in the box afterwards. -/
def outcome (s : CanBus T) : Bool :=
  if s.hcan.mailbox.rqcp then s.hcan.mailbox.txok else (s.tx.buffer 0).result = .ok

/-- What the caller of `t` can have seen. -/
def view (s : CanBus T) (t : T) : CanCall :=
  match s.tx.pc t with
  -- the box still holds the result, which the thread has not read
  | .finish no c => .after c.rest c.sent ((s.tx.buffer no).result = .ok)
  | pc =>
    match pc.inFlight with
    | some c =>
      if s.hcan.mailbox.request.isSome then .busy (c.data :: c.rest) c.sent
      else .after c.rest c.sent s.outcome
    | none => pc.callView

/-! ## The invariant without error interrupts -/

/-- No frame is under way, and nothing waits to be reported. -/
structure Quiet (s : CanBus T) : Prop where
  request : s.hcan.mailbox.request = none
  rqcp : s.hcan.mailbox.rqcp = false
  flag : s.flag = false

/-- The frame of `t` is with the peripheral, or finished and not reported, or reported. -/
inductive Flight (s : CanBus T) (t : T) (c : CanTxCall) : Prop
  | pending (hpc : s.tx.pc t = .wait 0 c ∨ s.tx.pc t = .suspended 0 c)
    (hrequest : s.hcan.mailbox.request = some (t, c.data)) (hrqcp : s.hcan.mailbox.rqcp = false)
    (hflag : s.flag = false)
  | finished (hpc : s.tx.pc t = .wait 0 c ∨ s.tx.pc t = .suspended 0 c)
    (hrequest : s.hcan.mailbox.request = none) (hrqcp : s.hcan.mailbox.rqcp = true)
    (hflag : s.flag = false)
  | reported (hpc : s.tx.pc t = .wait 0 c ∨ s.tx.pc t = .clean 0 c)
    (hrequest : s.hcan.mailbox.request = none) (hrqcp : s.hcan.mailbox.rqcp = false)
    (hflag : s.flag = true)

/-- **Invariant** of the runs without error interrupts. -/
structure Sound [Fintype T] (s : CanBus T) : Prop where
  boxes : s.tx.CanTxInv
  listening : s.hcan.state = .listening
  flight : ∀ t c, (s.tx.pc t).inFlight = some c → s.Flight t c
  quiet : (∀ t, (s.tx.pc t).inFlight = none) → s.Quiet

end CanBus

/-! ## One box has one owner -/

namespace CanTxPc

@[simp] theorem inFlight_semResume (pc : CanTxPc 1) : pc.semResume.inFlight = pc.inFlight := by
  cases pc <;> rfl

theorem semResume_of_inFlight {pc : CanTxPc 1} {c : CanTxCall} (h : pc.inFlight = some c) :
    pc.semResume = pc := by
  cases pc <;> first | rfl | cases h

theorem AtRest.inFlight {pc : CanTxPc 1} (h : pc.AtRest) : pc.inFlight = none := by
  cases pc <;> first | rfl | exact h.elim

theorem atRest_of_outside {pc : CanTxPc 1} (h : pc.phase = .outside ∨ pc.phase = .asleep) :
    pc.AtRest := by
  cases pc <;> simp [phase] at h <;> trivial

theorem phase_of_inFlight {pc : CanTxPc 1} {c : CanTxCall} (h : pc.inFlight = some c) :
    pc.phase = .holds 0 := by
  cases pc with
  | wait no c => exact congrArg Phase.holds (Fin.eq_zero no)
  | suspended no c => exact congrArg Phase.holds (Fin.eq_zero no)
  | clean no c => exact congrArg Phase.holds (Fin.eq_zero no)
  | _ => cases h

end CanTxPc

namespace CanTx

variable [DecidableEq T]

/-- What a release may have done to the place of another thread. -/
theorem semRelease_pc (s : CanTx 1 T) (t : T) (pc : CanTxPc 1) (u : T) :
    (s.semRelease t pc).pc u = (s.goto t pc).pc u ∨
      (s.semRelease t pc).pc u = ((s.goto t pc).pc u).semResume := by
  unfold semRelease
  cases s.sem.suspended with
  | nil => exact .inl rfl
  | cons w ws =>
    by_cases hu : u = w
    · subst hu
      exact .inr (goto_pc_self ..)
    · exact .inl (goto_pc_of_ne _ _ hu)

variable [Fintype T] {s : CanTx 1 T} {t u : T}

omit [DecidableEq T] in
/-- While `t` owns the box, no other thread does. -/
theorem CanTxInv.alone (h : s.CanTxInv) {no no' : Fin 1} (ht : (s.pc t).phase = .holds no)
    (hu : (s.pc u).phase = .holds no') : u = t := by
  obtain rfl : no' = no := (Fin.eq_zero no').trans (Fin.eq_zero no).symm
  exact h.accounted.unique u t no' hu ht

omit [DecidableEq T] in
/-- While `t` owns the box, no other thread is past the semaphore. -/
theorem CanTxInv.outside (h : s.CanTxInv) (no : Fin 1) (ht : (s.pc t).phase = .holds no)
    (hut : u ≠ t) : (s.pc u).phase = .outside ∨ (s.pc u).phase = .asleep := by
  -- the only box is taken, so the free list is empty
  have hnil : s.freelist = [] := by
    rw [List.eq_nil_iff_forall_not_mem]
    intro no' hmem
    obtain rfl : no' = no := (Fin.eq_zero no').trans (Fin.eq_zero no).symm
    exact h.accounted.not_free t no' ht hmem
  -- a permit in hand would mean a box on the free list
  have hzero : (s.pc u).phase.reserved = 0 := by
    by_contra hne
    exact h.accounted.free_ne_nil (t := u) (Nat.pos_of_ne_zero hne) hnil
  cases hphase : (s.pc u).phase with
  | outside => exact .inl rfl
  | asleep => exact .inr rfl
  | permit => simp [hphase, Phase.reserved] at hzero
  | holds no' => exact absurd (h.alone ht hphase) hut
  | returned => simp [hphase, Phase.reserved] at hzero

end CanTx

namespace CanBus

variable [DecidableEq T] [Fintype T] {s s' : CanBus T} {t u : T}

omit [DecidableEq T] in
theorem inFlight_of_ne (h : s.tx.CanTxInv) {no : Fin 1} (ht : (s.tx.pc t).phase = .holds no)
    (hut : u ≠ t) : (s.tx.pc u).inFlight = none := by
  cases hflight : (s.tx.pc u).inFlight with
  | none => rfl
  | some c => exact absurd (h.alone ht (CanTxPc.phase_of_inFlight hflight)) hut

omit [DecidableEq T] [Fintype T] in
/-- What a thread at rest can have seen does not depend on the peripheral. -/
theorem view_of_atRest (h : (s.tx.pc u).AtRest) : s.view u = (s.tx.pc u).callView := by
  unfold view
  cases hpc : s.tx.pc u <;> first | rfl | (rw [hpc] at h; exact h.elim)

omit [DecidableEq T] [Fintype T] in
/-- The view of a thread that at most got a permit, when neither the peripheral nor the result of
the box changes. -/
theorem view_congr (hhcan : s'.hcan = s.hcan)
    (hresult : (s'.tx.buffer 0).result = (s.tx.buffer 0).result)
    (hpc : s'.tx.pc u = s.tx.pc u ∨ s'.tx.pc u = (s.tx.pc u).semResume) :
    s'.view u = s.view u := by
  have hsame : ∀ no, (s'.tx.buffer no).result = (s.tx.buffer no).result := fun no => by
    rw [Fin.eq_zero no, hresult]
  have houtcome : s'.outcome = s.outcome := by
    simp only [outcome, hhcan, hresult]
  -- a permit does not change what the call has still to do
  rcases hpc with hpc | hpc
  · simp only [view, hpc, hhcan, houtcome, hsame]
  · simp only [view, hpc, hhcan, houtcome]
    cases s.tx.pc u <;> simp only [CanTxPc.semResume, CanTxPc.inFlight, CanTxPc.callView, hsame]

omit [DecidableEq T] in
/-- A step that leaves the peripheral, the flag and the threads in flight alone. -/
theorem Sound.of_same (h : s.Sound) (hboxes : s'.tx.CanTxInv) (hhcan : s'.hcan = s.hcan)
    (hflag : s'.flag = s.flag)
    (hflight : ∀ u, (s'.tx.pc u).inFlight = (s.tx.pc u).inFlight)
    (hpc : ∀ u c, (s.tx.pc u).inFlight = some c → s'.tx.pc u = s.tx.pc u) : s'.Sound where
  boxes := hboxes
  listening := by rw [hhcan, h.listening]
  flight u c hu := by
    rw [hflight] at hu
    -- a thread in flight has not moved, so its frame is where it was
    have hsame := hpc u c hu
    cases h.flight u c hu with
    | pending hat hrequest hrqcp hdown =>
      exact .pending (by rwa [hsame]) (by rwa [hhcan]) (by rwa [hhcan]) (hflag.trans hdown)
    | finished hat hrequest hrqcp hdown =>
      exact .finished (by rwa [hsame]) (by rwa [hhcan]) (by rwa [hhcan]) (hflag.trans hdown)
    | reported hat hrequest hrqcp hup =>
      exact .reported (by rwa [hsame]) (by rwa [hhcan]) (by rwa [hhcan]) (hflag.trans hup)
  quiet hnone := by
    obtain ⟨hrequest, hrqcp, hdown⟩ := h.quiet fun u => (hflight u).symm.trans (hnone u)
    exact ⟨by rw [hhcan, hrequest], by rw [hhcan, hrqcp], hflag.trans hdown⟩

omit [DecidableEq T] in
/-- The owner of the box has nothing in flight, so everything is quiet. -/
theorem Sound.quiet_of_owner (h : s.Sound) (no : Fin 1) (ht : (s.tx.pc t).phase = .holds no)
    (hnone : (s.tx.pc t).inFlight = none) : s.Quiet := by
  refine h.quiet fun u => ?_
  by_cases hut : u = t
  · rw [hut, hnone]
  · exact inFlight_of_ne h.boxes ht hut

end CanBus

/-! ## The steps without error interrupts -/

namespace CanBus

variable [DecidableEq T] {s : CanBus T} {t u : T}

/-- `os` takes the monitor of every thread from its view of `s` to its view of `s'`. -/
def Shows (s s' : CanBus T) (os : List (CanBusObs T)) : Prop :=
  ∀ u, os.foldlM (CanCall.follow u) (s.view u) = some (s'.view u)

theorem shows_nil {s' : CanBus T} (h : ∀ u, s'.view u = s.view u) : Shows s s' [] := by
  intro u
  rw [h u]
  rfl

/-- One observation of thread `t`, while the view of the others stays. -/
theorem shows_singleton {s' : CanBus T} {o : CanBusObs T} (t : T)
    (hself : CanCall.follow t (s.view t) o = some (s'.view t))
    (hskip : ∀ u call, t ≠ u → CanCall.follow u call o = some call)
    (hother : ∀ u, u ≠ t → s'.view u = s.view u) : Shows s s' [o] := by
  intro u
  rw [List.foldlM_cons]
  by_cases hut : u = t
  · rw [hut, hself]
    rfl
  · rw [hskip u _ (Ne.symm hut), hother u hut]
    rfl

/-- What a call of `_can_sendmsg` comes to: an assertion fails, the frame is in the mailbox, or the
call fails and the box is linked again. -/
inductive SendStep (s : CanBus T) (t : T) (no : Fin 1) (c : CanTxCall) : CanBus T → Prop
  | hangs (hmsg : ¬ CanMsgValid c.data) : SendStep s t no c s
  | accepted (hmsg : CanMsgValid c.data)
    (hstate : s.hcan.state = .ready ∨ s.hcan.state = .listening)
    (hrequest : s.hcan.mailbox.request = none) :
    SendStep s t no c
      ⟨s.tx.goto t (.wait no c), { s.hcan with mailbox := ⟨some (t, c.data), false, false⟩ }⟩
  | occupied (hrequest : s.hcan.mailbox.request ≠ none) :
    SendStep s t no c ⟨s.tx.goto t (.relink no c), { s.hcan with state := .error }⟩
  | refused (hstate : s.hcan.state ≠ .ready ∧ s.hcan.state ≠ .listening) :
    SendStep s t no c ⟨s.tx.goto t (.relink no c), s.hcan⟩

theorem sendStep_threadStep {no : Fin 1} {c : CanTxCall} (hpc : s.tx.pc t = .send no c) :
    SendStep s t no c (s.threadStep t).1 ∧ (s.threadStep t).2 = [] := by
  simp only [threadStep, hpc, CanHandle.canSendmsg]
  -- the cases follow the order of the checks in `_can_sendmsg`
  by_cases hlen : 8 < c.data.len
  · simp only [hlen, if_true]
    exact ⟨.hangs fun hmsg => absurd hlen (UInt8.not_lt.mpr hmsg.1), trivial⟩
  simp only [hlen, if_false]
  by_cases hstate : s.hcan.state = .ready ∨ s.hcan.state = .listening
  · simp only [hstate, if_true]
    cases hrequest : s.hcan.mailbox.request with
    | some frame =>
      simp only [Option.isSome_some, if_true, CanTx.threadStep, hpc]
      exact ⟨.occupied (by simp [hrequest]), rfl⟩
    | none =>
      simp only [Option.isSome_none, Bool.false_eq_true, if_false]
      -- the identifier is looked at only when the mailbox is empty
      by_cases hid : c.data.ide = 0 ∧ 0x7FF < c.data.id
      · simp only [hid, and_self, if_true]
        exact ⟨.hangs fun hmsg => absurd hid.2 (BitVec.not_lt.mpr (hmsg.2 hid.1)), trivial⟩
      · simp only [hid, if_false, CanTx.threadStep, hpc, if_true]
        refine ⟨.accepted ⟨UInt8.not_lt.mp hlen, fun hide => ?_⟩ hstate hrequest, rfl⟩
        exact BitVec.not_lt.mp fun hlt => hid ⟨hide, hlt⟩
  · simp only [hstate, if_false, CanTx.threadStep, hpc]
    exact ⟨.refused (not_or.mp hstate), rfl⟩

/-- The step of a thread that is not about to call `sendmsg`. -/
theorem threadStep_of_ne_send (h : ∀ no c, s.tx.pc t ≠ .send no c) :
    s.threadStep t =
      ({ s with tx := (s.tx.threadStep t true).1 }, (s.tx.threadStep t true).2.map .tx) := by
  unfold threadStep
  split
  · next hpc => exact absurd hpc (h _ _)
  · rfl

/-- What an event does to the boxes and to the peripheral, and what it shows. -/
inductive CanBusMove (s : CanBus T) : CanBusEvent T → CanBus T → List (CanBusObs T) → Prop
  | write (t : T) (data : RtCanMsg) (rest : List RtCanMsg) :
    CanBusMove s (.write t data rest) { s with tx := (s.tx.write t data rest).1 }
      ((s.tx.write t data rest).2.map .tx)
  | send {t : T} {no : Fin 1} {c : CanTxCall} {s' : CanBus T} (hpc : s.tx.pc t = .send no c)
    (hsend : SendStep s t no c s') : CanBusMove s (.run t) s' []
  | thread {t : T} {tx : CanTx 1 T} {os : List (CanTxObs T)}
    (hne : ∀ no c, s.tx.pc t ≠ .send no c) (hmove : CanTxMove s.tx t true tx os) :
    CanBusMove s (.run t) { s with tx := tx } (os.map .tx)
  | finished {t : T} {msg : RtCanMsg} {ok : Bool}
    (hrequest : s.hcan.mailbox.request = some (t, msg)) :
    CanBusMove s (.complete ok) { s with hcan.mailbox := ⟨none, true, ok⟩ } [.frame t msg ok]
  | nothing {ok : Bool} (hrequest : s.hcan.mailbox.request = none) :
    CanBusMove s (.complete ok) s []
  | report (hrqcp : s.hcan.mailbox.rqcp = true) :
    CanBusMove s .txIrq ⟨s.tx.canIsr 0 s.hcan.mailbox.txok, s.hcan.clearFlag⟩ []
  | noReport (hrqcp : s.hcan.mailbox.rqcp = false) : CanBusMove s .txIrq s []
  | error {hcan : CanHandle T}
    (hhcan : hcan = if s.hcan.mailbox.rqcp then s.hcan.clearFlag else s.hcan) :
    CanBusMove s (.sceIrq false) ⟨s.tx, hcan⟩ []
  | ackError {hcan : CanHandle T}
    (hhcan : hcan = if s.hcan.mailbox.rqcp then s.hcan.clearFlag else s.hcan) :
    CanBusMove s (.sceIrq true) ⟨s.tx.canIsr 0 false, hcan⟩ []

omit [DecidableEq T] in
/-- The flag alone is cleared, if it is. -/
theorem request_clearFlag (hcan : CanHandle T) (p : Prop) [Decidable p] :
    (if p then hcan.clearFlag else hcan).mailbox.request = hcan.mailbox.request := by
  split <;> rfl

omit [DecidableEq T] in
theorem state_clearFlag (hcan : CanHandle T) (p : Prop) [Decidable p] :
    (if p then hcan.clearFlag else hcan).state = hcan.state := by
  split <;> rfl

omit [DecidableEq T] in
theorem halIrqHandler_eq (s : CanBus T) :
    s.halIrqHandler =
      ⟨s.tx, if s.hcan.mailbox.rqcp then s.hcan.clearFlag else s.hcan⟩ := by
  unfold halIrqHandler
  split <;> rfl

theorem canBusMove_step (s : CanBus T) (e : CanBusEvent T) :
    CanBusMove s e ((canBusMachine T).next s e) ((canBusMachine T).emit s e) := by
  cases e with
  | write t data rest => exact .write t data rest
  | run t =>
    change CanBusMove s (.run t) (s.threadStep t).1 (s.threadStep t).2
    -- `sendmsg` is the only step of a thread that reaches the peripheral
    by_cases hsend : ∃ no c, s.tx.pc t = .send no c
    · obtain ⟨no, c, hpc⟩ := hsend
      obtain ⟨hstep, hnil⟩ := sendStep_threadStep hpc
      rw [hnil]
      exact .send hpc hstep
    · have hne : ∀ no c, s.tx.pc t ≠ .send no c := fun no c hpc => hsend ⟨no, c, hpc⟩
      rw [threadStep_of_ne_send hne]
      exact .thread hne (canTxMove_threadStep s.tx t true)
  | complete ok =>
    change CanBusMove s (.complete ok) (s.complete ok).1 (s.complete ok).2
    unfold CanBus.complete
    split
    · next hrequest => exact .finished hrequest
    · next hrequest => exact .nothing hrequest
  | txIrq =>
    change CanBusMove s .txIrq s.txIrqHandler []
    unfold CanBus.txIrqHandler
    split
    · next hrqcp => exact .report hrqcp
    · next hrqcp => exact .noReport (Bool.not_eq_true _ ▸ hrqcp)
  | sceIrq ackErr =>
    -- `HAL_CAN_IRQHandler` has left the flag down either way
    have hdown : ¬ s.halIrqHandler.hcan.mailbox.rqcp = true := by
      unfold halIrqHandler
      split
      · exact Bool.false_ne_true
      · assumption
    change CanBusMove s (.sceIrq ackErr) (s.sceIrqHandler ackErr) []
    unfold CanBus.sceIrqHandler
    simp only [hdown]
    rw [halIrqHandler_eq]
    cases ackErr with
    | false => exact .error rfl
    | true => exact .ackError rfl

theorem goto_pc_or (tx : CanTx 1 T) {t u : T} (pc : CanTxPc 1) (hut : u ≠ t) :
    (tx.goto t pc).pc u = tx.pc u ∨ (tx.goto t pc).pc u = (tx.pc u).semResume :=
  .inl (CanTx.goto_pc_of_ne _ _ hut)

theorem semRelease_pc_or (tx : CanTx 1 T) {t u : T} (pc : CanTxPc 1) (hut : u ≠ t) :
    (tx.semRelease t pc).pc u = tx.pc u ∨ (tx.semRelease t pc).pc u = (tx.pc u).semResume := by
  have hgoto := CanTx.goto_pc_of_ne tx pc hut
  rcases CanTx.semRelease_pc tx t pc u with h | h
  · exact .inl (h.trans hgoto)
  · exact .inr (by rw [h, hgoto])

/-- The thread itself goes where the release says: it is not among the waiters. -/
theorem semRelease_pc_self [Fintype T] {tx : CanTx 1 T} (h : tx.CanTxInv) (pc : CanTxPc 1)
    (ht : (tx.pc t).phase = .returned) : (tx.semRelease t pc).pc t = pc := by
  unfold CanTx.semRelease
  cases hsuspended : tx.sem.suspended with
  | nil => exact CanTx.goto_pc_self ..
  | cons w ws =>
    have htw : t ≠ w := by
      rintro rfl
      have hasleep := (h.accounted.sleepers t).mp (hsuspended ▸ List.mem_cons_self)
      rw [show tx.pool.phase t = .returned from ht] at hasleep
      cases hasleep
    exact (CanTx.goto_pc_of_ne _ _ htw).trans (CanTx.goto_pc_self ..)

variable [Fintype T]

omit [DecidableEq T] in
/-- A move of a thread with nothing in flight, before and after. -/
theorem Sound.of_plain (h : s.Sound) {tx' : CanTx 1 T} (hboxes : tx'.CanTxInv)
    (hflag : (tx'.buffer 0).completion.flag = (s.tx.buffer 0).completion.flag)
    (hold : (s.tx.pc t).inFlight = none) (hnew : (tx'.pc t).inFlight = none)
    (hother : ∀ u, u ≠ t → tx'.pc u = s.tx.pc u ∨ tx'.pc u = (s.tx.pc u).semResume) :
    ({ s with tx := tx' } : CanBus T).Sound := by
  -- `t` is not in flight on either side, and the others have at most got a permit
  refine h.of_same hboxes rfl hflag (fun u => ?_) fun u c hu => ?_
  · by_cases hut : u = t
    · rw [hut, hold, ← hnew]
    · rcases hother u hut with hpc | hpc
      · exact congrArg _ hpc
      · exact (congrArg _ hpc).trans (CanTxPc.inFlight_semResume _)
  · have hut : u ≠ t := by
      rintro rfl
      rw [hold] at hu
      cases hu
    rcases hother u hut with hpc | hpc
    · exact hpc
    · exact hpc.trans (CanTxPc.semResume_of_inFlight hu)

/-- A move between two places at rest that say the same about the call. -/
theorem Sound.plain_move (h : s.Sound) {tx' : CanTx 1 T} (hboxes : tx'.CanTxInv)
    (hbuffer : tx'.buffer = s.tx.buffer) (hold : (s.tx.pc t).AtRest) (hnew : (tx'.pc t).AtRest)
    (hcall : (tx'.pc t).callView = (s.tx.pc t).callView)
    (hother : ∀ u, u ≠ t → tx'.pc u = s.tx.pc u ∨ tx'.pc u = (s.tx.pc u).semResume) :
    ({ s with tx := tx' } : CanBus T).Sound ∧ Shows s { s with tx := tx' } [] := by
  refine ⟨h.of_plain hboxes (by rw [hbuffer]) hold.inFlight hnew.inFlight hother,
    shows_nil fun u => ?_⟩
  -- the views: at rest, a thread shows only its call
  by_cases hut : u = t
  · subst hut
    exact (view_of_atRest hnew).trans (hcall.trans (view_of_atRest hold).symm)
  · exact view_congr rfl (congrArg (fun b => (b 0).result) hbuffer) (hother u hut)

/-- The comparison that ends the call. -/
theorem Sound.return_move (h : s.Sound) {result : CanSndResult} {c : CanTxCall} {sent : ℕ}
    (hboxes : (s.tx.goto t .idle).CanTxInv) (hpc : s.tx.pc t = .check result c)
    (hcall : (CanTxPc.check result c).callView = .ended sent) :
    ({ s with tx := s.tx.goto t .idle } : CanBus T).Sound ∧
      Shows s { s with tx := s.tx.goto t .idle } [.tx (.returned t sent)] := by
  have hself : (s.tx.goto t .idle).pc t = .idle := CanTx.goto_pc_self ..
  have hother : ∀ u, u ≠ t → (s.tx.goto t .idle).pc u = s.tx.pc u ∨
      (s.tx.goto t .idle).pc u = (s.tx.pc u).semResume := fun u hut =>
    goto_pc_or s.tx .idle hut
  -- the monitor of `t` sees the call return, the others see nothing
  refine ⟨h.of_plain hboxes (by rw [CanTx.goto_buffer]) (by rw [hpc]; rfl)
    (by rw [hself]; rfl) hother, shows_singleton t ?_ ?_ fun u hut => ?_⟩
  · have hnew : view { s with tx := s.tx.goto t .idle } t = .idle :=
      (view_of_atRest (by rw [hself]; trivial)).trans (by rw [hself]; rfl)
    rw [view_of_atRest (by rw [hpc]; trivial), hpc, hcall, hnew]
    simp only [CanCall.follow, if_true]
  · intro u call hut
    simp only [CanCall.follow, if_neg hut]
  · exact view_congr rfl (by rw [CanTx.goto_buffer]) (hother u hut)

omit [DecidableEq T] in
/-- While `t` owns the box, the invariant is about `t` alone. -/
theorem Sound.of_owner {s' : CanBus T} (no : Fin 1) (hboxes : s'.tx.CanTxInv)
    (hlistening : s'.hcan.state = .listening) (ht : (s'.tx.pc t).phase = .holds no)
    (hflight : ∀ c, (s'.tx.pc t).inFlight = some c → s'.Flight t c)
    (hquiet : (s'.tx.pc t).inFlight = none → s'.Quiet) : s'.Sound where
  boxes := hboxes
  listening := hlistening
  flight u c hu := by
    -- with one box, whoever is in flight owns it and is `t`
    by_cases hut : u = t
    · subst hut
      exact hflight c hu
    · rw [inFlight_of_ne hboxes ht hut] at hu
      cases hu
  quiet hnone := hquiet (hnone t)

/-- The thread reads that its frame has been reported, and takes the flag down. -/
theorem Sound.reported_move (h : s.Sound) {c : CanTxCall}
    (hflight : (s.tx.pc t).inFlight = some c) (hup : s.flag = true) {s' : CanBus T}
    (hs' : s' = ⟨(s.tx.setBox 0 { s.tx.buffer 0 with completion.flag := false }).goto t
      (.finish 0 c), s.hcan⟩) (hboxes : s'.tx.CanTxInv) : s'.Sound ∧ Shows s s' [] := by
  subst hs'
  set s' : CanBus T := ⟨(s.tx.setBox 0 { s.tx.buffer 0 with completion.flag := false }).goto t
    (.finish 0 c), s.hcan⟩
  -- the flag is up, so of the three stages of the flight only the last is left
  obtain ⟨hrequest, hrqcp⟩ : s.hcan.mailbox.request = none ∧ s.hcan.mailbox.rqcp = false := by
    cases h.flight t c hflight with
    | pending _ _ _ hdown => rw [hup] at hdown; cases hdown
    | finished _ _ _ hdown => rw [hup] at hdown; cases hdown
    | reported _ hrequest hrqcp => exact ⟨hrequest, hrqcp⟩
  -- the flag goes down and the result stays in the box
  have hself : s'.tx.pc t = .finish 0 c := CanTx.goto_pc_self ..
  have hbuffer : s'.tx.buffer 0 = { s.tx.buffer 0 with completion.flag := false } :=
    CanTx.setBox_buffer_self s.tx 0 _
  have hresult : (s'.tx.buffer 0).result = (s.tx.buffer 0).result := by rw [hbuffer]
  have hdown : s'.flag = false := by rw [flag, hbuffer]
  refine ⟨Sound.of_owner (t := t) 0 hboxes h.listening (by rw [hself]; rfl) (fun c' hc' => ?_)
    fun _ => ⟨hrequest, hrqcp, hdown⟩, shows_nil fun u => ?_⟩
  · rw [hself] at hc'
    cases hc'
  · by_cases hut : u = t
    · subst hut
      -- `t` has already seen its frame finished: the outcome was in the box
      have hold : s.view u = .after c.rest c.sent ((s.tx.buffer 0).result = .ok) := by
        unfold view
        cases hpc : s.tx.pc u <;> rw [hpc] at hflight <;> cases hflight <;>
          simp [CanTxPc.inFlight, hrequest, outcome, hrqcp]
      rw [hold, view, hself, ← hresult]
    · exact view_congr rfl hresult (goto_pc_or _ _ hut)

/-- **Step lemma** for the threads, but for `sendmsg`. -/
theorem Sound.move (h : s.Sound) (hsend : ∀ no c, s.tx.pc t ≠ .send no c) {tx' : CanTx 1 T}
    {os : List (CanTxObs T)} (hmove : CanTxMove s.tx t true tx' os) :
    ({ s with tx := tx' } : CanBus T).Sound ∧ Shows s { s with tx := tx' } (os.map .tx) := by
  obtain ⟨hboxes, hsafe⟩ := h.boxes.move hmove
  -- most moves are between two places at rest that say the same about the call; the others hand the
  -- result of the frame on from the box to the thread, or end the call
  cases hmove with
  | stay => exact ⟨h, shows_nil fun _ => rfl⟩
  | take c hpc =>
    have hgoto : (s.tx.semTake t c).pc t = if 0 < s.tx.sem.value then .unlink c else .asleep c :=
      CanTx.goto_pc_self ..
    refine h.plain_move (t := t) hboxes rfl (by rw [hpc]; trivial) ?_ ?_ fun u => goto_pc_or _ _
    -- with or without a permit, the thread has still its whole message to send
    · rw [hgoto]
      split <;> trivial
    · rw [hgoto, hpc]
      split <;> rfl
  -- the box leaves the free list, which no caller sees
  | unlink c no free hpc =>
    exact h.plain_move (t := t) hboxes rfl (by rw [hpc]; trivial)
      (by rw [CanTx.goto_pc_self]; trivial) (by rw [CanTx.goto_pc_self, hpc]; rfl)
      fun u => goto_pc_or _ _
  -- an empty free list after a permit is excluded by the invariant of the boxes
  | corrupted => exact absurd rfl (hsafe _ List.mem_cons_self).2
  | mark no c hpc =>
    obtain rfl := Fin.eq_zero no
    refine ⟨h.of_plain (t := t) hboxes (by simp) (by rw [hpc]; rfl)
      (by rw [CanTx.goto_pc_self]; rfl) fun u => goto_pc_or _ _, shows_nil fun u => ?_⟩
    by_cases hut : u = t
    · subst hut
      rw [view_of_atRest (by rw [CanTx.goto_pc_self]; trivial),
        view_of_atRest (by rw [hpc]; trivial), CanTx.goto_pc_self, hpc]
      rfl
    · -- the result is new, but nobody else looks at it
      have hrest := CanTxPc.atRest_of_outside
        (h.boxes.outside 0 (t := t) (by rw [hpc]; rfl) hut)
      have hsame := CanTx.goto_pc_of_ne
        (s.tx.setBox 0 { s.tx.buffer 0 with result := .wait }) (.send 0 c) hut
      rw [view_of_atRest hrest, view_of_atRest (by rw [hsame]; exact hrest), hsame]
      rfl
  -- `sendmsg` has a lemma of its own
  | sendOk no c hpc => exact absurd hpc (hsend no c)
  | sendFail no c hpc => exact absurd hpc (hsend no c)
  | relink no c hpc =>
    exact h.plain_move (t := t) hboxes rfl (by rw [hpc]; trivial)
      (by rw [CanTx.goto_pc_self]; trivial) (by rw [CanTx.goto_pc_self, hpc]; rfl)
      fun u => goto_pc_or _ _
  -- the release goes to another thread: `t` itself is not waiting
  | retry c hpc =>
    have hself := semRelease_pc_self h.boxes (.take c) (t := t) (by rw [hpc]; rfl)
    exact h.plain_move (t := t) hboxes (CanTx.semRelease_buffer ..) (by rw [hpc]; trivial)
      (by rw [hself]; trivial) (by rw [hself, hpc]; rfl) fun u => semRelease_pc_or _ _
  -- the flag was up before the thread went to sleep
  | waitDone no c hpc hflag =>
    obtain rfl := Fin.eq_zero no
    exact h.reported_move (by rw [hpc]; rfl) hflag rfl hboxes
  | assertion => exact absurd rfl (hsafe _ List.mem_cons_self).1
  | suspend no c hpc hflag =>
    obtain rfl := Fin.eq_zero no
    have hself : ((s.tx.setBox 0 { s.tx.buffer 0 with completion.suspendedList := [t] }).goto t
        (.suspended 0 c)).pc t = .suspended 0 c := CanTx.goto_pc_self ..
    have hflight := h.flight t c (by rw [hpc]; rfl)
    -- going to sleep changes nothing about the frame, which cannot have been reported yet
    refine ⟨Sound.of_owner (t := t) 0 hboxes h.listening (by rw [hself]; rfl)
      (fun c' hc' => ?_) fun hnone => ?_, shows_nil fun u => ?_⟩
    · rw [hself] at hc'
      cases hc'
      cases hflight with
      | pending _ hrequest hrqcp hdown =>
      exact .pending (.inr hself) hrequest hrqcp (by simpa [flag])
      | finished _ hrequest hrqcp hdown =>
        exact .finished (.inr hself) hrequest hrqcp (by simpa [flag])
      | reported _ _ _ hup => rw [flag, hflag] at hup; cases hup
    · rw [hself] at hnone
      cases hnone
    · by_cases hut : u = t
      · subst hut
        simp only [view, hself, hpc, CanTxPc.inFlight, outcome, CanTx.goto_buffer,
          CanTx.setBox_buffer_self]
      · exact view_congr rfl (by simp) (goto_pc_or _ _ hut)
  | clean no c hpc =>
    obtain rfl := Fin.eq_zero no
    -- only a report wakes a thread, so the flag is up
    have hup : s.flag = true := by
      cases h.flight t c (by rw [hpc]; rfl) with
      | pending hat => simp [hpc] at hat
      | finished hat => simp [hpc] at hat
      | reported _ _ _ hup => exact hup
    exact h.reported_move (by rw [hpc]; rfl) hup rfl hboxes
  -- the result moves from the box to the stack of the thread
  | finish no c hpc =>
    refine ⟨h.of_plain (t := t) hboxes rfl (by rw [hpc]; rfl) (by rw [CanTx.goto_pc_self]; rfl)
      fun u => goto_pc_or _ _, shows_nil fun u => ?_⟩
    by_cases hut : u = t
    · subst hut
      rw [view_of_atRest (by rw [CanTx.goto_pc_self]; trivial), CanTx.goto_pc_self, view, hpc]
      rfl
    · exact view_congr rfl rfl (goto_pc_or _ _ hut)
  | post result c hpc =>
    have hself := semRelease_pc_self h.boxes (.check result c) (t := t) (by rw [hpc]; rfl)
    exact h.plain_move (t := t) hboxes (CanTx.semRelease_buffer ..) (by rw [hpc]; trivial)
      (by rw [hself]; trivial) (by rw [hself, hpc]; rfl) fun u => semRelease_pc_or _ _
  -- the last message is through: the call returns
  | checkLast c hpc hrest =>
    refine h.return_move hboxes hpc ?_
    simp [CanTxPc.callView, CanCall.after, hrest]
  -- one message is through, and the loop goes on with the next
  | checkNext c data rest hpc hrest =>
    refine h.plain_move (t := t) hboxes rfl (by rw [hpc]; trivial)
      (by rw [CanTx.goto_pc_self]; trivial) ?_ fun u => goto_pc_or _ _
    rw [CanTx.goto_pc_self, hpc]
    simp [CanTxPc.callView, CanCall.after, hrest]
  -- a frame failed: the call returns without sending the rest
  | checkDropped result c hpc hresult =>
    refine h.return_move hboxes hpc ?_
    simp [CanTxPc.callView, CanCall.after, hresult]

omit [DecidableEq T] in
theorem Sound.quiet_of_send (h : s.Sound) {no : Fin 1} {c : CanTxCall}
    (hpc : s.tx.pc t = .send no c) : s.Quiet :=
  -- the thread in `sendmsg` owns the box and has nothing in flight
  h.quiet_of_owner no (t := t) (by rw [hpc]; rfl) (by rw [hpc]; rfl)

/-- `sendmsg` finds the mailbox empty, so the frame is accepted unless an assertion fails. -/
theorem Sound.send_cases (h : s.Sound) {no : Fin 1} {c : CanTxCall} (hpc : s.tx.pc t = .send no c) :
    (¬ CanMsgValid c.data ∧ s.threadStep t = (s, [])) ∨
      (CanMsgValid c.data ∧ s.threadStep t =
        (⟨s.tx.goto t (.wait no c), { s.hcan with mailbox := ⟨some (t, c.data), false, false⟩ }⟩,
          [])) := by
  obtain ⟨hstep, hnil⟩ := sendStep_threadStep hpc
  have hpair : s.threadStep t = ((s.threadStep t).1, []) := Prod.ext rfl hnil
  rw [hpair]
  generalize (s.threadStep t).1 = s' at hstep
  -- an occupied mailbox and a stopped peripheral contradict the invariant
  cases hstep with
  | hangs hmsg => exact .inl ⟨hmsg, rfl⟩
  | accepted hmsg => exact .inr ⟨hmsg, rfl⟩
  | occupied hrequest => exact absurd (h.quiet_of_send hpc).request hrequest
  | refused hstate => exact absurd h.listening hstate.2

/-- **Step lemma** for `sendmsg`. -/
theorem Sound.sendmsg (h : s.Sound) {no : Fin 1} {c : CanTxCall} (hpc : s.tx.pc t = .send no c) :
    (s.threadStep t).1.Sound ∧ Shows s (s.threadStep t).1 (s.threadStep t).2 := by
  have hquiet := h.quiet_of_send hpc
  obtain rfl := Fin.eq_zero no
  have hself : (s.tx.goto t (.wait 0 c)).pc t = .wait 0 c := CanTx.goto_pc_self ..
  -- where an assertion fails nothing moves; else the frame is pending in the mailbox
  rcases h.send_cases hpc with ⟨-, hstep⟩ | ⟨-, hstep⟩
  · rw [hstep]
    exact ⟨h, shows_nil fun _ => rfl⟩
  rw [hstep]
  refine ⟨Sound.of_owner (t := t) 0 (h.boxes.move (.sendOk 0 c hpc rfl)).1 h.listening
    (by rw [hself]; rfl) (fun c' hc' => ?_) fun hnone => ?_, shows_nil fun u => ?_⟩
  · rw [hself] at hc'
    cases hc'
    exact .pending (.inl hself) rfl rfl hquiet.flag
  · rw [hself] at hnone
    cases hnone
  · by_cases hut : u = t
    · subst hut
      simp [view, hpc, CanTxPc.inFlight, CanTxPc.callView]
    · -- the others are at rest and do not see the peripheral
      have hrest := CanTxPc.atRest_of_outside
        (h.boxes.outside 0 (t := t) (by rw [hpc]; rfl) hut)
      have hsame := CanTx.goto_pc_of_ne s.tx (.wait 0 c) hut
      rw [view_of_atRest hrest, view_of_atRest (by rw [hsame]; exact hrest), hsame]

omit [DecidableEq T] in
/-- When something is under way, some thread is in flight. -/
theorem Sound.exists_inFlight (h : s.Sound)
    (hbusy : s.hcan.mailbox.request ≠ none ∨ s.hcan.mailbox.rqcp = true) :
    ∃ t c, (s.tx.pc t).inFlight = some c := by
  by_contra hnone
  simp only [not_exists] at hnone
  obtain ⟨hrequest, hrqcp, -⟩ := h.quiet fun t => Option.eq_none_iff_forall_ne_some.mpr (hnone t)
  rcases hbusy with hbusy | hbusy
  · exact hbusy hrequest
  · rw [hrqcp] at hbusy
    cases hbusy

/-- **Step lemma** for the peripheral. -/
theorem Sound.complete (h : s.Sound) (ok : Bool) :
    (s.complete ok).1.Sound ∧ Shows s (s.complete ok).1 (s.complete ok).2 := by
  cases hrequest : s.hcan.mailbox.request with
  | none =>
    have hstep : s.complete ok = (s, []) := by simp only [CanBus.complete, hrequest]
    rw [hstep]
    exact ⟨h, shows_nil fun _ => rfl⟩
  | some frame =>
    obtain ⟨t, c, hflight⟩ := h.exists_inFlight (.inl (by simp [hrequest]))
    -- the frame in the mailbox is the one of the thread in flight
    obtain ⟨hat, rfl, hdown⟩ : (s.tx.pc t = .wait 0 c ∨ s.tx.pc t = .suspended 0 c) ∧
        frame = (t, c.data) ∧ s.flag = false := by
      cases h.flight t c hflight with
      | pending hat hframe _ hdown =>
        exact ⟨hat, Option.some.inj (hrequest.symm.trans hframe), hdown⟩
      | finished _ hframe => rw [hrequest] at hframe; cases hframe
      | reported _ hframe => rw [hrequest] at hframe; cases hframe
    have hstep : s.complete ok =
        ({ s with hcan.mailbox := ⟨none, true, ok⟩ }, [.frame t c.data ok]) := by
      simp only [CanBus.complete, hrequest]
    have howner := CanTxPc.phase_of_inFlight hflight
    rw [hstep]
    -- the frame leaves the mailbox: it is finished, and not yet reported
    refine ⟨Sound.of_owner (t := t) _ h.boxes h.listening howner (fun c' hc' => ?_) fun hnone => ?_,
      shows_singleton t ?_ ?_ fun u hut => ?_⟩
    · obtain rfl : c = c' := Option.some.inj (hflight.symm.trans hc')
      exact .finished hat rfl rfl hdown
    · rw [show (s.tx.pc t).inFlight = none from hnone] at hflight
      cases hflight
    · rcases hat with hpc | hpc <;>
        simp [view, hpc, CanTxPc.inFlight, hrequest, CanCall.follow, outcome]
    · intro u call hut
      simp only [CanCall.follow, if_neg hut]
    -- the box is `t`'s, so the others are at rest and see nothing of it
    · have hrest := CanTxPc.atRest_of_outside (h.boxes.outside _ howner hut)
      exact (view_of_atRest (s := { s with hcan.mailbox := ⟨none, true, ok⟩ }) hrest).trans
        (view_of_atRest hrest).symm

/-- **Step lemma** for the transmit interrupt. -/
theorem Sound.txIrqHandler (h : s.Sound) :
    s.txIrqHandler.Sound ∧ Shows s s.txIrqHandler [] := by
  by_cases hrqcp : s.hcan.mailbox.rqcp = true
  · obtain ⟨t, c, hflight⟩ := h.exists_inFlight (.inr hrqcp)
    -- the flag of the peripheral is up, so the frame of `t` is finished and not reported
    obtain ⟨hat, hrequest, hdown⟩ : (s.tx.pc t = .wait 0 c ∨ s.tx.pc t = .suspended 0 c) ∧
        s.hcan.mailbox.request = none ∧ s.flag = false := by
      cases h.flight t c hflight with
      | pending _ _ hclear => rw [hrqcp] at hclear; cases hclear
      | finished hat hrequest _ hdown => exact ⟨hat, hrequest, hdown⟩
      | reported _ _ hclear => rw [hrqcp] at hclear; cases hclear
    have howner := CanTxPc.phase_of_inFlight hflight
    have hstep : s.txIrqHandler = ⟨s.tx.canIsr 0 s.hcan.mailbox.txok, s.hcan.clearFlag⟩ :=
      if_pos hrqcp
    have hboxes := h.boxes.canIsr 0 s.hcan.mailbox.txok
    -- the box is completed with the result, and `t` is woken if it sleeps
    have hbuffer : (s.tx.canIsr 0 s.hcan.mailbox.txok).buffer 0 =
        ⟨⟨true, []⟩, if s.hcan.mailbox.txok then .ok else .err⟩ := by
      rcases hat with hpc | hpc
      · rw [CanTx.canIsr_of_nobody _ hdown (h.boxes.suspendedList_eq_nil hpc)]
        exact CanTx.setBox_buffer_self ..
      · rw [CanTx.canIsr_of_waiter _ hpc hdown (h.boxes.waits.suspended 0 t c hpc).1,
          CanTx.goto_buffer, CanTx.setBox_buffer_self]
    have hself : (s.tx.canIsr 0 s.hcan.mailbox.txok).pc t = .wait 0 c ∨
        (s.tx.canIsr 0 s.hcan.mailbox.txok).pc t = .clean 0 c := by
      rcases hat with hpc | hpc
      · rw [CanTx.canIsr_of_nobody _ hdown (h.boxes.suspendedList_eq_nil hpc)]
        exact .inl hpc
      · rw [CanTx.canIsr_of_waiter _ hpc hdown (h.boxes.waits.suspended 0 t c hpc).1]
        exact .inr (CanTx.goto_pc_self ..)
    have hother : ∀ u, u ≠ t → (s.tx.canIsr 0 s.hcan.mailbox.txok).pc u = s.tx.pc u := by
      intro u hut
      rcases hat with hpc | hpc
      · rw [CanTx.canIsr_of_nobody _ hdown (h.boxes.suspendedList_eq_nil hpc), CanTx.setBox_pc]
      · rw [CanTx.canIsr_of_waiter _ hpc hdown (h.boxes.waits.suspended 0 t c hpc).1]
        exact CanTx.goto_pc_of_ne _ _ hut
    -- `t` is still in flight, now with the report in the box
    have hflight' : ((s.tx.canIsr 0 s.hcan.mailbox.txok).pc t).inFlight = some c := by
      rcases hself with hpc | hpc <;> rw [hpc] <;> rfl
    rw [hstep]
    refine ⟨Sound.of_owner (t := t) _ hboxes h.listening (CanTxPc.phase_of_inFlight hflight')
      (fun c' hc' => ?_) fun hnone => ?_, shows_nil fun u => ?_⟩
    · obtain rfl : c = c' := Option.some.inj (hflight'.symm.trans hc')
      exact .reported hself hrequest rfl (by rw [flag, hbuffer])
    · rw [hflight'] at hnone
      cases hnone
    · by_cases hut : u = t
      · subst hut
        -- the result moves from the peripheral to the box
        have hnew : view ⟨s.tx.canIsr 0 s.hcan.mailbox.txok, s.hcan.clearFlag⟩ u =
            .after c.rest c.sent s.hcan.mailbox.txok := by
          rcases hself with hpc | hpc <;>
            cases htxok : s.hcan.mailbox.txok <;>
            simp [view, htxok ▸ hpc, CanTxPc.inFlight, CanHandle.clearFlag, hrequest, outcome,
              htxok ▸ hbuffer]
        have hold : s.view u = .after c.rest c.sent s.hcan.mailbox.txok := by
          rcases hat with hpc | hpc <;>
            simp [view, hpc, CanTxPc.inFlight, hrequest, outcome, hrqcp]
        rw [hnew, hold]
      -- the others have not moved and do not look at the box
      · have hrest := CanTxPc.atRest_of_outside (h.boxes.outside _ howner hut)
        have hsame := hother u hut
        rw [view_of_atRest hrest, view_of_atRest (by rw [hsame]; exact hrest), hsame]
  -- no request has completed: the handler does nothing
  · have hstep : s.txIrqHandler = s := if_neg hrqcp
    rw [hstep]
    exact ⟨h, shows_nil fun _ => rfl⟩

/-- **Step lemma** for a new call. -/
theorem Sound.write (h : s.Sound) (t : T) (data : RtCanMsg) (rest : List RtCanMsg) :
    let s' : CanBus T := { s with tx := (s.tx.write t data rest).1 }
    s'.Sound ∧ Shows s s' ((s.tx.write t data rest).2.map .tx) := by
  intro s'
  have hboxes := (h.boxes.write t data rest).1
  -- a thread that is inside a call cannot make another one
  by_cases hpc : s.tx.pc t = .idle
  · have hstep := CanTx.write_of_idle hpc data rest
    have hself : s'.tx.pc t = .take ⟨0, data, rest⟩ := by
      simp only [s', hstep, CanTx.goto_pc_self]
    have hother : ∀ u, u ≠ t → s'.tx.pc u = s.tx.pc u ∨ s'.tx.pc u = (s.tx.pc u).semResume := by
      intro u hut
      simp only [s', hstep]
      exact goto_pc_or _ _ hut
    have hbuffer : s'.tx.buffer = s.tx.buffer := by
      simp only [s', hstep, CanTx.goto_buffer]
    refine ⟨h.of_plain hboxes (by rw [hbuffer]) (by rw [hpc]; rfl) (by rw [hself]; rfl) hother, ?_⟩
    rw [hstep]
    refine shows_singleton t ?_ ?_ fun u hut => view_congr rfl (by rw [hbuffer]) (hother u hut)
    -- the monitor goes from no call to the call with all its messages
    · rw [view_of_atRest (by rw [hpc]; trivial), view_of_atRest (by rw [hself]; trivial), hpc,
        hself]
      simp only [CanTxPc.callView, CanCall.follow, if_true]
    · intro u call hut
      simp only [CanCall.follow, if_neg hut]
  · have hstep := CanTx.write_of_ne_idle hpc data rest
    have hsame : s' = s := by simp only [s', hstep]
    rw [hsame, hstep]
    exact ⟨h, shows_nil fun _ => rfl⟩

omit [DecidableEq T] in
theorem sound_opened : (opened T).Sound where
  boxes := CanTx.canTxInv_opened
  listening := rfl
  flight := fun _ _ => (nomatch ·)
  quiet := fun _ => ⟨rfl, rfl, rfl⟩

end CanBus

/-- The events but `CAN1_SCE_IRQHandler`. -/
def CanBusEvent.NoError : CanBusEvent T → Prop
  | .sceIrq _ => False
  | _ => True

instance : (e : CanBusEvent T) → Decidable e.NoError
  | .sceIrq _ => .isFalse id
  | .write _ _ _ => .isTrue trivial
  | .run _ => .isTrue trivial
  | .complete _ => .isTrue trivial
  | .txIrq => .isTrue trivial

section Runs

variable [DecidableEq T] [Fintype T]

namespace CanBus

theorem Sound.step {s : CanBus T} (h : s.Sound) {e : CanBusEvent T} (he : e.NoError) :
    ((canBusMachine T).next s e).Sound ∧
      Shows s ((canBusMachine T).next s e) ((canBusMachine T).emit s e) := by
  cases e with
  | write t data rest => exact h.write t data rest
  | run t =>
    -- `sendmsg` is the only step of a thread that reaches the peripheral
    by_cases hsend : ∃ no c, s.tx.pc t = .send no c
    · obtain ⟨no, c, hpc⟩ := hsend
      exact h.sendmsg hpc
    · have hne : ∀ no c, s.tx.pc t ≠ .send no c := fun no c hpc => hsend ⟨no, c, hpc⟩
      change (s.threadStep t).1.Sound ∧ Shows s (s.threadStep t).1 (s.threadStep t).2
      rw [threadStep_of_ne_send hne]
      exact h.move hne (canTxMove_threadStep s.tx t true)
  | complete ok => exact h.complete ok
  | txIrq => exact h.txIrqHandler
  | sceIrq => exact he.elim

theorem sound_run {es : List (CanBusEvent T)} (hes : ∀ e ∈ es, e.NoError) :
    ((canBusMachine T).run (.opened T) es).Sound :=
  Machine.run_of_along (I := CanBus.Sound) (fun _ _ h he => (h.step he).1) sound_opened
    (Machine.along_of_forall hes _)

end CanBus

namespace CanBus

variable {s : CanBus T}

/-- The frame in the mailbox has passed the assertions of `_can_sendmsg`. -/
def FrameInv (s : CanBus T) : Prop := ∀ f ∈ s.hcan.mailbox.request, CanMsgValid f.2

omit [DecidableEq T] [Fintype T] in
theorem FrameInv.of_request {s' : CanBus T} (h : s.FrameInv)
    (hrequest : s'.hcan.mailbox.request = s.hcan.mailbox.request ∨
      s'.hcan.mailbox.request = none) : s'.FrameInv := by
  intro f hf
  rcases hrequest with hsame | hnone
  · exact h f (hsame ▸ hf)
  · rw [hnone] at hf
    cases hf

omit [Fintype T] in
/-- **Step lemma**: a new frame comes from a `sendmsg` that went through. -/
theorem FrameInv.step (h : s.FrameInv) (e : CanBusEvent T) :
    ((canBusMachine T).next s e).FrameInv := by
  have hmove := canBusMove_step s e
  generalize (canBusMachine T).emit s e = os at hmove
  generalize (canBusMachine T).next s e = s' at hmove ⊢
  cases hmove with
  | write t data rest => exact h.of_request (.inl rfl)
  | send hpc hsend =>
    cases hsend with
    | hangs hmsg => exact h
    | accepted hmsg =>
      -- it has passed the assertions
      rintro f hf
      obtain rfl := Option.some.inj hf
      exact hmsg
    | occupied hrequest => exact h.of_request (.inl rfl)
    | refused hstate => exact h.of_request (.inl rfl)
  | thread hne hmove => exact h.of_request (.inl rfl)
  -- the peripheral and the handlers only empty the mailbox or leave it alone
  | finished hrequest => exact h.of_request (.inr rfl)
  | nothing hrequest => exact h
  | report hrqcp => exact h.of_request (.inl rfl)
  | noReport hrqcp => exact h
  | error hhcan => exact h.of_request (.inl (hhcan ▸ request_clearFlag ..))
  | ackError hhcan => exact h.of_request (.inl (hhcan ▸ request_clearFlag ..))

end CanBus

end Runs

end RobomasterFirmware.Drivers
