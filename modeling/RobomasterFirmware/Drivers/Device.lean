import RobomasterFirmware.Lib.Machine

/-!
# Opening and Closing the CAN Device

`src/device.c` (`rt_device_open`, `rt_device_close`) over `rt_can_init`, `rt_can_open` and
`rt_can_close` of `components/drivers/can/can.c`. A device is opened and closed in any order and any
number of times, with any flags, one call after the other.

`ref_count` has eight bits. The open that lets it wrap does not return: it fails the assertion
behind the increment, and leaves an open device with the count zero to the other threads.

The driver keeps a receive and a transmit structure, and for each a flag and an interrupt. It begins
an open with `dev->open_flag = oflag & 0xff`, which takes the flags of the earlier open away, and
sets them again only where it creates the structure.

Not modelled: the lock, the timer and the headers of the device, and its error interrupt.
`rt_malloc` does not fail.

## Main Results
- `deviceMachine_invariant`: what a driver's functions keep, `device.c` keeps in every run
- `canFlags_iff`: an interrupt of the CAN device has its flag, as the interrupt handler asserts,
  exactly if no open found the structure there; otherwise it lacks it for good
-/

namespace RobomasterFirmware.Drivers

open RobomasterFirmware.Lib

/-! ## Flags -/

/-- `RT_DEVICE_FLAG_*` and `RT_DEVICE_OFLAG_*`. -/
abbrev DeviceFlags := BitVec 16

namespace DeviceFlags

/-- `RT_DEVICE_OFLAG_OPEN`, which is also `RT_DEVICE_FLAG_STANDALONE`. -/
def oflagOpen : DeviceFlags := 0x008
def activated : DeviceFlags := 0x010
def intRx : DeviceFlags := 0x100
def intTx : DeviceFlags := 0x400

/-- `flags & mask` as a condition. -/
def has (flags mask : DeviceFlags) : Bool := flags &&& mask ≠ 0

theorem or_has (f g mask : DeviceFlags) : (f ||| g).has mask = (f.has mask || g.has mask) := by
  have hor : (f ||| g) &&& mask = 0 ↔ f &&& mask = 0 ∧ g &&& mask = 0 := by
    rw [BitVec.and_or_distrib_right]
    exact BitVec.or_eq_zero_iff
  simp only [has, ne_eq, hor, not_and_or, Bool.decide_or, decide_not]

end DeviceFlags

/-- `RT_EOK` and the errors of these functions. -/
inductive RtErr where
  | ok
  | error
  | nosys
  | busy
  deriving DecidableEq

/-! ## `device.c` -/

/-- `struct rt_device` with the state of its driver. -/
structure RtDevice (δ : Type) where
  flag : DeviceFlags
  openFlag : DeviceFlags
  refCount : UInt8
  driver : δ

/-- `device_init`, `device_open` and `device_close`. What configuring the hardware returns is an
input of the first. -/
structure RtDeviceOps (δ : Type) where
  init : RtDevice δ → RtErr → RtErr × RtDevice δ
  openDev : RtDevice δ → DeviceFlags → RtErr × RtDevice δ
  closeDev : RtDevice δ → RtErr × RtDevice δ

namespace RtDeviceOps

variable {δ : Type} (ops : RtDeviceOps δ)

/-- The first part of `rt_device_open`: a device that is not activated is initialized. -/
def activate (dev : RtDevice δ) (configured : RtErr) : RtErr × RtDevice δ :=
  if dev.flag.has .activated then (.ok, dev)
  else
    match ops.init dev configured with
    | (.ok, dev) => (.ok, { dev with flag := dev.flag ||| .activated })
    -- the device is not activated, and the open ends here
    | (err, dev) => (err, dev)

/-- `rt_device_open`; `none` where `RT_ASSERT(dev->ref_count != 0)` fails. -/
def rtDeviceOpen (dev : RtDevice δ) (configured : RtErr) (oflag : DeviceFlags) :
    Option RtErr × RtDevice δ :=
  match ops.activate dev configured with
  | (.ok, dev) =>
    -- `RT_DEVICE_FLAG_STANDALONE` and `RT_DEVICE_OFLAG_OPEN` are the same bit of two words
    if dev.flag.has .oflagOpen ∧ dev.openFlag.has .oflagOpen then (some .busy, dev)
    else
      match ops.openDev dev oflag with
      | (result, dev) =>
        if result = .ok ∨ result = .nosys then
          (if dev.refCount + 1 ≠ 0 then some result else none,
            { dev with openFlag := dev.openFlag ||| .oflagOpen, refCount := dev.refCount + 1 })
        else (some result, dev)
  | (err, dev) => (some err, dev)

/-- `rt_device_close`. -/
def rtDeviceClose (dev : RtDevice δ) : RtErr × RtDevice δ :=
  if dev.refCount = 0 then (.error, dev)
  else
    let dev := { dev with refCount := dev.refCount - 1 }
    -- others still use the device
    if dev.refCount ≠ 0 then (.ok, dev)
    else
      match ops.closeDev dev with
      | (result, dev) =>
        if result = .ok ∨ result = .nosys then (result, { dev with openFlag := 0 })
        else (result, dev)

end RtDeviceOps

/-- A device is opened or closed. -/
inductive DeviceEvent where
  | openDev (configured : RtErr) (oflag : DeviceFlags)
  | closeDev

/-- Opens and closes of a device; it shows what each returns, if it does. -/
def deviceMachine {δ : Type} (ops : RtDeviceOps δ) : Machine (RtDevice δ) DeviceEvent RtErr where
  step dev
    | .openDev configured oflag =>
      ((ops.rtDeviceOpen dev configured oflag).2,
        (ops.rtDeviceOpen dev configured oflag).1.toList)
    | .closeDev => ((ops.rtDeviceClose dev).2, [(ops.rtDeviceClose dev).1])

theorem activated_of_activate {δ : Type} {ops : RtDeviceOps δ} {dev dev' : RtDevice δ}
    {configured : RtErr} (h : ops.activate dev configured = (.ok, dev')) :
    dev'.flag.has .activated = true := by
  unfold RtDeviceOps.activate at h
  -- active already, or made so because `init` succeeded
  split at h
  · next hactive =>
    cases h
    exact hactive
  · split at h
    · next d _ =>
      cases h
      rw [DeviceFlags.or_has, Bool.or_eq_true]
      exact .inr (by decide)
    · next err d hne heq =>
      cases h
      exact (hne rfl).elim

/-- The rule for a property of devices: the driver's functions keep it, and so do the changes that
`device.c` makes around them. -/
theorem deviceMachine_invariant {δ : Type} {ops : RtDeviceOps δ} {I : RtDevice δ → Prop}
    (hinit : ∀ dev configured, I dev → dev.flag.has .activated = false →
      I (ops.init dev configured).2)
    (hopen : ∀ dev oflag, I dev → dev.flag.has .activated = true → I (ops.openDev dev oflag).2)
    (hclose : ∀ dev, I dev → I (ops.closeDev dev).2)
    (hflag : ∀ dev, I dev → I { dev with flag := dev.flag ||| .activated })
    (hcount : ∀ dev n, I dev → I { dev with refCount := n })
    (hopened : ∀ dev, I dev → I { dev with openFlag := dev.openFlag ||| .oflagOpen })
    (hclosed : ∀ dev, I (ops.closeDev dev).2 → I { (ops.closeDev dev).2 with openFlag := 0 })
    {dev : RtDevice δ} (h : I dev) (es : List DeviceEvent) :
    I ((deviceMachine ops).run dev es) := by
  refine Machine.run_invariant (fun dev e hdev => ?_) h es
  cases e with
  | openDev configured oflag =>
    change I (ops.rtDeviceOpen dev configured oflag).2
    -- a device that cannot be initialized is returned as `init` left it
    have hactivate : I (ops.activate dev configured).2 := by
      unfold RtDeviceOps.activate
      split
      · exact hdev
      · next hinactive =>
        -- the flag is set only where `init` returns `RT_EOK`
        have hnew := hinit dev configured hdev (Bool.not_eq_true _ ▸ hinactive)
        split
        · next d heq =>
          rw [heq] at hnew
          exact hflag _ hnew
        · next err d _ heq =>
          rw [heq] at hnew
          exact hnew
    unfold RtDeviceOps.rtDeviceOpen
    split
    · next d heq =>
      -- from here on the device is active, whether it was before or not
      have hactive := activated_of_activate heq
      rw [heq] at hactivate
      split
      -- busy
      · exact hactivate
      · dsimp only
        split
        -- the count changes in the same way whether the assertion behind it holds or not
        · exact hcount _ _ (hopened _ (hopen d oflag hactivate hactive))
        · exact hopen d oflag hactivate hactive
    · next err d _ heq =>
      rw [heq] at hactivate
      exact hactivate
  | closeDev =>
    change I (ops.rtDeviceClose dev).2
    unfold RtDeviceOps.rtDeviceClose
    split
    -- not open
    · exact hdev
    · have hdec := hcount dev (dev.refCount - 1) hdev
      dsimp only
      split
      -- still open for somebody else
      · exact hdec
      · split
        -- the driver has closed it: the open flags go
        · exact hclosed _ (hclose _ hdec)
        · exact hclose _ hdec

/-! ## `can.c` -/

/-- What the driver keeps for reception, and what it keeps for transmission. -/
inductive Side where
  | rx
  | tx
  deriving DecidableEq

/-- `RT_DEVICE_FLAG_INT_RX` and `RT_DEVICE_FLAG_INT_TX`. -/
def Side.intMask : Side → DeviceFlags
  | .rx => .intRx
  | .tx => .intTx

/-- `can_rx` or `can_tx` is not `RT_NULL`; its interrupt is enabled. -/
structure CanSide where
  fifo : Bool
  irq : Bool

/-- The state of the driver. -/
abbrev CanDriver := Side → CanSide

namespace CanDriver

/-- `rt_can_init`. -/
def rtCanInit (dev : RtDevice CanDriver) (configured : RtErr) : RtErr × RtDevice CanDriver :=
  (configured, { dev with driver := fun side => { dev.driver side with fifo := false } })

/-- One of the two parts of `rt_can_open`. -/
def openSide (oflag : DeviceFlags) (side : Side) (dev : RtDevice CanDriver) : RtDevice CanDriver :=
  if (dev.driver side).fifo = false ∧ oflag.has side.intMask = true then
    { dev with
      openFlag := dev.openFlag ||| side.intMask
      driver := Function.update dev.driver side { fifo := true, irq := true } }
  else dev

/-- `rt_can_open`. -/
def rtCanOpen (dev : RtDevice CanDriver) (oflag : DeviceFlags) : RtErr × RtDevice CanDriver :=
  (.ok, openSide oflag .tx (openSide oflag .rx { dev with openFlag := oflag &&& 0xff }))

/-- One of the two parts of `rt_can_close`. -/
def closeSide (side : Side) (dev : RtDevice CanDriver) : RtDevice CanDriver :=
  if dev.openFlag.has side.intMask then
    { dev with
      openFlag := dev.openFlag &&& ~~~side.intMask
      driver := Function.update dev.driver side { fifo := false, irq := false } }
  else dev

/-- `rt_can_close`. -/
def rtCanClose (dev : RtDevice CanDriver) : RtErr × RtDevice CanDriver :=
  if dev.refCount > 1 then (.ok, dev) else (.ok, closeSide .tx (closeSide .rx dev))

/-- The CAN driver's functions. -/
def rtCanOps : RtDeviceOps CanDriver where
  init := rtCanInit
  openDev := rtCanOpen
  closeDev := rtCanClose

/-- A CAN device after `rt_hw_can_register`, whose device is registered with
`RT_DEVICE_FLAG_RDWR`. -/
def registered : RtDevice CanDriver where
  flag := 0x003
  openFlag := 0
  refCount := 0
  driver := fun _ => { fifo := false, irq := false }

end CanDriver

/-! ## The flags of the two sides -/

namespace DeviceFlags

@[simp] theorem zero_has (mask : DeviceFlags) : has 0 mask = false := by simp [has]

/-- The open flags of the caller hold no flag of an interrupt. -/
theorem oflag_has_intMask (oflag : DeviceFlags) (side : Side) :
    (oflag &&& 0xff#16).has side.intMask = false := by
  have hmask : 0xff#16 &&& side.intMask = 0#16 := by cases side <;> decide
  rw [has, BitVec.and_assoc, hmask, BitVec.and_zero]
  exact decide_eq_false (not_not.mpr rfl)

theorem intMask_has (side other : Side) :
    side.intMask.has other.intMask = decide (side = other) := by
  cases side <;> cases other <;> decide

theorem oflagOpen_has_intMask (side : Side) : oflagOpen.has side.intMask = false := by
  cases side <;> decide

theorem andNot_has (flags : DeviceFlags) (side other : Side) :
    (flags &&& ~~~side.intMask).has other.intMask =
      (flags.has other.intMask && !decide (side = other)) := by
  have hmask : ~~~side.intMask &&& other.intMask = if side = other then 0 else other.intMask := by
    cases side <;> cases other <;> decide
  rw [has, BitVec.and_assoc, hmask]
  -- a mask takes away its own flag and no other
  by_cases heq : side = other
  · simp [heq]
  · simp [heq, has]

end DeviceFlags

/-! ## Runs of opens and closes -/

namespace CanDriver

variable {dev : RtDevice CanDriver}

/-- What `rt_can_open` does to a side. -/
theorem rtCanOpen_side (dev : RtDevice CanDriver) (oflag : DeviceFlags) (side : Side) :
    (rtCanOpen dev oflag).2.driver side =
        (if (dev.driver side).fifo = false ∧ oflag.has side.intMask = true then
          { fifo := true, irq := true } else dev.driver side) ∧
      (rtCanOpen dev oflag).2.openFlag.has side.intMask =
        decide ((dev.driver side).fifo = false ∧ oflag.has side.intMask = true) := by
  unfold rtCanOpen openSide
  -- the two parts do not interfere: each side has its own mask and its own structure
  cases side <;> by_cases hrx : (dev.driver .rx).fifo = false ∧ oflag.has Side.rx.intMask = true <;>
    by_cases htx : (dev.driver .tx).fifo = false ∧ oflag.has Side.tx.intMask = true <;>
    simp [hrx, htx, Function.update, DeviceFlags.or_has, DeviceFlags.oflag_has_intMask,
      DeviceFlags.intMask_has]

/-- What `rt_can_close` does to a side. -/
theorem rtCanClose_side (hcount : ¬ dev.refCount > 1) (side : Side) :
    (rtCanClose dev).2.driver side =
        (if dev.openFlag.has side.intMask then { fifo := false, irq := false }
          else dev.driver side) ∧
      (rtCanClose dev).2.openFlag.has side.intMask = false := by
  unfold rtCanClose closeSide
  -- the last user closes
  rw [if_neg hcount]
  cases side <;> by_cases hrx : dev.openFlag.has Side.rx.intMask = true <;>
    by_cases htx : dev.openFlag.has Side.tx.intMask = true <;>
    simp [hrx, htx, Function.update, DeviceFlags.andNot_has]

/-- What is so of a CAN device in every run: its interrupts are on where its structures are, and
no flag stands without its structure. -/
structure Inv (dev : RtDevice CanDriver) : Prop where
  standalone : dev.flag.has .oflagOpen = false
  idle : dev.flag.has .activated = false → ∀ side, (dev.driver side).fifo = false
  irq : ∀ side, (dev.driver side).irq = (dev.driver side).fifo
  flagged : ∀ side, dev.openFlag.has side.intMask = true → (dev.driver side).fifo = true

/-- The structures are `RT_NULL` already where `rt_can_init` runs. -/
theorem Inv.rtCanInit_eq (h : Inv dev) (hidle : dev.flag.has .activated = false)
    (configured : RtErr) : rtCanInit dev configured = (configured, dev) := by
  have hdriver : (fun side => { dev.driver side with fifo := false }) = dev.driver := by
    funext side
    rw [← h.idle hidle side]
  rw [rtCanInit, hdriver]

theorem Inv.opened (h : Inv dev) (hactive : dev.flag.has .activated = true)
    (oflag : DeviceFlags) : Inv (rtCanOpen dev oflag).2 := by
  have hflag : (CanDriver.rtCanOpen dev oflag).2.flag = dev.flag := by
    unfold CanDriver.rtCanOpen openSide
    dsimp only
    split_ifs <;> rfl
  -- `rt_can_open` sets the interrupt with the structure, and the flag only for a structure it makes
  refine ⟨hflag ▸ h.standalone, fun hidle => ?_, fun side => ?_, fun side hside => ?_⟩
  · rw [hflag, hactive] at hidle
    exact absurd hidle.symm Bool.false_ne_true
  · rw [(rtCanOpen_side dev oflag side).1]
    split
    · rfl
    · exact h.irq side
  · obtain ⟨hdriver, hopen⟩ := rtCanOpen_side dev oflag side
    rw [hopen] at hside
    rw [hdriver, if_pos (of_decide_eq_true hside)]

theorem rtCanClose_of_shared (hcount : dev.refCount > 1) : rtCanClose dev = (.ok, dev) :=
  if_pos hcount

theorem rtCanClose_ok (dev : RtDevice CanDriver) : (rtCanClose dev).1 = .ok := by
  unfold rtCanClose
  split_ifs <;> rfl

theorem rtCanClose_flag (dev : RtDevice CanDriver) : (rtCanClose dev).2.flag = dev.flag := by
  unfold rtCanClose closeSide
  split_ifs <;> rfl

theorem Inv.closed (h : Inv dev) : Inv (rtCanClose dev).2 := by
  by_cases hcount : dev.refCount > 1
  · rw [rtCanClose_of_shared hcount]
    exact h
  have hflag := rtCanClose_flag dev
  -- a side whose flag stands loses structure and interrupt; the other one keeps both
  refine ⟨hflag ▸ h.standalone, fun hidle side => ?_, fun side => ?_, fun side hside => ?_⟩
  · rw [(rtCanClose_side hcount side).1]
    split
    · rfl
    · exact h.idle (hflag ▸ hidle) side
  · rw [(rtCanClose_side hcount side).1]
    split
    · rfl
    · exact h.irq side
  · rw [(rtCanClose_side hcount side).2] at hside
    exact absurd hside Bool.false_ne_true

theorem inv_registered : Inv registered :=
  ⟨by decide, fun _ _ => rfl, fun _ => rfl, fun _ h =>
    absurd h (ne_true_of_eq_false (DeviceFlags.zero_has _))⟩

/-- **Step lemma.** -/
theorem Inv.step (h : Inv dev) (e : DeviceEvent) : Inv ((deviceMachine rtCanOps).next dev e) := by
  -- `rt_can_init` changes nothing, by the rule for `device.c` the rest is about the flags
  refine deviceMachine_invariant (I := Inv) (fun d c hd hidle => ?_)
    (fun d oflag hd hactive => hd.opened hactive oflag) (fun d hd => hd.closed)
    (fun d hd => ?_) (fun d n hd => ⟨hd.standalone, hd.idle, hd.irq, hd.flagged⟩)
    (fun d hd => ?_) (fun d hd => ?_) h [e]
  · change Inv (rtCanInit d c).2
    rw [hd.rtCanInit_eq hidle]
    exact hd
  · refine ⟨?_, fun hidle => ?_, hd.irq, hd.flagged⟩
    · rw [DeviceFlags.or_has, hd.standalone]
      decide
    -- an activated device is not idle
    · rw [DeviceFlags.or_has, show DeviceFlags.has .activated .activated = true by decide,
        Bool.or_true] at hidle
      exact absurd hidle.symm Bool.false_ne_true
  · refine ⟨hd.standalone, hd.idle, hd.irq, fun side hside => hd.flagged side ?_⟩
    rwa [DeviceFlags.or_has, DeviceFlags.oflagOpen_has_intMask, Bool.or_false] at hside
  · refine ⟨hd.standalone, hd.idle, hd.irq, fun side hside => ?_⟩
    rw [DeviceFlags.zero_has] at hside
    exact absurd hside Bool.false_ne_true

/-- The structure of a side, if it is there, has its flag. -/
def Flagged (side : Side) (dev : RtDevice CanDriver) : Prop :=
  (dev.driver side).fifo = true → dev.openFlag.has side.intMask = true

/-- The event is no open, or an open that does not find the structure of this side. -/
def FindsNone (side : Side) (dev : RtDevice CanDriver) : DeviceEvent → Prop
  | .openDev _ _ => (dev.driver side).fifo = false
  | .closeDev => True

/-- `device.c` opens a CAN device, or leaves it as it is where it cannot be configured. -/
theorem Inv.activated_cases (h : Inv dev) (configured : RtErr) (oflag : DeviceFlags) :
    ((rtCanOps.rtDeviceOpen dev configured oflag).2 = dev ∧
      ∀ side, (dev.driver side).fifo = false) ∨
    ∃ d : RtDevice CanDriver, d.driver = dev.driver ∧
      (rtCanOps.rtDeviceOpen dev configured oflag).2.driver = (rtCanOpen d oflag).2.driver ∧
      (rtCanOps.rtDeviceOpen dev configured oflag).2.openFlag =
        (rtCanOpen d oflag).2.openFlag ||| .oflagOpen := by
  -- once it is active, the device is handed to `rt_can_open`
  have hopened : ∀ d : RtDevice CanDriver, d.flag.has .oflagOpen = false → d.driver = dev.driver →
      rtCanOps.activate dev configured = (.ok, d) →
      ∃ d : RtDevice CanDriver, d.driver = dev.driver ∧
        (rtCanOps.rtDeviceOpen dev configured oflag).2.driver = (rtCanOpen d oflag).2.driver ∧
        (rtCanOps.rtDeviceOpen dev configured oflag).2.openFlag =
          (rtCanOpen d oflag).2.openFlag ||| .oflagOpen := by
    intro d hstandalone hdriver hactivate
    refine ⟨d, hdriver, ?_⟩
    rw [RtDeviceOps.rtDeviceOpen, hactivate]
    simp [hstandalone, rtCanOps, rtCanOpen]
  by_cases hactive : dev.flag.has .activated = true
  · exact .inr (hopened dev h.standalone rfl (if_pos hactive))
  · have hidle : dev.flag.has .activated = false := Bool.not_eq_true _ ▸ hactive
    -- a device that is not active yet is configured first
    by_cases hok : configured = .ok
    · subst hok
      refine .inr (hopened { dev with flag := dev.flag ||| .activated } ?_ rfl ?_)
      · rw [DeviceFlags.or_has, h.standalone]
        decide
      · simp only [RtDeviceOps.activate, hidle, rtCanOps, h.rtCanInit_eq hidle, Bool.false_eq_true,
          if_false]
    · refine .inl ⟨?_, h.idle hidle⟩
      simp [RtDeviceOps.rtDeviceOpen, RtDeviceOps.activate, hidle, rtCanOps, h.rtCanInit_eq hidle]

/-- `device.c` closes a CAN device, or leaves all but the count as it is. -/
theorem close_cases (dev : RtDevice CanDriver) :
    ((rtCanOps.rtDeviceClose dev).2.driver = dev.driver ∧
      (rtCanOps.rtDeviceClose dev).2.openFlag = dev.openFlag) ∨
    ∃ d : RtDevice CanDriver, d.driver = dev.driver ∧ d.openFlag = dev.openFlag ∧ d.refCount = 0 ∧
      (rtCanOps.rtDeviceClose dev).2.driver = (rtCanClose d).2.driver ∧
      (rtCanOps.rtDeviceClose dev).2.openFlag = 0 := by
  unfold RtDeviceOps.rtDeviceClose
  -- nobody has it open, somebody else still has, or this was the last
  split
  · exact .inl ⟨rfl, rfl⟩
  · dsimp only
    split
    · exact .inl ⟨rfl, rfl⟩
    · next hcount =>
      refine .inr ⟨{ dev with refCount := dev.refCount - 1 }, rfl, rfl, not_not.mp hcount, ?_⟩
      simp only [rtCanOps, rtCanClose_ok, true_or, if_true, and_self]

/-- **Step lemma.** A step takes the flag off a structure exactly if it is an open that finds the
structure, and no step sets it again. -/
theorem Inv.flagged_next (h : Inv dev) (side : Side) (e : DeviceEvent) :
    Flagged side ((deviceMachine rtCanOps).next dev e) ↔
      Flagged side dev ∧ FindsNone side dev e := by
  cases e with
  | openDev configured oflag =>
    change Flagged side (rtCanOps.rtDeviceOpen dev configured oflag).2 ↔ _
    rcases h.activated_cases configured oflag with ⟨heq, hnone⟩ | ⟨d, hdriver, hdriver', hopen'⟩
    -- the device could not be configured, and has no structures
    · rw [heq]
      exact (and_iff_left (hnone side)).symm
    · obtain ⟨hside, hflag⟩ := rtCanOpen_side d oflag side
      rw [hdriver] at hside hflag
      rw [Flagged, hdriver', hopen', hside, DeviceFlags.or_has, hflag,
        DeviceFlags.oflagOpen_has_intMask, Bool.or_false, decide_eq_true_iff, Flagged, FindsNone]
      -- without a structure the flag comes with it; an existing one keeps no flag
      cases hfifo : (dev.driver side).fifo
      · by_cases hoflag : oflag.has side.intMask = true <;> simp [hfifo, hoflag]
      · simp [hfifo]
  | closeDev =>
    change Flagged side (rtCanOps.rtDeviceClose dev).2 ↔ _
    rw [FindsNone, and_true]
    rcases close_cases dev with ⟨hdriver, hopen⟩ | ⟨d, hdriver, hopen, hcount, hdriver', hopen'⟩
    -- the driver was not called
    · rw [Flagged, hdriver, hopen, Flagged]
    · have hside := (rtCanClose_side (by rw [hcount]; decide) side).1
      rw [hdriver, hopen] at hside
      rw [Flagged, hdriver', hopen', hside, DeviceFlags.zero_has, Flagged]
      -- flag and structure go together, or the structure stays without a flag
      by_cases hflag : dev.openFlag.has side.intMask = true <;> simp [hflag]

/-- **Run lemma.** In every run of opens and closes of a CAN device, the interrupt of a side has its
flag, as `rt_hw_can_isr` asserts, exactly if no open has found the structure of that side there. An
open that does takes the flag away for good: no later open or close brings it back or stops the
interrupt. -/
theorem canFlags_iff (side : Side) (es : List DeviceEvent) :
    ((((deviceMachine rtCanOps).run registered es).driver side).irq = true →
        ((deviceMachine rtCanOps).run registered es).openFlag.has side.intMask = true) ↔
      (deviceMachine rtCanOps).Along (FindsNone side) registered es := by
  -- a flag once lost stays lost, so the run is decided by its first bad open
  have hlatch := Machine.run_iff_along (G := Flagged side) (P := FindsNone side)
    (fun _ e hd => Inv.step hd e) (fun _ e hd => hd.flagged_next side e) inv_registered es
  have hinv : Inv ((deviceMachine rtCanOps).run registered es) :=
    Machine.run_invariant (I := Inv) (fun _ e hd => hd.step e) inv_registered es
  have hregistered : Flagged side registered := fun hfifo => absurd hfifo Bool.false_ne_true
  rw [Flagged, ← hinv.irq side, and_iff_right hregistered] at hlatch
  exact hlatch

end CanDriver

end RobomasterFirmware.Drivers
