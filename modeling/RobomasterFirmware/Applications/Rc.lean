import RobomasterFirmware.Algorithm.RcProcess
import RobomasterFirmware.Lib.Machine

/-!
# The Receive Callback

`applications/rc.c`: `dbus_input` copies the received bytes to the start of `dbus_rx_buffer` and
decodes the buffer, whatever the number of bytes. The buffer therefore overlays the bursts received
so far, and a short burst is decoded together with the tail of earlier ones.

Where the bytes come from is the subject of `Applications.DbusReception`.

## Main Results
- `getElem_run_dbusRxBuffer`: every byte of the buffer is that of the last burst reaching it
- `dbusInput_overlays`: what the record is after any sequence of bursts
-/

namespace RobomasterFirmware.Applications

open RobomasterFirmware.Algorithm
open RobomasterFirmware.Lib

/-! ## Model -/

/-- The globals of `rc.c` that the callback uses. -/
structure DbusState where
  rc : RcInfo
  dbusRxBuffer : DbusFrame
  deriving DecidableEq

/-- The globals at power on. -/
def DbusState.zero : DbusState := { rc := RcInfo.zero, dbusRxBuffer := Vector.replicate 18 0 }

/-- What `rt_device_read` does to `dbus_rx_buffer`: the bytes go to its start, the rest stays. -/
def copyToStart (buf : DbusFrame) (bytes : List UInt8) : DbusFrame :=
  Vector.ofFn fun k => bytes[k.val]?.getD buf[k]

/-- `dbus_input`, given the bytes that `rt_device_read` delivers. -/
def dbusInput (s : DbusState) (bytes : List UInt8) : DbusState :=
  let s := { s with dbusRxBuffer := copyToStart s.dbusRxBuffer bytes }
  { s with rc := rcProcess s.rc s.dbusRxBuffer }

/-- The bytes of one callback: at least one, at most a buffer full. -/
structure Burst where
  bytes : List UInt8
  size_pos : 1 ≤ bytes.length
  size_le : bytes.length ≤ 18

/-- The burst is a whole frame. -/
def Burst.IsFull (b : Burst) : Prop := b.bytes.length = 18

instance (b : Burst) : Decidable b.IsFull := inferInstanceAs (Decidable (_ = _))

/-- The callback over a sequence of bursts; every call shows the record it leaves. -/
def dbusMachine : Machine DbusState Burst RcInfo where
  step s b := (dbusInput s b.bytes, [(dbusInput s b.bytes).rc])

/-! ## The buffer -/

@[simp] theorem getElem_copyToStart (buf : DbusFrame) (bytes : List UInt8) (k : Fin 18) :
    (copyToStart buf bytes)[k] = bytes[k.val]?.getD buf[k] := by
  simp [copyToStart]

/-- The frame made of eighteen bytes. -/
def frameOf (bytes : List UInt8) : DbusFrame := copyToStart (Vector.replicate 18 0) bytes

/-- Eighteen bytes replace the whole buffer. -/
theorem Burst.IsFull.copyToStart {b : Burst} (h : b.IsFull) (buf : DbusFrame) :
    copyToStart buf b.bytes = frameOf b.bytes := by
  apply Vector.ext
  intro k hk
  have hlen : k < b.bytes.length := h.symm ▸ hk
  simp [frameOf, Applications.copyToStart, List.getElem?_eq_getElem hlen]

/-- A short burst in front of the tail of the previous contents. -/
theorem copyToStart_frameOf (bytes tail : List UInt8) :
    copyToStart (frameOf tail) bytes = frameOf (bytes ++ tail.drop bytes.length) := by
  apply Vector.ext
  intro k hk
  -- in front the new bytes, behind them the old ones
  by_cases hshort : k < bytes.length
  · simp [frameOf, copyToStart, List.getElem?_append_left hshort, hshort]
  · have hdrop : bytes.length + (k - bytes.length) = k := by omega
    simp [frameOf, copyToStart, List.getElem?_append_right (show bytes.length ≤ k by omega),
      List.getElem?_eq_none (show bytes.length ≤ k by omega), hdrop]

/-- Byte `k` of the last burst that has one. -/
def latestByte (bursts : List Burst) (k : ℕ) : Option UInt8 :=
  bursts.reverse.findSome? fun b => b.bytes[k]?

theorem latestByte_cons (b : Burst) (bursts : List Burst) (k : ℕ) :
    latestByte (b :: bursts) k = (latestByte bursts k).or b.bytes[k]? := by
  simp [latestByte, List.findSome?_append]

/-- **Overlay.** After any bursts, a byte of the buffer is that of the last burst reaching it. -/
theorem getElem_run_dbusRxBuffer (s : DbusState) (bursts : List Burst) (k : Fin 18) :
    (dbusMachine.run s bursts).dbusRxBuffer[k] =
      (latestByte bursts k.val).getD s.dbusRxBuffer[k] := by
  -- Induct on the bursts; the buffer before the first is arbitrary.
  induction bursts generalizing s with
  | nil => rfl
  | cons b bursts ih =>
    have hnext : (dbusMachine.next s b).dbusRxBuffer[k] =
        b.bytes[k.val]?.getD s.dbusRxBuffer[k] := getElem_copyToStart _ _ _
    -- a later burst reaching the byte hides what `b` wrote
    rw [Machine.run_cons, ih, hnext, latestByte_cons]
    cases latestByte bursts k.val <;> rfl

/-- The buffer after the bursts. -/
def overlay (buf : DbusFrame) (bursts : List Burst) : DbusFrame :=
  Vector.ofFn fun k => (latestByte bursts k.val).getD buf[k]

theorem run_dbusRxBuffer (s : DbusState) (bursts : List Burst) :
    (dbusMachine.run s bursts).dbusRxBuffer = overlay s.dbusRxBuffer bursts := by
  apply Vector.ext
  intro k hk
  have h := getElem_run_dbusRxBuffer s bursts ⟨k, hk⟩
  simpa [overlay] using h

/-! ## The record -/

/-- The most recent whole frame. -/
def lastFull (bursts : List Burst) : Option Burst :=
  bursts.reverse.find? fun b => b.IsFull

/-- Only complete frames count: the record is the decode of the most recent whole frame, the initial
record if there was none. -/
def OnlyCompleteFrames (s : DbusState) (bursts : List Burst) : Prop :=
  (dbusMachine.run s bursts).rc =
    match lastFull bursts with
    | some full => rcProcess s.rc (frameOf full.bytes)
    | none => s.rc

/-- After at least one burst the record is the decode of the buffer. -/
theorem run_rc (s : DbusState) (bursts : List Burst) (b : Burst) :
    (dbusMachine.run s (bursts ++ [b])).rc =
      rcProcess s.rc (overlay s.dbusRxBuffer (bursts ++ [b])) := by
  rw [← run_dbusRxBuffer, Machine.run_append]
  exact rcProcess_congr _ _ _

theorem run_rc_of_isFull (s : DbusState) (bursts : List Burst) {full : Burst}
    (h : full.IsFull) :
    (dbusMachine.run s (bursts ++ [full])).rc = rcProcess s.rc (frameOf full.bytes) := by
  rw [Machine.run_append, Machine.run_cons, Machine.run_nil]
  change rcProcess _ (copyToStart _ full.bytes) = _
  -- nothing of the old buffer is left
  rw [h.copyToStart]
  exact rcProcess_congr _ _ _

/-- With whole frames only, the record is the decode of the last one. -/
theorem onlyCompleteFrames_of_isFull {s : DbusState} {bursts : List Burst}
    (h : ∀ b ∈ bursts, b.IsFull) : OnlyCompleteFrames s bursts := by
  rcases List.eq_nil_or_concat' bursts with rfl | ⟨pre, full, rfl⟩
  · rfl
  · have hlast : full.IsFull := h full (by simp)
    have hfull : lastFull (pre ++ [full]) = some full := by simp [lastFull, hlast]
    -- then the last burst is the most recent whole frame
    rw [OnlyCompleteFrames, hfull]
    exact run_rc_of_isFull s pre hlast

/-- A burst after a whole frame is decoded in front of the tail of that frame. -/
theorem run_rc_of_short (s : DbusState) (bursts : List Burst) {full : Burst} (h : full.IsFull)
    (b : Burst) :
    (dbusMachine.run s (bursts ++ [full, b])).rc =
      rcProcess s.rc (frameOf (b.bytes ++ full.bytes.drop b.bytes.length)) := by
  rw [Machine.run_append, Machine.run_cons, Machine.run_cons, Machine.run_nil]
  change rcProcess _ (copyToStart (copyToStart _ full.bytes) b.bytes) = _
  -- the whole frame fills the buffer, so its tail is what the short burst leaves standing
  rw [h.copyToStart, copyToStart_frameOf]
  exact rcProcess_congr _ _ _

/-- **What drives the robot.** The record is the decode of the bursts overlaid in order. Directly
after a whole frame that is the decode of this frame alone, and if all bursts are whole frames it is
the decode of the last; a shorter burst is decoded with the tail of the frame before it. -/
theorem dbusInput_overlays (s : DbusState) (bursts : List Burst) :
    (dbusMachine.run s bursts).rc =
        (if bursts = [] then s.rc else rcProcess s.rc (overlay s.dbusRxBuffer bursts)) ∧
      (∀ pre full, bursts = pre ++ [full] → full.IsFull →
        (dbusMachine.run s bursts).rc = rcProcess s.rc (frameOf full.bytes)) ∧
      ((∀ b ∈ bursts, b.IsFull) → OnlyCompleteFrames s bursts) ∧
      ∀ pre full b, bursts = pre ++ [full, b] → full.IsFull →
        (dbusMachine.run s bursts).rc =
          rcProcess s.rc (frameOf (b.bytes ++ full.bytes.drop b.bytes.length)) := by
  refine ⟨?_, ?_, onlyCompleteFrames_of_isFull, ?_⟩
  -- without a burst nothing was decoded
  · rcases List.eq_nil_or_concat' bursts with rfl | ⟨pre, b, rfl⟩
    · rfl
    · rw [if_neg (by simp)]
      exact run_rc s pre b
  · rintro pre full rfl hfull
    exact run_rc_of_isFull s pre hfull
  · rintro pre full b rfl hfull
    exact run_rc_of_short s pre hfull b

/-- A frame with centred sticks. -/
def neutralBurst : Burst where
  bytes := [0, 4, 32, 0, 1, 24, 0, 0, 0, 0, 0, 0, 0, 0, 0, 0, 0, 4]
  size_pos := by decide
  size_le := by decide

/-- Two stray bytes. -/
def strayBurst : Burst where
  bytes := [100, 5]
  size_pos := by decide
  size_le := by decide

/-- The stray bytes are decoded in front of the tail of the frame before them. -/
theorem dbusInput_overlays_stray :
    (dbusMachine.run DbusState.zero [neutralBurst, strayBurst]).rc =
      rcProcess RcInfo.zero (frameOf (strayBurst.bytes ++ neutralBurst.bytes.drop 2)) :=
  (dbusInput_overlays DbusState.zero [neutralBurst, strayBurst]).2.2.2
    [] neutralBurst strayBurst rfl rfl

/-- They move a stick, which complete frames alone would not have done. -/
theorem not_onlyCompleteFrames_stray :
    ¬ OnlyCompleteFrames DbusState.zero [neutralBurst, strayBurst] := by
  intro h
  have hch1 := congrArg RcInfo.ch1 h
  revert hch1
  decide

end RobomasterFirmware.Applications
