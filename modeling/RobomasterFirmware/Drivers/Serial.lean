import RobomasterFirmware.Lib.Ring
import Mathlib.Tactic.IntervalCases

/-!
# Serial Reception by DMA

`components/drivers/serial/serial.c` and the idle branch of `uart_isr` in `HAL_Drivers/drv_usart.c`:
a circular DMA channel fills the receive buffer; when the line goes idle the interrupt computes how
far the channel has moved, passes that length to the serial driver inside an `int` event, and the
driver advances `put_index` and tells the application how many bytes wait. `_serial_dma_rx` copies
them out and advances `get_index`.

Both indices are `uint16_t`, lengths are `rt_size_t`, 32 bits wide. The receive buffer has at least
one byte, so the branches for `bufsz == 0` are left out, and `rt_malloc` does not fail.
-/

namespace RobomasterFirmware.Drivers

open RobomasterFirmware.Lib

/-! ## State -/

/-- `struct rt_serial_rx_fifo`. -/
structure RtSerialRxFifo where
  buffer : ℕ → UInt8
  putIndex : UInt16
  getIndex : UInt16
  isFull : Bool

/-- The device: `config.bufsz`, the receive FIFO, `dma_rx.last_index`, and the position at which the
DMA channel writes next. -/
structure SerialDevice where
  bufsz : UInt16
  rxFifo : RtSerialRxFifo
  lastIndex : UInt32
  dmaPos : ℕ

namespace SerialDevice

/-- The device after `rt_device_open`, with any contents of the buffer. -/
def opened (bufsz : UInt16) (buffer : ℕ → UInt8) : SerialDevice where
  bufsz := bufsz
  rxFifo := { buffer := buffer, putIndex := 0, getIndex := 0, isFull := false }
  lastIndex := 0
  dmaPos := 0

/-! ## The DMA channel -/

/-- The channel stores the bytes of a burst, going round the buffer. -/
def dmaReceive (s : SerialDevice) (bytes : List UInt8) : SerialDevice :=
  { s with
    rxFifo.buffer := ringWrite s.bufsz.toNat s.rxFifo.buffer s.dmaPos bytes
    dmaPos := (s.dmaPos + bytes.length) % s.bufsz.toNat }

/-- `__HAL_DMA_GET_COUNTER`: the cells up to the end of the buffer. -/
def dmaGetCounter (s : SerialDevice) : UInt32 := UInt32.ofNat (s.bufsz.toNat - s.dmaPos)

/-! ## The FIFO -/

/-- `rt_dma_calc_recved_len`. -/
def calcRecvedLen (s : SerialDevice) : UInt32 :=
  let f := s.rxFifo
  if f.putIndex = f.getIndex then
    if f.isFull = false then 0 else s.bufsz.toUInt32
  else if f.putIndex > f.getIndex then f.putIndex.toUInt32 - f.getIndex.toUInt32
  else s.bufsz.toUInt32 - (f.getIndex.toUInt32 - f.putIndex.toUInt32)

/-- `rt_dma_recv_update_get_index`. -/
def updateGetIndex (s : SerialDevice) (len : UInt32) : SerialDevice :=
  let f := s.rxFifo
  let f := if f.isFull ∧ len ≠ 0 then { f with isFull := false } else f
  -- the sum is stored in 16 bits before it is reduced
  let f := { f with getIndex := (f.getIndex.toUInt32 + len).toUInt16 }
  let f := if f.getIndex ≥ s.bufsz then { f with getIndex := f.getIndex % s.bufsz } else f
  { s with rxFifo := f }

/-- `rt_dma_recv_update_put_index`. -/
def updatePutIndex (s : SerialDevice) (len : UInt32) : SerialDevice :=
  let f := s.rxFifo
  let f :=
    if f.getIndex ≤ f.putIndex then
      let f := { f with putIndex := (f.putIndex.toUInt32 + len).toUInt16 }
      if f.putIndex ≥ s.bufsz then
        let f := { f with putIndex := f.putIndex % s.bufsz }
        -- the writer has caught up with the reader
        if f.putIndex ≥ f.getIndex then { f with isFull := true } else f
      else f
    else
      let f := { f with putIndex := (f.putIndex.toUInt32 + len).toUInt16 }
      if f.putIndex ≥ f.getIndex then
        let f := if f.putIndex ≥ s.bufsz then { f with putIndex := f.putIndex % s.bufsz } else f
        { f with isFull := true }
      else f
  let f := if f.isFull then { f with getIndex := f.putIndex } else f
  { s with rxFifo := f }

/-- `_serial_dma_rx`: the bytes copied out, and the device after the call. -/
def serialDmaRx (s : SerialDevice) (length : Int32) : List UInt8 × SerialDevice :=
  let f := s.rxFifo
  let fifoRecvedLen := s.calcRecvedLen
  let recvLen := if length < fifoRecvedLen.toInt32 then length.toUInt32 else fifoRecvedLen
  let data :=
    if f.getIndex.toUInt32 + recvLen < s.bufsz.toUInt32 then
      slice f.buffer f.getIndex.toNat recvLen.toNat
    else
      slice f.buffer f.getIndex.toNat (s.bufsz.toUInt32 - f.getIndex.toUInt32).toNat ++
        slice f.buffer 0 (recvLen + f.getIndex.toUInt32 - s.bufsz.toUInt32).toNat
  (data, s.updateGetIndex recvLen)

/-- `rt_serial_read` on a device opened with `RT_DEVICE_FLAG_DMA_RX`. -/
def read (s : SerialDevice) (size : UInt32) : List UInt8 × SerialDevice :=
  if size = 0 then ([], s) else s.serialDmaRx size.toInt32

/-! ## Interrupts -/

/-- `RT_SERIAL_EVENT_RX_DMADONE`. -/
def RX_DMADONE : UInt32 := 0x03

/-- The `RT_SERIAL_EVENT_RX_DMADONE` case of `rt_hw_serial_isr`: the device, and the length that
`rx_indicate` is called with. -/
def hwSerialIsr (s : SerialDevice) (event : Int32) : SerialDevice × Int32 :=
  -- an arithmetic shift: the length comes back with its sign
  let length := (event &&& ~~~0xff) >>> 8
  let s := s.updatePutIndex length.toUInt32
  (s, s.calcRecvedLen.toInt32)

/-- The idle branch of `uart_isr`: the device, and the length that `rx_indicate` is called with, if
it is called. -/
def uartIsr (s : SerialDevice) : SerialDevice × Option Int32 :=
  let recvTotalIndex := s.bufsz.toUInt32 - s.dmaGetCounter
  -- less than zero, as a 32-bit value, when the channel has gone round
  let recvLen := recvTotalIndex - s.lastIndex
  let s := { s with lastIndex := recvTotalIndex }
  if recvLen ≠ 0 then
    let (s, length) := s.hwSerialIsr (RX_DMADONE ||| recvLen <<< 8).toInt32
    (s, some length)
  else (s, none)

/-! ## What stays -/

@[simp] theorem bufsz_uartIsr (s : SerialDevice) : s.uartIsr.1.bufsz = s.bufsz := by
  unfold uartIsr
  dsimp only
  split_ifs <;> rfl

@[simp] theorem dmaPos_uartIsr (s : SerialDevice) : s.uartIsr.1.dmaPos = s.dmaPos := by
  unfold uartIsr
  dsimp only
  split_ifs <;> rfl

@[simp] theorem bufsz_read (s : SerialDevice) (size : UInt32) :
    (s.read size).2.bufsz = s.bufsz := by
  unfold read
  split_ifs <;> rfl

@[simp] theorem dmaPos_read (s : SerialDevice) (size : UInt32) :
    (s.read size).2.dmaPos = s.dmaPos := by
  unfold read
  split_ifs <;> rfl

end SerialDevice

/-! ## The length inside the event -/

private theorem event_land (v : BitVec 32) : (3#32 ||| v <<< 8) &&& ~~~255#32 = v <<< 8 := by
  apply BitVec.eq_of_getLsbD_eq
  intro i hi
  simp only [BitVec.getLsbD_and, BitVec.getLsbD_or, BitVec.getLsbD_not, BitVec.getLsbD_shiftLeft]
  interval_cases i <;> simp

private theorem sshiftRight_shiftLeft {v : BitVec 32} (h : -2 ^ 23 ≤ v.toInt ∧ v.toInt < 2 ^ 23) :
    (v <<< 8).sshiftRight 8 = v := by
  apply BitVec.toInt_inj.mp
  have hcast : ((v.toNat <<< 8 : ℕ) : ℤ) = 256 * (v.toNat : ℤ) := by
    rw [Nat.shiftLeft_eq]
    push_cast
    ring
  have hshift : (v <<< 8).toInt = 256 * v.toInt := by
    rw [BitVec.toInt_shiftLeft, hcast, ← Int.mul_bmod_bmod, ← BitVec.toInt_eq_toNat_bmod]
    exact Int.bmod_eq_of_le (by omega) (by omega)
  rw [BitVec.toInt_sshiftRight, hshift, Int.shiftRight_eq_div_pow]
  omega

/-- A length of at most 24 bits, also a negative one, survives the way through the event. -/
theorem event_length (len : UInt32)
    (h : -2 ^ 23 ≤ len.toInt32.toInt ∧ len.toInt32.toInt < 2 ^ 23) :
    (((SerialDevice.RX_DMADONE ||| len <<< 8).toInt32 &&& ~~~0xff) >>> 8).toUInt32 = len := by
  apply UInt32.toBitVec_inj.mp
  change ((3#32 ||| len.toBitVec <<< 8) &&& ~~~255#32).sshiftRight 8 = len.toBitVec
  rw [event_land]
  exact sshiftRight_shiftLeft h

end RobomasterFirmware.Drivers
