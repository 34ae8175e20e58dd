import RobomasterFirmware.Drivers.Serial

/-!
# One Burst on a Synchronised Device

Between two bursts `last_index`, `put_index` and `get_index` should all be the position of the DMA
channel (`Synced`). This file computes what the idle interrupt and the read of the callback do to
such a device: the bytes handed over are the right ones, but `get_index` is advanced in 16 bits
before it is reduced, so that on a large buffer it can overflow (`updateGetIndex_eq`).

## Main Results
- `uartIsr_eq`: the interrupt, also when `get_index` has fallen behind
- `Synced.uartIsr_dmaReceive`, `Synced.read_dmaReceive`: one burst on a synchronised device
-/

namespace RobomasterFirmware.Drivers

open RobomasterFirmware.Lib

/-- A length below `2 ^ 31` is the same as an `int`. -/
private theorem toInt_toInt32 {x : UInt32} (h : x.toNat < 2 ^ 31) : x.toInt32.toInt = x.toNat :=
  BitVec.toInt_eq_toNat_of_lt (by simpa using (by omega : 2 * x.toNat < 2 ^ 32))

/-- The difference of two positions, as an `int`. -/
private theorem toInt_sub_toInt32 {x y : UInt32} (hx : x.toNat < 65536) (hy : y.toNat < 65536) :
    (x - y).toInt32.toInt = (x.toNat : ℤ) - y.toNat := by
  rw [UInt32.toInt32_sub, Int32.toInt_sub, toInt_toInt32 (by omega), toInt_toInt32 (by omega)]
  exact Int.bmod_eq_of_le (by omega) (by omega)

namespace SerialDevice

variable {s : SerialDevice}

/-! ## The interrupt -/

private theorem toNat_ofNat_dmaPos (h : s.dmaPos < s.bufsz.toNat) :
    (UInt32.ofNat s.dmaPos).toNat = s.dmaPos :=
  UInt32.toNat_ofNat_of_lt' (h.trans (s.bufsz.toNat_lt.trans (by decide)))

/-- The interrupt finds the position of the channel. -/
theorem recvTotalIndex_eq (h : s.dmaPos < s.bufsz.toNat) :
    s.bufsz.toUInt32 - s.dmaGetCounter = UInt32.ofNat s.dmaPos := by
  have hlt := s.bufsz.toNat_lt
  have hcounter : s.dmaGetCounter.toNat = s.bufsz.toNat - s.dmaPos :=
    UInt32.toNat_ofNat_of_lt' (show s.bufsz.toNat - s.dmaPos < 2 ^ 32 by omega)
  have hle : s.dmaGetCounter ≤ s.bufsz.toUInt32 := by
    rw [UInt32.le_iff_toNat_le, UInt16.toNat_toUInt32, hcounter]
    omega
  apply UInt32.toNat_inj.mp
  -- the counter counts down from the size of the buffer
  rw [UInt32.toNat_sub_of_le _ _ hle, UInt16.toNat_toUInt32, hcounter, toNat_ofNat_dmaPos h]
  omega

/-- The bytes waiting when the FIFO is not full. -/
theorem toNat_calcRecvedLen (hfull : s.rxFifo.isFull = false)
    (hget : s.rxFifo.getIndex.toNat < s.bufsz.toNat) :
    s.calcRecvedLen.toNat =
      ringDistance s.bufsz.toNat s.rxFifo.getIndex.toNat s.rxFifo.putIndex.toNat := by
  unfold calcRecvedLen ringDistance
  dsimp only
  -- the waiting bytes in one piece, none, or in two pieces
  rcases Nat.lt_trichotomy s.rxFifo.getIndex.toNat s.rxFifo.putIndex.toNat with hlt | heq | hgt
  · have hne : s.rxFifo.putIndex ≠ s.rxFifo.getIndex := fun h => hlt.ne' (congrArg UInt16.toNat h)
    have hle : s.rxFifo.getIndex.toUInt32 ≤ s.rxFifo.putIndex.toUInt32 :=
      UInt32.le_iff_toNat_le.mpr hlt.le
    rw [if_neg hne, if_pos (UInt16.lt_iff_toNat_lt.mpr hlt), if_pos hlt.le,
      UInt32.toNat_sub_of_le _ _ hle]
    rfl
  · rw [if_pos (UInt16.toNat_inj.mp heq.symm), if_pos hfull, if_pos heq.le, heq, Nat.sub_self]
    rfl
  · have hne : s.rxFifo.putIndex ≠ s.rxFifo.getIndex := fun h => hgt.ne (congrArg UInt16.toNat h)
    have hback : (s.rxFifo.getIndex.toUInt32 - s.rxFifo.putIndex.toUInt32).toNat =
        s.rxFifo.getIndex.toNat - s.rxFifo.putIndex.toNat :=
      UInt32.toNat_sub_of_le _ _ (UInt32.le_iff_toNat_le.mpr hgt.le)
    have hle : s.rxFifo.getIndex.toUInt32 - s.rxFifo.putIndex.toUInt32 ≤ s.bufsz.toUInt32 := by
      rw [UInt32.le_iff_toNat_le, hback, UInt16.toNat_toUInt32]
      omega
    -- in two pieces: the size less the gap between the indices
    rw [if_neg hne, if_neg (fun h => hgt.not_gt (UInt16.lt_iff_toNat_lt.mp h)),
      if_neg (Nat.not_le.mpr hgt), UInt32.toNat_sub_of_le _ _ hle, hback, UInt16.toNat_toUInt32]

/-- `put_index` advances by the length, as long as it stays in the buffer. -/
theorem updatePutIndex_eq {len : UInt32} {p : UInt16} (hfull : s.rxFifo.isFull = false)
    (hget : s.rxFifo.getIndex ≤ s.rxFifo.putIndex)
    (hp : (s.rxFifo.putIndex.toUInt32 + len).toUInt16 = p) (hlt : p < s.bufsz) :
    s.updatePutIndex len = { s with rxFifo.putIndex := p } := by
  have hge : ¬ p ≥ s.bufsz := UInt16.not_le.mpr hlt
  unfold updatePutIndex
  simp only [if_pos hget, hp, if_neg hge, hfull]
  rfl

/-- The device with `last_index` and `put_index` at the position of the DMA channel. -/
def moved (s : SerialDevice) : SerialDevice :=
  { s with
    lastIndex := UInt32.ofNat s.dmaPos
    rxFifo.putIndex := UInt16.ofNat s.dmaPos }

theorem toNat_putIndex_moved (h : s.dmaPos < s.bufsz.toNat) :
    s.moved.rxFifo.putIndex.toNat = s.dmaPos :=
  UInt16.toNat_ofNat_of_lt' (h.trans s.bufsz.toNat_lt)

theorem toNat_lastIndex_moved (h : s.dmaPos < s.bufsz.toNat) :
    s.moved.lastIndex.toNat = s.dmaPos := toNat_ofNat_dmaPos h

/-- The event takes `put_index` to the position of the channel, also when the length in it is
negative. -/
theorem hwSerialIsr_eq (hpos : s.dmaPos < s.bufsz.toNat) (hfull : s.rxFifo.isFull = false)
    (hget : s.rxFifo.getIndex ≤ s.rxFifo.putIndex) :
    hwSerialIsr { s with lastIndex := UInt32.ofNat s.dmaPos }
        (RX_DMADONE ||| (UInt32.ofNat s.dmaPos - s.rxFifo.putIndex.toUInt32) <<< 8).toInt32 =
      (s.moved, s.moved.calcRecvedLen.toInt32) := by
  have hB := s.bufsz.toNat_lt
  have hput := s.rxFifo.putIndex.toNat_lt
  have hidx := toNat_ofNat_dmaPos hpos
  -- the length survives the event
  have hlen := toInt_sub_toInt32 (x := UInt32.ofNat s.dmaPos) (y := s.rxFifo.putIndex.toUInt32)
    (by omega) (by rw [UInt16.toNat_toUInt32]; omega)
  rw [UInt16.toNat_toUInt32] at hlen
  have hevent := event_length (UInt32.ofNat s.dmaPos - s.rxFifo.putIndex.toUInt32)
    ⟨by omega, by omega⟩
  -- and what is added to `put_index` modulo 65536 is the way to the channel
  have hp : (s.rxFifo.putIndex.toUInt32 +
      (UInt32.ofNat s.dmaPos - s.rxFifo.putIndex.toUInt32)).toUInt16 = UInt16.ofNat s.dmaPos := by
    rw [UInt32.add_comm, UInt32.sub_add_cancel, UInt32.toUInt16_ofNat']
  have hlt : UInt16.ofNat s.dmaPos < s.bufsz := by
    rw [UInt16.lt_iff_toNat_lt, UInt16.toNat_ofNat', Nat.mod_eq_of_lt (by omega)]
    exact hpos
  have hupdate : updatePutIndex { s with lastIndex := UInt32.ofNat s.dmaPos }
      (UInt32.ofNat s.dmaPos - s.rxFifo.putIndex.toUInt32) = s.moved :=
    updatePutIndex_eq (s := { s with lastIndex := UInt32.ofNat s.dmaPos }) hfull hget hp hlt
  -- put together: decode the length, update, report
  simp only [hwSerialIsr, hevent, hupdate]

/-- The interrupt moves `last_index` and `put_index` to the position of the channel, and reports the
bytes waiting if the position has changed. -/
theorem uartIsr_eq (hpos : s.dmaPos < s.bufsz.toNat)
    (hlast : s.lastIndex.toNat = s.rxFifo.putIndex.toNat) (hfull : s.rxFifo.isFull = false)
    (hget : s.rxFifo.getIndex ≤ s.rxFifo.putIndex) :
    s.uartIsr =
      (s.moved,
        if s.dmaPos = s.rxFifo.putIndex.toNat then none
        else some s.moved.calcRecvedLen.toInt32) := by
  have hidx := toNat_ofNat_dmaPos hpos
  have hlast' : s.lastIndex = s.rxFifo.putIndex.toUInt32 :=
    UInt32.toNat_inj.mp (by rw [hlast, UInt16.toNat_toUInt32])
  unfold uartIsr
  simp only [recvTotalIndex_eq hpos, hlast']
  -- `if (recv_len)`: the channel is where it was, or has moved
  by_cases heq : s.dmaPos = s.rxFifo.putIndex.toNat
  · have hsame : UInt32.ofNat s.dmaPos - s.rxFifo.putIndex.toUInt32 = 0 := by
      rw [UInt32.sub_eq_iff_eq_add, UInt32.zero_add, ← UInt32.toNat_inj, hidx]
      exact heq
    have hput : UInt16.ofNat s.dmaPos = s.rxFifo.putIndex := by rw [heq, UInt16.ofNat_toNat]
    rw [if_neg (not_not.mpr hsame), if_pos heq, moved, hput]
  · have hne : UInt32.ofNat s.dmaPos - s.rxFifo.putIndex.toUInt32 ≠ 0 := by
      intro h
      rw [UInt32.sub_eq_iff_eq_add, UInt32.zero_add, ← UInt32.toNat_inj, hidx] at h
      exact heq h
    rw [if_pos hne, if_neg heq, hwSerialIsr_eq hpos hfull hget]

/-! ## The read -/

/-- Asked for the bytes waiting, `_serial_dma_rx` takes exactly these. -/
theorem serialDmaRx_eq (s : SerialDevice) :
    s.serialDmaRx s.calcRecvedLen.toInt32 =
      (if s.rxFifo.getIndex.toUInt32 + s.calcRecvedLen < s.bufsz.toUInt32 then
          slice s.rxFifo.buffer s.rxFifo.getIndex.toNat s.calcRecvedLen.toNat
        else
          slice s.rxFifo.buffer s.rxFifo.getIndex.toNat
              (s.bufsz.toUInt32 - s.rxFifo.getIndex.toUInt32).toNat ++
            slice s.rxFifo.buffer 0
              (s.calcRecvedLen + s.rxFifo.getIndex.toUInt32 - s.bufsz.toUInt32).toNat,
        s.updateGetIndex s.calcRecvedLen) := by
  have hirr : ¬ s.calcRecvedLen.toInt32 < s.calcRecvedLen.toInt32 := fun h => Int32.lt_irrefl h
  simp only [serialDmaRx, if_neg hirr]

/-- The bytes are those from `get_index` on, in one piece or in two. -/
theorem serialDmaRx_data (hget : s.rxFifo.getIndex.toNat < s.bufsz.toNat)
    (hlen : s.calcRecvedLen.toNat ≤ s.bufsz.toNat) :
    (s.serialDmaRx s.calcRecvedLen.toInt32).1 =
      ringRead s.bufsz.toNat s.rxFifo.buffer s.rxFifo.getIndex.toNat s.calcRecvedLen.toNat := by
  have hB := s.bufsz.toNat_lt
  have hsum : (s.rxFifo.getIndex.toUInt32 + s.calcRecvedLen).toNat =
      s.rxFifo.getIndex.toNat + s.calcRecvedLen.toNat := by
    rw [UInt32.toNat_add, UInt16.toNat_toUInt32]
    omega
  rw [serialDmaRx_eq]
  dsimp only
  -- up to the end of the buffer, or from there on at its start
  split_ifs with hpiece
  · rw [UInt32.lt_iff_toNat_lt, hsum, UInt16.toNat_toUInt32] at hpiece
    exact slice_eq_ringRead hpiece.le _
  · rw [UInt32.lt_iff_toNat_lt, hsum, UInt16.toNat_toUInt32] at hpiece
    have hfirst : (s.bufsz.toUInt32 - s.rxFifo.getIndex.toUInt32).toNat =
        s.bufsz.toNat - s.rxFifo.getIndex.toNat :=
      UInt32.toNat_sub_of_le s.bufsz.toUInt32 s.rxFifo.getIndex.toUInt32
        (UInt32.le_iff_toNat_le.mpr hget.le)
    have hsecond : (s.calcRecvedLen + s.rxFifo.getIndex.toUInt32 - s.bufsz.toUInt32).toNat =
        s.rxFifo.getIndex.toNat + s.calcRecvedLen.toNat - s.bufsz.toNat := by
      rw [UInt32.add_comm, UInt32.toNat_sub_of_le _ _ (UInt32.le_iff_toNat_le.mpr ?_), hsum,
        UInt16.toNat_toUInt32]
      rw [hsum, UInt16.toNat_toUInt32]
      omega
    -- the two slices make up the one read over the end
    rw [hfirst, hsecond]
    exact slice_append_slice hget (by omega) hlen _

/-- `get_index` advances in 16 bits, and is then reduced. -/
theorem updateGetIndex_eq (len : UInt32) (hfull : s.rxFifo.isFull = false) :
    s.updateGetIndex len =
      { s with
        rxFifo.getIndex :=
          UInt16.ofNat ((s.rxFifo.getIndex.toNat + len.toNat) % 65536 % s.bufsz.toNat) } := by
  have hget := s.rxFifo.getIndex.toNat_lt
  have hsum : ((s.rxFifo.getIndex.toUInt32 + len).toUInt16).toNat =
      (s.rxFifo.getIndex.toNat + len.toNat) % 65536 := by
    rw [UInt32.toNat_toUInt16, UInt32.toNat_add, UInt16.toNat_toUInt32]
    omega
  have hle := Nat.mod_le ((s.rxFifo.getIndex.toNat + len.toNat) % 65536) s.bufsz.toNat
  -- the sum fits 32 bits and is then cut to 16
  have hmod : UInt16.ofNat ((s.rxFifo.getIndex.toNat + len.toNat) % 65536 % s.bufsz.toNat) =
      (s.rxFifo.getIndex.toUInt32 + len).toUInt16 % s.bufsz := by
    apply UInt16.toNat_inj.mp
    rw [UInt16.toNat_mod, hsum, UInt16.toNat_ofNat', Nat.mod_eq_of_lt (by omega)]
  rw [hmod]
  unfold updateGetIndex
  -- the reduction is skipped for a position that needs none
  simp only [hfull, Bool.false_eq_true, false_and, if_false]
  split_ifs with hge
  · rfl
  · have hlt : (s.rxFifo.getIndex.toUInt32 + len).toUInt16.toNat < s.bufsz.toNat :=
      UInt16.lt_iff_toNat_lt.mp (UInt16.not_le.mp hge)
    have hself : (s.rxFifo.getIndex.toUInt32 + len).toUInt16 % s.bufsz =
        (s.rxFifo.getIndex.toUInt32 + len).toUInt16 := by
      apply UInt16.toNat_inj.mp
      rw [UInt16.toNat_mod, Nat.mod_eq_of_lt hlt]
    rw [hself]

/-! ## Bursts -/

/-- All three indices are the position of the DMA channel, and the FIFO is not full. -/
structure Synced (s : SerialDevice) : Prop where
  pos_lt : s.dmaPos < s.bufsz.toNat
  lastIndex : s.lastIndex.toNat = s.dmaPos
  putIndex : s.rxFifo.putIndex.toNat = s.dmaPos
  getIndex : s.rxFifo.getIndex.toNat = s.dmaPos
  isFull : s.rxFifo.isFull = false

/-- The same, except that `lag` bytes before the position wait to be read once more. -/
structure Lagging (lag : ℕ) (s : SerialDevice) : Prop where
  pos_lt : s.dmaPos < s.bufsz.toNat
  lastIndex : s.lastIndex.toNat = s.dmaPos
  putIndex : s.rxFifo.putIndex.toNat = s.dmaPos
  getIndex : s.rxFifo.getIndex.toNat + lag = s.dmaPos
  isFull : s.rxFifo.isFull = false

theorem synced_opened {bufsz : UInt16} (h : 0 < bufsz.toNat) (buffer : ℕ → UInt8) :
    (opened bufsz buffer).Synced := ⟨h, rfl, rfl, rfl, rfl⟩

namespace Synced

/-- The number of bytes the interrupt reports. -/
theorem toNat_calcRecvedLen_moved (h : s.Synced) (bytes : List UInt8) :
    (s.dmaReceive bytes).moved.calcRecvedLen.toNat = bytes.length % s.bufsz.toNat := by
  have hput : (s.dmaReceive bytes).moved.rxFifo.putIndex.toNat =
      (s.dmaPos + bytes.length) % s.bufsz.toNat :=
    toNat_putIndex_moved (s := s.dmaReceive bytes) (Nat.mod_lt _ (Nat.zero_lt_of_lt h.pos_lt))
  have hget : (s.dmaReceive bytes).moved.rxFifo.getIndex.toNat = s.dmaPos := h.getIndex
  -- `get_index` is where the burst began, `put_index` where it ended
  rw [toNat_calcRecvedLen (s := (s.dmaReceive bytes).moved) h.isFull (hget.trans_lt h.pos_lt), hput,
    hget]
  exact ringDistance_add_mod h.pos_lt _

/-- The interrupt after a burst: no report for whole turns. -/
theorem uartIsr_dmaReceive (h : s.Synced) (bytes : List UInt8) :
    (s.dmaReceive bytes).uartIsr =
      ((s.dmaReceive bytes).moved,
        if s.bufsz.toNat ∣ bytes.length then none
        else some (s.dmaReceive bytes).moved.calcRecvedLen.toInt32) := by
  have hpos : (s.dmaReceive bytes).dmaPos < (s.dmaReceive bytes).bufsz.toNat :=
    Nat.mod_lt _ (Nat.zero_lt_of_lt h.pos_lt)
  have hget : (s.dmaReceive bytes).rxFifo.getIndex ≤ (s.dmaReceive bytes).rxFifo.putIndex :=
    UInt16.le_iff_toNat_le.mpr (h.getIndex.trans h.putIndex.symm).le
  rw [uartIsr_eq hpos (h.lastIndex.trans h.putIndex.symm) h.isFull hget]
  -- the position is the same again exactly after whole turns
  have hiff : (s.dmaReceive bytes).dmaPos = (s.dmaReceive bytes).rxFifo.putIndex.toNat ↔
      s.bufsz.toNat ∣ bytes.length := by
    change (s.dmaPos + bytes.length) % s.bufsz.toNat = s.rxFifo.putIndex.toNat ↔ _
    rw [h.putIndex, add_mod_eq_self_iff h.pos_lt, Nat.dvd_iff_mod_eq_zero]
  simp only [hiff]

/-- The read after a burst that is not a number of whole turns: the bytes past the last whole turn,
and `get_index` advanced by their number in 16 bits. -/
theorem read_dmaReceive (h : s.Synced) {bytes : List UInt8} (hn : ¬ s.bufsz.toNat ∣ bytes.length) :
    (s.dmaReceive bytes).moved.read (s.dmaReceive bytes).moved.calcRecvedLen.toInt32.toUInt32 =
      (bytes.drop (bytes.length - bytes.length % s.bufsz.toNat),
        { (s.dmaReceive bytes).moved with
          rxFifo.getIndex :=
            UInt16.ofNat
              ((s.dmaPos + bytes.length % s.bufsz.toNat) % 65536 % s.bufsz.toNat) }) := by
  have hlen := h.toNat_calcRecvedLen_moved bytes
  have hB := Nat.mod_lt bytes.length (Nat.zero_lt_of_lt h.pos_lt)
  have hle := Nat.mod_le bytes.length s.bufsz.toNat
  have hget : (s.dmaReceive bytes).moved.rxFifo.getIndex.toNat = s.dmaPos := h.getIndex
  have hne : ¬ (s.dmaReceive bytes).moved.calcRecvedLen.toInt32.toUInt32 = 0 := by
    rw [UInt32.toUInt32_toInt32, ← UInt32.toNat_inj, hlen]
    exact fun h0 => hn (Nat.dvd_of_mod_eq_zero h0)
  rw [read, if_neg hne, UInt32.toUInt32_toInt32]
  -- first the bytes, then the index
  apply Prod.ext
  · rw [serialDmaRx_data (hget.trans_lt h.pos_lt) (hlen.trans_le hB.le), hlen, hget]
    -- the start is that many bytes before the end of the burst, up to whole turns
    have hstart : ringRead s.bufsz.toNat (s.dmaReceive bytes).moved.rxFifo.buffer s.dmaPos
          (bytes.length % s.bufsz.toNat) =
        ringRead s.bufsz.toNat (ringWrite s.bufsz.toNat s.rxFifo.buffer s.dmaPos bytes)
          (s.dmaPos + (bytes.length - bytes.length % s.bufsz.toNat))
          (bytes.length % s.bufsz.toNat) := by
      obtain ⟨turns, hturns⟩ := Nat.dvd_sub_mod (n := s.bufsz.toNat) bytes.length
      rw [hturns, ← ringRead_mod _ _ (s.dmaPos + _), Nat.add_mul_mod_self_left, ringRead_mod]
      rfl
    exact hstart.trans (ringRead_ringWrite _ _ hle hB.le)
  · rw [serialDmaRx_eq]
    have hupdate := updateGetIndex_eq (s := (s.dmaReceive bytes).moved)
      (s.dmaReceive bytes).moved.calcRecvedLen h.isFull
    rw [hlen, hget] at hupdate
    exact hupdate

end Synced

end SerialDevice

end RobomasterFirmware.Drivers
