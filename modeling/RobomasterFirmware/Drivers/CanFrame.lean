import RobomasterFirmware.Applications.MyType
import RobomasterFirmware.Lib.BitField
import Mathlib.Tactic.IntervalCases

/-!
# CAN Frames in Registers

`libraries/HAL_Drivers/drv_can.c`: how `_can_sendmsg` writes a message into the registers of a
transmit mailbox, and how `_can_recvmsg` and `HAL_CAN_GetRxMessage` read one from the registers of a
receive FIFO. A frame on the bus carries its identifier, its two flags, its length and as many data
bytes as it has; whatever else the receive registers hold is left open.

## Main Results
- `canRecvmsg_canSendmsg`: a message that passes the checks of `_can_sendmsg` is received as it was
  sent, whatever the registers held before
- `canSendmsg_canRecvmsg`: the message received from a frame of at most eight bytes passes those
  checks and is sent on as the same frame
-/

namespace RobomasterFirmware.Drivers

open RobomasterFirmware.Applications
open RobomasterFirmware.Lib

/-- `CAN_TxMailBox_TypeDef`. -/
structure CanTxRegs where
  tir : BitVec 32
  tdtr : BitVec 32
  tdlr : BitVec 32
  tdhr : BitVec 32

/-- `CAN_FIFOMailBox_TypeDef`. -/
structure CanRxRegs where
  rir : BitVec 32
  rdtr : BitVec 32
  rdlr : BitVec 32
  rdhr : BitVec 32

/-! ## Sending -/

/-- Four data bytes in a register, as `_can_sendmsg` puts them together. -/
def dataReg (b3 b2 b1 b0 : UInt8) : BitVec 32 :=
  b3.toBitVec.setWidth 32 <<< 24 ||| b2.toBitVec.setWidth 32 <<< 16 |||
    b1.toBitVec.setWidth 32 <<< 8 ||| b0.toBitVec.setWidth 32

/-- The checks of `_can_sendmsg`: `IS_CAN_DLC` and `IS_CAN_STDID`; `IS_CAN_EXTID` holds of every
29-bit field. -/
def CanMsgValid (pmsg : RtCanMsg) : Prop := pmsg.len ≤ 8 ∧ (pmsg.ide = 0 → pmsg.id ≤ 0x7FF)

instance (pmsg : RtCanMsg) : Decidable (CanMsgValid pmsg) := inferInstanceAs (Decidable (_ ∧ _))

/-- `txheader.RTR`: `CAN_RTR_DATA` or `CAN_RTR_REMOTE`. -/
def txRtr (pmsg : RtCanMsg) : BitVec 32 := if pmsg.rtr = 0 then 0 else 2

/-- The register writes of `_can_sendmsg`, the last of which sets `CAN_TI0R_TXRQ`. -/
def canSendmsgRegs (regs : CanTxRegs) (pmsg : RtCanMsg) : CanTxRegs :=
  let tir := regs.tir &&& 1
  let tir :=
    if pmsg.ide = 0 then tir ||| (pmsg.id.setWidth 32 <<< 21 ||| txRtr pmsg)
    else tir ||| (pmsg.id.setWidth 32 <<< 3 ||| 4 ||| txRtr pmsg)
  { tir := tir ||| 1
    tdtr := pmsg.len.toBitVec.setWidth 32 &&& 0x0F
    tdhr := dataReg pmsg.data[7] pmsg.data[6] pmsg.data[5] pmsg.data[4]
    tdlr := dataReg pmsg.data[3] pmsg.data[2] pmsg.data[1] pmsg.data[0] }

/-! ## Receiving -/

/-- `(MASK & reg) >> pos` where `MASK` is a byte at bit `pos`, cut to `uint8_t`. -/
def regByte (reg : BitVec 32) (pos : ℕ) : UInt8 := ⟨(((0xFF <<< pos) &&& reg) >>> pos).setWidth 8⟩

/-- The register reads of `HAL_CAN_GetRxMessage` with the translation of `_can_recvmsg` for `CAN1`.
-/
def canRecvmsgRegs (regs : CanRxRegs) : RtCanMsg :=
  let ide := 4 &&& regs.rir
  let rtr := (2 &&& regs.rir) >>> 1
  let filterMatchIndex := ((0xFF <<< 8) &&& regs.rdtr) >>> 8
  { id :=
      if ide = 0 then (((0x7FF <<< 21) &&& regs.rir) >>> 21).setWidth 29
      else (((0x3FFFF <<< 3 ||| 0x7FF <<< 21) &&& regs.rir) >>> 3).setWidth 29
    ide := if ide = 0 then 0 else 1
    rtr := if rtr = 0 then 0 else 1
    len := ⟨(0xF &&& regs.rdtr).setWidth 8⟩
    hdr := Int8.ofBitVec (((filterMatchIndex + 1) >>> 1).setWidth 8)
    data := #v[regByte regs.rdlr 0, regByte regs.rdlr 8, regByte regs.rdlr 16, regByte regs.rdlr 24,
      regByte regs.rdhr 0, regByte regs.rdhr 8, regByte regs.rdhr 16, regByte regs.rdhr 24] }

/-! ## The bus -/

/-- Data byte `i` of a register pair. -/
def byteOf (lo hi : BitVec 32) (i : ℕ) : BitVec 8 := ((hi ++ lo) >>> (8 * i)).setWidth 8

/-- What the bus carries of a frame: `IDE` and `RTR`, the eleven or twenty-nine identifier bits, the
length, and the data bytes of a data frame up to its length. -/
structure OnBus (tx : CanTxRegs) (rx : CanRxRegs) : Prop where
  ide : rx.rir.getLsbD 2 = tx.tir.getLsbD 2
  rtr : rx.rir.getLsbD 1 = tx.tir.getLsbD 1
  stdId : ∀ i, 21 ≤ i → rx.rir.getLsbD i = tx.tir.getLsbD i
  extId : tx.tir.getLsbD 2 = true → ∀ i, 3 ≤ i → rx.rir.getLsbD i = tx.tir.getLsbD i
  dlc : ∀ i, i < 4 → rx.rdtr.getLsbD i = tx.tdtr.getLsbD i
  data : tx.tir.getLsbD 1 = false → ∀ i, i < 8 → i < (tx.tdtr.setWidth 4).toNat →
    byteOf rx.rdlr rx.rdhr i = byteOf tx.tdlr tx.tdhr i

/-- Receive registers that are copies of the transmit registers. -/
theorem OnBus.copy (tx : CanTxRegs) : OnBus tx ⟨tx.tir, tx.tdtr, tx.tdlr, tx.tdhr⟩ :=
  ⟨rfl, rfl, fun _ _ => rfl, fun _ _ _ => rfl, fun _ _ => rfl, fun _ _ _ _ => rfl⟩

/-! ## Bits of the registers -/

theorem getLsbD_dataReg (b3 b2 b1 b0 : UInt8) {j : ℕ} (hj : j < 8) :
    (dataReg b3 b2 b1 b0).getLsbD j = b0.toBitVec.getLsbD j ∧
      (dataReg b3 b2 b1 b0).getLsbD (8 + j) = b1.toBitVec.getLsbD j ∧
      (dataReg b3 b2 b1 b0).getLsbD (16 + j) = b2.toBitVec.getLsbD j ∧
      (dataReg b3 b2 b1 b0).getLsbD (24 + j) = b3.toBitVec.getLsbD j := by
  -- a byte has no bits above its eighth
  have hhigh : ∀ (b : UInt8) k, 8 ≤ k → b.toBitVec.getLsbD k = false := fun b k hk =>
    BitVec.getLsbD_of_ge _ _ hk
  refine ⟨?_, ?_, ?_, ?_⟩ <;> simp [dataReg] <;> grind

/-- The bytes of the two data registers are the data bytes. -/
theorem byteOf_dataReg (data : Vector UInt8 8) {i : ℕ} (hi : i < 8) :
    byteOf (dataReg data[3] data[2] data[1] data[0]) (dataReg data[7] data[6] data[5] data[4]) i =
      data[i].toBitVec := by
  ext j hj
  have hlo := getLsbD_dataReg data[3] data[2] data[1] data[0] hj
  have hhi := getLsbD_dataReg data[7] data[6] data[5] data[4] hj
  interval_cases i <;> simp [byteOf] <;> grind

theorem getLsbD_regByte (reg : BitVec 32) (pos : ℕ) {j : ℕ} (hj : j < 8) :
    (regByte reg pos).toBitVec.getLsbD j = reg.getLsbD (pos + j) := by
  have hmask : (0xFF#32).getLsbD j = true :=
    (getLsbD_ones (k := 8) (w := 32) (by decide) j).trans (decide_eq_true hj)
  change (((0xFF#32 <<< pos &&& reg) >>> pos).setWidth 8).getLsbD j = _
  rw [BitVec.getLsbD_setWidth, getLsbD_field, hmask, decide_eq_true hj, Bool.true_and,
    Bool.true_and]

/-- The data bytes that are read are the bytes of the two data registers. -/
theorem data_canRecvmsgRegs (regs : CanRxRegs) {i : ℕ} (hi : i < 8) :
    (canRecvmsgRegs regs).data[i].toBitVec = byteOf regs.rdlr regs.rdhr i := by
  ext j hj
  have hlo := fun pos => getLsbD_regByte regs.rdlr pos hj
  have hhi := fun pos => getLsbD_regByte regs.rdhr pos hj
  interval_cases i <;> simp [canRecvmsgRegs, byteOf] <;> grind

/-! ## What is received -/

section Receive

variable (regs : CanRxRegs)

theorem ide_canRecvmsgRegs :
    (canRecvmsgRegs regs).ide = if regs.rir.getLsbD 2 then 1 else 0 := by
  have hmask : 4 &&& regs.rir = if regs.rir.getLsbD 2 then 4 else 0 :=
    BitVec.twoPow_and regs.rir 2
  simp only [canRecvmsgRegs, hmask]
  split <;> rfl

theorem rtr_canRecvmsgRegs :
    (canRecvmsgRegs regs).rtr = if regs.rir.getLsbD 1 then 1 else 0 := by
  have hmask : 2 &&& regs.rir = if regs.rir.getLsbD 1 then 2 else 0 :=
    BitVec.twoPow_and regs.rir 1
  simp only [canRecvmsgRegs, hmask]
  split <;> rfl

/-- The identifier of a standard frame: the upper eleven bits. -/
theorem getLsbD_id_of_std (hide : regs.rir.getLsbD 2 = false) {i : ℕ} (hi : i < 29) :
    (canRecvmsgRegs regs).id.getLsbD i = regs.rir.getLsbD (21 + i) := by
  have hmask : 4 &&& regs.rir = 0 := (BitVec.twoPow_and regs.rir 2).trans (by rw [hide]; rfl)
  have hid : (canRecvmsgRegs regs).id = (((0x7FF#32 <<< 21) &&& regs.rir) >>> 21).setWidth 29 :=
    if_pos hmask
  rw [hid, BitVec.getLsbD_setWidth, getLsbD_field, decide_eq_true hi, Bool.true_and,
    show (0x7FF#32).getLsbD i = decide (i < 11) from
      getLsbD_ones (k := 11) (w := 32) (by decide) i]
  -- above the eleventh bit the register has come to its end
  by_cases hlow : i < 11
  · rw [decide_eq_true hlow, Bool.true_and]
  · rw [BitVec.getLsbD_of_ge regs.rir _ (by omega), Bool.and_false]

/-- The identifier of an extended frame: the upper twenty-nine bits. -/
theorem getLsbD_id_of_ext (hide : regs.rir.getLsbD 2 = true) {i : ℕ} (hi : i < 29) :
    (canRecvmsgRegs regs).id.getLsbD i = regs.rir.getLsbD (3 + i) := by
  have hmask : 4 &&& regs.rir ≠ 0 := by
    rw [show 4 &&& regs.rir = _ from BitVec.twoPow_and regs.rir 2, if_pos hide]
    decide
  have hid : (canRecvmsgRegs regs).id = (((0x1FFFFFFF#32 <<< 3) &&& regs.rir) >>> 3).setWidth 29 :=
    if_neg hmask
  rw [hid, BitVec.getLsbD_setWidth, getLsbD_field, decide_eq_true hi, Bool.true_and,
    show (0x1FFFFFFF#32).getLsbD i = decide (i < 29) from
      getLsbD_ones (k := 29) (w := 32) (by decide) i,
    decide_eq_true hi, Bool.true_and]

theorem getLsbD_len_canRecvmsgRegs {i : ℕ} (hi : i < 8) :
    (canRecvmsgRegs regs).len.toBitVec.getLsbD i = (decide (i < 4) && regs.rdtr.getLsbD i) := by
  change ((0xF#32 &&& regs.rdtr).setWidth 8).getLsbD i = _
  rw [BitVec.getLsbD_setWidth, BitVec.getLsbD_and, decide_eq_true hi, Bool.true_and,
    show (0xF#32).getLsbD i = decide (i < 4) from
      getLsbD_ones (k := 4) (w := 32) (by decide) i]

end Receive

/-! ## What is sent -/

section Send

variable (regs : CanTxRegs) (pmsg : RtCanMsg)

/-- A constant below eight only touches the three flags. -/
theorem getLsbD_of_lt_eight {c : BitVec 32} (hc : c.toNat < 8) {i : ℕ} (hi : 3 ≤ i) :
    c.getLsbD i = false :=
  Nat.testBit_lt_two_pow (lt_of_lt_of_le hc (Nat.pow_le_pow_right (n := 2) (by decide) hi))

/-- Above the flags stands the identifier. -/
theorem getLsbD_tir_of_ge {i : ℕ} (hi : 3 ≤ i) :
    (canSendmsgRegs regs pmsg).tir.getLsbD i =
      (pmsg.id.setWidth 32 <<< if pmsg.ide = 0 then 21 else 3).getLsbD i := by
  have hone : (1#32).getLsbD i = false := getLsbD_of_lt_eight (by decide) hi
  have hfour : (4#32).getLsbD i = false := getLsbD_of_lt_eight (by decide) hi
  have hrtr : (txRtr pmsg).getLsbD i = false := by
    refine getLsbD_of_lt_eight ?_ hi
    unfold txRtr
    split <;> decide
  -- what is or-ed in besides touches the flags only
  unfold canSendmsgRegs
  dsimp only
  split <;>
    simp only [BitVec.getLsbD_or, BitVec.getLsbD_and, BitVec.ofNat_eq_ofNat, hone, hfour, hrtr,
      Bool.and_false, Bool.or_false, Bool.false_or]

theorem ide_canSendmsgRegs :
    (canSendmsgRegs regs pmsg).tir.getLsbD 2 = decide (pmsg.ide ≠ 0) := by
  have hrtr : (txRtr pmsg).getLsbD 2 = false := by
    unfold txRtr
    split <;> rfl
  unfold canSendmsgRegs
  dsimp only
  split
  · next hide => simp [BitVec.getLsbD_or, hide, hrtr, -BitVec.getLsbD_eq_getElem]
  · next hide => simpa using hide

theorem rtr_canSendmsgRegs :
    (canSendmsgRegs regs pmsg).tir.getLsbD 1 = decide (pmsg.rtr ≠ 0) := by
  have hrtr : (txRtr pmsg).getLsbD 1 = decide (pmsg.rtr ≠ 0) := by
    unfold txRtr
    split
    · next hrtr => rw [hrtr]; rfl
    · next hrtr => exact (decide_eq_true hrtr).symm
  unfold canSendmsgRegs
  dsimp only
  split <;> simp [BitVec.getLsbD_or, hrtr, -BitVec.getLsbD_eq_getElem]

/-- The identifier of a standard frame stands in the upper eleven bits. -/
theorem stdId_canSendmsgRegs (hide : pmsg.ide = 0) (i : ℕ) :
    (canSendmsgRegs regs pmsg).tir.getLsbD (21 + i) = (decide (i < 11) && pmsg.id.getLsbD i) := by
  rw [getLsbD_tir_of_ge _ _ (by omega), if_pos hide, BitVec.getLsbD_shiftLeft,
    BitVec.getLsbD_setWidth, Nat.add_sub_cancel_left]
  -- further identifier bits are shifted out of the register
  by_cases hi : i < 11
  · simp [hi, show i < 32 by omega, show 21 + i < 32 by omega]
  · simp [hi, show ¬ 21 + i < 32 by omega]

/-- The identifier of an extended frame stands in the upper twenty-nine bits. -/
theorem extId_canSendmsgRegs (hide : pmsg.ide ≠ 0) (i : ℕ) :
    (canSendmsgRegs regs pmsg).tir.getLsbD (3 + i) = pmsg.id.getLsbD i := by
  rw [getLsbD_tir_of_ge _ _ (by omega), if_neg hide, BitVec.getLsbD_shiftLeft,
    BitVec.getLsbD_setWidth, Nat.add_sub_cancel_left]
  by_cases hi : i < 29
  · simp [show i < 32 by omega, show 3 + i < 32 by omega]
  · rw [BitVec.getLsbD_of_ge pmsg.id i (by omega), Bool.and_false, Bool.and_false]

theorem dlc_canSendmsgRegs {i : ℕ} (hi : i < 4) :
    (canSendmsgRegs regs pmsg).tdtr.getLsbD i = pmsg.len.toBitVec.getLsbD i := by
  change (pmsg.len.toBitVec.setWidth 32 &&& 0xF#32).getLsbD i = _
  rw [BitVec.getLsbD_and, BitVec.getLsbD_setWidth,
    show (0xF#32).getLsbD i = decide (i < 4) from getLsbD_ones (k := 4) (w := 32) (by decide) i,
    decide_eq_true hi, decide_eq_true (show i < 32 by omega), Bool.true_and, Bool.and_true]

end Send

/-! ## Round trips -/

/-- A length up to eight has four bits. -/
theorem getLsbD_len_of_le {len : UInt8} (hlen : len ≤ 8) {i : ℕ} (hi : 4 ≤ i) :
    len.toBitVec.getLsbD i = false := by
  have hlt : len.toBitVec.toNat < 2 ^ i :=
    lt_of_lt_of_le (Nat.lt_succ_of_le (UInt8.le_iff_toNat_le.mp hlen))
      (le_trans (by decide) (Nat.pow_le_pow_right (n := 2) (by decide) hi))
  exact Nat.testBit_lt_two_pow hlt

/-- An identifier that fits eleven bits has no bits above them. -/
theorem getLsbD_id_of_le {id : BitVec 29} (hid : id ≤ 0x7FF) {i : ℕ} (hi : 11 ≤ i) :
    id.getLsbD i = false := by
  have hlt : id.toNat < 2 ^ i :=
    lt_of_lt_of_le (Nat.lt_succ_of_le (BitVec.le_def.mp hid))
      (le_trans (by decide) (Nat.pow_le_pow_right (n := 2) (by decide) hi))
  exact Nat.testBit_lt_two_pow hlt

/-- The length register holds the length. -/
theorem toNat_dlc_canSendmsgRegs (regs : CanTxRegs) (pmsg : RtCanMsg) :
    ((canSendmsgRegs regs pmsg).tdtr.setWidth 4).toNat = pmsg.len.toNat % 16 := by
  change ((pmsg.len.toBitVec.setWidth 32 &&& 0xF#32).setWidth 4).toNat = _
  have hlen : pmsg.len.toBitVec.toNat < 256 := pmsg.len.toNat_lt
  rw [BitVec.toNat_setWidth, BitVec.toNat_and, BitVec.toNat_setWidth,
    show (0xF#32).toNat = 2 ^ 4 - 1 from rfl, Nat.and_two_pow_sub_one_eq_mod]
  change pmsg.len.toBitVec.toNat % 2 ^ 32 % 2 ^ 4 % 2 ^ 4 = pmsg.len.toBitVec.toNat % 16
  omega

/-- A one-bit field is zero or one. -/
theorem bit_eq (b : BitVec 1) : (if decide (b ≠ 0) = true then (1 : BitVec 1) else 0) = b := by
  revert b
  decide

/-- **Round trip.** A message that passes the checks of `_can_sendmsg` is received with the same
identifier, flags and length, and a data message with the same data bytes up to its length, whatever
the transmit registers held before and whatever else the receive registers hold. -/
theorem canRecvmsg_canSendmsg {pmsg : RtCanMsg} (hvalid : CanMsgValid pmsg) {regs : CanTxRegs}
    {rx : CanRxRegs} (hbus : OnBus (canSendmsgRegs regs pmsg) rx) :
    (canRecvmsgRegs rx).id = pmsg.id ∧ (canRecvmsgRegs rx).ide = pmsg.ide ∧
      (canRecvmsgRegs rx).rtr = pmsg.rtr ∧ (canRecvmsgRegs rx).len = pmsg.len ∧
      (pmsg.rtr = 0 → ∀ i (hi : i < 8), i < pmsg.len.toNat →
        (canRecvmsgRegs rx).data[i] = pmsg.data[i]) := by
  obtain ⟨hlen, hid⟩ := hvalid
  have hidebit : rx.rir.getLsbD 2 = decide (pmsg.ide ≠ 0) :=
    hbus.ide.trans (ide_canSendmsgRegs regs pmsg)
  refine ⟨?_, ?_, ?_, ?_, ?_⟩
  -- the identifier, bit by bit: eleven bits of a standard frame, all of an extended one
  · apply BitVec.eq_of_getLsbD_eq
    intro i hi
    by_cases hide : pmsg.ide = 0
    · have hstd : rx.rir.getLsbD 2 = false := by rw [hidebit, hide]; rfl
      rw [getLsbD_id_of_std rx hstd hi, hbus.stdId _ (by omega),
        stdId_canSendmsgRegs regs pmsg hide]
      by_cases hlow : i < 11
      · rw [decide_eq_true hlow, Bool.true_and]
      · rw [getLsbD_id_of_le (hid hide) (by omega), Bool.and_false]
    · have hext : rx.rir.getLsbD 2 = true := hidebit.trans (decide_eq_true hide)
      rw [getLsbD_id_of_ext rx hext hi, hbus.extId (hbus.ide.symm.trans hext) _ (by omega),
        extId_canSendmsgRegs regs pmsg hide]
  -- the two flags
  · rw [ide_canRecvmsgRegs, hidebit, bit_eq]
  · rw [rtr_canRecvmsgRegs, hbus.rtr, rtr_canSendmsgRegs, bit_eq]
  -- the length has no more than the four bits on the bus
  · apply UInt8.toBitVec_inj.mp
    apply BitVec.eq_of_getLsbD_eq
    intro i hi
    rw [getLsbD_len_canRecvmsgRegs rx hi]
    by_cases hlow : i < 4
    · rw [decide_eq_true hlow, Bool.true_and, hbus.dlc i hlow, dlc_canSendmsgRegs regs pmsg hlow]
    · rw [getLsbD_len_of_le hlen (by omega), decide_eq_false hlow, Bool.false_and]
  -- the data bytes up to the length
  · intro hrtr i hi hilen
    have hdata : (canSendmsgRegs regs pmsg).tir.getLsbD 1 = false := by
      rw [rtr_canSendmsgRegs, hrtr]
      rfl
    have hdlc : i < ((canSendmsgRegs regs pmsg).tdtr.setWidth 4).toNat := by
      have hle : pmsg.len.toNat ≤ 8 := UInt8.le_iff_toNat_le.mp hlen
      rw [toNat_dlc_canSendmsgRegs]
      omega
    apply UInt8.toBitVec_inj.mp
    rw [data_canRecvmsgRegs rx hi, hbus.data hdata i hi hdlc]
    exact byteOf_dataReg pmsg.data hi

/-- A motor command, written over registers full of ones, received from equal registers. -/
theorem canRecvmsg_canSendmsg_motor :
    let pmsg : RtCanMsg := { RtCanMsg.zero with id := 0x200, len := 8 }
    let regs := canSendmsgRegs ⟨0xFFFFFFFE, 0xFFFFFFFF, 0xFFFFFFFF, 0xFFFFFFFF⟩ pmsg
    (canRecvmsgRegs ⟨regs.tir, regs.tdtr, regs.tdlr, regs.tdhr⟩).id = pmsg.id :=
  (canRecvmsg_canSendmsg (by decide) (.copy _)).1

/-- The length that is received is the length on the bus. -/
theorem toNat_len_canRecvmsgRegs (regs : CanRxRegs) :
    (canRecvmsgRegs regs).len.toNat = (regs.rdtr.setWidth 4).toNat := by
  change ((0xF#32 &&& regs.rdtr).setWidth 8).toNat = _
  rw [BitVec.toNat_setWidth, BitVec.toNat_and, BitVec.toNat_setWidth,
    show (0xF#32).toNat = 2 ^ 4 - 1 from rfl, Nat.and_comm, Nat.and_two_pow_sub_one_eq_mod]
  omega

/-- **Round trip** the other way. What is received of a frame of up to eight bytes passes the checks
of `_can_sendmsg`, and sending it on puts the same frame on the bus. -/
theorem canSendmsg_canRecvmsg {tx : CanTxRegs} {rx : CanRxRegs} (hbus : OnBus tx rx)
    (hdlc : (tx.tdtr.setWidth 4).toNat ≤ 8) :
    CanMsgValid (canRecvmsgRegs rx) ∧
      ∀ regs rx', OnBus (canSendmsgRegs regs (canRecvmsgRegs rx)) rx' → OnBus tx rx' := by
  have hdlceq : rx.rdtr.setWidth 4 = tx.tdtr.setWidth 4 := by
    apply BitVec.eq_of_getLsbD_eq
    intro i hi
    rw [BitVec.getLsbD_setWidth, BitVec.getLsbD_setWidth, hbus.dlc i hi]
  have hlen : (canRecvmsgRegs rx).len.toNat ≤ 8 := by
    rw [toNat_len_canRecvmsgRegs, hdlceq]
    exact hdlc
  -- the two flags of the message are those of the frame
  have hide : decide ((canRecvmsgRegs rx).ide ≠ 0) = tx.tir.getLsbD 2 := by
    rw [ide_canRecvmsgRegs, hbus.ide]
    cases tx.tir.getLsbD 2 <;> rfl
  have hrtr : decide ((canRecvmsgRegs rx).rtr ≠ 0) = tx.tir.getLsbD 1 := by
    rw [rtr_canRecvmsgRegs, hbus.rtr]
    cases tx.tir.getLsbD 1 <;> rfl
  have hstdbit : (canRecvmsgRegs rx).ide = 0 → rx.rir.getLsbD 2 = false := fun hzero => by
    rw [hbus.ide, ← hide, hzero]
    rfl
  refine ⟨⟨UInt8.le_iff_toNat_le.mpr hlen, fun hzero => ?_⟩, fun regs rx' hbus' => ?_⟩
  · -- a standard identifier has no bits above the eleventh
    have hlt : (canRecvmsgRegs rx).id.toNat < 2 ^ 11 := by
      refine Nat.lt_pow_two_of_testBit _ fun i hi => ?_
      change (canRecvmsgRegs rx).id.getLsbD i = false
      by_cases hbit : i < 29
      · rw [getLsbD_id_of_std rx (hstdbit hzero) hbit, BitVec.getLsbD_of_ge _ _ (by omega)]
      · exact BitVec.getLsbD_of_ge _ _ (not_lt.mp hbit)
    exact BitVec.le_def.mpr (Nat.le_of_lt_succ hlt)
  · have hide' : rx'.rir.getLsbD 2 = tx.tir.getLsbD 2 := by
      rw [hbus'.ide, ide_canSendmsgRegs, hide]
    have hrtr' : rx'.rir.getLsbD 1 = tx.tir.getLsbD 1 := by
      rw [hbus'.rtr, rtr_canSendmsgRegs, hrtr]
    -- an extended frame keeps all twenty-nine bits of its identifier
    have hext : tx.tir.getLsbD 2 = true → ∀ i, 3 ≤ i → rx'.rir.getLsbD i = tx.tir.getLsbD i := by
      intro htrue i hi
      have hne : (canRecvmsgRegs rx).ide ≠ 0 := of_decide_eq_true (hide.trans htrue)
      obtain ⟨j, rfl⟩ := Nat.exists_eq_add_of_le hi
      rw [hbus'.extId (by rw [ide_canSendmsgRegs, hide, htrue]) _ hi,
        extId_canSendmsgRegs _ _ hne]
      by_cases hj : j < 29
      · rw [getLsbD_id_of_ext rx (hbus.ide.trans htrue) hj, hbus.extId htrue _ hi]
      · rw [BitVec.getLsbD_of_ge _ _ (not_lt.mp hj), BitVec.getLsbD_of_ge _ _ (by omega)]
    refine ⟨hide', hrtr', fun i hi => ?_, hext, fun i hi => ?_, fun hfalse i hi hilen => ?_⟩
    -- the identifier of a standard frame stands in the upper eleven bits both times
    · by_cases hzero : (canRecvmsgRegs rx).ide = 0
      · obtain ⟨j, rfl⟩ := Nat.exists_eq_add_of_le hi
        rw [hbus'.stdId _ hi, stdId_canSendmsgRegs _ _ hzero]
        by_cases hj : j < 11
        · rw [decide_eq_true hj, Bool.true_and,
            getLsbD_id_of_std rx (hstdbit hzero) (by omega), hbus.stdId _ hi]
        · rw [decide_eq_false hj, Bool.false_and, BitVec.getLsbD_of_ge _ _ (by omega)]
      · exact hext (hide.symm.trans (decide_eq_true hzero)) i (by omega)
    -- the length
    · rw [hbus'.dlc i hi, dlc_canSendmsgRegs _ _ hi, getLsbD_len_canRecvmsgRegs rx (by omega),
        decide_eq_true hi, Bool.true_and, hbus.dlc i hi]
    -- the data bytes that the first frame has are among those of the second
    · have hsent : i < ((canSendmsgRegs regs (canRecvmsgRegs rx)).tdtr.setWidth 4).toNat := by
        rw [toNat_dlc_canSendmsgRegs, Nat.mod_eq_of_lt (by omega), toNat_len_canRecvmsgRegs, hdlceq]
        exact hilen
      rw [hbus'.data (by rw [rtr_canSendmsgRegs, hrtr, hfalse]) i hi hsent]
      have hbytes := byteOf_dataReg (canRecvmsgRegs rx).data hi
      rw [data_canRecvmsgRegs rx hi, hbus.data hfalse i hi hilen] at hbytes
      exact hbytes

/-- An extended remote frame with full registers. -/
theorem canSendmsg_canRecvmsg_ext :
    CanMsgValid (canRecvmsgRegs ⟨0xFFFFFFFF, 8, 0xFFFFFFFF, 0xFFFFFFFF⟩) :=
  (canSendmsg_canRecvmsg (.copy ⟨0xFFFFFFFF, 8, 0xFFFFFFFF, 0xFFFFFFFF⟩) (by decide)).1

end RobomasterFirmware.Drivers
