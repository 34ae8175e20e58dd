import RobomasterFirmware.Algorithm.PackageProcess
import Mathlib.Data.Fintype.Basic
import Mathlib.Tactic.FinCases

/-!
# What `RC_Process` Computes

The decoder writes every field of the record, so its result is a function of the frame alone:
`decodeFrame` for an accepted frame, and for a rejected one the zero record with the fields that
the code decodes after the reject path (`rcProcess_eq`). From this follow the range of the stick
channels after every call, and the exact set of frames on which rejecting really discards.
-/

namespace RobomasterFirmware.Algorithm

open RobomasterFirmware.Applications
open RobomasterFirmware.Lib

/-! ## The decoded frame -/

/-- The fields of a frame, as `RC_Process` extracts them, before any check. -/
def decodeFrame (b : DbusFrame) : RcInfo where
  ch1 := Int16.ofNat ((b.byte 0 ||| b.byte 1 <<< 8) &&& 0x07FF) - 1024
  ch2 := Int16.ofNat ((b.byte 1 >>> 3 ||| b.byte 2 <<< 5) &&& 0x07FF) - 1024
  ch3 := Int16.ofNat
    ((b.byte 2 >>> 6 ||| b.byte 3 <<< 2 ||| b.byte 4 <<< 10) &&& 0x07FF) - 1024
  ch4 := Int16.ofNat ((b.byte 4 >>> 1 ||| b.byte 5 <<< 7) &&& 0x07FF) - 1024
  sw1 := UInt8.ofNat (((b.byte 5 >>> 4) &&& 0x000C) >>> 2)
  sw2 := UInt8.ofNat ((b.byte 5 >>> 4) &&& 0x0003)
  sw := Int16.ofNat ((b.byte 16 ||| b.byte 17 <<< 8) &&& 0x07FF) - 1024
  mouse :=
    { x := Int16.ofNat (b.byte 6 ||| b.byte 7 <<< 8)
      y := Int16.ofNat (b.byte 8 ||| b.byte 9 <<< 8)
      z := Int16.ofNat (b.byte 10 ||| b.byte 11 <<< 8)
      pressL := b.get 12
      pressR := b.get 13 }
  key := UInt16.ofNat (b.byte 14 ||| b.byte 15 <<< 8)

/-- What a rejected frame leaves: the cleared record, then the fields decoded after the check. -/
def rejectFrame (b : DbusFrame) : RcInfo :=
  { RcInfo.zero with
    mouse := (decodeFrame b).mouse
    key := (decodeFrame b).key
    sw := (decodeFrame b).sw }

/-- The four stick channels lie in `[-660, 660]`. -/
def ChannelsInRange (rc : RcInfo) : Prop :=
  (-660 ≤ rc.ch1.toInt ∧ rc.ch1.toInt ≤ 660) ∧ (-660 ≤ rc.ch2.toInt ∧ rc.ch2.toInt ≤ 660) ∧
    (-660 ≤ rc.ch3.toInt ∧ rc.ch3.toInt ≤ 660) ∧ (-660 ≤ rc.ch4.toInt ∧ rc.ch4.toInt ≤ 660)

instance (rc : RcInfo) : Decidable (ChannelsInRange rc) :=
  inferInstanceAs (Decidable (_ ∧ _))

theorem channelOutOfRange_eq_false_iff (rc : RcInfo) :
    channelOutOfRange rc = false ↔ ChannelsInRange rc := by
  simp only [channelOutOfRange, ChannelsInRange, Bool.or_eq_false_iff, decide_eq_false_iff_not]
  omega

theorem channelOutOfRange_eq_true_iff (rc : RcInfo) :
    channelOutOfRange rc = true ↔ ¬ ChannelsInRange rc := by
  rw [← channelOutOfRange_eq_false_iff, Bool.not_eq_false]

/-- `RC_Process` is a function of the frame: the previous record plays no part. -/
theorem rcProcess_eq (rc : RcInfo) (b : DbusFrame) :
    rcProcess rc b = if ChannelsInRange (decodeFrame b) then decodeFrame b else rejectFrame b := by
  -- at the check the channels and switches are those of the frame, the rest is the old record's
  have hcheck : channelOutOfRange (decodeFrame b) =
      channelOutOfRange { rc with
        ch1 := (decodeFrame b).ch1, ch2 := (decodeFrame b).ch2, ch3 := (decodeFrame b).ch3,
        ch4 := (decodeFrame b).ch4, sw1 := (decodeFrame b).sw1, sw2 := (decodeFrame b).sw2 } := rfl
  unfold rcProcess
  by_cases h : ChannelsInRange (decodeFrame b)
  -- in both cases the remaining assignments are those of the record on the right
  · have hc := (channelOutOfRange_eq_false_iff _).mpr h
    rw [hcheck] at hc
    simp only [decodeFrame] at hc
    simp only [if_pos h, hc]
    rfl
  · have hc := (channelOutOfRange_eq_true_iff _).mpr h
    rw [hcheck] at hc
    simp only [decodeFrame] at hc
    simp only [if_neg h, hc]
    rfl

theorem rcProcess_of_inRange (rc : RcInfo) {b : DbusFrame} (h : ChannelsInRange (decodeFrame b)) :
    rcProcess rc b = decodeFrame b := by
  rw [rcProcess_eq, if_pos h]

theorem rcProcess_of_not_inRange (rc : RcInfo) {b : DbusFrame}
    (h : ¬ ChannelsInRange (decodeFrame b)) : rcProcess rc b = rejectFrame b := by
  rw [rcProcess_eq, if_neg h]

theorem rcProcess_congr (rc rc' : RcInfo) (b : DbusFrame) : rcProcess rc b = rcProcess rc' b := by
  rw [rcProcess_eq, rcProcess_eq]

/-- After every call the four channels lie in `[-660, 660]`: decoded ones because the check let
them pass, the others because they are zero. -/
theorem channelsInRange_rcProcess (rc : RcInfo) (b : DbusFrame) :
    ChannelsInRange (rcProcess rc b) := by
  rw [rcProcess_eq]
  split
  · assumption
  · exact (by decide : ChannelsInRange RcInfo.zero)

/-! ## The values of the fields -/

/-- A stick channel, eleven bits with an offset of 1024. -/
theorem toInt_stick (n : ℕ) :
    (Int16.ofNat (n &&& 0x07FF) - 1024).toInt = ((n % 2048 : ℕ) : ℤ) - 1024 := by
  have hmask : n &&& 0x07FF = n % 2048 := land_ones n 11 rfl
  have hlt : n % 2048 < 2048 := Nat.mod_lt _ (by decide)
  have h1024 : (1024 : Int16).toInt = 1024 := by decide
  rw [hmask, Int16.toInt_sub, Int16.toInt_ofNat_of_lt (by omega), h1024]
  -- eleven bits less the offset do not overflow
  exact Int.bmod_eq_of_le (by omega) (by omega)

/-- Switch 1 is bits 7..6 of byte 5. -/
theorem sw1_decodeFrame (b : DbusFrame) : (decodeFrame b).sw1.toNat = b.byte 5 / 64 := by
  have hb := b.byte_lt 5
  have hmask : (b.byte 5 >>> 4 &&& 0x000C) = b.byte 5 / 64 * 4 := by
    have h : ∀ n < 256, n >>> 4 &&& 0x000C = n / 64 * 4 := by decide +kernel
    exact h _ hb
  simp only [decodeFrame]
  rw [hmask, Nat.shiftRight_eq_div_pow, UInt8.toNat_ofNat']
  omega

/-- Switch 2 is bits 5..4 of byte 5. -/
theorem sw2_decodeFrame (b : DbusFrame) : (decodeFrame b).sw2.toNat = b.byte 5 / 16 % 4 := by
  have hmask : b.byte 5 >>> 4 &&& 0x0003 = b.byte 5 >>> 4 % 4 := land_ones _ 2 rfl
  simp only [decodeFrame]
  rw [hmask, Nat.shiftRight_eq_div_pow, UInt8.toNat_ofNat']
  omega

/-! ## What rejecting discards -/

/-- The result is right when it is the decoded frame if all four channels are in range, the zero
record otherwise, and in both cases independent of the previous record. -/
def DiscardsRejected (rc : RcInfo) (b : DbusFrame) : Prop :=
  (¬ ChannelsInRange (decodeFrame b) → rcProcess rc b = RcInfo.zero) ∧
    (ChannelsInRange (decodeFrame b) → rcProcess rc b = decodeFrame b) ∧
      ∀ rc', rcProcess rc' b = rcProcess rc b

/-- The mouse and key bytes are zero and the wheel is centred. -/
def TailNeutral (b : DbusFrame) : Prop :=
  (∀ k : Fin 18, 6 ≤ k.val → k.val < 16 → b.get k = 0) ∧ b.get 16 = 0 ∧ b.byte 17 % 8 = 4

/-- A 16-bit word is zero exactly when its two bytes are. -/
private theorem word_eq_zero_iff (a b : UInt8) :
    (a.toNat ||| b.toNat <<< 8) % 2 ^ 16 = 0 ↔ a = 0 ∧ b = 0 := by
  have ha := a.toNat_lt
  have hb := b.toNat_lt
  rw [lor_shiftLeft_eq_add ha, ← UInt8.toNat_inj, ← UInt8.toNat_inj]
  simp only [UInt8.toNat_ofNat]
  omega

private theorem int16_ofNat_eq_zero_iff (n : ℕ) : Int16.ofNat n = 0 ↔ n % 2 ^ 16 = 0 := by
  rw [← Int16.toBitVec_inj, ← BitVec.toNat_inj]
  simp

private theorem uint16_ofNat_eq_zero_iff (n : ℕ) : UInt16.ofNat n = 0 ↔ n % 2 ^ 16 = 0 := by
  rw [← UInt16.toNat_inj]
  simp

/-- The wheel reads zero exactly when its eleven bits are 1024. -/
private theorem stick_eq_zero_iff (a b : UInt8) :
    Int16.ofNat ((a.toNat ||| b.toNat <<< 8) &&& 0x07FF) - 1024 = 0 ↔
      a = 0 ∧ b.toNat % 8 = 4 := by
  have ha := a.toNat_lt
  have hb := b.toNat_lt
  rw [← Int16.toInt_inj, toInt_stick, lor_shiftLeft_eq_add ha, ← UInt8.toNat_inj]
  simp only [Int16.toInt_zero, UInt8.toNat_ofNat]
  omega

/-- What the reject path leaves is the zero record exactly for frames with a neutral tail. -/
theorem rejectFrame_eq_zero_iff (b : DbusFrame) : rejectFrame b = RcInfo.zero ↔ TailNeutral b := by
  simp only [rejectFrame, decodeFrame, DbusFrame.byte, RcInfo.zero, TailNeutral, RcInfo.mk.injEq,
    MouseInfo.mk.injEq, true_and, int16_ofNat_eq_zero_iff, uint16_ofNat_eq_zero_iff,
    word_eq_zero_iff, stick_eq_zero_iff]
  constructor
  -- one field after the other is zero exactly if its bytes are
  · rintro ⟨hsw, ⟨⟨h6, h7⟩, ⟨h8, h9⟩, ⟨h10, h11⟩, h12, h13⟩, h14, h15⟩
    refine ⟨fun k hlo hhi => ?_, hsw⟩
    fin_cases k <;> first | assumption | contradiction
  · rintro ⟨hk, hsw⟩
    refine ⟨hsw, ⟨⟨hk 6 ?_ ?_, hk 7 ?_ ?_⟩, ⟨hk 8 ?_ ?_, hk 9 ?_ ?_⟩, ⟨hk 10 ?_ ?_, hk 11 ?_ ?_⟩,
      hk 12 ?_ ?_, hk 13 ?_ ?_⟩, hk 14 ?_ ?_, hk 15 ?_ ?_⟩ <;> decide

/-- **Rejected frames.** A frame whose channels are out of range is discarded without trace exactly
when the bytes that the code decodes after `rt_memset` happen to be neutral; accepted frames, and
independence of the previous record, are never at fault. -/
theorem discardsRejected_iff (rc : RcInfo) (b : DbusFrame) :
    DiscardsRejected rc b ↔ ChannelsInRange (decodeFrame b) ∨ TailNeutral b := by
  by_cases h : ChannelsInRange (decodeFrame b)
  -- an accepted frame: the first clause is void, the others hold without condition
  · simp only [h, true_or, iff_true]
    exact ⟨fun hn => absurd h hn, fun _ => rcProcess_of_inRange rc h,
      fun rc' => rcProcess_congr rc' rc b⟩
  -- a rejected frame: only the first clause can fail
  · simp only [h, false_or]
    rw [← rejectFrame_eq_zero_iff, ← rcProcess_of_not_inRange rc h]
    exact ⟨fun hd => hd.1 h, fun hz => ⟨fun _ => hz, fun hr => absurd hr h,
      fun rc' => rcProcess_congr rc' rc b⟩⟩

/-- The frame of eighteen zero bytes is rejected, and leaves the wheel at its end stop. -/
theorem discardsRejected_zeroFrame : ¬ DiscardsRejected RcInfo.zero (Vector.replicate 18 0) := by
  rintro ⟨hzero, -, -⟩
  -- the wheel is decoded after the check: 0 - 1024
  have hsw := congrArg RcInfo.sw (hzero (by decide))
  revert hsw
  decide

end RobomasterFirmware.Algorithm
