import RobomasterFirmware.Algorithm.RcProcess
import RobomasterFirmware.Lib.BitField
import Mathlib.Tactic.IntervalCases

/-!
# The DBUS Format

The format a receiver sends: fourteen fields packed least significant bit first into eighteen
bytes. `dbusEncode` is stated from the format alone, through the bit-field library; the theorems
say that the shifts and masks of `RC_Process` are the inverse of it.

## Main Results
- `decodeFrame_dbusEncode`: decoding an encoded record gives the record
- `dbusEncode_decodeFrame`: encoding what was decoded gives the frame
-/

namespace RobomasterFirmware.Algorithm

open RobomasterFirmware.Applications
open RobomasterFirmware.Lib

/-! ## The layout -/

/-- Field widths: four channels, switch 2, switch 1, mouse x, y, z, the two buttons, key, wheel,
and five trailing bits. -/
def dbusLayout : List ℕ := [11, 11, 11, 11, 2, 2, 16, 16, 16, 8, 8, 16, 11, 5]

/-- The field values of a record, with `t` in the trailing bits. -/
def fieldValues (v : RcInfo) (t : ℕ) : List ℕ :=
  [(v.ch1.toInt + 1024).toNat, (v.ch2.toInt + 1024).toNat, (v.ch3.toInt + 1024).toNat,
    (v.ch4.toInt + 1024).toNat, v.sw2.toNat, v.sw1.toNat, v.mouse.x.toUInt16.toNat,
    v.mouse.y.toUInt16.toNat, v.mouse.z.toUInt16.toNat, v.mouse.pressL.toNat,
    v.mouse.pressR.toNat, v.key.toNat, (v.sw.toInt + 1024).toNat, t]

/-- The encoder: pack the fields, cut the number into eighteen bytes. -/
def dbusEncode (v : RcInfo) (t : ℕ) : DbusFrame :=
  ⟨(leBytes 18 (pack dbusLayout (fieldValues v t))).toArray, by simp⟩

/-- The records the format can carry. -/
structure InFormat (v : RcInfo) : Prop where
  channels : ChannelsInRange v
  sw1 : v.sw1.toNat ≤ 3
  sw2 : v.sw2.toNat ≤ 3
  sw : -1024 ≤ v.sw.toInt ∧ v.sw.toInt ≤ 1023

theorem toList_dbusEncode (v : RcInfo) (t : ℕ) :
    (dbusEncode v t).toList = leBytes 18 (pack dbusLayout (fieldValues v t)) := rfl

theorem leBytes_frame (b : DbusFrame) : leBytes 18 (leValue b.toList) = b.toList := by
  have h := leBytes_leValue b.toList
  rwa [Vector.length_toList] at h

/-- The number a frame stands for, read through the layout, is the packed record. -/
theorem unpack_dbusEncode {v : RcInfo} {t : ℕ} (hv : Fits dbusLayout (fieldValues v t)) :
    unpack dbusLayout (leValue (dbusEncode v t).toList) = fieldValues v t := by
  have hlt : pack dbusLayout (fieldValues v t) < 256 ^ 18 := pack_lt dbusLayout _
  rw [toList_dbusEncode, leValue_leBytes hlt, unpack_pack hv]

/-- A record in the format fits the layout. -/
theorem fits_fieldValues {v : RcInfo} (hv : InFormat v) {t : ℕ} (ht : t < 32) :
    Fits dbusLayout (fieldValues v t) := by
  obtain ⟨⟨h1, h2, h3, h4⟩, hs1, hs2, hsw⟩ := hv
  have hx := v.mouse.x.toUInt16.toNat_lt
  have hy := v.mouse.y.toUInt16.toNat_lt
  have hz := v.mouse.z.toUInt16.toNat_lt
  have hl := v.mouse.pressL.toNat_lt
  have hr := v.mouse.pressR.toNat_lt
  have hk := v.key.toNat_lt
  -- every value is below two to the width of its field
  simp only [Fits, dbusLayout, fieldValues, List.forall₂_cons, List.forall₂_nil_right_iff, and_true]
  omega

private theorem toUInt16_eq_iff (x y : Int16) : x.toUInt16 = y.toUInt16 ↔ x = y :=
  ⟨fun h => by simpa using congrArg UInt16.toInt16 h, fun h => h ▸ rfl⟩

/-- Two records in the format with the same field values are equal. -/
theorem fieldValues_inj {v w : RcInfo} {t u : ℕ}
    (hv : -1024 ≤ v.ch1.toInt ∧ -1024 ≤ v.ch2.toInt ∧ -1024 ≤ v.ch3.toInt ∧
      -1024 ≤ v.ch4.toInt ∧ -1024 ≤ v.sw.toInt)
    (hw : -1024 ≤ w.ch1.toInt ∧ -1024 ≤ w.ch2.toInt ∧ -1024 ≤ w.ch3.toInt ∧
      -1024 ≤ w.ch4.toInt ∧ -1024 ≤ w.sw.toInt)
    (h : fieldValues v t = fieldValues w u) : v = w := by
  obtain ⟨c1, c2, c3, c4, s1, s2, s, ⟨x, y, z, l, r⟩, k⟩ := v
  obtain ⟨c1', c2', c3', c4', s1', s2', s', ⟨x', y', z', l', r'⟩, k'⟩ := w
  simp only [fieldValues, List.cons.injEq, UInt8.toNat_inj, UInt16.toNat_inj, toUInt16_eq_iff]
    at h hv hw
  obtain ⟨h1, h2, h3, h4, rfl, rfl, rfl, rfl, rfl, rfl, rfl, rfl, hs, -⟩ := h
  -- the five offset fields determine their values because none is below the offset
  have e1 : c1 = c1' := Int16.toInt_inj.mp (by omega)
  have e2 : c2 = c2' := Int16.toInt_inj.mp (by omega)
  have e3 : c3 = c3' := Int16.toInt_inj.mp (by omega)
  have e4 : c4 = c4' := Int16.toInt_inj.mp (by omega)
  have es : s = s' := Int16.toInt_inj.mp (by omega)
  rw [e1, e2, e3, e4, es]

/-! ## Decoding reads the layout -/

private theorem toList_frame (b : DbusFrame) :
    b.toList = [b.get 0, b.get 1, b.get 2, b.get 3, b.get 4, b.get 5] ++
      ([b.get 6, b.get 7, b.get 8, b.get 9, b.get 10, b.get 11, b.get 12, b.get 13, b.get 14,
        b.get 15] ++ [b.get 16, b.get 17]) := by
  apply List.ext_getElem
  · simp
  · intro i hi _
    rw [Vector.length_toList] at hi
    interval_cases i <;> rfl

/-- The stick and switch fields are those of the first six bytes. -/
private theorem unpack_sticks (b0 b1 b2 b3 b4 b5 : UInt8) :
    unpack [11, 11, 11, 11, 2, 2] (leValue [b0, b1, b2, b3, b4, b5]) =
      [(b0.toNat + 256 * b1.toNat) % 2048, (b1.toNat / 8 + 32 * b2.toNat) % 2048,
        (b2.toNat / 64 + 4 * b3.toNat + 1024 * b4.toNat) % 2048,
        (b4.toNat / 2 + 128 * b5.toNat) % 2048, b5.toNat / 16 % 4, b5.toNat / 64] := by
  have h0 := b0.toNat_lt
  have h1 := b1.toNat_lt
  have h2 := b2.toNat_lt
  have h3 := b3.toNat_lt
  have h4 := b4.toNat_lt
  have h5 := b5.toNat_lt
  simp only [unpack, leValue, Nat.div_div_eq_div_mul, List.cons.injEq, and_true, Nat.reducePow,
    Nat.reduceMul]
  -- each field is cut out of the number by one division
  omega

/-- The fields of the first six bytes as `RC_Process` extracts them. -/
private theorem toNat_sticks (b : DbusFrame) :
    ((decodeFrame b).ch1.toInt + 1024).toNat = (b.byte 0 + 256 * b.byte 1) % 2048 ∧
    ((decodeFrame b).ch2.toInt + 1024).toNat = (b.byte 1 / 8 + 32 * b.byte 2) % 2048 ∧
    ((decodeFrame b).ch3.toInt + 1024).toNat =
      (b.byte 2 / 64 + 4 * b.byte 3 + 1024 * b.byte 4) % 2048 ∧
    ((decodeFrame b).ch4.toInt + 1024).toNat = (b.byte 4 / 2 + 128 * b.byte 5) % 2048 ∧
    ((decodeFrame b).sw.toInt + 1024).toNat = (b.byte 16 + 256 * b.byte 17) % 2048 := by
  have h0 := b.byte_lt 0
  have h1 := b.byte_lt 1
  have h2 := b.byte_lt 2
  have h3 := b.byte_lt 3
  have h4 := b.byte_lt 4
  have h16 := b.byte_lt 16
  have hch3 : b.byte 2 / 2 ^ 6 ||| b.byte 3 <<< 2 = b.byte 2 / 2 ^ 6 + 2 ^ 2 * b.byte 3 :=
    lor_shiftLeft_eq_add (by omega) _
  simp only [decodeFrame, toInt_stick, Nat.shiftRight_eq_div_pow]
  -- the parts that are or-ed together do not overlap, so the or is a sum
  rw [lor_shiftLeft_eq_add h0, lor_shiftLeft_eq_add (i := 5) (by omega), hch3,
    lor_shiftLeft_eq_add (i := 10) (by have := b.byte_lt 3; omega),
    lor_shiftLeft_eq_add (i := 7) (by omega), lor_shiftLeft_eq_add h16]
  omega

private theorem toNat_word (a b : UInt8) :
    (Int16.ofNat (a.toNat ||| b.toNat <<< 8)).toUInt16.toNat = a.toNat + 256 * b.toNat := by
  have ha := a.toNat_lt
  have hb := b.toNat_lt
  rw [lor_shiftLeft_eq_add ha, Int16.toUInt16_ofNat', UInt16.toNat_ofNat']
  omega

private theorem toNat_key (a b : UInt8) :
    (UInt16.ofNat (a.toNat ||| b.toNat <<< 8)).toNat = a.toNat + 256 * b.toNat := by
  have ha := a.toNat_lt
  have hb := b.toNat_lt
  rw [lor_shiftLeft_eq_add ha, UInt16.toNat_ofNat']
  omega

private theorem length_sticks (b0 b1 b2 b3 b4 b5 : UInt8) :
    256 ^ [b0, b1, b2, b3, b4, b5].length = 2 ^ [11, 11, 11, 11, 2, 2].sum := by norm_num

/-- A frame as its six stick bytes followed by the rest. -/
private theorem leValue_frame (b : DbusFrame) :
    leValue b.toList = leValue [b.get 0, b.get 1, b.get 2, b.get 3, b.get 4, b.get 5] +
      2 ^ [11, 11, 11, 11, 2, 2].sum *
        leValue ([b.get 6, b.get 7, b.get 8, b.get 9, b.get 10, b.get 11, b.get 12, b.get 13,
          b.get 14, b.get 15] ++ [b.get 16, b.get 17]) := by
  rw [toList_frame, leValue_append, length_sticks]

private theorem leValue_sticks_lt (b0 b1 b2 b3 b4 b5 : UInt8) :
    leValue [b0, b1, b2, b3, b4, b5] < 2 ^ [11, 11, 11, 11, 2, 2].sum := by
  simpa using leValue_lt [b0, b1, b2, b3, b4, b5]

private theorem unpack_wheel (b16 b17 : UInt8) :
    unpack [11, 5] (leValue [b16, b17]) =
      [(b16.toNat + 256 * b17.toNat) % 2048, b17.toNat / 8] := by
  have h16 := b16.toNat_lt
  have h17 := b17.toNat_lt
  simp only [unpack, leValue, List.cons.injEq, and_true]
  omega

/-- The fields `RC_Process` extracts are those of the layout, all fourteen of them. -/
theorem unpack_frame (b : DbusFrame) :
    unpack dbusLayout (leValue b.toList) = fieldValues (decodeFrame b) (b.byte 17 / 8) := by
  obtain ⟨h1, h2, h3, h4, hsw⟩ := toNat_sticks b
  -- the first six fields end on a byte boundary, the others are whole bytes up to the wheel
  rw [leValue_frame,
    show dbusLayout = [11, 11, 11, 11, 2, 2] ++ [16, 16, 16, 8, 8, 16, 11, 5] from rfl,
    unpack_append (leValue_sticks_lt _ _ _ _ _ _), unpack_sticks]
  simp only [List.cons_append, List.nil_append, unpack_word, unpack_byte, unpack_wheel]
  rw [fieldValues, h1, h2, h3, h4, hsw, sw1_decodeFrame, sw2_decodeFrame]
  simp only [decodeFrame, DbusFrame.byte, toNat_word, toNat_key]

/-! ## Round trips -/

private theorem decodeFrame_ge (b : DbusFrame) :
    -1024 ≤ (decodeFrame b).ch1.toInt ∧ -1024 ≤ (decodeFrame b).ch2.toInt ∧
      -1024 ≤ (decodeFrame b).ch3.toInt ∧ -1024 ≤ (decodeFrame b).ch4.toInt ∧
      -1024 ≤ (decodeFrame b).sw.toInt := by
  simp only [decodeFrame, toInt_stick]
  omega

/-- Decoding an encoded record gives the record, whatever the trailing bits. -/
theorem decodeFrame_dbusEncode {v : RcInfo} (hv : InFormat v) {t : ℕ} (ht : t < 32) :
    decodeFrame (dbusEncode v t) = v := by
  have hfields := unpack_frame (dbusEncode v t)
  rw [unpack_dbusEncode (fits_fieldValues hv ht)] at hfields
  obtain ⟨⟨h1, h2, h3, h4⟩, -, -, hsw⟩ := hv
  -- the fields of the decoded frame are those that were packed
  exact (fieldValues_inj (by omega) (decodeFrame_ge _) hfields).symm

/-- Encoding what was decoded gives the frame. -/
theorem dbusEncode_decodeFrame (b : DbusFrame) :
    dbusEncode (decodeFrame b) (b.byte 17 / 8) = b := by
  have hlt : leValue b.toList < 2 ^ dbusLayout.sum := by
    have h := leValue_lt b.toList
    rwa [Vector.length_toList] at h
  apply Vector.toList_inj.mp
  rw [toList_dbusEncode, ← unpack_frame, pack_unpack hlt, leBytes_frame]

/-- Two frames agree in every bit but the five trailing ones. -/
def SameUpToTrailing (b c : DbusFrame) : Prop :=
  leValue b.toList % 2 ^ 139 = leValue c.toList % 2 ^ 139

/-- The trailing bits are the only ones in which encodings of the same record differ. -/
theorem sameUpToTrailing_dbusEncode (v : RcInfo) (t u : ℕ) :
    SameUpToTrailing (dbusEncode v t) (dbusEncode v u) := by
  have hmod (t : ℕ) : leValue (dbusEncode v t).toList % 2 ^ 139 =
      pack [11, 11, 11, 11, 2, 2, 16, 16, 16, 8, 8, 16, 11] (fieldValues v 0).dropLast := by
    have hlt : pack dbusLayout (fieldValues v t) < 256 ^ 18 := pack_lt dbusLayout _
    have hlen : [11, 11, 11, 11, 2, 2, 16, 16, 16, 8, 8, 16, 11].length =
        (fieldValues v 0).dropLast.length := rfl
    have hsplit := pack_append hlen [5] [t]
    -- the trailing bits are above all other fields
    have hlow := pack_lt [11, 11, 11, 11, 2, 2, 16, 16, 16, 8, 8, 16, 11]
      (fieldValues v 0).dropLast
    rw [toList_dbusEncode, leValue_leBytes hlt]
    change pack dbusLayout (fieldValues v t) = _ + 2 ^ 139 * _ at hsplit
    rw [hsplit, Nat.add_mul_mod_self_left]
    exact Nat.mod_eq_of_lt hlow
  rw [SameUpToTrailing, hmod, hmod]

/-- **`RC_Process` undoes the DBUS encoding.** Every record of the format comes back from its
encoding, with any trailing bits and any previous record; and re-encoding the result for a frame
with channels in range gives back that frame up to the trailing bits. -/
theorem rcProcess_inverts_dbusEncode :
    (∀ (v : RcInfo) (t : ℕ) (prev : RcInfo), InFormat v → t < 32 →
      rcProcess prev (dbusEncode v t) = v) ∧
    ∀ (b : DbusFrame) (t : ℕ) (prev : RcInfo), ChannelsInRange (decodeFrame b) →
      SameUpToTrailing (dbusEncode (rcProcess prev b) t) b := by
  constructor
  -- a record of the format has channels in range, so it is accepted
  · intro v t prev hv ht
    have hdecode := decodeFrame_dbusEncode hv ht
    have hrange : ChannelsInRange (decodeFrame (dbusEncode v t)) := hdecode.symm ▸ hv.channels
    rw [rcProcess_of_inRange prev hrange, hdecode]
  -- an accepted frame is the encoding of what was decoded, with its own trailing bits
  · intro b t prev hb
    rw [rcProcess_of_inRange prev hb]
    have h := sameUpToTrailing_dbusEncode (decodeFrame b) t (b.byte 17 / 8)
    rwa [dbusEncode_decodeFrame] at h

/-- Full left stick, both switches, a dragging mouse and trailing bits set. -/
theorem rcProcess_inverts_dbusEncode_sample :
    rcProcess RcInfo.zero
        (dbusEncode ⟨-660, 660, 1, -1, 1, 3, -1024, ⟨-32768, 32767, -1, 1, 0⟩, 65535⟩ 31) =
      ⟨-660, 660, 1, -1, 1, 3, -1024, ⟨-32768, 32767, -1, 1, 0⟩, 65535⟩ :=
  rcProcess_inverts_dbusEncode.1 _ 31 _
    ⟨by decide, by decide, by decide, by decide⟩ (by decide)

end RobomasterFirmware.Algorithm
