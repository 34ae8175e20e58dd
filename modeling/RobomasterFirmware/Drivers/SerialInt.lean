import RobomasterFirmware.Drivers.SerialSync
import RobomasterFirmware.Lib.Queue

/-!
# Serial Reception by Interrupt

The other way through `components/drivers/serial/serial.c`: on a device opened with
`RT_DEVICE_FLAG_INT_RX` the interrupt stores one character after the other into the receive buffer,
and `_serial_int_rx` takes them out. When `put_index` runs into `get_index`, the oldest character is
discarded, so the buffer is a queue that drops.

One cell stays free to tell an empty buffer from a full one, except where there is only one: then
`is_full` tells.

Not modelled: the warning that `_serial_check_buffer_size` prints.

## Main Results
- `Holds.rxPut`, `Holds.rxGet_cons`: the receive buffer is a queue of capacity `capacity bufsz`
- `Holds.rxLength`: the callback is told how many characters wait, if the buffer has two cells
-/

namespace RobomasterFirmware.Drivers

open RobomasterFirmware.Lib

namespace RtSerialRxFifo

/-! ## The code -/

/-- The body of the loop in the `RT_SERIAL_EVENT_RX_IND` case of `rt_hw_serial_isr`. -/
def rxPut (bufsz : UInt16) (f : RtSerialRxFifo) (ch : UInt8) : RtSerialRxFifo :=
  let f :=
    { f with
      buffer := Function.update f.buffer f.putIndex.toNat ch
      putIndex := f.putIndex + 1 }
  let f := if f.putIndex ≥ bufsz then { f with putIndex := 0 } else f
  if f.putIndex = f.getIndex then
    let f := { f with getIndex := f.getIndex + 1, isFull := true }
    if f.getIndex ≥ bufsz then { f with getIndex := 0 } else f
  else f

/-- The length that the same case computes for the callback. -/
def rxLength (bufsz : UInt16) (f : RtSerialRxFifo) : UInt32 :=
  if f.putIndex ≥ f.getIndex then f.putIndex.toUInt32 - f.getIndex.toUInt32
  else bufsz.toUInt32 - (f.getIndex.toUInt32 - f.putIndex.toUInt32)

/-- The body of the loop in `_serial_int_rx`: the character taken out, if there is one. -/
def rxGet (bufsz : UInt16) (f : RtSerialRxFifo) : Option (UInt8 × RtSerialRxFifo) :=
  if f.getIndex = f.putIndex ∧ f.isFull = false then none
  else
    let ch := f.buffer f.getIndex.toNat
    let f := { f with getIndex := f.getIndex + 1 }
    let f := if f.getIndex ≥ bufsz then { f with getIndex := 0 } else f
    let f := if f.isFull then { f with isFull := false } else f
    some (ch, f)

/-- The receive buffer that `rt_serial_open` sets up. -/
def opened : RtSerialRxFifo where
  buffer := fun _ => 0
  putIndex := 0
  getIndex := 0
  isFull := false

/-! ## The queue in the buffer -/

/-- One cell stays free, except where there is only one. -/
def capacity (bufsz : UInt16) : ℕ := if bufsz.toNat = 1 then 1 else bufsz.toNat - 1

/-- The characters that wait. -/
def contents (bufsz : UInt16) (f : RtSerialRxFifo) : List UInt8 :=
  ringRead bufsz.toNat f.buffer f.getIndex.toNat
    (if f.getIndex = f.putIndex ∧ f.isFull = true then bufsz.toNat
      else ringDistance bufsz.toNat f.getIndex.toNat f.putIndex.toNat)

/-- The buffer holds the queue `q`. -/
structure Holds (bufsz : UInt16) (f : RtSerialRxFifo) (q : List UInt8) : Prop where
  getIndex_lt : f.getIndex.toNat < bufsz.toNat
  putIndex : f.putIndex.toNat = (f.getIndex.toNat + q.length) % bufsz.toNat
  length_le : q.length ≤ capacity bufsz
  data : ringRead bufsz.toNat f.buffer f.getIndex.toNat q.length = q
  /-- `is_full` is set only on a full buffer, and there it has to be where the indices agree. -/
  full : f.isFull = true → q.length = capacity bufsz
  isFull : f.getIndex = f.putIndex → q ≠ [] → f.isFull = true

variable {bufsz : UInt16} {f : RtSerialRxFifo} {q : List UInt8}

theorem capacity_le (hB : 0 < bufsz.toNat) : capacity bufsz ≤ bufsz.toNat := by
  unfold capacity
  split <;> omega

theorem capacity_pos (hB : 0 < bufsz.toNat) : 0 < capacity bufsz := by
  unfold capacity
  split <;> omega

theorem holds_opened (hB : 0 < bufsz.toNat) : Holds bufsz opened [] where
  getIndex_lt := hB
  putIndex := (Nat.zero_mod _).symm
  length_le := Nat.zero_le _
  data := rfl
  full := (nomatch ·)
  isFull := fun _ h => absurd rfl h

/-! ## Every access keeps it -/

/-- The cell behind `i`. -/
def nextIndex (bufsz i : UInt16) : UInt16 := if i + 1 ≥ bufsz then 0 else i + 1

theorem toNat_nextIndex {i : UInt16} (hi : i.toNat < bufsz.toNat) :
    (nextIndex bufsz i).toNat = (i.toNat + 1) % bufsz.toNat := by
  have hB := bufsz.toNat_lt
  have hsucc : (i + 1).toNat = i.toNat + 1 := by
    rw [UInt16.toNat_add]
    exact Nat.mod_eq_of_lt (by change i.toNat + 1 < 2 ^ 16; omega)
  unfold nextIndex
  -- behind the last cell comes the first
  split
  · next hge =>
    have hle := UInt16.le_iff_toNat_le.mp hge
    have heq : i.toNat + 1 = bufsz.toNat := by omega
    rw [heq, Nat.mod_self]
    rfl
  · next hlt =>
    have hlt' := UInt16.lt_iff_toNat_lt.mp (UInt16.not_le.mp hlt)
    rw [hsucc, Nat.mod_eq_of_lt (by omega)]

theorem rxPut_eq (bufsz : UInt16) (f : RtSerialRxFifo) (ch : UInt8) :
    f.rxPut bufsz ch =
      { buffer := Function.update f.buffer f.putIndex.toNat ch
        putIndex := nextIndex bufsz f.putIndex
        getIndex := if nextIndex bufsz f.putIndex = f.getIndex then nextIndex bufsz f.getIndex
          else f.getIndex
        isFull := if nextIndex bufsz f.putIndex = f.getIndex then true else f.isFull } := by
  unfold rxPut nextIndex
  dsimp only
  split_ifs <;> rfl

theorem rxGet_eq (bufsz : UInt16) (f : RtSerialRxFifo) :
    f.rxGet bufsz =
      if f.getIndex = f.putIndex ∧ f.isFull = false then none
      else some (f.buffer f.getIndex.toNat,
        { f with getIndex := nextIndex bufsz f.getIndex, isFull := false }) := by
  unfold rxGet nextIndex
  dsimp only
  split_ifs <;> simp_all

theorem Holds.putIndex_lt (h : Holds bufsz f q) : f.putIndex.toNat < bufsz.toNat := by
  rw [h.putIndex]
  exact Nat.mod_lt _ (Nat.zero_lt_of_lt h.getIndex_lt)

/-- Where the next character leaves `put_index`. -/
theorem Holds.toNat_nextIndex_putIndex (h : Holds bufsz f q) :
    (nextIndex bufsz f.putIndex).toNat = (f.getIndex.toNat + (q.length + 1)) % bufsz.toNat := by
  rw [toNat_nextIndex h.putIndex_lt, h.putIndex, Nat.mod_add_mod, Nat.add_assoc]

/-- It runs into `get_index` exactly where there is no more room. -/
theorem Holds.nextIndex_eq_iff (h : Holds bufsz f q) :
    nextIndex bufsz f.putIndex = f.getIndex ↔ (q.length + 1) % bufsz.toNat = 0 := by
  rw [← UInt16.toNat_inj, h.toNat_nextIndex_putIndex, add_mod_eq_self_iff h.getIndex_lt]

/-- There is room for the character. -/
theorem Holds.rxPut_of_lt (h : Holds bufsz f q) (hlt : q.length + 1 < bufsz.toNat) (ch : UInt8) :
    Holds bufsz (f.rxPut bufsz ch) (q ++ [ch]) := by
  have hcap : capacity bufsz = bufsz.toNat - 1 := if_neg (by omega)
  have hne : nextIndex bufsz f.putIndex ≠ f.getIndex := by
    rw [Ne, h.nextIndex_eq_iff, Nat.mod_eq_of_lt hlt]
    exact Nat.succ_ne_zero _
  have hlen : (q ++ [ch]).length = q.length + 1 := List.length_append
  -- `put_index` does not run into `get_index`: only the cell and `put_index` change
  rw [rxPut_eq, if_neg hne, if_neg hne]
  constructor
  · exact h.getIndex_lt
  · rw [hlen]
    exact h.toNat_nextIndex_putIndex
  · rw [hlen, hcap]
    omega
  -- the new cell is the one behind the queue
  · rw [hlen, h.putIndex]
    exact (ringRead_update (by omega) _ _ _).trans (congrArg (· ++ [ch]) h.data)
  · intro hfull
    have hold := h.full hfull
    omega
  · exact fun heq => absurd heq.symm hne

/-- There is no room, and more than one cell: the oldest character is discarded. -/
theorem Holds.rxPut_of_full (h : Holds bufsz f q) (hB : 1 < bufsz.toNat)
    (hfull : q.length + 1 = bufsz.toNat) (ch : UInt8) :
    Holds bufsz (f.rxPut bufsz ch) ((q ++ [ch]).drop 1) := by
  have hcap : capacity bufsz = bufsz.toNat - 1 := if_neg (by omega)
  have heq : nextIndex bufsz f.putIndex = f.getIndex := by
    rw [h.nextIndex_eq_iff, hfull, Nat.mod_self]
  have hnext := toNat_nextIndex h.getIndex_lt
  have hlen : ((q ++ [ch]).drop 1).length = q.length := by
    rw [List.length_drop, List.length_append, List.length_singleton, Nat.add_sub_cancel]
  -- `put_index` runs into `get_index`, which gives way
  rw [rxPut_eq, if_pos heq, if_pos heq]
  constructor
  · rw [hnext]
    exact Nat.mod_lt _ (by omega)
  · rw [hlen, heq, hnext, Nat.mod_add_mod, Nat.add_assoc, Nat.add_comm 1, hfull,
      Nat.add_mod_right, Nat.mod_eq_of_lt h.getIndex_lt]
  · omega
  · -- the cells from the old `get_index` on hold the queue and the new character
    have hall := ringRead_update (B := bufsz.toNat) (n := q.length) (by omega) f.buffer
      f.getIndex.toNat ch
    rw [h.data, ← h.putIndex, ringRead_succ] at hall
    rw [hlen, hnext, ringRead_mod, ← hall]
    rfl
  · exact fun _ => by omega
  · exact fun _ _ => rfl

/-- The only cell holds the new character. -/
theorem Holds.rxPut_of_one (h : Holds bufsz f q) (hB : bufsz.toNat = 1) (ch : UInt8) :
    Holds bufsz (f.rxPut bufsz ch) [ch] := by
  have hcap : capacity bufsz = 1 := if_pos hB
  have heq : nextIndex bufsz f.putIndex = f.getIndex := by
    rw [h.nextIndex_eq_iff, hB, Nat.mod_one]
  have hget : f.getIndex.toNat = 0 := Nat.lt_one_iff.mp (hB ▸ h.getIndex_lt)
  have hput : f.putIndex.toNat = 0 := Nat.lt_one_iff.mp (hB ▸ h.putIndex_lt)
  have hnext : (nextIndex bufsz f.getIndex).toNat = 0 := by
    rw [toNat_nextIndex h.getIndex_lt, hB, Nat.mod_one]
  -- both indices stay at the only cell
  rw [rxPut_eq, if_pos heq, if_pos heq]
  constructor
  · rw [hnext, hB]
    exact Nat.one_pos
  · rw [heq, hget, hB, Nat.mod_one]
  · rw [hcap]
    rfl
  · rw [hB, hnext, hput]
    rfl
  · exact fun _ => hcap.symm
  · exact fun _ _ => rfl

/-- **Step lemma.** A character is appended, and the oldest one discarded if there is no room. -/
theorem Holds.rxPut (h : Holds bufsz f q) (ch : UInt8) :
    Holds bufsz (f.rxPut bufsz ch) (push (capacity bufsz) q ch) := by
  have hget := h.getIndex_lt
  have hlen := h.length_le
  -- a buffer of one cell is full at once; a larger one keeps a cell free
  rcases Nat.lt_trichotomy bufsz.toNat 1 with hzero | hone | htwo
  · omega
  · have hcap : capacity bufsz = 1 := if_pos hone
    have hpush : push (capacity bufsz) q ch = [ch] := by
      rw [hcap] at hlen ⊢
      -- the cell was empty, or its character is the one to go
      rcases Nat.lt_or_ge q.length 1 with hnil | hfull
      · rw [List.length_eq_zero_iff.mp (Nat.lt_one_iff.mp hnil)]
        rfl
      · rw [push, List.drop_append_of_le_length (by omega), List.drop_of_length_le (by omega)]
        rfl
    rw [hpush]
    exact h.rxPut_of_one hone ch
  · have hcap : capacity bufsz = bufsz.toNat - 1 := if_neg (by omega)
    rcases Nat.lt_or_ge q.length (capacity bufsz) with hroom | hfull
    · rw [push_of_lt hroom]
      exact h.rxPut_of_lt (by omega) ch
    · rw [push_of_full (Nat.le_antisymm hlen hfull)]
      exact h.rxPut_of_full htwo (by omega) ch

/-- All characters of an interrupt. -/
theorem Holds.foldl_rxPut (h : Holds bufsz f q) (chs : List UInt8) :
    Holds bufsz (chs.foldl (RtSerialRxFifo.rxPut bufsz) f)
      (chs.foldl (push (capacity bufsz)) q) := by
  -- the characters come one by one
  induction chs generalizing f q with
  | nil => exact h
  | cons ch chs ih => exact ih (h.rxPut ch)

/-- The test for an empty buffer is right. -/
theorem Holds.eq_nil_iff (h : Holds bufsz f q) :
    f.getIndex = f.putIndex ∧ f.isFull = false ↔ q = [] := by
  have hget := h.getIndex_lt
  have hlen := h.length_le
  constructor
  · rintro ⟨heq, hdown⟩
    -- equal indices on a queue that is not empty mean a full buffer
    by_contra hne
    rw [h.isFull heq hne] at hdown
    cases hdown
  · rintro rfl
    have hput := h.putIndex
    rw [List.length_nil, Nat.add_zero, Nat.mod_eq_of_lt hget] at hput
    refine ⟨UInt16.toNat_inj.mp hput.symm, ?_⟩
    -- an empty queue is never full
    by_contra hup
    have hfull := h.full (Bool.not_eq_false _ ▸ hup)
    unfold capacity at hfull
    split at hfull
    · cases hfull
    · rw [List.length_nil] at hfull
      omega

theorem Holds.rxGet_nil (h : Holds bufsz f []) : f.rxGet bufsz = none := by
  rw [rxGet_eq]
  exact if_pos (h.eq_nil_iff.mpr rfl)

/-- **Step lemma.** The first character is taken out. -/
theorem Holds.rxGet_cons {ch : UInt8} (h : Holds bufsz f (ch :: q)) :
    ∃ f', f.rxGet bufsz = some (ch, f') ∧ Holds bufsz f' q := by
  have hnext := toNat_nextIndex h.getIndex_lt
  have hlen := h.length_le
  have hput := h.putIndex
  have hdata := h.data
  rw [List.length_cons] at hlen hput hdata
  rw [ringRead_succ, Nat.mod_eq_of_lt h.getIndex_lt, List.cons.injEq] at hdata
  have hlt : (nextIndex bufsz f.getIndex).toNat < bufsz.toNat := by
    rw [hnext]
    exact Nat.mod_lt _ (Nat.zero_lt_of_lt h.getIndex_lt)
  have hput' : f.putIndex.toNat =
      ((nextIndex bufsz f.getIndex).toNat + q.length) % bufsz.toNat := by
    rw [hput, hnext, Nat.mod_add_mod, Nat.add_assoc, Nat.add_comm 1]
  -- what is read is the cell at `get_index`, which moves on
  rw [rxGet_eq]
  refine ⟨{ f with getIndex := nextIndex bufsz f.getIndex, isFull := false }, ?_, ?_⟩
  · rw [if_neg fun hempty => List.cons_ne_nil _ _ (h.eq_nil_iff.mp hempty), hdata.1]
  · constructor
    · exact hlt
    · exact hput'
    · omega
    · rw [hnext, ringRead_mod]
      exact hdata.2
    · exact (nomatch ·)
    · -- fewer characters wait than there are cells, so the indices differ
      intro heq hne
      have hback := hput'.symm.trans (congrArg UInt16.toNat heq).symm
      have hle := capacity_le (Nat.zero_lt_of_lt h.getIndex_lt)
      have hzero := (add_mod_eq_self_iff hlt q.length).mp hback
      rw [Nat.mod_eq_of_lt (by omega)] at hzero
      exact absurd (List.length_eq_zero_iff.mp hzero) hne

/-- What waits is what `contents` reads. -/
theorem Holds.contents_eq (h : Holds bufsz f q) : contents bufsz f = q := by
  have hget := h.getIndex_lt
  have hle := capacity_le (Nat.zero_lt_of_lt hget)
  have hlen := h.length_le
  have hcount : (if f.getIndex = f.putIndex ∧ f.isFull = true then bufsz.toNat
      else ringDistance bufsz.toNat f.getIndex.toNat f.putIndex.toNat) = q.length := by
    split
    · next hfull =>
      -- the indices agree on a full buffer, so the characters go once round
      have hback := h.putIndex.symm.trans (congrArg UInt16.toNat hfull.1).symm
      have hturn := (add_mod_eq_self_iff hget q.length).mp hback
      have hcap := h.full hfull.2
      have hpos := capacity_pos (Nat.zero_lt_of_lt hget)
      rcases Nat.lt_or_ge q.length bufsz.toNat with hlt | hge
      · rw [Nat.mod_eq_of_lt hlt] at hturn
        omega
      · omega
    · next hnot =>
      -- else the distance of the indices is the length, less than one turn
      rw [h.putIndex, ringDistance_add_mod hget]
      refine Nat.mod_eq_of_lt (Nat.lt_of_le_of_ne (hlen.trans hle) fun hturn => hnot ?_)
      have hput := h.putIndex
      rw [hturn, Nat.add_mod_right, Nat.mod_eq_of_lt hget] at hput
      have heq : f.getIndex = f.putIndex := UInt16.toNat_inj.mp hput.symm
      exact ⟨heq, h.isFull heq (List.ne_nil_of_length_pos (by omega))⟩
  rw [contents, hcount]
  exact h.data

/-- **Step lemma.** The callback is told how many characters wait. -/
theorem Holds.rxLength (h : Holds bufsz f q) (hB : 1 < bufsz.toNat) :
    (f.rxLength bufsz).toNat = q.length := by
  have hcap : capacity bufsz = bufsz.toNat - 1 := if_neg (by omega)
  have hlen := h.length_le
  -- it is the length of the other way of reception, on a buffer that is not full
  have hcalc : f.rxLength bufsz =
      SerialDevice.calcRecvedLen ⟨bufsz, { f with isFull := false }, 0, 0⟩ := by
    unfold RtSerialRxFifo.rxLength SerialDevice.calcRecvedLen
    dsimp only
    -- the queue lies in one piece, is empty, or goes over the end
    rcases Nat.lt_trichotomy f.getIndex.toNat f.putIndex.toNat with hlt | heq | hgt
    · have hne : f.putIndex ≠ f.getIndex := fun heq => hlt.ne' (congrArg UInt16.toNat heq)
      rw [if_pos (UInt16.le_iff_toNat_le.mpr hlt.le), if_neg hne,
        if_pos (UInt16.lt_iff_toNat_lt.mpr hlt)]
    · have heq' : f.putIndex = f.getIndex := UInt16.toNat_inj.mp heq.symm
      rw [if_pos (UInt16.le_iff_toNat_le.mpr heq.le), if_pos heq', if_pos rfl, heq',
        UInt32.sub_self]
    · have hne : f.putIndex ≠ f.getIndex := fun heq => hgt.ne (congrArg UInt16.toNat heq)
      rw [if_neg fun hle => hgt.not_ge (UInt16.le_iff_toNat_le.mp hle), if_neg hne,
        if_neg fun hlt => hgt.not_gt (UInt16.lt_iff_toNat_lt.mp hlt)]
  rw [hcalc, SerialDevice.toNat_calcRecvedLen rfl h.getIndex_lt]
  change ringDistance bufsz.toNat f.getIndex.toNat f.putIndex.toNat = q.length
  rw [h.putIndex, ringDistance_add_mod h.getIndex_lt, Nat.mod_eq_of_lt (by omega)]

end RtSerialRxFifo

end RobomasterFirmware.Drivers
