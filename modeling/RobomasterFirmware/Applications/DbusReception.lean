import RobomasterFirmware.Applications.Rc
import RobomasterFirmware.Drivers.SerialSync

/-!
# Reception of the Remote Control

The whole way from the line to `dbus_input`: the DMA channel stores a burst, the line goes idle,
`uart_isr` reports the bytes waiting, and the callback reads them. The interrupts of the channel
itself do nothing, since `dma_isr` is never called.

As long as the indices stay in step, the callback is given the burst without its whole turns of the
buffer. They leave step in one way only: `rt_dma_recv_update_get_index` adds in 16 bits before it
reduces, so `get_index` goes wrong when it passes `65535` on a buffer large enough to get there.

## Main Results
- `receptionExact_iff`: which bursts are delivered exactly
- `streamsFrames_iff`: which buffers stream 18-byte frames
- `dbusReception_exact_iff`: both, and that the buffer of 19 bytes never overruns `dbus_rx_buffer`
- `exists_calls`: with 19 bytes the receiver is `dbus_input` over bursts of at most a frame
-/

namespace RobomasterFirmware.Applications

open RobomasterFirmware.Drivers
open RobomasterFirmware.Drivers.SerialDevice
open RobomasterFirmware.Lib

/-! ## Model -/

/-- The serial device and the globals of `rc.c`. -/
structure DbusReceiver where
  serial : SerialDevice
  dbus : DbusState

/-- One call of `dbus_input`: the size it is given, and the bytes it reads. -/
structure Delivery where
  size : UInt32
  bytes : List UInt8
  deriving DecidableEq

namespace DbusReceiver

/-- The device is open with a buffer of `bufsz` bytes. -/
def opened (bufsz : UInt16) (buffer : ℕ → UInt8) (dbus : DbusState) : DbusReceiver where
  serial := SerialDevice.opened bufsz buffer
  dbus := dbus

/-- `dbus_input` with its `rt_device_read`. Bytes past the eighteenth, which the code would write
past `dbus_rx_buffer`, show in the delivery only. -/
def rxIndicate (r : DbusReceiver) (size : UInt32) : DbusReceiver × List Delivery :=
  let (bytes, serial) := r.serial.read size
  ({ serial := serial, dbus := dbusInput r.dbus bytes }, [{ size := size, bytes := bytes }])

/-- A burst, and the idle interrupt after it. -/
def receive (r : DbusReceiver) (bytes : List UInt8) : DbusReceiver × List Delivery :=
  let (serial, length) := (r.serial.dmaReceive bytes).uartIsr
  let r := { r with serial := serial }
  match length with
  | some length => r.rxIndicate length.toUInt32
  | none => (r, [])

end DbusReceiver

open DbusReceiver

/-- The receiver over a sequence of bursts; it shows the calls of `dbus_input`. -/
def receptionMachine : Machine DbusReceiver (List UInt8) Delivery where
  step := DbusReceiver.receive

/-! ## Exact delivery -/

/-- What remains of a burst without the whole turns of the buffer. -/
def lastTurn (B : ℕ) (bytes : List UInt8) : List UInt8 :=
  bytes.drop (bytes.length - bytes.length % B)

/-- The calls a burst should lead to. -/
def deliveries (B : ℕ) (bytes : List UInt8) : List Delivery :=
  if B ∣ bytes.length then []
  else [{ size := UInt32.ofNat (bytes.length % B), bytes := lastTurn B bytes }]

/-- A burst is received exactly: it leads to these calls and leaves the indices in step. -/
def BurstExact (r : DbusReceiver) (bytes : List UInt8) : Prop :=
  (receptionMachine.next r bytes).serial.Synced ∧
    receptionMachine.emit r bytes = deliveries r.serial.bufsz.toNat bytes

/-- Every burst of the sequence is received exactly, from the opened device on. -/
def ReceptionExact (bufsz : UInt16) (buffer : ℕ → UInt8) (dbus : DbusState)
    (bursts : List (List UInt8)) : Prop :=
  receptionMachine.Along BurstExact (opened bufsz buffer dbus) bursts

/-- Every stream of 18-byte frames is delivered one frame a call. -/
def StreamsFrames (bufsz : UInt16) : Prop :=
  ∀ buffer dbus, ∀ frames : List (List UInt8), (∀ frame ∈ frames, frame.length = 18) →
    receptionMachine.trace (opened bufsz buffer dbus) frames =
      frames.map fun frame => { size := 18, bytes := frame }

theorem next_receptionMachine (r : DbusReceiver) (bytes : List UInt8) :
    receptionMachine.next r bytes = (r.receive bytes).1 := rfl

theorem emit_receptionMachine (r : DbusReceiver) (bytes : List UInt8) :
    receptionMachine.emit r bytes = (r.receive bytes).2 := rfl

/-! ## The position of the channel -/

@[simp] theorem bufsz_next (r : DbusReceiver) (bytes : List UInt8) :
    (receptionMachine.next r bytes).serial.bufsz = r.serial.bufsz := by
  rw [next_receptionMachine]
  unfold receive
  dsimp only
  split
  · exact (bufsz_read _ _).trans (bufsz_uartIsr _)
  · exact bufsz_uartIsr _

@[simp] theorem dmaPos_next (r : DbusReceiver) (bytes : List UInt8) :
    (receptionMachine.next r bytes).serial.dmaPos =
      (r.serial.dmaPos + bytes.length) % r.serial.bufsz.toNat := by
  rw [next_receptionMachine]
  unfold receive
  dsimp only
  split
  · exact (dmaPos_read _ _).trans (dmaPos_uartIsr _)
  · exact dmaPos_uartIsr _

@[simp] theorem bufsz_run (r : DbusReceiver) (bursts : List (List UInt8)) :
    (receptionMachine.run r bursts).serial.bufsz = r.serial.bufsz := by
  induction bursts generalizing r with
  | nil => rfl
  | cons bytes bursts ih => rw [Machine.run_cons, ih, bufsz_next]

/-- The channel is at the number of bytes received so far, modulo the size of the buffer. -/
theorem dmaPos_run {r : DbusReceiver} (h : r.serial.dmaPos < r.serial.bufsz.toNat)
    (bursts : List (List UInt8)) :
    (receptionMachine.run r bursts).serial.dmaPos =
      (r.serial.dmaPos + bursts.flatten.length) % r.serial.bufsz.toNat := by
  induction bursts generalizing r with
  | nil => exact (Nat.mod_eq_of_lt h).symm
  | cons bytes bursts ih =>
    have hnext : (receptionMachine.next r bytes).serial.dmaPos <
        (receptionMachine.next r bytes).serial.bufsz.toNat := by
      rw [dmaPos_next, bufsz_next]
      exact Nat.mod_lt _ (Nat.zero_lt_of_lt h)
    rw [Machine.run_cons, ih hnext, dmaPos_next, bufsz_next, Nat.mod_add_mod, List.flatten_cons,
      List.length_append, Nat.add_assoc]

/-! ## One burst -/

variable {r : DbusReceiver}

/-- In step, a burst leads to the right calls. -/
theorem emit_of_synced (h : r.serial.Synced) (bytes : List UInt8) :
    receptionMachine.emit r bytes = deliveries r.serial.bufsz.toNat bytes := by
  rw [emit_receptionMachine]
  unfold receive deliveries
  rw [h.uartIsr_dmaReceive]
  -- whole turns are not reported; else the callback asks for what is over
  split_ifs with hdvd
  · rfl
  · have hsize : (r.serial.dmaReceive bytes).moved.calcRecvedLen =
        UInt32.ofNat (bytes.length % r.serial.bufsz.toNat) := by
      rw [← h.toNat_calcRecvedLen_moved bytes, UInt32.ofNat_toNat]
    simp only [rxIndicate]
    rw [h.read_dmaReceive hdvd, UInt32.toUInt32_toInt32, hsize]
    rfl

/-- The device after a burst received in step. -/
theorem serial_next_of_synced (h : r.serial.Synced) (bytes : List UInt8) :
    (receptionMachine.next r bytes).serial =
      if r.serial.bufsz.toNat ∣ bytes.length then (r.serial.dmaReceive bytes).moved
      else
        { (r.serial.dmaReceive bytes).moved with
          rxFifo.getIndex := UInt16.ofNat ((r.serial.dmaPos +
            bytes.length % r.serial.bufsz.toNat) % 65536 % r.serial.bufsz.toNat) } := by
  rw [next_receptionMachine]
  unfold receive
  rw [h.uartIsr_dmaReceive]
  split_ifs with hdvd
  · rfl
  · simp only [rxIndicate]
    rw [h.read_dmaReceive hdvd]

/-- Adding in 16 bits before the reduction is harmless exactly when the sum fits. -/
private theorem add_mod_two_pow_mod_iff {B w d : ℕ} (hB : B < 65536) (hw : w < B) (hd : d < B) :
    (w + d) % 65536 % B = (w + d) % B ↔ w + d ≤ 65535 := by
  constructor
  · intro h
    by_contra hover
    -- past 65535 the sum loses 65536 where it should lose `B`, which is less
    have hshort : (w + d) % 65536 = w + d - 65536 := by omega
    rw [hshort, Nat.mod_eq_of_lt (by omega), Nat.mod_eq_sub_mod (by omega),
      Nat.mod_eq_of_lt (by omega)] at h
    omega
  · intro h
    rw [Nat.mod_eq_of_lt (by omega : w + d < 65536)]

/-- The indices stay in step exactly when `get_index` does not overflow on the way. -/
theorem synced_next_iff (h : r.serial.Synced) (bytes : List UInt8) :
    (receptionMachine.next r bytes).serial.Synced ↔
      r.serial.dmaPos + bytes.length % r.serial.bufsz.toNat ≤ 65535 := by
  have hB := r.serial.bufsz.toNat_lt
  have hpos : (r.serial.dmaPos + bytes.length) % r.serial.bufsz.toNat < r.serial.bufsz.toNat :=
    Nat.mod_lt _ (Nat.zero_lt_of_lt h.pos_lt)
  have hd := Nat.mod_lt bytes.length (Nat.zero_lt_of_lt h.pos_lt)
  have hlast := toNat_lastIndex_moved (s := r.serial.dmaReceive bytes) hpos
  have hput := toNat_putIndex_moved (s := r.serial.dmaReceive bytes) hpos
  rw [serial_next_of_synced h]
  split_ifs with hdvd
  · -- whole turns: the position, and with it `get_index`, stays where it was
    have hzero := Nat.mod_eq_zero_of_dvd hdvd
    have hsame := (add_mod_eq_self_iff h.pos_lt bytes.length).mpr hzero
    have hpos_lt := h.pos_lt
    exact iff_of_true ⟨hpos, hlast, hput, h.getIndex.trans hsame.symm, h.isFull⟩ (by omega)
  -- else `get_index` is reduced after the sum was cut to 16 bits
  · have hle := Nat.mod_le ((r.serial.dmaPos + bytes.length % r.serial.bufsz.toNat) % 65536)
      r.serial.bufsz.toNat
    have hget : (UInt16.ofNat ((r.serial.dmaPos + bytes.length % r.serial.bufsz.toNat) % 65536 %
          r.serial.bufsz.toNat)).toNat =
        (r.serial.dmaPos + bytes.length % r.serial.bufsz.toNat) % 65536 % r.serial.bufsz.toNat :=
      UInt16.toNat_ofNat_of_lt' (by change _ < 2 ^ 16; omega)
    rw [← add_mod_two_pow_mod_iff hB h.pos_lt hd, Nat.add_mod_mod]
    exact ⟨fun hs => hget.symm.trans hs.getIndex,
      fun heq => ⟨hpos, hlast, hput, hget.trans heq, h.isFull⟩⟩

/-! ## Sequences of bursts -/

/-- **Exact reception.** Bursts are received exactly as long as the position and the rest of the
next burst together fit 16 bits. -/
theorem receptionExact_iff {bufsz : UInt16} (h : 0 < bufsz.toNat) (buffer : ℕ → UInt8)
    (dbus : DbusState) (bursts : List (List UInt8)) :
    ReceptionExact bufsz buffer dbus bursts ↔
      ∀ pre bytes post, bursts = pre ++ bytes :: post →
        pre.flatten.length % bufsz.toNat + bytes.length % bufsz.toNat ≤ 65535 := by
  -- in step, a burst is received exactly if its sum fits
  have hcongr : ReceptionExact bufsz buffer dbus bursts ↔
      receptionMachine.Along
        (fun r bytes => r.serial.dmaPos + bytes.length % r.serial.bufsz.toNat ≤ 65535)
        (opened bufsz buffer dbus) bursts :=
    Machine.along_congr (I := fun r => r.serial.Synced) (A := fun _ => True)
      (fun r bytes hr _ => ⟨fun hexact => (synced_next_iff hr bytes).mp hexact.1,
        fun hfits => ⟨(synced_next_iff hr bytes).mpr hfits, emit_of_synced hr bytes⟩⟩)
      (fun _ _ _ _ hexact => hexact.1) (synced_opened h buffer) fun _ _ => trivial
  -- the position is that of the bytes received so far
  rw [hcongr, Machine.along_iff_forall]
  have hpos (pre : List (List UInt8)) :
      (receptionMachine.run (opened bufsz buffer dbus) pre).serial.dmaPos =
        pre.flatten.length % bufsz.toNat := by
    have hrun := dmaPos_run (r := opened bufsz buffer dbus) h pre
    rw [hrun]
    exact congrArg (· % bufsz.toNat) (Nat.zero_add _)
  simp only [hpos, bufsz_run]
  rfl

/-- Up to half the range of the indices, every sequence is received exactly. -/
theorem receptionExact_of_le {bufsz : UInt16} (h : 0 < bufsz.toNat) (hle : bufsz.toNat ≤ 32768)
    (buffer : ℕ → UInt8) (dbus : DbusState) (bursts : List (List UInt8)) :
    ReceptionExact bufsz buffer dbus bursts := by
  rw [receptionExact_iff h]
  intro pre bytes _ _
  have hpre := Nat.mod_lt pre.flatten.length h
  have hbytes := Nat.mod_lt bytes.length h
  omega

/-- Bursts received exactly lead to their calls, one after the other. -/
theorem ReceptionExact.trace_eq {bufsz : UInt16} {buffer : ℕ → UInt8} {dbus : DbusState}
    {bursts : List (List UInt8)} (hexact : ReceptionExact bufsz buffer dbus bursts) :
    receptionMachine.trace (opened bufsz buffer dbus) bursts =
      bursts.flatMap (deliveries bufsz.toNat) :=
  Machine.trace_eq_flatMap_of_along (I := fun r => r.serial.bufsz = bufsz)
    (fun _ _ hr hburst => hburst.2.trans (by rw [hr]))
    (fun r bytes hr _ => (bufsz_next r bytes).trans hr) rfl hexact

/-! ## Streams of frames -/

/-- A frame is to be delivered whole exactly when the buffer has a byte to spare. -/
theorem deliveries_frame_iff {B : ℕ} (hB : 0 < B) {frame : List UInt8}
    (hframe : frame.length = 18) :
    deliveries B frame = [{ size := 18, bytes := frame }] ↔ 18 < B := by
  unfold deliveries lastTurn
  rw [hframe]
  constructor
  · intro h
    -- a buffer of 18 bytes or less delivers less than a frame, or nothing
    by_contra hle
    split_ifs at h with hdvd
    have hlen := congrArg (fun d => d.map fun d => d.bytes.length) h
    have hmod := Nat.mod_lt 18 hB
    simp [hframe] at hlen
    omega
  · intro hlt
    have hdvd : ¬ B ∣ 18 := fun h => absurd (Nat.le_of_dvd (by decide) h) (Nat.not_le.mpr hlt)
    rw [if_neg hdvd, Nat.mod_eq_of_lt hlt]
    rfl

theorem length_flatten_frames {frames : List (List UInt8)}
    (h : ∀ frame ∈ frames, frame.length = 18) : frames.flatten.length = 18 * frames.length := by
  rw [List.length_flatten, List.map_congr_left h, List.map_const', List.sum_replicate_nat,
    Nat.mul_comm]

/-- The frames of a stream fit wherever they start. -/
theorem streamsFrames_of_le {bufsz : UInt16} (hlt : 18 < bufsz.toNat)
    (hle : bufsz.toNat + 18 ≤ 65535 + Nat.gcd 18 bufsz.toNat) : StreamsFrames bufsz := by
  intro buffer dbus frames hframes
  have hexact : ReceptionExact bufsz buffer dbus frames := by
    -- the frames so far end at a multiple of the common divisor of 18 and the size
    rw [receptionExact_iff (by omega)]
    rintro pre frame post rfl
    have hpre : pre.flatten.length = 18 * pre.length :=
      length_flatten_frames fun f hf => hframes f (List.mem_append_left _ hf)
    have hbound := mul_mod_add_gcd_le (by omega : 0 < bufsz.toNat) 18 pre.length
    rw [hpre, hframes frame (by simp), Nat.mod_eq_of_lt hlt]
    omega
  rw [hexact.trace_eq, List.map_eq_flatMap]
  exact List.flatMap_congr fun frame hmem =>
    (deliveries_frame_iff (by omega) (hframes frame hmem)).mpr hlt

/-- In a stream every single frame is delivered. -/
theorem StreamsFrames.emit_run {bufsz : UInt16} (h : StreamsFrames bufsz) (buffer : ℕ → UInt8)
    (dbus : DbusState) {pre : List (List UInt8)} {frame : List UInt8}
    (hpre : ∀ f ∈ pre, f.length = 18) (hframe : frame.length = 18) :
    receptionMachine.emit (receptionMachine.run (opened bufsz buffer dbus) pre) frame =
      [{ size := 18, bytes := frame }] := by
  have hall : ∀ f ∈ pre ++ [frame], f.length = 18 := by
    simpa [or_imp, forall_and, hframe] using hpre
  have htrace := h buffer dbus (pre ++ [frame]) hall
  -- the calls of the frames before it cancel
  rw [Machine.trace_append, h buffer dbus pre hpre, List.map_append] at htrace
  simpa using List.append_cancel_left htrace

/-- A buffer with no byte to spare already loses the first frame. -/
theorem not_streamsFrames_of_le {bufsz : UInt16} (h : 0 < bufsz.toNat) (hle : bufsz.toNat ≤ 18) :
    ¬ StreamsFrames bufsz := by
  intro hstreams
  have hframe : (List.replicate 18 (0 : UInt8)).length = 18 := List.length_replicate
  have hfirst := hstreams.emit_run (fun _ => 0) DbusState.zero (List.forall_mem_nil _) hframe
  rw [Machine.run_nil, emit_of_synced (synced_opened h _)] at hfirst
  have hlt := (deliveries_frame_iff h hframe).mp hfirst
  omega

/-! ## After an overflow -/

/-- An overflow of `get_index` leaves it that much behind the channel. -/
theorem lagging_next_of_overflow (h : r.serial.Synced) {bytes : List UInt8}
    (hover : 65535 < r.serial.dmaPos + bytes.length % r.serial.bufsz.toNat) {lag : ℕ}
    (hlag : lag + r.serial.bufsz.toNat = 65536) :
    (receptionMachine.next r bytes).serial.Lagging lag := by
  have hB := r.serial.bufsz.toNat_lt
  have hpos_lt := h.pos_lt
  have hd := Nat.mod_lt bytes.length (Nat.zero_lt_of_lt h.pos_lt)
  have hdvd : ¬ r.serial.bufsz.toNat ∣ bytes.length := by
    intro h0
    rw [Nat.mod_eq_zero_of_dvd h0] at hover
    omega
  have hpos : (r.serial.dmaPos + bytes.length) % r.serial.bufsz.toNat =
      r.serial.dmaPos + bytes.length % r.serial.bufsz.toNat - r.serial.bufsz.toNat := by
    rw [← Nat.add_mod_mod, Nat.mod_eq_sub_mod (by omega), Nat.mod_eq_of_lt (by omega)]
  have hmod : (r.serial.dmaPos + bytes.length) % r.serial.bufsz.toNat < r.serial.bufsz.toNat := by
    omega
  -- the sum loses 65536 before the reduction finds nothing more to take away
  have hshort : (r.serial.dmaPos + bytes.length % r.serial.bufsz.toNat) % 65536 %
      r.serial.bufsz.toNat =
        r.serial.dmaPos + bytes.length % r.serial.bufsz.toNat - 65536 := by
    rw [Nat.mod_eq_sub_mod (by omega : 65536 ≤ _), Nat.mod_eq_of_lt (by omega : _ < 65536),
      Nat.mod_eq_of_lt (by omega)]
  have hserial := serial_next_of_synced h bytes
  rw [if_neg hdvd] at hserial
  have hget : (receptionMachine.next r bytes).serial.rxFifo.getIndex.toNat =
      r.serial.dmaPos + bytes.length % r.serial.bufsz.toNat - 65536 := by
    rw [hserial, hshort]
    exact UInt16.toNat_ofNat_of_lt' (show _ < 2 ^ 16 by omega)
  have hdma := dmaPos_next r bytes
  exact
    { pos_lt := by rw [hdma, bufsz_next]; exact hmod
      lastIndex := by
        rw [hdma, hserial]
        exact toNat_lastIndex_moved (s := r.serial.dmaReceive bytes) hmod
      putIndex := by
        rw [hdma, hserial]
        exact toNat_putIndex_moved (s := r.serial.dmaReceive bytes) hmod
      getIndex := by
        rw [hdma, hget, hpos]
        omega
      isFull := by
        rw [hserial]
        exact h.isFull }

/-- The next call is given the bytes that wait again as well. -/
theorem map_size_emit_of_lagging {lag : ℕ} (h : r.serial.Lagging lag) {bytes : List UInt8}
    (hbytes : 0 < bytes.length) (hfits : r.serial.dmaPos + bytes.length < r.serial.bufsz.toNat) :
    (receptionMachine.emit r bytes).map (fun d => d.size.toNat) = [bytes.length + lag] := by
  have hmod : (r.serial.dmaPos + bytes.length) % r.serial.bufsz.toNat =
      r.serial.dmaPos + bytes.length := Nat.mod_eq_of_lt hfits
  have hpos : (r.serial.dmaReceive bytes).dmaPos < (r.serial.dmaReceive bytes).bufsz.toNat :=
    hmod.trans_lt hfits
  have hlag := h.getIndex
  have hget : (r.serial.dmaReceive bytes).rxFifo.getIndex ≤
      (r.serial.dmaReceive bytes).rxFifo.putIndex :=
    UInt16.le_iff_toNat_le.mpr ((Nat.le.intro hlag).trans h.putIndex.ge)
  -- the burst moves the channel, so it is reported
  have hmove : ¬ (r.serial.dmaReceive bytes).dmaPos =
      (r.serial.dmaReceive bytes).rxFifo.putIndex.toNat := by
    intro heq
    have hsame : r.serial.dmaPos + bytes.length = r.serial.dmaPos :=
      hmod.symm.trans (heq.trans h.putIndex)
    omega
  have hisr := uartIsr_eq hpos (h.lastIndex.trans h.putIndex.symm) h.isFull hget
  rw [if_neg hmove] at hisr
  -- what waits is the burst and the bytes that were left behind
  have hlen : (r.serial.dmaReceive bytes).moved.calcRecvedLen.toNat = bytes.length + lag := by
    rw [toNat_calcRecvedLen (s := (r.serial.dmaReceive bytes).moved) h.isFull
      ((Nat.le.intro hlag).trans_lt h.pos_lt), toNat_putIndex_moved hpos]
    change ringDistance _ r.serial.rxFifo.getIndex.toNat
      ((r.serial.dmaPos + bytes.length) % r.serial.bufsz.toNat) = _
    rw [hmod, ringDistance, if_pos (by omega)]
    omega
  rw [emit_receptionMachine]
  unfold receive
  rw [hisr]
  exact congrArg (fun n => [n]) hlen

/-- So the frame after an overflow is not delivered as it should be. -/
theorem emit_next_ne_of_overflow (h : r.serial.Synced) (hlt : 18 < r.serial.bufsz.toNat)
    (hover : 65535 < r.serial.dmaPos + 18) {frame next : List UInt8} (hframe : frame.length = 18)
    (hnext : next.length = 18) :
    receptionMachine.emit (receptionMachine.next r frame) next ≠
      [{ size := 18, bytes := next }] := by
  have hB := r.serial.bufsz.toNat_lt
  have hpos_lt := h.pos_lt
  have hrest : frame.length % r.serial.bufsz.toNat = 18 := by rw [hframe, Nat.mod_eq_of_lt hlt]
  obtain ⟨lag, hlag⟩ : ∃ lag, lag + r.serial.bufsz.toNat = 65536 :=
    ⟨65536 - r.serial.bufsz.toNat, by omega⟩
  have hlagging : (receptionMachine.next r frame).serial.Lagging lag :=
    lagging_next_of_overflow h (by omega) hlag
  -- after the overflow the channel is near the start, and the next frame fits before the end
  have hpos : (receptionMachine.next r frame).serial.dmaPos =
      r.serial.dmaPos + 18 - r.serial.bufsz.toNat := by
    rw [dmaPos_next, hframe, Nat.mod_eq_sub_mod (by omega), Nat.mod_eq_of_lt (by omega)]
  have hsize : (receptionMachine.emit (receptionMachine.next r frame) next).map
      (fun d => d.size.toNat) = [next.length + lag] :=
    map_size_emit_of_lagging hlagging (by omega) (by rw [hpos, bufsz_next]; omega)
  -- as the call should be, the lag would be zero
  intro heq
  rw [heq, hnext] at hsize
  have h18 : 18 = 18 + lag := List.singleton_inj.mp hsize
  omega

/-- A stream comes close enough to the end of such a buffer for `get_index` to overflow. -/
theorem not_streamsFrames_of_lt {bufsz : UInt16} (hlt : 18 < bufsz.toNat)
    (hover : 65535 + Nat.gcd 18 bufsz.toNat < bufsz.toNat + 18) : ¬ StreamsFrames bufsz := by
  intro hstreams
  have hgcd := Nat.gcd_le_left bufsz.toNat (by decide : 0 < 18)
  -- some multiple of 18 comes as near to the end as the common divisor allows
  obtain ⟨k, hk⟩ := exists_mul_mod_add_gcd (n := 18) (hgcd.trans_lt hlt)
  have hex : ∃ k, 65535 < 18 * k % bufsz.toNat + 18 := ⟨k, by omega⟩
  -- up to the first such position everything is in step
  have hframe : (List.replicate 18 (0 : UInt8)).length = 18 := List.length_replicate
  have hframes (k : ℕ) : ∀ f ∈ List.replicate k (List.replicate 18 (0 : UInt8)), f.length = 18 :=
    fun f hf => (List.eq_of_mem_replicate hf) ▸ hframe
  have hexact : ReceptionExact bufsz (fun _ => 0) DbusState.zero
      (List.replicate (Nat.find hex) (List.replicate 18 0)) := by
    rw [receptionExact_iff (by omega)]
    intro pre frame post hsplit
    have hmem : ∀ f ∈ pre ++ frame :: post, f.length = 18 := hsplit ▸ hframes _
    have hlen := congrArg List.length hsplit
    rw [List.length_replicate, List.length_append, List.length_cons] at hlen
    have hbefore := Nat.find_min hex (by omega : pre.length < Nat.find hex)
    rw [length_flatten_frames fun f hf => hmem f (List.mem_append_left _ hf),
      hmem frame (List.mem_append_right _ List.mem_cons_self), Nat.mod_eq_of_lt hlt]
    omega
  have hsynced : (receptionMachine.run (opened bufsz (fun _ => 0) DbusState.zero)
      (List.replicate (Nat.find hex) (List.replicate 18 0))).serial.Synced :=
    Machine.run_of_along (I := fun r => r.serial.Synced) (fun _ _ _ hburst => hburst.1)
      (synced_opened (by omega) _) hexact
  have hpos : (receptionMachine.run (opened bufsz (fun _ => 0) DbusState.zero)
      (List.replicate (Nat.find hex) (List.replicate 18 0))).serial.dmaPos =
        18 * Nat.find hex % bufsz.toNat := by
    rw [dmaPos_run (synced_opened (by omega) _).pos_lt, length_flatten_frames (hframes _),
      List.length_replicate]
    exact congrArg (· % bufsz.toNat) (Nat.zero_add _)
  -- and the second frame after it is not delivered
  have hlost := hstreams.emit_run (fun _ => 0) DbusState.zero (hframes (Nat.find hex + 1)) hframe
  rw [List.replicate_succ', Machine.run_append, Machine.run_cons, Machine.run_nil] at hlost
  refine emit_next_ne_of_overflow hsynced ?_ ?_ hframe hframe hlost
  · rw [bufsz_run]
    exact hlt
  · rw [hpos]
    exact Nat.find_spec hex

/-- In numbers: the buffer is a little short of the range of the indices, or a whole number of
frames. -/
private theorem add_le_gcd_iff {B : ℕ} (hB : B < 65536) :
    B + 18 ≤ 65535 + Nat.gcd 18 B ↔ B ≤ 65518 ∨ B = 65520 := by
  -- near the limit the sizes are tried one by one
  rcases Nat.lt_or_ge 65518 B with hlarge | hsmall
  · interval_cases B <;> decide
  · have hpos := Nat.gcd_pos_of_pos_left B (by decide : 0 < 18)
    exact iff_of_true (by omega) (Or.inl hsmall)

/-- **Streams.** A frame a call needs a byte to spare, and a buffer that the stream cannot drive
into the overflow. -/
theorem streamsFrames_iff {bufsz : UInt16} (h : 0 < bufsz.toNat) :
    StreamsFrames bufsz ↔
      18 < bufsz.toNat ∧ (bufsz.toNat ≤ 65518 ∨ bufsz.toNat = 65520) := by
  rw [← add_le_gcd_iff bufsz.toNat_lt]
  constructor
  · intro hstreams
    have hlt : 18 < bufsz.toNat := by
      -- a buffer without a byte to spare loses the first frame
      by_contra hle
      exact not_streamsFrames_of_le h (Nat.not_lt.mp hle) hstreams
    refine ⟨hlt, ?_⟩
    -- one that the stream drives into the overflow loses a later one
    by_contra hover
    exact not_streamsFrames_of_lt hlt (Nat.not_le.mp hover) hstreams
  · rintro ⟨hlt, hle⟩
    exact streamsFrames_of_le hlt hle

/-! ## The configured buffer -/

/-- A call that `dbus_rx_buffer` has room for, told the number of its bytes. -/
structure Delivery.Fits (d : Delivery) : Prop where
  size_eq : d.size.toNat = d.bytes.length
  size_pos : 1 ≤ d.bytes.length
  size_le : d.bytes.length ≤ 18

/-- The bytes of such a call. -/
def Delivery.toBurst (d : Delivery) (h : d.Fits) : Burst := ⟨d.bytes, h.size_pos, h.size_le⟩

theorem fits_of_mem_deliveries {bytes : List UInt8} {d : Delivery} (h : d ∈ deliveries 19 bytes) :
    d.Fits := by
  unfold deliveries at h
  -- whole turns lead to no call, and the rest of a turn to one of its length
  split_ifs at h with hdvd
  · exact absurd h List.not_mem_nil
  · obtain rfl := List.mem_singleton.mp h
    have hlt := Nat.mod_lt bytes.length (by decide : 0 < 19)
    have hle := Nat.mod_le bytes.length 19
    have hpos := Nat.pos_of_ne_zero fun h0 => hdvd (Nat.dvd_of_mod_eq_zero h0)
    have hlen : (lastTurn 19 bytes).length = bytes.length % 19 := by
      rw [lastTurn, List.length_drop]
      omega
    exact ⟨(UInt32.toNat_ofNat_of_lt' (show _ < 2 ^ 32 by omega)).trans hlen.symm,
      hpos.trans_eq hlen.symm, hlen.trans_le (Nat.le_of_lt_succ hlt)⟩

/-- With 19 bytes no call gets more than a frame. -/
theorem fits_of_mem_trace (buffer : ℕ → UInt8) (dbus : DbusState) (bursts : List (List UInt8)) :
    ∀ d ∈ receptionMachine.trace (opened 19 buffer dbus) bursts, d.Fits := by
  have hexact : ReceptionExact 19 buffer dbus bursts :=
    receptionExact_of_le (by decide) (by decide) buffer dbus bursts
  rw [hexact.trace_eq]
  intro d hd
  obtain ⟨bytes, -, hmem⟩ := List.mem_flatMap.mp hd
  exact fits_of_mem_deliveries hmem

/-- **Reception.** Bursts are delivered exactly as long as `get_index` does not overflow on its way
to a reduced position; a buffer that a stream of frames cannot drive there delivers one frame a call
if and only if it has more than 18 bytes; and with the configured 19 bytes `dbus_rx_buffer` is never
overrun. -/
theorem dbusReception_exact_iff {bufsz : UInt16} (h : 0 < bufsz.toNat) :
    (∀ buffer dbus bursts, ReceptionExact bufsz buffer dbus bursts ↔
        ∀ pre bytes post, bursts = pre ++ bytes :: post →
          pre.flatten.length % bufsz.toNat + bytes.length % bufsz.toNat ≤ 65535) ∧
      ((StreamsFrames bufsz ↔ 18 < bufsz.toNat) ↔
        bufsz.toNat ≤ 65518 ∨ bufsz.toNat = 65520) ∧
      (bufsz = 19 → ∀ buffer dbus bursts,
        ∀ d ∈ receptionMachine.trace (opened bufsz buffer dbus) bursts, d.Fits) := by
  refine ⟨receptionExact_iff h, ?_, ?_⟩
  · rw [streamsFrames_iff h]
    constructor
    · intro hiff
      -- a size above 65518 other than 65520 is larger than 18 and streams nothing
      by_contra hover
      exact hover (hiff.mpr (by omega)).2
    · intro hfits
      exact and_iff_left hfits
  · rintro rfl buffer dbus bursts
    exact fits_of_mem_trace buffer dbus bursts

theorem dbusReception_exact_nineteen : StreamsFrames 19 ↔ 18 < (19 : UInt16).toNat :=
  (dbusReception_exact_iff (by decide)).2.1.mpr (by decide)

/-- On the largest buffer two bursts of 40000 bytes leave `get_index` at 14464, the channel at
14465; a stream of frames ends up there too. -/
theorem not_dbusReception_exact_largest :
    ¬ ReceptionExact 65535 (fun _ => 0) DbusState.zero
        [List.replicate 40000 0, List.replicate 40000 0] ∧
      ¬ (StreamsFrames 65535 ↔ 18 < (65535 : UInt16).toNat) := by
  have hsize : (65535 : UInt16).toNat = 65535 := rfl
  constructor
  · rw [receptionExact_iff (by decide)]
    intro hfits
    have hsecond := hfits [List.replicate 40000 0] (List.replicate 40000 0) [] rfl
    rw [List.flatten_singleton, List.length_replicate, hsize] at hsecond
    omega
  · rw [streamsFrames_iff (by decide), hsize]
    omega

/-! ## The record -/

/-- `dbus_input` is all that touches the globals. -/
theorem dbus_run (r : DbusReceiver) (bursts : List (List UInt8)) :
    (receptionMachine.run r bursts).dbus =
      ((receptionMachine.trace r bursts).map Delivery.bytes).foldl dbusInput r.dbus := by
  -- burst by burst: the interrupt leaves the globals to the callback
  induction bursts generalizing r with
  | nil => rfl
  | cons bytes bursts ih =>
    have hnext : (receptionMachine.next r bytes).dbus =
        ((receptionMachine.emit r bytes).map Delivery.bytes).foldl dbusInput r.dbus := by
      rw [next_receptionMachine, emit_receptionMachine]
      unfold receive
      dsimp only
      split <;> rfl
    rw [Machine.run_cons, Machine.trace_cons, List.map_append, List.foldl_append, ih, hnext]

theorem run_dbusMachine (s : DbusState) (calls : List Burst) :
    dbusMachine.run s calls = (calls.map Burst.bytes).foldl dbusInput s := by
  rw [List.foldl_map]
  rfl

/-- **Refinement.** With 19 bytes the receiver does to the globals what `dbus_input` does when it is
called with bursts of at most a frame. -/
theorem exists_calls (buffer : ℕ → UInt8) (dbus : DbusState) (bursts : List (List UInt8)) :
    ∃ calls : List Burst,
      calls.map Burst.bytes =
        (receptionMachine.trace (opened 19 buffer dbus) bursts).map Delivery.bytes ∧
      (receptionMachine.run (opened 19 buffer dbus) bursts).dbus = dbusMachine.run dbus calls := by
  have hfits := fits_of_mem_trace buffer dbus bursts
  have hcalls : ((receptionMachine.trace (opened 19 buffer dbus) bursts).pmap Delivery.toBurst
      hfits).map Burst.bytes =
        (receptionMachine.trace (opened 19 buffer dbus) bursts).map Delivery.bytes := by
    rw [List.map_pmap]
    exact List.pmap_eq_map hfits
  refine ⟨_, hcalls, ?_⟩
  rw [dbus_run, run_dbusMachine, hcalls]
  rfl

/-- After a stream of frames the record is the decode of the last one. -/
theorem rc_run_frames (buffer : ℕ → UInt8) (dbus : DbusState) {pre : List (List UInt8)}
    {frame : List UInt8} (hpre : ∀ f ∈ pre, f.length = 18) (hframe : frame.length = 18) :
    (receptionMachine.run (opened 19 buffer dbus) (pre ++ [frame])).dbus.rc =
      Algorithm.rcProcess dbus.rc (frameOf frame) := by
  have hall : ∀ f ∈ pre ++ [frame], f.length = 18 := by
    simpa [or_imp, forall_and, hframe] using hpre
  have hstream : StreamsFrames 19 := (streamsFrames_iff (by decide)).mpr (by decide)
  obtain ⟨calls, hcalls, hrun⟩ := exists_calls buffer dbus (pre ++ [frame])
  rw [hstream buffer dbus _ hall, List.map_map] at hcalls
  have hbytes : calls.map Burst.bytes = pre ++ [frame] := hcalls.trans (List.map_id _)
  -- the last call brings the last frame
  rcases List.eq_nil_or_concat' calls with rfl | ⟨cs, full, rfl⟩
  · exact absurd hbytes (by simp)
  · rw [List.map_append] at hbytes
    have hfull : full.bytes = frame := by
      simpa using (List.append_inj' hbytes rfl).2
    have hlen : full.IsFull := by rw [Burst.IsFull, hfull, hframe]
    rw [hrun, run_rc_of_isFull dbus cs hlen, hfull]

end RobomasterFirmware.Applications
